import WriterAgent.Foundations.Dict
import WriterAgent.Foundations.Text

/-!
# JSON values in Python

What `json.loads` returns: a tree of `None`, booleans, numbers, strings, lists
and dictionaries with text keys.  How Python adds and orders numbers is left to
an interface; a boolean counts as the number 0 or 1.
-/

namespace WriterAgent

open PyText Option

/-- The numbers of a JSON text: integers and floats. -/
class PyNumber (ν : Type) where
  ofInt : ℤ → ν
  /-- The integer that an `int` is; a float is none. -/
  toInt? : ν → Option ℤ
  add : ν → ν → ν
  lt : ν → ν → Bool
  isZero : ν → Bool
  toInt?_ofInt : ∀ n, toInt? (ofInt n) = some n

/-- JSON texts without floats. -/
instance : PyNumber ℤ where
  ofInt n := n
  toInt? := some
  add a b := a + b
  lt a b := decide (a < b)
  isZero n := decide (n = 0)
  toInt?_ofInt _ := rfl

/-- The exceptions that the code below raises on values of the wrong shape. -/
inductive PyException where
  | typeError
  | attributeError
  | keyError
  | runtimeError
  deriving DecidableEq, Repr

variable {ε α : Type} {key : String}

theorem bind_eq_ok_iff {β : Type} {first : Except ε α} {next : α → Except ε β} {result : β} :
    first >>= next = .ok result ↔ ∃ value, first = .ok value ∧ next value = .ok result := by
  cases first with
  | error | ok => simp [bind, Except.bind]

theorem mapError_eq_ok_iff {δ : Type} {outcome : Except ε α} {f : ε → δ}
    {value : α} : outcome.mapError f = .ok value ↔ outcome = .ok value := by
  cases outcome with
  | error | ok => simp [Except.mapError]

inductive Json (ν : Type) where
  | null
  | bool (b : Bool)
  | num (n : ν)
  | str (s : Text)
  | arr (items : List (Json ν))
  | obj (fields : List (Text × Json ν))

abbrev Json.Fields (ν : Type) := List (Text × Json ν)

variable {ν : Type}

/-- A text field; an empty text may be `null` or left out. -/
def RendersText (text : Text) (json : Json ν) : Prop :=
  json = .str text ∨ text = [] ∧ json = .null

theorem RendersText.eq_nil {text : Text}
    (renders : RendersText text (.null : Json ν)) : text = [] := by
  rcases renders with impossible | ⟨empty, -⟩
  · cases impossible
  · exact empty

namespace Json

abbrev text (s : String) : Json ν := .str s.toList

def isNull : Json ν → Bool
  | .null => true
  | _ => false

/-- The text of a `str`; of anything else there is none. -/
def toText? : Json ν → Option Text
  | .str s => some s
  | _ => none

/-- `isinstance(value, str) and value == s`. -/
def isText (value : Json ν) (s : String) : Bool :=
  decide (value.toText? = some s.toList)

/-- The fields of a `dict`, and none of anything else. -/
def toFields : Json ν → Fields ν
  | .obj fields => fields
  | _ => []

/-- `fields.get(key, default)`. -/
def getD (fields : Fields ν) (key : String) (default : Json ν) : Json ν :=
  (PyDict.lookup key.toList fields).getD default

/-- `fields.get(key)`. -/
def get (fields : Fields ν) (key : String) : Json ν :=
  getD fields key .null

/-- `key in fields`. -/
def has (fields : Fields ν) (key : String) : Bool :=
  (PyDict.lookup key.toList fields).isSome

/-- `fields[key] = value`. -/
def put (fields : Fields ν) (key : String) (value : Json ν) : Fields ν :=
  PyDict.insertEntry key.toList value fields

variable {fields : Fields ν}

theorem getD_of_absent (absent : key.toList ∉ fields.map Prod.fst) (default : Json ν) :
    getD fields key default = default := by
  rw [getD, PyDict.lookup_eq_none.mpr absent, getD_none]

theorem lookup_of_get {value : Json ν} (given : get fields key = value) (notNull : value ≠ .null) :
    PyDict.lookup key.toList fields = some value := by
  rw [get, getD] at given
  cases found : PyDict.lookup key.toList fields with
  | none =>
    rw [found] at given
    exact absurd given.symm notNull
  | some other =>
    rw [found] at given
    exact congrArg some given

theorem getD_of_get {value : Json ν} (given : get fields key = value) (notNull : value ≠ .null)
    (default : Json ν) : getD fields key default = value := by
  rw [getD, lookup_of_get given notNull, getD_some]

theorem has_of_absent (absent : key.toList ∉ fields.map Prod.fst) : has fields key = false := by
  rw [has, PyDict.lookup_eq_none.mpr absent, isSome_none]

theorem get_of_hasNot (hasNot : has fields key = false) :
    get fields key = .null := by
  rw [has, isSome_eq_false_iff, isNone_iff_eq_none] at hasNot
  rw [get, getD, hasNot, getD_none]

theorem getD_put (fields : Fields ν) (key k : String) (value default : Json ν) :
    getD (put fields key value) k default =
      if k = key then value else getD fields k default := by
  rw [getD, put, PyDict.lookup_insertEntry]
  by_cases same : k = key
  · rw [if_pos same, if_pos (congrArg String.toList same), getD_some]
  · have apart : k.toList ≠ key.toList := fun equal =>
      same (String.toList_injective equal)
    rw [if_neg same, if_neg apart, getD]

theorem get_put (fields : Fields ν) (key k : String) (value : Json ν) :
    get (put fields key value) k = if k = key then value else get fields k :=
  getD_put fields key k value .null

theorem insertEntry_ne_nil (key : Text) (value : Json ν)
    (fields : Fields ν) : PyDict.insertEntry key value fields ≠ [] := by
  cases fields with
  | nil => exact List.cons_ne_nil _ _
  | cons field rest =>
    rw [PyDict.insertEntry]
    split <;> exact List.cons_ne_nil _ _

theorem put_ne_nil (fields : Fields ν) (key : String) (value : Json ν) :
    put fields key value ≠ [] :=
  insertEntry_ne_nil key.toList value fields

theorem present_of_has (has : has fields key = true) :
    key.toList ∈ fields.map Prod.fst := by
  by_contra absent
  rw [has_of_absent absent] at has
  cases has

theorem present_of_get (given : get fields key ≠ .null) :
    key.toList ∈ fields.map Prod.fst := by
  by_contra absent
  exact given (getD_of_absent absent .null)

theorem keys_insertEntry {key : Text} {value : Json ν} (present : key ∈ fields.map Prod.fst) :
    (PyDict.insertEntry key value fields).map Prod.fst = fields.map Prod.fst := by
  induction fields with
  | nil => cases present
  | cons field rest ih =>
    obtain ⟨first, old⟩ := field
    rw [PyDict.insertEntry]
    split
    · rfl
    · rename_i other
      rcases List.mem_cons.mp present with here | later
      · exact absurd here.symm other
      · exact congrArg (first :: ·) (ih later)

theorem keys_put (value : Json ν) (present : key.toList ∈ fields.map Prod.fst) :
    (put fields key value).map Prod.fst = fields.map Prod.fst :=
  keys_insertEntry present

variable [PyNumber ν]

def truthy : Json ν → Bool
  | .null => false
  | .bool b => b
  | .num n => !PyNumber.isZero n
  | .str s => !s.isEmpty
  | .arr items => !items.isEmpty
  | .obj fields => !fields.isEmpty

/-- `left or right`. -/
def orElse (left right : Json ν) : Json ν :=
  if left.truthy then left else right

def toNumber? : Json ν → Option ν
  | .bool b => some (PyNumber.ofInt (if b then 1 else 0))
  | .num n => some n
  | _ => none

/-- The integer of an `isinstance(value, int)`. -/
def toInt? (value : Json ν) : Option ℤ :=
  value.toNumber?.bind PyNumber.toInt?

/-- What `for item in value` goes through. -/
def iterate : Json ν → Except PyException (List (Json ν))
  | .arr items => .ok items
  | .str s => .ok (s.map fun c => .str [c])
  | .obj fields => .ok (fields.map fun field => .str field.1)
  | _ => .error .typeError

end Json

end WriterAgent
