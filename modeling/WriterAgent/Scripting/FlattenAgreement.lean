import WriterAgent.Scripting.ObjectCells

/-!
# When the two flatten passes agree

Each pass turns a cell into a code (a double, perhaps a text, perhaps a numeric
class) and records the codes in order.  The accelerator's code of a cell does
not depend on the cells before it; the Python pass changes its rule at the
first text.
-/

namespace WriterAgent.Scripting

open PyText List

/-- What a pass records for a cell. -/
structure CellCode where
  double : Binary64
  text : Option Text := none
  numeric : Option ColumnKind := none
  isNone : Bool := false

def raiseClass : Option ColumnKind → Nat → Nat
  | none => id
  | some numeric => raiseTo numeric

def Encoded.record (e : Encoded) (c idx : Nat) (code : CellCode) : Encoded :=
  { buf := e.buf ++ [code.double]
    strings := match code.text with
      | some s => e.strings.set idx s
      | none => e.strings
    columnStates := e.columnStates.modify c (raiseClass code.numeric)
    columnHasNone :=
      if code.isNone then e.columnHasNone.set c true else e.columnHasNone }

/-- The codes of consecutive cells of a grid with `w` columns. -/
def recordAll (w : Nat) : Nat → Encoded → List CellCode → Encoded
  | _, e, [] => e
  | i, e, code :: rest => recordAll w (i + 1) (e.record (i % w) i code) rest

def Cell.code : Cell → CellCode
  | .none => { double := .nan, isNone := true }
  | .bool b => { double := floatOfBool b, numeric := some .bool }
  | .int n => { double := .ofRat n, numeric := some .int }
  | .float x => { double := x, numeric := some .float }
  | .str s => { double := .nan, text := some s }

/-- The class that the accelerator gives an object with a `float`. -/
def PyObject.fastClass (obj : PyObject) : ColumnKind :=
  match obj.dtypeKind with
  | some kind => (dtypeClass kind).getD .float
  | none => .float

/-- The class that the Python pass gives it before the first text. -/
def PyObject.passClass (obj : PyObject) : Option ColumnKind :=
  match obj.dtypeKind with
  | some kind => dtypeClass kind
  | none => some ((nameClass obj.typeName).getD .float)

def PyObject.textCode (obj : PyObject) : CellCode :=
  { double := .nan, text := some obj.text }

def fastCode (raises : Bool) : GridCell → Except FlattenError CellCode
  | .plain cell => .ok cell.code
  | .object obj =>
    match obj.asFloat with
    | .ok x => .ok { double := x, numeric := some obj.fastClass }
    | .error error => if raises then .error (.raised error) else .ok obj.textCode

def slowCode (obj : PyObject) : Except FlattenError CellCode :=
  match obj.numericClass with
  | some numeric =>
    match obj.asFloat with
    | .ok x => .ok { double := x, numeric := some numeric }
    | .error error => .error (.raised error)
  | none => .ok obj.textCode

def passCode (seenText : Bool) : GridCell → Except FlattenError CellCode
  | .plain cell => .ok cell.code
  | .object obj =>
    if seenText then slowCode obj
    else
      match obj.asFloat with
      | .ok x => .ok { double := x, numeric := obj.passClass }
      | .error .rejected => slowCode obj
      | .error .failed => .error (.raised .failed)

def meetsText : GridCell → Bool
  | .plain (.str _) => true
  | .object { asFloat := .error .rejected, .. } => true
  | _ => false

def passCodes : Bool → List GridCell → Except FlattenError (List CellCode)
  | _, [] => .ok []
  | seenText, cell :: rest => do
    let code ← passCode seenText cell
    let codes ← passCodes (seenText || meetsText cell) rest
    pure (code :: codes)

theorem raiseTo_three (numeric : ColumnKind) : raiseTo numeric 3 = 3 := by
  cases numeric with
  | int | bool | float => rfl

variable {w c : Nat} {cell : GridCell} {cells : List GridCell}
  {raises seenText : Bool} {obj : PyObject} {buf rest : List Binary64}
  {x : Binary64} {code : CellCode} {e : Encoded}

theorem flattenUpdateColumnState_eq (obj : PyObject) :
    flattenUpdateColumnState obj = raiseClass obj.passClass := by
  funext state
  unfold flattenUpdateColumnState PyObject.passClass
  split
  · rename_i full
    subst full
    cases obj.dtypeKind with
    | none => exact (raiseTo_three _).symm
    | some kind =>
      cases numeric : dtypeClass kind with
      | none => simp [numeric, raiseClass]
      | some found => simp [numeric, raiseClass, raiseTo_three]
  · cases obj.dtypeKind with
    | none => rfl
    | some kind =>
      cases numeric : dtypeClass kind with
      | none | some found => simp [numeric, raiseClass]

theorem fastUpdateObjectState_eq (obj : PyObject) :
    fastUpdateObjectState obj = raiseTo obj.fastClass := by
  funext state
  unfold fastUpdateObjectState PyObject.fastClass
  split
  · rename_i full
    subst full
    exact (raiseTo_three _).symm
  · cases obj.dtypeKind with
    | none | some => rfl

theorem flattenPassCell_encoded (st : Flattened) (c idx : Nat) (cell : Cell) :
    (flattenPassCell st (c, idx, cell)).encoded = st.encoded.record c idx cell.code ∧
      (flattenPassCell st (c, idx, cell)).hasNonNumeric =
        (st.hasNonNumeric || meetsText (.plain cell)) := by
  cases cell with
  | none =>
    simp [flattenPassCell, Flattened.encoded, Encoded.record, Cell.code, meetsText, raiseClass]
  | str s =>
    simp [flattenPassCell, flattenAppendCellSlow, Flattened.encoded,
      Encoded.record, Cell.code, meetsText, raiseClass]
  | float x | int n | bool b =>
    cases flag : st.hasNonNumeric <;>
      simp [flattenPassCell, flattenAppendCellSlow, Flattened.encoded,
        Encoded.record, Cell.code, meetsText, raiseClass, raiseTo, flag]

def Steps (st : Flattened) (c idx : Nat) (cell : GridCell)
    (code : Except FlattenError CellCode) (result : Except FlattenError Flattened) :
    Prop :=
  match code with
  | .ok code => ∃ next, result = .ok next ∧ next.encoded = st.encoded.record c idx code ∧
      next.hasNonNumeric = (st.hasNonNumeric || meetsText cell)
  | .error error => result = .error error

theorem appendObjectSlow_steps {st : Flattened} {obj : PyObject} (c idx : Nat)
    (seen : st.hasNonNumeric = true) :
    Steps st c idx (.object obj) (slowCode obj) (appendObjectSlow st obj c idx) := by
  unfold slowCode appendObjectSlow
  cases obj.numericClass with
  | none =>
    refine ⟨_, rfl, ?_, by simp [seen]⟩
    simp [Flattened.encoded, Encoded.record, PyObject.textCode, raiseClass]
  | some numeric =>
    cases obj.asFloat with
    | error error => rfl
    | ok x =>
      refine ⟨_, rfl, ?_, by simp [seen]⟩
      simp [Flattened.encoded, Encoded.record, raiseClass]

theorem Steps.of_encoded {st marked : Flattened} {idx : Nat}
    {code : Except FlattenError CellCode} {result : Except FlattenError Flattened}
    (steps : Steps marked c idx cell code result) (same : marked.encoded = st.encoded)
    (flag : (marked.hasNonNumeric || meetsText cell) =
      (st.hasNonNumeric || meetsText cell)) : Steps st c idx cell code result := by
  cases code with
  | error error => exact steps
  | ok code =>
    obtain ⟨next, ran, encoded, seen⟩ := steps
    exact ⟨next, ran, by rw [encoded, same], by rw [seen, flag]⟩

/-- **Step.** A round of the Python pass records the code of its cell. -/
theorem passGridCell_steps (st : Flattened) (c idx : Nat) (cell : GridCell) :
    Steps st c idx cell (passCode st.hasNonNumeric cell) (passGridCell st (c, idx, cell)) := by
  cases cell with
  | plain cell =>
    obtain ⟨encoded, flag⟩ := flattenPassCell_encoded st c idx cell
    exact ⟨_, rfl, encoded, flag⟩
  | object obj =>
    simp only [passCode, passGridCell]
    cases seen : st.hasNonNumeric with
    | true => exact appendObjectSlow_steps c idx seen
    | false =>
      obtain ⟨asFloat, text, dtypeKind, typeName⟩ := obj
      cases asFloat with
      | ok x =>
        refine ⟨_, rfl, ?_, by simp [seen, meetsText]⟩
        simp [Flattened.encoded, Encoded.record, flattenUpdateColumnState_eq]
      | error error =>
        cases error with
        | failed => rfl
        | rejected =>
          have slow := @appendObjectSlow_steps
            { st with hasNonNumeric := true }
            ⟨.error .rejected, text, dtypeKind, typeName⟩ c idx rfl
          exact slow.of_encoded rfl (by simp [meetsText])

/-- **Run.** The Python pass records the codes of all cells, or raises. -/
theorem foldlM_passGridCell (w i : Nat) (cells : List GridCell) (st : Flattened) :
    ((objectPositions w i cells).foldlM passGridCell st).map Flattened.encoded =
      (passCodes st.hasNonNumeric cells).map (recordAll w i st.encoded) := by
  induction cells generalizing i st with
  | nil => rfl
  | cons cell rest ih =>
    have step := passGridCell_steps st (i % w) i cell
    rw [objectPositions, zipIdx_cons, map_cons, foldlM_cons, passCodes]
    cases code : passCode st.hasNonNumeric cell with
    | error error =>
      rw [code] at step
      rw [step]
      rfl
    | ok code =>
      rw [code] at step
      obtain ⟨next, ran, encoded, flag⟩ := step
      have tail := ih (i + 1) next
      rw [flag, encoded] at tail
      rw [ran]
      change ((objectPositions w (i + 1) rest).foldlM passGridCell next).map Flattened.encoded = _
      rw [tail]
      cases passCodes (st.hasNonNumeric || meetsText cell) rest with
      | error | ok => rfl

/-- What the accelerator has recorded so far: the front of its buffer. -/
def Flattened.front (st : Flattened) (buf : List Binary64) : Encoded :=
  { st.encoded with buf := buf }

theorem fastFlattenCell_front (st : Flattened) (c : Nat) (cell : Cell)
    (split : st.buf = buf ++ x :: rest) :
    (fastFlattenCell st (c, buf.length, cell)).front (buf ++ [cell.code.double]) =
        (st.front buf).record c buf.length cell.code ∧
      (fastFlattenCell st (c, buf.length, cell)).buf = buf ++ [cell.code.double] ++ rest := by
  have written : ∀ y, st.buf.set buf.length y = buf ++ [y] ++ rest := by
    intro y
    rw [split, set_append_right _ _ le_rfl, Nat.sub_self,
      set_cons_zero, append_assoc, singleton_append]
  cases cell with
  | none | str s =>
    simp [fastFlattenCell, Flattened.front, Flattened.encoded, Encoded.record,
      Cell.code, raiseClass, written]
  | float x | int n | bool b =>
    simp [fastFlattenCell, Flattened.front, Flattened.encoded, Encoded.record, Cell.code,
      raiseClass, raiseTo, fastUpdateColumnState_eq_raise, raise, written]

/-- **Step.** The accelerator records the code of its cell at the cell's
place. -/
theorem fastGridCell_front (st : Flattened) (c : Nat)
    (split : st.buf = buf ++ x :: rest) (coded : fastCode raises cell = .ok code) :
    ∃ next, fastGridCell raises st (c, buf.length, cell) = .ok next ∧
      next.front (buf ++ [code.double]) = (st.front buf).record c buf.length code ∧
      next.buf = buf ++ [code.double] ++ rest := by
  have written : ∀ y, st.buf.set buf.length y = buf ++ [y] ++ rest := by
    intro y
    rw [split, set_append_right _ _ le_rfl, Nat.sub_self,
      set_cons_zero, append_assoc, singleton_append]
  cases cell with
  | plain cell =>
    obtain rfl := Except.ok.inj coded
    obtain ⟨recorded, buffer⟩ := fastFlattenCell_front st c cell split
    exact ⟨_, rfl, recorded, buffer⟩
  | object obj =>
    simp only [fastCode] at coded
    simp only [fastGridCell]
    cases outcome : obj.asFloat with
    | ok y =>
      rw [outcome] at coded
      obtain rfl := Except.ok.inj coded
      refine ⟨_, rfl, ?_, written y⟩
      simp [Flattened.front, Flattened.encoded, Encoded.record, raiseClass,
        fastUpdateObjectState_eq]
    | error error =>
      simp only [outcome] at coded
      cases raises with
      | true => cases coded
      | false =>
        obtain rfl := Except.ok.inj coded
        refine ⟨_, rfl, ?_, written .nan⟩
        simp [Flattened.front, Flattened.encoded, Encoded.record, PyObject.textCode, raiseClass]

theorem fastGridCell_error (st : Flattened) (c idx : Nat) {error : FlattenError}
    (coded : fastCode raises cell = .error error) :
    fastGridCell raises st (c, idx, cell) = .error error := by
  cases cell with
  | plain cell => cases coded
  | object obj =>
    simp only [fastCode] at coded
    simp only [fastGridCell]
    cases outcome : obj.asFloat with
    | ok y =>
      rw [outcome] at coded
      cases coded
    | error failure =>
      simp only [outcome] at coded
      cases raises with
      | true =>
        cases coded
        rfl
      | false => cases coded

/-- **Run.** The accelerator records the codes of all cells, or raises. -/
theorem foldlM_fastGridCell {raises : Bool} (w : Nat) (cells : List GridCell) {st : Flattened}
    {buf : List Binary64} (split : st.buf = buf ++ List.replicate cells.length (.finite 0)) :
    ((objectPositions w buf.length cells).foldlM (fastGridCell raises) st).map Flattened.encoded =
      (cells.mapM (fastCode raises)).map (recordAll w buf.length (st.front buf)) := by
  induction cells generalizing buf st with
  | nil =>
    have whole : st.front buf = st.encoded := by
      simp only [length_nil, replicate_zero, append_nil] at split
      rw [← split]
      rfl
    exact congrArg Except.ok whole.symm
  | cons cell rest ih =>
    rw [objectPositions, zipIdx_cons, map_cons, foldlM_cons, mapM_cons]
    cases coded : fastCode raises cell with
    | error error =>
      rw [fastGridCell_error st _ _ coded]
      rfl
    | ok code =>
      obtain ⟨next, ran, recorded, buffer⟩ :=
        fastGridCell_front st (buf.length % w) split coded
      have tail := ih buffer
      rw [length_append, length_singleton, recorded] at tail
      rw [ran]
      change ((objectPositions w (buf.length + 1) rest).foldlM
        (fastGridCell raises) next).map Flattened.encoded = _
      rw [tail]
      cases rest.mapM (fastCode raises) with
      | error | ok => rfl

def level : Option ColumnKind → Nat
  | none => 0
  | some .bool => 1
  | some .int => 2
  | some .float => 3

theorem level_le (numeric : Option ColumnKind) : level numeric ≤ 3 := by
  cases numeric with
  | none => exact Nat.zero_le 3
  | some numeric => cases numeric <;> simp [level]

theorem raiseClass_eq_max (numeric : Option ColumnKind) {state : Nat}
    (bound : state ≤ 3) : raiseClass numeric state = max state (level numeric) := by
  cases numeric with
  | none => simp [raiseClass, level]
  | some numeric =>
    cases numeric with
    | bool =>
      simp only [raiseClass, raiseTo, sawBool, level]
      split <;> omega
    | int =>
      simp only [raiseClass, raiseTo, sawInt, level]
      split <;> omega
    | float =>
      simp only [raiseClass, raiseTo, sawFloat, level]
      omega

/-- The state that a column of a grid with `w` columns reaches. -/
def columnLevel (w c : Nat) : Nat → List CellCode → Nat
  | _, [] => 0
  | i, code :: rest =>
    max (if i % w = c then level code.numeric else 0) (columnLevel w c (i + 1) rest)

theorem columnLevel_le (w c i : Nat) (codes : List CellCode) : columnLevel w c i codes ≤ 3 := by
  induction codes generalizing i with
  | nil => exact Nat.zero_le 3
  | cons code rest ih =>
    apply max_le _ (ih _)
    split
    · exact level_le _
    · exact Nat.zero_le 3

theorem le_columnLevel_iff {n : Nat} (positive : 0 < n) (i : Nat) (codes : List CellCode) :
    n ≤ columnLevel w c i codes ↔ ∃ k code, codes[k]? = some code ∧ (i + k) % w = c ∧
        n ≤ level code.numeric := by
  induction codes generalizing i with
  | nil => simp [columnLevel]; omega
  | cons first rest ih =>
    rw [columnLevel, le_max_iff, ih]
    constructor
    · rintro (here | ⟨k, code, found, column, high⟩)
      · split at here
        · next column => exact ⟨0, first, rfl, column, here⟩
        · omega
      · exact ⟨k + 1, code, found, by rw [← column]; congr 1; omega, high⟩
    · rintro ⟨k, code, found, column, high⟩
      cases k with
      | zero =>
        obtain rfl := Option.some.inj found
        rw [Nat.add_zero] at column
        exact Or.inl (by rwa [if_pos column])
      | succ k => exact Or.inr ⟨k, code, found, by rw [← column]; congr 1; omega, high⟩

theorem Encoded.record_states (e : Encoded) (c idx : Nat) (code : CellCode) (k : Nat) :
    (e.record c idx code).columnStates[k]? = e.columnStates[k]?.map fun state =>
        if c = k then raiseClass code.numeric state else state := by
  rw [Encoded.record, List.getElem?_modify]
  cases e.columnStates[k]? with
  | none => rfl
  | some state => by_cases here : c = k <;> simp [here]

theorem recordAll_states (codes : List CellCode) {i : Nat}
    (bound : ∀ state ∈ e.columnStates, state ≤ 3) (c : Nat) :
    (recordAll w i e codes).columnStates[c]? = e.columnStates[c]?.map fun state =>
        max state (columnLevel w c i codes) := by
  induction codes generalizing i e with
  | nil => simp [recordAll, columnLevel]
  | cons code rest ih =>
    have next : ∀ state ∈ (e.record (i % w) i code).columnStates, state ≤ 3 := by
      intro state member
      obtain ⟨k, found⟩ := mem_iff_getElem?.mp member
      rw [Encoded.record_states] at found
      obtain ⟨old, oldFound, rfl⟩ := Option.map_eq_some_iff.mp found
      have oldBound := bound old (mem_of_getElem? oldFound)
      split
      · rw [raiseClass_eq_max _ oldBound]
        exact max_le oldBound (level_le _)
      · exact oldBound
    rw [recordAll, ih next, Encoded.record_states, columnLevel]
    cases found : e.columnStates[c]? with
    | none => rfl
    | some state =>
      have stateBound := bound state (mem_of_getElem? found)
      rw [Option.map_some, Option.map_some, Option.map_some]
      split
      · rw [raiseClass_eq_max _ stateBound, max_assoc]
      · rw [Nat.zero_max]

theorem recordAll_length (codes : List CellCode) (i : Nat) (e : Encoded) :
    (recordAll w i e codes).columnStates.length = e.columnStates.length := by
  induction codes generalizing i e with
  | nil => rfl
  | cons code rest ih => rw [recordAll, ih]; simp [Encoded.record]

theorem recordAll_text (codes : List CellCode) (i : Nat) (e : Encoded) (k : Nat) :
    (recordAll w i e codes).strings.get? k =
      ((if i ≤ k then codes[k - i]? else none).bind CellCode.text).or (e.strings.get? k) := by
  induction codes generalizing i e with
  | nil => simp [recordAll]
  | cons code rest ih =>
    rw [recordAll, ih]
    rcases Nat.lt_trichotomy k i with before | rfl | behind
    · have notHere : k ≠ i := by omega
      rw [if_neg (by omega), if_neg (by omega)]
      simp only [Encoded.record]
      cases code.text with
      | none => rfl
      | some s => simp [notHere]
    · simp only [Encoded.record]
      cases text : code.text with
      | none | some => simp [text]
    · have notHere : k ≠ i := by omega
      have shift : k - i = k - (i + 1) + 1 := by omega
      rw [if_pos (by omega), if_pos (by omega), shift]
      simp only [Encoded.record]
      cases code.text with
      | none => rfl
      | some s => simp [notHere]

theorem recordAll_buf (codes : List CellCode) (i : Nat) (e : Encoded) :
    (recordAll w i e codes).buf = e.buf ++ codes.map CellCode.double := by
  induction codes generalizing i e with
  | nil => simp [recordAll]
  | cons code rest ih => rw [recordAll, ih]; simp [Encoded.record]

theorem texts_of_recordAll_eq {left right : List CellCode} (empty : e.strings = PyDict.empty)
    (same : recordAll w 0 e left = recordAll w 0 e right) :
    left.map CellCode.text = right.map CellCode.text := by
  have buffers := congrArg Encoded.buf same
  rw [recordAll_buf, recordAll_buf] at buffers
  have lengths := congrArg List.length (append_cancel_left buffers)
  apply ext_getElem (by simpa using lengths)
  intro k inLeft inRight
  rw [length_map] at inLeft inRight
  have strings := congrArg (fun e => e.strings.get? k) same
  simp only [recordAll_text, Nat.zero_le, if_true, Nat.sub_zero, empty,
    PyDict.get?_empty, Option.or_none] at strings
  rw [List.getElem?_eq_getElem inLeft, List.getElem?_eq_getElem inRight] at strings
  simpa using strings

theorem recordAll_congr {α : Type} {w : Nat} {left right : α → CellCode} (items : List α) {i : Nat}
    {d e : Encoded} (double : ∀ item ∈ items, (left item).double = (right item).double)
    (text : ∀ item ∈ items, (left item).text = (right item).text)
    (isNone : ∀ item ∈ items, (left item).isNone = (right item).isNone) (buf : d.buf = e.buf)
    (strings : d.strings = e.strings) (hasNone : d.columnHasNone = e.columnHasNone) :
    (recordAll w i d (items.map left)).buf = (recordAll w i e (items.map right)).buf ∧
      (recordAll w i d (items.map left)).strings = (recordAll w i e (items.map right)).strings ∧
      (recordAll w i d (items.map left)).columnHasNone =
        (recordAll w i e (items.map right)).columnHasNone := by
  induction items generalizing i d e with
  | nil => exact ⟨buf, strings, hasNone⟩
  | cons item rest ih =>
    apply ih
    · exact fun later member => double later (mem_cons_of_mem _ member)
    · exact fun later member => text later (mem_cons_of_mem _ member)
    · exact fun later member => isNone later (mem_cons_of_mem _ member)
    · simp [Encoded.record, buf, double item mem_cons_self]
    · simp [Encoded.record, strings, text item mem_cons_self]
    · simp [Encoded.record, hasNone, isNone item mem_cons_self]

def fastCell : GridCell → CellCode
  | .plain cell => cell.code
  | .object obj =>
    match obj.asFloat with
    | .ok x => { double := x, numeric := some obj.fastClass }
    | .error _ => obj.textCode

/-- The Python pass's code of a cell that both passes treat alike. -/
def passCell : GridCell → CellCode
  | .plain cell => cell.code
  | .object obj =>
    match obj.asFloat with
    | .ok x => { double := x, numeric := obj.passClass }
    | .error _ => obj.textCode

/-- Both passes take the cell for a number, or both for a text. -/
def FitsAt (seenText : Bool) : GridCell → Prop
  | .plain _ => True
  | .object obj =>
    match obj.asFloat with
    | .ok _ => seenText = true → obj.numericClass ≠ none
    | .error .rejected => obj.numericClass = none
    | .error .failed => seenText = true ∧ obj.numericClass = none

def CellsFit : Bool → List GridCell → Prop
  | _, [] => True
  | seenText, cell :: rest => FitsAt seenText cell ∧ CellsFit (seenText || meetsText cell) rest

theorem passClass_of_numericClass {numeric : ColumnKind}
    (known : obj.numericClass = some numeric) : obj.passClass = some numeric := by
  unfold PyObject.numericClass at known
  unfold PyObject.passClass
  cases kind : obj.dtypeKind with
  | none =>
    rw [kind] at known
    simp [known]
  | some found =>
    rw [kind] at known
    exact known

theorem passCode_of_fits (fits : FitsAt seenText cell) :
    passCode seenText cell = .ok (passCell cell) := by
  cases cell with
  | plain cell => rfl
  | object obj =>
    simp only [FitsAt] at fits
    simp only [passCode, slowCode, passCell]
    cases outcome : obj.asFloat with
    | ok x =>
      rw [outcome] at fits
      cases seenText with
      | false => rfl
      | true =>
        cases known : obj.numericClass with
        | none => exact absurd known (fits rfl)
        | some numeric => simp [passClass_of_numericClass known]
    | error error =>
      rw [outcome] at fits
      cases error with
      | rejected => simp [fits]
      | failed => simp [fits.1, fits.2]

theorem fits_of_passCode (coded : passCode seenText cell = .ok code)
    (text : code.text = (fastCell cell).text) : FitsAt seenText cell := by
  cases cell with
  | plain cell => trivial
  | object obj =>
    simp only [passCode, slowCode] at coded
    simp only [fastCell] at text
    simp only [FitsAt]
    cases outcome : obj.asFloat with
    | ok x =>
      rw [outcome] at coded text
      rintro rfl none
      simp only [if_true, none] at coded
      obtain rfl := Except.ok.inj coded
      cases text
    | error error =>
      cases known : obj.numericClass with
      | some numeric =>
        simp only [outcome, known] at coded
        cases error <;> cases seenText <;> cases coded
      | none =>
        cases error with
        | rejected => rfl
        | failed =>
          cases seenText with
          | true => exact ⟨rfl, rfl⟩
          | false =>
            simp only [outcome] at coded
            cases coded

theorem passCell_agrees (cell : GridCell) :
    (passCell cell).text = (fastCell cell).text ∧ (passCell cell).double = (fastCell cell).double ∧
      (passCell cell).isNone = (fastCell cell).isNone := by
  cases cell with
  | plain cell => exact ⟨rfl, rfl, rfl⟩
  | object obj =>
    simp only [passCell, fastCell]
    cases obj.asFloat with
    | ok | error => exact ⟨rfl, rfl, rfl⟩

theorem passCodes_of_fits (fits : CellsFit seenText cells) :
    passCodes seenText cells = .ok (cells.map passCell) := by
  induction cells generalizing seenText with
  | nil => rfl
  | cons cell rest ih =>
    rw [passCodes, passCode_of_fits fits.1, ih fits.2]
    rfl

theorem fits_of_passCodes {codes : List CellCode}
    (coded : passCodes seenText cells = .ok codes) (texts : codes.map CellCode.text =
      cells.map fun cell => (fastCell cell).text) : CellsFit seenText cells := by
  induction cells generalizing seenText codes with
  | nil => trivial
  | cons cell rest ih =>
    rw [passCodes] at coded
    cases first : passCode seenText cell with
    | error error =>
      rw [first] at coded
      cases coded
    | ok code =>
      rw [first] at coded
      cases later : passCodes (seenText || meetsText cell) rest with
      | error error =>
        rw [later] at coded
        cases coded
      | ok tail =>
        rw [later] at coded
        obtain rfl := Except.ok.inj coded
        obtain ⟨head, others⟩ := List.cons.inj texts
        exact ⟨fits_of_passCode first head, ih later others⟩

def FloatForAcceleratorOnly : GridCell → Prop
  | .plain _ => False
  | .object obj => obj.asFloat.isOk = true ∧ obj.passClass ≠ some obj.fastClass

def CountsAsFloat : GridCell → Prop
  | .plain (.float _) => True
  | .plain _ => False
  | .object obj => obj.asFloat.isOk = true ∧ obj.passClass = some .float

/-- Such an object stands in a column that is a float column anyway. -/
def ColumnsFit (w : Nat) (cells : List GridCell) : Prop :=
  ∀ (k : Nat) (cell : GridCell), cells[k]? = some cell → FloatForAcceleratorOnly cell →
      ∃ (j : Nat) (other : GridCell), cells[j]? = some other ∧ j % w = k % w ∧ CountsAsFloat other

theorem countsAsFloat_iff (cell : GridCell) :
    CountsAsFloat cell ↔ (passCell cell).numeric = some .float := by
  cases cell with
  | plain cell => cases cell <;> simp [CountsAsFloat, passCell, Cell.code]
  | object obj =>
    simp only [CountsAsFloat, passCell]
    cases obj.asFloat with
    | ok x => simp [Except.isOk, Except.toBool]
    | error error => simp [Except.isOk, Except.toBool, PyObject.textCode]

theorem fastClass_eq_float (different : obj.passClass ≠ some obj.fastClass) :
    obj.fastClass = .float := by
  unfold PyObject.passClass PyObject.fastClass at *
  cases kind : obj.dtypeKind with
  | none => rfl
  | some found =>
    simp only [kind] at different ⊢
    cases numeric : dtypeClass found with
    | none => rfl
    | some known => simp [numeric] at different

theorem level_passCell_le (cell : GridCell) :
    level (passCell cell).numeric ≤ level (fastCell cell).numeric ∧
      (level (passCell cell).numeric ≠ level (fastCell cell).numeric →
        FloatForAcceleratorOnly cell) := by
  cases cell with
  | plain cell => exact ⟨le_rfl, fun different => absurd rfl different⟩
  | object obj =>
    simp only [passCell, fastCell, FloatForAcceleratorOnly]
    cases obj.asFloat with
    | error error => exact ⟨le_rfl, fun different => absurd rfl different⟩
    | ok x =>
      by_cases same : obj.passClass = some obj.fastClass
      · exact ⟨by rw [same], fun different => absurd (by rw [same]) different⟩
      · refine ⟨?_, fun _ => ⟨rfl, same⟩⟩
        rw [fastClass_eq_float same]
        exact level_le _

theorem level_fastCell_of_only (only : FloatForAcceleratorOnly cell) :
    level (fastCell cell).numeric = 3 := by
  cases cell with
  | plain cell => exact absurd only id
  | object obj =>
    obtain ⟨converts, different⟩ := only
    simp only [fastCell]
    cases outcome : obj.asFloat with
    | error error => simp [outcome, Except.isOk, Except.toBool] at converts
    | ok x => rw [fastClass_eq_float different]; rfl

theorem level_eq_three {numeric : Option ColumnKind}
    (high : 3 ≤ level numeric) : numeric = some .float := by
  cases numeric with
  | none => simp [level] at high
  | some numeric => cases numeric <;> simp [level] at high ⊢

theorem three_le_columnLevel_pass : 3 ≤ columnLevel w c 0 (cells.map passCell) ↔
      ∃ (j : Nat) (other : GridCell), cells[j]? = some other ∧ j % w = c ∧ CountsAsFloat other := by
  rw [le_columnLevel_iff (by omega)]
  constructor
  · rintro ⟨j, code, found, column, high⟩
    rw [List.getElem?_map, Option.map_eq_some_iff] at found
    obtain ⟨other, otherFound, rfl⟩ := found
    refine ⟨j, other, otherFound, by simpa using column, ?_⟩
    exact (countsAsFloat_iff other).mpr (level_eq_three high)
  · rintro ⟨j, other, found, column, float⟩
    refine ⟨j, passCell other, by simp [found], by simpa using column, ?_⟩
    rw [(countsAsFloat_iff other).mp float]
    exact le_rfl

theorem columnsFit_iff (w : Nat) (cells : List GridCell) : ColumnsFit w cells ↔
      ∀ k < cells.length, columnLevel w (k % w) 0 (cells.map fastCell) =
        columnLevel w (k % w) 0 (cells.map passCell) := by
  constructor
  · intro fit k _
    apply le_antisymm
    · by_contra lower
      have positive : 0 < columnLevel w (k % w) 0 (cells.map fastCell) := by omega
      obtain ⟨j, code, found, column, high⟩ :=
        (le_columnLevel_iff positive 0 _).mp le_rfl
      rw [List.getElem?_map, Option.map_eq_some_iff] at found
      obtain ⟨cell, cellFound, rfl⟩ := found
      rw [Nat.zero_add] at column
      by_cases same : level (passCell cell).numeric = level (fastCell cell).numeric
      · have reached := (le_columnLevel_iff positive 0 (cells.map passCell)).mpr
          ⟨j, passCell cell, by simp [cellFound], by simpa using column, by rw [same]; exact high⟩
        omega
      · have only := (level_passCell_le cell).2 same
        obtain ⟨other, otherCell, otherFound, otherColumn, float⟩ :=
          fit j cell cellFound only
        have three := three_le_columnLevel_pass.mpr
          ⟨other, otherCell, otherFound, otherColumn.trans column, float⟩
        have most := columnLevel_le w (k % w) 0 (cells.map fastCell)
        omega
    · by_contra lower
      have positive : 0 < columnLevel w (k % w) 0 (cells.map passCell) := by omega
      obtain ⟨j, code, found, column, high⟩ :=
        (le_columnLevel_iff positive 0 _).mp le_rfl
      rw [List.getElem?_map, Option.map_eq_some_iff] at found
      obtain ⟨cell, cellFound, rfl⟩ := found
      have reached := (le_columnLevel_iff positive 0 (cells.map fastCell)).mpr
        ⟨j, fastCell cell, by simp [cellFound], column, high.trans (level_passCell_le cell).1⟩
      omega
  · intro same k cell found only
    have bound := (List.getElem?_eq_some_iff.mp found).1
    have fast : 3 ≤ columnLevel w (k % w) 0 (cells.map fastCell) := by
      rw [le_columnLevel_iff (by omega)]
      refine ⟨k, fastCell cell, by simp [found], by simp, ?_⟩
      rw [level_fastCell_of_only only]
    rw [same k bound] at fast
    exact three_le_columnLevel_pass.mp fast

/-- Both passes hand on the same, or raise the same. -/
def PassesAgree (raises : Bool) (grid : ObjectGrid) : Prop :=
  (flattenObjects raises true grid).map Flattened.encoded =
    (flattenObjects raises false grid).map Flattened.encoded

/-- The accelerator gives up on the grid, or the codes and columns fit. -/
def FlattenCondition (raises : Bool) (grid : ObjectGrid) : Prop :=
  (raises = true ∧ ∃ obj, .object obj ∈ grid.cells ∧ obj.asFloat.isOk = false) ∨
    (CellsFit false grid.cells ∧ ColumnsFit grid.ncols grid.cells)

theorem fastCode_eq_fastCell (converts : raises = true →
      ∀ obj, cell = .object obj → obj.asFloat.isOk = true) :
    fastCode raises cell = .ok (fastCell cell) := by
  cases cell with
  | plain cell => rfl
  | object obj =>
    simp only [fastCode, fastCell]
    cases outcome : obj.asFloat with
    | ok x => rfl
    | error error =>
      cases raises with
      | false => rfl
      | true =>
        have fails := converts rfl obj rfl
        simp [outcome, Except.isOk, Except.toBool] at fails

theorem mapM_fastCode (converts : raises = true →
      ∀ obj, .object obj ∈ cells → obj.asFloat.isOk = true) :
    cells.mapM (fastCode raises) = .ok (cells.map fastCell) := by
  induction cells with
  | nil => rfl
  | cons cell rest ih =>
    rw [mapM_cons, fastCode_eq_fastCell, ih]
    · rfl
    · exact fun r obj member => converts r obj (mem_cons_of_mem _ member)
    · rintro r obj rfl
      exact converts r obj mem_cons_self

theorem mapM_fastCode_raises (member : .object obj ∈ cells) (fails : obj.asFloat.isOk = false) :
    ∃ error, cells.mapM (fastCode true) = .error error := by
  induction cells with
  | nil => cases member
  | cons cell rest ih =>
    rw [mapM_cons]
    cases coded : fastCode true cell with
    | error error => exact ⟨error, rfl⟩
    | ok code =>
      rcases mem_cons.mp member with rfl | later
      · simp only [fastCode] at coded
        cases outcome : obj.asFloat with
        | ok x => simp [outcome, Except.isOk, Except.toBool] at fails
        | error error =>
          simp only [outcome, if_true] at coded
          cases coded
      · obtain ⟨error, failed⟩ := ih later
        exact ⟨error, by rw [failed]; rfl⟩

theorem recordAll_start_eq_iff (positive : cells ≠ [] → 0 < w) :
    recordAll w 0 (Flattened.start [] w).encoded (cells.map fastCell) =
        recordAll w 0 (Flattened.start [] w).encoded (cells.map passCell) ↔
      ColumnsFit w cells := by
  have bound : ∀ state ∈ (Flattened.start [] w).encoded.columnStates, state ≤ 3 := by
    intro state member
    obtain rfl := eq_of_mem_replicate member
    exact Nat.zero_le 3
  have states : ∀ codes : List CellCode, ∀ c < w,
      (recordAll w 0 (Flattened.start [] w).encoded codes).columnStates[c]? =
        some (columnLevel w c 0 codes) := by
    intro codes c inside
    rw [recordAll_states codes bound]
    simp [Flattened.encoded, Flattened.start, inside]
  obtain ⟨buf, strings, hasNone⟩ :=
    @recordAll_congr _ w fastCell passCell cells 0
      (Flattened.start [] w).encoded (Flattened.start [] w).encoded
      (fun cell _ => (passCell_agrees cell).2.1.symm)
      (fun cell _ => (passCell_agrees cell).1.symm)
      (fun cell _ => (passCell_agrees cell).2.2.symm) rfl rfl rfl
  rw [columnsFit_iff]
  constructor
  · intro same k inside
    have column : k % w < w :=
      Nat.mod_lt _ (positive (ne_nil_of_length_pos (by omega)))
    have left := states (cells.map fastCell) _ column
    rw [same, states _ _ column] at left
    exact (Option.some.inj left).symm
  · intro same
    have columns : (recordAll w 0 (Flattened.start [] w).encoded
        (cells.map fastCell)).columnStates = (recordAll w 0 (Flattened.start [] w).encoded
            (cells.map passCell)).columnStates := by
      apply ext_getElem?
      intro c
      by_cases inside : c < w
      · rw [states _ c inside, states _ c inside, Option.some.injEq]
        by_cases reached : c < cells.length
        · have level := same c reached
          rwa [Nat.mod_eq_of_lt inside] at level
        · have nothing : ∀ f : GridCell → CellCode, columnLevel w c 0 (cells.map f) = 0 := by
            intro f
            by_contra positive'
            obtain ⟨k, code, found, column, _⟩ :=
              (le_columnLevel_iff (Nat.pos_of_ne_zero positive') 0 _).mp le_rfl
            have bound' := (List.getElem?_eq_some_iff.mp found).1
            rw [length_map] at bound'
            rw [Nat.mod_eq_of_lt (by omega)] at column
            omega
          rw [nothing, nothing]
      · rw [List.getElem?_eq_none, List.getElem?_eq_none]
        · rw [recordAll_length]
          simpa [Flattened.encoded, Flattened.start] using inside
        · rw [recordAll_length]
          simpa [Flattened.encoded, Flattened.start] using inside
    generalize recordAll w 0 _ (cells.map fastCell) = left at *
    cases left
    simp_all

def decimal (text : String) (value : ℚ) : GridCell :=
  .object ⟨.ok (.finite value), text.toList, none, "Decimal".toList⟩

end WriterAgent.Scripting
