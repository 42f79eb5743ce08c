import Mathlib.Data.List.Nodup
import Mathlib.Data.List.Sigma

/-!
# Insertion-ordered dictionaries

A Python `dict` remembers the order in which its keys were first inserted;
overwriting a value keeps the key's place.  The keys are distinct by
construction.
-/

universe u v

/-- A finite map whose entries keep the order of their first insertion. -/
structure PyDict (κ : Type u) (ν : Type v) where
  entries : List (κ × ν)
  distinct : (entries.map Prod.fst).Nodup

namespace PyDict

open List

variable {κ : Type u} {ν : Type v}
variable {key : κ} {value : ν} {dict left right : PyDict κ ν}
  {items pairs : List (κ × ν)} {entry : κ × ν}

@[ext] theorem ext (same : left.entries = right.entries) : left = right := by
  cases left
  cases same
  rfl

def empty : PyDict κ ν := ⟨[], nodup_nil⟩

def keys (dict : PyDict κ ν) : List κ := dict.entries.map Prod.fst

instance [DecidableEq κ] [DecidableEq ν] : DecidableEq (PyDict κ ν) :=
  fun left right =>
    decidable_of_iff (left.entries = right.entries) ⟨ext, fun equal => equal ▸ rfl⟩

variable [DecidableEq κ]

def lookup (key : κ) : List (κ × ν) → Option ν
  | [] => none
  | (k, value) :: rest => if k = key then some value else lookup key rest

/-- `dict.get(key)`. -/
def get? (dict : PyDict κ ν) (key : κ) : Option ν := lookup key dict.entries

def insertEntry (key : κ) (value : ν) : List (κ × ν) → List (κ × ν)
  | [] => [(key, value)]
  | (k, old) :: rest =>
    if k = key then (k, value) :: rest
    else (k, old) :: insertEntry key value rest

theorem mem_keys_insertEntry {k : κ} : k ∈ (insertEntry key value items).map Prod.fst ↔
      k = key ∨ k ∈ items.map Prod.fst := by
  induction items with
  | nil => simp [insertEntry]
  | cons head rest ih =>
    obtain ⟨first, old⟩ := head
    by_cases same : first = key
    · subst same
      simp [insertEntry]
    · simp only [insertEntry, same, if_false, map_cons, mem_cons, ih]
      tauto

theorem nodup_insertEntry (distinct : (items.map Prod.fst).Nodup) :
    ((insertEntry key value items).map Prod.fst).Nodup := by
  induction items with
  | nil => simp [insertEntry]
  | cons head rest ih =>
    obtain ⟨first, old⟩ := head
    rw [map_cons, nodup_cons] at distinct
    by_cases same : first = key
    · simpa [insertEntry, same] using distinct
    · simp only [insertEntry, same, if_false, map_cons, nodup_cons, mem_keys_insertEntry]
      refine ⟨?_, ih distinct.2⟩
      simpa [same] using distinct.1

/-- `dict[key] = value`. -/
def set (dict : PyDict κ ν) (key : κ) (value : ν) : PyDict κ ν :=
  ⟨insertEntry key value dict.entries, nodup_insertEntry dict.distinct⟩

def filterKeys (keep : κ → Bool) (dict : PyDict κ ν) : PyDict κ ν :=
  ⟨dict.entries.filter fun entry => keep entry.1, by
    have sublist : ((dict.entries.filter fun entry => keep entry.1).map
        Prod.fst).Sublist (dict.entries.map Prod.fst) :=
      filter_sublist.map _
    exact sublist.nodup dict.distinct⟩

/-- `dict.pop(key, None)`. -/
def pop (dict : PyDict κ ν) (key : κ) : PyDict κ ν :=
  dict.filterKeys (· != key)

/-- `{k: v for k, v in pairs}`. -/
def ofPairs (pairs : List (κ × ν)) : PyDict κ ν :=
  pairs.foldl (fun dict entry => dict.set entry.1 entry.2) empty

def mapValues {μ : Type v} (f : ν → μ) (dict : PyDict κ ν) : PyDict κ μ :=
  ⟨dict.entries.map fun entry => (entry.1, f entry.2), by
    simpa [Function.comp_def] using dict.distinct⟩

def contains (dict : PyDict κ ν) (key : κ) : Bool := (dict.get? key).isSome

theorem lookup_eq_some (found : lookup key items = some value) : (key, value) ∈ items := by
  induction items with
  | nil => simp [lookup] at found
  | cons head rest ih =>
    obtain ⟨first, old⟩ := head
    by_cases same : first = key
    · simp only [lookup, same, if_true, Option.some.injEq] at found
      simp [same, found]
    · simp only [lookup, same, if_false] at found
      exact mem_cons_of_mem _ (ih found)

theorem lookup_of_mem (distinct : (items.map Prod.fst).Nodup)
    (member : (key, value) ∈ items) : lookup key items = some value := by
  induction items with
  | nil => simp at member
  | cons head rest ih =>
    obtain ⟨first, old⟩ := head
    rw [map_cons, nodup_cons] at distinct
    rcases mem_cons.mp member with here | later
    · cases here
      simp [lookup]
    · have different : first ≠ key := by
        rintro rfl
        exact distinct.1 (mem_map.mpr ⟨_, later, rfl⟩)
      simp only [lookup, different, if_false]
      exact ih distinct.2 later

theorem get?_eq_some_iff : dict.get? key = some value ↔ (key, value) ∈ dict.entries :=
  ⟨lookup_eq_some, lookup_of_mem dict.distinct⟩

theorem mem_keys_iff : key ∈ dict.keys ↔ ∃ value, dict.get? key = some value := by
  simp only [keys, mem_map, Prod.exists, get?_eq_some_iff]
  constructor
  · intro ⟨_, value, member, same⟩
    exact ⟨value, same ▸ member⟩
  · intro ⟨value, member⟩
    exact ⟨key, value, member, rfl⟩

theorem get?_eq_of_perm (perm : left.entries.Perm right.entries) (key : κ) :
    left.get? key = right.get? key := by
  ext value
  rw [get?_eq_some_iff, get?_eq_some_iff, perm.mem_iff]

theorem lookup_eq_none : lookup key items = none ↔ key ∉ items.map Prod.fst := by
  induction items with
  | nil => simp [lookup]
  | cons head rest ih =>
    obtain ⟨first, old⟩ := head
    by_cases same : first = key
    · simp [lookup, same]
    · simp [lookup, same, ih, Ne.symm same]

theorem lookup_insertEntry (key k : κ) (value : ν) (items : List (κ × ν)) :
    lookup k (insertEntry key value items) =
      if k = key then some value else lookup k items := by
  induction items with
  | nil => simp [insertEntry, lookup, eq_comm]
  | cons head rest ih =>
    obtain ⟨first, old⟩ := head
    by_cases same : first = key
    · subst same
      by_cases sought : k = first
      · simp [insertEntry, lookup, sought]
      · simp [insertEntry, lookup, sought, Ne.symm sought]
    · by_cases sought : first = k
      · subst sought
        simp [insertEntry, lookup, same]
      · simp [insertEntry, lookup, same, sought, ih]

@[simp] theorem get?_set (dict : PyDict κ ν) (key k : κ) (value : ν) : (dict.set key value).get? k =
      if k = key then some value else dict.get? k :=
  lookup_insertEntry key k value dict.entries

theorem mem_of_mem_set (member : entry ∈ (dict.set key value).entries) :
    entry = (key, value) ∨ entry ∈ dict.entries := by
  have found := get?_eq_some_iff.mpr
    (show (entry.1, entry.2) ∈ (dict.set key value).entries from member)
  rw [get?_set] at found
  split at found
  · rename_i same
    cases found
    exact .inl (Prod.ext same rfl)
  · exact .inr (get?_eq_some_iff.mp found)

theorem mem_of_mem_foldl_set (member : entry ∈
      (pairs.foldl (fun dict e => dict.set e.1 e.2) dict).entries) :
    entry ∈ pairs ∨ entry ∈ dict.entries := by
  induction pairs generalizing dict with
  | nil => exact .inr member
  | cons head rest ih =>
    rcases ih member with later | here
    · exact .inl (mem_cons_of_mem head later)
    · rcases mem_of_mem_set here with rfl | old
      · exact .inl mem_cons_self
      · exact .inr old

theorem lookup_filter (keep : κ → Bool) (k : κ) (items : List (κ × ν)) :
    lookup k (items.filter fun entry => keep entry.1) =
      if keep k then lookup k items else none := by
  induction items with
  | nil => simp [lookup]
  | cons head rest ih =>
    obtain ⟨first, old⟩ := head
    by_cases kept : keep first = true
    · rw [filter_cons_of_pos (by simpa using kept)]
      by_cases sought : first = k
      · subst sought
        simp [lookup, kept]
      · simp [lookup, sought, ih]
    · rw [filter_cons_of_neg (by simpa using kept), ih]
      by_cases sought : first = k
      · subst sought
        simp [kept]
      · simp [lookup, sought]

@[simp] theorem get?_filterKeys (dict : PyDict κ ν) (keep : κ → Bool) (k : κ) :
    (dict.filterKeys keep).get? k = if keep k then dict.get? k else none :=
  lookup_filter keep k dict.entries

@[simp] theorem get?_pop (dict : PyDict κ ν) (key k : κ) :
    (dict.pop key).get? k = if k = key then none else dict.get? k := by
  by_cases same : k = key <;> simp [pop, same]

@[simp] theorem get?_empty (k : κ) : (empty : PyDict κ ν).get? k = none := rfl

theorem get?_mapValues {μ : Type v} (f : ν → μ) (dict : PyDict κ ν) (k : κ) :
    (dict.mapValues f).get? k = (dict.get? k).map f := by
  simp only [get?, mapValues]
  induction dict.entries with
  | nil => rfl
  | cons head rest ih =>
    obtain ⟨first, old⟩ := head
    by_cases sought : first = k
    · simp [lookup, sought]
    · simpa [lookup, sought] using ih

theorem mapValues_set {μ : Type v} (f : ν → μ) (dict : PyDict κ ν) (key : κ) (value : ν) :
    (dict.set key value).mapValues f = (dict.mapValues f).set key (f value) := by
  apply ext
  simp only [mapValues, set]
  induction dict.entries with
  | nil => rfl
  | cons head rest ih =>
    obtain ⟨first, old⟩ := head
    by_cases same : first = key
    · simp [insertEntry, same]
    · simp only [insertEntry, same, if_false, map_cons, ih]

omit [DecidableEq κ] in
theorem mapValues_filterKeys {μ : Type v} (f : ν → μ) (keep : κ → Bool) (dict : PyDict κ ν) :
    (dict.filterKeys keep).mapValues f = (dict.mapValues f).filterKeys keep := by
  apply ext
  simp [mapValues, filterKeys, filter_map, Function.comp_def]

theorem contains_iff : dict.contains key = true ↔ ∃ value, dict.get? key = some value := by
  rw [contains, Option.isSome_iff_exists]

theorem insertEntry_eq_self (found : lookup key items = some value) :
    insertEntry key value items = items := by
  induction items with
  | nil => simp [lookup] at found
  | cons head rest ih =>
    obtain ⟨first, old⟩ := head
    by_cases same : first = key
    · simp only [lookup, same, if_true, Option.some.injEq] at found
      simp [insertEntry, same, found]
    · simp only [lookup, same, if_false] at found
      simp [insertEntry, same, ih found]

theorem set_eq_self (found : dict.get? key = some value) : dict.set key value = dict :=
  ext (insertEntry_eq_self found)

theorem filterKeys_eq_self {keep : κ → Bool}
    (all : ∀ key value, dict.get? key = some value → keep key = true) :
    dict.filterKeys keep = dict := by
  apply ext
  simp only [filterKeys, filter_eq_self]
  intro entry member
  exact all entry.1 entry.2 (get?_eq_some_iff.mpr member)

theorem insertEntry_of_notMem (fresh : key ∉ items.map Prod.fst) :
    insertEntry key value items = items ++ [(key, value)] := by
  induction items with
  | nil => rfl
  | cons head rest ih =>
    simp only [map_cons, mem_cons, not_or] at fresh
    simp [insertEntry, Ne.symm fresh.1, ih fresh.2]

theorem values_set_perm {before : ν} (found : dict.get? key = some before) :
    ((dict.set key value).entries.map Prod.snd ++ [before]).Perm
      (dict.entries.map Prod.snd ++ [value]) := by
  obtain ⟨entries, distinct⟩ := dict
  simp only [get?, set] at found ⊢
  clear distinct
  induction entries with
  | nil => cases found
  | cons head rest ih =>
    obtain ⟨first, old⟩ := head
    by_cases same : first = key
    · simp only [lookup, same, if_true, Option.some.injEq] at found
      subst found
      simp only [insertEntry, same, if_true, map_cons, cons_append]
      exact (perm_append_singleton old _).cons value |>.trans
        ((List.Perm.swap old value _).trans ((perm_append_singleton value _).symm.cons old))
    · simp only [lookup, same, if_false] at found
      simp only [insertEntry, same, if_false, map_cons, cons_append]
      exact (ih found).cons old

theorem set_entries_of_none (absent : dict.get? key = none) :
    (dict.set key value).entries = dict.entries ++ [(key, value)] := by
  apply insertEntry_of_notMem
  intro member
  obtain ⟨entry, isEntry, isKey⟩ := mem_map.mp member
  have found := lookup_of_mem dict.distinct
    (show (key, entry.2) ∈ dict.entries by rw [← isKey]; exact isEntry)
  rw [get?, found] at absent
  cases absent

theorem foldl_set_entries {pairs : List (κ × ν)} {dict : PyDict κ ν}
    (distinct : ((dict.entries ++ pairs).map Prod.fst).Nodup) :
    (pairs.foldl (fun dict entry => dict.set entry.1 entry.2) dict).entries =
      dict.entries ++ pairs := by
  induction pairs generalizing dict with
  | nil => simp
  | cons head rest ih =>
    have fresh : head.1 ∉ dict.entries.map Prod.fst := by
      intro member
      rw [map_append, nodup_append] at distinct
      exact distinct.2.2 _ member _ (by simp) rfl
    have inserted : (dict.set head.1 head.2).entries = dict.entries ++ [head] :=
      insertEntry_of_notMem fresh
    rw [foldl_cons, ih]
    · simp [inserted]
    · simpa [inserted] using distinct

theorem get?_foldl_set {μ : Type v} (f : μ → ν) {pairs : List (κ × μ)}
    (distinct : (pairs.map Prod.fst).Nodup) (dict : PyDict κ ν) (key : κ) :
    (pairs.foldl (fun dict entry => dict.set entry.1 (f entry.2)) dict).get? key =
      ((lookup key pairs).map f).or (dict.get? key) := by
  induction pairs generalizing dict with
  | nil => simp [lookup]
  | cons head rest ih =>
    obtain ⟨first, value⟩ := head
    rw [map_cons, nodup_cons] at distinct
    rw [foldl_cons, ih distinct.2]
    by_cases same : first = key
    · subst same
      simp [lookup, lookup_eq_none.mpr distinct.1]
    · simp [lookup, same, Ne.symm same]

theorem ofPairs_entries (distinct : (pairs.map Prod.fst).Nodup) : (ofPairs pairs).entries = pairs :=
  foldl_set_entries (by simpa [empty] using distinct)

theorem get?_ofPairs (distinct : (pairs.map Prod.fst).Nodup)
    (member : (key, value) ∈ pairs) : (ofPairs pairs).get? key = some value := by
  rw [get?_eq_some_iff, ofPairs_entries distinct]
  exact member

theorem mem_of_mem_ofPairs (member : entry ∈ (ofPairs pairs).entries) : entry ∈ pairs := by
  rcases mem_of_mem_foldl_set member with inPairs | nowhere
  · exact inPairs
  · exact absurd nowhere not_mem_nil

theorem get?_foldl_set_ne_none (known : dict.get? key ≠ none ∨ key ∈ pairs.map Prod.fst) :
    (pairs.foldl (fun dict entry => dict.set entry.1 entry.2) dict).get? key ≠ none := by
  induction pairs generalizing dict with
  | nil => exact known.resolve_right not_mem_nil
  | cons head rest ih =>
    apply ih
    by_cases same : key = head.1
    · simp [same]
    · simpa [same, Ne.symm same] using known

theorem exists_get?_ofPairs (member : key ∈ pairs.map Prod.fst) :
    ∃ value, (ofPairs pairs).get? key = some value :=
  Option.ne_none_iff_exists'.mp (get?_foldl_set_ne_none (Or.inr member))

end PyDict
