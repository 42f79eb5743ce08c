import Mathlib.Data.List.Basic
import Mathlib.Tactic.Ring

/-!
# Edit scripts

A splice replaces a stretch of a list.  A script of splices is built while two
lists are walked in parallel: stretches both lists share are kept, and every
other stretch becomes a splice.
-/

namespace WriterAgent

open List

variable {α : Type*}

/-- The elements from offset `lo` up to offset `hi`. -/
def slice (s : List α) (lo hi : Nat) : List α := (s.drop lo).take (hi - lo)

variable {s front middle back old : List α} {lo hi cursor size : Nat}

theorem slice_eq_of_append {front middle back : List α} :
    slice (front ++ (middle ++ back)) front.length (front.length + middle.length) = middle := by
  simp [slice]

@[simp] theorem slice_self (s : List α) (lo : Nat) : slice s lo lo = [] := by
  simp [slice]

@[simp] theorem slice_whole (s : List α) : slice s 0 s.length = s := by
  simp [slice]

theorem slice_to_end (s : List α) (lo : Nat) : slice s lo s.length = s.drop lo := by
  rw [slice, take_of_length_le]
  rw [length_drop]

theorem slice_of_prefix {piece : List α} (starts : piece <+: s.drop lo) :
    slice s lo (lo + piece.length) = piece := by
  rw [slice, Nat.add_sub_cancel_left]
  exact (prefix_iff_eq_take.mp starts).symm

theorem length_slice (lo : Nat) (bound : hi ≤ s.length) : (slice s lo hi).length = hi - lo := by
  rw [slice, length_take, length_drop]
  omega

theorem take_append_slice (ordered : lo ≤ hi) : s.take lo ++ slice s lo hi = s.take hi := by
  obtain ⟨k, rfl⟩ := Nat.exists_eq_add_of_le ordered
  rw [slice, take_add, Nat.add_sub_cancel_left]

theorem slice_append_slice {mid : Nat} (first : lo ≤ mid) (second : mid ≤ hi) :
    slice s lo mid ++ slice s mid hi = slice s lo hi := by
  obtain ⟨k, rfl⟩ := Nat.exists_eq_add_of_le first
  obtain ⟨l, rfl⟩ := Nat.exists_eq_add_of_le second
  have shape : lo + k + l - lo = k + l := by omega
  rw [slice, slice, slice, shape, Nat.add_sub_cancel_left,
    Nat.add_sub_cancel_left, take_add, drop_drop]

theorem slice_append_drop (ordered : lo ≤ hi) : slice s lo hi ++ s.drop hi = s.drop lo := by
  obtain ⟨k, rfl⟩ := Nat.exists_eq_add_of_le ordered
  rw [slice, Nat.add_sub_cancel_left, ← drop_drop, take_append_drop]

theorem slice_middle {s : List α} {lo hi : Nat} {front middle back : List α}
    (bound : hi ≤ s.length) (whole : slice s lo hi = front ++ (middle ++ back)) :
    slice s (lo + front.length) (hi - back.length) = middle := by
  have lengths := length_slice lo bound
  rw [whole, length_append, length_append] at lengths
  have cut : slice s (lo + front.length) (hi - back.length) =
      ((slice s lo hi).drop front.length).take (hi - back.length - (lo + front.length)) := by
    rw [slice, slice, drop_take, drop_drop, take_take, Nat.min_eq_left (by omega)]
  have width : hi - back.length - (lo + front.length) = middle.length := by omega
  rw [cut, whole, drop_left, width, take_left]

theorem slice_front (ordered : lo ≤ hi) (bound : hi ≤ s.length)
    (whole : slice s lo hi = front ++ (middle ++ back)) :
    slice s lo (lo + front.length) = front := by
  have width := length_slice lo bound
  rw [whole, length_append] at width
  have cut := @slice_middle _ s lo hi [] front (middle ++ back) bound whole
  have stop : hi - (middle ++ back).length = lo + front.length := by omega
  rwa [stop] at cut

theorem slice_back (bound : hi ≤ s.length) (whole : slice s lo hi = front ++ (middle ++ back)) :
    slice s (hi - back.length) hi = back := by
  by_cases ordered : lo ≤ hi
  · have width := length_slice lo bound
    rw [whole, length_append, length_append] at width
    have cut := @slice_middle _ s lo hi (front ++ middle) back [] bound
      (by rw [whole, append_nil, append_assoc])
    have start : lo + (front ++ middle).length = hi - back.length := by
      rw [length_append]
      omega
    rwa [start, length_nil] at cut
  · have empty : slice s lo hi = [] := by rw [slice, Nat.sub_eq_zero_of_le (by omega), take_zero]
    rw [empty] at whole
    have parts : front = [] ∧ middle = [] ∧ back = [] := by simpa using whole.symm
    simp [parts.2.2]

/-- Replace the elements from `start` to `stop` by `inserted`. -/
structure Splice (α : Type*) where
  start : Nat
  stop : Nat
  inserted : List α

/-- Splices applied from left to right to what follows the cursor. -/
def applySplices (old : List α) : Nat → List (Splice α) → List α
  | cursor, [] => old.drop cursor
  | cursor, splice :: rest =>
    slice old cursor splice.start ++ (splice.inserted ++ applySplices old splice.stop rest)

/-- The splices turn the first `i` elements of `old` into the first `j`
elements of `new`, whatever splices follow. -/
structure Transforms (old new : List α) (script : List (Splice α)) (i j : Nat) : Prop where
  applied : ∀ rest : List (Splice α), (∀ splice, rest.head? = some splice → i ≤ splice.start) →
      applySplices old 0 (script ++ rest) = new.take j ++ applySplices old i rest

namespace Transforms

variable {old new : List α} {script : List (Splice α)} {i j : Nat}

theorem empty : Transforms old new [] 0 0 := by
  constructor
  intro rest _
  simp

theorem keep (transforms : Transforms old new script i j) {k l : Nat} (oldOrdered : i ≤ k)
    (newOrdered : j ≤ l) (shared : slice old i k = slice new j l) :
    Transforms old new script k l := by
  constructor
  intro rest later
  have earlier : ∀ splice, rest.head? = some splice → i ≤ splice.start :=
    fun splice head => oldOrdered.trans (later splice head)
  rw [transforms.applied rest earlier, ← take_append_slice newOrdered, append_assoc, ← shared]
  congr 1
  cases rest with
  | nil => exact (slice_append_drop oldOrdered).symm
  | cons splice rest =>
    have bound := later splice rfl
    rw [applySplices, applySplices, ← slice_append_slice oldOrdered bound, append_assoc]

theorem replace (transforms : Transforms old new script i j) {k l : Nat} (newOrdered : j ≤ l) :
    Transforms old new (script ++ [⟨i, k, slice new j l⟩]) k l := by
  constructor
  intro rest _
  have applied := transforms.applied (⟨i, k, slice new j l⟩ :: rest) (by simp)
  rw [append_assoc, singleton_append, applied, applySplices, slice_self, nil_append, ← append_assoc,
    take_append_slice newOrdered]

theorem finish (transforms : Transforms old new script old.length new.length) :
    applySplices old 0 script = new := by
  have applied := transforms.applied [] (by simp)
  simpa [applySplices] using applied

end Transforms

def replaceSpan (s : List α) (splice : Splice α) : List α :=
  s.take splice.start ++ (splice.inserted ++ s.drop splice.stop)

/-- The splices follow one another from the cursor on and end in the list. -/
def InOrder (size : Nat) : Nat → List (Splice α) → Prop
  | cursor, [] => cursor ≤ size
  | cursor, splice :: rest =>
    cursor ≤ splice.start ∧ splice.start ≤ splice.stop ∧ InOrder size splice.stop rest

variable {splices : List (Splice α)}

section

variable (ordered : InOrder size cursor splices)

include ordered

theorem InOrder.cursor_le : cursor ≤ size := by
  induction splices generalizing cursor with
  | nil => exact ordered
  | cons splice rest ih =>
    obtain ⟨before, inside, later⟩ := ordered
    have stop := ih later
    omega

theorem InOrder.of_le_head {cursor' : Nat} (bound : cursor' ≤ size)
    (head : ∀ splice, splices.head? = some splice → cursor' ≤ splice.start) :
    InOrder size cursor' splices := by
  cases splices with
  | nil => exact bound
  | cons splice rest => exact ⟨head splice rfl, ordered.2⟩

theorem InOrder.le_start : ∀ splice ∈ splices, cursor ≤ splice.start := by
  induction splices generalizing cursor with
  | nil =>
    intro splice member
    cases member
  | cons first rest induction =>
    obtain ⟨before, inside, later⟩ := ordered
    intro splice member
    rcases mem_cons.mp member with rfl | inRest
    · exact before
    · exact (before.trans inside).trans (induction later splice inRest)

theorem InOrder.pairwise : splices.Pairwise fun a b => a.stop ≤ b.start := by
  induction splices generalizing cursor with
  | nil => exact List.Pairwise.nil
  | cons first rest induction =>
    obtain ⟨-, -, later⟩ := ordered
    exact pairwise_cons.mpr ⟨later.le_start, induction later⟩

end

theorem foldr_replaceSpan (ordered : InOrder old.length cursor splices) :
    splices.foldr (fun splice s => replaceSpan s splice) old =
      old.take cursor ++ applySplices old cursor splices := by
  induction splices generalizing cursor with
  | nil => exact (take_append_drop cursor old).symm
  | cons splice rest ih =>
    obtain ⟨before, inside, later⟩ := ordered
    have inList := later.cursor_le
    have width : (old.take splice.stop).length = splice.stop := by
      rw [length_take]
      omega
    have front : (old.take splice.stop ++ applySplices old splice.stop rest).take splice.start =
        old.take splice.start := by
      rw [take_append_of_le_length (by omega), take_take, Nat.min_eq_left inside]
    have back : (old.take splice.stop ++ applySplices old splice.stop rest).drop splice.stop =
        applySplices old splice.stop rest := by
      rw [drop_append_of_le_length (by omega), drop_take, Nat.sub_self, take_zero, nil_append]
    rw [foldr_cons, ih later, replaceSpan, front, back, applySplices,
      ← append_assoc (old.take cursor), take_append_slice before]

theorem applySplices_between {before after : List α} (ordered : InOrder old.length cursor splices) :
    applySplices (before ++ (old ++ after)) (before.length + cursor) (splices.map fun splice =>
          ⟨before.length + splice.start, before.length + splice.stop, splice.inserted⟩) =
      applySplices old cursor splices ++ after := by
  have shifted : ∀ n, (before ++ (old ++ after)).drop (before.length + n) =
      (old ++ after).drop n := by
    intro n
    rw [← drop_drop, drop_left]
  induction splices generalizing cursor with
  | nil =>
    rw [map_nil, applySplices, shifted]
    exact drop_append_of_le_length ordered
  | cons splice rest ih =>
    obtain ⟨before_start, inside, later⟩ := ordered
    have inList := later.cursor_le
    have stretch : slice (before ++ (old ++ after)) (before.length + cursor)
        (before.length + splice.start) = slice old cursor splice.start := by
      rw [slice, slice, shifted, Nat.add_sub_add_left,
        drop_append_of_le_length (by omega), take_append_of_le_length (by rw [length_drop]; omega)]
    rw [map_cons, applySplices, applySplices, stretch, ih later, append_assoc, append_assoc]

section

variable {ι : Type*} {write : ι → List α} {pieces : List (List α × ι)}
variable {last : List α}

end

end WriterAgent
