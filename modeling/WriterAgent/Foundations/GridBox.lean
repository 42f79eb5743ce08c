import Mathlib.Data.List.Nodup
import Mathlib.Data.List.Perm.Subperm

/-!
# Boxes of grid cells

A box holds the cells between two rows and two columns.  A duplicate-free list
of cells is a box as soon as it has as many cells as the smallest box around
it.
-/

/-- A box of cells, given by its first and last row and column. -/
structure GridBox where
  startRow : Nat
  endRow : Nat
  startColumn : Nat
  endColumn : Nat
  rows : startRow ≤ endRow
  columns : startColumn ≤ endColumn
deriving DecidableEq

namespace GridBox

open List

def corner (box : GridBox) : Nat × Nat := (box.startRow, box.startColumn)

def Contains (box : GridBox) (cell : Nat × Nat) : Prop :=
  (box.startRow ≤ cell.1 ∧ cell.1 ≤ box.endRow) ∧ box.startColumn ≤ cell.2 ∧ cell.2 ≤ box.endColumn

instance (box : GridBox) (cell : Nat × Nat) : Decidable (box.Contains cell) :=
  inferInstanceAs (Decidable ((_ ∧ _) ∧ _ ∧ _))

def cells (box : GridBox) : List (Nat × Nat) :=
  (List.range' box.startRow (box.endRow + 1 - box.startRow)).flatMap fun r =>
    (List.range' box.startColumn (box.endColumn + 1 - box.startColumn)).map fun c => (r, c)

def size (box : GridBox) : Nat :=
  (box.endRow - box.startRow + 1) * (box.endColumn - box.startColumn + 1)

variable {box : GridBox} {hits : List (Nat × Nat)} {numbers : List Nat}

theorem contains_corner (box : GridBox) : box.Contains box.corner :=
  ⟨⟨Nat.le_refl _, box.rows⟩, Nat.le_refl _, box.columns⟩

@[simp] theorem mem_cells {cell : Nat × Nat} : cell ∈ box.cells ↔ box.Contains cell := by
  obtain ⟨row, column⟩ := cell
  simp only [cells, Contains, mem_flatMap, List.mem_map, mem_range'_1, Prod.mk.injEq]
  constructor
  · intro ⟨r, inRows, c, inColumns, sameRow, sameColumn⟩
    omega
  · intro ⟨inRows, inColumns⟩
    exact ⟨row, by omega, column, by omega, rfl, rfl⟩

theorem nodup_cells (box : GridBox) : box.cells.Nodup := by
  unfold cells
  rw [nodup_flatMap]
  constructor
  · intro r member
    exact List.Nodup.map (fun c d equal => (Prod.mk.inj equal).2) nodup_range'
  · apply List.Pairwise.imp _ nodup_range'
    intro r s different cell inR inS
    obtain ⟨c, member, rfl⟩ := List.mem_map.mp inR
    obtain ⟨d, other, equal⟩ := List.mem_map.mp inS
    exact different (Prod.mk.inj equal).1.symm

theorem length_cells (box : GridBox) : box.cells.length = box.size := by
  have rows := box.rows
  have columns := box.columns
  simp only [cells, length_flatMap, length_map, length_range', map_const', sum_replicate_nat, size]
  congr 1 <;> omega

theorem eq_of_same_cells {other : GridBox}
    (same : ∀ cell, box.Contains cell ↔ other.Contains cell) : box = other := by
  have first := (same box.corner).mp box.contains_corner
  have second := (same other.corner).mpr other.contains_corner
  have third := (same (box.endRow, box.endColumn)).mp
    ⟨⟨box.rows, Nat.le_refl _⟩, box.columns, Nat.le_refl _⟩
  have fourth := (same (other.endRow, other.endColumn)).mpr
    ⟨⟨other.rows, Nat.le_refl _⟩, other.columns, Nat.le_refl _⟩
  obtain ⟨startRow, endRow, startColumn, endColumn, rows, columns⟩ := box
  simp only [Contains, corner] at first second third fourth
  obtain ⟨startRow', endRow', startColumn', endColumn', rows', columns'⟩ := other
  simp only [mk.injEq]
  dsimp only at first second third fourth
  omega

theorem eq_of_apart {α : Type*} {area : α → GridBox} {items : List α}
    (apart : items.Pairwise fun x y =>
      ∀ cell, (area x).Contains cell → ¬ (area y).Contains cell)
    {x y : α} (inItems : x ∈ items) (otherInItems : y ∈ items) {cell : Nat × Nat}
    (contains : (area x).Contains cell) (otherContains : (area y).Contains cell) :
    x = y := by
  induction apart with
  | nil => cases inItems
  | cons head _ induction =>
    rcases mem_cons.mp inItems with rfl | inTail
    · rcases mem_cons.mp otherInItems with rfl | otherInTail
      · rfl
      · exact absurd otherContains (head y otherInTail cell contains)
    · rcases mem_cons.mp otherInItems with rfl | otherInTail
      · exact absurd contains (head x inTail cell otherContains)
      · exact induction inTail otherInTail

end GridBox

def leastOf (numbers : List Nat) : Nat := numbers.min?.getD 0

def greatestOf (numbers : List Nat) : Nat := numbers.max?.getD 0

theorem leastOf_spec (some_number : numbers ≠ []) :
    leastOf numbers ∈ numbers ∧ ∀ n ∈ numbers, leastOf numbers ≤ n := by
  cases least : numbers.min? with
  | none => exact absurd (List.min?_eq_none_iff.mp least) some_number
  | some n =>
    rw [leastOf, least]
    exact List.min?_eq_some_iff.mp least

theorem greatestOf_spec (some_number : numbers ≠ []) :
    greatestOf numbers ∈ numbers ∧ ∀ n ∈ numbers, n ≤ greatestOf numbers := by
  cases greatest : numbers.max? with
  | none => exact absurd (List.max?_eq_none_iff.mp greatest) some_number
  | some n =>
    rw [greatestOf, greatest]
    exact List.max?_eq_some_iff.mp greatest

def boxAround (hits : List (Nat × Nat)) (some_hit : hits ≠ []) : GridBox where
  startRow := leastOf (hits.map Prod.fst)
  endRow := greatestOf (hits.map Prod.fst)
  startColumn := leastOf (hits.map Prod.snd)
  endColumn := greatestOf (hits.map Prod.snd)
  rows := by
    have some_row : hits.map Prod.fst ≠ [] := by simpa using some_hit
    exact (greatestOf_spec some_row).2 _ (leastOf_spec some_row).1
  columns := by
    have some_column : hits.map Prod.snd ≠ [] := by simpa using some_hit
    exact (greatestOf_spec some_column).2 _ (leastOf_spec some_column).1

theorem boxAround_contains (some_hit : hits ≠ []) {hit : Nat × Nat}
    (member : hit ∈ hits) : (boxAround hits some_hit).Contains hit := by
  have some_row : hits.map Prod.fst ≠ [] := by simpa using some_hit
  have some_column : hits.map Prod.snd ≠ [] := by simpa using some_hit
  have inRows := List.mem_map_of_mem (f := Prod.fst) member
  have inColumns := List.mem_map_of_mem (f := Prod.snd) member
  exact ⟨⟨(leastOf_spec some_row).2 _ inRows, (greatestOf_spec some_row).2 _ inRows⟩,
    (leastOf_spec some_column).2 _ inColumns,
    (greatestOf_spec some_column).2 _ inColumns⟩

theorem boxAround_eq (some_hit : hits ≠ [])
    (exact_cells : ∀ cell, cell ∈ hits ↔ box.Contains cell) :
    boxAround hits some_hit = box := by
  have some_row : hits.map Prod.fst ≠ [] := by simpa using some_hit
  have some_column : hits.map Prod.snd ≠ [] := by simpa using some_hit
  have first := boxAround_contains some_hit ((exact_cells _).mpr box.contains_corner)
  have last := boxAround_contains some_hit ((exact_cells (box.endRow, box.endColumn)).mpr
      ⟨⟨box.rows, Nat.le_refl _⟩, box.columns, Nat.le_refl _⟩)
  have within : ∀ cell ∈ hits, box.Contains cell := fun cell => (exact_cells cell).mp
  obtain ⟨top, inTop, topRow⟩ := List.mem_map.mp (leastOf_spec some_row).1
  obtain ⟨bottom, inBottom, bottomRow⟩ := List.mem_map.mp (greatestOf_spec some_row).1
  obtain ⟨left, inLeft, leftColumn⟩ := List.mem_map.mp (leastOf_spec some_column).1
  obtain ⟨right, inRight, rightColumn⟩ :=
    List.mem_map.mp (greatestOf_spec some_column).1
  have atTop := within top inTop
  have atBottom := within bottom inBottom
  have atLeft := within left inLeft
  have atRight := within right inRight
  simp only [GridBox.Contains, GridBox.corner, boxAround] at first last
  simp only [GridBox.Contains] at atTop atBottom atLeft atRight
  obtain ⟨startRow, endRow, startColumn, endColumn, rows, columns⟩ := box
  simp only [boxAround, GridBox.mk.injEq]
  dsimp only at first last atTop atBottom atLeft atRight
  omega

theorem length_eq_size_boxAround_iff (some_hit : hits ≠ []) (distinct : hits.Nodup) :
    hits.length = (boxAround hits some_hit).size ↔
      ∀ cell, cell ∈ hits ↔ (boxAround hits some_hit).Contains cell := by
  have inside : hits ⊆ (boxAround hits some_hit).cells := fun hit member =>
    GridBox.mem_cells.mpr (boxAround_contains some_hit member)
  have sub : hits.Subperm (boxAround hits some_hit).cells := distinct.subperm inside
  rw [← GridBox.length_cells]
  constructor
  · intro same cell
    have perm := sub.perm_of_length_le (Nat.le_of_eq same.symm)
    rw [perm.mem_iff, GridBox.mem_cells]
  · intro exact_cells
    have perm : hits.Perm (boxAround hits some_hit).cells :=
      (List.perm_ext_iff_of_nodup distinct (GridBox.nodup_cells _)).mpr fun cell => by
        rw [exact_cells cell, GridBox.mem_cells]
    exact perm.length_eq
