import Mathlib.Data.List.Nodup
import Mathlib.Data.List.Perm.Basic

/-!
# Tables with a unique key

A table of a database is the list of its rows under one `UNIQUE` constraint:
no two rows have the same key.  A plain `INSERT` fails on a key that is
there, a row can be put in only when its key is new, and deletes keep the
rows that do not match.
-/

universe u v

/-- The rows of a table, no two of them with the same key. -/
structure UniqueTable {ρ : Type u} {κ : Type v} (key : ρ → κ) where
  rows : List ρ
  unique : (rows.map key).Nodup

namespace UniqueTable

open List

variable {ρ : Type u} {κ : Type v} {key : ρ → κ}

def empty : UniqueTable key := ⟨[], nodup_nil⟩

variable {table table' : UniqueTable key} {row other : ρ} {rows : List ρ}

theorem nodup_rows (table : UniqueTable key) : table.rows.Nodup :=
  List.Nodup.of_map key table.unique

theorem perm_of_mem_iff {left right : UniqueTable key}
    (same : ∀ row, row ∈ left.rows ↔ row ∈ right.rows) : left.rows.Perm right.rows :=
  (perm_ext_iff_of_nodup left.nodup_rows right.nodup_rows).mpr same

/-- `DELETE FROM table WHERE doomed`. -/
def deleteWhere (doomed : ρ → Bool) (table : UniqueTable key) : UniqueTable key :=
  ⟨table.rows.filter (!doomed ·), by
    have sublist : ((table.rows.filter (!doomed ·)).map key).Sublist
        (table.rows.map key) := filter_sublist.map key
    exact sublist.nodup table.unique⟩

@[simp] theorem mem_deleteWhere {doomed : ρ → Bool} :
    row ∈ (table.deleteWhere doomed).rows ↔ row ∈ table.rows ∧ doomed row = false := by
  simp [deleteWhere]

theorem nodup_append_singleton (unique : (rows.map key).Nodup)
    (fresh : key row ∉ rows.map key) : ((rows ++ [row]).map key).Nodup := by
  rw [map_append, nodup_append]
  refine ⟨unique, by simp, ?_⟩
  intro k inRows other isRow same
  rw [map_singleton, mem_singleton] at isRow
  rw [same, isRow] at inRows
  exact fresh inRows

variable [DecidableEq κ]

/-- `INSERT INTO table`, which fails on a key that is there. -/
def insert? (row : ρ) (table : UniqueTable key) : Option (UniqueTable key) :=
  if fresh : key row ∉ table.rows.map key then
    some ⟨table.rows ++ [row], nodup_append_singleton table.unique fresh⟩
  else none

def insertNew (row : ρ) (table : UniqueTable key) : UniqueTable key :=
  (table.insert? row).getD table

def insertAll? (rows : List ρ) (table : UniqueTable key) : Option (UniqueTable key) :=
  rows.foldlM (fun table row => table.insert? row) table

def insertAllNew (rows : List ρ) (table : UniqueTable key) : UniqueTable key :=
  rows.foldl (fun table row => table.insertNew row) table

theorem insert?_of_fresh (fresh : key row ∉ table.rows.map key) :
    ∃ table', table.insert? row = some table' ∧ table'.rows = table.rows ++ [row] := by
  rw [insert?, dif_pos fresh]
  exact ⟨_, rfl, rfl⟩

theorem insert?_eq_some (inserted : table.insert? row = some table') :
    table'.rows = table.rows ++ [row] := by
  by_cases fresh : key row ∉ table.rows.map key
  · rw [insert?, dif_pos fresh] at inserted
    cases inserted
    rfl
  · rw [insert?, dif_neg fresh] at inserted
    cases inserted

theorem insertAll?_of_fresh (distinct : (rows.map key).Nodup)
    (fresh : ∀ row ∈ rows, key row ∉ table.rows.map key) :
    ∃ table', table.insertAll? rows = some table' ∧ table'.rows = table.rows ++ rows := by
  induction rows generalizing table with
  | nil => exact ⟨table, rfl, (append_nil _).symm⟩
  | cons row rest ih =>
    obtain ⟨next, inserted, rows_next⟩ := insert?_of_fresh (fresh row mem_cons_self)
    rw [map_cons, nodup_cons] at distinct
    have stillFresh : ∀ other ∈ rest, key other ∉ next.rows.map key := by
      intro other member
      rw [rows_next, map_append, mem_append, map_singleton, mem_singleton]
      rintro (old | same)
      · exact fresh other (mem_cons_of_mem _ member) old
      · exact distinct.1 (same ▸ mem_map_of_mem member)
    obtain ⟨table', all, rows_all⟩ := ih distinct.2 stillFresh
    refine ⟨table', ?_, ?_⟩
    · rw [insertAll?, foldlM_cons, inserted]
      exact all
    · rw [rows_all, rows_next, append_assoc, singleton_append]

theorem insertAll?_eq_some (inserted : table.insertAll? rows = some table') :
    table'.rows = table.rows ++ rows := by
  induction rows generalizing table with
  | nil =>
    cases inserted
    exact (append_nil _).symm
  | cons row rest ih =>
    obtain ⟨next, first, others⟩ := Option.bind_eq_some_iff.mp inserted
    rw [ih others, insert?_eq_some first, append_assoc, singleton_append]

theorem mem_insertNew_of_agree (agree : ∀ old ∈ table.rows, key old = key row → old = row) :
    other ∈ (table.insertNew row).rows ↔ other ∈ table.rows ∨ other = row := by
  by_cases fresh : key row ∉ table.rows.map key
  · obtain ⟨table', inserted, rows_eq⟩ := insert?_of_fresh fresh
    rw [insertNew, inserted, Option.getD_some, rows_eq, mem_append, mem_singleton]
  · rw [insertNew, insert?, dif_neg fresh]
    obtain ⟨old, member, same⟩ := mem_map.mp (not_not.mp fresh)
    rw [agree old member same] at member
    exact ⟨Or.inl, fun h => h.elim (fun inRows => inRows) (fun isRow => isRow ▸ member)⟩

theorem mem_insertAllNew_of_agree
    (agree : ∀ old ∈ table.rows, ∀ row ∈ rows, key old = key row → old = row)
    (among : ∀ row ∈ rows, ∀ row' ∈ rows, key row = key row' → row = row') :
    other ∈ (table.insertAllNew rows).rows ↔ other ∈ table.rows ∨ other ∈ rows := by
  induction rows generalizing table with
  | nil => simp [insertAllNew]
  | cons row rest ih =>
    have first : ∀ any, any ∈ (table.insertNew row).rows ↔ any ∈ table.rows ∨ any = row :=
      fun any => mem_insertNew_of_agree fun old member =>
        agree old member row mem_cons_self
    have agreeNext : ∀ old ∈ (table.insertNew row).rows, ∀ later ∈ rest,
        key old = key later → old = later := by
      intro old member later inRest same
      rcases (first old).mp member with inTable | rfl
      · exact agree old inTable later (mem_cons_of_mem _ inRest) same
      · exact among old mem_cons_self later (mem_cons_of_mem _ inRest) same
    have amongNext : ∀ later ∈ rest, ∀ later' ∈ rest, key later = key later' → later = later' :=
      fun later member later' member' =>
        among later (mem_cons_of_mem _ member) later' (mem_cons_of_mem _ member')
    have rest_iff := ih agreeNext amongNext
    rw [first other, or_assoc] at rest_iff
    rw [mem_cons]
    exact rest_iff

end UniqueTable
