import Mathlib

/-!
# Groups of consecutive intervals

A list of items in order, each with an interval that ends before the next one
starts, is cut into groups of neighbours.
-/

namespace IntervalGroups

open List

/-- A group of neighbours, never empty. -/
structure Cluster (ι : Type*) where
  first : ι
  rest : List ι

namespace Cluster

variable {ι : Type*}

def items (group : Cluster ι) : List ι := group.first :: group.rest

def last (group : Cluster ι) : ι := group.rest.getLastD group.first

def append (group behind : Cluster ι) : Cluster ι :=
  ⟨group.first, group.rest ++ behind.items⟩

def single (item : ι) : Cluster ι := ⟨item, []⟩

@[simp] theorem items_single (item : ι) : (single item).items = [item] := rfl

@[simp] theorem last_single (item : ι) : (single item).last = item := rfl

@[simp] theorem items_append (group behind : Cluster ι) :
    (group.append behind).items = group.items ++ behind.items := rfl

@[simp] theorem first_append (group behind : Cluster ι) :
    (group.append behind).first = group.first := rfl

@[simp] theorem last_append (group behind : Cluster ι) :
    (group.append behind).last = behind.last := by
  simp [last, append, items, getLastD_eq_getLast?, List.getLast?_cons]

theorem first_mem (group : Cluster ι) : group.first ∈ group.items :=
  mem_cons_self

theorem last_mem (group : Cluster ι) : group.last ∈ group.items := by
  rw [last, getLastD_eq_getLast?]
  cases found : group.rest.getLast? with
  | none => exact first_mem group
  | some item => exact mem_cons_of_mem _ (mem_of_getLast? found)

theorem eq_append_last (group : Cluster ι) : ∃ front, group.items = front ++ [group.last] := by
  obtain ⟨first, rest⟩ := group
  rcases eq_nil_or_concat rest with rfl | ⟨front, item, rfl⟩
  · exact ⟨[], rfl⟩
  · exact ⟨first :: front, by simp [items, last]⟩

end Cluster

variable {ι α : Type*} [LinearOrder α] (lo hi : ι → α)

/-- Each interval ends before the next one starts. -/
structure Sequential (items : List ι) : Prop where
  forward : ∀ item ∈ items, lo item ≤ hi item
  apart : items.Pairwise fun item later => hi item ≤ lo later

def hull (group : Cluster ι) : α × α := (lo group.first, hi group.last)

def ungroup (groups : List (Cluster ι)) : List ι := groups.flatMap Cluster.items

@[simp] theorem ungroup_append (groups more : List (Cluster ι)) :
    ungroup (groups ++ more) = ungroup groups ++ ungroup more :=
  flatMap_append

@[simp] theorem ungroup_singleton (group : Cluster ι) : ungroup [group] = group.items := by
  simp [ungroup]

theorem mem_ungroup {groups : List (Cluster ι)} {item : ι} :
    item ∈ ungroup groups ↔ ∃ group ∈ groups, item ∈ group.items :=
  mem_flatMap

variable {lo hi} {items : List ι} {groups : List (Cluster ι)} {group : Cluster ι}

theorem Sequential.of_append {more : List ι} (sequential : Sequential lo hi (items ++ more)) :
    Sequential lo hi items ∧ Sequential lo hi more :=
  ⟨⟨fun item member => sequential.forward item (mem_append_left _ member),
      (pairwise_append.1 sequential.apart).1⟩,
    ⟨fun item member => sequential.forward item (mem_append_right _ member),
      (pairwise_append.1 sequential.apart).2.1⟩⟩

theorem Sequential.between {more : List ι} (sequential : Sequential lo hi (items ++ more))
    {item later : ι} (member : item ∈ items) (behind : later ∈ more) : hi item ≤ lo later :=
  (pairwise_append.1 sequential.apart).2.2 item member later behind

theorem lo_first_le (sequential : Sequential lo hi group.items) {item : ι}
    (member : item ∈ group.items) : lo group.first ≤ lo item := by
  rcases mem_cons.1 member with rfl | behind
  · exact le_refl _
  · exact le_trans (sequential.forward _ group.first_mem)
      ((pairwise_cons.1 sequential.apart).1 item behind)

theorem hi_le_last (sequential : Sequential lo hi group.items) {item : ι}
    (member : item ∈ group.items) : hi item ≤ hi group.last := by
  obtain ⟨front, cut⟩ := group.eq_append_last
  rw [cut] at sequential member
  rcases mem_append.1 member with before | here
  · exact le_trans (sequential.between before (mem_singleton.2 rfl))
      (sequential.forward _ (mem_append_right _ (mem_singleton.2 rfl)))
  · rw [mem_singleton.1 here]

theorem hull_forward (sequential : Sequential lo hi group.items) :
    (hull lo hi group).1 ≤ (hull lo hi group).2 :=
  le_trans (sequential.forward _ group.first_mem) (hi_le_last sequential group.first_mem)

theorem Sequential.hulls (sequential : Sequential lo hi (ungroup groups)) :
    (groups.map (hull lo hi)).Pairwise fun span later => span.2 ≤ later.1 := by
  induction groups with
  | nil => exact List.Pairwise.nil
  | cons head rest induction =>
    refine pairwise_cons.2 ⟨?_, induction sequential.of_append.2⟩
    intro span member
    obtain ⟨later, behind, rfl⟩ := mem_map.1 member
    exact sequential.between head.last_mem (mem_ungroup.2 ⟨later, behind, later.first_mem⟩)

theorem Sequential.of_mem (sequential : Sequential lo hi (ungroup groups))
    (member : group ∈ groups) : Sequential lo hi group.items := by
  obtain ⟨front, back, rfl⟩ := append_of_mem member
  rw [ungroup_append] at sequential
  exact sequential.of_append.2.of_append.1

variable (lo hi) in
def Inside (item : ι) (span : α × α) : Prop := span.1 ≤ lo item ∧ hi item ≤ span.2

instance (item : ι) (span : α × α) : Decidable (Inside lo hi item span) :=
  inferInstanceAs (Decidable (_ ∧ _))

theorem inside_hull (sequential : Sequential lo hi group.items) {item : ι}
    (member : item ∈ group.items) : Inside lo hi item (hull lo hi group) :=
  ⟨lo_first_le sequential member, hi_le_last sequential member⟩

theorem countP_inside (sequential : Sequential lo hi (ungroup groups)) {item : ι}
    (proper : lo item < hi item) (member : item ∈ ungroup groups) :
    (groups.map (hull lo hi)).countP (Inside lo hi item ·) = 1 := by
  obtain ⟨group, here, inGroup⟩ := mem_ungroup.1 member
  obtain ⟨front, back, rfl⟩ := append_of_mem here
  have own : Inside lo hi item (hull lo hi group) :=
    inside_hull (sequential.of_mem here) inGroup
  rw [ungroup_append] at sequential
  have before : (front.map (hull lo hi)).countP (Inside lo hi item ·) = 0 := by
    rw [countP_eq_zero]
    intro span mapped inside
    obtain ⟨earlier, inFront, rfl⟩ := mem_map.1 mapped
    have ends : hi earlier.last ≤ lo item := sequential.between
      (mem_ungroup.2 ⟨earlier, inFront, earlier.last_mem⟩)
      (mem_ungroup.2 ⟨group, mem_cons_self, inGroup⟩)
    exact absurd (le_trans (of_decide_eq_true inside).2 ends) (not_le.2 proper)
  have after : (back.map (hull lo hi)).countP (Inside lo hi item ·) = 0 := by
    rw [countP_eq_zero]
    intro span mapped inside
    obtain ⟨later, inBack, rfl⟩ := mem_map.1 mapped
    have starts : hi item ≤ lo later.first := sequential.of_append.2.between inGroup
      (mem_ungroup.2 ⟨later, inBack, later.first_mem⟩)
    exact absurd (le_trans starts (of_decide_eq_true inside).1) (not_le.2 proper)
  rw [map_append, countP_append, before, map_cons, countP_cons_of_pos (by simpa using own), after]

end IntervalGroups
