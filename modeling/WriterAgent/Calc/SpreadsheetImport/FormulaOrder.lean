import WriterAgent.Calc.SpreadsheetImport.Graph

/-!
# The order of a dependency graph

The formula cells of a graph are in the topological order if they are grounded,
and in one of the groups otherwise.
-/

namespace WriterAgent.Calc.SpreadsheetImport

open PyText List

variable {texts unvisited : List Text} {adjacent : Text → List Text}

theorem nodup_sortTexts : (sortTexts texts).Nodup ↔ texts.Nodup :=
  (perm_insertionSort (· ≤ ·) texts).nodup_iff

theorem sortTexts_sorted (distinct : texts.Nodup) : (sortTexts texts).Pairwise (· < ·) := by
  have sorted : (sortTexts texts).Pairwise (· ≤ ·) := pairwise_insertionSort (· ≤ ·) texts
  have apart : (sortTexts texts).Pairwise (· ≠ ·) := nodup_sortTexts.2 distinct
  exact (sorted.and apart).imp fun both => lt_of_le_of_ne both.1 both.2

def formulaPrecedents (graph : PyDict Text (List Text)) (node : Text) : List Text :=
  (precedentsOf graph node).filter (· ∈ graph.keys)

theorem mem_formulaPrecedents {graph : PyDict Text (List Text)} {node p : Text} :
    p ∈ formulaPrecedents graph node ↔ p ∈ precedentsOf graph node ∧ p ∈ graph.keys := by
  rw [formulaPrecedents, mem_filter, decide_eq_true_eq]

variable {graph : PyDict Text (List Text)}

theorem isGraph (distinct : ∀ node, (precedentsOf graph node).Nodup) :
    KahnOrder.IsGraph (· < ·) (sortTexts graph.keys) (formulaPrecedents graph)
      (successorsOf graph) (inDegree graph) := by
  refine ⟨sortTexts_sorted graph.distinct, ?_, ?_, ?_, ?_, ?_⟩
  · intro node _ p member
    exact mem_sortTexts.2 (mem_formulaPrecedents.1 member).2
  · exact fun node _ => (distinct node).filter _
  · exact fun node _ => sortTexts_sorted (graph.distinct.filter _)
  · intro node member next
    rw [successorsOf, mem_sortTexts, mem_filter, decide_eq_true_eq, mem_sortTexts,
      mem_formulaPrecedents, and_iff_left (mem_sortTexts.1 member)]
  · intro node _
    rw [inDegree, formulaPrecedents, countP_eq_length_filter]

theorem nodup_component {found stack : List Text} {pending : ∀ cur ∈ stack, cur ∈ unvisited}
    (distinct : found.Nodup) : (component adjacent unvisited found stack pending).Nodup := by
  fun_induction component adjacent unvisited found stack pending with
  | case1 found pending => exact distinct
  | case2 found cur rest pending old _ induction => exact induction distinct
  | case3 found cur rest pending fresh _ induction =>
    apply induction
    rw [nodup_append]
    refine ⟨distinct, nodup_singleton cur, ?_⟩
    rintro other old new here rfl
    exact fresh (mem_singleton.1 here ▸ old)

theorem cycleGroups_partition (distinct : unvisited.Nodup) :
    (cycleGroups adjacent unvisited).flatten.Nodup ∧
      ∀ node, node ∈ (cycleGroups adjacent unvisited).flatten ↔ node ∈ unvisited := by
  fun_induction cycleGroups adjacent unvisited with
  | case1 unvisited none =>
    refine ⟨nodup_nil, fun node => ?_⟩
    rw [← @mem_sortTexts unvisited, none]
    simp
  | case2 unvisited start rest first member found induction =>
    rw [@List.unattach_filter _ _ _ _ (fun x => decide (x ∉ found)) (fun _ _ => rfl),
      unattach_attach] at induction
    obtain ⟨apart, members⟩ := induction (distinct.filter _)
    have inside : ∀ node ∈ found, node ∈ unvisited := by
      intro node isFound
      rcases mem_component.2.2 node isFound with old | new
      · cases old
      · exact new
    rw [flatten_cons]
    constructor
    · rw [nodup_append]
      refine ⟨nodup_sortTexts.2 (nodup_component nodup_nil), apart, ?_⟩
      rintro node isFound _ later rfl
      have unfound := (mem_filter.1 ((members node).1 later)).2
      exact of_decide_eq_true unfound (mem_sortTexts.1 isFound)
    · intro node
      rw [mem_append, members, mem_sortTexts, mem_filter, decide_eq_true_eq]
      constructor
      · rintro (isFound | ⟨isMember, _⟩)
        · exact inside node isFound
        · exact isMember
      · intro isMember
        by_cases isFound : node ∈ found
        · exact Or.inl isFound
        · exact Or.inr ⟨isMember, isFound⟩

/-- What the order and the groups are: the grounded cells by their chains, and
the others apart. -/
structure IsOrdered (graph : PyDict Text (List Text)) (order : List Text)
    (groups : List (List Text)) : Prop where
  distinct : (order ++ groups.flatten).Nodup
  members : ∀ node, node ∈ order ++ groups.flatten ↔ node ∈ graph.keys
  grounded : ∀ node, node ∈ order ↔
    node ∈ graph.keys ∧ KahnOrder.Grounded (formulaPrecedents graph) node
  before_iff : ∀ a ∈ order, ∀ b ∈ order, a ≠ b → ([a, b].Sublist order ↔
    List.Shortlex (· < ·) (KahnOrder.chain (· < ·) (formulaPrecedents graph) a)
      (KahnOrder.chain (· < ·) (formulaPrecedents graph) b))
  precedent : ∀ node ∈ order, ∀ p ∈ formulaPrecedents graph node,
    List.Shortlex (· < ·) (KahnOrder.chain (· < ·) (formulaPrecedents graph) p)
      (KahnOrder.chain (· < ·) (formulaPrecedents graph) node)

theorem isOrdered_topologicalFormulaOrder (distinct : ∀ node, (precedentsOf graph node).Nodup) :
    IsOrdered graph (topologicalFormulaOrder graph).1 (topologicalFormulaOrder graph).2 := by
  have kahn := isGraph distinct
  have nodes : (sortTexts graph.keys).Nodup := nodup_sortTexts.2 graph.distinct
  obtain ⟨ordered, inside, _⟩ := KahnOrder.order_closed kahn
  have grounded := fun node => @KahnOrder.mem_order_iff _ _ _ _ _ _ _ _ kahn node
  have before := fun a inA b inB => @KahnOrder.before_iff _ _ _ _ _ _ _ _ kahn a b inA inB
  have precedent := fun node member p before =>
    @KahnOrder.predecessor_before _ _ _ _ _ _ _ _ kahn p node before member
  simp only [mem_sortTexts] at grounded inside
  rw [topologicalFormulaOrder]
  generalize KahnOrder.order (sortTexts graph.keys) (successorsOf graph) (inDegree graph) =
    order at ordered inside grounded before precedent ⊢
  split
  · rename_i all
    have whole : order.Perm (sortTexts graph.keys) :=
      (ordered.subperm fun node member => mem_sortTexts.2 (inside node member)).perm_of_length_le
        all.ge
    refine ⟨by simpa using ordered, ?_, grounded, before, precedent⟩
    intro node
    rw [flatten_nil, append_nil, whole.mem_iff, mem_sortTexts]
  · obtain ⟨apart, members⟩ := cycleGroups_partition (nodes.filter (· ∉ order))
    refine ⟨?_, ?_, grounded, before, precedent⟩
    · rw [nodup_append]
      refine ⟨ordered, apart, ?_⟩
      rintro node placed _ left rfl
      exact of_decide_eq_true (mem_filter.1 ((members node).1 left)).2 placed
    · intro node
      rw [mem_append, members, mem_filter, mem_sortTexts, decide_eq_true_eq]
      constructor
      · rintro (placed | ⟨isNode, _⟩)
        · exact inside node placed
        · exact isNode
      · intro isNode
        by_cases placed : node ∈ order
        · exact Or.inl placed
        · exact Or.inr ⟨isNode, placed⟩

end WriterAgent.Calc.SpreadsheetImport
