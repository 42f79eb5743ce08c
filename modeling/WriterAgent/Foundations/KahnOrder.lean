import Mathlib.Data.Fintype.Card
import Mathlib.Data.Fintype.EquivFin
import Mathlib.Data.List.Shortlex
import Mathlib.Data.List.Sort
import Mathlib.Logic.Function.Basic
import Mathlib.Logic.Relation

/-!
# Ordering a graph by a queue

A node enters the queue once all nodes before it have left it.  The order is
that of leaving; what never enters is on a cycle or behind one.
-/

namespace WriterAgent.KahnOrder

open List

variable {α : Type} [DecidableEq α]

/-- How many edges into a node are still to be crossed off, the queue, and the
nodes that have left it. -/
structure State (α : Type) where
  degree : α → ℤ
  queue : List α
  ordered : List α

/-- Cross off the edges to the given nodes; whoever has no more edges is put
into the queue. -/
def release (state : State α) : List α → State α
  | [] => state
  | next :: rest =>
    release { state with
        degree := Function.update state.degree next (state.degree next - 1)
        queue :=
          if state.degree next - 1 = 0 then state.queue ++ [next] else state.queue }
      rest

def step (successors : α → List α) (state : State α) : State α :=
  match state.queue with
  | [] => state
  | node :: rest =>
    release { state with queue := rest, ordered := state.ordered ++ [node] } (successors node)

def run (successors : α → List α) : ℕ → State α → State α
  | 0, state => state
  | fuel + 1, state =>
    if state.queue = [] then state else run successors fuel (step successors state)

/-- The nodes in the order in which they leave the queue.  Each enters it at
most once, so their number bounds the rounds. -/
def order (nodes : List α) (successors : α → List α) (degree : α → ℤ) : List α :=
  (run successors nodes.length ⟨degree, nodes.filter fun node => degree node = 0, []⟩).ordered

/-- A finite graph whose successors and degrees are those of its predecessors,
every list in order. -/
structure IsGraph (lt : α → α → Prop) (nodes : List α) (predecessors successors : α → List α)
    (degree : α → ℤ) : Prop where
  sorted : nodes.Pairwise lt
  inside : ∀ node ∈ nodes, predecessors node ⊆ nodes
  distinct : ∀ node ∈ nodes, (predecessors node).Nodup
  sortedSuccessors : ∀ node ∈ nodes, (successors node).Pairwise lt
  mem_successors : ∀ node ∈ nodes, ∀ next,
    next ∈ successors node ↔ next ∈ nodes ∧ node ∈ predecessors next
  degree : ∀ node ∈ nodes, degree node = (predecessors node).length

/-- No endless chain of predecessors starts at the node. -/
def Grounded (predecessors : α → List α) : α → Prop :=
  Acc fun before node => before ∈ predecessors node

variable {state : State α} {node : α} {ordered list s t : List α}

theorem release_eq {next : List α} (distinct : next.Nodup) : release state next =
      ⟨fun node => state.degree node - if node ∈ next then 1 else 0,
        state.queue ++ next.filter (fun node => state.degree node = 1), state.ordered⟩ := by
  induction next generalizing state with
  | nil => simp [release]
  | cons first rest induction =>
    obtain ⟨fresh, distinct⟩ := nodup_cons.1 distinct
    rw [release, induction distinct]
    have others : ∀ node ∈ rest, Function.update state.degree first
        (state.degree first - 1) node = state.degree node := by
      intro node member
      rw [Function.update_of_ne]
      rintro rfl
      exact fresh member
    have filtered : (rest.filter fun node => decide (Function.update state.degree first
        (state.degree first - 1) node = 1)) =
        rest.filter fun node => decide (state.degree node = 1) := by
      apply filter_congr
      intro node member
      rw [others node member]
    simp only [filtered]
    congr 1
    · funext node
      by_cases here : node = first
      · subst here
        simp [fresh]
      · simp [here]
    · by_cases last : state.degree first = 1
      · simp [last]
      · have more : state.degree first - 1 ≠ 0 := by omega
        simp [last, more]

theorem countP_notMem_append (fresh : node ∉ ordered) :
    list.countP (· ∉ ordered) = list.countP (· ∉ ordered ++ [node]) + list.count node := by
  induction list with
  | nil => rfl
  | cons first rest induction =>
    rw [countP_cons, induction]
    by_cases here : first = node
    · subst here
      simp [fresh]
      omega
    · by_cases old : first ∈ ordered
      · simp [old, here]
      · simp [old, here]
        omega

variable {lt : α → α → Prop} {nodes : List α} {predecessors successors : α → List α}
  {degree : α → ℤ}

/-- While the loop runs: the nodes that left the queue or stand in it are those
whose predecessors have left it. -/
structure Underway (nodes : List α) (predecessors : α → List α) (state : State α) : Prop where
  distinct : (state.ordered ++ state.queue).Nodup
  inside : ∀ node ∈ state.ordered ++ state.queue, node ∈ nodes
  degree : ∀ node ∈ nodes, state.degree node = (predecessors node).countP (· ∉ state.ordered)
  entered : ∀ node ∈ nodes,
    node ∈ state.ordered ++ state.queue ↔ ∀ p ∈ predecessors node, p ∈ state.ordered

theorem countP_eq_zero_iff : (list.countP (· ∉ ordered) : ℤ) = 0 ↔ ∀ p ∈ list, p ∈ ordered := by
  simp

section

variable [IsStrictOrder α lt] (graph : IsGraph lt nodes predecessors successors degree)

include graph

theorem underway_start :
    Underway nodes predecessors ⟨degree, nodes.filter fun node => degree node = 0, []⟩ := by
  refine ⟨?_, ?_, ?_, ?_⟩
  · exact (graph.sorted.imp (fun less => ne_of_irrefl less)).filter _
  · intro node member
    exact (mem_filter.1 member).1
  · intro node member
    change degree node = _
    rw [graph.degree node member]
    simp
  · intro node member
    simp [member, graph.degree node member, eq_nil_iff_forall_not_mem]

theorem step_eq {rest : List α} (underway : Underway nodes predecessors state)
    (first : state.queue = node :: rest) :
    step successors state =
      ⟨fun other => state.degree other - if other ∈ successors node then 1 else 0,
        rest ++ (successors node).filter (fun other => state.degree other = 1),
        state.ordered ++ [node]⟩ := by
  have member : node ∈ nodes := underway.inside node (by simp [first])
  rw [step, first]
  dsimp only
  rw [release_eq ((graph.sortedSuccessors node member).imp fun less => ne_of_irrefl less)]

theorem Underway.step (underway : Underway nodes predecessors state) :
    Underway nodes predecessors (step successors state) := by
  cases first : state.queue with
  | nil =>
    rw [KahnOrder.step, first]
    exact underway
  | cons node rest =>
    rw [step_eq graph underway first]
    have distinct := underway.distinct
    rw [first] at distinct
    have inNodes : node ∈ nodes := underway.inside node (by simp [first])
    have fresh : node ∉ state.ordered := by
      intro old
      exact (nodup_append.1 distinct).2.2 node old node mem_cons_self rfl
    have degrees : ∀ other ∈ nodes,
        (state.degree other - if other ∈ successors node then 1 else 0) =
          ((predecessors other).countP (· ∉ state.ordered ++ [node]) : ℤ) := by
      intro other member
      rw [underway.degree other member, countP_notMem_append fresh,
        (graph.distinct other member).count]
      by_cases before : node ∈ predecessors other
      · rw [if_pos before, if_pos ((graph.mem_successors node inNodes other).2 ⟨member, before⟩)]
        omega
      · rw [if_neg before, if_neg fun after =>
          before ((graph.mem_successors node inNodes other).1 after).2]
        omega
    have released : ∀ other, other ∈ (successors node).filter
        (fun other => state.degree other = 1) ↔
        other ∈ nodes ∧ node ∈ predecessors other ∧
          ∀ p ∈ predecessors other, p ∈ state.ordered ++ [node] := by
      intro other
      rw [mem_filter, graph.mem_successors node inNodes, decide_eq_true_eq, and_assoc]
      refine and_congr_right fun member => and_congr_right fun before => ?_
      rw [← countP_eq_zero_iff, ← degrees other member,
        if_pos ((graph.mem_successors node inNodes other).2 ⟨member, before⟩)]
      omega
    have notEntered : ∀ other ∈ nodes, node ∈ predecessors other →
        other ∉ state.ordered ++ state.queue := by
      intro other member before entered
      exact fresh ((underway.entered other member).1 entered node before)
    have whole : ∀ joined : List α, state.ordered ++ [node] ++ (rest ++ joined) =
        state.ordered ++ state.queue ++ joined := by simp [first]
    refine ⟨?_, ?_, degrees, ?_⟩
    · rw [whole, nodup_append]
      refine ⟨underway.distinct, ?_, ?_⟩
      · exact ((graph.sortedSuccessors node inNodes).imp fun less => ne_of_irrefl less).filter _
      · rintro other entered _ joined rfl
        obtain ⟨member, before, _⟩ := (released other).1 joined
        exact notEntered other member before entered
    · rw [whole]
      intro other member
      rcases mem_append.1 member with entered | joined
      · exact underway.inside other entered
      · exact ((released other).1 joined).1
    · intro other member
      rw [whole, mem_append, underway.entered other member, released]
      constructor
      · rintro (all | ⟨_, _, all⟩)
        · exact fun p before => mem_append_left _ (all p before)
        · exact all
      · intro all
        by_cases before : node ∈ predecessors other
        · exact Or.inr ⟨member, before, all⟩
        · refine Or.inl fun p isBefore => ?_
          rcases mem_append.1 (all p isBefore) with old | new
          · exact old
          · obtain rfl := mem_singleton.1 new
            exact absurd isBefore before

theorem Underway.run (underway : Underway nodes predecessors state) {fuel : ℕ}
    (enough : nodes.length ≤ state.ordered.length + fuel) :
    Underway nodes predecessors (run successors fuel state) ∧
      (run successors fuel state).queue = [] := by
  induction fuel generalizing state with
  | zero =>
    refine ⟨underway, ?_⟩
    have bound := (underway.distinct.subperm underway.inside).length_le
    rw [length_append] at bound
    exact length_eq_zero_iff.1 (by rw [KahnOrder.run]; omega)
  | succ fuel induction =>
    rw [KahnOrder.run]
    split
    · next none => exact ⟨underway, none⟩
    · rename_i some
      apply induction (underway.step graph)
      obtain ⟨node, rest, first⟩ := exists_cons_of_ne_nil some
      rw [step_eq graph underway first, length_append, length_singleton]
      omega

theorem order_closed : (order nodes successors degree).Nodup ∧
      (∀ node ∈ order nodes successors degree, node ∈ nodes) ∧
      ∀ node ∈ nodes, node ∈ order nodes successors degree ↔
        ∀ p ∈ predecessors node, p ∈ order nodes successors degree := by
  obtain ⟨underway, emptied⟩ :=
    (underway_start graph).run graph (Nat.le_add_left nodes.length 0)
  have distinct := underway.distinct
  have inside := underway.inside
  have entered := underway.entered
  rw [emptied] at distinct inside entered
  rw [append_nil] at distinct inside entered
  exact ⟨distinct, inside, entered⟩

end

section Chains

omit [DecidableEq α]

open Classical in
/-- The chain that no other of the chains comes after: the longest, and of these
the greatest. -/
noncomputable def latest (lt : α → α → Prop) (chains : List (List α)) : List α :=
  if exists_last : ∃ last ∈ chains, ∀ chain ∈ chains, ¬ List.Shortlex lt last chain then
    exists_last.choose
  else []

/-- The chain of a grounded node: itself behind the latest chain of its
predecessors. -/
noncomputable def groundedChain (lt : α → α → Prop) (predecessors : α → List α) {node : α}
    (grounded : Grounded predecessors node) : List α :=
  Acc.rec (motive := fun _ _ => List α) (fun node _ chains =>
      latest lt ((predecessors node).attach.map fun p => chains p.1 p.2) ++ [node])
    grounded

open Classical in
noncomputable def chain (lt : α → α → Prop) (predecessors : α → List α) (node : α) : List α :=
  if grounded : Grounded predecessors node then groundedChain lt predecessors grounded else []

theorem chain_eq (grounded : Grounded predecessors node) : chain lt predecessors node =
      latest lt ((predecessors node).map (chain lt predecessors)) ++ [node] := by
  rw [chain, dif_pos grounded]
  cases grounded with
  | intro _ before =>
    have each : ((predecessors node).attach.map fun p =>
        groundedChain lt predecessors (before p.1 p.2)) =
        (predecessors node).map (chain lt predecessors) := by
      conv_rhs => rw [← attach_map_subtype_val (predecessors node)]
      rw [map_map]
      apply map_congr_left
      intro p _
      have grounded : Grounded predecessors p.1 := before p.1 p.2
      rw [Function.comp_apply, chain, dif_pos grounded]
    rw [← each]
    rfl

theorem latest_eq [IsStrictTotalOrder α lt] {chains : List (List α)} {last : List α}
    (member : last ∈ chains) (isLast : ∀ chain ∈ chains, ¬ List.Shortlex lt last chain) :
    latest lt chains = last := by
  have exists_last : ∃ last ∈ chains, ∀ chain ∈ chains, ¬ List.Shortlex lt last chain :=
    ⟨last, member, isLast⟩
  rw [latest, dif_pos exists_last]
  obtain ⟨chosen, isChosen⟩ := exists_last.choose_spec
  exact Std.Trichotomous.trichotomous _ _ (isChosen last member) (isLast _ chosen)

theorem latest_nil : latest lt ([] : List (List α)) = [] := by
  rw [latest, dif_neg]
  rintro ⟨last, member, _⟩
  cases member

theorem lex_append_singletons (less : List.Lex lt s t) (same : s.length = t.length) (a b : α) :
    List.Lex lt (s ++ [a]) (t ++ [b]) := by
  induction less with
  | nil => cases same
  | rel first => exact List.Lex.rel first
  | cons _ induction => exact List.Lex.cons (induction (Nat.succ.inj same))

theorem shortlex_append_singletons (less : List.Shortlex lt s t) (a b : α) :
    List.Shortlex lt (s ++ [a]) (t ++ [b]) := by
  rcases shortlex_def.1 less with shorter | ⟨same, lex⟩
  · exact List.Shortlex.of_length_lt (by simpa using shorter)
  · exact List.Shortlex.of_lex (by simpa using same) (lex_append_singletons lex same a b)

end Chains

/-- While the loop runs: the nodes met so far stand in the order of their chains,
and each was released by a node before it. -/
structure InOrder (lt : α → α → Prop) (predecessors : α → List α) (state : State α) : Prop where
  grounded : ∀ node ∈ state.ordered ++ state.queue, Grounded predecessors node
  released : ∀ node ∈ state.ordered ++ state.queue, chain lt predecessors node = [node] ∨
      ∃ p ∈ state.ordered, chain lt predecessors node = chain lt predecessors p ++ [node]
  behind : ∀ node ∈ state.ordered ++ state.queue, ∀ p ∈ predecessors node,
    List.Shortlex lt (chain lt predecessors p) (chain lt predecessors node)
  sorted : (state.ordered ++ state.queue).Pairwise fun a b =>
    List.Shortlex lt (chain lt predecessors a) (chain lt predecessors b)

section

variable [IsStrictTotalOrder α lt] (graph : IsGraph lt nodes predecessors successors degree)

include graph

omit [DecidableEq α] [IsStrictTotalOrder α lt] in
theorem inOrder_start :
    InOrder lt predecessors ⟨degree, nodes.filter fun node => degree node = 0, []⟩ := by
  have source : ∀ node ∈ nodes.filter (fun node => degree node = 0),
      Grounded predecessors node ∧ predecessors node = [] ∧
        chain lt predecessors node = [node] := by
    intro node member
    obtain ⟨inNodes, zero⟩ := mem_filter.1 member
    have none : predecessors node = [] := by
      have zero := of_decide_eq_true zero
      rw [graph.degree node inNodes] at zero
      exact length_eq_zero_iff.1 (by exact_mod_cast zero)
    have grounded : Grounded predecessors node := by
      constructor
      intro p before
      rw [none] at before
      cases before
    refine ⟨grounded, none, ?_⟩
    rw [chain_eq grounded, none, map_nil, latest_nil, nil_append]
  refine ⟨fun node member => (source node member).1,
    fun node member => Or.inl (source node member).2.2, ?_, ?_⟩
  · intro node member p before
    rw [(source node member).2.1] at before
    cases before
  · apply (graph.sorted.filter _).imp_of_mem
    intro a b inA inB less
    rw [(source a inA).2.2, (source b inB).2.2]
    exact (shortlex_singleton_iff a b).2 less

theorem InOrder.step (inOrder : InOrder lt predecessors state)
    (underway : Underway nodes predecessors state) :
    InOrder lt predecessors (step successors state) := by
  cases first : state.queue with
  | nil =>
    rw [KahnOrder.step, first]
    exact inOrder
  | cons node rest =>
    have after := underway.step graph
    rw [step_eq graph underway first] at after ⊢
    have inNodes : node ∈ nodes := underway.inside node (by simp [first])
    have sorted := inOrder.sorted
    rw [first] at sorted
    have earlier : ∀ p ∈ state.ordered, List.Shortlex lt (chain lt predecessors p)
        (chain lt predecessors node) := fun p member =>
      (pairwise_append.1 sorted).2.2 p member node mem_cons_self
    -- The node that leaves is the latest predecessor of those it releases.
    have releasedChain : ∀ other ∈ (successors node).filter
        (fun other => state.degree other = 1), Grounded predecessors other ∧
        chain lt predecessors other = chain lt predecessors node ++ [other] ∧
        ∀ p ∈ predecessors other, p = node ∨
          List.Shortlex lt (chain lt predecessors p) (chain lt predecessors node) := by
      intro other member
      obtain ⟨inside, before⟩ :=
        (graph.mem_successors node inNodes other).1 (mem_filter.1 member).1
      have all := (after.entered other inside).1 (by simp [member])
      have grounded : Grounded predecessors other := by
        constructor
        intro p isBefore
        apply inOrder.grounded p
        rcases mem_append.1 (all p isBefore) with old | new
        · exact mem_append_left _ old
        · simp [first, mem_singleton.1 new]
      have isLast : ∀ p ∈ predecessors other, p = node ∨
          List.Shortlex lt (chain lt predecessors p) (chain lt predecessors node) := by
        intro p isBefore
        rcases mem_append.1 (all p isBefore) with old | new
        · exact Or.inr (earlier p old)
        · exact Or.inl (mem_singleton.1 new)
      refine ⟨grounded, ?_, isLast⟩
      rw [chain_eq grounded, latest_eq (mem_map_of_mem before)]
      intro before' isChain
      obtain ⟨p, isBefore, rfl⟩ := mem_map.1 isChain
      rcases isLast p isBefore with rfl | less
      · exact fun less => Std.Asymm.asymm _ _ less less
      · exact Std.Asymm.asymm _ _ less
    have whole : ∀ joined : List α, state.ordered ++ [node] ++ (rest ++ joined) =
        state.ordered ++ state.queue ++ joined := by simp [first]
    refine ⟨?_, ?_, ?_, ?_⟩
    · rw [whole]
      intro other member
      rcases mem_append.1 member with old | joined
      · exact inOrder.grounded other old
      · exact (releasedChain other joined).1
    · rw [whole]
      intro other member
      rcases mem_append.1 member with old | joined
      · rcases inOrder.released other old with alone | ⟨p, ordered, isChain⟩
        · exact Or.inl alone
        · exact Or.inr ⟨p, mem_append_left _ ordered, isChain⟩
      · exact Or.inr ⟨node, by simp, (releasedChain other joined).2.1⟩
    · rw [whole]
      intro other member p before
      rcases mem_append.1 member with old | joined
      · exact inOrder.behind other old p before
      · obtain ⟨_, isChain, isLast⟩ := releasedChain other joined
        rw [isChain]
        rcases isLast p before with rfl | less
        · exact List.Shortlex.of_length_lt (by simp)
        · exact less.append_right _
    · rw [whole, pairwise_append]
      refine ⟨inOrder.sorted, ?_, ?_⟩
      · apply ((graph.sortedSuccessors node inNodes).filter _).imp_of_mem
        intro a b inA inB less
        rw [(releasedChain a inA).2.1, (releasedChain b inB).2.1]
        exact ((shortlex_singleton_iff a b).2 less).append_left _
      · intro a old b joined
        rw [(releasedChain b joined).2.1]
        rcases inOrder.released a old with alone | ⟨p, ordered, isChain⟩
        · apply List.Shortlex.of_length_lt
          have grounded : Grounded predecessors node := inOrder.grounded node (by simp [first])
          rw [alone, chain_eq grounded]
          simp
        · rw [isChain]
          exact shortlex_append_singletons (earlier p ordered) a b

theorem InOrder.run (inOrder : InOrder lt predecessors state)
    (underway : Underway nodes predecessors state) (fuel : ℕ) :
    InOrder lt predecessors (run successors fuel state) := by
  induction fuel generalizing state with
  | zero => exact inOrder
  | succ fuel induction =>
    rw [KahnOrder.run]
    split
    · exact inOrder
    · exact induction (inOrder.step graph underway) (underway.step graph)

/-- **The order.** It holds the grounded nodes. -/
theorem mem_order_iff {node : α} :
    node ∈ order nodes successors degree ↔ node ∈ nodes ∧ Grounded predecessors node := by
  obtain ⟨_, inside, closed⟩ := order_closed graph
  have inOrder := (inOrder_start graph).run graph (underway_start graph) nodes.length
  constructor
  · intro member
    exact ⟨inside node member, inOrder.grounded node (mem_append_left _ member)⟩
  · rintro ⟨member, grounded⟩
    induction grounded with
    | intro node _ induction =>
      refine (closed node member).2 fun p before => ?_
      exact induction p before (graph.inside node member before)

theorem order_sorted : (order nodes successors degree).Pairwise fun a b =>
      List.Shortlex lt (chain lt predecessors a) (chain lt predecessors b) :=
  (pairwise_append.1 ((inOrder_start graph).run graph (underway_start graph) nodes.length).sorted).1

theorem before_iff {a b : α} (inA : a ∈ order nodes successors degree)
    (inB : b ∈ order nodes successors degree) (other : a ≠ b) :
    [a, b].Sublist (order nodes successors degree) ↔
      List.Shortlex lt (chain lt predecessors a) (chain lt predecessors b) := by
  have sorted : ∀ {a b : α}, [a, b].Sublist (order nodes successors degree) →
      List.Shortlex lt (chain lt predecessors a) (chain lt predecessors b) :=
    pairwise_iff_forall_sublist.1 (order_sorted graph)
  refine ⟨fun before => sorted before, fun less => ?_⟩
  obtain ⟨front, back, split⟩ := append_of_mem inB
  rw [split] at inA
  rcases mem_append.1 inA with before | later
  · rw [split]
    exact (singleton_sublist.2 before).append (singleton_sublist.2 mem_cons_self)
  · have after : a ∈ back := (mem_cons.1 later).resolve_left other
    have wrong : [b, a].Sublist (order nodes successors degree) := by
      rw [split]
      exact ((singleton_sublist.2 after).cons_cons b).trans (sublist_append_right _ _)
    exact absurd less (Std.Asymm.asymm _ _ (sorted wrong))

theorem predecessor_before {p node : α} (before : p ∈ predecessors node)
    (member : node ∈ order nodes successors degree) :
    List.Shortlex lt (chain lt predecessors p) (chain lt predecessors node) :=
  ((inOrder_start graph).run graph (underway_start graph) nodes.length).behind node
    (mem_append_left _ member) p before

end

theorem exists_cycle (inside : ∀ node ∈ nodes, predecessors node ⊆ nodes) (member : node ∈ nodes)
    (notGrounded : ¬ Grounded predecessors node) :
    ∃ turn, Relation.ReflTransGen (fun a b => b ∈ predecessors a) node turn ∧
      Relation.TransGen (fun a b => b ∈ predecessors a) turn turn := by
  by_contra none
  push Not at none
  let Reached := {m : α // m ∈ nodes ∧ Relation.ReflTransGen (fun a b => b ∈ predecessors a) node m}
  let before : Reached → Reached → Prop := fun a b =>
    Relation.TransGen (fun a b => b ∈ predecessors a) b.1 a.1
  have finite : Finite Reached :=
    Finite.of_injective (fun m : Reached => (⟨m.1, m.2.1⟩ : {m // m ∈ nodes})) fun a b same =>
      Subtype.ext (Subtype.mk.inj same)
  have irrefl : Std.Irrefl before := ⟨fun m => none m.1 m.2.2⟩
  have founded : WellFounded before := Finite.wellFounded_of_trans_of_irrefl before
  have grounded : ∀ m : Reached, Grounded predecessors m.1 := by
    intro m
    induction m using founded.induction with
    | _ m induction =>
      constructor
      intro p isBefore
      exact induction ⟨p, inside m.1 m.2.1 isBefore, m.2.2.tail isBefore⟩ (.single isBefore)
  exact notGrounded (grounded ⟨node, member, .refl⟩)

end WriterAgent.KahnOrder
