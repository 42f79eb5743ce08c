import WriterAgent.Calc.Python.StripSafety
import WriterAgent.Foundations.Acyclic
import Mathlib.Order.SuccPred.Basic
import Mathlib.Order.Interval.Set.Nat

/-!
# Circular references after the attach pass

The pass looks one hop back: it attaches the previous cell unless that cell
already refers to the one at hand.
-/

namespace WriterAgent.Calc.Python

open PyText List

/-- The `i`-th listed cell refers to the `j`-th, by the formulas given. -/
def Refers (cells : List GeometricCell) (formulaOf : GeometricCell → Text) (i j : Nat) : Prop :=
  ∃ source target, cells[i]? = some source ∧ cells[j]? = some target ∧
    formulaMentionsCell (formulaOf source) target.address = true

/-- No data argument ends like a nested call or a bracketed list, so that
arguments written back are read as they were written. -/
def PlainEnds (cells : List GeometricCell) : Prop :=
  ∀ cell ∈ cells, ∀ args, formulaDataArgs cell.formula = some args →
    ∀ token ∈ args, token.getLast? ≠ some ')' ∧ token.getLast? ≠ some ']'

theorem readable_of_plainEnds {tokens : List Text} (plain : ∀ token ∈ tokens, DataToken token)
    (ends : ∀ token ∈ tokens, token.getLast? ≠ some ')' ∧ token.getLast? ≠ some ']') :
    Readable tokens := by
  rcases eq_nil_or_concat tokens with rfl | ⟨front, last, rfl⟩
  · exact ⟨plain, by simp, by simp⟩
  · rw [concat_eq_append] at *
    have lastPlain := plain last (by simp)
    have lastEnds := ends last (by simp)
    have joined : (join ';' (front ++ [last])).getLast? = last.getLast? :=
      join_getLast? lastPlain.nonempty
    refine ⟨plain, ?_, ?_⟩
    · rw [joined]
      exact lastEnds.1
    · rw [joined]
      exact fun both => lastEnds.2 both.2

variable {cells : List GeometricCell} {cell : GeometricCell}
  {formulaOf : GeometricCell → Text} {i j : Nat}

theorem CellOutcome.mentions {incoming : PyDict Text GeometricRecord} (ends : PlainEnds cells)
    (member : cell ∈ cells) {previous : Option Predecessor} {post : Text}
    {slot : Option WorkingRecord} (outcome : CellOutcome incoming cell previous post slot)
    {address : Text} (plain : isA1 address = true)
    (mentioned : formulaMentionsCell post address = true) :
    formulaMentionsCell cell.formula address = true ∨ ∃ found, previous = some found ∧
        formulaMentionsCell found.post cell.address = false ∧
        a1Position found.address = a1Position address := by
  rcases outcome.formula_cases with
    rfl | ⟨args, base, found, isPrevious, free, rewrite⟩ | ⟨args, rewrite⟩
  · exact Or.inl mentioned
  · rcases rewrite.mentions plain mentioned with before | attached
    · exact Or.inl before
    · exact Or.inr ⟨found, isPrevious, free, attached⟩
  · have readable := readable_of_plainEnds
      (fun token inRest => dataToken_of_formulaDataArgs rewrite.read token
        (mem_of_mem_dropLast inRest))
      (fun token inRest => ends cell member args rewrite.read token (mem_of_mem_dropLast inRest))
    exact Or.inl (rewrite.mentions readable plain mentioned)

section Edges

variable {cells : List GeometricCell} {records : PyDict Text GeometricRecord}
  {workbookKey sheetName : Text} {i j : Nat}

theorem split_of_getElem? (found : cells[i]? = some cell) :
    cells = cells.take i ++ cell :: cells.drop (i + 1) := by
  obtain ⟨bound, rfl⟩ := List.getElem?_eq_some_iff.mp found
  rw [getElem_cons_drop, take_append_drop]

theorem predecessorOf_take {patches : List GeometricPatch} (found : cells[i]? = some cell)
    {previous : Predecessor} (isPrevious : predecessorOf patches (cells.take i) = some previous) :
    ∃ before, 0 < i ∧ cells[i - 1]? = some before ∧
      previous = ⟨before.address, patchedFormula patches before⟩ := by
  simp only [predecessorOf, Option.map_eq_some_iff] at isPrevious
  obtain ⟨before, last, rfl⟩ := isPrevious
  obtain ⟨bound, _⟩ := List.getElem?_eq_some_iff.mp found
  have positive : 0 < i := by
    by_contra zero
    have zero' : i = 0 := by omega
    simp [zero'] at last
  refine ⟨before, positive, ?_, rfl⟩
  rw [List.getLast?_eq_getElem?, length_take, Nat.min_eq_left bound.le] at last
  simpa [show i - 1 < i by omega] using last

theorem refers_after (sorted : RowMajor cells) (ends : PlainEnds cells)
    (refers : Refers cells (patchedFormula (computeSheetRepair cells records
      workbookKey sheetName false).patches) i j) :
    Refers cells GeometricCell.formula i j ∨
      (j + 1 = i ∧ ¬ Refers cells (patchedFormula (computeSheetRepair cells
        records workbookKey sheetName false).patches) j i) := by
  obtain ⟨source, target, sourceEq, targetEq, mentioned⟩ := refers
  have sourceMember := mem_of_getElem? sourceEq
  have targetMember := mem_of_getElem? targetEq
  have targetPlain := sorted.plain target targetMember
  obtain ⟨slot, outcome, _⟩ := @computeSheetRepair_outcome cells records
    workbookKey sheetName sorted _ _ source (split_of_getElem? sourceEq)
  rcases outcome.mentions ends sourceMember targetPlain mentioned with
    before | ⟨found, isPrevious, free, samePosition⟩
  · exact Or.inl ⟨source, target, sourceEq, targetEq, before⟩
  · apply Or.inr
    obtain ⟨before, positive, beforeEq, rfl⟩ :=
      predecessorOf_take sourceEq isPrevious
    obtain rfl : before = target :=
      sorted.position_injective (mem_of_getElem? beforeEq) targetMember samePosition
    have index : i - 1 = j := by
      obtain ⟨bound, _⟩ := List.getElem?_eq_some_iff.mp beforeEq
      exact (List.getElem?_inj bound sorted.nodup).mp (beforeEq.trans targetEq.symm)
    refine ⟨by omega, ?_⟩
    rintro ⟨source', target', source'Eq, target'Eq, reverse⟩
    obtain rfl := Option.some.inj (source'Eq.symm.trans targetEq)
    obtain rfl := Option.some.inj (target'Eq.symm.trans sourceEq)
    simp [free] at reverse

/-- **Acyclicity.** Every cycle that the pass closes runs through a reference
that jumps forward over a listed cell, and without such references there is
none. -/
theorem acyclic_after_repair (sorted : RowMajor cells) (ends : PlainEnds cells)
    (acyclic : Acyclic (Refers cells GeometricCell.formula)) (truncated : Bool) :
    let post := patchedFormula (computeSheetRepair cells records workbookKey
      sheetName truncated).patches
    Acyclic (fun i j => Refers cells post i j ∧ j ≤ i + 1) ∧
      ((∀ i j, Refers cells GeometricCell.formula i j → j ≤ i + 1) →
        Acyclic (Refers cells post)) := by
  intro post
  cases truncated with
  | true => exact ⟨acyclic.mono fun _ _ edge => edge.1, fun _ => acyclic⟩
  | false =>
    have short : Acyclic (fun i j => Refers cells post i j ∧ j ≤ i + 1) := by
      apply acyclic.attach
      · rintro i j ⟨refers, _⟩
        rcases refers_after sorted ends refers with before | ⟨next, missing⟩
        · exact Or.inl before
        · refine Or.inr ⟨?_, fun reverse => missing reverse.1⟩
          rw [Nat.covBy_iff_add_one_eq]
          exact next
      · rintro i j ⟨_, near⟩ forward
        rw [Nat.covBy_iff_add_one_eq]
        omega
    refine ⟨short, ?_⟩
    intro oldShort
    apply short.mono
    intro i j refers
    refine ⟨refers, ?_⟩
    rcases refers_after sorted ends refers with before | ⟨next, _⟩
    · exact oldShort i j before
    · omega

end Edges

theorem refers_iff : Refers cells formulaOf i j ↔
      (cells[i]?.any fun source => cells[j]?.any fun target =>
        formulaMentionsCell (formulaOf source) target.address) = true := by
  simp [Refers, Option.any_eq_true]

instance (cells : List GeometricCell) (formulaOf : GeometricCell → Text)
    (i j : Nat) : Decidable (Refers cells formulaOf i j) :=
  decidable_of_iff _ refers_iff.symm

theorem Refers.lt_length (refers : Refers cells formulaOf i j) :
    i < cells.length ∧ j < cells.length := by
  obtain ⟨source, target, sourceEq, targetEq, _⟩ := refers
  exact ⟨(List.getElem?_eq_some_iff.mp sourceEq).1, (List.getElem?_eq_some_iff.mp targetEq).1⟩

def backwardChain : List GeometricCell :=
  [⟨"A1".toList, "=PY(\"x\")".toList, "x".toList⟩,
    ⟨"A2".toList, "=PY(\"y\";A1)".toList, "y".toList⟩,
    ⟨"A3".toList, "=PY(\"z\")".toList, "z".toList⟩]

theorem acyclic_backwardChain_after_repair :
    Acyclic (Refers backwardChain (patchedFormula (computeSheetRepair
      backwardChain .empty "wb".toList "Sheet1".toList false).patches)) := by
  have sorted : RowMajor backwardChain := by decide
  have ends : PlainEnds backwardChain := by
    intro cell member args read token inArgs
    have all : ∀ cell ∈ backwardChain, ∀ args ∈ formulaDataArgs cell.formula,
        ∀ token ∈ args, token.getLast? ≠ some ')' ∧ token.getLast? ≠ some ']' := by decide
    exact all cell member args read token inArgs
  have backward : ∀ i j, Refers backwardChain GeometricCell.formula i j → j < i := by
    intro i j refers
    obtain ⟨iBound, jBound⟩ := refers.lt_length
    have checked : ∀ i < 3, ∀ j < 3,
        Refers backwardChain GeometricCell.formula i j → j < i := by decide
    exact checked i iBound j jBound refers
  have acyclic : Acyclic (Refers backwardChain GeometricCell.formula) :=
    Acyclic.of_rank id backward
  apply (acyclic_after_repair sorted ends acyclic false).2
  intro i j refers
  have below := backward i j refers
  omega

def forwardJump : List GeometricCell :=
  [⟨"A1".toList, "=PY(\"x\";A3)".toList, "x".toList⟩,
    ⟨"A2".toList, "=PY(\"y\")".toList, "y".toList⟩,
    ⟨"A3".toList, "=PY(\"z\")".toList, "z".toList⟩]

/-- The first cell has an attached reference behind a nested call. -/
def nestedCall : List GeometricCell :=
  [⟨"A1".toList, "=PY(\"x\";f(B9;A2);C1)".toList, "x".toList⟩,
    ⟨"A2".toList, "=PY(\"y\";A1)".toList, "y".toList⟩]

def nestedCallRecords : PyDict Text GeometricRecord :=
  .ofPairs [("A1".toList, ⟨"C1".toList⟩)]

/-- The chain `A3 → A2 → A1` closes a cycle with the jump, and taking the
reference off the nested call uncovers one of its arguments. -/
theorem not_acyclic_forwardJump_nestedCall : (RowMajor forwardJump ∧
      Acyclic (Refers forwardJump GeometricCell.formula) ∧
      ¬ Acyclic (Refers forwardJump (patchedFormula (computeSheetRepair
        forwardJump .empty "wb".toList "Sheet1".toList false).patches))) ∧
    (RowMajor nestedCall ∧ Acyclic (Refers nestedCall GeometricCell.formula) ∧
      ¬ Acyclic (Refers nestedCall (patchedFormula (computeSheetRepair
        nestedCall nestedCallRecords "wb".toList "Sheet1".toList false).patches))) := by
  refine ⟨⟨by decide, ?_, ?_⟩, ⟨by decide, ?_, ?_⟩⟩
  · apply Acyclic.of_rank (fun i : Nat => 3 - i)
    intro i j refers
    obtain ⟨iBound, jBound⟩ := refers.lt_length
    have checked : ∀ i < 3, ∀ j < 3,
        Refers forwardJump GeometricCell.formula i j → 3 - j < 3 - i := by
      decide
    exact checked i iBound j jBound refers
  · intro acyclic
    apply acyclic 0
    exact ((Relation.TransGen.single (show Refers _ _ 0 2 by decide)).tail
        (show Refers _ _ 2 1 by decide)).tail (show Refers _ _ 1 0 by decide)
  · apply Acyclic.of_rank id
    intro i j refers
    obtain ⟨iBound, jBound⟩ := refers.lt_length
    have checked : ∀ i < 2, ∀ j < 2,
        Refers nestedCall GeometricCell.formula i j → id j < id i := by decide
    exact checked i iBound j jBound refers
  · intro acyclic
    apply acyclic 0
    exact (Relation.TransGen.single (show Refers _ _ 0 1 by decide)).tail
        (show Refers _ _ 1 0 by decide)

end WriterAgent.Calc.Python
