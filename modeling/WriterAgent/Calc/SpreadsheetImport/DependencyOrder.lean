import WriterAgent.Calc.SpreadsheetImport.FormulaOrder
import WriterAgent.Calc.SpreadsheetImport.IngestedGrid
import WriterAgent.Calc.SpreadsheetImport.Mentions

/-!
# The dependency order of an ingested sheet

The graph has the cells that a formula mentions, and of a range its corners.
The cells inside a range are not in it.
-/

namespace WriterAgent.Calc.SpreadsheetImport

open PyText List

def IsFormulaCell (model : SheetModel) (addr : Text) : Prop :=
  ∃ record, model.cells.get? addr = some record ∧ record.type.isFormulaLike = true

variable {model : SheetModel} {addr formula d p : Text}

theorem mem_formulaLikeAddresses :
    addr ∈ formulaLikeAddresses model.cells ↔ IsFormulaCell model addr := by
  rw [formulaLikeAddresses, mem_sortTexts, IsFormulaCell]
  simp only [mem_map, mem_filter, PyDict.get?_eq_some_iff]
  constructor
  · rintro ⟨⟨key, record⟩, ⟨member, isFormula⟩, rfl⟩
    exact ⟨record, member, isFormula⟩
  · rintro ⟨record, member, isFormula⟩
    exact ⟨(addr, record), ⟨member, isFormula⟩, rfl⟩

theorem nodup_formulaLikeAddresses (cells : PyDict Text CellRecord) :
    (formulaLikeAddresses cells).Nodup := by
  rw [formulaLikeAddresses, nodup_sortTexts]
  exact (filter_sublist.map Prod.fst).nodup cells.distinct

theorem get?_buildDependencyGraph {deps : List Text} :
    (buildDependencyGraph model).get? addr = some deps ↔
      ∃ record, model.cells.get? addr = some record ∧ record.type.isFormulaLike = true ∧
        deps = dependencies model.cells record := by
  have keys : (((formulaLikeAddresses model.cells).filterMap fun addr =>
      (model.cells.get? addr).map fun cell =>
        (addr, dependencies model.cells cell)).map Prod.fst).Nodup := by
    rw [keys_withRecords model.cells fun _ => dependencies model.cells]
    exact (nodup_formulaLikeAddresses model.cells).filter _
  rw [PyDict.get?_eq_some_iff, buildDependencyGraph, PyDict.ofPairs_entries keys]
  simp only [mem_filterMap, mem_formulaLikeAddresses, Option.map_eq_some_iff]
  constructor
  · rintro ⟨key, ⟨record, found, isFormula⟩, other, isOther, same⟩
    obtain ⟨rfl, rfl⟩ := Prod.mk.inj same
    obtain rfl : record = other := Option.some.inj (found.symm.trans isOther)
    exact ⟨record, found, isFormula, rfl⟩
  · rintro ⟨record, found, isFormula, rfl⟩
    exact ⟨addr, ⟨record, found, isFormula⟩, record, found, rfl⟩

theorem mem_keys_buildDependencyGraph :
    addr ∈ (buildDependencyGraph model).keys ↔ IsFormulaCell model addr := by
  simp only [PyDict.mem_keys_iff, get?_buildDependencyGraph]
  constructor
  · rintro ⟨_, record, found, isFormula, _⟩
    exact ⟨record, found, isFormula⟩
  · rintro ⟨record, found, isFormula⟩
    exact ⟨_, record, found, isFormula, rfl⟩

def noteRef (scope ordered : List Text) (ref : Text) : List Text :=
  if upper ref ∈ scope ∧ upper ref ∉ ordered then ordered ++ [upper ref] else ordered

theorem noteRef_spec {scope ordered : List Text} (ref : Text) (distinct : ordered.Nodup) :
    (noteRef scope ordered ref).Nodup ∧
      ∀ p, p ∈ noteRef scope ordered ref ↔ p ∈ ordered ∨ p ∈ scope ∧ upper ref = p := by
  rw [noteRef]
  split
  · rename_i new
    refine ⟨?_, fun p => ?_⟩
    · rw [nodup_append]
      refine ⟨distinct, nodup_singleton _, ?_⟩
      rintro old isOld _ here rfl
      exact new.2 (mem_singleton.1 here ▸ isOld)
    · rw [mem_append, mem_singleton]
      constructor
      · rintro (old | rfl)
        · exact Or.inl old
        · exact Or.inr ⟨new.1, rfl⟩
      · rintro (old | ⟨_, rfl⟩)
        · exact Or.inl old
        · exact Or.inr rfl
  · rename_i known
    refine ⟨distinct, fun p => ⟨Or.inl, ?_⟩⟩
    rintro (old | ⟨inScope, rfl⟩)
    · exact old
    · exact not_not.1 fun fresh => known ⟨inScope, fresh⟩

theorem filterRefsToScope_spec (refs scope : List Text) : (filterRefsToScope refs scope).Nodup ∧
      ∀ p, p ∈ filterRefsToScope refs scope ↔ p ∈ scope ∧ ∃ ref ∈ refs, upper ref = p := by
  have run : ∀ (refs ordered : List Text), ordered.Nodup →
      (refs.foldl (noteRef scope) ordered).Nodup ∧
      ∀ p, p ∈ refs.foldl (noteRef scope) ordered ↔
        p ∈ ordered ∨ p ∈ scope ∧ ∃ ref ∈ refs, upper ref = p := by
    intro refs
    induction refs with
    | nil => exact fun ordered distinct => ⟨distinct, by simp⟩
    | cons ref rest induction =>
      intro ordered distinct
      obtain ⟨noted, members⟩ := @noteRef_spec scope ordered ref distinct
      obtain ⟨nodup, all⟩ := induction _ noted
      refine ⟨nodup, fun p => ?_⟩
      rw [foldl_cons, all, members, exists_mem_cons_iff]
      tauto
  obtain ⟨nodup, members⟩ := run refs [] nodup_nil
  refine ⟨nodup, fun p => (members p).trans ?_⟩
  simp

/-- What ingesting promises of a model, apart from the classification. -/
structure HasPrecedents (model : SheetModel) : Prop where
  formula : ∀ addr record, model.cells.get? addr = some record → record.type.isFormulaLike →
    ∃ formula, record.formula = some formula ∧ record.precedents =
      filterRefsToScope ((extractCellRefs formula).filter fun r => r ≠ addr) model.cells.keys
  order : (model.formulaOrder, model.circularGroups) =
    topologicalFormulaOrder (buildDependencyGraph model)

theorem withPrecedents_precedents {scope : List Text} {cell : CellRecord}
    (isFormula : (withPrecedents scope cell).formula = some formula) (nonempty : formula ≠ []) :
    (withPrecedents scope cell).precedents =
      filterRefsToScope ((extractCellRefs formula).filter fun r => r ≠ cell.address) scope := by
  cases known : cell.formula with
  | none =>
    rw [withPrecedents, known] at isFormula
    rw [known] at isFormula
    cases isFormula
  | some text =>
    rw [withPrecedents, known] at isFormula ⊢
    dsimp only at isFormula ⊢
    split at isFormula
    · rename_i noText
      subst noText
      rw [known] at isFormula
      exact absurd (Option.some.inj isFormula).symm nonempty
    · rename_i someText
      rw [if_neg someText]
      rw [Option.some.inj isFormula]

theorem hasPrecedents_ingested {width startCol startRow : ℕ} {sheetName : Text}
    {dataArray : List (List (Option CellValue))} {formulaArray : List (List Text)}
    (range : IsRange width dataArray formulaArray)
    (ingested : ingestFromArrays sheetName startCol startRow dataArray formulaArray = .ok model) :
    HasPrecedents model := by
  rw [ingestFromArrays_eq range] at ingested
  rw [← Except.ok.inj ingested]
  refine ⟨?_, attachGraphToModel_order _⟩
  rw [(attachGraphToModel_frame _).1]
  intro addr record found isFormula
  have classified := ingestedCells_classified range found
  obtain ⟨c, rest, hasFormula, _⟩ := classified.formula
    (by intro isConstant; rw [isConstant] at isFormula; cases isFormula)
    (by intro isEmpty; rw [isEmpty] at isFormula; cases isFormula)
  refine ⟨c :: rest, hasFormula, ?_⟩
  rw [ingestedCells_keys range]
  obtain ⟨_, _, rawVal, rawFormula, _, _, _, _, _, isRecord⟩ :=
    (get?_ingestedCells_iff range).1 found
  rw [isRecord] at hasFormula ⊢
  rw [withPrecedents_precedents hasFormula (cons_ne_nil c rest), cellRecord_address]

/-- A cell refers to a cell, directly or through a range that contains it. -/
def RefersTo (model : SheetModel) (d p : Text) : Prop :=
  ∃ record formula lexemes lexeme q, model.cells.get? d = some record ∧
    record.formula = some formula ∧ Reads formula lexemes ∧ lexeme ∈ lexemes ∧
    lexeme.Covers q ∧ p = formatAddress q.1 q.2

def RefersToOther (model : SheetModel) (d p : Text) : Prop := RefersTo model d p ∧ p ≠ d

def HasReadings (model : SheetModel) : Prop :=
  ∀ addr record formula, model.cells.get? addr = some record → record.type.isFormulaLike = true →
    record.formula = some formula → ∃ lexemes, Reads formula lexemes

variable {model : SheetModel}

theorem mem_formulaPrecedents_iff (has : HasPrecedents model) {record : CellRecord}
    {lexemes : List Lexeme} (found : model.cells.get? d = some record)
    (isFormula : record.type.isFormulaLike = true) (hasFormula : record.formula = some formula)
    (reads : Reads formula lexemes) :
    p ∈ formulaPrecedents (buildDependencyGraph model) d ↔ IsFormulaCell model p ∧ p ≠ d ∧
        ∃ q ∈ lexemes.flatMap Lexeme.mentions, p = formatAddress q.1 q.2 := by
  obtain ⟨text, isText, precedents⟩ := has.formula d record found isFormula
  obtain rfl : formula = text := Option.some.inj (hasFormula.symm.trans isText)
  have deps : precedentsOf (buildDependencyGraph model) d = dependencies model.cells record := by
    rw [precedentsOf, get?_buildDependencyGraph.2 ⟨record, found, isFormula, rfl⟩]
    rfl
  have upperAddress : ∀ q : Position, upper (formatAddress q.1 q.2) = formatAddress q.1 q.2 :=
    fun q => upper_of_forall_isA1Char fun c => isA1Char_of_mem_formatAddress
  rw [mem_formulaPrecedents, deps, mem_keys_buildDependencyGraph, dependencies, mem_filter,
    precedents, (filterRefsToScope_spec _ _).2, extractCellRefs_of_reads reads]
  constructor
  · rintro ⟨⟨⟨_, ref, member, rfl⟩, _⟩, isCell⟩
    obtain ⟨inRefs, other⟩ := mem_filter.1 member
    obtain ⟨q, mentioned, rfl⟩ := mem_map.1 inRefs
    rw [upperAddress] at isCell ⊢
    exact ⟨isCell, of_decide_eq_true other, q, mentioned, rfl⟩
  · rintro ⟨isCell, other, q, mentioned, rfl⟩
    obtain ⟨target, isTarget, isFormulaTarget⟩ := isCell
    refine ⟨⟨⟨PyDict.mem_keys_iff.2 ⟨target, isTarget⟩, formatAddress q.1 q.2, ?_,
      upperAddress q⟩, ?_⟩, target, isTarget, isFormulaTarget⟩
    · exact mem_filter.2 ⟨mem_map.2 ⟨q, mentioned, rfl⟩, decide_eq_true other⟩
    · rw [isTarget]
      have notEmpty : target.type ≠ .empty := by
        intro isEmpty
        rw [isEmpty] at isFormulaTarget
        cases isFormulaTarget
      simpa using notEmpty

theorem nodup_precedentsOf (has : HasPrecedents model) (node : Text) :
    (precedentsOf (buildDependencyGraph model) node).Nodup := by
  rw [precedentsOf]
  cases known : (buildDependencyGraph model).get? node with
  | none => exact nodup_nil
  | some deps =>
    obtain ⟨record, found, isFormula, rfl⟩ := get?_buildDependencyGraph.1 known
    obtain ⟨_, _, precedents⟩ := has.formula node record found isFormula
    rw [dependencies, precedents]
    exact (filterRefsToScope_spec _ _).1.filter _

theorem refersToOther_of_mem (has : HasPrecedents model) (readings : HasReadings model)
    (before : p ∈ formulaPrecedents (buildDependencyGraph model) d) :
    RefersToOther model d p := by
  have isCell : IsFormulaCell model d := by
    by_contra other
    have none : (buildDependencyGraph model).get? d = none := by
      by_contra some
      obtain ⟨deps, isSome⟩ := Option.ne_none_iff_exists'.1 some
      obtain ⟨record, found, isFormula, _⟩ := get?_buildDependencyGraph.1 isSome
      exact other ⟨record, found, isFormula⟩
    rw [mem_formulaPrecedents, precedentsOf, none] at before
    cases before.1
  obtain ⟨record, found, isFormula⟩ := isCell
  obtain ⟨formula, hasFormula, _⟩ := has.formula d record found isFormula
  obtain ⟨lexemes, reads⟩ := readings d record formula found isFormula hasFormula
  obtain ⟨_, other, q, mentioned, rfl⟩ :=
    (mem_formulaPrecedents_iff has found isFormula hasFormula reads).1 before
  obtain ⟨lexeme, member, inLexeme⟩ := mem_flatMap.1 mentioned
  exact ⟨⟨record, formula, lexemes, lexeme, q, found, hasFormula, reads, member,
    covers_of_mem_mentions inLexeme, rfl⟩, other⟩

/-- Every formula cell has its place, behind the formula cells it refers to or
in a group from which a cycle is reached. -/
structure InDependencyOrder (model : SheetModel) : Prop where
  distinct : (model.formulaOrder ++ model.circularGroups.flatten).Nodup
  members : ∀ addr,
    addr ∈ model.formulaOrder ++ model.circularGroups.flatten ↔ IsFormulaCell model addr
  ordered : ∀ d ∈ model.formulaOrder, ∀ p, IsFormulaCell model p → RefersToOther model d p →
    [p, d].Sublist model.formulaOrder
  circular : ∀ group ∈ model.circularGroups, ∀ d ∈ group, ∃ turn,
    Relation.ReflTransGen (RefersToOther model) d turn ∧
      Relation.TransGen (RefersToOther model) turn turn

/-- No endless chain of mentions starts at a cell. -/
def IsGrounded (model : SheetModel) : Text → Prop :=
  KahnOrder.Grounded (formulaPrecedents (buildDependencyGraph model))

noncomputable def mentionChain (model : SheetModel) : Text → List Text :=
  KahnOrder.chain (· < ·) (formulaPrecedents (buildDependencyGraph model))

/-- The condition on the cells that a formula refers to and does not mention. -/
def CoveredInChains (model : SheetModel) : Prop :=
  ∀ d p, IsFormulaCell model d → IsFormulaCell model p → RefersToOther model d p →
    p ∉ formulaPrecedents (buildDependencyGraph model) d → IsGrounded model d →
    IsGrounded model p ∧ List.Shortlex (· < ·) (mentionChain model p) (mentionChain model d)

theorem HasPrecedents.isOrdered (has : HasPrecedents model) :
    IsOrdered (buildDependencyGraph model) model.formulaOrder model.circularGroups := by
  have ordered := isOrdered_topologicalFormulaOrder (nodup_precedentsOf has)
  rw [← has.order] at ordered
  exact ordered

theorem inDependencyOrder_iff_covered (has : HasPrecedents model)
    (readings : HasReadings model) : InDependencyOrder model ↔ CoveredInChains model := by
  have isOrdered := has.isOrdered
  have placed : ∀ d, d ∈ model.formulaOrder ↔ IsFormulaCell model d ∧ IsGrounded model d :=
    fun d => (isOrdered.grounded d).trans (and_congr_left' mem_keys_buildDependencyGraph)
  constructor
  · intro inOrder d p isCell isOther refers _ grounded
    have inPlace := (placed d).2 ⟨isCell, grounded⟩
    have before := inOrder.ordered d inPlace p isOther refers
    have first : p ∈ model.formulaOrder := before.subset mem_cons_self
    exact ⟨((placed p).1 first).2, (isOrdered.before_iff p first d inPlace refers.2).1 before⟩
  · intro covered
    refine ⟨isOrdered.distinct, ?_, ?_, ?_⟩
    · exact fun addr => (isOrdered.members addr).trans mem_keys_buildDependencyGraph
    · intro d inPlace p isOther refers
      obtain ⟨isCell, grounded⟩ := (placed d).1 inPlace
      by_cases mentioned : p ∈ formulaPrecedents (buildDependencyGraph model) d
      · have first := (placed p).2 ⟨isOther, grounded.inv mentioned⟩
        exact (isOrdered.before_iff p first d inPlace refers.2).2
          (isOrdered.precedent d inPlace p mentioned)
      · obtain ⟨isGrounded, less⟩ := covered d p isCell isOther refers mentioned grounded
        exact (isOrdered.before_iff p ((placed p).2 ⟨isOther, isGrounded⟩) d inPlace refers.2).2
          less
    · intro group isGroup d inGroup
      have inGroups : d ∈ model.circularGroups.flatten :=
        mem_flatten.2 ⟨group, isGroup, inGroup⟩
      have isNode := (isOrdered.members d).1 (mem_append_right _ inGroups)
      have notGrounded : ¬ IsGrounded model d := by
        intro grounded
        have inPlace := (isOrdered.grounded d).2 ⟨isNode, grounded⟩
        exact (nodup_append.1 isOrdered.distinct).2.2 d inPlace d inGroups rfl
      obtain ⟨turn, reaches, cycle⟩ := KahnOrder.exists_cycle
        (fun node _ p before => (mem_formulaPrecedents.1 before).2) isNode notGrounded
      have mono : ∀ a b, b ∈ formulaPrecedents (buildDependencyGraph model) a →
          RefersToOther model a b := fun a b => refersToOther_of_mem has readings
      exact ⟨turn, Relation.ReflTransGen.mono mono _ _ reaches,
        Relation.TransGen.mono mono _ _ cycle⟩

/-- **Dependency order.** Formulas come behind what they refer to exactly if that
is so, by the chains of mentions, for the cells inside their ranges. -/
theorem inDependencyOrder_iff {width startCol startRow : ℕ} {sheetName : Text}
    {dataArray : List (List (Option CellValue))} {formulaArray : List (List Text)}
    (range : IsRange width dataArray formulaArray)
    (ingested : ingestFromArrays sheetName startCol startRow dataArray formulaArray = .ok model)
    (readings : HasReadings model) : InDependencyOrder model ↔ CoveredInChains model :=
  inDependencyOrder_iff_covered (hasPrecedents_ingested range ingested) readings

theorem reads_reference : Reads "=B1".toList [.op '=', .cell ⟨false, false, (1, 0)⟩] := by
  refine ⟨by decide, ?_, isChain_cons_cons.2 ⟨trivial, isChain_singleton _⟩⟩
  simp [Lexeme.IsWellFormed, isOperator]

theorem reads_number : Reads "=2".toList [.op '=', .word "2".toList] := by
  refine ⟨by decide, ?_, isChain_cons_cons.2 ⟨trivial, isChain_singleton _⟩⟩
  simp [Lexeme.IsWellFormed, isOperator, isNameChar]

/-- The theorem for two formulas of which the first mentions the second. -/
theorem inDependencyOrder_iff_of_mention :
    ∃ model, ingestFromArrays "Sheet1".toList 0 0 [[some (.text "x".toList), none]]
        [["=B1".toList, "=2".toList]] = .ok model ∧
      (InDependencyOrder model ↔ CoveredInChains model) := by
  have range : IsRange 2 [[some (.text "x".toList), none]] [["=B1".toList, "=2".toList]] :=
    ⟨cons_ne_nil _ _, by decide, rfl, by simp, by simp⟩
  refine ⟨_, ingestFromArrays_eq range _, ?_⟩
  apply inDependencyOrder_iff range (ingestFromArrays_eq range _)
  intro addr record formula found _ hasFormula
  rw [(attachGraphToModel_frame _).1] at found
  have texts : ∀ entry ∈ (ingestedCells 0 0 [[some (.text "x".toList), none]]
      [["=B1".toList, "=2".toList]]).entries,
      entry.2.formula = some "=B1".toList ∨ entry.2.formula = some "=2".toList := by
    decide +kernel
  rcases texts _ (PyDict.get?_eq_some_iff.1 found) with isFormula | isFormula
  · obtain rfl := Option.some.inj (hasFormula.symm.trans isFormula)
    exact ⟨_, reads_reference⟩
  · obtain rfl := Option.some.inj (hasFormula.symm.trans isFormula)
    exact ⟨_, reads_number⟩

theorem reads_sum : Reads "=SUM(B1:B3)".toList [.op '=', .word "SUM".toList, .op '(',
      .range ⟨false, false, (1, 0)⟩ ⟨false, false, (1, 2)⟩, .op ')'] := by
  refine ⟨by decide, ?_, ?_⟩
  · simp [Lexeme.IsWellFormed, isOperator, isNameChar, Apart]
    decide
  · simp [MayFollow]

/-- The formula in the middle of a range comes behind the formula over it. -/
theorem sum_before_inner_formula : ∃ model, ingestFromArrays "Sheet1".toList 0 0
        [[none, some (.text "a".toList)], [none, none], [none, some (.text "b".toList)]]
        [["=SUM(B1:B3)".toList, "a".toList], [[], "=2".toList], [[], "b".toList]] = .ok model ∧
      model.formulaOrder = ["A1".toList, "B2".toList] ∧
      RefersToOther model "A1".toList "B2".toList ∧ ¬ InDependencyOrder model := by
  have range : IsRange 2
      [[none, some (.text "a".toList)], [none, none], [none, some (.text "b".toList)]]
      [["=SUM(B1:B3)".toList, "a".toList], [[], "=2".toList], [[], "b".toList]] :=
    ⟨cons_ne_nil _ _, by decide, rfl, by simp, by simp⟩
  refine ⟨_, ingestFromArrays_eq range _, ?_⟩
  generalize isModel : attachGraphToModel _ = model
  have order : model.formulaOrder = ["A1".toList, "B2".toList] := by
    rw [← isModel]
    decide +kernel
  have sum : (model.cells.get? "A1".toList).bind CellRecord.formula =
      some "=SUM(B1:B3)".toList := by
    rw [← isModel]
    decide +kernel
  have inner : (model.cells.get? "B2".toList).map (fun record => record.type.isFormulaLike) =
      some true := by
    rw [← isModel]
    decide +kernel
  obtain ⟨record, found, hasFormula⟩ := Option.bind_eq_some_iff.1 sum
  obtain ⟨target, isTarget, isFormula⟩ := Option.map_eq_some_iff.1 inner
  have refers : RefersToOther model "A1".toList "B2".toList :=
    ⟨⟨record, _, _, .range ⟨false, false, (1, 0)⟩ ⟨false, false, (1, 2)⟩, (1, 1), found,
      hasFormula, reads_sum, by decide, ⟨by decide, by decide, by decide, by decide⟩,
      by decide⟩, by decide⟩
  refine ⟨order, refers, fun inOrder => ?_⟩
  have before := inOrder.ordered "A1".toList (by rw [order]; decide) "B2".toList
    ⟨target, isTarget, isFormula⟩ refers
  rw [order] at before
  revert before
  decide

end WriterAgent.Calc.SpreadsheetImport
