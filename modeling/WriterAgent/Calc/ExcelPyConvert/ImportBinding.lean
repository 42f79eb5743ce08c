import WriterAgent.Calc.ExcelPyConvert.BindingMerge
import WriterAgent.Calc.ExcelPyConvert.DirectCalls

/-!
# A converted script reads the ranges of its workbook

The converter refuses unresolved dependencies and references that are not
placeholders.  It does not refuse a placeholder that names no dependency, and it
drops a `headers` argument that is no literal.
-/

namespace WriterAgent.Calc.ExcelPyConvert

open PyText List Option

/-- The dependency of the cell that the placeholder of a call names. -/
def namedDep (cell : ExcelPyCell) (node : AstCall) : Option Text :=
  match node.pNum.1 with
  | some p => if p < 2 then none else cell.deps[p - 2]?
  | none => none

/-- The header mode a call states: none for a value that is no literal, for a
second positional argument and for unpacked keywords. -/
def statedHeaders (lower : Text → Text) (node : AstCall) : Option HeaderMode :=
  if node.keywords.any (fun keyword => keyword.arg.isNone) then none
  else
    match node.args.drop 1, node.keywords.filter (AstKeyword.isHeaders lower) with
    | [], [] => some .omitted
    | [], [keyword] => literalHeaders keyword.value
    | _, _ => none

/-- The written binding of a call: its index is in range, its range is the one
of the dependency that the call names, and its header mode is the call's. -/
structure BoundTo (tables : StrTables) (model : ExcelWorkbookModel) (cell : ExcelPyCell)
    (dataArgs : List Text) (node : AstCall) (index : Nat) (mode : HeaderMode) : Prop where
  range : ∃ dep, namedDep cell node = some dep ∧
    (resolveDep tables model cell.sheet dep).kind ≠ .unresolved ∧
    dataArgs[index]? = some (resolveDep tables model cell.sheet dep).a1
  headers : statedHeaders tables.lower node = some mode

/-- Every direct call of the script is written as a binding of the right range,
the text between the calls is unchanged, and no range is bound twice. -/
structure BindsRightRanges (tables : StrTables) (parse : AstParse) (model : ExcelWorkbookModel)
    (cell : ExcelPyCell) (script : Text) (result : ConvertedCell) : Prop where
  calls : ∃ (index : DirectCall → Nat) (mode : DirectCall → HeaderMode),
    (∀ call ∈ directCalls parse script,
      BoundTo tables model cell result.dataArgs call.node (index call) (mode call)) ∧
    result.convertedCode = applySplices script 0 ((directCalls parse script).map fun call =>
        ⟨call.start, call.stop, xlBindingExpr (index call) (mode call)⟩) ++
      if cell.returnType = 1 then objectSuppress else []
  distinct : result.dataArgs.Nodup

/-- A placeholder of a call names a dependency, and what the call says about
headers is a literal. -/
structure Importable (lower : Text → Text) (cell : ExcelPyCell) (node : AstCall) : Prop where
  inRange : ∀ p, node.pNum.1 = some p → 2 ≤ p ∧ p < cell.deps.length + 2
  literal : (statedHeaders lower node).isSome

variable {node : AstCall} {lower : Text → Text} {result : ConvertedCell}
  {keywords : List AstKeyword} {mode : HeaderMode}

theorem headerModeFromKeywords_of_none (none : keywords.filter (AstKeyword.isHeaders lower) = []) :
    headerModeFromKeywords lower keywords = .omitted := by
  induction keywords with
  | nil => rfl
  | cons keyword rest ih =>
    rw [filter_cons] at none
    split at none
    · simp at none
    · rename_i other
      rw [headerModeFromKeywords, if_neg other]
      exact ih none

theorem headerModeFromKeywords_of_singleton {keyword : AstKeyword}
    (single : keywords.filter (AstKeyword.isHeaders lower) = [keyword])
    (literal : literalHeaders keyword.value = some mode) :
    headerModeFromKeywords lower keywords = mode := by
  induction keywords with
  | nil => simp at single
  | cons first rest ih =>
    rw [filter_cons] at single
    split at single
    · rename_i here
      obtain ⟨rfl, _⟩ : first = keyword ∧ _ := by simpa using single
      rw [headerModeFromKeywords, if_pos here, literal]
      rfl
    · rename_i other
      rw [headerModeFromKeywords, if_neg other]
      exact ih single

theorem headerModeFromKeywords_of_stated (stated : statedHeaders lower node = some mode) :
    headerModeFromKeywords lower node.keywords = mode := by
  unfold statedHeaders at stated
  split at stated
  · simp at stated
  · split at stated
    · rename_i none
      rw [headerModeFromKeywords_of_none none]
      simpa using stated
    · next single => exact headerModeFromKeywords_of_singleton single stated
    · simp at stated

def depIndex (node : AstCall) : Nat := node.pNum.1.getD 0 - 2

def mergedIndex (indexMap : PyDict Nat Nat) (node : AstCall) : Nat :=
  (indexMap.get? (depIndex node)).getD (depIndex node)

theorem namedDep_eq_some_iff {cell : ExcelPyCell} : (∃ dep, namedDep cell node = some dep) ↔
      ∃ p, node.pNum.1 = some p ∧ 2 ≤ p ∧ p < cell.deps.length + 2 := by
  unfold namedDep
  cases number : node.pNum.1 with
  | none => simp
  | some p =>
    by_cases second : p < 2
    · simp only [second, if_true, reduceCtorEq, exists_false,
        some.injEq, exists_eq_left', false_iff]
      omega
    · simp only [second, if_false, List.getElem?_eq_some_iff, some.injEq, exists_eq_left']
      constructor
      · rintro ⟨dep, inside, _⟩
        omega
      · rintro ⟨_, inside⟩
        exact ⟨cell.deps.get ⟨p - 2, by omega⟩, by omega, rfl⟩

theorem callSplice_of_named {tables : StrTables} {src : Text}
    {indexMap : PyDict Nat Nat} {cell : ExcelPyCell} {call : DirectCall}
    {dep : Text} (named : namedDep cell call.node = some dep) :
    cell.deps[depIndex call.node]? = some dep ∧
      callSplice tables.lower src indexMap call = some ⟨call.start, call.stop,
        xlBindingExpr (mergedIndex indexMap call.node)
          (headerModeFromKeywords tables.lower call.node.keywords)⟩ := by
  unfold namedDep at named
  cases number : call.node.pNum.1 with
  | none => simp [number] at named
  | some p =>
    simp only [number] at named
    split at named
    · simp at named
    · rename_i second
      have own : depIndex call.node = p - 2 := by rw [depIndex, number, getD_some]
      have index : (placeholderToDataIndex p).toNat = p - 2 := by
        unfold placeholderToDataIndex
        omega
      have notBefore : ¬ placeholderToDataIndex p < 0 := by
        unfold placeholderToDataIndex
        omega
      refine ⟨own ▸ named, ?_⟩
      unfold callSplice callReplacement DirectCall.toXlCall mergedIndex
      simp only [number, notBefore, index, own, if_false, map_some]

theorem issues_scanCall (numDeps : Nat) (scan : CallScan) (call : XlCall) :
    scan.issues ⊆ (scanCall numDeps scan call).issues := by
  unfold scanCall
  dsimp only
  repeat' split
  all_goals exact fun _ member => by simp [member]

theorem issues_foldl_scanCall (numDeps : Nat) (scan : CallScan) (calls : List XlCall) :
    scan.issues ⊆ (calls.foldl (scanCall numDeps) scan).issues := by
  induction calls generalizing scan with
  | nil => exact List.Subset.refl _
  | cons call rest ih => exact List.Subset.trans (issues_scanCall numDeps scan call) (ih _)

theorem dynamicIssue_mem {numDeps : Nat} {scan : CallScan} {calls : List XlCall} {call : XlCall}
    (member : call ∈ calls) (number : call.pNum = none) (dynamic : call.dynamic = true) :
    dynamicIssue ∈ (calls.foldl (scanCall numDeps) scan).issues := by
  induction calls generalizing scan with
  | nil => simp at member
  | cons first rest ih =>
    rcases mem_cons.mp member with rfl | later
    · have reported : dynamicIssue ∈ (scanCall numDeps scan call).issues := by
        simp [scanCall, number, dynamic]
      exact issues_foldl_scanCall numDeps _ rest reported
    · exact ih later

theorem pNumFromArg_dynamic {value : AstValue}
    (number : (pNumFromArg value).1 = none) : (pNumFromArg value).2.2 = true := by
  cases value with
  | name id =>
    unfold pNumFromArg at number ⊢
    cases found : placeholderNumber '_' id with
    | none => simp only [found]
    | some p => simp [found] at number
  | text value =>
    unfold pNumFromArg at number ⊢
    cases found : placeholderNumber '%' value with
    | none => simp only [found]
    | some p => simp [found] at number
  | boolean | integer | joinedStr | binOp | other => rfl

theorem dynamic_of_pNum (number : node.pNum.1 = none) : node.pNum.2.2 = true := by
  unfold AstCall.pNum at number ⊢
  cases args : node.args with
  | nil => rfl
  | cons arg rest =>
    simp only [args] at number
    exact pNumFromArg_dynamic number

section

variable {tables : StrTables} {parse : AstParse} {model : ExcelWorkbookModel}
variable {cell : ExcelPyCell} {script : Text}

def cellBindings (tables : StrTables) (parse : AstParse)
    (model : ExcelWorkbookModel) (cell : ExcelPyCell) (script : Text) : Bindings :=
  normalizeBindings tables.upper (resolveDeps tables model cell.sheet cell.deps)
    (rewriteExcelCode tables.lower parse script cell.deps.length .empty).headerModes

/-- What a conversion that is not refused has written. -/
structure Converted (tables : StrTables) (parse : AstParse) (model : ExcelWorkbookModel)
    (cell : ExcelPyCell) (script : Text) (result : ConvertedCell) : Prop where
  resolved : (cellBindings tables parse model cell script).indexMap.entries.length =
    cell.deps.length
  dataArgs : result.dataArgs = (cellBindings tables parse model cell script).dataArgs
  excelDeps : result.excelDeps = (cellBindings tables parse model cell script).excelDeps
  code : result.convertedCode = (rewriteExcelCode tables.lower parse script cell.deps.length
      (cellBindings tables parse model cell script).indexMap).newCode ++
    if cell.returnType = 1 then objectSuppress else []
  static : (rewriteExcelCode tables.lower parse script cell.deps.length
    .empty).issues.any (hasText dynamicMark) = false

theorem converted_convertCellToDag {prior : List ExcelPyCell}
    (named : cellScript model cell = some script)
    (converted : (convertCellToDag tables parse model cell prior false).converted = true) :
    Converted tables parse model cell script
      (convertCellToDag tables parse model cell prior false) := by
  unfold convertCellToDag at converted ⊢
  rw [named] at converted ⊢
  dsimp only at converted ⊢
  split at converted
  · simp at converted
  · rename_i accepted
    rw [if_neg accepted]
    simp only [Bool.not_false, Bool.and_true, Bool.or_eq_true, not_or,
      decide_eq_true_eq, ne_eq, not_not, Bool.not_eq_true] at accepted
    obtain ⟨⟨resolved, static, _⟩, _⟩ := accepted
    refine ⟨resolved, rfl, rfl, ?_, static⟩
    have whole : ¬ (normalizeBindings tables.upper (resolveDeps tables model cell.sheet cell.deps)
        (rewriteExcelCode tables.lower parse script cell.deps.length
          .empty).headerModes).indexMap.entries.length ≠ cell.deps.length :=
      not_not.mpr resolved
    dsimp only [cellBindings]
    split
    · rfl
    · rw [append_nil]

theorem Converted.pNum_isSome (accepted : Converted tables parse model cell script result)
    (parses : ParsesExactly parse script) {call : DirectCall}
    (member : call ∈ directCalls parse script) : call.node.pNum.1 ≠ none := by
  intro number
  have listed : call.toXlCall tables.lower script ∈ (findXlCalls tables.lower parse script).1 := by
    rw [findXlCalls_fst tables.lower parses]
    exact mem_map_of_mem member
  have reported := @dynamicIssue_mem cell.deps.length
    { issues := (findXlCalls tables.lower parse script).2 } _ _ listed number
    (dynamic_of_pNum number)
  have marked : hasText dynamicMark dynamicIssue = true := by decide +kernel
  have found : (rewriteExcelCode tables.lower parse script cell.deps.length
      .empty).issues.any (hasText dynamicMark) = true :=
    any_eq_true.mpr ⟨dynamicIssue, reported, marked⟩
  rw [accepted.static] at found
  simp at found

theorem Converted.bound (accepted : Converted tables parse model cell script result)
    {i : Nat} {dep : Text} (place : cell.deps[i]? = some dep) :
    (resolveDep tables model cell.sheet dep).kind ≠ .unresolved ∧
      ∃ k, (cellBindings tables parse model cell script).indexMap.get? i = some k ∧
        result.dataArgs[k]? = some (resolveDep tables model cell.sheet dep).a1 := by
  have ok : BindingsOk (resolveDeps tables model cell.sheet cell.deps)
      (cellBindings tables parse model cell script) :=
    bindingsOk_normalizeBindings _
  have length : (resolveDeps tables model cell.sheet cell.deps).length =
      cell.deps.length := by
    rw [resolveDeps, length_map]
  have resolved : (resolveDeps tables model cell.sheet cell.deps)[i]? =
      some (resolveDep tables model cell.sheet dep) := by
    rw [resolveDeps, List.getElem?_map, place, map_some]
  rw [accepted.dataArgs]
  exact ok.complete (length ▸ accepted.resolved) resolved

theorem BindsRightRanges.importable
    (binds : BindsRightRanges tables parse model cell script result) :
    ∀ call ∈ directCalls parse script, Importable tables.lower cell call.node := by
  obtain ⟨⟨index, mode, bound, _⟩, _⟩ := binds
  intro call member
  have here := bound call member
  obtain ⟨dep, found, _, _⟩ := here.range
  obtain ⟨p, number, inRange⟩ := namedDep_eq_some_iff.mp ⟨dep, found⟩
  refine ⟨?_, by rw [here.headers]; rfl⟩
  intro q same
  rw [number, some.injEq] at same
  exact same ▸ inRange

/-- A converted cell reads the ranges of its workbook if and only if every
direct call of its script names one of the cell's dependencies and states its
headers by a literal. -/
theorem bindsRightRanges_iff {prior : List ExcelPyCell}
    (named : cellScript model cell = some script) (parses : ParsesExactly parse script)
    (converted : (convertCellToDag tables parse model cell prior false).converted = true) :
    BindsRightRanges tables parse model cell script
        (convertCellToDag tables parse model cell prior false) ↔
      ∀ call ∈ directCalls parse script, Importable tables.lower cell call.node := by
  have accepted := converted_convertCellToDag named converted
  constructor
  · exact BindsRightRanges.importable
  · intro importable
    have asked : ∀ call ∈ directCalls parse script, ∃ dep, namedDep cell call.node = some dep := by
      intro call member
      obtain ⟨p, number⟩ := Option.ne_none_iff_exists'.mp (accepted.pNum_isSome parses member)
      exact namedDep_eq_some_iff.mpr ⟨p, number, (importable call member).inRange p number⟩
    refine ⟨⟨fun call => mergedIndex
        (cellBindings tables parse model cell script).indexMap call.node,
      fun call => headerModeFromKeywords tables.lower call.node.keywords,
      ?_, ?_⟩, ?_⟩
    · intro call member
      obtain ⟨dep, found⟩ := asked call member
      obtain ⟨mode, stated⟩ := isSome_iff_exists.mp (importable call member).literal
      obtain ⟨place, _⟩ := @callSplice_of_named tables script .empty _ _ _ found
      obtain ⟨kind, k, mapped, range⟩ := accepted.bound place
      have index : mergedIndex
          (cellBindings tables parse model cell script).indexMap call.node = k := by
        rw [mergedIndex, mapped, getD_some]
      refine ⟨⟨dep, found, kind, ?_⟩, ?_⟩
      · dsimp only
        rw [index]
        exact range
      · dsimp only
        rw [headerModeFromKeywords_of_stated stated]
        exact stated
    · rw [accepted.code, rewriteExcelCode_newCode tables.lower _ _ parses]
      congr 2
      rw [← filterMap_eq_map]
      apply filterMap_congr
      intro call member
      obtain ⟨dep, found⟩ := asked call member
      exact (callSplice_of_named found).2
    · rw [accepted.dataArgs]
      have ok : BindingsOk (resolveDeps tables model cell.sheet cell.deps)
          (cellBindings tables parse model cell script) :=
        bindingsOk_normalizeBindings _
      exact ok.distinct

end

def asciiTables : StrTables where
  isAlnum c := isAsciiLetter c || isAsciiDigit c
  isAlpha := isAsciiLetter
  isDigit := isAsciiDigit
  upper s := s.map Char.toUpper
  lower s := s.map Char.toLower
  repr s := '\'' :: s ++ ['\'']

def parseKnown (known : List (Text × List AstNode)) : AstParse := fun text =>
  match known.lookup text with
  | some nodes => .ok nodes
  | none => .error ⟨"invalid syntax".toList, some 1, some 1⟩

/-- The call `xl(_Pn_)` at the start of the first line. -/
def placeholderCall (name : Text) (stop : Nat) : AstCall :=
  { func := .name xlName, args := [.name name], keywords := [],
    place := ⟨some 1, 0, some 1, some stop⟩ }

theorem parsesExactly_of_single {parse : AstParse} {src : Text} {nodes : List AstNode}
    {start stop : Nat} (parsed : parse (normalizeExcelPlaceholders src) = .ok nodes)
    (single : directNodes nodes = [node]) (span : node.span src = some (start, stop))
    (call : IsXlCallText (slice src start stop)) : ParsesExactly parse src := by
  intro other same
  rw [parsed] at same
  cases same
  rw [single]
  refine ⟨?_, pairwise_singleton _ _⟩
  intro found member
  rw [mem_singleton] at member
  subst member
  exact ⟨start, stop, span, call⟩

def secondDepParse : AstParse :=
  parseKnown [("xl(_P3_)".toList, [.call (placeholderCall "_P3_".toList 8)])]

def secondDepModel : ExcelWorkbookModel := { scripts := ["xl(%P3%)".toList] }

def secondDepCell : ExcelPyCell :=
  { sheet := "S".toList, cell := "D1".toList, scriptIndex := 0, returnType := 0,
    deps := ["A1".toList, "B1:C9".toList] }

theorem bindsRightRanges_iff_secondDep :
    BindsRightRanges asciiTables secondDepParse secondDepModel secondDepCell "xl(%P3%)".toList
        (convertCellToDag asciiTables secondDepParse secondDepModel secondDepCell [] false) ↔
      ∀ call ∈ directCalls secondDepParse "xl(%P3%)".toList,
        Importable asciiTables.lower secondDepCell call.node :=
  bindsRightRanges_iff (by decide +kernel) (parsesExactly_of_single (by rfl) (by rfl)
      (show _ = some (0, 8) by decide +kernel) ⟨by decide, by decide⟩)
    (by decide +kernel)

/-- A placeholder behind the dependencies is converted. -/
theorem not_bindsRightRanges_missingDep :
    ¬ ∀ (tables : StrTables) (parse : AstParse) (model : ExcelWorkbookModel)
      (cell : ExcelPyCell) (script : Text) (prior : List ExcelPyCell),
      cellScript model cell = some script → ParsesExactly parse script →
      (convertCellToDag tables parse model cell prior false).converted = true →
      BindsRightRanges tables parse model cell script
        (convertCellToDag tables parse model cell prior false) := by
  intro claimed
  have binds := claimed asciiTables
    (parseKnown [("xl(_P9_)".toList, [.call (placeholderCall "_P9_".toList 8)])])
    { scripts := ["xl(%P9%)".toList] }
    { sheet := "S".toList, cell := "D1".toList, scriptIndex := 0, returnType := 0,
      deps := ["A1".toList] } "xl(%P9%)".toList []
    (by decide +kernel)
    (parsesExactly_of_single (by rfl) (by rfl)
      (show _ = some (0, 8) by decide +kernel) ⟨by decide, by decide⟩)
    (by decide +kernel)
  have importable := binds.importable ⟨0, 8, placeholderCall "_P9_".toList 8⟩ (by decide +kernel)
  have inRange := importable.inRange 9 (by decide +kernel)
  exact absurd inRange.2 (by decide)

end WriterAgent.Calc.ExcelPyConvert
