import Mathlib.Data.Char
import Mathlib.Data.List.Lex
import WriterAgent.Foundations.Dict
import WriterAgent.Foundations.FloatRead
import WriterAgent.Foundations.KahnOrder

/-!
# The ingested sheet

A cell of the used range with its classification, and the sheet with the
dependency order of its formulas.
-/

namespace WriterAgent.Calc.SpreadsheetImport

open PyText

/-- What a cell of a data array holds: a float or a text. -/
inductive CellValue where
  | number (x : {x : Binary64 // x.IsDouble})
  | text (s : Text)
deriving DecidableEq

inductive CellType where
  | empty
  | constant
  | formula
  | pyFormula
  | prompt
  | arrayFormula
  | error
deriving DecidableEq, Repr

/-- `FORMULA_LIKE_TYPES`. -/
def CellType.isFormulaLike : CellType → Bool
  | .formula => true
  | .pyFormula => true
  | .arrayFormula => true
  | .error => true
  | _ => false

structure CellRecord where
  address : Text
  type : CellType
  value : Option CellValue
  formula : Option Text
  numberFormat : Option ℤ
  precedents : List Text
  errorCode : Option Text
deriving DecidableEq

structure SheetModel where
  sheetName : Text
  usedRange : Text
  cells : PyDict Text CellRecord
  formulaOrder : List Text
  circularGroups : List (List Text)

end WriterAgent.Calc.SpreadsheetImport

/-!
## The formula dependency graph

The references of a formula, the graph of the formula cells, its topological
order and the groups of the cells that have no place in it.
-/

namespace WriterAgent.Calc.SpreadsheetImport

open PyText

/-- What stands behind `\$?`. -/
def dropDollar (s : Text) : Text := if s.head? = some '$' then s.drop 1 else s

/-- `CELL_REF_PATTERN` at a place: the length of the match, its letters and its
digits. -/
def matchCellRef (s : Text) : Option (ℕ × Text × Text) :=
  let col := (dropDollar s).takeWhile isAsciiUpper
  let tail := dropDollar ((dropDollar s).dropWhile isAsciiUpper)
  let row := tail.takeWhile isDecimal
  if col = [] ∨ row = [] then none
  else some (s.length - (tail.dropWhile isDecimal).length, col, row)

/-- `findall`; the first argument counts the characters still to be skipped. -/
def findCellRefs : ℕ → Text → List (Text × Text)
  | _, [] => []
  | skip + 1, _ :: rest => findCellRefs skip rest
  | 0, c :: rest =>
    match matchCellRef (c :: rest) with
    | some (length, ref) => ref :: findCellRefs (length - 1) rest
    | none => findCellRefs 0 rest

def extractCellRefs (formula : Text) : List Text :=
  (findCellRefs 0 (upper formula)).map fun (col, row) => col ++ row

def filterRefsToScope (refs : List Text) (scope : List Text) : List Text :=
  refs.foldl (fun ordered ref =>
      if upper ref ∈ scope ∧ upper ref ∉ ordered then ordered ++ [upper ref] else ordered)
    []

/-- `sorted` on texts: by code points. -/
def sortTexts (texts : List Text) : List Text := texts.insertionSort (· ≤ ·)

def formulaLikeAddresses (cells : PyDict Text CellRecord) : List Text :=
  sortTexts ((cells.entries.filter fun entry => entry.2.type.isFormulaLike).map Prod.fst)

/-- The addresses a cell depends on: its precedents that hold something. -/
def dependencies (cells : PyDict Text CellRecord) (cell : CellRecord) : List Text :=
  cell.precedents.filter fun p => (cells.get? p).any fun record => record.type ≠ .empty

theorem keys_withRecords {β : Type} (cells : PyDict Text CellRecord)
    (f : Text → CellRecord → β) (texts : List Text) :
    (texts.filterMap fun addr => (cells.get? addr).map fun record => (addr, f addr record)).map
      Prod.fst = texts.filter fun addr => (cells.get? addr).isSome := by
  induction texts with
  | nil => rfl
  | cons addr rest induction =>
    cases found : cells.get? addr with
    | none | some record => simpa [found] using induction

def buildDependencyGraph (model : SheetModel) : PyDict Text (List Text) :=
  PyDict.ofPairs ((formulaLikeAddresses model.cells).filterMap fun addr =>
    (model.cells.get? addr).map fun cell => (addr, dependencies model.cells cell))

section Order

variable (graph : PyDict Text (List Text))

def precedentsOf (node : Text) : List Text := (graph.get? node).getD []

/-- The cells that depend on a cell, as the set of successors is gone through:
each once and in order. -/
def successorsOf (node : Text) : List Text :=
  sortTexts (graph.keys.filter fun dependent => node ∈ precedentsOf graph dependent)

/-- The mentions of formula cells in a cell, counted as they are met. -/
def inDegree (node : Text) : ℤ :=
  ((precedentsOf graph node).countP fun prec => prec ∈ graph.keys)

def adjacentTo (remaining : List Text) (node : Text) : List Text :=
  remaining.filter fun other =>
    other ∈ precedentsOf graph node ∨ node ∈ precedentsOf graph other

theorem length_unfound_lt {unvisited found : List Text} {cur : Text}
    (member : cur ∈ unvisited) (fresh : cur ∉ found) :
    (unvisited.filter (· ∉ found ++ [cur])).length < (unvisited.filter (· ∉ found)).length := by
  have same : unvisited.filter (· ∉ found ++ [cur]) =
      (unvisited.filter (· ∉ found)).filter (· ≠ cur) := by
    rw [List.filter_filter]
    apply List.filter_congr
    intro other _
    simp [not_or, and_comm]
  rw [same]
  exact List.length_filter_lt_length_iff_exists.2
    ⟨cur, List.mem_filter.2 ⟨member, by simpa using fresh⟩, by simp⟩

/-- What the stack finds: the cells reached from those on it, which are all
unvisited. -/
def component (adjacent : Text → List Text) (unvisited : List Text)
    (found stack : List Text) (pending : ∀ cur ∈ stack, cur ∈ unvisited) : List Text :=
  match stack with
  | [] => found
  | cur :: rest =>
    if cur ∈ found then
      component adjacent unvisited found rest
        (fun other member => pending other (List.mem_cons_of_mem _ member))
    else
      component adjacent unvisited (found ++ [cur])
        ((adjacent cur).filter (fun nb => nb ∈ unvisited ∧ nb ∉ found ++ [cur]) ++ rest)
        (fun other member => (List.mem_append.1 member).elim
          (fun pushed => (of_decide_eq_true (List.mem_filter.1 pushed).2).1)
          (fun old => pending other (List.mem_cons_of_mem _ old)))
termination_by ((unvisited.filter (· ∉ found)).length, stack.length)
decreasing_by
  · exact Prod.Lex.right _ (Nat.lt_succ_self _)
  · rename_i fresh
    exact Prod.Lex.left _ _ (length_unfound_lt (pending cur List.mem_cons_self) fresh)

theorem mem_component {adjacent : Text → List Text} {unvisited found stack : List Text}
    {pending : ∀ cur ∈ stack, cur ∈ unvisited} :
    found ⊆ component adjacent unvisited found stack pending ∧
      stack ⊆ component adjacent unvisited found stack pending ∧
      ∀ node ∈ component adjacent unvisited found stack pending,
        node ∈ found ∨ node ∈ unvisited := by
  fun_induction component adjacent unvisited found stack pending with
  | case1 found pending => exact ⟨List.Subset.refl _, List.nil_subset _, fun _ => Or.inl⟩
  | case2 found cur rest pending old _ induction =>
    obtain ⟨before, stacked, known⟩ := induction
    exact ⟨before, List.cons_subset.2 ⟨before old, stacked⟩, known⟩
  | case3 found cur rest pending fresh _ induction =>
    obtain ⟨before, stacked, known⟩ := induction
    refine ⟨fun node member => before (List.mem_append_left _ member), ?_, ?_⟩
    · refine List.cons_subset.2 ⟨before (by simp), fun node member => ?_⟩
      exact stacked (List.mem_append_right _ member)
    · intro node member
      rcases known node member with old | new
      · rcases List.mem_append.1 old with older | here
        · exact Or.inl older
        · obtain rfl := List.mem_singleton.1 here
          exact Or.inr (pending _ List.mem_cons_self)
      · exact Or.inr new

theorem mem_sortTexts {texts : List Text} {text : Text} : text ∈ sortTexts texts ↔ text ∈ texts :=
  List.mem_insertionSort (· ≤ ·)

/-- The while loop of `_extract_cycle_groups`. -/
def cycleGroups (adjacent : Text → List Text) (unvisited : List Text) : List (List Text) :=
  match first : sortTexts unvisited with
  | [] => []
  | start :: _ =>
    have member : start ∈ unvisited := by
      rw [← mem_sortTexts, first]
      exact List.mem_cons_self
    let found := component adjacent unvisited [] [start]
      (fun cur stacked => List.mem_singleton.1 stacked ▸ member)
    sortTexts found :: cycleGroups adjacent (unvisited.filter (· ∉ found))
termination_by unvisited.length
decreasing_by
  have inside : start ∈ found := mem_component.2.1 List.mem_cons_self
  rw [@List.unattach_filter _ _ _ _ (fun x => decide (x ∉ found)) (fun _ _ => rfl),
    List.unattach_attach]
  refine List.length_filter_lt_length_iff_exists.2 ⟨start, member, ?_⟩
  rw [decide_eq_true_eq, not_not]
  exact inside

def topologicalFormulaOrder : List Text × List (List Text) :=
  let nodes := sortTexts graph.keys
  let ordered := KahnOrder.order nodes (successorsOf graph) (inDegree graph)
  if ordered.length = nodes.length then (ordered, [])
  else
    let remaining := nodes.filter (· ∉ ordered)
    (ordered, cycleGroups (adjacentTo graph remaining) remaining)

end Order

def attachGraphToModel (model : SheetModel) : SheetModel :=
  let (order, cycles) := topologicalFormulaOrder (buildDependencyGraph model)
  { model with formulaOrder := order, circularGroups := cycles }

theorem attachGraphToModel_frame (model : SheetModel) :
    (attachGraphToModel model).cells = model.cells ∧
      (attachGraphToModel model).usedRange = model.usedRange := by
  rw [attachGraphToModel]
  exact ⟨rfl, rfl⟩

theorem attachGraphToModel_order (model : SheetModel) :
    ((attachGraphToModel model).formulaOrder, (attachGraphToModel model).circularGroups) =
      topologicalFormulaOrder (buildDependencyGraph (attachGraphToModel model)) := by
  have sameGraph : buildDependencyGraph (attachGraphToModel model) =
      buildDependencyGraph model := by
    rw [buildDependencyGraph, (attachGraphToModel_frame model).1, ← buildDependencyGraph]
  rw [sameGraph, attachGraphToModel]

end WriterAgent.Calc.SpreadsheetImport
