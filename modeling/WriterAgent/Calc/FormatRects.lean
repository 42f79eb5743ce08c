import Mathlib.Data.List.Dedup
import WriterAgent.Foundations.Dict
import WriterAgent.Foundations.MaximalRuns
import WriterAgent.Foundations.Text

/-!
# Rectangles of cells to format

`plugin/calc/datetime_wire.py`: each written cell has a decision, and the
cells with `("apply", key)` get a number format.  In every row the empty cells
between two equal decisions are joined to them, the cells to format are
gathered in spans, and equal spans of consecutive rows become rectangles.
-/

namespace WriterAgent.Calc

open PyText MaximalRuns List Option

/-- `None`, a word such as `"empty"`, or an action with its key. -/
inductive FormatDecision where
  | unset
  | word (text : Text)
  | tuple (action : Text) (key : Option ℤ)
  deriving DecidableEq, Repr

namespace FormatDecision

def empty : FormatDecision := .word "empty".toList

def apply (key : ℤ) : FormatDecision := .tuple "apply".toList (some key)

/-- `not in (None, "empty")` -/
def isCoerced (decision : FormatDecision) : Bool :=
  decision != .unset && decision != .empty

/-- The key of a decision `("apply", key)` with an integer. -/
def applyKey : FormatDecision → Option ℤ
  | .tuple action (some key) => if action = "apply".toList then some key else none
  | _ => none

theorem applyKey_eq_some {decision : FormatDecision} {key : ℤ} :
    decision.applyKey = some key ↔ decision = apply key := by
  cases decision with
  | unset | word => simp [applyKey, apply]
  | tuple action number =>
    cases number with
    | none | some => simp [applyKey, apply]

end FormatDecision

open FormatDecision

def resolveS25RowEmpties (row : List FormatDecision) : List FormatDecision :=
  row.mapIdx fun col decision =>
    if decision != .empty then decision
    else
      let left := ((row.take col).reverse.find? isCoerced).getD .unset
      let right := ((row.drop (col + 1)).find? isCoerced).getD .unset
      if left != .unset && left == right then left else .unset

/-- Columns and key of a span, the last column included. -/
structure ApplyRun where
  c0 : ℕ
  c1 : ℕ
  key : ℤ
  deriving DecidableEq, Repr

/-- The scan of `horizontal_apply_runs` from a column on. -/
def horizontalFrom (row : List FormatDecision) (col : ℕ) : List ApplyRun :=
  if inside : col < row.length then
    match row[col].applyKey with
    | none => horizontalFrom row (col + 1)
    | some key =>
      let runEnd := col + ((row.drop (col + 1)).takeWhile (· == apply key)).length
      ⟨col, runEnd, key⟩ :: horizontalFrom row (runEnd + 1)
  else []
termination_by row.length - col

def horizontalApplyRuns (resolvedRow : List FormatDecision) : List ApplyRun :=
  horizontalFrom resolvedRow 0

/-- Rows, columns and key of a rectangle. -/
structure ApplyRect where
  r0 : ℕ
  r1 : ℕ
  c0 : ℕ
  c1 : ℕ
  key : ℤ
  deriving DecidableEq, Repr

/-- The order in which a set of spans gives its elements. -/
structure SpanOrder where
  arrange : List ApplyRun → List ApplyRun
  perm : ∀ spans, (arrange spans).Perm spans

/-- `pending` and `rects`. -/
structure MergeRects where
  pending : PyDict ApplyRun ℕ
  rects : List ApplyRect

/-- `_close`.  Only spans that are pending are closed. -/
def closeSpan (endRow : ℕ) (state : MergeRects) (span : ApplyRun) : MergeRects :=
  match state.pending.get? span with
  | none => state
  | some r0 =>
    { pending := state.pending.pop span
      rects := state.rects ++ [⟨r0, endRow, span.c0, span.c1, span.key⟩] }

/-- One row of the loop of `merge_vertical_apply_rects`. -/
def mergeRow (order : SpanOrder) (state : MergeRects) (row : List ApplyRun × ℕ) :
    MergeRects :=
  let (runs, r) := row
  let current := order.arrange runs.dedup
  let state := (state.pending.keys.filter (· ∉ current)).foldl (closeSpan (r - 1)) state
  current.foldl (fun state span =>
      if state.pending.contains span then state
      else { state with pending := state.pending.set span r })
    state

def mergeVerticalApplyRects (order : SpanOrder) (rowRuns : List (List ApplyRun)) : List ApplyRect :=
  if rowRuns = [] then []
  else
    let state := rowRuns.zipIdx.foldl (mergeRow order) ⟨PyDict.empty, []⟩
    (state.pending.keys.foldl (closeSpan (rowRuns.length - 1)) state).rects

def coalesceTemporalApplyRects (order : SpanOrder)
    (decisions : List (List FormatDecision)) : List ApplyRect :=
  let resolvedRows := decisions.map resolveS25RowEmpties
  let rowRuns := resolvedRows.map horizontalApplyRuns
  mergeVerticalApplyRects order rowRuns

/-- The span takes in all neighbouring cells with its decision. -/
def HorizontalRun (row : List FormatDecision) (run : ApplyRun) : Prop :=
  MaximalRun (fun c => row[c]? = some (apply run.key)) run.c0 run.c1

theorem maximalRun_takeWhile {row : List FormatDecision} {col : ℕ} {key : ℤ}
    (here : row[col]? = some (apply key))
    (fresh : ∀ before, before + 1 = col → row[before]? ≠ some (apply key)) :
    HorizontalRun row
      ⟨col, col + ((row.drop (col + 1)).takeWhile (· == apply key)).length, key⟩ := by
  obtain ⟨taken, next⟩ := @getElem?_takeWhile _ (· == apply key) (row.drop (col + 1))
  refine ⟨Nat.le_add_right _ _, ?_, fresh, ?_⟩
  · intro i inside below
    dsimp only at inside below
    by_cases first : i = col
    · rw [first]
      exact here
    · obtain ⟨more, rfl⟩ := Nat.exists_eq_add_of_le (show col + 1 ≤ i by omega)
      obtain ⟨decision, found, same⟩ := taken more (by omega)
      rw [List.getElem?_drop] at found
      rw [found, eq_of_beq same]
  · intro more
    have stops := next (apply key) (by
      rw [List.getElem?_drop, ← more]
      congr 1
      dsimp only
      omega)
    simp at stops

theorem horizontalFrom_spec (row : List FormatDecision) (col : ℕ)
    (fresh : ∀ key before, before + 1 = col → row[col]? = some (apply key) →
      row[before]? ≠ some (apply key)) :
    (∀ run ∈ horizontalFrom row col, HorizontalRun row run) ∧
      ∀ c key, col ≤ c → row[c]? = some (apply key) →
        ∃ run ∈ horizontalFrom row col, run.c0 ≤ c ∧ c ≤ run.c1 := by
  induction col using horizontalFrom.induct row with
  | case1 col inside noKey induction =>
    have here : row[col]? = some row[col] := List.getElem?_eq_getElem inside
    have other : ∀ key, row[col]? ≠ some (apply key) := by
      intro key isApply
      rw [here, some.injEq] at isApply
      rw [applyKey_eq_some.2 isApply] at noKey
      cases noKey
    obtain ⟨sound, complete⟩ := induction (by
      intro key before isBefore _
      rw [Nat.succ.inj isBefore]
      exact other key)
    rw [horizontalFrom, dif_pos inside, noKey]
    refine ⟨sound, ?_⟩
    intro c key behind isApply
    have notHere : c ≠ col := by
      rintro rfl
      exact other key isApply
    exact complete c key (by omega) isApply
  | case2 col inside key isKey runEnd induction =>
    have here : row[col]? = some (apply key) := by
      rw [List.getElem?_eq_getElem inside, applyKey_eq_some.1 isKey]
    have first : HorizontalRun row ⟨col, runEnd, key⟩ :=
      maximalRun_takeWhile here (fun before isBefore => fresh key before isBefore here)
    obtain ⟨sound, complete⟩ := induction (by
      intro other before isBefore isApply same
      have last : row[runEnd]? = some (apply key) :=
        first.holds runEnd first.ordered (Nat.le_refl _)
      rw [Nat.succ.inj isBefore, last] at same
      rw [← same] at isApply
      exact first.stop isApply)
    rw [horizontalFrom, dif_pos inside, isKey]
    constructor
    · intro run member
      rcases mem_cons.1 member with rfl | later
      · exact first
      · exact sound run later
    · intro c other behind isApply
      by_cases within : c ≤ runEnd
      · exact ⟨_, mem_cons_self, behind, within⟩
      · obtain ⟨run, member, found⟩ := complete c other (by omega) isApply
        exact ⟨run, mem_cons_of_mem _ member, found⟩
  | case3 col outside =>
    rw [horizontalFrom, dif_neg outside]
    refine ⟨by simp, ?_⟩
    intro c key behind isApply
    have below := (List.getElem?_eq_some_iff.1 isApply).1
    omega

theorem mem_horizontalApplyRuns {row : List FormatDecision} {run : ApplyRun} :
    run ∈ horizontalApplyRuns row ↔ HorizontalRun row run := by
  obtain ⟨sound, complete⟩ := horizontalFrom_spec row 0 (by
    intro key before isBefore
    omega)
  constructor
  · exact sound run
  · intro isRun
    have here := isRun.holds run.c0 (Nat.le_refl _) isRun.ordered
    obtain ⟨other, member, behind, within⟩ := complete run.c0 run.key (Nat.zero_le _) here
    have otherRun := sound other member
    have sameKey : other.key = run.key := by
      have there := otherRun.holds run.c0 behind within
      rw [here, some.injEq, apply, apply, FormatDecision.tuple.injEq] at there
      exact (some.inj there.2).symm
    obtain ⟨c0, c1, key⟩ := run
    subst sameKey
    obtain ⟨rfl, rfl⟩ := otherRun.eq_of_share isRun ⟨behind, within⟩ ⟨Nat.le_refl _, isRun.ordered⟩
    exact member

variable {rowRuns : List (List ApplyRun)}

def InRow (rowRuns : List (List ApplyRun)) (span : ApplyRun) (r : ℕ) : Prop :=
  ∃ runs, rowRuns[r]? = some runs ∧ span ∈ runs

def ApplyRect.span (rect : ApplyRect) : ApplyRun := ⟨rect.c0, rect.c1, rect.key⟩

def rectOf (endRow : ℕ) (span : ApplyRun) (r0 : ℕ) : ApplyRect :=
  ⟨r0, endRow, span.c0, span.c1, span.key⟩

variable {state : MergeRects} {rows : List (List FormatDecision)}
  {span : ApplyRun} {spans : List ApplyRun}

theorem foldl_closeSpan (distinct : spans.Nodup) (endRow : ℕ) (state : MergeRects) :
    (spans.foldl (closeSpan endRow) state).rects = state.rects ++ spans.filterMap
          (fun span => (state.pending.get? span).map (rectOf endRow span)) ∧
      ∀ span, (spans.foldl (closeSpan endRow) state).pending.get? span =
        if span ∈ spans then none else state.pending.get? span := by
  induction spans generalizing state with
  | nil => simp
  | cons span rest induction =>
    obtain ⟨fresh, distinctRest⟩ := nodup_cons.1 distinct
    obtain ⟨rects, pending⟩ := induction distinctRest (closeSpan endRow state span)
    have others : ∀ other ∈ rest,
        (closeSpan endRow state span).pending.get? other = state.pending.get? other := by
      intro other member
      have differs : other ≠ span := by
        rintro rfl
        exact fresh member
      rw [closeSpan]
      split
      · rfl
      · simp [differs]
    rw [foldl_cons]
    constructor
    · rw [rects, filterMap_congr (fun other member => by rw [others other member]),
        filterMap_cons, closeSpan]
      cases found : state.pending.get? span with
      | none => rfl
      | some r0 => simp [rectOf]
    · intro other
      rw [pending]
      by_cases inRest : other ∈ rest
      · rw [if_pos inRest, if_pos (mem_cons_of_mem _ inRest)]
      · rw [if_neg inRest, closeSpan]
        by_cases same : other = span
        · subst same
          rw [if_pos mem_cons_self]
          cases found : state.pending.get? other with
          | none => exact found
          | some r0 => simp
        · rw [if_neg (by simp [same, inRest])]
          cases found : state.pending.get? span with
          | none => rfl
          | some r0 => simp [same]

theorem foldl_openSpan (spans : List ApplyRun) (r : ℕ) (state : MergeRects) :
    let opened := spans.foldl (fun state span =>
        if state.pending.contains span then state
        else { state with pending := state.pending.set span r }) state
    opened.rects = state.rects ∧ ∀ span, opened.pending.get? span =
      if span ∈ spans then some ((state.pending.get? span).getD r)
      else state.pending.get? span := by
  induction spans generalizing state with
  | nil => simp
  | cons span rest induction =>
    rw [foldl_cons]
    by_cases isPending : state.pending.contains span = true
    · obtain ⟨r0, found⟩ := PyDict.contains_iff.1 isPending
      rw [if_pos isPending]
      obtain ⟨rects, pending⟩ := induction state
      refine ⟨rects, ?_⟩
      intro other
      rw [pending]
      by_cases same : other = span
      · subst same
        simp [found]
      · simp [same]
    · have missing : state.pending.get? span = none := by simpa [PyDict.contains] using isPending
      rw [if_neg isPending]
      obtain ⟨rects, pending⟩ := induction { state with pending := state.pending.set span r }
      refine ⟨rects, ?_⟩
      intro other
      rw [pending]
      by_cases same : other = span
      · subst same
        simp [missing]
      · simp [same]

theorem mem_filterMap_rectOf {pending : PyDict ApplyRun ℕ} {endRow : ℕ} {rect : ApplyRect} :
    rect ∈ spans.filterMap (fun span => (pending.get? span).map (rectOf endRow span)) ↔
      rect.span ∈ spans ∧ pending.get? rect.span = some rect.r0 ∧ rect.r1 = endRow := by
  simp only [mem_filterMap, map_eq_some_iff]
  constructor
  · rintro ⟨span, member, r0, found, rfl⟩
    exact ⟨member, found, rfl⟩
  · rintro ⟨member, found, atEnd⟩
    obtain ⟨r0, r1, c0, c1, key⟩ := rect
    subst atEnd
    exact ⟨_, member, r0, found, rfl⟩

theorem nodup_filterMap_rectOf {spans : List ApplyRun} {pending : PyDict ApplyRun ℕ}
    {endRow : ℕ} (distinct : spans.Nodup) :
    (spans.filterMap (fun span => (pending.get? span).map (rectOf endRow span))).Nodup := by
  refine distinct.filterMap ?_
  intro span other rect inSpan inOther
  obtain ⟨r0, _, rfl⟩ := map_eq_some_iff.1 inSpan
  obtain ⟨r0', _, same⟩ := map_eq_some_iff.1 inOther
  simp only [rectOf, ApplyRect.mk.injEq] at same
  obtain ⟨c0', c1', key'⟩ := other
  simp_all

theorem mergeRow_spec (order : SpanOrder) (state : MergeRects) (runs : List ApplyRun) (r : ℕ) :
    (∃ closed, (mergeRow order state (runs, r)).rects = state.rects ++ closed ∧
      closed.Nodup ∧ ∀ rect, rect ∈ closed ↔
        state.pending.get? rect.span = some rect.r0 ∧ rect.span ∉ runs ∧ rect.r1 = r - 1) ∧
    ∀ span, (mergeRow order state (runs, r)).pending.get? span =
      if span ∈ runs then some ((state.pending.get? span).getD r) else none := by
  have current : ∀ span, span ∈ order.arrange runs.dedup ↔ span ∈ runs := fun span =>
    (order.perm _).mem_iff.trans mem_dedup
  have distinct : (state.pending.keys.filter (· ∉ order.arrange runs.dedup)).Nodup :=
    state.pending.distinct.filter _
  obtain ⟨rects, pending⟩ := foldl_closeSpan distinct (r - 1) state
  obtain ⟨sameRects, opened⟩ := foldl_openSpan (order.arrange runs.dedup) r
    ((state.pending.keys.filter (· ∉ order.arrange runs.dedup)).foldl (closeSpan (r - 1)) state)
  constructor
  · refine ⟨_, sameRects.trans rects, ?_, ?_⟩
    · exact nodup_filterMap_rectOf distinct
    · intro rect
      rw [mem_filterMap_rectOf, mem_filter, PyDict.mem_keys_iff]
      simp only [decide_eq_true_eq, current]
      constructor
      · rintro ⟨⟨_, absent⟩, found, atEnd⟩
        exact ⟨found, absent, atEnd⟩
      · rintro ⟨found, absent, atEnd⟩
        exact ⟨⟨⟨_, found⟩, absent⟩, found, atEnd⟩
  · intro span
    have closes : span ∈ state.pending.keys.filter (· ∉ order.arrange runs.dedup) ↔
        (∃ r0, state.pending.get? span = some r0) ∧ span ∉ runs := by
      rw [mem_filter, PyDict.mem_keys_iff, decide_eq_true_eq, current span]
    have after := opened span
    have before := pending span
    refine after.trans ?_
    by_cases here : span ∈ runs
    · rw [if_neg (fun absent => (closes.1 absent).2 here)] at before
      rw [if_pos ((current span).2 here), if_pos here, before]
    · rw [if_neg (here ∘ (current span).1), if_neg here, before]
      cases found : state.pending.get? span with
      | none => exact ite_self _
      | some r0 => exact if_pos (closes.2 ⟨⟨r0, found⟩, here⟩)

/-- What the rows before `r` have left: the open spans are pending, and those
that have ended are rectangles. -/
structure Merged (rowRuns : List (List ApplyRun)) (r : ℕ) (state : MergeRects) : Prop where
  pending : ∀ span r0, state.pending.get? span = some r0 ↔ OpenRun (InRow rowRuns span) r0 r
  rects : ∀ rect, rect ∈ state.rects ↔
    MaximalRun (InRow rowRuns rect.span) rect.r0 rect.r1 ∧ rect.r1 + 1 < r
  distinct : state.rects.Nodup

theorem Merged.closing {r : ℕ} (merged : Merged rowRuns r state) {closed : List ApplyRect}
    (distinct : closed.Nodup)
    (closes : ∀ rect, rect ∈ closed ↔ state.pending.get? rect.span = some rect.r0 ∧
      ¬ InRow rowRuns rect.span r ∧ rect.r1 = r - 1) :
    (∀ rect, rect ∈ state.rects ++ closed ↔
      MaximalRun (InRow rowRuns rect.span) rect.r0 rect.r1 ∧ rect.r1 + 1 < r + 1) ∧
    (state.rects ++ closed).Nodup := by
  have ends : ∀ rect, rect ∈ closed ↔
      MaximalRun (InRow rowRuns rect.span) rect.r0 rect.r1 ∧ rect.r1 + 1 = r := by
    intro rect
    rw [closes, merged.pending, maximalRun_iff_openRun]
    constructor
    · intro ⟨isOpen, absent, atEnd⟩
      have positive := isOpen.ordered
      have last : rect.r1 + 1 = r := by omega
      rw [last]
      exact ⟨⟨isOpen, absent⟩, rfl⟩
    · rintro ⟨⟨isOpen, absent⟩, rfl⟩
      exact ⟨isOpen, absent, rfl⟩
  constructor
  · intro rect
    rw [mem_append, merged.rects, ends]
    constructor
    · rintro (⟨isRun, early⟩ | ⟨isRun, last⟩)
      · exact ⟨isRun, by omega⟩
      · exact ⟨isRun, by omega⟩
    · intro ⟨isRun, early⟩
      by_cases last : rect.r1 + 1 = r
      · exact Or.inr ⟨isRun, last⟩
      · exact Or.inl ⟨isRun, by omega⟩
  · refine nodup_append.2 ⟨merged.distinct, distinct, ?_⟩
    intro rect old other new same
    have early := ((merged.rects rect).1 old).2
    have late := ((ends other).1 new).2
    rw [same] at early
    omega

theorem Merged.step (order : SpanOrder) {r : ℕ} {runs : List ApplyRun}
    (merged : Merged rowRuns r state) (here : rowRuns[r]? = some runs) :
    Merged rowRuns (r + 1) (mergeRow order state (runs, r)) := by
  have inRow : ∀ span, InRow rowRuns span r ↔ span ∈ runs := by
    intro span
    rw [InRow, here]
    simp
  obtain ⟨⟨closed, rects, distinct, closes⟩, pending⟩ := mergeRow_spec order state runs r
  have ending := merged.closing distinct (by
    intro rect
    rw [closes, inRow])
  rw [← rects] at ending
  refine ⟨?_, ending.1, ending.2⟩
  intro span r0
  rw [pending, openRun_succ_iff, inRow]
  by_cases present : span ∈ runs
  · rw [if_pos present, some.injEq, and_iff_right present]
    cases found : state.pending.get? span with
    | none =>
      have fresh : ∀ other, ¬ OpenRun (InRow rowRuns span) other r := by
        intro other isOpen
        rw [(merged.pending span other).2 isOpen] at found
        cases found
      constructor
      · intro same
        exact Or.inr ⟨same.symm, fresh⟩
      · rintro (isOpen | ⟨same, _⟩)
        · exact absurd isOpen (fresh r0)
        · exact same.symm
    | some first =>
      have isOpen := (merged.pending span first).1 found
      constructor
      · rintro rfl
        exact Or.inl isOpen
      · rintro (other | ⟨_, fresh⟩)
        · exact isOpen.eq_of_stop other
        · exact absurd isOpen (fresh first)
  · simp [present]

theorem Merged.run (order : SpanOrder) {r : ℕ} {rest : List (List ApplyRun)}
    (merged : Merged rowRuns r state) (behind : ∀ i, rowRuns[r + i]? = rest[i]?) :
    Merged rowRuns (r + rest.length) ((rest.zipIdx r).foldl (mergeRow order) state) := by
  induction rest generalizing r state with
  | nil => exact merged
  | cons runs rest induction =>
    have next := induction (merged.step order (behind 0)) (by
      intro i
      have later := behind (i + 1)
      rw [List.getElem?_cons_succ] at later
      rw [← later]
      congr 1
      omega)
    rw [length_cons, Nat.add_comm rest.length 1, ← Nat.add_assoc]
    exact next

theorem merged_rows (order : SpanOrder) (rowRuns : List (List ApplyRun)) :
    Merged rowRuns rowRuns.length (rowRuns.zipIdx.foldl (mergeRow order) ⟨PyDict.empty, []⟩) := by
  have begun : Merged rowRuns 0 ⟨PyDict.empty, []⟩ :=
    { pending := fun span r0 =>
        iff_of_false (by simp [PyDict.empty, PyDict.get?, PyDict.lookup])
          (fun isOpen => absurd isOpen.ordered (Nat.not_lt_zero r0))
      rects := fun rect => iff_of_false (not_mem_nil) (fun early => Nat.not_lt_zero _ early.2)
      distinct := nodup_nil }
  have done := begun.run order (show ∀ i, rowRuns[0 + i]? = rowRuns[i]? by simp)
  rwa [Nat.zero_add] at done

theorem mergeVerticalApplyRects_spec (order : SpanOrder) (rowRuns : List (List ApplyRun)) :
    (∀ rect, rect ∈ mergeVerticalApplyRects order rowRuns ↔
      MaximalRun (InRow rowRuns rect.span) rect.r0 rect.r1) ∧
    (mergeVerticalApplyRects order rowRuns).Nodup := by
  have bound : ∀ span r, InRow rowRuns span r → r < rowRuns.length := by
    intro span r ⟨runs, here, _⟩
    exact (List.getElem?_eq_some_iff.1 here).1
  by_cases noRows : rowRuns = []
  · subst noRows
    refine ⟨?_, nodup_nil⟩
    intro rect
    refine iff_of_false not_mem_nil ?_
    intro isRun
    exact Nat.not_lt_zero _ (bound _ _ (isRun.holds rect.r0 (Nat.le_refl _) isRun.ordered))
  · have merged := merged_rows order rowRuns
    rw [mergeVerticalApplyRects, if_neg noRows]
    generalize rowRuns.zipIdx.foldl (mergeRow order) ⟨PyDict.empty, []⟩ = state at merged
    obtain ⟨rects, _⟩ := foldl_closeSpan state.pending.distinct (rowRuns.length - 1) state
    have ending := merged.closing
      (@nodup_filterMap_rectOf _ state.pending (rowRuns.length - 1) state.pending.distinct) (by
      intro rect
      rw [mem_filterMap_rectOf]
      constructor
      · intro ⟨_, found, atEnd⟩
        exact ⟨found, fun here => absurd (bound _ _ here) (lt_irrefl _), atEnd⟩
      · intro ⟨found, _, atEnd⟩
        exact ⟨PyDict.mem_keys_iff.2 ⟨_, found⟩, found, atEnd⟩)
    rw [← rects] at ending
    refine ⟨?_, ending.2⟩
    intro rect
    refine (ending.1 rect).trans (and_iff_left_of_imp ?_)
    intro isRun
    have inside := bound _ _ (isRun.holds rect.r1 isRun.ordered (Nat.le_refl _))
    omega

def ApplyRect.Contains (rect : ApplyRect) (r c : ℕ) : Prop :=
  (rect.r0 ≤ r ∧ r ≤ rect.r1) ∧ rect.c0 ≤ c ∧ c ≤ rect.c1

def decisionAt (rows : List (List FormatDecision)) (r c : ℕ) : Option FormatDecision :=
  rows[r]?.bind fun row => row[c]?

def SpanOfRow (rows : List (List FormatDecision)) (span : ApplyRun) (r : ℕ) : Prop :=
  ∃ row, rows[r]? = some row ∧ HorizontalRun row span

theorem inRow_map_iff {r : ℕ} :
    InRow (rows.map horizontalApplyRuns) span r ↔ SpanOfRow rows span r := by
  simp only [InRow, SpanOfRow, List.getElem?_map, map_eq_some_iff]
  constructor
  · rintro ⟨_, ⟨row, here, rfl⟩, member⟩
    exact ⟨row, here, mem_horizontalApplyRuns.1 member⟩
  · intro ⟨row, here, isRun⟩
    exact ⟨_, ⟨row, here, rfl⟩, mem_horizontalApplyRuns.2 isRun⟩

structure Coalesced (rows : List (List FormatDecision)) (rects : List ApplyRect) : Prop where
  disjoint : rects.Pairwise fun rect other =>
    ∀ r c, rect.Contains r c → ¬ other.Contains r c
  covered : ∀ r c key, decisionAt rows r c = some (apply key) →
    ∃ rect ∈ rects, rect.Contains r c ∧ rect.key = key
  only : ∀ rect ∈ rects, ∀ r c, rect.Contains r c → decisionAt rows r c = some (apply rect.key)
  above : ∀ rect ∈ rects, ∀ r, r + 1 = rect.r0 → ¬ SpanOfRow rows rect.span r
  below : ∀ rect ∈ rects, ¬ SpanOfRow rows rect.span (rect.r1 + 1)

theorem SpanOfRow.decision {r c : ℕ} (ofRow : SpanOfRow rows span r) (inside : span.c0 ≤ c)
    (within : c ≤ span.c1) : decisionAt rows r c = some (apply span.key) := by
  obtain ⟨row, here, isRun⟩ := ofRow
  rw [decisionAt, here]
  exact isRun.holds c inside within

theorem SpanOfRow.eq_of_share {other : ApplyRun} {r c : ℕ} (ofRow : SpanOfRow rows span r)
    (ofRow' : SpanOfRow rows other r) (inside : span.c0 ≤ c ∧ c ≤ span.c1)
    (inside' : other.c0 ≤ c ∧ c ≤ other.c1) : span = other := by
  have sameKey : span.key = other.key := by
    have decided := ofRow.decision inside.1 inside.2
    rw [ofRow'.decision inside'.1 inside'.2] at decided
    have keys := some.inj decided
    rw [apply, apply, FormatDecision.tuple.injEq] at keys
    exact (some.inj keys.2).symm
  obtain ⟨row, here, isRun⟩ := ofRow
  obtain ⟨row', here', isRun'⟩ := ofRow'
  obtain rfl := some.inj (here.symm.trans here')
  obtain ⟨c0, c1, key⟩ := span
  subst sameKey
  obtain ⟨rfl, rfl⟩ := isRun.eq_of_share isRun' inside inside'
  rfl

end WriterAgent.Calc
