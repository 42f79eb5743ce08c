import WriterAgent.Calc.ExcelPyConvert.XlCalls

/-!
# The direct calls of a script and their rewriting

When the parser yields the exact and disjoint spans of the direct calls, the
loop that rewrites them from the last to the first replaces each call by its
own text and leaves everything between them as it is.
-/

namespace WriterAgent.Calc.ExcelPyConvert

open PyText List Option

structure DirectCall where
  start : Nat
  stop : Nat
  node : AstCall
deriving Repr, DecidableEq

/-- The text of a direct call begins with its name and ends with its
parenthesis. -/
def IsXlCallText (s : Text) : Prop := xlName <+: s ∧ s.getLast? = some ')'

/-- The parser gives the exact spans of the direct calls, and no two of them
meet. -/
structure ExactSpans (src : Text) (nodes : List AstCall) : Prop where
  placed : ∀ node ∈ nodes, ∃ start stop,
    node.span src = some (start, stop) ∧ IsXlCallText (slice src start stop)
  disjoint : nodes.Pairwise fun first second =>
    ∀ a ∈ first.span src, ∀ b ∈ second.span src, a.2 ≤ b.1 ∨ b.2 ≤ a.1

def AstCall.located (src : Text) (node : AstCall) : Option DirectCall :=
  (node.span src).map fun span => ⟨span.1, span.2, node⟩

/-- The direct calls of a script in the order in which they stand. -/
def directCalls (parse : AstParse) (src : Text) : List DirectCall :=
  match parse (normalizeExcelPlaceholders src) with
  | .error _ => []
  | .ok nodes =>
    ((directNodes nodes).filterMap (AstCall.located src)).insertionSort fun a b => a.start ≤ b.start

def DirectCall.toXlCall (lower : Text → Text) (src : Text) (call : DirectCall) :
    XlCall :=
  { start := call.start, stop := call.stop, pNum := call.node.pNum.1,
    headerMode := headerModeFromKeywords lower call.node.keywords,
    literal := call.node.pNum.2.1, dynamic := call.node.pNum.2.2,
    raw := slice src call.start call.stop }

variable {calls : List DirectCall} {src : Text} {nodes : List AstCall}

theorem astSourceOffset_le {lineno col offset : Nat}
    (found : astSourceOffset src lineno col = some offset) : offset ≤ src.length := by
  unfold astSourceOffset at found
  split at found
  · simp at found
  · cases line : (splitLinesKeep src)[lineno - 1]? with
    | none => simp [line] at found
    | some text =>
      simp only [line] at found
      split at found
      · simp at found
      · have inside := charsWithin_le col text
        have whole := congrArg List.length (flatten_splitLinesKeep src)
        rw [← take_append_drop (lineno - 1) (splitLinesKeep src),
          drop_eq_getElem?_toList_append, line] at whole
        simp only [toList_some, flatten_append, length_append, length_flatten, singleton_append,
          flatten_cons] at whole
        simp only [some.injEq] at found
        omega

theorem span_bounds {node : AstCall} {start stop : Nat}
    (span : node.span src = some (start, stop)) :
    start < stop ∧ stop ≤ src.length := by
  unfold AstCall.span at span
  split at span
  · simp at span
  · rename_i lineno _
    cases place : node.place.span src lineno with
    | none => simp [place] at span
    | some both =>
      simp only [place] at span
      split at span
      · simp at span
      · rename_i nonempty
        obtain ⟨rfl, rfl⟩ := span
        refine ⟨by omega, ?_⟩
        unfold AstPlace.span at place
        split at place
        · rename_i stopFound
          simp only [some.injEq] at place
          rw [← place]
          exact astSourceOffset_le stopFound
        · simp at place

section

variable {parse : AstParse} {src : Text}

/-- A list of calls that stand in the source one after the other. -/
structure CallsInOrder (src : Text) (calls : List DirectCall) : Prop where
  bounds : ∀ call ∈ calls, call.start < call.stop ∧ call.stop ≤ src.length
  ordered : calls.Pairwise fun first second => first.stop ≤ second.start

theorem mem_filterMap_located {call : DirectCall} : call ∈ nodes.filterMap (AstCall.located src) ↔
      call.node ∈ nodes ∧ call.node.span src = some (call.start, call.stop) := by
  rw [mem_filterMap]
  constructor
  · rintro ⟨node, member, located⟩
    obtain ⟨span, found, rfl⟩ := map_eq_some_iff.mp located
    exact ⟨member, found⟩
  · rintro ⟨member, found⟩
    exact ⟨call.node, member, by rw [AstCall.located, found]; rfl⟩

theorem callsInOrder_insertionSort
    (bounds : ∀ call ∈ calls, call.start < call.stop ∧ call.stop ≤ src.length)
    (apart : calls.Pairwise fun a b => a.stop ≤ b.start ∨ b.stop ≤ a.start) :
    CallsInOrder src (calls.insertionSort fun a b => a.start ≤ b.start) := by
  have sorted := perm_insertionSort (fun a b : DirectCall => a.start ≤ b.start) calls
  have inBounds : ∀ call ∈ calls.insertionSort (fun a b : DirectCall => a.start ≤ b.start),
      call.start < call.stop ∧ call.stop ≤ src.length :=
    fun call member => bounds call (sorted.subset member)
  have apart := sorted.symm.pairwise apart Or.symm
  have ascending := @List.pairwise_insertionSort _ (fun a b : DirectCall => a.start ≤ b.start) _
    ⟨fun a b => Nat.le_total a.start b.start⟩
    ⟨fun _ _ _ => Nat.le_trans⟩ calls
  refine ⟨inBounds, ?_⟩
  apply (apart.and ascending).imp_of_mem
  rintro a b memberA memberB ⟨separate | separate, order⟩
  · exact separate
  · have nonempty := (inBounds b memberB).1
    omega

/-- What is assumed of the parser for one script. -/
def ParsesExactly (parse : AstParse) (src : Text) : Prop :=
  ∀ nodes, parse (normalizeExcelPlaceholders src) = .ok nodes → ExactSpans src (directNodes nodes)

theorem callsInOrder_directCalls (parses : ParsesExactly parse src) :
    CallsInOrder src (directCalls parse src) := by
  unfold directCalls
  split
  · exact ⟨by simp, List.Pairwise.nil⟩
  · rename_i nodes parsed
    have spans := parses nodes parsed
    apply callsInOrder_insertionSort
    · exact fun call member => span_bounds (mem_filterMap_located.mp member).2
    · rw [pairwise_filterMap]
      apply spans.disjoint.imp
      intro first second separate a located b located'
      obtain ⟨span, found, rfl⟩ := map_eq_some_iff.mp located
      obtain ⟨span', found', rfl⟩ := map_eq_some_iff.mp located'
      exact separate span found span' found'

theorem directNodes_of_blank (spans : ExactSpans src nodes) (blank : strip src = []) :
    nodes = [] := by
  cases nodes with
  | nil => rfl
  | cons node rest =>
    obtain ⟨start, stop, _, named, _⟩ := spans.placed node mem_cons_self
    have member : 'x' ∈ slice src start stop :=
      named.subset (by decide)
    have inSource : 'x' ∈ src := mem_of_mem_drop (mem_of_mem_take member)
    have visible := mem_strip inSource (by decide)
    rw [blank] at visible
    simp at visible

theorem xlCallOf_eq (lower : Text → Text) (node : AstCall) : xlCallOf lower src node =
      (node.located src).map (DirectCall.toXlCall lower src) := by
  rw [AstCall.located, Option.map_map]
  rfl

theorem findXlCalls_fst (lower : Text → Text) (parses : ParsesExactly parse src) :
    (findXlCalls lower parse src).1 =
      (directCalls parse src).map (DirectCall.toXlCall lower src) := by
  unfold findXlCalls directCalls
  split
  · rename_i blank
    rw [List.isEmpty_iff] at blank
    split
    · rfl
    · rename_i nodes parsed
      rw [directNodes_of_blank (parses nodes parsed) blank]
      rfl
  · cases parsed : parse (normalizeExcelPlaceholders src) with
    | error issue => rfl
    | ok nodes =>
      have calls : (directNodes nodes).filterMap (xlCallOf lower src) =
          ((directNodes nodes).filterMap (AstCall.located src)).map
            (DirectCall.toXlCall lower src) := by
        rw [map_filterMap]
        exact filterMap_congr fun node _ => xlCallOf_eq lower node
      dsimp only
      rw [calls]
      symm
      apply map_insertionSort
      intro a _ b _
      exact Iff.rfl

/-- The splice that writes a call anew, if it is rewritten at all. -/
def callSplice (lower : Text → Text) (src : Text) (indexMap : PyDict Nat Nat)
    (call : DirectCall) : Option (Splice Char) :=
  (callReplacement indexMap (call.toXlCall lower src)).map fun text => ⟨call.start, call.stop, text⟩

theorem inOrder_filterMap {size cursor : Nat} {splice : DirectCall → Option (Splice Char)}
    (kept : ∀ call s, splice call = some s → s.start = call.start ∧ s.stop = call.stop)
    (bounds : ∀ call ∈ calls, call.start < call.stop ∧ call.stop ≤ size)
    (ordered : calls.Pairwise fun first second => first.stop ≤ second.start) (room : cursor ≤ size)
    (before : ∀ call ∈ calls, cursor ≤ call.start) :
    InOrder size cursor (calls.filterMap splice) := by
  induction calls generalizing cursor with
  | nil => exact room
  | cons call rest ih =>
    have here := bounds call mem_cons_self
    have start := before call mem_cons_self
    have later := pairwise_cons.mp ordered
    have restBounds : ∀ other ∈ rest, other.start < other.stop ∧ other.stop ≤ size :=
      fun other member => bounds other (mem_cons_of_mem _ member)
    cases found : splice call with
    | none =>
      rw [filterMap_cons_none found]
      exact ih restBounds later.2 room fun other member =>
        before other (mem_cons_of_mem _ member)
    | some s =>
      obtain ⟨sameStart, sameStop⟩ := kept call s found
      rw [filterMap_cons_some found]
      refine ⟨by omega, by omega, ?_⟩
      apply ih restBounds later.2 (by omega)
      intro other member
      have after := later.1 other member
      omega

theorem insertionSort_descending (inOrder : CallsInOrder src calls) :
    calls.insertionSort (fun a b => b.start ≤ a.start) = calls.reverse := by
  have sorted := perm_insertionSort (fun a b : DirectCall => b.start ≤ a.start) calls
  have descending := @List.pairwise_insertionSort _ (fun a b : DirectCall => b.start ≤ a.start) _
    ⟨fun a b => Nat.le_total b.start a.start⟩
    ⟨fun _ _ _ first second => Nat.le_trans second first⟩ calls
  have apart : calls.Pairwise fun a b => a.stop ≤ b.start ∨ b.stop ≤ a.start :=
    inOrder.ordered.imp Or.inl
  have apart := sorted.symm.pairwise apart Or.symm
  have sortedDown : (calls.insertionSort fun a b => b.start ≤ a.start).Pairwise
      fun a b => b.stop ≤ a.start := by
    apply (apart.and descending).imp_of_mem
    rintro a b memberA _ ⟨separate | separate, order⟩
    · have nonempty := (inOrder.bounds a (sorted.subset memberA)).1
      omega
    · exact separate
  have reversed : calls.reverse.Pairwise fun a b => b.stop ≤ a.start :=
    pairwise_reverse.mpr inOrder.ordered
  apply List.Perm.eq_of_pairwise _ sortedDown reversed (sorted.trans (reverse_perm calls).symm)
  intro a b memberA memberB first second
  have nonempty := (inOrder.bounds a (sorted.subset memberA)).1
  have nonempty' := (inOrder.bounds b (mem_reverse.mp memberB)).1
  omega

theorem foldl_rewriteCall {lower : Text → Text} {indexMap : PyDict Nat Nat}
    (inOrder : CallsInOrder src calls) :
    ((calls.map (DirectCall.toXlCall lower src)).insertionSort
        fun a b => b.start ≤ a.start).foldl (rewriteCall indexMap) src =
      applySplices src 0 (calls.filterMap (callSplice lower src indexMap)) := by
  have descending : (calls.map (DirectCall.toXlCall lower src)).insertionSort
      (fun a b => b.start ≤ a.start) =
      (calls.map (DirectCall.toXlCall lower src)).reverse := by
    rw [← map_reverse, ← insertionSort_descending inOrder]
    symm
    apply map_insertionSort
    intro a _ b _
    exact Iff.rfl
  have kept : ∀ call s, callSplice lower src indexMap call = some s →
      s.start = call.start ∧ s.stop = call.stop := by
    intro call s found
    obtain ⟨text, _, rfl⟩ := map_eq_some_iff.mp found
    exact ⟨rfl, rfl⟩
  have splices := inOrder_filterMap kept inOrder.bounds inOrder.ordered
    (Nat.zero_le src.length) fun _ _ => Nat.zero_le _
  have whole := foldr_replaceSpan splices
  rw [take_zero, nil_append] at whole
  rw [descending, foldl_reverse, ← whole]
  clear whole splices descending inOrder
  induction calls with
  | nil => rfl
  | cons call rest ih =>
    rw [map_cons, foldr_cons, ih]
    unfold callSplice rewriteCall
    cases found : callReplacement indexMap (call.toXlCall lower src) with
    | none => rw [filterMap_cons_none (by simp [found])]
    | some text => rw [filterMap_cons_some (by simp [found]; rfl)]; rfl

theorem rewriteExcelCode_newCode (lower : Text → Text) (numDeps : Nat)
    (indexMap : PyDict Nat Nat) (parses : ParsesExactly parse src) :
    (rewriteExcelCode lower parse src numDeps indexMap).newCode = applySplices src 0
        ((directCalls parse src).filterMap (callSplice lower src indexMap)) := by
  unfold rewriteExcelCode
  dsimp only
  rw [findXlCalls_fst lower parses]
  exact foldl_rewriteCall (callsInOrder_directCalls parses)

end

end WriterAgent.Calc.ExcelPyConvert
