import WriterAgent.Foundations.Binary64
import WriterAgent.Foundations.EditScript
import WriterAgent.Foundations.Text
import Mathlib.Data.List.Sort

/-!
# Word-level diff splitter

`plugin/writer/word_diff_split.py`: a change is one whole-block replacement or
a list of surgical sub-edits between the words both texts share.  The opcodes
are those of `difflib.SequenceMatcher` on the two word lists.
-/

namespace WriterAgent.Writer

open PyText

structure Token where
  text : Text
  start : Nat
  stop : Nat
  isWord : Bool
deriving Repr, DecidableEq

/-- The runs of a text that starts at offset `i`.  Every round takes at least
one character, so the length bounds the rounds. -/
def tokenizeLoop : Nat → Nat → Text → List Token
  | 0, _, _ => []
  | _ + 1, _, [] => []
  | fuel + 1, i, c :: rest =>
    let isWord := !isSpace c
    let run := c :: rest.takeWhile fun d => !isSpace d == isWord
    ⟨run, i, i + run.length, isWord⟩ :: tokenizeLoop fuel (i + run.length)
        (rest.dropWhile fun d => !isSpace d == isWord)

def tokenize (s : Text) : List Token := tokenizeLoop s.length 0 s

def wordTokens (tokens : List Token) : List Token :=
  tokens.filter Token.isWord

inductive OpTag where
  | equal
  | replace
  | delete
  | insert
deriving Repr, DecidableEq

structure Opcode where
  tag : OpTag
  i1 : Nat
  i2 : Nat
  j1 : Nat
  j2 : Nat
deriving Repr, DecidableEq

def countWords (counts : Nat × Nat) (op : Opcode) : Nat × Nat :=
  match op.tag with
  | .equal => (counts.1 + (op.i2 - op.i1), counts.2)
  | .replace => (counts.1, counts.2 + ((op.i2 - op.i1) + (op.j2 - op.j1)))
  | .delete => (counts.1, counts.2 + (op.i2 - op.i1))
  | .insert => (counts.1, counts.2 + (op.j2 - op.j1))

def fractionChanged (opcodes : List Opcode) : Binary64 :=
  let counts := opcodes.foldl countWords (0, 0)
  let total := counts.1 + counts.2
  if total = 0 then .finite 0 else .ofRat ((counts.2 : ℚ) / total)

inductive SubEditOp where
  | replace
  | insert
  | delete
deriving Repr, DecidableEq

/-- Replace `old[oldStart:oldEnd]`, which is `oldText`, by `newText`. -/
structure SubEdit where
  op : SubEditOp
  oldStart : Nat
  oldEnd : Nat
  oldText : Text
  newText : Text
deriving Repr, DecidableEq

inductive SplitMode where
  | block
  | surgical
deriving Repr, DecidableEq

structure SplitResult where
  mode : SplitMode
  fractionChanged : Binary64
  subEdits : List SubEdit
deriving DecidableEq

def classify (oldText newText : Text) : SubEditOp :=
  if oldText.isEmpty then .insert
  else if newText.isEmpty then .delete
  else .replace

def commonSpaces : Nat → Text → Text → Nat
  | bound + 1, c :: left, d :: right =>
    if c = d ∧ isSpace c = true then commonSpaces bound left right + 1 else 0
  | _, _, _ => 0

/-- `_emit_segment`: the trimmed sub-edit for one segment, if it changed. -/
def emitSegment (old new : Text) (oldLo oldHi newLo newHi : Nat) : Option SubEdit :=
  let oldSeg := slice old oldLo oldHi
  let newSeg := slice new newLo newHi
  if oldSeg = newSeg then none
  else
    let limit := min oldSeg.length newSeg.length
    let p := commonSpaces limit oldSeg newSeg
    let s := commonSpaces (limit - p) oldSeg.reverse newSeg.reverse
    let oldText := slice old (oldLo + p) (oldHi - s)
    let newText := slice new (newLo + p) (newHi - s)
    if oldText.isEmpty && newText.isEmpty then none
    else some ⟨classify oldText newText, oldLo + p, oldHi - s, oldText, newText⟩

def anchors (opcodes : List Opcode) : List (Nat × Nat) :=
  opcodes.flatMap fun op =>
    if op.tag = .equal then
      (List.range (op.i2 - op.i1)).map fun d => (op.i1 + d, op.j1 + d)
    else []

/-- The loop state of `_build_surgical_edits`. -/
structure SegmentWalk where
  subEdits : List SubEdit
  prevOld : Nat
  prevNew : Nat
deriving Repr, DecidableEq

/-- One matched word; `none` for an index out of range. -/
def walkAnchor (old new : Text) (oldWords newWords : List Token)
    (walk : SegmentWalk) (anchor : Nat × Nat) : Option SegmentWalk := do
  let ow ← oldWords[anchor.1]?
  let nw ← newWords[anchor.2]?
  let emitted := emitSegment old new walk.prevOld ow.start walk.prevNew nw.start
  some ⟨walk.subEdits ++ emitted.toList, ow.stop, nw.stop⟩

/-- The sort key of a sub-edit, compared as a pair. -/
def SubEdit.before (left right : SubEdit) : Prop :=
  left.oldStart < right.oldStart ∨
    left.oldStart = right.oldStart ∧ left.oldEnd ≤ right.oldEnd

instance : DecidableRel SubEdit.before := fun left right =>
  inferInstanceAs (Decidable (left.oldStart < right.oldStart ∨
    left.oldStart = right.oldStart ∧ left.oldEnd ≤ right.oldEnd))

def sortSubEdits (subEdits : List SubEdit) : List SubEdit :=
  subEdits.insertionSort SubEdit.before

def buildSurgicalEdits (old new : Text) (oldWords newWords : List Token)
    (opcodes : List Opcode) : Option (List SubEdit) := do
  let walk ← (anchors opcodes).foldlM (walkAnchor old new oldWords newWords) ⟨[], 0, 0⟩
  let emitted := emitSegment old new walk.prevOld old.length walk.prevNew new.length
  some (sortSubEdits (walk.subEdits ++ emitted.toList))

/-- `split_change`.  `threshold` is the outcome of `float(threshold)`, `none`
for a `TypeError` or `ValueError`. -/
def splitChange (old new : Text) (threshold : Option Binary64)
    (opcodes : List Opcode) : Option SplitResult :=
  let threshold := threshold.getD (.ofRat (6 / 10))
  let oldWords := wordTokens (tokenize old)
  let newWords := wordTokens (tokenize new)
  let fraction := fractionChanged opcodes
  let forceBlock := threshold.le (.finite 0) && decide (old ≠ new)
  if forceBlock || threshold.lt fraction then
    some ⟨.block, fraction, [⟨classify old new, 0, old.length, old, new⟩]⟩
  else
    (buildSurgicalEdits old new oldWords newWords opcodes).map (SplitResult.mk .surgical fraction)

/-- The loop of `apply_sub_edits`. -/
def applyLoop (old : Text) : Nat → List SubEdit → Text
  | cursor, [] => old.drop cursor
  | cursor, e :: rest => slice old cursor e.oldStart ++ (e.newText ++ applyLoop old e.oldEnd rest)

def applySubEdits (old : Text) (subEdits : List SubEdit) : Text :=
  applyLoop old 0 (sortSubEdits subEdits)

end WriterAgent.Writer
