import WriterAgent.Writer.Review.ReviewScan
import Mathlib.Data.Finset.Card

/-!
# Outcomes of a review

`plugin/writer/edit_review.py`: what a session records of an agent change, and
how it tells from the text at the anchor of the change what has become of it.
-/

namespace WriterAgent.Writer

open PyText

inductive RedlineType where
  | insert
  | delete
  deriving DecidableEq, Repr

/-- What the portion enumeration of a paragraph yields: the marks at both ends
of a redline, and text between them or elsewhere. -/
inductive TextPortion where
  | redline (type : RedlineType)
  | text (chunk : Text)
  deriving DecidableEq, Repr

/-- The loop of `_string_skipping_redline` over one paragraph. -/
def skipPortions (skipType : RedlineType) : Bool → List TextPortion → Text
  | _, [] => []
  | skipping, .redline type :: rest =>
    skipPortions skipType (if type = skipType then !skipping else skipping) rest
  | skipping, .text chunk :: rest =>
    (if skipping then [] else chunk) ++ skipPortions skipType skipping rest

def stringSkippingRedline (skipType : RedlineType) (paragraphs : List (List TextPortion)) : Text :=
  join '\n' (paragraphs.map (skipPortions skipType false))

structure ChangeRecord where
  token : Text
  bookmark : Text
  acceptedText : Text
  rejectedText : Text
  originalPreview : Text
  proposedPreview : Text
  deriving DecidableEq, Repr

def bookmarkPrefix : Text := "wa_review_".toList

/-- The anchor of a change: `wa_review_<session>_<n>`. -/
def bookmarkName (session : Text) (changeIndex : ℕ) : Text :=
  bookmarkPrefix ++ session ++ '_' :: Nat.toDigits 10 changeIndex

/-- The record that `record_mutation` makes of a change whose redlines span the
given paragraphs. -/
def ChangeRecord.capture (session : Text) (changeIndex : ℕ)
    (span : List (List TextPortion)) (originalPreview proposedPreview : Text) :
    ChangeRecord :=
  let acceptedText := stringSkippingRedline .delete span
  let rejectedText := stringSkippingRedline .insert span
  { token := makeAgentToken session changeIndex
    bookmark := bookmarkName session changeIndex
    acceptedText := acceptedText
    rejectedText := rejectedText
    originalPreview :=
      if originalPreview.isEmpty then rejectedText else originalPreview
    proposedPreview :=
      if proposedPreview.isEmpty then acceptedText else proposedPreview }

/-- `on_item` of `_pending_tokens`. -/
def pendingItem (faults : ScanFaults) (session : Text) (seen : ℕ)
    (pending : Finset Text) (comment : Text) : Finset Text × ItemAnswer :=
  if faults.comment seen then (pending, .unclassified)
  else if (sessionTokenPrefix session).isPrefixOf comment then
    (insert comment pending, .classified)
  else (pending, .classified)

/-- `_pending_tokens` of a document whose redlines have the given comments. -/
def pendingTokens (faults : ScanFaults) (session : Text)
    (comments : List Text) : Finset Text × Bool :=
  let scan := scanRedlines faults comments (pendingItem faults session) ∅
  (scan.gathered, scan.reliable)

inductive ReviewOutcome where
  | pending
  | accepted
  | rejected
  | modified
  deriving DecidableEq, Repr

/-- `_outcome`, given the text that is now at the anchor, if there is one. -/
def reviewOutcome (record : ChangeRecord) (pending : Finset Text)
    (pendingReliable : Bool) (current : Option Text) : ReviewOutcome :=
  if record.token ∈ pending then .pending
  else if !pendingReliable then .pending
  else
    match current with
    | none => if record.rejectedText = [] then .rejected else .modified
    | some current =>
      if current = record.acceptedText then .accepted
      else if current = record.rejectedText then .rejected
      else .modified

/-- `_preview`: at most 300 characters. -/
def preview (text : Text) : Text :=
  if text.length ≤ 300 then text else text.take 299 ++ ['…']

structure ReviewEntry where
  id : Text
  outcome : ReviewOutcome
  originalPreview : Text
  proposedPreview : Text
  finalText : Text
  deriving DecidableEq, Repr

structure ReviewPayload where
  complete : Bool
  timedOut : Bool
  changes : List ReviewEntry
  deriving DecidableEq, Repr

/-- `_review_payload`, with the text at each anchor, from one scan. -/
def reviewPayload (pending : Finset Text × Bool) (changes : List ChangeRecord)
    (textAtAnchor : ChangeRecord → Option Text) (complete timedOut : Bool) : ReviewPayload where
  complete := complete && pending.2 && pending.1.card == 0
  timedOut := timedOut
  changes := changes.map fun record =>
    { id := record.token
      outcome :=
        reviewOutcome record pending.1 pending.2 (textAtAnchor record)
      originalPreview := preview record.originalPreview
      proposedPreview := preview record.proposedPreview
      finalText := preview ((textAtAnchor record).getD []) }

theorem toDigits_injective {first second : ℕ}
    (same : Nat.toDigits 10 first = Nat.toDigits 10 second) :
    first = second := by
  rw [← Nat.ofDigitChars_ten_toDigits (n := first), same, Nat.ofDigitChars_ten_toDigits]

variable {session : Text}

theorem makeAgentToken_injective {first second : ℕ}
    (same : makeAgentToken session first = makeAgentToken session second) :
    first = second :=
  toDigits_injective (List.append_cancel_left same)

theorem bookmarkName_injective {first second : ℕ}
    (same : bookmarkName session first = bookmarkName session second) :
    first = second := by
  have digits := List.append_cancel_left same
  exact toDigits_injective (List.cons.inj digits).2

theorem makeAgentToken_hasPrefix (session : Text) (changeIndex : ℕ) :
    (sessionTokenPrefix session).isPrefixOf (makeAgentToken session changeIndex) = true :=
  List.isPrefixOf_iff_prefix.mpr (List.prefix_append _ _)

theorem pendingTokens_reliable {faults : ScanFaults} {comments : List Text}
    (reliable : (pendingTokens faults session comments).2 = true) (token : Text) :
    token ∈ (pendingTokens faults session comments).1 ↔
      token ∈ comments ∧ (sessionTokenPrefix session).isPrefixOf token := by
  have gathers : ∀ (items : List Text) (start : ℕ) (pending : Finset Text),
      Classifies (pendingItem faults session) start items pending →
        (token ∈ gatherFrom (pendingItem faults session) start items pending ↔ token ∈ pending ∨
            token ∈ items ∧ (sessionTokenPrefix session).isPrefixOf token) := by
    intro items
    induction items with
    | nil => simp [gatherFrom]
    | cons comment rest ih =>
      intro start pending classifies
      obtain ⟨first, later⟩ := classifies
      rw [gatherFrom, ih _ _ later]
      rw [pendingItem] at first ⊢
      split at first
      · cases first
      · rename_i readable
        rw [if_neg readable]
        split
        · rename_i ours
          simp only [Finset.mem_insert, List.mem_cons]
          constructor
          · rintro ((rfl | old) | later)
            · exact .inr ⟨.inl rfl, ours⟩
            · exact .inl old
            · exact .inr ⟨.inr later.1, later.2⟩
          · rintro (old | ⟨rfl | later, isOurs⟩)
            · exact .inl (.inr old)
            · exact .inl (.inl rfl)
            · exact .inr ⟨later, isOurs⟩
        · rename_i notOurs
          simp only [List.mem_cons]
          constructor
          · rintro (old | later)
            · exact .inl old
            · exact .inr ⟨.inr later.1, later.2⟩
          · rintro (old | ⟨rfl | later, isOurs⟩)
            · exact .inl old
            · exact absurd isOurs notOurs
            · exact .inr ⟨later, isOurs⟩
  obtain ⟨classifies, gathered⟩ := scanRedlines_reliable reliable
  rw [pendingTokens]
  simp only [gathered, gathers comments 0 ∅ classifies, Finset.notMem_empty, false_or]

end WriterAgent.Writer
