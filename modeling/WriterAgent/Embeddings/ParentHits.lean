import Mathlib
import WriterAgent.Foundations.Dict
import WriterAgent.Foundations.Text

/-!
# Hits by paragraph

`plugin/embeddings/venv/embeddings_parent_hits.py` keeps the best hit of every
paragraph.  What the others were matched by is added only when a better hit
comes after them.
-/

namespace WriterAgent.Embeddings

open PyText List

/-- The value of `matched_by`: no value, a list of names or one name. -/
inductive MatchedBy where
  | absent
  | names (texts : List Text)
  | name (text : Text)
  deriving DecidableEq

namespace MatchedBy

def truthy : MatchedBy → Bool
  | absent => false
  | names texts => !texts.isEmpty
  | name text => !text.isEmpty

/-- What a value adds to a set of names. -/
def values : MatchedBy → List Text
  | absent => []
  | names texts => texts
  | name text => if text.isEmpty then [] else [text]

end MatchedBy

/-- `sorted` of the set of the names. -/
def sortedNames (names : List Text) : List Text := names.dedup.insertionSort (· ≤ ·)

def mergeMatchedBy (left right : MatchedBy) : Option (List Text) :=
  if !left.truthy && !right.truthy then none
  else
    let merged := sortedNames (left.values ++ right.values)
    if merged.isEmpty then none else some merged

/-- The value that adding `other` to it leaves as it is. -/
def MatchedBy.Absorbs (best other : MatchedBy) : Prop :=
  match mergeMatchedBy other best with
  | none => True
  | some matched => best = .names matched

section Names

variable {left right : MatchedBy} {texts : List Text}

theorem truthy_eq : left.truthy = !left.values.isEmpty := by
  cases left with
  | absent | names => rfl
  | name text => cases text <;> rfl

theorem mem_sortedNames {name : Text} : name ∈ sortedNames texts ↔ name ∈ texts := by
  rw [sortedNames, mem_insertionSort, mem_dedup]

theorem sortedNames_congr {others : List Text} (same : ∀ name, name ∈ texts ↔ name ∈ others) :
    sortedNames texts = sortedNames others := by
  have perm : texts.dedup.Perm others.dedup := by
    rw [perm_ext_iff_of_nodup (nodup_dedup _) (nodup_dedup _)]
    intro name
    rw [mem_dedup, mem_dedup, same]
  have sorted : (sortedNames texts).Perm (sortedNames others) :=
    (perm_insertionSort _ _).trans (perm.trans (perm_insertionSort _ _).symm)
  exact sorted.eq_of_pairwise' (pairwise_insertionSort (· ≤ ·) _) (pairwise_insertionSort (· ≤ ·) _)

theorem sortedNames_isEmpty : (sortedNames texts).isEmpty = texts.isEmpty := by
  rw [Bool.eq_iff_iff, List.isEmpty_iff, List.isEmpty_iff, eq_nil_iff_forall_not_mem,
    eq_nil_iff_forall_not_mem]
  exact forall_congr' fun name => not_congr mem_sortedNames

theorem mergeMatchedBy_eq (left right : MatchedBy) : mergeMatchedBy left right =
    if left.values ++ right.values = [] then none
    else some (sortedNames (left.values ++ right.values)) := by
  unfold mergeMatchedBy
  dsimp only
  rw [truthy_eq, truthy_eq, sortedNames_isEmpty]
  cases left.values <;> cases right.values <;> simp

/-- Adding a value changes nothing once all its names are there, sorted. -/
theorem absorbs_iff : left.Absorbs right ↔
    right.values ⊆ left.values ∧ (left.values = [] ∨ left = .names (sortedNames left.values)) := by
  rw [MatchedBy.Absorbs, mergeMatchedBy_eq]
  split
  · next matched found =>
    split at found
    · next none_ =>
      obtain ⟨noRight, noLeft⟩ := append_eq_nil_iff.mp none_
      exact iff_of_true trivial ⟨noRight ▸ nil_subset _, .inl noLeft⟩
    · cases found
  · next matched found =>
    split at found
    · cases found
    · next some_ =>
      cases found
      constructor
      · intro same
        have inLeft : ∀ name, name ∈ right.values ++ left.values ↔ name ∈ left.values := by
          intro name
          conv_rhs => rw [same]
          exact mem_sortedNames.symm
        refine ⟨fun name member => (inLeft name).mp (mem_append_left _ member), .inr ?_⟩
        rw [← sortedNames_congr inLeft]
        exact same
      · rintro ⟨inLeft, noLeft | sorted⟩
        · rw [noLeft] at inLeft
          exact absurd (by rw [noLeft, subset_nil.mp inLeft]; rfl) some_
        · rw [sortedNames_congr fun name => ⟨fun member =>
            (mem_append.mp member).elim (fun new => inLeft new) id, mem_append_right _⟩]
          exact sorted

end Names

/-- A candidate, or a node with its text and its metadata; `rest` is what both
functions copy. -/
structure Hit (σ ρ : Type) where
  docUrl : Option Text
  paraIndex : Option ℤ
  score : Option σ
  matchedBy : MatchedBy
  snippet : Text
  parentExpanded : Bool
  rest : ρ
  deriving DecidableEq

abbrev ParagraphKey := Text × ℤ

variable {σ ρ : Type}

namespace Hit

def locator (hit : Hit σ ρ) : ParagraphKey := (hit.docUrl.getD [], hit.paraIndex.getD 0)

/-- The hit in the place of a worse one, with what that was matched by. -/
def absorbing (existing merged : Hit σ ρ) : Hit σ ρ :=
  match mergeMatchedBy existing.matchedBy merged.matchedBy with
  | none => merged
  | some matched => { merged with matchedBy := .names matched }

theorem absorbing_eq {existing merged : Hit σ ρ}
    (absorbs : merged.matchedBy.Absorbs existing.matchedBy) :
    absorbing existing merged = merged := by
  unfold MatchedBy.Absorbs at absorbs
  unfold absorbing
  split
  · rfl
  · next matched found =>
    rw [found] at absorbs
    rw [← show merged.matchedBy = .names matched from absorbs]

variable [Zero σ]

def scoreValue (hit : Hit σ ρ) : σ := hit.score.getD 0

/-- The hit with the whole paragraph, where there is one. -/
def expand (bodies : ParagraphKey → Option Text) (hit : Hit σ ρ) : Hit σ ρ :=
  match bodies hit.locator with
  | none => hit
  | some body => if body.isEmpty then hit else { hit with snippet := body, parentExpanded := true }

theorem expand_keeps (bodies : ParagraphKey → Option Text) (hit : Hit σ ρ) :
    (hit.expand bodies).locator = hit.locator ∧ (hit.expand bodies).scoreValue = hit.scoreValue ∧
        (hit.expand bodies).matchedBy = hit.matchedBy := by
  unfold expand
  split
  · exact ⟨rfl, rfl, rfl⟩
  · split <;> exact ⟨rfl, rfl, rfl⟩

theorem absorbing_keeps (existing merged : Hit σ ρ) :
    (absorbing existing merged).locator = merged.locator ∧
      (absorbing existing merged).scoreValue = merged.scoreValue ∧
        (absorbing existing merged).matchedBy.values ⊆
          existing.matchedBy.values ++ merged.matchedBy.values := by
  unfold absorbing
  rw [mergeMatchedBy_eq]
  split
  · exact ⟨rfl, rfl, subset_append_right _ _⟩
  · next matched found =>
    split_ifs at found
    cases found
    exact ⟨rfl, rfl, fun name member => mem_sortedNames.mp member⟩

end Hit

variable [Zero σ] [LinearOrder σ]

section Merge

variable (bodies : ParagraphKey → Option Text)

def mergeCandidate (best : PyDict ParagraphKey (Hit σ ρ)) (cand : Hit σ ρ) :
    PyDict ParagraphKey (Hit σ ρ) :=
  let merged := cand.expand bodies
  match best.get? cand.locator with
  | none => best.set cand.locator merged
  | some existing =>
    if existing.scoreValue < merged.scoreValue then
      best.set cand.locator (existing.absorbing merged)
    else best

def mergeCandidatesByParagraph (candidates : List (Hit σ ρ)) : List (Hit σ ρ) :=
  ((candidates.foldl (mergeCandidate bodies) .empty).entries.map Prod.snd).insertionSort
    fun a b => b.scoreValue ≤ a.scoreValue

def mergeNode (best : PyDict ParagraphKey (Hit σ ρ)) (node : Hit σ ρ) :
    PyDict ParagraphKey (Hit σ ρ) :=
  let key := node.locator
  let node := node.expand bodies
  match best.get? key with
  | none => best.set key node
  | some existing =>
    if existing.scoreValue < node.scoreValue then
      let left := existing.matchedBy
      let right := node.matchedBy
      let merged :=
        if left.truthy || right.truthy then sortedNames (left.values ++ right.values) else []
      best.set key (if merged.isEmpty then node else { node with matchedBy := .names merged })
    else best

def mergeNodesByParagraph (nodes : List (Hit σ ρ)) : List (Hit σ ρ) :=
  ((nodes.foldl (mergeNode bodies) .empty).entries.map Prod.snd).insertionSort
    fun a b => b.scoreValue ≤ a.scoreValue

/-- The rows for the candidates are those of the claim, in whatever order the
candidates come. -/
structure MergesWell (candidates : List (Hit σ ρ)) : Prop where
  anyOrder : ∀ other, candidates.Perm other →
    mergeCandidatesByParagraph bodies other = mergeCandidatesByParagraph bodies candidates
  once : ((mergeCandidatesByParagraph bodies candidates).map Hit.locator).Nodup
  present : ∀ key, key ∈ (mergeCandidatesByParagraph bodies candidates).map Hit.locator ↔
    key ∈ candidates.map Hit.locator
  descending : (mergeCandidatesByParagraph bodies candidates).Pairwise
    fun a b => b.scoreValue < a.scoreValue
  highest : ∀ row ∈ mergeCandidatesByParagraph bodies candidates,
    (∃ cand ∈ candidates, cand.locator = row.locator ∧ cand.scoreValue = row.scoreValue) ∧
      ∀ cand ∈ candidates, cand.locator = row.locator → cand.scoreValue ≤ row.scoreValue
  union : ∀ row ∈ mergeCandidatesByParagraph bodies candidates, ∀ name,
    name ∈ row.matchedBy.values ↔
      ∃ cand ∈ candidates, cand.locator = row.locator ∧ name ∈ cand.matchedBy.values
  absent : ∀ row ∈ mergeCandidatesByParagraph bodies candidates,
    (∀ cand ∈ candidates, cand.locator = row.locator → cand.matchedBy = .absent) →
      row.matchedBy = .absent
  nodes : mergeNodesByParagraph bodies candidates = mergeCandidatesByParagraph bodies candidates

end Merge

def IsBest (candidates : List (Hit σ ρ)) (best : Hit σ ρ) : Prop :=
  best ∈ candidates ∧ ∀ cand ∈ candidates, cand.locator = best.locator → cand ≠ best →
    cand.scoreValue < best.scoreValue

/-- The best hit of every paragraph has the names of the other ones. -/
def BestHasAll (candidates : List (Hit σ ρ)) : Prop :=
  ∀ best, IsBest candidates best → ∀ cand ∈ candidates, cand.locator = best.locator →
    cand ≠ best → best.matchedBy.Absorbs cand.matchedBy

variable {bodies : ParagraphKey → Option Text} {candidates seen : List (Hit σ ρ)}
  {best : PyDict ParagraphKey (Hit σ ρ)} {key : ParagraphKey} {hit row top : Hit σ ρ}

/-- The two functions are one: what a node adds is what a candidate adds. -/
theorem mergeNode_eq : mergeNode bodies best hit = mergeCandidate bodies best hit := by
  unfold mergeNode mergeCandidate Hit.absorbing mergeMatchedBy
  dsimp only
  split
  · rfl
  · next existing _ =>
    split
    · generalize existing.matchedBy.truthy = left
      generalize (hit.expand bodies).matchedBy.truthy = right
      generalize sortedNames _ = merged
      cases left <;> cases right <;> cases merged <;> rfl
    · rfl

def joinHit (found : Option (Hit σ ρ)) (hit : Hit σ ρ) : Option (Hit σ ρ) :=
  match found with
  | none => some hit
  | some existing =>
    some (if existing.scoreValue < hit.scoreValue then existing.absorbing hit else existing)

/-- The hits of one paragraph, in the order in which they come. -/
def paragraphHits (bodies : ParagraphKey → Option Text) (key : ParagraphKey)
    (candidates : List (Hit σ ρ)) : List (Hit σ ρ) :=
  (candidates.filter (·.locator = key)).map (Hit.expand bodies)

theorem get?_foldl_mergeCandidate : (candidates.foldl (mergeCandidate bodies) best).get? key =
      (paragraphHits bodies key candidates).foldl joinHit (best.get? key) := by
  induction candidates generalizing best with
  | nil => rfl
  | cons cand rest ih =>
    have step : (mergeCandidate bodies best cand).get? key =
        if cand.locator = key then joinHit (best.get? key) (cand.expand bodies)
        else best.get? key := by
      unfold mergeCandidate
      split_ifs with here
      · subst here
        cases found : best.get? cand.locator with
        | none => simp [joinHit]
        | some existing =>
          simp only [joinHit]
          split
          · simp
          · exact found
      · dsimp only
        split
        · rw [PyDict.get?_set, if_neg (Ne.symm here)]
        · split
          · rw [PyDict.get?_set, if_neg (Ne.symm here)]
          · rfl
    rw [foldl_cons, ih, step, paragraphHits, paragraphHits, filter_cons]
    split_ifs with here same same
    · rfl
    · exact absurd (decide_eq_true here) same
    · exact absurd (of_decide_eq_true same) here
    · rfl

omit [Zero σ] [LinearOrder σ] in
theorem mem_paragraphHits : hit ∈ paragraphHits bodies key candidates ↔
    ∃ cand ∈ candidates, cand.locator = key ∧ cand.expand bodies = hit := by
  simp [paragraphHits, and_assoc]

section Joined

variable {hits : List (Hit σ ρ)} {found : Option (Hit σ ρ)}

theorem foldl_joinHit_of_worse (worse : ∀ hit ∈ hits, hit.scoreValue ≤ row.scoreValue) :
    hits.foldl joinHit (some row) = some row := by
  induction hits with
  | nil => rfl
  | cons hit rest ih =>
    rw [foldl_cons, joinHit, if_neg (not_lt.mpr (worse hit mem_cons_self))]
    exact ih fun later mem => worse later (mem_cons_of_mem _ mem)

/-- The hit that is left is as good as the best one. -/
theorem foldl_joinHit_source {start : Hit σ ρ} (places : ∀ hit ∈ start :: hits, hit.locator = key) :
    ∃ row, hits.foldl joinHit (some start) = some row ∧ row.locator = key ∧
      (∃ hit ∈ start :: hits, hit.scoreValue = row.scoreValue) ∧
        ∀ hit ∈ start :: hits, hit.scoreValue ≤ row.scoreValue := by
  induction hits generalizing start with
  | nil => exact ⟨start, rfl, by simpa using places⟩
  | cons hit rest ih =>
    rw [foldl_cons, joinHit]
    split_ifs with worse
    · obtain ⟨place, score, -⟩ := start.absorbing_keeps hit
      obtain ⟨row, joined, isKey, ⟨one, mem, same⟩, bound⟩ :=
        @ih (start.absorbing hit) (by
          simp only [forall_mem_cons, place] at places ⊢
          exact places.2)
      simp only [forall_mem_cons, score] at bound
      refine ⟨row, joined, isKey, ?_, forall_mem_cons.mpr ⟨?_, forall_mem_cons.mpr bound⟩⟩
      · rcases mem_cons.mp mem with rfl | later
        · exact ⟨hit, by simp, score.symm.trans same⟩
        · exact ⟨one, by simp [later], same⟩
      · exact worse.le.trans bound.1
    · simp only [forall_mem_cons] at places
      obtain ⟨row, joined, isKey, ⟨one, mem, same⟩, bound⟩ :=
        @ih start (forall_mem_cons.mpr ⟨places.1, places.2.2⟩)
      rw [forall_mem_cons] at bound
      refine ⟨row, joined, isKey, ⟨one, ?_, same⟩, forall_mem_cons.mpr
        ⟨bound.1, forall_mem_cons.mpr ⟨(not_lt.mp worse).trans bound.1, bound.2⟩⟩⟩
      rcases mem_cons.mp mem with rfl | later <;> simp [*]

/-- A worse hit whose names the best one has. -/
def Yields (top hit : Hit σ ρ) : Prop :=
  hit.scoreValue < top.scoreValue ∧ top.matchedBy.Absorbs hit.matchedBy

theorem foldl_joinHit_of_absorbs (mem : top ∈ hits)
    (others : ∀ hit ∈ hits, hit = top ∨ Yields top hit)
    (before : ∀ hit ∈ found, Yields top hit) : hits.foldl joinHit found = some top := by
  induction hits generalizing found with
  | nil => cases mem
  | cons hit rest ih =>
    rw [foldl_cons]
    rcases others hit mem_cons_self with rfl | worse
    · have joined : joinHit found hit = some hit := by
        cases found with
        | none => rfl
        | some existing =>
          obtain ⟨less, absorbs⟩ := before existing rfl
          rw [joinHit, if_pos less, Hit.absorbing_eq absorbs]
      rw [joined]
      apply foldl_joinHit_of_worse
      intro later inRest
      rcases others later (mem_cons_of_mem _ inRest) with rfl | ⟨less, -⟩
      · exact le_rfl
      · exact less.le
    · have inRest : top ∈ rest := by
        rcases mem_cons.mp mem with rfl | later
        · exact absurd worse.1 (lt_irrefl _)
        · exact later
      apply ih inRest fun later inside => others later (mem_cons_of_mem _ inside)
      intro next isNext
      cases found with
      | none =>
        cases isNext
        exact worse
      | some existing =>
        cases isNext
        split
        · obtain ⟨-, score, names⟩ := Hit.absorbing_keeps existing hit
          refine ⟨score ▸ worse.1, absorbs_iff.mpr ⟨?_, (absorbs_iff.mp worse.2).2⟩⟩
          intro name member
          rcases mem_append.mp (names member) with old | new
          · exact (absorbs_iff.mp (before existing rfl).2).1 old
          · exact (absorbs_iff.mp worse.2).1 new
        · exact before existing rfl

end Joined

/-- What the merge leaves for a paragraph. -/
def bestHit (bodies : ParagraphKey → Option Text) (candidates : List (Hit σ ρ))
    (key : ParagraphKey) : Option (Hit σ ρ) :=
  (candidates.foldl (mergeCandidate bodies) .empty).get? key

theorem bestHit_eq : bestHit bodies candidates key =
    (paragraphHits bodies key candidates).foldl joinHit none :=
  get?_foldl_mergeCandidate

theorem bestHit_source (found : bestHit bodies candidates key = some row) : row.locator = key ∧
      (∃ cand ∈ candidates, cand.locator = key ∧ cand.scoreValue = row.scoreValue) ∧
        ∀ cand ∈ candidates, cand.locator = key → cand.scoreValue ≤ row.scoreValue := by
  rw [bestHit_eq] at found
  have member := fun hit => @mem_paragraphHits _ _ bodies candidates key hit
  cases hits : paragraphHits bodies key candidates with
  | nil =>
    rw [hits] at found
    cases found
  | cons start rest =>
    rw [hits] at found member
    obtain ⟨last, joined, isKey, ⟨one, mem, same⟩, bound⟩ :=
      @foldl_joinHit_source _ _ _ _ key rest start (by
        intro hit mem
        obtain ⟨cand, -, place, rfl⟩ := (member hit).mp mem
        exact (cand.expand_keeps bodies).1.trans place)
    cases joined.symm.trans found
    refine ⟨isKey, ?_, fun cand inside place => ?_⟩
    · obtain ⟨cand, inside, place, rfl⟩ := (member one).mp mem
      exact ⟨cand, inside, place, (cand.expand_keeps bodies).2.1.symm.trans same⟩
    · rw [← (cand.expand_keeps bodies).2.1]
      exact bound _ ((member _).mpr ⟨cand, inside, place, rfl⟩)

theorem exists_bestHit (mem : hit ∈ candidates) :
    ∃ row, bestHit bodies candidates hit.locator = some row := by
  rw [bestHit_eq]
  have inside : hit.expand bodies ∈ paragraphHits bodies hit.locator candidates :=
    mem_paragraphHits.mpr ⟨hit, mem, rfl, rfl⟩
  cases hits : paragraphHits bodies hit.locator candidates with
  | nil =>
    rw [hits] at inside
    cases inside
  | cons start rest =>
    obtain ⟨row, joined, -⟩ := @foldl_joinHit_source _ _ _ _ hit.locator rest start (by
      intro one mem
      rw [← hits] at mem
      obtain ⟨cand, -, place, rfl⟩ := mem_paragraphHits.mp mem
      exact (cand.expand_keeps bodies).1.trans place)
    exact ⟨row, joined⟩

theorem mem_merge_iff : row ∈ mergeCandidatesByParagraph bodies candidates ↔
    bestHit bodies candidates row.locator = some row := by
  rw [mergeCandidatesByParagraph, mem_insertionSort, mem_map]
  constructor
  · rintro ⟨⟨key, row⟩, entry, rfl⟩
    have found : bestHit bodies candidates key = some row := PyDict.get?_eq_some_iff.mpr entry
    dsimp only
    rw [(bestHit_source found).1, found]
  · exact fun found => ⟨(row.locator, row), PyDict.get?_eq_some_iff.mp found, rfl⟩

theorem merge_once : ((mergeCandidatesByParagraph bodies candidates).map Hit.locator).Nodup := by
  have keys : (candidates.foldl (mergeCandidate bodies) .empty).entries.map
      (Hit.locator ∘ Prod.snd) =
        (candidates.foldl (mergeCandidate bodies) .empty).entries.map Prod.fst :=
    map_congr_left fun entry mem => (bestHit_source (PyDict.get?_eq_some_iff.mpr mem)).1
  have perm := (perm_insertionSort (fun a b : Hit σ ρ => b.scoreValue ≤ a.scoreValue)
    ((candidates.foldl (mergeCandidate bodies) .empty).entries.map Prod.snd)).map Hit.locator
  rw [map_map, keys] at perm
  exact perm.nodup_iff.mpr (PyDict.distinct _)

theorem merge_sorted : (mergeCandidatesByParagraph bodies candidates).Pairwise
    fun a b => b.scoreValue ≤ a.scoreValue := by
  have total : Std.Total fun a b : Hit σ ρ => b.scoreValue ≤ a.scoreValue :=
    ⟨fun a b => le_total _ _⟩
  have trans : IsTrans (Hit σ ρ) fun a b => b.scoreValue ≤ a.scoreValue :=
    ⟨fun _ _ _ first second => second.trans first⟩
  exact pairwise_insertionSort _ _

section Distinct

variable (distinct : (candidates.map Hit.scoreValue).Nodup)

include distinct

theorem row_eq_of_score {left right : Hit σ ρ}
    (inLeft : left ∈ mergeCandidatesByParagraph bodies candidates)
    (inRight : right ∈ mergeCandidatesByParagraph bodies candidates)
    (same : left.scoreValue = right.scoreValue) : left = right := by
  rw [mem_merge_iff] at inLeft inRight
  obtain ⟨-, ⟨one, mem, place, score⟩, -⟩ := bestHit_source inLeft
  obtain ⟨-, ⟨other, inside, placeOther, scoreOther⟩, -⟩ := bestHit_source inRight
  obtain rfl : one = other := inj_on_of_nodup_map distinct mem inside
    ((score.trans same).trans scoreOther.symm)
  rw [← place.symm.trans placeOther] at inRight
  exact Option.some.inj (inLeft.symm.trans (place ▸ inRight))

theorem merge_eq_of_bestHit {other : List (Hit σ ρ)}
    (same : ∀ key, bestHit bodies other key = bestHit bodies candidates key) :
    mergeCandidatesByParagraph bodies other = mergeCandidatesByParagraph bodies candidates := by
  have mem : ∀ row, row ∈ mergeCandidatesByParagraph bodies other ↔
      row ∈ mergeCandidatesByParagraph bodies candidates := by
    intro row
    rw [mem_merge_iff, mem_merge_iff, same]
  have perm := (perm_ext_iff_of_nodup (merge_once.of_map _) (merge_once.of_map _)).mpr mem
  exact perm.eq_of_pairwise (fun a b inLeft inRight above below =>
    row_eq_of_score distinct ((mem a).mp inLeft) inRight (le_antisymm below above))
    merge_sorted merge_sorted

theorem exists_isBest (found : bestHit bodies candidates key = some row) :
    ∃ top, IsBest candidates top ∧ top.locator = key := by
  obtain ⟨-, ⟨top, mem, place, score⟩, bound⟩ := bestHit_source found
  refine ⟨top, ⟨mem, fun cand inside here other => ?_⟩, place⟩
  refine lt_of_le_of_ne (score ▸ bound cand inside (here.trans place)) fun same => ?_
  exact other (inj_on_of_nodup_map distinct inside mem same)

end Distinct

theorem bestHit_of_absorbs {other : List (Hit σ ρ)} (isBest : IsBest candidates top)
    (all : BestHasAll candidates) (perm : candidates.Perm other) :
    bestHit bodies other top.locator = some (top.expand bodies) := by
  rw [bestHit_eq]
  apply foldl_joinHit_of_absorbs
  · exact mem_paragraphHits.mpr ⟨top, perm.mem_iff.mp isBest.1, rfl, rfl⟩
  · intro hit mem
    obtain ⟨cand, inOther, place, rfl⟩ := mem_paragraphHits.mp mem
    have inside := perm.mem_iff.mpr inOther
    by_cases same : cand = top
    · exact .inl (by rw [same])
    · obtain ⟨-, topScore, topNames⟩ := top.expand_keeps bodies
      obtain ⟨-, score, names⟩ := cand.expand_keeps bodies
      right
      rw [Yields, topScore, score, topNames, names]
      exact ⟨isBest.2 cand inside place same, all top isBest cand inside place same⟩
  · nofun

theorem BestHasAll.of_anyOrder (anyOrder : ∀ other, candidates.Perm other →
      mergeCandidatesByParagraph bodies other =
        mergeCandidatesByParagraph bodies candidates) : BestHasAll candidates := by
  classical
  intro top isBest cand mem place other
  have perm : candidates.Perm (cand :: top :: (candidates.erase cand).erase top) :=
    (perm_cons_erase mem).trans
      ((perm_cons_erase ((mem_erase_of_ne other.symm).mpr isBest.1)).cons cand)
  have swapped := perm.trans (Perm.swap top cand _)
  generalize (candidates.erase cand).erase top = rest at perm swapped
  obtain ⟨topPlace, topScore, topNames⟩ := top.expand_keeps bodies
  obtain ⟨-, score, names⟩ := cand.expand_keeps bodies
  have less := isBest.2 cand mem place other
  have worse : ∀ hit ∈ paragraphHits bodies top.locator rest, hit.scoreValue ≤ top.scoreValue := by
    intro hit inHits
    obtain ⟨later, inRest, here, rfl⟩ := mem_paragraphHits.mp inHits
    rw [(later.expand_keeps bodies).2.1]
    by_cases same : later = top
    · rw [same]
    · exact (isBest.2 later (perm.mem_iff.mpr (by simp [inRest])) here same).le
  have first : bestHit bodies (cand :: top :: rest) top.locator =
      some ((cand.expand bodies).absorbing (top.expand bodies)) := by
    rw [bestHit_eq, paragraphHits, filter_cons_of_pos (by simpa using place),
      filter_cons_of_pos (by simp), map_cons, map_cons, foldl_cons, foldl_cons]
    simp only [joinHit]
    rw [if_pos (by rw [score, topScore]; exact less)]
    apply foldl_joinHit_of_worse
    rw [(Hit.absorbing_keeps _ _).2.1, topScore]
    exact worse
  have second : bestHit bodies (top :: cand :: rest) top.locator = some (top.expand bodies) := by
    rw [bestHit_eq, paragraphHits, filter_cons_of_pos (by simp),
      filter_cons_of_pos (by simpa using place), map_cons, map_cons, foldl_cons, foldl_cons]
    simp only [joinHit]
    rw [if_neg (by rw [score, topScore]; exact less.asymm)]
    apply foldl_joinHit_of_worse
    rw [topScore]
    exact worse
  have same : (cand.expand bodies).absorbing (top.expand bodies) = top.expand bodies := by
    have here : ((cand.expand bodies).absorbing (top.expand bodies)).locator =
        top.locator := (Hit.absorbing_keeps _ _).1.trans topPlace
    rw [← here] at first
    have inRows := mem_merge_iff.mpr first
    rw [anyOrder _ perm, ← anyOrder _ swapped, mem_merge_iff, here, second] at inRows
    exact (Option.some.inj inRows).symm
  have value := congrArg Hit.matchedBy same
  unfold Hit.absorbing at value
  rw [names, topNames] at value
  unfold MatchedBy.Absorbs
  split
  · trivial
  · next matched found =>
    rw [found] at value
    exact value.symm

/-- **Hits by paragraph.** The rows are those of the claim in any order exactly
when the best hit of every paragraph already has all the names. -/
theorem mergesWell_iff (distinct : (candidates.map Hit.scoreValue).Nodup) :
    MergesWell bodies candidates ↔ BestHasAll candidates := by
  refine ⟨fun well => .of_anyOrder well.anyOrder, fun all => ?_⟩
  have isTop : ∀ row ∈ mergeCandidatesByParagraph bodies candidates,
      ∃ top, IsBest candidates top ∧ top.locator = row.locator ∧ row = top.expand bodies := by
    intro row mem
    rw [mem_merge_iff] at mem
    obtain ⟨top, isBest, place⟩ := exists_isBest distinct mem
    rw [← place, bestHit_of_absorbs isBest all (Perm.refl _)] at mem
    exact ⟨top, isBest, place, (Option.some.inj mem).symm⟩
  constructor
  · intro other perm
    apply merge_eq_of_bestHit distinct
    intro key
    cases found : bestHit bodies candidates key with
    | none =>
      cases inOther : bestHit bodies other key with
      | none => rfl
      | some row =>
        obtain ⟨-, ⟨cand, mem, rfl, -⟩, -⟩ := bestHit_source inOther
        obtain ⟨row, present⟩ := @exists_bestHit _ _ _ _ bodies _ _ (perm.mem_iff.mpr mem)
        rw [found] at present
        cases present
    | some row =>
      obtain ⟨top, isBest, rfl⟩ := exists_isBest distinct found
      rw [bestHit_of_absorbs isBest all perm, ← found, bestHit_of_absorbs isBest all (Perm.refl _)]
  · exact merge_once
  · intro key
    simp only [mem_map]
    constructor
    · rintro ⟨row, mem, rfl⟩
      obtain ⟨top, isBest, place, -⟩ := isTop row mem
      exact ⟨top, isBest.1, place⟩
    · rintro ⟨cand, mem, rfl⟩
      obtain ⟨row, found⟩ := @exists_bestHit _ _ _ _ bodies _ _ mem
      have place := (bestHit_source found).1
      exact ⟨row, mem_merge_iff.mpr (place.symm ▸ found), place⟩
  · refine (merge_sorted.and (merge_once.of_map _)).imp_of_mem fun left right both => ?_
    exact lt_of_le_of_ne both.1 fun same => both.2 (row_eq_of_score distinct left right same.symm)
  · intro row mem
    rw [mem_merge_iff] at mem
    exact (bestHit_source mem).2
  · intro row mem name
    obtain ⟨top, isBest, place, rfl⟩ := isTop row mem
    rw [(top.expand_keeps bodies).1, (top.expand_keeps bodies).2.2]
    constructor
    · exact fun inTop => ⟨top, isBest.1, rfl, inTop⟩
    · rintro ⟨cand, inside, here, named⟩
      by_cases same : cand = top
      · rw [← same]
        exact named
      · exact (absorbs_iff.mp (all top isBest cand inside here same)).1 named
  · intro row mem none_
    obtain ⟨top, isBest, place, rfl⟩ := isTop row mem
    rw [(top.expand_keeps bodies).2.2]
    exact none_ top isBest.1 place
  · have same : mergeNode (σ := σ) (ρ := ρ) bodies = mergeCandidate bodies :=
      funext fun best => funext fun hit => mergeNode_eq
    rw [mergeNodesByParagraph, same]
    rfl

/-- Two hits of one paragraph, the better one first. -/
def vectorAndText : List (Hit ℕ Unit) :=
  [⟨some ['a'], some 1, some 2, .names ["vec".toList], [], false, ()⟩,
    ⟨some ['a'], some 1, some 1, .names ["fts".toList], [], false, ()⟩]

theorem mergesWell_iff_of_two :
    MergesWell (fun _ => none) vectorAndText ↔ BestHasAll vectorAndText :=
  mergesWell_iff (by decide)

theorem worse_hit_not_merged : ¬MergesWell (fun _ => none) vectorAndText := by
  intro well
  have row : vectorAndText.head (by decide) ∈
      mergeCandidatesByParagraph (fun _ => none) vectorAndText := by decide
  have named := (well.union _ row "fts".toList).mpr
    ⟨vectorAndText.getLast (by decide), by decide, by decide, by decide⟩
  exact absurd named (by decide)

end WriterAgent.Embeddings
