import Mathlib.Data.List.Count
import Mathlib.Data.List.Perm.Basic
import WriterAgent.Writer.Locale.GrammarWorkQueue

/-!
# Where a grammar job can be

An enqueued item is recorded, queued, held by a worker or handed over, in one
place only, unless it was dropped for a newer one of its key.
-/

namespace WriterAgent.Locale.GrammarWorkQueue

open PyText List

/-- The possible steps with what they do. -/
inductive Steps (queue : GrammarWorkQueue) : Action → GrammarWorkQueue → Prop where
  | startWorker : Steps queue .startWorker
      { queue with workers := queue.workers ++ [.idle] }
  | mint (text grammarBcp47 docId inflightKey : Text) :
      Steps queue (.mint text grammarBcp47 docId inflightKey) { queue with
          counter := queue.counter + 1
          minted := queue.minted ++ [⟨text, grammarBcp47, docId, inflightKey, queue.counter + 1⟩] }
  | record {thread : ℕ} {item : GrammarWorkItem} : queue.minted[thread]? = some item →
      Steps queue (.record thread) { queue with
          minted := queue.minted.eraseIdx thread
          recorded := queue.recorded ++ [item]
          latestSeq := queue.latestSeq.set item.inflightKey item.enqueueSeq
          enqueued := queue.enqueued ++ [item] }
  | put {thread : ℕ} {item : GrammarWorkItem} : queue.recorded[thread]? = some item →
      Steps queue (.put thread) { queue with
          recorded := queue.recorded.eraseIdx thread
          q := queue.q ++ [item] }
  | get {worker : ℕ} {first : GrammarWorkItem} {rest : List GrammarWorkItem} :
      queue.workers[worker]? = some .idle → queue.q = first :: rest →
      Steps queue (.get worker) ({ queue with q := rest }.setWorker worker
        (.batching (PyDict.empty.set first.inflightKey first)))
  | replace {worker : ℕ} {batch : PyDict Text GrammarWorkItem}
      {more : GrammarWorkItem} {rest : List GrammarWorkItem} :
      queue.workers[worker]? = some (.batching batch) →
      queue.q = more :: rest →
      shouldReplaceForKey (batch.get? more.inflightKey) more = true →
      Steps queue (.more worker) ({ queue with q := rest }.setWorker worker
        (.batching (batch.set more.inflightKey more)))
  | keep {worker : ℕ} {batch : PyDict Text GrammarWorkItem}
      {more : GrammarWorkItem} {rest : List GrammarWorkItem} :
      queue.workers[worker]? = some (.batching batch) →
      queue.q = more :: rest →
      shouldReplaceForKey (batch.get? more.inflightKey) more = false →
      Steps queue (.more worker) ({ queue with q := rest }.setWorker worker (.batching batch))
  | close {worker : ℕ} {batch : PyDict Text GrammarWorkItem} :
      queue.workers[worker]? = some (.batching batch) → queue.q = [] →
      Steps queue (.close worker) (queue.setWorker worker
        (.checking (batch.entries.map Prod.snd) []))
  | skip {worker : ℕ} {item : GrammarWorkItem} {todo : List GrammarWorkItem}
      {groups : Groups} :
      queue.workers[worker]? = some (.checking (item :: todo) groups) →
      queue.isStale item = true →
      Steps queue (.check worker) (queue.setWorker worker (.checking todo groups))
  | pass {worker : ℕ} {item : GrammarWorkItem} {todo : List GrammarWorkItem}
      {groups : Groups} :
      queue.workers[worker]? = some (.checking (item :: todo) groups) →
      queue.isStale item = false →
      Steps queue (.check worker) (queue.setWorker worker
        (.checking todo (appendToGroup item groups)))
  | checked {worker : ℕ} {groups : Groups} : queue.workers[worker]? = some (.checking [] groups) →
      Steps queue (.check worker) (queue.setWorker worker (.executing groups))
  | execute {worker : ℕ} {key : Text × Text} {items : List GrammarWorkItem}
      {rest : Groups} :
      queue.workers[worker]? = some (.executing ((key, items) :: rest)) →
      Steps queue (.execute worker) ({ queue with executed := queue.executed ++ [items] }.setWorker
          worker (.executing rest))
  | executed {worker : ℕ} : queue.workers[worker]? = some (.executing []) →
      Steps queue (.execute worker) (queue.setWorker worker .idle)

variable {queue next : GrammarWorkQueue} {action : Action}
  {batch : PyDict Text GrammarWorkItem} {worker : DrainWorker}
  {item first more : GrammarWorkItem} {rest : List GrammarWorkItem}

theorem steps_of_step (taken : step queue action = some next) : Steps queue action next := by
  cases action with
  | startWorker =>
    cases taken
    exact .startWorker
  | mint text grammarBcp47 docId inflightKey =>
    cases taken
    exact .mint text grammarBcp47 docId inflightKey
  | record thread =>
    simp only [step] at taken
    split at taken
    · rename_i item there
      cases taken
      exact .record there
    · cases taken
  | put thread =>
    simp only [step] at taken
    split at taken
    · rename_i item there
      cases taken
      exact .put there
    · cases taken
  | get worker =>
    simp only [step] at taken
    split at taken
    · rename_i first rest isIdle isFirst
      cases taken
      exact .get isIdle isFirst
    · cases taken
  | more worker =>
    simp only [step] at taken
    split at taken
    · rename_i batch more rest isBatching isMore
      cases taken
      split
      · next replaces => exact .replace isBatching isMore replaces
      · rename_i keeps
        exact .keep isBatching isMore (Bool.eq_false_iff.mpr keeps)
    · cases taken
  | close worker =>
    simp only [step] at taken
    split at taken
    · rename_i batch isBatching isEmpty
      cases taken
      exact .close isBatching isEmpty
    · cases taken
  | check worker =>
    simp only [step] at taken
    split at taken
    · rename_i item todo groups isChecking
      cases taken
      split
      · next stale => exact .skip isChecking stale
      · rename_i fresh
        exact .pass isChecking (Bool.eq_false_iff.mpr fresh)
    · rename_i groups isChecking
      cases taken
      exact .checked isChecking
    · cases taken
  | execute worker =>
    simp only [step] at taken
    split at taken
    · rename_i key items rest isExecuting
      cases taken
      exact .execute isExecuting
    · rename_i isExecuting
      cases taken
      exact .executed isExecuting
    · cases taken

structure Stamped (queue : GrammarWorkQueue) : Prop where
  distinct : ((queue.minted ++ queue.enqueued).map GrammarWorkItem.enqueueSeq).Nodup
  bounded : ∀ item ∈ queue.minted ++ queue.enqueued, item.enqueueSeq ≤ queue.counter

theorem eraseIdx_perm {α : Type*} {items : List α} {i : ℕ} {a : α}
    (there : items[i]? = some a) : (a :: items.eraseIdx i).Perm items := by
  obtain ⟨inRange, isThere⟩ := List.getElem?_eq_some_iff.mp there
  rw [← isThere]
  exact getElem_cons_eraseIdx_perm inRange

theorem stamped_step (stamped : Stamped queue) (steps : Steps queue action next) :
    Stamped next := by
  cases steps with
  | mint text grammarBcp47 docId inflightKey =>
    have perm : ∀ item : GrammarWorkItem, ((queue.minted ++ [item]) ++ queue.enqueued).Perm
          (item :: (queue.minted ++ queue.enqueued)) := by
      intro item
      rw [append_assoc]
      exact perm_middle
    constructor
    · rw [((perm _).map _).nodup_iff, map_cons, nodup_cons]
      refine ⟨fun member => ?_, stamped.distinct⟩
      obtain ⟨item, isItem, same⟩ := mem_map.mp member
      have bound := stamped.bounded item isItem
      simp only at same
      omega
    · intro item member
      rcases mem_cons.mp ((perm _).mem_iff.mp member) with rfl | old
      · exact Nat.le_refl _
      · exact Nat.le_succ_of_le (stamped.bounded item old)
  | @record thread item there =>
    have perm : (queue.minted.eraseIdx thread ++
        (queue.enqueued ++ [item])).Perm (queue.minted ++ queue.enqueued) := by
      rw [← append_assoc]
      exact (perm_append_singleton item _).trans ((eraseIdx_perm there).append_right queue.enqueued)
    constructor
    · rw [(perm.map _).nodup_iff]
      exact stamped.distinct
    · intro item member
      exact stamped.bounded item (perm.mem_iff.mp member)
  | startWorker | put | get | close | replace | keep | skip | pass | checked =>
    exact ⟨stamped.distinct, stamped.bounded⟩
  | execute isExecuting | executed isExecuting => exact ⟨stamped.distinct, stamped.bounded⟩

/-- A collected item stands under its own key. -/
def Keyed (queue : GrammarWorkQueue) : Prop :=
  ∀ batch, .batching batch ∈ queue.workers → ∀ entry ∈ batch.entries, entry.2.inflightKey = entry.1

theorem keyed_setWorker {queue : GrammarWorkQueue} {i : ℕ}
    {worker : DrainWorker} (keyed : Keyed queue)
    (isKeyed : ∀ batch, worker = .batching batch →
      ∀ entry ∈ batch.entries, entry.2.inflightKey = entry.1) :
    Keyed (queue.setWorker i worker) := by
  intro batch member
  rcases mem_or_eq_of_mem_set member with old | new
  · exact keyed batch old
  · exact isKeyed batch new.symm

theorem keyed_set (isKeyed : ∀ entry ∈ batch.entries, entry.2.inflightKey = entry.1)
    (item : GrammarWorkItem) :
    ∀ entry ∈ (batch.set item.inflightKey item).entries, entry.2.inflightKey = entry.1 := by
  intro entry member
  rcases PyDict.mem_of_mem_set member with rfl | old
  · rfl
  · exact isKeyed entry old

theorem keyed_step (keyed : Keyed queue) (steps : Steps queue action next) : Keyed next := by
  cases steps with
  | startWorker =>
    intro batch member
    rcases mem_append.mp member with old | new
    · exact keyed batch old
    · cases mem_singleton.mp new
  | mint | record | put => exact keyed
  | @get worker first rest isIdle isFirst =>
    apply @keyed_setWorker { queue with q := rest } _ _ keyed
    intro batch isBatch
    cases isBatch
    exact keyed_set (fun entry member => (not_mem_nil member).elim) first
  | @replace worker batch more rest isBatching isMore replaces =>
    apply @keyed_setWorker { queue with q := rest } _ _ keyed
    intro batch' isBatch
    cases isBatch
    exact keyed_set (keyed batch (mem_of_getElem? isBatching)) more
  | @keep worker batch more rest isBatching isMore keeps =>
    apply @keyed_setWorker { queue with q := rest } _ _ keyed
    intro batch' isBatch
    cases isBatch
    exact keyed batch (mem_of_getElem? isBatching)
  | close isBatching isEmpty | skip isChecking stale | pass isChecking fresh =>
    exact keyed_setWorker keyed nofun
  | checked isChecking | executed isExecuting => exact keyed_setWorker keyed nofun
  | @execute worker key items rest isExecuting =>
    exact @keyed_setWorker { queue with executed := queue.executed ++ [items] } _ _ keyed nofun

def FromEnqueued (queue : GrammarWorkQueue) : Prop :=
  ∀ key seq, queue.latestSeq.get? key = some seq →
    ∃ item ∈ queue.enqueued, item.inflightKey = key ∧ item.enqueueSeq = seq

theorem steps_frame (steps : Steps queue action next) :
    (next.latestSeq = queue.latestSeq ∧ next.enqueued = queue.enqueued) ∨
      ∃ thread item, action = .record thread ∧ queue.minted[thread]? = some item ∧
        next.latestSeq = queue.latestSeq.set item.inflightKey item.enqueueSeq ∧
        next.enqueued = queue.enqueued ++ [item] := by
  cases steps with
  | record there => exact .inr ⟨_, _, rfl, there, rfl, rfl⟩
  | startWorker | mint | put | get | replace | keep | close | skip | pass
  | checked | execute | executed => exact .inl ⟨rfl, rfl⟩

theorem fromEnqueued_step (from_ : FromEnqueued queue) (steps : Steps queue action next) :
    FromEnqueued next := by
  intro key seq found
  rcases steps_frame steps with ⟨sameMap, sameRecord⟩ | ⟨thread, item, _, _, newMap, newRecord⟩
  · rw [sameMap] at found
    rw [sameRecord]
    exact from_ key seq found
  · rw [newMap, PyDict.get?_set] at found
    rw [newRecord]
    split at found
    · rename_i same
      cases found
      exact ⟨item, by simp, same.symm, rfl⟩
    · obtain ⟨older, isOlder, sameKey, sameSeq⟩ := from_ key seq found
      exact ⟨older, mem_append_left _ isOlder, sameKey, sameSeq⟩

def groupItems (groups : Groups) : List GrammarWorkItem :=
  groups.flatMap Prod.snd

def held : DrainWorker → List GrammarWorkItem
  | .idle => []
  | .batching batchByKey => batchByKey.entries.map Prod.snd
  | .checking todo groups => todo ++ groupItems groups
  | .executing groups => groupItems groups

/-- The enqueued items that are still on their way or were handed over. -/
def present (queue : GrammarWorkQueue) : List GrammarWorkItem :=
  queue.recorded ++ queue.q ++ queue.workers.flatMap held ++ queue.executed.flatten

theorem count_head (x item : GrammarWorkItem) (items : List GrammarWorkItem) :
    (item :: items).count x = [item].count x + items.count x := by
  rw [← singleton_append, count_append]

theorem count_groupItems_append (x item : GrammarWorkItem) (groups : Groups) :
    (groupItems (appendToGroup item groups)).count x =
      (groupItems groups).count x + [item].count x := by
  induction groups with
  | nil => simp [appendToGroup, groupItems]
  | cons group rest ih =>
    unfold appendToGroup
    split
    · simp only [groupItems, flatMap_cons, count_append]
      omega
    · simp only [groupItems, flatMap_cons, count_append] at ih ⊢
      omega

theorem count_held_set {workers : List DrainWorker} {i : ℕ}
    (there : workers[i]? = some worker) (next : DrainWorker) (x : GrammarWorkItem) :
    ((workers.set i next).flatMap held).count x + (held worker).count x =
      (workers.flatMap held).count x + (held next).count x := by
  obtain ⟨inRange, isThere⟩ := List.getElem?_eq_some_iff.mp there
  have after := ((set_perm_cons_eraseIdx inRange next).flatMap_right held).count_eq x
  have before := ((eraseIdx_perm there).flatMap_right held).count_eq x
  simp only [flatMap_cons, count_append] at after before
  omega

def Conserved (queue : GrammarWorkQueue) : Prop :=
  ∃ dropped : List GrammarWorkItem,
    (∀ x, queue.enqueued.count x = queue.present.count x + dropped.count x) ∧
    ∀ old ∈ dropped, ∃ newer ∈ queue.enqueued,
      newer.inflightKey = old.inflightKey ∧ old.enqueueSeq < newer.enqueueSeq

theorem mem_enqueued_of_present (conserved : Conserved queue)
    (isPresent : 0 < queue.present.count item) : item ∈ queue.enqueued := by
  obtain ⟨dropped, counts, _⟩ := conserved
  apply count_pos_iff.mp
  rw [counts]
  omega

theorem count_present_le_one (stamped : Stamped queue) (conserved : Conserved queue)
    (item : GrammarWorkItem) : queue.present.count item ≤ 1 := by
  obtain ⟨dropped, counts, _⟩ := conserved
  have distinct : queue.enqueued.Nodup := by
    apply List.Nodup.of_map GrammarWorkItem.enqueueSeq
    have both := stamped.distinct
    rw [map_append] at both
    exact both.of_append_right
  have once := nodup_iff_count_le_one.mp distinct item
  rw [counts] at once
  omega

theorem eq_of_enqueueSeq_eq (stamped : Stamped queue) {second : GrammarWorkItem}
    (isFirst : first ∈ queue.enqueued) (isSecond : second ∈ queue.enqueued)
    (same : first.enqueueSeq = second.enqueueSeq) : first = second :=
  inj_on_of_nodup_map stamped.distinct
    (mem_append_right _ isFirst) (mem_append_right _ isSecond) same

theorem conserved_of_same {queue next : GrammarWorkQueue}
    (conserved : Conserved queue) (sameRecord : next.enqueued = queue.enqueued)
    (sameCount : ∀ x, next.present.count x = queue.present.count x) :
    Conserved next := by
  obtain ⟨dropped, counts, newer⟩ := conserved
  refine ⟨dropped, fun x => ?_, ?_⟩
  · rw [sameRecord, sameCount]
    exact counts x
  · rw [sameRecord]
    exact newer

theorem conserved_of_dropped {queue next : GrammarWorkQueue} (conserved : Conserved queue)
    (sameRecord : next.enqueued = queue.enqueued) {old newer : GrammarWorkItem}
    (oneFewer : ∀ x, next.present.count x + [old].count x = queue.present.count x)
    (isNewer : newer ∈ queue.enqueued) (sameKey : newer.inflightKey = old.inflightKey)
    (later : old.enqueueSeq < newer.enqueueSeq) : Conserved next := by
  obtain ⟨dropped, counts, newerOf⟩ := conserved
  refine ⟨dropped ++ [old], fun x => ?_, fun item member => ?_⟩
  · rw [sameRecord, count_append, counts x, ← oneFewer x]
    omega
  · rw [sameRecord]
    rcases mem_append.mp member with early | last
    · exact newerOf item early
    · rw [mem_singleton.mp last]
      exact ⟨newer, isNewer, sameKey, later⟩

theorem present_setWorker (queue : GrammarWorkQueue) {i : ℕ}
    (there : queue.workers[i]? = some worker) (next : DrainWorker) (x : GrammarWorkItem) :
    (queue.setWorker i next).present.count x + (held worker).count x =
      queue.present.count x + (held next).count x := by
  have counted := count_held_set there next x
  simp only [present, setWorker, count_append]
  omega

theorem conserved_record (conserved : Conserved queue) {thread : ℕ} (item : GrammarWorkItem) :
    Conserved { queue with
      minted := queue.minted.eraseIdx thread
      recorded := queue.recorded ++ [item]
      latestSeq := queue.latestSeq.set item.inflightKey item.enqueueSeq
      enqueued := queue.enqueued ++ [item] } := by
  obtain ⟨dropped, counts, newer⟩ := conserved
  refine ⟨dropped, fun x => ?_, fun old member => ?_⟩
  · have before := counts x
    simp only [present, count_append] at before ⊢
    omega
  · obtain ⟨item', isItem, facts⟩ := newer old member
    exact ⟨item', mem_append_left _ isItem, facts⟩

theorem present_head (isFirst : queue.q = first :: rest) (x : GrammarWorkItem) :
    queue.present.count x = (present { queue with q := rest }).count x + [first].count x := by
  simp only [present, isFirst, count_append, count_head x first rest]
  omega

theorem shouldReplace_cases {existing : Option GrammarWorkItem} {incoming : GrammarWorkItem}
    (replaces : shouldReplaceForKey existing incoming = true) :
    existing = none ∨ ∃ old, existing = some old ∧ old.enqueueSeq < incoming.enqueueSeq := by
  cases existing with
  | none => exact .inl rfl
  | some old => exact .inr ⟨old, rfl, by simpa [shouldReplaceForKey] using replaces⟩

theorem conserved_replace (conserved : Conserved queue) (keyed : Keyed queue) {worker : ℕ}
    (isBatching : queue.workers[worker]? = some (.batching batch)) (isMore : queue.q = more :: rest)
    (replaces : shouldReplaceForKey (batch.get? more.inflightKey) more = true) :
    Conserved ({ queue with q := rest }.setWorker worker
      (.batching (batch.set more.inflightKey more))) := by
  have moved := present_setWorker { queue with q := rest } isBatching
    (.batching (batch.set more.inflightKey more))
  have head := present_head isMore
  rcases shouldReplace_cases replaces with absent | ⟨old, found, older⟩
  · have values : held (.batching (batch.set more.inflightKey more)) =
        held (.batching batch) ++ [more] := by
      simp [held, PyDict.set_entries_of_none absent]
    refine @conserved_of_same queue _ conserved rfl fun x => ?_
    have step := moved x
    rw [values, count_append] at step
    have before := head x
    omega
  · have isNewer : more ∈ queue.enqueued := by
      apply mem_enqueued_of_present conserved
      rw [head more]
      simp
    have sameKey : old.inflightKey = more.inflightKey :=
      keyed batch (mem_of_getElem? isBatching) _ (PyDict.get?_eq_some_iff.mp found)
    have swapped : ((batch.set more.inflightKey more).entries.map Prod.snd ++
          [old]).Perm (batch.entries.map Prod.snd ++ [more]) :=
      PyDict.values_set_perm found
    refine @conserved_of_dropped queue _ conserved rfl old more (fun x => ?_)
      isNewer sameKey.symm older
    have values := swapped.count_eq x
    have step := moved x
    have before := head x
    simp only [held, count_append] at values step
    omega

theorem conserved_keep (conserved : Conserved queue) (stamped : Stamped queue) (keyed : Keyed queue)
    {worker : ℕ} (isBatching : queue.workers[worker]? = some (.batching batch))
    (isMore : queue.q = more :: rest)
    (keeps : shouldReplaceForKey (batch.get? more.inflightKey) more = false) :
    Conserved ({ queue with q := rest }.setWorker worker (.batching batch)) := by
  have moved := present_setWorker { queue with q := rest } isBatching (.batching batch)
  have head := present_head isMore
  cases found : batch.get? more.inflightKey with
  | none =>
    rw [found] at keeps
    cases keeps
  | some kept =>
    have notOlder : more.enqueueSeq ≤ kept.enqueueSeq := by
      rw [found] at keeps
      simpa [shouldReplaceForKey] using keeps
    have isEntry := PyDict.get?_eq_some_iff.mp found
    have sameKey : kept.inflightKey = more.inflightKey :=
      keyed batch (mem_of_getElem? isBatching) _ isEntry
    have moreThere : more ∈ queue.enqueued := by
      apply mem_enqueued_of_present conserved
      rw [head more]
      simp
    have inHeld : 0 < (held (.batching batch)).count kept :=
      count_pos_iff.mpr (mem_map.mpr ⟨_, isEntry, rfl⟩)
    have inRest : (held (.batching batch)).count kept ≤
        (present { queue with q := rest }).count kept := by
      have taken := present_setWorker { queue with q := rest } isBatching .idle kept
      simp only [held, count_nil] at taken ⊢
      omega
    have keptThere : kept ∈ queue.enqueued := by
      apply mem_enqueued_of_present conserved
      rw [head kept]
      omega
    have older : more.enqueueSeq < kept.enqueueSeq := by
      apply Nat.lt_of_le_of_ne notOlder
      intro same
      have twice := eq_of_enqueueSeq_eq stamped moreThere keptThere same
      subst twice
      have once := count_present_le_one stamped conserved more
      rw [head more, count_singleton_self] at once
      omega
    refine @conserved_of_dropped queue _ conserved rfl more kept
      (fun x => ?_) keptThere sameKey older
    have step := moved x
    have before := head x
    omega

theorem conserved_setWorker (conserved : Conserved queue) {i : ℕ} {next : DrainWorker}
    (there : queue.workers[i]? = some worker)
    (sameHeld : ∀ x, (held next).count x = (held worker).count x) :
    Conserved (queue.setWorker i next) := by
  refine @conserved_of_same queue _ conserved rfl fun x => ?_
  have moved := present_setWorker queue there next x
  rw [sameHeld] at moved
  omega

theorem newer_of_isStale (from_ : FromEnqueued queue) (stale : queue.isStale item = true) :
    ∃ newer ∈ queue.enqueued, newer.inflightKey = item.inflightKey ∧
      item.enqueueSeq < newer.enqueueSeq := by
  unfold isStale inflightSuperseded at stale
  split at stale
  · rename_i latest found
    obtain ⟨newer, isNewer, sameKey, isLatest⟩ := from_ _ _ found
    have later : item.enqueueSeq < latest := of_decide_eq_true stale
    exact ⟨newer, isNewer, sameKey, isLatest ▸ later⟩
  · cases stale

theorem conserved_skip (conserved : Conserved queue) (from_ : FromEnqueued queue) {i : ℕ}
    {todo : List GrammarWorkItem} {groups : Groups}
    (isChecking : queue.workers[i]? = some (.checking (item :: todo) groups))
    (stale : queue.isStale item = true) :
    Conserved (queue.setWorker i (.checking todo groups)) := by
  obtain ⟨newer, isNewer, sameKey, later⟩ := newer_of_isStale from_ stale
  refine @conserved_of_dropped queue _ conserved rfl item newer (fun x => ?_) isNewer sameKey later
  have moved := present_setWorker queue isChecking (.checking todo groups) x
  simp only [held, cons_append, count_head x item (_ ++ _), count_append] at moved
  omega

theorem conserved_step (conserved : Conserved queue) (stamped : Stamped queue)
    (keyed : Keyed queue) (from_ : FromEnqueued queue) (steps : Steps queue action next) :
    Conserved next := by
  cases steps with
  | startWorker =>
    refine @conserved_of_same queue _ conserved rfl fun x => ?_
    simp [present, held]
  | mint text grammarBcp47 docId inflightKey =>
    exact @conserved_of_same queue _ conserved rfl fun _ => rfl
  | @record thread item there => exact conserved_record conserved item
  | @put thread item there =>
    refine @conserved_of_same queue _ conserved rfl fun x => ?_
    have moved := (eraseIdx_perm there).count_eq x
    rw [count_head] at moved
    simp only [present, count_append]
    omega
  | @get worker first rest isIdle isFirst =>
    refine @conserved_of_same queue _ conserved rfl fun x => ?_
    have moved := present_setWorker { queue with q := rest } isIdle
      (.batching (PyDict.empty.set first.inflightKey first)) x
    have head := present_head isFirst x
    have one : held (.batching (PyDict.empty.set first.inflightKey first)) = [first] := rfl
    rw [one] at moved
    simp only [held, count_nil] at moved
    omega
  | replace isBatching isMore replaces =>
    exact conserved_replace conserved keyed isBatching isMore replaces
  | keep isBatching isMore keeps =>
    exact conserved_keep conserved stamped keyed isBatching isMore keeps
  | close isBatching isEmpty =>
    apply conserved_setWorker conserved isBatching
    intro x
    simp [held, groupItems]
  | skip isChecking stale => exact conserved_skip conserved from_ isChecking stale
  | pass isChecking fresh =>
    apply conserved_setWorker conserved isChecking
    intro x
    simp only [held, count_append, cons_append, count_groupItems_append, count_head x _ (_ ++ _)]
    omega
  | checked isChecking =>
    apply conserved_setWorker conserved isChecking
    intro x
    simp [held]
  | @execute worker key items rest isExecuting =>
    refine @conserved_of_same queue _ conserved rfl fun x => ?_
    have moved := present_setWorker
      { queue with executed := queue.executed ++ [items] } isExecuting
      (.executing rest) x
    have one : (present
        { queue with executed := queue.executed ++ [items] }).count x =
          queue.present.count x + items.count x := by
      simp only [present, flatten_append, flatten_singleton, count_append]
      omega
    have whole : held (.executing ((key, items) :: rest)) = items ++ groupItems rest := rfl
    rw [whole, count_append] at moved
    simp only [held] at moved
    omega
  | executed isExecuting =>
    apply conserved_setWorker conserved isExecuting
    intro x
    simp [held, groupItems]

structure Valid (queue : GrammarWorkQueue) : Prop where
  stamped : Stamped queue
  keyed : Keyed queue
  fromEnqueued : FromEnqueued queue
  conserved : Conserved queue

theorem valid_init : Valid init where
  stamped := ⟨nodup_nil, nofun⟩
  keyed := nofun
  fromEnqueued := nofun
  conserved := ⟨[], fun _ => rfl, nofun⟩

theorem valid_step (valid : Valid queue) (steps : Steps queue action next) : Valid next where
  stamped := stamped_step valid.stamped steps
  keyed := keyed_step valid.keyed steps
  fromEnqueued := fromEnqueued_step valid.fromEnqueued steps
  conserved := conserved_step valid.conserved valid.stamped valid.keyed valid.fromEnqueued steps

theorem valid_of_reaches {condition : GrammarWorkQueue → Action → Prop}
    {final : GrammarWorkQueue} {run : List Action} (valid : Valid queue)
    (reaches : Reaches step condition queue run final) : Valid final :=
  reaches.invariant Valid (fun _ _ _ valid _ taken => valid_step valid (steps_of_step taken)) valid

def groupsOf : DrainWorker → Groups
  | .checking _ groups | .executing groups => groups
  | _ => []

/-- Some jobs, all of the document and the locale of the group. -/
def WellGrouped (group : (Text × Text) × List GrammarWorkItem) : Prop :=
  group.2 ≠ [] ∧ ∀ item ∈ group.2, (item.docId, item.grammarBcp47) = group.1

def Grouped (queue : GrammarWorkQueue) : Prop :=
  (∀ worker ∈ queue.workers, ∀ group ∈ groupsOf worker, WellGrouped group) ∧
    ∀ batch ∈ queue.executed, ∃ key, WellGrouped (key, batch)

theorem wellGrouped_append {groups : Groups} (grouped : ∀ group ∈ groups, WellGrouped group) :
    ∀ group ∈ appendToGroup item groups, WellGrouped group := by
  induction groups with
  | nil =>
    intro group member
    rw [mem_singleton.mp member]
    exact ⟨cons_ne_nil _ _, fun _ inGroup => by rw [mem_singleton.mp inGroup]⟩
  | cons first rest ih =>
    obtain ⟨here, others⟩ := forall_mem_cons.mp grouped
    unfold appendToGroup
    split_ifs with same
    · refine forall_mem_cons.mpr ⟨⟨by simp, fun other inGroup => ?_⟩, others⟩
      rcases mem_append.mp inGroup with old | new
      · exact here.2 other old
      · rw [mem_singleton.mp new]
        exact same.symm
    · exact forall_mem_cons.mpr ⟨here, ih others⟩

theorem grouped_setWorker {worker : DrainWorker} {i : ℕ} (grouped : Grouped queue)
    (new : ∀ group ∈ groupsOf worker, WellGrouped group) : Grouped (queue.setWorker i worker) := by
  refine ⟨fun other member => ?_, grouped.2⟩
  rcases mem_or_eq_of_mem_set member with old | isNew
  · exact grouped.1 other old
  · exact isNew ▸ new

theorem grouped_step (grouped : Grouped queue) (steps : Steps queue action next) :
    Grouped next := by
  have nothing : ∀ group ∈ ([] : Groups), WellGrouped group :=
    fun _ member => absurd member not_mem_nil
  cases steps with
  | startWorker =>
    exact ⟨forall_mem_append.mpr ⟨grouped.1, forall_mem_singleton.mpr nothing⟩, grouped.2⟩
  | mint | record | put => exact grouped
  | get | replace | keep | close | executed =>
    refine grouped_setWorker ?_ nothing
    exact grouped
  | skip isChecking | checked isChecking =>
    have checked := grouped.1 _ (mem_of_getElem? isChecking)
    exact grouped_setWorker grouped checked
  | pass isChecking =>
    have checked := grouped.1 _ (mem_of_getElem? isChecking)
    exact grouped_setWorker grouped (wellGrouped_append checked)
  | execute isExecuting =>
    obtain ⟨first, rest⟩ := forall_mem_cons.mp (grouped.1 _ (mem_of_getElem? isExecuting))
    refine grouped_setWorker ⟨grouped.1, ?_⟩ rest
    exact forall_mem_append.mpr ⟨grouped.2, forall_mem_singleton.mpr ⟨_, first⟩⟩

/-- **Every job is accounted for.** Whatever the order of the stamps, a job is
handed over once at most, it is on its way or handed over unless a newer one of
its key was enqueued, and a batch holds jobs of one document and one locale. -/
theorem jobs_accounted {run : List Action}
    (reaches : Reaches step (fun _ _ => True) init run queue) :
    (∀ item, queue.executed.flatten.count item ≤ 1) ∧
      (∀ item ∈ queue.enqueued, item ∈ queue.present ∨ ∃ newer ∈ queue.enqueued,
        newer.inflightKey = item.inflightKey ∧ item.enqueueSeq < newer.enqueueSeq) ∧
      ∀ batch ∈ queue.executed, ∃ key, WellGrouped (key, batch) := by
  have valid := valid_of_reaches valid_init reaches
  have grouped : Grouped queue := reaches.invariant Grouped
    (fun _ _ _ grouped _ taken => grouped_step grouped (steps_of_step taken))
    ⟨fun _ member => absurd member not_mem_nil, fun _ member => absurd member not_mem_nil⟩
  refine ⟨fun item => ?_, fun item isItem => ?_, grouped.2⟩
  · apply (Nat.le_trans ?_ (count_present_le_one valid.stamped valid.conserved item))
    rw [present, count_append]
    exact Nat.le_add_left _ _
  · obtain ⟨dropped, counts, newer⟩ := valid.conserved
    by_cases isPresent : item ∈ queue.present
    · exact .inl isPresent
    · right
      apply newer item
      have enqueuedOnce := count_pos_iff.mpr isItem
      rwa [counts, count_eq_zero.mpr isPresent, Nat.zero_add, count_pos_iff] at enqueuedOnce

/-- The stamps of a draft and its successor are recorded in the other order. -/
theorem jobs_accounted_swapped : ∃ queue : GrammarWorkQueue, queue.executed.flatten.length = 1 ∧
    ∀ batch ∈ queue.executed, ∃ key, WellGrouped (key, batch) := by
  obtain ⟨queue, reaches, one⟩ : ∃ queue, Reaches step (fun _ _ => True) init [.startWorker,
      .mint ['a'] ['b'] ['c'] ['d'], .mint ['e'] ['b'] ['c'] ['d'], .record 1, .record 0, .put 0,
      .get 0, .close 0, .check 0, .check 0, .execute 0] queue ∧
        queue.executed.flatten.length = 1 :=
    ⟨_, Reaches.of_follow rfl, rfl⟩
  exact ⟨queue, one, (jobs_accounted reaches).2.2⟩

end WriterAgent.Locale.GrammarWorkQueue
