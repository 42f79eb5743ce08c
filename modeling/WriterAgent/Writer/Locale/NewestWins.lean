import WriterAgent.Writer.Locale.QueueConservation

/-!
# Newest wins in the grammar queue

The item with the last stamp of its key is handed over exactly once.
-/

namespace WriterAgent.Locale.GrammarWorkQueue

open PyText List

/-- `record_enqueue_latest` has nothing to report. -/
def InOrder (queue : GrammarWorkQueue) : Action → Prop
  | .record thread => ∀ item ∈ queue.minted[thread]?,
      (recordEnqueueLatest queue.latestSeq item).2.1 = false
  | _ => True

instance (queue : GrammarWorkQueue) (action : Action) : Decidable (InOrder queue action) := by
  cases action <;> unfold InOrder <;> infer_instance

/-- No enqueued item is newer than what the map has for its key. -/
def LatestMax (queue : GrammarWorkQueue) : Prop :=
  ∀ item ∈ queue.enqueued, ∃ latest, queue.latestSeq.get? item.inflightKey = some latest ∧
      item.enqueueSeq ≤ latest

variable {queue next : GrammarWorkQueue} {item : GrammarWorkItem}
  {action : Action} {worker : DrainWorker}

theorem le_of_inOrder {thread latest : ℕ} (inOrder : InOrder queue (.record thread))
    (there : queue.minted[thread]? = some item)
    (found : queue.latestSeq.get? item.inflightKey = some latest) :
    latest ≤ item.enqueueSeq := by
  have quiet := inOrder item there
  simp only [recordEnqueueLatest, found, decide_eq_false_iff_not] at quiet
  omega

theorem latestMax_step (latestMax : LatestMax queue)
    (inOrder : InOrder queue action) (steps : Steps queue action next) :
    LatestMax next := by
  intro item isItem
  rcases steps_frame steps with ⟨sameMap, sameRecord⟩ |
    ⟨thread, last, rfl, there, newMap, newRecord⟩
  · rw [sameRecord] at isItem
    rw [sameMap]
    exact latestMax item isItem
  · rw [newRecord] at isItem
    rw [newMap, PyDict.get?_set]
    rcases mem_append.mp isItem with old | isLast
    · obtain ⟨latest, found, bound⟩ := latestMax item old
      split
      · rename_i sameKey
        rw [sameKey] at found
        exact ⟨_, rfl, bound.trans (le_of_inOrder inOrder there found)⟩
      · exact ⟨latest, found, bound⟩
    · cases mem_singleton.mp isLast
      exact ⟨_, if_pos rfl, Nat.le_refl _⟩

def NewestPasses (queue : GrammarWorkQueue) : Prop :=
  ∀ (worker : ℕ) (item : GrammarWorkItem) (todo : List GrammarWorkItem) (groups : Groups),
    queue.workers[worker]? = some (.checking (item :: todo) groups) →
    queue.isStale item = false →
    ∀ other ∈ queue.enqueued, other.inflightKey = item.inflightKey →
      other.enqueueSeq ≤ item.enqueueSeq

theorem newestPasses_of_latestMax (latestMax : LatestMax queue) : NewestPasses queue := by
  intro worker item todo groups _ fresh other isOther sameKey
  obtain ⟨latest, found, bound⟩ := latestMax other isOther
  rw [sameKey] at found
  simp only [isStale, inflightSuperseded, found,
    decide_eq_false_iff_not] at fresh
  omega

/-- The steps of an enqueue that has its stamp recorded and of the workers. -/
def Action.isWorking : Action → Bool
  | .startWorker => false
  | .mint _ _ _ _ => false
  | .record _ => false
  | _ => true

def workOf : DrainWorker → ℕ
  | .idle => 0
  | .batching batchByKey => 2 * batchByKey.entries.length + 3
  | .checking todo groups => 2 * todo.length + groups.length + 2
  | .executing groups => groups.length + 1

def work (queue : GrammarWorkQueue) : ℕ :=
  7 * queue.recorded.length + 6 * queue.q.length + (queue.workers.map workOf).sum

theorem work_setWorker (queue : GrammarWorkQueue) {i : ℕ}
    (there : queue.workers[i]? = some worker) (next : DrainWorker) :
    (queue.setWorker i next).work + workOf worker = queue.work + workOf next := by
  obtain ⟨inRange, isThere⟩ := List.getElem?_eq_some_iff.mp there
  have after := ((set_perm_cons_eraseIdx inRange next).map workOf).sum_nat
  have before := ((eraseIdx_perm there).map workOf).sum_nat
  simp only [map_cons, sum_cons] at after before
  simp only [work, setWorker]
  omega

theorem length_set_le (batch : PyDict Text GrammarWorkItem) (key : Text) (item : GrammarWorkItem) :
    (batch.set key item).entries.length ≤ batch.entries.length + 1 := by
  cases found : batch.get? key with
  | none => simp [PyDict.set_entries_of_none found]
  | some old =>
    have swapped : ((batch.set key item).entries.map Prod.snd ++
        [old]).Perm (batch.entries.map Prod.snd ++ [item]) :=
      PyDict.values_set_perm found
    have sameLength := swapped.length_eq
    simp only [length_append, length_map] at sameLength
    simp only [length_singleton] at sameLength
    omega

theorem length_appendToGroup_le (item : GrammarWorkItem) (groups : Groups) :
    (appendToGroup item groups).length ≤ groups.length + 1 := by
  induction groups with
  | nil => exact Nat.le_refl _
  | cons group rest ih =>
    unfold appendToGroup
    split
    · exact Nat.le_succ _
    · simp only [length_cons]
      omega

theorem work_lt_of_step (isWorking : action.isWorking = true)
    (steps : Steps queue action next) : next.work < queue.work := by
  cases steps with
  | startWorker | mint | record => cases isWorking
  | put there =>
    have fewer := (eraseIdx_perm there).length_eq
    simp only [length_cons] at fewer
    simp only [work, length_append, length_singleton]
    omega
  | @get worker first rest isIdle isFirst =>
    have moved := work_setWorker { queue with q := rest } isIdle
      (.batching (PyDict.empty.set first.inflightKey first))
    have one : workOf (.batching (PyDict.empty.set first.inflightKey first)) = 5 := rfl
    rw [one] at moved
    simp only [work, workOf, isFirst, length_cons] at moved ⊢
    omega
  | @replace worker batch more rest isBatching isMore replaces =>
    have moved := work_setWorker { queue with q := rest } isBatching
      (.batching (batch.set more.inflightKey more))
    have length := length_set_le batch more.inflightKey more
    simp only [workOf] at moved
    simp only [work, isMore, length_cons] at moved ⊢
    omega
  | @keep worker batch more rest isBatching isMore keeps =>
    have moved := work_setWorker { queue with q := rest } isBatching (.batching batch)
    simp only [work, isMore, length_cons] at moved ⊢
    omega
  | @close worker batch isBatching isEmpty =>
    have moved := work_setWorker queue isBatching (.checking (batch.entries.map Prod.snd) [])
    simp only [workOf, length_map, length_nil] at moved
    omega
  | @skip worker item todo groups isChecking stale =>
    have moved := work_setWorker queue isChecking (.checking todo groups)
    simp only [workOf, length_cons] at moved
    omega
  | @pass worker item todo groups isChecking fresh =>
    have moved := work_setWorker queue isChecking (.checking todo (appendToGroup item groups))
    have length := length_appendToGroup_le item groups
    simp only [workOf, length_cons] at moved
    omega
  | @checked worker groups isChecking =>
    have moved := work_setWorker queue isChecking (.executing groups)
    simp only [workOf, length_nil] at moved
    omega
  | @execute worker key items rest isExecuting =>
    have moved := work_setWorker
      { queue with executed := queue.executed ++ [items] } isExecuting
      (.executing rest)
    simp only [workOf, length_cons] at moved
    simp only [work] at moved ⊢
    omega
  | executed isExecuting =>
    have moved := work_setWorker queue isExecuting .idle
    simp only [workOf, length_nil] at moved
    omega

def Quiescent (queue : GrammarWorkQueue) : Prop :=
  ∀ action : Action, action.isWorking = true → step queue action = none

theorem idle_of_quiescent (quiescent : Quiescent queue)
    (isWorker : worker ∈ queue.workers) : worker = .idle := by
  obtain ⟨i, there⟩ := mem_iff_getElem?.mp isWorker
  cases worker with
  | idle => rfl
  | batching batch =>
    cases rest : queue.q with
    | nil =>
      have stuck := quiescent (.close i) rfl
      simp only [step, there, rest] at stuck
      cases stuck
    | cons more rest' =>
      have stuck := quiescent (.more i) rfl
      simp only [step, there, rest] at stuck
      cases stuck
  | checking todo groups =>
    have stuck := quiescent (.check i) rfl
    simp only [step, there] at stuck
    cases todo with
    | nil | cons => cases stuck
  | executing groups =>
    have stuck := quiescent (.execute i) rfl
    simp only [step, there] at stuck
    cases groups with
    | nil | cons => cases stuck

theorem recorded_of_quiescent (quiescent : Quiescent queue) : queue.recorded = [] := by
  cases waiting : queue.recorded with
  | nil => rfl
  | cons item rest =>
    have stuck := quiescent (.put 0) rfl
    simp only [step, waiting] at stuck
    cases stuck

theorem q_of_quiescent (quiescent : Quiescent queue)
    (hasWorker : queue.workers ≠ []) : queue.q = [] := by
  cases workers : queue.workers with
  | nil => exact absurd workers hasWorker
  | cons worker others =>
    have isIdle : worker = .idle := by
      apply idle_of_quiescent quiescent
      rw [workers]
      exact mem_cons_self
    cases queued : queue.q with
    | nil => rfl
    | cons first rest =>
      have stuck := quiescent (.get 0) rfl
      simp only [step, workers, isIdle, queued] at stuck
      cases stuck

theorem present_of_quiescent (quiescent : Quiescent queue) (hasWorker : queue.workers ≠ []) :
    queue.present = queue.executed.flatten := by
  have nothingHeld : queue.workers.flatMap held = [] := by
    apply flatMap_eq_nil_iff.mpr
    intro worker isWorker
    rw [idle_of_quiescent quiescent isWorker]
    rfl
  simp only [present, recorded_of_quiescent quiescent,
    q_of_quiescent quiescent hasWorker, nothingHeld, nil_append]

/-- The item with the highest stamp among the enqueued ones of its key. -/
def IsTop (queue : GrammarWorkQueue) (item : GrammarWorkItem) : Prop :=
  item ∈ queue.enqueued ∧ ∀ other ∈ queue.enqueued, other.inflightKey = item.inflightKey →
      other.enqueueSeq ≤ item.enqueueSeq

theorem count_present_of_isTop (valid : Valid queue)
    (isTop : IsTop queue item) : queue.present.count item = 1 := by
  obtain ⟨isItem, highest⟩ := isTop
  have atMost := count_present_le_one valid.stamped valid.conserved item
  obtain ⟨dropped, counts, newer⟩ := valid.conserved
  have notDropped : dropped.count item = 0 := by
    apply count_eq_zero.mpr
    intro isDropped
    obtain ⟨other, isOther, sameKey, later⟩ := newer item isDropped
    have bound := highest other isOther sameKey
    omega
  have enqueuedOnce := count_pos_iff.mpr isItem
  rw [counts] at enqueuedOnce
  omega

abbrev Works (run : List Action) (queue final : GrammarWorkQueue) : Prop :=
  Reaches step (fun _ action => action.isWorking = true) queue run final

/-- Working steps can be taken until nothing is left to do, whichever are
taken they come to an end, and then the newest item of every key has been
handed over exactly once. -/
structure DeliversTops (queue : GrammarWorkQueue) : Prop where
  finishes : ∃ run final, Works run queue final ∧ Quiescent final
  bounded : ∀ run final, Works run queue final → run.length ≤ queue.work
  once : ∀ run final, Works run queue final → final.workers ≠ [] →
    Quiescent final → ∀ item, IsTop final item → final.executed.flatten.count item = 1

theorem deliversTops_of_valid (valid : Valid queue) : DeliversTops queue := by
  have lowers : ∀ (state : GrammarWorkQueue) (action : Action)
      (next : GrammarWorkQueue), action.isWorking = true →
      step state action = some next → next.work < state.work :=
    fun _ _ _ isWorking taken =>
      work_lt_of_step isWorking (steps_of_step taken)
  constructor
  · exact Reaches.exists_stuck work lowers queue
  · intro run final works
    exact works.length_le work lowers
  · intro run final works hasWorker quiescent item isTop
    rw [← present_of_quiescent quiescent hasWorker]
    exact count_present_of_isTop (valid_of_reaches valid works) isTop

theorem latestMax_of_reaches {run : List Action}
    (reaches : Reaches step InOrder init run queue) : LatestMax queue :=
  reaches.invariant LatestMax (fun _ _ _ latestMax inOrder taken =>
      latestMax_step latestMax inOrder (steps_of_step taken))
    fun _ isItem => (not_mem_nil isItem).elim

/-- Newest wins in every run that records the stamps of each key in order. -/
theorem run_newest {queue : GrammarWorkQueue} {run : List Action}
    (reaches : Reaches step InOrder init run queue) :
    NewestPasses queue ∧ DeliversTops queue :=
  ⟨newestPasses_of_latestMax (latestMax_of_reaches reaches),
    deliversTops_of_valid (valid_of_reaches valid_init reaches)⟩

/-- A draft and its successor, with a worker about to check the first. -/
theorem run_newest_superseded_draft : ∃ queue, Reaches step InOrder init [.startWorker,
        .mint "He go".toList "en-US".toList "doc".toList "doc|en-US".toList,
        .record 0, .put 0, .get 0, .close 0,
        .mint "He goes".toList "en-US".toList "doc".toList "doc|en-US".toList,
        .record 0] queue ∧
      queue.enqueued.length = 2 ∧ NewestPasses queue ∧ DeliversTops queue := by
  obtain ⟨queue, reaches, enqueuedTwo⟩ : ∃ queue, Reaches step InOrder init
        [.startWorker, .mint "He go".toList "en-US".toList "doc".toList "doc|en-US".toList,
          .record 0, .put 0, .get 0, .close 0,
          .mint "He goes".toList "en-US".toList "doc".toList "doc|en-US".toList,
          .record 0] queue ∧ queue.enqueued.length = 2 :=
    ⟨_, Reaches.of_follow rfl, rfl⟩
  exact ⟨queue, reaches, enqueuedTwo, run_newest reaches⟩

/-- Two threads enqueue in the other order than they took their stamps: the
second takes the map back, and its draft passes after the newer one. -/
theorem run_newest_swapped : ∃ queue, Reaches step (fun _ _ => True) init [.startWorker,
        .mint "He go".toList "en-US".toList "doc".toList "doc|en-US".toList,
        .mint "He goes".toList "en-US".toList "doc".toList "doc|en-US".toList,
        .record 1, .put 0, .get 0, .close 0, .check 0, .check 0, .execute 0,
        .execute 0, .record 0, .put 0, .get 0, .close 0] queue ∧
      queue.executed.flatten.map GrammarWorkItem.enqueueSeq = [2] ∧
      ¬NewestPasses queue := by
  refine ⟨_, Reaches.of_follow rfl, rfl, fun newest => ?_⟩
  have wrong := newest 0 ⟨"He go".toList, "en-US".toList, "doc".toList, "doc|en-US".toList, 1⟩ [] []
    rfl (by decide)
    ⟨"He goes".toList, "en-US".toList, "doc".toList, "doc|en-US".toList, 2⟩
    (by decide) rfl
  exact absurd wrong (by decide)

end WriterAgent.Locale.GrammarWorkQueue
