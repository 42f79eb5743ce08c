import Mathlib
import WriterAgent.Foundations.Dict
import WriterAgent.Foundations.Runs
import WriterAgent.Foundations.Text

/-!
# The grammar work queue

`plugin/writer/locale/grammar_work_queue.py`: threads mint stamps and enqueue
work items, and drain workers collect batches, drop what is superseded and
hand the rest to the language model.
-/

namespace WriterAgent.Locale

open PyText

/-- A queued grammar job, with the fields the queue reads. -/
structure GrammarWorkItem where
  text : Text
  grammarBcp47 : Text
  docId : Text
  inflightKey : Text
  enqueueSeq : ℕ
  deriving DecidableEq, Repr

abbrev LatestSeq := PyDict Text ℕ

/-- The new map, whether the stamp was out of order, and the stamp before it
then. -/
def recordEnqueueLatest (prev : LatestSeq) (item : GrammarWorkItem) : LatestSeq × Bool × Option ℕ :=
  let key := item.inflightKey
  let prevSeq := prev.get? key
  let outOfOrder := match prevSeq with
    | some seq => decide (item.enqueueSeq < seq)
    | none => false
  (prev.set key item.enqueueSeq, outOfOrder,
    if outOfOrder then prevSeq else none)

def inflightSuperseded (latestSeq : LatestSeq) (inflightKey : Text) (enqueueSeq : ℕ) : Bool :=
  match latestSeq.get? inflightKey with
  | some latest => decide (enqueueSeq < latest)
  | none => false

def shouldReplaceForKey (existing : Option GrammarWorkItem) (incoming : GrammarWorkItem) : Bool :=
  match existing with
  | none => true
  | some existing => decide (existing.enqueueSeq < incoming.enqueueSeq)

/-- The items that passed the stale check, by document and locale. -/
abbrev Groups := List ((Text × Text) × List GrammarWorkItem)

/-- `groups[(item.doc_id, item.grammar_bcp47)].append(item)`. -/
def appendToGroup (item : GrammarWorkItem) : Groups → Groups
  | [] => [((item.docId, item.grammarBcp47), [item])]
  | (key, items) :: rest =>
    if key = (item.docId, item.grammarBcp47) then
      (key, items ++ [item]) :: rest
    else (key, items) :: appendToGroup item rest

/-- Where a worker is in `_drain_loop`: waiting for a first item, collecting a
batch, checking the items of a batch in `filter_stale_and_group`, or handing
over the groups. -/
inductive DrainWorker where
  | idle
  | batching (batchByKey : PyDict Text GrammarWorkItem)
  | checking (todo : List GrammarWorkItem) (groups : Groups)
  | executing (groups : Groups)

/-- The queue with everything on its way: the last stamp minted, the items
that a thread has stamped, those that are in the map but not yet put, the
queue itself, the map and the workers; and, for the record, every item
enqueued and every batch handed to the model. -/
structure GrammarWorkQueue where
  counter : ℕ
  minted : List GrammarWorkItem
  recorded : List GrammarWorkItem
  q : List GrammarWorkItem
  latestSeq : LatestSeq
  workers : List DrainWorker
  enqueued : List GrammarWorkItem
  executed : List (List GrammarWorkItem)

namespace GrammarWorkQueue

def init : GrammarWorkQueue := ⟨0, [], [], [], .empty, [], [], []⟩

def isStale (queue : GrammarWorkQueue) (item : GrammarWorkItem) : Bool :=
  inflightSuperseded queue.latestSeq item.inflightKey item.enqueueSeq

/-- What can happen: a worker is started; a thread stamps an item, takes the
lock of `enqueue` or puts its item; or a worker goes on. -/
inductive Action where
  | startWorker
  | mint (text grammarBcp47 docId inflightKey : Text)
  | record (thread : ℕ)
  | put (thread : ℕ)
  | get (worker : ℕ)
  | more (worker : ℕ)
  | close (worker : ℕ)
  | check (worker : ℕ)
  | execute (worker : ℕ)
  deriving DecidableEq

def setWorker (queue : GrammarWorkQueue) (i : ℕ) (worker : DrainWorker) :
    GrammarWorkQueue :=
  { queue with workers := queue.workers.set i worker }

def step (queue : GrammarWorkQueue) : Action → Option GrammarWorkQueue
  | .startWorker => some { queue with workers := queue.workers ++ [.idle] }
  | .mint text grammarBcp47 docId inflightKey =>
    some { queue with
      counter := queue.counter + 1
      minted := queue.minted ++ [⟨text, grammarBcp47, docId, inflightKey, queue.counter + 1⟩] }
  | .record thread =>
    match queue.minted[thread]? with
    | some item =>
      some { queue with
        minted := queue.minted.eraseIdx thread
        recorded := queue.recorded ++ [item]
        latestSeq := (recordEnqueueLatest queue.latestSeq item).1
        enqueued := queue.enqueued ++ [item] }
    | none => none
  | .put thread =>
    match queue.recorded[thread]? with
    | some item =>
      some { queue with
        recorded := queue.recorded.eraseIdx thread
        q := queue.q ++ [item] }
    | none => none
  | .get worker =>
    match queue.workers[worker]?, queue.q with
    | some .idle, first :: rest =>
      some ({ queue with q := rest }.setWorker worker
        (.batching (PyDict.empty.set first.inflightKey first)))
    | _, _ => none
  | .more worker =>
    match queue.workers[worker]?, queue.q with
    | some (.batching batchByKey), more :: rest =>
      let prev := batchByKey.get? more.inflightKey
      some ({ queue with q := rest }.setWorker worker
        (.batching (if shouldReplaceForKey prev more then
            batchByKey.set more.inflightKey more
          else batchByKey)))
    | _, _ => none
  | .close worker =>
    -- the wait for more ends only while the queue is empty
    match queue.workers[worker]?, queue.q with
    | some (.batching batchByKey), [] =>
      some (queue.setWorker worker (.checking (batchByKey.entries.map Prod.snd) []))
    | _, _ => none
  | .check worker =>
    match queue.workers[worker]? with
    | some (.checking (item :: todo) groups) =>
      some (queue.setWorker worker (.checking todo (if queue.isStale item then groups
            else appendToGroup item groups)))
    | some (.checking [] groups) => some (queue.setWorker worker (.executing groups))
    | _ => none
  | .execute worker =>
    match queue.workers[worker]? with
    | some (.executing ((_, items) :: rest)) =>
      some ({ queue with executed := queue.executed ++ [items] }.setWorker worker (.executing rest))
    | some (.executing []) => some (queue.setWorker worker .idle)
    | _ => none

end GrammarWorkQueue

end WriterAgent.Locale
