import Pynixd.Protocol.BuildResult

/-!
# One build of the queue

`QueuedBuild` of `pynixd/build_queue.py`, with the parts of `BuildQueue` that touch one
build: who holds it, who streams its log, and the future that every waiter shares.

* `QueuedBuild.settle` — the only way the queue resolves a future: **the first answer
  stays**;
* `addSubscriber`, `removeSubscriber` — the count of each client's subscriptions;
* `unsubscribe`, `release` — the two ways the queue ends a build on its own: its last
  stream is closed, or its last goal request lets go.
-/

namespace Pynixd.Queue

abbrev BuildId := Nat

abbrev RequestId := Nat

/-- A client connection, by its identity. -/
abbrev ClientConn := Nat

/-- `BuildDerivationResponse`, as far as the queue and its waiters read it. -/
structure BuildResponse where
  status : Int
  errorMsg : String
  deriving DecidableEq, Repr

/-- The failure that `fail` and `_cancel_locked` put together. -/
def BuildResponse.miscFailure (errorMsg : String) : BuildResponse :=
  ⟨BuildResultStatus.miscFailure.value, errorMsg⟩

/-- `asyncio.Future[BuildDerivationResponse]`. -/
inductive Future where
  | pending
  | resolved (response : BuildResponse)
  | cancelled
  deriving DecidableEq, Repr

def Future.done : Future → Bool
  | pending => false
  | resolved _ => true
  | cancelled => true

structure Options where
  keepGoing : Bool
  maxBuildJobs : Nat
  deriving DecidableEq, Repr

structure QueuedBuild where
  buildId : BuildId
  drvPath : String
  future : Future
  options : Option Options
  fromGoalPath : Bool
  holders : Finset RequestId
  schedulerRequestIds : Finset RequestId
  subscribers : List ClientConn
  /-- `_subscriber_refs`: how many subscriptions each client has. -/
  subscriberRefs : List (ClientConn × Nat)
  cancelWhenUnsubscribed : Bool
  /-- The scope of the worker that runs the build. -/
  worker : Option Nat
  retries : Nat
  startedAt : Option Nat
  storeFailures : List (String × Nat)
  deriving DecidableEq

namespace QueuedBuild

def new (buildId : BuildId) (drvPath : String) (options : Option Options)
    (schedulerRequestIds : Finset RequestId) (fromGoalPath : Bool) : QueuedBuild where
  buildId := buildId
  drvPath := drvPath
  future := .pending
  options := options
  fromGoalPath := fromGoalPath
  holders := ∅
  schedulerRequestIds := schedulerRequestIds
  subscribers := []
  subscriberRefs := []
  cancelWhenUnsubscribed := false
  worker := none
  retries := 0
  startedAt := none
  storeFailures := []

def isDone (b : QueuedBuild) : Bool := b.future.done

def isBuilding (b : QueuedBuild) : Bool := b.worker.isSome

def isPending (b : QueuedBuild) : Bool := !b.isBuilding && !b.isDone

/-! ## The future -/

/-- `set_result`, behind the `done` check that every caller makes. -/
def settle (b : QueuedBuild) (response : BuildResponse) : QueuedBuild :=
  if b.isDone then b else { b with future := .resolved response }

def cancelFuture (b : QueuedBuild) : QueuedBuild :=
  if b.isDone then b else { b with future := .cancelled }

/-- `worker_ended`: a retry may already run a newer worker. -/
def workerEnded (b : QueuedBuild) (scope : Nat) : QueuedBuild :=
  if b.worker = some scope then { b with worker := none } else b

def resetForRetry (b : QueuedBuild) (failedStoreId : String) : QueuedBuild :=
  { b with
    retries := b.retries + 1
    startedAt := none
    worker := none
    storeFailures := Dict.set b.storeFailures failedStoreId
      ((Dict.get? b.storeFailures failedStoreId).getD 0 + 1) }

/-! ## Streams -/

/-- `add_subscriber`.  A client that is there counts once more; a new one is there after
its replay, unless the replay fails. -/
def addSubscriber (b : QueuedBuild) (client : ClientConn) (cancelOnUnsubscribe replayed : Bool) :
    QueuedBuild :=
  let b := { b with cancelWhenUnsubscribed := b.cancelWhenUnsubscribed || cancelOnUnsubscribe }
  match Dict.get? b.subscriberRefs client with
  | some count => { b with subscriberRefs := Dict.set b.subscriberRefs client (count + 1) }
  | none =>
    if replayed then
      { b with
        subscribers := b.subscribers ++ [client]
        subscriberRefs := Dict.set b.subscriberRefs client 1 }
    else b

/-- `remove_subscriber`: whether a subscription was there, and the build without it. -/
def removeSubscriber (b : QueuedBuild) (client : ClientConn) : Bool × QueuedBuild :=
  match Dict.get? b.subscriberRefs client with
  | none => (false, b)
  | some count =>
    if 1 < count then
      (true, { b with subscriberRefs := Dict.set b.subscriberRefs client (count - 1) })
    else
      (true, { b with
        subscriberRefs := Dict.pop b.subscriberRefs client
        subscribers := b.subscribers.erase client })

/-- The text of a build that ends with its last stream. -/
def allDisconnected : String := "pynixd: build cancelled because all clients disconnected"

/-- The text of a build that ends with its last holder. -/
def noGoalWaits : String := "pynixd: build cancelled because no goal waits for it"

/-- `BuildQueue.unsubscribe`, for the build it finds: the build of a client that hung up
ends with its last stream. -/
def unsubscribe (b : QueuedBuild) (client : ClientConn) : QueuedBuild :=
  let (removed, b) := b.removeSubscriber client
  if removed && b.cancelWhenUnsubscribed && b.subscribers.isEmpty then
    b.settle (.miscFailure allDisconnected)
  else b

def waitsForSomebodyElsesBuild (b : QueuedBuild) : Bool :=
  !b.subscribers.isEmpty || b.startedAt.isSome

/-! ## Holds -/

/-- `_hold_locked`, for the build. -/
def hold (b : QueuedBuild) (request : RequestId) : QueuedBuild :=
  { b with holders := insert request b.holders }

/-- The body of `release_request`, for one build the request holds. -/
def release (b : QueuedBuild) (request : RequestId) : QueuedBuild :=
  let b := { b with
    holders := b.holders.erase request
    schedulerRequestIds := b.schedulerRequestIds.erase request }
  if b.holders = ∅ then b.settle (.miscFailure noGoalWaits) else b

/-! ## What the operations do to the future -/

theorem settle_future (b : QueuedBuild) (r : BuildResponse) :
    (b.settle r).future = if b.isDone then b.future else .resolved r := by
  unfold settle
  split_ifs <;> rfl

theorem isDone_settle (b : QueuedBuild) (r : BuildResponse) : (b.settle r).isDone = true := by
  unfold settle
  split_ifs with h
  · exact h
  · rfl

variable {c client : ClientConn} {b : QueuedBuild}

theorem future_eq_pending (h : b.isDone = false) : b.future = .pending := by
  cases hf : b.future with
  | pending => rfl
  | resolved r => simp [isDone, hf, Future.done] at h
  | cancelled => simp [isDone, hf, Future.done] at h

theorem addSubscriber_future (b : QueuedBuild) (client : ClientConn) (c r : Bool) :
    (b.addSubscriber client c r).future = b.future := by
  simp only [addSubscriber]
  split
  · rfl
  · split_ifs <;> rfl

theorem removeSubscriber_future (b : QueuedBuild) (client : ClientConn) :
    (b.removeSubscriber client).2.future = b.future := by
  unfold removeSubscriber
  split
  · rfl
  · split_ifs <;> rfl

theorem unsubscribe_future (b : QueuedBuild) (client : ClientConn) :
    (b.unsubscribe client).future = b.future ∨
      b.future = .pending ∧
        (b.unsubscribe client).future = .resolved (.miscFailure allDisconnected) := by
  have hkeep := removeSubscriber_future b client
  simp only [unsubscribe]
  split_ifs
  · rw [settle_future, isDone, hkeep]
    cases b.future <;> simp [Future.done]
  · exact .inl hkeep

theorem release_future (b : QueuedBuild) (request : RequestId) :
    (b.release request).future = b.future ∨
      b.future = .pending ∧ (b.release request).future = .resolved (.miscFailure noGoalWaits) := by
  simp only [release]
  split_ifs
  · rw [settle_future]
    cases b.future <;> simp [isDone, Future.done]
  · exact .inl rfl

/-! ## Who streams the log -/

/-- **The list of subscribers and the count of their subscriptions agree**: a client is
listed once, and exactly while it has a subscription. -/
structure StreamsAgree (b : QueuedBuild) : Prop where
  nodup : b.subscribers.Nodup
  listed : ∀ c, c ∈ b.subscribers ↔ (Dict.get? b.subscriberRefs c).isSome = true

theorem streamsAgree_new (id : BuildId) (drvPath : String) (options : Option Options)
    (requests : Finset RequestId) (fromGoalPath : Bool) :
    (new id drvPath options requests fromGoalPath).StreamsAgree :=
  ⟨List.nodup_nil, fun _ => by simp [new]⟩

theorem addSubscriber_subscribers (b : QueuedBuild) (client : ClientConn) (cancel replayed : Bool) :
    (b.addSubscriber client cancel replayed).subscribers =
      if (Dict.get? b.subscriberRefs client).isNone && replayed then b.subscribers ++ [client]
      else b.subscribers := by
  simp only [addSubscriber]
  cases Dict.get? b.subscriberRefs client with
  | some count => simp
  | none => cases replayed <;> simp

theorem addSubscriber_refs (b : QueuedBuild) (client : ClientConn) (cancel replayed : Bool)
    (c : ClientConn) :
    (Dict.get? (b.addSubscriber client cancel replayed).subscriberRefs c).isSome =
      ((Dict.get? b.subscriberRefs c).isSome || (replayed && decide (client = c))) := by
  simp only [addSubscriber]
  cases h : Dict.get? b.subscriberRefs client with
  | some count =>
    by_cases hc : client = c
    · subst hc
      simp [h]
    · simp [Dict.get?_set_of_ne _ _ hc, hc]
  | none =>
    by_cases hc : client = c
    · subst hc
      cases replayed <;> simp [h]
    · cases replayed <;> simp [Dict.get?_set_of_ne _ _ hc, hc]

theorem StreamsAgree.addSubscriber (h : b.StreamsAgree) (client : ClientConn)
    (cancel replayed : Bool) : (b.addSubscriber client cancel replayed).StreamsAgree where
  nodup := by
    rw [addSubscriber_subscribers]
    split_ifs with hnew
    · have hout : client ∉ b.subscribers := by
        rw [h.listed]
        simp only [Bool.and_eq_true, Option.isNone_iff_eq_none] at hnew
        simp [hnew.1]
      exact h.nodup.append (List.nodup_singleton _) (by simpa using hout)
    · exact h.nodup
  listed c := by
    rw [addSubscriber_refs, addSubscriber_subscribers]
    have hlisted := h.listed c
    by_cases hc : client = c
    · cases hrefs : Dict.get? b.subscriberRefs client <;> cases replayed <;> simp_all
    · have hne : c ≠ client := fun e => hc e.symm
      split_ifs <;> simp [hc, hne, hlisted]

theorem StreamsAgree.removeSubscriber (h : b.StreamsAgree)
    (client : ClientConn) : (b.removeSubscriber client).2.StreamsAgree := by
  unfold QueuedBuild.removeSubscriber
  cases hrefs : Dict.get? b.subscriberRefs client with
  | none => exact h
  | some count =>
    dsimp only
    split_ifs with hcount
    · refine ⟨h.nodup, fun c => ?_⟩
      by_cases hc : client = c
      · subst hc
        simp [h.listed, hrefs]
      · simp [h.listed, Dict.get?_set_of_ne _ _ hc]
    · refine ⟨h.nodup.erase _, fun c => ?_⟩
      rw [h.nodup.mem_erase_iff, h.listed, Dict.get?_pop]
      by_cases hc : client = c
      · simp [hc]
      · have hne : c ≠ client := fun e => hc e.symm
        simp [hc, hne]

theorem mem_removeSubscriber_of_ne (hne : c ≠ client)
    (h : c ∈ b.subscribers) : c ∈ (b.removeSubscriber client).2.subscribers := by
  unfold QueuedBuild.removeSubscriber
  split
  · exact h
  · split_ifs
    · exact h
    · exact (List.mem_erase_of_ne hne).2 h

theorem mem_of_mem_removeSubscriber
    (h : c ∈ (b.removeSubscriber client).2.subscribers) : c ∈ b.subscribers := by
  unfold QueuedBuild.removeSubscriber at h
  split at h
  · exact h
  · split_ifs at h
    · exact h
    · exact List.mem_of_mem_erase h

end QueuedBuild

end Pynixd.Queue
