import Mathlib.Data.Finset.Option
import Pynixd.Queue.Build

/-!
# The queue of builds

`BuildQueue` of `pynixd/build_queue.py`: one list of builds and the indexes over it.  The
indexes share the build objects, so a build is known by a reference into the list of all
objects ever made, and `is` between two builds compares references.

* `enqueue` — joins the build that `_by_path` names while it runs, and makes a new one
  otherwise;
* `subscribe`, `unsubscribe`, `releaseRequest`, `complete`, `fail`, `cancelUnwanted` — the
  operations on one build, found by its id;
* `prune`, `pruneRequest` — the sweep of builds that nobody holds or streams.

An operation that raises leaves what it has done so far, so an operation is a function to
a reply and a queue.
-/

namespace Pynixd.Queue

/-- A build object, by its identity. -/
abbrev Ref := Nat

/-- A derived path, as a client wrote it. -/
abbrev DerivedPath := String

/-- `SchedulerBuildRequest`, as far as the queue writes it. -/
structure SchedulerBuildRequest where
  id : RequestId
  derivedPaths : Finset DerivedPath
  client : Option ClientConn
  activeBuildIds : Finset BuildId
  allBuildIds : Finset BuildId
  buildToDerived : List (BuildId × Finset DerivedPath)
  deriving DecidableEq

def SchedulerBuildRequest.addBuild (request : SchedulerBuildRequest) (id : BuildId)
    (derivedPaths : Finset DerivedPath) : SchedulerBuildRequest :=
  { request with
    activeBuildIds := insert id request.activeBuildIds
    allBuildIds := insert id request.allBuildIds
    buildToDerived := Dict.set request.buildToDerived id derivedPaths }

structure BuildQueue where
  /-- Every `QueuedBuild` that was ever made. -/
  objects : List QueuedBuild
  queue : List Ref
  byPath : List (String × Ref)
  byId : List (BuildId × Ref)
  requests : List (RequestId × SchedulerBuildRequest)
  nextId : BuildId
  nextRequestId : RequestId
  givenUp : Finset RequestId
  maxJobs : List (RequestId × Option Nat)
  /-- The builds each goal request holds; a set, in the order it was filled. -/
  held : List (RequestId × List BuildId)
  deriving DecidableEq

inductive QueueError where
  | runtimeError (message : String)
  | valueError (message : String)
  deriving DecidableEq, Repr

namespace BuildQueue

def empty : BuildQueue where
  objects := []
  queue := []
  byPath := []
  byId := []
  requests := []
  nextId := 1
  nextRequestId := 1
  givenUp := ∅
  maxJobs := []
  held := []

/-- A change to one build object. -/
def touch (q : BuildQueue) (r : Ref) (f : QueuedBuild → QueuedBuild) : BuildQueue :=
  { q with objects := q.objects.modify r f }

/-- `_held.get(request_id, set())`. -/
def heldBy (q : BuildQueue) (request : RequestId) : List BuildId :=
  (Dict.get? q.held request).getD []

/-! ## Requests and holds -/

def createRequest (q : BuildQueue) (derivedPaths : Finset DerivedPath)
    (client : Option ClientConn) : RequestId × BuildQueue :=
  (q.nextRequestId,
    { q with
      nextRequestId := q.nextRequestId + 1
      requests := Dict.set q.requests q.nextRequestId
        ⟨q.nextRequestId, derivedPaths, client, ∅, ∅, []⟩ })

def holdLocked (q : BuildQueue) (r : Ref) (id : BuildId) (request : RequestId) : BuildQueue :=
  { q.touch r (·.hold request) with
    held := Dict.set q.held request ((q.heldBy request).insert id) }

/-- The hold that a goal request takes inside `enqueue`. -/
def holdForGoal (q : BuildQueue) (r : Ref) (id : BuildId) (fromGoalPath : Bool)
    (goalRequestId : Option RequestId) : BuildQueue :=
  match goalRequestId with
  | some request => if fromGoalPath then q.holdLocked r id request else q
  | none => q

/-- `sched_req.add_build`, for a request that is known and asked for some path. -/
def addBuildTo (q : BuildQueue) (request : RequestId) (id : BuildId)
    (derivedPaths : Finset DerivedPath) : BuildQueue :=
  if derivedPaths = ∅ then q
  else { q with requests := Dict.modify q.requests request (·.addBuild id derivedPaths) }

/-! ## Enqueue -/

structure EnqueueArgs where
  drvPath : String
  schedulerRequestId : Option RequestId
  derivedPathsForRequest : Finset DerivedPath
  fromGoalPath : Bool
  goalRequestId : Option RequestId
  options : Option Options
  deriving DecidableEq

/-- The build of a derivation that `_by_path` names and that is not done. -/
def running (q : BuildQueue) (drvPath : String) : Option (Ref × QueuedBuild) :=
  match Dict.get? q.byPath drvPath with
  | none => none
  | some r =>
    match q.objects[r]? with
    | none => none
    | some b => if b.isDone then none else some (r, b)

/-- `enqueue`, from the lock on: the limit of the goal request. -/
def noteMaxJobs (q : BuildQueue) (a : EnqueueArgs) : BuildQueue :=
  match a.goalRequestId with
  | none => q
  | some request =>
    { q with maxJobs := Dict.set q.maxJobs request (a.options.map (·.maxBuildJobs)) }

/-- `enqueue`, for a build that runs already. -/
def joinRunning (q : BuildQueue) (r : Ref) (id : BuildId) (a : EnqueueArgs) : BuildQueue :=
  let q := q.touch r fun b => { b with fromGoalPath := b.fromGoalPath || a.fromGoalPath }
  let q := q.holdForGoal r id a.fromGoalPath a.goalRequestId
  match a.schedulerRequestId with
  | none => q
  | some request =>
    (q.touch r fun b =>
      { b with schedulerRequestIds := insert request b.schedulerRequestIds }).addBuildTo
        request id a.derivedPathsForRequest

/-- `enqueue`, for a build that is not there or is done. -/
def append (q : BuildQueue) (a : EnqueueArgs) : BuildQueue :=
  let r := q.objects.length
  let id := q.nextId
  let build := QueuedBuild.new id a.drvPath a.options a.schedulerRequestId.toFinset a.fromGoalPath
  let q := { q with objects := q.objects ++ [build] }
  let q := q.holdForGoal r id a.fromGoalPath a.goalRequestId
  let q := { q with
    nextId := q.nextId + 1
    queue := q.queue ++ [r]
    byPath := Dict.set q.byPath a.drvPath r
    byId := Dict.set q.byId id r }
  match a.schedulerRequestId with
  | none => q
  | some request => q.addBuildTo request id a.derivedPathsForRequest

/-- `enqueue`: the id of the build, and the object whose future the caller awaits. -/
def enqueue (q : BuildQueue) (a : EnqueueArgs) :
    Except QueueError (BuildId × Ref) × BuildQueue :=
  if a.fromGoalPath && a.goalRequestId.isNone then
    (.error (.runtimeError "a goal build needs the goal request that holds it"), q)
  else
    let q := q.noteMaxJobs a
    match q.running a.drvPath with
    | some (r, existing) => (.ok (existing.buildId, r), q.joinRunning r existing.buildId a)
    | none => (.ok (q.nextId, q.objects.length), q.append a)

/-! ## Streams -/

/-- `subscribe`.  `replayed` says whether the client took the backlog. -/
def subscribe (q : BuildQueue) (id : BuildId) (client : ClientConn)
    (cancelOnUnsubscribe replayed : Bool) : Bool × BuildQueue :=
  match Dict.get? q.byId id with
  | none => (false, q)
  | some r => (true, q.touch r (·.addSubscriber client cancelOnUnsubscribe replayed))

def unsubscribe (q : BuildQueue) (id : BuildId) (client : ClientConn) : Bool × BuildQueue :=
  match Dict.get? q.byId id with
  | none => (false, q)
  | some r =>
    ((q.objects[r]?).any fun b => (b.removeSubscriber client).1,
      q.touch r (·.unsubscribe client))

/-! ## The end of a build -/

def nobodyWants (q : BuildQueue) (b : QueuedBuild) : Bool :=
  b.holders ≠ ∅ && b.holders ⊆ q.givenUp

/-- `_note_a_request_that_gave_up`, for a status that the enum knows. -/
def noteGivenUp (q : BuildQueue) (b : QueuedBuild) (status : BuildResultStatus) : BuildQueue :=
  if status.isSuccess then q
  else
    match b.options with
    | none => q
    | some options =>
      if options.keepGoing then q else { q with givenUp := q.givenUp ∪ b.holders }

/-- The body that `complete` and `fail` share.  The enum is asked after the future is
resolved, so an unknown status raises behind the answer. -/
def finish (q : BuildQueue) (id : BuildId) (response : BuildResponse) :
    Except QueueError Unit × BuildQueue :=
  match q.queue.find? fun r => (q.objects[r]?).any (·.buildId == id) with
  | none => (.error (.valueError s!"Build {id} not found"), q)
  | some r =>
    match q.objects[r]? with
    | none => (.error (.valueError s!"Build {id} not found"), q)
    | some b =>
      if b.isDone then (.ok (), q)
      else
        let q := q.touch r (·.settle response)
        match BuildResultStatus.ofValue response.status with
        | none =>
          let status := response.status
          (.error (.valueError s!"{status} is not a valid BuildResultStatus"), q)
        | some status => (.ok (), q.noteGivenUp b status)

def complete (q : BuildQueue) (id : BuildId) (response : BuildResponse) :
    Except QueueError Unit × BuildQueue :=
  q.finish id response

def fail (q : BuildQueue) (id : BuildId) (errorMsg : String) :
    Except QueueError Unit × BuildQueue :=
  q.finish id (.miscFailure errorMsg)

/-- `cancel_unwanted`: the client hears nothing about the build. -/
def cancelUnwanted (q : BuildQueue) (id : BuildId) : BuildQueue :=
  match Dict.get? q.byId id with
  | none => q
  | some r => q.touch r (·.settle (.miscFailure ""))

/-! ## The sweep -/

/-- What `prune` asks of a build. -/
def abandoned (b : QueuedBuild) : Bool :=
  b.isDone && b.schedulerRequestIds = ∅ && b.holders = ∅ && b.subscribers.isEmpty

/-- One item of `_by_id` in the sweep.  The path entry goes only while it is this build's:
a newer build of the derivation keeps its own. -/
def dropItem (doomed : List Ref) (q : BuildQueue) (item : BuildId × Ref) : BuildQueue :=
  if item.2 ∈ doomed then
    let q := { q with byId := Dict.pop q.byId item.1 }
    match q.objects[item.2]? with
    | none => q
    | some b =>
      if Dict.get? q.byPath b.drvPath = some item.2 then
        { q with byPath := Dict.pop q.byPath b.drvPath }
      else q
  else q

def doomed (q : BuildQueue) : List Ref :=
  q.queue.filter fun r => (q.objects[r]?).any abandoned

def prune (q : BuildQueue) : BuildQueue :=
  if q.doomed = [] then q
  else q.byId.foldl (dropItem q.doomed) { q with queue := q.queue.filter (· ∉ q.doomed) }

/-- `release_request`, for one build that the request holds. -/
def letGo (request : RequestId) (q : BuildQueue) (id : BuildId) : BuildQueue :=
  match Dict.get? q.byId id with
  | none => q
  | some r => q.touch r (·.release request)

/-- `release_request`, up to the sweep. -/
def releaseHolds (q : BuildQueue) (request : RequestId) : BuildQueue :=
  let q := (q.heldBy request).foldl (letGo request) { q with held := Dict.pop q.held request }
  { q with
    givenUp := q.givenUp.erase request
    maxJobs := Dict.pop q.maxJobs request }

def releaseRequest (q : BuildQueue) (request : RequestId) : BuildQueue :=
  (q.releaseHolds request).prune

/-- `prune_request`, up to the sweep. -/
def forgetRequest (q : BuildQueue) (request : RequestId) : BuildQueue :=
  q.queue.foldl (fun q r => q.touch r fun b =>
    { b with schedulerRequestIds := b.schedulerRequestIds.erase request }) q

def pruneRequest (q : BuildQueue) (request : RequestId) : BuildQueue :=
  let q := (q.forgetRequest request).prune
  { q with requests := Dict.pop q.requests request }

/-! ## What the scheduler reads -/

def theOrderNixTakes (b : QueuedBuild) : String × String × Nat :=
  let base := (b.drvPath.toList.splitOn '/').getLastD []
  let name := (base.dropWhile (· ≠ '-')).drop 1
  (String.ofList name, b.drvPath, b.buildId)

/-- The order of the keys, as tuples compare. -/
def keyLe (x y : String × String × Nat) : Prop :=
  x.1 < y.1 ∨ x.1 = y.1 ∧ (x.2.1 < y.2.1 ∨ x.2.1 = y.2.1 ∧ x.2.2 ≤ y.2.2)

instance : DecidableRel keyLe := fun _ _ => inferInstanceAs (Decidable (_ ∨ _))

def getPending (q : BuildQueue) : List QueuedBuild :=
  ((q.queue.filterMap fun r => q.objects[r]?).filter fun b => !b.isDone).insertionSort
    fun b c => keyLe (theOrderNixTakes b) (theOrderNixTakes c)

/-! ## Events -/

inductive Event where
  | createRequest (derivedPaths : Finset DerivedPath) (client : Option ClientConn)
  | enqueue (args : EnqueueArgs)
  | subscribe (id : BuildId) (client : ClientConn) (cancelOnUnsubscribe replayed : Bool)
  | unsubscribe (id : BuildId) (client : ClientConn)
  | releaseRequest (request : RequestId)
  | getPending
  | complete (id : BuildId) (response : BuildResponse)
  | fail (id : BuildId) (errorMsg : String)
  | resetForRetry (build : Ref) (failedStoreId : String)
  | cancelUnwanted (id : BuildId)
  | prune
  | pruneRequest (request : RequestId)
  /-- `Scheduler._assign_to_stores` gives the build to a worker. -/
  | assign (build : Ref) (scope : Nat) (time : Nat)
  | workerEnded (build : Ref) (scope : Nat)
  /-- A task that awaits the future is cancelled, and the future with it. -/
  | cancelFuture (build : Ref)
  /-- The fan-out drops a client whose connection is gone. -/
  | dropSubscriber (build : Ref) (client : ClientConn)

/-- The queue after an event, whatever the operation replies. -/
def next (q : BuildQueue) : Event → BuildQueue
  | .createRequest derivedPaths client => (q.createRequest derivedPaths client).2
  | .enqueue args => (q.enqueue args).2
  | .subscribe id client cancel replayed => (q.subscribe id client cancel replayed).2
  | .unsubscribe id client => (q.unsubscribe id client).2
  | .releaseRequest request => q.releaseRequest request
  | .getPending => q
  | .complete id response => (q.complete id response).2
  | .fail id errorMsg => (q.fail id errorMsg).2
  | .resetForRetry r store => q.touch r (·.resetForRetry store)
  | .cancelUnwanted id => q.cancelUnwanted id
  | .prune => q.prune
  | .pruneRequest request => q.pruneRequest request
  | .assign r scope time =>
    q.touch r fun b => { b with worker := some scope, startedAt := some time }
  | .workerEnded r scope => q.touch r (·.workerEnded scope)
  | .cancelFuture r => q.touch r (·.cancelFuture)
  | .dropSubscriber r client => q.touch r fun b => (b.removeSubscriber client).2

def step (q : BuildQueue) (e : Event) : Option BuildQueue := some (q.next e)

end BuildQueue

end Pynixd.Queue
