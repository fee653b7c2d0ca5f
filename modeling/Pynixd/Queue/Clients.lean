import Pynixd.Queue.Indexes
import Pynixd.Queue.Waiters

/-!
# Who still wants a build

Interest in a build is written down twice: a goal request holds it, and a client streams its
log.  A `BuildDerivation` of its own holds nothing; it waits for the future, and its stream is
all that the queue sees of it.  Each of the two ways to leave looks at its own side only.

* `notCancelled_iff_careful` — **a departure takes no build from the others** exactly when it is
  `Careful`, over whole runs;
* `cancelled_for_the_others` — a caller loses its build to a request that ends, and a request
  loses its build to a caller that hangs up.
-/

namespace Pynixd.Queue.Clients

open BuildQueue QueuedBuild Runs
open Waiters (LastStream unsubscribe_future_of_not_last)

/-! ## The world -/

inductive Party where
  /-- `BuildDerivationHandler`, in the task of one client. -/
  | caller (task : Nat) (client : Option ClientConn)
  /-- `BuildDerivationGoal` of a request.  With limits of its own it goes through
  `asyncio.wait`, and otherwise it awaits the future. -/
  | goal (request : RequestId) (limited : Bool)
  deriving DecidableEq, Repr

structure Waiter where
  party : Party
  build : Ref
  /-- It has come to its wait, behind the call of `subscribe`. -/
  waiting : Bool
  deriving DecidableEq, Repr

namespace Waiter

/-- The task awaits the future itself, so that its cancellation cancels the future. -/
def direct (x : Waiter) : Bool :=
  x.waiting &&
    match x.party with
    | .caller _ _ => true
    | .goal _ limited => !limited

def isCaller (task : Nat) (x : Waiter) : Bool :=
  match x.party with
  | .caller t _ => t = task
  | .goal _ _ => false

def isGoalOf (request : RequestId) (x : Waiter) : Bool :=
  match x.party with
  | .caller _ _ => false
  | .goal r _ => r = request

end Waiter

/-- The queue, and the tasks that wait. -/
structure World where
  queue : BuildQueue
  waiters : List Waiter

def World.start : World := ⟨.empty, []⟩

inductive Event where
  /-- `BuildDerivation` of a client: it has no request. -/
  | call (task : Nat) (client : Option ClientConn) (drvPath : String)
  /-- A goal of a request comes to its build. -/
  | join (request : RequestId) (drvPath : String) (options : Option Options) (limited : Bool)
  | wait (waiter : Waiter)
  /-- A waiter reads its answer, or a limit of its own, and goes. -/
  | leave (waiter : Waiter)
  /-- The client of a `BuildDerivation` hangs up: its task is cancelled. -/
  | hangup (task : Nat)
  /-- `reap`: the goals of a request that ends are cancelled. -/
  | reap (request : RequestId)
  /-- An operation of the queue: `subscribe`, `unsubscribe`, `release_request`, … -/
  | queue (e : BuildQueue.Event)

/-- The arguments of a `BuildDerivation` of its own. -/
def callArgs (drvPath : String) : EnqueueArgs := ⟨drvPath, none, ∅, false, none, none⟩

def joinArgs (request : RequestId) (drvPath : String) (options : Option Options) : EnqueueArgs :=
  ⟨drvPath, none, ∅, true, some request, options⟩

namespace World

/-- `enqueue` for a task that then waits. -/
def enqueue (w : World) (party : Party) (a : EnqueueArgs) : World :=
  match w.queue.enqueue a with
  | (.ok (_, r), q) => ⟨q, w.waiters ++ [⟨party, r, false⟩]⟩
  | (.error _, q) => ⟨q, w.waiters⟩

/-- The futures that the cancellation of these tasks cancels. -/
def awaited (w : World) (gone : Waiter → Bool) : List Ref :=
  (w.waiters.filter fun x => gone x && x.direct).map (·.build)

def cancel (w : World) (gone : Waiter → Bool) : World where
  queue := (w.awaited gone).foldl (fun q r => q.touch r (·.cancelFuture)) w.queue
  waiters := w.waiters.filter fun x => !gone x

def next (w : World) : Event → World
  | .call task client drvPath => w.enqueue (.caller task client) (callArgs drvPath)
  | .join request drvPath options limited =>
    w.enqueue (.goal request limited) (joinArgs request drvPath options)
  | .wait waiter =>
    { w with
      waiters := w.waiters.map fun x => if x = waiter then { x with waiting := true } else x }
  | .leave waiter => { w with waiters := w.waiters.erase waiter }
  | .hangup task => w.cancel (·.isCaller task)
  | .reap request => w.cancel (·.isGoalOf request)
  | .queue e => { w with queue := w.queue.next e }

def step (w : World) (e : Event) : Option World := some (w.next e)

end World

/-! ## The others -/

section Others

/-! The client of each goal request. -/
variable (clientOf : RequestId → Option ClientConn)

/-- A `BuildDerivation` that waits for the build, or will, and that `P` holds of. -/
def CallerWaits (w : World) (r : Ref) (P : Nat → Option ClientConn → Prop) : Prop :=
  ∃ task client waiting, ⟨.caller task client, r, waiting⟩ ∈ w.waiters ∧ P task client

/-- Somebody beside the client that leaves wants the build: a live request holds it, or a
`BuildDerivation` waits for it. -/
def Others (w : World) (r : Ref) (b : QueuedBuild) : Event → Prop
  | .hangup task => b.holders.Nonempty ∨ CallerWaits w r fun t _ => t ≠ task
  | .reap request =>
    (∃ x ∈ b.holders, x ≠ request) ∨ CallerWaits w r fun _ _ => True
  | .queue (.releaseRequest request) =>
    (∃ x ∈ b.holders, x ≠ request) ∨ CallerWaits w r fun _ _ => True
  | .queue (.unsubscribe _ client) =>
    (∃ x ∈ b.holders, clientOf x ≠ some client) ∨ CallerWaits w r fun _ c => c ≠ some client
  | _ => False

/-- **A wanted build is not cancelled by another client.** -/
def NotCancelled (w : World) (e : Event) : Prop :=
  ∀ r b, w.queue.objects[r]? = some b → b.isDone = false → Others clientOf w r b e →
    ∃ b', (w.next e).queue.objects[r]? = some b' ∧ b'.isDone = false

/-- How a departure ends a build: a task that awaits the future is cancelled, the last stream
is closed, or the one holder lets go. -/
def Ends (w : World) (r : Ref) (b : QueuedBuild) : Event → Prop
  | .hangup task =>
    ∃ x ∈ w.waiters, x.isCaller task = true ∧ x.direct = true ∧ x.build = r
  | .reap request =>
    ∃ x ∈ w.waiters, x.isGoalOf request = true ∧ x.direct = true ∧ x.build = r
  | .queue (.releaseRequest request) => b.holders = {request}
  | .queue (.unsubscribe id client) => Dict.get? w.queue.byId id = some r ∧ LastStream b client
  | _ => False

/-- The departure ends no pending build that somebody else wants. -/
def Careful (w : World) (e : Event) : Prop :=
  ∀ r b, w.queue.objects[r]? = some b → b.isDone = false → Others clientOf w r b e →
    ¬Ends w r b e

end Others

/-! ## What a departure ends -/

theorem isDone_cancelFuture (b : QueuedBuild) : b.cancelFuture.isDone = true := by
  unfold cancelFuture
  split_ifs with h
  · exact h
  · rfl

variable {q : BuildQueue} {b : QueuedBuild} {r : Ref} {w : World}

/-- A stream that closes ends a build **exactly when it is the last one**. -/
theorem isDone_unsubscribe_iff (hpending : b.isDone = false)
    (client : ClientConn) : (b.unsubscribe client).isDone = true ↔ LastStream b client := by
  constructor
  · intro hdone
    by_contra hlast
    rw [isDone, unsubscribe_future_of_not_last hlast] at hdone
    exact Bool.false_ne_true (hpending.symm.trans hdone)
  · rintro ⟨hflag, hremoved, hempty⟩
    have hkeep : (b.removeSubscriber client).2.cancelWhenUnsubscribed = true := by
      rw [← hflag]
      unfold removeSubscriber
      split
      · rfl
      · split_ifs <;> rfl
    simp only [QueuedBuild.unsubscribe, hremoved, hkeep, hempty, List.isEmpty_nil, Bool.and_true,
      if_true]
    exact isDone_settle _ _

theorem isDone_release (b : QueuedBuild) (request : RequestId) :
    (b.release request).isDone = (b.isDone || decide (b.holders.erase request = ∅)) := by
  by_cases hempty : b.holders.erase request = ∅
  · simp only [release, hempty, if_true, decide_true, Bool.or_true]
    exact isDone_settle _ _
  · simp only [release, hempty, if_false, decide_false, Bool.or_false]
    rfl

/-- The build behind a reference is done. -/
def doneAt (q : BuildQueue) (r : Ref) : Option Bool := (q.objects[r]?).map (·.isDone)

theorem doneAt_touch (q : BuildQueue) (s r : Ref) (f : QueuedBuild → QueuedBuild) :
    doneAt (q.touch s f) r =
      (q.objects[r]?).map fun b => if s = r then (f b).isDone else b.isDone := by
  simp only [doneAt, touch, List.getElem?_modify]
  cases q.objects[r]? with
  | none => rfl
  | some b => by_cases hr : s = r <;> simp [hr]

/-- **The tasks that are cancelled take the futures they await with them**, and no other. -/
theorem doneAt_foldl_cancelFuture (refs : List Ref) (q : BuildQueue) (r : Ref) :
    doneAt (refs.foldl (fun q r => q.touch r (·.cancelFuture)) q) r =
      (doneAt q r).map fun done => done || decide (r ∈ refs) := by
  induction refs generalizing q with
  | nil => simp
  | cons s refs ih =>
    rw [List.foldl_cons, ih, doneAt_touch, doneAt, Option.map_map, Option.map_map]
    congr 1
    funext b
    by_cases hr : s = r
    · simp [hr, isDone_cancelFuture]
    · simp [hr, Ne.symm hr]

theorem doneAt_foldl_letGo (request : RequestId) (ids : List BuildId) (q : BuildQueue) (r : Ref) :
    doneAt (ids.foldl (letGo request) q) r =
      (q.objects[r]?).map fun b => b.isDone ||
        decide ((∃ id ∈ ids, Dict.get? q.byId id = some r) ∧ b.holders.erase request = ∅) := by
  induction ids generalizing q with
  | nil => simp [doneAt]
  | cons id ids ih =>
    rw [List.foldl_cons, ih, (follows_letGo request q id).byId]
    unfold letGo
    cases hget : Dict.get? q.byId id with
    | none => simp [hget]
    | some s =>
      simp only [touch, List.getElem?_modify]
      cases q.objects[r]? with
      | none => rfl
      | some b =>
        by_cases hr : s = r
        · -- a second reference of the same build finds the request gone from it
          simp only [hr, if_true, Option.map_eq_map, Option.map_some, isDone_release,
            (later_release b request).2.1, Finset.erase_idem, List.mem_cons, exists_eq_or_imp, hget,
            true_or, true_and, Bool.or_assoc]
          by_cases hempty : b.holders.erase request = ∅
          · simp [hempty]
          · simp [hempty]
        · simp [hr, hget]

theorem exists_heldBy_iff (h : BuildQueue.Inv q) (request : RequestId)
    (hb : q.objects[r]? = some b) (hpending : b.isDone = false) :
    (∃ id ∈ q.heldBy request, Dict.get? q.byId id = some r) ↔ request ∈ b.holders := by
  constructor
  · rintro ⟨id, hid, hget⟩
    obtain ⟨r', hr', b', hb', hbid, hin⟩ := (h.held request id).1 hid
    have hid' : id = r' + 1 := hbid.symm.trans (h.ids r' b' hb')
    obtain rfl : r = r' := Nat.add_right_cancel ((h.get?_byId.1 hget).2.symm.trans hid')
    rw [hb] at hb'
    cases hb'
    exact hin
  · intro hin
    have hr : r ∈ q.queue := (h.byPath _ r (h.current r b hb hpending)).1
    exact ⟨b.buildId, (h.held request b.buildId).2 ⟨r, hr, b, hb, rfl, hin⟩,
      h.get?_byId.2 ⟨hr, h.ids r b hb⟩⟩

/-- **A request that ends takes a pending build with it exactly when it alone held it.** -/
theorem doneAt_releaseRequest (h : BuildQueue.Inv q) (request : RequestId)
    (hb : q.objects[r]? = some b) (hpending : b.isDone = false) :
    doneAt (q.releaseRequest request) r = some (decide (b.holders = {request})) := by
  have hprune : doneAt (q.releaseRequest request) r = doneAt (q.releaseHolds request) r := by
    rw [doneAt, doneAt, releaseRequest, (prune_spec (h.releaseHolds request)).1.1]
  have hfold := doneAt_foldl_letGo request (q.heldBy request)
    { q with held := Dict.pop q.held request } r
  simp only [hb, Option.map_some, hpending, Bool.false_or,
    exists_heldBy_iff h request hb hpending] at hfold
  rw [hprune]
  refine hfold.trans (congrArg some (decide_eq_decide.2 ?_))
  rw [Finset.erase_eq_empty_iff]
  constructor
  · rintro ⟨hin, hempty | honly⟩
    · simp [hempty] at hin
    · exact honly
  · intro honly
    exact ⟨honly ▸ Finset.mem_singleton_self request, .inr honly⟩

/-! ## The cancellation of tasks -/

theorem mem_awaited {gone : Waiter → Bool} :
    r ∈ w.awaited gone ↔
      ∃ x ∈ w.waiters, gone x = true ∧ x.direct = true ∧ x.build = r := by
  simp only [World.awaited, List.mem_map, List.mem_filter, Bool.and_eq_true, and_assoc]

theorem doneAt_cancel (w : World) (gone : Waiter → Bool)
    (hb : w.queue.objects[r]? = some b) (hpending : b.isDone = false) :
    doneAt (w.cancel gone).queue r = some (decide (r ∈ w.awaited gone)) := by
  have hbefore : doneAt w.queue r = some false := by
    rw [doneAt, hb, Option.map_some, hpending]
  refine (doneAt_foldl_cancelFuture (w.awaited gone) w.queue r).trans ?_
  rw [hbefore, Option.map_some, Bool.false_or]

section Runs

variable {clientOf : RequestId → Option ClientConn}

/-- **What a departure leaves of a pending build.** -/
theorem doneAt_next {w : World} (h : BuildQueue.Inv w.queue) {e : Event} {r : Ref}
    {b : QueuedBuild} (hb : w.queue.objects[r]? = some b) (hpending : b.isDone = false)
    (hothers : Others clientOf w r b e) :
    doneAt (w.next e).queue r = some false ↔ ¬Ends w r b e := by
  cases e with
  | hangup task | reap request =>
    rw [World.next, doneAt_cancel w _ hb hpending, Option.some.injEq, decide_eq_false_iff_not,
      mem_awaited]
    exact Iff.rfl
  | queue e =>
    cases e with
    | releaseRequest request =>
      refine (Eq.congr_left (doneAt_releaseRequest h request hb hpending)).trans ?_
      rw [Option.some.injEq, decide_eq_false_iff_not]
      exact Iff.rfl
    | unsubscribe id client =>
      have hnext : doneAt (w.next (.queue (.unsubscribe id client))).queue r =
          some (decide (Dict.get? w.queue.byId id = some r) &&
            (b.unsubscribe client).isDone) := by
        simp only [World.next, BuildQueue.next, BuildQueue.unsubscribe]
        cases hget : Dict.get? w.queue.byId id with
        | none => simp [doneAt, hb, hpending]
        | some s =>
          rw [doneAt_touch, hb]
          by_cases hs : s = r <;> simp [hs, hpending]
      rw [hnext, Option.some.injEq, Bool.and_eq_false_iff, decide_eq_false_iff_not,
        ← Bool.not_eq_true, isDone_unsubscribe_iff hpending, ← not_and_or]
      exact Iff.rfl
    | _ => exact hothers.elim
  | _ => exact hothers.elim

/-- **A departure takes no build from the others exactly when it is careful.** -/
theorem notCancelled_iff {w : World} (h : BuildQueue.Inv w.queue) (e : Event) :
    NotCancelled clientOf w e ↔ Careful clientOf w e := by
  refine forall₄_congr fun r b hb hpending => forall_congr' fun hothers => ?_
  rw [← doneAt_next h hb hpending hothers, doneAt, Option.map_eq_some_iff]

theorem inv_foldl_cancelFuture (refs : List Ref) {q : BuildQueue} (h : BuildQueue.Inv q) :
    BuildQueue.Inv (refs.foldl (fun q r => q.touch r (·.cancelFuture)) q) := by
  induction refs generalizing q with
  | nil => exact h
  | cons r refs ih => exact ih (h.advances_next (.cancelFuture r)).inv

theorem inv_enqueue {w : World} (h : BuildQueue.Inv w.queue) (party : Party) (a : EnqueueArgs) :
    BuildQueue.Inv (w.enqueue party a).queue := by
  have hnext : (w.enqueue party a).queue = (w.queue.enqueue a).2 := by
    unfold World.enqueue
    split <;> simp [*]
  rw [hnext]
  exact (h.advances_enqueue a).inv

theorem inv_next {w : World} (h : BuildQueue.Inv w.queue) (e : Event) :
    BuildQueue.Inv (w.next e).queue := by
  cases e with
  | call task client drvPath => exact inv_enqueue h _ _
  | join request drvPath options limited => exact inv_enqueue h _ _
  | wait waiter => exact h
  | leave waiter => exact h
  | hangup task => exact inv_foldl_cancelFuture _ h
  | reap request => exact inv_foldl_cancelFuture _ h
  | queue e => exact (h.advances_next e).inv

/-- **A wanted build is not cancelled by another client**: in every history this is so at every
departure exactly when every departure is careful: none cancels a task that awaits the future of a
build, closes its last stream or lets go of it as its one holder while somebody else wants it. -/
theorem notCancelled_iff_careful (clientOf : RequestId → Option ClientConn) (es : List Event) :
    Guarded World.step (NotCancelled clientOf) World.start es ↔
      Guarded World.step (Careful clientOf) World.start es := by
  have hkeep : ∀ (w : World) e w', BuildQueue.Inv w.queue → w.step e = some w' →
      BuildQueue.Inv w'.queue := by
    intro w e w' h hstep
    cases hstep
    exact inv_next h e
  have hok : ∀ (w : World) e, BuildQueue.Inv w.queue →
      (NotCancelled clientOf w e ↔ Careful clientOf w e) := fun w e h => notCancelled_iff h e
  exact guarded_congr hkeep hok inv_empty es

end Runs

/-! ## Two clients of one derivation -/

/-- A `BuildDerivation` of client 1 waits, and a request of client 2 comes to its derivation. -/
def meeting : List Event :=
  [.call 0 (some 1) "/nix/store/a-b.drv", .wait ⟨.caller 0 (some 1), 0, false⟩,
    .join 2 "/nix/store/a-b.drv" none false]

def shared : World := meeting.foldl World.next .start

theorem not_notCancelled {clientOf : RequestId → Option ClientConn} {e : Event}
    (hb : w.queue.objects[r]? = some b) (hpending : b.isDone = false)
    (hothers : Others clientOf w r b e) (hdone : doneAt (w.next e).queue r = some true) :
    ¬NotCancelled clientOf w e := by
  intro h
  obtain ⟨b', hb', hpending'⟩ := h r b hb hpending hothers
  rw [doneAt, hb', Option.map_some, hpending'] at hdone
  cases hdone

/-- **The departure takes the build of the others**: the request loses its build to the caller
that hangs up, and the caller loses it to the request that ends. -/
theorem cancelled_for_the_others :
    run World.step World.start meeting = some shared ∧
    ¬NotCancelled some shared (.hangup 0) ∧
    ¬NotCancelled some shared (.queue (.releaseRequest 2)) := by
  refine ⟨rfl, not_notCancelled (r := 0) rfl rfl (.inl ?_) ?_,
    not_notCancelled (r := 0) rfl rfl (.inr ⟨0, some 1, true, ?_, trivial⟩) ?_⟩
  · exact ⟨2, by decide⟩
  · decide +kernel
  · decide +kernel
  · decide +kernel

end Pynixd.Queue.Clients
