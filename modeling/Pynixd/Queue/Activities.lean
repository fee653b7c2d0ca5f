import Pynixd.Lib.Runs
import Pynixd.Queue.Build

/-!
# The activities of clients that wait

A client that joins a build which is somebody else's is sent a `BUILD_WAITING` activity by
`_say_it_is_waiting` of `QueuedBuild` (`pynixd/build_queue.py`).  `complete` and `fail` stop the
activities that are open before they end the build.

* `paired_of_run` — **behind the end of the build every start has its one stop**, for a client
  whose connection works, while `Closes` holds of each step;
* `cancelled_build_waits_on` — a build that ends by `_cancel_locked`, or had ended when the client
  came, leaves the client waiting.
-/

namespace Pynixd.Queue.Activities

open List Runs

/-- One build, and what its clients have been sent. -/
structure World where
  build : QueuedBuild
  waitingActs : List (ClientConn × Nat)
  /-- The number that `_next_activity_id` gives next. -/
  nextActivityId : Nat
  started : List (ClientConn × Nat)
  stopped : List (ClientConn × Nat)
  /-- The clients that something could not be sent to. -/
  broken : List ClientConn
  /-- The calls of `complete` and `fail` that send stops: those that are left, and the answer. -/
  enders : List (List (ClientConn × Nat) × BuildResponse)

def World.new (build : QueuedBuild) : World := ⟨build, [], 0, [], [], [], []⟩

/-- The client is new to a build which is not its own. -/
def World.joins (w : World) (c : ClientConn) : Bool :=
  (Dict.get? w.build.subscriberRefs c).isNone && w.build.waitsForSomebodyElsesBuild

/-- `_say_it_is_waiting`: the activity is kept if it reaches the client. -/
def World.sayItIsWaiting (w : World) (c : ClientConn) (sent : Bool) : World :=
  let w' := { w with nextActivityId := w.nextActivityId + 1 }
  if sent then
    { w' with
      waitingActs := Dict.set w.waitingActs c w.nextActivityId
      started := w.started ++ [(c, w.nextActivityId)] }
  else { w' with broken := c :: w.broken }

/-- `release_request`, for the build. -/
def World.released (w : World) (request : RequestId) : QueuedBuild :=
  if request ∈ w.build.holders then w.build.release request else w.build

inductive Event where
  /-- `add_subscriber`, which holds `_sub_lock` throughout: whether the activity and the replay
  reach the client. -/
  | subscribe (c : ClientConn) (sent replayed : Bool)
  | unsubscribe (c : ClientConn)
  | releaseRequest (request : RequestId)
  | cancelUnwanted
  /-- A worker starts the build, or gives it back to be tried again. -/
  | starts (now : Nat)
  | resetForRetry (failedStoreId : String)
  /-- `complete` or `fail`, as far as `stop_waiting_activities` takes the list. -/
  | ends (response : BuildResponse)
  | stops (x : ClientConn × Nat) (rest : List (ClientConn × Nat)) (response : BuildResponse)
      (sent : Bool)
  /-- One of them has sent its stops, and ends the build. -/
  | resolves (response : BuildResponse)

def step (w : World) : Event → Option World
  | .subscribe c sent replayed =>
    let w := if w.joins c then w.sayItIsWaiting c sent else w
    some { w with build := w.build.addSubscriber c true replayed }
  | .unsubscribe c => some { w with build := w.build.unsubscribe c }
  | .releaseRequest request => some { w with build := w.released request }
  | .cancelUnwanted => some { w with build := w.build.settle (.miscFailure "") }
  | .starts now => some { w with build := { w.build with startedAt := some now } }
  | .resetForRetry store => some { w with build := w.build.resetForRetry store }
  | .ends response =>
    some { w with waitingActs := [], enders := (w.waitingActs, response) :: w.enders }
  | .stops x rest response sent =>
    if (x :: rest, response) ∈ w.enders then
      let w := { w with enders := (rest, response) :: w.enders.erase (x :: rest, response) }
      some (if sent then { w with stopped := x :: w.stopped }
        else { w with broken := x.1 :: w.broken })
    else none
  | .resolves response =>
    if ([], response) ∈ w.enders then
      some { w with
        enders := w.enders.erase ([], response)
        build := w.build.settle response }
    else none

/-- **Every start has its one stop** behind the end of the build. -/
def Paired (w : World) : Prop :=
  w.build.isDone = true → w.enders = [] → ∀ x ∈ w.started, x.1 ∉ w.broken → w.stopped.count x = 1

instance (w : World) : Decidable (Paired w) :=
  inferInstanceAs (Decidable (_ → _ → ∀ _ ∈ _, _ → _))

/-- What happens to the build does not end it, or it has no activity open. -/
def EndsClosed (w : World) (build : QueuedBuild) : Prop :=
  build.isDone = true → w.build.isDone = true ∨ w.waitingActs = []

/-- A client joins a build that is not ending, with no activity open, and a build that is cancelled
has none open. -/
def Closes (w : World) : Event → Prop
  | .subscribe c _ _ => w.joins c = true →
      Dict.get? w.waitingActs c = none ∧ w.enders = [] ∧ w.build.isDone = false
  | .unsubscribe c => EndsClosed w (w.build.unsubscribe c)
  | .releaseRequest request => EndsClosed w (w.released request)
  | .cancelUnwanted => EndsClosed w (w.build.settle (.miscFailure ""))
  | _ => True

instance (w : World) : ∀ e, Decidable (Closes w e)
  | .subscribe .. => inferInstanceAs (Decidable (_ → _ ∧ _ ∧ _))
  | .unsubscribe _ | .releaseRequest _ | .cancelUnwanted =>
    inferInstanceAs (Decidable (_ → _ ∨ _))
  | .starts _ | .resetForRetry _ | .ends _ | .stops .. | .resolves _ => isTrue trivial

/-! ## Where a start has gone -/

/-- **A start is open, or about to be stopped, or stopped**, and none is open behind the end. -/
structure Inv (w : World) : Prop where
  closed : w.build.isDone = true ∨ w.enders ≠ [] → w.waitingActs = []
  fresh : ∀ x ∈ w.started, x.2 < w.nextActivityId
  nodup : w.started.Nodup
  balance : ∀ x, x.1 ∉ w.broken → w.started.count x =
    w.waitingActs.count x + (w.enders.flatMap Prod.fst).count x + w.stopped.count x

theorem inv_new (build : QueuedBuild) : Inv (.new build) := by
  constructor <;> simp [World.new]

variable {w t : World} {c : ClientConn}

theorem Inv.withBuild (h : Inv w) {build : QueuedBuild} (hends : EndsClosed w build) :
    Inv { w with build } := by
  refine ⟨fun hclosed => ?_, h.fresh, h.nodup, h.balance⟩
  rcases hclosed with hdone | henders
  · rcases hends hdone with hdone | hnone
    · exact h.closed (.inl hdone)
    · exact hnone
  · exact h.closed (.inr henders)

theorem Inv.sayItIsWaiting (h : Inv w) (hnone : Dict.get? w.waitingActs c = none)
    (henders : w.enders = []) (hdone : w.build.isDone = false) (sent : Bool) :
    Inv (w.sayItIsWaiting c sent) := by
  have hfresh : ∀ x ∈ w.started, x.2 < w.nextActivityId + 1 := fun x hx =>
    (h.fresh x hx).trans (Nat.lt_succ_self _)
  cases sent with
  | false =>
    exact ⟨h.closed, hfresh, h.nodup, fun x hx => h.balance x fun hin => hx (.tail _ hin)⟩
  | true =>
    have hnew : (c, w.nextActivityId) ∉ w.started := fun hin => Nat.lt_irrefl _ (h.fresh _ hin)
    refine ⟨fun hclosed => ?_, fun x hx => ?_, ?_, fun x hx => ?_⟩
    · rcases hclosed with hclosed | hclosed
      · cases hdone.symm.trans hclosed
      · exact absurd henders hclosed
    · rcases mem_append.1 hx with hx | hx
      · exact hfresh x hx
      · rw [mem_singleton.1 hx]
        exact Nat.lt_succ_self _
    · exact h.nodup.append (nodup_singleton _) (by simpa using hnew)
    · have hbalance := h.balance x hx
      simp only [World.sayItIsWaiting, if_true, Dict.set_of_get?_eq_none hnone, count_append]
      omega

theorem Inv.stops (h : Inv w) {x : ClientConn × Nat} {rest : List (ClientConn × Nat)}
    {response : BuildResponse} {sent : Bool}
    (hstep : step w (.stops x rest response sent) = some t) : Inv t := by
  rw [step] at hstep
  by_cases hmem : (x :: rest, response) ∈ w.enders
  · rw [if_pos hmem] at hstep
    obtain rfl := Option.some.inj hstep
    have hopen := h.closed (.inr (ne_nil_of_mem hmem))
    have hbalance : ∀ y, y.1 ∉ w.broken → w.started.count y = w.waitingActs.count y +
        (x :: rest ++ (w.enders.erase (x :: rest, response)).flatMap Prod.fst).count y +
          w.stopped.count y := fun y hy => by
      rw [h.balance y hy, ((perm_cons_erase hmem).flatMap_right Prod.fst).count_eq]
      rfl
    cases sent with
    | false =>
      refine ⟨fun _ => hopen, h.fresh, h.nodup, fun y (hy : y.1 ∉ x.1 :: w.broken) => ?_⟩
      obtain ⟨hne, hy⟩ := not_or.1 (mt mem_cons.2 hy)
      have hcount := hbalance y hy
      have hother : x ≠ y := fun heq => hne (congrArg Prod.fst heq).symm
      rwa [cons_append, count_cons_of_ne hother] at hcount
    | true =>
      refine ⟨fun _ => hopen, h.fresh, h.nodup, fun y (hy : y.1 ∉ w.broken) => ?_⟩
      have hcount := hbalance y hy
      simp only [cons_append, count_cons, flatMap_cons, if_true] at hcount ⊢
      omega
  · rw [if_neg hmem] at hstep
    cases hstep

theorem inv_step (w : World) (e : Event) (t : World) (h : Inv w) (hcloses : Closes w e)
    (hstep : step w e = some t) : Inv t := by
  cases e with
  | subscribe c sent replayed =>
    obtain rfl := Option.some.inj hstep
    have hsaid : Inv (if w.joins c then w.sayItIsWaiting c sent else w) := by
      split_ifs with hjoins
      · obtain ⟨hnone, henders, hdone⟩ := hcloses hjoins
        exact h.sayItIsWaiting hnone henders hdone sent
      · exact h
    refine hsaid.withBuild fun hdone => .inl ?_
    rwa [QueuedBuild.isDone, QueuedBuild.addSubscriber_future] at hdone
  | unsubscribe c =>
    obtain rfl := Option.some.inj hstep
    exact h.withBuild hcloses
  | releaseRequest request =>
    obtain rfl := Option.some.inj hstep
    exact h.withBuild hcloses
  | cancelUnwanted =>
    obtain rfl := Option.some.inj hstep
    exact h.withBuild hcloses
  | starts now =>
    obtain rfl := Option.some.inj hstep
    exact h.withBuild .inl
  | resetForRetry store =>
    obtain rfl := Option.some.inj hstep
    exact h.withBuild .inl
  | ends response =>
    obtain rfl := Option.some.inj hstep
    refine ⟨fun _ => rfl, h.fresh, h.nodup, fun x hx => ?_⟩
    rw [h.balance x hx, flatMap_cons, count_append, count_nil, Nat.zero_add]
  | stops x rest response sent => exact h.stops hstep
  | resolves response =>
    rw [step] at hstep
    split_ifs at hstep with hmem
    obtain rfl := Option.some.inj hstep
    have hopen := h.closed (.inr (ne_nil_of_mem hmem))
    refine ⟨fun _ => hopen, h.fresh, h.nodup, fun x hx => ?_⟩
    rw [h.balance x hx, ((perm_cons_erase hmem).flatMap_right Prod.fst).count_eq]
    rfl

/-- **Behind the end of the build every start has its one stop**, in any state that steps which
meet `Closes` lead to. -/
theorem paired_of_run (build : QueuedBuild) {es : List Event} {w : World}
    (hcloses : Guarded step Closes (.new build) es) (hrun : run step (.new build) es = some w) :
    Paired w := by
  have h := inv_of_guarded inv_step (inv_new build) hcloses hrun
  intro hdone henders x hx hworks
  have hbalance := h.balance x hworks
  rw [count_eq_one_of_mem h.nodup hx, h.closed (.inl hdone), henders] at hbalance
  simpa using hbalance.symm

/-- A client that asked for a build, and one that joined it. -/
def twoClients : List Event := [.subscribe 1 true true, .subscribe 2 true true, .starts 5]

theorem paired_completed : ∃ w, run step (.new (.new 1 "d.drv" none ∅ true))
      (twoClients ++ [.ends ⟨0, ""⟩, .stops (2, 0) [] ⟨0, ""⟩ true, .resolves ⟨0, ""⟩]) = some w ∧
    w.started = [(2, 0)] ∧ Paired w := by
  obtain ⟨w, hrun, hw⟩ := Option.map_eq_some_iff.1 (by decide +kernel :
    (run step (.new (.new 1 "d.drv" none ∅ true)) (twoClients ++ [.ends ⟨0, ""⟩,
      .stops (2, 0) [] ⟨0, ""⟩ true, .resolves ⟨0, ""⟩])).map (·.started) = some [(2, 0)])
  exact ⟨w, hrun, hw, paired_of_run _ (by decide +kernel) hrun⟩

/-- **A client waits on** for a build that nobody wants any more and that is cancelled, and for one
that had ended when the client came. -/
theorem cancelled_build_waits_on :
    (∃ w, run step (.new (.new 1 "d.drv" none ∅ true)) (twoClients ++ [.cancelUnwanted]) = some w ∧
      ¬Paired w) ∧
    ∃ w, run step (.new (.new 1 "d.drv" none ∅ true)) [.subscribe 1 true true, .starts 5,
      .ends ⟨0, ""⟩, .resolves ⟨0, ""⟩, .subscribe 2 true true] = some w ∧ ¬Paired w := by
  constructor
  · obtain ⟨w, hrun, hw⟩ := Option.map_eq_some_iff.1 (by decide +kernel :
      (run step (.new (.new 1 "d.drv" none ∅ true)) (twoClients ++ [.cancelUnwanted])).map
        (fun w => decide (Paired w)) = some false)
    exact ⟨w, hrun, of_decide_eq_false hw⟩
  · obtain ⟨w, hrun, hw⟩ := Option.map_eq_some_iff.1 (by decide +kernel :
      (run step (.new (.new 1 "d.drv" none ∅ true)) [.subscribe 1 true true, .starts 5,
        .ends ⟨0, ""⟩, .resolves ⟨0, ""⟩, .subscribe 2 true true]).map
        (fun w => decide (Paired w)) = some false)
    exact ⟨w, hrun, of_decide_eq_false hw⟩

end Pynixd.Queue.Activities
