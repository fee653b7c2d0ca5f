import Pynixd.Queue.Requests

/-!
# Who runs a build

A build has a worker from the pass that gives it to a store until the worker ends or the build
is reset.  Only the pass starts a worker, so over everything else that happens to the queue the
builds that run can only become fewer.

* `busyAt` — a worker runs the build and nobody has answered it yet;
* `Quits`, `quits_next` — **no operation of the queue starts a worker**, the pass's own apart;
* `pendingRefs` — the builds of a pass, and `mem_pendingRefs_of_busyAt`: every build that runs
  is among them.
-/

namespace Pynixd.Queue.BuildQueue

open QueuedBuild Runs

/-! ## Workers -/

/-- `is_building`, of a build that is not done. -/
def busyAt (q : BuildQueue) (r : Ref) : Bool :=
  (q.objects[r]?).any fun b => b.isBuilding && !b.isDone

variable {q q' : BuildQueue} {b : QueuedBuild} {r : Ref}

theorem busyAt_eq_true :
    q.busyAt r = true ↔
      ∃ b, q.objects[r]? = some b ∧ b.isBuilding = true ∧ b.isDone = false := by
  rw [busyAt, Option.any_eq_true]
  simp

theorem appended_worker (q : BuildQueue) (a : EnqueueArgs) : (appended q a).worker = none := by
  simp only [appended]
  split
  · split_ifs <;> rfl
  · rfl

theorem quits_append (q : BuildQueue) (a : EnqueueArgs) : Quits q (q.append a) := by
  constructor
  intro r b' hb' hbuilding
  rw [objects_append] at hb'
  split_ifs at hb'
  · cases hb'
    rw [isBuilding, appended_worker] at hbuilding
    cases hbuilding
  · exact ⟨b', hb', hbuilding⟩

theorem quits_enqueue (h : Inv q) (a : EnqueueArgs) : Quits q (q.enqueue a).2 := by
  have hnote := idle_noteMaxJobs q a
  unfold enqueue
  split_ifs
  · exact .refl q
  · dsimp only
    split
    · next r b hrunning =>
      obtain ⟨hget, hb, -⟩ := running_eq_some hrunning
      have hr := ((hnote.inv h).byPath _ r hget).1
      exact (hnote.trans (idle_joinRunning hr hb a)).quits
    · exact hnote.quits.trans (quits_append ..)

theorem quits_releaseHolds (q : BuildQueue) (request : RequestId) :
    Quits q (q.releaseHolds request) := by
  have hletGo : ∀ (p : BuildQueue) id, Quits p (letGo request p id) := by
    intro p id
    unfold letGo
    split
    · exact .refl p
    · exact quits_touch p _ fun b => (later_release b request).2.2
  have hpop : Quits q { q with held := Dict.pop q.held request } := .of_objects rfl
  exact (hpop.trans (quits_foldl hletGo (q.heldBy request) _)).trans (.of_objects rfl)

theorem quits_prune (h : Inv q) : Quits q q.prune :=
  .of_objects (prune_spec h).1.1

/-- The one operation that gives a build a worker. -/
def Event.starts : Event → Bool
  | .assign _ _ _ => true
  | _ => false

/-- **No operation of the queue starts a worker**, the pass's own apart. -/
theorem quits_next (h : Inv q) {e : Event} (hstarts : e.starts = false) : Quits q (q.next e) := by
  cases e with
  | createRequest paths client => exact .of_objects rfl
  | enqueue a => exact quits_enqueue h a
  | subscribe id client cancel replayed => exact (idle_subscribe q id client cancel replayed).quits
  | unsubscribe id client => exact (idle_unsubscribe q id client).quits
  | releaseRequest request =>
    exact (quits_releaseHolds q request).trans (quits_prune (h.releaseHolds request))
  | getPending => exact .refl q
  | complete id response => exact (idle_finish q id response).quits
  | fail id errorMsg => exact (idle_finish q id _).quits
  | resetForRetry r store =>
    refine quits_touch q r fun b hbuilding => ?_
    cases hbuilding
  | cancelUnwanted id => exact (idle_cancelUnwanted q id).quits
  | prune => exact quits_prune h
  | pruneRequest request =>
    have hforget := idle_forgetRequest q request
    exact (hforget.quits.trans (quits_prune (hforget.inv h))).trans (.of_objects rfl)
  | assign r scope time => cases hstarts
  | workerEnded r scope => exact quits_touch q r fun b => (keeps_workerEnded b scope).quits
  | cancelFuture r => exact quits_touch q r fun b => (keeps_cancelFuture b).quits
  | dropSubscriber r client =>
    exact quits_touch q r fun b => (keeps_removeSubscriber b client).quits

/-- A build that runs behind such a step ran in front of it. -/
theorem Quits.busyAt (hquits : Quits q q') (hadvances : Advances q q') (h : q'.busyAt r = true) :
    q.busyAt r = true := by
  obtain ⟨b', hb', hbuilding, hdone⟩ := busyAt_eq_true.1 h
  obtain ⟨b, hb, hbefore⟩ := hquits.ran r b' hb' hbuilding
  refine busyAt_eq_true.2 ⟨b, hb, hbefore, ?_⟩
  obtain ⟨c, hc, hlater⟩ := hadvances.persists r b hb
  rw [hb'] at hc
  cases hc
  by_contra hwas
  rw [hlater.isDone (by simpa using hwas)] at hdone
  cases hdone

/-! ## The builds of a pass -/

/-- The key of `get_pending`, of the build behind a reference. -/
def keyAt (q : BuildQueue) (r : Ref) : String × String × Nat :=
  ((q.objects[r]?).map theOrderNixTakes).getD ("", "", 0)

/-- `get_pending`, by reference. -/
def pendingRefs (q : BuildQueue) : List Ref :=
  (q.queue.filter fun r => (q.objects[r]?).any fun b => !b.isDone).insertionSort
    fun r r' => keyLe (q.keyAt r) (q.keyAt r')

theorem mem_pendingRefs :
    r ∈ q.pendingRefs ↔ r ∈ q.queue ∧ ∃ b, q.objects[r]? = some b ∧ b.isDone = false := by
  rw [pendingRefs, List.mem_insertionSort, List.mem_filter, Option.any_eq_true]
  simp

theorem mem_pendingRefs_of_busyAt (h : Inv q) (hbusy : q.busyAt r = true) : r ∈ q.pendingRefs := by
  obtain ⟨b, hb, -, hdone⟩ := busyAt_eq_true.1 hbusy
  exact mem_pendingRefs.2 ⟨(h.byPath _ r (h.current r b hb hdone)).1, b, hb, hdone⟩

end Pynixd.Queue.BuildQueue
