import Pynixd.Scheduler.Dispatch

/-!
# `max-jobs` of a request

A request that names `max-jobs` runs at most so many local builds of its own, and at least one.
A build that several requests hold starts when any of them has a slot.  The options come with
each `enqueue`, and the queue keeps what the last one said, also when it said nothing.

* `localBuilds_le` — `request_has_a_local_slot` walks `_by_id` and misses no local build of a
  request;
* `within_limits` — **the local job limit**: over any run whose enqueues do not fall silent about
  a limit, a build that goal requests hold is started on the local store only for a live request
  that has a slot, or that named no limit;
* `forgotten_limit` — an enqueue without options forgets the limit.
-/

namespace Pynixd.Scheduler

open Outputs (StoreId localStoreId)
open Queue (QueuedBuild BuildQueue BuildId RequestId Ref)
open Runs

namespace Site

/-! ## What the queue keeps -/

/-- The queue's tables agree on its builds and on who holds them. -/
structure Held (q : BuildQueue) : Prop where
  inv : q.Inv
  kept : q.Kept

/-- The queue goes on, and its limits are what they were. -/
structure Keeps (q q' : BuildQueue) : Prop where
  held : Held q'
  maxJobs : ∀ x, Dict.get? q'.maxJobs x = Dict.get? q.maxJobs x

theorem Held.next {q : BuildQueue} (h : Held q) (e : BuildQueue.Event) : Held (q.next e) :=
  ⟨(h.inv.advances_next e).inv, h.kept.next h.inv e⟩

theorem Held.keeps_next {q : BuildQueue} (h : Held q) {e : BuildQueue.Event}
    (hother : e.ofAGoal = false) : Keeps q (q.next e) :=
  ⟨h.next e, BuildQueue.maxJobs_next q hother⟩

theorem Held.keeps {q : BuildQueue} (h : Held q) : Keeps q q := ⟨h, fun _ => rfl⟩

theorem Held.quiet {q q' : BuildQueue} (h : Held q) (hquiet : BuildQueue.Quiet q q')
    (hframe : BuildQueue.Frame q q') : Keeps q q' :=
  ⟨⟨hquiet.inv h.inv, h.kept.of_frame (hquiet.advances h.inv) hframe⟩,
    fun _ => by rw [hframe.maxJobs]⟩

theorem frame_resetOne (assigned : List (Ref × StoreId)) (id : StoreId) (q : BuildQueue)
    (r : Ref) : BuildQueue.Frame q (resetOne assigned id q r) := by
  unfold resetOne
  split_ifs
  · exact BuildQueue.frame_touch q r fun _ => rfl
  · exact .refl q

section Limit

variable (demand : String → Demand) (ranker : Ranker)

theorem Held.takeTurn {s : Site} (h : Held s.pass.queue) (r : Ref) :
    Keeps s.pass.queue (takeTurn demand ranker s r).pass.queue := by
  show Keeps s.pass.queue (turn demand ranker s.fleet r s.pass).queue
  cases hassign : assignment demand ranker s r with
  | none =>
    obtain ⟨e, ⟨-, hother⟩, hqueue, -⟩ := turn_of_none demand ranker hassign
    rw [hqueue]
    exact h.keeps_next hother
  | some store =>
    rw [turn_of_assignment demand ranker hassign]
    exact h.quiet (quiet_given s.pass r store) (BuildQueue.frame_touch _ r fun _ => rfl)

/-- What the goals do not do themselves keeps the limits. -/
theorem keeps_step {s t : Site} {e : Event} (h : Held s.pass.queue)
    (hother : ∀ e', e = .queue e' → e'.ofAGoal = false)
    (hstep : step demand ranker s e = some t) : Keeps s.pass.queue t.pass.queue := by
  cases e with
  | schedule inFlight =>
    simp only [step] at hstep
    split_ifs at hstep
    cases hstep
    unfold schedule
    cases s.runningBuilds with
    | none => exact h.keeps
    | some counts => exact h.keeps
  | turn =>
    simp only [step] at hstep
    split at hstep
    · cases hstep
    · next r rest _ =>
      cases hstep
      exact h.takeTurn demand ranker r
  | queue e =>
    simp only [step] at hstep
    split_ifs at hstep
    cases hstep
    exact h.keeps_next (hother e rfl)
  | addStore store dynamic =>
    simp only [step] at hstep
    split_ifs at hstep
    cases hstep
    exact h.keeps
  | drainStore id remove =>
    cases hstep
    rw [(drainStore_frame s id remove).1]
    exact h.keeps
  | drained id remove =>
    have hreset : Keeps s.pass.queue (resetBuilds s.pass id).queue :=
      h.quiet (quiet_foldl_reset _ id _ _) (BuildQueue.frame_foldl (frame_resetOne _ id) _ _)
    simp only [step] at hstep
    split_ifs at hstep
    · cases hstep
      exact hreset
    · cases hstep
      exact hreset
  | passFails | reconnected | look =>
    cases hstep
    exact h.keeps

/-! ## The local builds of a request -/

/-- The request holds the build, and it runs on the local store. -/
def runsFor (s : Site) (x : RequestId) (r : Ref) : Bool :=
  (s.pass.queue.objects[r]?).any fun b =>
    b.isBuilding && decide (Dict.get? s.pass.assignedStoreId r = some s.fleet.localStore.storeId) &&
      decide (x ∈ b.holders)

/-- **How many local builds a request runs**, of all the builds there ever were. -/
def localBuilds (s : Site) (x : RequestId) : Nat :=
  ((Finset.range s.pass.queue.objects.length).filter fun r => s.runsFor x r = true).card

/-- `request_has_a_local_slot` misses none of them: a build that somebody holds is in `_by_id`. -/
theorem localBuilds_le {s : Site} (h : Held s.pass.queue) (x : RequestId) :
    s.localBuilds x ≤ s.pass.queue.byId.countP fun item => s.runsFor x item.2 := by
  rw [List.countP_eq_length_filter, ← List.length_map (f := Prod.snd)]
  refine Nat.le_trans (Finset.card_le_card fun r hr => ?_) (List.toFinset_card_le _)
  have hruns := (Finset.mem_filter.1 hr).2
  rw [List.mem_toFinset, List.mem_map]
  refine ⟨(r + 1, r), List.mem_filter.2 ⟨(h.inv.byId _).2 ⟨?_, rfl⟩, hruns⟩, rfl⟩
  obtain ⟨b, hb, hmatch⟩ := (Option.any_eq_true _ _).1 hruns
  have hx : x ∈ b.holders := by
    rw [Bool.and_eq_true, decide_eq_true_eq] at hmatch
    exact hmatch.2
  exact h.kept r b hb ⟨x, hx⟩

theorem localBuilds_lt {s : Site} (h : Held s.pass.queue) {x : RequestId} {jobs : Nat}
    (hslot : s.pass.requestHasALocalSlot s.fleet.localStore.storeId x = true)
    (hjobs : (Dict.get? s.pass.queue.maxJobs x).join = some jobs) :
    s.localBuilds x < max 1 jobs := by
  simp only [Pass.requestHasALocalSlot, hjobs, decide_eq_true_eq] at hslot
  exact Nat.lt_of_le_of_lt (localBuilds_le h x) hslot

/-! ## The limits that requests name -/

/-- The site, and the `max-jobs` that the options of a request's enqueues named last, until it
is released. -/
structure Ledger where
  site : Site
  named : RequestId → Option Nat

namespace Ledger

def start (f : Fleet) : Ledger := ⟨.start f, fun _ => none⟩

def note (named : RequestId → Option Nat) : Event → RequestId → Option Nat
  | .queue (.enqueue a), x =>
    if a.goalRequestId = some x then a.options.map (·.maxBuildJobs) <|> named x else named x
  | .queue (.releaseRequest request), x => if request = x then none else named x
  | _, x => named x

def step (l : Ledger) (e : Event) : Option Ledger :=
  (Site.step demand ranker l.site e).map (⟨·, note l.named e⟩)

/-- **The local job limit** of one step: a build that goal requests hold is started on the local
store only if some live wanter of it named no limit, or runs fewer local builds than its limit,
the builds started earlier in the pass included. -/
def WithinLimits (l : Ledger) : Event → Prop
  | .turn => ∀ r ∈ l.site.todo.head?, ∀ b, l.site.pass.queue.objects[r]? = some b →
      ∀ store, decision demand ranker l.site.fleet l.site.pass b = .assign store →
        store.storeId = l.site.fleet.localStore.storeId → b.holders ≠ ∅ →
          ∃ x ∈ l.site.pass.liveWanters b, ∀ jobs, l.named x = some jobs →
            l.site.localBuilds x < max 1 jobs
  | _ => True

def enqueued : Event → Option BuildQueue.EnqueueArgs
  | .queue (.enqueue a) => some a
  | _ => none

/-- A request that named a limit does not enqueue without options. -/
def Remembers (l : Ledger) (e : Event) : Prop :=
  ∀ a ∈ enqueued e, ∀ x ∈ a.goalRequestId, a.options = none → l.named x = none

instance (l : Ledger) (e : Event) : Decidable (Remembers l e) :=
  inferInstanceAs (Decidable (∀ a ∈ enqueued e, _))

/-- The queue keeps the limits that were named. -/
structure Noted (l : Ledger) : Prop where
  held : Held l.site.pass.queue
  named : ∀ x, (Dict.get? l.site.pass.queue.maxJobs x).join = l.named x

theorem Noted.of_keeps {l : Ledger} (h : Noted l) {t : Site}
    (hkeeps : Keeps l.site.pass.queue t.pass.queue) : Noted ⟨t, l.named⟩ :=
  ⟨hkeeps.held, fun x => by rw [hkeeps.maxJobs, h.named]⟩

theorem Noted.enqueue {l : Ledger} (h : Noted l) {a : BuildQueue.EnqueueArgs}
    (hremembers : Remembers l (.queue (.enqueue a))) (x : RequestId) :
    (Dict.get? (l.site.pass.queue.enqueue a).2.maxJobs x).join =
      note l.named (.queue (.enqueue a)) x := by
  by_cases hgoal : a.goalRequestId = some x
  · rw [BuildQueue.maxJobs_enqueue _ hgoal, note, if_pos hgoal, Option.join_some]
    cases hoptions : a.options with
    | none => exact (hremembers a rfl x hgoal hoptions).symm
    | some options => rfl
  · rw [(BuildQueue.joins_enqueue _ a).maxJobs x hgoal, note, if_neg hgoal, h.named]

theorem Noted.releaseRequest {l : Ledger} (h : Noted l) (request x : RequestId) :
    (Dict.get? (l.site.pass.queue.releaseRequest request).maxJobs x).join =
      note l.named (.queue (.releaseRequest request)) x := by
  rw [BuildQueue.releaseRequest, (BuildQueue.frame_prune _).maxJobs,
    (BuildQueue.held_releaseHolds _ request).2, Dict.get?_pop, note]
  split_ifs
  · rfl
  · exact h.named x

theorem noted_step {l l' : Ledger} {e : Event} (h : Noted l) (hremembers : Remembers l e)
    (hstep : step demand ranker l e = some l') : Noted l' := by
  obtain ⟨t, hsite, rfl⟩ := Option.map_eq_some_iff.1 hstep
  have hkeeps := fun hother => keeps_step demand ranker h.held hother hsite
  cases e with
  | queue e =>
    have hqueue : t.pass.queue = l.site.pass.queue.next e := by
      simp only [Site.step] at hsite
      split_ifs at hsite
      cases hsite
      rfl
    have hnext : Held t.pass.queue := hqueue ▸ h.held.next e
    cases e with
    | enqueue a => exact ⟨hnext, fun x => hqueue ▸ h.enqueue hremembers x⟩
    | releaseRequest request => exact ⟨hnext, fun x => hqueue ▸ h.releaseRequest request x⟩
    | _ => exact h.of_keeps (hkeeps (by rintro _ ⟨⟩; rfl))
  | _ => exact h.of_keeps (hkeeps (by rintro _ ⟨⟩))

theorem withinLimits_of_noted {l : Ledger} (h : Noted l) (e : Event) :
    WithinLimits demand ranker l e := by
  cases e with
  | turn =>
    intro r _ b hb store hassign hlocal hholders
    obtain ⟨⟨-, hwanted⟩, -, -, hslot⟩ := decision_eq_assign demand ranker hassign
    -- a build that is held and not given up on has a live wanter
    have hlive : l.site.pass.liveWanters b ≠ ∅ := by
      intro hnone
      rw [Pass.liveWanters, Finset.sdiff_eq_empty_iff_subset] at hnone
      simp [BuildQueue.nobodyWants, hholders, hnone] at hwanted
    have hfree := hslot hlocal
    rw [Pass.localSlotIsFull, if_pos hlive, Bool.not_eq_false', decide_eq_true_eq] at hfree
    obtain ⟨x, hx, hfree⟩ := hfree
    exact ⟨x, hx, fun jobs hjobs => localBuilds_lt h.held hfree ((h.named x).trans hjobs)⟩
  | _ => trivial

/-- **The local job limit.**  Over any sequence of enqueues, joins, releases and passes, while
stores come and go and workers end and retry: where no request that named a limit enqueues without
options, a build that goal requests hold is started on the local store only for a live wanter with
a slot or without a limit. -/
theorem within_limits (f : Fleet) {es : List Event}
    (h : Guarded (step demand ranker) Remembers (start f) es) :
    Guarded (step demand ranker) (WithinLimits demand ranker) (start f) es := by
  have hstart : Noted (start f) := by
    refine ⟨⟨BuildQueue.inv_empty, fun r b hb => ?_⟩, fun _ => rfl⟩
    cases hb
  exact guarded_of_guarded (fun _ _ _ hl hremembers => noted_step demand ranker hl hremembers)
    (fun _ e hl _ => withinLimits_of_noted demand ranker hl e) hstart h

end Ledger

end Limit

/-! ## Two builds of one request -/

namespace Ledger

/-- A goal of request 1 enqueues. -/
def goalBuild (drvPath : String) (options : Option Queue.Options) : Event :=
  .queue (.enqueue ⟨drvPath, none, ∅, true, some 1, options⟩)

/-- The request names `max-jobs = 1` with its first build; a pass starts that one, and the next
pass comes to the second. -/
def secondTurn (options : Option Queue.Options) : List Event :=
  [goalBuild "/nix/store/a-a.drv" (some ⟨false, 1⟩), .schedule fun _ => 0, .turn,
    goalBuild "/nix/store/b-b.drv" options, .schedule fun _ => 0]

theorem within_limits_secondTurn :
    (∃ l, run (step linux flat.rankStores) (start (keptOff false))
        (secondTurn (some ⟨false, 1⟩) ++ [.turn]) = some l ∧ l.site.localBuilds 1 = 1) ∧
      Guarded (step linux flat.rankStores) (WithinLimits linux flat.rankStores)
        (start (keptOff false)) (secondTurn (some ⟨false, 1⟩) ++ [.turn]) := by
  constructor
  · exact Option.map_eq_some_iff.1 (by decide +kernel : (run (step linux flat.rankStores)
      (start (keptOff false)) (secondTurn (some ⟨false, 1⟩) ++ [.turn])).map
        (·.site.localBuilds 1) = some 1)
  · exact within_limits linux flat.rankStores (keptOff false) (by decide +kernel)

/-- **An enqueue without options forgets the limit**: the request that named `max-jobs = 1` comes
to two local builds. -/
theorem forgotten_limit :
    ¬Guarded (step linux flat.rankStores) (WithinLimits linux flat.rankStores)
      (start (keptOff false)) (secondTurn none ++ [.turn]) := by
  intro h
  obtain ⟨l, hrun, hat⟩ := (Option.any_eq_true _ _).1 (by decide +kernel :
    (run (step linux flat.rankStores) (start (keptOff false)) (secondTurn none)).any
      (fun l => l.site.todo.head? = some 1 ∧
        (assignment linux flat.rankStores l.site 1).map (·.storeId) = some localStoreId ∧
        (l.site.pass.queue.objects[1]?).map (fun b => (b.holders, l.site.pass.liveWanters b)) =
          some ({1}, {1}) ∧
        l.site.fleet.localStore.storeId = localStoreId ∧ l.site.localBuilds 1 = 1 ∧
        l.named 1 = some 1) = true)
  obtain ⟨htodo, hassigned, hb, hlocal, hruns, hnamed⟩ := of_decide_eq_true hat
  obtain ⟨store, hassign, hid⟩ := Option.map_eq_some_iff.1 hassigned
  obtain ⟨b, hobject, hdecision⟩ := (assignment_eq_some linux flat.rankStores).1 hassign
  rw [hobject, Option.map_some, Option.some.injEq, Prod.mk.injEq] at hb
  obtain ⟨x, hx, hslot⟩ := guarded_after hrun h 1 htodo b hobject store hdecision
    (hid.trans hlocal.symm) (by rw [hb.1]; decide)
  obtain rfl := Finset.mem_singleton.1 (hb.2 ▸ hx)
  exact absurd (hslot 1 hnamed) (by rw [hruns]; decide)

end Ledger

end Site

end Pynixd.Scheduler
