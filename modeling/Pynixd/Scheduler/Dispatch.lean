import Pynixd.Scheduler.Site

/-!
# Assignment safety

Every build that a pass hands out goes to a store that may take it, and the next pass finds
that store again.

* `fits_of_assign` — **a build that gets a store fits it**;
* `safe_of_kept` — **assignment safety**, in every run that gives the local store no build while
  it is not scheduled and whose stores come and go as the context knows them;
* `unscheduled_local_breaks_pass` — the fallback does not ask whether the local store is
  scheduled, and the pass behind it fails.
-/

namespace Pynixd.Scheduler

open Outputs (StoreId localStoreId)
open Queue (QueuedBuild BuildQueue BuildId RequestId Ref)
open Runs

namespace Site

/-- **The stores that have builds are known**: the allocator ranks stores that the scheduler
knows, and every build that runs does so on one of them. -/
structure Known (s : Site) : Prop where
  named : s.fleet.Named
  allocated : ∀ b ∈ s.fleet.allocated, s.fleet.Knows b.storeId
  busy : ∀ r id, s.pass.queue.busyAt r = true → Dict.get? s.pass.assignedStoreId r = some id →
    s.fleet.Knows id

theorem Known.of_fleet {s t : Site} (h : Known s) (hpass : t.pass = s.pass)
    (hnamed : t.fleet.Named) (hknows : ∀ id, s.fleet.Knows id → t.fleet.Knows id)
    (hallocated : ∀ b ∈ t.fleet.allocated,
      s.fleet.Knows b.storeId ∨ t.fleet.Knows b.storeId) : Known t where
  named := hnamed
  allocated := fun b hb => (hallocated b hb).elim (hknows _) id
  busy := by
    rw [hpass]
    exact fun r id hbusy hassigned => hknows id (h.busy r id hbusy hassigned)

theorem Known.of_calm {s t : Site} (h : Known s) (hcalm : Calm s.pass t.pass)
    (hfleet : t.fleet = s.fleet) : Known t where
  named := hfleet ▸ h.named
  allocated := hfleet ▸ h.allocated
  busy := by
    rw [hfleet, hcalm.assignedStoreId]
    exact fun r id hbusy => h.busy r id (hcalm.quits.busyAt hcalm.advances hbusy)

theorem Known.onStoreAdded {s : Site} (h : Known s) {store : Backend} {dynamic : Bool}
    (hknows : s.fleet.Knows store.storeId) :
    Known { s with fleet := s.fleet.onStoreAdded store dynamic } where
  named := h.named
  allocated := by
    intro b hb
    simp only [Fleet.onStoreAdded] at hb
    split_ifs at hb
    · rcases Fleet.mem_put.1 hb with rfl | ⟨hb, -⟩
      · exact hknows
      · exact h.allocated b hb
    · exact h.allocated b hb
  busy := h.busy

theorem Known.drainStore {s : Site} (h : Known s) (id : StoreId) (remove : Bool) :
    Known (s.drainStore id remove) := by
  unfold Site.drainStore
  split_ifs with hlocal hdaemon hremove
  · exact h
  · have hids := Backend.drain_storeId id
    have hscheduled := Backend.drain_isScheduled id
    refine h.of_fleet rfl (h.named.update hids)
      (fun _ hknows => hknows.update hids hscheduled) fun b hb => .inl ?_
    obtain ⟨c, hc, rfl⟩ := List.mem_map.1 hb
    rw [Backend.drain_storeId]
    exact h.allocated c hc
  · have hunknown : ∀ id', s.fleet.Knows id' → id' ≠ id := by
      rintro id' ⟨b, hb, rfl⟩ hid
      obtain ⟨hmem, hscheduled⟩ := Fleet.mem_schedulable.1 hb
      rw [Backend.isScheduled, Bool.and_eq_true] at hscheduled
      exact hdaemon (List.any_eq_true.2 ⟨b, hmem, by simp [hid, hscheduled.1]⟩)
    exact h.of_fleet rfl (h.named.remove id) (fun id' hknows => hknows.remove (hunknown id' hknows))
      fun b hb => .inr (Fleet.knows_remove_of_mem_allocated h.allocated hb)
  · exact h

/-- **A removal leaves no build behind on the store.** -/
theorem Known.drained {s : Site} (h : Known s) (hqueue : s.pass.queue.Inv) (id : StoreId)
    (remove : Bool) (drains : List (StoreId × Bool)) :
    Known { s with
      pass := resetBuilds s.pass id
      fleet := if remove then s.fleet.remove id else s.fleet
      drains := drains } := by
  have hcalm := calm_resetBuilds hqueue id
  have hbusy : ∀ r id', (resetBuilds s.pass id).queue.busyAt r = true →
      Dict.get? s.pass.assignedStoreId r = some id' → s.fleet.Knows id' ∧ id' ≠ id := by
    intro r id' hbusy hassigned
    refine ⟨h.busy r id' (hcalm.quits.busyAt hcalm.advances hbusy) hassigned, ?_⟩
    rintro rfl
    exact not_busyAt_resetBuilds hqueue hbusy hassigned
  cases remove with
  | false => exact ⟨h.named, h.allocated, fun r id' hb ha => (hbusy r id' hb ha).1⟩
  | true =>
    refine ⟨h.named.remove id, fun b hb => ?_, fun r id' hb ha => ?_⟩
    · exact Fleet.knows_remove_of_mem_allocated h.allocated hb
    · exact (hbusy r id' hb ha).1.remove (hbusy r id' hb ha).2

section Safe

variable (demand : String → Demand) (t : Telemetry)

/-- **A store that gets a build is known**, unless it is a local store that is not scheduled. -/
theorem Known.of_assign {s : Site} (h : Known s) {b : QueuedBuild} {store : Backend}
    (hlocal : store = s.fleet.localStore → store.isScheduled = true)
    (hassign : decision demand t.rankStores s.fleet s.pass b = .assign store) :
    s.fleet.Knows store.storeId := by
  rcases mem_allocated_or_local demand t hassign with hmem | rfl
  · exact h.allocated store hmem
  · exact Fleet.knows_local (hlocal rfl)

/-- The turn of a build does not give it to a local store that is not scheduled. -/
def SparesLocal (s : Site) (r : Ref) : Prop :=
  ∀ store ∈ assignment demand t.rankStores s r, store = s.fleet.localStore →
    store.isScheduled = true

instance (s : Site) (r : Ref) : Decidable (SparesLocal demand t s r) :=
  inferInstanceAs (Decidable (∀ store ∈ assignment demand t.rankStores s r, _ → _))

theorem Known.takeTurn {s : Site} (h : Known s) (hinv : Inv s) {r : Ref}
    (hspares : SparesLocal demand t s r) : Known (takeTurn demand t.rankStores s r) := by
  cases hassign : assignment demand t.rankStores s r with
  | none => exact h.of_calm (calm_turn demand t.rankStores hinv hassign) rfl
  | some store =>
    have hpass : (Site.takeTurn demand t.rankStores s r).pass = given s.pass r store :=
      turn_of_assignment demand t.rankStores hassign
    obtain ⟨b, hb, hdecision⟩ := (assignment_eq_some demand t.rankStores).1 hassign
    have hstore := h.of_assign demand t (hspares store hassign) hdecision
    refine ⟨h.named, h.allocated, ?_⟩
    rw [hpass]
    intro x id hbusy hassigned
    rw [given, Dict.get?_set] at hassigned
    split_ifs at hassigned with hx
    · cases hassigned
      exact hstore
    · exact h.busy x id ((busyAt_given hbusy).resolve_left (Ne.symm hx)) hassigned

/-! ## Assignment safety -/

/-- The store may take the build: it is healthy, not draining, supports the platform and the
effective features, has failed fewer than three times at this build, and its builds are below
its limit. -/
structure Fits (s : Site) (b : QueuedBuild) (store : Backend) : Prop where
  healthy : store.isHealthy = true
  serving : store.draining = false
  supports : store.supports (demand b.drvPath) = true
  failures : (Dict.get? b.storeFailures store.storeId).getD 0 < maxStoreRetries
  room : s.load store.storeId < store.limit

/-- **Assignment safety** of one step: a build that gets a store gets one that may take it, and
a pass that begins finds the store of every running build. -/
def Safe (s : Site) : Event → Prop
  | .turn => ∀ r ∈ s.todo.head?, ∀ b, s.pass.queue.objects[r]? = some b →
      ∀ store, decision demand t.rankStores s.fleet s.pass b = .assign store →
        Fits demand s b store
  | .schedule _ => s.runningBuilds ≠ none
  | _ => True

/-- The local store gets no build while it is not scheduled, and the stores come and go as the
context knows them: a store is added under an id of its own,
that is not empty, and an id that the scheduler knows is not given to a store that it does not
schedule; and a store that reconnects is one that the context still holds. -/
def Kept (s : Site) : Event → Prop
  | .turn => ∀ r ∈ s.todo.head?, SparesLocal demand t s r
  | .addStore store _ => store.storeId ≠ "" ∧ store.storeId ≠ s.fleet.localStore.storeId ∧
      (store.isScheduled = true ∨ ¬s.fleet.Knows store.storeId)
  | .reconnected store _ => s.fleet.Knows store.storeId
  | _ => True

instance decidableKept (s : Site) : (e : Event) → Decidable (Kept demand t s e)
  | .turn => inferInstanceAs (Decidable (∀ r ∈ s.todo.head?, SparesLocal demand t s r))
  | .addStore _ _ => inferInstanceAs (Decidable (_ ∧ _ ∧ _))
  | .reconnected store _ => inferInstanceAs (Decidable (s.fleet.Knows store.storeId))
  | .schedule _ | .passFails | .queue _ | .drainStore _ _ | .drained _ _ | .look _ _ =>
    isTrue trivial

theorem known_step {s s' : Site} {e : Event} (hinv : Inv s) (h : Known s)
    (hkept : Kept demand t s e)
    (hstep : step demand t.rankStores s e = some s') : Known s' := by
  cases e with
  | schedule inFlight =>
    simp only [step] at hstep
    split_ifs at hstep
    cases hstep
    unfold schedule
    cases s.runningBuilds with
    | none => exact h
    | some counts => exact ⟨h.named, h.allocated, h.busy⟩
  | turn =>
    simp only [step] at hstep
    split at hstep
    · cases hstep
    · next r rest htodo =>
      cases hstep
      have hturn := h.takeTurn demand t hinv (hkept r (by rw [htodo]; rfl))
      exact ⟨hturn.named, hturn.allocated, hturn.busy⟩
  | passFails =>
    cases hstep
    exact ⟨h.named, h.allocated, h.busy⟩
  | queue e =>
    simp only [step] at hstep
    split_ifs at hstep with hstarts
    cases hstep
    exact h.of_calm (calm_queue hinv.queue (by simpa using hstarts)) rfl
  | addStore store dynamic =>
    simp only [step] at hstep
    split_ifs at hstep with hid
    cases hstep
    obtain ⟨hnamed, -, hscheduled⟩ := hkept
    have hregister : Known { s with fleet := s.fleet.register store hid } :=
      h.of_fleet rfl (h.named.register hid hnamed)
        (fun _ hknows => hknows.register hid hscheduled) fun b hb => .inl (h.allocated b hb)
    unfold Fleet.addStore
    split_ifs with hdaemon
    · exact hregister.onStoreAdded (Fleet.knows_register_self hid hdaemon)
    · exact hregister
  | reconnected store dynamic =>
    cases hstep
    exact h.onStoreAdded hkept
  | drainStore id remove =>
    cases hstep
    exact h.drainStore id remove
  | drained id remove =>
    by_cases hin : (id, remove) ∈ s.drains
    · simp only [step, if_pos hin] at hstep
      cases hstep
      exact h.drained hinv.queue id remove _
    · simp only [step, if_neg hin] at hstep
      cases hstep
  | look context allocator =>
    cases hstep
    have hids : ∀ b : Backend, (b.seen (context b.storeId)).storeId = b.storeId := fun _ => rfl
    have hscheduled : ∀ b : Backend,
        (b.seen (context b.storeId)).isScheduled = b.isScheduled := fun _ => rfl
    refine h.of_fleet rfl (h.named.update hids)
      (fun _ hknows => hknows.update hids hscheduled) fun b hb => .inl ?_
    obtain ⟨c, hc, rfl⟩ := List.mem_map.1 hb
    exact h.allocated c hc

theorem mem_rankStores {f : Fleet} {p : Pass} {b : QueuedBuild} {store : Backend}
    (h : store ∈ rankStores demand t.rankStores f p b) :
    store ∈ f.allocated ∧ (store.isHealthy = true ∧ store.draining = false) ∧
      store.supports (demand b.drvPath) = true ∧ isBlacklisted b store.storeId = false := by
  have hmem := List.mem_filter.1 (t.mem_of_mem_rankStores h)
  simp only [Bool.and_eq_true, Bool.not_eq_true', decide_eq_true_eq] at hmem
  obtain ⟨hallocated, ⟨⟨-, ⟨hhealthy, hserving⟩, -⟩, hsupports⟩, hlisted⟩ := hmem
  exact ⟨hallocated, ⟨hhealthy, hserving⟩, hsupports, hlisted⟩

/-- **A build that gets a store fits it.** -/
theorem fits_of_assign {s : Site} (hinv : Inv s) (h : Known s) {b : QueuedBuild}
    {store : Backend} (hlocal : store = s.fleet.localStore → store.isScheduled = true)
    (hassign : decision demand t.rankStores s.fleet s.pass b = .assign store) :
    Fits demand s b store := by
  obtain ⟨-, hfrom, hroom, -⟩ := decision_eq_assign demand t.rankStores hassign
  have hknows := h.of_assign demand t hlocal hassign
  have hstore : (store.isHealthy = true ∧ store.draining = false) ∧
      store.supports (demand b.drvPath) = true ∧ isBlacklisted b store.storeId = false := by
    rcases hfrom with hranked | ⟨rfl, havailable, hsupports⟩
    · exact (mem_rankStores demand t hranked).2
    · simp only [Fleet.localIsAvailable, Bool.and_eq_true, Bool.not_eq_true'] at havailable
      exact ⟨havailable.1, hsupports, havailable.2⟩
  obtain ⟨⟨hhealthy, hserving⟩, hsupports, hlisted⟩ := hstore
  refine ⟨hhealthy, hserving, hsupports, by simpa [isBlacklisted] using hlisted, ?_⟩
  have hload := hinv.load_le_running store.storeId (h.named.ne_empty hknows)
  exact Nat.lt_of_le_of_lt hload (of_decide_eq_true hroom)

theorem safe_of_known {s : Site} (hinv : Inv s) (h : Known s) {e : Event}
    (hkept : Kept demand t s e) : Safe demand t s e := by
  cases e with
  | turn =>
    intro r hr b hb store hassign
    have hgets := (assignment_eq_some demand t.rankStores).2 ⟨b, hb, hassign⟩
    exact fits_of_assign demand t hinv h (hkept r hr store hgets) hassign
  | schedule inFlight =>
    intro hnone
    obtain ⟨r, hr, id, hstore, hunknown⟩ := runningBuilds_eq_none.1 hnone
    apply hunknown
    obtain ⟨-, b, hb, hdone⟩ := BuildQueue.mem_pendingRefs.1 hr
    obtain ⟨⟨c, hc, hbuilding⟩, hassigned, -⟩ := busyStore_eq_some.1 hstore
    rw [hb] at hc
    cases hc
    exact h.busy r id (BuildQueue.busyAt_eq_true.2 ⟨b, hb, hbuilding, hdone⟩) hassigned
  | _ => trivial

theorem known_start {f : Fleet} (h : f.Named) : Known (start f) where
  named := h
  allocated := fun b hb => ⟨b, hb, rfl⟩
  busy := by
    intro r id hbusy
    cases hbusy

/-- **Assignment safety.**  Over any sequence of passes, additions, reconnects, drains and removals
of stores, worker ends and retries: where the local store gets no build while it is not scheduled
and the stores come and go as the context knows them, every build goes to a store that may take it,
and no pass meets a store that the scheduler does not know. -/
theorem safe_of_kept {f : Fleet} (hf : f.Named) {es : List Event}
    (h : Guarded (step demand t.rankStores) (Kept demand t) (start f) es) :
    Guarded (step demand t.rankStores) (Safe demand t) (start f) es := by
  have hstart : Inv (start f) ∧ Known (start f) := ⟨inv_start f, known_start hf⟩
  refine guarded_of_guarded (fun s e s' (hs : Inv s ∧ Known s) hkept hstep => ?_) ?_ hstart h
  · exact ⟨inv_step demand t.rankStores hs.1 hstep, known_step demand t hs.1 hs.2 hkept hstep⟩
  · exact fun s e hs hkept => safe_of_known demand t hs.1 hs.2 hkept

end Safe

/-! ## A local store that is not scheduled -/

/-- The local store of a test that builds elsewhere, with nothing else to build on. -/
def keptOff (noSchedule : Bool) : Fleet where
  stores := [⟨localStoreId, true, true, false, noSchedule, none, 8⟩]
  localStore := ⟨localStoreId, true, true, false, noSchedule, none, 8⟩
  allocated := []
  dynamicFeatureMatrix := []
  local_mem := List.mem_singleton_self _
  local_unique := fun _ hs _ => List.mem_singleton.1 hs

def dialled : Backend := ⟨"builder", true, true, false, false, none, 1⟩

/-- A ranker that keeps every store and its order. -/
def flat : Telemetry := ⟨fun _ _ _ _ => true, fun _ _ _ _ _ => true⟩

def oneBuild : BuildQueue.EnqueueArgs := ⟨"/nix/store/a.drv", none, ∅, false, none, none⟩

/-- A store comes, a build is given to it, a second pass counts it, the store is removed and
the build goes to the local store. -/
def comesAndGoes : List Event :=
  [.queue (.enqueue oneBuild), .addStore dialled true, .schedule fun _ => 0, .turn,
    .schedule fun _ => 1, .drainStore "builder" true, .drained "builder" true,
    .schedule fun _ => 0, .turn, .schedule fun _ => 1]

theorem named_keptOff (noSchedule : Bool) : (keptOff noSchedule).Named := by
  intro s hs
  obtain rfl := List.mem_singleton.1 hs
  exact (by decide : localStoreId ≠ "")

/-- **Where the local store is scheduled it takes the build of a store that is removed; where it
is not, builds are safe as long as there is a store for them.** -/
theorem safe_comesAndGoes :
    (∃ s, run (step linux flat.rankStores) (start (keptOff false)) comesAndGoes = some s ∧
      s.pass.assignedStoreId = [(0, localStoreId)]) ∧
    Guarded (step linux flat.rankStores) (Safe linux flat) (start (keptOff false)) comesAndGoes ∧
    (∃ s, run (step linux flat.rankStores) (start (keptOff true)) (comesAndGoes.take 5) = some s ∧
      s.pass.assignedStoreId = [(0, "builder")]) ∧
    Guarded (step linux flat.rankStores) (Safe linux flat) (start (keptOff true))
      (comesAndGoes.take 5) := by
  refine ⟨?_, ?_, ?_, ?_⟩
  · exact Option.map_eq_some_iff.1 (by decide +kernel : (run (step linux flat.rankStores)
      (start (keptOff false)) comesAndGoes).map (·.pass.assignedStoreId) =
        some [(0, localStoreId)])
  · exact safe_of_kept linux flat (named_keptOff false) (by decide +kernel)
  · exact Option.map_eq_some_iff.1 (by decide +kernel : (run (step linux flat.rankStores)
      (start (keptOff true)) (comesAndGoes.take 5)).map (·.pass.assignedStoreId) =
        some [(0, "builder")])
  · exact safe_of_kept linux flat (named_keptOff true) (by decide +kernel)

/-- **`no_schedule` does not keep builds off the local store**: the fallback gives it the build,
the table of the next pass has no entry for it, and the pass fails for as long as the build
runs.  And a store that reconnects behind its removal is ranked again, with the same end. -/
theorem unscheduled_local_breaks_pass :
    ¬Guarded (step linux flat.rankStores) (Safe linux flat) (start (keptOff true))
        [.queue (.enqueue oneBuild), .schedule fun _ => 0, .turn, .schedule fun _ => 0] ∧
      ¬Guarded (step linux flat.rankStores) (Safe linux flat) (start (keptOff false))
        [.queue (.enqueue oneBuild), .reconnected dialled true, .schedule fun _ => 0, .turn,
          .schedule fun _ => 0] := by
  constructor
  · intro h
    obtain ⟨s, hrun, hs⟩ := Option.map_eq_some_iff.1 (by decide +kernel :
      (run (step linux flat.rankStores) (start (keptOff true))
        [.queue (.enqueue oneBuild), .schedule fun _ => 0, .turn]).map (·.runningBuilds) =
          some none)
    have hlast := guarded_after hrun h
    exact hlast hs
  · intro h
    obtain ⟨s, hrun, hs⟩ := Option.map_eq_some_iff.1 (by decide +kernel :
      (run (step linux flat.rankStores) (start (keptOff false))
        [.queue (.enqueue oneBuild), .reconnected dialled true, .schedule fun _ => 0,
          .turn]).map (·.runningBuilds) = some none)
    have hlast := guarded_after hrun h
    exact hlast hs

end Site

end Pynixd.Scheduler
