import Pynixd.Queue.Workers
import Pynixd.Scheduler.Fleet

/-!
# Pass after pass

`Scheduler.schedule` runs pass after pass, while stores are added, reconnect, are drained and
are removed, and while workers end and builds are retried.

* `decision_eq_assign` — all that is known of a build which gets a store.
-/

namespace Pynixd.Scheduler

open List
open Outputs (StoreId)
open Queue (QueuedBuild BuildQueue BuildId RequestId Ref)
open Runs

/-! ## The ranker -/

/-- What `TelemetryStoreRanker` reads off the telemetry of a store: whether it is above the
threshold, and how two scores compare.  The scores themselves are floats. -/
structure Telemetry where
  keeps : QueuedBuild → List (StoreId × Nat) → List (StoreId × Nat) → Backend → Bool
  atLeast : QueuedBuild → List (StoreId × Nat) → List (StoreId × Nat) → Backend → Backend → Bool

/-- `TelemetryStoreRanker.rank_stores`. -/
def Telemetry.rankStores (t : Telemetry) : Ranker := fun b stores assigned inFlight =>
  (stores.filter (t.keeps b assigned inFlight)).mergeSort (t.atLeast b assigned inFlight)

theorem Telemetry.mem_of_mem_rankStores (t : Telemetry) {b : QueuedBuild} {stores : List Backend}
    {assigned inFlight : List (StoreId × Nat)} {s : Backend}
    (h : s ∈ t.rankStores b stores assigned inFlight) : s ∈ stores := by
  rw [Telemetry.rankStores, mem_mergeSort] at h
  exact (mem_filter.1 h).1

/-! ## The site -/

structure Site where
  fleet : Fleet
  pass : Pass
  /-- The builds that the pass has not come to. -/
  todo : List Ref
  /-- What this pass has handed out; the code keeps the numbers only. -/
  handed : List (Ref × StoreId)
  /-- The drains under way, each with whether the store is removed behind it. -/
  drains : List (StoreId × Bool)

/-- The store of a running build: `build.is_building and build.assigned_store_id`. -/
def Pass.busyStore (p : Pass) (r : Ref) : Option StoreId :=
  if (p.queue.objects[r]?).any (·.isBuilding) then
    (Dict.get? p.assignedStoreId r).filter (· ≠ "")
  else none

/-- `assigned_count` of `_filter_schedulable`, over the pending builds.  A store that is not in
the table raises `KeyError`. -/
def assignedCount (p : Pass) : List Ref → List (StoreId × Nat) → Option (List (StoreId × Nat))
  | [], counts => some counts
  | r :: rest, counts =>
    match p.busyStore r with
    | none => assignedCount p rest counts
    | some id =>
      match Dict.get? counts id with
      | none => none
      | some n => assignedCount p rest (Dict.set counts id (n + 1))

namespace Site

/-- The scheduler as `Server` makes it: `BuildAllocator` takes the stores of that moment. -/
def start (f : Fleet) : Site where
  fleet := { f with allocated := f.schedulable, dynamicFeatureMatrix := [] }
  pass := ⟨.empty, [], [], [], [], [], [], 0⟩
  todo := []
  handed := []
  drains := []

/-- `_filter_schedulable`: the count of the running builds. -/
def runningBuilds (s : Site) : Option (List (StoreId × Nat)) :=
  assignedCount s.pass s.pass.queue.pendingRefs (s.fleet.schedulable.map fun b => (b.storeId, 0))

/-- The start of a pass, with `in_flight` of each store.  A `KeyError` ends it. -/
def schedule (s : Site) (inFlight : StoreId → Nat) : Site :=
  match s.runningBuilds with
  | none => s
  | some counts =>
    { s with
      pass := { s.pass with
        runningBuilds := counts
        overrideInFlight := s.fleet.schedulable.map fun b =>
          (b.storeId, max (inFlight b.storeId) ((Dict.get? counts b.storeId).getD 0))
        assignedThisPass := []
        waitingSlot := []
        heldByPressure := [] }
      todo := s.pass.queue.pendingRefs.filter fun r =>
        (s.pass.queue.objects[r]?).any fun b => !b.isBuilding
      handed := [] }

section Turn

variable (demand : String → Demand) (ranker : Ranker)

/-- The store that the pass gives the build, if it gives it one. -/
def assignment (s : Site) (r : Ref) : Option Backend :=
  (s.pass.queue.objects[r]?).bind fun b =>
    match decision demand ranker s.fleet s.pass b with
    | .assign store => some store
    | _ => none

def takeTurn (s : Site) (r : Ref) : Site :=
  { s with
    pass := turn demand ranker s.fleet r s.pass
    handed := ((assignment demand ranker s r).map fun store => (r, store.storeId)).toList ++
      s.handed }

/-- One build at the end of `drain_store`: a build of the store is cancelled and reset. -/
def resetOne (assigned : List (Ref × StoreId)) (id : StoreId) (q : BuildQueue) (r : Ref) :
    BuildQueue :=
  if Dict.get? assigned r = some id then q.touch r (·.resetForRetry id) else q

def resetBuilds (p : Pass) (id : StoreId) : Pass :=
  { p with queue := p.queue.pendingRefs.foldl (resetOne p.assignedStoreId id) p.queue }

/-- What happens at the scheduler, one stretch without an `await` at a time. -/
inductive Event where
  | schedule (inFlight : StoreId → Nat)
  | turn
  | passFails
  /-- A task of the queue runs, or a worker ends or retries. -/
  | queue (e : BuildQueue.Event)
  /-- A store has started and is added. -/
  | addStore (store : Backend) (dynamic : Bool)
  /-- A store is back: `_on_reconnect` registers it again. -/
  | reconnected (store : Backend) (dynamic : Bool)
  /-- `drain_store` is called, by `remove_store` or on its own. -/
  | drainStore (id : StoreId) (remove : Bool)
  /-- The drain is over, or has timed out. -/
  | drained (id : StoreId) (remove : Bool)
  /-- The stores as other tasks leave them. -/
  | look (context allocator : StoreId → Look)

/-- `drain_store` as it is called.  A store that is no `DaemonStore` is not drained, and
`remove_store` drops it at once; it refuses the local store. -/
def drainStore (s : Site) (id : StoreId) (remove : Bool) : Site :=
  if remove && id = s.fleet.localStore.storeId then s
  else if s.fleet.stores.any fun b => b.storeId = id && b.isDaemon then
    { s with fleet := s.fleet.drain id, drains := s.drains ++ [(id, remove)] }
  else if remove then { s with fleet := s.fleet.remove id }
  else s

/-- The site after an event.  A pass begins behind the one before it, and only the passes start
workers; a store under the id of the local one is not added. -/
def step (s : Site) : Event → Option Site
  | .schedule inFlight => if s.todo = [] then some (s.schedule inFlight) else none
  | .turn =>
    match s.todo with
    | [] => none
    | r :: rest => some { takeTurn demand ranker s r with todo := rest }
  | .passFails => some { s with todo := [] }
  | .queue e =>
    if e.starts then none
    else some { s with pass := { s.pass with queue := s.pass.queue.next e } }
  | .addStore store dynamic =>
    if hid : store.storeId = s.fleet.localStore.storeId then none
    else some { s with fleet := s.fleet.addStore store dynamic hid }
  | .reconnected store dynamic => some { s with fleet := s.fleet.onStoreAdded store dynamic }
  | .drainStore id remove => some (s.drainStore id remove)
  | .drained id remove =>
    if (id, remove) ∈ s.drains then
      some { s with
        pass := resetBuilds s.pass id
        fleet := if remove then s.fleet.remove id else s.fleet
        drains := s.drains.erase (id, remove) }
    else none
  | .look context allocator => some { s with fleet := s.fleet.look context allocator }

/-! ## What a pass decides -/

/-- **A build that gets a store**: it waits and is wanted, the ranker gave the store or it is
the local one as a fallback, the store has room, and a local store has a slot. -/
theorem decision_eq_assign {f : Fleet} {p : Pass} {b : QueuedBuild} {store : Backend}
    (h : decision demand ranker f p b = .assign store) :
    (b.isBuilding = false ∧ p.queue.nobodyWants b = false) ∧
      (store ∈ rankStores demand ranker f p b ∨
        store = f.localStore ∧ f.localIsAvailable b = true ∧
          f.localStore.supports (demand b.drvPath) = true) ∧
      p.hasBuildRoom store = true ∧
      (store.storeId = f.localStore.storeId →
        p.localSlotIsFull f.localStore.storeId b = false) := by
  -- the first candidate with room, whoever the candidates are
  have hfirst : ∀ {candidates : List Backend} {s : Backend},
      candidates.find? p.hasBuildRoom = some s →
      (if s.storeId = f.localStore.storeId && p.localSlotIsFull f.localStore.storeId b then
        Decision.slotFull else .assign s) = .assign store →
        store ∈ candidates ∧ p.hasBuildRoom store = true ∧
          (store.storeId = f.localStore.storeId →
            p.localSlotIsFull f.localStore.storeId b = false) := by
    intro candidates s hfind hassign
    split_ifs at hassign with hslot
    cases hassign
    refine ⟨mem_of_find?_eq_some hfind, find?_some hfind, fun hid => ?_⟩
    simpa [hid] using hslot
  unfold decision at h
  dsimp only at h
  split_ifs at h with hbuilding hnobody hnone hplaced hempty
  · split at h
    · cases h
    · next s hfind =>
      obtain ⟨hmem, hroom, hslot⟩ := hfirst hfind h
      simp only [hempty, Bool.not_true, Bool.true_and, Bool.false_or, Bool.and_eq_true] at hplaced
      refine ⟨⟨by simpa using hbuilding, by simpa using hnobody⟩, .inr ?_, hroom, hslot⟩
      exact ⟨mem_singleton.1 hmem, hplaced⟩
  · split at h
    · cases h
    · next s hfind =>
      obtain ⟨hmem, hroom, hslot⟩ := hfirst hfind h
      exact ⟨⟨by simpa using hbuilding, by simpa using hnobody⟩, .inl hmem, hroom, hslot⟩

theorem assignment_eq_some {s : Site} {r : Ref} {store : Backend} :
    assignment demand ranker s r = some store ↔
      ∃ b, s.pass.queue.objects[r]? = some b ∧
        decision demand ranker s.fleet s.pass b = .assign store := by
  rw [assignment, Option.bind_eq_some_iff]
  refine exists_congr fun b => and_congr_right fun _ => ?_
  constructor
  · intro h
    split at h
    · next t hdecision =>
      cases h
      exact hdecision
    · cases h
  · intro h
    rw [h]

theorem mem_allocated_or_local (t : Telemetry) {f : Fleet} {p : Pass} {b : QueuedBuild}
    {store : Backend} (h : decision demand t.rankStores f p b = .assign store) :
    store ∈ f.allocated ∨ store = f.localStore := by
  rcases (decision_eq_assign demand t.rankStores h).2.1 with hranked | ⟨rfl, -, -⟩
  · exact .inl (mem_filter.1 (t.mem_of_mem_rankStores hranked)).1
  · exact .inr rfl

end Turn

/-- The build runs on the store, or this pass has given it to the store. -/
def occupies (s : Site) (id : StoreId) (r : Ref) : Bool :=
  s.pass.queue.busyAt r && decide (Dict.get? s.pass.assignedStoreId r = some id) ||
    decide ((r, id) ∈ s.handed)

/-- **How many builds a store has**: those that run there, and those that the pass has given it
so far. -/
def load (s : Site) (id : StoreId) : Nat :=
  ((Finset.range s.pass.queue.objects.length).filter fun r => s.occupies id r = true).card

variable {p : Pass} {r : Ref} {s : Site} {id : StoreId}

theorem occupies_eq_true :
    s.occupies id r = true ↔
      s.pass.queue.busyAt r = true ∧ Dict.get? s.pass.assignedStoreId r = some id ∨
        (r, id) ∈ s.handed := by
  simp [occupies]

theorem load_le_card {refs : Finset Ref}
    (h : ∀ r, r < s.pass.queue.objects.length → s.occupies id r = true → r ∈ refs) :
    s.load id ≤ refs.card := by
  apply Finset.card_le_card
  intro r hr
  obtain ⟨hlt, hoccupies⟩ := Finset.mem_filter.1 hr
  exact h r (Finset.mem_range.1 hlt) hoccupies

/-- What every step keeps, whatever becomes of the stores. -/
structure Inv (s : Site) : Prop where
  queue : s.pass.queue.Inv
  made : ∀ item ∈ s.handed, item.1 < s.pass.queue.objects.length
  /-- **A pass never counts too few.** -/
  load_le_running : ∀ id, id ≠ "" → s.load id ≤ s.pass.running id

/-- The pass goes on without giving a build away. -/
structure Calm (p p' : Pass) : Prop where
  quits : BuildQueue.Quits p.queue p'.queue
  advances : BuildQueue.Advances p.queue p'.queue
  assignedStoreId : p'.assignedStoreId = p.assignedStoreId
  runningBuilds : p'.runningBuilds = p.runningBuilds
  assignedThisPass : p'.assignedThisPass = p.assignedThisPass

theorem Calm.length_le {p p' : Pass} (h : Calm p p') :
    p.queue.objects.length ≤ p'.queue.objects.length := by
  by_contra hlt
  rw [Nat.not_le] at hlt
  obtain ⟨b, hb, -⟩ := h.advances.persists _ _ (getElem?_eq_getElem hlt)
  rw [getElem?_eq_none (Nat.le_refl _)] at hb
  cases hb

theorem Calm.running {p p' : Pass} (h : Calm p p') (id : StoreId) :
    p'.running id = p.running id := by
  rw [Pass.running, Pass.running, h.runningBuilds, h.assignedThisPass]

theorem Inv.of_calm {s t : Site} (h : Inv s) (hcalm : Calm s.pass t.pass)
    (hhanded : t.handed = s.handed) : Inv t where
  queue := hcalm.advances.inv
  made := by
    rw [hhanded]
    exact fun item hitem => Nat.lt_of_lt_of_le (h.made item hitem) hcalm.length_le
  load_le_running := by
    intro id hid
    rw [hcalm.running]
    refine Nat.le_trans (load_le_card fun r _ hoccupies => ?_) (h.load_le_running id hid)
    rw [Finset.mem_filter, Finset.mem_range, occupies_eq_true]
    rw [occupies_eq_true, hhanded, hcalm.assignedStoreId] at hoccupies
    rcases hoccupies with ⟨hbusy, hassigned⟩ | hin
    · have hbefore := hcalm.quits.busyAt hcalm.advances hbusy
      obtain ⟨b, hb, -⟩ := BuildQueue.busyAt_eq_true.1 hbefore
      exact ⟨(List.getElem?_eq_some_iff.1 hb).1, .inl ⟨hbefore, hassigned⟩⟩
    · exact ⟨h.made _ hin, .inr hin⟩

theorem calm_refl (h : p.queue.Inv) : Calm p p :=
  ⟨.refl _, (BuildQueue.Quiet.refl _).advances h, rfl, rfl, rfl⟩

theorem calm_queue (h : p.queue.Inv) {e : BuildQueue.Event}
    (hstarts : e.starts = false) : Calm p { p with queue := p.queue.next e } :=
  ⟨BuildQueue.quits_next h hstarts, h.advances_next e, rfl, rfl, rfl⟩

/-! ### The start of a pass -/

theorem busyStore_eq_some :
    p.busyStore r = some id ↔
      (∃ b, p.queue.objects[r]? = some b ∧ b.isBuilding = true) ∧
        Dict.get? p.assignedStoreId r = some id ∧ id ≠ "" := by
  unfold Pass.busyStore
  split_ifs with hbuilding
  · rw [Option.any_eq_true] at hbuilding
    rw [Option.filter_eq_some_iff, decide_eq_true_eq]
    exact ⟨fun h => ⟨hbuilding, h⟩, And.right⟩
  · rw [Option.any_eq_true] at hbuilding
    exact iff_of_false (by simp) fun h => hbuilding h.1

theorem assignedCount_eq_some {refs : List Ref} {counts counts' : List (StoreId × Nat)}
    (h : assignedCount p refs counts = some counts') (id : StoreId) :
    (Dict.get? counts' id).getD 0 =
      (Dict.get? counts id).getD 0 + refs.countP fun r => p.busyStore r = some id := by
  induction refs generalizing counts with
  | nil =>
    cases h
    rfl
  | cons r refs ih =>
    unfold assignedCount at h
    cases hstore : p.busyStore r with
    | none =>
      simp only [hstore] at h
      rw [ih h, countP_cons_of_neg (by simp [hstore])]
    | some id' =>
      simp only [hstore] at h
      cases hget : Dict.get? counts id' with
      | none =>
        rw [hget] at h
        cases h
      | some n =>
        rw [hget] at h
        rw [ih h, countP_cons, Dict.get?_set]
        by_cases hid : id' = id
        · subst hid
          simp only [hstore, hget, if_true, decide_true, Option.getD_some]
          omega
        · simp [hstore, hid]

/-- **The lookup fails exactly for a running build of a store that is not in the table.** -/
theorem assignedCount_eq_none {refs : List Ref} {counts : List (StoreId × Nat)} :
    assignedCount p refs counts = none ↔
      ∃ r ∈ refs, ∃ id, p.busyStore r = some id ∧ Dict.get? counts id = none := by
  induction refs generalizing counts with
  | nil => simp [assignedCount]
  | cons r refs ih =>
    unfold assignedCount
    simp only [mem_cons, exists_eq_or_imp]
    cases hstore : p.busyStore r with
    | none => simpa using ih
    | some id' =>
      cases hget : Dict.get? counts id' with
      | none => simp [hget]
      | some n =>
        -- a count that is there stays there
        have hsame : ∀ id, Dict.get? (Dict.set counts id' (n + 1)) id = none ↔
            Dict.get? counts id = none := by
          intro id
          rw [Dict.get?_set]
          split_ifs with hid
          · subst hid
            simp [hget]
          · exact Iff.rfl
        simp only [hget, ih, hsame, Option.some.injEq]
        constructor
        · exact .inr
        · rintro (⟨id, rfl, hnone⟩ | h)
          · rw [hget] at hnone
            cases hnone
          · exact h

theorem runningBuilds_eq_none :
    s.runningBuilds = none ↔
      ∃ r ∈ s.pass.queue.pendingRefs, ∃ id, s.pass.busyStore r = some id ∧ ¬s.fleet.Knows id := by
  rw [runningBuilds, assignedCount_eq_none]
  refine exists_congr fun r => and_congr_right fun _ => exists_congr fun id =>
    and_congr_right fun _ => ?_
  have hkeys :=
    Dict.get?_isSome_iff (d := s.fleet.schedulable.map fun b => (b.storeId, 0)) (k := id)
  rw [← Option.not_isSome_iff_eq_none, hkeys, Fleet.Knows]
  simp

theorem inv_schedule (h : Inv s) (inFlight : StoreId → Nat) : Inv (s.schedule inFlight) := by
  unfold schedule
  cases hcounts : s.runningBuilds with
  | none => exact h
  | some counts =>
    refine ⟨h.queue, fun item hitem => ?_, fun id hid => ?_⟩
    · cases hitem
    · refine Nat.le_trans (load_le_card fun r _ hoccupies => ?_)
        (Nat.le_trans (toFinset_card_le (s.pass.queue.pendingRefs.filter fun r =>
          s.pass.busyStore r = some id)) ?_)
      · rw [occupies_eq_true] at hoccupies
        rcases hoccupies with ⟨hbusy, hassigned⟩ | hin
        · obtain ⟨b, hb, hbuilding, -⟩ := BuildQueue.busyAt_eq_true.1 hbusy
          rw [mem_toFinset, mem_filter, decide_eq_true_eq]
          refine ⟨BuildQueue.mem_pendingRefs_of_busyAt h.queue hbusy, ?_⟩
          exact busyStore_eq_some.2 ⟨⟨b, hb, hbuilding⟩, hassigned, hid⟩
        · cases hin
      · have hcount := assignedCount_eq_some hcounts id
        rw [← countP_eq_length_filter, Pass.running]
        simp only [hcount]
        omega

/-! ### A turn -/

section Turn

variable (demand : String → Demand) (ranker : Ranker)

theorem turn_of_none {s : Site} {r : Ref} (hnone : assignment demand ranker s r = none) :
    ∃ e : BuildQueue.Event, (e.starts = false ∧ e.ofAGoal = false) ∧
      (turn demand ranker s.fleet r s.pass).queue = s.pass.queue.next e ∧
      (turn demand ranker s.fleet r s.pass).assignedStoreId = s.pass.assignedStoreId ∧
      (turn demand ranker s.fleet r s.pass).runningBuilds = s.pass.runningBuilds ∧
      (turn demand ranker s.fleet r s.pass).assignedThisPass = s.pass.assignedThisPass := by
  unfold turn
  cases hb : s.pass.queue.objects[r]? with
  | none => exact ⟨.getPending, ⟨rfl, rfl⟩, rfl, rfl, rfl, rfl⟩
  | some b =>
    dsimp only
    cases hdecision : decision demand ranker s.fleet s.pass b with
    | unwanted => exact ⟨.cancelUnwanted b.buildId, ⟨rfl, rfl⟩, rfl, rfl, rfl, rfl⟩
    | noCompatible => exact ⟨.fail b.buildId _, ⟨rfl, rfl⟩, rfl, rfl, rfl, rfl⟩
    | allBlacklisted compatible => exact ⟨.fail b.buildId _, ⟨rfl, rfl⟩, rfl, rfl, rfl, rfl⟩
    | building => exact ⟨.getPending, ⟨rfl, rfl⟩, rfl, rfl, rfl, rfl⟩
    | held => exact ⟨.getPending, ⟨rfl, rfl⟩, rfl, rfl, rfl, rfl⟩
    | slotFull => exact ⟨.getPending, ⟨rfl, rfl⟩, rfl, rfl, rfl, rfl⟩
    | wait => exact ⟨.getPending, ⟨rfl, rfl⟩, rfl, rfl, rfl, rfl⟩
    | assign store =>
      have hsome := (assignment_eq_some demand ranker).2 ⟨b, hb, hdecision⟩
      rw [hnone] at hsome
      cases hsome

theorem calm_turn {s : Site} (h : Inv s) {r : Ref} (hnone : assignment demand ranker s r = none) :
    Calm s.pass (turn demand ranker s.fleet r s.pass) := by
  obtain ⟨e, ⟨hstarts, -⟩, hqueue, hassigned, hrunning, hpass⟩ := turn_of_none demand ranker hnone
  have hcalm := calm_queue h.queue hstarts
  refine ⟨?_, ?_, hassigned, hrunning, hpass⟩
  · rw [hqueue]
    exact hcalm.quits
  · rw [hqueue]
    exact hcalm.advances

/-- The pass behind a turn that gives the build to a store. -/
def given (p : Pass) (r : Ref) (store : Backend) : Pass :=
  { p with
    queue := p.queue.touch r fun b => { b with worker := some p.nextScope }
    assignedStoreId := Dict.set p.assignedStoreId r store.storeId
    assignedThisPass := Dict.set p.assignedThisPass store.storeId
      ((Dict.get? p.assignedThisPass store.storeId).getD 0 + 1)
    nextScope := p.nextScope + 1 }

theorem turn_of_assignment {s : Site} {r : Ref} {store : Backend}
    (h : assignment demand ranker s r = some store) :
    turn demand ranker s.fleet r s.pass = given s.pass r store := by
  obtain ⟨b, hb, hdecision⟩ := (assignment_eq_some demand ranker).1 h
  simp only [turn, hb, hdecision]
  rfl

theorem quiet_given (p : Pass) (r : Ref) (store : Backend) :
    BuildQueue.Quiet p.queue (given p r store).queue :=
  BuildQueue.quiet_touch _ _ fun _ => ⟨⟨rfl, rfl, fun _ => rfl⟩, rfl⟩

theorem busyAt_given {p : Pass} {r x : Ref} {store : Backend}
    (h : (given p r store).queue.busyAt x = true) : x = r ∨ p.queue.busyAt x = true := by
  obtain ⟨b', hb', hbuilding, hdone⟩ := BuildQueue.busyAt_eq_true.1 h
  by_cases hx : x = r
  · exact .inl hx
  · have hsame : (given p r store).queue.objects[x]? = p.queue.objects[x]? := by
      simp [given, BuildQueue.touch, Ne.symm hx]
    rw [hsame] at hb'
    exact .inr (BuildQueue.busyAt_eq_true.2 ⟨b', hb', hbuilding, hdone⟩)

theorem running_given (p : Pass) (r : Ref) (store : Backend) (id : StoreId) :
    (given p r store).running id = p.running id + if store.storeId = id then 1 else 0 := by
  simp only [Pass.running, given, Dict.get?_set]
  split_ifs with hid
  · subst hid
    rfl
  · rfl

theorem Inv.takeTurn {s : Site} (h : Inv s) (r : Ref) : Inv (takeTurn demand ranker s r) := by
  cases hassign : assignment demand ranker s r with
  | none =>
    refine h.of_calm (calm_turn demand ranker h hassign) ?_
    simp [Site.takeTurn, hassign]
  | some store =>
    have hpass : (Site.takeTurn demand ranker s r).pass = given s.pass r store :=
      turn_of_assignment demand ranker hassign
    have hhanded : (Site.takeTurn demand ranker s r).handed = (r, store.storeId) :: s.handed := by
      simp [Site.takeTurn, hassign]
    have hquiet := quiet_given s.pass r store
    obtain ⟨b, hb, -⟩ := (assignment_eq_some demand ranker).1 hassign
    have hlt : r < s.pass.queue.objects.length := (List.getElem?_eq_some_iff.1 hb).1
    refine ⟨?_, ?_, ?_⟩
    · rw [hpass]
      exact hquiet.inv h.queue
    · rw [hpass, hhanded, hquiet.follows.length, forall_mem_cons]
      exact ⟨hlt, h.made⟩
    · intro id hid
      have hbefore := h.load_le_running id hid
      -- the builds of the store in front of the turn, and the one it may have got
      let refs := (Finset.range s.pass.queue.objects.length).filter fun x =>
        s.occupies id x = true
      have hrefs : refs.card = s.load id := rfl
      have hold : ∀ x, x < (Site.takeTurn demand ranker s r).pass.queue.objects.length →
          (Site.takeTurn demand ranker s r).occupies id x = true →
            x ∈ refs ∨ x = r ∧ store.storeId = id := by
        intro x hx hoccupies
        rw [hpass, hquiet.follows.length] at hx
        rw [Finset.mem_filter, Finset.mem_range, occupies_eq_true]
        rw [occupies_eq_true, hpass, hhanded, mem_cons] at hoccupies
        rcases hoccupies with ⟨hbusy, hassigned⟩ | hnew | hin
        · rw [given, Dict.get?_set] at hassigned
          split_ifs at hassigned with hxr
          · exact .inr ⟨hxr.symm, Option.some.inj hassigned⟩
          · rcases busyAt_given hbusy with hxr' | hbusy
            · exact absurd hxr'.symm hxr
            · exact .inl ⟨hx, .inl ⟨hbusy, hassigned⟩⟩
        · cases hnew
          exact .inr ⟨rfl, rfl⟩
        · exact .inl ⟨hx, .inr hin⟩
      rw [hpass, running_given]
      by_cases hstore : store.storeId = id
      · rw [if_pos hstore]
        have hcard := load_le_card fun x hx hoccupies =>
          Finset.mem_insert.2 ((hold x hx hoccupies).symm.imp_left And.left)
        have hinsert := Finset.card_insert_le r refs
        omega
      · have hcard := load_le_card fun x hx hoccupies =>
          (hold x hx hoccupies).resolve_right fun hnew => hstore hnew.2
        omega

end Turn

/-! ### The end of a drain -/

theorem quiet_foldl_reset (assigned : List (Ref × StoreId)) (id : StoreId) (refs : List Ref)
    (q : BuildQueue) :
    BuildQueue.Quiet q (refs.foldl (resetOne assigned id) q) := by
  induction refs generalizing q with
  | nil => exact .refl q
  | cons r refs ih =>
    refine BuildQueue.Quiet.trans ?_ (ih _)
    unfold resetOne
    split_ifs
    · exact BuildQueue.quiet_touch q r fun _ => ⟨⟨rfl, rfl, fun _ => rfl⟩, rfl⟩
    · exact .refl q

/-- **Behind the loop no build of the store has a worker**, and no other build got one. -/
theorem building_foldl_reset (assigned : List (Ref × StoreId)) (id : StoreId) (refs : List Ref)
    (q : BuildQueue) (x : Ref) {b' : QueuedBuild}
    (hb' : (refs.foldl (resetOne assigned id) q).objects[x]? = some b')
    (hbuilding : b'.isBuilding = true) : (∃ b, q.objects[x]? = some b ∧ b.isBuilding = true) ∧
      (x ∈ refs → Dict.get? assigned x ≠ some id) := by
  induction refs generalizing q with
  | nil => exact ⟨⟨b', hb', hbuilding⟩, nofun⟩
  | cons r refs ih =>
    obtain ⟨⟨b, hb, hran⟩, hrest⟩ := ih _ hb'
    unfold resetOne at hb
    split_ifs at hb with hassigned
    · rw [BuildQueue.touch, getElem?_modify] at hb
      obtain ⟨c, hc, rfl⟩ := Option.map_eq_some_iff.1 hb
      by_cases hx : r = x
      · rw [if_pos hx] at hran
        cases hran
      · rw [if_neg hx] at hran
        refine ⟨⟨c, hc, hran⟩, fun hin => ?_⟩
        exact hrest ((mem_cons.1 hin).resolve_left (Ne.symm hx))
    · refine ⟨⟨b, hb, hran⟩, fun hin => ?_⟩
      rcases mem_cons.1 hin with rfl | hin
      · exact hassigned
      · exact hrest hin

theorem calm_resetBuilds (h : p.queue.Inv) (id : StoreId) :
    Calm p (resetBuilds p id) where
  quits := ⟨fun r _ hb' hbuilding => (building_foldl_reset _ id _ _ r hb' hbuilding).1⟩
  advances := (quiet_foldl_reset _ id _ _).advances h
  assignedStoreId := rfl
  runningBuilds := rfl
  assignedThisPass := rfl

theorem not_busyAt_resetBuilds (h : p.queue.Inv)
    (hbusy : (resetBuilds p id).queue.busyAt r = true) :
    Dict.get? p.assignedStoreId r ≠ some id := by
  have hcalm := calm_resetBuilds h id
  obtain ⟨b', hb', hbuilding, -⟩ := BuildQueue.busyAt_eq_true.1 hbusy
  apply (building_foldl_reset _ id _ _ r hb' hbuilding).2
  exact BuildQueue.mem_pendingRefs_of_busyAt h (hcalm.quits.busyAt hcalm.advances hbusy)

/-! ### Steps -/

section Steps

variable (demand : String → Demand) (ranker : Ranker)

theorem Inv.of_fleet {s t : Site} (h : Inv s) (hpass : t.pass = s.pass)
    (hhanded : t.handed = s.handed) : Inv t := by
  apply h.of_calm _ hhanded
  rw [hpass]
  exact calm_refl h.queue

theorem drainStore_frame (s : Site) (id : StoreId) (remove : Bool) :
    (s.drainStore id remove).pass = s.pass ∧ (s.drainStore id remove).handed = s.handed := by
  unfold drainStore
  split_ifs <;> exact ⟨rfl, rfl⟩

theorem inv_step {s t : Site} {e : Event} (h : Inv s) (hstep : step demand ranker s e = some t) :
    Inv t := by
  cases e with
  | schedule inFlight =>
    simp only [step] at hstep
    split_ifs at hstep
    cases hstep
    exact inv_schedule h inFlight
  | turn =>
    simp only [step] at hstep
    split at hstep
    · cases hstep
    · next r rest _ =>
      cases hstep
      exact (h.takeTurn demand ranker r).of_fleet rfl rfl
  | passFails =>
    cases hstep
    exact h.of_fleet rfl rfl
  | queue e =>
    simp only [step] at hstep
    split_ifs at hstep with hstarts
    cases hstep
    exact h.of_calm (calm_queue h.queue (by simpa using hstarts)) rfl
  | addStore store dynamic =>
    simp only [step] at hstep
    split_ifs at hstep
    cases hstep
    exact h.of_fleet rfl rfl
  | reconnected store dynamic =>
    cases hstep
    exact h.of_fleet rfl rfl
  | drainStore id remove =>
    cases hstep
    exact h.of_fleet (drainStore_frame s id remove).1 (drainStore_frame s id remove).2
  | drained id remove =>
    simp only [step] at hstep
    split_ifs at hstep
    · cases hstep
      exact h.of_calm (calm_resetBuilds h.queue id) rfl
    · cases hstep
      exact h.of_calm (calm_resetBuilds h.queue id) rfl
  | look context allocator =>
    cases hstep
    exact h.of_fleet rfl rfl

theorem inv_start (f : Fleet) : Inv (start f) where
  queue := BuildQueue.inv_empty
  made := by
    intro item hitem
    cases hitem
  load_le_running := fun _ _ => Nat.zero_le _

end Steps

end Site

end Pynixd.Scheduler
