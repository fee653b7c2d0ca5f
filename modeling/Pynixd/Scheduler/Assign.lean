import Pynixd.Outputs.Locations
import Pynixd.Queue.Indexes
import Mathlib.Data.Finset.Sort

/-!
# One pass of the scheduler

A pass goes over the pending builds and gives each one to a store, leaves it waiting, or ends
it.  Two of its reasons to end a build are for good: no store can ever build it, or every store
that could has failed at it.

* `lawful_iff_fair` — **a build is failed for good only where it must be**, exactly for the builds
  that somebody wants and that do not depend on a local store which is away for the moment;
* `noCompatible_in_cooldown` — a local store in its cooldown is taken for none.
-/

namespace Pynixd.Scheduler

open Outputs (StoreId localStoreId)
open Queue (QueuedBuild BuildQueue BuildId RequestId Ref)
open Runs

/-! ## What a build asks for -/

def isSpace (c : Char) : Bool :=
  (c.toNat ∈ [9, 10, 11, 12, 13, 28, 29, 30, 31, 32, 133, 160, 5760, 8232, 8233, 8239, 8287,
    12288]) || (8192 ≤ c.toNat && c.toNat ≤ 8202)

def splitWords (text : String) : List String :=
  ((text.toList.splitOnP isSpace).filter (· ≠ [])).map String.ofList

/-- The part of a derivation that a pass reads: its platform, and the entry of its
environment for the features, empty where there is none. -/
structure Demand where
  platform : String
  requiredSystemFeatures : String
  deriving DecidableEq, Repr

def pynixdHandledFeatures : Finset String := {"dynamic-derivations"}

def effectiveRequiredFeatures (d : Demand) : Finset String :=
  (splitWords d.requiredSystemFeatures).toFinset \ pynixdHandledFeatures

/-! ## Stores -/

/-- What a pass reads of a store. -/
structure Backend where
  storeId : StoreId
  isDaemon : Bool
  /-- The store is not in the cooldown of its circuit breaker. -/
  isHealthy : Bool
  draining : Bool
  /-- A store that only substitutes. -/
  noSchedule : Bool
  /-- The features of each platform, once the store was probed. -/
  featureMatrix : Option (List (String × Finset String))
  limit : Nat
  deriving DecidableEq

/-- `_dynamic_supports`, and the part of `supports_derivation` for a matrix. -/
def matrixSupports (matrix : List (String × Finset String)) (system : String)
    (features : Finset String) : Bool :=
  match Dict.get? matrix system with
  | none => false
  | some sysFeatures => if features = ∅ then true else features ⊆ sysFeatures

def Backend.supportsDerivation (s : Backend) (system : String) (features : Finset String) :
    Bool :=
  match s.featureMatrix with
  | some matrix => matrixSupports matrix system features
  | none => if features = ∅ then true else Disjoint features {"kvm", "apple-virt"}

def Backend.supports (s : Backend) (d : Demand) : Bool :=
  s.supportsDerivation d.platform (effectiveRequiredFeatures d)

/-- The stores of one moment.  The local store is one of the context's, and no other store
goes by its id. -/
structure Fleet where
  stores : List Backend
  localStore : Backend
  /-- `allocator.stores`, which is kept on its own. -/
  allocated : List Backend
  dynamicFeatureMatrix : List (String × Finset String)
  local_mem : localStore ∈ stores
  local_unique : ∀ s ∈ stores, s.storeId = localStore.storeId → s = localStore

namespace Fleet

/-- `Scheduler.stores`. -/
def schedulable (f : Fleet) : List Backend := f.stores.filter fun s => s.isDaemon && !s.noSchedule

/-- The stores that a build can come to: the fallback asks the local one whether it is
scheduled or not. -/
def builders (f : Fleet) : List Backend := f.localStore :: f.schedulable

def dynamicSupports (f : Fleet) (d : Demand) : Bool :=
  matrixSupports f.dynamicFeatureMatrix d.platform (effectiveRequiredFeatures d)

def hasCompatibleStore (f : Fleet) (d : Demand) : Bool :=
  (f.schedulable.any fun s => s.storeId ≠ f.localStore.storeId && s.supports d) ||
    f.dynamicSupports d

/-- `all_compatible` of `_assign_to_stores`. -/
def allCompatible (f : Fleet) (d : Demand) : List Backend := f.schedulable.filter (·.supports d)

end Fleet

/-! ## The pass -/

def maxStoreRetries : Nat := 3

def isBlacklisted (b : QueuedBuild) (id : StoreId) : Bool :=
  maxStoreRetries ≤ (Dict.get? b.storeFailures id).getD 0

structure Pass where
  queue : BuildQueue
  /-- `assigned_store_id` of each build. -/
  assignedStoreId : List (Ref × StoreId)
  /-- `running_builds`, counted before the first build. -/
  runningBuilds : List (StoreId × Nat)
  overrideInFlight : List (StoreId × Nat)
  assignedThisPass : List (StoreId × Nat)
  waitingSlot : List BuildId
  heldByPressure : List BuildId
  nextScope : Nat

/-- `StoreRanker.rank_stores`: the best store first, and none below the threshold. -/
abbrev Ranker := QueuedBuild → List Backend → List (StoreId × Nat) → List (StoreId × Nat) →
  List Backend

section Pass

/-! The derivation behind each path, and the ranker of the allocator. -/
variable (demand : String → Demand) (ranker : Ranker)

/-- `BuildAllocator.rank_stores`. -/
def rankStores (f : Fleet) (p : Pass) (b : QueuedBuild) : List Backend :=
  let candidates := f.allocated.filter fun s =>
    s.storeId ≠ f.localStore.storeId && (s.isHealthy && !s.draining && !s.noSchedule) &&
      s.supports (demand b.drvPath) && !isBlacklisted b s.storeId
  ranker b candidates p.assignedThisPass p.overrideInFlight

/-- The local store may take the build now, as far as health, draining and failures go. -/
def Fleet.localIsAvailable (f : Fleet) (b : QueuedBuild) : Bool :=
  f.localStore.isHealthy && !f.localStore.draining && !isBlacklisted b f.localStore.storeId

namespace Pass

/-- The builds of a store, with those that this pass has given it. -/
def running (p : Pass) (id : StoreId) : Nat :=
  (Dict.get? p.runningBuilds id).getD 0 + (Dict.get? p.assignedThisPass id).getD 0

def hasBuildRoom (p : Pass) (s : Backend) : Bool := p.running s.storeId < s.limit

def requestHasALocalSlot (p : Pass) (localId : StoreId) (request : RequestId) : Bool :=
  match (Dict.get? p.queue.maxJobs request).join with
  | none => true
  | some jobs =>
    let running := p.queue.byId.countP fun item =>
      (p.queue.objects[item.2]?).any fun b =>
        b.isBuilding && Dict.get? p.assignedStoreId item.2 = some localId &&
          request ∈ b.holders
    running < max 1 jobs

def liveWanters (p : Pass) (b : QueuedBuild) : Finset RequestId := b.holders \ p.queue.givenUp

def localSlotIsFull (p : Pass) (localId : StoreId) (b : QueuedBuild) : Bool :=
  if p.liveWanters b ≠ ∅ then
    !decide (∃ request ∈ p.liveWanters b, p.requestHasALocalSlot localId request = true)
  else
    match b.options with
    | none => false
    | some options => max 1 options.maxBuildJobs ≤ p.running localId

end Pass

inductive Decision where
  /-- Another pass has given it to a store. -/
  | building
  /-- No live request wants it: `cancel_unwanted`. -/
  | unwanted
  /-- `_fail_no_compatible_store`. -/
  | noCompatible
  /-- Every candidate is at its build limit. -/
  | held
  /-- `max-jobs` leaves no local slot. -/
  | slotFull
  | assign (store : Backend)
  /-- `_fail_all_compatible_blacklisted`. -/
  | allBlacklisted (compatible : List Backend)
  | wait
  deriving DecidableEq

def decision (f : Fleet) (p : Pass) (b : QueuedBuild) : Decision :=
  let d := demand b.drvPath
  if b.isBuilding then .building
  else if p.queue.nobodyWants b then .unwanted
  else
    let ranked := rankStores demand ranker f p b
    let localIsFallback := ranked.isEmpty && f.localIsAvailable b && f.localStore.supports d
    if ranked.isEmpty && !localIsFallback && !f.hasCompatibleStore d then .noCompatible
    else if !ranked.isEmpty || localIsFallback then
      let candidates := if ranked.isEmpty then [f.localStore] else ranked
      match candidates.find? p.hasBuildRoom with
      | none => .held
      | some s =>
        if s.storeId = f.localStore.storeId && p.localSlotIsFull f.localStore.storeId b then
          .slotFull
        else .assign s
    else
      let compatible := f.allCompatible d
      if !compatible.isEmpty && compatible.all fun s => isBlacklisted b s.storeId then
        .allBlacklisted compatible
      else .wait

/-- The part of a message that names the features. -/
def requires (d : Demand) : String :=
  if effectiveRequiredFeatures d = ∅ then ""
  else
    let names := ", ".intercalate ((effectiveRequiredFeatures d).sort (· ≤ ·))
    s!" (requires {names})"

/-- The message of `_fail_no_compatible_store`. -/
def noCompatibleStoreMsg (d : Demand) : String :=
  let platform := d.platform
  let features := requires d
  s!"No compatible store for {platform}{features}"

/-- The message of `_fail_all_compatible_blacklisted`. -/
def allCompatibleFailedMsg (d : Demand) (compatible : List Backend) : String :=
  let platform := d.platform
  let features := requires d
  let failedIds := ", ".intercalate (compatible.map (·.storeId))
  s!"All compatible stores failed for {platform}{features}: {failedIds}"

def turn (f : Fleet) (r : Ref) (p : Pass) : Pass :=
  match p.queue.objects[r]? with
  | none => p
  | some b =>
    let d := demand b.drvPath
    match decision demand ranker f p b with
    | .building => p
    | .unwanted => { p with queue := p.queue.cancelUnwanted b.buildId }
    | .noCompatible =>
      { p with queue := (p.queue.fail b.buildId (noCompatibleStoreMsg d)).2 }
    | .held =>
      { p with
        heldByPressure := p.heldByPressure.insert b.buildId
        waitingSlot := p.waitingSlot ++ [b.buildId] }
    | .slotFull | .wait => { p with waitingSlot := p.waitingSlot ++ [b.buildId] }
    | .assign s =>
      { p with
        queue := p.queue.touch r fun b => { b with worker := some p.nextScope }
        assignedStoreId := Dict.set p.assignedStoreId r s.storeId
        assignedThisPass := Dict.set p.assignedThisPass s.storeId
          ((Dict.get? p.assignedThisPass s.storeId).getD 0 + 1)
        nextScope := p.nextScope + 1 }
    | .allBlacklisted compatible =>
      { p with queue := (p.queue.fail b.buildId (allCompatibleFailedMsg d compatible)).2 }

inductive Event where
  /-- The pass comes to a build, with the stores as they are now. -/
  | turn (f : Fleet) (build : Ref)
  /-- Another task runs while the pass waits for the lock of the queue. -/
  | meanwhile (e : BuildQueue.Event)

def next (p : Pass) : Event → Pass
  | .turn f r => turn demand ranker f r p
  | .meanwhile e => { p with queue := p.queue.next e }

def step (p : Pass) (e : Event) : Option Pass := some (next demand ranker p e)

/-! ## The law -/

/-- What a decision says of the stores: a build fails for want of a compatible store only when
no store supports it, the local one included, and no entry of the dynamic matrix does; it fails
for its failures only when every store that supports it has blacklisted it; and every other
build that gets no store is left waiting. -/
def Decision.Lawful (f : Fleet) (b : QueuedBuild) (d : Demand) : Decision → Prop
  | .noCompatible => (∀ s ∈ f.builders, s.supports d = false) ∧ f.dynamicSupports d = false
  | .allBlacklisted _ => ∀ s ∈ f.builders, s.supports d = true → isBlacklisted b s.storeId = true
  | .unwanted => False
  | .building | .held | .slotFull | .assign _ | .wait => True

/-- **A build is failed for good only where it must be.** -/
def Lawful (p : Pass) : Event → Prop
  | .turn f r => ∀ b, p.queue.objects[r]? = some b →
      (decision demand ranker f p b).Lawful f b (demand b.drvPath)
  | .meanwhile _ => True

/-- Somebody wants the build, and where the local store supports it and cannot take it now,
with no other store to rank, then another store supports it or the dynamic matrix does, and
the local store is not the only one of the supporting stores that has not blacklisted it. -/
def Fair (p : Pass) : Event → Prop
  | .turn f r => ∀ b, p.queue.objects[r]? = some b → b.isBuilding = false →
      let d := demand b.drvPath
      p.queue.nobodyWants b = false ∧
      (f.localStore.supports d = true → f.localIsAvailable b = false →
        rankStores demand ranker f p b = [] →
          f.hasCompatibleStore d = true ∧
          (f.allCompatible d ≠ [] → (∀ s ∈ f.allCompatible d, isBlacklisted b s.storeId = true) →
            isBlacklisted b f.localStore.storeId = true))
  | .meanwhile _ => True

variable {d : Demand} {f : Fleet} {p : Pass} {b : QueuedBuild}

theorem not_supports_of_not_hasCompatibleStore
    (h : f.hasCompatibleStore d = false) {s : Backend} (hs : s ∈ f.schedulable)
    (hlocal : f.localStore.supports d = false) : s.supports d = false := by
  have hmem : s ∈ f.stores := (List.mem_filter.1 hs).1
  by_cases hid : s.storeId = f.localStore.storeId
  · rw [f.local_unique s hmem hid]
    exact hlocal
  · rw [Fleet.hasCompatibleStore, Bool.or_eq_false_iff, List.any_eq_false] at h
    simpa [hid] using h.1 s hs

theorem dynamicSupports_of_not_hasCompatibleStore
    (h : f.hasCompatibleStore d = false) : f.dynamicSupports d = false :=
  (Bool.or_eq_false_iff.1 h).2

theorem lawful_of_placed
    (hbuilding : b.isBuilding = false) (hwanted : p.queue.nobodyWants b = false)
    (hplaced : rankStores demand ranker f p b ≠ [] ∨
      f.localIsAvailable b = true ∧ f.localStore.supports (demand b.drvPath) = true) :
    (decision demand ranker f p b).Lawful f b (demand b.drvPath) := by
  have hempty : (rankStores demand ranker f p b).isEmpty = true →
      f.localIsAvailable b = true ∧ f.localStore.supports (demand b.drvPath) = true :=
    fun h => hplaced.resolve_left fun hne => hne (List.isEmpty_iff.1 h)
  simp only [decision, hbuilding, hwanted, Bool.false_eq_true, if_false]
  cases hranked : (rankStores demand ranker f p b).isEmpty with
  | false =>
    simp only [Bool.false_and, Bool.false_eq_true, if_false, Bool.not_false, Bool.true_or, if_true]
    split
    · trivial
    · split_ifs <;> trivial
  | true =>
    simp only [(hempty hranked).1, (hempty hranked).2, Bool.and_self, Bool.not_true,
      Bool.and_false, Bool.false_and, Bool.false_eq_true, if_false, Bool.false_or, if_true]
    split
    · trivial
    · split_ifs <;> trivial

theorem decision_of_stuck
    (hbuilding : b.isBuilding = false) (hwanted : p.queue.nobodyWants b = false)
    (hranked : rankStores demand ranker f p b = [])
    (hlocal : (f.localIsAvailable b && f.localStore.supports (demand b.drvPath)) = false) :
    decision demand ranker f p b =
      if f.hasCompatibleStore (demand b.drvPath) = false then .noCompatible
      else if f.allCompatible (demand b.drvPath) ≠ [] ∧
          ∀ s ∈ f.allCompatible (demand b.drvPath), isBlacklisted b s.storeId = true then
        .allBlacklisted (f.allCompatible (demand b.drvPath))
      else .wait := by
  simp only [decision, hbuilding, hwanted, hranked, List.isEmpty_nil, Bool.true_and, hlocal,
    Bool.false_eq_true, if_false, Bool.not_false, Bool.not_true, Bool.or_self]
  cases f.hasCompatibleStore (demand b.drvPath) with
  | false => simp
  | true => simp

theorem lawful_noCompatible_iff (hcompatible : f.hasCompatibleStore d = false) :
    Decision.noCompatible.Lawful f b d ↔ f.localStore.supports d = false := by
  constructor
  · exact fun h => h.1 f.localStore List.mem_cons_self
  · intro hlocal
    refine ⟨fun s hs => ?_, dynamicSupports_of_not_hasCompatibleStore hcompatible⟩
    rcases List.mem_cons.1 hs with rfl | hs
    · exact hlocal
    · exact not_supports_of_not_hasCompatibleStore hcompatible hs hlocal

/-- Where the scheduled stores have blacklisted the build, failing it is right unless the local
store supports it and has not. -/
theorem lawful_allBlacklisted_iff
    (hall : ∀ s ∈ f.allCompatible d, isBlacklisted b s.storeId = true) (l : List Backend) :
    (Decision.allBlacklisted l).Lawful f b d ↔
      (f.localStore.supports d = true → isBlacklisted b f.localStore.storeId = true) := by
  constructor
  · exact fun h => h f.localStore List.mem_cons_self
  · intro hlocal s hs hsupports
    rcases List.mem_cons.1 hs with rfl | hs
    · exact hlocal hsupports
    · exact hall s (List.mem_filter.2 ⟨hs, hsupports⟩)

theorem lawful_iff_of_stuck
    (hbuilding : b.isBuilding = false) (hwanted : p.queue.nobodyWants b = false)
    (hranked : rankStores demand ranker f p b = [])
    (haway : f.localStore.supports (demand b.drvPath) = true → f.localIsAvailable b = false) :
    (decision demand ranker f p b).Lawful f b (demand b.drvPath) ↔
      (f.localStore.supports (demand b.drvPath) = true →
        f.hasCompatibleStore (demand b.drvPath) = true ∧
        (f.allCompatible (demand b.drvPath) ≠ [] →
          (∀ s ∈ f.allCompatible (demand b.drvPath), isBlacklisted b s.storeId = true) →
            isBlacklisted b f.localStore.storeId = true)) := by
  have hstuck : (f.localIsAvailable b && f.localStore.supports (demand b.drvPath)) = false := by
    cases hsupports : f.localStore.supports (demand b.drvPath) with
    | false => exact Bool.and_false _
    | true => rw [haway hsupports, Bool.false_and]
  rw [decision_of_stuck demand ranker hbuilding hwanted hranked hstuck]
  cases hcompatible : f.hasCompatibleStore (demand b.drvPath) with
  | false =>
    rw [if_pos rfl, lawful_noCompatible_iff hcompatible]
    cases f.localStore.supports (demand b.drvPath) <;> simp
  | true =>
    rw [if_neg (by decide)]
    by_cases hall : f.allCompatible (demand b.drvPath) ≠ [] ∧
        ∀ s ∈ f.allCompatible (demand b.drvPath), isBlacklisted b s.storeId = true
    · rw [if_pos hall, lawful_allBlacklisted_iff hall.2]
      exact ⟨fun h hsupports => ⟨rfl, fun _ _ => h hsupports⟩,
        fun h hsupports => (h hsupports).2 hall.1 hall.2⟩
    · rw [if_neg hall]
      exact iff_of_true trivial fun _ => ⟨rfl, fun hne hlisted => absurd ⟨hne, hlisted⟩ hall⟩

theorem lawful_iff_step (p : Pass) (e : Event) :
    Lawful demand ranker p e ↔ Fair demand ranker p e := by
  cases e with
  | meanwhile e => exact Iff.rfl
  | turn f r =>
    refine forall_congr' fun b => imp_congr_right fun _ => ?_
    cases hbuilding : b.isBuilding with
    | true => simp [decision, hbuilding, Decision.Lawful]
    | false =>
      cases hwanted : p.queue.nobodyWants b with
      | true => simp [decision, hbuilding, hwanted, Decision.Lawful]
      | false =>
        by_cases hplaced : rankStores demand ranker f p b ≠ [] ∨
            f.localIsAvailable b = true ∧ f.localStore.supports (demand b.drvPath) = true
        · refine iff_of_true (lawful_of_placed demand ranker hbuilding hwanted hplaced) ?_
          refine fun _ => ⟨rfl, fun hsupports haway hranked => ?_⟩
          rcases hplaced with hne | ⟨havailable, -⟩
          · exact absurd hranked hne
          · exact absurd (haway.symm.trans havailable) Bool.false_ne_true
        · rw [not_or, not_ne_iff] at hplaced
          obtain ⟨hranked, hlocal⟩ := hplaced
          have haway : f.localStore.supports (demand b.drvPath) = true →
              f.localIsAvailable b = false :=
            fun hsupports => Bool.eq_false_iff.2 fun h => hlocal ⟨h, hsupports⟩
          rw [lawful_iff_of_stuck demand ranker hbuilding hwanted hranked haway]
          exact ⟨fun h _ => ⟨rfl, fun hsupports _ _ => h hsupports⟩,
            fun h hsupports => (h rfl).2 hsupports (haway hsupports) hranked⟩

/-- **The permanent failure law**: over any number of passes, with the stores as they happen to be
at each build and whatever the other tasks do in between, every build is failed for good only where
it must be exactly when every turn is fair. -/
theorem lawful_iff_fair (p : Pass) (es : List Event) :
    Guarded (step demand ranker) (Lawful demand ranker) p es ↔
      Guarded (step demand ranker) (Fair demand ranker) p es :=
  guarded_congr (fun _ _ _ _ _ => trivial)
    (fun p e (_ : True) => lawful_iff_step demand ranker p e) trivial es

end Pass

/-! ## Stores that come back -/

/-- The local store, in the cooldown of its circuit breaker. -/
def inCooldown : Backend := ⟨localStoreId, true, false, false, false, none, 8⟩

/-- A local store that is not scheduled, in its cooldown. -/
def unscheduled : Backend := { inCooldown with noSchedule := true }

def worn : Backend := ⟨"builder", true, true, false, false, none, 8⟩

def alone : Fleet where
  stores := [inCooldown]
  localStore := inCooldown
  allocated := [inCooldown]
  dynamicFeatureMatrix := []
  local_mem := List.mem_singleton_self _
  local_unique := by simp

/-- A local store that is not scheduled, and a builder. -/
def pair : Fleet where
  stores := [unscheduled, worn]
  localStore := unscheduled
  allocated := [worn]
  dynamicFeatureMatrix := []
  local_mem := by simp
  local_unique := by decide

/-- A build that waits, with its failures on the builder. -/
def waitingBuild (failures : Nat) : QueuedBuild :=
  { QueuedBuild.new 1 "/nix/store/a.drv" none ∅ false with
    storeFailures := [("builder", failures)] }

/-- The first turn of a pass over one build. -/
def onePass (b : QueuedBuild) : Pass where
  queue := { BuildQueue.empty with objects := [b], queue := [0], byId := [(1, 0)], nextId := 2 }
  assignedStoreId := []
  runningBuilds := []
  overrideInFlight := []
  assignedThisPass := []
  waitingSlot := []
  heldByPressure := []
  nextScope := 0

/-- Every derivation is for one platform and asks for no feature. -/
def linux : String → Demand := fun _ => ⟨"x86_64-linux", ""⟩

/-- A ranker that takes the stores as they come. -/
def asTheyCome : Ranker := fun _ stores _ _ => stores

/-- **A local store in its cooldown is taken for none**: a build that it supports fails for
want of a compatible store.  And where the local store is not scheduled, the build fails as
blacklisted by all while the local store has not failed at it once. -/
theorem noCompatible_in_cooldown :
    ¬Lawful linux asTheyCome (onePass (waitingBuild 0)) (.turn alone 0) ∧
      ¬Lawful linux asTheyCome (onePass (waitingBuild 3)) (.turn pair 0) := by
  constructor
  · intro h
    have hlaw := h (waitingBuild 0) rfl
    exact absurd (hlaw.1 inCooldown List.mem_cons_self) (by decide +kernel)
  · intro h
    have hlaw := h (waitingBuild 3) rfl
    exact absurd (hlaw unscheduled List.mem_cons_self (by decide +kernel)) (by decide +kernel)

end Pynixd.Scheduler
