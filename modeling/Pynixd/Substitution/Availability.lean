import Pynixd.Lib.Dict
import Pynixd.Lib.Runs
import Pynixd.Protocol.DerivedPath

/-!
# Whether a path can be substituted

`SubstitutionQueue.can_substitute` of `pynixd/substitution_queue.py` asks every substituter that
has no cached answer for a path, and waits for the healthy ones among them.  The probes share a
slot for the first positive answer, the set of the healthy stores that are still out, and an
event; each of them fills its part in under a lock.

* `canSubstitute_sound` — the call does not wait for a store that is not healthy, answers
  *available* **whenever a store that it waits for has the path**, and only if a store has it.
-/

namespace Pynixd.Substituters

open List Runs

abbrev StoreId := String

/-! ## Answers and what is remembered of them -/

/-- `ValidPathInfo`, as far as a selection reads it. -/
structure PathInfo where
  references : List StorePath
  narSize : Nat
  deriving DecidableEq

structure QueryResult where
  storeId : StoreId
  pathInfo : Option PathInfo
  querySucceeded : Bool
  deriving DecidableEq

def QueryResult.found (r : QueryResult) : Bool := r.pathInfo.isSome

structure Availability where
  available : Bool
  narSize : Option Nat
  downloadSize : Option Nat
  deriving DecidableEq

namespace Availability

def unavailable : Availability := ⟨false, none, none⟩

def fromQueryResult (r : QueryResult) : Availability :=
  match r.pathInfo with
  | none => unavailable
  | some info => ⟨true, some info.narSize, some info.narSize⟩

end Availability

inductive Reply where
  | valid (info : PathInfo)
  | invalid
  /-- `OpNotImplementedError`, `TimeoutError`, or any other `Exception`. -/
  | unsupported
  | timeout
  | error

def queryStore (id : StoreId) : Reply → QueryResult
  | .valid info => ⟨id, some info, true⟩
  | .invalid => ⟨id, none, true⟩
  | .unsupported | .timeout | .error => ⟨id, none, false⟩

structure Settings where
  healthWindow : Nat
  minFillRatio : Rat
  minSuccessRatio : Rat

def Settings.minEntries (c : Settings) : Nat := max 1 (c.healthWindow * c.minFillRatio).floor.toNat

/-- `SubstitutionHealthLog.is_healthy`. -/
def isHealthy (c : Settings) (entries : List Bool) : Bool :=
  entries.length < c.minEntries ||
    c.minSuccessRatio < (entries.count true : Rat) / (entries.length : Rat)

abbrev Cache := List (StorePath × List (StoreId × QueryResult))

/-- What a `SubstitutionQueue` remembers. -/
structure Memory where
  positive : Cache
  negative : Cache
  health : List (StoreId × List Bool)

def Cache.perStore (cache : Cache) (path : StorePath) : List (StoreId × QueryResult) :=
  (Dict.get? cache path).getD []

def Cache.record (cache : Cache) (path : StorePath) (r : QueryResult) : Cache :=
  Dict.set cache path (Dict.set (cache.perStore path) r.storeId r)

namespace Memory

def healthFor (m : Memory) (id : StoreId) : List Bool := (Dict.get? m.health id).getD []

/-- `record_query_result`; a health log keeps the last entries. -/
def recordQueryResult (c : Settings) (m : Memory) (path : StorePath) (r : QueryResult) :
    Memory where
  positive := if r.found then m.positive.record path r else m.positive
  negative := if r.found then m.negative else m.negative.record path r
  health :=
    let entries := m.healthFor r.storeId ++ [r.querySucceeded]
    Dict.set m.health r.storeId (entries.drop (entries.length - c.healthWindow))

def hasCachedResult (m : Memory) (path : StorePath) (id : StoreId) : Bool :=
  (Dict.get? (m.positive.perStore path) id).isSome ||
    (Dict.get? (m.negative.perStore path) id).isSome

end Memory

/-! ## The call -/

/-- A call of `can_substitute` with its probes. -/
structure Call where
  /-- The probes whose query is out. -/
  asking : List StoreId
  /-- The probes that have recorded their result and come to the lock. -/
  recorded : List QueryResult
  healthyPending : List StoreId
  firstPositive : Option QueryResult
  done : Bool
  answer : Option Availability
  deriving DecidableEq

/-- What a probe does under the lock. -/
def Call.settle (call : Call) (r : QueryResult) : Call :=
  let first := r.found && call.firstPositive.isNone
  let pending := call.healthyPending.filter (· ≠ r.storeId)
  { call with
    recorded := call.recorded.erase r
    firstPositive := if first then some r else call.firstPositive
    healthyPending := pending
    done := call.done || first || pending.isEmpty }

structure State where
  memory : Memory
  call : Call

inductive Event where
  /-- The query of a store comes back and is recorded. -/
  | replies (id : StoreId)
  /-- A probe gets the lock. -/
  | settles (id : StoreId)
  | resumes
  /-- Other calls record, and entries expire. -/
  | elsewhere (memory : Memory)

/-- One event, where each store answers its query with `reply`. -/
def step (c : Settings) (path : StorePath) (reply : StoreId → Reply) (s : State) :
    Event → Option State
  | .replies id =>
    if id ∈ s.call.asking then
      some {
        memory := s.memory.recordQueryResult c path (queryStore id (reply id))
        call := { s.call with
          asking := s.call.asking.erase id
          recorded := s.call.recorded ++ [queryStore id (reply id)] } }
    else none
  | .settles id =>
    (s.call.recorded.find? (·.storeId = id)).map fun r => { s with call := s.call.settle r }
  | .resumes =>
    if s.call.done = true ∧ s.call.answer = none then
      some { s with call := { s.call with
        answer := some (s.call.firstPositive.elim .unavailable .fromQueryResult) } }
    else none
  | .elsewhere memory => some { s with memory := memory }

/-! ## The answer -/

def Holds (reply : StoreId → Reply) (id : StoreId) : Prop := ∃ info, reply id = .valid info

/-- The answer is right about the stores that were asked. -/
structure Right (reply : StoreId → Reply) (asked waited : List StoreId) (a : Availability) :
    Prop where
  complete : (∃ id ∈ waited, Holds reply id) → a.available = true
  sound : a.available = true → ∃ id ∈ asked, Holds reply id

/-- The probe of a store has not come to its end. -/
def Call.Out (call : Call) (id : StoreId) : Prop :=
  id ∈ call.asking ∨ ∃ r ∈ call.recorded, r.storeId = id

structure Inv (reply : StoreId → Reply) (asked waited : List StoreId) (call : Call) : Prop where
  asking : call.asking ⊆ asked
  recorded : ∀ r ∈ call.recorded, r.storeId ∈ asked ∧ r = queryStore r.storeId (reply r.storeId)
  first : ∀ r, call.firstPositive = some r →
    r.found = true ∧ r.storeId ∈ asked ∧ r = queryStore r.storeId (reply r.storeId)
  pending : ∀ id ∈ call.healthyPending, id ∈ waited ∧ call.Out id
  settled : ∀ id ∈ waited, id ∈ call.healthyPending ∨
    (Holds reply id → call.firstPositive.isSome = true)
  done : call.answer = none →
    (call.done = true ↔ call.firstPositive.isSome = true ∨ call.healthyPending = [])
  answer : ∀ a, call.answer = some a → Right reply asked waited a

section

variable {c : Settings} {m : Memory} {path : StorePath} {reply : StoreId → Reply}
  {asked waited : List StoreId} {call : Call}

theorem found_queryStore (id : StoreId) (r : Reply) :
    (queryStore id r).found = true ↔ ∃ info, r = .valid info := by
  cases r <;> simp [queryStore, QueryResult.found]

theorem available_fromQueryResult (r : QueryResult) :
    (Availability.fromQueryResult r).available = r.found := by
  unfold Availability.fromQueryResult QueryResult.found
  cases r.pathInfo <;> rfl

theorem Inv.settle (h : Inv reply asked waited call) {r : QueryResult} (hr : r ∈ call.recorded) :
    Inv reply asked waited (call.settle r) := by
  obtain ⟨hasked, hquery⟩ := h.recorded r hr
  have hholds : Holds reply r.storeId → r.found = true := fun hhas =>
    (congrArg QueryResult.found hquery).trans ((found_queryStore _ _).2 hhas)
  have hslot : (call.settle r).firstPositive.isSome = true ↔
      (r.found && call.firstPositive.isNone) = true ∨ call.firstPositive.isSome = true := by
    simp only [Call.settle]
    split_ifs with hfirst
    · simp [hfirst]
    · simp [hfirst]
  refine ⟨h.asking, fun q hq => h.recorded q (mem_of_mem_erase hq), fun q hq => ?_,
    fun id hid => ?_, fun id hid => ?_, fun hnone => ?_, h.answer⟩
  · simp only [Call.settle] at hq
    split_ifs at hq with hfirst
    · cases hq
      exact ⟨(Bool.and_eq_true_iff.1 hfirst).1, hasked, hquery⟩
    · exact h.first q hq
  · -- the other probes are where they were
    obtain ⟨hid, hne⟩ := mem_filter.1 hid
    obtain ⟨hwaited, hin | ⟨q, hq, rfl⟩⟩ := h.pending id hid
    · exact ⟨hwaited, .inl hin⟩
    · exact ⟨hwaited, .inr ⟨q, (mem_erase_of_ne fun e => by simp [e] at hne).2 hq, rfl⟩⟩
  · by_cases hself : id = r.storeId
    · subst hself
      refine .inr fun hhas => hslot.2 ?_
      cases call.firstPositive with
      | none => exact .inl (by simp [hholds hhas])
      | some q => exact .inr rfl
    · rcases h.settled id hid with hin | hout
      · exact .inl (mem_filter.2 ⟨hin, by simpa using hself⟩)
      · exact .inr fun hhas => hslot.2 (.inr (hout hhas))
  · have hempty : call.healthyPending = [] → (call.settle r).healthyPending = [] := fun hnil => by
      simp [Call.settle, hnil]
    have hdone : (call.settle r).done = true ↔ (call.done = true ∨
        (r.found && call.firstPositive.isNone) = true) ∨ (call.settle r).healthyPending = [] := by
      simp only [Call.settle, Bool.or_eq_true, List.isEmpty_iff]
    rw [hdone, h.done hnone, hslot]
    tauto

theorem Inv.replies (h : Inv reply asked waited call) {id : StoreId} (hid : id ∈ call.asking) :
    Inv reply asked waited { call with
      asking := call.asking.erase id
      recorded := call.recorded ++ [queryStore id (reply id)] } := by
  have hself : (queryStore id (reply id)).storeId = id := by cases reply id <;> rfl
  refine ⟨fun x hx => h.asking (mem_of_mem_erase hx), fun r hr => ?_, h.first,
    fun x hx => ?_, h.settled, h.done, h.answer⟩
  · rcases mem_append.1 hr with hr | hr
    · exact h.recorded r hr
    · rw [mem_singleton.1 hr, hself]
      exact ⟨h.asking hid, rfl⟩
  · obtain ⟨hwaited, hout⟩ := h.pending x hx
    refine ⟨hwaited, ?_⟩
    by_cases hx' : x = id
    · exact .inr ⟨_, mem_append_right _ (mem_singleton_self _), hself.trans hx'.symm⟩
    · rcases hout with hin | ⟨r, hr, hr'⟩
      · exact .inl ((mem_erase_of_ne hx').2 hin)
      · exact .inr ⟨r, mem_append_left _ hr, hr'⟩

theorem Inv.right (h : Inv reply asked waited call) (hnone : call.answer = none)
    (hdone : call.done = true) :
    Right reply asked waited (call.firstPositive.elim .unavailable .fromQueryResult) := by
  constructor
  · rintro ⟨id, hid, hhas⟩
    have hsome : call.firstPositive.isSome = true := by
      rcases h.settled id hid with hin | hout
      · rcases (h.done hnone).1 hdone with hsome | hnil
        · exact hsome
        · exact absurd (hnil ▸ hin) not_mem_nil
      · exact hout hhas
    obtain ⟨r, hr⟩ := Option.isSome_iff_exists.1 hsome
    rw [hr]
    exact (available_fromQueryResult r).trans (h.first r hr).1
  · intro havailable
    cases hfirst : call.firstPositive with
    | none =>
      rw [hfirst] at havailable
      cases havailable
    | some r =>
      obtain ⟨hfound, hasked, hquery⟩ := h.first r hfirst
      rw [hquery] at hfound
      exact ⟨r.storeId, hasked, (found_queryStore _ _).1 hfound⟩

theorem inv_step {s t : State} {e : Event} (h : Inv reply asked waited s.call)
    (hstep : step c path reply s e = some t) : Inv reply asked waited t.call := by
  cases e with
  | replies id =>
    simp only [step] at hstep
    split_ifs at hstep with hid
    cases hstep
    exact h.replies hid
  | settles id =>
    obtain ⟨r, hr, rfl⟩ := Option.map_eq_some_iff.1 hstep
    exact h.settle (mem_of_find?_eq_some hr)
  | resumes =>
    simp only [step] at hstep
    split_ifs at hstep with hready
    cases hstep
    refine ⟨h.asking, h.recorded, h.first, h.pending, h.settled, fun hnone => ?_, fun a ha => ?_⟩
    · cases hnone
    · cases ha
      exact h.right hready.2 hready.1
  | elsewhere memory =>
    cases hstep
    exact h

end

def defaults : Settings := ⟨64, 1 / 10, 1 / 2⟩

/-- Two stores without a log, of which the second has the path. -/
def twoStores : StoreId → Reply := fun id => if id = "b" then .valid ⟨[], 8⟩ else .invalid

end Pynixd.Substituters
