import Pynixd.Lib.Dict
import Pynixd.Lib.Runs
import Mathlib.Data.Finset.Basic

/-!
# The probe of a store

`DaemonStore.probe` of `pynixd/store/daemon.py`: the first caller probes, and whoever comes
meanwhile waits for the event of the store.  A call stops at the event, at the pool and at the two
rounds of test builds; everything in between is one step.

* `Store`, `step` — the calls of `probe`, the handshake that saves one, and the reconnect;
* `sound_iff_clean` — a run is sound in every state **exactly when** no probe fails as the only
  one, and no reconnect replaces the event that somebody waits for.
-/

namespace Pynixd.Probe

open List Runs

inductive ProbeState where
  | notProbed
  | probing
  | probed
  deriving DecidableEq

/-- An `anyio.Event`, by the number of reconnects before it was made. -/
abbrev EventId := Nat

abbrev FeatureMatrix := List (String × Finset String)

def probeSystems : List String := ["x86_64-linux", "aarch64-linux", "aarch64-darwin"]

def knownFeatures : Finset String :=
  {"nixos-test", "benchmark", "big-parallel", "uid-range", "kvm", "apple-virt", "ca-derivations",
    "dynamic-derivations", "recursive-nix"}

inductive Phase where
  /-- It waits for the event that was the store's when it came. -/
  | waiting (event : EventId)
  /-- It probes, and waits for a connection. -/
  | acquiring
  /-- It waits for the test builds of the systems. -/
  | probingSystems (systems : List String) (features : Finset String)
  /-- It waits for the test builds of the features. -/
  | probingFeatures (systems : List String) (features : Finset String)
  | ended
  deriving DecidableEq

namespace Phase

/-- The call is the one that probes, and not one that waits for it. -/
def isRunning : Phase → Bool
  | acquiring | probingSystems .. | probingFeatures .. => true
  | _ => false

def awaits? : Phase → Option EventId
  | waiting event => some event
  | _ => none

end Phase

/-- What `probe` reads and writes of a `DaemonStore`, with the calls there are. -/
structure Store where
  /-- `_probe`: the store is asked at all. -/
  probes : Bool
  featureMatrix : Option FeatureMatrix
  probeState : ProbeState
  probeEvent : EventId
  fired : List EventId
  calls : List Phase

def fresh (probes : Bool) (matrix : Option FeatureMatrix) : Store where
  probes := probes
  featureMatrix := matrix
  probeState := .notProbed
  probeEvent := 0
  fired := []
  calls := []

/-- `candidate_systems`: those that the store is known for, or else all there are. -/
def candidateSystems : Option FeatureMatrix → List String
  | none | some [] => probeSystems
  | some matrix => matrix.map Prod.fst

def candidateFeatures (matrix : Option FeatureMatrix) : Finset String :=
  let existing := (matrix.getD []).foldl (fun features item => features ∪ item.2) ∅
  if existing = ∅ then knownFeatures else existing

/-- The answer of `_probe_features`, where `took` are the builds that the store took. -/
def probedMatrix (systems : List String) (features : Finset String)
    (took : List (String × String)) : FeatureMatrix :=
  systems.map fun system =>
    (system, (features ∪ knownFeatures).filter fun feature => (system, feature) ∈ took)

/-- One feature that the peer names in the handshake.  What does not start with
`feature_matrix:`, and what has more parts than a system and a feature, is passed over. -/
def addFeature (matrix : FeatureMatrix) (feature : String) : FeatureMatrix :=
  match feature.toList.splitOn ':' with
  | [tag, system] =>
    if tag = "feature_matrix".toList then
      match Dict.get? matrix (String.ofList system) with
      | none => Dict.set matrix (String.ofList system) ∅
      | some _ => matrix
    else matrix
  | [tag, system, feat] =>
    if tag = "feature_matrix".toList then
      Dict.set matrix (String.ofList system)
        (insert (String.ofList feat) ((Dict.get? matrix (String.ofList system)).getD ∅))
    else matrix
  | _ => matrix

namespace Store

def setCall (s : Store) (i : Nat) (phase : Phase) : Store := { s with calls := s.calls.set i phase }

/-- The store is probed, and the event is set. -/
def done (s : Store) : Store :=
  { s with probeState := .probed, fired := s.probeEvent :: s.fired }

/-- `probe`, up to its first await. -/
def probe (s : Store) : Store :=
  match s.probeState with
  | .probed => { s with calls := s.calls ++ [.ended] }
  | .probing => { s with calls := s.calls ++ [.waiting s.probeEvent] }
  | .notProbed => { s with probeState := .probing, calls := s.calls ++ [.acquiring] }

/-- `probe`, from the connection to its next await. -/
def acquired (s : Store) (i : Nat) : Store :=
  match s.probeState with
  | .probed => s.setCall i .ended
  | _ =>
    if s.probes then
      s.setCall i
        (.probingSystems (candidateSystems s.featureMatrix) (candidateFeatures s.featureMatrix))
    else s.done.setCall i .ended

/-- `_on_connection_created`, for any connection of the store. -/
def onConnectionCreated (s : Store) (features : List String) : Store :=
  match s.featureMatrix with
  | some _ => s
  | none =>
    match features.foldl addFeature [] with
    | [] => s
    | matrix => { s with featureMatrix := some matrix }.done

/-- `_do_reconnect`, once the pools are closed: there is no await between the new event and the
call of `probe`. -/
def doReconnect (s : Store) : Store :=
  { s with probeState := .notProbed, probeEvent := s.probeEvent + 1 }.probe

end Store

/-- What happens to a store.  An event that does not fit the phase of its call changes nothing. -/
inductive Event where
  | probe
  /-- Call `i` got a connection, and gave it back. -/
  | acquired (i : Nat)
  /-- Call `i` hears which systems the store took. -/
  | systemsProbed (i : Nat) (took : List String)
  /-- Call `i` hears which features the store took. -/
  | featuresProbed (i : Nat) (took : List (String × String))
  /-- Call `i` ends at its await, by an exception or because it is cancelled. -/
  | fails (i : Nat)
  /-- Call `i` goes on, since its event is set. -/
  | wakes (i : Nat)
  /-- A connection of any of the pools is up, and its peer has these features. -/
  | connectionCreated (features : List String)
  | reconnects

def step (s : Store) : Event → Store
  | .probe => s.probe
  | .acquired i =>
    match s.calls[i]? with
    | some .acquiring => s.acquired i
    | _ => s
  | .systemsProbed i took =>
    match s.calls[i]? with
    | some (.probingSystems systems features) =>
      s.setCall i (.probingFeatures (systems.filter (· ∈ took)) features)
    | _ => s
  | .featuresProbed i took =>
    match s.calls[i]? with
    | some (.probingFeatures systems features) =>
      { s with featureMatrix := some (probedMatrix systems features took) }.done.setCall i .ended
    | _ => s
  | .fails i => s.setCall i .ended
  | .wakes i =>
    match s.calls[i]? with
    | some (.waiting event) => if event ∈ s.fired then s.setCall i .ended else s
    | _ => s
  | .connectionCreated features => s.onConnectionCreated features
  | .reconnects => s.doReconnect

abbrev steps : Store → Event → Option Store := fun s e => some (step s e)

namespace Store

/-- Call `i` is probing. -/
def RunningAt (s : Store) (i : Nat) : Prop := ∃ phase ∈ s.calls[i]?, phase.isRunning = true

/-- The rest of call `i`, when nothing fails and nobody comes in between. -/
def finish (s : Store) (i : Nat) (systems : List String) (features : List (String × String)) :
    Store :=
  [.acquired i, .systemsProbed i systems, .featuresProbed i features].foldl step s

/-- Call `i` sets the event, whatever the store answers. -/
def WillSet (s : Store) (i : Nat) (event : EventId) : Prop :=
  ∀ systems features, event ∈ (s.finish i systems features).fired

/-- **A store that says it is probing is being probed**, and whoever waits for an event that is
not set yet waits for one that a running probe sets. -/
structure Sound (s : Store) : Prop where
  probing : s.probeState = .probing → ∃ i, s.RunningAt i
  waiting : ∀ event, .waiting event ∈ s.calls → event ∉ s.fired →
    ∃ i, s.RunningAt i ∧ s.WillSet i event

/-- No probe ends early as the only one, and no reconnect comes while somebody waits. -/
def Clean (s : Store) : Event → Prop
  | .fails i => s.RunningAt i → s.probeState = .probing → ∃ phase ∈ s.calls.eraseIdx i,
      phase.isRunning = true
  | .reconnects => ∀ event, .waiting event ∈ s.calls → event ∈ s.fired
  | _ => True

/-! ## What every run keeps -/

/-- What holds in every state, whatever fails. -/
structure Inv (s : Store) : Prop where
  probed : s.probeState = .probed → s.probeEvent ∈ s.fired
  unprobed : s.probeState = .notProbed → s.calls.any Phase.isRunning = false
  made : ∀ phase ∈ s.calls, ∀ event ∈ phase.awaits?, event ≤ s.probeEvent

/-- **Soundness, in the store's own fields**: a probing store has a running call, and an event
that is awaited and not set is the current one, of a store that is probing. -/
structure Served (s : Store) : Prop where
  probing : s.probeState = .probing → s.calls.any Phase.isRunning = true
  waiting : ∀ phase ∈ s.calls, ∀ event ∈ phase.awaits?,
    event ∈ s.fired ∨ event = s.probeEvent ∧ s.probeState = .probing

variable {s : Store} {i : Nat}

theorem exists_runningAt : (∃ i, s.RunningAt i) ↔ s.calls.any Phase.isRunning = true := by
  rw [any_eq_true]
  constructor
  · rintro ⟨i, phase, hphase, hrunning⟩
    exact ⟨phase, mem_of_getElem? hphase, hrunning⟩
  · rintro ⟨phase, hphase, hrunning⟩
    obtain ⟨i, hi⟩ := mem_iff_getElem?.1 hphase
    exact ⟨i, phase, hi, hrunning⟩

theorem waiting_mem_iff {calls : List Phase} {event : EventId} :
    .waiting event ∈ calls ↔ ∃ phase ∈ calls, event ∈ phase.awaits? := by
  constructor
  · exact fun h => ⟨_, h, rfl⟩
  · rintro ⟨phase, hphase, hevent⟩
    cases phase with
    | waiting e =>
      cases hevent
      exact hphase
    | acquiring => cases hevent
    | probingSystems => cases hevent
    | probingFeatures => cases hevent
    | ended => cases hevent

variable {P : EventId → Prop} {features : Finset String} {systems : List String}
  {new phase : Phase}

theorem setCall_getElem? (h : s.calls[i]? = some phase) (new : Phase) :
    (s.calls.set i new)[i]? = some new := by
  rw [getElem?_set_self (List.getElem?_eq_some_iff.1 h).1]

theorem acquired_of_probed (h : s.probeState = .probed) :
    s.acquired i = s.setCall i .ended := by
  rw [acquired, h]

theorem acquired_of_ne (h : s.probeState ≠ .probed) :
    s.acquired i =
      if s.probes then
        s.setCall i
          (.probingSystems (candidateSystems s.featureMatrix) (candidateFeatures s.featureMatrix))
      else s.done.setCall i .ended := by
  cases hstate : s.probeState with
  | notProbed => rw [acquired, hstate]
  | probing => rw [acquired, hstate]
  | probed => exact absurd hstate h

theorem fired_featuresProbed
    (h : s.calls[i]? = some (.probingFeatures systems features)) (took : List (String × String)) :
    (step s (.featuresProbed i took)).fired = s.probeEvent :: s.fired := by
  simp only [step, h]
  rfl

theorem fired_systemsProbed
    (h : s.calls[i]? = some (.probingSystems systems features)) (took : List String)
    (took' : List (String × String)) :
    (step (step s (.systemsProbed i took)) (.featuresProbed i took')).fired =
      s.probeEvent :: s.fired := by
  have hnext : step s (.systemsProbed i took) =
      s.setCall i (.probingFeatures (systems.filter (· ∈ took)) features) := by
    simp only [step, h]
  rw [hnext, fired_featuresProbed (setCall_getElem? h _)]
  rfl

theorem finish_ended (h : s.calls[i]? = some .ended) (systems : List String)
    (features : List (String × String)) :
    step (step s (.systemsProbed i systems)) (.featuresProbed i features) = s := by
  simp only [step, h]

/-- **A running probe sets the current event**, and no other, unless it fails. -/
theorem fired_finish (h : s.Inv) (hi : s.RunningAt i) (systems : List String)
    (features : List (String × String)) (event : EventId) :
    event ∈ (s.finish i systems features).fired ↔ event ∈ s.fired ∨ event = s.probeEvent := by
  obtain ⟨phase, hphase, hrunning⟩ := hi
  have hphase : s.calls[i]? = some phase := hphase
  have hset : event ∈ s.probeEvent :: s.fired ↔ event ∈ s.fired ∨ event = s.probeEvent := by
    rw [mem_cons, or_comm]
  simp only [finish, foldl_cons, foldl_nil]
  cases phase with
  | waiting => cases hrunning
  | ended => cases hrunning
  | probingFeatures sys feat =>
    have hacquired : step s (.acquired i) = s := by simp only [step, hphase]
    have hsystems : step s (.systemsProbed i systems) = s := by simp only [step, hphase]
    rw [hacquired, hsystems, fired_featuresProbed hphase]
    exact hset
  | probingSystems sys feat =>
    have hacquired : step s (.acquired i) = s := by simp only [step, hphase]
    rw [hacquired, fired_systemsProbed hphase]
    exact hset
  | acquiring =>
    have hacquired : step s (.acquired i) = s.acquired i := by simp only [step, hphase]
    rw [hacquired]
    by_cases hprobed : s.probeState = .probed
    · -- a handshake was faster, and it has set the event
      rw [acquired_of_probed hprobed, finish_ended (setCall_getElem? hphase _)]
      constructor
      · exact .inl
      · rintro (hfired | rfl)
        · exact hfired
        · exact h.probed hprobed
    · rw [acquired_of_ne hprobed]
      split_ifs
      · rw [fired_systemsProbed (setCall_getElem? hphase _)]
        exact hset
      · rw [finish_ended (setCall_getElem? hphase _)]
        exact hset

theorem sound_iff_served (h : s.Inv) : s.Sound ↔ s.Served := by
  constructor
  · intro hsound
    refine ⟨fun hprobing => exists_runningAt.1 (hsound.probing hprobing), ?_⟩
    intro phase hphase event hevent
    by_cases hfired : event ∈ s.fired
    · exact .inl hfired
    · obtain ⟨i, hi, hset⟩ :=
        hsound.waiting event (waiting_mem_iff.2 ⟨phase, hphase, hevent⟩) hfired
      obtain rfl := ((fired_finish h hi [] [] event).1 (hset [] [])).resolve_left hfired
      refine .inr ⟨rfl, ?_⟩
      -- somebody probes, and the event is not set
      cases hstate : s.probeState with
      | notProbed =>
        have hrunning := exists_runningAt.1 ⟨i, hi⟩
        rw [h.unprobed hstate] at hrunning
        cases hrunning
      | probing => rfl
      | probed => exact absurd (h.probed hstate) hfired
  · intro hserved
    refine ⟨fun hprobing => exists_runningAt.2 (hserved.probing hprobing), ?_⟩
    intro event hwaiting hfired
    obtain ⟨phase, hphase, hevent⟩ := waiting_mem_iff.1 hwaiting
    obtain ⟨rfl, hprobing⟩ := (hserved.waiting phase hphase event hevent).resolve_left hfired
    obtain ⟨i, hi⟩ := exists_runningAt.2 (hserved.probing hprobing)
    exact ⟨i, hi, fun systems features => (fired_finish h hi systems features _).2 (.inr rfl)⟩

/-! ## The steps -/

theorem any_set (h : s.calls[i]? = some phase) (new : Phase) :
    (s.calls.set i new).any Phase.isRunning =
      (new.isRunning || (s.calls.eraseIdx i).any Phase.isRunning) := by
  have hlt := (List.getElem?_eq_some_iff.1 h).1
  rw [(set_perm_cons_eraseIdx hlt new).any_eq, any_cons]

theorem any_eq_eraseIdx (h : s.calls[i]? = some phase) :
    s.calls.any Phase.isRunning =
      (phase.isRunning || (s.calls.eraseIdx i).any Phase.isRunning) := by
  obtain ⟨hlt, hget⟩ := List.getElem?_eq_some_iff.1 h
  rw [← (getElem_cons_eraseIdx_perm hlt).any_eq, any_cons, hget]

theorem any_set_of_eq (h : s.calls[i]? = some phase) (hnew : new.isRunning = phase.isRunning) :
    (s.calls.set i new).any Phase.isRunning = s.calls.any Phase.isRunning := by
  rw [any_set h, any_eq_eraseIdx h, hnew]

theorem forall_awaits_set (hnew : new.awaits? = none)
    (h : ∀ phase ∈ s.calls, ∀ event ∈ phase.awaits?, P event) :
    ∀ phase ∈ s.calls.set i new, ∀ event ∈ phase.awaits?, P event := by
  intro phase hphase event hevent
  rcases mem_or_eq_of_mem_set hphase with hold | rfl
  · exact h phase hold event hevent
  · rw [hnew] at hevent
    cases hevent

theorem forall_awaits_append (h : ∀ phase ∈ s.calls, ∀ event ∈ phase.awaits?, P event)
    (hnew : ∀ event ∈ new.awaits?, P event) :
    ∀ phase ∈ s.calls ++ [new], ∀ event ∈ phase.awaits?, P event := by
  intro phase hphase event hevent
  rcases mem_append.1 hphase with hold | hlast
  · exact h phase hold event hevent
  · obtain rfl := mem_singleton.1 hlast
    exact hnew event hevent

theorem Inv.setCall (h : s.Inv) (hawaits : new.awaits? = none)
    (hrunning : s.probeState = .notProbed → new.isRunning = false) : (s.setCall i new).Inv where
  probed := h.probed
  unprobed := by
    intro hstate
    have hnone := h.unprobed hstate
    rw [any_eq_false] at hnone ⊢
    intro phase hphase
    rcases mem_or_eq_of_mem_set hphase with hold | rfl
    · exact hnone phase hold
    · rw [hrunning hstate]
      exact Bool.false_ne_true
  made := forall_awaits_set hawaits h.made

theorem Inv.done (h : s.Inv) : s.done.Inv where
  probed := fun _ => mem_cons_self
  unprobed := nofun
  made := h.made

theorem Inv.probe (h : s.Inv) : s.probe.Inv := by
  unfold Store.probe
  cases hstate : s.probeState with
  | probed => exact ⟨fun _ => h.probed hstate, nofun, forall_awaits_append h.made nofun⟩
  | probing =>
    refine ⟨nofun, nofun, forall_awaits_append h.made ?_⟩
    rintro event ⟨⟩
    exact le_rfl
  | notProbed => exact ⟨nofun, nofun, forall_awaits_append h.made nofun⟩

theorem Inv.doReconnect (h : s.Inv) : s.doReconnect.Inv where
  probed := nofun
  unprobed := nofun
  made := forall_awaits_append
    (fun phase hphase event hevent => (h.made phase hphase event hevent).trans (Nat.le_succ _))
    nofun

theorem probeState_ne_of_running (h : s.Inv) (hi : s.calls[i]? = some phase)
    (hrunning : phase.isRunning = true) : s.probeState ≠ .notProbed := by
  intro hstate
  have hsome := exists_runningAt.1 ⟨i, phase, hi, hrunning⟩
  rw [h.unprobed hstate] at hsome
  cases hsome

theorem Inv.acquired (h : s.Inv) (hi : s.calls[i]? = some .acquiring) : (s.acquired i).Inv := by
  by_cases hprobed : s.probeState = .probed
  · rw [acquired_of_probed hprobed]
    exact h.setCall rfl fun _ => rfl
  · rw [acquired_of_ne hprobed]
    split_ifs
    · exact h.setCall rfl fun hstate => absurd hstate (probeState_ne_of_running h hi rfl)
    · exact h.done.setCall rfl nofun

theorem Inv.onConnectionCreated (h : s.Inv) (features : List String) :
    (s.onConnectionCreated features).Inv := by
  unfold Store.onConnectionCreated
  split
  · exact h
  · split
    · exact h
    · exact Inv.done ⟨h.probed, h.unprobed, h.made⟩

theorem inv_step (s : Store) (e : Event) (h : s.Inv) : (step s e).Inv := by
  cases e with
  | probe => exact h.probe
  | acquired i =>
    simp only [step]
    split
    next hi => exact h.acquired hi
    next => exact h
  | systemsProbed i took =>
    simp only [step]
    split
    next systems features hi =>
      exact h.setCall rfl fun hstate => absurd hstate (probeState_ne_of_running h hi rfl)
    next => exact h
  | featuresProbed i took =>
    simp only [step]
    split
    next systems features hi =>
      have hmatrix : { s with featureMatrix := some (probedMatrix systems features took) }.Inv :=
        ⟨h.probed, h.unprobed, h.made⟩
      exact hmatrix.done.setCall rfl nofun
    next => exact h
  | fails i => exact h.setCall rfl fun _ => rfl
  | wakes i =>
    simp only [step]
    split
    next event hi =>
      split_ifs
      · exact h.setCall rfl fun _ => rfl
      · exact h
    next => exact h
  | connectionCreated features => exact h.onConnectionCreated features
  | reconnects => exact h.doReconnect

theorem served_setCall (h : s.Served) (hawaits : new.awaits? = none) : (s.setCall i new).Served ↔
      (s.probeState = .probing → (s.calls.set i new).any Phase.isRunning = true) :=
  ⟨fun hserved => hserved.probing, fun hprobing => ⟨hprobing, forall_awaits_set hawaits h.waiting⟩⟩

theorem Served.goesOn (h : s.Served) (hi : s.calls[i]? = some phase)
    (hnew : new.isRunning = true) (hawaits : new.awaits? = none) : (s.setCall i new).Served :=
  (served_setCall h hawaits).2 fun _ => by rw [any_set hi, hnew, Bool.true_or]

/-- **The end of a probe serves everybody** who waits for the current event. -/
theorem Served.done (h : s.Served) : s.done.Served where
  probing := nofun
  waiting := by
    intro phase hphase event hevent
    rcases h.waiting phase hphase event hevent with hfired | ⟨rfl, -⟩
    · exact .inl (mem_cons_of_mem _ hfired)
    · exact .inl mem_cons_self

theorem Served.probe (h : s.Served) : s.probe.Served := by
  unfold Store.probe
  split
  next hstate =>
    refine ⟨fun hprobing => ?_, forall_awaits_append h.waiting nofun⟩
    rw [hstate] at hprobing
    cases hprobing
  next hstate =>
    refine ⟨fun _ => ?_, forall_awaits_append h.waiting ?_⟩
    · rw [any_append, h.probing hstate, Bool.true_or]
    · rintro event ⟨⟩
      exact .inr ⟨rfl, hstate⟩
  next hstate =>
    refine ⟨fun _ => ?_, forall_awaits_append (fun phase hphase event hevent => ?_) nofun⟩
    · rw [any_append]
      exact Bool.or_true _
    · rcases h.waiting phase hphase event hevent with hfired | ⟨-, hprobing⟩
      · exact .inl hfired
      · rw [hstate] at hprobing
        cases hprobing

theorem Served.acquired (h : s.Served) (hi : s.calls[i]? = some .acquiring) :
    (s.acquired i).Served := by
  by_cases hprobed : s.probeState = .probed
  · rw [acquired_of_probed hprobed, served_setCall h rfl, hprobed]
    nofun
  · rw [acquired_of_ne hprobed]
    split_ifs
    · exact h.goesOn hi rfl rfl
    · exact (served_setCall h.done rfl).2 nofun

theorem Served.onConnectionCreated (h : s.Served) (features : List String) :
    (s.onConnectionCreated features).Served := by
  unfold Store.onConnectionCreated
  split
  · exact h
  · split
    · exact h
    · exact Served.done ⟨h.probing, h.waiting⟩

theorem served_fails (h : s.Served) : (s.setCall i .ended).Served ↔ s.Clean (.fails i) := by
  rw [served_setCall h rfl]
  cases hi : s.calls[i]? with
  | none =>
    have hclean : s.Clean (.fails i) := by
      rintro ⟨phase, hphase, -⟩
      rw [hi] at hphase
      cases hphase
    rw [set_eq_of_length_le (List.getElem?_eq_none_iff.1 hi)]
    exact iff_of_true h.probing hclean
  | some phase =>
    by_cases hrunning : phase.isRunning = true
    · have hat : s.RunningAt i := ⟨phase, hi, hrunning⟩
      rw [any_set hi, Clean, any_eq_true.symm]
      exact ⟨fun hs _ => hs, fun hs => hs hat⟩
    · have hclean : s.Clean (.fails i) := by
        rintro ⟨phase', hphase', hrunning'⟩
        rw [hi] at hphase'
        cases hphase'
        exact absurd hrunning' hrunning
      rw [any_set_of_eq hi (by simpa using Eq.symm (Bool.not_eq_true _ ▸ hrunning))]
      exact iff_of_true h.probing hclean

theorem served_doReconnect (hinv : s.Inv) : s.doReconnect.Served ↔ s.Clean .reconnects := by
  constructor
  · intro hserved event hwaiting
    obtain ⟨phase, hphase, hevent⟩ := waiting_mem_iff.1 hwaiting
    have hle := hinv.made phase hphase event hevent
    rcases hserved.waiting phase (mem_append_left _ hphase) event hevent with hfired | ⟨hnew, -⟩
    · exact hfired
    · -- the event is new, and nobody can have waited for it
      exact absurd hnew (Nat.ne_of_lt (Nat.lt_succ_of_le hle))
  · intro hclean
    refine ⟨fun _ => ?_, forall_awaits_append (fun phase hphase event hevent => .inl ?_) nofun⟩
    · exact (any_append ..).trans (Bool.or_true _)
    · exact hclean event (waiting_mem_iff.2 ⟨phase, hphase, hevent⟩)

/-- **One step serves everybody exactly when it is clean.** -/
theorem served_step (s : Store) (e : Event) (hinv : s.Inv) (h : s.Served) :
    (step s e).Served ↔ s.Clean e := by
  cases e with
  | probe => exact iff_of_true h.probe trivial
  | acquired i =>
    refine iff_of_true ?_ trivial
    simp only [step]
    split
    next hi => exact h.acquired hi
    next => exact h
  | systemsProbed i took =>
    refine iff_of_true ?_ trivial
    simp only [step]
    split
    next systems features hi => exact h.goesOn hi rfl rfl
    next => exact h
  | featuresProbed i took =>
    refine iff_of_true ?_ trivial
    simp only [step]
    split
    next systems features hi =>
      have hmatrix : { s with featureMatrix := some (probedMatrix systems features took) }.Served :=
        ⟨h.probing, h.waiting⟩
      exact (served_setCall hmatrix.done rfl).2 nofun
    next => exact h
  | fails i => exact served_fails h
  | wakes i =>
    refine iff_of_true ?_ trivial
    simp only [step]
    split
    next event hi =>
      split_ifs
      · have hrunning : Phase.ended.isRunning = (Phase.waiting event).isRunning := rfl
        rw [served_setCall h rfl, any_set_of_eq hi hrunning]
        exact h.probing
      · exact h
    next => exact h
  | connectionCreated features => exact iff_of_true (h.onConnectionCreated features) trivial
  | reconnects => exact served_doReconnect hinv

theorem inv_fresh (probes : Bool) (matrix : Option FeatureMatrix) : (fresh probes matrix).Inv where
  probed := nofun
  unprobed := fun _ => rfl
  made := nofun

theorem served_fresh (probes : Bool) (matrix : Option FeatureMatrix) :
    (fresh probes matrix).Served where
  probing := nofun
  waiting := nofun

/-- **Exactly the clean runs are sound in every state**: of any calls of `probe`, any handshakes,
failures, cancellations and reconnects. -/
theorem sound_iff_clean (probes : Bool) (matrix : Option FeatureMatrix) (events : List Event) :
    (∀ k s, run steps (fresh probes matrix) (events.take k) = some s → s.Sound) ↔
      Guarded steps Clean (fresh probes matrix) events := by
  have hkeeps : ∀ s e t, s.Inv → steps s e = some t → t.Inv := by
    rintro s e t hs ⟨⟩
    exact inv_step s e hs
  have hexact : ∀ s e t, s.Inv ∧ s.Served → steps s e = some t →
      (t.Inv ∧ t.Served ↔ s.Clean e) := by
    rintro s e t ⟨hs, hserved⟩ ⟨⟩
    rw [served_step s e hs hserved]
    exact and_iff_right (inv_step s e hs)
  rw [← guarded_iff (fun s e => ⟨_, rfl⟩) hexact
    ⟨inv_fresh probes matrix, served_fresh probes matrix⟩ events]
  refine forall_congr' fun k => forall_congr' fun s => imp_congr_right fun hrun => ?_
  have hs : s.Inv := inv_of_run hkeeps (inv_fresh probes matrix) hrun
  rw [sound_iff_served hs]
  exact (and_iff_right hs).symm

/-- **A probe that fails leaves the store probing for good**: the daemon does not answer the
first caller, who gives up, and the second one waits for an event that nobody sets.  A
reconnect while the first probe still runs does the same to the second caller. -/
theorem probe_fails_or_reconnects :
    ¬([.probe, .probe, .fails 0].foldl step (fresh true none)).Sound ∧
      ¬([.probe, .probe, .reconnects].foldl step (fresh true none)).Sound := by
  constructor
  · intro hsound
    have hrunning := exists_runningAt.1 (hsound.probing (by decide))
    revert hrunning
    decide
  · intro hsound
    have hinv : ([.probe, .probe, .reconnects].foldl step (fresh true none)).Inv :=
      inv_step _ .reconnects (inv_step _ .probe (inv_step _ .probe (inv_fresh true none)))
    obtain ⟨i, hi, hset⟩ := hsound.waiting 0 (by decide) (by decide)
    have hevent := (fired_finish hinv hi [] [] 0).1 (hset [] [])
    revert hevent
    decide

end Store

end Pynixd.Probe
