import Pynixd.Outputs.Locations
import Pynixd.Queue.Build
import Pynixd.Store.Transfer

/-!
# One build on one store

`Scheduler.execute_build`.  A build that was answered as built is collected before its
future is resolved: a client that holds a successful result reads the local store next.

* `success_held_iff` — **success means collected**, exactly for the answers that are collected.
-/

namespace Pynixd.Scheduler

open Outputs (StoreId localStoreId)
open Queue (QueuedBuild BuildResponse)
open Transfer (Path Source Ending Failure streamPaths validAfter)

structure Builder where
  id : StoreId
  source : Source

/-- An exception, as the handlers of `execute_build` tell them apart. -/
inductive Raised where
  /-- `BackendError` or `InfrastructureError`. -/
  | retryable
  | crash
  deriving DecidableEq, Repr

inductive Attempt where
  /-- An exception before the backend has answered. -/
  | failed (raised : Raised)
  /-- The answer of the backend; the text of what `_record_build_stats` raises, if it does;
  how the stream of the pull ends; what giving the connection back raises, if it does. -/
  | answered (result : BuildResult) (stats : Option String) (ending : Ending)
      (leaving : Option Raised)

inductive Effect where
  /-- `ctx.output_locations`. -/
  | record (paths : List Path) (id : StoreId)
  | arrive (paths : List Path)
  | complete (result : BuildResult)
  | fail (errorMsg : String)
  | retry (id : StoreId)

/-- The build, the local store and the map of the outputs. -/
structure State where
  build : QueuedBuild
  /-- What is valid in the local store. -/
  valid : List Path
  outputLocations : List (Path × StoreId)

def State.apply (s : State) : Effect → State
  | .record paths id =>
    { s with outputLocations := Dict.update s.outputLocations (paths.map fun p => (p, id)) }
  | .arrive paths => { s with valid := s.valid ++ paths }
  | .complete result => { s with build := s.build.settle ⟨result.status, result.errorMsg⟩ }
  | .fail errorMsg => { s with build := s.build.settle (.miscFailure errorMsg) }
  | .retry id => { s with build := s.build.resetForRetry id }

def State.applyAll (s : State) (es : List Effect) : State := es.foldl State.apply s

section Attempts

/-! The store directory, the output paths of the derivation, and how Python prints what a
transfer raises. -/
variable (storeDir : String) (outputPaths : List (String × StorePath)) (text : Failure → String)

/-- `all_output_paths`: the static paths, and those of the realisations. -/
def allOutputPaths (result : BuildResult) : List Path :=
  let realised := result.realisedOutputs.filterMap fun (_, r) => r.outPath.filter (·.base ≠ "")
  let static := (outputPaths.map (·.2)).filter (·.base ≠ "")
  (static ∪ realised).map (·.str storeDir)

/-- `_collect_outputs`: what it does, and the text of what it raises. -/
def collectOutputs (builder : Builder) (valid : List Path) (result : BuildResult)
    (stats : Option String) (ending : Ending) : List Effect × Option String :=
  if result.status ≠ 0 then ([], none)
  else
    let paths := allOutputPaths storeDir outputPaths result
    match stats with
    | some e => ([.record paths builder.id], some e)
    | none =>
      let stream := streamPaths builder.id localStoreId builder.source paths valid ending
      ([.record paths builder.id, .arrive (stream.sent.map (·.path))],
        match stream.result with
        | .ok () => none
        | .error e => some (text e))

/-- The text of a build whose outputs did not arrive. -/
def couldNotCollect (id : StoreId) (e : String) : String :=
  "built on " ++ id ++ ", but pynixd could not collect the outputs: " ++ e

/-- The handlers of `execute_build`. -/
def handle (builder : Builder) : Raised → List Effect
  | .retryable => [.retry builder.id]
  | .crash => [.fail "Internal scheduler error"]

/-- `execute_build`. -/
def effects (builder : Builder) (valid : List Path) : Attempt → List Effect
  | .failed raised => handle builder raised
  | .answered result stats ending leaving =>
    if result.status = 0 then
      match collectOutputs storeDir outputPaths text builder valid result stats ending with
      | (done, none) =>
        done ++ .complete result :: (leaving.map (handle builder)).getD []
      | (done, some e) =>
        done ++ .fail (couldNotCollect builder.id e) ::
          -- an exception takes the place of the `return`, so the end is reached
          (leaving.map fun raised => handle builder raised ++ [.complete result]).getD []
    else (leaving.map (handle builder)).getD [] ++ [.complete result]

/-- An attempt from start to end. -/
def executeBuild (s : State) (builder : Builder) (attempt : Attempt) : State :=
  s.applyAll (effects storeDir outputPaths text builder s.valid attempt)

/-! ## Success means collected -/

/-- **The future resolves with success only by a completion, and only while the local store
holds every output that the build names.** -/
def HeldOnSuccess (s : State) (e : Effect) : Prop :=
  ∀ r, s.build.isDone = false → (s.apply e).build.future = .resolved r →
    resultSucceeded r.status = true →
      ∃ result, e = .complete result ∧
        ∀ p ∈ allOutputPaths storeDir outputPaths result, p ∈ s.valid

/-- The same for each effect of a list, in the state it happens in. -/
def HeldOnSuccesses (s : State) (es : List Effect) : Prop :=
  Runs.Guarded (fun s e => some (s.apply e)) (HeldOnSuccess storeDir outputPaths) s es

/-- **The answers that are collected.**  `BUILT` is: the builder has to know what it built,
or the local store has it already.  The other successes are not, so the local store has to
have their outputs before. -/
def Collects (s : State) (builder : Builder) (result : BuildResult) : Prop :=
  s.build.isDone = false → resultSucceeded result.status = true →
    if result.status = 0 then
      builder.source.Knows (allOutputPaths storeDir outputPaths result) s.valid
    else ∀ p ∈ allOutputPaths storeDir outputPaths result, p ∈ s.valid

variable {storeDir outputPaths text} {s : State} {builder : Builder} {result : BuildResult}
  {es : List Effect}

theorem heldOnSuccesses_cons {e : Effect} :
    HeldOnSuccesses storeDir outputPaths s (e :: es) ↔
      HeldOnSuccess storeDir outputPaths s e ∧
        HeldOnSuccesses storeDir outputPaths (s.apply e) es :=
  Runs.guarded_cons

theorem isDone_apply (h : s.build.isDone = true) (e : Effect) :
    (s.apply e).build.isDone = true := by
  cases e with
  | record paths id => exact h
  | arrive paths => exact h
  | complete result => rwa [State.apply, QueuedBuild.settle, if_pos h]
  | fail errorMsg => rwa [State.apply, QueuedBuild.settle, if_pos h]
  | retry id => exact h

theorem heldOnSuccesses_of_isDone (h : s.build.isDone = true) :
    HeldOnSuccesses storeDir outputPaths s es := by
  induction es generalizing s with
  | nil => trivial
  | cons e es ih =>
    refine heldOnSuccesses_cons.2 ⟨?_, ih (isDone_apply h e)⟩
    intro r hpending
    exact absurd (h.symm.trans hpending) (by decide)

theorem heldOnSuccess_of_future_eq {e : Effect}
    (h : (s.apply e).build.future = s.build.future) : HeldOnSuccess storeDir outputPaths s e := by
  intro r hpending hr
  rw [h, QueuedBuild.future_eq_pending hpending] at hr
  exact nomatch hr

theorem heldOnSuccess_fail (errorMsg : String) :
    HeldOnSuccess storeDir outputPaths s (.fail errorMsg) := by
  intro r hpending hr hsuccess
  have hfuture : (s.apply (.fail errorMsg)).build.future =
      .resolved (.miscFailure errorMsg) := by
    rw [State.apply, QueuedBuild.settle_future, if_neg (by simp [hpending])]
  obtain rfl : BuildResponse.miscFailure errorMsg = r := by simpa [hfuture] using hr
  have hfails : resultSucceeded BuildResultStatus.miscFailure.value = false := by decide
  exact absurd hsuccess (by simp [BuildResponse.miscFailure, hfails])

theorem heldOnSuccess_complete_iff :
    HeldOnSuccess storeDir outputPaths s (.complete result) ↔
      (s.build.isDone = false → resultSucceeded result.status = true →
        ∀ p ∈ allOutputPaths storeDir outputPaths result, p ∈ s.valid) := by
  have hfuture : s.build.isDone = false → (s.apply (.complete result)).build.future =
      .resolved ⟨result.status, result.errorMsg⟩ := by
    intro hpending
    rw [State.apply, QueuedBuild.settle_future, if_neg (by simp [hpending])]
  constructor
  · intro h hpending hsuccess
    obtain ⟨result', heq, hheld⟩ := h _ hpending (hfuture hpending) hsuccess
    obtain rfl : result = result' := Effect.complete.inj heq
    exact hheld
  · intro h r hpending hr hsuccess
    obtain rfl : (⟨result.status, result.errorMsg⟩ : BuildResponse) = r := by
      simpa [hfuture hpending] using hr
    exact ⟨result, rfl, h hpending hsuccess⟩

theorem heldOnSuccesses_fail (errorMsg : String) :
    HeldOnSuccesses storeDir outputPaths s (.fail errorMsg :: es) :=
  heldOnSuccesses_cons.2 ⟨heldOnSuccess_fail errorMsg,
    heldOnSuccesses_of_isDone (QueuedBuild.isDone_settle _ _)⟩

theorem heldOnSuccesses_complete_iff :
    HeldOnSuccesses storeDir outputPaths s (.complete result :: es) ↔
      HeldOnSuccess storeDir outputPaths s (.complete result) := by
  rw [heldOnSuccesses_cons]
  exact and_iff_left (heldOnSuccesses_of_isDone (QueuedBuild.isDone_settle _ _))

theorem heldOnSuccesses_skip {e : Effect} (h : (s.apply e).build.future = s.build.future) :
    HeldOnSuccesses storeDir outputPaths s (e :: es) ↔
      HeldOnSuccesses storeDir outputPaths (s.apply e) es := by
  rw [heldOnSuccesses_cons]
  exact and_iff_right (heldOnSuccess_of_future_eq h)

theorem heldOnSuccesses_handle (raised : Raised) :
    HeldOnSuccesses storeDir outputPaths s (handle builder raised ++ es) ↔
      raised = .crash ∨ HeldOnSuccesses storeDir outputPaths (s.apply (.retry builder.id)) es := by
  cases raised with
  | retryable =>
    rw [or_iff_right nofun]
    exact heldOnSuccesses_skip rfl
  | crash => exact iff_of_true (heldOnSuccesses_fail _) (.inl rfl)

/-- An answer that is not `BUILT` is completed behind the `try`, whatever leaving the
connection raises. -/
theorem heldOnSuccesses_uncollected (hstatus : result.status ≠ 0) (stats : Option String)
    (ending : Ending) (leaving : Option Raised)
    (h : HeldOnSuccess storeDir outputPaths s (.complete result)) :
    HeldOnSuccesses storeDir outputPaths s
      (effects storeDir outputPaths text builder s.valid
        (.answered result stats ending leaving)) := by
  simp only [effects, if_neg hstatus]
  cases leaving with
  | none => exact heldOnSuccesses_complete_iff.2 h
  | some raised =>
    apply (heldOnSuccesses_handle raised).2
    right
    -- a retry touches neither the future nor the local store
    apply heldOnSuccesses_complete_iff.2
    rw [heldOnSuccess_complete_iff] at h ⊢
    exact h

theorem heldOnSuccesses_collected (hstatus : result.status = 0) (hpending : s.build.isDone = false)
    (stats : Option String) (ending : Ending) (leaving : Option Raised) :
    HeldOnSuccesses storeDir outputPaths s
        (effects storeDir outputPaths text builder s.valid
          (.answered result stats ending leaving)) ↔
      (stats = none →
        (streamPaths builder.id localStoreId builder.source
          (allOutputPaths storeDir outputPaths result) s.valid ending).result = .ok () →
        ∀ p ∈ allOutputPaths storeDir outputPaths result, p ∈ validAfter s.valid
          (streamPaths builder.id localStoreId builder.source
            (allOutputPaths storeDir outputPaths result) s.valid ending)) := by
  simp only [effects, if_pos hstatus, collectOutputs, if_neg (not_not.2 hstatus)]
  cases stats with
  | some e =>
    refine iff_of_true ?_ nofun
    exact (heldOnSuccesses_skip rfl).2 (heldOnSuccesses_fail _)
  | none =>
    cases hstream : (streamPaths builder.id localStoreId builder.source
        (allOutputPaths storeDir outputPaths result) s.valid ending).result with
    | error e =>
      refine iff_of_true ?_ (fun _ hok => nomatch hok)
      exact (heldOnSuccesses_skip rfl).2 ((heldOnSuccesses_skip rfl).2 (heldOnSuccesses_fail _))
    | ok _ =>
      refine (heldOnSuccesses_skip rfl).trans ?_
      refine (heldOnSuccesses_skip rfl).trans ?_
      refine heldOnSuccesses_complete_iff.trans (heldOnSuccess_complete_iff.trans ?_)
      have hsuccess : resultSucceeded result.status = true := by
        rw [hstatus]
        decide
      constructor
      · intro h _ _
        exact h hpending hsuccess
      · intro h _ _
        exact h rfl rfl

theorem heldOnSuccesses_of_collects (h : Collects storeDir outputPaths s builder result)
    (stats : Option String) (ending : Ending) (leaving : Option Raised) :
    HeldOnSuccesses storeDir outputPaths s
      (effects storeDir outputPaths text builder s.valid
        (.answered result stats ending leaving)) := by
  cases hpending : s.build.isDone with
  | true => exact heldOnSuccesses_of_isDone hpending
  | false =>
    by_cases hstatus : result.status = 0
    · rw [heldOnSuccesses_collected hstatus hpending]
      intro _ hok p hp
      have hknows := h hpending (by rw [hstatus]; decide)
      rw [if_pos hstatus] at hknows
      exact Transfer.complete_of_knows hknows ending hok p hp p .refl
    · apply heldOnSuccesses_uncollected hstatus
      rw [heldOnSuccess_complete_iff]
      intro hpending hsuccess
      have hheld := h hpending hsuccess
      rwa [if_neg hstatus] at hheld

/-- **Success means collected**: for every way the pull, the statistics and the connection
go, exactly for the answers that are collected. -/
theorem success_held_iff (storeDir : String) (outputPaths : List (String × StorePath))
    (text : Failure → String) (s : State) (builder : Builder) (result : BuildResult) :
    (∀ stats ending leaving, HeldOnSuccesses storeDir outputPaths s
      (effects storeDir outputPaths text builder s.valid
        (.answered result stats ending leaving))) ↔
      Collects storeDir outputPaths s builder result := by
  refine ⟨fun h hpending hsuccess => ?_, heldOnSuccesses_of_collects⟩
  split_ifs with hstatus
  · exact Transfer.knows_of_asked fun ending =>
      (heldOnSuccesses_collected hstatus hpending none ending none).1 (h none ending none) rfl
  · have hplain := h none .finished none
    simp only [effects, if_neg hstatus] at hplain
    exact heldOnSuccess_complete_iff.1 (heldOnSuccesses_complete_iff.1 hplain) hpending hsuccess

end Attempts

/-! ## A build that was there already -/

/-- A builder that has the output `/nix/store/a-out`. -/
def remote : Builder := ⟨"builder", .localDB Transfer.batch⟩

/-- A build that is queued, and a local store that has nothing. -/
def queued : State := ⟨.new 1 "/nix/store/a.drv" none ∅ false, [], []⟩

/-- `ALREADY_VALID`, from a builder that has built the derivation before. -/
def alreadyValid : BuildResult := ⟨BuildResultStatus.alreadyValid.value, "", some [], none⟩

/-- **The future resolves with success, and the local store has nothing.** -/
theorem executeBuild_alreadyValid :
    (executeBuild "/nix/store" [("out", ⟨"a-out"⟩)] (fun _ => "") queued remote
      (.answered alreadyValid none .finished none)).build.future = .resolved ⟨2, ""⟩ ∧
    resultSucceeded 2 = true ∧
    allOutputPaths "/nix/store" [("out", ⟨"a-out"⟩)] alreadyValid = ["/nix/store/a-out"] ∧
    (executeBuild "/nix/store" [("out", ⟨"a-out"⟩)] (fun _ => "") queued remote
      (.answered alreadyValid none .finished none)).valid = [] ∧
    ¬HeldOnSuccesses "/nix/store" [("out", ⟨"a-out"⟩)] queued
      (effects "/nix/store" [("out", ⟨"a-out"⟩)] (fun _ => "") remote queued.valid
        (.answered alreadyValid none .finished none)) := by
  have houtputs : allOutputPaths "/nix/store" [("out", ⟨"a-out"⟩)] alreadyValid =
      ["/nix/store/a-out"] := by decide +kernel
  refine ⟨by decide +kernel, by decide, houtputs, by decide +kernel, fun h => ?_⟩
  have hheld := heldOnSuccess_complete_iff.1 (heldOnSuccesses_complete_iff.1 h) rfl (by decide)
  exact absurd (hheld _ (List.mem_singleton_self _)) List.not_mem_nil

end Pynixd.Scheduler
