import Pynixd.Goals.Results
import Pynixd.Lib.Runs

/-!
# The roots of one request, and the answer

`BuildPathsWithResultsGoal` of `pynixd/goals/requests.py`.  Tasks take the roots in the order
Nix takes its goals and wait for each; a failure that counts stops the request unless the
client keeps going; the answer holds the roots that have a result, in the order asked.

* `mem_answer_iff` — the failing entries of a finished request are the failing roots that
  count;
* `answer_sound_iff` — **a failure reaches the answer, in any finishing order, exactly when
  one of the failing roots counts**;
* `dropped_without_failure` — a root that fails behind `b.drv^out` is dropped for the root
  `b.drv^bin`, which succeeds: the rule compares store paths and reads no result.
-/

namespace Pynixd.Goals

open List

open Queue (Options)
open Runs

/-! ## A request -/

/-- `ClientConn`, as far as a request reads it. -/
structure Client where
  options : Option Options
  standardFeatures : List String

/-- `BuildPathsWithResultsGoal` with what the goals of its roots answer. -/
structure Request where
  storeDir : String
  client : Option Client
  roots : List DerivedPath
  /-- The result of the goal at a position. -/
  result : Nat → GoalResult

namespace Request

def keepGoing (req : Request) : Bool :=
  match req.client with
  | none => false
  | some client => client.options.any (·.keepGoing)

def clientFeatures (req : Request) : List String :=
  match req.client with
  | none => []
  | some client => client.standardFeatures

def buildSlots (req : Request) : Nat := if req.roots.length = 0 then 1 else req.roots.length

def orderKey (req : Request) (index : Nat) : String × String :=
  match req.roots[index]? with
  | none => ("", "")
  | some root => (root.baseStorePath.baseName, root.str req.storeDir)

/-- The order of the keys, as tuples compare. -/
def keyLe (x y : String × String) : Prop := x.1 < y.1 ∨ x.1 = y.1 ∧ x.2 ≤ y.2

instance : DecidableRel keyLe := fun _ _ => inferInstanceAs (Decidable (_ ∨ _))

def goalOrder (req : Request) : List Nat :=
  (List.range req.roots.length).insertionSort fun i j => keyLe (req.orderKey i) (req.orderKey j)

def anotherRootCarriesThisFailure (req : Request) (result : GoalResult) (index : Nat) : Bool :=
  match result.failingDerivation with
  | none => false
  | some failing =>
    if result.succeeded then false
    else if (req.roots[index]?).map (·.baseStorePath) = some failing then false
    else
      req.roots.zipIdx.any fun (root, position) =>
        position != index && failing = root.baseStorePath

end Request

/-! ## The tasks -/

structure State where
  nextPosition : Nat
  stop : Bool
  idle : Nat
  /-- The roots that a task waits for. -/
  waiting : List Nat
  results : List (Option GoalResult)
  /-- The roots whose result a task has read, in the order they came. -/
  ended : List Nat

def State.start (req : Request) : State where
  nextPosition := 0
  stop := false
  idle := min req.buildSlots req.roots.length
  waiting := []
  results := List.replicate req.roots.length none
  ended := []

/-- Every task has ended, and the request answers. -/
def State.Complete (s : State) : Prop := s.idle = 0 ∧ s.waiting = []

/-- Whether a result reaches the answer. -/
def counts (req : Request) (index : Nat) : Bool :=
  !(req.result index).abandoned &&
    !req.anotherRootCarriesThisFailure (req.result index) index

/-- What a task does with a result that it has read. -/
def record (req : Request) (s : State) (index : Nat) : State :=
  let result := req.result index
  if result.abandoned then s
  else if req.anotherRootCarriesThisFailure result index then s
  else
    { s with
      results := s.results.set index (some result)
      stop := s.stop || (!req.keepGoing && !result.succeeded) }

inductive Event where
  | take
  /-- A task finds no root left, or the request stopped. -/
  | quit
  /-- A task stops waiting for a root, because the request stopped. -/
  | giveUp (index : Nat)
  /-- A task reads the result of its root.  It may still do so when the request has
  stopped meanwhile. -/
  | finish (index : Nat)
  deriving DecidableEq

/-- The loop of `take_the_next_goal`, await by await. -/
def step (req : Request) (s : State) : Event → Option State
  | .take =>
    if s.idle = 0 ∨ s.stop = true then none
    else
      match req.goalOrder[s.nextPosition]? with
      | none => none
      | some index =>
        some { s with
          nextPosition := s.nextPosition + 1
          idle := s.idle - 1
          waiting := index :: s.waiting }
  | .quit =>
    if 0 < s.idle ∧ (req.goalOrder.length ≤ s.nextPosition ∨ s.stop = true) then
      some { s with idle := s.idle - 1 }
    else none
  | .giveUp index =>
    if index ∈ s.waiting ∧ s.stop = true then
      some { s with waiting := s.waiting.erase index }
    else none
  | .finish index =>
    if index ∈ s.waiting then
      some (record req
        { s with
          waiting := s.waiting.erase index
          idle := s.idle + 1
          ended := s.ended ++ [index] } index)
    else none

/-- The entries of `BuildPathsWithResultsResponse`. -/
def answer (req : Request) (s : State) : List (DerivedPath × BuildResult) :=
  (req.roots.zip s.results).filterMap fun (path, result) =>
    result.map fun r => (path, r.result.forTheWire (some req.clientFeatures))

/-! ## The order -/

variable {i : Nat} {req : Request} {s : State}

theorem mem_goalOrder {index : Nat} : index ∈ req.goalOrder ↔ index < req.roots.length := by
  rw [Request.goalOrder, mem_insertionSort, mem_range]

theorem length_goalOrder (req : Request) : req.goalOrder.length = req.roots.length := by
  rw [Request.goalOrder, length_insertionSort, length_range]

/-! ## The invariant -/

/-- What holds at every await of the tasks. -/
structure Inv (req : Request) (s : State) : Prop where
  length : s.results.length = req.roots.length
  /-- The places that are filled are those of the ended roots that count. -/
  placed : ∀ i r, s.results[i]? = some (some r) ↔
    i ∈ s.ended ∧ counts req i = true ∧ r = req.result i
  waits : ∀ i ∈ s.waiting, i < req.roots.length
  ran : ∀ i ∈ s.ended, i < req.roots.length
  /-- A root that was taken is waited for, or has ended, unless the request stopped. -/
  taken : ∀ i ∈ req.goalOrder.take s.nextPosition, i ∈ s.waiting ∨ i ∈ s.ended ∨ s.stop = true
  /-- Only a failure that counts stops the request. -/
  stopped : s.stop = true →
    ∃ i ∈ s.ended, counts req i = true ∧ (req.result i).succeeded = false
  /-- A task leaves only when nothing is left to take, or the request stopped. -/
  busy : s.idle + s.waiting.length = min req.buildSlots req.roots.length ∨
    req.roots.length ≤ s.nextPosition ∨ s.stop = true

theorem inv_start (req : Request) : Inv req (.start req) where
  length := length_replicate
  placed := by
    intro i r
    simp [State.start, getElem?_replicate]
  waits := by
    intro i hi
    cases hi
  ran := by
    intro i hi
    cases hi
  taken := by
    intro i hi
    cases hi
  stopped := by
    intro h
    cases h
  busy := .inl rfl

theorem record_eq (req : Request) (s : State) (index : Nat) :
    record req s index =
      if counts req index = true then
        { s with
          results := s.results.set index (some (req.result index))
          stop := s.stop || (!req.keepGoing && !(req.result index).succeeded) }
      else s := by
  simp only [record, counts]
  by_cases hleft : (req.result index).abandoned = true
  · simp [hleft]
  · by_cases hcarried : req.anotherRootCarriesThisFailure (req.result index) index = true
    · simp [hleft, hcarried]
    · simp [hleft, hcarried]

theorem Inv.finish (h : Inv req s) {index : Nat} (hindex : index ∈ s.waiting) :
    Inv req (record req
      { s with
        waiting := s.waiting.erase index
        idle := s.idle + 1
        ended := s.ended ++ [index] } index) := by
  have hlt := h.waits index hindex
  have hlen : (s.waiting.erase index).length + 1 = s.waiting.length := by
    rw [length_erase_of_mem hindex]
    have := length_pos_of_mem hindex
    omega
  have hwaits : ∀ i ∈ s.waiting.erase index, i < req.roots.length :=
    fun i hi => h.waits i (mem_of_mem_erase hi)
  have hran : ∀ i ∈ s.ended ++ [index], i < req.roots.length := by
    intro i hi
    rcases mem_append.1 hi with hi | hi
    · exact h.ran i hi
    · rw [mem_singleton.1 hi]
      exact hlt
  have hmoved : ∀ i, i ∈ s.waiting ∨ i ∈ s.ended ∨ s.stop = true →
      i ∈ s.waiting.erase index ∨ i ∈ s.ended ++ [index] ∨ s.stop = true := by
    rintro i (hi | hi | hi)
    · by_cases hi' : i = index
      · exact .inr (.inl (by simp [hi']))
      · exact .inl ((mem_erase_of_ne hi').2 hi)
    · exact .inr (.inl (mem_append_left _ hi))
    · exact .inr (.inr hi)
  have hbusy := h.busy
  rw [record_eq]
  split_ifs with hcounts
  · refine ⟨?_, ?_, hwaits, hran, ?_, ?_, ?_⟩
    · rw [length_set]
      exact h.length
    · intro i r
      rw [getElem?_set]
      by_cases hi : index = i
      · subst hi
        simp [h.length, hlt, hcounts, eq_comm]
      · rw [if_neg hi, h.placed]
        simp [Ne.symm hi]
    · intro i hi
      rcases hmoved i (h.taken i hi) with hi | hi | hi
      · exact .inl hi
      · exact .inr (.inl hi)
      · exact .inr (.inr (by simp [hi]))
    · intro hstop
      by_cases hbefore : s.stop = true
      · obtain ⟨i, hi, hrest⟩ := h.stopped hbefore
        exact ⟨i, mem_append_left _ hi, hrest⟩
      · refine ⟨index, by simp, hcounts, ?_⟩
        simp only [hbefore, Bool.false_or, Bool.and_eq_true, Bool.not_eq_true'] at hstop
        exact hstop.2
    · dsimp only
      rcases hbusy with hbusy | hbusy | hbusy
      · exact .inl (by omega)
      · exact .inr (.inl hbusy)
      · exact .inr (.inr (by simp [hbusy]))
  · refine ⟨h.length, ?_, hwaits, hran, fun i hi => hmoved i (h.taken i hi), ?_, ?_⟩
    · intro i r
      rw [h.placed]
      by_cases hi : i = index
      · subst hi
        simp [hcounts]
      · simp [hi]
    · intro hstop
      obtain ⟨i, hi, hrest⟩ := h.stopped hstop
      exact ⟨i, mem_append_left _ hi, hrest⟩
    · dsimp only
      rcases hbusy with hbusy | hbusy
      · exact .inl (by omega)
      · exact .inr hbusy

theorem inv_step {s t : State} {e : Event} (h : Inv req s)
    (hstep : step req s e = some t) : Inv req t := by
  cases e with
  | take =>
    simp only [step] at hstep
    split_ifs at hstep with hready
    split at hstep
    · cases hstep
    · next index hindex =>
      cases hstep
      have hmem : index ∈ req.goalOrder := mem_of_getElem? hindex
      refine ⟨h.length, h.placed, ?_, h.ran, ?_, h.stopped, ?_⟩
      · intro i hi
        rcases mem_cons.1 hi with rfl | hi
        · exact mem_goalOrder.1 hmem
        · exact h.waits i hi
      · intro i hi
        rw [take_add_one, hindex] at hi
        rcases mem_append.1 hi with hi | hi
        · rcases h.taken i hi with hi | hi
          · exact .inl (mem_cons_of_mem _ hi)
          · exact .inr hi
        · obtain rfl : i = index := by simpa using hi
          exact .inl (mem_cons_self ..)
      · rcases h.busy with hbusy | hbusy | hbusy
        · simp only [length_cons]
          omega
        · exact .inr (.inl (Nat.le_succ_of_le hbusy))
        · exact .inr (.inr hbusy)
  | quit =>
    simp only [step] at hstep
    split_ifs at hstep with hready
    cases hstep
    rw [length_goalOrder] at hready
    exact ⟨h.length, h.placed, h.waits, h.ran, h.taken, h.stopped, .inr hready.2⟩
  | giveUp index =>
    simp only [step] at hstep
    split_ifs at hstep with hready
    cases hstep
    exact ⟨h.length, h.placed, fun i hi => h.waits i (mem_of_mem_erase hi), h.ran,
      fun i _ => .inr (.inr hready.2), h.stopped, .inr (.inr hready.2)⟩
  | finish index =>
    simp only [step] at hstep
    split_ifs at hstep with hindex
    cases hstep
    exact h.finish hindex

/-! ## The answer -/

/-- A root of the request whose goal failed and was not abandoned. -/
def Failed (req : Request) (index : Nat) : Prop :=
  index < req.roots.length ∧ (req.result index).succeeded = false ∧
    (req.result index).abandoned = false

def Fails (entry : DerivedPath × BuildResult) : Prop := resultSucceeded entry.2.status = false

/-- **The condition under which a failure reaches the answer**: if some root failed, one of
the failed roots is not carried by another. -/
def SomeFailureCounts (req : Request) : Prop :=
  (∃ i, Failed req i) →
    ∃ i, Failed req i ∧ req.anotherRootCarriesThisFailure (req.result i) i = false

theorem exists_fails_iff (h : Inv req s) : (∃ entry ∈ answer req s, Fails entry) ↔
      ∃ i ∈ s.ended, counts req i = true ∧ (req.result i).succeeded = false := by
  constructor
  · rintro ⟨entry, hentry, hfails⟩
    obtain ⟨⟨path, result⟩, hpair, hresult⟩ := mem_filterMap.1 hentry
    obtain ⟨r, rfl, rfl⟩ := Option.map_eq_some_iff.1 hresult
    obtain ⟨i, hi⟩ := mem_iff_getElem?.1 hpair
    obtain ⟨-, hplace⟩ := getElem?_zip_eq_some.1 hi
    obtain ⟨hended, hcounts, rfl⟩ := (h.placed i r).1 hplace
    refine ⟨i, hended, hcounts, ?_⟩
    rw [Fails, BuildResult.forTheWire_status, resultSucceeded_wireStatus] at hfails
    exact hfails
  · rintro ⟨i, hended, hcounts, hfails⟩
    have hplace := (h.placed i _).2 ⟨hended, hcounts, rfl⟩
    obtain ⟨path, hroot⟩ : ∃ path, req.roots[i]? = some path :=
      ⟨_, getElem?_eq_getElem (h.ran i hended)⟩
    refine ⟨_, mem_filterMap.2 ⟨(path, some (req.result i)), ?_, rfl⟩, ?_⟩
    · exact mem_of_getElem? (getElem?_zip_eq_some.2 ⟨hroot, hplace⟩)
    · rw [Fails, BuildResult.forTheWire_status, resultSucceeded_wireStatus]
      exact hfails

theorem Inv.ended_of_complete (h : Inv req s) (hdone : s.Complete)
    (hstop : s.stop = false) (hi : i < req.roots.length) : i ∈ s.ended := by
  obtain ⟨hidle, hwaiting⟩ := hdone
  have hall : req.roots.length ≤ s.nextPosition := by
    rcases h.busy with hbusy | hbusy | hbusy
    · -- no task is left, so there was none: the request is empty
      rw [hwaiting, Request.buildSlots] at hbusy
      split_ifs at hbusy <;> simp at hbusy <;> omega
    · exact hbusy
    · rw [hstop] at hbusy
      cases hbusy
  have htaken : i ∈ req.goalOrder.take s.nextPosition := by
    rw [take_of_length_le (by rw [length_goalOrder]; exact hall)]
    exact mem_goalOrder.2 hi
  rcases h.taken i htaken with hi' | hi' | hi'
  · rw [hwaiting] at hi'
    cases hi'
  · exact hi'
  · rw [hstop] at hi'
    cases hi'

theorem counts_iff :
    counts req i = true ↔ (req.result i).abandoned = false ∧
      req.anotherRootCarriesThisFailure (req.result i) i = false := by
  simp [counts]

/-- **In any finishing order the answer holds a failure exactly when a failed root counts.** -/
theorem mem_answer_iff (h : Inv req s) (hdone : s.Complete) :
    (∃ entry ∈ answer req s, Fails entry) ↔
      ∃ i, Failed req i ∧ req.anotherRootCarriesThisFailure (req.result i) i = false := by
  rw [exists_fails_iff h]
  constructor
  · rintro ⟨i, hended, hcounts, hfails⟩
    obtain ⟨hleft, hcarried⟩ := counts_iff.1 hcounts
    exact ⟨i, ⟨h.ran i hended, hfails, hleft⟩, hcarried⟩
  · rintro ⟨i, ⟨hi, hfails, hleft⟩, hcarried⟩
    cases hstop : s.stop with
    | true => exact h.stopped hstop
    | false =>
      exact ⟨i, h.ended_of_complete hdone hstop hi, counts_iff.2 ⟨hleft, hcarried⟩, hfails⟩

theorem fails_of_carried {r : GoalResult}
    (h : req.anotherRootCarriesThisFailure r i = true) : r.succeeded = false := by
  unfold Request.anotherRootCarriesThisFailure at h
  split at h
  · cases h
  · split_ifs at h with hsucceeded
    simpa using hsucceeded

theorem Inv.ended_of_failed (h : Inv req s) (hdone : s.Complete) (hi : Failed req i)
    (hnone : ¬∃ j, Failed req j ∧ req.anotherRootCarriesThisFailure (req.result j) j = false) :
    i ∈ s.ended ∧ req.anotherRootCarriesThisFailure (req.result i) i = true := by
  refine ⟨h.ended_of_complete hdone ?_ hi.1, by_contra fun hcarried => hnone ⟨i, hi, ?_⟩⟩
  · by_contra hstop
    obtain ⟨j, hj, hcounts, hfails⟩ := h.stopped (by simpa using hstop)
    obtain ⟨hleft, hcarried⟩ := counts_iff.1 hcounts
    exact hnone ⟨j, ⟨h.ran j hj, hfails, hleft⟩, hcarried⟩
  · simpa using hcarried

/-- **When a failure reaches the client.**  For every list of roots, all results of their goals,
every order of the tasks, and either value of `keep-going`: a failure that a task has read gives the
answer a failing entry, and a root is dropped only for a failing entry of another root, exactly when
one of the failed roots is not carried. -/
theorem answer_sound_iff {req : Request} {es : List Event} {t : State}
    (hrun : run (step req) (.start req) es = some t) (hdone : t.Complete) :
    (((∃ i ∈ t.ended, (req.result i).succeeded = false ∧ (req.result i).abandoned = false) →
        ∃ entry ∈ answer req t, Fails entry) ↔ SomeFailureCounts req) ∧
      ((∀ i ∈ t.ended, (req.result i).abandoned = false →
          req.anotherRootCarriesThisFailure (req.result i) i = true →
          ∃ j, j ≠ i ∧ ∃ r, t.results[j]? = some (some r) ∧ r.succeeded = false) ↔
        SomeFailureCounts req) := by
  have h : Inv req t := inv_of_run (fun _ _ _ => inv_step) (inv_start req) hrun
  constructor
  · constructor
    · rintro hsound ⟨i, hi⟩
      by_contra hnone
      have hended := (h.ended_of_failed hdone hi hnone).1
      exact hnone ((mem_answer_iff h hdone).1 (hsound ⟨i, hended, hi.2⟩))
    · rintro hcounts ⟨i, hended, hfailed⟩
      exact (mem_answer_iff h hdone).2 (hcounts ⟨i, h.ran i hended, hfailed⟩)
  · constructor
    · rintro hsound ⟨i, hi⟩
      by_contra hnone
      obtain ⟨hended, hcarried⟩ := h.ended_of_failed hdone hi hnone
      obtain ⟨j, -, r, hplace, hfails⟩ := hsound i hended hi.2.2 hcarried
      obtain ⟨hj, hcounts, rfl⟩ := (h.placed j r).1 hplace
      obtain ⟨hleft, hfree⟩ := counts_iff.1 hcounts
      exact hnone ⟨j, ⟨h.ran j hj, hfails, hleft⟩, hfree⟩
    · intro hcounts i hended hleft hcarried
      have hfailed : Failed req i := ⟨h.ran i hended, fails_of_carried hcarried, hleft⟩
      obtain ⟨j, hj, hjcounts, hjfails⟩ :=
        (exists_fails_iff h).1 ((mem_answer_iff h hdone).2 (hcounts ⟨i, hfailed⟩))
      refine ⟨j, ?_, req.result j, (h.placed j _).2 ⟨hj, hjcounts, rfl⟩, hjfails⟩
      rintro rfl
      rw [(counts_iff.1 hjcounts).2] at hcarried
      cases hcarried

/-! ## Two roots, one behind the other -/

def dependent : DerivedPath := ⟨⟨"1-a.drv"⟩, [], some (.names {"out"})⟩

def ofB (output : String) : DerivedPath := ⟨⟨"2-b.drv"⟩, [], some (.names {output})⟩

/-- What the goal of `b.drv^out` answers when the builder fails. -/
def bFailed : GoalResult :=
  nameWhatReallyFailed (ofB "out") (goalFailure "builder failed" .permanentFailure)

/-- What the goal of `a.drv^out` answers behind it. -/
def dependentFailed : GoalResult :=
  nameWhatReallyFailed dependent
    ((refuseAFailedInput "/nix/store" [] [bFailed] ⟨"1-a.drv"⟩ []).getD bFailed)

def bothRoots (output : String) (b : GoalResult) : Request where
  storeDir := "/nix/store"
  client := none
  roots := [dependent, ofB output]
  result := fun i => if i = 0 then dependentFailed else b

/-- Both tasks take a root, and end in the order given. -/
def bothEnd (first second : Nat) : List Event :=
  [.take, .take, .finish first, .finish second, .quit, .quit]

/-- Asked for `b.drv^out` as well, the client reads the failure of `b.drv`, and the root
that waited for it is dropped. -/
theorem failure_of_input_answered :
    ∃ t, run (step (bothRoots "out" bFailed)) (.start (bothRoots "out" bFailed))
        (bothEnd 0 1) = some t ∧ t.Complete ∧
      ∃ entry ∈ answer (bothRoots "out" bFailed) t, Fails entry := by
  have hread : (run (step (bothRoots "out" bFailed)) (.start (bothRoots "out" bFailed))
      (bothEnd 0 1)).map (fun t => (t.idle, t.waiting, t.ended)) = some (0, [], [0, 1]) := by
    decide +kernel
  obtain ⟨t, hrun, ht⟩ := Option.map_eq_some_iff.1 hread
  simp only [Prod.mk.injEq] at ht
  obtain ⟨hidle, hwaiting, hended⟩ := ht
  have hcounts : SomeFailureCounts (bothRoots "out" bFailed) :=
    fun _ => ⟨1, ⟨by decide, by decide, by decide⟩, by decide +kernel⟩
  refine ⟨t, hrun, ⟨hidle, hwaiting⟩, ?_⟩
  refine (answer_sound_iff hrun ⟨hidle, hwaiting⟩).1.2 hcounts ⟨1, ?_, by decide, by decide⟩
  simp [hended]

/-- **The dropped failure.**  Asked for `b.drv^bin`, which is there, and for `a.drv^out`, whose
build failed behind `b.drv^out`, the answer has one entry, and it succeeds. -/
theorem dropped_without_failure :
    ∃ t, run (step (bothRoots "bin" (goalSuccess .alreadyValid)))
          (.start (bothRoots "bin" (goalSuccess .alreadyValid))) (bothEnd 1 0) = some t ∧
      t.Complete ∧
      (0 ∈ t.ended ∧ dependentFailed.succeeded = false ∧ dependentFailed.abandoned = false) ∧
      ∀ entry ∈ answer (bothRoots "bin" (goalSuccess .alreadyValid)) t, ¬Fails entry := by
  have hread : (run (step (bothRoots "bin" (goalSuccess .alreadyValid)))
      (.start (bothRoots "bin" (goalSuccess .alreadyValid))) (bothEnd 1 0)).map (fun t =>
        (t.idle, t.waiting, t.ended,
          (answer (bothRoots "bin" (goalSuccess .alreadyValid)) t).map (·.2.status))) =
      some (0, [], [1, 0], [2]) := by decide +kernel
  obtain ⟨t, hrun, ht⟩ := Option.map_eq_some_iff.1 hread
  simp only [Prod.mk.injEq] at ht
  obtain ⟨hidle, hwaiting, hended, hanswer⟩ := ht
  refine ⟨t, hrun, ⟨hidle, hwaiting⟩, ⟨by simp [hended], by decide, by decide⟩, ?_⟩
  intro entry hentry hfails
  have hstatus : entry.2.status ∈ [(2 : Int)] := hanswer ▸ mem_map_of_mem hentry
  rw [Fails, mem_singleton.1 hstatus] at hfails
  revert hfails
  decide

end Pynixd.Goals
