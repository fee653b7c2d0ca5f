import Pynixd.Lib.Runs
import Pynixd.Queue.Build

/-!
# The subscriptions of a build goal

`BuildDerivationGoal` (`pynixd/goals/build_derivation.py`) subscribes its clients to the build that
it waits for.  A client is listed twice: the goal keeps it in `_subscribers` until the build is on
the queue and in `_active_subscribers` behind that, and the build counts its references.

* `balanced_of_run` — **no reference that the goal took is left** for a client behind its
  `unsubscribe`, nor for any client behind the end of the goal, while `Tidy` holds of each step;
* `unsubscribe_leaves_reference` — `unsubscribe` empties the list of the goal and gives back one
  reference, and a cancellation behind `_build_id` gives back none.
-/

namespace Pynixd.Subscriptions

open List Queue Runs

/-- Where a task is that takes or gives back one reference. -/
inductive Phase where
  /-- `_subscribe_active`, at `subscribe_build`. -/
  | subscribing
  /-- The same behind the answer, at the lock of the goal. -/
  | subscribed
  /-- At `unsubscribe_build`. -/
  | leaving
  deriving DecidableEq

inductive Stage where
  | enqueuing
  /-- It has failed, or was cancelled, before the build was on the queue. -/
  | failed
  /-- It subscribes the clients that came early, and then waits for the build. -/
  | running
  /-- It was cancelled while it subscribed them, or at the lock of its `finally`. -/
  | aborted
  /-- In its `finally`, where it unsubscribes the active ones. -/
  | closing
  | ended
  deriving DecidableEq

def Stage.known (stage : Stage) : Bool := stage ≠ .enqueuing ∧ stage ≠ .failed

def Stage.finished (stage : Stage) : Bool := stage = .closing ∨ stage = .ended

def Stage.isOver (stage : Stage) : Bool := stage = .failed ∨ stage = .aborted ∨ stage = .ended

structure State where
  stage : Stage
  subscribers : List ClientConn
  active : List ClientConn
  /-- The calls of `subscribe` and `unsubscribe` that wait. -/
  calls : List (ClientConn × Phase)
  /-- What is left of the loop that `_run` is in, its present call first. -/
  todo : List (ClientConn × Phase)
  build : QueuedBuild
  /-- The references on the build that the goal took and did not give back. -/
  mine : ClientConn → Nat
  /-- The clients whose last call was `unsubscribe`. -/
  left : List ClientConn

def State.new (build : QueuedBuild) : State :=
  ⟨.enqueuing, [], [], [], [], build, fun _ => 0, []⟩

/-- `subscribe_build`: `add_subscriber` takes a reference, unless the replay fails. -/
def State.take (s : State) (c : ClientConn) (replayed : Bool) : State :=
  let build := s.build.addSubscriber c true replayed
  let count := fun b : QueuedBuild => (Dict.get? b.subscriberRefs c).getD 0
  { s with
    build
    mine := Function.update s.mine c
      (s.mine c + if count s.build < count build then 1 else 0) }

/-- `unsubscribe_build`: the build has one reference less, and the goal one of its own if it has
any.  A build that the queue has dropped takes its references with it. -/
def State.giveBack (s : State) (c : ClientConn) : State :=
  { s with
    build := s.build.unsubscribe c
    mine := Function.update s.mine c (s.mine c - 1) }

/-- A task goes on to its next `await`.  The answer is that of `subscribe_build`: whether the build
is there, and whether the replay reached the client. -/
def State.goOn (s : State) (c : ClientConn) (answer : Option Bool) : Phase → State × Option Phase
  | .subscribing =>
    match answer with
    | none => (s, none)
    | some replayed => (s.take c replayed, some .subscribed)
  | .subscribed =>
    if s.stage.finished then (s, some .leaving) else ({ s with active := s.active ++ [c] }, none)
  | .leaving => (s.giveBack c, none)

inductive Event where
  | subscribe (c : ClientConn)
  | unsubscribe (c : ClientConn)
  | call (c : ClientConn) (phase : Phase) (answer : Option Bool)
  /-- A call is cancelled where it waits. -/
  | cancelCall (c : ClientConn) (phase : Phase)
  /-- `build_derivation` answers, and `_run` takes over the clients. -/
  | enqueued
  | loop (answer : Option Bool)
  /-- The build has ended, or the goal is cancelled while it waits, and its `finally` gets the
  lock. -/
  | finish
  | returns
  /-- The goal fails or is cancelled anywhere else: before the build is on the queue, in one of
  its loops, or at the lock of the `finally`. -/
  | cancel
  /-- Somebody else does something to the build. -/
  | others (build : QueuedBuild)

/-- The tasks that a task leaves behind. -/
def next (c : ClientConn) (phase : Option Phase) : List (ClientConn × Phase) :=
  phase.toList.map (c, ·)

def step (s : State) : Event → Option State
  | .subscribe c =>
    let s := { s with left := s.left.filter (· ≠ c) }
    some (if s.stage.finished then s
      else if s.stage.known then { s with calls := (c, .subscribing) :: s.calls }
      else { s with subscribers := s.subscribers ++ [c] })
  | .unsubscribe c =>
    let s := { s with
      subscribers := s.subscribers.filter (· ≠ c)
      active := s.active.filter (· ≠ c)
      left := c :: s.left }
    some (if s.stage.known then { s with calls := (c, .leaving) :: s.calls } else s)
  | .call c phase answer =>
    if (c, phase) ∈ s.calls then
      let (t, phase') := s.goOn c answer phase
      some { t with calls := next c phase' ++ s.calls.erase (c, phase) }
    else none
  | .cancelCall c phase =>
    if (c, phase) ∈ s.calls then some { s with calls := s.calls.erase (c, phase) } else none
  | .loop answer =>
    match s.todo with
    | [] => none
    | (c, phase) :: rest =>
      let (t, phase') := s.goOn c answer phase
      some { t with todo := next c phase' ++ rest }
  | .enqueued =>
    if s.stage = .enqueuing then
      some { s with
        stage := .running
        subscribers := []
        todo := s.subscribers.map (·, .subscribing) }
    else none
  | .finish =>
    if s.stage = .running ∧ s.todo = [] then
      some { s with
        stage := .closing
        active := []
        todo := s.active.map (·, .leaving) }
    else none
  | .returns => if s.stage = .closing ∧ s.todo = [] then some { s with stage := .ended } else none
  | .cancel =>
    if s.stage = .enqueuing then some { s with stage := .failed }
    else if s.stage = .running ∨ s.todo ≠ [] then
      some { s with stage := if s.stage = .closing then .ended else .aborted, todo := [] }
    else none
  | .others build => some { s with build }

/-- **The balance**: with its calls returned, the goal has no reference for a client that has left,
and for no client once it has ended. -/
def Balanced (s : State) : Prop :=
  ∀ c, (∀ task ∈ s.calls, task.1 ≠ c) → c ∈ s.left ∨ s.stage.isOver → s.mine c = 0

/-- A client leaves while the goal has at most one reference for it and nothing but other calls of
`unsubscribe` is under way for it; a call is cancelled only before it has a reference; and the goal
is cancelled only before the build is on the queue or while it waits for the build. -/
def Tidy (s : State) : Event → Prop
  | .unsubscribe c => s.active.count c ≤ 1 ∧ (∀ task ∈ s.calls, task.1 = c → task.2 = .leaving) ∧
      ∀ task ∈ s.todo, task.1 ≠ c
  | .cancelCall _ phase => phase = .subscribing
  | .cancel => s.stage ≠ .running ∧ s.todo = []
  | _ => True

instance (s : State) : ∀ e, Decidable (Tidy s e)
  | .unsubscribe _ => inferInstanceAs (Decidable (_ ∧ (∀ _ ∈ _, _ → _) ∧ ∀ _ ∈ _, _))
  | .cancelCall .. => inferInstanceAs (Decidable (_ = _))
  | .cancel => inferInstanceAs (Decidable (_ ∧ _))
  | .subscribe _ | .call .. | .enqueued | .loop _ | .finish | .returns | .others _ => isTrue trivial

/-! ## What is owed -/

/-- The task has a reference for the client, and gives it to the goal or back. -/
def holds (c : ClientConn) (task : ClientConn × Phase) : Bool :=
  task.1 = c ∧ task.2 ≠ .subscribing

/-- Each reference is owed by an active subscription or by a task, and a client that has left has
none but calls of `unsubscribe`. -/
structure Inv (s : State) : Prop where
  early : s.stage.known = false → s.active = [] ∧ s.todo = [] ∧ s.calls = []
  finished : s.stage.finished = true → s.active = []
  ending : s.stage.isOver = true → s.todo = [] ∧ s.stage ≠ .aborted
  owed : ∀ c, s.mine c ≤ s.active.count c + (s.calls ++ s.todo).countP (holds c)
  gone : ∀ c ∈ s.left, c ∉ s.subscribers ∧ c ∉ s.active ∧
    (∀ task ∈ s.calls, task.1 = c → task.2 = .leaving) ∧ ∀ task ∈ s.todo, task.1 ≠ c

theorem inv_new (build : QueuedBuild) : Inv (.new build) := by
  constructor <;> simp [State.new, Stage.finished, Stage.isOver]

variable {s t : State} {c : ClientConn} {phase : Phase} {phase' : Option Phase}
  {mine : ClientConn → Nat} {active : List ClientConn} {build : QueuedBuild}

/-- **A task that goes on** hands on what it owes, and does nothing for another client. -/
structure GoesOn (s : State) (c : ClientConn) (phase : Phase) (mine : ClientConn → Nat)
    (active : List ClientConn) (phase' : Option Phase) : Prop where
  finished : s.stage.finished = true → active = s.active
  owed : ∀ c' n, s.mine c' ≤ s.active.count c' + [(c, phase)].countP (holds c') + n →
    mine c' ≤ active.count c' + (next c phase').countP (holds c') + n
  active : ∀ c', c' ∈ active → c' ∈ s.active ∨ c' = c ∧ phase ≠ .leaving
  leaving : phase = .leaving → phase' = none

theorem goOn_spec (s : State) (c : ClientConn) (answer : Option Bool) (phase : Phase) :
    ∃ build mine active phase', s.goOn c answer phase = ({ s with build, mine, active }, phase') ∧
      GoesOn s c phase mine active phase' := by
  cases phase with
  | subscribing =>
    cases answer with
    | none =>
      refine ⟨_, _, _, _, rfl, fun _ => rfl, fun c' n h => ?_, fun c' => .inl, nofun⟩
      simpa [next, holds] using h
    | some replayed =>
      refine ⟨_, _, _, _, rfl, fun _ => rfl, fun c' n h => ?_, fun c' => .inl, nofun⟩
      by_cases hc : c' = c
      · subst hc
        simp only [Function.update_self, next]
        split_ifs <;> simp [holds] at h ⊢ <;> omega
      · simpa [Function.update_of_ne hc, next, holds, Ne.symm hc] using h
  | subscribed =>
    by_cases hfinished : s.stage.finished = true
    · refine ⟨_, _, _, _, if_pos hfinished, fun _ => rfl, fun c' n h => ?_, fun c' => .inl, nofun⟩
      simpa [next, holds] using h
    · refine ⟨_, _, _, _, if_neg hfinished, fun h => absurd h hfinished, fun c' n h => ?_,
        fun c' h => ?_, nofun⟩
      · by_cases hc : c = c' <;> simp [hc, next, holds] at h ⊢ <;> omega
      · simpa using h
  | leaving =>
    refine ⟨_, _, _, _, rfl, fun _ => rfl, fun c' n h => ?_, fun c' => .inl, fun _ => rfl⟩
    by_cases hc : c' = c
    · subst hc
      simp [next, holds] at h ⊢
      omega
    · simpa [Function.update_of_ne hc, next, holds, Ne.symm hc] using h

theorem Inv.call (h : Inv s) (hcall : (c, phase) ∈ s.calls)
    (hgo : GoesOn s c phase mine active phase') :
    Inv { s with build, mine, active, calls := next c phase' ++ s.calls.erase (c, phase) } := by
  have hperm := perm_cons_erase hcall
  refine ⟨fun hearly => ?_, fun hfin => (hgo.finished hfin).trans (h.finished hfin), h.ending,
    fun c' => ?_, fun c' hleft => ?_⟩
  · rw [(h.early hearly).2.2] at hcall
    cases hcall
  · have howed := h.owed c'
    rw [(hperm.append_right _).countP_eq, cons_append, ← singleton_append,
      countP_append, ← Nat.add_assoc] at howed
    rw [append_assoc, countP_append, ← Nat.add_assoc]
    exact hgo.owed c' _ howed
  · obtain ⟨hsub, hactive, hcalls, htodo⟩ := h.gone c' hleft
    have hphase : c' = c → phase = .leaving := fun hc => hcalls _ hcall hc.symm
    refine ⟨hsub, fun hin => ?_, fun task htask heq => ?_, htodo⟩
    · rcases hgo.active c' hin with hin | ⟨hc, hphase'⟩
      · exact hactive hin
      · exact hphase' (hphase hc)
    · rcases mem_append.1 htask with hnext | hin
      · obtain ⟨phase'', hphase'', rfl⟩ := mem_map.1 hnext
        rw [hgo.leaving (hphase heq.symm)] at hphase''
        cases hphase''
      · exact hcalls task (mem_of_mem_erase hin) heq

theorem Inv.step_call (h : Inv s) (answer : Option Bool)
    (hstep : step s (.call c phase answer) = some t) : Inv t := by
  rw [step] at hstep
  split_ifs at hstep with hcall
  obtain ⟨build, mine, active, phase', hgoes, hgo⟩ := goOn_spec s c answer phase
  rw [hgoes] at hstep
  obtain rfl := Option.some.inj hstep
  exact h.call hcall hgo

theorem Inv.loop (h : Inv s) {rest : List (ClientConn × Phase)}
    (htodo : s.todo = (c, phase) :: rest) (hgo : GoesOn s c phase mine active phase') :
    Inv { s with build, mine, active, todo := next c phase' ++ rest } := by
  refine ⟨fun hearly => ?_, fun hfin => (hgo.finished hfin).trans (h.finished hfin),
    fun hover => ?_, fun c' => ?_, fun c' hleft => ?_⟩
  · cases htodo.symm.trans (h.early hearly).2.1
  · cases htodo.symm.trans (h.ending hover).1
  · have howed := h.owed c'
    rw [htodo, perm_middle.countP_eq, ← singleton_append, countP_append,
      ← Nat.add_assoc] at howed
    have hnext := hgo.owed c' _ howed
    simp only [countP_append] at hnext ⊢
    omega
  · obtain ⟨hsub, hactive, hcalls, hrest⟩ := h.gone c' hleft
    rw [htodo, forall_mem_cons] at hrest
    refine ⟨hsub, fun hin => ?_, hcalls, fun task htask => ?_⟩
    · rcases hgo.active c' hin with hin | ⟨hc, -⟩
      · exact hactive hin
      · exact hrest.1 hc.symm
    · rcases mem_append.1 htask with hnext | hin
      · obtain ⟨_, -, rfl⟩ := mem_map.1 hnext
        exact hrest.1
      · exact hrest.2 task hin

theorem Inv.subscribe (h : Inv s) (hstep : step s (.subscribe c) = some t) : Inv t := by
  obtain rfl := Option.some.inj hstep
  have hleft : ∀ c' ∈ s.left.filter (· ≠ c), c' ∈ s.left ∧ c ≠ c' := fun c' hin =>
    ⟨(mem_filter.1 hin).1, (of_decide_eq_true (mem_filter.1 hin).2).symm⟩
  split_ifs with hfin hknown
  · exact ⟨h.early, h.finished, h.ending, h.owed, fun c' hin => h.gone c' (hleft c' hin).1⟩
  · refine ⟨fun hearly => ?_, h.finished, h.ending, fun c' => ?_, fun c' hin => ?_⟩
    · cases hknown.symm.trans hearly
    · simpa [holds] using h.owed c'
    · obtain ⟨hin, hne⟩ := hleft c' hin
      obtain ⟨hsub, hactive, hcalls, htodo⟩ := h.gone c' hin
      exact ⟨hsub, hactive, forall_mem_cons.2 ⟨fun heq => absurd heq hne, hcalls⟩, htodo⟩
  · refine ⟨h.early, h.finished, h.ending, h.owed, fun c' hin => ?_⟩
    obtain ⟨hin, hne⟩ := hleft c' hin
    obtain ⟨hsub, hrest⟩ := h.gone c' hin
    exact ⟨by simpa [hsub] using hne.symm, hrest⟩

theorem Inv.unsubscribe (h : Inv s) (htidy : Tidy s (.unsubscribe c))
    (hstep : step s (.unsubscribe c) = some t) : Inv t := by
  obtain rfl := Option.some.inj hstep
  obtain ⟨hone, hcalls, htodo⟩ := htidy
  have hgone : ∀ c' ∈ c :: s.left, c' ∉ s.subscribers.filter (· ≠ c) ∧
      c' ∉ s.active.filter (· ≠ c) ∧ (∀ task ∈ s.calls, task.1 = c' → task.2 = .leaving) ∧
        ∀ task ∈ s.todo, task.1 ≠ c' := by
    intro c' hin
    rcases mem_cons.1 hin with rfl | hin
    · exact ⟨by simp, by simp, hcalls, htodo⟩
    · obtain ⟨hsub, hactive, hrest⟩ := h.gone c' hin
      exact ⟨fun hmem => hsub (mem_of_mem_filter hmem),
        fun hmem => hactive (mem_of_mem_filter hmem), hrest⟩
  split_ifs with hknown
  · refine ⟨fun hearly => ?_, fun hfin => ?_, h.ending, fun c' => ?_, fun c' hin => ?_⟩
    · cases hknown.symm.trans hearly
    · simp [h.finished hfin]
    · have howed := h.owed c'
      simp only [cons_append, countP_cons]
      by_cases hc : c' = c
      · subst hc
        have hnew : holds c' (c', .leaving) = true := by simp [holds]
        rw [if_pos hnew]
        omega
      · rw [count_filter (by simpa using hc)]
        omega
    · obtain ⟨hsub, hactive, hcalls, htodo⟩ := hgone c' hin
      exact ⟨hsub, hactive, forall_mem_cons.2 ⟨fun _ => rfl, hcalls⟩, htodo⟩
  · obtain ⟨hactive, htodo, hcalls⟩ := h.early (Bool.eq_false_iff.2 hknown)
    exact ⟨fun _ => ⟨by simp [hactive], htodo, hcalls⟩, fun _ => by simp [hactive], h.ending,
      by simpa [hactive] using h.owed, hgone⟩

theorem forall_task_ne {c : ClientConn} {clients : List ClientConn} (hc : c ∉ clients)
    (phase : Phase) : ∀ task ∈ clients.map (·, phase), task.1 ≠ c := by
  intro task htask heq
  obtain ⟨c', hc', rfl⟩ := mem_map.1 htask
  exact hc (heq ▸ hc')

theorem inv_step (s : State) (e : Event) (t : State) (h : Inv s) (htidy : Tidy s e)
    (hstep : step s e = some t) : Inv t := by
  cases e with
  | subscribe c => exact h.subscribe hstep
  | unsubscribe c => exact h.unsubscribe htidy hstep
  | call c phase answer => exact h.step_call answer hstep
  | cancelCall c phase =>
    -- as if `subscribe_build` had found no build
    obtain rfl : phase = .subscribing := htidy
    exact h.step_call none hstep
  | loop answer =>
    rw [step] at hstep
    split at hstep
    · cases hstep
    · next c phase rest htodo =>
      obtain ⟨build, mine, active, phase', hgoes, hgo⟩ := goOn_spec s c answer phase
      rw [hgoes] at hstep
      obtain rfl := Option.some.inj hstep
      exact h.loop htodo hgo
  | enqueued =>
    rw [step] at hstep
    split_ifs at hstep with hstage
    obtain rfl := Option.some.inj hstep
    obtain ⟨hactive, htodo, hcalls⟩ := h.early (by simp [Stage.known, hstage])
    refine ⟨nofun, nofun, nofun, fun c => ?_, fun c hleft => ?_⟩
    · have howed := h.owed c
      simp only [hcalls, htodo] at howed ⊢
      exact howed.trans (Nat.add_le_add_left (Nat.zero_le _) _)
    · obtain ⟨hsub, hactive', hcalls', -⟩ := h.gone c hleft
      exact ⟨not_mem_nil, hactive', hcalls', forall_task_ne hsub _⟩
  | finish =>
    rw [step] at hstep
    split_ifs at hstep with hstage
    obtain rfl := Option.some.inj hstep
    refine ⟨nofun, fun _ => rfl, nofun, fun c => ?_, fun c hleft => ?_⟩
    · have howed := h.owed c
      have hactive : (s.active.map (·, Phase.leaving)).countP (holds c) = s.active.count c := by
        rw [countP_map]
        exact countP_congr fun c' _ => by simp [holds]
      rw [hstage.2] at howed
      rw [countP_append, hactive]
      simpa [Nat.add_comm] using howed
    · obtain ⟨hsub, hactive, hcalls, -⟩ := h.gone c hleft
      exact ⟨hsub, not_mem_nil, hcalls, forall_task_ne hactive _⟩
  | returns =>
    rw [step] at hstep
    split_ifs at hstep with hstage
    obtain rfl := Option.some.inj hstep
    exact ⟨nofun, fun _ => h.finished (by simp [Stage.finished, hstage.1]),
      fun _ => ⟨hstage.2, nofun⟩, h.owed, h.gone⟩
  | cancel =>
    rw [step] at hstep
    split_ifs at hstep with hstage hlate
    · obtain rfl := Option.some.inj hstep
      have hearly := h.early (by simp [Stage.known, hstage])
      exact ⟨fun _ => hearly, nofun, fun _ => ⟨hearly.2.1, nofun⟩, h.owed, h.gone⟩
    · exact (hlate.elim htidy.1 fun htodo => htodo htidy.2).elim
    · exact (hlate.elim htidy.1 fun htodo => htodo htidy.2).elim
  | others build =>
    obtain rfl := Option.some.inj hstep
    exact ⟨h.early, h.finished, h.ending, h.owed, h.gone⟩

/-- **No reference is left**, in any state that steps which are `Tidy` lead to. -/
theorem balanced_of_run (build : QueuedBuild) {es : List Event} {s : State}
    (htidy : Guarded step Tidy (.new build) es) (hrun : run step (.new build) es = some s) :
    Balanced s := by
  have h := inv_of_guarded inv_step (inv_new build) htidy hrun
  intro c hcalls hwhen
  have hnone : s.calls.countP (holds c) = 0 :=
    countP_eq_zero.2 fun task htask hholds => hcalls task htask (of_decide_eq_true hholds).1
  have howed := h.owed c
  rw [countP_append, hnone] at howed
  rcases hwhen with hleft | hover
  · obtain ⟨-, hactive, -, htodo⟩ := h.gone c hleft
    have hloop : s.todo.countP (holds c) = 0 :=
      countP_eq_zero.2 fun task htask hholds => htodo task htask (of_decide_eq_true hholds).1
    rw [count_eq_zero.2 hactive, hloop] at howed
    exact Nat.le_zero.1 howed
  · have hactive : s.active = [] := by
      cases hstage : s.stage with
      | enqueuing | running | closing => simp [hstage, Stage.isOver] at hover
      | failed => exact (h.early (by simp [hstage, Stage.known])).1
      | aborted => exact absurd hstage (h.ending hover).2
      | ended => exact h.finished (by simp [hstage, Stage.finished])
    rw [hactive, (h.ending hover).1] at howed
    exact Nat.le_zero.1 howed

def quiet : QueuedBuild := .new 1 "d.drv" none ∅ true

/-- Two clients that come early; the first leaves, and the second stays to the end. -/
def twoClients : List Event :=
  [.subscribe 1, .subscribe 2, .enqueued, .loop (some true), .loop none, .loop (some true),
    .loop none, .unsubscribe 1, .call 1 .leaving none, .finish, .loop none, .returns]

theorem balanced_twoClients :
    ∃ s, run step (.new quiet) twoClients = some s ∧ s.stage = .ended ∧ Balanced s := by
  obtain ⟨s, hrun, hs⟩ := Option.map_eq_some_iff.1
    (by decide +kernel : (run step (.new quiet) twoClients).map (·.stage) = some .ended)
  exact ⟨s, hrun, hs, balanced_of_run quiet (by decide +kernel) hrun⟩

/-- A client subscribes, and its call goes to its end. -/
def subscribes : List Event :=
  [.subscribe 1, .call 1 .subscribing (some true), .call 1 .subscribed none]

theorem not_balanced_of_run {es : List Event}
    (h : (run step (.new quiet) es).map
      (fun s => (s.calls, s.mine 1, decide (1 ∈ s.left ∨ s.stage.isOver))) = some ([], 1, true)) :
    ∃ s, run step (.new quiet) es = some s ∧ ¬Balanced s := by
  obtain ⟨s, hrun, hs⟩ := Option.map_eq_some_iff.1 h
  simp only [Prod.mk.injEq, decide_eq_true_eq] at hs
  obtain ⟨hcalls, hmine, hwhen⟩ := hs
  refine ⟨s, hrun, fun hbalanced => ?_⟩
  have hnone := hbalanced 1 (by simp [hcalls]) hwhen
  rw [hmine] at hnone
  cases hnone

/-- **A reference is left** behind the `unsubscribe` of a client that subscribed twice, behind the
end of a goal that is cancelled while it subscribes the clients that came early or at the lock of
its `finally`, and behind a `subscribe` that is cancelled at the lock of the goal. -/
theorem unsubscribe_leaves_reference :
    (∃ s, run step (.new quiet) (.enqueued :: subscribes ++ subscribes ++
        [.unsubscribe 1, .call 1 .leaving none]) = some s ∧ ¬Balanced s) ∧
      (∃ s, run step (.new quiet) [.subscribe 1, .enqueued, .loop (some true), .cancel] = some s ∧
        ¬Balanced s) ∧
      (∃ s, run step (.new quiet) (.enqueued :: subscribes ++ [.cancel]) = some s ∧ ¬Balanced s) ∧
      ∃ s, run step (.new quiet) (.enqueued :: subscribes.take 2 ++
        [.cancelCall 1 .subscribed, .finish, .returns]) = some s ∧ ¬Balanced s :=
  ⟨not_balanced_of_run (by decide +kernel), not_balanced_of_run (by decide +kernel),
    not_balanced_of_run (by decide +kernel), not_balanced_of_run (by decide +kernel)⟩

end Pynixd.Subscriptions
