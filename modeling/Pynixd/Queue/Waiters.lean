import Pynixd.Lib.Runs
import Pynixd.Queue.Build

/-!
# The waiters of one build

Every handler and every goal that wants a derivation waits for the one future of its
build.  Two roads await the future itself, so cancelling their task cancels it for
everybody; the third goes through `asyncio.wait`, which does not.  A waiter that leaves
also closes its streams, and a request that ends lets go of the build, and either may be
the queue's reason to end it.

* `future_isolated_of_run` — while every departure spares the others, each of them gets
  the queue's answer.
-/

namespace Pynixd.Queue.Waiters

open List Runs

/-! ## Waiters -/

inductive Road where
  /-- `BuildDerivationHandler`: it awaits the future. -/
  | handler
  /-- `BuildDerivationGoal` of a request: it awaits the future, or goes through
  `asyncio.wait` when the owner of the build leaves it limits of its own. -/
  | goal (request : RequestId) (limited : Bool)
  deriving DecidableEq, Repr

/-- The task awaits the shared future itself. -/
def Road.direct : Road → Bool
  | handler => true
  | goal _ limited => !limited

/-- The goal request of the task. -/
def Road.request : Road → Option RequestId
  | handler => none
  | goal request _ => some request

structure Waiter where
  task : Nat
  road : Road
  /-- It has come to its wait, and so behind the `try` that cleans up. -/
  waiting : Bool
  clients : List ClientConn
  deriving DecidableEq, Repr

inductive Answer where
  | response (r : BuildResponse)
  | timedOut
  /-- `CancelledError`, without anybody having cancelled the task that reads it. -/
  | cancelled
  deriving DecidableEq, Repr

structure Shared where
  build : QueuedBuild
  waiters : List Waiter
  /-- The subscriptions that tasks on their way out still have to give back, and whether
  the task was cancelled. -/
  leaving : List (ClientConn × Bool)
  answers : List (Nat × Answer)
  deriving DecidableEq

namespace Shared

def start (id : BuildId) (drvPath : String) (options : Option Options)
    (requests : Finset RequestId) (fromGoalPath : Bool) : Shared :=
  ⟨.new id drvPath options requests fromGoalPath, [], [], []⟩

def find (s : Shared) (task : Nat) : Option Waiter := s.waiters.find? (·.task == task)

def change (s : Shared) (task : Nat) (f : Waiter → Waiter) : Shared :=
  { s with waiters := s.waiters.map fun w => if w.task = task then f w else w }

def drop (s : Shared) (task : Nat) : Shared :=
  { s with waiters := s.waiters.filter (·.task ≠ task) }

/-- The task leaves its wait: its streams are to be closed. -/
def leave (s : Shared) (w : Waiter) (cancelled : Bool) : Shared :=
  { s.drop w.task with leaving := s.leaving ++ w.clients.map fun c => (c, cancelled) }

def answer (s : Shared) (task : Nat) (a : Answer) : Shared :=
  { s with answers := s.answers ++ [(task, a)] }

end Shared

/-! ## Steps -/

inductive Event where
  /-- `enqueue` finds the build and gives a task its future; a goal holds it. -/
  | join (task : Nat) (road : Road)
  /-- The task subscribes a client, whose replay may fail. -/
  | subscribe (task : Nat) (client : ClientConn) (replayed : Bool)
  | wait (task : Nat)
  /-- The future is done, and the task reads it. -/
  | wake (task : Nat)
  /-- A limit of the task's own passes. -/
  | timeout (task : Nat)
  /-- The task is cancelled: its client hung up, or its request is reaped. -/
  | cancel (task : Nat)
  /-- A task on its way out gives a subscription back. -/
  | unsubscribe (client : ClientConn) (cancelled : Bool)
  /-- A write to the client failed, and its subscription goes. -/
  | lose (client : ClientConn)
  /-- `release_request`: the request ends, and `reap` cancels its goals next. -/
  | release (request : RequestId)
  | complete (response : BuildResponse)
  | fail (errorMsg : String)
  | cancelUnwanted
  deriving DecidableEq, Repr

/-- The build after the cancellation of a waiting task: `task.cancel()` cancels the
future that the task awaits. -/
def cancelAwait (b : QueuedBuild) (w : Waiter) : QueuedBuild :=
  if w.road.direct && !b.isDone then { b with future := .cancelled } else b

def step (s : Shared) : Event → Option Shared
  | .join task road =>
    -- A build that is done is not joined: `enqueue` makes a new one.
    if s.build.isDone || (s.find task).isSome then none
    else
      some { s with
        build := match road.request with
          | some r => s.build.hold r
          | none => s.build
        waiters := s.waiters ++ [⟨task, road, false, []⟩] }
  | .subscribe task client replayed =>
    (s.find task).map fun w =>
      { s.change w.task fun w => { w with clients := w.clients ++ [client] } with
        build := s.build.addSubscriber client true replayed }
  | .wait task => (s.find task).map fun w => s.change w.task fun w => { w with waiting := true }
  | .wake task =>
    (s.find task).bind fun w =>
      if w.waiting then
        match s.build.future with
        | .pending => none
        | .resolved r => some ((s.leave w false).answer task (.response r))
        | .cancelled => some ((s.leave w false).answer task .cancelled)
      else none
  | .timeout task =>
    (s.find task).bind fun w =>
      if w.waiting && !w.road.direct && !s.build.isDone then
        some ((s.leave w false).answer task .timedOut)
      else none
  | .cancel task =>
    (s.find task).map fun w =>
      -- Before its wait a task has no clean-up, and its subscriptions stay behind.
      if w.waiting then { s.leave w true with build := cancelAwait s.build w } else s.drop task
  | .unsubscribe client cancelled =>
    if (client, cancelled) ∈ s.leaving then
      some { s with
        build := s.build.unsubscribe client
        leaving := s.leaving.erase (client, cancelled) }
    else none
  | .lose client => some { s with build := (s.build.removeSubscriber client).2 }
  | .release request =>
    some { s with build :=
      if request ∈ s.build.holders then s.build.release request else s.build }
  | .complete response => some { s with build := s.build.settle response }
  | .fail errorMsg => some { s with build := s.build.settle (.miscFailure errorMsg) }
  | .cancelUnwanted => some { s with build := s.build.settle (.miscFailure "") }

/-! ## Departures -/

/-- The event is a cancelled task, or part of what follows from one. -/
def Event.departure : Event → Bool
  | .cancel _ => true
  | .unsubscribe _ cancelled => cancelled
  | .release _ => true
  | _ => false

/-- The waiters that the event leaves behind.  The goals of a request that ends leave
with it. -/
def remaining (e : Event) (s : Shared) : List Waiter :=
  match e with
  | .release request => s.waiters.filter (·.road.request ≠ some request)
  | _ => s.waiters

/-- The client has the one subscription that keeps the build from being cancelled. -/
def LastStream (b : QueuedBuild) (client : ClientConn) : Prop :=
  b.cancelWhenUnsubscribed = true ∧ (b.removeSubscriber client).1 = true ∧
    (b.removeSubscriber client).2.subscribers = []

/-- A departure that takes the future from nobody, as long as there is one to take: the
cancelled task does not await the future, or is the last waiter; the stream that a
cancelled task closes is not the last one, unless nobody waits; the request that ends
is not the last holder, unless only its own goals wait. -/
def Spares (s : Shared) : Event → Prop
  | .cancel task => s.build.future = .pending → ∀ w ∈ s.waiters, w.task = task →
      w.waiting = true → w.road.direct = true → ∀ other ∈ s.waiters, other.task = task
  | .unsubscribe client true => s.build.future = .pending → LastStream s.build client →
      s.waiters = []
  | .release request => s.build.future = .pending → s.build.holders = {request} →
      ∀ w ∈ s.waiters, w.road.request = some request
  | _ => True

/-! ## What holds in every state -/

/-- The future stays, or the queue resolves it. -/
def Advances (b b' : QueuedBuild) : Prop :=
  b'.future = b.future ∨ b.future = .pending ∧ ∃ r, b'.future = .resolved r

/-- The tasks are distinct, nobody waits for a cancelled future, and what was read was
the answer of the queue. -/
structure Inv (s : Shared) : Prop where
  distinct : (s.waiters.map Waiter.task).Nodup
  nobody : s.build.future = .cancelled → s.waiters = []
  read : ∀ x ∈ s.answers, x.2 = .timedOut ∨ ∃ r, x.2 = .response r ∧ s.build.future = .resolved r

section Steps

variable {s t : Shared} {task : Nat} {w : Waiter}

theorem Advances.settle (b : QueuedBuild) (r : BuildResponse) : Advances b (b.settle r) := by
  rw [Advances, QueuedBuild.settle_future, QueuedBuild.isDone]
  cases b.future <;> simp [Future.done]

theorem Advances.unsubscribe (b : QueuedBuild) (client : ClientConn) :
    Advances b (b.unsubscribe client) :=
  (b.unsubscribe_future client).imp id fun ⟨hp, hr⟩ => ⟨hp, _, hr⟩

theorem Advances.release (b : QueuedBuild) (request : RequestId) :
    Advances b (b.release request) :=
  (b.release_future request).imp id fun ⟨hp, hr⟩ => ⟨hp, _, hr⟩

theorem mem_of_find (h : s.find task = some w) : w ∈ s.waiters ∧ w.task = task := by
  refine ⟨mem_of_find?_eq_some h, ?_⟩
  simpa using find?_some h

theorem find_of_mem (hs : (s.waiters.map Waiter.task).Nodup) (h : w ∈ s.waiters) :
    s.find w.task = some w := by
  cases hfind : s.find w.task with
  | none =>
    have hnone := find?_eq_none.1 hfind w h
    simp at hnone
  | some v =>
    obtain ⟨hv, hvw⟩ := mem_of_find hfind
    rw [inj_on_of_nodup_map hs hv h hvw]

theorem Inv.advance (h : Inv s) {b : QueuedBuild} {ws : List Waiter} {l : List (ClientConn × Bool)}
    (hb : Advances s.build b) (hws : ws.map Waiter.task = s.waiters.map Waiter.task) :
    Inv { s with build := b, waiters := ws, leaving := l } := by
  refine ⟨by rw [hws]; exact h.distinct, ?_, ?_⟩
  · intro hc
    have hold : s.build.future = .cancelled := by
      rcases hb with hb | ⟨-, r, hr⟩
      · rw [← hb, hc]
      · rw [hr] at hc
        cases hc
    have hnil : ws.map Waiter.task = [] := by rw [hws, h.nobody hold, map_nil]
    exact map_eq_nil_iff.1 hnil
  · intro x hx
    rcases h.read x hx with ht | ⟨r, hr, hf⟩
    · exact .inl ht
    · refine .inr ⟨r, hr, ?_⟩
      rcases hb with hb | ⟨hp, -⟩
      · rw [hb, hf]
      · rw [hf] at hp
        cases hp

theorem map_task_change (ws : List Waiter) (f : Waiter → Waiter) (hf : ∀ w, (f w).task = w.task) :
    (ws.map fun w => if w.task = task then f w else w).map Waiter.task = ws.map Waiter.task := by
  rw [map_map]
  refine map_congr_left fun w _ => ?_
  simp only [Function.comp_apply]
  split_ifs
  · exact hf w
  · rfl

theorem Inv.drop (h : Inv s) (task : Nat) (l : List (ClientConn × Bool)) :
    Inv { s.drop task with leaving := l } := by
  refine ⟨?_, ?_, h.read⟩
  · exact h.distinct.sublist ((filter_sublist).map _)
  · intro hc
    simp only [Shared.drop, h.nobody hc, filter_nil]

theorem Inv.answer (h : Inv s) {a : Answer}
    (ha : a = .timedOut ∨ ∃ r, a = .response r ∧ s.build.future = .resolved r) :
    Inv (s.answer task a) := by
  refine ⟨h.distinct, h.nobody, ?_⟩
  intro x hx
  rcases mem_append.1 hx with hx | hx
  · exact h.read x hx
  · obtain rfl : x = (task, a) := by simpa using hx
    exact ha

theorem Inv.not_cancelled (h : Inv s) (hw : w ∈ s.waiters) : s.build.future ≠ .cancelled := by
  intro hc
  rw [h.nobody hc] at hw
  cases hw

theorem Inv.join (h : Inv s) {b : QueuedBuild} (hb : b.future = s.build.future)
    (hpending : s.build.isDone = false) (hnew : s.find task = none) {road : Road} :
    Inv { s with build := b, waiters := s.waiters ++ [⟨task, road, false, []⟩] } := by
  refine ⟨?_, ?_, by simpa only [hb] using h.read⟩
  · have hfresh : task ∉ s.waiters.map Waiter.task := by
      simp only [mem_map, not_exists, not_and]
      intro w hw htask
      have hnone := find?_eq_none.1 hnew w hw
      simp [htask] at hnone
    rw [map_append]
    exact nodup_append.2 ⟨h.distinct, nodup_singleton _, by
      rintro a ha b hb rfl
      exact hfresh (by rwa [mem_singleton.1 hb] at ha)⟩
  · intro hc
    rw [hb] at hc
    simp [QueuedBuild.isDone, hc, Future.done] at hpending

theorem Spares.pending_and_alone (hok : Spares s (.cancel task)) (hw : w ∈ s.waiters)
    (htask : w.task = task) (hwaiting : w.waiting = true)
    (hcond : (w.road.direct && !s.build.isDone) = true) :
    s.build.future = .pending ∧ (s.drop w.task).waiters = [] := by
  obtain ⟨hdirect, hdone⟩ : w.road.direct = true ∧ s.build.isDone = false := by
    simpa using hcond
  have hpending := QueuedBuild.future_eq_pending hdone
  refine ⟨hpending, filter_eq_nil_iff.2 fun other hother => ?_⟩
  have hsame := hok hpending w hw htask hwaiting hdirect other hother
  simp [hsame, htask]

theorem Inv.cancel (h : Inv s) (hok : Spares s (.cancel task)) (hw : w ∈ s.waiters)
    (htask : w.task = task) (hwaiting : w.waiting = true) :
    Inv { s.leave w true with build := cancelAwait s.build w } := by
  have hdrop := h.drop w.task (s.leaving ++ w.clients.map fun c => (c, true))
  by_cases hcond : (w.road.direct && !s.build.isDone) = true
  · -- The future is cancelled, and the task was its only reader.
    obtain ⟨hpending, halone⟩ := hok.pending_and_alone hw htask hwaiting hcond
    refine ⟨hdrop.distinct, fun _ => halone, ?_⟩
    · intro x hx
      rcases h.read x hx with ht | ⟨r, -, hf⟩
      · exact .inl ht
      · rw [hpending] at hf
        cases hf
  · have hkeep : cancelAwait s.build w = s.build := by rw [cancelAwait, if_neg hcond]
    rw [hkeep]
    exact hdrop

theorem inv_step {e : Event} (h : Inv s) (hok : Spares s e) (hstep : step s e = some t) :
    Inv t := by
  cases e with
  | join task road =>
    simp only [step] at hstep
    split_ifs at hstep with hcond
    cases hstep
    simp only [Bool.or_eq_true, not_or, Bool.not_eq_true, Option.isSome_eq_false_iff,
      Option.isNone_iff_eq_none] at hcond
    refine h.join ?_ hcond.1 hcond.2
    cases road.request <;> rfl
  | subscribe task client replayed =>
    obtain ⟨w, -, rfl⟩ := Option.map_eq_some_iff.1 hstep
    exact h.advance (.inl (s.build.addSubscriber_future client true replayed))
      (map_task_change _ _ fun _ => rfl)
  | wait task =>
    obtain ⟨w, -, rfl⟩ := Option.map_eq_some_iff.1 hstep
    exact h.advance (.inl rfl) (map_task_change _ _ fun _ => rfl)
  | wake task =>
    obtain ⟨w, hw, hread⟩ := Option.bind_eq_some_iff.1 hstep
    split_ifs at hread
    cases hf : s.build.future with
    | pending =>
      rw [hf] at hread
      cases hread
    | resolved r =>
      rw [hf] at hread
      cases hread
      exact (h.drop w.task _).answer (.inr ⟨r, rfl, hf⟩)
    | cancelled => exact absurd hf (h.not_cancelled (mem_of_find hw).1)
  | timeout task =>
    obtain ⟨w, -, hread⟩ := Option.bind_eq_some_iff.1 hstep
    split_ifs at hread
    cases hread
    exact (h.drop w.task _).answer (.inl rfl)
  | cancel task =>
    obtain ⟨w, hw, rfl⟩ := Option.map_eq_some_iff.1 hstep
    obtain ⟨hmem, htask⟩ := mem_of_find hw
    split_ifs with hwaiting
    · exact h.cancel hok hmem htask hwaiting
    · exact h.drop task _
  | unsubscribe client cancelled =>
    simp only [step] at hstep
    split_ifs at hstep
    cases hstep
    exact h.advance (.unsubscribe _ _) rfl
  | lose client =>
    cases hstep
    exact h.advance (.inl (s.build.removeSubscriber_future client)) rfl
  | release request =>
    cases hstep
    refine h.advance ?_ rfl
    split_ifs
    · exact .release _ _
    · exact .inl rfl
  | complete response =>
    cases hstep
    exact h.advance (.settle _ _) rfl
  | fail errorMsg =>
    cases hstep
    exact h.advance (.settle _ _) rfl
  | cancelUnwanted =>
    cases hstep
    exact h.advance (.settle _ _) rfl

/-! ### What a departure leaves -/

theorem unsubscribe_future_of_not_last {b : QueuedBuild} {client : ClientConn}
    (h : ¬ LastStream b client) : (b.unsubscribe client).future = b.future := by
  have hkeep := b.removeSubscriber_future client
  have hflag : (b.removeSubscriber client).2.cancelWhenUnsubscribed = b.cancelWhenUnsubscribed := by
    unfold QueuedBuild.removeSubscriber
    split
    · rfl
    · split_ifs <;> rfl
  simp only [QueuedBuild.unsubscribe, hflag]
  split_ifs with hcond
  · simp only [Bool.and_eq_true, List.isEmpty_iff] at hcond
    exact absurd ⟨hcond.1.2, hcond.1.1, hcond.2⟩ h
  · exact hkeep

theorem release_future_of_others {b : QueuedBuild} {request : RequestId}
    (hmem : request ∈ b.holders) (h : b.holders ≠ {request}) :
    (b.release request).future = b.future := by
  have hothers : b.holders.erase request ≠ ∅ := by
    intro hempty
    rcases (Finset.erase_eq_empty_iff b.holders request).1 hempty with h' | h'
    · simp [h'] at hmem
    · exact h h'
  simp only [QueuedBuild.release, if_neg hothers]

/-- **A departure that spares the others leaves them the future.** -/
theorem future_eq_of_departure {e : Event} (hok : Spares s e) (hstep : step s e = some t)
    (hdep : e.departure = true) (hremain : remaining e t ≠ []) :
    t.build.future = s.build.future := by
  cases e with
  | cancel task =>
    obtain ⟨w, hw, rfl⟩ := Option.map_eq_some_iff.1 hstep
    obtain ⟨hmem, htask⟩ := mem_of_find hw
    split_ifs with hwaiting
    · simp only [cancelAwait]
      split_ifs with hcond
      · refine absurd ?_ hremain
        rw [if_pos hwaiting]
        exact (Spares.pending_and_alone hok hmem htask hwaiting hcond).2
      · rfl
    · rfl
  | unsubscribe client cancelled =>
    obtain rfl : cancelled = true := hdep
    simp only [step] at hstep
    split_ifs at hstep
    cases hstep
    by_cases hlast : LastStream s.build client
    · rcases s.build.unsubscribe_future client with hkeep | ⟨hpending, -⟩
      · exact hkeep
      · exact absurd (hok hpending hlast) hremain
    · exact unsubscribe_future_of_not_last hlast
  | release request =>
    cases hstep
    by_cases hmem : request ∈ s.build.holders
    · simp only [if_pos hmem]
      by_cases hlast : s.build.holders = {request}
      · rcases s.build.release_future request with hkeep | ⟨hpending, -⟩
        · exact hkeep
        · refine absurd (filter_eq_nil_iff.2 fun w hw => ?_) hremain
          simp [hok hpending hlast w hw]
      · exact release_future_of_others hmem hlast
    · simp only [if_neg hmem]
  | join | subscribe | wait | wake | timeout | lose | complete | fail | cancelUnwanted =>
    cases hdep

theorem exists_wake (h : Inv s) (hw : w ∈ s.waiters) (hwaiting : w.waiting = true)
    {r : BuildResponse} (hf : s.build.future = .resolved r) :
    ∃ u, step s (.wake w.task) = some u ∧ (w.task, .response r) ∈ u.answers := by
  refine ⟨(s.leave w false).answer w.task (.response r), ?_, by simp [Shared.answer]⟩
  simp only [step, find_of_mem h.distinct hw, Option.bind_some, if_pos hwaiting, hf]

end Steps

/-! ## Every run -/

theorem inv_start (id : BuildId) (drvPath : String) (options : Option Options)
    (requests : Finset RequestId) (fromGoalPath : Bool) :
    Inv (.start id drvPath options requests fromGoalPath) := by
  refine ⟨nodup_nil, fun _ => rfl, ?_⟩
  intro x hx
  cases hx

/-- **The outcome of a shared build is nobody's to take.**  In every run whose departures
spare the others, and for every further step that does: a cancelled task, a stream it
closes and a request that ends leave the future as it was while another waiter remains;
nobody waits for a cancelled future; whatever was read is the answer the queue gave (or
the reader's own timeout); and whoever still waits reads that answer. -/
theorem future_isolated_of_run {id : BuildId} {drvPath : String} {options : Option Options}
    {requests : Finset RequestId} {fromGoalPath : Bool} {es : List Event} {e : Event}
    {s t : Shared}
    (hspares : Guarded step Spares (.start id drvPath options requests fromGoalPath) es)
    (hrun : run step (.start id drvPath options requests fromGoalPath) es = some s)
    (hok : Spares s e) (hstep : step s e = some t) :
    (e.departure = true → remaining e t ≠ [] → t.build.future = s.build.future) ∧
      (∀ w ∈ t.waiters, t.build.future ≠ .cancelled) ∧
      (∀ x ∈ t.answers, x.2 = .timedOut ∨
        ∃ r, x.2 = .response r ∧ t.build.future = .resolved r) ∧
      (∀ w ∈ t.waiters, w.waiting = true → ∀ r, t.build.future = .resolved r →
        ∃ u, step t (.wake w.task) = some u ∧ (w.task, .response r) ∈ u.answers) := by
  have hs : Inv s := inv_of_guarded (fun _ _ _ => inv_step) (inv_start ..) hspares hrun
  have ht : Inv t := inv_step hs hok hstep
  exact ⟨future_eq_of_departure hok hstep, fun w hw => ht.not_cancelled hw, ht.read,
    fun w hw hwaiting r hf => exists_wake ht hw hwaiting hf⟩

/-- A build that two clients ask for one after the other, up to the moment both wait. -/
def twoWaiters (first second : Road) : List Event :=
  [.join 1 first, .subscribe 1 1 true, .wait 1, .join 2 second, .subscribe 2 2 true, .wait 2]

/-- Two goals wait, and the second does so within limits of its own. -/
def bothWait : Shared where
  build := { QueuedBuild.new 1 "d.drv" none ∅ true with
    holders := {2, 1}
    subscribers := [1, 2]
    subscriberRefs := [(1, 1), (2, 1)]
    cancelWhenUnsubscribed := true }
  waiters := [⟨1, .goal 1 false, true, [1]⟩, ⟨2, .goal 2 true, true, [2]⟩]
  leaving := []
  answers := []

def oneLeft : Shared :=
  { bothWait with waiters := [⟨1, .goal 1 false, true, [1]⟩], leaving := [(2, true)] }

/-- A goal that waits within limits of its own is cancelled, and the future stays for the
other. -/
theorem limited_waiter_leaves :
    run step (.start 1 "d.drv" none ∅ true) (twoWaiters (.goal 1 false) (.goal 2 true)) =
        some bothWait ∧
      step bothWait (.cancel 2) = some oneLeft ∧ remaining (.cancel 2) oneLeft ≠ [] ∧
      oneLeft.build.future = bothWait.build.future := by
  have hspares : Guarded step Spares (.start 1 "d.drv" none ∅ true)
      (twoWaiters (.goal 1 false) (.goal 2 true)) :=
    ⟨trivial, fun _ _ => ⟨trivial, fun _ _ => ⟨trivial, fun _ _ => ⟨trivial, fun _ _ =>
      ⟨trivial, fun _ _ => ⟨trivial, fun _ _ => trivial⟩⟩⟩⟩⟩⟩
  have hrun : run step (.start 1 "d.drv" none ∅ true)
      (twoWaiters (.goal 1 false) (.goal 2 true)) = some bothWait := by decide +kernel
  have hstep : step bothWait (.cancel 2) = some oneLeft := by decide +kernel
  have hok : Spares bothWait (.cancel 2) := by
    intro _ w hw htask _ hdirect
    have hlimited : ∀ w ∈ bothWait.waiters, w.task = 2 → w.road.direct = false := by decide
    rw [hlimited w hw htask] at hdirect
    cases hdirect
  have hleft : remaining (.cancel 2) oneLeft ≠ [] := by decide
  exact ⟨hrun, hstep, hleft, (future_isolated_of_run hspares hrun hok hstep).1 rfl hleft⟩

/-- Two clients build one derivation, and the first hangs up: the second reads a
cancellation, and nobody completed, failed or cancelled the build. -/
theorem hangup_cancels_other :
    ∃ s, run step (.start 1 "d.drv" none ∅ false)
      (twoWaiters .handler .handler ++ [.cancel 1, .wake 2]) = some s ∧
        s.build.future = .cancelled ∧ s.answers = [(2, .cancelled)] := by
  exact ⟨_, rfl, rfl, rfl⟩

end Pynixd.Queue.Waiters
