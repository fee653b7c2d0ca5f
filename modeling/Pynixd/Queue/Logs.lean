import Pynixd.Lib.Runs
import Pynixd.Queue.Build

/-!
# Who reads which line of a build's log

`post_log_and_fanout`, `add_subscriber` and `remove_subscriber` of `QueuedBuild`
(`pynixd/build_queue.py`), interleaved at their await points.  A line is stored at once;
everything else happens behind `_sub_lock`, whose owner goes on one await at a time while
the others wait in the order they came.

* `exists_drained` — the lock always comes free, whoever waits for it;
* `delivered_of_run` — **while no line arrives at the wrong moment, every client on the
  list has read the log once and in order**, up to the lines whose fan-out still waits.

A line that arrives while the first client reads its backlog reaches the log and nobody's
screen, since `post_log_bytes` looks at the empty list of subscribers before it takes the lock.
A line that arrives while another client waits to join is in the backlog that this client
reads, and comes once more with the fan-out.
-/

namespace Pynixd.Queue.Logs

open List QueuedBuild Runs

variable {μ : Type}

/-! ## The lock and its tasks -/

/-- A task that owns `_sub_lock` or waits for it. -/
inductive Task (μ : Type) where
  /-- `post_log_bytes`, for a message that is already in the log. -/
  | post (message : μ)
  /-- `add_subscriber`, before it has read anything. -/
  | add (client : ClientConn) (cancelOnUnsubscribe : Bool)
  /-- `add_subscriber`, inside `_say_it_is_waiting`. -/
  | announcing (client : ClientConn)
  /-- `add_subscriber`, inside the replay of the messages it has read. -/
  | replaying (client : ClientConn) (sent : List μ)
  | remove (client : ClientConn)
  deriving DecidableEq

/-- The message a task is to hand out. -/
def Task.message : Task μ → Option μ
  | .post m => some m
  | _ => none

/-- The client whose join has not read the backlog yet. -/
def Task.unread : Task μ → Option ClientConn
  | .add c _ => some c
  | .announcing c => some c
  | _ => none

/-- Whether the task sends a backlog that it has read. -/
def Task.isReplay : Task μ → Bool
  | .replaying _ _ => true
  | _ => false

/-- One build, its log, and the clients that read it. -/
structure State (μ : Type) where
  build : QueuedBuild
  log : List μ
  /-- `_sub_lock`: the owner, then the tasks that wait for it, first come first. -/
  lock : List (Task μ)
  /-- What each client has read of this build since it last joined. -/
  received : ClientConn → List μ
  /-- The clients whose connection is gone: every write to them raises. -/
  dead : List ClientConn

/-- A build that `enqueue` has just made. -/
def State.fresh (id : BuildId) (drvPath : String) (options : Option Options)
    (requests : Finset RequestId) (fromGoalPath : Bool) : State μ where
  build := .new id drvPath options requests fromGoalPath
  log := []
  lock := []
  received := fun _ => []
  dead := []

def messages (tasks : List (Task μ)) : List μ := tasks.filterMap Task.message

/-- The messages that are in the log and whose fan-out waits for the lock. -/
def State.pending (s : State μ) : List μ := messages s.lock

/-! ## What the owner of the lock does up to its next await -/

/-- `post_log_bytes` under the lock: one write for each listed client. -/
def fanout (s : State μ) (m : μ) (rest : List (Task μ)) : State μ :=
  { s with
    lock := rest
    received := fun c =>
      if c ∈ s.dead then s.received c
      else s.received c ++ List.replicate (s.build.subscribers.count c) m }

/-- The end of `add_subscriber`, for a client that has read `sent`. -/
def subscribe (s : State μ) (c : ClientConn) (sent : List μ) (rest : List (Task μ)) : State μ :=
  { s with
    build := s.build.addSubscriber c false true
    lock := rest
    received := Function.update s.received c sent }

/-- `add_subscriber`, once it looks at the log. -/
def readBacklog (s : State μ) (c : ClientConn) (rest : List (Task μ)) : State μ :=
  if s.log.isEmpty then subscribe s c [] rest
  else { s with lock := .replaying c s.log :: rest }

/-- `cancel_on_unsubscribe`, which stays set whatever becomes of the join. -/
def marked (s : State μ) (cancelOnUnsubscribe : Bool) : State μ :=
  { s with build :=
    { s.build with
      cancelWhenUnsubscribed := s.build.cancelWhenUnsubscribed || cancelOnUnsubscribe } }

/-- `add_subscriber`, from the lock to its first await. -/
def join (s : State μ) (c : ClientConn) (rest : List (Task μ)) : State μ :=
  if (Dict.get? s.build.subscriberRefs c).isSome then
    { s with build := s.build.addSubscriber c false true, lock := rest }
  else if s.build.waitsForSomebodyElsesBuild then
    { s with lock := .announcing c :: rest }
  else readBacklog s c rest

/-- The owner of the lock goes on to its next await, or to its end. -/
def goOn (s : State μ) : Task μ → List (Task μ) → State μ
  | .post m, rest => fanout s m rest
  | .add c cancel, rest => join (marked s cancel) c rest
  | .announcing c, rest => readBacklog s c rest
  -- a replay that fails leaves the client out
  | .replaying c sent, rest =>
    if c ∈ s.dead then { s with lock := rest } else subscribe s c sent rest
  | .remove c, rest => { s with build := (s.build.removeSubscriber c).2, lock := rest }

/-! ## Events -/

inductive Event (μ : Type) where
  /-- `post_log_and_fanout`. -/
  | post (message : μ)
  /-- `add_subscriber`. -/
  | join (client : ClientConn) (cancelOnUnsubscribe : Bool)
  /-- `remove_subscriber`. -/
  | leave (client : ClientConn)
  | start (time : Nat)
  /-- `reset_for_retry`. -/
  | retry (failedStoreId : String)
  | hangup (client : ClientConn)
  | advance

/-- `post_log_and_fanout`: the line is stored, and the list is looked at before the lock is
asked for. -/
def post (s : State μ) (m : μ) : State μ :=
  if s.build.subscribers.isEmpty then { s with log := s.log ++ [m] }
  else { s with log := s.log ++ [m], lock := s.lock ++ [.post m] }

def step (s : State μ) : Event μ → Option (State μ)
  | .post m => some (post s m)
  | .join c cancel => some { s with lock := s.lock ++ [.add c cancel] }
  | .leave c => some { s with lock := s.lock ++ [.remove c] }
  | .start time => some { s with build := { s.build with startedAt := some time } }
  | .retry store => some { s with build := s.build.resetForRetry store }
  | .hangup c => some { s with dead := c :: s.dead }
  | .advance =>
    match s.lock with
    | [] => none
    | t :: rest => some (goOn s t rest)

/-- What a listed client has read, with what waits to be handed out, is the log. -/
def Delivered (s : State μ) : Prop :=
  ∀ c ∈ s.build.subscribers, c ∉ s.dead → s.received c ++ s.pending = s.log

/-- **A line comes at a moment the code is ready for**: with nobody on the list, no backlog
is being sent; with somebody on it, every join that has yet to read the backlog is one more
subscription of a client that is on the list and stays there. -/
def Timely (s : State μ) : Event μ → Prop
  | .post _ =>
    if s.build.subscribers = [] then ∀ t ∈ s.lock, t.isReplay = false
    else ∀ t ∈ s.lock, ∀ c ∈ t.unread, c ∈ s.build.subscribers ∧ Task.remove c ∉ s.lock
  | _ => True

instance [DecidableEq μ] (s : State μ) : ∀ e, Decidable (Timely s e)
  | .post _ => inferInstanceAs (Decidable (ite _ _ _))
  | .join _ _ => isTrue trivial
  | .leave _ => isTrue trivial
  | .start _ => isTrue trivial
  | .retry _ => isTrue trivial
  | .hangup _ => isTrue trivial
  | .advance => isTrue trivial

/-! ## The lock comes free -/

/-- The awaits that a task still has behind the lock. -/
def Task.awaits : Task μ → Nat
  | .add _ _ => 3
  | .announcing _ => 2
  | _ => 1

def awaits : List (Task μ) → Nat
  | [] => 0
  | t :: rest => t.awaits + awaits rest

theorem awaits_cons (t : Task μ) (rest : List (Task μ)) :
    awaits (t :: rest) = t.awaits + awaits rest := rfl

theorem readBacklog_awaits (s : State μ) (c : ClientConn) (rest : List (Task μ)) :
    awaits (readBacklog s c rest).lock ≤ 1 + awaits rest := by
  unfold readBacklog subscribe
  split_ifs
  · exact Nat.le_add_left _ _
  · exact le_of_eq (awaits_cons _ _)

/-- **Each turn of the owner brings the lock closer to being free.** -/
theorem goOn_awaits (s : State μ) (t : Task μ) (rest : List (Task μ)) :
    awaits (goOn s t rest).lock < awaits (t :: rest) := by
  rw [awaits_cons]
  cases t with
  | post m => simp [goOn, fanout, Task.awaits]
  | add c cancel =>
    have hread := readBacklog_awaits (marked s cancel) c rest
    simp only [goOn, join, Task.awaits]
    split_ifs
    · simp
    · simp [awaits_cons, Task.awaits]
    · omega
  | announcing c =>
    have hread := readBacklog_awaits s c rest
    simp only [goOn, Task.awaits]
    omega
  | replaying c sent =>
    simp only [goOn, Task.awaits]
    split_ifs <;> simp [subscribe]
  | remove c => simp [goOn, Task.awaits]

theorem readBacklog_log (s : State μ) (c : ClientConn) (rest : List (Task μ)) :
    (readBacklog s c rest).log = s.log := by
  unfold readBacklog
  split_ifs <;> rfl

theorem goOn_log (s : State μ) (t : Task μ) (rest : List (Task μ)) :
    (goOn s t rest).log = s.log := by
  cases t with
  | post m => rfl
  | add c cancel =>
    simp only [goOn, join]
    split_ifs
    · rfl
    · rfl
    · exact readBacklog_log _ c rest
  | announcing c => exact readBacklog_log s c rest
  | replaying c sent =>
    simp only [goOn]
    split_ifs <;> rfl
  | remove c => rfl

/-- **The lock comes free** when its owners go on, and no line is stored by that. -/
theorem exists_drained (s : State μ) :
    ∃ k t, run step s (List.replicate k .advance) = some t ∧ t.lock = [] ∧ t.log = s.log := by
  -- on the awaits that are left
  induction hn : awaits s.lock using Nat.strong_induction_on generalizing s with
  | _ n ih =>
    cases hlock : s.lock with
    | nil => exact ⟨0, s, rfl, hlock, rfl⟩
    | cons t rest =>
      have hless : awaits (goOn s t rest).lock < n := by
        rw [← hn, hlock]
        exact goOn_awaits s t rest
      obtain ⟨k, u, hrun, hfree, hlog⟩ := ih _ hless (goOn s t rest) rfl
      have hstep : step s .advance = some (goOn s t rest) := by simp [step, hlock]
      exact ⟨k + 1, u, run_cons_eq_some.2 ⟨_, hstep, hrun⟩, hfree, hlog.trans (goOn_log s t rest)⟩

/-! ## The invariant -/

/-- What holds of a task of the lock, with the tasks before it and after it. -/
def Task.Sound (s : State μ) (before after : List (Task μ)) : Task μ → Prop
  -- a line behind a join goes to clients that the join does not change
  | .add c _ => messages after ≠ [] → c ∈ s.build.subscribers ∧ Task.remove c ∉ before
  | .announcing c => before = [] ∧ c ∉ s.build.subscribers ∧ messages after = []
  | .replaying _ sent => before = [] ∧ sent ++ messages after = s.log
  | _ => True

structure Inv (s : State μ) : Prop where
  streams : s.build.StreamsAgree
  delivered : Delivered s
  sound : ∀ before t after, s.lock = before ++ t :: after → t.Sound s before after

theorem inv_fresh (id : BuildId) (drvPath : String) (options : Option Options)
    (requests : Finset RequestId) (fromGoalPath : Bool) :
    Inv (State.fresh id drvPath options requests fromGoalPath : State μ) where
  streams := streamsAgree_new ..
  delivered := by
    intro c hc
    cases hc
  sound := by
    intro before t after h
    simp [State.fresh] at h

theorem messages_append (l m : List (Task μ)) : messages (l ++ m) = messages l ++ messages m :=
  filterMap_append

theorem messages_cons_of_none {t : Task μ} (h : t.message = none) (l : List (Task μ)) :
    messages (t :: l) = messages l :=
  filterMap_cons_none h

/-! ## A task arrives -/

theorem split_concat {l before after : List (Task μ)} {x t : Task μ}
    (h : l ++ [x] = before ++ t :: after) :
    (before = l ∧ t = x ∧ after = []) ∨ ∃ mid, after = mid ++ [x] ∧ l = before ++ t :: mid := by
  rcases eq_nil_or_concat after with rfl | ⟨mid, y, rfl⟩
  · obtain ⟨hl, hx⟩ := append_inj' h rfl
    exact .inl ⟨hl.symm, by simpa using hx.symm, rfl⟩
  · have h' : l ++ [x] = (before ++ t :: mid) ++ [y] := by simpa using h
    obtain ⟨hl, hx⟩ := append_inj' h' rfl
    obtain rfl : x = y := by simpa using hx
    exact .inr ⟨mid, concat_eq_append, hl⟩

theorem Inv.arrive {s : State μ} (h : Inv s) {x : Task μ} (hmessage : x.message = none)
    (hsound : x.Sound s s.lock []) : Inv { s with lock := s.lock ++ [x] } where
  streams := h.streams
  delivered := by
    intro c hc hdead
    have hpending : messages (s.lock ++ [x]) = messages s.lock := by
      rw [messages_append, messages_cons_of_none hmessage]
      exact append_nil _
    show s.received c ++ messages (s.lock ++ [x]) = s.log
    rw [hpending]
    exact h.delivered c hc hdead
  sound := by
    intro before t after hsplit
    obtain ⟨rfl, rfl, rfl⟩ | ⟨mid, rfl, hmid⟩ := split_concat hsplit
    · exact hsound
    · have hafter : messages (mid ++ [x]) = messages mid := by
        rw [messages_append, messages_cons_of_none hmessage]
        exact append_nil _
      have ht := h.sound before t mid hmid
      -- a task reads the queue behind it through its messages only
      cases t <;> simp only [Task.Sound, hafter] at ht ⊢ <;> exact ht

theorem Inv.post {s : State μ} (h : Inv s) {m : μ} (hok : Timely s (.post m)) :
    Inv (post s m) := by
  simp only [Timely] at hok
  unfold Logs.post
  by_cases hnobody : s.build.subscribers = []
  · -- nobody is on the list, and no backlog has been read
    rw [if_pos hnobody] at hok
    rw [hnobody, isEmpty_nil, if_pos rfl]
    refine ⟨h.streams, ?_, ?_⟩
    · intro c hc
      rw [show s.build.subscribers = [] from hnobody] at hc
      cases hc
    · intro before t after hsplit
      have ht := h.sound before t after hsplit
      cases t with
      | replaying c sent =>
        have hmem : Task.replaying c sent ∈ s.lock := by
          rw [show s.lock = before ++ Task.replaying c sent :: after from hsplit]
          simp
        cases hok _ hmem
      | post m => trivial
      | add c cancel => exact ht
      | announcing c => exact ht
      | remove c => trivial
  · rw [if_neg hnobody] at hok
    rw [if_neg (by simpa using hnobody)]
    refine ⟨h.streams, ?_, ?_⟩
    · intro c hc hdead
      show s.received c ++ messages (s.lock ++ [.post m]) = s.log ++ [m]
      rw [messages_append, ← append_assoc]
      exact congrArg (· ++ [m]) (h.delivered c hc hdead)
    · intro before t after hsplit
      obtain ⟨rfl, rfl, rfl⟩ | ⟨mid, rfl, hmid⟩ := split_concat hsplit
      · trivial
      · have ht := h.sound before t mid hmid
        have hmem : t ∈ s.lock := by simp [hmid]
        cases t with
        | post m => trivial
        | add c cancel =>
          intro _
          obtain ⟨hc, hstays⟩ := hok _ hmem c rfl
          refine ⟨hc, fun hremove => hstays ?_⟩
          rw [hmid]
          exact mem_append_left _ hremove
        | announcing c => exact absurd (hok _ hmem c rfl).1 ht.2.1
        | replaying c sent =>
          refine ⟨ht.1, ?_⟩
          rw [messages_append, ← append_assoc]
          exact congrArg (· ++ [m]) ht.2
        | remove c => trivial

/-! ## The owner of the lock goes on -/

/-- The tasks that wait stay sound while the owner goes on: none of them has read
anything, and only the end of a subscription takes a client off the list. -/
theorem Inv.sound_rest {s s' : State μ} (h : Inv s) {t : Task μ} {rest : List (Task μ)}
    (hlock : s.lock = t :: rest)
    (hkeep : ∀ c ∈ s.build.subscribers, t ≠ .remove c → c ∈ s'.build.subscribers)
    {front : List (Task μ)} (hfront : ∀ c, Task.remove c ∉ front)
    {before after : List (Task μ)} {x : Task μ} (hsplit : rest = before ++ x :: after) :
    x.Sound s' (front ++ before) after := by
  have hx := h.sound (t :: before) x after (by rw [hlock, hsplit]; rfl)
  cases x with
  | post m => trivial
  | add c cancel =>
    intro hmessages
    obtain ⟨hc, hstays⟩ := hx hmessages
    simp only [mem_cons, not_or] at hstays
    refine ⟨hkeep c hc (Ne.symm hstays.1), fun hremove => ?_⟩
    rcases mem_append.1 hremove with hin | hin
    · exact hfront c hin
    · exact hstays.2 hin
  | announcing c => cases hx.1
  | replaying c sent => cases hx.1
  | remove c => trivial

theorem Inv.release {s s' : State μ} (h : Inv s) {t : Task μ} {rest : List (Task μ)}
    (hlock : s.lock = t :: rest) (hlock' : s'.lock = rest) (hstreams : s'.build.StreamsAgree)
    (hdelivered : Delivered s')
    (hkeep : ∀ c ∈ s.build.subscribers, t ≠ .remove c → c ∈ s'.build.subscribers) : Inv s' where
  streams := hstreams
  delivered := hdelivered
  sound := by
    intro before x after hsplit
    rw [hlock'] at hsplit
    have hnone : ∀ c, Task.remove c ∉ ([] : List (Task μ)) := fun c => not_mem_nil
    exact h.sound_rest hlock hkeep hnone hsplit

theorem Inv.keepLock {s : State μ} (h : Inv s) {t t' : Task μ} {rest : List (Task μ)}
    (hlock : s.lock = t :: rest) (hmessage : t.message = none) (hmessage' : t'.message = none)
    (hstays : ∀ c, t' ≠ .remove c) (hsound : t'.Sound s [] rest) :
    Inv { s with lock := t' :: rest } where
  streams := h.streams
  delivered := by
    intro c hc hdead
    show s.received c ++ messages (t' :: rest) = s.log
    rw [messages_cons_of_none hmessage', ← messages_cons_of_none hmessage, ← hlock]
    exact h.delivered c hc hdead
  sound := by
    intro before x after hsplit
    cases before with
    | nil =>
      obtain ⟨rfl, rfl⟩ : t' = x ∧ rest = after := by simpa using hsplit
      exact hsound
    | cons y before =>
      obtain ⟨rfl, hrest⟩ : t' = y ∧ rest = before ++ x :: after := by simpa using hsplit
      have hfront : ∀ c, Task.remove c ∉ [t'] := by
        intro c hc
        exact hstays c (mem_singleton.1 hc).symm
      exact h.sound_rest hlock (fun c hc _ => hc) hfront hrest

theorem Inv.subscribe {s : State μ} (h : Inv s) {t : Task μ} {rest : List (Task μ)}
    (hlock : s.lock = t :: rest) (hmessage : t.message = none) {c : ClientConn} {sent : List μ}
    (hsent : sent ++ messages rest = s.log) : Inv (subscribe s c sent rest) := by
  refine h.release hlock rfl (h.streams.addSubscriber c false true) ?_ ?_
  · intro d hd hdead
    show Function.update s.received c sent d ++ messages rest = s.log
    by_cases hdc : d = c
    · subst hdc
      rw [Function.update_self]
      exact hsent
    · have hold : d ∈ s.build.subscribers := by
        have hd' : d ∈ (s.build.addSubscriber c false true).subscribers := hd
        rw [addSubscriber_subscribers] at hd'
        split_ifs at hd'
        · simpa [hdc] using hd'
        · exact hd'
      rw [Function.update_of_ne hdc, ← messages_cons_of_none hmessage, ← hlock]
      exact h.delivered d hold hdead
  · intro d hd _
    show d ∈ (s.build.addSubscriber c false true).subscribers
    rw [addSubscriber_subscribers]
    split_ifs
    · exact mem_append_left _ hd
    · exact hd

theorem Inv.readBacklog {s : State μ} (h : Inv s) {t : Task μ} {rest : List (Task μ)}
    (hlock : s.lock = t :: rest) (hmessage : t.message = none) {c : ClientConn}
    (hquiet : messages rest = []) : Inv (readBacklog s c rest) := by
  unfold Logs.readBacklog
  split_ifs with hempty
  · refine h.subscribe hlock hmessage ?_
    rw [hquiet, List.isEmpty_iff.1 hempty]
    rfl
  · refine h.keepLock hlock hmessage rfl (fun d hd => by cases hd) ⟨rfl, ?_⟩
    rw [hquiet, append_nil]

theorem Inv.marked {s : State μ} (h : Inv s) (cancel : Bool) : Inv (marked s cancel) :=
  ⟨⟨h.streams.nodup, h.streams.listed⟩, h.delivered, h.sound⟩

theorem Inv.join {s : State μ} (h : Inv s) {t : Task μ} {rest : List (Task μ)}
    (hlock : s.lock = t :: rest) (hmessage : t.message = none) {c : ClientConn}
    (hquiet : messages rest ≠ [] → c ∈ s.build.subscribers) : Inv (join s c rest) := by
  unfold Logs.join
  by_cases hrefs : (Dict.get? s.build.subscriberRefs c).isSome = true
  · -- one more subscription of a client that is there
    rw [if_pos hrefs]
    have hsame : (s.build.addSubscriber c false true).subscribers = s.build.subscribers := by
      rw [addSubscriber_subscribers]
      cases hget : Dict.get? s.build.subscriberRefs c with
      | none => simp [hget] at hrefs
      | some count => simp
    refine h.release hlock rfl (h.streams.addSubscriber c false true) ?_ ?_
    · intro d hd hdead
      show s.received d ++ messages rest = s.log
      rw [← messages_cons_of_none hmessage, ← hlock]
      exact h.delivered d (hsame ▸ hd) hdead
    · intro d hd _
      exact hsame.symm ▸ hd
  · have hout : c ∉ s.build.subscribers := fun hc => hrefs ((h.streams.listed c).1 hc)
    have hnothing : messages rest = [] := by_contra fun hsome => hout (hquiet hsome)
    split_ifs
    · exact h.keepLock hlock hmessage rfl (fun d hd => by cases hd) ⟨rfl, hout, hnothing⟩
    · exact h.readBacklog hlock hmessage hnothing

theorem Inv.delivered_lock {s : State μ} (h : Inv s) {tasks : List (Task μ)}
    (hlock : s.lock = tasks) {c : ClientConn} (hc : c ∈ s.build.subscribers) (hdead : c ∉ s.dead) :
    s.received c ++ messages tasks = s.log := by
  have hread := h.delivered c hc hdead
  rw [State.pending, hlock] at hread
  exact hread

theorem Inv.fanout {s : State μ} (h : Inv s) {m : μ} {rest : List (Task μ)}
    (hlock : s.lock = .post m :: rest) : Inv (fanout s m rest) := by
  refine h.release hlock rfl h.streams ?_ (fun c hc _ => hc)
  intro c hc hdead
  have honce : s.build.subscribers.count c = 1 := count_eq_one_of_mem h.streams.nodup hc
  have hread := h.delivered_lock hlock hc hdead
  have halive : c ∉ s.dead := hdead
  show (if c ∈ s.dead then _ else _) ++ messages rest = s.log
  rw [if_neg halive, honce, append_assoc]
  exact hread

theorem Inv.remove {s : State μ} (h : Inv s) {c : ClientConn} {rest : List (Task μ)}
    (hlock : s.lock = .remove c :: rest) :
    Inv { s with build := (s.build.removeSubscriber c).2, lock := rest } := by
  refine h.release hlock rfl (h.streams.removeSubscriber c) ?_ ?_
  · intro d hd hdead
    exact h.delivered_lock hlock (mem_of_mem_removeSubscriber hd) hdead
  · intro d hd hother
    have hne : d ≠ c := fun e => hother (by rw [e])
    exact mem_removeSubscriber_of_ne hne hd

theorem Inv.goOn {s : State μ} (h : Inv s) {t : Task μ} {rest : List (Task μ)}
    (hlock : s.lock = t :: rest) : Inv (goOn s t rest) := by
  have ht := h.sound [] t rest hlock
  cases t with
  | post m => exact h.fanout hlock
  | add c cancel =>
    exact (h.marked cancel).join hlock rfl fun hsome => (ht hsome).1
  | announcing c => exact h.readBacklog hlock rfl ht.2.2
  | replaying c sent =>
    simp only [Logs.goOn]
    split_ifs with hdead
    · refine h.release hlock rfl h.streams ?_ (fun d hd _ => hd)
      exact fun d hd hd' => h.delivered_lock hlock hd hd'
    · exact h.subscribe hlock rfl ht.2
  | remove c => exact h.remove hlock

theorem inv_step {s t : State μ} {e : Event μ} (h : Inv s) (hok : Timely s e)
    (hstep : step s e = some t) : Inv t := by
  cases e with
  | post m =>
    cases hstep
    exact h.post hok
  | join c cancel =>
    cases hstep
    exact h.arrive rfl fun hnone => absurd rfl hnone
  | leave c =>
    cases hstep
    exact h.arrive rfl trivial
  | start time =>
    cases hstep
    exact ⟨⟨h.streams.nodup, h.streams.listed⟩, h.delivered, h.sound⟩
  | retry store =>
    cases hstep
    exact ⟨⟨h.streams.nodup, h.streams.listed⟩, h.delivered, h.sound⟩
  | hangup c =>
    cases hstep
    refine ⟨h.streams, fun d hd hdead => h.delivered d hd fun hin => ?_, h.sound⟩
    exact hdead (mem_cons_of_mem c hin)
  | advance =>
    simp only [step] at hstep
    split at hstep
    · cases hstep
    · rename_i x rest hlock
      cases hstep
      exact h.goOn hlock

/-! ## Runs -/

/-- **Every line once, and in order.**  In a run from a fresh build in which every line comes at its
time, what each listed client has read, followed by what waits to be handed out, is the log; and
each of them has read it when the tasks at the lock have gone on. -/
theorem delivered_of_run {id : BuildId} {drvPath : String} {options : Option Options}
    {requests : Finset RequestId} {fromGoalPath : Bool} {es : List (Event μ)} {t : State μ}
    (htimely : Guarded step Timely (.fresh id drvPath options requests fromGoalPath) es)
    (hrun : run step (.fresh id drvPath options requests fromGoalPath) es = some t) :
    (∀ c ∈ t.build.subscribers, c ∉ t.dead → t.received c ++ t.pending = t.log) ∧
      ∃ k u, run step t (List.replicate k .advance) = some u ∧ u.lock = [] ∧ u.log = t.log ∧
        ∀ c ∈ u.build.subscribers, c ∉ u.dead → u.received c = t.log := by
  have ht : Inv t := inv_of_guarded (fun _ _ _ => inv_step) (inv_fresh ..) htimely hrun
  obtain ⟨k, u, hdrain, hfree, hlog⟩ := exists_drained t
  have htimely' : ∀ n (s : State μ), Guarded step Timely s (List.replicate n .advance) := by
    intro n
    induction n with
    | zero => exact fun s => trivial
    | succ n ih => exact fun s => ⟨trivial, fun v _ => ih v⟩
  have hu : Inv u := inv_of_guarded (fun _ _ _ => inv_step) ht (htimely' k t) hdrain
  refine ⟨ht.delivered, k, u, hdrain, hfree, hlog, fun c hc hdead => ?_⟩
  have hread := hu.delivered_lock hfree hc hdead
  rw [← hlog, ← hread]
  exact (append_nil _).symm

/-- Two clients that join one after the other, with a line before, between and after. -/
def twoReaders : List (Event Nat) :=
  [.post 1, .join 7 false, .advance, .advance, .post 2, .advance, .join 8 false, .advance,
    .advance, .advance, .post 3, .advance]

/-- Both clients of `twoReaders` have read the three lines. -/
theorem delivered_twoReaders :
    ∃ t, run step (.fresh 1 "d.drv" none ∅ true) twoReaders = some t ∧
      t.build.subscribers = [7, 8] ∧ t.received 7 = [1, 2, 3] ∧ t.received 8 = [1, 2, 3] := by
  have htimely : Guarded step Timely (.fresh 1 "d.drv" none ∅ true) twoReaders := by
    decide +kernel
  have hread : (run step (.fresh 1 "d.drv" none ∅ true) twoReaders).map (fun t =>
      (t.build.subscribers, t.dead, t.pending, t.log)) = some ([7, 8], [], [], [1, 2, 3]) := by
    decide +kernel
  obtain ⟨t, hrun, ht⟩ := Option.map_eq_some_iff.1 hread
  simp only [Prod.mk.injEq] at ht
  obtain ⟨hsubscribers, hdead, hpending, hlog⟩ := ht
  have hall := (delivered_of_run htimely hrun).1
  rw [hsubscribers, hdead, hpending, hlog] at hall
  simp only [append_nil] at hall
  exact ⟨t, hrun, hsubscribers, hall 7 (by decide) (by decide), hall 8 (by decide) (by decide)⟩

/-! ## The two moments that the code is not ready for -/

/-- The first client joins a build with one line, and the second line comes during the
replay: the client stays on the list and never reads it. -/
theorem replay_loses_line :
    ∃ t, run step (.fresh 1 "d.drv" none ∅ true)
        [.post 1, .join 7 false, .advance, .post 2, .advance] = some t ∧
      t.lock = [] ∧ 7 ∈ t.build.subscribers ∧ 7 ∉ t.dead ∧ t.received 7 = [1] ∧
      t.log = [1, 2] := by
  have hread : (run step (.fresh 1 "d.drv" none ∅ true)
      [.post 1, .join 7 false, .advance, .post 2, .advance]).map (fun t =>
        (t.lock, t.build.subscribers, t.dead, t.received 7, t.log)) =
      some ([], [7], [], [1], [1, 2]) := by decide +kernel
  obtain ⟨t, hrun, ht⟩ := Option.map_eq_some_iff.1 hread
  simp only [Prod.mk.injEq] at ht
  obtain ⟨hlock, hsubscribers, hdead, hreceived, hlog⟩ := ht
  refine ⟨t, hrun, hlock, ?_, ?_, hreceived, hlog⟩
  · rw [hsubscribers]
    exact mem_singleton_self 7
  · rw [hdead]
    exact not_mem_nil

end Pynixd.Queue.Logs
