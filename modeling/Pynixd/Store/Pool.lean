import Pynixd.Lib.Runs
import Mathlib.Data.List.Nodup

/-!
# The connection pool of a store

`ConnectionPool` of `pynixd/store/pool.py`: a semaphore, a list of all connections and a list of
the idle ones.  A task stops at the close of a connection it discards, at the factory, and at
whatever its holder awaits; everything in between is one step.

* `inv_step` — **every step keeps the hands apart and the slots in order**, `close` included.
-/

namespace Pynixd.ConnectionPool

open List Runs

/-- A connection, by its identity. -/
abbrev ConnId := Nat

/-- What the pool reads of a connection, for option sets `O`. -/
structure Connection (O : Type) where
  openedAt : Nat
  /-- `close` was called: `connected` is false. -/
  closed : Bool
  dirty : Bool
  /-- `r.is_dirty()`: bytes that nobody read. -/
  unread : Bool
  peerClosed : Bool
  appliedOptions : Option O
  deriving DecidableEq

structure Config where
  idleTtl : Nat
  maxLifetime : Nat
  maxConnections : Nat
  reuse : Bool
  deriving DecidableEq

inductive Phase (O : Type) where
  | waiting (options : Option O)
  /-- It closes an idle connection that is of no use; `now` was read before the first one. -/
  | discarding (options : Option O) (now : Nat)
  | creating
  | holding (conn : ConnId)
  | closing
  | entering
  | nested (conn : ConnId)
  | leaving
  | ended
  deriving DecidableEq

/-- `ConnectionPool`, with the connections and the calls there are. -/
structure Pool (O : Type) where
  clock : Nat
  conns : List (Connection O)
  idleConns : List (ConnId × Nat)
  allConns : List ConnId
  activeConnections : Nat
  slots : Nat
  calls : List (Phase O)
  /-- What `retire_idle` took and has not closed yet. -/
  retiring : List ConnId
  /-- The calls of `close` that go over `all_conns`, each with its position. -/
  closers : List Nat

variable {O : Type}

/-- The call is past the semaphore: it is a holder that is not re-entrant. -/
def Phase.hasSlot : Phase O → Bool
  | .discarding _ _ | .creating | .holding _ | .closing => true
  | .waiting _ | .entering | .nested _ | .leaving | .ended => false

/-- The connection that the call has in its hands. -/
def Phase.conn? : Phase O → Option ConnId
  | .holding c | .nested c => some c
  | .waiting _ | .discarding _ _ | .creating | .closing | .entering | .leaving | .ended => none

namespace Pool

def start (config : Config) : Pool O where
  clock := 0
  conns := []
  idleConns := []
  allConns := []
  activeConnections := 0
  slots := config.maxConnections
  calls := []
  retiring := []
  closers := []

/-! ## The steps of a call -/

def touch (s : Pool O) (c : ConnId) (f : Connection O → Connection O) : Pool O :=
  { s with conns := s.conns.modify c f }

/-- `conn.close()`, as far as it runs at once. -/
def closeConn (s : Pool O) (c : ConnId) : Pool O :=
  s.touch c fun conn => { conn with closed := true }

def tooOld (config : Config) (conn : Connection O) (now : Nat) : Bool :=
  config.maxLifetime ≠ 0 && conn.openedAt + config.maxLifetime ≤ now

/-- The idle connection may be handed out, as `get_or_create_conn` sees it. -/
def usable [DecidableEq O] (config : Config) (conn : Connection O) (returnedAt : Nat)
    (options : Option O)
    (now : Nat) : Bool :=
  !(returnedAt + config.idleTtl ≤ now || tooOld config conn now) &&
    !(conn.appliedOptions.isSome && conn.appliedOptions ≠ options) && !conn.peerClosed &&
      !(conn.dirty || conn.unread)

def setCall (s : Pool O) (i : Nat) (phase : Phase O) : Pool O :=
  { s with calls := s.calls.set i phase }

/-- What `get_or_create_conn` does with the newest idle connection. -/
inductive Look where
  /-- There is none. -/
  | create
  | handOut (conn : ConnId)
  | discard (conn : ConnId)
  deriving DecidableEq

def look [DecidableEq O] (config : Config) (s : Pool O) (options : Option O) (now : Nat) : Look :=
  match s.idleConns.getLast? with
  | none => .create
  | some (c, returnedAt) =>
    if (s.conns[c]?).any fun conn => usable config conn returnedAt options now then .handOut c
    else .discard c

/-- The loop of `get_or_create_conn`, up to its next `await`. -/
def search [DecidableEq O] (config : Config) (s : Pool O) (i : Nat) (options : Option O)
    (now : Nat) : Pool O :=
  match look config s options now with
  | .create => s.setCall i .creating
  | .handOut c => { s with idleConns := s.idleConns.dropLast }.setCall i (.holding c)
  | .discard c =>
    ({ s with
      idleConns := s.idleConns.dropLast
      allConns := s.allConns.erase c }.closeConn c).setCall i (.discarding options now)

/-- The two `finally` clauses of `acquire`. -/
def giveBack (s : Pool O) (i : Nat) : Pool O :=
  { s with
    activeConnections := s.activeConnections - 1
    slots := s.slots + 1 }.setCall i .ended

/-- The end of `async with conn`, and what follows it up to the next `await`. -/
def release (config : Config) (s : Pool O) (i : Nat) (c : ConnId) (conn : Connection O) : Pool O :=
  if conn.dirty || tooOld config conn s.clock || !config.reuse then
    ({ s with allConns := s.allConns.erase c }.closeConn c).setCall i .closing
  else { s with idleConns := s.idleConns ++ [(c, s.clock)] }.giveBack i

/-- A connection that the factory made. -/
def fresh (s : Pool O) : Connection O := ⟨s.clock, false, false, false, false, none⟩

def adopt (s : Pool O) : Pool O :=
  { s with
    conns := s.conns ++ [s.fresh]
    allConns := s.allConns ++ [s.conns.length] }

/-- The idle connection has been idle too long, or is too old. -/
def expired (config : Config) (s : Pool O) (now : Nat) (item : ConnId × Nat) : Bool :=
  item.2 + config.idleTtl ≤ now || (s.conns[item.1]?).any fun conn => tooOld config conn now

/-- One round of `sweep_idle` behind its sleep. -/
def sweep (config : Config) (s : Pool O) : Pool O :=
  let gone := (s.idleConns.filter (expired config s s.clock)).map Prod.fst
  gone.foldl closeConn
    { s with
      idleConns := s.idleConns.filter fun item => !expired config s s.clock item
      allConns := s.allConns.diff gone }

/-- One connection of `close`, or its end: the loop goes over the list as it is now. -/
def closeNext (s : Pool O) (k i : Nat) : Pool O :=
  match s.allConns[i]? with
  | some c => { s with closers := s.closers.set k (i + 1) }.closeConn c
  | none => { s with allConns := [], idleConns := [], closers := s.closers.eraseIdx k }

/-! ## Runs -/

inductive Event (O : Type) where
  | tick (time : Nat)
  | acquire (options : Option O)
  | reenter
  | slot (call : Nat)
  /-- The call has closed what it discarded. -/
  | discarded (call : Nat)
  | created (call : Nat)
  /-- The call is cancelled, or the factory fails. -/
  | gaveUp (call : Nat)
  /-- The holder uses its connection. -/
  | use (call : Nat) (dirty : Bool) (applied : Option O)
  /-- The body ends: `failed` if it raised, `unread` and `unsent` as the buffers are. -/
  | release (call : Nat) (failed unsent : Bool)
  /-- The connection that the call held is closed. -/
  | closedOwn (call : Nat)
  /-- Bytes arrive, or the peer closes. -/
  | arrives (conn : ConnId) (unread peerClosed : Bool)
  | sweep
  | retireIdle
  | retire (conn : ConnId)
  | close
  | closes (closer : Nat)

/-- `__aexit__`. -/
def leave (conn : Connection O) (failed unsent : Bool) : Connection O :=
  { conn with dirty := conn.dirty || failed || conn.unread || unsent }

def step [DecidableEq O] (config : Config) (s : Pool O) : Event O → Option (Pool O)
  | .tick time => some { s with clock := s.clock + time }
  | .acquire options => some { s with calls := s.calls ++ [.waiting options] }
  | .reenter => some { s with calls := s.calls ++ [.entering] }
  | .slot i =>
    match s.calls[i]? with
    | some (.waiting options) =>
      if s.slots = 0 then none
      else
        some (search config { s with
          slots := s.slots - 1
          activeConnections := s.activeConnections + 1 } i options s.clock)
    | _ => none
  | .discarded i =>
    match s.calls[i]? with
    | some (.discarding options now) => some (search config s i options now)
    | _ => none
  | .created i =>
    match s.calls[i]? with
    | some .creating => some (s.adopt.setCall i (.holding s.conns.length))
    | some .entering => some (s.adopt.setCall i (.nested s.conns.length))
    | _ => none
  | .gaveUp i =>
    match s.calls[i]? with
    | some (.waiting _) | some .entering => some (s.setCall i .ended)
    | some (.discarding _ _) | some .creating => some (s.giveBack i)
    | _ => none
  | .use i dirty applied =>
    match s.calls[i]? with
    | some (.holding c) | some (.nested c) => some (s.touch c fun conn =>
      { conn with dirty := conn.dirty || dirty, appliedOptions := applied })
    | _ => none
  | .release i failed unsent =>
    match s.calls[i]? with
    | some (.holding c) =>
      match s.conns[c]? with
      | none => none
      | some conn =>
        some (release config (s.touch c fun conn => leave conn failed unsent) i c
          (leave conn failed unsent))
    | some (.nested c) =>
      some (({ s with allConns := s.allConns.erase c }.closeConn c).setCall i .leaving)
    | _ => none
  | .closedOwn i =>
    match s.calls[i]? with
    | some .closing => some (s.giveBack i)
    | some .leaving => some (s.setCall i .ended)
    | _ => none
  | .arrives c unread peerClosed => some (s.touch c fun conn =>
    { conn with unread := unread, peerClosed := peerClosed })
  | .sweep => some (s.sweep config)
  | .retireIdle => some { s with
      idleConns := []
      retiring := s.retiring ++ s.idleConns.map Prod.fst }
  | .retire c =>
    if c ∈ s.retiring then
      some ({ s with
        retiring := s.retiring.erase c
        allConns := s.allConns.erase c }.closeConn c)
    else none
  | .close => some { s with closers := s.closers ++ [0] }
  | .closes k =>
    match s.closers[k]? with
    | some i => some (s.closeNext k i)
    | none => none

/-! ## Who has which connection -/

/-- The call has the connection in its hands. -/
def Holds (s : Pool O) (i : Nat) (c : ConnId) : Prop := (s.calls[i]?).bind Phase.conn? = some c

def idleIds (s : Pool O) : List ConnId := s.idleConns.map Prod.fst

/-- How many hands have the connection: the idle list, the calls and `retire_idle`. -/
def hands (s : Pool O) (c : ConnId) : Nat :=
  s.idleIds.count c + s.calls.countP (·.conn? = some c) + s.retiring.count c

structure Inv (config : Config) (s : Pool O) : Prop where
  hands : ∀ c : Nat, s.hands c ≤ if c < s.conns.length then 1 else 0
  counted : s.calls.countP Phase.hasSlot = s.activeConnections
  slots : s.slots + s.activeConnections = config.maxConnections

theorem inv_start (config : Config) : Inv config (start config : Pool O) where
  hands := fun c => by simp [Pool.hands, idleIds, start]
  counted := rfl
  slots := Nat.add_zero _

variable {config : Config} {c : ConnId} {i j : Nat} {new old : Phase O} {s t : Pool O}

theorem countP_set (was : s.calls[i]? = some old) (new : Phase O) (p : Phase O → Bool) :
    (s.calls.set i new).countP p + (if p old then 1 else 0) =
      s.calls.countP p + if p new then 1 else 0 := by
  obtain ⟨hlt, hget⟩ := List.getElem?_eq_some_iff.1 was
  have hpos : (if p old then 1 else 0) ≤ s.calls.countP p := by
    split_ifs with hold
    · exact countP_pos_iff.2 ⟨old, mem_of_getElem? was, hold⟩
    · exact Nat.zero_le _
  rw [List.countP_set hlt, hget]
  omega

theorem Holds.counted (hc : s.Holds i c) : 0 < s.calls.countP (·.conn? = some c) := by
  obtain ⟨phase, hphase, hconn⟩ := Option.bind_eq_some_iff.1 hc
  exact countP_pos_iff.2 ⟨phase, mem_of_getElem? hphase, by simpa using hconn⟩

theorem Inv.one (h : Inv config s) (c : ConnId) :
    s.idleIds.count c + s.calls.countP (·.conn? = some c) + s.retiring.count c ≤ 1 := by
  have hhands := h.hands c
  rw [Pool.hands] at hhands
  split_ifs at hhands <;> omega

theorem Inv.made (h : Inv config s) (hc : 0 < s.hands c) : c < s.conns.length := by
  have hhands := h.hands c
  split_ifs at hhands
  · assumption
  · omega

theorem Inv.idle_made (h : Inv config s) (hc : c ∈ s.idleIds) : c < s.conns.length := by
  have hpos := count_pos_iff.2 hc
  exact h.made (by rw [Pool.hands]; omega)

theorem Inv.held_made (h : Inv config s) (hc : s.Holds i c) : c < s.conns.length := by
  have hpos := hc.counted
  exact h.made (by rw [Pool.hands]; omega)

theorem Inv.idle_nodup (h : Inv config s) : s.idleIds.Nodup :=
  nodup_iff_count_le_one.2 fun c => by have := h.one c; omega

theorem Inv.held_not_idle (h : Inv config s) (hc : s.Holds i c) : c ∉ s.idleIds := by
  have hone := h.one c
  have hheld := hc.counted
  rw [← count_eq_zero]
  omega

theorem Inv.retiring_not_idle (h : Inv config s) (hc : c ∈ s.retiring) : c ∉ s.idleIds := by
  have hone := h.one c
  have hretiring := count_pos_iff.2 hc
  rw [← count_eq_zero]
  omega

theorem Inv.retiring_not_held (h : Inv config s) (hc : c ∈ s.retiring) : ¬s.Holds i c := by
  intro hheld
  have hone := h.one c
  have hretiring := count_pos_iff.2 hc
  have hpos := hheld.counted
  omega

theorem Inv.exclusive (h : Inv config s) (hi : s.Holds i c) (hj : s.Holds j c) : i = j := by
  by_contra hij
  -- without the first of the two calls there is still the second
  obtain ⟨phase, was, hconn⟩ := Option.bind_eq_some_iff.1 hi
  have hrest : ({ s with calls := s.calls.set i .ended } : Pool O).Holds j c := by
    rwa [Holds, getElem?_set_ne hij]
  have hset := countP_set was .ended (·.conn? = some c)
  have hpos : 0 < (s.calls.set i .ended).countP _ := hrest.counted
  have hone := h.one c
  have hended : (Phase.ended : Phase O).conn? ≠ some c := nofun
  simp only [hconn, hended, decide_true, decide_false, if_true, Bool.false_eq_true,
    if_false] at hset
  omega

/-- **A call moves on.**  It gives up what it had, to the idle list or to nobody, and takes what
was idle. -/
structure Moves (s t : Pool O) (i : Nat) (old new : Phase O) : Prop where
  was : s.calls[i]? = some old
  calls : t.calls = s.calls.set i new
  length : t.conns.length = s.conns.length
  hands : ∀ c, t.idleIds.count c + t.retiring.count c + (if new.conn? = some c then 1 else 0) ≤
    s.idleIds.count c + s.retiring.count c + if old.conn? = some c then 1 else 0
  active : t.activeConnections + (if old.hasSlot then 1 else 0) =
    s.activeConnections + if new.hasSlot then 1 else 0
  slots : t.slots + t.activeConnections = s.slots + s.activeConnections

theorem Inv.counted_set (h : Inv config s) (was : s.calls[i]? = some old)
    (hactive : t.activeConnections + (if old.hasSlot then 1 else 0) =
      s.activeConnections + if new.hasSlot then 1 else 0) :
    (s.calls.set i new).countP Phase.hasSlot = t.activeConnections := by
  have hset := countP_set was new Phase.hasSlot
  rw [h.counted] at hset
  omega

theorem Inv.moves (h : Inv config s) (hmoves : Moves s t i old new) : Inv config t where
  hands := by
    intro c
    have hbefore := h.hands c
    have hafter := hmoves.hands c
    have hset := countP_set hmoves.was new (·.conn? = some c)
    simp only [decide_eq_true_eq] at hset
    rw [Pool.hands] at hbefore
    rw [Pool.hands, hmoves.calls, hmoves.length]
    omega
  counted := by
    rw [hmoves.calls]
    exact h.counted_set hmoves.was hmoves.active
  slots := hmoves.slots.trans h.slots

/-- **The factory answers**: nobody has the connection yet. -/
theorem Inv.created (h : Inv config s) (was : s.calls[i]? = some old) (hold : old.conn? = none)
    (hnew : new.conn? = some s.conns.length) (hslot : new.hasSlot = old.hasSlot) :
    Inv config (s.adopt.setCall i new) where
  hands := by
    intro c
    have hbefore := h.hands c
    have hset := countP_set was new (·.conn? = some c)
    have hlength : (s.adopt.setCall i new).conns.length = s.conns.length + 1 := by
      simp [setCall, adopt]
    simp only [hold, hnew, decide_eq_true_eq, Option.some.injEq, reduceCtorEq, if_false] at hset
    have hsame : (s.adopt.setCall i new).hands c = s.idleIds.count c +
      (s.calls.set i new).countP (·.conn? = some c) + s.retiring.count c := rfl
    rw [Pool.hands] at hbefore
    split_ifs at hbefore hset ⊢ <;> omega
  counted := h.counted_set was (by rw [hslot]; rfl)
  slots := h.slots

/-- **The lists shrink**: nobody takes a connection, and what is no longer idle may be about to
be closed. -/
structure Shrinks (s t : Pool O) : Prop where
  calls : ∃ more : List (Phase O), t.calls = s.calls ++ more ∧
    ∀ phase ∈ more, phase.conn? = none ∧ phase.hasSlot = false
  length : t.conns.length = s.conns.length
  hands : ∀ c, t.idleIds.count c + t.retiring.count c ≤ s.idleIds.count c + s.retiring.count c
  active : t.activeConnections = s.activeConnections
  slots : t.slots = s.slots

theorem Inv.shrinks (h : Inv config s) (hshrinks : Shrinks s t) : Inv config t := by
  obtain ⟨more, hcalls, hmore⟩ := hshrinks.calls
  have hnone : ∀ p : Phase O → Bool, (∀ phase ∈ more, p phase = false) → more.countP p = 0 :=
    fun p hp => countP_eq_zero.2 fun phase hphase => by simp [hp phase hphase]
  refine ⟨fun c => ?_, ?_, ?_⟩
  · have hbefore := h.hands c
    have hafter := hshrinks.hands c
    have hconn := hnone (·.conn? = some c) fun phase hphase => by simp [(hmore phase hphase).1]
    rw [hshrinks.length]
    simp only [Pool.hands, hcalls, countP_append] at hbefore ⊢
    omega
  · rw [hcalls, countP_append, hnone _ fun phase hphase => (hmore phase hphase).2,
      hshrinks.active]
    exact h.counted
  · rw [hshrinks.slots, hshrinks.active]
    exact h.slots

/-! ## Steps -/

theorem moves_drop (was : s.calls[i]? = some old)
    (hcalls : t.calls = s.calls.set i new) (hretiring : t.retiring = s.retiring)
    (hlength : t.conns.length = s.conns.length) (hidle : t.idleConns = s.idleConns)
    (hnew : new.conn? = none) (hactive : t.activeConnections + (if old.hasSlot then 1 else 0) =
      s.activeConnections + if new.hasSlot then 1 else 0)
    (hslots : t.slots + t.activeConnections = s.slots + s.activeConnections) :
    Moves s t i old new :=
  ⟨was, hcalls, hlength, fun c => by simp [idleIds, hidle, hretiring, hnew], hactive, hslots⟩

theorem Inv.active_pos (h : Inv config s)
    {phase : Phase O} (was : s.calls[i]? = some phase) (hslot : phase.hasSlot = true) :
    0 < s.activeConnections := by
  rw [← h.counted]
  exact countP_pos_iff.2 ⟨phase, mem_of_getElem? was, hslot⟩

theorem Inv.moves_giveBack (h : Inv config s)
    {phase : Phase O} (was : s.calls[i]? = some phase) (hslot : phase.hasSlot = true) :
    Moves s (s.giveBack i) i phase .ended := by
  have hpos := h.active_pos was hslot
  refine moves_drop was rfl rfl rfl rfl rfl ?_ ?_
  · show s.activeConnections - 1 + (if phase.hasSlot then 1 else 0) = s.activeConnections + 0
    rw [hslot, if_pos rfl]
    omega
  · show s.slots + 1 + (s.activeConnections - 1) = s.slots + s.activeConnections
    omega

theorem count_concat (front : List (ConnId × Nat)) (c : ConnId) (returnedAt : Nat) (x : ConnId) :
    ((front ++ [(c, returnedAt)]).map Prod.fst).count x =
      (front.map Prod.fst).count x + if c = x then 1 else 0 := by
  simp [count_append, count_singleton]

/-- **A holder lets go**: its connection is idle again, or is closed. -/
theorem Inv.moves_release (h : Inv config s)
    (was : s.calls[i]? = some (.holding c)) (f : Connection O → Connection O)
    (conn : Connection O) :
    ∃ new, Moves s (release config (s.touch c f) i c conn) i (.holding c) new := by
  have hpos := h.active_pos was rfl
  have hlength : (s.conns.modify c f).length = s.conns.length := length_modify ..
  unfold release
  split_ifs
  · refine ⟨.closing, moves_drop was rfl rfl ?_ rfl rfl rfl rfl⟩
    simp [setCall, closeConn, touch]
  · refine ⟨.ended, was, rfl, hlength, fun x => ?_, ?_, ?_⟩
    · have hcount := count_concat s.idleConns c s.clock x
      show ((s.idleConns ++ [(c, s.clock)]).map Prod.fst).count x + s.retiring.count x + 0 ≤
        s.idleIds.count x + s.retiring.count x + if some c = some x then 1 else 0
      simp only [hcount, Option.some.injEq, idleIds]
      omega
    · show s.activeConnections - 1 + 1 = s.activeConnections + 0
      omega
    · show s.slots + 1 + (s.activeConnections - 1) = s.slots + s.activeConnections
      omega

theorem foldl_closeConn_frame (gone : List ConnId) (s : Pool O) :
    gone.foldl closeConn s = { s with conns := (gone.foldl closeConn s).conns } ∧
      (gone.foldl closeConn s).conns.length = s.conns.length := by
  induction gone generalizing s with
  | nil => exact ⟨rfl, rfl⟩
  | cons c gone ih =>
    obtain ⟨hrest, hlength⟩ := ih (s.closeConn c)
    refine ⟨hrest, hlength.trans ?_⟩
    simp [closeConn, touch]

theorem Shrinks.of_calls (hcalls : t.calls = s.calls) (hlength : t.conns.length = s.conns.length)
    (hhands : ∀ c, t.idleIds.count c + t.retiring.count c ≤ s.idleIds.count c + s.retiring.count c)
    (hactive : t.activeConnections = s.activeConnections) (hslots : t.slots = s.slots) :
    Shrinks s t :=
  ⟨⟨[], by rw [hcalls, append_nil], nofun⟩, hlength, hhands,
    hactive, hslots⟩

theorem shrinks_touch (s : Pool O) (c : ConnId) (f : Connection O → Connection O) :
    Shrinks s (s.touch c f) :=
  .of_calls rfl (length_modify ..) (fun _ => Nat.le_refl _) rfl rfl

theorem shrinks_sweep (config : Config) (s : Pool O) : Shrinks s (s.sweep config) := by
  obtain ⟨hframe, hlength⟩ := foldl_closeConn_frame
    ((s.idleConns.filter (expired config s s.clock)).map Prod.fst)
    { s with
      idleConns := s.idleConns.filter fun item => !expired config s s.clock item
      allConns :=
        s.allConns.diff ((s.idleConns.filter (expired config s s.clock)).map Prod.fst) }
  unfold sweep
  rw [hframe]
  exact .of_calls rfl hlength
    (fun c => Nat.add_le_add_right ((filter_sublist.map _).count_le c) _) rfl rfl

theorem shrinks_closeNext (s : Pool O) (k i : Nat) : Shrinks s (s.closeNext k i) := by
  unfold closeNext
  split
  · refine .of_calls rfl ?_ (fun _ => Nat.le_refl _) rfl rfl
    simp [closeConn, touch]
  · exact .of_calls rfl rfl (fun c => by simp [idleIds]) rfl rfl

variable [DecidableEq O]

theorem look_handOut {options : Option O} {now : Nat} (h : look config s options now = .handOut c) :
    ∃ front returnedAt conn, s.idleConns = front ++ [(c, returnedAt)] ∧
      s.conns[c]? = some conn ∧ usable config conn returnedAt options now = true := by
  unfold look at h
  split at h
  · cases h
  · next c' returnedAt hlast =>
    split_ifs at h with husable
    cases h
    obtain ⟨front, hfront⟩ := getLast?_eq_some_iff.1 hlast
    obtain ⟨conn, hconn, husable⟩ := (Option.any_eq_true _ _).1 husable
    exact ⟨front, returnedAt, conn, hfront, hconn, husable⟩

/-- **A call that looks at the idle connections** asks the factory, or it takes the newest one or
discards it. -/
theorem search_cases (config : Config) (s : Pool O) (i : Nat) (options : Option O) (now : Nat) :
    search config s i options now = s.setCall i .creating ∨
    ∃ front c returnedAt, s.idleConns = front ++ [(c, returnedAt)] ∧
      (search config s i options now = { s with idleConns := front }.setCall i (.holding c) ∨
        search config s i options now = ({ s with
          idleConns := front
          allConns := s.allConns.erase c }.closeConn c).setCall i (.discarding options now)) := by
  unfold search look
  cases hlast : s.idleConns.getLast? with
  | none => exact .inl rfl
  | some item =>
    obtain ⟨c, returnedAt⟩ := item
    obtain ⟨front, hfront⟩ := getLast?_eq_some_iff.1 hlast
    refine .inr ⟨front, c, returnedAt, hfront, ?_⟩
    dsimp only
    split_ifs
    · exact .inl (by rw [hfront, dropLast_concat])
    · exact .inr (by rw [hfront, dropLast_concat])

theorem moves_search (config : Config) (slots active : Nat)
    (options : Option O) (now : Nat) (was : s.calls[i]? = some old)
    (hactive : active + (if old.hasSlot then 1 else 0) = s.activeConnections + 1)
    (hslots : slots + active = s.slots + s.activeConnections) :
    ∃ new, Moves s (search config { s with slots := slots, activeConnections := active } i
      options now) i old new := by
  rcases search_cases config { s with slots := slots, activeConnections := active } i options now
    with hcreate | ⟨front, c, returnedAt, hidle, htakes⟩
  · rw [hcreate]
    exact ⟨.creating, moves_drop was rfl rfl rfl rfl rfl hactive hslots⟩
  · have hcount : ∀ x, s.idleIds.count x =
        (front.map Prod.fst).count x + if c = x then 1 else 0 := by
      intro x
      rw [← count_concat front c returnedAt x, ← hidle]
      rfl
    rcases htakes with hout | hdiscard
    · rw [hout]
      refine ⟨.holding c, was, rfl, rfl, fun x => ?_, hactive, hslots⟩
      show (front.map Prod.fst).count x + s.retiring.count x +
        (if some c = some x then 1 else 0) ≤ _
      simp only [hcount, Option.some.injEq]
      omega
    · rw [hdiscard]
      refine ⟨.discarding options now, was, rfl, length_modify .., fun x => ?_, hactive,
        hslots⟩
      show (front.map Prod.fst).count x + s.retiring.count x + 0 ≤ _
      rw [hcount]
      omega

/-- **What a step can do.** -/
inductive Did (config : Config) (s : Pool O) : Event O → Pool O → Prop
  | tick (time : Nat) : Did config s (.tick time) { s with clock := s.clock + time }
  | began {e} (phase : Phase O) (hconn : phase.conn? = none) (hslot : phase.hasSlot = false) :
      Did config s e { s with calls := s.calls ++ [phase] }
  | slot {i options} (was : s.calls[i]? = some (.waiting options)) (hfree : s.slots ≠ 0) :
      Did config s (.slot i) (search config { s with
        slots := s.slots - 1
        activeConnections := s.activeConnections + 1 } i options s.clock)
  | discarded {i options now} (was : s.calls[i]? = some (.discarding options now)) :
      Did config s (.discarded i) (search config s i options now)
  | created {e i old new} (was : s.calls[i]? = some old) (hold : old.conn? = none)
      (hnew : new.conn? = some s.conns.length) (hslot : new.hasSlot = old.hasSlot) :
      Did config s e (s.adopt.setCall i new)
  | ended {e i old} (was : s.calls[i]? = some old) (hslot : old.hasSlot = false) :
      Did config s e (s.setCall i .ended)
  | gaveBack {e i old} (was : s.calls[i]? = some old) (hslot : old.hasSlot = true) :
      Did config s e (s.giveBack i)
  | touched {e} (c : ConnId) {f : Connection O → Connection O}
      (hf : ∀ conn, (f conn).closed = conn.closed) : Did config s e (s.touch c f)
  | released {e i c} (failed unsent : Bool) (conn : Connection O)
      (was : s.calls[i]? = some (.holding c)) : Did config s e
        (release config (s.touch c (leave · failed unsent)) i c (leave conn failed unsent))
  | left {e i c} (was : s.calls[i]? = some (.nested c)) : Did config s e
      (({ s with allConns := s.allConns.erase c }.closeConn c).setCall i .leaving)
  | swept {e} : Did config s e (s.sweep config)
  | retiredIdle {e} : Did config s e { s with
      idleConns := []
      retiring := s.retiring ++ s.idleConns.map Prod.fst }
  | retired {e c} (hin : c ∈ s.retiring) : Did config s e ({ s with
      retiring := s.retiring.erase c
      allConns := s.allConns.erase c }.closeConn c)
  | close {e} : Did config s e { s with closers := s.closers ++ [0] }
  | closes {k i} (hk : s.closers[k]? = some i) : Did config s (.closes k) (s.closeNext k i)

theorem did_of_step {e : Event O} (hstep : step config s e = some t) : Did config s e t := by
  cases e with
  | tick time =>
    cases hstep
    exact .tick time
  | acquire options =>
    cases hstep
    exact .began _ rfl rfl
  | reenter =>
    cases hstep
    exact .began _ rfl rfl
  | arrives c unread peerClosed =>
    cases hstep
    exact .touched c fun _ => rfl
  | sweep =>
    cases hstep
    exact .swept
  | retireIdle =>
    cases hstep
    exact .retiredIdle
  | close =>
    cases hstep
    exact .close
  | retire c =>
    simp only [step] at hstep
    split_ifs at hstep with hin
    cases hstep
    exact .retired hin
  | slot i =>
    simp only [step] at hstep
    split at hstep
    · next was =>
      split_ifs at hstep with hfree
      cases hstep
      exact .slot was hfree
    · cases hstep
  | discarded i =>
    simp only [step] at hstep
    split at hstep <;> cases hstep
    next was => exact .discarded was
  | created i =>
    simp only [step] at hstep
    split at hstep <;> cases hstep
    · next was => exact .created was rfl rfl rfl
    · next was => exact .created was rfl rfl rfl
  | gaveUp i =>
    simp only [step] at hstep
    split at hstep <;> cases hstep
    · next was => exact .ended was rfl
    · next was => exact .ended was rfl
    · next was => exact .gaveBack was rfl
    · next was => exact .gaveBack was rfl
  | use i dirty applied =>
    simp only [step] at hstep
    split at hstep <;> cases hstep
    · exact .touched _ fun _ => rfl
    · exact .touched _ fun _ => rfl
  | release i failed unsent =>
    simp only [step] at hstep
    split at hstep
    · next was =>
      split at hstep <;> cases hstep
      exact .released failed unsent _ was
    · next was =>
      cases hstep
      exact .left was
    · cases hstep
  | closedOwn i =>
    simp only [step] at hstep
    split at hstep <;> cases hstep
    · next was => exact .gaveBack was rfl
    · next was => exact .ended was rfl
  | closes k =>
    simp only [step] at hstep
    split at hstep <;> cases hstep
    next hk => exact .closes hk

theorem inv_step {e : Event O} (h : Inv config s)
    (hstep : step config s e = some t) : Inv config t := by
  cases did_of_step hstep with
  | tick time => exact h.shrinks (.of_calls rfl rfl (fun _ => Nat.le_refl _) rfl rfl)
  | began phase hconn hslot =>
    refine h.shrinks ⟨⟨[phase], rfl, fun x hx => ?_⟩, rfl, fun _ => Nat.le_refl _, rfl, rfl⟩
    obtain rfl := mem_singleton.1 hx
    exact ⟨hconn, hslot⟩
  | slot was hfree =>
    obtain ⟨new, hmoves⟩ := moves_search config (s.slots - 1) (s.activeConnections + 1)
      _ s.clock was rfl (by omega)
    exact h.moves hmoves
  | discarded was =>
    obtain ⟨new, hmoves⟩ := moves_search config s.slots s.activeConnections _ _ was rfl rfl
    exact h.moves hmoves
  | created was hold hnew hslot => exact h.created was hold hnew hslot
  | ended was hslot =>
    exact h.moves (moves_drop was rfl rfl rfl rfl rfl (by rw [hslot]; rfl) rfl)
  | gaveBack was hslot => exact h.moves (h.moves_giveBack was hslot)
  | touched c hf => exact h.shrinks (shrinks_touch s c _)
  | released failed unsent conn was =>
    obtain ⟨new, hmoves⟩ := h.moves_release was (leave · failed unsent) (leave conn failed unsent)
    exact h.moves hmoves
  | left was => exact h.moves (moves_drop was rfl rfl (length_modify ..) rfl rfl rfl rfl)
  | swept => exact h.shrinks (shrinks_sweep config s)
  | retiredIdle =>
    refine h.shrinks (.of_calls rfl rfl (fun c => ?_) rfl rfl)
    simp [idleIds, count_append, Nat.add_comm]
  | retired hin =>
    exact h.shrinks (.of_calls rfl (length_modify ..)
      (fun _ => Nat.add_le_add_left (erase_sublist.count_le _) _) rfl rfl)
  | close => exact h.shrinks (.of_calls rfl rfl (fun _ => Nat.le_refl _) rfl rfl)
  | closes hk => exact h.shrinks (shrinks_closeNext s _ _)

end Pool

end Pynixd.ConnectionPool
