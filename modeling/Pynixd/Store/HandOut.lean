import Pynixd.Store.Pool

/-!
# What the pool hands out

A connection that was idle is handed out when it is fit: tracked, open, clean, of an age, and with
the options of the caller or none.

* `sound_of_alone` — **the pool keeps its books and hands out only what is fit**, in every run
  where `close` meets no connection in use, no call looks at the idle list while it runs, and no
  connection comes of age while a call discards another;
* `slots_of_run` — **no slot leaks and no connection is in two hands**, in any run at all;
* `close_while_held` — a connection that `close` closed under its holder comes back to the pool,
  untracked; one that `close` is closing is handed out; and so is one that came of age meanwhile.
-/

namespace Pynixd.ConnectionPool

open List Runs

variable {O : Type}

/-- The call holds a connection, and is not re-entrant. -/
def Phase.isHolding : Phase O → Bool
  | .holding _ => true
  | _ => false

/-- When a call that looks for a connection read the clock. -/
def Phase.readAt? : Phase O → Option Nat
  | .discarding _ now => some now
  | _ => none

namespace Pool

/-- A call that is not re-entrant holds the connection. -/
def Keeping (s : Pool O) (c : ConnId) : Prop := ∃ i : Nat, s.calls[i]? = some (.holding c)

def IsOpen (conns : List (Connection O)) (c : ConnId) : Prop :=
  ∀ conn, conns[c]? = some conn → conn.closed = false

/-- **The idle connections and those in use are tracked and open**; while `close` goes over the
list the idle ones may be closed already. -/
structure Tidy (s : Pool O) : Prop where
  tracked : ∀ c, c ∈ s.idleIds ∨ s.Keeping c → c ∈ s.allConns
  held_open : ∀ c, s.Keeping c → IsOpen s.conns c
  idle_open : s.closers = [] → ∀ c ∈ s.idleIds, IsOpen s.conns c

/-- A step that closes and forgets nothing which is idle or in use behind it. -/
structure Tends (s t : Pool O) : Prop where
  closers : t.closers = s.closers
  held : ∀ c, t.Keeping c →
    s.Keeping c ∨ s.closers = [] ∧ c ∈ s.idleIds ∨ c ∈ t.allConns ∧ IsOpen t.conns c
  idle : ∀ c ∈ t.idleIds, c ∈ s.idleIds ∨ s.Keeping c
  tracked : ∀ c, c ∈ t.idleIds ∨ t.Keeping c → c ∈ s.allConns → c ∈ t.allConns
  stays : ∀ c, c ∈ t.idleIds ∨ t.Keeping c → IsOpen s.conns c → IsOpen t.conns c

variable {config : Config} {c : ConnId} {i : Nat} {new : Phase O} {s t : Pool O}

theorem Tidy.tends (h : Tidy s) (htends : Tends s t) : Tidy t where
  tracked := by
    rintro c (hidle | hheld)
    · exact htends.tracked c (.inl hidle) (h.tracked c (htends.idle c hidle))
    · rcases htends.held c hheld with hbefore | ⟨-, hidle⟩ | hnew
      · exact htends.tracked c (.inr hheld) (h.tracked c (.inr hbefore))
      · exact htends.tracked c (.inr hheld) (h.tracked c (.inl hidle))
      · exact hnew.1
  held_open := by
    intro c hheld
    rcases htends.held c hheld with hbefore | ⟨hnone, hidle⟩ | hnew
    · exact htends.stays c (.inr hheld) (h.held_open c hbefore)
    · exact htends.stays c (.inr hheld) (h.idle_open hnone c hidle)
    · exact hnew.2
  idle_open := by
    intro hnone c hidle
    rw [htends.closers] at hnone
    rcases htends.idle c hidle with hbefore | hheld
    · exact htends.stays c (.inl hidle) (h.idle_open hnone c hbefore)
    · exact htends.stays c (.inl hidle) (h.held_open c hheld)

theorem isOpen_modify {conns : List (Connection O)} {c x : ConnId}
    {f : Connection O → Connection O} (hf : x = c → ∀ conn, (f conn).closed = conn.closed)
    (h : IsOpen conns x) : IsOpen (conns.modify c f) x := by
  intro conn hconn
  rw [getElem?_modify] at hconn
  obtain ⟨before, hbefore, rfl⟩ := Option.map_eq_some_iff.1 hconn
  split_ifs with hx
  · rw [hf hx.symm]
    exact h before hbefore
  · exact h before hbefore

theorem isOpen_foldl_closeConn {gone : List ConnId} {x : ConnId} (hx : x ∉ gone)
    (h : IsOpen s.conns x) : IsOpen (gone.foldl closeConn s).conns x := by
  induction gone generalizing s with
  | nil => exact h
  | cons c gone ih =>
    rw [mem_cons, not_or] at hx
    exact ih hx.2 (isOpen_modify (fun hxc => absurd hxc hx.1) h)

theorem holds_of_call {phase : Phase O} (was : s.calls[i]? = some phase)
    (hc : phase.conn? = some c) : s.Holds i c := by
  rw [Holds, was]
  exact hc

theorem Keeping.holds (h : s.Keeping c) : ∃ i, s.Holds i c := by
  obtain ⟨i, hi⟩ := h
  exact ⟨i, holds_of_call hi rfl⟩

theorem keeping_set (hcalls : t.calls = s.calls.set i new) (h : t.Keeping c) :
    new = .holding c ∨ ∃ j : Nat, j ≠ i ∧ s.calls[j]? = some (.holding c) := by
  obtain ⟨j, hj⟩ := h
  rw [hcalls, getElem?_set] at hj
  by_cases hij : i = j
  · split_ifs at hj
    exact .inl (Option.some.inj hj)
  · rw [if_neg hij] at hj
    exact .inr ⟨j, Ne.symm hij, hj⟩

theorem keeping_before (hcalls : t.calls = s.calls.set i new) (hnew : new.conn? = none)
    (h : t.Keeping c) : s.Keeping c := by
  rcases keeping_set hcalls h with rfl | ⟨j, -, hj⟩
  · cases hnew
  · exact ⟨j, hj⟩

theorem Tends.of_aside (hclosers : t.closers = s.closers)
    (hall : t.allConns = s.allConns) (hheld : ∀ c, t.Keeping c → s.Keeping c)
    (hidle : ∀ c ∈ t.idleIds, c ∈ s.idleIds ∨ s.Keeping c)
    (hopen : ∀ c, IsOpen s.conns c → IsOpen t.conns c) : Tends s t where
  closers := hclosers
  held := fun c hc => .inl (hheld c hc)
  idle := hidle
  tracked := fun _ _ hc => hall ▸ hc
  stays := fun c _ hc => hopen c hc

theorem Tends.of_gone (hclosers : t.closers = s.closers) (hall : t.allConns = s.allConns.erase c)
    (hconns : t.conns = s.conns.modify c fun conn => { conn with closed := true })
    (hheld : ∀ x, t.Keeping x → s.Keeping x ∧ x ≠ c)
    (hidle : ∀ x ∈ t.idleIds, x ∈ s.idleIds ∧ x ≠ c) : Tends s t where
  closers := hclosers
  held := fun x hx => .inl (hheld x hx).1
  idle := fun x hx => .inl (hidle x hx).1
  tracked := by
    intro x hx hin
    have hne : x ≠ c := hx.elim (fun h => (hidle x h).2) fun h => (hheld x h).2
    rw [hall]
    exact (mem_erase_of_ne hne).2 hin
  stays := by
    intro x hx hopen
    have hne : x ≠ c := hx.elim (fun h => (hidle x h).2) fun h => (hheld x h).2
    rw [hconns]
    exact isOpen_modify (fun hxc => absurd hxc hne) hopen

theorem tends_begin (s : Pool O) {phase : Phase O} (hphase : phase.conn? = none) :
    Tends s { s with calls := s.calls ++ [phase] } := by
  refine .of_aside rfl rfl (fun c hc => ?_) (fun c hc => .inl hc) fun c hc => hc
  obtain ⟨i, hi⟩ := hc
  rcases mem_append.1 (mem_of_getElem? hi) with hin | hin
  · obtain ⟨j, hj⟩ := mem_iff_getElem?.1 hin
    exact ⟨j, hj⟩
  · rw [← mem_singleton.1 hin] at hphase
    cases hphase

theorem tends_setCall (hcalls : t.calls = s.calls.set i new)
    (hnew : new.conn? = none) (hclosers : t.closers = s.closers) (hall : t.allConns = s.allConns)
    (hidle : t.idleConns = s.idleConns) (hconns : t.conns = s.conns) : Tends s t := by
  refine .of_aside hclosers hall (fun c => keeping_before hcalls hnew) (fun c hc => .inl ?_)
    fun c hc => ?_
  · rwa [idleIds, hidle] at hc
  · rwa [hconns]

theorem Inv.tends_created (h : Inv config s) (hnew : new.conn? = some s.conns.length) :
    Tends s (s.adopt.setCall i new) where
  closers := rfl
  held := by
    intro c hc
    rcases keeping_set rfl hc with rfl | ⟨j, -, hj⟩
    · cases hnew
      refine .inr (.inr ⟨mem_append_right _ (mem_singleton_self _), ?_⟩)
      intro conn hconn
      rw [setCall, adopt, getElem?_concat_length] at hconn
      cases hconn
      rfl
    · exact .inl ⟨j, hj⟩
  idle := fun c hc => .inl hc
  tracked := fun c _ hc => mem_append_left _ hc
  stays := by
    rintro c hc hopen conn hconn
    have hlt : c < s.conns.length ∨ new = .holding c := by
      rcases hc with hc | hc
      · exact .inl (h.idle_made hc)
      · rcases keeping_set rfl hc with hnew | ⟨j, -, hj⟩
        · exact .inr hnew
        · obtain ⟨k, hk⟩ := Keeping.holds ⟨j, hj⟩
          exact .inl (h.held_made hk)
    rcases hlt with hlt | rfl
    · rw [setCall, adopt, getElem?_append_left hlt] at hconn
      exact hopen conn hconn
    · cases hnew
      rw [setCall, adopt, getElem?_concat_length] at hconn
      cases hconn
      rfl

theorem Inv.tends_drop (h : Inv config s) (hi : s.Holds i c) (hnew : new.conn? = none)
    (hcalls : t.calls = s.calls.set i new) (hclosers : t.closers = s.closers)
    (hall : t.allConns = s.allConns.erase c) (hidle : t.idleConns = s.idleConns)
    (hconns : t.conns = s.conns.modify c fun conn => { conn with closed := true }) :
    Tends s t := by
  refine .of_gone hclosers hall hconns (fun x hx => ?_) fun x hx => ?_
  · rcases keeping_set hcalls hx with rfl | ⟨j, hji, hj⟩
    · cases hnew
    · refine ⟨⟨j, hj⟩, ?_⟩
      rintro rfl
      exact hji (h.exclusive (holds_of_call hj rfl) hi)
  · rw [idleIds, hidle] at hx
    refine ⟨hx, ?_⟩
    rintro rfl
    exact h.held_not_idle hi hx

theorem Inv.tends_release (h : Inv config s)
    (was : s.calls[i]? = some (.holding c)) (conn : Connection O) :
    Tends s (release config s i c conn) := by
  unfold release
  split_ifs
  · exact h.tends_drop (holds_of_call was rfl) rfl rfl rfl rfl rfl rfl
  · refine .of_aside rfl rfl (fun x => keeping_before rfl rfl) (fun x hx => ?_) fun x hx => hx
    change x ∈ (s.idleConns ++ [(c, s.clock)]).map Prod.fst at hx
    rw [map_append, mem_append] at hx
    rcases hx with hx | hx
    · exact .inl hx
    · obtain rfl := mem_singleton.1 hx
      exact .inr ⟨i, was⟩

theorem tends_touch (s : Pool O) (c : ConnId) {f : Connection O → Connection O}
    (hf : ∀ conn, (f conn).closed = conn.closed) : Tends s (s.touch c f) :=
  .of_aside rfl rfl (fun _ hx => hx) (fun _ hx => .inl hx)
    fun _ hx => isOpen_modify (fun _ => hf) hx

/-- **The sweep** takes what is idle and out of time. -/
theorem Inv.tends_sweep (h : Inv config s) : Tends s (s.sweep config) := by
  let gone := (s.idleConns.filter (expired config s s.clock)).map Prod.fst
  let swept : Pool O := { s with
    idleConns := s.idleConns.filter fun item => !expired config s s.clock item
    allConns := s.allConns.diff gone }
  have hframe : s.sweep config = { swept with conns := (gone.foldl closeConn swept).conns } :=
    (foldl_closeConn_frame gone swept).1
  have hgone : ∀ x ∈ gone, x ∈ s.idleIds := by
    intro x hx
    obtain ⟨item, hitem, rfl⟩ := mem_map.1 hx
    exact mem_map_of_mem (mem_filter.1 hitem).1
  -- an id is idle once, so what is left is not among what is gone
  have hleft : ∀ x ∈ swept.idleIds, x ∈ s.idleIds ∧ x ∉ gone := by
    intro x hx
    obtain ⟨item, hitem, rfl⟩ := mem_map.1 hx
    obtain ⟨hmem, hkept⟩ := mem_filter.1 hitem
    refine ⟨mem_map_of_mem hmem, fun hin => ?_⟩
    obtain ⟨item', hitem', hsame⟩ := mem_map.1 hin
    obtain ⟨hmem', hexpired⟩ := mem_filter.1 hitem'
    obtain rfl := inj_on_of_nodup_map h.idle_nodup hmem' hmem hsame
    rw [hexpired] at hkept
    cases hkept
  have hout : ∀ x, x ∈ (s.sweep config).idleIds ∨ (s.sweep config).Keeping x → x ∉ gone := by
    rw [hframe]
    rintro x (hx | hx) hin
    · exact (hleft x hx).2 hin
    · obtain ⟨i, hi⟩ := Keeping.holds (s := s) hx
      exact h.held_not_idle hi (hgone x hin)
  refine ⟨?_, fun x hx => .inl ?_, fun x hx => .inl ?_, fun x hx hin => ?_,
    fun x hx hopen => ?_⟩
  · rw [hframe]
  · rwa [hframe] at hx
  · rw [hframe] at hx
    exact (hleft x hx).1
  · rw [hframe]
    exact mem_diff_of_mem hin (hout x hx)
  · exact isOpen_foldl_closeConn (hout x hx) hopen

theorem Tidy.closeNext (h : Tidy s) {k i : Nat} (hk : s.closers[k]? = some i)
    (hfree : ∀ c, ¬s.Keeping c) : Tidy (s.closeNext k i) := by
  unfold Pool.closeNext
  split
  · refine ⟨h.tracked, fun c hc => absurd hc (hfree c), fun hnone => ?_⟩
    -- it is not over, so the idle connections may be closed
    have hlength := congrArg List.length (show s.closers.set k (i + 1) = [] from hnone)
    rw [length_set, length_nil, length_eq_zero_iff] at hlength
    rw [hlength] at hk
    cases hk
  · refine ⟨fun c hc => ?_, fun c hc => absurd hc (hfree c), fun _ c hc => ?_⟩
    · rcases hc with hc | hc
      · cases hc
      · exact absurd hc (hfree c)
    · cases hc

theorem tidy_start (config : Config) : Tidy (start config : Pool O) where
  tracked := by
    rintro c (hc | ⟨i, hi⟩)
    · cases hc
    · cases hi
  held_open := by
    rintro c ⟨i, hi⟩
    cases hi
  idle_open := by
    intro _ c hc
    cases hc

variable [DecidableEq O]

/-- **The look at the idle connections**, with no `close` under way. -/
theorem Inv.tends_search (h : Inv config s)
    (slots active : Nat) (options : Option O) (now : Nat) (hnone : s.closers = []) :
    Tends s
      (search config { s with slots := slots, activeConnections := active } i options now) := by
  rcases search_cases config { s with slots := slots, activeConnections := active } i options now
    with hcreate | ⟨front, c, returnedAt, hidle, htakes⟩
  · rw [hcreate]
    exact tends_setCall rfl rfl rfl rfl rfl rfl
  · have hids : s.idleIds = front.map Prod.fst ++ [c] := by
      rw [idleIds, show s.idleConns = _ from hidle, map_append]
      rfl
    have hc : c ∈ s.idleIds := by simp [hids]
    have hfront : ∀ x ∈ front.map Prod.fst, x ∈ s.idleIds :=
      fun x hx => hids ▸ mem_append_left _ hx
    rcases htakes with hout | hdiscard
    · rw [hout]
      refine ⟨rfl, fun x hx => ?_, fun x hx => .inl (hfront x hx), fun _ _ hx => hx,
        fun _ _ hx => hx⟩
      rcases keeping_set rfl hx with hnew | ⟨j, -, hj⟩
      · cases hnew
        exact .inr (.inl ⟨hnone, hc⟩)
      · exact .inl ⟨j, hj⟩
    · rw [hdiscard]
      refine .of_gone (c := c) rfl rfl rfl (fun x hx => ?_) fun x hx => ⟨hfront x hx, ?_⟩
      · have hkept := keeping_before rfl rfl hx
        refine ⟨hkept, ?_⟩
        rintro rfl
        obtain ⟨k, hk⟩ := hkept.holds
        exact h.held_not_idle hk hc
      · rintro rfl
        have hnodup := h.idle_nodup
        rw [hids] at hnodup
        exact disjoint_of_nodup_append hnodup hx (mem_singleton_self x)

/-! ## Fit connections -/

/-- The connection that `get_or_create_conn` takes off the idle list is open, clean, of an age,
and carries no options or the caller's. -/
def Fit (config : Config) (s : Pool O) (c : ConnId) (options : Option O) : Prop :=
  ∃ conn returnedAt, s.conns[c]? = some conn ∧ (c, returnedAt) ∈ s.idleConns ∧
    (conn.closed = false ∧ conn.peerClosed = false) ∧
    (conn.dirty = false ∧ conn.unread = false) ∧
    s.clock < returnedAt + config.idleTtl ∧
    (config.maxLifetime ≠ 0 → s.clock < conn.openedAt + config.maxLifetime) ∧
    (conn.appliedOptions = none ∨ conn.appliedOptions = options)

/-- **What is handed out is fit.** -/
def HandsOutFit (config : Config) (s : Pool O) : Event O → Prop
  | .slot i => ∀ options, s.calls[i]? = some (.waiting options) →
      ∀ c, look config s options s.clock = .handOut c → Fit config s c options
  | .discarded i => ∀ options now, s.calls[i]? = some (.discarding options now) →
      ∀ c, look config s options now = .handOut c → Fit config s c options
  | _ => True

/-- **The books of the pool**: a connection is in one hand, what is idle is tracked, and the
holders that are not re-entrant are counted, and never too many. -/
structure Books (config : Config) (s : Pool O) : Prop where
  exclusive : ∀ i j c, s.Holds i c → s.Holds j c → i = j
  tracked : ∀ c ∈ s.idleIds, c ∈ s.allConns
  counted : s.calls.countP Phase.hasSlot = s.activeConnections
  bounded : s.activeConnections ≤ config.maxConnections

/-- `close` meets no connection in use, no call looks at the idle list while a `close` is under
way, and the newest idle connection did not come of age while the call discarded another. -/
def Alone (config : Config) (s : Pool O) : Event O → Prop
  | .slot _ => s.closers = []
  | .discarded i => s.closers = [] ∧
      ∀ phase ∈ s.calls[i]?, ∀ now ∈ phase.readAt?, ∀ item ∈ s.idleConns.getLast?,
        expired config s s.clock item = true → expired config s now item = true
  | .closes _ => ∀ phase ∈ s.calls, phase.isHolding = false
  | _ => True

instance decidableAlone (config : Config) (s : Pool O) :
    (e : Event O) → Decidable (Alone config s e)
  | .slot _ => inferInstanceAs (Decidable (s.closers = []))
  | .discarded _ => inferInstanceAs (Decidable (_ ∧ ∀ _ ∈ _, ∀ _ ∈ _, ∀ _ ∈ _, _ → _))
  | .closes _ => inferInstanceAs (Decidable (∀ _ ∈ _, _))
  | .tick _ | .acquire _ | .reenter | .created _ | .gaveUp _ | .use _ _ _ | .release _ _ _
  | .closedOwn _ | .arrives _ _ _ | .sweep | .retireIdle | .retire _ | .close => isTrue trivial

theorem fit_of_look (htidy : Tidy s) (hnone : s.closers = [])
    {options : Option O} {now : Nat} (hlook : look config s options now = .handOut c)
    (htimely : ∀ item ∈ s.idleConns.getLast?,
      expired config s s.clock item = true → expired config s now item = true) :
    Fit config s c options := by
  obtain ⟨front, returnedAt, conn, hidle, hconn, husable⟩ := look_handOut hlook
  have hlast : s.idleConns.getLast? = some (c, returnedAt) := by
    rw [hidle, getLast?_concat]
  have hmem : (c, returnedAt) ∈ s.idleConns := mem_of_getLast? hlast
  have hclosed := htidy.idle_open hnone c (mem_map_of_mem hmem) conn hconn
  have hage : expired config s s.clock (c, returnedAt) = false := by
    by_contra hexpired
    have hbefore := htimely _ hlast (by simpa using hexpired)
    simp only [expired, hconn, Option.any_some] at hbefore
    simp [usable, hbefore] at husable
  simp only [usable, Bool.and_eq_true, Bool.not_eq_true', Bool.or_eq_false_iff,
    Bool.and_eq_false_iff, decide_eq_false_iff_not, not_not] at husable
  obtain ⟨⟨⟨-, hoptions⟩, hpeer⟩, hdirty, hunread⟩ := husable
  simp only [expired, hconn, Option.any_some, tooOld, Bool.or_eq_false_iff, Bool.and_eq_false_iff,
    decide_eq_false_iff_not, Nat.not_le, not_not] at hage
  refine ⟨conn, returnedAt, hconn, hmem, ⟨hclosed, hpeer⟩, ⟨hdirty, hunread⟩, hage.1, ?_, ?_⟩
  · exact fun hlimit => hage.2.resolve_left hlimit
  · rcases hoptions with hoptions | hoptions
    · exact .inl (by simpa using hoptions)
    · exact .inr hoptions

/-! ## Runs -/

theorem tidy_step {e : Event O} (h : Inv config s)
    (htidy : Tidy s) (halone : Alone config s e) (hstep : step config s e = some t) : Tidy t := by
  cases did_of_step hstep with
  | tick time => exact ⟨htidy.tracked, htidy.held_open, htidy.idle_open⟩
  | began phase hconn hslot => exact htidy.tends (tends_begin s hconn)
  | slot was hfree => exact htidy.tends (h.tends_search _ _ _ s.clock halone)
  | discarded was =>
    exact htidy.tends (h.tends_search s.slots s.activeConnections _ _ halone.1)
  | created was hold hnew hslot => exact htidy.tends (h.tends_created hnew)
  | ended was hslot => exact htidy.tends (tends_setCall rfl rfl rfl rfl rfl rfl)
  | gaveBack was hslot => exact htidy.tends (tends_setCall rfl rfl rfl rfl rfl rfl)
  | touched c hf => exact htidy.tends (tends_touch s c hf)
  | @released _ i c failed unsent conn was =>
    -- `__aexit__` first, and the rest of `acquire` behind it
    have hleft : Tidy (s.touch c (leave · failed unsent)) :=
      htidy.tends (tends_touch s c fun _ => rfl)
    exact hleft.tends ((h.shrinks (shrinks_touch s c _)).tends_release was _)
  | left was => exact htidy.tends (h.tends_drop (holds_of_call was rfl) rfl rfl rfl rfl rfl rfl)
  | swept => exact htidy.tends h.tends_sweep
  | retiredIdle =>
    refine htidy.tends (.of_aside rfl rfl (fun c hc => hc) (fun c hc => ?_) fun c hc => hc)
    cases hc
  | retired hin =>
    refine htidy.tends (.of_gone rfl rfl rfl (fun x hx => ⟨hx, ?_⟩) fun x hx => ⟨hx, ?_⟩)
    · rintro rfl
      obtain ⟨i, hi⟩ := Keeping.holds (s := s) hx
      exact h.retiring_not_held hin hi
    · rintro rfl
      exact h.retiring_not_idle hin hx
  | close =>
    refine ⟨htidy.tracked, htidy.held_open, fun hnone => ?_⟩
    simp at hnone
  | closes hk =>
    refine htidy.closeNext hk ?_
    rintro c ⟨j, hj⟩
    cases halone _ (mem_of_getElem? hj)

omit [DecidableEq O] in
theorem books_of_inv (h : Inv config s) (htidy : Tidy s) :
    Books config s where
  exclusive := fun i j c => h.exclusive
  tracked := fun c hc => htidy.tracked c (.inl hc)
  counted := h.counted
  bounded := by
    rw [← h.slots]
    exact Nat.le_add_left ..

theorem handsOutFit_of_tidy (htidy : Tidy s) {e : Event O}
    (halone : Alone config s e) : HandsOutFit config s e := by
  cases e with
  | slot i => exact fun options _ c hlook => fit_of_look htidy halone hlook fun _ _ h => h
  | discarded i =>
    exact fun options now was c hlook =>
      fit_of_look htidy halone.1 hlook (halone.2 _ was now rfl)
  | _ => trivial

/-- **The connection pool.**  Over any interleaving of acquire, release, the sweep, `retire_idle`
and `close`: where `close` meets no connection in use, no call looks at the idle list meanwhile, and
no idle connection comes of age while a call discards another, the books agree in every state and
every connection that is handed out is fit. -/
theorem sound_of_alone (config : Config) {es : List (Event O)}
    (h : Guarded (step config) (Alone config) (start config) es) :
    Guarded (step config) (fun s e => Books config s ∧ HandsOutFit config s e) (start config) es ∧
      ∀ t, run (step config) (start config) es = some t → Books config t := by
  have hstart : Inv config (start config : Pool O) ∧ Tidy (start config : Pool O) :=
    ⟨inv_start config, tidy_start config⟩
  have hkeep : ∀ (s : Pool O) e t, Inv config s ∧ Tidy s → Alone config s e →
      step config s e = some t → Inv config t ∧ Tidy t :=
    fun s e t hs halone hstep =>
      ⟨inv_step hs.1 hstep, tidy_step hs.1 hs.2 halone hstep⟩
  constructor
  · refine guarded_of_guarded hkeep (fun s e hs halone => ?_) hstart h
    exact ⟨books_of_inv hs.1 hs.2, handsOutFit_of_tidy hs.2 halone⟩
  · intro t hrun
    have ht := inv_of_guarded hkeep hstart h hrun
    exact books_of_inv ht.1 ht.2

/-- **No slot leaks and no connection is in two hands**, whatever is closed, lost or swept
meanwhile: the idle list, the calls and `retire_idle` have a connection once among them, and when
no call has a slot, all slots are free. -/
theorem slots_of_run (config : Config) {es : List (Event O)} {s : Pool O}
    (hrun : run (step config) (start config) es = some s) :
    (∀ c, s.hands c ≤ 1) ∧ s.activeConnections ≤ config.maxConnections ∧
      ((∀ call ∈ s.calls, call.hasSlot = false) → s.slots = config.maxConnections) := by
  have h : Inv config s :=
    inv_of_run (fun _ _ _ h hstep => inv_step h hstep) (inv_start config) hrun
  have hslots := h.slots
  refine ⟨fun c => Nat.le_trans (h.hands c) (by split_ifs <;> simp), by omega, fun hnone => ?_⟩
  have hcounted := h.counted
  rw [countP_eq_zero.2 fun call hcall => by simp [hnone call hcall]] at hcounted
  omega

/-! ## A reconnect -/

/-- Two connections, ten seconds of idleness, no end of life. -/
def twoSlots : Config := ⟨10, 0, 2, true⟩

/-- A call comes and goes, its connection is swept, and the pool is closed with nobody in it. -/
def quietDay : List (Event Nat) :=
  [.acquire none, .slot 0, .created 0, .use 0 false (some 1), .release 0 false false,
    .acquire (some 1), .slot 1, .release 1 false false, .acquire (some 2), .slot 2,
    .discarded 2, .created 2, .release 2 false false, .tick 10, .sweep, .close, .closes 0]

theorem sound_quietDay : (run (step twoSlots) (start twoSlots) quietDay).map (·.calls) =
        some [.ended, .ended, .ended] ∧
      Guarded (step twoSlots) (fun s e => Books twoSlots s ∧ HandsOutFit twoSlots s e)
        (start twoSlots) quietDay :=
  ⟨by decide +kernel, (sound_of_alone twoSlots (by decide +kernel)).1⟩

/-- A reconnect closes the pool while a call holds a connection, and the call lets go. -/
def reconnect : List (Event Nat) :=
  [.acquire none, .slot 0, .created 0, .close, .closes 0, .closes 0, .release 0 false false]

theorem slots_reconnect :
    ∃ s, run (step twoSlots) (start twoSlots) reconnect = some s ∧ s.slots = 2 := by
  obtain ⟨s, hrun, hcalls⟩ := Option.map_eq_some_iff.1
    (by decide +kernel : (run (step twoSlots) (start twoSlots) reconnect).map (·.calls) =
      some [.ended])
  exact ⟨s, hrun, (slots_of_run twoSlots hrun).2.2 (by simp [hcalls, Phase.hasSlot])⟩

/-- A call comes while `close` waits for the transport of an idle connection. -/
def duringClose : List (Event Nat) :=
  [.acquire none, .slot 0, .created 0, .release 0 false false, .close, .closes 0, .acquire none]

/-- Two connections are idle, the newer one with options.  A call discards it, and eleven seconds
later, when the close of it is over, it takes the other. -/
def slowDiscard : List (Event Nat) :=
  [.acquire none, .acquire none, .slot 0, .created 0, .slot 1, .created 1,
    .use 1 false (some 1), .release 0 false false, .release 1 false false,
    .acquire (some 2), .slot 2, .tick 11]

/-- **`close` while a connection is held**: its holder gives it back, closed, to the idle list of
a pool that does not track it.  **`close` under way**: an idle connection that it has closed is
handed out.  And **a clock that is read once**: so is one that has been idle too long. -/
theorem close_while_held :
    (∃ s, run (step twoSlots) (start twoSlots) reconnect = some s ∧ ¬Books twoSlots s) ∧
      ¬Guarded (step twoSlots) (HandsOutFit twoSlots) (start twoSlots)
        (duringClose ++ [.slot 1]) ∧
      ¬Guarded (step twoSlots) (HandsOutFit twoSlots) (start twoSlots)
        (slowDiscard ++ [.discarded 2]) := by
  refine ⟨?_, fun h => ?_, fun h => ?_⟩
  · obtain ⟨s, hrun, hs⟩ := Option.map_eq_some_iff.1 (by decide +kernel :
      (run (step twoSlots) (start twoSlots) reconnect).map (fun s => (s.idleIds, s.allConns)) =
        some ([0], []))
    obtain ⟨hidle, hall⟩ := Prod.mk.inj hs
    refine ⟨s, hrun, fun hbooks => ?_⟩
    have htracked := hbooks.tracked 0 (by rw [hidle]; exact mem_singleton_self 0)
    rw [hall] at htracked
    cases htracked
  · obtain ⟨s, hrun, hs⟩ := Option.map_eq_some_iff.1 (by decide +kernel :
      (run (step twoSlots) (start twoSlots) duringClose).map
        (fun s => (s.calls[1]?, look twoSlots s none s.clock, (s.conns[0]?).map (·.closed))) =
        some (some (.waiting none), .handOut 0, some true))
    simp only [Prod.mk.injEq] at hs
    obtain ⟨hcall, hlook, hclosed⟩ := hs
    have hfit := guarded_after hrun h none hcall 0 hlook
    obtain ⟨conn, returnedAt, hconn, -, hopen, -⟩ := hfit
    rw [hconn] at hclosed
    cases hopen.1.symm.trans (Option.some.inj hclosed)
  · obtain ⟨s, hrun, hs⟩ := Option.map_eq_some_iff.1 (by decide +kernel :
      (run (step twoSlots) (start twoSlots) slowDiscard).map
        (fun s => (s.calls[2]?, look twoSlots s (some 2) 0, s.idleConns, s.clock)) =
        some (some (.discarding (some 2) 0), .handOut 0, [(0, 0)], 11))
    simp only [Prod.mk.injEq] at hs
    obtain ⟨hcall, hlook, hidle, hclock⟩ := hs
    have hfit := guarded_after hrun h (some 2) 0 hcall 0 hlook
    obtain ⟨conn, returnedAt, -, hmem, -, -, hage, -⟩ := hfit
    rw [hidle, mem_singleton] at hmem
    cases hmem
    rw [hclock] at hage
    exact absurd hage (by decide)

end Pool

end Pynixd.ConnectionPool
