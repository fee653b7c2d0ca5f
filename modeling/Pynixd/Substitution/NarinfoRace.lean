import Pynixd.Lib.Dict
import Pynixd.Lib.Runs

/-!
# The race for a narinfo

`SubstitutionQueue.race_http_narinfo` of `pynixd/substitution_queue.py` asks every HTTP
substituter at once.  The callers of one hash share a race: a counter of the probes that are
out, a winner, and an event.  A caller that goes on takes the hash out of the registry, and may
take a newer race of the hash with it.

* `agreed_of_run` — the callers of a race **return the same**: a narinfo that a probe of the race
  came back with, or nothing once every probe has ended without one.
-/

namespace Pynixd.NarinfoRace

open List Runs

/-- What `fetch_narinfo` comes to: a narinfo and its text, or none. -/
inductive Reply (ν : Type) where
  | hit (found : ν)
  | miss
  | timeout
  | error

inductive Phase (ν : Type) where
  | asking
  /-- It comes to the lock with a narinfo. -/
  | found (found : ν)
  /-- It comes to the lock of its `finally`. -/
  | leaving (reply : Reply ν)
  | ended (reply : Reply ν)

structure Probe (ν : Type) where
  store : String
  phase : Phase ν

/-- `_UpstreamNarinfoRace`, with its probes. -/
structure Race (ν : Type) where
  remaining : Int
  event : Bool
  winner : Option (String × ν)
  probes : List (Probe ν)

/-- A call of `race_http_narinfo` that has come to a race. -/
structure Caller (ν : Type) where
  hashPart : String
  race : Nat
  answer : Option (Option (String × ν))

/-- The races, `_http_races`, and the callers. -/
structure Queue (ν : Type) where
  races : List (Race ν)
  httpRaces : List (String × Nat)
  callers : List (Caller ν)

inductive Event (ν : Type) where
  /-- A caller that found no cached answer, and the stores there are by then. -/
  | joins (hashPart : String) (stores : List String)
  /-- A fetch comes back; where it brings a narinfo, the caches have it now. -/
  | fetched (race probe : Nat) (reply : Reply ν)
  | wins (race probe : Nat)
  | leaves (race probe : Nat)
  /-- A caller goes on behind `race.event.wait()`. -/
  | returns (caller : Nat)

variable {ν : Type}

def Race.new (stores : List String) : Race ν :=
  ⟨stores.length, false, none, stores.map fun store => ⟨store, .asking⟩⟩

def Probe.goes (probe : Probe ν) (phase : Phase ν) : Probe ν := { probe with phase := phase }

def Race.advance (race : Race ν) (i : Nat) (probe : Probe ν) (phase : Phase ν) : Race ν :=
  { race with probes := race.probes.set i (probe.goes phase) }

/-- `_probe_http_narinfo`, behind the fetch. -/
def Race.fetched (race : Race ν) (i : Nat) (reply : Reply ν) : Option (Race ν) :=
  match race.probes[i]? with
  | some ⟨store, .asking⟩ =>
    match reply with
    | .hit found => some (race.advance i ⟨store, .asking⟩ (.found found))
    | reply => some (race.advance i ⟨store, .asking⟩ (.leaving reply))
  | _ => none

/-- The lock of the winner. -/
def Race.wins (race : Race ν) (i : Nat) : Option (Race ν) :=
  match race.probes[i]? with
  | some ⟨store, .found found⟩ =>
    let race := race.advance i ⟨store, .found found⟩ (.leaving (.hit found))
    if race.winner.isNone then some { race with winner := some (store, found), event := true }
    else some race
  | _ => none

/-- The lock of the `finally`. -/
def Race.leaves (race : Race ν) (i : Nat) : Option (Race ν) :=
  match race.probes[i]? with
  | some ⟨store, .leaving reply⟩ =>
    let race := race.advance i ⟨store, .leaving reply⟩ (.ended reply)
    some { race with
      remaining := race.remaining - 1
      event := race.event || race.remaining - 1 ≤ 0 }
  | _ => none

/-- A race of the queue goes on. -/
def Queue.modify (q : Queue ν) (r : Nat) (f : Race ν → Option (Race ν)) : Option (Queue ν) :=
  (q.races[r]?.bind f).map fun race => { q with races := q.races.set r race }

def step (q : Queue ν) : Event ν → Option (Queue ν)
  | .joins hashPart stores =>
    if stores = [] then none
    else
      match Dict.get? q.httpRaces hashPart with
      | some r => some { q with callers := q.callers ++ [⟨hashPart, r, none⟩] }
      | none =>
        some {
          races := q.races ++ [.new stores]
          httpRaces := Dict.set q.httpRaces hashPart q.races.length
          callers := q.callers ++ [⟨hashPart, q.races.length, none⟩] }
  | .fetched r i reply => q.modify r (·.fetched i reply)
  | .wins r i => q.modify r (·.wins i)
  | .leaves r i => q.modify r (·.leaves i)
  | .returns k =>
    match q.callers[k]? with
    | some ⟨hashPart, r, none⟩ =>
      match q.races[r]? with
      | some race =>
        if race.event then
          some { q with
            httpRaces := Dict.pop q.httpRaces hashPart
            callers := q.callers.set k ⟨hashPart, r, some race.winner⟩ }
        else none
      | none => none
    | _ => none

/-! ## One race -/

/-- The probe has not come to its end. -/
def Probe.isOut : Probe ν → Bool
  | ⟨_, .ended _⟩ => false
  | _ => true

/-- The probe brought a narinfo, and is past the lock of the winner. -/
def Probe.brought : Probe ν → Option ν
  | ⟨_, .leaving (.hit found)⟩ | ⟨_, .ended (.hit found)⟩ => some found
  | _ => none

structure Race.Ok (race : Race ν) : Prop where
  counted : race.remaining = race.probes.countP Probe.isOut
  event : race.event = true ↔ race.winner.isSome = true ∨ race.remaining ≤ 0
  winner : ∀ store found, race.winner = some (store, found) →
    ∃ p ∈ race.probes, p.store = store ∧ p.brought = some found
  lost : race.winner = none → ∀ p ∈ race.probes, p.brought = none

/-- What was settled stays. -/
def Race.Follows (race race' : Race ν) : Prop :=
  race.event = true → race'.event = true ∧ race'.winner = race.winner

section

variable {race race' : Race ν} {i : Nat} {p p' : Probe ν}

theorem Race.ok_new {stores : List String} (h : stores ≠ []) : (Race.new stores : Race ν).Ok := by
  have hout : (stores.map fun store => (⟨store, .asking⟩ : Probe ν)).countP Probe.isOut =
      stores.length := by
    rw [countP_map]
    exact (countP_eq_length.2 fun _ _ => rfl)
  refine ⟨congrArg _ hout.symm, ?_, ?_, ?_⟩
  · simp [Race.new]
    omega
  · intro store found hwinner
    cases hwinner
  · intro _ q hq
    obtain ⟨store, -, rfl⟩ := mem_map.1 hq
    rfl

theorem exists_brought_set {store : String} {found : ν} (hp : race.probes[i]? = some p)
    (hstore : p'.store = p.store) (hkeeps : p.brought = some found → p'.brought = some found)
    (h : ∃ q ∈ race.probes, q.store = store ∧ q.brought = some found) :
    ∃ q ∈ race.probes.set i p', q.store = store ∧ q.brought = some found := by
  obtain ⟨q, hq, hqs, hqb⟩ := h
  obtain ⟨j, hj⟩ := mem_iff_getElem?.1 hq
  by_cases hij : i = j
  · subst hij
    obtain rfl : p = q := Option.some.inj (hp.symm.trans hj)
    have hlt := (List.getElem?_eq_some_iff.1 hp).1
    exact ⟨p', mem_set hlt p', hstore.trans hqs, hkeeps hqb⟩
  · exact ⟨q, mem_iff_getElem?.2 ⟨j, (getElem?_set_ne hij).trans hj⟩, hqs, hqb⟩

theorem countP_set_isOut (hp : race.probes[i]? = some p) :
    ((race.probes.set i p').countP Probe.isOut : Int) =
      race.probes.countP Probe.isOut - (if p.isOut then 1 else 0) + if p'.isOut then 1 else 0 := by
  obtain ⟨hlt, hget⟩ := List.getElem?_eq_some_iff.1 hp
  have hpos : (if p.isOut then 1 else 0) ≤ race.probes.countP Probe.isOut := by
    split_ifs with hout
    · exact countP_pos_iff.2 ⟨p, mem_of_getElem? hp, hout⟩
    · exact Nat.zero_le _
  rw [List.countP_set hlt, hget]
  split_ifs at hpos ⊢ <;> omega

/-- **A step of a probe** that is out: it keeps what it brought, and what it brings goes to the
slot of the winner. -/
theorem Race.Ok.set (h : race.Ok) (hp : race.probes[i]? = some p) (phase : Phase ν)
    (hprobes : race'.probes = race.probes.set i (p.goes phase)) (hout : p.isOut = true)
    (hcount : race'.remaining = race.remaining - 1 + if (p.goes phase).isOut then 1 else 0)
    (hkeeps : ∀ found, p.brought = some found → (p.goes phase).brought = some found)
    (hwinner : race'.winner = race.winner ∧ (race.winner = none → (p.goes phase).brought = none) ∨
      race.winner = none ∧ ∃ found, race'.winner = some (p.store, found) ∧
        (p.goes phase).brought = some found)
    (hevent : race'.event = true ↔ race.event = true ∨ race'.winner.isSome = true ∨
      race'.remaining ≤ 0) : race'.Ok ∧ race.Follows race' := by
  have hcounted : race'.remaining = race'.probes.countP Probe.isOut := by
    rw [hprobes, countP_set_isOut hp, hcount, h.counted, hout, if_pos rfl]
  have hless : race'.remaining ≤ race.remaining := by
    rw [hcount]
    split_ifs <;> omega
  -- a probe is out, so the race is settled only if it is won
  have hrunning : 0 < race.remaining := by
    rw [h.counted]
    exact_mod_cast countP_pos_iff.2 ⟨p, mem_of_getElem? hp, hout⟩
  refine ⟨⟨hcounted, ?_, ?_, ?_⟩, fun hsettled => ?_⟩
  · rw [hevent, h.event]
    have hgrows : race.winner.isSome = true → race'.winner.isSome = true := by
      rcases hwinner with ⟨hsame, -⟩ | ⟨hnone, -⟩
      · rw [hsame]
        exact id
      · simp [hnone]
    have hlow : race.remaining ≤ 0 → race'.remaining ≤ 0 := fun hle => hless.trans hle
    tauto
  · intro store found hfound
    rw [hprobes]
    rcases hwinner with ⟨hsame, -⟩ | ⟨-, found', hnew, hbrought⟩
    · exact exists_brought_set hp rfl (hkeeps found) (h.winner store found (hsame ▸ hfound))
    · obtain ⟨rfl, rfl⟩ := Prod.mk.inj (Option.some.inj (hnew.symm.trans hfound))
      exact ⟨_, mem_set (List.getElem?_eq_some_iff.1 hp).1 _, rfl, hbrought⟩
  · intro hnone q hq
    rcases hwinner with ⟨hsame, hnot⟩ | ⟨-, found', hnew, -⟩
    · rw [hprobes] at hq
      rcases mem_or_eq_of_mem_set hq with hq | rfl
      · exact h.lost (hsame ▸ hnone) q hq
      · exact hnot (hsame ▸ hnone)
    · cases hnew.symm.trans hnone
  · have hwon := (h.event.1 hsettled).resolve_right (by omega)
    rcases hwinner with ⟨hsame, -⟩ | ⟨hnone, -⟩
    · exact ⟨hevent.2 (.inl hsettled), hsame⟩
    · rw [hnone] at hwon
      cases hwon

theorem Race.Ok.fetched {reply : Reply ν} (h : race.Ok)
    (hstep : race.fetched i reply = some race') :
    race'.Ok ∧ race.Follows race' := by
  unfold Race.fetched at hstep
  split at hstep
  · next store hp =>
    have hevent : race.event = true ↔
        race.event = true ∨ race.winner.isSome = true ∨ race.remaining ≤ 0 := by
      rw [← h.event, or_self]
    split at hstep
    · cases hstep
      refine h.set hp _ rfl rfl (Int.sub_add_cancel _ _).symm ?_ (.inl ⟨rfl, fun _ => rfl⟩) hevent
      · exact fun found hfound => by cases hfound
    · next hnot =>
      cases hstep
      refine h.set hp _ rfl rfl (Int.sub_add_cancel _ _).symm ?_ (.inl ⟨rfl, fun _ => ?_⟩)
        hevent
      · exact fun found hfound => by cases hfound
      · cases reply with
        | hit found => exact absurd rfl (hnot found)
        | _ => rfl
  · cases hstep

theorem Race.Ok.wins (h : race.Ok) (hstep : race.wins i = some race') :
    race'.Ok ∧ race.Follows race' := by
  unfold Race.wins at hstep
  split at hstep
  · next store found hp =>
    dsimp only at hstep
    split_ifs at hstep with hnone
    · cases hstep
      refine h.set hp _ rfl rfl (Int.sub_add_cancel _ _).symm ?_
        (.inr ⟨Option.isNone_iff_eq_none.1 hnone, found, rfl, rfl⟩) ?_
      · exact fun found hfound => by cases hfound
      · simp
    · cases hstep
      refine h.set hp _ rfl rfl (Int.sub_add_cancel _ _).symm ?_ (.inl ⟨rfl, fun heq => ?_⟩) ?_
      · exact fun found hfound => by cases hfound
      · exact absurd (Option.isNone_iff_eq_none.2 heq) hnone
      · exact (or_iff_left_of_imp h.event.2).symm
  · cases hstep

theorem Race.Ok.leaves (h : race.Ok) (hstep : race.leaves i = some race') :
    race'.Ok ∧ race.Follows race' := by
  unfold Race.leaves at hstep
  split at hstep
  · next store reply hp =>
    cases hstep
    refine h.set hp (.ended reply) rfl rfl (Int.add_zero _).symm ?_ (.inl ⟨rfl, fun hnone => ?_⟩) ?_
    · exact fun found hfound => by cases reply <;> exact hfound
    · have hlost := h.lost hnone _ (mem_of_getElem? hp)
      cases reply <;> exact hlost
    · have hwon : race.winner.isSome = true → race.event = true := fun hw => h.event.2 (.inl hw)
      rw [Bool.or_eq_true, decide_eq_true_iff]
      exact ⟨fun hor => hor.imp_right .inr, fun hor => hor.elim .inl fun hor => hor.imp_left hwon⟩
  · cases hstep

end

/-! ## The callers -/

structure Inv (q : Queue ν) : Prop where
  races : ∀ race ∈ q.races, race.Ok
  named : ∀ hashPart r, Dict.get? q.httpRaces hashPart = some r → r < q.races.length
  callers : ∀ c ∈ q.callers, ∃ race, q.races[c.race]? = some race ∧
    ∀ a, c.answer = some a → race.event = true ∧ race.winner = a

theorem Inv.modify {q t : Queue ν} (h : Inv q) {r : Nat} {f : Race ν → Option (Race ν)}
    (hf : ∀ race race', race.Ok → f race = some race' → race'.Ok ∧ race.Follows race')
    (hstep : q.modify r f = some t) : Inv t := by
  obtain ⟨race', hrace', rfl⟩ := Option.map_eq_some_iff.1 hstep
  obtain ⟨race, hrace, hnext⟩ := Option.bind_eq_some_iff.1 hrace'
  obtain ⟨hok, hfollows⟩ := hf race race' (h.races race (mem_of_getElem? hrace)) hnext
  refine ⟨fun other hother => ?_, fun hashPart k hk => ?_, fun c hc => ?_⟩
  · rcases mem_or_eq_of_mem_set hother with hother | rfl
    · exact h.races other hother
    · exact hok
  · rw [length_set]
    exact h.named hashPart k hk
  · obtain ⟨other, hother, hanswer⟩ := h.callers c hc
    by_cases hself : r = c.race
    · subst hself
      obtain rfl : race = other := Option.some.inj (hrace.symm.trans hother)
      refine ⟨race', getElem?_set_self (List.getElem?_eq_some_iff.1 hrace).1, fun a ha => ?_⟩
      obtain ⟨hevent, hwinner⟩ := hanswer a ha
      exact ⟨(hfollows hevent).1, (hfollows hevent).2.trans hwinner⟩
    · exact ⟨other, (getElem?_set_ne hself).trans hother, hanswer⟩

theorem inv_step {q t : Queue ν} {e : Event ν} (h : Inv q) (hstep : step q e = some t) : Inv t := by
  cases e with
  | joins hashPart stores =>
    simp only [step] at hstep
    split_ifs at hstep with hstores
    split at hstep
    · next r hr =>
      cases hstep
      refine ⟨h.races, h.named, fun c hc => ?_⟩
      rcases mem_append.1 hc with hc | hc
      · exact h.callers c hc
      · obtain rfl := mem_singleton.1 hc
        exact ⟨_, getElem?_eq_getElem (h.named hashPart r hr), fun a ha => by cases ha⟩
    · cases hstep
      refine ⟨fun race hrace => ?_, fun other r hr => ?_, fun c hc => ?_⟩
      · rcases mem_append.1 hrace with hrace | hrace
        · exact h.races race hrace
        · obtain rfl := mem_singleton.1 hrace
          exact Race.ok_new hstores
      · rw [Dict.get?_set] at hr
        rw [length_append]
        split_ifs at hr with hsame
        · cases hr
          exact Nat.lt_succ_self _
        · exact Nat.lt_succ_of_lt (h.named other r hr)
      · rcases mem_append.1 hc with hc | hc
        · obtain ⟨race, hrace, hanswer⟩ := h.callers c hc
          exact ⟨race, (getElem?_append_left (List.getElem?_eq_some_iff.1 hrace).1).trans
            hrace, hanswer⟩
        · obtain rfl := mem_singleton.1 hc
          exact ⟨.new stores, getElem?_concat_length, fun a ha => by cases ha⟩
  | fetched r i reply => exact h.modify (fun _ _ hok => hok.fetched) hstep
  | wins r i => exact h.modify (fun _ _ hok => hok.wins) hstep
  | leaves r i => exact h.modify (fun _ _ hok => hok.leaves) hstep
  | returns k =>
    simp only [step] at hstep
    split at hstep
    · next hashPart r hk =>
      split at hstep
      · next race hrace =>
        split_ifs at hstep with hevent
        cases hstep
        refine ⟨h.races, fun other j hj => ?_, fun c hc => ?_⟩
        · rw [Dict.get?_pop] at hj
          split_ifs at hj
          exact h.named other j hj
        · rcases mem_or_eq_of_mem_set hc with hc | rfl
          · exact h.callers c hc
          · exact ⟨race, hrace, fun a ha => ⟨hevent, Option.some.inj ha⟩⟩
      · cases hstep
    · cases hstep

/-- What the callers of a race have returned. -/
structure Agreed (q : Queue ν) : Prop where
  same : ∀ c ∈ q.callers, ∀ d ∈ q.callers, c.race = d.race →
    ∀ a b, c.answer = some a → d.answer = some b → a = b
  won : ∀ c ∈ q.callers, ∀ store found, c.answer = some (some (store, found)) →
    ∃ race, q.races[c.race]? = some race ∧
      ∃ p ∈ race.probes, p.store = store ∧ p.brought = some found
  lost : ∀ c ∈ q.callers, c.answer = some none →
    ∃ race, q.races[c.race]? = some race ∧ ∀ p ∈ race.probes, p.isOut = false ∧ p.brought = none

theorem Inv.agreed {q : Queue ν} (h : Inv q) : Agreed q := by
  refine ⟨fun c hc d hd hrace a b ha hb => ?_, fun c hc store found ha => ?_, fun c hc ha => ?_⟩
  · obtain ⟨race, hr, hanswer⟩ := h.callers c hc
    obtain ⟨other, hother, hanswer'⟩ := h.callers d hd
    obtain rfl : race = other := Option.some.inj (hr.symm.trans (hrace ▸ hother))
    exact (hanswer a ha).2.symm.trans (hanswer' b hb).2
  · obtain ⟨race, hr, hanswer⟩ := h.callers c hc
    exact ⟨race, hr, (h.races race (mem_of_getElem? hr)).winner store found (hanswer _ ha).2⟩
  · obtain ⟨race, hr, hanswer⟩ := h.callers c hc
    obtain ⟨hevent, hnone⟩ := hanswer _ ha
    have hok := h.races race (mem_of_getElem? hr)
    refine ⟨race, hr, fun p hp => ⟨?_, hok.lost hnone p hp⟩⟩
    -- the event was set for the last probe
    have hle : race.remaining ≤ 0 := (hok.event.1 hevent).resolve_left (by simp [hnone])
    rw [hok.counted] at hle
    have hzero : race.probes.countP Probe.isOut = 0 := by omega
    exact Bool.eq_false_iff.2 (countP_eq_zero.1 hzero p hp)

/-- **The narinfo race**, whatever the order in which its probes come back, win and leave, and in
which callers join and return. -/
theorem agreed_of_run {q : Queue ν} (es : List (Event ν)) (h : run step ⟨[], [], []⟩ es = some q) :
    Agreed q := by
  refine Inv.agreed (inv_of_run (fun _ _ _ => inv_step) ⟨?_, ?_, ?_⟩ h)
  · exact forall_mem_nil _
  · exact fun hashPart r hr => by cases hr
  · exact forall_mem_nil _

/-- A caller returns the winner while the other store is out, and a second one behind it. -/
theorem agreed_fastestStore :
    ∃ q : Queue Nat, run step ⟨[], [], []⟩ [.joins "h" ["a", "b"], .joins "h" ["a"],
      .fetched 0 1 (.hit 7), .wins 0 1, .returns 0, .fetched 0 0 (.hit 5), .wins 0 0,
      .returns 1] = some q ∧
      q.callers.map (·.answer) = [some (some ("b", 7)), some (some ("b", 7))] ∧
      Agreed q := by
  refine ⟨_, rfl, rfl, agreed_of_run [.joins "h" ["a", "b"], .joins "h" ["a"],
    .fetched 0 1 (.hit 7), .wins 0 1, .returns 0, .fetched 0 0 (.hit 5), .wins 0 0,
    .returns 1] rfl⟩

end Pynixd.NarinfoRace
