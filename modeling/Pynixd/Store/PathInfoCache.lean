import Mathlib.Data.Finset.Basic
import Pynixd.Lib.Runs
import Pynixd.Lib.TtlCache

/-!
# The cache of path infos and the daemon's store

`Store.path_info_cache` holds a `ValidPathInfo` for 300 seconds, and `QueryPathInfo` is
answered from it.  `nix-daemon` has no such cache, so each difference between an entry
and the daemon's own record is a wrong answer.

* `coherent_step_iff` — an operation keeps the cache coherent **exactly when** `Keeps`
  holds of it and of the state it starts in;
* `coherent_iff_guarded` — the runs that are coherent throughout are those whose
  operations all meet `Keeps`.
-/

namespace Pynixd.PathInfoCache

/-! ## The daemon -/

abbrev Path := String

structure PathInfo where
  deriver : Option Path := none
  narHash : String
  references : Finset Path := ∅
  registrationTime : Nat
  narSize : Nat
  ultimate : Bool := false
  sigs : Finset String := ∅
  ca : String := ""
  deriving DecidableEq

/-- The same info with further signatures. -/
def PathInfo.addSigs (i : PathInfo) (sigs : Finset String) : PathInfo :=
  { i with sigs := i.sigs ∪ sigs }

theorem PathInfo.addSigs_eq_self {i : PathInfo} {sigs : Finset String} :
    i.addSigs sigs = i ↔ sigs ⊆ i.sigs := by
  rw [addSigs]
  constructor
  · intro h
    exact Finset.union_eq_left.1 (congrArg PathInfo.sigs h)
  · intro h
    rw [Finset.union_eq_left.2 h]

/-- The daemon's store: the record of every valid path. -/
abbrev Daemon := Path → Option PathInfo

namespace Daemon

/-- The daemon is given a path: it records what it makes of the info, unless the path is
valid already and no repair was asked for. -/
def take (d : Daemon) (repair : Bool) (p : Path) (recorded : PathInfo) : Daemon := fun q =>
  if q = p ∧ (repair = true ∨ d p = none) then some recorded else d q

def sign (d : Daemon) (p : Path) (sigs : Finset String) : Daemon := fun q =>
  if q = p then (d q).map (·.addSigs sigs) else d q

def takeAll (d : Daemon) (repair : Bool) (items : List (Path × PathInfo)) : Daemon :=
  items.foldl (fun d item => d.take repair item.1 item.2) d

def delete (d : Daemon) (ps : List Path) : Daemon := fun q => if q ∈ ps then none else d q

/-- What the daemon has on record for a path after a batch: the last of it under repair,
and otherwise what it had, or else the first. -/
def onRecord (d : Daemon) (repair : Bool) (items : List (Path × PathInfo)) (p : Path) :
    Option PathInfo :=
  if repair then (TtlCache.lastOf items p).or (d p) else (d p).or (Dict.get? items p)

theorem takeAll_repair (d : Daemon) (items : List (Path × PathInfo)) (p : Path) :
    d.takeAll true items p = (TtlCache.lastOf items p).or (d p) := by
  induction items using List.reverseRecOn with
  | nil => rfl
  | append_singleton items item ih =>
    obtain ⟨q, i⟩ := item
    have hstep : d.takeAll true (items ++ [(q, i)]) = (d.takeAll true items).take true q i := by
      simp [takeAll]
    rw [hstep, take, ih, TtlCache.lastOf_append_singleton]
    by_cases hqp : q = p
    · simp [hqp]
    · simp [hqp, Ne.symm hqp]

theorem takeAll_keep (d : Daemon) (items : List (Path × PathInfo)) (p : Path) :
    d.takeAll false items p = (d p).or (Dict.get? items p) := by
  induction items generalizing d with
  | nil => simp [takeAll]
  | cons item items ih =>
    obtain ⟨q, i⟩ := item
    have hstep : d.takeAll false ((q, i) :: items) = (d.take false q i).takeAll false items := rfl
    rw [hstep, ih, take, Dict.get?_cons]
    by_cases hqp : q = p
    · subst hqp
      cases d q <;> simp
    · simp [hqp, Ne.symm hqp]

theorem takeAll_apply (d : Daemon) (repair : Bool) (items : List (Path × PathInfo)) (p : Path) :
    d.takeAll repair items p = d.onRecord repair items p := by
  cases repair with
  | false => exact takeAll_keep d items p
  | true => exact takeAll_repair d items p

theorem take_self (d : Daemon) (repair : Bool) (p : Path) (i : PathInfo) :
    d.take repair p i p = some (if repair then i else (d p).getD i) := by
  cases repair <;> cases hp : d p <;> simp [take, hp]

theorem take_of_ne (d : Daemon) (repair : Bool) (p : Path) (i : PathInfo) (q : Path)
    (hqp : q ≠ p) : d.take repair p i q = d q :=
  if_neg fun hq => hqp hq.1

theorem sign_self {d : Daemon} {p : Path} {i : PathInfo} (hp : d p = some i)
    (sigs : Finset String) : d.sign p (i.addSigs sigs).sigs p = some (i.addSigs sigs) := by
  simp [sign, hp, PathInfo.addSigs]

theorem sign_of_ne (d : Daemon) (p : Path) (sigs : Finset String) (q : Path) (hqp : q ≠ p) :
    d.sign p sigs q = d q :=
  if_neg hqp

section Records

variable {d : Daemon} {p : Path} {e : PathInfo} (hp : d p = some e)
include hp

/-! Which operations leave the record of a valid path as it is. -/

theorem take_eq_some_iff (repair : Bool) (q : Path) (i : PathInfo) :
    d.take repair q i p = some e ↔ (p = q → repair = true → i = e) := by
  rw [take]
  by_cases hpq : p = q
  · subst hpq
    cases repair <;> simp [hp]
  · simp [hpq, hp]

theorem sign_eq_some_iff (q : Path) (sigs : Finset String) :
    d.sign q sigs p = some e ↔ (p = q → sigs ⊆ e.sigs) := by
  rw [sign]
  by_cases hpq : p = q
  · simp [hp, PathInfo.addSigs_eq_self]
  · simp [hpq, hp]

theorem delete_eq_some_iff (ps : List Path) : d.delete ps p = some e ↔ p ∉ ps := by
  by_cases hmem : p ∈ ps <;> simp [delete, hmem, hp]

theorem takeAll_eq_some_iff (repair : Bool) (items : List (Path × PathInfo)) :
    d.takeAll repair items p = some e ↔
      ∀ i, TtlCache.lastOf items p = some i → repair = true → i = e := by
  rw [takeAll_apply]
  cases repair with
  | false => simp [onRecord, hp]
  | true =>
    cases hlast : TtlCache.lastOf items p with
    | none => simp [onRecord, hlast, hp]
    | some i => simp [onRecord, hlast]

end Records

end Daemon

/-! ## Operations -/

/-- What becomes of a call to the daemon. -/
inductive Fate where
  | answered
  /-- `stderrError`, and nothing was done. -/
  | refused
  /-- It was done, and the answer never came. -/
  | lost
  deriving DecidableEq, Repr

/-- How `AddToStoreHandler` comes to its end behind the payload. -/
inductive AddEnd where
  | refused
  /-- The path was added, and the answer never came. -/
  | lost
  /-- `sign_added_paths` is off. -/
  | unsigned
  /-- `sign_path_info` on the same connection: the signatures of the keys, and the fate of
  its call. -/
  | signed (sigs : Finset String) (fate : Fate)

/-- An operation of the proxy, with what the daemon does. -/
inductive Op where
  /-- `AddToStore`: the path and the info that the daemon computes. -/
  | addToStore (path : Path) (info : PathInfo) (repair : Bool) (fate : AddEnd)
      (evicted : List Path)
  /-- `AddMultipleToStore`, and the transfers between stores that send it: the infos as
  they are sent, and behind how many of them the daemon or the connection fails, if so. -/
  | addMultipleToStore (infos : List (Path × PathInfo)) (repair : Bool) (stopped : Option Nat)
      (evicted : List Path)
  /-- `AddSignatures`, which `execute` takes to the executor of the store. -/
  | addSignatures (path : Path) (sigs : Finset String) (fate : Fate)
  /-- A client's `SignPathInfo`: the signatures that the daemon adds, none where it does
  not know the operation. -/
  | signPathInfo (path : Path) (sigs : Finset String)
  /-- A client's `CollectGarbage`: what the daemon deletes. -/
  | collectGarbage (deleted : List Path)
  /-- pynixd's own collection: the groups it asks for, with what the daemon deletes. -/
  | pynixdCollectGarbage (groups : List (List (Path × Bool)))
  /-- A build or a substitution: the daemon gets a path that it did not have. -/
  | realise (path : Path) (info : PathInfo)
  | wait (seconds : Nat)

/-- The local store as pynixd sees it. -/
structure State where
  now : Nat
  daemon : Daemon
  cache : TtlCache.Cache Path PathInfo

def ttl : Nat := 300

namespace State

/-- `get_path_info`: the entry of a path, while it has not expired. -/
def cached (s : State) (p : Path) : Option PathInfo := TtlCache.get? s.cache s.now p

/-- `add_path_infos`; the entries in `evicted` make room. -/
def addPathInfos (s : State) (infos : List (Path × PathInfo)) (evicted : List Path) : State :=
  { s with cache := TtlCache.forgetAll (TtlCache.putAll ttl s.cache s.now infos) evicted }

def forgetPathInfo (s : State) (p : Path) : State :=
  { s with cache := TtlCache.forget s.cache p }

/-- The end of `AddToStoreHandler.handle`, where the daemon has `info` on record. -/
def finishAdd (s : State) (p : Path) (info : PathInfo) (evicted : List Path) : AddEnd → State
  | .refused | .lost | .signed _ .refused => s
  | .unsigned => s.addPathInfos [(p, info)] evicted
  | .signed sigs .lost => { s with daemon := s.daemon.sign p (info.addSigs sigs).sigs }
  | .signed sigs .answered =>
    ({ s with daemon := s.daemon.sign p (info.addSigs sigs).sigs }.forgetPathInfo p).addPathInfos
      [(p, info.addSigs sigs)] evicted

/-- One group of `Collector`: **the whole group is forgotten**, whatever becomes of the
call. -/
def deleteGroup (s : State) (group : List (Path × Bool)) : State :=
  { s with
    daemon := s.daemon.delete ((group.filter (·.2)).map (·.1))
    cache := TtlCache.forgetAll s.cache (group.map (·.1)) }

/-- `LocalDBStore.query_path_info`: the entry, or else the daemon's database. -/
def queryPathInfo (s : State) (p : Path) : Option PathInfo := (s.cached p).or (s.daemon p)

/-- **Coherence**: an entry that has not expired is the daemon's record of a valid path. -/
def Coherent (s : State) : Prop := ∀ p i, s.cached p = some i → s.daemon p = some i

/-! ## Writing and forgetting -/

theorem cached_addPathInfos (s : State) (infos : List (Path × PathInfo)) (evicted : List Path)
    (p : Path) : (s.addPathInfos infos evicted).cached p =
      if p ∈ evicted then none else (TtlCache.lastOf infos p).or (s.cached p) := by
  rw [cached, addPathInfos, TtlCache.get?_forgetAll,
    TtlCache.get?_putAll _ _ _ (show 0 < ttl by decide)]
  rfl

theorem cached_forgetPathInfo (s : State) (p q : Path) :
    (s.forgetPathInfo p).cached q = if p = q then none else s.cached q :=
  TtlCache.get?_forget _ _ _ _

section Coherence

variable {s : State} (h : s.Coherent)
include h

theorem coherent_at_iff {d : Daemon} {p : Path} (hother : ∀ q, q ≠ p → d q = s.daemon q) :
    { s with daemon := d }.Coherent ↔ ∀ e, s.cached p = some e → d p = some e := by
  constructor
  · intro hd e
    exact hd p e
  · intro hp q e hq
    by_cases hqp : q = p
    · subst hqp
      exact hp e hq
    · exact (hother q hqp).trans (h q e hq)

/-- **To forget what changed is enough.** -/
theorem coherent_forget {d : Daemon} {p : Path} (hother : ∀ q, q ≠ p → d q = s.daemon q) :
    ({ s with daemon := d }.forgetPathInfo p).Coherent := by
  intro q e hq
  rw [cached_forgetPathInfo] at hq
  split_ifs at hq with hpq
  exact (hother q (Ne.symm hpq)).trans (h q e hq)

theorem coherent_store {d : Daemon} {p : Path} {i : PathInfo} (hp : d p = some i)
    (hother : ∀ q, q ≠ p → d q = s.daemon q) (evicted : List Path) :
    ({ s with daemon := d }.addPathInfos [(p, i)] evicted).Coherent := by
  intro q e hq
  rw [cached_addPathInfos] at hq
  split_ifs at hq with hev
  by_cases hpq : p = q
  · subst hpq
    have hie : i = e := by simpa [TtlCache.lastOf, Dict.get?_cons] using hq
    exact hie ▸ hp
  · have hlast : TtlCache.lastOf [(p, i)] q = none := by simp [TtlCache.lastOf, Dict.get?_cons, hpq]
    rw [hlast] at hq
    exact (hother q (Ne.symm hpq)).trans (h q e hq)

theorem coherent_deleteGroup (group : List (Path × Bool)) : (s.deleteGroup group).Coherent := by
  intro p e hp
  have hcached : (s.deleteGroup group).cached p =
      if p ∈ group.map (·.1) then none else s.cached p :=
    TtlCache.get?_forgetAll _ _ _ _
  rw [hcached] at hp
  split_ifs at hp with hmem
  -- what the daemon deletes of a group is among what is forgotten
  have hkept : p ∉ (group.filter (·.2)).map (·.1) := fun hdel =>
    hmem (List.map_subset _ (List.filter_subset_self _) hdel)
  exact (Daemon.delete_eq_some_iff (h p e hp) _).2 hkept

theorem coherent_deleteGroups (groups : List (List (Path × Bool))) :
    (groups.foldl deleteGroup s).Coherent := by
  induction groups generalizing s with
  | nil => exact h
  | cons group groups ih => exact ih (coherent_deleteGroup h group)

theorem coherent_wait (seconds : Nat) : { s with now := s.now + seconds }.Coherent := by
  intro p e hp
  exact h p e (TtlCache.get?_later (Nat.le_add_right _ _) hp)

end Coherence

end State

section Steps

/-! What the daemon records of an info that it is sent, at a time of its clock.  Nix drops
`ultimate`, and puts in the time where the info has none. -/
variable (records : Nat → PathInfo → PathInfo)

/-- The infos of a batch as the daemon records them. -/
def recorded (now : Nat) (infos : List (Path × PathInfo)) : List (Path × PathInfo) :=
  infos.map fun item => (item.1, records now item.2)

theorem lastOf_recorded (now : Nat) (infos : List (Path × PathInfo)) (p : Path) :
    TtlCache.lastOf (recorded records now infos) p =
      (TtlCache.lastOf infos p).map (records now) := by
  induction infos using List.reverseRecOn with
  | nil => rfl
  | append_singleton infos item ih =>
    obtain ⟨q, i⟩ := item
    have hstep : recorded records now (infos ++ [(q, i)]) =
        recorded records now infos ++ [(q, records now i)] := by
      simp [recorded]
    rw [hstep, TtlCache.lastOf_append_singleton, ih, TtlCache.lastOf_append_singleton]
    split_ifs <;> rfl

def step (s : State) : Op → State
  | .addToStore p info repair fate evicted =>
    if fate matches .refused then s
    else
      let d := s.daemon.take repair p info
      -- the daemon answers with its own record of the path
      { s with daemon := d }.finishAdd p ((d p).getD info) evicted fate
  | .addMultipleToStore infos repair none evicted =>
    -- the infos go into the cache as the client sent them
    { s with daemon := s.daemon.takeAll repair (recorded records s.now infos) }.addPathInfos
      infos evicted
  | .addMultipleToStore infos repair (some n) _ =>
    { s with daemon := s.daemon.takeAll repair (recorded records s.now (infos.take n)) }
  | .addSignatures p sigs .answered => { s with daemon := s.daemon.sign p sigs }.forgetPathInfo p
  | .addSignatures _ _ .refused => s
  | .addSignatures p sigs .lost => { s with daemon := s.daemon.sign p sigs }
  -- `SignPathInfoHandler` and `CollectGarbageHandler` use `call`, past the executors
  | .signPathInfo p sigs => { s with daemon := s.daemon.sign p sigs }
  | .collectGarbage deleted => { s with daemon := s.daemon.delete deleted }
  | .pynixdCollectGarbage groups => groups.foldl State.deleteGroup s
  | .realise p info => { s with daemon := s.daemon.take false p info }
  | .wait seconds => { s with now := s.now + seconds }

/-- The operations that keep the cache coherent: the answered ones of the roads that write
or forget the entry, and, of the others, those that **change no record with an entry** and
cache nothing but what the daemon has on record. -/
def Keeps (s : State) : Op → Prop
  | .addToStore _ _ _ .refused _ => True
  | .addToStore _ _ _ .unsigned _ => True
  | .addToStore _ _ _ (.signed _ .answered) _ => True
  | .addToStore p info repair .lost _ =>
    ∀ e, s.cached p = some e → repair = true → info = e
  | .addToStore p info repair (.signed _ .refused) _ =>
    ∀ e, s.cached p = some e → repair = true → info = e
  | .addToStore p info repair (.signed sigs .lost) _ =>
    ∀ e, s.cached p = some e → (if repair then info else e).addSigs sigs = e
  | .addMultipleToStore infos repair none evicted =>
    ∀ p i, TtlCache.lastOf infos p = some i → p ∉ evicted →
      s.daemon.onRecord repair (recorded records s.now infos) p = some i
  | .addMultipleToStore infos repair (some n) _ =>
    ∀ p e, s.cached p = some e → ∀ i, TtlCache.lastOf (recorded records s.now (infos.take n)) p =
      some i → repair = true → i = e
  | .addSignatures p sigs .lost => ∀ e, s.cached p = some e → sigs ⊆ e.sigs
  | .addSignatures _ _ _ => True
  | .signPathInfo p sigs => ∀ e, s.cached p = some e → sigs ⊆ e.sigs
  | .collectGarbage deleted => ∀ p ∈ deleted, s.cached p = none
  | .pynixdCollectGarbage _ => True
  | .realise _ _ => True
  | .wait _ => True

/-! ## One operation -/

section Step

variable {records} {s : State} (h : s.Coherent)
include h

theorem coherent_take_iff (repair : Bool) (p : Path) (i : PathInfo) :
    { s with daemon := s.daemon.take repair p i }.Coherent ↔
      ∀ e, s.cached p = some e → repair = true → i = e := by
  rw [State.coherent_at_iff h (Daemon.take_of_ne _ _ _ _)]
  refine forall₂_congr fun e he => ?_
  rw [Daemon.take_eq_some_iff (h p e he)]
  simp

theorem coherent_sign_iff (p : Path) (sigs : Finset String) :
    { s with daemon := s.daemon.sign p sigs }.Coherent ↔
      ∀ e, s.cached p = some e → sigs ⊆ e.sigs := by
  rw [State.coherent_at_iff h (Daemon.sign_of_ne _ _ _)]
  refine forall₂_congr fun e he => ?_
  rw [Daemon.sign_eq_some_iff (h p e he)]
  simp

theorem coherent_delete_iff (deleted : List Path) :
    { s with daemon := s.daemon.delete deleted }.Coherent ↔
      ∀ p ∈ deleted, s.cached p = none := by
  constructor
  · intro hd p hp
    by_contra hc
    obtain ⟨e, he⟩ := Option.ne_none_iff_exists'.1 hc
    exact (Daemon.delete_eq_some_iff (h p e he) deleted).1 (hd p e he) hp
  · intro hnone p e (he : s.cached p = some e)
    have hkept : p ∉ deleted := fun hp => nomatch (hnone p hp).symm.trans he
    exact (Daemon.delete_eq_some_iff (h p e he) deleted).2 hkept

theorem coherent_takeAll_iff (repair : Bool) (items : List (Path × PathInfo)) :
    { s with daemon := s.daemon.takeAll repair items }.Coherent ↔
      ∀ p e, s.cached p = some e → ∀ i, TtlCache.lastOf items p = some i → repair = true → i = e :=
  forall₃_congr fun p e he => Daemon.takeAll_eq_some_iff (h p e he) repair items

/-- A batch as it was sent is in the cache: **it has to be what the daemon recorded**. -/
theorem coherent_addMultiple_iff (repair : Bool) (infos : List (Path × PathInfo))
    (evicted : List Path) :
    ({ s with daemon := s.daemon.takeAll repair (recorded records s.now infos) }.addPathInfos
        infos evicted).Coherent ↔
      ∀ p i, TtlCache.lastOf infos p = some i → p ∉ evicted →
        s.daemon.onRecord repair (recorded records s.now infos) p = some i := by
  constructor
  · intro hd p i hlast hev
    rw [← Daemon.takeAll_apply]
    apply hd p i
    rw [State.cached_addPathInfos, if_neg hev, hlast]
    rfl
  · intro hrec p e hp
    rw [State.cached_addPathInfos] at hp
    split_ifs at hp with hev
    cases hlast : TtlCache.lastOf infos p with
    | some i =>
      rw [hlast] at hp
      exact (Daemon.takeAll_apply _ _ _ p).trans (hp ▸ hrec p i hlast hev)
    | none =>
      rw [hlast] at hp
      apply (Daemon.takeAll_eq_some_iff (h p e hp) _ _).2
      intro i hi
      rw [lastOf_recorded, hlast] at hi
      cases hi

theorem coherent_finishAdd_iff {repair : Bool} {p : Path} {info : PathInfo} {evicted : List Path}
    {fate : AddEnd} (hfate : fate ≠ .refused) :
    ({ s with daemon := s.daemon.take repair p info }.finishAdd p
        ((s.daemon.take repair p info p).getD info) evicted fate).Coherent ↔
      Keeps records s (.addToStore p info repair fate evicted) := by
  have htake := Daemon.take_self s.daemon repair p info
  have hother : ∀ sigs q, q ≠ p →
      (s.daemon.take repair p info).sign p sigs q = s.daemon q := fun sigs q hqp =>
    (Daemon.sign_of_ne _ p sigs q hqp).trans (Daemon.take_of_ne _ repair p info q hqp)
  rw [htake, Option.getD_some]
  cases fate with
  | refused => exact absurd rfl hfate
  | lost => exact coherent_take_iff h repair p info
  | unsigned =>
    exact iff_of_true (State.coherent_store h htake (Daemon.take_of_ne _ _ _ _) evicted) trivial
  | signed sigs fate =>
    have hsigned := Daemon.sign_self htake sigs
    cases fate with
    | refused => exact coherent_take_iff h repair p info
    | answered =>
      apply iff_of_true _ trivial
      exact State.coherent_store (State.coherent_forget h (hother _)) hsigned
        (fun _ _ => rfl) evicted
    | lost =>
      apply (State.coherent_at_iff h (hother _)).trans
      refine forall₂_congr fun e he => ?_
      rw [hsigned, Option.some_inj, h p e he, Option.getD_some]

end Step

/-- **One operation**: it keeps the cache coherent exactly when `Keeps` holds. -/
theorem coherent_step_iff {s : State} (h : s.Coherent) (op : Op) :
    (step records s op).Coherent ↔ Keeps records s op := by
  cases op with
  | addToStore p info repair fate evicted =>
    by_cases hfate : fate = .refused
    · subst hfate
      exact iff_of_true h trivial
    · have hstep : step records s (.addToStore p info repair fate evicted) =
          { s with daemon := s.daemon.take repair p info }.finishAdd p
            ((s.daemon.take repair p info p).getD info) evicted fate := by
        cases fate <;> first | exact absurd rfl hfate | rfl
      rw [hstep]
      exact coherent_finishAdd_iff h hfate
  | addMultipleToStore infos repair stopped evicted =>
    cases stopped with
    | none => exact coherent_addMultiple_iff h repair infos evicted
    | some n => exact coherent_takeAll_iff h repair _
  | addSignatures p sigs fate =>
    cases fate with
    | answered => exact iff_of_true (State.coherent_forget h (Daemon.sign_of_ne _ _ _)) trivial
    | refused => exact iff_of_true h trivial
    | lost => exact coherent_sign_iff h p sigs
  | signPathInfo p sigs => exact coherent_sign_iff h p sigs
  | collectGarbage deleted => exact coherent_delete_iff h deleted
  | pynixdCollectGarbage groups => exact iff_of_true (State.coherent_deleteGroups h groups) trivial
  | realise p info => exact iff_of_true ((coherent_take_iff h false p info).2 (by simp)) trivial
  | wait seconds => exact iff_of_true (State.coherent_wait h seconds) trivial

/-! ## Runs -/

/-- pynixd comes up in front of a daemon: the cache is empty. -/
def fresh (now : Nat) (daemon : Daemon) : State := ⟨now, daemon, []⟩

theorem coherent_fresh (now : Nat) (daemon : Daemon) : (fresh now daemon).Coherent := nofun

/-- `step` as the steps of a run; each one goes through. -/
def steps (s : State) (op : Op) : Option State := some (step records s op)

/-- **Coherent runs**: the cache is coherent after each operation of a run exactly when
every operation meets `Keeps` in the state it starts in. -/
theorem coherent_iff_guarded (now : Nat) (daemon : Daemon) (ops : List Op) :
    (∀ k t, Runs.run (steps records) (fresh now daemon) (ops.take k) = some t → t.Coherent) ↔
      Runs.Guarded (steps records) (Keeps records) (fresh now daemon) ops := by
  apply Runs.guarded_iff
  · intro s op
    exact ⟨_, rfl⟩
  · intro s op t hs ht
    obtain rfl : step records s op = t := Option.some_inj.1 ht
    exact coherent_step_iff records hs op
  · exact coherent_fresh now daemon

end Steps

/-! ## A collected path -/

/-- A path with nothing but an archive. -/
def hello : PathInfo := { narHash := "sha256:00", registrationTime := 1, narSize := 112 }

/-- `nix store add`, and `nix store delete` of what it added. -/
def addAndDelete : List Op :=
  [.addToStore "/nix/store/hello" hello false .unsigned [], .collectGarbage ["/nix/store/hello"]]

/-- **The daemon deleted the path, and the query still finds it.** -/
theorem collectGarbage_cached :
    (Runs.run (steps fun _ i => i) (fresh 0 fun _ => none) addAndDelete).map
      (fun s => (s.queryPathInfo "/nix/store/hello", s.daemon "/nix/store/hello")) =
        some (some hello, none) ∧
    ¬∀ t, Runs.run (steps fun _ i => i) (fresh 0 fun _ => none) addAndDelete = some t →
      t.Coherent := by
  constructor
  · decide +kernel
  · intro h
    exact nomatch h _ rfl "/nix/store/hello" hello (by decide +kernel)

end Pynixd.PathInfoCache
