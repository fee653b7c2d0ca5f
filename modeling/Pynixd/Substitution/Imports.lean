import Pynixd.Lib.Dict
import Pynixd.Lib.Runs
import Pynixd.Protocol.DerivedPath

/-!
# One import for every caller

`SubstitutionQueue.substitute` of `pynixd/substitution_queue.py` starts one task for a path and
lets every other caller of the path await that task.  The caller that started it takes the path
out of the registry when its own call ends.  Every caller awaits the task itself, and asyncio
hands the cancellation of a task on to the task that it awaits.

* `single_flight` — one import of a path runs at a time, in any run;
* `isolated_iff` — the callers are isolated from each other **exactly in the runs in which
  nobody is cancelled before the import has ended**;
* `cancel_reaches_import` — any other cancellation reaches the import, whoever else waits.
-/

namespace Pynixd.Substitution

open List Runs

/-! ## The import -/

/-- `SubstitutionImportResult`, as far as a caller reads it. -/
structure ImportResult where
  substituted : Bool
  path : StorePath
  error : String
  deriving DecidableEq

inductive Ended where
  | returned (result : ImportResult)
  | raised (error : String)
  | cancelled
  deriving DecidableEq

/-- What the awaits of `_substitute_uncached` come to. -/
inductive Work where
  /-- `get_substituter` raises. -/
  | searchRaised (error : String)
  | noCandidate
  /-- `_import_nar` raises an `Exception`. -/
  | importRaised (error : String)
  | imported
  /-- `CancelledError` at one of them. -/
  | interrupted
  deriving DecidableEq

def substituteUncached (storeDir : String) (path : StorePath) : Work → Ended
  | .searchRaised error => .raised error
  | .noCandidate => .returned ⟨false, path, "no substituter has path: " ++ path.str storeDir⟩
  | .importRaised error => .returned ⟨false, path, error⟩
  | .imported => .returned ⟨true, path, ""⟩
  -- a `CancelledError` is no `Exception`, so no handler keeps it
  | .interrupted => .cancelled

structure Import where
  path : StorePath
  /-- `Task.cancelling`: how often it was asked to stop. -/
  cancelling : Nat
  ended : Option Ended
  deriving DecidableEq

/-! ## The callers -/

structure Caller where
  awaits : Nat
  /-- It started the import, and its `finally` clears the registry. -/
  starter : Bool
  /-- `Task._must_cancel`: the cancellation came when the import had ended. -/
  mustCancel : Bool
  ended : Option Ended
  deriving DecidableEq

/-- `SubstitutionQueue`, with its tasks and its callers. -/
structure Queue where
  imports : List Import
  active : List (StorePath × Nat)
  callers : List Caller

def Queue.empty : Queue := ⟨[], [], []⟩

/-- What the import of a caller has come to, if it has ended. -/
def Queue.outcome (q : Queue) (c : Caller) : Option Ended :=
  (q.imports[c.awaits]?).bind Import.ended

inductive Event where
  | call (path : StorePath)
  | cancel (caller : Nat)
  | finish (task : Nat) (work : Work)
  /-- A caller whose import has ended goes on. -/
  | wake (caller : Nat)
  deriving DecidableEq

/-- `substitute`, up to its first suspension. -/
def call (q : Queue) (path : StorePath) : Queue :=
  match Dict.get? q.active path with
  | some task =>
    -- the await of a task that has ended does not suspend
    let caller : Caller := ⟨task, false, false, none⟩
    { q with callers := q.callers ++ [{ caller with ended := q.outcome caller }] }
  | none =>
    { imports := q.imports ++ [⟨path, 0, none⟩]
      active := Dict.set q.active path q.imports.length
      callers := q.callers ++ [⟨q.imports.length, true, false, none⟩] }

/-- `Task.cancel` of a caller that is in its await: the awaited task is asked first, and only one
that has ended refuses. -/
def cancel (q : Queue) (i : Nat) (c : Caller) : Queue :=
  match q.outcome c with
  | none =>
    { q with imports := q.imports.modify c.awaits fun t =>
        { t with cancelling := t.cancelling + 1 } }
  | some _ => { q with callers := q.callers.set i { c with mustCancel := true } }

/-- The caller takes the end of its import, or the cancellation that came behind it. -/
def wake (q : Queue) (i : Nat) (c : Caller) (path : StorePath) (ended : Ended) : Queue :=
  { q with
    callers := q.callers.set i
      { c with ended := some (if c.mustCancel then .cancelled else ended) }
    active := if c.starter then Dict.pop q.active path else q.active }

def finish (q : Queue) (task : Nat) (t : Import) (ended : Ended) : Queue :=
  { q with imports := q.imports.set task { t with ended := some ended } }

def step (storeDir : String) (q : Queue) : Event → Option Queue
  | .call path => some (call q path)
  | .cancel i =>
    match q.callers[i]? with
    | none => none
    | some c => if c.ended.isSome then none else some (cancel q i c)
  | .finish task work =>
    match q.imports[task]? with
    | none => none
    | some t =>
      -- a task is interrupted when it was asked to stop, and not otherwise
      if t.ended.isSome ∨ (work = .interrupted ∧ t.cancelling = 0) then none
      else some (finish q task t (substituteUncached storeDir t.path work))
  | .wake i =>
    match q.callers[i]? with
    | none => none
    | some c =>
      if c.ended.isSome then none
      else
        match q.imports[c.awaits]? with
        | none => none
        | some t => t.ended.map (wake q i c t.path)

/-! ## What a step does to the imports -/

/-- **The imports only go on**: each keeps its path, is asked to stop at least as often, and
keeps the end it has come to. -/
def Grows (q q' : Queue) : Prop :=
  ∀ (n : Nat) (t : Import), q.imports[n]? = some t →
    ∃ t' : Import, q'.imports[n]? = some t' ∧ t'.path = t.path ∧
      t.cancelling ≤ t'.cancelling ∧ ∀ ended, t.ended = some ended → t'.ended = some ended

variable {c : Caller} {e : Event} {n : Nat} {q q' : Queue} {path : StorePath} {storeDir : String}

theorem grows_of_imports_eq (h : q'.imports = q.imports) : Grows q q' := by
  intro n t ht
  exact ⟨t, h ▸ ht, rfl, Nat.le_refl _, fun _ => id⟩

theorem grows_call (q : Queue) (path : StorePath) : Grows q (call q path) := by
  unfold call
  split
  · exact grows_of_imports_eq rfl
  · intro n t ht
    have hlt := (List.getElem?_eq_some_iff.1 ht).1
    refine ⟨t, ?_, rfl, Nat.le_refl _, fun _ => id⟩
    rw [getElem?_append_left hlt, ht]

theorem grows_cancel (q : Queue) (i : Nat) (c : Caller) : Grows q (cancel q i c) := by
  unfold cancel
  split
  · intro n t ht
    by_cases hn : c.awaits = n
    · subst hn
      simp [ht]
    · simp [hn, ht]
  · exact grows_of_imports_eq rfl

theorem grows_finish {task : Nat} {t : Import} (ht : q.imports[task]? = some t)
    (hrunning : t.ended = none) (ended : Ended) : Grows q (finish q task t ended) := by
  intro n t' ht'
  have hlt := (List.getElem?_eq_some_iff.1 ht).1
  by_cases hn : task = n
  · subst hn
    obtain rfl : t = t' := Option.some.inj (ht.symm.trans ht')
    refine ⟨{ t with ended := some ended }, ?_, rfl, Nat.le_refl _, ?_⟩
    · simp [finish, hlt]
    · intro e he
      rw [hrunning] at he
      cases he
  · simp [finish, hn, ht']

theorem grows_wake (q : Queue) (i : Nat) (c : Caller) (path : StorePath) (ended : Ended) :
    Grows q (wake q i c path ended) := grows_of_imports_eq rfl

theorem Grows.outcome (h : Grows q q') {ended : Ended}
    (hout : q.outcome c = some ended) : q'.outcome c = some ended := by
  obtain ⟨t, ht, hended⟩ := Option.bind_eq_some_iff.1 hout
  obtain ⟨t', ht', -, -, hkeep⟩ := h c.awaits t ht
  exact Option.bind_eq_some_iff.2 ⟨t', ht', hkeep ended hended⟩

/-- **What a step can do**, with the guards that let it. -/
theorem step_cases (h : step storeDir q e = some q') : (∃ path, e = .call path ∧ q' = call q path) ∨
    (∃ i c, e = .cancel i ∧ q.callers[i]? = some c ∧ c.ended = none ∧ q' = cancel q i c) ∨
    (∃ task t work, e = .finish task work ∧ q.imports[task]? = some t ∧ t.ended = none ∧
      (work = .interrupted → 0 < t.cancelling) ∧
      q' = finish q task t (substituteUncached storeDir t.path work)) ∨
    (∃ i c t ended, e = .wake i ∧ q.callers[i]? = some c ∧ c.ended = none ∧
      q.imports[c.awaits]? = some t ∧ t.ended = some ended ∧ q' = wake q i c t.path ended) := by
  cases e with
  | call path =>
    cases h
    exact .inl ⟨path, rfl, rfl⟩
  | cancel i =>
    simp only [step] at h
    split at h
    · cases h
    · next c hc =>
      split_ifs at h with hended
      cases h
      exact .inr (.inl ⟨i, c, rfl, hc, by simpa using hended, rfl⟩)
  | finish task work =>
    simp only [step] at h
    split at h
    · cases h
    · next t ht =>
      split_ifs at h with hcond
      cases h
      simp only [not_or, not_and, Option.not_isSome_iff_eq_none] at hcond
      refine .inr (.inr (.inl ⟨task, t, work, rfl, ht, hcond.1, fun hw => ?_, rfl⟩))
      exact Nat.pos_of_ne_zero (hcond.2 hw)
  | wake i =>
    simp only [step] at h
    split at h
    · cases h
    · next c hc =>
      split_ifs at h with hended
      split at h
      · cases h
      · next t ht =>
        obtain ⟨ended, hout, rfl⟩ := Option.map_eq_some_iff.1 h
        exact .inr (.inr (.inr
          ⟨i, c, t, ended, rfl, hc, by simpa using hended, ht, hout, rfl⟩))

theorem grows_step (h : step storeDir q e = some q') : Grows q q' := by
  rcases step_cases h with ⟨path, -, rfl⟩ | ⟨i, c, -, -, -, rfl⟩ |
    ⟨task, t, work, -, ht, hrunning, -, rfl⟩ | ⟨i, c, t, ended, -, -, -, -, -, rfl⟩
  · exact grows_call q path
  · exact grows_cancel q i c
  · exact grows_finish ht hrunning _
  · exact grows_wake q i c t.path ended

/-! ## What holds in every run -/

def Awaited (q : Queue) (c : Caller) (t : Import) : Prop := q.imports[c.awaits]? = some t

structure Inv (q : Queue) : Prop where
  awaited : ∀ c ∈ q.callers, ∃ t, Awaited q c t
  /-- A name of the registry leads to an import of that path. -/
  named : ∀ path n, Dict.get? q.active path = some n → ∃ t, q.imports[n]? = some t ∧ t.path = path
  /-- An import that runs is the one its path names. -/
  registered : ∀ (n : Nat) (t : Import), q.imports[n]? = some t → t.ended = none →
    Dict.get? q.active t.path = some n
  /-- A starter that waits has not cleared the registry yet. -/
  cleanup : ∀ c ∈ q.callers, c.starter = true → c.ended = none → ∀ t, Awaited q c t →
    Dict.get? q.active t.path = some c.awaits
  /-- An import has one starter. -/
  starters : ∀ (i j : Nat) (c d : Caller), q.callers[i]? = some c → q.callers[j]? = some d →
    c.starter = true → d.starter = true → c.awaits = d.awaits → i = j
  /-- Only an import that was asked to stop ends in a cancellation. -/
  asked : ∀ t ∈ q.imports, t.ended = some .cancelled → 0 < t.cancelling
  /-- A caller ends as its import does, or in a cancellation of its own. -/
  own : ∀ c ∈ q.callers, ∀ ended, c.ended = some ended →
    (c.mustCancel = true ∧ ended = .cancelled) ∨ q.outcome c = some ended

theorem inv_empty : Inv .empty := by
  constructor <;> simp [Queue.empty]

theorem Inv.lt_length (h : Inv q) (hc : c ∈ q.callers) : c.awaits < q.imports.length := by
  obtain ⟨t, ht⟩ := h.awaited c hc
  exact (List.getElem?_eq_some_iff.1 ht).1

theorem getElem?_concat_eq_some {α : Type} {l : List α} {a x : α} :
    (l ++ [a])[n]? = some x ↔ l[n]? = some x ∨ n = l.length ∧ x = a := by
  by_cases hlt : n < l.length
  · rw [getElem?_append_left hlt]
    have hne : n ≠ l.length := Nat.ne_of_lt hlt
    simp [hne]
  · have hnone : l[n]? = none := getElem?_eq_none (Nat.le_of_not_lt hlt)
    rw [getElem?_append_right (Nat.le_of_not_lt hlt), hnone, getElem?_singleton]
    split_ifs with hzero
    · have hn : n = l.length := by omega
      simp [hn, eq_comm]
    · have hn : n ≠ l.length := by omega
      simp [hn]

theorem Inv.join (h : Inv q) (hn : Dict.get? q.active path = some n) {ended : Option Ended}
    (hended : ended = q.outcome ⟨n, false, false, none⟩) :
    Inv { q with callers := q.callers ++ [⟨n, false, false, ended⟩] } := by
  obtain ⟨t, ht, -⟩ := h.named path n hn
  refine ⟨?_, h.named, h.registered, ?_, ?_, h.asked, ?_⟩
  · intro c hc
    rcases mem_append.1 hc with hc | hc
    · exact h.awaited c hc
    · rw [mem_singleton.1 hc]
      exact ⟨t, ht⟩
  · intro c hc hstarter
    rcases mem_append.1 hc with hc | hc
    · exact h.cleanup c hc hstarter
    · rw [mem_singleton.1 hc] at hstarter
      cases hstarter
  · intro i j c d hi hj hc hd
    rcases getElem?_concat_eq_some.1 hi with hi | ⟨-, rfl⟩
    · rcases getElem?_concat_eq_some.1 hj with hj | ⟨-, rfl⟩
      · exact h.starters i j c d hi hj hc hd
      · cases hd
    · cases hc
  · intro c hc e he
    rcases mem_append.1 hc with hc | hc
    · exact h.own c hc e he
    · rw [mem_singleton.1 hc] at he ⊢
      refine .inr ?_
      rw [← he]
      exact hended.symm

theorem Inv.start (h : Inv q) (hnone : Dict.get? q.active path = none) :
    Inv { imports := q.imports ++ [⟨path, 0, none⟩]
          active := Dict.set q.active path q.imports.length
          callers := q.callers ++ [⟨q.imports.length, true, false, none⟩] } := by
  have hkeep : ∀ (n : Nat) (t : Import), q.imports[n]? = some t →
      (q.imports ++ [⟨path, 0, none⟩])[n]? = some t := fun n t ht =>
    getElem?_concat_eq_some.2 (.inl ht)
  -- an old caller awaits an old import
  have hold : ∀ c ∈ q.callers, ∀ t, (q.imports ++ [⟨path, 0, none⟩])[c.awaits]? = some t →
      Awaited q c t := by
    intro c hc t ht
    rcases getElem?_concat_eq_some.1 ht with ht | ⟨heq, -⟩
    · exact ht
    · exact absurd heq (Nat.ne_of_lt (h.lt_length hc))
  refine ⟨?_, ?_, ?_, ?_, ?_, ?_, ?_⟩
  · intro c hc
    rcases mem_append.1 hc with hc | hc
    · obtain ⟨t, ht⟩ := h.awaited c hc
      exact ⟨t, hkeep _ t ht⟩
    · rw [mem_singleton.1 hc]
      exact ⟨⟨path, 0, none⟩, getElem?_concat_eq_some.2 (.inr ⟨rfl, rfl⟩)⟩
  · intro path' n hn
    simp only [Dict.get?_set] at hn
    split_ifs at hn with hpath
    · cases hn
      exact ⟨_, getElem?_concat_eq_some.2 (.inr ⟨rfl, rfl⟩), hpath⟩
    · obtain ⟨t, ht, hpath⟩ := h.named path' n hn
      exact ⟨t, hkeep n t ht, hpath⟩
  · intro n t ht hrunning
    rcases getElem?_concat_eq_some.1 ht with ht | ⟨rfl, rfl⟩
    · have hnamed := h.registered n t ht hrunning
      have hne : path ≠ t.path := by
        rintro rfl
        rw [hnone] at hnamed
        cases hnamed
      rw [Dict.get?_set_of_ne _ _ hne, hnamed]
    · exact Dict.get?_set_self ..
  · intro c hc hstarter hwaits t ht
    rcases mem_append.1 hc with hc | hc
    · have hnamed := h.cleanup c hc hstarter hwaits t (hold c hc t ht)
      have hne : path ≠ t.path := by
        rintro rfl
        rw [hnone] at hnamed
        cases hnamed
      rw [Dict.get?_set_of_ne _ _ hne, hnamed]
    · rw [mem_singleton.1 hc] at ht ⊢
      rcases getElem?_concat_eq_some.1 ht with ht | ⟨-, rfl⟩
      · exact absurd (List.getElem?_eq_some_iff.1 ht).1 (Nat.lt_irrefl _)
      · exact Dict.get?_set_self ..
  · intro i j c d hi hj hc hd heq
    rcases getElem?_concat_eq_some.1 hi with hi | ⟨hlast, rfl⟩
    · rcases getElem?_concat_eq_some.1 hj with hj | ⟨-, rfl⟩
      · exact h.starters i j c d hi hj hc hd heq
      · exact absurd heq (Nat.ne_of_lt (h.lt_length (mem_of_getElem? hi)))
    · rcases getElem?_concat_eq_some.1 hj with hj | ⟨hlast', rfl⟩
      · exact absurd heq.symm (Nat.ne_of_lt (h.lt_length (mem_of_getElem? hj)))
      · rw [hlast, hlast']
  · intro t ht
    rcases mem_append.1 ht with ht | ht
    · exact h.asked t ht
    · rw [mem_singleton.1 ht]
      intro hcancelled
      cases hcancelled
  · intro c hc e he
    rcases mem_append.1 hc with hc | hc
    · rcases h.own c hc e he with hown | hown
      · exact .inl hown
      · refine .inr ?_
        obtain ⟨t, ht, hended⟩ := Option.bind_eq_some_iff.1 hown
        exact Option.bind_eq_some_iff.2 ⟨t, hkeep _ t ht, hended⟩
    · rw [mem_singleton.1 hc] at he
      cases he

theorem Inv.withImports (h : Inv q) {imports : List Import}
    (hgrows : Grows q { q with imports := imports })
    (hback : ∀ (n : Nat) (t' : Import), imports[n]? = some t' →
      ∃ t : Import, q.imports[n]? = some t ∧ t.path = t'.path ∧ (t'.ended = none → t.ended = none))
    (hasked : ∀ t ∈ imports, t.ended = some .cancelled → 0 < t.cancelling) :
    Inv { q with imports := imports } := by
  refine ⟨?_, ?_, ?_, ?_, h.starters, hasked, ?_⟩
  · intro c hc
    obtain ⟨t, ht⟩ := h.awaited c hc
    obtain ⟨t', ht', -⟩ := hgrows c.awaits t ht
    exact ⟨t', ht'⟩
  · intro path n hn
    obtain ⟨t, ht, hpath⟩ := h.named path n hn
    obtain ⟨t', ht', hpath', -⟩ := hgrows n t ht
    exact ⟨t', ht', hpath'.trans hpath⟩
  · intro n t' ht' hrunning
    obtain ⟨t, ht, hpath, hended⟩ := hback n t' ht'
    rw [← hpath]
    exact h.registered n t ht (hended hrunning)
  · intro c hc hstarter hwaits t' ht'
    obtain ⟨t, ht, hpath, -⟩ := hback c.awaits t' ht'
    rw [← hpath]
    exact h.cleanup c hc hstarter hwaits t ht
  · intro c hc e he
    rcases h.own c hc e he with hown | hown
    · exact .inl hown
    · exact .inr (hgrows.outcome hown)

theorem Inv.setCaller (h : Inv q) {i : Nat} {c c' : Caller}
    (hc : q.callers[i]? = some c) (hawaits : c'.awaits = c.awaits)
    (hstarter : c'.starter = c.starter) (hwaits : c'.ended = none → c.ended = none)
    (hown : ∀ ended, c'.ended = some ended →
      (c'.mustCancel = true ∧ ended = .cancelled) ∨ q.outcome c' = some ended) :
    Inv { q with callers := q.callers.set i c' } := by
  have hcin := mem_of_getElem? hc
  -- each caller stands for the one that was in its place
  have hplace : ∀ (j : Nat) (d' : Caller), (q.callers.set i c')[j]? = some d' →
      ∃ d : Caller, q.callers[j]? = some d ∧ d'.awaits = d.awaits ∧ d'.starter = d.starter := by
    intro j d' hj
    rw [getElem?_set] at hj
    split_ifs at hj with hij hlt
    · cases hj
      exact ⟨c, hij ▸ hc, hawaits, hstarter⟩
    · exact ⟨d', hj, rfl, rfl⟩
  refine ⟨?_, h.named, h.registered, ?_, ?_, h.asked, ?_⟩
  · intro d hd
    rcases mem_or_eq_of_mem_set hd with hd | rfl
    · exact h.awaited d hd
    · obtain ⟨t, ht⟩ := h.awaited c hcin
      refine ⟨t, ?_⟩
      show q.imports[d.awaits]? = some t
      rw [hawaits]
      exact ht
  · intro d hd hs hw t ht
    rcases mem_or_eq_of_mem_set hd with hd | rfl
    · exact h.cleanup d hd hs hw t ht
    · rw [hawaits]
      refine h.cleanup c hcin (hstarter ▸ hs) (hwaits hw) t ?_
      show q.imports[c.awaits]? = some t
      rw [← hawaits]
      exact ht
  · intro j k d e hj hk hd he heq
    obtain ⟨d', hj', hda, hds⟩ := hplace j d hj
    obtain ⟨e', hk', hea, hes⟩ := hplace k e hk
    exact h.starters j k d' e' hj' hk' (hds ▸ hd) (hes ▸ he) (hda ▸ hea ▸ heq)
  · intro d hd e he
    rcases mem_or_eq_of_mem_set hd with hd | rfl
    · exact h.own d hd e he
    · exact hown e he

theorem Inv.clear (h : Inv q)
    (hrunning : ∀ (n : Nat) (t : Import), q.imports[n]? = some t → t.ended = none → path ≠ t.path)
    (hwaiting : ∀ c ∈ q.callers, c.starter = true → c.ended = none → ∀ t, Awaited q c t →
      path ≠ t.path) : Inv { q with active := Dict.pop q.active path } := by
  refine ⟨h.awaited, ?_, ?_, ?_, h.starters, h.asked, h.own⟩
  · intro path' n hn
    simp only [Dict.get?_pop] at hn
    split_ifs at hn with hpath
    exact h.named path' n hn
  · intro n t ht hr
    rw [Dict.get?_pop, if_neg (hrunning n t ht hr)]
    exact h.registered n t ht hr
  · intro c hc hs hw t ht
    rw [Dict.get?_pop, if_neg (hwaiting c hc hs hw t ht)]
    exact h.cleanup c hc hs hw t ht

theorem Inv.cancel {q : Queue} (h : Inv q) {i : Nat} {c : Caller} (hc : q.callers[i]? = some c)
    (hwaits : c.ended = none) : Inv (cancel q i c) := by
  have hgrows := grows_cancel q i c
  unfold Substitution.cancel at hgrows ⊢
  split
  · next hrunning =>
    simp only [hrunning] at hgrows
    refine h.withImports hgrows ?_ ?_
    · intro n t' ht'
      rw [getElem?_modify] at ht'
      obtain ⟨t, ht, rfl⟩ := Option.map_eq_some_iff.1 ht'
      refine ⟨t, ht, ?_, ?_⟩
      · split_ifs <;> rfl
      · split_ifs <;> exact id
    · intro t' ht' hended
      obtain ⟨n, hn⟩ := mem_iff_getElem?.1 ht'
      rw [getElem?_modify] at hn
      obtain ⟨t, ht, rfl⟩ := Option.map_eq_some_iff.1 hn
      split_ifs at hended ⊢
      · exact Nat.succ_pos _
      · exact h.asked t (mem_of_getElem? ht) hended
  · refine h.setCaller hc rfl rfl (fun _ => hwaits) ?_
    intro ended hended
    rw [hwaits] at hended
    cases hended

theorem Inv.finish {q : Queue} (h : Inv q) {task : Nat} {t : Import}
    (ht : q.imports[task]? = some t) (hrunning : t.ended = none) {ended : Ended}
    (hasked : ended = .cancelled → 0 < t.cancelling) : Inv (finish q task t ended) := by
  refine h.withImports (grows_finish ht hrunning ended) ?_ ?_
  · intro n t' ht'
    rw [getElem?_set] at ht'
    split_ifs at ht' with hn hlt
    · cases ht'
      exact ⟨t, hn ▸ ht, rfl, fun hnone => by cases hnone⟩
    · exact ⟨t', ht', rfl, id⟩
  · intro t' ht' hcancelled
    rcases mem_or_eq_of_mem_set ht' with ht' | rfl
    · exact h.asked t' ht' hcancelled
    · exact hasked (Option.some.inj hcancelled)

theorem Inv.wake {q : Queue} (h : Inv q) {i : Nat} {c : Caller} {t : Import} {ended : Ended}
    (hc : q.callers[i]? = some c) (hwaits : c.ended = none) (ht : Awaited q c t)
    (hended : t.ended = some ended) : Inv (wake q i c t.path ended) := by
  have hcin := mem_of_getElem? hc
  have hout : q.outcome c = some ended := Option.bind_eq_some_iff.2 ⟨t, ht, hended⟩
  have hset : Inv { q with
      callers := q.callers.set i
        { c with ended := some (if c.mustCancel then .cancelled else ended) } } := by
    refine h.setCaller hc rfl rfl (fun hnone => by cases hnone) ?_
    intro e he
    obtain rfl := Option.some.inj he
    by_cases hmust : c.mustCancel = true
    · exact .inl ⟨hmust, if_pos hmust⟩
    · rw [if_neg hmust]
      exact .inr hout
  unfold Substitution.wake
  by_cases hstarter : c.starter = true
  · rw [if_pos hstarter]
    have hnamed := h.cleanup c hcin hstarter hwaits t ht
    refine hset.clear ?_ ?_
    · intro n t' ht' hrunning hpath
      have hnamed' := h.registered n t' ht' hrunning
      rw [← hpath, hnamed] at hnamed'
      cases hnamed'
      obtain rfl : t = t' := Option.some.inj (ht.symm.trans ht')
      rw [hended] at hrunning
      cases hrunning
    · -- another starter of the path would await the same import
      intro d hd hs hw t' ht' hpath
      obtain ⟨j, hj⟩ := mem_iff_getElem?.1 hd
      by_cases hij : i = j
      · subst hij
        rw [getElem?_set_self (List.getElem?_eq_some_iff.1 hc).1] at hj
        cases hj
        cases hw
      · rw [getElem?_set_ne hij] at hj
        have hnamed' := h.cleanup d (mem_of_getElem? hj) hs hw t' ht'
        rw [← hpath, hnamed] at hnamed'
        exact hij (h.starters i j c d hc hj hstarter hs (Option.some.inj hnamed'))
  · rw [if_neg hstarter]
    exact hset

theorem inv_step (h : Inv q) (hstep : step storeDir q e = some q') : Inv q' := by
  rcases step_cases hstep with ⟨path, -, rfl⟩ | ⟨i, c, -, hc, hwaits, rfl⟩ |
    ⟨task, t, work, -, ht, hrunning, hasked, rfl⟩ | ⟨i, c, t, ended, -, hc, hwaits, ht, hended, rfl⟩
  · unfold call
    split
    · next n hn => exact h.join hn rfl
    · next hnone => exact h.start hnone
  · exact h.cancel hc hwaits
  · refine h.finish ht hrunning fun hcancelled => hasked ?_
    cases work <;> simp [substituteUncached] at hcancelled ⊢
  · exact h.wake hc hwaits ht hended

theorem inv_of_steps {es : List Event} (hrun : run (step storeDir) .empty es = some q) : Inv q :=
  inv_of_run (fun _ _ _ => inv_step) inv_empty hrun

/-- **One import of a path at a time, whoever is cancelled.**  No import is cancelled unless it
was asked to stop, and a caller ends as its import does or by its own cancellation. -/
theorem single_flight {es : List Event} (hrun : run (step storeDir) .empty es = some q) :
    (∀ (m n : Nat) (t u : Import), q.imports[m]? = some t → q.imports[n]? = some u →
      t.path = u.path → t.ended = none → u.ended = none → m = n) ∧
    (∀ t ∈ q.imports, t.ended = some .cancelled → 0 < t.cancelling) ∧
    ∀ c ∈ q.callers, ∀ ended, c.ended = some ended →
      (c.mustCancel = true ∧ ended = .cancelled) ∨ q.outcome c = some ended := by
  have h := inv_of_steps hrun
  refine ⟨fun m n t u hm hn hpath ht hu => ?_, h.asked, h.own⟩
  have hactive := h.registered m t hm ht
  rw [hpath, h.registered n u hn hu] at hactive
  exact (Option.some.inj hactive).symm

/-! ## Isolation -/

/-- **The callers are isolated**: no import was asked to stop or ended in a cancellation, and a
caller that was not cancelled itself has the own end of its import, or gets it when it goes on. -/
structure Isolated (storeDir : String) (q : Queue) : Prop where
  untouched : ∀ t ∈ q.imports, t.cancelling = 0 ∧ t.ended ≠ some .cancelled
  given : ∀ c ∈ q.callers, c.mustCancel = false → ∀ ended, c.ended = some ended →
    ended ≠ .cancelled ∧ q.outcome c = some ended
  gets : ∀ (i : Nat) (c : Caller), q.callers[i]? = some c → c.mustCancel = false →
    c.ended = none → ∀ ended, q.outcome c = some ended → ended ≠ .cancelled ∧
      ∃ q', step storeDir q (.wake i) = some q' ∧
        q'.callers[i]? = some { c with ended := some ended }

/-- A cancellation that comes when the import of the caller has ended. -/
def Late (q : Queue) : Event → Prop
  | .cancel i => ∀ c ∈ q.callers[i]?, q.outcome c ≠ none
  | _ => True

instance (q : Queue) : ∀ e, Decidable (Late q e)
  | .cancel i => inferInstanceAs (Decidable (∀ c ∈ q.callers[i]?, q.outcome c ≠ none))
  | .call _ | .finish _ _ | .wake _ => isTrue trivial

/-- Some import was asked to stop. -/
def Asked (q : Queue) : Prop :=
  ∃ (n : Nat) (t : Import), q.imports[n]? = some t ∧ 0 < t.cancelling

theorem asked_step (h : Asked q) (hstep : step storeDir q e = some q') : Asked q' := by
  obtain ⟨n, t, ht, hpos⟩ := h
  obtain ⟨t', ht', -, hle, -⟩ := grows_step hstep n t ht
  exact ⟨n, t', ht', Nat.lt_of_lt_of_le hpos hle⟩

/-- **A cancellation that comes earlier reaches the import**, whoever else waits for it. -/
theorem cancel_reaches_import (h : Inv q)
    (hlate : ¬Late q e) (hstep : step storeDir q e = some q') : Asked q' := by
  rcases step_cases hstep with ⟨path, rfl, -⟩ | ⟨i, c, rfl, hc, -, rfl⟩ |
    ⟨task, t, work, rfl, -⟩ | ⟨i, c, t, ended, rfl, -⟩
  · exact absurd trivial hlate
  · have hrunning : q.outcome c = none := by
      by_contra hended
      refine hlate fun d hd => ?_
      obtain rfl : c = d := Option.some.inj (hc.symm.trans hd)
      exact hended
    obtain ⟨t, ht⟩ := h.awaited c (mem_of_getElem? hc)
    refine ⟨c.awaits, { t with cancelling := t.cancelling + 1 }, ?_, Nat.succ_pos _⟩
    have ht' : q.imports[c.awaits]? = some t := ht
    simp [cancel, hrunning, ht']
  · exact absurd trivial hlate
  · exact absurd trivial hlate

theorem not_asked_step (h : ¬Asked q)
    (hlate : Late q e) (hstep : step storeDir q e = some q') : ¬Asked q' := by
  rintro ⟨n, t', ht', hpos⟩
  rcases step_cases hstep with ⟨path, -, rfl⟩ | ⟨i, c, rfl, hc, -, rfl⟩ |
    ⟨task, t, work, -, ht, -, -, rfl⟩ | ⟨i, c, t, ended, -, -, -, -, -, rfl⟩
  · unfold call at ht'
    split at ht'
    · exact h ⟨n, t', ht', hpos⟩
    · rcases getElem?_concat_eq_some.1 ht' with ht' | ⟨-, rfl⟩
      · exact h ⟨n, t', ht', hpos⟩
      · exact absurd hpos (Nat.lt_irrefl 0)
  · have hended := hlate c hc
    unfold cancel at ht'
    split at ht'
    · next hnone => exact hended hnone
    · exact h ⟨n, t', ht', hpos⟩
  · simp only [finish, getElem?_set] at ht'
    split_ifs at ht' with hn hlt
    · cases ht'
      exact h ⟨task, t, ht, hpos⟩
    · exact h ⟨n, t', ht', hpos⟩
  · exact h ⟨n, t', ht', hpos⟩

theorem Inv.isolated (h : Inv q) (hasked : ¬Asked q) : Isolated storeDir q := by
  have huntouched : ∀ t ∈ q.imports, t.cancelling = 0 ∧ t.ended ≠ some .cancelled := by
    intro t ht
    obtain ⟨n, hn⟩ := mem_iff_getElem?.1 ht
    have hzero : t.cancelling = 0 := by
      by_contra hne
      exact hasked ⟨n, t, hn, Nat.pos_of_ne_zero hne⟩
    refine ⟨hzero, fun hcancelled => ?_⟩
    have hpos := h.asked t ht hcancelled
    omega
  have hown : ∀ c ended, q.outcome c = some ended → ended ≠ .cancelled := by
    rintro c ended hout rfl
    obtain ⟨t, ht, hended⟩ := Option.bind_eq_some_iff.1 hout
    exact (huntouched t (mem_of_getElem? ht)).2 hended
  refine ⟨huntouched, ?_, ?_⟩
  · intro c hc hmust ended hended
    rcases h.own c hc ended hended with ⟨hmust', -⟩ | hout
    · rw [hmust] at hmust'
      cases hmust'
    · exact ⟨hown c ended hout, hout⟩
  · intro i c hc hmust hwaits ended hout
    refine ⟨hown c ended hout, ?_⟩
    obtain ⟨t, ht, hended⟩ := Option.bind_eq_some_iff.1 hout
    have hlt := (List.getElem?_eq_some_iff.1 hc).1
    refine ⟨Substitution.wake q i c t.path ended, ?_, ?_⟩
    · simp [step, hc, hwaits, ht, hended]
    · simp [Substitution.wake, hmust, hlt]

/-- **The callers are isolated from each other exactly in the runs in which nobody is cancelled
before the import has ended.** -/
theorem isolated_iff {storeDir : String} {es : List Event} {q : Queue}
    (hrun : run (step storeDir) .empty es = some q) :
    Isolated storeDir q ↔ Guarded (step storeDir) Late .empty es := by
  constructor
  · intro hisolated
    have hnot : ¬Asked q := by
      rintro ⟨n, t, ht, hpos⟩
      have hzero := (hisolated.untouched t (mem_of_getElem? ht)).1
      omega
    exact guarded_of_absent (fun _ _ _ => inv_step) (fun _ _ _ => asked_step)
      (fun _ _ _ => cancel_reaches_import) inv_empty hrun hnot
  · intro hlate
    have hasked : ¬Asked q := inv_of_guarded (fun _ _ _ => not_asked_step)
      (by rintro ⟨n, t, ht, -⟩; cases ht) hlate hrun
    exact (inv_of_steps hrun).isolated hasked

def hello : StorePath := ⟨"abc-hello"⟩

theorem single_flight_afterCancel : ∃ q, run (step "/nix/store") .empty [.call hello, .cancel 0,
      .finish 0 .interrupted, .wake 0, .call hello] = some q ∧ q.imports.length = 2 ∧
    ∀ t ∈ q.imports, t.ended = some .cancelled → 0 < t.cancelling := by
  obtain ⟨q, hrun, himports⟩ := Option.map_eq_some_iff.1
    (by decide +kernel : (run (step "/nix/store") .empty [.call hello, .cancel 0,
      .finish 0 .interrupted, .wake 0, .call hello]).map (·.imports.length) = some 2)
  exact ⟨q, hrun, himports, (single_flight hrun).2.1⟩

/-- **A caller that leaves late**: the import is done, the starter is cancelled before it goes
on, and the other caller has the result. -/
theorem isolated_lateCancel :
    ∃ q, run (step "/nix/store") .empty [.call hello, .call hello, .finish 0 .imported,
        .cancel 0, .wake 0, .wake 1] = some q ∧
      q.callers.map Caller.ended = [some .cancelled, some (.returned ⟨true, hello, ""⟩)] ∧
      Isolated "/nix/store" q := by
  have hread : (run (step "/nix/store") .empty [.call hello, .call hello, .finish 0 .imported,
      .cancel 0, .wake 0, .wake 1]).map (fun q => q.callers.map Caller.ended) =
      some [some .cancelled, some (.returned ⟨true, hello, ""⟩)] := by decide +kernel
  obtain ⟨q, hrun, hended⟩ := Option.map_eq_some_iff.1 hread
  exact ⟨q, hrun, hended, (isolated_iff hrun).2 (by decide +kernel)⟩

/-- **One caller is cancelled, and the other ends in cancellation**: both await one import, and
the task of the first is cancelled while it runs. -/
theorem cancel_ends_other :
    ∃ q, run (step "/nix/store") .empty [.call hello, .call hello, .cancel 0,
        .finish 0 .interrupted, .wake 1] = some q ∧
      q.imports.map Import.ended = [some .cancelled] ∧
      q.callers.map (fun c => (c.mustCancel, c.ended)) =
        [(false, none), (false, some .cancelled)] ∧
      ¬Isolated "/nix/store" q := by
  have hread : (run (step "/nix/store") .empty [.call hello, .call hello, .cancel 0,
      .finish 0 .interrupted, .wake 1]).map (fun q =>
        (q.imports.map Import.ended, q.callers.map fun c => (c.mustCancel, c.ended))) =
      some ([some .cancelled], [(false, none), (false, some .cancelled)]) := by decide +kernel
  obtain ⟨q, hrun, hq⟩ := Option.map_eq_some_iff.1 hread
  simp only [Prod.mk.injEq] at hq
  refine ⟨q, hrun, hq.1, hq.2, fun hisolated => ?_⟩
  obtain ⟨t, ht, hended⟩ := mem_map.1 (hq.1 ▸ mem_singleton_self _)
  exact (hisolated.untouched t ht).2 hended

end Pynixd.Substitution
