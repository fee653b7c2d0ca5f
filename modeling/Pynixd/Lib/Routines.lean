import Pynixd.Lib.Runs

/-!
# Routines that share a state

A routine works on a state that it shares with others.  It runs without interruption until it
pauses, and while it pauses the others may change the state.  It can also be stopped there for
good.

* `Routine` — a computation that acts on the state, pauses, ends with an answer or fails;
* `Routine.advance`, `Routine.alone` — as far as the next pause, and to the end with nobody else
  around;
* `Routine.Ensures I Q` — with every other routine keeping `I`, the routine **keeps `I` too, does
  not fail and answers as `Q` says**;
* `ensures_bind`, `ensures_get`, `ensures_modify` — the rules for it;
* `step`, `System` — routines that are called, resumed and stopped in any order;
* `sound_of_interleaving` — **in every interleaving** the state keeps `I` and every routine will
  answer as its `Q` says.
-/

namespace Pynixd.Routines

open Runs

variable {σ α β ρ : Type}

/-- A computation on a shared state. -/
inductive Routine (σ α : Type) where
  | done (a : α)
  | fail
  | act (f : σ → σ) (k : σ → Routine σ α)
  | pause (k : Routine σ α)

namespace Routine

/-- One routine, and then what is made of its answer. -/
def bind : Routine σ α → (α → Routine σ β) → Routine σ β
  | done a, g => g a
  | fail, _ => fail
  | act f k, g => act f fun s => (k s).bind g
  | pause k, g => pause (k.bind g)

instance : Monad (Routine σ) where
  pure := done
  bind := bind

def get : Routine σ σ := act id done

def modify (f : σ → σ) : Routine σ Unit := act f fun _ => done ()

def yield : Routine σ Unit := pause (done ())

/-- As far as the next pause. -/
def advance : Routine σ α → σ → Routine σ α × σ
  | done a, s => (done a, s)
  | fail, s => (fail, s)
  | act f k, s => (k s).advance (f s)
  | pause k, s => (pause k, s)

/-- From one pause to the next. -/
def resume : Routine σ α → σ → Routine σ α × σ
  | pause k, s => k.advance s
  | t, s => (t, s)

/-- To the end, with nobody else around. -/
def alone : Routine σ α → σ → Option α × σ
  | done a, s => (some a, s)
  | fail, s => (none, s)
  | act f k, s => (k s).alone (f s)
  | pause k, s => k.alone s

/-! ## What a routine ensures -/

/-- With every other routine keeping `I`, the routine keeps it and answers as `Q` says. -/
def Ensures (I : σ → Prop) (Q : α → Prop) : Routine σ α → Prop
  | done a => Q a
  | fail => False
  | act f k => ∀ s, I s → I (f s) ∧ (k s).Ensures I Q
  | pause k => k.Ensures I Q

section Rules

variable {I : σ → Prop} {P : α → Prop} {Q : β → Prop}

theorem ensures_pure {a : α} (h : P a) : (pure a : Routine σ α).Ensures I P := h

variable {t : Routine σ α} {s : σ}

theorem ensures_mono {P' : α → Prop} (hP : ∀ a, P a → P' a)
    (ht : t.Ensures I P) : t.Ensures I P' := by
  induction t with
  | done a => exact hP a ht
  | fail => exact ht
  | act f k ih => exact fun s hs => ⟨(ht s hs).1, ih s (ht s hs).2⟩
  | pause k ih => exact ih ht

/-- **The rule for a sequence.** -/
theorem ensures_bind {g : α → Routine σ β} (ht : t.Ensures I P)
    (hg : ∀ a, P a → (g a).Ensures I Q) : (t >>= g).Ensures I Q := by
  induction t with
  | done a => exact hg a ht
  | fail => exact ht.elim
  | act f k ih => exact fun s hs => ⟨(ht s hs).1, ih s (ht s hs).2⟩
  | pause k ih => exact ih ht

theorem ensures_get : (get : Routine σ σ).Ensures I I := fun _ hs => ⟨hs, hs⟩

theorem ensures_modify {f : σ → σ} (h : ∀ s, I s → I (f s)) : (modify f).Ensures I fun _ => True :=
  fun s hs => ⟨h s hs, trivial⟩

theorem ensures_yield : (yield : Routine σ Unit).Ensures I fun _ => True := trivial

/-- What is ensured lasts from pause to pause. -/
theorem ensures_advance (ht : t.Ensures I P) (hs : I s) :
    (t.advance s).1.Ensures I P ∧ I (t.advance s).2 := by
  induction t generalizing s with
  | done a => exact ⟨ht, hs⟩
  | fail => exact ht.elim
  | act f k ih => exact ih s (ht s hs).2 (ht s hs).1
  | pause k ih => exact ⟨ht, hs⟩

theorem ensures_resume (ht : t.Ensures I P) (hs : I s) :
    (t.resume s).1.Ensures I P ∧ I (t.resume s).2 := by
  cases t with
  | pause k => exact ensures_advance (t := k) ht hs
  | done a => exact ⟨ht, hs⟩
  | fail => exact ht.elim
  | act f k => exact ⟨ht, hs⟩

/-- **A routine that is left alone ends**, with an answer as ensured. -/
theorem ensures_alone (ht : t.Ensures I P) (hs : I s) :
    (∃ a, (t.alone s).1 = some a ∧ P a) ∧ I (t.alone s).2 := by
  induction t generalizing s with
  | done a => exact ⟨⟨a, rfl, ht⟩, hs⟩
  | fail => exact ht.elim
  | act f k ih => exact ih s (ht s hs).2 (ht s hs).1
  | pause k ih => exact ih ht hs

end Rules

end Routine

/-! ## Interleavings -/

/-- The shared state, and every call with its routine; a call that was stopped has none. -/
structure System (ρ σ α : Type) where
  shared : σ
  calls : List (ρ × Option (Routine σ α))

/-- What can happen: a call, the end of a pause, and the end of a call in a pause. -/
inductive Event (ρ : Type) where
  | call (request : ρ)
  | resume (i : Nat)
  | stop (i : Nat)

def System.routine (s : System ρ σ α) (i : Nat) : Option (ρ × Routine σ α) :=
  s.calls[i]?.bind fun call => call.2.map (call.1, ·)

def step (prog : ρ → Routine σ α) (s : System ρ σ α) : Event ρ → Option (System ρ σ α)
  | .call request =>
    let next := (prog request).advance s.shared
    some ⟨next.2, s.calls ++ [(request, some next.1)]⟩
  | .resume i =>
    (s.routine i).map fun call =>
      let next := call.2.resume s.shared
      ⟨next.2, s.calls.set i (call.1, some next.1)⟩
  | .stop i => (s.routine i).map fun call => { s with calls := s.calls.set i (call.1, none) }

section Sound

variable {I : σ → Prop} {Q : ρ → α → Prop} {prog : ρ → Routine σ α} {s t : System ρ σ α}

/-- The state keeps `I`, and so does every routine, which answers as its `Q` says. -/
structure Sound (I : σ → Prop) (Q : ρ → α → Prop) (s : System ρ σ α) : Prop where
  shared : I s.shared
  calls : ∀ call ∈ s.calls, ∀ routine, call.2 = some routine → routine.Ensures I (Q call.1)

theorem Sound.of_task (h : Sound I Q s) {i : Nat} {call : ρ × Routine σ α}
    (hcall : s.routine i = some call) : call.2.Ensures I (Q call.1) := by
  obtain ⟨call', hget, hmap⟩ := Option.bind_eq_some_iff.1 hcall
  obtain ⟨routine, htask, rfl⟩ := Option.map_eq_some_iff.1 hmap
  exact h.calls call' (List.mem_of_getElem? hget) routine htask

theorem Sound.set (h : Sound I Q s) {shared : σ} (hshared : I shared) {i : Nat} {request : ρ}
    {routine : Option (Routine σ α)} (htask : ∀ t, routine = some t → t.Ensures I (Q request)) :
    Sound I Q ⟨shared, s.calls.set i (request, routine)⟩ := by
  refine ⟨hshared, fun call hcall => ?_⟩
  rcases List.mem_or_eq_of_mem_set hcall with hold | rfl
  · exact h.calls call hold
  · exact htask

theorem sound_step (h : Sound I Q s) {e : Event ρ}
    (hprog : ∀ request, e = .call request → (prog request).Ensures I (Q request))
    (hstep : step prog s e = some t) : Sound I Q t := by
  cases e with
  | call request =>
    obtain rfl := Option.some.inj hstep
    obtain ⟨htask, hshared⟩ := Routine.ensures_advance (hprog request rfl) h.shared
    refine ⟨hshared, fun call hcall routine hsome => ?_⟩
    rcases List.mem_append.1 hcall with hold | hnew
    · exact h.calls call hold routine hsome
    · obtain rfl := List.mem_singleton.1 hnew
      obtain rfl := Option.some.inj hsome
      exact htask
  | resume i =>
    obtain ⟨call, hcall, rfl⟩ := Option.map_eq_some_iff.1 hstep
    obtain ⟨htask, hshared⟩ := Routine.ensures_resume (h.of_task hcall) h.shared
    refine h.set hshared fun routine hsome => ?_
    obtain rfl := Option.some.inj hsome
    exact htask
  | stop i =>
    obtain ⟨call, _, rfl⟩ := Option.map_eq_some_iff.1 hstep
    exact h.set h.shared nofun

/-- **In every interleaving** the state keeps `I`, and every routine will answer as its `Q` says. -/
theorem sound_of_interleaving {es : List (Event ρ)}
    (hprog : ∀ request, .call request ∈ es → (prog request).Ensures I (Q request))
    (h : Sound I Q s) (hrun : run (step prog) s es = some t) : Sound I Q t := by
  induction es generalizing s with
  | nil =>
    obtain rfl : s = t := by simpa using hrun
    exact h
  | cons e es ih =>
    obtain ⟨u, hu, hrest⟩ := run_cons_eq_some.1 hrun
    refine ih (fun request hmem => hprog request (List.mem_cons_of_mem e hmem)) ?_ hrest
    exact sound_step h (fun request he => hprog request (he ▸ List.mem_cons_self)) hu

end Sound

end Pynixd.Routines
