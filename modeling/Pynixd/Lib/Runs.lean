import Mathlib.Data.List.Basic

/-!
# Runs of a system that takes events

A system is a partial function of its state and an event; an event that the state does
not allow has no successor.

* `inv_of_guarded` — **the invariant rule**: what holds at the start and survives every
  step that meets `ok` holds after every guarded run, and so in every state on the way;
* `inv_of_run` — the same without a guard;
* `guarded_iff` — where a step keeps the invariant **exactly when** it meets `ok`, the runs
  with the invariant in every state are the guarded ones;
* `guarded_congr` — guards that agree where the invariant holds guard the same runs;
* `guarded_of_guarded` — a guard that keeps the invariant and gives another one under it;
* `guarded_of_absent` — what every step outside the guard leaves behind for good is **evidence**:
  where it is missing, the run was guarded.
-/

namespace Runs

variable {σ ε : Type} {step : σ → ε → Option σ} {ok : σ → ε → Prop} {Inv : σ → Prop}

/-- The state after a list of events. -/
def run (step : σ → ε → Option σ) : σ → List ε → Option σ
  | s, [] => some s
  | s, e :: es => (step s e).bind fun t => run step t es

/-- Every event meets `ok` in the state it happens in. -/
def Guarded (step : σ → ε → Option σ) (ok : σ → ε → Prop) : σ → List ε → Prop
  | _, [] => True
  | s, e :: es => ok s e ∧ ∀ t, step s e = some t → Guarded step ok t es

@[simp] theorem run_nil (s : σ) : run step s [] = some s := rfl

theorem run_cons_eq_some {s t : σ} {e : ε} {es : List ε} :
    run step s (e :: es) = some t ↔ ∃ u, step s e = some u ∧ run step u es = some t := by
  simp [run, Option.bind_eq_some_iff]

theorem run_some {f : σ → ε → σ} (s : σ) (es : List ε) :
    run (fun s e => some (f s e)) s es = some (es.foldl f s) := by
  induction es generalizing s with
  | nil => rfl
  | cons e es ih => exact ih (f s e)

theorem guarded_cons {f : σ → ε → σ} {s : σ} {e : ε} {es : List ε} :
    Guarded (fun s e => some (f s e)) ok s (e :: es) ↔
      ok s e ∧ Guarded (fun s e => some (f s e)) ok (f s e) es := by
  simp [Guarded]

/-- A guard holds of every event in the state that the events before it lead to. -/
theorem guarded_after {s t : σ} {es rest : List ε} {e : ε} (hrun : run step s es = some t)
    (h : Guarded step ok s (es ++ e :: rest)) : ok t e := by
  induction es generalizing s with
  | nil =>
    obtain rfl : s = t := by simpa using hrun
    exact h.1
  | cons e' es ih =>
    obtain ⟨u, hu, hrest⟩ := run_cons_eq_some.1 hrun
    exact ih hrest (h.2 u hu)

/-- Whether a list of events is guarded can be tried out. -/
instance decidableGuarded (step : σ → ε → Option σ) (ok : σ → ε → Prop)
    [∀ s e, Decidable (ok s e)] : ∀ s es, Decidable (Guarded step ok s es)
  | _, [] => isTrue trivial
  | s, e :: es =>
    match hstep : step s e with
    | none => decidable_of_iff (ok s e) (by simp [Guarded, hstep])
    | some t =>
      have := decidableGuarded step ok t es
      decidable_of_iff (ok s e ∧ Guarded step ok t es) (by simp [Guarded, hstep])

/-- **The invariant rule for guarded runs.** -/
theorem inv_of_guarded (hstep : ∀ s e t, Inv s → ok s e → step s e = some t → Inv t)
    {s t : σ} {es : List ε} (hs : Inv s) (hok : Guarded step ok s es)
    (hrun : run step s es = some t) : Inv t := by
  induction es generalizing s with
  | nil =>
    obtain rfl : s = t := by simpa using hrun
    exact hs
  | cons e es ih =>
    obtain ⟨u, hu, hrest⟩ := run_cons_eq_some.1 hrun
    exact ih (hstep s e u hs hok.1 hu) (hok.2 u hu) hrest

theorem guarded_of_forall (h : ∀ s e, ok s e) (s : σ) (es : List ε) : Guarded step ok s es := by
  induction es generalizing s with
  | nil => trivial
  | cons e es ih => exact ⟨h s e, fun t _ => ih t⟩

theorem inv_of_run (hstep : ∀ s e t, Inv s → step s e = some t → Inv t)
    {s t : σ} {es : List ε} (hs : Inv s) (hrun : run step s es = some t) : Inv t :=
  inv_of_guarded (fun s e t hs _ => hstep s e t hs) hs
    (guarded_of_forall (fun _ _ => trivial) s es) hrun

/-- **A measure that every step lowers bounds the length of a run.** -/
theorem length_add_le_of_lowers {μ : σ → Nat} (hinv : ∀ s e t, Inv s → step s e = some t → Inv t)
    (hlowers : ∀ s e t, Inv s → step s e = some t → μ t < μ s) {s t : σ} {es : List ε}
    (hs : Inv s) (hrun : run step s es = some t) : es.length + μ t ≤ μ s := by
  induction es generalizing s with
  | nil =>
    obtain rfl : s = t := by simpa using hrun
    simp
  | cons e es ih =>
    obtain ⟨u, hu, hrest⟩ := run_cons_eq_some.1 hrun
    have hlow := hlowers s e u hs hu
    have hle := ih (hinv s e u hs hu) hrest
    simp only [List.length_cons]
    omega

/-- **Two guards that agree** wherever the invariant holds guard the same runs. -/
theorem guarded_congr {ok' : σ → ε → Prop} (hinv : ∀ s e t, Inv s → step s e = some t → Inv t)
    (hok : ∀ s e, Inv s → (ok s e ↔ ok' s e)) {s : σ} (hs : Inv s) (es : List ε) :
    Guarded step ok s es ↔ Guarded step ok' s es := by
  induction es generalizing s with
  | nil => exact Iff.rfl
  | cons e es ih =>
    refine and_congr (hok s e hs) (forall_congr' fun t => ?_)
    exact imp_congr_right fun ht => ih (hinv s e t hs ht)

/-- **What a guard buys**: where the guard keeps the invariant and gives `ok'` under it, a run
that meets the guard meets `ok'` at every step. -/
theorem guarded_of_guarded {ok' : σ → ε → Prop}
    (hinv : ∀ s e t, Inv s → ok s e → step s e = some t → Inv t)
    (hok : ∀ s e, Inv s → ok s e → ok' s e) {s : σ} (hs : Inv s) {es : List ε}
    (h : Guarded step ok s es) : Guarded step ok' s es := by
  induction es generalizing s with
  | nil => trivial
  | cons e es ih => exact ⟨hok s e hs h.1, fun t ht => ih (hinv s e t hs h.1 ht) (h.2 t ht)⟩

/-- **An exact guard.** -/
theorem guarded_iff (htotal : ∀ s e, ∃ t, step s e = some t)
    (hstep : ∀ s e t, Inv s → step s e = some t → (Inv t ↔ ok s e)) {s : σ} (hs : Inv s)
    (es : List ε) : (∀ k t, run step s (es.take k) = some t → Inv t) ↔ Guarded step ok s es := by
  induction es generalizing s with
  | nil =>
    simp only [List.take_nil, run_nil, Guarded, iff_true]
    rintro k t ⟨⟩
    exact hs
  | cons e es ih =>
    obtain ⟨u, hu⟩ := htotal s e
    have htail : Guarded step ok s (e :: es) ↔ ok s e ∧ Guarded step ok u es := by
      simp [Guarded, hu]
    have hrun : ∀ k, run step s ((e :: es).take (k + 1)) = run step u (es.take k) := by
      simp [run, hu]
    rw [htail]
    constructor
    · intro h
      have hu' : Inv u := h 1 u (by rw [hrun]; rfl)
      exact ⟨(hstep s e u hs hu).1 hu', (ih hu').1 fun k t ht => h (k + 1) t (by rwa [hrun])⟩
    · rintro ⟨hok, hrest⟩ k t ht
      cases k with
      | zero =>
        obtain rfl : s = t := by simpa using ht
        exact hs
      | succ k =>
        rw [hrun] at ht
        exact (ih ((hstep s e u hs hu).2 hok)).2 hrest k t ht

/-- **A guard that leaves evidence.** -/
theorem guarded_of_absent {Bad : σ → Prop} (hinv : ∀ s e t, Inv s → step s e = some t → Inv t)
    (hkeep : ∀ s e t, Bad s → step s e = some t → Bad t)
    (hbad : ∀ s e t, Inv s → ¬ok s e → step s e = some t → Bad t) {s t : σ} {es : List ε}
    (hs : Inv s) (hrun : run step s es = some t) (hgood : ¬Bad t) : Guarded step ok s es := by
  induction es generalizing s with
  | nil => trivial
  | cons e es ih =>
    obtain ⟨u, hu, hrest⟩ := run_cons_eq_some.1 hrun
    constructor
    · by_contra hok
      exact hgood (inv_of_run hkeep (hbad s e u hs hok hu) hrest)
    · intro v hv
      rw [hu] at hv
      cases hv
      exact ih (hinv s e u hs hu) hrest

end Runs
