import Pynixd.Lib.Stream

/-!
# Two programs that talk to each other

A program writes tokens, drains what it wrote, asks for tokens, and ends in an answer or a
failure.  Two programs face each other over two pipes, one in each direction, and take their steps
in any order.  What a program writes stays with the writer until it is drained; a writer may hand
over a part of it before, by a rule of its own.

* `Program` — the programs, with `Program.listen` for a reader of `Lib.Stream`;
* `Step`, `Reach` — the two together, with `Reach.left` and `Reach.right`;
* `step_diamond` — steps of the two sides **commute**;
* `inevitable_iff` — an end that is reached in one order is reached in every order, and so what
  is inevitable is what holds at that end.
-/

namespace Dialogue

open List TokenStream Relation

variable {τ ε ε' α β : Type}

/-! ## Programs -/

/-- A program that writes to one pipe and reads from another. -/
inductive Program (τ ε α : Type) where
  | done (a : α)
  | fail (e : ε)
  | send (ts : List τ) (k : Program τ ε α)
  | drain (k : Program τ ε α)
  | ask (n : Nat) (k : List τ → Program τ ε α)

namespace Program

/-- One program, then the next on its answer. -/
def bind : Program τ ε α → (α → Program τ ε β) → Program τ ε β
  | .done a, f => f a
  | .fail e, _ => .fail e
  | .send ts k, f => .send ts (k.bind f)
  | .drain k, f => .drain (k.bind f)
  | .ask n k, f => .ask n fun ts => (k ts).bind f

instance : Monad (Program τ ε) where
  pure := .done
  bind := Program.bind

/-- Write what a writer produced, or fail as it did. -/
def write (wrap : ε' → ε) : Except ε' (List τ) → Program τ ε Unit
  | .ok ts => .send ts (.done ())
  | .error e => .fail (wrap e)

def flush : Program τ ε Unit := .drain (.done ())

/-- A reader, which waits where its tokens are not there yet. -/
def listen (wrap : ε' → ε) : Reader τ ε' α → Program τ ε α
  | .done a => .done a
  | .fail e => .fail (wrap e)
  | .ask n k => .ask n fun ts => listen wrap (k ts)

@[simp] theorem pure_bind (a : α) (f : α → Program τ ε β) : (pure a >>= f) = f a := rfl

@[simp] theorem bind_assoc {γ : Type} (p : Program τ ε α) (f : α → Program τ ε β)
    (g : β → Program τ ε γ) : (p >>= f) >>= g = p >>= fun a => f a >>= g := by
  induction p with
  | done a => rfl
  | fail e => rfl
  | send ts k ih => exact congrArg (Program.send ts) ih
  | drain k ih => exact congrArg Program.drain ih
  | ask n k ih => exact congrArg (Program.ask n) (funext ih)

end Program

/-! ## Pipes -/

structure Pipe (τ : Type) where
  taken : List τ
  ready : List τ
  held : List τ

namespace Pipe

def empty : Pipe τ := ⟨[], [], []⟩

def written (p : Pipe τ) : List τ := p.taken ++ p.ready ++ p.held

/-- Write: of what the writer then holds, the first `spill` tokens are handed over at once. -/
def put (spill : List τ → Nat) (p : Pipe τ) (ts : List τ) : Pipe τ where
  taken := p.taken
  ready := p.ready ++ (p.held ++ ts).take (spill (p.held ++ ts))
  held := (p.held ++ ts).drop (spill (p.held ++ ts))

def flush (p : Pipe τ) : Pipe τ := ⟨p.taken, p.ready ++ p.held, []⟩

def take (p : Pipe τ) (n : Nat) : Pipe τ :=
  ⟨p.taken ++ p.ready.take n, p.ready.drop n, p.held⟩

@[simp] theorem taken_put (spill : List τ → Nat) (p : Pipe τ) (ts : List τ) :
    (p.put spill ts).taken = p.taken := rfl

@[simp] theorem ready_append_held_put (spill : List τ → Nat) (p : Pipe τ) (ts us : List τ) :
    (p.put spill ts).ready ++ ((p.put spill ts).held ++ us) =
      p.ready ++ (p.held ++ (ts ++ us)) := by
  simp only [put, append_assoc]
  rw [← append_assoc (List.take _ _), take_append_drop, append_assoc]

@[simp] theorem flush_put (spill : List τ → Nat) (p : Pipe τ) (ts : List τ) :
    (p.put spill ts).flush = ⟨p.taken, p.ready ++ (p.held ++ ts), []⟩ := by
  have h := ready_append_held_put spill p ts []
  rw [append_nil, append_nil] at h
  rw [flush, h, taken_put]

/-- A change of a pipe that a reader does not notice: what it could take before, it takes after,
and it may as well have been taken first. -/
structure Unnoticed (w : Pipe τ → Pipe τ) : Prop where
  ready : ∀ {p n}, n ≤ p.ready.length → n ≤ (w p).ready.length
  same : ∀ {p n}, n ≤ p.ready.length → (w p).ready.take n = p.ready.take n
  take : ∀ {p n}, n ≤ p.ready.length → (w p).take n = w (p.take n)

theorem unnoticed_put (spill : List τ → Nat) (ts : List τ) :
    Unnoticed fun p : Pipe τ => p.put spill ts where
  ready h := by simp only [put, length_append]; omega
  same h := by simp only [put, take_append_of_le_length h]
  take h := by
    simp [put, Pipe.take, take_append_of_le_length h, drop_append_of_le_length h]

theorem unnoticed_flush : Unnoticed (flush : Pipe τ → Pipe τ) where
  ready h := by simp only [flush, length_append]; omega
  same h := by simp only [flush, take_append_of_le_length h]
  take h := by
    simp [flush, Pipe.take, take_append_of_le_length h, drop_append_of_le_length h]

end Pipe

/-! ## One program by itself -/

/-- A program with the pipe it writes to and the pipe it reads from. -/
structure Party (τ ε α : Type) where
  program : Program τ ε α
  out : Pipe τ
  inp : Pipe τ

/-- The next step of a program, where it has one: a program that has ended has none, and one that
waits for more tokens than lie ready has none either. -/
def Party.next (spill : List τ → Nat) : Party τ ε α → Option (Party τ ε α)
  | ⟨.send ts k, out, inp⟩ => some ⟨k, out.put spill ts, inp⟩
  | ⟨.drain k, out, inp⟩ => some ⟨k, out.flush, inp⟩
  | ⟨.ask n k, out, inp⟩ =>
    if n ≤ inp.ready.length then some ⟨k (inp.ready.take n), out, inp.take n⟩ else none
  | ⟨.done _, _, _⟩ => none
  | ⟨.fail _, _, _⟩ => none

def Locally (spill : List τ → Nat) : Party τ ε α → Party τ ε α → Prop :=
  ReflTransGen fun x y => x.next spill = some y

namespace Locally

variable {spill : List τ → Nat} {out inp : Pipe τ}

theorem write {wrap : ε' → ε} {w : Except ε' (List τ)} {ts : List τ} (h : w = .ok ts)
    (k : Unit → Program τ ε α) :
    Locally spill ⟨Program.write wrap w >>= k, out, inp⟩ ⟨k (), out.put spill ts, inp⟩ := by
  subst h
  exact .single rfl

theorem flush (k : Unit → Program τ ε α) :
    Locally spill ⟨Program.flush >>= k, out, inp⟩ ⟨k (), out.flush, inp⟩ :=
  .single rfl

variable {bs : List τ} {r : Reader τ ε' β} {a : β} {eof : ε'}

theorem listen_of_run (spill : List τ → Nat) (out : Pipe τ)
    {s t : List τ} (h : r.run (flat eof) s = (.ok a, t)) (wrap : ε' → ε) (k : β → Program τ ε α)
    (taken held : List τ) : ∃ bs, s = bs ++ t ∧
      Locally spill ⟨Program.listen wrap r >>= k, out, ⟨taken, s, held⟩⟩
        ⟨k a, out, ⟨taken ++ bs, t, held⟩⟩ := by
  induction r generalizing s taken with
  | done b =>
    obtain ⟨rfl, rfl⟩ : b = a ∧ s = t := by simpa [Reader.run] using h
    exact ⟨[], rfl, by rw [append_nil]; exact .refl⟩
  | fail e => simp [Reader.run] at h
  | ask n k' ih =>
    by_cases hn : n ≤ s.length
    · have hk : (k' (s.take n)).run (flat eof) (s.drop n) = (.ok a, t) := by
        simpa [Reader.run, flat, hn] using h
      obtain ⟨bs, hbs, hgo⟩ := ih _ hk (taken ++ s.take n)
      refine ⟨s.take n ++ bs, by rw [append_assoc, ← hbs, take_append_drop], ?_⟩
      rw [← append_assoc]
      exact hgo.head (if_pos hn)
    · simp [Reader.run, flat, hn] at h

/-- A reader that takes `bs` takes it once it lies ready, and leaves what comes after. -/
theorem listen (h : Reads eof r bs a)
    (wrap : ε' → ε) (k : β → Program τ ε α) (taken rest held : List τ) :
    Locally spill ⟨Program.listen wrap r >>= k, out, ⟨taken, bs ++ rest, held⟩⟩
      ⟨k a, out, ⟨taken ++ bs, rest, held⟩⟩ := by
  obtain ⟨cs, hcs, hgo⟩ := listen_of_run spill out (h rest) wrap k taken held
  obtain rfl := append_cancel_right hcs
  exact hgo

theorem listen_all (h : Reads eof r bs a)
    (wrap : ε' → ε) (k : β → Program τ ε α) (taken held : List τ) :
    Locally spill ⟨Program.listen wrap r >>= k, out, ⟨taken, bs, held⟩⟩
      ⟨k a, out, ⟨taken ++ bs, [], held⟩⟩ := by
  have hgo : Locally spill ⟨Program.listen wrap r >>= k, out, ⟨taken, bs ++ [], held⟩⟩ _ :=
    listen h wrap k taken [] held
  rwa [append_nil] at hgo

end Locally

/-! ## The two together -/

/-- Two programs that face each other. -/
structure Talk (τ ε α β : Type) where
  left : Program τ ε α
  right : Program τ ε β
  toRight : Pipe τ
  toLeft : Pipe τ

def Talk.start (left : Program τ ε α) (right : Program τ ε β) : Talk τ ε α β :=
  ⟨left, right, .empty, .empty⟩

section Steps

variable (f g : List τ → Nat)

/-- One of the two takes its next step. -/
inductive Step : Talk τ ε α β → Talk τ ε α β → Prop where
  | left {p p' q u v u' v'} (h : Party.next f ⟨p, u, v⟩ = some ⟨p', u', v'⟩) :
      Step ⟨p, q, u, v⟩ ⟨p', q, u', v'⟩
  | right {p q q' u v u' v'} (h : Party.next g ⟨q, v, u⟩ = some ⟨q', v', u'⟩) :
      Step ⟨p, q, u, v⟩ ⟨p, q', u', v'⟩

abbrev Reach : Talk τ ε α β → Talk τ ε α β → Prop := ReflTransGen (Step f g)

def Quiet (t : Talk τ ε α β) : Prop := ∀ u, ¬ Step f g t u

/-- Whatever the order of the steps is, `P` comes about. -/
inductive Inevitable (P : Talk τ ε α β → Prop) : Talk τ ε α β → Prop where
  | now {t} (h : P t) : Inevitable P t
  | later {t u} (h : Step f g t u) (hall : ∀ u, Step f g t u → Inevitable P u) : Inevitable P t

end Steps

variable {f g : List τ → Nat} {t u v : Talk τ ε α β}

variable {a a' b b' : Pipe τ} {p p' : Program τ ε α} {q : Program τ ε β} {P : Talk τ ε α β → Prop}

theorem Reach.left
    (h : Locally f ⟨p, a, b⟩ ⟨p', a', b'⟩) : Reach f g ⟨p, q, a, b⟩ ⟨p', q, a', b'⟩ :=
  ReflTransGen.lift (fun x : Party τ ε α => Talk.mk x.program q x.out x.inp)
    (fun _ _ h => Step.left h) _ _ h

theorem Reach.right {q q' : Program τ ε β}
    (h : Locally g ⟨q, b, a⟩ ⟨q', b', a'⟩) : Reach f g ⟨p, q, a, b⟩ ⟨p, q', a', b'⟩ :=
  ReflTransGen.lift (fun x : Party τ ε β => Talk.mk p x.program x.inp x.out)
    (fun _ _ h => Step.right h) _ _ h

theorem quiet_done (a : α) (b : β) (x y : Pipe τ) :
    Quiet f g (⟨.done a, .done b, x, y⟩ : Talk τ ε α β) := by
  intro u h
  cases h with
  | left h => cases h
  | right h => cases h

/-! ## The order does not matter -/

/-- A step is a write or a read.  A write can be taken whatever the pipes hold. -/
theorem next_cases (h : Party.next f ⟨p, a, b⟩ = some ⟨p', a', b'⟩) :
    (∃ w, Pipe.Unnoticed w ∧ a' = w a ∧ b' = b ∧
        ∀ x y, Party.next f ⟨p, x, y⟩ = some ⟨p', w x, y⟩) ∨
      ∃ n k, p = .ask n k ∧ n ≤ b.ready.length ∧ p' = k (b.ready.take n) ∧ a' = a ∧
        b' = b.take n := by
  cases p with
  | done x => cases h
  | fail e => cases h
  | send ts k =>
    cases h
    exact .inl ⟨_, Pipe.unnoticed_put f ts, rfl, rfl, fun _ _ => rfl⟩
  | drain k =>
    cases h
    exact .inl ⟨_, Pipe.unnoticed_flush, rfl, rfl, fun _ _ => rfl⟩
  | ask n k =>
    by_cases hn : n ≤ b.ready.length
    · obtain ⟨rfl, rfl, rfl⟩ := Party.mk.inj (Option.some.inj ((if_pos hn).symm.trans h))
      exact .inr ⟨n, k, rfl, hn, rfl, rfl, rfl⟩
    · cases (if_neg hn).symm.trans h

theorem next_ask {n : Nat} {k : List τ → Program τ ε α} (h : n ≤ b.ready.length) :
    Party.next f ⟨.ask n k, a, b⟩ = some ⟨k (b.ready.take n), a, b.take n⟩ := if_pos h

theorem next_comm {q q' : Program τ ε β} {a b a₁ b₁ a₂ b₂ : Pipe τ}
    (hp : Party.next f ⟨p, a, b⟩ = some ⟨p', a₁, b₁⟩)
    (hq : Party.next g ⟨q, b, a⟩ = some ⟨q', b₂, a₂⟩) :
    ∃ a₃ b₃, Party.next f ⟨p, a₂, b₂⟩ = some ⟨p', a₃, b₃⟩ ∧
      Party.next g ⟨q, b₁, a₁⟩ = some ⟨q', b₃, a₃⟩ := by
  rcases next_cases hp with ⟨w, hw, rfl, rfl, hp'⟩ | ⟨n, k, rfl, hn, rfl, rfl, rfl⟩
  · rcases next_cases hq with ⟨w', -, rfl, rfl, hq'⟩ | ⟨m, k', rfl, hm, rfl, rfl, rfl⟩
    · exact ⟨_, _, hp' _ _, hq' _ _⟩
    · refine ⟨_, _, hp' _ _, ?_⟩
      rw [next_ask (hw.ready hm), hw.same hm, hw.take hm]
  · rcases next_cases hq with ⟨w', hw', rfl, rfl, hq'⟩ | ⟨m, k', rfl, hm, rfl, rfl, rfl⟩
    · refine ⟨_, _, ?_, hq' _ _⟩
      rw [next_ask (hw'.ready hn), hw'.same hn, hw'.take hn]
    · exact ⟨_, _, next_ask hn, next_ask hm⟩

/-- Two steps from one place lead on to a common one. -/
theorem step_diamond (hu : Step f g t u) (hv : Step f g t v) :
    u = v ∨ ∃ w, Step f g u w ∧ Step f g v w := by
  cases hu with
  | left hp =>
    cases hv with
    | left hp' =>
      obtain ⟨rfl, rfl, rfl⟩ := Party.mk.inj (Option.some.inj (hp.symm.trans hp'))
      exact .inl rfl
    | right hq =>
      obtain ⟨_, _, hp₂, hq₁⟩ := next_comm hp hq
      exact .inr ⟨_, .right hq₁, .left hp₂⟩
  | right hq =>
    cases hv with
    | left hp =>
      obtain ⟨_, _, hp₂, hq₁⟩ := next_comm hp hq
      exact .inr ⟨_, .left hp₂, .right hq₁⟩
    | right hq' =>
      obtain ⟨rfl, rfl, rfl⟩ := Party.mk.inj (Option.some.inj (hq.symm.trans hq'))
      exact .inl rfl

/-- An end that is inevitable from here is inevitable from every place that shares a step. -/
theorem Inevitable.beside (hquiet : Quiet f g v) (h : Inevitable f g (· = v) t) {s : Talk τ ε α β}
    (hst : Step f g s t) (hsu : Step f g s u) : Inevitable f g (· = v) u := by
  induction h generalizing s u with
  | now ht =>
    subst ht
    rcases step_diamond hst hsu with rfl | ⟨w, hw, -⟩
    · exact .now rfl
    · exact (hquiet w hw).elim
  | later hstep hall ih =>
    rcases step_diamond hst hsu with rfl | ⟨w, hw, huw⟩
    · exact .later hstep hall
    · exact .later huw fun x hx => ih w hw huw hx

/-- **An end that is reached in one order is reached in every order.** -/
theorem inevitable_of_reach (hquiet : Quiet f g v) (h : Reach f g t v) :
    Inevitable f g (· = v) t := by
  induction h using ReflTransGen.head_induction_on with
  | refl => exact .now rfl
  | head hstep _ ih => exact .later hstep fun u hu => ih.beside hquiet hstep hu

theorem Inevitable.mono {P Q : Talk τ ε α β → Prop} (h : Inevitable f g P t)
    (hPQ : ∀ u, P u → Q u) : Inevitable f g Q t := by
  induction h with
  | now ht => exact .now (hPQ _ ht)
  | later hstep _ ih => exact .later hstep ih

theorem Inevitable.exists_reach (h : Inevitable f g P t) : ∃ u, Reach f g t u ∧ P u := by
  induction h with
  | now ht => exact ⟨_, .refl, ht⟩
  | later hstep _ ih =>
    obtain ⟨u, hu, hP⟩ := ih _ hstep
    exact ⟨u, hu.head hstep, hP⟩

theorem eq_of_reach (hv : Quiet f g v) (h : Inevitable f g (· = v) t) (hu : Quiet f g u)
    (hreach : Reach f g t u) : u = v := by
  induction hreach using ReflTransGen.head_induction_on with
  | refl =>
    cases h with
    | now h => exact h
    | later hstep _ => exact (hu _ hstep).elim
  | head hstep _ ih =>
    cases h with
    | now h => exact (hv _ (h ▸ hstep)).elim
    | later _ hall => exact ih (hall _ hstep)

/-- **What is inevitable is what holds at the end**: of two programs that reach an end in one
order, and of what can hold at an end only. -/
theorem inevitable_iff (hquiet : Quiet f g v) (h : Reach f g t v)
    (hends : ∀ u, P u → Quiet f g u) : Inevitable f g P t ↔ P v := by
  have hv := inevitable_of_reach hquiet h
  constructor
  · intro hP
    obtain ⟨u, hu, hPu⟩ := hP.exists_reach
    rwa [← eq_of_reach hquiet hv (hends u hPu) hu]
  · intro hP
    exact hv.mono fun u hu => hu ▸ hP

end Dialogue
