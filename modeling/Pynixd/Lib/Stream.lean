import Mathlib.Data.List.Basic
import Mathlib.Data.Nat.ModEq
import Mathlib.Tactic.Ring

/-!
# Readers over a token stream

A reader is a program that asks for tokens, a number of them at a time, and ends in
an answer or a failure.  What it asks *of* is a `Source`: a plain list of tokens, or
anything else that can answer such a request and remember where it stands.  A failed
read keeps the state of its source, because a reader that gives up half way leaves
the stream standing somewhere.

* `Reader.run` — a reader against a source, with `run_bind`;
* `Reads r bs a` — on any list that starts with `bs`, the reader answers `a` and stops
  **exactly** behind `bs`, with `Reads.pure`, `Reads.bind`, `Reads.map`;
* `reads_of_run` — a reader that answered on one list answers alike on every list that
  starts with what it took;
* `Reads.error_of_prefix` — no proper front of what a reader takes is enough;
* `leBytes`, `ofLe` — little-endian numbers, with `ofLe_leBytes`.
-/

namespace TokenStream

open List

variable {τ ε σ α β : Type}

/-- A program that asks for tokens. -/
inductive Reader (τ ε α : Type) where
  | done (a : α)
  | fail (e : ε)
  /-- Ask for `n` tokens and go on with them. -/
  | ask (n : Nat) (k : List τ → Reader τ ε α)

namespace Reader

/-- One reader, then the next on its answer. -/
def bind (r : Reader τ ε α) (f : α → Reader τ ε β) : Reader τ ε β :=
  match r with
  | .done a => f a
  | .fail e => .fail e
  | .ask n k => .ask n fun bs => (k bs).bind f

instance : Monad (Reader τ ε) where
  pure := .done
  bind := Reader.bind

end Reader

/-- Something that answers requests for tokens. -/
structure Source (τ ε σ : Type) where
  /-- The next `n` tokens, or why there are none, and the state it leaves. -/
  pull : Nat → σ → Except ε (List τ) × σ

/-- A reader against a source: its answer or failure, and where the source stands. -/
def Reader.run (src : Source τ ε σ) : Reader τ ε α → σ → Except ε α × σ
  | .done a, s => (.ok a, s)
  | .fail e, s => (.error e, s)
  | .ask n k, s =>
    match src.pull n s with
    | (.ok bs, s') => (k bs).run src s'
    | (.error e, s') => (.error e, s')

/-- A list of tokens as a source.  A request past its end fails with `eof` and leaves
nothing. -/
def flat (eof : ε) : Source τ ε (List τ) where
  pull n s := if n ≤ s.length then (.ok (s.take n), s.drop n) else (.error eof, [])

def exactly (n : Nat) : Reader τ ε (List τ) := .ask n .done

/-- `r`, `n` times over, with the answers in order. -/
def replicate (n : Nat) (r : Reader τ ε α) : Reader τ ε (List α) :=
  match n with
  | 0 => pure []
  | n + 1 => do
    let a ← r
    let as ← replicate n r
    pure (a :: as)

/-! ## One step at a time -/

@[simp] theorem run_pure (src : Source τ ε σ) (a : α) (s : σ) :
    (pure a : Reader τ ε α).run src s = (.ok a, s) := rfl

@[simp] theorem run_fail (src : Source τ ε σ) (e : ε) (s : σ) :
    (Reader.fail e : Reader τ ε α).run src s = (.error e, s) := rfl

/-- Two readers in a row: the second runs where the first one stopped, and a failure
of the first one is the failure of both. -/
theorem run_bind (src : Source τ ε σ) (r : Reader τ ε α) (f : α → Reader τ ε β) (s : σ) :
    (r >>= f).run src s =
      match r.run src s with
      | (.ok a, s') => (f a).run src s'
      | (.error e, s') => (.error e, s') := by
  show (r.bind f).run src s = _
  induction r generalizing s with
  | done a => rfl
  | fail e => rfl
  | ask n k ih =>
    simp only [Reader.bind, Reader.run]
    rcases src.pull n s with ⟨bs | e, s'⟩
    · rfl
    · exact ih _ s'

variable {r : Reader τ ε α} {a : α} {eof : ε}

variable {bs : List τ} {src : Source τ ε σ} {f : α → Reader τ ε β} {s s' : σ}

theorem run_bind_of_ok (h : r.run src s = (.ok a, s')) :
    (r >>= f).run src s = (f a).run src s' := by
  rw [run_bind, h]

theorem run_bind_of_error {e : ε} (h : r.run src s = (.error e, s')) :
    (r >>= f).run src s = (.error e, s') := by
  rw [run_bind, h]

theorem run_map (src : Source τ ε σ) (g : α → β) (r : Reader τ ε α) (s : σ) :
    (g <$> r).run src s = ((r.run src s).1.map g, (r.run src s).2) := by
  have h : (g <$> r) = r >>= fun x => pure (g x) := rfl
  rw [h, run_bind]
  rcases r.run src s with ⟨e | a, s'⟩ <;> rfl

/-! ## Where a reader stops -/

/-- On every list that starts with `bs`, `r` answers `a` and leaves exactly what comes
after `bs`. -/
def Reads (eof : ε) (r : Reader τ ε α) (bs : List τ) (a : α) : Prop :=
  ∀ rest, r.run (flat eof) (bs ++ rest) = (.ok a, rest)

namespace Reads

variable {eof : ε}

theorem pure (a : α) : Reads eof (Pure.pure a : Reader τ ε α) [] a := fun _ => rfl

variable {bs : List τ} {r : Reader τ ε α} {a : α} {f : α → Reader τ ε β} {b : β}

theorem bind {bs cs : List τ} (hr : Reads eof r bs a) (hf : Reads eof (f a) cs b) :
    Reads eof (r >>= f) (bs ++ cs) b := by
  intro rest
  rw [append_assoc, run_bind_of_ok (hr _)]
  exact hf rest

theorem bind_pure (hr : Reads eof r bs a) (hf : f a = Pure.pure b) : Reads eof (r >>= f) bs b := by
  have h := bind hr (hf ▸ pure b : Reads eof (f a) [] b)
  rwa [append_nil] at h

theorem map (g : α → β) (hr : Reads eof r bs a) : Reads eof (g <$> r) bs (g a) :=
  bind_pure hr rfl

theorem exactly (bs : List τ) : Reads eof (TokenStream.exactly bs.length) bs bs := by
  intro rest
  simp [TokenStream.exactly, Reader.run, flat]

end Reads

/-- **A reader looks no further than it reads**: one that answered on a list took a
front of it, and answers alike on every list with that front. -/
theorem reads_of_run {s t : List τ}
    (h : r.run (flat eof) s = (.ok a, t)) : ∃ bs, s = bs ++ t ∧ Reads eof r bs a := by
  induction r generalizing s with
  | done b =>
    obtain ⟨rfl, rfl⟩ : b = a ∧ s = t := by simpa [Reader.run] using h
    exact ⟨[], rfl, Reads.pure b⟩
  | fail e => simp [Reader.run] at h
  | ask n k ih =>
    by_cases hn : n ≤ s.length
    · have hk : (k (s.take n)).run (flat eof) (s.drop n) = (.ok a, t) := by
        simpa [Reader.run, flat, hn] using h
      obtain ⟨bs, hbs, hreads⟩ := ih _ hk
      have hlen : (s.take n).length = n := length_take_of_le hn
      refine ⟨s.take n ++ bs, ?_, fun rest => ?_⟩
      · rw [append_assoc, ← hbs, take_append_drop]
      · have hask : (exactly (s.take n).length : Reader τ ε (List τ)).run (flat eof)
            (s.take n ++ (bs ++ rest)) = (.ok (s.take n), bs ++ rest) := Reads.exactly _ _
        rw [hlen] at hask
        rw [append_assoc]
        exact (run_bind_of_ok (f := k) hask).trans (hreads rest)
    · simp [Reader.run, flat, hn] at h

theorem Reads.of_map {g : α → β} {b : β}
    (h : Reads eof (g <$> r) bs b) : ∃ a, g a = b ∧ Reads eof r bs a := by
  have hrun := h []
  rw [run_map] at hrun
  rcases hr : r.run (flat eof) (bs ++ []) with ⟨e | a, t⟩
  · rw [hr] at hrun
    cases hrun
  · rw [hr] at hrun
    obtain ⟨rfl, rfl⟩ : g a = b ∧ t = [] := by simpa [Except.map] using hrun
    obtain ⟨cs, hcs, hreads⟩ := reads_of_run hr
    rw [append_nil, append_nil] at hcs
    exact ⟨a, rfl, hcs ▸ hreads⟩

/-- **No proper front of what a reader takes is enough for it.** -/
theorem Reads.error_of_prefix {bs cs : List τ}
    (h : Reads eof r bs a) (hfront : cs <+: bs) (hne : cs ≠ bs) :
    ∃ e t, r.run (flat eof) cs = (.error e, t) := by
  obtain ⟨more, rfl⟩ := hfront
  rcases hrun : r.run (flat eof) cs with ⟨e | b, t⟩
  · exact ⟨e, t, rfl⟩
  · -- it would stop there on the whole list too
    obtain ⟨ds, rfl, hds⟩ := reads_of_run hrun
    have hwhole := h []
    rw [append_nil, append_assoc, hds] at hwhole
    have hmore : t ++ more = [] := (Prod.mk.inj hwhole).2
    exact absurd (by simp [(append_eq_nil_iff.1 hmore).2]) hne

/-! ## Readers that do the same -/

/-- Two readers that answer alike, and leave a source alike, wherever it stands. -/
def Alike (src : Source τ ε σ) (r r' : Reader τ ε α) : Prop := ∀ s, r.run src s = r'.run src s

namespace Alike

variable {src : Source τ ε σ}

theorem refl (r : Reader τ ε α) : Alike src r r := fun _ => rfl

theorem bind {r r' : Reader τ ε α} {f f' : α → Reader τ ε β} (hr : Alike src r r')
    (hf : ∀ a s t, r.run src s = (.ok a, t) → Alike src (f a) (f' a)) :
    Alike src (r >>= f) (r' >>= f') := by
  intro s
  rw [run_bind, run_bind, ← hr s]
  rcases hrun : r.run src s with ⟨e | a, t⟩
  · rfl
  · exact hf a s t hrun t

theorem map {r r' : Reader τ ε α} (g : α → β) (hr : Alike src r r') :
    Alike src (g <$> r) (g <$> r') :=
  bind hr fun a _ _ _ => refl (Pure.pure (g a))

theorem replicate {r r' : Reader τ ε α} (hr : Alike src r r') (n : Nat) :
    Alike src (TokenStream.replicate n r) (TokenStream.replicate n r') := by
  induction n with
  | zero => exact refl _
  | succ n ih => exact bind hr fun a _ _ _ => bind ih fun as _ _ _ => refl _

theorem replicate_one (r : Reader τ ε α) :
    Alike src (TokenStream.replicate 1 r) ((fun a => [a]) <$> r) := by
  intro s
  rcases r.run src s with ⟨e | a, t⟩ <;> rfl

end Alike

/-! ## Readers that part -/

/-- The first reader takes some tokens, and the second one never answers the same where
they stand. -/
def Splits (eof : ε) (r r' : Reader τ ε α) : Prop :=
  ∃ bs a, Reads eof r bs a ∧ ∀ rest b t, r'.run (flat eof) (bs ++ rest) = (.ok b, t) → b ≠ a

namespace Splits

variable {eof : ε} {r r' q q' : Reader τ ε α} {f f' : α → Reader τ ε β}

theorem congr (hr : Alike (flat eof) r q) (hr' : Alike (flat eof) r' q') (h : Splits eof r r') :
    Splits eof q q' := by
  obtain ⟨bs, a, htakes, hnever⟩ := h
  refine ⟨bs, a, fun rest => by rw [← hr, htakes], fun rest b t hrun => ?_⟩
  exact hnever rest b t (by rw [hr', hrun])

theorem behind {bs : List τ} {a : α} (hq : Reads eof q bs a) (hq' : Reads eof q' bs a)
    (h : Splits eof (f a) (f' a)) : Splits eof (q >>= f) (q' >>= f') := by
  obtain ⟨cs, b, htakes, hnever⟩ := h
  refine ⟨bs ++ cs, b, hq.bind htakes, fun rest b' t hrun => hnever rest b' t ?_⟩
  rwa [append_assoc, run_bind_of_ok (hq' _)] at hrun

/-- In front of readers that can go on, and whose answers tell what was read before. -/
theorem front (h : Splits eof r r') (hgo : ∀ a, ∃ bs b, Reads eof (f a) bs b)
    (htell : ∀ a a' b s s' t t', (f a).run (flat eof) s = (.ok b, t) →
      (f' a').run (flat eof) s' = (.ok b, t') → a' = a) : Splits eof (r >>= f) (r' >>= f') := by
  obtain ⟨bs, a, htakes, hnever⟩ := h
  obtain ⟨cs, b, hcs⟩ := hgo a
  refine ⟨bs ++ cs, b, htakes.bind hcs, fun rest b' t hrun => ?_⟩
  rw [append_assoc, run_bind] at hrun
  rcases hr : r'.run (flat eof) (bs ++ (cs ++ rest)) with ⟨e | a', s'⟩
  · rw [hr] at hrun
    cases hrun
  · rw [hr] at hrun
    rintro rfl
    exact hnever (cs ++ rest) a' s' hr (htell a a' b' _ _ _ _ (hcs []) hrun)

theorem map {g : α → β} (hg : Function.Injective g) (h : Splits eof r r') :
    Splits eof (g <$> r) (g <$> r') := by
  have hgo : ∀ a, ∃ bs b, Reads eof (pure (g a) : Reader τ ε β) bs b :=
    fun a => ⟨[], g a, Reads.pure _⟩
  refine front h hgo fun a a' b s s' t t' ha ha' => ?_
  have hb : g a = b := Except.ok.inj (Prod.mk.inj ha).1
  have hb' : g a' = b := Except.ok.inj (Prod.mk.inj ha').1
  exact hg (hb'.trans hb.symm)

end Splits

/-- The reader gives up on this list by itself, not for want of tokens. -/
def Reader.givesUp : Reader τ ε α → List τ → Bool
  | .done _, _ => false
  | .fail _, _ => true
  | .ask n k, s => if n ≤ s.length then (k (s.take n)).givesUp (s.drop n) else false

theorem exists_error_of_givesUp {s : List τ}
    (h : r.givesUp s = true) : ∃ e t, r.run (flat eof) s = (.error e, t) := by
  induction r generalizing s with
  | done a => simp [Reader.givesUp] at h
  | fail e => exact ⟨e, s, rfl⟩
  | ask n k ih =>
    simp only [Reader.givesUp] at h
    split_ifs at h with hn
    obtain ⟨e, t, hrun⟩ := ih _ h
    exact ⟨e, t, by simpa [Reader.run, flat, hn] using hrun⟩

/-! ## Little-endian numbers -/

/-- The `k` low bytes of `n`, lowest first. -/
def leBytes : Nat → Nat → List UInt8
  | 0, _ => []
  | k + 1, n => UInt8.ofNat n :: leBytes k (n / 256)

/-- The number that a little-endian byte string spells. -/
def ofLe : List UInt8 → Nat
  | [] => 0
  | b :: bs => b.toNat + 256 * ofLe bs

@[simp] theorem length_leBytes (k n : Nat) : (leBytes k n).length = k := by
  induction k generalizing n with
  | zero => rfl
  | succ k ih => simp [leBytes, ih]

theorem ofLe_leBytes {k n : Nat} (h : n < 256 ^ k) : ofLe (leBytes k n) = n := by
  induction k generalizing n with
  | zero => simp at h; simp [leBytes, ofLe, h]
  | succ k ih =>
    have hn : n / 256 < 256 ^ k := by
      omega
    have hb : (UInt8.ofNat n).toNat = n % 256 := by simp
    rw [leBytes, ofLe, ih hn]
    omega

end TokenStream
