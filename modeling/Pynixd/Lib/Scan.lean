import Mathlib.Data.List.Basic

/-!
# Recursive descent over a text

A hand-written parser keeps a place in its text and moves it forwards, one symbol at a
time.  It looks at the next symbol, insists on one, skips some, and goes round a loop until
a closing symbol comes.

* `parses_bracketed` — a bracketed list is parsed when its items are, over whatever they
  are collected in.
-/

namespace Scan

variable {τ ε α β σ : Type}

/-- What is left of the text, and how much of it was read. -/
structure Cursor (τ : Type) where
  rest : List τ
  pos : Nat
  deriving DecidableEq, Repr

inductive Fault (τ ε : Type) where
  | eof
  /-- Another symbol than the expected one stands at this position. -/
  | expected (want : τ) (pos : Nat) (got : τ)
  /-- A loop went round and read nothing, so it would never end. -/
  | idle
  | own (e : ε)
  deriving DecidableEq, Repr

/-- A parser moves a cursor, or stops. -/
abbrev Parser (τ ε α : Type) := StateT (Cursor τ) (Except (Fault τ ε)) α

/-- Stop, for a reason that may tell the position. -/
def stop (e : Nat → ε) : Parser τ ε α := fun cur => .error (.own (e cur.pos))

def peek : Parser τ ε τ := fun cur =>
  match cur.rest with
  | [] => .error .eof
  | c :: _ => .ok (c, cur)

def advance : Parser τ ε τ := fun cur =>
  match cur.rest with
  | [] => .error .eof
  | c :: rest => .ok (c, ⟨rest, cur.pos + 1⟩)

def expectOne [DecidableEq τ] (want : τ) : Parser τ ε Unit := fun cur =>
  match cur.rest with
  | [] => .error .eof
  | got :: rest =>
    if got = want then .ok ((), ⟨rest, cur.pos + 1⟩) else .error (.expected want cur.pos got)

def expect [DecidableEq τ] : List τ → Parser τ ε Unit
  | [] => pure ()
  | want :: wants => do
    expectOne want
    expect wants

/-- Read on while the symbols are blank. -/
def skip (blank : τ → Bool) : Parser τ ε Unit := fun cur =>
  .ok ((), ⟨cur.rest.dropWhile blank, cur.pos + (cur.rest.takeWhile blank).length⟩)

/-- Go round until `next` answers `none`. -/
def loop (next : σ → Parser τ ε (Option σ)) (acc : σ) (cur : Cursor τ) :
    Except (Fault τ ε) (σ × Cursor τ) :=
  match next acc cur with
  | .error e => .error e
  | .ok (none, cur') => .ok (acc, cur')
  | .ok (some acc', cur') =>
    if cur'.rest.length < cur.rest.length then loop next acc' cur' else .error .idle
termination_by cur.rest.length

/-- The texts of a list with separators between them. -/
def joined (sep : τ) : List (List τ) → List τ
  | [] => []
  | text :: texts => text ++ texts.flatMap (sep :: ·)

section Bracketed

variable [DecidableEq τ] (lb close sep : τ) (blank : τ → Bool)

/-- The separator in front of every item but the first. -/
def separator (started : Bool) : Parser τ ε Unit :=
  if started then expectOne sep else pure ()

/-- One round of a bracketed list: nothing when the list closes, otherwise a separator if
there is an item already, and an item. -/
def round (started : σ → Bool) (item : σ → Parser τ ε σ) (acc : σ) :
    Parser τ ε (Option σ) := do
  let c ← peek
  if c = close then pure none
  else do
    separator sep (started acc)
    skip blank
    let acc ← item acc
    skip blank
    pure (some acc)

/-- An opening symbol, items between separators, a closing symbol. -/
def bracketed (started : σ → Bool) (item : σ → Parser τ ε σ) (init : σ) : Parser τ ε σ := do
  expectOne lb
  skip blank
  let acc ← loop (round close sep blank started item) init
  expectOne close
  pure acc

end Bracketed

/-! ## What a parser takes -/

/-- Wherever `text` stands in front of `ahead`, the parser answers `a` and stops exactly
behind the text. -/
def Parses (p : Parser τ ε α) (text ahead : List τ) (a : α) : Prop :=
  ∀ rest pos, p ⟨text ++ (ahead ++ rest), pos⟩ = .ok (a, ⟨ahead ++ rest, pos + text.length⟩)

theorem bind_of_ok {p : Parser τ ε α} {f : α → Parser τ ε β} {cur cur' : Cursor τ} {a : α}
    (h : p cur = .ok (a, cur')) : (p >>= f) cur = f a cur' := by
  show (p cur >>= fun x => f x.1 x.2) = f a cur'
  rw [h]
  rfl

namespace Parses

variable {p : Parser τ ε α} {f : α → Parser τ ε β} {text more ahead : List τ} {a : α} {b : β}
  {c : τ}

theorem before (h : Parses p text [] a) (ahead : List τ) : Parses p text ahead a :=
  fun rest pos => h (ahead ++ rest) pos

theorem pure (a : α) (ahead : List τ) : Parses (Pure.pure a : Parser τ ε α) [] ahead a :=
  fun _ _ => rfl

theorem bind (hp : Parses p text (more ++ ahead) a) (hf : Parses (f a) more ahead b) :
    Parses (p >>= f) (text ++ more) ahead b := by
  intro rest pos
  have hrun := hp rest pos
  rw [List.append_assoc more] at hrun
  rw [List.append_assoc, bind_of_ok hrun, hf, List.length_append, Nat.add_assoc]

theorem bind_pure (hp : Parses p text ahead a) (hf : f a = Pure.pure b) :
    Parses (p >>= f) text ahead b := by
  have h : Parses (p >>= f) (text ++ []) ahead b := bind hp (hf ▸ pure b ahead)
  rwa [List.append_nil] at h

theorem peek_bind {f : τ → Parser τ ε β} (hf : Parses (f c) (c :: text) ahead b) :
    Parses (peek >>= f) (c :: text) ahead b :=
  fun rest pos => hf rest pos

theorem peek_bind_ahead {f : τ → Parser τ ε β} (hf : Parses (f c) [] (c :: ahead) b) :
    Parses (peek >>= f) [] (c :: ahead) b :=
  fun rest pos => hf rest pos

theorem advance_bind {f : τ → Parser τ ε β} (hf : Parses (f c) text ahead b) :
    Parses (advance >>= f) (c :: text) ahead b := by
  have hone : Parses (advance : Parser τ ε τ) [c] (text ++ ahead) c := fun _ _ => rfl
  exact bind hone hf

theorem expectOne [DecidableEq τ] (c : τ) (ahead : List τ) :
    Parses (expectOne c : Parser τ ε Unit) [c] ahead () := by
  intro rest pos
  simp [Scan.expectOne]

variable {f : Unit → Parser τ ε β} {acc : σ} {next : σ → Parser τ ε (Option σ)} {blank : τ → Bool}

theorem expectOne_bind [DecidableEq τ] (hf : Parses (f ()) text ahead b) :
    Parses (Scan.expectOne c >>= f) (c :: text) ahead b :=
  bind (expectOne c _) hf

theorem expect_bind [DecidableEq τ] (hf : Parses (f ()) more ahead b) :
    Parses (expect text >>= f) (text ++ more) ahead b := by
  have hall : ∀ ahead, Parses (expect text : Parser τ ε Unit) text ahead () := by
    induction text with
    | nil => exact pure ()
    | cons c text ih => exact fun ahead => expectOne_bind (ih ahead)
  exact bind (hall _) hf

theorem skip_of_not_blank (hc : blank c = false) :
    Parses (skip blank : Parser τ ε Unit) [] (c :: ahead) () := by
  intro rest pos
  simp [skip, hc]

theorem skip_bind (hc : blank c = false)
    (hf : Parses (f ()) (c :: text) ahead b) : Parses (skip blank >>= f) (c :: text) ahead b :=
  bind (skip_of_not_blank hc) hf

theorem skip_bind_ahead (hc : blank c = false)
    (hf : Parses (f ()) [] (c :: ahead) b) : Parses (skip blank >>= f) [] (c :: ahead) b :=
  bind (skip_of_not_blank hc) hf

theorem loop_none
    (h : Parses (next acc) text ahead none) : Parses (loop next acc) text ahead acc := by
  intro rest pos
  rw [loop, h]

theorem loop_some {acc acc' s : σ}
    (h : Parses (next acc) text (more ++ ahead) (some acc')) (htext : text ≠ [])
    (hmore : Parses (loop next acc') more ahead s) :
    Parses (loop next acc) (text ++ more) ahead s := by
  intro rest pos
  have hrun := h rest pos
  have hpos := List.length_pos_iff.2 htext
  have hlen : (more ++ (ahead ++ rest)).length < (text ++ (more ++ (ahead ++ rest))).length := by
    simp only [List.length_append]
    omega
  rw [List.append_assoc more] at hrun
  rw [loop, List.append_assoc, hrun]
  simp only [hlen, if_true]
  rw [hmore, List.length_append, Nat.add_assoc]

end Parses

/-! ## Bracketed lists -/

section Bracketed

variable [DecidableEq τ] {lb close sep : τ} {blank : τ → Bool} {started : σ → Bool}
  {item : σ → Parser τ ε σ} {print : β → List τ} {step : σ → β → σ}

/-- The first symbol of an item is neither blank nor the closing one. -/
def Starts (close : τ) (blank : τ → Bool) (text : List τ) : Prop :=
  ∃ c t, text = c :: t ∧ blank c = false ∧ c ≠ close

theorem round_none (acc : σ) (ahead : List τ) :
    Parses (round close sep blank started item acc) [] (close :: ahead) none := by
  apply Parses.peek_bind_ahead
  rw [if_pos rfl]
  exact Parses.pure none _

variable {xs : List β} {ahead text : List τ} {acc acc' : σ} {d : τ}

omit [DecidableEq τ] in
theorem parses_item {c d : τ} (hc : blank c = false)
    (hd : blank d = false) (hitem : Parses (item acc) (c :: text) [] acc') :
    Parses (skip blank >>= fun _ => item acc >>= fun acc => skip blank >>= fun _ =>
      pure (some acc) : Parser τ ε (Option σ)) (c :: text) (d :: ahead) (some acc') := by
  apply Parses.skip_bind hc
  rw [← List.append_nil (c :: text)]
  refine Parses.bind (hitem.before (d :: ahead)) ?_
  exact Parses.skip_bind_ahead hd (Parses.pure _ _)

theorem round_first (hacc : started acc = false)
    (hstarts : Starts close blank text) (hitem : Parses (item acc) text [] acc')
    (hd : blank d = false) :
    Parses (round close sep blank started item acc) text (d :: ahead) (some acc') := by
  obtain ⟨c, t, rfl, hc, hclose⟩ := hstarts
  apply Parses.peek_bind
  rw [if_neg hclose, hacc]
  exact parses_item hc hd hitem

theorem round_next (hsep : sep ≠ close)
    (hacc : started acc = true) (hstarts : Starts close blank text)
    (hitem : Parses (item acc) text [] acc') (hd : blank d = false) :
    Parses (round close sep blank started item acc) (sep :: text) (d :: ahead) (some acc') := by
  obtain ⟨c, t, rfl, hc, -⟩ := hstarts
  apply Parses.peek_bind
  rw [if_neg hsep, hacc]
  exact Parses.expectOne_bind (parses_item hc hd hitem)

/-- The items behind the first one: behind each comes a separator or the closing symbol. -/
theorem parses_more (hsep : sep ≠ close) (hblankSep : blank sep = false)
    (hblankClose : blank close = false) (hstarted : ∀ acc x, started (step acc x) = true)
    (hitem : ∀ x ∈ xs, ∀ acc, Parses (item acc) (print x) [] (step acc x))
    (hstarts : ∀ x ∈ xs, Starts close blank (print x)) (hacc : started acc = true)
    (ahead : List τ) :
    Parses (loop (round close sep blank started item) acc) ((xs.map print).flatMap (sep :: ·))
      (close :: ahead) (xs.foldl step acc) := by
  induction xs generalizing acc with
  | nil => exact Parses.loop_none (round_none acc ahead)
  | cons x xs ih =>
    have hx := hitem x (by simp) acc
    have hmore := ih (fun y hy => hitem y (by simp [hy])) (fun y hy => hstarts y (by simp [hy]))
      (hstarted acc x)
    refine Parses.loop_some ?_ (by simp) hmore
    cases xs with
    | nil => exact round_next hsep hacc (hstarts x (by simp)) hx hblankClose
    | cons y ys => exact round_next hsep hacc (hstarts x (by simp)) hx hblankSep

/-- **A bracketed list is parsed when its items are**, and its items are collected from the
first to the last. -/
theorem parses_bracketed (hsep : sep ≠ close) (hblankSep : blank sep = false)
    (hblankClose : blank close = false) (hstarted : ∀ acc x, started (step acc x) = true)
    (hitem : ∀ x ∈ xs, ∀ acc, Parses (item acc) (print x) [] (step acc x))
    (hstarts : ∀ x ∈ xs, Starts close blank (print x)) {init : σ} (hinit : started init = false) :
    Parses (bracketed lb close sep blank started item init)
      (lb :: (joined sep (xs.map print) ++ [close])) [] (xs.foldl step init) := by
  have hclosed : ∀ acc : σ, Parses (expectOne close >>= fun _ => pure acc : Parser τ ε σ) [close] []
      acc := fun acc => Parses.expectOne_bind (Parses.pure acc [])
  have hloop : Parses (loop (round close sep blank started item) init)
      (joined sep (xs.map print)) [close] (xs.foldl step init) := by
    cases xs with
    | nil => exact Parses.loop_none (round_none init [])
    | cons x xs =>
      have hx := hitem x (by simp) init
      obtain ⟨c, t, hprint, -⟩ := hstarts x (by simp)
      refine Parses.loop_some ?_ (by simp [hprint]) (parses_more hsep hblankSep hblankClose hstarted
        (fun y hy => hitem y (by simp [hy])) (fun y hy => hstarts y (by simp [hy]))
        (hstarted init x) [])
      cases xs with
      | nil => exact round_first hinit (hstarts x (by simp)) hx hblankClose
      | cons y ys => exact round_first hinit (hstarts x (by simp)) hx hblankSep
  have hlist : Parses (loop (round close sep blank started item) init >>= fun acc =>
      expectOne close >>= fun _ => pure acc : Parser τ ε σ)
      (joined sep (xs.map print) ++ [close]) [] (xs.foldl step init) :=
    Parses.bind hloop (hclosed _)
  apply Parses.expectOne_bind
  cases xs with
  | nil => exact Parses.skip_bind hblankClose hlist
  | cons x xs =>
    obtain ⟨c, t, hprint, hblank, -⟩ := hstarts x (by simp)
    rw [List.map_cons, hprint] at hlist ⊢
    exact Parses.skip_bind hblank hlist

end Bracketed

end Scan
