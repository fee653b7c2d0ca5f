import Mathlib.Data.List.Induction
import Pynixd.Lib.Scan

/-!
# Texts that are read from their end

A printer of values is unambiguous when a text says which value it ends with, whatever stands
in front.  Such printers compose from right to left: what is printed last is read first, and
the rest of the text is the text of what was printed before.

* `ReadsBack ok print` — a text `l ++ print x` determines both `x` and `l`, among the `l` that
  meet `ok`;
* `ReadsBack.append`, `ReadsBack.cons`, `ReadsBack.snoc` — sequences and punctuation;
* `ReadsBack.list` — **a bracketed list of such texts**, where the brackets and the separator
  can be told from the end of an item;
* `ReadsBack.injective` — with nothing in front, the printer is injective.
-/

namespace Pynixd.ReadBack

open List Scan

variable {τ α β : Type}

/-- A text that ends with the print of a value determines the value and what is in front. -/
def ReadsBack (ok : List τ → Prop) (print : α → List τ) : Prop :=
  ∀ ⦃x y : α⦄ ⦃l l' : List τ⦄, ok l → ok l' → l ++ print x = l' ++ print y → x = y ∧ l = l'

variable {ok ok' : List τ → Prop} {print : α → List τ} {print' : β → List τ}

theorem ReadsBack.injective (h : ReadsBack ok print) (hnil : ok []) :
    Function.Injective print := by
  intro x y heq
  exact (h hnil hnil (congrArg ([] ++ ·) heq)).1

theorem ReadsBack.append (h : ReadsBack ok print) (h' : ReadsBack ok' print')
    (hok : ∀ l x, ok l → ok' (l ++ print x)) :
    ReadsBack ok fun z : α × β => print z.1 ++ print' z.2 := by
  rintro ⟨x, y⟩ ⟨x', y'⟩ l l' hl hl' heq
  rw [← append_assoc, ← append_assoc] at heq
  obtain ⟨rfl, hrest⟩ := h' (hok l x hl) (hok l' x' hl') heq
  obtain ⟨rfl, rfl⟩ := h hl hl' hrest
  exact ⟨rfl, rfl⟩

theorem ReadsBack.cons (h : ReadsBack ok print) (c : τ) (hok : ∀ l, ok (l ++ [c])) :
    ReadsBack (fun _ => True) fun x => c :: print x := by
  intro x y l l' _ _ heq
  rw [append_cons, append_cons l'] at heq
  obtain ⟨rfl, hrest⟩ := h (hok l) (hok l') heq
  exact ⟨rfl, (append_inj_left' hrest rfl)⟩

theorem ReadsBack.snoc (h : ReadsBack ok print) (c : τ) : ReadsBack ok fun x => print x ++ [c] := by
  intro x y l l' hl hl' heq
  rw [← append_assoc, ← append_assoc] at heq
  exact h hl hl' (append_inj_left' heq rfl)

theorem ReadsBack.comp (h : ReadsBack ok print) {f : β → α} (hf : Function.Injective f) :
    ReadsBack ok fun x => print (f x) := by
  intro x y l l' hl hl' heq
  obtain ⟨hxy, hrest⟩ := h hl hl' heq
  exact ⟨hf hxy, hrest⟩

/-! ## Lists -/

theorem joined_snoc (sep : τ) (texts : List (List τ)) (text : List τ) :
    joined sep (texts ++ [text]) =
      match texts with
      | [] => text
      | first :: rest => joined sep (first :: rest) ++ sep :: text := by
  cases texts with
  | nil => simp [joined]
  | cons first rest => simp [joined]

/-- What stands in front of the last item of a list. -/
def beforeLast (lb sep : τ) (l : List τ) : List (List τ) → List τ
  | [] => l ++ [lb]
  | first :: rest => l ++ lb :: (joined sep (first :: rest) ++ [sep])

theorem append_joined_snoc (lb sep : τ) (l : List τ) (texts : List (List τ)) (text : List τ) :
    l ++ lb :: joined sep (texts ++ [text]) = beforeLast lb sep l texts ++ text := by
  rw [joined_snoc]
  cases texts with
  | nil => simp [beforeLast]
  | cons first rest => simp [beforeLast]

/-- What stands in front of the last item says what the other items are: behind the bracket
there are none, behind a separator there are some. -/
theorem beforeLast_inj {lb sep : τ} (hsep : lb ≠ sep) {l l' : List τ} {texts texts' : List (List τ)}
    (heq : beforeLast lb sep l texts = beforeLast lb sep l' texts') :
    l ++ lb :: joined sep texts = l' ++ lb :: joined sep texts' := by
  have hlast := congrArg List.getLast? heq
  cases texts with
  | nil =>
    cases texts' with
    | nil => simpa [beforeLast] using heq
    | cons first rest =>
      simp only [beforeLast, ← cons_append, ← append_assoc,
        getLast?_concat] at hlast
      exact absurd (Option.some.inj hlast) hsep
  | cons first rest =>
    simp only [beforeLast, ← cons_append, ← append_assoc] at heq hlast
    cases texts' with
    | nil =>
      rw [getLast?_concat, getLast?_concat] at hlast
      exact absurd (Option.some.inj hlast).symm hsep
    | cons first' rest' => exact append_inj_left' heq rfl

/-- **A bracketed list is read from its end**, item by item: an item does not end with the
bracket that opens the list, and the bracket is not the separator. -/
theorem ReadsBack.list (h : ReadsBack ok print) {lb sep close : τ} (hsep : lb ≠ sep)
    (hitem : ∀ l x, (l ++ print x).getLast? ≠ some lb) (hlb : ∀ l, ok (l ++ [lb]))
    (hok : ∀ l, ok (l ++ [sep])) :
    ReadsBack (fun _ => True) fun xs : List α =>
      lb :: (joined sep (xs.map print) ++ [close]) := by
  have hbefore : ∀ l texts, ok (beforeLast lb sep l texts) := by
    intro l texts
    cases texts with
    | nil => exact hlb l
    | cons first rest =>
      rw [beforeLast, ← cons_append, ← append_assoc]
      exact hok _
  -- the closing bracket goes first, and then the last items
  suffices hopen : ∀ (xs ys : List α) (l l' : List τ),
      l ++ lb :: joined sep (xs.map print) = l' ++ lb :: joined sep (ys.map print) →
        xs = ys ∧ l = l' by
    intro xs ys l l' _ _ heq
    simp only [← cons_append, ← append_assoc] at heq
    exact hopen xs ys l l' (append_inj_left' heq rfl)
  intro xs
  induction xs using List.reverseRecOn with
  | nil =>
    intro ys l l' heq
    induction ys using List.reverseRecOn with
    | nil => exact ⟨rfl, append_inj_left' heq rfl⟩
    | append_singleton ys y _ =>
      rw [map_append, map_singleton, append_joined_snoc] at heq
      exact absurd (by rw [← heq]; simp [joined]) (hitem _ y)
  | append_singleton xs x ih =>
    intro ys l l' heq
    rw [map_append, map_singleton, append_joined_snoc] at heq
    induction ys using List.reverseRecOn with
    | nil => exact absurd (by rw [heq]; simp [joined]) (hitem _ x)
    | append_singleton ys y _ =>
      rw [map_append, map_singleton, append_joined_snoc] at heq
      obtain ⟨rfl, hrest⟩ := h (hbefore l _) (hbefore l' _) heq
      obtain ⟨rfl, rfl⟩ := ih ys l l' (beforeLast_inj hsep hrest)
      exact ⟨rfl, rfl⟩

end Pynixd.ReadBack
