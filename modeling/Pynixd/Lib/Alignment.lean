import Mathlib.Data.List.Forall2

/-!
# Alignments of two lists

An alignment of two lists is a row of blocks, and each block is a stretch of either list.
When the stretches follow one another from the start of both lists to their ends, a walk over
the blocks meets every item once.  Inside a block the items are paired position by position,
and what one stretch has more than the other stays alone.

* `forall_pairs_iff` — **nothing stays alone and every pair is related exactly when every block
  is square and the lists are related item by item**, however the blocks were cut.
-/

namespace Alignment

open List

variable {α β : Type}

/-- A stretch of the first list against a stretch of the second. -/
structure Block where
  firstStart : Nat
  firstEnd : Nat
  secondStart : Nat
  secondEnd : Nat

def Block.Square (b : Block) : Prop :=
  b.firstEnd - b.firstStart = b.secondEnd - b.secondStart

instance (b : Block) : Decidable b.Square := inferInstanceAs (Decidable (_ = _))

/-- The blocks follow one another, from these positions to the ends of lists of these
lengths. -/
def Tiles (m n : Nat) : (i j : Nat) → List Block → Prop
  | i, j, [] => i = m ∧ j = n
  | i, j, b :: bs =>
    b.firstStart = i ∧ b.secondStart = j ∧ i ≤ b.firstEnd ∧ j ≤ b.secondEnd ∧
      Tiles m n b.firstEnd b.secondEnd bs

def slice (xs : List α) (start stop : Nat) : List α := (xs.drop start).take (stop - start)

/-- Two stretches, position by position, and then what is left of either. -/
def pairUp (xs : List α) (ys : List β) : List (Option α × Option β) :=
  let shared := min xs.length ys.length
  (xs.zip ys).map (fun p => (some p.1, some p.2)) ++
    ((xs.drop shared).map fun x => (some x, none)) ++ (ys.drop shared).map fun y => (none, some y)

def pairs (xs : List α) (ys : List β) (bs : List Block) : List (Option α × Option β) :=
  bs.flatMap fun b =>
    pairUp (slice xs b.firstStart b.firstEnd) (slice ys b.secondStart b.secondEnd)

/-- Nothing is alone in this pair, and its items are related. -/
def Related (P : α → β → Prop) (p : Option α × Option β) : Prop :=
  ∃ x y, p = (some x, some y) ∧ P x y

/-! ## One block -/

variable {bs : List Block} {xs : List α} {ys : List β} {P : α → β → Prop}

theorem length_slice {start stop : Nat} (h : stop ≤ xs.length) :
    (slice xs start stop).length = stop - start := by
  simp only [slice, length_take, length_drop]
  omega

theorem drop_eq_slice_append (xs : List α) {start stop : Nat} (h : start ≤ stop) :
    xs.drop start = slice xs start stop ++ xs.drop stop := by
  have hstop : xs.drop stop = (xs.drop start).drop (stop - start) := by
    rw [drop_drop, Nat.add_sub_cancel' h]
  rw [slice, hstop, take_append_drop]

@[simp] theorem related_mk {x : α} {y : β} : Related P (some x, some y) ↔ P x y := by
  simp [Related]

/-- **A pair of stretches**: nothing stays alone and every pair is related exactly when the
stretches are related item by item. -/
theorem forall_pairUp_iff : (∀ p ∈ pairUp xs ys, Related P p) ↔ List.Forall₂ P xs ys := by
  induction xs generalizing ys with
  | nil =>
    cases ys with
    | nil => simp [pairUp]
    | cons y ys => simp [pairUp, Related]
  | cons x xs ih =>
    cases ys with
    | nil => simp [pairUp, Related]
    | cons y ys =>
      have hcons : pairUp (x :: xs) (y :: ys) = (some x, some y) :: pairUp xs ys := by
        simp [pairUp, Nat.add_min_add_right]
      rw [hcons, forall_mem_cons, related_mk, ih, forall₂_cons]

theorem isSome_of_mem_pairUp {p : Option α × Option β}
    (h : p ∈ pairUp xs ys) : p.1.isSome = true ∨ p.2.isSome = true := by
  simp only [pairUp, mem_append, mem_map] at h
  rcases h with (⟨q, -, rfl⟩ | ⟨x, -, rfl⟩) | ⟨y, -, rfl⟩
  · exact .inl rfl
  · exact .inl rfl
  · exact .inr rfl

/-! ## All blocks -/

theorem isSome_of_mem_pairs {p : Option α × Option β} (h : p ∈ pairs xs ys bs) :
    p.1.isSome = true ∨ p.2.isSome = true := by
  obtain ⟨b, -, hp⟩ := mem_flatMap.1 h
  exact isSome_of_mem_pairUp hp

theorem Tiles.le {m n i j : Nat} (h : Tiles m n i j bs) : i ≤ m ∧ j ≤ n := by
  induction bs generalizing i j with
  | nil => exact ⟨Nat.le_of_eq h.1, Nat.le_of_eq h.2⟩
  | cons b bs ih =>
    obtain ⟨-, -, hi, hj, hrest⟩ := h
    exact ⟨Nat.le_trans hi (ih hrest).1, Nat.le_trans hj (ih hrest).2⟩

theorem forall₂_append_iff {xs xs' : List α} {ys ys' : List β} (h : xs.length = ys.length) :
    List.Forall₂ P (xs ++ xs') (ys ++ ys') ↔ List.Forall₂ P xs ys ∧ List.Forall₂ P xs' ys' := by
  constructor
  · intro hall
    have htake := forall₂_take xs.length hall
    have hdrop := forall₂_drop xs.length hall
    rw [take_left, h, take_left] at htake
    rw [drop_left, h, drop_left] at hdrop
    exact ⟨htake, hdrop⟩
  · rintro ⟨hfront, hback⟩
    exact rel_append hfront hback

theorem forall_pairs_iff_drop {i j : Nat} (h : Tiles xs.length ys.length i j bs) :
    (∀ p ∈ pairs xs ys bs, Related P p) ↔
      (∀ b ∈ bs, b.Square) ∧ List.Forall₂ P (xs.drop i) (ys.drop j) := by
  induction bs generalizing i j with
  | nil =>
    obtain ⟨rfl, rfl⟩ := h
    simp [pairs]
  | cons b bs ih =>
    obtain ⟨rfl, rfl, hi, hj, hrest⟩ := h
    have hfirst : (slice xs b.firstStart b.firstEnd).length = b.firstEnd - b.firstStart :=
      length_slice hrest.le.1
    have hsecond : (slice ys b.secondStart b.secondEnd).length = b.secondEnd - b.secondStart :=
      length_slice hrest.le.2
    have hpairs : pairs xs ys (b :: bs) =
        pairUp (slice xs b.firstStart b.firstEnd) (slice ys b.secondStart b.secondEnd) ++
          pairs xs ys bs := flatMap_cons
    rw [hpairs, forall_mem_append, forall_pairUp_iff, ih hrest, forall_mem_cons,
      drop_eq_slice_append xs hi, drop_eq_slice_append ys hj]
    constructor
    · rintro ⟨hslices, hsquare, hdrops⟩
      have hlen := hslices.length_eq
      rw [hfirst, hsecond] at hlen
      exact ⟨⟨hlen, hsquare⟩, rel_append hslices hdrops⟩
    · rintro ⟨⟨hb, hsquare⟩, hall⟩
      rw [forall₂_append_iff (by rw [hfirst, hsecond, hb])] at hall
      exact ⟨hall.1, hsquare, hall.2⟩

theorem forall₂_and_iff {P Q : α → β → Prop} :
    List.Forall₂ (fun x y => P x y ∧ Q x y) xs ys ↔
      List.Forall₂ P xs ys ∧ List.Forall₂ Q xs ys := by
  simp only [forall₂_iff_zip]
  constructor
  · rintro ⟨hlen, h⟩
    exact ⟨⟨hlen, fun hp => (h hp).1⟩, hlen, fun hp => (h hp).2⟩
  · rintro ⟨⟨hlen, hP⟩, -, hQ⟩
    exact ⟨hlen, fun hp => ⟨hP hp, hQ hp⟩⟩

/-- **Every item is paired and every pair is related** exactly when every block is square and
the two lists are related item by item. -/
theorem forall_pairs_iff (h : Tiles xs.length ys.length 0 0 bs) :
    (∀ p ∈ pairs xs ys bs, Related P p) ↔ (∀ b ∈ bs, b.Square) ∧ List.Forall₂ P xs ys :=
  forall_pairs_iff_drop h

end Alignment
