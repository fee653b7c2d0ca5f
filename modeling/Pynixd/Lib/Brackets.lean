import Mathlib.Combinatorics.Enumerative.DyckWord

/-!
# Counting brackets

A scanner that wants to know where a bracketed text ends counts: up on an opening
bracket, down on a closing one, and it stops when a closing bracket takes the count to
zero.  Brackets are Mathlib's `DyckStep`s.

* `closesLast` — the count stops, and does so **at the last bracket**;
* `closesLast_iff_isNested` — started at zero in front of an opening bracket, it does
  so exactly when the brackets are a *nested* Dyck word: balanced, and nowhere balanced
  before their end.
-/

namespace Brackets

open List DyckStep

/-- The counter, from `d`: does it stop at the last of the brackets, and not before? -/
def closesLast : Int → List DyckStep → Bool
  | _, [] => false
  | d, U :: ms => closesLast (d + 1) ms
  | d, D :: ms => if d - 1 = 0 then ms.isEmpty else closesLast (d - 1) ms

/-- From a positive count: the closing brackets outnumber the opening ones by `d` at the
end, and by less before. -/
theorem closesLast_iff_count {d : Nat} (hd : 0 < d) (ms : List DyckStep) :
    closesLast d ms ↔ ms.count D = d + ms.count U ∧
      ∀ i < ms.length, (ms.take i).count D < d + (ms.take i).count U := by
  induction ms generalizing d with
  | nil => simp [closesLast]; omega
  | cons m ms ih =>
    -- a bound at every place of `m :: ms` is one at the front and one at every place behind
    have hsplit : ∀ P : Nat → Prop,
        (∀ i < (m :: ms).length, P i) ↔ P 0 ∧ ∀ i < ms.length, P (i + 1) := by
      intro P
      constructor
      · exact fun h => ⟨h 0 (by simp), fun i hi => h (i + 1) (by simpa using hi)⟩
      · rintro ⟨h0, hs⟩ (_ | i) hi
        · exact h0
        · exact hs i (by simpa using hi)
    rw [hsplit]
    cases m with
    | U =>
      have hcast : ((d : Int) + 1) = ((d + 1 : Nat) : Int) := by push_cast; rfl
      rw [closesLast, hcast, ih (Nat.succ_pos d)]
      simp only [take_zero, count_nil, take_succ_cons, count_cons_self,
        count_cons_of_ne (by decide : U ≠ D)]
      constructor
      · exact fun ⟨hend, hat⟩ => ⟨by omega, by omega, fun i hi => by have := hat i hi; omega⟩
      · exact fun ⟨hend, _, hat⟩ => ⟨by omega, fun i hi => by have := hat i hi; omega⟩
    | D =>
      simp only [take_zero, count_nil, take_succ_cons, count_cons_self,
        count_cons_of_ne (by decide : D ≠ U)]
      by_cases hone : d = 1
      · subst hone
        have hstop : closesLast (1 : Nat) (D :: ms) = ms.isEmpty := by simp [closesLast]
        rw [hstop]
        cases ms with
        | nil => simp
        | cons n ns =>
          -- nothing may come behind the bracket that takes the count to zero
          simp only [isEmpty_cons, Bool.false_eq_true, false_iff]
          rintro ⟨-, -, hat⟩
          have := hat 0 (by simp)
          simp at this
      · obtain ⟨k, rfl⟩ : ∃ k, d = k + 1 := ⟨d - 1, by omega⟩
        have hgo : closesLast ((k + 1 : Nat) : Int) (D :: ms) = closesLast k ms := by
          have hk : ((k + 1 : Nat) : Int) - 1 = k := by omega
          rw [closesLast, hk, if_neg (by omega)]
        rw [hgo, ih (by omega)]
        constructor
        · exact fun ⟨hend, hat⟩ => ⟨by omega, by omega, fun i hi => by have := hat i hi; omega⟩
        · exact fun ⟨hend, _, hat⟩ => ⟨by omega, fun i hi => by have := hat i hi; omega⟩

/-- **Where the counter stops.**  In front of an opening bracket it stops exactly at the
last bracket when the brackets are a nested Dyck word. -/
theorem closesLast_iff_isNested (ms : List DyckStep) :
    closesLast 0 (U :: ms) ↔ ∃ p : DyckWord, p.toList = U :: ms ∧ p.IsNested := by
  have hstep : closesLast 0 (U :: ms) = closesLast (1 : Nat) ms := by simp [closesLast]
  rw [hstep, closesLast_iff_count one_pos]
  have hcons : ∀ i, ((U :: ms).take (i + 1)).count D = (ms.take i).count D ∧
      ((U :: ms).take (i + 1)).count U = 1 + (ms.take i).count U := by
    intro i
    simp [count_cons_of_ne (by decide : U ≠ D), add_comm]
  have hwhole : (U :: ms).count U = 1 + ms.count U ∧ (U :: ms).count D = ms.count D := by
    simp [count_cons_of_ne (by decide : U ≠ D), add_comm]
  constructor
  · rintro ⟨hend, hat⟩
    have hbelow : ∀ i, ((U :: ms).take i).count D ≤ ((U :: ms).take i).count U := by
      rintro (_ | i)
      · simp
      · rw [(hcons i).1, (hcons i).2]
        by_cases hi : i < ms.length
        · exact (hat i hi).le
        · rw [take_of_length_le (by omega), hend]
    refine ⟨⟨U :: ms, by omega, hbelow⟩, rfl, DyckWord.toList_ne_nil.1 (by simp), ?_⟩
    rintro (_ | i) hpos hi
    · omega
    · rw [(hcons i).2]
      exact hat i (by simpa using hi)
  · rintro ⟨p, hp, -, hat⟩
    have hbal := p.count_U_eq_count_D
    simp only [hp] at hbal hat
    refine ⟨by omega, fun i hi => ?_⟩
    have := hat (i := i + 1) (by omega) (by simpa using hi)
    rwa [(hcons i).2] at this

end Brackets
