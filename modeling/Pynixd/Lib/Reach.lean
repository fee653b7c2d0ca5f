import Mathlib.Data.Finset.Card

/-!
# What is reachable in a finite graph

`saturate next n s` follows the edges out of `s` for `n` rounds.  In a finite graph as
many rounds as there are nodes are enough, and what comes out is the least set that
contains `s` and is closed under the edges: the meaning of a recursive query.

* `mem_saturate_iff` — membership is reachability;
* `saturate_closed` — the result is closed under the edges.
-/

namespace Reach

open Relation

variable {α : Type} [DecidableEq α] {next : α → List α} {s U : List α} {a b : α}

/-- Follow the edges for `n` rounds. -/
def saturate (next : α → List α) : Nat → List α → List α
  | 0, s => s
  | n + 1, s => saturate next n (s.flatMap next ∪ s)

/-- Reachable from a node of `s`. -/
def From (next : α → List α) (s : List α) (b : α) : Prop :=
  ∃ a ∈ s, ReflTransGen (fun a b => b ∈ next a) a b

omit [DecidableEq α] in
theorem from_congr {next' : α → List α} {s' : List α} (hnext : ∀ a b, b ∈ next a ↔ b ∈ next' a)
    (hs : ∀ a, a ∈ s ↔ a ∈ s') : From next s b ↔ From next' s' b := by
  have hrel : (fun a b => b ∈ next a) = fun a b => b ∈ next' a := by
    funext a b
    exact propext (hnext a b)
  simp only [From, hrel, hs]

theorem subset_saturate (n : Nat) (h : a ∈ s) : a ∈ saturate next n s := by
  induction n generalizing s with
  | zero => exact h
  | succ n ih => exact ih (List.mem_union_right _ h)

theorem from_of_mem_saturate (n : Nat) (h : b ∈ saturate next n s) : From next s b := by
  induction n generalizing s with
  | zero => exact ⟨b, h, ReflTransGen.refl⟩
  | succ n ih =>
    obtain ⟨a, ha, hab⟩ := ih h
    rcases List.mem_union_iff.1 ha with hstep | hold
    · obtain ⟨c, hc, hca⟩ := List.mem_flatMap.1 hstep
      exact ⟨c, hc, ReflTransGen.head hca hab⟩
    · exact ⟨a, hold, hab⟩

theorem mem_saturate_of_closed (n : Nat) (hs : ∀ a ∈ s, ∀ b ∈ next a, b ∈ s)
    (h : a ∈ saturate next n s) : a ∈ s := by
  obtain ⟨c, hc, hca⟩ := from_of_mem_saturate n h
  clear h
  induction hca with
  | refl => exact hc
  | tail _ hedge ih => exact hs _ ih _ hedge

/-- **Enough rounds reach a closed set**: a round that finds nothing new ends the
search, and every other one uses up a node. -/
theorem saturate_closed (hU : ∀ a ∈ U, ∀ b ∈ next a, b ∈ U) (hs : ∀ a ∈ s, a ∈ U) {n : Nat}
    (hn : U.toFinset.card ≤ s.toFinset.card + n) (ha : a ∈ saturate next n s)
    (hb : b ∈ next a) : b ∈ saturate next n s := by
  induction n generalizing s with
  | zero =>
    have hsub : s.toFinset ⊆ U.toFinset := fun x hx => by
      simpa using hs x (by simpa using hx)
    have heq : s.toFinset = U.toFinset := Finset.eq_of_subset_of_card_le hsub hn
    have hmem : b ∈ U.toFinset := by simpa using hU a (hs a ha) b hb
    rw [← heq] at hmem
    simpa [saturate] using hmem
  | succ n ih =>
    by_cases hclosed : ∀ a ∈ s, ∀ b ∈ next a, b ∈ s
    · have hin : a ∈ s := mem_saturate_of_closed (n + 1) hclosed ha
      exact subset_saturate (n + 1) (hclosed a hin b hb)
    · refine ih ?_ ?_ ha
      · intro x hx
        rcases List.mem_union_iff.1 hx with hstep | hold
        · obtain ⟨c, hc, hcx⟩ := List.mem_flatMap.1 hstep
          exact hU c (hs c hc) x hcx
        · exact hs x hold
      · -- Some edge leaves `s`, so the round found a new node.
        push Not at hclosed
        obtain ⟨c, hc, d, hd, hnew⟩ := hclosed
        have hgrow : s.toFinset.card < (s.flatMap next ∪ s).toFinset.card := by
          refine Finset.card_lt_card ⟨?_, ?_⟩
          · intro x hx
            simpa using .inr (List.mem_toFinset.1 hx)
          · intro hback
            have hd' : d ∈ (s.flatMap next ∪ s).toFinset := by
              simpa using .inl ⟨c, hc, hd⟩
            exact hnew (List.mem_toFinset.1 (hback hd'))
        omega

/-- **Membership is reachability.** -/
theorem mem_saturate_iff (hU : ∀ a ∈ U, ∀ b ∈ next a, b ∈ U) (hs : ∀ a ∈ s, a ∈ U) :
    b ∈ saturate next U.length s ↔ From next s b := by
  refine ⟨from_of_mem_saturate U.length, ?_⟩
  rintro ⟨a, ha, hab⟩
  have hn : U.toFinset.card ≤ s.toFinset.card + U.length := by
    have := U.toFinset_card_le
    omega
  induction hab with
  | refl => exact subset_saturate _ ha
  | tail _ hedge ih => exact saturate_closed hU hs hn ih hedge

end Reach
