import Mathlib.Data.List.Nodup
import Mathlib.Data.List.Perm.Subperm

/-!
# Tables that number their rows

A table that gives each new row a number above every number it has given before.  The number
of rows and the largest number in use are then a **fingerprint**: a row that comes moves the
largest number, a row that goes moves the count, and a later table with the same pair has the
same rows.

* `Since.insert`, `Since.keep` — what a table has been since an earlier one;
* `perm_of_fingerprint_eq` — **a table with the fingerprint of an earlier one has its rows**.
-/

namespace Rowids

open List

variable {ρ : Type}

/-- Rows under their numbers, and the number of the next row. -/
structure Table (ρ : Type) where
  rows : List (Nat × ρ)
  next : Nat
  nodup : (rows.map Prod.fst).Nodup
  below : ∀ row ∈ rows, row.1 < next
  pos : 0 < next

namespace Table

def insert (t : Table ρ) (v : ρ) : Table ρ where
  rows := t.rows ++ [(t.next, v)]
  next := t.next + 1
  nodup := by
    rw [map_append]
    refine t.nodup.append (nodup_singleton _) (disjoint_singleton.2 fun hin => ?_)
    obtain ⟨row, hrow, heq⟩ := mem_map.1 hin
    exact absurd heq (Nat.ne_of_lt (t.below row hrow))
  below := by
    intro row hrow
    rcases mem_append.1 hrow with hrow | hrow
    · exact Nat.lt_succ_of_lt (t.below row hrow)
    · rw [mem_singleton.1 hrow]
      exact Nat.lt_succ_self _
  pos := Nat.succ_pos _

/-- The rows that a condition keeps. -/
def keep (t : Table ρ) (p : Nat × ρ → Bool) : Table ρ where
  rows := t.rows.filter p
  next := t.next
  nodup := t.nodup.sublist (filter_sublist.map _)
  below row hrow := t.below row (mem_filter.1 hrow).1
  pos := t.pos

/-- `COALESCE(MAX(id), 0)`. -/
def maxId (t : Table ρ) : Nat := (t.rows.map Prod.fst).foldr max 0

/-- The number of rows, and the largest number in use. -/
def fingerprint (t : Table ρ) : Nat × Nat := (t.rows.length, t.maxId)

theorem le_maxId {t : Table ρ} {row : Nat × ρ} (h : row ∈ t.rows) : row.1 ≤ t.maxId := by
  have hle : ∀ ids : List Nat, ∀ id ∈ ids, id ≤ ids.foldr max 0 := by
    intro ids
    induction ids with
    | nil => simp
    | cons id ids ih =>
      intro k hk
      rcases mem_cons.1 hk with rfl | hk
      · exact Nat.le_max_left ..
      · exact Nat.le_trans (ih k hk) (Nat.le_max_right ..)
  exact hle _ _ (mem_map_of_mem h)

theorem maxId_lt_next (t : Table ρ) : t.maxId < t.next := by
  have hlt : ∀ ids : List Nat, (∀ id ∈ ids, id < t.next) → ids.foldr max 0 < t.next := by
    intro ids
    induction ids with
    | nil => exact fun _ => t.pos
    | cons id ids ih =>
      intro h
      refine Nat.max_lt.2 ⟨h id (mem_cons_self ..), ih fun k hk => ?_⟩
      exact h k (mem_cons_of_mem _ hk)
  apply hlt _
  intro id hid
  obtain ⟨row, hrow, rfl⟩ := mem_map.1 hid
  exact t.below row hrow

/-- What is there now was there before, or has come since. -/
structure Since (past t : Table ρ) : Prop where
  next_le : past.next ≤ t.next
  old_or_new : ∀ row ∈ t.rows, row ∈ past.rows ∨ past.next ≤ row.1

namespace Since

variable {past t : Table ρ}

theorem refl (t : Table ρ) : Since t t := ⟨Nat.le_refl _, fun _ => .inl⟩

theorem insert (h : Since past t) (v : ρ) : Since past (t.insert v) where
  next_le := Nat.le_succ_of_le h.next_le
  old_or_new := by
    intro row hrow
    rcases mem_append.1 hrow with hrow | hrow
    · exact h.old_or_new row hrow
    · rw [mem_singleton.1 hrow]
      exact .inr h.next_le

theorem keep (h : Since past t) (p : Nat × ρ → Bool) : Since past (t.keep p) :=
  ⟨h.next_le, fun row hrow => h.old_or_new row (mem_filter.1 hrow).1⟩

end Since

/-- **The fingerprint names the rows.**  A row that has come since would lie above the old
largest number, so all that is there was there before, and as much of it. -/
theorem perm_of_fingerprint_eq {past t : Table ρ} (h : Since past t)
    (heq : t.fingerprint = past.fingerprint) : t.rows.Perm past.rows := by
  simp only [fingerprint, Prod.mk.injEq] at heq
  have hold : t.rows ⊆ past.rows := by
    intro row hrow
    rcases h.old_or_new row hrow with hold | hnew
    · exact hold
    · have habove := past.maxId_lt_next
      have hin := le_maxId hrow
      omega
  have hnodup : t.rows.Nodup := List.Nodup.of_map _ t.nodup
  exact (subperm_of_subset hnodup hold).perm_of_length_le (Nat.le_of_eq heq.1.symm)

end Table

end Rowids
