import Mathlib.Data.Fintype.Order
import Mathlib.Data.Set.Finite.List

/-!
# Emitting a graph parents first

The algorithm counts for each node the parents that are not out yet, keeps the nodes
without any in a heap of ranks, and emits the best-ranked of them again and again.

* `mem_order_iff` — **what comes out**: exactly the nodes that no endless chain of
  parents is above;
* `greedy_order` — **how it comes out**: each time the best-ranked of the nodes whose parents
  are all out;
* `acc_iff_not_below_cycle` — in a finite graph, an endless chain is one around a cycle.
-/

namespace Kahn

open List

/-! ## Chains and cycles -/

section Cycle

variable {α : Type} {r : α → α → Prop}

theorem not_cycle_of_acc {c : α} (h : Acc r c) : ¬ Relation.TransGen r c c := by
  have hacc : Acc (Relation.TransGen r) c := h.transGen
  clear h
  induction hacc with
  | intro c _ ih => exact fun hcycle => ih c hcycle hcycle

theorem acc_of_reflTransGen {a b : α} (hb : Acc r b) (hab : Relation.ReflTransGen r a b) :
    Acc r a := by
  induction hab using Relation.ReflTransGen.head_induction_on with
  | refl => exact hb
  | head hstep _ ih => exact ih.inv hstep

/-- **Where only finitely many things are above others, an endless chain goes around a cycle.** -/
theorem acc_iff_not_below_cycle {above : Set α} (hfinite : above.Finite)
    (habove : ∀ a b, r a b → a ∈ above) {p : α} :
    Acc r p ↔ ¬ ∃ c, Relation.TransGen r c c ∧ Relation.ReflTransGen r c p := by
  constructor
  · rintro hp ⟨c, hcycle, hcp⟩
    exact not_cycle_of_acc (acc_of_reflTransGen hp hcp) hcycle
  · intro hfree
    -- what leads to `p` is finite and without a cycle, so the way up from it ends
    have hleads : ({a | Relation.ReflTransGen r a p} : Set α).Finite := by
      refine (hfinite.insert p).subset fun a ha => ?_
      rcases ha.cases_head with rfl | ⟨b, hab, -⟩
      · exact Set.mem_insert a above
      · exact Set.mem_insert_of_mem p (habove a b hab)
    have : Finite {a | Relation.ReflTransGen r a p} := hleads
    let up : {a | Relation.ReflTransGen r a p} → {a | Relation.ReflTransGen r a p} → Prop :=
      fun a b => Relation.TransGen r a.1 b.1
    have : Std.Irrefl up := ⟨fun a ha => hfree ⟨a.1, ha, a.2⟩⟩
    have hwf : WellFounded up := Finite.wellFounded_of_trans_of_irrefl up
    have hall : ∀ a : {a | Relation.ReflTransGen r a p}, Acc r a.1 := by
      intro a
      induction a using hwf.induction with
      | _ a ih =>
        refine Acc.intro a.1 fun b hb => ih ⟨b, .head hb a.2⟩ (.single hb)
    exact hall ⟨p, .refl⟩

end Cycle

variable {α : Type} [DecidableEq α]

/-- Nodes in the order of their rank, and the children each one has among them. -/
structure Digraph (α : Type) where
  nodes : List α
  children : α → List α
  nodes_nodup : nodes.Nodup
  children_nodup : ∀ p, (children p).Nodup
  children_mem : ∀ p, ∀ c ∈ children p, c ∈ nodes
  irrefl : ∀ p, p ∉ children p

namespace Digraph

variable (G : Digraph α)

def Above (q p : α) : Prop := q ∈ G.nodes ∧ p ∈ G.children q

def rank (p : α) : Nat := G.nodes.idxOf p

theorem getElem?_rank {p : α} (h : p ∈ G.nodes) : G.nodes[G.rank p]? = some p :=
  getElem?_idxOf h

theorem rank_inj {p q : α} (h : p ∈ G.nodes) (heq : G.rank p = G.rank q) : p = q :=
  (idxOf_inj h).1 heq

end Digraph

/-! ## The loop -/

/-- The counters, the heap and what is out. -/
structure State (α : Type) where
  waiting : α → Nat
  ready : List Nat
  result : List α

/-- The smallest rank, and the heap without it. -/
def popMin (heap : List Nat) : Option (Nat × List Nat) :=
  heap.min?.map fun m => (m, heap.erase m)

/-- Each child waits for one parent less, and is ready when it waits for none. -/
def unblock (rank : α → Nat) : List α → (α → Nat) → List Nat → (α → Nat) × List Nat
  | [], waiting, ready => (waiting, ready)
  | c :: cs, waiting, ready =>
    let waiting := Function.update waiting c (waiting c - 1)
    unblock rank cs waiting (if waiting c = 0 then rank c :: ready else ready)

/-- The loop, which ends with an empty heap or without fuel. -/
def loop (G : Digraph α) : Nat → State α → State α
  | 0, s => s
  | n + 1, s =>
    match popMin s.ready with
    | none => s
    | some (r, ready) =>
      match G.nodes[r]? with
      | none => s
      | some p =>
        let (waiting, ready) := unblock G.rank (G.children p) s.waiting ready
        loop G n ⟨waiting, ready, s.result ++ [p]⟩

/-- Every node waits for its parents, and those without are ready. -/
def start (G : Digraph α) : State α :=
  let waiting := fun p => G.nodes.countP fun q => p ∈ G.children q
  ⟨waiting, (G.nodes.filter fun p => waiting p = 0).map G.rank, []⟩

def order (G : Digraph α) : List α := (loop G G.nodes.length (start G)).result

/-! ## One round -/

variable {G : Digraph α} {heap rest : List Nat} {cs : List α} {r : Nat} {p : α}

theorem popMin_eq_some (h : popMin heap = some (r, rest)) : r ∈ heap ∧ rest = heap.erase r := by
  obtain ⟨m, hm, heq⟩ := Option.map_eq_some_iff.1 h
  obtain ⟨rfl, rfl⟩ := Prod.mk.inj heq
  exact ⟨min?_mem hm, rfl⟩

theorem popMin_le {r m : Nat} (h : popMin heap = some (r, rest)) (hm : m ∈ heap) : r ≤ m := by
  obtain ⟨min, hmin, heq⟩ := Option.map_eq_some_iff.1 h
  obtain ⟨rfl, -⟩ := Prod.mk.inj heq
  exact (min?_eq_some_iff.1 hmin).2 m hm

theorem popMin_eq_none (h : popMin heap = none) : heap = [] := by
  simpa [popMin] using h

theorem unblock_waiting (rank : α → Nat) (hcs : cs.Nodup) (waiting : α → Nat)
    (ready : List Nat) (x : α) :
    (unblock rank cs waiting ready).1 x = if x ∈ cs then waiting x - 1 else waiting x := by
  induction cs generalizing waiting ready with
  | nil => simp [unblock]
  | cons c cs ih =>
    obtain ⟨hc, hcs⟩ := nodup_cons.1 hcs
    rw [unblock, ih hcs]
    by_cases hxc : x = c
    · subst hxc
      simp [hc]
    · simp [hxc]

theorem mem_unblock_ready (rank : α → Nat) (hcs : cs.Nodup) (waiting : α → Nat)
    (ready : List Nat) (r : Nat) :
    r ∈ (unblock rank cs waiting ready).2 ↔
      r ∈ ready ∨ ∃ c ∈ cs, rank c = r ∧ waiting c - 1 = 0 := by
  induction cs generalizing waiting ready with
  | nil => simp [unblock]
  | cons c cs ih =>
    obtain ⟨hc, hcs⟩ := nodup_cons.1 hcs
    have hkeep : ∀ d ∈ cs, Function.update waiting c (waiting c - 1) d = waiting d := by
      intro d hd
      have hne : d ≠ c := by
        rintro rfl
        exact hc hd
      exact Function.update_of_ne hne _ _
    rw [unblock, ih hcs]
    have hrest : (∃ d ∈ cs, rank d = r ∧ Function.update waiting c (waiting c - 1) d - 1 = 0) ↔
        ∃ d ∈ cs, rank d = r ∧ waiting d - 1 = 0 :=
      exists_congr fun d => and_congr_right fun hd => by rw [hkeep d hd]
    rw [hrest]
    simp only [Function.update_self, mem_cons, exists_eq_or_imp]
    by_cases h0 : waiting c - 1 = 0
    · rw [if_pos h0]
      simp only [mem_cons, h0, and_true, @eq_comm _ r]
      tauto
    · simp [h0]

theorem unblock_nodup (rank : α → Nat) (hcs : (cs.map rank).Nodup)
    (waiting : α → Nat) {ready : List Nat} (hready : ready.Nodup)
    (hnew : ∀ c ∈ cs, rank c ∉ ready) : (unblock rank cs waiting ready).2.Nodup := by
  induction cs generalizing waiting ready with
  | nil => exact hready
  | cons c cs ih =>
    obtain ⟨hc, hcs⟩ := nodup_cons.1 hcs
    have hc' : ∀ d ∈ cs, rank d ≠ rank c := fun d hd heq =>
      hc (by rw [← heq]; exact mem_map_of_mem hd)
    refine ih hcs _ ?_ ?_
    · split_ifs
      · exact nodup_cons.2 ⟨hnew c (by simp), hready⟩
      · exact hready
    · intro d hd
      have hd' := hnew d (by simp [hd])
      split_ifs
      · simp [hc' d hd, hd']
      · exact hd'

/-! ## The invariant -/

/-- What is out is accessible and lacks no parent; a counter counts the parents that are
not out; the heap holds the nodes that are next. -/
structure Inv (G : Digraph α) (s : State α) : Prop where
  result_nodup : s.result.Nodup
  result_mem : ∀ p ∈ s.result, p ∈ G.nodes
  result_acc : ∀ p ∈ s.result, Acc G.Above p
  result_closed : ∀ p ∈ s.result, ∀ q, G.Above q p → q ∈ s.result
  waiting_eq : ∀ p, s.waiting p = G.nodes.countP fun q => p ∈ G.children q ∧ q ∉ s.result
  ready_nodup : s.ready.Nodup
  ready_rank : ∀ r ∈ s.ready, ∃ p ∈ G.nodes, G.rank p = r
  ready_iff : ∀ p ∈ G.nodes, G.rank p ∈ s.ready ↔ p ∉ s.result ∧ s.waiting p = 0

section Invariant

variable {G : Digraph α} {s : State α} {p : α}

theorem rank_nodup_children (G : Digraph α) (p : α) : ((G.children p).map G.rank).Nodup :=
  (G.children_nodup p).map_on fun c hc _ _ heq => G.rank_inj (G.children_mem p c hc) heq

theorem Inv.waiting_eq_zero (h : Inv G s) : s.waiting p = 0 ↔ ∀ q, G.Above q p → q ∈ s.result := by
  rw [h.waiting_eq, countP_eq_zero]
  constructor
  · intro hall q ⟨hq, hqp⟩
    by_contra hout
    exact hall q hq (by simp [hqp, hout])
  · intro hall q hq hcond
    simp only [decide_eq_true_eq] at hcond
    exact hcond.2 (hall q ⟨hq, hcond.1⟩)

theorem inv_start (G : Digraph α) : Inv G (start G) where
  result_nodup := nodup_nil
  result_mem := by simp [start]
  result_acc := by simp [start]
  result_closed := by simp [start]
  waiting_eq := by simp [start]
  ready_nodup := by
    apply (G.nodes_nodup.filter _).map_on
    intro p hp q _ heq
    exact G.rank_inj (mem_of_mem_filter hp) heq
  ready_rank := by
    intro r hr
    obtain ⟨p, hp, rfl⟩ := mem_map.1 hr
    exact ⟨p, mem_of_mem_filter hp, rfl⟩
  ready_iff := by
    intro p hp
    constructor
    · intro hr
      obtain ⟨q, hq, heq⟩ := mem_map.1 hr
      obtain ⟨hq, hzero⟩ := mem_filter.1 hq
      obtain rfl := G.rank_inj hq heq
      exact ⟨by simp [start], of_decide_eq_true hzero⟩
    · rintro ⟨-, hzero⟩
      exact mem_map_of_mem (mem_filter.2 ⟨hp, decide_eq_true hzero⟩)

theorem countP_result_append (G : Digraph α) {result : List α} (hp : p ∈ G.nodes)
    (hout : p ∉ result) (x : α) :
    G.nodes.countP (fun q => x ∈ G.children q ∧ q ∉ result ++ [p]) =
      if x ∈ G.children p then G.nodes.countP (fun q => x ∈ G.children q ∧ q ∉ result) - 1
      else G.nodes.countP (fun q => x ∈ G.children q ∧ q ∉ result) := by
  have hperm := perm_cons_erase hp
  have hrest : (G.nodes.erase p).countP (fun q => x ∈ G.children q ∧ q ∉ result ++ [p]) =
      (G.nodes.erase p).countP (fun q => x ∈ G.children q ∧ q ∉ result) := by
    apply countP_congr
    intro q hq
    have hne : q ≠ p := by
      rintro rfl
      exact (List.Nodup.not_mem_erase G.nodes_nodup) hq
    simp [hne]
  rw [hperm.countP_eq, hperm.countP_eq, countP_cons, hrest]
  by_cases hx : x ∈ G.children p
  · simp [hx, hout]
  · simp [hx]

/-- **One round.**  The best-ranked node comes out. -/
theorem Inv.visit (h : Inv G s) (hp : p ∈ G.nodes) (hready : G.rank p ∈ s.ready) :
    Inv G ⟨(unblock G.rank (G.children p) s.waiting (s.ready.erase (G.rank p))).1,
      (unblock G.rank (G.children p) s.waiting (s.ready.erase (G.rank p))).2,
      s.result ++ [p]⟩ := by
  obtain ⟨hout, hzero⟩ := (h.ready_iff p hp).1 hready
  have hparents := h.waiting_eq_zero.1 hzero
  -- A child of `p` is not out, and waits for `p` at least.
  have hchild_out : ∀ c ∈ G.children p, c ∉ s.result := fun c hc hin =>
    hout (h.result_closed c hin p ⟨hp, hc⟩)
  have hchild_wait : ∀ c ∈ G.children p, s.waiting c ≠ 0 := fun c hc hzero =>
    hout (h.waiting_eq_zero.1 hzero p ⟨hp, hc⟩)
  have hchild_ready : ∀ c ∈ G.children p, G.rank c ∉ s.ready.erase (G.rank p) := fun c hc hin =>
    hchild_wait c hc ((h.ready_iff c (G.children_mem p c hc)).1 (mem_of_mem_erase hin)).2
  have hwaiting : ∀ x, (unblock G.rank (G.children p) s.waiting (s.ready.erase (G.rank p))).1 x =
      if x ∈ G.children p then s.waiting x - 1 else s.waiting x :=
    unblock_waiting _ (G.children_nodup p) _ _
  refine ⟨?_, ?_, ?_, ?_, ?_, ?_, ?_, ?_⟩
  · exact nodup_append.2 ⟨h.result_nodup, nodup_singleton p, by
      rintro a ha b hb rfl
      rw [mem_singleton] at hb
      exact hout (hb ▸ ha)⟩
  · intro q hq
    rcases mem_append.1 hq with hq | hq
    · exact h.result_mem q hq
    · rwa [mem_singleton.1 hq]
  · intro q hq
    rcases mem_append.1 hq with hq | hq
    · exact h.result_acc q hq
    · rw [mem_singleton.1 hq]
      exact Acc.intro p fun r hr => h.result_acc r (hparents r hr)
  · intro q hq r hr
    rcases mem_append.1 hq with hq | hq
    · exact mem_append_left _ (h.result_closed q hq r hr)
    · rw [mem_singleton.1 hq] at hr
      exact mem_append_left _ (hparents r hr)
  · intro x
    dsimp only
    rw [hwaiting, countP_result_append G hp hout, ← h.waiting_eq]
  · exact unblock_nodup _ (rank_nodup_children G p) _ (h.ready_nodup.erase _) hchild_ready
  · intro r hr
    rcases (mem_unblock_ready _ (G.children_nodup p) _ _ r).1 hr with hold | ⟨c, hc, rfl, -⟩
    · exact h.ready_rank r (mem_of_mem_erase hold)
    · exact ⟨c, G.children_mem p c hc, rfl⟩
  · intro x hx
    simp only [mem_unblock_ready _ (G.children_nodup p), hwaiting]
    constructor
    · rintro (hold | ⟨c, hc, hrank, hone⟩)
      · -- It was ready before, and is not `p`.
        obtain ⟨hxout, hxzero⟩ := (h.ready_iff x hx).1 (mem_of_mem_erase hold)
        have hxp : x ≠ p := by
          rintro rfl
          exact h.ready_nodup.not_mem_erase hold
        refine ⟨by simp [hxout, hxp], ?_⟩
        split_ifs <;> omega
      · -- It waited for `p` alone.
        obtain rfl := G.rank_inj (G.children_mem p c hc) hrank
        have hcp : c ≠ p := by
          rintro rfl
          exact G.irrefl c hc
        refine ⟨by simp [hchild_out c hc, hcp], ?_⟩
        rw [if_pos hc, hone]
    · rintro ⟨hxout, hxzero⟩
      simp only [mem_append, mem_singleton, not_or] at hxout
      by_cases hchild : x ∈ G.children p
      · rw [if_pos hchild] at hxzero
        exact .inr ⟨x, hchild, rfl, hxzero⟩
      · rw [if_neg hchild] at hxzero
        refine .inl ((mem_erase_of_ne ?_).2 ((h.ready_iff x hx).2 ⟨hxout.1, hxzero⟩))
        intro heq
        exact hxout.2 (G.rank_inj hx heq)

/-- **The whole loop**: with a round for every node it keeps the invariant and leaves
nothing ready. -/
theorem inv_loop {n : Nat} (h : Inv G s) (hn : G.nodes.length ≤ s.result.length + n) :
    Inv G (loop G n s) ∧ (loop G n s).ready = [] := by
  induction n generalizing s with
  | zero =>
    refine ⟨h, ?_⟩
    -- Every node is out, so none is ready.
    have hall : ∀ p ∈ G.nodes, p ∈ s.result := by
      have hsub : s.result ⊆ G.nodes := h.result_mem
      have hperm := (subperm_of_subset h.result_nodup hsub).perm_of_length_le (by omega)
      exact fun p hp => hperm.mem_iff.2 hp
    apply eq_nil_iff_forall_not_mem.2
    intro r hr
    obtain ⟨p, hp, rfl⟩ := h.ready_rank r hr
    exact ((h.ready_iff p hp).1 hr).1 (hall p hp)
  | succ n ih =>
    rw [loop]
    cases hpop : popMin s.ready with
    | none => exact ⟨h, popMin_eq_none hpop⟩
    | some top =>
      obtain ⟨r, rest⟩ := top
      obtain ⟨hr, rfl⟩ := popMin_eq_some hpop
      obtain ⟨p, hp, rfl⟩ := h.ready_rank r hr
      simp only [G.getElem?_rank hp]
      apply ih (h.visit hp hr)
      simp only [length_append, length_singleton]
      omega

end Invariant

/-! ## The choice at each step -/

/-- Each node has its parents before it, and of the nodes that could have come at its place it is
the best-ranked. -/
structure Greedy (G : Digraph α) (result : List α) : Prop where
  parents : ∀ pre p post, result = pre ++ p :: post → ∀ q, G.Above q p → q ∈ pre
  best : ∀ pre p post, result = pre ++ p :: post → ∀ q ∈ G.nodes, q ∉ pre →
    (∀ r, G.Above r q → r ∈ pre) → G.rank p ≤ G.rank q

omit [DecidableEq α] in
theorem append_singleton_eq_append_cons {xs pre post : List α} {x p : α}
    (h : xs ++ [x] = pre ++ p :: post) : (xs = pre ∧ x = p) ∨ ∃ post', xs = pre ++ p :: post' := by
  rcases eq_nil_or_concat post with rfl | ⟨post', last, rfl⟩
  · obtain ⟨rfl, hx⟩ := append_inj' h rfl
    exact .inl ⟨rfl, singleton_inj.1 hx⟩
  · rw [concat_eq_append, ← cons_append, ← append_assoc] at h
    exact .inr ⟨post', (append_inj' h rfl).1⟩

theorem Greedy.snoc {result : List α} (h : Greedy G result)
    (hparents : ∀ q, G.Above q p → q ∈ result)
    (hbest : ∀ q ∈ G.nodes, q ∉ result → (∀ r, G.Above r q → r ∈ result) → G.rank p ≤ G.rank q) :
    Greedy G (result ++ [p]) where
  parents pre x post hsplit := by
    rcases append_singleton_eq_append_cons hsplit with ⟨rfl, rfl⟩ | ⟨post', hsplit⟩
    · exact hparents
    · exact h.parents pre x post' hsplit
  best pre x post hsplit := by
    rcases append_singleton_eq_append_cons hsplit with ⟨rfl, rfl⟩ | ⟨post', hsplit⟩
    · exact hbest
    · exact h.best pre x post' hsplit

theorem greedy_loop {s : State α} {n : Nat} (h : Inv G s)
    (hgreedy : Greedy G s.result) : Greedy G (loop G n s).result := by
  induction n generalizing s with
  | zero => exact hgreedy
  | succ n ih =>
    rw [loop]
    cases hpop : popMin s.ready with
    | none => exact hgreedy
    | some top =>
      obtain ⟨r, rest⟩ := top
      obtain ⟨hr, rfl⟩ := popMin_eq_some hpop
      obtain ⟨p, hp, rfl⟩ := h.ready_rank r hr
      simp only [G.getElem?_rank hp]
      refine ih (h.visit hp hr) (hgreedy.snoc ?_ ?_)
      · exact h.waiting_eq_zero.1 ((h.ready_iff p hp).1 hr).2
      · intro q hq hout hparents
        exact popMin_le hpop ((h.ready_iff q hq).2 ⟨hout, h.waiting_eq_zero.2 hparents⟩)

/-! ## What comes out -/

section Order

variable (G : Digraph α)

theorem inv_order : Inv G (loop G G.nodes.length (start G)) ∧
    (loop G G.nodes.length (start G)).ready = [] :=
  inv_loop (inv_start G) (by simp [start])

/-- **Exactly the nodes under no endless chain of parents come out.** -/
theorem mem_order_iff (p : α) : p ∈ order G ↔ p ∈ G.nodes ∧ Acc G.Above p := by
  obtain ⟨hinv, hempty⟩ := inv_order G
  constructor
  · intro hp
    exact ⟨hinv.result_mem p hp, hinv.result_acc p hp⟩
  · rintro ⟨hp, hacc⟩
    induction hacc with
    | intro p _ ih =>
      -- Its parents are out, so it is out or ready, and nothing is ready.
      have hzero := hinv.waiting_eq_zero.2 fun q hq => ih q hq hq.1
      by_contra hout
      have hready := (hinv.ready_iff p hp).2 ⟨hout, hzero⟩
      rw [hempty] at hready
      cases hready

theorem nodup_order : (order G).Nodup := (inv_order G).1.result_nodup

theorem greedy_order : Greedy G (order G) := by
  refine greedy_loop (inv_start G) ⟨?_, ?_⟩
  · intro pre p post hsplit
    exact absurd hsplit.symm (by simp [start])
  · intro pre p post hsplit
    exact absurd hsplit.symm (by simp [start])

/-- **Exactly the nodes under no cycle come out.** -/
theorem mem_order_iff_not_below_cycle (p : α) : p ∈ order G ↔ p ∈ G.nodes ∧
    ¬ ∃ c, Relation.TransGen G.Above c c ∧ Relation.ReflTransGen G.Above c p := by
  rw [mem_order_iff, acc_iff_not_below_cycle (finite_toSet G.nodes) fun a b h => h.1]

end Order

end Kahn
