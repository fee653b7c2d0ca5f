import Mathlib.Algebra.Order.Field.Rat
import Pynixd.Lib.Dict
import Pynixd.Lib.Kahn
import Pynixd.Lib.Reach

/-!
# From a plan to the batch that is deleted

The pure half of `pynixd/gc.py`: the order of a pass, its bounds, and the two passes over
the reference graph that make a slice of the plan deletable again.

* `referrerClosure` — everything that refers to a path, `mem_referrerClosure`;
* `closeBatch` — `_close_batch`, with `mem_closeBatch`: **a path is in the closed batch
  exactly when some seed brings it**;
* `referrerFirst` — `_referrer_first`, with `referrerFirst_spec`: **every path once, behind what
  refers to it, the best-ranked first, and all but what is under a cycle**.

A Python set is a list here, and nothing depends on its order.  The scores of the weight
order are exact.
-/

namespace Pynixd.Gc

open List Relation

abbrev StorePath := String

/-! ## The reference graph -/

/-- What the collector reads of a path info. -/
structure PathInfo where
  narSize : Nat
  references : List StorePath
  deriving DecidableEq, Repr

/-- The valid paths of a store, with their infos. -/
abbrev StoreGraph := List (StorePath × PathInfo)

namespace StoreGraph

variable (g : StoreGraph)

def valid : List StorePath := g.map Prod.fst

def refs (p : StorePath) : List StorePath := ((Dict.get? g p).map PathInfo.references).getD []

def referrers (p : StorePath) : List StorePath := (valid g).filter fun q => p ∈ refs g q

/-- `query_referrer_closure` for one seed: the seed and what refers to it, however
indirectly.  A seed that is not valid has no row to start from. -/
def referrerClosure (seed : StorePath) : List StorePath :=
  Reach.saturate (referrers g) (valid g).length ([seed].filter (· ∈ valid g))

/-- The valid path `p` refers to the valid path `s`, directly, indirectly, or by being
it. -/
def RefersTo (p s : StorePath) : Prop :=
  s ∈ valid g ∧ ReflTransGen (fun a b => b ∈ refs g a ∧ a ∈ valid g) p s

theorem mem_referrerClosure {p s : StorePath} :
    p ∈ referrerClosure g s ↔ RefersTo g p s := by
  have hU : ∀ a ∈ valid g, ∀ b ∈ referrers g a, b ∈ valid g :=
    fun a _ b hb => mem_of_mem_filter hb
  have hs : ∀ a ∈ [s].filter (· ∈ valid g), a ∈ valid g := fun a ha => by
    simpa using (mem_filter.1 ha).2
  rw [referrerClosure, Reach.mem_saturate_iff hU hs]
  have hswap : ∀ a b, ReflTransGen (fun a b => b ∈ referrers g a) a b ↔
      ReflTransGen (fun a b => b ∈ refs g a ∧ a ∈ valid g) b a := by
    intro a b
    rw [← reflTransGen_swap]
    simp only [referrers, mem_filter, decide_eq_true_eq, and_comm]
  constructor
  · rintro ⟨a, ha, hap⟩
    obtain ⟨ha, hvalid⟩ := mem_filter.1 ha
    obtain rfl := mem_singleton.1 ha
    exact ⟨by simpa using hvalid, (hswap a p).1 hap⟩
  · rintro ⟨hvalid, hps⟩
    exact ⟨s, mem_filter.2 ⟨by simp, by simpa using hvalid⟩, (hswap s p).2 hps⟩

end StoreGraph

/-! ## The order and the bounds of a pass -/

/-- `(nar_size, age_seconds)` of each path. -/
abbrev Weights := List (StorePath × (Nat × Nat))

/-- The score of a path: the fuller the disk, the more its size counts. -/
def score (biggest oldest : Nat) (pressure : ℚ) (w : Nat × Nat) : ℚ :=
  pressure * (if biggest = 0 then 0 else (w.1 : ℚ) / biggest) +
    (1 - pressure) * (if oldest = 0 then 0 else (w.2 : ℚ) / oldest)

/-- `_by_weight`: heaviest first, ties by path. -/
def byWeight (weights : Weights) (pressure : ℚ) : List StorePath :=
  let biggest := (weights.map (·.2.1)).foldr max 0
  let oldest := (weights.map (·.2.2)).foldr max 0
  let scored := weights.map fun w => (w.1, score biggest oldest pressure w.2)
  (scored.insertionSort fun a b => b.2 < a.2 ∨ a.2 = b.2 ∧ a.1 ≤ b.1).map Prod.fst

/-- `_take_until_below_target`, from the bytes freed so far. -/
def takeUntilBelowTarget (used total : Nat) (target : ℚ) :
    Nat → List (StorePath × Nat) → List StorePath
  | _, [] => []
  | freed, (path, size) :: rest =>
    if ((used : ℚ) - freed) / total ≤ target then []
    else path :: takeUntilBelowTarget used total target (freed + size) rest

/-- `_bound_batch`: `none` for the division by a total of zero. -/
def boundBatch (target : Option ℚ) (usage : Option (Nat × Nat)) (ordered : List StorePath)
    (weights : Weights) : Option (List StorePath) :=
  match target, usage with
  | some target, some (used, total) =>
    if total = 0 then none
    else some (takeUntilBelowTarget used total target 0
      (ordered.map fun p => (p, ((Dict.get? weights p).map Prod.fst).getD 0)))
  | _, _ => some ordered

/-! ## Closing a batch under referrers -/

/-- What the database answers about referrers: whether it has the query, and the seeds
on which the query fails. -/
structure ReferrerQuery where
  there : Bool
  fails : List StorePath
  deriving DecidableEq, Repr

/-- One seed of `_close_batch`: its closure joins, unless it leaves the plan. -/
def closeSeed (g : StoreGraph) (planned kept : List StorePath) (seed : StorePath) :
    List StorePath :=
  let closed := g.referrerClosure seed
  if closed.all (· ∈ planned) then closed ∪ kept else kept

/-- The sort key of `_close_batch`: the seeds in batch order, then the rest by path. -/
def closedBefore (batch : List StorePath) (a b : StorePath) : Prop :=
  if a ∈ batch then b ∈ batch → batch.idxOf a ≤ batch.idxOf b else b ∉ batch ∧ a ≤ b

instance (batch : List StorePath) : DecidableRel (closedBefore batch) := fun a b => by
  unfold closedBefore
  infer_instance

/-- `_close_batch`: nothing at all when the database cannot answer. -/
def closeBatch (g : StoreGraph) (q : ReferrerQuery) (batch planned : List StorePath) :
    List StorePath :=
  if !q.there || batch.any (· ∈ q.fails) then []
  else (batch.foldl (closeSeed g planned) []).insertionSort (closedBefore batch)

/-- A seed brings what refers to it, when all of that is planned. -/
def Brings (g : StoreGraph) (planned : List StorePath) (seed p : StorePath) : Prop :=
  g.RefersTo p seed ∧ ∀ q, g.RefersTo q seed → q ∈ planned

variable {batch kept planned : List StorePath} {g : StoreGraph} {p : StorePath}

theorem mem_closeSeed {seed p : StorePath} :
    p ∈ closeSeed g planned kept seed ↔ Brings g planned seed p ∨ p ∈ kept := by
  have hall : (g.referrerClosure seed).all (· ∈ planned) = true ↔
      ∀ q, g.RefersTo q seed → q ∈ planned := by
    simp [all_eq_true, g.mem_referrerClosure]
  simp only [closeSeed, Brings]
  split_ifs with hcond
  · rw [mem_union_iff, g.mem_referrerClosure]
    exact or_congr_left (and_iff_left (hall.1 hcond)).symm
  · exact ⟨.inr, fun h => h.resolve_left fun hb => hcond (hall.2 hb.2)⟩

theorem mem_foldl_closeSeed : p ∈ batch.foldl (closeSeed g planned) kept ↔
      (∃ seed ∈ batch, Brings g planned seed p) ∨ p ∈ kept := by
  induction batch generalizing kept with
  | nil => simp
  | cons seed batch ih =>
    rw [foldl_cons, ih, mem_closeSeed]
    simp only [mem_cons, exists_eq_or_imp]
    rw [or_left_comm, or_assoc]

/-- **The closed batch is what the seeds bring**, when the database answers. -/
theorem mem_closeBatch {q : ReferrerQuery} : p ∈ closeBatch g q batch planned ↔
      q.there = true ∧ (∀ seed ∈ batch, seed ∉ q.fails) ∧
        ∃ seed ∈ batch, Brings g planned seed p := by
  unfold closeBatch
  split_ifs with hcond
  · simp only [not_mem_nil, false_iff, not_and]
    intro hthere hall
    simp only [hthere, Bool.not_true, Bool.false_or, any_eq_true, decide_eq_true_eq] at hcond
    obtain ⟨seed, hseed, hfail⟩ := hcond
    exact absurd hfail (hall seed hseed)
  · simp only [Bool.or_eq_true, Bool.not_eq_true', any_eq_true, decide_eq_true_eq, not_or,
      not_exists, not_and, Bool.not_eq_false] at hcond
    rw [mem_insertionSort, mem_foldl_closeSeed]
    exact ⟨fun h => ⟨hcond.1, hcond.2, h.resolve_right (by simp)⟩, fun h => .inl h.2.2⟩

/-- The keys are told apart, and one of two comes first. -/
instance (batch : List StorePath) : Std.Total (closedBefore batch) where
  total a b := by
    unfold closedBefore
    split_ifs with ha hb hb
    · exact (Nat.le_total (batch.idxOf a) (batch.idxOf b)).imp (fun h _ => h) fun h _ => h
    · exact .inl fun h => absurd h hb
    · exact .inr fun h => absurd h ha
    · exact (String.le_total a b).imp (fun h => ⟨hb, h⟩) fun h => ⟨ha, h⟩

instance (batch : List StorePath) : IsTrans StorePath (closedBefore batch) where
  trans a b c hab hbc := by
    unfold closedBefore at *
    split_ifs at * with ha hb hb
    · exact fun hc => (hab hb).trans (hbc hc)
    · exact fun hc => absurd hc hbc.1
    · exact absurd hb hab.1
    · exact ⟨hbc.1, String.le_trans hab.2 hbc.2⟩

instance (batch : List StorePath) : Std.Antisymm (closedBefore batch) where
  antisymm a b hab hba := by
    unfold closedBefore at *
    split_ifs at * with ha hb hb
    · exact (idxOf_inj ha).1 (le_antisymm (hab hb) (hba ha))
    · exact absurd ha hba.1
    · exact absurd hb hab.1
    · exact String.le_antisymm hab.2 hba.2

theorem nodup_foldl_closeSeed (g : StoreGraph) (planned batch : List StorePath) (h : kept.Nodup) :
    (batch.foldl (closeSeed g planned) kept).Nodup := by
  induction batch generalizing kept with
  | nil => exact h
  | cons seed batch ih =>
    refine ih ?_
    unfold closeSeed
    dsimp only
    split_ifs
    · exact h.union _
    · exact h

theorem pairwise_idxOf (h : batch.Nodup) :
    batch.Pairwise fun a b => batch.idxOf a ≤ batch.idxOf b := by
  refine pairwise_iff_getElem.2 fun i j hi hj hij => ?_
  rw [h.idxOf_getElem i hi, h.idxOf_getElem j hj]
  exact hij.le

/-- **The seeds that are kept come first, in batch order.** -/
theorem insertionSort_closedBefore (hbatch : batch.Nodup)
    (hkept : kept.Nodup) : kept.insertionSort (closedBefore batch) =
      batch.filter (· ∈ kept) ++
        (kept.filter (· ∉ batch)).insertionSort (closedBefore batch) := by
  refine List.Perm.eq_of_pairwise' (pairwise_insertionSort _ _)
    (pairwise_append.2 ⟨?_, ?_, ?_⟩) ?_
  · refine ((pairwise_idxOf hbatch).filter _).imp_of_mem fun {a b} ha hb hab => ?_
    rw [closedBefore, if_pos (mem_of_mem_filter ha)]
    exact fun _ => hab
  · exact pairwise_insertionSort _ _
  · intro a ha b hb
    have hb' : b ∉ batch := by simpa using (mem_filter.1 ((mem_insertionSort _).1 hb)).2
    rw [closedBefore, if_pos (mem_of_mem_filter ha)]
    exact fun h => absurd h hb'
  · have hseeds : (kept.filter (· ∈ batch)).Perm (batch.filter (· ∈ kept)) := by
      refine (perm_ext_iff_of_nodup (hkept.filter _) (hbatch.filter _)).2 fun a => ?_
      simp [and_comm]
    refine (perm_insertionSort _ _).trans (.trans ?_
      (hseeds.append (perm_insertionSort _ _).symm))
    have hnot : (kept.filter (· ∉ batch)) = kept.filter fun a => !decide (a ∈ batch) := by
      simp
    rw [hnot]
    exact (filter_append_perm _ kept).symm

/-! ## Referrers first -/

/-- The listed paths, each with the references it has among them, itself aside. -/
def listed (ordered : List StorePath) (references : StorePath → List StorePath) :
    Kahn.Digraph StorePath where
  nodes := Dict.fromkeys ordered
  children p := (references p).dedup.filter fun c => c ∈ ordered ∧ c ≠ p
  nodes_nodup := Dict.nodup_fromkeys ordered
  children_nodup p := (nodup_dedup _).filter _
  children_mem p c hc := by
    have := (mem_filter.1 hc).2
    simp only [decide_eq_true_eq] at this
    simpa using this.1
  irrefl p hp := by simp at hp

def referrerFirst (ordered : List StorePath) (references : StorePath → List StorePath) :
    List StorePath :=
  Kahn.order (listed ordered references)

/-- `q` is listed and refers to another path `p`. -/
def ListedAbove (ordered : List StorePath) (references : StorePath → List StorePath)
    (q p : StorePath) : Prop :=
  q ∈ ordered ∧ p ∈ references q ∧ p ∈ ordered ∧ p ≠ q

theorem above_listed (ordered : List StorePath) (references : StorePath → List StorePath) :
    (listed ordered references).Above = ListedAbove ordered references := by
  funext q r
  simp [Kahn.Digraph.Above, listed, ListedAbove]

theorem mem_referrerFirst {ordered : List StorePath} {references : StorePath → List StorePath} :
    p ∈ referrerFirst ordered references ↔
      p ∈ ordered ∧ Acc (ListedAbove ordered references) p := by
  rw [referrerFirst, Kahn.mem_order_iff, above_listed]
  simp [listed]

/-- `rank` of `_referrer_first`. -/
def rank (ordered : List StorePath) (p : StorePath) : Nat := (Dict.fromkeys ordered).idxOf p

/-- A listed path that is not out, with everything out that refers to it. -/
def Available (ordered : List StorePath) (references : StorePath → List StorePath)
    (out : List StorePath) (p : StorePath) : Prop :=
  p ∈ ordered ∧ p ∉ out ∧ ∀ q, ListedAbove ordered references q p → q ∈ out

/-- **Referrers first.**  Each path comes out at most once, behind everything that refers to it,
and is the best-ranked of what is available at its place; what comes out are the listed paths that
no cycle of references leads to, and so all of them where there is no cycle. -/
theorem referrerFirst_spec (ordered : List StorePath) (references : StorePath → List StorePath) :
    (referrerFirst ordered references).Nodup ∧
    (∀ pre p post, referrerFirst ordered references = pre ++ p :: post →
      Available ordered references pre p ∧
        ∀ q, Available ordered references pre q → rank ordered p ≤ rank ordered q) ∧
    (∀ p, p ∈ referrerFirst ordered references ↔ p ∈ ordered ∧
      ¬ ∃ c, Relation.TransGen (ListedAbove ordered references) c c ∧
        ReflTransGen (ListedAbove ordered references) c p) ∧
    ((∀ c, ¬ Relation.TransGen (ListedAbove ordered references) c c) →
      ∀ p ∈ ordered, p ∈ referrerFirst ordered references) := by
  have hmem : ∀ p, p ∈ referrerFirst ordered references ↔ p ∈ ordered ∧
      ¬ ∃ c, Relation.TransGen (ListedAbove ordered references) c c ∧
        ReflTransGen (ListedAbove ordered references) c p := by
    intro p
    rw [referrerFirst, Kahn.mem_order_iff_not_below_cycle, above_listed]
    simp [listed]
  have hnodup : (referrerFirst ordered references).Nodup := Kahn.nodup_order _
  obtain ⟨hparents, hbest⟩ := Kahn.greedy_order (listed ordered references)
  rw [above_listed] at hparents hbest
  refine ⟨hnodup, fun pre p post hsplit => ⟨⟨?_, ?_, hparents pre p post hsplit⟩, ?_⟩, hmem, ?_⟩
  · exact ((hmem p).1 (hsplit ▸ mem_append_right pre mem_cons_self)).1
  · rw [hsplit] at hnodup
    exact fun hpre => (disjoint_of_nodup_append hnodup) hpre mem_cons_self
  · rintro q ⟨hq, hout, hreferrers⟩
    exact hbest pre p post hsplit q (Dict.mem_fromkeys.2 hq) hout hreferrers
  · intro hacyclic p hp
    exact (hmem p).2 ⟨hp, fun ⟨c, hcycle, _⟩ => hacyclic c hcycle⟩

/-- `_order_batch`: nothing at all when the infos of the batch cannot all be read. -/
def orderBatch (g : StoreGraph) (infosFail : Bool) (batch : List StorePath) : List StorePath :=
  if infosFail || !batch.all (· ∈ g.valid) then [] else referrerFirst batch g.refs

end Pynixd.Gc
