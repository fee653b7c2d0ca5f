import Pynixd.Gc.Batch

/-!
# The veto of a collection

`Collector.run` reads the living roots afresh, closes them under references, and takes
the result out of its plan before it weighs, bounds, closes and orders the batch.

* `named_disjoint_vetoed_iff` — a pass names no vetoed path **exactly when** no seed of
  its bounded batch brings one back;
* `closedBatch_of_picked` — **the batch that the bounds pick is closed under referrers again**,
  and loses only the seeds whose referrers leave the plan.

The closing step works against the plan from before the veto.  So a root that refers to
a dead path, and that only the fallback of the veto names, is a referrer in the plan, and
joins the batch it was taken out of.
-/

namespace Pynixd.Gc

open List

/-! ## A pass -/

/-- What a pass is asked to do, and every answer it gets. -/
structure Pass where
  /-- `PynixdGCAction.EXECUTE`, and a dry run otherwise. -/
  execute : Bool
  /-- `gc_allow_execute` of the local store. -/
  permitted : Bool
  limit : Option Int
  targetUsage : Option ℚ
  /-- `gc_target_usage` of the local store. -/
  gcTargetUsage : Option ℚ
  volatile : List StorePath
  /-- The answer to the closure query of the veto, or `none` when it raises. -/
  closure : Option (List StorePath)
  /-- The answer of `plan`. -/
  planned : List StorePath
  graph : StoreGraph
  /-- The query for the infos to weigh raises. -/
  weighInfosFail : Bool
  /-- The dates of the access table, or `none` when there are none to be had. -/
  accessTimes : Option (List (StorePath × Nat))
  now : Nat
  /-- Used and total bytes of the disk. -/
  usage : Option (Nat × Nat)
  referrers : ReferrerQuery
  /-- The query for the infos to order by raises. -/
  orderInfosFail : Bool

def vetoClosure (volatile : List StorePath) (closure : Option (List StorePath)) :
    List StorePath :=
  if volatile = [] then []
  else
    match closure with
    | none => volatile
    | some closed => if volatile.all (· ∈ closed) then closed else volatile

namespace Pass

variable (p : Pass)

def vetoed : List StorePath := vetoClosure p.volatile p.closure

/-- `_weigh`: `none` when the sizes or the ages are unknown. -/
def weigh (paths : List StorePath) : Option Weights :=
  if paths = [] then some []
  else if p.weighInfosFail then none
  else
    p.accessTimes.map fun times =>
      (paths.filter (· ∈ p.graph.valid)).map fun q =>
        (q, ((Dict.get? p.graph q).map PathInfo.narSize).getD 0,
          p.now - (Dict.get? times q).getD p.now)

/-- The weights of what the veto leaves of the plan. -/
def weights : Option Weights := p.weigh (p.planned.filter (· ∉ p.vetoed))

/-- The pressure on the disk, a half where it is not known. -/
def pressure : ℚ :=
  match p.usage with
  | none => 1 / 2
  | some (used, total) => if total = 0 then 1 / 2 else (used : ℚ) / total

def limited (batch : List StorePath) : List StorePath :=
  match p.limit with
  | some n => batch.take n.toNat
  | none => batch

/-- The head of the weight order that the bounds take: the target bounds an execute
pass, the limit any pass. -/
def bounded (weights : Weights) : Option (List StorePath) :=
  let ordered := byWeight weights p.pressure
  (if p.execute then boundBatch (p.targetUsage <|> p.gcTargetUsage) p.usage ordered weights
    else some ordered).map p.limited

/-- The batch before it is closed, where the pass gets that far. -/
def picked : Option (List StorePath) := p.weights.bind p.bounded

end Pass

inductive GcError where
  | negativeLimit
  | targetNotPositive
  | notPermitted
  | zeroDivision
  /-- A dry run has no weight for a path that joined its batch. -/
  | key
  deriving DecidableEq, Repr

inductive Outcome where
  | raised (e : GcError)
  /-- The answer of a dry run, or of a pass with nothing to weigh. -/
  | reported (paths : List StorePath) (bytes : Nat)
  /-- The batch for `_delete`. -/
  | handed (batch : List StorePath)
  deriving DecidableEq, Repr

/-- The paths that a pass reports or deletes. -/
def Outcome.named : Outcome → List StorePath
  | raised _ => []
  | reported paths _ => paths
  | handed batch => batch

def sameSet (a b : List StorePath) : Bool := a.all (· ∈ b) && b.all (· ∈ a)

/-- The batch closed under referrers again, when it is not the whole plan. -/
def reclosed (p : Pass) (batch : List StorePath) : List StorePath :=
  if sameSet batch p.planned then batch else closeBatch p.graph p.referrers batch p.planned

/-- The end of `Collector.run`, with the batch that the bounds took. -/
def conclude (p : Pass) (weights : Weights) (batch : List StorePath) : Outcome :=
  let batch := reclosed p batch
  if p.execute then .handed (orderBatch p.graph p.orderInfosFail batch)
  else
    match batch.mapM (Dict.get? weights) with
    | none => .raised .key
    | some ws => .reported batch (ws.map Prod.fst).sum

def run (p : Pass) : Outcome :=
  if p.limit.any (· < 0) then .raised .negativeLimit
  else if p.targetUsage.any (· ≤ 0) then .raised .targetNotPositive
  else if p.execute && !p.permitted then .raised .notPermitted
  else
    match p.weights with
    | none => .reported [] 0
    | some [] => .reported [] 0
    | some weights =>
      match p.bounded weights with
      | none => .raised .zeroDivision
      | some batch => conclude p weights batch

/-! ## Up to the bounds the veto holds -/

section Bounds

variable {p : Pass} {q : StorePath}

theorem mem_byWeight {weights : Weights} {pressure : ℚ} :
    q ∈ byWeight weights pressure ↔ q ∈ weights.map Prod.fst := by
  simp [byWeight]

theorem takeUntilBelowTarget_sublist (used total : Nat) (target : ℚ) (freed : Nat)
    (ordered : List (StorePath × Nat)) :
    (takeUntilBelowTarget used total target freed ordered).Sublist (ordered.map Prod.fst) := by
  induction ordered generalizing freed with
  | nil => exact .slnil
  | cons head rest ih =>
    obtain ⟨path, size⟩ := head
    rw [takeUntilBelowTarget]
    split_ifs
    · exact nil_sublist _
    · exact (ih _).cons_cons path

theorem sublist_byWeight {weights : Weights} {batch : List StorePath}
    (h : p.bounded weights = some batch) : batch.Sublist (byWeight weights p.pressure) := by
  obtain ⟨whole, hwhole, rfl⟩ := Option.map_eq_some_iff.1 h
  have hsub : whole.Sublist (byWeight weights p.pressure) := by
    split_ifs at hwhole
    · unfold boundBatch at hwhole
      split at hwhole
      · split_ifs at hwhole
        cases hwhole
        refine (takeUntilBelowTarget_sublist _ _ _ _ _).trans ?_
        simp [Function.comp_def]
      · cases hwhole
        exact List.Sublist.refl _
    · cases hwhole
      exact List.Sublist.refl _
  unfold Pass.limited
  split
  · exact (take_sublist _ _).trans hsub
  · exact hsub

theorem mem_of_mem_bounded {weights : Weights} {batch : List StorePath}
    (h : p.bounded weights = some batch) (hq : q ∈ batch) : q ∈ weights.map Prod.fst :=
  mem_byWeight.1 ((sublist_byWeight h).mem hq)

theorem mem_of_mem_weights {weights : Weights} (h : p.weights = some weights)
    (hq : q ∈ weights.map Prod.fst) : q ∈ p.planned ∧ q ∉ p.vetoed := by
  simp only [Pass.weights, Pass.weigh] at h
  split_ifs at h
  · cases h
    simp at hq
  · obtain ⟨times, -, rfl⟩ := Option.map_eq_some_iff.1 h
    simp only [map_map, mem_map, Function.comp_apply, exists_eq_right] at hq
    simpa using mem_of_mem_filter hq

theorem mem_of_mem_picked {batch : List StorePath} (h : p.picked = some batch) (hq : q ∈ batch) :
    q ∈ p.planned ∧ q ∉ p.vetoed := by
  obtain ⟨weights, hweights, hbounded⟩ := Option.bind_eq_some_iff.1 h
  exact mem_of_mem_weights hweights (mem_of_mem_bounded hbounded hq)

end Bounds

/-! ## What the closing step brings back -/

/-- Some seed of the batch brings `q`. -/
def Brought (p : Pass) (batch : List StorePath) (q : StorePath) : Prop :=
  ∃ seed ∈ batch, Brings p.graph p.planned seed q

/-- `q` and `x` are brought, and `q` refers to `x`, another path. -/
def BroughtAbove (p : Pass) (batch : List StorePath) (q x : StorePath) : Prop :=
  Brought p batch q ∧ x ∈ p.graph.refs q ∧ Brought p batch x ∧ x ≠ q

/-- The pass deletes, its database answers, and the vetoed path `x` refers to a seed of
the bounded batch all of whose referrers are in the plan. -/
structure Exposes (p : Pass) (batch : List StorePath) (x : StorePath) : Prop where
  execute : p.execute = true
  permitted : p.permitted = true
  limit : ∀ n ∈ p.limit, 0 ≤ n
  target : ∀ t ∈ p.targetUsage, 0 < t
  /-- The weight order and the bounds pick the batch. -/
  picked : p.picked = some batch
  there : p.referrers.there = true
  answered : ∀ seed ∈ batch, seed ∉ p.referrers.fails
  ordered : p.orderInfosFail = false
  vetoed : x ∈ p.vetoed
  brought : Brought p batch x
  /-- No cycle of references among the brought paths is above `x`. -/
  unblocked : Acc (BroughtAbove p batch) x

section Exposure

variable {p : Pass} {batch : List StorePath} {q x : StorePath}

theorem valid_of_refersTo {g : StoreGraph} {s : StorePath} (h : g.RefersTo q s) : q ∈ g.valid := by
  obtain ⟨hs, hqs⟩ := h
  rcases hqs.cases_head with rfl | ⟨r, ⟨-, hq⟩, -⟩
  · exact hs
  · exact hq

theorem reclosed_of_missing (hx : x ∈ p.planned) (hout : x ∉ batch) :
    reclosed p batch = closeBatch p.graph p.referrers batch p.planned := by
  have hdiffer : sameSet batch p.planned = false := by
    simp only [sameSet, Bool.and_eq_false_iff, all_eq_false]
    exact .inr ⟨x, hx, by simpa using hout⟩
  simp only [reclosed, hdiffer, Bool.false_eq_true, if_false]

theorem mem_closeBatch_iff (hthere : p.referrers.there = true)
    (hanswered : ∀ seed ∈ batch, seed ∉ p.referrers.fails) :
    q ∈ closeBatch p.graph p.referrers batch p.planned ↔ Brought p batch q := by
  rw [mem_closeBatch]
  exact ⟨fun h => h.2.2, fun h => ⟨hthere, hanswered, h⟩⟩

theorem mem_orderBatch_closeBatch (hthere : p.referrers.there = true)
    (hanswered : ∀ seed ∈ batch, seed ∉ p.referrers.fails) (hordered : p.orderInfosFail = false) :
    x ∈ orderBatch p.graph p.orderInfosFail
        (closeBatch p.graph p.referrers batch p.planned) ↔
      Brought p batch x ∧ Acc (BroughtAbove p batch) x := by
  have hvalid :
      (closeBatch p.graph p.referrers batch p.planned).all (· ∈ p.graph.valid) = true := by
    apply all_eq_true.2
    intro q hq
    obtain ⟨seed, -, hbrings⟩ := (mem_closeBatch_iff hthere hanswered).1 hq
    simpa using valid_of_refersTo hbrings.1
  have hrel : ListedAbove (closeBatch p.graph p.referrers batch p.planned) p.graph.refs =
      BroughtAbove p batch := by
    funext q r
    simp only [ListedAbove, BroughtAbove, mem_closeBatch_iff hthere hanswered]
  simp only [orderBatch, hordered, hvalid, Bool.not_true, Bool.or_false, Bool.false_eq_true,
    if_false]
  rw [mem_referrerFirst, mem_closeBatch_iff hthere hanswered, hrel]

theorem Exposes.mem_named (h : Exposes p batch x) : x ∈ (run p).named := by
  obtain ⟨seed, hseed, hbrings⟩ := h.brought
  obtain ⟨weights, hweights, hbounded⟩ := Option.bind_eq_some_iff.1 h.picked
  have hne : weights ≠ [] := by
    rintro rfl
    simpa using mem_of_mem_bounded hbounded hseed
  have hplanned : x ∈ p.planned := hbrings.2 x hbrings.1
  have hout : x ∉ batch := fun hin => (mem_of_mem_picked h.picked hin).2 h.vetoed
  have hlimit : p.limit.any (· < 0) = false := by
    cases hl : p.limit with
    | none => rfl
    | some n => simpa using h.limit n hl
  have htarget : p.targetUsage.any (· ≤ 0) = false := by
    cases ht : p.targetUsage with
    | none => rfl
    | some t => simpa using h.target t ht
  have hrun : run p = .handed (orderBatch p.graph p.orderInfosFail
      (closeBatch p.graph p.referrers batch p.planned)) := by
    simp only [run, hlimit, htarget, h.execute, h.permitted, hweights, hbounded, conclude,
      reclosed_of_missing hplanned hout]
    simp
  rw [hrun]
  exact (mem_orderBatch_closeBatch h.there h.answered h.ordered).2 ⟨h.brought, h.unblocked⟩

/-- A closed batch that holds a vetoed path was closed by the database, not taken
whole. -/
theorem closeBatch_of_vetoed (hpicked : p.picked = some batch) (hx : x ∈ p.vetoed)
    (hin : x ∈ reclosed p batch) : x ∈ closeBatch p.graph p.referrers batch p.planned := by
  unfold reclosed at hin
  split_ifs at hin
  · exact absurd hx (mem_of_mem_picked hpicked hin).2
  · exact hin

theorem mem_of_mapM_get? {weights : Weights} {ws : List (Nat × Nat)}
    (h : batch.mapM (Dict.get? weights) = some ws) (hq : q ∈ batch) :
    q ∈ weights.map Prod.fst := by
  induction batch generalizing ws with
  | nil => cases hq
  | cons head rest ih =>
    simp only [mapM_cons, Option.bind_eq_bind, Option.bind_eq_some_iff] at h
    obtain ⟨w, hw, ws', hrest, -⟩ := h
    rcases mem_cons.1 hq with rfl | hq
    · exact mem_map_of_mem (Dict.mem_of_get?_eq_some hw)
    · exact ih hrest hq

theorem mem_orderBatch_of_conclude {weights : Weights} (hweights : p.weights = some weights)
    (hx : x ∈ p.vetoed) (hin : x ∈ (conclude p weights batch).named) :
    p.execute = true ∧ x ∈ orderBatch p.graph p.orderInfosFail (reclosed p batch) := by
  simp only [conclude] at hin
  split_ifs at hin with hexecute
  · exact ⟨hexecute, hin⟩
  · split at hin
    · cases hin
    · next ws hws => exact absurd hx (mem_of_mem_weights hweights (mem_of_mapM_get? hws hin)).2

theorem mem_of_mem_orderBatch {g : StoreGraph} {infosFail : Bool}
    (h : x ∈ orderBatch g infosFail batch) : infosFail = false ∧ x ∈ batch := by
  unfold orderBatch at h
  split_ifs at h with hcond
  · cases h
  · simp only [Bool.or_eq_true, not_or, Bool.not_eq_true] at hcond
    exact ⟨hcond.1, (mem_referrerFirst.1 h).1⟩

theorem mem_named_iff (hx : x ∈ p.vetoed) :
    x ∈ (run p).named ↔ ∃ batch, Exposes p batch x := by
  refine ⟨fun hin => ?_, fun ⟨batch, h⟩ => h.mem_named⟩
  unfold run at hin
  split_ifs at hin with hlimit htarget hpermitted
  · cases hin
  · cases hin
  · cases hin
  · split at hin
    · cases hin
    · cases hin
    · next weights _ hweights =>
      split at hin
      · cases hin
      · next batch hbounded =>
        have hpicked : p.picked = some batch :=
          Option.bind_eq_some_iff.2 ⟨weights, hweights, hbounded⟩
        obtain ⟨hexecute, horder⟩ := mem_orderBatch_of_conclude hweights hx hin
        obtain ⟨hordered, hre⟩ := mem_of_mem_orderBatch horder
        have hclosed := closeBatch_of_vetoed hpicked hx hre
        obtain ⟨hthere, hanswered, seed, hseed, hbrings⟩ := mem_closeBatch.1 hclosed
        have hout : x ∉ batch := fun hin => (mem_of_mem_picked hpicked hin).2 hx
        rw [reclosed_of_missing (hbrings.2 x hbrings.1) hout,
          mem_orderBatch_closeBatch hthere hanswered hordered] at horder
        refine ⟨batch, hexecute, ?_, ?_, ?_, hpicked, hthere, hanswered, hordered, hx,
          horder.1, horder.2⟩
        · simpa [hexecute] using hpermitted
        · intro n hn
          simpa [Option.mem_def.1 hn] using hlimit
        · intro t ht
          simpa [Option.mem_def.1 ht] using htarget

end Exposure

theorem named_disjoint_vetoed_iff (p : Pass) :
    (∀ x ∈ p.vetoed, x ∉ (run p).named) ↔ ¬ ∃ batch x, Exposes p batch x := by
  constructor
  · rintro h ⟨batch, x, hx⟩
    exact h x hx.vetoed hx.mem_named
  · intro h x hx hin
    obtain ⟨batch, hexposes⟩ := (mem_named_iff hx).1 hin
    exact h ⟨batch, x, hexposes⟩

/-- A pass that may delete, over a living root that refers to a dead path.  Both are in
the plan, and the closure query of the veto raises. -/
def rootOverDead : Pass where
  execute := true
  permitted := true
  limit := none
  targetUsage := none
  gcTargetUsage := none
  volatile := ["root"]
  closure := none
  planned := ["root", "dead"]
  graph := [("root", ⟨1, ["dead"]⟩), ("dead", ⟨1, []⟩)]
  weighInfosFail := false
  accessTimes := some []
  now := 0
  usage := none
  referrers := ⟨true, []⟩
  orderInfosFail := false

/-- The living root is the first path that the pass hands over to be deleted. -/
theorem run_rootOverDead :
    "root" ∈ rootOverDead.vetoed ∧ run rootOverDead = .handed ["root", "dead"] := by
  decide +kernel

/-! ## A slice of the plan, closed again -/

/-- What `_close_batch` makes of a batch: paths of the plan that are closed under referrers, where
the seeds whose referrers are all planned come first, in batch order, and no other seed comes. -/
structure ClosedBatch (g : StoreGraph) (planned batch closed : List StorePath) : Prop where
  subset : closed ⊆ planned
  referrers : ∀ x ∈ closed, ∀ y ∈ g.referrers x, y ∈ closed
  seeds : ∃ kept joined, closed = kept ++ joined ∧ kept.Sublist batch ∧
    (∀ seed ∈ batch, seed ∈ kept ↔ ∀ y, g.RefersTo y seed → y ∈ planned) ∧
    ∀ y ∈ joined, y ∉ batch

/-- The database answers every query of the closing step. -/
def ReferrerQuery.Answers (q : ReferrerQuery) (batch : List StorePath) : Prop :=
  q.there = true ∧ ∀ seed ∈ batch, seed ∉ q.fails

section Slice

variable {g : StoreGraph} {planned batch : List StorePath} {x y s : StorePath}

theorem refersTo_trans (hyx : g.RefersTo y x) (hxs : g.RefersTo x s) : g.RefersTo y s :=
  ⟨hxs.1, hyx.2.trans hxs.2⟩

theorem refersTo_of_mem_referrers (hy : y ∈ g.referrers x) (hx : x ∈ g.valid) : g.RefersTo y x := by
  obtain ⟨hvalid, href⟩ := mem_filter.1 hy
  exact ⟨hx, .single ⟨of_decide_eq_true href, hvalid⟩⟩

theorem exists_brings_iff (hvalid : ∀ seed ∈ batch, seed ∈ g.valid) (hs : s ∈ batch) :
    (∃ seed ∈ batch, Brings g planned seed s) ↔ ∀ y, g.RefersTo y s → y ∈ planned := by
  constructor
  · rintro ⟨seed, -, hrefers, hplanned⟩ y hy
    exact hplanned y (refersTo_trans hy hrefers)
  · exact fun h => ⟨s, hs, ⟨hvalid s hs, .refl⟩, h⟩

theorem closedBatch_of_answers {q : ReferrerQuery} (hbatch : batch.Nodup)
    (hvalid : ∀ seed ∈ batch, seed ∈ g.valid) (hq : q.Answers batch) :
    ClosedBatch g planned batch (closeBatch g q batch planned) where
  subset x hx := by
    obtain ⟨-, -, seed, -, hrefers, hplanned⟩ := mem_closeBatch.1 hx
    exact hplanned x hrefers
  referrers x hx y hy := by
    obtain ⟨hthere, hanswers, seed, hseed, hrefers, hplanned⟩ := mem_closeBatch.1 hx
    have hyseed := refersTo_trans (refersTo_of_mem_referrers hy (valid_of_refersTo hrefers)) hrefers
    exact mem_closeBatch.2 ⟨hthere, hanswers, seed, hseed, hyseed, hplanned⟩
  seeds := by
    have hcond : (!q.there || batch.any (· ∈ q.fails)) = false := by
      simp only [hq.1, Bool.not_true, Bool.false_or, any_eq_false, decide_eq_true_eq]
      exact hq.2
    rw [closeBatch, hcond]
    refine ⟨_, _, insertionSort_closedBefore hbatch
      (nodup_foldl_closeSeed g planned batch nodup_nil), filter_sublist, fun seed hseed => ?_,
      fun y hy => ?_⟩
    · rw [mem_filter, decide_eq_true_eq, mem_foldl_closeSeed, and_iff_right hseed,
        or_iff_left not_mem_nil, exists_brings_iff hvalid hseed]
    · simpa using (mem_filter.1 ((mem_insertionSort _).1 hy)).2

end Slice

section Picked

variable {p : Pass}

theorem keys_weights {weights : Weights} (h : p.weights = some weights) :
    weights.map Prod.fst =
      (p.planned.filter (· ∉ p.vetoed)).filter (· ∈ p.graph.valid) := by
  simp only [Pass.weights, Pass.weigh] at h
  split_ifs at h with hnone
  · cases h
    rw [hnone]
    rfl
  · obtain ⟨times, -, rfl⟩ := Option.map_eq_some_iff.1 h
    simp [map_map, Function.comp_def]

theorem nodup_picked {batch : List StorePath} (hplanned : p.planned.Nodup)
    (h : p.picked = some batch) : batch.Nodup ∧ ∀ x ∈ batch, x ∈ p.graph.valid := by
  obtain ⟨weights, hweights, hbounded⟩ := Option.bind_eq_some_iff.1 h
  have hkeys := keys_weights hweights
  constructor
  · have hperm : (byWeight weights p.pressure).Perm (weights.map Prod.fst) := by
      refine ((perm_insertionSort _ _).map _).trans ?_
      simp [map_map, Function.comp_def]
    refine (sublist_byWeight hbounded).nodup (hperm.nodup_iff.2 ?_)
    rw [hkeys]
    exact (hplanned.filter _).filter _
  · intro x hx
    have hmem := mem_of_mem_bounded hbounded hx
    rw [hkeys] at hmem
    simpa using (mem_filter.1 hmem).2

/-- **Whatever the weight order, the limit and the target take of a plan is closed again**: the
batch of any pass, over any referrers.  Without an answer of the database there is no batch. -/
theorem closedBatch_of_picked (p : Pass) (batch : List StorePath) (hplanned : p.planned.Nodup)
    (hpicked : p.picked = some batch) : (p.referrers.Answers batch →
      ClosedBatch p.graph p.planned batch
        (closeBatch p.graph p.referrers batch p.planned)) ∧
    (¬ p.referrers.Answers batch → closeBatch p.graph p.referrers batch p.planned = []) := by
  obtain ⟨hbatch, hvalid⟩ := nodup_picked hplanned hpicked
  refine ⟨closedBatch_of_answers hbatch hvalid, fun hq => ?_⟩
  refine eq_nil_iff_forall_not_mem.2 fun x hx => ?_
  obtain ⟨hthere, hanswers, -⟩ := mem_closeBatch.1 hx
  exact hq ⟨hthere, hanswers⟩

end Picked

/-- A pass over one path and its referrer, which takes the head of the weight order alone. -/
def headOfPlan : Pass :=
  { rootOverDead with limit := some 1, volatile := [], graph := [("root", ⟨1, ["dead"]⟩),
      ("dead", ⟨2, []⟩)], accessTimes := some [("dead", 0), ("root", 0)], usage := some (1, 1) }

theorem closedBatch_headOfPlan :
    closeBatch headOfPlan.graph headOfPlan.referrers ["dead"] headOfPlan.planned =
        ["dead", "root"] ∧
      ClosedBatch headOfPlan.graph headOfPlan.planned ["dead"]
        (closeBatch headOfPlan.graph headOfPlan.referrers ["dead"] headOfPlan.planned) :=
  ⟨by decide +kernel, (closedBatch_of_picked headOfPlan ["dead"] (by decide +kernel)
    (by decide +kernel)).1 ⟨rfl, by decide +kernel⟩⟩

end Pynixd.Gc
