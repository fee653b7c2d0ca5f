import Pynixd.Gc.Collector
import Pynixd.Gc.Delete
import Pynixd.Gc.Plan

/-!
# A collection, from the plan to the last request

* `collection_safe` — from `plan` over `run` to `_delete`, **no request names a live path, and a
  batch that goes in its order leaves no reference behind**.
-/

namespace Pynixd.Gc

open List

variable {p : Pass} {batch : List StorePath} {q r : StorePath}

/-- Taken whole or closed by the database, the batch is closed under referrers. -/
theorem mem_reclosed (hclosed : ∀ q ∈ p.planned, ∀ r ∈ p.graph.referrers q, r ∈ p.planned)
    (hq : q ∈ reclosed p batch) :
    q ∈ p.planned ∧ ∀ r ∈ p.graph.referrers q, r ∈ reclosed p batch := by
  unfold reclosed at hq ⊢
  split_ifs at hq ⊢ with hsame
  · simp only [sameSet, Bool.and_eq_true, all_eq_true, decide_eq_true_eq] at hsame
    have hplanned := hsame.1 q hq
    exact ⟨hplanned, fun r hr => hsame.2 r (hclosed q hplanned r hr)⟩
  · obtain ⟨hthere, hanswers, seed, hseed, hrefers, hplanned⟩ := mem_closeBatch.1 hq
    refine ⟨hplanned q hrefers, fun r hr => ?_⟩
    have hr' := refersTo_of_mem_referrers hr (valid_of_refersTo hrefers)
    exact mem_closeBatch.2 ⟨hthere, hanswers, seed, hseed, refersTo_trans hr' hrefers, hplanned⟩

theorem exists_orderBatch_of_handed (h : run p = .handed batch) :
    ∃ picked, batch = orderBatch p.graph p.orderInfosFail (reclosed p picked) := by
  unfold run at h
  split_ifs at h
  split at h
  · cases h
  · cases h
  · split at h
    · cases h
    · next picked _ =>
      simp only [conclude] at h
      split_ifs at h
      · exact ⟨picked, (Outcome.handed.inj h).symm⟩
      · split at h <;> cases h

theorem mem_front_of_orderBatch {g : StoreGraph} {fails : Bool} {pre post : List StorePath}
    (h : orderBatch g fails batch = pre ++ r :: post) (hq : ListedAbove batch g.refs q r) :
    q ∈ pre := by
  unfold orderBatch at h
  split_ifs at h
  · simp at h
  · have hparents := (Kahn.greedy_order (listed batch g.refs)).1 pre r post h
    rw [above_listed] at hparents
    exact hparents q hq

/-- **A collection is safe.**  Whatever a pass makes of a plan, every front of the batch that it
hands over can go without leaving a reference to it behind; and whatever an honest daemon answers,
all that is asked for or deleted was valid and dead. -/
theorem collection_safe (x : Planning) (hlive : ClosedUnderRefs x.graph x.live) (p : Pass)
    (hplan : p.planned = x.plan) (hgraph : p.graph = x.graph) {batch : List StorePath}
    (hrun : run p = .handed batch) :
    (∀ front, front <+: batch → ∀ q ∈ x.graph.valid, q ∉ front →
      ∀ r ∈ x.graph.refs q, r ∉ front) ∧
    ∀ es t, Runs.Guarded Deleting.step Deleting.Honest (.start batch) es →
      Runs.run Deleting.step (.start batch) es = some t →
        ∀ q, q ∈ t.queue.flatten ∨ q ∈ t.deleted → q ∈ x.graph.valid ∧ q ∉ x.live := by
  have hdrop : Droppable x.graph x.live x.plan := by
    unfold Planning.plan
    split
    · exact droppable_planDeferred hlive
    · exact droppable_planLru hlive _
  rw [← hplan, ← hgraph] at hdrop
  rw [← hgraph]
  obtain ⟨picked, rfl⟩ := exists_orderBatch_of_handed hrun
  constructor
  · rintro front ⟨rest, hrest⟩ q hvalid hq r href hr
    have hlisted := (mem_of_mem_orderBatch (hrest ▸ mem_append_left rest hr)).2
    have hq' := (mem_reclosed hdrop.referrers hlisted).2 q
      (StoreGraph.mem_referrers.2 ⟨hvalid, href⟩)
    obtain ⟨pre, mid, rfl⟩ := append_of_mem hr
    rw [append_assoc, cons_append] at hrest
    -- what refers to `r` came out in front of it
    have hpre := mem_front_of_orderBatch hrest.symm
      ⟨hq', href, hlisted, fun e => hq (e ▸ hr)⟩
    exact hq (mem_append_left _ hpre)
  · intro es t hhonest hdelete q hq
    have hsound : t.Sound _ := (Runs.inv_of_guarded (fun _ e t h hok hstep =>
      Deleting.inv_step e t h hok hstep) (Deleting.inv_start _) hhonest hdelete).elim
      Deleting.Lapping.sound Deleting.Closing.sound
    have hlisted := (mem_of_mem_orderBatch (hsound.named q hq)).2
    exact hdrop.dead q (mem_reclosed hdrop.referrers hlisted).1

def fourPass : Pass :=
  { rootOverDead with planned := fourPaths.plan, graph := fourPaths.graph, volatile := [] }

theorem collection_safe_fourPass : run fourPass = .handed ["fresh", "stale"] ∧
    ∀ r ∈ fourPaths.graph.refs "stale", r ∉ ["fresh"] := by
  have hrun : run fourPass = .handed ["fresh", "stale"] := by decide +kernel
  have hlive : ClosedUnderRefs fourPaths.graph fourPaths.live := by
    unfold ClosedUnderRefs
    decide +kernel
  exact ⟨hrun, (collection_safe fourPaths hlive fourPass rfl rfl hrun).1 ["fresh"] ⟨["stale"], rfl⟩
    "stale" (by decide +kernel) (by decide)⟩

end Pynixd.Gc
