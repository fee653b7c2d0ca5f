import Pynixd.Gc.Batch
import Pynixd.Liveness.Tracker

/-!
# What may leave the store

`Collector.plan` of `pynixd/gc.py` chooses the paths that a pass may delete, by one of two rules.
The rule of the substituters keeps what none of them confirms, and everything that this refers to;
the rule of the age takes the dead paths that nothing has referred to for a while, and everything
that refers to these.  Neither touches a live path.

* `plan_safe` — **no path of the plan is live, and every valid path that refers to a path of the
  plan is in the plan**, under both rules, when the live set is closed under references.
-/

namespace Pynixd.Gc

namespace StoreGraph

variable (g : StoreGraph)

def validRefs (p : StorePath) : List StorePath := (refs g p).filter (· ∈ valid g)

/-- `QueryClosureRequest`: the valid seeds, and what they refer to, however indirectly. -/
def closure (seeds : List StorePath) : List StorePath :=
  Reach.saturate (validRefs g) (valid g).length (seeds.filter (· ∈ valid g))

/-- `query_referrer_closure`: the valid seeds, and what refers to them, however indirectly. -/
def referrerClosureOf (seeds : List StorePath) : List StorePath :=
  Reach.saturate (referrers g) (valid g).length (seeds.filter (· ∈ valid g))

variable {g} {seeds : List StorePath} {p q : StorePath}

theorem mem_referrers : q ∈ referrers g p ↔ q ∈ valid g ∧ p ∈ refs g q := by
  simp [referrers]

theorem mem_valid_of_mem_filter {a : StorePath} (h : a ∈ seeds.filter (· ∈ valid g)) :
    a ∈ valid g := by
  simpa using (List.mem_filter.1 h).2

theorem mem_closure_of_ref (hp : p ∈ closure g seeds) (hq : q ∈ refs g p) (hvalid : q ∈ valid g) :
    q ∈ closure g seeds := by
  have hU : ∀ a ∈ valid g, ∀ b ∈ validRefs g a, b ∈ valid g := fun a _ b hb =>
    mem_valid_of_mem_filter hb
  unfold closure at hp ⊢
  rw [Reach.mem_saturate_iff hU fun a => mem_valid_of_mem_filter] at hp ⊢
  obtain ⟨a, ha, hap⟩ := hp
  exact ⟨a, ha, hap.tail (List.mem_filter.2 ⟨hq, by simpa using hvalid⟩)⟩

theorem mem_referrerClosureOf_of_referrer (hp : p ∈ referrerClosureOf g seeds)
    (hq : q ∈ referrers g p) : q ∈ referrerClosureOf g seeds := by
  have hU : ∀ a ∈ valid g, ∀ b ∈ referrers g a, b ∈ valid g := fun a _ b hb =>
    (mem_referrers.1 hb).1
  unfold referrerClosureOf at hp ⊢
  rw [Reach.mem_saturate_iff hU fun a => mem_valid_of_mem_filter] at hp ⊢
  obtain ⟨a, ha, hap⟩ := hp
  exact ⟨a, ha, hap.tail hq⟩

end StoreGraph

/-! ## The plan -/

/-- Every answer that a plan gets. -/
structure Planning where
  graph : StoreGraph
  gcMaxAge : Option Nat
  /-- The stores that `gc_defer` names: what each confirms it has, or `none` when it cannot be
  asked. -/
  deferred : List (Option (List StorePath))
  /-- The local store answers closure queries; one without the feature answers the empty set. -/
  closes : Bool
  /-- The live set of the mirror, or `none` without one. -/
  mirror : Option (List StorePath)
  /-- The live paths as the daemon traces them. -/
  returnLive : List StorePath
  /-- The paths that nothing has referred to for some time, or `none` when that is unknown. -/
  stale : Nat → Option (List StorePath)
  /-- The database answers the referrer query. -/
  answersReferrers : Bool

namespace Planning

variable (x : Planning)

def live : List StorePath := x.mirror.getD x.returnLive

/-- What the substituters confirm: `_held_by`, for each of them. -/
def held : List StorePath := x.deferred.flatMap (·.getD [])

def unheld : List StorePath := x.graph.valid.filter (· ∉ x.held)

/-- What the closure query answers for them. -/
def keep : List StorePath := if x.closes then x.graph.closure x.unheld else []

def planDeferred : List StorePath :=
  if x.deferred = [] ∨ x.graph.valid = [] then []
  else if ¬ x.unheld ⊆ x.keep then []
  else x.graph.valid.filter fun p => p ∉ x.keep ∧ p ∉ x.live

def dead : List StorePath := x.graph.valid.filter (· ∉ x.live)

def planLru (maxAge : Nat) : List StorePath :=
  if x.graph.valid = [] then []
  else
    match x.stale maxAge with
    | none => []
    | some stale =>
      if x.answersReferrers then
        (x.graph.referrerClosureOf (x.dead.filter (· ∈ stale))).filter (· ∈ x.dead)
      else []

def plan : List StorePath :=
  match x.gcMaxAge with
  | none => x.planDeferred
  | some maxAge => x.planLru maxAge

end Planning

/-! ## Safety -/

/-- The set keeps what its paths refer to. -/
def ClosedUnderRefs (g : StoreGraph) (live : List StorePath) : Prop :=
  ∀ p ∈ live, ∀ q ∈ g.refs p, q ∈ g.valid → q ∈ live

/-- No path is live, and every valid path that refers to one is there too. -/
structure Droppable (g : StoreGraph) (live paths : List StorePath) : Prop where
  dead : ∀ p ∈ paths, p ∈ g.valid ∧ p ∉ live
  referrers : ∀ p ∈ paths, ∀ q ∈ g.referrers p, q ∈ paths

theorem Droppable.nil (g : StoreGraph) (live : List StorePath) : Droppable g live [] :=
  ⟨nofun, nofun⟩

section Safety

variable {x : Planning} (hlive : ClosedUnderRefs x.graph x.live)

include hlive

theorem not_live_of_referrer {p q : StorePath} (hp : p ∈ x.graph.valid) (hdead : p ∉ x.live)
    (hq : q ∈ x.graph.referrers p) : q ∉ x.live := fun hin =>
  hdead (hlive q hin p (StoreGraph.mem_referrers.1 hq).2 hp)

theorem droppable_planDeferred : Droppable x.graph x.live x.planDeferred := by
  unfold Planning.planDeferred
  split
  · exact .nil _ _
  split
  · exact .nil _ _
  · have hmem : ∀ p, p ∈ x.graph.valid.filter (fun p => p ∉ x.keep ∧ p ∉ x.live) ↔
        p ∈ x.graph.valid ∧ p ∉ x.keep ∧ p ∉ x.live := by simp
    refine ⟨fun p hp => ?_, fun p hp q hq => ?_⟩
    · obtain ⟨hvalid, -, hdead⟩ := (hmem p).1 hp
      exact ⟨hvalid, hdead⟩
    · obtain ⟨hvalid, hdrop, hdead⟩ := (hmem p).1 hp
      refine (hmem q).2 ⟨(StoreGraph.mem_referrers.1 hq).1, fun hkeep => ?_,
        not_live_of_referrer hlive hvalid hdead hq⟩
      -- a referrer that is kept would keep the path
      unfold Planning.keep at hdrop hkeep
      split_ifs at hdrop hkeep
      · exact hdrop (StoreGraph.mem_closure_of_ref hkeep (StoreGraph.mem_referrers.1 hq).2 hvalid)
      · cases hkeep

theorem droppable_planLru (maxAge : Nat) : Droppable x.graph x.live (x.planLru maxAge) := by
  unfold Planning.planLru
  split
  · exact .nil _ _
  split
  · exact .nil _ _
  split
  · have hdead : ∀ p, p ∈ x.dead ↔ p ∈ x.graph.valid ∧ p ∉ x.live := by
      simp [Planning.dead]
    refine ⟨fun p hp => ?_, fun p hp q hq => ?_⟩
    · exact (hdead p).1 (by simpa using (List.mem_filter.1 hp).2)
    · obtain ⟨hclosed, hp⟩ := List.mem_filter.1 hp
      obtain ⟨hvalid, hnot⟩ := (hdead p).1 (by simpa using hp)
      have hqdead : q ∈ x.dead := (hdead q).2
        ⟨(StoreGraph.mem_referrers.1 hq).1, not_live_of_referrer hlive hvalid hnot hq⟩
      exact List.mem_filter.2
        ⟨StoreGraph.mem_referrerClosureOf_of_referrer hclosed hq, by simpa using hqdead⟩
  · exact .nil _ _

end Safety

/-- **A plan is dead and closed under referrers**, for every graph, every answer of the
substituters, every access table and both rules. -/
theorem plan_safe (x : Planning) (hlive : ClosedUnderRefs x.graph x.live) :
    Droppable x.graph x.live x.plan := by
  unfold Planning.plan
  split
  · exact droppable_planDeferred hlive
  · exact droppable_planLru hlive _

/-- A live path over a shared one, and two dead paths, the fresh one over the stale one. -/
def fourPaths : Planning where
  graph := [("live", ⟨1, ["shared"]⟩), ("shared", ⟨1, []⟩), ("fresh", ⟨1, ["stale", "shared"]⟩),
    ("stale", ⟨1, ["shared"]⟩)]
  gcMaxAge := some 60
  deferred := []
  closes := true
  mirror := some ["live", "shared"]
  returnLive := []
  stale := fun _ => some ["stale", "shared"]
  answersReferrers := true

theorem plan_safe_fourPaths : fourPaths.plan = ["fresh", "stale"] ∧
    Droppable fourPaths.graph fourPaths.live fourPaths.plan := by
  refine ⟨by decide +kernel, plan_safe fourPaths ?_⟩
  unfold ClosedUnderRefs
  decide +kernel

end Pynixd.Gc
