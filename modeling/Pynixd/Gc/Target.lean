import Pynixd.Gc.Collector

/-!
# How much of a plan a target takes

An execute pass with a target deletes from the head of its weight order, and stops where the
bytes freed so far bring the usage of the disk to or under the target.  `Collector.run` reads a
disk without blocks as half full when it orders the plan; `_bound_batch` divides by its size.

* `shortestPrefix_takeUntilBelowTarget` — **the loop takes the shortest front** that meets the
  target, whatever was freed before;
* `bounded_shortest_iff` — a pass that comes to its bound takes it **exactly when the disk has a
  size**.
-/

namespace Pynixd.Gc

/-- `batch` is the shortest front of `ordered` that is enough, or all of it where none is. -/
structure ShortestPrefix {α : Type} (enough : List α → Prop) (ordered batch : List α) : Prop where
  front : batch <+: ordered
  stops : enough batch ∨ batch = ordered
  shortest : ∀ shorter, shorter <+: batch → shorter ≠ batch → ¬ enough shorter

def narSizeOf (weights : Weights) (path : StorePath) : Nat :=
  ((Dict.get? weights path).map Prod.fst).getD 0

def freedBytes (weights : Weights) : List StorePath → Nat
  | [] => 0
  | path :: rest => narSizeOf weights path + freedBytes weights rest

/-- The usage of the disk is at the target or under it when the paths are gone. -/
def MeetsTarget (weights : Weights) (used total : Nat) (target : ℚ) (batch : List StorePath) :
    Prop :=
  ((used : ℚ) - freedBytes weights batch) / total ≤ target

theorem ShortestPrefix.cons {α : Type} {enough : List α → Prop} {a : α} {ordered batch : List α}
    (h : ShortestPrefix (fun batch => enough (a :: batch)) ordered batch) (hnil : ¬ enough []) :
    ShortestPrefix enough (a :: ordered) (a :: batch) where
  front := List.prefix_cons_inj a |>.2 h.front
  stops := h.stops.imp id (congrArg _)
  shortest := by
    intro shorter hfront hne
    cases shorter with
    | nil => exact hnil
    | cons b shorter =>
      obtain ⟨rfl, hrest⟩ := List.cons_prefix_cons.1 hfront
      exact h.shortest shorter hrest fun heq => hne (congrArg _ heq)

theorem shortestPrefix_nil {α : Type} {enough : List α → Prop} {ordered : List α}
    (h : enough [] ∨ ordered = []) : ShortestPrefix enough ordered [] where
  front := List.nil_prefix
  stops := h.imp id Eq.symm
  shortest := fun _ hfront hne => absurd (List.prefix_nil.1 hfront) hne

/-- **The loop takes the shortest front** that meets the target.  The induction is over the
order, and the bytes freed so far carry over from one turn to the next. -/
theorem shortestPrefix_takeUntilBelowTarget (weights : Weights) (used total : Nat) (target : ℚ)
    (ordered : List StorePath) (freed : Nat) :
    ShortestPrefix
      (fun batch => ((used : ℚ) - (freed + freedBytes weights batch : Nat)) / total ≤ target)
      ordered
      (takeUntilBelowTarget used total target freed
        (ordered.map fun path => (path, narSizeOf weights path))) := by
  induction ordered generalizing freed with
  | nil => exact shortestPrefix_nil (.inr rfl)
  | cons path rest ih =>
    rw [List.map_cons, takeUntilBelowTarget]
    split_ifs with hmet
    · exact shortestPrefix_nil (.inl hmet)
    · refine ShortestPrefix.cons ?_ hmet
      have hrest := ih (freed + narSizeOf weights path)
      simp only [Nat.add_assoc] at hrest
      exact hrest

theorem boundBatch_eq {used total : Nat} (htotal : total ≠ 0) (target : ℚ)
    (ordered : List StorePath) (weights : Weights) :
    boundBatch (some target) (some (used, total)) ordered weights =
      some (takeUntilBelowTarget used total target 0
        (ordered.map fun path => (path, narSizeOf weights path))) :=
  if_neg htotal

/-- An execute pass comes to its bound: it is not refused, and it has something to weigh. -/
structure ComesToBound (p : Pass) (weights : Weights) : Prop where
  limit : p.limit.any (· < 0) = false
  target : p.targetUsage.any (· ≤ 0) = false
  permitted : p.permitted = true
  weighed : p.weights = some weights
  something : weights ≠ []

theorem run_of_comesToBound {p : Pass} {weights : Weights} (h : ComesToBound p weights) :
    run p = match p.bounded weights with
      | none => .raised .zeroDivision
      | some batch => conclude p weights batch := by
  obtain ⟨hlimit, htarget, hpermitted, hweighed, hsomething⟩ := h
  cases hbounded : p.bounded weights <;>
    simp only [run, hlimit, htarget, hpermitted, hweighed, hbounded, Bool.false_eq_true, if_false,
      Bool.not_true, Bool.and_false]

theorem conclude_ne_zeroDivision (p : Pass) (weights : Weights) (batch : List StorePath) :
    conclude p weights batch ≠ .raised .zeroDivision := by
  simp only [conclude]
  split_ifs
  · exact Outcome.noConfusion
  · split <;> simp

/-- Nothing but the bound of the batch divides. -/
theorem comesToBound_of_zeroDivision {p : Pass} (hexecute : p.execute = true)
    (h : run p = .raised .zeroDivision) : ∃ weights, ComesToBound p weights := by
  simp only [run, hexecute, Bool.true_and] at h
  split_ifs at h with hlimit htarget hpermitted
  iterate 3 cases h
  split at h
  · cases h
  · cases h
  · next weights hsomething hweighed =>
    exact ⟨weights, by simpa using hlimit, by simpa using htarget, by simpa using hpermitted,
      hweighed, hsomething⟩

/-- **An execute pass with a target bounds its batch to the shortest front** of the weight order
that brings the disk to the target, and does not raise there, exactly when the disk has a size
or the pass does not come to its bound. -/
theorem bounded_shortest_iff (p : Pass) (used total : Nat) (target : ℚ)
    (hexecute : p.execute = true)
    (htarget : (p.targetUsage <|> p.gcTargetUsage) = some target)
    (husage : p.usage = some (used, total)) :
    (run p ≠ .raised .zeroDivision ∧ ∀ weights, ComesToBound p weights →
      ∃ batch, ShortestPrefix (MeetsTarget weights used total target)
          (byWeight weights p.pressure) batch ∧
        run p = conclude p weights (p.limited batch)) ↔
      total ≠ 0 ∨ ¬∃ weights, ComesToBound p weights := by
  have hbounded (weights : Weights) : p.bounded weights =
      (boundBatch (some target) (some (used, total)) (byWeight weights p.pressure) weights).map
        p.limited := by
    rw [Pass.bounded, hexecute, htarget, husage, if_pos rfl]
  constructor
  · rintro ⟨hraises, -⟩
    refine Classical.or_iff_not_imp_left.2 ?_
    rintro htotal ⟨weights, hcomes⟩
    obtain rfl := Classical.not_not.1 htotal
    exact hraises ((run_of_comesToBound hcomes).trans (by rw [hbounded]; rfl))
  · intro hsize
    have htakes : ∀ weights, ComesToBound p weights →
        ∃ batch, ShortestPrefix (MeetsTarget weights used total target)
            (byWeight weights p.pressure) batch ∧
          run p = conclude p weights (p.limited batch) := by
      intro weights hcomes
      have htotal : total ≠ 0 := hsize.resolve_right fun h => h ⟨weights, hcomes⟩
      have hfront := shortestPrefix_takeUntilBelowTarget weights used total target
        (byWeight weights p.pressure) 0
      simp only [Nat.zero_add] at hfront
      refine ⟨_, hfront, ?_⟩
      rw [run_of_comesToBound hcomes, hbounded, boundBatch_eq htotal]
      rfl
    refine ⟨fun hraises => ?_, htakes⟩
    obtain ⟨weights, hcomes⟩ := comesToBound_of_zeroDivision hexecute hraises
    obtain ⟨batch, -, hrun⟩ := htakes weights hcomes
    exact conclude_ne_zeroDivision p weights _ (hrun.symm.trans hraises)

/-- A pass that may delete two dead paths, down to nine tenths of the disk. -/
def halfFull (usage : Nat × Nat) : Pass :=
  { rootOverDead with
    gcTargetUsage := some (9 / 10)
    volatile := []
    planned := ["small", "big"]
    graph := [("small", ⟨1, []⟩), ("big", ⟨6, []⟩)]
    usage := some usage }

/-- The bigger of the two is enough, and goes first. -/
theorem bounded_shortest_halfFull :
    run (halfFull (95, 100)) = .handed ["big"] ∧
      run (halfFull (95, 100)) ≠ .raised .zeroDivision ∧
      ∀ weights, ComesToBound (halfFull (95, 100)) weights →
        ∃ batch, ShortestPrefix (MeetsTarget weights 95 100 (9 / 10))
            (byWeight weights (halfFull (95, 100)).pressure) batch ∧
          run (halfFull (95, 100)) =
            conclude (halfFull (95, 100)) weights ((halfFull (95, 100)).limited batch) :=
  ⟨by decide +kernel,
    (bounded_shortest_iff (halfFull (95, 100)) 95 100 (9 / 10) rfl rfl rfl).2 (.inl (by decide))⟩

/-- On a file system without blocks the same pass raises. -/
theorem run_withoutBlocks : run (halfFull (0, 0)) = .raised .zeroDivision := by
  decide +kernel

end Pynixd.Gc
