import Pynixd.Queue.Build

/-!
# Results of goals

`GoalResult` of `pynixd/goals/results.py`, and the two places of `EnsureDerivedPathGoal` that
name the derivation behind a failure.

* `nameWhatReallyFailed` — a goal that fails for itself names the root of its own path;
* `refuseAFailedInput` — a goal whose input failed takes the name the input gave.
-/

namespace Pynixd.Goals

open Queue (Options)

/-- `GoalResult`, as far as a request reads it. -/
structure GoalResult where
  result : BuildResult
  /-- The derivation whose own build started the failure. -/
  failingDerivation : Option StorePath
  /-- pynixd ended the build, because the request that wanted it had stopped. -/
  abandoned : Bool
  deriving DecidableEq

def GoalResult.succeeded (r : GoalResult) : Bool := resultSucceeded r.result.status

def failure (message : String) (status : BuildResultStatus) : BuildResult :=
  ⟨status.value, message, some [], none⟩

def success (status : BuildResultStatus) : BuildResult := ⟨status.value, "", some [], none⟩

def goalFailure (message : String) (status : BuildResultStatus) : GoalResult :=
  ⟨failure message status, none, false⟩

def goalSuccess (status : BuildResultStatus) : GoalResult := ⟨success status, none, false⟩

def nameWhatReallyFailed (path : DerivedPath) (r : GoalResult) : GoalResult :=
  if r.succeeded || r.failingDerivation.isSome then r
  else { r with failingDerivation := some path.baseStorePath }

/-! ## A failed input -/

def ansiNormal : String := "\x1b[0m"

def ansiRed : String := "\x1b[31;1m"

def ansiMagenta : String := "\x1b[35;1m"

def magenta (text : String) : String := ansiMagenta ++ text ++ ansiNormal

def showKnownOutputs (storeDir : String) (outputPaths : List (String × StorePath)) : String :=
  let paths := sortedSet ((outputPaths.map (·.2.str storeDir)).filter (· ≠ "")).toFinset
  if paths = [] then ""
  else "\nOutput paths:" ++ String.join (paths.map fun path => "\n  " ++ magenta path)

/-- The `keep-going` of the first watcher with options. -/
def watchersKeepGoing (watchers : List (Option Options)) : Bool :=
  (watchers.findSome? id).any (·.keepGoing)

/-- `_refuse_a_failed_input`.  The message counts one failed input, unless the client keeps
going; the name is the first one's either way. -/
def refuseAFailedInput (storeDir : String) (watchers : List (Option Options))
    (childResults : List GoalResult) (drvPath : StorePath)
    (outputPaths : List (String × StorePath)) : Option GoalResult :=
  let failed := childResults.filter fun r => !r.succeeded
  match failed.head? with
  | none => none
  | some first =>
    let count := if watchersKeepGoing watchers then failed.length else 1
    let dependency := if count = 1 then "dependency" else "dependencies"
    let message := "Cannot build '" ++ magenta (drvPath.str storeDir) ++ "'.\nReason: " ++
      ansiRed ++ toString count ++ " " ++ dependency ++ " failed" ++ ansiNormal ++ "." ++
      showKnownOutputs storeDir outputPaths
    some { goalFailure message .dependencyFailed with
      failingDerivation := first.failingDerivation }

/-! ## The name behind a failure -/

theorem succeeded_nameWhatReallyFailed (path : DerivedPath) (r : GoalResult) :
    (nameWhatReallyFailed path r).succeeded = r.succeeded := by
  unfold nameWhatReallyFailed
  split_ifs <;> rfl

end Pynixd.Goals
