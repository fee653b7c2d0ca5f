import Pynixd.Drv.Resolution
import Pynixd.Goals.Results

/-!
# The goal of a derived path

`EnsureDerivedPathGoal` of `pynixd/goals/ensure.py`: a path is there, is substituted, is
realised already, or is built from its inputs, each of which is the path of another goal.

What a goal asks of the local store, the substituters and the queue is in `Answers`, one for
each goal and each place that asks, so that nothing is assumed about time; what the goals of one
request share is in `StoreView`.

* `Outcome` — `GoalResult` with the paths that it carries;
* `prepare` — the goal of a derivation up to its inputs: an outcome, or the derivation;
* `inputGoals` — **the goals that it waits for**;
* `finish` — the rest, with the outcomes of these goals: an outcome or a build;
* `Ensures` — the tree: what a goal answers, the builds below it, and the `Ending` that its answer
  comes from;
* `Prepares`, `Finishes` — **the roads that a goal can take**, which every proof about it splits
  into.
-/

namespace Pynixd.Goals

open Queue (Options)

/-! ## Outcomes -/

/-- `GoalResult`, with all that it carries. -/
structure Outcome extends GoalResult where
  resolvedOutputs : List (String × StorePath)
  producedPaths : Finset StorePath
  dynamicPaths : PathMap

namespace Outcome

def of (r : GoalResult) : Outcome := ⟨r, [], ∅, []⟩

def withDynamicOutputs (o : Outcome) (drvPath : StorePath) : Outcome :=
  let keyed : PathMap := o.resolvedOutputs.map fun (name, path) => ((drvPath, [name]), path)
  { o with dynamicPaths := Dict.update o.dynamicPaths keyed }

def named (path : DerivedPath) (o : Outcome) : Outcome :=
  { o with toGoalResult := nameWhatReallyFailed path o.toGoalResult }

@[simp] theorem succeeded_named (path : DerivedPath) (o : Outcome) :
    (o.named path).succeeded = o.succeeded :=
  succeeded_nameWhatReallyFailed path o.toGoalResult

end Outcome

/-! ## What a goal asks -/

/-- What the goals of one request read. -/
structure StoreView (δ : Type) where
  storeDir : String
  hashing : Hashing δ
  readDerivation : StorePath → Option Derivation
  /-- `output_hashes`: the digest of each output, unless an input is missing or dynamic. -/
  outputHashes : Derivation → Option (List (String × String))
  /-- A digest is written in hexadecimal, so it holds no mark. -/
  unmarked : ∀ d hashes, outputHashes d = some hashes → ∀ item ∈ hashes, '!' ∉ item.2.toList

/-- The places that ask. -/
inductive Site where
  | opaquePath
  | early
  | realised
  | upstream
  | input
  | late
  | cutOff
  deriving DecidableEq, Repr

/-- What `_try_substitute_path` finds; `named` where the result names the path as `out`. -/
inductive Substitute where
  | fetched (named : Bool)
  | failed (message : String) (status : BuildResultStatus) (fails : status.isSuccess = false)
  deriving DecidableEq

/-- What the future of a build holds, and whether `cancel_unwanted` put it there. -/
structure BuildAnswer where
  result : BuildResult
  cancelled : Bool
  /-- `cancel_unwanted` answers a failure without a message. -/
  silent : cancelled = true → resultSucceeded result.status = false ∧ result.errorMsg = ""

/-- The answers that one goal gets. -/
structure Answers where
  isValidPath : Site → StorePath → Bool
  onBackend : StorePath → Bool
  substitutePath : Site → StorePath → Option Substitute
  /-- `client_names_a_substituter`, of the first watcher with options. -/
  namesASubstituter : Bool
  /-- Whether `BuildPaths` succeeds at the daemon behind pynixd. -/
  buildPaths : Site → Bool
  queryRealisation : Site → String → Option Realisation
  /-- The daemon answers for the id that it was asked. -/
  asked : ∀ site id r, queryRealisation site id = some r → r.id = id
  watchers : List (Option Options)
  addTextToStore : BasicDerivation → Option StorePath
  build : StorePath → BasicDerivation → BuildAnswer

/-! ## Substitution -/

def Substitute.outcome (path : StorePath) : Substitute → Outcome
  | .fetched named =>
    ⟨goalSuccess .alreadyValid, if named then [("out", path)] else [], {path}, []⟩
  | .failed message status _ => .of (goalFailure message status)

def opaqueSuccess (path : StorePath) : Outcome :=
  ⟨goalSuccess .alreadyValid, [("out", path)], {path}, []⟩

def ensureOpaque {δ : Type} (S : StoreView δ) (A : Answers) (p : DerivedPath) : Outcome :=
  if A.isValidPath .opaquePath p.drvPath || A.onBackend p.drvPath then opaqueSuccess p.drvPath
  else
    match A.substitutePath .opaquePath p.drvPath with
    | some found => found.outcome p.drvPath
    | none => .of (goalFailure
        ("pynixd: opaque path is not valid locally: " ++ p.str S.storeDir) .unknown)

/-- One more output of the result that `_try_substitute_known_outputs` merges. -/
def Outcome.merge (o : Outcome) (name : String) (path : StorePath) : Outcome :=
  { o with
    resolvedOutputs := Dict.set o.resolvedOutputs name path
    producedPaths := insert path o.producedPaths }

/-- The loop of `_try_substitute_known_outputs`. -/
def substituteAll (A : Answers) (site : Site) : List (String × StorePath) → Outcome →
    Option Outcome
  | [], merged => some merged
  | (name, path) :: rest, merged =>
    if A.isValidPath site path then substituteAll A site rest (merged.merge name path)
    else
      match A.substitutePath site path with
      | none => none
      | some (.failed message status _) => some (.of (goalFailure message status))
      | some (.fetched _) => substituteAll A site rest (merged.merge name path)

/-- `_try_substitute_known_outputs`: an output without a path is left out. -/
def trySubstituteKnownOutputs (A : Answers) (site : Site) (paths : List (String × StorePath)) :
    Option Outcome :=
  let selected := paths.filter fun item => item.2.base ≠ ""
  if selected.isEmpty then none
  else substituteAll A site selected (.of (goalSuccess .alreadyValid))

/-! ## Realisations -/

section Store

variable {δ : Type} (S : StoreView δ) (A : Answers)

/-- The id that Nix writes for an output. -/
def drvOutputId (digest name : String) : String := "sha256:" ++ digest ++ "!" ++ name

/-- `output_paths` of a parsed derivation. -/
def outputPaths (d : Derivation) : List (String × StorePath) :=
  Dict.update [] (d.outputs.map fun o => (o.outputName, .ofText S.storeDir o.path))

def wantedPaths (paths : List (String × StorePath)) (wanted : Finset String) :
    List (String × StorePath) :=
  paths.filter fun item => item.1 ∈ wanted

def outputKinds (d : Derivation) : List OutputKind :=
  d.outputs.map fun o => DerivationOutput.kind ⟨o.path, o.hashAlgo, o.hashValue⟩

def isImpure (d : Derivation) : Bool := .impure ∈ outputKinds d

def isFixedOutput (d : Derivation) : Bool := (outputKinds d).all (· = .caFixed)

def shouldResolve (d : Derivation) : Bool :=
  if d.inputDrvs.1.isEmpty && d.dynamicInputDrvs.1.isEmpty then false
  else if !d.dynamicInputDrvs.1.isEmpty then true
  else (outputKinds d).any (· ≠ .inputAddressed)

/-- `_say_what_it_produced`: a realisation for each wanted output that the result names. -/
def sayWhatItProduced (o : Outcome) (d : Derivation) (wanted : Finset String) : Outcome :=
  if !(o.result.builtOutputs.getD []).isEmpty then o
  else
    match S.outputHashes d with
    | none => o
    | some hashes =>
      let built := o.resolvedOutputs.filterMap fun (name, path) =>
        if name ∈ wanted then
          (Dict.get? hashes name).map fun digest =>
            (drvOutputId digest name, ⟨drvOutputId digest name, some path, [], []⟩)
        else none
      if built.isEmpty then o
      else { o with result := { o.result with builtOutputs := some (Dict.update [] built) } }

def realisationsLoop (site : Site) (hashes : List (String × String)) :
    List String → List (String × Realisation) → Option (List (String × Realisation))
  | [], answer => some answer
  | name :: names, answer =>
    match Dict.get? hashes name with
    | none => none
    | some digest =>
      match A.queryRealisation site (drvOutputId digest name) with
      | none => none
      | some realisation =>
        if realisation.outPath.isNone then none
        else
          realisationsLoop site hashes names
            (Dict.set answer (drvOutputId digest name) realisation)

def realisationsOf (site : Site) (d : Derivation) (wanted : Finset String) :
    Option (List (String × Realisation)) := do
  let hashes ← S.outputHashes d
  realisationsLoop A site hashes (sortedSet wanted) []

/-- The outputs that realisations name, where all of their paths are valid. -/
def realisedPaths (site : Site) : List (String × Realisation) → List (String × StorePath) →
    Option (List (String × StorePath))
  | [], resolved => some resolved
  | (key, realisation) :: rest, resolved =>
    match realisation.outPath with
    | none => none
    | some path =>
      if A.isValidPath site path then
        realisedPaths site rest (Dict.set resolved (afterLast '!' key) path)
      else none

/-- The result that realisations with valid paths make. -/
def fromRealisations (site : Site) (built : List (String × Realisation)) : Option Outcome := do
  let resolved ← realisedPaths A site built []
  some
    { Outcome.of (goalSuccess .alreadyValid) with
      result := { success .alreadyValid with builtOutputs := some built }
      resolvedOutputs := resolved
      producedPaths := (resolved.map Prod.snd).toFinset }

/-- Some wanted output has a path in the derivation. -/
def namesAPath (d : Derivation) (wanted : Finset String) : Bool :=
  (wantedPaths (outputPaths S d) wanted).any fun item => item.2.base ≠ ""

def alreadyRealised (site : Site) (d : Derivation) (wanted : Finset String) : Option Outcome :=
  if wanted = ∅ ∨ namesAPath S d wanted = true ∨ isImpure d = true then none
  else do
    let built ← realisationsOf S A site d wanted
    fromRealisations A site built

def tryRealiseUpstream (d : Derivation) (wanted : Finset String) : Option Outcome :=
  if wanted = ∅ ∨ isImpure d = true ∨ namesAPath S d wanted = true ∨
      A.namesASubstituter = false then none
  else if A.buildPaths .upstream then alreadyRealised S A .upstream d wanted
  else none

/-- `_try_realise_the_resolved_one`: the early cut-off. -/
def tryRealiseTheResolvedOne (buildDrvPath drvPath : StorePath) (wanted : Finset String) :
    Option Outcome :=
  if wanted = ∅ ∨ buildDrvPath = drvPath ∨ A.namesASubstituter = false then none
  else do
    let resolved ← S.readDerivation buildDrvPath
    if isImpure resolved || !A.buildPaths .cutOff then none
    else do
      let built ← realisationsOf S A .cutOff resolved wanted
      fromRealisations A .cutOff built

/-! ## The outputs of an answer -/

/-- `_realisation_output_name`: the name in the id, or what the key has behind its mark. -/
def realisationOutputName (key : String) (realisation : Realisation) : String :=
  if afterFirst '!' realisation.id ≠ "" then afterFirst '!' realisation.id
  else if '!' ∈ key.toList then afterFirst '!' key else key

/-- `_under_the_id_that_pynixd_uses`: an answer by name gets keys as well. -/
def underTheIdThatPynixdUses (d : Derivation) (r : BuildResult) : BuildResult :=
  if r.realisedOutputs.isEmpty || !(r.builtOutputs.getD []).isEmpty then r
  else
    match S.outputHashes d with
    | none => r
    | some hashes =>
      let built := r.realisedOutputs.filterMap fun (name, realisation) =>
        (Dict.get? hashes name).map fun digest =>
          (drvOutputId digest name, { realisation with id := drvOutputId digest name })
      if built.isEmpty then r else { r with builtOutputs := some (Dict.update [] built) }

/-- The entry of a realisation under the id of the original derivation. -/
def rekey (hashes : Option (List (String × String))) (item : String × Realisation) :
    String × Realisation :=
  let name := realisationOutputName item.1 item.2
  match hashes.bind fun hashes => Dict.get? hashes name with
  | none => item
  | some digest =>
    if drvOutputId digest name = item.1 then item
    else (drvOutputId digest name, { item.2 with id := drvOutputId digest name, signatures := [] })

def underTheOriginalId (d : Derivation) (r : BuildResult) : BuildResult :=
  let built := r.builtOutputs.getD []
  let answer := built.map (rekey (S.outputHashes d))
  if answer.map Prod.fst = built.map Prod.fst then r
  else { r with builtOutputs := some (Dict.update [] answer) }

def onlyWantedOutputs (wanted : Finset String) (r : BuildResult) : BuildResult :=
  let built := r.builtOutputs.getD []
  let kept := built.filter fun item => realisationOutputName item.1 item.2 ∈ wanted
  if kept.length = built.length then r else { r with builtOutputs := some kept }

def Outcome.mapResult (f : BuildResult → BuildResult) (o : Outcome) : Outcome :=
  { o with result := f o.result }

/-! ## Builds -/

def declaredPaths (basic : BasicDerivation) : List (String × StorePath) :=
  (basic.outputs.1.filter fun item => item.2.path ≠ "").map fun (name, o) =>
    (name, .ofText S.storeDir o.path)

def answeredPaths (r : BuildResult) : List (String × StorePath) :=
  r.realisedOutputs.filterMap fun (name, realisation) =>
    (realisation.outPath.filter (·.base ≠ "")).map (name, ·)

/-- `BuildDerivationGoal`, from the answer on.  **A failure without a message is taken for a build
that was abandoned.** -/
def buildOutcome (basic : BasicDerivation) (r : BuildResult) : Outcome where
  result := r
  failingDerivation := none
  abandoned := !resultSucceeded r.status && r.errorMsg = ""
  resolvedOutputs := Dict.update (declaredPaths S basic) (answeredPaths r)
  producedPaths := ((declaredPaths S basic ++ answeredPaths r).map Prod.snd).toFinset
  dynamicPaths := []

/-- `_name_the_resolved_derivation`: another result, with neither a mark nor a name. -/
def nameTheResolvedDerivation (original built : StorePath) (o : Outcome) : Outcome :=
  if original = built || o.succeeded then o
  else
    { o with
      result := { o.result with
        errorMsg := "build of resolved derivation '" ++ built.str S.storeDir ++ "' failed" }
      failingDerivation := none
      abandoned := false }

/-! ## Inputs -/

def refuseAnImpureInput (d : Derivation) (drvPath : StorePath) : Option GoalResult :=
  if isImpure d || isFixedOutput d then none
  else
    (d.inputDrvs.1.find? fun item => (S.readDerivation item.1).any isImpure).map fun item =>
      goalFailure ("pure derivation '" ++ drvPath.str S.storeDir ++
        "' depends on impure derivation '" ++ item.1.str S.storeDir ++ "'") .unknown

/-- The builder is one of Nix's own. -/
def isBuiltin (d : Derivation) : Bool := "builtin:".toList.isPrefixOf d.builder.toList

/-- `_input_outputs_requiring_goals`.  **A builtin needs none.** -/
def inputOutputsRequiringGoals (drvPath : StorePath) (names : List String) : List String :=
  match S.readDerivation drvPath with
  | none => names
  | some d =>
    if isBuiltin d then []
    else names.filter fun name =>
      match Dict.get? (outputPaths S d) name with
      | none => true
      | some path => !A.isValidPath .input path

mutual
def childMapToDerivedPaths (drvPath : StorePath) (chain : List String) :
    ChildMapNode → List DerivedPath
  | .mk outputs children =>
    childrenToDerivedPaths drvPath chain children ++
      outputs.map fun name => ⟨drvPath, chain, some (.names {name})⟩

/-- The derived paths below the children of a node. -/
def childrenToDerivedPaths (drvPath : StorePath) (chain : List String) :
    List (String × ChildMapNode) → List DerivedPath
  | [] => []
  | (name, child) :: children =>
    childMapToDerivedPaths drvPath (chain ++ [name]) child ++
      childrenToDerivedPaths drvPath chain children
end

def childGoal (drvPath : StorePath) (name : String) : DerivedPath :=
  ⟨drvPath, [], some (.names {name})⟩

/-- The goals that `_realise_input_derivations` waits for. -/
def inputGoals (d : Derivation) : List DerivedPath :=
  d.inputDrvs.1.flatMap (fun (drvPath, names) =>
    (inputOutputsRequiringGoals S A drvPath names).map (childGoal drvPath)) ++
  d.dynamicInputDrvs.1.flatMap fun (drvPath, node) => childMapToDerivedPaths drvPath [] node

/-- The path of an output as the derivation of the input names it.  A derivation that is not
there answers with its own path. -/
def staticPath (drvPath : StorePath) (name : String) : Option StorePath :=
  match S.readDerivation drvPath with
  | none => some drvPath
  | some d => Dict.get? (outputPaths S d) name

/-- `_input_paths`, for one output of one input. -/
def inputPath (given : PathMap) (answer : PathMap) (drvPath : StorePath) (name : String) :
    PathMap :=
  match Dict.get? given (drvPath, [name]) with
  | some built => Dict.set answer (drvPath, [name]) built
  | none =>
    match staticPath S drvPath name with
    | some path => if path.base ≠ "" then Dict.set answer (drvPath, [name]) path else answer
    | none => answer

/-- The outputs of simple inputs that a derivation reads. -/
def simpleInputs (d : Derivation) : List (StorePath × String) :=
  d.inputDrvs.1.flatMap fun (drvPath, names) => names.map (drvPath, ·)

def inputPaths (d : Derivation) (given : PathMap) : PathMap :=
  (simpleInputs d).foldl (fun answer item => inputPath S given answer item.1 item.2) given

/-- The dynamic paths of all inputs. -/
def givenPaths (children : List Outcome) : PathMap :=
  children.foldl (fun given r => Dict.update given r.dynamicPaths) []

/-- The derivation that is built. -/
def resolve (d : Derivation) (drvPath : StorePath) (given : PathMap) :
    Except String BasicDerivation :=
  if !d.dynamicInputDrvs.1.isEmpty then
    resolveDynamicDerivation S.hashing S.storeDir d drvPath (inputPaths S d given)
  else if !d.inputDrvs.1.isEmpty then
    resolveDerivation S.hashing S.storeDir d drvPath (inputPaths S d given)
  else
    -- `to_basic_derivation`, of a derivation without inputs
    .ok ⟨d.basicOutputs, d.inputSrcs, d.platform, d.builder, d.args, d.env⟩

/-! ## A flat derivation -/

def outputNames (p : DerivedPath) : Finset String :=
  match p.outputs with
  | none => ∅
  | some .all => {"*"}
  | some (.names wanted) => wanted

def selectedOutputs (d : Derivation) (p : DerivedPath) : Finset String :=
  if outputNames p = {"*"} then (d.outputs.map (·.outputName)).toFinset else outputNames p

/-- `_ensure_flat_derivation`, up to the inputs. -/
def prepare (p : DerivedPath) : Outcome ⊕ Derivation :=
  match S.readDerivation p.drvPath with
  | none => .inl (.of (goalFailure
      ("pynixd: derivation not found: " ++ p.drvPath.str S.storeDir) .unknown))
  | some d =>
    let selected := selectedOutputs d p
    let missing := selected \ (d.outputs.map (·.outputName)).toFinset
    if missing ≠ ∅ then
      .inl (.of (goalFailure ("pynixd: derivation " ++ p.drvPath.str S.storeDir ++
        " does not define outputs: " ++ ", ".intercalate (sortedSet missing)) .unknown))
    else
      match trySubstituteKnownOutputs A .early (wantedPaths (outputPaths S d) selected) with
      | some o => .inl ((sayWhatItProduced S o d selected).withDynamicOutputs p.drvPath)
      | none =>
        match alreadyRealised S A .realised d selected with
        | some o => .inl (o.withDynamicOutputs p.drvPath)
        | none =>
          match tryRealiseUpstream S A d selected with
          | some o => .inl (o.withDynamicOutputs p.drvPath)
          | none =>
            match refuseAnImpureInput S d p.drvPath with
            | some refusal => .inl (.of refusal)
            | none => .inr d

/-- What the answer of a goal comes from: a result of one goal, without a build or with one. -/
inductive Ending where
  | unbuilt (p : DerivedPath) (r : BuildResult)
  | built (p : DerivedPath) (buildDrvPath : StorePath) (answer : BuildAnswer)

def Ending.goal : Ending → DerivedPath
  | .unbuilt goal _ => goal
  | .built goal _ _ => goal

/-- What happened below a goal, and what its answer comes from. -/
structure Trace where
  /-- The builds of the goals that it waited for. -/
  waited : List BuildAnswer
  /-- The build of its own, if it came to one. -/
  own : List BuildAnswer
  ending : Ending

def Trace.builds (trace : Trace) : List BuildAnswer := trace.waited ++ trace.own

/-- How a goal with inputs ends. -/
inductive Road where
  | ended (o : Outcome)
  /-- The derivation goes to the queue under a path. -/
  | built (basic : BasicDerivation) (buildDrvPath : StorePath) (answer : BuildAnswer)

def buildPathOf (d : Derivation) (drvPath : StorePath) (basic : BasicDerivation) : StorePath :=
  if shouldResolve d then (A.addTextToStore basic).getD drvPath else drvPath

/-- `_ensure_flat_derivation`, from the outcomes of the inputs on. -/
def finish (p : DerivedPath) (d : Derivation) (children : List Outcome) : Except String Road :=
  let selected := selectedOutputs d p
  match refuseAFailedInput S.storeDir A.watchers (children.map (·.toGoalResult)) p.drvPath
      (outputPaths S d) with
  | some refusal => .ok (.ended (.of refusal))
  | none => do
    let basic ← resolve S d p.drvPath (givenPaths children)
    match trySubstituteKnownOutputs A .late
        (wantedPaths (basic.outputPaths S.storeDir) selected) with
    | some o =>
      .ok (.ended ((sayWhatItProduced S o d selected).withDynamicOutputs p.drvPath))
    | none =>
      let buildDrvPath := buildPathOf A d p.drvPath basic
      match tryRealiseTheResolvedOne S A buildDrvPath p.drvPath selected with
      | some o => .ok (.ended ((o.mapResult fun r =>
        onlyWantedOutputs selected (underTheOriginalId S d r)).withDynamicOutputs p.drvPath))
      | none => .ok (.built basic buildDrvPath (A.build buildDrvPath basic))

/-- The outcome of a build, as the goal of a derivation gives it on. -/
def builtOutcome (p : DerivedPath) (d : Derivation) (basic : BasicDerivation)
    (buildDrvPath : StorePath) (r : BuildResult) : Outcome :=
  let o := (buildOutcome S basic r).mapResult (underTheIdThatPynixdUses S d)
  let o := nameTheResolvedDerivation S p.drvPath buildDrvPath o
  (o.withDynamicOutputs p.drvPath).mapResult fun r =>
    onlyWantedOutputs (selectedOutputs d p) (underTheOriginalId S d r)

namespace Road

def outcome (p : DerivedPath) (d : Derivation) : Road → Outcome
  | .ended o => o
  | .built basic buildDrvPath answer => builtOutcome S p d basic buildDrvPath answer.result

def builds : Road → List BuildAnswer
  | .ended _ => []
  | .built _ _ answer => [answer]

def ending (p : DerivedPath) : Road → Ending
  | .ended o => .unbuilt p o.result
  | .built _ buildDrvPath answer => .built p buildDrvPath answer

end Road

/-! ## A nested path -/

def isDerivation (p : StorePath) : Bool := ".drv".toList.isSuffixOf p.base.toList

/-- The key of an output behind a nested path. -/
def nestedKey (p : DerivedPath) (name : String) : PathKey := (p.drvPath, p.chain ++ [name])

/-- `_ensure_nested`, once the outer derivation answered: a refusal, or the path of the output
that the chain names. -/
def nestedStep (p : DerivedPath) (outer : Outcome) : GoalResult ⊕ StorePath :=
  match Dict.get? outer.resolvedOutputs (p.chain.getLastD "") with
  | none =>
    if outer.succeeded then
      .inl (goalFailure ("pynixd: nested derived path did not produce " ++
        p.chain.getLastD "" ++ ": " ++ p.str S.storeDir) .unknown)
    else
      .inl { goalFailure ("failed to obtain derivation of '" ++
          p.outer.toString S.storeDir ++ "'") .dependencyFailed with
        failingDerivation := outer.failingDerivation }
  | some inner => .inr inner

/-- `_ensure_nested`, of an output that is no derivation: **the answer of the outer one**. -/
def collapsedOutcome (p : DerivedPath) (inner : StorePath) (outer : Outcome) : Outcome :=
  let keyed : PathMap := (sortedSet (outputNames p)).map fun name => (nestedKey p name, inner)
  { outer with dynamicPaths := Dict.update outer.dynamicPaths keyed }

/-- `_ensure_nested`, with the outcome of the inner derivation. -/
def nestedOutcome (p : DerivedPath) (inner : StorePath) (rest : Outcome) : Outcome :=
  let keyed : PathMap := rest.resolvedOutputs.map fun (name, path) => (nestedKey p name, path)
  { rest with
    dynamicPaths := Dict.update rest.dynamicPaths keyed
    producedPaths := insert inner rest.producedPaths }

/-! ## The tree -/

/-- **What a goal answers**, and the builds below it: its own, and those of the goals that it
waits for. -/
inductive Ensures : DerivedPath → Outcome → Trace → Prop
  | opaquePath (A : Answers) {p : DerivedPath} (h : p.isOpaque = true) :
      Ensures p ((ensureOpaque S A p).named p) ⟨[], [], .unbuilt p (ensureOpaque S A p).result⟩
  | nestedRefused {p : DerivedPath} {outer : Outcome} {r : GoalResult} {below : Trace}
      (h : p.isOpaque = false ∧ p.isNested = true) (houter : Ensures p.outer outer below)
      (hstep : nestedStep S p outer = .inl r) :
      Ensures p ((Outcome.of r).named p) ⟨below.builds, [], .unbuilt p r.result⟩
  | nestedCollapses {p : DerivedPath} {outer : Outcome} {inner : StorePath} {below : Trace}
      (h : p.isOpaque = false ∧ p.isNested = true) (houter : Ensures p.outer outer below)
      (hstep : nestedStep S p outer = .inr inner) (hinner : isDerivation inner = false) :
      Ensures p ((collapsedOutcome p inner outer).named p) below
  | nestedWraps {p : DerivedPath} {outer rest : Outcome} {inner : StorePath}
      {below behind : Trace} (h : p.isOpaque = false ∧ p.isNested = true)
      (houter : Ensures p.outer outer below) (hstep : nestedStep S p outer = .inr inner)
      (hinner : isDerivation inner = true) (hrest : Ensures (p.wrap inner) rest behind) :
      Ensures p ((nestedOutcome p inner rest).named p)
        ⟨below.builds ++ behind.waited, behind.own, behind.ending⟩
  | flatEnds (A : Answers) {p : DerivedPath} {o : Outcome}
      (h : p.isOpaque = false ∧ p.isNested = false) (hprepare : prepare S A p = .inl o) :
      Ensures p (o.named p) ⟨[], [], .unbuilt p o.result⟩
  | flat (A : Answers) {p : DerivedPath} {d : Derivation} {road : Road}
      (h : p.isOpaque = false ∧ p.isNested = false) (hprepare : prepare S A p = .inr d)
      (run : DerivedPath → Outcome) (below : DerivedPath → Trace)
      (hinputs : ∀ c ∈ inputGoals S A d, Ensures c (run c) (below c))
      (hroad : finish S A p d ((inputGoals S A d).map run) = .ok road) :
      Ensures p ((road.outcome S p d).named p)
        ⟨(inputGoals S A d).flatMap fun c => (below c).builds, road.builds, road.ending p⟩

/-! ## Roads -/

theorem afterLast_drvOutputId (digest : String) {name : String}
    (h : '!' ∉ name.toList) :
    afterLast '!' (drvOutputId digest name) = name := by
  have hlist : (drvOutputId digest name).toList.reverse =
      name.toList.reverse ++ '!' :: ("sha256:" ++ digest).toList.reverse := by
    simp [drvOutputId]
  have htake : ∀ c ∈ name.toList.reverse, decide (c ≠ '!') = true := by
    intro c hc
    exact decide_eq_true fun heq => h (heq ▸ List.mem_reverse.1 hc)
  rw [afterLast, hlist, List.takeWhile_append_of_pos htake]
  simp

/-- A refusal of the goal's own: a failure without outputs, and no mark. -/
structure GoalResult.Refusal (r : GoalResult) : Prop where
  fails : r.succeeded = false
  unmarked : r.abandoned = false
  empty : r.result.builtOutputs = some [] ∧ r.result.builtOutputsByName = none

theorem refusal_goalFailure (message : String) {status : BuildResultStatus}
    (h : status.isSuccess = false) : (goalFailure message status).Refusal where
  fails := by
    rw [GoalResult.succeeded, goalFailure, failure, resultSucceeded,
      BuildResultStatus.ofValue_value]
    exact h
  unmarked := rfl
  empty := ⟨rfl, rfl⟩

variable {d : Derivation} {r : GoalResult} {children : List Outcome} {drvPath : StorePath}

variable {watchers : List (Option Options)} {paths : List (String × StorePath)}
  {results : List GoalResult} {o : Outcome} {storeDir : String}

theorem refusal_refuseAFailedInput
    (h : refuseAFailedInput storeDir watchers results drvPath paths = some r) :
    r.Refusal := by
  unfold refuseAFailedInput at h
  dsimp only at h
  split at h
  · cases h
  · rw [← Option.some.inj h]
    exact ⟨rfl, rfl, rfl, rfl⟩

theorem refuseAFailedInput_eq_none_iff :
    refuseAFailedInput storeDir watchers results drvPath paths = none ↔
      ∀ r ∈ results, r.succeeded = true := by
  unfold refuseAFailedInput
  dsimp only
  split
  · next hnone =>
    have hempty := List.head?_eq_none_iff.1 hnone
    simpa using hempty
  · next first hfirst =>
    have hmem := List.mem_filter.1 (List.mem_of_head? hfirst)
    simp only [reduceCtorEq, false_iff, not_forall]
    exact ⟨first, hmem.1, by simpa using hmem.2⟩

theorem refusal_refuseAnImpureInput (h : refuseAnImpureInput S d drvPath = some r) : r.Refusal := by
  unfold refuseAnImpureInput at h
  split_ifs at h
  obtain ⟨item, -, hr⟩ := Option.map_eq_some_iff.1 h
  rw [← hr]
  exact refusal_goalFailure _ rfl

inductive Prepares (p : DerivedPath) : Outcome → Prop
  | refused {r : GoalResult} (h : r.Refusal) : Prepares p (.of r)
  | substituted {d : Derivation} {o : Outcome} (hread : S.readDerivation p.drvPath = some d)
      (h : trySubstituteKnownOutputs A .early
        (wantedPaths (outputPaths S d) (selectedOutputs d p)) = some o) :
      Prepares p ((sayWhatItProduced S o d (selectedOutputs d p)).withDynamicOutputs p.drvPath)
  | realised {d : Derivation} {o : Outcome} (site : Site)
      (hread : S.readDerivation p.drvPath = some d)
      (h : alreadyRealised S A site d (selectedOutputs d p) = some o) :
      Prepares p (o.withDynamicOutputs p.drvPath)

inductive Finishes (p : DerivedPath) (d : Derivation) (children : List Outcome) : Road → Prop
  | refused {r : GoalResult}
      (h : refuseAFailedInput S.storeDir A.watchers (children.map (·.toGoalResult)) p.drvPath
        (outputPaths S d) = some r) : Finishes p d children (.ended (.of r))
  | substituted {basic : BasicDerivation} {o : Outcome}
      (hchildren : ∀ c ∈ children, c.succeeded = true)
      (hresolve : resolve S d p.drvPath (givenPaths children) = .ok basic)
      (h : trySubstituteKnownOutputs A .late
        (wantedPaths (basic.outputPaths S.storeDir) (selectedOutputs d p)) = some o) :
      Finishes p d children
        (.ended ((sayWhatItProduced S o d (selectedOutputs d p)).withDynamicOutputs p.drvPath))
  | cutOff {basic : BasicDerivation} {o : Outcome}
      (hchildren : ∀ c ∈ children, c.succeeded = true)
      (hresolve : resolve S d p.drvPath (givenPaths children) = .ok basic)
      (h : tryRealiseTheResolvedOne S A (buildPathOf A d p.drvPath basic) p.drvPath
        (selectedOutputs d p) = some o) :
      Finishes p d children (.ended ((o.mapResult fun r =>
        onlyWantedOutputs (selectedOutputs d p) (underTheOriginalId S d r)).withDynamicOutputs
          p.drvPath))
  | built {basic : BasicDerivation} (hchildren : ∀ c ∈ children, c.succeeded = true)
      (hresolve : resolve S d p.drvPath (givenPaths children) = .ok basic) :
      Finishes p d children (.built basic (buildPathOf A d p.drvPath basic)
        (A.build (buildPathOf A d p.drvPath basic) basic))

variable {S A} {p : DerivedPath}

theorem alreadyRealised_of_upstream {wanted : Finset String}
    (h : tryRealiseUpstream S A d wanted = some o) :
    alreadyRealised S A .upstream d wanted = some o := by
  unfold tryRealiseUpstream at h
  split_ifs at h
  exact h

/-- **What is substituted** is a merge of what there is, or a failure. -/
theorem trySubstituteKnownOutputs_induction {P : Outcome → Prop} {site : Site}
    (hvalid : P (.of (goalSuccess .alreadyValid)))
    (hmerge : ∀ o name path, P o → P (o.merge name path))
    (hfail : ∀ message status, BuildResultStatus.isSuccess status = false →
      P (.of (goalFailure message status)))
    (h : trySubstituteKnownOutputs A site paths = some o) : P o := by
  have hall : ∀ (paths : List (String × StorePath)) merged, P merged →
      substituteAll A site paths merged = some o → P o := by
    intro paths
    induction paths with
    | nil =>
      intro merged hmerged h
      exact Option.some.inj h ▸ hmerged
    | cons item paths ih =>
      intro merged hmerged h
      rw [substituteAll] at h
      split_ifs at h
      · exact ih _ (hmerge merged item.1 item.2 hmerged) h
      · split at h
        · cases h
        · next message status fails _ => exact Option.some.inj h ▸ hfail message status fails
        · exact ih _ (hmerge merged item.1 item.2 hmerged) h
  unfold trySubstituteKnownOutputs at h
  dsimp only at h
  split_ifs at h
  exact hall _ _ hvalid h

theorem exists_realisations_of_cutOff {buildDrvPath drvPath : StorePath} {wanted : Finset String}
    (h : tryRealiseTheResolvedOne S A buildDrvPath drvPath wanted = some o) :
    ∃ resolved built, realisationsOf S A .cutOff resolved wanted = some built ∧
      fromRealisations A .cutOff built = some o := by
  unfold tryRealiseTheResolvedOne at h
  split_ifs at h
  obtain ⟨resolved, -, h⟩ := Option.bind_eq_some_iff.1 h
  split_ifs at h
  obtain ⟨built, hbuilt, ho⟩ := Option.bind_eq_some_iff.1 h
  exact ⟨resolved, built, hbuilt, ho⟩

theorem sayWhatItProduced_eq (o : Outcome) (d : Derivation) (wanted : Finset String) :
    ∃ f, sayWhatItProduced S o d wanted = o.mapResult f := by
  unfold sayWhatItProduced
  split_ifs
  · exact ⟨id, rfl⟩
  · split
    · exact ⟨id, rfl⟩
    · dsimp only
      split_ifs
      · exact ⟨id, rfl⟩
      · exact ⟨fun r => { r with builtOutputs := _ }, rfl⟩

theorem prepares_of_prepare (h : prepare S A p = .inl o) : Prepares S A p o := by
  unfold prepare at h
  split at h
  · rw [← Sum.inl.inj h]
    exact .refused (refusal_goalFailure _ rfl)
  · next d hread =>
    dsimp only at h
    split_ifs at h with hmissing
    · rw [← Sum.inl.inj h]
      exact .refused (refusal_goalFailure _ rfl)
    · split at h
      · next hearly =>
        rw [← Sum.inl.inj h]
        exact .substituted hread hearly
      · split at h
        · next hrealised =>
          rw [← Sum.inl.inj h]
          exact .realised .realised hread hrealised
        · split at h
          · next hupstream =>
            rw [← Sum.inl.inj h]
            exact .realised .upstream hread (alreadyRealised_of_upstream hupstream)
          · split at h
            · next hrefuse =>
              rw [← Sum.inl.inj h]
              exact .refused (refusal_refuseAnImpureInput S hrefuse)
            · cases h

theorem read_of_prepare (h : prepare S A p = .inr d) : S.readDerivation p.drvPath = some d := by
  unfold prepare at h
  split at h
  · cases h
  · next d' hread =>
    dsimp only at h
    split_ifs at h
    · split at h
      · cases h
      · split at h
        · cases h
        · split at h
          · cases h
          · split at h
            · cases h
            · rw [hread, Sum.inr.inj h]

theorem finishes_of_finish {road : Road}
    (h : finish S A p d children = .ok road) : Finishes S A p d children road := by
  unfold finish at h
  dsimp only at h
  split at h
  · next hrefuse =>
    rw [← Except.ok.inj h]
    exact .refused hrefuse
  · next hrefuse =>
    have hchildren : ∀ c ∈ children, c.succeeded = true := fun c hc =>
      refuseAFailedInput_eq_none_iff.1 hrefuse c.toGoalResult (List.mem_map_of_mem hc)
    obtain ⟨basic, hresolve, h⟩ := except_bind_eq_ok.1 h
    split at h
    · next hlate =>
      rw [← Except.ok.inj h]
      exact .substituted hchildren hresolve hlate
    · split at h
      · next hcutOff =>
        rw [← Except.ok.inj h]
        exact .cutOff hchildren hresolve hcutOff
      · rw [← Except.ok.inj h]
        exact .built hchildren hresolve

/-! ### Roads that are taken -/

theorem prepare_eq_of_isRight (hread : S.readDerivation p.drvPath = some d)
    (h : (prepare S A p).isRight = true) : prepare S A p = .inr d := by
  obtain ⟨d', hd'⟩ := Sum.isRight_iff.1 h
  rw [hd', Option.some.inj ((read_of_prepare hd').symm.trans hread)]

theorem finish_eq_of_builds
    (h : (finish S A p d children).toOption.any (fun road => road.builds.length = 1) = true) :
    ∃ basic, finish S A p d children = .ok (.built basic (buildPathOf A d p.drvPath basic)
      (A.build (buildPathOf A d p.drvPath basic) basic)) := by
  cases hroad : finish S A p d children with
  | error message =>
    rw [hroad] at h
    cases h
  | ok road =>
    rw [hroad] at h
    cases finishes_of_finish hroad with
    | @built basic => exact ⟨basic, rfl⟩
    | refused => cases h
    | substituted => cases h
    | cutOff => cases h

end Store

/-- A store with nothing in it, and no substituter: every build gets the answer. -/
def Answers.nothingThere (answer : BuildAnswer) : Answers where
  isValidPath _ _ := false
  onBackend _ := false
  substitutePath _ _ := none
  namesASubstituter := false
  buildPaths _ := false
  queryRealisation _ _ := none
  asked _ _ _ h := by cases h
  watchers := []
  addTextToStore _ := none
  build _ _ := answer

end Pynixd.Goals
