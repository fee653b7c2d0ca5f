import Pynixd.Drv.BasicDerivation

/-!
# Resolving a derivation

`pynixd/goals/resolution.py` turns a derivation into one without input derivations: each output
of an input becomes an input source, and its placeholder becomes its path wherever a string
holds it.  SHA-256 and the encodings of a digest are parameters.

* `inputReferences` — the outputs of inputs that a derivation reads, with their placeholders: a
  simple input by its name, a dynamic one by the whole chain of outputs;
* `takePaths` — **the paths that are taken**, one for each reference, or the error that names
  the first reference without one;
* `assemble` — the derivation with these paths in it;
* `resolveDerivation`, `resolveDynamicDerivation` — the two entry points.
-/

namespace Pynixd

/-- The digests that the placeholders and the output paths are made of. -/
structure Hashing (δ : Type) where
  sha256 : String → δ
  /-- `_compress_hash`, to 20 bytes. -/
  compress : δ → δ
  nix32Encode : δ → String
  hex : δ → String

/-- `StorePath(text)`, for a path of this store. -/
def StorePath.ofText (storeDir : String) (text : String) : StorePath :=
  if (storeDir ++ "/").toList.isPrefixOf text.toList then
    ⟨String.ofList (text.toList.drop (storeDir ++ "/").toList.length)⟩
  else ⟨text⟩

/-! ## Names -/

def outputPathName (drvName outputName : String) : String :=
  if outputName = "out" then drvName else drvName ++ "-" ++ outputName

/-- `_nix_store_path_name`: what follows the first dash of the last component. -/
def nixStorePathName (text : String) : String :=
  let basename := afterLast '/' text
  if '-' ∈ basename.toList then afterFirst '-' basename else basename

def nixDrvName (storeDir : String) (drvPath : StorePath) : String :=
  let name := nixStorePathName (drvPath.str storeDir)
  if ".drv".toList.isSuffixOf name.toList then
    String.ofList (name.toList.take (name.toList.length - 4))
  else name

/-- `str(drv_path).rsplit("/", 1)[-1].split("-", 1)[0]`. -/
def hashPart (storeDir : String) (drvPath : StorePath) : String :=
  String.ofList ((afterLast '/' (drvPath.str storeDir)).toList.takeWhile (· ≠ '-'))

section Hashes

variable {δ : Type} (H : Hashing δ) (storeDir : String)

/-- The digest behind `downstream_placeholder`. -/
def upstreamOutputHash (drvPath : StorePath) (outputName : String) : δ :=
  H.sha256 ("nix-upstream-output:" ++ hashPart storeDir drvPath ++ ":" ++
    outputPathName (nixDrvName storeDir drvPath) outputName)

/-- `downstream_placeholder_unknown_derivation_raw`. -/
def unknownDerivationHash (parentHash : δ) (outputName : String) : δ :=
  H.sha256 ("nix-computed-output:" ++ H.nix32Encode (H.compress parentHash) ++ ":" ++ outputName)

def placeholderOf (digest : δ) : String := "/" ++ H.nix32Encode digest

def makeStorePath (type : String) (hashModulo : δ) (name : String) : String :=
  let digest := H.sha256
    (type ++ ":sha256:" ++ H.hex hashModulo ++ ":" ++ storeDir ++ ":" ++ name)
  storeDir ++ "/" ++ H.nix32Encode (H.compress digest) ++ "-" ++ name

def makeOutputPath (outputId : String) (hashModulo : δ) (drvName : String) : String :=
  makeStorePath H storeDir ("output:" ++ outputId) hashModulo (outputPathName drvName outputId)

/-! ## References -/

/-- The root derivation and the chain of outputs below it: a key of `DynamicPathMap`. -/
abbrev PathKey := StorePath × List String

abbrev PathMap := List (PathKey × StorePath)

/-- The outputs of simple inputs, in the order of the derivation. -/
def simpleReferences (d : Derivation) : List (String × PathKey) :=
  d.inputDrvs.1.flatMap fun (input, names) =>
    names.map fun name =>
      (placeholderOf H (upstreamOutputHash H storeDir input name), (input, [name]))

/-- The digest of one level of a chain: the first one is an output of the root. -/
def levelHash (drvPath : StorePath) (parentHash : Option δ) (name : String) : δ :=
  match parentHash with
  | none => upstreamOutputHash H storeDir drvPath name
  | some parent => unknownDerivationHash H parent name

mutual
/-- `_resolve_dynamic_node`: the references below one node, the deeper ones first. -/
def nodeReferences (drvPath : StorePath) (parentHash : Option δ) (chain : List String) :
    ChildMapNode → List (String × PathKey)
  | .mk outputs children =>
    childReferences drvPath parentHash chain children ++
      outputs.map fun leaf =>
        (placeholderOf H (levelHash H storeDir drvPath parentHash leaf),
          (drvPath, chain ++ [leaf]))

def childReferences (drvPath : StorePath) (parentHash : Option δ) (chain : List String) :
    List (String × ChildMapNode) → List (String × PathKey)
  | [] => []
  | (name, child) :: children =>
    nodeReferences drvPath (some (levelHash H storeDir drvPath parentHash name))
        (chain ++ [name]) child ++
      childReferences drvPath parentHash chain children
end

def inputReferences (d : Derivation) : List (String × PathKey) :=
  simpleReferences H storeDir d ++
    d.dynamicInputDrvs.1.flatMap fun (drvPath, node) =>
      nodeReferences H storeDir drvPath none [] node

theorem inputReferences_of_simple {d : Derivation} (h : d.dynamicInputDrvs.1 = []) :
    inputReferences H storeDir d = simpleReferences H storeDir d := by
  rw [inputReferences, h, List.flatMap_nil, List.append_nil]

end Hashes

/-- The path of each reference, under its placeholder; the first reference without a path is a
`ValueError`. -/
def takePaths (storeDir : String) (paths : PathMap) :
    List (String × PathKey) → Except String (List (String × StorePath))
  | [] => .ok []
  | (placeholder, key) :: rest =>
    match Dict.get? paths key with
    | none => .error ("No resolved path for " ++ "!".intercalate (key.1.str storeDir :: key.2))
    | some path => do
      let taken ← takePaths storeDir paths rest
      .ok ((placeholder, path) :: taken)

variable {storeDir : String} {paths : PathMap} {references : List (String × PathKey)}

theorem takePaths_eq_ok {taken : List (String × StorePath)}
    (h : takePaths storeDir paths references = .ok taken) :
    references.map (fun r => (r.1, Dict.get? paths r.2)) =
      taken.map (fun x => (x.1, some x.2)) := by
  induction references generalizing taken with
  | nil =>
    rw [← Except.ok.inj h]
    rfl
  | cons r references ih =>
    rw [takePaths] at h
    split at h
    · cases h
    · next found hfound =>
      obtain ⟨rest, hrest, h⟩ := except_bind_eq_ok.1 h
      rw [← Except.ok.inj h, List.map_cons, List.map_cons, ih hrest, hfound]

theorem mem_takePaths {taken : List (String × StorePath)}
    (h : takePaths storeDir paths references = .ok taken) {p : String} {path : StorePath} :
    (p, path) ∈ taken ↔ ∃ r ∈ references, r.1 = p ∧ Dict.get? paths r.2 = some path := by
  have hmem : (p, path) ∈ taken ↔ (p, some path) ∈ taken.map (fun x => (x.1, some x.2)) := by
    simp
  rw [hmem, ← takePaths_eq_ok h]
  simp

/-! ## The resolved derivation -/

def rewriteStrings (rewrites : List (String × String)) (s : String) : String :=
  rewrites.foldl (fun s (old, new) => if old = new then s else s.replace old new) s

/-- `{o.name: DerivationOutput(…) for o in drv.outputs}`. -/
def Derivation.basicOutputs (d : Derivation) : Dict.Table String DerivationOutput :=
  d.outputs.foldl (fun t o => t.set o.outputName ⟨o.path, o.hashAlgo, o.hashValue⟩) .empty

namespace BasicDerivation

def isDeferred (o : DerivationOutput) : Bool := o.path = "" && o.method = "" && o.hashDigest = ""

section Deferred

variable {δ : Type} (H : Hashing δ) (storeDir : String)

def resolveDeferredOutput (hashModulo : δ) (drvName : String) (d : BasicDerivation)
    (item : String × DerivationOutput) : BasicDerivation :=
  if isDeferred item.2 then
    let outPath := makeOutputPath H storeDir item.1 hashModulo drvName
    { d with outputs := d.outputs.set item.1 ⟨outPath, "", ""⟩, env := d.env.set item.1 outPath }
  else d

/-- `_resolve_deferred_outputs`: a deferred output takes its path from the whole text. -/
def resolveDeferredOutputs (d : BasicDerivation) (drvName : String) : BasicDerivation :=
  let hashModulo := H.sha256 (String.ofList (d.unparse storeDir true))
  d.outputs.1.foldl (resolveDeferredOutput H storeDir hashModulo drvName) d

variable {H storeDir}

theorem get?_foldl_resolveDeferredOutput {hashModulo : δ} {drvName name : String}
    {items : List (String × DerivationOutput)} {d : BasicDerivation}
    (hkept : ∀ item ∈ items, item.1 = name → isDeferred item.2 = false) :
    Dict.get? (items.foldl (resolveDeferredOutput H storeDir hashModulo drvName) d).outputs.1
      name = Dict.get? d.outputs.1 name := by
  induction items generalizing d with
  | nil => rfl
  | cons item items ih =>
    rw [List.foldl_cons, ih fun i hi => hkept i (List.mem_cons_of_mem _ hi),
      resolveDeferredOutput]
    split_ifs with hdeferred
    · have hne : item.1 ≠ name := fun hname => by
        rw [hkept item (List.mem_cons_self ..) hname] at hdeferred
        cases hdeferred
      exact Dict.get?_set_of_ne _ _ hne
    · rfl

theorem get?_outputs_resolveDeferredOutputs (d : BasicDerivation) (drvName : String)
    {name : String} {o : DerivationOutput} (ho : Dict.get? d.outputs.1 name = some o)
    (hdeferred : isDeferred o = false) :
    Dict.get? (d.resolveDeferredOutputs H storeDir drvName).outputs.1 name = some o := by
  rw [resolveDeferredOutputs, get?_foldl_resolveDeferredOutput, ho]
  intro item hitem hname
  have hget := (Dict.get?_eq_some_iff_mem d.outputs.2).2 hitem
  rw [hname, ho] at hget
  rw [← Option.some.inj hget, hdeferred]

end Deferred

def outputPaths (storeDir : String) (d : BasicDerivation) : List (String × StorePath) :=
  d.outputs.1.map fun (name, o) => (name, .ofText storeDir o.path)

end BasicDerivation

section Resolve

variable {δ : Type} (H : Hashing δ) (storeDir : String)

/-- The derivation with the paths that were taken. -/
def assemble (d : Derivation) (drvPath : StorePath) (taken : List (String × StorePath)) :
    BasicDerivation :=
  let rewrites := Dict.update [] (taken.map fun (placeholder, path) =>
    (placeholder, path.str storeDir))
  BasicDerivation.resolveDeferredOutputs H storeDir
    { outputs := d.basicOutputs
      inputSrcs := d.inputSrcs ∪ (taken.map Prod.snd).toFinset
      platform := d.platform
      builder := rewriteStrings rewrites d.builder
      args := d.args.map (rewriteStrings rewrites)
      env := ⟨d.env.1.map fun (k, v) => (k, rewriteStrings rewrites v), by
        simpa [List.map_map, Function.comp_def] using d.env.2⟩ }
    (nixDrvName storeDir drvPath)

def resolveDerivation (d : Derivation) (drvPath : StorePath) (paths : PathMap) :
    Except String BasicDerivation := do
  let taken ← takePaths storeDir paths (simpleReferences H storeDir d)
  .ok (assemble H storeDir d drvPath taken)

def resolveDynamicDerivation (d : Derivation) (drvPath : StorePath) (paths : PathMap) :
    Except String BasicDerivation := do
  let taken ← takePaths storeDir paths (inputReferences H storeDir d)
  .ok (assemble H storeDir d drvPath taken)

end Resolve

end Pynixd
