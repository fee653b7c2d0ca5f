import Mathlib.Data.Finset.Card
import Pynixd.Goals.Ensure
import Pynixd.Lib.Routines

/-!
# `hashDerivationModulo` over a closure

`Derivation.hash_derivation_modulo` hashes one derivation and needs the hash of every output that
the derivation reads from another one.  `pynixd/drv_hash.py` walks the input derivations for
them, and keeps what it found in a cache that all calls share.

* `remember` — a cache of bounded size, where the oldest entries go first;
* `ensures_outputHashes` — **whatever the other calls do**, a call answers what the walk computes;
* `calls_agree` — every call answers as with an empty cache of its own, and every entry of the
  cache is what a walk of its own would find.
-/

namespace Pynixd

open List

def ChildMapNode.outputs : ChildMapNode → List String
  | .mk outputs _ => outputs

namespace DrvHash

open Routines Relation
open Goals (isFixedOutput)

/-- `OutputHashes`: the hash of each output. -/
abbrev Hashes := List (String × String)

/-- The outputs that are wanted under each hash. -/
abbrev InputHashes := List (String × List String)

/-- The hashes of the input derivations that were met. -/
abbrev HashCache := List (String × Hashes)

/-! ## One derivation -/

section Modulo

variable {δ : Type} (H : Hashing δ) (storeDir : String)

/-- `hashlib.sha256(text.encode()).hexdigest()`. -/
def hexdigest (text : List Char) : String := H.hex (H.sha256 (String.ofList text))

/-- The text that is hashed for a fixed output. -/
def fixedText (o : DrvOutput) : List Char :=
  ("fixed:out:" ++ o.hashAlgo ++ ":" ++ o.hashValue ++ ":" ++ o.path).toList

/-- A dictionary over the outputs of a derivation. -/
def underNames (d : Derivation) (value : DrvOutput → String) : Hashes :=
  Dict.update [] (d.outputs.map fun o => (o.outputName, value o))

/-- The text of a derivation, with its inputs replaced. -/
def moduloText (d : Derivation) (maskOutputs : Bool) (inputs : Option InputHashes) : List Char :=
  d.unparse storeDir maskOutputs
    (inputs.map fun inputs => inputs.map fun item => (item.1, .mk item.2 [] false))

def hashDerivationModulo (d : Derivation) (maskOutputs : Bool)
    (inputDrvHashes : Option InputHashes) : Hashes :=
  if isFixedOutput d then underNames d fun o => hexdigest H (fixedText o)
  else
    let h := hexdigest H (moduloText storeDir d maskOutputs inputDrvHashes)
    underNames d fun _ => h

end Modulo

/-! ## The walk -/

def cacheLimit : Nat := 20000

def remember (cache : HashCache) (drvPath : String) (hashes : Hashes) : HashCache :=
  let cache := if cacheLimit ≤ cache.length then cache.drop (cacheLimit / 4) else cache
  Dict.set cache drvPath hashes

/-- `wanted`: the input derivations and the outputs that are read from each.  **A dynamic input
takes part, and its tree does not.** -/
def wanted (storeDir : String) (parsed : Derivation) : List (String × List String) :=
  parsed.inputDrvs.1.map (fun item => (item.1.str storeDir, item.2)) ++
    parsed.dynamicInputDrvs.1.map fun item => (item.1.str storeDir, item.2.outputs)

/-- The inner loop of `_input_hashes`. -/
def collectNames (hashes : Hashes) : List String → InputHashes → Option InputHashes
  | [], inputs => some inputs
  | outputName :: outputNames, inputs =>
    match Dict.get? hashes outputName with
    | none => none
    | some digest => collectNames hashes outputNames (Dict.append inputs digest outputName)

/-- `_input_hashes`, with what answers for one input derivation. -/
def inputHashes (closureHashes : String → Routine HashCache (Option Hashes)) :
    List (String × List String) → InputHashes → Routine HashCache (Option InputHashes)
  | [], inputs => pure (some inputs)
  | (inputDrv, outputNames) :: wanted, inputs => do
    match ← closureHashes inputDrv with
    | none => pure none
    | some hashes =>
      match collectNames hashes outputNames inputs with
      | none => pure none
      | some inputs => inputHashes closureHashes wanted inputs

section Walk

variable {δ : Type} (H : Hashing δ) (storeDir : String) (read : String → Option Derivation)

/-- `_closure_hashes`, down to a depth; the call fails where Python would run out of stack. -/
def closureHashes : Nat → String → Routine HashCache (Option Hashes)
  | 0, _ => .fail
  | depth + 1, drvPath => do
    let cache ← Routine.get
    match Dict.get? cache drvPath with
    | some cached => pure (some cached)
    | none => do
      Routine.yield
      match read drvPath with
      | none => pure none
      | some parsed => do
        match ← inputHashes (closureHashes depth) (wanted storeDir parsed) [] with
        | none => pure none
        | some inputs => do
          let hashes := hashDerivationModulo H storeDir parsed false (some inputs)
          Routine.modify (remember · drvPath hashes)
          pure (some hashes)

def outputHashes (depth : Nat) (parsed : Derivation) : Routine HashCache (Option Hashes) := do
  match ← inputHashes (closureHashes H storeDir read depth) (wanted storeDir parsed) [] with
  | none => pure none
  | some inputs => pure (some (hashDerivationModulo H storeDir parsed true (some inputs)))

end Walk

/-! ## What the walk computes -/

/-- The hash and the name of each output that is wanted, in the order of the inputs. -/
def pairs (hashes : String → Option Hashes) :
    List (String × List String) → Option (List (String × String))
  | [] => some []
  | (inputDrv, outputNames) :: wanted => do
    let known ← hashes inputDrv
    let here ← outputNames.mapM fun name => (Dict.get? known name).map (·, name)
    let rest ← pairs hashes wanted
    some (here ++ rest)

theorem collectNames_eq (hashes : Hashes) (outputNames : List String) (inputs : InputHashes) :
    collectNames hashes outputNames inputs =
      (outputNames.mapM fun name => (Dict.get? hashes name).map (·, name)).map fun found =>
        found.foldl (fun inputs pair => Dict.append inputs pair.1 pair.2) inputs := by
  induction outputNames generalizing inputs with
  | nil => rfl
  | cons name names ih =>
    rw [collectNames, mapM_cons]
    cases Dict.get? hashes name with
    | none => rfl
    | some digest =>
      simp only [ih, Option.map_some, Option.bind_eq_bind, Option.bind_some, Option.pure_def]
      cases names.mapM fun name => (Dict.get? hashes name).map (·, name) with
      | none => rfl
      | some found => rfl

/-- **`_input_hashes` groups the names by their hashes**, when it is told what the input
derivations hash to. -/
theorem ensures_inputHashes {I : HashCache → Prop}
    (closureHashes : String → Routine HashCache (Option Hashes)) (hashes : String → Option Hashes)
    {wanted : List (String × List String)}
    (h : ∀ input ∈ wanted, (closureHashes input.1).Ensures I (· = hashes input.1))
    (inputs : InputHashes) :
    (inputHashes closureHashes wanted inputs).Ensures I (· = (pairs hashes wanted).map fun found =>
      found.foldl (fun inputs pair => Dict.append inputs pair.1 pair.2) inputs) := by
  induction wanted generalizing inputs with
  | nil => exact Routine.ensures_pure rfl
  | cons input wanted ih =>
    obtain ⟨inputDrv, outputNames⟩ := input
    apply Routine.ensures_bind (h (inputDrv, outputNames) mem_cons_self)
    rintro answer rfl
    rw [pairs]
    cases hashes inputDrv with
    | none => exact Routine.ensures_pure rfl
    | some known =>
      simp only [collectNames_eq, Option.bind_eq_bind, Option.bind_some]
      cases outputNames.mapM fun name => (Dict.get? known name).map (·, name) with
      | none => exact Routine.ensures_pure rfl
      | some here =>
        have hrest := ih (fun input hin => h input (mem_cons_of_mem _ hin))
          (here.foldl (fun inputs pair => Dict.append inputs pair.1 pair.2) inputs)
        cases hpairs : pairs hashes wanted with
        | none => simpa [hpairs] using hrest
        | some rest => simpa [hpairs] using hrest

section Depth

variable (storeDir : String) (read : String → Option Derivation)

/-- The closure of a path is no deeper than that. -/
def Fits : Nat → String → Prop
  | 0, _ => False
  | n + 1, p => ∀ d, read p = some d → ∀ input ∈ wanted storeDir d, Fits n input.1

/-- Hashes by recursion over the inputs, with what is made of a derivation and the hashes of the
outputs that it wants. -/
def hashesAt (combine : Bool → Derivation → Option (List (String × String)) → Option Hashes) :
    Nat → Bool → Derivation → Option Hashes
  | 0, maskOutputs, d => combine maskOutputs d (pairs (fun _ => none) (wanted storeDir d))
  | n + 1, maskOutputs, d => combine maskOutputs d
      (pairs (fun p => (read p).bind (hashesAt combine n false)) (wanted storeDir d))

def Needs (p q : String) : Prop :=
  ∃ d, read p = some d ∧ ∃ input ∈ wanted storeDir d, input.1 = q

/-- A finite set of paths that holds the inputs of every derivation in it, without a cycle. -/
structure AcyclicClosure (closure : Finset String) : Prop where
  closed : ∀ p ∈ closure, ∀ q, Needs storeDir read p q → q ∈ closure
  acyclic : ∀ p ∈ closure, ¬TransGen (Needs storeDir read) p p

def Reads (d d' : Derivation) : Prop := ∃ input ∈ wanted storeDir d, read input.1 = some d'

def Inside (closure : Finset String) (d : Derivation) : Prop :=
  ∀ input ∈ wanted storeDir d, input.1 ∈ closure

variable {storeDir read} {closure : Finset String}
  {combine : Bool → Derivation → Option (List (String × String)) → Option Hashes}

theorem pairs_congr {hashes hashes' : String → Option Hashes} {wanted : List (String × List String)}
    (h : ∀ input ∈ wanted, hashes input.1 = hashes' input.1) :
    pairs hashes wanted = pairs hashes' wanted := by
  induction wanted with
  | nil => rfl
  | cons input wanted ih =>
    rw [pairs, pairs, h input mem_cons_self,
      ih fun input hin => h input (mem_cons_of_mem _ hin)]

theorem hashesAt_eq {n m : Nat} {d : Derivation}
    (hn : ∀ input ∈ wanted storeDir d, Fits storeDir read n input.1)
    (hm : ∀ input ∈ wanted storeDir d, Fits storeDir read m input.1) (maskOutputs : Bool) :
    hashesAt storeDir read combine n maskOutputs d =
      hashesAt storeDir read combine m maskOutputs d := by
  induction n generalizing m d maskOutputs with
  | zero =>
    have hnone : wanted storeDir d = [] := eq_nil_iff_forall_not_mem.2 hn
    cases m with
    | zero => rfl
    | succ m =>
      rw [hashesAt, hashesAt, hnone]
      rfl
  | succ n ih =>
    cases m with
    | zero =>
      have hnone : wanted storeDir d = [] := eq_nil_iff_forall_not_mem.2 hm
      rw [hashesAt, hashesAt, hnone]
      rfl
    | succ m =>
      refine congrArg (combine maskOutputs d) (pairs_congr fun input hin => ?_)
      cases hread : read input.1 with
      | none => rfl
      | some d' => exact ih (hn input hin d' hread) (hm input hin d' hread) false

namespace AcyclicClosure

theorem fits_of_way (h : AcyclicClosure storeDir read closure) {n : Nat} {way : List String}
    (hnodup : way.Nodup) (hway : ∀ v ∈ way, v ∈ closure) {p : String} (hp : p ∈ closure)
    (hto : ∀ v ∈ way, TransGen (Needs storeDir read) v p) (hn : closure.card ≤ n + way.length) :
    Fits storeDir read n p := by
  have hnew : (p :: way).Nodup :=
    nodup_cons.2 ⟨fun hmem => h.acyclic p hp (hto p hmem), hnodup⟩
  have hall : ∀ v ∈ p :: way, v ∈ closure := forall_mem_cons.2 ⟨hp, hway⟩
  induction n generalizing way p with
  | zero =>
    have hcard := Finset.card_le_card fun v hv => hall v (mem_toFinset.1 hv)
    rw [toFinset_card_of_nodup hnew, length_cons] at hcard
    omega
  | succ n ih =>
    intro d hd input hin
    have hneeds : Needs storeDir read p input.1 := ⟨d, hd, input, hin, rfl⟩
    have hinput := h.closed p hp _ hneeds
    have hto' : ∀ v ∈ p :: way, TransGen (Needs storeDir read) v input.1 :=
      forall_mem_cons.2 ⟨.single hneeds, fun v hv => (hto v hv).tail hneeds⟩
    refine ih hnew hall hinput hto' (by rw [length_cons]; omega) ?_ ?_
    · exact nodup_cons.2 ⟨fun hmem => h.acyclic _ hinput (hto' _ hmem), hnew⟩
    · exact forall_mem_cons.2 ⟨hinput, hall⟩

theorem fits (h : AcyclicClosure storeDir read closure) {n : Nat} (hn : closure.card ≤ n)
    {p : String} (hp : p ∈ closure) : Fits storeDir read n p :=
  h.fits_of_way nodup_nil nofun hp nofun hn

theorem inside (h : AcyclicClosure storeDir read closure) {p : String} (hp : p ∈ closure)
    {d : Derivation} (hd : read p = some d) : Inside storeDir closure d :=
  fun input hin => h.closed p hp input.1 ⟨d, hd, input, hin, rfl⟩

/-- **Induction over an acyclic closure**, from the derivations that one reads to the one. -/
theorem induction (h : AcyclicClosure storeDir read closure) {motive : Derivation → Prop}
    (step : ∀ d, Inside storeDir closure d → (∀ d', Reads storeDir read d d' → motive d') →
      motive d)
    {d : Derivation} (hd : Inside storeDir closure d) : motive d := by
  have hfits : ∀ input ∈ wanted storeDir d, Fits storeDir read closure.card input.1 :=
    fun input hin => h.fits le_rfl (hd input hin)
  revert hfits
  generalize closure.card = n
  induction n generalizing d with
  | zero =>
    intro hfits
    apply step d hd
    rintro d' ⟨input, hin, -⟩
    exact (hfits input hin).elim
  | succ n ih =>
    intro hfits
    apply step d hd
    rintro d' ⟨input, hin, hd'⟩
    exact ih (h.inside (hd input hin) hd') (hfits input hin d' hd')

/-- **The equation of the recursion**, for a depth that the closure does not exceed. -/
theorem hashesAt_eq (h : AcyclicClosure storeDir read closure) {d : Derivation}
    (hd : Inside storeDir closure d) (maskOutputs : Bool) :
    hashesAt storeDir read combine closure.card maskOutputs d = combine maskOutputs d (pairs
      (fun p => (read p).bind (hashesAt storeDir read combine closure.card false))
      (wanted storeDir d)) := by
  have hdeep : ∀ input ∈ wanted storeDir d, Fits storeDir read (closure.card + 1) input.1 :=
    fun input hin => h.fits (Nat.le_succ _) (hd input hin)
  rw [DrvHash.hashesAt_eq (fun input hin => h.fits le_rfl (hd input hin)) hdeep, hashesAt]

end AcyclicClosure

end Depth

/-! ## The cache -/

section Cache

variable {δ : Type} (H : Hashing δ) (storeDir : String) (read : String → Option Derivation)

/-- The code groups the names by their hashes. -/
def combineGrouped (maskOutputs : Bool) (d : Derivation)
    (found : Option (List (String × String))) : Option Hashes :=
  found.map fun found => hashDerivationModulo H storeDir d maskOutputs (some (Dict.group found))

/-- What the walk computes for a derivation. -/
abbrev walkHashes : Nat → Bool → Derivation → Option Hashes :=
  hashesAt storeDir read (combineGrouped H storeDir)

/-- Every entry is what the walk computes for its path. -/
def RightCache (closure : Finset String) (cache : HashCache) : Prop :=
  ∀ item ∈ cache, item.1 ∈ closure ∧
    (read item.1).bind (walkHashes H storeDir read closure.card false) = some item.2

variable {H storeDir read} {closure : Finset String}

theorem AcyclicClosure.walkHashes_eq (h : AcyclicClosure storeDir read closure) {d : Derivation}
    (hd : Inside storeDir closure d) (maskOutputs : Bool) :
    walkHashes H storeDir read closure.card maskOutputs d = (pairs
      (fun p => (read p).bind (walkHashes H storeDir read closure.card false))
      (wanted storeDir d)).map fun found =>
        hashDerivationModulo H storeDir d maskOutputs (some (Dict.group found)) :=
  h.hashesAt_eq hd maskOutputs

theorem mem_remember {cache : HashCache} {drvPath : String} {hashes : Hashes}
    {item : String × Hashes} (h : item ∈ remember cache drvPath hashes) :
    item ∈ cache ∨ item = (drvPath, hashes) := by
  rcases Dict.mem_set h with h | h
  · split at h
    · exact .inl (mem_of_mem_drop h)
    · exact .inl h
  · exact .inr h

/-- What is right stays right when an entry is remembered, whatever is dropped for it. -/
theorem RightCache.remember {cache : HashCache} {drvPath : String} {hashes : Hashes}
    (h : RightCache H storeDir read closure cache) (hp : drvPath ∈ closure)
    (hhashes : (read drvPath).bind (walkHashes H storeDir read closure.card false) = some hashes) :
    RightCache H storeDir read closure (remember cache drvPath hashes) := by
  intro item hitem
  rcases mem_remember hitem with hold | rfl
  · exact h item hold
  · exact ⟨hp, hhashes⟩

/-- **`_closure_hashes` answers what the walk computes**, whatever other calls do to the cache in
its pauses, and leaves the cache right. -/
theorem ensures_closureHashes (h : AcyclicClosure storeDir read closure) {n : Nat}
    {drvPath : String} (hp : drvPath ∈ closure) (hfits : Fits storeDir read n drvPath) :
    (closureHashes H storeDir read n drvPath).Ensures (RightCache H storeDir read closure)
      (· = (read drvPath).bind (walkHashes H storeDir read closure.card false)) := by
  induction n generalizing drvPath with
  | zero => exact hfits.elim
  | succ n ih =>
    apply Routine.ensures_bind Routine.ensures_get
    intro cache hcache
    cases hget : Dict.get? cache drvPath with
    | some cached =>
      exact Routine.ensures_pure (hcache _ (Dict.mem_of_get?_eq_some hget)).2.symm
    | none =>
      apply Routine.ensures_bind Routine.ensures_yield
      rintro ⟨⟩ -
      cases hread : read drvPath with
      | none => exact Routine.ensures_pure rfl
      | some d =>
        have hd := h.inside hp hread
        have hinputs := ensures_inputHashes (closureHashes H storeDir read n)
          (fun p => (read p).bind (walkHashes H storeDir read closure.card false))
          (fun input hin => ih (hd input hin) (hfits d hread input hin)) []
        rw [Option.bind_some, h.walkHashes_eq hd]
        apply Routine.ensures_bind hinputs
        rintro answer rfl
        cases hpairs : pairs _ (wanted storeDir d) with
        | none => exact Routine.ensures_pure rfl
        | some found =>
          have hright : (read drvPath).bind
              (walkHashes H storeDir read closure.card false) =
                some (hashDerivationModulo H storeDir d false
                  (some (Dict.group found))) := by
            rw [hread, Option.bind_some, h.walkHashes_eq hd, hpairs]
            rfl
          refine Routine.ensures_bind
            (Routine.ensures_modify fun cache hcache => hcache.remember hp hright) ?_
          exact fun _ _ => Routine.ensures_pure rfl

/-- **Whatever the other calls do, `output_hashes` answers what the walk computes.** -/
theorem ensures_outputHashes (h : AcyclicClosure storeDir read closure) {depth : Nat}
    (hdepth : closure.card ≤ depth) {d : Derivation} (hd : Inside storeDir closure d) :
    (outputHashes H storeDir read depth d).Ensures (RightCache H storeDir read closure)
      (· = walkHashes H storeDir read closure.card true d) := by
  have hinputs := ensures_inputHashes (closureHashes H storeDir read depth)
    (fun p => (read p).bind (walkHashes H storeDir read closure.card false))
    (fun input hin => ensures_closureHashes h (hd input hin) (h.fits hdepth (hd input hin))) []
  rw [h.walkHashes_eq hd]
  apply Routine.ensures_bind hinputs
  rintro answer rfl
  cases pairs _ (wanted storeDir d) with
  | none => exact Routine.ensures_pure rfl
  | some found => exact Routine.ensures_pure rfl

theorem sound_calls (h : AcyclicClosure storeDir read closure) {depth : Nat}
    (hdepth : closure.card ≤ depth) {ok : Derivation → Prop}
    (hok : ∀ d, ok d → Inside storeDir closure d) {es : List (Event Derivation)}
    (hcalls : ∀ d, .call d ∈ es → ok d) {s : System Derivation HashCache (Option Hashes)}
    (hrun : Runs.run (step (outputHashes H storeDir read depth)) ⟨[], []⟩ es = some s) :
    Sound (RightCache H storeDir read closure)
      (fun d answer => ok d ∧ answer = walkHashes H storeDir read closure.card true d) s := by
  have hempty : RightCache H storeDir read closure [] := nofun
  refine sound_of_interleaving (fun d hd => ?_)
    ⟨hempty, fun _ hmem => absurd hmem not_mem_nil⟩ hrun
  exact Routine.ensures_mono (fun answer hanswer => ⟨hcalls d hd, hanswer⟩)
    (ensures_outputHashes h hdepth (hok d (hcalls d hd)))

/-- **Every call answers as with an empty cache of its own**: in every interleaving, whoever is
stopped, a call under way ends with that answer when it is left alone, and a call that has ended has
given it.  **No walk leaves a wrong entry**: every entry of the cache is what a walk with an empty
cache finds. -/
theorem calls_agree (h : AcyclicClosure storeDir read closure) {depth : Nat}
    (hdepth : closure.card ≤ depth) {es : List (Event Derivation)}
    (hcalls : ∀ d, .call d ∈ es → Inside storeDir closure d)
    {s : System Derivation HashCache (Option Hashes)}
    (hrun : Runs.run (step (outputHashes H storeDir read depth)) ⟨[], []⟩ es = some s) :
    (∀ call ∈ s.calls, ∀ routine, call.2 = some routine → ∃ answer,
      (routine.alone s.shared).1 = some answer ∧
        ((outputHashes H storeDir read depth call.1).alone []).1 = some answer) ∧
      ∀ item ∈ s.shared,
        ((closureHashes H storeDir read depth item.1).alone []).1 = some (some item.2) := by
  have hempty : RightCache H storeDir read closure [] := nofun
  have hsound := sound_calls h hdepth (fun _ hd => hd) hcalls hrun
  constructor
  · intro call hcall routine hroutine
    obtain ⟨answer, halone, hinside, rfl⟩ :=
      (Routine.ensures_alone (hsound.calls call hcall routine hroutine) hsound.shared).1
    obtain ⟨answer, hprivate, rfl⟩ :=
      (Routine.ensures_alone (ensures_outputHashes h hdepth hinside) hempty).1
    exact ⟨_, halone, hprivate⟩
  · intro item hitem
    obtain ⟨hin, hright⟩ := hsound.shared item hitem
    obtain ⟨answer, halone, rfl⟩ :=
      (Routine.ensures_alone (ensures_closureHashes h hin (h.fits hdepth hin)) hempty).1
    rw [halone, hright]

end Cache

/-- A fixed-output derivation: a file, from one of its mirrors. -/
def mirror (url : String) : Derivation where
  outputs := [⟨"sha256", "abc", "out", "/nix/store/f"⟩]
  inputDrvs := .empty
  inputSrcs := ∅
  platform := "x86_64-linux"
  builder := "/bin/sh"
  args := [url]
  env := .empty
  isDynamic := false
  dynamicInputDrvs := .empty

/-- A store with two mirrors of one file. -/
def mirrors (drvPath : String) : Option Derivation :=
  if drvPath = "/nix/store/a.drv" then some (mirror "a")
  else if drvPath = "/nix/store/b.drv" then some (mirror "b")
  else none

/-- A derivation that reads the file from some mirrors. -/
def consumer (inputDrvs : Dict.Table StorePath (List String)) : Derivation where
  outputs := [⟨"", "", "out", "/nix/store/o"⟩]
  inputDrvs
  inputSrcs := ∅
  platform := "x86_64-linux"
  builder := "/bin/sh"
  args := []
  env := .empty
  isDynamic := false
  dynamicInputDrvs := .empty

def bothMirrors : Dict.Table StorePath (List String) :=
  ⟨[(⟨"a.drv"⟩, ["out"]), (⟨"b.drv"⟩, ["out"])], by decide⟩

/-- A hash that is the text itself. -/
def transparent : Hashing String := ⟨id, id, id, id⟩

def mirrorPaths : Finset String := {"/nix/store/a.drv", "/nix/store/b.drv"}

theorem wanted_mirror (url : String) : wanted "/nix/store" (mirror url) = [] := rfl

theorem not_needs_mirrors (p q : String) : ¬Needs "/nix/store" mirrors p q := by
  rintro ⟨d, hd, input, hin, -⟩
  rw [mirrors] at hd
  split_ifs at hd <;> cases hd <;> rw [wanted_mirror] at hin <;> cases hin

theorem acyclicClosure_mirrors : AcyclicClosure "/nix/store" mirrors mirrorPaths where
  closed := fun p _ q hneeds => absurd hneeds (not_needs_mirrors p q)
  acyclic := by
    intro p _ hcycle
    obtain ⟨q, hneeds, -⟩ := TransGen.head'_iff.1 hcycle
    exact not_needs_mirrors p q hneeds

/-- Two calls that are both under way, and one that is stopped. -/
theorem calls_agree_threeCalls : ∃ s, Runs.run
    (step (outputHashes transparent "/nix/store" mirrors 2)) ⟨[], []⟩
    [.call (consumer bothMirrors), .call (consumer bothMirrors), .call (consumer bothMirrors),
      .resume 1, .stop 2, .resume 0, .resume 1, .resume 0] = some s ∧
    ∀ call ∈ s.calls, ∀ routine, call.2 = some routine → ∃ answer,
      (routine.alone s.shared).1 = some answer ∧
        ((outputHashes transparent "/nix/store" mirrors 2 call.1).alone []).1 = some answer := by
  obtain ⟨s, hrun⟩ := Option.isSome_iff_exists.1 (by decide +kernel : (Runs.run
    (step (outputHashes transparent "/nix/store" mirrors 2)) ⟨[], []⟩
    [.call (consumer bothMirrors), .call (consumer bothMirrors), .call (consumer bothMirrors),
      .resume 1, .stop 2, .resume 0, .resume 1, .resume 0]).isSome = true)
  refine ⟨s, hrun, (calls_agree acyclicClosure_mirrors (by decide) ?_ hrun).1⟩
  intro d hd input hin
  obtain rfl : d = consumer bothMirrors := by simpa using hd
  revert input
  decide

end DrvHash

end Pynixd
