import Pynixd.Lib.Dict
import Pynixd.Protocol.DerivedPath

/-!
# The result of a build

`BuildResultStatus` and `BuildResult` of the daemon protocol, the question every reader of a
result asks of it, and the form of a result that a client can read.

* `resultSucceeded_wireStatus` — **the form for the wire succeeds when the result does**;
* `forTheWire_spec` — the field that a peer reads holds **the outputs that have a path**.
-/

namespace Pynixd

inductive BuildResultStatus where
  | built
  | substituted
  | alreadyValid
  | permanentFailure
  | inputRejected
  | outputRejected
  | transientFailure
  | cachedFailure
  | timedOut
  | miscFailure
  | dependencyFailed
  | logLimitExceeded
  | notDeterministic
  | resolvesToAlreadyValid
  | noSubstituters
  | hashMismatch
  | unknown
  deriving DecidableEq, Repr

namespace BuildResultStatus

def value : BuildResultStatus → Nat
  | built => 0
  | substituted => 1
  | alreadyValid => 2
  | permanentFailure => 3
  | inputRejected => 4
  | outputRejected => 5
  | transientFailure => 6
  | cachedFailure => 7
  | timedOut => 8
  | miscFailure => 9
  | dependencyFailed => 10
  | logLimitExceeded => 11
  | notDeterministic => 12
  | resolvesToAlreadyValid => 13
  | noSubstituters => 14
  | hashMismatch => 101
  | unknown => 102

def all : List BuildResultStatus :=
  [built, substituted, alreadyValid, permanentFailure, inputRejected, outputRejected,
    transientFailure, cachedFailure, timedOut, miscFailure, dependencyFailed, logLimitExceeded,
    notDeterministic, resolvesToAlreadyValid, noSubstituters, hashMismatch, unknown]

/-- `BuildResultStatus(number)`: `none` for a number that is no status, where the enum
raises `ValueError`. -/
def ofValue (n : Int) : Option BuildResultStatus := all.find? fun s => (s.value : Int) == n

def isSuccess (s : BuildResultStatus) : Bool :=
  s ∈ [built, substituted, alreadyValid, resolvesToAlreadyValid]

theorem ofValue_value (s : BuildResultStatus) : ofValue s.value = some s := by
  cases s <;> rfl

end BuildResultStatus

/-- `result_succeeded` of `goals/results.py`: an unknown number is no success. -/
def resultSucceeded (status : Int) : Bool :=
  match BuildResultStatus.ofValue status with
  | some s => s.isSuccess
  | none => false

theorem resultSucceeded_iff {status : Int} :
    resultSucceeded status = true ↔
      ∃ s : BuildResultStatus, s.isSuccess = true ∧ (s.value : Int) = status := by
  constructor
  · intro h
    unfold resultSucceeded at h
    split at h
    · next s hs =>
      have hvalue := List.find?_some hs
      exact ⟨s, h, by simpa using hvalue⟩
    · cases h
  · rintro ⟨s, hs, rfl⟩
    rw [resultSucceeded, BuildResultStatus.ofValue_value]
    exact hs

/-! ## Results -/

def featureRealisationWithPath : String := "realisation-with-path-not-hash"

/-- `Realisation`: the shape that travels as JSON. -/
structure Realisation where
  id : String
  outPath : Option StorePath
  signatures : List String
  dependentRealisations : List (String × String)
  deriving DecidableEq

/-- `UnkeyedRealisation`: the shape of the feature. -/
structure UnkeyedRealisation where
  outPath : StorePath
  signatures : Finset String
  deriving DecidableEq

/-- `BuildResult`, without the times, which nothing here reads. -/
structure BuildResult where
  status : Int
  errorMsg : String
  builtOutputs : Option (List (String × Realisation))
  builtOutputsByName : Option (List (String × UnkeyedRealisation))
  deriving DecidableEq

def maxWireStatus : Int := 14

def wireStatus (status : Int) : Int :=
  if status = BuildResultStatus.hashMismatch.value then BuildResultStatus.outputRejected.value
  else if 0 ≤ status ∧ status ≤ maxWireStatus then status
  else BuildResultStatus.miscFailure.value

namespace BuildResult

/-- `key.rpartition("!")[2] or key`. -/
def outputName (key : String) : String :=
  if afterLast '!' key = "" then key else afterLast '!' key

/-- `realised_outputs`.  An empty map reads as no map.  A `StorePath` holds its base name, so
the two spellings of a path that `_bare_path` and `_whole_path` translate are one value. -/
def realisedOutputs (r : BuildResult) : List (String × Realisation) :=
  match r.builtOutputsByName.getD [] with
  | item :: items =>
    Dict.update [] ((item :: items).map fun (name, value) =>
      (name, ⟨"", some value.outPath, sortedSet value.signatures, []⟩))
  | [] => Dict.update [] ((r.builtOutputs.getD []).map fun (key, value) => (outputName key, value))

/-- The outputs of a result in the shape of the feature; an output without a path is left
out. -/
def unkeyedOutputs (r : BuildResult) : List (String × UnkeyedRealisation) :=
  r.realisedOutputs.filterMap fun (name, value) =>
    value.outPath.map fun outPath => (name, ⟨outPath, value.signatures.toFinset⟩)

/-- `for_the_wire`.  `features` is the set of the peer that reads the result. -/
def forTheWire (r : BuildResult) (features : Option (List String)) : BuildResult :=
  let r := { r with status := wireStatus r.status }
  match features with
  | none => r
  | some features =>
    if featureRealisationWithPath ∈ features then
      if r.builtOutputsByName.isNone then { r with builtOutputsByName := some r.unkeyedOutputs }
      else r
    else
      if r.builtOutputs.isNone then { r with builtOutputs := some r.realisedOutputs } else r

theorem forTheWire_status (r : BuildResult) (features : Option (List String)) :
    (r.forTheWire features).status = wireStatus r.status := by
  simp only [forTheWire]
  split
  · rfl
  · split_ifs <;> rfl

end BuildResult

theorem resultSucceeded_wireStatus (status : Int) :
    resultSucceeded (wireStatus status) = resultSucceeded status := by
  unfold wireStatus
  split_ifs with hhash hrange
  · rw [hhash]
    decide
  · rfl
  · -- a status outside the table is no success
    have hfails : resultSucceeded status = false := by
      by_contra hsuccess
      obtain ⟨s, hs, rfl⟩ := resultSucceeded_iff.1 (by simpa using hsuccess)
      have hsmall : ∀ s : BuildResultStatus, s.isSuccess = true → s.value ≤ 14 := by
        intro s hs
        cases s <;> first | decide | cases hs
      have := hsmall s hs
      simp only [maxWireStatus] at hrange
      omega
    rw [hfails]
    decide

/-! ## The two shapes -/

namespace BuildResult

def pathsByName (r : BuildResult) : List (String × StorePath) :=
  r.realisedOutputs.filterMap fun (name, value) => value.outPath.map (name, ·)

/-- What a peer reads in the field that its features select, if the field is there: the outputs
by name, or by what a key has behind its mark, and with or without a path. -/
def readBy (features : List String) (r : BuildResult) :
    Option (List (String × Option StorePath)) :=
  if featureRealisationWithPath ∈ features then
    r.builtOutputsByName.map fun named => named.map fun (name, value) => (name, some value.outPath)
  else r.builtOutputs.map fun built => built.map fun (key, value) => (outputName key, value.outPath)

/-- Both shapes can say the same of the outputs, to a peer with these features. -/
structure SameInBoth (features : List String) (r : BuildResult) : Prop where
  oneShape : r.builtOutputs = none ∨ r.builtOutputsByName = none
  /-- The map by name is a dictionary. -/
  named : ((r.builtOutputsByName.getD []).map Prod.fst).Nodup
  /-- A name with a mark inside would be cut where it stands in a key. -/
  unmarked : featureRealisationWithPath ∉ features →
    ∀ item ∈ r.builtOutputsByName.getD [], outputName item.1 = item.1
  /-- Keys that end in one name would be read as two outputs of that name. -/
  keyed : featureRealisationWithPath ∉ features →
    ((r.builtOutputs.getD []).map fun item => outputName item.1).Nodup
  /-- An output without a path would be named all the same. -/
  paths : featureRealisationWithPath ∉ features →
    ∀ item ∈ r.builtOutputs.getD [], item.2.outPath.isSome = true

variable {r : BuildResult}

theorem realisedOutputs_of_named (h : r.builtOutputs = none)
    (hnodup : ((r.builtOutputsByName.getD []).map Prod.fst).Nodup) :
    r.realisedOutputs = (r.builtOutputsByName.getD []).map fun item =>
      (item.1, ⟨"", some item.2.outPath, sortedSet item.2.signatures, []⟩) := by
  unfold realisedOutputs
  cases hitems : r.builtOutputsByName.getD [] with
  | nil => simp [h, Dict.update]
  | cons item items =>
    rw [hitems] at hnodup
    exact Dict.update_eq_append (by simpa [Function.comp_def] using hnodup)

theorem realisedOutputs_of_keyed (h : r.builtOutputsByName = none)
    (hnodup : ((r.builtOutputs.getD []).map fun item => outputName item.1).Nodup) :
    r.realisedOutputs = (r.builtOutputs.getD []).map fun item => (outputName item.1, item.2) := by
  simp only [realisedOutputs, h, Option.getD_none]
  exact Dict.update_eq_append (by simpa [Function.comp_def] using hnodup)

theorem map_pathsByName (h : ∀ item ∈ r.realisedOutputs, item.2.outPath.isSome = true) :
    r.pathsByName.map (fun item => (item.1, some item.2)) =
      r.realisedOutputs.map fun item => (item.1, item.2.outPath) := by
  rw [pathsByName, List.map_filterMap, ← List.filterMap_eq_map]
  refine List.filterMap_congr fun item hitem => ?_
  obtain ⟨path, hpath⟩ := Option.isSome_iff_exists.1 (h item hitem)
  simp [hpath]

/-- **The field that a peer reads holds the outputs that have a path.** -/
theorem SameInBoth.readBy_forTheWire {features : List String} (h : r.SameInBoth features) :
    (r.forTheWire (some features)).readBy features =
      some (r.pathsByName.map fun item => (item.1, some item.2)) := by
  obtain ⟨status, message, outputs, named⟩ := r
  obtain ⟨hone, hnamed, hunmarked, hkeyed, hpaths⟩ := h
  by_cases hf : featureRealisationWithPath ∈ features
  · cases named with
    | none =>
      simp only [forTheWire, readBy, if_pos hf, pathsByName, unkeyedOutputs, Option.isNone_none,
        if_true, Option.map_some, List.map_filterMap, Option.map_map]
      rfl
    | some named =>
      obtain rfl : outputs = none := hone.resolve_right nofun
      have hrealised := realisedOutputs_of_named rfl hnamed
      rw [map_pathsByName, hrealised, List.map_map]
      · simp [forTheWire, readBy, hf]
      · rw [hrealised, List.forall_mem_map]
        exact fun _ _ => rfl
  · cases outputs with
    | none =>
      have hrealised := realisedOutputs_of_named rfl hnamed
      rw [map_pathsByName]
      · simp only [forTheWire, readBy, if_neg hf]
        refine congrArg some (List.map_congr_left fun item hitem => ?_)
        obtain ⟨name, hname, rfl⟩ := List.mem_map.1 (hrealised ▸ hitem)
        rw [hunmarked hf name hname]
      · rw [hrealised, List.forall_mem_map]
        exact fun _ _ => rfl
    | some outputs =>
      obtain rfl : named = none := hone.resolve_left nofun
      have hrealised := realisedOutputs_of_keyed rfl (hkeyed hf)
      rw [map_pathsByName, hrealised, List.map_map]
      · simp [forTheWire, readBy, hf]
      · rw [hrealised, List.forall_mem_map]
        exact hpaths hf

end BuildResult

theorem wireStatus_range (status : Int) :
    0 ≤ wireStatus status ∧ wireStatus status ≤ maxWireStatus := by
  unfold wireStatus
  split_ifs with hhash hrange
  · decide
  · exact hrange
  · decide

theorem wireStatus_wireStatus (status : Int) :
    wireStatus (wireStatus status) = wireStatus status := by
  have hrange := wireStatus_range status
  rw [wireStatus, if_pos hrange, if_neg]
  intro heq
  rw [heq] at hrange
  exact absurd hrange.2 (by decide)

/-- **What a peer is sent**: the field that it reads holds the outputs that have a path, its table
of statuses holds the status, and a second conversion changes nothing. -/
theorem forTheWire_spec (r : BuildResult) (features : List String) (h : r.SameInBoth features) :
    (r.forTheWire (some features)).readBy features =
      some (r.pathsByName.map fun item => (item.1, some item.2)) ∧
    0 ≤ (r.forTheWire (some features)).status ∧
    (r.forTheWire (some features)).status ≤ maxWireStatus ∧
    resultSucceeded (r.forTheWire (some features)).status = resultSucceeded r.status ∧
    (r.forTheWire (some features)).forTheWire (some features) = r.forTheWire (some features) := by
  have hstatus := r.forTheWire_status (some features)
  have hrange := wireStatus_range r.status
  refine ⟨h.readBy_forTheWire, hstatus ▸ hrange.1, hstatus ▸ hrange.2, ?_, ?_⟩
  · rw [hstatus, resultSucceeded_wireStatus]
  · by_cases hf : featureRealisationWithPath ∈ features
    · cases hnamed : r.builtOutputsByName <;>
        simp [BuildResult.forTheWire, hf, hnamed, wireStatus_wireStatus]
    · cases houtputs : r.builtOutputs <;>
        simp [BuildResult.forTheWire, hf, houtputs, wireStatus_wireStatus]

theorem forTheWire_spec_named :
    (BuildResult.mk 101 "" none (some [("out", ⟨⟨"p"⟩, ∅⟩)])).forTheWire (some []) =
        ⟨5, "", some [("out", ⟨"", some ⟨"p"⟩, [], []⟩)], some [("out", ⟨⟨"p"⟩, ∅⟩)]⟩ ∧
      ((BuildResult.mk 101 "" none (some [("out", ⟨⟨"p"⟩, ∅⟩)])).forTheWire (some [])).readBy [] =
        some [("out", some ⟨"p"⟩)] :=
  ⟨by decide, (forTheWire_spec _ [] ⟨.inl rfl, by decide, by decide, by decide, by decide⟩).1⟩

def markedName : BuildResult := ⟨0, "", none, some [("a!b", ⟨⟨"p"⟩, ∅⟩)]⟩

def withoutPath : BuildResult := ⟨0, "", some [("h!out", ⟨"h!out", none, [], []⟩)], none⟩

def oneNameTwice : BuildResult :=
  ⟨0, "", some [("g!out", ⟨"g!out", some ⟨"p"⟩, [], []⟩), ("h!out", ⟨"h!out", some ⟨"q"⟩, [], []⟩)],
    none⟩

/-- A peer without the feature reads another name where one holds a `!`, the name of an output
without a path, and two outputs where two keys end in one name. -/
theorem readBy_loses_name :
    markedName.pathsByName = [("a!b", ⟨"p"⟩)] ∧
      (markedName.forTheWire (some [])).readBy [] = some [("b", some ⟨"p"⟩)] ∧
    withoutPath.pathsByName = [] ∧
      (withoutPath.forTheWire (some [])).readBy [] = some [("out", none)] ∧
    oneNameTwice.pathsByName = [("out", ⟨"q"⟩)] ∧
      (oneNameTwice.forTheWire (some [])).readBy [] =
        some [("out", some ⟨"p"⟩), ("out", some ⟨"q"⟩)] := by
  decide

end Pynixd
