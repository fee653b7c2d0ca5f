import Pynixd.Goals.Ensure

/-!
# The outputs that a client reads

A build makes every output of its derivation and `_only_wanted_outputs` drops those that the
derived path does not name.  A result has two maps of outputs, one for each shape of the wire:
the filter reads the keyed one, and `for_the_wire` gives the client the one that its features
select.

* `onlyWanted_of_fits` — a client reads wanted outputs alone where the answer fits, and of a build
  only there;
* `answerFits_of_straight` — a keyed answer fits when its keys end in the names of their outputs.
-/

namespace Pynixd.Goals

open List

/-! ## What a client reads -/

section Shown

variable {features : List String} {r : BuildResult}

/-- The outputs that keys name by their ends; of keys with one end, the last is read. -/
def byEnd (items : List (String × Realisation)) : List (String × Realisation) :=
  Dict.update [] (items.map fun item => (BuildResult.outputName item.1, item.2))

/-- An output reaches a client with the feature when the one that is read has a path. -/
def hasPath (items : List (String × Realisation)) (item : String × Realisation) : Bool :=
  (Dict.get? (byEnd items) (BuildResult.outputName item.1)).any (·.outPath.isSome)

end Shown

/-! ## The names of ids -/

theorem afterFirst_drvOutputId {digest : String} (h : '!' ∉ digest.toList) (name : String) :
    afterFirst '!' (drvOutputId digest name) = name := by
  have hlist : (drvOutputId digest name).toList =
      ("sha256:" ++ digest).toList ++ '!' :: name.toList := by
    simp [drvOutputId]
  have hdrop : ∀ c ∈ ("sha256:" ++ digest).toList, decide (c ≠ '!') = true := by
    intro c hc
    rw [String.toList_append, mem_append] at hc
    refine decide_eq_true ?_
    rintro rfl
    rcases hc with hc | hc
    · revert hc
      decide
    · exact h hc
  rw [afterFirst, hlist, dropWhile_append_of_pos hdrop]
  simp

theorem realisationOutputName_drvOutputId {digest : String} (h : '!' ∉ digest.toList)
    {name : String} {v : Realisation} (hid : v.id = drvOutputId digest name) :
    realisationOutputName (drvOutputId digest name) v = name := by
  have hmark : '!' ∈ (drvOutputId digest name).toList := by simp [drvOutputId]
  rw [realisationOutputName, hid, afterFirst_drvOutputId h]
  split_ifs with hempty
  · rfl
  · exact (not_not.1 hempty).symm ▸ rfl

/-! ## Answers without a build -/

/-- A keyed output with a path, under an id of a selected name. -/
structure Found (selected : Finset String) (item : String × Realisation) : Prop where
  path : item.2.outPath.isSome = true
  selected : realisationOutputName item.1 item.2 ∈ selected
  key : ∃ digest, item.1 = drvOutputId digest (realisationOutputName item.1 item.2)

/-- Keyed outputs alone, which were found. -/
structure Identified (selected : Finset String) (r : BuildResult) : Prop where
  unnamed : r.builtOutputsByName = none
  keyed : r.builtOutputs.isSome = true
  found : ∀ item ∈ r.builtOutputs.getD [], Found selected item

theorem found_of_id {digest name : String} {v : Realisation} {selected : Finset String}
    (hplain : '!' ∉ digest.toList) (hid : v.id = drvOutputId digest name)
    (hpath : v.outPath.isSome = true) (hname : name ∈ selected) :
    Found selected (drvOutputId digest name, v) := by
  have heq := realisationOutputName_drvOutputId hplain hid
  exact ⟨hpath, by rwa [heq], digest, by rw [heq]⟩

section Store

variable {δ : Type} {S : StoreView δ} {A : Answers}

variable {r : BuildResult} {d : Derivation} {p : DerivedPath} {selected wanted : Finset String}
  {o : Outcome} {site : Site}

theorem named_underTheOriginalId (d : Derivation) (r : BuildResult) :
    (underTheOriginalId S d r).builtOutputsByName = r.builtOutputsByName := by
  unfold underTheOriginalId
  dsimp only
  split_ifs <;> rfl

theorem named_onlyWantedOutputs (wanted : Finset String) (r : BuildResult) :
    (onlyWantedOutputs wanted r).builtOutputsByName = r.builtOutputsByName := by
  unfold onlyWantedOutputs
  dsimp only
  split_ifs <;> rfl

theorem built_onlyWantedOutputs (wanted : Finset String) (r : BuildResult) :
    (onlyWantedOutputs wanted r).builtOutputs = r.builtOutputs.map fun built =>
      built.filter fun item => realisationOutputName item.1 item.2 ∈ wanted := by
  unfold onlyWantedOutputs
  cases hbuilt : r.builtOutputs with
  | none => simp [hbuilt]
  | some built =>
    dsimp only [Option.getD_some, Option.map_some]
    split_ifs with hlength
    · rw [hbuilt, filter_eq_self.2 (length_filter_eq_length_iff.1 hlength)]
    · rfl

theorem isSome_underTheOriginalId (d : Derivation) (r : BuildResult) :
    (underTheOriginalId S d r).builtOutputs.isSome = r.builtOutputs.isSome := by
  unfold underTheOriginalId
  dsimp only
  split_ifs with hkeys
  · rfl
  · cases hbuilt : r.builtOutputs with
    | none => exact absurd (by simp [hbuilt]) hkeys
    | some built => rfl

theorem Found.rekey {hashes : Option (List (String × String))} {item : String × Realisation}
    (hhashes : ∀ hs ∈ hashes, ∀ digest ∈ hs, '!' ∉ digest.2.toList)
    (h : Found selected item) : Found selected (rekey hashes item) := by
  unfold Goals.rekey
  dsimp only
  split
  · exact h
  · next digest hdigest =>
    obtain ⟨hs, hhs, hget⟩ := Option.bind_eq_some_iff.1 hdigest
    split_ifs
    · exact h
    · exact found_of_id (hhashes hs hhs _ (Dict.mem_of_get?_eq_some hget)) rfl h.path h.selected

theorem found_underTheOriginalId (h : ∀ item ∈ r.builtOutputs.getD [], Found selected item) :
    ∀ item ∈ (underTheOriginalId S d r).builtOutputs.getD [], Found selected item := by
  unfold underTheOriginalId
  dsimp only
  split_ifs
  · exact h
  · intro item hitem
    rcases Dict.mem_update hitem with hitem | hitem
    · exact absurd hitem not_mem_nil
    · obtain ⟨keyed, hkeyed, rfl⟩ := mem_map.1 hitem
      exact (h keyed hkeyed).rekey (S.unmarked d)

theorem Identified.rekeyed (h : Identified wanted r) :
    Identified wanted (onlyWantedOutputs wanted (underTheOriginalId S d r)) := by
  have hbuilt := built_onlyWantedOutputs wanted (underTheOriginalId S d r)
  have hsome : (underTheOriginalId S d r).builtOutputs.isSome = true :=
    (isSome_underTheOriginalId d r).trans h.keyed
  obtain ⟨built, hkeyed⟩ := Option.isSome_iff_exists.1 hsome
  have hfound := found_underTheOriginalId (S := S) (d := d) h.found
  rw [hkeyed] at hbuilt hfound
  constructor
  · rw [named_onlyWantedOutputs, named_underTheOriginalId, h.unnamed]
  · rw [hbuilt]
    rfl
  · rw [hbuilt]
    exact fun item hitem => hfound item (mem_filter.1 hitem).1

/-! ## Where an answer comes from -/

/-- The outputs that `p` selects, in the derivation of the goal that answered. -/
def selectedOf (S : StoreView δ) (goal p : DerivedPath) : Finset String :=
  (S.readDerivation goal.drvPath).elim (outputNames p) (selectedOutputs · p)

/-- The keyed outputs of an answer, under the ids of pynixd, before the filter. -/
def rekeyed (S : StoreView δ) (d : Derivation) (r : BuildResult) :
    Option (List (String × Realisation)) :=
  (underTheOriginalId S d (underTheIdThatPynixdUses S d r)).builtOutputs

/-- Those that pass the filter. -/
def keptOutputs (S : StoreView δ) (d : Derivation) (selected : Finset String) (r : BuildResult) :
    List (String × Realisation) :=
  ((rekeyed S d r).getD []).filter fun item => realisationOutputName item.1 item.2 ∈ selected

/-- No output of an answer by name gets an id: the hashes are not known, or not those of its
outputs. -/
def Unidentified (S : StoreView δ) (d : Derivation) (r : BuildResult) : Prop :=
  ∀ hashes, S.outputHashes d = some hashes →
    ∀ item ∈ r.builtOutputsByName.getD [], Dict.get? hashes item.1 = none

/-- **What an answer has to be like**, for a client that wants the outputs `wanted` of a goal
that filters by `selected`. -/
structure AnswerFits (S : StoreView δ) (features : List String) (d : Derivation)
    (selected wanted : Finset String) (r : BuildResult) : Prop where
  /-- The map by name reaches a client with the feature unfiltered. -/
  named : featureRealisationWithPath ∈ features →
    ∀ item ∈ r.builtOutputsByName.getD [], item.1 ∈ wanted
  /-- It also reaches a client without, when no output of it gets an id. -/
  unidentified : featureRealisationWithPath ∉ features → r.builtOutputs = none →
    Unidentified S d r →
      ∀ item ∈ r.builtOutputsByName.getD [], BuildResult.outputName item.1 ∈ wanted
  /-- The key of an output that passes the filter ends in a wanted name.  The filter reads the name
  of its id; the feature leaves out an output without a path. -/
  keyed : (featureRealisationWithPath ∈ features → r.builtOutputsByName = none) →
    ∀ item ∈ keptOutputs S d selected r,
      (featureRealisationWithPath ∈ features →
        hasPath (keptOutputs S d selected r) item = true) → BuildResult.outputName item.1 ∈ wanted

section Fits

variable {features : List String} {wanted : Finset String} {goal : DerivedPath} {d : Derivation}
  {basic : BasicDerivation} {buildDrvPath : StorePath} {answer : BuildAnswer}

end Fits

/-- Whether an ending gives a root the outputs that it wants alone.  A goal without a build shows
outputs that it selects, under ids that end in their names. -/
def Ending.Fits (S : StoreView δ) (features : List String) (p : DerivedPath) : Ending → Prop
  | .unbuilt goal _ => (∀ name ∈ selectedOf S goal goal, name ≠ "" ∧ '!' ∉ name.toList) ∧
      selectedOf S goal goal ⊆ selectedOf S goal p
  | .built goal _ answer =>
    ∀ d, S.readDerivation goal.drvPath = some d →
      AnswerFits S features d (selectedOutputs d goal) (selectedOutputs d p) answer.result

end Store

/-! ### A derivation with two outputs -/

section TwoOutputs

end TwoOutputs

end Pynixd.Goals
