import Pynixd.Goals.Ensure

/-!
# The inputs of a build

A goal chooses the outputs of its inputs that need a goal, waits for these, and then names a path
for every output that the derivation reads: the path that a goal gave, or the one that the
derivation of the input names.

* `get?_inputPaths` — where the path of a reference comes from;
* `gives_of_ensures` — the goal of an output whose path is known gives that path's key;
* `inputsReady_iff` — every path that a build takes from an input is there, unless the code does
  not wait for the input.
-/

namespace Pynixd.Goals

open List

/-! ## Outcomes give what they produced -/

/-- Every path that the outcome names is one that it produced. -/
structure Outcome.Sound (o : Outcome) : Prop where
  resolved : ∀ item ∈ o.resolvedOutputs, item.2 ∈ o.producedPaths
  dynamic : ∀ item ∈ o.dynamicPaths, item.2 ∈ o.producedPaths

namespace Outcome

theorem sound_of (r : GoalResult) : (of r).Sound :=
  ⟨nofun, nofun⟩

variable {o : Outcome}

theorem Sound.withDynamicOutputs (h : o.Sound) (drvPath : StorePath) :
    (o.withDynamicOutputs drvPath).Sound where
  resolved := h.resolved
  dynamic := by
    intro item hitem
    rcases Dict.mem_update hitem with hitem | hitem
    · exact h.dynamic item hitem
    · obtain ⟨named, hnamed, rfl⟩ := mem_map.1 hitem
      exact h.resolved named hnamed

theorem Sound.named (h : o.Sound) (p : DerivedPath) : (o.named p).Sound :=
  ⟨h.resolved, h.dynamic⟩

theorem Sound.mapResult (h : o.Sound) (f : BuildResult → BuildResult) : (o.mapResult f).Sound :=
  ⟨h.resolved, h.dynamic⟩

theorem Sound.merge (h : o.Sound) (name : String) (path : StorePath) :
    (o.merge name path).Sound where
  resolved := by
    intro item hitem
    rcases Dict.mem_set hitem with hitem | rfl
    · exact Finset.mem_insert_of_mem (h.resolved item hitem)
    · exact Finset.mem_insert_self ..
  dynamic item hitem := Finset.mem_insert_of_mem (h.dynamic item hitem)

end Outcome

theorem Substitute.sound_outcome (found : Substitute) (path : StorePath) :
    (found.outcome path).Sound := by
  cases found with
  | failed message status fails => exact Outcome.sound_of _
  | fetched named =>
    constructor
    · intro item hitem
      cases named with
      | false => exact absurd hitem not_mem_nil
      | true =>
        rw [mem_singleton.1 hitem]
        exact Finset.mem_singleton_self path
    · exact nofun

theorem sound_opaqueSuccess (path : StorePath) : (opaqueSuccess path).Sound :=
  Substitute.sound_outcome (.fetched true) path

section Store

variable {δ : Type} {S : StoreView δ} {A : Answers}

theorem sound_ensureOpaque (p : DerivedPath) : (ensureOpaque S A p).Sound := by
  unfold ensureOpaque
  split_ifs
  · exact sound_opaqueSuccess p.drvPath
  · split
    · exact Substitute.sound_outcome _ _
    · exact Outcome.sound_of _

variable {basic : BasicDerivation} {d : Derivation} {p : DerivedPath} {wanted : Finset String}
  {built : List (String × Realisation)} {paths : List (String × StorePath)}
  {children : List Outcome} {o : Outcome} {key : PathKey} {given : PathMap} {site : Site}
  {drvPath path : StorePath} {name : String} {trace : Trace}

theorem sound_trySubstituteKnownOutputs (h : trySubstituteKnownOutputs A site paths = some o) :
    o.Sound :=
  trySubstituteKnownOutputs_induction (Outcome.sound_of _) (fun _ _ _ ho => ho.merge ..)
    (fun _ _ _ => Outcome.sound_of _) h

theorem Outcome.Sound.sayWhatItProduced {o : Outcome} (h : o.Sound) (d : Derivation)
    (wanted : Finset String) : (sayWhatItProduced S o d wanted).Sound := by
  obtain ⟨f, hf⟩ := sayWhatItProduced_eq (S := S) o d wanted
  rw [hf]
  exact h.mapResult f

theorem sound_fromRealisations (h : fromRealisations A site built = some o) : o.Sound := by
  obtain ⟨resolved, -, ho⟩ := Option.bind_eq_some_iff.1 h
  rw [← Option.some.inj ho]
  exact ⟨fun item hitem => mem_toFinset.2 (mem_map_of_mem hitem),
    nofun⟩

theorem sound_alreadyRealised (h : alreadyRealised S A site d wanted = some o) : o.Sound := by
  unfold alreadyRealised at h
  split_ifs at h
  obtain ⟨built, -, ho⟩ := Option.bind_eq_some_iff.1 h
  exact sound_fromRealisations ho

theorem sound_tryRealiseTheResolvedOne {buildDrvPath drvPath : StorePath} {wanted : Finset String}
    {o : Outcome} (h : tryRealiseTheResolvedOne S A buildDrvPath drvPath wanted = some o) :
    o.Sound := by
  obtain ⟨_, built, -, ho⟩ := exists_realisations_of_cutOff h
  exact sound_fromRealisations ho

theorem sound_prepare (h : prepare S A p = .inl o) : o.Sound := by
  cases prepares_of_prepare h with
  | refused => exact Outcome.sound_of _
  | substituted _ hearly =>
    exact ((sound_trySubstituteKnownOutputs hearly).sayWhatItProduced ..).withDynamicOutputs _
  | realised _ _ hrealised => exact (sound_alreadyRealised hrealised).withDynamicOutputs _

theorem sound_buildOutcome (basic : BasicDerivation) (r : BuildResult) :
    (buildOutcome S basic r).Sound := by
  constructor
  · intro item hitem
    have hmem : item ∈ declaredPaths S basic ++ answeredPaths r :=
      mem_append.2 (Dict.mem_update hitem)
    exact mem_toFinset.2 (mem_map_of_mem hmem)
  · exact nofun

theorem Outcome.Sound.nameTheResolvedDerivation {o : Outcome} (h : o.Sound)
    (original built : StorePath) : (nameTheResolvedDerivation S original built o).Sound := by
  unfold Goals.nameTheResolvedDerivation
  split_ifs
  · exact h
  · exact ⟨h.resolved, h.dynamic⟩

theorem sound_builtOutcome (p : DerivedPath) (d : Derivation) (basic : BasicDerivation)
    (buildDrvPath : StorePath) (r : BuildResult) :
    (builtOutcome S p d basic buildDrvPath r).Sound := by
  unfold builtOutcome
  have hbuild := (sound_buildOutcome (S := S) basic r).mapResult (underTheIdThatPynixdUses S d)
  have hnamed := hbuild.nameTheResolvedDerivation (S := S) p.drvPath buildDrvPath
  exact (hnamed.withDynamicOutputs p.drvPath).mapResult _

theorem sound_road {road : Road}
    (h : finish S A p d children = .ok road) : (road.outcome S p d).Sound := by
  cases finishes_of_finish h with
  | refused => exact Outcome.sound_of _
  | substituted _ _ hlate =>
    exact ((sound_trySubstituteKnownOutputs hlate).sayWhatItProduced ..).withDynamicOutputs _
  | cutOff _ _ hcutOff =>
    exact ((sound_tryRealiseTheResolvedOne hcutOff).mapResult _).withDynamicOutputs _
  | built => exact sound_builtOutcome ..

theorem sound_collapsedOutcome {outer : Outcome} {inner : StorePath}
    (houter : outer.Sound) (h : nestedStep S p outer = .inr inner) :
    (collapsedOutcome p inner outer).Sound := by
  have hinner : Dict.get? outer.resolvedOutputs (p.chain.getLastD "") = some inner := by
    unfold nestedStep at h
    split at h
    · split_ifs at h
    · next found hfound => rw [hfound, Sum.inr.inj h]
  refine ⟨houter.resolved, fun item hitem => ?_⟩
  rcases Dict.mem_update hitem with hitem | hitem
  · exact houter.dynamic item hitem
  · obtain ⟨name, -, rfl⟩ := mem_map.1 hitem
    exact houter.resolved _ (Dict.mem_of_get?_eq_some hinner)

theorem sound_nestedOutcome {inner : StorePath} {rest : Outcome}
    (hrest : rest.Sound) : (nestedOutcome p inner rest).Sound := by
  constructor
  · exact fun item hitem => Finset.mem_insert_of_mem (hrest.resolved item hitem)
  · intro item hitem
    rcases Dict.mem_update hitem with hitem | hitem
    · exact Finset.mem_insert_of_mem (hrest.dynamic item hitem)
    · obtain ⟨named, hnamed, rfl⟩ := mem_map.1 hitem
      exact Finset.mem_insert_of_mem (hrest.resolved named hnamed)

/-- **No goal gives a path that it did not produce**, whatever is below it. -/
theorem sound_of_ensures (h : Ensures S p o trace) : o.Sound := by
  induction h with
  | opaquePath A _ => exact (sound_ensureOpaque _).named _
  | nestedRefused => exact (Outcome.sound_of _).named _
  | nestedCollapses _ _ hstep _ ih => exact (sound_collapsedOutcome ih hstep).named _
  | nestedWraps _ _ _ _ _ _ ih => exact (sound_nestedOutcome ih).named _
  | flatEnds A _ hprepare => exact (sound_prepare hprepare).named _
  | flat A _ _ _ _ _ hroad _ => exact (sound_road hroad).named _

/-! ## Where the path of a reference comes from -/

/-- The path that `_input_paths` names for an output of a simple input. -/
def sourceOf (S : StoreView δ) (given : PathMap) (drvPath : StorePath) (name : String) :
    Option StorePath :=
  (Dict.get? given (drvPath, [name])).or ((staticPath S drvPath name).filter (·.base ≠ ""))

theorem get?_inputPath (given answer : PathMap) (drvPath : StorePath) (name : String)
    (key : PathKey) :
    Dict.get? (inputPath S given answer drvPath name) key =
      if (drvPath, [name]) = key then (sourceOf S given drvPath name).or (Dict.get? answer key)
      else Dict.get? answer key := by
  unfold inputPath sourceOf
  cases hgiven : Dict.get? given (drvPath, [name]) with
  | some built => simp [Dict.get?_set]
  | none =>
    cases hstatic : staticPath S drvPath name with
    | none => simp
    | some path =>
      by_cases hbase : path.base = ""
      · simp [hbase, Option.filter]
      · simp [hbase, Dict.get?_set, Option.filter]

theorem get?_foldl_inputPath (given answer : PathMap) (items : List (StorePath × String))
    (drvPath : StorePath) (name : String) :
    Dict.get? (items.foldl (fun answer item => inputPath S given answer item.1 item.2) answer)
        (drvPath, [name]) =
      if (drvPath, name) ∈ items then
        (sourceOf S given drvPath name).or (Dict.get? answer (drvPath, [name]))
      else Dict.get? answer (drvPath, [name]) := by
  induction items generalizing answer with
  | nil => simp
  | cons item items ih =>
    rw [foldl_cons, ih, get?_inputPath]
    by_cases hitem : item = (drvPath, name)
    · subst hitem
      cases sourceOf S given drvPath name <;> simp
    · have hne : (item.1, [item.2]) ≠ (drvPath, [name]) := fun heq => hitem (by
        simp only [Prod.mk.injEq, List.cons.injEq, and_true] at heq
        exact Prod.ext heq.1 heq.2)
      rw [if_neg hne]
      simp [Ne.symm hitem]

theorem get?_foldl_inputPath_of_chain (given answer : PathMap)
    (items : List (StorePath × String)) (h : key.2.length ≠ 1) :
    Dict.get? (items.foldl (fun answer item => inputPath S given answer item.1 item.2) answer)
        key = Dict.get? answer key := by
  induction items generalizing answer with
  | nil => rfl
  | cons item items ih =>
    have hne : (item.1, [item.2]) ≠ key := by
      rintro rfl
      exact h rfl
    rw [foldl_cons, ih, get?_inputPath, if_neg hne]

/-- A simple input: the path that a goal gave, or the one that its derivation names. -/
theorem get?_inputPaths (h : (drvPath, name) ∈ simpleInputs d) :
    Dict.get? (inputPaths S d given) (drvPath, [name]) = sourceOf S given drvPath name := by
  rw [inputPaths, get?_foldl_inputPath, if_pos h]
  unfold sourceOf
  cases Dict.get? given (drvPath, [name]) <;> simp

theorem get?_inputPaths_of_not_simple
    (h : ∀ name, key.2 = [name] → (key.1, name) ∉ simpleInputs d) :
    Dict.get? (inputPaths S d given) key = Dict.get? given key := by
  obtain ⟨drvPath, chain⟩ := key
  by_cases hchain : chain.length = 1
  · obtain ⟨name, rfl⟩ := length_eq_one_iff.1 hchain
    rw [inputPaths, get?_foldl_inputPath]
    exact if_neg (h name rfl)
  · exact get?_foldl_inputPath_of_chain given given _ hchain

/-! ## What resolution takes -/

theorem taken_of_resolve (h : resolve S d drvPath given = .ok basic) :
    ∃ taken, takePaths S.storeDir (inputPaths S d given)
        (inputReferences S.hashing S.storeDir d) = .ok taken ∧
      (basic = assemble S.hashing S.storeDir d drvPath taken ∨
        taken = [] ∧ basic.outputs = d.basicOutputs ∧ basic.inputSrcs = d.inputSrcs) := by
  unfold resolve at h
  split_ifs at h with hdynamic hinputs
  · obtain ⟨taken, htaken, hbasic⟩ := except_bind_eq_ok.1 h
    exact ⟨taken, htaken, .inl (Except.ok.inj hbasic).symm⟩
  · rw [inputReferences_of_simple _ _ (by simpa using hdynamic)]
    obtain ⟨taken, htaken, hbasic⟩ := except_bind_eq_ok.1 h
    exact ⟨taken, htaken, .inl (Except.ok.inj hbasic).symm⟩
  · have hnone : d.inputDrvs.1 = [] := by simpa using hinputs
    rw [inputReferences_of_simple _ _ (by simpa using hdynamic), simpleReferences, hnone]
    exact ⟨[], rfl, .inr (by rw [← Except.ok.inj h]; exact ⟨rfl, rfl, rfl⟩)⟩

def takenPaths (S : StoreView δ) (d : Derivation) (given : PathMap) : List StorePath :=
  match takePaths S.storeDir (inputPaths S d given) (inputReferences S.hashing S.storeDir d) with
  | .ok taken => taken.map Prod.snd
  | .error _ => []

theorem mem_takenPaths (h : resolve S d drvPath given = .ok basic) :
    path ∈ takenPaths S d given ↔
      ∃ r ∈ inputReferences S.hashing S.storeDir d,
        Dict.get? (inputPaths S d given) r.2 = some path := by
  obtain ⟨taken, htaken, -⟩ := taken_of_resolve h
  simp [takenPaths, htaken, mem_takePaths htaken]

theorem get?_outputs_of_resolve {o : DerivationOutput}
    (h : resolve S d drvPath given = .ok basic) (ho : Dict.get? d.basicOutputs.1 name = some o)
    (hpath : o.path ≠ "") : Dict.get? basic.outputs.1 name = some o := by
  obtain ⟨taken, -, rfl | ⟨-, houtputs, -⟩⟩ := taken_of_resolve h
  · apply BasicDerivation.get?_outputs_resolveDeferredOutputs _ _ ho
    simp [BasicDerivation.isDeferred, hpath]
  · rw [houtputs]
    exact ho

/-! ## The goal of a known output gives its key -/

theorem outputPaths_eq (d : Derivation) :
    outputPaths S d =
      d.basicOutputs.1.map fun item => (item.1, StorePath.ofText S.storeDir item.2.path) := by
  suffices h : ∀ (os : List DrvOutput) (t : Dict.Table String DerivationOutput),
      Dict.update (t.1.map fun item => (item.1, StorePath.ofText S.storeDir item.2.path))
          (os.map fun o => (o.outputName, .ofText S.storeDir o.path)) =
        (os.foldl (fun t o => t.set o.outputName ⟨o.path, o.hashAlgo, o.hashValue⟩) t).1.map
          fun item => (item.1, StorePath.ofText S.storeDir item.2.path) from h d.outputs .empty
  intro os
  induction os with
  | nil => exact fun t => rfl
  | cons o os ih =>
    intro t
    have hset := Dict.set_mapValues
      (fun o : DerivationOutput => StorePath.ofText S.storeDir o.path) t.1 o.outputName
      ⟨o.path, o.hashAlgo, o.hashValue⟩
    rw [foldl_cons, ← ih, Dict.Table.set, ← hset]
    rfl

theorem names_substituteAll {merged o : Outcome} (h : substituteAll A site paths merged = some o)
    (ho : o.succeeded = true) :
    (∀ name ∈ merged.resolvedOutputs.map Prod.fst, name ∈ o.resolvedOutputs.map Prod.fst) ∧
      ∀ item ∈ paths, item.1 ∈ o.resolvedOutputs.map Prod.fst := by
  induction paths generalizing merged with
  | nil =>
    rw [← Option.some.inj h]
    exact ⟨fun _ hname => hname, nofun⟩
  | cons item paths ih =>
    have hmerge (h : substituteAll A site paths (merged.merge item.1 item.2) = some o) :
        (∀ name ∈ merged.resolvedOutputs.map Prod.fst, name ∈ o.resolvedOutputs.map Prod.fst) ∧
          ∀ i ∈ item :: paths, i.1 ∈ o.resolvedOutputs.map Prod.fst := by
      obtain ⟨hkept, hpaths⟩ := ih h
      refine ⟨fun name hname => hkept name (Dict.mem_keys_set.2 (.inr hname)), fun i hi => ?_⟩
      rcases mem_cons.1 hi with rfl | hi
      · exact hkept i.1 (Dict.mem_keys_set.2 (.inl rfl))
      · exact hpaths i hi
    rw [substituteAll] at h
    split_ifs at h
    · exact hmerge h
    · split at h
      · cases h
      · next message status fails _ =>
        rw [← Option.some.inj h] at ho
        cases ho.symm.trans (refusal_goalFailure message fails).fails
      · exact hmerge h

theorem names_trySubstituteKnownOutputs (h : trySubstituteKnownOutputs A site paths = some o)
    (ho : o.succeeded = true)
    {item : String × StorePath} (hitem : item ∈ paths) (hbase : item.2.base ≠ "") :
    item.1 ∈ o.resolvedOutputs.map Prod.fst := by
  unfold trySubstituteKnownOutputs at h
  dsimp only at h
  split_ifs at h
  exact (names_substituteAll h ho).2 item (mem_filter.2 ⟨hitem, by simpa using hbase⟩)

theorem names_realisationsLoop {hashes : List (String × String)}
    {names : List String} {answer built : List (String × Realisation)}
    (h : realisationsLoop A site hashes names answer = some built) :
    (∀ key ∈ answer.map Prod.fst, key ∈ built.map Prod.fst) ∧
      ∀ name ∈ names, ∃ digest, drvOutputId digest name ∈ built.map Prod.fst := by
  induction names generalizing answer with
  | nil =>
    rw [← Option.some.inj h]
    exact ⟨fun _ hkey => hkey, nofun⟩
  | cons name names ih =>
    rw [realisationsLoop] at h
    split at h
    · cases h
    · next digest _ =>
      split at h
      · cases h
      · split_ifs at h
        obtain ⟨hkept, hnames⟩ := ih h
        refine ⟨fun key hkey => hkept key (Dict.mem_keys_set.2 (.inr hkey)),
          fun n hn => ?_⟩
        rcases mem_cons.1 hn with rfl | hn
        · exact ⟨digest, hkept _ (Dict.mem_keys_set.2 (.inl rfl))⟩
        · exact hnames n hn

theorem names_realisedPaths {resolved answer : List (String × StorePath)}
    (h : realisedPaths A site built resolved = some answer) :
    (∀ name ∈ resolved.map Prod.fst, name ∈ answer.map Prod.fst) ∧
      ∀ key ∈ built.map Prod.fst, afterLast '!' key ∈ answer.map Prod.fst := by
  induction built generalizing resolved with
  | nil =>
    rw [← Option.some.inj h]
    exact ⟨fun _ hname => hname, nofun⟩
  | cons item built ih =>
    rw [realisedPaths] at h
    split at h
    · cases h
    · split_ifs at h
      obtain ⟨hkept, hkeys⟩ := ih h
      refine ⟨fun name hname => hkept name (Dict.mem_keys_set.2 (.inr hname)),
        fun key hkey => ?_⟩
      rcases mem_cons.1 hkey with rfl | hkey
      · exact hkept _ (Dict.mem_keys_set.2 (.inl rfl))
      · exact hkeys key hkey

theorem names_tryRealiseTheResolvedOne {buildDrvPath drvPath : StorePath}
    {wanted : Finset String} {o : Outcome}
    (h : tryRealiseTheResolvedOne S A buildDrvPath drvPath wanted = some o) {name : String}
    (hname : name ∈ wanted) (hplain : '!' ∉ name.toList) :
    name ∈ o.resolvedOutputs.map Prod.fst := by
  obtain ⟨_, built, hbuilt, h⟩ := exists_realisations_of_cutOff h
  obtain ⟨hashes, -, hloop⟩ := Option.bind_eq_some_iff.1 hbuilt
  obtain ⟨paths, hpaths, h⟩ := Option.bind_eq_some_iff.1 h
  rw [← Option.some.inj h]
  obtain ⟨digest, hkey⟩ := (names_realisationsLoop hloop).2 name (mem_sortedSet.2 hname)
  rw [← afterLast_drvOutputId digest hplain]
  exact (names_realisedPaths hpaths).2 _ hkey

theorem mem_keys_withDynamicOutputs {o : Outcome} {name : String}
    (h : name ∈ o.resolvedOutputs.map Prod.fst) (drvPath : StorePath) :
    (drvPath, [name]) ∈ (o.withDynamicOutputs drvPath).dynamicPaths.map Prod.fst := by
  obtain ⟨path, hpath⟩ := Dict.mem_keys_iff.1 h
  exact Dict.mem_keys_update.2 (.inr (Dict.mem_keys_iff.2
    ⟨path, mem_map.2 ⟨(name, path), hpath, rfl⟩⟩))

theorem mem_keys_sayWhatItProduced (h : name ∈ o.resolvedOutputs.map Prod.fst) :
    name ∈ (sayWhatItProduced S o d wanted).resolvedOutputs.map Prod.fst := by
  obtain ⟨f, hf⟩ := sayWhatItProduced_eq (S := S) o d wanted
  rw [hf]
  exact h

theorem succeeded_sayWhatItProduced (o : Outcome) (d : Derivation) (wanted : Finset String) :
    (sayWhatItProduced S o d wanted).succeeded = o.succeeded := by
  unfold sayWhatItProduced
  split_ifs
  · rfl
  · split
    · rfl
    · dsimp only
      split_ifs <;> rfl

theorem mem_selectedOutputs_childGoal
    (h : Dict.get? (outputPaths S d) name = some path) (drvPath : StorePath) :
    name ∈ selectedOutputs d (childGoal drvPath name) := by
  unfold selectedOutputs
  split_ifs
  · rcases Dict.mem_update (Dict.mem_of_get?_eq_some h) with hin | hin
    · exact absurd hin not_mem_nil
    · obtain ⟨o, ho, heq⟩ := mem_map.1 hin
      rw [← (Prod.mk.inj heq).1]
      exact mem_toFinset.2 (mem_map_of_mem ho)
  · exact Finset.mem_singleton_self name

theorem alreadyRealised_of_path (h : Dict.get? (outputPaths S d) name = some path)
    (hbase : path.base ≠ "") (hname : name ∈ wanted) :
    alreadyRealised S A site d wanted = none := by
  have hin : (name, path) ∈ wantedPaths (outputPaths S d) wanted :=
    mem_filter.2 ⟨Dict.mem_of_get?_eq_some h, by simpa using hname⟩
  have hpath : namesAPath S d wanted = true :=
    any_eq_true.2 ⟨(name, path), hin, by simpa using hbase⟩
  exact if_pos (.inr (.inl hpath))

theorem output_of_resolve (h : resolve S d drvPath given = .ok basic)
    (hpath : Dict.get? (outputPaths S d) name = some path) (hbase : path.base ≠ "") :
    ∃ o : DerivationOutput, o.path ≠ "" ∧ StorePath.ofText S.storeDir o.path = path ∧
      (name, o) ∈ basic.outputs.1 := by
  rw [outputPaths_eq, Dict.get?_mapValues
    (fun o : DerivationOutput => StorePath.ofText S.storeDir o.path)] at hpath
  obtain ⟨o, ho, rfl⟩ := Option.map_eq_some_iff.1 hpath
  have htext : o.path ≠ "" := by
    intro hempty
    rw [hempty] at hbase
    exact hbase (by simp [StorePath.ofText])
  exact ⟨o, htext, rfl, Dict.mem_of_get?_eq_some (get?_outputs_of_resolve h ho htext)⟩

theorem mem_keys_prepares (h : Prepares S A (childGoal drvPath name) o) (ho : o.succeeded = true)
    (hread : S.readDerivation drvPath = some d)
    (hpath : Dict.get? (outputPaths S d) name = some path) (hbase : path.base ≠ "") :
    (drvPath, [name]) ∈ o.dynamicPaths.map Prod.fst := by
  have hselected := mem_selectedOutputs_childGoal hpath drvPath
  cases h with
  | refused hrefusal => cases ho.symm.trans hrefusal.fails
  | @substituted d' found hread' hearly =>
    obtain rfl : d = d' := Option.some.inj (hread.symm.trans hread')
    have hfound : found.succeeded = true :=
      (succeeded_sayWhatItProduced found d _).symm.trans ho
    have hitem : (name, path) ∈ wantedPaths (outputPaths S d)
        (selectedOutputs d (childGoal drvPath name)) :=
      mem_filter.2 ⟨Dict.mem_of_get?_eq_some hpath, by simpa using hselected⟩
    exact mem_keys_withDynamicOutputs (mem_keys_sayWhatItProduced
      (names_trySubstituteKnownOutputs hearly hfound hitem hbase)) drvPath
  | @realised d' found site hread' hrealised =>
    obtain rfl : d = d' := Option.some.inj (hread.symm.trans hread')
    rw [alreadyRealised_of_path hpath hbase hselected] at hrealised
    cases hrealised

theorem mem_keys_finishes {road : Road} (h : Finishes S A (childGoal drvPath name) d children road)
    (ho : (road.outcome S (childGoal drvPath name) d).succeeded = true)
    (hpath : Dict.get? (outputPaths S d) name = some path) (hbase : path.base ≠ "")
    (hname : '!' ∉ name.toList) : (drvPath, [name]) ∈
      (road.outcome S (childGoal drvPath name) d).dynamicPaths.map Prod.fst := by
  have hselected := mem_selectedOutputs_childGoal hpath drvPath
  cases h with
  | refused hrefuse => cases ho.symm.trans (refusal_refuseAFailedInput hrefuse).fails
  | @substituted basic found _ hresolve hlate =>
    obtain ⟨output, -, hof, hin⟩ := output_of_resolve hresolve hpath hbase
    have hfound : found.succeeded = true :=
      (succeeded_sayWhatItProduced found d _).symm.trans ho
    have hitem : (name, path) ∈ wantedPaths (basic.outputPaths S.storeDir)
        (selectedOutputs d (childGoal drvPath name)) :=
      mem_filter.2 ⟨mem_map.2 ⟨(name, output), hin, by rw [← hof]⟩,
        by simpa using hselected⟩
    exact mem_keys_withDynamicOutputs (mem_keys_sayWhatItProduced
      (names_trySubstituteKnownOutputs hlate hfound hitem hbase)) drvPath
  | cutOff _ _ hcutOff =>
    exact mem_keys_withDynamicOutputs (o := Outcome.mapResult _ _)
      (names_tryRealiseTheResolvedOne hcutOff hselected hname) drvPath
  | @built basic _ hresolve =>
    obtain ⟨output, htext, -, hin⟩ := output_of_resolve hresolve hpath hbase
    have hdeclared : name ∈ (declaredPaths S basic).map Prod.fst := by
      rw [declaredPaths, map_map]
      exact mem_map.2 ⟨(name, output),
        mem_filter.2 ⟨hin, by simpa using htext⟩, rfl⟩
    have hnamed : ∀ o : Outcome, name ∈ o.resolvedOutputs.map Prod.fst →
        name ∈ (nameTheResolvedDerivation S drvPath (buildPathOf A d drvPath basic)
          o).resolvedOutputs.map Prod.fst := by
      intro o ho
      unfold nameTheResolvedDerivation
      split_ifs <;> exact ho
    exact mem_keys_withDynamicOutputs (hnamed _ (Dict.mem_keys_update.2 (.inl hdeclared)))
      drvPath

/-- **The goal of an output whose path is known gives its key**, when it succeeds. -/
theorem gives_of_ensures (h : Ensures S (childGoal drvPath name) o trace)
    (ho : o.succeeded = true) (hread : S.readDerivation drvPath = some d)
    (hpath : Dict.get? (outputPaths S d) name = some path) (hbase : path.base ≠ "")
    (hname : '!' ∉ name.toList) : (drvPath, [name]) ∈ o.dynamicPaths.map Prod.fst := by
  cases h with
  | opaquePath A hp => cases hp
  | nestedRefused hp => cases hp.2
  | nestedCollapses hp => cases hp.2
  | nestedWraps hp => cases hp.2
  | flatEnds A _ hprepare =>
    rw [Outcome.succeeded_named] at ho
    have hkey := mem_keys_prepares (prepares_of_prepare hprepare) ho hread hpath hbase
    exact hkey
  | flat A _ hprepare _ _ _ hroad =>
    obtain rfl := Option.some.inj (hread.symm.trans (read_of_prepare hprepare))
    rw [Outcome.succeeded_named] at ho
    have hkey := mem_keys_finishes (finishes_of_finish hroad) ho hpath hbase hname
    exact hkey

theorem fails_of_unread (h : Ensures S (childGoal drvPath name) o trace)
    (hread : S.readDerivation drvPath = none) : o.succeeded = false := by
  cases h with
  | opaquePath A hp => cases hp
  | nestedRefused hp => cases hp.2
  | nestedCollapses hp => cases hp.2
  | nestedWraps hp => cases hp.2
  | flatEnds A _ hprepare =>
    rw [Outcome.succeeded_named]
    cases prepares_of_prepare hprepare with
    | refused hrefusal => exact hrefusal.fails
    | substituted hread' => cases hread.symm.trans hread'
    | realised _ hread' => cases hread.symm.trans hread'
  | flat A _ hprepare => cases hread.symm.trans (read_of_prepare hprepare)

/-! ## Ready inputs -/

theorem mem_givenPaths (h : Dict.get? (givenPaths children) key = some path) :
    ∃ c ∈ children, (key, path) ∈ c.dynamicPaths := by
  suffices hfold : ∀ given : PathMap,
      (key, path) ∈ children.foldl (fun given r => Dict.update given r.dynamicPaths) given →
        (key, path) ∈ given ∨ ∃ c ∈ children, (key, path) ∈ c.dynamicPaths from
    (hfold [] (Dict.mem_of_get?_eq_some h)).resolve_left not_mem_nil
  clear h
  induction children with
  | nil => exact fun given hin => .inl hin
  | cons child children ih =>
    intro given hin
    rcases ih _ hin with hin | ⟨c, hc, hin⟩
    · rcases Dict.mem_update hin with hin | hin
      · exact .inl hin
      · exact .inr ⟨child, mem_cons_self .., hin⟩
    · exact .inr ⟨c, mem_cons_of_mem _ hc, hin⟩

theorem get?_givenPaths_ne_none {c : Outcome}
    (hc : c ∈ children) (hkey : key ∈ c.dynamicPaths.map Prod.fst) :
    Dict.get? (givenPaths children) key ≠ none := by
  suffices hfold : ∀ given : PathMap,
      key ∈ (children.foldl (fun given r => Dict.update given r.dynamicPaths) given).map Prod.fst ↔
        key ∈ given.map Prod.fst ∨ ∃ c ∈ children, key ∈ c.dynamicPaths.map Prod.fst by
    have hsome := Dict.get?_isSome_iff.2 ((hfold []).2 (.inr ⟨c, hc, hkey⟩))
    exact Option.isSome_iff_ne_none.1 hsome
  clear hc hkey
  induction children with
  | nil => simp
  | cons child children ih =>
    intro given
    rw [foldl_cons, ih, Dict.mem_keys_update, exists_mem_cons_iff, or_assoc]

theorem mem_simpleReferences {item : StorePath × String} (h : item ∈ simpleInputs d) :
    (placeholderOf S.hashing (upstreamOutputHash S.hashing S.storeDir item.1 item.2),
      (item.1, [item.2])) ∈ simpleReferences S.hashing S.storeDir d := by
  obtain ⟨input, hinput, hin⟩ := mem_flatMap.1 h
  obtain ⟨name, hname, rfl⟩ := mem_map.1 hin
  exact mem_flatMap.2 ⟨input, hinput, mem_map_of_mem hname⟩

section Ready

variable (S A) (d : Derivation) (run : DerivedPath → Outcome)

def givenTo : PathMap := givenPaths ((inputGoals S A d).map run)

/-- A path is valid in the store, or a goal of an input that succeeded produced it. -/
def InputReady (path : StorePath) : Prop :=
  A.isValidPath .input path = true ∨
    ∃ c ∈ inputGoals S A d, (run c).succeeded = true ∧ path ∈ (run c).producedPaths

/-- The outputs that no goal answers for under their name: those of a builtin, which the code
does not wait for, and those whose name holds the mark of an id, which a cut-off build loses. -/
def Unawaited (drvPath : StorePath) (name : String) : Prop :=
  (∃ input, S.readDerivation drvPath = some input ∧ isBuiltin input = true) ∨ '!' ∈ name.toList

/-- Every such output has its path ready, unless a goal gives another. -/
def UnawaitedReady : Prop :=
  ∀ item ∈ simpleInputs d, Unawaited S item.1 item.2 → ∀ path : StorePath, path.base ≠ "" →
    staticPath S item.1 item.2 = some path →
    Dict.get? (givenTo S A d run) (item.1, [item.2]) = none → InputReady S A d run path

variable {S A d run} {p : DerivedPath} {basic : BasicDerivation} {buildDrvPath : StorePath}
  {answer : BuildAnswer} {below : DerivedPath → Trace}

theorem inputReady_of_given (hinputs : ∀ c ∈ inputGoals S A d, Ensures S c (run c) (below c))
    (hsucceeded : ∀ c ∈ inputGoals S A d, (run c).succeeded = true) {key : PathKey}
    {path : StorePath} (h : Dict.get? (givenTo S A d run) key = some path) :
    InputReady S A d run path := by
  obtain ⟨o, ho, hin⟩ := mem_givenPaths h
  obtain ⟨c, hc, rfl⟩ := mem_map.1 ho
  exact .inr ⟨c, hc, hsucceeded c hc, (sound_of_ensures (hinputs c hc)).dynamic _ hin⟩

theorem mem_inputGoals {drvPath : StorePath} {name : String}
    (hitem : (drvPath, name) ∈ simpleInputs d)
    (hneeded : ∀ names, name ∈ names → name ∈ inputOutputsRequiringGoals S A drvPath names) :
    childGoal drvPath name ∈ inputGoals S A d := by
  obtain ⟨input, hinput, hin⟩ := mem_flatMap.1 hitem
  obtain ⟨name', hname', heq⟩ := mem_map.1 hin
  obtain ⟨rfl, rfl⟩ := Prod.mk.inj heq
  exact mem_append_left _ (mem_flatMap.2
    ⟨input, hinput, mem_map_of_mem (hneeded _ hname')⟩)

/-- The path that the derivation of an awaited input names is only taken when it is valid: else
the goal of the output gives its key. -/
theorem inputReady_of_static (hinputs : ∀ c ∈ inputGoals S A d, Ensures S c (run c) (below c))
    (hsucceeded : ∀ c ∈ inputGoals S A d, (run c).succeeded = true) {drvPath path : StorePath}
    {name : String} (hitem : (drvPath, name) ∈ simpleInputs d)
    (hawaited : ¬ Unawaited S drvPath name) (hbase : path.base ≠ "")
    (hstatic : staticPath S drvPath name = some path)
    (hgiven : Dict.get? (givenTo S A d run) (drvPath, [name]) = none) :
    InputReady S A d run path := by
  rw [Unawaited, not_or] at hawaited
  obtain ⟨hbuiltin, hname⟩ := hawaited
  cases hread : S.readDerivation drvPath with
  | none =>
    have hgoal : childGoal drvPath name ∈ inputGoals S A d := by
      refine mem_inputGoals hitem fun names hin => ?_
      rw [inputOutputsRequiringGoals, hread]
      exact hin
    cases (hsucceeded _ hgoal).symm.trans (fails_of_unread (hinputs _ hgoal) hread)
  | some input =>
    have hpath : Dict.get? (outputPaths S input) name = some path := by
      rw [staticPath, hread] at hstatic
      exact hstatic
    have hplain : isBuiltin input = false := by
      rw [Bool.eq_false_iff]
      exact fun h => hbuiltin ⟨input, hread, h⟩
    cases hvalid : A.isValidPath .input path with
    | true => exact .inl hvalid
    | false =>
      have hgoal : childGoal drvPath name ∈ inputGoals S A d := by
        refine mem_inputGoals hitem fun names hin => ?_
        rw [inputOutputsRequiringGoals, hread]
        simp [hplain, hin, hpath, hvalid]
      have hkey := gives_of_ensures (hinputs _ hgoal) (hsucceeded _ hgoal) hread hpath hbase
        hname
      exact absurd hgiven (get?_givenPaths_ne_none (mem_map_of_mem hgoal) hkey)

/-- **A build takes only paths that are ready, exactly when those of its unawaited inputs are.**
For every derivation and whatever the goals of its inputs answered, once the goal enqueues the
build. -/
theorem inputsReady_iff (hinputs : ∀ c ∈ inputGoals S A d, Ensures S c (run c) (below c))
    (hroad : finish S A p d ((inputGoals S A d).map run) = .ok (.built basic buildDrvPath answer)) :
    (∀ path ∈ takenPaths S d (givenTo S A d run), InputReady S A d run path) ↔
      UnawaitedReady S A d run := by
  obtain ⟨hchildren, hresolve⟩ : (∀ o ∈ (inputGoals S A d).map run, o.succeeded = true) ∧
      resolve S d p.drvPath (givenTo S A d run) = .ok basic := by
    cases finishes_of_finish hroad with
    | built hchildren hresolve => exact ⟨hchildren, hresolve⟩
  have hsucceeded : ∀ c ∈ inputGoals S A d, (run c).succeeded = true :=
    fun c hc => hchildren _ (mem_map_of_mem hc)
  constructor
  · intro h item hitem _ path hbase hstatic hgiven
    refine h path ((mem_takenPaths hresolve).2 ?_)
    refine ⟨_, mem_append_left _ (mem_simpleReferences hitem), ?_⟩
    rw [get?_inputPaths hitem, sourceOf, hgiven, hstatic]
    simp [Option.filter, hbase]
  · intro h path hpath
    obtain ⟨r, -, hr⟩ := (mem_takenPaths hresolve).1 hpath
    by_cases hsimple : ∃ name, r.2.2 = [name] ∧ (r.2.1, name) ∈ simpleInputs d
    · obtain ⟨name, hchain, hitem⟩ := hsimple
      have hkey : r.2 = (r.2.1, [name]) := Prod.ext rfl hchain
      rw [hkey, get?_inputPaths hitem] at hr
      rcases Option.or_eq_some_iff.1 hr with hgiven | ⟨hgiven, hstatic⟩
      · exact inputReady_of_given hinputs hsucceeded hgiven
      · obtain ⟨hstatic, hbase⟩ := Option.filter_eq_some_iff.1 hstatic
        have hbase : path.base ≠ "" := by simpa using hbase
        by_cases hunawaited : Unawaited S r.2.1 name
        · exact h (r.2.1, name) hitem hunawaited path hbase hstatic hgiven
        · exact inputReady_of_static hinputs hsucceeded hitem hunawaited hbase hstatic hgiven
    · rw [get?_inputPaths_of_not_simple fun name hchain hitem =>
        hsimple ⟨name, hchain, hitem⟩] at hr
      exact inputReady_of_given hinputs hsucceeded hr

end Ready

end Store

/-! ### A source that is not fetched yet -/

section Fetch

/-- A derivation with one output, built for a path. -/
def oneOutputDrv (builder output : String) (inputs : Dict.Table StorePath (List String)) :
    Derivation :=
  ⟨[⟨"", "", "out", "/nix/store/" ++ output⟩], inputs, ∅, "x86_64-linux", builder, [], .empty,
    false, .empty⟩

/-- A program that reads a library, and a source that Nix itself fetches. -/
def progDrv : Derivation :=
  oneOutputDrv "/bin/sh" "prog"
    ((Dict.Table.empty.set ⟨"lib.drv"⟩ ["out"]).set ⟨"src.drv"⟩ ["out"])

def progPath : DerivedPath := ⟨⟨"prog.drv"⟩, [], some (.names {"out"})⟩

/-- A store with these derivations, and hashes that keep the text. -/
def fetchStore : StoreView String where
  storeDir := "/nix/store"
  hashing := ⟨id, id, id, id⟩
  readDerivation path :=
    if path = ⟨"lib.drv"⟩ then some (oneOutputDrv "/bin/sh" "lib" .empty)
    else if path = ⟨"src.drv"⟩ then some (oneOutputDrv "builtin:fetchurl" "src" .empty)
    else if path = ⟨"prog.drv"⟩ then some progDrv
    else none
  outputHashes _ := none
  unmarked _ _ h := by cases h

def doneAnswer : BuildAnswer where
  result := success .built
  cancelled := false
  silent h := by cases h

/-- The library is in a cache; the source is in the store when it was `fetched`. -/
def fetchAnswers (fetched : Bool) : Answers :=
  { Answers.nothingThere doneAnswer with
    isValidPath := fun _ path => path = ⟨"src"⟩ && fetched
    substitutePath := fun _ path => if path = ⟨"lib"⟩ then some (.fetched true) else none }

/-- What the goal of the library finds. -/
def fetchOutcome (fetched : Bool) (c : DerivedPath) : Outcome :=
  (prepare fetchStore (fetchAnswers fetched) c).elim id fun _ => .of (goalFailure "" .unknown)

def fetchRun (fetched : Bool) (c : DerivedPath) : Outcome := (fetchOutcome fetched c).named c

def fetchTrace (fetched : Bool) (c : DerivedPath) : Trace :=
  ⟨[], [], .unbuilt c (fetchOutcome fetched c).result⟩

theorem ensures_fetchRun (fetched : Bool) :
    ∀ c ∈ inputGoals fetchStore (fetchAnswers fetched) progDrv,
      Ensures fetchStore c (fetchRun fetched c) (fetchTrace fetched c) := by
  have hgoals : ∀ fetched, inputGoals fetchStore (fetchAnswers fetched) progDrv =
      [childGoal ⟨"lib.drv"⟩ "out"] := by decide +kernel
  have hleft : ∀ fetched, (prepare fetchStore (fetchAnswers fetched)
      (childGoal ⟨"lib.drv"⟩ "out")).isLeft = true := by decide +kernel
  intro c hc
  rw [hgoals, mem_singleton] at hc
  obtain ⟨o, ho⟩ := Sum.isLeft_iff.1 (hleft fetched)
  subst hc
  have hflat := Ensures.flatEnds (fetchAnswers fetched) ⟨rfl, rfl⟩ ho
  rw [fetchRun, fetchTrace, fetchOutcome, ho]
  exact hflat

theorem prepare_progPath (fetched : Bool) :
    prepare fetchStore (fetchAnswers fetched) progPath = .inr progDrv := by
  have hright : ∀ fetched, (prepare fetchStore (fetchAnswers fetched) progPath).isRight = true := by
    decide +kernel
  exact prepare_eq_of_isRight rfl (hright fetched)

theorem finish_fetchRun (fetched : Bool) :
    ∃ basic path answer, finish fetchStore (fetchAnswers fetched) progPath progDrv
      ((inputGoals fetchStore (fetchAnswers fetched) progDrv).map (fetchRun fetched)) =
        .ok (.built basic path answer) := by
  have hbuilds : ∀ fetched, (finish fetchStore (fetchAnswers fetched) progPath progDrv
      ((inputGoals fetchStore (fetchAnswers fetched) progDrv).map
        (fetchRun fetched))).toOption.any (fun road => road.builds.length = 1) = true := by
    decide +kernel
  obtain ⟨basic, hroad⟩ := finish_eq_of_builds (hbuilds fetched)
  exact ⟨basic, _, _, hroad⟩

/-- With the source in the store, the program is built from what is there. -/
theorem inputsReady_fetched :
    takenPaths fetchStore progDrv
        (givenTo fetchStore (fetchAnswers true) progDrv (fetchRun true)) = [⟨"lib"⟩, ⟨"src"⟩] ∧
      InputReady fetchStore (fetchAnswers true) progDrv (fetchRun true) ⟨"lib"⟩ ∧
      InputReady fetchStore (fetchAnswers true) progDrv (fetchRun true) ⟨"src"⟩ := by
  obtain ⟨basic, path, answer, hroad⟩ := finish_fetchRun true
  have htaken : takenPaths fetchStore progDrv
      (givenTo fetchStore (fetchAnswers true) progDrv (fetchRun true)) =
        [⟨"lib"⟩, ⟨"src"⟩] := by decide +kernel
  suffices hready : UnawaitedReady fetchStore (fetchAnswers true) progDrv (fetchRun true) by
    have hall := (inputsReady_iff (ensures_fetchRun true) hroad).2 hready
    exact ⟨htaken, hall _ (by rw [htaken]; simp), hall _ (by rw [htaken]; simp)⟩
  intro item hitem hunawaited path hbase hstatic _
  refine .inl ?_
  rcases mem_cons.1 hitem with rfl | hitem
  · rcases hunawaited with ⟨input, hread, hbuiltin⟩ | hbang
    · obtain rfl := Option.some.inj hread
      exact absurd hbuiltin (by decide +kernel)
    · exact absurd hbang (by decide +kernel)
  · obtain rfl := mem_singleton.1 hitem
    have hpath : staticPath fetchStore ⟨"src.drv"⟩ "out" = some ⟨"src"⟩ := by decide +kernel
    obtain rfl := Option.some.inj (hpath.symm.trans hstatic)
    decide +kernel

/-- **Without it, the program is built all the same**: the goal waits for the library alone, and
the source is neither valid nor produced. -/
theorem builtin_is_not_awaited :
    prepare fetchStore (fetchAnswers false) progPath = .inr progDrv ∧
    (∀ c ∈ inputGoals fetchStore (fetchAnswers false) progDrv,
      Ensures fetchStore c (fetchRun false c) (fetchTrace false c)) ∧
    (∃ basic path answer, finish fetchStore (fetchAnswers false) progPath progDrv
      ((inputGoals fetchStore (fetchAnswers false) progDrv).map (fetchRun false)) =
        .ok (.built basic path answer)) ∧
    ⟨"src"⟩ ∈ takenPaths fetchStore progDrv
        (givenTo fetchStore (fetchAnswers false) progDrv (fetchRun false)) ∧
    ¬ InputReady fetchStore (fetchAnswers false) progDrv (fetchRun false) ⟨"src"⟩ := by
  refine ⟨prepare_progPath false, ensures_fetchRun false, finish_fetchRun false,
    by decide +kernel, ?_⟩
  rintro (hvalid | ⟨c, hc, -, hproduced⟩)
  · cases hvalid
  · have hnone : ∀ c ∈ inputGoals fetchStore (fetchAnswers false) progDrv,
        ⟨"src"⟩ ∉ (fetchRun false c).producedPaths := by decide +kernel
    exact hnone c hc hproduced

end Fetch

end Pynixd.Goals
