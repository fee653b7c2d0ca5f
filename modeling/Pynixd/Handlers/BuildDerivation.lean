import Mathlib.Data.Prod.Lex
import Pynixd.Drv.Resolution
import Pynixd.Handlers.AddToStoreNar
import Pynixd.Queue.Clients

/-!
# Whose build an untrusted client gets

`pynixd/handlers/build_derivation.py` does not believe the derivation path of a client below
`ADMIN`.  It writes the derivation to the store as a text and builds the path that it gets, and
the queue joins the builds of one path.

* `Shares` — two paths whose requests can get one build of the queue: the same path
  (`shares_iff`);
* `identified_iff` — **who shares a build asked for the same derivation**, exactly where outputs
  that print alike are equal, which they are where no output has a quote in its name;
* `one_build_of_two` — one output whose name spells two.
-/

namespace Pynixd

/-! ## The request -/

/-- `BuildDerivationRequest`, with the role of the client that sends it. -/
structure BuildDerivationRequest where
  role : Role
  drvPath : StorePath
  derivation : BasicDerivation

/-- The store writes a text under a name, with references, and answers with the path. -/
abbrev AddText := String → List Char → Finset String → String

namespace BuildDerivationRequest

/-- There are outputs, and all of them are content-addressed. -/
def contentAddressed (r : BuildDerivationRequest) : Bool :=
  !r.derivation.outputs.1.isEmpty && r.derivation.outputs.1.all (·.2.isCa)

/-- `BuildDerivationHandler`, up to the queue: the derivation path that is enqueued, and
nothing for a request that is refused. -/
def buildPath (storeDir : String) (addTextToStore : AddText) (r : BuildDerivationRequest) :
    Option String :=
  if r.role.belowAdmin then
    if r.contentAddressed then
      some (addTextToStore (nixDrvName storeDir r.drvPath ++ ".drv")
        (r.derivation.unparse storeDir false)
        (r.derivation.inputSrcs.image (StorePath.str storeDir)))
    else none
  else some (r.drvPath.str storeDir)

end BuildDerivationRequest

/-! ## Joining a build -/

section Joining

open Queue Queue.BuildQueue Queue.Clients Runs

theorem drvPath_of_enqueue {q : BuildQueue} (h : Inv q) {a : EnqueueArgs} {id : BuildId} {r : Ref}
    (hok : (q.enqueue a).1 = .ok (id, r)) :
    ∃ b, (q.enqueue a).2.objects[r]? = some b ∧ b.drvPath = a.drvPath := by
  have hnote := idle_noteMaxJobs q a
  unfold enqueue at hok ⊢
  split_ifs at hok ⊢
  dsimp only at hok ⊢
  split at hok
  · next r' b hrunning =>
    cases hok
    obtain ⟨hget, hb, -⟩ := running_eq_some hrunning
    obtain ⟨hr, hpath⟩ := (hnote.inv h).byPath _ _ hget
    obtain ⟨b', hb', hlater⟩ := (idle_joinRunning hr hb a).follows.exists_after hb
    exact ⟨b', hb', hlater.drvPath.trans (hpath b hb)⟩
  · cases hok
    exact ⟨_, (objects_append _ a _).trans (if_pos rfl), (appended_fields _ a).2.1⟩

/-- Two `BuildDerivation`s of these paths, the second one some time after the first, get one
build. -/
def Shares (p p' : String) : Prop :=
  ∃ es es' q q' id id' r, run step empty es = some q ∧
    (q.enqueue (callArgs p)).1 = .ok (id, r) ∧
    run step (q.enqueue (callArgs p)).2 es' = some q' ∧
    (q'.enqueue (callArgs p')).1 = .ok (id', r)

theorem shares_iff {p p' : String} : Shares p p' ↔ p = p' := by
  constructor
  · rintro ⟨es, es', q, q', id, id', r, hrun, hok, hrun', hok'⟩
    have hinv := inv_of_steps hrun
    have hinv₁ := (hinv.advances_enqueue (callArgs p)).inv
    obtain ⟨b, hb, hpath⟩ := drvPath_of_enqueue hinv hok
    obtain ⟨b₁, hb₁, hlater⟩ := hinv₁.persists_run hrun' hb
    have hinv₂ : Inv q' := inv_of_run (fun q e q' hq hstep => by
      cases hstep
      exact (hq.advances_next e).inv) hinv₁ hrun'
    obtain ⟨b₂, hb₂, hlater₂⟩ := (hinv₂.advances_enqueue (callArgs p')).persists r b₁ hb₁
    obtain ⟨b₃, hb₃, hpath'⟩ := drvPath_of_enqueue hinv₂ hok'
    rw [hb₂] at hb₃
    cases hb₃
    exact hpath.symm.trans ((hlater₂.drvPath.trans hlater.drvPath).symm.trans hpath')
  · rintro rfl
    refine ⟨[], [], empty, ((empty).enqueue (callArgs p)).2, 1, 1, 0, rfl, rfl, rfl, ?_⟩
    simp [enqueue, callArgs, noteMaxJobs, running, append, holdForGoal, empty, QueuedBuild.new,
      QueuedBuild.isDone, Future.done]

end Joining

/-! ## Derivations that are equal on the wire -/

theorem itemLe_iff {a b : String × String} : itemLe a b ↔ toLex a ≤ toLex b :=
  Prod.Lex.le_iff.symm

instance : Std.Total itemLe where
  total a b := by simpa only [itemLe_iff] using le_total (toLex a) (toLex b)

instance : IsTrans (String × String) itemLe where
  trans _ _ _ hab hbc := itemLe_iff.2 ((itemLe_iff.1 hab).trans (itemLe_iff.1 hbc))

namespace BasicDerivation

/-- The outputs are equal, as dictionaries. -/
def SameOutputs (d d' : BasicDerivation) : Prop :=
  ∀ name, Dict.get? d.outputs.1 name = Dict.get? d'.outputs.1 name

/-- All that is not an output is equal. -/
structure SameBeside (d d' : BasicDerivation) : Prop where
  inputSrcs : d.inputSrcs = d'.inputSrcs
  platform : d.platform = d'.platform
  builder : d.builder = d'.builder
  args : d.args = d'.args
  env : ∀ name, Dict.get? d.env.1 name = Dict.get? d'.env.1 name

theorem sortedOutputs_eq_iff {d d' : BasicDerivation} :
    d.sortedOutputs = d'.sortedOutputs ↔ d.SameOutputs d' := by
  exact Dict.Table.insertionSort_eq_iff fun _ _ => le_antisymm

theorem sortedSet_image_inj (storeDir : String) {s s' : Finset StorePath} :
    sortedSet (s.image (StorePath.str storeDir)) = sortedSet (s'.image (StorePath.str storeDir)) ↔
      s = s' := by
  constructor
  · intro h
    have himage : s.image (StorePath.str storeDir) = s'.image (StorePath.str storeDir) := by
      ext x
      rw [← mem_sortedSet, h, mem_sortedSet]
    exact Finset.image_injective (fun _ _ => str_inj) himage
  · rintro rfl
    rfl

theorem rest_eq_iff (storeDir : String) {d d' : BasicDerivation} :
    d.rest storeDir = d'.rest storeDir ↔ d.SameBeside d' := by
  have henv : d.env.1.insertionSort itemLe = d'.env.1.insertionSort itemLe ↔
      ∀ name, Dict.get? d.env.1 name = Dict.get? d'.env.1 name := by
    apply Dict.Table.insertionSort_eq_iff
    intro a b hab hba
    have heq := le_antisymm (itemLe_iff.1 hab) (itemLe_iff.1 hba)
    exact congrArg (fun x => (ofLex x).1) heq
  simp only [rest, Prod.mk.injEq, sortedSet_image_inj, henv]
  constructor
  · rintro ⟨hsrcs, hplatform, hbuilder, hargs, hsame⟩
    exact ⟨hsrcs, hplatform, hbuilder, hargs, hsame⟩
  · rintro ⟨hsrcs, hplatform, hbuilder, hargs, hsame⟩
    exact ⟨hsrcs, hplatform, hbuilder, hargs, hsame⟩

end BasicDerivation

/-! ## The identity of a build -/

/-- The store's path says what was written: the name, the text and the references. -/
def AddText.Injective (addTextToStore : AddText) : Prop :=
  ∀ name text references name' text' references',
    addTextToStore name text references = addTextToStore name' text' references' →
      name = name' ∧ text = text' ∧ references = references'

section Identity

variable (storeDir : String) (addTextToStore : AddText) (r r' : BuildDerivationRequest)

def SameName : Prop := nixDrvName storeDir r.drvPath = nixDrvName storeDir r'.drvPath

/-- **Who shares a build asked for the same derivation**, under the same name. -/
def Identified : Prop :=
  ∀ p p', r.buildPath storeDir addTextToStore = some p →
    r'.buildPath storeDir addTextToStore = some p' → Shares p p' →
      (r.derivation.SameOutputs r'.derivation ∧ r.derivation.SameBeside r'.derivation) ∧
        SameName storeDir r r'

/-- Requests that are let in and differ in their outputs alone have outputs that print
differently. -/
def OutputsApart : Prop :=
  r.contentAddressed = true → r'.contentAddressed = true → SameName storeDir r r' →
    r.derivation.SameBeside r'.derivation →
      r.derivation.printOutputs false = r'.derivation.printOutputs false →
        r.derivation.SameOutputs r'.derivation

theorem outputsApart_of_plainNames (h : r.derivation.PlainNames) (h' : r'.derivation.PlainNames) :
    OutputsApart storeDir r r' := fun _ _ _ _ htext =>
  BasicDerivation.sortedOutputs_eq_iff.1 (BasicDerivation.sortedOutputs_inj h h' htext)

variable {addTextToStore r r'}

theorem buildPath_of_belowAdmin (h : r.role.belowAdmin = true) {p : String} :
    r.buildPath storeDir addTextToStore = some p ↔
      r.contentAddressed = true ∧ addTextToStore (nixDrvName storeDir r.drvPath ++ ".drv")
        (r.derivation.unparse storeDir false)
        (r.derivation.inputSrcs.image (StorePath.str storeDir)) = p := by
  rw [BuildDerivationRequest.buildPath, if_pos h]
  by_cases hca : r.contentAddressed = true
  · rw [if_pos hca, Option.some.injEq, and_iff_right hca]
  · simp [hca]

/-- **An untrusted client gets the build of its own derivation** exactly where outputs that
print alike are equal; and where they are not, some output has a quote in its name. -/
theorem identified_iff (hinj : addTextToStore.Injective) (hrole : r.role.belowAdmin = true)
    (hrole' : r'.role.belowAdmin = true) :
    (Identified storeDir addTextToStore r r' ↔ OutputsApart storeDir r r') ∧
      (¬ OutputsApart storeDir r r' → ¬ (r.derivation.PlainNames ∧ r'.derivation.PlainNames)) := by
  refine ⟨⟨fun h hca hca' hname hbeside htext => ?_, fun h p p' hp hp' hshares => ?_⟩,
    fun hnot hplain => hnot (outputsApart_of_plainNames storeDir r r' hplain.1 hplain.2)⟩
  · -- one name, one text and one set of references are one path
    have hunparse := (BasicDerivation.unparse_inj storeDir).2
      ⟨htext, (BasicDerivation.rest_eq_iff storeDir).2 hbeside⟩
    refine (h _ _ ((buildPath_of_belowAdmin storeDir hrole).2 ⟨hca, rfl⟩)
      ((buildPath_of_belowAdmin storeDir hrole').2 ⟨hca', rfl⟩) (shares_iff.2 ?_)).1.1
    rw [hname, hunparse, hbeside.inputSrcs]
  · obtain ⟨hca, rfl⟩ := (buildPath_of_belowAdmin storeDir hrole).1 hp
    obtain ⟨hca', rfl⟩ := (buildPath_of_belowAdmin storeDir hrole').1 hp'
    obtain ⟨hname, htext, -⟩ := hinj _ _ _ _ _ _ (shares_iff.1 hshares)
    obtain ⟨houtputs, hrest⟩ := (BasicDerivation.unparse_inj storeDir).1 htext
    have hbeside := (BasicDerivation.rest_eq_iff storeDir).1 hrest
    have hname : SameName storeDir r r' := by
      have hchars := congrArg String.toList hname
      rw [String.toList_append, String.toList_append] at hchars
      exact String.toList_inj.1 (List.append_cancel_right hchars)
    exact ⟨⟨h hca hca' hname hbeside houtputs, hbeside⟩, hname⟩

/-- A store that keeps all of what it is given in the path. -/
def textPath : AddText := fun name text references =>
  String.ofList (printEscaped name ++ ',' :: (printEscaped (String.ofList text) ++ ',' ::
    printList ((sortedSet references).map printEscaped)))

theorem textPath_injective : textPath.Injective := by
  intro name text references name' text' references' heq
  have hnot : ∀ l, NotEscaping (l ++ [',']) := fun l => notEscaping_concat l (by decide)
  have hreferences := BasicDerivation.readsBack_strings.cons ',' fun _ => trivial
  have htext := (readsBack_printEscaped.append hreferences fun _ _ _ => trivial).cons ',' hnot
  have hall := (readsBack_printEscaped.append htext fun _ _ _ => trivial).injective
    (by simp [NotEscaping])
  have hvalues := @hall (name, String.ofList text, sortedSet references)
    (name', String.ofList text', sortedSet references') (String.ofList_injective heq)
  simp only [Prod.mk.injEq, String.ofList_inj] at hvalues
  obtain ⟨hname, htexts, hsets⟩ := hvalues
  refine ⟨hname, htexts, Finset.ext fun x => ?_⟩
  rw [← mem_sortedSet, hsets, mem_sortedSet]

/-- A request of an untrusted client that differs in the outputs alone. -/
def requestWith (outputs : Dict.Table String DerivationOutput) : BuildDerivationRequest where
  role := .user
  drvPath := ⟨"00000000000000000000000000000000-hello.drv"⟩
  derivation := ⟨outputs, ∅, "x86_64-linux", "/bin/sh", [], .empty⟩

def twoOutputs : BuildDerivationRequest :=
  requestWith ⟨[("a", ⟨"", "r:sha256", ""⟩), ("b", ⟨"", "r:sha256", ""⟩)], by decide⟩

/-- One floating output, whose name spells the rest of the first one and the start of the
second. -/
def oneOutput : BuildDerivationRequest :=
  requestWith ⟨[("a\",\"\",\"r:sha256\",\"\"),(\"b", ⟨"", "r:sha256", ""⟩)], by decide⟩

/-- Two outputs with plain names are not taken for one. -/
theorem identified_twoOutputs :
    textPath.Injective ∧ (Identified "/nix/store" textPath twoOutputs
      (requestWith ⟨[("out", ⟨"", "r:sha256", ""⟩)], by decide⟩)) := by
  refine ⟨textPath_injective,
    (identified_iff "/nix/store" textPath_injective rfl rfl).1.2 ?_⟩
  apply outputsApart_of_plainNames
  · intro item hitem
    simp only [twoOutputs, requestWith, List.mem_cons, List.not_mem_nil, or_false] at hitem
    rcases hitem with rfl | rfl <;> decide
  · intro item hitem
    simp only [requestWith, List.mem_cons, List.not_mem_nil, or_false] at hitem
    subst hitem
    decide

/-- **One build of two derivations**: both requests are let in, and they get one path. -/
theorem one_build_of_two :
    textPath.Injective ∧ oneOutput.contentAddressed = true ∧ twoOutputs.contentAddressed = true ∧
      ¬ Identified "/nix/store" textPath oneOutput twoOutputs := by
  have htext : oneOutput.derivation.printOutputs false =
      twoOutputs.derivation.printOutputs false := by decide +kernel
  have hpath : oneOutput.buildPath "/nix/store" textPath =
      twoOutputs.buildPath "/nix/store" textPath := by
    have hunparse := (BasicDerivation.unparse_inj "/nix/store").2 ⟨htext, rfl⟩
    simp only [BuildDerivationRequest.buildPath, hunparse]
    rfl
  refine ⟨textPath_injective, by decide +kernel, by decide +kernel, fun h => ?_⟩
  have hsame := (h _ _ hpath rfl (shares_iff.2 rfl)).1.1 "a"
  exact absurd hsame (by decide +kernel)

end Identity

end Pynixd
