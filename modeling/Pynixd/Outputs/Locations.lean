import Pynixd.Lib.Dict
import Pynixd.Lib.Runs

/-!
# Where the outputs of a build live

`PynixdContext.output_locations` remembers the backend that built each output.  The
proxy and the opaque goals answer "valid" for a path that the map places at a configured
backend, without asking the backend.

* `isValidPath`, `queryValidPaths`, `ensureOpaque` — the three answers;
* `answers_truthful_of_run` — while every event keeps the copies, every answer is true.
-/

namespace Pynixd.Outputs

open Runs

/-! ## The state -/

abbrev StorePath := String

abbrev StoreId := String

def localStoreId : StoreId := "local"

/-- A configured store, as far as the answers see it. -/
structure Store where
  daemon : Bool
  valid : List StorePath
  deriving DecidableEq, Repr

/-- `PynixdContext`, and the builds between their answer and `_collect_outputs`. -/
structure Context where
  stores : List (StoreId × Store)
  outputLocations : List (StorePath × StoreId)
  /-- The store and the outputs of each build that was answered and is not recorded. -/
  finished : List (StoreId × List StorePath)
  deriving DecidableEq, Repr

def Context.fresh (stores : List (StoreId × Store)) : Context := ⟨stores, [], []⟩

/-- `ctx.local_store`. -/
def localStore (c : Context) : Option Store := Dict.get? c.stores localStoreId

def storeForOutputPath (c : Context) (p : StorePath) : Option StoreId :=
  (Dict.get? c.outputLocations p).bind fun id =>
    (Dict.get? c.stores id).bind fun store => if store.daemon then some id else none

/-- A change to the valid paths of one store. -/
def Context.onStore (c : Context) (id : StoreId) (f : List StorePath → List StorePath) : Context :=
  { c with stores := Dict.modify c.stores id fun s => { s with valid := f s.valid } }

/-- Paths become valid in a store: a pull, an upload, a substitution. -/
def Context.arrive (c : Context) (id : StoreId) (paths : List StorePath) : Context :=
  c.onStore id (· ++ paths)

/-- A garbage collection deletes paths of a store. -/
def Context.collect (c : Context) (id : StoreId) (dead : List StorePath) : Context :=
  c.onStore id (·.filter (· ∉ dead))

/-! ## The answers -/

/-- `IsValidPath`: the answer of the local store, unless it is no and the map knows a
backend.  Without a local store there is no answer. -/
def isValidPath (c : Context) (p : StorePath) : Option Bool :=
  (localStore c).map fun l =>
    if p ∈ l.valid then true else (storeForOutputPath c p).isSome

/-- `QueryValidPaths`: the paths the local store has, and those the map knows a backend
for. -/
def queryValidPaths (c : Context) (paths : List StorePath) : Option (List StorePath) :=
  (localStore c).map fun l =>
    paths.filter (· ∈ l.valid) ∪ paths.filter fun p => (storeForOutputPath c p).isSome

/-- What `_try_substitute_path` comes to. -/
inductive Substitution where
  | imported
  /-- A substituter has the path, and the import failed. -/
  | failed
  /-- No substituter has it, and neither has the daemon behind pynixd. -/
  | missing
  deriving DecidableEq, Repr

/-- `_ensure_opaque`: whether the goal succeeds, and the context it leaves. -/
def ensureOpaque (c : Context) (p : StorePath) (sub : Substitution) : Option (Bool × Context) :=
  (localStore c).map fun l =>
    if p ∈ l.valid then (true, c)
    else if (storeForOutputPath c p).isSome then (true, c)
    else
      match sub with
      | .imported => (true, c.arrive localStoreId [p])
      | .failed => (false, c)
      | .missing => (false, c)

/-! ## What happens to the stores -/

/-- The answer of a backend to `BuildDerivation`. -/
structure BuildAnswer where
  status : Nat
  /-- The output paths of the realisations, empty where one names none. -/
  realised : List StorePath
  /-- The output paths of the derivation, empty where they are not known before. -/
  static : List StorePath
  deriving DecidableEq, Repr

/-- `all_output_paths` of `_collect_outputs`. -/
def BuildAnswer.allOutputPaths (a : BuildAnswer) : List StorePath :=
  a.static.filter (· != "") ∪ a.realised.filter (· != "")

inductive Event where
  /-- The backend answers a build.  One that succeeded left its outputs there. -/
  | finish (id : StoreId) (answer : BuildAnswer)
  /-- `_collect_outputs` writes the map.  It does so before it pulls. -/
  | record (id : StoreId) (outputs : List StorePath)
  /-- Paths become valid in a store.  A pull brings the outputs to the local store, and
  one that fails brings some of them or none. -/
  | arrive (id : StoreId) (paths : List StorePath)
  | collect (id : StoreId) (dead : List StorePath)
  /-- `add_store`, which leaves everything as it is when the store does not start. -/
  | addStore (id : StoreId) (store : Store) (starts : Bool)
  /-- `remove_store`, which refuses the local store. -/
  | removeStore (id : StoreId)
  deriving DecidableEq, Repr

def step (c : Context) : Event → Option Context
  | .finish id answer =>
    if answer.status = 0 then
      let c := c.arrive id answer.allOutputPaths
      some { c with finished := (id, answer.allOutputPaths) :: c.finished }
    else some c
  | .record id outputs =>
    if (id, outputs) ∈ c.finished then
      some { c with
        outputLocations := Dict.update c.outputLocations (outputs.map fun p => (p, id))
        finished := c.finished.erase (id, outputs) }
    else none
  | .arrive id paths => some (c.arrive id paths)
  | .collect id dead => some (c.collect id dead)
  | .addStore id store starts =>
    some (if starts then { c with stores := Dict.set c.stores id store } else c)
  | .removeStore id =>
    some (if id = localStoreId then c else { c with stores := Dict.pop c.stores id })

/-! ## Copies -/

/-- The store `id` is configured and has `p`. -/
def HoldsAt (c : Context) (id : StoreId) (p : StorePath) : Prop :=
  ∃ store, Dict.get? c.stores id = some store ∧ p ∈ store.valid

def Held (c : Context) (p : StorePath) : Prop := ∃ id, HoldsAt c id p

/-- Some configured store other than `id` has `p`. -/
def HeldElsewhere (c : Context) (id : StoreId) (p : StorePath) : Prop :=
  ∃ other, other ≠ id ∧ HoldsAt c other p

def IsBackend (c : Context) (id : StoreId) : Prop :=
  ∃ store, Dict.get? c.stores id = some store ∧ store.daemon = true

/-- The map places `p` at `id`, or is about to. -/
def PlacedAt (c : Context) (p : StorePath) (id : StoreId) : Prop :=
  Dict.get? c.outputLocations p = some id ∨ ∃ outputs, (id, outputs) ∈ c.finished ∧ p ∈ outputs

/-- The event takes the last copy of no path that the map places at a backend: what a
collection or a removal takes is held elsewhere, and what the map places at a store that
comes is held by it or elsewhere. -/
def Keeps (c : Context) : Event → Prop
  | .collect id dead => ∀ p ∈ dead, ∀ b, PlacedAt c p b → IsBackend c b → HeldElsewhere c id p
  | .addStore id store true => ∀ p b, PlacedAt c p b →
      (if b = id then store.daemon = true else IsBackend c b) →
        p ∈ store.valid ∨ HeldElsewhere c id p
  | .removeStore id => id ≠ localStoreId → ∀ p b, b ≠ id → PlacedAt c p b → IsBackend c b →
      HeldElsewhere c id p
  | _ => True

/-- **What the answers rest on**: a path that the map places at a configured backend is
held by some configured store. -/
def Vouched (c : Context) : Prop := ∀ p b, PlacedAt c p b → IsBackend c b → Held c p

/-! ### What an event does to the copies -/

section Copies

variable {c : Context} {id b : StoreId} {p : StorePath}

theorem holdsAt_onStore (f : List StorePath → List StorePath) :
    HoldsAt (c.onStore id f) b p ↔
      if id = b then ∃ store, Dict.get? c.stores b = some store ∧ p ∈ f store.valid
      else HoldsAt c b p := by
  unfold HoldsAt Context.onStore
  simp only [Dict.get?_modify]
  by_cases hb : id = b
  · simp [hb]
  · simp [hb]

theorem isBackend_onStore (f : List StorePath → List StorePath) :
    IsBackend (c.onStore id f) b ↔ IsBackend c b := by
  unfold IsBackend Context.onStore
  simp only [Dict.get?_modify]
  by_cases hb : id = b
  · simp [hb]
  · simp [hb]

theorem Held.arrive (h : Held c p) (paths : List StorePath) : Held (c.arrive id paths) p := by
  obtain ⟨b, store, hstore, hp⟩ := h
  refine ⟨b, (holdsAt_onStore _).2 ?_⟩
  by_cases hb : id = b
  · rw [if_pos hb]
    exact ⟨store, hstore, List.mem_append_left _ hp⟩
  · rw [if_neg hb]
    exact ⟨store, hstore, hp⟩

theorem held_of_arrive {store : Store} (hstore : Dict.get? c.stores id = some store)
    {paths : List StorePath} (hp : p ∈ paths) : Held (c.arrive id paths) p := by
  refine ⟨id, (holdsAt_onStore _).2 ?_⟩
  rw [if_pos rfl]
  exact ⟨store, hstore, List.mem_append_right _ hp⟩

theorem HeldElsewhere.held {c' : Context} (h : HeldElsewhere c id p)
    (hframe : ∀ other, other ≠ id → Dict.get? c'.stores other = Dict.get? c.stores other) :
    Held c' p := by
  obtain ⟨other, hne, store, hstore, hp⟩ := h
  exact ⟨other, store, by rw [hframe other hne, hstore], hp⟩

theorem Held.at_or_elsewhere (h : Held c p) (id : StoreId) :
    HoldsAt c id p ∨ HeldElsewhere c id p := by
  obtain ⟨b, hb⟩ := h
  by_cases hbid : b = id
  · subst hbid
    exact .inl hb
  · exact .inr ⟨b, hbid, hb⟩

end Copies

/-! ## Every event keeps what the answers rest on -/

section Steps

variable {c c' : Context}

theorem vouched_fresh (stores : List (StoreId × Store)) : Vouched (.fresh stores) := by
  rintro p b (hloc | ⟨outputs, hmem, -⟩) -
  · simp [Context.fresh] at hloc
  · simp [Context.fresh] at hmem

theorem Vouched.arrive (h : Vouched c) (id : StoreId) (paths : List StorePath) :
    Vouched (c.arrive id paths) := by
  intro p b hplaced hb
  exact (h p b hplaced ((isBackend_onStore _).1 hb)).arrive paths

theorem Vouched.finish (h : Vouched c) (id : StoreId) (outputs : List StorePath) :
    Vouched { c.arrive id outputs with finished := (id, outputs) :: c.finished } := by
  rintro p b (hloc | ⟨outs, hmem, hp⟩) hb
  · exact h.arrive id outputs p b (.inl hloc) hb
  · rcases List.mem_cons.1 hmem with heq | hmem
    · obtain ⟨rfl, rfl⟩ := Prod.mk.inj heq
      have hb' : IsBackend (c.arrive b outs) b := hb
      obtain ⟨store, hstore, -⟩ := (isBackend_onStore _).1 hb'
      exact held_of_arrive hstore hp
    · exact h.arrive id outputs p b (.inr ⟨outs, hmem, hp⟩) hb

theorem Vouched.record (h : Vouched c) {id : StoreId} {outputs : List StorePath}
    (hmem : (id, outputs) ∈ c.finished) :
    Vouched { c with
      outputLocations := Dict.update c.outputLocations (outputs.map fun p => (p, id))
      finished := c.finished.erase (id, outputs) } := by
  rintro p b (hloc | ⟨outs, houts, hp⟩) hb
  · simp only [Dict.get?_update_const] at hloc
    split_ifs at hloc with hp
    · obtain rfl : id = b := by simpa using hloc
      exact h p id (.inr ⟨outputs, hmem, hp⟩) hb
    · exact h p b (.inl hloc) hb
  · exact h p b (.inr ⟨outs, List.mem_of_mem_erase houts, hp⟩) hb

theorem Vouched.collect (h : Vouched c) {id : StoreId} {dead : List StorePath}
    (hkeeps : Keeps c (.collect id dead)) : Vouched (c.collect id dead) := by
  intro p b hplaced hb
  have hb' : IsBackend c b := (isBackend_onStore _).1 hb
  have helsewhere : HeldElsewhere c id p → Held (c.collect id dead) p := fun he =>
    he.held fun other hne => by
      rw [Context.collect, Context.onStore, Dict.get?_modify, if_neg (Ne.symm hne)]
  by_cases hp : p ∈ dead
  · exact helsewhere (hkeeps p hp b hplaced hb')
  · rcases (h p b hplaced hb').at_or_elsewhere id with ⟨store, hstore, hvalid⟩ | he
    · refine ⟨id, (holdsAt_onStore _).2 ?_⟩
      rw [if_pos rfl]
      exact ⟨store, hstore, by simp [hvalid, hp]⟩
    · exact helsewhere he

theorem vouched_addStore {id : StoreId} {store : Store}
    (hkeeps : Keeps c (.addStore id store true)) :
    Vouched { c with stores := Dict.set c.stores id store } := by
  rintro p b hplaced ⟨store', hstore', hdaemon⟩
  have hcond : if b = id then store.daemon = true else IsBackend c b := by
    by_cases hb : b = id
    · subst hb
      obtain rfl : store = store' := by simpa using hstore'
      simpa using hdaemon
    · rw [if_neg hb]
      exact ⟨store', by rwa [Dict.get?_set_of_ne _ _ (Ne.symm hb)] at hstore', hdaemon⟩
  rcases hkeeps p b hplaced hcond with hp | he
  · exact ⟨id, store, by simp, hp⟩
  · exact he.held fun other hne => Dict.get?_set_of_ne _ _ (Ne.symm hne)

theorem vouched_removeStore {id : StoreId} (hid : id ≠ localStoreId)
    (hkeeps : Keeps c (.removeStore id)) : Vouched { c with stores := Dict.pop c.stores id } := by
  rintro p b hplaced ⟨store, hstore, hdaemon⟩
  simp only [Dict.get?_pop] at hstore
  split_ifs at hstore with hb
  refine (hkeeps hid p b (Ne.symm hb) hplaced ⟨store, hstore, hdaemon⟩).held fun other hne => ?_
  simp only [Dict.get?_pop, if_neg (Ne.symm hne)]

theorem vouched_step {e : Event} (h : Vouched c) (hkeeps : Keeps c e) (hstep : step c e = some c') :
    Vouched c' := by
  cases e with
  | finish id answer =>
    simp only [step] at hstep
    split_ifs at hstep <;> cases hstep
    · exact h.finish id _
    · exact h
  | record id outputs =>
    simp only [step] at hstep
    split_ifs at hstep with hmem
    cases hstep
    exact h.record hmem
  | arrive id paths =>
    cases hstep
    exact h.arrive id paths
  | collect id dead =>
    cases hstep
    exact h.collect hkeeps
  | addStore id store starts =>
    cases starts with
    | false =>
      cases hstep
      exact h
    | true =>
      cases hstep
      exact vouched_addStore hkeeps
  | removeStore id =>
    simp only [step, Option.some.injEq] at hstep
    subst hstep
    split_ifs with hid
    · exact h
    · exact vouched_removeStore hid hkeeps

end Steps

/-! ## The answers are true -/

section Answers

variable {c c' : Context} {p : StorePath}

theorem placed_of_storeForOutputPath {id : StoreId} (h : storeForOutputPath c p = some id) :
    PlacedAt c p id ∧ IsBackend c id := by
  simp only [storeForOutputPath, Option.bind_eq_some_iff] at h
  obtain ⟨b, hloc, store, hstore, hdaemon⟩ := h
  split_ifs at hdaemon with hd
  obtain rfl : b = id := by simpa using hdaemon
  exact ⟨.inl hloc, store, hstore, hd⟩

theorem Vouched.held_of_isSome (h : Vouched c) (hp : (storeForOutputPath c p).isSome = true) :
    Held c p := by
  obtain ⟨id, hid⟩ := Option.isSome_iff_exists.1 hp
  obtain ⟨hplaced, hb⟩ := placed_of_storeForOutputPath hid
  exact h p id hplaced hb

theorem held_of_local {l : Store} (hl : localStore c = some l) (hp : p ∈ l.valid) : Held c p :=
  ⟨localStoreId, l, hl, hp⟩

theorem Vouched.isValidPath (h : Vouched c) (hp : isValidPath c p = some true) : Held c p := by
  obtain ⟨l, hl, hans⟩ := Option.map_eq_some_iff.1 hp
  by_cases hmem : p ∈ l.valid
  · exact held_of_local hl hmem
  · rw [if_neg hmem] at hans
    exact h.held_of_isSome hans

theorem Vouched.queryValidPaths (h : Vouched c) {paths valid : List StorePath}
    (hq : queryValidPaths c paths = some valid) : ∀ p ∈ valid, Held c p := by
  obtain ⟨l, hl, rfl⟩ := Option.map_eq_some_iff.1 hq
  intro p hp
  rcases List.mem_union_iff.1 hp with hlocal | hmap
  · exact held_of_local hl (by simpa using (List.mem_filter.1 hlocal).2)
  · exact h.held_of_isSome (List.mem_filter.1 hmap).2

theorem Vouched.ensureOpaque (h : Vouched c) {sub : Substitution}
    (he : ensureOpaque c p sub = some (true, c')) : Held c' p := by
  obtain ⟨l, hl, hans⟩ := Option.map_eq_some_iff.1 he
  split_ifs at hans with hlocal hmap
  · cases hans
    exact held_of_local hl hlocal
  · cases hans
    exact h.held_of_isSome hmap
  · cases sub with
    | imported =>
      cases hans
      exact held_of_arrive hl (by simp)
    | failed => cases hans
    | missing => cases hans

end Answers

/-- **The answers are true in every run that keeps the copies.**  Whatever the stores at the start,
in every state of such a run a path that the proxy calls valid, or an opaque goal ensures, is held
by a configured store. -/
theorem answers_truthful_of_run {stores : List (StoreId × Store)} {es : List Event} {c : Context}
    (hkeeps : Guarded step Keeps (.fresh stores) es) (hrun : run step (.fresh stores) es = some c) :
    (∀ p, isValidPath c p = some true → Held c p) ∧
      (∀ paths valid, queryValidPaths c paths = some valid → ∀ p ∈ valid, Held c p) ∧
      (∀ p sub c', ensureOpaque c p sub = some (true, c') → Held c' p) := by
  have h : Vouched c :=
    inv_of_guarded (fun _ _ _ => vouched_step) (vouched_fresh stores) hkeeps hrun
  exact ⟨fun p => h.isValidPath, fun paths valid => h.queryValidPaths,
    fun p sub c' => h.ensureOpaque⟩

def twoStores : List (StoreId × Store) := [(localStoreId, ⟨true, []⟩), ("builder", ⟨true, []⟩)]

def oneOutput : BuildAnswer := ⟨0, [], ["out"]⟩

/-- The run of that build, with what its pull brings, up to a collection at the backend. -/
def buildThenCollect (pulled : List StorePath) : List Event :=
  [.finish "builder" oneOutput, .record "builder" ["out"], .arrive localStoreId pulled,
    .collect "builder" ["out"]]

def collected (pulled : List StorePath) : Context :=
  ⟨[(localStoreId, ⟨true, pulled⟩), ("builder", ⟨true, []⟩)], [("out", "builder")], []⟩

/-- The output was pulled before the backend collected it: the local copy stays, and the
answer is true. -/
theorem isValidPath_after_pull :
    run step (.fresh twoStores) (buildThenCollect ["out"]) = some (collected ["out"]) ∧
      isValidPath (collected ["out"]) "out" = some true ∧ Held (collected ["out"]) "out" := by
  have hrun : run step (.fresh twoStores) (buildThenCollect ["out"]) =
      some (collected ["out"]) := by decide
  have hkeeps : Guarded step Keeps (.fresh twoStores) (buildThenCollect ["out"]) := by
    refine ⟨trivial, fun c₁ h₁ => ⟨trivial, fun c₂ h₂ => ⟨trivial, fun c₃ h₃ => ⟨?_, ?_⟩⟩⟩⟩
    · cases h₁
      cases h₂
      cases h₃
      intro p hp b _ _
      obtain rfl : p = "out" := by simpa using hp
      exact ⟨localStoreId, by decide, ⟨true, ["out"]⟩, by decide, by decide⟩
    · exact fun _ _ => trivial
  exact ⟨hrun, by decide, (answers_truthful_of_run hkeeps hrun).1 "out" (by decide)⟩

/-- The pull failed before the backend collected its garbage: nobody has the output, and
the proxy calls it valid. -/
theorem isValidPath_after_failed_pull :
    run step (.fresh twoStores) (buildThenCollect []) = some (collected []) ∧
      isValidPath (collected []) "out" = some true ∧ ¬ Held (collected []) "out" := by
  refine ⟨by decide, by decide, ?_⟩
  rintro ⟨id, store, hstore, hp⟩
  simp only [collected, Dict.get?_cons, Dict.get?_nil] at hstore
  split_ifs at hstore
  all_goals
    cases hstore
    cases hp

end Pynixd.Outputs
