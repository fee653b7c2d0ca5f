import Pynixd.Substitution.Availability

/-!
# The references of what is imported

`SubstitutePathGoal` (`pynixd/goals/substitute.py`) asks `get_substituter` for a candidate, ensures
the references that the candidate names, and calls `substitute`.  This asks `get_substituter` once
more, and imports what it gets then.

* `covered_of_run` — **every reference of what is registered was ensured**, where the answers
  agree about the references;
* `import_selects_again` — a late answer of a better store is imported with references that nobody
  ensured.
-/

namespace Pynixd.SubstituteGoal

open Runs
open Substituters (Memory StoreId QueryResult PathInfo Settings)

/-- The substituters in their order, with their priorities. -/
abbrev Stores := List (StoreId × Int)

/-- The candidates of `_best_candidate_from_cache`. -/
def candidates (m : Memory) (path : StorePath) (stores : Stores) : List (Int × PathInfo) :=
  stores.filterMap fun store =>
    ((Dict.get? (m.positive.perStore path) store.1).bind (·.pathInfo)).map (store.2, ·)

/-- `_best_candidate_from_cache`: the first of the least priority. -/
def bestCandidate (m : Memory) (path : StorePath) (stores : Stores) : Option PathInfo :=
  ((candidates m path stores).minOn? Prod.fst).map Prod.snd

inductive Phase where
  /-- In `get_substituter`. -/
  | selecting
  /-- It awaits the goals of these references. -/
  | ensuring (references : List StorePath)
  /-- Behind them, before `substitute`. -/
  | ensured
  /-- It awaits the import, or has ended. -/
  | handedOver
  deriving DecidableEq

inductive Import where
  | selecting
  | importing (info : PathInfo)

structure World where
  memory : Memory
  goals : List Phase
  /-- The import of the path in `_active_imports`. -/
  active : Option Import
  /-- The paths that goals have ensured to be valid. -/
  ensured : List StorePath
  /-- What the last import has registered. -/
  registered : Option PathInfo

def World.start : World := ⟨⟨[], [], []⟩, [], none, [], none⟩

inductive Event where
  /-- A query comes back, of whoever made it, and is recorded. -/
  | records (result : QueryResult)
  /-- Entries expire, and other paths are asked for. -/
  | forgets (memory : Memory)
  | begins
  /-- `get_substituter` comes to the cache. -/
  | selects (goal : Nat)
  /-- The goals of the references have succeeded. -/
  | ensures (goal : Nat)
  | substitutes (goal : Nat)
  /-- The import comes to the cache. -/
  | importSelects
  | imports

/-- A goal without a candidate ends, and another one ensures the references of its candidate. -/
def selected (path : StorePath) : Option PathInfo → Phase
  | none => .handedOver
  | some info => .ensuring (info.references.filter (· ≠ path))

def step (c : Settings) (path : StorePath) (stores : Stores) (w : World) : Event → Option World
  | .records result => some { w with memory := w.memory.recordQueryResult c path result }
  | .forgets memory =>
    if memory.positive.perStore path ⊆ w.memory.positive.perStore path then
      some { w with memory }
    else none
  | .begins => some { w with goals := w.goals ++ [.selecting] }
  | .selects i =>
    if w.goals[i]? = some .selecting then
      some { w with goals := w.goals.set i (selected path (bestCandidate w.memory path stores)) }
    else none
  | .ensures i =>
    match w.goals[i]? with
    | some (.ensuring references) =>
      some { w with goals := w.goals.set i .ensured, ensured := references ++ w.ensured }
    | _ => none
  | .substitutes i =>
    if w.goals[i]? = some .ensured then
      some { w with
        goals := w.goals.set i .handedOver
        active := some (w.active.getD .selecting) }
    else none
  | .importSelects =>
    match w.active with
    | some .selecting =>
      some { w with active := (bestCandidate w.memory path stores).map .importing }
    | _ => none
  | .imports =>
    match w.active with
    | some (.importing info) => some { w with active := none, registered := some info }
    | _ => none

/-- **Every reference of what was registered was ensured**, other than the path itself. -/
def Covered (path : StorePath) (w : World) : Prop :=
  ∀ info ∈ w.registered, ∀ r ∈ info.references, r ≠ path → r ∈ w.ensured

/-- The info names these references. -/
def Names (references : List StorePath) (info : PathInfo) : Prop :=
  ∀ r, r ∈ info.references ↔ r ∈ references

/-- An answer that is recorded names the references of the path. -/
def Agrees (references : List StorePath) (_ : World) : Event → Prop
  | .records result => ∀ info ∈ result.pathInfo, Names references info
  | _ => True

/-! ## Both selections -/

/-- The goals of the path have ensured its references. -/
def Ready (path : StorePath) (references : List StorePath) (w : World) : Prop :=
  ∀ r ∈ references, r ≠ path → r ∈ w.ensured

structure Inv (path : StorePath) (references : List StorePath) (w : World) : Prop where
  cached : ∀ entry ∈ w.memory.positive.perStore path, ∀ info ∈ entry.2.pathInfo,
    Names references info
  ensuring : ∀ refs, .ensuring refs ∈ w.goals → ∀ r ∈ references, r ≠ path → r ∈ refs
  ensured : .ensured ∈ w.goals → Ready path references w
  active : w.active.isSome = true → Ready path references w
  importing : ∀ info, w.active = some (.importing info) → Names references info
  covered : Covered path w

variable {c : Settings} {path : StorePath} {stores : Stores} {references : List StorePath}
  {w t : World} {m : Memory}

theorem inv_start : Inv path references .start := by
  constructor <;> simp [World.start, Substituters.Cache.perStore, Covered]

theorem mem_of_bestCandidate {info : PathInfo} (h : bestCandidate m path stores = some info) :
    ∃ entry ∈ m.positive.perStore path, entry.2.pathInfo = some info := by
  obtain ⟨candidate, hmin, rfl⟩ := Option.map_eq_some_iff.1 h
  obtain ⟨store, -, hstore⟩ := List.mem_filterMap.1 (List.minOn?_mem hmin)
  obtain ⟨info, hinfo, rfl⟩ := Option.map_eq_some_iff.1 hstore
  obtain ⟨result, hresult, hinfo⟩ := Option.bind_eq_some_iff.1 hinfo
  exact ⟨_, Dict.mem_of_get?_eq_some hresult, hinfo⟩

theorem Inv.names (h : Inv path references w) {info : PathInfo}
    (hbest : bestCandidate w.memory path stores = some info) : Names references info := by
  obtain ⟨entry, hentry, hinfo⟩ := mem_of_bestCandidate hbest
  exact h.cached entry hentry info hinfo

theorem Inv.records (h : Inv path references w) {result : QueryResult}
    (hagrees : ∀ info ∈ result.pathInfo, Names references info) :
    Inv path references { w with memory := w.memory.recordQueryResult c path result } := by
  refine ⟨fun entry hentry => ?_, h.ensuring, h.ensured, h.active, h.importing, h.covered⟩
  simp only [Memory.recordQueryResult] at hentry
  split_ifs at hentry
  · rw [Substituters.Cache.perStore, Substituters.Cache.record, Dict.get?_set_self] at hentry
    rcases Dict.mem_set hentry with hentry | rfl
    · exact h.cached entry hentry
    · exact hagrees
  · exact h.cached entry hentry

theorem inv_step (w : World) (e : Event) (t : World) (h : Inv path references w)
    (hagrees : Agrees references w e) (hstep : step c path stores w e = some t) :
    Inv path references t := by
  cases e with
  | records result =>
    obtain rfl := Option.some.inj hstep
    exact h.records hagrees
  | forgets memory =>
    simp only [step] at hstep
    split_ifs at hstep with hsub
    obtain rfl := Option.some.inj hstep
    exact ⟨fun entry hentry => h.cached entry (hsub hentry), h.ensuring, h.ensured, h.active,
      h.importing, h.covered⟩
  | begins =>
    obtain rfl := Option.some.inj hstep
    exact ⟨h.cached, by simpa using h.ensuring, by simpa [Ready] using h.ensured, h.active,
      h.importing, h.covered⟩
  | selects i =>
    simp only [step] at hstep
    split_ifs at hstep
    obtain rfl := Option.some.inj hstep
    refine ⟨h.cached, fun refs hrefs => ?_, fun hin => ?_, h.active, h.importing, h.covered⟩
    · rcases List.mem_or_eq_of_mem_set hrefs with hrefs | hnew
      · exact h.ensuring refs hrefs
      · cases hbest : bestCandidate w.memory path stores with
        | none => simp [hbest, selected] at hnew
        | some info =>
          rw [hbest, selected, Phase.ensuring.injEq] at hnew
          subst hnew
          intro r hr hne
          exact List.mem_filter.2 ⟨(h.names hbest r).2 hr, decide_eq_true hne⟩
    · rcases List.mem_or_eq_of_mem_set hin with hin | hnew
      · exact h.ensured hin
      · cases hbest : bestCandidate w.memory path stores <;> simp [hbest, selected] at hnew
  | ensures i =>
    simp only [step] at hstep
    split at hstep
    · next refs hgoal =>
      obtain rfl := Option.some.inj hstep
      have hready := h.ensuring refs (List.mem_of_getElem? hgoal)
      refine ⟨h.cached, fun refs' hrefs => ?_, fun _ r hr hne => ?_, fun hsome r hr hne => ?_,
        h.importing, fun info hinfo r hr hne => ?_⟩
      · rcases List.mem_or_eq_of_mem_set hrefs with hrefs | hnew
        · exact h.ensuring refs' hrefs
        · cases hnew
      · exact List.mem_append_left _ (hready r hr hne)
      · exact List.mem_append_right _ (h.active hsome r hr hne)
      · exact List.mem_append_right _ (h.covered info hinfo r hr hne)
    · cases hstep
  | substitutes i =>
    simp only [step] at hstep
    split_ifs at hstep with hgoal
    obtain rfl := Option.some.inj hstep
    have hready := h.ensured (List.mem_of_getElem? hgoal)
    refine ⟨h.cached, fun refs hrefs => ?_, fun _ => hready, fun _ => hready, fun info hinfo => ?_,
      h.covered⟩
    · rcases List.mem_or_eq_of_mem_set hrefs with hrefs | hnew
      · exact h.ensuring refs hrefs
      · cases hnew
    · cases hactive : w.active with
      | none => simp [hactive] at hinfo
      | some task => exact h.importing info (by simpa [hactive] using hinfo)
  | importSelects =>
    simp only [step] at hstep
    split at hstep
    · next hactive =>
      obtain rfl := Option.some.inj hstep
      refine ⟨h.cached, h.ensuring, h.ensured, fun _ => h.active (by rw [hactive]; rfl),
        fun info hinfo => ?_, h.covered⟩
      obtain ⟨info', hbest, hinfo'⟩ := Option.map_eq_some_iff.1 hinfo
      cases hinfo'
      exact h.names hbest
    · cases hstep
  | imports =>
    simp only [step] at hstep
    split at hstep
    · next info hactive =>
      obtain rfl := Option.some.inj hstep
      have hready := h.active (by rw [hactive]; rfl)
      refine ⟨h.cached, h.ensuring, h.ensured, nofun, nofun, fun info' hinfo r hr hne => ?_⟩
      obtain rfl := Option.some.inj hinfo
      exact hready r ((h.importing info hactive r).1 hr) hne
    · cases hstep

/-- **What is registered has references that were ensured**, in any state that a run leads to in
which the answers agree about the references of the path. -/
theorem covered_of_run (c : Settings) (path : StorePath) (stores : Stores)
    (references : List StorePath) {es : List Event} {w : World}
    (hagree : Guarded (step c path stores) (Agrees references) .start es)
    (hrun : run (step c path stores) .start es = some w) : Covered path w :=
  (inv_of_guarded inv_step inv_start hagree hrun).covered

/-- A goal selects the first answer; a better one comes before the import selects. -/
def lateAnswer (late : PathInfo) : List Event :=
  [.begins, .records ⟨"a", some ⟨[⟨"dep"⟩], 8⟩, true⟩, .selects 0, .ensures 0,
    .records ⟨"b", some late, true⟩, .substitutes 0, .importSelects, .imports]

/-- A slow store of a better priority. -/
def twoStores : Stores := [("a", 40), ("b", 10)]

theorem covered_lateAnswer :
    ∃ w, run (step Substituters.defaults ⟨"p"⟩ twoStores) .start (lateAnswer ⟨[⟨"dep"⟩], 9⟩) =
        some w ∧ w.registered = some ⟨[⟨"dep"⟩], 9⟩ ∧ Covered ⟨"p"⟩ w := by
  obtain ⟨w, hrun, hw⟩ := Option.map_eq_some_iff.1 (by decide +kernel :
    (run (step Substituters.defaults ⟨"p"⟩ twoStores) .start (lateAnswer ⟨[⟨"dep"⟩], 9⟩)).map
      (·.registered) = some (some ⟨[⟨"dep"⟩], 9⟩))
  have hnames : ∀ size, Names [⟨"dep"⟩] ⟨[⟨"dep"⟩], size⟩ := fun _ _ => Iff.rfl
  refine ⟨w, hrun, hw, covered_of_run _ _ _ [⟨"dep"⟩] ?_ hrun⟩
  refine ⟨trivial, fun _ _ => ⟨?_, fun _ _ => ⟨trivial, fun _ _ => ⟨trivial, fun _ _ =>
    ⟨?_, fun _ _ => ⟨trivial, fun _ _ => ⟨trivial, fun _ _ => ⟨trivial, fun _ _ =>
      trivial⟩⟩⟩⟩⟩⟩⟩⟩
  · rintro info ⟨⟩
    exact hnames 8
  · rintro info ⟨⟩
    exact hnames 9

/-- **The import takes another answer** than the goal did: a reference of what is registered was
never ensured. -/
theorem import_selects_again :
    ∃ w, run (step Substituters.defaults ⟨"p"⟩ twoStores) .start
        (lateAnswer ⟨[⟨"dep"⟩, ⟨"other"⟩], 9⟩) = some w ∧ ¬Covered ⟨"p"⟩ w := by
  obtain ⟨w, hrun, hw⟩ := Option.map_eq_some_iff.1 (by decide +kernel :
    (run (step Substituters.defaults ⟨"p"⟩ twoStores) .start
      (lateAnswer ⟨[⟨"dep"⟩, ⟨"other"⟩], 9⟩)).map (fun w => (w.registered, w.ensured)) =
        some (some ⟨[⟨"dep"⟩, ⟨"other"⟩], 9⟩, [⟨"dep"⟩]))
  obtain ⟨hregistered, hensured⟩ := Prod.mk.inj hw
  refine ⟨w, hrun, fun h => ?_⟩
  have hother := h _ hregistered ⟨"other"⟩ (by simp) (by decide)
  rw [hensured] at hother
  exact absurd hother (by decide)

end Pynixd.SubstituteGoal
