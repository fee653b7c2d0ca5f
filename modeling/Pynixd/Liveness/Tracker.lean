import Pynixd.Lib.Dict
import Pynixd.Lib.Reach
import Pynixd.Lib.Rowids
import Pynixd.Lib.Runs

/-!
# The live set, remembered

`RootsTracker.refresh` of `pynixd/liveness.py` keeps the roots table of the database equal to
the links on disk, and answers with the closure of the roots over the reference graph.  It
remembers the answer, and gives it again while three signals stand still: the roots table was
equal to the links, the living roots are the ones of last time, and so is the fingerprint of
the valid paths.

* `mem_liveSet` — the recursive query: a path is live when its row can be **reached** from a row
  that a root names;
* `get?_refreshRoots` — after the reconcile the table holds what is on disk;
* `refresh_exact_of_run` — **every refresh that returns gives the live set**, in every run in
  which nobody takes the first signal away from a tracker that still remembers an answer.
-/

namespace Pynixd.LiveSet

open List Runs Rowids

/-! ## The database -/

/-- A row of `ValidPaths`, with the numbers that `Refs` has for it as the referrer. -/
structure ValidPath where
  path : String
  deriver : Option String
  refs : List Nat
  deriving DecidableEq

/-- Links by their names: the target and the kind of each. -/
structure Links where
  items : List (String × (String × String))
  apart : (items.map Prod.fst).Nodup

/-- `SELECT target`. -/
def Links.targets (links : Links) : Finset String := (links.items.map fun item => item.2.1).toFinset

structure Db where
  roots : Links
  validPaths : Table ValidPath
  /-- The snapshot: the live paths, each with its epoch. -/
  snapshot : Finset (String × Nat)

/-! ## The live set -/

abbrev Rows := List (Nat × ValidPath)

/-- `JOIN Refs r ON id = r.referrer`. -/
def references (rows : Rows) (id : Nat) : List Nat :=
  (rows.filter (·.1 = id)).flatMap (·.2.refs)

/-- `JOIN ValidPaths deriver_vp ON current_vp.deriver = deriver_vp.path`. -/
def derivers (rows : Rows) (id : Nat) : List Nat :=
  (rows.filter (·.1 = id)).flatMap fun current =>
    (rows.filter fun row => current.2.deriver = some row.2.path).map (·.1)

/-- The recursive arms of `QUERY_LIVE_SET`. -/
def arms (rows : Rows) (id : Nat) : List Nat :=
  references rows id ++ derivers rows id ++ (derivers rows id).flatMap (references rows)

/-- Every number that the query can meet. -/
def numbers (rows : Rows) : List Nat := rows.map (·.1) ++ rows.flatMap (·.2.refs)

def seeds (rows : Rows) (roots : Finset String) : List Nat :=
  (rows.filter (·.2.path ∈ roots)).map (·.1)

/-- `QUERY_LIVE_SET`, over the rows and the targets of all roots. -/
def liveSet (rows : Rows) (roots : Finset String) : Finset String :=
  let closure := Reach.saturate (arms rows) (numbers rows).length (seeds rows roots)
  ((rows.filter (·.1 ∈ closure)).map (·.2.path)).toFinset

def queryLiveSet (db : Db) (volatile : Finset String) : Finset String :=
  liveSet db.validPaths.rows (db.roots.targets ∪ volatile)

/-! ## The reconcile -/

/-- `refresh_roots`: whether the roots moved, and the table it leaves. -/
def refreshRoots (current stable : Links) : Bool × Links :=
  if Dict.same current.items stable.items then (false, current)
  else
    let kept := current.items.filter fun item => (Dict.get? stable.items item.1).isSome
    let landed := (stable.items.insertionSort (·.1 ≤ ·.1)).filter fun item =>
      Dict.get? current.items item.1 ≠ some item.2
    (true, ⟨Dict.update kept landed,
      Dict.nodup_keys_update (current.apart.sublist (filter_sublist.map _)) landed⟩)

/-! ## The tracker -/

/-- `RootsTracker`, its memory. -/
structure Tracker where
  fingerprint : Option (Nat × Nat)
  lastVolatile : Finset String
  live : Finset String
  epoch : Nat

def Tracker.new : Tracker := ⟨none, ∅, ∅, 0⟩

/-- The calls of `refresh`, each of which can raise. -/
inductive Call where
  | walkStable
  | refreshRoots
  | walkVolatile
  | dbFingerprint
  | queryLiveSet
  | writeSnapshot
  deriving DecidableEq

def writeSnapshot (db : Db) (live : Finset String) (epoch : Nat) : Db :=
  { db with snapshot := live.image fun path => (path, epoch) }

/-- Whether the remembered answer stands. -/
def Tracker.stands (t : Tracker) (dirty : Bool) (volatile : Finset String)
    (fingerprint : Nat × Nat) : Prop :=
  dirty = false ∧ volatile = t.lastVolatile ∧ some fingerprint = t.fingerprint ∧ t.live ≠ ∅

instance (t : Tracker) (dirty : Bool) (volatile : Finset String) (fingerprint : Nat × Nat) :
    Decidable (t.stands dirty volatile fingerprint) := inferInstanceAs (Decidable (_ ∧ _))

/-- `refresh`, with what the two walks find, the time, and the call that raises if one does. -/
def refresh (stable : Links) (volatile : Finset String) (now : Nat) (raises : Option Call)
    (db : Db) (t : Tracker) : Except Call (Finset String) × Db × Tracker :=
  if raises = some .walkStable then (.error .walkStable, db, t)
  else if raises = some .refreshRoots then (.error .refreshRoots, db, t)
  else
    let (dirty, roots) := refreshRoots db.roots stable
    -- the table is committed, and nothing below takes it back
    let db := { db with roots := roots }
    if raises = some .walkVolatile then (.error .walkVolatile, db, t)
    else if raises = some .dbFingerprint then (.error .dbFingerprint, db, t)
    else
      let fingerprint := db.validPaths.fingerprint
      if t.stands dirty volatile fingerprint then (.ok t.live, db, t)
      else if raises = some .queryLiveSet then (.error .queryLiveSet, db, t)
      else
        let live := queryLiveSet db volatile
        let t := { t with live := live, epoch := now }
        if raises = some .writeSnapshot then (.error .writeSnapshot, db, t)
        else
          (.ok live, writeSnapshot db live now,
            { t with lastVolatile := volatile, fingerprint := some fingerprint })

/-! ## Runs -/

/-- The links and the living roots on disk, the database, and the trackers over them. -/
structure World where
  stable : Links
  volatile : Finset String
  db : Db
  trackers : List Tracker

inductive Event where
  /-- A link is made or led elsewhere. -/
  | link (name target kind : String)
  | unlink (name : String)
  /-- The processes and the temporary roots change. -/
  | living (volatile : Finset String)
  /-- A path becomes valid, with the references it keeps. -/
  | register (path : String) (deriver : Option String) (refs : List Nat)
  | delete (path : String)
  /-- `RootsTracker(...)`. -/
  | tracker
  /-- The owner lets a tracker go, as `_mirror_live` does with the one of each plan. -/
  | drop (tracker : Nat)
  | refresh (tracker now : Nat) (raises : Option Call)

/-- A refresh of a tracker: what it gives, and what it leaves. -/
def World.refresh (w : World) (i now : Nat) (raises : Option Call) :
    Option (Except Call (Finset String) × World) :=
  (w.trackers[i]?).map fun t =>
    let (result, db, t) := LiveSet.refresh w.stable w.volatile now raises w.db t
    (result, { w with db := db, trackers := w.trackers.set i t })

def Db.register (db : Db) (v : ValidPath) : Db :=
  -- a path that is valid keeps its row
  if db.validPaths.rows.any (·.2.path = v.path) then db
  else { db with validPaths := db.validPaths.insert v }

def Db.delete (db : Db) (path : String) : Db :=
  { db with validPaths := db.validPaths.keep (·.2.path ≠ path) }

def step (w : World) : Event → Option World
  | .link name target kind =>
    some { w with stable :=
      ⟨Dict.set w.stable.items name (target, kind), Dict.nodup_keys_set w.stable.apart ..⟩ }
  | .unlink name =>
    some { w with stable := ⟨Dict.pop w.stable.items name, Dict.nodup_keys_pop w.stable.apart _⟩ }
  | .living volatile => some { w with volatile := volatile }
  | .register path deriver refs => some { w with db := w.db.register ⟨path, deriver, refs⟩ }
  | .delete path => some { w with db := w.db.delete path }
  | .tracker => some { w with trackers := w.trackers ++ [.new] }
  | .drop i =>
    if i < w.trackers.length then some { w with trackers := w.trackers.eraseIdx i } else none
  | .refresh i now raises => (w.refresh i now raises).map (·.2)

/-! ## The query is reachability -/

variable {db : Db} {result : Except Call (Finset String)} {i now : Nat} {raises : Option Call}
  {rows : Rows} {t : Tracker} {w : World}

theorem mem_numbers_of_arm {a b : Nat} (h : b ∈ arms rows a) : b ∈ numbers rows := by
  have href : ∀ c d, d ∈ references rows c → d ∈ numbers rows := by
    intro c d hd
    obtain ⟨row, hrow, hd⟩ := mem_flatMap.1 hd
    exact mem_append_right _ (mem_flatMap.2 ⟨row, (mem_filter.1 hrow).1, hd⟩)
  simp only [arms, mem_append] at h
  rcases h with (href' | hderiver) | hinput
  · exact href a b href'
  · obtain ⟨current, -, hb⟩ := mem_flatMap.1 hderiver
    obtain ⟨row, hrow, rfl⟩ := mem_map.1 hb
    exact mem_append_left _ (mem_map_of_mem (mem_filter.1 hrow).1)
  · obtain ⟨c, -, hb⟩ := mem_flatMap.1 hinput
    exact href c b hb

/-- **A path is live when its row can be reached from a row that a root names**, over the
references, the derivers and the references of the derivers. -/
theorem mem_liveSet {roots : Finset String} {path : String} :
    path ∈ liveSet rows roots ↔
      ∃ row ∈ rows, row.2.path = path ∧ Reach.From (arms rows) (seeds rows roots) row.1 := by
  have hseeds : ∀ a ∈ seeds rows roots, a ∈ numbers rows := by
    intro a ha
    obtain ⟨row, hrow, rfl⟩ := mem_map.1 ha
    exact mem_append_left _ (mem_map_of_mem (mem_filter.1 hrow).1)
  have hclosure : ∀ b, b ∈ Reach.saturate (arms rows) (numbers rows).length (seeds rows roots) ↔
      Reach.From (arms rows) (seeds rows roots) b := fun b =>
    Reach.mem_saturate_iff (fun _ _ _ => mem_numbers_of_arm) hseeds
  simp only [liveSet, mem_toFinset, mem_map, mem_filter, decide_eq_true_eq, hclosure]
  constructor
  · rintro ⟨row, ⟨hrow, hreach⟩, hpath⟩
    exact ⟨row, hrow, hpath, hreach⟩
  · rintro ⟨row, hrow, hpath, hreach⟩
    exact ⟨row, ⟨hrow, hreach⟩, hpath⟩

theorem liveSet_perm {rows rows' : Rows} (h : rows.Perm rows') (roots : Finset String) :
    liveSet rows roots = liveSet rows' roots := by
  have href : ∀ a b, b ∈ references rows a ↔ b ∈ references rows' a := by
    intro a b
    simp only [references, mem_flatMap, mem_filter, h.mem_iff]
  have hderiver : ∀ a b, b ∈ derivers rows a ↔ b ∈ derivers rows' a := by
    intro a b
    simp only [derivers, mem_flatMap, mem_map, mem_filter, h.mem_iff]
  have harms : ∀ a b, b ∈ arms rows a ↔ b ∈ arms rows' a := by
    intro a b
    simp only [arms, mem_append, mem_flatMap, href, hderiver]
  have hseeds : ∀ a, a ∈ seeds rows roots ↔ a ∈ seeds rows' roots := by
    intro a
    simp only [seeds, mem_map, mem_filter, h.mem_iff]
  ext path
  simp only [mem_liveSet, h.mem_iff, Reach.from_congr harms hseeds]

theorem liveSet_eq_empty {roots : Finset String}
    (h : ∀ row ∈ rows, row.2.path ∉ roots) : liveSet rows roots = ∅ := by
  have hseeds : seeds rows roots = [] := by
    simpa [seeds] using fun id v hrow => h (id, v) hrow
  rw [Finset.eq_empty_iff_forall_notMem]
  intro path hpath
  obtain ⟨row, -, -, a, ha, -⟩ := mem_liveSet.1 hpath
  rw [hseeds] at ha
  cases ha

/-! ## The reconcile -/

theorem get?_landed (current stable : Links) (name : String) (v : String × String) :
    Dict.get? ((stable.items.insertionSort (·.1 ≤ ·.1)).filter fun item =>
      Dict.get? current.items item.1 ≠ some item.2) name = some v ↔
      Dict.get? stable.items name = some v ∧ Dict.get? current.items name ≠ some v := by
  have hperm := perm_insertionSort (fun a b : String × (String × String) => a.1 ≤ b.1)
    stable.items
  have hapart := (hperm.map Prod.fst).nodup_iff.2 stable.apart
  rw [Dict.get?_eq_some_iff_mem (hapart.sublist (filter_sublist.map _)),
    Dict.get?_eq_some_iff_mem stable.apart, mem_filter, hperm.mem_iff, decide_eq_true_eq]

theorem get?_refreshRoots (current stable : Links) (name : String) :
    Dict.get? (refreshRoots current stable).2.items name = Dict.get? stable.items name := by
  unfold refreshRoots
  split_ifs with hsame
  · exact Dict.get?_eq_of_same hsame name
  · have hlanded := get?_landed current stable name
    have hapart : (((stable.items.insertionSort (·.1 ≤ ·.1)).filter fun item =>
        Dict.get? current.items item.1 ≠ some item.2).map Prod.fst).Nodup :=
      (((perm_insertionSort _ _).map Prod.fst).nodup_iff.2 stable.apart).sublist
        (filter_sublist.map _)
    simp only [Dict.get?_update _ hapart,
      Dict.get?_filter current.items (fun name => (Dict.get? stable.items name).isSome)]
    cases hstable : Dict.get? stable.items name with
    | none =>
      rw [hstable] at hlanded
      have hnone := Option.eq_none_iff_forall_ne_some.2 fun v hv => by
        have := (hlanded v).1 hv
        simp at this
      rw [hnone]
      rfl
    | some v =>
      by_cases hkept : Dict.get? current.items name = some v
      · have hnone := Option.eq_none_iff_forall_ne_some.2 fun v' hv' => by
          have hboth := (hlanded v').1 hv'
          rw [hstable] at hboth
          exact hboth.2 (hkept.trans hboth.1)
        rw [hnone, hkept]
        rfl
      · rw [(hlanded v).2 ⟨hstable, hkept⟩]
        rfl

theorem mem_targets {links : Links} {target : String} :
    target ∈ links.targets ↔ ∃ name kind, Dict.get? links.items name = some (target, kind) := by
  simp only [Links.targets, mem_toFinset, mem_map, Dict.get?_eq_some_iff_mem links.apart]
  constructor
  · rintro ⟨⟨name, target, kind⟩, hin, rfl⟩
    exact ⟨name, kind, hin⟩
  · rintro ⟨name, kind, hin⟩
    exact ⟨(name, target, kind), hin, rfl⟩

theorem targets_refreshRoots (current stable : Links) :
    (refreshRoots current stable).2.targets = stable.targets := by
  ext target
  simp only [mem_targets, get?_refreshRoots]

theorem targets_eq_of_clean {current stable : Links} (h : (refreshRoots current stable).1 = false) :
    current.targets = stable.targets := by
  have hsame : (refreshRoots current stable).2 = current := by
    unfold refreshRoots at h ⊢
    split_ifs at h ⊢ with hsame
    rfl
  rw [← targets_refreshRoots current stable, hsame]

/-! ## What a refresh can do -/

def Db.reconciled (db : Db) (stable : Links) : Db :=
  { db with roots := (refreshRoots db.roots stable).2 }

@[simp] theorem targets_reconciled (db : Db) (stable : Links) :
    (db.reconciled stable).roots.targets = stable.targets := targets_refreshRoots db.roots stable

/-- The calls behind the reconcile that leave the tracker as it was when they raise. -/
def Call.spends : Call → Bool
  | .walkVolatile | .dbFingerprint | .queryLiveSet => true
  | .walkStable | .refreshRoots | .writeSnapshot => false

theorem Call.not_early_of_spends {call : Call} (h : call.spends = true) :
    some call ≠ some .walkStable ∧ some call ≠ some .refreshRoots := by
  cases call <;> simp_all [Call.spends]

/-- The ways out of `refresh`. -/
inductive Outcome (stable : Links) (volatile : Finset String) (now : Nat) (raises : Option Call)
    (db : Db) (t : Tracker) : Except Call (Finset String) × Db × Tracker → Prop where
  /-- Nothing has happened yet. -/
  | early (call : Call) (hraises : raises = some call)
      (h : call = .walkStable ∨ call = .refreshRoots) :
      Outcome stable volatile now raises db t (.error call, db, t)
  /-- The reconcile is done, and the tracker does not know. -/
  | abort (call : Call) (hraises : raises = some call) (h : call.spends = true) :
      Outcome stable volatile now raises db t (.error call, db.reconciled stable, t)
  /-- The answer of last time. -/
  | again (hclean : (refreshRoots db.roots stable).1 = false)
      (hvolatile : volatile = t.lastVolatile)
      (hfingerprint : some db.validPaths.fingerprint = t.fingerprint) (hlive : t.live ≠ ∅) :
      Outcome stable volatile now raises db t (.ok t.live, db.reconciled stable, t)
  /-- A new answer, under the signals of the old one. -/
  | unsaved (hraises : raises = some .writeSnapshot) :
      Outcome stable volatile now raises db t (.error .writeSnapshot, db.reconciled stable,
        { t with live := queryLiveSet (db.reconciled stable) volatile, epoch := now })
  | answer (hwalk : raises ≠ some .walkStable) (hroots : raises ≠ some .refreshRoots) :
      Outcome stable volatile now raises db t (.ok (queryLiveSet (db.reconciled stable) volatile),
        writeSnapshot (db.reconciled stable) (queryLiveSet (db.reconciled stable) volatile) now,
        ⟨some db.validPaths.fingerprint, volatile, queryLiveSet (db.reconciled stable) volatile,
          now⟩)

theorem refresh_outcome (stable : Links) (volatile : Finset String) (now : Nat)
    (raises : Option Call) (db : Db) (t : Tracker) :
    Outcome stable volatile now raises db t (refresh stable volatile now raises db t) := by
  simp only [refresh]
  split_ifs with hwalk hroots hvolatile hfingerprint hstands hquery hsnapshot
  · exact .early _ hwalk (.inl rfl)
  · exact .early _ hroots (.inr rfl)
  · exact .abort _ hvolatile rfl
  · exact .abort _ hfingerprint rfl
  · exact .again hstands.1 hstands.2.1 hstands.2.2.1 hstands.2.2.2
  · exact .abort _ hquery rfl
  · exact .unsaved hsnapshot
  · exact .answer hwalk hroots

/-! ## What a tracker remembers -/

def Tracker.Remembers (t : Tracker) : Prop := t.fingerprint ≠ none ∧ t.live ≠ ∅

instance (t : Tracker) : Decidable t.Remembers := inferInstanceAs (Decidable (_ ∧ _))

/-- **What the memory means**: the answer is the live set of the roots table as it is now, and
of the valid paths as they were when the fingerprint was taken. -/
def Fresh (db : Db) (t : Tracker) : Prop :=
  ∀ fingerprint, t.fingerprint = some fingerprint → t.live ≠ ∅ →
    ∃ past : Table ValidPath, past.fingerprint = fingerprint ∧ past.Since db.validPaths ∧
      t.live = liveSet past.rows (db.roots.targets ∪ t.lastVolatile)

theorem fresh_of_not_remembers (h : ¬t.Remembers) : Fresh db t := by
  intro fingerprint hfingerprint hlive
  exact absurd ⟨by rw [hfingerprint]; exact Option.some_ne_none _, hlive⟩ h

theorem Fresh.congr {db db' : Db} (h : Fresh db t) (hroots : db'.roots.targets = db.roots.targets)
    (hpaths : ∀ past : Table ValidPath, past.Since db.validPaths → past.Since db'.validPaths) :
    Fresh db' t := by
  intro fingerprint hfingerprint hlive
  obtain ⟨past, hpast, hsince, heq⟩ := h fingerprint hfingerprint hlive
  rw [← hroots] at heq
  exact ⟨past, hpast, hpaths past hsince, heq⟩

theorem Fresh.reconciled {stable : Links} (h : Fresh db t)
    (hmoves : db.roots.targets ≠ stable.targets → ¬t.Remembers) :
    Fresh (db.reconciled stable) t := by
  by_cases hsame : db.roots.targets = stable.targets
  · exact h.congr (by rw [targets_reconciled, hsame]) fun _ => id
  · exact fresh_of_not_remembers (hmoves hsame)

theorem fresh_answer (db : Db) (volatile : Finset String) (epoch : Nat) :
    Fresh db ⟨some db.validPaths.fingerprint, volatile, queryLiveSet db volatile, epoch⟩ := by
  intro fingerprint hfingerprint _
  exact ⟨db.validPaths, Option.some.inj hfingerprint, .refl _, rfl⟩

/-- **While the signals stand still, the answer is the live set.** -/
theorem Fresh.live_eq (h : Fresh db t) (hlive : t.live ≠ ∅)
    (hfingerprint : some db.validPaths.fingerprint = t.fingerprint) :
    t.live = queryLiveSet db t.lastVolatile := by
  obtain ⟨past, hpast, hsince, heq⟩ := h _ hfingerprint.symm hlive
  rw [heq, queryLiveSet, liveSet_perm (Table.perm_of_fingerprint_eq hsince hpast.symm)]

/-! ## Runs -/

/-- The next reconcile changes what the roots table leads to. -/
def World.Moves (w : World) : Prop := w.db.roots.targets ≠ w.stable.targets

instance (w : World) : Decidable w.Moves := inferInstanceAs (Decidable (_ ≠ _))

/-- Nobody remembers an answer that the reconcile of the refresh takes the truth from. -/
def MovesAlone (w : World) (i : Nat) (raises : Option Call) (t : Tracker) : Prop :=
  (∀ other ∈ w.trackers.eraseIdx i, ¬other.Remembers) ∧
    (raises.any Call.spends = true → ¬t.Remembers)

/-- The answer that `write_snapshot` fails to file has the signals of last time, or it is a
first answer, or an empty one: no root names a valid path. -/
def HarmlessUnsaved (w : World) (t : Tracker) : Prop :=
  t.fingerprint = none ∨
    (t.lastVolatile = w.volatile ∧ t.fingerprint = some w.db.validPaths.fingerprint) ∨
    ∀ row ∈ w.db.validPaths.rows, row.2.path ∉ w.stable.targets ∪ w.volatile

def SafeRefresh (w : World) (i : Nat) (raises : Option Call) (t : Tracker) : Prop :=
  (w.Moves → raises ≠ some .walkStable → raises ≠ some .refreshRoots → MovesAlone w i raises t) ∧
    (raises = some .writeSnapshot → HarmlessUnsaved w t)

def Safe (w : World) : Event → Prop
  | .refresh i _ raises => ∀ t ∈ w.trackers[i]?, SafeRefresh w i raises t
  | _ => True

instance (w : World) (i : Nat) (raises : Option Call) (t : Tracker) :
    Decidable (MovesAlone w i raises t) := inferInstanceAs (Decidable (_ ∧ _))

instance (w : World) (t : Tracker) : Decidable (HarmlessUnsaved w t) :=
  inferInstanceAs (Decidable (_ ∨ _))

instance (w : World) (i : Nat) (raises : Option Call) (t : Tracker) :
    Decidable (SafeRefresh w i raises t) := inferInstanceAs (Decidable (_ ∧ _))

instance (w : World) : ∀ e, Decidable (Safe w e)
  | .refresh i _ raises =>
    inferInstanceAs (Decidable (∀ t ∈ w.trackers[i]?, SafeRefresh w i raises t))
  | .link .. | .unlink _ | .living _ | .register .. | .delete _ | .tracker | .drop _ =>
    isTrue trivial

/-- Every tracker's memory means what it says. -/
def Inv (w : World) : Prop := ∀ t ∈ w.trackers, Fresh w.db t

theorem Inv.withDb (h : Inv w) (hroots : db.roots.targets = w.db.roots.targets)
    (hpaths : ∀ past : Table ValidPath, past.Since w.db.validPaths → past.Since db.validPaths) :
    Inv { w with db := db } := fun t ht => (h t ht).congr hroots hpaths

theorem since_register {past : Table ValidPath} (v : ValidPath)
    (h : past.Since db.validPaths) : past.Since (db.register v).validPaths := by
  unfold Db.register
  split_ifs
  · exact h
  · exact h.insert v

/-- **The other trackers**: a refresh that moves the roots finds none that remembers. -/
theorem SafeRefresh.others {t t' : Tracker} (hsafe : SafeRefresh w i raises t)
    (hout : Outcome w.stable w.volatile now raises w.db t (result, db, t')) {other : Tracker}
    (hother : other ∈ w.trackers.eraseIdx i) (hfresh : Fresh w.db other) : Fresh db other := by
  have hkeep : raises ≠ some .walkStable → raises ≠ some .refreshRoots →
      Fresh (w.db.reconciled w.stable) other := by
    intro hwalk hroots
    exact hfresh.reconciled fun hmoves => (hsafe.1 hmoves hwalk hroots).1 other hother
  cases hout with
  | early => exact hfresh
  | abort call hraises h =>
    obtain ⟨hwalk, hroots⟩ := Call.not_early_of_spends h
    rw [← hraises] at hwalk hroots
    exact hkeep hwalk hroots
  | again hclean =>
    exact hfresh.reconciled fun hmoves => absurd (targets_eq_of_clean hclean) hmoves
  | unsaved hraises => exact hkeep (by simp [hraises]) (by simp [hraises])
  | answer hwalk hroots => exact hkeep hwalk hroots

theorem SafeRefresh.own {t t' : Tracker} (hsafe : SafeRefresh w i raises t)
    (hout : Outcome w.stable w.volatile now raises w.db t (result, db, t'))
    (hfresh : Fresh w.db t) : Fresh db t' := by
  cases hout with
  | early => exact hfresh
  | abort call hraises h =>
    obtain ⟨hwalk, hroots⟩ := Call.not_early_of_spends h
    rw [← hraises] at hwalk hroots
    refine hfresh.reconciled fun hmoves => (hsafe.1 hmoves hwalk hroots).2 ?_
    rw [hraises]
    exact h
  | again hclean =>
    exact hfresh.reconciled fun hmoves => absurd (targets_eq_of_clean hclean) hmoves
  | unsaved hraises =>
    rcases hsafe.2 hraises with hfirst | ⟨hvolatile, hfingerprint⟩ | hnone
    · exact fresh_of_not_remembers fun hremembers => hremembers.1 hfirst
    · have hanswer := fresh_answer (w.db.reconciled w.stable) w.volatile now
      rw [← hvolatile] at hanswer ⊢
      rw [hfingerprint]
      exact hanswer
    · refine fresh_of_not_remembers fun hremembers => hremembers.2 ?_
      rw [queryLiveSet, targets_reconciled]
      exact liveSet_eq_empty hnone
  | answer hwalk hroots => exact fresh_answer (w.db.reconciled w.stable) w.volatile now

theorem World.refresh_eq_some {w w' : World} (h : w.refresh i now raises = some (result, w')) :
    ∃ t t', w.trackers[i]? = some t ∧
      Outcome w.stable w.volatile now raises w.db t (result, w'.db, t') ∧
      w' = { w with db := w'.db, trackers := w.trackers.set i t' } := by
  obtain ⟨t, ht, hw⟩ := Option.map_eq_some_iff.1 h
  have hout := refresh_outcome w.stable w.volatile now raises w.db t
  obtain ⟨rfl, rfl⟩ := hw
  exact ⟨t, _, ht, hout, rfl⟩

theorem inv_step {w w' : World} {e : Event} (h : Inv w) (hsafe : Safe w e)
    (hstep : step w e = some w') : Inv w' := by
  cases e with
  | link name target kind | unlink name | living volatile =>
    cases hstep
    exact h
  | register path deriver refs =>
    cases hstep
    refine h.withDb ?_ fun past => since_register _
    unfold Db.register
    split_ifs <;> rfl
  | delete path =>
    cases hstep
    exact h.withDb rfl fun past hsince => hsince.keep _
  | tracker =>
    cases hstep
    intro t ht
    rcases mem_append.1 ht with ht | ht
    · exact h t ht
    · rw [mem_singleton.1 ht]
      exact fresh_of_not_remembers fun hremembers => hremembers.1 rfl
  | drop i =>
    obtain ⟨-, hdrop⟩ := Option.ite_none_right_eq_some.1 hstep
    cases hdrop
    exact fun t ht => h t (mem_of_mem_eraseIdx ht)
  | refresh i now raises =>
    obtain ⟨⟨result, w''⟩, hrefresh, rfl⟩ := Option.map_eq_some_iff.1 hstep
    obtain ⟨t, t', ht, hout, hw⟩ := World.refresh_eq_some hrefresh
    have hsafe' : SafeRefresh w i raises t := hsafe t ht
    rw [hw]
    intro s hs
    obtain ⟨j, hj⟩ := mem_iff_getElem?.1 hs
    simp only [getElem?_set] at hj
    split_ifs at hj with hij hlt
    · obtain rfl := Option.some.inj hj
      exact hsafe'.own hout (h t (mem_of_getElem? ht))
    · refine hsafe'.others hout ?_ (h s (mem_of_getElem? hj))
      exact mem_eraseIdx_iff_getElem?.2 ⟨j, Ne.symm hij, hj⟩

def World.start (stable : Links) (volatile : Finset String) (db : Db) : World :=
  ⟨stable, volatile, db, []⟩

theorem inv_start (stable : Links) (volatile : Finset String) (db : Db) :
    Inv (.start stable volatile db) := by
  intro t ht
  cases ht

/-- **Every refresh that returns gives the live set** of the roots on disk, the living roots and
the valid paths at that moment, after every run whose refreshes are safe. -/
theorem refresh_exact_of_run {stable : Links} {volatile : Finset String} {db : Db}
    {es : List Event} {w w' : World} (hsafe : Guarded step Safe (.start stable volatile db) es)
    (hrun : run step (.start stable volatile db) es = some w) {i now : Nat}
    {raises : Option Call} {live : Finset String}
    (hrefresh : w.refresh i now raises = some (.ok live, w')) :
    live = queryLiveSet w'.db w'.volatile ∧ w'.db.roots.targets = w'.stable.targets := by
  have hinv : Inv w :=
    inv_of_guarded (fun _ _ _ => inv_step) (inv_start stable volatile db) hsafe hrun
  obtain ⟨t, t', ht, hout, hw⟩ := World.refresh_eq_some hrefresh
  have hstable : w'.stable = w.stable := by rw [hw]
  have hvolatile : w'.volatile = w.volatile := by rw [hw]
  rw [hstable, hvolatile]
  generalize w'.db = db' at hout ⊢
  cases hout with
  | again hclean hsame hfingerprint hlive =>
    refine ⟨?_, targets_reconciled w.db w.stable⟩
    rw [(hinv t (mem_of_getElem? ht)).live_eq hlive hfingerprint, ← hsame, queryLiveSet,
      queryLiveSet, targets_reconciled, targets_eq_of_clean hclean]
    rfl
  | answer => exact ⟨rfl, targets_reconciled w.db w.stable⟩

def twoPaths : Db where
  roots := ⟨[], nodup_nil⟩
  validPaths :=
    { rows := [(1, ⟨"/nix/store/a", none, []⟩), (2, ⟨"/nix/store/b", none, []⟩)]
      next := 3
      nodup := by decide
      below := by decide
      pos := by decide }
  snapshot := ∅

/-- A plan of the collector, then the watch, which sees the next path and its root. -/
def planThenWatch : List Event :=
  [.tracker, .link "g" "/nix/store/a" "gcroot", .refresh 0 10 none, .drop 0, .tracker,
    .refresh 0 11 none, .link "h" "/nix/store/b" "gcroot", .refresh 0 12 none,
    .register "/nix/store/c" none [2], .link "i" "/nix/store/c" "profile"]

/-- **A new root and a new path are seen by the tracker that finds them**, though another one
has answered before it. -/
theorem refresh_exact_newRoot :
    ∃ w w', run step (.start ⟨[], nodup_nil⟩ ∅ twoPaths) planThenWatch = some w ∧
      w.refresh 0 13 none =
        some (.ok {"/nix/store/a", "/nix/store/b", "/nix/store/c"}, w') ∧
      {"/nix/store/a", "/nix/store/b", "/nix/store/c"} = queryLiveSet w'.db w'.volatile := by
  have hread : (run step (.start ⟨[], nodup_nil⟩ ∅ twoPaths) planThenWatch).bind
      (fun w => (w.refresh 0 13 none).map fun out => out.1.toOption) =
      some (some {"/nix/store/a", "/nix/store/b", "/nix/store/c"}) := by decide +kernel
  obtain ⟨w, hrun, hout⟩ := Option.bind_eq_some_iff.1 hread
  obtain ⟨⟨result, w'⟩, hrefresh, hresult⟩ := Option.map_eq_some_iff.1 hout
  have hok : result = .ok {"/nix/store/a", "/nix/store/b", "/nix/store/c"} := by
    cases result with
    | error call => cases hresult
    | ok live => exact congrArg _ (Option.some.inj hresult)
  subst hok
  exact ⟨w, w', hrun, hrefresh, (refresh_exact_of_run (by decide +kernel) hrun hrefresh).1⟩

/-- **A live path that a refresh does not give**: the watch has answered, a root is added, the
collector's own tracker reconciles the table and is gone, and the watch answers as before. -/
theorem refresh_misses_root :
    ∃ w w', run step (.start ⟨[], nodup_nil⟩ ∅ twoPaths)
        [.tracker, .link "g" "/nix/store/a" "gcroot", .refresh 0 10 none,
          .link "h" "/nix/store/b" "gcroot", .tracker, .refresh 1 11 none, .drop 1] = some w ∧
      w.refresh 0 12 none = some (.ok {"/nix/store/a"}, w') ∧
      queryLiveSet w'.db w'.volatile = {"/nix/store/a", "/nix/store/b"} := by
  have hread : (run step (.start ⟨[], nodup_nil⟩ ∅ twoPaths)
      [.tracker, .link "g" "/nix/store/a" "gcroot", .refresh 0 10 none,
        .link "h" "/nix/store/b" "gcroot", .tracker, .refresh 1 11 none, .drop 1]).bind
      (fun w => (w.refresh 0 12 none).map fun out =>
        (out.1.toOption, queryLiveSet out.2.db out.2.volatile)) =
      some (some {"/nix/store/a"}, {"/nix/store/a", "/nix/store/b"}) := by decide +kernel
  obtain ⟨w, hrun, hout⟩ := Option.bind_eq_some_iff.1 hread
  obtain ⟨⟨result, w'⟩, hrefresh, hresult⟩ := Option.map_eq_some_iff.1 hout
  simp only [Prod.mk.injEq] at hresult
  refine ⟨w, w', hrun, ?_, hresult.2⟩
  cases result with
  | error call => cases hresult.1
  | ok live => rw [hrefresh, Option.some.inj hresult.1]

end Pynixd.LiveSet
