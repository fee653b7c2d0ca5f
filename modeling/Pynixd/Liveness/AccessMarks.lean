import Pynixd.Liveness.Tracker
import Pynixd.Protocol.DerivedPath

/-!
# The marks of access

`mark_paths` and `flush_references` of `pynixd/local_store_db.py`: a path that somebody named is
queued, and a flush writes the time of the closure of what is queued to the access table.  A
flush takes a snapshot of the queues, works on the database, and takes the snapshot off the
queues at its end; it stops at every call of the database, and at the sleep before it tries again.

* `mem_expandClosure` — a closure query answers with **the seeds that are valid**, among others;
* `kept_of_apart` — **no mark is lost** in every run in which nobody marks a path again **behind the
  touch** of a flush that took the path off the same queue.
-/

namespace Pynixd.AccessMarks

open List Runs LiveSet

/-- `unixepoch()`, of a clock in milliseconds. -/
def unixepoch (clock : Nat) : Nat := clock / 1000

theorem unixepoch_mono {a b : Nat} (h : a ≤ b) : unixepoch a ≤ unixepoch b :=
  Nat.div_le_div_right h

inductive MarkKind where
  | runtime
  | build
  deriving DecidableEq

/-! ## The closure queries -/

/-- `path LIKE '%.drv'`, which takes the letters of either case. -/
def likeDrv (path : String) : Bool := ".drv".toList.isSuffixOf (path.toList.map Char.toLower)

/-- The recursive arm of the closure query of a kind: the runtime closure does not go through a
derivation. -/
def arm : MarkKind → Rows → Nat → List Nat
  | .runtime, rows, id =>
    (rows.filter fun row => row.1 = id && !likeDrv row.2.path).flatMap (·.2.refs)
  | .build, rows, id => references rows id

/-- `_expand_closure`, for the query of a kind. -/
def expandClosure (kind : MarkKind) (rows : Rows) (paths : Finset String) : Finset String :=
  let closure := Reach.saturate (arm kind rows) (numbers rows).length (seeds rows paths)
  ((rows.filter (·.1 ∈ closure)).map (·.2.path)).toFinset

theorem mem_expandClosure {kind : MarkKind} {rows : Rows} {paths : Finset String} {path : String}
    (hpath : path ∈ paths) (hvalid : path ∈ rows.map (·.2.path)) :
    path ∈ expandClosure kind rows paths := by
  obtain ⟨row, hrow, rfl⟩ := mem_map.1 hvalid
  have hseed : row.1 ∈ seeds rows paths :=
    mem_map_of_mem (mem_filter.2 ⟨hrow, by simpa using hpath⟩)
  have hclosure :
      row.1 ∈ Reach.saturate (arm kind rows) (numbers rows).length (seeds rows paths) :=
    Reach.subset_saturate _ hseed
  rw [expandClosure, mem_toFinset]
  exact mem_map_of_mem (mem_filter.2 ⟨hrow, by simpa using hclosure⟩)

/-! ## The database and the flushes -/

inductive Phase where
  | acquiring
  /-- It waits for the runtime closure. -/
  | walkingRuntime
  /-- It waits for the build closure. -/
  | walkingBuild (touched : Finset String)
  /-- It waits for the next chunk of what is left, or gives the connection back. -/
  | writing (left : List String)
  /-- It wrote rows at a second, and waits for the commit. -/
  | committing (rows : List String) (second : Nat) (left : List String)
  | sleeping
  | ended
  deriving DecidableEq

def Phase.isCommitting : Phase → Bool
  | committing .. => true
  | _ => false

/-- A call of `flush_references`, past its snapshot. -/
structure Flush where
  runtimeSeeds : Finset String
  buildSeeds : Finset String
  attempt : Nat
  phase : Phase
  deriving DecidableEq

namespace Flush

def seeds (f : Flush) : MarkKind → Finset String
  | .runtime => f.runtimeSeeds
  | .build => f.buildSeeds

/-- The build closure, when there are build seeds, and then the chunks. -/
def toBuild (f : Flush) (touched : Finset String) : Flush :=
  { f with
    phase := if f.buildSeeds = ∅ then .writing (sortedSet touched) else .walkingBuild touched }

def acquired (f : Flush) (usable : Bool) : Flush :=
  if usable then
    if f.runtimeSeeds = ∅ then f.toBuild ∅ else { f with phase := .walkingRuntime }
  else { f with phase := .writing [] }

/-- The answer to the closure query. -/
def walked (f : Flush) (rows : Rows) : Flush :=
  match f.phase with
  | .walkingRuntime => f.toBuild (expandClosure .runtime rows f.runtimeSeeds)
  | .walkingBuild touched =>
    { f with phase := .writing (sortedSet (touched ∪ expandClosure .build rows f.buildSeeds)) }
  | _ => f

/-- `aiosqlite.Error`: three attempts, with a sleep in between. -/
def failed (f : Flush) : Flush :=
  match f.phase with
  | .sleeping | .ended => f
  | _ => { f with phase := if 2 ≤ f.attempt then .ended else .sleeping }

end Flush

/-- What the marks and the flushes read and write of `LocalStoreDB`, and of its database. -/
structure LocalStoreDb where
  active : Bool
  readOnly : Bool
  usable : Bool
  clock : Nat
  validPaths : Rows
  /-- The access table: `lastReferencedAt` by path. -/
  pathAccess : List (String × Nat)
  pendingReferences : Finset String
  pendingBuildReferences : Finset String
  flushes : List Flush
  /-- For the books: the paths that are valid since their latest mark, with its time. -/
  marked : List (String × Nat)

namespace LocalStoreDb

/-- A database as `open` leaves it, with a schema that is usable and can be written. -/
def opened (rows : Rows) (pathAccess : List (String × Nat)) (clock : Nat) : LocalStoreDb where
  active := true
  readOnly := false
  usable := true
  clock := clock
  validPaths := rows
  pathAccess := pathAccess
  pendingReferences := ∅
  pendingBuildReferences := ∅
  flushes := []
  marked := []

variable (db : LocalStoreDb)

def valid (path : String) : Bool := path ∈ db.validPaths.map (·.2.path)

def pending : MarkKind → Finset String
  | .runtime => db.pendingReferences
  | .build => db.pendingBuildReferences

def markPaths (paths : List String) : MarkKind → LocalStoreDb
  | .build =>
    if db.active && !db.readOnly then
      { db with pendingBuildReferences := db.pendingBuildReferences ∪ paths.toFinset }
    else db
  | .runtime =>
    if db.active && !db.readOnly then
      { db with pendingReferences := db.pendingReferences ∪ paths.toFinset }
    else db

/-- `flush_references`, up to its first await. -/
def flushReferences : LocalStoreDb :=
  if !db.active || db.readOnly then db
  else if db.pendingReferences = ∅ ∧ db.pendingBuildReferences = ∅ then db
  else
    { db with
      flushes := db.flushes ++ [
        { runtimeSeeds := db.pendingReferences
          buildSeeds := db.pendingBuildReferences
          attempt := 0
          phase := .acquiring }] }

def locked : Bool := db.flushes.any fun f => f.phase.isCommitting

def setFlush (i : Nat) (f : Flush) : LocalStoreDb := { db with flushes := db.flushes.set i f }

/-- `TOUCH_PATH_ACCESS` for the next chunk: one row for each of its paths that is valid. -/
def execute (i : Nat) (f : Flush) : LocalStoreDb :=
  match f.phase with
  | .writing (path :: left) =>
    let chunk := (path :: left).take 1000
    db.setFlush i { f with
      phase := .committing (chunk.filter db.valid) (unixepoch db.clock)
        ((path :: left).drop 1000) }
  | _ => db

def commit (i : Nat) (f : Flush) : LocalStoreDb :=
  match f.phase with
  | .committing rows second left =>
    { db with pathAccess := Dict.update db.pathAccess (rows.map (·, second)) }.setFlush i
      { f with phase := .writing left }
  | _ => db

/-- The end of a flush: only flushed work leaves the queues. -/
def finish (i : Nat) (f : Flush) : LocalStoreDb :=
  match f.phase with
  | .writing [] =>
    { db with
      pendingReferences := db.pendingReferences \ f.runtimeSeeds
      pendingBuildReferences := db.pendingBuildReferences \ f.buildSeeds }.setFlush i
      { f with phase := .ended }
  | _ => db

end LocalStoreDb

/-- What happens to a database.  An event that does not fit the phase of its flush changes
nothing. -/
inductive Event where
  | marks (paths : List String) (kind : MarkKind)
  | flushes
  | acquired (i : Nat)
  | walked (i : Nat)
  | executed (i : Nat)
  | committed (i : Nat)
  | finished (i : Nat)
  /-- The database raises an error at the await of flush `i`, and what was not committed is
  rolled back. -/
  | fails (i : Nat)
  /-- Flush `i` goes on behind its sleep. -/
  | retries (i : Nat)
  /-- Flush `i` is cancelled, or ends by another exception. -/
  | stops (i : Nat)
  /-- `prune_path_access`. -/
  | prunes
  /-- Nix registers and deletes paths. -/
  | storeChanges (rows : Rows)
  | ticks (milliseconds : Nat)

def step (db : LocalStoreDb) : Event → LocalStoreDb
  | .marks paths kind =>
    { db.markPaths paths kind with
      marked := Dict.update db.marked ((paths.filter db.valid).map (·, db.clock)) }
  | .flushes => db.flushReferences
  | .acquired i =>
    match db.flushes[i]? with
    | some f => if f.phase = .acquiring then db.setFlush i (f.acquired db.usable) else db
    | none => db
  | .walked i =>
    match db.flushes[i]? with
    | some f => db.setFlush i (f.walked db.validPaths)
    | none => db
  | .executed i =>
    match db.flushes[i]? with
    | some f => if db.locked then db else db.execute i f
    | none => db
  | .committed i =>
    match db.flushes[i]? with
    | some f => db.commit i f
    | none => db
  | .finished i =>
    match db.flushes[i]? with
    | some f => db.finish i f
    | none => db
  | .fails i =>
    match db.flushes[i]? with
    | some f => db.setFlush i f.failed
    | none => db
  | .retries i =>
    match db.flushes[i]? with
    | some f =>
      if f.phase = .sleeping then
        db.setFlush i { f with attempt := f.attempt + 1, phase := .acquiring }
      else db
    | none => db
  | .stops i =>
    match db.flushes[i]? with
    | some f => db.setFlush i { f with phase := .ended }
    | none => db
  | .prunes =>
    if !db.active || db.readOnly || !db.usable || db.locked then db
    else { db with pathAccess := db.pathAccess.filter fun item => db.valid item.1 }
  | .storeChanges rows =>
    { db with
      validPaths := rows
      marked := db.marked.filter fun item => item.1 ∈ rows.map (·.2.path) }
  | .ticks milliseconds => { db with clock := db.clock + milliseconds }

abbrev steps : LocalStoreDb → Event → Option LocalStoreDb := fun db e => some (step db e)

/-! ## The property -/

/-- What a flush is still going to write, in each of its phases: the path, at a second that is
not before this one, ahead of its end. -/
def Phase.Owes (buildSeeds : Finset String) (path : String) (second : Nat) : Phase → Prop
  | acquiring | walkingRuntime | sleeping | ended => True
  | walkingBuild touched => path ∈ touched ∨ path ∈ buildSeeds
  | writing left => path ∈ left
  | committing rows written left => path ∈ left ∨ path ∈ rows ∧ second ≤ written

instance (buildSeeds : Finset String) (path : String) (second : Nat) :
    ∀ phase : Phase, Decidable (phase.Owes buildSeeds path second)
  | .acquiring | .walkingRuntime | .sleeping | .ended => inferInstanceAs (Decidable True)
  | .walkingBuild touched => inferInstanceAs (Decidable (path ∈ touched ∨ path ∈ buildSeeds))
  | .writing left => inferInstanceAs (Decidable (path ∈ left))
  | .committing rows written left =>
    inferInstanceAs (Decidable (path ∈ left ∨ path ∈ rows ∧ second ≤ written))

def Flush.Owes (f : Flush) (path : String) (second : Nat) : Prop :=
  f.phase.Owes f.buildSeeds path second

instance (f : Flush) (path : String) (second : Nat) : Decidable (f.Owes path second) :=
  inferInstanceAs (Decidable (f.phase.Owes f.buildSeeds path second))

namespace LocalStoreDb

def Fresh (db : LocalStoreDb) (path : String) (second : Nat) : Prop :=
  ∃ stored ∈ Dict.get? db.pathAccess path, second ≤ stored

instance (db : LocalStoreDb) (path : String) (second : Nat) : Decidable (db.Fresh path second) :=
  decidable_of_iff ((Dict.get? db.pathAccess path).any (second ≤ ·) = true) (by
    simp only [Fresh, Option.any_eq_true, decide_eq_true_eq, Option.mem_def])

/-- **No mark is lost**: every path that stayed valid since its latest mark is queued for a
flush, or the time in its row is not before the mark. -/
def Kept (db : LocalStoreDb) : Prop :=
  ∀ path time, Dict.get? db.marked path = some time →
    path ∈ db.pendingReferences ∨ path ∈ db.pendingBuildReferences ∨
      db.Fresh path (unixepoch time)

/-- A valid path is marked while every flush that has it in its snapshot of the same queue is
still going to write it, or in the very second of its row. -/
def Apart (db : LocalStoreDb) : Event → Prop
  | .marks paths kind => ∀ path ∈ paths, db.valid path = true →
      db.Fresh path (unixepoch db.clock) ∨
        ∀ f ∈ db.flushes, path ∈ f.seeds kind → f.Owes path (unixepoch db.clock)
  | _ => True

instance (db : LocalStoreDb) : (e : Event) → Decidable (db.Apart e)
  | .marks paths kind => inferInstanceAs (Decidable (∀ path ∈ paths, db.valid path = true →
      db.Fresh path (unixepoch db.clock) ∨
        ∀ f ∈ db.flushes, path ∈ f.seeds kind → f.Owes path (unixepoch db.clock)))
  | .flushes | .acquired _ | .walked _ | .executed _ | .committed _ | .finished _ | .fails _
  | .retries _ | .stops _ | .prunes | .storeChanges _ | .ticks _ => inferInstanceAs (Decidable True)

end LocalStoreDb

namespace Flush

variable {f : Flush} {path : String} {second : Nat} {kind : MarkKind}

theorem mem_seeds (h : path ∈ f.seeds kind) : path ∈ f.runtimeSeeds ∨ path ∈ f.buildSeeds := by
  cases kind with
  | runtime => exact .inl h
  | build => exact .inr h

theorem seeds_toBuild (touched : Finset String) : (f.toBuild touched).seeds = f.seeds := rfl

theorem owes_toBuild {touched : Finset String} (h : path ∈ touched ∨ path ∈ f.buildSeeds) :
    (f.toBuild touched).Owes path second := by
  unfold Owes toBuild
  by_cases hnone : f.buildSeeds = ∅
  · rw [if_pos hnone]
    rw [hnone] at h
    exact mem_sortedSet.2 (h.resolve_right (Finset.notMem_empty path))
  · rw [if_neg hnone]
    exact h

theorem seeds_acquired (usable : Bool) : (f.acquired usable).seeds = f.seeds := by
  unfold acquired
  split_ifs
  · exact seeds_toBuild ∅
  · rfl
  · rfl

theorem owes_acquired (h : path ∈ f.seeds kind) : (f.acquired true).Owes path second := by
  simp only [acquired, if_true]
  split_ifs with hnone
  · refine owes_toBuild (.inr ((mem_seeds h).resolve_left ?_))
    rw [hnone]
    exact Finset.notMem_empty path
  · trivial

theorem seeds_walked (rows : Rows) : (f.walked rows).seeds = f.seeds := by
  unfold walked
  split
  · exact seeds_toBuild _
  · rfl
  · rfl

/-- **A closure query loses no seed** that is valid. -/
theorem owes_walked {rows : Rows} (hvalid : path ∈ rows.map (·.2.path)) (h : path ∈ f.seeds kind)
    (howes : f.Owes path second) : (f.walked rows).Owes path second := by
  unfold walked
  split
  next =>
    refine owes_toBuild ((mem_seeds h).imp_left fun hseed => ?_)
    exact mem_expandClosure hseed hvalid
  next touched hphase =>
    rw [Owes, hphase] at howes
    refine mem_sortedSet.2 (Finset.mem_union.2 (howes.imp_right fun hseed => ?_))
    exact mem_expandClosure hseed hvalid
  next => exact howes

theorem isCommitting_toBuild (touched : Finset String) :
    (f.toBuild touched).phase.isCommitting = false := by
  unfold toBuild
  by_cases hnone : f.buildSeeds = ∅
  · rw [if_pos hnone]
    rfl
  · rw [if_neg hnone]
    rfl

theorem isCommitting_acquired (usable : Bool) : (f.acquired usable).phase.isCommitting = false := by
  unfold acquired
  split_ifs
  · exact isCommitting_toBuild ∅
  · rfl
  · rfl

theorem walked_eq_or (f : Flush) (rows : Rows) :
    f.walked rows = f ∨ (f.walked rows).phase.isCommitting = false := by
  unfold walked
  split
  · exact .inr (isCommitting_toBuild _)
  · exact .inr rfl
  · exact .inl rfl

theorem isCommitting_failed (f : Flush) : f.failed.phase.isCommitting = false := by
  unfold failed
  split
  next hphase => rw [hphase]; rfl
  next hphase => rw [hphase]; rfl
  next => split_ifs <;> rfl

theorem seeds_failed : f.failed.seeds = f.seeds := by
  unfold failed
  split
  · rfl
  · rfl
  · rfl

theorem owes_failed (howes : f.Owes path second) : f.failed.Owes path second := by
  unfold failed
  split
  · exact howes
  · exact howes
  · split_ifs
    · trivial
    · trivial

end Flush

namespace LocalStoreDb

/-! ## The invariant -/

/-- A queue keeps the mark of a path: the path is queued, and every flush that is going to take
it off that queue writes it before. -/
def Keeps (db : LocalStoreDb) (kind : MarkKind) (path : String) (second : Nat) : Prop :=
  path ∈ db.pending kind ∧ ∀ f ∈ db.flushes, path ∈ f.seeds kind → f.Owes path second

structure Inv (db : LocalStoreDb) : Prop where
  active : db.active = true
  writable : db.readOnly = false
  usable : db.usable = true
  marked : ∀ path time, Dict.get? db.marked path = some time →
    db.valid path = true ∧ time ≤ db.clock
  kept : ∀ path time, Dict.get? db.marked path = some time →
    (∃ kind, db.Keeps kind path (unixepoch time)) ∨ db.Fresh path (unixepoch time)
  past : ∀ item ∈ db.pathAccess, item.2 ≤ unixepoch db.clock
  /-- Whoever waits for a commit is alone, and nobody wrote after it. -/
  writer : ∀ (i : Nat) f rows second left, db.flushes[i]? = some f →
    f.phase = .committing rows second left →
    second ≤ unixepoch db.clock ∧ (∀ item ∈ db.pathAccess, item.2 ≤ second) ∧
      ∀ (j : Nat) g, db.flushes[j]? = some g → g.phase.isCommitting = true → j = i

variable {db : LocalStoreDb} {i : Nat} {f f' : Flush}

theorem Inv.kept_pending (h : db.Inv) : db.Kept := by
  intro path time hmarked
  rcases h.kept path time hmarked with ⟨kind, hpending, -⟩ | hfresh
  · cases kind with
    | runtime => exact .inl hpending
    | build => exact .inr (.inl hpending)
  · exact .inr (.inr hfresh)

theorem not_locked_iff : db.locked = false ↔
    ∀ (j : Nat) g, db.flushes[j]? = some g → g.phase.isCommitting ≠ true := by
  rw [locked, any_eq_false]
  constructor
  · exact fun h j g hg => h g (mem_of_getElem? hg)
  · intro h g hg
    obtain ⟨j, hj⟩ := mem_iff_getElem?.1 hg
    exact h j g hj

theorem Keeps.setFlush {kind : MarkKind} {path : String} {second : Nat}
    (h : db.Keeps kind path second) (hi : db.flushes[i]? = some f) (hseeds : f'.seeds = f.seeds)
    (howes : path ∈ f.seeds kind → f.Owes path second → f'.Owes path second) :
    (db.setFlush i f').Keeps kind path second := by
  refine ⟨h.1, fun g hg hpath => ?_⟩
  rcases mem_or_eq_of_mem_set hg with hold | rfl
  · exact h.2 g hold hpath
  · rw [hseeds] at hpath
    exact howes hpath (h.2 f (mem_of_getElem? hi) hpath)

theorem writer_setFlush (h : db.Inv)
    (hwriter : ∀ rows second left, f'.phase = .committing rows second left →
      second = unixepoch db.clock ∧ db.locked = false) :
    ∀ (j : Nat) g rows second left, (db.setFlush i f').flushes[j]? = some g →
      g.phase = .committing rows second left →
      second ≤ unixepoch db.clock ∧ (∀ item ∈ db.pathAccess, item.2 ≤ second) ∧
        ∀ (k : Nat) g', (db.setFlush i f').flushes[k]? = some g' →
          g'.phase.isCommitting = true → k = j := by
  intro j g rows second left hj hphase
  have hget : ∀ {k : Nat} {g' : Flush}, (db.setFlush i f').flushes[k]? = some g' →
      i = k ∧ g' = f' ∨ db.flushes[k]? = some g' := by
    intro k g' hk
    rw [LocalStoreDb.setFlush, getElem?_set] at hk
    split_ifs at hk with hik
    · exact .inl ⟨hik, (Option.some.inj hk).symm⟩
    · exact .inr hk
  rcases hget hj with ⟨rfl, rfl⟩ | hold
  · obtain ⟨rfl, hlocked⟩ := hwriter rows second left hphase
    refine ⟨le_rfl, h.past, fun k g' hk hcommitting => ?_⟩
    rcases hget hk with ⟨rfl, -⟩ | hk
    · rfl
    · exact absurd hcommitting (not_locked_iff.1 hlocked k g' hk)
  · obtain ⟨hsecond, hnewest, halone⟩ := h.writer j g rows second left hold hphase
    refine ⟨hsecond, hnewest, fun k g' hk hcommitting => ?_⟩
    rcases hget hk with ⟨rfl, rfl⟩ | hk
    · -- nobody starts to write while `j` does
      cases hphase' : g'.phase with
      | committing rows' second' left' =>
        have hlocked := (hwriter rows' second' left' hphase').2
        refine absurd ?_ (not_locked_iff.1 hlocked j g hold)
        rw [hphase]
        rfl
      | _ => rw [hphase'] at hcommitting; cases hcommitting
    · exact halone k g' hk hcommitting

/-- **A flush goes on**: what it owed it still owes. -/
theorem Inv.setFlush (h : db.Inv) (hi : db.flushes[i]? = some f) (hseeds : f'.seeds = f.seeds)
    (howes : ∀ kind path second, db.valid path = true → second ≤ unixepoch db.clock →
      path ∈ f.seeds kind → f.Owes path second → f'.Owes path second)
    (hwriter : ∀ rows second left, f'.phase = .committing rows second left →
      second = unixepoch db.clock ∧ db.locked = false) : (db.setFlush i f').Inv where
  active := h.active
  writable := h.writable
  usable := h.usable
  marked := h.marked
  kept := by
    intro path time hmarked
    obtain ⟨hvalid, htime⟩ := h.marked path time hmarked
    refine (h.kept path time hmarked).imp_left ?_
    rintro ⟨kind, hkeeps⟩
    exact ⟨kind, hkeeps.setFlush hi hseeds (howes kind path _ hvalid (unixepoch_mono htime))⟩
  past := h.past
  writer := writer_setFlush h hwriter

theorem Inv.goesOn (h : db.Inv) (hi : db.flushes[i]? = some f) (hseeds : f'.seeds = f.seeds)
    (hquiet : f'.phase.isCommitting = false)
    (howes : ∀ kind path second, db.valid path = true → path ∈ f.seeds kind →
      f.Owes path second → f'.Owes path second) : (db.setFlush i f').Inv := by
  refine h.setFlush hi hseeds (fun kind path second hvalid _ => howes kind path second hvalid) ?_
  intro rows second left hphase
  rw [hphase] at hquiet
  cases hquiet

theorem setFlush_self (hi : db.flushes[i]? = some f) : db.setFlush i f = db := by
  obtain ⟨hlt, rfl⟩ := List.getElem?_eq_some_iff.1 hi
  rw [setFlush, set_getElem_self]

/-! ## The steps -/

theorem markPaths_eq (h : db.Inv) (paths : List String) (kind : MarkKind) :
    ∃ queues builds, db.markPaths paths kind =
        { db with pendingReferences := queues, pendingBuildReferences := builds } ∧
      (∀ path ∈ paths, path ∈ (db.markPaths paths kind).pending kind) ∧
      ∀ kind' path, path ∈ db.pending kind' → path ∈ (db.markPaths paths kind).pending kind' := by
  have hon : (db.active && !db.readOnly) = true := by rw [h.active, h.writable]; rfl
  have hnew : ∀ {queue : Finset String}, ∀ path ∈ paths, path ∈ queue ∪ paths.toFinset :=
    fun path hpath => Finset.mem_union_right _ (mem_toFinset.2 hpath)
  cases kind with
  | runtime =>
    rw [markPaths, if_pos hon]
    refine ⟨_, _, rfl, hnew, fun kind' path hpath => ?_⟩
    cases kind' with
    | runtime => exact Finset.mem_union_left _ hpath
    | build => exact hpath
  | build =>
    rw [markPaths, if_pos hon]
    refine ⟨_, _, rfl, hnew, fun kind' path hpath => ?_⟩
    cases kind' with
    | runtime => exact hpath
    | build => exact Finset.mem_union_left _ hpath

theorem Inv.marks (h : db.Inv) {paths : List String} {kind : MarkKind}
    (hapart : db.Apart (.marks paths kind)) : (step db (.marks paths kind)).Inv := by
  obtain ⟨queues, builds, hmark, hqueued, hgrows⟩ := markPaths_eq h paths kind
  have hget : ∀ path time,
      Dict.get? (Dict.update db.marked ((paths.filter db.valid).map (·, db.clock))) path =
        some time →
      (path ∈ paths ∧ db.valid path = true ∧ time = db.clock) ∨
        Dict.get? db.marked path = some time := by
    intro path time hmarked
    rw [Dict.get?_update_const] at hmarked
    split_ifs at hmarked with hnew
    · obtain ⟨hpath, hvalid⟩ := mem_filter.1 hnew
      exact .inl ⟨hpath, hvalid, (Option.some.inj hmarked).symm⟩
    · exact .inr hmarked
  rw [hmark] at hqueued hgrows
  rw [step, hmark]
  refine ⟨h.active, h.writable, h.usable, fun path time hmarked => ?_, fun path time hmarked => ?_,
    h.past, h.writer⟩
  · rcases hget path time hmarked with ⟨-, hvalid, rfl⟩ | hold
    · exact ⟨hvalid, le_rfl⟩
    · exact h.marked path time hold
  · rcases hget path time hmarked with ⟨hpath, hvalid, rfl⟩ | hold
    · rcases hapart path hpath hvalid with hfresh | howes
      · exact .inr hfresh
      · exact .inl ⟨kind, hqueued path hpath, howes⟩
    · refine (h.kept path time hold).imp_left ?_
      rintro ⟨kind', hpending, howes⟩
      exact ⟨kind', hgrows kind' path hpending, howes⟩

theorem Inv.flushReferences (h : db.Inv) : db.flushReferences.Inv := by
  unfold LocalStoreDb.flushReferences
  split_ifs
  · exact h
  · exact h
  · refine ⟨h.active, h.writable, h.usable, h.marked, fun path time hmarked => ?_, h.past, ?_⟩
    · refine (h.kept path time hmarked).imp_left ?_
      rintro ⟨kind, hpending, howes⟩
      refine ⟨kind, hpending, fun g hg hpath => ?_⟩
      rcases mem_append.1 hg with hold | hnew
      · exact howes g hold hpath
      · obtain rfl := mem_singleton.1 hnew
        trivial
    · -- the new flush writes nothing yet
      have hold : ∀ (j : Nat) (g new : Flush), (db.flushes ++ [new])[j]? = some g →
          new.phase.isCommitting = false → g.phase.isCommitting = true →
          db.flushes[j]? = some g := by
        intro j g new hj hnew hcommitting
        rw [getElem?_append] at hj
        split_ifs at hj
        · exact hj
        · obtain rfl := mem_singleton.1 (mem_of_getElem? hj)
          rw [hnew] at hcommitting
          cases hcommitting
      intro j g rows second left hj hphase
      have hcommitting : g.phase.isCommitting = true := by
        rw [hphase]
        rfl
      obtain ⟨hsecond, hnewest, halone⟩ :=
        h.writer j g rows second left (hold j g _ hj rfl hcommitting) hphase
      exact ⟨hsecond, hnewest, fun k g' hk hk' => halone k g' (hold k g' _ hk rfl hk') hk'⟩

/-- **A chunk is written** at the present second. -/
theorem Inv.execute (h : db.Inv) (hi : db.flushes[i]? = some f) (hlocked : db.locked = false) :
    (db.execute i f).Inv := by
  unfold LocalStoreDb.execute
  split
  next path left hphase =>
    refine h.setFlush hi rfl (fun kind p second hvalid hsecond _ howes => ?_) ?_
    · rw [Flush.Owes, hphase] at howes
      have howes : p ∈ path :: left := howes
      rw [← take_append_drop 1000 (path :: left), mem_append] at howes
      rcases howes with hchunk | hrest
      · exact .inr ⟨mem_filter.2 ⟨hchunk, hvalid⟩, hsecond⟩
      · exact .inl hrest
    · rintro rows second rest ⟨⟩
      exact ⟨rfl, hlocked⟩
  next => exact h

/-- **A commit**: what was owed is fresh, and nothing gets older. -/
theorem Inv.commit (h : db.Inv) (hi : db.flushes[i]? = some f) : (db.commit i f).Inv := by
  unfold LocalStoreDb.commit
  split
  next rows second left hphase =>
    obtain ⟨hsecond, hnewest, halone⟩ := h.writer i f rows second left hi hphase
    have hget : ∀ path, Dict.get? (Dict.update db.pathAccess (rows.map (·, second))) path =
        if path ∈ rows then some second else Dict.get? db.pathAccess path :=
      fun path => Dict.get?_update_const db.pathAccess rows second path
    have hunlocked : ∀ (j : Nat) g, (db.flushes.set i { f with phase := .writing left })[j]? =
        some g → g.phase.isCommitting ≠ true := by
      intro j g hj hcommitting
      rw [getElem?_set] at hj
      split_ifs at hj with hij
      · cases hj
        cases hcommitting
      · exact hij (halone j g hj hcommitting).symm
    refine ⟨h.active, h.writable, h.usable, h.marked, fun path time hmarked => ?_, ?_, ?_⟩
    · by_cases hrow : path ∈ rows ∧ unixepoch time ≤ second
      · refine .inr ⟨second, ?_, hrow.2⟩
        exact (hget path).trans (if_pos hrow.1)
      · rcases h.kept path time hmarked with ⟨kind, hkeeps⟩ | ⟨stored, hstored, hle⟩
        · refine .inl ⟨kind, hkeeps.setFlush hi rfl fun _ howes => ?_⟩
          rw [Flush.Owes, hphase] at howes
          exact howes.resolve_right hrow
        · have hpath : path ∉ rows := fun hpath =>
            hrow ⟨hpath, hle.trans (hnewest _ (Dict.mem_of_get?_eq_some hstored))⟩
          exact .inr ⟨stored, ((hget path).trans (if_neg hpath)).trans hstored, hle⟩
    · intro item hitem
      rcases Dict.mem_update hitem with hold | hnew
      · exact h.past item hold
      · obtain ⟨path, -, rfl⟩ := mem_map.1 hnew
        exact hsecond
    · intro j g rows' second' left' hj hphase'
      refine absurd ?_ (hunlocked j g hj)
      rw [hphase']
      rfl
  next => exact h

/-- **The end of a flush** takes what it wrote off the queues. -/
theorem Inv.finish (h : db.Inv) (hi : db.flushes[i]? = some f) : (db.finish i f).Inv := by
  unfold LocalStoreDb.finish
  split
  next hphase =>
    have hended : (db.setFlush i { f with phase := .ended }).Inv :=
      h.goesOn hi rfl rfl fun _ _ _ _ _ _ => trivial
    refine ⟨h.active, h.writable, h.usable, h.marked, fun path time hmarked => ?_, h.past,
      hended.writer⟩
    refine (h.kept path time hmarked).imp_left ?_
    rintro ⟨kind, hkeeps⟩
    -- nothing is left that the flush owed
    have hother : path ∉ f.seeds kind := by
      intro hpath
      have howes := hkeeps.2 f (mem_of_getElem? hi) hpath
      rw [Flush.Owes, hphase] at howes
      cases howes
    have hkept : (db.setFlush i { f with phase := .ended }).Keeps kind path (unixepoch time) :=
      hkeeps.setFlush hi rfl fun _ _ => trivial
    refine ⟨kind, ?_, hkept.2⟩
    cases kind with
    | runtime => exact Finset.mem_sdiff.2 ⟨hkeeps.1, hother⟩
    | build => exact Finset.mem_sdiff.2 ⟨hkeeps.1, hother⟩
  next => exact h

theorem Inv.prunes (h : db.Inv) : (step db .prunes).Inv := by
  simp only [step]
  split_ifs
  · exact h
  · have hget : ∀ path, Dict.get? (db.pathAccess.filter fun item => db.valid item.1) path =
        if db.valid path then Dict.get? db.pathAccess path else none :=
      Dict.get?_filter db.pathAccess db.valid
    have hsub : ∀ item ∈ db.pathAccess.filter fun item => db.valid item.1,
        item ∈ db.pathAccess := fun item hitem => (mem_filter.1 hitem).1
    refine ⟨h.active, h.writable, h.usable, h.marked, fun path time hmarked => ?_,
      fun item hitem => h.past item (hsub item hitem), fun j g rows second left hj hphase => ?_⟩
    · refine (h.kept path time hmarked).imp_right ?_
      rintro ⟨stored, hstored, hle⟩
      refine ⟨stored, ?_, hle⟩
      exact ((hget path).trans (if_pos (h.marked path time hmarked).1)).trans hstored
    · obtain ⟨hsecond, hnewest, halone⟩ := h.writer j g rows second left hj hphase
      exact ⟨hsecond, fun item hitem => hnewest item (hsub item hitem), halone⟩

theorem Inv.storeChanges (h : db.Inv) (rows : Rows) : (step db (.storeChanges rows)).Inv := by
  have hget : ∀ path time, Dict.get? (step db (.storeChanges rows)).marked path = some time →
      path ∈ rows.map (·.2.path) ∧ Dict.get? db.marked path = some time := by
    intro path time hmarked
    have hfilter := Dict.get?_filter db.marked (fun p => p ∈ rows.map (·.2.path)) path
    rw [step, hfilter] at hmarked
    split_ifs at hmarked with hin
    exact ⟨by simpa using hin, hmarked⟩
  refine ⟨h.active, h.writable, h.usable, fun path time hmarked => ?_, fun path time hmarked => ?_,
    h.past, h.writer⟩
  · obtain ⟨hvalid, hold⟩ := hget path time hmarked
    exact ⟨decide_eq_true hvalid, (h.marked path time hold).2⟩
  · exact h.kept path time (hget path time hmarked).2

theorem Inv.ticks (h : db.Inv) (milliseconds : Nat) : (step db (.ticks milliseconds)).Inv := by
  have hlater : db.clock ≤ db.clock + milliseconds := Nat.le_add_right _ _
  refine ⟨h.active, h.writable, h.usable, fun path time hmarked => ?_, h.kept,
    fun item hitem => (h.past item hitem).trans (unixepoch_mono hlater),
    fun j g rows second left hj hphase => ?_⟩
  · obtain ⟨hvalid, htime⟩ := h.marked path time hmarked
    exact ⟨hvalid, htime.trans hlater⟩
  · obtain ⟨hsecond, hrest⟩ := h.writer j g rows second left hj hphase
    exact ⟨hsecond.trans (unixepoch_mono hlater), hrest⟩

theorem inv_step (db : LocalStoreDb) (e : Event) (t : LocalStoreDb) (h : db.Inv)
    (hapart : db.Apart e) (hstep : steps db e = some t) : t.Inv := by
  cases hstep
  cases e with
  | marks paths kind => exact h.marks hapart
  | flushes => exact h.flushReferences
  | acquired i =>
    simp only [step]
    split
    next f hi =>
      split_ifs
      · rw [h.usable]
        exact h.goesOn hi (Flush.seeds_acquired true) (Flush.isCommitting_acquired true)
          fun kind path second _ hpath _ => Flush.owes_acquired hpath
      · exact h
    next => exact h
  | walked i =>
    simp only [step]
    split
    next f hi =>
      rcases f.walked_eq_or db.validPaths with hsame | hquiet
      · rw [hsame, setFlush_self hi]
        exact h
      · exact h.goesOn hi (Flush.seeds_walked _) hquiet fun kind path second hvalid hpath howes =>
          Flush.owes_walked (of_decide_eq_true hvalid) hpath howes
    next => exact h
  | executed i =>
    simp only [step]
    split
    next f hi =>
      split_ifs with hlocked
      · exact h
      · exact h.execute hi (by simpa using hlocked)
    next => exact h
  | committed i =>
    simp only [step]
    split
    next f hi => exact h.commit hi
    next => exact h
  | finished i =>
    simp only [step]
    split
    next f hi => exact h.finish hi
    next => exact h
  | fails i =>
    simp only [step]
    split
    next f hi =>
      exact h.goesOn hi Flush.seeds_failed f.isCommitting_failed fun _ _ _ _ _ howes =>
        Flush.owes_failed howes
    next => exact h
  | retries i =>
    simp only [step]
    split
    next f hi =>
      split_ifs
      · exact h.goesOn hi rfl rfl fun _ _ _ _ _ _ => trivial
      · exact h
    next => exact h
  | stops i =>
    simp only [step]
    split
    next f hi => exact h.goesOn hi rfl rfl fun _ _ _ _ _ _ => trivial
    next => exact h
  | prunes => exact h.prunes
  | storeChanges rows => exact h.storeChanges rows
  | ticks milliseconds => exact h.ticks milliseconds

theorem inv_opened {pathAccess : List (String × Nat)} {clock : Nat} (rows : Rows)
    (hpast : ∀ item ∈ pathAccess, item.2 ≤ unixepoch clock) :
    (opened rows pathAccess clock).Inv where
  active := rfl
  writable := rfl
  usable := rfl
  marked := nofun
  kept := nofun
  past := hpast
  writer := nofun

/-- **No mark is lost**, in every run in which a path is not marked behind the touch of a flush
that has it in its snapshot: over any flushes at once, whatever fails, and while paths come and
go. -/
theorem kept_of_apart {rows : Rows} {pathAccess : List (String × Nat)} {clock : Nat}
    {events : List Event} {db : LocalStoreDb}
    (hpast : ∀ item ∈ pathAccess, item.2 ≤ unixepoch clock)
    (hapart : Guarded steps Apart (opened rows pathAccess clock) events)
    (hrun : run steps (opened rows pathAccess clock) events = some db) : db.Kept :=
  (inv_of_guarded inv_step (inv_opened rows hpast) hapart hrun).kept_pending

def oneRow : Rows := [(1, { path := "/nix/store/a-hello", deriver := none, refs := [] })]

/-- Marks before a flush, and between its snapshot and its write; the first attempt fails. -/
def busyFlush : List Event :=
  [.marks ["/nix/store/a-hello"] .runtime, .flushes, .acquired 0, .fails 0, .ticks 1500,
    .marks ["/nix/store/a-hello"] .runtime, .retries 0, .acquired 0, .walked 0, .executed 0,
    .committed 0, .finished 0]

/-- The second mark is stored by the retry of the flush that was under way. -/
theorem kept_busyFlush :
    Guarded steps Apart (opened oneRow [] 7000) busyFlush ∧
      ∃ db, run steps (opened oneRow [] 7000) busyFlush = some db ∧
        db.pathAccess = [("/nix/store/a-hello", 8)] ∧ db.Kept := by
  have hapart : Guarded steps Apart (opened oneRow [] 7000) busyFlush := by decide +kernel
  obtain ⟨db, hrun, hdb⟩ := Option.map_eq_some_iff.1
    (by decide +kernel : (run steps (opened oneRow [] 7000) busyFlush).map
      (·.pathAccess) = some [("/nix/store/a-hello", 8)])
  have hpast : ∀ item ∈ ([] : List (String × Nat)), item.2 ≤ unixepoch 7000 := nofun
  exact ⟨hapart, db, hrun, hdb, kept_of_apart hpast hapart hrun⟩

/-- A path is marked again while the flush that wrote it gives its connection back. -/
def lateMark : List Event :=
  [.marks ["/nix/store/a-hello"] .runtime, .flushes, .acquired 0, .walked 0, .executed 0,
    .committed 0, .ticks 2000, .marks ["/nix/store/a-hello"] .runtime, .finished 0]

/-- **The second mark is lost**: the flush takes it off the queue with its snapshot, and the row
has the time of the first. -/
theorem lateMark_lost :
    ∃ db, run steps (opened oneRow [] 7000) lateMark = some db ∧ ¬db.Kept := by
  obtain ⟨db, hrun, hdb⟩ := Option.map_eq_some_iff.1
    (by decide +kernel : (run steps (opened oneRow [] 7000) lateMark).map (fun db =>
        (db.marked, db.pendingReferences, db.pendingBuildReferences, db.pathAccess)) =
      some ([("/nix/store/a-hello", 9000)], ∅, ∅, [("/nix/store/a-hello", 7)]))
  refine ⟨db, hrun, fun hkept => ?_⟩
  simp only [Prod.mk.injEq] at hdb
  obtain ⟨hmarked, hruntime, hbuild, haccess⟩ := hdb
  have hlost := hkept "/nix/store/a-hello" 9000 (by rw [hmarked]; decide)
  rw [hruntime, hbuild, Fresh, haccess] at hlost
  revert hlost
  decide

end LocalStoreDb

end Pynixd.AccessMarks
