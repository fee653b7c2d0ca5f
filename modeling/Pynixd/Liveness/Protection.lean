import Pynixd.Liveness.Walks

/-!
# Whether every root protects its object

A root names a store object, or a path inside one.  `RootsTracker.refresh` collects what the walks
of the disk and of the processes find, and asks the database for everything that can be reached
from the rows **whose paths are among the findings**.

* `mem_findings_iff` — **the walks find exactly what is `Seen`**;
* `protects_iff` — every root protects its object exactly when each object that a root names, or
  points into, can be reached from an object that a seen root names by its own path.
-/

namespace Pynixd.Liveness

open List LiveSet Relation

/-! ## What the roots name -/

/-- What a link or a plain file names: a plain file the object of its name, a link its target,
and one that leads out of the store the target of the link that it leads to. -/
def Disk.leafNames (d : Disk) (leaf : Leaf) : List String :=
  match leaf.target with
  | none => if isStoreBasename leaf.name then [d.storeDir ++ "/" ++ leaf.name] else []
  | some raw =>
    if inStore d.storeDir (posix raw) then [posix raw]
    else posix raw :: ((d.readlink (leaf.resolve (posix raw))).map posix).toList

/-- The links and plain files under `gcroots` and `profiles`. -/
def StableRoot (d : Disk) (target : String) : Prop :=
  ∃ leaf kind, (leaf, kind) ∈ d.stableLeaves ∧ target ∈ d.leafNames leaf

/-- The links of a process, and the files that it holds open. -/
def LinkRoot (p : Proc) (target : String) : Prop :=
  ∃ raw, target = posix raw ∧
    (p.exe = some raw ∨ p.cwd = some raw ∨
      ∃ fds name, p.fds = some fds ∧ (name, some raw) ∈ fds ∧ startswith name "." = false)

def MappedRoot (u : Unicode) (p : Proc) (target : String) : Prop :=
  ∃ lines line, p.maps = some lines ∧ line ∈ lines ∧ Maps u line target

/-- The store objects in the environment of a process. -/
def EnvironRoot (storeDir : String) (p : Proc) (target : String) : Prop :=
  ∃ environ, p.environ = some environ ∧ target ∈ environPaths storeDir environ

def SettingRoot (u : Unicode) (m : Machine) (target : String) : Prop :=
  ∃ setting ∈ m.settings, settingPath u setting = some target

/-- The records of the temporary roots whose owner is alive: it holds a lock of either sort. -/
def TempRoot (u : Unicode) (m : Machine) (target : String) : Prop :=
  ∃ entry ∈ m.temproots.entries, ∃ f, m.temproots.inodes[entry.2]? = some f ∧
    (f.recordLock.isSome = true ∨ f.flock.isSome = true) ∧ target ∈ records u f.content

/-- **What the roots name.** -/
def Named (u : Unicode) (d : Disk) (m : Machine) (target : String) : Prop :=
  StableRoot d target ∨
    (∃ p ∈ m.procs, isProcess p = true ∧
      (LinkRoot p target ∨ MappedRoot u p target ∨ EnvironRoot d.storeDir p target)) ∨
    SettingRoot u m target ∨ TempRoot u m target

/-- A target names the object, or a path inside it. -/
def Inside (target object : String) : Prop :=
  target = object ∨ startswith target (object ++ "/") = true

/-! ## What the walks see of it -/

/-- A line of `maps` whose sixth word is its last. -/
def SeenMapping (u : Unicode) (line target : String) : Prop :=
  (∃ fields, fields.length = 5 ∧ words u.isSpace line.toList = fields ++ [target.toList]) ∧
    isAbsolute target = true ∧ target ≠ "/"

/-- The mapped files are read behind the open files, and the environment behind both. -/
def SeenProc (u : Unicode) (storeDir : String) (p : Proc) (target : String) : Prop :=
  LinkRoot p target ∨
    (p.fds.isSome = true ∧ ∃ lines line, p.maps = some lines ∧ line ∈ lines ∧
      SeenMapping u line target) ∨
    (p.fds.isSome = true ∧ p.maps.isSome = true ∧ EnvironRoot storeDir p target)

/-- A file of temporary roots counts under a number for a name, and under a record lock of
another process. -/
def SeenTemp (u : Unicode) (m : Machine) (target : String) : Prop :=
  ∃ entry ∈ m.temproots.entries, ∃ f, m.temproots.inodes[entry.2]? = some f ∧
    opens u entry.1 f = true ∧ f.refuses m.pid = true ∧ target ∈ records u f.content

/-- **What the walks see**, of what lies in the store. -/
def Seen (u : Unicode) (d : Disk) (m : Machine) (target : String) : Prop :=
  inStore d.storeDir target = true ∧
    (StableRoot d target ∨
      (∃ p ∈ m.procs, isProcess p = true ∧ SeenProc u d.storeDir p target) ∨
      SettingRoot u m target ∨ SeenTemp u m target)

theorem Disk.isAbsolute_of_inStore (d : Disk) {path : String}
    (h : inStore d.storeDir path = true) : isAbsolute path = true := by
  have hroot := isPrefixOf_iff_prefix.1 d.absolute
  have hpath := isPrefixOf_iff_prefix.1 h
  rw [String.toList_append] at hpath
  exact isPrefixOf_iff_prefix.2 (hroot.trans ((prefix_append _ _).trans hpath))

theorem Disk.isAbsolute_and_inStore (d : Disk) (path : String) :
    (isAbsolute path && inStore d.storeDir path) = inStore d.storeDir path := by
  cases h : inStore d.storeDir path with
  | false => exact Bool.and_false _
  | true => rw [d.isAbsolute_of_inStore h]; rfl

theorem Disk.exists_rootOf_iff (d : Disk) (leaf : Leaf) (target : String) :
    (∃ key, d.rootOf leaf = some (key, target)) ↔
      inStore d.storeDir target = true ∧ target ∈ d.leafNames leaf := by
  have hfile : inStore d.storeDir (d.storeDir ++ "/" ++ leaf.name) = true :=
    startswith_append (d.storeDir ++ "/") leaf.name
  -- one target that is taken when it lies in the store
  have hone : ∀ key path : String,
      (∃ k, (if inStore d.storeDir path then some (key, path) else none) = some (k, target)) ↔
        inStore d.storeDir target = true ∧ target = path := by
    intro key path
    split_ifs with hin
    · constructor
      · rintro ⟨k, ⟨⟩⟩
        exact ⟨hin, rfl⟩
      · rintro ⟨-, rfl⟩
        exact ⟨key, rfl⟩
    · constructor
      · rintro ⟨k, ⟨⟩⟩
      · rintro ⟨hin', rfl⟩
        exact absurd hin' hin
  unfold Disk.rootOf Disk.leafNames
  simp only [d.isAbsolute_and_inStore]
  cases leaf.target with
  | none =>
    by_cases hname : isStoreBasename leaf.name = true
    · simpa [hname, hfile] using hone leaf.path (d.storeDir ++ "/" ++ leaf.name)
    · simp [hname]
  | some raw =>
    by_cases hin : inStore d.storeDir (posix raw) = true
    · simpa [hin] using hone leaf.path (posix raw)
    · have hother : inStore d.storeDir target = true → target ≠ posix raw := by
        rintro hin' rfl
        exact hin hin'
      cases hsecond : d.readlink (leaf.resolve (posix raw)) with
      | none => simpa [hin, hsecond] using hother
      | some second =>
        simp only [hin, hsecond, if_false, Bool.false_eq_true, Option.map_some,
          Option.toList_some, mem_cons, not_mem_nil, or_false, hone]
        exact and_congr_right fun hin' => (or_iff_right (hother hin')).symm

theorem mem_targets_walkStable_iff (d : Disk) (target : String) :
    target ∈ d.walkStable.targets ↔ inStore d.storeDir target = true ∧ StableRoot d target := by
  rw [Disk.mem_targets_walkStable]
  constructor
  · rintro ⟨leaf, kind, key, hleaf, hroot⟩
    obtain ⟨hin, hnames⟩ := (d.exists_rootOf_iff leaf target).1 ⟨key, hroot⟩
    exact ⟨hin, leaf, kind, hleaf, hnames⟩
  · rintro ⟨hin, leaf, kind, hleaf, hnames⟩
    obtain ⟨key, hroot⟩ := (d.exists_rootOf_iff leaf target).2 ⟨hin, hnames⟩
    exact ⟨leaf, kind, key, hleaf, hroot⟩

theorem procLink_eq_some_iff {raw? : Option String} {target : String}
    (habsolute : isAbsolute target = true) :
    procLink raw? = some target ↔ ∃ raw, target = posix raw ∧ raw? = some raw := by
  cases raw? with
  | none => simp [procLink]
  | some raw =>
    rw [procLink]
    constructor
    · intro h
      split_ifs at h
      cases h
      exact ⟨raw, rfl, rfl⟩
    · rintro ⟨raw', rfl, ⟨⟩⟩
      rw [if_pos habsolute]

theorem mem_links_iff (p : Proc) {target : String} (habsolute : isAbsolute target = true) :
    target ∈ [p.exe, p.cwd].filterMap procLink ↔
      ∃ raw, target = posix raw ∧ (p.exe = some raw ∨ p.cwd = some raw) := by
  simp only [mem_filterMap, mem_cons, not_mem_nil, or_false,
    procLink_eq_some_iff habsolute]
  constructor
  · rintro ⟨raw?, rfl | rfl, raw, htarget, hraw⟩
    · exact ⟨raw, htarget, .inl hraw⟩
    · exact ⟨raw, htarget, .inr hraw⟩
  · rintro ⟨raw, htarget, hraw | hraw⟩
    · exact ⟨p.exe, .inl rfl, raw, htarget, hraw⟩
    · exact ⟨p.cwd, .inr rfl, raw, htarget, hraw⟩

theorem mem_openFiles_iff (fds : List (String × Option String)) {target : String}
    (habsolute : isAbsolute target = true) :
    target ∈ openFiles fds ↔
      ∃ raw name, target = posix raw ∧ (name, some raw) ∈ fds ∧ startswith name "." = false := by
  simp only [openFiles, mem_filterMap, mem_map, mem_filter, procLink_eq_some_iff habsolute,
    Bool.not_eq_true']
  constructor
  · rintro ⟨raw?, ⟨⟨name, raw?⟩, ⟨hfd, hname⟩, rfl⟩, raw, htarget, rfl⟩
    exact ⟨raw, name, htarget, hfd, hname⟩
  · rintro ⟨raw, name, htarget, hfd, hname⟩
    exact ⟨some raw, ⟨(name, some raw), ⟨hfd, hname⟩, rfl⟩, raw, htarget, rfl⟩

theorem linkRoot_iff (p : Proc) (target : String) :
    LinkRoot p target ↔
      (∃ raw, target = posix raw ∧ (p.exe = some raw ∨ p.cwd = some raw)) ∨
        ∃ fds, p.fds = some fds ∧ ∃ raw name, target = posix raw ∧ (name, some raw) ∈ fds ∧
          startswith name "." = false := by
  constructor
  · rintro ⟨raw, htarget, hexe | hcwd | ⟨fds, name, hfds, hfd, hname⟩⟩
    · exact .inl ⟨raw, htarget, .inl hexe⟩
    · exact .inl ⟨raw, htarget, .inr hcwd⟩
    · exact .inr ⟨fds, hfds, raw, name, htarget, hfd, hname⟩
  · rintro (⟨raw, htarget, hexe | hcwd⟩ | ⟨fds, hfds, raw, name, htarget, hfd, hname⟩)
    · exact ⟨raw, htarget, .inl hexe⟩
    · exact ⟨raw, htarget, .inr (.inl hcwd)⟩
    · exact ⟨raw, htarget, .inr (.inr ⟨fds, name, hfds, hfd, hname⟩)⟩

/-- **What the walk of a process finds.** -/
theorem mem_walkProc_iff (u : Unicode) (storeDir : String) (p : Proc) {target : String}
    (habsolute : isAbsolute target = true) :
    target ∈ walkProc u storeDir p ↔ SeenProc u storeDir p target := by
  have hmaps : ∀ lines : List String, target ∈ lines.filterMap (mapsPath u) ↔
      ∃ line ∈ lines, SeenMapping u line target := by
    intro lines
    simp only [mem_filterMap, mapsPath_eq_some_iff, SeenMapping]
  rw [walkProc, mem_append, mem_links_iff p habsolute, SeenProc, linkRoot_iff, or_assoc]
  cases hfds : p.fds with
  | none => simp
  | some fds =>
    cases hlines : p.maps with
    | none => simp [mem_openFiles_iff fds habsolute]
    | some lines =>
      cases henviron : p.environ with
      | none => simp [mem_openFiles_iff fds habsolute, hmaps, EnvironRoot, henviron]
      | some environ =>
        simp [mem_openFiles_iff fds habsolute, hmaps, EnvironRoot, henviron]

/-- **The walks find exactly what is seen.** -/
theorem mem_findings_iff (u : Unicode) (d : Disk) (m : Machine) (target : String) :
    target ∈ d.walkStable.targets ∪
        (walkVolatile u (m.walk u d.storeDir) m.temproots).1.toFinset ↔
      Seen u d m target := by
  obtain ⟨hvolatile, -⟩ := walkVolatile_spec u (m.walk u d.storeDir) m.temproots
  have hruntime : inStore d.storeDir target = true →
      (target ∈ walkRuntimeRoots u d.storeDir m ↔
        (∃ p ∈ m.procs, isProcess p = true ∧ SeenProc u d.storeDir p target) ∨
          SettingRoot u m target) := by
    intro hin
    simp only [walkRuntimeRoots, mem_append, mem_flatMap, mem_filter,
      mem_walkProc_iff u d.storeDir _ (d.isAbsolute_of_inStore hin), mem_filterMap,
      SettingRoot, and_assoc]
  have htemp : (∃ entry ∈ m.temproots.entries, target ∈ m.temproots.seeds u m.pid entry) ↔
      SeenTemp u m target := by
    simp only [mem_seeds_iff, SeenTemp]
  rw [Finset.mem_union, mem_toFinset, hvolatile]
  constructor
  · rintro (hstable | ⟨hin, hroot⟩)
    · obtain ⟨hin, hroot⟩ := (mem_targets_walkStable_iff d target).1 hstable
      exact ⟨hin, .inl hroot⟩
    · refine ⟨hin, .inr ?_⟩
      rcases hroot with hroot | hroot
      · exact ((hruntime hin).1 hroot).imp_right .inl
      · exact .inr (.inr (htemp.1 hroot))
  · rintro ⟨hin, hstable | hproc | hsetting | hroot⟩
    · exact .inl ((mem_targets_walkStable_iff d target).2 ⟨hin, hstable⟩)
    · exact .inr ⟨hin, .inl ((hruntime hin).2 (.inl hproc))⟩
    · exact .inr ⟨hin, .inl ((hruntime hin).2 (.inr hsetting))⟩
    · exact .inr ⟨hin, .inr (htemp.2 hroot)⟩

/-! ## Whether the objects are protected -/

/-- The first refresh of a tracker over what is on the machine. -/
def mirror (u : Unicode) (d : Disk) (m : Machine) (db : Db) (now : Nat) :
    Except Call (Finset String) :=
  (refresh d.walkStable (walkVolatile u (m.walk u d.storeDir) m.temproots).1.toFinset now none db
    .new).1

theorem mirror_eq (u : Unicode) (d : Disk) (m : Machine) (db : Db) (now : Nat) :
    mirror u d m db now = .ok (liveSet db.validPaths.rows (d.walkStable.targets ∪
      (walkVolatile u (m.walk u d.storeDir) m.temproots).1.toFinset)) := by
  have hquery : ∀ volatile, queryLiveSet (db.reconciled d.walkStable) volatile =
      liveSet db.validPaths.rows (d.walkStable.targets ∪ volatile) := by
    intro volatile
    rw [queryLiveSet, targets_reconciled]
    rfl
  have houtcome := refresh_outcome d.walkStable
    (walkVolatile u (m.walk u d.storeDir) m.temproots).1.toFinset now none db .new
  rw [mirror]
  generalize hresult : refresh d.walkStable
    (walkVolatile u (m.walk u d.storeDir) m.temproots).1.toFinset now none db .new = result
    at houtcome
  cases houtcome with
  | early call hraises => cases hraises
  | abort call hraises => cases hraises
  | again _ _ hfingerprint => cases hfingerprint
  | unsaved hraises => cases hraises
  | answer => rw [hquery]

/-- What can be reached from a row, over references, derivers and their references. -/
def Reaches (rows : Rows) (a b : Nat) : Prop := ReflTransGen (fun a b => b ∈ arms rows a) a b

/-- **Every root protects its object**, and all that can be reached from it. -/
def Protects (u : Unicode) (d : Disk) (m : Machine) (rows : Rows) (live : Finset String) : Prop :=
  ∀ target, Named u d m target → ∀ row ∈ rows, Inside target row.2.path →
    ∀ row' ∈ rows, Reaches rows row.1 row'.1 → row'.2.path ∈ live

/-- Every object that a root names, or points into, can be reached from one that a seen root
names by its own path. -/
def Covered (u : Unicode) (d : Disk) (m : Machine) (rows : Rows) : Prop :=
  ∀ target, Named u d m target → ∀ row ∈ rows, Inside target row.2.path →
    ∃ seed ∈ rows, Seen u d m seed.2.path ∧ Reaches rows seed.1 row.1

theorem mem_live_iff (u : Unicode) (d : Disk) (m : Machine) {rows : Rows}
    (hunique : (rows.map (·.2.path)).Nodup) {row : Nat × ValidPath} (hrow : row ∈ rows) :
    row.2.path ∈ liveSet rows (d.walkStable.targets ∪
        (walkVolatile u (m.walk u d.storeDir) m.temproots).1.toFinset) ↔
      ∃ seed ∈ rows, Seen u d m seed.2.path ∧ Reaches rows seed.1 row.1 := by
  rw [mem_liveSet]
  constructor
  · rintro ⟨row', hrow', hpath, a, ha, hreach⟩
    -- a path has one row
    obtain rfl := inj_on_of_nodup_map hunique hrow' hrow hpath
    obtain ⟨seed, hseed, rfl⟩ := mem_map.1 ha
    obtain ⟨hseed, hroot⟩ := mem_filter.1 hseed
    exact ⟨seed, hseed, (mem_findings_iff u d m _).1 (of_decide_eq_true hroot), hreach⟩
  · rintro ⟨seed, hseed, hseen, hreach⟩
    have hroot := (mem_findings_iff u d m _).2 hseen
    exact ⟨row, hrow, rfl, seed.1,
      mem_map_of_mem (mem_filter.2 ⟨hseed, decide_eq_true hroot⟩), hreach⟩

theorem protects_iff_covered (u : Unicode) (d : Disk) (m : Machine) {rows : Rows}
    (hunique : (rows.map (·.2.path)).Nodup) :
    Protects u d m rows (liveSet rows (d.walkStable.targets ∪
        (walkVolatile u (m.walk u d.storeDir) m.temproots).1.toFinset)) ↔
      Covered u d m rows := by
  constructor
  · intro h target hnamed row hrow hinside
    exact (mem_live_iff u d m hunique hrow).1 (h target hnamed row hrow hinside row hrow .refl)
  · intro h target hnamed row hrow hinside row' hrow' hreach
    obtain ⟨seed, hseed, hseen, hreach'⟩ := h target hnamed row hrow hinside
    exact (mem_live_iff u d m hunique hrow').2 ⟨seed, hseed, hseen, hreach'.trans hreach⟩

/-- **Every root protects its object exactly when the objects are covered**: for every set of
links, files, processes, settings and temporary roots, and every database. -/
theorem protects_iff (u : Unicode) (d : Disk) (m : Machine) (db : Db) (now : Nat)
    (hunique : (db.validPaths.rows.map (·.2.path)).Nodup) :
    ∃ live, mirror u d m db now = .ok live ∧
      (Protects u d m db.validPaths.rows live ↔ Covered u d m db.validPaths.rows) :=
  ⟨_, mirror_eq u d m db now, protects_iff_covered u d m hunique⟩

/-! ## Examples -/

def bareDisk : Disk where
  storeDir := "/nix/store"
  absolute := by decide
  stateDir := "/nix/var/nix"
  gcroots := []
  profiles := []
  readlink := fun _ => none
  names := by simp [leaves]
  links := by simp [leaves]

/-- A shell, the library it refers to, and its deriver. -/
def shell : String := "/nix/store/00000000000000000000000000000000-bash-5.2"

def libc : String := "/nix/store/11111111111111111111111111111111-glibc-2.40"

def shellDrv : String := "/nix/store/22222222222222222222222222222222-bash-5.2.drv"

theorem noRoots_apart : (([] : List (String × (String × String))).map Prod.fst).Nodup :=
  nodup_nil

def shellRow : Nat × ValidPath := (1, { path := shell, deriver := some shellDrv, refs := [2] })

def threeObjects : Db where
  roots := ⟨[], noRoots_apart⟩
  validPaths :=
    { rows := [shellRow, (2, { path := libc, deriver := none, refs := [] }),
        (3, { path := shellDrv, deriver := none, refs := [] })]
      next := 4
      nodup := by decide
      below := by decide
      pos := by decide }
  snapshot := ∅

def oneProcess (exe environ : String) : Machine where
  procs := [{
    name := "42"
    exe := some exe
    cwd := some "/"
    fds := some [("0", some "/dev/null")]
    maps := some []
    environ := some environ }]
  settings := [none, none, none]
  temproots := emptyDir
  pid := 7
  canUnlink := true

/-- A process whose environment names a path inside the shell. -/
def searching : Machine := oneProcess "/usr/bin/env" ("PATH=" ++ shell ++ "/bin:/usr/bin")

/-- **The environment names a path inside the shell**, and the shell, what it refers to and its
deriver are protected. -/
theorem protects_environ :
    ∃ live, mirror Unicode.ascii bareDisk searching threeObjects 0 = .ok live ∧
      {shell, libc, shellDrv} ⊆ live ∧
      Protects Unicode.ascii bareDisk searching threeObjects.validPaths.rows live := by
  obtain ⟨live, hlive, hiff⟩ := protects_iff Unicode.ascii bareDisk searching threeObjects 0
    (by decide)
  have hthree : (mirror Unicode.ascii bareDisk searching threeObjects 0).toOption.any
      ({shell, libc, shellDrv} ⊆ ·) = true := by decide +kernel
  rw [hlive] at hthree
  refine ⟨live, hlive, of_decide_eq_true hthree, hiff.2 fun target _ row hrow _ => ?_⟩
  have hseen : Seen Unicode.ascii bareDisk searching shell :=
    (mem_findings_iff ..).1 (by decide +kernel)
  refine ⟨shellRow, mem_cons_self, hseen, ?_⟩
  have harms : ∀ row ∈ threeObjects.validPaths.rows,
      row.1 = 1 ∨ row.1 ∈ arms threeObjects.validPaths.rows 1 := by decide +kernel
  rcases harms row hrow with hself | harm
  · rw [hself]
    exact .refl
  · exact .single harm

/-- **A process that runs a shell from the store does not protect it**: its `exe` leads to a path
inside the object, and the query asks for that path. -/
theorem running_shell_unprotected :
    ∃ live, mirror Unicode.ascii bareDisk (oneProcess (shell ++ "/bin/bash") "") threeObjects 0 =
        .ok live ∧
      ¬Protects Unicode.ascii bareDisk (oneProcess (shell ++ "/bin/bash") "")
        threeObjects.validPaths.rows live := by
  refine ⟨_, mirror_eq .., fun hprotects => ?_⟩
  have hnamed : Named Unicode.ascii bareDisk (oneProcess (shell ++ "/bin/bash") "")
      (shell ++ "/bin/bash") :=
    .inr (.inl ⟨_, mem_singleton_self _, by decide, .inl
      ⟨shell ++ "/bin/bash", by decide +kernel, .inl rfl⟩⟩)
  have hlive := hprotects _ hnamed shellRow mem_cons_self (.inr (by decide +kernel)) shellRow
    mem_cons_self .refl
  revert hlive
  decide +kernel

end Pynixd.Liveness
