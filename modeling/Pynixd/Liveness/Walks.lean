import Pynixd.Liveness.TempRoots
import Pynixd.Liveness.Tracker

/-!
# Where the roots are read

The walks of `pynixd/liveness.py`: the links and files under `gcroots` and `profiles`, the links,
open files, mapped files and environment of the processes, and three settings of the kernel.  Each
walk spells what it finds in its own way, and the closure query compares it letter by letter.

* `leaves`, `assignments`, `walkStable` — the stable trees;
* `mapsPath` — the regular expression for a line of `maps`, and what it takes;
* `environPaths` — the regular expression for an environment: **a path inside a store object is
  cut down to the object**;
* `walkRuntimeRoots` — `/proc`, where a listing that is refused ends the walk of its process.
-/

namespace Pynixd.Liveness

open List LiveSet

/-! ## Paths -/

/-- `str(Path(raw))`: no empty and no `.` segments. -/
def posix (raw : String) : String :=
  let segments := (raw.toList.splitOn '/').filter fun s => s ≠ [] ∧ s ≠ ['.']
  let root :=
    match (raw.toList.takeWhile (· = '/')).length with
    | 0 => []
    | 2 => ['/', '/']
    | _ => ['/']
  match root ++ ['/'].intercalate segments with
  | [] => "."
  | text => String.ofList text

def isAbsolute (path : String) : Bool := startswith path "/"

/-- A path of this store's directory. -/
def inStore (storeDir path : String) : Bool := startswith path (storeDir ++ "/")

/-! ## The stable trees -/

inductive Tree where
  /-- A directory; one that cannot be listed has no entries. -/
  | directory (entries : List (String × Tree))
  /-- A link, and where it leads unless it went away underneath the walk. -/
  | symlink (target : Option String)
  | regular
  | other

/-- What the walk looks at: a link or a plain file, in its directory. -/
structure Leaf where
  parent : String
  name : String
  /-- The target of a link; `none` for a plain file. -/
  target : Option String

def Leaf.path (leaf : Leaf) : String := leaf.parent ++ "/" ++ leaf.name

/-- `link.parent / target`, or the target itself when it is absolute. -/
def Leaf.resolve (leaf : Leaf) (target : String) : String :=
  if isAbsolute target then target else posix (leaf.parent ++ "/" ++ target)

mutual

/-- `_walk_tree`: what it looks at, in its order. -/
def leaves (tree : String) : List (String × Tree) → List Leaf
  | [] => []
  | (name, node) :: entries => nodeLeaves tree name node ++ leaves tree entries

def nodeLeaves (tree name : String) : Tree → List Leaf
  | .directory entries => leaves (tree ++ "/" ++ name) entries
  | .symlink (some target) => [⟨tree, name, some target⟩]
  | .symlink none => []
  | .regular => [⟨tree, name, none⟩]
  | .other => []

end

/-- The stable trees, and where every link of the file system leads. -/
structure Disk where
  storeDir : String
  absolute : isAbsolute storeDir = true
  stateDir : String
  gcroots : List (String × Tree)
  profiles : List (String × Tree)
  /-- `os.readlink`, where there is a link. -/
  readlink : String → Option String
  names : ∀ leaf ∈ leaves (stateDir ++ "/gcroots") gcroots ++
    leaves (stateDir ++ "/profiles") profiles, '/' ∉ leaf.name.toList
  links : ∀ leaf ∈ leaves (stateDir ++ "/gcroots") gcroots ++
    leaves (stateDir ++ "/profiles") profiles, readlink leaf.path = leaf.target

def isStoreBasename (name : String) : Bool :=
  ((name.toList.take 32).all fun c => c.isDigit || c.isLower) &&
    name.toList.length > 32 && name.toList[32]? = some '-'

namespace Disk

variable (d : Disk)

/-- Everything under the stable trees, with the kind of its tree. -/
def stableLeaves : List (Leaf × String) :=
  (leaves (d.stateDir ++ "/gcroots") d.gcroots).map (·, "gcroot") ++
    (leaves (d.stateDir ++ "/profiles") d.profiles).map (·, "profile")

/-- `_walk_link`, and the plain files: what is written under which link. -/
def rootOf (leaf : Leaf) : Option (String × String) :=
  match leaf.target with
  | none =>
    if isStoreBasename leaf.name then some (leaf.path, d.storeDir ++ "/" ++ leaf.name) else none
  | some raw =>
    let target := posix raw
    if isAbsolute target && inStore d.storeDir target then some (leaf.path, target)
    else
      -- one indirection, whose own target need not exist
      match d.readlink (leaf.resolve target) with
      | none => none
      | some raw =>
        let second := posix raw
        if isAbsolute second && inStore d.storeDir second then
          some (leaf.resolve target, second)
        else none

/-- The assignments to `found`, in the order of the walk. -/
def assignments : List (String × (String × String)) :=
  d.stableLeaves.filterMap fun item => (d.rootOf item.1).map fun root =>
    (root.1, (root.2, item.2))

def walkStable : Links where
  items := Dict.update [] d.assignments
  apart := Dict.nodup_keys_update (by simp) d.assignments

end Disk

/-! ## The processes -/

/-- The words of a text, and the one that is not finished. -/
def wordsFrom (isSpace : Char → Bool) (word : List Char) : List Char → List (List Char)
  | [] => if word = [] then [] else [word]
  | c :: rest =>
    if isSpace c then (if word = [] then [] else [word]) ++ wordsFrom isSpace [] rest
    else wordsFrom isSpace (word ++ [c]) rest

def words (isSpace : Char → Bool) : List Char → List (List Char) := wordsFrom isSpace []

/-- `_MAPS_PATH`: five fields and a path, with no blank in it. -/
def mapsPath (u : Unicode) (line : String) : Option String :=
  match (words u.isSpace line.toList).drop 5 with
  | ['/' :: c :: rest] => some (String.ofList ('/' :: c :: rest))
  | _ => none

/-- `[0-9a-z]`. -/
def isHashChar (c : Char) : Bool := c.isDigit || c.isLower

/-- `[0-9a-zA-Z+\-._?=]`. -/
def isNameChar (c : Char) : Bool :=
  c.isAlphanum || c = '+' || c = '-' || c = '.' || c = '_' || c = '?' || c = '='

/-- The match of the pattern at the head of a text. -/
def environMatch (storeDir : String) (text : List Char) : Option (List Char) :=
  let root := storeDir.toList ++ ['/']
  if root.isPrefixOf text then
    match text.drop root.length with
    | c :: rest => if isHashChar c then some (root ++ (c :: rest).takeWhile isNameChar) else none
    | [] => none
  else none

/-- `pattern.findall`: the matches from left to right, where the characters of a match are
skipped. -/
def findall (storeDir : String) : Nat → List Char → List (List Char)
  | _, [] => []
  | skip + 1, _ :: rest => findall storeDir skip rest
  | 0, c :: rest =>
    match environMatch storeDir (c :: rest) with
    | some found => found :: findall storeDir (found.length - 1) rest
    | none => findall storeDir 0 rest

def environPaths (storeDir : String) (environ : String) : List String :=
  (findall storeDir 0 environ.toList).map String.ofList

/-- A directory `/proc/<pid>`.  What is refused, or has gone, is `none`. -/
structure Proc where
  name : String
  exe : Option String
  cwd : Option String
  /-- The listing of `fd`, with the target of each. -/
  fds : Option (List (String × Option String))
  maps : Option (List String)
  environ : Option String

/-- `_walk_proc_link`. -/
def procLink : Option String → Option String
  | none => none
  | some raw => if isAbsolute (posix raw) then some (posix raw) else none

/-- The loop over `fd`. -/
def openFiles (fds : List (String × Option String)) : List String :=
  ((fds.filter fun fd => !startswith fd.1 ".").map Prod.snd).filterMap procLink

/-- `_walk_proc`: a listing that is refused ends it. -/
def walkProc (u : Unicode) (storeDir : String) (p : Proc) : List String :=
  [p.exe, p.cwd].filterMap procLink ++
    match p.fds with
    | none => []
    | some fds =>
      openFiles fds ++
        match p.maps with
        | none => []
        | some lines =>
          lines.filterMap (mapsPath u) ++
            match p.environ with
            | none => []
            | some environ => environPaths storeDir environ

/-- What `walk_volatile` reads. -/
structure Machine where
  procs : List Proc
  /-- `modprobe`, `fbsplash` and `poweroff_cmd` of the kernel. -/
  settings : List (Option String)
  temproots : Dir
  pid : Nat
  canUnlink : Bool

/-- `name.isdigit()`. -/
def isProcess (p : Proc) : Bool := p.name.toList ≠ [] && p.name.toList.all (·.isDigit)

/-- The stripped text of a setting, unless it is empty. -/
def settingPath (u : Unicode) : Option String → Option String
  | none => none
  | some content =>
    if strip u content.toList = [] then none else some (String.ofList (strip u content.toList))

def walkRuntimeRoots (u : Unicode) (storeDir : String) (m : Machine) : List String :=
  (m.procs.filter isProcess).flatMap (walkProc u storeDir) ++
    m.settings.filterMap (settingPath u)

/-- The walk of the temporary roots behind it. -/
def Machine.walk (u : Unicode) (storeDir : String) (m : Machine) : Walk where
  storeDir := storeDir
  pid := m.pid
  canUnlink := m.canUnlink
  runtimeRoots := walkRuntimeRoots u storeDir m

/-! ## What the stable walk finds -/

theorem name_eq_of_path_eq {parent name parent' name' : String}
    (h : parent ++ "/" ++ name = parent' ++ "/" ++ name') (hname : '/' ∉ name.toList)
    (hname' : '/' ∉ name'.toList) : name = name' := by
  have hlast : ∀ (l n : List Char), '/' ∉ n →
      ((l ++ '/' :: n).reverse.takeWhile (· ≠ '/')).reverse = n := by
    intro l n hn
    rw [reverse_append, reverse_cons, append_assoc, takeWhile_append_of_pos]
    · simp
    · intro c hc
      simpa using ne_of_mem_of_not_mem (mem_reverse.1 hc) hn
  have hchars := congrArg String.toList h
  have hsplit : parent.toList ++ '/' :: name.toList = parent'.toList ++ '/' :: name'.toList := by
    simpa using hchars
  have hsame := congrArg (fun l : List Char => (l.reverse.takeWhile (· ≠ '/')).reverse) hsplit
  simp only [hlast _ _ hname, hlast _ _ hname'] at hsame
  exact String.ext hsame

namespace Disk

variable {d : Disk}

theorem mem_leaves_of_stable {leaf : Leaf} {kind : String} (h : (leaf, kind) ∈ d.stableLeaves) :
    leaf ∈ leaves (d.stateDir ++ "/gcroots") d.gcroots ++
      leaves (d.stateDir ++ "/profiles") d.profiles := by
  rcases mem_append.1 h with h | h
  · obtain ⟨leaf', hleaf, heq⟩ := mem_map.1 h
    cases heq
    exact mem_append_left _ hleaf
  · obtain ⟨leaf', hleaf, heq⟩ := mem_map.1 h
    cases heq
    exact mem_append_right _ hleaf

/-- Where a key of `found` leads: a link to its target, a plain file to its name. -/
def Leads (d : Disk) (key target : String) : Prop :=
  (∃ raw, d.readlink key = some raw ∧ target = posix raw) ∨
    d.readlink key = none ∧ ∃ parent name, key = parent ++ "/" ++ name ∧
      '/' ∉ name.toList ∧ target = d.storeDir ++ "/" ++ name

theorem Leads.unique {key target target' : String} (h : d.Leads key target)
    (h' : d.Leads key target') : target = target' := by
  rcases h with ⟨raw, hraw, rfl⟩ | ⟨hnone, parent, name, rfl, hname, rfl⟩
  · rcases h' with ⟨raw', hraw', rfl⟩ | ⟨hnone, -⟩
    · rw [hraw] at hraw'
      cases hraw'
      rfl
    · rw [hraw] at hnone
      cases hnone
  · rcases h' with ⟨raw', hraw', rfl⟩ | ⟨-, parent', name', hkey, hname', rfl⟩
    · rw [hnone] at hraw'
      cases hraw'
    · rw [name_eq_of_path_eq hkey hname hname']

theorem leads_of_rootOf {leaf : Leaf} {kind key target : String}
    (hleaf : (leaf, kind) ∈ d.stableLeaves) (h : d.rootOf leaf = some (key, target)) :
    d.Leads key target := by
  have hlink := d.links leaf (mem_leaves_of_stable hleaf)
  unfold rootOf at h
  cases htarget : leaf.target with
  | none =>
    rw [htarget] at h hlink
    split_ifs at h
    cases h
    exact .inr ⟨hlink, leaf.parent, leaf.name, rfl,
      d.names leaf (mem_leaves_of_stable hleaf), rfl⟩
  | some raw =>
    rw [htarget] at h hlink
    simp only at h
    split_ifs at h
    · cases h
      exact .inl ⟨raw, hlink, rfl⟩
    · cases hsecond : d.readlink (leaf.resolve (posix raw)) with
      | none =>
        rw [hsecond] at h
        cases h
      | some raw' =>
        rw [hsecond] at h
        simp only at h
        split_ifs at h
        cases h
        exact .inl ⟨raw', hsecond, rfl⟩

/-- **Every root of the stable walk stays in the table**: two that are written under one key
have one target. -/
theorem mem_targets_walkStable {target : String} :
    target ∈ d.walkStable.targets ↔
      ∃ leaf kind key, (leaf, kind) ∈ d.stableLeaves ∧ d.rootOf leaf = some (key, target) := by
  have hassigned : ∀ key target kind, (key, (target, kind)) ∈ d.assignments ↔
      ∃ leaf, (leaf, kind) ∈ d.stableLeaves ∧ d.rootOf leaf = some (key, target) := by
    intro key target kind
    simp [assignments, mem_filterMap]
  rw [mem_targets]
  constructor
  · rintro ⟨key, kind, hget⟩
    rcases Dict.mem_update (Dict.mem_of_get?_eq_some hget) with hnil | hin
    · cases hnil
    · obtain ⟨leaf, hleaf, hroot⟩ := (hassigned key target kind).1 hin
      exact ⟨leaf, kind, key, hleaf, hroot⟩
  · rintro ⟨leaf, kind, key, hleaf, hroot⟩
    have hin := (hassigned key target kind).2 ⟨leaf, hleaf, hroot⟩
    have hkey : key ∈ (Dict.update [] d.assignments).map Prod.fst :=
      Dict.mem_keys_update.2 (.inr (mem_map_of_mem hin))
    obtain ⟨⟨target', kind'⟩, hget⟩ := Option.isSome_iff_exists.1 (Dict.get?_isSome_iff.2 hkey)
    rcases Dict.mem_update (Dict.mem_of_get?_eq_some hget) with hnil | hin'
    · cases hnil
    · obtain ⟨leaf', hleaf', hroot'⟩ := (hassigned key target' kind').1 hin'
      obtain rfl := (leads_of_rootOf hleaf' hroot').unique (leads_of_rootOf hleaf hroot)
      exact ⟨key, kind', hget⟩

end Disk

/-! ## What the walk of a process finds -/

/-- A line of `maps`: five fields, a blank, and the path that is mapped. -/
def Maps (u : Unicode) (line path : String) : Prop :=
  ∃ head blank, line.toList = head ++ blank :: path.toList ∧ u.isSpace blank = true ∧
    (words u.isSpace head).length = 5 ∧ isAbsolute path = true

theorem mapsPath_eq_some_iff {u : Unicode} {line path : String} :
    mapsPath u line = some path ↔
      (∃ fields, fields.length = 5 ∧ words u.isSpace line.toList = fields ++ [path.toList]) ∧
        isAbsolute path = true ∧ path ≠ "/" := by
  constructor
  · intro h
    unfold mapsPath at h
    split at h
    next c rest hdrop =>
      cases h
      have hlength := congrArg List.length hdrop
      rw [length_drop, length_singleton] at hlength
      refine ⟨⟨(words u.isSpace line.toList).take 5, ?_, ?_⟩, ?_, ?_⟩
      · rw [length_take]
        omega
      · rw [String.toList_ofList, ← hdrop, take_append_drop]
      · simp [isAbsolute, startswith]
      · intro hslash
        have hchars := congrArg String.toList hslash
        simp at hchars
    next => cases h
  · rintro ⟨⟨fields, hfive, hwords⟩, habsolute, hroot⟩
    obtain ⟨rest, hpath⟩ : ∃ rest, path.toList = '/' :: rest := by
      obtain ⟨rest, hrest⟩ := isPrefixOf_iff_prefix.1 habsolute
      exact ⟨rest, hrest.symm⟩
    cases rest with
    | nil => exact absurd (String.ext (by rw [hpath]; rfl)) hroot
    | cons c rest =>
      have hlast : (words u.isSpace line.toList).drop 5 = ['/' :: c :: rest] := by
        rw [hwords, drop_left' hfive, hpath]
      rw [mapsPath, hlast]
      change some (String.ofList ('/' :: c :: rest)) = some path
      rw [← hpath, String.ofList_toList]

end Pynixd.Liveness
