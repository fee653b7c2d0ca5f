import Mathlib
import Pynixd.Lib.Runs
import Pynixd.Protocol.DerivedPath
import Pynixd.Protocol.Requests

/-!
# Temporary roots: who writes them and who reads them

`TempRoots` of `pynixd/temp_roots.py` writes the roots of a client session, and
`walk_volatile` of `pynixd/liveness.py` reads the directory for the collector.  The two meet in
three conventions: the name of a file, the lock on it, and the records inside.

* `owns_of_run` — the writer: an open session that has added a root owns a file under its own
  name, holds its `flock`, and **the file holds the records of its roots, in order**;
* `intParses_fileName` — the names do not: **no file of a session has a name that the reader
  takes for a process**;
* `walkVolatile_agrees_iff` — the reader sees the roots of the open sessions exactly when
  somebody else keeps each of them.
-/

namespace Pynixd.Liveness

open List Runs

/-! ## Text -/

/-- What `str` and `bytes` know of Unicode, as far as the reader asks. -/
structure Unicode where
  isSpace : Char → Bool
  isDecimal : Char → Bool
  /-- `bytes.decode(errors="replace")`. -/
  decodeReplace : Bytes → String
  isSpace_ascii : ∀ c : Char, c.toNat < 128 →
    isSpace c = (c = ' ' || 9 ≤ c.toNat && c.toNat ≤ 13 || 28 ≤ c.toNat && c.toNat ≤ 31)
  isDecimal_ascii : ∀ c : Char, c.toNat < 128 → isDecimal c = c.isDigit
  /-- Text that was encoded is decoded to itself. -/
  decode_encode : ∀ s, decodeReplace (encodeUtf8 s) = s

/-- The digits of an integer literal behind the first: an underscore may stand between two. -/
def digitTail (u : Unicode) : List Char → Bool
  | [] => true
  | '_' :: c :: rest => u.isDecimal c && digitTail u rest
  | c :: rest => u.isDecimal c && digitTail u rest

def strip (u : Unicode) (text : List Char) : List Char :=
  ((text.dropWhile u.isSpace).reverse.dropWhile u.isSpace).reverse

def digits (u : Unicode) : List Char → Bool
  | [] => false
  | c :: rest => u.isDecimal c && digitTail u rest

/-- Whether `int(text)` returns. -/
def intParses (u : Unicode) (text : String) : Bool :=
  match strip u text.toList with
  | '+' :: rest => digits u rest
  | '-' :: rest => digits u rest
  | rest => digits u rest

/-! ## The directory -/

/-- A file, by what the two sides look at. -/
structure Inode where
  regular : Bool
  /-- Whether `open` with `O_RDWR` is allowed. -/
  accessible : Bool
  content : Bytes
  /-- The process that holds the record lock of `fcntl`. -/
  recordLock : Option Nat
  /-- The session that holds the lock of `flock`. -/
  flock : Option Nat
  deriving DecidableEq

/-- `<state>/temproots`: the files, and the names that lead to them. -/
structure Dir where
  inodes : List Inode
  entries : List (String × Nat)
  names : (entries.map Prod.fst).Nodup

/-! ## The writer -/

structure Session where
  pid : Nat
  /-- The number that `next(_names)` gave. -/
  number : Nat
  fd : Option Nat
  disabled : Bool
  closed : Bool
  /-- The paths for which `add` has returned with the root written. -/
  added : List StorePath

def fileName (pid number : Nat) : String := "pynixd-" ++ toString pid ++ "-" ++ toString number

def Session.name (s : Session) : String := fileName s.pid s.number

structure World where
  dir : Dir
  sessions : List Session

def World.start (dir : Dir) : World := ⟨dir, []⟩

/-- `root.encode() + b"\0"`. -/
def encodeRoot (storeDir : String) (path : StorePath) : Bytes :=
  encodeUtf8 (path.str storeDir) ++ [0]

/-- `_create`: whatever has the name goes, and the new file belongs to the session. -/
def Dir.create (d : Dir) (name : String) (owner : Nat) : Dir where
  inodes := d.inodes ++ [⟨true, true, [], none, some owner⟩]
  entries := Dict.set (Dict.pop d.entries name) name d.inodes.length
  names := Dict.nodup_keys_set (Dict.nodup_keys_pop d.names name) ..

/-- `os.write` at the end of the session's own descriptor. -/
def Dir.append (d : Dir) (ino : Nat) (bytes : Bytes) : Dir :=
  { d with inodes := d.inodes.modify ino fun f => { f with content := f.content ++ bytes } }

/-- `path.unlink(missing_ok=True)`. -/
def Dir.unlink (d : Dir) (name : String) : Dir where
  inodes := d.inodes
  entries := Dict.pop d.entries name
  names := Dict.nodup_keys_pop d.names name

/-- The lock that a closed descriptor gives back. -/
def Dir.unlock (d : Dir) (ino : Nat) : Dir :=
  { d with inodes := d.inodes.modify ino fun f => { f with flock := none } }

/-- `_ensure_file`: the descriptor of the session, and the directory with its file. -/
def ensureFile (d : Dir) (i : Nat) (s : Session) : Nat × Dir :=
  match s.fd with
  | some ino => (ino, d)
  | none => (d.inodes.length, d.create s.name i)

/-- What the collector answers to one round of `_add_or_raise`. -/
structure Attempt where
  told : Bool
  free : Bool

def retryLimit : Nat := 100

/-- Whether `add` writes the root: the collector does not run, or takes the root over its
socket, or goes away within the rounds. -/
def written (free : Bool) (attempts : List Attempt) : Bool :=
  free || (attempts.take retryLimit).any fun a => a.told || a.free

inductive Event where
  /-- `TempRoots(state)` in a process. -/
  | session (pid : Nat)
  /-- `add`, with the answers of the collector. -/
  | add (session : Nat) (path : StorePath) (free : Bool) (attempts : List Attempt)
  /-- An `OSError` inside `add`: the session holds nothing from now on. -/
  | disable (session : Nat)
  | close (session : Nat)

def World.setSession (w : World) (i : Nat) (s : Session) : World :=
  { w with sessions := w.sessions.set i s }

/-- `add`, of a session that is open and not disabled. -/
def add (storeDir : String) (w : World) (i : Nat) (s : Session) (path : StorePath)
    (writes : Bool) : World :=
  let (ino, d) := ensureFile w.dir i s
  if writes then
    { w with dir := d.append ino (encodeRoot storeDir path) }.setSession i
      { s with fd := some ino, added := s.added ++ [path] }
  else
    -- the collector took nothing in any round, and `RuntimeError` leaves `add`
    { w with dir := d }.setSession i { s with fd := some ino }

def close (w : World) (i : Nat) (s : Session) : World :=
  match s.fd with
  | none => w.setSession i { s with closed := true }
  | some ino =>
    { w with dir := (w.dir.unlink s.name).unlock ino }.setSession i
      { s with closed := true, fd := none }

def step (storeDir : String) (w : World) : Event → Option World
  | .session pid =>
    let number := (w.sessions.filter (·.pid = pid)).length
    some { w with sessions := w.sessions ++ [⟨pid, number, none, false, false, []⟩] }
  | .add i path free attempts =>
    match w.sessions[i]? with
    | none => none
    | some s =>
      if s.closed then none
      else if s.disabled then some w
      else some (add storeDir w i s path (written free attempts))
  | .disable i =>
    match w.sessions[i]? with
    | none => none
    | some s => if s.closed then none else some (w.setSession i { s with disabled := true })
  | .close i =>
    match w.sessions[i]? with
    | none => none
    | some s => if s.closed then none else some (close w i s)

/-! ## The reader -/

/-- What a run of the reader depends on. -/
structure Walk where
  storeDir : String
  pid : Nat
  /-- Whether a name of the directory can be unlinked. -/
  canUnlink : Bool
  /-- What `_walk_runtime_roots` has found in `/proc`. -/
  runtimeRoots : List String

/-- `bytes.split(b"\x00")`. -/
def splitNul : Bytes → List Bytes
  | [] => [[]]
  | b :: rest =>
    if b = 0 then [] :: splitNul rest
    else
      match splitNul rest with
      | [] => [[b]]
      | part :: parts => (b :: part) :: parts

/-- Whether `bytes.strip()` leaves something. -/
def nonBlank (part : Bytes) : Bool := part.any fun b => !(b = 32 || 9 ≤ b && b ≤ 13)

/-- The roots that a file seeds. -/
def records (u : Unicode) (content : Bytes) : List String :=
  ((splitNul content).filter nonBlank).map u.decodeReplace

/-- Whether `fcntl.lockf` is refused: a record lock of another process. -/
def Inode.refuses (f : Inode) (pid : Nat) : Bool := f.recordLock.any (· ≠ pid)

/-- `_seed_or_reap_temp_file`: whether the file was unlinked, and what it seeds. -/
def seedOrReap (u : Unicode) (walk : Walk) (d : Dir) (ino : Nat) (path : String) :
    (Bool × List String) × Dir :=
  match d.inodes[ino]? with
  | none => ((false, []), d)
  | some f =>
    if !f.regular then ((false, []), d)
    else if f.refuses walk.pid then ((false, records u f.content), d)
    else if Dict.get? d.entries path ≠ some ino then ((false, []), d)
    else if !walk.canUnlink then ((false, []), d)
    else
      -- the byte tells an owner that opened the file before that it is gone
      ((true, []),
        { d.unlink path with
          inodes := d.inodes.modify ino fun f => { f with content := 100 :: f.content.drop 1 } })

/-- Whether the reader opens a file of the listing. -/
def opens (u : Unicode) (name : String) (f : Inode) : Bool :=
  !startswith name "." && f.regular && intParses u name && f.accessible

/-- The state of `_walk_temp_roots_grouped`. -/
structure Walked where
  grouped : List (String × List String)
  reaped : Nat
  dir : Dir

/-- One entry of `_walk_temp_roots_grouped`. -/
def walkEntry (u : Unicode) (walk : Walk) (acc : Walked) (entry : String × Nat) : Walked :=
  if (acc.dir.inodes[entry.2]?).any (opens u entry.1) then
    let ((unlinked, seeds), d) := seedOrReap u walk acc.dir entry.2 entry.1
    if unlinked then { acc with reaped := acc.reaped + 1, dir := d }
    else if seeds = [] then { acc with dir := d }
    else { acc with grouped := Dict.set acc.grouped entry.1 seeds, dir := d }
  else acc

def walkTempRootsGrouped (u : Unicode) (walk : Walk) (d : Dir) : Walked :=
  d.entries.foldl (walkEntry u walk) ⟨[], 0, d⟩

/-- `walk_volatile`: the roots, and the directory it leaves. -/
def walkVolatile (u : Unicode) (walk : Walk) (d : Dir) : List String × Dir :=
  let walked := walkTempRootsGrouped u walk d
  ((walk.runtimeRoots ++ walked.grouped.flatMap (·.2)).filter
    (startswith · (walk.storeDir ++ "/")), walked.dir)

/-! ## The names -/

theorem isSpace_letter (u : Unicode) : u.isSpace 'p' = false := by
  rw [u.isSpace_ascii 'p' (by decide)]
  decide

theorem strip_cons_letter (u : Unicode) (text : List Char) :
    ∃ rest, strip u ('p' :: text) = 'p' :: rest := by
  have hkeep : ('p' :: text).dropWhile u.isSpace = 'p' :: text := by
    rw [dropWhile_cons, isSpace_letter]
    rfl
  rw [strip, hkeep, reverse_cons, dropWhile_append]
  split_ifs
  · refine ⟨[], ?_⟩
    rw [dropWhile_cons, isSpace_letter]
    rfl
  · exact ⟨(List.dropWhile u.isSpace text.reverse).reverse, by simp⟩

theorem intParses_fileName (u : Unicode) (pid number : Nat) :
    intParses u (fileName pid number) = false := by
  obtain ⟨text, htext⟩ : ∃ text, (fileName pid number).toList = 'p' :: text := by
    simp only [fileName, String.toList_append]
    exact ⟨_, rfl⟩
  obtain ⟨rest, hrest⟩ := strip_cons_letter u text
  have hletter : u.isDecimal 'p' = false := by
    rw [u.isDecimal_ascii 'p' (by decide)]
    decide
  simp [intParses, htext, hrest, digits, hletter]

theorem notMem_toString_dash (n : Nat) : '-' ∉ (toString n).toList := by
  intro hin
  rw [Nat.toString_eq_repr, Nat.repr_eq_ofList_toDigits, String.toList_ofList] at hin
  have hdigit := Nat.isDigit_of_mem_toDigits (by decide) (by decide) hin
  revert hdigit
  decide

theorem fileName_inj {pid number pid' number' : Nat}
    (h : fileName pid number = fileName pid' number') : pid = pid' ∧ number = number' := by
  have hlist := congrArg String.toList h
  simp only [fileName, String.toList_append, append_assoc, append_cancel_left_eq] at hlist
  -- the first dash behind the common start ends the process number
  have hcut : ∀ n m : Nat, ((toString n).toList ++ ("-".toList ++ (toString m).toList)).takeWhile
      (· ≠ '-') = (toString n).toList := by
    intro n m
    rw [takeWhile_append_of_pos]
    · simp
    · intro c hc
      have hne : c ≠ '-' := fun e => notMem_toString_dash n (e ▸ hc)
      simpa using hne
  have hpid : (toString pid).toList = (toString pid').toList := by
    rw [← hcut pid number, ← hcut pid' number', hlist]
  rw [hpid] at hlist
  have hnumber := append_cancel_left (append_cancel_left hlist)
  rw [String.toList_inj] at hpid hnumber
  exact ⟨Nat.repr_inj.mp hpid, Nat.repr_inj.mp hnumber⟩

/-! ## What the writer keeps -/

variable {d d' : Dir} {f : Inode} {i ino j pid : Nat} {s t : Session} {storeDir : String}
  {u : Unicode} {w : World}

/-- **The file of a session**: under its name, with its `flock`, with its roots. -/
def Owns (storeDir : String) (d : Dir) (i : Nat) (s : Session) : Prop :=
  match s.fd with
  | none => s.added = []
  | some ino =>
    Dict.get? d.entries s.name = some ino ∧
      d.inodes[ino]? =
        some ⟨true, true, s.added.flatMap (encodeRoot storeDir), none, some i⟩

def World.ids (w : World) : List (Nat × Nat) := w.sessions.map fun s => (s.pid, s.number)

structure Inv (storeDir : String) (w : World) : Prop where
  owns : ∀ i s, w.sessions[i]? = some s → s.closed = false → Owns storeDir w.dir i s
  distinct : w.ids.Nodup
  counted : ∀ x ∈ w.ids, x.2 < (w.ids.filter (·.1 = x.1)).length

theorem inv_start (storeDir : String) (d : Dir) : Inv storeDir (.start d) where
  owns := by
    intro i s h
    cases h
  distinct := nodup_nil
  counted := by
    intro x h
    cases h

theorem Inv.name_ne (h : Inv storeDir w) (hs : w.sessions[i]? = some s)
    (ht : w.sessions[j]? = some t) (hij : i ≠ j) :
    s.name ≠ t.name := by
  intro hname
  obtain ⟨hpid, hnumber⟩ := fileName_inj hname
  have hi : w.ids[i]? = some (s.pid, s.number) := by rw [World.ids, getElem?_map, hs]; rfl
  have hj : w.ids[j]? = some (t.pid, t.number) := by rw [World.ids, getElem?_map, ht]; rfl
  rw [hpid, hnumber, ← hj] at hi
  have hlt : i < w.ids.length := by
    rw [World.ids, length_map]
    exact (List.getElem?_eq_some_iff.1 hs).1
  exact hij ((getElem?_inj hlt h.distinct).1 hi)

theorem Owns.fd_ne {ino ino' : Nat}
    (hs : Owns storeDir d i s) (ht : Owns storeDir d j t) (hino : s.fd = some ino)
    (hino' : t.fd = some ino') (hij : i ≠ j) : ino ≠ ino' := by
  rintro rfl
  simp only [Owns, hino] at hs
  simp only [Owns, hino'] at ht
  have heq := hs.2.symm.trans ht.2
  simp only [Option.some.injEq, Inode.mk.injEq] at heq
  exact hij heq.2.2.2.2

theorem Inv.setSession (h : Inv storeDir w)
    {s s' : Session} (hs : w.sessions[i]? = some s) (hpid : s'.pid = s.pid)
    (hnumber : s'.number = s.number) (hown : s'.closed = false → Owns storeDir d i s')
    (hothers : ∀ j t, w.sessions[j]? = some t → t.closed = false → i ≠ j →
      Owns storeDir w.dir j t → Owns storeDir d j t) :
    Inv storeDir ({ w with dir := d }.setSession i s') := by
  have hids : ({ w with dir := d }.setSession i s' : World).ids = w.ids := by
    show (w.sessions.set i s').map _ = w.sessions.map _
    obtain ⟨hi, rfl⟩ := List.getElem?_eq_some_iff.1 hs
    have hi' : i < (w.sessions.map fun s => (s.pid, s.number)).length := by simpa using hi
    rw [map_set, hpid, hnumber]
    simpa using set_getElem_self hi'
  refine ⟨?_, hids ▸ h.distinct, hids ▸ h.counted⟩
  intro j t ht hopen
  have ht' : (w.sessions.set i s')[j]? = some t := ht
  rw [getElem?_set] at ht'
  split_ifs at ht' with hij hlt
  · subst hij
    cases ht'
    exact hown hopen
  · exact hothers j t ht' hopen hij (h.owns j t ht' hopen)

theorem Owns.congr
    (h : Owns storeDir d i s) (hname : Dict.get? d'.entries s.name = Dict.get? d.entries s.name)
    (hfile : ∀ ino, s.fd = some ino → d'.inodes[ino]? = d.inodes[ino]?) : Owns storeDir d' i s := by
  unfold Owns at h ⊢
  split at h
  · next hfd => exact h
  · next ino hfd =>
    rw [hname, hfile ino hfd]
    exact h

theorem Owns.lt_length
    (h : Owns storeDir d i s) (hfd : s.fd = some ino) : ino < d.inodes.length := by
  simp only [Owns, hfd] at h
  exact (List.getElem?_eq_some_iff.1 h.2).1

theorem owns_ensureFile (h : Owns storeDir d i s) :
    Owns storeDir (ensureFile d i s).2 i { s with fd := some (ensureFile d i s).1 } := by
  cases hfd : s.fd with
  | some ino =>
    have hsame : { s with fd := some ino } = s := by rw [← hfd]
    simp only [ensureFile, hfd, hsame]
    exact h
  | none =>
    have hadded : s.added = [] := by simpa only [Owns, hfd] using h
    simp only [ensureFile, hfd, Owns, Dir.create, hadded]
    refine ⟨Dict.get?_set_self .., ?_⟩
    simp

theorem owns_ensureFile_other (ht : Owns storeDir d j t) (hname : s.name ≠ t.name) :
    Owns storeDir (ensureFile d i s).2 j t := by
  cases hfd : s.fd with
  | some ino =>
    simp only [ensureFile, hfd]
    exact ht
  | none =>
    simp only [ensureFile, hfd]
    refine ht.congr ?_ fun ino hino => ?_
    · simp only [Dir.create]
      rw [Dict.get?_set_of_ne _ _ hname, Dict.get?_pop, if_neg hname]
    · exact getElem?_append_left (ht.lt_length hino)

theorem getElem?_append_other (d : Dir) {ino ino' : Nat} (bytes : Bytes) (h : ino ≠ ino') :
    (d.append ino bytes).inodes[ino']? = d.inodes[ino']? := by
  simp [Dir.append, h]

theorem Inv.add {storeDir : String} {w : World} (h : Inv storeDir w) {i : Nat} {s : Session}
    (hs : w.sessions[i]? = some s) (hopen : s.closed = false) (path : StorePath)
    (writes : Bool) : Inv storeDir (add storeDir w i s path writes) := by
  have howns := owns_ensureFile (h.owns i s hs hopen)
  have hother : ∀ j t, w.sessions[j]? = some t → t.closed = false → i ≠ j →
      Owns storeDir w.dir j t → Owns storeDir (ensureFile w.dir i s).2 j t :=
    fun j t ht _ hij hown => owns_ensureFile_other hown (h.name_ne hs ht hij)
  simp only [Liveness.add]
  split_ifs
  · refine h.setSession hs rfl rfl (fun _ => ?_) fun j t ht htopen hij hown => ?_
    · refine ⟨howns.1, ?_⟩
      simp [Dir.append, howns.2]
    · have hkept := hother j t ht htopen hij hown
      refine hkept.congr rfl fun ino hino => getElem?_append_other _ _ ?_
      exact howns.fd_ne hkept rfl hino hij
  · exact h.setSession hs rfl rfl (fun _ => howns) hother

theorem Inv.close {storeDir : String} {w : World} (h : Inv storeDir w) {i : Nat} {s : Session}
    (hs : w.sessions[i]? = some s) (hopen : s.closed = false) : Inv storeDir (close w i s) := by
  unfold Liveness.close
  split
  · exact h.setSession hs rfl rfl (fun hclosed => by cases hclosed) fun _ _ _ _ _ hown => hown
  · next ino hfd =>
    refine h.setSession hs rfl rfl (fun hclosed => by cases hclosed) fun j t ht _ hij hown => ?_
    refine hown.congr ?_ fun ino' hino' => ?_
    · show Dict.get? (Dict.pop w.dir.entries s.name) t.name = _
      rw [Dict.get?_pop, if_neg (h.name_ne hs ht hij)]
    · have hne := (h.owns i s hs hopen).fd_ne hown hfd hino' hij
      simp [Dir.unlock, Dir.unlink, hne]

theorem Inv.session (h : Inv storeDir w) (pid : Nat) :
    Inv storeDir { w with sessions := w.sessions ++
      [⟨pid, (w.sessions.filter (·.pid = pid)).length, none, false, false, []⟩] } := by
  have hcount : (w.sessions.filter (·.pid = pid)).length = (w.ids.filter (·.1 = pid)).length := by
    rw [World.ids, filter_map, length_map]
    rfl
  have hids : ∀ s : Session, ({ w with sessions := w.sessions ++ [s] } : World).ids =
      w.ids ++ [(s.pid, s.number)] := by
    intro s
    simp [World.ids]
  refine ⟨?_, ?_, ?_⟩
  · intro j t ht hopen
    by_cases hj : j < w.sessions.length
    · refine h.owns j t ?_ hopen
      rw [← getElem?_append_left hj]
      exact ht
    · have ht'' : (w.sessions ++ [_])[j]? = some t := ht
      rw [getElem?_append_right (Nat.le_of_not_lt hj)] at ht''
      obtain rfl := mem_singleton.1 (mem_of_getElem? ht'')
      rfl
  · rw [hids]
    refine h.distinct.append (nodup_singleton _) (disjoint_singleton.2 fun hin => ?_)
    have hlt := h.counted _ hin
    simp only [hcount] at hlt
    omega
  · intro x hx
    rw [hids] at hx ⊢
    rw [filter_append, length_append]
    rcases mem_append.1 hx with hx | hx
    · exact Nat.lt_add_right _ (h.counted x hx)
    · obtain rfl := mem_singleton.1 hx
      simp [hcount]

theorem inv_step {w w' : World} {e : Event} (h : Inv storeDir w)
    (hstep : step storeDir w e = some w') : Inv storeDir w' := by
  cases e with
  | session pid =>
    cases hstep
    exact h.session pid
  | add i path free attempts =>
    simp only [step] at hstep
    split at hstep
    · cases hstep
    · next s hs =>
      split_ifs at hstep with hclosed hdisabled
      · cases hstep
        exact h
      · cases hstep
        exact h.add hs (by simpa using hclosed) path _
  | disable i =>
    simp only [step] at hstep
    split at hstep
    · cases hstep
    · next s hs =>
      split_ifs at hstep with hclosed
      cases hstep
      have hown := h.owns i s hs (by simpa using hclosed)
      exact h.setSession hs rfl rfl (fun _ => hown) fun _ _ _ _ _ hown => hown
  | close i =>
    simp only [step] at hstep
    split at hstep
    · cases hstep
    · next s hs =>
      split_ifs at hstep with hclosed
      cases hstep
      exact h.close hs (by simpa using hclosed)

/-- **The writer, over a whole run**: every open session owns its file. -/
theorem owns_of_run {es : List Event} (hrun : run (step storeDir) (.start d) es = some w)
    (hs : w.sessions[i]? = some s) (hopen : s.closed = false) : Owns storeDir w.dir i s :=
  (inv_of_run (fun _ _ _ h hstep => inv_step h hstep) (inv_start storeDir d) hrun).owns i s hs hopen

/-! ## What the reader sees -/

/-- What the walk can still learn from a file: reaping writes into files alone that nobody
locks, and their content is not read. -/
def Inode.view (pid : Nat) (f : Inode) : Inode :=
  if f.refuses pid then f else { f with content := [] }

/-- What a file of the listing seeds. -/
def Inode.seeds (u : Unicode) (pid : Nat) (name : String) (f : Inode) : List String :=
  if opens u name f && f.refuses pid then records u f.content else []

@[simp] theorem opens_view (u : Unicode) (pid : Nat) (name : String) (f : Inode) :
    opens u name (f.view pid) = opens u name f := by
  unfold Inode.view
  split <;> rfl

@[simp] theorem seeds_view (u : Unicode) (pid : Nat) (name : String) (f : Inode) :
    (f.view pid).seeds u pid name = f.seeds u pid name := by
  by_cases h : f.refuses pid
  · rw [Inode.view, if_pos h]
  · have hview : (f.view pid).refuses pid = false := by
      rw [Inode.view, if_neg h]
      simpa [Inode.refuses] using h
    simp [Inode.seeds, hview, h]

def Dir.seeds (u : Unicode) (pid : Nat) (d : Dir) (entry : String × Nat) : List String :=
  (d.inodes[entry.2]?).elim [] (Inode.seeds u pid entry.1)

/-- Two directories in which the walk learns the same. -/
def SameView (u : Unicode) (pid : Nat) (d d' : Dir) : Prop :=
  (∀ ino : Nat, (d'.inodes[ino]?).map (Inode.view pid) = (d.inodes[ino]?).map (Inode.view pid)) ∧
    ∀ name, intParses u name = false → Dict.get? d'.entries name = Dict.get? d.entries name

theorem SameView.refl (u : Unicode) (pid : Nat) (d : Dir) : SameView u pid d d :=
  ⟨fun _ => rfl, fun _ _ => rfl⟩

theorem SameView.trans {d d' d'' : Dir} (h : SameView u pid d d')
    (h' : SameView u pid d' d'') : SameView u pid d d'' :=
  ⟨fun ino => (h'.1 ino).trans (h.1 ino),
    fun name hname => (h'.2 name hname).trans (h.2 name hname)⟩

theorem SameView.seeds (h : SameView u pid d d')
    (entry : String × Nat) : d'.seeds u pid entry = d.seeds u pid entry := by
  have hseeds : ∀ d : Dir, d.seeds u pid entry =
      ((d.inodes[entry.2]?).map (Inode.view pid)).elim [] (Inode.seeds u pid entry.1) := by
    intro d
    cases hfile : d.inodes[entry.2]? with
    | none => simp [Dir.seeds, hfile]
    | some f => simp [Dir.seeds, hfile]
  rw [hseeds, hseeds, h.1]

theorem sameView_reap {name : String}
    (hname : intParses u name = true) (hf : d.inodes[ino]? = some f)
    (hfree : f.refuses pid = false) (change : Bytes → Bytes) :
    SameView u pid d { d.unlink name with
      inodes := d.inodes.modify ino fun f => { f with content := change f.content } } := by
  refine ⟨fun ino' => ?_, fun name' hname' => ?_⟩
  · by_cases hino : ino = ino'
    · subst hino
      have hfree' : Inode.refuses { f with content := change f.content } pid = false := hfree
      simp [hf, Inode.view, hfree, hfree']
    · simp [hino]
  · have hne : name ≠ name' := by
      rintro rfl
      simp [hname] at hname'
    show Dict.get? (Dict.pop d.entries name) name' = _
    rw [Dict.get?_pop, if_neg hne]

/-- **One file**: it seeds its records when another process locks it, and is left or reaped
otherwise. -/
theorem seedOrReap_spec (u : Unicode) (walk : Walk)
    {name : String} (hf : d.inodes[ino]? = some f) (hopens : opens u name f = true) :
    SameView u walk.pid d (seedOrReap u walk d ino name).2 ∧
      (seedOrReap u walk d ino name).1.2 = f.seeds u walk.pid name ∧
      ((seedOrReap u walk d ino name).1.1 = true → f.seeds u walk.pid name = []) := by
  have hregular : f.regular = true := by
    simp only [opens, Bool.and_eq_true] at hopens
    exact hopens.1.1.2
  have hname : intParses u name = true := by
    simp only [opens, Bool.and_eq_true] at hopens
    exact hopens.1.2
  by_cases hrefuses : f.refuses walk.pid = true
  · simp [seedOrReap, hf, hregular, hrefuses, Inode.seeds, hopens, SameView.refl]
  · have hseeds : f.seeds u walk.pid name = [] := by simp [Inode.seeds, hrefuses]
    have hfree : f.refuses walk.pid = false := by simpa using hrefuses
    simp only [seedOrReap, hf, hregular, hfree, hseeds, Bool.not_true, Bool.false_eq_true, if_false]
    split_ifs
    · exact ⟨SameView.refl .., rfl, fun _ => trivial⟩
    · exact ⟨SameView.refl .., rfl, fun _ => trivial⟩
    · exact ⟨sameView_reap hname hf hfree fun content => 100 :: content.drop 1, rfl,
        fun _ => trivial⟩

theorem walkEntry_spec (u : Unicode) (walk : Walk) {acc : Walked} {entry : String × Nat}
    (hnew : entry.1 ∉ acc.grouped.map Prod.fst) :
    SameView u walk.pid acc.dir (walkEntry u walk acc entry).dir ∧
      (∀ root, root ∈ (walkEntry u walk acc entry).grouped.flatMap Prod.snd ↔
        root ∈ acc.grouped.flatMap Prod.snd ∨ root ∈ acc.dir.seeds u walk.pid entry) ∧
      ∀ name ∈ (walkEntry u walk acc entry).grouped.map Prod.fst,
        name = entry.1 ∨ name ∈ acc.grouped.map Prod.fst := by
  cases hf : acc.dir.inodes[entry.2]? with
  | none =>
    simp only [walkEntry, hf, Option.any_none, Dir.seeds, Option.elim_none]
    exact ⟨SameView.refl .., fun root => by simp, fun name => .inr⟩
  | some f =>
    by_cases hopens : opens u entry.1 f = true
    · obtain ⟨hview, hseeds, hreaped⟩ := seedOrReap_spec u walk hf hopens
      have hget : Dict.get? acc.grouped entry.1 = none := by
        rcases hfound : Dict.get? acc.grouped entry.1 with _ | seeds
        · rfl
        · exact absurd (mem_map_of_mem (Dict.mem_of_get?_eq_some hfound)) hnew
      simp only [walkEntry, hf, Option.any_some, hopens, if_true, Dir.seeds, Option.elim_some]
      split_ifs with hunlinked hempty
      · exact ⟨hview, fun root => by simp [hreaped hunlinked], fun name => .inr⟩
      · exact ⟨hview, fun root => by simp [← hseeds, hempty], fun name => .inr⟩
      · refine ⟨hview, fun root => ?_, Dict.keys_set_subset _ _ _⟩
        rw [Dict.set_of_get?_eq_none hget, hseeds]
        simp
    · simp only [walkEntry, hf, Option.any_some, hopens, Dir.seeds, Option.elim_some, Inode.seeds]
      exact ⟨SameView.refl .., fun root => by simp, fun name => .inr⟩

theorem foldl_walkEntry_spec (u : Unicode) (walk : Walk) (entries : List (String × Nat))
    (acc : Walked) (hnames : (entries.map Prod.fst).Nodup)
    (hnew : ∀ name ∈ entries.map Prod.fst, name ∉ acc.grouped.map Prod.fst) :
    SameView u walk.pid acc.dir (entries.foldl (walkEntry u walk) acc).dir ∧
      ∀ root, root ∈ (entries.foldl (walkEntry u walk) acc).grouped.flatMap Prod.snd ↔
        root ∈ acc.grouped.flatMap Prod.snd ∨
          ∃ entry ∈ entries, root ∈ acc.dir.seeds u walk.pid entry := by
  induction entries generalizing acc with
  | nil => simp [SameView.refl]
  | cons entry entries ih =>
    simp only [map_cons, nodup_cons, mem_cons, forall_eq_or_imp] at hnames hnew
    obtain ⟨hview, hroots, hkeys⟩ := walkEntry_spec u walk hnew.1
    obtain ⟨hview', hroots'⟩ := ih (walkEntry u walk acc entry) hnames.2 (by
      intro name hname hin
      rcases hkeys name hin with rfl | hin
      · exact hnames.1 hname
      · exact hnew.2 name hname hin)
    refine ⟨hview.trans hview', fun root => ?_⟩
    simp only [foldl_cons, hroots', hroots, hview.seeds, exists_mem_cons_iff, or_assoc]

/-- **`walk_volatile`**: the runtime roots, and the records of the files that the reader opens
and another process locks; the names it cannot attribute stay. -/
theorem walkVolatile_spec (u : Unicode) (walk : Walk) (d : Dir) :
    (∀ root, root ∈ (walkVolatile u walk d).1 ↔
      startswith root (walk.storeDir ++ "/") = true ∧
        (root ∈ walk.runtimeRoots ∨ ∃ entry ∈ d.entries, root ∈ d.seeds u walk.pid entry)) ∧
      ∀ name, intParses u name = false →
        Dict.get? (walkVolatile u walk d).2.entries name = Dict.get? d.entries name := by
  obtain ⟨hview, hroots⟩ := foldl_walkEntry_spec u walk d.entries ⟨[], 0, d⟩ d.names (by simp)
  refine ⟨fun root => ?_, hview.2⟩
  have hgrouped : root ∈ (walkTempRootsGrouped u walk d).grouped.flatMap Prod.snd ↔
      ∃ entry ∈ d.entries, root ∈ d.seeds u walk.pid entry := by
    have hall := hroots root
    simp only [flatMap_nil, not_mem_nil, false_or] at hall
    exact hall
  rw [walkVolatile, mem_filter, mem_append, hgrouped, and_comm]

theorem mem_seeds_iff {entry : String × Nat} {root : String} :
    root ∈ d.seeds u pid entry ↔ ∃ f, d.inodes[entry.2]? = some f ∧ opens u entry.1 f = true ∧
      f.refuses pid = true ∧ root ∈ records u f.content := by
  cases hf : d.inodes[entry.2]? with
  | none => simp [Dir.seeds, hf]
  | some f =>
    by_cases h : opens u entry.1 f = true ∧ f.refuses pid = true
    · simp [Dir.seeds, Inode.seeds, hf, h]
    · simp only [Dir.seeds, Inode.seeds, hf, Option.elim_some, Bool.and_eq_true, if_neg h]
      simp only [not_mem_nil, Option.some.injEq, exists_eq_left', false_iff]
      exact fun hall => h ⟨hall.1, hall.2.1⟩

theorem startswith_str (storeDir : String) (p : StorePath) :
    startswith (p.str storeDir) (storeDir ++ "/") = true ↔ p.base ≠ "" := by
  by_cases h : p.base = ""
  · have hempty : startswith "" (storeDir ++ "/") = false := by
      simp only [startswith, String.toList_append]
      cases storeDir.toList <;> rfl
    simp [StorePath.str, h, hempty]
  · simp [StorePath.str, h, startswith_append]

/-! ## Whether the two sides agree -/

/-- A session that promises its roots: open, and not disabled. -/
def World.Holds (w : World) (s : Session) : Prop :=
  s ∈ w.sessions ∧ s.closed = false ∧ s.disabled = false

/-- **The agreement**: `walk_volatile` returns what the open sessions have added, and leaves
their files. -/
def Agrees (u : Unicode) (walk : Walk) (w : World) : Prop :=
  ∀ s, w.Holds s →
    (∀ p ∈ s.added, p.str walk.storeDir ∈ (walkVolatile u walk w.dir).1) ∧
      ∀ ino, s.fd = some ino →
        Dict.get? (walkVolatile u walk w.dir).2.entries s.name = some ino

/-- A root that a process keeps open, or that the owner of a file with an integer for a name
has recorded under its record lock. -/
def KeptElsewhere (u : Unicode) (walk : Walk) (d : Dir) (root : String) : Prop :=
  root ∈ walk.runtimeRoots ∨
    ∃ entry ∈ d.entries, ∃ f, d.inodes[entry.2]? = some f ∧ opens u entry.1 f = true ∧
      f.refuses walk.pid = true ∧ root ∈ records u f.content

/-- **After every run of the writer, the reader agrees with it exactly when each root of an open
session is also kept by somebody else.**  The session's own file never counts: its name is no
integer. -/
theorem walkVolatile_agrees_iff (u : Unicode) (walk : Walk) {d : Dir} {es : List Event}
    {w : World} (hrun : run (step walk.storeDir) (.start d) es = some w) :
    Agrees u walk w ↔
      ∀ s, w.Holds s → ∀ p ∈ s.added,
        p.base ≠ "" ∧ KeptElsewhere u walk w.dir (p.str walk.storeDir) := by
  obtain ⟨hroots, hnames⟩ := walkVolatile_spec u walk w.dir
  have hmem : ∀ p : StorePath, p.str walk.storeDir ∈ (walkVolatile u walk w.dir).1 ↔
      p.base ≠ "" ∧ KeptElsewhere u walk w.dir (p.str walk.storeDir) := by
    intro p
    simp only [hroots, startswith_str, mem_seeds_iff, KeptElsewhere]
  constructor
  · intro hagrees s hs p hp
    exact (hmem p).1 ((hagrees s hs).1 p hp)
  · intro hkept s hs
    refine ⟨fun p hp => (hmem p).2 (hkept s hs p hp), fun ino hino => ?_⟩
    obtain ⟨i, hi⟩ := mem_iff_getElem?.1 hs.1
    have hown := owns_of_run hrun hi hs.2.1
    simp only [Owns, hino] at hown
    rw [hnames s.name (intParses_fileName u s.pid s.number)]
    exact hown.1

/-- The tables of ASCII. -/
def Unicode.ascii : Unicode where
  isSpace c := c = ' ' || 9 ≤ c.toNat && c.toNat ≤ 13 || 28 ≤ c.toNat && c.toNat ≤ 31
  isDecimal := Char.isDigit
  decodeReplace b := (decodeUtf8 b).toOption.getD ""
  isSpace_ascii _ _ := rfl
  isDecimal_ascii _ _ := rfl
  decode_encode s := by
    rw [decodeUtf8_encodeUtf8]
    rfl

def emptyDir : Dir := ⟨[], [], nodup_nil⟩

def hello : StorePath := ⟨"abc-hello"⟩

/-- One session, one root, and a collector that does not run. -/
def oneRoot : List Event := [.session 7, .add 0 hello true []]

/-- **A root that its process also has open is seen**, through the process. -/
theorem agrees_oneRoot_running :
    ∃ w, run (step "/nix/store") (.start emptyDir) oneRoot = some w ∧
      w.sessions.map (·.added) = [[hello]] ∧
      Agrees .ascii ⟨"/nix/store", 9, true, ["/nix/store/abc-hello"]⟩ w := by
  have hread : (run (step "/nix/store") (.start emptyDir) oneRoot).map
      (fun w => w.sessions.map (·.added)) = some [[hello]] := by decide +kernel
  obtain ⟨w, hrun, hadded⟩ := Option.map_eq_some_iff.1 hread
  refine ⟨w, hrun, hadded, ?_⟩
  refine (walkVolatile_agrees_iff .ascii
    ⟨"/nix/store", 9, true, ["/nix/store/abc-hello"]⟩ hrun).2 fun s hs p hp => ?_
  have hin : s.added ∈ [[hello]] := hadded ▸ mem_map_of_mem hs.1
  obtain rfl : p = hello := by
    rw [mem_singleton.1 hin] at hp
    exact mem_singleton.1 hp
  exact ⟨by decide, .inl (by decide +kernel)⟩

/-- **An open session whose root the reader does not see**: the file is there, with the record
and the lock of the session, and its name is not the name of a process. -/
theorem openSession_root_unseen :
    ∃ w, run (step "/nix/store") (.start emptyDir) oneRoot = some w ∧
      w.dir.entries = [("pynixd-7-0", 0)] ∧
      w.dir.inodes.map (·.content) = [encodeUtf8 "/nix/store/abc-hello" ++ [0]] ∧
      (walkVolatile .ascii ⟨"/nix/store", 9, true, []⟩ w.dir).1 = [] ∧
      ¬Agrees .ascii ⟨"/nix/store", 9, true, []⟩ w := by
  have hsession : (run (step "/nix/store") (.start emptyDir) oneRoot).map
      (fun w => w.sessions.map fun s => (s.added, s.closed, s.disabled)) =
      some [([hello], false, false)] := by decide +kernel
  have hdir : (run (step "/nix/store") (.start emptyDir) oneRoot).map
      (fun w => (w.dir.entries, w.dir.inodes.map (·.content),
        (walkVolatile .ascii ⟨"/nix/store", 9, true, []⟩ w.dir).1)) =
      some ([("pynixd-7-0", 0)], [encodeUtf8 "/nix/store/abc-hello" ++ [0]], []) := by
    decide +kernel
  obtain ⟨w, hrun, hsessions⟩ := Option.map_eq_some_iff.1 hsession
  rw [hrun, Option.map_some, Option.some.injEq] at hdir
  simp only [Prod.mk.injEq] at hdir
  obtain ⟨hentries, hcontent, hseen⟩ := hdir
  refine ⟨w, hrun, hentries, hcontent, hseen, fun hagrees => ?_⟩
  obtain ⟨s, hs, hfields⟩ := mem_map.1 (hsessions ▸ mem_singleton_self _)
  simp only [Prod.mk.injEq] at hfields
  have hroot := (hagrees s ⟨hs, hfields.2.1, hfields.2.2⟩).1 hello (by simp [hfields.1])
  simp [hseen] at hroot

end Pynixd.Liveness
