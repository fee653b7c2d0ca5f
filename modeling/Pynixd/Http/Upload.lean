import Pynixd.Http.Cache

/-!
# Uploads to the HTTP cache

A client of `PynixdHttpServer` uploads a path in two requests: `handle_put_nar` stages the NAR as a
file of the upload directory, and `handle_put_narinfo` finds the file by the URL of the narinfo,
sends it to the store and removes it.  The name of the file is made from the text of the client
before its first dot, and from the extension of its compression.

* `confined_of_plain` — **in every run of `Plain` requests, every file is written into the upload
  directory, and what is imported is what was uploaded under the name in the URL**.
-/

namespace Pynixd.Http

open List Runs

/-! ## Paths -/

structure PurePath where
  root : String
  parts : List String
  deriving DecidableEq

/-- `PurePosixPath(text)`: empty components and dots are dropped. -/
def purePath (text : String) : PurePath where
  root :=
    if startswith text "//" ∧ ¬ startswith text "///" then "//"
    else if startswith text "/" then "/"
    else ""
  parts := ((text.toList.splitOn '/').filter fun part => part ≠ [] ∧ part ≠ ['.']).map
    String.ofList

def PurePath.join (dir : PurePath) (text : String) : PurePath :=
  if (purePath text).root = "" then ⟨dir.root, dir.parts ++ (purePath text).parts⟩
  else purePath text

def PurePath.name (path : PurePath) : String := path.parts.getLastD ""

/-- The path is one of a file directly inside the directory. -/
def PurePath.Inside (dir path : PurePath) : Prop :=
  path.root = dir.root ∧ ∃ name, name ≠ ".." ∧ path.parts = dir.parts ++ [name]

theorem purePath_of_plain {text : String} (hslash : '/' ∉ text.toList) (hempty : text.toList ≠ [])
    (hdot : text.toList ≠ ['.']) : purePath text = ⟨"", [text]⟩ := by
  have hroot : ∀ head : List Char, '/' :: head <+: text.toList → False := by
    rintro head ⟨rest, hrest⟩
    exact hslash (hrest ▸ mem_cons_self)
  have hsplit : text.toList.splitOn '/' = [text.toList] := by
    refine splitOnP_eq_singleton fun c hc => ?_
    exact beq_false_of_ne fun h => hslash (h ▸ hc)
  unfold purePath
  rw [hsplit, if_neg, if_neg]
  · simp [hempty, hdot]
  · intro h
    exact hroot [] (List.isPrefixOf_iff_prefix.1 h)
  · rintro ⟨h, -⟩
    exact hroot ['/'] (List.isPrefixOf_iff_prefix.1 h)

/-! ## The two requests -/

/-- What a server is set up with. -/
structure UploadConfig where
  dir : PurePath
  /-- What the decompressor for an extension makes of a file. -/
  unpack : String → List UInt8 → List UInt8

def knownExts : List String := [".xz", ".bz2", ".gz", ".zst", ".lz4", ".br"]

def extension (filename : String) : String :=
  (knownExts.find? fun ext => ext.toList.isSuffixOf filename.toList).getD ""

def stagedName (filename : String) : String :=
  fileHashPart filename ++ ".nar" ++ extension filename

/-- A file, with the name of the upload that wrote it, if one did. -/
structure Staged where
  name : Option String
  body : List UInt8
  deriving DecidableEq

structure Import where
  url : String
  /-- What had been uploaded under each name by then. -/
  uploads : List (String × List UInt8)
  bytes : List UInt8
  deriving DecidableEq

structure Staging where
  files : List (PurePath × Staged)
  /-- What was uploaded last under each name. -/
  uploads : List (String × List UInt8)
  written : List PurePath
  imports : List Import

def strip (text : List Char) : List Char :=
  ((text.dropWhile isSpace).reverse.dropWhile isSpace).reverse

/-- `nar_url` of a narinfo: what follows `URL: ` in the first such line. -/
def narUrl (lines : List String) : String :=
  match lines.find? (startswith · "URL: ") with
  | none => ""
  | some line => String.ofList (strip (line.toList.drop 5))

def candidates (c : UploadConfig) (url : String) : List PurePath :=
  let filename := String.ofList ((url.toList.splitOn '/').getLastD [])
  ("" :: knownExts).map fun ext => c.dir.join (fileHashPart filename ++ ".nar" ++ ext)

/-- A request, and what the world makes of it. -/
inductive Upload where
  /-- `PUT /nar/<filename>`, and whether the file can be opened. -/
  | putNar (filename : String) (body : List UInt8) (opens : Bool)
  /-- `PUT /<hash>.narinfo`: whether `from_narinfo` takes the text, whether a connection to the
  store is had, and whether the file can be removed. -/
  | putNarinfo (lines : List String) (parses connects unlinks : Bool)

def handlePutNar (c : UploadConfig) (s : Staging) (filename : String) (body : List UInt8)
    (opens : Bool) : Staging :=
  let tempPath := c.dir.join (stagedName filename)
  if ¬ ".nar".toList <:+: filename.toList then s
  else if opens then
    { s with
      files := Dict.set s.files tempPath ⟨some filename, body⟩
      uploads := Dict.set s.uploads filename body
      written := s.written ++ [tempPath] }
  else s

def handlePutNarinfo (c : UploadConfig) (s : Staging) (lines : List String)
    (parses connects unlinks : Bool) : Staging :=
  if parses = false ∨ narUrl lines = "" then s
  else
    match (candidates c (narUrl lines)).findSome? fun path =>
      (Dict.get? s.files path).map fun staged => (path, staged) with
    | none => s
    | some (path, staged) =>
      { s with
        files := if unlinks then Dict.pop s.files path else s.files
        imports :=
          if connects then
            s.imports ++
              [⟨narUrl lines, s.uploads, c.unpack (extension path.name) staged.body⟩]
          else s.imports }

def stagingStep (c : UploadConfig) (s : Staging) : Upload → Staging
  | .putNar filename body opens => handlePutNar c s filename body opens
  | .putNarinfo lines parses connects unlinks =>
    handlePutNarinfo c s lines parses connects unlinks

/-- A server that starts over the files that are there. -/
def Staging.start (leftovers : List (PurePath × List UInt8)) : Staging where
  files := leftovers.map fun file => (file.1, ⟨none, file.2⟩)
  uploads := []
  written := []
  imports := []

/-! ## What is wanted -/

/-- The store got what was uploaded last under the name in the URL. -/
def Import.Faithful (c : UploadConfig) (i : Import) : Prop :=
  ∀ name body, i.url = "nar/" ++ name → Dict.get? i.uploads name = some body →
    i.bytes = c.unpack (extension name) body

/-- Nothing was written outside the upload directory, and every import is faithful. -/
structure Staging.Confined (c : UploadConfig) (s : Staging) : Prop where
  inside : ∀ path ∈ s.written, c.dir.Inside path
  faithful : ∀ i ∈ s.imports, i.Faithful c

/-- **The requests that stay in their place.**  A NAR comes under a name that has no slash before
its first dot; and when a narinfo comes whose URL names an upload, every file that is staged for
the URL was written by uploads of this name last. -/
def Plain (c : UploadConfig) (s : Staging) : Upload → Prop
  | .putNar filename _ _ => '/' ∉ (fileHashPart filename).toList
  | .putNarinfo lines _ _ _ =>
    ∀ name, narUrl lines = "nar/" ++ name → (Dict.get? s.uploads name).isSome →
      ∀ path ∈ candidates c (narUrl lines), ∀ staged, Dict.get? s.files path = some staged →
        staged.name = some name

/-! ## Names -/

theorem mem_extension (filename : String) : extension filename ∈ "" :: knownExts := by
  unfold extension
  cases h : knownExts.find? fun ext => ext.toList.isSuffixOf filename.toList with
  | none => exact mem_cons_self
  | some ext => exact mem_cons_of_mem _ (mem_of_find?_eq_some h)

theorem extension_staged (hash : String) {ext : String} (h : ext ∈ "" :: knownExts) :
    extension (hash ++ ".nar" ++ ext) = ext := by
  simp only [knownExts, mem_cons, not_mem_nil, or_false] at h
  unfold extension
  rcases h with rfl | rfl | rfl | rfl | rfl | rfl | rfl <;>
    simp [knownExts, List.isSuffixOf, String.toList_append, reverse_append]

theorem extension_stagedName (filename : String) :
    extension (stagedName filename) = extension filename :=
  extension_staged _ (mem_extension filename)

theorem toList_stagedName (filename : String) : (stagedName filename).toList =
    (fileHashPart filename).toList ++ ".nar".toList ++ (extension filename).toList := by
  simp [stagedName, String.toList_append]

theorem stagedName_ne_of_short {filename text : String} (h : text.toList.length < 4) :
    stagedName filename ≠ text := by
  rintro rfl
  rw [toList_stagedName] at h
  simp at h
  omega

theorem join_stagedName (dir : PurePath) {filename : String}
    (h : '/' ∉ (fileHashPart filename).toList) :
    dir.join (stagedName filename) = ⟨dir.root, dir.parts ++ [stagedName filename]⟩ := by
  have hname := toList_stagedName filename
  have hext : '/' ∉ (extension filename).toList := by
    have hmem := mem_extension filename
    simp only [knownExts, mem_cons, not_mem_nil, or_false] at hmem
    rcases hmem with h | h | h | h | h | h | h <;> rw [h] <;> decide
  have hplain : purePath (stagedName filename) = ⟨"", [stagedName filename]⟩ := by
    refine purePath_of_plain ?_ ?_ ?_
    · rw [hname]
      simp [h, hext]
    · rw [hname]
      simp
    · intro hdot
      exact stagedName_ne_of_short (by decide : ".".toList.length < 4)
        (String.toList_inj.1 hdot)
  rw [PurePath.join, hplain, if_pos rfl]

theorem inside_stagedName (dir : PurePath) {filename : String}
    (h : '/' ∉ (fileHashPart filename).toList) : dir.Inside (dir.join (stagedName filename)) := by
  rw [join_stagedName dir h]
  exact ⟨rfl, _, stagedName_ne_of_short (by decide), rfl⟩

theorem name_stagedName (dir : PurePath) {filename : String}
    (h : '/' ∉ (fileHashPart filename).toList) :
    (dir.join (stagedName filename)).name = stagedName filename := by
  rw [join_stagedName dir h, PurePath.name, getLastD_concat]

/-! ## Runs -/

/-- What every run of plain requests keeps: a file that an upload wrote is where uploads of its
name go, and holds what was uploaded last under the name. -/
structure Staging.Inv (c : UploadConfig) (s : Staging) : Prop extends s.Confined c where
  staged : ∀ path name body, Dict.get? s.files path = some ⟨some name, body⟩ →
    '/' ∉ (fileHashPart name).toList ∧ path = c.dir.join (stagedName name) ∧
      Dict.get? s.uploads name = some body

section Run

variable {c : UploadConfig} {s : Staging} (h : s.Inv c)

include h

theorem Staging.Inv.putNar {filename : String} (hplain : '/' ∉ (fileHashPart filename).toList)
    (body : List UInt8) (opens : Bool) : (handlePutNar c s filename body opens).Inv c := by
  unfold handlePutNar
  dsimp only
  split
  · exact h
  split
  · refine ⟨⟨?_, h.faithful⟩, ?_⟩
    · intro path hpath
      rcases mem_append.1 hpath with hpath | hpath
      · exact h.inside path hpath
      · rw [mem_singleton.1 hpath]
        exact inside_stagedName c.dir hplain
    · intro path name other hfile
      rw [Dict.get?_set] at hfile
      split at hfile
      · next hpath =>
        cases hfile
        exact ⟨hplain, hpath.symm, Dict.get?_set_self _ _ _⟩
      · next hpath =>
        obtain ⟨hname, hat, hupload⟩ := h.staged path name other hfile
        -- another name, since it is staged elsewhere
        have hne : filename ≠ name := by
          rintro rfl
          exact hpath hat.symm
        exact ⟨hname, hat, by rw [Dict.get?_set_of_ne _ _ hne, hupload]⟩
  · exact h

theorem Staging.Inv.putNarinfo {lines : List String} {parses connects unlinks : Bool}
    (hplain : Plain c s (.putNarinfo lines parses connects unlinks)) :
    (handlePutNarinfo c s lines parses connects unlinks).Inv c := by
  unfold handlePutNarinfo
  split
  · exact h
  split
  · exact h
  · next path staged hfind =>
    obtain ⟨path', hmem, hfile⟩ := exists_of_findSome?_eq_some hfind
    obtain ⟨staged', hfile, heq⟩ := Option.map_eq_some_iff.1 hfile
    cases heq
    refine ⟨⟨h.inside, fun i hi => ?_⟩, fun path' name body hstaged => ?_⟩
    · dsimp only at hi
      split at hi
      · rcases mem_append.1 hi with hi | hi
        · exact h.faithful i hi
        · obtain rfl := mem_singleton.1 hi
          intro name body hurl hupload
          have hname := hplain name hurl (by rw [hupload]; rfl) path hmem staged hfile
          cases staged with
          | mk origin content =>
            cases hname
            obtain ⟨hslash, hat, hlast⟩ := h.staged path name content hfile
            rw [hupload] at hlast
            cases hlast
            dsimp only
            rw [hat, name_stagedName c.dir hslash, extension_stagedName]
      · exact h.faithful i hi
    · dsimp only at hstaged
      split at hstaged
      · rw [Dict.get?_pop] at hstaged
        split at hstaged
        · cases hstaged
        · exact h.staged path' name body hstaged
      · exact h.staged path' name body hstaged

end Run

theorem Staging.inv_start (c : UploadConfig) (leftovers : List (PurePath × List UInt8)) :
    (Staging.start leftovers).Inv c where
  inside := nofun
  faithful := nofun
  staged path name body hfile := by
    obtain ⟨file, -, heq⟩ := mem_map.1 (Dict.mem_of_get?_eq_some hfile)
    cases heq

/-- **In every run of plain requests, over whatever files are there, every upload is written
directly into the upload directory, and every import is of what was uploaded last under the name
in its URL.** -/
theorem confined_of_plain (c : UploadConfig) (leftovers : List (PurePath × List UInt8))
    (requests : List Upload)
    (hplain : Guarded (fun s r => some (stagingStep c s r)) (Plain c) (.start leftovers) requests) :
    (requests.foldl (stagingStep c) (.start leftovers)).Confined c := by
  have hstep : ∀ s r t, Staging.Inv c s → Plain c s r → some (stagingStep c s r) = some t →
      Staging.Inv c t := by
    rintro s (⟨filename, body, opens⟩ | ⟨lines, parses, connects, unlinks⟩) t h hok hstep
    · cases hstep
      exact h.putNar hok body opens
    · cases hstep
      exact h.putNarinfo hok
  exact (inv_of_guarded hstep (Staging.inv_start c leftovers) hplain
    (run_some _ requests)).toConfined

def uploads : UploadConfig := ⟨⟨"/", ["srv", "upload"]⟩, fun _ body => body⟩

/-- A narinfo names one upload, so its condition is about that one. -/
theorem plain_putNarinfo {c : UploadConfig} {s : Staging} {lines : List String}
    {parses connects unlinks : Bool} (name : String) (hurl : narUrl lines = "nar/" ++ name)
    (hfiles : ∀ path ∈ candidates c (narUrl lines), ∀ staged ∈ Dict.get? s.files path,
      staged.name = some name) : Plain c s (.putNarinfo lines parses connects unlinks) := by
  intro name' hurl' _ path hpath staged hstaged
  obtain rfl := (String.append_right_inj _).1 (hurl.symm.trans hurl')
  exact hfiles path hpath staged hstaged

/-- Two uploads, and then their narinfos. -/
def twoUploads : List Upload :=
  [.putNar "a.nar.xz" [7] true, .putNar "b.nar" [8] true,
    .putNarinfo ["URL: nar/b.nar"] true true true, .putNarinfo ["URL: nar/a.nar.xz"] true true true]

theorem confined_twoUploads :
    (twoUploads.foldl (stagingStep uploads) (.start [])).imports.map (·.bytes) = [[8], [7]] ∧
      (twoUploads.foldl (stagingStep uploads) (.start [])).Confined uploads := by
  refine ⟨by decide +kernel, confined_of_plain uploads [] twoUploads ?_⟩
  have ha : '/' ∉ (fileHashPart "a.nar.xz").toList := by decide +kernel
  have hb : '/' ∉ (fileHashPart "b.nar").toList := by decide +kernel
  refine guarded_cons.2 ⟨ha, guarded_cons.2 ⟨hb, guarded_cons.2 ⟨?_, guarded_cons.2 ⟨?_, trivial⟩⟩⟩⟩
  · exact plain_putNarinfo "b.nar" (by decide +kernel) (by decide +kernel)
  · exact plain_putNarinfo "a.nar.xz" (by decide +kernel) (by decide +kernel)

/-- **A name with a slash is written anywhere, and an upload hides another one of its hash.**  The
first name is an absolute path.  Then the file that the URL names is not looked at, since a file
without an extension is found first. -/
theorem not_confined :
    ¬ (stagingStep uploads (.start []) (.putNar "/etc/x.nar" [7] true)).Confined uploads ∧
      ¬ ([.putNar "a.nar" [1] true, .putNar "a.nar.xz" [7] true,
          .putNarinfo ["URL: nar/a.nar.xz"] true true true].foldl (stagingStep uploads)
            (.start [])).Confined uploads := by
  constructor
  · rintro ⟨hinside, -⟩
    obtain ⟨-, name, -, hparts⟩ := hinside ⟨"/", ["etc", "x.nar"]⟩ (by decide +kernel)
    have hlength := congrArg List.length hparts
    simp [uploads] at hlength
  · rintro ⟨-, hfaithful⟩
    have hbytes := hfaithful
      ⟨"nar/a.nar.xz", [("a.nar", [1]), ("a.nar.xz", [7])], [1]⟩ (by decide +kernel)
      "a.nar.xz" [7] (by decide +kernel) (by decide +kernel)
    exact absurd hbytes (by decide : ([1] : List UInt8) ≠ [7])

end Pynixd.Http
