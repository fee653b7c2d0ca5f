import Pynixd.Protocol.Requests

/-!
# The text of a narinfo

A `.narinfo` is lines of a key and a value.  `_parse_narinfo` of
`pynixd/store/http_binary_cache.py` reads one that came from an upstream cache,
`_rewrite_narinfo_url` of `pynixd/http_server.py` points one at the cache that passes it on, and
`ValidPathInfo.to_narinfo` writes one for a path of the local store.  A text is given by its lines,
as `splitlines` cuts it.

* `toNarinfo`, with `compression_toNarinfo` and `fileHash_toNarinfo` — a narinfo of the local store
  names **no compression and no file hash**.
-/

namespace Pynixd.Http

open List

/-! ## Reading -/

/-- `\s`, for text. -/
def isSpace (c : Char) : Bool :=
  c.toNat ∈ [9, 10, 11, 12, 13, 28, 29, 30, 31, 32, 0x85, 0xA0, 0x1680, 0x2000, 0x2001, 0x2002,
    0x2003, 0x2004, 0x2005, 0x2006, 0x2007, 0x2008, 0x2009, 0x200A, 0x2028, 0x2029, 0x202F, 0x205F,
    0x3000]

/-- `_NARINFO_KEY_RE`: letters, a colon, and what follows the blanks behind it. -/
def matchKey (line : String) : Option (String × String) :=
  match line.toList.dropWhile Char.isAlpha with
  | ':' :: rest =>
    if line.toList.takeWhile Char.isAlpha = [] then none
    else some (String.ofList (line.toList.takeWhile Char.isAlpha),
      String.ofList (rest.dropWhile isSpace))
  | _ => none

/-- One line of the loop of `_parse_narinfo`. -/
def addField (fields : List (String × String)) (line : String) : List (String × String) :=
  match matchKey line with
  | none => fields
  | some (key, value) => if key = "Sig" then fields else Dict.set fields key value

/-- `fields` of `_parse_narinfo`. -/
def fields (lines : List String) : List (String × String) := lines.foldl addField []

/-- What a redirect reads of an `HTTPNarInfo`. -/
structure HTTPNarInfo where
  /-- The base name of the store path. -/
  path : String
  url : String
  deriving DecidableEq

def parseNarinfo (storeDir : String) (lines : List String) (expectedPath : Option String) :
    Except WireError (Option HTTPNarInfo) :=
  match Dict.get? (fields lines) "StorePath", Dict.get? (fields lines) "URL" with
  | some pathRaw, some url =>
    if pathRaw = "" ∨ url = "" then .ok none
    else do
      let path ← (storePath storeDir).fromWire pathRaw
      pure (if expectedPath.all (· = path) then some ⟨path, url⟩ else none)
  | _, _ => .ok none

/-- `compression` of a parsed narinfo: `_decompressor` takes the empty one for none. -/
def compression (lines : List String) : String :=
  match Dict.get? (fields lines) "Compression" with
  | none | some "" => "none"
  | some compression => compression

/-- `file_hash` of a parsed narinfo, which is empty where none is stated. -/
def fileHash (lines : List String) : String := (Dict.get? (fields lines) "FileHash").getD ""

structure File where
  compression : String
  hash : String
  deriving DecidableEq

/-- The file has the compression, and where stated the hash, that the narinfo names. -/
def Names (lines : List String) (file : File) : Prop :=
  compression lines = file.compression ∧ (fileHash lines ≠ "" → fileHash lines = file.hash)

instance (lines : List String) (file : File) : Decidable (Names lines file) :=
  inferInstanceAs (Decidable (_ ∧ _))

/-! ## Passing on -/

def rewriteNarinfoUrl (raw : List String) (pathHash : String) : List String :=
  raw.map fun line =>
    if startswith line "URL: " then "URL: nar/" ++ pathHash ++ ".nar" else line

variable {key line value : String}

theorem matchKey_of_toList {key rest : List Char} (hkey : key ≠ [])
    (halpha : key.all Char.isAlpha = true) (hline : line.toList = key ++ ':' :: rest) :
    matchKey line = some (String.ofList key, String.ofList (rest.dropWhile isSpace)) := by
  have halpha := all_eq_true.1 halpha
  have htake : line.toList.takeWhile Char.isAlpha = key := by
    rw [hline, takeWhile_append_of_pos halpha]
    exact append_nil key
  have hdrop : line.toList.dropWhile Char.isAlpha = ':' :: rest := by
    rw [hline, dropWhile_append_of_pos halpha]
    rfl
  rw [matchKey, hdrop, htake]
  exact if_neg hkey

def field (key value : String) : String := key ++ ": " ++ value

theorem matchKey_field (hkey : key.toList ≠ [])
    (halpha : key.toList.all Char.isAlpha = true) (value : String) :
    matchKey (field key value) = some (key, String.ofList (value.toList.dropWhile isSpace)) := by
  have hline : (field key value).toList = key.toList ++ ':' :: ' ' :: value.toList := by
    simp [field, String.toList_append]
  rw [matchKey_of_toList hkey halpha hline, String.ofList_toList]
  rfl

theorem addField_of_matchKey (h : matchKey line = some (key, value))
    (hkey : key ≠ "Sig") (fs : List (String × String)) :
    addField fs line = Dict.set fs key value := by
  rw [addField, h]
  exact if_neg hkey

/-! ## The local store -/

/-- What the cache reads of a `ValidPathInfo`. -/
structure PathInfo where
  /-- The base name of the store path. -/
  path : String
  narHash : String
  narSize : Int
  /-- The base names of the references, sorted. -/
  references : List String
  deriver : Option String
  sigs : List String
  ca : String
  deriving DecidableEq

def hashPart (path : String) : String :=
  String.ofList ((path.toList.reverse.takeWhile (· ≠ '/')).reverse.takeWhile (· ≠ '-'))

def toNarinfo (storeDir : String) (info : PathInfo) : List String :=
  let narHash :=
    if startswith info.narHash "sha256:" then info.narHash else "sha256:" ++ info.narHash
  [field "StorePath" ((storePath storeDir).toWire info.path),
    field "URL" ("nar/" ++ hashPart info.path ++ ".nar"),
    field "Compression" "none",
    field "NarHash" narHash,
    field "NarSize" (toString info.narSize)] ++
  (if info.references = [] then []
    else [field "References" (" ".intercalate info.references)]) ++
  info.deriver.toList.map (field "Deriver") ++
  info.sigs.map (field "Sig") ++
  (if info.ca = "" then [] else [field "CA" info.ca])

/-- The NAR of a path of the local store goes out as it is. -/
def PathInfo.file (info : PathInfo) : File := ⟨"none", info.narHash⟩

theorem get?_foldl_of_absent {lines : List String}
    (h : ∀ line ∈ lines, ∃ other, other ≠ key ∧ ∃ value, matchKey line = some (other, value))
    (fs : List (String × String)) : Dict.get? (lines.foldl addField fs) key = Dict.get? fs key := by
  induction lines generalizing fs with
  | nil => rfl
  | cons line lines ih =>
    obtain ⟨other, hother, value, hline⟩ := h line (by simp)
    rw [foldl_cons, ih fun l hl => h l (by simp [hl]), addField, hline]
    dsimp only
    split
    · rfl
    · exact Dict.get?_set_of_ne _ _ hother

theorem keys_toNarinfo (storeDir : String) (info : PathInfo) : ∃ rest,
    toNarinfo storeDir info =
      field "StorePath" ((storePath storeDir).toWire info.path) ::
      field "URL" ("nar/" ++ hashPart info.path ++ ".nar") ::
      field "Compression" "none" :: rest ∧
    ∀ line ∈ rest, ∃ key ∈ ["NarHash", "NarSize", "References", "Deriver", "Sig", "CA"],
      ∃ value, line = field key value := by
  refine ⟨_, rfl, fun line hline => ?_⟩
  rcases mem_cons.1 hline with rfl | hline
  · exact ⟨"NarHash", by decide, _, rfl⟩
  rcases mem_cons.1 hline with rfl | hline
  · exact ⟨"NarSize", by decide, _, rfl⟩
  rcases mem_append.1 hline with hline | hline
  · rcases mem_append.1 hline with hline | hline
    · rcases mem_append.1 hline with hline | hline
      · rcases mem_append.1 hline with hline | hline
        · cases hline
        · split at hline
          · cases hline
          · exact ⟨"References", by decide, _, mem_singleton.1 hline⟩
      · obtain ⟨deriver, -, rfl⟩ := mem_map.1 hline
        exact ⟨"Deriver", by decide, _, rfl⟩
    · obtain ⟨sig, -, rfl⟩ := mem_map.1 hline
      exact ⟨"Sig", by decide, _, rfl⟩
  · split at hline
    · cases hline
    · exact ⟨"CA", by decide, _, mem_singleton.1 hline⟩

theorem get?_fields_toNarinfo (storeDir : String) (info : PathInfo) :
    Dict.get? (fields (toNarinfo storeDir info)) "Compression" = some "none" ∧
      Dict.get? (fields (toNarinfo storeDir info)) "FileHash" = none ∧
      Dict.get? (fields (toNarinfo storeDir info)) "URL" =
        some ("nar/" ++ hashPart info.path ++ ".nar") := by
  obtain ⟨rest, hlines, hrest⟩ := keys_toNarinfo storeDir info
  have hletters : ∀ key ∈ ["NarHash", "NarSize", "References", "Deriver", "Sig", "CA"],
      key.toList ≠ [] ∧ key.toList.all Char.isAlpha = true := by decide
  -- the lines behind the compression have other keys
  have habsent : ∀ key ∉ ["NarHash", "NarSize", "References", "Deriver", "Sig", "CA"],
      ∀ fs, Dict.get? (rest.foldl addField fs) key = Dict.get? fs key := by
    intro key hkey fs
    refine get?_foldl_of_absent (fun line hline => ?_) fs
    obtain ⟨other, hother, value, rfl⟩ := hrest line hline
    obtain ⟨hne, halpha⟩ := hletters other hother
    exact ⟨other, fun heq => hkey (heq ▸ hother), _, matchKey_field hne halpha value⟩
  have hpath := matchKey_field (by decide : "StorePath".toList ≠ []) (by decide)
    ((storePath storeDir).toWire info.path)
  have hurl := matchKey_field (by decide : "URL".toList ≠ []) (by decide)
    ("nar/" ++ hashPart info.path ++ ".nar")
  have hcompression := matchKey_field (by decide : "Compression".toList ≠ []) (by decide) "none"
  rw [fields, hlines, foldl_cons, foldl_cons, foldl_cons,
    addField_of_matchKey hpath (by decide), addField_of_matchKey hurl (by decide),
    addField_of_matchKey hcompression (by decide)]
  refine ⟨?_, ?_, ?_⟩
  · rw [habsent _ (by decide)]
    rfl
  · rw [habsent _ (by decide)]
    rfl
  · rw [habsent _ (by decide), Dict.get?_set_of_ne _ _ (by decide), Dict.get?_set_self]
    have hvalue : ("nar/" ++ hashPart info.path ++ ".nar").toList.dropWhile isSpace =
        ("nar/" ++ hashPart info.path ++ ".nar").toList := by
      rw [String.toList_append, String.toList_append]
      exact dropWhile_cons_of_neg (by decide)
    rw [hvalue, String.ofList_toList]

theorem compression_toNarinfo (storeDir : String) (info : PathInfo) :
    compression (toNarinfo storeDir info) = "none" := by
  rw [compression, (get?_fields_toNarinfo storeDir info).1]
  rfl

theorem fileHash_toNarinfo (storeDir : String) (info : PathInfo) :
    fileHash (toNarinfo storeDir info) = "" := by
  rw [fileHash, (get?_fields_toNarinfo storeDir info).2.1]
  rfl

theorem names_toNarinfo (storeDir : String) (info other : PathInfo) :
    Names (toNarinfo storeDir info) other.file :=
  ⟨compression_toNarinfo storeDir info, fun h => (h (fileHash_toNarinfo storeDir info)).elim⟩

end Pynixd.Http
