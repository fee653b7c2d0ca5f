import Pynixd.Wire.Io

/-!
# NAR archives

`pynixd/nar.py`: the tree that a NAR archive holds, and `write_nar`.  An archive is a row
of *tokens*, each behind its length and padded to eight bytes; `_write_node` writes them
one after the other.

* `wrote_of_writeNar` — a writer that succeeds wrote the tokens of the tree, **end to end**.
-/

namespace Pynixd.Nar

open TokenStream

/-- `NarNode`: a `NarDirectory` with its `NarDirectoryEntry`s (name and node), a
`NarRegular`, or a `NarSymlink`. -/
inductive NarNode where
  | directory (entries : List (String × NarNode))
  | regular (contents : Bytes) (executable : Bool)
  | symlink (target : String)

inductive NarError where
  /-- `UnicodeEncodeError`: a text is not ASCII. -/
  | unicodeEncode
  /-- `UnicodeDecodeError`: a byte is not ASCII. -/
  | unicodeDecode
  /-- `struct.error`: a length does not fit a `uint64`. -/
  | struct
  /-- `ValueError`, with its message. -/
  | value (message : String)
  deriving DecidableEq, Repr

/-! ## Texts -/

def IsAscii (s : String) : Prop := ∀ c ∈ s.toList, c.toNat < 128

instance (s : String) : Decidable (IsAscii s) := List.decidableBAll _ _

def asciiBytes (s : String) : Bytes := s.toList.map fun c => UInt8.ofNat c.toNat

def encodeAscii (s : String) : Except NarError Bytes :=
  if IsAscii s then .ok (asciiBytes s) else .error .unicodeEncode

/-- `body.decode("ascii")`. -/
def decodeAscii (b : Bytes) : Except NarError String :=
  if b.all (·.toNat < 128) then .ok (String.ofList (b.map fun x => Char.ofNat x.toNat))
  else .error .unicodeDecode

theorem decodeAscii_asciiBytes {s : String} (h : IsAscii s) :
    decodeAscii (asciiBytes s) = .ok s := by
  have hbyte : ∀ c ∈ s.toList, (UInt8.ofNat c.toNat).toNat = c.toNat := by
    intro c hc
    have := h c hc
    rw [UInt8.toNat_ofNat']
    omega
  have hlow : (asciiBytes s).all (·.toNat < 128) = true := by
    simp only [List.all_eq_true, decide_eq_true_eq]
    intro x hx
    obtain ⟨c, hc, rfl⟩ := List.mem_map.1 hx
    rw [hbyte c hc]
    exact h c hc
  have hchars : (asciiBytes s).map (fun x => Char.ofNat x.toNat) = s.toList := by
    rw [asciiBytes, List.map_map]
    conv_rhs => rw [← List.map_id s.toList]
    apply List.map_congr_left
    intro c hc
    simp [hbyte c hc]
  rw [decodeAscii, if_pos hlow, hchars, String.ofList_toList]

/-! ## Writing -/

/-- A token on the wire: the length, the body and the padding. -/
def padded (body : Bytes) : Bytes :=
  leBytes 8 body.length ++ body ++ List.replicate (narPad body.length) 0

/-- `struct.pack("<Q", length)`, the body and the zeros of the padding. -/
def writePadded (body : Bytes) : Except NarError Bytes :=
  if FitsUInt64 body.length then .ok (padded body) else .error .struct

def writePaddedString (s : String) : Except NarError Bytes := do
  let encoded ← encodeAscii s
  writePadded encoded

/-- Several `_write_padded_string` in a row. -/
def writePaddedStrings : List String → Except NarError Bytes
  | [] => .ok []
  | s :: ss => do
    let b ← writePaddedString s
    let bs ← writePaddedStrings ss
    pure (b ++ bs)

mutual
def writeNode : NarNode → Except NarError Bytes
  | .directory entries => do
    let head ← writePaddedStrings ["(", "type", "directory"]
    let body ← writeEntries entries
    let close ← writePaddedString ")"
    pure (head ++ body ++ close)
  | .regular contents executable => do
    let head ← writePaddedStrings ["(", "type", "regular"]
    let flag ← writePaddedStrings (if executable then ["executable", ""] else [])
    let key ← writePaddedString "contents"
    let data ← writePadded contents
    let close ← writePaddedString ")"
    pure (head ++ flag ++ key ++ data ++ close)
  | .symlink target => writePaddedStrings ["(", "type", "symlink", "target", target, ")"]

/-- The loop over `node.entries`. -/
def writeEntries : List (String × NarNode) → Except NarError Bytes
  | [] => .ok []
  | (name, node) :: entries => do
    let head ← writePaddedStrings ["entry", "(", "name", name, "node"]
    let body ← writeNode node
    let close ← writePaddedString ")"
    let rest ← writeEntries entries
    pure (head ++ body ++ close ++ rest)
end

def writeNar (node : NarNode) : Except NarError Bytes := do
  let magic ← writePaddedString "nix-archive-1"
  let body ← writeNode node
  pure (magic ++ body)

/-! ## The tokens of a tree -/

/-- A token: a text, or the data of a file. -/
inductive Token where
  | text (s : String)
  | data (contents : Bytes)
  deriving DecidableEq, Repr

def Token.body : Token → Bytes
  | .text s => asciiBytes s
  | .data contents => contents

/-- A token that can be written. -/
def Token.Writable (t : Token) : Prop :=
  FitsUInt64 t.body.length ∧ ∀ s, t = .text s → IsAscii s

mutual
def tokens : NarNode → List Token
  | .directory entries =>
    [.text "(", .text "type", .text "directory"] ++ entryTokens entries ++ [.text ")"]
  | .regular contents executable =>
    [.text "(", .text "type", .text "regular"]
      ++ (if executable then [.text "executable", .text ""] else [])
      ++ [.text "contents", .data contents, .text ")"]
  | .symlink target =>
    [.text "(", .text "type", .text "symlink", .text "target", .text target, .text ")"]

def entryTokens : List (String × NarNode) → List Token
  | [] => []
  | (name, node) :: entries =>
    [.text "entry", .text "(", .text "name", .text name, .text "node"] ++ tokens node
      ++ [.text ")"] ++ entryTokens entries
end

/-- The bodies of the tokens of a whole archive. -/
def bodies (node : NarNode) : List Bytes := (.text "nix-archive-1" :: tokens node).map Token.body

/-- `bs` is what writing these tokens gives. -/
def Wrote (ts : List Token) (bs : Bytes) : Prop :=
  (∀ t ∈ ts, t.Writable) ∧ bs = ts.flatMap fun t => padded t.body

theorem Wrote.append {ts us : List Token} {bs cs : Bytes} (h : Wrote ts bs) (h' : Wrote us cs) :
    Wrote (ts ++ us) (bs ++ cs) := by
  refine ⟨fun t ht => ?_, by rw [List.flatMap_append, ← h.2, ← h'.2]⟩
  rcases List.mem_append.1 ht with ht | ht
  · exact h.1 t ht
  · exact h'.1 t ht

theorem wrote_of_writePadded {contents bs : Bytes} (h : writePadded contents = .ok bs) :
    Wrote [.data contents] bs := by
  unfold writePadded at h
  split_ifs at h with hfits
  · cases h
    simp [Wrote, Token.Writable, Token.body, hfits]

theorem wrote_of_writePaddedString {s : String} {bs : Bytes} (h : writePaddedString s = .ok bs) :
    Wrote [.text s] bs := by
  obtain ⟨encoded, henc, hwrite⟩ := except_bind_eq_ok.1 h
  unfold encodeAscii at henc
  split_ifs at henc with hascii
  · cases henc
    obtain ⟨hw, rfl⟩ := wrote_of_writePadded hwrite
    have hfits := (hw _ (List.mem_singleton.2 rfl)).1
    simpa [Wrote, Token.Writable, Token.body, hascii] using hfits

theorem wrote_of_writePaddedStrings {ss : List String} {bs : Bytes}
    (h : writePaddedStrings ss = .ok bs) : Wrote (ss.map .text) bs := by
  induction ss generalizing bs with
  | nil => cases h; simp [Wrote]
  | cons s ss ih =>
    obtain ⟨b, hb, h⟩ := except_bind_eq_ok.1 h
    obtain ⟨bs', hbs, h⟩ := except_bind_eq_ok.1 h
    cases h
    exact (wrote_of_writePaddedString hb).append (ih hbs)

mutual
theorem wrote_of_writeNode {node : NarNode} {bs : Bytes} (h : writeNode node = .ok bs) :
    Wrote (tokens node) bs := by
  cases node with
  | directory entries =>
    obtain ⟨head, hhead, h⟩ := except_bind_eq_ok.1 h
    obtain ⟨body, hbody, h⟩ := except_bind_eq_ok.1 h
    obtain ⟨close, hclose, h⟩ := except_bind_eq_ok.1 h
    cases h
    exact ((wrote_of_writePaddedStrings hhead).append (wrote_of_writeEntries hbody)).append
      (wrote_of_writePaddedString hclose)
  | regular contents executable =>
    obtain ⟨head, hhead, h⟩ := except_bind_eq_ok.1 h
    obtain ⟨flag, hflag, h⟩ := except_bind_eq_ok.1 h
    obtain ⟨key, hkey, h⟩ := except_bind_eq_ok.1 h
    obtain ⟨data, hdata, h⟩ := except_bind_eq_ok.1 h
    obtain ⟨close, hclose, h⟩ := except_bind_eq_ok.1 h
    cases h
    have hw := ((((wrote_of_writePaddedStrings hhead).append
      (wrote_of_writePaddedStrings hflag)).append (wrote_of_writePaddedString hkey)).append
      (wrote_of_writePadded hdata)).append (wrote_of_writePaddedString hclose)
    cases executable <;> simpa [tokens] using hw
  | symlink target => exact wrote_of_writePaddedStrings h

theorem wrote_of_writeEntries {entries : List (String × NarNode)} {bs : Bytes}
    (h : writeEntries entries = .ok bs) : Wrote (entryTokens entries) bs := by
  match entries with
  | [] => cases h; simp [Wrote, entryTokens]
  | (name, node) :: entries =>
    obtain ⟨head, hhead, h⟩ := except_bind_eq_ok.1 h
    obtain ⟨body, hbody, h⟩ := except_bind_eq_ok.1 h
    obtain ⟨close, hclose, h⟩ := except_bind_eq_ok.1 h
    obtain ⟨rest, hrest, h⟩ := except_bind_eq_ok.1 h
    cases h
    exact (((wrote_of_writePaddedStrings hhead).append (wrote_of_writeNode hbody)).append
      (wrote_of_writePaddedString hclose)).append (wrote_of_writeEntries hrest)
end

/-- **What `write_nar` wrote**: the tokens of the tree, end to end, each of which could be
written. -/
theorem wrote_of_writeNar {node : NarNode} {bs : Bytes} (h : writeNar node = .ok bs) :
    Wrote (.text "nix-archive-1" :: tokens node) bs := by
  obtain ⟨magic, hmagic, h⟩ := except_bind_eq_ok.1 h
  obtain ⟨body, hbody, h⟩ := except_bind_eq_ok.1 h
  cases h
  exact (wrote_of_writePaddedString hmagic).append (wrote_of_writeNode hbody)

end Pynixd.Nar
