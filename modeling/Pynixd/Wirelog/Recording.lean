import Pynixd.Wire.Io

/-!
# The file of a recorded connection

`wirelog/framing.py`: a header that names the store directory, then one chunk for each read.  A run
that is killed leaves a file that ends anywhere.

* `readRecording_take` — of a file that is cut anywhere behind its header, the reader gives back
  the store directory and **the longest run of chunks that is complete**.
-/

namespace Pynixd.Wirelog

open List TokenStream

inductive Direction where
  | client
  | server
  deriving DecidableEq

def Direction.value : Direction → UInt8
  | .client => 'C'.toUInt8
  | .server => 'S'.toUInt8

structure Chunk where
  direction : Direction
  nanos : Int
  data : Bytes
  deriving DecidableEq

structure Recording where
  storeDir : Option String
  chunks : List Chunk
  deriving DecidableEq

/-- What `read_recording` raises. -/
inductive RecordingError where
  /-- `ValueError`: neither magic is there. -/
  | notARecording
  /-- `struct.error`: the length of the store directory is cut off. -/
  | short
  | unicode
  /-- `ValueError` of `Direction`. -/
  | direction (marker : UInt8)
  deriving DecidableEq

def magic : Bytes := "NIXWIRE2".toList.map Char.toUInt8

def legacyMagic : Bytes := "NIXWIRE1".toList.map Char.toUInt8

/-- `encode_header`; the length is packed into two bytes. -/
def encodeHeader (storeDir : String) : Except WireError Bytes :=
  let encoded := encodeUtf8 storeDir
  if encoded.length < 2 ^ 16 then .ok (magic ++ leBytes 2 encoded.length ++ encoded)
  else .error .overflow

def encodeChunk (chunk : Chunk) : Except WireError Bytes := do
  let nanos ← writeUInt64 chunk.nanos
  let length ← writeUInt64 chunk.data.length
  pure (chunk.direction.value :: (nanos ++ length ++ chunk.data))

def Direction.ofMarker (marker : UInt8) : Except RecordingError Direction :=
  if marker = Direction.client.value then .ok .client
  else if marker = Direction.server.value then .ok .server
  else .error (.direction marker)

/-- The loop of `read_recording`, over what is left of the file. -/
def readChunks (rest : Bytes) : Except RecordingError (List Chunk) :=
  if hheader : 17 ≤ rest.length then
    let nanos := ofLe ((rest.drop 1).take 8)
    let length := ofLe ((rest.drop 9).take 8)
    if rest.length < 17 + length then .ok []
    else do
      let direction ← Direction.ofMarker (rest.headD 0)
      let chunks ← readChunks (rest.drop (17 + length))
      pure (⟨direction, nanos, (rest.drop 17).take length⟩ :: chunks)
  else .ok []
termination_by rest.length
decreasing_by
  rw [length_drop]
  omega

/-- `read_recording`, of the bytes of the file. -/
def readRecording (raw : Bytes) : Except RecordingError Recording :=
  if magic.isPrefixOf raw then
    let rest := raw.drop magic.length
    if rest.length < 2 then .error .short
    else
      let length := ofLe (rest.take 2)
      match decodeUtf8 ((rest.drop 2).take length) with
      | .error _ => .error .unicode
      | .ok storeDir => (readChunks (rest.drop (2 + length))).map (Recording.mk (some storeDir))
  else if legacyMagic.isPrefixOf raw then
    (readChunks (raw.drop legacyMagic.length)).map (Recording.mk none)
  else .error .notARecording

variable {chunk : Chunk} {body : Bytes}

theorem encodeChunk_eq_ok : encodeChunk chunk = .ok body ↔
    FitsUInt64 chunk.nanos ∧ FitsUInt64 chunk.data.length ∧
      body = chunk.direction.value ::
        (leBytes 8 chunk.nanos.toNat ++ leBytes 8 chunk.data.length ++ chunk.data) := by
  unfold encodeChunk writeUInt64
  split_ifs with hnanos hlength <;>
    simp [bind, Except.bind, pure, Except.pure, eq_comm, *]

theorem ofMarker_value (d : Direction) : Direction.ofMarker d.value = .ok d := by
  cases d <;> rfl

/-- One round of the loop: the fields of a chunk, and behind them all or not all of its bytes. -/
theorem readChunks_fields (d : Direction) {nanos length : Nat} (hnanos : nanos < 2 ^ 64)
    (hlength : length < 2 ^ 64) (rest : Bytes) :
    readChunks (d.value :: (leBytes 8 nanos ++ (leBytes 8 length ++ rest))) =
      if rest.length < length then .ok []
      else (readChunks (rest.drop length)).map (⟨d, nanos, rest.take length⟩ :: ·) := by
  have hrest : (d.value :: (leBytes 8 nanos ++ (leBytes 8 length ++ rest))).drop 17 = rest := by
    have hfields : (leBytes 8 nanos ++ leBytes 8 length).length = 16 := by simp
    exact drop_left' hfields
  have hlen : (d.value :: (leBytes 8 nanos ++ (leBytes 8 length ++ rest))).length =
      17 + rest.length := by
    simp
    omega
  rw [readChunks, dif_pos (by omega)]
  simp only [← drop_drop, hrest, hlen, Nat.add_lt_add_iff_left, drop_succ_cons,
    drop_zero, take_left' (length_leBytes 8 _), drop_left' (length_leBytes 8 _),
    ofLe_leBytes (show nanos < 256 ^ 8 from hnanos),
    ofLe_leBytes (show length < 256 ^ 8 from hlength), headD_cons, ofMarker_value]
  split_ifs
  · rfl
  · cases readChunks (rest.drop length) <;> rfl

/-- A whole chunk is read, and the loop goes on behind it. -/
theorem readChunks_append (h : encodeChunk chunk = .ok body) (rest : Bytes) :
    readChunks (body ++ rest) = (readChunks rest).map (chunk :: ·) := by
  obtain ⟨hnanos, hlength, rfl⟩ := encodeChunk_eq_ok.1 h
  have hround := readChunks_fields chunk.direction ((Int.toNat_lt hnanos.1).2 hnanos.2)
    (fitsUInt64_natCast.1 hlength) (chunk.data ++ rest)
  rw [Int.toNat_of_nonneg hnanos.1] at hround
  simpa using hround

/-- A chunk that is cut off ends the loop. -/
theorem readChunks_take (h : encodeChunk chunk = .ok body) {cut : Nat} (hcut : cut < body.length) :
    readChunks (body.take cut) = .ok [] := by
  obtain ⟨hnanos, hlength, rfl⟩ := encodeChunk_eq_ok.1 h
  by_cases hfields : 17 ≤ cut
  · obtain ⟨k, rfl⟩ := Nat.exists_eq_add_of_le hfields
    have hround := readChunks_fields chunk.direction ((Int.toNat_lt hnanos.1).2 hnanos.2)
      (fitsUInt64_natCast.1 hlength) (chunk.data.take k)
    rw [if_pos (by simp at hcut ⊢; omega)] at hround
    have hlen : (chunk.direction.value :: (leBytes 8 chunk.nanos.toNat ++
        leBytes 8 chunk.data.length)).length = 17 := by simp
    rw [← append_assoc, ← cons_append] at hround
    rw [← cons_append, ← hlen, take_length_add_append, hround]
  · rw [readChunks, dif_neg (by simp; omega)]

theorem exists_readChunks {chunks : List Chunk} {bodies : List Bytes}
    (h : chunks.mapM encodeChunk = .ok bodies) (cut : Nat) :
    ∃ n, readChunks (bodies.flatten.take cut) = .ok (chunks.take n) ∧
      IsGreatest {n | n ≤ chunks.length ∧ (bodies.take n).flatten.length ≤ cut} n := by
  induction chunks generalizing bodies cut with
  | nil =>
    obtain rfl : [] = bodies := by simpa using h
    exact ⟨0, by rw [readChunks, dif_neg (by simp)]; rfl, by simp, fun n hn => hn.1⟩
  | cons chunk chunks ih =>
    rw [mapM_cons, except_bind_eq_ok] at h
    obtain ⟨body, hbody, h⟩ := h
    obtain ⟨bodies, hbodies, h⟩ := except_bind_eq_ok.1 h
    obtain rfl := except_pure_eq_ok.1 h
    rw [flatten_cons]
    by_cases hwhole : body.length ≤ cut
    · obtain ⟨cut, rfl⟩ := Nat.exists_eq_add_of_le hwhole
      obtain ⟨n, hread, ⟨hn, hfits⟩, hmost⟩ := ih hbodies cut
      refine ⟨n + 1, ?_, ⟨Nat.succ_le_succ hn, by simpa using hfits⟩, ?_⟩
      · rw [take_length_add_append, readChunks_append hbody, hread]
        rfl
      · rintro (_ | m) ⟨hm, hfits⟩
        · exact Nat.zero_le _
        · exact Nat.succ_le_succ (hmost ⟨Nat.le_of_succ_le_succ hm, by simpa using hfits⟩)
    · refine ⟨0, ?_, ⟨Nat.zero_le _, Nat.zero_le _⟩, ?_⟩
      · rw [take_append_of_le_length (Nat.le_of_not_le hwhole),
          readChunks_take hbody (Nat.lt_of_not_le hwhole)]
        rfl
      · rintro (_ | m) ⟨-, hfits⟩
        · exact Nat.le_refl 0
        · rw [take_succ_cons, flatten_cons, length_append] at hfits
          omega

/-- **Of a file that is cut behind its header the reader gives back** the store directory and the
longest run of chunks that is complete in it. -/
theorem readRecording_take {storeDir : String} {chunks : List Chunk} {header : Bytes}
    {bodies : List Bytes} (hheader : encodeHeader storeDir = .ok header)
    (hbodies : chunks.mapM encodeChunk = .ok bodies) {cut : Nat} (hcut : header.length ≤ cut) :
    ∃ n, readRecording ((header ++ bodies.flatten).take cut) =
        .ok ⟨some storeDir, chunks.take n⟩ ∧
      IsGreatest {n | n ≤ chunks.length ∧
        (header ++ (bodies.take n).flatten).length ≤ cut} n := by
  obtain ⟨cut, rfl⟩ := Nat.exists_eq_add_of_le hcut
  obtain ⟨n, hread, hmost⟩ := exists_readChunks hbodies cut
  refine ⟨n, ?_, by simpa using hmost⟩
  unfold encodeHeader at hheader
  simp only at hheader
  split_ifs at hheader with hlength
  cases hheader
  have hsize := ofLe_leBytes (show (encodeUtf8 storeDir).length < 256 ^ 2 from hlength)
  rw [take_length_add_append, append_assoc, append_assoc, readRecording]
  simp only [drop_left, take_left' (length_leBytes 2 _), hsize, ← drop_drop,
    drop_left' (length_leBytes 2 _), take_left, decodeUtf8_encodeUtf8, hread]
  rfl

/-- Three chunks, of 18, 19 and 17 bytes. -/
def threeChunks : List Chunk := [⟨.client, 7, [5]⟩, ⟨.server, 8, [1, 2]⟩, ⟨.client, 9, []⟩]

/-- **A file that is cut inside its third chunk** gives back two. -/
theorem readRecording_take_fields :
    ∃ header bodies, encodeHeader "/" = .ok header ∧ threeChunks.mapM encodeChunk = .ok bodies ∧
      readRecording ((header ++ bodies.flatten).take (header.length + 53)) =
        .ok ⟨some "/", [⟨.client, 7, [5]⟩, ⟨.server, 8, [1, 2]⟩]⟩ := by
  obtain ⟨n, hread, ⟨hle, hfits⟩, hmost⟩ :=
    readRecording_take (rfl : encodeHeader "/" = .ok _)
      (rfl : threeChunks.mapM encodeChunk = .ok _) (Nat.le_add_right _ 53)
  have htwo : 2 ≤ n := hmost ⟨by decide, by decide +kernel⟩
  have hthree : n ≠ 3 := by
    rintro rfl
    exact absurd hfits (by decide +kernel)
  obtain rfl : n = 2 := by
    have : n ≤ 3 := hle
    omega
  exact ⟨_, _, rfl, rfl, hread⟩

end Pynixd.Wirelog
