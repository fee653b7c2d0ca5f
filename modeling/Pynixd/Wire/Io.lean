import Pynixd.Lib.Stream

/-!
# Byte primitives of the daemon protocol

`nix_daemon_protocol/io.py` and the readers and writers of `pynixd/wire.py` agree
on four shapes: a little-endian `uint64`, a boolean carried as one, a byte string
(length, data, zero padding to eight bytes) and a string (a byte string that
decodes as UTF-8).  A stream is the list of the bytes still to come.

* `takes_uint64`, `takes_bool`, `takes_bytes`, `takes_string` — each reader takes
  back **exactly** the bytes its writer produced;
* `writeBytes_eq_ok` — what a writer that succeeds wrote.
-/

namespace Pynixd

open TokenStream

abbrev Bytes := List UInt8

inductive WireError where
  /-- `EOFError`: the stream is shorter than the read. -/
  | eof
  /-- `UnicodeDecodeError`: the bytes of a string are not UTF-8. -/
  | unicode
  /-- `ValueError` of `StorePath`: an absolute path outside the store directory. -/
  | foreignStorePath (path storeDir : String)
  /-- `ValueError` of an `IntEnum`: no member has this number. -/
  | invalidEnum (n : Nat)
  /-- `struct.error`: the number does not fit a `uint64`. -/
  | overflow
  /-- `AttributeError`: the object has no such attribute. -/
  | attribute (name : String)
  /-- `TypeError`: the value is not of the declared type. -/
  | type
  | unsupportedVersion (op : Nat)
  /-- The task was cancelled, or a write of its own failed, at an `await`. -/
  | interrupted
  deriving DecidableEq, Repr

abbrev WireReader := Reader UInt8 WireError

/-- The bytes of a connection, as the source a codec reads from. -/
abbrev wire : Source UInt8 WireError Bytes := flat .eof

/-- On every stream that starts with `bs`, the codec answers `a` and stops exactly
behind `bs`. -/
abbrev Takes {α : Type} (r : WireReader α) (bs : Bytes) (a : α) : Prop := Reads .eof r bs a

def encodeUtf8 (s : String) : Bytes := s.toUTF8.data.toList

/-- `bytes.decode("utf-8")`, which refuses what is not UTF-8. -/
def decodeUtf8 (b : Bytes) : Except WireError String :=
  match String.fromUTF8? ⟨b.toArray⟩ with
  | some s => .ok s
  | none => .error .unicode

/-- The padding after `n` bytes: `(-n) % 8`. -/
def narPad (n : Nat) : Nat := (8 - n % 8) % 8

/-! ## Writers -/

/-- The numbers that `struct.pack("<Q", value)` takes. -/
def FitsUInt64 (n : Int) : Prop := 0 ≤ n ∧ n < 2 ^ 64

instance (n : Int) : Decidable (FitsUInt64 n) := inferInstanceAs (Decidable (_ ∧ _))

/-- `write_uint64`: `struct.pack("<Q", value)`. -/
def writeUInt64 (n : Int) : Except WireError Bytes :=
  if FitsUInt64 n then .ok (leBytes 8 n.toNat) else .error .overflow

/-- `write_bool`: `write_uint64(int(value))`. -/
def writeBool (b : Bool) : Bytes := leBytes 8 b.toNat

/-- `write_bytes`: the length, the data and the padding. -/
def writeBytes (b : Bytes) : Except WireError Bytes := do
  let len ← writeUInt64 b.length
  pure (len ++ b ++ List.replicate (narPad b.length) 0)

def writeString (s : String) : Except WireError Bytes := writeBytes (encodeUtf8 s)

/-! ## Readers -/

def readexactly (n : Nat) : WireReader Bytes := exactly n

def readUInt64 : WireReader Nat := ofLe <$> readexactly 8

/-- `read_bool`: every number but zero is true. -/
def readBool : WireReader Bool := (fun n => n != 0) <$> readUInt64

def readBytes : WireReader Bytes := do
  let len ← readUInt64
  let data ← readexactly len
  let _ ← readexactly (narPad len)
  pure data

/-- A reader that checks its answer with a function that may raise. -/
def refine {α β : Type} (r : WireReader α) (f : α → Except WireError β) : WireReader β := do
  let a ← r
  match f a with
  | .ok b => pure b
  | .error e => .fail e

def readString : WireReader String := refine readBytes decodeUtf8

/-! ## What a writer wrote -/

variable {b bs : Bytes} {n : Nat} {α β ε : Type}

theorem except_bind_eq_ok {x : Except ε α} {f : α → Except ε β} {b : β} :
    (x >>= f) = .ok b ↔ ∃ a, x = .ok a ∧ f a = .ok b := by
  cases x with
  | error e => simp [bind, Except.bind]
  | ok a => simp [bind, Except.bind]

theorem exists_ok_of_isOk {x : Except WireError α} (h : x.isOk = true) : ∃ a, x = .ok a := by
  cases x with
  | error e => simp [Except.isOk, Except.toBool] at h
  | ok a => exact ⟨a, rfl⟩

@[simp] theorem except_pure_eq_ok {a b : α} : (pure a : Except ε α) = .ok b ↔ a = b := by
  simp [pure, Except.pure]

theorem fitsUInt64_natCast : FitsUInt64 n ↔ n < 2 ^ 64 := by
  unfold FitsUInt64
  omega

theorem writeBytes_eq_ok :
    writeBytes b = .ok bs ↔ FitsUInt64 b.length ∧
      bs = leBytes 8 b.length ++ b ++ List.replicate (narPad b.length) 0 := by
  unfold writeBytes writeUInt64
  split_ifs with h <;> simp [bind, Except.bind, pure, Except.pure, h, eq_comm]

/-! ## A reader takes back what its writer wrote -/

theorem writeBool_inj {a b : Bool} (h : writeBool a = writeBool b) : a = b := by
  revert h
  cases a <;> cases b <;> decide

theorem takes_readexactly (bs : Bytes) : Takes (readexactly bs.length) bs bs :=
  Reads.exactly bs

theorem takes_uint64 (h : FitsUInt64 n) : Takes readUInt64 (leBytes 8 n) n := by
  rw [fitsUInt64_natCast] at h
  have hread := (takes_readexactly (leBytes 8 n)).map ofLe
  rw [ofLe_leBytes (by omega)] at hread
  exact hread

theorem takes_bool (b : Bool) : Takes readBool (writeBool b) b := by
  have h := (takes_uint64 (n := b.toNat) (by cases b <;> decide)).map (fun n => n != 0)
  cases b <;> exact h

theorem takes_bytes (h : writeBytes b = .ok bs) : Takes readBytes bs b := by
  obtain ⟨hlen, rfl⟩ := writeBytes_eq_ok.mp h
  have hpad : Takes (readexactly (narPad b.length)) (List.replicate (narPad b.length) 0)
      (List.replicate (narPad b.length) (0 : UInt8)) := by
    have := takes_readexactly (List.replicate (narPad b.length) (0 : UInt8))
    rwa [List.length_replicate] at this
  refine (takes_uint64 hlen).bind ((takes_readexactly b).bind ?_)
  exact hpad.bind_pure rfl

theorem takes_refine {r : WireReader α} {f : α → Except WireError β}
    {a : α} {b : β} (hr : Takes r bs a) (hf : f a = .ok b) : Takes (refine r f) bs b :=
  hr.bind_pure (by simp [hf])

@[simp] theorem decodeUtf8_encodeUtf8 (s : String) : decodeUtf8 (encodeUtf8 s) = .ok s := by
  have hs : String.fromUTF8? ⟨(encodeUtf8 s).toArray⟩ = some s := by
    simp [encodeUtf8, String.fromUTF8?, String.fromUTF8, s.isValidUTF8]
  rw [decodeUtf8, hs]

theorem takes_string {s : String} (h : writeString s = .ok bs) : Takes readString bs s :=
  takes_refine (takes_bytes h) (decodeUtf8_encodeUtf8 s)

end Pynixd
