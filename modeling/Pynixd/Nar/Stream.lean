import Pynixd.Nar.Archive
import Pynixd.Lib.Brackets

/-!
# The end of a NAR in a stream

A NAR does not say how long it is.  `stream_parse_nar` and `NarForwarder` find its end by
counting the tokens `(` and `)`; the token behind `contents` is file data and is not
looked at.  They go by the *text* of a token and not by its place, so an entry that is
called `(`, or a link to `contents`, is counted too.

* `stopsAtEnd_iff` — they all stop exactly behind the archive **when the brackets that it shows them
  are a nested Dyck word**, and not otherwise.
-/

namespace Pynixd.Nar

open List TokenStream DyckStep

/-! ## One token -/

/-- `depth` and `after_contents`. -/
structure Scan where
  depth : Int := 0
  afterContents : Bool := false
  deriving DecidableEq, Repr

/-- What both parsers do with the body of a token (`_update_depth`, and the loop of
`stream_parse_nar`): the new counters, and whether the archive is complete. -/
def Scan.update (s : Scan) (body : Bytes) : Scan × Bool :=
  if s.afterContents then ({ s with afterContents := false }, false)
  else match decodeAscii body with
    | .error _ => (s, false)
    | .ok tok =>
      if tok = "(" then ({ s with depth := s.depth + 1 }, false)
      else if tok = ")" then ({ s with depth := s.depth - 1 }, s.depth - 1 == 0)
      else if tok = "contents" then ({ s with afterContents := true }, false)
      else (s, false)

/-! ## `stream_parse_nar` -/

/-- The two ends of a copy: what is still to come from `src`, what `dst` was given, and
the captured chunks. -/
structure Pipe where
  src : Bytes
  dst : Bytes := []
  chunks : Option Bytes := none
  deriving DecidableEq, Repr

/-- A read from `src` whose bytes are at once written to `dst` and captured.  The length
of a token is written back as the number it was read as, which is the same eight bytes. -/
def tee : Source UInt8 WireError Pipe where
  pull n p :=
    match wire.pull n p.src with
    | (.ok b, rest) => (.ok b, ⟨rest, p.dst ++ b, p.chunks.map (· ++ b)⟩)
    | (.error e, rest) => (.error e, { p with src := rest })

/-- The guarded reads of `_fwd_token` (`if length > 0`, `if pad`). -/
def readSome (n : Nat) : WireReader Bytes := if 0 < n then readexactly n else pure []

/-- `_fwd_token`: the body of the next token. -/
def fwdToken : WireReader Bytes := do
  let length ← readUInt64
  let data ← readSome length
  let _ ← readSome (narPad length)
  pure data

/-- The loop of `stream_parse_nar`, for at most so many tokens. -/
def parseTokens : Nat → Scan → WireReader Unit
  -- every token takes eight bytes or more, so with the fuel below the stream ends first
  | 0, _ => .fail .eof
  | fuel + 1, s => do
    let raw ← fwdToken
    let (s', complete) := s.update raw
    if complete then pure () else parseTokens fuel s'

/-- `stream_parse_nar`: its answer, and where the two ends stand. -/
def streamParseNar (capture : Bool) (src : Bytes) : Except WireError (Option Bytes) × Pipe :=
  let (answer, p) := (parseTokens (src.length + 1) {}).run tee
    { src := src, chunks := if capture then some [] else none }
  (answer.map fun _ => p.chunks, p)

/-! ## `NarForwarder` -/

structure NarForwarder where
  buf : Bytes := []
  scan : Scan := {}
  bodyLen : Nat := 0
  inBody : Bool := false
  complete : Bool := false
  deriving DecidableEq, Repr

namespace NarForwarder

/-- The header of the token at the front of the buffer, once there are eight bytes. -/
def header (f : NarForwarder) : Option NarForwarder :=
  if f.inBody then some f
  else if f.buf.length < 8 then none
  else some { f with bodyLen := ofLe (f.buf.take 8), inBody := true }

def consumeToken (f : NarForwarder) : Option Bytes × NarForwarder :=
  match f.header with
  | none => (none, f)
  | some g =>
    let need := 8 + g.bodyLen + narPad g.bodyLen
    if g.buf.length < need then (none, g)
    else (some (g.buf.take need), { g with buf := g.buf.drop need, inBody := false })

def updateDepth (f : NarForwarder) (body : Bytes) : NarForwarder :=
  { f with scan := (f.scan.update body).1, complete := f.complete || (f.scan.update body).2 }

/-- The loop of `feed`, for at most so many tokens: the chunks it yields. -/
def feedLoop : Nat → NarForwarder → List Bytes × NarForwarder
  | 0, f => ([], f)
  | fuel + 1, f =>
    match f.consumeToken with
    | (none, f') => ([], f')
    | (some token, f') =>
      let f'' := f'.updateDepth ((token.drop 8).take f'.bodyLen)
      if f''.complete then ([token], f'')
      else
        let (tokens, g) := feedLoop fuel f''
        (token :: tokens, g)

def feed (f : NarForwarder) (data : Bytes) : List Bytes × NarForwarder :=
  if f.complete then ([], f)
  else feedLoop ((f.buf ++ data).length + 1) { f with buf := f.buf ++ data }

/-- The loop of the class's usage example and of `forward_nar`: chunk after chunk until
the archive is complete.  What was yielded, the forwarder, and the chunks not read. -/
def feedAll : NarForwarder → List Bytes → List Bytes × NarForwarder × List Bytes
  | f, [] => ([], f, [])
  | f, chunk :: chunks =>
    let (tokens, g) := f.feed chunk
    if g.complete then (tokens, g, chunks)
    else
      let (tokens', g', unread) := feedAll g chunks
      (tokens ++ tokens', g', unread)

end NarForwarder

/-- What `src.read(65536)` answers, call after call, until there is nothing left. -/
def readChunks : Nat → Bytes → List Bytes
  | 0, _ => []
  | _ + 1, [] => []
  | fuel + 1, src => src.take 65536 :: readChunks fuel (src.drop 65536)

/-- `forward_nar`: what `dst` was given, and the total. -/
def forwardNar (src : Bytes) : Bytes × Nat :=
  let tokens := (NarForwarder.feedAll {} (readChunks src.length src)).1
  (tokens.flatten, tokens.foldl (fun total token => total + token.length) 0)

def narSize (data : Bytes) : Except NarError Nat :=
  let (tokens, f) := NarForwarder.feed {} data
  if f.complete then .ok (tokens.foldl (fun offset token => offset + token.length) 0)
  else .error (.value "Incomplete NAR archive in buffer")

/-! ## Where a scan stops -/

/-- The scan stops at the last of these bodies, and not before. -/
def Scan.stopsAt : Scan → List Bytes → Bool
  | _, [] => false
  | s, b :: bs => if (s.update b).2 then bs.isEmpty else (s.update b).1.stopsAt bs

theorem Scan.stopsAt_cons (s : Scan) (b : Bytes) (bs : List Bytes) : s.stopsAt (b :: bs) =
    if (s.update b).2 then bs.isEmpty else (s.update b).1.stopsAt bs := rfl

theorem length_padded (b : Bytes) : (padded b).length = 8 + b.length + narPad b.length := by
  simp [padded, Nat.add_assoc]

variable {b src : Bytes} {bs : List Bytes} {node : NarNode} {fuel : Nat} {s : String}

theorem flatMap_padded_eq_nil : bs.flatMap padded = [] ↔ bs = [] := by
  constructor
  · cases bs with
    | nil => exact fun _ => rfl
    | cons b bs =>
      intro h
      have hlen := congrArg List.length h
      simp only [flatMap_cons, length_append, length_padded, length_nil] at hlen
      omega
  · rintro rfl
    rfl

theorem length_le_length_flatMap_padded (bs : List Bytes) :
    bs.length ≤ (bs.flatMap padded).length := by
  induction bs with
  | nil => simp
  | cons b bs ih =>
    simp only [flatMap_cons, length_append, length_padded, length_cons]
    omega

/-! ### `stream_parse_nar` -/

theorem takes_readSome (b : Bytes) : Takes (readSome b.length) b b := by
  unfold readSome
  split_ifs with hpos
  · exact takes_readexactly b
  · have hnil : b = [] := length_eq_zero_iff.1 (by omega)
    rw [hnil]
    exact Reads.pure []

theorem takes_fwdToken (h : FitsUInt64 b.length) : Takes fwdToken (padded b) b := by
  have hpad : Takes (readSome (narPad b.length)) (List.replicate (narPad b.length) 0)
      (List.replicate (narPad b.length) (0 : UInt8)) := by
    have := takes_readSome (List.replicate (narPad b.length) (0 : UInt8))
    rwa [length_replicate] at this
  exact (takes_uint64 h).bind ((takes_readSome b).bind (hpad.bind_pure rfl))

theorem length_of_run_parseTokens {s : Scan} {src t : Bytes}
    (h : (parseTokens fuel s).run wire src = (.ok (), t)) : t.length + 8 ≤ src.length := by
  cases fuel with
  | zero => simp [parseTokens] at h
  | succ fuel =>
    by_cases hlen : 8 ≤ src.length
    · have hhead : readUInt64.run wire src = (.ok (ofLe (src.take 8)), src.drop 8) := by
        simp [readUInt64, run_map, readexactly, exactly, Reader.run, flat, hlen, Except.map]
      -- behind the length, a reader only takes away
      have hrun : ∃ r : WireReader Unit, r.run wire (src.drop 8) = (.ok (), t) := by
        have hbind : parseTokens (fuel + 1) s = readUInt64 >>= fun length =>
            (readSome length >>= fun data => readSome (narPad length) >>= fun _ => pure data)
              >>= fun raw =>
                if (s.update raw).2 then pure () else parseTokens fuel (s.update raw).1 := rfl
        rw [hbind, run_bind_of_ok hhead] at h
        exact ⟨_, h⟩
      obtain ⟨r, hr⟩ := hrun
      obtain ⟨bs, hbs, -⟩ := reads_of_run hr
      have hsum := congrArg List.length hbs
      rw [length_drop, length_append] at hsum
      omega
    · have hhead : fwdToken.run wire src = (.error .eof, []) := by
        apply run_bind_of_error
        simp [readUInt64, run_map, readexactly, exactly, Reader.run, flat, hlen, Except.map]
      have herr : (parseTokens (fuel + 1) s).run wire src = (.error .eof, []) := by
        exact run_bind_of_error hhead
      rw [herr] at h
      cases h

/-- **The loop against a row of tokens**: it takes the whole row and stops there exactly
when the scan does. -/
theorem run_parseTokens_iff (hfits : ∀ b ∈ bs, FitsUInt64 b.length) (hfuel : bs.length ≤ fuel)
    (s : Scan) (rest : Bytes) :
    (parseTokens fuel s).run wire (bs.flatMap padded ++ rest) = (.ok (), rest) ↔
      s.stopsAt bs := by
  induction bs generalizing fuel s with
  | nil =>
    -- the loop would have to stop before it has read anything
    simp only [Scan.stopsAt, Bool.false_eq_true, iff_false]
    intro h
    have := length_of_run_parseTokens h
    simp at this
  | cons b bs ih =>
    obtain ⟨fuel, rfl⟩ : ∃ k, fuel = k + 1 := ⟨fuel - 1, by simp at hfuel; omega⟩
    have hb := takes_fwdToken (hfits b (by simp)) (bs.flatMap padded ++ rest)
    rw [flatMap_cons, append_assoc, parseTokens, run_bind_of_ok hb, Scan.stopsAt_cons]
    by_cases hstop : (s.update b).2 = true
    · simp only [hstop, if_true, run_pure, Prod.mk.injEq, true_and, append_left_eq_self,
        flatMap_padded_eq_nil, List.isEmpty_iff]
    · simp only [hstop]
      exact ih (fun b' hb' => hfits b' (by simp [hb'])) (by simpa using hfuel) _

/-- A reader reads through the pipe what it reads from `src`, and `dst` is given exactly
what it took. -/
theorem run_tee {α : Type} (r : WireReader α) (p : Pipe) :
    (∀ a rest, r.run wire p.src = (.ok a, rest) → ∃ took, p.src = took ++ rest ∧
      r.run tee p = (.ok a, ⟨rest, p.dst ++ took, p.chunks.map (· ++ took)⟩)) ∧
    ∀ e rest, r.run wire p.src = (.error e, rest) → (r.run tee p).1 = .error e := by
  induction r generalizing p with
  | done a =>
    constructor
    · intro b rest h
      obtain ⟨rfl, rfl⟩ : a = b ∧ p.src = rest := by simpa [Reader.run] using h
      exact ⟨[], by simp, by simp [Reader.run]⟩
    · intro e rest h
      simp [Reader.run] at h
  | fail e =>
    constructor
    · intro b rest h
      simp [Reader.run] at h
    · intro e' rest h
      obtain ⟨rfl, -⟩ : e = e' ∧ p.src = rest := by simpa [Reader.run] using h
      rfl
  | ask n k ih =>
    by_cases hn : n ≤ p.src.length
    · -- the read succeeds: the pipe moves on by the bytes read
      have hwire : (Reader.ask n k).run wire p.src
          = (k (p.src.take n)).run wire (p.src.drop n) := by
        simp [Reader.run, flat, hn]
      have htee : (Reader.ask n k).run tee p = (k (p.src.take n)).run tee
          ⟨p.src.drop n, p.dst ++ p.src.take n, p.chunks.map (· ++ p.src.take n)⟩ := by
        simp [Reader.run, tee, flat, hn]
      obtain ⟨hok, herr⟩ := ih (p.src.take n)
        ⟨p.src.drop n, p.dst ++ p.src.take n, p.chunks.map (· ++ p.src.take n)⟩
      rw [hwire, htee]
      constructor
      · intro a rest h
        obtain ⟨took, htook, hrun⟩ := hok a rest h
        refine ⟨p.src.take n ++ took, ?_, ?_⟩
        · rw [append_assoc, ← htook, take_append_drop]
        · rw [hrun]
          cases p.chunks <;> simp
      · exact herr
    · constructor
      · intro a rest h
        simp [Reader.run, flat, hn] at h
      · intro e rest h
        obtain ⟨rfl, -⟩ : WireError.eof = e ∧ [] = rest := by
          simpa [Reader.run, flat, hn] using h
        simp [Reader.run, tee, flat, hn]

/-- What a copy of exactly `bytes` leaves behind. -/
def copied (capture : Bool) (bytes rest : Bytes) : Except WireError (Option Bytes) × Pipe :=
  let chunks := if capture then some bytes else none
  (.ok chunks, ⟨rest, bytes, chunks⟩)

/-- **`stream_parse_nar` copies a row of tokens and nothing behind it** exactly when the
scan stops at its last token. -/
theorem streamParseNar_iff (hfits : ∀ b ∈ bs, FitsUInt64 b.length) (capture : Bool) (rest : Bytes) :
    streamParseNar capture (bs.flatMap padded ++ rest) = copied capture (bs.flatMap padded) rest ↔
      ({} : Scan).stopsAt bs := by
  have hfuel : bs.length ≤ (bs.flatMap padded ++ rest).length + 1 := by
    have := length_le_length_flatMap_padded bs
    rw [length_append]
    omega
  rw [← run_parseTokens_iff hfits hfuel {} rest]
  have hpipe := run_tee (parseTokens ((bs.flatMap padded ++ rest).length + 1) {})
    { src := bs.flatMap padded ++ rest, chunks := if capture then some [] else none }
  constructor
  · intro h
    rcases hwire : (parseTokens ((bs.flatMap padded ++ rest).length + 1) {}).run wire
        (bs.flatMap padded ++ rest) with ⟨e | ⟨⟩, left⟩
    · have herr := hpipe.2 e left hwire
      simp only [streamParseNar, copied, herr, Except.map, Prod.mk.injEq, reduceCtorEq,
        false_and] at h
    · obtain ⟨took, -, hrun⟩ := hpipe.1 () left hwire
      simp only [streamParseNar, copied, hrun, Prod.mk.injEq, Pipe.mk.injEq] at h
      rw [h.2.1]
  · intro h
    obtain ⟨took, htook, hrun⟩ := hpipe.1 () rest h
    have htook' : took = bs.flatMap padded := (append_cancel_right htook).symm
    subst htook'
    unfold streamParseNar copied
    simp only [hrun]
    cases capture <;> simp [Except.map]

/-! ### `NarForwarder` -/

namespace NarForwarder

/-- Inside a token, the length is the one its header spells. -/
def Inv (f : NarForwarder) : Prop :=
  f.inBody = true → 8 ≤ f.buf.length ∧ f.bodyLen = ofLe (f.buf.take 8)

variable {b more rest tail : Bytes} {left : List Bytes} {f : NarForwarder}

theorem header_eq (hinv : f.Inv) : f.header =
    if f.buf.length < 8 then none
    else some { f with bodyLen := ofLe (f.buf.take 8), inBody := true } := by
  unfold header
  cases hbody : f.inBody with
  | false => simp
  | true =>
    obtain ⟨hlen, hbl⟩ := hinv hbody
    rw [if_pos rfl, if_neg (by omega), ← hbl]
    obtain ⟨buf, scan, bodyLen, inBody, complete⟩ := f
    obtain rfl : inBody = true := hbody
    rfl

theorem take_eight_of_append {buf tail more b : Bytes} (hlen : 8 ≤ buf.length)
    (h : buf ++ tail = padded b ++ more) : buf.take 8 = leBytes 8 b.length := by
  have htake := congrArg (List.take 8) h
  rw [take_append_of_le_length hlen] at htake
  rw [htake, padded, append_assoc, append_assoc, take_left' (length_leBytes 8 _)]

/-- **One token.**  In front of a token, `_consume_token` takes all of it, or leaves the
buffer as it is when a part is still to come. -/
theorem consumeToken_cases (hinv : f.Inv)
    (hfits : FitsUInt64 b.length) (h : f.buf ++ tail = padded b ++ more) :
    (∃ buf, buf ++ tail = more ∧ f.buf = padded b ++ buf ∧ f.consumeToken =
      (some (padded b), { f with buf := buf, bodyLen := b.length, inBody := false })) ∨
    (f.buf.length < (padded b).length ∧ ∃ g, f.consumeToken = (none, g) ∧ g.Inv ∧
      g.buf = f.buf ∧ g.scan = f.scan ∧ g.complete = f.complete) := by
  unfold consumeToken
  rw [header_eq hinv]
  by_cases hlen : f.buf.length < 8
  · rw [if_pos hlen]
    exact .inr ⟨by rw [length_padded]; omega, f, rfl, hinv, rfl, rfl, rfl⟩
  · have hbl : ofLe (f.buf.take 8) = b.length := by
      rw [take_eight_of_append (by omega) h]
      have := fitsUInt64_natCast.1 hfits
      exact ofLe_leBytes (by omega)
    simp only [if_neg hlen, hbl, ← length_padded]
    by_cases hneed : f.buf.length < (padded b).length
    · rw [if_pos hneed]
      exact .inr ⟨hneed, _, rfl, fun _ => ⟨by simp only; omega, hbl.symm⟩, rfl, rfl, rfl⟩
    · obtain ⟨buf, hbuf⟩ : padded b <+: f.buf :=
        prefix_of_prefix_length_le ⟨more, h.symm⟩ ⟨tail, rfl⟩ (by omega)
      have hmore : buf ++ tail = more := by
        rw [← hbuf, append_assoc] at h
        exact append_cancel_left h
      exact .inl ⟨buf, hmore, hbuf.symm, by rw [← hbuf]; simp⟩

/-- The forwarder has not come to the end: of the row of tokens, `left` is still to be
forwarded, and its bytes are in the buffer or in `tail`. -/
structure Waiting (f : NarForwarder) (left : List Bytes) (tail rest : Bytes) : Prop where
  incomplete : f.complete = false
  inv : f.Inv
  stops : f.scan.stopsAt left
  ahead : f.buf ++ tail = left.flatMap padded ++ rest

/-- The buffer does not hold the next token. -/
def Starved (f : NarForwarder) (left : List Bytes) : Prop :=
  ∀ b ∈ left.head?, f.buf.length < (padded b).length

/-- **The loop of `feed`** forwards the tokens that the buffer holds, and is then at the
end or waits for more. -/
theorem feedLoop_cases (hfits : ∀ b ∈ left, FitsUInt64 b.length)
    (h : f.Waiting left tail rest) {fuel : Nat}
    (hfuel : f.buf.length < fuel) :
    ∃ sent left' g, left = sent ++ left' ∧ feedLoop fuel f = (sent.map padded, g) ∧
      ((g.complete = true ∧ left' = [] ∧ g.buf ++ tail = rest) ∨
        (g.Waiting left' tail rest ∧ g.Starved left')) := by
  induction left generalizing f fuel with
  | nil => exact absurd h.stops (by simp [Scan.stopsAt])
  | cons b bs ih =>
    obtain ⟨fuel, rfl⟩ : ∃ k, fuel = k + 1 := ⟨fuel - 1, by omega⟩
    have hahead : f.buf ++ tail = padded b ++ (bs.flatMap padded ++ rest) := by
      rw [h.ahead, flatMap_cons, append_assoc]
    rcases consumeToken_cases h.inv (hfits b (by simp)) hahead with
      ⟨buf, hmore, hbuf, htok⟩ | ⟨hlen, g, htok, hinv, hgbuf, hgscan, hgcomplete⟩
    · have hbody : ((padded b).drop 8).take b.length = b := by
        rw [padded, append_assoc, drop_left' (length_leBytes 8 _), take_left]
      have hstops := h.stops
      rw [Scan.stopsAt_cons] at hstops
      simp only [feedLoop, htok, hbody, updateDepth, h.incomplete, Bool.false_or]
      by_cases hlast : (f.scan.update b).2 = true
      · -- the token that completes the archive is the last one
        rw [if_pos hlast, List.isEmpty_iff] at hstops
        subst hstops
        refine ⟨[b], [], _, rfl, if_pos hlast, .inl ⟨hlast, rfl, ?_⟩⟩
        simpa using hmore
      · rw [if_neg hlast] at hstops
        rw [if_neg hlast]
        have hshorter : buf.length < fuel := by
          have := congrArg List.length hbuf
          rw [length_append, length_padded] at this
          omega
        obtain ⟨sent, left', g, hleft, hloop, hend⟩ :=
          ih (fun b' hb' => hfits b' (by simp [hb']))
            (f := { f with
              buf := buf, bodyLen := b.length, inBody := false
              scan := (f.scan.update b).1, complete := (f.scan.update b).2 })
            ⟨by simpa using hlast, by simp [Inv], hstops, hmore⟩ hshorter
        exact ⟨b :: sent, left', g, by rw [hleft]; rfl, by rw [hloop]; rfl, hend⟩
    · refine ⟨[], b :: bs, g, rfl, by simp [feedLoop, htok], .inr ⟨⟨?_, hinv, ?_, ?_⟩, ?_⟩⟩
      · rw [hgcomplete, h.incomplete]
      · rw [hgscan]
        exact h.stops
      · rw [hgbuf, h.ahead]
      · intro b' hb'
        obtain rfl : b = b' := by simpa using hb'
        rw [hgbuf]
        exact hlen

theorem Waiting.extend {chunk tail rest : Bytes} (h : f.Waiting left (chunk ++ tail) rest) :
    ({ f with buf := f.buf ++ chunk } : NarForwarder).Waiting left tail rest := by
  refine ⟨h.incomplete, fun hbody => ?_, h.stops, by simpa using h.ahead⟩
  obtain ⟨hlen, hbl⟩ := h.inv hbody
  refine ⟨?_, ?_⟩
  · rw [length_append]
    omega
  · rw [take_append_of_le_length hlen]
    exact hbl

/-- **Chunk after chunk.**  Whatever the chunks, the forwarder yields the whole row of
tokens, is complete, and what it read too much is still in its buffer. -/
theorem feedAll_eq {chunks left : List Bytes} (hfits : ∀ b ∈ left, FitsUInt64 b.length)
    (h : f.Waiting left chunks.flatten rest)
    (hstarved : f.Starved left) :
    ∃ tokens g unread, feedAll f chunks = (tokens, g, unread) ∧
      tokens.flatten = left.flatMap padded ∧ g.complete = true ∧
      g.buf ++ unread.flatten = rest := by
  induction chunks generalizing f left with
  | nil =>
    -- no chunk is left, but a token is, and the buffer does not hold it
    have hahead := h.ahead
    cases left with
    | nil => exact absurd h.stops (by simp [Scan.stopsAt])
    | cons b bs =>
      have hshort := hstarved b (by simp)
      have hlen := congrArg List.length hahead
      simp only [flatten_nil, append_nil, flatMap_cons,
        length_append] at hlen
      omega
  | cons chunk chunks ih =>
    have hfeed : f.feed chunk = feedLoop ((f.buf ++ chunk).length + 1)
        { f with buf := f.buf ++ chunk } := by
      rw [feed, h.incomplete]
      rfl
    obtain ⟨sent, left', g, rfl, hloop, hend⟩ :=
      feedLoop_cases hfits h.extend (Nat.lt_succ_self _)
    rw [← hfeed] at hloop
    rcases hend with ⟨hcomplete, rfl, hrest⟩ | ⟨hwait, hstarved'⟩
    · refine ⟨sent.map padded, g, chunks, ?_, ?_, hcomplete, hrest⟩
      · simp only [feedAll, hloop, hcomplete, if_true]
      · rw [append_nil, flatMap_def]
    · obtain ⟨tokens, g', unread, hall, htokens, hdone⟩ :=
        ih (fun b hb => hfits b (by simp [hb])) hwait hstarved'
      refine ⟨sent.map padded ++ tokens, g', unread, ?_, ?_, hdone⟩
      · simp only [feedAll, hloop, hwait.incomplete, hall, Bool.false_eq_true, if_false]
      · rw [flatten_append, htokens, flatMap_append, ← flatMap_def]

end NarForwarder

theorem foldl_length_eq (tokens : List Bytes) (n : Nat) :
    tokens.foldl (fun total token => total + token.length) n = n + tokens.flatten.length := by
  induction tokens generalizing n with
  | nil => simp
  | cons t ts ih => rw [foldl_cons, ih, flatten_cons, length_append]; omega

theorem flatten_readChunks (h : src.length ≤ fuel) : (readChunks fuel src).flatten = src := by
  induction fuel generalizing src with
  | zero => rw [length_eq_zero_iff.1 (Nat.le_zero.1 h)]; rfl
  | succ fuel ih =>
    cases src with
    | nil => rfl
    | cons x xs =>
      rw [readChunks, flatten_cons, ih, take_append_drop]
      · rw [length_drop]
        omega
      · simp

/-! ## The brackets of an archive -/

/-- What a counter takes a text for. -/
def mark (s : String) : List DyckStep :=
  if s = "(" then [U] else if s = ")" then [D] else []

mutual
/-- The brackets that the archive of a tree shows to a counter: its own, and the names and
targets that look like one.  A link to `contents` hides the bracket behind its target. -/
def marks : NarNode → List DyckStep
  | .directory entries => U :: (entryMarks entries ++ [D])
  | .regular _ _ => [U, D]
  | .symlink target => U :: if target = "contents" then [] else mark target ++ [D]

def entryMarks : List (String × NarNode) → List DyckStep
  | [] => []
  | (name, node) :: entries => U :: (mark name ++ marks node ++ [D]) ++ entryMarks entries
end

/-- **The condition on a tree**: its brackets are balanced, and not balanced anywhere
before their end. -/
def WellMarked (node : NarNode) : Prop :=
  ∃ p : DyckWord, p.toList = marks node ∧ p.IsNested

/-- The brackets that a scan sees in a row of bodies, the flag `after_contents` given. -/
def seen : Bool → List Bytes → List DyckStep
  | _, [] => []
  | true, _ :: bs => seen false bs
  | false, b :: bs =>
    match decodeAscii b with
    | .error _ => seen false bs
    | .ok tok => mark tok ++ seen (tok == "contents") bs

/-- The flag `after_contents` behind a row of bodies. -/
def hides : Bool → List Bytes → Bool
  | after, [] => after
  | true, _ :: bs => hides false bs
  | false, b :: bs =>
    match decodeAscii b with
    | .error _ => hides false bs
    | .ok tok => hides (tok == "contents") bs

@[simp] theorem seen_nil (after : Bool) : seen after [] = [] := by cases after <;> rfl

@[simp] theorem hides_nil (after : Bool) : hides after [] = after := by cases after <;> rfl

@[simp] theorem seen_hidden (b : Bytes) (bs : List Bytes) :
    seen true (b :: bs) = seen false bs := rfl

@[simp] theorem hides_hidden (b : Bytes) (bs : List Bytes) :
    hides true (b :: bs) = hides false bs := rfl

theorem seen_hides_append (after : Bool) (bs cs : List Bytes) :
    seen after (bs ++ cs) = seen after bs ++ seen (hides after bs) cs ∧
      hides after (bs ++ cs) = hides (hides after bs) cs := by
  induction bs generalizing after with
  | nil => cases after <;> simp [seen, hides]
  | cons b bs ih =>
    cases after with
    | true => simp only [cons_append, seen, hides, ih, and_self]
    | false =>
      simp only [cons_append, seen, hides]
      cases decodeAscii b with
      | error e => exact ih false
      | ok tok => simp only [ih, append_assoc, and_self]

theorem seen_text (h : IsAscii s) (bs : List Bytes) :
    seen false (asciiBytes s :: bs) = mark s ++ seen (s == "contents") bs := by
  rw [seen, decodeAscii_asciiBytes h]

theorem hides_text (h : IsAscii s) (bs : List Bytes) :
    hides false (asciiBytes s :: bs) = hides (s == "contents") bs := by
  rw [hides, decodeAscii_asciiBytes h]

/-- **A scan counts the brackets it sees**: in front of a last `)` that is not hidden, it
stops there exactly when the count does. -/
theorem stopsAt_concat_iff (hb : decodeAscii b = .ok ")") {bs : List Bytes}
    (d : Int) {after : Bool} (h : hides after bs = false) :
    Scan.stopsAt ⟨d, after⟩ (bs ++ [b]) = Brackets.closesLast d (seen after bs ++ [D]) := by
  induction bs generalizing d after with
  | nil =>
    obtain rfl : after = false := by simpa [hides] using h
    simp [Scan.stopsAt, Scan.update, hb, seen, Brackets.closesLast]
  | cons x xs ih =>
    rw [cons_append, Scan.stopsAt_cons]
    cases after with
    | true => simpa [Scan.update] using ih d (by simpa [hides] using h : hides false xs = false)
    | false =>
      rw [hides] at h
      rw [seen]
      cases hx : decodeAscii x with
      | error e =>
        simp only [hx] at h
        simpa [Scan.update, hx] using ih d h
      | ok tok =>
        simp only [hx] at h
        have hgo := fun d' => ih d' h
        by_cases hopen : tok = "("
        · subst hopen
          simpa [Scan.update, hx, mark, Brackets.closesLast] using hgo (d + 1)
        by_cases hclose : tok = ")"
        · subst hclose
          -- a bracket that takes the count to zero is not the last one here
          by_cases hzero : d - 1 = 0
          · simp [Scan.update, hx, mark, Brackets.closesLast, hzero,
              isEmpty_eq_false_iff.2]
          · simpa [Scan.update, hx, mark, Brackets.closesLast, hzero] using hgo (d - 1)
        by_cases hcontents : tok = "contents"
        · subst hcontents
          simpa [Scan.update, hx, mark] using hgo d
        · have hne : (tok == "contents") = false := by simpa using hcontents
          simpa [Scan.update, hx, mark, hopen, hclose, hcontents, hne] using hgo d

mutual
theorem seen_tokens (node : NarNode) (hw : ∀ t ∈ tokens node, t.Writable) :
    seen false ((tokens node).map Token.body) = marks node ∧
      hides false ((tokens node).map Token.body) = false := by
  have hopen : IsAscii "(" := by decide
  have hclose : IsAscii ")" := by decide
  have htype : IsAscii "type" := by decide
  match node with
  | .directory entries =>
    have hkind : IsAscii "directory" := by decide
    obtain ⟨hseen, hhides⟩ := seen_entryTokens entries
      fun t ht => hw t (by simp [tokens, ht])
    simp [tokens, marks, Token.body, seen_text, hides_text, seen_hides_append, hopen,
      hclose, htype, hkind, hseen, hhides, mark]
  | .regular contents executable =>
    have hkind : IsAscii "regular" := by decide
    have hflag : IsAscii "executable" := by decide
    have hempty : IsAscii "" := by decide
    have hkey : IsAscii "contents" := by decide
    cases executable <;>
      simp [tokens, marks, Token.body, seen_text, hides_text, hopen, hclose, htype, hkind, hflag,
        hempty, hkey, mark]
  | .symlink target =>
    have hkind : IsAscii "symlink" := by decide
    have hkey : IsAscii "target" := by decide
    have htarget : IsAscii target := (hw (.text target) (by simp [tokens])).2 target rfl
    by_cases hc : target = "contents"
    · subst hc
      simp [tokens, marks, Token.body, seen_text, hides_text, hopen, htype, hkind,
        hkey, htarget, mark]
    · have hne : (target == "contents") = false := by simpa using hc
      simp [tokens, marks, Token.body, seen_text, hides_text, hopen, hclose, htype, hkind,
        hkey, htarget, hne, hc, mark]

theorem seen_entryTokens (entries : List (String × NarNode))
    (hw : ∀ t ∈ entryTokens entries, t.Writable) :
    seen false ((entryTokens entries).map Token.body) = entryMarks entries ∧
      hides false ((entryTokens entries).map Token.body) = false := by
  match entries with
  | [] => simp [entryTokens, entryMarks]
  | (name, node) :: entries =>
    have hopen : IsAscii "(" := by decide
    have hclose : IsAscii ")" := by decide
    have hentry : IsAscii "entry" := by decide
    have hkey : IsAscii "name" := by decide
    have hnode : IsAscii "node" := by decide
    have hname : IsAscii name := (hw (.text name) (by simp [entryTokens])).2 name rfl
    obtain ⟨hseen, hhides⟩ := seen_tokens node
      fun t ht => hw t (by simp [entryTokens, ht])
    obtain ⟨hseen', hhides'⟩ := seen_entryTokens entries
      fun t ht => hw t (by simp [entryTokens, ht])
    -- a name `contents` hides the token `node`, which is no bracket
    cases hc : name == "contents" <;>
      simp [entryTokens, entryMarks, Token.body, seen_text, hides_text, seen_hides_append,
        hopen, hclose, hentry, hkey, hnode, hname, hseen, hhides, hseen',
        hhides', hc, mark]
end

theorem tokens_eq_concat (hw : ∀ t ∈ tokens node, t.Writable) :
    ∃ front, tokens node = front ++ [.text ")"] ∧
      (node ≠ .symlink "contents" → hides false (front.map Token.body) = false) := by
  have hopen : IsAscii "(" := by decide
  have htype : IsAscii "type" := by decide
  cases node with
  | directory entries =>
    have hkind : IsAscii "directory" := by decide
    obtain ⟨-, hhides⟩ := seen_entryTokens entries
      fun t ht => hw t (by simp [tokens, ht])
    refine ⟨[.text "(", .text "type", .text "directory"] ++ entryTokens entries, rfl, fun _ => ?_⟩
    simp [Token.body, hides_text, hopen, htype, hkind, hhides]
  | regular contents executable =>
    have hkind : IsAscii "regular" := by decide
    have hflag : IsAscii "executable" := by decide
    have hempty : IsAscii "" := by decide
    have hkey : IsAscii "contents" := by decide
    refine ⟨[.text "(", .text "type", .text "regular"]
      ++ (if executable then [.text "executable", .text ""] else [])
      ++ [.text "contents", .data contents], by simp [tokens], fun _ => ?_⟩
    cases executable <;>
      simp [Token.body, hides_text, hopen, htype, hkind, hflag, hempty, hkey]
  | symlink target =>
    have hkind : IsAscii "symlink" := by decide
    have hkey : IsAscii "target" := by decide
    have htarget : IsAscii target := (hw (.text target) (by simp [tokens])).2 target rfl
    refine ⟨[.text "(", .text "type", .text "symlink", .text "target", .text target],
      by simp [tokens], fun hne => ?_⟩
    simpa [Token.body, hides_text, hopen, htype, hkind, hkey, htarget] using hne

/-- **A scan of an archive** stops exactly at its last token when its brackets are well
marked. -/
theorem stopsAt_bodies_iff (hw : ∀ t ∈ tokens node, t.Writable) :
    ({} : Scan).stopsAt (bodies node) ↔ WellMarked node := by
  have hmagic : IsAscii "nix-archive-1" := by decide
  have hclose : IsAscii ")" := by decide
  obtain ⟨ms, hms⟩ : ∃ ms, marks node = U :: ms := by cases node <;> exact ⟨_, rfl⟩
  rw [WellMarked, hms, ← Brackets.closesLast_iff_isNested, ← hms]
  by_cases hlink : node = .symlink "contents"
  · -- the closing parenthesis is taken for file data: the scan never stops
    subst hlink
    decide
  · obtain ⟨front, hfront, hhides⟩ := tokens_eq_concat hw
    have hseen := (seen_tokens node hw).1
    rw [hfront, map_append, (seen_hides_append ..).1, hhides hlink] at hseen
    have hshown : hides false (asciiBytes "nix-archive-1" :: front.map Token.body) = false := by
      simpa [hides_text hmagic] using hhides hlink
    have hscan := stopsAt_concat_iff (decodeAscii_asciiBytes hclose) 0 hshown
    have hbodies : bodies node = asciiBytes "nix-archive-1" :: front.map Token.body
        ++ [asciiBytes ")"] := by simp [bodies, hfront, Token.body]
    rw [hbodies, hscan, ← hseen]
    rfl

/-! ## The end of an archive -/

/-- All the readers of a stream stop exactly behind `bytes` and leave `rest`. -/
structure StopsAtEnd (bytes rest : Bytes) : Prop where
  /-- `stream_parse_nar` copies `bytes` and leaves `rest` in the stream. -/
  parsed : ∀ capture, streamParseNar capture (bytes ++ rest) = copied capture bytes rest
  /-- `NarForwarder` yields `bytes`, in whatever chunks it is fed. -/
  forwarded : ∀ chunks : List Bytes, chunks.flatten = bytes ++ rest →
    ∃ tokens f unread, NarForwarder.feedAll {} chunks = (tokens, f, unread) ∧
      tokens.flatten = bytes ∧ f.complete = true ∧ f.buf ++ unread.flatten = rest
  measured : narSize (bytes ++ rest) = .ok bytes.length
  /-- `forward_nar` copies `bytes`. -/
  copiedAll : forwardNar (bytes ++ rest) = (bytes, bytes.length)

theorem NarForwarder.waiting_start {rest : Bytes}
    (hstop : ({} : Scan).stopsAt bs) {tail : Bytes} (h : tail = bs.flatMap padded ++ rest) :
    ({} : NarForwarder).Waiting bs tail rest ∧ ({} : NarForwarder).Starved bs := by
  refine ⟨⟨rfl, by simp [Inv], hstop, by simpa using h⟩, fun b _ => ?_⟩
  rw [length_padded]
  simp only [length_nil]
  omega

theorem stopsAtEnd_of_stopsAt (hfits : ∀ b ∈ bs, FitsUInt64 b.length)
    (hstop : ({} : Scan).stopsAt bs) (rest : Bytes) : StopsAtEnd (bs.flatMap padded) rest := by
  have hfeed : ∀ chunks : List Bytes, chunks.flatten = bs.flatMap padded ++ rest →
      ∃ tokens f unread, NarForwarder.feedAll {} chunks = (tokens, f, unread) ∧
        tokens.flatten = bs.flatMap padded ∧ f.complete = true ∧
          f.buf ++ unread.flatten = rest := by
    intro chunks hchunks
    obtain ⟨hwait, hstarved⟩ := NarForwarder.waiting_start hstop hchunks
    exact NarForwarder.feedAll_eq hfits hwait hstarved
  refine ⟨fun capture => (streamParseNar_iff hfits capture rest).2 hstop, hfeed, ?_, ?_⟩
  · -- `nar_size` feeds its buffer as one chunk
    obtain ⟨tokens, f, unread, hall, htokens, hcomplete, -⟩ :=
      hfeed [bs.flatMap padded ++ rest] (by simp)
    rcases hone : NarForwarder.feed {} (bs.flatMap padded ++ rest) with ⟨tokens', f'⟩
    have hsame : tokens = tokens' ∧ f = f' := by
      simp only [NarForwarder.feedAll, hone] at hall
      split_ifs at hall
      · exact ⟨(congrArg Prod.fst hall).symm, (congrArg (·.2.1) hall).symm⟩
      · exact ⟨by simpa using (congrArg Prod.fst hall).symm, (congrArg (·.2.1) hall).symm⟩
    rw [narSize, hone]
    simp only [← hsame.1, ← hsame.2, hcomplete, if_true]
    rw [foldl_length_eq, htokens, Nat.zero_add]
  · obtain ⟨tokens, f, unread, hall, htokens, -⟩ :=
      hfeed (readChunks (bs.flatMap padded ++ rest).length (bs.flatMap padded ++ rest))
        (flatten_readChunks le_rfl)
    simp only [forwardNar, hall]
    rw [foldl_length_eq, htokens, Nat.zero_add]

/-- **Where the readers of a NAR stream stop.**  Behind the archive of a tree, whatever
follows it, exactly when the brackets that its tokens show are well marked. -/
theorem stopsAtEnd_iff {tree : NarNode} {bytes : Bytes} (h : writeNar tree = .ok bytes)
    (rest : Bytes) : StopsAtEnd bytes rest ↔ WellMarked tree := by
  obtain ⟨hwritable, hbytes⟩ := wrote_of_writeNar h
  have hfits : ∀ b ∈ bodies tree, FitsUInt64 b.length := by
    intro b hb
    obtain ⟨t, ht, rfl⟩ := mem_map.1 hb
    exact (hwritable t ht).1
  have hrow : bytes = (bodies tree).flatMap padded := by
    rw [hbytes, bodies, flatMap_map]
  rw [← stopsAt_bodies_iff fun t ht => hwritable t (mem_cons_of_mem _ ht), hrow]
  constructor
  · exact fun hend => (streamParseNar_iff hfits false rest).1 (hend.parsed false)
  · exact fun hstop => stopsAtEnd_of_stopsAt hfits hstop rest

/-- A directory with a file called `(` and a file called `)`, in this order: the names are
counted, and the count still comes out. -/
def parenthesisNames : NarNode :=
  .directory [("(", .regular [1, 2, 3] true), (")", .regular [] false)]

theorem stopsAtEnd_parenthesisNames :
    ∃ bytes, writeNar parenthesisNames = .ok bytes ∧ StopsAtEnd bytes [7, 7] := by
  have hbytes : writeNar parenthesisNames = .ok ((bodies parenthesisNames).flatMap padded) := by
    decide +kernel
  have hmarked : WellMarked parenthesisNames :=
    (Brackets.closesLast_iff_isNested _).1 (by decide)
  exact ⟨_, hbytes, (stopsAtEnd_iff hbytes [7, 7]).2 hmarked⟩

/-- A link to `)` ends its own archive one token too early: the readers leave the last
sixteen bytes of it in the stream. -/
theorem streamParseNar_link_early : ∃ bytes, writeNar (.symlink ")") = .ok bytes ∧
    ¬ StopsAtEnd bytes [] ∧ (streamParseNar false bytes).2.src = padded (asciiBytes ")") ∧
    narSize bytes = .ok (bytes.length - 16) := by
  refine ⟨(bodies (.symlink ")")).flatMap padded, by decide +kernel, fun h => ?_,
    by decide +kernel, by decide +kernel⟩
  have hsrc := congrArg (fun r => r.2.src.length) (h.parsed false)
  revert hsrc
  decide +kernel

end Pynixd.Nar
