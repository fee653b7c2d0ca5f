import Pynixd.Wire.Io

/-!
# Framed payloads

Some requests end in a framed source: a length and that many bytes, again and again,
and a length of zero.  `pynixd/wire.py` reads them in two ways, and both can be
interrupted between two reads of the client's connection: by a write to the backend
that raises, or by the cancellation of the task that forwards.

* `encodeFrames`, `Payload` — what a client sends;
* `interruptible` — the client's connection, with the moment the backend gives up;
* `framed` — `FramedReader`, over any source, and `drainFrames` — `ensure_eof`;
* `forwardFramed` — `forward_framed`, with the frames it sends on.

The results say where the client's connection stands afterwards: exactly behind the
terminator, or still in front of it.
-/

namespace Pynixd

open List TokenStream

/-! ## Frames -/

/-- The bytes of a framed payload: each frame behind its length, then a length of
zero. -/
def encodeFrames : List Bytes → Bytes
  | [] => leBytes 8 0
  | f :: fs => leBytes 8 f.length ++ (f ++ encodeFrames fs)

/-- A payload that a client can send: no frame is empty, since an empty one would be
the terminator, and every length fits its field. -/
structure Payload where
  frames : List Bytes
  wellFramed : ∀ f ∈ frames, f ≠ [] ∧ FitsUInt64 f.length

namespace Payload

def bytes (p : Payload) : Bytes := encodeFrames p.frames

/-- What the frames carry, end to end. -/
def content (p : Payload) : Bytes := p.frames.flatten

end Payload

/-- The reads it takes to get past a payload: a length and a body for each frame, and
the terminator. -/
def payloadReads (fs : List Bytes) : Nat := 2 * fs.length + 1

theorem length_encodeFrames_pos (fs : List Bytes) : 8 ≤ (encodeFrames fs).length := by
  cases fs with
  | nil => simp [encodeFrames]
  | cons f fs => simp [encodeFrames]

theorem length_lt_length_encodeFrames (fs : List Bytes) : fs.length < (encodeFrames fs).length := by
  induction fs with
  | nil => simp [encodeFrames]
  | cons f fs ih =>
    simp only [encodeFrames, length_append, length_leBytes, length_cons]
    omega

/-! ## The client's connection, and what interrupts a reader of it -/

/-- An interruption: the number of reads that complete before it, and the bytes of the
read under way that are lost with it. -/
structure Strike where
  after : Nat
  lost : Nat
  deriving DecidableEq, Repr

/-- A connection that is read inside a task, with the number of reads completed. -/
structure Conn where
  src : Bytes
  reads : Nat
  deriving DecidableEq, Repr

/-- The client's connection as a source.  A read that is interrupted never completed,
so it lost fewer bytes than it asked for. -/
def interruptible (strike : Option Strike) : Source UInt8 WireError Conn where
  pull n c :=
    if strike.any (·.after == c.reads) then
      (.error .interrupted,
        { c with src := c.src.drop (min ((strike.map Strike.lost).getD 0) (n - 1)) })
    else
      let (answer, rest) := wire.pull n c.src
      (answer, ⟨rest, c.reads + 1⟩)

/-- The strike falls before `n` reads are done. -/
def Early (strike : Option Strike) (n : Nat) : Prop := ∃ k, strike = some k ∧ k.after < n

/-- The strike, if there is one, has not fallen within the first `n` reads. -/
def Pending (strike : Option Strike) (n : Nat) : Prop := ∀ k, strike = some k → n ≤ k.after

theorem Early.mono {strike : Option Strike} {m n : Nat} (h : Early strike m) (hmn : m ≤ n) :
    Early strike n := by
  obtain ⟨k, hk, hlt⟩ := h
  exact ⟨k, hk, by omega⟩

theorem Pending.not_early {strike : Option Strike} {n : Nat} (h : Pending strike n) :
    ¬ Early strike n := by
  rintro ⟨k, hk, hlt⟩
  have := h k hk
  omega

/-- One read of a connection that has the bytes: it is struck and leaves more than what
follows them, or it takes them. -/
theorem pull_interruptible {strike : Option Strike} {reads : Nat} (bs rest : Bytes)
    (hpos : 0 < bs.length) (hpend : Pending strike reads) :
    (Early strike (reads + 1) ∧ ∃ c', rest.length < c'.src.length ∧
      (interruptible strike).pull bs.length ⟨bs ++ rest, reads⟩ = (.error .interrupted, c')) ∨
    (Pending strike (reads + 1) ∧
      (interruptible strike).pull bs.length ⟨bs ++ rest, reads⟩ = (.ok bs, ⟨rest, reads + 1⟩)) := by
  cases strike with
  | none =>
    right
    refine ⟨fun k hk => (by cases hk), ?_⟩
    simp [interruptible, flat]
  | some k =>
    have hk : reads ≤ k.after := hpend k rfl
    by_cases heq : k.after = reads
    · left
      refine ⟨⟨k, rfl, by omega⟩, _, ?_, by simp [interruptible, heq]; rfl⟩
      simp only [length_drop, length_append]
      omega
    · right
      refine ⟨fun k' hk' => ?_, by simp [interruptible, heq, flat]⟩
      obtain rfl : k = k' := by simpa using hk'
      omega

/-! ## Loops over the frames -/

/-- The loop over the frames of a payload: a length of zero ends it, and any other
length is followed by the frame. -/
def foldFrames {β : Type} (step : β → Bytes → β) : Nat → β → WireReader β
  | 0, _ => .fail .eof
  | fuel + 1, b => do
    let size ← readUInt64
    if size = 0 then pure b
    else do
      let data ← readexactly size
      foldFrames step fuel (step b data)

/-- What `forward_framed` holds, and what it has done. -/
structure Forwarding where
  pending : List Bytes
  pendingSize : Nat
  sent : List Bytes
  /-- The length that was written before each of them, which `on_bytes` takes too. -/
  counts : List Nat

/-- `_flush`: what is pending goes out as one frame. -/
def Forwarding.flush (s : Forwarding) : Forwarding :=
  if s.pendingSize = 0 then s
  else ⟨[], 0, s.sent ++ [s.pending.flatten], s.counts ++ [s.pendingSize]⟩

/-- One turn of `forward_framed`: the frame joins what is pending, and a full chunk goes
out. -/
def Forwarding.gather (chunkSize : Nat) (s : Forwarding) (data : Bytes) : Forwarding :=
  let s := { s with pending := s.pending ++ [data], pendingSize := s.pendingSize + data.length }
  if chunkSize ≤ s.pendingSize then s.flush else s

/-- `forward_framed`: client frames are gathered up to the chunk size and sent on, the
terminator aside. -/
def forwardFramed (chunkSize fuel : Nat) : WireReader Forwarding :=
  Forwarding.flush <$> foldFrames (Forwarding.gather chunkSize) fuel ⟨[], 0, [], []⟩

/-- The loop of `FramedReader.ensure_eof`: skip frames up to the terminator. -/
def drainFrames (fuel : Nat) : WireReader Unit := foldFrames (fun _ _ => ()) fuel ()

/-! ## `FramedReader` -/

/-- The state of a `FramedReader`: what it took and has not handed out, whether it saw
the terminator, and its source. -/
structure Framed (σ : Type) where
  buf : Bytes
  eof : Bool
  src : σ

/-- The loop of `FramedReader.readexactly`: take frames until `n` bytes are there.
Every frame brings at least one byte, so `n` turns are enough. -/
def fill {σ : Type} (under : Source UInt8 WireError σ) (n : Nat) :
    Nat → Framed σ → Except WireError Unit × Framed σ
  | 0, st => (.ok (), st)
  | turns + 1, st =>
    if n ≤ st.buf.length then (.ok (), st)
    else if st.eof then (.error .eof, st)
    else
      match readUInt64.run under st.src with
      | (.error e, src) => (.error e, { st with src := src })
      | (.ok 0, src) => (.error .eof, { st with src := src, eof := true })
      | (.ok (size + 1), src) =>
        match (readexactly (size + 1)).run under src with
        | (.error e, src) => (.error e, { st with src := src })
        | (.ok data, src) => fill under n turns { st with buf := st.buf ++ data, src := src }

/-- `FramedReader` as a source: the content of the frames, over the source of the
frames. -/
def framed {σ : Type} (under : Source UInt8 WireError σ) : Source UInt8 WireError (Framed σ) where
  pull n st :=
    match fill under n n st with
    | (.error e, st) => (.error e, st)
    | (.ok (), st) => (.ok (st.buf.take n), { st with buf := st.buf.drop n })

/-! ## Where a loop over the frames leaves the connection -/

section Loops

variable {β : Type} {strike : Option Strike}

theorem run_readUInt64 {n reads : Nat} (rest : Bytes) (hn : FitsUInt64 n)
    (hpend : Pending strike reads) : (Early strike (reads + 1) ∧ ∃ c', rest.length < c'.src.length ∧
      readUInt64.run (interruptible strike) ⟨leBytes 8 n ++ rest, reads⟩ =
        (.error .interrupted, c')) ∨ (Pending strike (reads + 1) ∧
      readUInt64.run (interruptible strike) ⟨leBytes 8 n ++ rest, reads⟩ =
        (.ok n, ⟨rest, reads + 1⟩)) := by
  have hval : ofLe (leBytes 8 n) = n := by
    rw [fitsUInt64_natCast] at hn
    exact ofLe_leBytes (by omega)
  have hrun : ∀ c, readUInt64.run (interruptible strike) c =
      (((interruptible strike).pull 8 c).1.map ofLe, ((interruptible strike).pull 8 c).2) := by
    intro c
    rw [readUInt64, run_map, readexactly, exactly, Reader.run]
    rcases (interruptible strike).pull 8 c with ⟨e | bs, c'⟩ <;> rfl
  have hpull := pull_interruptible (leBytes 8 n) rest (by simp) hpend
  rw [length_leBytes] at hpull
  rcases hpull with ⟨hearly, c', hlen, hp⟩ | ⟨hpend', hp⟩
  · exact .inl ⟨hearly, c', hlen, by rw [hrun, hp]; rfl⟩
  · exact .inr ⟨hpend', by rw [hrun, hp]; simp [Except.map, hval]⟩

theorem run_readexactly {bs : Bytes} {reads : Nat} (rest : Bytes) (hne : bs ≠ [])
    (hpend : Pending strike reads) : (Early strike (reads + 1) ∧ ∃ c', rest.length < c'.src.length ∧
      (readexactly bs.length).run (interruptible strike) ⟨bs ++ rest, reads⟩ =
        (.error .interrupted, c')) ∨ (Pending strike (reads + 1) ∧
      (readexactly bs.length).run (interruptible strike) ⟨bs ++ rest, reads⟩ =
        (.ok bs, ⟨rest, reads + 1⟩)) := by
  rw [readexactly, exactly, Reader.run]
  rcases pull_interruptible bs rest (length_pos_iff.2 hne) hpend with
    ⟨hearly, c', hlen, hp⟩ | ⟨hpend', hp⟩
  · exact .inl ⟨hearly, c', hlen, by rw [hp]⟩
  · exact .inr ⟨hpend', by rw [hp]; rfl⟩

theorem encodeFrames_cons_append (f : Bytes) (fs : List Bytes) (rest : Bytes) :
    encodeFrames (f :: fs) ++ rest = leBytes 8 f.length ++ (f ++ (encodeFrames fs ++ rest)) := by
  simp [encodeFrames]

theorem payloadReads_cons (f : Bytes) (fs : List Bytes) (reads : Nat) :
    reads + payloadReads (f :: fs) = reads + 1 + 1 + payloadReads fs := by
  simp only [payloadReads, length_cons]
  omega

/-- **A loop over the frames either gets past the terminator or is struck in front of
it.**  It folds over every frame in order, and it takes one read for each length, one
for each frame and one for the terminator. -/
theorem run_foldFrames (step : β → Bytes → β) {fs : List Bytes}
    (hfs : ∀ f ∈ fs, f ≠ [] ∧ FitsUInt64 f.length) {fuel : Nat} (hfuel : fs.length < fuel)
    {reads : Nat} (rest : Bytes) (hpend : Pending strike reads) (b : β) :
    (Early strike (reads + payloadReads fs) ∧ ∃ c', rest.length < c'.src.length ∧
      (foldFrames step fuel b).run (interruptible strike) ⟨encodeFrames fs ++ rest, reads⟩ =
        (.error .interrupted, c')) ∨ (Pending strike (reads + payloadReads fs) ∧
      (foldFrames step fuel b).run (interruptible strike) ⟨encodeFrames fs ++ rest, reads⟩ =
        (.ok (fs.foldl step b), ⟨rest, reads + payloadReads fs⟩)) := by
  induction fs generalizing fuel reads b with
  | nil =>
    obtain ⟨fuel, rfl⟩ : ∃ k, fuel = k + 1 := ⟨fuel - 1, by omega⟩
    rw [foldFrames]
    rcases run_readUInt64 (n := 0) rest (by decide) hpend with
      ⟨hearly, c', hlen, hr⟩ | ⟨hpend', hr⟩
    · exact .inl ⟨hearly, c', hlen, run_bind_of_error hr⟩
    · exact .inr ⟨hpend', by rw [encodeFrames, run_bind_of_ok hr]; rfl⟩
  | cons f fs ih =>
    obtain ⟨fuel, rfl⟩ : ∃ k, fuel = k + 1 := ⟨fuel - 1, by omega⟩
    obtain ⟨hne, hfit⟩ := hfs f (by simp)
    have hsize : f.length ≠ 0 := by simpa using hne
    have hfuel' : fs.length < fuel := by simpa using hfuel
    rw [foldFrames, encodeFrames_cons_append, payloadReads_cons]
    rcases run_readUInt64 (f ++ (encodeFrames fs ++ rest)) hfit hpend with
      ⟨hearly, c', hlen, hr⟩ | ⟨hpend₁, hr⟩
    · refine .inl ⟨hearly.mono (by omega), c', ?_, run_bind_of_error hr⟩
      simp only [length_append] at hlen
      omega
    rw [run_bind_of_ok hr, if_neg hsize]
    rcases run_readexactly (encodeFrames fs ++ rest) hne hpend₁ with
      ⟨hearly, c', hlen, hr'⟩ | ⟨hpend₂, hr'⟩
    · refine .inl ⟨hearly.mono (by omega), c', ?_, run_bind_of_error hr'⟩
      simp only [length_append] at hlen
      omega
    rw [run_bind_of_ok hr']
    exact ih (fun g hg => hfs g (by simp [hg])) hfuel' hpend₂ (step b f)

end Loops

/-! ## Where a `FramedReader` leaves the connection -/

section FramedReader

variable {α : Type} {strike : Option Strike}

/-- The reader stands in front of the frames `fs` and has `buf` in hand. -/
def standing (buf : Bytes) (fs : List Bytes) (rest : Bytes) (reads : Nat) : Framed Conn :=
  ⟨buf, false, ⟨encodeFrames fs ++ rest, reads⟩⟩

/-- The reader stands behind the terminator. -/
def past (buf : Bytes) (rest : Bytes) (reads : Nat) : Framed Conn :=
  ⟨buf, true, ⟨rest, reads⟩⟩

/-- The connection still has to get past the terminator: more is left than `rest`. -/
def Short (rest : Bytes) (st : Framed Conn) : Prop := rest.length < st.src.src.length

theorem short_standing (buf : Bytes) (fs : List Bytes) (rest : Bytes) (reads : Nat) :
    Short rest (standing buf fs rest reads) := by
  have := length_encodeFrames_pos fs
  simp only [Short, standing, length_append]
  omega

/-- Filling the buffer takes frames until enough is there; a payload that is too short
is read to its terminator, and a strike leaves the connection in front of it. -/
theorem fill_cases {fs : List Bytes} (hfs : ∀ f ∈ fs, f ≠ [] ∧ FitsUInt64 f.length)
    {n turns : Nat} {buf : Bytes} (rest : Bytes) {reads : Nat} (hturns : n ≤ buf.length + turns)
    (hpend : Pending strike reads) :
    (∃ taken left, fs = taken ++ left ∧ n ≤ (buf ++ taken.flatten).length ∧
      Pending strike (reads + 2 * taken.length) ∧
      fill (interruptible strike) n turns (standing buf fs rest reads) =
        (.ok (), standing (buf ++ taken.flatten) left rest (reads + 2 * taken.length))) ∨
    ((buf ++ fs.flatten).length < n ∧ Pending strike (reads + payloadReads fs) ∧
      fill (interruptible strike) n turns (standing buf fs rest reads) =
        (.error .eof, past (buf ++ fs.flatten) rest (reads + payloadReads fs))) ∨
    (Early strike (reads + payloadReads fs) ∧ ∃ st', Short rest st' ∧
      fill (interruptible strike) n turns (standing buf fs rest reads) =
        (.error .interrupted, st')) := by
  induction turns generalizing buf fs reads with
  | zero => exact .inl ⟨[], fs, rfl, by simpa using hturns, hpend, by simp [fill]⟩
  | succ turns ih =>
    by_cases hn : n ≤ buf.length
    · exact .inl ⟨[], fs, rfl, by simpa using hn, hpend, by simp [fill, standing, hn]⟩
    cases fs with
    | nil =>
      right
      rcases run_readUInt64 (n := 0) rest (by decide) hpend with
        ⟨hearly, c', hlen, hr⟩ | ⟨hpend', hr⟩
      · refine .inr ⟨hearly, ⟨buf, false, c'⟩, hlen, ?_⟩
        simp only [fill, standing, encodeFrames, if_neg hn, hr]
        rfl
      · refine .inl ⟨by simpa using hn, hpend', ?_⟩
        simp only [fill, standing, encodeFrames, if_neg hn, hr]
        simp [past, payloadReads]
    | cons f fs =>
      obtain ⟨hne, hfit⟩ := hfs f (by simp)
      obtain ⟨k, hk⟩ : ∃ k, f.length = k + 1 :=
        ⟨f.length - 1, by have := length_pos_iff.2 hne; omega⟩
      rw [payloadReads_cons]
      rcases run_readUInt64 (f ++ (encodeFrames fs ++ rest)) hfit hpend with
        ⟨hearly, c', hlen, hr⟩ | ⟨hpend₁, hr⟩
      · refine .inr (.inr ⟨hearly.mono (by omega), ⟨buf, false, c'⟩, ?_, ?_⟩)
        · simp only [length_append] at hlen
          simp only [Short]
          omega
        · simp only [fill, standing, encodeFrames_cons_append, if_neg hn, hr]
          rfl
      rcases run_readexactly (encodeFrames fs ++ rest) hne hpend₁ with
        ⟨hearly, c', hlen, hr'⟩ | ⟨hpend₂, hr'⟩
      · refine .inr (.inr ⟨hearly.mono (by omega), ⟨buf, false, c'⟩, ?_, ?_⟩)
        · simp only [length_append] at hlen
          simp only [Short]
          omega
        · rw [hk] at hr hr'
          simp only [fill, standing, encodeFrames_cons_append, hk, if_neg hn, hr, hr']
          rfl
      -- The frame is in the buffer: what is left is the same loop, one turn shorter.
      have hstep : fill (interruptible strike) n (turns + 1)
          (standing buf (f :: fs) rest reads) =
            fill (interruptible strike) n turns
              (standing (buf ++ f) fs rest (reads + 1 + 1)) := by
        rw [hk] at hr hr'
        simp only [fill, standing, encodeFrames_cons_append, hk, if_neg hn, hr, hr']
        rfl
      have hturns' : n ≤ (buf ++ f).length + turns := by
        simp only [length_append]
        omega
      have hfs' : ∀ g ∈ fs, g ≠ [] ∧ FitsUInt64 g.length := fun g hg => hfs g (by simp [hg])
      rw [hstep]
      rcases ih hfs' hturns' hpend₂ with
        ⟨taken, left, rfl, hlen, hp, hrun⟩ | ⟨hlen, hp, hrun⟩ | ⟨hearly, st', hshort, hrun⟩
      · have hreads : reads + 1 + 1 + 2 * taken.length = reads + 2 * (f :: taken).length := by
          simp only [length_cons]
          omega
        rw [hreads] at hp hrun
        refine .inl ⟨f :: taken, left, rfl, by simpa using hlen, hp, ?_⟩
        rw [hrun, flatten_cons, append_assoc]
      · refine .inr (.inl ⟨by simpa using hlen, hp, ?_⟩)
        rw [hrun, flatten_cons, append_assoc]
      · exact .inr (.inr ⟨hearly, st', hshort, hrun⟩)

/-- **Reading through frames is reading their content.**  A codec behind a
`FramedReader` answers what it answers on the content of the frames, standing in front
of the frames it did not need; a content that is too short is read to its terminator;
and a codec that gives up by itself, or is struck, leaves the terminator unread. -/
theorem run_framed (r : WireReader α) {fs : List Bytes}
    (hfs : ∀ f ∈ fs, f ≠ [] ∧ FitsUInt64 f.length) {buf : Bytes} (rest : Bytes) {reads : Nat}
    (hpend : Pending strike reads) : (∃ a taken left buf', fs = taken ++ left ∧
      r.run wire (buf ++ fs.flatten) = (.ok a, buf' ++ left.flatten) ∧
      r.givesUp (buf ++ fs.flatten) = false ∧ Pending strike (reads + 2 * taken.length) ∧
      r.run (framed (interruptible strike)) (standing buf fs rest reads) =
        (.ok a, standing buf' left rest (reads + 2 * taken.length))) ∨
    (r.givesUp (buf ++ fs.flatten) = false ∧
      (r.run wire (buf ++ fs.flatten)).1 = .error .eof ∧
      Pending strike (reads + payloadReads fs) ∧
      ∃ buf', r.run (framed (interruptible strike)) (standing buf fs rest reads) =
        (.error .eof, past buf' rest (reads + payloadReads fs))) ∨
    ((r.givesUp (buf ++ fs.flatten) = true ∨ Early strike (reads + payloadReads fs)) ∧
      ∃ e st', Short rest st' ∧
        r.run (framed (interruptible strike)) (standing buf fs rest reads) = (.error e, st')) := by
  induction r generalizing fs buf reads with
  | done a => exact .inl ⟨a, [], fs, buf, rfl, rfl, rfl, hpend, rfl⟩
  | fail e =>
    exact .inr (.inr ⟨.inl rfl, e, standing buf fs rest reads,
      short_standing buf fs rest reads, rfl⟩)
  | ask n k ih =>
    rcases fill_cases hfs rest (Nat.le_add_left n buf.length) hpend with
      ⟨taken, left, rfl, hlen, hp, hfill⟩ | ⟨hlen, hp, hfill⟩ | ⟨hearly, st', hshort, hfill⟩
    · -- Enough is in the buffer, so the request is answered from the content.
      have hsplit : buf ++ (taken ++ left).flatten = (buf ++ taken.flatten) ++ left.flatten := by
        simp
      have htake : (buf ++ (taken ++ left).flatten).take n = (buf ++ taken.flatten).take n := by
        rw [hsplit, take_append_of_le_length hlen]
      have hdrop : (buf ++ (taken ++ left).flatten).drop n =
          (buf ++ taken.flatten).drop n ++ left.flatten := by
        rw [hsplit, drop_append_of_le_length hlen]
      have hle : n ≤ (buf ++ (taken ++ left).flatten).length := by
        rw [hsplit, length_append]
        omega
      have hrun : (Reader.ask n k).run (framed (interruptible strike))
          (standing buf (taken ++ left) rest reads) =
            (k ((buf ++ taken.flatten).take n)).run (framed (interruptible strike))
              (standing ((buf ++ taken.flatten).drop n) left rest (reads + 2 * taken.length)) := by
        simp only [Reader.run, framed, hfill]
        rfl
      have hwire : (Reader.ask n k).run wire (buf ++ (taken ++ left).flatten) =
          (k ((buf ++ taken.flatten).take n)).run wire
            ((buf ++ taken.flatten).drop n ++ left.flatten) := by
        simp only [Reader.run, flat, if_pos hle, htake, hdrop]
      have hgive : (Reader.ask n k).givesUp (buf ++ (taken ++ left).flatten) =
          (k ((buf ++ taken.flatten).take n)).givesUp
            ((buf ++ taken.flatten).drop n ++ left.flatten) := by
        simp only [Reader.givesUp, if_pos hle, htake, hdrop]
      have hreads : ∀ m, reads + 2 * taken.length + 2 * m = reads + 2 * (taken.length + m) :=
        fun m => by omega
      have htotal : reads + 2 * taken.length + payloadReads left =
          reads + payloadReads (taken ++ left) := by
        simp only [payloadReads, length_append]
        omega
      have hleft : ∀ f ∈ left, f ≠ [] ∧ FitsUInt64 f.length := fun f hf => hfs f (by simp [hf])
      rw [hrun, hwire, hgive]
      rcases @ih ((buf ++ taken.flatten).take n) left hleft ((buf ++ taken.flatten).drop n) _ hp
        with
        ⟨a, taken', left', buf', rfl, hok, hg, hp', hr⟩ | ⟨hg, he, hp', buf', hr⟩ |
          ⟨hwhy, e, st', hs, hr⟩
      · rw [hreads, ← length_append] at hp' hr
        exact .inl ⟨a, taken ++ taken', left', buf', by simp, hok, hg, hp', hr⟩
      · rw [htotal] at hp' hr
        exact .inr (.inl ⟨hg, he, hp', buf', hr⟩)
      · rw [htotal] at hwhy
        exact .inr (.inr ⟨hwhy, e, st', hs, hr⟩)
    · refine .inr (.inl ⟨?_, ?_, hp, buf ++ fs.flatten, ?_⟩)
      · simp only [Reader.givesUp]
        rw [if_neg (by omega)]
      · simp only [Reader.run, flat]
        rw [if_neg (by omega)]
      · simp only [Reader.run, framed, hfill]
    · refine .inr (.inr ⟨.inr hearly, .interrupted, st', hshort, ?_⟩)
      simp only [Reader.run, framed, hfill]

end FramedReader

end Pynixd
