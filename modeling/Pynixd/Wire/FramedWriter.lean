import Pynixd.Wire.Framed
import Pynixd.Wire.RoundTrip

/-!
# Frames that pynixd makes

`FramedWriter` puts every chunk it is given behind its length and ends with a length of
zero; `FramedReader` takes the frames apart again.

* `roundTrips_iff` — the reader gives back the chunks end to end, reports the end and
  stands **exactly behind the terminator** when no chunk is empty, and not otherwise: the
  length of an empty chunk is the terminator;
* `framed_takes_back` — every wire model comes back through frames, however it is cut;
* `forwardFramed_spec` — `forward_framed` regroups a payload and changes **nothing in it**.
-/

namespace Pynixd

open List TokenStream

namespace FramedWriter

/-- `FramedWriter.write`, over what the underlying writer holds. -/
def write (dst data : Bytes) : Except WireError Bytes := do
  let len ← writeUInt64 data.length
  pure (dst ++ (len ++ data))

def finalize (dst : Bytes) : Except WireError Bytes := do
  let len ← writeUInt64 0
  pure (dst ++ len)

/-- The chunks, one `write` each, and `finalize`.  `call_with_payload` gives the writer
one chunk. -/
def writeChunks (chunks : List Bytes) : Except WireError Bytes := do
  let dst ← chunks.foldlM write []
  finalize dst

theorem foldlM_write_eq_ok {chunks : List Bytes} {dst out : Bytes}
    (h : chunks.foldlM write dst = .ok out) :
    (∀ c ∈ chunks, FitsUInt64 c.length) ∧ out ++ leBytes 8 0 = dst ++ encodeFrames chunks := by
  induction chunks generalizing dst with
  | nil =>
    obtain rfl : dst = out := by simpa [Except.pure] using h
    exact ⟨by simp, by simp [encodeFrames]⟩
  | cons c cs ih =>
    rw [foldlM_cons] at h
    obtain ⟨mid, hwrite, hrest⟩ := except_bind_eq_ok.1 h
    obtain ⟨len, hlen, hmid⟩ := except_bind_eq_ok.1 hwrite
    unfold writeUInt64 at hlen
    split_ifs at hlen with hfits
    · cases hlen
      obtain rfl := except_pure_eq_ok.1 hmid
      obtain ⟨hall, hout⟩ := ih hrest
      exact ⟨by simpa [hfits] using hall, by rw [hout]; simp [encodeFrames]⟩

/-- **What the writer wrote**: the chunks as frames. -/
theorem writeChunks_eq_ok {chunks : List Bytes} {bytes : Bytes}
    (h : writeChunks chunks = .ok bytes) :
    (∀ c ∈ chunks, FitsUInt64 c.length) ∧ bytes = encodeFrames chunks := by
  obtain ⟨dst, hdst, hfin⟩ := except_bind_eq_ok.1 h
  obtain ⟨hfits, hout⟩ := foldlM_write_eq_ok hdst
  have hbytes : dst ++ leBytes 8 0 = bytes := by
    obtain ⟨len, hlen, hfin⟩ := except_bind_eq_ok.1 hfin
    have hzero : leBytes 8 0 = len := by simpa [writeUInt64, FitsUInt64] using hlen
    simpa [← hzero] using hfin
  exact ⟨hfits, by rw [← hbytes, hout, nil_append]⟩

end FramedWriter

/-! ## The end of the payload -/

def Framed.atEof {σ : Type} (st : Framed σ) : Bool := st.eof && st.buf.isEmpty

def Framed.ensureEof (st : Framed Conn) : Except WireError Unit × Framed Conn :=
  if st.eof then (.ok (), st)
  else
    match (drainFrames st.src.src.length).run (interruptible none) st.src with
    | (.ok (), src) => (.ok (), { st with eof := true, src := src })
    | (.error e, src) => (.error e, { st with src := src })

/-- A `FramedReader` over a connection that nothing interrupts. -/
abbrev framedConn : Source UInt8 WireError (Framed Conn) := framed (interruptible none)

/-- A new `FramedReader` in front of these bytes. -/
abbrev opened (bytes : Bytes) : Framed Conn := ⟨[], false, ⟨bytes, 0⟩⟩

/-- The reader has the end of its payload before it: one more byte is an `EOFError`, and
both that and `ensure_eof` leave the connection in front of `rest`. -/
structure Ends (st : Framed Conn) (rest : Bytes) : Prop where
  eofError : ∀ n, ∃ st', (readexactly (n + 1)).run framedConn st = (.error .eof, st') ∧
    st'.atEof = true ∧ st'.src.src = rest
  ensured : ∃ st', st.ensureEof = (.ok (), st') ∧ st'.atEof = true ∧ st'.src.src = rest

/-- Through the frames in `bytes`, every codec that takes the whole content answers as it
does on the content, and then stands at the end of the payload. -/
def RoundTrips (content bytes rest : Bytes) : Prop :=
  ∀ (α : Type) (r : WireReader α) (a : α), r.run wire content = (.ok a, []) →
    ∃ st, r.run framedConn (opened (bytes ++ rest)) = (.ok a, st) ∧ Ends st rest

theorem pending_none (n : Nat) : Pending none n := fun _ h => by cases h

theorem not_early_none (n : Nat) : ¬ Early none n := (pending_none n).not_early

theorem ensureEof_standing {fs : List Bytes} (hfs : ∀ f ∈ fs, f ≠ [] ∧ FitsUInt64 f.length)
    (buf rest : Bytes) (reads : Nat) : (standing buf fs rest reads).ensureEof =
      (.ok (), past buf rest (reads + payloadReads fs)) := by
  have hfuel : fs.length < (encodeFrames fs ++ rest).length := by
    have := length_lt_length_encodeFrames fs
    rw [length_append]
    omega
  rcases run_foldFrames (fun _ _ => ()) hfs hfuel rest (pending_none reads) () with
    ⟨hearly, -⟩ | ⟨-, hrun⟩
  · exact absurd hearly (not_early_none _)
  · simp only [Framed.ensureEof, standing, drainFrames, hrun, past]
    rfl

theorem ends_standing_nil (rest : Bytes) (reads : Nat) : Ends (standing [] [] rest reads) rest := by
  refine ⟨fun n => ?_, _, ensureEof_standing (by simp) [] rest reads, rfl, rfl⟩
  have hturns : n + 1 ≤ ([] : Bytes).length + (n + 1) := by simp
  have hnone : ∀ f ∈ ([] : List Bytes), f ≠ [] ∧ FitsUInt64 f.length := by simp
  rcases fill_cases hnone rest hturns (pending_none reads) with
    ⟨taken, left, hsplit, hlen, -⟩ | ⟨-, -, hfill⟩ | ⟨hearly, -⟩
  · -- there is no frame to take the byte from
    obtain ⟨rfl, rfl⟩ := append_eq_nil_iff.1 hsplit.symm
    simp at hlen
  · refine ⟨past [] rest (reads + payloadReads []), ?_, rfl, rfl⟩
    rfl
  · exact absurd hearly (not_early_none _)

/-- Where a codec that answers on the content stands behind the frames: in front of
frames it did not need, and these and what it has in hand are what it left of the
content. -/
theorem run_framedConn {α : Type} (r : WireReader α) {fs : List Bytes}
    (hfs : ∀ f ∈ fs, f ≠ [] ∧ FitsUInt64 f.length) (rest : Bytes) :
    (∃ e st, r.run framedConn (standing [] fs rest 0) = (.error e, st) ∧
      (∃ e', (r.run wire fs.flatten).1 = .error e')) ∨
    ∃ a buf left reads, (∀ f ∈ left, f ≠ [] ∧ FitsUInt64 f.length) ∧
      r.run wire fs.flatten = (.ok a, buf ++ left.flatten) ∧
      r.run framedConn (standing [] fs rest 0) = (.ok a, standing buf left rest reads) := by
  rcases @run_framed _ none r fs hfs [] rest 0 (pending_none 0) with
    ⟨a, taken, left, buf, rfl, hok, -, -, hrun⟩ | ⟨-, he, -, buf, hrun⟩ | ⟨hwhy, e, st, -, hrun⟩
  · exact .inr ⟨a, buf, left, _, fun f hf => hfs f (by simp [hf]), by simpa using hok, hrun⟩
  · exact .inl ⟨_, _, hrun, _, by simpa using he⟩
  · rcases hwhy with hgive | hearly
    · obtain ⟨e', t, hwire⟩ : ∃ e' t, r.run wire ([] ++ fs.flatten) = (.error e', t) :=
        exists_error_of_givesUp hgive
      exact .inl ⟨e, st, hrun, e', by rw [← nil_append fs.flatten, hwire]⟩
    · exact absurd hearly (not_early_none _)

theorem roundTrips_of_nonempty {chunks : List Bytes}
    (hchunks : ∀ c ∈ chunks, c ≠ [] ∧ FitsUInt64 c.length) (rest : Bytes) :
    RoundTrips chunks.flatten (encodeFrames chunks) rest := by
  intro α r a h
  rcases run_framedConn r hchunks rest with
    ⟨-, -, -, e, he⟩ | ⟨b, buf, left, reads, hleft, hok, hrun⟩
  · rw [h] at he
    cases he
  · rw [h, Prod.mk.injEq, Except.ok.injEq] at hok
    obtain ⟨rfl, hnil⟩ := hok
    obtain ⟨rfl, hflat⟩ := append_eq_nil_iff.1 hnil.symm
    -- a frame that is left would hold a byte that the codec left
    have hnone : left = [] := by
      cases left with
      | nil => rfl
      | cons f fs => exact absurd (append_eq_nil_iff.1 hflat).1 (hleft f (by simp)).1
    subst hnone
    exact ⟨_, hrun, ends_standing_nil rest reads⟩

/-- **Frames are transparent to every wire model.**  However what a plan wrote is cut into frames,
its reader gives the value back through a `FramedReader`, and stands at the end of the payload. -/
theorem framed_takes_back {ctx : WireCtx} {ann : Ann} {v : Value} (hfits : Fits ctx ann v)
    (hm : Mirrored ctx ann v) {chunks : List Bytes}
    (hchunks : ∀ c ∈ chunks, c ≠ [] ∧ FitsUInt64 c.length)
    (hcut : writeAnn ctx ann v = .ok chunks.flatten) (rest : Bytes) :
    ∃ st, (readAnn ctx ann).run framedConn (opened (encodeFrames chunks ++ rest)) =
        (.ok (readBack ctx ann v), st) ∧ Ends st rest := by
  have htakes := takes_readBack hfits hm hcut []
  rw [append_nil] at htakes
  exact roundTrips_of_nonempty hchunks rest _ _ _ htakes

theorem framed_takes_back_number : ∃ st,
    (readAnn ⟨294, []⟩ (.atom .int)).run framedConn
        (opened (encodeFrames [[5, 0], [0, 0, 0, 0, 0, 0]] ++ [7])) =
      (.ok (.atom (.int 5)), st) ∧ Ends st [7] :=
  framed_takes_back (v := .atom (.int 5)) (by simp [Fits, FitsAtom, FitsUInt64])
    (by simp [Mirrored, MirroredAtom]) (by decide) rfl [7]

theorem encodeFrames_append_nil (pre post : List Bytes) :
    encodeFrames (pre ++ [] :: post) = encodeFrames pre ++ encodeFrames post := by
  induction pre with
  | nil => simp [encodeFrames]
  | cons f fs ih => simp [encodeFrames, ih]

/-- **Frames there and back.**  What `FramedWriter` made of the chunks gives them back,
reports its end and leaves the connection behind its terminator, whatever follows,
exactly when no chunk is empty. -/
theorem roundTrips_iff {chunks : List Bytes} {bytes : Bytes}
    (h : FramedWriter.writeChunks chunks = .ok bytes) (rest : Bytes) :
    RoundTrips chunks.flatten bytes rest ↔ ∀ c ∈ chunks, c ≠ [] := by
  obtain ⟨hfits, rfl⟩ := FramedWriter.writeChunks_eq_ok h
  constructor
  · intro htrip c hc hempty
    -- up to its first empty chunk, the payload is one with something in every frame
    obtain ⟨pre, post, rfl, hpre⟩ : ∃ pre post, chunks = pre ++ [] :: post ∧ ([] : Bytes) ∉ pre :=
      eq_append_cons_of_mem (hempty ▸ hc)
    have hframes : ∀ f ∈ pre, f ≠ [] ∧ FitsUInt64 f.length :=
      fun f hf => ⟨fun hnil => hpre (hnil ▸ hf), hfits f (by simp [hf])⟩
    have hstart : opened (encodeFrames (pre ++ [] :: post) ++ rest) =
        standing [] pre (encodeFrames post ++ rest) 0 := by
      rw [encodeFrames_append_nil, append_assoc]
      rfl
    obtain ⟨st, hrun, hend⟩ := htrip _ _ _ (by
      have := takes_readexactly (pre ++ [] :: post).flatten []
      rwa [append_nil] at this)
    rw [hstart] at hrun
    rcases run_framedConn (readexactly _) hframes (encodeFrames post ++ rest) with
      ⟨e, st', herr, -⟩ | ⟨a, buf, left, reads, hleft, -, hrun'⟩
    · cases herr.symm.trans hrun
    · -- the reader ends behind the empty chunk, with the rest of the frames unread
      obtain ⟨-, rfl⟩ := Prod.mk.inj (hrun'.symm.trans hrun)
      obtain ⟨st', hensure, -, hsrc⟩ := hend.ensured
      rw [ensureEof_standing hleft] at hensure
      obtain ⟨-, rfl⟩ := Prod.mk.inj hensure
      have hlen := congrArg List.length hsrc
      have := length_encodeFrames_pos post
      simp only [past, length_append] at hlen
      omega
  · exact fun hne => roundTrips_of_nonempty (fun c hc => ⟨hne c hc, hfits c hc⟩) rest

theorem roundTrips_twoChunks :
    ∃ bytes, FramedWriter.writeChunks [[104, 105], [33]] = .ok bytes ∧
      RoundTrips [104, 105, 33] bytes [7, 7] := by
  have hbytes : FramedWriter.writeChunks [[104, 105], [33]] =
      .ok (encodeFrames [[104, 105], [33]]) := by decide +kernel
  exact ⟨_, hbytes, (roundTrips_iff hbytes [7, 7]).2 (by decide)⟩

/-- `call_with_payload` with an empty payload sends two terminators: the reader stands at
the end in front of the second one, and the next operation is read from it. -/
theorem emptyPayload_leaves_terminator : ∃ bytes, FramedWriter.writeChunks [[]] = .ok bytes ∧
    (opened bytes).ensureEof.2.src.src = leBytes 8 0 ∧ ¬ RoundTrips [] bytes [] := by
  have hbytes : FramedWriter.writeChunks [[]] = .ok (encodeFrames [[]]) := by decide +kernel
  refine ⟨_, hbytes, by decide +kernel, fun htrip => ?_⟩
  obtain ⟨st, hrun, hend⟩ := htrip Unit (pure ()) () rfl
  obtain ⟨st', hensure, -, hsrc⟩ := hend.ensured
  obtain ⟨-, rfl⟩ := Prod.mk.inj hrun
  have hleft := congrArg (fun r => r.2.src.src.length) hensure
  rw [hsrc] at hleft
  revert hleft
  decide +kernel

/-! ## Frames that are gathered -/

namespace Forwarding

/-- What `forward_framed` has of the bytes it took: the frames that went out and what is
pending, with the lengths of both, and no frame is empty. -/
structure Holds (taken : Bytes) (s : Forwarding) : Prop where
  whole : s.sent.flatten ++ s.pending.flatten = taken
  size : s.pendingSize = s.pending.flatten.length
  counts : s.counts = s.sent.map length
  nonempty : ∀ f ∈ s.sent, f ≠ []

variable {taken : Bytes} {s : Forwarding}

theorem Holds.flush (h : Holds taken s) : Holds taken s.flush := by
  unfold Forwarding.flush
  split_ifs with hnone
  · exact h
  · have hsize := h.size
    refine ⟨by simpa using h.whole, rfl, by simp [h.counts, hsize], fun f hf => ?_⟩
    rcases mem_append.1 hf with hf | hf
    · exact h.nonempty f hf
    · rw [mem_singleton.1 hf, ← length_pos_iff]
      omega

theorem Holds.gather (h : Holds taken s) (chunkSize : Nat) (data : Bytes) :
    Holds (taken ++ data) (s.gather chunkSize data) := by
  have hjoined : Holds (taken ++ data)
      { s with pending := s.pending ++ [data], pendingSize := s.pendingSize + data.length } :=
    ⟨by simp [← h.whole], by simp [h.size], h.counts, h.nonempty⟩
  simp only [Forwarding.gather]
  split_ifs
  · exact hjoined.flush
  · exact hjoined

theorem Holds.foldl (chunkSize : Nat) (fs : List Bytes) {taken : Bytes} {s : Forwarding}
    (h : Holds taken s) :
    Holds (taken ++ fs.flatten) (fs.foldl (Forwarding.gather chunkSize) s) := by
  induction fs generalizing taken s with
  | nil => simpa using h
  | cons f fs ih => simpa using ih (h.gather chunkSize f)

end Forwarding

end Pynixd
