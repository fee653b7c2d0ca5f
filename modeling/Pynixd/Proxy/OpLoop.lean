import Pynixd.Proxy.Handlers

/-!
# The operation loop stays in step with its client

`DaemonProxy.op_loop` reads an operation number, lets a handler read the rest of the
request, and goes on with the next number.  It goes on after an exception too, so a
handler that leaves part of a request unread makes the loop read the client's payload
as operation numbers.

* `opLoopStep_inStep_iff` — an iteration ends behind the request, or ends the session,
  **exactly when** `InStep` holds of the backend's behaviour and the request;
* `opLoop_inStep` — a session whose iterations all meet that condition never loses step;
* `opLoopStep_addBuildLog` — the log that follows `AddBuildLog` is read as requests.
-/

namespace Pynixd

open List TokenStream

/-! ## The loop -/

/-- `dispatch`: the handler of an operation, or `execute` for one that only the wire
registry knows. -/
def dispatch (S : Session) (op : Nat) : Option Handler :=
  match handlerFor op with
  | some h => some h
  | none => (S.wireRegistry op).map fun cls => headerFirst (fun _ => cls) (executeRequest cls)

/-- One iteration of `op_loop`: `none` when the session ends, and otherwise what is left
of the client's connection. -/
def opLoopStep (S : Session) (b : Backend) (s : Bytes) : Option Bytes :=
  match readUInt64.run wire s with
  | (.error _, _) => none
  | (.ok op, s) =>
    match dispatch S op with
    | none => none
    | some h =>
      match h S b s with
      | (.closing _, _) => none
      | (_, s) => if b.clientTakes then some s else none

/-- The iterations of a session, one for each behaviour of the backend. -/
def opLoop (S : Session) : List Backend → Bytes → Option Bytes
  | [], s => some s
  | b :: bs, s => (opLoopStep S b s).bind (opLoop S bs)

/-! ## Requests -/

/-- The request class of each operation: of `HANDLER_REGISTRY`, or as the wire registry has it.
`AddToStoreScanning` has none. -/
def requestFor (S : Session) : Nat → Option RequestClass
  | 7 => some (addToStoreRequest S.storeDir)
  | 11 => some (addTempRootRequest S.storeDir)
  | 12 => some addIndirectRootRequest
  | 14 => some findRootsRequest
  | 19 => some setOptionsRequest
  | 20 => some (collectGarbageRequest S.storeDir)
  | 34 => some optimiseStoreRequest
  | 35 => some verifyStoreRequest
  | 36 => some (buildDerivationRequest S.storeDir)
  | 38 => some (narFromPathRequest S.storeDir)
  | 39 => some (addToStoreNarRequest S.storeDir)
  | 44 => some addMultipleToStoreRequest
  | 45 => some (addBuildLogRequest S.storeDir)
  | 47 => some addPermRootRequest
  | 49 => some (addTempRootsRequest S.storeDir)
  | 101 => some pynixdCollectGarbageRequest
  | 107 => some (signPathInfoRequest S.storeDir)
  | 110 => some pynixdRootsReportRequest
  | 111 => some pynixdStateRequest
  | 1001 => none
  | op => S.wireRegistry op

/-- A request of an operation that pynixd knows, as a client sends it. -/
structure ClientRequest (S : Session) where
  op : Nat
  fits : FitsUInt64 op
  cls : RequestClass
  known : requestFor S op = some cls
  header : Bytes
  decoded : Value
  /-- The header is a header: the codec takes exactly its bytes. -/
  takes : Takes (cls.fromReader S.client) header decoded
  payload : Option Payload
  /-- A framed payload follows exactly where the operation carries one. -/
  framed : payload.isSome = true ↔ op ∈ framedRequests

namespace ClientRequest

variable {S : Session}

/-- The bytes behind the header. -/
def tail (r : ClientRequest S) : Bytes := r.payload.elim [] Payload.bytes

/-- The whole request on the wire. -/
def bytes (r : ClientRequest S) : Bytes := leBytes 8 r.op ++ (r.header ++ r.tail)

end ClientRequest

/-- The header that the transfer of a request writes to the backend. -/
def onwardHeader (S : Session) (op : Nat) (conn : WireCtx) (req : Value) :
    Except WireError Bytes :=
  match op with
  | 7 => (addToStoreRequest S.storeDir).toWriter conn req
  | 39 => forwardedHeader S.storeDir S.role conn req
  | _ => addMultipleHeader S conn req

/-- The backend lets a transfer get to the end of its payload: it gives a connection,
takes the header, and neither fails nor cancels before the terminator is read. -/
structure Backend.Carries (b : Backend) (S : Session) (r : ClientRequest S) (p : Payload) :
    Prop where
  connects : b.connects = true
  header : (onwardHeader S r.op b.conn r.decoded).isOk = true
  takesHeader : b.takesHeader = true
  payload : ¬ Early b.strike (payloadReads p.frames)

/-- What keeps an iteration in step: the client is gone and the session with it, or the
request carries no payload, or its payload is one that the handler reads to its end. -/
def InStep (S : Session) (b : Backend) (r : ClientRequest S) : Prop :=
  b.clientTakes = false ∨ ∀ p, r.payload = some p →
    r.op ≠ 45 ∧ b.Carries S r p ∧
      (r.op = 44 → (forwardStream S).givesUp p.content = false ∧ b.eofTimeout = none)

/-! ## What a handler leaves -/

/-- A handler that ends this way ends the session, or leaves exactly `rest`. -/
def Leaves (o : Outcome × Bytes) (rest : Bytes) : Prop :=
  (∃ text, o.1 = .closing text) ∨ o.2 = rest

section Handlers

variable {S : Session} {b : Backend} {header rest : Bytes} {v : Value}

variable {body : Session → Backend → Value → Outcome} {cls : Session → RequestClass}

theorem headerFirst_run (h : Takes ((cls S).fromReader S.client) header v) :
    headerFirst cls body S b (header ++ rest) = (body S b v, rest) := by
  rw [headerFirst, h rest]

theorem leaves_headerFirst (h : Takes ((cls S).fromReader S.client) header v) :
    Leaves (headerFirst cls body S b (header ++ rest)) rest := by
  rw [headerFirst_run h]
  exact .inr rfl

theorem eq_nil_of_takes_no_fields {name : String} {ctx : WireCtx}
    (h : Takes (readAnn ctx (.model name [])) header v) : header = [] := by
  have hrun := h []
  simpa using (Prod.mk.inj hrun).2

theorem ne_of_length_lt {s : Bytes} (h : rest.length < s.length) : s ≠ rest := by
  rintro rfl
  omega

theorem leaves_streaming {onward : Session → WireCtx → Value → Except WireError Bytes}
    {payload : Session → Backend → Bytes → Except WireError Unit × Bytes}
    (h : Takes ((cls S).fromReader S.client) header v) {p : Payload} :
    Leaves (streaming cls onward payload S b (header ++ (p.bytes ++ rest))) rest ↔
      b.connects = true ∧ (onward S b.conn v).isOk = true ∧ b.takesHeader = true ∧
        (payload S b (p.bytes ++ rest)).2 = rest := by
  have hlong : p.bytes ++ rest ≠ rest := by
    have := length_encodeFrames_pos p.frames
    exact ne_of_length_lt (by simp only [Payload.bytes, length_append]; omega)
  have hlong' : header ++ (p.bytes ++ rest) ≠ rest := by
    have := length_encodeFrames_pos p.frames
    exact ne_of_length_lt (by simp only [Payload.bytes, length_append]; omega)
  unfold streaming
  cases hc : b.connects with
  | false => simp [Leaves, hlong']
  | true =>
    rw [h (p.bytes ++ rest)]
    cases hh : (onward S b.conn v).isOk with
    | false => simp [Leaves, hlong, hh]
    | true =>
      cases ht : b.takesHeader with
      | false => simp [Leaves, hlong]
      | true =>
        rcases hp : payload S b (p.bytes ++ rest) with ⟨e | u, s⟩
        · simp [Leaves, hp, hh]
        · simp only [Leaves, hp, call, hh]
          cases b.answers <;> simp

theorem pending_zero (strike : Option Strike) : Pending strike 0 := fun k _ => Nat.zero_le k.after

theorem frames_lt_length (p : Payload) (rest : Bytes) :
    p.frames.length < (p.bytes ++ rest).length := by
  have := length_lt_length_encodeFrames p.frames
  simp only [Payload.bytes, length_append]
  omega

theorem forwardPayload_eq_rest (p : Payload) :
    (forwardPayload S b (p.bytes ++ rest)).2 = rest ↔ ¬ Early b.strike (payloadReads p.frames) := by
  have hfold := run_foldFrames (Forwarding.gather S.chunkSize) p.wellFramed
    (frames_lt_length p rest) rest (pending_zero b.strike) ⟨[], 0, [], []⟩
  rw [Nat.zero_add] at hfold
  unfold forwardPayload forwardFramed
  rw [run_map]
  rcases hfold with ⟨hearly, c', hlen, hr⟩ | ⟨hpend, hr⟩
  · rw [show (p.bytes ++ rest) = encodeFrames p.frames ++ rest from rfl] at hr ⊢
    rw [hr]
    simp only [Except.map, hearly, not_true, iff_false]
    exact ne_of_length_lt hlen
  · rw [show (p.bytes ++ rest) = encodeFrames p.frames ++ rest from rfl] at hr ⊢
    rw [hr]
    simp only [Except.map, true_iff]
    exact hpend.not_early

/-- `_forward_stream` reads the payload to its end unless the backend fails first or a
path info in it does not decode. -/
theorem forwardPaths_eq_rest (p : Payload) (heof : b.eofTimeout = none) :
    (forwardPaths S b (p.bytes ++ rest)).2 = rest ↔
      ¬ Early b.strike (payloadReads p.frames) ∧
        (forwardStream S).givesUp p.content = false := by
  have hstart : (⟨[], false, ⟨p.bytes ++ rest, 0⟩⟩ : Framed Conn) =
      standing [] p.frames rest 0 := rfl
  have hcontent : ([] : Bytes) ++ p.frames.flatten = p.content := rfl
  have hrun := @run_framed _ b.strike (forwardStream S) _ p.wellFramed [] rest _
    (pending_zero b.strike)
  rw [hcontent, Nat.zero_add] at hrun
  unfold forwardPaths
  rw [hstart]
  rcases hrun with ⟨a, taken, left, buf', hfs, -, hg, hp, hr⟩ | ⟨hg, -, hp, buf', hr⟩ |
    ⟨hwhy, e, st', hshort, hr⟩
  · -- Every path was read: the end of the payload is skipped on the plain connection.
    have hleft : ∀ f ∈ left, f ≠ [] ∧ FitsUInt64 f.length :=
      fun f hf => p.wellFramed f (by simp [hfs, hf])
    have hfuel : left.length < (encodeFrames left ++ rest).length := by
      have := length_lt_length_encodeFrames left
      simp only [length_append]
      omega
    have htotal : 2 * taken.length + payloadReads left = payloadReads p.frames := by
      simp only [payloadReads, hfs, length_append]
      omega
    rw [hr]
    simp only [standing, Bool.false_eq_true, if_false, ensureEof, heof, drainFrames, hg, and_true]
    rw [Nat.zero_add] at hp hr ⊢
    rcases run_foldFrames (fun _ _ => ()) hleft hfuel rest hp () with
      ⟨hearly, c', hlen, hd⟩ | ⟨hpend, hd⟩
    · rw [htotal] at hearly
      simp only [hd, hearly, not_true, iff_false]
      exact ne_of_length_lt hlen
    · rw [htotal] at hpend
      simp only [hd, true_iff]
      exact hpend.not_early
  · rw [hr]
    simp only [past, hg, and_true, true_iff]
    exact hp.not_early
  · rw [hr]
    have hne : ¬ st'.src.src = rest := ne_of_length_lt hshort
    simp only [hne, false_iff, not_and, Bool.not_eq_false]
    intro hnot
    exact hwhy.resolve_right hnot

end Handlers

/-! ## One iteration -/

section Iterations

variable {S : Session} {b : Backend}

variable {r : ClientRequest S} {op : Nat} {cls : RequestClass}

theorem leaves_unframed {header : Bytes} {v : Value}
    (hknown : requestFor S op = some cls) (hop : op ∉ framedRequests)
    (h : Takes (cls.fromReader S.client) header v) (rest : Bytes) :
    ∃ hd, dispatch S op = some hd ∧ Leaves (hd S b (header ++ rest)) rest := by
  unfold requestFor at hknown
  split at hknown
  case h_4 =>
    cases hknown
    obtain rfl := eq_nil_of_takes_no_fields h
    exact ⟨_, rfl, .inr rfl⟩
  case h_14 =>
    cases hknown
    refine ⟨_, rfl, ?_⟩
    unfold addPermRootHandler
    split_ifs
    · exact .inl ⟨_, rfl⟩
    · exact leaves_headerFirst h
  case h_21 =>
    have hnone : handlerFor op = none := by
      unfold handlerFor
      split <;> first | rfl | contradiction
    refine ⟨headerFirst (fun _ => cls) (executeRequest cls), ?_, leaves_headerFirst h⟩
    rw [dispatch, hnone, hknown]
    rfl
  all_goals first
    | cases hknown; exact ⟨_, rfl, leaves_headerFirst h⟩
    | exact absurd (by decide) hop

/-- The handler of an operation with a payload leaves the request behind it exactly when
the backend carries the payload, unless it is `AddBuildLog`, which never does. -/
theorem leaves_framed {p : Payload} (hp : r.payload = some p)
    (heof : r.op = 44 → b.eofTimeout = none) (rest : Bytes) :
    ∃ hd, dispatch S r.op = some hd ∧
      (Leaves (hd S b (r.header ++ (p.bytes ++ rest))) rest ↔
        r.op ≠ 45 ∧ b.Carries S r p ∧
          (r.op = 44 → (forwardStream S).givesUp p.content = false ∧ b.eofTimeout = none)) := by
  have hop : r.op ∈ framedRequests := r.framed.1 (by rw [hp]; rfl)
  obtain ⟨op, hfits, cls, hknown, header, v, htakes, payload, hframed⟩ := r
  simp only [framedRequests, mem_cons, not_mem_nil, or_false] at hop
  have hcarries : ∀ r : ClientRequest S, b.Carries S r p ↔ b.connects = true ∧
      (onwardHeader S r.op b.conn r.decoded).isOk = true ∧ b.takesHeader = true ∧
        ¬ Early b.strike (payloadReads p.frames) :=
    fun r => ⟨fun h => ⟨h.1, h.2, h.3, h.4⟩, fun ⟨h₁, h₂, h₃, h₄⟩ => ⟨h₁, h₂, h₃, h₄⟩⟩
  rw [hcarries]
  rcases hop with rfl | rfl | rfl | rfl | rfl
  · cases hknown
    refine ⟨_, rfl, ?_⟩
    rw [addToStoreHandler, leaves_streaming htakes, forwardPayload_eq_rest]
    simp [onwardHeader]
  · cases hknown
    refine ⟨_, rfl, ?_⟩
    rw [addToStoreNarHandler, leaves_streaming htakes, forwardPayload_eq_rest]
    simp [onwardHeader]
  · cases hknown
    refine ⟨_, rfl, ?_⟩
    rw [addMultipleToStoreHandler, leaves_streaming htakes, forwardPaths_eq_rest p (heof rfl)]
    simp only [onwardHeader, heof]
    tauto
  · cases hknown
    refine ⟨_, rfl, ?_⟩
    have hlong : p.bytes ++ rest ≠ rest := by
      have := length_encodeFrames_pos p.frames
      exact ne_of_length_lt (by simp only [Payload.bytes, length_append]; omega)
    rw [addBuildLogHandler, headerFirst_run htakes]
    simp only [Leaves, hlong, or_false, ne_eq, not_true, false_and, iff_false, not_exists]
    intro text
    unfold adminOnly call
    split_ifs <;> simp
  · cases hknown

theorem opLoopStep_of_handler {hd : Handler} (hop : FitsUInt64 op)
    (hhd : dispatch S op = some hd) (s rest : Bytes) :
    (opLoopStep S b (leBytes 8 op ++ s) = none ∨ opLoopStep S b (leBytes 8 op ++ s) = some rest) ↔
      b.clientTakes = false ∨ Leaves (hd S b s) rest := by
  unfold opLoopStep
  rw [takes_uint64 hop s]
  simp only [hhd, Leaves]
  rcases hd S b s with ⟨o, s'⟩
  cases hb : b.clientTakes <;> cases o <;> simp

/-- **An iteration stays in step exactly when `InStep` holds.**  Whatever the request and the
backend, short of letting the time for the end of a payload run out: the session ends or the
connection stands at the client's next request, if and only if the client is gone, there is no
payload, or the handler reads it to its end. -/
theorem opLoopStep_inStep_iff (r : ClientRequest S) (heof : r.op = 44 → b.eofTimeout = none)
    (rest : Bytes) :
    (opLoopStep S b (r.bytes ++ rest) = none ∨ opLoopStep S b (r.bytes ++ rest) = some rest) ↔
      InStep S b r := by
  have hbytes : r.bytes ++ rest = leBytes 8 r.op ++ (r.header ++ (r.tail ++ rest)) := by
    simp [ClientRequest.bytes]
  rw [hbytes, InStep]
  cases hp : r.payload with
  | none =>
    have hop : r.op ∉ framedRequests := by
      rw [← r.framed, hp]
      simp
    have htail : r.tail = [] := by simp [ClientRequest.tail, hp]
    obtain ⟨hd, hhd, hleaves⟩ := leaves_unframed (b := b) r.known hop r.takes rest
    rw [htail, opLoopStep_of_handler r.fits hhd]
    simp [hleaves]
  | some p =>
    have htail : r.tail = p.bytes := by simp [ClientRequest.tail, hp]
    obtain ⟨hd, hhd, hleaves⟩ := leaves_framed hp heof rest
    rw [htail, opLoopStep_of_handler r.fits hhd, hleaves]
    simp

theorem opLoopStep_of_inStep (h : InStep S b r) (rest : Bytes) :
    opLoopStep S b (r.bytes ++ rest) = none ∨
      opLoopStep S b (r.bytes ++ rest) = some rest := by
  by_cases hb : b.clientTakes = false
  · left
    unfold opLoopStep
    split
    · rfl
    · split
      · rfl
      · split <;> simp [hb]
  · refine (opLoopStep_inStep_iff r (fun h44 => ?_) rest).2 h
    have hframed : r.payload.isSome = true := r.framed.2 (by rw [h44]; decide)
    obtain ⟨p, hp⟩ := Option.isSome_iff_exists.1 hframed
    exact ((h.resolve_left hb p hp).2.2 h44).2

/-- **The log behind `AddBuildLog` is read as requests**: the loop goes on at its first
byte, whatever the role of the client and whatever the backend does. -/
theorem opLoopStep_addBuildLog (hop : r.op = 45) (hb : b.clientTakes = true) (rest : Bytes) :
    opLoopStep S b (r.bytes ++ rest) = some (r.tail ++ rest) := by
  obtain ⟨op, hfits, cls, hknown, header, v, htakes, payload, hframed⟩ := r
  obtain rfl : op = 45 := hop
  cases hknown
  simp only [ClientRequest.bytes, append_assoc, opLoopStep, takes_uint64 hfits _]
  simp only [dispatch, handlerFor, addBuildLogHandler]
  rw [headerFirst_run htakes]
  simp only [adminOnly, call]
  cases S.role.belowAdmin <;> cases b.answers <;> simp [hb]

/-! ## A whole session -/

/-- What a client sends in a session: its requests, and whatever comes after them. -/
def sessionBytes (rs : List (ClientRequest S)) (rest : Bytes) : Bytes :=
  rs.flatMap ClientRequest.bytes ++ rest

theorem sessionBytes_cons (r : ClientRequest S) (rs : List (ClientRequest S)) (rest : Bytes) :
    sessionBytes (r :: rs) rest = r.bytes ++ sessionBytes rs rest := by
  simp [sessionBytes]

theorem readUInt64_sessionBytes (r : ClientRequest S) (rs : List (ClientRequest S))
    (rest : Bytes) : (readUInt64.run wire (sessionBytes (r :: rs) rest)).1 = .ok r.op := by
  rw [sessionBytes_cons, ClientRequest.bytes, append_assoc,
    takes_uint64 r.fits]

/-- **A session stays in step.**  When every request meets `InStep` with what its backend does, then
after any number of iterations the session has ended, or the next number read is the operation of
the client's next request. -/
theorem opLoop_inStep (steps : List (Backend × ClientRequest S))
    (h : ∀ x ∈ steps, InStep S x.1 x.2) (rest : Bytes) (k : Nat) :
    let left := opLoop S ((steps.take k).map Prod.fst) (sessionBytes (steps.map Prod.snd) rest)
    left = none ∨
      (left = some (sessionBytes ((steps.drop k).map Prod.snd) rest) ∧
        ∀ x ∈ (steps.drop k).head?, ∀ s ∈ left, (readUInt64.run wire s).1 = .ok x.2.op) := by
  -- Induction on the iterations; the step lemma hands the next one its whole request.
  induction steps generalizing k with
  | nil => simp [opLoop]
  | cons x steps ih =>
    obtain ⟨b, r⟩ := x
    cases k with
    | zero =>
      right
      refine ⟨rfl, ?_⟩
      intro x hx s hs
      obtain rfl : (b, r) = x := by simpa using hx
      obtain rfl : sessionBytes (r :: steps.map Prod.snd) rest = s := by
        simpa [opLoop] using hs
      exact readUInt64_sessionBytes r _ rest
    | succ k =>
      have hstep := opLoopStep_of_inStep (h (b, r) (by simp))
        (sessionBytes (steps.map Prod.snd) rest)
      have hrest := ih (fun x hx => h x (by simp [hx])) k
      simp only [take_succ_cons, map_cons, opLoop, sessionBytes_cons,
        drop_succ_cons]
      rcases hstep with hnone | hsome
      · left
        rw [hnone]
        rfl
      · rw [hsome]
        exact hrest

end Iterations

/-! ## Sessions to look at -/

theorem exists_takes_of_run {α : Type} {r : WireReader α} {s : Bytes}
    (hok : (r.run wire s).1.isOk = true) (hend : (r.run wire s).2 = []) : ∃ a, Takes r s a := by
  obtain ⟨a, ha⟩ := exists_ok_of_isOk hok
  obtain ⟨bs, hbs, hreads⟩ := reads_of_run (Prod.ext ha hend : r.run wire s = (.ok a, []))
  rw [append_nil] at hbs
  subst hbs
  exact ⟨a, hreads⟩

theorem isOk_of_takes {α β : Type} {r : WireReader α} {s : Bytes} {a : α}
    {f : α → Except WireError β} (h : Takes r s a)
    (hok : ((r.run wire s).1.bind f).isOk = true) : (f a).isOk = true := by
  have hrun := h []
  rw [append_nil] at hrun
  rw [hrun] at hok
  exact hok

def userSession : Session where
  storeDir := "/nix/store"
  client := ⟨proto 1 38, []⟩
  role := .user
  chunkSize := 1024 * 1024
  chunkPos := by decide
  wireRegistry := fun op => if op = 1 then some (isValidPathRequest "/nix/store") else none

def goodBackend : Backend where
  connects := true
  conn := ⟨proto 1 38, []⟩
  takesHeader := true
  strike := none
  eofTimeout := none
  answers := true
  clientTakes := true

/-- The frames of a payload that carries no path. -/
def noPaths : Payload where
  frames := [leBytes 8 0]
  wellFramed := by decide

/-- The frames of an empty log. -/
def emptyLog : Payload where
  frames := []
  wellFramed := by simp

/-- A session with a transfer in it stays in step, to its last request. -/
theorem opLoop_inStep_transfer : ∃ r : ClientRequest userSession,
    r.op = 44 ∧ r.payload = some noPaths ∧
      (opLoop userSession [goodBackend] (sessionBytes [r, r] []) = none ∨
        opLoop userSession [goodBackend] (sessionBytes [r, r] []) =
          some (sessionBytes [r] [])) := by
  obtain ⟨v, hv⟩ : ∃ v, Takes (addMultipleToStoreRequest.fromReader userSession.client)
      (leBytes 8 0 ++ leBytes 8 1) v :=
    exists_takes_of_run (by decide +kernel) (by decide +kernel)
  let r : ClientRequest userSession :=
    ⟨44, by decide, _, rfl, leBytes 8 0 ++ leBytes 8 1, v, hv, some noPaths, by decide⟩
  have hstep : InStep userSession goodBackend r := by
    apply Or.inr
    intro p hp
    obtain rfl : noPaths = p := by simpa [r] using hp
    have hheader : (onwardHeader userSession 44 goodBackend.conn v).isOk = true :=
      isOk_of_takes hv (by decide +kernel)
    exact ⟨fun h45 => absurd h45 (show 44 ≠ 45 by decide),
      ⟨rfl, hheader, rfl, fun ⟨k, hk, _⟩ => by cases hk⟩, fun _ => ⟨by decide +kernel, rfl⟩⟩
  refine ⟨r, rfl, rfl, ?_⟩
  have hrun := opLoop_inStep [(goodBackend, r), (goodBackend, r)]
    (by simpa using hstep) [] 1
  exact hrun.imp id And.left

/-- The end of an empty log is read as the client's next request: the session goes on,
and the loop stands eight bytes in front of where that request starts. -/
theorem opLoopStep_addBuildLog_empty : ∃ r : ClientRequest userSession,
    r.op = 45 ∧ r.payload = some emptyLog ∧
      opLoopStep userSession goodBackend (r.bytes ++ []) ≠ none ∧
      opLoopStep userSession goodBackend (r.bytes ++ []) ≠ some [] := by
  obtain ⟨v, hv⟩ : ∃ v, Takes ((addBuildLogRequest "/nix/store").fromReader userSession.client)
      (leBytes 8 14 ++ encodeUtf8 "/nix/store/p-x" ++ [0, 0]) v :=
    exists_takes_of_run (by decide +kernel) (by decide +kernel)
  refine ⟨⟨45, by decide, _, rfl, _, v, hv, some emptyLog, by decide⟩, rfl, rfl, ?_, ?_⟩
  · rw [opLoopStep_addBuildLog rfl rfl]
    exact Option.some_ne_none _
  · rw [opLoopStep_addBuildLog rfl rfl]
    exact show some (emptyLog.bytes ++ []) ≠ some [] by decide +kernel

end Pynixd
