import Pynixd.Nar.Stream
import Pynixd.Proxy.OpLoop

/-!
# One reply for each operation

What `DaemonProxy.op_loop` and the handlers write to the client.  A reply is written in
three places: by a handler that streams or refuses and then returns `None`, by the loop
when it encodes the response of a handler, and by the loop when an exception reaches it.

* `opLoopStep_eq_left` — an iteration leaves the client's connection where `opLoopStep` does;
* `oneReply_iff` — an iteration gives one reply, or ends the session, **exactly when**
  `Answerable` holds of the request and of what the stores do with it;
* `session_answered` — a session of such iterations that stays in step gives one reply to each
  request.
-/

namespace Pynixd

open List TokenStream

/-! ## What goes down the client's connection -/

inductive Sent where
  /-- A stderr message other than an error. -/
  | log (message : Bytes)
  | error (text : String)
  | last
  /-- Bytes of a response body, and whether they are the whole of it. -/
  | body (bytes : Bytes) (whole : Bool)
  deriving DecidableEq, Repr

namespace Sent

def isError : Sent → Bool
  | .error _ => true
  | _ => false

end Sent

/-- **One reply**: log messages, then an error, or the marker and a whole body. -/
def isReply : List Sent → Bool
  | .log _ :: sent => isReply sent
  | [.error _] => true
  | [.last, .body _ true] => true
  | _ => false

/-- No error is written behind the marker, where the client reads a response body. -/
def noLateError : List Sent → Bool
  | [] => true
  | .last :: sent => sent.all (!·.isError)
  | _ :: sent => noLateError sent

/-! ## Responses -/

/-- A `WireResponse`: its log messages, and the writes of its fields in order.  A write
raises where a field has no wire form: `times_built` of a build that a holder timed out
is `None`, and no unsigned integer. -/
structure Response where
  logs : List Bytes
  writes : List (Except String Bytes)

/-- The bytes up to the first write that raises, and what it raises. -/
def written : List (Except String Bytes) → Bytes × Option String
  | [] => ([], none)
  | .ok bytes :: writes => (bytes ++ (written writes).1, (written writes).2)
  | .error text :: _ => ([], some text)

namespace Response

/-- `response.to_writer`: the log messages, the marker, and the fields. -/
def toWriter (r : Response) : List Sent × Option String :=
  let (bytes, raised) := written r.writes
  (r.logs.map .log ++ [.last, .body bytes raised.isNone], raised)

/-- Every field of the response has a wire form. -/
def encodes (r : Response) : Bool := r.writes.all (·.isOk)

/-- `is_not_found`, which no response class overrides. -/
def isNotFound (_ : Response) : Bool := false

end Response

inductive Exit where
  | response (r : Response)
  /-- `None`: the handler wrote what there was to write. -/
  | handled
  /-- An exception other than `ClosingError`, by its `_error_text`. -/
  | raised (text : String)
  | closing (text : String)

namespace Exit

/-- The same exit, without what is written for it. -/
def outcome : Exit → Outcome
  | .response _ => .answered
  | .handled => .handled
  | .raised _ => .raised
  | .closing text => .closing text

/-- What the loop writes at an exit, and whether the session goes on.  The encode is
inside the `try`, so a write that raises takes the road of every other exception. -/
def conclude : Exit → List Sent × Bool
  | .response r =>
    match r.toWriter with
    | (sent, none) => (sent, true)
    | (sent, some text) => (sent ++ [.error text], true)
  | .handled => ([], true)
  | .raised text => ([.error text], true)
  | .closing text => ([.error text], false)

end Exit

/-! ## The stores -/

inductive Tried where
  | gave (r : Response)
  | notImplemented (text : String)
  | failed (text : String)

/-- What `execute` meets: the goal engine, the local store, `_mapped_output_response`,
and the other stores in their order, with whether each one advertises the operation. -/
structure Stores where
  goals : Except String Response
  localStore : Tried
  mapped : Except String (Option Response)
  others : List (Bool × Tried)

/-- A message of a daemon's stderr stream. -/
inductive Stderr where
  | message (bytes : Bytes)
  | error (text : String)
  /-- A code that no parser knows. -/
  | unknown (code : Nat)

/-- What a store does with one `NarFromPath`. -/
structure Serving where
  /-- The answer to `QueryPathInfo`: the size on record, where the path is valid. -/
  info : Except String (Option Nat)
  /-- `transfer_conn` gives a connection, and the request goes out on it. -/
  takesRequest : Except String Unit
  stderr : List Stderr
  endsStderr : Bool
  /-- The strings of the archive that follows. -/
  archive : List Bytes
  fits : ∀ b ∈ archive, FitsUInt64 b.length
  /-- Behind how many bytes of the archive the connection is lost. -/
  lost : Option Nat
  /-- What a read from the lost connection raises. -/
  lostText : String

/-- What the process does during one operation. -/
structure World where
  backend : Backend
  /-- The messages that go to the client while the operation runs: the log of a build,
  the lines of the collector, what a goal has to say. -/
  live : List Bytes
  /-- The response of an operation that has a handler. -/
  response : Response
  /-- The text of an exception in a handler, or in the read of a request. -/
  failure : String
  stores : Stores
  /-- The local store, asked for an archive. -/
  localServing : Serving
  /-- The store that `store_for_output_path` names for the path. -/
  mappedServing : Option Serving

/-- A handler with what it writes to the client: the writes, the exit, and what is left
of the client's connection. -/
abbrev ReplyHandler := Session → World → Bytes → List Sent × Exit × Bytes

/-! ## `NarFromPath` -/

namespace Serving

/-- `WireLogs.from_reader`, with `unknown_streak` codes unknown so far in a row: the
messages, or the exception of a stream that carries an error, loses step or breaks off. -/
def wireLogs (sv : Serving) : Nat → List Stderr → Except String (List Bytes)
  | _, [] => if sv.endsStderr then .ok [] else .error sv.lostText
  | _, .message bytes :: stream => (sv.wireLogs 0 stream).map (bytes :: ·)
  | _, .error text :: _ => .error text
  | streak, .unknown code :: stream =>
    if 3 ≤ streak + 1 then
      .error ("ConnectionError: Protocol desync: " ++ toString (streak + 1) ++
        " consecutive unknown stderr msg_types (last: 0x" ++
        String.ofList (Nat.toDigits 16 code) ++ ")")
    else sv.wireLogs (streak + 1) stream

def bytes (sv : Serving) : Bytes := sv.archive.flatMap Nar.padded

/-- As much of the archive as the connection carries. -/
def arrives (sv : Serving) : Bytes :=
  match sv.lost with
  | none => sv.bytes
  | some n => sv.bytes.take n

end Serving

/-- Step 6 of `NarFromPathHandler.handle`: whether the forward gets to its end, and what
it gave the client.  A path without a size on record is forwarded token by token. -/
def forwardArchive (S : Session) (size : Nat) (src : Bytes) : Bool × Bytes :=
  if 0 < size then
    let (answer, p) := (forwardRaw S.chunkSize size size).run Nar.tee { src := src }
    (answer.isOk, p.dst)
  else
    let (answer, p) := Nar.streamParseNar false src
    (answer.isOk, p.dst)

/-- Steps 3 to 6: **the log messages and the marker go to the client before the first
byte of the archive is read.** -/
def Serving.serve (sv : Serving) (S : Session) (size : Nat) : List Sent × Exit :=
  match sv.takesRequest with
  | .error text => ([], .raised text)
  | .ok () =>
    match sv.wireLogs 0 sv.stderr with
    | .error text => ([], .raised text)
    | .ok logs =>
      let (complete, bytes) := forwardArchive S size sv.arrives
      (logs.map .log ++ [.last, .body bytes (bytes == sv.bytes)],
        if complete then .handled else .raised sv.lostText)

/-- Step 2: the store that has the path, and the size on record there. -/
def World.holder (w : World) : Except String (Option (Serving × Nat)) :=
  match w.localServing.info with
  | .error text => .error text
  | .ok (some size) => .ok (some (w.localServing, size))
  | .ok none =>
    match w.mappedServing with
    | none => .ok none
    | some sv => sv.info.map fun size => size.map fun size => (sv, size)

/-- `NarFromPathHandler.handle`.  **A path that no store has is answered with nothing.** -/
def narFromPath : ReplyHandler := fun S w s =>
  match ((narFromPathRequest S.storeDir).fromReader S.client).run wire s with
  | (.error _, s) => ([], .raised w.failure, s)
  | (.ok _, s) =>
    match w.holder with
    | .error text => ([], .raised text, s)
    | .ok none => ([], .handled, s)
    | .ok (some (sv, size)) => ((sv.serve S size).1, (sv.serve S size).2, s)

/-! ## The other operations -/

/-- A handler that leaves its reply to the loop, unless it refuses the request. -/
def Handler.replying (h : Handler) : ReplyHandler := fun S w s =>
  let live := w.live.map Sent.log
  match h S w.backend s with
  | (.answered, s) => (live, .response w.response, s)
  | (.handled, s) => (live, .handled, s)
  | (.refused text, s) => (live ++ [.error text], .handled, s)
  | (.raised, s) => (live, .raised w.failure, s)
  | (.closing text, s) => (live, .closing text, s)

/-- `is_extension` of the request class. -/
def isExtension (op : Nat) : Bool := op ∈ [101, 103, 104, 105, 106, 107, 108, 109, 110, 111]

/-- The end of `execute`: the stores that advertise the operation, and then what the
local store said. -/
def fallback (cls : RequestClass) (localResp : Option Response) : List (Bool × Tried) → Exit
  | [] =>
    match localResp with
    | some r => .response r
    | none => .raised ("Extension operation " ++ cls.name ++ "Request (op=" ++
        toString cls.op ++ ") not supported by any configured store")
  | (false, _) :: stores => fallback cls localResp stores
  | (true, .gave r) :: stores =>
    if r.isNotFound then fallback cls localResp stores else .response r
  | (true, .notImplemented _) :: stores => fallback cls localResp stores
  | (true, .failed text) :: _ => .raised text

def execute (S : Session) (st : Stores) (cls : RequestClass) (req : Value) : Exit :=
  if refusesRepair S cls req then
    .closing "repairing is not allowed because you are not in 'trusted-users'"
  else if buildsPaths cls.op || cls.op == 40 then
    match st.goals with
    | .ok r => .response r
    | .error text => .raised text
  else
    match st.localStore with
    | .failed text => .raised text
    | .notImplemented text =>
      if isExtension cls.op then fallback cls none st.others else .raised text
    | .gave r =>
      match st.mapped with
      | .error text => .raised text
      | .ok (some mapped) => .response mapped
      | .ok none =>
        if isExtension cls.op && r.isNotFound then fallback cls (some r) st.others
        else .response r

/-- `dispatch` for an operation without a handler. -/
def executing (cls : RequestClass) : ReplyHandler := fun S w s =>
  match (cls.fromReader S.client).run wire s with
  | (.error _, s) => ([], .raised w.failure, s)
  | (.ok req, s) => (w.live.map .log, execute S w.stores cls req, s)

def dispatchReply (S : Session) (op : Nat) : Option ReplyHandler :=
  match handlerFor op with
  | some h => some (if op = 38 then narFromPath else h.replying)
  | none => (S.wireRegistry op).map executing

/-! ## The loop -/

/-- What one iteration writes to the client, and what it leaves of the connection:
nothing when the session ends. -/
structure Turn where
  sent : List Sent
  left : Option Bytes
  deriving DecidableEq, Repr

/-- The end of an iteration: what the loop writes behind a handler. -/
def finish (sent : List Sent) (exit : Exit) (s : Bytes) : Turn :=
  ⟨sent ++ exit.conclude.1, if exit.conclude.2 then some s else none⟩

/-- An iteration behind the number of its operation.  When the client is gone, what is
written does not arrive, the error does not either, and the exception ends the session. -/
def opTurn (S : Session) (w : World) (op : Nat) (s : Bytes) : Turn :=
  match dispatchReply S op with
  | none => ⟨[.error ("Unsupported operation: " ++ toString op)], none⟩
  | some h =>
    if w.backend.clientTakes then
      let (sent, exit, s) := h S w s
      finish sent exit s
    else ⟨[], none⟩

def opLoopTurn (S : Session) (w : World) (s : Bytes) : Turn :=
  match readUInt64.run wire s with
  | (.error _, _) => ⟨[], none⟩
  | (.ok op, s) => opTurn S w op s

/-- **One reply for the operation**, or the end of the session; and no error where the
client reads a response body. -/
def Turn.OneReply (t : Turn) : Prop :=
  (t.left = none ∨ isReply t.sent = true) ∧ noLateError t.sent = true

/-! ## Replies -/

@[simp] theorem isReply_logs (logs : List Bytes) (sent : List Sent) :
    isReply (logs.map .log ++ sent) = isReply sent := by
  induction logs with
  | nil => rfl
  | cons m logs ih => exact ih

@[simp] theorem noLateError_logs (logs : List Bytes) (sent : List Sent) :
    noLateError (logs.map .log ++ sent) = noLateError sent := by
  induction logs with
  | nil => rfl
  | cons m logs ih => exact ih

@[simp] theorem isReply_body (bytes : Bytes) (whole : Bool) :
    isReply [.last, .body bytes whole] = whole := by
  cases whole <;> rfl

theorem noLateError_of_isReply {sent : List Sent} (h : isReply sent = true) :
    noLateError sent = true := by
  fun_induction isReply sent with
  | case1 m sent ih => exact ih h
  | case2 text => rfl
  | case3 bytes => rfl
  | case4 => cases h

theorem oneReply_some {sent : List Sent} {s : Bytes} :
    (⟨sent, some s⟩ : Turn).OneReply ↔ isReply sent = true := by
  simp only [Turn.OneReply, reduceCtorEq, false_or, and_iff_left_iff_imp]
  exact noLateError_of_isReply

theorem written_eq_none {writes : List (Except String Bytes)} :
    (written writes).2 = none ↔ writes.all (·.isOk) = true := by
  induction writes with
  | nil => simp [written]
  | cons x writes ih =>
    cases x with
    | ok bytes => simpa [written, Except.toBool] using ih
    | error text => simp [written, Except.isOk, Except.toBool]

section Finish

variable {logs : List Bytes} {s : Bytes}

theorem oneReply_raised (text : String) : (finish (logs.map .log) (.raised text) s).OneReply := by
  simp [finish, Exit.conclude, oneReply_some, isReply]

theorem oneReply_closing (text : String) : (finish (logs.map .log) (.closing text) s).OneReply := by
  simp [finish, Exit.conclude, Turn.OneReply, noLateError]

theorem oneReply_refused (text : String) :
    (finish (logs.map .log ++ [.error text]) .handled s).OneReply := by
  simp [finish, Exit.conclude, oneReply_some, isReply]

theorem oneReply_response {r : Response} :
    (finish (logs.map .log) (.response r) s).OneReply ↔ r.encodes = true := by
  rw [Response.encodes, ← written_eq_none]
  rcases hw : written r.writes with ⟨bytes, raised⟩
  cases raised <;>
    simp [finish, Exit.conclude, Response.toWriter, hw, oneReply_some, isReply]

end Finish

/-! ## The archive -/

theorem takes_forwardRaw {chunkSize : Nat} (hchunk : 0 < chunkSize) {fuel : Nat} {bs : Bytes}
    (hfuel : bs.length ≤ fuel) : Takes (forwardRaw chunkSize fuel bs.length) bs () := by
  induction fuel generalizing bs with
  | zero =>
    obtain rfl : bs = [] := length_eq_zero_iff.1 (by omega)
    exact Reads.pure ()
  | succ fuel ih =>
    rw [forwardRaw]
    split_ifs with hnil
    · obtain rfl : bs = [] := length_eq_zero_iff.1 hnil
      exact Reads.pure ()
    · -- one chunk, and then the rest
      have hle : min bs.length chunkSize ≤ bs.length := Nat.min_le_left _ _
      have hhead := takes_readexactly (bs.take (min bs.length chunkSize))
      rw [length_take_of_le hle] at hhead
      have htail := @ih (bs.drop (min bs.length chunkSize))
        (by rw [length_drop]; omega)
      rw [length_drop] at htail
      have hboth := hhead.bind (f := fun _ => forwardRaw chunkSize fuel
        (bs.length - min bs.length chunkSize)) htail
      rwa [take_append_drop] at hboth

theorem forwardArchive_sized (S : Session) {size : Nat} (hsize : 0 < size) (src : Bytes) :
    size ≤ src.length ∧ forwardArchive S size src = (true, src.take size) ∨
      src.length < size ∧ (forwardArchive S size src).1 = false := by
  have hpipe := Nar.run_tee (forwardRaw S.chunkSize size size) { src := src }
  unfold forwardArchive
  rw [if_pos hsize]
  by_cases hlen : size ≤ src.length
  · have htakes := takes_forwardRaw S.chunkPos (le_refl (src.take size).length)
    rw [length_take_of_le hlen] at htakes
    have hrun := htakes (src.drop size)
    rw [take_append_drop] at hrun
    obtain ⟨took, htook, htee⟩ := hpipe.1 () _ hrun
    obtain rfl : src.take size = took :=
      append_cancel_right ((take_append_drop size src).trans htook)
    simp [htee, hlen, Except.isOk, Except.toBool]
  · -- fewer bytes than that are a proper front of enough of them
    have htakes := @takes_forwardRaw S.chunkSize S.chunkPos size
      (src ++ List.replicate (size - src.length) 0) (by simp; omega)
    have hlength : (src ++ List.replicate (size - src.length) (0 : UInt8)).length = size := by
      simp
      omega
    rw [hlength] at htakes
    obtain ⟨e, t, hrun⟩ := htakes.error_of_prefix (prefix_append src _) (by
      intro hsame
      have := congrArg List.length hsame
      omega)
    simp [hpipe.2 e t hrun, Except.isOk, Except.toBool]
    omega

theorem streamParseNar_eq_copied {src : Bytes}
    (h : (Nar.streamParseNar false src).1.isOk = true) : ∃ took rest, src = took ++ rest ∧
      Nar.streamParseNar false src = Nar.copied false took rest := by
  have hpipe := Nar.run_tee (Nar.parseTokens (src.length + 1) {}) { src := src }
  rcases hwire : (Nar.parseTokens (src.length + 1) {}).run wire src with ⟨e | ⟨⟩, rest⟩
  · have herr := hpipe.2 e rest hwire
    simp [Nar.streamParseNar, herr, Except.map, Except.isOk, Except.toBool] at h
  · obtain ⟨took, htook, hrun⟩ := hpipe.1 () rest hwire
    exact ⟨took, rest, htook, by simp [Nar.streamParseNar, Nar.copied, hrun, Except.map]⟩

namespace Serving

variable {sv : Serving}

/-- The connection is not lost before the end of the archive. -/
def ArrivesWhole (sv : Serving) : Prop := ∀ n ∈ sv.lost, sv.bytes.length ≤ n

theorem arrives_prefix (sv : Serving) : sv.arrives <+: sv.bytes := by
  unfold arrives
  split
  · exact prefix_rfl
  · exact take_prefix _ _

theorem arrives_eq_bytes : sv.arrives = sv.bytes ↔ sv.ArrivesWhole := by
  unfold arrives ArrivesWhole
  cases sv.lost with
  | none => simp
  | some n => simp [take_eq_self_iff]

theorem arrivesWhole_of_length_le (h : sv.bytes.length ≤ sv.arrives.length) :
    sv.ArrivesWhole :=
  arrives_eq_bytes.1 (sv.arrives_prefix.eq_of_length_le h)

/-- The archive is one that the forward gets to the end of: it has the size on record, or
there is no size on record and its parentheses, as `stream_parse_nar` counts them, close
at its last string. -/
def Sized (sv : Serving) (size : Nat) : Prop :=
  0 < size ∧ size = sv.bytes.length ∨ size = 0 ∧ ({} : Nar.Scan).stopsAt sv.archive = true

/-- **The client is given the whole archive** exactly when all of it arrives, and its size
is the one on record or its end is where the parser sees it. -/
theorem forwardArchive_eq_bytes (S : Session) (size : Nat) :
    forwardArchive S size sv.arrives = (true, sv.bytes) ↔ sv.ArrivesWhole ∧ sv.Sized size := by
  rcases Nat.eq_zero_or_pos size with rfl | hsize
  · have hfits := Nar.streamParseNar_iff sv.fits false []
    rw [append_nil, show sv.archive.flatMap Nar.padded = sv.bytes from rfl] at hfits
    simp only [Sized, lt_irrefl, false_and, true_and, false_or, ← hfits]
    unfold forwardArchive
    simp only [lt_irrefl, if_false]
    constructor
    · intro h
      obtain ⟨hok, hdst⟩ := Prod.mk.inj h
      obtain ⟨took, rest, htook, hcopied⟩ := streamParseNar_eq_copied hok
      obtain rfl : took = sv.bytes := by simpa [hcopied, Nar.copied] using hdst
      -- what the client was given was taken from what arrived
      have hwhole := @arrivesWhole_of_length_le sv (by rw [htook, length_append]; omega)
      have harrives := arrives_eq_bytes.2 hwhole
      obtain rfl : rest = [] := by
        rw [harrives] at htook
        exact append_right_eq_self.1 htook.symm
      exact ⟨hwhole, harrives ▸ hcopied⟩
    · rintro ⟨hwhole, h⟩
      rw [arrives_eq_bytes.2 hwhole, h]
      rfl
  · have hne : ¬ size = 0 := by omega
    simp only [Sized, hsize, true_and, hne, false_and, or_false]
    rcases forwardArchive_sized S hsize sv.arrives with ⟨hle, h⟩ | ⟨hshort, h⟩
    · rw [h, Prod.mk.injEq, eq_self_iff_true, true_and]
      constructor
      · intro htake
        have hlen := congrArg List.length htake
        rw [length_take] at hlen
        have hwhole := @arrivesWhole_of_length_le sv (by omega)
        exact ⟨hwhole, by omega⟩
      · rintro ⟨hwhole, rfl⟩
        rw [arrives_eq_bytes.2 hwhole, take_length]
    · constructor
      · intro hwhole
        rw [hwhole] at h
        cases h
      · rintro ⟨hwhole, rfl⟩
        rw [arrives_eq_bytes.2 hwhole] at hshort
        omega

/-- The daemon refuses the request, or its stderr stream raises: nothing was written to
the client yet. -/
def refuses (sv : Serving) : Bool :=
  !(sv.takesRequest.isOk && (sv.wireLogs 0 sv.stderr).isOk)

/-- A store that was found to have the path answers the client with one reply: it refuses,
or gives the whole archive. -/
def Delivers (sv : Serving) (size : Nat) : Prop :=
  sv.refuses = true ∨ sv.ArrivesWhole ∧ sv.Sized size

theorem oneReply_serve (S : Session) (size : Nat) (s : Bytes) :
    (finish (sv.serve S size).1 (sv.serve S size).2 s).OneReply ↔ sv.Delivers size := by
  unfold Delivers refuses serve
  rcases sv.takesRequest with text | ⟨⟩
  · simpa [Except.toBool] using @oneReply_raised [] s text
  · rcases sv.wireLogs 0 sv.stderr with text | logs
    · simpa [Except.toBool] using @oneReply_raised [] s text
    · simp only [Except.isOk, Except.toBool, Bool.and_self, Bool.not_true, Bool.false_eq_true,
        false_or, ← forwardArchive_eq_bytes S size]
      rcases forwardArchive S size sv.arrives with ⟨complete, bytes⟩
      cases complete with
      | false => simp [finish, Exit.conclude, oneReply_some, isReply]
      | true => simp [finish, Exit.conclude, oneReply_some]

end Serving

namespace World

variable {w : World}

/-- Neither the local store nor the store on record for the path knows it. -/
def Unknown (w : World) : Prop :=
  w.localServing.info = .ok none ∧ ∀ sv ∈ w.mappedServing, sv.info = .ok none

/-- The store that is asked for the archive, and the size it has on record. -/
def Holds (w : World) (sv : Serving) (size : Nat) : Prop :=
  sv.info = .ok (some size) ∧
    (sv = w.localServing ∨ w.localServing.info = .ok none ∧ w.mappedServing = some sv)

theorem holder_eq_none : w.holder = .ok none ↔ w.Unknown := by
  unfold holder Unknown
  rcases w.localServing.info with text | size
  · simp
  · cases size with
    | some size => simp
    | none =>
      rcases w.mappedServing with - | sv
      · simp
      · rcases hsv : sv.info with text | size <;> simp [hsv, Except.map]

theorem holder_eq_some {sv : Serving} {size : Nat} :
    w.holder = .ok (some (sv, size)) ↔ w.Holds sv size := by
  unfold holder Holds
  rcases hl : w.localServing.info with text | - | found
  · grind
  · rcases w.mappedServing with - | mapped
    · grind
    · rcases hm : mapped.info with text | - | found
      all_goals
        simp only [hm, Except.map]
        grind
  · grind

/-- Some store knows the path, and the one that is asked for the archive delivers it. -/
def Serves (w : World) : Prop := ¬ w.Unknown ∧ ∀ sv size, w.Holds sv size → sv.Delivers size

/-- The responses that the loop is handed: that of a handler which comes to an answer,
or that of `execute`. -/
def Returns (w : World) (S : Session) (op : Nat) (s : Bytes) (r : Response) : Prop :=
  (∃ h, handlerFor op = some h ∧ (h S w.backend s).1 = .answered ∧ r = w.response) ∨
    handlerFor op = none ∧ ∃ cls ∈ S.wireRegistry op, ∃ req left,
      (cls.fromReader S.client).run wire s = (.ok req, left) ∧
        execute S w.stores cls req = .response r

end World

/-! ## The exits of the handlers -/

theorem call_ne_handled (b : Backend) : call b ≠ .handled := by
  unfold call
  split_ifs <;> exact nofun

theorem refused_or_call_ne_handled {c : Prop} [Decidable c] (text : String) (b : Backend) :
    (if c then Outcome.refused text else call b) ≠ .handled := by
  split_ifs
  · exact nofun
  · exact call_ne_handled b

theorem headerFirst_ne_handled {cls : Session → RequestClass}
    {body : Session → Backend → Value → Outcome} {S : Session} {b : Backend}
    (h : ∀ req, body S b req ≠ .handled) (s : Bytes) :
    (headerFirst cls body S b s).1 ≠ .handled := by
  unfold headerFirst
  split
  · exact nofun
  · exact h _

theorem streaming_ne_handled {cls : Session → RequestClass}
    {onward : Session → WireCtx → Value → Except WireError Bytes}
    {payload : Session → Backend → Bytes → Except WireError Unit × Bytes} (S : Session)
    (b : Backend) (s : Bytes) : (streaming cls onward payload S b s).1 ≠ .handled := by
  unfold streaming
  split_ifs
  · exact nofun
  · split
    · exact nofun
    · split_ifs
      · exact nofun
      · split
        · exact nofun
        · exact call_ne_handled b

theorem handler_ne_handled {op : Nat} {h : Handler} (hop : op ≠ 38)
    (hh : handlerFor op = some h) (S : Session) (b : Backend) (s : Bytes) :
    (h S b s).1 ≠ .handled := by
  unfold handlerFor at hh
  split at hh
  case h_5 =>
    cases hh
    apply headerFirst_ne_handled
    exact fun _ => Outcome.noConfusion
  case h_14 =>
    cases hh
    unfold addPermRootHandler
    split_ifs
    · exact nofun
    · exact headerFirst_ne_handled (fun _ => call_ne_handled b) s
  all_goals first
    | (cases hh; exact headerFirst_ne_handled (fun _ => call_ne_handled b) s)
    | (cases hh; exact headerFirst_ne_handled (fun _ => refused_or_call_ne_handled _ b) s)
    | (cases hh; exact streaming_ne_handled S b s)
    | (cases hh; exact call_ne_handled b)
    | (cases hh; exact absurd rfl hop)
    | cases hh

theorem fallback_cases (cls : RequestClass) (localResp : Option Response)
    (stores : List (Bool × Tried)) : (∃ r, fallback cls localResp stores = .response r) ∨
      ∃ text, fallback cls localResp stores = .raised text := by
  fun_induction fallback cls localResp stores <;>
    first | assumption | exact .inl ⟨_, rfl⟩ | exact .inr ⟨_, rfl⟩

/-- **`execute` always has something for the loop to write**: it refuses a repair, or
comes to a response or an exception. -/
theorem execute_cases (S : Session) (st : Stores) (cls : RequestClass) (req : Value) :
    (refusesRepair S cls req = true ∧ ∃ text, execute S st cls req = .closing text) ∨
      (refusesRepair S cls req = false ∧ ((∃ r, execute S st cls req = .response r) ∨
        ∃ text, execute S st cls req = .raised text)) := by
  fun_cases execute S st cls req with
  | case1 h => exact .inl ⟨h, _, rfl⟩
  | _ h =>
    refine .inr ⟨by simpa using h, ?_⟩
    first
      | exact .inl ⟨_, rfl⟩
      | exact .inr ⟨_, rfl⟩
      | exact fallback_cases _ _ _

/-! ## One iteration -/

section Iterations

variable {S : Session} {w : World}

theorem oneReply_replying {h : Handler} {s : Bytes} (hh : (h S w.backend s).1 ≠ .handled) :
    (finish (h.replying S w s).1 (h.replying S w s).2.1 (h.replying S w s).2.2).OneReply ↔
      ((h S w.backend s).1 = .answered → w.response.encodes = true) := by
  unfold Handler.replying
  revert hh
  rcases h S w.backend s with ⟨o, left⟩
  intro hh
  cases o with
  | answered => simp [oneReply_response]
  | handled => exact absurd rfl hh
  | refused text => simpa using oneReply_refused text
  | raised => simpa using oneReply_raised w.failure
  | closing text => simpa using oneReply_closing text

theorem oneReply_executing {cls : RequestClass} {s : Bytes} :
    (finish (executing cls S w s).1 (executing cls S w s).2.1 (executing cls S w s).2.2).OneReply ↔
      ∀ r req left, (cls.fromReader S.client).run wire s = (.ok req, left) →
        execute S w.stores cls req = .response r → r.encodes = true := by
  unfold executing
  rcases (cls.fromReader S.client).run wire s with ⟨e | req, left⟩
  · simpa using @oneReply_raised [] left w.failure
  · rcases execute_cases S w.stores cls req with ⟨-, text, h⟩ | ⟨-, ⟨r, h⟩ | ⟨text, h⟩⟩
    · simpa [h] using oneReply_closing text
    · simp [h, oneReply_response]
    · simpa [h] using oneReply_raised text

theorem oneReply_narFromPath {s : Bytes} :
    (finish (narFromPath S w s).1 (narFromPath S w s).2.1 (narFromPath S w s).2.2).OneReply ↔
      ∀ req left, ((narFromPathRequest S.storeDir).fromReader S.client).run wire s =
        (.ok req, left) → w.Serves := by
  unfold narFromPath
  rcases ((narFromPathRequest S.storeDir).fromReader S.client).run wire s with ⟨e | req, left⟩
  · simpa using @oneReply_raised [] left w.failure
  · have hserves : w.Serves ↔ w.holder ≠ .ok none ∧
        ∀ sv size, w.holder = .ok (some (sv, size)) → sv.Delivers size := by
      simp only [World.Serves, ← World.holder_eq_none, ← World.holder_eq_some, ne_eq]
    rw [hserves]
    rcases w.holder with text | - | ⟨sv, size⟩
    · simpa using @oneReply_raised [] left text
    · simp [finish, Exit.conclude, oneReply_some, isReply]
    · simpa using sv.oneReply_serve S size left

/-- What makes an operation get one reply: the client is gone and the session with it,
or, for an archive, the store that has the path delivers it, and, for any other
operation, every field of the response that comes back has a wire form. -/
def AnswerableOp (S : Session) (w : World) (op : Nat) (s : Bytes) : Prop :=
  w.backend.clientTakes = false ∨
    (op = 38 → ∀ req left, ((narFromPathRequest S.storeDir).fromReader S.client).run wire s =
      (.ok req, left) → w.Serves) ∧
    (op ≠ 38 → ∀ r, w.Returns S op s r → r.encodes = true)

/-- The same of the request that the client's connection stands at. -/
def Answerable (S : Session) (w : World) (s : Bytes) : Prop :=
  ∀ op rest, readUInt64.run wire s = (.ok op, rest) → AnswerableOp S w op rest

theorem oneReply_opTurn (op : Nat) (s : Bytes) :
    (opTurn S w op s).OneReply ↔ AnswerableOp S w op s := by
  unfold opTurn AnswerableOp
  cases hb : w.backend.clientTakes with
  | false =>
    split <;> simp [Turn.OneReply, noLateError]
  | true =>
    by_cases h38 : op = 38
    · subst h38
      have hdispatch : dispatchReply S 38 = some narFromPath := rfl
      simpa [hdispatch] using @oneReply_narFromPath S w s
    · simp only [h38, false_implies, true_and, ne_eq, not_false_eq_true, true_implies]
      rcases hh : handlerFor op with - | h
      · rcases hcls : S.wireRegistry op with - | cls
        · simp [dispatchReply, Turn.OneReply, noLateError, World.Returns, hh, hcls]
        · have hdispatch : dispatchReply S op = some (executing cls) := by
            simp [dispatchReply, hh, hcls]
          have hreturns : ∀ r, w.Returns S op s r ↔ ∃ req left,
              (cls.fromReader S.client).run wire s = (.ok req, left) ∧
                execute S w.stores cls req = .response r := by
            simp [World.Returns, hh, hcls]
          simpa [hdispatch, hreturns] using @oneReply_executing S w cls s
      · have hdispatch : dispatchReply S op = some h.replying := by
          simp [dispatchReply, hh, h38]
        have hreturns : ∀ r, w.Returns S op s r ↔
            (h S w.backend s).1 = .answered ∧ r = w.response := by
          simp [World.Returns, hh]
        simpa [hdispatch, hreturns] using
          oneReply_replying (handler_ne_handled h38 hh S w.backend s)

/-- **One reply for an operation, exactly when it is `Answerable`.**  Whatever the client sends, the
stores hold and the backends do: the client is given log messages and then one error or one whole
response, or the session ends, and no error is written into a response body, if and only if the path
of a `NarFromPath` is known and its archive delivered, and a response can be written to its end. -/
theorem oneReply_iff (S : Session) (w : World) (s : Bytes) :
    (opLoopTurn S w s).OneReply ↔ Answerable S w s := by
  unfold opLoopTurn Answerable
  rcases readUInt64.run wire s with ⟨e | op, rest⟩
  · simp [Turn.OneReply, noLateError]
  · simp only [oneReply_opTurn, Prod.mk.injEq, Except.ok.injEq, and_imp]
    constructor
    · rintro h _ _ rfl rfl
      exact h
    · exact fun h => h op rest rfl rfl

/-! ## A whole session -/

theorem left_finish (sent : List Sent) (exit : Exit) (s : Bytes) : (finish sent exit s).left =
      match exit.outcome with
      | .closing _ => none
      | _ => some s := by
  unfold finish Exit.conclude Exit.outcome
  cases exit with
  | response r => rcases hw : r.toWriter with ⟨sent, - | text⟩ <;> simp [hw]
  | handled => rfl
  | raised text => rfl
  | closing text => rfl

/-- The handler that only reads and the handler that also writes leave the client's
connection alike. -/
def LeavesAlike (S : Session) (w : World) (h : Handler) (h' : ReplyHandler) : Prop :=
  ∀ s, (finish (h' S w s).1 (h' S w s).2.1 (h' S w s).2.2).left =
    match h S w.backend s with
    | (.closing _, _) => none
    | (_, s) => some s

theorem leavesAlike_replying (h : Handler) : LeavesAlike S w h h.replying := by
  intro s
  rw [left_finish]
  unfold Handler.replying
  rcases h S w.backend s with ⟨o, left⟩
  cases o <;> rfl

theorem leavesAlike_executing (cls : RequestClass) :
    LeavesAlike S w (headerFirst (fun _ => cls) (executeRequest cls)) (executing cls) := by
  intro s
  rw [left_finish]
  unfold headerFirst executing
  rcases (cls.fromReader S.client).run wire s with ⟨e | req, left⟩
  · rfl
  · unfold executeRequest call
    rcases execute_cases S w.stores cls req with ⟨hrep, text, h⟩ | ⟨hrep, ⟨r, h⟩ | ⟨text, h⟩⟩
    · simp [h, hrep, Exit.outcome]
    · cases w.backend.answers <;> simp [h, hrep, Exit.outcome]
    · cases w.backend.answers <;> simp [h, hrep, Exit.outcome]

theorem left_serve (sv : Serving) (size : Nat) (s : Bytes) :
    (finish (sv.serve S size).1 (sv.serve S size).2 s).left = some s := by
  unfold Serving.serve
  rcases sv.takesRequest with text | ⟨⟩
  · rfl
  · rcases sv.wireLogs 0 sv.stderr with text | logs
    · rfl
    · dsimp only
      split_ifs <;> rfl

theorem leavesAlike_narFromPath : LeavesAlike S w narFromPathHandler narFromPath := by
  intro s
  unfold narFromPathHandler headerFirst narFromPath
  rcases ((narFromPathRequest S.storeDir).fromReader S.client).run wire s with ⟨e | req, left⟩
  · rfl
  · -- the archive and the exception both leave what is behind the request
    have hhandler : (match ((if w.backend.answers then Outcome.handled else .raised), left) with
        | (.closing _, _) => none
        | (_, s) => some s) = some left := by
      cases w.backend.answers <;> rfl
    rw [hhandler]
    rcases w.holder with text | - | ⟨sv, size⟩
    · rfl
    · rfl
    · exact left_serve sv size left

/-- An iteration leaves the client's connection where `opLoopStep` leaves it. -/
theorem opLoopStep_eq_left (S : Session) (w : World) (s : Bytes) :
    (opLoopTurn S w s).left = opLoopStep S w.backend s := by
  have halike : ∀ h h' s, LeavesAlike S w h h' →
      (if w.backend.clientTakes then finish (h' S w s).1 (h' S w s).2.1 (h' S w s).2.2
        else ⟨[], none⟩).left =
      match h S w.backend s with
      | (.closing _, _) => none
      | (_, s) => if w.backend.clientTakes then some s else none := by
    intro h h' s hsame
    cases w.backend.clientTakes with
    | true => exact hsame s
    | false => rcases h S w.backend s with ⟨o, left⟩; cases o <;> rfl
  unfold opLoopTurn opLoopStep
  rcases readUInt64.run wire s with ⟨e | op, rest⟩
  · rfl
  · simp only [opTurn, dispatchReply, dispatch]
    rcases hh : handlerFor op with - | h
    · rcases S.wireRegistry op with - | cls
      · rfl
      · exact halike _ _ rest (leavesAlike_executing cls)
    · by_cases h38 : op = 38
      · subst h38
        cases hh
        exact halike _ _ rest leavesAlike_narFromPath
      · simp only [h38, if_false]
        exact halike _ _ rest (leavesAlike_replying h)

/-- The iterations of a session: what is written to the client, and what is left of its
connection. -/
def opLoopTurns (S : Session) : List World → Bytes → List Sent × Option Bytes
  | [], s => ([], some s)
  | w :: ws, s =>
    match opLoopTurn S w s with
    | ⟨sent, none⟩ => (sent, none)
    | ⟨sent, some s⟩ => (sent ++ (opLoopTurns S ws s).1, (opLoopTurns S ws s).2)

theorem isReply_of_answerable {s left : Bytes} {sent : List Sent} (h : Answerable S w s)
    (hturn : opLoopTurn S w s = ⟨sent, some left⟩) : isReply sent = true := by
  -- the session goes on, so the number of an operation was read
  rcases hread : readUInt64.run wire s with ⟨e | op, rest⟩
  · simp [opLoopTurn, hread] at hturn
  · simp only [opLoopTurn, hread] at hturn
    have hone := (oneReply_opTurn op rest).2 (h op rest hread)
    rw [hturn] at hone
    exact oneReply_some.1 hone

/-- **A session in step is answered request by request.**  It ends, or all requests are read to
their ends and each has been given one reply. -/
theorem session_answered (steps : List (World × ClientRequest S)) (rest : Bytes)
    (h : ∀ x ∈ steps, InStep S x.1.backend x.2 ∧ ∀ s, Answerable S x.1 (x.2.bytes ++ s)) :
    let turns := opLoopTurns S (steps.map Prod.fst) (sessionBytes (steps.map Prod.snd) rest)
    turns.2 = none ∨ turns.2 = some rest ∧ ∃ replies : List (List Sent),
      replies.length = steps.length ∧ (∀ r ∈ replies, isReply r = true) ∧
        turns.1 = replies.flatten := by
  induction steps with
  | nil => exact .inr ⟨rfl, [], rfl, by simp, rfl⟩
  | cons x steps ih =>
    obtain ⟨hin, hanswer⟩ := h x mem_cons_self
    have hstep := opLoopStep_of_inStep hin (sessionBytes (steps.map Prod.snd) rest)
    rw [← opLoopStep_eq_left] at hstep
    simp only [map_cons, sessionBytes_cons, opLoopTurns]
    rcases hturn : opLoopTurn S x.1 _ with ⟨sent, - | left⟩
    · exact .inl rfl
    · obtain rfl : left = sessionBytes (steps.map Prod.snd) rest := by simpa [hturn] using hstep
      refine (ih fun y hy => h y (mem_cons_of_mem x hy)).imp_right ?_
      rintro ⟨hleft, replies, hlen, hall, hflat⟩
      have hreply := isReply_of_answerable (hanswer _) hturn
      exact ⟨hleft, sent :: replies, by simp [hlen], forall_mem_cons.2 ⟨hreply, hall⟩,
        by simp [hflat]⟩

end Iterations

/-! ## Sessions to look at -/

def unknownServing : Serving where
  info := .ok none
  takesRequest := .ok ()
  stderr := []
  endsStderr := true
  archive := []
  fits := by simp
  lost := none
  lostText := "IncompleteReadError: 0 bytes read on a total of 8 expected bytes"

/-- A process in which no store knows the path, and nothing else goes wrong. -/
def unknownWorld : World where
  backend := goodBackend
  live := []
  response := ⟨[], []⟩
  failure := ""
  stores := ⟨.ok ⟨[], []⟩, .gave ⟨[], []⟩, .ok none, []⟩
  localServing := unknownServing
  mappedServing := none

/-- In a process where nothing goes wrong every operation but `NarFromPath` is answered. -/
theorem answerable_unknownWorld (r : ClientRequest S) (hop : r.op ≠ 38) (s : Bytes) :
    Answerable S unknownWorld (r.bytes ++ s) := by
  intro op rest hread
  rw [ClientRequest.bytes, append_assoc, takes_uint64 r.fits] at hread
  cases hread
  refine .inr ⟨fun h38 => absurd h38 hop, ?_⟩
  rintro - response (⟨h, -, -, rfl⟩ | ⟨-, cls, -, req, left, -, hresponse⟩)
  · rfl
  · simp only [execute, unknownWorld, Response.isNotFound, Bool.and_false, Bool.false_eq_true,
      if_false] at hresponse
    split_ifs at hresponse
    all_goals
      cases hresponse
      rfl

/-- A session of an `OptimiseStore`, which has a handler, and an `IsValidPath`, which has none. -/
theorem session_answered_optimise : ∃ r r' : ClientRequest userSession, r.op = 34 ∧ r'.op = 1 ∧
    ∃ replies : List (List Sent), replies.length = 2 ∧ (∀ r ∈ replies, isReply r = true) ∧
      (opLoopTurns userSession [unknownWorld, unknownWorld] (sessionBytes [r, r'] [])).1 =
        replies.flatten := by
  obtain ⟨v, hv⟩ : ∃ v, Takes (optimiseStoreRequest.fromReader userSession.client) [] v :=
    exists_takes_of_run (by decide +kernel) (by decide +kernel)
  obtain ⟨v', hv'⟩ : ∃ v, Takes ((isValidPathRequest "/nix/store").fromReader userSession.client)
      (leBytes 8 14 ++ encodeUtf8 "/nix/store/p-x" ++ [0, 0]) v :=
    exists_takes_of_run (by decide +kernel) (by decide +kernel)
  let r : ClientRequest userSession := ⟨34, by decide, _, rfl, [], v, hv, none, by decide⟩
  let r' : ClientRequest userSession := ⟨1, by decide, _, rfl, _, v', hv', none, by decide⟩
  have hgoes : (opLoopTurns userSession [unknownWorld, unknownWorld]
      (leBytes 8 34 ++
        (leBytes 8 1 ++ (leBytes 8 14 ++ encodeUtf8 "/nix/store/p-x" ++ [0, 0])))).2 ≠
        none := by
    decide +kernel
  have hrun := session_answered [(unknownWorld, r), (unknownWorld, r')] [] (by
    simp [InStep, r, r', answerable_unknownWorld])
  exact ⟨r, r', rfl, rfl, (hrun.resolve_left hgoes).2⟩

def narRequest : Bytes :=
  leBytes 8 38 ++ (leBytes 8 14 ++ encodeUtf8 "/nix/store/p-x" ++ [0, 0])

/-- **A client that asks for a path nobody has is never answered**: nothing is written,
and the loop waits for the next request. -/
theorem opLoopTurn_unknownPath :
    opLoopTurn userSession unknownWorld narRequest = ⟨[], some []⟩ ∧
      ¬ (opLoopTurn userSession unknownWorld narRequest).OneReply := by
  have hturn : opLoopTurn userSession unknownWorld narRequest = ⟨[], some []⟩ := by
    decide +kernel
  rw [hturn, oneReply_some]
  decide

end Pynixd
