import Pynixd.Handlers.AddToStoreNar
import Pynixd.Wire.Framed

/-!
# The operation handlers, seen from the client's connection

Each handler of `pynixd/handlers` reads the request of its operation off the client's
connection and ends in one of a few ways.  What the backend does in the meantime is an
input, `Backend`: whether it gives a connection, takes the header, takes the payload to
its end, answers in time, answers at all.

* `headerFirst` — the handlers that decode the request and then do their work;
* `streaming` — the handlers that take a backend connection **before** they read
  anything, and forward a framed payload;
* `handlerFor` — `HANDLER_REGISTRY`.
-/

namespace Pynixd

open TokenStream

/-- What one session negotiated and how the process is set up. -/
structure Session where
  storeDir : String
  client : WireCtx
  role : Role
  chunkSize : Nat
  /-- A chunk of no bytes would forward nothing for ever. -/
  chunkPos : 0 < chunkSize
  /-- `WIRE_REGISTRY`, for the operations without a handler of their own. -/
  wireRegistry : Nat → Option RequestClass

/-- What the backend, and the client as a reader of answers, do during one operation. -/
structure Backend where
  /-- `transfer_conn` gives a connection, and `apply_options` goes through on it. -/
  connects : Bool
  /-- What that connection negotiated. -/
  conn : WireCtx
  /-- The header of a transfer is written and drained. -/
  takesHeader : Bool
  /-- When a write of the payload raises, or a failed response cancels the forward. -/
  strike : Option Strike
  /-- When the ten seconds for the end of the payload run out, counted from the end of
  the last path. -/
  eofTimeout : Option Strike
  /-- The rest of the operation gives an answer and no exception. -/
  answers : Bool
  /-- What is written to the client goes through. -/
  clientTakes : Bool

inductive Outcome where
  /-- A response for the loop to write. -/
  | answered
  /-- `None`: the handler wrote what there was to write. -/
  | handled
  /-- `send_error(text)`, then `None`. -/
  | refused (text : String)
  /-- An exception other than `ClosingError`. -/
  | raised
  | closing (text : String)
  deriving DecidableEq, Repr

/-- `Handler.handle`: how it ends, and what is left of the client's connection. -/
abbrev Handler := Session → Backend → Bytes → Outcome × Bytes

/-- A call to the local store, or other work that either answers or raises. -/
def call (b : Backend) : Outcome := if b.answers then .answered else .raised

/-! ## Handlers that read the request first -/

/-- Decode the request, then do `body`, which does not touch the client's connection. -/
def headerFirst (cls : Session → RequestClass) (body : Session → Backend → Value → Outcome) :
    Handler := fun S b s =>
  match ((cls S).fromReader S.client).run wire s with
  | (.error _, s) => (.raised, s)
  | (.ok req, s) => (body S b req, s)

def addTempRootHandler : Handler :=
  headerFirst (fun S => addTempRootRequest S.storeDir) fun _ b _ => call b

def addIndirectRootHandler : Handler :=
  headerFirst (fun _ => addIndirectRootRequest) fun _ b _ => call b

/-- `FindRootsHandler`: the request has no body, and the handler reads none. -/
def findRootsHandler : Handler := fun _ b s => (call b, s)

/-- `SetOptionsHandler`: the options stay with the session. -/
def setOptionsHandler : Handler :=
  headerFirst (fun _ => setOptionsRequest) fun _ _ _ => .answered

def collectGarbageHandler : Handler :=
  headerFirst (fun S => collectGarbageRequest S.storeDir) fun _ b _ => call b

def optimiseStoreHandler : Handler :=
  headerFirst (fun _ => optimiseStoreRequest) fun _ b _ => call b

/-- A number that is not zero. -/
def truthy : Except WireError Value → Bool
  | .ok (.atom (.int n)) => n != 0
  | _ => false

/-- `VerifyStoreHandler`: an untrusted client may not repair. -/
def verifyStoreHandler : Handler :=
  headerFirst (fun _ => verifyStoreRequest) fun S b req =>
    if truthy (req.getattr "repair") && S.role.belowAdmin then
      .refused "you are not privileged to repair paths"
    else call b

/-- `DerivationOutput.is_ca`: every kind with a method is content-addressed. -/
def isCa (output : Value) : Bool :=
  match output.getattr "method" with
  | .ok (.atom (.str method)) => method != ""
  | _ => false

/-- The outputs of the derivation of a `BuildDerivation` request. -/
def requestOutputs (req : Value) : List Value :=
  match req.getattr "derivation" with
  | .ok drv =>
    match drv.getattr "outputs" with
    | .ok (.dict items) => items.map Prod.snd
    | _ => []
  | .error _ => []

/-- `BuildDerivationHandler`: an untrusted client builds content-addressed derivations
only. -/
def buildDerivationHandler : Handler :=
  headerFirst (fun S => buildDerivationRequest S.storeDir) fun S b req =>
    let outputs := requestOutputs req
    if S.role.belowAdmin && !(!outputs.isEmpty && outputs.all isCa) then
      .refused "you are not privileged to build input-addressed derivations"
    else call b

/-- `NarFromPathHandler`: the archive is streamed, so no response is left to write. -/
def narFromPathHandler : Handler :=
  headerFirst (fun S => narFromPathRequest S.storeDir) fun _ b _ =>
    if b.answers then .handled else .raised

/-- `AddPermRootHandler`: an untrusted client is refused before its request is read, and
the connection closes. -/
def addPermRootHandler : Handler := fun S b s =>
  if S.role.belowAdmin then
    (.closing ("you are not privileged to create perm roots\n\n" ++
      "hint: you can just do this client-side without special privileges, " ++
      "and probably want to do that instead."), s)
  else headerFirst (fun _ => addPermRootRequest) (fun _ b _ => call b) S b s

def addTempRootsHandler : Handler :=
  headerFirst (fun S => addTempRootsRequest S.storeDir) fun _ b _ => call b

/-- The operations that only an administrator may use, with the text of the refusal. -/
def adminOnly (text : String) : Session → Backend → Value → Outcome := fun S b _ =>
  if S.role.belowAdmin then .refused text else call b

def pynixdCollectGarbageHandler : Handler :=
  headerFirst (fun _ => pynixdCollectGarbageRequest)
    (adminOnly "Operation 'PynixdCollectGarbage' requires administrative privileges.")

def signPathInfoHandler : Handler :=
  headerFirst (fun S => signPathInfoRequest S.storeDir)
    (adminOnly "Operation 'SignPathInfo' requires administrative privileges.")

def pynixdRootsReportHandler : Handler :=
  headerFirst (fun _ => pynixdRootsReportRequest)
    (adminOnly "Operation 'PynixdRootsReport' requires administrative privileges.")

def pynixdStateHandler : Handler :=
  headerFirst (fun _ => pynixdStateRequest)
    (adminOnly "Operation 'PynixdState' requires administrative privileges.")

/-- `AddBuildLogHandler`: **the framed log that follows the header is never read.** -/
def addBuildLogHandler : Handler :=
  headerFirst (fun S => addBuildLogRequest S.storeDir)
    (adminOnly "you are not privileged to add logs")

/-! ## Operations without a handler -/

/-- The request asks for `BuildMode.REPAIR`. -/
def asksRepair (req : Value) : Bool :=
  match req.getattr "build_mode" with
  | .ok (.atom (.int 1)) => true
  | _ => false

/-- `BuildPathsRequest` and `BuildPathsWithResultsRequest`. -/
def buildsPaths (op : Nat) : Bool := op == 9 || op == 46

/-- The first test of `execute`: an untrusted client may not repair. -/
def refusesRepair (S : Session) (cls : RequestClass) (req : Value) : Bool :=
  buildsPaths cls.op && asksRepair req && S.role.belowAdmin

/-- `execute`, as far as the loop is concerned: the refusal of a repair closes the
connection, and anything else answers or raises. -/
def executeRequest (cls : RequestClass) : Session → Backend → Value → Outcome := fun S b req =>
  if refusesRepair S cls req then
    .closing "repairing is not allowed because you are not in 'trusted-users'"
  else call b

/-! ## Handlers that forward a framed payload -/

/-- The shape of the three transfers: a backend connection first, then the header off
the client, the header to the backend, the payload, and the answer. -/
def streaming (cls : Session → RequestClass)
    (onward : Session → WireCtx → Value → Except WireError Bytes)
    (payload : Session → Backend → Bytes → Except WireError Unit × Bytes) : Handler := fun S b s =>
  if !b.connects then (.raised, s)
  else
    match ((cls S).fromReader S.client).run wire s with
    | (.error _, s) => (.raised, s)
    | (.ok req, s) =>
      if !((onward S b.conn req).isOk && b.takesHeader) then (.raised, s)
      else
        match payload S b s with
        | (.error _, s) => (.raised, s)
        | (.ok (), s) => (call b, s)

/-- `forward_framed` off the client's connection, as far as the backend lets it. -/
def forwardPayload (S : Session) (b : Backend) (s : Bytes) : Except WireError Unit × Bytes :=
  match (forwardFramed S.chunkSize s.length).run (interruptible b.strike) ⟨s, 0⟩ with
  | (.error e, c) => (.error e, c.src)
  | (.ok _, c) => (.ok (), c.src)

def addToStoreHandler : Handler :=
  streaming (fun S => addToStoreRequest S.storeDir)
    (fun S conn req => (addToStoreRequest S.storeDir).toWriter conn req) forwardPayload

def addToStoreNarHandler : Handler :=
  streaming (fun S => addToStoreNarRequest S.storeDir)
    (fun S conn req => forwardedHeader S.storeDir S.role conn req) forwardPayload

/-- `forward_raw`: exactly `remaining` bytes, at most a chunk at a time. -/
def forwardRaw (chunkSize : Nat) : Nat → Nat → WireReader Unit
  | 0, _ => pure ()
  | fuel + 1, remaining =>
    if remaining = 0 then pure ()
    else do
      let _ ← readexactly (min remaining chunkSize)
      forwardRaw chunkSize fuel (remaining - min remaining chunkSize)

/-- `info.info.nar_size`. -/
def narSize (keyed : Value) : Nat :=
  match keyed.getattr "info" with
  | .ok info =>
    match info.getattr "nar_size" with
    | .ok (.atom (.int n)) => n.toNat
    | _ => 0
  | .error _ => 0

/-- The reads of `_forward_stream`: the number of paths, and for each one its info and
its archive. -/
def forwardStream (S : Session) : WireReader (List Value) := do
  let expected ← readUInt64
  replicate expected do
    let info ← readAnn ⟨1, []⟩ (validPathInfo S.storeDir)
    forwardRaw S.chunkSize (narSize info) (narSize info)
    pure info

/-- The end of `_forward_stream`: `ensure_eof` under its time limit, which passes over a
timeout in silence. -/
def ensureEof (b : Backend) (c : Conn) : Except WireError Unit × Conn :=
  match b.eofTimeout with
  | some k => (.ok (), ((drainFrames c.src.length).run
      (interruptible (some ⟨c.reads + k.after, k.lost⟩)) c).2)
  | none => (drainFrames c.src.length).run (interruptible b.strike) c

/-- `_forward_stream` off the client's connection, as far as the backend lets it. -/
def forwardPaths (S : Session) (b : Backend) (s : Bytes) : Except WireError Unit × Bytes :=
  match (forwardStream S).run (framed (interruptible b.strike)) ⟨[], false, ⟨s, 0⟩⟩ with
  | (.error e, st) => (.error e, st.src.src)
  | (.ok _, st) =>
    if st.eof then (.ok (), st.src.src)
    else
      match ensureEof b st.src with
      | (.error e, c) => (.error e, c.src)
      | (.ok (), c) => (.ok (), c.src)

/-- The header of `AddMultipleToStore` for the backend: the signatures of an untrusted
client are checked. -/
def addMultipleHeader (S : Session) (conn : WireCtx) (req : Value) : Except WireError Bytes :=
  (addMultipleToStoreRequest).toWriter conn
    (if S.role.belowAdmin then req.modelCopy [("dont_check_sigs", .atom (.int 0))] else req)

def addMultipleToStoreHandler : Handler :=
  streaming (fun _ => addMultipleToStoreRequest) addMultipleHeader forwardPaths

def handlerFor : Nat → Option Handler
  | 7 => some addToStoreHandler
  | 11 => some addTempRootHandler
  | 12 => some addIndirectRootHandler
  | 14 => some findRootsHandler
  | 19 => some setOptionsHandler
  | 20 => some collectGarbageHandler
  | 34 => some optimiseStoreHandler
  | 35 => some verifyStoreHandler
  | 36 => some buildDerivationHandler
  | 38 => some narFromPathHandler
  | 39 => some addToStoreNarHandler
  | 44 => some addMultipleToStoreHandler
  | 45 => some addBuildLogHandler
  | 47 => some addPermRootHandler
  | 49 => some addTempRootsHandler
  | 101 => some pynixdCollectGarbageHandler
  | 107 => some signPathInfoHandler
  | 110 => some pynixdRootsReportHandler
  | 111 => some pynixdStateHandler
  | _ => none

end Pynixd
