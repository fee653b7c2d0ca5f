import Pynixd.Handlers.AddToStoreNar
import Pynixd.Lib.Dialogue
import Pynixd.Protocol.BuildResult
import Pynixd.Store.Probe
import Pynixd.Wire.Compiled
import Pynixd.Wire.RoundTrip
import Mathlib.Data.Finset.Card
import Mathlib.Data.Finset.Union

/-!
# The handshake of the daemon protocol

`Connection.handshake` of `pynixd/connection.py` is the client half and `DaemonProxy.handshake` of
`pynixd/proxy.py` the server half, and pynixd has both: one pynixd may sit behind another.  Each
half is written by itself, with fields that depend on the version, and each computes the standard
features by itself from what the other side named.

* `reach_handshake` — the conversation, written out: **both halves end**, and every byte that one
  writes is read by the other;
* `standardFeatures_client`, `standardFeatures_server` — what either side ends with: the proxy
  names `addTempRoots` whatever its stores offer, and does not count it for itself;
* `handshake_agrees_iff` — in whatever order the two halves take their steps, they end in agreement
  **exactly when** a store that a build can go to offers `addTempRoots`.
-/

namespace Pynixd.Negotiation

open List TokenStream Dialogue
open Probe (FeatureMatrix)

/-! ## Constants -/

def workerMagic1 : Nat := 0x6E697863
def workerMagic2 : Nat := 0x6478696F
def protocolVersion : Nat := proto 1 38
def featureExchangeProtocol : Nat := proto 1 38
def featureAddTempRoots : String := "addTempRoots"

def stderrNext : Nat := 0x6F6C6D67
def stderrLast : Nat := 0x616C7473
def stderrError : Nat := 0x63787470
def stderrStartActivity : Nat := 0x53545254
def stderrStopActivity : Nat := 0x53544F50
def stderrResult : Nat := 0x52534C54

def nixVersion : String := "pynixd-0.1.0"

def supportedStandardFeatures : Finset String :=
  {featureRealisationWithPath, featureAddTempRoots}

/-- `get_extension_features`: the names of the requests under `daemon_extensions/`. -/
def getExtensionFeatures : Finset String :=
  {"ProbeFeatures", "ProbeSystems", "PynixdCollectGarbage", "PynixdRootsReport", "PynixdState",
    "QueryClosure", "QueryClosureWithInfo", "QueryDerivationOutputMapBatch", "QueryPathInfos",
    "SignPathInfo"}

def negotiateFeatures (peer ours : Finset String) : Finset String := peer ∩ ours

inductive OptTrusted where
  | unknown
  | trusted
  | notTrusted
  deriving DecidableEq

def OptTrusted.value : OptTrusted → Nat
  | unknown => 0
  | trusted => 1
  | notTrusted => 2

/-! ## Talking -/

inductive HandshakeError where
  | wire (e : WireError)
  /-- `ValueError`: "Bad client magic". -/
  | badClientMagic (magic : Nat)
  /-- `ValueError`: "Bad magic". -/
  | badMagic (magic : Nat)
  /-- `InfrastructureError`: the peer is older than `minimumRemoteProtocol`. -/
  | versionTooLow (version : Nat)
  /-- `ConnectionError`: "Protocol desync", with the last unknown code. -/
  | desync (msgType : Nat)
  /-- `DaemonProtocolError`, with the text of the daemon. -/
  | daemon (msg : Option Value)
  /-- More log messages came than the model follows. -/
  | unbounded

abbrev Half := Program UInt8 HandshakeError

def read {α : Type} (r : WireReader α) : Half α := .listen .wire r

def write (w : Except WireError Bytes) : Half Unit := .write .wire w

def drain : Half Unit := .flush

def require (c : Prop) [Decidable c] (e : HandshakeError) : Half Unit :=
  if c then pure () else .fail e

def onlyIf (c : Prop) [Decidable c] (p : Half Unit) : Half Unit :=
  if c then p else pure ()

variable {p : DaemonProxy} {items : Finset String} {n : Nat} {c : Prop}

theorem require_of [Decidable c] (h : c) (e : HandshakeError) :
    require c e = pure () := if_pos h

theorem onlyIf_of [Decidable c] (h : c) (p : Half Unit) : onlyIf c p = p := if_pos h

/-- The order in which a process goes over a set.  It is any order, and differs from process to
process, but every member comes once. -/
structure SetOrder where
  list : Finset String → List String
  nodup : ∀ s, (list s).Nodup
  toFinset_list : ∀ s, (list s).toFinset = s

def writeStringSet (order : SetOrder) (items : Finset String) : Except WireError Bytes :=
  writeCounted writeString (order.list items)

def readStringSet : WireReader (Finset String) := do
  let count ← readUInt64
  List.toFinset <$> replicate count readString

/-! ## The log stream -/

def logStartActivity : Ann := .model "LogStartActivity" [
  ({ name := "code", deserialize := false, dflt := some (.atom (.int stderrStartActivity)) },
    .atom .int),
  withDefault "act_id" (.atom (.int 0)) (.atom .int),
  withDefault "level" (.atom (.int 0)) (.atom .int),
  withDefault "type" (.atom (.int 0)) (.atom .int),
  ({ name := "text", lossless := true, dflt := some (.atom (.escaped [])) }, .atom .str),
  withDefault "fields" (.list []) (.list activityField.ann),
  withDefault "parent" (.atom (.int 0)) (.atom .int)]

def logStopActivity : Ann := .model "LogStopActivity" [
  ({ name := "code", deserialize := false, dflt := some (.atom (.int stderrStopActivity)) },
    .atom .int),
  withDefault "act_id" (.atom (.int 0)) (.atom .int)]

def logResult : Ann := .model "LogResult" [
  ({ name := "code", deserialize := false, dflt := some (.atom (.int stderrResult)) },
    .atom .int),
  withDefault "act_id" (.atom (.int 0)) (.atom .int),
  withDefault "result_type" (.atom (.int 0)) (.atom .int),
  withDefault "fields" (.list []) (.list activityField.ann)]

def logError : Ann := .model "LogError" [
  ({ name := "code", deserialize := false, dflt := some (.atom (.int stderrError)) },
    .atom .int),
  ({ name := "type", lossless := true, dflt := some (.atom (.escaped [])) }, .atom .str),
  withDefault "level" (.atom (.int 0)) (.atom .int),
  ({ name := "name", lossless := true, dflt := some (.atom (.escaped [])) }, .atom .str),
  ({ name := "msg", lossless := true, dflt := some (.atom (.escaped [])) }, .atom .str),
  withDefault "have_pos" (.atom (.int 0)) (.atom .int),
  withDefault "traces" (.list []) (.list traceLine.ann)]

def logParsers (msgType : Nat) : Option Ann :=
  if msgType = stderrNext then some logNext
  else if msgType = stderrStartActivity then some logStartActivity
  else if msgType = stderrStopActivity then some logStopActivity
  else if msgType = stderrResult then some logResult
  else if msgType = stderrError then some logError
  else none

/-- `drain` over `read_stream`, for so many messages at most. -/
def drainStderr : (messages unknownStreak : Nat) → Half Unit
  | 0, _ => .fail .unbounded
  | messages + 1, unknownStreak => do
    let msgType ← read readUInt64
    if msgType = stderrLast then pure ()
    else
      match logParsers msgType with
      | none =>
        if unknownStreak + 1 ≥ 3 then .fail (.desync msgType)
        else drainStderr messages (unknownStreak + 1)
      | some parser => do
        let msg ← read (readAnn ⟨protocolVersion, []⟩ parser)
        if msgType = stderrError then .fail (.daemon (Dict.get? msg.attrs "msg"))
        else drainStderr messages 0

/-! ## The client half -/

/-- What the feature exchange leaves: what the peer named, and the standard features of both. -/
structure Exchange where
  peer : Finset String
  standardFeatures : Finset String

/-- What a `Connection` holds after the handshake. -/
structure Connection where
  version : Nat
  features : Finset String
  standardFeatures : Finset String
  nixVersion : String

namespace Connection

/-- What the client names. -/
def ourFeatures : Finset String := getExtensionFeatures ∪ supportedStandardFeatures

/-- The feature negotiation, from 1.38 on. -/
def exchange (order : SetOrder) (version : Nat) : Half Exchange :=
  if featureExchangeProtocol ≤ version then do
    write (writeStringSet order ourFeatures)
    drain
    let features ← read readStringSet
    pure ⟨features, negotiateFeatures features supportedStandardFeatures⟩
  else pure ⟨∅, ∅⟩

/-- The version of the daemon and whether it trusts us, which is not kept. -/
def daemonInfo (serverVersion : Nat) : Half String :=
  if proto 1 33 ≤ serverVersion then do
    let nixVersion ← read readString
    onlyIf (proto 1 35 ≤ serverVersion) do
      let _ ← read readUInt64
      pure ()
    pure nixVersion
  else pure ""

def handshake (order : SetOrder) (messages : Nat) : Half Connection := do
  write (writeUInt64 workerMagic1)
  drain
  let magic ← read readUInt64
  require (magic = workerMagic2) (.badMagic magic)
  let serverVersion ← read readUInt64
  let version := min protocolVersion serverVersion
  require (minimumRemoteProtocol ≤ version) (.versionTooLow version)
  write (writeUInt64 protocolVersion)
  let exchanged ← exchange order version
  -- sendCpu and reserveSpace
  write (writeUInt64 0)
  write (writeUInt64 0)
  drain
  let nixVersion ← daemonInfo serverVersion
  drainStderr (messages + 1) 0
  pure ⟨version, exchanged.peer, exchanged.standardFeatures, nixVersion⟩

end Connection

/-! ## The server half -/

/-- What the handshake reads of a store. -/
structure Store where
  noSchedule : Bool
  features : Finset String
  featureMatrix : Option FeatureMatrix

/-- What the handshake reads of a `DaemonProxy`. -/
structure DaemonProxy where
  stores : List Store
  /-- `local_store.nix_version`, which is empty until the local store connects. -/
  nixVersion : String
  role : Role

/-- What a `DaemonProxy` holds after the handshake. -/
structure Session where
  version : Nat
  clientFeatures : Finset String
  standardFeatures : Finset String

/-- The names for one row of a feature matrix. -/
def addRow (ours : Finset String) (row : String × Finset String) : Finset String :=
  insert ("feature_matrix:" ++ row.1) ours ∪
    row.2.image fun feat => "feature_matrix:" ++ row.1 ++ ":" ++ feat

/-- The names for the feature matrix of one store, unless it takes no builds. -/
def addMatrix (ours : Finset String) (store : Store) : Finset String :=
  if store.noSchedule then ours else (store.featureMatrix.getD []).foldl addRow ours

namespace DaemonProxy

variable (p : DaemonProxy)

def honourableFeatures : Finset String :=
  p.stores.foldl (fun honourable store =>
    if store.noSchedule then honourable else honourable ∪ store.features) ∅ ∩
      supportedStandardFeatures

/-- `our_features` of the handshake: what the proxy names. -/
def ourFeatures : Finset String :=
  p.stores.foldl addMatrix
    (insert featureAddTempRoots (getExtensionFeatures ∪ p.honourableFeatures))

def versionForTheClient : String :=
  if p.nixVersion = "" then Negotiation.nixVersion else p.nixVersion

/-- The trust that the proxy reports. -/
def trust : OptTrusted := if p.role = .admin then .trusted else .notTrusted

/-- The feature negotiation, from 1.38 on. -/
def exchange (order : SetOrder) (version : Nat) : Half Exchange :=
  if featureExchangeProtocol ≤ version then do
    let clientFeatures ← read readStringSet
    write (writeStringSet order p.ourFeatures)
    drain
    pure ⟨clientFeatures, negotiateFeatures clientFeatures p.honourableFeatures⟩
  else pure ⟨∅, ∅⟩

def handshake (order : SetOrder) : Half Session := do
  let magic ← read readUInt64
  require (magic = workerMagic1) (.badClientMagic magic)
  write (writeUInt64 workerMagic2)
  write (writeUInt64 protocolVersion)
  drain
  let clientVersion ← read readUInt64
  let version := min protocolVersion clientVersion
  let exchanged ← p.exchange order version
  let sendCpu ← read readUInt64
  onlyIf (sendCpu ≠ 0) do
    let _cpuAffinity ← read readUInt64
    pure ()
  let _reserveSpace ← read readUInt64
  -- these depend on the version of the client, and not on the negotiated one
  onlyIf (proto 1 33 ≤ clientVersion) do
    write (writeString p.versionForTheClient)
    onlyIf (proto 1 35 ≤ clientVersion) (write (writeUInt64 p.trust.value))
  write (writeUInt64 stderrLast)
  drain
  pure ⟨version, exchanged.peer, exchanged.standardFeatures⟩

end DaemonProxy

/-! ## The features of either side -/

theorem matrixName_not_mem (name : String) :
    "feature_matrix:" ++ name ∉ supportedStandardFeatures := by
  have hfirst : ("feature_matrix:" ++ name).toList.head? = some 'f' := by
    rw [String.toList_append]
    rfl
  intro h
  rcases Finset.mem_insert.1 h with h | h
  · rw [h] at hfirst
    exact absurd hfirst (by decide)
  · rw [Finset.mem_singleton.1 h] at hfirst
    exact absurd hfirst (by decide)

theorem addRow_inter (ours : Finset String) (row : String × Finset String) :
    addRow ours row ∩ supportedStandardFeatures = ours ∩ supportedStandardFeatures := by
  have hfeatures : (row.2.image fun feat => "feature_matrix:" ++ row.1 ++ ":" ++ feat) ∩
      supportedStandardFeatures = ∅ := by
    refine Finset.disjoint_iff_inter_eq_empty.1 (Finset.disjoint_left.2 fun name hname => ?_)
    obtain ⟨feat, -, rfl⟩ := Finset.mem_image.1 hname
    rw [String.append_assoc, String.append_assoc]
    exact matrixName_not_mem _
  rw [addRow, Finset.union_inter_distrib_right, hfeatures, Finset.union_empty,
    Finset.insert_inter_of_notMem (matrixName_not_mem row.1)]

theorem addMatrix_inter (ours : Finset String) (store : Store) :
    addMatrix ours store ∩ supportedStandardFeatures = ours ∩ supportedStandardFeatures := by
  unfold addMatrix
  split
  · rfl
  · generalize store.featureMatrix.getD [] = rows
    induction rows generalizing ours with
    | nil => rfl
    | cons row rows ih => rw [foldl_cons, ih, addRow_inter]

theorem foldl_addMatrix_inter (stores : List Store) (ours : Finset String) :
    stores.foldl addMatrix ours ∩ supportedStandardFeatures =
      ours ∩ supportedStandardFeatures := by
  induction stores generalizing ours with
  | nil => rfl
  | cons store stores ih => rw [foldl_cons, ih, addMatrix_inter]

theorem extensions_inter : getExtensionFeatures ∩ supportedStandardFeatures = ∅ := by decide

namespace DaemonProxy

variable (p : DaemonProxy)

theorem honourableFeatures_subset : p.honourableFeatures ⊆ supportedStandardFeatures :=
  Finset.inter_subset_right

theorem mem_honourableFeatures (feature : String) :
    feature ∈ p.honourableFeatures ↔ feature ∈ supportedStandardFeatures ∧
      ∃ store ∈ p.stores, store.noSchedule = false ∧ feature ∈ store.features := by
  have hfold : ∀ (stores : List Store) (honourable : Finset String),
      feature ∈ stores.foldl (fun honourable store =>
          if store.noSchedule then honourable else honourable ∪ store.features) honourable ↔
        feature ∈ honourable ∨
          ∃ store ∈ stores, store.noSchedule = false ∧ feature ∈ store.features := by
    intro stores
    induction stores with
    | nil => simp
    | cons store stores ih =>
      intro honourable
      rw [foldl_cons, ih]
      cases hstore : store.noSchedule <;> simp [hstore, or_assoc]
  rw [honourableFeatures, Finset.mem_inter, hfold, and_comm]
  simp

/-- **The client counts `addTempRoots` always**: the proxy names it, whatever its stores offer. -/
theorem standardFeatures_client :
    negotiateFeatures p.ourFeatures supportedStandardFeatures =
      insert featureAddTempRoots p.honourableFeatures := by
  have hsupported : featureAddTempRoots ∈ supportedStandardFeatures := by decide
  rw [negotiateFeatures, ourFeatures, foldl_addMatrix_inter, Finset.insert_inter_of_mem hsupported,
    Finset.union_inter_distrib_right, extensions_inter, Finset.empty_union,
    Finset.inter_eq_left.2 p.honourableFeatures_subset]

/-- **The proxy counts what it honours**, and `addTempRoots` only if that is among it. -/
theorem standardFeatures_server :
    negotiateFeatures Connection.ourFeatures p.honourableFeatures = p.honourableFeatures :=
  Finset.inter_eq_right.2 (p.honourableFeatures_subset.trans Finset.subset_union_right)

end DaemonProxy

/-! ## The conversation -/

theorem takes_readStringSet {order : SetOrder} {bs : Bytes}
    (h : writeStringSet order items = .ok bs) : Takes readStringSet bs items := by
  have htakes : Takes readStringSet bs ((order.list items).map id).toFinset :=
    takes_writeCounted List.toFinset h fun _ _ _ hb => takes_string hb
  rwa [map_id, order.toFinset_list] at htakes

theorem exists_writeStringSet (order : SetOrder) (hcount : FitsUInt64 items.card)
    (hnames : ∀ name ∈ items, FitsUInt64 (encodeUtf8 name).length) :
    ∃ bs, writeStringSet order items = .ok bs := by
  have hlen : (order.list items).length = items.card := by
    rw [← toFinset_card_of_nodup (order.nodup items), order.toFinset_list]
  refine writeCounted_of_fits (by rwa [hlen]) fun name hname => writeBytes_of_fits (hnames name ?_)
  rwa [← mem_toFinset, order.toFinset_list] at hname

theorem writeUInt64_natCast (h : n < 2 ^ 64) : writeUInt64 n = .ok (leBytes 8 n) :=
  writeUInt64_of_fits (fitsUInt64_natCast.2 h)

theorem takes_natCast (h : n < 2 ^ 64) : Takes readUInt64 (leBytes 8 n) n :=
  takes_uint64 (fitsUInt64_natCast.2 h)

/-- What the proxy writes can be written: no string and no set has `2 ^ 64` items or more. -/
structure DaemonProxy.Fits (p : DaemonProxy) : Prop where
  count : FitsUInt64 p.ourFeatures.card
  names : ∀ name ∈ p.ourFeatures, FitsUInt64 (encodeUtf8 name).length
  version : FitsUInt64 (encodeUtf8 p.versionForTheClient).length

theorem exists_writeStringSet_client (order : SetOrder) :
    ∃ bs, writeStringSet order Connection.ourFeatures = .ok bs :=
  exists_writeStringSet order (by decide) (by decide +kernel)

variable {f g : Bytes → Nat}

theorem DaemonProxy.trust_lt (p : DaemonProxy) : p.trust.value < 2 ^ 64 := by
  cases p.trust <;> decide

theorem reach_handshake (clientOrder serverOrder : SetOrder) (messages : Nat) (p : DaemonProxy)
    {clientNames serverNames nix : Bytes}
    (hclient : writeStringSet clientOrder Connection.ourFeatures = .ok clientNames)
    (hserver : writeStringSet serverOrder p.ourFeatures = .ok serverNames)
    (hnix : writeString p.versionForTheClient = .ok nix) :
    Reach f g (Talk.start (Connection.handshake clientOrder messages) (p.handshake serverOrder))
      ⟨.done ⟨protocolVersion, p.ourFeatures,
          negotiateFeatures p.ourFeatures supportedStandardFeatures, p.versionForTheClient⟩,
        .done ⟨protocolVersion, Connection.ourFeatures,
          negotiateFeatures Connection.ourFeatures p.honourableFeatures⟩,
        ⟨leBytes 8 workerMagic1 ++ leBytes 8 protocolVersion ++ clientNames ++ leBytes 8 0 ++
          leBytes 8 0, [], []⟩,
        ⟨leBytes 8 workerMagic2 ++ leBytes 8 protocolVersion ++ serverNames ++ nix ++
          leBytes 8 p.trust.value ++ leBytes 8 stderrLast, [], []⟩⟩ := by
  have hexchange : featureExchangeProtocol ≤ protocolVersion := by decide
  have hversion : proto 1 33 ≤ protocolVersion := by decide
  have htrust : proto 1 35 ≤ protocolVersion := by decide
  -- the client opens
  refine (Reach.left (Locally.write (writeUInt64_natCast (by decide)) _)).trans ?_
  refine (Reach.left (Locally.flush _)).trans ?_
  simp only [Pipe.flush_put, Pipe.empty, nil_append]
  -- the server names its version
  refine (Reach.right (Locally.listen_all (takes_natCast (by decide)) _ _ _ _)).trans ?_
  rw [require_of rfl, Program.pure_bind]
  refine (Reach.right (Locally.write (writeUInt64_natCast (by decide)) _)).trans ?_
  refine (Reach.right (Locally.write (writeUInt64_natCast (by decide)) _)).trans ?_
  refine (Reach.right (Locally.flush _)).trans ?_
  simp only [Pipe.flush_put, Pipe.ready_append_held_put, Pipe.taken_put, nil_append]
  -- the client names its version and its features
  refine (Reach.left (Locally.listen (takes_natCast (by decide)) _ _ _ _ _)).trans ?_
  refine (Reach.left (Locally.listen_all (takes_natCast (by decide)) _ _ _ _)).trans ?_
  rw [Nat.min_self, require_of (by decide), Program.pure_bind, Connection.exchange,
    if_pos hexchange]
  simp only [Program.bind_assoc, Program.pure_bind]
  refine (Reach.left (Locally.write (writeUInt64_natCast (by decide)) _)).trans ?_
  refine (Reach.left (Locally.write hclient _)).trans ?_
  refine (Reach.left (Locally.flush _)).trans ?_
  simp only [Pipe.flush_put, Pipe.ready_append_held_put, Pipe.taken_put, nil_append]
  -- the server reads them and names its own
  refine (Reach.right (Locally.listen (takes_natCast (by decide)) _ _ _ _ _)).trans ?_
  rw [Nat.min_self, DaemonProxy.exchange, if_pos hexchange]
  simp only [Program.bind_assoc, Program.pure_bind]
  refine (Reach.right (Locally.listen_all (takes_readStringSet hclient) _ _ _ _)).trans ?_
  refine (Reach.right (Locally.write hserver _)).trans ?_
  refine (Reach.right (Locally.flush _)).trans ?_
  simp only [Pipe.flush_put, nil_append]
  -- the client reads those, and sends no affinity and no reservation
  refine (Reach.left (Locally.listen_all (takes_readStringSet hserver) _ _ _ _)).trans ?_
  refine (Reach.left (Locally.write (writeUInt64_natCast (n := 0) (by decide)) _)).trans ?_
  refine (Reach.left (Locally.write (writeUInt64_natCast (n := 0) (by decide)) _)).trans ?_
  refine (Reach.left (Locally.flush _)).trans ?_
  simp only [Pipe.flush_put, Pipe.ready_append_held_put, Pipe.taken_put, nil_append]
  -- the server says what it is and ends
  refine (Reach.right (Locally.listen (takes_natCast (by decide)) _ _ _ _ _)).trans ?_
  refine (Reach.right (Locally.listen_all (takes_natCast (by decide)) _ _ _ _)).trans ?_
  rw [onlyIf_of hversion, Program.bind_assoc]
  refine (Reach.right (Locally.write hnix _)).trans ?_
  rw [onlyIf_of htrust]
  refine (Reach.right (Locally.write (writeUInt64_natCast p.trust_lt) _)).trans ?_
  refine (Reach.right (Locally.write (writeUInt64_natCast (by decide)) _)).trans ?_
  refine (Reach.right (Locally.flush _)).trans ?_
  simp only [Pipe.flush_put, Pipe.ready_append_held_put, Pipe.taken_put, nil_append]
  -- and so does the client
  rw [Connection.daemonInfo, if_pos hversion, onlyIf_of htrust]
  simp only [Program.bind_assoc, Program.pure_bind]
  refine (Reach.left (Locally.listen (takes_string hnix) _ _ _ _ _)).trans ?_
  refine (Reach.left (Locally.listen (takes_natCast p.trust_lt) _ _ _ _ _)).trans ?_
  rw [drainStderr, Program.bind_assoc]
  refine (Reach.left (Locally.listen_all (takes_natCast (by decide)) _ _ _ _)).trans ?_
  exact .refl

/-! ## Agreement -/

def DaemonProxy.clientEnd (p : DaemonProxy) : Connection where
  version := protocolVersion
  features := p.ourFeatures
  standardFeatures := insert featureAddTempRoots p.honourableFeatures
  nixVersion := p.versionForTheClient

def DaemonProxy.serverEnd (p : DaemonProxy) : Session where
  version := protocolVersion
  clientFeatures := Connection.ourFeatures
  standardFeatures := p.honourableFeatures

/-- Both halves ended, and each read exactly the bytes that the other wrote. -/
structure Ended (t : Talk UInt8 HandshakeError Connection Session) (c : Connection)
    (s : Session) : Prop where
  client : t.left = .done c
  server : t.right = .done s
  toServer : t.toRight.taken = t.toRight.written
  toClient : t.toLeft.taken = t.toLeft.written

/-- Both halves ended so, with the same version and the same standard features. -/
def Agreed (t : Talk UInt8 HandshakeError Connection Session) : Prop :=
  ∃ c s, Ended t c s ∧ c.version = s.version ∧ c.standardFeatures = s.standardFeatures

theorem Ended.quiet {t : Talk UInt8 HandshakeError Connection Session} {c : Connection}
    {s : Session} (h : Ended t c s) : Quiet f g t := by
  obtain ⟨left, right, toRight, toLeft⟩ := t
  obtain ⟨rfl, rfl, -, -⟩ := h
  exact quiet_done c s toRight toLeft

/-- The conversation of a client and a proxy, before its first byte. -/
def DaemonProxy.meets (p : DaemonProxy) (clientOrder serverOrder : SetOrder) (messages : Nat) :
    Talk UInt8 HandshakeError Connection Session :=
  .start (Connection.handshake clientOrder messages) (p.handshake serverOrder)

theorem exists_ended (clientOrder serverOrder : SetOrder) (messages : Nat)
    (hfits : p.Fits) : ∃ t, Reach f g (p.meets clientOrder serverOrder messages) t ∧
      Ended t p.clientEnd p.serverEnd := by
  obtain ⟨clientNames, hclient⟩ := exists_writeStringSet_client clientOrder
  obtain ⟨serverNames, hserver⟩ := exists_writeStringSet serverOrder hfits.count hfits.names
  obtain ⟨nix, hnix⟩ := writeBytes_of_fits hfits.version
  have hreach := reach_handshake (f := f) (g := g) clientOrder serverOrder messages p hclient
    hserver hnix
  rw [p.standardFeatures_client, p.standardFeatures_server] at hreach
  refine ⟨_, hreach, rfl, rfl, ?_, ?_⟩
  · simp [Pipe.written]
  · simp [Pipe.written]

/-- **The two halves always come to an end**, in whatever order they take their steps and whatever
the writers hand over early: each has then read exactly the bytes that the other wrote. -/
theorem handshake_ends (clientOrder serverOrder : SetOrder) (messages : Nat) (hfits : p.Fits) :
    Inevitable f g (fun t => Ended t p.clientEnd p.serverEnd)
      (p.meets clientOrder serverOrder messages) := by
  obtain ⟨t, hreach, hended⟩ :=
    exists_ended (f := f) (g := g) clientOrder serverOrder messages hfits
  exact (inevitable_iff hended.quiet hreach fun _ h => h.quiet).2 hended

theorem DaemonProxy.ends_agree_iff (p : DaemonProxy) :
    p.clientEnd.standardFeatures = p.serverEnd.standardFeatures ↔
      featureAddTempRoots ∈ p.honourableFeatures :=
  Finset.insert_eq_self

theorem inevitable_agreed_iff (clientOrder serverOrder : SetOrder) (messages : Nat)
    (hfits : p.Fits) :
    Inevitable f g Agreed (p.meets clientOrder serverOrder messages) ↔
      featureAddTempRoots ∈ p.honourableFeatures := by
  obtain ⟨t, hreach, hended⟩ :=
    exists_ended (f := f) (g := g) clientOrder serverOrder messages hfits
  have hquiet : ∀ u, Agreed u → Quiet f g u := by
    rintro u ⟨c, s, h, -, -⟩
    exact h.quiet
  rw [inevitable_iff hended.quiet hreach hquiet]
  constructor
  · rintro ⟨c, s, h, -, hfeatures⟩
    obtain rfl := Program.done.inj (hended.client.symm.trans h.client)
    obtain rfl := Program.done.inj (hended.server.symm.trans h.server)
    exact p.ends_agree_iff.1 hfeatures
  · intro h
    exact ⟨_, _, hended, rfl, p.ends_agree_iff.2 h⟩

/-- **The handshake agrees exactly when a store offers `addTempRoots`**: for every proxy, in
whatever order the halves take their steps and go over their sets, they end with every byte read,
with one version and with one set of standard features if and only if a store that a build can go
to offers the feature that the proxy names by itself. -/
theorem handshake_agrees_iff (clientOrder serverOrder : SetOrder) (messages : Nat)
    {p : DaemonProxy} (hfits : p.Fits) :
    Inevitable f g Agreed (p.meets clientOrder serverOrder messages) ↔
      ∃ store ∈ p.stores, store.noSchedule = false ∧ featureAddTempRoots ∈ store.features := by
  rw [inevitable_agreed_iff clientOrder serverOrder messages hfits, p.mem_honourableFeatures]
  exact and_iff_right (by decide)

/-- Some order of every set. -/
noncomputable def someOrder : SetOrder where
  list := Finset.toList
  nodup := Finset.nodup_toList
  toFinset_list := Finset.toList_toFinset

def proxyOver (features : Finset String) : DaemonProxy where
  stores := [⟨false, features, some [("x86_64-linux", {"kvm"})]⟩]
  nixVersion := "2.34.0"
  role := .user

/-- A store of the master branch of Nix. -/
theorem handshake_agrees_master : (proxyOver supportedStandardFeatures).Fits ∧
      Inevitable (fun _ => 0) (fun _ => 0) Agreed
        ((proxyOver supportedStandardFeatures).meets someOrder someOrder 0) := by
  have hfits : (proxyOver supportedStandardFeatures).Fits :=
    ⟨by decide +kernel, by decide +kernel, by decide +kernel⟩
  exact ⟨hfits, (handshake_agrees_iff someOrder someOrder 0 hfits).2
    ⟨_, mem_singleton_self _, rfl, by decide⟩⟩

/-- **One name on one side only.**  Nix 2.34 offers no feature.  The client of a proxy over it ends
with `addTempRoots`, and the proxy ends with nothing. -/
theorem handshake_disagrees : (proxyOver ∅).Fits ∧
      ¬ Inevitable (fun _ => 0) (fun _ => 0) Agreed ((proxyOver ∅).meets someOrder someOrder 0) ∧
      Inevitable (fun _ => 0) (fun _ => 0)
        (fun t => Ended t (proxyOver ∅).clientEnd (proxyOver ∅).serverEnd)
        ((proxyOver ∅).meets someOrder someOrder 0) ∧
      (proxyOver ∅).clientEnd.standardFeatures = {featureAddTempRoots} ∧
      (proxyOver ∅).serverEnd.standardFeatures = ∅ := by
  have hfits : (proxyOver ∅).Fits := ⟨by decide +kernel, by decide +kernel, by decide +kernel⟩
  refine ⟨hfits, fun hagreed => ?_, handshake_ends someOrder someOrder 0 hfits, ?_, ?_⟩
  · have hnot : featureAddTempRoots ∉ (proxyOver ∅).honourableFeatures := by decide
    exact hnot ((inevitable_agreed_iff someOrder someOrder 0 hfits).1 hagreed)
  · decide
  · decide

end Pynixd.Negotiation
