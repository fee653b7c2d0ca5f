import Pynixd.Wire.Message

/-!
# The requests of the operations that pynixd handles itself

One `RequestClass` for each operation of `HANDLER_REGISTRY`, with the fields its
`WireRequest` subclass declares, in declaration order, and the scalar classes
those fields use.  The store directory is a parameter, because `store_dir()` is
one value for the whole process.

* `fromWire_toWire_storePath` — a store path survives the wire.
-/

namespace Pynixd

open TokenStream

/-! ## Scalars -/

def startswith (s head : String) : Bool := head.toList.isPrefixOf s.toList

def dropChars (n : Nat) (s : String) : String := String.ofList (s.toList.drop n)

/-- `StorePath`: holds the base name, and prints it behind the store directory.
An absolute path of another store is refused. -/
def storePath (storeDir : String) : ScalarClass where
  fromWire path :=
    let head := storeDir ++ "/"
    if startswith path head then .ok (dropChars head.length path)
    else if startswith path "/" then .error (.foreignStorePath path storeDir)
    else .ok path
  toWire held := if held = "" then "" else storeDir ++ "/" ++ held

/-- The names `NARHash` takes off a hash. -/
def algorithms : List String := ["blake3", "md5", "sha1", "sha256", "sha512"]

/-- `value.partition(":")`, as the head and what follows a separator. -/
def partitionColon (value : String) : String × Option String :=
  let head := value.toList.takeWhile (· ≠ ':')
  match value.toList.dropWhile (· ≠ ':') with
  | [] => (String.ofList head, none)
  | _ :: tail => (String.ofList head, some (String.ofList tail))

/-- `NARHash`: the name of a known algorithm in front of the digest is taken off. -/
def narHash : ScalarClass where
  fromWire value :=
    match partitionColon value with
    | (head, some digest) => .ok (if head ∈ algorithms then digest else value)
    | (_, none) => .ok value
  toWire held := held

/-- `ContentAddress`: a plain string. -/
def contentAddress : ScalarClass where
  fromWire value := .ok value
  toWire held := held

/-- `Signature`: a plain string. -/
def signature : ScalarClass where
  fromWire value := .ok value
  toWire held := held

theorem dropChars_append (head s : String) : dropChars head.length (head ++ s) = s := by
  rw [dropChars, String.toList_append, ← String.length_toList, List.drop_left, String.ofList_toList]

theorem startswith_append (head s : String) : startswith (head ++ s) head = true := by
  simp [startswith, String.toList_append]

/-- Reading the wire form of a store path gives the path back, whatever it holds. -/
theorem fromWire_toWire_storePath (storeDir held : String) :
    (storePath storeDir).fromWire ((storePath storeDir).toWire held) = .ok held := by
  by_cases h : held = ""
  · subst h
    have hdir : startswith "" (storeDir ++ "/") = false := by
      simp only [startswith, String.toList_append]
      cases storeDir.toList <;> rfl
    have hslash : startswith "" "/" = false := by decide
    simp [storePath, hdir, hslash]
  · simp only [storePath, if_neg h, startswith_append, if_true, dropChars_append]

/-! ## Requests -/

def proto (major minor : Nat) : Nat := major <<< 8 ||| minor

/-- The oldest protocol a remote may speak. -/
def minimumRemoteProtocol : Nat := proto 1 32

structure RequestClass where
  op : Nat
  name : String
  minProtocol : Nat := minimumRemoteProtocol
  fields : List (FieldMeta × Ann)

/-- `WireRequest.from_reader`: the body, since the dispatch took the op code. -/
def RequestClass.fromReader (cls : RequestClass) (ctx : WireCtx) : WireReader Value :=
  readAnn ctx (.model cls.name cls.fields)

/-- `WireRequest.to_writer`: the op code, then the body. -/
def RequestClass.toWriter (cls : RequestClass) (ctx : WireCtx) (req : Value) :
    Except WireError Bytes :=
  if ctx.version ≠ 0 ∧ ctx.version < cls.minProtocol then
    .error (.unsupportedVersion cls.op)
  else do
    let op ← writeUInt64 cls.op
    let body ← writeFields ctx cls.fields req
    pure (op ++ body)

/-- A field with neither a gate nor a default. -/
def plain (name : String) (ann : Ann) : FieldMeta × Ann := ({ name := name }, ann)

def withDefault (name : String) (dflt : Value) (ann : Ann) : FieldMeta × Ann :=
  ({ name := name, dflt := some dflt }, ann)

theorem always_plain (name : String) (ann : Ann) : (plain name ann).1.Always := by
  refine ⟨rfl, rfl, fun ctx => ?_⟩
  simp [plain, FieldMeta.kept]

theorem fieldBytes_plain_eq_ok {ctx : WireCtx} {obj : Value} {name : String} {ann : Ann}
    {bs : Bytes} : fieldBytes ctx obj (plain name ann) = .ok bs ↔
      ∃ v, obj.getattr name = .ok v ∧ writeAnn ctx ann v = .ok bs := by
  simp [fieldBytes, plain, except_bind_eq_ok]

/-- One plain field of a record, seen from the record: its attribute is there, and
giving it another value replaces its bytes and no others. -/
theorem writeFields_plain_around {ctx : WireCtx} {l r : List (FieldMeta × Ann)} {name : String}
    {ann : Ann} {obj : Value} {bs : Bytes}
    (hname : ∀ g ∈ l ++ r, g.1.name ≠ name ∧ g.1.wireDependsOn = none)
    (h : writeFields ctx (l ++ plain name ann :: r) obj = .ok bs) :
    ∃ v b pre post, obj.getattr name = .ok v ∧ writeAnn ctx ann v = .ok b ∧
      bs = pre ++ (b ++ post) ∧ ∀ v' b', writeAnn ctx ann v' = .ok b' →
        writeFields ctx (l ++ plain name ann :: r) (obj.modelCopy [(name, v')]) =
          .ok (pre ++ (b' ++ post)) := by
  obtain ⟨pre, b, post, hpre, hb, hpost, rfl⟩ :=
    (writeFields_around ctx (always_plain name ann)).1 h
  obtain ⟨v, hv, hvb⟩ := fieldBytes_plain_eq_ok.1 hb
  refine ⟨v, b, pre, post, hv, hvb, rfl, fun v' b' hb' => ?_⟩
  exact writeFields_modelCopy ctx (always_plain name ann) hname hv hpre hpost (by simpa [plain])

section Requests

variable (storeDir : String)

def pathAnn : Ann := .atom (.scalar (storePath storeDir))

def pathSetAnn : Ann := .set (.scalar (storePath storeDir))

def unkeyedValidPathInfo : Ann := .model "UnkeyedValidPathInfo" [
  withDefault "deriver" .none (.optional (pathAnn storeDir)),
  plain "nar_hash" (.atom (.scalar narHash)),
  plain "references" (pathSetAnn storeDir),
  plain "registration_time" (.atom .wireUInt64),
  plain "nar_size" (.atom .int),
  plain "ultimate" (.atom .bool),
  plain "sigs" (.set (.scalar signature)),
  plain "ca" (.atom (.scalar contentAddress))]

/-- `ValidPathInfo`: the path, then the fields of the nested info. -/
def validPathInfo : Ann := .model "ValidPathInfo" [
  plain "path" (pathAnn storeDir),
  plain "info" (unkeyedValidPathInfo storeDir)]

def addToStoreRequest : RequestClass where
  op := 7
  name := "AddToStore"
  fields := [
    plain "path_name" (.atom .str),
    plain "cam" (.atom (.scalar contentAddress)),
    plain "references" (pathSetAnn storeDir),
    plain "repair" (.atom .int)]

def addToStoreNarRequest : RequestClass where
  op := 39
  name := "AddToStoreNar"
  fields := [
    plain "info" (validPathInfo storeDir),
    plain "repair" (.atom .int),
    plain "dont_check_sigs" (.atom .int)]

def addMultipleToStoreRequest : RequestClass where
  op := 44
  name := "AddMultipleToStore"
  minProtocol := proto 1 32
  fields := [plain "repair" (.atom .int), plain "dont_check_sigs" (.atom .int)]

def addBuildLogRequest : RequestClass where
  op := 45
  name := "AddBuildLog"
  minProtocol := proto 1 32
  fields := [plain "path" (pathAnn storeDir)]

def addTempRootRequest : RequestClass where
  op := 11
  name := "AddTempRoot"
  fields := [plain "path" (pathAnn storeDir)]

def isValidPathRequest : RequestClass where
  op := 1
  name := "IsValidPath"
  fields := [plain "path" (pathAnn storeDir)]

def narFromPathRequest : RequestClass where
  op := 38
  name := "NarFromPath"
  fields := [plain "path" (pathAnn storeDir)]

def addTempRootsRequest : RequestClass where
  op := 49
  name := "AddTempRoots"
  minProtocol := proto 1 38
  fields := [plain "paths" (pathSetAnn storeDir)]

/-- `CollectGarbageRequest`, whose action is a `GCAction`. -/
def collectGarbageRequest : RequestClass where
  op := 20
  name := "CollectGarbage"
  fields := [
    plain "action" (.atom (.intEnum [0, 1, 2, 3])),
    withDefault "paths_to_delete" (.set []) (pathSetAnn storeDir),
    plain "ignore_liveness" (.atom .int),
    plain "max_freed" (.atom .int),
    plain "obsolete1" (.atom .int),
    plain "obsolete2" (.atom .int),
    plain "obsolete3" (.atom .int)]

def signPathInfoRequest : RequestClass where
  op := 107
  name := "SignPathInfo"
  fields := [plain "info" (validPathInfo storeDir)]

/-- `BasicDerivation`.  `is_dynamic` never travels. -/
def basicDerivation : Ann := .model "BasicDerivation" [
  withDefault "outputs" (.dict []) (.dict .str (.model "DerivationOutput" [
    plain "path" (.atom .str),
    withDefault "method" (.atom (.str "")) (.atom .str),
    withDefault "hash_digest" (.atom (.str "")) (.atom .str)])),
  withDefault "input_srcs" (.set []) (pathSetAnn storeDir),
  plain "platform" (.atom .str),
  plain "builder" (.atom .str),
  withDefault "args" (.list []) (.list (.atom .str)),
  withDefault "env" (.dict []) (.dict .str (.atom .str)),
  ({ name := "is_dynamic", serialize := false, deserialize := false,
     dflt := some (.atom (.bool false)) }, .atom .bool)]

def buildDerivationRequest : RequestClass where
  op := 36
  name := "BuildDerivation"
  fields := [
    plain "drv_path" (pathAnn storeDir),
    plain "derivation" (basicDerivation storeDir),
    plain "build_mode" (.atom .int)]

end Requests

/-- `AddIndirectRootRequest`: a file system path, not a store path. -/
def addIndirectRootRequest : RequestClass where
  op := 12
  name := "AddIndirectRoot"
  fields := [plain "path" (.atom .str)]

def findRootsRequest : RequestClass where
  op := 14
  name := "FindRoots"
  fields := []

/-- The members of `Verbosity`. -/
def verbosityAnn : Ann := .atom (.intEnum [0, 1, 2, 3, 4, 5, 6, 7])

def setOptionsRequest : RequestClass where
  op := 19
  name := "SetOptions"
  fields := [
    plain "keep_failed" (.atom .int),
    plain "keep_going" (.atom .int),
    plain "try_fallback" (.atom .int),
    plain "verbosity" verbosityAnn,
    plain "max_build_jobs" (.atom .int),
    plain "max_silent_time" (.atom .wireUInt64),
    plain "obsolete_use_build_hook" (.atom .int),
    plain "build_verbosity" verbosityAnn,
    plain "obsolete_log_type" (.atom .int),
    plain "obsolete_print_build_trace" (.atom .int),
    plain "build_cores" (.atom .int),
    plain "use_substitutes" (.atom .int),
    ({ name := "overrides", minVersion := some (proto 1 12), dflt := some (.dict []) },
      .dict .str (.atom .str))]

def optimiseStoreRequest : RequestClass where
  op := 34
  name := "OptimiseStore"
  fields := []

def verifyStoreRequest : RequestClass where
  op := 35
  name := "VerifyStore"
  fields := [plain "check_contents" (.atom .int), plain "repair" (.atom .int)]

def addPermRootRequest : RequestClass where
  op := 47
  name := "AddPermRoot"
  minProtocol := proto 1 36
  fields := [plain "store_path" (.atom .str), plain "gc_root" (.atom .str)]

/-- `PynixdCollectGarbageRequest`, whose action is a `PynixdGCAction`. -/
def pynixdCollectGarbageRequest : RequestClass where
  op := 101
  name := "PynixdCollectGarbage"
  fields := [
    plain "action" (.atom (.intEnum [0, 1])),
    withDefault "has_limit" (.atom (.bool false)) (.atom .bool),
    withDefault "limit" (.atom (.int 0)) (.atom .int)]

def pynixdRootsReportRequest : RequestClass where
  op := 110
  name := "PynixdRootsReport"
  fields := []

def pynixdStateRequest : RequestClass where
  op := 111
  name := "PynixdState"
  fields := [
    withDefault "version" (.atom (.int 1)) (.atom .int),
    withDefault "wants" (.list []) (.list (.atom .str)),
    withDefault "federated" (.atom (.bool false)) (.atom .bool)]

/-- `framedRequests`: the operations whose request is a header and then a framed
source. -/
def framedRequests : List Nat := [7, 39, 44, 45, 1001]

end Pynixd
