import Mathlib.Data.Finset.Basic
import Pynixd.Lib.Alignment
import Pynixd.Protocol.Requests

/-!
# The comparison of two recordings

`wirelog/diff.py` compares the session of a client with `nix-daemon` and the session of the same
client with pynixd.  It lays the two lists of operations against each other, compares the
operations that stand together, and passes over what its table of exemptions names.  The
alignment is `difflib.SequenceMatcher`: any blocks that follow one another to the ends of both
lists.

* `compare_eq_nil_iff` — what is the same when no difference is reported, for every alignment;
* `operationsAgree_iff` — two operations agree when all that is compared agrees **and** the
  texts of their errors do, which no comparison reads;
* `compare_sound_iff` — no difference means that the sessions agree exactly when that is the
  case for all operations that pass.
-/

namespace Pynixd.Wirelog

open List
open Alignment (Block Related)

/-! ## What a recording decodes to -/

structure Handshake where
  serverVersion : Nat
  clientVersion : Nat
  negotiated : Nat
  clientFeatures : Finset String
  serverFeatures : Finset String
  nixVersion : Option String
  trusted : Option Nat
  deriving DecidableEq

/-- What a comparison shows for a field that is not there. -/
def absent : String := "(absent)"

/-- The `repr` of a leaf of a model.  No value of a model has the `repr` that stands for a field
that is not there. -/
structure Leaf where
  text : String
  present : text ≠ absent

/-- A model as named fields, each leaf under its dotted name. -/
abbrev Fields := Dict.Table String Leaf

/-- A text that was read with `surrogateescape`: one for one the bytes on the wire. -/
abbrev EscapedText := Bytes

/-- `Operation`: one request, and everything the daemon said before the next one. -/
structure Operation where
  index : Nat
  op : Nat
  name : String
  requestBody : Bytes
  responsePayload : Bytes
  logs : List EscapedText
  error : Option EscapedText
  requestFields : Option Fields
  responseFields : Option Fields

/-- `Session`: one connection of a recording, as operations. -/
structure Session where
  source : String
  handshake : Option Handshake
  operations : List Operation
  problem : Option String

/-! ## Exemptions -/

def exemptions : List String :=
  ["handshake.nix_version", "handshake.server_version", "handshake.server_features",
    "response.*.registration_time", "handshake.trusted", "request.AddIndirectRoot.path",
    "request.AddTempRoot.path", "logs.pynixd_note", "logs.stale_temp_root"]

def requestPrefix : String := "request."
def responsePrefix : String := "response.*."

/-- The fields that start with `front`, without it. -/
def exemptBehind (front : String) : List String :=
  (exemptions.filter fun field => front.toList.isPrefixOf field.toList).map fun field =>
    String.ofList (field.toList.drop front.length)

def exemptRequestFields : List String := exemptBehind requestPrefix
def exemptResponseLeaves : List String := exemptBehind responsePrefix

/-- `name.rsplit(".", 1)[-1]`: what comes behind the last dot. -/
def leafName (name : String) : String :=
  String.ofList (name.toList.reverse.takeWhile (· ≠ '.')).reverse

def isExemptLeaf (name : String) : Bool := exemptResponseLeaves.contains (leafName name)

def pynixdNote : String := "pynixd: "
def staleTempRoot : String := "removing stale temporary roots file"

def readableLogs (logs : List EscapedText) : List EscapedText :=
  logs.filter fun line =>
    !(encodeUtf8 pynixdNote).isPrefixOf line && !decide (encodeUtf8 staleTempRoot <:+: line)

/-! ## Differences -/

/-- The Python values that a difference shows. -/
inductive PyValue where
  | none
  | int (n : Nat)
  | str (s : EscapedText)
  | bytes (b : Bytes)
  | tuple (items : List EscapedText)
  | list (items : List EscapedText)
  | frozenset (items : Finset String)
  deriving DecidableEq

structure Difference where
  place : String
  control : String
  candidate : String
  note : String := ""

def PyValue.ofText : Option EscapedText → PyValue
  | .none => .none
  | some text => .str text

/-- `str` of a truth value. -/
def showBool : Bool → String
  | true => "True"
  | false => "False"

section Comparison

-- `repr`
variable (repr : PyValue → String)

def before : Nat := 16
def after : Nat := 48

def firstDifference : (control candidate : Bytes) → Nat
  | a :: control, b :: candidate => if a ≠ b then 0 else firstDifference control candidate + 1
  | _, _ => 0

def window (value : Bytes) (place : Nat) : String :=
  let start := place - before
  let stop := min value.length (place + after)
  (if start ≠ 0 then "..." else "") ++ repr (.bytes ((value.drop start).take (stop - start))) ++
    (if stop < value.length then "..." else "")

def pairDifference (place : String) (control candidate : Bytes) : Difference :=
  let byte := firstDifference control candidate
  { place := place
    control := window repr control byte
    candidate := window repr candidate byte
    note := "they differ at byte " ++ toString byte ++ "; the daemon sent " ++
      toString control.length ++ " bytes and pynixd sent " ++ toString candidate.length }

/-! ## The handshake -/

/-- The attributes that `_compare_handshake` goes over. -/
def Handshake.attributes (h : Handshake) : List (String × PyValue) :=
  [("server_version", .int h.serverVersion), ("client_version", .int h.clientVersion),
    ("negotiated", .int h.negotiated), ("client_features", .frozenset h.clientFeatures),
    ("server_features", .frozenset h.serverFeatures),
    ("nix_version", .ofText (h.nixVersion.map encodeUtf8)),
    ("trusted", (h.trusted.map PyValue.int).getD .none)]

def compareAttribute (pair : (String × PyValue) × (String × PyValue)) : Option Difference :=
  let name := "handshake." ++ pair.1.1
  if name ∈ exemptions then none
  else if pair.1.2 ≠ pair.2.2 then
    some { place := name, control := repr pair.1.2, candidate := repr pair.2.2 }
  else none

def compareHandshake : (control candidate : Option Handshake) → List Difference
  | none, none => []
  | some one, some two => (one.attributes.zip two.attributes).filterMap (compareAttribute repr)
  | one, two =>
    [{ place := "handshake", control := showBool one.isSome, candidate := showBool two.isSome }]

/-! ## One operation -/

/-- `fields.get(name, "(absent)")`. -/
def shown (fields : Fields) (name : String) : String :=
  ((Dict.get? fields.1 name).map Leaf.text).getD absent

/-- `sorted(set(one) | set(two))`. -/
def fieldNames (one two : Fields) : List String :=
  ((one.1.map Prod.fst ++ two.1.map Prod.fst).dedup).insertionSort fun a b => a ≤ b

/-- The fields of two models, past those that are exempt. -/
def compareFields (place : String) (exempt : String → Bool) (one two : Fields) :
    List Difference :=
  (fieldNames one two).filterMap fun name =>
    if exempt name then none
    else if shown one name ≠ shown two name then
      some { place := place ++ "." ++ name, control := shown one name,
             candidate := shown two name }
    else none

/-- A part of two operations: by the fields where both models cover it, and by the bytes
otherwise. -/
def comparePart (place : String) (exempt : String → Bool) (control candidate : Bytes)
    (one two : Option Fields) : List Difference :=
  match one, two with
  | some one, some two => compareFields place exempt one two
  | _, _ => [pairDifference repr place control candidate]

/-- A field of a request of this name that the table covers. -/
def isExemptRequestField (operation name : String) : Bool :=
  exemptRequestFields.contains (operation ++ "." ++ name)

def compareRequest (place : String) (control candidate : Operation) : List Difference :=
  comparePart repr (place ++ " request") (isExemptRequestField control.name) control.requestBody
    candidate.requestBody control.requestFields candidate.requestFields

def compareResponse (place : String) (control candidate : Operation) : List Difference :=
  comparePart repr (place ++ " response") isExemptLeaf control.responsePayload
    candidate.responsePayload control.responseFields candidate.responseFields

def compareLogs (place : String) (control candidate : Operation) : List Difference :=
  let one := readableLogs control.logs
  let two := readableLogs candidate.logs
  if one = two then []
  else
    let onlyControl := one.filter (· ∉ two)
    let onlyCandidate := two.filter (· ∉ one)
    if onlyControl.isEmpty && onlyCandidate.isEmpty then
      [{ place := place ++ " logs (a different order)", control := repr (.tuple one),
         candidate := repr (.tuple two) }]
    else
      [{ place := place ++ " logs", control := repr (.list onlyControl),
         candidate := repr (.list onlyCandidate) }]

/-- The two errors: whether there is one, and nothing of what it says. -/
def compareError (place : String) (control candidate : Operation) : List Difference :=
  if control.error.isNone ≠ candidate.error.isNone then
    [{ place := place ++ " error", control := repr (.ofText control.error),
       candidate := repr (.ofText candidate.error) }]
  else []

def Operation.title (o : Operation) : String := o.name ++ " (" ++ toString o.op ++ ")"

def compareOperation (control candidate : Operation) : List Difference :=
  let place := "operation " ++ toString control.index ++ " " ++ control.name
  if control.op ≠ candidate.op then
    [{ place := "operation " ++ toString control.index, control := control.title,
       candidate := candidate.title }]
  else
    (if control.requestBody ≠ candidate.requestBody then
      compareRequest repr place control candidate else []) ++
    (if control.responsePayload ≠ candidate.responsePayload then
      compareResponse repr place control candidate else []) ++
    compareError repr place control candidate ++ compareLogs repr place control candidate

/-! ## Two sessions -/

def alignmentKey (o : Operation) : Nat × Bytes := (o.op, o.requestBody)

/-- `difflib.SequenceMatcher(...).get_opcodes()`: blocks that follow one another from the start
of both lists to their ends. -/
structure SequenceMatcher where
  getOpcodes : List (Nat × Bytes) → List (Nat × Bytes) → List Block
  tiles : ∀ a b, Alignment.Tiles a.length b.length 0 0 (getOpcodes a b)

def SequenceMatcher.blocks (matcher : SequenceMatcher) (control candidate : List Operation) :
    List Block :=
  matcher.getOpcodes (control.map alignmentKey) (candidate.map alignmentKey)

def pairs (matcher : SequenceMatcher) (control candidate : List Operation) :
    List (Option Operation × Option Operation) :=
  Alignment.pairs control candidate (matcher.blocks control candidate)

inductive Side where
  | daemon
  | pynixd
  deriving DecidableEq

def Side.name : Side → String
  | daemon => "daemon"
  | pynixd => "pynixd"

/-- `_one_sided`, for the first operation of a run and the others. -/
def oneSided (first : Operation × Side) (more : List (Operation × Side)) : Difference :=
  let names := repr (.list ((first :: more).map fun item => encodeUtf8 item.1.name))
  let last := ((first :: more).getLast (cons_ne_nil _ _)).1
  let place :=
    if more.isEmpty then "operation " ++ toString first.1.index
    else "operations " ++ toString first.1.index ++ " to " ++ toString last.index
  { place := place ++ ": the client sent these to the " ++ first.2.name ++ " alone"
    control := if first.2 = .daemon then names else "[]"
    candidate := if first.2 = .daemon then "[]" else names }

/-- The difference of a run, if there is one. -/
def closeRun : List (Operation × Side) → List Difference
  | [] => []
  | first :: more => [oneSided repr first more]

/-- An operation that one side alone sent. -/
def alone : Option Operation × Option Operation → Option (Operation × Side)
  | (some one, none) => some (one, .daemon)
  | (none, some two) => some (two, .pynixd)
  | _ => none

/-- The operations of a pair, if both are there. -/
def compareBoth : Option Operation × Option Operation → List Difference
  | (some one, some two) => compareOperation repr one two
  | _ => []

/-- The loop of `compare` over the pairs, with the run of one side that is open. -/
def comparePairs : List (Option Operation × Option Operation) → List (Operation × Side) →
    List Difference
  | [], run => closeRun repr run
  | pair :: rest, run =>
    match alone pair with
    | some item =>
      if run.head?.any (·.2 ≠ item.2) then closeRun repr run ++ comparePairs rest [item]
      else comparePairs rest (run ++ [item])
    | none => closeRun repr run ++ compareBoth repr pair ++ comparePairs rest []

def compareProblem (session : Session) (side : Side) : List Difference :=
  match session.problem with
  | some problem =>
    [{ place := side.name ++ " recording did not decode", control := session.source,
       candidate := problem }]
  | none => []

def compare (matcher : SequenceMatcher) (control candidate : Session) : List Difference :=
  compareProblem control .daemon ++ compareProblem candidate .pynixd ++
    compareHandshake repr control.handshake candidate.handshake ++
    comparePairs repr (pairs matcher control.operations candidate.operations) []

end Comparison

/-! ## What it is to agree -/

def Exempt (field : String) : Prop := field ∈ exemptions

/-- Two models hold the same in every field that is not exempt. -/
def FieldsAgree (exempt : String → Prop) (one two : Fields) : Prop :=
  ∀ name, ¬ exempt name → Dict.get? one.1 name = Dict.get? two.1 name

/-- A part of two operations agrees: in its fields where both models cover it, and otherwise in
its bytes. -/
def PartAgrees (exempt : String → Prop) (control candidate : Bytes) (one two : Option Fields) :
    Prop :=
  match one, two with
  | some one, some two => FieldsAgree exempt one two
  | _, _ => control = candidate

/-- The field of a request, under the name that the table gives it. -/
def exemptInRequest (operation name : String) : Prop :=
  Exempt (requestPrefix ++ (operation ++ "." ++ name))

/-- The field of a response, under the name that the table gives it. -/
def exemptInResponse (name : String) : Prop := Exempt (responsePrefix ++ leafName name)

/-- Two operations agree, apart from what the table names. -/
structure OperationsAgree (one two : Operation) : Prop where
  op : one.op = two.op
  request : PartAgrees (exemptInRequest one.name) one.requestBody two.requestBody
    one.requestFields two.requestFields
  response : PartAgrees exemptInResponse one.responsePayload two.responsePayload
    one.responseFields two.responseFields
  logs : readableLogs one.logs = readableLogs two.logs
  error : one.error = two.error

/-- **Two sessions agree**: they have the same operations in order, and each of them agrees. -/
def SessionsAgree (control candidate : Session) : Prop :=
  List.Forall₂ OperationsAgree control.operations candidate.operations

/-- What a comparison reads of a part: the bytes, or else the fields. -/
def PartPasses (exempt : String → Prop) (control candidate : Bytes) (one two : Option Fields) :
    Prop :=
  control = candidate ∨ ∃ f g, one = some f ∧ two = some g ∧ FieldsAgree exempt f g

/-- Both recordings read the same bytes as the same fields. -/
def ReadAlike (exempt : String → Prop) (control candidate : Bytes) (one two : Option Fields) :
    Prop :=
  control = candidate → ∀ f g, one = some f → two = some g → FieldsAgree exempt f g

/-- Two operations pass the comparison. -/
structure OperationsPass (one two : Operation) : Prop where
  op : one.op = two.op
  request : PartPasses (exemptInRequest one.name) one.requestBody two.requestBody
    one.requestFields two.requestFields
  response : PartPasses exemptInResponse one.responsePayload two.responsePayload
    one.responseFields two.responseFields
  logs : readableLogs one.logs = readableLogs two.logs
  error : one.error.isNone = two.error.isNone

/-- What no comparison reads agrees: the texts of the errors, and the fields of equal bytes. -/
structure UnreadAgrees (one two : Operation) : Prop where
  error : ∀ text text', one.error = some text → two.error = some text' → text = text'
  request : ReadAlike (exemptInRequest one.name) one.requestBody two.requestBody
    one.requestFields two.requestFields
  response : ReadAlike exemptInResponse one.responsePayload two.responsePayload
    one.responseFields two.responseFields

/-- Two handshakes agree in every attribute that is not exempt. -/
def HandshakesPass (control candidate : Option Handshake) : Prop :=
  match control, candidate with
  | some one, some two => ∀ pair ∈ one.attributes.zip two.attributes,
      ¬ Exempt ("handshake." ++ pair.1.1) → pair.1.2 = pair.2.2
  | none, none => True
  | _, _ => False

/-- Two sessions pass the comparison under an alignment. -/
structure SessionsPass (matcher : SequenceMatcher) (control candidate : Session) : Prop where
  controlDecoded : control.problem = none
  candidateDecoded : candidate.problem = none
  handshake : HandshakesPass control.handshake candidate.handshake
  aligned : ∀ b ∈ matcher.blocks control.operations candidate.operations, b.Square
  operations : List.Forall₂ OperationsPass control.operations candidate.operations

/-! ## The table -/

theorem mem_exemptBehind {front name : String} :
    name ∈ exemptBehind front ↔ Exempt (front ++ name) := by
  simp only [exemptBehind, Exempt, mem_map, mem_filter]
  constructor
  · rintro ⟨field, ⟨hfield, hfront⟩, rfl⟩
    obtain ⟨rest, hrest⟩ := isPrefixOf_iff_prefix.1 hfront
    have hname : field.toList.drop front.length = rest := by
      rw [← hrest, ← String.length_toList, drop_left]
    have heq : front ++ String.ofList rest = field := by
      apply String.toList_inj.1
      rw [String.toList_append, String.toList_ofList, hrest]
    rwa [hname, heq]
  · intro hfield
    refine ⟨front ++ name, ⟨hfield, ?_⟩, ?_⟩
    · rw [String.toList_append]
      exact isPrefixOf_iff_prefix.2 (prefix_append _ _)
    · rw [String.toList_append, ← String.length_toList, drop_left, String.ofList_toList]

theorem isExemptRequestField_iff {operation name : String} :
    isExemptRequestField operation name = true ↔ exemptInRequest operation name := by
  rw [isExemptRequestField, contains_iff_mem, exemptRequestFields, mem_exemptBehind,
    exemptInRequest]

variable {one two : Fields} {name : String}

theorem isExemptLeaf_iff : isExemptLeaf name = true ↔ exemptInResponse name := by
  rw [isExemptLeaf, contains_iff_mem, exemptResponseLeaves, mem_exemptBehind,
    exemptInResponse]

/-! ## One operation -/

theorem shown_inj :
    shown one name = shown two name ↔ Dict.get? one.1 name = Dict.get? two.1 name := by
  constructor
  · intro h
    simp only [shown] at h
    cases hone : Dict.get? one.1 name with
    | none =>
      cases htwo : Dict.get? two.1 name with
      | none => rfl
      | some leaf =>
        rw [hone, htwo] at h
        exact absurd h.symm leaf.present
    | some leaf =>
      cases htwo : Dict.get? two.1 name with
      | none =>
        rw [hone, htwo] at h
        exact absurd h leaf.present
      | some leaf' =>
        rw [hone, htwo] at h
        obtain ⟨text, hpresent⟩ := leaf
        obtain ⟨text', hpresent'⟩ := leaf'
        obtain rfl : text = text' := h
        rfl
  · intro h
    rw [shown, h, shown]

theorem mem_fieldNames :
    name ∈ fieldNames one two ↔
      (Dict.get? one.1 name).isSome = true ∨ (Dict.get? two.1 name).isSome = true := by
  rw [fieldNames, mem_insertionSort, mem_dedup, mem_append,
    Dict.get?_isSome_iff, Dict.get?_isSome_iff]

theorem compareFields_eq_nil_iff {place : String} {exempt : String → Bool}
    {exempt' : String → Prop} (hexempt : ∀ name, exempt name = true ↔ exempt' name) :
    compareFields place exempt one two = [] ↔ FieldsAgree exempt' one two := by
  rw [compareFields, filterMap_eq_nil_iff]
  constructor
  · intro h name hname
    by_cases hmem : name ∈ fieldNames one two
    · have hnone := h name hmem
      have hnot : ¬ exempt name = true := fun he => hname ((hexempt name).1 he)
      rw [if_neg hnot] at hnone
      by_contra hne
      rw [if_pos fun heq => hne (shown_inj.1 heq)] at hnone
      cases hnone
    · rw [mem_fieldNames, not_or, Option.not_isSome_iff_eq_none, Option.not_isSome_iff_eq_none]
        at hmem
      rw [hmem.1, hmem.2]
  · intro h name _
    by_cases he : exempt name = true
    · rw [if_pos he]
    · have hname : ¬ exempt' name := fun he' => he ((hexempt name).2 he')
      rw [if_neg he, if_neg (not_not.2 (shown_inj.2 (h name hname)))]

section Results

variable {repr : PyValue → String}

variable {one two : Operation} {place : String}

theorem comparePart_eq_nil_iff {exempt : String → Bool}
    {exempt' : String → Prop} (hexempt : ∀ name, exempt name = true ↔ exempt' name)
    {control candidate : Bytes} {one two : Option Fields} :
    (if control ≠ candidate then comparePart repr place exempt control candidate one two
      else []) = [] ↔ PartPasses exempt' control candidate one two := by
  by_cases hbytes : control = candidate
  · simp [hbytes, PartPasses]
  · rw [if_pos hbytes, PartPasses, or_iff_right hbytes]
    cases one with
    | none => simp [comparePart]
    | some f =>
      cases two with
      | none => simp [comparePart]
      | some g =>
        simp only [comparePart, compareFields_eq_nil_iff hexempt, Option.some.injEq]
        exact ⟨fun h => ⟨f, g, rfl, rfl, h⟩, by rintro ⟨f, g, rfl, rfl, h⟩; exact h⟩

theorem compareLogs_eq_nil_iff :
    compareLogs repr place one two = [] ↔ readableLogs one.logs = readableLogs two.logs := by
  simp only [compareLogs]
  by_cases h : readableLogs one.logs = readableLogs two.logs
  · simp [h]
  · refine iff_of_false ?_ h
    split_ifs <;> simp

theorem compareError_eq_nil_iff :
    compareError repr place one two = [] ↔ one.error.isNone = two.error.isNone := by
  by_cases h : one.error.isNone = two.error.isNone
  · simp [compareError, h]
  · simp [compareError, h]

/-- **One pair of operations**: the comparison finds nothing exactly when they pass. -/
theorem compareOperation_eq_nil_iff :
    compareOperation repr one two = [] ↔ OperationsPass one two := by
  have hexempt : ∀ name, isExemptRequestField one.name name = true ↔
      exemptInRequest one.name name := fun name => isExemptRequestField_iff
  have hleaf : ∀ name, isExemptLeaf name = true ↔ exemptInResponse name :=
    fun name => isExemptLeaf_iff
  simp only [compareOperation, compareRequest, compareResponse]
  by_cases hop : one.op = two.op
  · rw [if_neg (not_not.2 hop), append_eq_nil_iff, append_eq_nil_iff,
      append_eq_nil_iff, comparePart_eq_nil_iff hexempt, comparePart_eq_nil_iff hleaf,
      compareError_eq_nil_iff, compareLogs_eq_nil_iff]
    constructor
    · rintro ⟨⟨⟨hrequest, hresponse⟩, herror⟩, hlogs⟩
      exact ⟨hop, hrequest, hresponse, hlogs, herror⟩
    · intro h
      exact ⟨⟨⟨h.request, h.response⟩, h.error⟩, h.logs⟩
  · rw [if_pos hop]
    exact iff_of_false (cons_ne_nil _ _) fun h => hop h.op

/-! ## Two sessions -/

theorem closeRun_eq_nil_iff {run : List (Operation × Side)} :
    closeRun repr run = [] ↔ run = [] := by
  cases run with
  | nil => simp [closeRun]
  | cons first more => simp [closeRun]

theorem related_iff (repr : PyValue → String) {pair : Option Operation × Option Operation}
    (h : pair.1.isSome = true ∨ pair.2.isSome = true) :
    Related OperationsPass pair ↔ alone pair = none ∧ compareBoth repr pair = [] := by
  obtain ⟨one | one, two | two⟩ := pair
  · simp at h
  · simp [Related, alone]
  · simp [Related, alone]
  · simp [alone, compareBoth, compareOperation_eq_nil_iff]

/-- **The walk over the pairs**, from any open run: a run is reported when it closes, so nothing
is found exactly when none is open, nothing is alone and every pair passes. -/
theorem comparePairs_eq_nil_iff {rows : List (Option Operation × Option Operation)}
    (hrows : ∀ pair ∈ rows, pair.1.isSome = true ∨ pair.2.isSome = true)
    (run : List (Operation × Side)) :
    comparePairs repr rows run = [] ↔ run = [] ∧ ∀ pair ∈ rows, Related OperationsPass pair := by
  induction rows generalizing run with
  | nil => simp [comparePairs, closeRun_eq_nil_iff]
  | cons pair rows ih =>
    have ih := ih fun p hp => hrows p (mem_cons_of_mem _ hp)
    rw [forall_mem_cons, related_iff repr (hrows pair mem_cons_self),
      comparePairs]
    cases halone : alone pair with
    | some item =>
      -- an open run stays open, and one that is closed here is reported
      have hopen : ∀ more, comparePairs repr rows (more ++ [item]) ≠ [] := by
        intro more hnil
        exact absurd ((ih _).1 hnil).1 (by simp)
      refine iff_of_false ?_ (by simp)
      dsimp only
      split_ifs with hside
      · intro hnil
        exact hopen [] (append_eq_nil_iff.1 hnil).2
      · exact hopen run
    | none =>
      simp only [append_eq_nil_iff, closeRun_eq_nil_iff, ih, true_and, and_assoc]

theorem compareProblem_eq_nil_iff {session : Session} {side : Side} :
    compareProblem session side = [] ↔ session.problem = none := by
  rw [compareProblem]
  cases session.problem with
  | none => simp
  | some problem => simp

theorem compareHandshake_eq_nil_iff {control candidate : Option Handshake} :
    compareHandshake repr control candidate = [] ↔ HandshakesPass control candidate := by
  cases control with
  | none =>
    cases candidate with
    | none => simp [compareHandshake, HandshakesPass]
    | some two => simp [compareHandshake, HandshakesPass]
  | some one =>
    cases candidate with
    | none => simp [compareHandshake, HandshakesPass]
    | some two =>
      simp only [compareHandshake, HandshakesPass, filterMap_eq_nil_iff]
      refine forall₂_congr fun pair _ => ?_
      rw [compareAttribute, Exempt]
      split_ifs with hexempt hne
      · simp [hexempt]
      · simp [hexempt, hne]
      · simp [hexempt, not_not.1 hne]

/-- **No difference is reported exactly when the sessions pass**, whatever the alignment. -/
theorem compare_eq_nil_iff {matcher : SequenceMatcher} {control candidate : Session} :
    compare repr matcher control candidate = [] ↔ SessionsPass matcher control candidate := by
  have htiles : Alignment.Tiles control.operations.length candidate.operations.length 0 0
      (matcher.blocks control.operations candidate.operations) := by
    have := matcher.tiles (control.operations.map alignmentKey)
      (candidate.operations.map alignmentKey)
    rwa [length_map, length_map] at this
  rw [compare, pairs, append_eq_nil_iff, append_eq_nil_iff, append_eq_nil_iff,
    compareProblem_eq_nil_iff, compareProblem_eq_nil_iff, compareHandshake_eq_nil_iff,
    comparePairs_eq_nil_iff fun pair hp => Alignment.isSome_of_mem_pairs hp,
    Alignment.forall_pairs_iff htiles]
  constructor
  · rintro ⟨⟨⟨hcontrol, hcandidate⟩, hshake⟩, -, haligned, hoperations⟩
    exact ⟨hcontrol, hcandidate, hshake, haligned, hoperations⟩
  · intro h
    exact ⟨⟨⟨h.controlDecoded, h.candidateDecoded⟩, h.handshake⟩, rfl, h.aligned, h.operations⟩

end Results

/-! ## What no comparison reads -/

theorem partAgrees_iff {exempt : String → Prop} {control candidate : Bytes}
    {one two : Option Fields} : PartAgrees exempt control candidate one two ↔
      PartPasses exempt control candidate one two ∧ ReadAlike exempt control candidate one two := by
  cases one with
  | none => simp [PartAgrees, PartPasses, ReadAlike]
  | some f =>
    cases two with
    | none => simp [PartAgrees, PartPasses, ReadAlike]
    | some g =>
      simp only [PartAgrees, PartPasses, ReadAlike, Option.some.injEq]
      constructor
      · intro h
        refine ⟨.inr ⟨f, g, rfl, rfl, h⟩, ?_⟩
        rintro - f g rfl rfl
        exact h
      · rintro ⟨hbytes | ⟨f, g, rfl, rfl, h⟩, halike⟩
        · exact halike hbytes f g rfl rfl
        · exact h

theorem errors_eq_iff {one two : Option EscapedText} : one = two ↔
    one.isNone = two.isNone ∧ ∀ text text', one = some text → two = some text' → text = text' := by
  cases one with
  | none =>
    cases two with
    | none => simp
    | some text => simp
  | some text =>
    cases two with
    | none => simp
    | some text' => simp

/-- **Two operations agree** when they pass the comparison and what it does not read agrees. -/
theorem operationsAgree_iff {one two : Operation} :
    OperationsAgree one two ↔ OperationsPass one two ∧ UnreadAgrees one two := by
  constructor
  · intro h
    have hrequest := partAgrees_iff.1 h.request
    have hresponse := partAgrees_iff.1 h.response
    have herror := errors_eq_iff.1 h.error
    exact ⟨⟨h.op, hrequest.1, hresponse.1, h.logs, herror.1⟩, herror.2, hrequest.2, hresponse.2⟩
  · rintro ⟨hpass, hunread⟩
    exact ⟨hpass.op, partAgrees_iff.2 ⟨hpass.request, hunread.request⟩,
      partAgrees_iff.2 ⟨hpass.response, hunread.response⟩, hpass.logs,
      errors_eq_iff.2 ⟨hpass.error, hunread.error⟩⟩

/-- **When no difference means agreement**: exactly when sessions that pass every comparison
also agree in what none of them reads, which is the texts of the errors.  (Equal bytes can have
different fields only in recordings of two stores, one inside the other.) -/
theorem compare_sound_iff (repr : PyValue → String) (matcher : SequenceMatcher)
    (control candidate : Session) :
    (compare repr matcher control candidate = [] → SessionsAgree control candidate) ↔
      (SessionsPass matcher control candidate →
        List.Forall₂ UnreadAgrees control.operations candidate.operations) := by
  have hagree : OperationsAgree = fun one two => OperationsPass one two ∧ UnreadAgrees one two := by
    funext one two
    exact propext operationsAgree_iff
  rw [compare_eq_nil_iff, SessionsAgree, hagree, Alignment.forall₂_and_iff]
  exact ⟨fun h hpass => (h hpass).2, fun h hpass => ⟨hpass.operations, h hpass⟩⟩

/-- One block, with all of both lists. -/
def oneBlock : SequenceMatcher where
  getOpcodes a b := [⟨0, a.length, 0, b.length⟩]
  tiles _ _ := ⟨rfl, rfl, Nat.zero_le _, Nat.zero_le _, rfl, rfl⟩

/-- A client asks the daemon to optimise its store, and the daemon answers with an error. -/
def failedOptimise (text : EscapedText) : Session where
  source := "recording"
  handshake := some ⟨proto 1 38, proto 1 38, proto 1 38, ∅, ∅, some "2.31.2", some 1⟩
  operations :=
    [{ index := 0, op := 34, name := "OptimiseStore", requestBody := [], responsePayload := [],
       logs := [], error := some text, requestFields := some Dict.Table.empty,
       responseFields := none }]
  problem := none

/-- Two daemons fail the same request, one because its disk is full and one because the store is
locked, and the comparison reports nothing. -/
theorem compare_failedOptimise :
    compare (fun _ => "") oneBlock (failedOptimise (encodeUtf8 "disk full"))
        (failedOptimise (encodeUtf8 "store locked")) = [] ∧
      ¬ SessionsAgree (failedOptimise (encodeUtf8 "disk full"))
        (failedOptimise (encodeUtf8 "store locked")) := by
  constructor
  · rw [compare_eq_nil_iff]
    refine ⟨rfl, rfl, ?_, ?_, ?_⟩
    · intro pair hpair _
      -- both handshakes are the same one
      obtain ⟨i, hi, rfl⟩ := mem_iff_getElem.1 hpair
      rw [getElem_zip]
    · simp [SequenceMatcher.blocks, oneBlock, failedOptimise, Block.Square]
    · refine .cons ⟨rfl, .inl rfl, .inl rfl, rfl, rfl⟩ .nil
  · intro h
    cases h with
    | cons hop _ => exact absurd hop.error (by decide +kernel)

end Pynixd.Wirelog
