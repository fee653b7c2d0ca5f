import Pynixd.Wire.Values

/-!
# The compiled codec

`nix_daemon_protocol/experimental_compiled.py` lowers a wire model once for each protocol
version and feature set: `_wire_node` turns every annotation into a node, and
`_AstLowerer` turns every node into straight-line code.  `to_writer` and `from_reader` run
that code, so it has to do what the plan of `wire_message.py` does.

* `agrees_iff` — that code agrees with the interpreted codec, on every value and every stream,
  **except where text with `text_errors` may be absent**: the plan spells `None` as the
  empty string there, and the compiled code knows nothing of it.
-/

namespace Pynixd

open TokenStream

/-! ## Nodes -/

/-- `_Integer`, `_Enum`, `_Primitive` and `_Scalar`. -/
inductive Leaf where
  | integer
  | enum (members : List Nat)
  /-- A string, and whether its handler is `surrogateescape`. -/
  | string (escaped : Bool)
  | bool
  | bytes
  | scalar (cls : ScalarClass)

/-- `WireNode`.  A nested model is the codec that `compile_codec` makes of it: its class,
the defaults of all its fields, and the nodes of the fields that are kept. -/
inductive WireNode where
  | leaf (l : Leaf)
  | optionalScalar (cls : ScalarClass)
  | list (item : WireNode)
  | set (item : Leaf)
  | mapping (key : Leaf) (value : WireNode)
  | model (cls : String) (dflts : Attrs) (fields : List (FieldMeta × WireNode))
  | custom (codec : OwnCodec)

/-- `NotCompilableError` of `_wire_node`. -/
def notCompilable : String := "text_errors='surrogateescape' needs a `str` field"

/-- `_wire_node` of an annotation of hashable values, with the handler of its field. -/
def wireLeaf : Bool → AtomAnn → Except String Leaf
  | escaped, .str => .ok (.string escaped)
  | true, _ => .error notCompilable
  | false, .int => .ok .integer
  | false, .wireUInt64 => .ok .integer
  | false, .intEnum members => .ok (.enum members)
  | false, .bool => .ok .bool
  | false, .bytes => .ok .bytes
  | false, .scalar cls => .ok (.scalar cls)

mutual
/-- `_wire_node`, and `compile_codec` of the nested models it meets. -/
def wireNode (ctx : WireCtx) (escaped : Bool) : Ann → Except String WireNode
  | .atom a => .leaf <$> wireLeaf escaped a
  | .optional (.atom (.scalar cls)) =>
    if escaped then .error notCompilable else .ok (.optionalScalar cls)
  | .optional inner => wireNode ctx escaped inner
  | .list elem => .list <$> wireNode ctx escaped elem
  | .set elem => .set <$> wireLeaf escaped elem
  | .dict key value => do
    let k ← wireLeaf escaped key
    let v ← wireNode ctx escaped value
    pure (.mapping k v)
  | .model cls fields =>
    if escaped then .error notCompilable
    else .model cls (defaults fields) <$> wireSchema ctx fields
  | .custom codec => if escaped then .error notCompilable else .ok (.custom codec)

/-- `_wire_schema`: the fields that the version and the features keep. -/
def wireSchema (ctx : WireCtx) :
    List (FieldMeta × Ann) → Except String (List (FieldMeta × WireNode))
  | [] => .ok []
  | (m, ann) :: fields =>
    if m.kept ctx then do
      let node ← wireNode ctx m.lossless ann
      let rest ← wireSchema ctx fields
      pure ((m, node) :: rest)
    else wireSchema ctx fields
end

/-! ## What the generated code does -/

/-- `read_value` of a leaf. -/
def readLeaf : Leaf → WireReader Atom
  | .integer => (fun n => .int (n : Int)) <$> readUInt64
  | .enum members => refine readUInt64 fun n =>
    if n ∈ members then .ok (.int (n : Int)) else .error (.invalidEnum n)
  | .string false => .str <$> readString
  | .string true => .escaped <$> readBytes
  | .bool => .bool <$> readBool
  | .bytes => .bytes <$> readBytes
  | .scalar cls => .scalar <$> refine readString cls.fromWire

mutual
def readNode (ctx : WireCtx) : WireNode → WireReader Value
  | .leaf l => .atom <$> readLeaf l
  | .optionalScalar cls =>
    (fun held => if held = "" then Value.none else .atom (.scalar held)) <$>
      refine readString cls.fromWire
  | .list item => do
    let n ← readUInt64
    .list <$> replicate n (readNode ctx item)
  | .set item => do
    let n ← readUInt64
    (fun xs => .set xs.eraseDups) <$> replicate n (readLeaf item)
  | .mapping key value => do
    let n ← readUInt64
    let items ← replicate n do
      let k ← readLeaf key
      let v ← readNode ctx value
      pure (k, v)
    pure (.dict (Dict.update [] items))
  | .model cls dflts fields => .obj cls <$> readSchema ctx fields dflts
  | .custom codec => codec.fromReader ctx

/-- The body of the generated `read`, over the attributes set so far. -/
def readSchema (ctx : WireCtx) : List (FieldMeta × WireNode) → Attrs → WireReader Attrs
  | [], attrs => pure attrs
  | (m, node) :: fields, attrs =>
    if m.deserialize && m.wanted attrs then do
      let v ← readNode ctx node
      readSchema ctx fields (Dict.set attrs m.name v)
    else readSchema ctx fields attrs
end

/-- `write_value` of a leaf. -/
def writeLeaf : Leaf → Atom → Except WireError Bytes
  | .integer, .int n => writeUInt64 n
  | .enum _, .int n => writeUInt64 n
  | .string false, .str s => writeString s
  | .string true, .escaped raw => writeBytes raw
  | .bool, .bool b => .ok (writeBool b)
  | .bytes, .bytes b => writeBytes b
  | .scalar cls, .scalar held => writeString (cls.toWire held)
  | _, _ => .error .type

mutual
def writeNode (ctx : WireCtx) : WireNode → Value → Except WireError Bytes
  | .leaf l, .atom x => writeLeaf l x
  | .leaf (.string false), .none => writeString "None"
  -- `value.encode("utf-8", errors=...)`
  | .leaf (.string true), .none => .error (.attribute "encode")
  | .optionalScalar _, .none => writeString ""
  | .optionalScalar cls, .atom x => writeLeaf (.scalar cls) x
  | .list item, .list items => writeCounted (writeNode ctx item) items
  | .set item, .set members => writeCounted (writeLeaf item) members
  | .mapping key value, .dict items => writeCounted (fun item => do
    let k ← writeLeaf key item.1
    let v ← writeNode ctx value item.2
    pure (k ++ v)) items
  | .model _ _ fields, v => writeSchema ctx fields v
  | .custom codec, v => codec.toWriter ctx v
  | _, _ => .error .type

/-- The body of the generated `write`. -/
def writeSchema (ctx : WireCtx) : List (FieldMeta × WireNode) → Value → Except WireError Bytes
  | [], _ => .ok []
  | (m, node) :: fields, obj =>
    if m.serialize && m.wanted obj.attrs then do
      let v ← obj.getattr m.name
      let b ← writeNode ctx node v
      let bs ← writeSchema ctx fields obj
      pure (b ++ bs)
    else writeSchema ctx fields obj
end

/-! ## Classes -/

/-- A class with the codec pair of `WireModel`, or with that of `WireRequest`: then its op
code and its oldest protocol. -/
structure WireClass where
  name : String
  fields : List (FieldMeta × Ann)
  request : Option (Nat × Nat) := none

namespace WireClass

/-- What `WireRequest.to_writer` and `_write_request_prelude` write first. -/
def prelude (cls : WireClass) (ctx : WireCtx) : Except WireError Bytes :=
  match cls.request with
  | none => .ok []
  | some (op, minProtocol) =>
    if ctx.version ≠ 0 ∧ ctx.version < minProtocol then .error (.unsupportedVersion op)
    else writeUInt64 op

def ann (cls : WireClass) : Ann := .model cls.name cls.fields

/-- `to_writer`, by the plan. -/
def toWriter (cls : WireClass) (ctx : WireCtx) (obj : Value) : Except WireError Bytes := do
  let head ← cls.prelude ctx
  let body ← writeFields ctx cls.fields obj
  pure (head ++ body)

/-- `from_reader`, by the plan. -/
def fromReader (cls : WireClass) (ctx : WireCtx) : WireReader Value := readAnn ctx cls.ann

end WireClass

structure CompiledCodec where
  write : Value → Except WireError Bytes
  read : WireReader Value

def compileCodec (ctx : WireCtx) (cls : WireClass) : Except String CompiledCodec := do
  let fields ← wireSchema ctx cls.fields
  pure {
    write := fun obj => do
      let head ← cls.prelude ctx
      let body ← writeSchema ctx fields obj
      pure (head ++ body)
    read := .obj cls.name <$> readSchema ctx fields (defaults cls.fields) }

/-! ## Where the two part -/

def Ann.isOptionalStr : Ann → Bool
  | .optional (.atom .str) => true
  | _ => false

mutual
/-- Somewhere in the value, text with `text_errors` that is written is `None`. -/
def Absent (ctx : WireCtx) : Ann → Value → Prop
  | .optional inner, v => Absent ctx inner v
  | .list elem, .list items => ∃ v ∈ items, Absent ctx elem v
  | .dict _ value, .dict items => ∃ item ∈ items, Absent ctx value item.2
  | .model _ fields, .obj _ attrs => AbsentFields ctx fields attrs
  | _, _ => False

def AbsentFields (ctx : WireCtx) : List (FieldMeta × Ann) → Attrs → Prop
  | [], _ => False
  | (m, ann) :: fields, attrs =>
    ((m.kept ctx && m.serialize && m.wanted attrs) = true ∧ ∃ v, Dict.get? attrs m.name = some v ∧
      if m.lossless then ann.isOptionalStr = true ∧ v = .none else Absent ctx ann v) ∨
    AbsentFields ctx fields attrs
end

mutual
/-- Some stream brings a reader of the annotation to text with `text_errors` that may be
absent. -/
def Exposes (ctx : WireCtx) : Ann → Prop
  | .optional inner => Exposes ctx inner
  | .list elem => Exposes ctx elem
  | .dict key value => (∃ bs k, Takes (readAtom key) bs k) ∧ Exposes ctx value
  | .model _ fields => ExposesFields ctx fields (defaults fields)
  | _ => False

/-- Some values of the fields before it make a reader come to such a field. -/
def ExposesFields (ctx : WireCtx) : List (FieldMeta × Ann) → Attrs → Prop
  | [], _ => False
  | (m, ann) :: fields, attrs =>
    if m.kept ctx && m.deserialize && m.wanted attrs then
      (if m.lossless then ann.isOptionalStr = true else Exposes ctx ann) ∨
      ∃ bs v, Takes (fieldReader ctx (m, ann)) bs v ∧
        ExposesFields ctx fields (Dict.set attrs m.name v)
    else ExposesFields ctx fields attrs
end

/-! ## Lowering -/

theorem except_map_eq_ok {ε α β : Type} {f : α → β} {x : Except ε α} {b : β} :
    f <$> x = .ok b ↔ ∃ a, x = .ok a ∧ f a = b := by
  cases x with
  | error e => simp [Functor.map, Except.map]
  | ok a => simp [Functor.map, Except.map]

theorem wireLeaf_eq (a : AtomAnn) :
    ∃ l, wireLeaf false a = .ok l ∧ readLeaf l = readAtom a ∧
      ∀ x, writeLeaf l x = writeAtom a x := by
  cases a <;> exact ⟨_, rfl, rfl, fun x => by cases x <;> rfl⟩

theorem wireNode_optional (ctx : WireCtx) (escaped : Bool) {inner : Ann} (h : ¬ inner.IsScalar) :
    wireNode ctx escaped (.optional inner) = wireNode ctx escaped inner := by
  cases inner with
  | atom a =>
    cases a with
    | scalar cls => exact absurd ⟨cls, rfl⟩ h
    | _ => simp [wireNode]
  | _ => simp [wireNode]

variable {ann : Ann} {fields : List (FieldMeta × Ann)} {name : String} {α : Type}
  {cls : WireClass} {ctx : WireCtx} {node : WireNode}

theorem wireNode_atom {a : AtomAnn} (h : wireNode ctx false (.atom a) = .ok node) :
    ∃ l, node = .leaf l ∧ readLeaf l = readAtom a ∧ ∀ x, writeLeaf l x = writeAtom a x := by
  obtain ⟨l, hl, hleaf⟩ := wireLeaf_eq a
  rw [wireNode, hl] at h
  exact ⟨l, (Except.ok.inj h).symm, hleaf⟩

theorem wireNode_set {a : AtomAnn} (h : wireNode ctx false (.set a) = .ok node) :
    ∃ l, node = .set l ∧ readLeaf l = readAtom a ∧ ∀ x, writeLeaf l x = writeAtom a x := by
  obtain ⟨l, hl, hleaf⟩ := wireLeaf_eq a
  rw [wireNode, hl] at h
  exact ⟨l, (Except.ok.inj h).symm, hleaf⟩

theorem wireNode_dict {key : AtomAnn} {value : Ann}
    (h : wireNode ctx false (.dict key value) = .ok node) :
    ∃ l item, node = .mapping l item ∧ wireNode ctx false value = .ok item ∧
      readLeaf l = readAtom key ∧ ∀ x, writeLeaf l x = writeAtom key x := by
  obtain ⟨l, hl, hleaf⟩ := wireLeaf_eq key
  rw [wireNode, hl] at h
  obtain ⟨_, ⟨⟩, h⟩ := except_bind_eq_ok.1 h
  obtain ⟨item, hitem, h⟩ := except_bind_eq_ok.1 h
  exact ⟨l, item, (except_pure_eq_ok.1 h).symm, hitem, hleaf⟩

theorem wireNode_lossless (hann : ann = .atom .str ∨ ann = .optional (.atom .str))
    (hnode : wireNode ctx true ann = .ok node) : node = .leaf (.string true) := by
  rcases hann with rfl | rfl <;>
  · obtain ⟨l, hl, rfl⟩ := except_map_eq_ok.1 (by simpa only [wireNode] using hnode)
    cases hl
    rfl

variable {codec : CompiledCodec} {m : FieldMeta} {nodes : List (FieldMeta × WireNode)}
  {xs : List α} {v : Value} {f : α → Except WireError Bytes}

theorem wireSchema_cons (h : wireSchema ctx ((m, ann) :: fields) = .ok nodes) :
    (m.kept ctx = true ∧ ∃ node rest, wireNode ctx m.lossless ann = .ok node ∧
      wireSchema ctx fields = .ok rest ∧ nodes = (m, node) :: rest) ∨
    (m.kept ctx = false ∧ wireSchema ctx fields = .ok nodes) := by
  rw [wireSchema] at h
  cases hk : m.kept ctx with
  | false => exact .inr ⟨rfl, by simpa [hk] using h⟩
  | true =>
    simp only [hk, if_true] at h
    obtain ⟨node, hnode, h⟩ := except_bind_eq_ok.1 h
    obtain ⟨rest, hrest, h⟩ := except_bind_eq_ok.1 h
    exact .inl ⟨rfl, node, rest, hnode, hrest, (except_pure_eq_ok.1 h).symm⟩

mutual
theorem exists_wireNode {ctx : WireCtx} {ann : Ann} (h : Declared ctx ann) :
    ∃ node, wireNode ctx false ann = .ok node := by
  match ann with
  | .atom a =>
    obtain ⟨l, hl, -⟩ := wireLeaf_eq a
    exact ⟨.leaf l, by simp only [wireNode, hl]; rfl⟩
  | .optional inner =>
    by_cases hscalar : inner.IsScalar
    · obtain ⟨cls, rfl⟩ := hscalar
      exact ⟨.optionalScalar cls, by simp [wireNode]⟩
    · rw [wireNode_optional ctx false hscalar]
      exact exists_wireNode (by simpa only [Declared] using h)
  | .list elem =>
    have helem : Declared ctx elem := by simpa only [Declared] using h
    obtain ⟨item, hitem⟩ := exists_wireNode helem
    exact ⟨.list item, by simp only [wireNode, hitem]; rfl⟩
  | .set elem =>
    obtain ⟨l, hl, -⟩ := wireLeaf_eq elem
    exact ⟨.set l, by simp only [wireNode, hl]; rfl⟩
  | .dict key value =>
    obtain ⟨k, hk, -⟩ := wireLeaf_eq key
    have hvalue : Declared ctx value := by simpa only [Declared] using h
    obtain ⟨v, hv⟩ := exists_wireNode hvalue
    exact ⟨.mapping k v, by simp only [wireNode, hk, hv]; rfl⟩
  | .model cls fields =>
    simp only [Declared] at h
    obtain ⟨nodes, hnodes⟩ := exists_wireSchema h.2
    exact ⟨.model cls (defaults fields) nodes, by simp only [wireNode, hnodes]; rfl⟩
  | .custom codec => exact ⟨.custom codec, by simp [wireNode]⟩

theorem exists_wireSchema {ctx : WireCtx} {fields : List (FieldMeta × Ann)}
    (h : DeclaredFields ctx fields) : ∃ nodes, wireSchema ctx fields = .ok nodes := by
  match fields with
  | [] => exact ⟨[], by simp only [wireSchema]⟩
  | (m, ann) :: fields =>
    simp only [DeclaredFields] at h
    obtain ⟨rest, hrest⟩ := exists_wireSchema h.2
    cases hk : m.kept ctx with
    | false => exact ⟨rest, by simp [wireSchema, hk, hrest]⟩
    | true =>
      have hann := h.1 hk
      have hnode : ∃ node, wireNode ctx m.lossless ann = .ok node := by
        cases hl : m.lossless with
        | true =>
          rw [hl, if_pos rfl] at hann
          rcases hann with rfl | rfl <;> exact ⟨.leaf (.string true), by simp [wireNode]; rfl⟩
        | false =>
          rw [hl, if_neg (by simp)] at hann
          exact exists_wireNode hann
      obtain ⟨node, hnode⟩ := hnode
      exact ⟨(m, node) :: rest, by simp [wireSchema, hk, hnode, hrest]; rfl⟩
end

theorem exists_compileCodec (h : Declared ctx cls.ann) :
    ∃ codec, compileCodec ctx cls = .ok codec := by
  obtain ⟨nodes, hnodes⟩ := exists_wireSchema h.2
  exact ⟨_, except_bind_eq_ok.2 ⟨nodes, hnodes, rfl⟩⟩

/-! ## Writing -/

theorem writeCounted_congr {f g : α → Except WireError Bytes}
    (h : ∀ x ∈ xs, f x = g x) : writeCounted f xs = writeCounted g xs := by
  have hall : writeAll f xs = writeAll g xs := by
    induction xs with
    | nil => rfl
    | cons x xs ih =>
      rw [writeAll, writeAll, h x (by simp), ih fun y hy => h y (by simp [hy])]
  rw [writeCounted, writeCounted, hall]

theorem exists_ok_of_writeAll
    {bs : Bytes} (h : writeAll f xs = .ok bs) : ∀ x ∈ xs, ∃ b, f x = .ok b := by
  induction xs generalizing bs with
  | nil => simp
  | cons y ys ih =>
    obtain ⟨b, hb, h⟩ := except_bind_eq_ok.1 h
    obtain ⟨cs, hcs, -⟩ := except_bind_eq_ok.1 h
    intro x hx
    rcases List.mem_cons.1 hx with rfl | hx
    · exact ⟨b, hb⟩
    · exact ih hcs x hx

theorem writeCounted_error {x : α}
    (hx : x ∈ xs) {e : WireError} (h : f x = .error e) : ∃ e', writeCounted f xs = .error e' := by
  cases hw : writeCounted f xs with
  | error e' => exact ⟨e', rfl⟩
  | ok bs =>
    obtain ⟨n, -, hw⟩ := except_bind_eq_ok.1 hw
    obtain ⟨cs, hall, -⟩ := except_bind_eq_ok.1 hw
    obtain ⟨b, hb⟩ := exists_ok_of_writeAll hall x hx
    rw [h] at hb
    cases hb

/-- What the generated code does with a value, next to what the plan does with it: it
raises when text is absent, and does the same otherwise. -/
def Writes (absent : Prop) (compiled interpreted : Except WireError Bytes) : Prop :=
  (absent → ∃ e, compiled = .error e) ∧ (¬ absent → compiled = interpreted)

theorem writes_of_eq {absent : Prop} {compiled interpreted : Except WireError Bytes}
    (hnot : ¬ absent) (h : compiled = interpreted) : Writes absent compiled interpreted :=
  ⟨fun habs => absurd habs hnot, fun _ => h⟩

theorem Writes.andThen {p q : Prop} {c c' i i' : Except WireError Bytes} (h : Writes p c i)
    (h' : Writes q c' i') :
    Writes (p ∨ q) (do let b ← c; let bs ← c'; pure (b ++ bs))
      (do let b ← i; let bs ← i'; pure (b ++ bs)) := by
  constructor
  · rintro (hp | hq)
    · obtain ⟨e, rfl⟩ := h.1 hp
      exact ⟨e, rfl⟩
    · obtain ⟨e, rfl⟩ := h'.1 hq
      cases c with
      | error e' => exact ⟨e', rfl⟩
      | ok b => exact ⟨e, rfl⟩
  · intro hnot
    rw [h.2 fun hp => hnot (.inl hp), h'.2 fun hq => hnot (.inr hq)]

theorem writes_lossless (hfits : FitsLossless ann v) (hnode : wireNode ctx true ann = .ok node) :
    Writes (ann.isOptionalStr = true ∧ v = .none) (writeNode ctx node v) (writeLossless ann v) := by
  unfold FitsLossless at hfits
  split at hfits
  · rw [wireNode_lossless (.inl rfl) hnode]
    exact writes_of_eq (by simp [Ann.isOptionalStr]) (by simp [writeNode, writeLeaf, writeLossless])
  · rw [wireNode_lossless (.inr rfl) hnode]
    exact writes_of_eq (by simp) (by simp [writeNode, writeLeaf, writeLossless])
  · rw [wireNode_lossless (.inr rfl) hnode]
    exact ⟨fun _ => ⟨.attribute "encode", by simp only [writeNode]⟩, fun h => absurd ⟨rfl, rfl⟩ h⟩
  · exact hfits.elim

theorem writes_skipped {cls : String} {attrs : Attrs} {compiled : Except WireError Bytes}
    (hcond : ¬ (m.kept ctx && m.serialize && m.wanted attrs) = true)
    (h : Writes (AbsentFields ctx fields attrs) compiled
      (writeFields ctx fields (.obj cls attrs))) :
    Writes (AbsentFields ctx ((m, ann) :: fields) attrs) compiled
      (writeFields ctx ((m, ann) :: fields) (.obj cls attrs)) := by
  have hplan : writeFields ctx ((m, ann) :: fields) (.obj cls attrs) =
      writeFields ctx fields (.obj cls attrs) := by
    exact if_neg hcond
  rw [hplan, AbsentFields, propext (or_iff_right fun h => hcond h.1)]
  exact h

mutual
/-- **The generated code writes what the plan writes**, but for absent text. -/
theorem writes_of_fits {ctx : WireCtx} {ann : Ann} {node : WireNode} {v : Value}
    (hnode : wireNode ctx false ann = .ok node) (hfits : Fits ctx ann v) :
    Writes (Absent ctx ann v) (writeNode ctx node v) (writeAnn ctx ann v) := by
  match ann with
  | .atom a =>
    obtain ⟨l, rfl, -, hwrite⟩ := wireNode_atom hnode
    cases v <;> simp only [Fits] at hfits
    exact writes_of_eq (by simp [Absent]) (by simp only [writeNode, writeAnn, hwrite])
  | .optional inner =>
    by_cases hscalar : inner.IsScalar
    · obtain ⟨cls, rfl⟩ := hscalar
      obtain rfl : .optionalScalar cls = node := by simpa [wireNode] using hnode
      rcases fits_optional_scalar hfits with rfl | ⟨held, rfl, -⟩
      · exact writes_of_eq (by simp [Absent]) (by simp only [writeNode, writeAnn])
      · exact writes_of_eq (by simp [Absent])
          (by simp only [writeNode, writeAnn, writeLeaf, writeAtom])
    · rw [wireNode_optional ctx false hscalar] at hnode
      rw [fits_optional ctx hscalar] at hfits
      rw [writeAnn_optional ctx hscalar, Absent]
      exact writes_of_fits hnode hfits
  | .list elem =>
    rw [wireNode] at hnode
    obtain ⟨item, hitem, rfl⟩ := except_map_eq_ok.1 hnode
    cases v <;> simp only [Fits] at hfits
    case list items =>
      have hpart := fun x hx => writes_of_fits hitem (hfits.2 x hx)
      simp only [writeNode, writeAnn, Absent]
      refine ⟨fun ⟨x, hx, habs⟩ => ?_, fun hnot => writeCounted_congr fun x hx => ?_⟩
      · obtain ⟨e, he⟩ := (hpart x hx).1 habs
        exact writeCounted_error hx he
      · exact (hpart x hx).2 fun habs => hnot ⟨x, hx, habs⟩
  | .set elem =>
    obtain ⟨l, rfl, -, hwrite⟩ := wireNode_set hnode
    cases v <;> simp only [Fits] at hfits
    exact writes_of_eq (by simp [Absent])
      (by simpa only [writeNode, writeAnn] using writeCounted_congr fun x _ => hwrite x)
  | .dict key value =>
    obtain ⟨l, item, rfl, hitem, -, hwrite⟩ := wireNode_dict hnode
    cases v <;> simp only [Fits] at hfits
    case dict items =>
      have hpart := fun x hx => writes_of_fits hitem (hfits.2.2 x hx).2
      simp only [writeNode, writeAnn, Absent]
      refine ⟨fun ⟨x, hx, habs⟩ => ?_, fun hnot => writeCounted_congr fun x hx => ?_⟩
      · obtain ⟨e, he⟩ := (hpart x hx).1 habs
        obtain ⟨k, hk⟩ := writeAtom_of_fits (hfits.2.2 x hx).1
        exact writeCounted_error hx (e := e) (by rw [hwrite, hk, he]; rfl)
      · rw [hwrite, (hpart x hx).2 fun habs => hnot ⟨x, hx, habs⟩]
  | .model cls fields =>
    rw [wireNode, if_neg (by simp)] at hnode
    obtain ⟨nodes, hnodes, rfl⟩ := except_map_eq_ok.1 hnode
    cases v <;> simp only [Fits] at hfits
    simp only [writeNode, writeAnn, Absent]
    exact writes_fields_of_fits _ hnodes hfits.2
  | .custom codec =>
    obtain rfl : .custom codec = node := by simpa [wireNode] using hnode
    exact writes_of_eq (by simp [Absent]) (by simp only [writeNode, writeAnn])

theorem writes_fields_of_fits {ctx : WireCtx} {fields : List (FieldMeta × Ann)}
    {nodes : List (FieldMeta × WireNode)} (cls : String) {attrs : Attrs}
    (hnodes : wireSchema ctx fields = .ok nodes) (hfits : FitsFields ctx fields attrs) :
    Writes (AbsentFields ctx fields attrs) (writeSchema ctx nodes (.obj cls attrs))
      (writeFields ctx fields (.obj cls attrs)) := by
  match fields with
  | [] =>
    obtain rfl : [] = nodes := by simpa [wireSchema] using hnodes
    exact writes_of_eq (by simp [AbsentFields]) (by simp only [writeSchema, writeFields])
  | (m, ann) :: fields =>
    simp only [FitsFields] at hfits
    rcases wireSchema_cons hnodes with ⟨hkept, node, rest, hnode, hrest, rfl⟩ | ⟨hkept, hrest⟩
    · have ih := writes_fields_of_fits cls hrest hfits.2
      by_cases hwritten : (m.serialize && m.wanted attrs) = true
      · have hcond : (m.kept ctx && m.serialize && m.wanted attrs) = true := by
          simpa [hkept] using hwritten
        obtain ⟨v, hv, hval⟩ := hfits.1 hcond
        have hbytes : fieldBytes ctx (.obj cls attrs) (m, ann) =
            if m.lossless then writeLossless ann v else writeAnn ctx ann v := by
          simp only [fieldBytes, Value.getattr, hv]
          rfl
        have hfield : Writes
            (if m.lossless then ann.isOptionalStr = true ∧ v = .none else Absent ctx ann v)
            (writeNode ctx node v) (fieldBytes ctx (.obj cls attrs) (m, ann)) := by
          rw [hbytes]
          cases hl : m.lossless with
          | true => exact writes_lossless (by simpa [hl] using hval) (by rw [← hl]; exact hnode)
          | false => exact writes_of_fits (by rw [← hl]; exact hnode) (by simpa [hl] using hval)
        have hboth := hfield.andThen ih
        have hcompiled : writeSchema ctx ((m, node) :: rest) (.obj cls attrs) = (do
            let b ← writeNode ctx node v
            let bs ← writeSchema ctx rest (.obj cls attrs)
            pure (b ++ bs)) := by
          rw [writeSchema]
          refine (if_pos hwritten).trans ?_
          simp only [Value.getattr, hv]
          rfl
        have hplan : writeFields ctx ((m, ann) :: fields) (.obj cls attrs) = (do
            let b ← fieldBytes ctx (.obj cls attrs) (m, ann)
            let bs ← writeFields ctx fields (.obj cls attrs)
            pure (b ++ bs)) := by
          rw [writeFields_cons]
          exact if_pos hcond
        have habsent : AbsentFields ctx ((m, ann) :: fields) attrs ↔
            (if m.lossless then ann.isOptionalStr = true ∧ v = .none else Absent ctx ann v) ∨
              AbsentFields ctx fields attrs := by
          simp [AbsentFields, hcond, hv]
        rw [hcompiled, hplan, propext habsent]
        exact hboth
      · -- the field is not written: both go on behind it
        have hcompiled : writeSchema ctx ((m, node) :: rest) (.obj cls attrs) =
            writeSchema ctx rest (.obj cls attrs) := by
          rw [writeSchema]
          exact if_neg hwritten
        rw [hcompiled]
        exact writes_skipped (by simpa [hkept] using hwritten) ih
    · exact writes_skipped (by simp [hkept]) (writes_fields_of_fits cls hrest hfits.2)
end

/-! ## Reading -/

theorem alike_string (ctx : WireCtx) :
    Alike wire (readNode ctx (.leaf (.string true))) (readLossless (.atom .str)) := by
  intro s
  rcases readBytes.run wire s with ⟨e | b, t⟩ <;> rfl

theorem alike_field (hnode : wireNode ctx m.lossless ann = .ok node)
    (htext : m.lossless = true → ann = .atom .str)
    (hann : m.lossless = false → Alike wire (readNode ctx node) (readAnn ctx ann)) :
    Alike wire (readNode ctx node) (fieldReader ctx (m, ann)) := by
  simp only [fieldReader]
  cases hl : m.lossless with
  | true =>
    obtain rfl := htext hl
    rw [hl] at hnode
    rw [wireNode_lossless (.inl rfl) hnode]
    exact alike_string ctx
  | false => exact hann hl

theorem eq_str_of_not_optionalStr
    (hann : ann = .atom .str ∨ ann = .optional (.atom .str)) (h : ¬ ann.isOptionalStr = true) :
    ann = .atom .str := by
  rcases hann with rfl | rfl
  · rfl
  · exact absurd rfl h

mutual
/-- **The generated code reads what the plan reads**, where no stream brings it to text
that may be absent. -/
theorem alike_of_not_exposes {ctx : WireCtx} {ann : Ann} {node : WireNode} (hd : Declared ctx ann)
    (hnode : wireNode ctx false ann = .ok node) (h : ¬ Exposes ctx ann) :
    Alike wire (readNode ctx node) (readAnn ctx ann) := by
  match ann with
  | .atom a =>
    obtain ⟨l, rfl, hread, -⟩ := wireNode_atom hnode
    rw [readNode, readAnn, hread]
    exact .refl _
  | .optional inner =>
    by_cases hscalar : inner.IsScalar
    · obtain ⟨cls, rfl⟩ := hscalar
      obtain rfl : .optionalScalar cls = node := by simpa [wireNode] using hnode
      rw [readNode, readAnn]
      exact .refl _
    · rw [wireNode_optional ctx false hscalar] at hnode
      rw [readAnn_optional ctx hscalar]
      exact alike_of_not_exposes (by simpa only [Declared] using hd) hnode
        (by simpa only [Exposes] using h)
  | .list elem =>
    rw [wireNode] at hnode
    obtain ⟨item, hitem, rfl⟩ := except_map_eq_ok.1 hnode
    have ih := alike_of_not_exposes (by simpa only [Declared] using hd) hitem
      (by simpa only [Exposes] using h)
    rw [readNode, readAnn]
    exact (Alike.refl _).bind fun n _ _ _ => (ih.replicate n).map _
  | .set elem =>
    obtain ⟨l, rfl, hread, -⟩ := wireNode_set hnode
    rw [readNode, readAnn, hread]
    exact .refl _
  | .dict key value =>
    obtain ⟨l, item, rfl, hitem, hread, -⟩ := wireNode_dict hnode
    rw [readNode, readAnn, hread]
    refine (Alike.refl _).bind fun n _ _ _ => (Alike.replicate ?_ n).bind fun _ _ _ _ => .refl _
    refine (Alike.refl _).bind fun k s t hrun => ?_
    -- a key was read, so what is exposed is the values
    obtain ⟨bs, -, htakes⟩ := reads_of_run hrun
    have hvalue : ¬ Exposes ctx value := by
      intro hexp
      exact h (by simpa only [Exposes] using ⟨⟨bs, k, htakes⟩, hexp⟩)
    have ih := alike_of_not_exposes (by simpa only [Declared] using hd) hitem hvalue
    exact ih.bind fun v _ _ _ => .refl _
  | .model cls fields =>
    rw [wireNode, if_neg (by simp)] at hnode
    obtain ⟨nodes, hnodes, rfl⟩ := except_map_eq_ok.1 hnode
    simp only [Declared] at hd
    rw [readNode, readAnn]
    exact (alike_fields hd.2 hnodes (by simpa only [Exposes] using h)).map _
  | .custom codec =>
    obtain rfl : .custom codec = node := by simpa [wireNode] using hnode
    rw [readNode, readAnn]
    exact .refl _

theorem alike_fields {ctx : WireCtx} {fields : List (FieldMeta × Ann)}
    {nodes : List (FieldMeta × WireNode)} {attrs : Attrs} (hd : DeclaredFields ctx fields)
    (hnodes : wireSchema ctx fields = .ok nodes) (h : ¬ ExposesFields ctx fields attrs) :
    Alike wire (readSchema ctx nodes attrs) (readFields ctx fields attrs) := by
  match fields with
  | [] =>
    obtain rfl : [] = nodes := by simpa [wireSchema] using hnodes
    rw [readSchema, readFields]
    exact .refl _
  | (m, ann) :: fields =>
    simp only [DeclaredFields] at hd
    rw [ExposesFields] at h
    rw [readFields_cons]
    rcases wireSchema_cons hnodes with ⟨hkept, node, rest, hnode, hrest, rfl⟩ | ⟨hkept, hrest⟩
    · rw [readSchema]
      simp only [hkept, Bool.true_and] at h ⊢
      by_cases hread : (m.deserialize && m.wanted attrs) = true
      · rw [if_pos hread] at h ⊢
        rw [if_pos hread]
        push Not at h
        have hann := hd.1 hkept
        have hfield : Alike wire (readNode ctx node) (fieldReader ctx (m, ann)) := by
          refine alike_field hnode (fun hl => ?_) fun hl => ?_
          · exact eq_str_of_not_optionalStr (by simpa [hl] using hann) (by simpa [hl] using h.1)
          · simp only [hl, Bool.false_eq_true, if_false] at hann h hnode
            exact alike_of_not_exposes hann hnode h.1
        refine hfield.bind fun v s t hrun => ?_
        rw [hfield s] at hrun
        obtain ⟨bs, -, htakes⟩ := reads_of_run hrun
        exact alike_fields hd.2 hrest (h.2 bs v htakes)
      · rw [if_neg hread] at h ⊢
        rw [if_neg hread]
        exact alike_fields hd.2 hrest h
    · simp only [hkept, Bool.false_and, Bool.false_eq_true, if_false] at h ⊢
      exact alike_fields hd.2 hrest h
end

/-! ### Every annotation can be read -/

mutual
theorem exists_takes_node {ctx : WireCtx} {ann : Ann} {node : WireNode} (hd : Declared ctx ann)
    (hnode : wireNode ctx false ann = .ok node) : ∃ bs v, Takes (readNode ctx node) bs v := by
  have hzero : Takes readUInt64 (leBytes 8 0) 0 := takes_uint64 (by decide)
  match ann with
  | .atom a =>
    obtain ⟨l, rfl, hread, -⟩ := wireNode_atom hnode
    simp only [Declared] at hd
    obtain ⟨bs, x, htakes⟩ := hd
    rw [readNode, hread]
    exact ⟨bs, .atom x, htakes.map _⟩
  | .optional inner =>
    by_cases hscalar : inner.IsScalar
    · obtain ⟨cls, rfl⟩ := hscalar
      obtain rfl : .optionalScalar cls = node := by simpa [wireNode] using hnode
      simp only [Declared, readAtom] at hd
      obtain ⟨bs, x, htakes⟩ := hd
      obtain ⟨held, -, hheld⟩ := Reads.of_map htakes
      rw [readNode]
      exact ⟨bs, _, hheld.map _⟩
    · rw [wireNode_optional ctx false hscalar] at hnode
      exact exists_takes_node (by simpa only [Declared] using hd) hnode
  | .list elem =>
    rw [wireNode] at hnode
    obtain ⟨item, hitem, rfl⟩ := except_map_eq_ok.1 hnode
    rw [readNode]
    exact ⟨_, .list [], hzero.bind_pure rfl⟩
  | .set elem =>
    obtain ⟨l, rfl, hread, -⟩ := wireNode_set hnode
    rw [readNode]
    exact ⟨_, .set [], hzero.bind_pure rfl⟩
  | .dict key value =>
    obtain ⟨l, item, rfl, -⟩ := wireNode_dict hnode
    rw [readNode]
    exact ⟨_, .dict [], hzero.bind_pure rfl⟩
  | .model cls fields =>
    rw [wireNode, if_neg (by simp)] at hnode
    obtain ⟨nodes, hnodes, rfl⟩ := except_map_eq_ok.1 hnode
    simp only [Declared] at hd
    obtain ⟨bs, attrs, htakes⟩ := exists_takes_schema hd.2 hnodes (defaults fields)
    rw [readNode]
    exact ⟨bs, .obj cls attrs, htakes.map _⟩
  | .custom codec =>
    obtain rfl : .custom codec = node := by simpa [wireNode] using hnode
    rw [readNode]
    simpa only [Declared] using hd

theorem exists_takes_schema {ctx : WireCtx} {fields : List (FieldMeta × Ann)}
    {nodes : List (FieldMeta × WireNode)} (hd : DeclaredFields ctx fields)
    (hnodes : wireSchema ctx fields = .ok nodes) (attrs : Attrs) :
    ∃ bs attrs', Takes (readSchema ctx nodes attrs) bs attrs' := by
  match fields with
  | [] =>
    obtain rfl : [] = nodes := by simpa [wireSchema] using hnodes
    rw [readSchema]
    exact ⟨[], attrs, Reads.pure attrs⟩
  | (m, ann) :: fields =>
    simp only [DeclaredFields] at hd
    rcases wireSchema_cons hnodes with ⟨hkept, node, rest, hnode, hrest, rfl⟩ | ⟨-, hrest⟩
    · rw [readSchema]
      split_ifs with hread
      · have hfield : ∃ bs v, Takes (readNode ctx node) bs v := by
          have hann := hd.1 hkept
          cases hl : m.lossless with
          | true =>
            simp only [hl, if_true] at hann hnode
            obtain ⟨bs, hbs⟩ := writeBytes_of_fits (b := []) (by decide)
            rw [wireNode_lossless hann hnode, readNode, readLeaf]
            exact ⟨bs, _, ((takes_bytes hbs).map _).map _⟩
          | false =>
            simp only [hl, Bool.false_eq_true, if_false] at hann hnode
            exact exists_takes_node hann hnode
        obtain ⟨bs, v, htakes⟩ := hfield
        obtain ⟨cs, attrs', hmore⟩ :=
          exists_takes_schema hd.2 hrest (Dict.set attrs m.name v)
        exact ⟨bs ++ cs, attrs', htakes.bind hmore⟩
      · exact exists_takes_schema hd.2 hrest attrs
    · exact exists_takes_schema hd.2 hrest attrs
end

/-! ### Where text may be absent, the two part -/

/-- However the reader ends, an attribute of this name is what it was. -/
def Keeps (name : String) (attrs : Attrs) (r : WireReader Attrs) : Prop :=
  ∀ s attrs' t, r.run wire s = (.ok attrs', t) → Dict.get? attrs' name = Dict.get? attrs name

theorem keeps_pure (name : String) (attrs : Attrs) : Keeps name attrs (pure attrs) := by
  intro s attrs' t h
  rw [Except.ok.inj (Prod.mk.inj h).1]

theorem keeps_bind {name n : String} {attrs : Attrs} {r : WireReader Value}
    {f : Value → WireReader Attrs} (hne : n ≠ name)
    (h : ∀ v, Keeps name (Dict.set attrs n v) (f v)) : Keeps name attrs (r >>= f) := by
  intro s attrs' t hrun
  rw [run_bind] at hrun
  rcases hr : r.run wire s with ⟨e | v, s'⟩
  · rw [hr] at hrun
    cases hrun
  · rw [hr] at hrun
    rw [h v s' attrs' t hrun, Dict.get?_set_of_ne attrs v hne]

theorem keeps_readFields (hname : name ∉ fields.map (·.1.name)) (attrs : Attrs) :
    Keeps name attrs (readFields ctx fields attrs) := by
  induction fields generalizing attrs with
  | nil =>
    exact keeps_pure name attrs
  | cons f fields ih =>
    simp only [List.map_cons, List.mem_cons, not_or] at hname
    rw [readFields_cons]
    split_ifs
    · exact keeps_bind (Ne.symm hname.1) fun v => ih hname.2 _
    · exact ih hname.2 attrs

theorem keeps_readSchema (hnodes : wireSchema ctx fields = .ok nodes)
    (hname : name ∉ fields.map (·.1.name)) (attrs : Attrs) :
    Keeps name attrs (readSchema ctx nodes attrs) := by
  induction fields generalizing nodes attrs with
  | nil =>
    obtain rfl : [] = nodes := by simpa [wireSchema] using hnodes
    exact keeps_pure name attrs
  | cons f fields ih =>
    simp only [List.map_cons, List.mem_cons, not_or] at hname
    rcases wireSchema_cons hnodes with ⟨-, node, rest, -, hrest, rfl⟩ | ⟨-, hrest⟩
    · rw [readSchema]
      split_ifs
      · exact keeps_bind (Ne.symm hname.1) fun v => ih hrest hname.2 _
      · exact ih hrest hname.2 attrs
    · exact ih hrest hname.2 attrs

theorem splits_optionalStr (ctx : WireCtx) :
    Splits .eof (readNode ctx (.leaf (.string true))) (readLossless (.optional (.atom .str))) := by
  obtain ⟨bs, hbs⟩ := writeBytes_of_fits (b := []) (by decide)
  refine ⟨bs, .atom (.escaped []), ?_, fun rest v t hrun => ?_⟩
  · exact ((takes_bytes hbs).map _).map _
  · have hread :
        (readLossless (.optional (.atom .str))).run wire (bs ++ rest) = (.ok .none, rest) := by
      exact (takes_bytes hbs).map _ rest
    obtain ⟨hv, -⟩ := Prod.mk.inj (hread.symm.trans hrun)
    rw [← Except.ok.inj hv]
    simp

theorem alike_dict_one (r : WireReader (Atom × Value)) :
    Alike wire ((fun item => Value.dict [item]) <$> r)
      (replicate 1 r >>= fun items => pure (.dict (Dict.update [] items))) := by
  intro s
  rw [run_map, run_bind, Alike.replicate_one r s, run_map]
  rcases r.run wire s with ⟨e | item, t⟩ <;> rfl

mutual
/-- **Where a stream comes to text that may be absent, the two codecs part.** -/
theorem splits_of_exposes {ctx : WireCtx} {ann : Ann} {node : WireNode} (hd : Declared ctx ann)
    (hnode : wireNode ctx false ann = .ok node) (h : Exposes ctx ann) :
    Splits .eof (readNode ctx node) (readAnn ctx ann) := by
  have hone : Takes readUInt64 (leBytes 8 1) 1 := takes_uint64 (by decide)
  match ann with
  | .atom a => simp [Exposes] at h
  | .optional inner =>
    simp only [Exposes] at h
    by_cases hscalar : inner.IsScalar
    · obtain ⟨cls, rfl⟩ := hscalar
      simp [Exposes] at h
    · rw [wireNode_optional ctx false hscalar] at hnode
      rw [readAnn_optional ctx hscalar]
      exact splits_of_exposes (by simpa only [Declared] using hd) hnode h
  | .list elem =>
    rw [wireNode] at hnode
    obtain ⟨item, hitem, rfl⟩ := except_map_eq_ok.1 hnode
    -- a list of one item
    have ih := splits_of_exposes (by simpa only [Declared] using hd) hitem
      (by simpa only [Exposes] using h)
    rw [readNode, readAnn]
    apply Splits.behind hone hone
    have hrow := ih.map (g := fun v => [v]) (List.singleton_injective)
    have hinj : Function.Injective Value.list := fun _ _ h => Value.list.inj h
    exact ((hrow.congr (fun s => (Alike.replicate_one _ s).symm)
      (fun s => (Alike.replicate_one _ s).symm)).map hinj)
  | .set elem => simp [Exposes] at h
  | .dict key value =>
    obtain ⟨l, item, rfl, hitem, hread, -⟩ := wireNode_dict hnode
    simp only [Exposes] at h
    obtain ⟨⟨bs, key', hkey⟩, hvalue⟩ := h
    -- a dictionary of one item, under a key that can be read
    have ih := splits_of_exposes (by simpa only [Declared] using hd) hitem hvalue
    rw [readNode, readAnn, hread]
    apply Splits.behind hone hone
    have hpair : Splits .eof (do
        let k ← readAtom key
        let v ← readNode ctx item
        pure (k, v)) (do
        let k ← readAtom key
        let v ← readAnn ctx value
        pure (k, v)) :=
      Splits.behind hkey hkey (ih.map (g := fun v => (key', v)) fun _ _ h => (Prod.mk.inj h).2)
    have hdict : Function.Injective fun item : Atom × Value => Value.dict [item] := by
      intro x y h
      simpa using h
    exact (hpair.map hdict).congr (alike_dict_one _) (alike_dict_one _)
  | .model cls fields =>
    rw [wireNode, if_neg (by simp)] at hnode
    obtain ⟨nodes, hnodes, rfl⟩ := except_map_eq_ok.1 hnode
    simp only [Declared] at hd
    rw [readNode, readAnn]
    exact (splits_fields hd.1 hd.2 hnodes (by simpa only [Exposes] using h)).map
      fun _ _ h => (Value.obj.inj h).2
  | .custom codec => simp [Exposes] at h

theorem splits_fields {ctx : WireCtx} {fields : List (FieldMeta × Ann)}
    {nodes : List (FieldMeta × WireNode)} {attrs : Attrs}
    (hnames : (fields.map (·.1.name)).Nodup) (hd : DeclaredFields ctx fields)
    (hnodes : wireSchema ctx fields = .ok nodes) (h : ExposesFields ctx fields attrs) :
    Splits .eof (readSchema ctx nodes attrs) (readFields ctx fields attrs) := by
  match fields with
  | [] => simp [ExposesFields] at h
  | (m, ann) :: fields =>
    simp only [DeclaredFields] at hd
    simp only [List.map_cons, List.nodup_cons] at hnames
    rw [ExposesFields] at h
    rw [readFields_cons]
    rcases wireSchema_cons hnodes with ⟨hkept, node, rest, hnode, hrest, rfl⟩ | ⟨hkept, hrest⟩
    · rw [readSchema]
      simp only [hkept, Bool.true_and] at h ⊢
      by_cases hread : (m.deserialize && m.wanted attrs) = true
      · rw [if_pos hread] at h ⊢
        rw [if_pos hread]
        have hann := hd.1 hkept
        by_cases hself : if m.lossless then ann.isOptionalStr = true else Exposes ctx ann
        · -- this field: what is read behind it keeps what was read of it
          have hfield : Splits .eof (readNode ctx node) (fieldReader ctx (m, ann)) := by
            simp only [fieldReader]
            cases hl : m.lossless with
            | true =>
              simp only [hl, if_true] at hann hself hnode ⊢
              rw [wireNode_lossless hann hnode]
              rcases hann with rfl | rfl
              · simp [Ann.isOptionalStr] at hself
              · exact splits_optionalStr ctx
            | false =>
              simp only [hl, Bool.false_eq_true, if_false] at hann hself hnode ⊢
              exact splits_of_exposes hann hnode hself
          refine hfield.front (fun v => exists_takes_schema hd.2 hrest _) ?_
          intro a a' b s s' t t' ha ha'
          have hb := keeps_readSchema hrest hnames.1 _ s b t ha
          have hb' := keeps_readFields hnames.1 _ s' b t' ha'
          rw [Dict.get?_set_self] at hb hb'
          exact Option.some.inj (hb'.symm.trans hb)
        · -- a later one: this field is read alike
          obtain ⟨bs, v, htakes, hmore⟩ := h.resolve_left hself
          have hfield : Alike wire (readNode ctx node) (fieldReader ctx (m, ann)) := by
            refine alike_field hnode (fun hl => ?_) fun hl => ?_
            · exact eq_str_of_not_optionalStr (by simpa [hl] using hann)
                (by simpa [hl] using hself)
            · simp only [hl, Bool.false_eq_true, if_false] at hann hself hnode
              exact alike_of_not_exposes hann hnode hself
          have hnodeTakes : Takes (readNode ctx node) bs v := fun rest =>
            (hfield _).trans (htakes rest)
          exact Splits.behind hnodeTakes htakes (splits_fields hnames.2 hd.2 hrest hmore)
      · rw [if_neg hread] at h ⊢
        rw [if_neg hread]
        exact splits_fields hnames.2 hd.2 hrest h
    · simp only [hkept, Bool.false_and, Bool.false_eq_true, if_false] at h ⊢
      exact splits_fields hnames.2 hd.2 hrest h
end

/-! ## The two codecs -/

/-- What a read comes to, if the stream is accepted: the value and what it left. -/
def accepted (r : WireReader Value) (src : Bytes) : Option (Value × Bytes) :=
  match r.run wire src with
  | (.ok v, rest) => some (v, rest)
  | (.error _, _) => none

/-- The compiled codec of a class does what the plan of the class does: it writes the same
bytes, reads the same value off the same bytes, and refuses the same. -/
structure Agrees (ctx : WireCtx) (cls : WireClass) (codec : CompiledCodec) : Prop where
  writes : ∀ v, Fits ctx cls.ann v → ∀ bs, codec.write v = .ok bs ↔ cls.toWriter ctx v = .ok bs
  reads : ∀ src, accepted codec.read src = accepted (cls.fromReader ctx) src

theorem exists_nodes_of_compileCodec (h : compileCodec ctx cls = .ok codec) :
    ∃ nodes, wireSchema ctx cls.fields = .ok nodes ∧
      (∀ v, codec.write v = (do
        let head ← cls.prelude ctx
        let body ← writeSchema ctx nodes v
        pure (head ++ body))) ∧
      codec.read = .obj cls.name <$> readSchema ctx nodes (defaults cls.fields) := by
  obtain ⟨nodes, hnodes, h⟩ := except_bind_eq_ok.1 h
  obtain rfl := except_pure_eq_ok.1 h
  exact ⟨nodes, hnodes, fun _ => rfl, rfl⟩

theorem writes_only_plan
    (hcomp : compileCodec ctx cls = .ok codec) (hprelude : (cls.prelude ctx).isOk = true)
    (hfits : Fits ctx cls.ann v) (habs : Absent ctx cls.ann v) :
    (∃ bs, cls.toWriter ctx v = .ok bs) ∧ ∃ e, codec.write v = .error e := by
  obtain ⟨nodes, hnodes, hwrite, -⟩ := exists_nodes_of_compileCodec hcomp
  rw [WireClass.ann] at hfits habs
  cases v <;> simp only [Fits] at hfits
  obtain ⟨head, hhead⟩ : ∃ head, cls.prelude ctx = .ok head := by
    cases h : cls.prelude ctx with
    | error e => simp [h, Except.isOk, Except.toBool] at hprelude
    | ok head => exact ⟨head, rfl⟩
  constructor
  · obtain ⟨body, hbody⟩ := writeFields_of_fits _ hfits.2
    exact ⟨head ++ body, except_bind_eq_ok.2 ⟨head, hhead, except_bind_eq_ok.2 ⟨body, hbody, rfl⟩⟩⟩
  · obtain ⟨e, he⟩ := (writes_fields_of_fits _ hnodes hfits.2).1 habs
    exact ⟨e, by rw [hwrite, hhead, he]; rfl⟩

/-- **The compiled codec agrees with the plan exactly where no text with `text_errors` can be
absent**: no object that the class writes has such text, and no stream brings its reader to
such text. -/
theorem agrees_iff {ctx : WireCtx} {cls : WireClass} {codec : CompiledCodec}
    (hdecl : Declared ctx cls.ann) (hcomp : compileCodec ctx cls = .ok codec) :
    Agrees ctx cls codec ↔
      ((cls.prelude ctx).isOk = true → ∀ v, Fits ctx cls.ann v → ¬ Absent ctx cls.ann v) ∧
        ¬ Exposes ctx cls.ann := by
  obtain ⟨nodes, hnodes, hwrite, hread⟩ := exists_nodes_of_compileCodec hcomp
  have hnode : wireNode ctx false cls.ann = .ok (.model cls.name (defaults cls.fields) nodes) := by
    rw [WireClass.ann, wireNode, hnodes]
    rfl
  have hcodec : codec.read = readNode ctx (.model cls.name (defaults cls.fields) nodes) := by
    rw [hread, readNode]
  constructor
  · intro h
    refine ⟨fun hprelude v hfits habs => ?_, fun hexp => ?_⟩
    · obtain ⟨⟨bs, hplan⟩, e, hcompiled⟩ := writes_only_plan hcomp hprelude hfits habs
      have hboth := (h.writes v hfits bs).2 hplan
      rw [hcompiled] at hboth
      cases hboth
    · obtain ⟨bs, a, htakes, hnever⟩ := splits_of_exposes hdecl hnode hexp
      have hsame := h.reads (bs ++ [])
      rw [accepted, accepted, hcodec, htakes []] at hsame
      rcases hplan : (cls.fromReader ctx).run wire (bs ++ []) with ⟨e | b, t⟩
      · rw [hplan] at hsame
        cases hsame
      · rw [hplan] at hsame
        cases hsame
        exact hnever [] a [] hplan rfl
  · rintro ⟨hpresent, hnot⟩
    refine ⟨fun v hfits bs => ?_, fun src => ?_⟩
    · cases hprelude : cls.prelude ctx with
      | error e =>
        rw [hwrite, WireClass.toWriter, hprelude]
        exact Iff.rfl
      | ok head =>
        have habs := hpresent (by rw [hprelude]; rfl) v hfits
        rw [WireClass.ann] at hfits habs
        cases v <;> simp only [Fits] at hfits
        rw [hwrite, WireClass.toWriter, (writes_fields_of_fits _ hnodes hfits.2).2 habs]
    · rw [accepted, hcodec, alike_of_not_exposes hdecl hnode hnot src]
      rfl

/-- `TraceLine` of `logs.py`. -/
def traceLine : WireClass where
  name := "TraceLine"
  fields := [
    ({ name := "pos", dflt := some (.atom (.int 0)) }, .atom .int),
    ({ name := "hint", lossless := true, dflt := some (.atom (.escaped [])) }, .atom .str)]

/-- At protocol 1.38, a trace entry is compiled to what its plan does. -/
theorem agrees_traceLine :
    ∃ codec, compileCodec ⟨294, []⟩ traceLine = .ok codec ∧ Agrees ⟨294, []⟩ traceLine codec := by
  have hzero : Takes readUInt64 (leBytes 8 0) 0 := takes_uint64 (by decide)
  have hpos : ∃ bs x, Takes (readAtom .int) bs x :=
    ⟨_, _, hzero.map fun n : Nat => Atom.int n⟩
  have hdecl : Declared ⟨294, []⟩ traceLine.ann := by
    simp [traceLine, WireClass.ann, Declared, DeclaredFields, hpos]
  obtain ⟨codec, hcomp⟩ := exists_compileCodec hdecl
  refine ⟨codec, hcomp, (agrees_iff hdecl hcomp).2 ⟨fun _ v _ habs => ?_, fun hexp => ?_⟩⟩
  · cases v <;> simp [traceLine, WireClass.ann, Absent, AbsentFields, Ann.isOptionalStr] at habs
  · simp [traceLine, WireClass.ann, Exposes, ExposesFields, Ann.isOptionalStr] at hexp

/-- `self.type == FieldType(n)`. -/
def hasFieldType (n : Nat) (attrs : Attrs) : Bool :=
  match Dict.get? attrs "type" with
  | some (.atom type) => type == .int n
  | _ => false

/-- `ActivityField` of `logs.py`; `FieldType` has the members `INT = 0` and `STRING = 1`. -/
def activityField : WireClass where
  name := "ActivityField"
  fields := [
    ({ name := "type", dflt := some (.atom (.int 0)) }, .atom (.intEnum [0, 1])),
    ({ name := "valint", dflt := some .none,
       wireDependsOn := some (hasFieldType 0) },
      .optional (.atom .int)),
    ({ name := "valstr", dflt := some .none, lossless := true,
       wireDependsOn := some (hasFieldType 1) },
      .optional (.atom .str))]

/-- A field of type `STRING` without a string. -/
def emptyString : Value :=
  .obj "ActivityField" [("type", .atom (.int 1)), ("valint", .none), ("valstr", .none)]

/-- **A string that is absent.**  The plan writes the empty string for it and reads `None`
back; the compiled codec raises `AttributeError`, and reads the empty string. -/
theorem activityField_parts :
    Fits ⟨294, []⟩ activityField.ann emptyString ∧
      ∃ codec, compileCodec ⟨294, []⟩ activityField = .ok codec ∧
        codec.write emptyString = .error (.attribute "encode") ∧
        activityField.toWriter ⟨294, []⟩ emptyString = .ok (leBytes 8 1 ++ leBytes 8 0) ∧
        accepted (activityField.fromReader ⟨294, []⟩) (leBytes 8 1 ++ leBytes 8 0) =
          some (emptyString, []) ∧
        accepted codec.read (leBytes 8 1 ++ leBytes 8 0) =
          some (emptyString.modelCopy [("valstr", .atom (.escaped []))], []) := by
  refine ⟨?_, _, rfl, ?_, ?_, ?_, ?_⟩
  · have hone : FitsAtom (.intEnum [0, 1]) (.int 1) := ⟨by decide, by decide⟩
    simp only [activityField, WireClass.ann, emptyString, Fits, FitsFields]
    refine ⟨trivial, fun _ => ⟨_, rfl, ?_⟩, fun h => absurd h (by decide), fun _ => ⟨_, rfl, ?_⟩,
      trivial⟩
    · simpa [Fits] using hone
    · trivial
  · rfl
  · rfl
  · rfl
  · rfl

end Pynixd
