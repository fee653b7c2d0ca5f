import Pynixd.Lib.Dict
import Pynixd.Wire.Io

/-!
# Declarative wire models

`nix_daemon_protocol/wire_message.py` derives a codec from the annotations of a
pydantic class.  A value is modelled as Python holds it: an object is a class name
and **the dictionary of its attributes**, and the codec reads and writes only the
attributes that the class declares.  That difference is what decides which bytes
`model_copy(update=...)` can change.

* `Value.modelCopy` — `model_copy(update=...)`, with `getattr_modelCopy`;
* `writeFields_congr` — a writer sees nothing but the declared fields.
-/

namespace Pynixd

open TokenStream

/-! ## Values -/

/-- A hashable value: what a set holds and what a dictionary is keyed by. -/
inductive Atom where
  | int (n : Int)
  | bool (b : Bool)
  | str (s : String)
  /-- A `str` decoded with `surrogateescape`, held as the bytes it encodes to. -/
  | escaped (raw : Bytes)
  | bytes (b : Bytes)
  /-- A domain scalar, by the string it holds. -/
  | scalar (held : String)
  deriving DecidableEq, Repr

/-- A Python value.  A set is the list of its members without repetition, in the
order they were read. -/
inductive Value where
  | none
  | atom (a : Atom)
  | list (items : List Value)
  | set (members : List Atom)
  | dict (items : List (Atom × Value))
  /-- An object: its class, and its `__dict__`. -/
  | obj (cls : String) (attrs : List (String × Value))
  deriving Repr

/-- The `__dict__` of an object. -/
abbrev Attrs := List (String × Value)

namespace Value

/-- `getattr(value, name)`. -/
def getattr : Value → String → Except WireError Value
  | .obj _ attrs, name =>
    match Dict.get? attrs name with
    | some v => .ok v
    | Option.none => .error (.attribute name)
  | _, name => .error (.attribute name)

/-- The `__dict__` of a value, which only an object has. -/
def attrs : Value → Attrs
  | .obj _ as => as
  | _ => []

/-- `value.model_copy(update=upd)`: a copy with exactly the named attributes set,
**declared by the class or not**. -/
def modelCopy (upd : Attrs) : Value → Value
  | .obj cls attrs => .obj cls (Dict.update attrs upd)
  | v => v

end Value

/-! ## Annotations -/

/-- A class with `from_wire` and `to_wire`: one Python value, one wire string. -/
structure ScalarClass where
  /-- `from_wire`, which may refuse the string. -/
  fromWire : String → Except WireError String
  toWire : String → String

inductive AtomAnn where
  | int
  | wireUInt64
  | intEnum (members : List Nat)
  | str
  | bool
  | bytes
  | scalar (cls : ScalarClass)

/-- `VersionMeta` of one field, with the name and the default pydantic holds. -/
structure FieldMeta where
  name : String
  minVersion : Option Nat := none
  maxVersion : Option Nat := none
  serialize : Bool := true
  deserialize : Bool := true
  wireDependsOn : Option (Attrs → Bool) := none
  needsFeatures : Option (List String) := none
  unlessFeatures : Option (List String) := none
  lossless : Bool := false
  /-- The default, or what the default factory makes. -/
  dflt : Option Value := none

/-- What a peer negotiated: the version (`0` filters nothing) and the features. -/
structure WireCtx where
  version : Nat
  features : List String
  deriving DecidableEq, Repr

/-- A nested `WireModel` that overrides `to_writer` and `from_reader`, by the two. -/
structure OwnCodec where
  toWriter : WireCtx → Value → Except WireError Bytes
  fromReader : WireCtx → WireReader Value

inductive Ann where
  | atom (a : AtomAnn)
  | optional (inner : Ann)
  | list (elem : Ann)
  | set (elem : AtomAnn)
  | dict (key : AtomAnn) (value : Ann)
  | model (cls : String) (fields : List (FieldMeta × Ann))
  /-- A nested `WireModel` with a codec of its own, such as `WireLogs`. -/
  | custom (codec : OwnCodec)

/-- The version and feature gates of `_wire_fields`. -/
def FieldMeta.kept (m : FieldMeta) (ctx : WireCtx) : Bool :=
  (ctx.version == 0 ||
    (m.minVersion.all (· ≤ ctx.version) && m.maxVersion.all (ctx.version ≤ ·))) &&
  m.needsFeatures.all (·.all (· ∈ ctx.features)) &&
  m.unlessFeatures.all (·.all (· ∉ ctx.features))

/-- The condition that a field puts on the object it belongs to. -/
def FieldMeta.wanted (m : FieldMeta) (attrs : Attrs) : Bool :=
  m.wireDependsOn.all (· attrs)

/-- The defaults of a class, in declaration order. -/
def defaults (fields : List (FieldMeta × Ann)) : Attrs :=
  fields.filterMap fun f => f.1.dflt.map fun v => (f.1.name, v)

/-! ## Reading -/

/-- Readers of one wire number or one wire string. -/
def readAtom : AtomAnn → WireReader Atom
  | .int => (fun n => .int (n : Int)) <$> readUInt64
  | .wireUInt64 => (fun n => .int (n : Int)) <$> readUInt64
  | .intEnum members => refine readUInt64 fun n =>
    if n ∈ members then .ok (.int (n : Int)) else .error (.invalidEnum n)
  | .str => .str <$> readString
  | .bool => .bool <$> readBool
  | .bytes => .bytes <$> readBytes
  | .scalar cls => .scalar <$> refine readString cls.fromWire

/-- `_read_optional_scalar`: an absent scalar travels as the empty string. -/
def readOptionalScalar (cls : ScalarClass) : WireReader Value :=
  (fun held => if held = "" then Value.none else .atom (.scalar held)) <$>
    refine readString cls.fromWire

/-- `_lossless_reader` and `_lossless_optional_reader`. -/
def readLossless : Ann → WireReader Value
  | .atom .str => (fun b => .atom (.escaped b)) <$> readBytes
  | .optional (.atom .str) =>
    (fun b => if b = [] then Value.none else .atom (.escaped b)) <$> readBytes
  | _ => .fail .type

mutual
def readAnn (ctx : WireCtx) : Ann → WireReader Value
  | .atom a => .atom <$> readAtom a
  | .optional (.atom (.scalar cls)) => readOptionalScalar cls
  | .optional inner => readAnn ctx inner
  | .list elem => do
    let n ← readUInt64
    .list <$> replicate n (readAnn ctx elem)
  | .set elem => do
    let n ← readUInt64
    (fun xs => .set xs.eraseDups) <$> replicate n (readAtom elem)
  | .dict key value => do
    let n ← readUInt64
    let items ← replicate n do
      let k ← readAtom key
      let v ← readAnn ctx value
      pure (k, v)
    pure (.dict (Dict.update [] items))
  | .model cls fields => .obj cls <$> readFields ctx fields (defaults fields)
  | .custom codec => codec.fromReader ctx

/-- The read steps of `_wire_plan`, over the attributes set so far. -/
def readFields (ctx : WireCtx) : List (FieldMeta × Ann) → Attrs → WireReader Attrs
  | [], attrs => pure attrs
  | (m, ann) :: fields, attrs =>
    if m.kept ctx && m.deserialize && m.wanted attrs then do
      let v ← if m.lossless then readLossless ann else readAnn ctx ann
      readFields ctx fields (Dict.set attrs m.name v)
    else
      readFields ctx fields attrs
end

/-- The reader of one field, its conditions aside. -/
def fieldReader (ctx : WireCtx) (f : FieldMeta × Ann) : WireReader Value :=
  if f.1.lossless then readLossless f.2 else readAnn ctx f.2

theorem readFields_cons (ctx : WireCtx) (f : FieldMeta × Ann) (fields : List (FieldMeta × Ann))
    (attrs : Attrs) : readFields ctx (f :: fields) attrs =
      if f.1.kept ctx && f.1.deserialize && f.1.wanted attrs then
        fieldReader ctx f >>= fun v => readFields ctx fields (Dict.set attrs f.1.name v)
      else readFields ctx fields attrs := by
  obtain ⟨m, ann⟩ := f
  cases hl : m.lossless <;> simp [readFields, fieldReader, hl]

/-! ## Writing -/

/-- Writers of one wire number or one wire string. -/
def writeAtom : AtomAnn → Atom → Except WireError Bytes
  | .int, .int n => writeUInt64 n
  | .wireUInt64, .int n => writeUInt64 n
  | .intEnum _, .int n => writeUInt64 n
  | .str, .str s => writeString s
  | .bool, .bool b => .ok (writeBool b)
  | .bytes, .bytes b => writeBytes b
  | .scalar cls, .scalar held => writeString (cls.toWire held)
  | _, _ => .error .type

/-- `_lossless_writer` and `_lossless_optional_writer`. -/
def writeLossless : Ann → Value → Except WireError Bytes
  | .atom .str, .atom (.escaped raw) => writeBytes raw
  | .optional (.atom .str), .atom (.escaped raw) => writeBytes raw
  | .optional (.atom .str), .none => writeBytes []
  | _, _ => .error .type

/-- The parts of a container, written one after the other. -/
def writeAll {α : Type} (write : α → Except WireError Bytes) : List α → Except WireError Bytes
  | [] => .ok []
  | x :: xs => do
    let b ← write x
    let bs ← writeAll write xs
    pure (b ++ bs)

/-- A container: the number of its parts, then the parts. -/
def writeCounted {α : Type} (write : α → Except WireError Bytes) (xs : List α) :
    Except WireError Bytes := do
  let n ← writeUInt64 xs.length
  let bs ← writeAll write xs
  pure (n ++ bs)

mutual
def writeAnn (ctx : WireCtx) : Ann → Value → Except WireError Bytes
  | .atom a, .atom x => writeAtom a x
  -- `write_string` prints what it is given
  | .atom .str, .none => writeString "None"
  | .optional (.atom (.scalar _)), .none => writeString ""
  | .optional inner, v => writeAnn ctx inner v
  | .list elem, .list items => writeCounted (writeAnn ctx elem) items
  | .set elem, .set members => writeCounted (writeAtom elem) members
  | .dict key value, .dict items => writeCounted (fun item => do
    let k ← writeAtom key item.1
    let v ← writeAnn ctx value item.2
    pure (k ++ v)) items
  | .model _ fields, .obj cls attrs => writeFields ctx fields (.obj cls attrs)
  | .custom codec, v => codec.toWriter ctx v
  | _, _ => .error .type

/-- `_write_body`: the write steps of `_wire_plan`. -/
def writeFields (ctx : WireCtx) : List (FieldMeta × Ann) → Value → Except WireError Bytes
  | [], _ => .ok []
  | (m, ann) :: fields, obj =>
    if m.kept ctx && m.serialize && m.wanted obj.attrs then do
      let v ← obj.getattr m.name
      let b ← if m.lossless then writeLossless ann v else writeAnn ctx ann v
      let bs ← writeFields ctx fields obj
      pure (b ++ bs)
    else
      writeFields ctx fields obj
end

/-! ## What `model_copy` can change -/

namespace Value

theorem getattr_modelCopy (v : Value) {upd : Attrs} {name : String}
    (h : name ∉ upd.map Prod.fst) : (v.modelCopy upd).getattr name = v.getattr name := by
  cases v with
  | obj cls attrs => simp only [modelCopy, getattr, Dict.get?_update_of_not_mem attrs upd h]
  | _ => rfl

theorem getattr_modelCopy_self (cls : String) (attrs : Attrs) (name : String) (x : Value) :
    ((Value.obj cls attrs).modelCopy [(name, x)]).getattr name = .ok x := by
  simp [modelCopy, getattr, Dict.update]

theorem modelCopy_modelCopy_self (v : Value) (name : String) (x y : Value) :
    (v.modelCopy [(name, x)]).modelCopy [(name, y)] = v.modelCopy [(name, y)] := by
  cases v with
  | obj cls attrs => simp [modelCopy, Dict.update, Dict.set_set]
  | _ => rfl

theorem eq_obj_of_getattr {v x : Value} {name : String} (h : v.getattr name = .ok x) :
    ∃ cls attrs, v = .obj cls attrs := by
  cases v with
  | obj cls attrs => exact ⟨cls, attrs, rfl⟩
  | _ => simp [getattr] at h

end Value

/-- The bytes of one field of an object, its conditions aside. -/
def fieldBytes (ctx : WireCtx) (obj : Value) (f : FieldMeta × Ann) : Except WireError Bytes := do
  let v ← obj.getattr f.1.name
  if f.1.lossless then writeLossless f.2 v else writeAnn ctx f.2 v

theorem writeFields_nil (ctx : WireCtx) (obj : Value) : writeFields ctx [] obj = .ok [] := by
  simp only [writeFields]

theorem writeFields_cons (ctx : WireCtx) (f : FieldMeta × Ann) (fields : List (FieldMeta × Ann))
    (obj : Value) : writeFields ctx (f :: fields) obj =
      if f.1.kept ctx && f.1.serialize && f.1.wanted obj.attrs then do
        let b ← fieldBytes ctx obj f
        let bs ← writeFields ctx fields obj
        pure (b ++ bs)
      else writeFields ctx fields obj := by
  obtain ⟨m, ann⟩ := f
  cases hl : m.lossless <;> simp [writeFields, fieldBytes, hl]

/-- **A writer sees nothing but the declared fields**: two objects whose fields have
the same bytes, and meet the same conditions, are written alike. -/
theorem writeFields_congr (ctx : WireCtx) {fields : List (FieldMeta × Ann)} {u v : Value}
    (hbytes : ∀ f ∈ fields, fieldBytes ctx u f = fieldBytes ctx v f)
    (hwant : ∀ f ∈ fields, f.1.wanted u.attrs = f.1.wanted v.attrs) :
    writeFields ctx fields u = writeFields ctx fields v := by
  induction fields with
  | nil => simp only [writeFields_nil]
  | cons f fields ih =>
    have ih' := ih (fun g hg => hbytes g (by simp [hg])) (fun g hg => hwant g (by simp [hg]))
    rw [writeFields_cons, writeFields_cons, hbytes f (by simp), hwant f (by simp), ih']

variable {bs : Bytes} {f : FieldMeta × Ann} {fs gs : List (FieldMeta × Ann)} {obj v : Value}

theorem fieldBytes_modelCopy (ctx : WireCtx) (obj : Value) {upd : Attrs}
    (h : f.1.name ∉ upd.map Prod.fst) :
    fieldBytes ctx (obj.modelCopy upd) f = fieldBytes ctx obj f := by
  simp only [fieldBytes, obj.getattr_modelCopy h]

theorem writeFields_append (ctx : WireCtx) : writeFields ctx (fs ++ gs) obj = .ok bs ↔
      ∃ a b, writeFields ctx fs obj = .ok a ∧ writeFields ctx gs obj = .ok b ∧ bs = a ++ b := by
  induction fs generalizing bs with
  | nil => simp [writeFields_nil]
  | cons f fs ih =>
    rw [List.cons_append, writeFields_cons, writeFields_cons]
    split_ifs with h
    · simp only [except_bind_eq_ok, except_pure_eq_ok, ih]
      constructor
      · rintro ⟨c, hc, _, ⟨a, b, ha, hb, rfl⟩, rfl⟩
        exact ⟨c ++ a, b, ⟨c, hc, a, ha, rfl⟩, hb, by rw [List.append_assoc]⟩
      · rintro ⟨_, b, ⟨c, hc, a, ha, rfl⟩, hb, rfl⟩
        exact ⟨c, hc, a ++ b, ⟨a, b, ha, hb, rfl⟩, by rw [List.append_assoc]⟩
    · exact ih

/-- A field that every version, every peer and every object writes. -/
def FieldMeta.Always (m : FieldMeta) : Prop :=
  m.wireDependsOn = none ∧ m.serialize = true ∧ ∀ ctx, m.kept ctx = true

/-- Around a field that is always written, the bytes of an object are what the
fields before it write, its own bytes, and what the fields after it write. -/
theorem writeFields_around (ctx : WireCtx) (hf : f.1.Always) :
    writeFields ctx (fs ++ f :: gs) obj = .ok bs ↔
      ∃ pre b post, writeFields ctx fs obj = .ok pre ∧ fieldBytes ctx obj f = .ok b ∧
        writeFields ctx gs obj = .ok post ∧ bs = pre ++ (b ++ post) := by
  obtain ⟨hdep, hser, hkept⟩ := hf
  have hcond : (f.1.kept ctx && f.1.serialize && f.1.wanted obj.attrs) = true := by
    simp [hkept, hser, FieldMeta.wanted, hdep]
  rw [writeFields_append]
  simp only [writeFields_cons, if_pos hcond, except_bind_eq_ok, except_pure_eq_ok]
  constructor
  · rintro ⟨pre, _, hpre, ⟨b, hb, post, hpost, rfl⟩, rfl⟩
    exact ⟨pre, b, post, hpre, hb, hpost, rfl⟩
  · rintro ⟨pre, b, post, hpre, hb, hpost, rfl⟩
    exact ⟨pre, _, hpre, ⟨b, hb, post, hpost, rfl⟩, rfl⟩

/-- **Replacing one declared attribute replaces exactly its own bytes.** -/
theorem writeFields_modelCopy (ctx : WireCtx) {obj v v' : Value} {pre post b' : Bytes}
    (hf : f.1.Always) (hname : ∀ g ∈ fs ++ gs, g.1.name ≠ f.1.name ∧ g.1.wireDependsOn = none)
    (hobj : obj.getattr f.1.name = .ok v)
    (hpre : writeFields ctx fs obj = .ok pre) (hpost : writeFields ctx gs obj = .ok post)
    (hb' : (if f.1.lossless then writeLossless f.2 v' else writeAnn ctx f.2 v') = .ok b') :
    writeFields ctx (fs ++ f :: gs) (obj.modelCopy [(f.1.name, v')]) =
      .ok (pre ++ (b' ++ post)) := by
  have hrest : ∀ hs, hs ⊆ fs ++ gs → writeFields ctx hs (obj.modelCopy [(f.1.name, v')]) =
      writeFields ctx hs obj := by
    intro hs hsub
    refine writeFields_congr ctx (fun g hg => fieldBytes_modelCopy ctx obj ?_) (fun g hg => ?_)
    · simpa using (hname g (hsub hg)).1
    · simp [FieldMeta.wanted, (hname g (hsub hg)).2]
  obtain ⟨cls, attrs, rfl⟩ := Value.eq_obj_of_getattr hobj
  refine (writeFields_around ctx hf).2 ⟨pre, b', post, ?_, ?_, ?_, rfl⟩
  · rw [hrest fs (List.subset_append_left fs gs), hpre]
  · rw [fieldBytes, Value.getattr_modelCopy_self]
    exact hb'
  · rw [hrest gs (List.subset_append_right fs gs), hpost]

theorem writeAnn_model_eq_ok {ctx : WireCtx} {name : String} {fields : List (FieldMeta × Ann)} :
    writeAnn ctx (.model name fields) v = .ok bs ↔
      (∃ cls attrs, v = .obj cls attrs) ∧ writeFields ctx fields v = .ok bs := by
  cases v with
  | obj cls attrs => simp [writeAnn]
  | _ => simp [writeAnn]

end Pynixd
