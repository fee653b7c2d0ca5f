import Pynixd.Wire.Values

/-!
# Reading back what a plan wrote

A wire model is written field by field and read field by field, and nothing on the wire
says which fields are there: writer and reader decide it alike, or the stream is lost.
The flags `serialize` and `deserialize` are two flags, and `wire_depends_on` is asked of
the whole object on one side and of what was read so far on the other.

* `takes_back` — where every field is **read exactly when it is written**, the plan's reader takes
  exactly the bytes that the plan's writer wrote, answers `readBack`, and no proper front of the
  bytes is enough;
* `logNext_lost` — a log message, whose code is written and not read, is not mirrored.
-/

namespace Pynixd

open List TokenStream

/-! ## What comes back -/

/-- What comes back of text with `text_errors`: `None` for the empty string. -/
def backLossless : Ann → Value → Value
  | .optional (.atom .str), .atom (.escaped []) => .none
  | _, v => v

mutual
/-- What comes back of a value: `None` for an empty optional scalar, and of an object the
defaults, with the fields that were written. -/
def readBack (ctx : WireCtx) : Ann → Value → Value
  | .optional (.atom (.scalar _)), v =>
    match v with
    | .atom (.scalar held) => if held = "" then .none else v
    | _ => v
  | .optional inner, v => readBack ctx inner v
  | .list elem, .list items => .list (items.map (readBack ctx elem))
  | .dict _ value, .dict items =>
    .dict (items.map fun item => (item.1, readBack ctx value item.2))
  | .model cls fields, .obj _ attrs =>
    .obj cls (Dict.update (defaults fields) (backFields ctx fields attrs))
  | _, v => v

/-- The fields that an object with these attributes writes, as they come back. -/
def backFields (ctx : WireCtx) : List (FieldMeta × Ann) → Attrs → Attrs
  | [], _ => []
  | (m, ann) :: fields, attrs =>
    if m.kept ctx && m.serialize && m.wanted attrs then
      match Dict.get? attrs m.name with
      | some v =>
        (m.name, if m.lossless then backLossless ann v else readBack ctx ann v) ::
          backFields ctx fields attrs
      | none => backFields ctx fields attrs
    else backFields ctx fields attrs
end

/-! ## The attributes that come back -/

variable {ann : Ann} {attrs : Attrs} {bs : Bytes} {m : FieldMeta}
  {fields : List (FieldMeta × Ann)} {cls : String} {α : Type} {v : Value} {ctx : WireCtx}

/-! ## Where the reader decides as the writer -/

/-- A scalar comes back from its own wire string. -/
def MirroredAtom : AtomAnn → Atom → Prop
  | .scalar cls, .scalar held => cls.fromWire (cls.toWire held) = .ok held
  | _, _ => True

mutual
/-- Every field of the value is read exactly when it is written; scalars, and nested models
with a codec of their own, come back from what they write. -/
def Mirrored (ctx : WireCtx) : Ann → Value → Prop
  | .atom a, .atom x => MirroredAtom a x
  | .optional (.atom (.scalar cls)), .none => cls.fromWire "" = .ok ""
  | .optional inner, v => Mirrored ctx inner v
  | .list elem, .list items => ∀ v ∈ items, Mirrored ctx elem v
  | .set elem, .set members => ∀ x ∈ members, MirroredAtom elem x
  | .dict key value, .dict items =>
    ∀ item ∈ items, MirroredAtom key item.1 ∧ Mirrored ctx value item.2
  | .model _ fields, .obj _ attrs => MirroredFields ctx fields attrs (defaults fields)
  | .custom codec, v => ∀ bs, codec.toWriter ctx v = .ok bs → Takes (codec.fromReader ctx) bs v
  | _, _ => True

/-- The fields of an object with these attributes, behind the ones that were read so far. -/
def MirroredFields (ctx : WireCtx) : List (FieldMeta × Ann) → Attrs → Attrs → Prop
  | [], _, _ => True
  | (m, ann) :: fields, attrs, soFar =>
    (m.kept ctx = true →
      (m.serialize && m.wanted attrs) = (m.deserialize && m.wanted soFar)) ∧
    if m.kept ctx && m.serialize && m.wanted attrs then
      ∀ v, Dict.get? attrs m.name = some v →
        (m.lossless = false → Mirrored ctx ann v) ∧
        MirroredFields ctx fields attrs (Dict.set soFar m.name
          (if m.lossless then backLossless ann v else readBack ctx ann v))
    else MirroredFields ctx fields attrs soFar
end

variable {inner : Ann} {attrs soFar : Attrs} {n : Int} {known : List String} {α β : Type}

theorem readBack_optional (ctx : WireCtx) (h : ¬ inner.IsScalar) (v : Value) :
    readBack ctx (.optional inner) v = readBack ctx inner v := by
  cases inner with
  | atom a =>
    cases a with
    | scalar cls => exact absurd ⟨cls, rfl⟩ h
    | _ => simp [readBack]
  | _ => simp [readBack]

theorem mirrored_optional (ctx : WireCtx) (h : ¬ inner.IsScalar) (v : Value) :
    Mirrored ctx (.optional inner) v = Mirrored ctx inner v := by
  cases inner with
  | atom a =>
    cases a with
    | scalar cls => exact absurd ⟨cls, rfl⟩ h
    | _ => simp [Mirrored]
  | _ => simp [Mirrored]

/-! ## One part at a time -/

theorem takes_writeUInt64 (h : writeUInt64 n = .ok bs) :
    Takes readUInt64 bs n.toNat ∧ (n.toNat : Int) = n := by
  unfold writeUInt64 at h
  split_ifs at h with hfits
  obtain rfl := Except.ok.inj h
  have hn : (n.toNat : Int) = n := Int.toNat_of_nonneg hfits.1
  exact ⟨takes_uint64 (by rwa [hn]), hn⟩

theorem takes_int (h : writeUInt64 n = .ok bs) :
    Takes ((fun k : Nat => Atom.int k) <$> readUInt64) bs (.int n) := by
  obtain ⟨htakes, hn⟩ := takes_writeUInt64 h
  simpa only [hn] using htakes.map fun k : Nat => Atom.int k

theorem takes_scalar {cls : ScalarClass} {held : String} {text : String}
    (hback : cls.fromWire text = .ok held) (h : writeString text = .ok bs) :
    Takes (refine readString cls.fromWire) bs held :=
  takes_refine (takes_string h) hback

theorem takes_atom {a : AtomAnn} {x : Atom} (hfits : FitsAtom a x)
    (hback : MirroredAtom a x) (h : writeAtom a x = .ok bs) : Takes (readAtom a) bs x := by
  cases a <;> cases x <;> simp only [FitsAtom] at hfits <;> simp only [writeAtom] at h
  case int.int n => exact takes_int h
  case wireUInt64.int n => exact takes_int h
  case intEnum.int members n =>
    obtain ⟨htakes, hn⟩ := takes_writeUInt64 h
    exact takes_refine htakes (by rw [if_pos hfits.2, hn])
  case str.str s => exact (takes_string h).map _
  case bool.bool b =>
    obtain rfl := Except.ok.inj h
    exact (takes_bool b).map _
  case bytes.bytes b => exact (takes_bytes h).map _
  case scalar.scalar cls held => exact (takes_scalar hback h).map _

theorem takes_lossless (hfits : FitsLossless ann v)
    (h : writeLossless ann v = .ok bs) : Takes (readLossless ann) bs (backLossless ann v) := by
  unfold FitsLossless at hfits
  split at hfits
  · exact (takes_bytes h).map _
  · next raw =>
    have htakes := (takes_bytes h).map fun b => if b = [] then Value.none else .atom (.escaped b)
    cases raw with
    | nil => exact htakes
    | cons b raw => exact htakes
  · exact (takes_bytes h).map fun b => if b = [] then Value.none else .atom (.escaped b)
  · exact hfits.elim

theorem takes_writeAll {write : α → Except WireError Bytes} {r : WireReader β}
    {back : α → β} {xs : List α} (h : writeAll write xs = .ok bs)
    (hpart : ∀ x ∈ xs, ∀ b, write x = .ok b → Takes r b (back x)) :
    Takes (replicate xs.length r) bs (xs.map back) := by
  induction xs generalizing bs with
  | nil =>
    obtain rfl := Except.ok.inj h
    exact Reads.pure []
  | cons x xs ih =>
    obtain ⟨b, hb, h⟩ := except_bind_eq_ok.1 h
    obtain ⟨cs, hcs, h⟩ := except_bind_eq_ok.1 h
    obtain rfl := except_pure_eq_ok.1 h
    have hx := hpart x (by simp) b hb
    have hxs := ih hcs fun y hy => hpart y (by simp [hy])
    exact hx.bind (hxs.bind_pure rfl)

theorem takes_writeCounted {α β γ : Type} {write : α → Except WireError Bytes} {r : WireReader β}
    {back : α → β} {xs : List α} (g : List β → γ) (h : writeCounted write xs = .ok bs)
    (hpart : ∀ x ∈ xs, ∀ b, write x = .ok b → Takes r b (back x)) :
    Takes (readUInt64 >>= fun n => g <$> replicate n r) bs (g (xs.map back)) := by
  obtain ⟨n, hn, h⟩ := except_bind_eq_ok.1 h
  obtain ⟨cs, hcs, h⟩ := except_bind_eq_ok.1 h
  obtain rfl := except_pure_eq_ok.1 h
  exact (takes_writeUInt64 hn).1.bind ((takes_writeAll hcs hpart).map g)

theorem eraseDups_of_nodup [DecidableEq α] {xs : List α} (h : xs.Nodup) : xs.eraseDups = xs := by
  induction xs with
  | nil => rfl
  | cons x xs ih =>
    rw [nodup_cons] at h
    have hfilter : xs.filter (fun y => !y == x) = xs := by
      apply filter_eq_self.2
      intro y hy
      simpa using fun heq : y = x => h.1 (heq ▸ hy)
    rw [eraseDups_cons, hfilter, ih h.2]

theorem takes_field {b : Bytes} (hv : Dict.get? attrs m.name = some v)
    (hb : fieldBytes ctx (.obj cls attrs) (m, ann) = .ok b)
    (hfits : m.lossless = true → FitsLossless ann v)
    (hann : m.lossless = false → writeAnn ctx ann v = .ok b →
      Takes (readAnn ctx ann) b (readBack ctx ann v)) :
    Takes (fieldReader ctx (m, ann)) b
      (if m.lossless then backLossless ann v else readBack ctx ann v) := by
  have hbytes : (if m.lossless then writeLossless ann v else writeAnn ctx ann v) = .ok b := by
    simp only [fieldBytes, Value.getattr, hv] at hb
    exact hb
  unfold fieldReader
  cases hl : m.lossless with
  | true =>
    simp only [hl, if_true] at hbytes ⊢
    exact takes_lossless (hfits hl) hbytes
  | false =>
    simp only [hl, Bool.false_eq_true, if_false] at hbytes ⊢
    exact hann hl hbytes

/-! ## The whole value -/

mutual
theorem takes_readBack {ctx : WireCtx} {ann : Ann} {v : Value} {bs : Bytes} (hfits : Fits ctx ann v)
    (hm : Mirrored ctx ann v) (h : writeAnn ctx ann v = .ok bs) :
    Takes (readAnn ctx ann) bs (readBack ctx ann v) := by
  match ann with
  | .atom a =>
    cases v <;> simp only [Fits] at hfits
    simp only [Mirrored] at hm
    simp only [writeAnn] at h
    simp only [readAnn, readBack]
    exact (takes_atom hfits hm h).map _
  | .optional inner =>
    by_cases hscalar : inner.IsScalar
    · obtain ⟨cls, rfl⟩ := hscalar
      rcases fits_optional_scalar hfits with rfl | ⟨held, rfl, -⟩
      · simp only [Mirrored] at hm
        simp only [writeAnn] at h
        simp only [readAnn, readBack]
        exact (takes_scalar hm h).map _
      · simp only [Mirrored, MirroredAtom] at hm
        simp only [writeAnn, writeAtom] at h
        simp only [readAnn, readBack]
        exact (takes_scalar hm h).map _
    · rw [fits_optional ctx hscalar] at hfits
      rw [mirrored_optional ctx hscalar] at hm
      rw [writeAnn_optional ctx hscalar] at h
      rw [readAnn_optional ctx hscalar, readBack_optional ctx hscalar]
      exact takes_readBack hfits hm h
  | .list elem =>
    cases v <;> simp only [Fits] at hfits
    simp only [Mirrored] at hm
    simp only [writeAnn] at h
    simp only [readAnn, readBack]
    exact takes_writeCounted Value.list h fun x hx b hb =>
      takes_readBack (hfits.2 x hx) (hm x hx) hb
  | .set elem =>
    cases v <;> simp only [Fits] at hfits
    simp only [Mirrored] at hm
    simp only [writeAnn] at h
    simp only [readAnn, readBack]
    have hback := takes_writeCounted (fun xs => Value.set xs.eraseDups) h fun x hx b hb =>
      takes_atom (hfits.2.2 x hx) (hm x hx) hb
    rwa [map_id', eraseDups_of_nodup hfits.2.1] at hback
  | .dict key value =>
    cases v <;> simp only [Fits] at hfits
    simp only [Mirrored] at hm
    simp only [writeAnn] at h
    simp only [readAnn, readBack]
    case dict items =>
      have hback := takes_writeCounted (fun items => Value.dict (Dict.update [] items)) h
        (r := do
          let k ← readAtom key
          let v ← readAnn ctx value
          pure (k, v)) fun item hitem b hb => by
        obtain ⟨k, hk, hb⟩ := except_bind_eq_ok.1 hb
        obtain ⟨c, hc, hb⟩ := except_bind_eq_ok.1 hb
        obtain rfl := except_pure_eq_ok.1 hb
        have hkey := takes_atom (hfits.2.2 item hitem).1 (hm item hitem).1 hk
        have hvalue := takes_readBack (hfits.2.2 item hitem).2 (hm item hitem).2 hc
        exact hkey.bind (hvalue.bind_pure rfl)
      rwa [Dict.update_eq_append (by simpa [Function.comp_def] using hfits.2.1)] at hback
  | .model cls fields =>
    cases v <;> simp only [Fits] at hfits
    simp only [Mirrored] at hm
    simp only [writeAnn] at h
    simp only [readAnn, readBack]
    exact (takes_backFields hfits.2 hm h).map _
  | .custom codec =>
    simp only [Mirrored] at hm
    simp only [writeAnn] at h
    simp only [readAnn, readBack]
    exact hm bs h

theorem takes_backFields {ctx : WireCtx} {fields : List (FieldMeta × Ann)} {cls : String}
    {attrs soFar : Attrs} {bs : Bytes} (hfits : FitsFields ctx fields attrs)
    (hm : MirroredFields ctx fields attrs soFar)
    (h : writeFields ctx fields (.obj cls attrs) = .ok bs) :
    Takes (readFields ctx fields soFar) bs (Dict.update soFar (backFields ctx fields attrs)) := by
  match fields with
  | [] =>
    obtain rfl : [] = bs := by simpa [writeFields] using h
    simp only [readFields, backFields]
    exact Reads.pure soFar
  | (m, ann) :: fields =>
    simp only [FitsFields] at hfits
    simp only [MirroredFields] at hm
    rw [writeFields_cons] at h
    rw [readFields_cons, backFields]
    cases hkept : m.kept ctx with
    | false =>
      simp only [hkept, Bool.false_and, Bool.false_eq_true, if_false] at h hm ⊢
      exact takes_backFields hfits.2 hm.2 h
    | true =>
      simp only [hkept, Bool.true_and, true_implies, Value.attrs] at h hm hfits ⊢
      rw [← hm.1]
      cases hsent : (m.serialize && m.wanted attrs) with
      | false =>
        simp only [hsent, Bool.false_eq_true, if_false] at h hm ⊢
        exact takes_backFields hfits.2 hm.2 h
      | true =>
        simp only [hsent, if_true, true_implies] at h hm hfits ⊢
        obtain ⟨⟨v, hv, hval⟩, hfits⟩ := hfits
        obtain ⟨hann, hmore⟩ := hm.2 v hv
        obtain ⟨b, hb, h⟩ := except_bind_eq_ok.1 h
        obtain ⟨cs, hcs, h⟩ := except_bind_eq_ok.1 h
        obtain rfl := except_pure_eq_ok.1 h
        rw [hv]
        have hfield := takes_field hv hb (fun hl => by simpa [hl] using hval) fun hl hw =>
          takes_readBack (by simpa [hl] using hval) (hann hl) hw
        exact hfield.bind (takes_backFields hfits hmore hcs)
end

/-! ## Classes whose objects are mirrored -/

/-- The field looks at no other attributes to decide whether it is there. -/
def FieldMeta.LooksAt (m : FieldMeta) (names : List String) : Prop :=
  ∀ a b, (∀ n ∈ names, Dict.get? a n = Dict.get? b n) → m.wanted a = m.wanted b

/-- A field that is on the wire whatever the object is, and comes back as it was. -/
def FieldMeta.isSure (m : FieldMeta) (ctx : WireCtx) : Ann → Bool
  | .atom _ => m.kept ctx && m.serialize && m.wireDependsOn.isNone && !m.lossless
  | _ => false

/-- Every field is both written and read or neither, and looks at sure fields before it. -/
def LooksBack (ctx : WireCtx) : List String → List (FieldMeta × Ann) → Prop
  | _, [] => True
  | known, (m, ann) :: fields =>
    (m.kept ctx = true → m.serialize = m.deserialize ∧ m.LooksAt known) ∧
    LooksBack ctx (if m.isSure ctx ann then m.name :: known else known) fields

theorem FieldMeta.sent_of_isSure (h : m.isSure ctx ann = true) (attrs : Attrs) :
    (m.kept ctx && m.serialize && m.wanted attrs) = true := by
  cases ann <;> simp only [isSure, Bool.and_eq_true, Bool.false_eq_true] at h
  obtain ⟨⟨hsent, hnone⟩, -⟩ := h
  have hwanted : m.wanted attrs = true := by rw [wanted, Option.isNone_iff_eq_none.1 hnone]; rfl
  simp [hsent, hwanted]

theorem known_set (hv : Dict.get? attrs m.name = some v) (hnew : m.name ∉ known)
    (hknown : ∀ n ∈ known, Dict.get? attrs n = Dict.get? soFar n) :
    ∀ n ∈ if m.isSure ctx ann then m.name :: known else known,
      Dict.get? attrs n = Dict.get? (Dict.set soFar m.name
        (if m.lossless then backLossless ann v else readBack ctx ann v)) n := by
  have hold : ∀ n ∈ known, Dict.get? attrs n = Dict.get? (Dict.set soFar m.name
      (if m.lossless then backLossless ann v else readBack ctx ann v)) n := by
    intro n hn
    have hne : m.name ≠ n := fun heq => hnew (heq ▸ hn)
    rw [Dict.get?_set_of_ne _ _ hne]
    exact hknown n hn
  cases hsure : m.isSure ctx ann with
  | false => simpa using hold
  | true =>
    cases ann <;> simp only [FieldMeta.isSure, Bool.false_eq_true] at hsure
    simp only [if_true, mem_cons]
    rintro n (rfl | hn)
    · have hplain : m.lossless = false := by simpa using (Bool.and_eq_true_iff.1 hsure).2
      rw [hv, hplain]
      simp [readBack]
    · exact hold n hn

theorem mirroredFields_of_looksBack (hnames : (fields.map (·.1.name)).Nodup)
    (hnew : ∀ n ∈ known, n ∉ fields.map (·.1.name))
    (hknown : ∀ n ∈ known, Dict.get? attrs n = Dict.get? soFar n) (h : LooksBack ctx known fields)
    (hparts : ∀ f ∈ fields, f.1.lossless = false → ∀ v, Dict.get? attrs f.1.name = some v →
      Mirrored ctx f.2 v) : MirroredFields ctx fields attrs soFar := by
  induction fields generalizing soFar known with
  | nil => simp [MirroredFields]
  | cons f fields ih =>
    obtain ⟨m, ann⟩ := f
    simp only [map_cons, nodup_cons] at hnames
    simp only [map_cons, mem_cons, not_or] at hnew
    rw [LooksBack] at h
    have hparts' := fun f hf => hparts f (mem_cons_of_mem _ hf)
    have hnew' : ∀ n ∈ if m.isSure ctx ann then m.name :: known else known,
        n ∉ fields.map (·.1.name) := by
      intro n hn
      split_ifs at hn
      · rcases mem_cons.1 hn with rfl | hn
        · exact hnames.1
        · exact (hnew n hn).2
      · exact (hnew n hn).2
    refine ⟨fun hkept => ?_, ?_⟩
    · rw [(h.1 hkept).1, (h.1 hkept).2 attrs soFar hknown]
    · by_cases hsent : (m.kept ctx && m.serialize && m.wanted attrs) = true
      · rw [if_pos hsent]
        intro v hv
        refine ⟨fun hl => hparts (m, ann) (by simp) hl v hv, ?_⟩
        have hname : m.name ∉ known := fun hn => (hnew m.name hn).1 rfl
        exact ih hnames.2 hnew' (known_set hv hname hknown) h.2 hparts'
      · -- a sure field is always sent, so nothing new is known
        rw [if_neg hsent]
        have hsure : ¬ m.isSure ctx ann = true := fun hs => hsent (m.sent_of_isSure hs attrs)
        rw [if_neg hsure] at h hnew'
        exact ih hnames.2 hnew' hknown h.2 hparts'

/-- **A class is mirrored by its declaration**: its objects are, if their parts are. -/
theorem mirrored_of_looksBack {cls cls' : String} (hnames : (fields.map (·.1.name)).Nodup)
    (h : LooksBack ctx [] fields)
    (hparts : ∀ f ∈ fields, f.1.lossless = false → ∀ v, Dict.get? attrs f.1.name = some v →
      Mirrored ctx f.2 v) : Mirrored ctx (.model cls fields) (.obj cls' attrs) := by
  exact mirroredFields_of_looksBack hnames (by simp) (by simp) h hparts

/-- **The round trip of the interpreted codec.**  The plan writes the value; on every stream
that starts with what it wrote its reader answers what comes back and stops exactly behind
it; and on no proper front of what it wrote does the reader answer at all. -/
theorem takes_back {ctx : WireCtx} {ann : Ann} {v : Value} (hfits : Fits ctx ann v)
    (hm : Mirrored ctx ann v) :
    ∃ bs, writeAnn ctx ann v = .ok bs ∧
      (∀ rest, (readAnn ctx ann).run wire (bs ++ rest) = (.ok (readBack ctx ann v), rest)) ∧
      ∀ cs, cs <+: bs → cs ≠ bs → ∃ e t, (readAnn ctx ann).run wire cs = (.error e, t) := by
  obtain ⟨bs, hbs⟩ := writeAnn_of_fits hfits
  have htakes := takes_readBack hfits hm hbs
  exact ⟨bs, hbs, htakes, fun cs hfront hne => htakes.error_of_prefix hfront hne⟩

def optMicroseconds : Ann := .model "OptMicroseconds" [
  ({ name := "tag", dflt := some (.atom (.int 0)) }, .atom .int),
  ({ name := "value", dflt := some .none,
     wireDependsOn := some fun attrs =>
       match Dict.get? attrs "tag" with
       | some (.atom tag) => tag == .int 1
       | _ => false },
    .optional (.atom .int))]

/-- Five microseconds at protocol 1.38. -/
def fiveMicroseconds : Value :=
  .obj "OptMicroseconds" [("tag", .atom (.int 1)), ("value", .atom (.int 5))]

theorem takes_back_fiveMicroseconds :
    readBack ⟨294, []⟩ optMicroseconds fiveMicroseconds = fiveMicroseconds ∧
      ∃ bs, writeAnn ⟨294, []⟩ optMicroseconds fiveMicroseconds = .ok bs ∧
        ∀ rest, (readAnn ⟨294, []⟩ optMicroseconds).run wire (bs ++ rest) =
          (.ok fiveMicroseconds, rest) := by
  have hback : readBack ⟨294, []⟩ optMicroseconds fiveMicroseconds = fiveMicroseconds := rfl
  have hfits : Fits ⟨294, []⟩ optMicroseconds fiveMicroseconds := by
    simp only [optMicroseconds, fiveMicroseconds, Fits, FitsFields]
    refine ⟨trivial, fun _ => ⟨_, rfl, ?_⟩, fun _ => ⟨_, rfl, ?_⟩, trivial⟩
    · simp [Fits, FitsAtom, FitsUInt64]
    · simp [Fits, FitsAtom, FitsUInt64]
  have hm : Mirrored ⟨294, []⟩ optMicroseconds fiveMicroseconds := by
    apply mirrored_of_looksBack (by decide)
    · refine ⟨fun _ => ⟨rfl, fun a b _ => rfl⟩, fun _ => ⟨rfl, fun a b h => ?_⟩, trivial⟩
      have htag := h "tag" (by decide)
      simp only [FieldMeta.wanted, Option.all_some, htag]
    · intro f hf hl v hv
      simp only [mem_cons, not_mem_nil, or_false] at hf
      rcases hf with rfl | rfl <;> cases hv <;> simp [Mirrored, MirroredAtom]
  obtain ⟨bs, hbs, htakes, -⟩ := takes_back hfits hm
  exact ⟨hback, bs, hbs, fun rest => by rw [htakes rest, hback]⟩

def logNext : Ann := .model "LogNext" [
  ({ name := "code", deserialize := false, dflt := some (.atom (.int 0x6F6C6D67)) }, .atom .int),
  ({ name := "text", lossless := true, dflt := some (.atom (.escaped [])) }, .atom .str)]

/-- **A log message does not come back by itself**: its code is written and not read, so the
reader takes it for the length of the text. -/
theorem logNext_lost :
    let line : Value := .obj "LogNext"
      [("code", .atom (.int 0x6F6C6D67)), ("text", .atom (.escaped [104, 105]))]
    Fits ⟨294, []⟩ logNext line ∧
      ∃ bs, writeAnn ⟨294, []⟩ logNext line = .ok bs ∧
        ((readAnn ⟨294, []⟩ logNext).run wire bs).1.isOk = false := by
  refine ⟨?_, _, rfl, by decide +kernel⟩
  simp only [logNext, Fits, FitsFields]
  refine ⟨trivial, fun _ => ⟨_, rfl, ?_⟩, fun _ => ⟨_, rfl, ?_⟩, trivial⟩
  · simp [Fits, FitsAtom, FitsUInt64]
  · simp [FitsLossless, FitsUInt64]

end Pynixd
