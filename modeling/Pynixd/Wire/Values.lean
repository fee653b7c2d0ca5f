import Pynixd.Wire.Message

/-!
# Values that a model can spell

Python does not check that an attribute holds what its annotation says.  `Fits` says it:
the value is of the annotated type, its numbers and lengths fit their `uint64`, and it is
`None` only where the wire has a spelling for that: an optional scalar, or text that is
declared with `text_errors`.

* `writeAnn_of_fits` — the interpreted codec **writes every value that fits**.
-/

namespace Pynixd

open TokenStream

/-! ## Values of an annotation -/

/-- A value of a hashable annotation. -/
def FitsAtom : AtomAnn → Atom → Prop
  | .int, .int n => FitsUInt64 n
  | .wireUInt64, .int n => FitsUInt64 n
  | .intEnum members, .int n => FitsUInt64 n ∧ n.toNat ∈ members
  | .str, .str s => FitsUInt64 (encodeUtf8 s).length
  | .bool, .bool _ => True
  | .bytes, .bytes b => FitsUInt64 b.length
  | .scalar cls, .scalar held => FitsUInt64 (encodeUtf8 (cls.toWire held)).length
  | _, _ => False

/-- A value of a field with `text_errors`. -/
def FitsLossless : Ann → Value → Prop
  | .atom .str, .atom (.escaped raw) => FitsUInt64 raw.length
  | .optional (.atom .str), .atom (.escaped raw) => FitsUInt64 raw.length
  | .optional (.atom .str), .none => True
  | _, _ => False

mutual
/-- A value of an annotation that the wire has a spelling for. -/
def Fits (ctx : WireCtx) : Ann → Value → Prop
  | .atom a, .atom x => FitsAtom a x
  | .optional (.atom (.scalar _)), .none => True
  | .optional inner, v => Fits ctx inner v
  | .list elem, .list items => FitsUInt64 items.length ∧ ∀ v ∈ items, Fits ctx elem v
  | .set elem, .set members =>
    FitsUInt64 members.length ∧ members.Nodup ∧ ∀ x ∈ members, FitsAtom elem x
  | .dict key value, .dict items =>
    FitsUInt64 items.length ∧ (items.map Prod.fst).Nodup ∧
      ∀ item ∈ items, FitsAtom key item.1 ∧ Fits ctx value item.2
  | .model cls fields, .obj cls' attrs => cls = cls' ∧ FitsFields ctx fields attrs
  | .custom codec, v => ∃ bs, codec.toWriter ctx v = .ok bs
  | _, _ => False

/-- Every field that an object with these attributes writes has a value. -/
def FitsFields (ctx : WireCtx) : List (FieldMeta × Ann) → Attrs → Prop
  | [], _ => True
  | (m, ann) :: fields, attrs =>
    ((m.kept ctx && m.serialize && m.wanted attrs) = true → ∃ v, Dict.get? attrs m.name = some v ∧
      if m.lossless then FitsLossless ann v else Fits ctx ann v) ∧ FitsFields ctx fields attrs
end

/-! ## Optional annotations -/

/-- The one annotation whose absence has a spelling of its own. -/
def Ann.IsScalar (ann : Ann) : Prop := ∃ cls, ann = .atom (.scalar cls)

theorem readAnn_optional (ctx : WireCtx) {inner : Ann} (h : ¬ inner.IsScalar) :
    readAnn ctx (.optional inner) = readAnn ctx inner := by
  cases inner with
  | atom a =>
    cases a with
    | scalar cls => exact absurd ⟨cls, rfl⟩ h
    | _ => simp [readAnn]
  | _ => simp [readAnn]

theorem writeAnn_optional (ctx : WireCtx) {inner : Ann} (h : ¬ inner.IsScalar) (v : Value) :
    writeAnn ctx (.optional inner) v = writeAnn ctx inner v := by
  cases inner with
  | atom a =>
    cases a with
    | scalar cls => exact absurd ⟨cls, rfl⟩ h
    | _ => simp [writeAnn]
  | _ => simp [writeAnn]

theorem fits_optional (ctx : WireCtx) {inner : Ann} (h : ¬ inner.IsScalar) (v : Value) :
    Fits ctx (.optional inner) v = Fits ctx inner v := by
  cases inner with
  | atom a =>
    cases a with
    | scalar cls => exact absurd ⟨cls, rfl⟩ h
    | _ => simp [Fits]
  | _ => simp [Fits]

theorem fits_optional_scalar {ctx : WireCtx} {cls : ScalarClass} {v : Value}
    (h : Fits ctx (.optional (.atom (.scalar cls))) v) :
    v = .none ∨ ∃ held, v = .atom (.scalar held) ∧
      FitsUInt64 (encodeUtf8 (cls.toWire held)).length := by
  cases v with
  | none => exact .inl rfl
  | atom x =>
    cases x with
    | scalar held => exact .inr ⟨held, rfl, by simpa [Fits, FitsAtom] using h⟩
    | _ => simp [Fits, FitsAtom] at h
  | _ => simp [Fits] at h

/-! ## Writing a value that fits -/

theorem writeBytes_of_fits {b : Bytes} (h : FitsUInt64 b.length) : ∃ bs, writeBytes b = .ok bs :=
  ⟨_, writeBytes_eq_ok.2 ⟨h, rfl⟩⟩

theorem writeUInt64_of_fits {n : Int} (h : FitsUInt64 n) :
    writeUInt64 n = .ok (leBytes 8 n.toNat) := by
  rw [writeUInt64, if_pos h]

theorem writeAtom_of_fits {a : AtomAnn} {x : Atom} (h : FitsAtom a x) :
    ∃ bs, writeAtom a x = .ok bs := by
  cases a <;> cases x <;> simp only [FitsAtom] at h <;> simp only [writeAtom]
  case int.int n => exact ⟨_, writeUInt64_of_fits h⟩
  case wireUInt64.int n => exact ⟨_, writeUInt64_of_fits h⟩
  case intEnum.int members n => exact ⟨_, writeUInt64_of_fits h.1⟩
  case str.str s => exact writeBytes_of_fits h
  case bool.bool b => exact ⟨_, rfl⟩
  case bytes.bytes b => exact writeBytes_of_fits h
  case scalar.scalar cls held => exact writeBytes_of_fits h

theorem writeLossless_of_fits {ann : Ann} {v : Value} (h : FitsLossless ann v) :
    ∃ bs, writeLossless ann v = .ok bs := by
  unfold FitsLossless at h
  split at h
  · exact writeBytes_of_fits h
  · exact writeBytes_of_fits h
  · exact writeBytes_of_fits (b := []) (by decide)
  · exact h.elim

theorem writeCounted_of_fits {α : Type} {write : α → Except WireError Bytes} {xs : List α}
    (hlen : FitsUInt64 xs.length) (h : ∀ x ∈ xs, ∃ bs, write x = .ok bs) :
    ∃ bs, writeCounted write xs = .ok bs := by
  have hall : ∃ bs, writeAll write xs = .ok bs := by
    clear hlen
    induction xs with
    | nil => exact ⟨[], rfl⟩
    | cons x xs ih =>
      obtain ⟨b, hb⟩ := h x (by simp)
      obtain ⟨bs, hbs⟩ := ih fun y hy => h y (by simp [hy])
      exact ⟨b ++ bs, except_bind_eq_ok.2 ⟨b, hb, except_bind_eq_ok.2 ⟨bs, hbs, rfl⟩⟩⟩
  obtain ⟨bs, hbs⟩ := hall
  obtain ⟨n, hn⟩ : ∃ n, writeUInt64 xs.length = .ok n := ⟨_, writeUInt64_of_fits hlen⟩
  exact ⟨n ++ bs, except_bind_eq_ok.2 ⟨n, hn, except_bind_eq_ok.2 ⟨bs, hbs, rfl⟩⟩⟩

mutual
/-- **The interpreted codec writes every value that fits.** -/
theorem writeAnn_of_fits {ctx : WireCtx} {ann : Ann} {v : Value} (h : Fits ctx ann v) :
    ∃ bs, writeAnn ctx ann v = .ok bs := by
  match ann with
  | .atom a =>
    cases v <;> simp only [Fits] at h
    simpa only [writeAnn] using writeAtom_of_fits h
  | .optional inner =>
    by_cases hscalar : inner.IsScalar
    · obtain ⟨cls, rfl⟩ := hscalar
      rcases fits_optional_scalar h with rfl | ⟨held, rfl, hheld⟩
      · exact writeBytes_of_fits (by decide)
      · simpa only [writeAnn, writeAtom, writeString] using writeBytes_of_fits hheld
    · rw [fits_optional ctx hscalar] at h
      rw [writeAnn_optional ctx hscalar]
      exact writeAnn_of_fits h
  | .list elem =>
    cases v <;> simp only [Fits] at h
    simp only [writeAnn]
    exact writeCounted_of_fits h.1 fun x hx => writeAnn_of_fits (h.2 x hx)
  | .set elem =>
    cases v <;> simp only [Fits] at h
    simp only [writeAnn]
    exact writeCounted_of_fits h.1 fun x hx => writeAtom_of_fits (h.2.2 x hx)
  | .dict key value =>
    cases v <;> simp only [Fits] at h
    simp only [writeAnn]
    apply writeCounted_of_fits h.1
    intro item hitem
    obtain ⟨k, hk⟩ := writeAtom_of_fits (h.2.2 item hitem).1
    obtain ⟨b, hb⟩ := writeAnn_of_fits (h.2.2 item hitem).2
    exact ⟨k ++ b, except_bind_eq_ok.2 ⟨k, hk, except_bind_eq_ok.2 ⟨b, hb, rfl⟩⟩⟩
  | .model cls fields =>
    cases v <;> simp only [Fits] at h
    simp only [writeAnn]
    exact writeFields_of_fits _ h.2
  | .custom codec => simpa only [Fits, writeAnn] using h

theorem writeFields_of_fits {ctx : WireCtx} {fields : List (FieldMeta × Ann)} (cls : String)
    {attrs : Attrs} (h : FitsFields ctx fields attrs) :
    ∃ bs, writeFields ctx fields (.obj cls attrs) = .ok bs := by
  match fields with
  | [] => exact ⟨[], by simp only [writeFields]⟩
  | (m, ann) :: fields =>
    simp only [FitsFields] at h
    obtain ⟨rest, hrest⟩ := writeFields_of_fits cls h.2
    rw [writeFields_cons]
    by_cases hwritten : (m.kept ctx && m.serialize && m.wanted attrs) = true
    · obtain ⟨v, hv, hfits⟩ := h.1 hwritten
      have hbytes : ∃ b, fieldBytes ctx (.obj cls attrs) (m, ann) = .ok b := by
        simp only [fieldBytes, Value.getattr, hv, bind, Except.bind]
        by_cases hl : m.lossless = true
        · rw [if_pos hl] at hfits ⊢
          exact writeLossless_of_fits hfits
        · rw [if_neg hl] at hfits ⊢
          exact writeAnn_of_fits hfits
      obtain ⟨b, hb⟩ := hbytes
      refine ⟨b ++ rest, (if_pos hwritten).trans ?_⟩
      rw [hb, hrest]
      rfl
    · exact ⟨rest, (if_neg hwritten).trans hrest⟩
end

/-! ## Wire models -/

mutual
/-- What makes an annotation one of a wire model, under what was negotiated: the fields of
a class have names of their own, `text_errors` stands on `str` and `str | None` only (on
anything else `_wire_plan` refuses the class), and every annotation has a value that can be
read. -/
def Declared (ctx : WireCtx) : Ann → Prop
  | .atom a => ∃ bs x, Takes (readAtom a) bs x
  | .optional inner => Declared ctx inner
  | .list elem => Declared ctx elem
  | .set _ => True
  | .dict _ value => Declared ctx value
  | .model _ fields => (fields.map (·.1.name)).Nodup ∧ DeclaredFields ctx fields
  | .custom codec => ∃ bs v, Takes (codec.fromReader ctx) bs v

def DeclaredFields (ctx : WireCtx) : List (FieldMeta × Ann) → Prop
  | [] => True
  | (m, ann) :: fields =>
    (m.kept ctx = true →
      if m.lossless then ann = .atom .str ∨ ann = .optional (.atom .str) else Declared ctx ann) ∧
    DeclaredFields ctx fields
end

end Pynixd
