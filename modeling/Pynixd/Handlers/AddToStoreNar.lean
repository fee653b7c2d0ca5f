import Pynixd.Protocol.Requests

/-!
# `AddToStoreNar`: what reaches the daemon for an untrusted client

The daemon sees pynixd as root, so `AddToStoreNarHandler` has to take the two
privileges of the request away itself: it clears `dont_check_sigs`, and it wants to
clear the `ultimate` mark of the path info.  The copy that clears the mark is a
copy of `req.info`, the *keyed* `ValidPathInfo`, while the mark is a field of the
record nested inside it.

* `forwardedHeader_eq` — the mark set on the keyed record is never written;
* `forwardedHeader_untrusted_iff` — the daemon sees the untrusted request **exactly
  when** the client had not marked the path ultimate.
-/

namespace Pynixd

inductive Role where
  | user
  | admin
  deriving DecidableEq, Repr

def Role.belowAdmin : Role → Bool
  | .user => true
  | .admin => false

section AddToStoreNar

variable (storeDir : String)

/-- What `AddToStoreNarHandler.handle` makes of the request it decoded. -/
def restrictRequest (role : Role) (req : Value) : Except WireError Value :=
  if role.belowAdmin then do
    let info ← req.getattr "info"
    pure (req.modelCopy [("dont_check_sigs", .atom (.int 0)),
      ("info", info.modelCopy [("ultimate", .atom (.bool false))])])
  else pure req

/-- The request header that the handler writes to the daemon's connection. -/
def forwardedHeader (role : Role) (conn : WireCtx) (req : Value) : Except WireError Bytes := do
  let req ← restrictRequest role req
  (addToStoreNarRequest storeDir).toWriter conn req

/-- The mark that the codec writes: `req.info.info.ultimate`. -/
def ultimateMark (req : Value) : Except WireError Value := do
  let keyed ← req.getattr "info"
  let info ← keyed.getattr "info"
  info.getattr "ultimate"

/-- The request that the daemon should see in place of `req`: signatures checked,
the path not ultimate, and every other field as the client sent it. -/
def untrusted (req : Value) : Except WireError Value := do
  let keyed ← req.getattr "info"
  let info ← keyed.getattr "info"
  let info := info.modelCopy [("ultimate", .atom (.bool false))]
  let keyed := keyed.modelCopy [("info", info)]
  pure (req.modelCopy [("dont_check_sigs", .atom (.int 0)), ("info", keyed)])

def untrustedHeader (conn : WireCtx) (req : Value) : Except WireError Bytes := do
  let req ← untrusted req
  (addToStoreNarRequest storeDir).toWriter conn req

/-! ## The copy of the keyed record changes no byte -/

theorem writeAnn_validPathInfo_modelCopy (ctx : WireCtx) (keyed x : Value) :
    writeAnn ctx (validPathInfo storeDir) (keyed.modelCopy [("ultimate", x)]) =
      writeAnn ctx (validPathInfo storeDir) keyed := by
  cases keyed with
  | obj cls attrs =>
    have hcopy : (Value.obj cls attrs).modelCopy [("ultimate", x)] =
        .obj cls (Dict.update attrs [("ultimate", x)]) := rfl
    simp only [validPathInfo, hcopy, writeAnn]
    rw [← hcopy]
    refine writeFields_congr ctx (fun f hf => fieldBytes_modelCopy ctx _ ?_) (fun f hf => ?_)
    · rcases List.mem_pair.1 hf with rfl | rfl <;> simp [plain]
    · rcases List.mem_pair.1 hf with rfl | rfl <;> rfl
  | _ => rfl

/-! ## Where the mark sits in the bytes -/

variable {bs : Bytes} {info req : Value} {ctx : WireCtx}

theorem writeAnn_unkeyed_around (h : writeAnn ctx (unkeyedValidPathInfo storeDir) info = .ok bs) :
    ∃ u pre post, info.getattr "ultimate" = .ok (.atom (.bool u)) ∧
      bs = pre ++ (writeBool u ++ post) ∧
      writeAnn ctx (unkeyedValidPathInfo storeDir)
        (info.modelCopy [("ultimate", .atom (.bool false))]) =
          .ok (pre ++ (writeBool false ++ post)) := by
  obtain ⟨⟨cls, attrs, rfl⟩, hfields⟩ := writeAnn_model_eq_ok.1 h
  obtain ⟨v, b, pre, post, hv, hb, hbs, hcopy⟩ := writeFields_plain_around
    (l := [withDefault "deriver" .none (.optional (pathAnn storeDir)),
      plain "nar_hash" (.atom (.scalar narHash)), plain "references" (pathSetAnn storeDir),
      plain "registration_time" (.atom .wireUInt64), plain "nar_size" (.atom .int)])
    (r := [plain "sigs" (.set (.scalar signature)), plain "ca" (.atom (.scalar contentAddress))])
    (by simp [plain, withDefault]) hfields
  obtain ⟨u, rfl, rfl⟩ : ∃ u, v = .atom (.bool u) ∧ b = writeBool u := by
    rcases v with _ | (_ | u | _ | _ | _ | _) | _ | _ | _ | _ <;>
      simp [writeAnn, writeAtom] at hb
    exact ⟨u, rfl, hb.symm⟩
  refine ⟨u, pre, post, hv, hbs, writeAnn_model_eq_ok.2 ⟨⟨_, _, rfl⟩, ?_⟩⟩
  exact hcopy _ _ (by simp [writeAnn, writeAtom])

theorem writeAnn_keyed_around {keyed : Value}
    (h : writeAnn ctx (validPathInfo storeDir) keyed = .ok bs) :
    ∃ info b pre post, keyed.getattr "info" = .ok info ∧
      writeAnn ctx (unkeyedValidPathInfo storeDir) info = .ok b ∧ bs = pre ++ (b ++ post) ∧
      ∀ info' b', writeAnn ctx (unkeyedValidPathInfo storeDir) info' = .ok b' →
        writeAnn ctx (validPathInfo storeDir) (keyed.modelCopy [("info", info')]) =
          .ok (pre ++ (b' ++ post)) := by
  obtain ⟨⟨cls, attrs, rfl⟩, hfields⟩ := writeAnn_model_eq_ok.1 h
  obtain ⟨info, b, pre, post, hinfo, hb, hbs, hcopy⟩ := writeFields_plain_around
    (l := [plain "path" (pathAnn storeDir)]) (r := []) (by simp [plain]) hfields
  refine ⟨info, b, pre, post, hinfo, hb, hbs, fun info' b' hb' => ?_⟩
  exact writeAnn_model_eq_ok.2 ⟨⟨_, _, rfl⟩, hcopy info' b' hb'⟩

theorem toWriter_around (h : (addToStoreNarRequest storeDir).toWriter ctx req = .ok bs) :
    ∃ keyed b pre post, req.getattr "info" = .ok keyed ∧
      writeAnn ctx (validPathInfo storeDir) keyed = .ok b ∧ bs = pre ++ (b ++ post) ∧
      ∀ keyed' b', writeAnn ctx (validPathInfo storeDir) keyed' = .ok b' →
        (addToStoreNarRequest storeDir).toWriter ctx (req.modelCopy [("info", keyed')]) =
          .ok (pre ++ (b' ++ post)) := by
  unfold RequestClass.toWriter at h ⊢
  split_ifs at h ⊢ with hversion
  obtain ⟨op, hop, body, hbody, hbs⟩ :=
    (by simpa only [except_bind_eq_ok, except_pure_eq_ok] using h :
      ∃ op, writeUInt64 (addToStoreNarRequest storeDir).op = .ok op ∧
        ∃ body, writeFields ctx (addToStoreNarRequest storeDir).fields req = .ok body ∧
          op ++ body = bs)
  obtain ⟨keyed, b, pre, post, hkeyed, hb, rfl, hcopy⟩ := writeFields_plain_around
    (l := []) (r := [plain "repair" (.atom .int), plain "dont_check_sigs" (.atom .int)])
    (by simp [plain]) hbody
  refine ⟨keyed, b, op ++ pre, post, hkeyed, hb, by rw [← hbs, List.append_assoc],
    fun keyed' b' hb' => ?_⟩
  simp only [except_bind_eq_ok, except_pure_eq_ok]
  exact ⟨op, hop, _, hcopy keyed' b' hb', by rw [List.append_assoc]⟩

/-! ## What the daemon sees -/

theorem modelCopy_pair (req x y : Value) :
    req.modelCopy [("dont_check_sigs", x), ("info", y)] =
      (req.modelCopy [("dont_check_sigs", x)]).modelCopy [("info", y)] := by
  cases req <;> rfl

theorem eq_of_getattr_info {req x y z info : Value} (hreq : req.getattr "info" = .ok x)
    (h : ((req.modelCopy [("dont_check_sigs", y)]).modelCopy [("info", z)]).getattr "info" =
      .ok info) : info = z := by
  obtain ⟨cls, attrs, rfl⟩ := Value.eq_obj_of_getattr hreq
  have hself : (((Value.obj cls attrs).modelCopy [("dont_check_sigs", y)]).modelCopy
      [("info", z)]).getattr "info" = .ok z := Value.getattr_modelCopy_self _ _ _ _
  rw [hself] at h
  injection h with hz
  exact hz.symm

/-- The header that is forwarded is the header of the request with its signature
flag cleared and its path info **as it was**. -/
theorem forwardedHeader_eq {role : Role} (hrole : role.belowAdmin = true) {conn : WireCtx}
    {out : Bytes} (h : forwardedHeader storeDir role conn req = .ok out) :
    ∃ keyed, req.getattr "info" = .ok keyed ∧
      (addToStoreNarRequest storeDir).toWriter conn
        (req.modelCopy [("dont_check_sigs", .atom (.int 0)), ("info", keyed)]) = .ok out := by
  simp only [forwardedHeader, restrictRequest, hrole, if_true, except_bind_eq_ok,
    except_pure_eq_ok] at h
  obtain ⟨_, ⟨keyed, hkeyed, rfl⟩, hout⟩ := h
  refine ⟨keyed, hkeyed, ?_⟩
  rw [modelCopy_pair] at hout ⊢
  obtain ⟨keyed', b, pre, post, hkeyed', hb, rfl, hcopy⟩ := toWriter_around storeDir hout
  obtain rfl := eq_of_getattr_info hkeyed hkeyed'
  rw [writeAnn_validPathInfo_modelCopy] at hb
  have hout' := hcopy keyed b hb
  rwa [Value.modelCopy_modelCopy_self] at hout'

/-- **The daemon sees the untrusted request exactly when the client had not marked the path
ultimate.**  For every role below `ADMIN`, every connection and every request: in the forwarded
header the two privileges are gone and every other field is as the client sent it if and only if the
mark of the nested record was already off. -/
theorem forwardedHeader_untrusted_iff {role : Role} (hrole : role.belowAdmin = true)
    {conn : WireCtx} {req : Value} {out : Bytes}
    (h : forwardedHeader storeDir role conn req = .ok out) :
    untrustedHeader storeDir conn req = .ok out ↔
      ultimateMark req = .ok (.atom (.bool false)) := by
  obtain ⟨keyed, hkeyed, hout⟩ := forwardedHeader_eq storeDir hrole h
  rw [modelCopy_pair] at hout
  obtain ⟨keyed', kb, pre, post, hkeyed', hkb, rfl, hcopy⟩ := toWriter_around storeDir hout
  obtain rfl := eq_of_getattr_info hkeyed hkeyed'
  obtain ⟨info, ib, kpre, kpost, hinfo, hib, rfl, hkcopy⟩ := writeAnn_keyed_around storeDir hkb
  obtain ⟨u, ipre, ipost, hu, rfl, hicopy⟩ := writeAnn_unkeyed_around storeDir hib
  have hmark : ultimateMark req = .ok (.atom (.bool u)) := by
    simp [ultimateMark, hkeyed, hinfo, hu, bind, Except.bind]
  have huntrusted : untrustedHeader storeDir conn req =
      .ok (pre ++ ((kpre ++ ((ipre ++ (writeBool false ++ ipost)) ++ kpost)) ++ post)) := by
    have hw := hcopy _ _ (hkcopy _ _ hicopy)
    rw [Value.modelCopy_modelCopy_self] at hw
    simp only [untrustedHeader, untrusted, hkeyed, hinfo, bind, Except.bind, pure, Except.pure]
    rw [modelCopy_pair]
    exact hw
  rw [huntrusted, hmark]
  simp only [Except.ok.injEq, List.append_cancel_left_eq, List.append_cancel_right_eq,
    Value.atom.injEq, Atom.bool.injEq]
  exact ⟨fun hb => (writeBool_inj hb).symm, fun hu => by rw [hu]⟩

end AddToStoreNar

/-- A request for an unsigned path that asks for no signature check. -/
def unsignedRequest (ultimate : Bool) : Value :=
  .obj "AddToStoreNar" [
    ("info", .obj "ValidPathInfo" [
      ("path", .atom (.scalar "p-x")),
      ("info", .obj "UnkeyedValidPathInfo" [
        ("deriver", .none), ("nar_hash", .atom (.scalar "h")), ("references", .set []),
        ("registration_time", .atom (.int 0)), ("nar_size", .atom (.int 0)),
        ("ultimate", .atom (.bool ultimate)), ("sigs", .set []),
        ("ca", .atom (.scalar ""))])]),
    ("repair", .atom (.int 0)), ("dont_check_sigs", .atom (.int 1))]

/-- With the mark off, the daemon sees the untrusted request. -/
theorem untrusted_of_unmarked : ∃ out,
    forwardedHeader "/nix/store" .user ⟨proto 1 38, []⟩ (unsignedRequest false) = .ok out ∧
      untrustedHeader "/nix/store" ⟨proto 1 38, []⟩ (unsignedRequest false) = .ok out := by
  have hsent : (forwardedHeader "/nix/store" .user ⟨proto 1 38, []⟩
      (unsignedRequest false)).isOk = true := by decide +kernel
  obtain ⟨out, hout⟩ := exists_ok_of_isOk hsent
  exact ⟨out, hout, (forwardedHeader_untrusted_iff "/nix/store" rfl hout).2 rfl⟩

/-- An untrusted client that marks its unsigned path ultimate reaches the daemon
with the mark: a header is forwarded, and it is not that of the untrusted request. -/
theorem forwardedHeader_keeps_ultimate :
    (forwardedHeader "/nix/store" .user ⟨proto 1 38, []⟩ (unsignedRequest true)).isOk = true ∧
      forwardedHeader "/nix/store" .user ⟨proto 1 38, []⟩ (unsignedRequest true) ≠
        untrustedHeader "/nix/store" ⟨proto 1 38, []⟩ (unsignedRequest true) := by
  decide +kernel

end Pynixd
