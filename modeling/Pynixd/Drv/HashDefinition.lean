import Mathlib.Data.Nat.Pairing
import Pynixd.Drv.HashModulo

/-!
# The hash of a derivation, as Nix defines it

Nix hashes a fixed-output derivation by its outputs alone, and any other one by its text with
every input replaced by a map **from hashes to sets of names**.  The walk of
`pynixd/drv_hash.py` keeps a list of names under each hash, in the order of the inputs, and it
walks the inputs of a fixed-output derivation too.

* `moduloText_inj` — the text tells **what the inputs were replaced by**;
* `walkHashes_eq_nixHashes_iff` — the walk computes the hash of Nix **exactly when** it misses
  nothing that Nix does not need, and the names come in order wherever the hash depends on them;
* `answers_nix_iff` — the same for every call, in every interleaving.
-/

namespace Pynixd.DrvHash

open List Routines Relation Scan
open Goals (isFixedOutput)

/-! ## Sets of names -/

/-- The set of names under each hash, in order. -/
def setMap (found : List (String × String)) : InputHashes :=
  (sortedSet (found.map Prod.fst).toFinset).map fun digest =>
    (digest, sortedSet (Dict.valuesOf found digest).toFinset)

theorem sortedSet_pairwise (s : Finset String) : (sortedSet s).Pairwise (· < ·) := by
  obtain ⟨⟨l⟩, hl⟩ := s
  have hnodup : (l.insertionSort (· ≤ ·)).Nodup :=
    (perm_insertionSort _ l).nodup_iff.2 (Multiset.coe_nodup.1 hl)
  have hsorted := pairwise_insertionSort (· ≤ ·) l
  exact hsorted.imp₂ (fun a b hle hne => lt_of_le_of_ne hle hne) hnodup

theorem eq_sortedSet_iff (names : List String) :
    names = sortedSet names.toFinset ↔ names.Pairwise (· < ·) := by
  constructor
  · intro h
    rw [h]
    exact sortedSet_pairwise _
  · intro h
    have hnodup : names.Nodup := h.imp ne_of_lt
    have hperm : names.Perm (sortedSet names.toFinset) := by
      rw [perm_ext_iff_of_nodup hnodup ((sortedSet_pairwise _).imp ne_of_lt)]
      exact fun name => by rw [mem_sortedSet, mem_toFinset]
    exact hperm.eq_of_pairwise (fun a b _ _ hab hba => absurd (hab.trans hba) (lt_irrefl a)) h
      (sortedSet_pairwise _)

theorem insertionSort_group (found : List (String × String)) :
    (Dict.group found).insertionSort (·.1 ≤ ·.1) =
      (sortedSet (found.map Prod.fst).toFinset).map fun digest =>
        (digest, Dict.valuesOf found digest) := by
  symm
  have hkeys := Dict.nodup_keys_group found
  have hnodup : ((sortedSet (found.map Prod.fst).toFinset).map fun digest =>
      (digest, Dict.valuesOf found digest)).Nodup := by
    refine List.Nodup.map ?_ ((sortedSet_pairwise _).imp ne_of_lt)
    exact fun a b h => congrArg Prod.fst h
  apply eq_insertionSort
  · rw [perm_ext_iff_of_nodup hnodup (List.Nodup.of_map _ hkeys)]
    rintro ⟨digest, names⟩
    rw [← Dict.get?_eq_some_iff_mem hkeys, Dict.get?_group]
    simp only [mem_map, mem_sortedSet, mem_toFinset]
    constructor
    · rintro ⟨digest', hmem, heq⟩
      cases heq
      exact if_pos hmem
    · intro h
      split_ifs at h with hmem
      cases h
      exact ⟨digest, hmem, rfl⟩
  · rw [pairwise_map]
    exact (sortedSet_pairwise _).imp le_of_lt
  · intro a ha b hb hab
    have hget := (Dict.get?_eq_some_iff_mem hkeys).2 ha
    rw [hab, (Dict.get?_eq_some_iff_mem hkeys).2 hb] at hget
    exact Prod.ext hab (Option.some.inj hget).symm

theorem insertionSort_setMap (found : List (String × String)) :
    (setMap found).insertionSort (·.1 ≤ ·.1) = setMap found := by
  apply List.Pairwise.insertionSort_eq
  rw [setMap, pairwise_map]
  exact (sortedSet_pairwise _).imp le_of_lt

/-- **The list of names under each hash prints as the map of sets does** exactly when it is in
order and has no name twice. -/
theorem insertionSort_group_eq_iff {found : List (String × String)} :
    (Dict.group found).insertionSort (·.1 ≤ ·.1) = setMap found ↔
      ∀ digest, (Dict.valuesOf found digest).Pairwise (· < ·) := by
  rw [insertionSort_group, setMap, map_inj_left]
  constructor
  · intro h digest
    by_cases hmem : digest ∈ found.map Prod.fst
    · rw [← eq_sortedSet_iff]
      exact congrArg Prod.snd (h digest (mem_sortedSet.2 (mem_toFinset.2 hmem)))
    · rw [Dict.valuesOf_eq_nil hmem]
      exact List.Pairwise.nil
  · intro h digest _
    exact congrArg (Prod.mk digest) ((eq_sortedSet_iff _).2 (h digest))

/-! ## The hashes that are collected -/

/-- The hashes of some outputs of one derivation. -/
def named (known : Hashes) (names : List String) : Option (List (String × String)) :=
  names.mapM fun name => (Dict.get? known name).map (·, name)

theorem named_cons (known : Hashes) (name : String) (names : List String) :
    named known (name :: names) = (Dict.get? known name).bind fun digest =>
      (named known names).map ((digest, name) :: ·) := by
  rw [named, mapM_cons]
  cases Dict.get? known name with
  | none => rfl
  | some digest => cases hnames : named known names <;> rw [named] at hnames <;> simp [hnames]

theorem mem_named {known : Hashes} {names : List String} {here : List (String × String)}
    (h : named known names = some here) {pair : String × String} :
    pair ∈ here ↔ pair.2 ∈ names ∧ Dict.get? known pair.2 = some pair.1 := by
  induction names generalizing here with
  | nil =>
    cases h
    simp
  | cons name names ih =>
    rw [named_cons] at h
    obtain ⟨digest, hdigest, hrest⟩ := Option.bind_eq_some_iff.1 h
    obtain ⟨here', hhere, rfl⟩ := Option.map_eq_some_iff.1 hrest
    obtain ⟨x, y⟩ := pair
    rw [mem_cons, mem_cons, ih hhere, or_and_right]
    refine or_congr ?_ Iff.rfl
    constructor
    · intro heq
      cases heq
      exact ⟨rfl, hdigest⟩
    · rintro ⟨hname, hget⟩
      simp only at hname hget
      rw [hname, hdigest] at hget
      rw [hname, Option.some.inj hget]

theorem named_eq_none_iff {known : Hashes} {names : List String} :
    named known names = none ↔ ∃ name ∈ names, Dict.get? known name = none := by
  induction names with
  | nil => simp [named]
  | cons name names ih =>
    rw [named_cons]
    cases hget : Dict.get? known name with
    | none => simp [hget]
    | some digest => simp [hget, ih]

section Pairs

variable {hashes hashes' : String → Option Hashes} {wanted : List (String × List String)}
  {found found' : List (String × String)}

theorem pairs_cons (input : String × List String) : pairs hashes (input :: wanted) =
    (hashes input.1).bind fun known => (named known input.2).bind fun here =>
      (pairs hashes wanted).map (here ++ ·) := by
  obtain ⟨p, names⟩ := input
  rw [pairs]
  cases hashes p with
  | none => rfl
  | some known =>
    simp only [Option.bind_eq_bind, Option.bind_some, named]
    cases names.mapM fun name => (Dict.get? known name).map (·, name) with
    | none => rfl
    | some here => cases pairs hashes wanted <;> rfl

theorem pairs_cons_eq_some {input : String × List String} :
    pairs hashes (input :: wanted) = some found ↔ ∃ known here rest,
      hashes input.1 = some known ∧ named known input.2 = some here ∧
        pairs hashes wanted = some rest ∧ here ++ rest = found := by
  rw [pairs_cons]
  constructor
  · intro h
    obtain ⟨known, hknown, h⟩ := Option.bind_eq_some_iff.1 h
    obtain ⟨here, hhere, h⟩ := Option.bind_eq_some_iff.1 h
    obtain ⟨rest, hrest, h⟩ := Option.map_eq_some_iff.1 h
    exact ⟨known, here, rest, hknown, hhere, hrest, h⟩
  · rintro ⟨known, here, rest, hknown, hhere, hrest, rfl⟩
    rw [hknown, Option.bind_some, hhere, Option.bind_some, hrest, Option.map_some]

theorem mem_pairs (h : pairs hashes wanted = some found) {pair : String × String} :
    pair ∈ found ↔ ∃ input ∈ wanted, ∃ known, hashes input.1 = some known ∧ pair.2 ∈ input.2 ∧
      Dict.get? known pair.2 = some pair.1 := by
  induction wanted generalizing found with
  | nil =>
    cases h
    simp
  | cons input wanted ih =>
    obtain ⟨known, here, rest, hknown, hhere, hrest, rfl⟩ := pairs_cons_eq_some.1 h
    rw [mem_append, mem_named hhere, ih hrest]
    simp [hknown]

theorem pairs_eq_none_iff : pairs hashes wanted = none ↔ ∃ input ∈ wanted,
    ∀ known, hashes input.1 = some known → ∃ name ∈ input.2, Dict.get? known name = none := by
  induction wanted with
  | nil => simp [pairs]
  | cons input wanted ih =>
    rw [pairs_cons, exists_mem_cons_iff, ← ih]
    cases hknown : hashes input.1 with
    | none => simp
    | some known =>
      simp only [Option.bind_some, Option.some.injEq, forall_eq', ← named_eq_none_iff]
      cases named known input.2 with
      | none => simp
      | some here => simp

theorem exists_of_pairs_eq_some (h : pairs hashes wanted = some found)
    {input : String × List String} (hin : input ∈ wanted) : ∃ known, hashes input.1 = some known ∧
      ∀ name ∈ input.2, ∃ digest, Dict.get? known name = some digest := by
  by_contra hnot
  have hnone : pairs hashes wanted = none := by
    refine pairs_eq_none_iff.2 ⟨input, hin, fun known hknown => ?_⟩
    by_contra hall
    refine hnot ⟨known, hknown, fun name hname => Option.ne_none_iff_exists'.1 fun hget => ?_⟩
    exact hall ⟨name, hname, hget⟩
  rw [h] at hnone
  cases hnone

theorem pairs_inj (h : pairs hashes wanted = some found) (h' : pairs hashes' wanted = some found')
    (hsame : ∀ input ∈ wanted, input.2 ≠ [] → hashes input.1 = hashes' input.1) :
    found = found' := by
  induction wanted generalizing found found' with
  | nil => exact Option.some.inj (h.symm.trans h')
  | cons input wanted ih =>
    obtain ⟨known, here, rest, hknown, hhere, hrest, rfl⟩ := pairs_cons_eq_some.1 h
    obtain ⟨known', here', rest', hknown', hhere', hrest', rfl⟩ := pairs_cons_eq_some.1 h'
    rw [ih hrest hrest' fun input hin => hsame input (mem_cons_of_mem _ hin)]
    congr 1
    by_cases hnone : input.2 = []
    · rw [hnone] at hhere hhere'
      exact Option.some.inj (hhere.symm.trans hhere')
    · have heq := hsame input mem_cons_self hnone
      rw [hknown, hknown'] at heq
      cases heq
      exact Option.some.inj (hhere.symm.trans hhere')

end Pairs

/-! ## The definition of Nix -/

section Definition

variable {δ : Type} (H : Hashing δ) (storeDir : String) (read : String → Option Derivation)

/-- What Nix makes of a derivation and the hashes of the outputs that it wants: a fixed-output
derivation needs none of them. -/
def combineSets (maskOutputs : Bool) (d : Derivation) (found : Option (List (String × String))) :
    Option Hashes :=
  if isFixedOutput d then some (underNames d fun o => hexdigest H (fixedText o))
  else
    found.map fun found =>
      underNames d fun _ => hexdigest H (moduloText storeDir d maskOutputs (some (setMap found)))

/-- The definition of Nix, by recursion over the inputs. -/
def nixHashes : Nat → Bool → Derivation → Option Hashes :=
  hashesAt storeDir read (combineSets H storeDir)

/-- An input derivation is not there, or does not have an output that is wanted. -/
def Lacks (d : Derivation) : Prop :=
  ∃ input ∈ wanted storeDir d, ∀ d', read input.1 = some d' →
    ∃ name ∈ input.2, name ∉ d'.outputs.map (·.outputName)

/-- A derivation that is needed lacks something, where the inputs of those with `expands` are
needed. -/
def Misses (expands : Derivation → Prop) (d : Derivation) : Prop :=
  ∃ d', ReflTransGen (fun a b => expands a ∧ Reads storeDir read a b) d d' ∧ expands d' ∧
    Lacks storeDir read d'

end Definition

/-! ## When there is no answer -/

theorem get?_underNames_eq_none (d : Derivation) (value : DrvOutput → String) (name : String) :
    Dict.get? (underNames d value) name = none ↔ name ∉ d.outputs.map (·.outputName) := by
  have hkeys : name ∈ (underNames d value).map Prod.fst ↔ name ∈ d.outputs.map (·.outputName) := by
    rw [underNames, Dict.mem_keys_update]
    simp
  rw [← hkeys, ← Dict.get?_isSome_iff]
  simp

theorem exists_of_get?_underNames {d : Derivation} {value : DrvOutput → String} {name x : String}
    (h : Dict.get? (underNames d value) name = some x) : ∃ o ∈ d.outputs, value o = x := by
  rcases Dict.mem_update (Dict.mem_of_get?_eq_some h) with hnil | hmem
  · cases hnil
  · obtain ⟨o, ho, heq⟩ := mem_map.1 hmem
    exact ⟨o, ho, congrArg Prod.snd heq⟩

section Missing

variable {storeDir : String} {read : String → Option Derivation} {closure : Finset String}
  {combine : Bool → Derivation → Option (List (String × String)) → Option Hashes}
  {expands : Derivation → Prop} {δ : Type} {H : Hashing δ}

/-- The hashes of a derivation stand under the names of its outputs, and there are none exactly
when the inputs count and give none. -/
structure Combines {δ : Type} (H : Hashing δ)
    (combine : Bool → Derivation → Option (List (String × String)) → Option Hashes)
    (expands : Derivation → Prop) : Prop where
  none_iff : ∀ maskOutputs d found,
    combine maskOutputs d found = none ↔ expands d ∧ found = none
  underNames : ∀ maskOutputs d found hashes, combine maskOutputs d found = some hashes →
    ∃ text : DrvOutput → List Char, hashes = underNames d fun o => hexdigest H (text o)

theorem misses_iff {d : Derivation} : Misses storeDir read expands d ↔ expands d ∧
    (Lacks storeDir read d ∨ ∃ d', Reads storeDir read d d' ∧ Misses storeDir read expands d') := by
  constructor
  · rintro ⟨d', hway, hexpands, hlacks⟩
    rcases ReflTransGen.cases_head hway with rfl | ⟨d₁, ⟨hd, hreads⟩, hway⟩
    · exact ⟨hexpands, .inl hlacks⟩
    · exact ⟨hd, .inr ⟨d₁, hreads, d', hway, hexpands, hlacks⟩⟩
  · rintro ⟨hd, hlacks | ⟨d₁, hreads, d', hway, hexpands, hlacks⟩⟩
    · exact ⟨d, .refl, hd, hlacks⟩
    · exact ⟨d', .head ⟨hd, hreads⟩ hway, hexpands, hlacks⟩

/-- **There is no answer exactly when something that is needed is missing.** -/
theorem hashesAt_eq_none_iff (hc : Combines H combine expands)
    (h : AcyclicClosure storeDir read closure) {d : Derivation} (hd : Inside storeDir closure d)
    (maskOutputs : Bool) : hashesAt storeDir read combine closure.card maskOutputs d = none ↔
      Misses storeDir read expands d := by
  refine h.induction (motive := fun d => ∀ maskOutputs,
    hashesAt storeDir read combine closure.card maskOutputs d = none ↔
      Misses storeDir read expands d) (fun d hd ih maskOutputs => ?_) hd maskOutputs
  rw [h.hashesAt_eq hd, hc.none_iff, misses_iff, pairs_eq_none_iff]
  refine and_congr_right fun _ => ?_
  constructor
  · rintro ⟨input, hin, hnone⟩
    by_cases hmisses : ∃ d', Reads storeDir read d d' ∧ Misses storeDir read expands d'
    · exact .inr hmisses
    · refine .inl ⟨input, hin, fun d' hd' => ?_⟩
      have hreads : Reads storeDir read d d' := ⟨input, hin, hd'⟩
      obtain ⟨known, hknown⟩ := Option.ne_none_iff_exists'.1
        fun hn => hmisses ⟨d', hreads, (ih d' hreads false).1 hn⟩
      obtain ⟨name, hname, hget⟩ := hnone known (by rw [hd', Option.bind_some, hknown])
      rw [h.hashesAt_eq (h.inside (hd input hin) hd')] at hknown
      obtain ⟨text, rfl⟩ := hc.underNames _ _ _ _ hknown
      exact ⟨name, hname, (get?_underNames_eq_none d' _ name).1 hget⟩
  · rintro (⟨input, hin, hlacks⟩ | ⟨d', ⟨input, hin, hd'⟩, hmisses⟩)
    · refine ⟨input, hin, fun known hknown => ?_⟩
      obtain ⟨d', hd', hknown⟩ := Option.bind_eq_some_iff.1 hknown
      obtain ⟨name, hname, habsent⟩ := hlacks d' hd'
      rw [h.hashesAt_eq (h.inside (hd input hin) hd')] at hknown
      obtain ⟨text, rfl⟩ := hc.underNames _ _ _ _ hknown
      exact ⟨name, hname, (get?_underNames_eq_none d' _ name).2 habsent⟩
    · refine ⟨input, hin, fun known hknown => ?_⟩
      rw [hd', Option.bind_some, (ih d' ⟨input, hin, hd'⟩ false).2 hmisses] at hknown
      cases hknown

theorem combines_grouped : Combines H (combineGrouped H storeDir) fun _ => True := by
  constructor
  · intro maskOutputs d found
    cases found <;> simp [combineGrouped]
  · intro maskOutputs d found hashes h
    obtain ⟨found, _, rfl⟩ := Option.map_eq_some_iff.1 h
    rw [hashDerivationModulo]
    split
    · exact ⟨_, rfl⟩
    · exact ⟨_, rfl⟩

theorem combines_sets : Combines H (combineSets H storeDir) fun d => isFixedOutput d = false := by
  constructor
  · intro maskOutputs d found
    rw [combineSets]
    cases isFixedOutput d <;> cases found <;> simp
  · intro maskOutputs d found hashes h
    rw [combineSets] at h
    split at h
    · exact ⟨_, (Option.some.inj h).symm⟩
    · obtain ⟨found, _, rfl⟩ := Option.map_eq_some_iff.1 h
      exact ⟨_, rfl⟩

end Missing

/-! ## What the text tells -/

/-- Nothing that is printed without escapes has to be escaped. -/
structure PlainNames (storeDir : String) (d : Derivation) : Prop where
  outputs : ∀ o ∈ d.outputs, o.Plain
  wanted : ∀ input ∈ wanted storeDir d, ∀ name ∈ input.2, Unquoted name

/-- The same of what the inputs are replaced by. -/
def PlainInputs (inputs : InputHashes) : Prop :=
  ∀ item ∈ inputs, Unquoted item.1 ∧ ∀ name ∈ item.2, Unquoted name

def replacedText (item : String × List String) : List Char :=
  printEntry item.1 (',' :: printUnquotedStrings item.2)

/-- Reads the inputs again from behind the header. -/
def parseReplaced : DrvParser InputHashes := do
  let _ ← parseOutputs
  expectOne ','
  parseItems (fun result => !result.isEmpty) (fun result => do
    expectOne '('
    let key ← parseString
    expectOne ','
    let names ← parseStringList
    expectOne ')'
    pure (result ++ [(key, names)])) []

theorem parses_replaced {outputs : List DrvOutput} (houtputs : ∀ o ∈ outputs, o.Plain)
    {inputs : InputHashes} (hinputs : PlainInputs inputs) :
    Parses parseReplaced (printList (outputs.map (Derivation.printOutput false)) ++
      ',' :: printList (inputs.map replacedText)) [] inputs := by
  refine Parses.bind ((parses_outputs houtputs).before _) (Parses.expectOne_bind ?_)
  rw [← map_id inputs, List.map_map]
  apply parses_list
  · intro item hitem acc
    obtain ⟨hkey, hnames⟩ := hinputs item hitem
    apply Parses.expectOne_bind
    refine Parses.bind ((parses_unquoted hkey).before _) (Parses.expectOne_bind ?_)
    refine Parses.bind ((parses_stringList hnames).before _) (Parses.expectOne_bind ?_)
    exact Parses.pure _ []
  · exact fun item _ => starts_entry _

def masked (maskOutputs : Bool) (o : DrvOutput) : DrvOutput :=
  { o with path := if maskOutputs then "" else o.path }

theorem plain_masked {maskOutputs : Bool} {o : DrvOutput} (h : o.Plain) :
    (masked maskOutputs o).Plain := by
  refine ⟨h.outputName, ?_, h.hashAlgo, h.hashValue⟩
  cases maskOutputs
  · exact h.path
  · exact nofun

theorem exists_moduloText_eq (storeDir : String) (d : Derivation) (maskOutputs : Bool)
    (inputs : InputHashes) : ∃ rest, moduloText storeDir d maskOutputs (some inputs) = d.header ++
      ((printList (((d.outputs.insertionSort (·.outputName ≤ ·.outputName)).map
        (masked maskOutputs)).map (Derivation.printOutput false)) ++
        ',' :: printList ((inputs.insertionSort (·.1 ≤ ·.1)).map replacedText)) ++ rest) := by
  have houtputs : ∀ outputs : List DrvOutput, outputs.map (Derivation.printOutput maskOutputs) =
      (outputs.map (masked maskOutputs)).map (Derivation.printOutput false) := by
    intro outputs
    rw [List.map_map]
    exact map_congr_left fun o _ => by cases maskOutputs <;> rfl
  have hinputs : d.printInputs storeDir
      (some (inputs.map fun item => (item.1, DrvInputNode.mk item.2 [] false))) =
        printList ((inputs.insertionSort (·.1 ≤ ·.1)).map replacedText) := by
    rw [Derivation.printInputs, insertionSort_map _ Prod.fst, List.map_map]
    refine congrArg printList (map_congr_left fun item _ => ?_)
    simp [replacedText, unparseDerivedPathNode]
  rw [moduloText, Option.map_some, Derivation.unparse, houtputs, hinputs]
  simp only [append_assoc, cons_append]
  exact ⟨_, rfl⟩

theorem header_append_inj {d d' : Derivation} {text text' : List Char}
    (h : d.header ++ text = d'.header ++ text') : text = text' := by
  rw [Derivation.header, Derivation.header] at h
  cases hd : d.hasDynamicDrvDep <;> cases hd' : d'.hasDynamicDrvDep <;> rw [hd, hd'] at h
  · exact append_cancel_left h
  · simp at h
  · simp at h
  · exact append_cancel_left h

/-- **The text tells what the inputs were replaced by.** -/
theorem moduloText_inj {storeDir : String} {d d' : Derivation} {maskOutputs maskOutputs' : Bool}
    {inputs inputs' : InputHashes} (hd : ∀ o ∈ d.outputs, o.Plain) (hd' : ∀ o ∈ d'.outputs, o.Plain)
    (hinputs : PlainInputs inputs) (hinputs' : PlainInputs inputs')
    (h : moduloText storeDir d maskOutputs (some inputs) =
      moduloText storeDir d' maskOutputs' (some inputs')) :
    inputs.insertionSort (·.1 ≤ ·.1) = inputs'.insertionSort (·.1 ≤ ·.1) := by
  have hparses : ∀ (d : Derivation) (maskOutputs : Bool) (inputs : InputHashes),
      (∀ o ∈ d.outputs, o.Plain) → PlainInputs inputs →
      Parses parseReplaced (printList (((d.outputs.insertionSort
        (·.outputName ≤ ·.outputName)).map (masked maskOutputs)).map
          (Derivation.printOutput false)) ++
        ',' :: printList ((inputs.insertionSort (·.1 ≤ ·.1)).map replacedText)) []
        (inputs.insertionSort (·.1 ≤ ·.1)) := by
    intro d maskOutputs inputs hd hinputs
    apply parses_replaced
    · intro o ho
      obtain ⟨o, hmem, rfl⟩ := mem_map.1 ho
      exact plain_masked (hd o ((mem_insertionSort _).1 hmem))
    · exact fun item hitem => hinputs item ((mem_insertionSort _).1 hitem)
  obtain ⟨rest, hrest⟩ := exists_moduloText_eq storeDir d maskOutputs inputs
  obtain ⟨rest', hrest'⟩ := exists_moduloText_eq storeDir d' maskOutputs' inputs'
  rw [hrest, hrest'] at h
  have hrun := hparses d maskOutputs inputs hd hinputs rest 0
  have hrun' := hparses d' maskOutputs' inputs' hd' hinputs' rest' 0
  rw [nil_append] at hrun hrun'
  rw [header_append_inj h, hrun'] at hrun
  exact (congrArg Prod.fst (Except.ok.inj hrun)).symm

theorem moduloText_ne_fixedText (storeDir : String) (d : Derivation) (maskOutputs : Bool)
    (inputs : InputHashes) (o : DrvOutput) :
    moduloText storeDir d maskOutputs (some inputs) ≠ fixedText o := by
  intro h
  obtain ⟨rest, hrest⟩ := exists_moduloText_eq storeDir d maskOutputs inputs
  obtain ⟨text, htext⟩ := exists_header_eq d
  rw [hrest, htext, fixedText] at h
  simp at h

/-! ## The walk and the definition -/

/-- No two texts have one hash, and a hash is written without quotes. -/
structure CollisionFree {δ : Type} (H : Hashing δ) : Prop where
  injective : Function.Injective (hexdigest H)
  plain : ∀ text, Unquoted (hexdigest H text)

section Agreement

variable {δ : Type} {H : Hashing δ} {storeDir : String} {read : String → Option Derivation}
  {closure : Finset String}

/-- The hash of one derivation depends on that of another: it is not a fixed-output one, and it
wants an output of the other. -/
def DependsOn (storeDir : String) (read : String → Option Derivation) (d d' : Derivation) : Prop :=
  isFixedOutput d = false ∧ ∃ input ∈ wanted storeDir d, input.2 ≠ [] ∧ read input.1 = some d'

/-- The names that a derivation wants under each hash come in order and once, in the order of
its inputs. -/
def OrderedNames (H : Hashing δ) (storeDir : String) (read : String → Option Derivation)
    (depth : Nat) (d : Derivation) : Prop :=
  isFixedOutput d = false → ∀ found,
    pairs (fun p => (read p).bind (nixHashes H storeDir read depth false)) (wanted storeDir d) =
      some found → ∀ digest, (Dict.valuesOf found digest).Pairwise (· < ·)

/-- The same of every derivation that the hash depends on. -/
def OrderedBelow (H : Hashing δ) (storeDir : String) (read : String → Option Derivation)
    (depth : Nat) (d : Derivation) : Prop :=
  ∀ d', ReflTransGen (DependsOn storeDir read) d d' → OrderedNames H storeDir read depth d'

variable {maskOutputs : Bool} {d : Derivation} {hashes : Hashes} {found : List (String × String)}

theorem orderedBelow_iff {depth : Nat} :
    OrderedBelow H storeDir read depth d ↔ OrderedNames H storeDir read depth d ∧
      ∀ d', DependsOn storeDir read d d' → OrderedBelow H storeDir read depth d' := by
  constructor
  · intro h
    exact ⟨h d .refl, fun d' hd' d'' hway => h d'' (.head hd' hway)⟩
  · rintro ⟨hnames, hbelow⟩ d' hway
    rcases ReflTransGen.cases_head hway with rfl | ⟨d₁, hd₁, hway⟩
    · exact hnames
    · exact hbelow d₁ hd₁ d' hway

theorem orderedBelow_of_fixed {depth : Nat} (h : isFixedOutput d = true) :
    OrderedBelow H storeDir read depth d := by
  refine orderedBelow_iff.2 ⟨fun hfixed => ?_, fun d' hd' => ?_⟩
  · rw [h] at hfixed
    cases hfixed
  · have hfixed := hd'.1
    rw [h] at hfixed
    cases hfixed

theorem DependsOn.reads {d' : Derivation} (h : DependsOn storeDir read d d') :
    Reads storeDir read d d' := by
  obtain ⟨-, input, hin, -, hread⟩ := h
  exact ⟨input, hin, hread⟩

theorem pairs_eq_of_dependsOn {hashes hashes' : Derivation → Option Hashes}
    {found found' : List (String × String)} (hfixed : isFixedOutput d = false)
    (hfound : pairs (fun p => (read p).bind hashes) (wanted storeDir d) = some found)
    (hfound' : pairs (fun p => (read p).bind hashes') (wanted storeDir d) = some found')
    (hsame : ∀ d', DependsOn storeDir read d d' → ∀ known known',
      hashes d' = some known → hashes' d' = some known' → known = known') : found = found' := by
  refine pairs_inj hfound hfound' fun input hin hsome => ?_
  obtain ⟨known, hknown, -⟩ := exists_of_pairs_eq_some hfound hin
  obtain ⟨known', hknown', -⟩ := exists_of_pairs_eq_some hfound' hin
  obtain ⟨d', hd', hwalk⟩ := Option.bind_eq_some_iff.1 hknown
  rw [hd', Option.bind_some] at hknown'
  rw [hd', Option.bind_some, Option.bind_some, hwalk, hknown']
  exact congrArg some (hsame d' ⟨hfixed, input, hin, hsome, hd'⟩ known known' hwalk hknown')

theorem AcyclicClosure.nixHashes_eq (h : AcyclicClosure storeDir read closure)
    (hd : Inside storeDir closure d) (maskOutputs : Bool) :
    nixHashes H storeDir read closure.card maskOutputs d = combineSets H storeDir maskOutputs d
      (pairs (fun p => (read p).bind (nixHashes H storeDir read closure.card false))
        (wanted storeDir d)) :=
  h.hashesAt_eq hd maskOutputs

theorem hashDerivationModulo_of_fixed (hfixed : isFixedOutput d = true)
    (maskOutputs : Bool) (inputs : Option InputHashes) :
    hashDerivationModulo H storeDir d maskOutputs inputs =
      underNames d fun o => hexdigest H (fixedText o) := by
  rw [hashDerivationModulo, if_pos hfixed]

theorem walkHashes_eq_some (h : AcyclicClosure storeDir read closure)
    (hd : Inside storeDir closure d) (hfixed : isFixedOutput d = false)
    (hwalk : walkHashes H storeDir read closure.card maskOutputs d = some hashes) :
    ∃ found, pairs (fun p => (read p).bind (walkHashes H storeDir read closure.card false))
      (wanted storeDir d) = some found ∧ hashes = underNames d fun _ =>
        hexdigest H (moduloText storeDir d maskOutputs (some (Dict.group found))) := by
  rw [h.walkHashes_eq hd] at hwalk
  obtain ⟨found, hfound, rfl⟩ := Option.map_eq_some_iff.1 hwalk
  refine ⟨found, hfound, ?_⟩
  rw [hashDerivationModulo, if_neg (by rw [hfixed]; exact Bool.false_ne_true)]

theorem nixHashes_eq_some (h : AcyclicClosure storeDir read closure)
    (hd : Inside storeDir closure d) (hfixed : isFixedOutput d = false)
    (hnix : nixHashes H storeDir read closure.card maskOutputs d = some hashes) :
    ∃ found, pairs (fun p => (read p).bind (nixHashes H storeDir read closure.card false))
      (wanted storeDir d) = some found ∧ hashes = underNames d fun _ =>
        hexdigest H (moduloText storeDir d maskOutputs (some (setMap found))) := by
  rw [h.nixHashes_eq hd, combineSets, if_neg (by rw [hfixed]; exact Bool.false_ne_true)] at hnix
  obtain ⟨found, hfound, rfl⟩ := Option.map_eq_some_iff.1 hnix
  exact ⟨found, hfound, rfl⟩

theorem moduloText_congr {inputs inputs' : InputHashes}
    (h : inputs.insertionSort (·.1 ≤ ·.1) = inputs'.insertionSort (·.1 ≤ ·.1)) :
    moduloText storeDir d maskOutputs (some inputs) =
      moduloText storeDir d maskOutputs (some inputs') := by
  have hprint : ∀ inputs : InputHashes, d.printInputs storeDir
      (some (inputs.map fun item => (item.1, DrvInputNode.mk item.2 [] false))) =
        printList (((inputs.insertionSort (·.1 ≤ ·.1)).map
          fun item => (item.1, DrvInputNode.mk item.2 [] false)).map fun item =>
            printEntry item.1 (unparseDerivedPathNode item.2)) := by
    intro inputs
    rw [Derivation.printInputs, insertionSort_map _ Prod.fst]
  rw [moduloText, moduloText, Option.map_some, Option.map_some, Derivation.unparse,
    Derivation.unparse, hprint, hprint, h]

/-- **Where the names come in order, the walk computes the hash of Nix.** -/
theorem walkHashes_eq_of_ordered (h : AcyclicClosure storeDir read closure)
    (hd : Inside storeDir closure d) {hashes hashes' : Hashes}
    (hwalk : walkHashes H storeDir read closure.card maskOutputs d = some hashes)
    (hnix : nixHashes H storeDir read closure.card maskOutputs d = some hashes')
    (hordered : OrderedBelow H storeDir read closure.card d) : hashes = hashes' := by
  refine h.induction (motive := fun d => ∀ maskOutputs hashes hashes',
    walkHashes H storeDir read closure.card maskOutputs d = some hashes →
      nixHashes H storeDir read closure.card maskOutputs d = some hashes' →
        OrderedBelow H storeDir read closure.card d → hashes = hashes')
    (fun d hd ih maskOutputs hashes hashes' hwalk hnix hordered => ?_) hd maskOutputs hashes hashes'
    hwalk hnix hordered
  cases hfixed : isFixedOutput d with
  | true =>
    rw [h.walkHashes_eq hd] at hwalk
    obtain ⟨found, _, rfl⟩ := Option.map_eq_some_iff.1 hwalk
    rw [h.nixHashes_eq hd, combineSets, if_pos hfixed] at hnix
    rw [hashDerivationModulo_of_fixed hfixed]
    exact Option.some.inj hnix
  | false =>
    obtain ⟨found, hfound, rfl⟩ := walkHashes_eq_some h hd hfixed hwalk
    obtain ⟨found', hfound', rfl⟩ := nixHashes_eq_some h hd hfixed hnix
    obtain ⟨hnames, hbelow⟩ := orderedBelow_iff.1 hordered
    have hsame : found = found' := by
      refine pairs_eq_of_dependsOn hfixed hfound hfound' fun d' hd' _ _ hwalk' hnix' => ?_
      exact ih d' hd'.reads false _ _ hwalk' hnix' (hbelow d' hd')
    subst hsame
    have hsorted := insertionSort_group_eq_iff.2 (hnames hfixed found hfound')
    rw [← insertionSort_setMap] at hsorted
    rw [moduloText_congr hsorted]

theorem plain_pairs (hH : CollisionFree H) {expands : Derivation → Prop}
    {combine : Bool → Derivation → Option (List (String × String)) → Option Hashes}
    (hc : Combines H combine expands) (h : AcyclicClosure storeDir read closure)
    (hd : Inside storeDir closure d) (hplain : PlainNames storeDir d)
    (hfound : pairs (fun p => (read p).bind (hashesAt storeDir read combine closure.card false))
      (wanted storeDir d) = some found) :
    ∀ pair ∈ found, Unquoted pair.1 ∧ Unquoted pair.2 := by
  intro pair hpair
  obtain ⟨input, hin, known, hknown, hname, hget⟩ := (mem_pairs hfound).1 hpair
  obtain ⟨d', hd', hknown⟩ := Option.bind_eq_some_iff.1 hknown
  rw [h.hashesAt_eq (h.inside (hd input hin) hd')] at hknown
  obtain ⟨text, rfl⟩ := hc.underNames _ _ _ _ hknown
  obtain ⟨o, _, hdigest⟩ := exists_of_get?_underNames hget
  exact ⟨hdigest ▸ hH.plain (text o), hplain.wanted input hin pair.2 hname⟩

theorem plainInputs_group
    (h : ∀ pair ∈ found, Unquoted pair.1 ∧ Unquoted pair.2) : PlainInputs (Dict.group found) := by
  rintro ⟨digest, names⟩ hitem
  have hget := (Dict.get?_eq_some_iff_mem (Dict.nodup_keys_group found)).2 hitem
  rw [Dict.get?_group] at hget
  split_ifs at hget with hmem
  cases hget
  obtain ⟨name, hname⟩ := Dict.mem_keys_iff.1 hmem
  exact ⟨(h _ hname).1, fun name hname => (h _ (Dict.mem_valuesOf.1 hname)).2⟩

theorem mem_setMap {item : String × List String}
    (h : item ∈ setMap found) : item.1 ∈ found.map Prod.fst ∧
      item.2 = sortedSet (Dict.valuesOf found item.1).toFinset := by
  obtain ⟨digest, hdigest, rfl⟩ := mem_map.1 h
  exact ⟨mem_toFinset.1 (mem_sortedSet.1 hdigest), rfl⟩

theorem plainInputs_setMap
    (h : ∀ pair ∈ found, Unquoted pair.1 ∧ Unquoted pair.2) : PlainInputs (setMap found) := by
  intro item hitem
  obtain ⟨hkey, hnames⟩ := mem_setMap hitem
  obtain ⟨name, hname⟩ := Dict.mem_keys_iff.1 hkey
  refine ⟨(h _ hname).1, fun name hname => ?_⟩
  rw [hnames, mem_sortedSet, mem_toFinset] at hname
  exact (h _ (Dict.mem_valuesOf.1 hname)).2

theorem of_insertionSort_group_eq {found found' : List (String × String)}
    (h : (Dict.group found).insertionSort (·.1 ≤ ·.1) = setMap found') :
    (∀ digest, (Dict.valuesOf found digest).Pairwise (· < ·)) ∧ ∀ pair ∈ found, pair ∈ found' := by
  have hmem : ∀ digest ∈ found.map Prod.fst, Dict.valuesOf found digest =
      sortedSet (Dict.valuesOf found' digest).toFinset := by
    intro digest hdigest
    have hitem : (digest, Dict.valuesOf found digest) ∈ setMap found' := by
      rw [← h, insertionSort_group]
      exact mem_map_of_mem (mem_sortedSet.2 (mem_toFinset.2 hdigest))
    exact (mem_setMap hitem).2
  constructor
  · intro digest
    by_cases hdigest : digest ∈ found.map Prod.fst
    · rw [hmem digest hdigest]
      exact sortedSet_pairwise _
    · rw [Dict.valuesOf_eq_nil hdigest]
      exact List.Pairwise.nil
  · rintro ⟨digest, name⟩ hpair
    have hname : name ∈ Dict.valuesOf found digest := Dict.mem_valuesOf.2 hpair
    rw [hmem digest (mem_map_of_mem hpair), mem_sortedSet, mem_toFinset] at hname
    exact Dict.mem_valuesOf.1 hname

/-- **Where a hash of the walk is a hash of Nix, of whatever derivation, the names come in order
below it.**  The text tells the hashes of the inputs, so the argument goes on with them. -/
theorem ordered_of_common_hash (hH : CollisionFree H) (h : AcyclicClosure storeDir read closure)
    (hplain : ∀ p ∈ closure, ∀ d, read p = some d → PlainNames storeDir d) {d e : Derivation}
    (hd : Inside storeDir closure d) (hpd : PlainNames storeDir d)
    (he : Inside storeDir closure e) (hpe : PlainNames storeDir e) {mask mask' : Bool}
    {hashes hashes' : Hashes} {a b x : String}
    (hwalk : walkHashes H storeDir read closure.card mask d = some hashes)
    (hnix : nixHashes H storeDir read closure.card mask' e = some hashes')
    (ha : Dict.get? hashes a = some x) (hb : Dict.get? hashes' b = some x) :
    OrderedBelow H storeDir read closure.card d := by
  refine h.induction (motive := fun d => ∀ e mask mask' hashes hashes' a b x,
    PlainNames storeDir d → Inside storeDir closure e → PlainNames storeDir e →
      walkHashes H storeDir read closure.card mask d = some hashes →
        nixHashes H storeDir read closure.card mask' e = some hashes' →
          Dict.get? hashes a = some x → Dict.get? hashes' b = some x →
            OrderedBelow H storeDir read closure.card d)
    (fun d hd ih e mask mask' hashes hashes' a b x hpd he hpe hwalk hnix ha hb => ?_) hd e mask
    mask'
    hashes hashes' a b x hpd he hpe hwalk hnix ha hb
  cases hfixed : isFixedOutput d with
  | true => exact orderedBelow_of_fixed hfixed
  | false =>
    obtain ⟨found, hfound, rfl⟩ := walkHashes_eq_some h hd hfixed hwalk
    obtain ⟨_, _, rfl⟩ := exists_of_get?_underNames ha
    cases hfixed' : isFixedOutput e with
    | true =>
      rw [h.nixHashes_eq he, combineSets, if_pos hfixed'] at hnix
      obtain rfl := Option.some.inj hnix
      obtain ⟨o, _, heq⟩ := exists_of_get?_underNames hb
      exact absurd (hH.injective heq).symm (moduloText_ne_fixedText storeDir d mask _ o)
    | false =>
      obtain ⟨found', hfound', rfl⟩ := nixHashes_eq_some h he hfixed' hnix
      obtain ⟨_, _, heq⟩ := exists_of_get?_underNames hb
      have hpairs := plain_pairs hH combines_grouped h hd hpd hfound
      have hpairs' := plain_pairs hH combines_sets h he hpe hfound'
      have htext := moduloText_inj hpd.outputs hpe.outputs (plainInputs_group hpairs)
        (plainInputs_setMap hpairs') (hH.injective heq).symm
      rw [insertionSort_setMap] at htext
      obtain ⟨hnames, hsub⟩ := of_insertionSort_group_eq htext
      -- an input with a name that is wanted has a hash in common with an input of `e`
      have hbelow : ∀ d', DependsOn storeDir read d d' →
          OrderedBelow H storeDir read closure.card d' := by
        rintro d' ⟨-, input, hin, hsome, hd'⟩
        obtain ⟨name, hname⟩ := exists_mem_of_ne_nil _ hsome
        obtain ⟨known, hknown, hdigests⟩ := exists_of_pairs_eq_some hfound hin
        obtain ⟨digest, hdigest⟩ := hdigests name hname
        have hpair : (digest, name) ∈ found' :=
          hsub _ ((mem_pairs hfound).2 ⟨input, hin, known, hknown, hname, hdigest⟩)
        obtain ⟨input', hin', known', hknown', _, hdigest'⟩ := (mem_pairs hfound').1 hpair
        obtain ⟨e', he', hknown'⟩ := Option.bind_eq_some_iff.1 hknown'
        rw [hd'] at hknown
        exact ih d' ⟨input, hin, hd'⟩ e' false false known known' name name digest
          (hplain _ (hd input hin) d' hd') (h.inside (he input' hin') he')
          (hplain _ (he input' hin') e' he') hknown hknown' hdigest hdigest'
      refine orderedBelow_iff.2 ⟨fun _ found'' hfound'' => ?_, hbelow⟩
      -- so that the walk and Nix collect the same for `d`
      have hsame : found = found'' := by
        refine pairs_eq_of_dependsOn hfixed hfound hfound'' fun d' hd' _ _ hwalk' hnix' => ?_
        obtain ⟨input, hin, hread⟩ := hd'.reads
        exact walkHashes_eq_of_ordered h (h.inside (hd input hin) hread) hwalk' hnix'
          (hbelow d' hd')
      exact hsame ▸ hnames

theorem walkHashes_eq_none_iff (h : AcyclicClosure storeDir read closure)
    (hd : Inside storeDir closure d) (maskOutputs : Bool) :
    walkHashes H storeDir read closure.card maskOutputs d = none ↔
      Misses storeDir read (fun _ => True) d :=
  hashesAt_eq_none_iff combines_grouped h hd maskOutputs

/-- **Nix has no answer exactly when something that it needs is missing.** -/
theorem nixHashes_eq_none_iff (h : AcyclicClosure storeDir read closure)
    (hd : Inside storeDir closure d) (maskOutputs : Bool) :
    nixHashes H storeDir read closure.card maskOutputs d = none ↔
      Misses storeDir read (fun d => isFixedOutput d = false) d :=
  hashesAt_eq_none_iff combines_sets h hd maskOutputs

theorem misses_mono (h : Misses storeDir read (fun d => isFixedOutput d = false) d) :
    Misses storeDir read (fun _ => True) d := by
  obtain ⟨d', hway, -, hlacks⟩ := h
  have hmono : ReflTransGen (fun a b => isFixedOutput a = false ∧ Reads storeDir read a b) ≤
      ReflTransGen fun a b => True ∧ Reads storeDir read a b :=
    ReflTransGen.mono fun _ _ hab => ⟨trivial, hab.2⟩
  exact ⟨d', hmono _ _ hway, trivial, hlacks⟩

theorem exists_get?_of_not_fixed (h : AcyclicClosure storeDir read closure)
    (hd : Inside storeDir closure d) (hfixed : isFixedOutput d = false)
    (hwalk : walkHashes H storeDir read closure.card maskOutputs d = some hashes) :
    ∃ name x, Dict.get? hashes name = some x := by
  obtain ⟨found, _, rfl⟩ := walkHashes_eq_some h hd hfixed hwalk
  have hsome : d.outputs ≠ [] := by
    intro hnone
    simp [isFixedOutput, Goals.outputKinds, hnone] at hfixed
  obtain ⟨o, ho⟩ := exists_mem_of_ne_nil _ hsome
  refine ⟨o.outputName, Option.ne_none_iff_exists'.1 fun hget => ?_⟩
  exact (get?_underNames_eq_none d _ _).1 hget (mem_map_of_mem ho)

/-- **The walk computes the hash of Nix exactly when** Nix has no answer either, or nothing is
missing for the walk and the names come in order wherever the hash depends on them. -/
theorem walkHashes_eq_nixHashes_iff (hH : CollisionFree H)
    (h : AcyclicClosure storeDir read closure)
    (hplain : ∀ p ∈ closure, ∀ d, read p = some d → PlainNames storeDir d)
    (hd : Inside storeDir closure d) (hpd : PlainNames storeDir d) :
    walkHashes H storeDir read closure.card true d = nixHashes H storeDir read closure.card true d ↔
      Misses storeDir read (fun d => isFixedOutput d = false) d ∨
        ¬Misses storeDir read (fun _ => True) d ∧ OrderedBelow H storeDir read closure.card d := by
  have hwalkNone := walkHashes_eq_none_iff (H := H) h hd true
  have hnixNone := nixHashes_eq_none_iff (H := H) h hd true
  rw [← hwalkNone, ← hnixNone]
  cases hnix : nixHashes H storeDir read closure.card true d with
  | none => exact iff_of_true (hwalkNone.2 (misses_mono (hnixNone.1 hnix))) (.inl rfl)
  | some hashes' =>
    cases hwalk : walkHashes H storeDir read closure.card true d with
    | none => simp
    | some hashes =>
      simp only [Option.some.injEq, reduceCtorEq, not_false_eq_true, true_and, false_or]
      refine ⟨?_, walkHashes_eq_of_ordered h hd hwalk hnix⟩
      rintro rfl
      cases hfixed : isFixedOutput d with
      | true => exact orderedBelow_of_fixed hfixed
      | false =>
        obtain ⟨name, x, hget⟩ := exists_get?_of_not_fixed h hd hfixed hwalk
        exact ordered_of_common_hash hH h hplain hd hpd hd hpd hwalk hnix hget hget

/-- **A call of `output_hashes` answers as Nix defines it** — the same hashes, and none exactly when
something that Nix needs is missing — **exactly when** that is so or nothing is missing in the
closure and the names come in order wherever the hash depends on them, in every interleaving of
calls that share the cache. -/
theorem answers_nix_iff (hH : CollisionFree H) (h : AcyclicClosure storeDir read closure)
    (hplain : ∀ p ∈ closure, ∀ d, read p = some d → PlainNames storeDir d) {depth : Nat}
    (hdepth : closure.card ≤ depth) {es : List (Event Derivation)}
    (hcalls : ∀ d, .call d ∈ es → Inside storeDir closure d ∧ PlainNames storeDir d)
    {s : System Derivation HashCache (Option Hashes)}
    (hrun : Runs.run (step (outputHashes H storeDir read depth)) ⟨[], []⟩ es = some s)
    {call : Derivation × Option (Routine HashCache (Option Hashes))} (hcall : call ∈ s.calls)
    {routine : Routine HashCache (Option Hashes)} (hroutine : call.2 = some routine) :
    (∃ answer, (routine.alone s.shared).1 = some answer ∧
      answer = nixHashes H storeDir read closure.card true call.1 ∧
        (answer = none ↔ Misses storeDir read (fun d => isFixedOutput d = false) call.1)) ↔
      Misses storeDir read (fun d => isFixedOutput d = false) call.1 ∨
        ¬Misses storeDir read (fun _ => True) call.1 ∧
          OrderedBelow H storeDir read closure.card call.1 := by
  have hsound := sound_calls h hdepth (fun _ hd => hd.1) hcalls hrun
  obtain ⟨answer, halone, ⟨hinside, hnames⟩, rfl⟩ :=
    (Routine.ensures_alone (hsound.calls call hcall routine hroutine) hsound.shared).1
  rw [← walkHashes_eq_nixHashes_iff hH h hplain hinside hnames]
  constructor
  · rintro ⟨answer, halone', hnix, -⟩
    rw [halone] at halone'
    exact (Option.some.inj halone').trans hnix
  · intro hnix
    refine ⟨_, halone, hnix, ?_⟩
    rw [hnix]
    exact nixHashes_eq_none_iff h hinside true

end Agreement

/-- The text that is hashed for `consumer bothMirrors`, with the names under the hash of the
file. -/
def consumerText (names : String) : String :=
  "Derive([(\"out\",\"\",\"\",\"\")],[(\"fixed:out:sha256:abc:/nix/store/f\"," ++ names ++
    ")],[],\"x86_64-linux\",\"/bin/sh\",[],[])"

/-- Both mirrors have one hash, so Nix wants one name under it, and the walk writes it twice.  A
fixed-output derivation with an input that is not there has a hash for Nix, and none for the
walk. -/
theorem walk_differs_from_nix :
    ((outputHashes transparent "/nix/store" mirrors 2 (consumer bothMirrors)).alone []).1 =
        some (some [("out", consumerText "[\"out\",\"out\"]")]) ∧
      nixHashes transparent "/nix/store" mirrors 2 true (consumer bothMirrors) =
        some [("out", consumerText "[\"out\"]")] ∧
      ((outputHashes transparent "/nix/store" mirrors 2
        { mirror "c" with inputDrvs := ⟨[(⟨"c.drv"⟩, ["out"])], by decide⟩ }).alone []).1 =
          some none ∧
      nixHashes transparent "/nix/store" mirrors 2 true
        { mirror "c" with inputDrvs := ⟨[(⟨"c.drv"⟩, ["out"])], by decide⟩ } =
          some [("out", "fixed:out:sha256:abc:/nix/store/f")] := by
  decide +kernel

def number : List Char → Nat
  | [] => 0
  | c :: text => Nat.pair c.toNat (number text) + 1

theorem number_injective : Function.Injective number := by
  intro text
  induction text with
  | nil =>
    intro text' h
    cases text' with
    | nil => rfl
    | cons c' text' => exact absurd h (Nat.succ_ne_zero _).symm
  | cons c text ih =>
    intro text' h
    cases text' with
    | nil => exact absurd h (Nat.succ_ne_zero _)
    | cons c' text' =>
      obtain ⟨hc, htext⟩ := Nat.pair_eq_pair.1 (Nat.succ.inj h)
      rw [Char.toNat_inj.1 hc, ih htext]

/-- A hash that writes the number of the text as a row of strokes. -/
def strokes : Hashing Nat where
  sha256 := fun s => number s.toList
  compress := id
  nix32Encode := fun n => String.ofList (List.replicate n 'a')
  hex := fun n => String.ofList (List.replicate n 'a')

theorem collisionFree_strokes : CollisionFree strokes := by
  constructor
  · intro text text' h
    have hlen := congrArg (fun s => s.toList.length) h
    simp only [hexdigest, strokes, String.toList_ofList, length_replicate] at hlen
    exact number_injective hlen
  · intro text c hc
    simp only [hexdigest, strokes, String.toList_ofList] at hc
    rw [eq_of_mem_replicate hc]
    decide

def oneMirror : Dict.Table StorePath (List String) := ⟨[(⟨"a.drv"⟩, ["out"])], by decide⟩

theorem plainNames_mirror (url : String) : PlainNames "/nix/store" (mirror url) := by
  refine ⟨fun o ho => ?_, nofun⟩
  obtain rfl := mem_singleton.1 ho
  exact ⟨by decide, by decide, by decide, by decide⟩

theorem plainNames_oneMirror : PlainNames "/nix/store" (consumer oneMirror) := by
  refine ⟨fun o ho => ?_, by decide⟩
  obtain rfl := mem_singleton.1 ho
  exact ⟨by decide, by decide, by decide, by decide⟩

theorem eq_mirror_of_reads {d : Derivation} {input : String × List String}
    (hin : input ∈ wanted "/nix/store" (consumer oneMirror)) (hd : mirrors input.1 = some d) :
    input = ("/nix/store/a.drv", ["out"]) ∧ d = mirror "a" := by
  obtain rfl := mem_singleton.1 hin
  exact ⟨rfl, (Option.some.inj hd).symm⟩

theorem not_misses_oneMirror :
    ¬Misses "/nix/store" mirrors (fun _ => True) (consumer oneMirror) := by
  rw [misses_iff]
  rintro ⟨-, ⟨input, hin, hlacks⟩ | ⟨d, ⟨input, hin, hd⟩, hmisses⟩⟩
  · obtain rfl := mem_singleton.1 hin
    obtain ⟨name, hname, habsent⟩ := hlacks (mirror "a") rfl
    exact habsent hname
  · obtain ⟨rfl, rfl⟩ := eq_mirror_of_reads hin hd
    rw [misses_iff] at hmisses
    rcases hmisses.2 with ⟨input, hnone, -⟩ | ⟨d, ⟨input, hnone, -⟩, -⟩ <;> cases hnone

theorem orderedBelow_oneMirror {δ : Type} (H : Hashing δ) (depth : Nat) :
    OrderedBelow H "/nix/store" mirrors depth (consumer oneMirror) := by
  refine orderedBelow_iff.2 ⟨fun _ found hfound digest => ?_, ?_⟩
  · obtain ⟨known, here, rest, -, hhere, hrest, rfl⟩ := pairs_cons_eq_some.1 hfound
    obtain rfl := Option.some.inj hrest
    rw [named_cons] at hhere
    obtain ⟨x, -, hhere⟩ := Option.bind_eq_some_iff.1 hhere
    obtain rfl := Option.some.inj hhere
    by_cases hx : x = digest
    · simp [Dict.valuesOf, hx]
    · simp [Dict.valuesOf, hx]
  · rintro d ⟨-, input, hin, -, hd⟩
    obtain ⟨rfl, rfl⟩ := eq_mirror_of_reads hin hd
    exact orderedBelow_of_fixed rfl

/-- A call for a derivation with one input, as far as its first pause. -/
def oneCall : Routine HashCache (Option Hashes) × HashCache :=
  (outputHashes strokes "/nix/store" mirrors 2 (consumer oneMirror)).advance []

theorem answers_nix_oneMirror :
    ∃ answer, (oneCall.1.alone oneCall.2).1 = some answer ∧
      answer = nixHashes strokes "/nix/store" mirrors mirrorPaths.card true (consumer oneMirror) ∧
        (answer = none ↔
          Misses "/nix/store" mirrors (fun d => isFixedOutput d = false) (consumer oneMirror)) := by
  have hplain : ∀ p ∈ mirrorPaths, ∀ d, mirrors p = some d → PlainNames "/nix/store" d := by
    intro p _ d hd
    rw [mirrors] at hd
    split_ifs at hd <;> cases hd <;> exact plainNames_mirror _
  have hcalls : ∀ d, Event.call d ∈ [Event.call (consumer oneMirror)] →
      Inside "/nix/store" mirrorPaths d ∧ PlainNames "/nix/store" d := by
    intro d hd
    obtain rfl : d = consumer oneMirror := by simpa using hd
    refine ⟨fun input hin => ?_, plainNames_oneMirror⟩
    obtain rfl := mem_singleton.1 hin
    decide
  exact (answers_nix_iff collisionFree_strokes acyclicClosure_mirrors hplain (by decide) hcalls rfl
    (mem_singleton.2 rfl) rfl).2
      (.inr ⟨not_misses_oneMirror, orderedBelow_oneMirror strokes _⟩)

end Pynixd.DrvHash
