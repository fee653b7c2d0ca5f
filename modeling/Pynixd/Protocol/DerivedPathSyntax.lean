import Pynixd.Protocol.DerivedPath
import Pynixd.Protocol.Requests

/-!
# The two syntaxes of derived paths

`_parse_components` of `pynixd/derived_path.py` cuts a text from the right, and `to_string` and
`__str__` join the parts from the left, with `^` for the command line and `!` for the wire.

* `parseOutputsSpec_join` — what a list of outputs is read as;
* `chainLoop_join` — the loop over the chain **gives back the parts** that were joined;
* `parseDerivedPath_toString`, `parseDerivedPathLegacy_str` — either syntax gives back what was
  printed in it, but for two lists of outputs;
* `parseComponents_print` — the same with printing after reading, and what `outer` names on the
  way to the root.
-/

namespace Pynixd

open List

/-- What is before and behind `s.rfind(sep)`. -/
def rpartition (sep : Char) (s : List Char) : Option (List Char × List Char) :=
  if sep ∈ s then
    some (((s.reverse.dropWhile (· ≠ sep)).drop 1).reverse,
      (s.reverse.takeWhile (· ≠ sep)).reverse)
  else none

def parseOutputsSpec (s : List Char) : OutputsSpec :=
  if s = ['*'] then .all else .names ((s.splitOn ',').map String.ofList).toFinset

theorem length_of_rpartition {sep : Char} {s before after : List Char}
    (h : rpartition sep s = some (before, after)) : before.length < s.length := by
  unfold rpartition at h
  split_ifs at h with hsep
  cases h
  have hle := (dropWhile_suffix (· ≠ sep) (l := s.reverse)).length_le
  have hpos := length_pos_of_mem hsep
  simp only [length_reverse, length_drop] at hle ⊢
  omega

/-- The loop of `_parse_components`: the root, and the chain with what is read of it already. -/
def chainLoop (sep : Char) (remaining : List Char) (chainParts : List String) :
    List Char × List String :=
  match _h : rpartition sep remaining with
  | none => (remaining, chainParts.reverse)
  | some (before, after) => chainLoop sep before (chainParts ++ [String.ofList after])
termination_by remaining.length
decreasing_by exact length_of_rpartition _h

def parseComponents (storeDir : String) (sep : Char) (s : String) :
    Except WireError DerivedPath :=
  match rpartition sep s.toList with
  | none => do
    let base ← (storePath storeDir).fromWire s
    pure ⟨⟨base⟩, [], none⟩
  | some (remaining, last) => do
    let (root, chain) := chainLoop sep remaining []
    let base ← (storePath storeDir).fromWire (String.ofList root)
    pure ⟨⟨base⟩, chain, some (parseOutputsSpec last)⟩

def parseDerivedPath (storeDir s : String) : Except WireError DerivedPath :=
  parseComponents storeDir '^' s

/-- `parse_derived_path_legacy`, and the constructor. -/
def parseDerivedPathLegacy (storeDir s : String) : Except WireError DerivedPath :=
  parseComponents storeDir '!' s

/-- A name free of the separators and commas. -/
def PlainName (name : String) : Prop := ∀ c ∈ ['!', '^', ','], c ∉ name.toList

instance (name : String) : Decidable (PlainName name) :=
  inferInstanceAs (Decidable (∀ c ∈ ['!', '^', ','], c ∉ name.toList))

variable {sep : Char} {s : List Char} {chain names : List String}

theorem rpartition_eq_none (h : sep ∉ s) : rpartition sep s = none := if_neg h

theorem rpartition_append (h : sep ∉ s) (before : List Char) :
    rpartition sep (before ++ sep :: s) = some (before, s) := by
  have hs : ∀ c ∈ s.reverse, decide (c ≠ sep) = true := by
    intro c hc
    simpa using ne_of_mem_of_not_mem (mem_reverse.1 hc) h
  rw [rpartition, reverse_append, reverse_cons, append_assoc,
    dropWhile_append_of_pos hs, takeWhile_append_of_pos hs]
  simp

theorem intercalate_concat (root : List Char) (parts : List (List Char)) (last : List Char) :
    [sep].intercalate (root :: parts ++ [last]) =
      [sep].intercalate (root :: parts) ++ sep :: last := by
  induction parts generalizing root with
  | nil => simp
  | cons part parts ih =>
    rw [cons_append, cons_append, intercalate_cons_cons, ← cons_append, ih,
      intercalate_cons_cons, append_assoc _ _ (sep :: last)]

/-- **The loop gives back the parts that were joined.** -/
theorem chainLoop_join {root : List Char} (hroot : sep ∉ root)
    (hchain : ∀ o ∈ chain, sep ∉ o.toList) (chainParts : List String) :
    chainLoop sep ([sep].intercalate (root :: chain.map String.toList)) chainParts =
      (root, chain ++ chainParts.reverse) := by
  induction chain using List.reverseRecOn generalizing chainParts with
  | nil =>
    rw [map_nil, intercalate_singleton, chainLoop]
    split
    · rfl
    · next before after h =>
      rw [rpartition_eq_none hroot] at h
      cases h
  | append_singleton chain o ih =>
    rw [map_append, map_singleton, ← cons_append, intercalate_concat, chainLoop]
    split
    · next h =>
      rw [rpartition_append (hchain o (by simp))] at h
      cases h
    · next before after h =>
      rw [rpartition_append (hchain o (by simp))] at h
      cases h
      rw [ih fun o ho => hchain o (by simp [ho])]
      simp

theorem parseOutputsSpec_join (hnames : names ≠ []) (hcomma : ∀ o ∈ names, ',' ∉ o.toList) :
    parseOutputsSpec (",".intercalate names).toList =
      if names = ["*"] then .all else .names names.toFinset := by
  have hsplit : (",".intercalate names).toList.splitOn ',' = names.map String.toList := by
    rw [String.toList_intercalate]
    exact splitOn_intercalate ',' (by simpa using hcomma) (by simpa using hnames)
  have hstar : (",".intercalate names).toList = ['*'] ↔ names = ["*"] := by
    refine ⟨fun h => ?_, fun h => by rw [h]; rfl⟩
    rw [h] at hsplit
    exact map_injective_iff.2 (fun _ _ => String.toList_inj.1) hsplit.symm
  rw [parseOutputsSpec, hsplit]
  simp only [hstar]
  simp [Function.comp_def]

theorem parseComponents_join {storeDir : String} {root : StorePath} {last : String}
    (hroot : sep ∉ (root.str storeDir).toList) (hchain : ∀ o ∈ chain, sep ∉ o.toList)
    (hlast : sep ∉ last.toList) :
    parseComponents storeDir sep
        ((String.singleton sep).intercalate (root.str storeDir :: chain ++ [last])) =
      .ok ⟨root, chain, some (parseOutputsSpec last.toList)⟩ := by
  have htext : ((String.singleton sep).intercalate (root.str storeDir :: chain ++ [last])).toList =
      [sep].intercalate ((root.str storeDir).toList :: chain.map String.toList) ++
        sep :: last.toList := by
    rw [← intercalate_concat]
    simp
  rw [parseComponents, htext, rpartition_append hlast]
  simp only [chainLoop_join hroot hchain, String.ofList_toList]
  have hback := fromWire_toWire_storePath storeDir root.base
  rw [show root.str storeDir = (storePath storeDir).toWire root.base from rfl, hback]
  simp [bind, Except.bind, pure, Except.pure]

theorem not_mem_join {c : Char} (hc : c ≠ ',') (h : ∀ o ∈ names, c ∉ o.toList) :
    c ∉ (",".intercalate names).toList := by
  induction names with
  | nil => simp
  | cons o names ih =>
    cases names with
    | nil => simpa using h
    | cons o' names =>
      simpa [hc, h o (by simp)] using ih fun o ho => h o (by simp [ho])

theorem toFinset_sortedSet (wanted : Finset String) : (sortedSet wanted).toFinset = wanted := by
  ext o
  rw [mem_toFinset, mem_sortedSet]

/-- Reading the printed outputs gives them back, but for the empty set and for the single `*`. -/
theorem parseOutputsSpec_toString {outputs : OutputsSpec}
    (hcomma : ∀ wanted, outputs = .names wanted → ∀ o ∈ wanted, ',' ∉ o.toList) :
    parseOutputsSpec outputs.toString.toList = outputs ↔
      outputs ≠ .names ∅ ∧ outputs ≠ .names {"*"} := by
  cases outputs with
  | all => exact iff_of_true rfl ⟨nofun, nofun⟩
  | names wanted =>
    by_cases hempty : wanted = ∅
    · subst hempty
      exact iff_of_false (by decide) fun h => h.1 rfl
    · have hnames : sortedSet wanted ≠ [] := by
        intro hnil
        exact hempty (by rw [← toFinset_sortedSet wanted, hnil]; rfl)
      have hstar : sortedSet wanted = ["*"] ↔ wanted = {"*"} := by
        refine ⟨fun h => ?_, fun h => by rw [h]; rfl⟩
        rw [← toFinset_sortedSet wanted, h]
        rfl
      rw [OutputsSpec.toString, parseOutputsSpec_join hnames fun o ho =>
        hcomma wanted rfl o (mem_sortedSet.1 ho), toFinset_sortedSet]
      split_ifs with h
      · simp [hstar.1 h]
      · simp [hempty, mt hstar.2 h]

theorem toString_parseOutputsSpec (hnames : names ≠ []) (hcomma : ∀ o ∈ names, ',' ∉ o.toList) :
    (parseOutputsSpec (",".intercalate names).toList).toString =
      ",".intercalate (sortedSet names.toFinset) := by
  rw [parseOutputsSpec_join hnames hcomma]
  split_ifs with h
  · rw [h]
    rfl
  · rfl

namespace DerivedPath

variable {p : DerivedPath}

theorem chain_outer : p.outer.chain = p.chain.dropLast := by
  unfold outer
  split
  · next h => simp [getLast?_eq_none_iff.1 h]
  · rfl

theorem isNested_iterate (k : Nat) : (outer^[k] p).isNested = true ↔ k < p.chain.length := by
  induction k generalizing p with
  | zero => simp [isNested, length_pos_iff]
  | succ k ih =>
    rw [Function.iterate_succ_apply, ih, chain_outer, length_dropLast]
    omega

theorem outputs_iterate {k : Nat} (hk : k < p.chain.length) :
    (outer^[k + 1] p).outputs = (p.chain.reverse[k]?).map fun o => .names {o} := by
  induction k generalizing p with
  | zero =>
    rw [← head?_eq_getElem?, head?_reverse]
    show p.outer.outputs = _
    unfold outer
    split
    · next h => simp [getLast?_eq_none_iff.1 h] at hk
    · next h => rw [h]; rfl
  | succ k ih =>
    rw [Function.iterate_succ_apply, ih (by rw [chain_outer, length_dropLast]; omega),
      chain_outer, ← tail_reverse, getElem?_tail]

end DerivedPath

/-- The names of a derived path can be told apart in its text: none of them holds a separator or
a comma, and a chain has outputs at its end. -/
structure DerivedPath.Printable (sep : Char) (storeDir : String) (p : DerivedPath) : Prop where
  root : sep ∉ (p.drvPath.str storeDir).toList
  chain : ∀ o ∈ p.chain, PlainName o
  wanted : ∀ wanted, p.outputs = some (.names wanted) → ∀ o ∈ wanted, PlainName o
  bare : p.outputs = none → p.chain = []

section Print

variable {storeDir : String} {p : DerivedPath}

theorem PlainName.not_mem (hsep : sep = '!' ∨ sep = '^') {name : String} (h : PlainName name) :
    sep ∉ name.toList := h sep (by simp; tauto)

theorem ne_comma (hsep : sep = '!' ∨ sep = '^') : sep ≠ ',' := by
  rintro rfl
  simp at hsep

/-- **Reading gives back what was printed exactly when** the outputs are not the empty set and not
the single name `*`. -/
theorem parseComponents_print_iff (hsep : sep = '!' ∨ sep = '^') (h : p.Printable sep storeDir) :
    parseComponents storeDir sep (p.print (String.singleton sep) storeDir) = .ok p ↔
      p.outputs ≠ some (.names ∅) ∧ p.outputs ≠ some (.names {"*"}) := by
  obtain ⟨hroot, hchain, hwanted, hbare⟩ := h
  obtain ⟨root, chain, outputs⟩ := p
  cases outputs with
  | none =>
    obtain rfl := hbare rfl
    have hback := fromWire_toWire_storePath storeDir root.base
    refine iff_of_true ?_ ⟨nofun, nofun⟩
    rw [parseComponents, DerivedPath.print, rpartition_eq_none hroot]
    simp only [StorePath.str, storePath] at hback ⊢
    rw [hback]
    rfl
  | some outputs =>
    have hlast : sep ∉ outputs.toString.toList := by
      cases outputs with
      | all => rcases hsep with rfl | rfl <;> decide
      | names wanted =>
        exact not_mem_join (ne_comma hsep) fun o ho =>
          (hwanted wanted rfl o (mem_sortedSet.1 ho)).not_mem hsep
    rw [DerivedPath.print,
      parseComponents_join hroot (fun o ho => (hchain o ho).not_mem hsep) hlast]
    have hcommas : ∀ wanted, outputs = .names wanted → ∀ o ∈ wanted, ',' ∉ o.toList :=
      fun wanted h o ho => hwanted wanted (congrArg some h) o ho ',' (by simp)
    simpa using parseOutputsSpec_toString hcommas

theorem parseDerivedPath_toString (h : p.Printable '^' storeDir) :
    parseDerivedPath storeDir (p.toString storeDir) = .ok p ↔
      p.outputs ≠ some (.names ∅) ∧ p.outputs ≠ some (.names {"*"}) :=
  parseComponents_print_iff (.inr rfl) h

theorem parseDerivedPathLegacy_str (h : p.Printable '!' storeDir) :
    parseDerivedPathLegacy storeDir (p.str storeDir) = .ok p ↔
      p.outputs ≠ some (.names ∅) ∧ p.outputs ≠ some (.names {"*"}) :=
  parseComponents_print_iff (.inl rfl) h

/-- **The two syntaxes.**  Reading gives back what was printed but for two lists of outputs;
printing what was read sorts the last list and drops what is in it twice; and `outer` takes the
length of the chain to the root, naming its outputs from the inside out. -/
theorem parseComponents_print (hsep : sep = '!' ∨ sep = '^') (h : p.Printable sep storeDir) :
    (parseComponents storeDir sep (p.print (String.singleton sep) storeDir) = .ok p ↔
      p.outputs ≠ some (.names ∅) ∧ p.outputs ≠ some (.names {"*"})) ∧
    (∀ names ≠ [], (∀ o ∈ names, PlainName o) → ∃ q,
      parseComponents storeDir sep ((String.singleton sep).intercalate
        (p.drvPath.str storeDir :: p.chain ++ [",".intercalate names])) = .ok q ∧
      q.print (String.singleton sep) storeDir = (String.singleton sep).intercalate
        (p.drvPath.str storeDir :: p.chain ++ [",".intercalate (sortedSet names.toFinset)])) ∧
    (∀ k, (DerivedPath.outer^[k] p).isNested = true ↔ k < p.chain.length) ∧
    ∀ k < p.chain.length, (DerivedPath.outer^[k + 1] p).outputs =
      (p.chain.reverse[k]?).map fun o => .names {o} := by
  refine ⟨parseComponents_print_iff hsep h, fun names hnames hplains => ?_,
    DerivedPath.isNested_iterate, fun k => DerivedPath.outputs_iterate⟩
  refine ⟨_, parseComponents_join h.root (fun o ho => (h.chain o ho).not_mem hsep)
    (not_mem_join (ne_comma hsep) fun o ho => (hplains o ho).not_mem hsep), ?_⟩
  rw [DerivedPath.print]
  dsimp only
  rw [toString_parseOutputsSpec hnames fun o ho => hplains o ho ',' (by simp)]

end Print

/-- What is built of `a.drv` is a derivation, and its `lib` is wanted. -/
def nestedPath : DerivedPath := ⟨⟨"a.drv"⟩, ["out"], some (.names {"lib"})⟩

theorem parseComponents_print_nested :
    parseComponents "/nix/store" '^' (nestedPath.print "^" "/nix/store") = .ok nestedPath :=
  (parseComponents_print (.inr rfl) ⟨by decide, by simp [nestedPath, PlainName],
    fun wanted h => by cases h; simp [PlainName], fun h => by cases h⟩).1.2
    ⟨by decide, by decide⟩

def starPath : DerivedPath := ⟨⟨"a.drv"⟩, [], some (.names {"*"})⟩

/-- It is read back as all outputs. -/
theorem parseComponents_star :
    parseComponents "/nix/store" '!' (starPath.print "!" "/nix/store") =
      .ok ⟨⟨"a.drv"⟩, [], some .all⟩ :=
  @parseComponents_join '!' [] _ _ _ (by decide) nofun (by decide)

end Pynixd
