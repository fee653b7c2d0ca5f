import Mathlib.Algebra.Order.BigOperators.Group.List
import Pynixd.Drv.Parser

/-!
# Canonical derivation texts

Nix writes every `.drv` file in one way: fields sorted, and an input whose tree has no
children as a plain list of output names, at the top **and at every depth below it**.
`pynixd/drv_parser.py` reads both spellings of a nested node and holds them alike, and
`_child_map_to_drv_node` marks every nested node as a dynamic one.

* `parseDrv_canonicalText` — **every canonical text is read**, as the derivation it was written
  from;
* `length_derivedPathMapNode_lt` — a tree is printed **longer than Nix writes it**, since every
  tree has a leaf;
* `serialize_canonical_iff` — a canonical text is printed again as it was **exactly when it is
  in the traditional format**.
-/

namespace Pynixd

open List Scan

/-! ## What Nix writes -/

def ChildMapNode.isLeaf : ChildMapNode → Bool
  | .mk _ children => children.isEmpty

mutual
/-- `unparseDerivedPathMapNode` of Nix, behind the comma: only a node with children stands in
round brackets. -/
def derivedPathMapNode : ChildMapNode → List Char
  | .mk outputs children =>
    if children.isEmpty then printUnquotedStrings outputs
    else
      let children := (derivedPathMapNodes children).insertionSort (·.1 ≤ ·.1)
      '(' :: (printUnquotedStrings outputs ++ ',' ::
        (printList (children.map fun child => printEntry child.1 (',' :: child.2)) ++ [')']))

def derivedPathMapNodes : List (String × ChildMapNode) → List (String × List Char)
  | [] => []
  | (name, child) :: children => (name, derivedPathMapNode child) :: derivedPathMapNodes children
end

mutual
/-- Output names are a set, which is held in order. -/
def ChildMapNode.NamesSorted : ChildMapNode → Prop
  | .mk outputs children => outputs.Pairwise (· < ·) ∧ NamesSortedChildren children

def NamesSortedChildren : List (String × ChildMapNode) → Prop
  | [] => True
  | (_, child) :: children => child.NamesSorted ∧ NamesSortedChildren children
end

/-- What Nix writes for an input behind its path and a comma. -/
def canonicalValue : List String ⊕ ChildMapNode → List Char
  | .inl outputs => printUnquotedStrings outputs
  | .inr node => derivedPathMapNode node

def canonicalEntry (storeDir : String) (e : Entry) : List Char :=
  printEntry (e.1.str storeDir) (',' :: canonicalValue e.2)

namespace Derivation

/-- The text that Nix writes for a derivation. -/
def canonicalText (storeDir : String) (d : Derivation) : List Char :=
  d.header ++ d.bodyOf storeDir ((d.sortedEntries storeDir).map (canonicalEntry storeDir))

/-- A derivation as Nix holds it: what is not escaped has nothing to escape, every field is in
order and without duplicates, and an input is a dynamic one exactly when its tree has
children. -/
structure Canonical (storeDir : String) (d : Derivation) : Prop
    extends d.Printable storeDir where
  sorted : d.sorted storeDir = d
  outputsApart : (d.outputs.map (·.outputName)).Nodup
  namesSorted : ∀ item ∈ d.inputDrvs.1, item.2.Pairwise (· < ·)
  treesSorted : ∀ item ∈ d.dynamicInputDrvs.1, item.2.NamesSorted
  grown : ∀ item ∈ d.dynamicInputDrvs.1, item.2.isLeaf = false

def serialize (storeDir : String) (d : Derivation) : List Char := d.unparse storeDir

end Derivation

def canonicalTexts (storeDir : String) : Set (List Char) :=
  {text | ∃ d : Derivation, d.Canonical storeDir ∧ d.canonicalText storeDir = text}

/-! ## Reading a canonical text -/

variable {node : ChildMapNode} {children : List (String × ChildMapNode)} {outputs : List String}
  {n : Nat}

theorem derivedPathMapNode_of_children (h : children ≠ []) :
    derivedPathMapNode (.mk outputs children) = nodeOf derivedPathMapNode outputs children := by
  have hmap : ∀ children, derivedPathMapNodes children =
      children.map fun child => (child.1, derivedPathMapNode child.2) := by
    intro children
    induction children with
    | nil => rfl
    | cons child children ih => rw [derivedPathMapNodes, ih]; rfl
  rw [derivedPathMapNode, if_neg (by simpa using h), hmap]
  simp only []
  rw [insertionSort_map _ Prod.fst, map_map]
  rfl

theorem derivedPathMapNode_nil (outputs : List String) :
    derivedPathMapNode (.mk outputs []) = printUnquotedStrings outputs := by
  rw [derivedPathMapNode, isEmpty_nil, if_pos rfl]

theorem depth_le_length_derivedPathMapNode (h : node.depth ≤ n) :
    node.depth ≤ (derivedPathMapNode node).length := by
  induction n generalizing node with
  | zero =>
    obtain ⟨outputs, children⟩ := node
    exact absurd h (Nat.not_succ_le_zero _)
  | succ n ih =>
    obtain ⟨outputs, children⟩ := node
    by_cases hleaf : children = []
    · subst hleaf
      exact Nat.le_add_left 1 _
    · rw [derivedPathMapNode_of_children hleaf]
      apply depth_lt_length_nodeOf
      exact fun child hc => ih ((depth_le_of_mem child hc).trans (Nat.le_of_succ_le_succ h))

/-- **A node is read as Nix writes it**, to any depth that it has. -/
theorem parses_derivedPathMapNode (hdepth : depthChildren children < n)
    (hchildren : children ≠ []) (h : (ChildMapNode.mk outputs children).Plain) :
    Parses (parseChildMapNode n) (derivedPathMapNode (.mk outputs children)) []
      (ChildMapNode.mk outputs children).sorted := by
  induction n generalizing outputs children with
  | zero => exact absurd hdepth (Nat.not_lt_zero _)
  | succ n ih =>
    obtain ⟨houtputs, hkeys, hplain⟩ := h
    rw [derivedPathMapNode_of_children hchildren]
    apply parses_nodeOf houtputs hkeys
    rintro ⟨name, outputs', children'⟩ hchild
    obtain ⟨hname, hnode⟩ := plain_of_mem hplain _ hchild
    refine ⟨hname, ?_⟩
    -- a nested leaf is the plain list, which `_parse_child_value` reads as a node too
    by_cases hleaf : children' = []
    · subst hleaf
      exact Parses.peek_bind (Parses.bind_pure (parses_stringList hnode.1) rfl)
    · have hless : depthChildren children' < n := by
        have := depth_le_of_mem _ hchild
        rw [ChildMapNode.depth] at this
        omega
      have hnested := ih hless hleaf hnode
      rw [derivedPathMapNode_of_children hleaf] at hnested ⊢
      exact Parses.peek_bind hnested

theorem parses_parseNode_canonical (hchildren : children ≠ [])
    (h : (ChildMapNode.mk outputs children).Plain) :
    Parses parseNode (derivedPathMapNode (.mk outputs children)) []
      (ChildMapNode.mk outputs children).sorted := by
  intro rest pos
  apply parses_derivedPathMapNode ?_ hchildren h
  have := depth_le_length_derivedPathMapNode (le_refl (ChildMapNode.mk outputs children).depth)
  rw [ChildMapNode.depth] at this
  simp only [length_append]
  omega

section Reading

variable {storeDir : String} {d : Derivation}

theorem mem_dynamicInputDrvs {p : StorePath} {node : ChildMapNode}
    (h : (p, .inr node) ∈ d.entries) : (p, node) ∈ d.dynamicInputDrvs.1 := by
  rcases mem_append.1 h with h | h
  · obtain ⟨item, _, heq⟩ := mem_map.1 h
    cases heq
  · obtain ⟨item, hitem, heq⟩ := mem_map.1 h
    cases heq
    exact hitem

theorem parses_canonicalEntries (h : d.Canonical storeDir) :
    Parses (parseInputDrvsDynamic storeDir)
      (printList ((d.sortedEntries storeDir).map (canonicalEntry storeDir))) []
      ((d.sorted storeDir).inputDrvs, (d.sorted storeDir).dynamicInputDrvs) := by
  have hplain := h.inputs.entries
  apply parses_dynamicEntries fun e he => (hplain e he).1
  rintro ⟨p, outputs | ⟨outputs, children⟩⟩ he inputs
  · refine ⟨⟨'[', _, rfl, by decide⟩, Parses.peek_bind ?_⟩
    exact Parses.bind_pure (parses_stringList ((hplain _ he).2.1 outputs rfl)) rfl
  · have hchildren : children ≠ [] := by
      simpa [ChildMapNode.isLeaf] using h.grown _ (mem_dynamicInputDrvs he)
    have hnode := parses_parseNode_canonical hchildren ((hplain _ he).2.2 _ rfl)
    rw [canonicalValue]
    rw [derivedPathMapNode_of_children hchildren] at hnode ⊢
    exact ⟨⟨'(', _, rfl, by decide⟩, Parses.peek_bind (Parses.bind_pure hnode rfl)⟩

theorem map_canonicalEntry (h : d.hasDynamicDrvDep = false) :
    (d.sortedEntries storeDir).map (canonicalEntry storeDir) =
      (d.sortedEntries storeDir).map (entryText storeDir) := by
  have hnone : d.dynamicInputDrvs.1 = [] := by simpa [Derivation.hasDynamicDrvDep] using h
  apply map_congr_left
  rintro ⟨p, outputs | node⟩ he
  · rfl
  · have hmem := mem_dynamicInputDrvs ((mem_insertionSort _).1 he)
    rw [hnone] at hmem
    cases hmem

/-- **Every canonical text is read**, as the derivation that it was written from. -/
theorem parseDrv_canonicalText (h : d.Canonical storeDir) :
    parseDrv storeDir (d.canonicalText storeDir) = .ok d := by
  have hparse := parseDrv_of_inputs h.toPrintable (fun _ => parses_canonicalEntries h)
    map_canonicalEntry
  rwa [h.sorted] at hparse

end Reading

/-! ## Printing it again -/

theorem length_joined (texts : List (List Char)) : (joined ',' texts).length +
    (if texts = [] then 0 else 1) = (texts.map fun text => text.length + 1).sum := by
  cases texts with
  | nil => rfl
  | cons text texts =>
    simp only [joined, length_append, length_flatMap, length_cons, map_cons,
      sum_cons, reduceCtorEq, if_false]
    omega

theorem length_printList_lt {β : Type} {f g : β → List Char} {xs : List β}
    (hle : ∀ x ∈ xs, (f x).length ≤ (g x).length) (hlt : ∃ x ∈ xs, (f x).length < (g x).length) :
    (printList (xs.map f)).length < (printList (xs.map g)).length := by
  have hsum : ((xs.map f).map fun text => text.length + 1).sum <
      ((xs.map g).map fun text => text.length + 1).sum := by
    rw [map_map, map_map]
    apply sum_lt_sum
    · exact fun x hx => Nat.succ_le_succ (hle x hx)
    · obtain ⟨x, hx, hx'⟩ := hlt
      exact ⟨x, hx, Nat.succ_lt_succ hx'⟩
  rw [← length_joined, ← length_joined] at hsum
  simp only [map_eq_nil_iff] at hsum
  simp only [printList, length_cons, length_append]
  omega

theorem length_printEntry (key : String) (node : List Char) :
    (printEntry key node).length = (printUnquotedString key).length + node.length + 2 := by
  simp only [printEntry, length_cons, length_append, length_nil]
  omega

/-- **A tree is printed longer than Nix writes it**: it has a leaf, and the leaf is printed with
round brackets and an empty list of children. -/
theorem length_derivedPathMapNode_lt (h : node.depth ≤ n) :
    (derivedPathMapNode node).length < (nestedText node).length := by
  induction n generalizing node with
  | zero =>
    obtain ⟨outputs, children⟩ := node
    exact absurd h (Nat.not_succ_le_zero _)
  | succ n ih =>
    obtain ⟨outputs, children⟩ := node
    rw [nestedText, nodeText_eq]
    by_cases hleaf : children = []
    · subst hleaf
      rw [derivedPathMapNode_nil, nodeOf]
      simp only [length_cons, length_append]
      omega
    · rw [derivedPathMapNode_of_children hleaf]
      have hchild : ∀ child ∈ children.insertionSort (·.1 ≤ ·.1),
          (printEntry child.1 (',' :: derivedPathMapNode child.2)).length <
            (printEntry child.1 (',' :: nestedText child.2)).length := by
        intro child hc
        have hc' := depth_le_of_mem child ((mem_insertionSort _).1 hc)
        have := ih (hc'.trans (Nat.le_of_succ_le_succ h))
        simp only [length_printEntry, length_cons]
        omega
      obtain ⟨child, hc⟩ := exists_mem_of_ne_nil children hleaf
      have hc' := (mem_insertionSort (·.1 ≤ ·.1)).2 hc
      have := length_printList_lt (fun child hc => (hchild child hc).le) ⟨child, hc', hchild _ hc'⟩
      simp only [nodeOf, length_cons, length_append]
      omega

section Printing

variable {storeDir : String} {d : Derivation}

theorem length_canonicalEntry (e : Entry) :
    (canonicalEntry storeDir e).length ≤ (entryText storeDir e).length ∧
      (e.2.isRight → (canonicalEntry storeDir e).length < (entryText storeDir e).length) := by
  rw [entryText_eq]
  obtain ⟨p, outputs | node⟩ := e
  · exact ⟨le_refl _, nofun⟩
  · have := length_derivedPathMapNode_lt (le_refl node.depth)
    simp only [canonicalEntry, canonicalValue, valueText, length_printEntry, length_cons]
    omega

theorem serialize_ne_canonicalText (hapart : d.Apart) (h : d.hasDynamicDrvDep = true) :
    d.serialize storeDir ≠ d.canonicalText storeDir := by
  intro heq
  have hnone : d.dynamicInputDrvs.1 ≠ [] := by simpa [Derivation.hasDynamicDrvDep] using h
  obtain ⟨item, hitem⟩ := exists_mem_of_ne_nil _ hnone
  have hmem : ((item.1, .inr item.2) : Entry) ∈ d.sortedEntries storeDir :=
    (mem_insertionSort _).2 (mem_append_right _ (mem_map_of_mem hitem))
  have hlt : (printList ((d.sortedEntries storeDir).map (canonicalEntry storeDir))).length <
      (printList ((d.sortedEntries storeDir).map (entryText storeDir))).length :=
    length_printList_lt (fun e _ => (length_canonicalEntry e).1)
      ⟨_, hmem, (length_canonicalEntry _).2 rfl⟩
  have hlen := congrArg List.length heq
  rw [Derivation.serialize, Derivation.unparse_eq hapart, Derivation.bodyText_eq,
    Derivation.canonicalText] at hlen
  simp only [Derivation.bodyOf, length_append, length_cons] at hlen
  omega

theorem derive_prefix_iff (d : Derivation) (storeDir : String) :
    "Derive(".toList <+: d.canonicalText storeDir ↔ d.hasDynamicDrvDep = false := by
  rw [Derivation.canonicalText, Derivation.header]
  cases d.hasDynamicDrvDep with
  | false => simp
  | true => simp

/-- **A canonical text is printed again as it was exactly when it is in the traditional
format.**  Nix writes the dynamic one only for an input with a tree, and every tree has a leaf
that `unparse` spells in the other way. -/
theorem serialize_canonical_iff {storeDir : String} {text : List Char}
    (h : text ∈ canonicalTexts storeDir) :
    (parseDrv storeDir text).map (Derivation.serialize storeDir) = .ok text ↔
      "Derive(".toList <+: text := by
  obtain ⟨d, hd, rfl⟩ := h
  rw [parseDrv_canonicalText hd, derive_prefix_iff]
  cases hdep : d.hasDynamicDrvDep with
  | false =>
    have hsame : d.serialize storeDir = d.canonicalText storeDir := by
      rw [Derivation.serialize, Derivation.unparse_eq hd.apart, Derivation.bodyText_eq,
        ← map_canonicalEntry hdep, Derivation.canonicalText]
    exact ⟨fun _ => rfl, fun _ => congrArg Except.ok hsame⟩
  | true =>
    refine ⟨fun heq => ?_, nofun⟩
    exact absurd (Except.ok.inj heq) (serialize_ne_canonicalText hd.apart hdep)

end Printing

def simpleDrv : Derivation where
  outputs := [⟨"", "", "dev", "/nix/store/d"⟩, ⟨"", "", "out", "/nix/store/o"⟩]
  inputDrvs := ⟨[(⟨"b.drv"⟩, ["dev", "out"])], by decide⟩
  inputSrcs := {⟨"src"⟩}
  platform := "x86_64-linux"
  builder := "/bin/sh"
  args := ["-c", "true"]
  env := ⟨[("out", "/nix/store/o"), ("x", "a\tb")], by decide⟩
  isDynamic := false
  dynamicInputDrvs := .empty

theorem canonical_simpleDrv : simpleDrv.Canonical "/nix/store" := by
  have henv : simpleDrv.env.1.insertionSort itemLe = simpleDrv.env.1 := by decide +kernel
  refine ⟨⟨?_, ⟨by decide, nofun⟩, by unfold Derivation.Apart; decide, ?_, by decide, rfl⟩, ?_,
    by decide, by decide, nofun, nofun⟩
  · intro o ho
    rcases mem_pair.1 ho with rfl | rfl <;>
      exact ⟨by decide, by decide, by decide, by decide⟩
  · intro p hp
    obtain rfl := Finset.mem_singleton.1 hp
    decide
  · have henv' : (simpleDrv.sorted "/nix/store").env = simpleDrv.env := Subtype.ext henv
    exact congrArg (fun env => { simpleDrv with env }) henv'

theorem serialize_simpleDrv :
    simpleDrv.canonicalText "/nix/store" ∈ canonicalTexts "/nix/store" ∧
      (parseDrv "/nix/store" (simpleDrv.canonicalText "/nix/store")).map
        (Derivation.serialize "/nix/store") = .ok (simpleDrv.canonicalText "/nix/store") := by
  have h : simpleDrv.canonicalText "/nix/store" ∈ canonicalTexts "/nix/store" :=
    ⟨_, canonical_simpleDrv, rfl⟩
  exact ⟨h, (serialize_canonical_iff h).2 (by decide +kernel)⟩

/-- A derivation that needs the output `bin` of the derivation that `a.drv` builds. -/
def nestedDrv : Derivation where
  outputs := [⟨"", "", "out", "/nix/store/o"⟩]
  inputDrvs := .empty
  inputSrcs := ∅
  platform := "x86_64-linux"
  builder := "/bin/sh"
  args := []
  env := .empty
  isDynamic := true
  dynamicInputDrvs := ⟨[(⟨"a.drv"⟩, .mk [] [("out", .mk ["bin"] [])])], nodup_singleton _⟩

/-- The text of `nestedDrv`, around its one input. -/
def withInput (input : String) : List Char :=
  ("DrvWithVersion(\"xp-dyn-drv\",[(\"out\",\"/nix/store/o\",\"\",\"\")],[(\"/nix/store/a.drv\"," ++
    input ++ ")],[],\"x86_64-linux\",\"/bin/sh\",[],[])").toList

theorem serialize_nestedDrv :
    withInput "([],[(\"out\",[\"bin\"])])" ∈ canonicalTexts "/nix/store" ∧
      (parseDrv "/nix/store" (withInput "([],[(\"out\",[\"bin\"])])")).map
        (Derivation.serialize "/nix/store") =
          .ok (withInput "([],[(\"out\",([\"bin\"],[]))])") ∧
      withInput "([],[(\"out\",([\"bin\"],[]))])" ≠ withInput "([],[(\"out\",[\"bin\"])])" := by
  have hnode : ChildMapNode.Plain (.mk [] [("out", .mk ["bin"] [])]) := by
    simp only [ChildMapNode.Plain, PlainChildren]
    decide
  have h : nestedDrv.Canonical "/nix/store" := by
    have hnone : ∀ {α : Type} {P : α → Prop}, ∀ x ∈ ([] : List α), P x :=
      fun x hx => absurd hx not_mem_nil
    refine ⟨⟨?_, ⟨hnone, ?_⟩, hnone, fun p hp => absurd hp (Finset.notMem_empty p), by decide,
      rfl⟩, rfl, by decide, hnone, ?_, ?_⟩
    · intro o ho
      obtain rfl := mem_singleton.1 ho
      exact ⟨by decide, by decide, by decide, by decide⟩
    · intro item hitem
      obtain rfl := mem_singleton.1 hitem
      exact ⟨by decide, hnode⟩
    · intro item hitem
      obtain rfl := mem_singleton.1 hitem
      simp [ChildMapNode.NamesSorted, NamesSortedChildren]
    · intro item hitem
      obtain rfl := mem_singleton.1 hitem
      rfl
  have htext : nestedDrv.canonicalText "/nix/store" = withInput "([],[(\"out\",[\"bin\"])])" := by
    decide +kernel
  rw [← htext, parseDrv_canonicalText h]
  exact ⟨⟨_, h, rfl⟩, congrArg Except.ok (by decide +kernel), by decide +kernel⟩

end Pynixd
