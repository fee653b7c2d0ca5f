import Pynixd.Drv.Unparse
import Pynixd.Protocol.Requests

/-!
# Parsing a derivation

`_Parser` of `pynixd/drv_parser.py` is a recursive descent over the text of a `.drv` file,
written by hand next to the printer and apart from it.

* `parseDrv_unparse` — **what `unparse` prints, `parse_drv` reads back**, in the order in
  which it was printed.
-/

namespace Pynixd

open List Scan

/-! ## The parser -/

/-- The reasons that `_Parser` gives for itself; each but the last is a `ValueError`. -/
inductive DrvError where
  | unterminatedString (pos : Nat)
  | expectedOpen (pos : Nat) (got : Char)
  | unknownVersion (version : String)
  /-- What `StorePath` raises for the path of another store. -/
  | storePath (e : WireError)
  /-- `RecursionError`.  The stack is taken to be as deep as the text is long. -/
  | recursion
  deriving DecidableEq, Repr

/-- A method of `_Parser`. -/
abbrev DrvParser (α : Type) := Parser Char DrvError α

/-- `_skip_ws` skips these. -/
def isBlank (c : Char) : Bool := c = ' ' || c = '\t' || c = '\n' || c = '\r'

def skipWs : DrvParser Unit := skip isBlank

/-- `[^"\\]` of `_STRING_CHUNK`. -/
def isPlain (c : Char) : Bool := c ≠ '"' && c ≠ '\\'

/-- What stands for an escape: `_ESCAPE`, and an unknown one passes through. -/
def unescape : Char → List Char
  | '"' => ['"']
  | '\\' => ['\\']
  | '/' => ['/']
  | 'b' => [Char.ofNat 8]
  | 'f' => [Char.ofNat 12]
  | 'n' => ['\n']
  | 'r' => ['\r']
  | 't' => ['\t']
  | esc => ['\\', esc]

/-- The loop of `parse_string`: a run of plain characters, and what ends it. -/
def parseChunks (parts : List Char) (cur : Cursor Char) :
    Except (Fault Char DrvError) (String × Cursor Char) :=
  let content := cur.rest.takeWhile isPlain
  match h : cur.rest.dropWhile isPlain with
  | [] => .error (.own (.unterminatedString cur.pos))
  | '"' :: rest => .ok (String.ofList (parts ++ content), ⟨rest, cur.pos + content.length + 1⟩)
  | _ :: [] => .error .eof
  | _ :: esc :: rest =>
    parseChunks (parts ++ content ++ unescape esc) ⟨rest, cur.pos + content.length + 2⟩
termination_by cur.rest.length
decreasing_by
  have hlen := (dropWhile_suffix isPlain (l := cur.rest)).length_le
  rw [h] at hlen
  simp only [length_cons] at hlen
  omega

def parseString : DrvParser String := do
  expectOne '"'
  parseChunks []

/-- What every list of the format is read with: items into something that starts empty. -/
def parseItems {σ : Type} (started : σ → Bool) (item : σ → DrvParser σ) (init : σ) :
    DrvParser σ :=
  bracketed '[' ']' ',' isBlank started item init

def parseStringList : DrvParser (List String) :=
  parseItems (fun result => !result.isEmpty) (fun result => do
    let s ← parseString
    pure (result ++ [s])) []

/-- `StorePath(self.parse_string())`. -/
def parseStorePath (storeDir : String) : DrvParser StorePath := do
  let path ← parseString
  match (storePath storeDir).fromWire path with
  | .ok base => pure ⟨base⟩
  | .error e => stop fun _ => .storePath e

def parseStorePathList (storeDir : String) : DrvParser (List StorePath) :=
  parseItems (fun result => !result.isEmpty) (fun result => do
    let p ← parseStorePath storeDir
    pure (result ++ [p])) []

def parseOutputs : DrvParser (List DrvOutput) :=
  parseItems (fun result => !result.isEmpty) (fun result => do
    expectOne '('
    let name ← parseString
    expectOne ','
    let path ← parseString
    expectOne ','
    let hashAlgo ← parseString
    expectOne ','
    let hashValue ← parseString
    expectOne ')'
    pure (result ++ [⟨hashAlgo, hashValue, name, path⟩])) []

def parseInputDrvsSimple (storeDir : String) : DrvParser (Dict.Table StorePath (List String)) :=
  parseItems (fun result => !result.1.isEmpty) (fun result => do
    expectOne '('
    let drvPath ← parseStorePath storeDir
    expectOne ','
    let outputs ← parseStringList
    expectOne ')'
    pure (result.set drvPath outputs)) .empty

/-- `_parse_child_value`, with what reads a nested node. -/
def parseChildValue (nested : DrvParser ChildMapNode) : DrvParser ChildMapNode := do
  let c ← peek
  if c = '[' then do
    let outputs ← parseStringList
    pure (.mk outputs [])
  else if c = '(' then nested
  else stop fun pos => .expectedOpen pos c

/-- `_parse_child_map_node`, down to a depth. -/
def parseChildMapNode : Nat → DrvParser ChildMapNode
  | 0 => stop fun _ => .recursion
  | depth + 1 => do
    let _ ← advance
    skipWs
    let outputs ← parseStringList
    expectOne ','
    let children ← parseItems (fun children => !children.1.isEmpty) (fun children => do
      expectOne '('
      let name ← parseString
      expectOne ','
      let child ← parseChildValue (parseChildMapNode depth)
      expectOne ')'
      pure (children.set name child)) (.empty : Dict.Table String ChildMapNode)
    expectOne ')'
    pure (.mk outputs children.1)

def parseNode : DrvParser ChildMapNode := fun cur => parseChildMapNode (cur.rest.length + 1) cur

/-- The two dictionaries that `parse_input_drvs_dynamic` fills. -/
abbrev Inputs := Dict.Table StorePath (List String) × Dict.Table StorePath ChildMapNode

/-- One input of `parse_input_drvs_dynamic`, behind its path. -/
def parseInput (drvPath : StorePath) (inputs : Inputs) : DrvParser Inputs := do
  let c ← peek
  if c = '[' then do
    let outputs ← parseStringList
    pure (inputs.1.set drvPath outputs, inputs.2)
  else if c = '(' then do
    let node ← parseNode
    pure (inputs.1, inputs.2.set drvPath node)
  else stop fun pos => .expectedOpen pos c

def parseInputDrvsDynamic (storeDir : String) : DrvParser Inputs :=
  parseItems (fun inputs => !inputs.1.1.isEmpty || !inputs.2.1.isEmpty) (fun inputs => do
    expectOne '('
    let drvPath ← parseStorePath storeDir
    expectOne ','
    skipWs
    let inputs ← parseInput drvPath inputs
    expectOne ')'
    pure inputs) (.empty, .empty)

def parseEnv : DrvParser (Dict.Table String String) :=
  parseItems (fun result => !result.1.isEmpty) (fun result => do
    expectOne '('
    let key ← parseString
    expectOne ','
    let value ← parseString
    expectOne ')'
    pure (result.set key value)) .empty

/-- What both formats have behind the outputs and the inputs. -/
def parseRest (storeDir : String) (outputs : List DrvOutput) (inputs : Inputs) (isDynamic : Bool) :
    DrvParser Derivation := do
  let inputSrcs ← parseStorePathList storeDir
  expectOne ','
  skipWs
  let platform ← parseString
  expectOne ','
  skipWs
  let builder ← parseString
  expectOne ','
  skipWs
  let args ← parseStringList
  expectOne ','
  skipWs
  let env ← parseEnv
  skipWs
  expectOne ')'
  pure {
    outputs, inputDrvs := inputs.1, inputSrcs := inputSrcs.toFinset, platform, builder, args, env
    isDynamic, dynamicInputDrvs := inputs.2 }

def parseTraditionalDerivation (storeDir : String) : DrvParser Derivation := do
  expect "Derive(".toList
  skipWs
  let outputs ← parseOutputs
  expectOne ','
  skipWs
  let inputDrvs ← parseInputDrvsSimple storeDir
  expectOne ','
  skipWs
  parseRest storeDir outputs (inputDrvs, .empty) false

def checkVersion (version : String) : DrvParser Unit :=
  if version ≠ "xp-dyn-drv" then stop fun _ => .unknownVersion version else pure ()

def parseDynamicDerivation (storeDir : String) : DrvParser Derivation := do
  expect "DrvWithVersion(".toList
  skipWs
  let version ← parseString
  checkVersion version
  expectOne ','
  skipWs
  let outputs ← parseOutputs
  expectOne ','
  skipWs
  let inputs ← parseInputDrvsDynamic storeDir
  expectOne ','
  skipWs
  parseRest storeDir outputs inputs true

/-- The choice of the format, at the text that is left. -/
def parseFormat (storeDir : String) : DrvParser Derivation := fun cur =>
  if "DrvWithVersion(".toList.isPrefixOf cur.rest then parseDynamicDerivation storeDir cur
  else parseTraditionalDerivation storeDir cur

def parseDerivation (storeDir : String) : DrvParser Derivation := do
  skipWs
  parseFormat storeDir

def parseDrv (storeDir : String) (content : List Char) : Except (Fault Char DrvError) Derivation :=
  (parseDerivation storeDir ⟨content, 0⟩).map Prod.fst

/-! ## Strings -/

/-- The text spells the characters: each plain one stands for itself, and the others are
escaped. -/
inductive Spells : List Char → List Char → Prop
  | nil : Spells [] []
  | plain {c : Char} {text s : List Char} (hc : isPlain c = true) (h : Spells text s) :
      Spells (c :: text) (c :: s)
  | escape (esc : Char) {text s : List Char} (h : Spells text s) :
      Spells ('\\' :: esc :: text) (unescape esc ++ s)

/-- A string that can be printed without escapes. -/
def Unquoted (s : String) : Prop := ∀ c ∈ s.toList, isPlain c = true

instance (s : String) : Decidable (Unquoted s) :=
  decidable_of_iff (s.toList.all isPlain = true) all_eq_true

variable {children : List (String × ChildMapNode)} {s text : List Char} {n : Nat}
  {storeDir : String}

theorem spells_of_plain (h : ∀ c ∈ s, isPlain c = true) : Spells s s := by
  induction s with
  | nil => exact .nil
  | cons c s ih => exact .plain (h c (by simp)) (ih fun d hd => h d (by simp [hd]))

theorem spells_atermEscape (s : String) : Spells (atermEscape s) s.toList := by
  unfold atermEscape
  induction s.toList with
  | nil => exact .nil
  | cons c s ih =>
    by_cases hslash : c = '\\'
    · subst hslash
      exact .escape '\\' ih
    by_cases hquote : c = '"'
    · subst hquote
      exact .escape '"' ih
    by_cases hn : c = '\n'
    · subst hn
      exact .escape 'n' ih
    by_cases hr : c = '\r'
    · subst hr
      exact .escape 'r' ih
    by_cases ht : c = '\t'
    · subst ht
      exact .escape 't' ih
    · have hplain : isPlain c = true := by simp [isPlain, hslash, hquote]
      simp only [replaceChar, flatMap_cons, hslash, hquote, hn, hr, ht, if_false,
        cons_append, nil_append] at ih ⊢
      exact .plain hplain ih

theorem parseChunks_eq (parts : List Char) (cur : Cursor Char) :
    parseChunks parts cur =
      let content := cur.rest.takeWhile isPlain
      match cur.rest.dropWhile isPlain with
      | [] => .error (.own (.unterminatedString cur.pos))
      | '"' :: rest => .ok (String.ofList (parts ++ content), ⟨rest, cur.pos + content.length + 1⟩)
      | _ :: [] => .error .eof
      | _ :: esc :: rest =>
        parseChunks (parts ++ content ++ unescape esc) ⟨rest, cur.pos + content.length + 2⟩ := by
  rw [parseChunks]
  split <;> rename_i heq <;> simp only [heq]

theorem parseChunks_close (parts rest : List Char) (pos : Nat) :
    parseChunks parts ⟨'"' :: rest, pos⟩ = .ok (String.ofList parts, ⟨rest, pos + 1⟩) := by
  rw [parseChunks_eq]
  simp [isPlain]

theorem parseChunks_escape (parts : List Char) (esc : Char) (rest : List Char) (pos : Nat) :
    parseChunks parts ⟨'\\' :: esc :: rest, pos⟩ =
      parseChunks (parts ++ unescape esc) ⟨rest, pos + 2⟩ := by
  rw [parseChunks_eq]
  simp [isPlain]

theorem parseChunks_plain {c : Char} (hc : isPlain c = true) {parts rest : List Char} {pos : Nat}
    {r : String × Cursor Char} (h : parseChunks (parts ++ [c]) ⟨rest, pos + 1⟩ = .ok r) :
    parseChunks parts ⟨c :: rest, pos⟩ = .ok r := by
  have hparts : parts ++ [c] ++ rest.takeWhile isPlain = parts ++ c :: rest.takeWhile isPlain := by
    simp
  have hpos : ∀ n k, pos + 1 + n + k = pos + (n + 1) + k := by omega
  rw [parseChunks_eq] at h ⊢
  simp only [takeWhile_cons, dropWhile_cons, hc, if_true, hparts, hpos,
    length_cons] at h ⊢
  split at h
  · cases h
  · exact h
  · cases h
  · exact h

/-- **What is spelled is read**, up to the closing quote. -/
theorem parseChunks_of_spells (h : Spells text s) (parts rest : List Char)
    (pos : Nat) : parseChunks parts ⟨text ++ '"' :: rest, pos⟩ =
      .ok (String.ofList (parts ++ s), ⟨rest, pos + text.length + 1⟩) := by
  induction h generalizing parts pos with
  | nil => rw [nil_append, parseChunks_close, append_nil, length_nil, Nat.add_zero]
  | @plain c text s hc h ih =>
    rw [cons_append]
    apply parseChunks_plain hc
    rw [ih, length_cons, append_assoc, singleton_append]
    congr 3
    omega
  | @escape esc text s h ih =>
    rw [cons_append, cons_append, parseChunks_escape, ih, length_cons,
      length_cons, append_assoc]
    congr 3
    omega

theorem parses_quoted (h : Spells text s) :
    Parses parseString (quoted text) [] (String.ofList s) := by
  apply Parses.expectOne_bind
  intro rest pos
  have hrun := parseChunks_of_spells h [] rest pos
  rw [append_assoc, length_append]
  exact hrun

theorem parses_unquoted {s : String} (h : Unquoted s) :
    Parses parseString (printUnquotedString s) [] s := by
  have hparse := parses_quoted (spells_of_plain h)
  rwa [String.ofList_toList] at hparse

theorem parses_escaped (s : String) : Parses parseString (quoted (atermEscape s)) [] s := by
  have hparse := parses_quoted (spells_atermEscape s)
  rwa [String.ofList_toList] at hparse

theorem parses_storePath {p : StorePath} (h : Unquoted (p.str storeDir)) :
    Parses (parseStorePath storeDir) (printUnquotedString (p.str storeDir)) [] p := by
  refine Parses.bind_pure (parses_unquoted h) ?_
  have hback : (storePath storeDir).fromWire (p.str storeDir) = .ok p.base :=
    fromWire_toWire_storePath storeDir p.base
  rw [hback]

/-! ## Lists -/

section Lists

variable {α β σ : Type} {print : β → List Char} {xs : List β}

theorem parses_items {started : σ → Bool} {item : σ → DrvParser σ} {step : σ → β → σ} {init : σ}
    (hinit : started init = false) (hstarted : ∀ acc x, started (step acc x) = true)
    (hitem : ∀ x ∈ xs, ∀ acc, Parses (item acc) (print x) [] (step acc x))
    (hstarts : ∀ x ∈ xs, Starts ']' isBlank (print x)) :
    Parses (parseItems started item init) (printList (xs.map print)) [] (xs.foldl step init) :=
  parses_bracketed (by decide) (by decide) (by decide) hstarted hitem hstarts hinit

theorem starts_quoted (text : List Char) : Starts ']' isBlank (quoted text) :=
  ⟨'"', text ++ ['"'], rfl, by decide, by decide⟩

theorem starts_entry (text : List Char) : Starts ']' isBlank ('(' :: text) :=
  ⟨'(', text, rfl, by decide, by decide⟩

theorem parses_list {item : List α → DrvParser (List α)} {value : β → α}
    (hitem : ∀ x ∈ xs, ∀ acc, Parses (item acc) (print x) [] (acc ++ [value x]))
    (hstarts : ∀ x ∈ xs, Starts ']' isBlank (print x)) :
    Parses (parseItems (fun result => !result.isEmpty) item []) (printList (xs.map print)) []
      (xs.map value) := by
  have hfold : xs.foldl (fun acc x => acc ++ [value x]) [] = xs.map value := by
    rw [foldl_append_eq_append, nil_append, ← flatMap_def, ← map_eq_flatMap]
  rw [← hfold]
  exact parses_items rfl (fun acc x => by simp) hitem hstarts

theorem parses_table {κ ν : Type} [DecidableEq κ]
    {item : Dict.Table κ ν → DrvParser (Dict.Table κ ν)}
    (key : β → κ) (value : β → ν) (hkeys : (xs.map key).Nodup)
    (hitem : ∀ x ∈ xs, ∀ acc, Parses (item acc) (print x) [] (acc.set (key x) (value x)))
    (hstarts : ∀ x ∈ xs, Starts ']' isBlank (print x)) {t : Dict.Table κ ν}
    (ht : t.1 = xs.map fun x => (key x, value x)) :
    Parses (parseItems (fun result => !result.1.isEmpty) item .empty) (printList (xs.map print)) []
      t := by
  have hfold : xs.foldl (fun acc x => acc.set (key x) (value x)) .empty = t :=
    Subtype.ext ((Dict.Table.foldl_set key value hkeys).trans ht.symm)
  rw [← hfold]
  exact parses_items rfl (fun acc x => by simp) hitem hstarts

end Lists

theorem parses_stringList {xs : List String} (h : ∀ s ∈ xs, Unquoted s) :
    Parses parseStringList (printUnquotedStrings xs) [] xs := by
  have hlist : Parses parseStringList (printList (xs.map printUnquotedString)) [] (xs.map id) :=
    parses_list (fun s hs acc => Parses.bind_pure (parses_unquoted (h s hs)) rfl)
      fun s _ => starts_quoted _
  rwa [map_id] at hlist

theorem parses_escapedList (xs : List String) :
    Parses parseStringList (printList (xs.map fun a => quoted (atermEscape a))) [] xs := by
  have hlist : Parses parseStringList (printList (xs.map fun a => quoted (atermEscape a))) []
      (xs.map id) :=
    parses_list (fun s _ acc => Parses.bind_pure (parses_escaped s) rfl) fun s _ => starts_quoted _
  rwa [map_id] at hlist

structure DrvOutput.Plain (o : DrvOutput) : Prop where
  outputName : Unquoted o.outputName
  path : Unquoted o.path
  hashAlgo : Unquoted o.hashAlgo
  hashValue : Unquoted o.hashValue

theorem parses_outputs {outputs : List DrvOutput} (h : ∀ o ∈ outputs, o.Plain) :
    Parses parseOutputs (printList (outputs.map (Derivation.printOutput false))) [] outputs := by
  have hlist : Parses parseOutputs (printList (outputs.map (Derivation.printOutput false))) []
      (outputs.map id) := by
    apply parses_list
    · intro o ho acc
      have ho := h o ho
      apply Parses.expectOne_bind
      refine Parses.bind ((parses_unquoted ho.outputName).before _) (Parses.expectOne_bind ?_)
      refine Parses.bind ((parses_unquoted ho.path).before _) (Parses.expectOne_bind ?_)
      refine Parses.bind ((parses_unquoted ho.hashAlgo).before _) (Parses.expectOne_bind ?_)
      refine Parses.bind ((parses_unquoted ho.hashValue).before _) (Parses.expectOne_bind ?_)
      exact Parses.pure _ []
    · exact fun o _ => starts_entry _
  rwa [map_id] at hlist

theorem parses_env {env : List (String × String)} {t : Dict.Table String String} (ht : t.1 = env)
    (names : List String) :
    Parses parseEnv (printList (env.map (Derivation.printVariable false names))) [] t := by
  have hkeys : (env.map Prod.fst).Nodup := ht ▸ t.2
  apply parses_table Prod.fst Prod.snd hkeys
  · intro item _ acc
    apply Parses.expectOne_bind
    refine Parses.bind ((parses_escaped item.1).before _) (Parses.expectOne_bind ?_)
    refine Parses.bind ((parses_escaped item.2).before _) (Parses.expectOne_bind ?_)
    exact Parses.pure _ []
  · exact fun item _ => starts_entry _
  · rw [ht]
    exact (map_id env).symm

/-! ## The tree of a dynamic input -/

mutual
/-- Names are printed without escapes, and those of the children of a node are apart. -/
def ChildMapNode.Plain : ChildMapNode → Prop
  | .mk outputs children =>
    (∀ o ∈ outputs, Unquoted o) ∧ (children.map Prod.fst).Nodup ∧ PlainChildren children

def PlainChildren : List (String × ChildMapNode) → Prop
  | [] => True
  | (name, child) :: children => (Unquoted name ∧ child.Plain) ∧ PlainChildren children
end

mutual
def ChildMapNode.depth : ChildMapNode → Nat
  | .mk _ children => depthChildren children + 1

def depthChildren : List (String × ChildMapNode) → Nat
  | [] => 0
  | (_, child) :: children => max child.depth (depthChildren children)
end

theorem plain_of_mem (h : PlainChildren children) :
    ∀ child ∈ children, Unquoted child.1 ∧ child.2.Plain := by
  induction children with
  | nil => simp
  | cons first children ih =>
    rw [PlainChildren] at h
    intro child hc
    rcases mem_cons.1 hc with rfl | hc
    · exact h.1
    · exact ih h.2 child hc

theorem depth_le_of_mem : ∀ child ∈ children, child.2.depth ≤ depthChildren children := by
  induction children with
  | nil => simp
  | cons first children ih =>
    intro child hc
    rw [depthChildren]
    rcases mem_cons.1 hc with rfl | hc
    · exact le_max_left _ _
    · exact (ih child hc).trans (le_max_right _ _)

theorem depthChildren_le
    (h : ∀ child ∈ children, child.2.depth ≤ n) : depthChildren children ≤ n := by
  induction children with
  | nil => exact Nat.zero_le n
  | cons first children ih =>
    rw [depthChildren]
    exact max_le (h first (by simp)) (ih fun child hc => h child (by simp [hc]))

theorem insertionSort_map {α β : Type} (f : α → β) (key : β → String) (l : List α) :
    (l.map f).insertionSort (fun a b => key a ≤ key b) =
      (l.insertionSort fun a b => key (f a) ≤ key (f b)).map f :=
  (map_insertionSort _ _ f l fun _ _ _ _ => Iff.rfl).symm

def childText (child : String × ChildMapNode) : List Char :=
  printEntry child.1 (unparseDerivedPathNode (childMapToDrvNode [] child.2))

/-- A node in round brackets. -/
def nodeText (outputs : List String) (children : List (String × ChildMapNode)) : List Char :=
  '(' :: (printUnquotedStrings outputs ++ ',' ::
    (printList ((children.insertionSort (·.1 ≤ ·.1)).map childText) ++ [')']))

theorem unparse_node (prefixOutputs outputs : List String)
    (children : List (String × ChildMapNode)) :
    unparseDerivedPathNode (childMapToDrvNode prefixOutputs (.mk outputs children)) =
      ',' :: nodeText (prefixOutputs ++ outputs) children := by
  have hmap : ∀ children, unparseChildren (childrenToDrvNodes children) =
      children.map fun child =>
        (child.1, unparseDerivedPathNode (childMapToDrvNode [] child.2)) := by
    intro children
    induction children with
    | nil => rfl
    | cons child children ih => rw [childrenToDrvNodes, unparseChildren, ih]; rfl
  rw [childMapToDrvNode, unparseDerivedPathNode, hmap]
  simp only [Bool.not_true, Bool.and_false, Bool.false_eq_true, if_false]
  rw [insertionSort_map _ Prod.fst, map_map]
  rfl

theorem sorted_node (outputs : List String) (children : List (String × ChildMapNode)) :
    (ChildMapNode.mk outputs children).sorted = .mk outputs
      ((children.insertionSort (·.1 ≤ ·.1)).map fun child => (child.1, child.2.sorted)) := by
  have hmap : ∀ children, sortedChildren children =
      children.map fun child => (child.1, child.2.sorted) := by
    intro children
    induction children with
    | nil => rfl
    | cons child children ih => rw [sortedChildren, ih]; rfl
  rw [ChildMapNode.sorted, hmap, insertionSort_map _ Prod.fst]

/-- A node in round brackets, with what its children are written as. -/
def nodeOf (value : ChildMapNode → List Char) (outputs : List String)
    (children : List (String × ChildMapNode)) : List Char :=
  '(' :: (printUnquotedStrings outputs ++ ',' ::
    (printList ((children.insertionSort (·.1 ≤ ·.1)).map fun child =>
      printEntry child.1 (',' :: value child.2)) ++ [')']))

/-- What `unparse` writes for a node below another one. -/
def nestedText : ChildMapNode → List Char
  | .mk outputs children => nodeText outputs children

theorem nodeText_eq (outputs : List String) (children : List (String × ChildMapNode)) :
    nodeText outputs children = nodeOf nestedText outputs children := by
  have hchild : childText = fun child => printEntry child.1 (',' :: nestedText child.2) := by
    funext child
    obtain ⟨name, outputs', children'⟩ := child
    rw [childText, unparse_node, nil_append, nestedText]
  rw [nodeText, hchild, nodeOf]

section NodeOf

variable {n : Nat} {value : ChildMapNode → List Char} {outputs : List String}
  {children : List (String × ChildMapNode)}

theorem parses_nodeOf (houtputs : ∀ o ∈ outputs, Unquoted o) (hkeys : (children.map Prod.fst).Nodup)
    (hchildren : ∀ child ∈ children, Unquoted child.1 ∧
      Parses (parseChildValue (parseChildMapNode n)) (value child.2) [] child.2.sorted) :
    Parses (parseChildMapNode (n + 1)) (nodeOf value outputs children) []
      (ChildMapNode.mk outputs children).sorted := by
  have hperm := perm_insertionSort (fun a b : String × ChildMapNode => a.1 ≤ b.1) children
  have hkeys' := (hperm.map Prod.fst).nodup_iff.2 hkeys
  have hsorted : (((children.insertionSort (·.1 ≤ ·.1)).map fun child =>
      (child.1, child.2.sorted)).map Prod.fst).Nodup := by
    rwa [map_map]
  rw [sorted_node, nodeOf, parseChildMapNode]
  apply Parses.advance_bind
  apply Parses.skip_bind (by decide)
  refine Parses.bind ((parses_stringList houtputs).before _) (Parses.expectOne_bind ?_)
  refine Parses.bind (a := ⟨_, hsorted⟩) (Parses.before ?_ _)
    (Parses.expectOne_bind (Parses.pure _ []))
  have hstarts : ∀ child ∈ children.insertionSort (·.1 ≤ ·.1),
      Starts ']' isBlank (printEntry child.1 (',' :: value child.2)) :=
    fun child _ => starts_entry _
  refine parses_table Prod.fst (fun child => child.2.sorted) hkeys' ?_ hstarts rfl
  intro child hchild acc
  obtain ⟨hname, hvalue⟩ := hchildren child (hperm.mem_iff.1 hchild)
  rw [printEntry, cons_append]
  apply Parses.expectOne_bind
  refine Parses.bind ((parses_unquoted hname).before _) (Parses.expectOne_bind ?_)
  exact Parses.bind (hvalue.before _) (Parses.expectOne_bind (Parses.pure _ []))

end NodeOf

/-- **A node is read to any depth that it has**, and its children come in order. -/
theorem parses_node {outputs : List String}
    (hdepth : depthChildren children < n) (h : (ChildMapNode.mk outputs children).Plain) :
    Parses (parseChildMapNode n) (nodeText outputs children) []
      (ChildMapNode.mk outputs children).sorted := by
  induction n generalizing outputs children with
  | zero => exact absurd hdepth (Nat.not_lt_zero _)
  | succ n ih =>
    rw [ChildMapNode.Plain] at h
    obtain ⟨houtputs, hkeys, hplain⟩ := h
    rw [nodeText_eq]
    apply parses_nodeOf houtputs hkeys
    rintro ⟨name, outputs', children'⟩ hchild
    obtain ⟨hname, hnode⟩ := plain_of_mem hplain _ hchild
    have hless : depthChildren children' < n := by
      have := depth_le_of_mem _ hchild
      rw [ChildMapNode.depth] at this
      omega
    exact ⟨hname, Parses.peek_bind (ih hless hnode)⟩

theorem length_le_length_joined {texts : List (List Char)} (h : text ∈ texts) :
    text.length ≤ (joined ',' texts).length := by
  cases texts with
  | nil => cases h
  | cons first texts =>
    rw [joined, length_append]
    rcases mem_cons.1 h with rfl | h
    · omega
    · have hsub : (',' :: text).Sublist (texts.flatMap (',' :: ·)) :=
        sublist_flatten_of_mem (mem_map_of_mem h)
      have := hsub.length_le
      rw [length_cons] at this
      omega

theorem depth_lt_length_nodeOf {value : ChildMapNode → List Char} (outputs : List String)
    (h : ∀ child ∈ children, child.2.depth ≤ (value child.2).length) :
    depthChildren children < (nodeOf value outputs children).length := by
  have hchild : ∀ child ∈ children, child.2.depth ≤ (joined ','
      ((children.insertionSort (·.1 ≤ ·.1)).map fun child =>
        printEntry child.1 (',' :: value child.2))).length := by
    intro child hc
    have hmem : printEntry child.1 (',' :: value child.2) ∈
        (children.insertionSort (·.1 ≤ ·.1)).map fun child =>
          printEntry child.1 (',' :: value child.2) :=
      mem_map_of_mem ((mem_insertionSort _).2 hc)
    have hlen : (value child.2).length ≤ (printEntry child.1 (',' :: value child.2)).length := by
      simp only [printEntry, length_cons, length_append]
      omega
    exact (h child hc).trans (hlen.trans (length_le_length_joined hmem))
  have := depthChildren_le hchild
  simp only [nodeOf, printList, length_cons, length_append]
  omega

theorem depth_lt_length (outputs : List String)
    (h : depthChildren children ≤ n) :
    depthChildren children < (nodeText outputs children).length := by
  induction n generalizing outputs children with
  | zero => simp [nodeText, Nat.le_zero.1 h]
  | succ n ih =>
    rw [nodeText_eq]
    apply depth_lt_length_nodeOf
    rintro ⟨name, outputs', children'⟩ hc
    have hdepth := (depth_le_of_mem _ hc).trans h
    rw [ChildMapNode.depth] at hdepth ⊢
    exact ih outputs' (Nat.le_of_succ_le_succ hdepth)

theorem parses_parseNode {outputs : List String} (h : (ChildMapNode.mk outputs children).Plain) :
    Parses parseNode (nodeText outputs children) [] (ChildMapNode.mk outputs children).sorted := by
  intro rest pos
  apply parses_node ?_ h
  have := depth_lt_length outputs (le_refl (depthChildren children))
  simp only [length_append]
  omega

/-! ## The input derivations -/

theorem str_inj {p q : StorePath} (h : p.str storeDir = q.str storeDir) : p = q := by
  have hp : (storePath storeDir).fromWire (p.str storeDir) = .ok p.base :=
    fromWire_toWire_storePath storeDir p.base
  have hq : (storePath storeDir).fromWire (q.str storeDir) = .ok q.base :=
    fromWire_toWire_storePath storeDir q.base
  rw [h, hq] at hp
  exact congrArg StorePath.mk (Except.ok.inj hp).symm

/-- A sorted list is what sorting makes of every list with the same items, where no two items
have one key. -/
theorem eq_insertionSort {α : Type} {key : α → String} {l l' : List α} (hperm : l.Perm l')
    (hsorted : l.Pairwise fun a b => key a ≤ key b)
    (hinj : ∀ a ∈ l', ∀ b ∈ l', key a = key b → a = b) :
    l = l'.insertionSort fun a b => key a ≤ key b := by
  have htotal : Std.Total fun a b : α => key a ≤ key b := ⟨fun a b => le_total (key a) (key b)⟩
  have htrans : IsTrans α fun a b => key a ≤ key b := ⟨fun a b c => le_trans⟩
  refine List.Perm.eq_of_pairwise (fun a b ha hb hab hba => ?_) hsorted
    (pairwise_insertionSort _ _) (hperm.trans (perm_insertionSort _ _).symm)
  exact hinj a (hperm.mem_iff.1 ha) b ((mem_insertionSort _).1 hb) (le_antisymm hab hba)

theorem eq_of_str_eq {ν : Type} {d : List (StorePath × ν)}
    (h : (d.map Prod.fst).Nodup) {a b : StorePath × ν} (ha : a ∈ d) (hb : b ∈ d)
    (hstr : a.1.str storeDir = b.1.str storeDir) : a = b := by
  have hkey : a.1 = b.1 := str_inj hstr
  have hget := (Dict.get?_eq_some_iff_mem h).2 ha
  rw [hkey, (Dict.get?_eq_some_iff_mem h).2 hb] at hget
  exact Prod.ext hkey (Option.some.inj hget).symm

/-- An input as it is printed: its outputs, or its tree. -/
abbrev Entry := StorePath × (List String ⊕ ChildMapNode)

def Derivation.entries (d : Derivation) : List Entry :=
  d.inputDrvs.1.map (fun item => (item.1, .inl item.2)) ++
    d.dynamicInputDrvs.1.map fun item => (item.1, .inr item.2)

/-- What is printed of an input behind its path. -/
def entryNode : List String ⊕ ChildMapNode → DrvInputNode
  | .inl outputs => .mk outputs [] false
  | .inr node => childMapToDrvNode [] node

def simpleOf (e : Entry) : Option (StorePath × List String) := e.2.getLeft?.map (e.1, ·)

def dynamicOf (e : Entry) : Option (StorePath × ChildMapNode) := e.2.getRight?.map (e.1, ·)

theorem filterMap_entries (d : Derivation) :
    d.entries.filterMap simpleOf = d.inputDrvs.1 ∧
      d.entries.filterMap dynamicOf = d.dynamicInputDrvs.1 := by
  constructor
  · simp [Derivation.entries, filterMap_append, filterMap_map, simpleOf, Function.comp_def]
  · simp [Derivation.entries, filterMap_append, filterMap_map, dynamicOf, Function.comp_def]

section Entries

variable {storeDir : String} {d : Derivation}

/-- The inputs in the order of the texts of their paths. -/
def Derivation.sortedEntries (storeDir : String) (d : Derivation) : List Entry :=
  d.entries.insertionSort fun a b => a.1.str storeDir ≤ b.1.str storeDir

/-- No path is both a simple and a dynamic input. -/
def Derivation.Apart (d : Derivation) : Prop :=
  ∀ p ∈ d.inputDrvs.1.map Prod.fst, p ∉ d.dynamicInputDrvs.1.map Prod.fst

theorem keys_entries (d : Derivation) : d.entries.map Prod.fst =
    d.inputDrvs.1.map Prod.fst ++ d.dynamicInputDrvs.1.map Prod.fst := by
  simp [Derivation.entries, Function.comp_def]

theorem nodup_entries (h : d.Apart) : (d.entries.map Prod.fst).Nodup := by
  rw [keys_entries, nodup_append]
  exact ⟨d.inputDrvs.2, d.dynamicInputDrvs.2, fun p hp q hq heq => h p hp (heq ▸ hq)⟩

theorem inputNode_eq (h : d.Apart) {e : Entry} (he : e ∈ d.entries) :
    d.inputNode e.1 = entryNode e.2 := by
  rcases mem_append.1 he with he | he
  · obtain ⟨item, hitem, rfl⟩ := mem_map.1 he
    have hsimple := (Dict.get?_eq_some_iff_mem d.inputDrvs.2).2 hitem
    have hdynamic := Dict.get?_eq_none_of_not_mem (h item.1 (mem_map_of_mem hitem))
    simp [Derivation.inputNode, entryNode, hsimple, hdynamic]
  · obtain ⟨item, hitem, rfl⟩ := mem_map.1 he
    have hdynamic := (Dict.get?_eq_some_iff_mem d.dynamicInputDrvs.2).2 hitem
    have hsimple : Dict.get? d.inputDrvs.1 item.1 = none :=
      Dict.get?_eq_none_of_not_mem fun hp => h item.1 hp (mem_map_of_mem hitem)
    simp [Derivation.inputNode, entryNode, hsimple, hdynamic]

def entryText (storeDir : String) (e : Entry) : List Char :=
  printEntry (e.1.str storeDir) (unparseDerivedPathNode (entryNode e.2))

theorem printInputs_eq (h : d.Apart) :
    d.printInputs storeDir none =
      printList ((d.sortedEntries storeDir).map (entryText storeDir)) := by
  have hpaths : d.allPaths storeDir = (d.sortedEntries storeDir).map Prod.fst := by
    rw [Derivation.allPaths, ← keys_entries, Dict.fromkeys_of_nodup (nodup_entries h)]
    exact insertionSort_map Prod.fst (StorePath.str storeDir) d.entries
  rw [Derivation.printInputs, hpaths, map_map]
  refine congrArg printList (map_congr_left fun e he => ?_)
  have he' : e ∈ d.entries := (mem_insertionSort _).1 he
  simp only [Function.comp_apply, entryText, inputNode_eq h he']

/-- The inputs of a derivation are printed without escapes. -/
structure Derivation.PlainInputs (storeDir : String) (d : Derivation) : Prop where
  simple : ∀ item ∈ d.inputDrvs.1, Unquoted (item.1.str storeDir) ∧ ∀ n ∈ item.2, Unquoted n
  dynamic : ∀ item ∈ d.dynamicInputDrvs.1, Unquoted (item.1.str storeDir) ∧ item.2.Plain

theorem parses_inputDrvsSimple (h : d.PlainInputs storeDir) (hnone : d.dynamicInputDrvs.1 = []) :
    Parses (parseInputDrvsSimple storeDir)
      (printList ((d.sortedEntries storeDir).map (entryText storeDir))) []
      (d.sorted storeDir).inputDrvs := by
  have hentries : d.sortedEntries storeDir =
      (d.inputDrvs.1.insertionSort fun a b => a.1.str storeDir ≤ b.1.str storeDir).map
        fun item => (item.1, .inl item.2) := by
    rw [Derivation.sortedEntries, Derivation.entries, hnone, map_nil, append_nil]
    exact insertionSort_map (fun item => ((item.1, .inl item.2) : Entry))
      (fun e => e.1.str storeDir) d.inputDrvs.1
  rw [hentries, map_map]
  have hkeys := (d.sorted storeDir).inputDrvs.2
  refine parses_table Prod.fst Prod.snd hkeys ?_ (fun item _ => starts_entry _)
    (map_id _).symm
  intro item hitem acc
  obtain ⟨hpath, houtputs⟩ := h.simple item ((mem_insertionSort _).1 hitem)
  apply Parses.expectOne_bind
  refine Parses.bind ((parses_storePath hpath).before _) (Parses.expectOne_bind ?_)
  exact Parses.bind ((parses_stringList houtputs).before _)
    (Parses.expectOne_bind (Parses.pure _ []))

/-- An input goes to its dictionary. -/
def collect (inputs : Inputs) (e : Entry) : Inputs :=
  match e.2 with
  | .inl outputs => (inputs.1.set e.1 outputs, inputs.2)
  | .inr node => (inputs.1, inputs.2.set e.1 node.sorted)

theorem foldl_collect (es : List Entry) (inputs : Inputs) :
    es.foldl collect inputs =
      ((es.filterMap simpleOf).foldl (fun t item => t.set item.1 item.2) inputs.1,
        (es.filterMap dynamicOf).foldl (fun t item => t.set item.1 item.2.sorted) inputs.2) := by
  induction es generalizing inputs with
  | nil => rfl
  | cons e es ih =>
    obtain ⟨p, outputs | node⟩ := e
    · exact ih _
    · exact ih _

theorem filterMap_sortedEntries {ν : Type} {f : Entry → Option (StorePath × ν)}
    (hf : ∀ e b, f e = some b → b.1 = e.1) {d' : List (StorePath × ν)}
    (hd' : d.entries.filterMap f = d') (hkeys : (d'.map Prod.fst).Nodup) :
    (d.sortedEntries storeDir).filterMap f =
      d'.insertionSort fun a b => a.1.str storeDir ≤ b.1.str storeDir := by
  have htotal : Std.Total fun a b : Entry => a.1.str storeDir ≤ b.1.str storeDir :=
    ⟨fun a b => le_total _ _⟩
  have htrans : IsTrans Entry fun a b => a.1.str storeDir ≤ b.1.str storeDir :=
    ⟨fun a b c => le_trans⟩
  subst hd'
  have hsorted : ((d.sortedEntries storeDir).filterMap f).Pairwise
      fun a b => a.1.str storeDir ≤ b.1.str storeDir := by
    refine (pairwise_insertionSort _ _).filterMap f fun e e' hle b hb b' hb' => ?_
    rw [hf e b hb, hf e' b' hb']
    exact hle
  exact eq_insertionSort ((perm_insertionSort _ _).filterMap f) hsorted
    fun a ha b hb => eq_of_str_eq hkeys ha hb

theorem foldl_collect_sorted (d : Derivation) (storeDir : String) :
    (d.sortedEntries storeDir).foldl collect (.empty, .empty) =
      ((d.sorted storeDir).inputDrvs, (d.sorted storeDir).dynamicInputDrvs) := by
  have hsimple : (d.sortedEntries storeDir).filterMap simpleOf =
      (d.sorted storeDir).inputDrvs.1 := by
    apply filterMap_sortedEntries ?_ (filterMap_entries d).1 d.inputDrvs.2
    rintro ⟨p, outputs | node⟩ b hb <;> cases hb
    rfl
  have hdynamic : (d.sortedEntries storeDir).filterMap dynamicOf =
      d.dynamicInputDrvs.1.insertionSort fun a b => a.1.str storeDir ≤ b.1.str storeDir := by
    apply filterMap_sortedEntries ?_ (filterMap_entries d).2 d.dynamicInputDrvs.2
    rintro ⟨p, outputs | node⟩ b hb <;> cases hb
    rfl
  rw [foldl_collect, hsimple, hdynamic]
  refine Prod.ext (Subtype.ext ?_) (Subtype.ext ?_)
  · rw [Dict.Table.foldl_set Prod.fst Prod.snd (d.sorted storeDir).inputDrvs.2]
    exact map_id _
  · rw [Dict.Table.foldl_set Prod.fst (fun item => item.2.sorted)
      (d.dynamicInputDrvs.nodup_of_perm (perm_insertionSort _ _))]
    exact (insertionSort_map (fun item : StorePath × ChildMapNode => (item.1, item.2.sorted))
      (fun item => item.1.str storeDir) d.dynamicInputDrvs.1).symm

/-- **The inputs of the dynamic format are read back, each into its dictionary**, however an
input is written behind its path. -/
theorem parses_dynamicEntries {value : List String ⊕ ChildMapNode → List Char}
    (hpath : ∀ e ∈ d.entries, Unquoted (e.1.str storeDir))
    (hvalue : ∀ e ∈ d.entries, ∀ inputs, (∃ c t, value e.2 = c :: t ∧ isBlank c = false) ∧
      Parses (parseInput e.1 inputs) (value e.2) [] (collect inputs e)) :
    Parses (parseInputDrvsDynamic storeDir)
      (printList ((d.sortedEntries storeDir).map fun e =>
        printEntry (e.1.str storeDir) (',' :: value e.2))) []
      ((d.sorted storeDir).inputDrvs, (d.sorted storeDir).dynamicInputDrvs) := by
  rw [← foldl_collect_sorted d storeDir]
  refine parses_items rfl (fun acc e => ?_) (fun e he acc => ?_) fun e _ => starts_entry _
  · obtain ⟨p, outputs | node⟩ := e <;> simp [collect]
  · have he' : e ∈ d.entries := (mem_insertionSort _).1 he
    obtain ⟨⟨c, t, htext, hc⟩, hinput⟩ := hvalue e he' acc
    rw [htext] at hinput
    rw [printEntry, htext]
    apply Parses.expectOne_bind
    refine Parses.bind ((parses_storePath (hpath e he')).before _) (Parses.expectOne_bind ?_)
    apply Parses.skip_bind hc
    exact Parses.bind (hinput.before _) (Parses.expectOne_bind (Parses.pure _ []))

theorem Derivation.PlainInputs.entries (h : d.PlainInputs storeDir) : ∀ e ∈ d.entries,
    Unquoted (e.1.str storeDir) ∧
      (∀ outputs, e.2 = .inl outputs → ∀ n ∈ outputs, Unquoted n) ∧
      ∀ node, e.2 = .inr node → node.Plain := by
  intro e he
  rcases mem_append.1 he with he | he
  · obtain ⟨item, hitem, rfl⟩ := mem_map.1 he
    refine ⟨(h.simple item hitem).1, fun outputs ho => ?_, fun node hn => (by cases hn)⟩
    cases ho
    exact (h.simple item hitem).2
  · obtain ⟨item, hitem, rfl⟩ := mem_map.1 he
    refine ⟨(h.dynamic item hitem).1, fun outputs ho => (by cases ho), fun node hn => ?_⟩
    cases hn
    exact (h.dynamic item hitem).2

/-- What `unparse` writes for an input behind its path and a comma. -/
def valueText : List String ⊕ ChildMapNode → List Char
  | .inl outputs => printUnquotedStrings outputs
  | .inr node => nestedText node

theorem entryText_eq (storeDir : String) (e : Entry) :
    entryText storeDir e = printEntry (e.1.str storeDir) (',' :: valueText e.2) := by
  obtain ⟨p, outputs | ⟨outputs, children⟩⟩ := e
  · simp [entryText, entryNode, unparseDerivedPathNode, valueText]
  · rw [entryText, entryNode, unparse_node, nil_append, valueText, nestedText]

theorem parses_inputDrvsDynamic (h : d.PlainInputs storeDir) :
    Parses (parseInputDrvsDynamic storeDir)
      (printList ((d.sortedEntries storeDir).map (entryText storeDir))) []
      ((d.sorted storeDir).inputDrvs, (d.sorted storeDir).dynamicInputDrvs) := by
  rw [funext (entryText_eq storeDir)]
  apply parses_dynamicEntries fun e he => (h.entries e he).1
  rintro ⟨p, outputs | ⟨outputs, children⟩⟩ he inputs
  · refine ⟨⟨'[', _, rfl, by decide⟩, Parses.peek_bind ?_⟩
    exact Parses.bind_pure (parses_stringList ((h.entries _ he).2.1 outputs rfl)) rfl
  · refine ⟨⟨'(', _, rfl, by decide⟩, Parses.peek_bind ?_⟩
    exact Parses.bind_pure (parses_parseNode ((h.entries _ he).2.2 _ rfl)) rfl

end Entries

/-! ## The whole derivation -/

theorem parses_storePathList {srcs : Finset StorePath} (h : ∀ p ∈ srcs, Unquoted (p.str storeDir)) :
    ∃ paths, Parses (parseStorePathList storeDir)
      (printUnquotedStrings (sortedSet (srcs.image (StorePath.str storeDir)))) [] paths ∧
      paths.toFinset = srcs := by
  -- every text that is printed is the text of some path
  have htext : ∀ s : String, ∃ p : StorePath, s ∈ srcs.image (StorePath.str storeDir) →
      p ∈ srcs ∧ p.str storeDir = s := by
    intro s
    by_cases hs : s ∈ srcs.image (StorePath.str storeDir)
    · obtain ⟨p, hp, rfl⟩ := Finset.mem_image.1 hs
      exact ⟨p, fun _ => ⟨hp, rfl⟩⟩
    · exact ⟨⟨""⟩, fun hin => absurd hin hs⟩
  choose path hpath using htext
  refine ⟨(sortedSet (srcs.image (StorePath.str storeDir))).map path, ?_, ?_⟩
  · refine parses_list (fun s hs acc => ?_) fun s _ => starts_quoted _
    obtain ⟨hin, hstr⟩ := hpath s (mem_sortedSet.1 hs)
    have hparse : Parses (parseStorePath storeDir) (printUnquotedString s) [] (path s) := by
      have hp := parses_storePath (h (path s) hin)
      rwa [hstr] at hp
    exact Parses.bind_pure hparse rfl
  · ext p
    simp only [mem_toFinset, mem_map, mem_sortedSet]
    constructor
    · rintro ⟨s, hs, rfl⟩
      exact (hpath s hs).1
    · intro hp
      have hs := Finset.mem_image_of_mem (StorePath.str storeDir) hp
      exact ⟨p.str storeDir, hs, str_inj (hpath _ hs).2⟩

/-- What `unparse` does not escape has no quote and no backslash in it, and a derivation is
marked as dynamic exactly when it has dynamic inputs. -/
structure Derivation.Printable (storeDir : String) (d : Derivation) : Prop where
  outputs : ∀ o ∈ d.outputs, o.Plain
  inputs : d.PlainInputs storeDir
  apart : d.Apart
  srcs : ∀ p ∈ d.inputSrcs, Unquoted (p.str storeDir)
  platform : Unquoted d.platform
  marked : d.isDynamic = d.hasDynamicDrvDep

namespace Derivation

variable {storeDir : String} {d : Derivation}

/-- The text behind the input derivations. -/
def restText (storeDir : String) (d : Derivation) : List Char :=
  printUnquotedStrings (sortedSet (d.inputSrcs.image (StorePath.str storeDir))) ++ ',' ::
    (printUnquotedString d.platform ++ ',' ::
      (quoted (atermEscape d.builder) ++ ',' ::
        (printList (d.args.map fun a => quoted (atermEscape a)) ++ ',' ::
          (printList ((d.env.1.insertionSort itemLe).map
            (printVariable false (d.outputs.map (·.outputName)))) ++ [')']))))

/-- The text behind the header, with the texts of the input derivations. -/
def bodyOf (storeDir : String) (d : Derivation) (inputs : List (List Char)) : List Char :=
  printList ((d.outputs.insertionSort (·.outputName ≤ ·.outputName)).map (printOutput false)) ++
    ',' :: (printList inputs ++ ',' :: d.restText storeDir)

def bodyText (storeDir : String) (d : Derivation) : List Char :=
  printList ((d.outputs.insertionSort (·.outputName ≤ ·.outputName)).map (printOutput false)) ++
    ',' :: (printList ((d.sortedEntries storeDir).map (entryText storeDir)) ++
      ',' :: d.restText storeDir)

theorem bodyText_eq (storeDir : String) (d : Derivation) : d.bodyText storeDir =
    d.bodyOf storeDir ((d.sortedEntries storeDir).map (entryText storeDir)) := rfl

theorem unparse_eq (h : d.Apart) : d.unparse storeDir = d.header ++ d.bodyText storeDir := by
  rw [unparse, printInputs_eq h]
  rfl

theorem parses_rest (h : d.Printable storeDir) :
    Parses (parseRest storeDir (d.sorted storeDir).outputs
      ((d.sorted storeDir).inputDrvs, (d.sorted storeDir).dynamicInputDrvs) d.isDynamic)
      (d.restText storeDir) [] (d.sorted storeDir) := by
  obtain ⟨paths, hpaths, hsrcs⟩ := parses_storePathList h.srcs
  have hitems : (d.sorted storeDir).env.1 = d.env.1.insertionSort itemLe := rfl
  have henv := parses_env hitems (d.outputs.map (·.outputName))
  refine Parses.bind (hpaths.before _) (Parses.expectOne_bind ?_)
  apply Parses.skip_bind (by decide)
  refine Parses.bind ((parses_unquoted h.platform).before _) (Parses.expectOne_bind ?_)
  apply Parses.skip_bind (by decide)
  refine Parses.bind ((parses_escaped d.builder).before _) (Parses.expectOne_bind ?_)
  apply Parses.skip_bind (by decide)
  refine Parses.bind ((parses_escapedList d.args).before _) (Parses.expectOne_bind ?_)
  apply Parses.skip_bind (by decide)
  refine Parses.bind (henv.before _) (Parses.skip_bind (by decide) (Parses.expectOne_bind ?_))
  rw [hsrcs]
  exact Parses.pure _ []

theorem parses_sortedOutputs (h : d.Printable storeDir) :
    Parses parseOutputs
      (printList ((d.outputs.insertionSort (·.outputName ≤ ·.outputName)).map (printOutput false)))
      [] (d.sorted storeDir).outputs :=
  parses_outputs fun o ho => h.outputs o ((mem_insertionSort _).1 ho)

theorem parses_traditional (h : d.Printable storeDir) (hnone : d.hasDynamicDrvDep = false) :
    Parses (parseTraditionalDerivation storeDir) ("Derive(".toList ++ d.bodyText storeDir) []
      (d.sorted storeDir) := by
  have hdynamic : d.dynamicInputDrvs.1 = [] := by simpa [hasDynamicDrvDep] using hnone
  have hempty : (d.sorted storeDir).dynamicInputDrvs = .empty :=
    Subtype.ext (by simp [sorted, hdynamic, Dict.Table.empty])
  have hrest := parses_rest h
  rw [h.marked, hnone, hempty] at hrest
  apply Parses.expect_bind
  apply Parses.skip_bind (by decide)
  refine Parses.bind ((parses_sortedOutputs h).before _) (Parses.expectOne_bind ?_)
  apply Parses.skip_bind (by decide)
  refine Parses.bind ((parses_inputDrvsSimple h.inputs hdynamic).before _)
    (Parses.expectOne_bind ?_)
  exact Parses.skip_bind (by decide) hrest

theorem parses_dynamic (h : d.Printable storeDir) (hdep : d.hasDynamicDrvDep = true)
    {inputs : List (List Char)} (hinputs : Parses (parseInputDrvsDynamic storeDir)
      (printList inputs) [] ((d.sorted storeDir).inputDrvs, (d.sorted storeDir).dynamicInputDrvs)) :
    Parses (parseDynamicDerivation storeDir) ("DrvWithVersion(".toList ++
      (printUnquotedString "xp-dyn-drv" ++ ',' :: d.bodyOf storeDir inputs)) []
      (d.sorted storeDir) := by
  have hversion : Parses parseString (printUnquotedString "xp-dyn-drv") [] "xp-dyn-drv" :=
    parses_unquoted (by decide)
  have hknown : checkVersion "xp-dyn-drv" = pure () := if_neg (by simp)
  have hrest := parses_rest h
  rw [h.marked, hdep] at hrest
  apply Parses.expect_bind
  apply Parses.skip_bind (by decide)
  refine Parses.bind (hversion.before _) ?_
  rw [hknown, pure_bind]
  apply Parses.expectOne_bind
  apply Parses.skip_bind (by decide)
  refine Parses.bind ((parses_sortedOutputs h).before _) (Parses.expectOne_bind ?_)
  apply Parses.skip_bind (by decide)
  refine Parses.bind (hinputs.before _) (Parses.expectOne_bind ?_)
  exact Parses.skip_bind (by decide) hrest

end Derivation

section Format

variable {storeDir : String} {d : Derivation}

theorem parses_format (h : d.Printable storeDir) {inputs : List (List Char)}
    (hdynamic : d.hasDynamicDrvDep = true → Parses (parseInputDrvsDynamic storeDir)
      (printList inputs) [] ((d.sorted storeDir).inputDrvs, (d.sorted storeDir).dynamicInputDrvs))
    (hsimple : d.hasDynamicDrvDep = false →
      inputs = (d.sortedEntries storeDir).map (entryText storeDir)) :
    Parses (parseFormat storeDir) (d.header ++ d.bodyOf storeDir inputs) []
      (d.sorted storeDir) := by
  rw [Derivation.header]
  intro rest pos
  cases hdep : d.hasDynamicDrvDep with
  | true =>
    have hrun := Derivation.parses_dynamic h hdep (hdynamic hdep) rest pos
    simp only [if_true, append_assoc, cons_append, nil_append] at hrun ⊢
    rw [parseFormat, if_pos (by simp)]
    simpa using hrun
  | false =>
    have hrun := Derivation.parses_traditional h hdep rest pos
    rw [hsimple hdep, ← Derivation.bodyText_eq]
    simp only [Bool.false_eq_true, if_false] at hrun ⊢
    have hother : "DrvWithVersion(".toList.isPrefixOf
        ("Derive(".toList ++ d.bodyText storeDir ++ ([] ++ rest)) = false := rfl
    exact (if_neg (by rw [hother]; exact Bool.false_ne_true)).trans hrun

theorem exists_header_eq (d : Derivation) : ∃ text, d.header = 'D' :: text := by
  rw [Derivation.header]
  cases d.hasDynamicDrvDep <;> exact ⟨_, rfl⟩

/-- **A text is read when its inputs are**, however they are written in the dynamic format. -/
theorem parseDrv_of_inputs (h : d.Printable storeDir) {inputs : List (List Char)}
    (hdynamic : d.hasDynamicDrvDep = true → Parses (parseInputDrvsDynamic storeDir)
      (printList inputs) [] ((d.sorted storeDir).inputDrvs, (d.sorted storeDir).dynamicInputDrvs))
    (hsimple : d.hasDynamicDrvDep = false →
      inputs = (d.sortedEntries storeDir).map (entryText storeDir)) :
    parseDrv storeDir (d.header ++ d.bodyOf storeDir inputs) = .ok (d.sorted storeDir) := by
  have hparse := parses_format h hdynamic hsimple
  obtain ⟨text, htext⟩ := exists_header_eq d
  rw [htext, cons_append] at hparse ⊢
  have hall : Parses (parseDerivation storeDir) ('D' :: (text ++ d.bodyOf storeDir inputs)) []
      (d.sorted storeDir) := Parses.skip_bind (by decide) hparse
  have hrun := hall [] 0
  rw [append_nil, append_nil] at hrun
  rw [parseDrv, hrun]
  rfl

end Format

/-- **What `unparse` prints, `parse_drv` reads back**, in the order in which it was printed. -/
theorem parseDrv_unparse {storeDir : String} {d : Derivation} (h : d.Printable storeDir) :
    parseDrv storeDir (d.unparse storeDir) = .ok (d.sorted storeDir) := by
  rw [Derivation.unparse_eq h.apart, Derivation.bodyText_eq]
  exact parseDrv_of_inputs h (fun _ => parses_inputDrvsDynamic h.inputs) fun _ => rfl

/-- A derivation with an input that another derivation builds, and a variable that has to be
escaped. -/
def dynamicDrv : Derivation where
  outputs := [⟨"r:sha256", "", "out", ""⟩, ⟨"r:sha256", "", "dev", ""⟩]
  inputDrvs := ⟨[(⟨"b.drv"⟩, ["out"])], by decide⟩
  inputSrcs := {⟨"src"⟩}
  platform := "x86_64-linux"
  builder := "/bin/sh"
  args := ["-c", "echo \"$x\""]
  env := ⟨[("x", "a\\b\n\tc"), ("out", "")], by decide⟩
  isDynamic := true
  dynamicInputDrvs := ⟨[(⟨"a.drv"⟩, .mk [] [("out", .mk ["bin"] [])])], by decide⟩

theorem parseDrv_unparse_dynamicDrv :
    dynamicDrv.Printable "/nix/store" ∧
      parseDrv "/nix/store" (dynamicDrv.unparse "/nix/store") =
        .ok (dynamicDrv.sorted "/nix/store") := by
  have hnode : ChildMapNode.Plain (.mk [] [("out", .mk ["bin"] [])]) := by
    simp only [ChildMapNode.Plain, PlainChildren]
    decide
  have h : dynamicDrv.Printable "/nix/store" := by
    refine ⟨?_, ⟨?_, ?_⟩, by unfold Derivation.Apart; decide, ?_, by decide, rfl⟩
    · intro o ho
      rcases mem_pair.1 ho with rfl | rfl <;>
        exact ⟨by decide, by decide, by decide, by decide⟩
    · intro item hitem
      obtain rfl := mem_singleton.1 hitem
      decide
    · intro item hitem
      obtain rfl := mem_singleton.1 hitem
      exact ⟨by decide, hnode⟩
    · intro p hp
      obtain rfl := Finset.mem_singleton.1 hp
      decide
  exact ⟨h, parseDrv_unparse h⟩

end Pynixd
