import Mathlib.Data.Finset.Image
import Pynixd.Lib.Dict
import Pynixd.Lib.Scan
import Pynixd.Protocol.DerivedPath

/-!
# Printing a derivation

`pynixd/drv_parser.py` holds a parsed `.drv` file and prints it again as an ATerm.  The
builder, its arguments and the environment are escaped; names, paths and hashes are only
put in quotes.

* `ChildMapNode`, `DrvInputNode` — the tree of an input that is the output of a dynamic
  derivation, as it is held and as it is printed;
* `Derivation.unparse` — the text;
* `Derivation.sorted` — the derivation in **the order in which it is printed**.
-/

namespace Pynixd

open Scan

/-! ## Derivations -/

/-- `DrvOutput` of `pynixd/store_path.py`. -/
structure DrvOutput where
  hashAlgo : String
  hashValue : String
  outputName : String
  path : String
  deriving DecidableEq, Repr

/-- `ChildMapNode`: the outputs at this level, and a node under each output name. -/
inductive ChildMapNode where
  | mk (outputs : List String) (children : List (String × ChildMapNode))
  deriving Repr

/-- `_DrvInputNode`: output names, the child map, and whether the entry is a dynamic one. -/
inductive DrvInputNode where
  | mk (outputNames : List String) (childMap : List (String × DrvInputNode)) (isDynamic : Bool)
  deriving Repr

structure Derivation where
  outputs : List DrvOutput
  inputDrvs : Dict.Table StorePath (List String)
  inputSrcs : Finset StorePath
  platform : String
  builder : String
  args : List String
  env : Dict.Table String String
  isDynamic : Bool
  dynamicInputDrvs : Dict.Table StorePath ChildMapNode

/-! ## Strings -/

/-- `s.replace(old, new)`, for one character. -/
def replaceChar (old : Char) (new : List Char) (s : List Char) : List Char :=
  s.flatMap fun c => if c = old then new else [c]

def atermEscape (s : String) : List Char :=
  let s := replaceChar '\\' ['\\', '\\'] s.toList
  let s := replaceChar '"' ['\\', '"'] s
  let s := replaceChar '\n' ['\\', 'n'] s
  let s := replaceChar '\r' ['\\', 'r'] s
  replaceChar '\t' ['\\', 't'] s

def quoted (text : List Char) : List Char := '"' :: (text ++ ['"'])

def printUnquotedString (s : String) : List Char := quoted s.toList

def printList (items : List (List Char)) : List Char := '[' :: (joined ',' items ++ [']'])

def printUnquotedStrings (items : List String) : List Char :=
  printList (items.map printUnquotedString)

/-! ## Input nodes -/

mutual
def childMapToDrvNode (prefixOutputs : List String) : ChildMapNode → DrvInputNode
  | .mk outputs children => .mk (prefixOutputs ++ outputs) (childrenToDrvNodes children) true

def childrenToDrvNodes : List (String × ChildMapNode) → List (String × DrvInputNode)
  | [] => []
  | (name, child) :: children => (name, childMapToDrvNode [] child) :: childrenToDrvNodes children
end

/-- An entry in round brackets: a string, and what is printed of its node. -/
def printEntry (key : String) (node : List Char) : List Char :=
  '(' :: (printUnquotedString key ++ (node ++ [')']))

mutual
/-- `_unparse_derived_path_node`.  The children are sorted by their names, which are the keys
of a dictionary, so that it does not matter that they are printed first. -/
def unparseDerivedPathNode : DrvInputNode → List Char
  | .mk outputNames childMap isDynamic =>
    if childMap.isEmpty && !isDynamic then ',' :: printUnquotedStrings outputNames
    else
      let children := (unparseChildren childMap).insertionSort (·.1 ≤ ·.1)
      ',' :: '(' :: (printUnquotedStrings outputNames ++ ',' ::
        (printList (children.map fun child => printEntry child.1 child.2) ++ [')']))

def unparseChildren : List (String × DrvInputNode) → List (String × List Char)
  | [] => []
  | (name, child) :: children => (name, unparseDerivedPathNode child) :: unparseChildren children
end

/-! ## The whole derivation -/

/-- The order of `sorted(env.items())`. -/
def itemLe (a b : String × String) : Prop := a.1 < b.1 ∨ a.1 = b.1 ∧ a.2 ≤ b.2

instance : DecidableRel itemLe := fun _ _ => inferInstanceAs (Decidable (_ ∨ _ ∧ _))

namespace Derivation

def hasDynamicDrvDep (d : Derivation) : Bool := !d.dynamicInputDrvs.1.isEmpty

def printOutput (maskOutputs : Bool) (o : DrvOutput) : List Char :=
  '(' :: (printUnquotedString o.outputName ++ ',' ::
    (printUnquotedString (if maskOutputs then "" else o.path) ++ ',' ::
      (printUnquotedString o.hashAlgo ++ ',' :: (printUnquotedString o.hashValue ++ [')']))))

/-- The paths of the simple and of the dynamic inputs, in the order of their texts. -/
def allPaths (storeDir : String) (d : Derivation) : List StorePath :=
  (Dict.fromkeys (d.inputDrvs.1.map Prod.fst ++ d.dynamicInputDrvs.1.map Prod.fst)).insertionSort
    fun p q => p.str storeDir ≤ q.str storeDir

/-- The node of one input, built from both entries. -/
def inputNode (d : Derivation) (p : StorePath) : DrvInputNode :=
  let outputs := (Dict.get? d.inputDrvs.1 p).getD []
  match Dict.get? d.dynamicInputDrvs.1 p with
  | some node => childMapToDrvNode outputs node
  | none => .mk outputs [] false

/-- The input derivations, or what replaces them. -/
def printInputs (storeDir : String) (actualInputs : Option (List (String × DrvInputNode)))
    (d : Derivation) : List Char :=
  match actualInputs with
  | some nodes =>
    printList ((nodes.insertionSort (·.1 ≤ ·.1)).map fun item =>
      printEntry item.1 (unparseDerivedPathNode item.2))
  | none =>
    printList ((d.allPaths storeDir).map fun p =>
      printEntry (p.str storeDir) (unparseDerivedPathNode (d.inputNode p)))

def printVariable (maskOutputs : Bool) (outputNames : List String) (item : String × String) :
    List Char :=
  '(' :: (quoted (atermEscape item.1) ++ ',' ::
    (quoted (if maskOutputs && item.1 ∈ outputNames then [] else atermEscape item.2) ++ [')']))

/-- What stands in front of the outputs. -/
def header (d : Derivation) : List Char :=
  if d.hasDynamicDrvDep then
    "DrvWithVersion(".toList ++ (printUnquotedString "xp-dyn-drv" ++ [','])
  else "Derive(".toList

def unparse (storeDir : String) (d : Derivation) (maskOutputs : Bool := false)
    (actualInputs : Option (List (String × DrvInputNode)) := none) : List Char :=
  let outputs := d.outputs.insertionSort (·.outputName ≤ ·.outputName)
  let srcs := sortedSet (d.inputSrcs.image (StorePath.str storeDir))
  let env := d.env.1.insertionSort itemLe
  d.header ++ (printList (outputs.map (printOutput maskOutputs)) ++ ',' ::
    (d.printInputs storeDir actualInputs ++ ',' ::
      (printUnquotedStrings srcs ++ ',' ::
        (printUnquotedString d.platform ++ ',' ::
          (quoted (atermEscape d.builder) ++ ',' ::
            (printList (d.args.map fun a => quoted (atermEscape a)) ++ ',' ::
              (printList (env.map (printVariable maskOutputs (d.outputs.map (·.outputName)))) ++
                [')'])))))))

end Derivation

/-! ## The order in which it is printed -/

mutual
/-- The children sorted by name, at every level. -/
def ChildMapNode.sorted : ChildMapNode → ChildMapNode
  | .mk outputs children => .mk outputs ((sortedChildren children).insertionSort (·.1 ≤ ·.1))

def sortedChildren : List (String × ChildMapNode) → List (String × ChildMapNode)
  | [] => []
  | (name, child) :: children => (name, child.sorted) :: sortedChildren children
end

/-- The same derivation, with its outputs and dictionaries in the order in which `unparse`
prints them. -/
def Derivation.sorted (storeDir : String) (d : Derivation) : Derivation :=
  { d with
    outputs := d.outputs.insertionSort (·.outputName ≤ ·.outputName)
    inputDrvs := ⟨_, d.inputDrvs.nodup_of_perm
      (List.perm_insertionSort (fun a b => a.1.str storeDir ≤ b.1.str storeDir) _)⟩
    env := ⟨_, d.env.nodup_of_perm (List.perm_insertionSort itemLe _)⟩
    dynamicInputDrvs := ⟨_, Dict.Table.nodup_of_perm
      ⟨d.dynamicInputDrvs.1.map fun item => (item.1, item.2.sorted), by
        simpa [Function.comp_def] using d.dynamicInputDrvs.2⟩
      (List.perm_insertionSort (fun a b => a.1.str storeDir ≤ b.1.str storeDir) _)⟩ }

end Pynixd
