import Mathlib.Data.Finset.Basic
import Mathlib.Data.List.Sort
import Mathlib.Data.String.Basic

/-!
# Store paths and derived paths

`StorePath` of the protocol package and `DerivedPath` of `pynixd/derived_path.py`, as the
values that the goals compare and print.

* `StorePath` — the base name; the store directory is put in front when the path is
  printed;
* `DerivedPath` — a root store path, a chain of outputs below it, and what is wanted of
  the last derivation; nothing wanted means the path itself;
* `DerivedPath.baseStorePath` — the root, **whatever the chain and the outputs are**.
-/

namespace Pynixd

/-- `sorted(s)` of a set of strings. -/
def sortedSet (s : Finset String) : List String :=
  Quot.liftOn s.val (List.insertionSort (· ≤ ·)) fun _ _ h =>
    List.Perm.eq_of_pairwise' (List.pairwise_insertionSort _ _) (List.pairwise_insertionSort _ _)
      (((List.perm_insertionSort _ _).trans h).trans (List.perm_insertionSort _ _).symm)

theorem mem_sortedSet {s : Finset String} {x : String} : x ∈ sortedSet s ↔ x ∈ s := by
  obtain ⟨⟨l⟩, hl⟩ := s
  exact List.mem_insertionSort _

/-- `text.rpartition(sep)[2]`, for a separator of one character. -/
def afterLast (sep : Char) (text : String) : String :=
  String.ofList ((text.toList.reverse.takeWhile (· ≠ sep)).reverse)

/-- `text.split(sep, 1)[1]`, and the empty text without a separator. -/
def afterFirst (sep : Char) (text : String) : String :=
  String.ofList ((text.toList.dropWhile (· ≠ sep)).drop 1)

structure StorePath where
  base : String
  deriving DecidableEq, Repr

namespace StorePath

def str (storeDir : String) (p : StorePath) : String :=
  if p.base = "" then "" else storeDir ++ "/" ++ p.base

/-- `name`: the last component. -/
def name (p : StorePath) : String := afterLast '/' p.base

/-- `base_name`: the readable part, after the hash. -/
def baseName (p : StorePath) : String := afterFirst '-' p.name

end StorePath

inductive OutputsSpec where
  | all
  | names (wanted : Finset String)
  deriving DecidableEq

def OutputsSpec.toString : OutputsSpec → String
  | .all => "*"
  | .names wanted => ",".intercalate (sortedSet wanted)

structure DerivedPath where
  drvPath : StorePath
  /-- The outputs between the root and the last derivation, outer to inner. -/
  chain : List String
  /-- `none` for an opaque path. -/
  outputs : Option OutputsSpec
  deriving DecidableEq

namespace DerivedPath

def isOpaque (p : DerivedPath) : Bool := p.outputs.isNone

def isNested (p : DerivedPath) : Bool := !p.chain.isEmpty

def baseStorePath (p : DerivedPath) : StorePath := p.drvPath

/-- `outer`: the path to build first. -/
def outer (p : DerivedPath) : DerivedPath :=
  match p.chain.getLast? with
  | none => p
  | some output => ⟨p.drvPath, p.chain.dropLast, some (.names {output})⟩

/-- `wrap`: the next level, once `outer` is built. -/
def wrap (p : DerivedPath) (result : StorePath) : DerivedPath := ⟨result, [], p.outputs⟩

def print (separator storeDir : String) (p : DerivedPath) : String :=
  match p.outputs with
  | none => p.drvPath.str storeDir
  | some outputs =>
    separator.intercalate (p.drvPath.str storeDir :: p.chain ++ [outputs.toString])

/-- `__str__`: the wire form. -/
def str (storeDir : String) (p : DerivedPath) : String := p.print "!" storeDir

/-- `to_string`: the form of the command line. -/
def toString (storeDir : String) (p : DerivedPath) : String := p.print "^" storeDir

end DerivedPath

end Pynixd
