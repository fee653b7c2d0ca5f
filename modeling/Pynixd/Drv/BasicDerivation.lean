import Pynixd.Drv.Parser
import Pynixd.Lib.ReadBack

/-!
# The text of a resolved derivation

`BasicDerivation` of the protocol package is a derivation without input derivations, and
`unparse_basic_derivation` of `pynixd/goals/resolution.py` prints it.  All of its strings are
escaped, but for the names of the outputs.

* `BasicDerivation.unparse_inj` — **the text says all of the derivation but its outputs**, and
  of the outputs it says what they print, whatever the strings hold;
* `BasicDerivation.sortedOutputs_inj` — the outputs too, where no name of an output has a quote
  in it.
-/

namespace Pynixd

open List Scan ReadBack

/-! ## Derivations -/

inductive OutputKind where
  | inputAddressed
  | caFixed
  | caFloating
  | deferred
  | impure
  deriving DecidableEq, Repr

/-- `DerivationOutput`: three strings on the wire. -/
structure DerivationOutput where
  path : String
  method : String
  hashDigest : String
  deriving DecidableEq, Repr

namespace DerivationOutput

def kind (o : DerivationOutput) : OutputKind :=
  if o.method = "" then
    if o.path = "" then .deferred else .inputAddressed
  else if o.hashDigest = "impure" then .impure
  else if o.hashDigest ≠ "" then .caFixed
  else .caFloating

def isCa (o : DerivationOutput) : Bool := o.kind ∈ [.caFixed, .caFloating, .impure]

end DerivationOutput

/-- `BasicDerivation`, the fields that travel. -/
structure BasicDerivation where
  outputs : Dict.Table String DerivationOutput
  inputSrcs : Finset StorePath
  platform : String
  builder : String
  args : List String
  env : Dict.Table String String

def printEscaped (s : String) : List Char := quoted (atermEscape s)

namespace BasicDerivation

/-- One output.  **The name is not escaped.** -/
def printOutput (maskOutputs : Bool) (item : String × DerivationOutput) : List Char :=
  '(' :: (printUnquotedString item.1 ++ ',' ::
    (printEscaped (if maskOutputs then "" else item.2.path) ++ ',' ::
      (printEscaped item.2.method ++ ',' :: (printEscaped item.2.hashDigest ++ [')']))))

def printVariable (item : String × String) : List Char :=
  '(' :: (printEscaped item.1 ++ ',' :: (printEscaped item.2 ++ [')']))

/-- `sorted(drv.outputs.items())`: no two outputs have one name, so that the names decide. -/
def sortedOutputs (d : BasicDerivation) : List (String × DerivationOutput) :=
  d.outputs.1.insertionSort (·.1 ≤ ·.1)

def printOutputs (maskOutputs : Bool) (d : BasicDerivation) : List Char :=
  printList (d.sortedOutputs.map (printOutput maskOutputs))

/-- What is printed behind the outputs. -/
abbrev Rest := List String × String × String × List String × List (String × String)

def printRest (rest : Rest) : List Char :=
  printList (rest.1.map printEscaped) ++ ',' ::
    (printEscaped rest.2.1 ++ ',' ::
      (printEscaped rest.2.2.1 ++ ',' ::
        (printList (rest.2.2.2.1.map printEscaped) ++ ',' ::
          (printList (rest.2.2.2.2.map printVariable) ++ [')']))))

/-- The fields behind the outputs, in the order in which they are printed. -/
def rest (storeDir : String) (d : BasicDerivation) : Rest :=
  (sortedSet (d.inputSrcs.image (StorePath.str storeDir)), d.platform, d.builder, d.args,
    d.env.1.insertionSort itemLe)

def unparse (storeDir : String) (maskOutputs : Bool) (d : BasicDerivation) : List Char :=
  "Derive(".toList ++ (d.printOutputs maskOutputs ++ (",[],".toList ++ printRest (d.rest storeDir)))

end BasicDerivation

/-! ## Strings, from their end -/

theorem Spells.getLast?_of_quote {text s : List Char} (h : Spells text s) {u v : List Char}
    (hsplit : text = u ++ '"' :: v) : u.getLast? = some '\\' := by
  induction h generalizing u with
  | nil => simp at hsplit
  | plain hc _ ih =>
    cases u with
    | nil =>
      cases hsplit
      simp [isPlain] at hc
    | cons d u =>
      obtain ⟨rfl, hrest⟩ := List.cons.inj hsplit
      have hlast := ih hrest
      simp [getLast?_cons, hlast]
  | escape esc _ ih =>
    cases u with
    | nil => cases hsplit
    | cons d u =>
      obtain ⟨hslash, htail⟩ := List.cons.inj hsplit
      cases u with
      | nil => rw [← hslash, getLast?_singleton]
      | cons e u =>
        have hlast := ih (List.cons.inj htail).2
        simp [getLast?_cons, hlast]

theorem printEscaped_inj {s s' : String} (h : printEscaped s = printEscaped s') : s = s' := by
  have hs := parses_escaped s [] 0
  have hs' := parses_escaped s' [] 0
  unfold printEscaped at h
  rw [h] at hs
  rw [hs] at hs'
  simpa using hs'

/-- Not in the middle of an escape. -/
def NotEscaping (l : List Char) : Prop := l.getLast? ≠ some '\\'

theorem notEscaping_concat (l : List Char) {c : Char} (hc : c ≠ '\\') : NotEscaping (l ++ [c]) := by
  simpa [NotEscaping] using hc

/-- The string that a text ends with starts where it starts: a quote further back would be a
quote of the string, with a backslash in front. -/
theorem eq_of_longer {l l' : List Char} {s s' : String} (hl' : NotEscaping l')
    {a : List Char} (ha : l' = l ++ a)
    (htext : '"' :: atermEscape s = a ++ '"' :: atermEscape s') : a = [] := by
  cases a with
  | nil => rfl
  | cons c a =>
    obtain ⟨rfl, hrest⟩ := List.cons.inj htext
    have hlast := (spells_atermEscape s).getLast?_of_quote hrest
    refine absurd ?_ hl'
    rw [ha, getLast?_append, getLast?_cons, hlast]
    rfl

/-- **An escaped string is read from its end.** -/
theorem readsBack_printEscaped : ReadsBack NotEscaping printEscaped := by
  intro s s' l l' hl hl' heq
  have hopen : l ++ '"' :: atermEscape s = l' ++ '"' :: atermEscape s' := by
    simp only [printEscaped, quoted, ← cons_append, ← append_assoc] at heq
    exact append_inj_left' heq rfl
  have hll' : l = l' := by
    rcases append_eq_append_iff.1 hopen with ⟨a, ha, htext⟩ | ⟨a, ha, htext⟩
    · rw [ha, eq_of_longer hl' ha htext, append_nil]
    · rw [ha, eq_of_longer hl ha htext, append_nil]
  subst hll'
  exact ⟨printEscaped_inj (append_cancel_left heq), rfl⟩

namespace BasicDerivation

/-! ## The text, from its end -/

theorem getLast?_printEscaped (l : List Char) (s : String) :
    (l ++ printEscaped s).getLast? = some '"' := by
  simp only [printEscaped, quoted, ← cons_append, ← append_assoc, getLast?_concat]

theorem readsBack_strings :
    ReadsBack (fun _ => True) fun xs : List String => printList (xs.map printEscaped) := by
  refine readsBack_printEscaped.list (by decide) (fun l s => ?_)
    (fun l => notEscaping_concat l (by decide)) fun l => notEscaping_concat l (by decide)
  rw [getLast?_printEscaped]
  decide

theorem getLast?_bracketed (l text : List Char) :
    (l ++ '(' :: (text ++ [')'])).getLast? = some ')' := by
  simp only [← cons_append, ← append_assoc, getLast?_concat]

theorem readsBack_printVariable : ReadsBack (fun _ => True) printVariable := by
  have hvalue := (readsBack_printEscaped.snoc ')').cons ',' fun l =>
    notEscaping_concat l (by decide)
  exact (readsBack_printEscaped.append hvalue fun _ _ _ => trivial).cons '(' fun l =>
    notEscaping_concat l (by decide)

theorem readsBack_variables : ReadsBack (fun _ => True) fun xs : List (String × String) =>
    printList (xs.map printVariable) := by
  refine readsBack_printVariable.list (by decide) (fun l item => ?_) (fun _ => trivial)
    fun _ => trivial
  have hlast := getLast?_bracketed l (printEscaped item.1 ++ ',' :: printEscaped item.2)
  rw [append_assoc, cons_append] at hlast
  rw [printVariable, hlast]
  decide

/-- **What is printed behind the outputs is read from its end**, whatever stands in front. -/
theorem readsBack_printRest : ReadsBack (fun _ => True) printRest := by
  have hnot : ∀ l, NotEscaping (l ++ [',']) := fun l => notEscaping_concat l (by decide)
  have henv := (readsBack_variables.snoc ')').cons ',' fun _ => trivial
  have hargs := (readsBack_strings.append henv fun _ _ _ => trivial).cons ',' fun _ => trivial
  have hbuilder := (readsBack_printEscaped.append hargs fun _ _ _ => trivial).cons ',' hnot
  have hplatform := (readsBack_printEscaped.append hbuilder fun _ _ _ => trivial).cons ',' hnot
  exact readsBack_strings.append hplatform fun _ _ _ => trivial

/-! ## The outputs -/

abbrev QuoteFree := {s : String // '"' ∉ s.toList}

theorem readsBack_printUnquotedString :
    ReadsBack (fun _ => True) fun s : QuoteFree => printUnquotedString s.1 := by
  rintro ⟨s, hs⟩ ⟨s', hs'⟩ l l' - - heq
  have hopen : l ++ '"' :: s.toList = l' ++ '"' :: s'.toList := by
    simp only [printUnquotedString, quoted, ← cons_append, ← append_assoc] at heq
    exact append_inj_left' heq rfl
  have hnil : ∀ {t t' : String} {a : List Char}, '"' ∉ t.toList →
      '"' :: t.toList = a ++ '"' :: t'.toList → a = [] := by
    intro t t' a ht htext
    cases a with
    | nil => rfl
    | cons c a =>
      refine absurd ?_ ht
      rw [(List.cons.inj htext).2]
      exact mem_append_right _ (mem_cons_self ..)
  have hll' : l = l' := by
    rcases append_eq_append_iff.1 hopen with ⟨a, ha, htext⟩ | ⟨a, ha, htext⟩
    · rw [ha, hnil hs htext, append_nil]
    · rw [ha, hnil hs' htext, append_nil]
  subst hll'
  have hchars := (List.cons.inj (append_cancel_left hopen)).2
  exact ⟨Subtype.ext (String.toList_inj.1 hchars), rfl⟩

abbrev PlainOutput := {item : String × DerivationOutput // '"' ∉ item.1.toList}

/-- The strings of an output, in the order in which they are printed. -/
def PlainOutput.strings (o : PlainOutput) : QuoteFree × String × String × String :=
  (⟨o.1.1, o.2⟩, o.1.2.path, o.1.2.method, o.1.2.hashDigest)

theorem PlainOutput.strings_injective : Function.Injective PlainOutput.strings := by
  rintro ⟨⟨name, path, method, digest⟩, hname⟩ ⟨⟨name', path', method', digest'⟩, hname'⟩ heq
  cases heq
  rfl

theorem readsBack_printOutput :
    ReadsBack (fun _ => True) fun o : PlainOutput => printOutput false o.1 := by
  have hnot : ∀ l, NotEscaping (l ++ [',']) := fun l => notEscaping_concat l (by decide)
  have hdigest := (readsBack_printEscaped.snoc ')').cons ',' hnot
  have hmethod := (readsBack_printEscaped.append hdigest fun _ _ _ => trivial).cons ',' hnot
  have hpath := (readsBack_printEscaped.append hmethod fun _ _ _ => trivial).cons ',' hnot
  have hitem := (readsBack_printUnquotedString.append hpath fun _ _ _ => trivial).cons '('
    fun _ => trivial
  exact hitem.comp PlainOutput.strings_injective

theorem readsBack_outputs : ReadsBack (fun _ => True) fun os : List PlainOutput =>
    printList (os.map fun o => printOutput false o.1) := by
  refine readsBack_printOutput.list (by decide) (fun l o => ?_) (fun _ => trivial)
    fun _ => trivial
  have hlast := getLast?_bracketed l (printUnquotedString o.1.1 ++ ',' ::
    (printEscaped o.1.2.path ++ ',' :: (printEscaped o.1.2.method ++ ',' ::
      printEscaped o.1.2.hashDigest)))
  simp only [append_assoc, cons_append] at hlast
  simp only [printOutput, Bool.false_eq_true, if_false, hlast]
  decide

def PlainNames (d : BasicDerivation) : Prop := ∀ item ∈ d.outputs.1, '"' ∉ item.1.toList

/-- **Outputs with plain names that print alike are equal.** -/
theorem sortedOutputs_inj {d d' : BasicDerivation} (h : d.PlainNames) (h' : d'.PlainNames)
    (htext : d.printOutputs false = d'.printOutputs false) :
    d.sortedOutputs = d'.sortedOutputs := by
  have hplain : ∀ {e : BasicDerivation}, e.PlainNames →
      ∃ os : List PlainOutput, os.map Subtype.val = e.sortedOutputs := by
    intro e he
    have hmem : ∀ item ∈ e.sortedOutputs, '"' ∉ item.1.toList :=
      fun item hitem => he item ((mem_insertionSort _).1 hitem)
    exact ⟨e.sortedOutputs.attachWith _ hmem, attachWith_map_subtype_val ..⟩
  obtain ⟨os, hos⟩ := hplain h
  obtain ⟨os', hos'⟩ := hplain h'
  rw [printOutputs, printOutputs, ← hos, ← hos', map_map, map_map] at htext
  rw [← hos, ← hos', readsBack_outputs.injective trivial htext]

/-! ## The whole text -/

/-- **The text says all of the derivation**, and of the outputs what they print. -/
theorem unparse_inj (storeDir : String) {d d' : BasicDerivation} :
    d.unparse storeDir false = d'.unparse storeDir false ↔
      d.printOutputs false = d'.printOutputs false ∧ d.rest storeDir = d'.rest storeDir := by
  unfold unparse
  rw [append_right_inj, ← append_assoc, ← append_assoc]
  constructor
  · intro htext
    obtain ⟨hrest, hfront⟩ := readsBack_printRest trivial trivial htext
    exact ⟨append_cancel_right hfront, hrest⟩
  · rintro ⟨houtputs, hrest⟩
    rw [houtputs, hrest]

end BasicDerivation

end Pynixd
