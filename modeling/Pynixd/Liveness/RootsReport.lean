import Mathlib
import Pynixd.Liveness.Tracker

/-!
# What each root keeps

`query_roots_report` of `pynixd/local_store_db.py` tells for each labelled root how much it keeps
alive: in full, and what no other root keeps.  The labels with the same seeds share one closure,
and a counter for each valid path says how many labels keep it.

* `queryRootsReport_exact` — **every label with a seed has its line, with the paths and bytes of
  its live closure, and of the part of it that is in no other closure; and the closures together
  are the live set** that the mirror computes for the same seeds.
-/

namespace Pynixd.LiveSet

open List

open scoped BigOperators

structure RootAttribution where
  label : String
  fullPaths : Nat
  fullBytes : Nat
  exclusivePaths : Nat
  exclusiveBytes : Nat
  deriving DecidableEq

/-- A root: its label, and the paths it names. -/
abbrev Labeled := String × List String

section Report

variable (rows : Rows) (narSize : String → Option Nat)

def rootClosure (seeds : Finset String) : List Nat :=
  Reach.saturate (arms rows) (numbers rows).length (LiveSet.seeds rows seeds)

/-- `SELECT COUNT(*), COALESCE(SUM(narSize), 0)`, over the rows that a condition takes. -/
def figures (takes : Nat → Bool) : Nat × Nat :=
  let found := rows.filter fun row => takes row.1
  (found.length, (found.map fun row => (narSize row.2.path).getD 0).sum)

/-- `groups`: the labels of each set of seeds, the empty set aside. -/
def groups (labeled : List Labeled) : List (Finset String × List String) :=
  Dict.group ((labeled.map fun root => (root.2.toFinset, root.1)).filter (·.1 ≠ ∅))

/-- `_pynixd_root_hits`, behind the updates of all groups. -/
def hits (groups : List (Finset String × List String)) : Nat → Nat :=
  groups.foldl (fun n group id =>
    if id ∈ rootClosure rows group.1 then n id + group.2.length else n id) fun _ => 0

def attribution (n : Nat → Nat) (seeds : Finset String) (label : String) : RootAttribution :=
  let full := figures rows narSize fun id => id ∈ rootClosure rows seeds
  let exclusive := figures rows narSize fun id => n id = 1 ∧ id ∈ rootClosure rows seeds
  ⟨label, full.1, full.2, exclusive.1, exclusive.2⟩

/-- `query_roots_report`, where the database answers. -/
def queryRootsReport (labeled : List Labeled) : List RootAttribution :=
  let groups := groups labeled
  groups.flatMap fun group =>
    group.2.map (attribution rows narSize (hits rows groups) group.1)

end Report

/-! ## Exactness -/

/-- The live closure of a root. -/
def Keeps (rows : Rows) (root : Labeled) : Finset String := liveSet rows root.2.toFinset

/-- What the line of a root should say, among the other roots. -/
structure Attributes (rows : Rows) (narSize : String → Option Nat) (root : Labeled)
    (others : List Labeled) (line : RootAttribution) : Prop where
  label : line.label = root.1
  fullPaths : line.fullPaths = (Keeps rows root).card
  fullBytes : line.fullBytes = ∑ path ∈ Keeps rows root, (narSize path).getD 0
  exclusivePaths : line.exclusivePaths =
    ((Keeps rows root).filter fun path => ∀ other ∈ others, path ∉ Keeps rows other).card
  exclusiveBytes : line.exclusiveBytes =
    ∑ path ∈ (Keeps rows root).filter fun path => ∀ other ∈ others, path ∉ Keeps rows other,
      (narSize path).getD 0

section Exact

variable {rows : Rows} (hpaths : (rows.map (·.2.path)).Nodup)

include hpaths

theorem mem_rootClosure_iff {row : Nat × ValidPath} (hrow : row ∈ rows) (seeds : Finset String) :
    row.1 ∈ rootClosure rows seeds ↔ row.2.path ∈ liveSet rows seeds := by
  constructor
  · intro h
    exact mem_toFinset.2 (mem_map_of_mem (mem_filter.2 ⟨hrow, decide_eq_true h⟩))
  · intro h
    obtain ⟨other, hother, hpath⟩ := mem_map.1 (mem_toFinset.1 h)
    obtain ⟨hother, hreached⟩ := mem_filter.1 hother
    obtain rfl := inj_on_of_nodup_map hpaths hother hrow hpath
    exact of_decide_eq_true hreached

theorem figures_eq (narSize : String → Option Nat) (takes : Nat → Bool) (paths : Finset String)
    (h : ∀ path, path ∈ paths ↔ ∃ row ∈ rows, row.2.path = path ∧ takes row.1 = true) :
    figures rows narSize takes = (paths.card, ∑ path ∈ paths, (narSize path).getD 0) := by
  have hnodup : ((rows.filter fun row => takes row.1).map (·.2.path)).Nodup :=
    hpaths.sublist (filter_sublist.map _)
  have heq : paths = ((rows.filter fun row => takes row.1).map (·.2.path)).toFinset := by
    ext path
    rw [h, mem_toFinset, mem_map]
    simp only [mem_filter]
    exact ⟨fun ⟨row, hrow, hpath, htakes⟩ => ⟨row, ⟨hrow, htakes⟩, hpath⟩,
      fun ⟨row, ⟨hrow, htakes⟩, hpath⟩ => ⟨row, hrow, hpath, htakes⟩⟩
  rw [heq, toFinset_card_of_nodup hnodup, sum_toFinset _ hnodup,
    length_map, map_map]
  rfl

theorem mem_keeps_iff (root : Labeled) (path : String) : path ∈ Keeps rows root ↔
    ∃ row ∈ rows, row.2.path = path ∧
      decide (row.1 ∈ rootClosure rows root.2.toFinset) = true := by
  simp only [decide_eq_true_eq]
  constructor
  · intro h
    obtain ⟨row, hrow, rfl, -⟩ := LiveSet.mem_liveSet.1 h
    exact ⟨row, hrow, rfl, (mem_rootClosure_iff hpaths hrow _).2 h⟩
  · rintro ⟨row, hrow, rfl, hreached⟩
    exact (mem_rootClosure_iff hpaths hrow _).1 hreached

end Exact

/-! ## The counters -/

section Counters

variable {rows : Rows}

theorem hits_eq (groups : List (Finset String × List String)) (id : Nat) :
    hits rows groups id =
      (Dict.ungroup groups).countP fun item => id ∈ rootClosure rows item.1 := by
  have hfold : ∀ n : Nat → Nat, groups.foldl (fun n group id =>
      if id ∈ rootClosure rows group.1 then n id + group.2.length else n id) n id =
        n id + (Dict.ungroup groups).countP fun item => id ∈ rootClosure rows item.1 := by
    induction groups with
    | nil => exact fun n => by simp [Dict.ungroup]
    | cons group groups ih =>
      intro n
      have hgroup : (group.2.map fun label => (group.1, label)).countP
          (fun item => decide (id ∈ rootClosure rows item.1)) =
            if id ∈ rootClosure rows group.1 then group.2.length else 0 := by
        split
        · next h => simp [Function.comp_def, h]
        · next h => simp [Function.comp_def, h]
      rw [foldl_cons, ih, Dict.ungroup_cons, countP_append, hgroup]
      split <;> omega
  rw [hits, hfold, Nat.zero_add]

theorem rootClosure_empty : rootClosure rows ∅ = [] := by
  have hseeds : LiveSet.seeds rows ∅ = [] := by simp [LiveSet.seeds]
  refine eq_nil_iff_forall_not_mem.2 fun id hid => ?_
  rw [rootClosure, hseeds] at hid
  obtain ⟨a, ha, -⟩ := Reach.from_of_mem_saturate _ hid
  cases ha

theorem hits_groups (labeled : List Labeled) (id : Nat) :
    hits rows (groups labeled) id =
      labeled.countP fun root => id ∈ rootClosure rows root.2.toFinset := by
  rw [hits_eq, groups, (Dict.perm_ungroup_group _).countP_eq, countP_filter, countP_map]
  refine countP_congr fun root _ => ?_
  simp only [Function.comp_apply, Bool.and_eq_true, decide_eq_true_eq, and_iff_left_iff_imp]
  rintro hid hempty
  rw [hempty, rootClosure_empty] at hid
  cases hid

theorem hits_eq_one_iff {labeled : List Labeled} {i : Nat} {root : Labeled}
    (hroot : labeled[i]? = some root) {id : Nat} (hid : id ∈ rootClosure rows root.2.toFinset) :
    hits rows (groups labeled) id = 1 ↔
      ∀ other ∈ labeled.eraseIdx i, id ∉ rootClosure rows other.2.toFinset := by
  obtain ⟨hi, rfl⟩ := List.getElem?_eq_some_iff.1 hroot
  rw [hits_groups, ← (getElem_cons_eraseIdx_perm hi).countP_eq, countP_cons,
    if_pos (by simpa using hid)]
  simp

end Counters

section Exact

variable {rows : Rows} (hpaths : (rows.map (·.2.path)).Nodup)

include hpaths

theorem attributes_attribution (narSize : String → Option Nat) {labeled : List Labeled} {i : Nat}
    {root : Labeled} (hroot : labeled[i]? = some root) :
    Attributes rows narSize root (labeled.eraseIdx i)
      (attribution rows narSize (hits rows (groups labeled)) root.2.toFinset root.1) := by
  have hexclusive : ∀ path, path ∈ ((Keeps rows root).filter fun path =>
      ∀ other ∈ labeled.eraseIdx i, path ∉ Keeps rows other) ↔ ∃ row ∈ rows, row.2.path = path ∧
        decide (hits rows (groups labeled) row.1 = 1 ∧
          row.1 ∈ rootClosure rows root.2.toFinset) = true := by
    intro path
    simp only [Finset.mem_filter, mem_keeps_iff hpaths root, decide_eq_true_eq]
    constructor
    · rintro ⟨⟨row, hrow, rfl, hreached⟩, hothers⟩
      refine ⟨row, hrow, rfl, (hits_eq_one_iff hroot hreached).2 fun other hother hin => ?_,
        hreached⟩
      exact hothers other hother ((mem_rootClosure_iff hpaths hrow _).1 hin)
    · rintro ⟨row, hrow, rfl, hone, hreached⟩
      refine ⟨⟨row, hrow, rfl, hreached⟩, fun other hother hin => ?_⟩
      exact (hits_eq_one_iff hroot hreached).1 hone other hother
        ((mem_rootClosure_iff hpaths hrow _).2 hin)
  have hfull := figures_eq hpaths narSize
    (fun id => decide (id ∈ rootClosure rows root.2.toFinset)) _ (mem_keeps_iff hpaths root)
  have hexclusive := figures_eq hpaths narSize (fun id => decide
    (hits rows (groups labeled) id = 1 ∧ id ∈ rootClosure rows root.2.toFinset)) _ hexclusive
  constructor <;> simp only [attribution, hfull, hexclusive]

omit hpaths in
theorem perm_queryRootsReport (narSize : String → Option Nat) (labeled : List Labeled) :
    (queryRootsReport rows narSize labeled).Perm
      ((labeled.zipIdx.filter fun e => e.1.2 ≠ []).map fun e =>
        attribution rows narSize (hits rows (groups labeled)) e.1.2.toFinset e.1.1) := by
  have hlines : queryRootsReport rows narSize labeled = (Dict.ungroup (groups labeled)).map
      fun item => attribution rows narSize (hits rows (groups labeled)) item.1 item.2 := by
    simp [queryRootsReport, Dict.ungroup, map_flatMap, Function.comp_def]
  have hplaces : ∀ (p : Labeled → Bool) (f : Labeled → RootAttribution),
      (labeled.filter p).map f = (labeled.zipIdx.filter fun e => p e.1).map fun e => f e.1 := by
    intro p f
    conv_lhs => rw [← zipIdx_map_fst 0 labeled]
    rw [filter_map, map_map]
    rfl
  rw [hlines]
  refine ((Dict.perm_ungroup_group _).map _).trans (.of_eq ?_)
  rw [filter_map, map_map]
  simp only [Function.comp_def, ne_eq, toFinset_eq_empty_iff]
  exact hplaces _ _

omit hpaths in
/-- **The closures of the roots together are the live set of all seeds.** -/
theorem biUnion_keeps (labeled : List Labeled) :
    labeled.toFinset.biUnion (Keeps rows) =
      liveSet rows (labeled.flatMap (·.2)).toFinset := by
  ext path
  simp only [Finset.mem_biUnion, mem_toFinset, Keeps, mem_liveSet]
  constructor
  · rintro ⟨root, hroot, row, hrow, hpath, a, ha, hreach⟩
    obtain ⟨seed, hseed, rfl⟩ := mem_map.1 ha
    refine ⟨row, hrow, hpath, seed.1, mem_map_of_mem (mem_filter.2 ⟨?_, ?_⟩), hreach⟩
    · exact (mem_filter.1 hseed).1
    · have hin := (mem_filter.1 hseed).2
      simp only [decide_eq_true_eq, mem_toFinset, mem_flatMap] at hin ⊢
      exact ⟨root, hroot, hin⟩
  · rintro ⟨row, hrow, hpath, a, ha, hreach⟩
    obtain ⟨seed, hseed, rfl⟩ := mem_map.1 ha
    have hin := (mem_filter.1 hseed).2
    simp only [decide_eq_true_eq, mem_toFinset, mem_flatMap] at hin
    obtain ⟨root, hroot, hin⟩ := hin
    refine ⟨root, hroot, row, hrow, hpath, seed.1,
      mem_map_of_mem (mem_filter.2 ⟨(mem_filter.1 hseed).1, ?_⟩), hreach⟩
    simpa using hin

/-- **The report is exact**: a line for each root with a seed, in full the paths and bytes of its
live closure, exclusive those that no other root keeps; and the closures together are the live set
that the mirror computes for the same seeds. -/
theorem queryRootsReport_exact (narSize : String → Option Nat) (labeled : List Labeled) :
    (∃ lines, (queryRootsReport rows narSize labeled).Perm lines ∧
      List.Forall₂ (fun e line => Attributes rows narSize e.1 (labeled.eraseIdx e.2) line)
        (labeled.zipIdx.filter fun e => e.1.2 ≠ []) lines) ∧
    labeled.toFinset.biUnion (Keeps rows) =
      liveSet rows (labeled.flatMap (·.2)).toFinset := by
  refine ⟨⟨_, perm_queryRootsReport narSize labeled, ?_⟩, biUnion_keeps labeled⟩
  rw [forall₂_map_right_iff, forall₂_same]
  intro e he
  exact attributes_attribution hpaths narSize
    (mem_zipIdx_iff_getElem?.1 (mem_of_mem_filter he))

end Exact

/-- Two roots with a path in common, and one of them twice. -/
def sharedRows : Rows :=
  [(1, ⟨"lib", none, []⟩), (2, ⟨"app", none, [1]⟩), (3, ⟨"tool", none, [1]⟩)]

def sharedRoots : List Labeled :=
  [("a", ["app"]), ("none", []), ("t", ["tool", "tool"]), ("b", ["app"])]

theorem queryRootsReport_sharedRows :
    queryRootsReport sharedRows (fun _ => some 10) sharedRoots =
      [⟨"a", 2, 20, 0, 0⟩, ⟨"b", 2, 20, 0, 0⟩, ⟨"t", 2, 20, 1, 10⟩] ∧
    sharedRoots.toFinset.biUnion (Keeps sharedRows) =
      liveSet sharedRows (sharedRoots.flatMap (·.2)).toFinset :=
  ⟨by decide +kernel, (@queryRootsReport_exact sharedRows (by decide +kernel) (fun _ => some 10)
    sharedRoots).2⟩

end Pynixd.LiveSet
