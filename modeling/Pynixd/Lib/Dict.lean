import Mathlib.Data.List.Induction
import Mathlib.Data.List.Sort

/-!
# Insertion-ordered dictionaries

A dictionary is the list of its items in insertion order.  Storing under a key
that is there replaces the value in place, and storing under a new key appends,
which is what the dictionaries of the scripting languages do.

* `get?_set`, `get?_modify`, `get?_pop`, `get?_update`, `get?_filter` — what a lookup answers
  after each operation;
* `get?_update_of_not_mem` — a key that an update does not name keeps its value;
* `perm_ungroup_group` — grouping values by their keys loses nothing and adds nothing.
-/

namespace Dict

open List

variable {κ ν : Type} [DecidableEq κ]

def get? : List (κ × ν) → κ → Option ν
  | [], _ => none
  | (j, v) :: d, k => if j = k then some v else get? d k

def set : List (κ × ν) → κ → ν → List (κ × ν)
  | [], k, v => [(k, v)]
  | (j, w) :: d, k, v => if j = k then (j, v) :: d else (j, w) :: set d k v

def update (d upd : List (κ × ν)) : List (κ × ν) :=
  upd.foldl (fun acc item => set acc item.1 item.2) d

/-- Change what is stored under `k`, if anything is. -/
def modify (d : List (κ × ν)) (k : κ) (f : ν → ν) : List (κ × ν) :=
  match get? d k with
  | none => d
  | some v => set d k (f v)

def pop : List (κ × ν) → κ → List (κ × ν)
  | [], _ => []
  | (j, v) :: d, k => if j = k then pop d k else (j, v) :: pop d k

/-- The keys of a dictionary made from a list: each element once, at its first place. -/
def fromkeys : List κ → List κ
  | [] => []
  | k :: ks => k :: (fromkeys ks).filter (· ≠ k)

@[simp] theorem get?_nil (k : κ) : get? ([] : List (κ × ν)) k = none := rfl

theorem get?_cons (j k : κ) (v : ν) (d : List (κ × ν)) :
    get? ((j, v) :: d) k = if j = k then some v else get? d k := rfl

theorem get?_set (d : List (κ × ν)) (j k : κ) (v : ν) :
    get? (set d j v) k = if j = k then some v else get? d k := by
  induction d with
  | nil => rfl
  | cons item d ih =>
    obtain ⟨i, w⟩ := item
    by_cases hij : i = j
    · subst hij
      by_cases hik : i = k <;> simp [set, get?_cons, hik]
    · by_cases hik : i = k
      · subst hik
        simp [set, get?_cons, hij, Ne.symm hij]
      · simp [set, get?_cons, hij, hik, ih]

@[simp] theorem get?_set_self (d : List (κ × ν)) (k : κ) (v : ν) :
    get? (set d k v) k = some v := by simp [get?_set]

theorem get?_set_of_ne (d : List (κ × ν)) {j k : κ} (v : ν) (h : j ≠ k) :
    get? (set d j v) k = get? d k := by simp [get?_set, h]

theorem set_set (d : List (κ × ν)) (k : κ) (v w : ν) : set (set d k v) k w = set d k w := by
  induction d with
  | nil => simp [set]
  | cons item d ih =>
    obtain ⟨i, u⟩ := item
    by_cases hik : i = k <;> simp [set, hik, ih]

variable {d upd : List (κ × ν)} {k : κ} {item : κ × ν} {v : ν}

theorem get?_update_of_not_mem (d upd : List (κ × ν))
    (h : k ∉ upd.map Prod.fst) : get? (update d upd) k = get? d k := by
  induction upd generalizing d with
  | nil => rfl
  | cons item upd ih =>
    simp only [map_cons, mem_cons, not_or] at h
    have hstep : update d (item :: upd) = update (set d item.1 item.2) upd := rfl
    rw [hstep, ih _ h.2, get?_set_of_ne _ _ (Ne.symm h.1)]

theorem get?_update_const (d : List (κ × ν)) (ks : List κ) (v : ν) (k : κ) :
    get? (update d (ks.map fun k => (k, v))) k = if k ∈ ks then some v else get? d k := by
  induction ks generalizing d with
  | nil => simp [update]
  | cons j ks ih =>
    have hstep : update d ((j :: ks).map fun k => (k, v)) =
        update (set d j v) (ks.map fun k => (k, v)) := rfl
    rw [hstep, ih, get?_set]
    by_cases hk : k ∈ ks
    · simp [hk]
    · by_cases hjk : j = k
      · simp [hjk]
      · simp [hk, hjk, Ne.symm hjk]

theorem get?_modify (d : List (κ × ν)) (j k : κ) (f : ν → ν) :
    get? (modify d j f) k = if j = k then (get? d k).map f else get? d k := by
  unfold modify
  by_cases hjk : j = k
  · subst hjk
    cases h : get? d j with
    | none => simp [h]
    | some v => simp
  · cases h : get? d j with
    | none => simp [hjk]
    | some v => simp [get?_set, hjk]

theorem get?_pop (d : List (κ × ν)) (j k : κ) :
    get? (pop d j) k = if j = k then none else get? d k := by
  induction d with
  | nil => simp [pop]
  | cons item d ih =>
    obtain ⟨i, w⟩ := item
    by_cases hij : i = j
    · subst hij
      rw [pop, if_pos rfl, ih]
      by_cases hik : i = k <;> simp [get?_cons, hik]
    · by_cases hik : i = k
      · subst hik
        simp [pop, hij, get?_cons, Ne.symm hij]
      · simp [pop, hij, get?_cons, hik, ih]

theorem mem_of_get?_eq_some (h : get? d k = some v) : (k, v) ∈ d := by
  induction d with
  | nil => simp at h
  | cons item d ih =>
    obtain ⟨j, w⟩ := item
    rw [get?_cons] at h
    split_ifs at h with hjk
    · cases h
      exact mem_cons.2 (.inl (by rw [hjk]))
    · exact mem_cons_of_mem _ (ih h)

theorem get?_eq_none_of_not_mem (h : k ∉ d.map Prod.fst) : get? d k = none := by
  cases hget : get? d k with
  | none => rfl
  | some v => exact absurd (mem_map_of_mem (mem_of_get?_eq_some hget)) h

theorem exists_get?_of_mem (h : (k, v) ∈ d) : ∃ w, get? d k = some w := by
  induction d with
  | nil => cases h
  | cons item d ih =>
    obtain ⟨j, w⟩ := item
    rw [get?_cons]
    split_ifs with hjk
    · exact ⟨w, rfl⟩
    · rcases mem_cons.1 h with heq | h
      · cases heq
        exact absurd rfl hjk
      · exact ih h

theorem set_of_get?_eq_none (h : get? d k = none) (v : ν) : set d k v = d ++ [(k, v)] := by
  induction d with
  | nil => rfl
  | cons item d ih =>
    rw [get?_cons] at h
    split_ifs at h with hjk
    rw [set, if_neg hjk, ih h]
    rfl

theorem mem_pop : item ∈ pop d k ↔ item ∈ d ∧ item.1 ≠ k := by
  induction d with
  | nil => simp [pop]
  | cons head d ih =>
    obtain ⟨j, w⟩ := head
    by_cases hjk : j = k
    · subst hjk
      rw [pop, if_pos rfl, ih, mem_cons]
      constructor
      · exact fun h => ⟨.inr h.1, h.2⟩
      · rintro ⟨rfl | h, hne⟩
        · exact absurd rfl hne
        · exact ⟨h, hne⟩
    · rw [pop, if_neg hjk, mem_cons, mem_cons, ih]
      constructor
      · rintro (rfl | h)
        · exact ⟨.inl rfl, hjk⟩
        · exact ⟨.inr h.1, h.2⟩
      · rintro ⟨rfl | h, hne⟩
        · exact .inl rfl
        · exact .inr ⟨h, hne⟩

theorem keys_set_subset (d : List (κ × ν)) (k : κ) (v : ν) :
    ∀ j ∈ (set d k v).map Prod.fst, j = k ∨ j ∈ d.map Prod.fst := by
  induction d with
  | nil => simp [set]
  | cons item d ih =>
    obtain ⟨i, w⟩ := item
    intro j hj
    by_cases hik : i = k
    · subst hik
      simpa [set] using hj
    · simp only [set, if_neg hik, map_cons, mem_cons] at hj ⊢
      rcases hj with rfl | hj
      · exact .inr (.inl rfl)
      · rcases ih j hj with hj | hj
        · exact .inl hj
        · exact .inr (.inr hj)

theorem nodup_keys_set (h : (d.map Prod.fst).Nodup) (k : κ) (v : ν) :
    ((set d k v).map Prod.fst).Nodup := by
  induction d with
  | nil => simp [set]
  | cons item d ih =>
    obtain ⟨i, w⟩ := item
    simp only [map_cons, nodup_cons] at h
    by_cases hik : i = k
    · rw [set, if_pos hik, map_cons, nodup_cons]
      exact h
    · simp only [set, if_neg hik, map_cons, nodup_cons]
      refine ⟨fun hi => ?_, ih h.2⟩
      rcases keys_set_subset d k v i hi with hi | hi
      · exact hik hi
      · exact h.1 hi

theorem nodup_keys_pop (h : (d.map Prod.fst).Nodup) (k : κ) : ((pop d k).map Prod.fst).Nodup := by
  induction d with
  | nil => simp [pop]
  | cons item d ih =>
    obtain ⟨i, w⟩ := item
    simp only [map_cons, nodup_cons] at h
    by_cases hik : i = k
    · rw [pop, if_pos hik]
      exact ih h.2
    · simp only [pop, if_neg hik, map_cons, nodup_cons]
      refine ⟨fun hi => h.1 ?_, ih h.2⟩
      obtain ⟨item, hitem, rfl⟩ := mem_map.1 hi
      exact mem_map_of_mem (mem_pop.1 hitem).1

theorem get?_eq_some_iff_mem (h : (d.map Prod.fst).Nodup) : get? d k = some v ↔ (k, v) ∈ d := by
  refine ⟨mem_of_get?_eq_some, fun hin => ?_⟩
  induction d with
  | nil => cases hin
  | cons item d ih =>
    obtain ⟨i, w⟩ := item
    simp only [map_cons, nodup_cons] at h
    rw [get?_cons]
    rcases mem_cons.1 hin with heq | hin
    · cases heq
      rw [if_pos rfl]
    · rw [if_neg, ih h.2 hin]
      rintro rfl
      exact h.1 (mem_map_of_mem hin)

/-- What an update leaves under a key: the new value, or else the old one. -/
theorem get?_update (d : List (κ × ν)) (h : (upd.map Prod.fst).Nodup)
    (k : κ) : get? (update d upd) k = (get? upd k).or (get? d k) := by
  induction upd generalizing d with
  | nil => rfl
  | cons item upd ih =>
    obtain ⟨j, v⟩ := item
    simp only [map_cons, nodup_cons] at h
    have hstep : update d ((j, v) :: upd) = update (set d j v) upd := rfl
    rw [hstep, get?_cons]
    by_cases hjk : j = k
    · subst hjk
      rw [get?_update_of_not_mem _ _ h.1, get?_set_self, if_pos rfl]
      rfl
    · rw [ih _ h.2, get?_set_of_ne _ _ hjk, if_neg hjk]

theorem update_eq_append (h : ((d ++ upd).map Prod.fst).Nodup) : update d upd = d ++ upd := by
  induction upd generalizing d with
  | nil => rw [append_nil]; rfl
  | cons item upd ih =>
    obtain ⟨k, v⟩ := item
    have hnew : get? d k = none := by
      apply get?_eq_none_of_not_mem
      intro hk
      simp only [map_append, nodup_append] at h
      exact h.2.2 k hk k (by simp) rfl
    have hstep : update d ((k, v) :: upd) = update (set d k v) upd := rfl
    rw [hstep, set_of_get?_eq_none hnew, ih (by simpa using h), append_assoc]
    rfl

theorem nodup_keys_update (h : (d.map Prod.fst).Nodup)
    (upd : List (κ × ν)) : ((update d upd).map Prod.fst).Nodup := by
  induction upd generalizing d with
  | nil => exact h
  | cons item upd ih => exact ih (nodup_keys_set h item.1 item.2)

/-- The items under the keys that `p` keeps. -/
theorem get?_filter (d : List (κ × ν)) (p : κ → Bool) (k : κ) :
    get? (d.filter fun item => p item.1) k = if p k then get? d k else none := by
  induction d with
  | nil => simp [get?]
  | cons item d ih =>
    obtain ⟨j, v⟩ := item
    rw [filter_cons, get?_cons]
    by_cases hjk : j = k
    · subst hjk
      by_cases hp : p j
      · simp [hp, get?_cons]
      · simp [hp, ih]
    · by_cases hp : p j
      · rw [if_pos hp, get?_cons, if_neg hjk, if_neg hjk, ih]
      · rw [if_neg hp, if_neg hjk, ih]

/-- `d == e`: the same items, in whatever order. -/
def same [DecidableEq ν] (d e : List (κ × ν)) : Bool :=
  d.all (fun item => get? e item.1 = some item.2) && e.all fun item => get? d item.1 = some item.2

theorem get?_eq_of_same [DecidableEq ν] {d e : List (κ × ν)} (h : same d e = true) (k : κ) :
    get? d k = get? e k := by
  simp only [same, Bool.and_eq_true, all_eq_true, decide_eq_true_eq] at h
  cases hd : get? d k with
  | some v => exact (h.1 (k, v) (mem_of_get?_eq_some hd)).symm
  | none =>
    cases he : get? e k with
    | none => rfl
    | some v =>
      have hin := h.2 (k, v) (mem_of_get?_eq_some he)
      rw [hd] at hin
      cases hin

@[simp] theorem mem_fromkeys {ks : List κ} : k ∈ fromkeys ks ↔ k ∈ ks := by
  induction ks with
  | nil => simp [fromkeys]
  | cons j ks ih =>
    by_cases hjk : k = j
    · simp [fromkeys, hjk]
    · simp [fromkeys, hjk, ih]

theorem fromkeys_of_nodup {ks : List κ} (h : ks.Nodup) : fromkeys ks = ks := by
  induction ks with
  | nil => rfl
  | cons k ks ih =>
    rw [nodup_cons] at h
    have hfilter : ks.filter (· ≠ k) = ks := by
      apply filter_eq_self.2
      intro j hj
      simpa using fun heq : j = k => h.1 (heq ▸ hj)
    rw [fromkeys, ih h.2, hfilter]

theorem nodup_fromkeys (ks : List κ) : (fromkeys ks).Nodup := by
  induction ks with
  | nil => exact nodup_nil
  | cons k ks ih => exact nodup_cons.2 ⟨by simp, ih.filter _⟩

/-! ## Items -/

omit [DecidableEq κ] in
theorem mem_keys_iff : k ∈ d.map Prod.fst ↔ ∃ v, (k, v) ∈ d := by
  simp

theorem mem_set (h : item ∈ set d k v) : item ∈ d ∨ item = (k, v) := by
  induction d with
  | nil => exact .inr (mem_singleton.1 h)
  | cons first d ih =>
    unfold set at h
    split_ifs at h with hk
    · rcases mem_cons.1 h with rfl | h
      · exact .inr (by rw [hk])
      · exact .inl (mem_cons_of_mem _ h)
    · rcases mem_cons.1 h with rfl | h
      · exact .inl (mem_cons_self ..)
      · exact (ih h).imp (mem_cons_of_mem _) id

theorem mem_update (h : item ∈ update d upd) : item ∈ d ∨ item ∈ upd := by
  induction upd generalizing d with
  | nil => exact .inl h
  | cons first upd ih =>
    rcases ih h with hd | hu
    · exact (mem_set hd).imp id fun heq => mem_cons.2 (.inl heq)
    · exact .inr (mem_cons_of_mem _ hu)

theorem get?_isSome_iff : (get? d k).isSome = true ↔ k ∈ d.map Prod.fst := by
  constructor
  · intro h
    obtain ⟨v, hv⟩ := Option.isSome_iff_exists.1 h
    exact mem_map_of_mem (mem_of_get?_eq_some hv)
  · intro h
    obtain ⟨v, hv⟩ := mem_keys_iff.1 h
    obtain ⟨w, hw⟩ := exists_get?_of_mem hv
    exact Option.isSome_iff_exists.2 ⟨w, hw⟩

theorem mem_keys_set {j k : κ} : k ∈ (set d j v).map Prod.fst ↔ k = j ∨ k ∈ d.map Prod.fst := by
  rw [← get?_isSome_iff, ← get?_isSome_iff, get?_set]
  by_cases hkj : j = k
  · simp [hkj]
  · simp [hkj, Ne.symm hkj]

theorem mem_keys_update :
    k ∈ (update d upd).map Prod.fst ↔ k ∈ d.map Prod.fst ∨ k ∈ upd.map Prod.fst := by
  induction upd generalizing d with
  | nil => simp [update]
  | cons first upd ih =>
    have hcons : update d (first :: upd) = update (set d first.1 first.2) upd := rfl
    rw [hcons, ih, mem_keys_set, map_cons, mem_cons, or_assoc, or_left_comm]

/-! ## Other values -/

section Values

variable {μ : Type} (f : ν → μ)

theorem get?_mapValues (d : List (κ × ν)) (k : κ) :
    get? (d.map fun item => (item.1, f item.2)) k = (get? d k).map f := by
  induction d with
  | nil => rfl
  | cons item d ih =>
    rw [map_cons, get?_cons, ih]
    rw [get?_cons]
    split_ifs <;> rfl

theorem set_mapValues (d : List (κ × ν)) (k : κ) (v : ν) :
    set (d.map fun item => (item.1, f item.2)) k (f v) =
      (set d k v).map fun item => (item.1, f item.2) := by
  induction d with
  | nil => rfl
  | cons item d ih =>
    simp only [map_cons, set, ih]
    split_ifs <;> rfl

end Values

/-! ## Tables -/

/-- A dictionary whose keys are apart. -/
abbrev Table (κ ν : Type) := {d : List (κ × ν) // (d.map Prod.fst).Nodup}

namespace Table

def empty : Table κ ν := ⟨[], nodup_nil⟩

def set (t : Table κ ν) (k : κ) (v : ν) : Table κ ν := ⟨Dict.set t.1 k v, nodup_keys_set t.2 k v⟩

@[simp] theorem isEmpty_set (t : Table κ ν) (k : κ) (v : ν) : (t.set k v).1.isEmpty = false := by
  obtain ⟨d, hd⟩ := t
  cases d with
  | nil => rfl
  | cons item d =>
    simp only [set, Dict.set]
    split_ifs <;> rfl

omit [DecidableEq κ] in
theorem nodup_of_perm (t : Table κ ν) {d : List (κ × ν)} (h : d.Perm t.1) :
    (d.map Prod.fst).Nodup :=
  (h.map Prod.fst).nodup_iff.2 t.2

theorem perm_iff_get?_eq {t t' : Table κ ν} :
    t.1.Perm t'.1 ↔ ∀ k, get? t.1 k = get? t'.1 k := by
  have hmem : ∀ (t : Table κ ν) (item : κ × ν), item ∈ t.1 ↔ get? t.1 item.1 = some item.2 :=
    fun t item => (get?_eq_some_iff_mem t.2).symm
  constructor
  · intro hperm k
    apply Option.ext
    intro v
    rw [get?_eq_some_iff_mem t.2, get?_eq_some_iff_mem t'.2]
    exact hperm.mem_iff
  · intro h
    rw [perm_ext_iff_of_nodup (List.Nodup.of_map _ t.2) (List.Nodup.of_map _ t'.2)]
    intro item
    rw [hmem, hmem, h]

/-- A sort that goes by the keys first tells tables apart, and sees nothing of their order. -/
theorem insertionSort_eq_iff {le : κ × ν → κ × ν → Prop} [DecidableRel le] [Std.Total le]
    [IsTrans (κ × ν) le] (hanti : ∀ a b, le a b → le b a → a.1 = b.1) {t t' : Table κ ν} :
    t.1.insertionSort le = t'.1.insertionSort le ↔ ∀ k, get? t.1 k = get? t'.1 k := by
  rw [← perm_iff_get?_eq]
  have hsort := perm_insertionSort le
  constructor
  · intro heq
    have hperm := (hsort t.1).symm
    rw [heq] at hperm
    exact hperm.trans (hsort t'.1)
  · intro hperm
    refine List.Perm.eq_of_pairwise (fun a b ha hb hab hba => ?_)
      (pairwise_insertionSort _ _) (pairwise_insertionSort _ _)
      (((hsort t.1).trans hperm).trans (hsort t'.1).symm)
    have hkey := hanti a b hab hba
    have ha' := (get?_eq_some_iff_mem t'.2).2 (hperm.mem_iff.1 ((hsort t.1).mem_iff.1 ha))
    have hb' := (get?_eq_some_iff_mem t'.2).2 ((hsort t'.1).mem_iff.1 hb)
    rw [hkey, hb'] at ha'
    exact Prod.ext hkey (Option.some.inj ha').symm

theorem foldl_set {ι : Type} (key : ι → κ) (value : ι → ν) {xs : List ι} (h : (xs.map key).Nodup) :
    (xs.foldl (fun t x => t.set (key x) (value x)) (empty : Table κ ν)).1 =
      xs.map fun x => (key x, value x) := by
  have hupdate : ∀ t : Table κ ν, (xs.foldl (fun t x => t.set (key x) (value x)) t).1 =
      update t.1 (xs.map fun x => (key x, value x)) := by
    clear h
    induction xs with
    | nil => exact fun t => rfl
    | cons x xs ih => exact fun t => ih (t.set (key x) (value x))
  rw [hupdate, empty, update_eq_append (by simpa [Function.comp_def] using h), nil_append]

end Table

/-! ## Grouping -/

section Group

variable {κ ν : Type} [DecidableEq κ]

/-- `d.setdefault(k, []).append(v)`. -/
def append (d : List (κ × List ν)) (k : κ) (v : ν) : List (κ × List ν) :=
  set d k ((get? d k).getD [] ++ [v])

/-- The values of each key, in the order of their coming. -/
def group (items : List (κ × ν)) : List (κ × List ν) :=
  items.foldl (fun d item => append d item.1 item.2) []

def ungroup (d : List (κ × List ν)) : List (κ × ν) :=
  d.flatMap fun item => item.2.map fun v => (item.1, v)

omit [DecidableEq κ] in
theorem ungroup_cons (item : κ × List ν) (d : List (κ × List ν)) :
    ungroup (item :: d) = item.2.map (fun v => (item.1, v)) ++ ungroup d := rfl

theorem perm_ungroup_append (d : List (κ × List ν)) (k : κ) (v : ν) :
    (ungroup (append d k v)).Perm (ungroup d ++ [(k, v)]) := by
  induction d with
  | nil => simp [append, set, ungroup]
  | cons item d ih =>
    obtain ⟨j, vs⟩ := item
    by_cases hj : j = k
    · subst hj
      simp only [append, get?_cons, if_true, Option.getD_some, set, ungroup, flatMap_cons,
        map_append, append_assoc]
      exact List.Perm.append_left _ perm_append_comm
    · simp only [append, get?_cons, if_neg hj, set, ungroup, flatMap_cons,
        append_assoc] at ih ⊢
      exact List.Perm.append_left _ ih

/-- The values of one key, in the order of their coming. -/
def valuesOf (items : List (κ × ν)) (k : κ) : List ν :=
  (items.filter fun item => item.1 = k).map Prod.snd

theorem mem_valuesOf {items : List (κ × ν)} {k : κ} {v : ν} :
    v ∈ valuesOf items k ↔ (k, v) ∈ items := by
  simp [valuesOf]

theorem valuesOf_eq_nil {items : List (κ × ν)} {k : κ} (h : k ∉ items.map Prod.fst) :
    valuesOf items k = [] :=
  eq_nil_iff_forall_not_mem.2 fun v hv => h (mem_keys_iff.2 ⟨v, mem_valuesOf.1 hv⟩)

/-- **What is grouped under a key is its values, in the order of their coming.** -/
theorem get?_group (items : List (κ × ν)) (k : κ) : get? (group items) k =
    if k ∈ items.map Prod.fst then some (valuesOf items k) else none := by
  induction items using List.reverseRecOn with
  | nil => rfl
  | append_singleton items item ih =>
    have hstep : group (items ++ [item]) = append (group items) item.1 item.2 := by
      simp [group]
    rw [hstep, append, get?_set]
    by_cases hk : item.1 = k
    · subst hk
      have hold : (get? (group items) item.1).getD [] = valuesOf items item.1 := by
        rw [ih]
        split_ifs with hmem
        · rfl
        · exact (valuesOf_eq_nil hmem).symm
      simp [hold, valuesOf]
    · have hmem : k ∈ (items ++ [item]).map Prod.fst ↔ k ∈ items.map Prod.fst := by
        simp [map_append, Ne.symm hk]
      have hvalues : valuesOf (items ++ [item]) k = valuesOf items k := by
        simp [valuesOf, hk]
      rw [if_neg hk, ih, hvalues]
      exact if_congr hmem.symm rfl rfl

theorem nodup_keys_group (items : List (κ × ν)) : ((group items).map Prod.fst).Nodup := by
  induction items using List.reverseRecOn with
  | nil => exact nodup_nil
  | append_singleton items item ih =>
    have hstep : group (items ++ [item]) = append (group items) item.1 item.2 := by
      simp [group]
    rw [hstep]
    exact nodup_keys_set ih _ _

/-- **Nothing is lost and nothing added by grouping.** -/
theorem perm_ungroup_group (items : List (κ × ν)) : (ungroup (group items)).Perm items := by
  have hfold : ∀ d : List (κ × List ν),
      (ungroup (items.foldl (fun d item => append d item.1 item.2) d)).Perm
        (ungroup d ++ items) := by
    induction items with
    | nil => exact fun d => by simp
    | cons item items ih =>
      intro d
      refine (ih _).trans ?_
      have hstep := (perm_ungroup_append d item.1 item.2).append_right items
      simpa using hstep
  exact hfold []

end Group

end Dict
