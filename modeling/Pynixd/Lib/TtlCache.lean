import Pynixd.Lib.Dict

/-!
# Caches whose entries expire

A cache is a dictionary whose values carry the time they expire at.  An entry is found
while that time lies ahead; storing gives it a new lease, and what room is made for it
is somebody else's choice.

* `get?_put`, `get?_forget`, `get?_putAll`, `get?_forgetAll` — what a lookup finds after
  each operation;
* `get?_later` — **time only takes entries away**.
-/

namespace TtlCache

variable {κ ν : Type} [DecidableEq κ]

/-- The entries, each with the time it expires at. -/
abbrev Cache (κ ν : Type) := List (κ × (ν × Nat))

/-- The value under `k`, while it has not expired. -/
def get? (c : Cache κ ν) (now : Nat) (k : κ) : Option ν :=
  match Dict.get? c k with
  | none => none
  | some (v, expires) => if now < expires then some v else none

def put (ttl : Nat) (c : Cache κ ν) (now : Nat) (k : κ) (v : ν) : Cache κ ν :=
  Dict.set c k (v, now + ttl)

/-- Store every item, in order. -/
def putAll (ttl : Nat) (c : Cache κ ν) (now : Nat) (items : List (κ × ν)) : Cache κ ν :=
  items.foldl (fun c item => put ttl c now item.1 item.2) c

def forget (c : Cache κ ν) (k : κ) : Cache κ ν := Dict.pop c k

def forgetAll (c : Cache κ ν) (ks : List κ) : Cache κ ν := ks.foldl forget c

/-- The last value that a list of items gives a key. -/
def lastOf (items : List (κ × ν)) (k : κ) : Option ν := Dict.get? items.reverse k

theorem lastOf_append_singleton (items : List (κ × ν)) (j k : κ) (v : ν) :
    lastOf (items ++ [(j, v)]) k = if j = k then some v else lastOf items k := by
  simp [lastOf, Dict.get?_cons]

section Lookups

variable (c : Cache κ ν) (now : Nat) (k : κ)

@[simp] theorem get?_nil : get? ([] : Cache κ ν) now k = none := rfl

theorem get?_put {ttl : Nat} (httl : 0 < ttl) (j : κ) (v : ν) :
    get? (put ttl c now j v) now k = if j = k then some v else get? c now k := by
  unfold get? put
  rw [Dict.get?_set]
  by_cases hjk : j = k
  · simp [hjk, httl]
  · simp [hjk]

theorem get?_forget (j : κ) : get? (forget c j) now k = if j = k then none else get? c now k := by
  unfold get? forget
  rw [Dict.get?_pop]
  by_cases hjk : j = k <;> simp [hjk]

theorem get?_forgetAll (ks : List κ) :
    get? (forgetAll c ks) now k = if k ∈ ks then none else get? c now k := by
  induction ks generalizing c with
  | nil => simp [forgetAll]
  | cons j ks ih =>
    have hstep : forgetAll c (j :: ks) = forgetAll (forget c j) ks := rfl
    rw [hstep, ih, get?_forget]
    by_cases hk : k ∈ ks
    · simp [hk]
    · by_cases hjk : j = k
      · simp [hjk]
      · simp [hk, hjk, Ne.symm hjk]

/-- After a batch, a key has the last value the batch gives it, or what it had. -/
theorem get?_putAll {ttl : Nat} (httl : 0 < ttl) (items : List (κ × ν)) :
    get? (putAll ttl c now items) now k = (lastOf items k).or (get? c now k) := by
  induction items using List.reverseRecOn with
  | nil => rfl
  | append_singleton items item ih =>
    obtain ⟨j, v⟩ := item
    have hstep : putAll ttl c now (items ++ [(j, v)]) =
        put ttl (putAll ttl c now items) now j v := by
      simp [putAll]
    rw [hstep, get?_put _ _ _ httl, ih, lastOf_append_singleton]
    by_cases hk : j = k <;> simp [hk]

end Lookups

/-- What is found later was there before. -/
theorem get?_later {c : Cache κ ν} {now later : Nat} (h : now ≤ later) {k : κ} {v : ν}
    (hget : get? c later k = some v) : get? c now k = some v := by
  unfold get? at hget ⊢
  cases hc : Dict.get? c k with
  | none => simp [hc] at hget
  | some entry =>
    simp only [hc] at hget ⊢
    split_ifs at hget with hlive
    rw [if_pos (by omega)]
    exact hget

end TtlCache
