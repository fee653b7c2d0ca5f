import Pynixd.Gc.Collector
import Pynixd.Lib.Runs

/-!
# Deleting a batch

`Collector._delete` of `pynixd/gc.py` asks the daemon to delete a batch in groups.  A group that
the daemon refuses is rechecked, split in two and put back; a single path that is refused waits
for a second lap; a group whose request is interrupted is not named again, and is only rechecked
at the end.

* `length_le_of_run` — **the delete ends**: no run has more than five answers for a path;
* `sound_of_run` — **each path of the batch is in one place**, nothing that is deleted or was
  interrupted is named again, and no path is refused alone more than twice.
-/

namespace Pynixd.Gc

open List Runs

/-! ## Groups -/

def deleteBatchSize : Nat := 100

/-- `batched(paths, _DELETE_BATCH_SIZE)`, with as many rounds as there are paths at most. -/
def batchedFrom : Nat → List StorePath → List (List StorePath)
  | 0, _ => []
  | n + 1, paths =>
    if paths = [] then []
    else paths.take deleteBatchSize :: batchedFrom n (paths.drop deleteBatchSize)

def batched (paths : List StorePath) : List (List StorePath) := batchedFrom paths.length paths

variable {group new old paths remaining : List StorePath} {n : Nat}

theorem flatten_batchedFrom (h : paths.length ≤ n) : (batchedFrom n paths).flatten = paths := by
  induction n generalizing paths with
  | zero =>
    rw [eq_nil_of_length_eq_zero (Nat.le_zero.1 h)]
    rfl
  | succ n ih =>
    rw [batchedFrom]
    split
    · next hnil => rw [hnil]; rfl
    · next hne =>
      have hlength : (paths.drop deleteBatchSize).length ≤ n := by
        simp only [length_drop, deleteBatchSize]
        omega
      rw [flatten_cons, ih hlength, take_append_drop]

@[simp] theorem flatten_batched (paths : List StorePath) : (batched paths).flatten = paths :=
  flatten_batchedFrom (Nat.le_refl _)

theorem ne_nil_of_mem_batched (h : group ∈ batched paths) : group ≠ [] := by
  have hfrom : ∀ n paths, group ∈ batchedFrom n paths → group ≠ [] := by
    intro n
    induction n with
    | zero => exact fun _ h => nomatch h
    | succ n ih =>
      intro paths h
      rw [batchedFrom] at h
      split at h
      · cases h
      · next hne =>
        rcases mem_cons.1 h with rfl | h
        · simpa [deleteBatchSize] using hne
        · exact ih _ h
  exact hfrom _ _ h

/-! ## The loop -/

structure Deleting where
  lap : Nat
  queue : List (List StorePath)
  /-- `retry`, and `pending` behind the laps. -/
  retry : List StorePath
  deleted : List StorePath
  recovered : List StorePath
  spared : List StorePath
  uncertain : List StorePath
  timedOut : List StorePath
  freed : Nat
  lines : List String
  /-- The groups of interrupted paths to be rechecked, behind the laps. -/
  checks : Option (List (List StorePath))
  /-- The paths that were refused as a group of one. -/
  refusedAlone : List StorePath
  deriving DecidableEq

/-- The answer for a group. -/
inductive Answer where
  /-- The paths that the daemon deleted, and the bytes it freed. -/
  | deleted (got : List StorePath) (bytes : Nat)
  /-- A `BackendError`, and the paths that the recheck finds valid, or `none` when it fails. -/
  | refused (valid : Option (List StorePath))
  /-- A timeout, or a connection that is gone. -/
  | interrupted (timeout : Bool)

inductive DeleteEvent where
  | answers (answer : Answer)
  /-- The answer of a recheck at the end, or `none` when it fails. -/
  | rechecked (valid : Option (List StorePath))

/-- `set.update`. -/
def updated (old new : List StorePath) : List StorePath := old ++ new.dedup.filter (· ∉ old)

namespace Deleting

variable (s : Deleting)

/-- What is said before a group is asked for. -/
def announce (group : List StorePath) : String :=
  match group with
  | [path] => "deleting '" ++ path ++ "'"
  | _ => "deleting " ++ toString group.length ++ " paths"

/-- The paths of a group that a recheck does not find are deleted. -/
def recheck (paths valid : List StorePath) : Deleting :=
  let gone := paths.filter (· ∉ valid)
  { s with deleted := updated s.deleted gone, recovered := updated s.recovered gone }

/-- A recheck at the end, which changes nothing when it fails. -/
def checked (paths : List StorePath) : Option (List StorePath) → Deleting
  | none => s
  | some valid => s.recheck paths valid

/-- The halves of a group that was refused, in front of the queue. -/
def halves (remaining : List StorePath) : List (List StorePath) :=
  if remaining = [] then []
  else
    let middle := max 1 (remaining.length / 2)
    remaining.take middle ::
      if remaining.drop middle = [] then [] else [remaining.drop middle]

/-- What the answer for the first group does. -/
def handle (group : List StorePath) (rest : List (List StorePath)) : Answer → Deleting
  | .deleted got bytes =>
    let deleted := updated s.deleted got
    { s with
      queue := rest
      deleted := deleted
      freed := s.freed + bytes
      spared := updated s.spared (group.filter (· ∉ got))
      lines := s.lines ++ [announce group,
        "deleted " ++ toString got.dedup.length ++ " paths, " ++ toString deleted.length ++
          " total"] }
  | .refused none =>
    { s with
      queue := rest
      uncertain := updated s.uncertain group
      lines := s.lines ++ [announce group]
      refusedAlone := if group.length = 1 then s.refusedAlone ++ group else s.refusedAlone }
  | .refused (some valid) =>
    let remaining := group.filter (· ∈ valid)
    if group.length = 1 then
      { s.recheck group valid with
        queue := rest
        retry := s.retry ++ remaining
        lines := s.lines ++ [announce group]
        refusedAlone := s.refusedAlone ++ group }
    else
      { s.recheck group valid with
        queue := halves remaining ++ rest
        lines := s.lines ++ [announce group] }
  | .interrupted timeout =>
    { s with
      queue := rest
      uncertain := updated s.uncertain group
      timedOut := if timeout then updated s.timedOut group else s.timedOut
      lines := s.lines ++ [announce group] }

/-- An empty queue ends the lap: the second one starts over what is left of the first, and the
rechecks come behind it. -/
def advance : Deleting :=
  if s.queue = [] then
    let pending := s.retry.filter (· ∉ s.deleted)
    if s.lap = 1 ∧ pending ≠ [] then
      { s with lap := 2, queue := batched pending, retry := [] }
    else
      { s with
        retry := pending
        checks := some (batched (s.uncertain.insertionSort fun a b => a ≤ b)) }
  else s

/-- The delete of a batch, before its first request. -/
def start (batch : List StorePath) : Deleting :=
  advance ⟨1, batched (Dict.fromkeys batch), [], [], [], [], [], [], 0, [], none, []⟩

def step : DeleteEvent → Option Deleting
  | .answers answer =>
    match s.checks, s.queue with
    | none, group :: rest => some (s.handle group rest answer).advance
    | _, _ => none
  | .rechecked valid =>
    match s.checks with
    | some (group :: rest) => some { s.checked group valid with checks := some rest }
    | _ => none

def Finished : Prop := s.checks = some []

/-- The delete waits for an answer, and takes any. -/
def Waits : Prop :=
  (∀ answer, (s.step (.answers answer)).isSome) ∨ ∀ valid, (s.step (.rechecked valid)).isSome

structure Response where
  storePaths : List StorePath
  bytes : Nat
  lines : List String
  deriving DecidableEq

/-- The bytes that were freed, by the blocks of the batch and of what is left of it where these are
known, and what is said about them. -/
def freedBytes (batch : List StorePath) (physical remainingBytes : Option Nat) :
    Nat × List String :=
  let note := "freed byte count excludes deletions from failed requests"
  match physical with
  | some total =>
    if sameSet s.deleted batch then (total, [])
    else if s.recovered = [] then (s.freed, [])
    else
      match remainingBytes with
      | some left => (total - left, [])
      | none => (s.freed, [note])
  | none => if s.recovered = [] then (s.freed, []) else (s.freed, [note])

def respond (batch : List StorePath) (physical remainingBytes : Option Nat) : Response :=
  let refused := (s.retry.filter (· ∉ s.deleted)).length
  let freed := s.freedBytes batch physical remainingBytes
  let unconfirmed := (s.uncertain.filter (· ∉ s.deleted)).length
  let failures :=
    if refused = 0 ∧ s.spared = [] ∧ s.uncertain = [] then []
    else
      ["delete refused for " ++ toString refused ++ " paths, " ++ toString s.spared.length ++
        " spared, " ++ toString unconfirmed ++ " interrupted, deleted the rest"]
  ⟨s.deleted, freed.1, s.lines ++ freed.2 ++ failures ++
    ["deleted " ++ toString s.deleted.length ++ " paths, " ++ toString freed.1 ++
      " bytes freed"]⟩

end Deleting

/-! ## The delete ends -/

/-- The requests that the groups can still cost: one each, and two more for each split. -/
def cost (groups : List (List StorePath)) : Nat := (groups.map fun g => 2 * g.length - 1).sum

theorem cost_le (groups : List (List StorePath)) : cost groups ≤ 2 * groups.flatten.length := by
  induction groups with
  | nil => simp [cost]
  | cons group groups ih =>
    simp only [cost, map_cons, sum_cons, flatten_cons, length_append] at ih ⊢
    omega

theorem length_le_flatten {groups : List (List StorePath)} (h : ∀ g ∈ groups, g ≠ []) :
    groups.length ≤ groups.flatten.length := by
  induction groups with
  | nil => simp
  | cons group groups ih =>
    have hgroup := length_pos_iff.2 (h group mem_cons_self)
    have hrest := ih fun g hg => h g (mem_cons_of_mem _ hg)
    simp only [length_cons, flatten_cons, length_append]
    omega

theorem length_updated_le (old new : List StorePath) :
    (updated old new).length ≤ old.length + new.length := by
  have hdedup := (dedup_sublist new).length_le
  have hfilter := (filter_sublist (p := (· ∉ old)) (l := new.dedup)).length_le
  simp only [updated, length_append]
  omega

theorem flatten_halves (remaining : List StorePath) :
    (Deleting.halves remaining).flatten = remaining := by
  unfold Deleting.halves
  split
  · next h => rw [h]; rfl
  · dsimp only
    split
    · next hdrop =>
      have := take_append_drop (max 1 (remaining.length / 2)) remaining
      rw [hdrop] at this
      simpa using this
    · simp

theorem ne_nil_of_mem_halves (h : group ∈ Deleting.halves remaining) : group ≠ [] := by
  unfold Deleting.halves at h
  split at h
  · cases h
  · next hne =>
    rcases mem_cons.1 h with rfl | h
    · have := length_pos_iff.2 hne
      refine length_pos_iff.1 ?_
      rw [length_take]
      omega
    · split at h
      · cases h
      · next hdrop => rwa [mem_singleton.1 h]

theorem cost_halves_lt (hle : remaining.length ≤ n)
    (hn : 2 ≤ n) : cost (Deleting.halves remaining) < 2 * n - 1 := by
  unfold Deleting.halves
  split
  · simp only [cost, map_nil, sum_nil]
    omega
  · next hne =>
    dsimp only
    split
    · next hdrop =>
      simp only [cost, map_cons, map_nil, sum_cons, sum_nil,
        length_take]
      omega
    · next hdrop =>
      simp only [cost, map_cons, map_nil, sum_cons, sum_nil,
        length_take, length_drop]
      omega

namespace Deleting

/-- What a path that is still to be asked for, and one that waits for the second lap, can cost
behind the requests of this lap. -/
def price (s : Deleting) : Nat × Nat := if s.lap = 1 then (3, 3) else (1, 0)

/-- The requests that are left, at most. -/
def left (s : Deleting) : Nat :=
  match s.checks with
  | some groups => groups.length
  | none =>
    cost s.queue + s.price.1 * s.queue.flatten.length + s.price.2 * s.retry.length +
      s.uncertain.length

/-- In the laps there is a group to ask for, and no group is empty. -/
structure Shape (s : Deleting) : Prop where
  lap : s.lap = 1 ∨ s.lap = 2
  groups : ∀ g ∈ s.queue, g ≠ []
  waiting : s.checks = none → s.queue ≠ []

theorem handle_frame (s : Deleting) (group : List StorePath) (rest : List (List StorePath))
    (answer : Answer) :
    (s.handle group rest answer).lap = s.lap ∧ (s.handle group rest answer).checks = s.checks := by
  cases answer with
  | deleted got bytes => exact ⟨rfl, rfl⟩
  | refused valid =>
    cases valid with
    | none => exact ⟨rfl, rfl⟩
    | some valid =>
      unfold handle
      dsimp only
      split
      · exact ⟨rfl, rfl⟩
      · exact ⟨rfl, rfl⟩
  | interrupted timeout => exact ⟨rfl, rfl⟩

theorem queue_handle (s : Deleting) (group : List StorePath) (rest : List (List StorePath))
    (answer : Answer) : (s.handle group rest answer).queue = rest ∨ ∃ remaining : List StorePath,
      (s.handle group rest answer).queue = halves remaining ++ rest ∧ remaining ⊆ group := by
  cases answer with
  | deleted got bytes => exact .inl rfl
  | refused valid =>
    cases valid with
    | none => exact .inl rfl
    | some valid =>
      unfold handle
      dsimp only
      split
      · exact .inl rfl
      · exact .inr ⟨_, rfl, filter_sublist.subset⟩
  | interrupted timeout => exact .inl rfl

section Ends

variable {s : Deleting}

theorem left_eq (h : s.checks = none) : s.left = cost s.queue +
    s.price.1 * s.queue.flatten.length + s.price.2 * s.retry.length + s.uncertain.length := by
  rw [left, h]

theorem cost_append (groups others : List (List StorePath)) :
    cost (groups ++ others) = cost groups + cost others := by
  simp [cost]

variable {e : DeleteEvent} {t : Deleting} {rest : List (List StorePath)} {group : List StorePath}

theorem left_handle_lt
    (hchecks : s.checks = none) (hqueue : s.queue = group :: rest) (hgroup : group ≠ [])
    (answer : Answer) : (s.handle group rest answer).left < s.left := by
  have hpos := length_pos_iff.2 hgroup
  obtain ⟨hlap', hchecks'⟩ := handle_frame s group rest answer
  have hprice' : (s.handle group rest answer).price = s.price := by rw [price, hlap', price]
  -- a path that is still to be asked for is dear enough to become any other one
  have hprice : 1 ≤ s.price.1 ∧ s.price.2 ≤ s.price.1 := by
    unfold price
    split <;> simp
  have hmul : group.length ≤ s.price.1 * group.length := Nat.le_mul_of_pos_left _ hprice.1
  rw [left_eq hchecks, left_eq (hchecks'.trans hchecks), hprice', hqueue]
  rw [show cost (group :: rest) = 2 * group.length - 1 + cost rest from rfl, flatten_cons,
    length_append, Nat.mul_add]
  have hupdated := length_updated_le s.uncertain group
  cases answer with
  | deleted got bytes =>
    dsimp only [handle]
    omega
  | interrupted timeout =>
    dsimp only [handle]
    omega
  | refused valid =>
    cases valid with
    | none =>
      dsimp only [handle]
      omega
    | some valid =>
      have hremaining : (group.filter (· ∈ valid)).length ≤ group.length :=
        length_filter_le _ _
      unfold handle
      dsimp only
      split
      · have hretry : s.price.2 * (group.filter (· ∈ valid)).length ≤
            s.price.1 * group.length := Nat.mul_le_mul hprice.2 hremaining
        dsimp only [recheck]
        rw [length_append, Nat.mul_add]
        omega
      · next hmany =>
        have hcost := cost_halves_lt hremaining (by omega)
        have hpaths : s.price.1 * (group.filter (· ∈ valid)).length ≤
            s.price.1 * group.length := Nat.mul_le_mul_left _ hremaining
        dsimp only [recheck]
        rw [cost_append, flatten_append, length_append, flatten_halves, Nat.mul_add]
        omega

theorem left_advance_le (hchecks : s.checks = none) : s.advance.left ≤ s.left := by
  unfold advance
  split
  · next hempty =>
    have hpending : (s.retry.filter (· ∉ s.deleted)).length ≤ s.retry.length :=
      length_filter_le _ _
    generalize s.retry.filter (· ∉ s.deleted) = pending at hpending ⊢
    dsimp only
    split
    · next hsecond =>
      have hcost := cost_le (batched pending)
      have hprice : s.price = (3, 3) := if_pos hsecond.1
      rw [flatten_batched] at hcost
      rw [left_eq hchecks, left_eq (by exact hchecks), hprice]
      dsimp only [price]
      rw [if_neg (by decide : ¬ 2 = 1), flatten_batched]
      omega
    · have hgroups : (batched (s.uncertain.insertionSort fun a b => a ≤ b)).length ≤ _ :=
        length_le_flatten fun g => ne_nil_of_mem_batched
      rw [flatten_batched, length_insertionSort] at hgroups
      rw [left_eq hchecks]
      dsimp only [left]
      omega
  · exact Nat.le_refl _

theorem shape_advance (hlap : s.lap = 1 ∨ s.lap = 2)
    (hgroups : ∀ g ∈ s.queue, g ≠ []) : s.advance.Shape := by
  unfold advance
  split
  · next hempty =>
    dsimp only
    split
    · next hsecond =>
      refine ⟨.inr rfl, fun g => ne_nil_of_mem_batched, fun _ hnil => hsecond.2 ?_⟩
      have hflat := flatten_batched (s.retry.filter (· ∉ s.deleted))
      dsimp only at hnil
      rw [hnil] at hflat
      exact hflat.symm
    · exact ⟨hlap, hgroups, nofun⟩
  · next hqueue => exact ⟨hlap, hgroups, fun _ => hqueue⟩

theorem groups_handle (hrest : ∀ g ∈ rest, g ≠ []) (answer : Answer) :
    ∀ g ∈ (s.handle group rest answer).queue, g ≠ [] := by
  intro g hg
  rcases queue_handle s group rest answer with hqueue | ⟨remaining, hqueue, -⟩
  · exact hrest g (hqueue ▸ hg)
  · rw [hqueue] at hg
    rcases mem_append.1 hg with hg | hg
    · exact ne_nil_of_mem_halves hg
    · exact hrest g hg

theorem step_cases (h : s.step e = some t) :
    (∃ answer group rest, e = .answers answer ∧ s.checks = none ∧ s.queue = group :: rest ∧
      t = (s.handle group rest answer).advance) ∨
    ∃ valid group rest, e = .rechecked valid ∧ s.checks = some (group :: rest) ∧
      t = { s.checked group valid with checks := some rest } := by
  cases e with
  | answers answer =>
    rw [step] at h
    split at h
    · next group rest hchecks hqueue =>
      cases h
      exact .inl ⟨answer, group, rest, rfl, hchecks, hqueue, rfl⟩
    · cases h
  | rechecked valid =>
    rw [step] at h
    split at h
    · next group rest hchecks =>
      cases h
      exact .inr ⟨valid, group, rest, rfl, hchecks, rfl⟩
    · cases h

theorem shape_step (h : s.Shape) (hstep : s.step e = some t) : t.Shape := by
  rcases step_cases hstep with ⟨answer, group, rest, -, -, hqueue, rfl⟩ | ⟨valid, group, rest, -,
    -, rfl⟩
  · refine shape_advance ?_ (groups_handle (fun g hg => h.groups g ?_) answer)
    · rw [(handle_frame s group rest answer).1]
      exact h.lap
    · rw [hqueue]
      exact mem_cons_of_mem _ hg
  · cases valid with
    | none => exact ⟨h.lap, h.groups, nofun⟩
    | some valid => exact ⟨h.lap, h.groups, nofun⟩

theorem left_step_lt (h : s.Shape) (hstep : s.step e = some t) : t.left < s.left := by
  rcases step_cases hstep with ⟨answer, group, rest, -, hchecks, hqueue, rfl⟩ | ⟨valid, group,
    rest, -, hchecks, rfl⟩
  · have hchecks' := (handle_frame s group rest answer).2
    have hgroup : group ≠ [] := h.groups group (by rw [hqueue]; exact mem_cons_self)
    exact lt_of_le_of_lt (left_advance_le (hchecks'.trans hchecks))
      (left_handle_lt hchecks hqueue hgroup answer)
  · simp [left, hchecks]

theorem shape_start (batch : List StorePath) : (start batch).Shape :=
  shape_advance (.inl rfl) fun _ => ne_nil_of_mem_batched

theorem left_start_le (batch : List StorePath) : (start batch).left ≤ 5 * batch.length := by
  have hlength : (Dict.fromkeys batch).length ≤ batch.length :=
    (subperm_of_subset (Dict.nodup_fromkeys batch) fun _ => Dict.mem_fromkeys.1).length_le
  have hcost := cost_le (batched (Dict.fromkeys batch))
  rw [flatten_batched] at hcost
  refine (left_advance_le rfl).trans ?_
  simp only [left, price, flatten_batched, if_true, length_nil]
  omega

theorem finished_or_waits (h : s.Shape) : s.Finished ∨ s.Waits := by
  cases hchecks : s.checks with
  | none =>
    refine .inr (.inl fun answer => ?_)
    obtain ⟨group, rest, hqueue⟩ := exists_cons_of_ne_nil (h.waiting hchecks)
    simp [step, hchecks, hqueue]
  | some groups =>
    cases groups with
    | nil => exact .inl hchecks
    | cons group rest =>
      refine .inr (.inr fun valid => ?_)
      simp [step, hchecks]

/-- **The delete ends**: whatever the daemon answers, it asks at most five times for each path,
and until it is finished it takes every answer. -/
theorem length_le_of_run (batch : List StorePath) {es : List DeleteEvent}
    (hrun : Runs.run step (start batch) es = some t) :
    es.length ≤ 5 * batch.length ∧ (t.Finished ∨ t.Waits) := by
  have hshape : ∀ s e t, Shape s → s.step e = some t → Shape t := fun _ _ _ => shape_step
  have hle : es.length + t.left ≤ (start batch).left :=
    length_add_le_of_lowers hshape (fun _ _ _ => left_step_lt) (shape_start batch) hrun
  have hstart := left_start_le batch
  exact ⟨by omega, finished_or_waits (inv_of_run hshape (shape_start batch) hrun)⟩

end Ends

end Deleting

/-! ## Every path is in one place -/

theorem mem_updated {p : StorePath} : p ∈ updated old new ↔ p ∈ old ∨ p ∈ new := by
  by_cases h : p ∈ old <;> simp [updated, h]

theorem count_updated (h : ∀ p ∈ new, p ∉ old) (p : StorePath) :
    (updated old new).count p = old.count p + new.dedup.count p := by
  have hfilter : new.dedup.filter (· ∉ old) = new.dedup :=
    filter_eq_self.2 fun q hq => by simpa using h q (mem_dedup.1 hq)
  rw [updated, hfilter, count_append]

theorem count_filter_add (group : List StorePath) (keep : StorePath → Bool) (p : StorePath) :
    (group.filter keep).count p + (group.filter fun q => !keep q).count p = group.count p := by
  rw [← count_append]
  exact (filter_append_perm keep group).count_eq p

namespace Deleting

/-- Where a path of the batch can be. -/
inductive Place where
  | queued
  | retry
  | deleted
  | spared
  | uncertain
  deriving DecidableEq

def At (s : Deleting) (p : StorePath) : Place → Prop
  | .queued => p ∈ s.queue.flatten
  | .retry => p ∈ s.retry
  | .deleted => p ∈ s.deleted
  | .spared => p ∈ s.spared
  | .uncertain => p ∈ s.uncertain ∧ p ∉ s.deleted

/-- What holds between the requests of a delete. -/
structure Sound (batch : List StorePath) (s : Deleting) : Prop where
  /-- Every path of the batch is in one place, and in one group of the queue at most. -/
  place : ∀ p ∈ batch, ∃! place, s.At p place
  once : s.queue.flatten.Nodup
  /-- Nothing that is deleted, and nothing of a group that was interrupted, is named again. -/
  fresh : ∀ p ∈ s.queue.flatten, p ∉ s.deleted ∧ p ∉ s.uncertain
  /-- Only paths of the batch are named, and reported. -/
  named : ∀ p, p ∈ s.queue.flatten ∨ p ∈ s.deleted → p ∈ batch
  /-- No path is refused as a group of one more than twice. -/
  alone : ∀ p, s.refusedAlone.count p ≤ 2

/-- The daemon reports only paths as deleted that the request names. -/
def Honest (s : Deleting) : DeleteEvent → Prop
  | .answers (.deleted got _) => got ⊆ s.queue.headD []
  | _ => True

instance (s : Deleting) : ∀ e, Decidable (s.Honest e)
  | .answers (.deleted got _) => inferInstanceAs (Decidable (got ⊆ s.queue.headD []))
  | .answers (.refused _) => isTrue trivial
  | .answers (.interrupted _) => isTrue trivial
  | .rechecked _ => isTrue trivial

/-- In the laps every path of the batch is counted once. -/
structure Lapping (batch : List StorePath) (s : Deleting) : Prop where
  checks : s.checks = none
  lap : s.lap = 1 ∨ s.lap = 2
  count : ∀ p, s.queue.flatten.count p + s.retry.count p + s.deleted.count p + s.spared.count p +
    s.uncertain.count p = if p ∈ batch then 1 else 0
  /-- Once for each lap that is over, and once in this one for what is not queued. -/
  alone : ∀ p, s.refusedAlone.count p + (if p ∈ s.queue.flatten then 1 else 0) ≤ s.lap

/-- Behind the laps, what is deleted was deleted in the laps, or was interrupted. -/
structure Closing (batch : List StorePath) (s : Deleting) : Prop where
  queue : s.queue = []
  checks : ∃ groups, s.checks = some groups ∧ ∀ g ∈ groups, g ⊆ s.uncertain
  count : ∃ before : List StorePath, (∀ p, s.retry.count p + before.count p + s.spared.count p +
    s.uncertain.count p = if p ∈ batch then 1 else 0) ∧ before ⊆ s.deleted ∧
      ∀ p ∈ s.deleted, p ∈ before ∨ p ∈ s.uncertain
  alone : ∀ p, s.refusedAlone.count p ≤ 2

section Places

variable {batch : List StorePath} {s : Deleting}

variable {rest : List (List StorePath)} {group : List StorePath}

theorem Lapping.elsewhere (h : s.Lapping batch) (hqueue : s.queue = group :: rest) {p : StorePath}
    (hp : p ∈ group) : group.count p = 1 ∧ p ∉ rest.flatten ∧ p ∉ s.retry ∧ p ∉ s.deleted ∧
      p ∉ s.spared ∧ p ∉ s.uncertain := by
  have hcount := h.count p
  have hone : (if p ∈ batch then 1 else 0) ≤ 1 := by split <;> simp
  have hpos := count_pos_iff.2 hp
  rw [hqueue, flatten_cons, count_append] at hcount
  refine ⟨by omega, ?_, ?_, ?_, ?_, ?_⟩ <;>
    exact count_eq_zero.1 (by omega)

theorem Lapping.nodup_group (h : s.Lapping batch) (hqueue : s.queue = group :: rest) :
    group.Nodup := by
  refine nodup_iff_count_le_one.2 fun p => ?_
  by_cases hp : p ∈ group
  · exact (h.elsewhere hqueue hp).1.le
  · rw [count_eq_zero.2 hp]
    exact Nat.zero_le 1

theorem alone_of_subset {queue : List (List StorePath)} {lap : Nat} {refused : List StorePath}
    (h : ∀ p, refused.count p + (if p ∈ s.queue.flatten then 1 else 0) ≤ lap)
    (hqueue : ∀ p ∈ queue.flatten, p ∈ s.queue.flatten) (p : StorePath) :
    refused.count p + (if p ∈ queue.flatten then 1 else 0) ≤ lap := by
  have hp := h p
  split
  · next hin => rwa [if_pos (hqueue p hin)] at hp
  · omega

theorem alone_of_refused (h : s.Lapping batch) (hqueue : s.queue = group :: rest) (p : StorePath) :
    (s.refusedAlone ++ group).count p + (if p ∈ rest.flatten then 1 else 0) ≤ s.lap := by
  have hp := h.alone p
  rw [hqueue, flatten_cons] at hp
  rw [count_append]
  by_cases hin : p ∈ group
  · obtain ⟨hone, hrest, -⟩ := h.elsewhere hqueue hin
    rw [if_pos (mem_append_left _ hin)] at hp
    rw [hone, if_neg hrest]
    exact hp
  · rw [count_eq_zero.2 hin, Nat.add_zero]
    have hiff : p ∈ group ++ rest.flatten ↔ p ∈ rest.flatten := by simp [hin]
    simpa only [hiff] using hp

theorem Lapping.count_uncertain (h : s.Lapping batch) (hqueue : s.queue = group :: rest)
    (p : StorePath) :
    rest.flatten.count p + s.retry.count p + s.deleted.count p + s.spared.count p +
      (updated s.uncertain group).count p = if p ∈ batch then 1 else 0 := by
  have hcount := h.count p
  have hupdated := count_updated (fun q hq => (h.elsewhere hqueue hq).2.2.2.2.2) p
  rw [(h.nodup_group hqueue).dedup] at hupdated
  rw [hqueue, flatten_cons, count_append] at hcount
  omega

theorem Lapping.count_recheck (h : s.Lapping batch) (hqueue : s.queue = group :: rest)
    (valid : List StorePath) (p : StorePath) :
    (group.filter (· ∈ valid)).count p + rest.flatten.count p + s.retry.count p +
      (s.recheck group valid).deleted.count p + s.spared.count p + s.uncertain.count p =
        if p ∈ batch then 1 else 0 := by
  have hcount := h.count p
  have hgone : ∀ q ∈ group.filter (· ∉ valid), q ∉ s.deleted := fun q hq =>
    (h.elsewhere hqueue (mem_of_mem_filter hq)).2.2.2.1
  have hupdated := count_updated hgone p
  rw [((h.nodup_group hqueue).filter _).dedup] at hupdated
  have hsplit := count_filter_add group (· ∈ valid) p
  simp only [← decide_not] at hsplit
  rw [hqueue, flatten_cons, count_append] at hcount
  dsimp only [recheck]
  omega

theorem Lapping.count_deleted (h : s.Lapping batch) {group got : List StorePath}
    (hqueue : s.queue = group :: rest) (hgot : got ⊆ group) (p : StorePath) :
    rest.flatten.count p + s.retry.count p + (updated s.deleted got).count p +
      (updated s.spared (group.filter (· ∉ got))).count p + s.uncertain.count p =
        if p ∈ batch then 1 else 0 := by
  have hcount := h.count p
  have hnodup := h.nodup_group hqueue
  have hdeleted := count_updated (fun q hq => (h.elsewhere hqueue (hgot hq)).2.2.2.1) p
  have hrest : ∀ q ∈ group.filter (· ∉ got), q ∉ s.spared := fun q hq =>
    (h.elsewhere hqueue (mem_of_mem_filter hq)).2.2.2.2.1
  have hspared := count_updated hrest p
  rw [(hnodup.filter _).dedup] at hspared
  -- as a set, what was deleted is the part of the group that was
  have hperm : got.dedup.Perm (group.filter (· ∈ got)) := by
    refine (perm_ext_iff_of_nodup (nodup_dedup got) (hnodup.filter _)).2 fun q => ?_
    simp only [mem_dedup, mem_filter, decide_eq_true_eq]
    exact ⟨fun hq => ⟨hgot hq, hq⟩, fun hq => hq.2⟩
  rw [hperm.count_eq] at hdeleted
  have hsplit := count_filter_add group (· ∈ got) p
  simp only [← decide_not] at hsplit
  rw [hqueue, flatten_cons, count_append] at hcount
  omega

theorem Lapping.handle (h : s.Lapping batch) (hqueue : s.queue = group :: rest) {answer : Answer}
    (hhonest : s.Honest (.answers answer)) : (s.handle group rest answer).Lapping batch := by
  have hrest : ∀ p ∈ rest.flatten, p ∈ s.queue.flatten := fun p hp => by
    rw [hqueue]
    exact mem_append_right _ hp
  have halone := alone_of_subset h.alone hrest
  cases answer with
  | deleted got bytes =>
    have hgot : got ⊆ s.queue.headD [] := hhonest
    rw [hqueue] at hgot
    exact ⟨h.checks, h.lap, h.count_deleted hqueue hgot, halone⟩
  | interrupted timeout => exact ⟨h.checks, h.lap, h.count_uncertain hqueue, halone⟩
  | refused valid =>
    cases valid with
    | none =>
      refine ⟨h.checks, h.lap, h.count_uncertain hqueue, fun p => ?_⟩
      dsimp only [Deleting.handle]
      split
      · exact alone_of_refused h hqueue p
      · exact halone p
    | some valid =>
      have hcount := h.count_recheck hqueue valid
      unfold Deleting.handle
      dsimp only
      split
      · refine ⟨h.checks, h.lap, fun p => ?_, alone_of_refused h hqueue⟩
        have hp := hcount p
        dsimp only [recheck] at hp ⊢
        rw [count_append]
        omega
      · refine ⟨h.checks, h.lap, fun p => ?_, alone_of_subset h.alone fun p hp => ?_⟩
        · have hp := hcount p
          dsimp only [recheck] at hp ⊢
          rw [flatten_append, flatten_halves, count_append]
          omega
        · rw [flatten_append, flatten_halves] at hp
          rcases mem_append.1 hp with hp | hp
          · rw [hqueue]
            exact mem_append_left _ (mem_of_mem_filter hp)
          · exact hrest p hp

theorem Lapping.pending_eq (h : s.Lapping batch) :
    s.retry.filter (· ∉ s.deleted) = s.retry := by
  refine filter_eq_self.2 fun p hp => ?_
  have hcount := h.count p
  have hone : (if p ∈ batch then 1 else 0) ≤ 1 := by split <;> simp
  have hpos := count_pos_iff.2 hp
  simpa using count_eq_zero.1 (by omega : s.deleted.count p = 0)

theorem Lapping.advance (h : s.Lapping batch) :
    s.advance.Lapping batch ∨ s.advance.Closing batch := by
  unfold Deleting.advance
  split
  · next hempty =>
    dsimp only
    rw [h.pending_eq]
    have hcount := h.count
    have halone := h.alone
    rw [hempty] at hcount halone
    split
    · next hsecond =>
      refine .inl ⟨h.checks, .inr rfl, fun p => ?_, fun p => ?_⟩
      · have hp := hcount p
        rw [flatten_batched]
        simp only [flatten_nil, count_nil] at hp ⊢
        omega
      · have hp := halone p
        dsimp only
        split <;> simp only [flatten_nil, not_mem_nil, if_false] at hp <;> omega
    · refine .inr ⟨hempty, ⟨_, rfl, fun g hg p hp => ?_⟩, ⟨s.deleted, fun p => ?_,
        List.Subset.refl _, fun p hp => .inl hp⟩, fun p => ?_⟩
      · have hflat : p ∈ (batched (s.uncertain.insertionSort fun a b => a ≤ b)).flatten :=
          mem_flatten.2 ⟨g, hg, hp⟩
        rw [flatten_batched] at hflat
        exact (mem_insertionSort _).1 hflat
      · have hp := hcount p
        simp only [flatten_nil, count_nil] at hp
        dsimp only
        omega
      · have hp := halone p
        have hlap := h.lap
        dsimp only
        omega
  · exact .inl h

theorem Closing.checked (h : s.Closing batch) (hchecks : s.checks = some (group :: rest))
    (valid : Option (List StorePath)) :
    { s.checked group valid with checks := some rest }.Closing batch := by
  obtain ⟨groups, hgroups, hsub⟩ := h.checks
  cases hgroups.symm.trans hchecks
  have hrest : ∃ groups, some rest = some groups ∧ ∀ g ∈ groups, g ⊆ s.uncertain :=
    ⟨rest, rfl, fun g hg => hsub g (mem_cons_of_mem _ hg)⟩
  cases valid with
  | none => exact ⟨h.queue, hrest, h.count, h.alone⟩
  | some valid =>
    obtain ⟨before, hcount, hbefore, hdeleted⟩ := h.count
    refine ⟨h.queue, hrest, ⟨before, hcount, fun p hp => ?_, fun p hp => ?_⟩, h.alone⟩
    · exact mem_updated.2 (.inl (hbefore hp))
    · rcases mem_updated.1 hp with hp | hp
      · exact hdeleted p hp
      · exact .inr (hsub group mem_cons_self (mem_of_mem_filter hp))

theorem existsUnique_place {p : StorePath} (hp : p ∈ batch) {before : List StorePath}
    (hcount : s.queue.flatten.count p + s.retry.count p + before.count p + s.spared.count p +
      s.uncertain.count p = if p ∈ batch then 1 else 0)
    (hbefore : before ⊆ s.deleted) (hdeleted : p ∈ s.deleted → p ∈ before ∨ p ∈ s.uncertain) :
    ∃! place, s.At p place := by
  rw [if_pos hp] at hcount
  have hqueued : s.At p .queued ↔ 0 < s.queue.flatten.count p := count_pos_iff.symm
  have hretry : s.At p .retry ↔ 0 < s.retry.count p := count_pos_iff.symm
  have hspared : s.At p .spared ↔ 0 < s.spared.count p := count_pos_iff.symm
  -- a deleted path is counted where it was deleted, or among the interrupted ones
  have hdel : s.At p .deleted ↔
      0 < before.count p ∨ 0 < s.uncertain.count p ∧ p ∈ s.deleted := by
    rw [count_pos_iff, count_pos_iff]
    exact ⟨fun h => (hdeleted h).imp_right fun hu => ⟨hu, h⟩, fun h => h.elim (hbefore ·) (·.2)⟩
  have huncertain : s.At p .uncertain ↔ 0 < s.uncertain.count p ∧ p ∉ s.deleted := by
    rw [count_pos_iff]
    exact Iff.rfl
  have hunique : ∀ a b, s.At p a → s.At p b → a = b := by
    intro a b ha hb
    cases a <;> cases b <;> first
      | rfl
      | exfalso
        grind
  have hexists : ∃ place, s.At p place := by
    by_cases hq : 0 < s.queue.flatten.count p
    · exact ⟨_, hqueued.2 hq⟩
    by_cases hr : 0 < s.retry.count p
    · exact ⟨_, hretry.2 hr⟩
    by_cases hs : 0 < s.spared.count p
    · exact ⟨_, hspared.2 hs⟩
    by_cases hb : 0 < before.count p
    · exact ⟨_, hdel.2 (.inl hb)⟩
    have hu : 0 < s.uncertain.count p := by omega
    by_cases hd : p ∈ s.deleted
    · exact ⟨_, hdel.2 (.inr ⟨hu, hd⟩)⟩
    · exact ⟨_, huncertain.2 ⟨hu, hd⟩⟩
  obtain ⟨place, hplace⟩ := hexists
  exact ⟨place, hplace, fun other hother => hunique other place hother hplace⟩

theorem Lapping.sound (h : s.Lapping batch) : s.Sound batch where
  place p hp := existsUnique_place hp (h.count p) (List.Subset.refl _) .inl
  once := by
    refine nodup_iff_count_le_one.2 fun p => ?_
    have hcount := h.count p
    split at hcount <;> omega
  fresh p hp := by
    have hcount := h.count p
    have hone : (if p ∈ batch then 1 else 0) ≤ 1 := by split <;> simp
    have hpos := count_pos_iff.2 hp
    exact ⟨count_eq_zero.1 (by omega), count_eq_zero.1 (by omega)⟩
  named p hp := by
    have hcount := h.count p
    by_contra hout
    rw [if_neg hout] at hcount
    rcases hp with hp | hp
    · have := count_pos_iff.2 hp
      omega
    · have := count_pos_iff.2 hp
      omega
  alone p := by
    have halone := h.alone p
    have hlap := h.lap
    omega

theorem Closing.sound (h : s.Closing batch) : s.Sound batch := by
  obtain ⟨before, hcount, hbefore, hdeleted⟩ := h.count
  have hcount' : ∀ p, s.queue.flatten.count p + s.retry.count p + before.count p +
      s.spared.count p + s.uncertain.count p = if p ∈ batch then 1 else 0 := by
    intro p
    rw [h.queue, flatten_nil, count_nil, Nat.zero_add]
    exact hcount p
  refine ⟨fun p hp => existsUnique_place hp (hcount' p) hbefore (hdeleted p), ?_, ?_, ?_, h.alone⟩
  · rw [h.queue]
    exact nodup_nil
  · rw [h.queue]
    exact nofun
  · intro p hp
    by_contra hout
    have hp' := hcount p
    rw [if_neg hout] at hp'
    rw [h.queue] at hp
    rcases hp with hp | hp
    · cases hp
    · rcases hdeleted p hp with hp | hp
      · have := count_pos_iff.2 hp
        omega
      · have := count_pos_iff.2 hp
        omega

theorem inv_step (e : DeleteEvent) (t : Deleting) (h : s.Lapping batch ∨ s.Closing batch)
    (hhonest : s.Honest e) (hstep : s.step e = some t) :
    t.Lapping batch ∨ t.Closing batch := by
  rcases step_cases hstep with ⟨answer, group, rest, rfl, hchecks, hqueue, rfl⟩ | ⟨valid, group,
    rest, rfl, hchecks, rfl⟩
  · rcases h with h | h
    · exact (h.handle hqueue hhonest).advance
    · obtain ⟨groups, hgroups, -⟩ := h.checks
      rw [hchecks] at hgroups
      cases hgroups
  · rcases h with h | h
    · rw [h.checks] at hchecks
      cases hchecks
    · exact .inr (h.checked hchecks valid)

theorem inv_start (batch : List StorePath) :
    (start batch).Lapping batch ∨ (start batch).Closing batch := by
  refine Lapping.advance ⟨rfl, .inl rfl, fun p => ?_, fun p => ?_⟩
  · rw [flatten_batched, (Dict.nodup_fromkeys batch).count]
    simp
  · split <;> simp

/-- **The delete of a batch.**  Whatever an honest daemon answers, the delete ends, and between two
requests every path of the batch is in one place, nothing deleted or interrupted is named again, and
no path is refused as a group of one more than twice. -/
theorem sound_of_run (batch : List StorePath) (es : List DeleteEvent) (t : Deleting)
    (hhonest : Guarded step Honest (start batch) es)
    (hrun : Runs.run step (start batch) es = some t) :
    t.Sound batch ∧ es.length ≤ 5 * batch.length ∧ (t.Finished ∨ t.Waits) := by
  have hinv : t.Lapping batch ∨ t.Closing batch :=
    inv_of_guarded (fun _ e t h hok hstep => inv_step e t h hok hstep) (inv_start batch) hhonest
      hrun
  exact ⟨hinv.elim Lapping.sound Closing.sound, length_le_of_run batch hrun⟩

/-- A group that is refused whole, half of which is deleted and half interrupted. -/
def oneOfEach : List DeleteEvent :=
  [.answers (.refused (some ["a", "b", "c"])), .answers (.deleted ["a"] 7),
    .answers (.interrupted true), .rechecked (some ["b"])]

theorem sound_oneOfEach : ∃ t, Runs.run step (start ["a", "b", "c"]) oneOfEach = some t ∧
    t.respond ["a", "b", "c"] none none = ⟨["a", "c"], 7, ["deleting 3 paths", "deleting 'a'",
      "deleted 1 paths, 1 total", "deleting 2 paths",
      "freed byte count excludes deletions from failed requests",
      "delete refused for 0 paths, 0 spared, 1 interrupted, deleted the rest",
      "deleted 2 paths, 7 bytes freed"]⟩ ∧
    t.Sound ["a", "b", "c"] ∧ oneOfEach.length ≤ 5 * 3 ∧ (t.Finished ∨ t.Waits) := by
  obtain ⟨t, hrun, hrespond⟩ := Option.map_eq_some_iff.1
    (by decide +kernel : (Runs.run step (start ["a", "b", "c"]) oneOfEach).map
      (fun t => t.respond ["a", "b", "c"] none none) = some ⟨["a", "c"], 7, ["deleting 3 paths",
        "deleting 'a'", "deleted 1 paths, 1 total", "deleting 2 paths",
        "freed byte count excludes deletions from failed requests",
        "delete refused for 0 paths, 0 spared, 1 interrupted, deleted the rest",
        "deleted 2 paths, 7 bytes freed"]⟩)
  exact ⟨t, hrun, hrespond, sound_of_run ["a", "b", "c"] oneOfEach t (by decide +kernel) hrun⟩

end Places

end Deleting

end Pynixd.Gc
