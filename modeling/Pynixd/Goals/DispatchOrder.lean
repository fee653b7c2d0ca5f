import Mathlib.Data.Fintype.EquivFin
import Mathlib.Data.Prod.Lex
import Mathlib.Order.WellFounded
import Pynixd.Goals.RootGoals

/-!
# The order in which root goals enqueue

`pynixd/goals/dispatch_order.py` gives each root goal of a request a place.  A goal starts its
build when every goal before it has decided, and it has decided when its build is on the queue,
when it ends, or as soon as it waits for a goal that may reach another root.

* `turnsInTheOrderOf` — the places of the goals; the order of a request names every goal once
  (`turnsInTheOrderOf_goalOrder`), so that no `ValueError` is raised;
* `exists_untaken` — where all goals that run wait for each other, one of them waits for a goal
  that has not started;
* `dispatch_of_run` — no request is stuck, and the goals that never waited for a child enqueue
  in the order of their keys.
-/

namespace Pynixd.Dispatch

open List

open Goals (Request mem_goalOrder length_goalOrder)
open Runs

/-! ## Places -/

/-- The loop of `turns_in_the_order_of`. -/
def placeGoals : List (Option Nat) → List (Nat × Nat) → Except String (List (Option Nat))
  | turns, [] => .ok turns
  | turns, (index, place) :: rest =>
    if turns.length ≤ index ∨ ((turns[index]?).join).isSome then
      .error "the order does not name every goal once"
    else placeGoals (turns.set index (some place)) rest

/-- `turns_in_the_order_of`: the place of each goal, by its place in the request. -/
def turnsInTheOrderOf (count : Nat) (order : List Nat) : Except String (List Nat) := do
  if order.length ≠ count then .error "the order does not name every goal"
  else
    let turns ← placeGoals (List.replicate count none) order.zipIdx
    match turns.mapM id with
    | none => .error "the order does not name every goal"
    | some turns => .ok turns

theorem placeGoals_spec {turns : List (Option Nat)} {items : List (Nat × Nat)}
    (hnodup : (items.map Prod.fst).Nodup)
    (hfree : ∀ index ∈ items.map Prod.fst, turns[index]? = some none) :
    ∃ turns', placeGoals turns items = .ok turns' ∧ turns'.length = turns.length ∧
      (∀ item ∈ items, turns'[item.1]? = some (some item.2)) ∧
      ∀ index, index ∉ items.map Prod.fst → turns'[index]? = turns[index]? := by
  induction items generalizing turns with
  | nil => exact ⟨turns, rfl, rfl, fun _ h => (by cases h), fun _ _ => rfl⟩
  | cons item items ih =>
    obtain ⟨index, place⟩ := item
    rw [map_cons, nodup_cons] at hnodup
    have hindex : turns[index]? = some none := hfree index (mem_cons_self ..)
    have hlt : index < turns.length := (List.getElem?_eq_some_iff.1 hindex).1
    have hrest : ∀ i ∈ items.map Prod.fst, (turns.set index (some place))[i]? = some none := by
      intro i hi
      have hne : index ≠ i := fun heq => hnodup.1 (heq ▸ hi)
      rw [getElem?_set_ne hne]
      exact hfree i (mem_cons_of_mem _ hi)
    obtain ⟨turns', hok, hlength, hitems, hothers⟩ := ih hnodup.2 hrest
    refine ⟨turns', ?_, hlength.trans length_set, ?_, ?_⟩
    · rw [placeGoals, if_neg, hok]
      rw [hindex, not_or, Nat.not_le]
      exact ⟨hlt, by decide⟩
    · intro item hitem
      rcases mem_cons.1 hitem with rfl | hitem
      · rw [hothers index hnodup.1, getElem?_set_self hlt]
      · exact hitems item hitem
    · intro i hi
      rw [map_cons, mem_cons, not_or] at hi
      rw [hothers i hi.2, getElem?_set_ne (Ne.symm hi.1)]

theorem mapM_id_map_some {α : Type} (l : List α) : (l.map some).mapM id = some l := by
  induction l with
  | nil => rfl
  | cons x l ih => simp [mapM_cons, ih]

/-- **The order of a request names every goal once.** -/
theorem turnsInTheOrderOf_goalOrder (req : Request) :
    ∃ turns, turnsInTheOrderOf req.roots.length req.goalOrder = .ok turns ∧
      ∀ place index : Nat, turns[index]? = some place ↔ req.goalOrder[place]? = some index := by
  have hnodup : req.goalOrder.Nodup :=
    (perm_insertionSort _ _).nodup_iff.2 nodup_range
  have hkeys : req.goalOrder.zipIdx.map Prod.fst = req.goalOrder := zipIdx_map_fst 0 _
  have hfree : ∀ index ∈ req.goalOrder.zipIdx.map Prod.fst,
      (List.replicate req.roots.length (none : Option Nat))[index]? = some none := by
    intro index hindex
    rw [hkeys, mem_goalOrder] at hindex
    rw [getElem?_replicate, if_pos hindex]
  obtain ⟨placed, hok, hlength, hitems, -⟩ := placeGoals_spec (by rwa [hkeys]) hfree
  rw [length_replicate] at hlength
  have hplaced : ∀ place index : Nat, req.goalOrder[place]? = some index →
      placed[index]? = some (some place) := by
    intro place index hplace
    exact hitems (index, place) (mk_mem_zipIdx_iff_getElem?.2 hplace)
  -- every goal has been given a place
  have hsome : ∃ turns : List Nat, placed = turns.map some := by
    refine ⟨placed.map (·.getD 0), ext_getElem? fun i => ?_⟩
    rw [map_map, getElem?_map]
    by_cases hi : i < req.roots.length
    · obtain ⟨place, hplace⟩ := getElem?_of_mem (mem_goalOrder.2 hi)
      rw [hplaced place i hplace]
      rfl
    · rw [getElem?_eq_none (by omega)]
      rfl
  obtain ⟨turns, rfl⟩ := hsome
  have hturns : ∀ place index : Nat, req.goalOrder[place]? = some index →
      turns[index]? = some place := by
    intro place index hplace
    simpa using hplaced place index hplace
  refine ⟨turns, ?_, fun place index => ⟨fun hindex => ?_, hturns place index⟩⟩
  · rw [turnsInTheOrderOf, if_neg (not_not.2 (length_goalOrder req)), hok]
    simp only [bind, Except.bind, mapM_id_map_some]
  · have hlt : index < req.roots.length := by
      rw [← hlength, length_map]
      exact (List.getElem?_eq_some_iff.1 hindex).1
    obtain ⟨place', hplace⟩ := getElem?_of_mem (mem_goalOrder.2 hlt)
    rw [hturns place' index hplace] at hindex
    rwa [← Option.some.inj hindex]

/-! ## The goals of one request -/

/-- Where a root goal is. -/
inductive Phase (n : Nat) where
  /-- The goal has no task yet. -/
  | untaken
  /-- The goal reads its derivation, asks stores and substitutes, and waits for no root. -/
  | preparing
  /-- The goal waits for children that reach these roots. -/
  | waiting (on : List (Fin n))
  /-- The goal is at `_wait_for_my_turn`. -/
  | ready
  /-- The goal started its build, and waits until the build reached the queue. -/
  | started
  | placed
  /-- The goal waits for the end of the build. -/
  | building
  | done
  deriving DecidableEq, Repr

namespace Phase

variable {n : Nat}

def isWaiting : Phase n → Bool
  | .waiting _ => true
  | _ => false

/-- The goal waits for children that reach this root. -/
def awaits (p : Phase n) (j : Fin n) : Bool :=
  match p with
  | .waiting on => j ∈ on
  | _ => false

theorem isWaiting_of_awaits {p : Phase n} {j : Fin n} (h : p.awaits j = true) :
    p.isWaiting = true := by
  cases p with
  | waiting on => rfl
  | _ => cases h

end Phase

/-- The goals, by their places in the order, and the request. -/
structure State (n : Nat) where
  phase : Fin n → Phase n
  decided : Fin n → Bool
  /-- Which goals waited for a child that may reach a root. -/
  gaveUp : Fin n → Bool
  /-- The goals whose builds reached the queue, in this order. -/
  enqueued : List (Fin n)
  nextPosition : Nat
  stopped : Bool
  released : Bool

inductive Event (n : Nat) where
  /-- A task of the request takes the next goal. -/
  | take
  /-- A goal that other goals wait for is started by one of them. -/
  | wake (i : Fin n)
  /-- `run_child`, with a child that may reach a root: the place is given up first. -/
  | runChild (i : Fin n) (on : List (Fin n))
  | childEnded (i : Fin n)
  | prepared (i : Fin n)
  /-- The goals before this one decided, and it starts its build. -/
  | turn (i : Fin n)
  /-- The build of the goal is on the queue. -/
  | reached (i : Fin n)
  /-- The build goal ended without the queue. -/
  | unplaced (i : Fin n)
  /-- The goal lets the next ones enqueue. -/
  | decide (i : Fin n)
  /-- The goal ends: with its build, or without one. -/
  | finish (i : Fin n)
  /-- A failure stops the request, or the client leaves. -/
  | stop
  | release
  /-- `GoalEngine.reap`: what still runs is cancelled. -/
  | reap
  deriving DecidableEq, Repr

namespace State

variable {n : Nat}

def go (s : State n) (i : Fin n) (p : Phase n) : State n :=
  { s with phase := Function.update s.phase i p }

def noteThatItDecided (s : State n) (i : Fin n) : State n :=
  { s with decided := Function.update s.decided i true }

/-- The goal has started and not ended. -/
def Running (s : State n) (i : Fin n) : Prop := s.phase i ≠ .untaken ∧ s.phase i ≠ .done

instance (s : State n) (i : Fin n) : Decidable (s.Running i) := inferInstanceAs (Decidable (_ ∧ _))

/-- Every goal before this one decided. -/
def MyTurn (s : State n) (i : Fin n) : Prop := ∀ j < i, s.decided j = true

instance (s : State n) (i : Fin n) : Decidable (s.MyTurn i) :=
  inferInstanceAs (Decidable (∀ _, _))

/-- Some goal waits for children that reach this one. -/
def Awaited (s : State n) (j : Fin n) : Prop := ∃ i, (s.phase i).awaits j = true

instance (s : State n) (j : Fin n) : Decidable (s.Awaited j) := inferInstanceAs (Decidable (∃ _, _))

/-- The request, before anything ran.  A goal that the client named twice keeps its first
place, and the other one is decided at once (`take_a_turn`). -/
def start (repeated : Fin n → Bool) : State n where
  phase i := if repeated i then .done else .untaken
  decided := repeated
  gaveUp _ := false
  enqueued := []
  nextPosition := 0
  stopped := false
  released := false

def step (inputs : Fin n → List (Fin n)) (s : State n) : Event n → Option (State n)
  | .take =>
    if h : s.nextPosition < n ∧ s.stopped = false then
      let t := { s with nextPosition := s.nextPosition + 1 }
      some (if s.phase ⟨s.nextPosition, h.1⟩ = .untaken then
        t.go ⟨s.nextPosition, h.1⟩ .preparing else t)
    else none
  | .wake i => if s.phase i = .untaken ∧ s.Awaited i then some (s.go i .preparing) else none
  | .runChild i on =>
    if s.phase i = .preparing ∧ ∀ j ∈ on, j ∈ inputs i then
      some { (s.noteThatItDecided i).go i (.waiting on) with
        gaveUp := Function.update s.gaveUp i true }
    else none
  | .childEnded i =>
    if (s.phase i).isWaiting = true ∧ ∀ j, (s.phase i).awaits j = true → s.phase j = .done then
      some (s.go i .preparing)
    else none
  | .prepared i => if s.phase i = .preparing then some (s.go i .ready) else none
  | .turn i => if s.phase i = .ready ∧ s.MyTurn i then some (s.go i .started) else none
  | .reached i =>
    if s.phase i = .started then some { s.go i .placed with enqueued := s.enqueued ++ [i] }
    else none
  | .unplaced i => if s.phase i = .started then some (s.go i .placed) else none
  | .decide i =>
    if s.phase i = .placed then some ((s.noteThatItDecided i).go i .building) else none
  -- whatever it waits for, a goal can end with an exception
  | .finish i => if s.Running i then some ((s.noteThatItDecided i).go i .done) else none
  | .stop => some { s with stopped := true }
  | .release =>
    if (s.stopped = true ∨ ∀ i, s.phase i = .done) ∧ s.released = false then
      some { s with decided := fun _ => true, released := true }
    else none
  | .reap =>
    if s.released = true then
      some { s with phase := fun i => if s.phase i = .untaken then .untaken else .done }
    else none

end State

/-! ## What a decision says -/

open State

section Invariant

variable {n : Nat} {inputs : Fin n → List (Fin n)} {s t : State n}

/-- The goal is past the queue. -/
def Phase.past (p : Phase n) : Prop := p = .building ∨ p = .done

structure Inv (inputs : Fin n → List (Fin n)) (s : State n) : Prop where
  /-- A goal that decided and never waited for a child is past the queue. -/
  decided : ∀ i, s.decided i = true →
    s.released = true ∨ s.gaveUp i = true ∨ (s.phase i).past
  /-- A goal that is past the queue decided. -/
  past : ∀ i, (s.phase i).past → s.decided i = true
  /-- A goal that waits for children decided, and the children are its inputs. -/
  waiting : ∀ i, (s.phase i).isWaiting = true →
    s.decided i = true ∧ ∀ j, (s.phase i).awaits j = true → j ∈ inputs i
  /-- A goal has started its build in its turn. -/
  turn : ∀ i, s.phase i = .started ∨ i ∈ s.enqueued → s.released = true ∨ s.MyTurn i
  enqueued : ∀ i ∈ s.enqueued, s.phase i = .placed ∨ (s.phase i).past
  sorted : s.released = true ∨ (s.enqueued.filter fun i => !s.gaveUp i).Pairwise (· < ·)
  released : s.released = true → ∀ i, s.decided i = true
  taken : ∀ i : Fin n, i.val < s.nextPosition → s.phase i ≠ .untaken

theorem inv_start (repeated : Fin n → Bool) : Inv inputs (start repeated) where
  decided := by
    intro i hi
    exact .inr (.inr (.inr (if_pos hi)))
  past := by
    intro i hi
    simp only [start] at hi ⊢
    split_ifs at hi with hrepeated
    · exact hrepeated
    · rcases hi with hi | hi <;> cases hi
  waiting := by
    intro i hi
    simp only [start] at hi
    split_ifs at hi <;> cases hi
  turn := by
    rintro i (hi | hi)
    · simp only [start] at hi
      split_ifs at hi
    · cases hi
  enqueued := by
    intro i hi
    cases hi
  sorted := .inr List.Pairwise.nil
  released := by
    intro h
    cases h
  taken := by
    intro i hi
    exact absurd hi (Nat.not_lt_zero _)

/-- One goal moves on: to another phase, with what it then has decided and given up. -/
def State.move (s : State n) (i : Fin n) (p : Phase n) (d g : Bool) : State n :=
  { s with
    phase := Function.update s.phase i p
    decided := Function.update s.decided i d
    gaveUp := Function.update s.gaveUp i g }

theorem go_eq_move (s : State n) (i : Fin n) (p : Phase n) :
    s.go i p = s.move i p (s.decided i) (s.gaveUp i) := by
  simp only [State.go, State.move, Function.update_eq_self]

theorem decided_go_eq_move (s : State n) (i : Fin n) (p : Phase n) :
    (s.noteThatItDecided i).go i p = s.move i p true (s.gaveUp i) := by
  simp only [State.go, State.noteThatItDecided, State.move, Function.update_eq_self]

variable {i : Fin n} {p : Phase n} {d g : Bool}

theorem forall_move {P : Fin n → Phase n → Bool → Bool → Prop} (hi : P i p d g)
    (h : ∀ j, P j (s.phase j) (s.decided j) (s.gaveUp j)) (j : Fin n) :
    P j ((s.move i p d g).phase j) ((s.move i p d g).decided j) ((s.move i p d g).gaveUp j) := by
  by_cases hji : j = i
  · subst hji
    simpa only [State.move, Function.update_self] using hi
  · simpa only [State.move, Function.update_of_ne hji] using h j

/-- What a goal may do in one move. -/
structure Move (inputs : Fin n → List (Fin n)) (s : State n) (i : Fin n) (p : Phase n)
    (d g : Bool) : Prop where
  keeps : s.decided i = true → d = true
  decided : d = true → s.released = true ∨ g = true ∨ p.past
  past : p.past → d = true
  waiting : p.isWaiting = true → d = true ∧ ∀ j, p.awaits j = true → j ∈ inputs i
  turn : p = .started → s.MyTurn i
  enqueued : i ∈ s.enqueued → g = s.gaveUp i ∧ (p = .placed ∨ p.past)
  taken : p ≠ .untaken

theorem Move.myTurn (hm : Move inputs s i p d g) {j : Fin n} (h : s.MyTurn j) :
    (s.move i p d g).MyTurn j := by
  have hdecided : ∀ k, s.decided k = true → (s.move i p d g).decided k = true :=
    forall_move (P := fun k _ d _ => s.decided k = true → d = true) hm.keeps fun _ => id
  exact fun k hk => hdecided k (h k hk)

theorem Inv.move (h : Inv inputs s) (hm : Move inputs s i p d g) :
    Inv inputs (s.move i p d g) where
  decided := forall_move (P := fun _ p d g => d = true → s.released = true ∨ g = true ∨ p.past)
    hm.decided h.decided
  past := forall_move (P := fun _ p d _ => p.past → d = true) hm.past h.past
  waiting := forall_move (P := fun i p d _ => p.isWaiting = true →
    d = true ∧ ∀ j, p.awaits j = true → j ∈ inputs i) hm.waiting h.waiting
  turn := by
    refine forall_move (P := fun j p _ _ => p = .started ∨ j ∈ s.enqueued →
      s.released = true ∨ (s.move i _ d g).MyTurn j) ?_ fun j hj => ?_
    · rintro (hi | hi)
      · exact .inr (hm.myTurn (hm.turn hi))
      · exact (h.turn i (.inr hi)).imp id hm.myTurn
    · exact (h.turn j hj).imp id hm.myTurn
  enqueued := forall_move (P := fun j p _ _ => j ∈ s.enqueued → p = .placed ∨ p.past)
    (fun hi => (hm.enqueued hi).2) h.enqueued
  sorted := by
    have hsame : ∀ j, j ∈ s.enqueued → (s.move i p d g).gaveUp j = s.gaveUp j :=
      forall_move (P := fun j _ _ g => j ∈ s.enqueued → g = s.gaveUp j)
        (fun hi => (hm.enqueued hi).1) fun _ _ => rfl
    have hfilter : (s.enqueued.filter fun j => !(s.move i p d g).gaveUp j) =
        s.enqueued.filter fun j => !s.gaveUp j :=
      filter_congr fun j hj => congrArg (!·) (hsame j hj)
    exact h.sorted.imp id fun hsorted => hfilter.symm ▸ hsorted
  released := fun hreleased => forall_move (P := fun _ _ d _ => d = true)
    (hm.keeps (h.released hreleased i)) (h.released hreleased)
  taken := forall_move (P := fun j p _ _ => j.val < s.nextPosition → p ≠ .untaken)
    (fun _ => hm.taken) h.taken

theorem Inv.not_enqueued (h : Inv inputs s) (hplaced : s.phase i ≠ .placed)
    (hpast : ¬ (s.phase i).past) : i ∉ s.enqueued := fun hi => by
  rcases h.enqueued i hi with hphase | hphase
  · exact hplaced hphase
  · exact hpast hphase

theorem Inv.onward (h : Inv inputs s) (hplaced : s.phase i ≠ .placed)
    (hpast : ¬ (s.phase i).past) (hp : p = .preparing ∨ p = .ready ∨ p = .started ∨ p = .placed)
    (hturn : p = .started → s.MyTurn i) : Inv inputs (s.go i p) := by
  rw [go_eq_move]
  refine h.move ⟨id, fun hd => ?_, fun hpast' => ?_, fun hwait => ?_, hturn,
    fun hi => absurd hi (h.not_enqueued hplaced hpast), fun huntaken => ?_⟩
  · exact (h.decided i hd).imp id (Or.imp id fun hold => absurd hold hpast)
  · rcases hp with rfl | rfl | rfl | rfl <;> rcases hpast' with hpast' | hpast' <;> cases hpast'
  · rcases hp with rfl | rfl | rfl | rfl <;> cases hwait
  · rcases hp with rfl | rfl | rfl | rfl <;> cases huntaken

theorem Inv.decide (h : Inv inputs s) (hp : p.past) :
    Inv inputs ((s.noteThatItDecided i).go i p) := by
  rw [decided_go_eq_move]
  refine h.move ⟨fun _ => rfl, fun _ => .inr (.inr hp), fun _ => rfl, fun hwait => ?_,
    fun hstarted => ?_, fun _ => ⟨rfl, .inr hp⟩, fun huntaken => ?_⟩
  · rcases hp with rfl | rfl <;> cases hwait
  · rcases hp with rfl | rfl <;> cases hstarted
  · rcases hp with rfl | rfl <;> cases huntaken

/-- **A build reaches the queue behind the builds of the goals before**: a goal further back
that is there already saw this one decide, and what has decided is past the queue. -/
theorem Inv.reach (h : Inv inputs s) (hphase : s.phase i = .started) :
    Inv inputs { s.go i .placed with enqueued := s.enqueued ++ [i] } := by
  have hnot : i ∉ s.enqueued := h.not_enqueued (by simp [hphase]) (by simp [hphase, Phase.past])
  have hgo : Inv inputs (s.go i .placed) :=
    h.onward (by simp [hphase]) (by simp [hphase, Phase.past]) (by simp) fun hp => (by cases hp)
  refine { hgo with turn := ?_, enqueued := ?_, sorted := ?_ }
  · rintro j (hj | hj)
    · exact hgo.turn j (.inl hj)
    · rcases mem_append.1 hj with hj | hj
      · exact hgo.turn j (.inr hj)
      · obtain rfl := mem_singleton.1 hj
        exact h.turn j (.inl hphase)
  · intro j hj
    rcases mem_append.1 hj with hj | hj
    · exact hgo.enqueued j hj
    · obtain rfl := mem_singleton.1 hj
      exact .inl (Function.update_self ..)
  · refine or_iff_not_imp_left.2 fun hreleased => ?_
    have hsorted := h.sorted.resolve_left hreleased
    rw [filter_append, pairwise_append]
    refine ⟨hsorted, pairwise_filter.2 (pairwise_singleton ..), fun j hj k hk => ?_⟩
    obtain ⟨hk, hplain⟩ := mem_filter.1 hk
    obtain rfl := mem_singleton.1 hk
    have hmem := mem_of_mem_filter hj
    rcases lt_trichotomy j k with hlt | rfl | hlt
    · exact hlt
    · exact absurd hmem hnot
    · -- the goal further back would have seen this one decide
      have hdecided := (h.turn j (.inr hmem)).resolve_left hreleased k hlt
      rcases h.decided k hdecided with hr | hg | hpast
      · exact absurd hr hreleased
      · simp [State.go, hg] at hplain
      · simp [hphase, Phase.past] at hpast

theorem inv_step {e : Event n} (h : Inv inputs s) (hstep : s.step inputs e = some t) :
    Inv inputs t := by
  cases e with
  | take =>
    simp only [step] at hstep
    split_ifs at hstep with hnext huntaken
    · cases hstep
      have hgo : Inv inputs (s.go ⟨s.nextPosition, hnext.1⟩ .preparing) :=
        h.onward (by simp [huntaken]) (by simp [huntaken, Phase.past]) (by simp)
          fun hp => (by cases hp)
      refine { hgo with taken := fun j hj => ?_ }
      rcases Nat.lt_succ_iff_lt_or_eq.1 hj with hj | hj
      · exact hgo.taken j hj
      · obtain rfl : j = ⟨s.nextPosition, hnext.1⟩ := Fin.ext hj
        simp [State.go]
    · cases hstep
      refine { h with taken := fun j hj => ?_ }
      rcases Nat.lt_succ_iff_lt_or_eq.1 hj with hj | hj
      · exact h.taken j hj
      · obtain rfl : j = ⟨s.nextPosition, hnext.1⟩ := Fin.ext hj
        exact huntaken
  | wake i =>
    simp only [step] at hstep
    split_ifs at hstep with hi
    cases hstep
    exact h.onward (by simp [hi.1]) (by simp [hi.1, Phase.past]) (by simp) fun hp => (by cases hp)
  | runChild i on =>
    simp only [step] at hstep
    split_ifs at hstep with hi
    cases hstep
    refine h.move (p := .waiting on) (d := true) (g := true) ⟨fun _ => rfl,
      fun _ => .inr (.inl rfl), fun _ => rfl, fun _ => ⟨rfl, fun j hj => hi.2 j ?_⟩,
      fun hp => (by cases hp), fun hmem => ?_, fun hp => (by cases hp)⟩
    · simpa [Phase.awaits] using hj
    · exact absurd hmem (h.not_enqueued (by simp [hi.1]) (by simp [hi.1, Phase.past]))
  | childEnded i =>
    simp only [step] at hstep
    split_ifs at hstep with hi
    cases hstep
    refine h.onward (fun hp => ?_) (fun hp => ?_) (by simp) fun hp => (by cases hp)
    · simp [hp, Phase.isWaiting] at hi
    · rcases hp with hp | hp <;> simp [hp, Phase.isWaiting] at hi
  | prepared i =>
    simp only [step] at hstep
    split_ifs at hstep with hi
    cases hstep
    exact h.onward (by simp [hi]) (by simp [hi, Phase.past]) (by simp) fun hp => (by cases hp)
  | turn i =>
    simp only [step] at hstep
    split_ifs at hstep with hi
    cases hstep
    exact h.onward (by simp [hi.1]) (by simp [hi.1, Phase.past]) (by simp) fun _ => hi.2
  | reached i =>
    simp only [step] at hstep
    split_ifs at hstep with hi
    cases hstep
    exact h.reach hi
  | unplaced i =>
    simp only [step] at hstep
    split_ifs at hstep with hi
    cases hstep
    exact h.onward (by simp [hi]) (by simp [hi, Phase.past]) (by simp) fun hp => (by cases hp)
  | decide i =>
    simp only [step] at hstep
    split_ifs at hstep with hi
    cases hstep
    exact h.decide (.inl rfl)
  | finish i =>
    simp only [step] at hstep
    split_ifs at hstep with hi
    cases hstep
    exact h.decide (.inr rfl)
  | stop =>
    cases hstep
    exact { h with }
  | release =>
    simp only [step] at hstep
    split_ifs at hstep with hi
    cases hstep
    exact ⟨fun _ _ => .inl rfl, fun _ _ => rfl, fun j hj => ⟨rfl, (h.waiting j hj).2⟩,
      fun _ _ => .inl rfl, h.enqueued, .inl rfl, fun _ _ => rfl, h.taken⟩
  | reap =>
    simp only [step] at hstep
    split_ifs at hstep with hi
    cases hstep
    have hphase : ∀ j, s.phase j ≠ .untaken →
        (if s.phase j = .untaken then (.untaken : Phase n) else .done) = .done :=
      fun j hj => if_neg hj
    refine ⟨fun _ _ => .inl hi, fun j _ => h.released hi j, fun j hj => ?_,
      fun _ _ => .inl hi, fun j hj => .inr (.inr (hphase j fun hu => ?_)), .inl hi,
      h.released, fun j hj => ?_⟩
    · dsimp only at hj
      split_ifs at hj <;> cases hj
    · rcases h.enqueued j hj with hp | hp | hp <;> rw [hu] at hp <;> cases hp
    · dsimp only
      rw [hphase j (h.taken j hj)]
      exact fun hu => (by cases hu)

end Invariant

/-! ## Nobody waits for ever -/

section Waiting

variable {n : Nat} {inputs : Fin n → List (Fin n)} {s : State n}

namespace State

/-- The goal waits for its turn: some goal before it has not decided. -/
def WaitsForTurn (s : State n) (i : Fin n) : Prop := s.phase i = .ready ∧ ¬ s.MyTurn i

/-- The goal waits for children that reach a root which has not ended. -/
def WaitsForChild (s : State n) (i : Fin n) : Prop :=
  ∃ j, (s.phase i).awaits j = true ∧ s.phase j ≠ .done

def Waits (s : State n) (i : Fin n) : Prop := s.WaitsForTurn i ∨ s.WaitsForChild i

end State

/-- No goal is, over whatever chain, its own input. -/
def Acyclic (inputs : Fin n → List (Fin n)) : Prop :=
  ∀ i, ¬ Relation.TransGen (fun i j => j ∈ inputs i) i i

theorem Acyclic.wellFounded (h : Acyclic inputs) :
    WellFounded fun i j : Fin n => Relation.TransGen (fun i j => j ∈ inputs i) j i := by
  have hirrefl : Std.Irrefl fun i j : Fin n =>
      Relation.TransGen (fun i j => j ∈ inputs i) j i := ⟨h⟩
  exact Finite.wellFounded_of_trans_of_irrefl _

/-- **Where every goal that runs waits for another one, a goal has not started**, and it holds
the turns or the children that they wait for. -/
theorem Inv.exists_untaken (h : Inv inputs s) (hacyclic : Acyclic inputs)
    (hrunning : ∃ i, s.Running i) (hall : ∀ i, s.Running i → s.Waits i) :
    ∃ u, s.phase u = .untaken ∧ (s.decided u = false ∨ s.Awaited u) := by
  by_cases hdecided : ∀ i, s.decided i = true
  · -- no turn is waited for, and a goal without a running input waits for one that did not start
    obtain ⟨i, hi, hmin⟩ := hacyclic.wellFounded.has_min {i | s.Running i} hrunning
    rcases hall i hi with hturn | ⟨j, hj, hdone⟩
    · exact absurd (fun k _ => hdecided k) hturn.2
    · refine ⟨j, by_contra fun huntaken => hmin j ⟨huntaken, hdone⟩ ?_, .inr ⟨i, hj⟩⟩
      exact Relation.TransGen.single ((h.waiting i (Phase.isWaiting_of_awaits hj)).2 j hj)
  · -- the first goal that has not decided waits for no turn, and for no child
    push Not at hdecided
    obtain ⟨u, hu, hmin⟩ := wellFounded_lt.has_min {i | s.decided i ≠ true} hdecided
    have hmyTurn : s.MyTurn u := fun j hj => by_contra fun hnot => hmin j hnot hj
    refine ⟨u, by_contra fun huntaken => ?_, .inl (by simpa using hu)⟩
    have hdone : s.phase u ≠ .done := fun hdone => hu (h.past u (.inr hdone))
    rcases hall u ⟨huntaken, hdone⟩ with hturn | ⟨j, hj, -⟩
    · exact hturn.2 hmyTurn
    · exact hu (h.waiting u (Phase.isWaiting_of_awaits hj)).1

/-- Every root that has not ended waits for another one. -/
def State.Stuck (s : State n) : Prop :=
  (∃ i, s.phase i ≠ .done) ∧ ∀ i, s.phase i ≠ .done → s.Waits i

theorem Inv.not_stuck (h : Inv inputs s) (hacyclic : Acyclic inputs) : ¬ s.Stuck := by
  rintro ⟨⟨i, hi⟩, hall⟩
  have hstarted : ∀ i, s.phase i ≠ .done → s.phase i ≠ .untaken := by
    intro i hi huntaken
    rcases hall i hi with hturn | ⟨j, hj, -⟩
    · exact absurd (huntaken.symm.trans hturn.1) (by simp)
    · rw [huntaken] at hj
      cases hj
  obtain ⟨u, huntaken, -⟩ := h.exists_untaken hacyclic ⟨i, hstarted i hi, hi⟩
    fun i hi => hall i hi.2
  exact hstarted u (by simp [huntaken]) huntaken

/-- The request itself starts goals and lets turns go. -/
def Event.ofRequest : Event n → Bool
  | .take | .wake _ | .release => true
  | _ => false

/-- **Something moves**: a goal that waits for no other, or the request. -/
theorem Inv.moves (h : Inv inputs s) (hacyclic : Acyclic inputs) (hrunning : ∃ i, s.Running i) :
    (∃ i, s.Running i ∧ ¬ s.Waits i) ∨
      ∃ e : Event n, e.ofRequest = true ∧ (s.step inputs e).isSome = true := by
  refine or_iff_not_imp_left.2 fun hnone => ?_
  push Not at hnone
  obtain ⟨u, huntaken, hu⟩ := h.exists_untaken hacyclic hrunning hnone
  rcases hu with hdecided | hawaited
  · have hreleased : s.released = false := by
      by_contra hreleased
      have htrue := h.released (by simpa using hreleased) u
      rw [hdecided] at htrue
      cases htrue
    cases hstopped : s.stopped with
    | true => exact ⟨.release, rfl, by simp [State.step, hstopped, hreleased]⟩
    | false =>
      have hnext : s.nextPosition < n :=
        lt_of_le_of_lt (not_lt.1 fun hlt => h.taken u hlt huntaken) u.isLt
      exact ⟨.take, rfl, by simp [State.step, hnext, hstopped]⟩
  · exact ⟨.wake u, rfl, by simp [State.step, huntaken, hawaited]⟩

end Waiting

/-! ## Runs of a request -/

section Request

variable (req : Request)

/-- The client named the goal before. -/
def repeated (index : Nat) : Bool :=
  (List.range index).any fun earlier => (req.orderKey earlier).2 = (req.orderKey index).2

/-- The places that `take_a_turn` refuses. -/
def refused (turns : List Nat) (p : Fin req.roots.length) : Bool :=
  (List.range req.roots.length).any fun index => turns[index]? = some p.val && repeated req index

theorem keyLe_iff {a b : String × String} : Request.keyLe a b ↔ toLex a ≤ toLex b :=
  Prod.Lex.le_iff.symm

theorem keyLe_of_lt {p q x y : Nat} (h : p < q) (hx : req.goalOrder[p]? = some x)
    (hy : req.goalOrder[q]? = some y) : Request.keyLe (req.orderKey x) (req.orderKey y) := by
  have htotal : Std.Total fun i j => Request.keyLe (req.orderKey i) (req.orderKey j) :=
    ⟨fun i j => by simpa only [keyLe_iff] using le_total _ _⟩
  have htrans : IsTrans Nat fun i j => Request.keyLe (req.orderKey i) (req.orderKey j) :=
    ⟨fun _ _ _ hab hbc => keyLe_iff.2 ((keyLe_iff.1 hab).trans (keyLe_iff.1 hbc))⟩
  have hsorted : req.goalOrder.Pairwise fun i j =>
      Request.keyLe (req.orderKey i) (req.orderKey j) := pairwise_insertionSort _ _
  obtain ⟨hp, rfl⟩ := List.getElem?_eq_some_iff.1 hx
  obtain ⟨hq, rfl⟩ := List.getElem?_eq_some_iff.1 hy
  exact pairwise_iff_getElem.1 hsorted _ _ hp hq h

/-- The goals that never waited for a child, in the order in which they enqueued. -/
def State.plainEnqueued {n : Nat} (s : State n) : List (Fin n) :=
  s.enqueued.filter fun i => !s.gaveUp i

/-- **The order of one request**, in every interleaving: no state is stuck, something moves as
long as a goal runs, and until the turns are let go the goals that never waited for a child
enqueue in the order of their keys. -/
theorem dispatch_of_run {turns : List Nat}
    (hturns : turnsInTheOrderOf req.roots.length req.goalOrder = .ok turns)
    {inputs : Fin req.roots.length → List (Fin req.roots.length)} (hacyclic : Acyclic inputs)
    {es : List (Event req.roots.length)} {s : State req.roots.length}
    (hrun : run (State.step inputs) (.start (refused req turns)) es = some s) :
    ¬ s.Stuck ∧
      ((∃ i, s.Running i) → (∃ i, s.Running i ∧ ¬ s.Waits i) ∨
        ∃ e : Event req.roots.length, e.ofRequest = true ∧ (s.step inputs e).isSome = true) ∧
      (s.released = false → s.plainEnqueued.Pairwise fun i j => i < j ∧
        ∀ x y : Nat, turns[x]? = some i.val → turns[y]? = some j.val →
          Request.keyLe (req.orderKey x) (req.orderKey y)) := by
  have hinv : Inv inputs s :=
    inv_of_run (fun _ _ _ => inv_step) (inv_start (refused req turns)) hrun
  obtain ⟨turns', hok, hplaces⟩ := turnsInTheOrderOf_goalOrder req
  obtain rfl : turns = turns' := by
    rw [hturns] at hok
    exact Except.ok.inj hok
  refine ⟨hinv.not_stuck hacyclic, hinv.moves hacyclic, fun hreleased => ?_⟩
  have hsorted := hinv.sorted.resolve_left (by simp [hreleased])
  exact hsorted.imp fun hlt => ⟨hlt, fun x y hx hy =>
    keyLe_of_lt req hlt ((hplaces _ _).1 hx) ((hplaces _ _).1 hy)⟩

end Request

theorem acyclic_of_lt {n : Nat} {inputs : Fin n → List (Fin n)}
    (h : ∀ i, ∀ j ∈ inputs i, i < j) : Acyclic inputs := by
  have hlt : ∀ {i j}, Relation.TransGen (fun i j => j ∈ inputs i) i j → i < j := by
    intro i j hij
    induction hij with
    | single hedge => exact h _ _ hedge
    | tail _ hedge ih => exact ih.trans (h _ _ hedge)
  exact fun i hi => lt_irrefl i (hlt hi)

def threeRoots : Request where
  storeDir := "/nix/store"
  client := none
  roots := [⟨⟨"1-c.drv"⟩, [], some (.names {"out"})⟩, ⟨⟨"2-b.drv"⟩, [], some (.names {"out"})⟩,
    ⟨⟨"3-a.drv"⟩, [], some (.names {"out"})⟩]
  result _ := Goals.goalSuccess .built

/-- `a` comes first, and has the later `b` as its input. -/
def lateInput : Fin threeRoots.roots.length → List (Fin threeRoots.roots.length) :=
  fun i => if i.val = 0 then [⟨1, by decide⟩] else []

/-- `c` is ready before `b`, which `a` waits for. -/
def lateRun : List (Event threeRoots.roots.length) :=
  let a := ⟨0, by decide⟩
  let b := ⟨1, by decide⟩
  let c := ⟨2, by decide⟩
  [.take, .take, .take, .prepared c, .runChild a [b], .prepared b, .turn b, .reached b, .decide b,
    .turn c, .reached c]

/-- The later `c` lets `b` go first, and `a` holds neither of them. -/
theorem dispatch_lateRun :
    ∃ s, run (State.step lateInput) (.start (refused threeRoots [2, 1, 0])) lateRun = some s ∧
      s.plainEnqueued.map (·.val) = [1, 2] ∧ ¬ s.Stuck := by
  have hturns : turnsInTheOrderOf threeRoots.roots.length threeRoots.goalOrder = .ok [2, 1, 0] := by
    decide +kernel
  have hacyclic : Acyclic lateInput := acyclic_of_lt (by decide +kernel)
  have hlist : (run (State.step lateInput) (.start (refused threeRoots [2, 1, 0])) lateRun).map
      (·.plainEnqueued.map (·.val)) = some [1, 2] := by
    decide +kernel
  obtain ⟨s, hrun, hs⟩ := Option.map_eq_some_iff.1 hlist
  exact ⟨s, hrun, hs, (dispatch_of_run threeRoots hturns hacyclic hrun).1⟩

end Pynixd.Dispatch
