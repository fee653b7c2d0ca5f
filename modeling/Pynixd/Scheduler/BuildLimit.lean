import Mathlib.Data.List.Induction
import Mathlib.Data.Rat.Floor

/-!
# The build limit of a store

`pynixd/pressure.py` moves the number of builds that a store may run by the pressure of its
host, the way TCP follows a link: it doubles until the first sign of pressure, a fall cuts it,
and each quiet interval after that adds a step.  A sample that says nothing sets the limit to
the ceiling, and the first one that says something sets it back to the initial limit.

* `move_spec` — **the three things a monitored sample can do**: fall, hold or rise;
* `inRange_after` — the limit stays between one and the ceiling;
* `observe_rose_iff` — the answer says whether the limit rose;
* `controlled_after` — all of that for every history of samples, and **in one stretch of
  monitored samples the moves are at least the settle time apart**.

Times, pressures and factors are exact.
-/

namespace Pynixd.Pressure

/-! ## Settings and samples -/

structure PressureSettings where
  enabled : Bool := true
  memoryFullHigh : ℚ := 2
  memoryFullLow : ℚ := 1 / 2
  ioFullHigh : ℚ := 25
  ioFullLow : ℚ := 10
  cpuSomeHigh : ℚ := 60
  loadPerCoreHigh : ℚ := 3 / 2
  minAvailableMemoryMb : Int := 1024
  decreaseFactor : ℚ := 1 / 2
  increaseStep : Int := 1
  settle : ℚ := 10
  initialLimit : Option Int := none

/-- `PsiMetric`, as far as a limit reads it. -/
structure PsiMetric where
  someAvg10 : ℚ := 0
  fullAvg10 : ℚ := 0

structure PsiSnapshot where
  cpu : PsiMetric := {}
  memory : PsiMetric := {}
  io : PsiMetric := {}

structure MemInfo where
  memTotal : Int := 0
  memAvailable : Int := 0

structure SystemHealth where
  psi : Option PsiSnapshot := none
  meminfo : Option MemInfo := none
  cores : Option ℚ := none
  load1 : Option ℚ := none

/-- `meminfo` where it has a total. -/
def SystemHealth.memory (health : SystemHealth) : Option MemInfo :=
  health.meminfo.filter fun mem => mem.memTotal ≠ 0

def SystemHealth.hasSignal (health : SystemHealth) : Bool :=
  health.psi.isSome || health.memory.isSome || health.load1.isSome

/-- `cores`, where it is there and not zero. -/
def SystemHealth.knownCores (health : SystemHealth) : Option ℚ := health.cores.filter (· ≠ 0)

inductive LimitReason where
  | unmonitored
  | slowStart
  | steady
  | memoryPressure
  | ioPressure
  | lowMemory
  | cpuPressure
  | load
  deriving DecidableEq, Repr

/-- What `BuildLimit` holds apart from its ceiling and its settings. -/
structure BuildLimit where
  limit : Int
  reason : LimitReason := .unmonitored
  slowStart : Bool := true
  sampledAt : Option ℚ := none
  nextFall : ℚ := 0
  nextRise : ℚ := 0
  deriving DecidableEq

/-- The arguments of one `observe`. -/
structure Sample where
  health : Option SystemHealth
  running : Int
  now : ℚ

/-! ## The controller -/

section Controller

variable (settings : PressureSettings) (ceiling : Int)

/-- A new `BuildLimit`: `__post_init__` sets the limit to the ceiling. -/
def newLimit : BuildLimit := { limit := ceiling }

def initial (health : SystemHealth) : Int :=
  let start := settings.initialLimit.getD ((health.knownCores.map (⌊·⌋)).getD 1)
  max 1 (min ceiling start)

/-- `_verdict`: the reason, and whether it lowers the limit. -/
def verdict (health : SystemHealth) : LimitReason × Bool :=
  let minKb := settings.minAvailableMemoryMb * 1024
  let psi (p : PsiSnapshot → Bool) : Bool := health.psi.any p
  let mem (p : MemInfo → Bool) : Bool := health.memory.any p
  if psi fun s => s.memory.fullAvg10 ≥ settings.memoryFullHigh then (.memoryPressure, true)
  else if psi fun s => s.io.fullAvg10 ≥ settings.ioFullHigh then (.ioPressure, true)
  else if mem fun m => m.memAvailable < minKb then (.lowMemory, true)
  else if psi fun s => s.memory.fullAvg10 > settings.memoryFullLow then (.memoryPressure, false)
  else if psi fun s => s.io.fullAvg10 > settings.ioFullLow then (.ioPressure, false)
  else if mem fun m => m.memAvailable < 2 * minKb then (.lowMemory, false)
  else if psi fun s => s.cpu.someAvg10 ≥ settings.cpuSomeHigh then (.cpuPressure, false)
  else if health.psi.isNone && health.load1.any fun load =>
      health.knownCores.any fun cores => load / cores ≥ settings.loadPerCoreHigh then (.load, false)
  else (.steady, false)

/-- The first monitored sample after a silence goes back to the initial limit. -/
def reset (health : SystemHealth) (now : ℚ) (s : BuildLimit) : BuildLimit :=
  if s.reason = .unmonitored then
    { s with limit := initial settings ceiling health, reason := .slowStart, slowStart := true,
             nextRise := now + settings.settle }
  else s

def cut (running : Int) (s : BuildLimit) : Int :=
  max 1 ⌊((min s.limit (max running 1) : Int) : ℚ) * settings.decreaseFactor⌋

def grown (s : BuildLimit) : Int :=
  min ceiling (if s.slowStart then s.limit * 2 else s.limit + settings.increaseStep)

/-- The part of `observe` behind the reset. -/
def move (health : SystemHealth) (running : Int) (now : ℚ) (s : BuildLimit) :
    BuildLimit × Bool :=
  let (reason, falls) := verdict settings health
  if falls ∧ s.nextFall ≤ now then
    ({ s with limit := cut settings running s, reason := reason, slowStart := false,
              nextFall := now + settings.settle, nextRise := now + settings.settle }, false)
  else if reason ≠ .steady then ({ s with reason := reason }, false)
  else
    let s := { s with reason := if s.slowStart then .slowStart else .steady }
    if running < s.limit ∨ ceiling ≤ s.limit ∨ now < s.nextRise then (s, false)
    else
      ({ s with limit := grown settings ceiling s, nextRise := now + settings.settle }, true)

/-- The health that a limit acts on. -/
def monitored (x : Sample) : Option SystemHealth :=
  x.health.filter fun health => settings.enabled && health.hasSignal

/-- `observe`: the limit after one sample, and whether it rose. -/
def observe (x : Sample) (s : BuildLimit) : BuildLimit × Bool :=
  match monitored settings x with
  | none =>
    ({ s with limit := ceiling, reason := .unmonitored, sampledAt := none },
      decide (s.limit < ceiling))
  | some health =>
    move settings ceiling health x.running x.now
      { reset settings ceiling health x.now s with sampledAt := some x.now }

def after (xs : List Sample) : BuildLimit :=
  xs.foldl (fun s x => (observe settings ceiling x s).1) (newLimit ceiling)

end Controller

/-! ## What a sample can do -/

section Steps

variable {settings : PressureSettings} {ceiling : Int}

/-- How a monitored sample moves the limit, and what it answers. -/
inductive Move (settings : PressureSettings) (ceiling running : Int) (now : ℚ) (s t : BuildLimit) :
    Bool → Prop
  | fall (due : s.nextFall ≤ now) (limit : t.limit = cut settings running s)
      (nextFall : t.nextFall = now + settings.settle)
      (nextRise : t.nextRise = now + settings.settle) : Move settings ceiling running now s t false
  | hold (limit : t.limit = s.limit) (nextFall : t.nextFall = s.nextFall)
      (nextRise : t.nextRise = s.nextRise) : Move settings ceiling running now s t false
  | rise (due : s.nextRise ≤ now) (room : s.limit < ceiling)
      (limit : t.limit = grown settings ceiling s) (nextFall : t.nextFall = s.nextFall)
      (nextRise : t.nextRise = now + settings.settle) : Move settings ceiling running now s t true

theorem verdict_ne_unmonitored (settings : PressureSettings) (health : SystemHealth) :
    (verdict settings health).1 ≠ .unmonitored := by
  simp only [verdict]
  split_ifs <;> simp

/-- **A monitored sample** falls, holds or rises, and the limit has a reason afterwards. -/
theorem move_spec (health : SystemHealth) (running : Int) (now : ℚ) (s : BuildLimit) :
    Move settings ceiling running now s (move settings ceiling health running now s).1
        (move settings ceiling health running now s).2 ∧
      (move settings ceiling health running now s).1.reason ≠ .unmonitored := by
  have hreason := verdict_ne_unmonitored settings health
  rcases hverdict : verdict settings health with ⟨reason, falls⟩
  rw [hverdict] at hreason
  simp only [move, hverdict]
  by_cases hfall : falls = true ∧ s.nextFall ≤ now
  · rw [if_pos hfall]
    exact ⟨.fall hfall.2 rfl rfl rfl, hreason⟩
  · rw [if_neg hfall]
    by_cases hsteady : reason ≠ .steady
    · rw [if_pos hsteady]
      exact ⟨.hold rfl rfl rfl, hreason⟩
    · rw [if_neg hsteady]
      have hslow : (if s.slowStart = true then LimitReason.slowStart else .steady) ≠
          .unmonitored := by
        split_ifs <;> simp
      by_cases hstay : running < s.limit ∨ ceiling ≤ s.limit ∨ now < s.nextRise
      · rw [if_pos hstay]
        exact ⟨.hold rfl rfl rfl, hslow⟩
      · rw [if_neg hstay]
        simp only [not_or, not_lt, not_le] at hstay
        exact ⟨.rise hstay.2.2 hstay.2.1 rfl rfl rfl, hslow⟩

/-- The state that a monitored sample moves. -/
def start (settings : PressureSettings) (ceiling : Int) (health : SystemHealth) (x : Sample)
    (s : BuildLimit) : BuildLimit :=
  { reset settings ceiling health x.now s with sampledAt := some x.now }

variable {s : BuildLimit} {x : Sample} {health : SystemHealth} {t : ℚ}

theorem observe_of_monitored (h : monitored settings x = some health) (s : BuildLimit) :
    observe settings ceiling x s =
      move settings ceiling health x.running x.now (start settings ceiling health x s) := by
  simp only [observe, h, start]

theorem observe_of_silent (h : monitored settings x = none) (s : BuildLimit) :
    observe settings ceiling x s =
      ({ s with limit := ceiling, reason := .unmonitored, sampledAt := none },
        decide (s.limit < ceiling)) := by
  simp only [observe, h]

theorem start_of_monitored (h : s.reason ≠ .unmonitored) :
    start settings ceiling health x s = { s with sampledAt := some x.now } := by
  rw [start, reset, if_neg h]

/-! ## The range -/

/-- Settings under which the limit moves the way it is meant to. -/
structure Sane (settings : PressureSettings) : Prop where
  factor_pos : 0 < settings.decreaseFactor
  factor_le : settings.decreaseFactor ≤ 1
  step : 1 ≤ settings.increaseStep
  settle : 0 < settings.settle

/-- The limit is between one and the ceiling, and at the ceiling where nothing is monitored. -/
structure InRange (ceiling : Int) (s : BuildLimit) : Prop where
  low : 1 ≤ s.limit
  high : s.limit ≤ ceiling
  silent : s.reason = .unmonitored → s.limit = ceiling

theorem inRange_newLimit (hceiling : 1 ≤ ceiling) : InRange ceiling (newLimit ceiling) :=
  ⟨hceiling, le_rfl, fun _ => rfl⟩

theorem initial_bounds (settings : PressureSettings) (hceiling : 1 ≤ ceiling)
    (health : SystemHealth) :
    1 ≤ initial settings ceiling health ∧ initial settings ceiling health ≤ ceiling :=
  ⟨le_max_left _ _, max_le hceiling (min_le_left _ _)⟩

theorem cut_bounds (hsane : Sane settings) (hlow : 1 ≤ s.limit) (running : Int) :
    1 ≤ cut settings running s ∧ cut settings running s ≤ s.limit := by
  refine ⟨le_max_left _ _, max_le hlow ?_⟩
  have hcast : (0 : ℚ) ≤ ((min s.limit (max running 1) : Int) : ℚ) := by
    exact_mod_cast (by omega : (0 : Int) ≤ min s.limit (max running 1))
  calc ⌊((min s.limit (max running 1) : Int) : ℚ) * settings.decreaseFactor⌋
      ≤ ⌊((min s.limit (max running 1) : Int) : ℚ)⌋ :=
        Int.floor_le_floor (mul_le_of_le_one_right hcast hsane.factor_le)
    _ = min s.limit (max running 1) := Int.floor_intCast _
    _ ≤ s.limit := min_le_left _ _

theorem grown_bounds (hsane : Sane settings) (hlow : 1 ≤ s.limit) (hroom : s.limit < ceiling) :
    s.limit < grown settings ceiling s ∧ grown settings ceiling s ≤ ceiling := by
  have hstep := hsane.step
  refine ⟨lt_min hroom ?_, min_le_left _ _⟩
  split_ifs <;> omega

theorem start_bounds (settings : PressureSettings) (hceiling : 1 ≤ ceiling)
    (hs : InRange ceiling s) (health : SystemHealth) (x : Sample) :
    1 ≤ (start settings ceiling health x s).limit ∧
      (start settings ceiling health x s).limit ≤ s.limit := by
  by_cases hreason : s.reason = .unmonitored
  · have hinitial := initial_bounds settings hceiling health
    have hlimit : (start settings ceiling health x s).limit = initial settings ceiling health := by
      simp only [start, reset, if_pos hreason]
    rw [hlimit, hs.silent hreason]
    exact hinitial
  · rw [start_of_monitored hreason]
    exact ⟨hs.low, le_rfl⟩

theorem Move.bounds {running : Int} {now : ℚ} {s t : BuildLimit} {rose : Bool}
    (hsane : Sane settings) (h : Move settings ceiling running now s t rose)
    (hlow : 1 ≤ s.limit) (hhigh : s.limit ≤ ceiling) :
    1 ≤ t.limit ∧ t.limit ≤ ceiling ∧ (rose = true ↔ s.limit < t.limit) := by
  cases h with
  | fall due limit nextFall nextRise =>
    obtain ⟨hone, hdown⟩ := cut_bounds hsane hlow running
    rw [limit]
    exact ⟨hone, hdown.trans hhigh, by simpa using hdown⟩
  | hold limit nextFall nextRise =>
    rw [limit]
    exact ⟨hlow, hhigh, by simp⟩
  | rise due room limit nextFall nextRise =>
    obtain ⟨hup, hceil⟩ := grown_bounds hsane hlow room
    rw [limit]
    exact ⟨by omega, hceil, by simpa using hup⟩

theorem move_observe (ceiling : Int) (h : monitored settings x = some health) (s : BuildLimit) :
    Move settings ceiling x.running x.now (start settings ceiling health x s)
        (observe settings ceiling x s).1 (observe settings ceiling x s).2 ∧
      (observe settings ceiling x s).1.reason ≠ .unmonitored := by
  rw [observe_of_monitored h]
  exact move_spec health x.running x.now _

theorem inRange_observe (hceiling : 1 ≤ ceiling) (hsane : Sane settings)
    (hs : InRange ceiling s) (x : Sample) : InRange ceiling (observe settings ceiling x s).1 := by
  cases hx : monitored settings x with
  | none =>
    rw [observe_of_silent hx]
    exact ⟨hceiling, le_rfl, fun _ => rfl⟩
  | some health =>
    obtain ⟨hmove, hreason⟩ := move_observe ceiling hx s
    obtain ⟨hone, hdown⟩ := start_bounds settings hceiling hs health x
    obtain ⟨hlow, hhigh, -⟩ := hmove.bounds hsane hone (hdown.trans hs.high)
    exact ⟨hlow, hhigh, fun h => absurd h hreason⟩

/-- **The answer of a sample** says whether the limit is higher than before.  A reset goes
down, and puts the next rise off. -/
theorem observe_rose_iff (hceiling : 1 ≤ ceiling) (hsane : Sane settings)
    (hs : InRange ceiling s) (x : Sample) : (observe settings ceiling x s).2 = true ↔
      s.limit < (observe settings ceiling x s).1.limit := by
  cases hx : monitored settings x with
  | none => simp [observe_of_silent hx]
  | some health =>
    obtain ⟨hmove, -⟩ := move_observe ceiling hx s
    obtain ⟨hone, hdown⟩ := start_bounds settings hceiling hs health x
    obtain ⟨-, hhigh, hrose⟩ := hmove.bounds hsane hone (hdown.trans hs.high)
    by_cases hreason : s.reason = .unmonitored
    · rw [hs.silent hreason]
      refine iff_of_false (fun h => ?_) (not_lt.2 hhigh)
      rw [h] at hmove
      cases hmove with
      | rise due room limit nextFall nextRise =>
        have hnext : (start settings ceiling health x s).nextRise =
            x.now + settings.settle := by
          simp only [start, reset, if_pos hreason]
        have hsettle := hsane.settle
        linarith
    · rw [hrose, start_of_monitored hreason]

/-! ## The distance between two moves -/

/-- The limit goes up with this sample, a reset aside. -/
def Rises (settings : PressureSettings) (ceiling : Int) (x : Sample) (s : BuildLimit) : Prop :=
  ∃ health, monitored settings x = some health ∧
    (reset settings ceiling health x.now s).limit < (observe settings ceiling x s).1.limit

/-- The limit goes down with this sample, a reset aside. -/
def Falls (settings : PressureSettings) (ceiling : Int) (x : Sample) (s : BuildLimit) : Prop :=
  ∃ health, monitored settings x = some health ∧
    (observe settings ceiling x s).1.limit < (reset settings ceiling health x.now s).limit

/-- The limit is monitored, and does not rise before `t`. -/
def NoRiseBefore (t : ℚ) (s : BuildLimit) : Prop := s.reason ≠ .unmonitored ∧ t ≤ s.nextRise

/-- The limit is monitored, and does not fall before `t`. -/
def NoFallBefore (t : ℚ) (s : BuildLimit) : Prop := s.reason ≠ .unmonitored ∧ t ≤ s.nextFall

section Moves

variable {running : Int} {now t : ℚ} {s s' : BuildLimit} {rose : Bool}

/-- No move puts a rise or a fall on. -/
theorem Move.le_next (h : Move settings ceiling running now s s' rose)
    (ht : t ≤ now + settings.settle) :
    (t ≤ s.nextRise → t ≤ s'.nextRise) ∧ (t ≤ s.nextFall → t ≤ s'.nextFall) := by
  cases h with
  | fall due limit nextFall nextRise =>
    exact ⟨fun _ => by rwa [nextRise], fun _ => by rwa [nextFall]⟩
  | hold limit nextFall nextRise => exact ⟨fun h => by rwa [nextRise], fun h => by rwa [nextFall]⟩
  | rise due room limit nextFall nextRise =>
    exact ⟨fun _ => by rwa [nextRise], fun h => by rwa [nextFall]⟩

theorem Move.of_lt (hsane : Sane settings) (h : Move settings ceiling running now s s' rose)
    (hlow : 1 ≤ s.limit) (hup : s.limit < s'.limit) :
    s.nextRise ≤ now ∧ s'.nextRise = now + settings.settle := by
  cases h with
  | fall due limit nextFall nextRise =>
    have hdown := (cut_bounds hsane hlow running).2
    omega
  | hold limit nextFall nextRise => omega
  | rise due room limit nextFall nextRise => exact ⟨due, nextRise⟩

theorem Move.of_gt (hsane : Sane settings) (h : Move settings ceiling running now s s' rose)
    (hlow : 1 ≤ s.limit) (hdown : s'.limit < s.limit) :
    s.nextFall ≤ now ∧ s'.nextFall = now + settings.settle ∧
      s'.nextRise = now + settings.settle := by
  cases h with
  | fall due limit nextFall nextRise => exact ⟨due, nextFall, nextRise⟩
  | hold limit nextFall nextRise => omega
  | rise due room limit nextFall nextRise =>
    have hup := (grown_bounds hsane hlow room).1
    omega

end Moves

theorem le_next_observe (hreason : s.reason ≠ .unmonitored)
    (hx : (monitored settings x).isSome = true) (ht : t ≤ x.now + settings.settle) :
    (t ≤ s.nextRise → NoRiseBefore t (observe settings ceiling x s).1) ∧
      (t ≤ s.nextFall → NoFallBefore t (observe settings ceiling x s).1) := by
  obtain ⟨health, hhealth⟩ := Option.isSome_iff_exists.1 hx
  obtain ⟨hmove, hreason'⟩ := move_observe ceiling hhealth s
  rw [start_of_monitored hreason] at hmove
  obtain ⟨hrise, hfall⟩ := hmove.le_next ht
  exact ⟨fun h => ⟨hreason', hrise h⟩, fun h => ⟨hreason', hfall h⟩⟩

theorem Rises.spec (hceiling : 1 ≤ ceiling) (hsane : Sane settings)
    (hs : InRange ceiling s) (h : Rises settings ceiling x s) :
    (s.reason ≠ .unmonitored → s.nextRise ≤ x.now) ∧
      NoRiseBefore (x.now + settings.settle) (observe settings ceiling x s).1 := by
  obtain ⟨health, hhealth, hup⟩ := h
  obtain ⟨hmove, hreason⟩ := move_observe ceiling hhealth s
  have hlow := (start_bounds settings hceiling hs health x).1
  obtain ⟨hdue, hnext⟩ := hmove.of_lt hsane hlow hup
  refine ⟨fun h => ?_, hreason, hnext.ge⟩
  rw [start_of_monitored h] at hdue
  exact hdue

theorem Falls.spec (hceiling : 1 ≤ ceiling) (hsane : Sane settings)
    (hs : InRange ceiling s) (h : Falls settings ceiling x s) :
    (s.reason ≠ .unmonitored → s.nextFall ≤ x.now) ∧
      NoFallBefore (x.now + settings.settle) (observe settings ceiling x s).1 ∧
      NoRiseBefore (x.now + settings.settle) (observe settings ceiling x s).1 := by
  obtain ⟨health, hhealth, hdown⟩ := h
  obtain ⟨hmove, hreason⟩ := move_observe ceiling hhealth s
  have hlow := (start_bounds settings hceiling hs health x).1
  obtain ⟨hdue, hfall, hrise⟩ := hmove.of_gt hsane hlow hdown
  refine ⟨fun h => ?_, ⟨hreason, hfall.ge⟩, hreason, hrise.ge⟩
  rw [start_of_monitored h] at hdue
  exact hdue

/-! ## Histories -/

def afterFrom (settings : PressureSettings) (ceiling : Int) (s : BuildLimit) (xs : List Sample) :
    BuildLimit :=
  xs.foldl (fun s x => (observe settings ceiling x s).1) s

theorem after_append (xs ys : List Sample) :
    after settings ceiling (xs ++ ys) = afterFrom settings ceiling (after settings ceiling xs) ys :=
  List.foldl_append

theorem inRange_after (hceiling : 1 ≤ ceiling) (hsane : Sane settings) (xs : List Sample) :
    InRange ceiling (after settings ceiling xs) := by
  induction xs using List.reverseRecOn with
  | nil => exact inRange_newLimit hceiling
  | append_singleton xs x ih =>
    rw [after_append]
    exact inRange_observe hceiling hsane ih x

theorem stretch_induction {P : BuildLimit → Prop}
    (hstep : ∀ s x, P s → (monitored settings x).isSome = true → t ≤ x.now + settings.settle →
      P (observe settings ceiling x s).1) (hs : P s) {xs : List Sample}
    (hmonitored : ∀ x ∈ xs, (monitored settings x).isSome = true)
    (htimes : ∀ x ∈ xs, t ≤ x.now + settings.settle) : P (afterFrom settings ceiling s xs) := by
  induction xs generalizing s with
  | nil => exact hs
  | cons x xs ih =>
    rw [List.forall_mem_cons] at hmonitored htimes
    exact ih (hstep s x hs hmonitored.1 htimes.1) hmonitored.2 htimes.2

/-- **What the controller keeps** over a history of samples. -/
structure Controlled (settings : PressureSettings) (ceiling : Int) (xs : List Sample) : Prop where
  /-- The limit is between one and the ceiling at every moment. -/
  range : ∀ pre, pre <+: xs →
    1 ≤ (after settings ceiling pre).limit ∧ (after settings ceiling pre).limit ≤ ceiling
  /-- The answer of a sample says whether the limit is higher than before it. -/
  answers : ∀ pre x, pre ++ [x] <+: xs →
    ((observe settings ceiling x (after settings ceiling pre)).2 = true ↔
      (after settings ceiling pre).limit < (after settings ceiling (pre ++ [x])).limit)
  /-- In a stretch of monitored samples the moves are the settle time apart. -/
  spaced : ∀ pre x mid y, pre ++ x :: mid ++ [y] <+: xs →
    (∀ z ∈ x :: mid ++ [y], (monitored settings z).isSome = true) →
    (Rises settings ceiling x (after settings ceiling pre) →
      Rises settings ceiling y (after settings ceiling (pre ++ x :: mid)) →
        x.now + settings.settle ≤ y.now) ∧
    (Falls settings ceiling x (after settings ceiling pre) →
      Falls settings ceiling y (after settings ceiling (pre ++ x :: mid)) →
        x.now + settings.settle ≤ y.now) ∧
    (Falls settings ceiling x (after settings ceiling pre) →
      Rises settings ceiling y (after settings ceiling (pre ++ x :: mid)) →
        x.now + settings.settle ≤ y.now)

/-- **The controller keeps the limit in range, answers for its rises and lets every move
settle**, over every history of samples in the order of their times. -/
theorem controlled_after (settings : PressureSettings) (ceiling : Int) (hceiling : 1 ≤ ceiling)
    (hsane : Sane settings) (xs : List Sample)
    (htimes : xs.Pairwise fun x y => x.now ≤ y.now) : Controlled settings ceiling xs := by
  have hrange : ∀ pre, InRange ceiling (after settings ceiling pre) :=
    fun pre => inRange_after hceiling hsane pre
  constructor
  case range =>
    intro pre _
    exact ⟨(hrange pre).low, (hrange pre).high⟩
  case answers =>
    intro pre x _
    rw [after_append]
    exact observe_rose_iff hceiling hsane (hrange pre) x
  case spaced =>
    intro pre x mid y hfront hmonitored
    have hmid : ∀ z ∈ mid, (monitored settings z).isSome = true := fun z hz =>
      hmonitored z (by simp [hz])
    -- every sample of the stretch comes at the time of `x` or later
    have hlater : ∀ z ∈ mid, x.now + settings.settle ≤ z.now + settings.settle := by
      intro z hz
      have hpairs := htimes.sublist hfront.sublist
      rw [List.append_assoc] at hpairs
      have hle : x.now ≤ z.now := (List.pairwise_cons.1 (List.pairwise_append.1 hpairs).2.1).1 z
        (List.mem_append_left _ hz)
      linarith
    have hafter : after settings ceiling (pre ++ x :: mid) =
        afterFrom settings ceiling
          (observe settings ceiling x (after settings ceiling pre)).1 mid := after_append _ _
    have hrise : NoRiseBefore (x.now + settings.settle)
          (observe settings ceiling x (after settings ceiling pre)).1 →
        Rises settings ceiling y (after settings ceiling (pre ++ x :: mid)) →
          x.now + settings.settle ≤ y.now := by
      intro hoff hy
      have hstill : NoRiseBefore (x.now + settings.settle)
          (after settings ceiling (pre ++ x :: mid)) := by
        rw [hafter]
        exact stretch_induction (fun _ _ h hz ht => (le_next_observe h.1 hz ht).1 h.2) hoff hmid
          hlater
      exact hstill.2.trans ((hy.spec hceiling hsane (hrange _)).1 hstill.1)
    refine ⟨fun hx => hrise (hx.spec hceiling hsane (hrange pre)).2, fun hx hy => ?_,
      fun hx => hrise (hx.spec hceiling hsane (hrange pre)).2.2⟩
    have hstill : NoFallBefore (x.now + settings.settle)
        (after settings ceiling (pre ++ x :: mid)) := by
      rw [hafter]
      exact stretch_induction (fun _ _ h hz ht => (le_next_observe h.1 hz ht).2 h.2)
        (hx.spec hceiling hsane (hrange pre)).2.1 hmid hlater
    exact hstill.2.trans ((hy.spec hceiling hsane (hrange _)).1 hstill.1)

end Steps

theorem sane_default : Sane {} := by
  constructor <;> norm_num

/-- Fourteen seconds of a busy host with four cores that may run eight builds. -/
def busyHost : List Sample :=
  [⟨some { load1 := some 1, cores := some 4 }, 4, 0⟩,
    ⟨some { load1 := some 1, cores := some 4 }, 4, 12⟩,
    ⟨some { psi := some { memory := ⟨0, 5⟩ } }, 8, 14⟩]

theorem controlled_busyHost : (after {} 8 busyHost).limit = 4 ∧ Controlled {} 8 busyHost :=
  ⟨by decide +kernel, controlled_after {} 8 (by decide) sane_default busyHost (by
    simp only [busyHost, List.pairwise_cons, List.mem_cons, List.not_mem_nil, or_false]
    norm_num)⟩

end Pynixd.Pressure
