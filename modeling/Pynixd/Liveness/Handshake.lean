import Pynixd.Liveness.TempRoots

/-!
# A temporary root and the collectors

`TempRoots.add` of `pynixd/temp_roots.py` holds a path against the collectors of Nix.  While no
collector runs, the path is recorded under a shared lock of `gc.lock`, which a collector needs for
itself; while one runs, the path goes over the socket of the collector, and is recorded behind
the answer.  A collector runs with the lock in its hands, reads the directory once, and keeps what
it acknowledges.

* `sound_iff_answered` — every call that returns leaves its path held **exactly when**, at each
  record behind an answer, the collectors that run know the path.
-/

namespace Pynixd.Handshake

open Runs Liveness

abbrev Root := String

inductive Stage where
  | waiting
  | running
  | ended
  deriving DecidableEq

structure Collector where
  stage : Stage
  /-- The records of the session that it found, once it read the directory. -/
  read : Option (List Root)
  /-- The paths that it took over its socket. -/
  acked : List Root
  deriving DecidableEq

/-- Where a call of `add` stands.  A round is one of `_add_or_raise`; there is none on the event
loop. -/
inductive Phase where
  | idle
  /-- `_ensure_file` is next. -/
  | ensuring (root : Root) (round : Option Nat)
  /-- `_hold_the_gc_lock` is next. -/
  | locking (root : Root) (round : Option Nat)
  /-- The shared lock is held, and the record is next. -/
  | writing (root : Root)
  /-- The record is written, and the lock goes next. -/
  | unlocking (root : Root)
  /-- `_tell_the_collector` is next. -/
  | telling (root : Root) (round : Nat)
  /-- The path is sent, and the answer is awaited. -/
  | asking (root : Root) (round : Nat)
  /-- The collector answered, and the record is next. -/
  | told (root : Root)
  | sleeping (root : Root) (round : Nat)
  | returned (root : Root)
  /-- `RuntimeError`: the collector did not take the path. -/
  | raised
  deriving DecidableEq

/-- The call goes on, and holds no lock. -/
def Phase.isPending : Phase → Bool
  | ensuring .. | locking .. | telling .. | asking .. | told _ | sleeping .. => true
  | _ => false

/-- A session with its file, and the collectors. -/
structure System where
  /-- The records of the session's file, once there is one. -/
  file : Option (List Root)
  disabled : Bool
  /-- The collector that the socket is connected to. -/
  socket : Option Nat
  /-- The session holds the shared lock. -/
  shared : Bool
  phase : Phase
  collectors : List Collector
  deriving DecidableEq

def start : System := ⟨none, false, none, false, .idle, []⟩

namespace System

def records (s : System) : List Root := s.file.getD []

def collecting (s : System) : Bool := s.collectors.any (·.stage = .running)

def write (s : System) (root : Root) : System := { s with file := some (s.records ++ [root]) }

/-- The next system call of `add`. -/
def go (s : System) : System :=
  match s.phase with
  | .ensuring root round => { s with file := some s.records, phase := .locking root round }
  | .locking root round =>
    if s.collecting then
      match round with
      | none => { s with phase := .telling root 0 }
      | some round => { s with phase := .sleeping root round }
    else { s with shared := true, phase := .writing root }
  | .writing root => { s.write root with phase := .unlocking root }
  | .unlocking root => { s with shared := false, phase := .returned root }
  | .telling root round =>
    -- a socket of an earlier call is used again
    match s.socket with
    | some _ => { s with phase := .asking root round }
    | none => s
  | .told root => { s.write root with phase := .returned root }
  | .sleeping root round =>
    if round + 1 < retryLimit then { s with phase := .telling root (round + 1) }
    else { s with phase := .raised }
  | _ => s

/-- `add`, up to its first system call. -/
def add (s : System) (root : Root) : System :=
  match s.phase with
  | .idle | .returned _ | .raised =>
    if s.disabled then { s with phase := .returned root }
    else { s with phase := .ensuring root none }
  | _ => s

/-- An `OSError` that `add` does not expect: the lock is given back, and the session holds
nothing from now on. -/
def disable (s : System) : System :=
  match s.phase with
  | .ensuring root _ | .locking root _ | .writing root | .unlocking root | .telling root _
  | .told root => { s with shared := false, disabled := true, phase := .returned root }
  | _ => s

/-- `connect` succeeds, and the path is sent. -/
def connect (s : System) (i : Nat) : System :=
  match s.phase, s.socket with
  | .telling root round, none =>
    if (s.collectors[i]?).any (·.stage = .running) then
      { s with socket := some i, phase := .asking root round }
    else s
  | _, _ => s

/-- There is no socket, or nobody behind it. -/
def refused (s : System) : System :=
  match s.phase, s.socket with
  | .telling root round, none => { s with phase := .ensuring root (some round) }
  | _, _ => s

/-- The collector behind the socket takes the path, and answers. -/
def ack (s : System) : System :=
  match s.phase, s.socket with
  | .asking root _, some i =>
    if (s.collectors[i]?).any (·.stage = .running) then
      { s with
        collectors := s.collectors.modify i fun c => { c with acked := c.acked ++ [root] }
        phase := .told root }
    else s
  | _, _ => s

/-- Anything but the answer. -/
def hangUp (s : System) : System :=
  match s.phase with
  | .asking root round => { s with socket := none, phase := .ensuring root (some round) }
  | _ => s

end System

/-- What happens.  An event that does not fit changes nothing. -/
inductive Event where
  | add (root : Root)
  | go
  | osError
  | connects (i : Nat)
  | refused
  | acks
  | hangsUp
  | starts
  | locks (i : Nat)
  | reads (i : Nat)
  | ends (i : Nat)
  deriving DecidableEq

/-- One collector moves on from a stage. -/
def System.move (s : System) (i : Nat) (stage : Stage) (f : Collector → Collector) : System :=
  { s with collectors := s.collectors.modify i fun c => if c.stage = stage then f c else c }

def step (s : System) : Event → System
  | .add root => s.add root
  | .go => s.go
  | .osError => s.disable
  | .connects i => s.connect i
  | .refused => s.refused
  | .acks => s.ack
  | .hangsUp => s.hangUp
  | .starts => { s with collectors := s.collectors ++ [⟨.waiting, none, []⟩] }
  | .locks i =>
    if s.shared || s.collecting then s
    else s.move i .waiting fun c => { c with stage := .running }
  | .reads i =>
    s.move i .running fun c => { c with read := some (c.read.getD s.records) }
  | .ends i => s.move i .running fun c => { c with stage := .ended }

abbrev steps : System → Event → Option System := fun s e => some (step s e)

/-- A collector knows a path: it found the record when it read the directory, if it has read it
already, or it took the path over its socket. -/
def Collector.Knows (c : Collector) (root : Root) : Prop :=
  (∀ seen ∈ c.read, root ∈ seen) ∨ root ∈ c.acked

namespace System

/-- **The record is there, and no running collector has missed it.** -/
def Held (s : System) (root : Root) : Prop :=
  root ∈ s.records ∧ ∀ c ∈ s.collectors, c.stage = .running → c.Knows root

/-- A call that has returned, of a session that is not disabled, holds its path. -/
def Sound (s : System) : Prop :=
  ∀ root, s.phase = .returned root → s.disabled = false → s.Held root

/-- Behind an answer the record is written while every running collector knows the path. -/
def Answered (s : System) : Event → Prop
  | .go => ∀ root, s.phase = .told root →
      ∀ c ∈ s.collectors, c.stage = .running → c.Knows root
  | _ => True

/-! ## What every run keeps -/

/-- What a phase says about the session. -/
def Fits (s : System) : Phase → Prop
  | .ensuring .. | .locking .. | .telling .. | .asking .. | .told _ | .sleeping .. =>
    s.disabled = false
  | .writing _ => s.disabled = false ∧ s.shared = true
  | .unlocking root => s.disabled = false ∧ s.shared = true ∧ root ∈ s.records
  | .idle | .returned _ | .raised => True

/-- What holds in every state, whatever the collectors do. -/
structure Inv (s : System) : Prop where
  fits : s.Fits s.phase
  /-- A shared lock keeps the collectors waiting. -/
  excluded : s.shared = true → ∀ c ∈ s.collectors, c.stage ≠ .running
  unread : ∀ c ∈ s.collectors, c.stage = .waiting → c.read = none

variable {s t : System}

theorem fits_iff_of_pending {phase : Phase} (h : phase.isPending = true) :
    s.Fits phase ↔ s.disabled = false := by
  cases phase <;> first | exact Iff.rfl | cases h

theorem not_running_of_not_collecting (h : s.collecting = false) :
    ∀ c ∈ s.collectors, c.stage ≠ .running := by
  rw [collecting, List.any_eq_false] at h
  exact fun c hc hrunning => h c hc (decide_eq_true hrunning)

theorem Inv.of_session (h : s.Inv) (hcollectors : t.collectors = s.collectors)
    (hshared : t.shared = true → s.shared = true ∨ s.collecting = false)
    (hfits : t.Fits t.phase) : t.Inv where
  fits := hfits
  excluded := by
    intro hlock
    rw [hcollectors]
    rcases hshared hlock with hlock | hnone
    · exact h.excluded hlock
    · exact not_running_of_not_collecting hnone
  unread := hcollectors ▸ h.unread

theorem sound_of_pending (h : ∀ root, t.phase ≠ .returned root) : t.Sound :=
  fun root hphase => absurd hphase (h root)

/-- What a step has to show: it keeps the invariant, and stays sound exactly when it is
answered. -/
def Keeps (s : System) (e : Event) : Prop :=
  (step s e).Inv ∧ (s.Sound → ((step s e).Sound ↔ s.Answered e))

theorem keeps_of_pending {e : Event} (h : s.Inv) (hstep : step s e = t)
    (hanswered : s.Answered e) (hcollectors : t.collectors = s.collectors)
    (hshared : t.shared = true → s.shared = true ∨ s.collecting = false)
    (hfits : t.Fits t.phase) (hpending : ∀ root, t.phase ≠ .returned root) : s.Keeps e := by
  unfold Keeps
  rw [hstep]
  exact ⟨h.of_session hcollectors hshared hfits, fun _ =>
    iff_of_true (sound_of_pending hpending) hanswered⟩

theorem keeps_of_eq {e : Event} (h : s.Inv) (hstep : step s e = s)
    (hanswered : s.Answered e) : s.Keeps e := by
  unfold Keeps
  rw [hstep]
  exact ⟨h, fun hs => iff_of_true hs hanswered⟩

theorem keeps_turn {e : Event} (h : s.Inv) (hanswered : s.Answered e)
    (hcases : step s e = s ∨ ∃ phase socket, s.phase.isPending = true ∧ phase.isPending = true ∧
      step s e = { s with phase := phase, socket := socket }) : s.Keeps e := by
  rcases hcases with hstep | ⟨phase, socket, hold, hnew, hstep⟩
  · exact keeps_of_eq h hstep hanswered
  · refine keeps_of_pending h hstep hanswered rfl .inl ?_ ?_
    · exact (fits_iff_of_pending hnew).2 ((fits_iff_of_pending hold).1 h.fits)
    · rintro root rfl
      cases hnew

theorem answered_go_of_ne (h : ∀ root, s.phase ≠ .told root) : s.Answered .go :=
  fun root hphase => absurd hphase (h root)

theorem mem_records_write (s : System) (root : Root) : root ∈ (s.write root).records := by
  simp [records, write]

/-- **The record behind an answer** is held exactly when the running collectors know the path. -/
theorem keeps_go_told {root : Root} (h : s.Inv) (hphase : s.phase = .told root) : s.Keeps .go := by
  have hfits := h.fits
  rw [hphase] at hfits
  have hgo : step s .go = { s.write root with phase := .returned root } := by
    simp only [step, go, hphase]
  unfold Keeps
  rw [hgo]
  refine ⟨h.of_session rfl .inl trivial, fun _ => ?_⟩
  constructor
  · intro hsound root' hroot
    rw [hphase] at hroot
    cases hroot
    exact (hsound root rfl hfits).2
  · rintro hanswered root' ⟨⟩ -
    exact ⟨mem_records_write s root, hanswered root hphase⟩

/-- **The record under the shared lock** is held: no collector runs until the lock goes. -/
theorem keeps_go_unlocking {root : Root} (h : s.Inv) (hphase : s.phase = .unlocking root) :
    s.Keeps .go := by
  have hfits := h.fits
  rw [hphase] at hfits
  obtain ⟨-, hshared, hrecord⟩ := hfits
  have hgo : step s .go = { s with shared := false, phase := .returned root } := by
    simp only [step, go, hphase]
  unfold Keeps
  rw [hgo]
  refine ⟨h.of_session rfl nofun trivial, fun _ =>
    iff_of_true ?_ (answered_go_of_ne (by simp [hphase]))⟩
  rintro root' ⟨⟩ -
  exact ⟨hrecord, fun c hc hrunning => absurd hrunning (h.excluded hshared c hc)⟩

theorem keeps_go (h : s.Inv) : s.Keeps .go := by
  have hfits := h.fits
  by_cases htold : ∃ root, s.phase = .told root
  · obtain ⟨root, hphase⟩ := htold
    exact keeps_go_told h hphase
  have hanswered : s.Answered .go := answered_go_of_ne fun root hroot => htold ⟨root, hroot⟩
  cases hphase : s.phase with
  | ensuring root round =>
    rw [hphase] at hfits
    have hgo : step s .go = { s with file := some s.records, phase := .locking root round } := by
      simp only [step, go, hphase]
    exact keeps_of_pending h hgo hanswered rfl .inl hfits fun _ => Phase.noConfusion
  | locking root round =>
    rw [hphase] at hfits
    by_cases hcollecting : s.collecting = true
    · refine keeps_turn h hanswered (.inr ?_)
      simp only [step, go, hphase, hcollecting, if_true]
      cases round with
      | none => exact ⟨.telling root 0, s.socket, rfl, rfl, rfl⟩
      | some round => exact ⟨.sleeping root round, s.socket, rfl, rfl, rfl⟩
    · rw [Bool.not_eq_true] at hcollecting
      have hgo : step s .go = { s with shared := true, phase := .writing root } := by
        simp only [step, go, hphase, hcollecting, Bool.false_eq_true, if_false]
      exact keeps_of_pending h hgo hanswered rfl (fun _ => .inr hcollecting) ⟨hfits, rfl⟩
        fun _ => Phase.noConfusion
  | writing root =>
    rw [hphase] at hfits
    have hgo : step s .go = { s.write root with phase := .unlocking root } := by
      simp only [step, go, hphase]
    exact keeps_of_pending h hgo hanswered rfl .inl
      ⟨hfits.1, hfits.2, mem_records_write s root⟩ fun _ => Phase.noConfusion
  | unlocking root => exact keeps_go_unlocking h hphase
  | telling root round =>
    refine keeps_turn h hanswered ?_
    simp only [step, go, hphase]
    split
    · exact .inr ⟨.asking root round, s.socket, rfl, rfl, rfl⟩
    · exact .inl rfl
  | told root => exact absurd ⟨root, hphase⟩ htold
  | sleeping root round =>
    by_cases hround : round + 1 < retryLimit
    · refine keeps_turn h hanswered (.inr ⟨.telling root (round + 1), s.socket, ?_, rfl, ?_⟩)
      · rw [hphase]
        rfl
      · simp only [step, go, hphase, hround, if_true]
    · have hgo : step s .go = { s with phase := .raised } := by
        simp only [step, go, hphase, hround, if_false]
      exact keeps_of_pending h hgo hanswered rfl .inl trivial fun _ => Phase.noConfusion
  | idle => exact keeps_of_eq h (by simp only [step, go, hphase]) hanswered
  | asking root round => exact keeps_of_eq h (by simp only [step, go, hphase]) hanswered
  | returned root => exact keeps_of_eq h (by simp only [step, go, hphase]) hanswered
  | raised => exact keeps_of_eq h (by simp only [step, go, hphase]) hanswered

theorem keeps_add (h : s.Inv) (root : Root) : s.Keeps (.add root) := by
  have hbegin : (step s (.add root) = s) ∨
      (s.disabled = true ∧ step s (.add root) = { s with phase := .returned root }) ∨
      (s.disabled = false ∧ step s (.add root) = { s with phase := .ensuring root none }) := by
    simp only [step, add]
    split
    · cases hdisabled : s.disabled <;> simp
    · cases hdisabled : s.disabled <;> simp
    · cases hdisabled : s.disabled <;> simp
    · exact .inl rfl
  rcases hbegin with hstep | ⟨hdisabled, hstep⟩ | ⟨hdisabled, hstep⟩
  · exact keeps_of_eq h hstep trivial
  · unfold Keeps
    rw [hstep]
    refine ⟨h.of_session rfl .inl trivial, fun _ => iff_of_true ?_ trivial⟩
    intro root' _ henabled
    cases hdisabled.symm.trans henabled
  · exact keeps_of_pending h hstep trivial rfl .inl hdisabled fun _ => Phase.noConfusion

theorem keeps_osError (h : s.Inv) : s.Keeps .osError := by
  have hcases : step s .osError = s ∨ ∃ root, step s .osError =
      { s with shared := false, disabled := true, phase := .returned root } := by
    simp only [step, disable]
    split
    all_goals first | exact .inr ⟨_, rfl⟩ | exact .inl rfl
  rcases hcases with hstep | ⟨root, hstep⟩
  · exact keeps_of_eq h hstep trivial
  · unfold Keeps
    rw [hstep]
    exact ⟨h.of_session rfl nofun trivial, fun _ => iff_of_true nofun trivial⟩

theorem keeps_connects (h : s.Inv) (i : Nat) : s.Keeps (.connects i) := by
  refine keeps_turn h trivial ?_
  simp only [step, connect]
  split
  next root round hphase _ =>
    split_ifs
    · exact .inr ⟨_, _, by rw [hphase]; rfl, rfl, rfl⟩
    · exact .inl rfl
  next => exact .inl rfl

theorem keeps_refused (h : s.Inv) : s.Keeps .refused := by
  refine keeps_turn h trivial ?_
  simp only [step, refused]
  split
  next root round hphase hsocket =>
    exact .inr ⟨.ensuring root (some round), s.socket, by rw [hphase]; rfl, rfl, rfl⟩
  next => exact .inl rfl

theorem keeps_hangsUp (h : s.Inv) : s.Keeps .hangsUp := by
  refine keeps_turn h trivial ?_
  simp only [step, hangUp]
  split
  next root round hphase => exact .inr ⟨_, _, by rw [hphase]; rfl, rfl, rfl⟩
  next => exact .inl rfl

/-! ## The collectors -/

theorem mem_modify {l : List Collector} {i : Nat} {f : Collector → Collector} {c : Collector}
    (h : c ∈ l.modify i f) : c ∈ l ∨ ∃ c' ∈ l, c = f c' := by
  obtain ⟨j, hj⟩ := List.mem_iff_getElem?.1 h
  rw [List.getElem?_modify] at hj
  obtain ⟨c', hc', rfl⟩ := Option.map_eq_some_iff.1 hj
  have hin := List.mem_of_getElem? hc'
  split_ifs
  · exact .inr ⟨c', hin, rfl⟩
  · exact .inl hin

theorem keeps_acks (h : s.Inv) : s.Keeps .acks := by
  have hcases : step s .acks = s ∨ ∃ i root, s.disabled = false ∧ step s .acks =
      { s with
        collectors := s.collectors.modify i fun c => { c with acked := c.acked ++ [root] }
        phase := .told root } := by
    simp only [step, ack]
    split
    next root round i hphase _ =>
      have hfits := h.fits
      rw [hphase] at hfits
      split_ifs
      · exact .inr ⟨i, root, hfits, rfl⟩
      · exact .inl rfl
    next => exact .inl rfl
  rcases hcases with hstep | ⟨i, root, hdisabled, hstep⟩
  · exact keeps_of_eq h hstep trivial
  · unfold Keeps
    rw [hstep]
    refine ⟨⟨hdisabled, fun hshared c hc => ?_, fun c hc => ?_⟩, fun _ =>
      iff_of_true (sound_of_pending fun _ => Phase.noConfusion) trivial⟩
    · rcases mem_modify hc with hold | ⟨c', hc', rfl⟩
      · exact h.excluded hshared c hold
      · exact h.excluded hshared c' hc'
    · rcases mem_modify hc with hold | ⟨c', hc', rfl⟩
      · exact h.unread c hold
      · exact h.unread c' hc'

theorem keeps_move {e : Event} (h : s.Inv) (hanswered : s.Answered e) {i : Nat}
    {stage : Stage} {f : Collector → Collector} (hstep : step s e = s.move i stage f)
    (hexcluded : ∀ c ∈ s.collectors, c.stage = stage → s.shared = true →
      (f c).stage ≠ .running)
    (hunread : ∀ c ∈ s.collectors, c.stage = stage → (f c).stage ≠ .waiting)
    (hknows : ∀ c ∈ s.collectors, c.stage = stage → (f c).stage = .running →
      ∀ root ∈ s.records, (c.stage = .running → c.Knows root) → (f c).Knows root) : s.Keeps e := by
  have hmem : ∀ c ∈ (s.move i stage f).collectors,
      c ∈ s.collectors ∨ ∃ c' ∈ s.collectors, c'.stage = stage ∧ c = f c' := by
    intro c hc
    rcases mem_modify hc with hold | ⟨c', hc', rfl⟩
    · exact .inl hold
    · split_ifs with hstage
      · exact .inr ⟨c', hc', hstage, rfl⟩
      · exact .inl hc'
  unfold Keeps
  rw [hstep]
  refine ⟨⟨h.fits, fun hshared c hc => ?_, fun c hc hwaiting => ?_⟩, fun hs =>
    iff_of_true ?_ hanswered⟩
  · rcases hmem c hc with hold | ⟨c', hc', hstage, rfl⟩
    · exact h.excluded hshared c hold
    · exact hexcluded c' hc' hstage hshared
  · rcases hmem c hc with hold | ⟨c', hc', hstage, rfl⟩
    · exact h.unread c hold hwaiting
    · exact absurd hwaiting (hunread c' hc' hstage)
  · intro root hphase hdisabled
    obtain ⟨hrecord, hall⟩ := hs root hphase hdisabled
    refine ⟨hrecord, fun c hc hrunning => ?_⟩
    rcases hmem c hc with hold | ⟨c', hc', hstage, rfl⟩
    · exact hall c hold hrunning
    · exact hknows c' hc' hstage hrunning root hrecord (hall c' hc')

theorem keeps_starts (h : s.Inv) : s.Keeps .starts := by
  have hmem : ∀ c ∈ s.collectors ++ [⟨.waiting, none, []⟩],
      c ∈ s.collectors ∨ c = ⟨.waiting, none, []⟩ := by
    intro c hc
    simpa using hc
  refine ⟨⟨h.fits, fun hshared c hc => ?_, fun c hc hwaiting => ?_⟩, fun hs =>
    iff_of_true ?_ trivial⟩
  · rcases hmem c hc with hold | rfl
    · exact h.excluded hshared c hold
    · exact Stage.noConfusion
  · rcases hmem c hc with hold | rfl
    · exact h.unread c hold hwaiting
    · rfl
  · intro root hphase hdisabled
    obtain ⟨hrecord, hall⟩ := hs root hphase hdisabled
    refine ⟨hrecord, fun c hc hrunning => ?_⟩
    rcases hmem c hc with hold | rfl
    · exact hall c hold hrunning
    · cases hrunning

theorem keeps_locks (h : s.Inv) (i : Nat) : s.Keeps (.locks i) := by
  by_cases hlock : (s.shared || s.collecting) = true
  · exact keeps_of_eq h (by simp only [step, hlock, if_true]) trivial
  · have hshared : s.shared = false := by simp_all
    refine keeps_move h trivial (i := i) (if_neg hlock) ?_ ?_ ?_
    · intro c _ _ hshared'
      cases hshared.symm.trans hshared'
    · exact fun c _ _ => Stage.noConfusion
    · intro c hc hwaiting _ root _ _
      refine .inl fun seen hseen => ?_
      have hread : c.read = none := h.unread c hc hwaiting
      rw [hread] at hseen
      cases hseen

theorem keeps_reads (h : s.Inv) (i : Nat) : s.Keeps (.reads i) := by
  refine keeps_move h trivial (i := i) rfl (fun c hc hrunning hshared => ?_) ?_ ?_
  · exact absurd hrunning (h.excluded hshared c hc)
  · intro c _ hrunning hwaiting
    cases hrunning.symm.trans hwaiting
  · intro c _ hrunning _ root hrecord hknows
    refine (hknows hrunning).imp_left fun hread seen hseen => ?_
    cases hseen
    cases hold : c.read with
    | none => exact hrecord
    | some seen => exact hread seen hold

theorem keeps_ends (h : s.Inv) (i : Nat) : s.Keeps (.ends i) := by
  refine keeps_move h trivial (i := i) rfl ?_ ?_ ?_
  · exact fun c _ _ _ => Stage.noConfusion
  · exact fun c _ _ => Stage.noConfusion
  · intro c _ _ hrunning
    cases hrunning

/-- **Every step keeps the invariant, and stays sound exactly when it is answered.** -/
theorem keeps_step (h : s.Inv) (e : Event) : s.Keeps e := by
  cases e with
  | add root => exact keeps_add h root
  | go => exact keeps_go h
  | osError => exact keeps_osError h
  | connects i => exact keeps_connects h i
  | refused => exact keeps_refused h
  | acks => exact keeps_acks h
  | hangsUp => exact keeps_hangsUp h
  | starts => exact keeps_starts h
  | locks i => exact keeps_locks h i
  | reads i => exact keeps_reads h i
  | ends i => exact keeps_ends h i

theorem inv_start : start.Inv where
  fits := trivial
  excluded := nofun
  unread := nofun

/-- **Every call that returns leaves its path held, exactly in the runs in which the record
behind an answer finds the running collectors knowing the path**: over any calls of a session, its
errors, and any collectors that come, read, answer and end. -/
theorem sound_iff_answered (events : List Event) :
    (∀ k s, run steps start (events.take k) = some s → s.Sound) ↔
      Guarded steps Answered start events := by
  have hkeeps : ∀ s e t, s.Inv → steps s e = some t → t.Inv := by
    rintro s e t hs ⟨⟩
    exact (keeps_step hs e).1
  have hexact : ∀ s e t, s.Inv ∧ s.Sound → steps s e = some t →
      (t.Inv ∧ t.Sound ↔ s.Answered e) := by
    rintro s e t ⟨hs, hsound⟩ ⟨⟩
    obtain ⟨hinv, hiff⟩ := keeps_step hs e
    rw [← hiff hsound]
    exact and_iff_right hinv
  have hstart : start.Inv ∧ start.Sound := ⟨inv_start, sound_of_pending fun _ => Phase.noConfusion⟩
  rw [← guarded_iff (fun s e => ⟨_, rfl⟩) hexact hstart events]
  refine forall_congr' fun k => forall_congr' fun s => imp_congr_right fun hrun => ?_
  exact (and_iff_right (inv_of_run hkeeps inv_start hrun)).symm

/-- A collector answers and ends, and the next one reads the directory before the record is
there. -/
def nextCollector : List Event :=
  [.starts, .locks 0, .reads 0, .add "/nix/store/a-hello", .go, .go, .connects 0, .acks, .ends 0,
    .starts, .locks 1, .reads 1, .go]

/-- **The next collector misses the root**: `add` has returned, and the collector that runs has
neither read the record nor acknowledged the path. -/
theorem nextCollector_misses :
    ∃ s, run steps start nextCollector = some s ∧ s.phase = .returned "/nix/store/a-hello" ∧
      s.disabled = false ∧ ¬s.Sound := by
  obtain ⟨s, hrun, hs⟩ := Option.map_eq_some_iff.1
    (by decide : (run steps start nextCollector).map (fun s => (s.phase, s.disabled,
        s.collectors)) = some (.returned "/nix/store/a-hello", false,
      [⟨.ended, some [], ["/nix/store/a-hello"]⟩, ⟨.running, some [], []⟩]))
  simp only [Prod.mk.injEq] at hs
  obtain ⟨hphase, hdisabled, hcollectors⟩ := hs
  refine ⟨s, hrun, hphase, hdisabled, fun hsound => ?_⟩
  have hknows := (hsound _ hphase hdisabled).2 ⟨.running, some [], []⟩ (by simp [hcollectors]) rfl
  rcases hknows with hread | hacked
  · cases hread [] rfl
  · cases hacked

end System

end Pynixd.Handshake
