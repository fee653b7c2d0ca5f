import Pynixd.Queue.Indexes

/-!
# What the queue keeps of a request

Of a goal request the queue keeps four things: the builds that name it as a holder, its entry
of `_held`, its mark in `_given_up` and its entry of `_max_jobs`.  Three operations write
them, `enqueue` of a goal, the end of a build and `release_request`; all the others leave them.

* `Frame`, `frame_next` — the operations that write nothing of a request;
* `givesUpForItself_iff` — **a request gives up for its own options** exactly when a build that
  fails carries the options of every request that holds it, as far as keep-going goes;
* `absent_iff_inTime` — **a request that ended is forgotten** exactly when none of its goals
  came to the queue behind the release;
* `keepGoing_gives_up`, `held_behind_release` — a request that keeps going is stopped by the
  options of another client, and a goal that enqueues in front of the reaping is kept for good.
-/

namespace Pynixd.Queue.BuildQueue

open QueuedBuild Runs

/-! ## Operations that leave the requests alone -/

/-- The step writes nothing of any request. -/
structure Frame (q q' : BuildQueue) : Prop where
  givenUp : q'.givenUp = q.givenUp
  maxJobs : q'.maxJobs = q.maxJobs
  held : q'.held = q.held
  holders : ∀ r, q'.holdersAt r = q.holdersAt r

theorem Frame.refl (q : BuildQueue) : Frame q q := ⟨rfl, rfl, rfl, fun _ => rfl⟩

theorem Frame.trans {q q' q'' : BuildQueue} (h : Frame q q') (h' : Frame q' q'') : Frame q q'' :=
  ⟨h'.givenUp.trans h.givenUp, h'.maxJobs.trans h.maxJobs, h'.held.trans h.held,
    fun r => (h'.holders r).trans (h.holders r)⟩

theorem frame_foldl {α : Type} {f : BuildQueue → α → BuildQueue} (hf : ∀ q a, Frame q (f q a))
    (as : List α) (q : BuildQueue) : Frame q (as.foldl f q) := by
  induction as generalizing q with
  | nil => exact .refl q
  | cons a as ih => exact (hf q a).trans (ih _)

theorem frame_touch (q : BuildQueue) (r : Ref) {f : QueuedBuild → QueuedBuild}
    (hf : ∀ b, (f b).holders = b.holders) : Frame q (q.touch r f) := by
  refine ⟨rfl, rfl, rfl, fun s => ?_⟩
  simp only [holdersAt, touch, List.getElem?_modify]
  cases q.objects[s]? with
  | none => rfl
  | some b => by_cases hs : r = s <;> simp [hs, hf]

theorem frame_dropItem (gone : List Ref) (q : BuildQueue) (item : BuildId × Ref) :
    Frame q (dropItem gone q item) := by
  unfold dropItem
  dsimp only
  split_ifs
  · split
    · exact ⟨rfl, rfl, rfl, fun _ => rfl⟩
    · split_ifs <;> exact ⟨rfl, rfl, rfl, fun _ => rfl⟩
  · exact .refl q

theorem frame_prune (q : BuildQueue) : Frame q q.prune := by
  unfold prune
  split_ifs
  · exact .refl q
  · have hfilter : Frame q { q with queue := q.queue.filter (· ∉ q.doomed) } :=
      ⟨rfl, rfl, rfl, fun _ => rfl⟩
    exact hfilter.trans (frame_foldl (frame_dropItem q.doomed) q.byId _)

theorem frame_forgetRequest (q : BuildQueue) (request : RequestId) :
    Frame q (q.forgetRequest request) := by
  apply frame_foldl
  exact fun p r => frame_touch p r fun _ => rfl

/-- The operations that write of no request. -/
def Event.aside : Event → Bool
  | .enqueue _ | .releaseRequest _ | .complete _ _ | .fail _ _ => false
  | _ => true

variable {q q' : BuildQueue} {e : Event} {r : Ref} {x : RequestId}

theorem frame_next (q : BuildQueue) (haside : e.aside = true) : Frame q (q.next e) := by
  cases e with
  | enqueue args => cases haside
  | releaseRequest request => cases haside
  | complete id response => cases haside
  | fail id errorMsg => cases haside
  | createRequest derivedPaths client => exact ⟨rfl, rfl, rfl, fun _ => rfl⟩
  | subscribe id client cancel replayed =>
    simp only [next, subscribe]
    split
    · exact .refl q
    · exact frame_touch q _ fun b => (keeps_addSubscriber b ..).holders
  | unsubscribe id client =>
    simp only [next, BuildQueue.unsubscribe]
    split
    · exact .refl q
    · exact frame_touch q _ fun b => (keeps_unsubscribe b _).holders
  | getPending => exact .refl q
  | resetForRetry r store => exact frame_touch q r fun _ => rfl
  | cancelUnwanted id =>
    simp only [next, cancelUnwanted]
    split
    · exact .refl q
    · exact frame_touch q _ fun b => (keeps_settle b _).holders
  | prune => exact frame_prune q
  | pruneRequest request =>
    exact ((frame_forgetRequest q request).trans (frame_prune _)).trans
      ⟨rfl, rfl, rfl, fun _ => rfl⟩
  | assign r scope time => exact frame_touch q r fun _ => rfl
  | workerEnded r scope => exact frame_touch q r fun b => (keeps_workerEnded b scope).holders
  | cancelFuture r => exact frame_touch q r fun b => (keeps_cancelFuture b).holders
  | dropSubscriber r client => exact frame_touch q r fun b => (keeps_removeSubscriber b _).holders

/-! ### What `enqueue` writes -/

/-- The step writes of no request but the one that the arguments name: of that one it writes
no mark, and of the others nothing. -/
structure Joins (goal : Option RequestId) (q q' : BuildQueue) : Prop where
  givenUp : q'.givenUp = q.givenUp
  maxJobs : ∀ x, goal ≠ some x → Dict.get? q'.maxJobs x = Dict.get? q.maxJobs x
  held : ∀ x, goal ≠ some x → Dict.get? q'.held x = Dict.get? q.held x

theorem Frame.joins (h : Frame q q') (goal : Option RequestId) : Joins goal q q' :=
  ⟨h.givenUp, fun _ _ => by rw [h.maxJobs], fun _ _ => by rw [h.held]⟩

theorem Joins.trans {goal : Option RequestId} {q q' q'' : BuildQueue} (h : Joins goal q q')
    (h' : Joins goal q' q'') : Joins goal q q'' :=
  ⟨h'.givenUp.trans h.givenUp, fun x hx => (h'.maxJobs x hx).trans (h.maxJobs x hx),
    fun x hx => (h'.held x hx).trans (h.held x hx)⟩

theorem joins_holdForGoal (q : BuildQueue) (r : Ref) (id : BuildId) (fromGoalPath : Bool)
    (goal : Option RequestId) : Joins goal q (q.holdForGoal r id fromGoalPath goal) := by
  unfold holdForGoal
  split
  · split_ifs
    · refine ⟨rfl, fun _ _ => rfl, fun x hx => ?_⟩
      exact Dict.get?_set_of_ne q.held _ fun heq => hx (congrArg some heq)
    · exact (Frame.refl q).joins _
  · exact (Frame.refl q).joins _

theorem frame_addBuildTo (q : BuildQueue) (request : RequestId) (id : BuildId)
    (derivedPaths : Finset DerivedPath) : Frame q (q.addBuildTo request id derivedPaths) := by
  unfold addBuildTo
  split_ifs
  · exact .refl q
  · exact ⟨rfl, rfl, rfl, fun _ => rfl⟩

theorem joins_noteMaxJobs (q : BuildQueue) (a : EnqueueArgs) :
    Joins a.goalRequestId q (q.noteMaxJobs a) := by
  unfold noteMaxJobs
  split
  · exact (Frame.refl q).joins _
  · next request hgoal =>
    refine ⟨rfl, fun x hx => ?_, fun _ _ => rfl⟩
    exact Dict.get?_set_of_ne q.maxJobs _ fun heq => hx (hgoal.trans (congrArg some heq))

theorem joins_joinRunning (q : BuildQueue) (r : Ref) (id : BuildId) (a : EnqueueArgs) :
    Joins a.goalRequestId q (q.joinRunning r id a) := by
  have hheld := ((frame_touch q r
    (f := fun b => { b with fromGoalPath := b.fromGoalPath || a.fromGoalPath })
    fun _ => rfl).joins a.goalRequestId).trans
      (joins_holdForGoal _ r id a.fromGoalPath a.goalRequestId)
  simp only [joinRunning]
  split
  · exact hheld
  · refine hheld.trans (Frame.joins (Frame.trans ?_ (frame_addBuildTo ..)) _)
    exact frame_touch _ r fun _ => rfl

theorem joins_append (q : BuildQueue) (a : EnqueueArgs) :
    Joins a.goalRequestId q (q.append a) := by
  have hmade : Joins a.goalRequestId q { q with
      objects := q.objects ++ [QueuedBuild.new q.nextId a.drvPath a.options
        a.schedulerRequestId.toFinset a.fromGoalPath] } :=
    ⟨rfl, fun _ _ => rfl, fun _ _ => rfl⟩
  have hheld := hmade.trans (joins_holdForGoal _ q.objects.length q.nextId a.fromGoalPath _)
  simp only [append]
  split
  · exact ⟨hheld.givenUp, hheld.maxJobs, hheld.held⟩
  · refine Joins.trans ?_ ((frame_addBuildTo ..).joins _)
    exact ⟨hheld.givenUp, hheld.maxJobs, hheld.held⟩

theorem joins_enqueue (q : BuildQueue) (a : EnqueueArgs) :
    Joins a.goalRequestId q (q.enqueue a).2 := by
  unfold enqueue
  split_ifs
  · exact (Frame.refl q).joins _
  · dsimp only
    split
    · exact (joins_noteMaxJobs q a).trans (joins_joinRunning ..)
    · exact (joins_noteMaxJobs q a).trans (joins_append ..)

/-! ## Giving up -/

/-- The build that `complete` or `fail` ends as a failure. -/
def failedBuild (q : BuildQueue) (id : BuildId) (response : BuildResponse) : Option QueuedBuild :=
  match q.queue.find? fun r => (q.objects[r]?).any (·.buildId == id) with
  | none => none
  | some r =>
    match q.objects[r]? with
    | none => none
    | some b =>
      if b.isDone then none
      else
        match BuildResultStatus.ofValue response.status with
        | none => none
        | some status => if status.isSuccess then none else some b

def fails (q : BuildQueue) : Event → Option QueuedBuild
  | .complete id response => q.failedBuild id response
  | .fail id errorMsg => q.failedBuild id (.miscFailure errorMsg)
  | _ => none

/-- The requests that give up with a build: all that hold it, if **its** options lack
keep-going. -/
def stopped (b : QueuedBuild) : Finset RequestId :=
  match b.options with
  | none => ∅
  | some options => if options.keepGoing then ∅ else b.holders

theorem givenUp_noteGivenUp (q : BuildQueue) (b : QueuedBuild) {status : BuildResultStatus}
    (hfailed : status.isSuccess = false) :
    (q.noteGivenUp b status).givenUp = q.givenUp ∪ stopped b := by
  unfold noteGivenUp stopped
  rw [hfailed, if_neg Bool.false_ne_true]
  cases b.options with
  | none => simp
  | some options =>
    dsimp only
    split_ifs
    · simp
    · rfl

theorem givenUp_finish (q : BuildQueue) (id : BuildId) (response : BuildResponse) :
    (q.finish id response).2.givenUp =
      q.givenUp ∪ ((q.failedBuild id response).map stopped).getD ∅ := by
  unfold finish failedBuild
  cases q.queue.find? fun r => (q.objects[r]?).any (·.buildId == id) with
  | none => simp
  | some r =>
    dsimp only
    cases q.objects[r]? with
    | none => simp
    | some b =>
      dsimp only
      split_ifs
      · simp
      · cases BuildResultStatus.ofValue response.status with
        | none => simp [touch]
        | some status =>
          cases hstatus : status.isSuccess with
          | false => simp [givenUp_noteGivenUp _ b hstatus, hstatus, touch]
          | true => simp [noteGivenUp, hstatus, touch]

theorem givenUp_releaseHolds (q : BuildQueue) (request : RequestId) :
    (q.releaseHolds request).givenUp = q.givenUp.erase request := by
  rw [releaseHolds, foldl_letGo_eq]

/-- **Only a build that fails makes a request give up.** -/
theorem givenUp_next_subset (q : BuildQueue) (e : Event) :
    (q.next e).givenUp ⊆ q.givenUp ∪ ((q.fails e).map stopped).getD ∅ := by
  cases e with
  | enqueue args =>
    rw [next, (joins_enqueue q args).givenUp]
    exact Finset.subset_union_left
  | releaseRequest request =>
    rw [next, releaseRequest, (frame_prune _).givenUp, givenUp_releaseHolds]
    exact (Finset.erase_subset _ _).trans Finset.subset_union_left
  | complete id response => exact (givenUp_finish q id response).subset
  | fail id errorMsg => exact (givenUp_finish q id _).subset
  | _ =>
    rw [(frame_next q rfl).givenUp]
    exact Finset.subset_union_left

section KeepGoing

/-! The options of the client of each request. -/
variable (optionsOf : RequestId → Option Options)

/-- A client that sent no options does not keep going. -/
def LacksKeepGoing (options : Option Options) : Prop :=
  ∀ o, options = some o → o.keepGoing = false

/-- **A request gives up only for itself**: a build that it holds fails, and the options of its
own client lack keep-going. -/
def GivesUpForItself (q : BuildQueue) (e : Event) : Prop :=
  ∀ x ∈ (q.next e).givenUp, x ∉ q.givenUp →
    (∃ b, q.fails e = some b ∧ x ∈ b.holders) ∧ LacksKeepGoing (optionsOf x)

/-- A build that fails with options that lack keep-going is held by no request whose own
options have it, unless that request gave up before. -/
def OptionsAgree (q : BuildQueue) (e : Event) : Prop :=
  ∀ b o, q.fails e = some b → b.options = some o → o.keepGoing = false →
    ∀ x ∈ b.holders, x ∉ q.givenUp → LacksKeepGoing (optionsOf x)

theorem mem_stopped {b : QueuedBuild} {x : RequestId} :
    x ∈ stopped b ↔ (∃ o, b.options = some o ∧ o.keepGoing = false) ∧ x ∈ b.holders := by
  unfold stopped
  cases b.options with
  | none => simp
  | some o => cases h : o.keepGoing <;> simp [h]

theorem givenUp_next_of_fails {q : BuildQueue} {e : Event} {b : QueuedBuild}
    (hfails : q.fails e = some b) : (q.next e).givenUp = q.givenUp ∪ stopped b := by
  cases e with
  | complete id response =>
    refine (givenUp_finish q id response).trans ?_
    rw [show q.failedBuild id response = some b from hfails]
    rfl
  | fail id errorMsg =>
    refine (givenUp_finish q id _).trans ?_
    rw [show q.failedBuild id (.miscFailure errorMsg) = some b from hfails]
    rfl
  | _ => cases hfails

theorem givesUpForItself_iff_step (q : BuildQueue) (e : Event) :
    GivesUpForItself optionsOf q e ↔ OptionsAgree optionsOf q e := by
  constructor
  · intro h b o hfails hoptions hkeep x hx hnew
    refine (h x ?_ hnew).2
    rw [givenUp_next_of_fails hfails]
    exact Finset.mem_union_right _ (mem_stopped.2 ⟨⟨o, hoptions, hkeep⟩, hx⟩)
  · intro h x hx hnew
    have hstopped := (Finset.mem_union.1 (givenUp_next_subset q e hx)).resolve_left hnew
    cases hfails : q.fails e with
    | none =>
      rw [hfails] at hstopped
      exact absurd hstopped (Finset.notMem_empty x)
    | some b =>
      rw [hfails] at hstopped
      obtain ⟨⟨o, hoptions, hkeep⟩, hin⟩ := mem_stopped.1 hstopped
      exact ⟨⟨b, rfl, hin⟩, h b o hfails hoptions hkeep x hin hnew⟩

/-- **Keep-going is kept apart exactly when the options agree**: in every history of the
queue, no request gives up for another client's options exactly when every build that fails
without keep-going is held by requests without it only. -/
theorem givesUpForItself_iff (es : List Event) :
    Guarded step (GivesUpForItself optionsOf) empty es ↔
      Guarded step (OptionsAgree optionsOf) empty es :=
  guarded_congr (fun _ _ _ _ _ => trivial)
    (fun q e (_ : True) => givesUpForItself_iff_step optionsOf q e) trivial es

end KeepGoing

/-- Request 1 stops at its first failure, and request 2 keeps going. -/
def mixed (request : RequestId) : Option Options := some ⟨request == 2, 1⟩

/-- A goal of the request asks for `d.drv` with the options of its client. -/
def mixedArgs (request : RequestId) : EnqueueArgs :=
  ⟨"d.drv", none, ∅, true, some request, mixed request⟩

/-- **The options of the first client stop the request of the second**, which keeps going. -/
theorem keepGoing_gives_up :
    ¬Guarded step (GivesUpForItself mixed) empty
      [.enqueue (mixedArgs 1), .enqueue (mixedArgs 2), .fail 1 "builder failed"] := by
  intro h
  have hlast := (h.2 _ rfl).2 _ rfl
  have hlacks := (hlast.1 2 (by decide +kernel) (by decide +kernel)).2
  exact absurd (hlacks ⟨true, 1⟩ rfl) (by decide)

/-! ## The end of a request -/

/-- Nothing is left of the request. -/
structure Absent (q : BuildQueue) (x : RequestId) : Prop where
  holders : ∀ (r : Ref) b, q.objects[r]? = some b → x ∉ b.holders
  held : Dict.get? q.held x = none
  givenUp : x ∉ q.givenUp
  maxJobs : Dict.get? q.maxJobs x = none

/-- A build that left the queue is held by nobody. -/
def Kept (q : BuildQueue) : Prop :=
  ∀ (r : Ref) b, q.objects[r]? = some b → b.holders.Nonempty → r ∈ q.queue

/-- What leaves the queue is held by nobody, so a step keeps `Kept` when it gives a holder to
no build outside the queue. -/
theorem Kept.advances (h : Kept q) (hstep : Advances q q')
    (hholders : ∀ (r : Ref) b', q'.objects[r]? = some b' → b'.holders.Nonempty →
      r ∈ q'.queue ∨ ∃ b, q.objects[r]? = some b ∧ b.holders.Nonempty) : Kept q' := by
  intro r b' hb' hnonempty
  rcases hholders r b' hb' hnonempty with hr | ⟨b, hb, hbefore⟩
  · exact hr
  · by_contra hgone
    obtain ⟨b'', hb'', habandoned⟩ := hstep.swept r (h r b hb hbefore) hgone
    rw [hb'] at hb''
    cases hb''
    exact hnonempty.ne_empty (abandoned_iff.1 habandoned).2.2.1

theorem Frame.holders_before (h : Frame q q') {b' : QueuedBuild} (hb' : q'.objects[r]? = some b') :
    ∃ b, q.objects[r]? = some b ∧ b.holders = b'.holders := by
  have hat := h.holders r
  rw [holdersAt, holdersAt, hb', Option.map_some, eq_comm, Option.map_eq_some_iff] at hat
  exact hat

theorem Kept.of_frame (h : Kept q) (hstep : Advances q q') (hframe : Frame q q') : Kept q' := by
  refine h.advances hstep fun r b' hb' hnonempty => .inr ?_
  obtain ⟨b, hb, hsame⟩ := hframe.holders_before hb'
  exact ⟨b, hb, hsame ▸ hnonempty⟩

theorem objects_touch_of_ne (q : BuildQueue) {r s : Ref} (hne : r ≠ s)
    (f : QueuedBuild → QueuedBuild) : (q.touch r f).objects[s]? = q.objects[s]? := by
  simp [touch, hne]

theorem objects_joinRunning_of_ne (q : BuildQueue) {r s : Ref} (hne : r ≠ s) (id : BuildId)
    (a : EnqueueArgs) : (q.joinRunning r id a).objects[s]? = q.objects[s]? := by
  have hheld : ∀ p : BuildQueue,
      (p.holdForGoal r id a.fromGoalPath a.goalRequestId).objects[s]? = p.objects[s]? := by
    intro p
    unfold holdForGoal
    split
    · split_ifs
      · exact objects_touch_of_ne p hne _
      · rfl
    · rfl
  have hadd : ∀ (p : BuildQueue) request,
      (p.addBuildTo request id a.derivedPathsForRequest).objects = p.objects := by
    intro p request
    unfold addBuildTo
    split_ifs <;> rfl
  simp only [joinRunning]
  split
  · rw [hheld, objects_touch_of_ne q hne]
  · rw [hadd, objects_touch_of_ne _ hne, hheld, objects_touch_of_ne q hne]

theorem objects_noteMaxJobs (q : BuildQueue) (a : EnqueueArgs) :
    (q.noteMaxJobs a).objects = q.objects := by
  unfold noteMaxJobs
  split <;> rfl

theorem Kept.enqueue (h : Kept q) (hinv : Inv q) (a : EnqueueArgs) : Kept (q.enqueue a).2 := by
  refine h.advances (hinv.advances_enqueue a) fun s b' hb' hnonempty => ?_
  have hnote := objects_noteMaxJobs q a
  unfold BuildQueue.enqueue at hb' ⊢
  split_ifs at hb' ⊢
  · exact .inr ⟨b', hb', hnonempty⟩
  · dsimp only at hb' ⊢
    have hinv' := (idle_noteMaxJobs q a).inv hinv
    split at hb' <;> rename_i hrunning
    · next r b =>
      obtain ⟨hget, hb, -⟩ := running_eq_some hrunning
      have hr : r ∈ (q.noteMaxJobs a).queue := (hinv'.byPath _ r hget).1
      by_cases hs : r = s
      · left
        rw [(idle_joinRunning hr hb a).follows.queue]
        exact hs ▸ hr
      · rw [objects_joinRunning_of_ne _ hs, hnote] at hb'
        exact .inr ⟨b', hb', hnonempty⟩
    · rw [objects_append] at hb'
      split_ifs at hb' with hs
      · left
        rw [(append_spec _ a).2.1, hs]
        exact List.mem_append_right _ (List.mem_singleton_self _)
      · exact .inr ⟨b', hnote ▸ hb', hnonempty⟩

theorem frame_finish (q : BuildQueue) (id : BuildId) (response : BuildResponse) :
    Frame q { (q.finish id response).2 with givenUp := q.givenUp } := by
  rcases finish_cases q id response with hsame | ⟨r, givenUp, hwrites⟩
  · rw [hsame]
    exact .refl q
  · rw [hwrites]
    exact frame_touch q r fun b => (keeps_settle b response).holders

theorem Kept.finish (h : Kept q) (hinv : Inv q) (id : BuildId)
    (response : BuildResponse) : Kept (q.finish id response).2 := by
  refine h.advances ((idle_finish q id response).advances hinv) fun r b' hb' hnonempty => ?_
  obtain ⟨b, hb, hsame⟩ := (frame_finish q id response).holders_before hb'
  exact .inr ⟨b, hb, hsame ▸ hnonempty⟩

theorem Kept.releaseHolds (h : Kept q) (request : RequestId) : Kept (q.releaseHolds request) := by
  have hfollows := follows_releaseHolds q request
  intro r b' hb' hnonempty
  obtain ⟨b, hb, -⟩ := hfollows.exists_before hb'
  have hat := holdersAt_foldl_letGo request (q.heldBy request)
    { q with held := Dict.pop q.held request } r
  have hholders : b'.holders ⊆ b.holders := by
    have hb'' : (List.foldl (letGo request) { q with held := Dict.pop q.held request }
        (q.heldBy request)).objects[r]? = some b' := hb'
    simp only [holdersAt, hb'', hb, Option.map_some, Option.some.injEq] at hat
    rw [hat]
    split_ifs
    · exact Finset.erase_subset _ _
    · exact subset_rfl
  rw [hfollows.queue]
  exact h r b hb (hnonempty.mono hholders)

theorem Kept.prune (h : Kept q) (hinv : Inv q) : Kept q.prune :=
  h.of_frame (hinv.advances_next .prune) (frame_prune q)

theorem Kept.next (h : Kept q) (hinv : Inv q) (e : Event) : Kept (q.next e) := by
  cases e with
  | enqueue args => exact h.enqueue hinv args
  | releaseRequest request => exact (h.releaseHolds request).prune (hinv.releaseHolds request)
  | complete id response => exact h.finish hinv id response
  | fail id errorMsg => exact h.finish hinv id _
  | _ => exact h.of_frame (hinv.advances_next _) (frame_next q rfl)

theorem absent_of_tables (hinv : Inv q) (hkept : Kept q)
    (hheld : Dict.get? q.held x = none) (hgivenUp : x ∉ q.givenUp)
    (hmaxJobs : Dict.get? q.maxJobs x = none) : Absent q x where
  holders := by
    intro r b hb hin
    have hid := (hinv.held x b.buildId).2 ⟨r, hkept r b hb ⟨x, hin⟩, b, hb, rfl, hin⟩
    rw [heldBy, hheld] at hid
    cases hid
  held := hheld
  givenUp := hgivenUp
  maxJobs := hmaxJobs

theorem held_releaseHolds (q : BuildQueue) (request : RequestId) :
    (q.releaseHolds request).held = Dict.pop q.held request ∧
      (q.releaseHolds request).maxJobs = Dict.pop q.maxJobs request := by
  rw [releaseHolds, foldl_letGo_eq]
  exact ⟨rfl, rfl⟩

theorem absent_releaseHolds (hinv : Inv q) (hkept : Kept q) (x : RequestId) :
    Absent (q.releaseHolds x) x := by
  obtain ⟨hheld, hmaxJobs⟩ := held_releaseHolds q x
  apply absent_of_tables (hinv.releaseHolds x) (hkept.releaseHolds x)
  · rw [hheld, Dict.get?_pop, if_pos rfl]
  · exact Finset.notMem_erase x _
  · rw [hmaxJobs, Dict.get?_pop, if_pos rfl]

theorem Absent.releaseHolds (h : Absent q x) (hinv : Inv q)
    (hkept : Kept q) (request : RequestId) : Absent (q.releaseHolds request) x := by
  obtain ⟨hheld, hmaxJobs⟩ := held_releaseHolds q request
  apply absent_of_tables (hinv.releaseHolds request) (hkept.releaseHolds request)
  · rw [hheld, Dict.get?_pop, h.held, ite_self]
  · rw [givenUp_releaseHolds]
    exact fun hin => h.givenUp (Finset.mem_of_mem_erase hin)
  · rw [hmaxJobs, Dict.get?_pop, h.maxJobs, ite_self]

theorem Absent.of_frame (h : Absent q x) (hframe : Frame q q') : Absent q' x where
  holders := by
    intro r b' hb'
    obtain ⟨b, hb, hsame⟩ := hframe.holders_before hb'
    exact hsame ▸ h.holders r b hb
  held := hframe.held ▸ h.held
  givenUp := hframe.givenUp ▸ h.givenUp
  maxJobs := hframe.maxJobs ▸ h.maxJobs

theorem mem_objects_of_failedBuild {id : BuildId} {response : BuildResponse}
    {b : QueuedBuild} (h : q.failedBuild id response = some b) :
    ∃ r : Ref, q.objects[r]? = some b := by
  unfold failedBuild at h
  split at h
  · cases h
  · next r _ =>
    split at h
    · cases h
    · next b' hb =>
      split_ifs at h
      split at h
      · cases h
      · split_ifs at h
        cases h
        exact ⟨r, hb⟩

theorem Absent.finish (h : Absent q x) (id : BuildId)
    (response : BuildResponse) : Absent (q.finish id response).2 x := by
  have hframe := h.of_frame (frame_finish q id response)
  refine ⟨hframe.holders, hframe.held, ?_, hframe.maxJobs⟩
  rw [givenUp_finish, Finset.mem_union, not_or]
  refine ⟨h.givenUp, ?_⟩
  cases hfailed : q.failedBuild id response with
  | none => exact Finset.notMem_empty x
  | some b =>
    obtain ⟨r, hb⟩ := mem_objects_of_failedBuild hfailed
    exact fun hin => h.holders r b hb (mem_stopped.1 hin).2

theorem Absent.enqueue (h : Absent q x) (hinv : Inv q)
    (hkept : Kept q) {a : EnqueueArgs} (hx : a.goalRequestId ≠ some x) :
    Absent (q.enqueue a).2 x := by
  have hjoins := joins_enqueue q a
  apply absent_of_tables (hinv.advances_enqueue a).inv (hkept.enqueue hinv a)
  · rw [hjoins.held x hx, h.held]
  · rw [hjoins.givenUp]
    exact h.givenUp
  · rw [hjoins.maxJobs x hx, h.maxJobs]

/-- The operations that goals and engines have to themselves. -/
def Event.ofAGoal : Event → Bool
  | .enqueue a => a.goalRequestId.isSome
  | .releaseRequest _ => true
  | _ => false

/-- **What is forgotten stays so**, whatever the others do. -/
theorem Absent.next (h : Absent q x) (hinv : Inv q)
    (hkept : Kept q) (hother : e.ofAGoal = false) : Absent (q.next e) x := by
  cases e with
  | enqueue a =>
    refine h.enqueue hinv hkept fun hx => ?_
    rw [Event.ofAGoal, hx] at hother
    cases hother
  | releaseRequest request => cases hother
  | complete id response => exact h.finish id response
  | fail id errorMsg => exact h.finish id _
  | _ => exact h.of_frame (frame_next q rfl)

theorem maxJobs_next (q : BuildQueue) (hother : e.ofAGoal = false) (x : RequestId) :
    Dict.get? (q.next e).maxJobs x = Dict.get? q.maxJobs x := by
  cases e with
  | enqueue a =>
    refine (joins_enqueue q a).maxJobs x fun hx => ?_
    rw [Event.ofAGoal, hx] at hother
    cases hother
  | releaseRequest request => cases hother
  | complete id response =>
    exact congrArg (Dict.get? · x) (frame_finish q id response).maxJobs
  | fail id errorMsg => exact congrArg (Dict.get? · x) (frame_finish q id _).maxJobs
  | _ => rw [(frame_next q rfl).maxJobs]

theorem maxJobs_enqueue (q : BuildQueue) {a : EnqueueArgs}
    (hgoal : a.goalRequestId = some x) :
    Dict.get? (q.enqueue a).2.maxJobs x = some (a.options.map (·.maxBuildJobs)) := by
  have hnote : Dict.get? (q.noteMaxJobs a).maxJobs x = some (a.options.map (·.maxBuildJobs)) := by
    simp [noteMaxJobs, hgoal]
  have hhold : ∀ (p : BuildQueue) r id,
      (p.holdForGoal r id a.fromGoalPath a.goalRequestId).maxJobs = p.maxJobs := by
    intro p r id
    unfold holdForGoal
    split
    · split_ifs <;> rfl
    · rfl
  have hadd : ∀ (p : BuildQueue) request id paths,
      (p.addBuildTo request id paths).maxJobs = p.maxJobs :=
    fun p request id paths => (frame_addBuildTo p request id paths).maxJobs
  unfold enqueue
  rw [hgoal, Option.isNone_some, Bool.and_false, if_neg Bool.false_ne_true]
  dsimp only
  split
  · simp only [joinRunning]
    split
    · simpa only [hhold, touch] using hnote
    · simpa only [hadd, touch, hhold] using hnote
  · simp only [append]
    split
    · simpa only [hhold] using hnote
    · simpa only [hadd, hhold] using hnote

/-- Where `build_paths_with_results` stands: before its `finally`, behind the lock of
`release_request`, behind the sweep, and behind `reap`. -/
inductive Phase where
  | running
  | released
  | swept
  | ended
  deriving DecidableEq, Repr

structure Requests where
  queue : BuildQueue
  phase : RequestId → Phase

namespace Requests

def start : Requests := ⟨.empty, fun _ => .running⟩

inductive Event where
  /-- A goal of the request gets the lock of `enqueue`. -/
  | enqueue (request : RequestId) (drvPath : String) (options : Option Options)
  /-- `release_request`, up to its sweep. -/
  | release (request : RequestId)
  /-- The sweep of `release_request`. -/
  | sweep (request : RequestId)
  /-- `reap`, with the futures that the goals of the request await. -/
  | reap (request : RequestId) (awaited : List Ref)
  /-- What everybody else does. -/
  | other (e : BuildQueue.Event)

def move (w : Requests) (request : RequestId) (before after : Phase) (q : BuildQueue) :
    Option Requests :=
  if w.phase request = before then some ⟨q, Function.update w.phase request after⟩ else none

/-- A goal that `reap` cancelled raises where it waits, and `enqueue` waits for its lock
first: it comes to the queue no more. -/
def step (w : Requests) : Event → Option Requests
  | .enqueue request drvPath options =>
    if w.phase request = .ended then none
    else
      some { w with
        queue := (w.queue.enqueue ⟨drvPath, none, ∅, true, some request, options⟩).2 }
  | .release request => w.move request .running .released (w.queue.releaseHolds request)
  | .sweep request => w.move request .released .swept w.queue.prune
  | .reap request awaited =>
    w.move request .swept .ended
      (awaited.foldl (fun q r => q.next (.cancelFuture r)) w.queue)
  | .other e => if e.ofAGoal then none else some { w with queue := w.queue.next e }

/-- The goals of the request come to the queue in front of its release. -/
def InTime (x : RequestId) (w : Requests) : Event → Prop
  | .enqueue request _ _ => request = x → w.phase x = .running
  | _ => True

instance (x : RequestId) (w : Requests) : ∀ e : Event, Decidable (InTime x w e)
  | .enqueue request _ _ => inferInstanceAs (Decidable (request = x → w.phase x = .running))
  | .release _ | .sweep _ | .reap _ _ | .other _ => isTrue trivial

/-- What holds in every state, of the queue and of the request `x`. -/
structure Good (x : RequestId) (w : Requests) : Prop where
  inv : BuildQueue.Inv w.queue
  kept : Kept w.queue
  absent : w.phase x ≠ .running → Absent w.queue x

theorem good_start (x : RequestId) : Good x start where
  inv := inv_empty
  kept := by
    intro r b hb
    cases hb
  absent := fun h => absurd rfl h

variable {q : BuildQueue} {e : Event} {after before : Phase} {request x : RequestId}
  {w w' : Requests}

theorem move_eq_some (h : w.move request before after q = some w') :
    w.phase request = before ∧ w' = ⟨q, Function.update w.phase request after⟩ := by
  unfold move at h
  split_ifs at h with hphase
  cases h
  exact ⟨hphase, rfl⟩

theorem Good.move (h : Good x w) (hmove : w.move request before after q = some w')
    (hbefore : before ≠ .running) (hinv : BuildQueue.Inv q) (hkept : Kept q)
    (hframe : Frame w.queue q) : Good x w' := by
  obtain ⟨hphase, rfl⟩ := move_eq_some hmove
  refine ⟨hinv, hkept, fun hrunning => (h.absent ?_).of_frame hframe⟩
  by_cases hx : x = request
  · rw [hx, hphase]
    exact hbefore
  · simpa [hx] using hrunning

/-- **One step of a request that keeps time.** -/
theorem good_step (h : Good x w) (hok : InTime x w e) (hstep : w.step e = some w') : Good x w' := by
  cases e with
  | enqueue request drvPath options =>
    simp only [step] at hstep
    split_ifs at hstep
    cases hstep
    refine ⟨(h.inv.advances_enqueue _).inv, h.kept.enqueue h.inv _, fun hrunning => ?_⟩
    refine (h.absent hrunning).enqueue h.inv h.kept fun hx => ?_
    cases hx
    exact hrunning (hok rfl)
  | release request =>
    obtain ⟨-, rfl⟩ := move_eq_some hstep
    refine ⟨h.inv.releaseHolds request, h.kept.releaseHolds request, fun hrunning => ?_⟩
    by_cases hx : x = request
    · subst hx
      exact absent_releaseHolds h.inv h.kept x
    · refine (h.absent ?_).releaseHolds h.inv h.kept request
      simpa [hx] using hrunning
  | sweep request =>
    exact h.move hstep (by decide) h.inv.prune (h.kept.prune h.inv) (frame_prune _)
  | reap request awaited =>
    have hframe : Frame w.queue (awaited.foldl (fun q r => q.next (.cancelFuture r)) w.queue) :=
      frame_foldl (fun q r => frame_next q rfl) awaited w.queue
    have hqueue : ∀ (refs : List Ref) (q : BuildQueue), BuildQueue.Inv q → Kept q →
        BuildQueue.Inv (refs.foldl (fun q r => q.next (.cancelFuture r)) q) ∧
          Kept (refs.foldl (fun q r => q.next (.cancelFuture r)) q) := by
      intro refs
      induction refs with
      | nil => exact fun q hinv hkept => ⟨hinv, hkept⟩
      | cons r refs ih =>
        exact fun q hinv hkept => ih _ (hinv.advances_next _).inv (hkept.next hinv _)
    obtain ⟨hinv, hkept⟩ := hqueue awaited w.queue h.inv h.kept
    exact h.move hstep (by decide) hinv hkept hframe
  | other e =>
    simp only [step] at hstep
    split_ifs at hstep with hgoal
    cases hstep
    refine ⟨(h.inv.advances_next e).inv, h.kept.next h.inv e, fun hrunning => ?_⟩
    exact (h.absent hrunning).next h.inv h.kept (Bool.eq_false_iff.2 hgoal)

/-- A goal came to the queue behind the release, and its `max-jobs` with it. -/
def Late (x : RequestId) (w : Requests) : Prop :=
  w.phase x ≠ .running ∧ (Dict.get? w.queue.maxJobs x).isSome = true

theorem Late.move (h : Late x w) (hmove : w.move request before after q = some w')
    (hafter : after ≠ .running)
    (hmaxJobs : Dict.get? q.maxJobs x = Dict.get? w.queue.maxJobs x) : Late x w' := by
  obtain ⟨-, rfl⟩ := move_eq_some hmove
  refine ⟨?_, hmaxJobs ▸ h.2⟩
  by_cases hx : x = request
  · simpa [hx] using hafter
  · simpa [hx] using h.1

/-- **Nothing takes a late goal back**: the one release of its request is over. -/
theorem late_step (h : Late x w) (hstep : w.step e = some w') : Late x w' := by
  cases e with
  | enqueue request drvPath options =>
    simp only [step] at hstep
    split_ifs at hstep
    cases hstep
    refine ⟨h.1, ?_⟩
    by_cases hx : request = x
    · rw [maxJobs_enqueue _ (congrArg some hx)]
      rfl
    · rw [(joins_enqueue _ _).maxJobs x fun heq => hx (Option.some.inj heq)]
      exact h.2
  | release request =>
    have hne : request ≠ x := fun hx => h.1 (hx ▸ (move_eq_some hstep).1)
    refine h.move hstep (by decide) ?_
    rw [(held_releaseHolds w.queue request).2, Dict.get?_pop, if_neg hne]
  | sweep request =>
    exact h.move hstep (by decide) (congrArg (Dict.get? · x) (frame_prune w.queue).maxJobs)
  | reap request awaited =>
    have hframe := frame_foldl (fun q r => frame_next q (e := .cancelFuture r) rfl) awaited w.queue
    exact h.move hstep (by decide) (congrArg (Dict.get? · x) hframe.maxJobs)
  | other e =>
    simp only [step] at hstep
    split_ifs at hstep with hgoal
    cases hstep
    refine ⟨h.1, ?_⟩
    rw [maxJobs_next w.queue (Bool.eq_false_iff.2 hgoal) x]
    exact h.2

theorem late_of_not_inTime (hlate : ¬InTime x w e) (hstep : w.step e = some w') : Late x w' := by
  cases e with
  | enqueue request drvPath options =>
    obtain ⟨hx, hphase⟩ := Classical.not_imp.1 hlate
    simp only [step] at hstep
    split_ifs at hstep
    cases hstep
    exact ⟨hphase, by rw [maxJobs_enqueue _ (congrArg some hx)]; rfl⟩
  | _ => exact absurd trivial hlate

/-- **A request that ended is forgotten exactly when its goals kept time**: in every history,
of a request whose `build_paths_with_results` is over no build, no entry of `_held`, no mark
and no limit is left, then and in every later state, exactly when none of its goals came to
the queue between the release and the reaping. -/
theorem absent_iff_inTime {es : List Event} {w : Requests} {x : RequestId}
    (hrun : run step start es = some w) (hended : w.phase x = .ended) :
    Absent w.queue x ↔ Guarded step (InTime x) start es := by
  have hover : w.phase x ≠ .running := by
    rw [hended]
    decide
  constructor
  · intro habsent
    have hnotLate : ¬Late x w := by
      rintro ⟨-, hsome⟩
      rw [habsent.maxJobs] at hsome
      cases hsome
    have hany : ∀ (w : Requests) e w', True → w.step e = some w' → True := fun _ _ _ _ _ => trivial
    exact guarded_of_absent hany (fun _ _ _ h hstep => late_step h hstep)
      (fun _ _ _ _ hlate hstep => late_of_not_inTime hlate hstep) trivial hrun hnotLate
  · intro hok
    exact (inv_of_guarded (fun _ _ _ h hok hstep => good_step h hok hstep) (good_start x) hok
      hrun).absent hover

/-- A goal comes to the queue, and its request ends. -/
def goalThenEnd : List Event :=
  [.enqueue 1 "d.drv" none, .release 1, .sweep 1, .reap 1 [0]]

theorem absent_goalThenEnd :
    ∃ w, run step start goalThenEnd = some w ∧ w.phase 1 = .ended ∧ Absent w.queue 1 := by
  have hread : (run step start goalThenEnd).map (·.phase 1) = some .ended := by decide +kernel
  obtain ⟨w, hrun, hended⟩ := Option.map_eq_some_iff.1 hread
  exact ⟨w, hrun, hended, (absent_iff_inTime hrun hended).2 (by decide +kernel)⟩

/-- **A goal that comes to the queue while `release_request` waits for its sweep** is kept
there: the build, `_held` and `_max_jobs` name the request when it is over. -/
theorem held_behind_release :
    ∃ w, run step start [.release 1, .enqueue 1 "d.drv" none, .sweep 1, .reap 1 [0]] = some w ∧
      w.phase 1 = .ended ∧ (∃ b ∈ w.queue.objects, 1 ∈ b.holders) ∧
      Dict.get? w.queue.held 1 = some [1] ∧ Dict.get? w.queue.maxJobs 1 = some none := by
  decide +kernel

end Requests

end Pynixd.Queue.BuildQueue
