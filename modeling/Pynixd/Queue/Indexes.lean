import Pynixd.Lib.Runs
import Pynixd.Queue.BuildQueue

/-!
# The indexes of the queue agree

Four indexes and a future for each build, over every order of the operations of
`BuildQueue`.

* `prune_spec` — the sweep, as one statement about each index;
* `indexes_of_run` — the invariant over whole runs;
* `byPath_forgets_held` — a build that is done and still held loses its path to a newer
  one, so `_by_path` names fewer builds than the queue.
-/

namespace Pynixd.Queue.BuildQueue

open List QueuedBuild Runs

/-! ## What time does to a build -/

/-- **A later state of the same build.** -/
structure Later (b b' : QueuedBuild) : Prop where
  buildId : b'.buildId = b.buildId
  drvPath : b'.drvPath = b.drvPath
  outcome : b.isDone = true → b'.future = b.future

theorem Later.refl (b : QueuedBuild) : Later b b := ⟨rfl, rfl, fun _ => rfl⟩

variable {q q' q'' : BuildQueue} {es : List Event} {b b' : QueuedBuild}
  {f : QueuedBuild → QueuedBuild} {r : Ref}

theorem Later.isDone (h : Later b b') (hdone : b.isDone = true) : b'.isDone = true := by
  rw [QueuedBuild.isDone, h.outcome hdone]
  exact hdone

theorem Later.trans {b b' b'' : QueuedBuild} (h : Later b b') (h' : Later b' b'') :
    Later b b'' where
  buildId := h'.buildId.trans h.buildId
  drvPath := h'.drvPath.trans h.drvPath
  outcome := fun hdone => (h'.outcome (h.isDone hdone)).trans (h.outcome hdone)

/-- **A later state that the same requests hold**, and that no worker was started for. -/
structure Keeps (b b' : QueuedBuild) : Prop extends Later b b' where
  holders : b'.holders = b.holders
  quits : b'.isBuilding = true → b.isBuilding = true

theorem Keeps.refl (b : QueuedBuild) : Keeps b b := ⟨.refl b, rfl, id⟩

theorem Keeps.trans {b b' b'' : QueuedBuild} (h : Keeps b b') (h' : Keeps b' b'') :
    Keeps b b'' :=
  ⟨h.toLater.trans h'.toLater, h'.holders.trans h.holders, fun hruns => h.quits (h'.quits hruns)⟩

theorem Keeps.aside (hid : b'.buildId = b.buildId) (hpath : b'.drvPath = b.drvPath)
    (hfuture : b'.future = b.future) (hholders : b'.holders = b.holders)
    (hworker : b'.worker = b.worker) : Keeps b b' :=
  ⟨⟨hid, hpath, fun _ => hfuture⟩, hholders, fun hruns => by rwa [isBuilding, hworker] at hruns⟩

theorem keeps_settle (b : QueuedBuild) (response : BuildResponse) :
    Keeps b (b.settle response) := by
  unfold settle
  split_ifs with hdone
  · exact .refl b
  · exact ⟨⟨rfl, rfl, fun h => absurd h hdone⟩, rfl, id⟩

theorem keeps_addSubscriber (b : QueuedBuild) (client : ClientConn) (cancel replayed : Bool) :
    Keeps b (b.addSubscriber client cancel replayed) := by
  simp only [addSubscriber]
  split
  · exact .aside rfl rfl rfl rfl rfl
  · split_ifs <;> exact .aside rfl rfl rfl rfl rfl

theorem keeps_removeSubscriber (b : QueuedBuild) (client : ClientConn) :
    Keeps b (b.removeSubscriber client).2 := by
  unfold removeSubscriber
  split
  · exact .refl b
  · split_ifs <;> exact .aside rfl rfl rfl rfl rfl

theorem keeps_unsubscribe (b : QueuedBuild) (client : ClientConn) :
    Keeps b (b.unsubscribe client) := by
  simp only [QueuedBuild.unsubscribe]
  split_ifs
  · exact (keeps_removeSubscriber b client).trans (keeps_settle _ _)
  · exact keeps_removeSubscriber b client

theorem keeps_cancelFuture (b : QueuedBuild) : Keeps b b.cancelFuture := by
  unfold QueuedBuild.cancelFuture
  split_ifs with hdone
  · exact .refl b
  · exact ⟨⟨rfl, rfl, fun hdone' => absurd hdone' hdone⟩, rfl, id⟩

theorem keeps_workerEnded (b : QueuedBuild) (scope : Nat) : Keeps b (b.workerEnded scope) := by
  unfold QueuedBuild.workerEnded
  split_ifs
  · exact ⟨⟨rfl, rfl, fun _ => rfl⟩, rfl, nofun⟩
  · exact .refl b

theorem later_release (b : QueuedBuild) (request : RequestId) :
    Later b (b.release request) ∧ (b.release request).holders = b.holders.erase request ∧
      ((b.release request).isBuilding = true → b.isBuilding = true) := by
  have hdrop : Later b { b with
      holders := b.holders.erase request
      schedulerRequestIds := b.schedulerRequestIds.erase request } := ⟨rfl, rfl, fun _ => rfl⟩
  simp only [release]
  split_ifs
  · exact ⟨hdrop.trans (keeps_settle _ _).toLater, (keeps_settle _ _).holders,
      (keeps_settle _ _).quits⟩
  · exact ⟨hdrop, rfl, id⟩

/-! ## The invariant -/

/-- What every operation of the queue keeps. -/
structure Inv (q : BuildQueue) : Prop where
  nextId : q.nextId = q.objects.length + 1
  ids : ∀ r b, q.objects[r]? = some b → b.buildId = r + 1
  made : ∀ r ∈ q.queue, r < q.objects.length
  nodup : q.queue.Nodup
  byId : ∀ item, item ∈ q.byId ↔ item.2 ∈ q.queue ∧ item.1 = item.2 + 1
  byPath : ∀ p r, Dict.get? q.byPath p = some r →
    r ∈ q.queue ∧ ∀ b, q.objects[r]? = some b → b.drvPath = p
  current : ∀ (r : Ref) b, q.objects[r]? = some b → b.isDone = false →
    Dict.get? q.byPath b.drvPath = some r
  held : ∀ request id, id ∈ q.heldBy request ↔
    ∃ r ∈ q.queue, ∃ b, q.objects[r]? = some b ∧ b.buildId = id ∧ request ∈ b.holders

theorem inv_empty : Inv empty where
  nextId := rfl
  ids := by
    intro r b h
    cases h
  made := by
    intro r h
    cases h
  nodup := nodup_nil
  byId := by
    intro item
    simp [empty]
  byPath := by
    intro p r h
    cases h
  current := by
    intro r b h
    cases h
  held := by
    intro request id
    simp [empty, heldBy]

theorem Inv.get?_byId (h : Inv q) {id : BuildId} :
    Dict.get? q.byId id = some r ↔ r ∈ q.queue ∧ id = r + 1 := by
  constructor
  · exact fun hget => (h.byId (id, r)).1 (Dict.mem_of_get?_eq_some hget)
  · rintro ⟨hr, hid⟩
    obtain ⟨r', hget⟩ := Dict.exists_get?_of_mem ((h.byId (id, r)).2 ⟨hr, hid⟩)
    have hid' : id = r' + 1 := ((h.byId (id, r')).1 (Dict.mem_of_get?_eq_some hget)).2
    obtain rfl : r = r' := Nat.add_right_cancel (hid.symm.trans hid')
    exact hget

/-! ## Operations that make no build and sweep none -/

/-- **The same indexes over later states of the same builds.** -/
structure Follows (q q' : BuildQueue) : Prop where
  length : q'.objects.length = q.objects.length
  later : ∀ (r : Ref) b b', q.objects[r]? = some b → q'.objects[r]? = some b' → Later b b'
  queue : q'.queue = q.queue
  byPath : q'.byPath = q.byPath
  byId : q'.byId = q.byId
  nextId : q'.nextId = q.nextId

theorem Follows.refl (q : BuildQueue) : Follows q q := by
  refine ⟨rfl, ?_, rfl, rfl, rfl, rfl⟩
  intro r b b' hb hb'
  rw [hb] at hb'
  cases hb'
  exact .refl b

theorem Follows.exists_before (h : Follows q q')
    (hb' : q'.objects[r]? = some b') : ∃ b, q.objects[r]? = some b ∧ Later b b' := by
  have hlt : r < q.objects.length := by
    rw [← h.length]
    exact (List.getElem?_eq_some_iff.1 hb').1
  have hb := getElem?_eq_getElem hlt
  exact ⟨_, hb, h.later r _ b' hb hb'⟩

theorem Follows.exists_after (h : Follows q q')
    (hb : q.objects[r]? = some b) : ∃ b', q'.objects[r]? = some b' ∧ Later b b' := by
  have hlt : r < q'.objects.length := by
    rw [h.length]
    exact (List.getElem?_eq_some_iff.1 hb).1
  have hb' := getElem?_eq_getElem hlt
  exact ⟨_, hb', h.later r b _ hb hb'⟩

theorem Follows.trans (h : Follows q q') (h' : Follows q' q'') :
    Follows q q'' where
  length := h'.length.trans h.length
  later := by
    intro r b b'' hb hb''
    obtain ⟨b', hb', hlater'⟩ := h'.exists_before hb''
    exact (h.later r b b' hb hb').trans hlater'
  queue := h'.queue.trans h.queue
  byPath := h'.byPath.trans h.byPath
  byId := h'.byId.trans h.byId
  nextId := h'.nextId.trans h.nextId

theorem Inv.of_follows (h : Inv q) (hfollows : Follows q q')
    (hheld : ∀ request id, id ∈ q'.heldBy request ↔
      ∃ r ∈ q'.queue, ∃ b, q'.objects[r]? = some b ∧ b.buildId = id ∧ request ∈ b.holders) :
    Inv q' where
  nextId := by rw [hfollows.nextId, hfollows.length, h.nextId]
  ids := by
    intro r b' hb'
    obtain ⟨b, hb, hlater⟩ := hfollows.exists_before hb'
    rw [hlater.buildId, h.ids r b hb]
  made := by
    rw [hfollows.queue, hfollows.length]
    exact h.made
  nodup := by
    rw [hfollows.queue]
    exact h.nodup
  byId := by
    rw [hfollows.byId, hfollows.queue]
    exact h.byId
  byPath := by
    intro p r hget
    rw [hfollows.byPath] at hget
    rw [hfollows.queue]
    refine ⟨(h.byPath p r hget).1, fun b' hb' => ?_⟩
    obtain ⟨b, hb, hlater⟩ := hfollows.exists_before hb'
    rw [hlater.drvPath, (h.byPath p r hget).2 b hb]
  current := by
    intro r b' hb' hrunning
    obtain ⟨b, hb, hlater⟩ := hfollows.exists_before hb'
    have hbefore : b.isDone = false := by
      by_contra hdone
      rw [hlater.isDone (by simpa using hdone)] at hrunning
      cases hrunning
    rw [hfollows.byPath, hlater.drvPath]
    exact h.current r b hb hbefore
  held := hheld

theorem follows_touch (q : BuildQueue) (r : Ref)
    (hf : ∀ b, Later b (f b)) : Follows q (q.touch r f) := by
  refine ⟨length_modify .., ?_, rfl, rfl, rfl, rfl⟩
  intro j b b' hb hb'
  rw [touch, getElem?_modify, hb] at hb'
  obtain rfl : (if r = j then f b else b) = b' := by simpa using hb'
  split_ifs
  · exact hf b
  · exact .refl b

theorem follows_foldl {α : Type} {f : BuildQueue → α → BuildQueue}
    (hf : ∀ q a, Follows q (f q a)) (l : List α) (q : BuildQueue) : Follows q (l.foldl f q) := by
  induction l generalizing q with
  | nil => exact .refl q
  | cons a l ih => exact (hf q a).trans (ih (f q a))

theorem Inv.touch (h : Inv q) (r : Ref)
    (hf : ∀ b, Later b (f b) ∧ (f b).holders = b.holders) : Inv (q.touch r f) := by
  apply h.of_follows (follows_touch q r fun b => (hf b).1)
  intro request id
  apply (h.held request id).trans
  have hsame : ∀ (j : Ref) b, (if r = j then f b else b).buildId = b.buildId ∧
      (if r = j then f b else b).holders = b.holders := by
    intro j b
    split_ifs
    · exact ⟨(hf b).1.buildId, (hf b).2⟩
    · exact ⟨rfl, rfl⟩
  constructor
  · rintro ⟨j, hj, b, hb, hid, hin⟩
    refine ⟨j, hj, if r = j then f b else b, ?_, (hsame j b).1.trans hid, ?_⟩
    · rw [BuildQueue.touch, getElem?_modify, hb]
      rfl
    · rw [(hsame j b).2]
      exact hin
  · rintro ⟨j, hj, b', hb', hid, hin⟩
    rw [BuildQueue.touch, getElem?_modify] at hb'
    obtain ⟨b, hb, rfl⟩ := Option.map_eq_some_iff.1 hb'
    exact ⟨j, hj, b, hb, (hsame j b).1.symm.trans hid, (hsame j b).2 ▸ hin⟩

/-- **A step that makes no build and sweeps none, and keeps the invariant.** -/
structure Quiet (q q' : BuildQueue) : Prop where
  follows : Follows q q'
  inv : Inv q → Inv q'

theorem Quiet.refl (q : BuildQueue) : Quiet q q := ⟨.refl q, id⟩

theorem Quiet.trans (h : Quiet q q') (h' : Quiet q' q'') : Quiet q q'' :=
  ⟨h.follows.trans h'.follows, fun hq => h'.inv (h.inv hq)⟩

theorem quiet_touch (q : BuildQueue) (r : Ref)
    (hf : ∀ b, Later b (f b) ∧ (f b).holders = b.holders) : Quiet q (q.touch r f) :=
  ⟨follows_touch q r fun b => (hf b).1, fun h => h.touch r hf⟩

/-- The step gives no build a worker. -/
structure Quits (q q' : BuildQueue) : Prop where
  ran : ∀ (r : Ref) b', q'.objects[r]? = some b' → b'.isBuilding = true →
    ∃ b, q.objects[r]? = some b ∧ b.isBuilding = true

theorem Quits.of_objects (h : q'.objects = q.objects) : Quits q q' := by
  constructor
  intro r b' hb' hbuilding
  exact ⟨b', h ▸ hb', hbuilding⟩

theorem Quits.refl (q : BuildQueue) : Quits q q := .of_objects rfl

theorem Quits.trans {q q' q'' : BuildQueue} (h : Quits q q') (h' : Quits q' q'') :
    Quits q q'' := by
  constructor
  intro r b'' hb'' hbuilding
  obtain ⟨b', hb', hbuilding'⟩ := h'.ran r b'' hb'' hbuilding
  exact h.ran r b' hb' hbuilding'

theorem quits_touch (q : BuildQueue) (r : Ref) {f : QueuedBuild → QueuedBuild}
    (hf : ∀ b, (f b).isBuilding = true → b.isBuilding = true) : Quits q (q.touch r f) := by
  constructor
  intro j b' hb' hbuilding
  rw [touch, getElem?_modify] at hb'
  obtain ⟨b, hb, rfl⟩ := Option.map_eq_some_iff.1 hb'
  refine ⟨b, hb, ?_⟩
  split_ifs at hbuilding
  · exact hf b hbuilding
  · exact hbuilding

theorem quits_foldl {α : Type} {f : BuildQueue → α → BuildQueue} (hf : ∀ q a, Quits q (f q a))
    (as : List α) (q : BuildQueue) : Quits q (as.foldl f q) := by
  induction as generalizing q with
  | nil => exact .refl q
  | cons a as ih => exact (hf q a).trans (ih _)

/-- **A quiet step that starts no worker.** -/
structure Idle (q q' : BuildQueue) : Prop extends Quiet q q' where
  quits : Quits q q'

theorem Idle.refl (q : BuildQueue) : Idle q q := ⟨.refl q, .refl q⟩

theorem Idle.trans (h : Idle q q') (h' : Idle q' q'') : Idle q q'' :=
  ⟨h.toQuiet.trans h'.toQuiet, h.quits.trans h'.quits⟩

theorem idle_touch (q : BuildQueue) (r : Ref) (hf : ∀ b, Keeps b (f b)) : Idle q (q.touch r f) :=
  ⟨quiet_touch q r fun b => ⟨(hf b).toLater, (hf b).holders⟩,
    quits_touch q r fun b => (hf b).quits⟩

/-! ## Holds -/

theorem heldBy_holdLocked (q : BuildQueue) (r : Ref) (id : BuildId) (request x : RequestId) :
    (q.holdLocked r id request).heldBy x =
      if request = x then (q.heldBy request).insert id else q.heldBy x := by
  simp only [holdLocked, heldBy, Dict.get?_set]
  split_ifs with hx
  · rfl
  · rfl

theorem follows_holdLocked (q : BuildQueue) (r : Ref) (id : BuildId) (request : RequestId) :
    Follows q (q.holdLocked r id request) := by
  have hhold : ∀ b : QueuedBuild, Later b (b.hold request) := fun b => ⟨rfl, rfl, fun _ => rfl⟩
  have htouch := follows_touch q r hhold
  exact ⟨htouch.length, htouch.later, rfl, rfl, rfl, rfl⟩

theorem Inv.holdLocked (h : Inv q)
    (hr : r ∈ q.queue) (hb : q.objects[r]? = some b) (request : RequestId) :
    Inv (q.holdLocked r b.buildId request) := by
  apply h.of_follows (follows_holdLocked ..)
  intro x id
  have hobjects : ∀ j, (q.holdLocked r b.buildId request).objects[j]? =
      (fun c => if r = j then QueuedBuild.hold c request else c) <$> q.objects[j]? :=
    fun j => getElem?_modify ..
  rw [heldBy_holdLocked]
  constructor
  · intro hid
    by_cases hnew : request = x ∧ id = b.buildId
    · obtain ⟨rfl, rfl⟩ := hnew
      refine ⟨r, hr, b.hold request, ?_, rfl, Finset.mem_insert_self ..⟩
      rw [hobjects, hb]
      simp
    · have hold : id ∈ q.heldBy x := by
        split_ifs at hid with hx
        · subst hx
          exact (mem_insert_iff.1 hid).resolve_left fun e => hnew ⟨rfl, e⟩
        · exact hid
      obtain ⟨j, hj, c, hc, hcid, hin⟩ := (h.held x id).1 hold
      refine ⟨j, hj, if r = j then c.hold request else c, ?_, ?_, ?_⟩
      · rw [hobjects, hc]
        rfl
      · split_ifs <;> exact hcid
      · split_ifs
        · exact Finset.mem_insert_of_mem hin
        · exact hin
  · rintro ⟨j, hj, c', hc', hcid, hin⟩
    rw [hobjects] at hc'
    obtain ⟨c, hc, rfl⟩ := Option.map_eq_some_iff.1 hc'
    by_cases hjr : r = j
    · subst hjr
      rw [hb] at hc
      cases hc
      rw [if_pos rfl] at hcid hin
      by_cases hx : request = x
      · rw [if_pos hx]
        exact mem_insert_iff.2 (.inl hcid.symm)
      · rw [if_neg hx]
        have hin' : x ∈ b.holders := (Finset.mem_insert.1 hin).resolve_left (Ne.symm hx)
        exact (h.held x id).2 ⟨r, hr, b, hb, hcid, hin'⟩
    · rw [if_neg hjr] at hcid hin
      have hold : id ∈ q.heldBy x := (h.held x id).2 ⟨j, hj, c, hc, hcid, hin⟩
      split_ifs with hx
      · subst hx
        exact mem_insert_iff.2 (.inr hold)
      · exact hold

theorem idle_holdLocked (hr : r ∈ q.queue) (hb : q.objects[r]? = some b) (request : RequestId) :
    Idle q (q.holdLocked r b.buildId request) := by
  have hhold := quits_touch q r (f := fun b => b.hold request) fun b hruns => hruns
  exact ⟨⟨follows_holdLocked .., fun h => h.holdLocked hr hb request⟩, ⟨hhold.ran⟩⟩

/-! ## What stands beside the indexes -/

theorem idle_aside (q : BuildQueue) (requests : List (RequestId × SchedulerBuildRequest))
    (nextRequestId : RequestId) (givenUp : Finset RequestId)
    (maxJobs : List (RequestId × Option Nat)) :
    Idle q { q with
      requests := requests, nextRequestId := nextRequestId, givenUp := givenUp
      maxJobs := maxJobs } :=
  ⟨⟨⟨rfl, (Follows.refl q).later, rfl, rfl, rfl, rfl⟩,
    fun h => ⟨h.nextId, h.ids, h.made, h.nodup, h.byId, h.byPath, h.current, h.held⟩⟩,
    .of_objects rfl⟩

theorem idle_addBuildTo (q : BuildQueue) (request : RequestId) (id : BuildId)
    (paths : Finset DerivedPath) : Idle q (q.addBuildTo request id paths) := by
  unfold addBuildTo
  split_ifs
  · exact .refl q
  · exact idle_aside q _ q.nextRequestId q.givenUp q.maxJobs

theorem idle_noteMaxJobs (q : BuildQueue) (a : EnqueueArgs) : Idle q (q.noteMaxJobs a) := by
  unfold noteMaxJobs
  split
  · exact .refl q
  · exact idle_aside q q.requests q.nextRequestId q.givenUp _

/-! ## Enqueue -/

theorem idle_holdForGoal (hr : r ∈ q.queue)
    (hb : q.objects[r]? = some b) (fromGoalPath : Bool) (goal : Option RequestId) :
    Idle q (q.holdForGoal r b.buildId fromGoalPath goal) := by
  unfold holdForGoal
  split
  · split_ifs
    · exact idle_holdLocked hr hb _
    · exact .refl q
  · exact .refl q

theorem running_eq_some {drvPath : String} (h : q.running drvPath = some (r, b)) :
    Dict.get? q.byPath drvPath = some r ∧ q.objects[r]? = some b ∧ b.isDone = false := by
  unfold running at h
  split at h
  · cases h
  · next r' hget =>
    split at h
    · cases h
    · next b' hb =>
      split_ifs at h with hdone
      cases h
      exact ⟨hget, hb, by simpa using hdone⟩

theorem running_eq_none {drvPath : String} (h : q.running drvPath = none)
    (hget : Dict.get? q.byPath drvPath = some r)
    (hb : q.objects[r]? = some b) : b.isDone = true := by
  by_contra hdone
  simp [running, hget, hb, hdone] at h

theorem idle_joinRunning (hr : r ∈ q.queue) (hb : q.objects[r]? = some b) (a : EnqueueArgs) :
    Idle q (q.joinRunning r b.buildId a) := by
  have hgoal : ∀ b : QueuedBuild, Keeps b
      { b with fromGoalPath := b.fromGoalPath || a.fromGoalPath } :=
    fun b => .aside rfl rfl rfl rfl rfl
  have htouch := idle_touch q r hgoal
  obtain ⟨b', hb', hlater⟩ := htouch.follows.exists_after hb
  rw [← htouch.follows.queue] at hr
  have hheld := htouch.trans (idle_holdForGoal hr hb' a.fromGoalPath a.goalRequestId)
  rw [hlater.buildId] at hheld
  simp only [joinRunning]
  split
  · exact hheld
  · next request _ =>
    have hadd : ∀ b : QueuedBuild, Keeps b
        { b with schedulerRequestIds := insert request b.schedulerRequestIds } :=
      fun b => .aside rfl rfl rfl rfl rfl
    exact (hheld.trans (idle_touch _ r hadd)).trans (idle_addBuildTo ..)

/-- The build that `append` makes, with the hold of its goal. -/
def appended (q : BuildQueue) (a : EnqueueArgs) : QueuedBuild :=
  let b := QueuedBuild.new q.nextId a.drvPath a.options a.schedulerRequestId.toFinset a.fromGoalPath
  match a.goalRequestId with
  | some request => if a.fromGoalPath then b.hold request else b
  | none => b

theorem appended_fields (q : BuildQueue) (a : EnqueueArgs) :
    (appended q a).buildId = q.nextId ∧ (appended q a).drvPath = a.drvPath ∧
      (appended q a).isDone = false := by
  simp only [appended]
  split
  · split_ifs <;> exact ⟨rfl, rfl, rfl⟩
  · exact ⟨rfl, rfl, rfl⟩

/-- `_held` after `append`. -/
def heldAppended (q : BuildQueue) (a : EnqueueArgs) : List (RequestId × List BuildId) :=
  match a.goalRequestId with
  | some request =>
    if a.fromGoalPath then Dict.set q.held request ((q.heldBy request).insert q.nextId)
    else q.held
  | none => q.held

theorem holdForGoal_appended (q : BuildQueue) (a : EnqueueArgs) :
    ({ q with objects := q.objects ++ [QueuedBuild.new q.nextId a.drvPath a.options
        a.schedulerRequestId.toFinset a.fromGoalPath] } : BuildQueue).holdForGoal
        q.objects.length q.nextId a.fromGoalPath a.goalRequestId =
      { q with objects := q.objects ++ [appended q a], held := heldAppended q a } := by
  simp only [holdForGoal, appended, heldAppended]
  cases a.goalRequestId with
  | none => rfl
  | some request =>
    split_ifs
    · simp only [holdLocked, touch]
      congr 1
      exact modifyTailIdx_add _ 0 q.objects _
    · rfl

theorem append_spec (q : BuildQueue) (a : EnqueueArgs) :
    (q.append a).objects = q.objects ++ [appended q a] ∧
      (q.append a).queue = q.queue ++ [q.objects.length] ∧
      (q.append a).nextId = q.nextId + 1 ∧
      (q.append a).byPath = Dict.set q.byPath a.drvPath q.objects.length ∧
      (q.append a).byId = Dict.set q.byId q.nextId q.objects.length ∧
      (q.append a).held = heldAppended q a := by
  simp only [append, holdForGoal_appended]
  split
  · exact ⟨rfl, rfl, rfl, rfl, rfl, rfl⟩
  · simp only [addBuildTo]
    split_ifs <;> exact ⟨rfl, rfl, rfl, rfl, rfl, rfl⟩

theorem mem_heldBy_append (q : BuildQueue) (a : EnqueueArgs) (x : RequestId) (id : BuildId) :
    id ∈ (q.append a).heldBy x ↔
      id ∈ q.heldBy x ∨ id = q.nextId ∧ x ∈ (appended q a).holders := by
  have hheld : (q.append a).heldBy x = (Dict.get? (heldAppended q a) x).getD [] := by
    rw [heldBy, (append_spec q a).2.2.2.2.2]
  rw [hheld]
  simp only [heldAppended, appended]
  cases a.goalRequestId with
  | none => simp [heldBy, QueuedBuild.new]
  | some request =>
    split_ifs
    · rw [Dict.get?_set]
      by_cases hx : request = x
      · subst hx
        simp [hold, QueuedBuild.new, or_comm]
      · simp [hx, heldBy, hold, QueuedBuild.new, Ne.symm hx]
    · simp [heldBy, QueuedBuild.new]

theorem objects_append (q : BuildQueue) (a : EnqueueArgs) (r : Ref) : (q.append a).objects[r]? =
      if r = q.objects.length then some (appended q a) else q.objects[r]? := by
  rw [(append_spec q a).1]
  by_cases hr : r = q.objects.length
  · rw [hr]
    simp
  · rw [getElem?_append]
    split_ifs with hlt
    · rfl
    · rw [getElem?_eq_none (Nat.le_of_not_lt hlt), getElem?_eq_none]
      exact Nat.sub_pos_of_lt (Nat.lt_of_le_of_ne (Nat.le_of_not_lt hlt) (Ne.symm hr))

/-- **A new build takes a new id, and its path.** -/
theorem Inv.append (h : Inv q) {a : EnqueueArgs}
    (hfree : q.running a.drvPath = none) : Inv (q.append a) := by
  obtain ⟨hobjects, hqueue, hnext, hpath, hid, -⟩ := append_spec q a
  obtain ⟨hnewId, hnewPath, hnewDone⟩ := appended_fields q a
  have hnew : (q.append a).objects[q.objects.length]? = some (appended q a) := by
    rw [objects_append, if_pos rfl]
  have hold : ∀ r ∈ q.queue, (q.append a).objects[r]? = q.objects[r]? := by
    intro r hr
    rw [objects_append, if_neg (Nat.ne_of_lt (h.made r hr))]
  have hmem : ∀ r, r ∈ (q.append a).queue ↔ r ∈ q.queue ∨ r = q.objects.length := by
    intro r
    rw [hqueue, mem_append, mem_singleton]
  have hunused : Dict.get? q.byId q.nextId = none := by
    apply Option.eq_none_iff_forall_ne_some.2
    intro r hget
    obtain ⟨hr, heq⟩ := h.get?_byId.1 hget
    rw [h.nextId] at heq
    exact Nat.ne_of_lt (h.made r hr) (Nat.add_right_cancel heq).symm
  refine ⟨?_, ?_, ?_, ?_, ?_, ?_, ?_, ?_⟩
  · rw [hnext, hobjects, h.nextId, length_append, length_singleton]
  · intro r b hb
    rw [objects_append] at hb
    split_ifs at hb with hr
    · cases hb
      rw [hnewId, h.nextId, hr]
    · exact h.ids r b hb
  · intro r hr
    rw [hobjects, length_append]
    rcases (hmem r).1 hr with hr | rfl
    · exact Nat.lt_succ_of_lt (h.made r hr)
    · exact Nat.lt_succ_self _
  · rw [hqueue]
    refine h.nodup.append (nodup_singleton _) (disjoint_singleton.2 ?_)
    exact fun hin => Nat.lt_irrefl _ (h.made _ hin)
  · intro item
    rw [hid, Dict.set_of_get?_eq_none hunused, mem_append, mem_singleton, h.byId, hmem]
    constructor
    · rintro (hin | rfl)
      · exact ⟨.inl hin.1, hin.2⟩
      · exact ⟨.inr rfl, h.nextId⟩
    · rintro ⟨hin | hin, heq⟩
      · exact .inl ⟨hin, heq⟩
      · refine .inr (Prod.ext ?_ hin)
        rw [heq, hin, h.nextId]
  · intro p r hget
    rw [hpath, Dict.get?_set] at hget
    split_ifs at hget with hp
    · cases hget
      refine ⟨(hmem _).2 (.inr rfl), fun b hb => ?_⟩
      rw [hnew] at hb
      cases hb
      rw [hnewPath, hp]
    · obtain ⟨hr, hdrv⟩ := h.byPath p r hget
      refine ⟨(hmem r).2 (.inl hr), fun b hb => hdrv b ?_⟩
      rw [← hold r hr]
      exact hb
  · intro r b hb hrunning
    rw [hpath]
    rw [objects_append] at hb
    split_ifs at hb with hr
    · cases hb
      rw [hnewPath, Dict.get?_set_self, hr]
    · have hcurrent := h.current r b hb hrunning
      -- an older build of the path that runs would have been joined
      have hother : a.drvPath ≠ b.drvPath := by
        intro heq
        rw [running_eq_none hfree (heq ▸ hcurrent) hb] at hrunning
        cases hrunning
      rw [Dict.get?_set_of_ne _ _ hother]
      exact hcurrent
  · intro x id
    rw [mem_heldBy_append, h.held]
    constructor
    · rintro (⟨r, hr, b, hb, hbid, hin⟩ | ⟨rfl, hin⟩)
      · exact ⟨r, (hmem r).2 (.inl hr), b, (hold r hr).trans hb, hbid, hin⟩
      · exact ⟨_, (hmem _).2 (.inr rfl), appended q a, hnew, hnewId, hin⟩
    · rintro ⟨r, hr, b, hb, hbid, hin⟩
      rcases (hmem r).1 hr with hr | rfl
      · exact .inl ⟨r, hr, b, (hold r hr).symm.trans hb, hbid, hin⟩
      · rw [hnew] at hb
        cases hb
        exact .inr ⟨hbid.symm.trans hnewId, hin⟩

/-! ## A request lets go -/

theorem follows_letGo (request : RequestId) (q : BuildQueue) (id : BuildId) :
    Follows q (letGo request q id) := by
  unfold letGo
  split
  · exact .refl q
  · exact follows_touch q _ fun b => (later_release b request).1

def holdersAt (q : BuildQueue) (r : Ref) : Option (Finset RequestId) :=
  (q.objects[r]?).map (·.holders)

theorem holdersAt_letGo (request : RequestId) (q : BuildQueue) (id : BuildId) (r : Ref) :
    (letGo request q id).holdersAt r =
      (q.holdersAt r).map fun hs =>
        if Dict.get? q.byId id = some r then hs.erase request else hs := by
  unfold letGo holdersAt
  cases hget : Dict.get? q.byId id with
  | none => cases q.objects[r]? <;> rfl
  | some r' =>
    simp only [touch, getElem?_modify, Option.some.injEq]
    cases q.objects[r]? with
    | none => rfl
    | some b =>
      by_cases hr : r' = r
      · simp [hr, (later_release b request).2.1]
      · simp [hr]

/-- **The request is off every build it held**, and off no other. -/
theorem holdersAt_foldl_letGo (request : RequestId) (ids : List BuildId) (q : BuildQueue)
    (r : Ref) : (ids.foldl (letGo request) q).holdersAt r =
      (q.holdersAt r).map fun hs =>
        if ∃ id ∈ ids, Dict.get? q.byId id = some r then hs.erase request else hs := by
  induction ids generalizing q with
  | nil => simp
  | cons id ids ih =>
    rw [foldl_cons, ih, holdersAt_letGo, (follows_letGo request q id).byId,
      Option.map_map]
    congr 1
    funext hs
    by_cases hid : Dict.get? q.byId id = some r
    · by_cases hrest : ∃ id ∈ ids, Dict.get? q.byId id = some r
      · simp [hid, hrest]
      · simp [hid, hrest]
    · simp [hid]

theorem follows_releaseHolds (q : BuildQueue) (request : RequestId) :
    Follows q (q.releaseHolds request) := by
  have hpop : Follows q { q with held := Dict.pop q.held request } :=
    ⟨rfl, (Follows.refl q).later, rfl, rfl, rfl, rfl⟩
  have hfold := hpop.trans (follows_foldl (follows_letGo request) (q.heldBy request) _)
  exact ⟨hfold.length, hfold.later, hfold.queue, hfold.byPath, hfold.byId, hfold.nextId⟩

theorem foldl_letGo_eq (request : RequestId) (ids : List BuildId) (q : BuildQueue) :
    ids.foldl (letGo request) q =
      { q with objects := (ids.foldl (letGo request) q).objects } := by
  induction ids generalizing q with
  | nil => rfl
  | cons id ids ih =>
    rw [foldl_cons, ih]
    unfold letGo
    split <;> rfl

theorem heldBy_releaseHolds (q : BuildQueue) (request x : RequestId) :
    (q.releaseHolds request).heldBy x = if request = x then [] else q.heldBy x := by
  have hheld : (q.releaseHolds request).held = Dict.pop q.held request := by
    rw [releaseHolds, foldl_letGo_eq]
  rw [heldBy, hheld, Dict.get?_pop]
  split_ifs
  · rfl
  · rfl

theorem Inv.releaseHolds (h : Inv q) (request : RequestId) : Inv (q.releaseHolds request) := by
  have hfollows := follows_releaseHolds q request
  have hholders : ∀ r, (q.releaseHolds request).holdersAt r =
      (q.holdersAt r).map fun hs =>
        if ∃ id ∈ q.heldBy request, Dict.get? q.byId id = some r then hs.erase request else hs :=
    fun r => holdersAt_foldl_letGo request (q.heldBy request) _ r
  apply h.of_follows hfollows
  intro x id
  rw [heldBy_releaseHolds]
  constructor
  · intro hid
    split_ifs at hid with hx
    · cases hid
    · obtain ⟨r, hr, b, hb, hbid, hin⟩ := (h.held x id).1 hid
      obtain ⟨b', hb', hlater⟩ := hfollows.exists_after hb
      refine ⟨r, hfollows.queue ▸ hr, b', hb', hlater.buildId.trans hbid, ?_⟩
      have hat := hholders r
      simp only [holdersAt, hb, hb', Option.map_some, Option.some.injEq] at hat
      rw [hat]
      split_ifs
      · exact Finset.mem_erase.2 ⟨Ne.symm hx, hin⟩
      · exact hin
  · rintro ⟨r, hr, b', hb', hbid, hin⟩
    rw [hfollows.queue] at hr
    obtain ⟨b, hb, hlater⟩ := hfollows.exists_before hb'
    rw [hlater.buildId] at hbid
    have hat := hholders r
    simp only [holdersAt, hb, hb', Option.map_some, Option.some.injEq] at hat
    rw [hat] at hin
    have hbefore : x ∈ b.holders := by
      split_ifs at hin
      · exact Finset.mem_of_mem_erase hin
      · exact hin
    have hid : id ∈ q.heldBy x := (h.held x id).2 ⟨r, hr, b, hb, hbid, hbefore⟩
    -- what the request held, it has let go of
    have hx : request ≠ x := by
      rintro rfl
      have hfound : ∃ id ∈ q.heldBy request, Dict.get? q.byId id = some r :=
        ⟨id, hid, h.get?_byId.2 ⟨hr, hbid.symm.trans (h.ids r b hb)⟩⟩
      rw [if_pos hfound] at hin
      exact Finset.notMem_erase _ _ hin
    rw [if_neg hx]
    exact hid

/-! ## The sweep -/

theorem dropItem_frame (gone : List Ref) (q : BuildQueue) (item : BuildId × Ref) :
    (dropItem gone q item).objects = q.objects ∧ (dropItem gone q item).queue = q.queue ∧
      (dropItem gone q item).nextId = q.nextId ∧ (dropItem gone q item).held = q.held := by
  simp only [dropItem]
  split_ifs
  · split
    · exact ⟨rfl, rfl, rfl, rfl⟩
    · split_ifs <;> exact ⟨rfl, rfl, rfl, rfl⟩
  · exact ⟨rfl, rfl, rfl, rfl⟩

theorem mem_dropItem_byId {gone : List Ref} {item x : BuildId × Ref} :
    x ∈ (dropItem gone q item).byId ↔ x ∈ q.byId ∧ (item.2 ∈ gone → x.1 ≠ item.1) := by
  have hbyId : (dropItem gone q item).byId =
      if item.2 ∈ gone then Dict.pop q.byId item.1 else q.byId := by
    simp only [dropItem]
    split_ifs
    · split
      · rfl
      · split_ifs <;> rfl
    · rfl
  rw [hbyId]
  split_ifs with hin
  · simp [Dict.mem_pop, hin]
  · simp [hin]

theorem get?_dropItem_byPath {gone : List Ref} {item : BuildId × Ref} {p : String} :
    Dict.get? (dropItem gone q item).byPath p = some r ↔
      Dict.get? q.byPath p = some r ∧
        ¬(item.2 = r ∧ r ∈ gone ∧ (q.objects[r]?).map (·.drvPath) = some p) := by
  simp only [dropItem]
  by_cases hin : item.2 ∈ gone
  · rw [if_pos hin]
    cases hb : q.objects[item.2]? with
    | none =>
      constructor
      · refine fun hget => ⟨hget, ?_⟩
        rintro ⟨rfl, -, hpath⟩
        simp [hb] at hpath
      · exact And.left
    | some b =>
      dsimp only
      split_ifs with hown
      · -- the entry is this build's, and goes
        rw [Dict.get?_pop]
        by_cases hp : b.drvPath = p
        · subst hp
          rw [if_pos rfl]
          constructor
          · intro hnone
            cases hnone
          · rintro ⟨hget, hnot⟩
            rw [hown] at hget
            cases hget
            exact absurd ⟨rfl, hin, by simp [hb]⟩ hnot
        · rw [if_neg hp]
          refine ⟨fun hget => ⟨hget, ?_⟩, And.left⟩
          rintro ⟨rfl, -, hpath⟩
          simp [hb, hp] at hpath
      · -- a newer build of the path keeps its entry
        refine ⟨fun hget => ⟨hget, ?_⟩, And.left⟩
        rintro ⟨rfl, -, hpath⟩
        obtain rfl : b.drvPath = p := by simpa [hb] using hpath
        exact hown hget
  · rw [if_neg hin]
    refine ⟨fun hget => ⟨hget, ?_⟩, And.left⟩
    rintro ⟨rfl, hgone, -⟩
    exact hin hgone

theorem foldl_dropItem (gone : List Ref) (items : List (BuildId × Ref)) (q : BuildQueue) :
    ((items.foldl (dropItem gone) q).objects = q.objects ∧
      (items.foldl (dropItem gone) q).queue = q.queue ∧
      (items.foldl (dropItem gone) q).nextId = q.nextId ∧
      (items.foldl (dropItem gone) q).held = q.held) ∧
    (∀ x, x ∈ (items.foldl (dropItem gone) q).byId ↔
      x ∈ q.byId ∧ ∀ item ∈ items, item.2 ∈ gone → x.1 ≠ item.1) ∧
    ∀ p r, Dict.get? (items.foldl (dropItem gone) q).byPath p = some r ↔
      Dict.get? q.byPath p = some r ∧
        ∀ item ∈ items, ¬(item.2 = r ∧ r ∈ gone ∧ (q.objects[r]?).map (·.drvPath) = some p) := by
  induction items generalizing q with
  | nil => simp
  | cons item items ih =>
    obtain ⟨⟨hobjects, hqueue, hnext, hheld⟩, hbyId, hbyPath⟩ := ih (dropItem gone q item)
    obtain ⟨hobjects', hqueue', hnext', hheld'⟩ := dropItem_frame gone q item
    simp only [foldl_cons]
    refine ⟨⟨hobjects.trans hobjects', hqueue.trans hqueue', hnext.trans hnext',
      hheld.trans hheld'⟩, ?_, ?_⟩
    · intro x
      rw [hbyId, mem_dropItem_byId, forall_mem_cons, and_assoc]
    · intro p r
      rw [hbyPath, get?_dropItem_byPath, hobjects', forall_mem_cons, and_assoc]

/-- **`prune`, index by index**: the builds that nobody holds or streams leave the queue,
`_by_id` and `_by_path`, and nothing else does. -/
theorem prune_spec (h : Inv q) :
    (q.prune.objects = q.objects ∧ q.prune.nextId = q.nextId ∧ q.prune.held = q.held) ∧
      q.prune.queue = q.queue.filter (· ∉ q.doomed) ∧
      (∀ x, x ∈ q.prune.byId ↔ x ∈ q.byId ∧ x.2 ∉ q.doomed) ∧
      ∀ p r, Dict.get? q.prune.byPath p = some r ↔
        Dict.get? q.byPath p = some r ∧ r ∉ q.doomed := by
  unfold prune
  split_ifs with hnone
  · simp [hnone]
  · obtain ⟨⟨hobjects, hqueue, hnext, hheld⟩, hbyId, hbyPath⟩ :=
      foldl_dropItem q.doomed q.byId { q with queue := q.queue.filter (· ∉ q.doomed) }
    refine ⟨⟨hobjects, hnext, hheld⟩, hqueue, ?_, ?_⟩
    · intro x
      rw [hbyId]
      refine and_congr_right fun hx => ⟨fun hall hin => hall x hx hin rfl, ?_⟩
      intro hout item hitem hin heq
      -- an id belongs to one build
      have hx' := ((h.byId x).1 hx).2
      have hitem' := ((h.byId item).1 hitem).2
      have hsame : x.2 = item.2 := Nat.add_right_cancel (hx'.symm.trans (heq.trans hitem'))
      exact hout (hsame ▸ hin)
    · intro p r
      rw [hbyPath]
      apply and_congr_right
      intro hget
      obtain ⟨hr, hdrv⟩ := h.byPath p r hget
      obtain ⟨b, hb⟩ : ∃ b, q.objects[r]? = some b :=
        ⟨_, getElem?_eq_getElem (h.made r hr)⟩
      constructor
      · intro hall hin
        refine hall (r + 1, r) ((h.byId _).2 ⟨hr, rfl⟩) ⟨rfl, hin, ?_⟩
        rw [hb, Option.map_some, hdrv b hb]
      · rintro hout item - ⟨-, hin, -⟩
        exact hout hin

/-- **The sweep takes only builds that are done and that nobody holds or streams.** -/
theorem abandoned_of_mem_doomed (h : r ∈ q.doomed) :
    ∃ b, q.objects[r]? = some b ∧ abandoned b = true := by
  have hany := (mem_filter.1 h).2
  cases hb : q.objects[r]? with
  | none => simp [hb] at hany
  | some b => exact ⟨b, rfl, by simpa [hb] using hany⟩

theorem abandoned_iff :
    abandoned b = true ↔
      b.isDone = true ∧ b.schedulerRequestIds = ∅ ∧ b.holders = ∅ ∧ b.subscribers = [] := by
  simp [abandoned, and_assoc]

theorem Inv.prune (h : Inv q) : Inv q.prune := by
  obtain ⟨⟨hobjects, hnext, hheld⟩, hqueue, hbyId, hbyPath⟩ := prune_spec h
  have hmem : ∀ r, r ∈ q.prune.queue ↔ r ∈ q.queue ∧ r ∉ q.doomed := by
    intro r
    rw [hqueue, mem_filter, decide_eq_true_eq]
  refine ⟨?_, ?_, ?_, ?_, ?_, ?_, ?_, ?_⟩
  · rw [hnext, hobjects]
    exact h.nextId
  · rw [hobjects]
    exact h.ids
  · intro r hr
    rw [hobjects]
    exact h.made r ((hmem r).1 hr).1
  · rw [hqueue]
    exact h.nodup.filter _
  · intro item
    rw [hbyId, hmem, h.byId, and_right_comm]
  · intro p r hget
    obtain ⟨hget, hout⟩ := (hbyPath p r).1 hget
    rw [hobjects]
    exact ⟨(hmem r).2 ⟨(h.byPath p r hget).1, hout⟩, (h.byPath p r hget).2⟩
  · intro r b hb hrunning
    rw [hobjects] at hb
    refine (hbyPath _ r).2 ⟨h.current r b hb hrunning, fun hdoomed => ?_⟩
    obtain ⟨c, hc, hleft⟩ := abandoned_of_mem_doomed hdoomed
    rw [hb] at hc
    cases hc
    rw [(abandoned_iff.1 hleft).1] at hrunning
    cases hrunning
  · intro x id
    rw [show q.prune.heldBy x = q.heldBy x by rw [heldBy, hheld, heldBy], h.held, hobjects]
    constructor
    · rintro ⟨r, hr, b, hb, hid, hin⟩
      refine ⟨r, (hmem r).2 ⟨hr, fun hdoomed => ?_⟩, b, hb, hid, hin⟩
      -- a build that somebody holds is not swept
      obtain ⟨c, hc, hleft⟩ := abandoned_of_mem_doomed hdoomed
      rw [hb] at hc
      cases hc
      rw [(abandoned_iff.1 hleft).2.2.1] at hin
      exact Finset.notMem_empty _ hin
    · rintro ⟨r, hr, b, hb, hid, hin⟩
      exact ⟨r, ((hmem r).1 hr).1, b, hb, hid, hin⟩

theorem idle_forgetRequest (q : BuildQueue) (request : RequestId) :
    Idle q (q.forgetRequest request) := by
  have hforget : ∀ b : QueuedBuild, Keeps b
      { b with schedulerRequestIds := b.schedulerRequestIds.erase request } :=
    fun b => .aside rfl rfl rfl rfl rfl
  unfold forgetRequest
  induction q.queue generalizing q with
  | nil => exact .refl q
  | cons r queue ih => exact (idle_touch q r hforget).trans (ih _)

/-- **What `complete` and `fail` write**: the answer of one build, and requests that give up. -/
theorem finish_cases (q : BuildQueue) (id : BuildId) (response : BuildResponse) :
    (q.finish id response).2 = q ∨ ∃ r givenUp,
      (q.finish id response).2 = { q.touch r (·.settle response) with givenUp } := by
  unfold finish
  split
  · exact .inl rfl
  · next r _ =>
    split
    · exact .inl rfl
    · split_ifs
      · exact .inl rfl
      · refine .inr ⟨r, ?_⟩
        split
        · exact ⟨_, rfl⟩
        · unfold noteGivenUp
          split_ifs
          · exact ⟨_, rfl⟩
          · split
            · exact ⟨_, rfl⟩
            · split_ifs <;> exact ⟨_, rfl⟩

theorem idle_finish (q : BuildQueue) (id : BuildId) (response : BuildResponse) :
    Idle q (q.finish id response).2 := by
  rcases finish_cases q id response with hsame | ⟨r, givenUp, hwrites⟩
  · rw [hsame]
    exact .refl q
  · rw [hwrites]
    exact (idle_touch q r fun b => keeps_settle b response).trans (idle_aside _ _ _ _ _)

theorem idle_cancelUnwanted (q : BuildQueue) (id : BuildId) : Idle q (q.cancelUnwanted id) := by
  unfold cancelUnwanted
  split
  · exact .refl q
  · exact idle_touch q _ fun b => keeps_settle b _

theorem idle_subscribe (q : BuildQueue) (id : BuildId) (client : ClientConn)
    (cancel replayed : Bool) : Idle q (q.subscribe id client cancel replayed).2 := by
  unfold subscribe
  split
  · exact .refl q
  · exact idle_touch q _ fun b => keeps_addSubscriber b ..

theorem idle_unsubscribe (q : BuildQueue) (id : BuildId) (client : ClientConn) :
    Idle q (q.unsubscribe id client).2 := by
  unfold unsubscribe
  split
  · exact .refl q
  · exact idle_touch q _ fun b => keeps_unsubscribe b _

/-! ## Steps -/

/-- **What a step does**: it keeps the invariant, every build goes on as itself, and what
leaves the queue is done, held by nobody and streamed by nobody. -/
structure Advances (q q' : BuildQueue) : Prop where
  inv : Inv q'
  persists : ∀ (r : Ref) b, q.objects[r]? = some b → ∃ b', q'.objects[r]? = some b' ∧ Later b b'
  swept : ∀ r ∈ q.queue, r ∉ q'.queue → ∃ b, q'.objects[r]? = some b ∧ abandoned b = true

theorem Quiet.advances (hquiet : Quiet q q') (h : Inv q) : Advances q q' where
  inv := hquiet.inv h
  persists := fun _ _ hb => hquiet.follows.exists_after hb
  swept := by
    intro r hr hout
    rw [hquiet.follows.queue] at hout
    exact absurd hr hout

theorem Follows.advances_prune (hfollows : Follows q q') (h' : Inv q') : Advances q q'.prune := by
  obtain ⟨⟨hobjects, -, -⟩, hqueue, -, -⟩ := prune_spec h'
  refine ⟨h'.prune, ?_, ?_⟩
  · intro r b hb
    rw [hobjects]
    exact hfollows.exists_after hb
  · intro r hr hout
    rw [← hfollows.queue] at hr
    rw [hobjects]
    refine abandoned_of_mem_doomed (by_contra fun hkept => hout ?_)
    rw [hqueue, mem_filter, decide_eq_true_eq]
    exact ⟨hr, hkept⟩

theorem Inv.advances_append (h : Inv q) {a : EnqueueArgs}
    (hfree : q.running a.drvPath = none) : Advances q (q.append a) where
  inv := h.append hfree
  persists := by
    intro r b hb
    refine ⟨b, ?_, .refl b⟩
    rw [objects_append, if_neg]
    · exact hb
    · rintro rfl
      rw [getElem?_eq_none (Nat.le_refl _)] at hb
      cases hb
  swept := by
    intro r hr hout
    rw [(append_spec q a).2.1] at hout
    exact absurd (mem_append_left _ hr) hout

theorem Quiet.trans_advances (h : Quiet q q') (h' : Advances q' q'') :
    Advances q q'' where
  inv := h'.inv
  persists := by
    intro r b hb
    obtain ⟨b', hb', hlater⟩ := h.follows.exists_after hb
    obtain ⟨b'', hb'', hlater'⟩ := h'.persists r b' hb'
    exact ⟨b'', hb'', hlater.trans hlater'⟩
  swept := by
    intro r hr hout
    rw [← h.follows.queue] at hr
    exact h'.swept r hr hout

theorem Inv.advances_enqueue (h : Inv q) (a : EnqueueArgs) : Advances q (q.enqueue a).2 := by
  have hnote := idle_noteMaxJobs q a
  unfold enqueue
  split_ifs
  · exact (Quiet.refl q).advances h
  · dsimp only
    split
    · next r b hrunning =>
      obtain ⟨hget, hb, -⟩ := running_eq_some hrunning
      have hr := ((hnote.inv h).byPath _ r hget).1
      exact (hnote.trans (idle_joinRunning hr hb a)).advances h
    · next hfree => exact hnote.trans_advances ((hnote.inv h).advances_append hfree)

theorem Inv.advances_next (h : Inv q) (e : Event) : Advances q (q.next e) := by
  cases e with
  | createRequest paths client =>
    exact (idle_aside q _ _ q.givenUp q.maxJobs).advances h
  | enqueue a => exact h.advances_enqueue a
  | subscribe id client cancel replayed =>
    exact (idle_subscribe q id client cancel replayed).advances h
  | unsubscribe id client => exact (idle_unsubscribe q id client).advances h
  | releaseRequest request =>
    exact (follows_releaseHolds q request).advances_prune (h.releaseHolds request)
  | getPending => exact (Quiet.refl q).advances h
  | complete id response => exact (idle_finish q id response).advances h
  | fail id errorMsg => exact (idle_finish q id _).advances h
  | resetForRetry r store =>
    refine (idle_touch q r fun b => ?_).advances h
    exact ⟨⟨rfl, rfl, fun _ => rfl⟩, rfl, nofun⟩
  | cancelUnwanted id => exact (idle_cancelUnwanted q id).advances h
  | prune => exact (Follows.refl q).advances_prune h
  | pruneRequest request =>
    have hforget := idle_forgetRequest q request
    have hprune := hforget.follows.advances_prune (hforget.inv h)
    let p := (q.forgetRequest request).prune
    have hdrop := idle_aside p (Dict.pop p.requests request) p.nextRequestId p.givenUp p.maxJobs
    exact ⟨hdrop.inv hprune.inv, hprune.persists, hprune.swept⟩
  | assign r scope time =>
    refine (quiet_touch q r fun b => ?_).advances h
    exact ⟨⟨rfl, rfl, fun _ => rfl⟩, rfl⟩
  | workerEnded r scope => exact (idle_touch q r fun b => keeps_workerEnded b scope).advances h
  | cancelFuture r => exact (idle_touch q r keeps_cancelFuture).advances h
  | dropSubscriber r client =>
    exact (idle_touch q r fun b => keeps_removeSubscriber b client).advances h

/-! ## Runs -/

/-- **The indexes agree.** -/
structure Consistent (q : BuildQueue) : Prop where
  /-- A build that is not done is in the queue, and `_by_path` names it. -/
  named : ∀ (r : Ref) b, q.objects[r]? = some b → b.isDone = false →
    r ∈ q.queue ∧ Dict.get? q.byPath b.drvPath = some r
  /-- Of one derivation, one build at most is not done. -/
  one : ∀ (r r' : Ref) b b', q.objects[r]? = some b → q.objects[r']? = some b' →
    b.isDone = false → b'.isDone = false → b.drvPath = b'.drvPath → r = r'
  /-- The queue lists a build once, and `_by_id` has the builds of the queue under their
  ids. -/
  nodup : q.queue.Nodup
  byId : ∀ id r, Dict.get? q.byId id = some r ↔
    r ∈ q.queue ∧ ∃ b, q.objects[r]? = some b ∧ b.buildId = id
  /-- What `_by_path` names is a build of the queue, under its own path. -/
  byPath : ∀ p r, Dict.get? q.byPath p = some r →
    r ∈ q.queue ∧ ∃ b, q.objects[r]? = some b ∧ b.drvPath = p
  /-- No two builds that were ever made share an id, and the next id is new. -/
  ids : ∀ (r r' : Ref) b b', q.objects[r]? = some b → q.objects[r']? = some b' →
    b.buildId = b'.buildId → r = r'
  nextId : ∀ (r : Ref) b, q.objects[r]? = some b → b.buildId < q.nextId
  /-- `_held` and `holders` say the same. -/
  held : ∀ request id, id ∈ q.heldBy request ↔
    ∃ r ∈ q.queue, ∃ b, q.objects[r]? = some b ∧ b.buildId = id ∧ request ∈ b.holders

theorem Inv.consistent (h : Inv q) : Consistent q where
  named := by
    intro r b hb hrunning
    have hget := h.current r b hb hrunning
    exact ⟨(h.byPath _ r hget).1, hget⟩
  one := by
    intro r r' b b' hb hb' hrunning hrunning' hpath
    have hget := h.current r b hb hrunning
    rw [hpath, h.current r' b' hb' hrunning'] at hget
    exact (Option.some.inj hget).symm
  nodup := h.nodup
  byId := by
    intro id r
    rw [h.get?_byId]
    refine and_congr_right fun hr => ⟨fun hid => ?_, ?_⟩
    · have hb := getElem?_eq_getElem (h.made r hr)
      exact ⟨_, hb, (h.ids r _ hb).trans hid.symm⟩
    · rintro ⟨b, hb, rfl⟩
      exact h.ids r b hb
  byPath := by
    intro p r hget
    obtain ⟨hr, hpath⟩ := h.byPath p r hget
    have hb := getElem?_eq_getElem (h.made r hr)
    exact ⟨hr, _, hb, hpath _ hb⟩
  ids := by
    intro r r' b b' hb hb' hid
    rw [h.ids r b hb, h.ids r' b' hb'] at hid
    exact Nat.add_right_cancel hid
  nextId := by
    intro r b hb
    rw [h.ids r b hb, h.nextId]
    exact Nat.succ_lt_succ (List.getElem?_eq_some_iff.1 hb).1
  held := h.held

theorem Inv.persists_run (h : Inv q)
    (hrun : run step q es = some q') (hb : q.objects[r]? = some b) :
    ∃ b', q'.objects[r]? = some b' ∧ Later b b' := by
  induction es generalizing q b with
  | nil =>
    obtain rfl : q = q' := by simpa using hrun
    exact ⟨b, hb, .refl b⟩
  | cons e es ih =>
    obtain ⟨q₁, hstep, hrest⟩ := run_cons_eq_some.1 hrun
    cases hstep
    have hadvances := h.advances_next e
    obtain ⟨b₁, hb₁, hlater⟩ := hadvances.persists r b hb
    obtain ⟨b', hb', hlater'⟩ := ih hadvances.inv hrest hb₁
    exact ⟨b', hb', hlater.trans hlater'⟩

theorem inv_of_steps (hrun : run step empty es = some q) : Inv q := by
  refine inv_of_run (fun q e q' hq hstep => ?_) inv_empty hrun
  cases hstep
  exact (hq.advances_next e).inv

/-- **The queue over whole runs.**  After any sequence of operations the indexes agree;
whatever comes next, a build keeps its id, its path and the first outcome of its future;
and a step takes a build out of the queue only if it is done, held by nobody and streamed
by nobody. -/
theorem indexes_of_run {es : List Event} {q : BuildQueue} (hrun : run step empty es = some q) :
    Consistent q ∧
      (∀ es' q', run step q es' = some q' → ∀ (r : Ref) b, q.objects[r]? = some b →
        ∃ b', q'.objects[r]? = some b' ∧ b'.buildId = b.buildId ∧ b'.drvPath = b.drvPath ∧
          (b.isDone = true → b'.future = b.future)) ∧
      ∀ e q', step q e = some q' → ∀ r ∈ q.queue, r ∉ q'.queue →
        ∃ b, q'.objects[r]? = some b ∧ b.isDone = true ∧ b.schedulerRequestIds = ∅ ∧
          b.holders = ∅ ∧ b.subscribers = [] := by
  have h := inv_of_steps hrun
  refine ⟨h.consistent, ?_, ?_⟩
  · intro es' q' hrun' r b hb
    obtain ⟨b', hb', hlater⟩ := h.persists_run hrun' hb
    exact ⟨b', hb', hlater.buildId, hlater.drvPath, hlater.outcome⟩
  · intro e q' hstep r hr hout
    cases hstep
    obtain ⟨b, hb, hleft⟩ := (h.advances_next e).swept r hr hout
    exact ⟨b, hb, abandoned_iff.1 hleft⟩

/-- A goal of the request asks for `d.drv`. -/
def goalArgs (request : RequestId) : EnqueueArgs :=
  ⟨"d.drv", none, ∅, true, some request, none⟩

/-- Two goals share a build that ends. -/
def sharedBuild : List Event :=
  [.enqueue (goalArgs 1), .enqueue (goalArgs 2), .complete 1 ⟨0, ""⟩]

theorem consistent_sharedBuild :
    ∃ q, run step empty sharedBuild = some q ∧ q.queue = [0] ∧ Consistent q := by
  have hread : (run step empty sharedBuild).map (·.queue) = some [0] := by decide +kernel
  obtain ⟨q, hrun, hqueue⟩ := Option.map_eq_some_iff.1 hread
  exact ⟨q, hrun, hqueue, (indexes_of_run hrun).1⟩

/-- A build that is done and still held stays in the queue and in `_by_id`, and the next
request for its derivation takes its path. -/
theorem byPath_forgets_held :
    ∃ q, run step empty [.enqueue (goalArgs 1), .complete 1 ⟨0, ""⟩, .enqueue (goalArgs 2)] =
        some q ∧ 0 ∈ q.queue ∧ Dict.get? q.byId 1 = some 0 ∧
      ∀ p, Dict.get? q.byPath p ≠ some 0 := by
  have hread : (run step empty [.enqueue (goalArgs 1), .complete 1 ⟨0, ""⟩,
      .enqueue (goalArgs 2)]).map (fun q => (q.queue, q.byId, q.byPath)) =
      some ([0, 1], [(1, 0), (2, 1)], [("d.drv", 1)]) := by decide +kernel
  obtain ⟨q, hrun, hq⟩ := Option.map_eq_some_iff.1 hread
  simp only [Prod.mk.injEq] at hq
  obtain ⟨hqueue, hbyId, hbyPath⟩ := hq
  refine ⟨q, hrun, by simp [hqueue], by simp [hbyId, Dict.get?_cons], fun p hget => ?_⟩
  rw [hbyPath, Dict.get?_cons] at hget
  split_ifs at hget
  · cases hget
  · cases hget

end Pynixd.Queue.BuildQueue
