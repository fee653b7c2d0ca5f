import Pynixd.Lib.Dict
import Pynixd.Lib.Postorder
import Pynixd.Lib.Reach

/-!
# Paths from store to store

`stream_paths_store_to_store` asks the source for the closure of the paths, drops what the
destination has, and sends the rest in one `AddMultipleToStore`.  The destination registers
each path as it comes, and a path whose references are not valid by then is refused.

* `inOrder_iff_numbered` — the stream is in order **exactly when** the source is walked, or
  the ids of the rows agree with the references between them;
* `complete_iff_knows` — a transfer that returns leaves what was asked for at the
  destination, with its closure, **exactly when** the source is walked, or each path has a
  row or is valid at the destination already.
-/

namespace Pynixd.Transfer

open List

abbrev Path := String

/-- `UnkeyedValidPathInfo`, as far as a transfer reads it. -/
structure UnkeyedValidPathInfo where
  references : List Path
  narSize : Nat
  deriving DecidableEq, Repr

structure ValidPathInfo where
  path : Path
  info : UnkeyedValidPathInfo
  deriving DecidableEq, Repr

inductive Failure where
  | valueError (message : String)
  | backendError (message : String)
  | recursionError
  /-- A connection was lost, or the destination refused a path. -/
  | connection
  deriving DecidableEq, Repr

/-! ## `LocalDBStore` -/

structure Row where
  id : Nat
  path : Path
  narSize : Option Nat
  deriving DecidableEq, Repr

/-- The database of a store: `ValidPaths`, and `Refs` as pairs of a referrer and what it
refers to. -/
structure Database where
  validPaths : List Row
  refs : List (Nat × Nat)
  ids : (validPaths.map (·.id)).Nodup
  paths : (validPaths.map (·.path)).Nodup
  foreignKeys : ∀ ref ∈ refs, ref.2 ∈ validPaths.map (·.id)

namespace Database

variable (db : Database)

/-- The ids that a row refers to. -/
def next (id : Nat) : List Nat := (db.refs.filter (·.1 = id)).map (·.2)

/-- `SELECT id FROM ValidPaths WHERE path IN (…)`. -/
def seeds (paths : List Path) : List Nat :=
  (db.validPaths.filter (·.path ∈ paths)).map (·.id)

/-- `WITH RECURSIVE closure(id)`. -/
def closure (paths : List Path) : List Nat :=
  Reach.saturate db.next (db.validPaths.map (·.id)).length (db.seeds paths)

/-- `group_concat(ref_vp.path, ' ')`. -/
def referencesOf (id : Nat) : List Path :=
  (db.validPaths.filter (·.id ∈ db.next id)).map (·.path)

/-- One row of the answer; `nar_size or 0`. -/
def infoOf (row : Row) : ValidPathInfo :=
  ⟨row.path, db.referencesOf row.id, row.narSize.getD 0⟩

/-- The rows of the closure, `ORDER BY vp.id ASC`. -/
def closureRows (paths : List Path) : List Row :=
  (db.validPaths.filter (·.id ∈ db.closure paths)).insertionSort (·.id ≤ ·.id)

def queryClosureWithInfo (paths : List Path) : List ValidPathInfo :=
  (db.closureRows paths).map db.infoOf

end Database

/-! ## `DaemonStore` -/

/-- A store behind a daemon: what it answers to `QueryPathInfo`, and how deep Python
recurses. -/
structure DaemonStore where
  records : List (Path × UnkeyedValidPathInfo)
  recursionLimit : Nat

namespace DaemonStore

variable (store : DaemonStore)

/-- What is on record of the paths, each with its info. -/
def lookups (paths : List Path) : List (Path × UnkeyedValidPathInfo) :=
  paths.filterMap fun p => (Dict.get? store.records p).map (p, ·)

/-- The number of records that have not been fetched. -/
def left (all : List (Path × UnkeyedValidPathInfo)) : Nat :=
  ((store.records.map (·.1)).filter (· ∉ all.map (·.1))).length

theorem mem_keys_lookups {paths : List Path} {p : Path} :
    p ∈ (store.lookups paths).map (·.1) ↔
      p ∈ paths ∧ (Dict.get? store.records p).isSome = true := by
  simp only [lookups, mem_map, mem_filterMap, Option.map_eq_some_iff, Prod.exists,
    Option.isSome_iff_exists]
  constructor
  · rintro ⟨q, i, ⟨q', hq', i', hi', heq⟩, rfl⟩
    obtain ⟨rfl, rfl⟩ := Prod.mk.inj heq
    exact ⟨hq', i', hi'⟩
  · rintro ⟨hp, i, hi⟩
    exact ⟨p, i, ⟨p, hp, i, hi, rfl⟩, rfl⟩

theorem left_lt {all : List (Path × UnkeyedValidPathInfo)} {toFetch : List Path}
    (hne : toFetch ≠ []) (hnew : ∀ p ∈ toFetch, p ∉ all.map (·.1))
    (hfound : ∀ p ∈ toFetch, (Dict.get? store.records p).isSome = true) :
    store.left (all ++ store.lookups toFetch) < store.left all := by
  obtain ⟨p, hp⟩ := exists_mem_of_ne_nil _ hne
  obtain ⟨i, hi⟩ := Option.isSome_iff_exists.1 (hfound p hp)
  have hkey : p ∈ store.records.map (·.1) :=
    mem_map.2 ⟨(p, i), Dict.mem_of_get?_eq_some hi, rfl⟩
  have hkeys : (all ++ store.lookups toFetch).map (·.1) =
      all.map (·.1) ++ (store.lookups toFetch).map (·.1) := map_append
  have hsub : (store.records.map (·.1)).filter (· ∉ (all ++ store.lookups toFetch).map (·.1)) =
      ((store.records.map (·.1)).filter (· ∉ all.map (·.1))).filter
        (· ∉ (store.lookups toFetch).map (·.1)) := by
    rw [hkeys, filter_filter]
    refine filter_congr fun q _ => ?_
    rw [← Bool.decide_and, decide_eq_decide, mem_append, not_or, and_comm]
  rw [left, hsub]
  refine length_filter_lt_length_iff_exists.2 ⟨p, ?_, ?_⟩
  · simpa using ⟨by simpa using hkey, by simpa using hnew p hp⟩
  · have hfetched := store.mem_keys_lookups.2 ⟨hp, hfound p hp⟩
    simpa using hfetched

def toFetch (pending : List Path) (all : List (Path × UnkeyedValidPathInfo)) : List Path :=
  (pending.filter (· ∉ all.map (·.1))).dedup

theorem mem_toFetch {pending : List Path} {all : List (Path × UnkeyedValidPathInfo)} {p : Path} :
    p ∈ toFetch pending all ↔ p ∈ pending ∧ p ∉ all.map (·.1) := by
  rw [toFetch, mem_dedup, mem_filter, decide_eq_true_iff]

/-- The loop that fetches the closure, round by round. -/
def fetch (pending : List Path) (all : List (Path × UnkeyedValidPathInfo)) :
    Except Failure (List (Path × UnkeyedValidPathInfo)) :=
  if _hdone : toFetch pending all = [] then .ok all
  else
    match _hmissing : (toFetch pending all).find? (fun p => (Dict.get? store.records p).isNone) with
    | some p => .error (.valueError ("Path " ++ p ++ " not found in store closure"))
    | none =>
      let new := store.lookups (toFetch pending all)
      fetch ((new.flatMap (·.2.references)).filter (· ∉ (all ++ new).map (·.1))) (all ++ new)
termination_by store.left all
decreasing_by
  apply store.left_lt _hdone
  · intro p hp
    exact (mem_toFetch.1 hp).2
  · intro p hp
    simpa [Option.isSome_iff_ne_none] using find?_eq_none.1 _hmissing p hp

/-- The graph that the walk goes along. -/
def graph (all : List (Path × UnkeyedValidPathInfo)) (p : Path) : Option (List Path) :=
  (Dict.get? all p).map (·.references)

/-- The answer, in the order of the walk. -/
def infosInOrder (all : List (Path × UnkeyedValidPathInfo)) (order : List Path) :
    List ValidPathInfo :=
  order.filterMap fun p => (Dict.get? all p).map (⟨p, ·⟩)

/-- `DaemonStore.query_closure_with_info`, without the feature of that name. -/
def queryClosureWithInfo (paths : List Path) : Except Failure (List ValidPathInfo) :=
  if paths = [] then .ok []
  else
    match store.fetch paths [] with
    | .error e => .error e
    | .ok all =>
      -- `for p in sorted(all_infos.keys(), key=str): visit(p)`
      match Postorder.walk (graph all) store.recursionLimit
          ((all.map (·.1)).insertionSort (· ≤ ·)) with
      | none => .error .recursionError
      | some order => .ok (infosInOrder all order)

end DaemonStore

/-! ## The stream -/

inductive Source where
  | localDB (db : Database)
  | daemon (store : DaemonStore)

def Source.queryClosureWithInfo : Source → List Path → Except Failure (List ValidPathInfo)
  | .localDB db, paths => .ok (db.queryClosureWithInfo paths)
  | .daemon store, paths => store.queryClosureWithInfo paths

def Source.references : Source → Path → Option (List Path)
  | .localDB db, p => (db.validPaths.find? (·.path = p)).map fun row => db.referencesOf row.id
  | .daemon store, p => (Dict.get? store.records p).map (·.references)

inductive Ending where
  /-- Every path was sent, and the destination answered. -/
  | finished
  /-- `cancel_event` was set when so many paths had been sent. -/
  | cancelled (sent : Nat)
  /-- A connection was lost, or a daemon refused, by then. -/
  | broken (sent : Nat)

/-- What went over the wire, and what the caller gets. -/
structure Stream where
  sent : List ValidPathInfo
  result : Except Failure Unit

def unsizedPathsNamed : Nat := 3

/-- The text of the refusal of paths without a NAR size. -/
def unsizedMessage (src dst : String) (unsized : List ValidPathInfo) : String :=
  src ++ " gave no NAR size for " ++
    ", ".intercalate ((unsized.take unsizedPathsNamed).map (·.path)) ++
    (if unsized.length > unsizedPathsNamed then "..." else "") ++
    ", so " ++ dst ++ " cannot be told how much to read. A size of zero means unknown."

/-- `_stream_paths_over_conns`.  The destination was told how many paths will come, so a
stream that was cancelled is one that it refuses. -/
def streamPathsOverConns (toTransfer : List ValidPathInfo) : Ending → Stream
  | .finished => ⟨toTransfer, .ok ()⟩
  | .cancelled n =>
    ⟨toTransfer.take n, if n < toTransfer.length then .error .connection else .ok ()⟩
  | .broken n => ⟨toTransfer.take n, .error .connection⟩

/-- `stream_paths_store_to_store`, to a destination where `valid` are valid. -/
def streamPaths (srcId dstId : String) (src : Source) (paths valid : List Path)
    (ending : Ending) : Stream :=
  if paths = [] then ⟨[], .ok ()⟩
  else
    match src.queryClosureWithInfo paths with
    | .error e => ⟨[], .error e⟩
    | .ok infos =>
      let toTransfer := infos.filter (·.path ∉ valid)
      let unsized := toTransfer.filter (·.info.narSize = 0)
      if toTransfer = [] then ⟨[], .ok ()⟩
      else if unsized ≠ [] then
        ⟨[], .error (.backendError (unsizedMessage srcId dstId unsized))⟩
      else streamPathsOverConns toTransfer ending

/-! ## Order -/

/-- Each path is sent behind every other path that it references, unless that one is
`valid` already. -/
def InOrder (valid : List Path) (sent : List ValidPathInfo) : Prop :=
  ∀ pre i post, sent = pre ++ i :: post →
    ∀ r ∈ i.info.references, r ≠ i.path → r ∈ valid ∨ r ∈ pre.map (·.path)

theorem inOrder_nil (valid : List Path) : InOrder valid [] := by
  intro pre i post h
  simp at h

theorem InOrder.take {valid : List Path} {sent : List ValidPathInfo} (h : InOrder valid sent)
    (n : Nat) : InOrder valid (sent.take n) := by
  intro pre i post heq
  apply h pre i (post ++ sent.drop n)
  calc sent = sent.take n ++ sent.drop n := (take_append_drop n sent).symm
    _ = pre ++ i :: (post ++ sent.drop n) := by rw [heq, append_assoc, cons_append]

theorem forall_inOrder_iff {valid : List Path} {toTransfer : List ValidPathInfo} :
    (∀ ending, InOrder valid (streamPathsOverConns toTransfer ending).sent) ↔
      InOrder valid toTransfer := by
  refine ⟨fun h => h .finished, fun h ending => ?_⟩
  cases ending with
  | finished => exact h
  | cancelled n => exact h.take n
  | broken n => exact h.take n

theorem InOrder.filter {valid : List Path} {infos : List ValidPathInfo} (h : InOrder [] infos) :
    InOrder valid (infos.filter (·.path ∉ valid)) := by
  intro pre i post heq r hr hne
  obtain ⟨pre', rest, rfl, hpre, hrest⟩ := filter_eq_append_iff.1 heq
  obtain ⟨skipped, post', rfl, hskipped, -, -⟩ := filter_eq_cons_iff.1 hrest
  have hmem := h (pre' ++ skipped) i post' (by simp) r hr hne
  by_cases hvalid : r ∈ valid
  · exact .inl hvalid
  · right
    obtain ⟨j, hj, rfl⟩ := mem_map.1 (hmem.resolve_left not_mem_nil)
    rcases mem_append.1 hj with hj | hj
    · rw [← hpre]
      exact mem_map.2 ⟨j, mem_filter.2 ⟨hj, by simpa using hvalid⟩, rfl⟩
    · exact absurd (hskipped j hj) (by simpa using hvalid)

/-! ## The order of the ids -/

namespace Database

variable {db : Database} {paths valid : List Path} {a b : Row}

theorem mem_next {a b : Nat} : b ∈ db.next a ↔ (a, b) ∈ db.refs := by
  simp [next]

/-- The rows of the closure, as the recursive query means them. -/
def InClosure (db : Database) (paths : List Path) (row : Row) : Prop :=
  row ∈ db.validPaths ∧ Reach.From db.next (db.seeds paths) row.id

theorem mem_closureRows : a ∈ db.closureRows paths ↔ db.InClosure paths a := by
  have hclosed : ∀ i ∈ db.validPaths.map (·.id), ∀ j ∈ db.next i, j ∈ db.validPaths.map (·.id) :=
    fun i _ j hj => db.foreignKeys (i, j) (mem_next.1 hj)
  have hseeds : ∀ i ∈ db.seeds paths, i ∈ db.validPaths.map (·.id) := fun i hi =>
    map_subset _ (filter_subset_self _) hi
  rw [closureRows, mem_insertionSort, mem_filter, decide_eq_true_iff, closure,
    Reach.mem_saturate_iff hclosed hseeds, InClosure]

theorem InClosure.next (ha : db.InClosure paths a) (hb : b ∈ db.validPaths)
    (hab : b.id ∈ db.next a.id) : db.InClosure paths b := by
  obtain ⟨_, i, hi, hreach⟩ := ha
  exact ⟨hb, i, hi, hreach.tail hab⟩

theorem eq_of_path_eq (ha : a ∈ db.validPaths) (hb : b ∈ db.validPaths) (h : a.path = b.path) :
    a = b :=
  inj_on_of_nodup_map db.paths ha hb h

theorem pairwise_closureRows (db : Database) (paths : List Path) :
    (db.closureRows paths).Pairwise fun a b => a.id < b.id := by
  have hle : (db.closureRows paths).Pairwise (·.id ≤ ·.id) := pairwise_insertionSort _ _
  have hperm : (db.closureRows paths).Perm (db.validPaths.filter (·.id ∈ db.closure paths)) :=
    perm_insertionSort _ _
  have hids : ((db.closureRows paths).map (·.id)).Nodup :=
    (hperm.map _).nodup_iff.2 (db.ids.sublist (filter_sublist.map _))
  have hne : (db.closureRows paths).Pairwise fun a b => a.id ≠ b.id := pairwise_map.1 hids
  exact hle.imp₂ (fun _ _ h hne => Nat.lt_of_le_of_ne h hne) hne

/-- The rows that go to a destination. -/
def toSend (db : Database) (paths valid : List Path) : List Row :=
  (db.closureRows paths).filter (·.path ∉ valid)

theorem mem_toSend : a ∈ db.toSend paths valid ↔ db.InClosure paths a ∧ a.path ∉ valid := by
  rw [toSend, mem_filter, mem_closureRows, decide_eq_true_iff]

theorem filter_queryClosureWithInfo (db : Database) (paths valid : List Path) :
    (db.queryClosureWithInfo paths).filter (·.path ∉ valid) =
      (db.toSend paths valid).map db.infoOf := by
  rw [queryClosureWithInfo, filter_map]
  rfl

/-- **The ids agree with the references**: of two rows that are sent, the one that is
referenced has the smaller id. -/
def Numbered (db : Database) (paths valid : List Path) : Prop :=
  ∀ a b, db.InClosure paths a → a.path ∉ valid → db.InClosure paths b → b.path ∉ valid →
    (a.id, b.id) ∈ db.refs → a ≠ b → b.id < a.id

theorem mem_referencesOf {id : Nat} {r : Path} :
    r ∈ db.referencesOf id ↔ ∃ b ∈ db.validPaths, (id, b.id) ∈ db.refs ∧ b.path = r := by
  simp only [referencesOf, mem_map, mem_filter, decide_eq_true_iff, mem_next, and_assoc]

theorem inOrder_of_numbered (h : db.Numbered paths valid) :
    InOrder valid ((db.toSend paths valid).map db.infoOf) := by
  intro pre i post heq r hr hne
  obtain ⟨rows, rest, hrows, rfl, hrest⟩ := map_eq_append_iff.1 heq
  obtain ⟨a, later, rfl, rfl, -⟩ := map_eq_cons_iff.1 hrest
  obtain ⟨b, hb, href, rfl⟩ := mem_referencesOf.1 hr
  have hsent : ∀ row, row ∈ rows ++ a :: later ↔ db.InClosure paths row ∧ row.path ∉ valid :=
    fun row => hrows ▸ mem_toSend
  by_cases hvalid : b.path ∈ valid
  · exact .inl hvalid
  right
  have ha := (hsent a).1 (by simp)
  have hbin : db.InClosure paths b := ha.1.next hb (mem_next.2 href)
  have hlt : b.id < a.id := h a b ha.1 ha.2 hbin hvalid href fun hab => hne (hab ▸ rfl)
  have hpairs : (rows ++ a :: later).Pairwise fun a b => a.id < b.id :=
    hrows ▸ (pairwise_closureRows db paths).filter _
  -- what has a smaller id is neither the row itself nor behind it
  rcases mem_append.1 ((hsent b).2 ⟨hbin, hvalid⟩) with hin | hin
  · exact mem_map.2 ⟨db.infoOf b, mem_map_of_mem hin, rfl⟩
  · have hge : a.id ≤ b.id := by
      rcases mem_cons.1 hin with rfl | hin
      · exact Nat.le_refl _
      · exact Nat.le_of_lt ((pairwise_cons.1 (pairwise_append.1 hpairs).2.1).1 b hin)
    omega

theorem numbered_of_inOrder (h : InOrder valid ((db.toSend paths valid).map db.infoOf)) :
    db.Numbered paths valid := by
  intro a b ha hva hb hvb href hne
  obtain ⟨rows, later, hrows⟩ := append_of_mem (mem_toSend.2 ⟨ha, hva⟩)
  have hbefore := h (rows.map db.infoOf) (db.infoOf a) (later.map db.infoOf)
    (by rw [hrows, map_append, map_cons]) b.path
    (mem_referencesOf.2 ⟨b, hb.1, href, rfl⟩)
    (fun hpath => hne (eq_of_path_eq ha.1 hb.1 hpath.symm))
  obtain ⟨_, hi, hpath⟩ := mem_map.1 (hbefore.resolve_left hvb)
  obtain ⟨c, hc, rfl⟩ := mem_map.1 hi
  have hsent : c ∈ db.toSend paths valid := hrows ▸ mem_append_left _ hc
  obtain rfl : c = b := eq_of_path_eq (mem_toSend.1 hsent).1.1 hb.1 hpath
  have hpairs : (rows ++ a :: later).Pairwise fun a b => a.id < b.id :=
    hrows ▸ (pairwise_closureRows db paths).filter _
  exact (pairwise_append.1 hpairs).2.2 c hc a mem_cons_self

theorem mem_queryClosureWithInfo {p : Path} :
    p ∈ (db.queryClosureWithInfo paths).map (·.path) ↔
      ∃ row, db.InClosure paths row ∧ row.path = p := by
  simp only [queryClosureWithInfo, map_map, mem_map, mem_closureRows]
  rfl

theorem asked_queryClosureWithInfo {p : Path} (hp : p ∈ paths)
    (hknown : p ∈ db.validPaths.map (·.path)) :
    p ∈ (db.queryClosureWithInfo paths).map (·.path) := by
  obtain ⟨row, hrow, rfl⟩ := mem_map.1 hknown
  have hseed : row.id ∈ db.seeds paths :=
    mem_map_of_mem (mem_filter.2 ⟨hrow, decide_eq_true hp⟩)
  exact mem_queryClosureWithInfo.2 ⟨row, ⟨hrow, row.id, hseed, .refl⟩, rfl⟩

theorem closed_queryClosureWithInfo {p r : Path} {rs : List Path}
    (hp : p ∈ (db.queryClosureWithInfo paths).map (·.path))
    (hrs : (Source.localDB db).references p = some rs) (hr : r ∈ rs) :
    r ∈ (db.queryClosureWithInfo paths).map (·.path) := by
  obtain ⟨a, ha, rfl⟩ := mem_queryClosureWithInfo.1 hp
  obtain ⟨row, hrow, rfl⟩ := Option.map_eq_some_iff.1 hrs
  have hpath : row.path = a.path := by simpa using find?_some hrow
  obtain rfl : row = a := eq_of_path_eq (mem_of_find?_eq_some hrow) ha.1 hpath
  obtain ⟨b, hb, href, rfl⟩ := mem_referencesOf.1 hr
  exact mem_queryClosureWithInfo.2 ⟨b, ha.next hb (mem_next.2 href), rfl⟩

theorem not_inClosure_nil : ¬db.InClosure [] a := by
  rintro ⟨_, i, hi, _⟩
  simp [seeds] at hi

theorem exists_unsized_iff (db : Database) :
    (∃ i ∈ (db.toSend paths valid).map db.infoOf, i.info.narSize = 0) ↔
      ∃ row, db.InClosure paths row ∧ row.path ∉ valid ∧ row.narSize.getD 0 = 0 := by
  constructor
  · rintro ⟨i, hi, hsize⟩
    obtain ⟨row, hrow, rfl⟩ := mem_map.1 hi
    exact ⟨row, (mem_toSend.1 hrow).1, (mem_toSend.1 hrow).2, hsize⟩
  · rintro ⟨row, hin, hvalid, hsize⟩
    exact ⟨db.infoOf row, mem_map_of_mem (mem_toSend.2 ⟨hin, hvalid⟩), hsize⟩

end Database

/-! ## The walk -/

namespace DaemonStore

variable {store : DaemonStore} {paths pending : List Path}
  {all all' : List (Path × UnkeyedValidPathInfo)}

/-- What the loop keeps: everything fetched is on record, and what was asked for or is
referenced is fetched or pending. -/
structure Fetched (store : DaemonStore) (paths pending : List Path)
    (all : List (Path × UnkeyedValidPathInfo)) : Prop where
  onRecord : ∀ item ∈ all, Dict.get? store.records item.1 = some item.2
  asked : ∀ p ∈ paths, p ∈ all.map (·.1) ∨ p ∈ pending
  closed : ∀ item ∈ all, ∀ r ∈ item.2.references, r ∈ all.map (·.1) ∨ r ∈ pending

theorem fetched_start (store : DaemonStore) (paths : List Path) : Fetched store paths paths [] :=
  ⟨nofun, fun _ hp => .inr hp, nofun⟩

theorem onRecord_of_mem_lookups {item : Path × UnkeyedValidPathInfo}
    (h : item ∈ store.lookups paths) : Dict.get? store.records item.1 = some item.2 := by
  obtain ⟨p, _, hp⟩ := mem_filterMap.1 h
  obtain ⟨i, hi, rfl⟩ := Option.map_eq_some_iff.1 hp
  exact hi

theorem Fetched.round (h : Fetched store paths pending all)
    (hfound : ∀ p ∈ toFetch pending all, (Dict.get? store.records p).isSome = true) :
    Fetched store paths
      (((store.lookups (toFetch pending all)).flatMap (·.2.references)).filter
        (· ∉ (all ++ store.lookups (toFetch pending all)).map (·.1)))
      (all ++ store.lookups (toFetch pending all)) := by
  -- what was pending has been fetched, now or before
  have hpending : ∀ p, p ∈ all.map (·.1) ∨ p ∈ pending →
      p ∈ (all ++ store.lookups (toFetch pending all)).map (·.1) := by
    intro p hp
    rw [map_append, mem_append]
    by_cases hall : p ∈ all.map (·.1)
    · exact .inl hall
    · have hto : p ∈ toFetch pending all := mem_toFetch.2 ⟨hp.resolve_left hall, hall⟩
      exact .inr ((mem_keys_lookups store).2 ⟨hto, hfound p hto⟩)
  constructor
  case onRecord =>
    intro item hitem
    rcases mem_append.1 hitem with hitem | hitem
    · exact h.onRecord item hitem
    · exact onRecord_of_mem_lookups hitem
  case asked =>
    intro p hp
    exact .inl (hpending p (h.asked p hp))
  case closed =>
    intro item hitem r hr
    rcases mem_append.1 hitem with hitem | hitem
    · exact .inl (hpending r (h.closed item hitem r hr))
    · by_cases hin : r ∈ (all ++ store.lookups (toFetch pending all)).map (·.1)
      · exact .inl hin
      · right
        exact mem_filter.2 ⟨mem_flatMap.2 ⟨item, hitem, hr⟩, decide_eq_true hin⟩

theorem Fetched.fetch (h : Fetched store paths pending all)
    (hfetch : store.fetch pending all = .ok all') : Fetched store paths [] all' := by
  fun_induction store.fetch pending all with
  | case1 pending all hdone =>
    obtain rfl : all = all' := Except.ok.inj hfetch
    have hkeys : ∀ p, p ∈ all.map (·.1) ∨ p ∈ pending → p ∈ all.map (·.1) := by
      intro p hp
      by_contra hall
      have hto : p ∈ toFetch pending all := mem_toFetch.2 ⟨hp.resolve_left hall, hall⟩
      exact not_mem_nil (hdone ▸ hto)
    exact ⟨h.onRecord, fun p hp => .inl (hkeys p (h.asked p hp)),
      fun item hitem r hr => .inl (hkeys r (h.closed item hitem r hr))⟩
  | case2 => exact nomatch hfetch
  | case3 pending all _ hmissing _ ih =>
    refine ih (h.round ?_) hfetch
    intro p hp
    simpa [Option.isSome_iff_ne_none] using find?_eq_none.1 hmissing p hp

theorem Fetched.exists_get? (h : Fetched store paths [] all) {p : Path}
    (hp : p ∈ paths ∨ ∃ q i, Dict.get? all q = some i ∧ p ∈ i.references) :
    ∃ i, Dict.get? all p = some i := by
  have hkey : p ∈ all.map (·.1) := by
    rcases hp with hp | ⟨q, i, hq, hp⟩
    · exact (h.asked p hp).resolve_right not_mem_nil
    · exact (h.closed (q, i) (Dict.mem_of_get?_eq_some hq) p hp).resolve_right not_mem_nil
  obtain ⟨⟨_, i⟩, hitem, rfl⟩ := mem_map.1 hkey
  exact Dict.exists_get?_of_mem hitem

theorem Fetched.acyclic (h : Fetched store paths pending all)
    (hacyclic : Postorder.Acyclic (Source.daemon store).references) :
    Postorder.Acyclic (graph all) := by
  intro p hp
  refine hacyclic p (Relation.TransGen.mono ?_ p p hp)
  rintro q r ⟨hne, rs, hrs, hr⟩
  obtain ⟨i, hi, rfl⟩ := Option.map_eq_some_iff.1 hrs
  have hrecord := h.onRecord (q, i) (Dict.mem_of_get?_eq_some hi)
  exact ⟨hne, i.references, by simp [Source.references, hrecord], hr⟩

theorem Fetched.inOrder (h : Fetched store paths [] all) {order : List Path}
    (hordered : Postorder.Ordered (graph all) order) : InOrder [] (infosInOrder all order) := by
  intro pre i post heq r hr hne
  obtain ⟨front, back, rfl, rfl, hback⟩ := filterMap_eq_append_iff.1 heq
  obtain ⟨skipped, p, rest, rfl, hskipped, hp, -⟩ := filterMap_eq_cons_iff.1 hback
  obtain ⟨info, hinfo, rfl⟩ := Option.map_eq_some_iff.1 hp
  have hedge : Postorder.Edge (graph all) p r :=
    ⟨hne, info.references, by rw [graph, hinfo]; rfl, hr⟩
  obtain ⟨j, hj⟩ := h.exists_get? (.inr ⟨p, info, hinfo, hr⟩)
  have hbefore := hordered (front ++ skipped) p rest (by simp) r hedge
  rcases mem_append.1 hbefore with hfront | hskip
  · exact .inr (mem_map.2 ⟨⟨r, j⟩, mem_filterMap.2 ⟨r, hfront, by rw [hj]; rfl⟩, rfl⟩)
  · exact absurd (hskipped r hskip) (by simp [hj])

theorem queryClosureWithInfo_eq_ok {infos : List ValidPathInfo} (hpaths : paths ≠ [])
    (h : store.queryClosureWithInfo paths = .ok infos) :
    ∃ all order, Fetched store paths [] all ∧
      Postorder.walk (graph all) store.recursionLimit
        ((all.map (·.1)).insertionSort (· ≤ ·)) = some order ∧
      infos = infosInOrder all order := by
  rw [queryClosureWithInfo, if_neg hpaths] at h
  split at h
  · exact nomatch h
  · rename_i all hfetch
    split at h
    · exact nomatch h
    · rename_i order hwalk
      exact ⟨all, order, (fetched_start store paths).fetch hfetch, hwalk, (Except.ok.inj h).symm⟩

theorem mem_infosInOrder {order : List Path} {p : Path} {i : UnkeyedValidPathInfo}
    (hwalk : Postorder.walk (graph all) store.recursionLimit
      ((all.map (·.1)).insertionSort (· ≤ ·)) = some order)
    (hi : Dict.get? all p = some i) : ⟨p, i⟩ ∈ infosInOrder all order := by
  have hroot : p ∈ (all.map (·.1)).insertionSort (· ≤ ·) :=
    (mem_insertionSort _).2 (mem_map.2 ⟨(p, i), Dict.mem_of_get?_eq_some hi, rfl⟩)
  have horder : p ∈ order := Postorder.mem_walk_of_mem hwalk p hroot
  exact mem_filterMap.2 ⟨p, horder, by rw [hi]; rfl⟩

/-- **The walk** of an acyclic store is ordered. -/
theorem inOrder_queryClosureWithInfo {infos : List ValidPathInfo} (hpaths : paths ≠ [])
    (hacyclic : Postorder.Acyclic (Source.daemon store).references)
    (h : store.queryClosureWithInfo paths = .ok infos) : InOrder [] infos := by
  obtain ⟨all, order, hall, hwalk, rfl⟩ := queryClosureWithInfo_eq_ok hpaths h
  exact hall.inOrder (Postorder.ordered_walk (hall.acyclic hacyclic) hwalk)

theorem closed_queryClosureWithInfo {infos : List ValidPathInfo} (hpaths : paths ≠ [])
    (h : store.queryClosureWithInfo paths = .ok infos) : (∀ p ∈ paths, p ∈ infos.map (·.path)) ∧
      ∀ p ∈ infos.map (·.path), ∀ rs, (Source.daemon store).references p = some rs →
        ∀ r ∈ rs, r ∈ infos.map (·.path) := by
  obtain ⟨all, order, hall, hwalk, rfl⟩ := queryClosureWithInfo_eq_ok hpaths h
  have hanswer : ∀ p i, Dict.get? all p = some i → p ∈ (infosInOrder all order).map (·.path) :=
    fun p i hi => mem_map.2 ⟨⟨p, i⟩, mem_infosInOrder hwalk hi, rfl⟩
  constructor
  · intro p hp
    obtain ⟨i, hi⟩ := hall.exists_get? (.inl hp)
    exact hanswer p i hi
  · intro p hp rs hrs r hr
    obtain ⟨info, hinfo, rfl⟩ := mem_map.1 hp
    obtain ⟨q, _, hq⟩ := mem_filterMap.1 hinfo
    obtain ⟨i, hi, rfl⟩ := Option.map_eq_some_iff.1 hq
    -- what was fetched is what is on record
    have hrecord := hall.onRecord (q, i) (Dict.mem_of_get?_eq_some hi)
    obtain rfl : i.references = rs := by simpa [Source.references, hrecord] using hrs
    obtain ⟨j, hj⟩ := hall.exists_get? (.inr ⟨q, i, hi, hr⟩)
    exact hanswer r j hj

end DaemonStore

/-! ## Every source -/

section Stream

variable {srcId dstId : String} {src : Source} {paths valid : List Path}

variable {ending : Ending} {infos : List ValidPathInfo} {p : Path}

theorem streamPaths_unsized (hpaths : paths ≠ [])
    (hinfos : src.queryClosureWithInfo paths = .ok infos)
    (hunsized : ∃ i ∈ infos.filter (·.path ∉ valid), i.info.narSize = 0) (ending : Ending) :
    ∃ message, streamPaths srcId dstId src paths valid ending =
      ⟨[], .error (.backendError message)⟩ := by
  obtain ⟨i, hi, hsize⟩ := hunsized
  have hne : (infos.filter (·.path ∉ valid)).filter (·.info.narSize = 0) ≠ [] :=
    ne_nil_of_mem (mem_filter.2 ⟨hi, decide_eq_true hsize⟩)
  simp only [streamPaths, if_neg hpaths, hinfos, if_neg (ne_nil_of_mem hi), if_pos hne]
  exact ⟨_, rfl⟩

theorem sent_of_sized (hpaths : paths ≠ []) (hinfos : src.queryClosureWithInfo paths = .ok infos)
    (hsized : ¬∃ i ∈ infos.filter (·.path ∉ valid), i.info.narSize = 0) (ending : Ending) :
    (streamPaths srcId dstId src paths valid ending).sent =
        (streamPathsOverConns (infos.filter (·.path ∉ valid)) ending).sent ∧
      (ending = .finished → (streamPaths srcId dstId src paths valid ending).result = .ok ()) := by
  have heq : (infos.filter (·.path ∉ valid)).filter (·.info.narSize = 0) = [] :=
    filter_eq_nil_iff.2 fun i hi hsize => hsized ⟨i, hi, decide_eq_true_iff.1 hsize⟩
  simp only [streamPaths, if_neg hpaths, hinfos, if_neg (not_not.2 heq)]
  split_ifs with hnil
  · rw [hnil]
    cases ending <;> simp [streamPathsOverConns]
  · refine ⟨rfl, ?_⟩
    rintro rfl
    rfl

theorem forall_inOrder_streamPaths_iff (hpaths : paths ≠ [])
    (hinfos : src.queryClosureWithInfo paths = .ok infos) :
    (∀ ending, InOrder valid (streamPaths srcId dstId src paths valid ending).sent) ↔
      (∃ i ∈ infos.filter (·.path ∉ valid), i.info.narSize = 0) ∨
        InOrder valid (infos.filter (·.path ∉ valid)) := by
  by_cases hunsized : ∃ i ∈ infos.filter (·.path ∉ valid), i.info.narSize = 0
  · refine iff_of_true (fun ending => ?_) (.inl hunsized)
    obtain ⟨message, hstream⟩ := streamPaths_unsized hpaths hinfos hunsized ending
    rw [hstream]
    exact inOrder_nil valid
  · rw [or_iff_right hunsized, ← forall_inOrder_iff]
    exact forall_congr' fun ending => by rw [(sent_of_sized hpaths hinfos hunsized ending).1]

/-- **What keeps a stream in order.**  A walk always does; the ids of a database have to
agree with its references, unless a path without a NAR size keeps the stream from
starting. -/
def Source.Numbered (paths valid : List Path) : Source → Prop
  | .localDB db =>
    (∃ row, db.InClosure paths row ∧ row.path ∉ valid ∧ row.narSize.getD 0 = 0) ∨
      db.Numbered paths valid
  | .daemon _ => True

/-- **Transfer order**, from a source without a cycle of references. -/
theorem inOrder_iff_numbered (srcId dstId : String) (src : Source)
    (hacyclic : Postorder.Acyclic src.references) (paths valid : List Path) :
    (∀ ending, InOrder valid (streamPaths srcId dstId src paths valid ending).sent) ↔
      src.Numbered paths valid := by
  by_cases hpaths : paths = []
  · have hsent : ∀ ending, InOrder valid (streamPaths srcId dstId src paths valid ending).sent := by
      intro ending
      rw [streamPaths, if_pos hpaths]
      exact inOrder_nil valid
    refine iff_of_true hsent ?_
    cases src with
    | localDB db =>
      right
      intro a _ ha
      exact absurd (hpaths ▸ ha) Database.not_inClosure_nil
    | daemon store => trivial
  · cases src with
    | localDB db =>
      have hinfos : (Source.localDB db).queryClosureWithInfo paths =
          .ok (db.queryClosureWithInfo paths) := rfl
      rw [forall_inOrder_streamPaths_iff hpaths hinfos, db.filter_queryClosureWithInfo]
      exact or_congr db.exists_unsized_iff
        ⟨Database.numbered_of_inOrder, Database.inOrder_of_numbered⟩
    | daemon store =>
      refine iff_of_true ?_ trivial
      cases hinfos : (Source.daemon store).queryClosureWithInfo paths with
      | error e =>
        intro ending
        simp only [streamPaths, if_neg hpaths, hinfos]
        exact inOrder_nil valid
      | ok infos =>
        apply (forall_inOrder_streamPaths_iff hpaths hinfos).2
        right
        exact (DaemonStore.inOrder_queryClosureWithInfo hpaths hacyclic hinfos).filter

/-! ## Completeness -/

/-- What is valid at the destination afterwards: it takes each path that it is sent. -/
def validAfter (valid : List Path) (stream : Stream) : List Path :=
  valid ++ stream.sent.map (·.path)

/-- The reference closure of a path, as the source has it. -/
def Source.Reaches (src : Source) : Path → Path → Prop :=
  Relation.ReflTransGen fun p r => ∃ rs, src.references p = some rs ∧ r ∈ rs

/-- A transfer that returns has brought **every path that was asked for, with its
closure**. -/
def Complete (src : Source) (paths valid : List Path) (stream : Stream) : Prop :=
  stream.result = .ok () → ∀ p ∈ paths, ∀ q, src.Reaches p q → q ∈ validAfter valid stream

theorem mem_of_mem_sent (hpaths : paths ≠ [])
    (hinfos : src.queryClosureWithInfo paths = .ok infos) {i : ValidPathInfo}
    (hi : i ∈ (streamPaths srcId dstId src paths valid ending).sent) : i ∈ infos := by
  have hsub : (streamPathsOverConns (infos.filter (·.path ∉ valid)) ending).sent ⊆
      infos.filter (·.path ∉ valid) := by
    cases ending with
    | finished => exact List.Subset.refl _
    | cancelled n => exact take_subset n _
    | broken n => exact take_subset n _
  simp only [streamPaths, if_neg hpaths, hinfos] at hi
  split_ifs at hi
  · exact absurd hi not_mem_nil
  · exact absurd hi not_mem_nil
  · exact filter_subset_self _ (hsub hi)

theorem mem_validAfter_of_ok (hpaths : paths ≠ [])
    (hinfos : src.queryClosureWithInfo paths = .ok infos)
    (h : (streamPaths srcId dstId src paths valid ending).result = .ok ())
    (hp : p ∈ infos.map (·.path)) :
    p ∈ validAfter valid (streamPaths srcId dstId src paths valid ending) := by
  by_cases hvalid : p ∈ valid
  · exact mem_append_left _ hvalid
  apply mem_append_right
  obtain ⟨i, hi, rfl⟩ := mem_map.1 hp
  have hto : i ∈ infos.filter (·.path ∉ valid) :=
    mem_filter.2 ⟨hi, decide_eq_true hvalid⟩
  simp only [streamPaths, if_neg hpaths, hinfos, if_neg (ne_nil_of_mem hto)] at h ⊢
  split_ifs at h ⊢
  refine mem_map.2 ⟨i, ?_, rfl⟩
  cases ending with
  | finished => exact hto
  | cancelled n =>
    simp only [streamPathsOverConns] at h ⊢
    split_ifs at h with hn
    rwa [take_of_length_le (Nat.le_of_not_lt hn)]
  | broken n => exact nomatch h

theorem mem_of_reaches (hclosed : ∀ p ∈ infos.map (·.path), ∀ rs, src.references p = some rs →
      ∀ r ∈ rs, r ∈ infos.map (·.path))
    {p q : Path} (hp : p ∈ infos.map (·.path)) (hpq : src.Reaches p q) :
    q ∈ infos.map (·.path) := by
  induction hpq with
  | refl => exact hp
  | tail _ hedge ih =>
    obtain ⟨rs, hrs, hr⟩ := hedge
    exact hclosed _ ih rs hrs _ hr

/-- **What a transfer needs to be complete.**  The walk refuses a path that is not there;
the query of a database leaves it out, so there each path that was asked for has a row or is
valid at the destination already, unless a path without a NAR size keeps the stream from
starting. -/
def Source.Knows (paths valid : List Path) : Source → Prop
  | .localDB db =>
    (∃ row, db.InClosure paths row ∧ row.path ∉ valid ∧ row.narSize.getD 0 = 0) ∨
      ∀ p ∈ paths, p ∈ db.validPaths.map (·.path) ∨ p ∈ valid
  | .daemon _ => True

theorem references_eq_none {db : Database} (h : p ∉ db.validPaths.map (·.path)) :
    (Source.localDB db).references p = none := by
  have hfind : db.validPaths.find? (·.path = p) = none := by
    refine find?_eq_none.2 fun row hrow hpath => h ?_
    exact mem_map.2 ⟨row, hrow, decide_eq_true_iff.1 hpath⟩
  simp [Source.references, hfind]

theorem complete_localDB {db : Database} (hpaths : paths ≠ [])
    (hknown : ∀ p ∈ paths, p ∈ db.validPaths.map (·.path) ∨ p ∈ valid) :
    Complete (.localDB db) paths valid
      (streamPaths srcId dstId (.localDB db) paths valid ending) := by
  intro hok p hp q hpq
  rcases Classical.em (p ∈ db.validPaths.map (·.path)) with hrow | hrow
  · have hinfos : (Source.localDB db).queryClosureWithInfo paths =
        .ok (db.queryClosureWithInfo paths) := rfl
    apply mem_validAfter_of_ok hpaths hinfos hok
    exact mem_of_reaches (fun _ ha _ hrs _ hr => Database.closed_queryClosureWithInfo ha hrs hr)
      (Database.asked_queryClosureWithInfo hp hrow) hpq
  · -- a path that is not there references nothing
    rcases Relation.ReflTransGen.cases_head hpq with rfl | ⟨r, ⟨rs, hrs, _⟩, _⟩
    · exact mem_append_left _ ((hknown p hp).resolve_left hrow)
    · exact absurd hrs (by simp [references_eq_none hrow])

theorem complete_daemon {store : DaemonStore} (hpaths : paths ≠ []) :
    Complete (.daemon store) paths valid
      (streamPaths srcId dstId (.daemon store) paths valid ending) := by
  intro hok p hp q hpq
  cases hinfos : (Source.daemon store).queryClosureWithInfo paths with
  | error e => simp [streamPaths, if_neg hpaths, hinfos] at hok
  | ok infos =>
    obtain ⟨hasked, hclosed⟩ := DaemonStore.closed_queryClosureWithInfo hpaths hinfos
    exact mem_validAfter_of_ok hpaths hinfos hok (mem_of_reaches hclosed (hasked p hp) hpq)

theorem knows_of_asked
    (h : ∀ ending, (streamPaths srcId dstId src paths valid ending).result = .ok () →
      ∀ p ∈ paths, p ∈ validAfter valid (streamPaths srcId dstId src paths valid ending)) :
    src.Knows paths valid := by
  cases src with
  | daemon store => trivial
  | localDB db =>
    by_cases hpaths : paths = []
    · exact .inr fun p hp => absurd (hpaths ▸ hp) not_mem_nil
    have hinfos : (Source.localDB db).queryClosureWithInfo paths =
        .ok (db.queryClosureWithInfo paths) := rfl
    by_contra hknows
    obtain ⟨hsized, hmissing⟩ := not_or.1 hknows
    rw [← db.exists_unsized_iff, ← db.filter_queryClosureWithInfo] at hsized
    refine hmissing fun p hp => ?_
    have hafter := h .finished ((sent_of_sized hpaths hinfos hsized .finished).2 rfl) p hp
    rcases mem_append.1 hafter with hvalid | hsent
    · exact .inr hvalid
    · obtain ⟨i, hi, rfl⟩ := mem_map.1 hsent
      obtain ⟨row, hrow, hpath⟩ := Database.mem_queryClosureWithInfo.1
        (mem_map_of_mem (mem_of_mem_sent hpaths hinfos hi))
      exact .inl (mem_map.2 ⟨row, hrow.1, hpath⟩)

theorem complete_of_knows (h : src.Knows paths valid) (ending : Ending) :
    Complete src paths valid (streamPaths srcId dstId src paths valid ending) := by
  by_cases hpaths : paths = []
  · intro _ p hp
    exact absurd (hpaths ▸ hp) not_mem_nil
  cases src with
  | daemon store => exact complete_daemon hpaths
  | localDB db =>
    rcases h with hunsized | hknown
    · have hinfos : (Source.localDB db).queryClosureWithInfo paths =
          .ok (db.queryClosureWithInfo paths) := rfl
      rw [← db.exists_unsized_iff, ← db.filter_queryClosureWithInfo] at hunsized
      obtain ⟨message, hstream⟩ := streamPaths_unsized hpaths hinfos hunsized ending
      intro hok
      rw [hstream] at hok
      exact nomatch hok
    · exact complete_localDB hpaths hknown

/-- **Transfer completeness**, whatever the references are. -/
theorem complete_iff_knows (srcId dstId : String) (src : Source) (paths valid : List Path) :
    (∀ ending, Complete src paths valid (streamPaths srcId dstId src paths valid ending)) ↔
      src.Knows paths valid := by
  constructor
  · intro h
    exact knows_of_asked fun ending hok p hp => h ending hok p hp p .refl
  · exact complete_of_knows

end Stream

/-! ## A batch of two -/

/-- The outputs `lib` and `out` of one build, registered in one batch in the order of
their paths.  `out` references `lib`. -/
def batch : Database where
  validPaths := [⟨1, "/nix/store/a-out", some 200⟩, ⟨2, "/nix/store/b-lib", some 100⟩]
  refs := [(1, 2)]
  ids := by decide
  paths := by decide
  foreignKeys := by decide

theorem acyclic_batch : Postorder.Acyclic (Source.localDB batch).references := by
  refine Postorder.acyclic_of_height (fun p => if p = "/nix/store/a-out" then 1 else 0) ?_
  rintro p r ⟨_, rs, hrs, hr⟩
  obtain ⟨row, hrow, rfl⟩ := Option.map_eq_some_iff.1 hrs
  have hpath : row.path = p := by simpa using find?_some hrow
  have hmem : row ∈ batch.validPaths := mem_of_find?_eq_some hrow
  rcases mem_pair.1 hmem with rfl | rfl
  · have hrefs : batch.referencesOf 1 = ["/nix/store/b-lib"] := by decide +kernel
    obtain rfl : r = "/nix/store/b-lib" := mem_singleton.1 (hrefs ▸ hr)
    subst hpath
    decide
  · have hrefs : batch.referencesOf 2 = [] := by decide +kernel
    exact absurd (hrefs ▸ hr) not_mem_nil

/-- **`out` is sent before `lib`**, and the destination has neither. -/
theorem streamPaths_batch :
    Postorder.Acyclic (Source.localDB batch).references ∧
    (streamPaths "builder" "local" (.localDB batch) ["/nix/store/a-out"] [] .finished).sent.map
      (·.path) = ["/nix/store/a-out", "/nix/store/b-lib"] ∧
    ¬InOrder [] (streamPaths "builder" "local" (.localDB batch) ["/nix/store/a-out"] []
      .finished).sent := by
  refine ⟨acyclic_batch, by decide +kernel, ?_⟩
  intro h
  have hbefore := h [] ⟨"/nix/store/a-out", ["/nix/store/b-lib"], 200⟩
    [⟨"/nix/store/b-lib", [], 100⟩] (by decide +kernel) "/nix/store/b-lib" (by decide) (by decide)
  exact absurd hbefore (by decide)

/-- Where the destination has `lib`, the same request is in order. -/
theorem inOrder_batch :
    Postorder.Acyclic (Source.localDB batch).references ∧
    ∀ ending, InOrder ["/nix/store/b-lib"] (streamPaths "builder" "local" (.localDB batch)
      ["/nix/store/a-out"] ["/nix/store/b-lib"] ending).sent := by
  refine ⟨acyclic_batch, ?_⟩
  apply (inOrder_iff_numbered "builder" "local" (.localDB batch) acyclic_batch _ _).2
  right
  intro a b _ _ hb hvb href _
  -- the one reference goes to the path that the destination has
  have hid : b.id = 2 := congrArg Prod.snd (mem_singleton.1 href)
  rcases mem_pair.1 hb.1 with rfl | rfl
  · exact absurd hid (by decide)
  · exact absurd (mem_singleton_self _) hvb

/-! ## A path that is not there -/

/-- **A path that the source does not have**: nothing is sent, and the transfer returns. -/
theorem streamPaths_missing :
    streamPaths "builder" "local" (.localDB batch) ["/nix/store/c-doc"] [] .finished =
      ⟨[], .ok ()⟩ ∧
    ¬Complete (.localDB batch) ["/nix/store/c-doc"] []
      (streamPaths "builder" "local" (.localDB batch) ["/nix/store/c-doc"] [] .finished) := by
  have hstream : streamPaths "builder" "local" (.localDB batch) ["/nix/store/c-doc"] [] .finished =
      ⟨[], .ok ()⟩ := by
    rw [streamPaths]
    have hinfos : batch.queryClosureWithInfo ["/nix/store/c-doc"] = [] := by decide +kernel
    simp [Source.queryClosureWithInfo, hinfos]
  refine ⟨hstream, fun h => ?_⟩
  exact absurd (h rfl "/nix/store/c-doc" (mem_singleton_self _) _ .refl) not_mem_nil

end Pynixd.Transfer
