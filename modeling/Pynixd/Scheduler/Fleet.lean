import Pynixd.Scheduler.Assign

/-!
# Stores that come and go

`Server.add_store` and `remove_store`, `Scheduler.on_store_added` and `drain_store`, and the
table of the allocator beside the one of the context.

* `Fleet.put`, `register`, `onStoreAdded`, `forget` — the two tables, one write at a time;
* `Fleet.update` — what other tasks change of a store;
* `Knows.register`, `Knows.forget`, `Knows.update` — **what each write leaves known**.
-/

namespace Pynixd.Scheduler

open List
open Outputs (StoreId)

/-! ## Writes -/

/-- A `DaemonStore` that is not `no_schedule`. -/
def Backend.isScheduled (s : Backend) : Bool := s.isDaemon && !s.noSchedule

/-- What other tasks change of a store: its circuit breaker, its drain, the probe of its
features and the pressure on its host. -/
structure Look where
  isHealthy : Bool
  draining : Bool
  featureMatrix : Option (List (String × Finset String))
  limit : Nat

def Backend.seen (s : Backend) (look : Look) : Backend :=
  { s with
    isHealthy := look.isHealthy
    draining := look.draining
    featureMatrix := look.featureMatrix
    limit := look.limit }

/-- `store.draining = True`, for the store of an id. -/
def Backend.drain (id : StoreId) (s : Backend) : Backend :=
  if s.storeId = id then { s with draining := true } else s

theorem Backend.drain_storeId (id : StoreId) (s : Backend) : (s.drain id).storeId = s.storeId := by
  unfold Backend.drain
  split_ifs <;> rfl

theorem Backend.drain_isScheduled (id : StoreId) (s : Backend) :
    (s.drain id).isScheduled = s.isScheduled := by
  unfold Backend.drain
  split_ifs <;> rfl

namespace Fleet

/-- `stores[store.store_id] = store`. -/
def put (stores : List Backend) (s : Backend) : List Backend :=
  if stores.any (·.storeId = s.storeId) then
    stores.map fun t => if t.storeId = s.storeId then s else t
  else stores ++ [s]

theorem mem_put {stores : List Backend} {s t : Backend} :
    t ∈ put stores s ↔ t = s ∨ t ∈ stores ∧ t.storeId ≠ s.storeId := by
  unfold put
  split_ifs with hany
  · rw [any_eq_true] at hany
    obtain ⟨u, hu, hid⟩ := hany
    have hid : u.storeId = s.storeId := of_decide_eq_true hid
    rw [mem_map]
    constructor
    · rintro ⟨v, hv, rfl⟩
      by_cases hv' : v.storeId = s.storeId
      · exact .inl (if_pos hv')
      · rw [if_neg hv']
        exact .inr ⟨hv, hv'⟩
    · rintro (rfl | ⟨ht, hne⟩)
      · exact ⟨u, hu, if_pos hid⟩
      · exact ⟨t, ht, if_neg hne⟩
  · have hnone : ∀ u ∈ stores, u.storeId ≠ s.storeId := by simpa using hany
    rw [mem_append, mem_singleton, or_comm]
    exact or_congr_right ⟨fun ht => ⟨ht, hnone t ht⟩, And.left⟩

/-- The stores of the context and of the allocator, each changed but for its id. -/
def update (f : Fleet) (g h : Backend → Backend) (hg : ∀ s, (g s).storeId = s.storeId) :
    Fleet where
  stores := f.stores.map g
  localStore := g f.localStore
  allocated := f.allocated.map h
  dynamicFeatureMatrix := f.dynamicFeatureMatrix
  local_mem := mem_map_of_mem f.local_mem
  local_unique := by
    intro t ht hid
    obtain ⟨s, hs, rfl⟩ := mem_map.1 ht
    rw [hg, hg] at hid
    rw [f.local_unique s hs hid]

/-- The stores as they are found later.  The allocator may hold another object under an id than
the context does, so it is looked at on its own. -/
def look (f : Fleet) (context allocator : StoreId → Look) : Fleet :=
  f.update (fun s => s.seen (context s.storeId)) (fun s => s.seen (allocator s.storeId))
    fun _ => rfl

def drain (f : Fleet) (id : StoreId) : Fleet :=
  f.update (Backend.drain id) (Backend.drain id) (Backend.drain_storeId id)

def addDynamicFeatures (matrix features : List (String × Finset String)) :
    List (String × Finset String) :=
  features.foldl (fun matrix item =>
    Dict.set matrix item.1 ((Dict.get? matrix item.1).getD ∅ ∪ item.2)) matrix

def onStoreAdded (f : Fleet) (s : Backend) (dynamic : Bool) : Fleet :=
  { f with
    allocated := if s.isScheduled then put f.allocated s else f.allocated
    dynamicFeatureMatrix :=
      if dynamic then addDynamicFeatures f.dynamicFeatureMatrix (s.featureMatrix.getD [])
      else f.dynamicFeatureMatrix }

/-- The context takes a store, under an id that is not the local one's. -/
def register (f : Fleet) (s : Backend) (hid : s.storeId ≠ f.localStore.storeId) : Fleet :=
  { f with
    stores := put f.stores s
    local_mem := mem_put.2 (.inr ⟨f.local_mem, hid.symm⟩)
    local_unique := by
      intro t ht hlocal
      rcases mem_put.1 ht with rfl | ⟨ht, -⟩
      · exact absurd hlocal hid
      · exact f.local_unique t ht hlocal }

/-- `add_store`, for a store that has started. -/
def addStore (f : Fleet) (s : Backend) (dynamic : Bool)
    (hid : s.storeId ≠ f.localStore.storeId) : Fleet :=
  if s.isScheduled then (f.register s hid).onStoreAdded s dynamic else f.register s hid

/-- `_stores.pop` and `discard_store`.  `remove_store` refuses the local store. -/
def forget (f : Fleet) (id : StoreId) : Fleet :=
  { f with
    stores := f.stores.filter fun s => s.storeId ≠ id || s.storeId = f.localStore.storeId
    allocated := f.allocated.filter fun s => s.storeId ≠ id
    local_mem := mem_filter.2 ⟨f.local_mem, by simp⟩
    local_unique := fun s hs => f.local_unique s (mem_filter.1 hs).1 }

/-- The end of `remove_store`: a store that the context does not hold is not discarded. -/
def remove (f : Fleet) (id : StoreId) : Fleet :=
  if f.stores.any fun s => s.storeId = id then f.forget id else f

/-- The scheduler knows the id: `Scheduler.stores` has it. -/
def Knows (f : Fleet) (id : StoreId) : Prop := ∃ s ∈ f.schedulable, s.storeId = id

instance (f : Fleet) (id : StoreId) : Decidable (f.Knows id) :=
  inferInstanceAs (Decidable (∃ s ∈ f.schedulable, s.storeId = id))

/-! ## What the scheduler knows -/

variable {s : Backend} {f : Fleet} {id : StoreId}

theorem mem_schedulable : s ∈ f.schedulable ↔ s ∈ f.stores ∧ s.isScheduled = true :=
  mem_filter

theorem knows_local (h : f.localStore.isScheduled = true) : f.Knows f.localStore.storeId :=
  ⟨f.localStore, mem_schedulable.2 ⟨f.local_mem, h⟩, rfl⟩

/-- No store goes by the empty id. -/
def Named (f : Fleet) : Prop := ∀ s ∈ f.stores, s.storeId ≠ ""

theorem Named.ne_empty (h : f.Named) (hknows : f.Knows id) : id ≠ "" := by
  obtain ⟨s, hs, rfl⟩ := hknows
  exact h s (mem_schedulable.1 hs).1

theorem Named.register (h : f.Named)
    (hid : s.storeId ≠ f.localStore.storeId) (hnamed : s.storeId ≠ "") :
    (f.register s hid).Named := by
  intro t ht
  rcases mem_put.1 ht with rfl | ⟨ht, -⟩
  · exact hnamed
  · exact h t ht

/-- A scheduled store, or one under a new id, takes no id from the scheduler. -/
theorem Knows.register (h : f.Knows id) (hid : s.storeId ≠ f.localStore.storeId)
    (hkept : s.isScheduled = true ∨ ¬f.Knows s.storeId) : (f.register s hid).Knows id := by
  obtain ⟨t, ht, rfl⟩ := h
  obtain ⟨hmem, hscheduled⟩ := mem_schedulable.1 ht
  by_cases hsame : t.storeId = s.storeId
  · have hs : s.isScheduled = true := hkept.resolve_right fun hnot => hnot ⟨t, ht, hsame⟩
    exact ⟨s, mem_schedulable.2 ⟨mem_put.2 (.inl rfl), hs⟩, hsame.symm⟩
  · exact ⟨t, mem_schedulable.2 ⟨mem_put.2 (.inr ⟨hmem, hsame⟩), hscheduled⟩, rfl⟩

theorem knows_register_self
    (hid : s.storeId ≠ f.localStore.storeId) (hscheduled : s.isScheduled = true) :
    (f.register s hid).Knows s.storeId :=
  ⟨s, mem_schedulable.2 ⟨mem_put.2 (.inl rfl), hscheduled⟩, rfl⟩

theorem Named.forget (h : f.Named) (id : StoreId) : (f.forget id).Named :=
  fun s hs => h s (mem_filter.1 hs).1

theorem Knows.forget {id id' : StoreId} (h : f.Knows id) (hne : id ≠ id') :
    (f.forget id').Knows id := by
  obtain ⟨s, hs, rfl⟩ := h
  obtain ⟨hmem, hscheduled⟩ := mem_schedulable.1 hs
  refine ⟨s, mem_schedulable.2 ⟨mem_filter.2 ⟨hmem, ?_⟩, hscheduled⟩, rfl⟩
  simp [hne]

theorem Named.remove (h : f.Named) (id : StoreId) : (f.remove id).Named := by
  unfold Fleet.remove
  split_ifs
  · exact h.forget id
  · exact h

theorem Knows.remove {id id' : StoreId} (h : f.Knows id) (hne : id ≠ id') :
    (f.remove id').Knows id := by
  unfold Fleet.remove
  split_ifs
  · exact h.forget hne
  · exact h

theorem knows_remove_of_mem_allocated (h : ∀ s ∈ f.allocated, f.Knows s.storeId)
    (hs : s ∈ (f.remove id).allocated) : (f.remove id).Knows s.storeId := by
  unfold Fleet.remove at hs ⊢
  split_ifs at hs ⊢
  · obtain ⟨hmem, hne⟩ := mem_filter.1 hs
    exact (h s hmem).forget (of_decide_eq_true hne)
  · exact h s hs

section Update

variable {f : Fleet} {g h : Backend → Backend} (hg : ∀ s, (g s).storeId = s.storeId)

theorem Named.update (hf : f.Named) : (f.update g h hg).Named := by
  intro t ht
  obtain ⟨s, hs, rfl⟩ := mem_map.1 ht
  rw [hg]
  exact hf s hs

theorem Knows.update {id : StoreId} (hknows : f.Knows id)
    (hscheduled : ∀ s, (g s).isScheduled = s.isScheduled) : (f.update g h hg).Knows id := by
  obtain ⟨s, hs, rfl⟩ := hknows
  obtain ⟨hmem, hs⟩ := mem_schedulable.1 hs
  refine ⟨g s, mem_schedulable.2 ⟨mem_map_of_mem hmem, ?_⟩, hg s⟩
  rw [hscheduled]
  exact hs

end Update

end Fleet

end Pynixd.Scheduler
