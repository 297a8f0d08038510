import Mathlib.Data.List.Basic
import Mathlib.Data.List.Sort
import Mathlib.Order.Lattice

/-!
# Worker pools

A worker is a URL with a health flag. `healthyWorkerUrls` filters a pool and keeps, for each healthy
worker, its position in the full pool; positions in the filtered list and positions in the pool are
the two index spaces of worker selection.
-/

namespace TokenDog

structure Worker where
  url : String
  healthy : Bool
  deriving DecidableEq, Repr

namespace Worker

/-- Workers start healthy. -/
def new (url : String) : Worker := ⟨url, true⟩

def fromUrls (urls : List String) : List Worker := urls.map new

end Worker

/-- `(original_index, url)` for the healthy workers of a pool, in order. -/
def healthyWorkerUrls (workers : List Worker) : List (Nat × String) :=
  (workers.zipIdx.filter fun entry => entry.1.healthy).map fun entry => (entry.2, entry.1.url)

def setFlags (flags : Nat → Bool) (workers : List Worker) : List Worker :=
  workers.mapIdx fun i worker => { worker with healthy := flags i }

theorem mem_healthyWorkerUrls {workers : List Worker} {i : Nat} {url : String} :
    (i, url) ∈ healthyWorkerUrls workers ↔ workers[i]? = some ⟨url, true⟩ := by
  simp only [healthyWorkerUrls, List.mem_map, List.mem_filter, Prod.mk.injEq, Prod.exists]
  constructor
  · rintro ⟨worker, j, ⟨hmem, hhealthy⟩, rfl, rfl⟩
    rw [List.mk_mem_zipIdx_iff_getElem?] at hmem
    rw [hmem]
    cases worker
    simp_all
  · intro h
    exact ⟨⟨url, true⟩, i, ⟨List.mk_mem_zipIdx_iff_getElem?.mpr h, rfl⟩, rfl, rfl⟩

theorem healthyWorkerUrls_eq_nil_iff {workers : List Worker} :
    healthyWorkerUrls workers = [] ↔ ∀ worker ∈ workers, worker.healthy = false := by
  rw [List.eq_nil_iff_forall_not_mem]
  constructor
  · intro h worker hmem
    by_contra hhealthy
    obtain ⟨i, hi⟩ := List.getElem?_of_mem hmem
    refine h (i, worker.url) (mem_healthyWorkerUrls.mpr ?_)
    rw [hi]
    cases worker
    simp_all
  · rintro h ⟨i, url⟩ hmem
    rw [mem_healthyWorkerUrls] at hmem
    have := h _ (List.mem_of_getElem? hmem)
    simp at this

theorem length_healthyWorkerUrls_le (workers : List Worker) :
    (healthyWorkerUrls workers).length ≤ workers.length := by
  rw [healthyWorkerUrls, List.length_map]
  exact (List.length_filter_le _ _).trans_eq List.length_zipIdx

theorem lt_length_of_mem_healthyWorkerUrls {workers : List Worker} {entry : Nat × String}
    (hmem : entry ∈ healthyWorkerUrls workers) : entry.1 < workers.length := by
  obtain ⟨i, url⟩ := entry
  exact (List.getElem?_eq_some_iff.mp (mem_healthyWorkerUrls.mp hmem)).1

theorem nodup_healthyWorkerUrls (workers : List Worker) :
    ((healthyWorkerUrls workers).map Prod.fst).Nodup := by
  have hnodup : (workers.zipIdx.map Prod.snd).Nodup := by
    rw [List.zipIdx_map_snd]
    exact List.nodup_range' _
  refine hnodup.sublist ?_
  rw [healthyWorkerUrls, List.map_map]
  exact List.filter_sublist.map Prod.snd

theorem map_snd_healthyWorkerUrls (workers : List Worker) :
    (healthyWorkerUrls workers).map Prod.snd =
      (workers.filter Worker.healthy).map Worker.url := by
  conv_rhs => rw [← List.zipIdx_map_fst 0 workers, List.filter_map, List.map_map]
  rw [healthyWorkerUrls, List.map_map]
  rfl

theorem getElem?_healthyWorkerUrls_of_forall {workers : List Worker}
    (hall : ∀ worker ∈ workers, worker.healthy = true) (k : Nat) :
    (healthyWorkerUrls workers)[k]? = workers[k]?.map fun worker => (k, worker.url) := by
  have hfilter : workers.zipIdx.filter (fun entry => entry.1.healthy) = workers.zipIdx := by
    refine List.filter_eq_self.mpr fun entry hmem => hall entry.1 ?_
    obtain ⟨worker, i⟩ := entry
    exact List.mem_of_getElem? (List.mk_mem_zipIdx_iff_getElem?.mp hmem)
  rw [healthyWorkerUrls, hfilter, List.getElem?_map, List.getElem?_zipIdx]
  simp [Function.comp_def]

theorem healthyWorkerUrls_append (before after : List Worker) :
    healthyWorkerUrls (before ++ after) = healthyWorkerUrls before ++
      (healthyWorkerUrls after).map fun entry => (entry.1 + before.length, entry.2) := by
  have hshift : after.zipIdx (0 + before.length) =
      after.zipIdx.map fun entry => (entry.1, entry.2 + before.length) := by
    rw [Nat.zero_add, List.zipIdx_eq_map_add]
    apply List.map_congr_left
    intro entry _
    change (entry.1, before.length + entry.2) = (entry.1, entry.2 + before.length)
    rw [Nat.add_comm]
  simp only [healthyWorkerUrls]
  rw [List.zipIdx_append, List.filter_append, List.map_append, hshift, List.filter_map,
    List.map_map, List.map_map]
  rfl

theorem length_healthyWorkerUrls (workers : List Worker) :
    (healthyWorkerUrls workers).length = workers.countP Worker.healthy := by
  rw [← List.length_map Prod.snd, map_snd_healthyWorkerUrls, List.length_map,
    List.countP_eq_length_filter]

theorem getElem?_healthyWorkerUrls_count {workers : List Worker} {w : Nat} {url : String}
    (hentry : workers[w]? = some ⟨url, true⟩) :
    (healthyWorkerUrls workers)[(workers.take w).countP Worker.healthy]? = some (w, url) := by
  obtain ⟨hw, hget⟩ := List.getElem?_eq_some_iff.mp hentry
  have hlength : (workers.take w).length = w := List.length_take_of_le hw.le
  have hsplit : workers.take w ++ ⟨url, true⟩ :: workers.drop (w + 1) = workers := by
    rw [← hget, List.getElem_cons_drop, List.take_append_drop]
  have happend := healthyWorkerUrls_append (workers.take w) (⟨url, true⟩ :: workers.drop (w + 1))
  rw [hsplit, hlength] at happend
  rw [happend, ← length_healthyWorkerUrls, List.getElem?_append_right (le_refl _), Nat.sub_self]
  change some (0 + w, url) = some (w, url)
  rw [Nat.zero_add]

theorem candidate_unique {workers : List Worker} {j k : Nat} {entry : Nat × String}
    (hj : (healthyWorkerUrls workers)[j]? = some entry)
    (hk : (healthyWorkerUrls workers)[k]? = some entry) : j = k := by
  have hnodup : (healthyWorkerUrls workers).Nodup := (nodup_healthyWorkerUrls workers).of_map _
  exact (List.getElem?_inj (List.getElem?_eq_some_iff.mp hj).1 hnodup).mp (hj.trans hk.symm)

theorem getElem?_setFlags (flags : Nat → Bool) (workers : List Worker) (i : Nat) :
    (setFlags flags workers)[i]? = workers[i]?.map fun worker => { worker with healthy := flags i } := by
  simp [setFlags]

theorem healthyWorkerUrls_ne_nil_iff {workers : List Worker} :
    healthyWorkerUrls workers ≠ [] ↔ ∃ worker ∈ workers, worker.healthy = true := by
  simp [healthyWorkerUrls_eq_nil_iff]

theorem length_healthyWorkerUrls_setFlags {workers : List Worker} {k : Nat}
    (hk : k ≤ workers.length) :
    (healthyWorkerUrls (setFlags (fun i => decide (i < k)) workers)).length = k := by
  have hsplit : setFlags (fun i => decide (i < k)) workers =
      (workers.take k).map (fun worker => { worker with healthy := true }) ++
        (workers.drop k).map (fun worker => { worker with healthy := false }) := by
    refine List.ext_getElem? fun i => ?_
    rw [getElem?_setFlags, List.getElem?_append]
    by_cases hi : i < k
    · simp [hi, hk, Nat.lt_of_lt_of_le hi hk]
    · simp [hi, hk, Nat.add_sub_cancel' (Nat.not_lt.mp hi)]
  have hlength := congrArg List.length (map_snd_healthyWorkerUrls
    (setFlags (fun i => decide (i < k)) workers))
  rw [List.length_map, List.length_map] at hlength
  have hup : ∀ worker ∈ (workers.take k).map fun worker => { worker with healthy := true },
      worker.healthy = true := List.forall_mem_map.mpr fun _ _ => rfl
  have hdown : ∀ worker ∈ (workers.drop k).map fun worker => { worker with healthy := false },
      ¬worker.healthy = true := List.forall_mem_map.mpr fun _ _ => Bool.false_ne_true
  rw [hlength, hsplit, List.filter_append, List.filter_eq_self.mpr hup,
    List.filter_eq_nil_iff.mpr hdown, List.append_nil, List.length_map, List.length_take,
    Nat.min_eq_left hk]

@[simp]
theorem map_url_setFlags (flags : Nat → Bool) (workers : List Worker) :
    (setFlags flags workers).map Worker.url = workers.map Worker.url := by
  apply List.ext_getElem? 
  intro i
  simp [setFlags, Function.comp_def]

end TokenDog
