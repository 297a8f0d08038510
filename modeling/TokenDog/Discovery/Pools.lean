import TokenDog.Worker

/-!
# Shared worker pools

`add_worker_to_pool` and `remove_worker_from_pool`. A pool is searched by URL: an addition appends a
worker whose URL is new, a removal drops every worker with the URL and so shifts the ones behind it.
-/

namespace TokenDog

/-- Add a worker to the pool if its URL is not present. -/
def addWorkerToPool (workers : List Worker) (url : String) : List Worker :=
  if workers.any (·.url == url) then workers else workers ++ [.new url]

/-- Drop every worker with the URL. -/
def removeWorkerFromPool (workers : List Worker) (url : String) : List Worker :=
  workers.filter (·.url != url)

theorem addWorkerToPool_of_mem {workers : List Worker} {url : String}
    (hmem : url ∈ workers.map Worker.url) : addWorkerToPool workers url = workers := by
  rw [addWorkerToPool, if_pos]
  simpa [List.any_eq_true] using hmem

theorem addWorkerToPool_of_not_mem {workers : List Worker} {url : String}
    (hnew : url ∉ workers.map Worker.url) : addWorkerToPool workers url = workers ++ [.new url] := by
  rw [addWorkerToPool, if_neg]
  simpa [List.any_eq_true] using hnew

theorem mem_urls_addWorkerToPool {workers : List Worker} {url other : String} :
    other ∈ (addWorkerToPool workers url).map Worker.url ↔
      other ∈ workers.map Worker.url ∨ other = url := by
  by_cases hmem : url ∈ workers.map Worker.url
  · rw [addWorkerToPool_of_mem hmem]
    exact ⟨Or.inl, fun h => h.elim id fun heq => heq ▸ hmem⟩
  · rw [addWorkerToPool_of_not_mem hmem, List.map_append, List.mem_append]
    exact or_congr_right List.mem_singleton

theorem mem_urls_removeWorkerFromPool {workers : List Worker} {url other : String} :
    other ∈ (removeWorkerFromPool workers url).map Worker.url ↔
      other ∈ workers.map Worker.url ∧ other ≠ url := by
  simp only [removeWorkerFromPool, List.mem_map, List.mem_filter, bne_iff_ne]
  constructor
  · rintro ⟨worker, ⟨hmem, hne⟩, rfl⟩
    exact ⟨⟨worker, hmem, rfl⟩, hne⟩
  · rintro ⟨⟨worker, hmem, rfl⟩, hne⟩
    exact ⟨worker, ⟨hmem, hne⟩, rfl⟩

/-- The workers behind a removed one move up by one position. -/
theorem removeWorkerFromPool_append {before after : List Worker} {worker : Worker}
    (hnodup : ((before ++ worker :: after).map Worker.url).Nodup) :
    removeWorkerFromPool (before ++ worker :: after) worker.url = before ++ after := by
  rw [List.map_append, List.map_cons, List.nodup_middle, List.nodup_cons] at hnodup
  have hother : ∀ other ∈ before ++ after, (other.url != worker.url) = true := by
    intro other hmem
    rw [bne_iff_ne]
    intro heq
    rw [← heq, ← List.map_append] at hnodup
    exact hnodup.1 (List.mem_map_of_mem hmem)
  rw [removeWorkerFromPool, List.filter_append, List.filter_cons_of_neg (by simp),
    ← List.filter_append]
  exact List.filter_eq_self.mpr hother

theorem removeWorkerFromPool_of_not_mem {workers : List Worker} {url : String}
    (hnew : url ∉ workers.map Worker.url) : removeWorkerFromPool workers url = workers := by
  refine List.filter_eq_self.mpr fun worker hmem => ?_
  rw [bne_iff_ne]
  rintro rfl
  exact hnew (List.mem_map_of_mem hmem)

theorem nodup_addWorkerToPool {workers : List Worker} (url : String)
    (hnodup : (workers.map Worker.url).Nodup) :
    ((addWorkerToPool workers url).map Worker.url).Nodup := by
  by_cases hmem : url ∈ workers.map Worker.url
  · rwa [addWorkerToPool_of_mem hmem]
  · rw [addWorkerToPool_of_not_mem hmem, List.map_append, List.nodup_append]
    refine ⟨hnodup, List.nodup_singleton _, fun other hother new hnew => ?_⟩
    rw [List.mem_singleton.mp hnew]
    change other ≠ url
    rintro rfl
    exact hmem hother

theorem nodup_removeWorkerFromPool {workers : List Worker} (url : String)
    (hnodup : (workers.map Worker.url).Nodup) :
    ((removeWorkerFromPool workers url).map Worker.url).Nodup :=
  hnodup.sublist (List.filter_sublist.map Worker.url)

end TokenDog
