import TokenDog.Discovery.Pools
import TokenDog.Server

/-!
# Worker objects

Pools hold shared pointers. A health flag belongs to the object behind the pointer, neither to a
position of a pool nor to a URL: a worker that leaves a pool and comes back under its old URL is a
new object. The views of the pools are the worker lists that selections read.
-/

namespace TokenDog

/-- The worker objects made so far, and the pools, which point to them. A pointer to a worker is the
number of objects that were made before it. -/
structure Fleet where
  made : Nat
  worker : Nat → Worker
  pools : Pool → List Nat
  allocated : ∀ pool, ∀ ref ∈ pools pool, ref < made

namespace Fleet

def isHealthy (fleet : Fleet) (ref : Nat) : Bool := (fleet.worker ref).healthy

def setHealthy (fleet : Fleet) (ref : Nat) (healthy : Bool) : Fleet :=
  { fleet with worker := Function.update fleet.worker ref { fleet.worker ref with healthy } }

/-- Make a worker and add it to the pool. -/
def push (fleet : Fleet) (pool : Pool) (url : String) : Fleet where
  made := fleet.made + 1
  worker := Function.update fleet.worker fleet.made (.new url)
  pools := Function.update fleet.pools pool (fleet.pools pool ++ [fleet.made])
  allocated := by
    intro other ref hmem
    by_cases hother : other = pool
    · subst hother
      rw [Function.update_self, List.mem_append, List.mem_singleton] at hmem
      rcases hmem with hmem | rfl
      · exact Nat.lt_succ_of_lt (fleet.allocated other ref hmem)
      · exact Nat.lt_succ_self _
    · rw [Function.update_of_ne hother] at hmem
      exact Nat.lt_succ_of_lt (fleet.allocated other ref hmem)

/-- `add_worker_to_pool`: a new object, unless the pool has one with the URL. -/
def addWorker (fleet : Fleet) (pool : Pool) (url : String) : Fleet :=
  if (fleet.pools pool).any fun ref => (fleet.worker ref).url == url then fleet
  else fleet.push pool url

/-- `remove_worker_from_pool`. The objects stay, for those who still point to them. -/
def removeWorker (fleet : Fleet) (pool : Pool) (url : String) : Fleet :=
  { fleet with
    pools := Function.update fleet.pools pool
      ((fleet.pools pool).filter fun ref => (fleet.worker ref).url != url)
    allocated := by
      intro other ref hmem
      by_cases hother : other = pool
      · subst hother
        rw [Function.update_self] at hmem
        exact fleet.allocated other ref (List.mem_of_mem_filter hmem)
      · rw [Function.update_of_ne hother] at hmem
        exact fleet.allocated other ref hmem }

/-- The pool as selections read it. -/
def view (fleet : Fleet) (pool : Pool) : List Worker := (fleet.pools pool).map fleet.worker

/-- The objects of `from_urls`, in order, and pools over them. -/
def ofUrls (urls : List String) (pools : Pool → List Nat)
    (h : ∀ pool, ∀ ref ∈ pools pool, ref < urls.length) : Fleet :=
  ⟨urls.length, fun ref => .new (urls.getD ref ""), pools, h⟩

/-- The workers of `AppState::new`. -/
def static (urls : List String) : Fleet :=
  ofUrls urls (fun pool => if pool = .regular then List.range urls.length else []) <| by
    intro pool ref hmem
    split at hmem
    · exact List.mem_range.mp hmem
    · exact (List.not_mem_nil hmem).elim

/-- The workers of `AppState::new_pd`: the regular pool holds the decode workers themselves. -/
def staticPd (prefillUrls decodeUrls : List String) : Fleet :=
  ofUrls (prefillUrls ++ decodeUrls)
    (fun pool => if pool = .prefill then List.range prefillUrls.length
      else List.range' prefillUrls.length decodeUrls.length) <| by
    intro pool ref hmem
    rw [List.length_append]
    split at hmem
    · exact Nat.lt_add_right _ (List.mem_range.mp hmem)
    · exact (List.mem_range'_1.mp hmem).2

def empty : Fleet := ofUrls [] (fun _ => []) fun _ _ hmem => (List.not_mem_nil hmem).elim

section Operations

variable (fleet : Fleet) (pool : Pool) (url : String) (ref : Nat) (healthy : Bool)

@[simp] theorem pools_setHealthy : (fleet.setHealthy ref healthy).pools = fleet.pools := rfl

@[simp] theorem made_setHealthy : (fleet.setHealthy ref healthy).made = fleet.made := rfl

@[simp] theorem made_removeWorker : (fleet.removeWorker pool url).made = fleet.made := rfl

@[simp] theorem worker_removeWorker : (fleet.removeWorker pool url).worker = fleet.worker := rfl

theorem pools_removeWorker : (fleet.removeWorker pool url).pools =
    Function.update fleet.pools pool
      ((fleet.pools pool).filter fun ref => (fleet.worker ref).url != url) := rfl

theorem pools_push : (fleet.push pool url).pools =
    Function.update fleet.pools pool (fleet.pools pool ++ [fleet.made]) := rfl

theorem worker_push : (fleet.push pool url).worker =
    Function.update fleet.worker fleet.made (.new url) := rfl

theorem mem_pools_removeWorker {other : Pool}
    (hmem : ref ∈ (fleet.removeWorker pool url).pools other) : ref ∈ fleet.pools other := by
  by_cases hother : other = pool
  · subst hother
    rw [pools_removeWorker, Function.update_self] at hmem
    exact List.mem_of_mem_filter hmem
  · rwa [pools_removeWorker, Function.update_of_ne hother] at hmem

theorem made_le_addWorker : fleet.made ≤ (fleet.addWorker pool url).made := by
  unfold addWorker
  split
  · exact le_rfl
  · exact Nat.le_succ _

theorem mem_pools_addWorker {other : Pool} (hmem : ref ∈ (fleet.addWorker pool url).pools other) :
    ref ∈ fleet.pools other ∨ fleet.made ≤ ref := by
  unfold addWorker at hmem
  split at hmem
  · exact Or.inl hmem
  · rw [pools_push] at hmem
    by_cases hother : other = pool
    · subst hother
      rw [Function.update_self, List.mem_append, List.mem_singleton] at hmem
      exact hmem.imp id fun h => h.ge
    · rw [Function.update_of_ne hother] at hmem
      exact Or.inl hmem

theorem pools_addWorker_of_ne {other : Pool} (hother : other ≠ pool) :
    (fleet.addWorker pool url).pools other = fleet.pools other := by
  unfold addWorker
  split
  · rfl
  · rw [pools_push, Function.update_of_ne hother]

/-- Objects that exist are not touched when one is made. -/
theorem worker_addWorker (href : ref < fleet.made) :
    (fleet.addWorker pool url).worker ref = fleet.worker ref := by
  unfold addWorker
  split
  · rfl
  · exact Function.update_of_ne (Nat.ne_of_lt href) _ _

/-- New objects are healthy. -/
theorem isHealthy_addWorker (hnew : fleet.made ≤ ref) (href : ref < (fleet.addWorker pool url).made) :
    (fleet.addWorker pool url).isHealthy ref = true := by
  unfold addWorker at href ⊢
  split at href
  · omega
  · rename_i hnone
    have hself : ref = fleet.made := by
      change ref < fleet.made + 1 at href
      omega
    rw [if_neg hnone, hself, isHealthy, worker_push, Function.update_self]
    rfl

theorem worker_setHealthy : (fleet.setHealthy ref healthy).worker =
    Function.update fleet.worker ref { fleet.worker ref with healthy } := rfl

theorem isHealthy_setHealthy_self : (fleet.setHealthy ref healthy).isHealthy ref = healthy := by
  rw [isHealthy, worker_setHealthy, Function.update_self]

theorem isHealthy_setHealthy_of_ne {other : Nat} (hother : other ≠ ref) :
    (fleet.setHealthy ref healthy).isHealthy other = fleet.isHealthy other := by
  rw [isHealthy, worker_setHealthy, Function.update_of_ne hother, isHealthy]

@[simp]
theorem url_setHealthy (other : Nat) :
    ((fleet.setHealthy ref healthy).worker other).url = (fleet.worker other).url := by
  by_cases hother : other = ref
  · subst hother
    rw [worker_setHealthy, Function.update_self]
  · rw [worker_setHealthy, Function.update_of_ne hother]

theorem view_addWorker :
    (fleet.addWorker pool url).view =
      Function.update fleet.view pool (addWorkerToPool (fleet.view pool) url) := by
  have hany : (fleet.view pool).any (·.url == url) =
      (fleet.pools pool).any fun ref => (fleet.worker ref).url == url := by
    rw [view, List.any_map]
    rfl
  funext other
  unfold addWorker
  split
  · rename_i hlisted
    rw [addWorkerToPool, hany, if_pos hlisted, Function.update_eq_self]
  · rename_i hlisted
    -- the objects that the pools point to are not the new one
    have hkept : ∀ pool', (fleet.pools pool').map
        (Function.update fleet.worker fleet.made (Worker.new url)) = fleet.view pool' := fun pool' =>
      List.map_congr_left fun ref hmem =>
        Function.update_of_ne (Nat.ne_of_lt (fleet.allocated pool' ref hmem)) _ _
    rw [addWorkerToPool, hany, if_neg hlisted, view, pools_push, worker_push]
    by_cases hother : other = pool
    · subst hother
      rw [Function.update_self, Function.update_self, List.map_append, hkept, List.map_singleton,
        Function.update_self]
    · rw [Function.update_of_ne hother, Function.update_of_ne hother, hkept]

theorem view_removeWorker :
    (fleet.removeWorker pool url).view =
      Function.update fleet.view pool (removeWorkerFromPool (fleet.view pool) url) := by
  funext other
  by_cases hother : other = pool
  · subst hother
    rw [view, pools_removeWorker, Function.update_self, Function.update_self, removeWorkerFromPool,
      view, List.filter_map]
    rfl
  · rw [view, pools_removeWorker, Function.update_of_ne hother, Function.update_of_ne hother, view]
    rfl

end Operations

end Fleet

end TokenDog
