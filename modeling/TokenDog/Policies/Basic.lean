import Mathlib.Data.List.Basic
import Mathlib.Order.Lattice
import Mathlib.Logic.Function.Basic
import Mathlib.Tactic.Common
import Mathlib.Algebra.Group.Nat.Defs

/-!
# The load balancer interface

What every selection policy shares: the ways a call can panic, the random draws and the clock a call
reads, the vector of in-flight counters, the string hash, and the `LoadBalancer` trait with its
default methods. Calls pass the policy's state explicitly.
-/

namespace TokenDog

/-- The ways a call of this program can panic. -/
inductive Panic where
  | indexOutOfBounds
  | emptyRange
  | remainderByZero
  | assertion
  | overflow
  | notAnObject
  | unwrapOnNone
  | poisoned
  deriving DecidableEq, Repr

@[simp]
theorem ok_bind {α β : Type} (a : α) (next : α → Except Panic β) :
    (Except.ok a >>= next) = next a := rfl

@[simp]
theorem error_bind {α β : Type} (panic : Panic) (next : α → Except Panic β) :
    (Except.error panic >>= next) = Except.error panic := rfl

@[simp]
theorem pure_eq_ok {α : Type} (a : α) : (pure a : Except Panic α) = .ok a := rfl

theorem bind_eq_ok {α β : Type} {first : Except Panic α} {next : α → Except Panic β} {b : β} :
    (first >>= next) = .ok b ↔ ∃ a, first = .ok a ∧ next a = .ok b := by
  cases first <;> simp

/-- What a call reads from outside the router: the raw values handed out by the thread's random
generator, in order, and the monotonic clock. -/
structure Ambient where
  draw : Nat → Nat
  now : Nat

/-- `gen_range(0..n)` reduces a raw draw into the range, and panics on an empty one. -/
def genRange (raw n : Nat) : Except Panic Nat :=
  if n = 0 then .error .emptyRange else .ok (raw % n)

theorem genRange_eq_ok {raw n : Nat} (hn : 0 < n) : genRange raw n = .ok (raw % n) :=
  if_neg (Nat.pos_iff_ne_zero.mp hn)

/-! ### In-flight counters

A `Vec<AtomicUsize>`. The counters count requests that are in flight at one time, each of them an
object in a 64-bit address space, so `fetch_add` is modelled without its wrap-around; `fetch_sub`
keeps its own, since nothing in the code stops a decrement at zero. In the runs in which a counter
can be decremented at zero, the increments wrap around as well (`AppState.wrap`). -/

abbrev Counters := List Nat

namespace Counters

def zeros (workerCount : Nat) : Counters := List.replicate workerCount 0

def load (active : Counters) (i : Nat) : Except Panic Nat :=
  match active[i]? with
  | some count => .ok count
  | none => .error .indexOutOfBounds

def fetchAdd (active : Counters) (i : Nat) : Except Panic Counters :=
  if i < active.length then .ok (active.modify i (· + 1)) else .error .indexOutOfBounds

def decrement (count : Nat) : Nat := if count = 0 then 2 ^ 64 - 1 else count - 1

def fetchSub (active : Counters) (i : Nat) : Except Panic Counters :=
  if i < active.length then .ok (active.modify i decrement) else .error .indexOutOfBounds

/-- The value of counter `i`, zero outside the vector. -/
def inFlight (active : Counters) (i : Nat) : Nat := active[i]?.getD 0

theorem load_eq_ok {active : Counters} {i : Nat} (hi : i < active.length) :
    active.load i = .ok (active.inFlight i) := by
  simp [load, inFlight, hi]

theorem fetchAdd_eq_ok {active : Counters} {i : Nat} (hi : i < active.length) :
    active.fetchAdd i = .ok (active.modify i (· + 1)) :=
  if_pos hi

theorem fetchSub_eq_ok {active : Counters} {i : Nat} (hi : i < active.length) :
    active.fetchSub i = .ok (active.modify i decrement) :=
  if_pos hi

theorem decrement_of_pos {value : Nat} (hpos : 0 < value) : decrement value = value - 1 :=
  if_neg (Nat.pos_iff_ne_zero.mp hpos)

theorem inFlight_zeros (workerCount i : Nat) : inFlight (zeros workerCount) i = 0 := by
  simp only [inFlight, zeros, List.getElem?_replicate]
  split <;> rfl

@[simp]
theorem length_zeros (workerCount : Nat) : (zeros workerCount).length = workerCount := by
  simp [zeros]

theorem inFlight_modify {active : Counters} {f : Nat → Nat} {i j : Nat} (hi : i < active.length) :
    inFlight (active.modify i f) j =
      if j = i then f (active.inFlight j) else active.inFlight j := by
  simp only [inFlight, List.getElem?_modify]
  by_cases hij : i = j
  · subst hij
    simp [hi]
  · simp [hij, Ne.symm hij]

theorem inFlight_modify_eq_update {active : Counters} {f : Nat → Nat} {i : Nat}
    (hi : i < active.length) :
    inFlight (active.modify i f) = Function.update active.inFlight i (f (active.inFlight i)) := by
  funext j
  rw [inFlight_modify hi]
  by_cases hj : j = i
  · subst hj
    simp
  · simp [hj]

theorem getElem?_eq_inFlight {active : Counters} {i : Nat} (hi : i < active.length) :
    active[i]? = some (active.inFlight i) := by
  simp [inFlight, hi]

theorem inFlight_eq_getElem {active : Counters} {i : Nat} (hi : i < active.length) :
    active.inFlight i = active[i] := by
  simp [inFlight, hi]

theorem lt_length_of_inFlight_pos {active : Counters} {i : Nat} (hpos : 0 < active.inFlight i) :
    i < active.length := by
  by_contra hge
  simp [inFlight, List.getElem?_eq_none (Nat.not_lt.mp hge)] at hpos

/-- Among the first `n` counters none is smaller than counter `i`. -/
structure Least (active : Counters) (n i : Nat) : Prop where
  lt : i < n
  le : ∀ j < n, active.inFlight i ≤ active.inFlight j

theorem eq_zeros_of_inFlight {active : Counters} (hzero : ∀ i, active.inFlight i = 0) :
    active = zeros active.length := by
  refine List.ext_getElem (by simp) fun i hi _ => ?_
  rw [← inFlight_eq_getElem hi, hzero i]
  simp [zeros]

end Counters

/-- Request fields extracted by the proxy handler for cache-aware routing. -/
structure RequestContext where
  sessionId : String
  prefixKey : String
  deriving DecidableEq, Repr

def bytes (s : String) : List UInt8 := s.toByteArray.data.toList

/-- FNV-1a, 64 bit. -/
def stableHash (s : String) : UInt64 :=
  (bytes s).foldl (fun hash byte => (hash ^^^ byte.toUInt64) * 0x100000001b3) 0xcbf29ce484222325

/-- The `LoadBalancer` trait. A selection returns an index into the worker list it was given. -/
class LoadBalancer (P : Type) where
  select : P → List String → Ambient → Except Panic (Nat × P)
  selectWithContext : P → List String → RequestContext → Ambient → Except Panic (Nat × P) :=
    fun policy workers _ctx ambient => select policy workers ambient
  onRequestStart : P → Nat → Except Panic P := fun policy _workerIdx => .ok policy
  onRequestEnd : P → Nat → Except Panic P := fun policy _workerIdx => .ok policy
  record : P → RequestContext → Nat → Ambient → P := fun policy _ctx _workerIdx _ambient => policy

end TokenDog
