import TokenDog.Lib.Residues
import TokenDog.Policies.LoadOnly

/-!
# Fairness of round robin

Any number of clients share one counter. Whatever the order in which their calls reach it, the calls
take the workers in turn.
-/

namespace TokenDog

namespace RoundRobin

/-- A call of a client, with the workers it was given and what it reads from outside. -/
structure Call (Client : Type) where
  client : Client
  workers : List String
  ambient : Ambient

/-- The calls in the order in which they reach the counter: the index each of them returns, with the
client that made it, and the policy after the last one. -/
def serve {Client : Type} :
    List (Call Client) → RoundRobin → Except Panic (List (Client × Nat) × RoundRobin)
  | [], policy => .ok ([], policy)
  | call :: rest, policy => do
      let (i, policy) ← policy.select call.workers call.ambient
      let (returned, policy) ← serve rest policy
      return ((call.client, i) :: returned, policy)

variable {Client : Type}

/-- As long as the counter does not wrap around, the calls return consecutive residues. -/
theorem serve_eq {n start : Nat} (hn : 0 < n) {calls : List (Call Client)}
    (hworkers : ∀ call ∈ calls, call.workers.length = n) (hfit : start + calls.length ≤ 2 ^ 64) :
    ∃ returned policy, serve calls ⟨start⟩ = .ok (returned, policy) ∧
      returned.map Prod.fst = calls.map Call.client ∧
      returned.map Prod.snd = Residues.window n start calls.length := by
  induction calls generalizing start with
  | nil => exact ⟨[], ⟨start⟩, rfl, rfl, rfl⟩
  | cons call rest ih =>
      rw [List.forall_mem_cons] at hworkers
      obtain ⟨hcall, hrest⟩ := hworkers
      have hne : call.workers ≠ [] := by
        rintro hnil
        rw [hnil] at hcall
        exact absurd hcall hn.ne
      have hselect := select_eq ⟨start⟩ call.ambient hne
      rw [hcall] at hselect
      rw [List.length_cons] at hfit
      -- the counter can wrap around at the last call only
      obtain ⟨returned, policy, hserve, hclients, hindices⟩ : ∃ returned policy,
          serve rest ⟨(start + 1) % 2 ^ 64⟩ = .ok (returned, policy) ∧
            returned.map Prod.fst = rest.map Call.client ∧
              returned.map Prod.snd = Residues.window n (start + 1) rest.length := by
        cases rest with
        | nil => exact ⟨[], _, rfl, rfl, rfl⟩
        | cons next rest =>
            rw [List.length_cons] at hfit
            rw [Nat.mod_eq_of_lt (by omega)]
            exact ih hrest (by rw [List.length_cons]; omega)
      refine ⟨(call.client, start % n) :: returned, policy, ?_, ?_, ?_⟩
      · rw [serve, hselect, ok_bind]
        dsimp only
        rw [hserve]
        rfl
      · rw [List.map_cons, List.map_cons, hclients]
      · rw [List.map_cons, List.length_cons, Residues.window_succ, hindices]

/-- Every worker is returned as often as the others, but for one call, and once in every turn. -/
structure Fair (n : Nat) (indices : List Nat) : Prop where
  share : ∀ i < n, indices.count i = indices.length / n ∨
    indices.count i = (indices.length + n - 1) / n
  turn : ∀ k, k + n ≤ indices.length → ∀ i < n, ((indices.drop k).take n).count i = 1

theorem fair_window (n start m : Nat) : Fair n (Residues.window n start m) := by
  constructor
  · intro i hi
    rw [Residues.length_window]
    exact Residues.count_window_floor_or_ceil hi start m
  · intro k hk i hi
    rw [Residues.length_window] at hk
    rw [Residues.take_drop_window hk]
    exact Residues.count_window_turn hi (start + k)

/-- Any calls of any clients over `n` workers, in any order, are served fairly while the counter does
not wrap around. -/
theorem serve_fair {n start : Nat} (hn : 0 < n) {calls : List (Call Client)}
    (hworkers : ∀ call ∈ calls, call.workers.length = n) (hfit : start + calls.length ≤ 2 ^ 64) :
    ∃ returned policy, serve calls ⟨start⟩ = .ok (returned, policy) ∧
      returned.map Prod.fst = calls.map Call.client ∧ Fair n (returned.map Prod.snd) := by
  obtain ⟨returned, policy, hserve, hclients, hindices⟩ := serve_eq hn hworkers hfit
  refine ⟨returned, policy, hserve, hclients, ?_⟩
  rw [hindices]
  exact fair_window n start calls.length

/-- Two clients and two workers, up to the last value of the counter. -/
theorem serve_fair_two_clients :
    ∃ returned policy,
      serve [⟨"a", ["http://a:8000", "http://b:8000"], ⟨fun _ => 0, 0⟩⟩,
        ⟨"b", ["http://a:8000", "http://b:8000"], ⟨fun _ => 0, 0⟩⟩,
        ⟨"a", ["http://a:8000", "http://b:8000"], ⟨fun _ => 0, 0⟩⟩] ⟨2 ^ 64 - 3⟩ =
          .ok (returned, policy) ∧
        returned.map Prod.fst = ["a", "b", "a"] ∧ Fair 2 (returned.map Prod.snd) :=
  serve_fair Nat.two_pos (by simp) (by decide)

end RoundRobin

end TokenDog
