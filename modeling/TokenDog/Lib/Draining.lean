import TokenDog.Lib.Interleaved
import Mathlib.Data.Set.Finite.Basic
import Mathlib.Logic.Hydra

/-!
# Running to the end

An interleaving that starts no new runs comes to an end: every step of a live run leaves less of its
program, so that only finitely many are taken, in any order, with any replies and whatever the shared
state does by itself meanwhile. If every operation does something and whatever is deferred can run, no
live run waits for another one.
-/

namespace Programs

variable {I : Interface} {σ ι α : Type}

/-- What is left of a program after one step of it. -/
inductive Program.Follows : Program I α → Program I α → Prop
  | perform (op : I.Op) (next : I.Result op → Program I α) (result : I.Result op) :
      Follows (next result) (.perform op next)
  | await (call : I.Call) (next : I.Reply call → Program I α) (reply : I.Reply call) :
      Follows (next reply) (.await call next)
  | defer (op : I.Op) (next : Program I α) : Follows next (.defer op next)

theorem Program.wellFounded_follows : WellFounded (Follows : Program I α → Program I α → Prop) := by
  refine ⟨fun program => ?_⟩
  induction program with
  | ret value => exact ⟨_, nofun⟩
  | panic => exact ⟨_, nofun⟩
  | perform op next ih =>
      refine ⟨_, fun _ h => ?_⟩
      cases h
      exact ih _
  | await call next ih =>
      refine ⟨_, fun _ h => ?_⟩
      cases h
      exact ih _
  | defer op next ih =>
      refine ⟨_, fun _ h => ?_⟩
      cases h
      exact ih

/-- A step of the given live run: an operation, a reply of any kind, a deferral or its end. -/
inductive Advances (machine : Machine I σ) :
    Live I ι α → System I σ ι α → System I σ ι α → Prop where
  | perform {s : System I σ ι α} {rest : Multiset (Live I ι α)} {request : ι} {op : I.Op}
      {next : I.Result op → Program I α} {trace : Trace I} {deferred : List I.Op}
      {result : I.Result op} {shared : σ}
      (hlive : s.live = ⟨request, .perform op next, trace, deferred⟩ ::ₘ rest)
      (hexec : machine.exec op s.shared result shared) :
      Advances machine ⟨request, .perform op next, trace, deferred⟩ s
        { s with
          shared
          live := ⟨request, next result, .ran op result :: trace, deferred⟩ ::ₘ rest }
  | reply {s : System I σ ι α} {rest : Multiset (Live I ι α)} {request : ι} {call : I.Call}
      {next : I.Reply call → Program I α} {trace : Trace I} {deferred : List I.Op}
      (hlive : s.live = ⟨request, .await call next, trace, deferred⟩ ::ₘ rest)
      (reply : I.Reply call) :
      Advances machine ⟨request, .await call next, trace, deferred⟩ s
        { s with live := ⟨request, next reply, .replied call reply :: trace, deferred⟩ ::ₘ rest }
  | defer {s : System I σ ι α} {rest : Multiset (Live I ι α)} {request : ι} {op : I.Op}
      {next : Program I α} {trace : Trace I} {deferred : List I.Op}
      (hlive : s.live = ⟨request, .defer op next, trace, deferred⟩ ::ₘ rest) :
      Advances machine ⟨request, .defer op next, trace, deferred⟩ s
        { s with live := ⟨request, next, trace, op :: deferred⟩ ::ₘ rest }
  | stop {s : System I σ ι α} {rest : Multiset (Live I ι α)} {run : Live I ι α} {events : Trace I}
      {outcome : Option α} {shared : σ} (hlive : s.live = run ::ₘ rest)
      (hexits : Exits machine s.shared run.program events outcome)
      (hunwinds : Unwinds machine run.deferred s.shared shared) :
      Advances machine run s
        { shared
          live := rest
          ended := ⟨run.request, events ++ run.trace, run.deferred, outcome⟩ ::ₘ s.ended }

/-- Any step but the start of a new run. -/
inductive Continues (machine : Machine I σ) : System I σ ι α → System I σ ι α → Prop where
  | advances {s t : System I σ ι α} {run : Live I ι α} (h : Advances machine run s t) :
      Continues machine s t
  | moves {s : System I σ ι α} {shared : σ} (hmoves : machine.moves s.shared shared) :
      Continues machine s { s with shared }

variable {machine : Machine I σ} {body : ι → Program I α} {s t : System I σ ι α}

theorem Advances.step {run : Live I ι α} (h : Advances machine run s t) :
    Step machine body s t := by
  cases h with
  | perform hlive hexec => exact .perform hlive hexec
  | reply hlive => exact .reply hlive _
  | defer hlive => exact .defer hlive
  | stop hlive hexits hunwinds => exact .stop hlive hexits hunwinds

theorem Continues.step (h : Continues machine s t) : Step machine body s t := by
  cases h with
  | advances h => exact h.step
  | moves hmoves => exact .moves hmoves

/-- No request is added and none is forgotten. -/
theorem Continues.requests_eq (h : Continues machine s t) :
    t.histories.map Prod.fst = s.histories.map Prod.fst := by
  cases h with
  | moves hmoves => rfl
  | advances h =>
      cases h with
      | stop hlive hexits hunwinds => simp [System.histories, hlive]
      | perform hlive hexec => simp [System.histories, hlive]
      | reply hlive => simp [System.histories, hlive]
      | defer hlive => simp [System.histories, hlive]

theorem Continues.requests_eq_of_run (h : Relation.ReflTransGen (Continues machine) s t) :
    t.histories.map Prod.fst = s.histories.map Prod.fst := by
  induction h with
  | refl => rfl
  | tail _ hlast ih => exact hlast.requests_eq.trans ih

/-- What is left of all live runs. -/
def System.programs (s : System I σ ι α) : Multiset (Program I α) := s.live.map Live.program

theorem Advances.cutExpand {run : Live I ι α} (h : Advances machine run s t) :
    Relation.CutExpand Program.Follows t.programs s.programs := by
  have hnext : ∀ {program next : Program I α} (rest : Multiset (Program I α)),
      Program.Follows next program →
        Relation.CutExpand Program.Follows (next ::ₘ rest) (program ::ₘ rest) := by
    intro program next rest hfollows
    rw [← Multiset.singleton_add, ← Multiset.singleton_add]
    exact Relation.cutExpand_single_add hfollows rest
  cases h with
  | perform hlive hexec =>
      rw [System.programs, System.programs, hlive, Multiset.map_cons, Multiset.map_cons]
      exact hnext _ (.perform _ _ _)
  | reply hlive reply =>
      rw [System.programs, System.programs, hlive, Multiset.map_cons, Multiset.map_cons]
      exact hnext _ (.await _ _ _)
  | defer hlive =>
      rw [System.programs, System.programs, hlive, Multiset.map_cons, Multiset.map_cons]
      exact hnext _ (.defer _ _)
  | @stop _ rest _ _ _ _ hlive hexits hunwinds =>
      have hremoved : Relation.CutExpand Program.Follows (0 + rest.map Live.program)
          ({run.program} + rest.map Live.program) :=
        (Relation.cutExpand_add_right _).mpr Relation.cutExpand_zero
      rw [zero_add, Multiset.singleton_add] at hremoved
      rw [System.programs, System.programs, hlive, Multiset.map_cons]
      exact hremoved

theorem programs_eq_of_not_advances (h : Continues machine s t)
    (hnone : ¬∃ run, Advances machine run s t) : t.programs = s.programs := by
  cases h with
  | advances h => exact (hnone ⟨_, h⟩).elim
  | moves hmoves => rfl

/-- Only finitely many steps of a run without new requests are steps of its live runs. -/
theorem Continues.finite_advances {f : ℕ → System I σ ι α}
    (hf : ∀ n, Continues machine (f n) (f (n + 1))) :
    {n | ∃ run, Advances machine run (f n) (f (n + 1))}.Finite := by
  classical
  generalize hprograms : (f 0).programs = programs
  induction programs using (WellFounded.cutExpand Program.wellFounded_follows).induction
    generalizing f with
  | _ programs ih =>
      by_cases hsome : ∃ n, ∃ run, Advances machine run (f n) (f (n + 1))
      · -- up to the first step of a live run nothing of the programs is lost
        have hkept : ∀ n ≤ Nat.find hsome, (f n).programs = programs := by
          intro n hn
          induction n with
          | zero => exact hprograms
          | succ n ihn =>
              rw [programs_eq_of_not_advances (hf n) (Nat.find_min hsome (by omega))]
              exact ihn (by omega)
        obtain ⟨run, hadvances⟩ := Nat.find_spec hsome
        have hless := hadvances.cutExpand
        rw [hkept _ le_rfl] at hless
        have hlater := ih _ hless (fun n => hf (Nat.find hsome + 1 + n)) rfl
        refine (hlater.image (Nat.find hsome + 1 + ·)).union (Set.finite_singleton (Nat.find hsome))
          |>.subset fun n hn => ?_
        rcases Nat.lt_trichotomy n (Nat.find hsome) with hlt | heq | hgt
        · exact absurd hn (Nat.find_min hsome hlt)
        · exact Or.inr heq
        · obtain ⟨k, rfl⟩ := Nat.exists_eq_add_of_le (show Nat.find hsome + 1 ≤ n by omega)
          exact Or.inl ⟨k, hn, rfl⟩
      · exact Set.finite_empty.subset fun n hn => (hsome ⟨n, hn⟩).elim

section Progress

variable {shared : σ}
  (hop : ∀ op s, (∃ result t, machine.exec op s result t) ∨ machine.panics op s)
  (hunwind : ∀ s : System I σ ι α, Runs.Reachable (· = .start shared) (Step machine body) s →
    ∀ run ∈ s.live, ∀ events outcome, Exits machine s.shared run.program events outcome →
      ∃ t, Unwinds machine run.deferred s.shared t)

include hop hunwind

/-- Every live run can take a step, and one that waits can take it with any reply. -/
theorem exists_advances (hs : Runs.Reachable (· = .start shared) (Step machine body) s)
    {run : Live I ι α} (hrun : run ∈ s.live) :
    (∃ t, Advances machine run s t) ∧ ∀ call next, run.program = .await call next → ∀ reply,
      ∃ t, Advances machine run s t ∧
        ⟨run.request, next reply, .replied call reply :: run.trace, run.deferred⟩ ∈ t.live := by
  obtain ⟨rest, hlive⟩ := Multiset.exists_cons_of_mem hrun
  have hstop : ∀ {events : Trace I} {outcome : Option α},
      Exits machine s.shared run.program events outcome → ∃ t, Advances machine run s t := by
    intro events outcome hexits
    obtain ⟨t, hunwinds⟩ := hunwind s hs run hrun _ _ hexits
    exact ⟨_, .stop hlive hexits hunwinds⟩
  obtain ⟨request, program, trace, deferred⟩ := run
  refine ⟨?_, ?_⟩
  · cases program with
    | ret value => exact hstop (.ret value)
    | panic => exact hstop .panic
    | perform op next =>
        rcases hop op s.shared with ⟨result, t, hexec⟩ | hpanics
        · exact ⟨_, .perform hlive hexec⟩
        · exact hstop (.perform hpanics)
    | await call next => exact hstop (.drop call next)
    | defer op next => exact ⟨_, .defer hlive⟩
  · rintro call next rfl reply
    exact ⟨_, .reply hlive reply, Multiset.mem_cons_self _ _⟩

end Progress

end Programs
