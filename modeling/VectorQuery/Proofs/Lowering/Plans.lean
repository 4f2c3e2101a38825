/-
# What plans compute

A plan collects what its query was lowered to.  If running it is compared with an evaluation, then
a run that succeeds gives the entities of the evaluation (`Setting.evaluates_of_run`), and an
evaluation that succeeds has a plan that runs (`Setting.run_of_evaluates`).
-/
import VectorQuery.Proofs.Lowering.Queries

namespace VectorQuery

open Evaluation
open Lowering (Extending)

/-- The entities of a set that a plan with a limit collects. -/
def collected (limit : Option Nat) (set : ScoredSet Single) : ScoredSet Single :=
  match limit with
  | some k => set.top k
  | none => set

/-- The operation that collects a fragment after `n` operations. -/
def Lowering.collecting (n : Nat) (limit : Option Nat) (root : Fragment) : Operation :=
  let rows := match limit with
    | some k => Quantity.lesser root.rows (Double.ofNat k)
    | none => root.rows
  emitted n (.collect limit) [root.var] (Quantity.greater root.rows 1) rows .none

namespace Plan

variable {s : Snapshot} {config : EngineConfig} {q : Query} {limit : Option Nat} {plan : Plan}

/-- A plan is what its query is lowered to, and one more operation. -/
theorem ofQuery_eq {root : Fragment} {d : Draft}
    (h : Lowering.lower s config [] q Lowering.start = .ok (root, d)) (limit : Option Nat) :
    ofQuery s config q limit = .ok
      { query := q.canonical
        operations := d.operations ++ [Lowering.collecting d.operations.length limit root]
        result := .numbered (d.operations.length + 1), shape := shapeOf q, notes := d.notes
        types := root.types.names } := by
  have hrun : (Lowering.lower s config [] q).run Lowering.start = .ok (root, d) := h
  unfold ofQuery
  simp only [StateT.run_bind, hrun]
  rfl

theorem lower_of_ofQuery (h : ofQuery s config q limit = .ok plan) :
    ∃ root d op, Lowering.lower s config [] q Lowering.start = .ok (root, d) ∧
      plan.operations = d.operations ++ [op] ∧ op.action = .collect limit ∧
      op.inputs = [root.var] ∧ op.output = plan.result ∧
      op.output = .numbered (d.operations.length + 1) := by
  obtain ⟨_, hsteps, -⟩ := ok_of_bind h
  obtain ⟨root, d, hlower, -⟩ := run_of_bind hsteps
  rw [ofQuery_eq hlower] at h
  cases h
  exact ⟨root, d, _, hlower, rfl, rfl, rfl, rfl, rfl⟩

theorem numbered_lower {root : Fragment} {d : Draft}
    (h : Lowering.lower s config [] q Lowering.start = .ok (root, d)) : Numbered d.trail :=
  (Extending.extends_run _ root d h).2 fun _ _ hop => nomatch hop

theorem numbered_of_ofQuery (h : ofQuery s config q limit = .ok plan) :
    Numbered plan.operations := by
  obtain ⟨root, d, op, hlower, hops, -, -, -, hout⟩ := lower_of_ofQuery h
  rw [hops]
  exact numbered_unmarked.1 (Lowering.numbered_add (numbered_lower hlower) hout)

/-- The plan's root is the variable of the fragment that its query is lowered to. -/
theorem root?_of_ofQuery (h : ofQuery s config q limit = .ok plan) {root : Fragment} {d : Draft}
    (hroot : Lowering.lower s config [] q Lowering.start = .ok (root, d)) :
    plan.root? = some root.var := by
  have hnumbered := numbered_of_ofQuery h
  rw [ofQuery_eq hroot] at h
  cases h
  have hlast := operation?_of_mem hnumbered (List.mem_append_right _ (List.mem_singleton_self _))
  unfold root?
  exact congrArg (· >>= fun op => op.inputs.head?) hlast

end Plan

/-- A draft without operations and a memory without meanings. -/
theorem Setting.agrees_start (S : Setting) (b : Bindings) : S.Agrees b Lowering.start .start where
  numbered := by
    intro i op hop
    cases hop
  sound := Memory.sound_start
  seen := rfl
  shared := nofun
  known := nofun

namespace Setting

variable {S : Setting} {q : Query} {limit time : Option Nat} {plan : Plan}

/-- A plan that has run was lowered in accord with the evaluation. -/
theorem knows_of_run (hfrom : S.fromRun) (hq : q.Printable)
    (hplan : Plan.ofQuery S.x.snapshot S.lowered q limit = .ok plan) {e : Execution}
    (hrun : S.x.run plan time = .ok e) :
    ∃ root d a m, Lowering.lower S.x.snapshot S.lowered [] q Lowering.start = .ok (root, d) ∧
      S.x.Solves e.bindings d.trail ∧
        evaluateShared S.x S.config S.relate q .start = .ok (a, m) ∧
          S.Knows e.bindings root a := by
  obtain ⟨root, d, op, hlower, hops, -⟩ := Plan.lower_of_ofQuery hplan
  obtain ⟨hsolves, -⟩ := Executor.solves_of_run (Plan.numbered_of_ofQuery hplan).nodup hrun
  rw [hops] at hsolves
  have hdraft : S.x.Solves e.bindings d.trail :=
    Executor.solves_unmarked.2 (hsolves.of_isPrefix (List.prefix_append _ _))
  obtain ⟨a, m, heval, -, hknows⟩ := ((simulates hq).plain e.bindings).forward hfrom e.bindings
    (.refl _) _ _ root d (S.agrees_start _) hlower hdraft
  exact ⟨root, d, a, m, hlower, hdraft, heval, hknows⟩

/-- A run computes what the evaluation computes. -/
theorem evaluates_of_run (hfrom : S.fromRun) (hq : q.Printable)
    (hplan : Plan.ofQuery S.x.snapshot S.lowered q limit = .ok plan) {e : Execution}
    (hrun : S.x.run plan time = .ok e) :
    ∃ a m root, evaluateShared S.x S.config S.relate q .start = .ok (a, m) ∧
      plan.root? = some root ∧ e.bindings.value? root = some a.set ∧
        e.result = collected limit a.set := by
  obtain ⟨root, d, a, m, hlower, -, heval, hknows⟩ := knows_of_run hfrom hq hplan hrun
  obtain ⟨hsolves, hvalue⟩ := Executor.solves_of_run (Plan.numbered_of_ofQuery hplan).nodup hrun
  refine ⟨a, m, root.var, heval, Plan.root?_of_ofQuery hplan hlower, hknows.value, ?_⟩
  rw [Plan.ofQuery_eq hlower] at hplan
  cases hplan
  obtain ⟨r, hstep, hout⟩ := hsolves _ (List.mem_append_right _ (List.mem_singleton_self _))
  have hset : e.result = r.set := Option.some.inj (hvalue.symm.trans hout)
  rw [hset]
  unfold Executor.step at hstep
  dsimp only [Lowering.collecting, Lowering.emitted] at hstep
  rw [Executor.input_eq (n := 0) rfl hknows.value] at hstep
  cases hstep
  rfl

/-- What can be evaluated has a plan that runs. -/
theorem run_of_evaluates (hto : S.toRun) (hq : q.Printable) {a : Meaning} {m : Memory}
    (heval : evaluateShared S.x S.config S.relate q .start = .ok (a, m)) (htime : time ≠ some 0) :
    ∃ plan e, Plan.ofQuery S.x.snapshot S.lowered q limit = .ok plan ∧
      S.x.run plan time = .ok e := by
  obtain ⟨root, d, b, hlower, hperform, -, -, hknows⟩ := ((simulates hq).plain []).backward hto []
    (.refl _) _ _ a m rfl (S.agrees_start _) heval
  obtain ⟨plan, hplan⟩ : ∃ plan, Plan.ofQuery S.x.snapshot S.lowered q limit = .ok plan :=
    ⟨_, Plan.ofQuery_eq hlower limit⟩
  obtain ⟨root', d', op, hlower', hops, haction, hinputs, hresult, -⟩ :=
    Plan.lower_of_ofQuery hplan
  rw [hlower] at hlower'
  cases hlower'
  have hstep : S.x.step b.value? op = .ok (.ofSet (collected limit a.set)) := by
    unfold Executor.step
    rw [haction]
    dsimp only
    rw [Executor.input_eq (n := 0) (by rw [hinputs]; rfl) hknows.value]
    rfl
  have hperform' : S.x.perform [] plan.operations = .ok (b.bind op.output (collected limit a.set)) := by
    rw [hops]
    refine Executor.perform_concat ?_ hstep
    rwa [← Executor.perform_unmarked]
  obtain ⟨e, he⟩ := Executor.run_of_perform (Plan.numbered_of_ofQuery hplan).nodup hperform' htime
    ⟨op, by rw [hops]; simp, hresult⟩
  exact ⟨plan, e, hplan, he⟩

end Setting

end VectorQuery
