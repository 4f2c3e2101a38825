/-
# Plans without conditions below roots

Where no condition is selective enough to run below the root of a query, a plan computes what its
query means: a run binds the plan's root to the meaning if there is one, and fails if there is
none.
-/
import VectorQuery.Proofs.Lowering.Pushdown
import VectorQuery.Proofs.Meaning.Agreement

namespace VectorQuery

open Evaluation
open Lowering (selectivity)

theorem Plan.exists_root? {s : Snapshot} {config : EngineConfig} {q : Query} {limit : Option Nat}
    {plan : Plan} (h : Plan.ofQuery s config q limit = .ok plan) :
    ∃ root, plan.root? = some root := by
  obtain ⟨root, d, op, hlower, -⟩ := Plan.lower_of_ofQuery h
  exact ⟨root.var, Plan.root?_of_ofQuery h hlower⟩

namespace Engine

/-- A run binds the root of the plan to the entities that the query means. -/
theorem binds_root_iff_meaning (e : Engine) {s : Snapshot} (hs : s.Made)
    (hpushdown : ¬ 0 < e.config.compiler.pushdownSelectivity) {text : String} {q : Query}
    (hq : Query.parse text = .ok q) (hnamed : q.SearchesNamed) {limit time : Option Nat}
    (htime : time ≠ some 0) {plan : Plan} (hplan : Plan.ofQuery s e.config q limit = .ok plan) :
    ∃ root, plan.root? = some root ∧ ∀ set,
      (∃ x, (e.executor s).run plan time = .ok x ∧ x.bindings.value? root = some set) ↔
        ∃ types, q.meaning (e.executor s) e.config = .ok ⟨set, types⟩ := by
  have hunselective : ∀ c, ¬ selectivity s c < e.config.compiler.pushdownSelectivity :=
    fun c => Double.not_lt_of_not_pos (Lowering.not_selectivity_lt_zero hs c) hpushdown
  let S := Setting.unpushed (e.executor s) e.config _ hunselective
  have hprintable := printable_of_parse hq
  obtain ⟨root, hroot⟩ := Plan.exists_root? hplan
  -- what a run binds to the root is what the evaluation with a memory yields
  have hvalue : ∀ {x}, (e.executor s).run plan time = .ok x → ∃ a,
      q.meaning (e.executor s) e.config = .ok a ∧ x.bindings.value? root = some a.set := by
    intro x hrun
    obtain ⟨a, m, root', heval, hroot', hset, -⟩ := S.evaluates_of_run trivial hprintable hplan hrun
    cases hroot.symm.trans hroot'
    exact ⟨a, (Query.meaning_eq_ok_iff hprintable hnamed).2 ⟨m, heval⟩, hset⟩
  refine ⟨root, hroot, fun set => ⟨?_, ?_⟩⟩
  · rintro ⟨x, hrun, hset⟩
    obtain ⟨a, hmeaning, hset'⟩ := hvalue hrun
    cases hset.symm.trans hset'
    exact ⟨a.types, hmeaning⟩
  · rintro ⟨types, hmeaning⟩
    obtain ⟨m, heval⟩ := (Query.meaning_eq_ok_iff hprintable hnamed).1 hmeaning
    obtain ⟨plan', x, hplan', hrun⟩ := S.run_of_evaluates trivial hprintable heval htime
    cases hplan.symm.trans hplan'
    obtain ⟨a, hmeaning', hset⟩ := hvalue hrun
    cases hmeaning.symm.trans hmeaning'
    exact ⟨x, hrun, hset⟩

theorem binds_root_iff_meaning_shared :
    let e := (Engine.new (.empty {}) {}).withPushdown 0
    let text := "feature(\"cache\") AND (NOT effort < 5 OR feature(\"cache\"))"
    ∃ q plan root set, Query.parse text = .ok q ∧ q.SearchesNamed ∧
      Plan.ofQuery oneFeature e.config q none = .ok plan ∧ plan.notes.length = 1 ∧
      plan.root? = some root ∧
      (∃ types, q.meaning (e.executor oneFeature) e.config = .ok ⟨set, types⟩) ∧
      ∃ x, (e.executor oneFeature).run plan none = .ok x ∧ x.bindings.value? root = some set := by
  intro e text
  have hnotes : ((Query.parse text).toOption.bind fun q =>
      (Plan.ofQuery oneFeature e.config q none).toOption.map (·.notes.length)) = some 1 := by
    decide +kernel
  have hnamed : (Query.parse text).toOption.map (fun q => decide q.SearchesNamed) = some true := by
    decide +kernel
  have hmeaning : ((Query.parse text).toOption.bind fun q =>
      (q.meaning (e.executor oneFeature) e.config).toOption).isSome = true := by
    decide +kernel
  obtain ⟨q, hq, hplan⟩ := Option.bind_eq_some_iff.1 hnotes
  obtain ⟨plan, hplan, hlength⟩ := Option.map_eq_some_iff.1 hplan
  rw [hq] at hnamed hmeaning
  have hnamed : q.SearchesNamed := of_decide_eq_true (Option.some.inj hnamed)
  obtain ⟨⟨set, types⟩, hset⟩ := Option.isSome_iff_exists.1 hmeaning
  obtain ⟨root, hroot, hiff⟩ := binds_root_iff_meaning e made_oneFeature (by decide +kernel)
    (ok_of_toOption hq) hnamed (show (none : Option Nat) ≠ some 0 by decide) (ok_of_toOption hplan)
  have hmeaning := ok_of_toOption hset
  exact ⟨q, plan, root, set, ok_of_toOption hq, hnamed, ok_of_toOption hplan, hlength, hroot,
    ⟨types, hmeaning⟩, (hiff set).2 ⟨types, hmeaning⟩⟩

end Engine

end VectorQuery
