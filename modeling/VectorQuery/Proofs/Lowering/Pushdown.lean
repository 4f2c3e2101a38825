/-
# Conditions below the root of a query do not change its answer

Two engines that differ only in the bound for conditions below the root give the same answer where
both give one: either answer is that of an evaluation that leaves out the entities on the left of
arrows that nothing can be predicted from.  Where no condition is selective enough, arrows are
related in full, so an answer there has an answer under every bound.
-/
import VectorQuery.Proofs.Canonical.Parsed
import VectorQuery.Proofs.Lowering.Plans
import VectorQuery.Proofs.Number.Quotient
import VectorQuery.Proofs.Store.Snapshot

namespace VectorQuery

open Evaluation
open Lowering (selectivity)

namespace Setting

variable (x : Executor) (config : EngineConfig) (threshold : Double)

/-- Runs, compared with evaluations that leave out what makes arrows fail. -/
def lenient : Setting where
  x := x
  config := config
  threshold := threshold
  relate := x.relatingPredictable
  pushes _ := True
  fromRun := True
  toRun := False
  pushes_nil := trivial
  pushes_selective _ _ := trivial
  relate_of_run := by
    intro _ cs _ bindings minScore a b r hr
    rw [Meaning.filterAll_eq] at hr
    have hrelating : x.relating bindings minScore (a.set.retain (Meaning.accepts x cs)) b.set =
        .ok r.set := congrArg (Except.map StepResult.set) hr
    obtain ⟨set, hset, heq⟩ := Executor.relatingPredictable_of_relating _ hrelating
    refine ⟨set, hset, ?_⟩
    rw [heq, Meaning.filterAll_eq]
  run_of_relate := False.elim

/-- Evaluations, compared with runs. -/
def strict : Setting where
  x := x
  config := config
  threshold := threshold
  relate := x.relating
  pushes _ := True
  fromRun := False
  toRun := True
  pushes_nil := trivial
  pushes_selective _ _ := trivial
  relate_of_run := False.elim
  run_of_relate := by
    intro _ cs _ bindings minScore a b set hset
    rw [Meaning.filterAll_eq, Meaning.filterAll_eq]
    exact ok_of_map (Executor.relating_retain (Meaning.accepts x cs) hset)

/-- Runs without conditions below a root, compared with evaluations in both directions. -/
def unpushed (h : ∀ c, ¬ selectivity x.snapshot c < threshold) : Setting where
  x := x
  config := config
  threshold := threshold
  relate := x.relating
  pushes cs := cs = []
  fromRun := True
  toRun := True
  pushes_nil := rfl
  pushes_selective := by
    intro cs hcs
    cases cs with
    | nil => rfl
    | cons c cs => exact absurd (hcs c List.mem_cons_self) (h c)
  relate_of_run := by
    rintro _ _ rfl bindings minScore a b r hr
    exact ⟨r.set, congrArg (Except.map StepResult.set) hr, rfl⟩
  run_of_relate := by
    rintro _ _ rfl bindings minScore a b set hset
    exact ok_of_map hset

end Setting

/-! ## Selectivities -/

namespace Lowering

variable {s : Snapshot}

theorem not_clamp_lt_zero (x : Double) : ¬ Quantity.clamp 0 1 x < 0 := by
  unfold Quantity.clamp
  split
  · decide
  · rename_i h
    split
    · decide
    · exact h

theorem not_ofEqual_lt_zero {part : Double} (op : CompareOp) (h : ¬ part < 0)
    (hrest : ¬ (1 - part) < 0) : ¬ ofEqual op part < 0 := by
  have hhalf : ¬ (0.5 : Double) < 0 := by decide
  cases op with
  | eq => exact h
  | ne => exact hrest
  | lt => exact hhalf
  | le => exact hhalf
  | gt => exact hhalf
  | ge => exact hhalf

/-- No comparison selects less than nothing. -/
theorem not_selectivity_lt_zero (hs : s.Made) (c : Comparison Double) : ¬ selectivity s c < 0 := by
  unfold selectivity
  dsimp only
  split
  · decide
  · rename_i hsize
    have hpos : 0 < s.size := Nat.pos_of_ne_zero hsize
    split
    · exact not_ofEqual_lt_zero _ (Double.not_part_lt_zero _ _)
        (Double.not_rest_lt_zero hpos (hs.typeSize_le _))
    · exact not_ofEqual_lt_zero _ (Double.not_part_lt_zero 1 _) (Double.not_rest_lt_zero hpos hpos)
    · unfold Snapshot.selectivity?
      cases s.fields.get? c.field with
      | none =>
          change ¬ (0 : Double) < 0
          decide
      | some stats =>
          change ¬ stats.selectivity c.op c.value s.size < 0
          unfold FieldStats.selectivity
          split
          · decide
          · exact not_clamp_lt_zero _

end Lowering

namespace Engine

/-- The engine with another bound for conditions that run below the root of a query. -/
def withPushdown (e : Engine) (threshold : Double) : Engine :=
  { e with config := e.config.withPushdown threshold }

variable {e : Engine} {s : Snapshot} {text : String} {options : QueryOptions}

theorem plan_of_run {r : Plan × Execution} (h : e.run s text options = .ok r) :
    ∃ q, Query.parse text = .ok q ∧ Plan.ofQuery s e.config q options.limit = .ok r.1 ∧
      (e.executor s).run r.1 options.timeout = .ok r.2 := by
  obtain ⟨q, hq, h⟩ := ok_of_bind h
  obtain ⟨p, hp, h⟩ := ok_of_bind h
  obtain ⟨x, hx, h⟩ := ok_of_bind h
  cases h
  exact ⟨q, ok_of_mapError hq, ok_of_mapError hp, ok_of_mapError hx⟩

theorem run_of_plan {q : Query} {p : Plan} {x : Execution} (hq : Query.parse text = .ok q)
    (hp : Plan.ofQuery s e.config q options.limit = .ok p)
    (hx : (e.executor s).run p options.timeout = .ok x) : e.run s text options = .ok (p, x) := by
  unfold run parse plan
  rw [hq]
  change (Except.mapError QueryError.plan (Plan.ofQuery s e.config q options.limit) >>= _) = _
  rw [hp]
  change (Except.mapError QueryError.ofInterruption _ >>= _) = _
  rw [hx]
  rfl

/-- Conditions below the root of a query do not change what a run collects, and whatever runs without
them runs with them. -/
theorem run_withPushdown (hs : s.Made) (text : String) (options : QueryOptions) (t₁ t₂ : Double) :
    (∀ r₁ r₂, (e.withPushdown t₁).run s text options = .ok r₁ →
      (e.withPushdown t₂).run s text options = .ok r₂ → r₁.2.result = r₂.2.result) ∧
    ∀ r₁, (e.withPushdown 0).run s text options = .ok r₁ →
      ∃ r₂, (e.withPushdown t₂).run s text options = .ok r₂ := by
  constructor
  · intro r₁ r₂ h₁ h₂
    obtain ⟨q, hq, hplan₁, hrun₁⟩ := plan_of_run h₁
    obtain ⟨q', hq', hplan₂, hrun₂⟩ := plan_of_run h₂
    obtain rfl : q = q' := Except.ok.inj (hq.symm.trans hq')
    have hprintable := printable_of_parse hq
    obtain ⟨a₁, m₁, _, heval₁, -, -, hresult₁⟩ :=
      (Setting.lenient (e.executor s) e.config t₁).evaluates_of_run trivial hprintable hplan₁ hrun₁
    obtain ⟨a₂, m₂, _, heval₂, -, -, hresult₂⟩ :=
      (Setting.lenient (e.executor s) e.config t₂).evaluates_of_run trivial hprintable hplan₂ hrun₂
    -- both are the value of one evaluation
    obtain ⟨rfl, -⟩ := Prod.mk.inj (Except.ok.inj (heval₁.symm.trans heval₂))
    exact hresult₁.trans hresult₂.symm
  · intro r₁ h₁
    obtain ⟨q, hq, hplan₁, hrun₁⟩ := plan_of_run h₁
    have hprintable := printable_of_parse hq
    obtain ⟨a, m, _, heval, -⟩ :=
      (Setting.unpushed (e.executor s) e.config 0
        (Lowering.not_selectivity_lt_zero hs)).evaluates_of_run trivial hprintable hplan₁ hrun₁
    obtain ⟨plan, x, hplan, hrun⟩ :=
      (Setting.strict (e.executor s) e.config t₂).run_of_evaluates trivial hprintable heval
        (Executor.ne_zero_of_run hrun₁)
    exact ⟨_, run_of_plan hq hplan hrun⟩

/-- A snapshot of one feature. -/
def oneFeature : Snapshot :=
  (Snapshot.build [⟨"feature", "cache", "", [1], [], OrderedMap.empty.insert "effort" (.number 4)⟩]
    [] {} 1 ⟨0, 0⟩).toOption.getD .empty

theorem made_oneFeature : oneFeature.Made := Snapshot.made_getD ..

theorem run_withPushdown_search :
    let e := Engine.new (.empty {}) {}
    let text := "similar_to(feature(\"cache\")) AND effort < 5"
    oneFeature.Made ∧ ∃ r₁ r₂, (e.withPushdown 0).run oneFeature text {} = .ok r₁ ∧
      (e.withPushdown 2).run oneFeature text {} = .ok r₂ ∧ r₁.1.operations.length = 4 ∧
      r₂.1.operations.length = 5 ∧ r₁.2.result = r₂.2.result := by
  intro e text
  have hlength₁ : ((e.withPushdown 0).run oneFeature text {}).toOption.map
      (·.1.operations.length) = some 4 := by decide +kernel
  have hlength₂ : ((e.withPushdown 2).run oneFeature text {}).toOption.map
      (·.1.operations.length) = some 5 := by decide +kernel
  obtain ⟨hsame, hruns⟩ := run_withPushdown (e := e) made_oneFeature text {} 0 2
  cases hrun₁ : (e.withPushdown 0).run oneFeature text {} with
  | error cause =>
      rw [hrun₁] at hlength₁
      cases hlength₁
  | ok r₁ =>
      obtain ⟨r₂, hrun₂⟩ := hruns r₁ hrun₁
      rw [hrun₁] at hlength₁
      rw [hrun₂] at hlength₂
      exact ⟨made_oneFeature, r₁, r₂, rfl, hrun₂, Option.some.inj hlength₁, Option.some.inj hlength₂,
        hsame r₁ r₂ hrun₁ hrun₂⟩

example : (oneFeature.ordinals []).isEmpty = false := by
  decide +kernel

end Engine

end VectorQuery
