/-
# Analyses and conditions below the root

Conditions below the root of a query do not change its answer, but an analysis looks at the root of
the plan to tell what is missing.  If the only operand next to conditions is an arrow, then the root
relates its sides when all conditions run below it, and is a filter otherwise.  So two engines that
differ in the bound for such conditions agree on every figure but the number of gaps, and on
everything else if the bounds make the same of the root (`Engine.analyze_withPushdown`).  If not,
one looks for what is unserved and the other for what is unmatched (`Engine.analyze_servedJobs`).
-/
import VectorQuery.Proofs.Execution.Limit
import VectorQuery.Proofs.Execution.Safety
import VectorQuery.Proofs.Lowering.Pushdown
import VectorQuery.Proofs.Lowering.Roots

namespace VectorQuery

open Evaluation

/-! ## What is missing -/

namespace Analysis

variable {s : Snapshot} {config : ExecutorConfig} {p p' : Plan} {x x' : Execution}
  {op : Operation}

theorem input_eq {n : Nat} {set : ScoredSet Single}
    (h : Executor.input x.bindings.value? op n = .ok set) : input x op n = .ok set := by
  obtain ⟨v, hv, hset⟩ := Executor.value?_of_input h
  have hbind : (op.inputs[n]? >>= x.bindings.value?) = some set := by
    rw [hv]
    exact hset
  unfold input
  rw [hbind]

theorem missing_of_unrelating (hop : p.root? >>= p.operation? = some op)
    (hno : op.action.relates = false) (found : ScoredSet Single) :
    missing s p x found = .ok (unmatched s p.types found) := by
  unfold missing
  rw [hop]
  dsimp only
  split
  · rename_i haction
    rw [haction] at hno
    cases hno
  · rfl

theorem missing_of_relating (hop : p.root? >>= p.operation? = some op)
    {bindings : List RelationBinding} {minScore : Single}
    (haction : op.action = .relate bindings minScore)
    {left right : ScoredSet Single} (hl : Executor.input x.bindings.value? op 0 = .ok left)
    (hr : Executor.input x.bindings.value? op 1 = .ok right) (found : ScoredSet Single) :
    missing s p x found = (RelationScores.compute s bindings left right).map fun scores =>
      unserved s minScore scores right := by
  unfold missing
  rw [hop]
  dsimp only
  rw [haction]
  dsimp only
  rw [input_eq hl, input_eq hr]
  change (RelationScores.compute s bindings left right >>= fun scores =>
    Except.ok (unserved s minScore scores right)) = _
  cases RelationScores.compute s bindings left right <;> rfl

theorem kind_of_mem_unserved {minScore : Single} {scores : RelationScores}
    {right : ScoredSet Single} {m : Missing} (h : m ∈ unserved s minScore scores right) : m.kind = "unserved" := by
  obtain ⟨o, -, h⟩ := List.mem_filterMap.1 h
  dsimp only at h
  split at h
  · obtain ⟨e, -, rfl⟩ := Option.map_eq_some_iff.1 h
    rfl
  · cases h

theorem kind_of_mem_unmatched {types : List String} {found : ScoredSet Single} {m : Missing}
    (h : m ∈ unmatched s types found) : m.kind = "unmatched" := by
  obtain ⟨o, -, h⟩ := List.mem_filterMap.1 h
  obtain ⟨e, -, rfl⟩ := Option.map_eq_some_iff.1 h
  rfl

/-! ## What is reported -/

theorem exists_metrics_eq (scores : List Single) (total : Nat) :
    ∃ m : OrderedMap String Double, ∀ gaps,
      metrics scores total gaps = m.insert "gap_count" (Double.ofNat gaps) :=
  ⟨_, fun _ => rfl⟩

theorem get?_metrics {name : String} (hname : name ≠ "gap_count") (scores : List Single)
    (total gaps gaps' : Nat) :
    (metrics scores total gaps).get? name = (metrics scores total gaps').get? name := by
  obtain ⟨m, hm⟩ := exists_metrics_eq scores total
  have hne : ¬ compare name "gap_count" = .eq := fun h => hname (Std.LawfulEqOrd.eq_of_compare h)
  rw [hm, hm, OrderedMap.get?_insert, OrderedMap.get?_insert, if_neg hne, if_neg hne]

/-- Both plans are of one query, and both executions found the same entities. -/
structure Alike (p p' : Plan) (x x' : Execution) : Prop where
  query : p'.query = p.query
  types : p'.types = p.types
  limit : shownLimit p' = shownLimit p
  found : (p'.root? >>= x'.bindings.value?).getD x'.result =
    (p.root? >>= x.bindings.value?).getD x.result

variable {r r' : AnalysisReport}

theorem Alike.metrics_eq (h : Alike p p' x x') (hr : run s config p x = .ok r)
    (hr' : run s config p' x' = .ok r') {name : String} (hname : name ≠ "gap_count") :
    r'.metrics.get? name = r.metrics.get? name := by
  obtain ⟨ms, -, hr⟩ := ok_of_bind hr
  obtain ⟨ms', -, hr'⟩ := ok_of_bind hr'
  cases hr
  cases hr'
  dsimp only
  rw [h.found, h.types]
  exact get?_metrics hname ..

theorem Alike.report_eq (h : Alike p p' x x') (hr : run s config p x = .ok r)
    (hr' : run s config p' x' = .ok r')
    (hmissing : ∀ found, missing s p' x' found = missing s p x found) :
    r' = { r with trace := r'.trace } := by
  unfold run at hr hr'
  dsimp only at hr hr'
  rw [h.found, h.types, h.query, h.limit, hmissing] at hr'
  obtain ⟨ms, hms, hr⟩ := ok_of_bind hr
  rw [hms] at hr'
  cases hr
  cases hr'
  rfl

theorem kind_of_run {kind : String} (hr : run s config p x = .ok r)
    (h : ∀ found ms, missing s p x found = .ok ms → ∀ m ∈ ms, m.kind = kind) :
    ∀ g ∈ r.gaps, g.kind = kind := by
  obtain ⟨ms, hms, hr⟩ := ok_of_bind hr
  cases hr
  intro g hg
  obtain ⟨m, hm, rfl⟩ := List.mem_map.1 (mem_of_atMost hg)
  exact h _ ms hms m (List.mem_mergeSort.1 hm)

theorem shownLimit_of_ofQuery {e : EngineConfig} {q : Query} {limit : Option Nat}
    (h : Plan.ofQuery s e q limit = .ok p) : shownLimit p = limit := by
  have hnumbered := Plan.numbered_of_ofQuery h
  obtain ⟨root, d, op, -, hops, haction, -, hresult, -⟩ := Plan.lower_of_ofQuery h
  have hop : op ∈ p.operations := by
    rw [hops]
    exact List.mem_append_right _ (List.mem_singleton_self op)
  have hlast := Plan.operation?_of_mem hnumbered hop
  unfold shownLimit
  rw [← hresult, hlast]
  dsimp only
  rw [haction]

end Analysis

/-! ## What a plan's root tells an analysis -/

/-- What does not match is missing if the plan relates nothing at its root. -/
theorem Plan.missing_of_unrelating {s : Snapshot} {config : EngineConfig} {q : Query}
    {limit : Option Nat} {p : Plan} (hq : q.Printable) (hplan : ofQuery s config q limit = .ok p)
    (hno : q.relatesAtRoot s config.compiler.pushdownSelectivity = false) (e : Execution)
    (found : ScoredSet Single) :
    Analysis.missing s p e found = .ok (Analysis.unmatched s p.types found) := by
  obtain ⟨root, d, -, hlower, -⟩ := lower_of_ofQuery hplan
  obtain ⟨op, hop, hout, haction⟩ := Query.unrelating_root hq hno hlower
  obtain ⟨o, ho, rfl⟩ := operation?_root hplan hlower hop hout
  exact Analysis.missing_of_unrelating ho haction found

namespace Setting

variable {S : Setting} {q : Query} {limit time : Option Nat} {p : Plan} {e : Execution}

/-- What is found is the value of the evaluation. -/
theorem found_of_run (hfrom : S.fromRun) (hq : q.Printable)
    (hplan : Plan.ofQuery S.x.snapshot S.lowered q limit = .ok p) (hrun : S.x.run p time = .ok e) :
    ∃ a m, evaluateShared S.x S.config S.relate q .start = .ok (a, m) ∧ p.query = q.canonical ∧
      p.types = a.types.names ∧ (p.root? >>= e.bindings.value?) = some a.set := by
  obtain ⟨root, d, a, m, hlower, -, heval, hknows⟩ := knows_of_run hfrom hq hplan hrun
  have hroot := Plan.root?_of_ofQuery hplan hlower
  rw [Plan.ofQuery_eq hlower] at hplan
  cases hplan
  refine ⟨a, m, heval, rfl, congrArg TypeSet.names hknows.types, ?_⟩
  rw [hroot]
  exact hknows.value

/-- The root of the plan relates the sides of the arrow, if all conditions on it run below it. -/
theorem root_of_relating (hfrom : S.fromRun) (hq : q.Printable)
    (hplan : Plan.ofQuery S.x.snapshot S.lowered q limit = .ok p) (hrun : S.x.run p time = .ok e)
    (hyes : q.relatesAtRoot S.x.snapshot S.threshold = true) :
    ∃ a sides m op, q.arrow? = some a ∧ a.sides S.x S.config S.relate .start = .ok (sides, m) ∧
      p.root? >>= p.operation? = some op ∧
      op.action = .relate sides.bindings S.config.executor.relationMinScore ∧
      Executor.input e.bindings.value? op 0 = .ok sides.left ∧
      Executor.input e.bindings.value? op 1 = .ok sides.right := by
  obtain ⟨root, d, -, -, hlower, hsolves, -⟩ := knows_of_run hfrom hq hplan hrun
  unfold Query.relatesAtRoot at hyes
  split at hyes
  · rename_i a ha
    have hall : ∀ c ∈ a.conditions,
        Lowering.selectivity S.x.snapshot c < S.lowered.compiler.pushdownSelectivity :=
      fun c hc => of_decide_eq_true (List.all_eq_true.1 hyes c hc)
    obtain ⟨hl, hr⟩ := Query.printable_of_arrow? hq ha
    obtain ⟨d₀, d₁, hsame, harrow, htrail⟩ := Query.run_arrow_root hq ha hall hlower
    rw [htrail] at hsolves
    obtain ⟨sides, m, hsides, op, hop, hout, haction, hleft, hright⟩ :=
      relates_of_arrow hfrom (simulates hl) (simulates hr)
        ((S.agrees_start e.bindings).of_same hsame.trail hsame.seen hsame.shared) harrow hsolves
    rw [← htrail] at hop
    obtain ⟨o, ho, rfl⟩ := Plan.operation?_root hplan hlower hop hout
    exact ⟨a, sides, m, o, ha, hsides, ho, haction, hleft, hright⟩
  · cases hyes

/-- What is unserved is missing if the plan relates the sides of an arrow at its root. -/
theorem missing_of_relating (hfrom : S.fromRun) (hq : q.Printable)
    (hplan : Plan.ofQuery S.x.snapshot S.lowered q limit = .ok p) (hrun : S.x.run p time = .ok e)
    (hyes : q.relatesAtRoot S.x.snapshot S.threshold = true) :
    ∃ a sides m, q.arrow? = some a ∧ a.sides S.x S.config S.relate .start = .ok (sides, m) ∧
      ∀ found, Analysis.missing S.x.snapshot p e found =
        (RelationScores.compute S.x.snapshot sides.bindings sides.left sides.right).map fun scores =>
          Analysis.unserved S.x.snapshot S.config.executor.relationMinScore scores sides.right := by
  obtain ⟨a, sides, m, op, ha, hsides, hop, haction, hleft, hright⟩ :=
    root_of_relating hfrom hq hplan hrun hyes
  exact ⟨a, sides, m, ha, hsides, Analysis.missing_of_relating hop haction hleft hright⟩

end Setting

/-- The kind of whatever an analysis of the query finds missing. -/
def Query.missingKind (s : Snapshot) (threshold : Double) (q : Query) : String :=
  if q.relatesAtRoot s threshold then "unserved" else "unmatched"

theorem Setting.kind_of_missing {S : Setting} {q : Query} {limit time : Option Nat} {p : Plan}
    {e : Execution} (hfrom : S.fromRun) (hq : q.Printable)
    (hplan : Plan.ofQuery S.x.snapshot S.lowered q limit = .ok p) (hrun : S.x.run p time = .ok e)
    {found : ScoredSet Single} {ms : List Analysis.Missing}
    (hms : Analysis.missing S.x.snapshot p e found = .ok ms) :
    ∀ m ∈ ms, m.kind = q.missingKind S.x.snapshot S.threshold := by
  intro m hm
  unfold Query.missingKind
  cases hroot : q.relatesAtRoot S.x.snapshot S.threshold with
  | true =>
      obtain ⟨_, _, _, -, -, hmissing⟩ := missing_of_relating hfrom hq hplan hrun hroot
      rw [hmissing] at hms
      obtain ⟨scores, -, rfl⟩ := ok_of_map hms
      exact Analysis.kind_of_mem_unserved hm
  | false =>
      rw [Plan.missing_of_unrelating hq hplan hroot] at hms
      cases hms
      exact Analysis.kind_of_mem_unmatched hm

namespace Engine

variable {e : Engine} {text : String} {options : QueryOptions} {t t₁ t₂ : Double} {q : Query}
  {p p₁ p₂ : Plan} {x x₁ x₂ : Execution}

/-- A plan of the query, made with a bound for conditions below the root, and its execution. -/
structure Ran (e : Engine) (options : QueryOptions) (t : Double) (q : Query) (p : Plan)
    (x : Execution) : Prop where
  plan : Plan.ofQuery e.store.current (e.config.withPushdown t) q options.limit = .ok p
  run : (e.executor e.store.current).run p options.timeout = .ok x

/-- An analysis is made of a plan that has run. -/
theorem ran_of_analyze {r : AnalysisReport}
    (h : (e.withPushdown t).analyze text options = .ok r) :
    ∃ q p x, Query.parse text = .ok q ∧ e.Ran options t q p x ∧
      Analysis.run e.store.current e.config.executor p x = .ok r := by
  obtain ⟨⟨p, x⟩, hrun, hr⟩ := ok_of_bind h
  obtain ⟨q, hq, hplan, hrun⟩ := plan_of_run hrun
  exact ⟨q, p, x, hq, ⟨hplan, hrun⟩, ok_of_mapError hr⟩

namespace Ran

/-- A run, compared with evaluations that leave out what makes arrows fail. -/
def setting (e : Engine) (t : Double) : Setting :=
  .lenient (e.executor e.store.current) e.config t

theorem kind_of_missing (h : e.Ran options t q p x) (hq : q.Printable) {found : ScoredSet Single}
    {ms : List Analysis.Missing}
    (hms : Analysis.missing e.store.current p x found = .ok ms) :
    ∀ m ∈ ms, m.kind = q.missingKind e.store.current t :=
  (setting e t).kind_of_missing trivial hq h.plan h.run hms

/-- Both runs find what one evaluation does. -/
theorem alike (h₁ : e.Ran options t₁ q p₁ x₁) (h₂ : e.Ran options t₂ q p₂ x₂)
    (hq : q.Printable) : Analysis.Alike p₁ p₂ x₁ x₂ := by
  obtain ⟨a, m, heval, hquery₁, htypes₁, hfound₁⟩ :=
    (setting e t₁).found_of_run trivial hq h₁.plan h₁.run
  obtain ⟨a', m', heval', hquery₂, htypes₂, hfound₂⟩ :=
    (setting e t₂).found_of_run trivial hq h₂.plan h₂.run
  obtain ⟨rfl, -⟩ := Prod.mk.inj (Except.ok.inj (heval.symm.trans heval'))
  constructor
  case query => exact hquery₂.trans hquery₁.symm
  case types => exact htypes₂.trans htypes₁.symm
  case limit =>
    rw [Analysis.shownLimit_of_ofQuery h₁.plan, Analysis.shownLimit_of_ofQuery h₂.plan]
  case found =>
    rw [hfound₁, hfound₂]
    rfl

/-- Whatever is missing in one run is missing in the other one if their plans have roots of one
kind. -/
theorem missing_eq (h₁ : e.Ran options t₁ q p₁ x₁) (h₂ : e.Ran options t₂ q p₂ x₂)
    (hq : q.Printable)
    (hroots : q.relatesAtRoot e.store.current t₁ = q.relatesAtRoot e.store.current t₂)
    (found : ScoredSet Single) :
    Analysis.missing e.store.current p₂ x₂ found =
      Analysis.missing e.store.current p₁ x₁ found := by
  cases hroot : q.relatesAtRoot e.store.current t₁ with
  | true =>
      obtain ⟨a, sides, _, ha, hsides, hmissing₁⟩ :=
        (setting e t₁).missing_of_relating trivial hq h₁.plan h₁.run hroot
      obtain ⟨a', sides', _, ha', hsides', hmissing₂⟩ :=
        (setting e t₂).missing_of_relating trivial hq h₂.plan h₂.run (hroots ▸ hroot)
      -- the sides of an arrow do not depend on the bound
      obtain rfl := Option.some.inj (ha.symm.trans ha')
      obtain ⟨rfl, -⟩ := Prod.mk.inj (Except.ok.inj (hsides.symm.trans hsides'))
      exact (hmissing₂ found).trans (hmissing₁ found).symm
  | false =>
      rw [Plan.missing_of_unrelating hq h₁.plan hroot,
        Plan.missing_of_unrelating hq h₂.plan (hroots ▸ hroot), (h₁.alike h₂ hq).types]

end Ran

/-- Where conditions run does not change any figure of an analysis but the number of gaps.  It
changes nothing else either, unless it changes what kind of root the plan has, which is what tells
the kind of all gaps. -/
theorem analyze_withPushdown {r₁ r₂ : AnalysisReport}
    (h₁ : (e.withPushdown t₁).analyze text options = .ok r₁)
    (h₂ : (e.withPushdown t₂).analyze text options = .ok r₂) :
    (∀ name, name ≠ "gap_count" → r₂.metrics.get? name = r₁.metrics.get? name) ∧
    ∃ q, Query.parse text = .ok q ∧
      (∀ g ∈ r₁.gaps, g.kind = q.missingKind e.store.current t₁) ∧
      (∀ g ∈ r₂.gaps, g.kind = q.missingKind e.store.current t₂) ∧
      (q.relatesAtRoot e.store.current t₁ = q.relatesAtRoot e.store.current t₂ →
        r₂ = { r₁ with trace := r₂.trace }) := by
  obtain ⟨q, p₁, x₁, hparse, hran₁, hr₁⟩ := ran_of_analyze h₁
  obtain ⟨q', p₂, x₂, hparse', hran₂, hr₂⟩ := ran_of_analyze h₂
  obtain rfl : q = q' := Except.ok.inj (hparse.symm.trans hparse')
  have hq := printable_of_parse hparse
  have halike := hran₁.alike hran₂ hq
  refine ⟨fun name hname => halike.metrics_eq hr₁ hr₂ hname, q, hparse, ?_, ?_, fun hroots => ?_⟩
  · exact Analysis.kind_of_run hr₁ fun _ _ => hran₁.kind_of_missing hq
  · exact Analysis.kind_of_run hr₂ fun _ _ => hran₂.kind_of_missing hq
  · exact halike.report_eq hr₁ hr₂ (hran₁.missing_eq hran₂ hq hroots)

/-- A snapshot of two commands, each of which serves one of two jobs. -/
def servedJobs : Snapshot :=
  (Snapshot.build
    [⟨"command", "deps", "", [1, 0], [], OrderedMap.empty.insert "uses" (.number 9)⟩,
      ⟨"command", "lint", "", [0, 1], [], OrderedMap.empty.insert "uses" (.number 1)⟩,
      ⟨"job", "review", "", [0, 1], [], .empty⟩, ⟨"job", "ship", "", [1, 0], [], .empty⟩]
    [⟨⟨"command", "serves", "job"⟩, .offset [0, 0]⟩] {} 1 ⟨0, 0⟩).toOption.getD .empty

theorem analyze_withPushdown_search :
    let e := Engine.new ((Store.empty {}).replace servedJobs) {}
    let text := "similar_to(command(\"deps\")) AND uses >= 5"
    ∃ r₁ r₂, (e.withPushdown 0).analyze text {} = .ok r₁ ∧
      (e.withPushdown 2).analyze text {} = .ok r₂ ∧ r₁.trace.steps.length = 4 ∧
      r₂.trace.steps.length = 5 ∧ r₂ = { r₁ with trace := r₂.trace } ∧ r₁.gaps.length = 1 ∧
      ∀ g ∈ r₁.gaps, g.kind = "unmatched" := by
  intro e text
  have hlengths₁ : ((e.withPushdown 0).analyze text {}).toOption.map (fun r =>
      (r.trace.steps.length, r.gaps.length)) = some (4, 1) := by decide +kernel
  have hlength₂ : ((e.withPushdown 2).analyze text {}).toOption.map
      (·.trace.steps.length) = some 5 := by decide +kernel
  have hroots : ((Query.parse text).toOption.map fun q =>
      (q.relatesAtRoot e.store.current 0, q.relatesAtRoot e.store.current 2)) =
        some (false, false) := by decide +kernel
  obtain ⟨r₁, hr₁, hlengths⟩ := Option.map_eq_some_iff.1 hlengths₁
  obtain ⟨r₂, hr₂, hlength⟩ := Option.map_eq_some_iff.1 hlength₂
  obtain ⟨hsteps, hgaps⟩ := Prod.mk.inj hlengths
  obtain ⟨q, hq, hroots⟩ := Option.map_eq_some_iff.1 hroots
  obtain ⟨hroot₁, hroot₂⟩ := Prod.mk.inj hroots
  have hr₁ := ok_of_toOption hr₁
  have hr₂ := ok_of_toOption hr₂
  obtain ⟨-, q', hq', hkinds, -, hsame⟩ := analyze_withPushdown hr₁ hr₂
  obtain rfl : q = q' := Except.ok.inj ((ok_of_toOption hq).symm.trans hq')
  have hkind : q.missingKind e.store.current 0 = "unmatched" := by
    unfold Query.missingKind
    rw [hroot₁]
    rfl
  exact ⟨r₁, r₂, hr₁, hr₂, hsteps, hlength, hsame (hroot₁.trans hroot₂.symm), hgaps,
    fun g hg => (hkinds g hg).trans hkind⟩

/-- A condition that runs below an arrow makes an analysis look for jobs that no command serves in
place of commands that do not match. -/
theorem analyze_servedJobs :
    let e := Engine.new ((Store.empty {}).replace servedJobs) {}
    let text := "command(\"*\") -> job(\"*\") AND uses >= 5"
    ∃ r₁ r₂, (e.withPushdown 0).analyze text {} = .ok r₁ ∧
      (e.withPushdown 0.5).analyze text {} = .ok r₂ ∧
      r₁.gaps.map (fun g => (g.kind, g.entity.id)) = [("unmatched", "lint")] ∧
      r₂.gaps.map (fun g => (g.kind, g.entity.id)) = [("unserved", "review")] := by
  intro e text
  have hgaps₁ : ((e.withPushdown 0).analyze text {}).toOption.map (fun r =>
      r.gaps.map fun g => (g.kind, g.entity.id)) = some [("unmatched", "lint")] := by decide +kernel
  have hgaps₂ : ((e.withPushdown 0.5).analyze text {}).toOption.map (fun r =>
      r.gaps.map fun g => (g.kind, g.entity.id)) = some [("unserved", "review")] := by
    decide +kernel
  obtain ⟨r₁, hr₁, hgaps₁⟩ := Option.map_eq_some_iff.1 hgaps₁
  obtain ⟨r₂, hr₂, hgaps₂⟩ := Option.map_eq_some_iff.1 hgaps₂
  exact ⟨r₁, r₂, ok_of_toOption hr₁, ok_of_toOption hr₂, hgaps₁, hgaps₂⟩

example : (servedJobs.ordinals []).isEmpty = false := by
  decide +kernel

end Engine

end VectorQuery
