/-
# A limit shows the first answers

The plan of a query with a limit differs from the one without in what it collects, so what is
reported with a limit is the first part of what is reported without.  No figure is computed from
what a limit leaves: those of a recommendation come from the selection, and those of an analysis
from the value that is collected.
-/
import VectorQuery.Proofs.Execution.Limit
import VectorQuery.Proofs.Lowering.Safety
import VectorQuery.Proofs.Ranking

namespace VectorQuery

/-- What is left out does not matter if nothing is. -/
theorem filterMap_take {α β : Type} {f : α → Option β} {l : List α}
    (h : ∀ a ∈ l, (f a).isSome = true) (k : Nat) :
    (l.take k).filterMap f = (l.filterMap f).take k := by
  induction l generalizing k with
  | nil => rw [List.take_nil, List.filterMap_nil, List.take_nil]
  | cons a l ih =>
      obtain ⟨b, hb⟩ := Option.isSome_iff_exists.1 (h a List.mem_cons_self)
      cases k with
      | zero => rfl
      | succ k =>
          rw [List.take_succ_cons, List.filterMap_cons_some hb, List.filterMap_cons_some hb,
            List.take_succ_cons, ih fun c hc => h c (List.mem_cons_of_mem _ hc)]

theorem zipIdx_take {α : Type} (l : List α) (k : Nat) : (l.take k).zipIdx = l.zipIdx.take k := by
  refine List.ext_getElem? fun i => ?_
  rw [List.getElem?_zipIdx, List.getElem?_take, List.getElem?_take, List.getElem?_zipIdx]
  split <;> rfl

/-! ## Plans -/

namespace Plan

variable {s : Snapshot} {config : EngineConfig} {q : Query} {p : Plan}

/-- A query that has a plan without a limit has one with a limit, which collects less. -/
theorem cuts_of_ofQuery (h : ofQuery s config q none = .ok p) (k : Nat) :
    ∃ p' ops last last', ofQuery s config q (some k) = .ok p' ∧ Cuts k ops last last' p p' := by
  have hnumbered := numbered_of_ofQuery h
  obtain ⟨-, hfitting⟩ := fitting_of_ofQuery h
  obtain ⟨root, d, -, hlower, -⟩ := lower_of_ofQuery h
  rw [ofQuery_eq hlower] at h
  cases h
  refine ⟨_, d.operations, _, _, ofQuery_eq hlower (some k), rfl, rfl, rfl, rfl, rfl, rfl, rfl,
    hnumbered, fun op hop hread => ?_⟩
  -- what is collected is numbered after whatever an operation reads
  obtain ⟨i, hi⟩ := List.getElem?_of_mem hop
  obtain ⟨j, hj, heq⟩ := (hfitting i op hi).bound _ hread
  have hlength := (List.getElem?_eq_some_iff.1 hi).1
  rw [List.length_append, List.length_singleton] at hlength
  cases heq
  omega

end Plan

/-- The report shows the first `k` answers of another one, and ends its trace otherwise. -/
inductive Report.Shows (k : Nat) : Report → Report → Prop
  | found {r r' : MatchReport} : r'.query = r.query → r'.found = r.found.take k →
      r.trace.EndsApart r'.trace → Shows k (.found r) (.found r')
  | recommendation {r r' : RecommendationReport} :
      r' = { r with recommendations := r.recommendations.take k, trace := r'.trace } →
      r.trace.EndsApart r'.trace → Shows k (.recommendation r) (.recommendation r')

/-- The analysis shows the first `k` gaps and opportunities of another one, and ends its trace
otherwise. -/
def AnalysisReport.Shows (k : Nat) (r r' : AnalysisReport) : Prop :=
  r' = { r with
    gaps := r.gaps.take k, opportunities := r.opportunities.take k, trace := r'.trace } ∧
  r.trace.EndsApart r'.trace

namespace Plan.Cuts

variable {k : Nat} {ops : List Operation} {last last' : Operation} {p p' : Plan}
  {e e' : Execution} {s : Snapshot}

section

variable (h : Plan.Cuts k ops last last' p p')

include h

theorem query_eq : p'.query = p.query := by rw [h.limited]

theorem shape_eq : p'.shape = p.shape := by rw [h.limited]

theorem types_eq : p'.types = p.types := by rw [h.limited]

/-- Both plans collect what one operation computes. -/
theorem root_eq : (p'.root? >>= p'.operation?) = (p.root? >>= p.operation?) := by
  rw [h.root?_eq]
  cases hroot : p.root? with
  | none => rfl
  | some v => exact h.operation?_eq (h.root_ne hroot)

theorem rootAction?_eq : p'.rootAction? = p.rootAction? :=
  congrArg (Option.map Operation.action) h.root_eq

theorem metricFields_eq : p'.metricFields = p.metricFields := by
  unfold metricFields
  rw [h.operations_eq, h.unlimited, List.flatMap_append, List.flatMap_append,
    List.flatMap_singleton, List.flatMap_singleton, h.collects, h.collects']

/-! ## Answers -/

theorem found_eq (he : e.Cuts k p.result e') (hheld : s.Holds e.result) :
    (MatchReport.of s p' e').found = (MatchReport.of s p e).found.take k := by
  unfold MatchReport.of
  dsimp only
  rw [he.result, ScoredSet.ranked_top, h.rootAction?_eq]
  refine filterMap_take (fun hit hhit => ?_) k
  have hmember : hit.ordinal ∈ e.result.members :=
    (ScoredSet.mem_members_iff_toList _ _).2 ⟨hit, List.mem_mergeSort.1 hhit, rfl⟩
  rw [Option.isSome_map]
  exact Option.isSome_iff_exists.2 ⟨_, Array.getElem?_eq_getElem (hheld _ hmember)⟩

theorem recommendation_eq (o : Optimization Double) :
    RecommendationReport.of p' e' o (some k) =
      { RecommendationReport.of p e o none with
        recommendations := (RecommendationReport.of p e o none).recommendations.take k
        trace := e'.trace } := by
  unfold RecommendationReport.of
  rw [h.query_eq, h.metricFields_eq]
  dsimp only
  rw [← List.map_take, ← zipIdx_take]
  rfl

theorem shows_report (he : e.Cuts k p.result e') (hheld : s.Holds e.result) :
    Report.Shows k (.of s p e none) (.of s p' e' (some k)) := by
  have hfound : Report.Shows k (.found (.of s p e)) (.found (.of s p' e')) :=
    .found h.query_eq (h.found_eq he hheld) he.trace
  unfold Report.of
  rw [h.shape_eq, he.optimization]
  cases p.shape with
  | «matches» => exact hfound
  | recommendation =>
      cases e.optimization with
      | none => exact hfound
      | some o => exact .recommendation (h.recommendation_eq o) he.trace

/-! ## Analyses -/

theorem shownLimit_eq : Analysis.shownLimit p = none ∧ Analysis.shownLimit p' = some k := by
  obtain ⟨hlast, hlast'⟩ := h.operation?_result
  unfold Analysis.shownLimit
  rw [hlast, hlast']
  dsimp only
  rw [h.collects, h.collects']
  exact ⟨rfl, rfl⟩

variable (he : e.Cuts k p.result e')

include he

theorem input_eq {op : Operation} (hop : op ∈ p.operations) (n : Nat) :
    Analysis.input e' op n = Analysis.input e op n := by
  have hvalue : (op.inputs[n]? >>= e'.bindings.value?) = (op.inputs[n]? >>= e.bindings.value?) := by
    cases hv : op.inputs[n]? with
    | none => rfl
    | some v =>
        exact he.values v fun heq => h.unread op hop (heq ▸ List.mem_of_getElem? hv)
  unfold Analysis.input
  rw [hvalue]

/-- What is missing is found in what both plans bind. -/
theorem missing_eq (found : ScoredSet Single) :
    Analysis.missing s p' e' found = Analysis.missing s p e found := by
  unfold Analysis.missing
  rw [h.root_eq, h.types_eq]
  cases hroot : p.root? >>= p.operation? with
  | none => rfl
  | some op =>
      obtain ⟨v, -, hfind⟩ := Option.bind_eq_some_iff.1 hroot
      have hop : op ∈ p.operations := List.mem_of_find?_eq_some hfind
      dsimp only
      rw [h.input_eq he hop, h.input_eq he hop]

theorem shows_analysis {config : ExecutorConfig}
    (hbound : ∃ set, p.root? >>= e.bindings.value? = some set) {r : AnalysisReport}
    (hr : Analysis.run s config p e = .ok r) :
    ∃ r', Analysis.run s config p' e' = .ok r' ∧ r.Shows k r' := by
  have hfound : (p'.root? >>= e'.bindings.value?).getD e'.result =
      (p.root? >>= e.bindings.value?).getD e.result := by
    obtain ⟨set, hset⟩ := hbound
    obtain ⟨v, hv, hvalue⟩ := Option.bind_eq_some_iff.1 hset
    have hvalue' := (he.values v (h.root_ne hv)).trans hvalue
    rw [h.root?_eq, hv]
    change (e'.bindings.value? v).getD _ = (e.bindings.value? v).getD _
    rw [hvalue, hvalue']
    rfl
  obtain ⟨hlimit, hlimit'⟩ := h.shownLimit_eq
  unfold Analysis.run at hr ⊢
  dsimp only at hr ⊢
  rw [hlimit] at hr
  rw [hfound, h.missing_eq he, h.query_eq, h.types_eq, hlimit']
  obtain ⟨ms, hms, hr⟩ := ok_of_bind hr
  cases hr
  rw [hms]
  exact ⟨_, rfl, rfl, he.trace⟩

end

end Plan.Cuts

/-! ## Queries -/

namespace Engine

variable {e : Engine} {s : Snapshot} {text : String} {time : Option Nat}

/-- What runs without a limit runs with one, and shows less of the same. -/
theorem run_limited (hs : s.Made) {p : Plan} {x : Execution}
    (h : e.run s text ⟨none, time⟩ = .ok (p, x)) (k : Nat) :
    ∃ p' x' ops last last', e.run s text ⟨some k, time⟩ = .ok (p', x') ∧
      Plan.Cuts k ops last last' p p' ∧ x.Cuts k p.result x' ∧ s.Holds x.result ∧
      ∃ set, p.root? >>= x.bindings.value? = some set := by
  obtain ⟨q, hq, hplan, hrun⟩ := plan_of_run h
  obtain ⟨p', ops, last, last', hplan', hcuts⟩ := Plan.cuts_of_ofQuery hplan k
  obtain ⟨x', hrun', hx⟩ := hcuts.run hrun
  have hheld : s.Holds x.result :=
    (Executor.ends_run hs hcuts.numbered (Plan.fitting_of_ofQuery hplan).2
      (Executor.ne_zero_of_run hrun) ⟨last, hcuts.mem_last, hcuts.output⟩).of_ok hrun
  exact ⟨p', x', ops, last, last', run_of_plan hq hplan' hrun', hcuts, hx, hheld,
    hcuts.root_bound hrun⟩

/-- A limit only truncates: a query that is answered without a limit is answered with one, by the
first answers, and so is an analysis, all of whose figures stay as they are. -/
theorem shows_limited (hs : e.store.current.Made) (k : Nat) :
    (∀ r, e.execute text ⟨none, time⟩ = .ok r →
      ∃ r', e.execute text ⟨some k, time⟩ = .ok r' ∧ r.Shows k r') ∧
    ∀ r, e.analyze text ⟨none, time⟩ = .ok r →
      ∃ r', e.analyze text ⟨some k, time⟩ = .ok r' ∧ r.Shows k r' := by
  constructor
  · intro r h
    obtain ⟨⟨p, x⟩, hrun, hr⟩ := ok_of_bind h
    cases hr
    obtain ⟨p', x', _, _, _, hrun', hcuts, hx, hheld, -⟩ := run_limited hs hrun k
    refine ⟨.of e.store.current p' x' (some k), ?_, hcuts.shows_report hx hheld⟩
    unfold execute executeOn
    rw [hrun']
    rfl
  · intro r h
    obtain ⟨⟨p, x⟩, hrun, hr⟩ := ok_of_bind h
    obtain ⟨p', x', _, _, _, hrun', hcuts, hx, -, hbound⟩ := run_limited hs hrun k
    obtain ⟨r', hr', hshows⟩ := hcuts.shows_analysis hx hbound (ok_of_mapError hr)
    refine ⟨r', ?_, hshows⟩
    unfold analyze
    dsimp only
    rw [hrun']
    change Except.mapError QueryError.execution (Analysis.run _ _ p' x') = .ok r'
    rw [hr']
    rfl

/-- A snapshot of three features. -/
def threeFeatures : Snapshot :=
  (Snapshot.build (["cache", "cart", "log"].map fun id =>
    ⟨"feature", id, "", [1], [], .empty⟩) [] {} 1 ⟨0, 0⟩).toOption.getD .empty

theorem shows_limited_features :
    let e := Engine.new ((Store.empty {}).replace threeFeatures) {}
    let text := "feature(\"ca*\")"
    e.store.current.Made ∧ threeFeatures.size = 3 ∧
      (∃ r r', e.execute text {} = .ok r ∧ e.execute text ⟨some 1, none⟩ = .ok r' ∧
        r.Shows 1 r') ∧
      ∃ r r', e.analyze text {} = .ok r ∧ e.analyze text ⟨some 1, none⟩ = .ok r' ∧
        r.Shows 1 r' := by
  intro e text
  have hmade : e.store.current.Made := Snapshot.made_getD ..
  have hexecute : (e.execute text {}).toOption.isSome = true := by decide +kernel
  have hanalyze : (e.analyze text {}).toOption.isSome = true := by decide +kernel
  obtain ⟨r, hr⟩ := Option.isSome_iff_exists.1 hexecute
  obtain ⟨a, ha⟩ := Option.isSome_iff_exists.1 hanalyze
  have hr := ok_of_toOption hr
  have ha := ok_of_toOption ha
  obtain ⟨r', hr', hshows⟩ := (shows_limited hmade 1).1 r hr
  obtain ⟨a', ha', hshows'⟩ := (shows_limited hmade 1).2 a ha
  exact ⟨hmade, by decide +kernel, ⟨r, r', hr, hr', hshows⟩, a, a', ha, ha', hshows'⟩

example : (threeFeatures.ordinals []).isEmpty = false := by
  decide +kernel

end Engine

end VectorQuery
