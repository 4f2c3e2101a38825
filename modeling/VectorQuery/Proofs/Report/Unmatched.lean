/-
# Of which types gaps are

An analysis sets what a query finds against all entities of the types inferred for it.  No types
mean any type.  So gaps are of types that the query names as long as some types are inferred; and
for a query without conditions it takes a conjunction of operands without a common type to infer
none, where all entities of the store become gaps (`Engine.analyze_unmatched`).
-/
import VectorQuery.Proofs.Meaning.Inference
import VectorQuery.Proofs.Report.Gaps

namespace VectorQuery

variable {e : Engine} {text : String} {options : QueryOptions} {q : Query} {r : AnalysisReport}

namespace Analysis

/-- What is missing beside the entities found: all other entities of the types, and none of the
types means any type. -/
structure Leaves (s : Snapshot) (types : TypeSet) (found : ScoredSet Single) (ms : List Missing) :
    Prop where
  entity : ∀ m ∈ ms, s.entity? m.ordinal = some m.entity
  missing : ∀ o, o ∈ ms.map Missing.ordinal ↔ s.Admitted types o ∧ o ∉ found.members

theorem leaves_unmatched {s : Snapshot} (hs : s.Made) (types : TypeSet) (found : ScoredSet Single) :
    Leaves s types found ((unmatched s types.names found).mergeSort Missing.before) := by
  have hperm := List.mergeSort_perm (unmatched s types.names found) Missing.before
  constructor
  case entity => exact fun m hm => (mem_unmatched (hperm.subset hm)).entity
  case missing =>
    intro o
    rw [(hperm.map Missing.ordinal).mem_iff, ordinals_unmatched, List.mem_filter,
      Snapshot.mem_ordinals_names hs, Bool.not_eq_true', ← Bool.not_eq_true, ScoredSet.contains_iff]

theorem Leaves.allows {s : Snapshot} {types : TypeSet} {found : ScoredSet Single}
    {ms : List Missing} (h : Leaves s types found ms) {m : Missing} (hm : m ∈ ms) :
    types.Allows m.entity.entityType := by
  obtain ⟨⟨e, he, hallows⟩, -⟩ := (h.missing m.ordinal).1 (List.mem_map_of_mem hm)
  cases (h.entity m hm).symm.trans he
  exact hallows

end Analysis

/-- What does not match is missing where the query is no arrow. -/
theorem Query.relatesAtRoot_of_arrow?_eq_none {s : Snapshot} {threshold : Double}
    (h : q.arrow? = none) : q.relatesAtRoot s threshold = false := by
  unfold relatesAtRoot
  rw [h]

namespace Engine

/-- **Types of gaps.** If a query has no conditions, its unmatched gaps are of types that it names,
provided that types are inferred for it.  Otherwise some conjunction in it joins operands without a
common type, and all entities that the query does not find are gaps. -/
theorem analyze_unmatched (hs : e.store.current.Made) (hq : Query.parse text = .ok q)
    (hu : q.Unconditional) (h : e.analyze text options = .ok r) :
    ∃ p x found ms, e.run e.store.current text options = .ok (p, x) ∧
      p.root? >>= x.bindings.value? = some found ∧
      r.gaps = atMost options.limit (ms.map Analysis.Missing.gap) ∧
      (q.arrow? = none → Analysis.Leaves e.store.current (q.inferred .empty) found ms) ∧
      (q.inferred .empty ≠ .empty → ∀ g ∈ r.gaps, g.kind = "unmatched" →
        g.entity.entityType ∈ q.typesNamed.names) ∧
      (q.inferred .empty = .empty → q.Clashes) := by
  have hprintable := printable_of_parse hq
  obtain ⟨⟨p, x⟩, hrun, hr⟩ := ok_of_bind h
  obtain ⟨q', hq', hplan, hexecution⟩ := plan_of_run hrun
  obtain rfl : q = q' := Except.ok.inj (hq.symm.trans hq')
  let S := Setting.lenient (e.executor e.store.current) e.config
    e.config.compiler.pushdownSelectivity
  obtain ⟨a, m, heval, -, htypes, hfound⟩ := S.found_of_run trivial hprintable hplan hexecution
  rw [types_evaluate hprintable hu heval] at htypes
  obtain ⟨ms, hms, hr⟩ := ok_of_bind (ok_of_mapError hr)
  cases hr
  rw [hfound] at hms
  have hkinds := S.kind_of_missing trivial hprintable hplan hexecution hms
  have hleaves (hno : q.relatesAtRoot e.store.current S.threshold = false) :
      Analysis.Leaves e.store.current (q.inferred .empty) a.set
        (ms.mergeSort Analysis.Missing.before) := by
    rw [Plan.missing_of_unrelating hprintable hplan hno, htypes] at hms
    cases hms
    exact Analysis.leaves_unmatched hs _ _
  refine ⟨p, x, a.set, ms.mergeSort Analysis.Missing.before, hrun, hfound, ?_, ?_, ?_, ?_⟩
  · rw [Analysis.shownLimit_of_ofQuery hplan]
  · exact fun harrow => hleaves (Query.relatesAtRoot_of_arrow?_eq_none harrow)
  · intro hne g hg hkind
    obtain ⟨m, hm, rfl⟩ := List.mem_map.1 (mem_of_atMost hg)
    have hno : q.relatesAtRoot e.store.current S.threshold = false := by
      have hmissing := (hkinds m (List.mem_mergeSort.1 hm)).symm.trans hkind
      unfold Query.missingKind at hmissing
      split at hmissing
      · exact absurd hmissing (by decide)
      · rename_i hno
        exact Bool.eq_false_iff.2 hno
    obtain ⟨t, ht⟩ := TypeSet.ne_empty_iff.1 hne
    have hinferred : m.entity.entityType ∈ (q.inferred .empty).names :=
      ((hleaves hno).allows hm).resolve_left (List.ne_nil_of_mem ht)
    exact q.inferred_within .empty (TypeSet.empty_within _) (.refl _) _ hinferred
  · exact fun hempty => Query.clashes_of_inferred hprintable hu hempty

/-- A snapshot of a feature, a command and a job. -/
def threeTypes : Snapshot :=
  (Snapshot.build
    [⟨"feature", "cache", "", [1], [], .empty⟩, ⟨"command", "lint", "", [1], [], .empty⟩,
      ⟨"job", "ship", "", [1], [], .empty⟩] [] {} 1 ⟨0, 0⟩).toOption.getD .empty

theorem made_threeTypes : threeTypes.Made := Snapshot.made_getD ..

/-- The one gap is the feature, and not the job. -/
theorem analyze_unmatched_feature :
    let e := Engine.new ((Store.empty {}).replace threeTypes) {}
    let text := "NOT feature(\"*\") OR command(\"*\")"
    ∃ q r found ms, e.store.current.Made ∧ Query.parse text = .ok q ∧ q.Unconditional ∧
      e.analyze text {} = .ok r ∧ q.inferred .empty ≠ .empty ∧
      Analysis.Leaves e.store.current (q.inferred .empty) found ms ∧
      r.gaps = ms.map Analysis.Missing.gap ∧
      r.gaps.map (fun g => (g.kind, g.entity.id)) = [("unmatched", "cache")] ∧
      ∀ g ∈ r.gaps, g.kind = "unmatched" → g.entity.entityType ∈ q.typesNamed.names := by
  intro e text
  have hmade : e.store.current.Made := by
    dsimp only [e, Engine.new, Store.replace]
    exact made_threeTypes
  have hparse : (Query.parse text).toOption.map (fun q => (decide q.Unconditional,
      q.arrow?.isNone, decide ("feature" ∈ (q.inferred .empty).names))) =
        some (true, true, true) := by decide +kernel
  have hanalyze : (e.analyze text {}).toOption.map (fun r =>
      r.gaps.map fun g => (g.kind, g.entity.id)) = some [("unmatched", "cache")] := by
    decide +kernel
  obtain ⟨q, hq, hquery⟩ := Option.map_eq_some_iff.1 hparse
  obtain ⟨r, hr, hgaps⟩ := Option.map_eq_some_iff.1 hanalyze
  obtain ⟨hu, hquery⟩ := Prod.mk.inj hquery
  obtain ⟨harrow, hfeature⟩ := Prod.mk.inj hquery
  have hq := ok_of_toOption hq
  have hr := ok_of_toOption hr
  have hu : q.Unconditional := of_decide_eq_true hu
  have hne := TypeSet.ne_empty_iff.2 ⟨_, of_decide_eq_true hfeature⟩
  obtain ⟨_, _, found, ms, -, -, hms, hleaves, hnamed, -⟩ := analyze_unmatched hmade hq hu hr
  exact ⟨q, r, found, ms, hmade, hq, hu, hr, hne, hleaves (Option.isNone_iff_eq_none.1 harrow), hms,
    hgaps, hnamed hne⟩

/-- The query finds all features and commands.  No feature is a command, so the job is a gap. -/
theorem analyze_unmatched_job :
    let e := Engine.new ((Store.empty {}).replace threeTypes) {}
    let text := "feature(\"*\") OR command(\"*\") OR feature(\"*\") AND command(\"*\")"
    ∃ q r, e.store.current.Made ∧ Query.parse text = .ok q ∧ q.Unconditional ∧
      e.analyze text {} = .ok r ∧
      ∃ g ∈ r.gaps, g.kind = "unmatched" ∧ g.entity.entityType ∉ q.typesNamed.names := by
  intro e text
  have hmade : e.store.current.Made := by
    dsimp only [e, Engine.new, Store.replace]
    exact made_threeTypes
  have hrun : ((Query.parse text).toOption.bind fun q => (e.analyze text {}).toOption.map fun r =>
      decide (q.Unconditional ∧ ∃ g ∈ r.gaps, g.kind = "unmatched" ∧
        g.entity.entityType ∉ q.typesNamed.names)) = some true := by decide +kernel
  obtain ⟨q, hq, hrun⟩ := Option.bind_eq_some_iff.1 hrun
  obtain ⟨r, hr, hgap⟩ := Option.map_eq_some_iff.1 hrun
  obtain ⟨hu, hgap⟩ := of_decide_eq_true hgap
  exact ⟨q, r, hmade, ok_of_toOption hq, hu, ok_of_toOption hr, hgap⟩

example : (threeTypes.ordinals []).isEmpty = false := by
  decide +kernel

end Engine

end VectorQuery
