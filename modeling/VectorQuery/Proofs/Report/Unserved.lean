/-
# What an arrow leaves unserved

An arrow keeps the entities on its left by the best of their pairs, and an analysis judges those on
its right by the best of theirs, from a table that is computed anew.  The two tables come from the
same pairs: what is recorded for the right is what would be recorded for the left if every binding
were read from the other side (`RelationScores.compute_flip`).  So what is known of entities on the
left is known of those on the right, whichever way the relations lead.

Main statement: the gaps of an arrow are the entities on its right that no entity on its left serves,
and the arrow finds nothing exactly if all of them are gaps (`Engine.analyze_unserved`).
-/
import VectorQuery.Proofs.Execution.Arrows
import VectorQuery.Proofs.Lowering.Safety
import VectorQuery.Proofs.Report.Gaps

namespace VectorQuery

variable {s : Snapshot} {left right : ScoredSet Single} {bindings : List RelationBinding}
  {minScore : Single}

/-! ## The other side of an arrow -/

/-- The binding read from the other side of an arrow. -/
def RelationBinding.flip (b : RelationBinding) : RelationBinding :=
  ⟨b.rightType, b.leftType, b.key, !b.reversed⟩

theorem RelationBinding.cosine?_flip (s : Snapshot) (b : RelationBinding) (l r : Entity Double) :
    b.flip.cosine? s r l = b.cosine? s l r := by
  obtain ⟨lt, rt, key, reversed⟩ := b
  cases reversed <;> rfl

namespace RelationScores

/-- The scores with both sides exchanged. -/
def swap (r : RelationScores) : RelationScores := ⟨r.right, r.left⟩

theorem sides_flip (b : RelationBinding) : sides s right left b.flip = sides s left right b := by
  obtain ⟨lt, rt, key, reversed⟩ := b
  cases reversed <;> rfl

theorem swap_addSource (b : RelationBinding) (op : Operator) (targets : List Nat)
    (r : RelationScores) (o : Nat) :
    addSource s b.flip op targets r.swap o = (addSource s b op targets r o).swap := by
  unfold addSource
  cases s.entity? o with
  | none => rfl
  | some source =>
      refine List.foldl_hom swap fun r p => ?_
      obtain ⟨lt, rt, key, reversed⟩ := b
      cases reversed <;> rfl

theorem swap_addAll (r : RelationScores) (b : RelationBinding) :
    addAll s right left r.swap b.flip = (addAll s left right r b).swap := by
  unfold addAll
  rw [sides_flip]
  have hkey : b.flip.key = b.key := rfl
  rw [hkey]
  cases s.relations.get? b.key with
  | none => rfl
  | some op => exact List.foldl_hom swap fun r o => swap_addSource b op _ r o

theorem admits_flip {b : RelationBinding} (h : Admits s left right b) :
    Admits s right left b.flip := by
  obtain ⟨op, hop, hpredicts⟩ := h
  refine ⟨op, hop, ?_⟩
  rw [sides_flip]
  exact hpredicts

/-- Bindings read from the other side give the same scores, with both sides exchanged. -/
theorem compute_flip {r : RelationScores} (h : compute s bindings left right = .ok r) :
    compute s (bindings.map .flip) right left = .ok r.swap := by
  obtain ⟨hadmits, rfl⟩ := (compute_eq_ok_iff r).1 h
  refine (compute_eq_ok_iff _).2 ⟨?_, ?_⟩
  · intro flipped hflipped
    obtain ⟨b, hb, rfl⟩ := List.mem_map.1 hflipped
    exact admits_flip (hadmits b hb)
  · rw [List.foldl_map]
    exact (List.foldl_hom swap fun r b => swap_addAll r b).symm

end RelationScores

/-! ## Entities that serve others -/

/-- Some binding joins the two entities with this score at least. -/
def Snapshot.Serves (s : Snapshot) (bindings : List RelationBinding) (minScore : Single)
    (l r : Nat) : Prop :=
  ∃ b ∈ bindings, ∃ e f c, s.entity? l = some e ∧ s.entity? r = some f ∧
    e.entityType = b.leftType ∧ f.entityType = b.rightType ∧ b.cosine? s e f = some c ∧
    minScore ≤ c

theorem Snapshot.serves_flip {l r : Nat} (h : s.Serves bindings minScore l r) :
    s.Serves (bindings.map .flip) minScore r l := by
  obtain ⟨b, hb, e, f, c, he, hf, hlt, hrt, hcosine, hle⟩ := h
  exact ⟨b.flip, List.mem_map_of_mem hb, f, e, c, hf, he, hrt, hlt,
    (b.cosine?_flip s e f).trans hcosine, hle⟩

theorem Snapshot.serves_flip_iff {l r : Nat} :
    s.Serves (bindings.map .flip) minScore r l ↔ s.Serves bindings minScore l r := by
  refine ⟨fun h => ?_, serves_flip⟩
  have hflip : (bindings.map RelationBinding.flip).map .flip = bindings := by
    rw [List.map_map]
    refine List.map_id'' (fun b => ?_) bindings
    exact congrArg (RelationBinding.mk b.leftType b.rightType b.key) (Bool.not_not b.reversed)
  rw [← hflip]
  exact serves_flip h

namespace RelationScores

variable {r : RelationScores}

/-- An entity on the left has a score that is good enough exactly if it serves some entity on the
right.  Scores that are no number are not good enough. -/
theorem reaches_iff (hs : s.Made) (hmin : 0 < minScore)
    (h : compute s bindings left right = .ok r) {l : Nat} (hl : l ∈ left.members) :
    (∃ best, r.left.score? l = some best ∧ minScore ≤ best) ↔
      ∃ t ∈ right.members, s.Serves bindings minScore l t := by
  obtain ⟨hsome, hnone⟩ := score?_of_compute hs h l
  constructor
  · rintro ⟨best, hbest, hle⟩
    obtain ⟨-, hgreatest⟩ := hsome best hbest
    obtain ⟨b, hb, t, ht, e, f, c, he, hf, hlt, hrt, hcosine, rfl⟩ := hgreatest.1
    have hc : c.isDefined = true := by
      by_contra hc
      rw [if_neg hc] at hle
      exact absurd hle (Single.not_le_neg_infinity hmin)
    rw [if_pos hc] at hle
    exact ⟨t, ht, b, hb, e, f, c, he, hf, hlt, hrt, hcosine, hle⟩
  · rintro ⟨t, ht, b, hb, e, f, c, he, hf, hlt, hrt, hcosine, hle⟩
    have hpair : s.Pairs bindings right l c :=
      ⟨b, hb, t, ht, e, f, c, he, hf, hlt, hrt, hcosine,
        (if_pos (Single.isDefined_right hle)).symm⟩
    cases hscore : r.left.score? l with
    | none => exact absurd hpair (hnone hscore hl c)
    | some best => exact ⟨best, rfl, Single.le_trans hle ((hsome best hscore).2.2 hpair)⟩

/-- The same on the right. -/
theorem reached_iff (hs : s.Made) (hmin : 0 < minScore)
    (h : compute s bindings left right = .ok r) {o : Nat} (ho : o ∈ right.members) :
    (∃ best, r.right.score? o = some best ∧ minScore ≤ best) ↔
      ∃ l ∈ left.members, s.Serves bindings minScore l o := by
  refine (reaches_iff hs hmin (compute_flip h) ho).trans ?_
  simp only [Snapshot.serves_flip_iff]

end RelationScores

/-- What relates to the right are the entities on the left that serve some entity there. -/
theorem Executor.mem_of_relate {x : Executor} (hs : x.snapshot.Made) (hmin : 0 < minScore)
    {res : StepResult} (h : x.relate bindings minScore left right = .ok res) (l : Nat) :
    l ∈ res.set.members ↔ l ∈ left.members ∧
      ∃ t ∈ right.members, x.snapshot.Serves bindings minScore l t := by
  rw [relate_eq] at h
  obtain ⟨r, hr, rfl⟩ := ok_of_map h
  rw [set_arrow, mem_related]
  constructor
  · rintro ⟨best, hbest, hle⟩
    have hl := ((RelationScores.score?_of_compute hs hr l).1 best hbest).1
    exact ⟨hl, (RelationScores.reaches_iff hs hmin hr hl).1 ⟨best, hbest, hle⟩⟩
  · rintro ⟨hl, hserves⟩
    exact (RelationScores.reaches_iff hs hmin hr hl).2 hserves

/-! ## Gaps of an arrow -/

namespace Analysis

/-- The support of an entity is too low exactly if it has no score that is good enough. -/
theorem positivePart_lt_iff (hmin : 0 < minScore) {score? : Option Single}
    (hdefined : ∀ best, score? = some best → best.isDefined = true) :
    Quantity.positivePart (score?.getD 0) < minScore ↔
      ¬ ∃ best, score? = some best ∧ minScore ≤ best := by
  cases score? with
  | none => exact iff_of_true hmin (by simp)
  | some best =>
      have hbest := hdefined best rfl
      have hmind : minScore.isDefined = true := ((Single.lt_iff_position _ _).1 hmin).2.1
      have hexists : (∃ b, some best = some b ∧ minScore ≤ b) ↔ minScore ≤ best := by simp
      rw [hexists, Option.getD_some, Quantity.positivePart]
      split
      · exact ⟨fun hlt hle => Single.not_lt_of_le hle hlt, fun hle =>
          by_contra fun hlt => hle (Single.le_of_not_lt hbest hmind hlt)⟩
      · rename_i hpos
        exact iff_of_true hmin fun hle => hpos (Single.lt_of_lt_of_le hmin hle)

variable {r : RelationScores}

theorem ordinals_unserved (s : Snapshot) (minScore : Single) (r : RelationScores)
    (hright : s.Holds right) :
    (unserved s minScore r right).map Missing.ordinal = right.members.filter fun o =>
      decide (Quantity.positivePart ((r.right.score? o).getD 0) < minScore) := by
  unfold unserved
  dsimp only
  rw [List.map_filterMap, ← List.filterMap_eq_filter]
  refine List.filterMap_congr fun o ho => ?_
  have hentity : s.entity? o = some _ := Array.getElem?_eq_getElem (hright o ho)
  by_cases hlt : Quantity.positivePart ((r.right.score? o).getD 0) < minScore
  · rw [if_pos hlt, hentity, Option.guard, if_pos (decide_eq_true hlt)]
    rfl
  · rw [if_neg hlt, Option.guard, if_neg (by simpa using hlt)]
    rfl

theorem entity_of_mem_unserved {m : Missing} (h : m ∈ unserved s minScore r right) :
    s.entity? m.ordinal = some m.entity := by
  obtain ⟨o, -, h⟩ := List.mem_filterMap.1 h
  dsimp only at h
  split at h
  · obtain ⟨e, he, rfl⟩ := Option.map_eq_some_iff.1 h
    exact he
  · cases h

/-- What is unserved are the entities on the right that none on the left serves. -/
theorem mem_unserved_iff (hs : s.Made) (hmin : 0 < minScore) (hright : s.Holds right)
    (h : RelationScores.compute s bindings left right = .ok r) (o : Nat) :
    o ∈ (unserved s minScore r right).map Missing.ordinal ↔
      o ∈ right.members ∧ ¬ ∃ l ∈ left.members, s.Serves bindings minScore l o := by
  rw [ordinals_unserved s minScore r hright, List.mem_filter, decide_eq_true_eq]
  refine and_congr_right fun ho => ?_
  have hdefined : ∀ best, r.right.score? o = some best → best.isDefined = true := by
    intro best hbest
    have hgreatest := ((RelationScores.score?_of_compute hs (RelationScores.compute_flip h) o).1
      best hbest).2
    exact Single.isDefined_left (hgreatest.2 hgreatest.1)
  rw [positivePart_lt_iff hmin hdefined, RelationScores.reached_iff hs hmin h ho]

end Analysis

/-! ## Analyses -/

theorem Arrow.resolved_of_sides {x : Executor} {config : EngineConfig} {relate : Relating}
    {a : Arrow} {m m' : Memory} {sides : Sides}
    (h : a.sides x config relate m = .ok (sides, m')) :
    ∀ b ∈ sides.bindings, b.Resolved x.snapshot := by
  obtain ⟨l, m₁, -, h⟩ := run_of_bind h
  obtain ⟨r, m₂, -, h⟩ := run_of_bind h
  obtain ⟨bindings, hbindings, h⟩ := run_of_lift_bind h
  cases h
  exact RelationBinding.resolved_of_bindings (ok_of_mapError hbindings)

/-- Only an arrow has a plan that relates at its root. -/
theorem Plan.relatesAtRoot_of_root {s : Snapshot} {config : EngineConfig} {q : Query}
    {limit : Option Nat} {p : Plan} (hq : q.Printable) (hplan : ofQuery s config q limit = .ok p)
    {op : Operation} (hroot : p.root? >>= p.operation? = some op)
    (hrelates : op.action.relates = true) :
    q.relatesAtRoot s config.compiler.pushdownSelectivity = true := by
  by_contra hno
  rw [Bool.not_eq_true] at hno
  obtain ⟨root, d, -, hlower, -⟩ := lower_of_ofQuery hplan
  obtain ⟨op', hop', hout, haction⟩ := Query.unrelating_root hq hno hlower
  obtain ⟨o, ho, rfl⟩ := operation?_root hplan hlower hop' hout
  cases hroot.symm.trans ho
  rw [show op.action.relates = false from haction] at hrelates
  cases hrelates

/-- What a plan yields that relates two sides at its root is what the arrow makes of them. -/
theorem Executor.root_of_relating {x : Executor} {p : Plan} {limit : Option Nat} {b : Execution}
    (hplan : (p.operations.map (·.output)).Nodup) (hrun : x.run p limit = .ok b) {op : Operation}
    (hroot : p.root? >>= p.operation? = some op) (haction : op.action = .relate bindings minScore)
    (hleft : input b.bindings.value? op 0 = .ok left)
    (hright : input b.bindings.value? op 1 = .ok right) :
    ∃ res, x.relate bindings minScore left right = .ok res ∧
      p.root? >>= b.bindings.value? = some res.set := by
  obtain ⟨v, hv, hop⟩ := Option.bind_eq_some_iff.1 hroot
  have hout : op.output = v := by simpa using List.find?_some hop
  obtain ⟨res, hstep, hset⟩ := (solves_of_run hplan hrun).1 op (List.mem_of_find?_eq_some hop)
  unfold step at hstep
  rw [haction] at hstep
  dsimp only at hstep
  rw [hleft, hright] at hstep
  refine ⟨res, hstep, ?_⟩
  rw [hv, ← hout]
  exact hset

/-- What an arrow at the root of a plan found, the entities on both of its sides, and those that it
leaves unserved. -/
structure Analysis.Unserved (s : Snapshot) (bindings : List RelationBinding) (minScore : Single)
    (left right found : ScoredSet Single) (ms : List Missing) : Prop where
  kind : ∀ m ∈ ms, m.kind = "unserved"
  entity : ∀ m ∈ ms, s.entity? m.ordinal = some m.entity
  distinct : (ms.map Missing.ordinal).Nodup
  gap_iff : ∀ o, o ∈ ms.map Missing.ordinal ↔
    o ∈ right.members ∧ ¬ ∃ l ∈ left.members, s.Serves bindings minScore l o
  found_iff : ∀ l, l ∈ found.members ↔
    l ∈ left.members ∧ ∃ o ∈ right.members, s.Serves bindings minScore l o
  /-- Nothing is found exactly if everything on the right is a gap. -/
  empty_iff : found.isEmpty = true ↔ ∀ o ∈ right.members, o ∈ ms.map Missing.ordinal

theorem Analysis.unserved_of_relate {x : Executor} {r : RelationScores} {res : StepResult}
    (hs : x.snapshot.Made) (hmin : 0 < minScore) (hright : x.snapshot.Holds right)
    (hrelate : x.relate bindings minScore left right = .ok res)
    (hscores : RelationScores.compute x.snapshot bindings left right = .ok r) :
    Unserved x.snapshot bindings minScore left right res.set
      ((unserved x.snapshot minScore r right).mergeSort Missing.before) := by
  have hperm := List.mergeSort_perm (unserved x.snapshot minScore r right) Missing.before
  have hordinals := hperm.map Missing.ordinal
  have hgap (o : Nat) : o ∈ ((unserved x.snapshot minScore r right).mergeSort
      Missing.before).map Missing.ordinal ↔ o ∈ right.members ∧
        ¬ ∃ l ∈ left.members, x.snapshot.Serves bindings minScore l o := by
    rw [hordinals.mem_iff, mem_unserved_iff hs hmin hright hscores]
  have hfound := Executor.mem_of_relate hs hmin hrelate
  constructor
  case kind => exact fun m hm => kind_of_mem_unserved (hperm.subset hm)
  case entity => exact fun m hm => entity_of_mem_unserved (hperm.subset hm)
  case distinct =>
    rw [hordinals.nodup_iff, ordinals_unserved _ _ _ hright]
    exact right.nodup_members.filter _
  case gap_iff => exact hgap
  case found_iff => exact hfound
  case empty_iff =>
    rw [ScoredSet.isEmpty_iff, List.eq_nil_iff_forall_not_mem]
    simp only [hfound, hgap]
    constructor
    · intro hnone o ho
      refine ⟨ho, ?_⟩
      rintro ⟨l, hl, hserves⟩
      exact hnone l ⟨hl, o, ho, hserves⟩
    · rintro hall l ⟨hl, o, ho, hserves⟩
      exact (hall o ho).2 ⟨l, hl, hserves⟩

namespace Engine

variable {e : Engine} {text : String} {options : QueryOptions} {p : Plan} {x : Execution}

/-- **Gaps of an arrow.** If the root of a query's plan relates two sides, then it does so by
resolved bindings and the score that is configured, and the gaps are the entities on the right that
no entity on the left serves with that score.  The arrow finds the entities on the left that serve
some entity, so it finds nothing exactly if everything on the right is a gap. -/
theorem analyze_unserved (hs : e.store.current.Made) {r : AnalysisReport}
    (hrun : e.run e.store.current text options = .ok (p, x)) {op : Operation}
    (hroot : p.root? >>= p.operation? = some op) (hrelates : op.action.relates = true)
    (hmin : 0 < e.config.executor.relationMinScore) (h : e.analyze text options = .ok r) :
    ∃ bindings left right found ms,
      op.action = .relate bindings e.config.executor.relationMinScore ∧
      (∀ b ∈ bindings, b.Resolved e.store.current) ∧
      Executor.input x.bindings.value? op 0 = .ok left ∧
      Executor.input x.bindings.value? op 1 = .ok right ∧
      p.root? >>= x.bindings.value? = some found ∧
      Analysis.Unserved e.store.current bindings e.config.executor.relationMinScore left right found
        ms ∧
      r.gaps = atMost options.limit (ms.map Analysis.Missing.gap) := by
  obtain ⟨q, hparse, hplan, hexecution⟩ := plan_of_run hrun
  have hq := printable_of_parse hparse
  have hnumbered := Plan.numbered_of_ofQuery hplan
  have hyes := Plan.relatesAtRoot_of_root hq hplan hroot hrelates
  let S := Setting.lenient (e.executor e.store.current) e.config
    e.config.compiler.pushdownSelectivity
  obtain ⟨a, sides, m, op', -, hsides, hroot', haction, hleft, hright⟩ :=
    S.root_of_relating trivial hq hplan hexecution hyes
  cases hroot.symm.trans hroot'
  obtain ⟨res, hrelate, hfound⟩ :=
    Executor.root_of_relating hnumbered.nodup hexecution hroot haction hleft hright
  obtain ⟨w, -, hw⟩ := Executor.value?_of_input hright
  have hholds : e.store.current.Holds sides.right :=
    Executor.holds_of_run (x := e.executor e.store.current) hs hnumbered
      (Plan.fitting_of_ofQuery hplan).2 hexecution hw
  obtain ⟨⟨p', x'⟩, hrun', hr⟩ := ok_of_bind h
  cases hrun.symm.trans hrun'
  obtain ⟨ms, hms, hr⟩ := ok_of_bind (ok_of_mapError hr)
  rw [Analysis.missing_of_relating hroot haction hleft hright] at hms
  obtain ⟨scores, hscores, rfl⟩ := ok_of_map hms
  cases hr
  refine ⟨sides.bindings, sides.left, sides.right, res.set, _, haction,
    Arrow.resolved_of_sides hsides, hleft, hright, hfound,
    Analysis.unserved_of_relate (x := e.executor e.store.current) hs hmin hholds hrelate hscores, ?_⟩
  rw [Analysis.shownLimit_of_ofQuery hplan]
  rfl

/-- With `lint` alone on the left the job that `deps` serves is a gap, and nothing but that. -/
theorem analyze_unserved_lint :
    let e := Engine.new ((Store.empty {}).replace servedJobs) {}
    let text := "command(\"lint\") -> job(\"*\")"
    ∃ p x op r bindings left right found ms, e.store.current.Made ∧
      e.run e.store.current text {} = .ok (p, x) ∧
      p.root? >>= p.operation? = some op ∧ op.action.relates = true ∧
      0 < e.config.executor.relationMinScore ∧ e.analyze text {} = .ok r ∧
      Analysis.Unserved e.store.current bindings e.config.executor.relationMinScore left right found
        ms ∧
      r.gaps = ms.map Analysis.Missing.gap ∧ r.gaps.length = 1 := by
  intro e text
  have hmade : e.store.current.Made := by
    dsimp only [e, Engine.new, Store.replace]
    exact made_servedJobs
  have hran : (e.run e.store.current text {}).toOption.map (fun ran =>
      (ran.1.root? >>= ran.1.operation?).map (·.action.relates)) = some (some true) := by
    decide +kernel
  have hanalyze : (e.analyze text {}).toOption.map (·.gaps.length) = some 1 := by decide +kernel
  have hmin : 0 < e.config.executor.relationMinScore := by decide +kernel
  obtain ⟨⟨p, x⟩, hrun, hrelates⟩ := Option.map_eq_some_iff.1 hran
  obtain ⟨r, hr, hlength⟩ := Option.map_eq_some_iff.1 hanalyze
  obtain ⟨op, hroot, hrelates⟩ := Option.map_eq_some_iff.1 hrelates
  have hrun := ok_of_toOption hrun
  have hr := ok_of_toOption hr
  obtain ⟨bindings, left, right, found, ms, -, -, -, -, -, hunserved, hgaps⟩ :=
    analyze_unserved hmade hrun hroot hrelates hmin hr
  exact ⟨p, x, op, r, bindings, left, right, found, ms, hmade, hrun, hroot, hrelates, hmin, hr,
    hunserved, hgaps, hlength⟩

end Engine

end VectorQuery
