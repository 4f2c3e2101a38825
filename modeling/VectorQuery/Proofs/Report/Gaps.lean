/-
# What a query leaves out

If the root of a plan relates nothing, an analysis sets the entities found against all entities of
the plan's types.  The entities found are of these types, so they and the gaps make up the whole.
Gaps are listed by severity before support, but a gap with less support is never less severe, so
the list ascends by support (`Engine.analyze_gaps`).
-/
import VectorQuery.Proofs.Meaning.Types
import VectorQuery.Proofs.Number.Order
import VectorQuery.Proofs.Number.Ratio
import VectorQuery.Proofs.Number.Zero
import VectorQuery.Proofs.Report.Pushdown

namespace VectorQuery

/-! ## Support -/

namespace Single

variable {a b : Single}

/-- The number is defined and has no sign. -/
structure Nonneg (a : Single) : Prop where
  isDefined : a.isDefined = true
  not_negative : ¬ a.isNegative = true

theorem nonneg_zero : (0 : Single).Nonneg := ⟨by decide, by decide⟩

/-- Numbers without a sign are in the order of their places, and only equal ones share a place. -/
theorem Nonneg.place_lt_iff (ha : a.Nonneg) (hb : b.Nonneg) :
    a.place.toNat < b.place.toNat ↔ a < b := by
  obtain ⟨hplace, hposition⟩ := place_of_not_negative ha.not_negative
  obtain ⟨hplace', hposition'⟩ := place_of_not_negative hb.not_negative
  rw [lt_iff_position, hplace, hplace', hposition, hposition', and_iff_right ha.isDefined,
    and_iff_right hb.isDefined]
  omega

theorem Nonneg.eq_of_place (ha : a.Nonneg) (hb : b.Nonneg) (h : a.place.toNat = b.place.toNat) :
    a = b := by
  obtain ⟨hplace, -⟩ := place_of_not_negative ha.not_negative
  obtain ⟨hplace', -⟩ := place_of_not_negative hb.not_negative
  have hbits : a.bits = b.bits := UInt32.toNat_inj.1 (by omega)
  exact congrArg Single.mk hbits

/-- What is greater than a number without a sign has none either. -/
theorem Nonneg.of_lt (ha : a.Nonneg) (h : a < b) : b.Nonneg := by
  obtain ⟨-, hb, hlt⟩ := (lt_iff_position a b).1 h
  refine ⟨hb, fun hneg => ?_⟩
  obtain ⟨-, hposition⟩ := place_of_not_negative ha.not_negative
  obtain ⟨-, hposition'⟩ := place_of_negative hneg
  have hlow := (isNegative_iff b).1 hneg
  omega

theorem Nonneg.greater (ha : a.Nonneg) (b : Single) : (Quantity.greater a b).Nonneg := by
  unfold Quantity.greater
  have hdefined : Quantity.isDefined a = true := by
    rw [isDefined_eq]
    exact ha.isDefined
  rw [hdefined, Bool.not_true, Bool.false_or]
  split
  · rename_i hlt
    exact ha.of_lt (of_decide_eq_true hlt)
  · exact ha

/-- The greatest of some numbers and zero has no sign, whether all of them are defined or not. -/
theorem nonneg_foldl_greater (cs : List Single) : (cs.foldl Quantity.greater 0).Nonneg :=
  List.foldlRecOn cs _ nonneg_zero fun _ ha c _ => ha.greater c

end Single

namespace Severity

/-- A gap with less support is no less severe. -/
theorem level_antitone {a b : Single} (h : a ≤ b) :
    (ofSupport b (1 : Single)).level ≤ (ofSupport a (1 : Single)).level := by
  have hone : (Quantity.zero : Single) < 1 := by decide
  have hratio (c : Single) (hc : c.isDefined = true) : c / 1 = c := Single.div_one hc
  -- what lies below a quarter of the threshold with more support lies below it with less
  have hquarter (n : Nat) (hlt : b < Quantity.ofNat n / Quantity.ofNat 4) :
      a < Quantity.ofNat n / Quantity.ofNat 4 := Single.lt_of_le_of_lt h hlt
  have h₁ := hquarter 1
  have h₂ := hquarter 2
  have h₃ := hquarter 3
  unfold ofSupport
  rw [if_pos hone, if_pos hone, hratio a (Single.isDefined_left h),
    hratio b (Single.isDefined_right h)]
  dsimp only
  grind [level]

theorem level_injective {a b : Severity} (h : a.level = b.level) : a = b := by
  cases a <;> cases b <;> first | rfl | cases h

end Severity

namespace Analysis

variable {s : Snapshot} {types : List String} {found : ScoredSet Single}

/-! ## The order of gaps -/

namespace Missing

variable {m m' : Missing}

/-- The more severe first, then the one with less support, then by ordinal. -/
theorem before_iff : m.before m' = true ↔ m'.severity.level < m.severity.level ∨
    m.severity.level = m'.severity.level ∧ (m.best.place.toNat < m'.best.place.toNat ∨
      m.best.place.toNat = m'.best.place.toNat ∧ m.ordinal ≤ m'.ordinal) := by
  unfold before
  by_cases hlevel : m.severity = m'.severity
  · rw [if_neg (not_not.2 hlevel), hlevel, Single.rankedBy_place]
    rcases lt_trichotomy m.best.place.toNat m'.best.place.toNat with hlt | heq | hgt
    · rw [compare_lt_iff_lt.2 hlt]
      simp [hlt]
    · rw [compare_eq_iff_eq.2 heq]
      simp [heq]
    · rw [compare_gt_iff_gt.2 hgt]
      simp only [Bool.false_eq_true, false_iff]
      omega
  · have hne : m.severity.level ≠ m'.severity.level := fun h => hlevel (Severity.level_injective h)
    rw [if_pos hlevel, decide_eq_true_eq]
    omega

theorem pairwise_before (ms : List Missing) :
    (ms.mergeSort before).Pairwise fun m m' => m.before m' = true := by
  refine List.pairwise_mergeSort (fun a b c hab hbc => ?_) (fun a b => ?_) ms
  · rw [before_iff] at *
    omega
  · rw [Bool.or_eq_true, before_iff, before_iff]
    omega

/-- The entity lacks a match: it is measured against the whole of the score, and has a defined
support without a sign. -/
structure Unmatched (s : Snapshot) (m : Missing) : Prop where
  entity : s.entity? m.ordinal = some m.entity
  threshold : m.threshold = 1
  best : m.best.Nonneg

/-- Support and ordinal alone decide the order, since the more severe has less support. -/
theorem ascends (hm : m.Unmatched s) (hm' : m'.Unmatched s) (hne : m.ordinal ≠ m'.ordinal)
    (h : m.before m' = true) :
    m.best < m'.best ∨ m.best = m'.best ∧ m.ordinal < m'.ordinal := by
  rw [before_iff] at h
  rcases h with hsevere | ⟨-, hless | ⟨heq, hle⟩⟩
  · refine .inl ?_
    by_contra hnot
    have hle := Single.le_of_not_lt hm.best.isDefined hm'.best.isDefined hnot
    have hlevel := Severity.level_antitone hle
    unfold severity at hsevere
    rw [hm.threshold, hm'.threshold] at hsevere
    omega
  · exact .inl ((hm.best.place_lt_iff hm'.best).1 hless)
  · exact .inr ⟨hm.best.eq_of_place hm'.best heq, by omega⟩

end Missing

theorem mem_unmatched {m : Missing} (h : m ∈ unmatched s types found) : m.Unmatched s := by
  obtain ⟨o, -, hm⟩ := List.mem_filterMap.1 h
  obtain ⟨e, he, rfl⟩ := Option.map_eq_some_iff.1 hm
  exact ⟨he, rfl, Single.nonneg_foldl_greater _⟩

/-- What is missing are the entities of the types that are not found. -/
theorem ordinals_unmatched (s : Snapshot) (types : List String) (found : ScoredSet Single) :
    (unmatched s types found).map Missing.ordinal =
      (s.ordinals types).filter fun o => !found.contains o := by
  unfold unmatched
  dsimp only
  rw [List.map_filterMap]
  refine (List.filterMap_congr fun o ho => ?_).trans List.filterMap_some
  have hlt : o < s.size := (Snapshot.mem_ordinals.1 (List.mem_filter.1 ho).1).1
  have hentity : s.entity? o = some _ := Array.getElem?_eq_getElem hlt
  rw [hentity]
  rfl

/-- What is found and what is missing make up the whole. -/
theorem size_add_length_unmatched (hfound : ∀ o ∈ found.members, o ∈ s.ordinals types) :
    found.size + (unmatched s types found).length = (s.ordinals types).length := by
  have hinside : ((s.ordinals types).filter found.contains).Perm found.members := by
    refine (List.perm_ext_iff_of_nodup ((s.nodup_ordinals types).filter _) found.nodup_members).2
      fun o => ?_
    rw [List.mem_filter, ScoredSet.contains_iff]
    exact and_iff_right_of_imp (hfound o)
  have hsplit := List.length_eq_length_filter_add (l := s.ordinals types) found.contains
  rw [hsplit, hinside.length_eq, found.length_members, ← List.length_map (f := Missing.ordinal),
    ordinals_unmatched]

/-! ## Opportunities -/

section

variable (config : ExecutorConfig) (ms : List Missing)

/-- There is one opportunity for each missing entity. -/
theorem opportunities_perm :
    (opportunities config ms).Perm (ms.map fun m => (m.ordinal, m.opportunity config)) :=
  rankedBy_perm ..

theorem effort_pos (m : Missing) : 0 < (m.opportunity config).effort := by
  unfold Missing.opportunity
  dsimp only
  cases h : (m.entity.number? config.effortField).filter (0 < ·) with
  | none => decide
  | some effort => exact of_decide_eq_true (Option.filter_eq_some_iff.1 h).2

end

/-! ## Figures -/

/-- The counts among the figures of an answer. -/
theorem get?_counts (scores : List Single) (total gaps : Nat) :
    (metrics scores total gaps).get? "result_count" = some (Double.ofNat scores.length) ∧
      (metrics scores total gaps).get? "universe_size" = some (Double.ofNat total) ∧
      (metrics scores total gaps).get? "gap_count" = some (Double.ofNat gaps) := by
  have heq (a b : String) : compare a b = .eq ↔ a = b := Std.LawfulEqOrd.compare_eq_iff_eq
  obtain ⟨ratio, mean, least, greatest, hfigures⟩ : ∃ ratio mean least greatest : Double,
      metrics scores total gaps = .ofList [("result_count", Double.ofNat scores.length),
        ("universe_size", Double.ofNat total), ("coverage_ratio", ratio), ("mean_score", mean),
        ("min_score", least), ("max_score", greatest), ("gap_count", Double.ofNat gaps)] := by
    cases scores <;> exact ⟨_, _, _, _, rfl⟩
  rw [hfigures, OrderedMap.ofList]
  simp [OrderedMap.get?_insert, heq]

/-! ## Analyses -/

/-- What an analysis makes of the entities found, those missing, and what closing the gaps would
bring, in the order in which it lists them. -/
structure Divides (s : Snapshot) (config : ExecutorConfig) (types : List String)
    (found : ScoredSet Single) (ms : List Missing) (chances : List (Nat × Opportunity)) : Prop where
  within : ∀ o ∈ found.members, o ∈ s.ordinals types
  missing : ∀ o, o ∈ ms.map Missing.ordinal ↔ o ∈ s.ordinals types ∧ o ∉ found.members
  distinct : (ms.map Missing.ordinal).Nodup
  whole : found.size + ms.length = (s.ordinals types).length
  entity : ∀ m ∈ ms, s.entity? m.ordinal = some m.entity
  /-- Gaps ascend by support, and by ordinal where that is equal. -/
  ascending : ms.Pairwise fun m m' =>
    m.best < m'.best ∨ m.best = m'.best ∧ m.ordinal < m'.ordinal
  severe : ms.Pairwise fun m m' => m'.severity.level ≤ m.severity.level
  /-- There is one opportunity for each gap. -/
  closes : chances.Perm (ms.map fun m => (m.ordinal, m.opportunity config))
  /-- Opportunities descend by their return, and ascend by ordinal where that is equal. -/
  descending : chances.Pairwise fun c c' => Quantity.rank c'.2.roi c.2.roi = .lt ∨
    c.2.roi = c'.2.roi ∧ c.1 < c'.1
  effort : ∀ c ∈ chances, 0 < c.2.effort

theorem ascending_unmatched {ms : List Missing} (hms : ∀ m ∈ ms, m.Unmatched s)
    (hdistinct : (ms.map Missing.ordinal).Nodup)
    (hsorted : ms.Pairwise fun m m' => m.before m' = true) :
    ms.Pairwise fun m m' => m.best < m'.best ∨ m.best = m'.best ∧ m.ordinal < m'.ordinal :=
  (hsorted.and (List.pairwise_map.1 hdistinct)).imp_of_mem fun hm hm' ⟨hbefore, hne⟩ =>
    Missing.ascends (hms _ hm) (hms _ hm') hne hbefore

/-- Opportunities of different entities are listed in one order. -/
theorem descending_opportunities {config : ExecutorConfig} {ms : List Missing}
    (hdistinct : (ms.map Missing.ordinal).Nodup) :
    (opportunities config ms).Pairwise fun c c' => Quantity.rank c'.2.roi c.2.roi = .lt ∨
      c.2.roi = c'.2.roi ∧ c.1 < c'.1 := by
  have hordinals : ((opportunities config ms).map Prod.fst).Nodup := by
    refine ((opportunities_perm config ms).map Prod.fst).nodup_iff.2 ?_
    rw [List.map_map]
    exact hdistinct
  have hranked : (opportunities config ms).Pairwise fun c c' =>
      ranksBefore c.2.roi c.1 c'.2.roi c'.1 = true := Double.rankedBy_place.pairwise ..
  refine (hranked.and (List.pairwise_map.1 hordinals)).imp fun ⟨hbefore, hne⟩ => ?_
  rcases Double.rankedBy_place.ranksBefore_iff.1 hbefore with hlt | ⟨heq, hle⟩
  · rw [Double.rankedBy_place, compare_lt_iff_lt]
    exact .inl hlt
  · exact .inr ⟨Double.eq_of_place_eq heq, Nat.lt_of_le_of_ne hle hne⟩

theorem divides_unmatched (config : ExecutorConfig)
    (hfound : ∀ o ∈ found.members, o ∈ s.ordinals types) :
    Divides s config types found ((unmatched s types found).mergeSort Missing.before)
      (opportunities config ((unmatched s types found).mergeSort Missing.before)) := by
  have hperm := List.mergeSort_perm (unmatched s types found) Missing.before
  have hsorted := Missing.pairwise_before (unmatched s types found)
  generalize (unmatched s types found).mergeSort Missing.before = ms at hperm hsorted ⊢
  have hordinals := hperm.map Missing.ordinal
  rw [ordinals_unmatched] at hordinals
  have hdistinct : (ms.map Missing.ordinal).Nodup :=
    hordinals.nodup_iff.2 ((s.nodup_ordinals types).filter _)
  have hunmatched : ∀ m ∈ ms, m.Unmatched s := fun m hm => mem_unmatched (hperm.subset hm)
  have hopportunities := opportunities_perm config ms
  constructor
  case within => exact hfound
  case missing =>
    intro o
    rw [hordinals.mem_iff, List.mem_filter, Bool.not_eq_true', ← Bool.not_eq_true, ScoredSet.contains_iff]
  case distinct => exact hdistinct
  case whole => rw [hperm.length_eq, size_add_length_unmatched hfound]
  case entity => exact fun m hm => (hunmatched m hm).entity
  case ascending => exact ascending_unmatched hunmatched hdistinct hsorted
  case severe =>
    refine hsorted.imp fun hbefore => ?_
    rw [Missing.before_iff] at hbefore
    omega
  case closes => exact hopportunities
  case descending => exact descending_opportunities hdistinct
  case effort =>
    intro c hc
    obtain ⟨m, -, rfl⟩ := List.mem_map.1 (hopportunities.subset hc)
    exact effort_pos config m

theorem missing_of_root {p : Plan} {x : Execution}
    (h : ∀ op, p.root? >>= p.operation? = some op → op.action.relates = false)
    (found : ScoredSet Single) : missing s p x found = .ok (unmatched s p.types found) := by
  cases hroot : p.root? >>= p.operation? with
  | some op => exact missing_of_unrelating hroot (h op hroot) found
  | none =>
      unfold missing
      rw [hroot]

end Analysis

namespace Engine

variable {e : Engine} {text : String} {options : QueryOptions} {p : Plan} {x : Execution}

/-- **Gaps.** If the root of a query's plan relates nothing, then all entities found are of the
plan's types, and the entities of these types that are not found are the gaps.  Gaps are listed in
the order of their support, opportunities in that of their returns, and a limit cuts both lists
only after everything has been counted. -/
theorem analyze_gaps (hs : e.store.current.Made) {r : AnalysisReport}
    (hrun : e.run e.store.current text options = .ok (p, x))
    (hroot : ∀ op, p.root? >>= p.operation? = some op → op.action.relates = false)
    (h : e.analyze text options = .ok r) :
    ∃ found ms chances, p.root? >>= x.bindings.value? = some found ∧
      Analysis.Divides e.store.current e.config.executor p.types found ms chances ∧
      r.gaps = atMost options.limit (ms.map Analysis.Missing.gap) ∧
      r.opportunities = atMost options.limit (chances.map Prod.snd) ∧
      r.metrics.get? "result_count" = some (Double.ofNat found.size) ∧
      r.metrics.get? "universe_size" =
        some (Double.ofNat (e.store.current.ordinals p.types).length) ∧
      r.metrics.get? "gap_count" = some (Double.ofNat ms.length) := by
  obtain ⟨q, hq, hplan, hexecution⟩ := plan_of_run hrun
  obtain ⟨a, m, heval, -, htypes, hfound⟩ :=
    (Setting.lenient (e.executor e.store.current) e.config
      e.config.compiler.pushdownSelectivity).found_of_run trivial (printable_of_parse hq) hplan
      hexecution
  have htyped : a.Typed e.store.current :=
    typed_evaluate (x := e.executor e.store.current) e.config hs
      (Executor.relatingPredictable_narrows _) heval
  have hwithin : ∀ o ∈ a.set.members, o ∈ e.store.current.ordinals p.types := by
    intro o ho
    rw [htypes, Snapshot.mem_ordinals_names hs]
    exact htyped o ho
  obtain ⟨⟨p', x'⟩, hrun', hr⟩ := ok_of_bind h
  cases hrun.symm.trans hrun'
  obtain ⟨ms, hms, hr⟩ := ok_of_bind (ok_of_mapError hr)
  rw [Analysis.missing_of_root hroot] at hms
  cases hms
  cases hr
  rw [hfound, Analysis.shownLimit_of_ofQuery hplan]
  refine ⟨a.set, _, _, rfl, Analysis.divides_unmatched _ hwithin, ?_⟩
  have hsize : (a.set.toList.map (·.score)).length = a.set.size :=
    (List.length_map _).trans (List.length_map _)
  rw [← hsize, ← List.length_map (f := Analysis.Missing.gap)]
  exact ⟨rfl, rfl, Analysis.get?_counts ..⟩

theorem made_servedJobs : servedJobs.Made := Snapshot.made_getD ..

theorem analyze_gaps_served :
    let e := Engine.new ((Store.empty {}).replace servedJobs) {}
    let text := "command(\"deps\") OR job(\"ship\")"
    ∃ p x r found ms chances, e.store.current.Made ∧
      e.run e.store.current text {} = .ok (p, x) ∧
      (∀ op, p.root? >>= p.operation? = some op → op.action.relates = false) ∧
      e.analyze text {} = .ok r ∧
      Analysis.Divides e.store.current e.config.executor p.types found ms chances ∧
      found.size = 2 ∧ ms.length = 2 ∧ r.gaps = ms.map Analysis.Missing.gap := by
  intro e text
  have hmade : e.store.current.Made := by
    dsimp only [e, Engine.new, Store.replace]
    exact made_servedJobs
  have hran : (e.run e.store.current text {}).toOption.map (fun ran =>
      ((ran.1.root? >>= ran.1.operation?).map (·.action.relates),
        (ran.1.root? >>= ran.2.bindings.value?).map (·.size),
        (e.store.current.ordinals ran.1.types).length)) = some (some false, some 2, 4) := by
    decide +kernel
  have hanalyze : (e.analyze text {}).toOption.isSome = true := by decide +kernel
  obtain ⟨⟨p, x⟩, hrun, hp⟩ := Option.map_eq_some_iff.1 hran
  obtain ⟨r, hr⟩ := Option.isSome_iff_exists.1 hanalyze
  obtain ⟨hroot, hp⟩ := Prod.mk.inj hp
  obtain ⟨hsize, htotal⟩ := Prod.mk.inj hp
  dsimp only at hroot hsize htotal
  have hrun := ok_of_toOption hrun
  have hr := ok_of_toOption hr
  have hno : ∀ op, p.root? >>= p.operation? = some op → op.action.relates = false := by
    intro op hop
    rw [hop] at hroot
    exact Option.some.inj hroot
  obtain ⟨found, ms, chances, hfound, hdivides, hgaps, -⟩ := analyze_gaps hmade hrun hno hr
  rw [hfound] at hsize
  have hcount : found.size = 2 := Option.some.inj hsize
  have hlength : ms.length = 2 := by
    have hwhole := hdivides.whole
    omega
  exact ⟨p, x, r, found, ms, chances, hmade, hrun, hno, hr, hdivides, hcount, hlength, hgaps⟩

example : (servedJobs.ordinals []).isEmpty = false := by
  decide +kernel

end Engine

end VectorQuery
