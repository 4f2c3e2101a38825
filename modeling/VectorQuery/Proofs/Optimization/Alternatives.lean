/-
# Alternatives do not beat an exact selection

What is said of a candidate that was not selected is so, in exact arithmetic: that it fits beside the
selection, or in whose place it would fit (`Alternative.judge_fair`).  Either way the result is
another selection within the budgets, so none of them gains anything on a best one
(`Optimization.alternatives_of_exact`).
-/
import VectorQuery.Proofs.Optimization.Exactness

namespace VectorQuery

open scoped Rational

variable {budgets : List (Budget ℚ)}

namespace Candidate

variable {c p : Candidate ℚ} {s t cs others : List (Candidate ℚ)}

/-- The candidate fits the budgets in the place of one that is selected. -/
def Replaces (budgets : List (Budget ℚ)) (selected : List (Candidate ℚ)) (c p : Candidate ℚ) : Prop :=
  ∃ others, selected.Perm (p :: others) ∧ Keep budgets (c :: others)

theorem keep_cons_iff (hc : c.Weighs budgets) (cs : List (Candidate ℚ)) :
    Keep budgets (c :: cs) ↔ c.fits budgets (used budgets cs) = true := by
  have hperm : (cs ++ [c]).Perm (c :: cs) := List.perm_append_singleton c cs
  exact ⟨fun h => fits_of_keep_concat hc (keep_perm hperm h),
    fun h => keep_perm hperm.symm (keep_concat hc h)⟩

/-- What is used without a selected candidate is what the others use. -/
theorem used_without (hp : p.Weighs budgets) (h : s.Perm (p :: others)) :
    List.zipWith (· - ·) (used budgets s) p.weights = used budgets others := by
  rw [used_perm (h.trans (List.perm_append_singleton p others).symm), used_concat hp,
    zipWith_sub_add (by rw [length_used, hp])]

theorem replaces_iff (hc : c.Weighs budgets) (hp : p.Weighs budgets) (hmem : p ∈ s) :
    c.Replaces budgets s p ↔
      c.fits budgets (List.zipWith (· - ·) (used budgets s) p.weights) = true := by
  constructor
  · rintro ⟨others, hperm, hkeep⟩
    rw [used_without hp hperm]
    exact (keep_cons_iff hc others).1 hkeep
  · intro hfits
    obtain ⟨before, after, rfl⟩ := List.append_of_mem hmem
    have hperm : (before ++ p :: after).Perm (p :: (before ++ after)) := List.perm_middle
    rw [used_without hp hperm] at hfits
    exact ⟨before ++ after, hperm, (keep_cons_iff hc _).2 hfits⟩

theorem Replaces.mem (h : c.Replaces budgets s p) : p ∈ s := by
  obtain ⟨others, hperm, -⟩ := h
  exact hperm.symm.subset List.mem_cons_self

theorem replaces_perm (h : s.Perm t) : c.Replaces budgets s p ↔ c.Replaces budgets t p := by
  unfold Replaces
  exact exists_congr fun others => and_congr_left fun _ =>
    ⟨h.symm.trans, h.trans⟩

end Candidate

open Candidate

/-! ## What is said of a candidate -/

namespace Alternative

variable {a : Alternative ℚ} {c p : Candidate ℚ} {s t cs picked : List (Candidate ℚ)}

/-- What the alternative says of its candidate is so, and it does not add to the objective: the
candidate fits beside the selection; it does not, but fits in the place of a selected candidate, of
those the one that it gains the most on; or it fits in no way. -/
def Fair (budgets : List (Budget ℚ)) (selected : List (Candidate ℚ)) (a : Alternative ℚ) : Prop :=
  match a.tradeOff with
  | .alongside gain =>
    Keep budgets (a.candidate :: selected) ∧ gain = a.candidate.score ∧ gain ≤ 0
  | .swap p change =>
    ¬ Keep budgets (a.candidate :: selected) ∧ a.candidate.Replaces budgets selected p ∧
      change = a.candidate.score - p.score ∧
      (∀ q, a.candidate.Replaces budgets selected q → a.candidate.score - q.score ≤ change) ∧
      change ≤ 0
  | .unfit =>
    ¬ Keep budgets (a.candidate :: selected) ∧ ∀ p, ¬ a.candidate.Replaces budgets selected p

theorem Fair.of_perm (h : s.Perm t) (hfair : a.Fair budgets s) : a.Fair budgets t := by
  have hkeep : Keep budgets (a.candidate :: s) ↔ Keep budgets (a.candidate :: t) :=
    ⟨keep_perm (h.symm.cons _), keep_perm (h.cons _)⟩
  unfold Fair at *
  simp only [hkeep, replaces_perm h] at hfair
  exact hfair

theorem mem_swaps_iff (hc : c.Weighs budgets) (hpicked : ∀ p ∈ picked, p.Weighs budgets)
    {change : ℚ} : (p, change) ∈ swaps budgets (used budgets picked) picked c ↔
      c.Replaces budgets picked p ∧ change = c.score - p.score := by
  unfold swaps
  rw [List.mem_map]
  constructor
  · rintro ⟨q, hq, heq⟩
    obtain ⟨hq, hfits⟩ := List.mem_filter.1 hq
    cases heq
    exact ⟨(replaces_iff hc (hpicked p hq) hq).2 hfits, rfl⟩
  · rintro ⟨hreplaces, rfl⟩
    have hp : p ∈ picked := hreplaces.mem
    exact ⟨p, List.mem_filter.2 ⟨hp, (replaces_iff hc (hpicked p hp) hp).1 hreplaces⟩, rfl⟩

/-- The trade-off of a candidate is as it is said, where no such trade-off adds to the objective. -/
theorem judge_fair (hc : c.Weighs budgets) (hpicked : ∀ p ∈ picked, p.Weighs budgets)
    (hbeside : Keep budgets (c :: picked) → c.score ≤ 0)
    (hplace : ∀ p, c.Replaces budgets picked p → c.score ≤ p.score) :
    Fair budgets picked ⟨c, judge budgets (used budgets picked) picked c⟩ := by
  unfold judge
  split
  · rename_i hfits
    have hkeep : Keep budgets (c :: picked) := (keep_cons_iff hc picked).2 hfits
    exact ⟨hkeep, rfl, hbeside hkeep⟩
  · rename_i hfits
    have hkeep : ¬ Keep budgets (c :: picked) := mt (keep_cons_iff hc picked).1 hfits
    split
    · rename_i p change hhead
      obtain ⟨hreplaces, rfl⟩ := (mem_swaps_iff hc hpicked).1 (mem_of_rankedBy_head? hhead)
      refine ⟨hkeep, hreplaces, rfl, fun q hq => ?_, sub_nonpos.2 (hplace p hreplaces)⟩
      have hswap : (q, c.score - q.score) ∈ swaps budgets (used budgets picked) picked c :=
        (mem_swaps_iff hc hpicked).2 ⟨hq, rfl⟩
      exact (Rational.rankedBy_id.place_le_of_head? hhead hswap :)
    · rename_i hhead
      refine ⟨hkeep, fun p hp => ?_⟩
      have hnone := rankedBy_eq_nil_iff.1 (List.head?_eq_none_iff.1 hhead)
      have hswap := (mem_swaps_iff hc hpicked).2 ⟨hp, rfl⟩
      rw [hnone] at hswap
      cases hswap

/-! ### The list of alternatives -/

/-- The candidates that were not selected. -/
def left (picked cs : List (Candidate ℚ)) : List (Candidate ℚ) :=
  cs.filter fun c => c.ordinal ∉ picked.map (·.ordinal)

theorem left_perm (h : s.Perm t) (cs : List (Candidate ℚ)) : left s cs = left t cs := by
  unfold left
  simp only [(h.map _).mem_iff]

theorem list_eq (most : Nat) (budgets : List (Budget ℚ)) (picked cs : List (Candidate ℚ)) :
    list most budgets picked cs = ((ranked (left picked cs)).take most).map fun c =>
      ⟨c, judge budgets (used budgets picked) picked c⟩ := by
  have hleft : (cs.filter fun c => picked.all (·.ordinal ≠ c.ordinal)) = left picked cs := by
    refine List.filter_congr fun c _ => ?_
    rw [Bool.eq_iff_iff, List.all_eq_true, decide_eq_true_eq]
    simp only [decide_eq_true_eq, List.mem_map, not_exists, not_and]
  unfold list
  rw [hleft]

theorem candidates_list (most : Nat) (budgets : List (Budget ℚ)) (picked cs : List (Candidate ℚ)) :
    (list most budgets picked cs).map candidate = (ranked (left picked cs)).take most := by
  rw [list_eq, List.map_map]
  exact List.map_id _

theorem pairwise_ranked (cs : List (Candidate ℚ)) : (ranked cs).Pairwise fun a b =>
    b.score < a.score ∨ a.score = b.score ∧ a.ordinal ≤ b.ordinal :=
  (Rational.rankedBy_id.pairwise score ordinal cs).imp Rational.rankedBy_id.ranksBefore_iff.1

end Alternative

/-! ## Other selections within the budgets -/

namespace Exact

variable {c p : Candidate ℚ} {cs : List (Candidate ℚ)}

/-- Candidates of an exact search within budgets: each has its weights, which are not negative, one
of them fits alone, and their selections are told apart. -/
structure Searchable (budgets : List (Budget ℚ)) (cs : List (Candidate ℚ)) : Prop where
  weighs : ∀ c ∈ cs, c.Weighs budgets
  nonneg : ∀ c ∈ cs, c.NonnegWeights
  fits : ∃ c ∈ cs, c.fitsAlone budgets = true
  separated : Separated cs

namespace Searchable

theorem finds (h : Searchable budgets cs) (hgain : ∃ c ∈ cs, 0 < c.score) :
    Finds budgets cs [] (ranked (gainful cs)) [] (solve budgets cs) := by
  obtain ⟨c, hc, hfits⟩ := h.fits
  have hnone : Keep budgets [] := keep_of_sublist (List.nil_sublist [c])
    (List.forall_mem_singleton.2 (h.nonneg c hc)) (keep_of_fitsAlone (h.weighs c hc) hfits)
  exact finds_solve h.weighs h.nonneg hgain hnone h.separated

/-- The search loses to no selection within the budgets. -/
theorem total_le (h : Searchable budgets cs) (hgain : ∃ c ∈ cs, 0 < c.score)
    {t : List (Candidate ℚ)} (ht : t.Subperm cs) (hkeep : Keep budgets t) :
    total t ≤ total (solve budgets cs) := by
  obtain ⟨t', hperm, hsub⟩ := ht
  rw [← total_perm hperm]
  obtain ⟨u, hscore, -, hmore | ⟨hsame, -⟩⟩ :=
    (h.finds hgain).covers_gainful h.nonneg hsub (keep_perm hperm hkeep)
  · exact hscore.trans hmore.le
  · exact hscore.trans hsame.le

theorem score_nonpos_of_keep (h : Searchable budgets cs) (hc : c ∈ cs)
    (hleft : c ∉ solve budgets cs) (hkeep : Keep budgets (c :: solve budgets cs)) : c.score ≤ 0 := by
  by_cases hgain : ∃ c ∈ cs, 0 < c.score
  · have hsub : (c :: solve budgets cs).Subperm cs :=
      List.cons_subperm_of_not_mem_of_mem hleft hc (h.finds hgain).subperm
    have hle := h.total_le hgain hsub hkeep
    rw [total_cons] at hle
    linarith
  · exact not_lt.1 fun hpos => hgain ⟨c, hc, hpos⟩

theorem score_le_of_replaces (h : Searchable budgets cs) (hc : c ∈ cs)
    (hleft : c ∉ solve budgets cs) (hreplaces : c.Replaces budgets (solve budgets cs) p) :
    c.score ≤ p.score := by
  obtain ⟨others, hperm, hkeep⟩ := hreplaces
  by_cases hgain : ∃ c ∈ cs, 0 < c.score
  · have hothers : others.Subperm (solve budgets cs) :=
      (List.sublist_cons_self p others).subperm.trans hperm.symm.subperm
    have hsub : (c :: others).Subperm cs :=
      List.cons_subperm_of_not_mem_of_mem (fun hmem => hleft (hothers.subset hmem)) hc
        (hothers.trans (h.finds hgain).subperm)
    have hle := h.total_le hgain hsub hkeep
    rw [total_perm hperm, total_cons, total_cons] at hle
    linarith
  · -- the best one that fits is all that is selected, and the other one fits as well
    have hnone : gainful cs = [] := List.filter_eq_nil_iff.2 fun c hc hpos =>
      hgain ⟨c, hc, of_decide_eq_true hpos⟩
    rw [solve_of_not_gainful hnone] at hperm
    cases hbest : best? (cs.filter (·.fitsAlone budgets)) with
    | none =>
        rw [hbest] at hperm
        cases hperm.nil_eq
    | some best =>
        rw [hbest] at hperm
        cases List.singleton_perm.1 hperm
        have hfits := (keep_cons_iff (h.weighs c hc) []).1 hkeep
        rw [used_nil] at hfits
        exact Rational.rankedBy_id.place_le_of_head? hbest (List.mem_filter.2 ⟨hc, hfits⟩)

end Searchable

end Exact

/-! ## The answer to a request -/

/-- No alternative adds to an exact selection. -/
theorem Exact.Searchable.fair {cs : List (Candidate ℚ)} (h : Searchable budgets cs) {most : Nat}
    {a : Alternative ℚ} (ha : a ∈ Alternative.list most budgets (solve budgets cs) cs) :
    a.Fair budgets (solve budgets cs) := by
  rw [Alternative.list_eq] at ha
  obtain ⟨c, hc, rfl⟩ := List.mem_map.1 ha
  obtain ⟨hc, hordinal⟩ := List.mem_filter.1 (ranked_subset _ (List.mem_of_mem_take hc))
  have hleft : c ∉ solve budgets cs := fun hmem =>
    of_decide_eq_true hordinal (List.mem_map_of_mem hmem)
  exact Alternative.judge_fair (h.weighs c hc) (fun p hp => h.weighs p (subset_solve cs hp))
    (h.score_nonpos_of_keep hc hleft) fun p => h.score_le_of_replaces hc hleft

namespace Optimization

variable {exactThreshold maxAlternatives : Nat} {r : OptimizationRequest ℚ}
  {pool : List (Nat × Entity ℚ)}

/-- The alternatives to the exact selection of a request that is met as it is are the best
candidates that were not selected, and none of them adds to the objective. -/
theorem alternatives_of_exact
    (h : (solve exactThreshold maxAlternatives r pool).feasible = true)
    (hexact : (solve exactThreshold maxAlternatives r pool).solver = .exact)
    (hnonneg : ∀ c ∈ (solve exactThreshold maxAlternatives r pool).considered, c.NonnegWeights)
    (hseparated : Separated (solve exactThreshold maxAlternatives r pool).considered) :
    let o := solve exactThreshold maxAlternatives r pool
    (∃ rest : List (Candidate ℚ),
      rest.Perm (o.considered.filter fun c => c.ordinal ∉ o.selected.map (·.ordinal)) ∧
      rest.Pairwise (fun a b => b.score < a.score ∨ a.score = b.score ∧ a.ordinal ≤ b.ordinal) ∧
      o.alternatives.map (·.candidate) = rest.take maxAlternatives) ∧
    ∀ a ∈ o.alternatives, a.Fair r.budgets o.selected := by
  obtain ⟨all, hreads, hsolve, hkept, hany⟩ := met_of_feasible h
  obtain ⟨hselected, hsolver⟩ := select_eq exactThreshold maxAlternatives r all
  rw [hsolve, hsolver, hkept] at hexact
  rw [hkept, select_of_exact hexact] at hselected
  rw [hsolve, considered_eq] at hnonneg hseparated
  rw [hsolve] at h
  have hsearch : Exact.Searchable r.budgets (considerable r all) :=
    { weighs := fun c hc => hreads.weighs c (considerable_subset hc)
      nonneg := hnonneg
      fits := List.any_eq_true.1 hany
      separated := hseparated }
  dsimp only
  rw [hsolve, considered_eq, hselected, alternatives_eq, if_pos h, hkept, select_of_exact hexact]
  generalize considerable r all = cs at hsearch
  have hperm := ranked_perm (Exact.solve r.budgets cs)
  refine ⟨⟨ranked (Alternative.left (Exact.solve r.budgets cs) cs), ?_,
    Alternative.pairwise_ranked _, Alternative.candidates_list _ _ _ _⟩,
    fun a ha => (hsearch.fair ha).of_perm hperm.symm⟩
  rw [← Alternative.left_perm hperm]
  exact ranked_perm _

/-- One feature within an effort of 5, and another one that would lose coverage in its place. -/
def exchange : List (Nat × Entity ℚ) := [(0, feature "cache" 3 3), (1, feature "refund" (-1) 4)]

theorem alternatives_of_exact_exchange :
    let o := solve 20 3 (coverageWithin 5) exchange
    o.feasible = true ∧ o.solver = .exact ∧ (∀ c ∈ o.considered, c.NonnegWeights) ∧
      Separated o.considered ∧ o.alternatives.map (·.candidate.ordinal) = [1] ∧
      (∃ rest : List (Candidate ℚ),
        rest.Perm (o.considered.filter fun c => c.ordinal ∉ o.selected.map (·.ordinal)) ∧
        rest.Pairwise (fun a b => b.score < a.score ∨ a.score = b.score ∧ a.ordinal ≤ b.ordinal) ∧
        o.alternatives.map (·.candidate) = rest.take 3) ∧
      ∀ a ∈ o.alternatives, a.Fair (coverageWithin 5).budgets o.selected := by
  have hfeasible : (solve 20 3 (coverageWithin 5) exchange).feasible = true := by decide +kernel
  have hexact : (solve 20 3 (coverageWithin 5) exchange).solver = .exact := by decide +kernel
  have hnonneg : ∀ c ∈ (solve 20 3 (coverageWithin 5) exchange).considered, c.NonnegWeights := by
    unfold NonnegWeights
    decide
  have hseparated : Separated (solve 20 3 (coverageWithin 5) exchange).considered := by
    decide +kernel
  exact ⟨hfeasible, hexact, hnonneg, hseparated, by decide +kernel,
    alternatives_of_exact hfeasible hexact hnonneg hseparated⟩

end Optimization

end VectorQuery
