/-
# Dominance and the objective

A dimension of the objective is driven in the direction of the first term of its field, while a score
adds up all terms of the field.  In exact arithmetic a candidate that is no worse in any dimension
scores no less than another one exactly if the total weight of every field has the direction of its
dimension.  Then a candidate of the best score is on the frontier (`Optimization.dominance_agrees`).
-/
import Mathlib.Algebra.BigOperators.Group.Finset.Piecewise
import Mathlib.Algebra.BigOperators.Ring.Finset
import Mathlib.Algebra.Order.BigOperators.Group.Finset
import VectorQuery.Proofs.Optimization.Budgets
import VectorQuery.Proofs.Optimization.Frontier

namespace VectorQuery

open scoped Rational

namespace Rational

scoped instance lawfulOrder : Quantity.LawfulOrder ℚ where
  le_trans := le_trans
  lt_of_le_of_lt := lt_of_le_of_lt
  lt_of_lt_of_le := lt_of_lt_of_le
  lt_irrefl := lt_irrefl
  neg_le_neg_iff := neg_le_neg_iff
  neg_lt_neg_iff := neg_lt_neg_iff

end Rational

/-! ## Fields of the dimensions -/

namespace Dimension

variable {d : Dimension} {ds acc : List Dimension}

theorem exists_mem_add (acc : List Dimension) (d : Dimension) :
    ∃ d' ∈ add acc d, d'.field = d.field := by
  unfold add
  split
  · rename_i hany
    obtain ⟨d', hd', hfield⟩ := List.any_eq_true.1 hany
    exact ⟨d', hd', of_decide_eq_true hfield⟩
  · exact ⟨d, List.mem_append_right _ List.mem_cons_self, rfl⟩

theorem subset_add (acc : List Dimension) (d : Dimension) : acc ⊆ add acc d := by
  unfold add
  split
  · exact List.Subset.refl acc
  · exact List.subset_append_left _ _

theorem subset_foldl_add (acc ds : List Dimension) : acc ⊆ ds.foldl add acc := by
  induction ds generalizing acc with
  | nil => exact List.Subset.refl acc
  | cons d ds ih => exact List.Subset.trans (subset_add acc d) (ih (add acc d))

theorem exists_mem_foldl_add (acc : List Dimension) (h : d ∈ ds) :
    ∃ d' ∈ ds.foldl add acc, d'.field = d.field := by
  induction ds generalizing acc with
  | nil => cases h
  | cons d' ds ih =>
      rcases List.mem_cons.1 h with rfl | hd
      · obtain ⟨d', hd', hfield⟩ := exists_mem_add acc d
        exact ⟨d', subset_foldl_add _ ds hd', hfield⟩
      · exact ih (add acc d') hd

theorem nodup_add (h : (acc.map field).Nodup) (d : Dimension) : ((add acc d).map field).Nodup := by
  unfold add
  split
  · exact h
  · rename_i hnone
    rw [List.map_append, List.map_singleton]
    refine List.nodup_append.2 ⟨h, List.nodup_singleton _, ?_⟩
    rintro f hf f' hf' rfl
    obtain ⟨d', hd', rfl⟩ := List.mem_map.1 hf
    exact hnone (List.any_eq_true.2 ⟨d', hd', decide_eq_true (List.mem_singleton.1 hf')⟩)

theorem nodup_foldl_add (h : (acc.map field).Nodup) : ((ds.foldl add acc).map field).Nodup := by
  induction ds generalizing acc with
  | nil => exact h
  | cons d ds ih => exact ih (nodup_add h d)

/-- A field has only one dimension. -/
theorem nodup_ofRequest (r : OptimizationRequest ℚ) : ((ofRequest r).map field).Nodup :=
  nodup_foldl_add List.nodup_nil

/-- The dimension of a field of the objective is that of one of its terms. -/
theorem exists_term {r : OptimizationRequest ℚ} (hd : d ∈ ofRequest r) {t : Term ℚ}
    (ht : t ∈ r.objective.terms) (hfield : t.field = d.field) :
    ∃ t ∈ r.objective.terms, d = ⟨t.field, Quantity.zero ≤ r.direction.orient t.weight⟩ := by
  obtain ⟨d', hd', hfield'⟩ := exists_mem_foldl_add [] (List.mem_map_of_mem (f := fun t : Term ℚ =>
    Dimension.mk t.field (Quantity.zero ≤ r.direction.orient t.weight)) ht)
  have hmem : d' ∈ ofRequest r := by
    unfold ofRequest
    rw [List.foldl_append]
    exact subset_foldl_add _ _ hd'
  obtain rfl := List.inj_on_of_nodup_map (nodup_ofRequest r) hd hmem
    (hfield.symm.trans hfield'.symm)
  rcases mem_foldl_add hd' with hd' | hd'
  · cases hd'
  · obtain ⟨t, ht, heq⟩ := List.mem_map.1 hd'
    exact ⟨t, ht, heq.symm⟩

end Dimension

/-! ## Scores by field -/

theorem sum_filter_cons (t : Term ℚ) (terms : List (Term ℚ)) (f : String) :
    (((t :: terms).filter (·.field = f)).map (·.weight)).sum =
      (if t.field = f then t.weight else 0) +
        ((terms.filter (·.field = f)).map (·.weight)).sum := by
  rw [List.filter_cons]
  split <;> rename_i hf
  · rw [if_pos (of_decide_eq_true hf), List.map_cons, List.sum_cons]
  · rw [if_neg fun heq => hf (decide_eq_true heq), zero_add]

/-- Weighted numbers are added up field by field. -/
theorem sum_terms {terms : List (Term ℚ)} {fields : Finset String}
    (h : ∀ t ∈ terms, t.field ∈ fields) (g : String → ℚ) :
    (terms.map fun t => t.weight * g t.field).sum =
      ∑ f ∈ fields, ((terms.filter (·.field = f)).map (·.weight)).sum * g f := by
  induction terms with
  | nil => simp
  | cons t terms ih =>
      obtain ⟨ht, hterms⟩ := List.forall_mem_cons.1 h
      simp only [sum_filter_cons, add_mul, Finset.sum_add_distrib, ite_mul, zero_mul]
      rw [List.map_cons, List.sum_cons, ih hterms, Finset.sum_ite_eq, if_pos ht]

theorem Objective.value?_eq {o : Objective ℚ} {e : Entity ℚ} {x : ℚ} (h : o.value? e = some x) :
    x = (o.terms.map fun t => t.weight * e.numberOf t.field).sum := by
  rw [value?_eq_foldl h, List.sum_eq_foldl, List.foldl_map]
  rfl

namespace OptimizationRequest

variable {r : OptimizationRequest ℚ} {c x y : Candidate ℚ}

/-- The total weight of a field in the objective, oriented so that more is better. -/
def weight (r : OptimizationRequest ℚ) (field : String) : ℚ :=
  r.direction.orient (Quantity.sum ((r.objective.terms.filter (·.field = field)).map (·.weight)))

/-- The total weight of every field has the direction of its dimension. -/
def Coherent (r : OptimizationRequest ℚ) : Prop :=
  ∀ d ∈ Dimension.ofRequest r, if d.rising then 0 ≤ r.weight d.field else r.weight d.field ≤ 0

/-- The fields of all dimensions. -/
def fields (r : OptimizationRequest ℚ) : Finset String :=
  ((Dimension.ofRequest r).map (·.field)).toFinset

theorem mem_fields_of_term : ∀ t ∈ r.objective.terms, t.field ∈ r.fields := by
  intro t ht
  obtain ⟨d, hd, hfield⟩ := Dimension.exists_mem_foldl_add []
    (List.mem_append_left _ (List.mem_map_of_mem ht))
  exact List.mem_toFinset.2 (List.mem_map.2 ⟨d, hd, hfield⟩)

theorem mem_fields_of_budget : ∀ b ∈ r.budgets, b.field ∈ r.fields := by
  intro b hb
  obtain ⟨d, hd, hfield⟩ := Dimension.exists_mem_foldl_add []
    (List.mem_append_right _ (List.mem_map_of_mem hb))
  exact List.mem_toFinset.2 (List.mem_map.2 ⟨d, hd, hfield⟩)

/-- The score of a candidate is the sum of its numbers by the total weights of their fields. -/
theorem score_eq {ordinal : Nat} {e : Entity ℚ} (h : r.candidate? ordinal e = some c) :
    c.score = ∑ f ∈ r.fields, r.weight f * e.numberOf f := by
  obtain ⟨raw, hraw, h⟩ := Option.bind_eq_some_iff.1 h
  obtain ⟨weights, -, h⟩ := Option.bind_eq_some_iff.1 h
  cases h
  change r.direction.sign * raw = _
  rw [Objective.value?_eq hraw, sum_terms mem_fields_of_term, Finset.mul_sum]
  refine Finset.sum_congr rfl fun f _ => ?_
  unfold weight Direction.orient
  rw [Rational.sum_eq, mul_assoc]

/-- Where the weights are coherent, a candidate that is no worse scores no less. -/
theorem Coherent.score_le (h : r.Coherent) (hx : r.candidate? x.ordinal x.entity = some x)
    (hy : r.candidate? y.ordinal y.entity = some y)
    (hnoWorse : ∀ d ∈ Dimension.ofRequest r, d.NoWorse x.entity y.entity) : y.score ≤ x.score := by
  rw [score_eq hx, score_eq hy]
  refine Finset.sum_le_sum fun f hf => ?_
  obtain ⟨d, hd, rfl⟩ := List.mem_map.1 (List.mem_toFinset.1 hf)
  have hweight := h d hd
  obtain ⟨a, b, ha, hb, hab⟩ := hnoWorse d hd
  unfold Entity.numberOf
  rw [ha, hb]
  split at hab
  · rename_i hrising
    rw [if_pos hrising] at hweight
    exact mul_le_mul_of_nonneg_left hab hweight
  · rename_i hrising
    rw [if_neg hrising] at hweight
    exact mul_le_mul_of_nonpos_left hab hweight

theorem weight_eq (r : OptimizationRequest ℚ) (field : String) : r.weight field =
    ((r.objective.terms.filter (·.field = field)).map (r.direction.orient ·.weight)).sum := by
  unfold weight Direction.orient
  rw [Rational.sum_eq, List.sum_map_mul_left]

/-- The weights are coherent if all terms of a field have the same direction. -/
theorem coherent_of_terms (h : ∀ t ∈ r.objective.terms, ∀ t' ∈ r.objective.terms,
    t.field = t'.field → 0 ≤ r.direction.orient t.weight → 0 ≤ r.direction.orient t'.weight) :
    r.Coherent := by
  intro d hd
  rw [weight_eq]
  by_cases hterm : ∃ t ∈ r.objective.terms, t.field = d.field
  · obtain ⟨t, ht, hfield⟩ := hterm
    obtain ⟨first, hfirst, rfl⟩ := Dimension.exists_term hd ht hfield
    split
    · rename_i hrising
      refine List.sum_nonneg (List.forall_mem_map.2 fun t' ht' => ?_)
      obtain ⟨ht', hfield'⟩ := List.mem_filter.1 ht'
      exact h first hfirst t' ht' (of_decide_eq_true hfield').symm (of_decide_eq_true hrising)
    · rename_i hfalling
      refine (List.sum_le_card_nsmul _ 0 (List.forall_mem_map.2 fun t' ht' => ?_)).trans_eq
        (nsmul_zero _)
      obtain ⟨ht', hfield'⟩ := List.mem_filter.1 ht'
      refine le_of_not_ge fun hrising => hfalling (decide_eq_true ?_)
      exact h t' ht' first hfirst (of_decide_eq_true hfield') hrising
  · -- the field is that of a budget only, and weighs nothing
    have hnone : r.objective.terms.filter (·.field = d.field) = [] :=
      List.filter_eq_nil_iff.2 fun t ht hfield => hterm ⟨t, ht, of_decide_eq_true hfield⟩
    rw [hnone]
    split <;> exact le_refl 0

end OptimizationRequest

/-! ## Candidates that tell a weight -/

namespace Entity

/-- An entity that carries numbers in some fields. -/
def ofNumbers (fields : List String) (g : String → ℚ) : Entity ℚ where
  entityType := "feature"
  id := "numbers"
  displayName := "numbers"
  dense := [1]
  symbolic := []
  metadata := fields.foldr (fun f m => m.insert f (.number (g f))) .empty

theorem number?_ofNumbers {fields : List String} {f : String} (hf : f ∈ fields) (g : String → ℚ) :
    (ofNumbers fields g).number? f = some (g f) := by
  have hget : (fields.foldr (fun f m => m.insert f (.number (g f)))
      (.empty : OrderedMap String (Scalar ℚ))).get? f = some (.number (g f)) := by
    induction fields with
    | nil => cases hf
    | cons f' fields ih =>
        rw [List.foldr_cons, OrderedMap.get?_insert]
        split
        · rename_i heq
          rw [Std.LawfulEqCmp.eq_of_compare heq]
        · rename_i hne
          refine ih ((List.mem_cons.1 hf).resolve_left fun heq => hne ?_)
          rw [heq]
          exact Std.ReflCmp.compare_self
  unfold number?
  change (OrderedMap.get? _ f >>= _) = _
  unfold ofNumbers
  rw [hget]
  rfl

end Entity

namespace OptimizationRequest

variable {r : OptimizationRequest ℚ}

/-- Any numbers in the fields of a request are those of a candidate. -/
theorem exists_candidate (r : OptimizationRequest ℚ) (g : String → ℚ) :
    ∃ c, r.candidate? c.ordinal c.entity = some c ∧
      (∀ d ∈ Dimension.ofRequest r, c.entity.number? d.field = some (g d.field)) ∧
      c.score = ∑ f ∈ r.fields, r.weight f * g f := by
  let e := Entity.ofNumbers ((Dimension.ofRequest r).map (·.field)) g
  have hnumber : ∀ f ∈ r.fields, e.number? f = some (g f) :=
    fun f hf => Entity.number?_ofNumbers (List.mem_toFinset.1 hf) g
  have hcarried : r.CarriedBy e :=
    ⟨fun t ht => ⟨_, hnumber _ (mem_fields_of_term t ht)⟩,
      fun b hb => ⟨_, hnumber _ (mem_fields_of_budget b hb)⟩⟩
  obtain ⟨c, hc⟩ : ∃ c, r.candidate? 0 e = some c := exists_candidate?_iff.2 hcarried
  obtain ⟨hordinal, hentity⟩ := Optimization.ordinal_of_candidate? hc
  refine ⟨c, ?_, fun d hd => ?_, (score_eq hc).trans (Finset.sum_congr rfl fun f hf => ?_)⟩
  · rwa [hordinal, hentity]
  · rw [hentity]
    exact hnumber _ (List.mem_toFinset.2 (List.mem_map_of_mem hd))
  · unfold Entity.numberOf
    rw [hnumber f hf]
    rfl

/-- The weights are coherent if a candidate that is no worse always scores no less. -/
theorem coherent_of_agrees (h : ∀ x y : Candidate ℚ,
    r.candidate? x.ordinal x.entity = some x → r.candidate? y.ordinal y.entity = some y →
    (∀ d ∈ Dimension.ofRequest r, d.NoWorse x.entity y.entity) → y.score ≤ x.score) :
    r.Coherent := by
  intro d hd
  -- a candidate that is better in this dimension only, by one, than another one
  obtain ⟨x, hx, hnumber, hscore⟩ :=
    r.exists_candidate fun f => if f = d.field then if d.rising then 1 else -1 else 0
  obtain ⟨y, hy, hnumber', hscore'⟩ := r.exists_candidate fun _ => 0
  have hle := h x y hx hy fun d' hd' => by
    refine ⟨_, _, hnumber d' hd', hnumber' d' hd', ?_⟩
    by_cases hfield : d'.field = d.field
    · obtain rfl := List.inj_on_of_nodup_map (Dimension.nodup_ofRequest r) hd' hd hfield
      cases d'.rising <;> simp
    · rw [if_neg hfield]
      cases d'.rising <;> simp
  have hmem : d.field ∈ r.fields := List.mem_toFinset.2 (List.mem_map_of_mem hd)
  rw [hscore, hscore'] at hle
  simp only [mul_ite, mul_zero, Finset.sum_const_zero, Finset.sum_ite_eq', if_pos hmem] at hle
  split
  · rename_i hrising
    rwa [if_pos hrising, mul_one] at hle
  · rename_i hrising
    rwa [if_neg hrising, mul_neg_one, le_neg, neg_zero] at hle

end OptimizationRequest

/-! ## The best score -/

namespace Optimization

theorem exists_best_score {cs : List (Candidate ℚ)} (hcs : cs ≠ []) :
    ∃ best ∈ cs, ∀ c ∈ cs, c.score ≤ best.score := by
  obtain ⟨c, hc⟩ := List.exists_mem_of_ne_nil cs hcs
  obtain ⟨best, hbest⟩ := Candidate.exists_best hc
  exact ⟨best, Candidate.mem_of_best? hbest, fun c hc =>
    Rational.rankedBy_id.place_le_of_head? hbest hc⟩

/-- Where something is considered, the dimensions are those of the request. -/
theorem dimensions_eq {exactThreshold maxAlternatives : Nat} {r : OptimizationRequest ℚ}
    {pool : List (Nat × Entity ℚ)}
    (h : (solve exactThreshold maxAlternatives r pool).considered ≠ []) :
    (solve exactThreshold maxAlternatives r pool).dimensions = Dimension.ofRequest r := by
  unfold solve at *
  dsimp only at *
  split at h
  · exact absurd rfl h
  · rename_i hall
    rw [if_neg hall]
    rfl

/-- A candidate that is no worse in any dimension scores no less than another one exactly if the
weights are coherent.  Then a candidate of the best score is on the frontier. -/
theorem dominance_agrees (r : OptimizationRequest ℚ) :
    (r.Coherent ↔ ∀ x y : Candidate ℚ,
      r.candidate? x.ordinal x.entity = some x → r.candidate? y.ordinal y.entity = some y →
      (∀ d ∈ Dimension.ofRequest r, d.NoWorse x.entity y.entity) → y.score ≤ x.score) ∧
    ∀ (exactThreshold maxAlternatives : Nat) (pool : List (Nat × Entity ℚ)),
      let o := solve exactThreshold maxAlternatives r pool
      o.considered ≠ [] → o.dimensions = Dimension.ofRequest r ∧
        (r.Coherent → ∃ best ∈ o.frontier, ∀ c ∈ o.considered, c.score ≤ best.score) := by
  refine ⟨⟨fun h _ _ hx hy => h.score_le hx hy, OptimizationRequest.coherent_of_agrees⟩, ?_⟩
  intro exactThreshold maxAlternatives pool o hne
  have hdimensions := dimensions_eq hne
  refine ⟨hdimensions, fun hcoherent => ?_⟩
  have hclassifies := classifies_solve exactThreshold maxAlternatives r pool
  have hcandidate : ∀ c ∈ o.considered, r.candidate? c.ordinal c.entity = some c := fun c hc =>
    (candidate?_of_mem ((considered_sublist exactThreshold maxAlternatives r pool).subset hc)).2
  obtain ⟨best, hbest, hleast⟩ := exists_best_score hne
  rcases List.mem_append.1 (hclassifies.perm.mem_iff.2 hbest) with hfrontier | hdominated
  · exact ⟨best, hfrontier, hleast⟩
  · -- who dominates a candidate of the best score has the best score too
    obtain ⟨better, hfrontier, hnoWorse, -⟩ := hclassifies.dominator best hdominated
    have hbetter : better ∈ o.considered :=
      hclassifies.perm.subset (List.mem_append_left _ hfrontier)
    rw [hdimensions] at hnoWorse
    have hscore : best.score ≤ better.score :=
      hcoherent.score_le (hcandidate better hbetter) (hcandidate best hbest) hnoWorse
    exact ⟨better, hfrontier, fun c hc => (hleast c hc).trans hscore⟩

/-- Two features that cover something. -/
def coverages : List (Nat × Entity ℚ) := [(0, feature "cache" 1 3), (1, feature "refund" 2 4)]

theorem dominance_agrees_coverage :
    (coverageWithin 5).Coherent ∧
      let o := solve 20 3 (coverageWithin 5) coverages
      o.considered ≠ [] ∧ o.dimensions = [⟨"coverage", true⟩, ⟨"effort", false⟩] ∧
        ∃ best ∈ o.frontier, ∀ c ∈ o.considered, c.score ≤ best.score := by
  have hcoherent : (coverageWithin 5).Coherent := by
    refine OptimizationRequest.coherent_of_terms ?_
    rintro t ht t' ht' -
    rw [List.mem_singleton.1 ht, List.mem_singleton.1 ht']
    exact id
  have hne : (solve 20 3 (coverageWithin 5) coverages).considered ≠ [] := by
    rw [← List.length_pos_iff]
    decide
  obtain ⟨hdimensions, hbest⟩ := (dominance_agrees (coverageWithin 5)).2 20 3 coverages hne
  exact ⟨hcoherent, hne, by rw [hdimensions]; decide +kernel, hbest hcoherent⟩

/-- The most coverage, less twice the coverage. -/
def lessCoverage : OptimizationRequest ℚ :=
  ⟨.maximize, ⟨[⟨"coverage", 1⟩, ⟨"coverage", -2⟩]⟩, [], []⟩

/-- The feature that covers more scores less, and yet dominates the feature of the best score. -/
theorem best_score_dominated :
    let o := solve 20 3 lessCoverage coverages
    o.dimensions = [⟨"coverage", true⟩] ∧ ∃ x ∈ o.considered, ∃ y ∈ o.considered,
      (∀ d ∈ o.dimensions, d.NoWorse x.entity y.entity) ∧ x.score < y.score ∧
        y ∈ o.dominated ∧ ∀ c ∈ o.considered, c.score ≤ y.score := by
  intro o
  have hdimensions : o.dimensions = [⟨"coverage", true⟩] := by decide +kernel
  have hscores : o.considered.map (·.score) = [-1, -2] := by decide +kernel
  have hnumbers : o.considered.map (·.entity.number? "coverage") = [some 1, some 2] := by
    decide
  have hclassifies := classifies_solve 20 3 lessCoverage coverages
  obtain ⟨y, x, hconsidered⟩ : ∃ y x, o.considered = [y, x] :=
    List.length_eq_two.1 (by decide)
  rw [hconsidered] at hscores hnumbers
  simp only [List.map_cons, List.map_nil, List.cons.injEq, and_true] at hscores hnumbers
  have hx : x ∈ o.considered := hconsidered ▸ List.mem_cons_of_mem _ List.mem_cons_self
  have hy : y ∈ o.considered := hconsidered ▸ List.mem_cons_self
  have hdominates : x.entity.Dominates o.dimensions y.entity := by
    rw [hdimensions]
    exact ⟨List.forall_mem_singleton.2 ⟨2, 1, hnumbers.2, hnumbers.1, by decide⟩,
      _, List.mem_cons_self, 2, 1, hnumbers.2, hnumbers.1, by decide⟩
  refine ⟨hdimensions, x, hx, y, hy, hdominates.1, ?_,
    (hclassifies.dominated_iff y hy).2 ⟨x, hx, hdominates⟩, ?_⟩
  · rw [hscores.1, hscores.2]
    decide
  · rw [hconsidered]
    refine List.forall_mem_cons.2 ⟨le_refl _, List.forall_mem_singleton.2 ?_⟩
    rw [hscores.1, hscores.2]
    decide

end Optimization

end VectorQuery
