/-
# Selections keep their budgets

In exact arithmetic both solvers only ever take up a candidate that fits on top of those taken up
before, so whatever they select keeps every budget (`Exact.keeps_solve`, `Greedy.keeps_solve`).  A
request that is met without a warning is answered within the budgets it asked for.

The one exception is a selection of nothing.  It uses zero of each budget, and a budget may not
allow zero; the exact search starts from it and gives it back when no candidate that adds to the
objective fits.
-/
import Mathlib.Data.List.Basic
import Mathlib.Tactic.Linarith
import VectorQuery.Proofs.Number.Rational
import VectorQuery.Proofs.Optimization.Relaxation

namespace VectorQuery

open scoped Rational

variable {budgets : List (Budget ℚ)}

namespace Candidate

/-- The candidate has a weight in each budget. -/
def Weighs (budgets : List (Budget ℚ)) (c : Candidate ℚ) : Prop := c.weights.length = budgets.length

/-- Each budget allows what the candidates use of it. -/
def Keep (budgets : List (Budget ℚ)) (cs : List (Candidate ℚ)) : Prop :=
  ∀ e ∈ budgets.zip (used budgets cs), e.1.admits e.2 = true

/-- The candidates are none or keep the budgets. -/
def NoneOrKeep (budgets : List (Budget ℚ)) (cs : List (Candidate ℚ)) : Prop :=
  cs = [] ∨ Keep budgets cs

theorem used_nil : used budgets [] = Budget.unused budgets := by
  refine List.ext_getElem? fun j => ?_
  unfold used Budget.unused
  rw [List.getElem?_map, List.getElem?_map]
  rcases Nat.lt_or_ge j budgets.length with hj | hj
  · rw [List.getElem?_range hj, List.getElem?_eq_getElem hj]
    rfl
  · rw [List.getElem?_eq_none hj, List.getElem?_eq_none (by simpa using hj)]
    rfl

/-- What one more candidate makes of what is used. -/
theorem used_concat {c : Candidate ℚ} (hc : c.Weighs budgets) (cs : List (Candidate ℚ)) :
    used budgets (cs ++ [c]) = List.zipWith (· + ·) (used budgets cs) c.weights := by
  refine List.ext_getElem? fun j => ?_
  rw [List.getElem?_zipWith]
  unfold used
  rw [List.getElem?_map, List.getElem?_map]
  rcases Nat.lt_or_ge j budgets.length with hj | hj
  · obtain ⟨w, hw⟩ : ∃ w, c.weights[j]? = some w :=
      ⟨_, List.getElem?_eq_getElem (Nat.lt_of_lt_of_eq hj hc.symm)⟩
    have hone : [c].filterMap (·.weights[j]?) = [w] := by
      rw [List.filterMap_cons, hw]
      rfl
    rw [List.getElem?_range hj, hw, Option.map_some, List.filterMap_append, hone,
      Rational.sum_concat]
    rfl
  · rw [List.getElem?_eq_none (by simpa using hj)]
    rfl

/-- Leaving a candidate out again undoes taking it up. -/
theorem zipWith_sub_add {used weights : List ℚ} (h : used.length = weights.length) :
    List.zipWith (· - ·) (List.zipWith (· + ·) used weights) weights = used := by
  induction used generalizing weights with
  | nil => rfl
  | cons u used ih =>
      cases weights with
      | nil => cases h
      | cons w weights =>
          rw [List.zipWith_cons_cons, List.zipWith_cons_cons, ih (Nat.succ.inj h)]
          exact congrArg (· :: used) (add_sub_cancel_right u w)

theorem fits_eq (used weights : List ℚ) :
    Budget.fits budgets used weights =
      (budgets.zip (List.zipWith (· + ·) used weights)).all fun e => e.1.admits e.2 := by
  unfold Budget.fits
  induction budgets generalizing used weights with
  | nil => rfl
  | cons b budgets ih =>
      cases used with
      | nil => rfl
      | cons u used =>
          cases weights with
          | nil => rfl
          | cons w weights =>
              rw [List.zipWith_cons_cons, List.zip_cons_cons, List.zip_cons_cons, List.zip_cons_cons,
                List.all_cons, List.all_cons, ih]

/-- A candidate that fits may be taken up. -/
theorem keep_concat {c : Candidate ℚ} {cs : List (Candidate ℚ)} (hc : c.Weighs budgets)
    (h : c.fits budgets (used budgets cs) = true) : Keep budgets (cs ++ [c]) := by
  intro e he
  rw [used_concat hc] at he
  unfold fits at h
  rw [fits_eq] at h
  exact List.all_eq_true.1 h e he

theorem keep_of_fitsAlone {c : Candidate ℚ} (hc : c.Weighs budgets)
    (h : c.fitsAlone budgets = true) : Keep budgets [c] := by
  change Keep budgets ([] ++ [c])
  refine keep_concat hc ?_
  rw [used_nil]
  exact h

end Candidate

open Candidate

/-! ## The exact search -/

namespace Exact

/-- The search hands on what is used, and its best selection is nothing or keeps the budgets. -/
theorem keeps_explore {rest : List (Candidate ℚ × ℚ)} {current best : Selection ℚ} {used : List ℚ}
    (hrest : ∀ p ∈ rest, p.1.Weighs budgets) (hused : used = Candidate.used budgets current.picked)
    (hcurrent : NoneOrKeep budgets current.picked) (hbest : NoneOrKeep budgets best.picked) :
    (explore budgets rest current used best).1 = used ∧
      NoneOrKeep budgets (explore budgets rest current used best).2.picked := by
  have horBest : ∀ s t : Selection ℚ, NoneOrKeep budgets s.picked → NoneOrKeep budgets t.picked →
      NoneOrKeep budgets (s.orBest t).picked := by
    intro s t hs ht
    unfold Selection.orBest
    split
    · exact hs
    · exact ht
  induction rest generalizing current used best with
  | nil => exact ⟨rfl, horBest _ _ hcurrent hbest⟩
  | cons p rest ih =>
      obtain ⟨c, potential⟩ := p
      have hc : c.Weighs budgets := hrest _ List.mem_cons_self
      have hrest' : ∀ p ∈ rest, p.1.Weighs budgets :=
        fun p hp => hrest p (List.mem_cons_of_mem _ hp)
      have hbest' := horBest _ _ hcurrent hbest
      rw [explore]
      split
      · exact ⟨rfl, hbest'⟩
      · split
        · rename_i hfits
          have htaken : List.zipWith (· + ·) used c.weights =
              Candidate.used budgets (current.add budgets c).picked := by
            rw [hused]
            exact (used_concat hc _).symm
          have hkeep : NoneOrKeep budgets (current.add budgets c).picked :=
            .inr (keep_concat hc (hused ▸ hfits))
          obtain ⟨hback, hfound⟩ := ih hrest' htaken hkeep hbest'
          have hleft : List.zipWith (· - ·)
              (explore budgets rest (current.add budgets c) (List.zipWith (· + ·) used c.weights)
                (current.orBest best)).1 c.weights = used := by
            rw [hback]
            exact zipWith_sub_add (by rw [hused, length_used, hc])
          obtain ⟨hback', hfound'⟩ := ih hrest' (hleft.trans hused) hcurrent hfound
          exact ⟨hback'.trans hleft, hfound'⟩
        · exact ih hrest' hused hcurrent hbest'

theorem keeps_solve {cs : List (Candidate ℚ)} (hcs : ∀ c ∈ cs, c.Weighs budgets) :
    NoneOrKeep budgets (solve budgets cs) := by
  have hgainful : ∀ c ∈ ranked (gainful cs), c.Weighs budgets := by
    intro c hc
    exact hcs c (List.mem_filter.1 (List.mem_mergeSort.1 hc)).1
  unfold solve
  generalize ranked (gainful cs) = order at hgainful
  cases order with
  | nil =>
      cases hbest : best? (cs.filter (·.fitsAlone budgets)) with
      | none => exact .inl rfl
      | some c =>
          have hc := List.mem_filter.1 (List.mem_mergeSort.1 (List.mem_of_mem_head? hbest))
          exact .inr (keep_of_fitsAlone (hcs c hc.1) hc.2)
  | cons c order =>
      exact (keeps_explore (fun p hp => hgainful _ (mem_withPotential hp)) used_nil.symm
        (.inl rfl) (.inl rfl)).2

end Exact

/-! ## The greedy pass -/

namespace Greedy

theorem keeps_take {cs done : List (Candidate ℚ)} (hcs : ∀ c ∈ cs, c.Weighs budgets)
    (hdone : NoneOrKeep budgets done) :
    NoneOrKeep budgets (done ++ take budgets (Candidate.used budgets done) cs) := by
  induction cs generalizing done with
  | nil =>
      rw [take, List.append_nil]
      exact hdone
  | cons c cs ih =>
      have hcs' : ∀ c ∈ cs, c.Weighs budgets := fun c hc => hcs c (List.mem_cons_of_mem _ hc)
      have hc : c.Weighs budgets := hcs c List.mem_cons_self
      rw [take]
      split
      · rename_i hfits
        have hrest := ih hcs' (.inr (keep_concat hc hfits))
        rw [used_concat hc, List.append_assoc] at hrest
        exact hrest
      · exact ih hcs' hdone

/-- If a candidate fits alone, something is selected, within the budgets. -/
theorem keeps_solve {cs : List (Candidate ℚ)} (hcs : ∀ c ∈ cs, c.Weighs budgets)
    (hfit : cs.any (·.fitsAlone budgets) = true) :
    solve budgets cs ≠ [] ∧ Keep budgets (solve budgets cs) := by
  have horder : ∀ c ∈ order budgets cs, c.Weighs budgets := by
    intro c hc
    exact hcs c (List.mem_filter.1 (List.mem_mergeSort.1 hc)).1
  have hpicked : NoneOrKeep budgets
      ([] ++ take budgets (Candidate.used budgets []) (order budgets cs)) :=
    keeps_take horder (.inl rfl)
  rw [used_nil, List.nil_append] at hpicked
  obtain ⟨a, ha, hfits⟩ := List.any_eq_true.1 hfit
  obtain ⟨single, hsingle⟩ := exists_best (List.mem_filter.2 ⟨ha, hfits⟩)
  have hmem := List.mem_filter.1 (mem_of_best? hsingle)
  unfold solve
  simp only [hsingle]
  split
  · exact ⟨List.cons_ne_nil _ _, keep_of_fitsAlone (hcs single hmem.1) hmem.2⟩
  · rename_i hmore
    rw [Bool.or_eq_true, not_or] at hmore
    have hne : take budgets (Budget.unused budgets) (order budgets cs) ≠ [] := by
      intro hnil
      exact hmore.2 (by rw [hnil]; rfl)
    exact ⟨hne, hpicked.resolve_left hne⟩

end Greedy

/-! ## Requests met as they are -/

/-- In exact arithmetic budgets can be raised to any weight. -/
theorem Rational.regular (w : ℚ) : Budget.Regular w where
  admits_zero_add b := congrArg b.admits (zero_add w)
  raise_admits b := decide_eq_true (le_add_of_nonneg_right Rational.tolerance_pos.le)
  raise_loosens b h := by
    refine ⟨rfl, fun x hx => decide_eq_true ?_⟩
    have hpos := Rational.tolerance_pos
    change x ≤ w + Quantity.tolerance
    unfold Budget.admits at *
    split at h
    · rename_i hstrict
      rw [if_pos hstrict] at hx
      have hw := not_lt.1 (of_decide_eq_false h)
      have hx := of_decide_eq_true hx
      linarith
    · rename_i hstrict
      rw [if_neg hstrict] at hx
      have hw := not_le.1 (of_decide_eq_false h)
      have hx := of_decide_eq_true hx
      linarith

/-! ## The answer to a request -/

namespace OptimizationRequest

variable {r : OptimizationRequest ℚ} {cs : List (Candidate ℚ)}

/-- The weights of the candidates are their numbers in the fields of the budgets. -/
def Reads (r : OptimizationRequest ℚ) (cs : List (Candidate ℚ)) : Prop :=
  ∀ c ∈ cs, r.budgets.map (fun b => c.entity.number? b.field) = c.weights.map some

theorem reads_pool (pool : List (Nat × Entity ℚ)) :
    r.Reads (pool.filterMap fun (ordinal, e) => r.candidate? ordinal e) := by
  intro c hc
  exact numbers_of_candidate? (Optimization.candidate?_of_mem hc).2

theorem Reads.weighs (h : r.Reads cs) : ∀ c ∈ cs, c.Weighs r.budgets := by
  intro c hc
  have hlength := congrArg List.length (h c hc)
  rw [List.length_map, List.length_map] at hlength
  exact hlength.symm

/-- What candidates use of the budgets are the totals of the fields. -/
theorem Reads.used_eq (h : r.Reads cs) : used r.budgets cs =
    r.budgets.map fun b => Quantity.sum (cs.filterMap (·.entity.number? b.field)) := by
  refine List.ext_getElem? fun j => ?_
  unfold used
  rw [List.getElem?_map, List.getElem?_map]
  rcases Nat.lt_or_ge j r.budgets.length with hj | hj
  · rw [List.getElem?_range hj, List.getElem?_eq_getElem hj, Option.map_some, Option.map_some]
    congr 2
    refine List.filterMap_congr fun c hc => ?_
    have hweight := congrArg (·[j]?) (h c hc)
    simp only [List.getElem?_map, List.getElem?_eq_getElem hj, Option.map_some] at hweight
    cases hw : c.weights[j]? with
    | none =>
        rw [hw] at hweight
        cases hweight
    | some w =>
        rw [hw] at hweight
        exact (Option.some.inj hweight).symm
  · rw [List.getElem?_eq_none (by simpa using hj), List.getElem?_eq_none hj]
    rfl

theorem Reads.keep_iff (h : r.Reads cs) : Keep r.budgets cs ↔
    ∀ b ∈ r.budgets, b.admits (Quantity.sum (cs.filterMap (·.entity.number? b.field))) = true := by
  unfold Keep
  rw [h.used_eq, ← List.map_prod_left_eq_zip]
  exact List.forall_mem_map

end OptimizationRequest

namespace Optimization

variable {exactThreshold maxAlternatives : Nat} {r : OptimizationRequest ℚ}

/-- The total of a field over the selection. -/
def total (o : Optimization ℚ) (field : String) : ℚ :=
  Quantity.sum (o.selected.filterMap (·.entity.number? field))

/-- A request that is met as it is keeps its budgets, and some candidate fits them alone. -/
theorem met_of_feasible {pool : List (Nat × Entity ℚ)}
    (h : (solve exactThreshold maxAlternatives r pool).feasible = true) :
    ∃ all, r.Reads all ∧ solve exactThreshold maxAlternatives r pool =
        ofCandidates exactThreshold maxAlternatives r all ∧
      relaxed r (considerable r all) = r.budgets ∧
      (considerable r all).any (·.fitsAlone r.budgets) = true := by
  unfold solve at *
  have hreads := r.reads_pool pool
  generalize (pool.filterMap fun (ordinal, e) => r.candidate? ordinal e) = all at *
  dsimp only at *
  split at h
  · cases h
  rename_i hall
  rw [if_neg hall]
  obtain ⟨hkept, -, hany⟩ := kept_of_feasible (fun hnil => hall (List.isEmpty_iff.2 hnil))
    (fun _ _ w _ => Rational.regular w) h
  exact ⟨all, hreads, rfl, hkept, hany⟩

/-- A request that is met as it is selects among candidates one of which fits its budgets alone. -/
theorem selects_of_feasible {pool : List (Nat × Entity ℚ)}
    (h : (solve exactThreshold maxAlternatives r pool).feasible = true) :
    ∃ cs, r.Reads cs ∧ cs.any (·.fitsAlone r.budgets) = true ∧
      (solve exactThreshold maxAlternatives r pool).considered = cs ∧
      (solve exactThreshold maxAlternatives r pool).selected =
        ranked (select exactThreshold r.budgets cs).1 ∧
      (solve exactThreshold maxAlternatives r pool).solver =
        (select exactThreshold r.budgets cs).2 := by
  obtain ⟨all, hreads, hsolve, hkept, hany⟩ := met_of_feasible h
  obtain ⟨hselected, hsolver⟩ := select_eq exactThreshold maxAlternatives r all
  rw [hkept] at hselected hsolver
  rw [hsolve]
  exact ⟨considerable r all, fun c hc => hreads c (considerable_subset hc), hany, considered_eq,
    hselected, hsolver⟩

/-- A selection within the budgets is within them as it is ranked. -/
theorem admits_ranked {cs : List (Candidate ℚ)} (h : r.Reads cs) (hkeep : Keep r.budgets cs) :
    ∀ b ∈ r.budgets,
      b.admits (Quantity.sum ((ranked cs).filterMap (·.entity.number? b.field))) = true := by
  intro b hb
  rw [Rational.sum_perm ((ranked_perm cs).filterMap _)]
  exact h.keep_iff.1 hkeep b hb

/-- What a request that is met as it is selects within its budgets: the greedy pass always
something, the exact search something or nothing. -/
theorem select_of_fitting (exactThreshold : Nat) {cs : List (Candidate ℚ)} (h : r.Reads cs)
    (hfit : cs.any (·.fitsAlone r.budgets) = true) {b : Budget ℚ} (hb : b ∈ r.budgets) :
    ((select exactThreshold r.budgets cs).2 = .exact ∧
      NoneOrKeep r.budgets (select exactThreshold r.budgets cs).1 ∨
    (select exactThreshold r.budgets cs).2 = .greedy ∧
      (select exactThreshold r.budgets cs).1 ≠ [] ∧
      Keep r.budgets (select exactThreshold r.budgets cs).1) ∧
    r.Reads (select exactThreshold r.budgets cs).1 := by
  have hbudgets : ¬ r.budgets.isEmpty = true := by
    rw [List.isEmpty_iff]
    rintro hnil
    rw [hnil] at hb
    cases hb
  unfold select
  rw [if_neg hbudgets]
  split
  · exact ⟨.inl ⟨rfl, Exact.keeps_solve h.weighs⟩, fun c hc => h c (Exact.subset_solve cs hc)⟩
  · obtain ⟨hne, hkeep⟩ := Greedy.keeps_solve h.weighs hfit
    exact ⟨.inr ⟨rfl, hne, hkeep⟩, fun c hc => h c (Greedy.subset_solve cs hc)⟩

/-- The selection of a request that is met as it is keeps every budget asked for, unless the exact
search selects nothing and a budget does not allow that. -/
theorem admits_total_iff {pool : List (Nat × Entity ℚ)}
    (h : (solve exactThreshold maxAlternatives r pool).feasible = true) :
    (∀ b ∈ r.budgets,
        b.admits ((solve exactThreshold maxAlternatives r pool).total b.field) = true) ↔
      ((solve exactThreshold maxAlternatives r pool).solver = .exact →
        (solve exactThreshold maxAlternatives r pool).selected = [] →
        ∀ b ∈ r.budgets, b.admits 0 = true) := by
  obtain ⟨cs, hreads, hfit, -, hselected, hsolver⟩ := selects_of_feasible h
  unfold total
  rw [hselected, hsolver]
  constructor
  · intro hadmits _ hnone b hb
    have hb := hadmits b hb
    rwa [hnone] at hb
  · intro hzero b hb
    obtain ⟨hkeeps, hreads⟩ := select_of_fitting exactThreshold hreads hfit hb
    rcases hkeeps with ⟨hexact, hnone | hkeep⟩ | ⟨-, -, hkeep⟩
    · have hempty : ranked (select exactThreshold r.budgets cs).1 = [] := by
        rw [hnone]
        exact List.mergeSort_nil
      rw [hempty]
      exact hzero hexact hempty b hb
    · exact admits_ranked hreads hkeep b hb
    · exact admits_ranked hreads hkeep b hb

/-- A feature with its coverage and its effort. -/
def feature (id : String) (coverage effort : ℚ) : Entity ℚ where
  entityType := "feature"
  id := id
  displayName := id
  dense := [1]
  symbolic := []
  metadata := (OrderedMap.empty.insert "coverage" (.number coverage)).insert "effort" (.number effort)

/-- The most coverage for an effort up to a limit. -/
def coverageWithin (limit : ℚ) : OptimizationRequest ℚ :=
  ⟨.maximize, ⟨[⟨"coverage", 1⟩]⟩, [], [⟨"effort", limit, false⟩]⟩

theorem admits_total_coverage :
    let o := solve 20 3 (coverageWithin 5) [(0, feature "cache" 1 4), (1, feature "refund" 0 (-6))]
    o.feasible = true ∧ ∀ b ∈ (coverageWithin 5).budgets, b.admits (o.total b.field) = true := by
  have hfeasible : (solve 20 3 (coverageWithin 5)
      [(0, feature "cache" 1 4), (1, feature "refund" 0 (-6))]).feasible = true := by decide +kernel
  refine ⟨hfeasible, (admits_total_iff hfeasible).2 fun _ hnone => ?_⟩
  have hselected : (solve 20 3 (coverageWithin 5)
      [(0, feature "cache" 1 4), (1, feature "refund" 0 (-6))]).selected.length = 1 := by
    decide +kernel
  rw [hnone] at hselected
  cases hselected

/-- The only candidate that adds to the objective does not fit, and the exact search selects nothing
although the other candidate keeps the budget. -/
theorem exact_selects_nothing :
    let o := solve 20 3 (coverageWithin (-5)) [(0, feature "cache" 1 3), (1, feature "refund" 0 (-6))]
    o.feasible = true ∧ o.considered.length = 2 ∧ o.selected.length = 0 ∧
      ¬ ∀ b ∈ (coverageWithin (-5)).budgets, b.admits (o.total b.field) = true := by
  decide +kernel

end Optimization

end VectorQuery
