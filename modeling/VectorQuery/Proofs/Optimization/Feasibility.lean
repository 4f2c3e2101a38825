/-
# When a request is met as it is

On floating point numbers, a request over finite metadata is reported as met exactly if some entity
carries the numbers that it reads, satisfies its filters and fits each of its budgets.  If none does,
the budgets are raised so that they allow what they allowed before and some candidate fits them
(`Optimization.reports_of_finite`).

What this asks of floating point numbers is that a weight is never above the sum of it and the
tolerance, however that sum is rounded (`Double.regular_of_isFinite`).
-/
import VectorQuery.Proofs.Number.Sum
import VectorQuery.Proofs.Number.Value
import VectorQuery.Proofs.Optimization.Relaxation

namespace VectorQuery

/-! ## Budgets of floating point numbers -/

namespace Double

variable {b : Budget Double} {x y w : Double}

theorem admits_of_le (h : x ≤ y) (hy : b.admits y = true) : b.admits x = true := by
  unfold Budget.admits at *
  split at hy
  · rename_i hstrict
    rw [if_pos hstrict]
    exact decide_eq_true (lt_of_le_of_lt h (of_decide_eq_true hy))
  · rename_i hstrict
    rw [if_neg hstrict]
    exact decide_eq_true (le_trans h (of_decide_eq_true hy))

/-- A sum with the tolerance is not less than the other summand. -/
theorem le_add_tolerance (hw : w.isFinite = true) : w ≤ w + Quantity.tolerance :=
  le_add hw (by decide) (by decide)

/-- What a budget allows is not above a number that it does not allow. -/
theorem le_of_admits (hw : w.isDefined = true) (h : b.admits w = false) (hx : b.admits x = true) :
    x ≤ w := by
  unfold Budget.admits at *
  split at h
  · rename_i hstrict
    rw [if_pos hstrict] at hx
    have hx := le_of_lt (of_decide_eq_true hx)
    exact le_trans hx (le_of_not_lt hw (isDefined_of_le hx).2 (of_decide_eq_false h))
  · rename_i hstrict
    rw [if_neg hstrict] at hx
    have hx := of_decide_eq_true hx
    exact le_trans hx (le_of_lt (lt_of_not_le hw (isDefined_of_le hx).2 (of_decide_eq_false h)))

/-- Budgets can be raised to a finite number. -/
theorem regular_of_isFinite (hw : w.isFinite = true) : Budget.Regular w where
  admits_zero_add b := by
    obtain ⟨hdefined, hposition⟩ := position_zero_add hw
    have hdefined' := isDefined_of_isFinite hw
    exact Bool.eq_iff_iff.2 ⟨admits_of_le (le_of_eq_position hdefined' hdefined hposition.symm),
      admits_of_le (le_of_eq_position hdefined hdefined' hposition)⟩
  raise_admits b := decide_eq_true (le_add_tolerance hw)
  raise_loosens b h := by
    refine ⟨rfl, fun x hx => decide_eq_true ?_⟩
    exact le_trans (le_of_admits (isDefined_of_isFinite hw) h hx) (le_add_tolerance hw)

/-! ### The least of some numbers -/

theorem foldl_lesser_le {xs : List Double} (hx : x.isFinite = true)
    (h : ∀ y ∈ xs, y.isFinite = true) : ∀ y ∈ x :: xs, xs.foldl Quantity.lesser x ≤ y := by
  induction xs generalizing x with
  | nil => exact List.forall_mem_singleton.2 (le_refl hx)
  | cons z xs ih =>
      obtain ⟨hz, h⟩ := List.forall_mem_cons.1 h
      obtain ⟨hlex, hlez⟩ := lesser_le hx hz
      have hlesser : (Quantity.lesser x z).isFinite = true := by
        rcases lesser_eq x z with heq | heq
        · rwa [heq]
        · rwa [heq]
      obtain ⟨hleast, hall⟩ := List.forall_mem_cons.1 (ih hlesser h)
      rw [List.foldl_cons]
      exact List.forall_mem_cons.2 ⟨le_trans hleast hlex,
        List.forall_mem_cons.2 ⟨le_trans hleast hlez, hall⟩⟩

theorem least_spec {xs : List Double} (hxs : xs ≠ []) (h : ∀ y ∈ xs, y.isFinite = true) :
    Optimization.least xs ∈ xs ∧ ∀ y ∈ xs, Optimization.least xs ≤ y := by
  have hfilter : xs.filter Quantity.isDefined = xs :=
    List.filter_eq_self.2 fun y hy => decide_eq_true (le_refl (h y hy))
  unfold Optimization.least
  rw [hfilter]
  cases xs with
  | nil => exact absurd rfl hxs
  | cons x xs =>
      obtain ⟨hx, h⟩ := List.forall_mem_cons.1 h
      exact ⟨Optimization.foldl_mem_cons lesser_eq x xs, foldl_lesser_le hx h⟩

end Double

open Candidate

namespace Optimization

variable {exactThreshold maxAlternatives : Nat} {r : OptimizationRequest Double}
  {pool : List (Nat × Entity Double)} {cs : List (Candidate Double)}

/-! ## Finite metadata -/

/-- The numbers of the entities are finite. -/
def FinitePool (pool : List (Nat × Entity Double)) : Prop :=
  ∀ p ∈ pool, ∀ field x, p.2.number? field = some x → x.isFinite = true

/-- The candidates of a request over a pool. -/
def candidates (r : OptimizationRequest Double) (pool : List (Nat × Entity Double)) :
    List (Candidate Double) :=
  pool.filterMap fun (ordinal, e) => r.candidate? ordinal e

theorem solve_of_nil (h : candidates r pool = []) :
    solve exactThreshold maxAlternatives r pool = nothing r :=
  if_pos (List.isEmpty_iff.2 h)

theorem solve_of_ne_nil (h : candidates r pool ≠ []) : solve exactThreshold maxAlternatives r pool =
    ofCandidates exactThreshold maxAlternatives r (candidates r pool) :=
  if_neg (mt List.isEmpty_iff.1 h)

theorem candidates_ne_nil_iff : candidates r pool ≠ [] ↔ ∃ p ∈ pool, r.CarriedBy p.2 := by
  constructor
  · intro h
    obtain ⟨c, hc⟩ := List.exists_mem_of_ne_nil _ h
    obtain ⟨p, hp, hcandidate⟩ := List.mem_filterMap.1 hc
    exact ⟨p, hp, OptimizationRequest.exists_candidate?_iff.1 ⟨c, hcandidate⟩⟩
  · rintro ⟨p, hp, hcarried⟩
    obtain ⟨c, hcandidate⟩ := OptimizationRequest.exists_candidate?_iff.2 hcarried
    exact List.ne_nil_of_mem (List.mem_filterMap.2 ⟨p, hp, hcandidate⟩)

/-- A candidate is an entity of the pool with its numbers. -/
theorem of_mem_candidates {c : Candidate Double} (hc : c ∈ candidates r pool) :
    (c.ordinal, c.entity) ∈ pool ∧ r.CarriedBy c.entity ∧
      r.budgets.map (fun b => c.entity.number? b.field) = c.weights.map some := by
  obtain ⟨hmem, hcandidate⟩ := candidate?_of_mem hc
  exact ⟨hmem, OptimizationRequest.exists_candidate?_iff.1 ⟨c, hcandidate⟩,
    OptimizationRequest.numbers_of_candidate? hcandidate⟩

theorem isFinite_of_mem_weights (hfinite : FinitePool pool) {c : Candidate Double}
    (hc : c ∈ candidates r pool) {w : Double} (hw : w ∈ c.weights) : w.isFinite = true := by
  obtain ⟨hmem, -, hnumbers⟩ := of_mem_candidates hc
  have hsome : some w ∈ r.budgets.map (fun b => c.entity.number? b.field) :=
    hnumbers ▸ List.mem_map_of_mem hw
  obtain ⟨b, -, hb⟩ := List.mem_map.1 hsome
  exact hfinite _ hmem b.field w hb

theorem length_weights {c : Candidate Double} (hc : c ∈ candidates r pool) :
    c.weights.length = r.budgets.length := by
  have hlength := congrArg List.length (of_mem_candidates hc).2.2
  rwa [List.length_map, List.length_map, eq_comm] at hlength

/-- The least weight in the field of a budget is that of a candidate, and not above any other. -/
theorem leastWeight_spec (hfinite : FinitePool pool) (hcs : cs ⊆ candidates r pool) (hne : cs ≠ [])
    {j : Nat} (hj : j < r.budgets.length) : (leastWeight cs j).isFinite = true ∧
      ∀ c ∈ cs, ∀ w, c.weights[j]? = some w → leastWeight cs j ≤ w := by
  have hfinite : ∀ w ∈ cs.filterMap (·.weights[j]?), w.isFinite = true := by
    intro w hw
    obtain ⟨c, hc, hcw⟩ := List.mem_filterMap.1 hw
    exact isFinite_of_mem_weights hfinite (hcs hc) (List.mem_of_getElem? hcw)
  have hsome : cs.filterMap (·.weights[j]?) ≠ [] := by
    obtain ⟨c, hc⟩ := List.exists_mem_of_ne_nil cs hne
    have hjc : j < c.weights.length := (length_weights (hcs hc)).symm ▸ hj
    have hcw : c.weights[j]? = some (c.weights.get ⟨j, hjc⟩) := List.getElem?_eq_getElem hjc
    exact List.ne_nil_of_mem (List.mem_filterMap.2 ⟨c, hc, hcw⟩)
  obtain ⟨hmem, hall⟩ := Double.least_spec hsome hfinite
  exact ⟨hfinite _ hmem, fun c hc w hw => hall w (List.mem_filterMap.2 ⟨c, hc, hw⟩)⟩

/-! ## The report -/

/-- What the answer to a request says of its constraints. -/
structure Reports (r : OptimizationRequest Double) (pool : List (Nat × Entity Double))
    (o : Optimization Double) : Prop where
  /-- The request is met as it is if an entity fits it. -/
  feasible_iff : o.feasible = true ↔
    ∃ p ∈ pool, r.CarriedBy p.2 ∧ r.passes p.2 = true ∧ p.2.Fits r.budgets
  /-- Then the selection is made from such entities under the budgets asked for. -/
  kept : o.feasible = true → o.usage.map (·.1) = r.budgets ∧ ∀ c ∈ o.selected,
    (c.ordinal, c.entity) ∈ pool ∧ r.CarriedBy c.entity ∧ r.passes c.entity = true
  warned : o.feasible = false → o.warnings ≠ []
  /-- Otherwise the budgets allow more, and what some candidate uses. -/
  loosened : (∃ p ∈ pool, r.CarriedBy p.2) →
    List.Forall₂ Budget.Loosens r.budgets (o.usage.map (·.1)) ∧
      ∃ c ∈ o.considered, c.entity.Fits (o.usage.map (·.1))

theorem regular_of_mem_candidates (hfinite : FinitePool pool) {c : Candidate Double}
    (hc : c ∈ candidates r pool) : ∀ w ∈ c.weights, Budget.Regular w :=
  fun _ hw => Double.regular_of_isFinite (isFinite_of_mem_weights hfinite hc hw)

theorem fitsAlone_iff_of_mem (hfinite : FinitePool pool) {c : Candidate Double}
    (hc : c ∈ candidates r pool) : c.fitsAlone r.budgets = true ↔ c.entity.Fits r.budgets :=
  fits_iff (of_mem_candidates hc).2.2 (regular_of_mem_candidates hfinite hc)

/-- Raised budgets read the same fields, so a candidate fits them if each allows its number. -/
theorem fitsAlone_iff_of_loosens (hfinite : FinitePool pool) {c : Candidate Double}
    (hc : c ∈ candidates r pool) {budgets : List (Budget Double)}
    (h : List.Forall₂ Budget.Loosens r.budgets budgets) :
    c.fitsAlone budgets = true ↔ c.entity.Fits budgets := by
  have hfields := congrArg (List.map c.entity.number?) (Budget.fields_of_loosens h)
  rw [List.map_map, List.map_map] at hfields
  exact fits_iff (hfields.trans (of_mem_candidates hc).2.2) (regular_of_mem_candidates hfinite hc)

/-- Each budget that a candidate fits allows the least weight in its field. -/
theorem admits_leastWeight (hfinite : FinitePool pool) (hcs : cs ⊆ candidates r pool)
    {c : Candidate Double} (hc : c ∈ cs) (hfits : c.entity.Fits r.budgets) {j : Nat}
    {b : Budget Double} (hb : r.budgets[j]? = some b) : b.admits (leastWeight cs j) = true := by
  obtain ⟨hj, -⟩ := List.getElem?_eq_some_iff.1 hb
  obtain ⟨-, hleast⟩ := leastWeight_spec hfinite hcs (List.ne_nil_of_mem hc) hj
  obtain ⟨x, hx, hadmits⟩ := hfits b (List.mem_of_getElem? hb)
  have hweight : c.weights[j]? = some x := by
    have hnumbers := congrArg (·[j]?) (of_mem_candidates (hcs hc)).2.2
    simp only [List.getElem?_map, hb, Option.map_some, hx] at hnumbers
    obtain ⟨w, hw, hwx⟩ := Option.map_eq_some_iff.1 hnumbers.symm
    rw [hw, hwx]
  exact Double.admits_of_le (hleast c hc x hweight) hadmits

theorem feasible_iff_fits (hfinite : FinitePool pool) :
    (solve exactThreshold maxAlternatives r pool).feasible = true ↔
      ∃ p ∈ pool, r.CarriedBy p.2 ∧ r.passes p.2 = true ∧ p.2.Fits r.budgets := by
  constructor
  · intro h
    have hall : candidates r pool ≠ [] := by
      -- with no candidate at all there is a warning
      intro hnil
      rw [solve_of_nil hnil] at h
      cases h
    rw [solve_of_ne_nil hall] at h
    obtain ⟨-, hpasses, hany⟩ :=
      kept_of_feasible hall (fun c hc => regular_of_mem_candidates hfinite hc) h
    obtain ⟨c, hc, hfits⟩ := List.any_eq_true.1 hany
    have hmem := considerable_subset hc
    obtain ⟨hpool, hcarried, -⟩ := of_mem_candidates hmem
    exact ⟨_, hpool, hcarried, hpasses c hc, (fitsAlone_iff_of_mem hfinite hmem).1 hfits⟩
  · rintro ⟨⟨ordinal, e⟩, hp, hcarried, hpasses, hfits⟩
    obtain ⟨c, hcandidate⟩ := OptimizationRequest.exists_candidate?_iff.2 hcarried
    have hc : c ∈ candidates r pool := List.mem_filterMap.2 ⟨_, hp, hcandidate⟩
    obtain ⟨rfl, rfl⟩ := ordinal_of_candidate? hcandidate
    rw [solve_of_ne_nil (List.ne_nil_of_mem hc)]
    exact feasible_of_fits hc hpasses ((fitsAlone_iff_of_mem hfinite hc).2 hfits) fun j b hb =>
      admits_leastWeight hfinite considerable_subset (mem_considerable hc hpasses) hfits hb

theorem kept_of_finite (hfinite : FinitePool pool)
    (h : (solve exactThreshold maxAlternatives r pool).feasible = true) :
    (solve exactThreshold maxAlternatives r pool).usage.map (·.1) = r.budgets ∧
      ∀ c ∈ (solve exactThreshold maxAlternatives r pool).selected,
        (c.ordinal, c.entity) ∈ pool ∧ r.CarriedBy c.entity ∧ r.passes c.entity = true := by
  obtain ⟨p, hp, hcarried, -⟩ := (feasible_iff_fits hfinite).1 h
  have hall : candidates r pool ≠ [] := candidates_ne_nil_iff.2 ⟨p, hp, hcarried⟩
  rw [solve_of_ne_nil hall] at *
  obtain ⟨hkept, hpasses, -⟩ :=
    kept_of_feasible hall (fun c hc => regular_of_mem_candidates hfinite hc) h
  refine ⟨budgets_eq.trans hkept, fun c hc => ?_⟩
  rw [(select_eq ..).1] at hc
  have hconsidered : c ∈ considerable r (candidates r pool) :=
    select_subset _ _ _ (ranked_subset _ hc)
  obtain ⟨hpool, hcarried, -⟩ := of_mem_candidates (considerable_subset hconsidered)
  exact ⟨hpool, hcarried, hpasses c hconsidered⟩

/-- Relaxed budgets allow what the budgets asked for allow, and some candidate fits them. -/
theorem relaxed_of_finite (hfinite : FinitePool pool) (h : ∃ p ∈ pool, r.CarriedBy p.2) :
    List.Forall₂ Budget.Loosens r.budgets (relaxed r (considerable r (candidates r pool))) ∧
      ∃ c ∈ considerable r (candidates r pool),
        c.fitsAlone (relaxed r (considerable r (candidates r pool))) = true := by
  have hall : candidates r pool ≠ [] := candidates_ne_nil_iff.2 h
  exact relaxed_spec (considerable_ne_nil hall)
    (fun c hc => regular_of_mem_candidates hfinite (considerable_subset hc))
    (fun j hj => Double.regular_of_isFinite
      (leastWeight_spec hfinite considerable_subset (considerable_ne_nil hall) hj).1)
    fun c hc => length_weights (considerable_subset hc)

theorem loosened_of_finite (hfinite : FinitePool pool) (h : ∃ p ∈ pool, r.CarriedBy p.2) :
    List.Forall₂ Budget.Loosens r.budgets
        ((solve exactThreshold maxAlternatives r pool).usage.map (·.1)) ∧
      ∃ c ∈ (solve exactThreshold maxAlternatives r pool).considered,
        c.entity.Fits ((solve exactThreshold maxAlternatives r pool).usage.map (·.1)) := by
  obtain ⟨hloosens, c, hc, hfits⟩ := relaxed_of_finite hfinite h
  rw [solve_of_ne_nil (candidates_ne_nil_iff.2 h), budgets_eq, considered_eq]
  exact ⟨hloosens, c, hc,
    (fitsAlone_iff_of_loosens hfinite (considerable_subset hc) hloosens).1 hfits⟩

theorem reports_of_finite (hfinite : FinitePool pool) :
    Reports r pool (solve exactThreshold maxAlternatives r pool) where
  feasible_iff := feasible_iff_fits hfinite
  kept := kept_of_finite hfinite
  warned h := List.isEmpty_eq_false_iff.1 h
  loosened := loosened_of_finite hfinite

/-- A task that takes an effort. -/
def task (id : String) (effort : Double) : Entity Double where
  entityType := "task"
  id := id
  displayName := id
  dense := [1]
  symbolic := []
  metadata := .insert .empty "effort" (.number effort)

theorem eq_of_number?_task {id field : String} {effort x : Double}
    (h : (task id effort).number? field = some x) : x = effort := by
  unfold Entity.number? task at h
  rw [OrderedMap.get?_insert] at h
  split at h
  · cases h
    rfl
  · cases h

/-- The task of the least effort, which is to stay below a limit. -/
def effortBelow (limit : Double) : OptimizationRequest Double :=
  ⟨.minimize, ⟨[⟨"effort", 1⟩]⟩, [], [⟨"effort", limit, true⟩]⟩

/-- No task stays below the limit, and one only reaches it. -/
theorem reports_of_finite_effort :
    let o := solve 20 3 (effortBelow 4) [(0, task "cache" 4), (1, task "refund" 5)]
    o.feasible = false ∧ FinitePool [(0, task "cache" 4), (1, task "refund" 5)] ∧
      Reports (effortBelow 4) [(0, task "cache" 4), (1, task "refund" 5)] o := by
  have hfinite : FinitePool [(0, task "cache" 4), (1, task "refund" 5)] := by
    refine List.forall_mem_cons.2 ⟨?_, List.forall_mem_singleton.2 ?_⟩
    · intro field x hx
      rw [eq_of_number?_task hx]
      decide
    · intro field x hx
      rw [eq_of_number?_task hx]
      decide
  exact ⟨by decide, hfinite, reports_of_finite hfinite⟩

end Optimization

end VectorQuery
