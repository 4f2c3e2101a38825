/-
# When an optimization selects nothing

Where some entity carries the numbers that a request reads, the budgets are relaxed until a candidate
fits them, and then something is selected: without budgets the best candidate at least, by the greedy
pass the best one that fits at least.

The exact search is the exception.  If some candidates add to the objective, it looks at these alone,
and it starts from nothing selected.  Where none of them fits, it ends there too, although a candidate
that adds nothing may fit (`Optimization.selects_nothing`).  Gains within the tolerance do not count as
gains either; what is said of the search here is said of clear gains.
-/
import VectorQuery.Proofs.Number.Positive
import VectorQuery.Proofs.Optimization.Feasibility

namespace VectorQuery

open Candidate

/-! ## The exact search -/

namespace Exact

section Nothing

variable {α : Type} [Quantity α] {budgets : List (Budget α)} {rest : List (Candidate α × α)}
  {cs : List (Candidate α)}

theorem picked_orBest {s best : Selection α} (hs : s.picked = []) (hbest : best.picked = []) :
    (s.orBest best).picked = [] := by
  unfold Selection.orBest
  split
  · exact hs
  · exact hbest

/-- Where no candidate fits alone, the search never takes one up. -/
theorem picked_explore (hrest : ∀ p ∈ rest, p.1.fitsAlone budgets = false) {best : Selection α}
    (hbest : best.picked = []) :
    (explore budgets rest .empty (Budget.unused budgets) best).2.picked = [] := by
  induction rest generalizing best with
  | nil => exact picked_orBest rfl hbest
  | cons p rest ih =>
      obtain ⟨c, potential⟩ := p
      have hc : c.fits budgets (Budget.unused budgets) = false := hrest _ List.mem_cons_self
      have hbest' : (Selection.empty.orBest best).picked = [] := picked_orBest rfl hbest
      rw [explore]
      split
      · exact hbest'
      · rw [hc, if_neg Bool.false_ne_true]
        exact ih (fun p hp => hrest p (List.mem_cons_of_mem _ hp)) hbest'

/-- Where candidates add to the objective but none of these fits, the search selects nothing. -/
theorem solve_eq_nil (hgainful : gainful cs ≠ [])
    (hfits : ∀ c ∈ gainful cs, c.fitsAlone budgets = false) : solve budgets cs = [] := by
  have hranked : ∀ c ∈ ranked (gainful cs), c.fitsAlone budgets = false :=
    fun c hc => hfits c (List.mem_mergeSort.1 hc)
  obtain ⟨c, hc⟩ := List.exists_mem_of_ne_nil _ hgainful
  have hmem : c ∈ ranked (gainful cs) := List.mem_mergeSort.2 hc
  unfold solve
  generalize ranked (gainful cs) = order at hranked hmem
  cases order with
  | nil => cases hmem
  | cons a order => exact picked_explore (fun p hp => hranked p.1 (mem_withPotential hp)) rfl

theorem solve_ne_nil_of_not_gainful (hgainful : gainful cs = [])
    (hfits : ∃ c ∈ cs, c.fitsAlone budgets = true) : solve budgets cs ≠ [] := by
  obtain ⟨c, hc, hfits⟩ := hfits
  obtain ⟨best, hbest⟩ := exists_best (List.mem_filter.2 ⟨hc, hfits⟩)
  rw [solve_of_not_gainful hgainful, hbest]
  exact List.cons_ne_nil _ _

end Nothing

/-! ### Clear gains -/

variable {budgets : List (Budget Double)} {rest : List (Candidate Double × Double)}
  {cs : List (Candidate Double)} {c : Candidate Double} {s best current : Selection Double}

theorem zero_lt_tolerance : (Quantity.zero : Double) < Quantity.tolerance := by decide

/-- Nothing is selected, or what is selected adds clearly to the objective. -/
def Clear (s : Selection Double) : Prop :=
  s.picked = [] ∧ s.value = Quantity.zero ∨ s.picked ≠ [] ∧ Quantity.tolerance < s.value

theorem clear_empty : Clear Selection.empty := .inl ⟨rfl, rfl⟩

theorem clear_add (hs : Clear s) (hc : Quantity.tolerance < c.score) : Clear (s.add budgets c) := by
  have hscore : Quantity.zero < c.score := Double.lt_trans zero_lt_tolerance hc
  refine .inr ⟨List.append_ne_nil_of_right_ne_nil _ (List.cons_ne_nil _ _), ?_⟩
  change Quantity.tolerance < s.value + c.score
  rcases hs with ⟨-, hvalue⟩ | ⟨-, hvalue⟩
  · rw [hvalue]
    exact Double.lt_of_lt_of_le hc (Double.le_zero_add hscore)
  · exact Double.lt_of_lt_of_le hvalue
      (Double.le_add_of_pos (Double.lt_trans zero_lt_tolerance hvalue) hscore)

theorem clear_orBest (hs : Clear s) (hbest : Clear best) : Clear (s.orBest best) := by
  unfold Selection.orBest
  split
  · exact hs
  · exact hbest

/-- What adds clearly to the objective improves on nothing. -/
theorem improves_nothing (hs : Clear s) (hpicked : s.picked ≠ []) (hbest : Clear best)
    (hnone : best.picked = []) : s.improves best = true := by
  have hvalue := (hs.resolve_left fun h => hpicked h.1).2
  have hbest := (hbest.resolve_right fun h => h.1 hnone).2
  have hzero : Quantity.zero + Quantity.tolerance ≤ (Quantity.tolerance : Double) := by
    decide
  unfold Selection.improves
  rw [hbest, decide_eq_true (Double.lt_of_le_of_lt hzero hvalue), Bool.true_or]

/-- Nothing does not improve on what adds clearly to the objective. -/
theorem not_nothing_improves (hs : Clear s) (hnone : s.picked = []) (hbest : Clear best)
    (hpicked : best.picked ≠ []) : s.improves best = false := by
  have hvalue := (hs.resolve_right fun h => h.1 hnone).2
  have hbest := (hbest.resolve_left fun h => hpicked h.1).2
  have hpos : Quantity.zero < best.value := Double.lt_trans zero_lt_tolerance hbest
  have hless : ¬ best.value + Quantity.tolerance < Quantity.zero :=
    Double.not_lt_of_le (Double.le_trans (Double.le_of_lt hpos)
      (Double.le_add_of_pos hpos zero_lt_tolerance))
  have hfar : ¬ Quantity.magnitude (Quantity.zero - best.value) ≤ Quantity.tolerance :=
    Double.not_le_of_lt (Double.lt_of_lt_of_le hbest (Double.le_magnitude_zero_sub hpos))
  unfold Selection.improves
  rw [hvalue, decide_eq_false hless, decide_eq_false hfar, Bool.false_and, Bool.or_false]

theorem orBest_ne_nil (hs : Clear s) (hbest : Clear best)
    (h : s.picked ≠ [] ∨ best.picked ≠ []) : (s.orBest best).picked ≠ [] := by
  unfold Selection.orBest
  by_cases hpicked : s.picked = []
  · have hbest' := h.resolve_left fun h => h hpicked
    rw [not_nothing_improves hs hpicked hbest hbest', if_neg Bool.false_ne_true]
    exact hbest'
  · split
    · exact hpicked
    · rename_i himproves
      exact fun hnone => himproves (improves_nothing hs hpicked hbest hnone)

/-- What the search has found it does not give up again. -/
theorem explore_ne_nil {used : List Double} (hrest : ∀ p ∈ rest, Quantity.tolerance < p.1.score)
    (hcurrent : Clear current) (hbest : Clear best)
    (h : current.picked ≠ [] ∨ best.picked ≠ []) :
    Clear (explore budgets rest current used best).2 ∧
      (explore budgets rest current used best).2.picked ≠ [] := by
  induction rest generalizing current used best with
  | nil => exact ⟨clear_orBest hcurrent hbest, orBest_ne_nil hcurrent hbest h⟩
  | cons p rest ih =>
      obtain ⟨c, potential⟩ := p
      obtain ⟨hc, hrest'⟩ := List.forall_mem_cons.1 hrest
      have hbest' := clear_orBest hcurrent hbest
      have hfound := orBest_ne_nil hcurrent hbest h
      rw [explore]
      split
      · exact ⟨hbest', hfound⟩
      · split
        · obtain ⟨hclear, htaken⟩ := ih hrest' (clear_add hcurrent hc) hbest' (.inr hfound)
          exact ih hrest' hcurrent hclear (.inr htaken)
        · exact ih hrest' hcurrent hbest' (.inr hfound)

/-- The search comes to the first candidate that fits alone and takes it up. -/
theorem explore_finds (hrest : ∀ p ∈ rest, Quantity.tolerance < p.1.score)
    (hpotential : ∀ p ∈ rest, Quantity.zero < p.2)
    (hfits : ∃ p ∈ rest, p.1.fitsAlone budgets = true) (hbest : Clear best)
    (hnone : best.picked = []) :
    (explore budgets rest .empty (Budget.unused budgets) best).2.picked ≠ [] := by
  induction rest generalizing best with
  | nil =>
      obtain ⟨p, hp, -⟩ := hfits
      cases hp
  | cons p rest ih =>
      obtain ⟨c, potential⟩ := p
      obtain ⟨hc, hrest'⟩ := List.forall_mem_cons.1 hrest
      obtain ⟨hpos, hpotential'⟩ := List.forall_mem_cons.1 hpotential
      have hbest' : Clear (Selection.empty.orBest best) := clear_orBest clear_empty hbest
      have hnone' : (Selection.empty.orBest best).picked = [] := picked_orBest rfl hnone
      have hvalue := (hbest'.resolve_right fun h => h.1 hnone').2
      have hgoOn : ¬ (Selection.empty : Selection Double).value + potential <
          (Selection.empty.orBest best).value - Quantity.tolerance := by
        rw [hvalue]
        have hbelow : (Quantity.zero : Double) - Quantity.tolerance ≤ Quantity.zero := by
          decide
        exact Double.not_lt_of_le (Double.le_trans hbelow
          (Double.le_trans (Double.le_of_lt hpos) (Double.le_zero_add hpos)))
      rw [explore, if_neg hgoOn]
      split
      · obtain ⟨hclear, htaken⟩ := explore_ne_nil hrest' (clear_add clear_empty hc) hbest'
          (.inl (List.cons_ne_nil _ _))
        exact (explore_ne_nil hrest' clear_empty hclear (.inr htaken)).2
      · rename_i hfit
        refine ih hrest' hpotential' ?_ hbest' hnone'
        obtain ⟨p, hp, hfits⟩ := hfits
        rcases List.mem_cons.1 hp with rfl | hp
        · exact absurd hfits hfit
        · exact ⟨p, hp, hfits⟩

theorem withPotential_pos (hcs : ∀ c ∈ cs, Quantity.zero < c.score) :
    ∀ p ∈ withPotential cs, Quantity.zero < p.2 := by
  induction cs with
  | nil => nofun
  | cons c cs ih =>
      obtain ⟨hc, hcs⟩ := List.forall_mem_cons.1 hcs
      have hrest := ih hcs
      rw [withPotential]
      refine List.forall_mem_cons.2 ⟨?_, hrest⟩
      generalize withPotential cs = rest at hrest
      cases rest with
      | nil => exact Double.lt_of_lt_of_le hc (Double.le_zero_add hc)
      | cons p rest =>
          have hpos := hrest p List.mem_cons_self
          exact Double.lt_of_lt_of_le hpos (Double.le_add_of_pos hpos hc)

theorem exists_mem_withPotential {α : Type} [Quantity α] {cs : List (Candidate α)}
    {c : Candidate α} (hc : c ∈ cs) : ∃ potential, (c, potential) ∈ withPotential cs := by
  induction cs with
  | nil => cases hc
  | cons a cs ih =>
      rw [withPotential]
      rcases List.mem_cons.1 hc with rfl | hc
      · exact ⟨_, List.mem_cons_self⟩
      · obtain ⟨potential, hmem⟩ := ih hc
        exact ⟨potential, List.mem_cons_of_mem _ hmem⟩

/-- Where a candidate fits that adds clearly to the objective, like all that add to it, something is
selected. -/
theorem solve_ne_nil_of_clear (hclear : ∀ c ∈ gainful cs, Quantity.tolerance < c.score)
    (hfits : ∃ c ∈ gainful cs, c.fitsAlone budgets = true) : solve budgets cs ≠ [] := by
  obtain ⟨c, hc, hfits⟩ := hfits
  have hranked : ∀ c ∈ ranked (gainful cs), Quantity.tolerance < c.score :=
    fun c hc => hclear c (List.mem_mergeSort.1 hc)
  have hmem : c ∈ ranked (gainful cs) := List.mem_mergeSort.2 hc
  unfold solve
  generalize ranked (gainful cs) = order at hranked hmem
  obtain ⟨potential, hp⟩ := exists_mem_withPotential hmem
  cases order with
  | nil => cases hmem
  | cons a order =>
      exact explore_finds (fun p hp => hranked p.1 (mem_withPotential hp))
        (withPotential_pos fun c hc => Double.lt_trans zero_lt_tolerance (hranked c hc))
        ⟨_, hp, hfits⟩ clear_empty rfl

end Exact

/-! ## Any solver -/

namespace Optimization

section Solvers

variable {α : Type} [Quantity α] {budgets : List (Budget α)} {cs : List (Candidate α)}

theorem unbudgeted_ne_nil (hcs : cs ≠ []) : unbudgeted cs ≠ [] := by
  obtain ⟨c, hc⟩ := List.exists_mem_of_ne_nil cs hcs
  obtain ⟨best, hbest⟩ := exists_best hc
  unfold unbudgeted
  split
  · rw [hbest]
    exact List.cons_ne_nil _ _
  · rename_i hgainful
    exact hgainful

theorem greedy_ne_nil (hfits : ∃ c ∈ cs, c.fitsAlone budgets = true) :
    Greedy.solve budgets cs ≠ [] := by
  obtain ⟨c, hc, hfits⟩ := hfits
  obtain ⟨single, hsingle⟩ := exists_best (List.mem_filter.2 ⟨hc, hfits⟩)
  unfold Greedy.solve
  simp only [hsingle]
  split
  · exact List.cons_ne_nil _ _
  · rename_i hmore
    rw [Bool.or_eq_true, not_or, List.isEmpty_iff] at hmore
    exact hmore.2

/-- Nothing is selected from candidates one of which fits only by the exact search, and only if some
of them add to the objective. -/
theorem exact_of_select_eq_nil {exactThreshold : Nat}
    (hfits : ∃ c ∈ cs, c.fitsAlone budgets = true) (h : (select exactThreshold budgets cs).1 = []) :
    (select exactThreshold budgets cs).2 = .exact ∧ Exact.solve budgets cs = [] ∧
      gainful cs ≠ [] := by
  have hcs : cs ≠ [] := List.ne_nil_of_mem hfits.choose_spec.1
  unfold select at *
  split at h
  · exact absurd h (unbudgeted_ne_nil hcs)
  · rename_i hbudgets
    rw [if_neg hbudgets]
    split at h
    · rename_i hfew
      rw [if_pos hfew]
      exact ⟨rfl, h, fun hgainful => Exact.solve_ne_nil_of_not_gainful hgainful hfits h⟩
    · exact absurd h (greedy_ne_nil hfits)

end Solvers

variable {exactThreshold maxAlternatives : Nat} {r : OptimizationRequest Double}
  {pool : List (Nat × Entity Double)}

/-- Over finite metadata, an answer selects nothing only by the exact search, and only if some
candidates add to the objective and none of these fits the budgets, or one adds no more than the
tolerance.  If none of them fits, the exact search does select nothing. -/
theorem selects_nothing (hfinite : FinitePool pool) (h : ∃ p ∈ pool, r.CarriedBy p.2) :
    let o := solve exactThreshold maxAlternatives r pool
    (o.selected = [] → o.solver = .exact ∧ gainful o.considered ≠ [] ∧
      ((∀ c ∈ gainful o.considered, ¬ c.entity.Fits (o.usage.map (·.1))) ∨
        ∃ c ∈ gainful o.considered, c.score ≤ Quantity.tolerance)) ∧
    (o.solver = .exact → gainful o.considered ≠ [] →
      (∀ c ∈ gainful o.considered, ¬ c.entity.Fits (o.usage.map (·.1))) → o.selected = []) := by
  obtain ⟨hloosens, hfits⟩ := relaxed_of_finite hfinite h
  obtain ⟨hselected, hsolver⟩ :=
    select_eq exactThreshold maxAlternatives r (candidates r pool)
  dsimp only
  rw [solve_of_ne_nil (candidates_ne_nil_iff.2 h), budgets_eq, considered_eq, hselected, hsolver,
    ranked, rankedBy_eq_nil_iff]
  have hiff : ∀ c ∈ gainful (considerable r (candidates r pool)),
      (c.fitsAlone (relaxed r (considerable r (candidates r pool))) = true ↔
        c.entity.Fits (relaxed r (considerable r (candidates r pool)))) := fun c hc =>
    fitsAlone_iff_of_loosens hfinite (considerable_subset (gainful_subset _ hc)) hloosens
  generalize relaxed r (considerable r (candidates r pool)) = budgets at *
  generalize considerable r (candidates r pool) = cs at *
  constructor
  · intro hnone
    obtain ⟨hexact, hsolve, hgainful⟩ := exact_of_select_eq_nil hfits hnone
    refine ⟨hexact, hgainful, Classical.or_iff_not_imp_right.2 fun hclear c hc hfit => ?_⟩
    refine Exact.solve_ne_nil_of_clear (fun a ha => ?_) ⟨c, hc, (hiff c hc).2 hfit⟩ hsolve
    have hdefined : a.score.isDefined = true :=
      (Double.pos_iff.1 (of_decide_eq_true (List.mem_filter.1 ha).2)).1
    exact Double.lt_of_not_le hdefined (by decide) fun hle => hclear ⟨a, ha, hle⟩
  · intro hexact hgainful hnone
    rw [select_of_exact hexact]
    exact Exact.solve_eq_nil hgainful fun c hc =>
      eq_false_of_ne_true fun hfit => hnone c hc ((hiff c hc).1 hfit)

/-- A task with what it is worth. -/
def valuedTask (id : String) (value effort : Double) : Entity Double :=
  { task id effort with metadata := (task id effort).metadata.insert "value" (.number value) }

theorem eq_of_number?_valuedTask {id field : String} {value effort x : Double}
    (h : (valuedTask id value effort).number? field = some x) : x = value ∨ x = effort := by
  unfold Entity.number? valuedTask at h
  rw [OrderedMap.get?_insert] at h
  split at h
  · cases h
    exact .inl rfl
  · exact .inr (eq_of_number?_task h)

/-- The most value for an effort up to a limit. -/
def valueWithin (limit : Double) : OptimizationRequest Double :=
  ⟨.maximize, ⟨[⟨"value", 1⟩]⟩, [], [⟨"effort", limit, false⟩]⟩

/-- A task of value that takes much effort, and one that takes little and has none. -/
def tasks : List (Nat × Entity Double) :=
  [(0, valuedTask "cache" 1 9), (1, valuedTask "refund" 0 1)]

theorem finitePool_tasks : FinitePool tasks := by
  refine List.forall_mem_cons.2 ⟨fun field x hx => ?_,
    List.forall_mem_singleton.2 fun field x hx => ?_⟩
  · rcases eq_of_number?_valuedTask hx with rfl | rfl <;> decide
  · rcases eq_of_number?_valuedTask hx with rfl | rfl <;> decide

theorem carriedBy_tasks (limit : Double) : ∃ p ∈ tasks, (valueWithin limit).CarriedBy p.2 := by
  have hvalue : (valuedTask "cache" 1 9).number? "value" = some 1 := rfl
  have heffort : (valuedTask "cache" 1 9).number? "effort" = some 9 := rfl
  exact ⟨_, List.mem_cons_self, List.forall_mem_singleton.2 ⟨1, hvalue⟩,
    List.forall_mem_singleton.2 ⟨9, heffort⟩⟩

/-- The task of value fits and is selected. -/
theorem selects_nothing_cache :
    let o := solve 20 3 (valueWithin 10) tasks
    o.solver = .exact ∧ o.selected.map (·.ordinal) = [0] ∧ FinitePool tasks ∧
      (∃ p ∈ tasks, (valueWithin 10).CarriedBy p.2) ∧
      (o.selected = [] → o.solver = .exact ∧ gainful o.considered ≠ [] ∧
        ((∀ c ∈ gainful o.considered, ¬ c.entity.Fits (o.usage.map (·.1))) ∨
          ∃ c ∈ gainful o.considered, c.score ≤ Quantity.tolerance)) ∧
      (o.solver = .exact → gainful o.considered ≠ [] →
        (∀ c ∈ gainful o.considered, ¬ c.entity.Fits (o.usage.map (·.1))) → o.selected = []) :=
  ⟨by decide, by decide +kernel, finitePool_tasks, carriedBy_tasks 10,
    selects_nothing finitePool_tasks (carriedBy_tasks 10)⟩

/-- The task of value does not fit, and the exact search selects nothing although the other task
fits. -/
theorem fitting_task_not_selected :
    let o := solve 20 3 (valueWithin 5) tasks
    FinitePool tasks ∧ (∃ p ∈ tasks, (valueWithin 5).CarriedBy p.2) ∧
      o.solver = .exact ∧ o.feasible = true ∧ o.considered.length = 2 ∧ o.selected.length = 0 :=
  ⟨finitePool_tasks, carriedBy_tasks 5, by decide +kernel⟩

end Optimization

end VectorQuery
