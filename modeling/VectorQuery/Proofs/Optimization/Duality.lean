/-
# Minimizing is maximizing the negated objective

A score is a raw value oriented so that more is better.  Whatever is relaxed, selected, judged or
compared reads scores and weights and no raw value, so with other raw values the answer is the same
but for these (`Optimization.answer_revalue`).  Driven in the opposite direction, the negated
objective gives every candidate the same score and the opposite raw value, and every dimension the
same orientation (`Optimization.solve_opposed`).
-/
import VectorQuery.Proofs.Optimization.Budgets

namespace VectorQuery

variable {α : Type} [Quantity α]

/-! ## Other raw values -/

/-- The candidate with another raw value. -/
def Candidate.revalue (f : α → α) (c : Candidate α) : Candidate α := { c with raw := f c.raw }

/-- The trade-off, with another raw value of the candidate swapped. -/
def TradeOff.revalue (f : α → α) : TradeOff α → TradeOff α
  | .alongside gain => .alongside gain
  | .swap selected change => .swap (selected.revalue f) change
  | .unfit => .unfit

/-- The alternative with other raw values. -/
def Alternative.revalue (f : α → α) (a : Alternative α) : Alternative α :=
  ⟨a.candidate.revalue f, a.tradeOff.revalue f⟩

/-- The selection with other raw values. -/
def Selection.revalue (f : α → α) (s : Selection α) : Selection α :=
  { s with picked := s.picked.map (·.revalue f) }

/-- The answer with other raw values, and nothing else changed. -/
def Optimization.revalue (f : α → α) (o : Optimization α) : Optimization α :=
  { o with
    selected := o.selected.map (·.revalue f)
    considered := o.considered.map (·.revalue f)
    value := f o.value
    alternatives := o.alternatives.map (·.revalue f)
    frontier := o.frontier.map (·.revalue f)
    dominated := o.dominated.map (·.revalue f) }

variable (f : α → α) (budgets : List (Budget α))

theorem rankedBy_map {β γ σ : Type} [Quantity σ] (g : β → γ) (score : γ → σ) (ordinal : γ → Nat)
    (items : List β) : rankedBy score ordinal (items.map g) =
      (rankedBy (fun b => score (g b)) (fun b => ordinal (g b)) items).map g :=
  (List.map_mergeSort (f := g) fun _ _ _ _ => rfl).symm

namespace Candidate

variable (cs : List (Candidate α))

theorem ranked_revalue : ranked (cs.map (·.revalue f)) = (ranked cs).map (·.revalue f) :=
  rankedBy_map (revalue f) score ordinal cs

theorem best?_revalue : best? (cs.map (·.revalue f)) = (best? cs).map (·.revalue f) := by
  rw [best?, ranked_revalue, List.head?_map]
  rfl

theorem gainful_revalue : gainful (cs.map (·.revalue f)) = (gainful cs).map (·.revalue f) :=
  List.filter_map

theorem filter_fitsAlone_revalue : (cs.map (·.revalue f)).filter (·.fitsAlone budgets) =
    (cs.filter (·.fitsAlone budgets)).map (·.revalue f) :=
  List.filter_map

omit [Quantity α] in
theorem filterMap_weights_revalue (j : Nat) :
    (cs.map (·.revalue f)).filterMap (·.weights[j]?) = cs.filterMap (·.weights[j]?) :=
  List.filterMap_map

theorem used_revalue : used budgets (cs.map (·.revalue f)) = used budgets cs := by
  simp only [used, filterMap_weights_revalue]

end Candidate

open Candidate

/-! ## The solvers -/

namespace Exact

theorem withPotential_revalue (cs : List (Candidate α)) :
    withPotential (cs.map (·.revalue f)) =
      (withPotential cs).map fun p => (p.1.revalue f, p.2) := by
  induction cs with
  | nil => rfl
  | cons c cs ih =>
      rw [List.map_cons, withPotential, withPotential, ih]
      cases withPotential cs <;> rfl

theorem orBest_revalue (s best : Selection α) :
    (s.revalue f).orBest (best.revalue f) = (s.orBest best).revalue f := by
  change (if s.improves best then s.revalue f else best.revalue f) =
    Selection.revalue f (if _ then _ else _)
  split <;> rfl

theorem add_revalue (s : Selection α) (c : Candidate α) :
    (s.revalue f).add budgets (c.revalue f) = (s.add budgets c).revalue f := by
  simp only [Selection.add, Selection.revalue, List.map_append]
  rfl

/-- The search goes the same way through candidates with other raw values. -/
theorem explore_revalue (rest : List (Candidate α × α)) (current : Selection α) (used : List α)
    (best : Selection α) :
    explore budgets (rest.map fun p => (p.1.revalue f, p.2)) (current.revalue f) used
        (best.revalue f) =
      ((explore budgets rest current used best).1,
        (explore budgets rest current used best).2.revalue f) := by
  induction rest generalizing current used best with
  | nil => exact congrArg (Prod.mk used) (orBest_revalue f current best)
  | cons p rest ih =>
      obtain ⟨c, potential⟩ := p
      rw [List.map_cons, explore, explore]
      simp only [orBest_revalue, add_revalue, ih]
      change (if current.value + potential < (current.orBest best).value - Quantity.tolerance
        then _ else if c.fits budgets used then _ else _) = _
      split
      · rfl
      · split <;> rfl

theorem solve_revalue (cs : List (Candidate α)) :
    solve budgets (cs.map (·.revalue f)) = (solve budgets cs).map (·.revalue f) := by
  simp only [solve, gainful_revalue, ranked_revalue]
  cases ranked (gainful cs) with
  | nil =>
      simp only [List.map_nil, filter_fitsAlone_revalue, best?_revalue]
      exact Option.toList_map ..
  | cons c order =>
      have hexplore := explore_revalue f budgets (withPotential (c :: order)) .empty
        (Budget.unused budgets) .empty
      rw [← withPotential_revalue] at hexplore
      exact congrArg (·.2.picked) hexplore

end Exact

namespace Greedy

theorem order_revalue (cs : List (Candidate α)) :
    order budgets (cs.map (·.revalue f)) = (order budgets cs).map (·.revalue f) := by
  rw [order, gainful_revalue]
  exact (List.map_mergeSort (f := revalue f) fun _ _ _ _ => rfl).symm

theorem take_revalue (used : List α) (cs : List (Candidate α)) :
    take budgets used (cs.map (·.revalue f)) = (take budgets used cs).map (·.revalue f) := by
  induction cs generalizing used with
  | nil => rfl
  | cons c cs ih =>
      rw [List.map_cons, take, take, ih, ih]
      change (if c.fits budgets used then _ else _) = _
      split <;> rfl

theorem solve_revalue (cs : List (Candidate α)) :
    solve budgets (cs.map (·.revalue f)) = (solve budgets cs).map (·.revalue f) := by
  simp only [solve, order_revalue, take_revalue, filter_fitsAlone_revalue, best?_revalue,
    List.foldl_map, List.isEmpty_map]
  cases best? (cs.filter (·.fitsAlone budgets)) with
  | none => rfl
  | some single =>
      exact (apply_ite (List.map (revalue f)) _ [single] _).symm

end Greedy

/-! ## Alternatives and dimensions -/

namespace Alternative

theorem swaps_revalue (used : List α) (picked : List (Candidate α)) (c : Candidate α) :
    swaps budgets used (picked.map (·.revalue f)) (c.revalue f) =
      (swaps budgets used picked c).map fun e => (e.1.revalue f, e.2) := by
  rw [swaps, swaps, List.filter_map, List.map_map, List.map_map]
  rfl

theorem judge_revalue (used : List α) (picked : List (Candidate α)) (c : Candidate α) :
    judge budgets used (picked.map (·.revalue f)) (c.revalue f) =
      (judge budgets used picked c).revalue f := by
  have hhead : (rankedBy (·.2) (·.1.ordinal)
      (swaps budgets used (picked.map (·.revalue f)) (c.revalue f))).head? =
        (rankedBy (·.2) (·.1.ordinal) (swaps budgets used picked c)).head?.map
          fun e => (e.1.revalue f, e.2) := by
    rw [swaps_revalue, rankedBy_map, List.head?_map]
    rfl
  rw [judge, judge, hhead]
  change (if c.fits budgets used then _ else _) = _
  split
  · rfl
  · cases (rankedBy (·.2) (·.1.ordinal) (swaps budgets used picked c)).head? <;> rfl

theorem list_revalue (most : Nat) (picked cs : List (Candidate α)) :
    list most budgets (picked.map (·.revalue f)) (cs.map (·.revalue f)) =
      (list most budgets picked cs).map (·.revalue f) := by
  have hrest : ((cs.map (·.revalue f)).filter fun c =>
      (picked.map (·.revalue f)).all (·.ordinal ≠ c.ordinal)) =
        (cs.filter fun c => picked.all (·.ordinal ≠ c.ordinal)).map (·.revalue f) := by
    rw [List.filter_map]
    simp only [Function.comp_def, List.all_map]
    rfl
  rw [list, list, hrest, ranked_revalue, ← List.map_take, List.map_map, List.map_map, used_revalue]
  refine List.map_congr_left fun c _ => ?_
  exact congrArg (Alternative.mk _) (judge_revalue f budgets _ picked c)

end Alternative

namespace Pareto

theorem points_revalue (ds : List Dimension) (cs : List (Candidate α)) :
    points ds (cs.map (·.revalue f)) = (points ds cs).map fun p => (p.1.revalue f, p.2) := by
  rw [points, points, ranked_revalue, List.filterMap_map, List.map_filterMap]
  refine List.filterMap_congr fun c _ => ?_
  rw [Option.map_map]
  rfl

theorem split_revalue (ds : List Dimension) (cs : List (Candidate α)) :
    split ds (cs.map (·.revalue f)) =
      ((split ds cs).1.map (·.revalue f), (split ds cs).2.map (·.revalue f)) := by
  simp only [split, points_revalue, List.partition_eq_filter_filter, List.any_map, List.filter_map,
    List.map_map]
  rfl

end Pareto

/-! ## The answer -/

namespace Optimization

theorem unbudgeted_revalue (cs : List (Candidate α)) :
    unbudgeted (cs.map (·.revalue f)) = (unbudgeted cs).map (·.revalue f) := by
  rw [unbudgeted, unbudgeted, gainful_revalue]
  cases gainful cs with
  | nil =>
      simp only [List.map_nil, best?_revalue]
      exact Option.toList_map ..
  | cons c gainful => rfl

theorem select_revalue (exactThreshold : Nat) (cs : List (Candidate α)) :
    select exactThreshold budgets (cs.map (·.revalue f)) =
      ((select exactThreshold budgets cs).1.map (·.revalue f),
        (select exactThreshold budgets cs).2) := by
  rw [select, select, List.length_map, unbudgeted_revalue, Exact.solve_revalue,
    Greedy.solve_revalue]
  split
  · rfl
  · split <;> rfl

theorem relaxEach_revalue (cs : List (Candidate α)) :
    relaxEach (cs.map (·.revalue f)) budgets = relaxEach cs budgets := by
  simp only [relaxEach, filterMap_weights_revalue]

theorem lightest?_revalue (cs : List (Candidate α)) :
    lightest? budgets (cs.map (·.revalue f)) = (lightest? budgets cs).map (·.revalue f) := by
  cases cs with
  | nil => rfl
  | cons c cs =>
      rw [List.map_cons, lightest?, lightest?, List.foldl_map]
      refine congrArg some ?_
      induction cs generalizing c with
      | nil => rfl
      | cons d cs ih =>
          rw [List.foldl_cons, List.foldl_cons, ← ih]
          congr 1
          have hload : ∀ c : Candidate α, (c.revalue f).load budgets = c.load budgets :=
            fun _ => rfl
          simp only [hload]
          cases Quantity.rank (c.load budgets) (d.load budgets) with
          | lt => rfl
          | eq => exact (apply_ite (Candidate.revalue f) (c.ordinal ≤ d.ordinal) c d).symm
          | gt => rfl

theorem relaxAll_revalue (cs : List (Candidate α)) :
    relaxAll (cs.map (·.revalue f)) budgets = relaxAll cs budgets := by
  rw [relaxAll, relaxAll, lightest?_revalue, List.any_map]
  cases lightest? budgets cs <;> rfl

variable (exactThreshold maxAlternatives : Nat) (r : OptimizationRequest α)

/-- The answer over the candidates considered. -/
def answer (dropped : List (OptimizationWarning α)) (cs : List (Candidate α)) : Optimization α :=
  let warnings := dropped ++ (relaxEach cs r.budgets).flatMap (·.2) ++
    (relaxAll cs (raised r cs)).flatMap (·.2)
  let picked := (select exactThreshold (relaxed r cs) cs).1
  { selected := ranked picked
    considered := cs
    value := Quantity.sum ((ranked picked).map (·.raw))
    warnings := warnings
    solver := (select exactThreshold (relaxed r cs) cs).2
    alternatives :=
      if warnings.isEmpty then Alternative.list maxAlternatives (relaxed r cs) picked cs else []
    dimensions := Dimension.ofRequest r
    frontier := (Pareto.split (Dimension.ofRequest r) cs).1
    dominated := (Pareto.split (Dimension.ofRequest r) cs).2
    usage := (relaxed r cs).zip (used (relaxed r cs) picked) }

theorem ofCandidates_eq (all : List (Candidate α)) :
    ofCandidates exactThreshold maxAlternatives r all =
      answer exactThreshold maxAlternatives r (dropped r all) (considerable r all) := by
  unfold ofCandidates answer considerable dropped
  dsimp only
  split <;> rfl

/-- Where sums have the raw value of sums, only raw values change. -/
theorem answer_revalue (hsum : ∀ xs, Quantity.sum (xs.map f) = f (Quantity.sum xs))
    (dropped : List (OptimizationWarning α)) (cs : List (Candidate α)) :
    answer exactThreshold maxAlternatives r dropped (cs.map (·.revalue f)) =
      (answer exactThreshold maxAlternatives r dropped cs).revalue f := by
  have hraised : raised r (cs.map (·.revalue f)) = raised r cs := by
    rw [raised, relaxEach_revalue, raised]
  have hrelaxed : relaxed r (cs.map (·.revalue f)) = relaxed r cs := by
    rw [relaxed, relaxAll_revalue, hraised, relaxed]
  have hvalue : ∀ cs : List (Candidate α), Quantity.sum ((cs.map (·.revalue f)).map (·.raw)) =
      f (Quantity.sum (cs.map (·.raw))) := by
    intro cs
    rw [← hsum, List.map_map, List.map_map]
    rfl
  simp only [answer, hraised, hrelaxed, relaxEach_revalue, relaxAll_revalue, select_revalue,
    ranked_revalue, used_revalue, Pareto.split_revalue, Alternative.list_revalue, hvalue]
  unfold revalue
  congr 1
  exact (apply_ite (List.map (Alternative.revalue f)) _ _ []).symm

theorem considerable_revalue (all : List (Candidate α)) :
    considerable r (all.map (·.revalue f)) = (considerable r all).map (·.revalue f) := by
  rw [considerable, considerable, List.filter_map, List.isEmpty_map]
  exact (apply_ite (List.map (Candidate.revalue f)) _ _ _).symm

theorem dropped_revalue (all : List (Candidate α)) :
    dropped r (all.map (·.revalue f)) = dropped r all := by
  rw [dropped, dropped, List.filter_map, List.isEmpty_map]
  rfl

theorem ofCandidates_revalue (hsum : ∀ xs, Quantity.sum (xs.map f) = f (Quantity.sum xs))
    (all : List (Candidate α)) :
    ofCandidates exactThreshold maxAlternatives r (all.map (·.revalue f)) =
      (ofCandidates exactThreshold maxAlternatives r all).revalue f := by
  rw [ofCandidates_eq, ofCandidates_eq, considerable_revalue, dropped_revalue,
    answer_revalue f exactThreshold maxAlternatives r hsum]

end Optimization

/-! ## The opposite direction -/

open scoped Rational

/-- The other direction. -/
def Direction.opposite : Direction → Direction
  | .maximize => .minimize
  | .minimize => .maximize

/-- The objective with every weight negated. -/
def Objective.negated (o : Objective ℚ) : Objective ℚ :=
  ⟨o.terms.map fun t => ⟨t.field, -t.weight⟩⟩

/-- The request that drives the negated objective in the other direction. -/
def OptimizationRequest.opposed (r : OptimizationRequest ℚ) : OptimizationRequest ℚ :=
  { r with direction := r.direction.opposite, objective := r.objective.negated }

theorem Direction.orient_neg (d : Direction) (x : ℚ) : d.opposite.orient (-x) = d.orient x := by
  cases d with
  | maximize => exact neg_mul_neg 1 x
  | minimize =>
      show 1 * -x = -1 * x
      rw [mul_neg, neg_mul]

theorem Objective.value?_negated (o : Objective ℚ) (e : Entity ℚ) :
    o.negated.value? e = (o.value? e).map fun x => -x := by
  have hfold : ∀ (terms : List (Term ℚ)) (start : ℚ),
      (terms.map fun t => Term.mk t.field (-t.weight)).foldlM
          (fun sum t => (e.number? t.field).map fun x => sum + t.weight * x) (-start) =
        (terms.foldlM (fun sum t => (e.number? t.field).map fun x => sum + t.weight * x)
          start).map fun x => -x := by
    intro terms
    induction terms with
    | nil =>
        intro start
        rfl
    | cons t terms ih =>
        intro start
        rw [List.map_cons, List.foldlM_cons, List.foldlM_cons]
        cases e.number? t.field with
        | none => rfl
        | some x =>
            have hsum : -start + -t.weight * x = -(start + t.weight * x) := by ring
            show List.foldlM _ (-start + -t.weight * x) _ = _
            rw [hsum]
            exact ih (start + t.weight * x)
  exact (congrArg (List.foldlM _ · _) neg_zero.symm).trans (hfold o.terms 0)

/-- An entity is the same candidate for both requests, but for its raw value. -/
theorem OptimizationRequest.candidate?_opposed (r : OptimizationRequest ℚ) (ordinal : Nat)
    (e : Entity ℚ) :
    r.opposed.candidate? ordinal e = (r.candidate? ordinal e).map (·.revalue fun x => -x) := by
  unfold candidate?
  show (r.objective.negated.value? e >>= _) = _
  rw [Objective.value?_negated]
  cases r.objective.value? e with
  | none => rfl
  | some raw =>
      show (List.mapM _ r.budgets >>= fun weights =>
        some (Candidate.mk ordinal e (-raw) (r.direction.opposite.orient (-raw)) weights)) = _
      rw [Direction.orient_neg]
      cases r.budgets.mapM fun b => e.number? b.field <;> rfl

theorem Dimension.ofRequest_opposed (r : OptimizationRequest ℚ) :
    ofRequest r.opposed = ofRequest r := by
  have hterms : (r.opposed.objective.terms.map fun t =>
      Dimension.mk t.field (Quantity.zero ≤ r.opposed.direction.orient t.weight)) =
        r.objective.terms.map fun t =>
          Dimension.mk t.field (Quantity.zero ≤ r.direction.orient t.weight) := by
    show List.map _ (List.map _ r.objective.terms) = _
    rw [List.map_map]
    refine List.map_congr_left fun t _ => ?_
    show Dimension.mk t.field (Quantity.zero ≤ r.direction.opposite.orient (-t.weight)) = _
    rw [Direction.orient_neg]
  rw [ofRequest, hterms]
  rfl

namespace Optimization

variable (exactThreshold maxAlternatives : Nat)

theorem sum_neg (xs : List ℚ) :
    Quantity.sum (xs.map fun x => -x) = -Quantity.sum xs := by
  rw [Rational.sum_eq, Rational.sum_eq, List.sum_neg]

theorem ofCandidates_opposed (r : OptimizationRequest ℚ) (all : List (Candidate ℚ)) :
    ofCandidates exactThreshold maxAlternatives r.opposed all =
      ofCandidates exactThreshold maxAlternatives r all := by
  rw [ofCandidates_eq, ofCandidates_eq, answer, Dimension.ofRequest_opposed]
  rfl

/-- Where something may be selected, the negated objective driven in the opposite direction is
answered by the same selection, alternatives, dimensions, frontier, usage and warnings, and the
values of the objective are opposite. -/
theorem solve_opposed (r : OptimizationRequest ℚ) {pool : List (Nat × Entity ℚ)}
    (h : ∃ p ∈ pool, (r.candidate? p.1 p.2).isSome = true) :
    solve exactThreshold maxAlternatives r.opposed pool =
      (solve exactThreshold maxAlternatives r pool).revalue fun x => -x := by
  have hall : (pool.filterMap fun p => r.opposed.candidate? p.1 p.2) =
      (pool.filterMap fun p => r.candidate? p.1 p.2).map (·.revalue fun x => -x) := by
    rw [List.map_filterMap]
    refine List.filterMap_congr fun p _ => ?_
    exact r.candidate?_opposed p.1 p.2
  have hsome : (pool.filterMap fun p => r.candidate? p.1 p.2).isEmpty = false := by
    obtain ⟨p, hp, hcandidate⟩ := h
    obtain ⟨c, hc⟩ := Option.isSome_iff_exists.1 hcandidate
    have hmem : c ∈ pool.filterMap fun p => r.candidate? p.1 p.2 :=
      List.mem_filterMap.2 ⟨p, hp, hc⟩
    exact List.isEmpty_eq_false_iff.2 (List.ne_nil_of_mem hmem)
  unfold solve
  dsimp only
  rw [hall, List.isEmpty_map, hsome, if_neg Bool.false_ne_true, if_neg Bool.false_ne_true,
    ofCandidates_opposed]
  exact ofCandidates_revalue _ exactThreshold maxAlternatives r sum_neg _

/-- The least effort at a coverage of at most 4, where some coverage saves effort. -/
def leastEffort : OptimizationRequest ℚ :=
  ⟨.minimize, ⟨[⟨"effort", 1⟩]⟩, [], [⟨"coverage", 4, false⟩]⟩

/-- Features of which two save effort, and one costs some. -/
def savings : List (Nat × Entity ℚ) :=
  [(0, feature "cache" 3 (-2)), (1, feature "refund" 2 (-1)), (2, feature "cart" 1 5)]

theorem solve_opposed_effort :
    (∃ p ∈ savings, (leastEffort.candidate? p.1 p.2).isSome = true) ∧
      solve 20 3 ⟨.maximize, ⟨[⟨"effort", -1⟩]⟩, [], [⟨"coverage", 4, false⟩]⟩ savings =
        (solve 20 3 leastEffort savings).revalue fun x => -x := by
  have hsome : ∃ p ∈ savings, (leastEffort.candidate? p.1 p.2).isSome = true :=
    ⟨_, List.mem_cons_self, by decide⟩
  exact ⟨hsome, solve_opposed 20 3 leastEffort hsome⟩

end Optimization

end VectorQuery
