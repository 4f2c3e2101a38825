/-
# How good the greedy selection is

In exact arithmetic the greedy pass loses no more than the first candidate that it passes over
although it fits alone.  The best single candidate is worth at least that one, so with one budget
the better of the two has half the score of any selection within the budget
(`Greedy.total_le_two_mul`).

The pass leaves out nothing that still fits in the end.  A single candidate that is worth more than
all of the pass takes its place alone, though, and beside it something may fit
(`Greedy.leaves_nothing_or_single`).
-/
import VectorQuery.Proofs.Optimization.Exactness

namespace VectorQuery

open scoped Rational

variable {budgets : List (Budget ℚ)}

namespace Candidate

variable {s t cs : List (Candidate ℚ)} {c d : Candidate ℚ}

theorem score_le_best (h : best? cs = some c) (hd : d ∈ cs) : d.score ≤ c.score :=
  Rational.rankedBy_id.place_le_of_head? h hd

/-- A candidate of a selection within the budgets fits alone. -/
theorem fitsAlone_of_keep (hc : c.Weighs budgets) (ht : ∀ c ∈ t, c.NonnegWeights)
    (hkeep : Keep budgets t) (hmem : c ∈ t) : c.fitsAlone budgets = true := by
  unfold fitsAlone
  rw [← used_nil]
  exact fits_of_keep_concat hc (keep_of_sublist (List.singleton_sublist.2 hmem) ht hkeep)

/-! ## One budget -/

variable {b : Budget ℚ}

/-- What weighs nothing loads nothing. -/
theorem load_of_zero (h : ∀ w ∈ c.weights, w = 0) : c.load budgets = 0 := by
  unfold load Budget.load
  rw [Rational.sum_eq, ← List.map_uncurry_zip_eq_zipWith]
  refine List.sum_eq_zero (List.forall_mem_map.2 fun e he => ?_)
  rw [Function.uncurry, h e.2 (List.of_mem_zip he).2, zero_div]

/-- With one budget, the load is the total weight in units of the limit. -/
theorem sum_weights_eq (ht : ∀ c ∈ t, c.Weighs [b]) :
    Quantity.sum (t.filterMap (·.weights[0]?)) =
      Quantity.greater (Quantity.magnitude b.limit) Quantity.tolerance * totalLoad [b] t := by
  have hpos : 0 < Quantity.greater (Quantity.magnitude b.limit) Quantity.tolerance := by
    rw [Rational.greater_eq]
    exact lt_max_of_lt_right Rational.tolerance_pos
  induction t using List.reverseRecOn with
  | nil => exact (mul_zero _).symm
  | append_singleton t c ih =>
      obtain ⟨w, hw⟩ := List.length_eq_one_iff.1 (ht c (by simp))
      have hone : [c].filterMap (·.weights[0]?) = [w] := by
        rw [List.filterMap_cons, hw]
        rfl
      have hload : c.load [b] =
          w / Quantity.greater (Quantity.magnitude b.limit) Quantity.tolerance := by
        unfold load Budget.load
        rw [hw]
        exact zero_add _
      rw [List.filterMap_append, hone, Rational.sum_concat, totalLoad_concat, hload, mul_add,
        mul_div_cancel₀ _ hpos.ne', ih fun c hc => ht c (List.mem_append_left _ hc)]

/-- With one budget, what is within it loads less than what is not. -/
theorem totalLoad_lt (hs : ∀ c ∈ s, c.Weighs [b]) (ht : ∀ c ∈ t, c.Weighs [b])
    (hkeep : Keep [b] t) (hover : ¬ Keep [b] s) : totalLoad [b] t < totalLoad [b] s := by
  refine lt_of_not_ge fun hle => hover ?_
  rw [keep_iff_getElem] at *
  intro j hj
  obtain rfl : j = 0 := Nat.lt_one_iff.1 hj
  refine admits_of_le ?_ (hkeep 0 hj)
  rw [sum_weights_eq hs, sum_weights_eq ht]
  refine mul_le_mul_of_nonneg_left hle ?_
  rw [Rational.greater_eq]
  exact le_max_of_le_right Rational.tolerance_pos.le

end Candidate

open Candidate

namespace Greedy

variable {cs done l t : List (Candidate ℚ)} {c : Candidate ℚ}

/-! ## The order of the pass -/

/-- The score per load, beyond every number where there is no load. -/
def key (budgets : List (Budget ℚ)) (c : Candidate ℚ) : WithTop ℚ := ratio? budgets c

theorem key_of_lt (h : Quantity.tolerance < c.load budgets) :
    key budgets c = ((c.score / c.load budgets : ℚ) : WithTop ℚ) := by
  unfold key ratio?
  dsimp only
  rw [if_pos h]
  rfl

theorem key_of_not_lt (h : ¬ Quantity.tolerance < c.load budgets) : key budgets c = ⊤ := by
  unfold key ratio?
  dsimp only
  rw [if_neg h]
  rfl

theorem before_iff {a b : Candidate ℚ} : before budgets a b = true ↔
    key budgets b < key budgets a ∨ key budgets a = key budgets b ∧ a.ordinal ≤ b.ordinal := by
  unfold before key
  rcases ratio? budgets a with _ | x <;> rcases ratio? budgets b with _ | y
  · refine decide_eq_true_iff.trans ⟨fun h => .inr ⟨rfl, h⟩, ?_⟩
    rintro (h | ⟨-, h⟩)
    · exact absurd h (lt_irrefl (⊤ : WithTop ℚ))
    · exact h
  · exact iff_of_true rfl (.inl (WithTop.coe_lt_top y))
  · refine iff_of_false Bool.false_ne_true ?_
    rintro (h | ⟨h, -⟩)
    · exact not_top_lt h
    · exact WithTop.coe_ne_top h
  · refine Rational.rankedBy_id.ranksBefore_iff.trans ?_
    exact or_congr WithTop.coe_lt_coe.symm (and_congr_left' WithTop.coe_inj.symm)

theorem pairwise_order (budgets : List (Budget ℚ)) (cs : List (Candidate ℚ)) :
    (order budgets cs).Pairwise fun a b => key budgets b ≤ key budgets a := by
  have hordered : (order budgets cs).Pairwise fun a b => before budgets a b = true := by
    refine List.pairwise_mergeSort (fun a b c hab hbc => ?_) (fun a b => ?_) _
    · rw [before_iff] at *
      grind
    · rw [Bool.or_eq_true, before_iff, before_iff]
      grind
  refine hordered.imp fun h => ?_
  rcases before_iff.1 h with hlt | ⟨heq, -⟩
  · exact hlt.le
  · exact heq.ge

variable {ρ : ℚ}

theorem mul_load_le (h : (ρ : WithTop ℚ) ≤ key budgets c) (hscore : 0 ≤ c.score)
    (hload : c.load budgets = 0 ∨ Quantity.tolerance < c.load budgets) :
    ρ * c.load budgets ≤ c.score := by
  rcases hload with hzero | hload
  · rw [hzero, mul_zero]
    exact hscore
  · rw [key_of_lt hload, WithTop.coe_le_coe] at h
    exact (le_div_iff₀ (Rational.tolerance_pos.trans hload)).1 h

theorem le_mul_load (h : key budgets c ≤ (ρ : WithTop ℚ)) : c.score ≤ ρ * c.load budgets := by
  have hload : Quantity.tolerance < c.load budgets := by
    refine Decidable.byContradiction fun hload => ?_
    rw [key_of_not_lt hload, top_le_iff] at h
    exact WithTop.coe_ne_top h
  rw [key_of_lt hload, WithTop.coe_le_coe] at h
  exact (div_le_iff₀ (Rational.tolerance_pos.trans hload)).1 h

/-! ## The pass -/

/-- What the pass takes up. -/
def pass (budgets : List (Budget ℚ)) (cs : List (Candidate ℚ)) : List (Candidate ℚ) :=
  take budgets (Budget.unused budgets) (order budgets cs)

theorem score_pos_of_mem_order (h : c ∈ order budgets cs) : 0 < c.score :=
  of_decide_eq_true (List.mem_filter.1 ((order_perm _ cs).subset h)).2

theorem order_subset (cs : List (Candidate ℚ)) : order budgets cs ⊆ cs :=
  fun _ hc => gainful_subset cs ((order_perm _ cs).subset hc)

theorem pass_sublist (cs : List (Candidate ℚ)) : (pass budgets cs).Sublist (order budgets cs) :=
  take_sublist _ _

/-- The selection is that of the pass, or a single candidate that is worth more. -/
theorem solve_cases (budgets : List (Budget ℚ)) (cs : List (Candidate ℚ)) :
    solve budgets cs = pass budgets cs ∧
        (∀ c ∈ cs, c.fitsAlone budgets = true →
          pass budgets cs ≠ [] ∧ c.score ≤ total (pass budgets cs) + Quantity.tolerance) ∨
      ∃ single, best? (cs.filter (·.fitsAlone budgets)) = some single ∧
        solve budgets cs = [single] ∧
        (total (pass budgets cs) + Quantity.tolerance < single.score ∨ pass budgets cs = []) := by
  have htotal : (pass budgets cs).foldl (fun sum c => sum + c.score) Quantity.zero =
      total (pass budgets cs) := List.foldl_map.symm
  unfold solve
  dsimp only
  rw [← pass, htotal]
  cases hbest : best? (cs.filter (·.fitsAlone budgets)) with
  | none =>
      refine .inl ⟨rfl, fun c hc hfits => ?_⟩
      obtain ⟨single, hsingle⟩ := exists_best (List.mem_filter.2 ⟨hc, hfits⟩)
      rw [hbest] at hsingle
      cases hsingle
  | some single =>
      dsimp only
      split
      · rename_i hmore
        rw [Bool.or_eq_true, decide_eq_true_iff, List.isEmpty_iff] at hmore
        exact .inr ⟨single, rfl, rfl, hmore⟩
      · rename_i hmore
        rw [Bool.or_eq_true, decide_eq_true_iff, List.isEmpty_iff, not_or] at hmore
        refine .inl ⟨rfl, fun c hc hfits => ⟨hmore.2, ?_⟩⟩
        exact (score_le_best hbest (List.mem_filter.2 ⟨hc, hfits⟩)).trans (not_lt.1 hmore.1)

theorem solve_subperm (cs : List (Candidate ℚ)) : (solve budgets cs).Subperm cs := by
  rcases solve_cases budgets cs with ⟨hsolve, -⟩ | ⟨single, hbest, hsolve, -⟩
  · rw [hsolve]
    exact (pass_sublist cs).subperm.trans
      ((order_perm _ cs).subperm.trans List.filter_sublist.subperm)
  · rw [hsolve]
    exact List.singleton_subperm_iff.2 (List.filter_sublist.subset (mem_of_best? hbest))

/-- What is left out does not fit on top of all that is taken up. -/
theorem not_keep_of_left (done : List (Candidate ℚ)) (hweighs : ∀ c ∈ l, c.Weighs budgets)
    (huses : ∀ c ∈ done ++ l, c.NonnegWeights)
    (hleft : (c :: take budgets (used budgets done) l).Subperm l) :
    ¬ Keep budgets (done ++ take budgets (used budgets done) l ++ [c]) := by
  induction l generalizing done with
  | nil => exact absurd (List.subperm_nil.1 hleft) (List.cons_ne_nil _ _)
  | cons d l ih =>
      have hd : d.Weighs budgets := hweighs d List.mem_cons_self
      have hweighs' : ∀ c ∈ l, c.Weighs budgets := fun c hc => hweighs c (List.mem_cons_of_mem _ hc)
      by_cases hfits : d.fits budgets (used budgets done) = true
      · have htake : take budgets (used budgets done) (d :: l) =
            d :: take budgets (used budgets (done ++ [d])) l := by
          rw [take, if_pos hfits, ← used_concat hd]
        rw [htake] at hleft ⊢
        rw [List.append_cons done d] at huses ⊢
        refine ih _ hweighs' huses ?_
        exact (List.subperm_cons d).1 ((List.Perm.swap c d _).subperm.trans hleft)
      · have htake : take budgets (used budgets done) (d :: l) = take budgets (used budgets done) l := by
          rw [take, if_neg hfits]
        rw [htake] at hleft ⊢
        intro hkeep
        have huses' : ∀ c ∈ done ++ l, c.NonnegWeights := fun c hc =>
          huses c (((List.sublist_cons_self d l).append_left done).subset hc)
        -- what is left out fitted as well, so it is not the candidate that does not fit
        have hfitted : ∀ a ∈ c :: take budgets (used budgets done) l,
            a.fits budgets (used budgets done) = true := by
          intro a ha
          have hsub : (done ++ [a]).Sublist
              (done ++ take budgets (used budgets done) l ++ [c]) := by
            rcases List.mem_cons.1 ha with rfl | ha
            · exact (List.sublist_append_left done _).append_right [a]
            · exact ((List.singleton_sublist.2 ha).append_left done).trans
                (List.sublist_append_left _ [c])
          have huses'' : ∀ a ∈ done ++ take budgets (used budgets done) l ++ [c],
              a.NonnegWeights := by
            intro a ha
            rcases List.mem_append.1 ha with ha | ha
            · exact huses' a (((take_sublist _ l).append_left done).subset ha)
            · rw [List.mem_singleton.1 ha]
              exact huses c (List.mem_append_right _ (hleft.subset List.mem_cons_self))
          exact fits_of_keep_concat (hweighs a (hleft.subset ha)) (keep_of_sublist hsub huses'' hkeep)
        have hleft' := hleft.filter (·.fits budgets (used budgets done))
        rw [List.filter_eq_self.2 hfitted, List.filter_cons_of_neg hfits] at hleft'
        exact ih _ hweighs' huses' (hleft'.trans List.filter_sublist.subperm) hkeep

/-- A gainful candidate that the pass leaves out does not fit on top of what it takes up. -/
theorem not_keep_pass_concat (hweighs : ∀ c ∈ cs, c.Weighs budgets)
    (huses : ∀ c ∈ cs, c.NonnegWeights) (hscore : 0 < c.score)
    (hleft : (c :: pass budgets cs).Subperm cs) : ¬ Keep budgets (pass budgets cs ++ [c]) := by
  have hgainful : ∀ a ∈ c :: pass budgets cs, decide (Quantity.zero < a.score) = true := by
    intro a ha
    rcases List.mem_cons.1 ha with rfl | ha
    · exact decide_eq_true hscore
    · exact decide_eq_true (score_pos_of_mem_order ((pass_sublist cs).subset ha))
  have hleft' := hleft.filter (Quantity.zero < ·.score)
  rw [List.filter_eq_self.2 hgainful] at hleft'
  have horder := hleft'.trans (order_perm budgets cs).symm.subperm
  unfold pass at *
  rw [← used_nil] at *
  exact not_keep_of_left [] (fun c hc => hweighs c (order_subset cs hc))
    (fun c hc => huses c (order_subset cs hc)) horder

/-- Nothing that adds to the objective fits beside the selection, unless this is a single candidate
that is worth more than all that the pass takes up. -/
theorem leaves_nothing_or_single (hweighs : ∀ c ∈ cs, c.Weighs budgets)
    (huses : ∀ c ∈ cs, c.NonnegWeights) :
    (∀ c, (c :: solve budgets cs).Subperm cs → Quantity.tolerance < c.score →
        c.fits budgets (used budgets (solve budgets cs)) = false) ∨
      ∃ single, best? (cs.filter (·.fitsAlone budgets)) = some single ∧
        solve budgets cs = [single] ∧ pass budgets cs ≠ [] ∧
        total (pass budgets cs) + Quantity.tolerance < single.score := by
  rcases solve_cases budgets cs with ⟨hsolve, -⟩ | ⟨single, hbest, hsolve, hmore⟩
  · left
    intro c hleft hscore
    rw [hsolve] at *
    refine eq_false_of_ne_true fun hfits => ?_
    exact not_keep_pass_concat hweighs huses (Rational.tolerance_pos.trans hscore) hleft
      (keep_concat (hweighs c (hleft.subset List.mem_cons_self)) hfits)
  · by_cases hpass : pass budgets cs = []
    · left
      intro c hleft hscore
      rw [hsolve] at *
      have hc : c ∈ cs := hleft.subset List.mem_cons_self
      refine eq_false_of_ne_true fun hfits => ?_
      have hpair : ∀ a ∈ [single] ++ [c], a.NonnegWeights := fun a ha =>
        huses a (hleft.subset (List.mem_cons.2 (by simpa [or_comm] using ha)))
      have hkeep : Keep budgets [c] := keep_of_sublist (List.sublist_append_right [single] [c]) hpair
        (keep_concat (hweighs c hc) hfits)
      refine not_keep_pass_concat hweighs huses (Rational.tolerance_pos.trans hscore) ?_ ?_
      · rw [hpass]
        exact List.singleton_subperm_iff.2 hc
      · rwa [hpass, List.nil_append]
    · exact .inr ⟨single, hbest, hsolve, hpass, hmore.resolve_right hpass⟩

/-- Features that cover something for an effort. -/
def features (numbers : List (ℚ × ℚ)) : List (Candidate ℚ) :=
  numbers.zipIdx.map fun ((coverage, effort), i) =>
    ⟨i, Optimization.feature (toString i) coverage effort, coverage, coverage, [effort]⟩

/-- One feature without effort, one of which the pass takes up, and two that were better together. -/
def rivals : List (Candidate ℚ) := features [(7, 0), (6, 6), (5, 5), (5, 5)]

theorem ordinals_solve_rivals :
    (solve [⟨"effort", 10, false⟩] rivals).map (·.ordinal) = [0, 1] := by
  have horder : order [⟨"effort", 10, false⟩] rivals = gainful rivals :=
    List.mergeSort_of_pairwise (by decide +kernel)
  have hranked : ranked (rivals.filter (·.fitsAlone [⟨"effort", 10, false⟩])) =
      rivals.filter (·.fitsAlone [⟨"effort", 10, false⟩]) :=
    List.mergeSort_of_pairwise (by decide +kernel)
  unfold solve best?
  rw [horder, hranked]
  decide +kernel

theorem leaves_nothing_or_single_rivals :
    let found := solve [⟨"effort", 10, false⟩] rivals
    found.map (·.ordinal) = [0, 1] ∧ ∀ c, (c :: found).Subperm rivals →
      Quantity.tolerance < c.score → c.fits [⟨"effort", 10, false⟩]
        (used [⟨"effort", 10, false⟩] found) = false := by
  refine ⟨ordinals_solve_rivals, ?_⟩
  have hweighs : ∀ c ∈ rivals, c.Weighs [⟨"effort", 10, false⟩] := by
    unfold Weighs
    decide +kernel
  have huses : ∀ c ∈ rivals, c.NonnegWeights := by
    unfold NonnegWeights
    decide +kernel
  refine (leaves_nothing_or_single hweighs huses).resolve_right ?_
  rintro ⟨single, -, hsolve, -⟩
  have hboth := congrArg List.length ordinals_solve_rivals
  rw [hsolve] at hboth
  cases hboth

/-- Two features that the pass takes up, and one that is worth more than both. -/
def overshadowed : List (Candidate ℚ) := features [(20, 10), (4, 4), (90, 95)]

/-- Beside a single candidate that takes the place of the pass, another one fits. -/
theorem fits_beside_single :
    (∀ c ∈ overshadowed, c.Weighs [⟨"effort", 100, false⟩]) ∧
      (∀ c ∈ overshadowed, c.NonnegWeights) ∧
      ∃ c, (c :: solve [⟨"effort", 100, false⟩] overshadowed).Subperm overshadowed ∧
        Quantity.tolerance < c.score ∧ c.fits [⟨"effort", 100, false⟩]
          (used [⟨"effort", 100, false⟩] (solve [⟨"effort", 100, false⟩] overshadowed)) = true := by
  have hweighs : ∀ c ∈ overshadowed, c.Weighs [⟨"effort", 100, false⟩] := by
    unfold Weighs
    decide +kernel
  have huses : ∀ c ∈ overshadowed, c.NonnegWeights := by
    unfold NonnegWeights
    decide +kernel
  have horder : order [⟨"effort", 100, false⟩] overshadowed = gainful overshadowed :=
    List.mergeSort_of_pairwise (by decide +kernel)
  have htotal : total (pass [⟨"effort", 100, false⟩] overshadowed) = 24 := by
    unfold pass
    rw [horder]
    decide +kernel
  have hbest : ∀ c ∈ overshadowed, (90 : ℚ) ≤ c.score → c = overshadowed[2] :=
    List.forall_mem_cons.2 ⟨fun h => absurd h (by decide +kernel),
      List.forall_mem_cons.2 ⟨fun h => absurd h (by decide +kernel),
        List.forall_mem_singleton.2 fun _ => rfl⟩⟩
  have hfits : overshadowed[2] ∈ overshadowed.filter (·.fitsAlone [⟨"effort", 100, false⟩]) :=
    List.mem_filter.2 ⟨List.getElem_mem _, by decide +kernel⟩
  have hsolve : solve [⟨"effort", 100, false⟩] overshadowed = [overshadowed[2]] := by
    rcases solve_cases [⟨"effort", 100, false⟩] overshadowed with
      ⟨-, hless⟩ | ⟨single, hsingle, hsolve, -⟩
    · obtain ⟨hmem, halone⟩ := List.mem_filter.1 hfits
      have hless := (hless _ hmem halone).2
      rw [htotal] at hless
      exact absurd hless (by decide +kernel)
    · rw [hsolve, hbest single (List.filter_sublist.subset (mem_of_best? hsingle))
        (score_le_best hsingle hfits)]
  refine ⟨hweighs, huses, overshadowed[1], ?_, by decide +kernel, ?_⟩
  · rw [hsolve]
    exact (List.sublist_cons_self _ _).subperm
  · rw [hsolve]
    decide +kernel

/-! ## Half of the best -/

/-- The pass comes to a candidate that fits alone, but not on top of those before it that do. -/
structure PassesOver (budgets : List (Budget ℚ)) (done l : List (Candidate ℚ))
    (earlier : List (Candidate ℚ)) (k : Candidate ℚ) (later : List (Candidate ℚ)) : Prop where
  split : l = earlier ++ k :: later
  fitsAlone : k.fitsAlone budgets = true
  taken : (earlier.filter (·.fitsAlone budgets)).Sublist (take budgets (used budgets done) l)
  keep : Keep budgets (done ++ earlier.filter (·.fitsAlone budgets))
  exceeds : ¬ Keep budgets (done ++ earlier.filter (·.fitsAlone budgets) ++ [k])

/-- The pass takes up all that fits alone, up to the first such candidate that it passes over. -/
theorem take_eq_or_passesOver (hweighs : ∀ c ∈ l, c.Weighs budgets)
    (huses : ∀ c ∈ done ++ l, c.NonnegWeights) (hdone : Keep budgets done) :
    take budgets (used budgets done) l = l.filter (·.fitsAlone budgets) ∨
      ∃ earlier k later, PassesOver budgets done l earlier k later := by
  induction l generalizing done with
  | nil => exact .inl rfl
  | cons d l ih =>
      have hd : d.Weighs budgets := hweighs d List.mem_cons_self
      have hweighs' : ∀ c ∈ l, c.Weighs budgets := fun c hc => hweighs c (List.mem_cons_of_mem _ hc)
      by_cases hfits : d.fits budgets (used budgets done) = true
      · have htake : take budgets (used budgets done) (d :: l) =
            d :: take budgets (used budgets (done ++ [d])) l := by
          rw [take, if_pos hfits, ← used_concat hd]
        have hdone' : Keep budgets (done ++ [d]) := keep_concat hd hfits
        rw [List.append_cons done d] at huses
        have halone : d.fitsAlone budgets = true :=
          fitsAlone_of_keep hd (fun c hc => huses c (List.mem_append_left _ hc)) hdone' (by simp)
        rcases ih hweighs' huses hdone' with hall | ⟨earlier, k, later, h⟩
        · left
          rw [htake, hall, List.filter_cons_of_pos halone]
        · refine .inr ⟨d :: earlier, k, later, congrArg (d :: ·) h.split, h.fitsAlone, ?_, ?_, ?_⟩
          · rw [htake, List.filter_cons_of_pos halone]
            exact h.taken.cons_cons d
          · rw [List.filter_cons_of_pos halone, List.append_cons done d]
            exact h.keep
          · rw [List.filter_cons_of_pos halone, List.append_cons done d]
            exact h.exceeds
      · have htake : take budgets (used budgets done) (d :: l) =
            take budgets (used budgets done) l := by
          rw [take, if_neg hfits]
        by_cases halone : d.fitsAlone budgets = true
        · refine .inr ⟨[], d, l, rfl, halone, List.nil_sublist _, ?_, fun hkeep => hfits ?_⟩
          · rwa [List.filter_nil, List.append_nil]
          · rw [List.filter_nil, List.append_nil] at hkeep
            exact fits_of_keep_concat hd hkeep
        · have huses' : ∀ c ∈ done ++ l, c.NonnegWeights := fun c hc =>
            huses c (((List.sublist_cons_self d l).append_left done).subset hc)
          rcases ih hweighs' huses' hdone with hall | ⟨earlier, k, later, h⟩
          · left
            rw [htake, hall, List.filter_cons_of_neg halone]
          · refine .inr ⟨d :: earlier, k, later, congrArg (d :: ·) h.split, h.fitsAlone, ?_, ?_, ?_⟩
            · rw [htake, List.filter_cons_of_neg halone]
              exact h.taken
            · rw [List.filter_cons_of_neg halone]
              exact h.keep
            · rw [List.filter_cons_of_neg halone]
              exact h.exceeds

/-- Where candidates score at least a ratio of their load, and others at most, no selection has more
above the ratio than all of the former. -/
theorem total_sub_le {better worse u : List (Candidate ℚ)} (hu : u.Sublist (better ++ worse))
    (hbetter : ∀ c ∈ better, ρ * c.load budgets ≤ c.score)
    (hworse : ∀ c ∈ worse, c.score ≤ ρ * c.load budgets) :
    total u - ρ * totalLoad budgets u ≤ total better - ρ * totalLoad budgets better := by
  have hexcess : ∀ l : List (Candidate ℚ), total l - ρ * totalLoad budgets l =
      (l.map fun c => c.score - ρ * c.load budgets).sum := by
    intro l
    induction l using List.reverseRecOn with
    | nil => simp [total, totalLoad]
    | append_singleton l c ih =>
        rw [total_concat, totalLoad_concat, List.map_append, List.sum_append, ← ih,
          List.map_singleton, List.sum_singleton]
        ring
  obtain ⟨u₁, u₂, rfl, hu₁, hu₂⟩ := List.sublist_append_iff.1 hu
  rw [hexcess, hexcess, List.map_append, List.sum_append]
  have hle : (u₁.map fun c => c.score - ρ * c.load budgets).sum ≤
      (better.map fun c => c.score - ρ * c.load budgets).sum :=
    (hu₁.map _).sum_le_sum (List.forall_mem_map.2 fun c hc => sub_nonneg.2 (hbetter c hc))
  have hnonpos : (u₂.map fun c => c.score - ρ * c.load budgets).sum ≤ (u₂.map fun _ => (0 : ℚ)).sum :=
    List.sum_le_sum fun c hc => sub_nonpos.2 (hworse c (hu₂.subset hc))
  rw [List.sum_map_zero] at hnonpos
  linarith

namespace PassesOver

variable {b : Budget ℚ} {earlier later u : List (Candidate ℚ)} {k : Candidate ℚ}

theorem mem_of_mem_filter (h : PassesOver budgets done l earlier k later)
    (hc : c ∈ earlier.filter (·.fitsAlone budgets) ++ [k]) : c ∈ l := by
  rw [h.split]
  rcases List.mem_append.1 hc with hc | hc
  · exact List.mem_append_left _ (List.mem_filter.1 hc).1
  · exact List.mem_append_right _ (List.mem_singleton.1 hc ▸ List.mem_cons_self)

/-- What is within the budget loads it less than the candidate passed over would. -/
theorem totalLoad_lt (h : PassesOver [b] [] l earlier k later) (hweighs : ∀ c ∈ l, c.Weighs [b])
    (hu : u ⊆ l) (hkeep : Keep [b] u) : totalLoad [b] u <
      totalLoad [b] (earlier.filter (·.fitsAlone [b])) + k.load [b] := by
  rw [← totalLoad_concat]
  exact Candidate.totalLoad_lt (fun c hc => hweighs c (h.mem_of_mem_filter hc))
    (fun c hc => hweighs c (hu hc)) hkeep h.exceeds

/-- The candidate passed over has a load, or else it would fit. -/
theorem load_pos (h : PassesOver [b] [] l earlier k later) (hweighs : ∀ c ∈ l, c.Weighs [b]) :
    0 < k.load [b] := by
  have hlt := h.totalLoad_lt hweighs
    (fun c hc => h.mem_of_mem_filter (List.mem_append_left _ hc)) h.keep
  linarith

/-- A selection within the budget scores no more than the candidate passed over and those before it,
by the ratio at which the pass goes on. -/
theorem total_le (h : PassesOver [b] [] (order [b] cs) earlier k later)
    (hweighs : ∀ c ∈ cs, c.Weighs [b])
    (hload : ∀ c ∈ cs, (∀ w ∈ c.weights, w = 0) ∨ Quantity.tolerance < c.load [b])
    (hu : u.Sublist ((order [b] cs).filter (·.fitsAlone [b]))) (hkeep : Keep [b] u) :
    total u ≤ total (earlier.filter (·.fitsAlone [b])) + k.score := by
  have hweighs' : ∀ c ∈ order [b] cs, c.Weighs [b] := fun c hc => hweighs c (order_subset cs hc)
  have hload' : ∀ c ∈ order [b] cs, c.load [b] = 0 ∨ Quantity.tolerance < c.load [b] := fun c hc =>
    (hload c (order_subset cs hc)).imp_left load_of_zero
  have hk : k ∈ order [b] cs := h.mem_of_mem_filter (by simp)
  have hpos : 0 < k.load [b] := h.load_pos hweighs'
  have hkey := key_of_lt ((hload' k hk).resolve_left hpos.ne')
  have hsorted := pairwise_order [b] cs
  rw [h.split, List.pairwise_append, List.pairwise_cons] at hsorted
  obtain ⟨-, ⟨hlater, -⟩, hearlier⟩ := hsorted
  have hexcess : total u - k.score / k.load [b] * totalLoad [b] u ≤
      total (earlier.filter (·.fitsAlone [b])) -
        k.score / k.load [b] * totalLoad [b] (earlier.filter (·.fitsAlone [b])) := by
    rw [h.split, List.filter_append] at hu
    refine total_sub_le hu ?_ ?_
    · intro c hc
      have hmem : c ∈ order [b] cs := h.mem_of_mem_filter (List.mem_append_left _ hc)
      exact mul_load_le (hkey ▸ hearlier c (List.mem_filter.1 hc).1 k List.mem_cons_self)
        (score_pos_of_mem_order hmem).le (hload' c hmem)
    · intro c hc
      refine le_mul_load (hkey ▸ ?_)
      rcases List.mem_cons.1 (List.mem_filter.1 hc).1 with rfl | hc
      · exact le_refl _
      · exact hlater c hc
  have hroom := h.totalLoad_lt hweighs' (hu.trans List.filter_sublist).subset hkeep
  have hfraction : k.score / k.load [b] *
      (totalLoad [b] u - totalLoad [b] (earlier.filter (·.fitsAlone [b]))) ≤ k.score :=
    calc k.score / k.load [b] *
          (totalLoad [b] u - totalLoad [b] (earlier.filter (·.fitsAlone [b])))
        ≤ k.score / k.load [b] * k.load [b] :=
          mul_le_mul_of_nonneg_left (by linarith)
            (div_nonneg (score_pos_of_mem_order hk).le hpos.le)
      _ = k.score := div_mul_cancel₀ _ hpos.ne'
  rw [mul_sub] at hfraction
  linarith

end PassesOver

variable {b : Budget ℚ}

theorem score_nonneg_of_mem_pass (hc : c ∈ pass budgets cs) : 0 ≤ c.score :=
  (score_pos_of_mem_order ((pass_sublist cs).subset hc)).le

/-- A selection within one budget scores no more than the pass and one candidate that fits alone. -/
theorem total_le_pass_add (hweighs : ∀ c ∈ cs, c.Weighs [b]) (huses : ∀ c ∈ cs, c.NonnegWeights)
    (hload : ∀ c ∈ cs, (∀ w ∈ c.weights, w = 0) ∨ Quantity.tolerance < c.load [b])
    (ht : t.Sublist cs) (hkeep : Keep [b] t) :
    total t ≤ total (pass [b] cs) ∨
      ∃ k ∈ cs, k.fitsAlone [b] = true ∧ total t ≤ total (pass [b] cs) + k.score := by
  have hweighs' : ∀ c ∈ order [b] cs, c.Weighs [b] := fun c hc => hweighs c (order_subset cs hc)
  have huses' : ∀ c ∈ order [b] cs, c.NonnegWeights := fun c hc => huses c (order_subset cs hc)
  have hnone : Keep [b] [] := keep_of_sublist (List.nil_sublist t)
    (fun c hc => huses c (ht.subset hc)) hkeep
  obtain ⟨u, hu, hkeepu, hscore, -⟩ := exists_sublist_gainful (order_perm _ cs) huses ht hkeep
  have halone : ∀ c ∈ u, c.fitsAlone [b] = true := fun c hc =>
    fitsAlone_of_keep (hweighs' c (hu.subset hc)) (fun c hc => huses' c (hu.subset hc)) hkeepu hc
  have hu' := hu.filter (·.fitsAlone [b])
  rw [List.filter_eq_self.2 halone] at hu'
  have htaken : take [b] (used [b] []) (order [b] cs) = pass [b] cs := by rw [used_nil, pass]
  rcases take_eq_or_passesOver hweighs' huses' hnone with hall | ⟨earlier, k, later, h⟩
  · left
    rw [← hall, htaken] at hu'
    exact hscore.trans (total_le_of_sublist hu' fun c => score_nonneg_of_mem_pass)
  · right
    refine ⟨k, order_subset cs (h.mem_of_mem_filter (by simp)), h.fitsAlone, ?_⟩
    have hearlier := h.taken
    rw [htaken] at hearlier
    calc total t ≤ total u := hscore
      _ ≤ total (earlier.filter (·.fitsAlone [b])) + k.score := h.total_le hweighs hload hu' hkeepu
      _ ≤ total (pass [b] cs) + k.score :=
        add_le_add_left (total_le_of_sublist hearlier fun c => score_nonneg_of_mem_pass) _

/-- With one budget, the selection keeps it, and has half the score of any other selection that does,
up to the tolerance. -/
theorem total_le_two_mul (hweighs : ∀ c ∈ cs, c.Weighs [b]) (huses : ∀ c ∈ cs, c.NonnegWeights)
    (hload : ∀ c ∈ cs, (∀ w ∈ c.weights, w = 0) ∨ Quantity.tolerance < c.load [b])
    (hgain : ∃ c ∈ cs, 0 < c.score ∧ c.fitsAlone [b] = true) :
    (solve [b] cs).Subperm cs ∧ Keep [b] (solve [b] cs) ∧
      ∀ t, t.Sublist cs → Keep [b] t →
        total t ≤ 2 * total (solve [b] cs) + Quantity.tolerance := by
  obtain ⟨g, hg, hgscore, hgfits⟩ := hgain
  have hpos := Rational.tolerance_pos
  refine ⟨solve_subperm cs, (keeps_solve hweighs (List.any_eq_true.2 ⟨g, hg, hgfits⟩)).2, ?_⟩
  intro t ht hkeep
  have hpass : 0 ≤ total (pass [b] cs) :=
    total_le_of_sublist (List.nil_sublist _) fun c => score_nonneg_of_mem_pass
  have hbound := total_le_pass_add hweighs huses hload ht hkeep
  rcases solve_cases [b] cs with ⟨hsolve, hbest⟩ | ⟨single, hbest, hsolve, hmore⟩
  · rw [hsolve]
    rcases hbound with hle | ⟨k, hk, hfits, hle⟩
    · linarith
    · linarith [(hbest k hk hfits).2]
  · have htotal : total (solve [b] cs) = single.score := by
      rw [hsolve]
      exact zero_add _
    have hmost : ∀ k ∈ cs, k.fitsAlone [b] = true → k.score ≤ single.score := fun k hk hfits =>
      score_le_best hbest (List.mem_filter.2 ⟨hk, hfits⟩)
    have hless : total (pass [b] cs) ≤ single.score := by
      rcases hmore with hmore | hnil
      · linarith
      · rw [hnil]
        exact hgscore.le.trans (hmost g hg hgfits)
    rw [htotal]
    rcases hbound with hle | ⟨k, hk, hfits, hle⟩
    · linarith
    · linarith [hmost k hk hfits]

theorem total_le_two_mul_rivals :
    let found := solve [⟨"effort", 10, false⟩] rivals
    found.map (·.ordinal) = [0, 1] ∧ found.Subperm rivals ∧ Keep [⟨"effort", 10, false⟩] found ∧
      ∀ t, t.Sublist rivals → Keep [⟨"effort", 10, false⟩] t →
        total t ≤ 2 * total found + Quantity.tolerance := by
  refine ⟨ordinals_solve_rivals, total_le_two_mul ?_ ?_ ?_ ?_⟩
  · unfold Weighs
    decide +kernel
  · unfold NonnegWeights
    decide +kernel
  · decide +kernel
  · exact ⟨_, List.mem_cons_self, by decide +kernel⟩

end Greedy

end VectorQuery
