/-
# The exact search finds a best selection

In exact arithmetic branch and bound leaves out no selection that could win
(`Exact.solve_best`): of all selections that keep the budgets it finds one of the greatest score,
and among those one that is not heavier by more than the tolerance.

The search tells scores apart only beyond the tolerance, so this is said of candidates whose
selections score the same or clearly different (`Candidate.Separated`).
-/
import Mathlib.Data.List.Sublists
import Mathlib.Tactic.Linarith
import VectorQuery.Proofs.Optimization.Budgets

namespace VectorQuery

open scoped Rational

variable {budgets : List (Budget ℚ)}

namespace Candidate

variable {s t cs : List (Candidate ℚ)} {c : Candidate ℚ}

/-! ## Scores and loads of selections -/

/-- What candidates add to the objective together. -/
def total (cs : List (Candidate ℚ)) : ℚ := Quantity.sum (cs.map score)

/-- What candidates use together, in units of the limits. -/
def totalLoad (budgets : List (Budget ℚ)) (cs : List (Candidate ℚ)) : ℚ :=
  Quantity.sum (cs.map (load budgets))

/-- Selections of the candidates score the same, or differ by more than the tolerance. -/
def Separated (cs : List (Candidate ℚ)) : Prop :=
  ∀ s t : List (Candidate ℚ), s.Sublist cs → t.Sublist cs →
    total s = total t ∨ Quantity.tolerance < |total s - total t|

instance (cs : List (Candidate ℚ)) : Decidable (Separated cs) :=
  decidable_of_iff (∀ s ∈ cs.sublists, ∀ t ∈ cs.sublists,
      total s = total t ∨ Quantity.tolerance < |total s - total t|) <| by
    unfold Separated
    simp only [List.mem_sublists]
    exact ⟨fun h s t hs ht => h s hs t ht, fun h s hs t ht => h s t hs ht⟩

theorem total_append (s t : List (Candidate ℚ)) : total (s ++ t) = total s + total t := by
  unfold total
  rw [List.map_append, Rational.sum_append]

theorem total_concat (cs : List (Candidate ℚ)) (c : Candidate ℚ) :
    total (cs ++ [c]) = total cs + c.score := by
  unfold total
  rw [List.map_append, List.map_singleton, Rational.sum_concat]

theorem total_cons (c : Candidate ℚ) (cs : List (Candidate ℚ)) :
    total (c :: cs) = c.score + total cs := by
  rw [← List.singleton_append, total_append]
  exact congrArg (· + total cs) (zero_add c.score)

theorem totalLoad_concat (cs : List (Candidate ℚ)) (c : Candidate ℚ) :
    totalLoad budgets (cs ++ [c]) = totalLoad budgets cs + c.load budgets := by
  unfold totalLoad
  rw [List.map_append, List.map_singleton, Rational.sum_concat]

theorem total_perm (h : s.Perm t) : total s = total t := Rational.sum_perm (h.map _)

theorem totalLoad_perm (h : s.Perm t) : totalLoad budgets s = totalLoad budgets t :=
  Rational.sum_perm (h.map _)

theorem Separated.of_subperm (h : Separated cs) (hs : s.Subperm cs) (ht : t.Subperm cs) :
    total s = total t ∨ Quantity.tolerance < |total s - total t| := by
  obtain ⟨s', hs', hsub⟩ := hs
  obtain ⟨t', ht', htub⟩ := ht
  rw [← total_perm hs', ← total_perm ht']
  exact h s' t' hsub htub

theorem total_le_of_sublist (h : s.Sublist t) (ht : ∀ c ∈ t, 0 ≤ c.score) :
    total s ≤ total t := by
  unfold total
  rw [Rational.sum_eq, Rational.sum_eq]
  exact (h.map _).sum_le_sum (List.forall_mem_map.2 ht)

/-- Leaving out what does not add to the objective loses nothing of it. -/
theorem total_le_gainful (cs : List (Candidate ℚ)) : total cs ≤ total (gainful cs) := by
  induction cs using List.reverseRecOn with
  | nil => exact le_refl _
  | append_singleton cs c ih =>
      unfold gainful at *
      rw [total_concat, List.filter_append, total_append]
      refine add_le_add ih ?_
      rw [List.filter_singleton]
      cases hscore : decide (Quantity.zero < c.score) with
      | true => exact (zero_add c.score).ge
      | false => exact not_lt.1 (of_decide_eq_false hscore)

/-! ## Weights that are not negative -/

/-- The candidate gives back to no budget. -/
def NonnegWeights (c : Candidate ℚ) : Prop := ∀ w ∈ c.weights, 0 ≤ w

theorem NonnegWeights.load_nonneg (h : c.NonnegWeights) : 0 ≤ c.load budgets := by
  unfold load Budget.load
  rw [Rational.sum_eq, ← List.map_uncurry_zip_eq_zipWith]
  refine List.sum_nonneg (List.forall_mem_map.2 fun e he => ?_)
  refine div_nonneg (h e.2 (List.of_mem_zip he).2) ?_
  rw [Rational.greater_eq]
  exact le_max_of_le_right Rational.tolerance_pos.le

theorem totalLoad_le_of_sublist (h : s.Sublist t) (ht : ∀ c ∈ t, c.NonnegWeights) :
    totalLoad budgets s ≤ totalLoad budgets t := by
  unfold totalLoad
  rw [Rational.sum_eq, Rational.sum_eq]
  exact (h.map _).sum_le_sum (List.forall_mem_map.2 fun c hc => (ht c hc).load_nonneg)

theorem admits_of_le {b : Budget ℚ} {x y : ℚ} (h : x ≤ y) (hy : b.admits y = true) :
    b.admits x = true := by
  unfold Budget.admits at *
  split at hy
  · rename_i hstrict
    rw [if_pos hstrict]
    exact decide_eq_true (lt_of_le_of_lt h (of_decide_eq_true hy))
  · rename_i hstrict
    rw [if_neg hstrict]
    exact decide_eq_true (le_trans h (of_decide_eq_true hy))

theorem keep_iff_getElem : Keep budgets cs ↔ ∀ (j : Nat) (hj : j < budgets.length),
    budgets[j].admits (Quantity.sum (cs.filterMap (·.weights[j]?))) = true := by
  unfold Keep
  rw [List.forall_mem_iff_getElem]
  unfold used
  constructor
  · intro h j hj
    have hj' := h j (by simpa using hj)
    simpa using hj'
  · intro h j hj
    simpa using h j (by simpa using hj)

theorem used_perm (h : s.Perm t) : used budgets s = used budgets t := by
  unfold used
  exact List.map_congr_left fun j _ => Rational.sum_perm (h.filterMap _)

theorem keep_perm (h : s.Perm t) (ht : Keep budgets t) : Keep budgets s := by
  unfold Keep
  rwa [used_perm h]

/-- Fewer candidates use no more. -/
theorem keep_of_sublist (h : s.Sublist t) (ht : ∀ c ∈ t, c.NonnegWeights)
    (hkeep : Keep budgets t) : Keep budgets s := by
  rw [keep_iff_getElem] at *
  intro j hj
  refine admits_of_le ?_ (hkeep j hj)
  rw [Rational.sum_eq, Rational.sum_eq]
  refine (h.filterMap _).sum_le_sum fun w hw => ?_
  obtain ⟨c, hc, hw⟩ := List.mem_filterMap.1 hw
  exact ht c hc w (List.mem_of_getElem? hw)

/-- A selection within the budgets scores no more than one that is made, in whatever order, of
candidates that add to the objective. -/
theorem exists_sublist_gainful {order : List (Candidate ℚ)} (horder : order.Perm (gainful cs))
    (huses : ∀ c ∈ cs, c.NonnegWeights) (ht : t.Sublist cs) (hkeep : Keep budgets t) :
    ∃ u, u.Sublist order ∧ Keep budgets u ∧ total t ≤ total u ∧
      totalLoad budgets u ≤ totalLoad budgets t := by
  have huses' : ∀ c ∈ t, c.NonnegWeights := fun c hc => huses c (ht.subset hc)
  obtain ⟨u, hu, hsub⟩ := List.exists_perm_sublist (ht.filter _) horder.symm
  refine ⟨u, hsub, keep_perm hu (keep_of_sublist List.filter_sublist huses' hkeep), ?_, ?_⟩
  · rw [total_perm hu]
    exact total_le_gainful t
  · rw [totalLoad_perm hu]
    exact totalLoad_le_of_sublist List.filter_sublist huses'

theorem fits_of_keep_concat (hc : c.Weighs budgets) (h : Keep budgets (cs ++ [c])) :
    c.fits budgets (used budgets cs) = true := by
  unfold fits
  rw [fits_eq, ← used_concat hc]
  exact List.all_eq_true.2 h

end Candidate

open Candidate

/-! ## Comparing selections -/

namespace Selection

/-- The selection of the candidates, with their score and load. -/
def of (budgets : List (Budget ℚ)) (cs : List (Candidate ℚ)) : Selection ℚ :=
  ⟨cs, total cs, totalLoad budgets cs⟩

/-- The selection is of more value than another one, or of the same value and heavier by no more
than the slack. -/
def Covers (slack : ℚ) (s t : Selection ℚ) : Prop :=
  t.value < s.value ∨ t.value = s.value ∧ s.load ≤ t.load + slack

theorem of_nil : of budgets [] = empty := rfl

theorem of_concat (cs : List (Candidate ℚ)) (c : Candidate ℚ) :
    of budgets (cs ++ [c]) = (of budgets cs).add budgets c := by
  unfold of add
  rw [total_concat, totalLoad_concat]

variable {slack : ℚ} {s t u : Selection ℚ}

theorem Covers.refl (s : Selection ℚ) : Covers 0 s s := .inr ⟨rfl, (add_zero s.load).ge⟩

theorem Covers.trans (hst : Covers 0 s t) (htu : Covers slack t u) : Covers slack s u := by
  rcases hst with hst | ⟨hst, hload⟩
  · rcases htu with htu | ⟨htu, -⟩
    · exact .inl (lt_trans htu hst)
    · exact .inl (htu ▸ hst)
  · rw [add_zero] at hload
    rcases htu with htu | ⟨htu, hload'⟩
    · exact .inl (hst ▸ htu)
    · exact .inr ⟨htu.trans hst, le_trans hload hload'⟩

/-- The better of two selections is as good as the best one so far, and loses to the other one no
more than the tolerance. -/
theorem covers_orBest (h : s.value = t.value ∨ Quantity.tolerance < |s.value - t.value|) :
    Covers 0 (s.orBest t) t ∧ Covers Quantity.tolerance (s.orBest t) s := by
  have hpos := Rational.tolerance_pos
  have hself : Covers Quantity.tolerance s s := .inr ⟨rfl, le_add_of_nonneg_right hpos.le⟩
  unfold orBest improves
  rw [Rational.magnitude_eq]
  split
  · rename_i himproves
    refine ⟨?_, hself⟩
    rcases Bool.or_eq_true_iff.1 himproves with hmore | htie
    · exact .inl (lt_trans (lt_add_of_pos_right _ hpos) (of_decide_eq_true hmore))
    · obtain ⟨hnear, hlight⟩ := Bool.and_eq_true_iff.1 htie
      have heq : s.value = t.value := h.resolve_right (not_lt.2 (of_decide_eq_true hnear))
      have hlight : s.load < t.load - Quantity.tolerance := of_decide_eq_true hlight
      exact .inr ⟨heq.symm, by linarith⟩
  · rename_i hbehind
    rw [Bool.or_eq_true, not_or, Bool.and_eq_true, not_and] at hbehind
    refine ⟨.refl t, ?_⟩
    rcases h with heq | hfar
    · have hnear : |s.value - t.value| ≤ Quantity.tolerance := by
        rw [heq, sub_self, abs_zero]
        exact hpos.le
      have hheavy : ¬ s.load < t.load - Quantity.tolerance :=
        fun hlight => hbehind.2 (decide_eq_true hnear) (decide_eq_true hlight)
      exact .inr ⟨heq, by linarith⟩
    · have hless : ¬ t.value + Quantity.tolerance < s.value :=
        fun hmore => hbehind.1 (decide_eq_true hmore)
      rcases lt_abs.1 hfar with hfar | hfar
      · exact absurd (lt_sub_iff_add_lt'.1 hfar) hless
      · exact .inl (by linarith)

end Selection

/-! ## The search -/

namespace Exact

open Selection

variable {cs picked tail best best' found : List (Candidate ℚ)} {c : Candidate ℚ}

/-- A search from a selection through further candidates finds a selection of the candidates that
keeps the budgets, as good as the best one so far, that no extension within the budgets beats by
more than the tolerance. -/
structure Finds (budgets : List (Budget ℚ)) (cs picked tail best found : List (Candidate ℚ)) :
    Prop where
  subperm : found.Subperm cs
  keep : Keep budgets found
  covers_best : Covers 0 (of budgets found) (of budgets best)
  covers : ∀ t, t.Sublist tail → Keep budgets (picked ++ t) →
    Covers Quantity.tolerance (of budgets found) (of budgets (picked ++ t))

/-- Without further candidates there is the selection itself. -/
theorem exists_finds_nil (hsep : Separated cs) (hpicked : picked.Subperm cs)
    (hbest : best.Subperm cs) (hkeep : Keep budgets picked) (hkept : Keep budgets best) :
    ∃ found, (of budgets picked).orBest (of budgets best) = of budgets found ∧
      Finds budgets cs picked [] best found := by
  have hcovers := covers_orBest (s := of budgets picked) (t := of budgets best)
    (hsep.of_subperm hpicked hbest)
  have hnil : ∀ found, Covers Quantity.tolerance (of budgets found) (of budgets picked) →
      ∀ t, t.Sublist [] → Keep budgets (picked ++ t) →
        Covers Quantity.tolerance (of budgets found) (of budgets (picked ++ t)) := by
    intro found h t ht _
    rw [List.sublist_nil.1 ht, List.append_nil]
    exact h
  unfold orBest at *
  split at hcovers
  · rename_i himproves
    exact ⟨picked, if_pos himproves, hpicked, hkeep, hcovers.1, hnil _ hcovers.2⟩
  · rename_i himproves
    exact ⟨best, if_neg himproves, hbest, hkept, hcovers.1, hnil _ hcovers.2⟩

namespace Finds

/-- A branch that cannot reach the best value may be left. -/
theorem of_prune (h : Finds budgets cs picked [] best found) (hscores : ∀ c ∈ tail, 0 ≤ c.score)
    (hprune : total picked + total tail < total found) :
    Finds budgets cs picked tail best found where
  subperm := h.subperm
  keep := h.keep
  covers_best := h.covers_best
  covers := by
    intro t ht _
    refine .inl (lt_of_le_of_lt ?_ hprune)
    change total (picked ++ t) ≤ total picked + total tail
    rw [total_append]
    exact add_le_add_right (total_le_of_sublist ht hscores) _

/-- A candidate that does not fit may be left out. -/
theorem of_skip (hnode : Finds budgets cs picked [] best best')
    (hskip : ∀ t, t.Sublist tail → ¬ Keep budgets (picked ++ c :: t))
    (h : Finds budgets cs picked tail best' found) :
    Finds budgets cs picked (c :: tail) best found where
  subperm := h.subperm
  keep := h.keep
  covers_best := h.covers_best.trans hnode.covers_best
  covers := by
    intro t ht hkeep
    rcases List.sublist_cons_iff.1 ht with hleft | ⟨t, rfl, htake⟩
    · exact h.covers t hleft hkeep
    · exact (hskip t htake hkeep).elim

/-- A candidate is taken up first and left out then. -/
theorem of_branch (hnode : Finds budgets cs picked [] best best')
    {taken : List (Candidate ℚ)} (htaken : Finds budgets cs (picked ++ [c]) tail best' taken)
    (h : Finds budgets cs picked tail taken found) :
    Finds budgets cs picked (c :: tail) best found where
  subperm := h.subperm
  keep := h.keep
  covers_best := h.covers_best.trans (htaken.covers_best.trans hnode.covers_best)
  covers := by
    intro t ht hkeep
    rcases List.sublist_cons_iff.1 ht with hleft | ⟨t, rfl, htake⟩
    · exact h.covers t hleft hkeep
    · rw [List.append_cons] at hkeep ⊢
      exact h.covers_best.trans (htaken.covers t htake hkeep)

end Finds

/-- What a candidate and those after it could add is what they score together. -/
theorem withPotential_cons (c : Candidate ℚ) (cs : List (Candidate ℚ)) :
    withPotential (c :: cs) = (c, total (c :: cs)) :: withPotential cs := by
  induction cs generalizing c with
  | nil => rfl
  | cons d cs ih => rw [withPotential, ih, total_cons c, add_comm]

/-- The search hands on what its selection uses. -/
theorem used_explore (hweighs : ∀ c ∈ tail, c.Weighs budgets) (hkeep : Keep budgets picked)
    (hkept : Keep budgets best) : (explore budgets (withPotential tail) (of budgets picked)
      (used budgets picked) (of budgets best)).1 = used budgets picked := by
  have hcurrent : NoneOrKeep budgets (of budgets picked).picked := .inr hkeep
  have hbest : NoneOrKeep budgets (of budgets best).picked := .inr hkept
  exact (keeps_explore (fun p hp => hweighs p.1 (mem_withPotential hp)) rfl hcurrent hbest).1

/-- The search leaves out no extension that could win. -/
theorem exists_explore (hsep : Separated cs) (hweighs : ∀ c ∈ cs, c.Weighs budgets)
    (huses : ∀ c ∈ cs, c.NonnegWeights) (hscores : ∀ c ∈ tail, 0 ≤ c.score)
    (hsub : (picked ++ tail).Subperm cs) (hbest : best.Subperm cs)
    (hkeep : Keep budgets picked) (hkept : Keep budgets best) :
    ∃ found, (explore budgets (withPotential tail) (of budgets picked) (used budgets picked)
        (of budgets best)).2 = of budgets found ∧ Finds budgets cs picked tail best found := by
  induction tail generalizing picked best with
  | nil =>
      rw [List.append_nil] at hsub
      exact exists_finds_nil hsep hsub hbest hkeep hkept
  | cons c tail ih =>
      have hscores' : ∀ c ∈ tail, 0 ≤ c.score := fun c hc => hscores c (List.mem_cons_of_mem _ hc)
      have hc : c ∈ cs := hsub.subset (List.mem_append_right _ List.mem_cons_self)
      have hleft : (picked ++ tail).Subperm cs :=
        ((List.sublist_cons_self c tail).append_left picked).subperm.trans hsub
      obtain ⟨best', hbest', hnode⟩ := exists_finds_nil hsep
        ((List.sublist_append_left picked _).subperm.trans hsub) hbest hkeep hkept
      rw [withPotential_cons, explore, hbest']
      split
      · rename_i hprune
        refine ⟨best', rfl, hnode.of_prune hscores (lt_trans hprune ?_)⟩
        exact sub_lt_self _ Rational.tolerance_pos
      · split
        · rename_i hfits
          have htake : Keep budgets (picked ++ [c]) := keep_concat (hweighs c hc) hfits
          have hsub' : ((picked ++ [c]) ++ tail).Subperm cs := List.append_cons .. ▸ hsub
          obtain ⟨taken, htaken, hfinds⟩ := ih hscores' hsub' hnode.subperm htake hnode.keep
          obtain ⟨found, hfound, hfinds'⟩ := ih hscores' hleft hfinds.subperm hkeep hfinds.keep
          have hweighs' : ∀ a ∈ tail, a.Weighs budgets := fun a ha =>
            hweighs a (hleft.subset (List.mem_append_right _ ha))
          refine ⟨found, ?_, hnode.of_branch hfinds hfinds'⟩
          dsimp only
          rw [← of_concat, ← used_concat (hweighs c hc), used_explore hweighs' htake hnode.keep,
            htaken, used_concat (hweighs c hc),
            zipWith_sub_add (by rw [length_used, hweighs c hc])]
          exact hfound
        · rename_i hfits
          have hskip : ∀ t, t.Sublist tail → ¬ Keep budgets (picked ++ c :: t) := by
            intro t ht hwith
            have huses' : ∀ a ∈ picked ++ c :: t, a.NonnegWeights := fun a ha =>
              huses a (hsub.subset (((ht.cons_cons c).append_left picked).subset ha))
            rw [List.append_cons] at hwith huses'
            exact hfits (fits_of_keep_concat (hweighs c hc)
              (keep_of_sublist (List.sublist_append_left _ t) huses' hwith))
          obtain ⟨found, hfound, hfinds⟩ := ih hscores' hleft hnode.subperm hkeep hnode.keep
          exact ⟨found, hfound, hnode.of_skip hskip hfinds⟩

/-- Where a candidate adds to the objective, the search through all that do leaves out nothing. -/
theorem finds_solve (hweighs : ∀ c ∈ cs, c.Weighs budgets) (huses : ∀ c ∈ cs, c.NonnegWeights)
    (hgain : ∃ c ∈ cs, 0 < c.score) (hnone : Keep budgets []) (hsep : Separated cs) :
    Finds budgets cs [] (ranked (gainful cs)) [] (solve budgets cs) := by
  have hscores : ∀ c ∈ ranked (gainful cs), 0 ≤ c.score := fun c hc =>
    (of_decide_eq_true (List.mem_filter.1 ((ranked_perm (gainful cs)).subset hc)).2).le
  have hsub : ([] ++ ranked (gainful cs)).Subperm cs :=
    (ranked_perm (gainful cs)).subperm.trans List.filter_sublist.subperm
  obtain ⟨found, hfound, hfinds⟩ :=
    exists_explore hsep hweighs huses hscores hsub List.nil_subperm hnone hnone
  rw [used_nil, of_nil] at hfound
  obtain ⟨c, hc, hscore⟩ := hgain
  have hmem : c ∈ ranked (gainful cs) :=
    (ranked_perm (gainful cs)).symm.subset (List.mem_filter.2 ⟨hc, decide_eq_true hscore⟩)
  have hsolve : solve budgets cs = found := by
    unfold solve
    split
    · rename_i hnil
      rw [hnil] at hmem
      cases hmem
    · rw [hfound]
      rfl
  rwa [hsolve]

/-- What does not add to the objective can be left out of any selection. -/
theorem Finds.covers_gainful (h : Finds budgets cs [] (ranked (gainful cs)) [] found)
    (huses : ∀ c ∈ cs, c.NonnegWeights) {t : List (Candidate ℚ)} (ht : t.Sublist cs)
    (hkeep : Keep budgets t) :
    ∃ u, total t ≤ total u ∧ totalLoad budgets u ≤ totalLoad budgets t ∧
      Covers Quantity.tolerance (of budgets found) (of budgets u) := by
  obtain ⟨u, hu, hkeep, hscore, hload⟩ :=
    exists_sublist_gainful (ranked_perm (gainful cs)) huses ht hkeep
  exact ⟨u, hscore, hload, h.covers u hu hkeep⟩

/-- Where some candidate adds to the objective and some candidate fits alone, the exact search finds
a selection within the budgets of the greatest score, none of which is lighter by more than the
tolerance. -/
theorem solve_best (hweighs : ∀ c ∈ cs, c.Weighs budgets) (huses : ∀ c ∈ cs, c.NonnegWeights)
    (hgain : ∃ c ∈ cs, 0 < c.score) (hfit : ∃ c ∈ cs, c.fitsAlone budgets = true)
    (hsep : Separated cs) :
    (solve budgets cs).Subperm cs ∧ Keep budgets (solve budgets cs) ∧
      (∀ t, t.Sublist cs → Keep budgets t → total t ≤ total (solve budgets cs)) ∧
      ∀ t, t.Sublist cs → Keep budgets t → total t = total (solve budgets cs) →
        ¬ totalLoad budgets t < totalLoad budgets (solve budgets cs) - Quantity.tolerance := by
  have hnone : Keep budgets [] := by
    obtain ⟨c, hc, hfits⟩ := hfit
    exact keep_of_sublist (List.nil_sublist [c])
      (fun a ha => huses a (List.mem_singleton.1 ha ▸ hc)) (keep_of_fitsAlone (hweighs c hc) hfits)
  have hfinds := finds_solve hweighs huses hgain hnone hsep
  refine ⟨hfinds.subperm, hfinds.keep, fun t ht hkeep => ?_, fun t ht hkeep heq hlight => ?_⟩
  · obtain ⟨u, hscore, -, hmore | ⟨hsame, -⟩⟩ := hfinds.covers_gainful huses ht hkeep
    · exact hscore.trans hmore.le
    · exact hscore.trans hsame.le
  · obtain ⟨u, hscore, hload, hmore | ⟨-, hlight'⟩⟩ := hfinds.covers_gainful huses ht hkeep
    · exact absurd (heq.ge.trans hscore) (not_le.2 hmore)
    · have hlight' : totalLoad budgets (solve budgets cs) ≤
          totalLoad budgets u + Quantity.tolerance := hlight'
      linarith

/-- Two ways to cover 5 with an effort within 5, and a feature that is not worth anything. -/
def features : List (Candidate ℚ) :=
  [(5, 4), (3, 3), (2, 2), (-1, 0)].zipIdx.map fun ((coverage, effort), i) =>
    ⟨i, Optimization.feature (toString i) coverage effort, coverage, coverage, [effort]⟩

theorem solve_best_features :
    let found := solve [⟨"effort", 5, false⟩] features
    found.map (·.ordinal) = [0] ∧ found.Subperm features ∧ Keep [⟨"effort", 5, false⟩] found ∧
      (∀ t, t.Sublist features → Keep [⟨"effort", 5, false⟩] t → total t ≤ total found) ∧
      ∀ t, t.Sublist features → Keep [⟨"effort", 5, false⟩] t → total t = total found →
        ¬ totalLoad [⟨"effort", 5, false⟩] t <
          totalLoad [⟨"effort", 5, false⟩] found - Quantity.tolerance := by
  have hranked : ranked (gainful features) = gainful features :=
    List.mergeSort_of_pairwise (by decide +kernel)
  refine ⟨?_, solve_best ?_ ?_ ?_ ?_ ?_⟩
  · unfold solve
    rw [hranked]
    decide +kernel
  · unfold Weighs
    decide +kernel
  · unfold NonnegWeights
    decide +kernel
  · exact ⟨_, List.mem_cons_self, by decide +kernel⟩
  · exact ⟨_, List.mem_cons_self, by decide +kernel⟩
  · decide +kernel

end Exact

end VectorQuery
