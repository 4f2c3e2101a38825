/-
# Selections are made from the candidates

Whatever the arithmetic, a solver selects some of the candidates that it is given, and these are
entities of the pool (`Optimization.mem_pool_of_selected`).
-/
import VectorQuery.Optimization.Basic
import VectorQuery.Proofs.Ranking

namespace VectorQuery

variable {α : Type} [Quantity α] {budgets : List (Budget α)}

namespace Candidate

variable {cs : List (Candidate α)}

theorem ranked_perm (cs : List (Candidate α)) : (ranked cs).Perm cs := rankedBy_perm _ _ cs

theorem ranked_subset (cs : List (Candidate α)) : ranked cs ⊆ cs := (ranked_perm cs).subset

theorem gainful_subset (cs : List (Candidate α)) : gainful cs ⊆ cs := List.filter_sublist.subset

theorem mem_of_best? {c : Candidate α} (h : best? cs = some c) : c ∈ cs := mem_of_rankedBy_head? h

theorem exists_best {c : Candidate α} (hc : c ∈ cs) : ∃ best, best? cs = some best := by
  unfold best?
  cases hranked : ranked cs with
  | cons best rest => exact ⟨best, rfl⟩
  | nil =>
      rw [rankedBy_eq_nil_iff.1 hranked] at hc
      cases hc

end Candidate

open Candidate

namespace Exact

/-- The search selects from the candidates it is given. -/
theorem forall_explore {P : Candidate α → Prop} {rest : List (Candidate α × α)}
    {current best : Selection α} {used : List α} (hrest : ∀ p ∈ rest, P p.1)
    (hcurrent : ∀ c ∈ current.picked, P c) (hbest : ∀ c ∈ best.picked, P c) :
    ∀ c ∈ (explore budgets rest current used best).2.picked, P c := by
  have horBest : ∀ s t : Selection α, (∀ c ∈ s.picked, P c) → (∀ c ∈ t.picked, P c) →
      ∀ c ∈ (s.orBest t).picked, P c := by
    intro s t hs ht
    unfold Selection.orBest
    split
    · exact hs
    · exact ht
  induction rest generalizing current used best with
  | nil => exact horBest _ _ hcurrent hbest
  | cons p rest ih =>
      obtain ⟨c, potential⟩ := p
      have hrest' : ∀ p ∈ rest, P p.1 := fun p hp => hrest p (List.mem_cons_of_mem _ hp)
      have hbest' := horBest _ _ hcurrent hbest
      have hadd : ∀ a ∈ (current.add budgets c).picked, P a := by
        intro a ha
        rcases List.mem_append.1 ha with ha | ha
        · exact hcurrent a ha
        · rw [List.mem_singleton.1 ha]
          exact hrest _ List.mem_cons_self
      rw [explore]
      split
      · exact hbest'
      · split
        · exact ih hrest' hcurrent (ih hrest' hadd hbest')
        · exact ih hrest' hcurrent hbest'

theorem mem_withPotential {cs : List (Candidate α)} {p : Candidate α × α}
    (h : p ∈ withPotential cs) : p.1 ∈ cs := by
  induction cs with
  | nil => cases h
  | cons c cs ih =>
      rcases List.mem_cons.1 h with rfl | h
      · exact List.mem_cons_self
      · exact List.mem_cons_of_mem _ (ih h)

theorem subset_solve (cs : List (Candidate α)) : solve budgets cs ⊆ cs := by
  have hgainful : ranked (gainful cs) ⊆ cs :=
    List.Subset.trans (ranked_subset _) (gainful_subset cs)
  unfold solve
  generalize ranked (gainful cs) = order at hgainful
  cases order with
  | nil =>
      intro c hc
      exact List.filter_sublist.subset (mem_of_best? (Option.mem_toList.1 hc))
  | cons c order =>
      exact forall_explore (fun p hp => hgainful (mem_withPotential hp)) nofun nofun

/-- Without a candidate that adds to the objective, the best one that fits is selected. -/
theorem solve_of_not_gainful {cs : List (Candidate α)} (h : gainful cs = []) :
    solve budgets cs = (best? (cs.filter (·.fitsAlone budgets))).toList := by
  have hranked : ranked (gainful cs) = [] := by
    rw [h]
    exact List.mergeSort_nil
  unfold solve
  rw [hranked]

end Exact

namespace Greedy

theorem take_sublist (used : List α) (cs : List (Candidate α)) :
    (take budgets used cs).Sublist cs := by
  induction cs generalizing used with
  | nil => exact List.Sublist.refl _
  | cons c cs ih =>
      rw [take]
      split
      · exact (ih _).cons_cons c
      · exact (ih _).cons c

theorem order_perm (budgets : List (Budget α)) (cs : List (Candidate α)) :
    (order budgets cs).Perm (gainful cs) :=
  List.mergeSort_perm _ _

theorem subset_solve (cs : List (Candidate α)) : solve budgets cs ⊆ cs := by
  have htake : take budgets (Budget.unused budgets) (order budgets cs) ⊆ cs := by
    intro c hc
    exact gainful_subset cs ((order_perm budgets cs).subset ((take_sublist _ _).subset hc))
  unfold solve
  dsimp only
  split
  · rename_i single hsingle
    split
    · intro c hc
      rw [List.mem_singleton.1 hc]
      exact List.filter_sublist.subset (mem_of_best? hsingle)
    · exact htake
  · exact htake

end Greedy

namespace Optimization

theorem unbudgeted_subset (cs : List (Candidate α)) : unbudgeted cs ⊆ cs := by
  have hgainful := gainful_subset cs
  unfold unbudgeted
  generalize gainful cs = gainful at hgainful
  cases gainful with
  | nil => exact fun c hc => mem_of_best? (Option.mem_toList.1 hc)
  | cons c gainful => exact hgainful

theorem select_subset (exactThreshold : Nat) (budgets : List (Budget α))
    (cs : List (Candidate α)) : (select exactThreshold budgets cs).1 ⊆ cs := by
  unfold select
  split
  · exact unbudgeted_subset cs
  · split
    · exact Exact.subset_solve cs
    · exact Greedy.subset_solve cs

theorem select_of_exact {exactThreshold : Nat} {cs : List (Candidate α)}
    (h : (select exactThreshold budgets cs).2 = .exact) :
    (select exactThreshold budgets cs).1 = Exact.solve budgets cs := by
  unfold select at *
  split at h
  · cases h
  · rename_i hbudgets
    rw [if_neg hbudgets]
    split at h
    · rename_i hfew
      rw [if_pos hfew]
    · cases h

theorem selected_subset (exactThreshold maxAlternatives : Nat) (r : OptimizationRequest α)
    (all : List (Candidate α)) :
    (ofCandidates exactThreshold maxAlternatives r all).selected ⊆ all := by
  unfold ofCandidates
  dsimp only
  split
  · exact List.Subset.trans (ranked_subset _) (select_subset ..)
  · exact List.Subset.trans (ranked_subset _)
      (List.Subset.trans (select_subset ..) List.filter_sublist.subset)

theorem ordinal_of_candidate? {r : OptimizationRequest α} {ordinal : Nat} {e : Entity α}
    {c : Candidate α} (h : r.candidate? ordinal e = some c) :
    c.ordinal = ordinal ∧ c.entity = e := by
  obtain ⟨raw, -, h⟩ := Option.bind_eq_some_iff.1 h
  obtain ⟨weights, -, h⟩ := Option.bind_eq_some_iff.1 h
  cases h
  exact ⟨rfl, rfl⟩

theorem candidate?_of_mem {r : OptimizationRequest α} {pool : List (Nat × Entity α)}
    {c : Candidate α} (hc : c ∈ pool.filterMap fun (ordinal, e) => r.candidate? ordinal e) :
    (c.ordinal, c.entity) ∈ pool ∧ r.candidate? c.ordinal c.entity = some c := by
  obtain ⟨⟨ordinal, e⟩, hmem, hcandidate⟩ := List.mem_filterMap.1 hc
  obtain ⟨rfl, rfl⟩ := ordinal_of_candidate? hcandidate
  exact ⟨hmem, hcandidate⟩

/-- The entities selected are those of the pool. -/
theorem mem_pool_of_selected {exactThreshold maxAlternatives : Nat} {r : OptimizationRequest α}
    {pool : List (Nat × Entity α)} {c : Candidate α}
    (hc : c ∈ (solve exactThreshold maxAlternatives r pool).selected) :
    (c.ordinal, c.entity) ∈ pool := by
  unfold solve at hc
  dsimp only at hc
  split at hc
  · cases hc
  · exact (candidate?_of_mem (selected_subset _ _ r _ hc)).1

end Optimization

end VectorQuery
