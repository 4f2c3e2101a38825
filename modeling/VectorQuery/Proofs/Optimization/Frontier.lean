/-
# The Pareto frontier

One entity dominates another if it is at least as good in every dimension and better in one.  Every
candidate of a request carries a number in every dimension, so none is lost as the frontier is told
from the dominated candidates (`Pareto.split_eq`).  Dominance is a strict order wherever numbers are
compared as in an order (`Quantity.LawfulOrder`), so whoever is dominated is dominated by a candidate
on the frontier (`Pareto.classifies_split`).

The two lists are ranked by score, which tells the zeros of either sign apart.  No two scores of one
request are zeros of different signs, so that is the order of numbers (`Candidate.Before`).
-/
import Mathlib.Data.Set.Finite.Basic
import Mathlib.Order.WellFounded
import VectorQuery.Execution.Step
import VectorQuery.Proofs.Number.Zero
import VectorQuery.Proofs.Optimization.Relaxation

namespace VectorQuery

/-- Quantities are compared as in an order, and opposites the other way round. -/
class Quantity.LawfulOrder (α : Type) [Quantity α] : Prop where
  le_trans : ∀ {a b c : α}, a ≤ b → b ≤ c → a ≤ c
  lt_of_le_of_lt : ∀ {a b c : α}, a ≤ b → b < c → a < c
  lt_of_lt_of_le : ∀ {a b c : α}, a < b → b ≤ c → a < c
  lt_irrefl : ∀ a : α, ¬ a < a
  neg_le_neg_iff : ∀ {a b : α}, -a ≤ -b ↔ b ≤ a
  neg_lt_neg_iff : ∀ {a b : α}, -a < -b ↔ b < a

open Quantity (LawfulOrder)

instance Double.lawfulOrder : LawfulOrder Double where
  le_trans := Double.le_trans
  lt_of_le_of_lt := Double.lt_of_le_of_lt
  lt_of_lt_of_le := Double.lt_of_lt_of_le
  lt_irrefl a h := Int.lt_irrefl _ ((Double.lt_iff_position a a).1 h).2.2
  neg_le_neg_iff {a b} := by
    rw [Double.le_iff_position, Double.le_iff_position, Double.position_opposite,
      Double.position_opposite, Double.isDefined_neg, Double.isDefined_neg, Int.neg_le_neg_iff,
      ← and_assoc, ← and_assoc, and_comm (a := a.isDefined = true)]
  neg_lt_neg_iff {a b} := by
    rw [Double.lt_iff_position, Double.lt_iff_position, Double.position_opposite,
      Double.position_opposite, Double.isDefined_neg, Double.isDefined_neg, Int.neg_lt_neg_iff,
      ← and_assoc, ← and_assoc, and_comm (a := a.isDefined = true)]

variable {α : Type} [Quantity α]

/-! ## Dominance -/

namespace Dimension

variable {d : Dimension} {ds : List Dimension} {a b c e : Entity α} {r : OptimizationRequest α}

/-- In the dimension the number of `a` is at least as good as that of `b`. -/
def NoWorse (d : Dimension) (a b : Entity α) : Prop :=
  ∃ x y, a.number? d.field = some x ∧ b.number? d.field = some y ∧
    if d.rising then y ≤ x else x ≤ y

/-- In the dimension the number of `a` is better than that of `b`. -/
def Better (d : Dimension) (a b : Entity α) : Prop :=
  ∃ x y, a.number? d.field = some x ∧ b.number? d.field = some y ∧
    if d.rising then y < x else x < y

/-- The value of an entity in a dimension where it has one. -/
def valueOf (d : Dimension) (e : Entity α) : α := (d.value? e).getD Quantity.zero

theorem value?_eq (h : ∃ x, e.number? d.field = some x) : d.value? e = some (d.valueOf e) := by
  obtain ⟨x, hx⟩ := h
  unfold valueOf value?
  rw [hx]
  rfl

theorem mapM_value? (h : ∀ d ∈ ds, ∃ x, e.number? d.field = some x) :
    ds.mapM (Dimension.value? · e) = some (ds.map (·.valueOf e)) := by
  induction ds with
  | nil => rfl
  | cons d ds ih =>
      obtain ⟨hd, hds⟩ := List.forall_mem_cons.1 h
      rw [List.mapM_cons, value?_eq hd, ih hds]
      rfl

theorem noWorse_iff [LawfulOrder α] (ha : ∃ x, a.number? d.field = some x)
    (hb : ∃ x, b.number? d.field = some x) : d.NoWorse a b ↔ d.valueOf b ≤ d.valueOf a := by
  obtain ⟨x, hx⟩ := ha
  obtain ⟨y, hy⟩ := hb
  unfold NoWorse valueOf value?
  rw [hx, hy]
  cases d.rising with
  | true => simp
  | false => simpa using LawfulOrder.neg_le_neg_iff.symm

theorem better_iff [LawfulOrder α] (ha : ∃ x, a.number? d.field = some x)
    (hb : ∃ x, b.number? d.field = some x) : d.Better a b ↔ d.valueOf b < d.valueOf a := by
  obtain ⟨x, hx⟩ := ha
  obtain ⟨y, hy⟩ := hb
  unfold Better valueOf value?
  rw [hx, hy]
  cases d.rising with
  | true => simp
  | false => simpa using LawfulOrder.neg_lt_neg_iff.symm

theorem NoWorse.trans [LawfulOrder α] (h : d.NoWorse a b) (h' : d.NoWorse b c) : d.NoWorse a c := by
  obtain ⟨x, y, hx, hy, hxy⟩ := h
  obtain ⟨y', z, hy', hz, hyz⟩ := h'
  cases hy.symm.trans hy'
  refine ⟨x, z, hx, hz, ?_⟩
  split at hxy
  · rename_i hrising
    rw [if_pos hrising] at hyz ⊢
    exact LawfulOrder.le_trans hyz hxy
  · rename_i hrising
    rw [if_neg hrising] at hyz ⊢
    exact LawfulOrder.le_trans hxy hyz

theorem Better.trans_noWorse [LawfulOrder α] (h : d.Better a b) (h' : d.NoWorse b c) :
    d.Better a c := by
  obtain ⟨x, y, hx, hy, hxy⟩ := h
  obtain ⟨y', z, hy', hz, hyz⟩ := h'
  cases hy.symm.trans hy'
  refine ⟨x, z, hx, hz, ?_⟩
  split at hxy
  · rename_i hrising
    rw [if_pos hrising] at hyz ⊢
    exact LawfulOrder.lt_of_le_of_lt hyz hxy
  · rename_i hrising
    rw [if_neg hrising] at hyz ⊢
    exact LawfulOrder.lt_of_lt_of_le hxy hyz

theorem not_better_self [LawfulOrder α] (d : Dimension) (a : Entity α) : ¬ d.Better a a := by
  rintro ⟨x, y, hx, hy, hxy⟩
  cases hx.symm.trans hy
  split at hxy
  · exact LawfulOrder.lt_irrefl x hxy
  · exact LawfulOrder.lt_irrefl x hxy

/-! ### The dimensions of a request -/

theorem mem_add {d' : Dimension} (h : d ∈ add ds d') : d ∈ ds ∨ d = d' := by
  unfold add at h
  split at h
  · exact .inl h
  · rcases List.mem_append.1 h with hd | hd
    · exact .inl hd
    · exact .inr (List.mem_singleton.1 hd)

theorem mem_foldl_add {acc : List Dimension} (h : d ∈ ds.foldl add acc) : d ∈ acc ∨ d ∈ ds := by
  induction ds generalizing acc with
  | nil => exact .inl h
  | cons d' ds ih =>
      rcases ih h with hd | hd
      · rcases mem_add hd with hd | rfl
        · exact .inl hd
        · exact .inr List.mem_cons_self
      · exact .inr (List.mem_cons_of_mem _ hd)

/-- What a request reads is carried in each of its dimensions. -/
theorem exists_number (h : r.CarriedBy e) : ∀ d ∈ ofRequest r, ∃ x, e.number? d.field = some x := by
  intro d hd
  rcases mem_foldl_add hd with hd | hd
  · cases hd
  · rcases List.mem_append.1 hd with hd | hd
    · obtain ⟨t, ht, rfl⟩ := List.mem_map.1 hd
      exact h.1 t ht
    · obtain ⟨b, hb, rfl⟩ := List.mem_map.1 hd
      exact h.2 b hb

end Dimension

namespace Entity

variable {ds : List Dimension} {a b c : Entity α}

/-- The entity is at least as good as another one in every dimension, and better in one. -/
def Dominates (ds : List Dimension) (a b : Entity α) : Prop :=
  (∀ d ∈ ds, d.NoWorse a b) ∧ ∃ d ∈ ds, d.Better a b

theorem Dominates.trans [LawfulOrder α] (h : a.Dominates ds b) (h' : b.Dominates ds c) :
    a.Dominates ds c := by
  obtain ⟨d, hd, hbetter⟩ := h.2
  exact ⟨fun d hd => (h.1 d hd).trans (h'.1 d hd), d, hd, hbetter.trans_noWorse (h'.1 d hd)⟩

theorem not_dominates_self [LawfulOrder α] (ds : List Dimension) (a : Entity α) :
    ¬ a.Dominates ds a := by
  rintro ⟨-, d, -, hbetter⟩
  exact d.not_better_self a hbetter

end Entity

/-! ## The frontier -/

namespace Pareto

variable {ds : List Dimension} {cs : List (Candidate α)} {c : Candidate α}

theorem dominates_iff [LawfulOrder α] {a b : Entity α}
    (ha : ∀ d ∈ ds, ∃ x, a.number? d.field = some x)
    (hb : ∀ d ∈ ds, ∃ x, b.number? d.field = some x) :
    dominates (ds.map (·.valueOf a)) (ds.map (·.valueOf b)) = true ↔ a.Dominates ds b := by
  unfold dominates Entity.Dominates
  rw [List.zip_map', Bool.and_eq_true, List.all_map, List.any_map, List.all_eq_true,
    List.any_eq_true]
  refine and_congr (forall₂_congr fun d hd => ?_) (exists_congr fun d => and_congr_right fun hd => ?_)
  · exact decide_eq_true_iff.trans (Dimension.noWorse_iff (ha d hd) (hb d hd)).symm
  · exact decide_eq_true_iff.trans (Dimension.better_iff (ha d hd) (hb d hd)).symm

/-- A candidate with its values in all dimensions. -/
def point (ds : List Dimension) (c : Candidate α) : Candidate α × List α :=
  (c, ds.map (·.valueOf c.entity))

theorem points_eq (h : ∀ c ∈ cs, ∀ d ∈ ds, ∃ x, c.entity.number? d.field = some x) :
    points ds cs = (Candidate.ranked cs).map (point ds) := by
  unfold points
  rw [← List.filterMap_eq_map]
  refine List.filterMap_congr fun c hc => ?_
  rw [Dimension.mapM_value? (h c (Candidate.ranked_subset cs hc))]
  rfl

theorem map_filter_point {keep : Candidate α × List α → Bool} {keep' : Candidate α → Bool}
    (h : ∀ c, keep (point ds c) = keep' c) (cs : List (Candidate α)) :
    ((cs.map (point ds)).filter keep).map (·.1) = cs.filter keep' := by
  rw [List.filter_map, List.map_map]
  exact (List.map_id _).trans (List.filter_congr fun c _ => h c)

/-- Some candidate dominates the one. -/
def beaten (ds : List Dimension) (cs : List (Candidate α)) (c : Candidate α) : Bool :=
  cs.any fun other => dominates (point ds other).2 (point ds c).2

/-- The ranked candidates are parted into those that no candidate dominates and the others. -/
theorem split_eq (h : ∀ c ∈ cs, ∀ d ∈ ds, ∃ x, c.entity.number? d.field = some x) :
    split ds cs = ((Candidate.ranked cs).filter fun c => !beaten ds cs c,
      (Candidate.ranked cs).filter (beaten ds cs)) := by
  have hbeaten : ∀ c, (((Candidate.ranked cs).map (point ds)).any fun p =>
      dominates p.2 (point ds c).2) = beaten ds cs c := by
    intro c
    rw [List.any_map]
    exact (Candidate.ranked_perm cs).any_eq
  unfold split
  rw [points_eq h]
  dsimp only
  rw [List.partition_eq_filter_filter]
  exact Prod.ext (map_filter_point (fun c => congrArg not (hbeaten c)) _)
    (map_filter_point hbeaten _)

theorem beaten_iff [LawfulOrder α] (h : ∀ c ∈ cs, ∀ d ∈ ds, ∃ x, c.entity.number? d.field = some x)
    (hc : c ∈ cs) : beaten ds cs c = true ↔ ∃ other ∈ cs, other.entity.Dominates ds c.entity := by
  unfold beaten
  rw [List.any_eq_true]
  refine exists_congr fun other => and_congr_right fun hother => ?_
  exact dominates_iff (h other hother) (h c hc)

/-- Every candidate is classified once: it is dominated if some candidate dominates it, and then some
candidate on the frontier does. -/
structure Classifies (ds : List Dimension) (cs frontier dominated : List (Candidate α)) : Prop where
  perm : (frontier ++ dominated).Perm cs
  frontier_sublist : frontier.Sublist (Candidate.ranked cs)
  dominated_sublist : dominated.Sublist (Candidate.ranked cs)
  dominated_iff : ∀ c ∈ cs, c ∈ dominated ↔ ∃ other ∈ cs, other.entity.Dominates ds c.entity
  dominator : ∀ c ∈ dominated, ∃ best ∈ frontier, best.entity.Dominates ds c.entity

/-- Among finitely many candidates that dominate one there is one that no candidate dominates. -/
theorem exists_undominated [LawfulOrder α] (h : ∃ other ∈ cs, other.entity.Dominates ds c.entity) :
    ∃ best ∈ cs, best.entity.Dominates ds c.entity ∧
      ∀ other ∈ cs, ¬ other.entity.Dominates ds best.entity := by
  let above : {c // c ∈ cs} → {c // c ∈ cs} → Prop := fun a b => a.1.entity.Dominates ds b.1.entity
  have : Finite {c // c ∈ cs} := List.finite_toSet cs
  have : IsTrans _ above := ⟨fun _ _ _ => Entity.Dominates.trans⟩
  have : Std.Irrefl above := ⟨fun a => a.1.entity.not_dominates_self ds⟩
  obtain ⟨other, hother, hdominates⟩ := h
  obtain ⟨best, hbest, hleast⟩ := (Finite.wellFounded_of_trans_of_irrefl above).has_min
    {a | a.1.entity.Dominates ds c.entity} ⟨⟨other, hother⟩, hdominates⟩
  exact ⟨best.1, best.2, hbest, fun a ha habove =>
    hleast ⟨a, ha⟩ (habove.trans hbest) habove⟩

theorem classifies_split [LawfulOrder α]
    (h : ∀ c ∈ cs, ∀ d ∈ ds, ∃ x, c.entity.number? d.field = some x) :
    Classifies ds cs (split ds cs).1 (split ds cs).2 := by
  rw [split_eq h]
  refine ⟨?_, List.filter_sublist, List.filter_sublist, fun c hc => ?_, fun c hc => ?_⟩
  · exact List.perm_append_comm.trans ((List.filter_append_perm _ _).trans (Candidate.ranked_perm cs))
  · rw [List.mem_filter, beaten_iff h hc]
    exact and_iff_right ((Candidate.ranked_perm cs).mem_iff.2 hc)
  · obtain ⟨hc, hbeaten⟩ := List.mem_filter.1 hc
    obtain ⟨best, hbest, hdominates, hfree⟩ :=
      exists_undominated ((beaten_iff h (Candidate.ranked_subset cs hc)).1 hbeaten)
    refine ⟨best, List.mem_filter.2 ⟨(Candidate.ranked_perm cs).mem_iff.2 hbest, ?_⟩, hdominates⟩
    rw [Bool.not_eq_true', ← Bool.not_eq_true, beaten_iff h hbest]
    rintro ⟨other, hother, habove⟩
    exact hfree other hother habove

end Pareto

/-! ## The answer to a request -/

namespace Optimization

section Frontier

variable {exactThreshold maxAlternatives : Nat} {r : OptimizationRequest α}
  {pool : List (Nat × Entity α)} {all : List (Candidate α)}

theorem frontier_eq : (ofCandidates exactThreshold maxAlternatives r all).frontier =
      (Pareto.split (Dimension.ofRequest r) (considerable r all)).1 ∧
    (ofCandidates exactThreshold maxAlternatives r all).dominated =
      (Pareto.split (Dimension.ofRequest r) (considerable r all)).2 := by
  unfold ofCandidates considerable
  dsimp only
  split <;> exact ⟨rfl, rfl⟩

/-- Of every answer the frontier and the dominated candidates are the candidates considered. -/
theorem classifies_solve [LawfulOrder α] (exactThreshold maxAlternatives : Nat)
    (r : OptimizationRequest α) (pool : List (Nat × Entity α)) :
    let o := solve exactThreshold maxAlternatives r pool
    Pareto.Classifies o.dimensions o.considered o.frontier o.dominated := by
  unfold solve
  dsimp only
  split
  · exact ⟨.nil, List.nil_sublist _, List.nil_sublist _, nofun, nofun⟩
  · rw [frontier_eq.1, frontier_eq.2, considered_eq]
    refine Pareto.classifies_split fun c hc => Dimension.exists_number ?_
    have hcandidate := (candidate?_of_mem (considerable_subset hc)).2
    exact OptimizationRequest.exists_candidate?_iff.1 ⟨c, hcandidate⟩

theorem considered_sublist (exactThreshold maxAlternatives : Nat) (r : OptimizationRequest α)
    (pool : List (Nat × Entity α)) :
    (solve exactThreshold maxAlternatives r pool).considered.Sublist
      (pool.filterMap fun (ordinal, e) => r.candidate? ordinal e) := by
  unfold solve
  dsimp only
  split
  · exact List.nil_sublist _
  · rw [considered_eq]
    exact considerable_sublist

/-- Different entities are different candidates. -/
theorem nodup_ordinals (r : OptimizationRequest α) (hpool : (pool.map (·.1)).Nodup) :
    ((pool.filterMap fun (ordinal, e) => r.candidate? ordinal e).map (·.ordinal)).Nodup := by
  refine List.pairwise_map.2 (List.pairwise_filterMap.2 ?_)
  refine (List.pairwise_map.1 hpool).imp fun {p q} hne c hc c' hc' heq => hne ?_
  rw [← (ordinal_of_candidate? hc).1, ← (ordinal_of_candidate? hc').1, heq]

end Frontier

end Optimization

/-! ## The order of scores -/

/-- The value of an objective is not the zero with the sign. -/
theorem Objective.value?_ne {o : Objective Double} {e : Entity Double} {x : Double}
    (h : o.value? e = some x) : x ≠ -Quantity.zero := by
  have hzero : (Quantity.zero : Double) ≠ -Quantity.zero := by
    rw [Double.opposite_zero_eq, Double.zero_eq]
    decide
  rw [value?_eq_foldl h]
  exact List.foldlRecOn (motive := fun sum => sum ≠ -Quantity.zero) o.terms _ hzero
    fun _ hsum _ _ => Double.add_ne_opposite_zero hsum

/-- The zero that is the score of no candidate. -/
def Direction.noScore : Direction → Double
  | .maximize => -Quantity.zero
  | .minimize => Quantity.zero

theorem Direction.noScore_zero (d : Direction) :
    d.noScore = Quantity.zero ∨ d.noScore = -Quantity.zero := by
  cases d with
  | maximize => exact .inr rfl
  | minimize => exact .inl rfl

theorem OptimizationRequest.score_ne {r : OptimizationRequest Double} {ordinal : Nat}
    {e : Entity Double} {c : Candidate Double} (h : r.candidate? ordinal e = some c) :
    c.score ≠ r.direction.noScore := by
  obtain ⟨raw, hraw, h⟩ := Option.bind_eq_some_iff.1 h
  obtain ⟨weights, -, h⟩ := Option.bind_eq_some_iff.1 h
  cases h
  have hne := Objective.value?_ne hraw
  unfold Direction.orient
  cases r.direction with
  | maximize => exact Double.one_mul_ne_opposite_zero hne
  | minimize => exact Double.neg_one_mul_ne_zero hne

namespace Candidate

variable {a b : Candidate Double} {cs : List (Candidate Double)} {z : Double}

/-- The candidate is listed no later than another one: its score is greater, or the same and its
ordinal not greater.  Scores that are undefined are listed by their places in the ranking. -/
structure Before (a b : Candidate Double) : Prop where
  ranks : ranksBefore a.score a.ordinal b.score b.ordinal = true
  ordered : a.score.isDefined = true → b.score.isDefined = true →
    b.score < a.score ∨ a.score = b.score ∧ a.ordinal ≤ b.ordinal

theorem before_of_ranksBefore (hz : z = Quantity.zero ∨ z = -Quantity.zero) (ha : a.score ≠ z)
    (hb : b.score ≠ z) (h : ranksBefore a.score a.ordinal b.score b.ordinal = true) :
    a.Before b where
  ranks := h
  ordered := by
    intro hda hdb
    rcases Double.rankedBy_place.ranksBefore_iff.1 h with hlt | ⟨heq, hle⟩
    · exact .inl (Double.lt_of_place_lt hz hdb hda hb ha hlt)
    · exact .inr ⟨Double.eq_of_place_eq heq, hle⟩

theorem pairwise_before (hz : z = Quantity.zero ∨ z = -Quantity.zero)
    (h : ∀ c ∈ cs, c.score ≠ z) : (ranked cs).Pairwise Before := by
  refine (Double.rankedBy_place.pairwise score ordinal cs).imp_of_mem fun ha hb hranks => ?_
  exact before_of_ranksBefore hz (h _ (ranked_subset cs ha)) (h _ (ranked_subset cs hb)) hranks

end Candidate

open Candidate

namespace Optimization

variable {r : OptimizationRequest Double}
  {pool : List (Nat × Entity Double)}

/-- The frontier and the dominated candidates are the candidates considered, each of them once,
listed by score, and each classified as it should be. -/
structure Classified (o : Optimization Double) : Prop where
  perm : (o.frontier ++ o.dominated).Perm o.considered
  nodup : ((o.frontier ++ o.dominated).map (·.ordinal)).Nodup
  frontier_ordered : o.frontier.Pairwise Before
  dominated_ordered : o.dominated.Pairwise Before
  dominated_iff : ∀ c ∈ o.considered,
    c ∈ o.dominated ↔ ∃ other ∈ o.considered, other.entity.Dominates o.dimensions c.entity
  dominator : ∀ c ∈ o.dominated, ∃ best ∈ o.frontier, best.entity.Dominates o.dimensions c.entity

theorem classified_solve (exactThreshold maxAlternatives : Nat) (r : OptimizationRequest Double)
    (hpool : (pool.map (·.1)).Nodup) : (solve exactThreshold maxAlternatives r pool).Classified := by
  have hclassifies := classifies_solve exactThreshold maxAlternatives r pool
  have hsublist := considered_sublist exactThreshold maxAlternatives r pool
  have hordered : (ranked (solve exactThreshold maxAlternatives r pool).considered).Pairwise Before :=
    pairwise_before r.direction.noScore_zero fun c hc =>
      OptimizationRequest.score_ne (candidate?_of_mem (hsublist.subset hc)).2
  exact {
    perm := hclassifies.perm
    nodup := (hclassifies.perm.map _).nodup_iff.2
      ((nodup_ordinals r hpool).sublist (hsublist.map _))
    frontier_ordered := hordered.sublist hclassifies.frontier_sublist
    dominated_ordered := hordered.sublist hclassifies.dominated_sublist
    dominated_iff := hclassifies.dominated_iff
    dominator := hclassifies.dominator }

end Optimization

/-- The candidates of every optimization are classified. -/
theorem Executor.optimize_classified (x : Executor) (r : OptimizationRequest Double)
    (pool : ScoredSet Single) : ∃ o, (x.optimize r pool).optimization = some o ∧ o.Classified := by
  refine ⟨_, rfl, Optimization.classified_solve _ _ r ?_⟩
  refine List.pairwise_map.2 (List.pairwise_filterMap.2 ?_)
  refine (pool.nodup_members).imp fun {o o'} hne p hp p' hp' heq => hne ?_
  obtain ⟨e, -, rfl⟩ := Option.map_eq_some_iff.1 hp
  obtain ⟨e', -, rfl⟩ := Option.map_eq_some_iff.1 hp'
  exact heq

end VectorQuery
