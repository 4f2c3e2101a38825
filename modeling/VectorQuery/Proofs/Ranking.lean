/-
# Lists by score, and the best of a set

Scores are ranked by their places in a linear order, equal scores by ordinal
(`Quantity.RankedBy.pairwise`).  What is kept of the first of a list is among the first of what is
kept (`mem_atMost_filter`).  Hits of different entities have one order only, so the best entities of
a set are ranked as they are in the set (`ScoredSet.ranked_top`).
-/
import Mathlib.Data.List.Nodup
import Mathlib.Data.List.Perm.Basic
import Mathlib.Data.Nat.Basic
import Mathlib.Order.Compare
import Mathlib.Order.Lattice
import VectorQuery.Proofs.ScoredSet

namespace VectorQuery

/-! ## The first of a list -/

section

variable {α : Type} {k : Option Nat} {l : List α} {p : α → Bool} {a : α}

theorem atMost_sublist (k : Option Nat) (l : List α) : (atMost k l).Sublist l := by
  cases k with
  | none => exact .refl l
  | some k => exact List.take_sublist k l

theorem mem_of_atMost (h : a ∈ atMost k l) : a ∈ l := (atMost_sublist k l).subset h

/-- What is kept of the first ones is among the first ones kept. -/
theorem mem_atMost_filter (h : a ∈ atMost k l) (ha : p a = true) : a ∈ atMost k (l.filter p) := by
  cases k with
  | none => exact List.mem_filter.2 ⟨h, ha⟩
  | some k =>
      have hsplit : l.filter p = (l.take k).filter p ++ (l.drop k).filter p := by
        rw [← List.filter_append, List.take_append_drop]
      have hlen : ((l.take k).filter p).length ≤ k :=
        (List.length_filter_le p _).trans (List.length_take_le k l)
      show a ∈ (l.filter p).take k
      rw [hsplit, List.take_append, List.take_of_length_le hlen]
      exact List.mem_append_left _ (List.mem_filter.2 ⟨h, ha⟩)

/-- If the first ones are all kept, then they are the first ones kept. -/
theorem atMost_filter (h : ∀ a ∈ atMost k l, p a = true) : atMost k (l.filter p) = atMost k l := by
  cases k with
  | none => exact List.filter_eq_self.2 h
  | some k =>
      have hfirst : (l.take k).filter p = l.take k := List.filter_eq_self.2 h
      have hsplit : l.filter p = l.take k ++ (l.drop k).filter p := by
        rw [← hfirst, ← List.filter_append, List.take_append_drop]
      show (l.filter p).take k = l.take k
      rcases Nat.lt_or_ge k l.length with hlt | hge
      · have hlen : (l.take k).length = k := List.length_take_of_le hlt.le
        rw [hsplit]
        exact List.take_left' hlen
      · rw [hsplit, List.drop_eq_nil_of_le hge, List.filter_nil, List.append_nil, List.take_take,
          Nat.min_self]

end

/-! ## Lists ranked by score -/

/-- Quantities are ranked by their places in a linear order. -/
def Quantity.RankedBy {σ β : Type} [Quantity σ] [LinearOrder β] (place : σ → β) : Prop :=
  ∀ a b : σ, rank a b = compare (place a) (place b)

namespace Quantity.RankedBy

variable {α σ β : Type} [Quantity σ] [LinearOrder β] {place : σ → β} {score : α → σ}
  {ordinal : α → Nat} {items : List α}

/-- Scores are compared by their places, and equal scores by ordinal. -/
theorem ranksBefore_iff (h : RankedBy place) {a b : σ} {i j : Nat} :
    ranksBefore a i b j = true ↔ place b < place a ∨ place a = place b ∧ i ≤ j := by
  unfold ranksBefore
  rw [h b a]
  rcases lt_trichotomy (place b) (place a) with hlt | heq | hgt
  · rw [compare_lt_iff_lt.2 hlt]
    exact iff_of_true rfl (.inl hlt)
  · rw [compare_eq_iff_eq.2 heq]
    simp [heq]
  · rw [compare_gt_iff_gt.2 hgt]
    refine iff_of_false Bool.false_ne_true ?_
    rintro (hlt | ⟨heq, -⟩)
    · exact lt_asymm hgt hlt
    · exact hgt.ne heq

theorem pairwise (h : RankedBy place) (score : α → σ) (ordinal : α → Nat) (items : List α) :
    (rankedBy score ordinal items).Pairwise fun a b =>
      ranksBefore (score a) (ordinal a) (score b) (ordinal b) = true := by
  refine List.pairwise_mergeSort (fun a b c hab hbc => ?_) (fun a b => ?_) items
  · rw [h.ranksBefore_iff] at *
    grind
  · rw [Bool.or_eq_true, h.ranksBefore_iff, h.ranksBefore_iff]
    grind

/-- What is ranked first has the highest score. -/
theorem place_le_of_head? (h : RankedBy place) {a b : α}
    (ha : (rankedBy score ordinal items).head? = some a) (hb : b ∈ items) :
    place (score b) ≤ place (score a) := by
  have hmem : b ∈ rankedBy score ordinal items := List.mem_mergeSort.2 hb
  have hsorted := h.pairwise score ordinal items
  cases hranked : rankedBy score ordinal items with
  | nil =>
      rw [hranked] at hmem
      cases hmem
  | cons c rest =>
      rw [hranked] at ha hmem hsorted
      cases ha
      rcases List.mem_cons.1 hmem with rfl | hmem
      · exact le_refl _
      · rcases h.ranksBefore_iff.1 ((List.pairwise_cons.1 hsorted).1 b hmem) with hlt | ⟨heq, -⟩
        · exact hlt.le
        · exact heq.ge

end Quantity.RankedBy

section

variable {α σ : Type} [Quantity σ] {score : α → σ} {ordinal : α → Nat} {items : List α}

theorem rankedBy_perm (score : α → σ) (ordinal : α → Nat) (items : List α) :
    (rankedBy score ordinal items).Perm items :=
  List.mergeSort_perm _ _

theorem rankedBy_eq_nil_iff : rankedBy score ordinal items = [] ↔ items = [] := by
  rw [← List.length_eq_zero_iff, (rankedBy_perm score ordinal items).length_eq,
    List.length_eq_zero_iff]

theorem mem_of_rankedBy_head? {a : α} (h : (rankedBy score ordinal items).head? = some a) :
    a ∈ items :=
  (rankedBy_perm score ordinal items).subset (List.mem_of_mem_head? h)

end

theorem Single.rankedBy_place : Quantity.RankedBy fun a : Single => a.place.toNat := by
  intro a b
  change compareOfLessAndEq a.place b.place = compareOfLessAndEq a.place.toNat b.place.toNat
  unfold compareOfLessAndEq
  simp only [UInt32.lt_iff_toNat_lt, UInt32.toNat_inj]

theorem Double.rankedBy_place : Quantity.RankedBy fun a : Double => a.place.toNat := by
  intro a b
  change compareOfLessAndEq a.place b.place = compareOfLessAndEq a.place.toNat b.place.toNat
  unfold compareOfLessAndEq
  simp only [UInt64.lt_iff_toNat_lt, UInt64.toNat_inj]

namespace Hit

/-- A hit is listed no later than another one. -/
def Before (a b : Hit Single) : Prop := ranksBefore a.score a.ordinal b.score b.ordinal = true

variable {hits hits' : List (Hit Single)}

theorem ranked_perm (hits : List (Hit Single)) : (ranked hits).Perm hits :=
  List.mergeSort_perm hits _

theorem pairwise_ranked (hits : List (Hit Single)) : (ranked hits).Pairwise Before :=
  Single.rankedBy_place.pairwise score ordinal hits

/-- Of the hits of different entities only one list is ranked. -/
theorem ranked_eq_of_perm (hperm : hits.Perm hits') (hdistinct : (hits'.map ordinal).Nodup)
    (hranked : hits'.Pairwise Before) : ranked hits = hits' := by
  refine List.Perm.eq_of_pairwise (fun a b ha hb hab hba => ?_) (pairwise_ranked hits) hranked
    ((ranked_perm hits).trans hperm)
  have ha' : a ∈ hits' := hperm.subset ((ranked_perm hits).subset ha)
  refine List.inj_on_of_nodup_map hdistinct ha' hb ?_
  unfold Before at *
  rw [Single.rankedBy_place.ranksBefore_iff] at hab hba
  omega

/-- Hits that are those of a ranked list with a property are ranked as they are there. -/
theorem ranked_eq_filter {p : Hit Single → Bool} (hdistinct : (hits'.map ordinal).Nodup)
    (hranked : hits'.Pairwise Before) (hnodup : hits.Nodup)
    (h : ∀ hit, hit ∈ hits ↔ hit ∈ hits' ∧ p hit = true) : ranked hits = hits'.filter p := by
  have hdistinct' : ((hits'.filter p).map ordinal).Nodup :=
    hdistinct.sublist (List.filter_sublist.map ordinal)
  refine ranked_eq_of_perm ?_ hdistinct' (hranked.sublist List.filter_sublist)
  refine (List.perm_ext_iff_of_nodup hnodup (.of_map _ hdistinct')).2 fun hit => ?_
  rw [h, List.mem_filter]

end Hit

namespace ScoredSet

variable {s : ScoredSet Single}

/-- Sets with the same entities and equal scores are the same. -/
theorem same_of {σ : Type} [Quantity σ] {s t : ScoredSet σ}
    (hmembers : ∀ o, o ∈ s.members ↔ o ∈ t.members)
    (hscores : ∀ o x y, s.score? o = some x → t.score? o = some y →
      Quantity.compare? x y = some .eq) : s.same t = true := by
  have hsize : s.size = t.size := by
    rw [← s.length_members, ← t.length_members]
    exact ((List.perm_ext_iff_of_nodup s.nodup_members t.nodup_members).2 hmembers).length_eq
  rw [same, Bool.and_eq_true, decide_eq_true_eq, List.all_eq_true]
  refine ⟨hsize, fun hit hhit => ?_⟩
  have hx := (s.mem_toList hit).1 hhit
  obtain ⟨y, hy⟩ := (t.mem_members _).1 ((hmembers _).1 ((s.mem_members _).2 ⟨_, hx⟩))
  rw [hy, Option.any_some, hscores _ _ _ hx hy]
  rfl

theorem nodup_ranked (s : ScoredSet Single) : (s.ranked.map Hit.ordinal).Nodup := by
  refine ((Hit.ranked_perm s.toList).map Hit.ordinal).nodup_iff.2 ?_
  rw [map_ordinal_toList]
  exact s.nodup_members

/-- The set of hits of different entities is these hits. -/
theorem toList_ofList_perm {hits : List (Hit Single)} (h : (hits.map Hit.ordinal).Nodup) :
    (ofList hits).toList.Perm hits := by
  have hnodup : (ofList hits).toList.Nodup := by
    refine List.Nodup.of_map Hit.ordinal ?_
    rw [map_ordinal_toList]
    exact nodup_members _
  refine (List.perm_ext_iff_of_nodup hnodup (List.Nodup.of_map _ h)).2 fun hit => ?_
  have hfind : ∀ hit ∈ hits,
      (hits.find? (·.ordinal = hit.ordinal)).map Hit.score = some hit.score := by
    intro hit hhit
    have hsome : (hits.find? (·.ordinal = hit.ordinal)).isSome = true :=
      List.find?_isSome.2 ⟨hit, hhit, decide_eq_true rfl⟩
    obtain ⟨found, hfound⟩ := Option.isSome_iff_exists.1 hsome
    have hordinal := List.find?_some hfound
    rw [decide_eq_true_eq] at hordinal
    rw [hfound, List.inj_on_of_nodup_map h (List.mem_of_find?_eq_some hfound) hhit hordinal]
    rfl
  rw [mem_toList, score?_ofList (g := fun o => (hits.find? (·.ordinal = o)).map Hit.score) hfind]
  constructor
  · intro hscore
    split at hscore
    · rename_i hmem
      obtain ⟨hit', hhit', hordinal⟩ := List.mem_map.1 hmem
      rw [← hordinal, hfind hit' hhit'] at hscore
      cases hit
      cases hit'
      cases hordinal
      cases hscore
      exact hhit'
    · cases hscore
  · intro hhit
    rw [if_pos (List.mem_map_of_mem hhit)]
    exact hfind hit hhit

/-- The best entities of a set are ranked as they are in the set. -/
theorem ranked_top (s : ScoredSet Single) (k : Nat) : (s.top k).ranked = s.ranked.take k := by
  have hdistinct : ((s.ranked.take k).map Hit.ordinal).Nodup :=
    s.nodup_ranked.sublist ((List.take_sublist k _).map _)
  exact Hit.ranked_eq_of_perm (toList_ofList_perm hdistinct) hdistinct
    ((Hit.pairwise_ranked _).sublist (List.take_sublist k _))

end ScoredSet

end VectorQuery
