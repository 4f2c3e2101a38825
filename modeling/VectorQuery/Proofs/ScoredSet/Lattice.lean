/-
# Scored sets form a distributive lattice

The score of an entity has a position in the order of numbers, and an entity without a score stands
below all of them: so a set is a function into a linear order with a bottom (`ScoredSet.heights`).
An intersection takes the meet of two such functions and a union the join, and the laws of a
distributive lattice come with the functions.  Two sets at equal heights have equal scores; where
the scores in use are totally ordered, the sets are equal.

Main statement: scored sets, however they come about, obey these laws
(`ScoredSet.distributiveLattice`), beside those of complements, of sets of hits and of ranked lists.
-/
import Mathlib.Order.WithBot
import VectorQuery.Proofs.Number.Order
import VectorQuery.Proofs.Ranking
import VectorQuery.Proofs.ScoredSet.Tables

namespace VectorQuery

namespace ScoredSet

variable {T : Set Single} {s t u : ScoredSet Single}

/-! ## Heights -/

/-- Where the score of each entity stands; at the bottom where there is none. -/
def heights (s : ScoredSet Single) (o : Nat) : WithBot ℤ :=
  match s.score? o with
  | some x => x.position
  | none => ⊥

theorem heights_of_some {o : Nat} {x : Single} (h : s.score? o = some x) :
    s.heights o = x.position := by
  rw [heights, h]

theorem heights_of_none {o : Nat} (h : s.score? o = none) : s.heights o = ⊥ := by
  rw [heights, h]

/-- The scores of the set are among these numbers. -/
def ScoredIn (T : Set Single) (s : ScoredSet Single) : Prop :=
  ∀ o x, s.score? o = some x → x ∈ T

theorem scoredIn_empty : (empty : ScoredSet Single).ScoredIn T := by
  rintro o x ⟨⟩

theorem ScoredIn.insert (hs : s.ScoredIn T) {o : Nat} {x : Single} (hx : x ∈ T) :
    (s.insert o x).ScoredIn T := by
  intro k y hy
  rw [score?_insert] at hy
  split at hy
  · cases hknown : s.score? o with
    | none =>
        rw [hknown] at hy
        cases hy
        exact hx
    | some known =>
        rw [hknown] at hy
        cases hy
        change Quantity.greater known x ∈ T
        unfold Quantity.greater
        split
        · exact hx
        · exact hs o known hknown
  · exact hs k y hy

theorem ScoredIn.foldl_insert (hs : s.ScoredIn T) {hits : List (Hit Single)}
    (hhits : ∀ h ∈ hits, h.score ∈ T) :
    (hits.foldl (fun s h => s.insert h.ordinal h.score) s).ScoredIn T := by
  induction hits generalizing s with
  | nil => exact hs
  | cons hit hits ih =>
      rw [List.forall_mem_cons] at hhits
      exact ih (hs.insert hhits.1) hhits.2

theorem ScoredIn.ofList {hits : List (Hit Single)} (hhits : ∀ h ∈ hits, h.score ∈ T) :
    (ofList hits).ScoredIn T :=
  scoredIn_empty.foldl_insert hhits

theorem ScoredIn.or (hs : s.ScoredIn T) (ht : t.ScoredIn T) : (s.or t).ScoredIn T :=
  hs.foldl_insert fun h hh => ht h.ordinal h.score ((t.mem_toList h).1 hh)

theorem ScoredIn.and (hs : s.ScoredIn T) (ht : t.ScoredIn T) : (s.and t).ScoredIn T := by
  intro o x hx
  rw [score?_and, Option.bind_eq_some_iff] at hx
  obtain ⟨a, ha, hx⟩ := hx
  obtain ⟨b, hb, rfl⟩ := Option.map_eq_some_iff.1 hx
  unfold Quantity.lesser
  split
  · exact ht o b hb
  · exact hs o a ha

section

variable (hT : ∀ x ∈ T, x.isDefined = true) (hs : s.ScoredIn T) (ht : t.ScoredIn T)
include hT hs ht

theorem heights_and : (s.and t).heights = s.heights ⊓ t.heights := by
  funext o
  rw [Pi.inf_apply]
  unfold heights
  rw [score?_and]
  cases ha : s.score? o with
  | none => rw [Option.bind_none, bot_inf_eq]
  | some a =>
      cases hb : t.score? o with
      | none => rw [Option.bind_some, Option.map_none, inf_bot_eq]
      | some b =>
          rw [Option.bind_some, Option.map_some]
          change ((Quantity.lesser a b).position : WithBot ℤ) = _
          rw [Single.position_lesser (hT a (hs o a ha)) (hT b (ht o b hb)), WithBot.coe_min]

theorem heights_or : (s.or t).heights = s.heights ⊔ t.heights := by
  funext o
  rw [Pi.sup_apply]
  unfold heights
  rw [score?_or]
  cases hb : t.score? o with
  | none => rw [sup_bot_eq]
  | some b =>
      cases ha : s.score? o with
      | none => rw [bot_sup_eq]
      | some a =>
          change ((Quantity.greater a b).position : WithBot ℤ) = _
          rw [Single.position_greater (hT a (hs o a ha)) (hT b (ht o b hb)), WithBot.coe_max]

end

/-! ## Sets at equal heights -/

theorem mem_members_of_heights (h : s.heights = t.heights) {o : Nat} (ho : o ∈ s.members) :
    o ∈ t.members := by
  by_contra hnot
  obtain ⟨x, hx⟩ := (s.mem_members o).1 ho
  have hheight := congrFun h o
  rw [heights_of_some hx, heights_of_none ((t.score?_eq_none_iff o).2 hnot)] at hheight
  exact WithBot.coe_ne_bot hheight

theorem position_eq_of_heights (h : s.heights = t.heights) {o : Nat} {x y : Single}
    (hx : s.score? o = some x) (hy : t.score? o = some y) : x.position = y.position := by
  have hheight := congrFun h o
  rw [heights_of_some hx, heights_of_some hy] at hheight
  exact WithBot.coe_injective hheight

/-- At equal heights the scores are equal numbers. -/
theorem le_of_heights (hT : ∀ x ∈ T, x.isDefined = true) (hs : s.ScoredIn T) (ht : t.ScoredIn T)
    (h : s.heights = t.heights) {o : Nat} {x y : Single} (hx : s.score? o = some x)
    (hy : t.score? o = some y) : x ≤ y ∧ y ≤ x := by
  have hposition := position_eq_of_heights h hx hy
  have hxd := hT x (hs o x hx)
  have hyd := hT y (ht o y hy)
  exact ⟨(Single.le_iff_position x y).2 ⟨hxd, hyd, hposition.le⟩,
    (Single.le_iff_position y x).2 ⟨hyd, hxd, hposition.ge⟩⟩

theorem same_of_heights (hT : ∀ x ∈ T, x.isDefined = true) (hs : s.ScoredIn T)
    (ht : t.ScoredIn T) (h : s.heights = t.heights) : s.same t = true := by
  refine same_of (fun o => ⟨mem_members_of_heights h, mem_members_of_heights h.symm⟩) ?_
  intro o x y hx hy
  obtain ⟨hxy, hyx⟩ := le_of_heights hT hs ht h hx hy
  exact Single.compare?_of_le hxy hyx

theorem eq_of_heights (hT : ∀ x ∈ T, x.isDefined = true)
    (hantisymm : ∀ x ∈ T, ∀ y ∈ T, x ≤ y → y ≤ x → x = y) (hs : s.ScoredIn T)
    (ht : t.ScoredIn T) (h : s.heights = t.heights) : s = t := by
  refine ext_score? fun o => ?_
  cases hx : s.score? o with
  | none =>
      have ho : o ∉ t.members := fun ho =>
        (s.score?_eq_none_iff o).1 hx (mem_members_of_heights h.symm ho)
      exact ((t.score?_eq_none_iff o).2 ho).symm
  | some x =>
      obtain ⟨y, hy⟩ := (t.mem_members o).1
        (mem_members_of_heights h ((s.mem_members o).2 ⟨x, hx⟩))
      obtain ⟨hxy, hyx⟩ := le_of_heights hT hs ht h hx hy
      rw [hy, hantisymm x (hs o x hx) y (ht o y hy) hxy hyx]

/-! ## Meets and joins -/

/-- The laws of a distributive lattice at three sets, with `E` for equality. -/
structure LatticeLaws (E : ScoredSet Single → ScoredSet Single → Prop)
    (s t u : ScoredSet Single) : Prop where
  and_comm : E (s.and t) (t.and s)
  or_comm : E (s.or t) (t.or s)
  and_assoc : E ((s.and t).and u) (s.and (t.and u))
  or_assoc : E ((s.or t).or u) (s.or (t.or u))
  and_self : E (s.and s) s
  or_self : E (s.or s) s
  and_or_self : E (s.and (s.or t)) s
  or_and_self : E (s.or (s.and t)) s
  and_or : E (s.and (t.or u)) ((s.and t).or (s.and u))
  or_and : E (s.or (t.and u)) ((s.or t).and (s.or u))

/-- The laws hold up to whatever holds of sets at equal heights. -/
theorem latticeLaws {E : ScoredSet Single → ScoredSet Single → Prop}
    (hT : ∀ x ∈ T, x.isDefined = true)
    (hE : ∀ {s t}, s.ScoredIn T → t.ScoredIn T → s.heights = t.heights → E s t)
    (hs : s.ScoredIn T) (ht : t.ScoredIn T) (hu : u.ScoredIn T) : LatticeLaws E s t u where
  and_comm := hE (hs.and ht) (ht.and hs) <| by
    rw [heights_and hT hs ht, heights_and hT ht hs, inf_comm]
  or_comm := hE (hs.or ht) (ht.or hs) <| by
    rw [heights_or hT hs ht, heights_or hT ht hs, sup_comm]
  and_assoc := hE ((hs.and ht).and hu) (hs.and (ht.and hu)) <| by
    rw [heights_and hT (hs.and ht) hu, heights_and hT hs ht, heights_and hT hs (ht.and hu),
      heights_and hT ht hu, inf_assoc]
  or_assoc := hE ((hs.or ht).or hu) (hs.or (ht.or hu)) <| by
    rw [heights_or hT (hs.or ht) hu, heights_or hT hs ht, heights_or hT hs (ht.or hu),
      heights_or hT ht hu, sup_assoc]
  and_self := hE (hs.and hs) hs <| by rw [heights_and hT hs hs, inf_idem]
  or_self := hE (hs.or hs) hs <| by rw [heights_or hT hs hs, sup_idem]
  and_or_self := hE (hs.and (hs.or ht)) hs <| by
    rw [heights_and hT hs (hs.or ht), heights_or hT hs ht, inf_sup_self]
  or_and_self := hE (hs.or (hs.and ht)) hs <| by
    rw [heights_or hT hs (hs.and ht), heights_and hT hs ht, sup_inf_self]
  and_or := hE (hs.and (ht.or hu)) ((hs.and ht).or (hs.and hu)) <| by
    rw [heights_and hT hs (ht.or hu), heights_or hT ht hu,
      heights_or hT (hs.and ht) (hs.and hu), heights_and hT hs ht, heights_and hT hs hu,
      inf_sup_left]
  or_and := hE (hs.or (ht.and hu)) ((hs.or ht).and (hs.or hu)) <| by
    rw [heights_or hT hs (ht.and hu), heights_and hT ht hu,
      heights_and hT (hs.or ht) (hs.or hu), heights_or hT hs ht, heights_or hT hs hu,
      sup_inf_left]

/-! ## Complements -/

/-- A complement turns a union into an intersection and an intersection into a union, and twice
taken it leaves the members within the universe. -/
structure ComplementLaws (s t : ScoredSet Single) (members : List Nat) : Prop where
  or : (s.or t).complement members = (s.complement members).and (t.complement members)
  and : (s.and t).complement members = (s.complement members).or (t.complement members)
  complement : (s.complement members).complement members =
    uniform (members.filter s.contains) Quantity.one

theorem complementLaws (s t : ScoredSet Single) (members : List Nat) :
    ComplementLaws s t members where
  or := by
    refine ext_score? fun o => ?_
    rw [score?_and]
    simp only [score?_complement, mem_members_or]
    by_cases ho : o ∈ members <;> by_cases hs : o ∈ s.members <;> by_cases ht : o ∈ t.members <;>
      simp [ho, hs, ht, lesser_self]
  and := by
    refine ext_score? fun o => ?_
    rw [score?_or]
    simp only [score?_complement, mem_members_and]
    by_cases ho : o ∈ members <;> by_cases hs : o ∈ s.members <;> by_cases ht : o ∈ t.members <;>
      simp [ho, hs, ht, greater_self]
  complement := by
    refine ext_score? fun o => ?_
    rw [score?_complement, score?_uniform]
    simp only [mem_members_complement, List.mem_filter, contains_iff]
    by_cases ho : o ∈ members <;> by_cases hs : o ∈ s.members <;> simp [ho, hs]

/-! ## Sets of hits -/

/-- The set has the entities of the hits, each with the highest of its scores. -/
structure Collects (hits : List (Hit Single)) (s : ScoredSet Single) : Prop where
  mem_iff : ∀ o, o ∈ s.members ↔ ∃ h ∈ hits, h.ordinal = o
  isGreatest : ∀ o v, s.score? o = some v → IsGreatest {x | ⟨o, x⟩ ∈ hits} v

/-- Once a hit is in, the score of its entity is the greatest of what was known and the hit. -/
theorem isGreatest_insert (hT : ∀ x ∈ T, x.isDefined = true) (hs : s.ScoredIn T) {o : Nat}
    {x : Single} (hx : x ∈ T) :
    ∃ w, (s.insert o x).score? o = some w ∧ IsGreatest {y | s.score? o = some y ∨ y = x} w := by
  have hxd := hT x hx
  rw [score?_insert, if_pos rfl]
  cases hknown : s.score? o with
  | none =>
      refine ⟨x, rfl, .inr rfl, ?_⟩
      rintro y (hy | rfl)
      · cases hy
      · exact Single.le_refl hxd
  | some known =>
      have hself : IsGreatest {y | some known = some y} known := by
        refine ⟨rfl, ?_⟩
        rintro y ⟨⟩
        exact Single.le_refl (hT known (hs o known hknown))
      exact ⟨_, rfl, Single.isGreatest_greater hself hxd⟩

/-- Hit after hit, the score of an entity is the greatest of what was known and what came. -/
theorem isGreatest_foldl_insert (hT : ∀ x ∈ T, x.isDefined = true) {hits : List (Hit Single)}
    (hhits : ∀ h ∈ hits, h.score ∈ T) (hs : s.ScoredIn T) {o : Nat} {v : Single}
    (h : (hits.foldl (fun s h => s.insert h.ordinal h.score) s).score? o = some v) :
    IsGreatest {x | s.score? o = some x ∨ ⟨o, x⟩ ∈ hits} v := by
  induction hits generalizing s with
  | nil =>
      refine ⟨.inl h, ?_⟩
      rintro x (hx | hx)
      · cases h.symm.trans hx
        exact Single.le_refl (hT _ (hs o _ hx))
      · cases hx
  | cons hit hits ih =>
      obtain ⟨k, y⟩ := hit
      rw [List.forall_mem_cons] at hhits
      have hgreatest := ih hhits.2 (hs.insert hhits.1) h
      have hcons (x : Single) : (⟨o, x⟩ : Hit Single) ∈ ⟨k, y⟩ :: hits ↔
          o = k ∧ x = y ∨ ⟨o, x⟩ ∈ hits := by
        rw [List.mem_cons, Hit.mk.injEq]
      simp only [hcons]
      by_cases ho : o = k
      · subst ho
        obtain ⟨w, hw, hwgreatest⟩ := isGreatest_insert hT hs hhits.1
        rw [hw] at hgreatest
        have hwv : w ≤ v := hgreatest.2 (.inl rfl)
        constructor
        · rcases hgreatest.1 with hv | hv
          · cases hv
            exact hwgreatest.1.imp_right fun hy => .inl ⟨rfl, hy⟩
          · exact .inr (.inr hv)
        · rintro x (hx | ⟨-, hx⟩ | hx)
          · exact Single.le_trans (hwgreatest.2 (.inl hx)) hwv
          · exact Single.le_trans (hwgreatest.2 (.inr hx)) hwv
          · exact hgreatest.2 (.inr hx)
      · rw [score?_insert, if_neg ho] at hgreatest
        simpa only [ho, false_and, false_or] using hgreatest

theorem collects_ofList (hT : ∀ x ∈ T, x.isDefined = true) {hits : List (Hit Single)}
    (hhits : ∀ h ∈ hits, h.score ∈ T) : Collects hits (ofList hits) where
  mem_iff := mem_members_ofList hits
  isGreatest o v h := by
    have hgreatest := isGreatest_foldl_insert hT hhits scoredIn_empty h
    simpa only [score?_empty, reduceCtorEq, false_or] using hgreatest

/-- Sets that collect the same hits stand at equal heights. -/
theorem Collects.heights_eq {hits hits' : List (Hit Single)} (hperm : hits.Perm hits')
    (hs : Collects hits s) (ht : Collects hits' t) : s.heights = t.heights := by
  have hmembers (o : Nat) : o ∈ s.members ↔ o ∈ t.members := by
    rw [hs.mem_iff, ht.mem_iff]
    simp only [hperm.mem_iff]
  funext o
  cases hx : s.score? o with
  | none =>
      have hy : t.score? o = none :=
        (t.score?_eq_none_iff o).2 (mt (hmembers o).2 ((s.score?_eq_none_iff o).1 hx))
      rw [heights_of_none hx, heights_of_none hy]
  | some x =>
      obtain ⟨y, hy⟩ := (t.mem_members o).1 ((hmembers o).1 ((s.mem_members o).2 ⟨x, hx⟩))
      have hxgreatest := hs.isGreatest o x hx
      have hygreatest := ht.isGreatest o y hy
      have hxy : x ≤ y := hygreatest.2 (hperm.mem_iff.1 hxgreatest.1)
      have hyx : y ≤ x := hxgreatest.2 (hperm.mem_iff.2 hygreatest.1)
      rw [heights_of_some hx, heights_of_some hy]
      exact congrArg _ (Int.le_antisymm ((Single.le_iff_position x y).1 hxy).2.2
        ((Single.le_iff_position y x).1 hyx).2.2)

/-! ## Ranked lists -/

/-- The list has each entity of the set once, with its score, and its order is strict: by place in
the order of all numbers, and by ordinal at one place. -/
structure Lists (s : ScoredSet Single) (ranked : List (Hit Single)) : Prop where
  ordinals : (ranked.map Hit.ordinal).Perm s.members
  nodup : (ranked.map Hit.ordinal).Nodup
  mem_iff : ∀ h, h ∈ ranked ↔ s.score? h.ordinal = some h.score
  ordered : ranked.Pairwise fun a b => b.score.place < a.score.place ∨
    a.score.place = b.score.place ∧ a.ordinal < b.ordinal

theorem lists_ranked (s : ScoredSet Single) : Lists s s.ranked where
  ordinals := by
    rw [← map_ordinal_toList]
    exact (Hit.ranked_perm s.toList).map Hit.ordinal
  nodup := s.nodup_ranked
  mem_iff h := (Hit.ranked_perm s.toList).mem_iff.trans (s.mem_toList h)
  ordered := by
    have hdistinct : s.ranked.Pairwise fun a b => a.ordinal ≠ b.ordinal :=
      List.pairwise_map.1 s.nodup_ranked
    refine ((Hit.pairwise_ranked s.toList).and hdistinct).imp ?_
    rintro a b ⟨hbefore, hne⟩
    rw [UInt32.lt_iff_toNat_lt, ← UInt32.toNat_inj]
    refine (Single.rankedBy_place.ranksBefore_iff.1 hbefore).imp_right ?_
    rintro ⟨heq, hle⟩
    exact ⟨heq, lt_of_le_of_ne hle hne⟩

/-- Places are in the order of numbers where that order is total. -/
theorem place_lt_iff_of_antisymm (hT : ∀ x ∈ T, x.isDefined = true)
    (hantisymm : ∀ x ∈ T, ∀ y ∈ T, x ≤ y → y ≤ x → x = y) {x y : Single} (hx : x ∈ T)
    (hy : y ∈ T) : x.place < y.place ↔ x < y := by
  rw [Single.lt_iff_position, UInt32.lt_iff_toNat_lt]
  by_cases hzero : x.position = 0 ∧ y.position = 0
  · have hle : x ≤ y ∧ y ≤ x := by
      rw [Single.le_iff_position, Single.le_iff_position]
      exact ⟨⟨hT x hx, hT y hy, by omega⟩, hT y hy, hT x hx, by omega⟩
    rw [hantisymm x hx y hy hle.1 hle.2]
    simp
  · rw [Single.place_lt_iff hzero]
    exact ⟨fun hlt => ⟨hT x hx, hT y hy, hlt⟩, fun h => h.2.2⟩

/-- Scores of a total order are listed in that order. -/
theorem Lists.ordered_by_score {ranked : List (Hit Single)} (h : Lists s ranked)
    (hT : ∀ x ∈ T, x.isDefined = true)
    (hantisymm : ∀ x ∈ T, ∀ y ∈ T, x ≤ y → y ≤ x → x = y) (hs : s.ScoredIn T) :
    ranked.Pairwise fun a b => b.score < a.score ∨ a.score = b.score ∧ a.ordinal < b.ordinal := by
  refine h.ordered.imp_of_mem ?_
  intro a b ha hb hab
  have hat := hs a.ordinal a.score ((h.mem_iff a).1 ha)
  have hbt := hs b.ordinal b.score ((h.mem_iff b).1 hb)
  rw [place_lt_iff_of_antisymm hT hantisymm hbt hat] at hab
  refine hab.imp_right fun hab => ⟨?_, hab.2⟩
  have hplace (x y : Single) (hx : x ∈ T) (hy : y ∈ T) (heq : x.place = y.place) : x ≤ y := by
    refine Single.le_of_not_lt (hT y hy) (hT x hx) fun hlt => ?_
    rw [← place_lt_iff_of_antisymm hT hantisymm hy hx, heq] at hlt
    exact absurd hlt (UInt32.lt_irrefl _)
  exact hantisymm _ hat _ hbt (hplace _ _ hat hbt hab.1) (hplace _ _ hbt hat hab.1.symm)

theorem size_top (s : ScoredSet Single) (k : Nat) : (s.top k).size = min k s.size := by
  have hlength (s : ScoredSet Single) : s.ranked.length = s.size := by
    rw [← length_members, ← List.length_map Hit.ordinal, (lists_ranked s).ordinals.length_eq]
  rw [← hlength, ranked_top, List.length_take, hlength]

/-! ## Distributive lattices of scored sets -/

/-- Sets with scores of which one is always at most the other obey the laws of a distributive
lattice, as equalities where only equal scores are at most each other, and else up to the sign of
zeros. -/
theorem distributiveLattice (htotal : ∀ x ∈ T, ∀ y ∈ T, x ≤ y ∨ y ≤ x) {a b c : Assembly Single}
    (ha : a.set.ScoredIn T) (hb : b.set.ScoredIn T) (hc : c.set.ScoredIn T)
    {hits hits' : List (Hit Single)} (hhits : ∀ h ∈ hits, h.score ∈ T) (hperm : hits.Perm hits')
    (members : List Nat) (k : Nat) :
    (a.table.Holds a.set ∧ a.table.scores.keys.toFinset = a.table.members) ∧
    LatticeLaws (fun s t => s.same t = true) a.set b.set c.set ∧
    ComplementLaws a.set b.set members ∧
    Collects hits (ofList hits) ∧ (ofList hits).same (ofList hits') = true ∧
    Lists a.set a.set.ranked ∧
    (a.set.top k).ranked = a.set.ranked.take k ∧ (a.set.top k).size = min k a.set.size ∧
    ((∀ x ∈ T, ∀ y ∈ T, x ≤ y → y ≤ x → x = y) →
      LatticeLaws Eq a.set b.set c.set ∧ ofList hits = ofList hits' ∧
      a.set.ranked.Pairwise fun h h' =>
        h'.score < h.score ∨ h.score = h'.score ∧ h.ordinal < h'.ordinal) := by
  have hT : ∀ x ∈ T, x.isDefined = true := fun x hx =>
    Single.isDefined_left ((htotal x hx x hx).elim id id)
  have hhits' : ∀ h ∈ hits', h.score ∈ T := fun h hh => hhits h (hperm.mem_iff.2 hh)
  have hcollects := collects_ofList hT hhits
  have hheights := hcollects.heights_eq hperm (collects_ofList hT hhits')
  refine ⟨⟨a.holds, a.holds.keys⟩, latticeLaws hT (same_of_heights hT) ha hb hc,
    complementLaws a.set b.set members, hcollects,
    same_of_heights hT (.ofList hhits) (.ofList hhits') hheights, lists_ranked a.set,
    ranked_top a.set k, size_top a.set k, fun hantisymm => ⟨?_, ?_, ?_⟩⟩
  · exact latticeLaws hT (eq_of_heights hT hantisymm) ha hb hc
  · exact eq_of_heights hT hantisymm (.ofList hhits) (.ofList hhits') hheights
  · exact (lists_ranked a.set).ordered_by_score hT hantisymm ha

/-- Three sets with the scores one half, three quarters and one. -/
theorem distributiveLattice_quarters :
    let scores : List Single := [0.5, 0.75, 1]
    let hits : List (Hit Single) := [⟨2, 0.5⟩, ⟨1, 1⟩, ⟨2, 0.75⟩]
    let a : Assembly Single := .ofList hits
    let b : Assembly Single := .or (.ofList [⟨3, 0.5⟩, ⟨2, 0.5⟩]) a
    let c : Assembly Single := .and (.insert b 0 1) b
    (∀ x ∈ scores, ∀ y ∈ scores, x ≤ y ∨ y ≤ x) ∧
      (∀ x ∈ scores, ∀ y ∈ scores, x ≤ y → y ≤ x → x = y) ∧
      (a.set.ScoredIn (· ∈ scores) ∧ b.set.ScoredIn (· ∈ scores) ∧ c.set.ScoredIn (· ∈ scores)) ∧
      (∀ h ∈ hits, h.score ∈ scores) ∧ hits.Perm hits.reverse ∧
      LatticeLaws Eq a.set b.set c.set ∧ ofList hits = ofList hits.reverse ∧
      b.set.toList = [⟨1, 1⟩, ⟨2, 0.75⟩, ⟨3, 0.5⟩] := by
  intro scores hits a b c
  have htotal : ∀ x ∈ scores, ∀ y ∈ scores, x ≤ y ∨ y ≤ x := by decide
  have hantisymm : ∀ x ∈ scores, ∀ y ∈ scores, x ≤ y → y ≤ x → x = y := by decide
  have hhits : ∀ h ∈ hits, h.score ∈ scores := by simp [hits, scores]
  have hothers : ∀ h ∈ ([⟨3, 0.5⟩, ⟨2, 0.5⟩] : List (Hit Single)), h.score ∈ scores := by
    simp [scores]
  have ha : a.set.ScoredIn (· ∈ scores) := .ofList hhits
  have hb : b.set.ScoredIn (· ∈ scores) := .or (.ofList hothers) ha
  have hc : c.set.ScoredIn (· ∈ scores) :=
    .and (.insert hb (show (1 : Single) ∈ scores by simp [scores])) hb
  have hperm : hits.Perm hits.reverse := (List.reverse_perm hits).symm
  obtain ⟨-, -, -, -, -, -, -, -, hexact⟩ := distributiveLattice
    (T := (· ∈ scores)) htotal ha hb hc hhits hperm [0, 1, 2] 2
  obtain ⟨hlaws, hsets, -⟩ := hexact hantisymm
  exact ⟨htotal, hantisymm, ⟨ha, hb, hc⟩, hhits, hperm, hlaws, hsets, by decide⟩

end ScoredSet

end VectorQuery
