/-
# Scores of a set

What each operation on scored sets does to the score of one entity.  A set is known by its scores
(`ext_score?`), so laws of sets are read off them: a condition may be applied before or after an
intersection, and conditions in any order.
-/
import VectorQuery.ScoredSet

namespace VectorQuery

namespace OrderedMap

variable {κ β γ : Type} [Ord κ] [Std.TransOrd κ] [Std.LawfulEqOrd κ]

theorem eq_of_iff {o o' : Option β} (h : ∀ v, o = some v ↔ o' = some v) : o = o' := by
  cases o with
  | none =>
      cases o' with
      | none => rfl
      | some v => exact (h v).2 rfl
  | some v => exact ((h v).1 rfl).symm

theorem get?_filterMap (m : OrderedMap κ β) (f : κ → β → Option γ) (k : κ) :
    (m.filterMap f).get? k = (m.get? k).bind (f k) := by
  refine eq_of_iff fun c => ?_
  rw [get?_eq_some_iff, Option.bind_eq_some_iff]
  unfold filterMap
  simp only [List.mem_filterMap, Option.map_eq_some_iff, Prod.mk.injEq, get?_eq_some_iff]
  constructor
  · rintro ⟨⟨k', v⟩, hmem, _, hf, rfl, rfl⟩
    exact ⟨v, hmem, hf⟩
  · rintro ⟨v, hmem, hf⟩
    exact ⟨(k, v), hmem, c, hf, rfl, rfl⟩

theorem get?_filter (m : OrderedMap κ β) (p : κ → β → Bool) (k : κ) :
    (m.filter p).get? k = (m.get? k).filter (p k) := by
  refine eq_of_iff fun v => ?_
  rw [get?_eq_some_iff, Option.filter_eq_some_iff, get?_eq_some_iff]
  unfold filter
  rw [List.mem_filter]

theorem mem_keys (m : OrderedMap κ β) (k : κ) : k ∈ m.keys ↔ ∃ v, m.get? k = some v := by
  unfold keys
  rw [List.mem_map]
  constructor
  · rintro ⟨⟨k, v⟩, hmem, rfl⟩
    exact ⟨v, (get?_eq_some_iff m k v).2 hmem⟩
  · rintro ⟨v, hv⟩
    exact ⟨(k, v), (get?_eq_some_iff m k v).1 hv, rfl⟩

theorem mem_keys_iff_contains (m : OrderedMap κ β) (k : κ) : k ∈ m.keys ↔ m.contains k = true := by
  rw [mem_keys, contains, Option.isSome_iff_exists]

/-- The map of a function on a list of keys. -/
theorem get?_ofList_map [DecidableEq κ] (keys : List κ) (g : κ → β) (k : κ) :
    (ofList (keys.map fun k => (k, g k))).get? k = if k ∈ keys then some (g k) else none := by
  have hfold : ∀ (keys : List κ) (m : OrderedMap κ β),
      ((keys.map fun k => (k, g k)).foldl (fun m e => m.insert e.1 e.2) m).get? k =
        if k ∈ keys then some (g k) else m.get? k := by
    intro keys
    induction keys with
    | nil =>
        intro m
        rfl
    | cons j keys ih =>
        intro m
        rw [List.map_cons, List.foldl_cons, ih, get?_insert]
        by_cases hk : k = j <;> by_cases hmem : k ∈ keys <;> simp [hk, hmem]
  exact hfold keys _

omit [Std.TransOrd κ] in
theorem nodup_keys (m : OrderedMap κ β) : m.keys.Nodup := by
  refine List.pairwise_map.2 (m.ascending.imp fun {a b} h heq => ?_)
  have hself : compare b.1 b.1 = .eq := Std.ReflCmp.compare_self
  rw [heq, hself] at h
  cases h

end OrderedMap

namespace ScoredSet

variable {σ : Type}

theorem ext_score? {s t : ScoredSet σ} (h : ∀ o, s.score? o = t.score? o) : s = t := by
  cases s
  cases t
  exact congrArg ScoredSet.mk (OrderedMap.ext_get? h)

@[simp] theorem score?_empty (o : Nat) : (empty : ScoredSet σ).score? o = none := rfl

theorem score?_retain (s : ScoredSet σ) (keep : Nat → Bool) (o : Nat) :
    (s.retain keep).score? o = if keep o then s.score? o else none := by
  unfold retain score?
  rw [OrderedMap.get?_filter]
  cases s.scores.get? o with
  | none => simp
  | some v => cases keep o <;> simp

theorem mem_members (s : ScoredSet σ) (o : Nat) : o ∈ s.members ↔ ∃ v, s.score? o = some v :=
  OrderedMap.mem_keys s.scores o

theorem score?_eq_none_iff (s : ScoredSet σ) (o : Nat) : s.score? o = none ↔ o ∉ s.members := by
  rw [mem_members, not_exists]
  exact Option.eq_none_iff_forall_ne_some

theorem mem_members_retain (s : ScoredSet σ) (keep : Nat → Bool) (o : Nat) :
    o ∈ (s.retain keep).members ↔ keep o = true ∧ o ∈ s.members := by
  rw [mem_members, mem_members, score?_retain]
  cases keep o <;> simp

theorem isEmpty_iff (s : ScoredSet σ) : s.isEmpty = true ↔ s.members = [] :=
  List.isEmpty_iff.trans List.map_eq_nil_iff.symm

theorem length_members (s : ScoredSet σ) : s.members.length = s.size := List.length_map _

theorem eq_empty (s : ScoredSet σ) (h : s.isEmpty = true) : s = empty := by
  refine ext_score? fun o => (score?_eq_none_iff s o).2 ?_
  rw [(isEmpty_iff s).1 h]
  exact List.not_mem_nil

theorem members_retain (s : ScoredSet σ) (keep : Nat → Bool) :
    (s.retain keep).members = s.members.filter keep := by
  unfold members retain OrderedMap.keys OrderedMap.filter
  rw [List.filter_map]
  rfl

theorem mem_toList (s : ScoredSet σ) (h : Hit σ) : h ∈ s.toList ↔ s.score? h.ordinal = some h.score := by
  unfold toList score?
  rw [List.mem_map, OrderedMap.get?_eq_some_iff]
  constructor
  · rintro ⟨⟨o, v⟩, hmem, rfl⟩
    exact hmem
  · intro hmem
    exact ⟨_, hmem, rfl⟩

theorem mem_members_iff_toList (s : ScoredSet σ) (o : Nat) :
    o ∈ s.members ↔ ∃ h ∈ s.toList, h.ordinal = o := by
  rw [mem_members]
  constructor
  · rintro ⟨v, hv⟩
    exact ⟨⟨o, v⟩, (mem_toList s _).2 hv, rfl⟩
  · rintro ⟨h, hh, rfl⟩
    exact ⟨h.score, (mem_toList s h).1 hh⟩

theorem map_ordinal_toList (s : ScoredSet σ) : s.toList.map Hit.ordinal = s.members := by
  unfold toList members OrderedMap.keys
  rw [List.map_map]
  rfl

theorem nodup_members (s : ScoredSet σ) : s.members.Nodup := s.scores.nodup_keys

theorem retain_retain (s : ScoredSet σ) (p q : Nat → Bool) :
    (s.retain p).retain q = s.retain fun o => p o && q o := by
  refine ext_score? fun o => ?_
  simp only [score?_retain]
  cases p o <;> cases q o <;> rfl

theorem score?_uniform (members : List Nat) (v : σ) (o : Nat) :
    (uniform members v).score? o = if o ∈ members then some v else none :=
  OrderedMap.get?_ofList_map members (fun _ => v) o

theorem mem_members_uniform (members : List Nat) (v : σ) (o : Nat) :
    o ∈ (uniform members v).members ↔ o ∈ members := by
  rw [mem_members, score?_uniform]
  split
  · rename_i ho
    exact ⟨fun _ => ho, fun _ => ⟨v, rfl⟩⟩
  · rename_i ho
    exact ⟨nofun, fun h => absurd h ho⟩

variable [Quantity σ]

theorem score?_insert (s : ScoredSet σ) (k : Nat) (v : σ) (o : Nat) :
    (s.insert k v).score? o =
      if o = k then some (match s.score? k with
        | some known => Quantity.greater known v
        | none => v)
      else s.score? o := by
  unfold insert score?
  rw [OrderedMap.get?_alter]
  by_cases ho : o = k
  · subst ho
    exact (if_pos Std.ReflCmp.compare_self).trans (if_pos rfl).symm
  · rw [if_neg fun h => ho (Std.LawfulEqCmp.eq_of_compare h), if_neg ho]

theorem score?_and (s t : ScoredSet σ) (o : Nat) :
    (s.and t).score? o = (s.score? o).bind fun a => (t.score? o).map (Quantity.lesser a) :=
  OrderedMap.get?_filterMap ..

theorem and_retain_left (s t : ScoredSet σ) (keep : Nat → Bool) :
    (s.retain keep).and t = (s.and t).retain keep := by
  refine ext_score? fun o => ?_
  simp only [score?_and, score?_retain]
  cases keep o <;> rfl

theorem and_retain_right (s t : ScoredSet σ) (keep : Nat → Bool) :
    s.and (t.retain keep) = (s.and t).retain keep := by
  refine ext_score? fun o => ?_
  simp only [score?_and, score?_retain]
  cases keep o <;> cases s.score? o <;> rfl

theorem greater_self (v : σ) : Quantity.greater v v = v := by
  unfold Quantity.greater
  split <;> rfl

theorem lesser_self (v : σ) : Quantity.lesser v v = v := by
  unfold Quantity.lesser
  split <;> rfl

/-- A hit changes the score of its own entity only. -/
theorem score?_foldl_insert_of_not_mem {hits : List (Hit σ)} {o : Nat}
    (h : o ∉ hits.map Hit.ordinal) (s : ScoredSet σ) :
    (hits.foldl (fun s h => s.insert h.ordinal h.score) s).score? o = s.score? o := by
  induction hits generalizing s with
  | nil => rfl
  | cons hit hits ih =>
      rw [List.map_cons, List.mem_cons, not_or] at h
      rw [List.foldl_cons, ih h.2, score?_insert, if_neg h.1]

/-- Of hits of different entities one only changes the score of an entity. -/
theorem score?_foldl_insert_of_mem {hits : List (Hit σ)} {o : Nat} {v : σ}
    (hdistinct : (hits.map Hit.ordinal).Nodup) (h : ⟨o, v⟩ ∈ hits) (s : ScoredSet σ) :
    (hits.foldl (fun s h => s.insert h.ordinal h.score) s).score? o = (s.insert o v).score? o := by
  induction hits generalizing s with
  | nil => cases h
  | cons hit hits ih =>
      rw [List.map_cons, List.nodup_cons] at hdistinct
      rw [List.foldl_cons]
      rcases List.mem_cons.1 h with rfl | h
      · exact score?_foldl_insert_of_not_mem hdistinct.1 _
      · have hne : hit.ordinal ≠ o := by
          rintro rfl
          exact hdistinct.1 (List.mem_map.2 ⟨_, h, rfl⟩)
        rw [ih hdistinct.2 h, score?_insert, score?_insert, score?_insert, if_neg hne.symm]

theorem score?_or (s t : ScoredSet σ) (o : Nat) :
    (s.or t).score? o = match t.score? o with
      | some b => some (match s.score? o with
        | some a => Quantity.greater a b
        | none => b)
      | none => s.score? o := by
  cases ht : t.score? o with
  | none =>
      refine score?_foldl_insert_of_not_mem (fun hmem => ?_) s
      rw [map_ordinal_toList] at hmem
      obtain ⟨b, hb⟩ := (t.mem_members o).1 hmem
      rw [ht] at hb
      cases hb
  | some b =>
      have hdistinct : (t.toList.map Hit.ordinal).Nodup := by
        rw [map_ordinal_toList]
        exact t.nodup_members
      refine (score?_foldl_insert_of_mem hdistinct ((t.mem_toList ⟨o, b⟩).2 ht) s).trans ?_
      rw [score?_insert, if_pos rfl]

/-- Hits that agree on the score of each entity form the set of these scores. -/
theorem score?_ofList {hits : List (Hit σ)} {g : Nat → Option σ}
    (h : ∀ hit ∈ hits, g hit.ordinal = some hit.score) (o : Nat) :
    (ofList hits).score? o = if o ∈ hits.map Hit.ordinal then g o else none := by
  have hfold : ∀ (hits : List (Hit σ)) (s : ScoredSet σ),
      (∀ hit ∈ hits, g hit.ordinal = some hit.score) →
      (∀ o v, s.score? o = some v → g o = some v) →
        (hits.foldl (fun s h => s.insert h.ordinal h.score) s).score? o =
          if o ∈ hits.map Hit.ordinal then g o else s.score? o := by
    intro hits
    induction hits with
    | nil =>
        intro s _ _
        rfl
    | cons hit hits ih =>
        intro s hhits hs
        have hhit := hhits hit List.mem_cons_self
        have hinsert : ∀ o, (s.insert hit.ordinal hit.score).score? o =
            if o = hit.ordinal then g o else s.score? o := by
          intro o
          rw [score?_insert]
          split
          · rename_i ho
            subst ho
            rw [hhit]
            cases hk : s.score? hit.ordinal with
            | none => rfl
            | some known =>
                have hknown := hs _ _ hk
                rw [hhit] at hknown
                cases hknown
                exact congrArg some (greater_self _)
          · rfl
        rw [List.foldl_cons, ih _ (fun h' hh' => hhits h' (List.mem_cons_of_mem _ hh')) ?_, hinsert]
        · by_cases ho : o = hit.ordinal <;>
            by_cases hmem : o ∈ hits.map Hit.ordinal <;> simp [ho, hmem]
        · intro o' v hv
          rw [hinsert] at hv
          split at hv
          · exact hv
          · exact hs o' v hv
  exact hfold hits empty h (by simp)

/-! ## Members -/

theorem mem_members_insert (s : ScoredSet σ) (k : Nat) (v : σ) (o : Nat) :
    o ∈ (s.insert k v).members ↔ o = k ∨ o ∈ s.members := by
  rw [mem_members, mem_members, score?_insert]
  by_cases ho : o = k <;> simp [ho]

theorem mem_members_foldl_insert (s : ScoredSet σ) (hits : List (Hit σ)) (o : Nat) :
    o ∈ (hits.foldl (fun s h => s.insert h.ordinal h.score) s).members ↔
      o ∈ s.members ∨ ∃ h ∈ hits, h.ordinal = o := by
  induction hits generalizing s with
  | nil => simp
  | cons h hits ih =>
      rw [List.foldl_cons, ih, mem_members_insert]
      simp only [List.mem_cons, exists_eq_or_imp, eq_comm (a := o), or_assoc, or_left_comm]

theorem mem_members_ofList (hits : List (Hit σ)) (o : Nat) :
    o ∈ (ofList hits).members ↔ ∃ h ∈ hits, h.ordinal = o := by
  refine (mem_members_foldl_insert empty hits o).trans (or_iff_right ?_)
  rintro ⟨⟩

theorem isEmpty_ofList (hits : List (Hit σ)) : (ofList hits).isEmpty = hits.isEmpty := by
  rw [Bool.eq_iff_iff, isEmpty_iff, List.isEmpty_iff, List.eq_nil_iff_forall_not_mem,
    List.eq_nil_iff_forall_not_mem]
  constructor
  · intro h hit hhit
    exact h hit.ordinal ((mem_members_ofList hits _).2 ⟨hit, hhit, rfl⟩)
  · intro h o ho
    obtain ⟨hit, hhit, -⟩ := (mem_members_ofList hits o).1 ho
    exact h hit hhit

theorem mem_members_and (s t : ScoredSet σ) (o : Nat) :
    o ∈ (s.and t).members ↔ o ∈ s.members ∧ o ∈ t.members := by
  rw [mem_members, mem_members, mem_members, score?_and]
  cases s.score? o <;> cases t.score? o <;> simp

theorem mem_members_or (s t : ScoredSet σ) (o : Nat) :
    o ∈ (s.or t).members ↔ o ∈ s.members ∨ o ∈ t.members := by
  rw [mem_members_iff_toList t]
  exact mem_members_foldl_insert s t.toList o

omit [Quantity σ] in
theorem contains_iff (s : ScoredSet σ) (o : Nat) : s.contains o = true ↔ o ∈ s.members :=
  Option.isSome_iff_exists.trans (mem_members s o).symm

theorem score?_complement (s : ScoredSet σ) (members : List Nat) (o : Nat) :
    (s.complement members).score? o =
      if o ∈ members ∧ o ∉ s.members then some Quantity.one else none := by
  rw [complement, score?_uniform]
  simp only [List.mem_filter, Bool.not_eq_true', ← Bool.not_eq_true, contains_iff]

theorem mem_members_complement (s : ScoredSet σ) (members : List Nat) (o : Nat) :
    o ∈ (s.complement members).members ↔ o ∈ members ∧ o ∉ s.members := by
  rw [mem_members, score?_complement]
  split
  · exact iff_of_true ⟨_, rfl⟩ ‹_›
  · exact iff_of_false nofun ‹_›

theorem mem_of_mem_top {s : ScoredSet σ} {k o : Nat} (h : o ∈ (s.top k).members) :
    o ∈ s.members := by
  obtain ⟨hit, hhit, ho⟩ := (mem_members_ofList _ o).1 h
  exact (mem_members_iff_toList s o).2 ⟨hit, List.mem_mergeSort.1 (List.mem_of_mem_take hhit), ho⟩

theorem mem_of_best? {s : ScoredSet σ} {h : Hit σ} (hbest : s.best? = some h) :
    h.ordinal ∈ s.members :=
  (mem_members_iff_toList s _).2
    ⟨h, List.mem_mergeSort.1 (List.mem_of_mem_head? hbest), rfl⟩

end ScoredSet

end VectorQuery
