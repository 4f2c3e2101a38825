/-
# One search for all types

A search among several types looks for the nearest entities of each type and ranks what it finds.
What is among the first `k` of a list and satisfies a condition is among the first `k` of what
satisfies it, so no type loses an entity that belongs to the answer, and types have no entity in
common.  What is found is what one search among all members of the types finds
(`Executor.nearest_types`).
-/
import VectorQuery.Proofs.Failure
import VectorQuery.Proofs.Meaning.Pushdown
import VectorQuery.Proofs.Ranking
import VectorQuery.Proofs.Store.Index

namespace VectorQuery

/-! ## Queries -/

namespace Embedding

theorem length_total {n : Nat} {vs : List Embedding} (h : ∀ v ∈ vs, v.length = n) :
    total vs = [] ∨ (total vs).length = n := by
  have hfold : ∀ (vs : List Embedding) (sum : Embedding), (∀ v ∈ vs, v.length = n) →
      (sum = [] ∨ sum.length = n) →
        let all := vs.foldl (fun sum v => if sum.isEmpty then v
          else List.zipWith (· + ·) sum v ++ sum.drop v.length) sum
        all = [] ∨ all.length = n := by
    intro vs
    induction vs with
    | nil => exact fun sum _ hsum => hsum
    | cons v vs ih =>
        intro sum hvs hsum
        refine ih _ (fun w hw => hvs w (List.mem_cons_of_mem v hw)) (.inr ?_)
        have hv : v.length = n := hvs v List.mem_cons_self
        show (if sum.isEmpty then v
          else List.zipWith (· + ·) sum v ++ sum.drop v.length).length = n
        split
        · exact hv
        · rename_i hne
          have hlen := hsum.resolve_left (mt List.isEmpty_iff.2 hne)
          rw [List.length_append, List.length_zipWith, List.length_drop, hlen, hv]
          omega
  exact hfold vs [] h (.inl rfl)

theorem length_of_normalized? {v w : Embedding} (h : normalized? v = some w) :
    w.length = v.length := by
  rw [normalized?] at h
  split at h
  · cases h
    exact List.length_map _
  · cases h

theorem length_of_centroid? {n : Nat} {vs : List Embedding} {v : Embedding}
    (h : centroid? vs = some v) (hvs : ∀ v ∈ vs, v.length = n) : v.length = n := by
  rw [centroid?] at h
  split at h
  · cases h
  · rename_i hne
    rw [length_of_normalized? h]
    exact (length_total hvs).resolve_left (mt List.isEmpty_iff.2 hne)

theorem norm_pos_of_cosine? {a b : Embedding} {c : Single} (h : a.cosine? b = some c) :
    0 < b.norm := by
  rw [Embedding.cosine?] at h
  split at h
  · rename_i hpos
    exact of_decide_eq_true (Bool.and_eq_true_iff.1 hpos).2
  · cases h

end Embedding

namespace Snapshot

variable {s : Snapshot} {query : Embedding} {bound : Option Single} {k : Option Nat}
  {types : List String} {t : String} {o : Nat}

theorem Made.dense_length (hs : s.Made) {e : Entity Double} (he : s.entity? o = some e) :
    e.dense.length = s.denseDim := by
  have hmem : e ∈ s.entities.toList := Array.mem_toList_iff.2 (Array.mem_of_getElem? he)
  cases hs with
  | empty => cases hmem
  | build h => exact ((consistent_of_build h).entities e hmem).1.dense_length

theorem checkQuery_of_queryVector {x : Executor} (hs : x.snapshot.Made) {target : ScoredSet Single}
    (hquery : x.queryVector target = .ok query) (hpos : 0 < query.norm) :
    x.snapshot.checkQuery query = .ok () := by
  have hvectors : ∀ v ∈ target.members.filterMap fun o => (x.snapshot.entity? o).map (·.dense),
      v.length = x.snapshot.denseDim := by
    intro v hv
    obtain ⟨o, -, ho⟩ := List.mem_filterMap.1 hv
    obtain ⟨e, he, rfl⟩ := Option.map_eq_some_iff.1 ho
    exact hs.dense_length he
  have hlen : query.length = x.snapshot.denseDim := by
    rw [Executor.queryVector] at hquery
    split at hquery
    · rename_i v hv
      cases hquery
      rw [hv] at hvectors
      exact hvectors _ List.mem_cons_self
    · split at hquery
      · rename_i v hv
        cases hquery
        exact Embedding.length_of_centroid? hv hvectors
      · cases hquery
  rw [checkQuery, if_neg (not_not.2 hlen), if_pos hpos]

/-! ## Hits -/

/-- The hit is of an entity of the types, one of positive norm that lies within the distance. -/
structure Near (s : Snapshot) (query : Embedding) (types : List String) (d : Single)
    (h : Hit Single) (e : Entity Double) : Prop where
  entity : s.entity? h.ordinal = some e
  type : e.entityType ∈ types
  norm_pos : 0 < e.dense.norm
  similarity : query.cosine? e.dense = some h.score
  within : ¬ d + distanceSlack < 1 - h.score

theorem hit?_eq_some_iff {d : Single} {h : Hit Single} :
    s.hit? query (some d) h.ordinal = some h ↔
      ∃ e, s.entity? h.ordinal = some e ∧ query.cosine? e.dense = some h.score ∧
        ¬ d + distanceSlack < 1 - h.score := by
  rw [hit?, Option.bind_eq_bind, Option.bind_eq_some_iff]
  refine exists_congr fun e => and_congr_right fun _ => ?_
  rw [Option.bind_eq_bind, Option.bind_eq_some_iff]
  constructor
  · rintro ⟨similarity, hcosine, hhit⟩
    split at hhit
    · cases hhit
    · rename_i hfar
      rw [← congrArg Hit.score (Option.some.inj hhit)]
      exact ⟨hcosine, fun hlt => hfar (decide_eq_true hlt)⟩
  · rintro ⟨hcosine, hwithin⟩
    refine ⟨h.score, hcosine, if_neg fun hfar => hwithin (of_decide_eq_true hfar)⟩

theorem near_iff (hs : s.Made) {d : Single} {h : Hit Single} :
    (∃ e, s.Near query types d h e) ↔
      (∃ t ∈ types, h.ordinal ∈ s.members t) ∧ s.hit? query (some d) h.ordinal = some h := by
  rw [hit?_eq_some_iff]
  constructor
  · rintro ⟨e, hnear⟩
    exact ⟨⟨e.entityType, hnear.type, (mem_members_iff hs _ _).2 ⟨e, hnear.entity, rfl⟩⟩,
      e, hnear.entity, hnear.similarity, hnear.within⟩
  · rintro ⟨⟨t, ht, hmem⟩, e, he, hcosine, hwithin⟩
    obtain ⟨e', he', rfl⟩ := (mem_members_iff hs t _).1 hmem
    cases he.symm.trans he'
    exact ⟨e, he, ht, Embedding.norm_pos_of_cosine? hcosine, hcosine, hwithin⟩

theorem nodup_hits {candidates : List Nat} (h : candidates.Nodup) :
    ((candidates.filterMap (s.hit? query bound)).map Hit.ordinal).Nodup := by
  rw [List.map_filterMap]
  refine h.filterMap fun o o' n hn hn' => ?_
  obtain ⟨hit, hhit, rfl⟩ := Option.map_eq_some_iff.1 hn
  obtain ⟨hit', hhit', heq⟩ := Option.map_eq_some_iff.1 hn'
  rw [← ordinal_hit? hhit, ← ordinal_hit? hhit', heq]

/-- The hits among the members of the types, ranked. -/
def hitsIn (s : Snapshot) (query : Embedding) (bound : Option Single) (types : List String) :
    List (Hit Single) :=
  Hit.ranked ((s.ordinals types).filterMap (s.hit? query bound))

theorem nodup_hitsIn (s : Snapshot) (query : Embedding) (bound : Option Single)
    (types : List String) : ((s.hitsIn query bound types).map Hit.ordinal).Nodup :=
  ((Hit.ranked_perm _).map Hit.ordinal).nodup_iff.2 (nodup_hits (s.nodup_ordinals types))

theorem mem_hitsIn (hne : types ≠ []) {h : Hit Single} :
    h ∈ s.hitsIn query bound types ↔
      (∃ t ∈ types, h.ordinal ∈ s.members t) ∧ s.hit? query bound h.ordinal = some h := by
  refine ((hitsOf_filterMap _).ranked h).trans ?_
  rw [mem_ordinals, or_iff_right hne]
  exact ⟨fun ⟨⟨_, hmem⟩, hhit⟩ => ⟨hmem, hhit⟩,
    fun ⟨hmem, hhit⟩ => ⟨⟨lt_size_of_hit? hhit, hmem⟩, hhit⟩⟩

/-- The hits of one type, ranked, are among those of all types in the same order. -/
theorem ranked_members (hs : s.Made) (ht : t ∈ types) :
    Hit.ranked ((s.members t).filterMap (s.hit? query bound)) =
      (s.hitsIn query bound types).filter fun h => h.ordinal ∈ s.members t := by
  refine Hit.ranked_eq_filter (s.nodup_hitsIn query bound types) (Hit.pairwise_ranked _)
    (.of_map _ (nodup_hits (hs.nodup_members t))) fun h => ?_
  rw [hitsOf_filterMap, mem_hitsIn (List.ne_nil_of_mem ht), decide_eq_true_eq]
  exact ⟨fun ⟨hmem, hhit⟩ => ⟨⟨⟨t, ht, hmem⟩, hhit⟩, hmem⟩, fun ⟨⟨_, hhit⟩, hmem⟩ => ⟨hmem, hhit⟩⟩

/-- The first hits of each type, together. -/
def merged (s : Snapshot) (query : Embedding) (bound : Option Single) (k : Option Nat)
    (types : List String) : List (Hit Single) :=
  types.flatMap fun t => atMost k (Hit.ranked ((s.members t).filterMap (s.hit? query bound)))

theorem mem_of_mem_merged (hs : s.Made) {h : Hit Single} (hh : h ∈ s.merged query bound k types) :
    h ∈ s.hitsIn query bound types := by
  obtain ⟨t, ht, hmem⟩ := List.mem_flatMap.1 hh
  rw [ranked_members hs ht] at hmem
  exact (List.mem_filter.1 (mem_of_atMost hmem)).1

/-- No entity has two types, so none is found twice. -/
theorem nodup_merged (hs : s.Made) (hnodup : types.Nodup) :
    (s.merged query bound k types).Nodup := by
  refine List.nodup_flatMap.2 ⟨fun t _ => ?_, hnodup.imp fun {t t'} hne h hh hh' => hne ?_⟩
  · refine List.Nodup.sublist (atMost_sublist k _) ?_
    exact (Hit.ranked_perm _).nodup_iff.2 (.of_map _ (nodup_hits (hs.nodup_members t)))
  · have hmem : ∀ t, h ∈ atMost k (Hit.ranked ((s.members t).filterMap (s.hit? query bound))) →
        h.ordinal ∈ s.members t := fun t ht =>
      (((hitsOf_filterMap _).ranked h).1 (mem_of_atMost ht)).1
    obtain ⟨e, he, rfl⟩ := (mem_members_iff hs t _).1 (hmem t hh)
    obtain ⟨e', he', rfl⟩ := (mem_members_iff hs t' _).1 (hmem t' hh')
    cases he.symm.trans he'
    rfl

/-- The first hits of all types are the first of the first hits of each type. -/
theorem atMost_ranked_merged (hs : s.Made) (hne : types ≠ []) (hnodup : types.Nodup) :
    atMost k (Hit.ranked (s.merged query bound k types)) =
      atMost k (s.hitsIn query bound types) := by
  have hranked : Hit.ranked (s.merged query bound k types) =
      (s.hitsIn query bound types).filter fun h => h ∈ s.merged query bound k types := by
    refine Hit.ranked_eq_filter (s.nodup_hitsIn query bound types) (Hit.pairwise_ranked _)
      (nodup_merged hs hnodup) fun h => ?_
    rw [decide_eq_true_eq]
    exact ⟨fun hh => ⟨mem_of_mem_merged hs hh, hh⟩, And.right⟩
  rw [hranked]
  refine atMost_filter fun h hh => decide_eq_true ?_
  -- a hit among the first of all is among the first of its type
  have hall : h ∈ s.hitsIn query bound types := mem_of_atMost hh
  obtain ⟨⟨t, ht, hmem⟩, -⟩ := (mem_hitsIn hne).1 hall
  refine List.mem_flatMap.2 ⟨t, ht, ?_⟩
  rw [ranked_members hs ht]
  exact mem_atMost_filter hh (decide_eq_true hmem)

/-! ## Searches -/

theorem nearestAmong_of_checkQuery (h : s.checkQuery query = .ok ()) (candidates : List Nat)
    (k : Option Nat) (bound : Option Single) :
    s.nearestAmong query candidates k bound =
      .ok (atMost k (Hit.ranked (candidates.filterMap (s.hit? query bound)))) := by
  rw [nearestAmong, h]
  rfl

theorem nearest_of_checkQuery (h : s.checkQuery query = .ok ()) (t : String) (k : Option Nat)
    (bound : Option Single) :
    s.nearest query t k bound =
      .ok (atMost k (Hit.ranked ((s.members t).filterMap (s.hit? query bound)))) := by
  rw [nearest, members]
  cases s.members? t with
  | none =>
      have hnil : Hit.ranked ([] : List (Hit Single)) = [] := rankedBy_eq_nil_iff.2 rfl
      show Except.ok [] = Except.ok (atMost k (Hit.ranked []))
      rw [hnil, List.sublist_nil.1 (atMost_sublist k [])]
  | some members => exact nearestAmong_of_checkQuery h members k bound

end Snapshot

namespace Executor

open Snapshot

variable {x : Executor} {target : ScoredSet Single} {query : Embedding} {types : List String}

theorem hits_types (hs : x.snapshot.Made) (hne : types ≠ []) (hnodup : types.Nodup)
    (hcheck : x.snapshot.checkQuery query = .ok ()) (d : Single) (topK : Option Nat) :
    x.hits query d topK types none =
      .ok (atMost topK (x.snapshot.hitsIn query (some d) types)) := by
  rw [hits, if_neg (mt List.isEmpty_iff.1 hne), ← atMost_ranked_merged hs hne hnodup]
  have hfound : ∀ t ∈ types, searched (x.snapshot.nearest query t topK (some d)) =
      .ok (atMost topK
        (Hit.ranked ((x.snapshot.members t).filterMap (x.snapshot.hit? query (some d))))) := by
    intro t _
    rw [nearest_of_checkQuery hcheck]
    rfl
  rw [mapM_of_ok hfound]
  rfl

theorem isEmpty_of_queryVector (h : x.queryVector target = .ok query) : target.isEmpty = false := by
  cases hempty : target.isEmpty with
  | false => rfl
  | true =>
      rw [queryVector, (ScoredSet.isEmpty_iff target).1 hempty] at h
      cases h

/-- **Searches.** A search among several types finds what one search among all their members finds:
of the entities of positive norm that lie within the distance, those that come first by descending
similarity and ascending ordinal. -/
theorem nearest_types (hs : x.snapshot.Made) (hne : types ≠ []) (hnodup : types.Nodup)
    (hquery : x.queryVector target = .ok query) (hpos : 0 < query.norm) (d : Single)
    (topK : Option Nat) :
    ∃ all : List (Hit Single),
      (∀ h, h ∈ all ↔ ∃ e, x.snapshot.Near query types d h e) ∧
      all.Pairwise Hit.Before ∧ (all.map Hit.ordinal).Nodup ∧
      x.snapshot.nearestAmong query (x.snapshot.ordinals types) topK (some d) =
        .ok (atMost topK all) ∧
      x.nearest d topK types none target = .ok (.ofSet (.ofList (atMost topK all))) ∧
      (ScoredSet.ofList (atMost topK all)).toList.Perm (atMost topK all) ∧
      (atMost topK all).length = topK.elim all.length fun k => min k all.length := by
  have hcheck := checkQuery_of_queryVector hs hquery hpos
  have hdistinct := x.snapshot.nodup_hitsIn query (some d) types
  refine ⟨x.snapshot.hitsIn query (some d) types, fun h => ?_, Hit.pairwise_ranked _, hdistinct,
    nearestAmong_of_checkQuery hcheck _ topK _, ?_, ?_, ?_⟩
  · rw [near_iff hs]
    exact mem_hitsIn hne
  · rw [nearest, isEmpty_of_queryVector hquery, if_neg Bool.false_ne_true, hquery]
    show x.hits query d topK types none >>= _ = _
    rw [hits_types hs hne hnodup hcheck]
    rfl
  · exact ScoredSet.toList_ofList_perm (hdistinct.sublist ((atMost_sublist topK _).map _))
  · cases topK with
    | none => rfl
    | some k => exact List.length_take

/-- A snapshot of two features and two modules, one of each in one direction. -/
def featuresAndModules : Snapshot :=
  (Snapshot.build
    [⟨"feature", "cache", "", [1, 0], [], .empty⟩, ⟨"feature", "graph", "", [0.6, 0.8], [], .empty⟩,
      ⟨"module", "store", "", [1, 0], [], .empty⟩, ⟨"module", "shell", "", [0, 1], [], .empty⟩]
    [] {} 1 ⟨0, 0⟩).toOption.getD .empty

theorem made_featuresAndModules : featuresAndModules.Made := Snapshot.made_getD ..

theorem nearest_types_modules :
    let x : Executor := ⟨featuresAndModules, {}, NameMatch.byEdits 2, offsetAnalogy⟩
    let types := ["module", "feature"]
    x.snapshot.Made ∧ types.Nodup ∧ x.queryVector (.uniform [0] 1) = .ok [1, 0] ∧
      0 < Embedding.norm [1, 0] ∧
      x.snapshot.nearestAmong [1, 0] (x.snapshot.ordinals types) (some 2) (some 1) =
        .ok [⟨0, 1⟩, ⟨2, 1⟩] ∧
      x.nearest 1 (some 2) types none (.uniform [0] 1) =
        .ok (.ofSet (.ofList [⟨0, 1⟩, ⟨2, 1⟩])) := by
  intro x types
  have hmade : x.snapshot.Made := by
    dsimp only [x]
    exact made_featuresAndModules
  have hnodup : types.Nodup := by decide
  have hquery : x.queryVector (.uniform [0] 1) = .ok [1, 0] :=
    ok_of_toOption (by decide +kernel)
  have hpos : 0 < Embedding.norm [1, 0] := by decide +kernel
  have hfound : (x.snapshot.ordinals types).filterMap (x.snapshot.hit? [1, 0] (some 1)) =
      [⟨0, 1⟩, ⟨1, 0.6⟩, ⟨2, 1⟩, ⟨3, 0⟩] := by decide +kernel
  have hsorted : [⟨0, 1⟩, ⟨2, 1⟩, ⟨1, 0.6⟩, ⟨3, 0⟩].Pairwise fun a b : Hit Single =>
      ranksBefore a.score a.ordinal b.score b.ordinal = true := by decide +kernel
  have hranked : Hit.ranked ([⟨0, 1⟩, ⟨1, 0.6⟩, ⟨2, 1⟩, ⟨3, 0⟩] : List (Hit Single)) =
      [⟨0, 1⟩, ⟨2, 1⟩, ⟨1, 0.6⟩, ⟨3, 0⟩] :=
    Hit.ranked_eq_of_perm (.cons _ (.swap _ _ _)) (by decide) hsorted
  have hcheck : x.snapshot.checkQuery [1, 0] = .ok () :=
    checkQuery_of_queryVector hmade hquery hpos
  have hamong : x.snapshot.nearestAmong [1, 0] (x.snapshot.ordinals types) (some 2) (some 1) =
      .ok [⟨0, 1⟩, ⟨2, 1⟩] := by
    rw [nearestAmong_of_checkQuery hcheck, hfound, hranked]
    rfl
  obtain ⟨all, -, -, -, hall, hnearest, -⟩ :=
    nearest_types (x := x) hmade (List.cons_ne_nil _ _) hnodup hquery hpos 1 (some 2)
  rw [hamong] at hall
  rw [← Except.ok.inj hall] at hnearest
  exact ⟨hmade, hnodup, hquery, hpos, hamong, hnearest⟩

example : (featuresAndModules.ordinals []).isEmpty = false := by
  decide +kernel

end Executor

end VectorQuery
