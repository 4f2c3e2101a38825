/-
# Loading

A load makes a new snapshot of the entities there were, followed by the loaded ones: of each key the
last entity is kept, in the place where the key first appears.  Relations work the same way.  A load
that fails leaves the store alone, so after any calls the store holds what the calls that succeeded
put there, and two loads that succeed could have been one.
-/
import Mathlib.Data.List.Induction
import VectorQuery.Proofs.Store.Snapshot

namespace VectorQuery

open Snapshot (named)

/-! ## The last entity of each key -/

/-- The keys in the order of their first appearance. -/
def firstAppearances : List EntityKey → List EntityKey
  | [] => []
  | k :: ks => k :: (firstAppearances ks).filter (· ≠ k)

/-- The last entity with a key. -/
def lastWith? (k : EntityKey) (es : List (Entity Double)) : Option (Entity Double) :=
  es.reverse.find? (·.key = k)

/-- One entity of each key: the last one, where the key first appears. -/
def latest (es : List (Entity Double)) : List (Entity Double) :=
  (firstAppearances (es.map (·.key))).filterMap (lastWith? · es)

theorem mem_firstAppearances {k : EntityKey} {ks : List EntityKey} :
    k ∈ firstAppearances ks ↔ k ∈ ks := by
  induction ks with
  | nil => exact Iff.rfl
  | cons j ks ih =>
      rw [firstAppearances, List.mem_cons, List.mem_cons, List.mem_filter, ih, decide_eq_true_eq]
      constructor
      · rintro (rfl | ⟨hk, -⟩)
        · exact .inl rfl
        · exact .inr hk
      · rintro (rfl | hk)
        · exact .inl rfl
        · by_cases hj : k = j
          · exact .inl hj
          · exact .inr ⟨hk, hj⟩

theorem firstAppearances_concat (ks : List EntityKey) (k : EntityKey) :
    firstAppearances (ks ++ [k]) =
      if k ∈ ks then firstAppearances ks else firstAppearances ks ++ [k] := by
  induction ks with
  | nil => rfl
  | cons j ks ih =>
      rw [List.cons_append, firstAppearances, ih, firstAppearances]
      by_cases hks : k ∈ ks
      · rw [if_pos hks, if_pos (List.mem_cons_of_mem _ hks)]
      · rw [if_neg hks, List.filter_append]
        by_cases hj : k = j
        · rw [if_pos (by simp [hj]), hj, List.filter_singleton]
          simp
        · rw [if_neg (by simp [hj, hks]), List.filter_singleton]
          simp [hj]

theorem lastWith?_concat (k : EntityKey) (es : List (Entity Double)) (e : Entity Double) :
    lastWith? k (es ++ [e]) = if e.key = k then some e else lastWith? k es := by
  unfold lastWith?
  rw [List.reverse_append, List.reverse_singleton, List.singleton_append, List.find?_cons]
  by_cases hk : e.key = k
  · rw [if_pos hk]
    simp [hk]
  · rw [if_neg hk]
    simp [hk]

theorem key_of_lastWith? {k : EntityKey} {es : List (Entity Double)} {e : Entity Double}
    (h : lastWith? k es = some e) : e.key = k := by
  simpa using List.find?_some h

theorem exists_lastWith? {k : EntityKey} {es : List (Entity Double)} (h : k ∈ es.map (·.key)) :
    ∃ e, lastWith? k es = some e := by
  obtain ⟨e, he, hk⟩ := List.mem_map.1 h
  refine Option.isSome_iff_exists.1 (List.find?_isSome.2 ⟨e, List.mem_reverse.2 he, ?_⟩)
  simpa using hk

/-- The entities kept have the keys there are, each once. -/
theorem keys_latest (es : List (Entity Double)) :
    (latest es).map (·.key) = firstAppearances (es.map (·.key)) := by
  unfold latest
  rw [List.map_filterMap]
  have hkeys : ∀ ks : List EntityKey, (∀ k ∈ ks, k ∈ es.map (·.key)) →
      ks.filterMap (fun k => (lastWith? k es).map (·.key)) = ks := by
    intro ks hks
    induction ks with
    | nil => rfl
    | cons k ks ih =>
        obtain ⟨e, he⟩ := exists_lastWith? (hks k List.mem_cons_self)
        rw [List.filterMap_cons, he, Option.map_some, key_of_lastWith? he]
        exact congrArg _ (ih fun j hj => hks j (List.mem_cons_of_mem _ hj))
  exact hkeys _ fun k hk => mem_firstAppearances.1 hk

/-- One more entity is put in the place of the one with its key, or else at the end. -/
theorem latest_concat (es : List (Entity Double)) (e : Entity Double) :
    latest (es ++ [e]) = upsert (latest es) e := by
  have hany : (latest es).any (·.key = e.key) = true ↔ e.key ∈ es.map (·.key) := by
    rw [← mem_firstAppearances, ← keys_latest]
    simp [List.any_eq_true]
  unfold upsert
  rw [latest, List.map_append, List.map_singleton, firstAppearances_concat]
  by_cases hk : e.key ∈ es.map (·.key)
  · rw [if_pos hk, if_pos (hany.2 hk), latest, List.map_filterMap]
    refine List.filterMap_congr fun k hmem => ?_
    rw [lastWith?_concat]
    obtain ⟨old, hold⟩ := exists_lastWith? (mem_firstAppearances.1 hmem)
    rw [hold, Option.map_some, key_of_lastWith? hold]
    by_cases hke : e.key = k
    · rw [if_pos hke, if_pos hke.symm]
    · rw [if_neg hke, if_neg (Ne.symm hke)]
  · rw [if_neg hk, if_neg (mt hany.1 hk), List.filterMap_append, latest]
    congr 1
    · refine List.filterMap_congr fun k hmem => ?_
      rw [lastWith?_concat, if_neg]
      rintro rfl
      exact hk (mem_firstAppearances.1 hmem)
    · rw [List.filterMap_cons, lastWith?_concat, if_pos rfl]
      rfl

theorem latest_of_nodup {es : List (Entity Double)} (h : (es.map (·.key)).Nodup) :
    latest es = es := by
  induction es using List.reverseRecOn with
  | nil => rfl
  | append_singleton es e ih =>
      rw [List.map_append, List.nodup_append] at h
      obtain ⟨hes, -, hdisjoint⟩ := h
      rw [latest_concat, ih hes, upsert, if_neg]
      intro hany
      obtain ⟨a, ha, hk⟩ := List.any_eq_true.1 hany
      exact hdisjoint _ (List.mem_map_of_mem ha) e.key (by simp) (by simpa using hk)

theorem foldl_upsert_latest (es new : List (Entity Double)) :
    new.foldl upsert (latest es) = latest (es ++ new) := by
  induction new using List.reverseRecOn with
  | nil => rw [List.append_nil, List.foldl_nil]
  | append_singleton new e ih =>
      rw [List.foldl_concat, ih, ← List.append_assoc, latest_concat]

/-- Entities put one after the other into a collection with one entity a key. -/
theorem foldl_upsert {es : List (Entity Double)} (h : (es.map (·.key)).Nodup)
    (new : List (Entity Double)) : new.foldl upsert es = latest (es ++ new) := by
  rw [← foldl_upsert_latest, latest_of_nodup h]

/-- What is put in does not depend on the display names of what is there. -/
theorem upsert_named {es es' : List (Entity Double)} (h : es.map named = es'.map named)
    (e : Entity Double) : (upsert es e).map named = (upsert es' e).map named := by
  have hany : ∀ l : List (Entity Double),
      l.any (·.key = e.key) = (l.map named).any (·.key = e.key) := by
    intro l
    rw [List.any_map]
    congr 1
    funext a
    rw [Function.comp_apply, Snapshot.key_named]
  have hmap : ∀ l : List (Entity Double),
      (l.map fun old => if old.key = e.key then e else old).map named =
        (l.map named).map fun old => if old.key = e.key then named e else old := by
    intro l
    rw [List.map_map, List.map_map]
    congr 1
    funext a
    rw [Function.comp_apply, Function.comp_apply, Snapshot.key_named]
    exact apply_ite named _ _ _
  unfold upsert
  rw [hany es, hany es', h, apply_ite (List.map named), apply_ite (List.map named), hmap, hmap, h,
    List.map_append, List.map_append, h]

theorem foldl_upsert_named {es es' : List (Entity Double)} (h : es.map named = es'.map named)
    (new : List (Entity Double)) :
    (new.foldl upsert es).map named = (new.foldl upsert es').map named := by
  induction new generalizing es es' with
  | nil => exact h
  | cons e new ih => exact ih (upsert_named h e)

/-! ## Operators -/

/-- The operator of the last relation with a key. -/
def lastOperator? (k : RelationKey) (rs : List Relation) : Option Operator :=
  (rs.reverse.find? (·.key = k)).map (·.operator)

/-- Relations put one after the other into operators by key. -/
def withRelations (m : OrderedMap RelationKey Operator) (rs : List Relation) :
    OrderedMap RelationKey Operator :=
  rs.foldl (fun m r => m.insert r.key r.operator) m

theorem get?_withRelations (m : OrderedMap RelationKey Operator) (rs : List Relation)
    (k : RelationKey) : (withRelations m rs).get? k = (lastOperator? k rs).or (m.get? k) := by
  induction rs using List.reverseRecOn with
  | nil => rfl
  | append_singleton rs r ih =>
      unfold withRelations lastOperator? at *
      rw [List.foldl_concat, OrderedMap.get?_insert, ih, List.reverse_append,
        List.reverse_singleton, List.singleton_append, List.find?_cons]
      by_cases hk : r.key = k
      · rw [if_pos (Std.LawfulEqOrd.compare_eq_iff_eq.2 hk.symm)]
        simp [hk]
      · rw [if_neg (mt Std.LawfulEqOrd.compare_eq_iff_eq.1 (Ne.symm hk))]
        simp [hk]

theorem lastOperator?_append (k : RelationKey) (rs rs' : List Relation) :
    lastOperator? k (rs ++ rs') = (lastOperator? k rs').or (lastOperator? k rs) := by
  unfold lastOperator?
  rw [List.reverse_append, List.find?_append, Option.map_or]

/-- The relations of a map, put together again, are the map. -/
theorem withRelations_entries (m : OrderedMap RelationKey Operator) :
    withRelations .empty (m.entries.map fun e => ⟨e.1, e.2⟩) = m := by
  rw [withRelations, List.foldl_map]
  exact m.ofList_entries

theorem relations_of_gatherRelations {d : Snapshot.Dimensions}
    {m m' : OrderedMap RelationKey Operator} {rs : List Relation}
    (h : Snapshot.gatherRelations d m rs = .ok m') : m' = withRelations m rs := by
  induction rs generalizing m with
  | nil =>
      cases h
      rfl
  | cons r rs ih =>
      obtain ⟨-, -, hrest⟩ := ok_of_bind h
      exact ih hrest

/-! ## Loads -/

/-- What a call brings to a store, and when. -/
structure Load where
  entities : List (Entity Double)
  relations : List Relation
  now : Instant

namespace Snapshot

/-- `next` is `s` with entities and relations put in, one after the other. -/
structure Gains (s next : Snapshot) (es : List (Entity Double)) (rs : List Relation) : Prop where
  /-- Each key has the entity last loaded, in the place where the key first appeared. -/
  entities : next.entities.toList = (latest (s.entities.toList ++ es)).map named
  /-- No two entities have the same key. -/
  nodup : (next.entities.toList.map (·.key)).Nodup
  /-- Each key has the operator last loaded. -/
  relations : ∀ k, next.relations.get? k = (lastOperator? k rs).or (s.relations.get? k)

variable {s s₁ s₂ : Snapshot} {es es' : List (Entity Double)} {rs rs' : List Relation}

theorem Made.gains_nothing (h : s.Made) : s.Gains s [] [] where
  entities := by rw [List.append_nil, latest_of_nodup h.nodup_keys, h.named_entities]
  nodup := h.nodup_keys
  relations _ := rfl

theorem Gains.trans (h : s.Gains s₁ es rs) (h' : s₁.Gains s₂ es' rs') :
    s.Gains s₂ (es ++ es') (rs ++ rs') where
  entities := by
    have hnamed : s₁.entities.toList.map named = (latest (s.entities.toList ++ es)).map named := by
      rw [h.entities, List.map_map]
      congr 1
      funext e
      exact named_named e
    rw [h'.entities, ← foldl_upsert h.nodup, foldl_upsert_named hnamed, foldl_upsert_latest,
      List.append_assoc]
  nodup := h'.nodup
  relations k := by
    rw [h'.relations, h.relations, lastOperator?_append, Option.or_assoc]

end Snapshot

namespace Store

variable {s next : Store} {l : Load}

/-- What a load leaves: the new store, or the old one if it fails. -/
def after (s : Store) (l : Load) : Store :=
  match s.load l.entities l.relations l.now with
  | .ok next => next
  | .error _ => s

/-- What calls leave, one after the other. -/
def afterAll (s : Store) (calls : List Load) : Store := calls.foldl after s

/-- A snapshot of the entities and relations that are there after a load. -/
theorem load_eq (s : Store) (es : List (Entity Double)) (rs : List Relation) (now : Instant) :
    s.load es rs now =
      (Snapshot.build (es.foldl upsert s.current.entities.toList)
        ((withRelations s.current.relations rs).entries.map fun e => ⟨e.1, e.2⟩) s.config
        (Number.word (s.current.generation + 1)) now).map fun next => { s with current := next } :=
  rfl

theorem exists_build (h : s.load l.entities l.relations l.now = .ok next) :
    next.config = s.config ∧
      Snapshot.build (l.entities.foldl upsert s.current.entities.toList)
        ((withRelations s.current.relations l.relations).entries.map fun e => ⟨e.1, e.2⟩) s.config
        (Number.word (s.current.generation + 1)) l.now = .ok next.current := by
  rw [load_eq] at h
  obtain ⟨snapshot, hbuild, rfl⟩ := ok_of_map h
  exact ⟨rfl, hbuild⟩

theorem made_of_load (h : s.load l.entities l.relations l.now = .ok next) : next.current.Made :=
  .build (exists_build h).2

/-- A snapshot stays one when loads change it. -/
theorem made_after (h : s.current.Made) (l : Load) : (s.after l).current.Made := by
  unfold after
  cases hload : s.load l.entities l.relations l.now with
  | ok next => exact made_of_load hload
  | error e => exact h

theorem made_afterAll (h : s.current.Made) (calls : List Load) :
    (s.afterAll calls).current.Made := by
  induction calls generalizing s with
  | nil => exact h
  | cons l calls ih => exact ih (made_after h l)

theorem relations_of_build {es : List (Entity Double)} {m : OrderedMap RelationKey Operator}
    {config : StoreConfig} {generation : Nat} {now : Instant} {s : Snapshot}
    (h : Snapshot.build es (m.entries.map fun e => ⟨e.1, e.2⟩) config generation now = .ok s) :
    s.relations = m := by
  obtain ⟨_, relations, -, hrelations, rfl⟩ := Snapshot.parts_of_build h
  exact (relations_of_gatherRelations hrelations).trans (withRelations_entries m)

theorem generation_of_build {es : List (Entity Double)} {rs : List Relation} {config : StoreConfig}
    {generation : Nat} {now : Instant} {s : Snapshot}
    (h : Snapshot.build es rs config generation now = .ok s) : s.generation = generation := by
  obtain ⟨_, _, -, -, rfl⟩ := Snapshot.parts_of_build h
  rfl

/-- A load that succeeds puts in what it brings, and nothing else. -/
theorem gains_of_load (hmade : s.current.Made)
    (h : s.load l.entities l.relations l.now = .ok next) :
    s.current.Gains next.current l.entities l.relations := by
  obtain ⟨-, hbuild⟩ := exists_build h
  constructor
  · rw [Snapshot.entities_of_build hbuild, foldl_upsert hmade.nodup_keys]
  · exact (made_of_load h).nodup_keys
  · intro k
    rw [relations_of_build hbuild, get?_withRelations]

/-- A load that succeeds makes the next generation, as far as a word counts. -/
theorem generation_of_load (h : s.load l.entities l.relations l.now = .ok next)
    (hlt : s.current.generation < 2 ^ 64 - 1) :
    next.current.generation = s.current.generation + 1 := by
  rw [generation_of_build (exists_build h).2]
  exact Number.word_of_lt (by omega)

/-- The calls that succeed when they are made one after the other. -/
def accepted (s : Store) : List Load → List Load
  | [] => []
  | l :: calls =>
    match s.load l.entities l.relations l.now with
    | .ok next => l :: next.accepted calls
    | .error _ => s.accepted calls

/-- After any calls, what is there comes from the calls that succeeded. -/
theorem gains_afterAll (h : s.current.Made) (calls : List Load) :
    s.current.Gains (s.afterAll calls).current ((s.accepted calls).flatMap (·.entities))
      ((s.accepted calls).flatMap (·.relations)) := by
  induction calls generalizing s with
  | nil => exact h.gains_nothing
  | cons l calls ih =>
      change s.current.Gains ((s.after l).afterAll calls).current _ _
      unfold accepted after
      cases hload : s.load l.entities l.relations l.now with
      | ok next =>
          rw [List.flatMap_cons, List.flatMap_cons]
          exact (gains_of_load h hload).trans (ih (made_of_load hload))
      | error e => exact ih h

/-- Building from the same entities and relations at another time, as another generation. -/
theorem build_again {es : List (Entity Double)} {rs : List Relation} {config : StoreConfig}
    {generation : Nat} {now : Instant} {s : Snapshot}
    (h : Snapshot.build es rs config generation now = .ok s) (generation' : Nat) (now' : Instant) :
    Snapshot.build es rs config generation' now' =
      .ok { s with generation := generation', created := now' } := by
  obtain ⟨catalog, relations, hcatalog, hrelations, rfl⟩ := Snapshot.parts_of_build h
  unfold Snapshot.build
  simp only [hcatalog, hrelations]
  rfl

/-- Two loads that succeed could have been one: it gives the same snapshot, of its own generation
and time. -/
theorem load_append {first second : Load} {s₁ s₂ : Store} (now : Instant)
    (h₁ : s.load first.entities first.relations first.now = .ok s₁)
    (h₂ : s₁.load second.entities second.relations second.now = .ok s₂) :
    s.load (first.entities ++ second.entities) (first.relations ++ second.relations) now =
      .ok { s₂ with
        current := { s₂.current with
          generation := Number.word (s.current.generation + 1)
          created := now } } := by
  obtain ⟨hconfig₁, hbuild₁⟩ := exists_build h₁
  obtain ⟨hconfig₂, hbuild₂⟩ := exists_build h₂
  have hrelations : withRelations s.current.relations (first.relations ++ second.relations) =
      withRelations s₁.current.relations second.relations := by
    rw [relations_of_build hbuild₁]
    exact List.foldl_append
  have hnamed : ((first.entities ++ second.entities).foldl upsert s.current.entities.toList).map named =
      (second.entities.foldl upsert s₁.current.entities.toList).map named := by
    rw [List.foldl_append]
    refine foldl_upsert_named ?_ _
    rw [(made_of_load h₁).named_entities, Snapshot.entities_of_build hbuild₁]
  rw [load_eq, ← Snapshot.build_named, hnamed, Snapshot.build_named, hrelations, ← hconfig₁,
    build_again hbuild₂]
  change Except.ok (Store.mk _ _) = Except.ok (Store.mk _ _)
  rw [hconfig₂, hconfig₁]

/-- After any calls, a load either puts in what it brings, as the next generation, or leaves the
store as it was; and two loads that succeed could have been one. -/
theorem load_upserts (h : s.current.Made) (calls : List Load) :
    s.current.Gains (s.afterAll calls).current ((s.accepted calls).flatMap (·.entities))
      ((s.accepted calls).flatMap (·.relations)) ∧
    (∀ l, (∃ next, (s.afterAll calls).load l.entities l.relations l.now = .ok next ∧
        s.afterAll (calls ++ [l]) = next ∧
        (s.afterAll calls).current.Gains next.current l.entities l.relations ∧
        ((s.afterAll calls).current.generation < 2 ^ 64 - 1 →
          next.current.generation = (s.afterAll calls).current.generation + 1)) ∨
      (∃ e, (s.afterAll calls).load l.entities l.relations l.now = .error e ∧
        s.afterAll (calls ++ [l]) = s.afterAll calls)) ∧
    ∀ (first second : Load) (s₁ s₂ : Store) (now : Instant),
      (s.afterAll calls).load first.entities first.relations first.now = .ok s₁ →
      s₁.load second.entities second.relations second.now = .ok s₂ →
      ∃ s₃, (s.afterAll calls).load (first.entities ++ second.entities)
          (first.relations ++ second.relations) now = .ok s₃ ∧
        s₃.current = { s₂.current with
          generation := s₃.current.generation
          created := s₃.current.created } := by
  have hafter : ∀ l, s.afterAll (calls ++ [l]) = (s.afterAll calls).after l :=
    fun l => List.foldl_concat ..
  refine ⟨gains_afterAll h calls, fun l => ?_, fun first second s₁ s₂ now h₁ h₂ => ?_⟩
  · rw [hafter]
    unfold after
    cases hload : (s.afterAll calls).load l.entities l.relations l.now with
    | ok next =>
        exact .inl ⟨next, rfl, rfl, gains_of_load (made_afterAll h calls) hload,
          generation_of_load hload⟩
    | error e => exact .inr ⟨e, rfl, rfl⟩
  · exact ⟨_, load_append now h₁ h₂, rfl⟩

/-- A call that brings the command "deps" twice, and another command in between. -/
def repeatedCommand : Load where
  entities :=
    let command (id name : String) : Entity Double := ⟨"command", id, name, [1], [], .empty⟩
    [command "deps" "", command "lint" "", command "deps" "Dependencies"]
  relations := []
  now := ⟨0, 0⟩

theorem load_upserts_repeated :
    Snapshot.empty.Made ∧
      ∃ next, (Store.empty {}).load repeatedCommand.entities repeatedCommand.relations
          repeatedCommand.now = .ok next ∧
        next.current.entities.toList.map (·.displayName) = ["Dependencies", "lint"] ∧
        next.current.generation = 1 := by
  obtain ⟨-, hstep, -⟩ := load_upserts (s := Store.empty {}) .empty []
  rcases hstep repeatedCommand with ⟨next, hload, -, hgains, hgeneration⟩ | ⟨e, hload, -⟩
  · refine ⟨.empty, next, hload, ?_, hgeneration (by decide)⟩
    rw [hgains.entities]
    decide +kernel
  · have hok : ((Store.empty {}).load repeatedCommand.entities repeatedCommand.relations
        repeatedCommand.now).isOk = true := by decide +kernel
    have herror : ((Store.empty {}).load repeatedCommand.entities repeatedCommand.relations
        repeatedCommand.now) = .error e := hload
    rw [herror] at hok
    cases hok

end Store

end VectorQuery
