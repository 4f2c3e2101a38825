/-
# What a snapshot indexes

A snapshot is made without entities or is built from a list of them.  In either case no two
entities have the same key, and the index of each type lists the ordinals of exactly its entities,
each once and in ascending order.  A missing display name is the only part of an entity that
building changes, and nothing that is derived reads it.
-/
import Mathlib.Data.List.Nodup
import VectorQuery.Proofs.Failure
import VectorQuery.Proofs.ScoredSet
import VectorQuery.Store.Basic
import VectorQuery.Store.Search

namespace VectorQuery.Snapshot

/-- The snapshots there are. -/
inductive Made : Snapshot → Prop
  | empty : Made .empty
  | build {entities : List (Entity Double)} {relations : List Relation} {config : StoreConfig}
      {generation : Nat} {created : Instant} {s : Snapshot}
      (h : build entities relations config generation created = .ok s) : Made s

theorem made_getD (entities : List (Entity Double)) (relations : List Relation)
    (config : StoreConfig) (generation : Nat) (created : Instant) :
    ((Snapshot.build entities relations config generation created).toOption.getD .empty).Made := by
  cases h : Snapshot.build entities relations config generation created with
  | ok s => exact .build h
  | error _ => exact .empty

/-! ## Display names -/

section

variable (e : Entity Double)

@[simp] theorem key_named : (named e).key = e.key := by
  unfold named
  split <;> rfl

@[simp] theorem entityType_named : (named e).entityType = e.entityType := by
  unfold named
  split <;> rfl

@[simp] theorem dense_named : (named e).dense = e.dense := by
  unfold named
  split <;> rfl

@[simp] theorem symbolic_named : (named e).symbolic = e.symbolic := by
  unfold named
  split <;> rfl

@[simp] theorem id_named : (named e).id = e.id := by
  unfold named
  split <;> rfl

@[simp] theorem metadata_named : (named e).metadata = e.metadata := by
  unfold named
  split <;> rfl

@[simp] theorem named_named : named (named e) = named e := by
  unfold named
  by_cases h : e.displayName.isEmpty
  · rw [if_pos h]
    split <;> rfl
  · rw [if_neg h, if_neg h]

end

theorem dimensions_named (es : List (Entity Double)) :
    Dimensions.of (es.map named) = Dimensions.of es := by
  have hfind : (es.map named).find? (0 < ·.symbolic.length) =
      (es.find? (0 < ·.symbolic.length)).map named := by
    rw [List.find?_map]
    congr 2
    funext e
    rw [Function.comp_apply, symbolic_named]
  unfold Dimensions.of
  rw [hfind, List.head?_map, Option.map_map, Option.map_map]
  congr 3
  · funext e
    rw [Function.comp_apply, dense_named]
  · funext e
    rw [Function.comp_apply, symbolic_named]

theorem validate_named (d : Dimensions) (tolerance : Single) (e : Entity Double) :
    validate d tolerance (named e) = validate d tolerance e := by
  unfold validate
  rw [dense_named, symbolic_named, key_named]

theorem add_named (c : Catalog) (ordinal : Nat) (e : Entity Double) :
    c.add ordinal (named e) = c.add ordinal e := by
  unfold Catalog.add addFields
  rw [entityType_named, id_named, key_named, metadata_named]

theorem gather_named (d : Dimensions) (tolerance : Single) (c : Catalog) (ordinal : Nat)
    (es : List (Entity Double)) :
    Catalog.gather d tolerance c ordinal (es.map named) = c.gather d tolerance ordinal es := by
  induction es generalizing c ordinal with
  | nil => rfl
  | cons e es ih =>
      rw [List.map_cons, Catalog.gather, Catalog.gather, validate_named, add_named]
      simp only [ih]

/-- Building reads no display names. -/
theorem build_named (es : List (Entity Double)) (rs : List Relation) (config : StoreConfig)
    (generation : Nat) (created : Instant) :
    build (es.map named) rs config generation created = build es rs config generation created := by
  have hnamed : (es.map named).map named = es.map named := by
    rw [List.map_map]
    congr 1
    funext e
    exact named_named e
  unfold build
  simp only [dimensions_named, gather_named, hnamed]

/-! ## The index of types -/

/-- The places of the entities of a type. -/
def positions (t : String) (es : List (Entity Double)) : List Nat :=
  (List.range es.length).filter fun i => es[i]?.any (·.entityType = t)

theorem positions_concat (t : String) (es : List (Entity Double)) (e : Entity Double) :
    positions t (es ++ [e]) =
      positions t es ++ if e.entityType = t then [es.length] else [] := by
  unfold positions
  rw [List.length_append, List.length_singleton, List.range_succ, List.filter_append]
  congr 1
  · refine List.filter_congr fun i hi => ?_
    rw [List.getElem?_append_left (List.mem_range.1 hi)]
  · rw [List.filter_singleton, List.getElem?_concat_length]
    by_cases ht : e.entityType = t
    · simp [ht]
    · simp [ht]

/-- The catalog holds exactly these entities. -/
structure Catalog.Lists (c : Catalog) (es : List (Entity Double)) : Prop where
  members : ∀ t, ((c.types.get? t).map (·.members)).getD [] = positions t es
  hasType : ∀ t, c.types.contains t = true ↔ ∃ e ∈ es, e.entityType = t
  ordinal : ∀ t id i, ((c.types.get? t).bind (·.ordinals.get? id)) = some i ↔
    ∃ e, es[i]? = some e ∧ e.key = ⟨t, id⟩
  nodup : (es.map (·.key)).Nodup

theorem Catalog.lists_empty : Catalog.empty.Lists [] where
  members _ := rfl
  hasType t := ⟨nofun, by rintro ⟨e, ⟨⟩, -⟩⟩
  ordinal t id i := ⟨nofun, by rintro ⟨e, ⟨⟩, -⟩⟩
  nodup := .nil

theorem members_addMember (id : String) (ordinal : Nat) (t : Option TypeIndex) :
    (addMember id ordinal t).members = (t.map (·.members)).getD [] ++ [ordinal] := by
  cases t <;> rfl

theorem get?_addMember (id : String) (ordinal : Nat) (t : Option TypeIndex) (k : String) :
    (addMember id ordinal t).ordinals.get? k =
      if k = id then some ordinal else t.bind (·.ordinals.get? k) := by
  cases t with
  | none => simp [addMember]
  | some t => simp [addMember]

/-- The place of a key among one more entity. -/
theorem getElem?_concat_key {es : List (Entity Double)} {e : Entity Double} {k : EntityKey}
    {i : Nat} :
    (∃ a, (es ++ [e])[i]? = some a ∧ a.key = k) ↔
      (∃ a, es[i]? = some a ∧ a.key = k) ∨ (i = es.length ∧ e.key = k) := by
  constructor
  · rintro ⟨a, ha, hk⟩
    rcases Nat.lt_trichotomy i es.length with hi | rfl | hi
    · rw [List.getElem?_append_left hi] at ha
      exact .inl ⟨a, ha, hk⟩
    · rw [List.getElem?_concat_length] at ha
      cases ha
      exact .inr ⟨rfl, hk⟩
    · rw [List.getElem?_eq_none (by simp; omega)] at ha
      cases ha
  · rintro (⟨a, ha, hk⟩ | ⟨rfl, hk⟩)
    · refine ⟨a, ?_, hk⟩
      rw [List.getElem?_append_left (List.getElem?_eq_some_iff.1 ha).1]
      exact ha
    · exact ⟨e, List.getElem?_concat_length, hk⟩

/-- One more entity changes the index of its type only. -/
theorem Catalog.get?_of_add {c c' : Catalog} {ordinal : Nat} {e : Entity Double}
    (h : c.add ordinal e = .ok c') (t : String) :
    c'.types.get? t = if t = e.entityType then some (addMember e.id ordinal (c.types.get? t))
      else c.types.get? t := by
  unfold Catalog.add at h
  split at h
  · cases h
  · cases h
    rw [OrderedMap.get?_alter]
    by_cases ht : t = e.entityType
    · rw [if_pos (Std.LawfulEqOrd.compare_eq_iff_eq.2 ht), if_pos ht, ht]
    · rw [if_neg (mt Std.LawfulEqOrd.compare_eq_iff_eq.1 ht), if_neg ht]

/-- The key of one more entity is new. -/
theorem Catalog.fresh_of_add {c c' : Catalog} {ordinal : Nat} {e : Entity Double}
    (h : c.add ordinal e = .ok c') :
    (c.types.get? e.entityType).bind (·.ordinals.get? e.id) = none := by
  unfold Catalog.add at h
  split at h
  · cases h
  · rename_i hnew
    cases ht : c.types.get? e.entityType with
    | none => rfl
    | some t =>
        rw [ht] at hnew
        change ¬ (t.ordinals.get? e.id).isSome = true at hnew
        exact Option.not_isSome_iff_eq_none.1 hnew

theorem Catalog.Lists.add {c c' : Catalog} {es : List (Entity Double)} {e : Entity Double}
    (h : c.Lists es) (hadd : c.add es.length e = .ok c') : c'.Lists (es ++ [e]) := by
  have hget := Catalog.get?_of_add hadd
  have hfresh := Catalog.fresh_of_add hadd
  constructor
  · intro t
    rw [positions_concat, hget, ← h.members t]
    by_cases ht : t = e.entityType
    · rw [if_pos ht, if_pos ht.symm, Option.map_some, Option.getD_some, members_addMember]
    · rw [if_neg ht, if_neg (Ne.symm ht), List.append_nil]
  · intro t
    have hold := h.hasType t
    unfold OrderedMap.contains at hold ⊢
    rw [hget]
    by_cases ht : t = e.entityType
    · rw [if_pos ht]
      exact ⟨fun _ => ⟨e, by simp, ht.symm⟩, fun _ => rfl⟩
    · rw [if_neg ht, hold]
      simp [Ne.symm ht]
  · intro t id i
    rw [getElem?_concat_key, ← h.ordinal t id i, hget]
    by_cases ht : t = e.entityType
    · subst ht
      rw [if_pos rfl, Option.bind_some, get?_addMember]
      by_cases hid : id = e.id
      · subst hid
        rw [if_pos rfl, hfresh]
        exact ⟨fun heq => .inr ⟨(Option.some.inj heq).symm, rfl⟩,
          fun hor => hor.elim (fun hnone => by cases hnone) fun heq => congrArg some heq.1.symm⟩
      · rw [if_neg hid]
        refine ⟨.inl, fun hor => hor.resolve_right ?_⟩
        rintro ⟨-, hkey⟩
        exact hid (congrArg EntityKey.id hkey).symm
    · rw [if_neg ht]
      refine ⟨.inl, fun hor => hor.resolve_right ?_⟩
      rintro ⟨-, hkey⟩
      exact ht (congrArg EntityKey.entityType hkey).symm
  · rw [List.map_append, List.nodup_append]
    refine ⟨h.nodup, List.nodup_singleton _, ?_⟩
    rintro k hk _ hk' rfl
    obtain ⟨a, ha, rfl⟩ := List.mem_map.1 hk
    obtain ⟨i, hi⟩ := List.getElem?_of_mem ha
    have hsome := (h.ordinal e.entityType e.id i).2 ⟨a, hi, List.mem_singleton.1 hk'⟩
    rw [hfresh] at hsome
    cases hsome

theorem Catalog.Lists.gather {d : Dimensions} {tolerance : Single} {c c' : Catalog}
    {done es : List (Entity Double)} (h : c.Lists done)
    (hgather : c.gather d tolerance done.length es = .ok c') : c'.Lists (done ++ es) := by
  induction es generalizing c done with
  | nil =>
      cases hgather
      rwa [List.append_nil]
  | cons e es ih =>
      obtain ⟨-, -, hrest⟩ := ok_of_bind hgather
      obtain ⟨c₁, hadd, hrest⟩ := ok_of_bind hrest
      have hlists := ih (h.add hadd) (by rwa [List.length_append, List.length_singleton])
      rwa [List.append_assoc, List.singleton_append] at hlists

/-! ## What was built -/

section

variable {es : List (Entity Double)} {rs : List Relation} {config : StoreConfig} {generation : Nat}
  {created : Instant} {s : Snapshot}

/-- The parts of a snapshot that was built. -/
theorem parts_of_build (h : build es rs config generation created = .ok s) :
    ∃ catalog relations,
      Catalog.gather (.of es) config.normTolerance .empty 0 es = .ok catalog ∧
      gatherRelations (.of es) .empty rs = .ok relations ∧
      s = { generation := generation
            created := created
            denseDim := (Dimensions.of es).dense
            symbolicDim := (Dimensions.of es).symbolic
            entities := (es.map named).toArray
            checksums := (es.map named).map Entity.checksum
            types := markSearchable config.indexThreshold catalog.types
            relations := relations
            fields := catalog.fields } := by
  obtain ⟨catalog, hcatalog, h⟩ := ok_of_bind h
  obtain ⟨relations, hrelations, h⟩ := ok_of_bind h
  cases h
  exact ⟨catalog, relations, hcatalog, hrelations, rfl⟩

theorem entities_of_build (h : build es rs config generation created = .ok s) :
    s.entities.toList = es.map named := by
  obtain ⟨_, _, -, -, rfl⟩ := parts_of_build h
  rfl

/-- What the index of types says, in terms of the entities of the snapshot. -/
theorem lists_of_build (h : build es rs config generation created = .ok s) :
    ∃ catalog : Catalog, catalog.Lists es ∧
      s.types = markSearchable config.indexThreshold catalog.types := by
  obtain ⟨catalog, _, hcatalog, -, rfl⟩ := parts_of_build h
  exact ⟨catalog, Catalog.lists_empty.gather hcatalog, rfl⟩

end

theorem get?_markSearchable (threshold : Nat) (types : OrderedMap String TypeIndex) (t : String) :
    (markSearchable threshold types).get? t = (types.get? t).map fun index =>
      { index with searchable := threshold < index.members.length } := by
  unfold markSearchable OrderedMap.map
  rw [OrderedMap.get?_filterMap]
  cases types.get? t <;> rfl

namespace Made

variable {s : Snapshot}

theorem nodup_keys (h : s.Made) : (s.entities.toList.map (·.key)).Nodup := by
  cases h with
  | empty => exact .nil
  | build h =>
      obtain ⟨_, hlists, -⟩ := lists_of_build h
      rw [entities_of_build h, List.map_map]
      simpa [Function.comp_def] using hlists.nodup

theorem named_entities (h : s.Made) : s.entities.toList.map named = s.entities.toList := by
  cases h with
  | empty => rfl
  | build h =>
      rw [entities_of_build h, List.map_map]
      congr 1
      funext e
      exact named_named e

/-- The index of a type lists exactly its entities. -/
theorem members_eq (h : s.Made) (t : String) :
    s.members t = positions t s.entities.toList := by
  cases h with
  | empty => rfl
  | @build es _ _ _ _ s h =>
      obtain ⟨catalog, hlists, htypes⟩ := lists_of_build h
      have hpositions : positions t s.entities.toList = positions t es := by
        rw [entities_of_build h]
        unfold positions
        rw [List.length_map]
        refine List.filter_congr fun i _ => ?_
        rw [List.getElem?_map, Option.any_map]
        congr 1
        funext e
        rw [entityType_named]
      rw [hpositions, ← hlists.members t]
      unfold members members?
      rw [htypes, get?_markSearchable, Option.map_map]
      rfl

theorem hasType_iff (h : s.Made) (t : String) :
    s.hasType t = true ↔ ∃ e ∈ s.entities.toList, e.entityType = t := by
  cases h with
  | empty => exact ⟨nofun, by rintro ⟨e, ⟨⟩, -⟩⟩
  | build h =>
      obtain ⟨catalog, hlists, htypes⟩ := lists_of_build h
      rw [entities_of_build h]
      unfold hasType OrderedMap.contains
      rw [htypes, get?_markSearchable, Option.isSome_map]
      refine (hlists.hasType t).trans ⟨?_, ?_⟩
      · rintro ⟨e, he, ht⟩
        exact ⟨named e, List.mem_map_of_mem he, (entityType_named e).trans ht⟩
      · rintro ⟨e, he, ht⟩
        obtain ⟨a, ha, rfl⟩ := List.mem_map.1 he
        exact ⟨a, ha, (entityType_named a).symm.trans ht⟩

theorem nodup_members (h : s.Made) (t : String) : (s.members t).Nodup := by
  rw [h.members_eq]
  exact List.nodup_range.filter _

theorem lt_size_of_mem (h : s.Made) {t : String} {o : Nat} (ho : o ∈ s.members t) : o < s.size := by
  rw [h.members_eq] at ho
  exact List.mem_range.1 (List.mem_filter.1 ho).1

theorem typeSize_le (h : s.Made) (t : String) : s.typeSize t ≤ s.size := by
  unfold typeSize
  rw [h.members_eq]
  refine Nat.le_trans (List.length_filter_le _ _) ?_
  rw [List.length_range]
  exact Nat.le_refl _

/-- An ordinal that is found for a key is that of the entity with the key. -/
theorem ordinal?_eq_some_iff (h : s.Made) (t id : String) (o : Nat) :
    s.ordinal? t id = some o ↔ ∃ e, s.entity? o = some e ∧ e.key = ⟨t, id⟩ := by
  have hentity : ∀ o, s.entity? o = s.entities.toList[o]? := fun o => Array.getElem?_toList.symm
  simp only [hentity]
  cases h with
  | empty => exact ⟨nofun, by rintro ⟨e, ⟨⟩, -⟩⟩
  | build h =>
      obtain ⟨catalog, hlists, htypes⟩ := lists_of_build h
      have hordinal : s.ordinal? t id = (catalog.types.get? t).bind (·.ordinals.get? id) := by
        unfold ordinal?
        rw [htypes, get?_markSearchable]
        cases catalog.types.get? t <;> rfl
      rw [hordinal, hlists.ordinal, entities_of_build h]
      simp only [List.getElem?_map, Option.map_eq_some_iff]
      constructor
      · rintro ⟨e, he, hk⟩
        exact ⟨named e, ⟨e, he, rfl⟩, (key_named e).trans hk⟩
      · rintro ⟨_, ⟨e, he, rfl⟩, hk⟩
        exact ⟨e, he, (key_named e).symm.trans hk⟩

end Made

/-! ## What is looked up -/

section

variable {s : Snapshot} {query : Embedding} {bound : Option Single} {o : Nat}

theorem lt_size_of_entity? {e : Entity Double} (h : s.entity? o = some e) : o < s.size :=
  (Array.getElem?_eq_some_iff.1 h).1

theorem entity?_of_mem_list {t : String} {e : Entity Double} (h : (o, e) ∈ s.list t) :
    s.entity? o = some e := by
  obtain ⟨o', -, h⟩ := List.mem_filterMap.1 h
  obtain ⟨e', he, heq⟩ := Option.map_eq_some_iff.1 h
  cases heq
  exact he

theorem mem_ordinals {types : List String} :
    o ∈ s.ordinals types ↔ o < s.size ∧ (types = [] ∨ ∃ t ∈ types, o ∈ s.members t) := by
  unfold ordinals
  dsimp only
  split
  · rename_i h
    rw [List.mem_range]
    exact ⟨fun ho => ⟨ho, .inl (List.isEmpty_iff.1 h)⟩, And.left⟩
  · rename_i h
    have hne : types ≠ [] := fun heq => h (List.isEmpty_iff.2 heq)
    rw [List.mem_filter, List.mem_range, List.any_eq_true]
    simp only [List.contains_iff_mem, hne, false_or]

theorem ordinal_hit? {hit : Hit Single} (h : s.hit? query bound o = some hit) : hit.ordinal = o := by
  unfold hit? at h
  obtain ⟨e, -, h⟩ := Option.bind_eq_some_iff.1 h
  obtain ⟨similarity, -, h⟩ := Option.bind_eq_some_iff.1 h
  split at h
  · cases h
  · cases h
    rfl

theorem lt_size_of_hit? {hit : Hit Single} (h : s.hit? query bound o = some hit) : o < s.size := by
  unfold hit? at h
  obtain ⟨e, he, -⟩ := Option.bind_eq_some_iff.1 h
  exact lt_size_of_entity? he

end

end VectorQuery.Snapshot
