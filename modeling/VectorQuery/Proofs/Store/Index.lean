/-
# What every query relies on

However a snapshot was obtained, its indexes agree with its entities, every entity and operator was
checked, and its checksums are right (`Snapshot.Consistent`).  The lookups, universes and statistics
are read off the catalog, of which one step says what one more entity adds.

A tolerance that is no number admits a norm of any size, since nothing is greater than it; so what
is said of norms is said for tolerances that are numbers.
-/
import Mathlib.Data.List.Dedup
import VectorQuery.Proofs.Entity.FieldStats
import VectorQuery.Proofs.Number.Single
import VectorQuery.Proofs.Store.File

namespace VectorQuery.Snapshot

/-! ## Checks -/

/-- What is checked of an entity. -/
structure EntityFits (d : Dimensions) (tolerance : Single) (e : Entity Double) : Prop where
  dense_length : e.dense.length = d.dense
  symbolic_length : e.symbolic = [] ∨ e.symbolic.length = d.symbolic
  dense_finite : e.dense.isFinite = true
  symbolic_finite : e.symbolic.isFinite = true
  norm_le : tolerance.isDefined = true → Quantity.magnitude (e.dense.norm - 1) ≤ tolerance

/-- The distance of a norm from one is defined. -/
theorem isDefined_deviation {v : Embedding} (h : v.isFinite = true) :
    (Quantity.magnitude (v.norm - 1)).isDefined = true :=
  Single.isDefined_magnitude (Single.isDefined_sub_one (Single.isDefined_norm fun _ hx =>
    Single.isDefined_of_isFinite (List.all_eq_true.1 h _ hx)))

theorem entityFits_of_validate {d : Dimensions} {tolerance : Single} {e : Entity Double}
    (h : validate d tolerance e = .ok ()) : EntityFits d tolerance e := by
  unfold validate at h
  split at h
  · exact nomatch h
  rename_i hdense
  split at h
  · exact nomatch h
  rename_i hsymbolic
  split at h
  · exact nomatch h
  rename_i hfinite
  dsimp only at h
  split at h
  · exact nomatch h
  rename_i hnorm
  rw [Bool.or_eq_true, not_or, Bool.not_eq_true', Bool.not_eq_true', Bool.not_eq_false,
    Bool.not_eq_false] at hfinite
  exact
    { dense_length := not_not.1 hdense
      symbolic_length := Decidable.or_iff_not_imp_left.2 fun hne =>
        not_not.1 fun hlength => hsymbolic ⟨hne, hlength⟩
      dense_finite := hfinite.1
      symbolic_finite := hfinite.2
      norm_le := fun hdefined =>
        Single.le_of_not_lt hdefined (isDefined_deviation hfinite.1) hnorm }

/-- What is checked of an operator. -/
structure OperatorFits (d : Dimensions) (op : Operator) : Prop where
  dim_ne_zero : d.dim op.space ≠ 0
  length_eq : op.vector.length = d.dim op.space
  finite : op.vector.isFinite = true

theorem operatorFits_of_validateRelation {d : Dimensions} {r : Relation}
    (h : validateRelation d r = .ok ()) : OperatorFits d r.operator := by
  unfold validateRelation at h
  dsimp only at h
  split at h
  · exact nomatch h
  rename_i hdim
  split at h
  · exact nomatch h
  rename_i hfinite
  rw [not_or] at hdim
  exact ⟨hdim.1, not_not.1 hdim.2, by simpa using hfinite⟩

theorem validate_of_gather {d : Dimensions} {tolerance : Single} {c c' : Catalog} {ordinal : Nat}
    {es : List (Entity Double)} (h : c.gather d tolerance ordinal es = .ok c') :
    ∀ e ∈ es, EntityFits d tolerance e := by
  induction es generalizing c ordinal with
  | nil => exact nofun
  | cons e es ih =>
      obtain ⟨⟨⟩, hvalidate, hrest⟩ := ok_of_bind h
      obtain ⟨c₁, -, hrest⟩ := ok_of_bind hrest
      intro a ha
      rcases List.mem_cons.1 ha with rfl | ha
      · exact entityFits_of_validate hvalidate
      · exact ih hrest a ha

/-! ## Statistics of fields -/

/-- The entities that carry a field. -/
def carriers (field : String) (es : List (Entity Double)) : List (Entity Double) :=
  es.filter (·.metadata.contains field)

/-- The values that entities carry in a field, in their order. -/
def values (field : String) (es : List (Entity Double)) : List (Scalar Double) :=
  es.filterMap (·.metadata.get? field)

theorem values_concat (field : String) (es : List (Entity Double)) (e : Entity Double) :
    values field (es ++ [e]) = values field es ++ (e.metadata.get? field).toList := by
  simp only [values, List.filterMap_eq_flatMap_toList, List.flatMap_append, List.flatMap_singleton]

theorem length_values (field : String) (es : List (Entity Double)) :
    (values field es).length = (carriers field es).length := by
  rw [values, List.length_filterMap_eq_countP, carriers, List.countP_eq_length_filter]
  rfl

theorem values_eq_nil_iff {field : String} {es : List (Entity Double)} :
    values field es = [] ↔ carriers field es = [] := by
  rw [← List.length_eq_zero_iff, length_values, List.length_eq_zero_iff]

/-- The statistics of a field with these values; a field without values is not known. -/
def summary (vs : List (Scalar Double)) : Option (FieldStats Double) :=
  if vs = [] then none else some (.ofValues vs)

theorem summary_eq_some_iff {vs : List (Scalar Double)} {stats : FieldStats Double} :
    summary vs = some stats ↔ vs ≠ [] ∧ .ofValues vs = stats := by
  unfold summary
  by_cases h : vs = []
  · simp [h]
  · simp [h]

/-- The statistics of a field after an entity with this value in the field, if any. -/
def observed (stats : Option (FieldStats Double)) :
    Option (Scalar Double) → Option (FieldStats Double)
  | some v => some ((stats.getD .empty).observe v)
  | none => stats

/-- Values of different fields are observed once each. -/
theorem get?_observeAll (l : List (String × Scalar Double))
    (hl : l.Pairwise fun a b => compare a.1 b.1 = .lt)
    (fields : OrderedMap String (FieldStats Double)) (field : String) :
    (l.foldl (fun fields x => fields.alter x.1 fun s => (s.getD .empty).observe x.2) fields).get?
        field = observed (fields.get? field) (OrderedMap.lookupIn field l) := by
  induction l generalizing fields with
  | nil => rfl
  | cons x l ih =>
      obtain ⟨hx, hl⟩ := List.pairwise_cons.1 hl
      rw [List.foldl_cons, ih hl, OrderedMap.get?_alter, OrderedMap.lookupIn]
      by_cases hfield : compare field x.1 = .eq
      · have heq := Std.LawfulEqOrd.eq_of_compare hfield
        -- the other names are different
        have hnone : OrderedMap.lookupIn field l = none := by
          refine Option.eq_none_iff_forall_not_mem.2 fun v hv => ?_
          have hlt := hx _ ((OrderedMap.lookupIn_eq_some_iff hl field v).1 hv)
          rw [← heq, Std.ReflOrd.compare_self] at hlt
          cases hlt
        rw [hnone, if_pos hfield, if_pos hfield, heq]
        rfl
      · rw [if_neg hfield, if_neg hfield]

theorem get?_addFields (fields : OrderedMap String (FieldStats Double)) (e : Entity Double)
    (field : String) :
    (addFields fields e).get? field = observed (fields.get? field) (e.metadata.get? field) :=
  get?_observeAll e.metadata.entries e.metadata.ascending fields field

theorem observed_summary (vs : List (Scalar Double)) (o : Option (Scalar Double)) :
    observed (summary vs) o = summary (vs ++ o.toList) := by
  cases o with
  | none => rw [Option.toList_none, List.append_nil, observed]
  | some v =>
      have hstats : (summary vs).getD .empty = .ofValues vs := by cases vs <;> rfl
      rw [observed, hstats, Option.toList_some, summary, if_neg (List.concat_ne_nil v vs),
        FieldStats.ofValues_concat]

/-- The fields are those that some entity carries, with the statistics of their values. -/
def Catalog.Summarizes (c : Catalog) (es : List (Entity Double)) : Prop :=
  ∀ field, c.fields.get? field = summary (values field es)

theorem Catalog.summarizes_empty : Catalog.empty.Summarizes [] := fun _ => rfl

theorem Catalog.Summarizes.add {c c' : Catalog} {es : List (Entity Double)} {e : Entity Double}
    {ordinal : Nat} (h : c.Summarizes es) (hadd : c.add ordinal e = .ok c') :
    c'.Summarizes (es ++ [e]) := by
  have hfields : c'.fields = addFields c.fields e := by
    unfold Catalog.add at hadd
    split at hadd
    · cases hadd
    · cases hadd
      rfl
  intro field
  rw [hfields, get?_addFields, h field, observed_summary, values_concat]

theorem Catalog.Summarizes.gather {d : Dimensions} {tolerance : Single} {c c' : Catalog}
    {ordinal : Nat} {done es : List (Entity Double)} (h : c.Summarizes done)
    (hgather : c.gather d tolerance ordinal es = .ok c') : c'.Summarizes (done ++ es) := by
  induction es generalizing c done ordinal with
  | nil =>
      cases hgather
      rwa [List.append_nil]
  | cons e es ih =>
      obtain ⟨-, -, hrest⟩ := ok_of_bind hgather
      obtain ⟨c₁, hadd, hrest⟩ := ok_of_bind hrest
      have hfields := ih (h.add hadd) hrest
      rwa [List.append_assoc, List.singleton_append] at hfields

/-! ## Snapshots -/

/-- The indexes of a snapshot agree with its entities, all of which were checked. -/
structure Consistent (config : StoreConfig) (s : Snapshot) : Prop where
  nodup_keys : (s.entities.toList.map (·.key)).Nodup
  ordinal_iff : ∀ t id o, s.ordinal? t id = some o ↔ ∃ e, s.entity? o = some e ∧ e.key = ⟨t, id⟩
  mem_members : ∀ t o, o ∈ s.members t ↔ ∃ e, s.entity? o = some e ∧ e.entityType = t
  nodup_members : ∀ t, (s.members t).Nodup
  /-- Exactly the types with members are listed. -/
  hasType_iff : ∀ t, s.hasType t = true ↔ s.members t ≠ []
  /-- Every ordinal is a member of exactly one type. -/
  partition : ∀ o, o < s.size ↔ ∃! t, s.hasType t = true ∧ o ∈ s.members t
  ordinals_nil : s.ordinals [] = List.range s.size
  /-- The universe of some types is the disjoint union of their members. -/
  ordinals_perm : ∀ types, types ≠ [] → (s.ordinals types).Perm (types.dedup.flatMap s.members)
  entities : ∀ e ∈ s.entities.toList,
    EntityFits ⟨s.denseDim, s.symbolicDim⟩ config.normTolerance e ∧ (e.displayName = "" → e.id = "")
  operators : ∀ k op, s.relations.get? k = some op → OperatorFits ⟨s.denseDim, s.symbolicDim⟩ op
  isSearchable_iff : ∀ t, s.isSearchable t = true ↔ config.indexThreshold < s.typeSize t
  field_count : ∀ field stats, s.fields.get? field = some stats →
    stats.count = (carriers field s.entities.toList).length
  /-- Exactly the fields that some entity carries are known. -/
  field_known : ∀ field, s.fields.contains field = true ↔ carriers field s.entities.toList ≠ []
  verified : s.verify = .ok ()

theorem mem_members_iff {s : Snapshot} (h : s.Made) (t : String) (o : Nat) :
    o ∈ s.members t ↔ ∃ e, s.entity? o = some e ∧ e.entityType = t := by
  have hentity : s.entity? o = s.entities.toList[o]? := Array.getElem?_toList.symm
  rw [h.members_eq, positions, List.mem_filter, List.mem_range, hentity]
  constructor
  · rintro ⟨hlt, hany⟩
    obtain ⟨e, he, ht⟩ := (Option.any_eq_true _ _).1 hany
    exact ⟨e, he, by simpa using ht⟩
  · rintro ⟨e, he, ht⟩
    refine ⟨(List.getElem?_eq_some_iff.1 he).1, ?_⟩
    rw [he]
    simpa using ht

theorem hasType_iff_members {s : Snapshot} (h : s.Made) (t : String) :
    s.hasType t = true ↔ s.members t ≠ [] := by
  rw [h.hasType_iff]
  constructor
  · rintro ⟨e, he, ht⟩
    obtain ⟨o, ho⟩ := List.getElem?_of_mem he
    exact List.ne_nil_of_mem
      ((mem_members_iff h t o).2 ⟨e, Array.getElem?_toList.symm.trans ho, ht⟩)
  · intro hne
    obtain ⟨o, ho⟩ := List.exists_mem_of_ne_nil _ hne
    obtain ⟨e, he, ht⟩ := (mem_members_iff h t o).1 ho
    exact ⟨e, List.mem_of_getElem? (Array.getElem?_toList.trans he), ht⟩

example : (Snapshot.build [] [] {} 1 ⟨0, 0⟩).toOption.map (·.hasType "feature") = some false := by
  decide +kernel

theorem existsUnique_type {s : Snapshot} (h : s.Made) (o : Nat) :
    o < s.size ↔ ∃! t, s.hasType t = true ∧ o ∈ s.members t := by
  constructor
  · intro ho
    have hentity : s.entity? o = some s.entities[o] := Array.getElem?_eq_getElem ho
    have hmem := (mem_members_iff h _ o).2 ⟨_, hentity, rfl⟩
    refine ⟨_, ⟨(hasType_iff_members h _).2 (List.ne_nil_of_mem hmem), hmem⟩, ?_⟩
    rintro t ⟨-, ht⟩
    obtain ⟨e, he, rfl⟩ := (mem_members_iff h t o).1 ht
    rw [hentity] at he
    rw [Option.some.inj he]
  · rintro ⟨t, ⟨-, ho⟩, -⟩
    exact h.lt_size_of_mem ho

theorem nodup_ordinals (s : Snapshot) (types : List String) : (s.ordinals types).Nodup := by
  rw [ordinals]
  split
  · exact List.nodup_range
  · exact List.nodup_range.filter _

theorem ordinals_perm_members {s : Snapshot} (h : s.Made) {types : List String} (hne : types ≠ []) :
    (s.ordinals types).Perm (types.dedup.flatMap s.members) := by
  have hunion : (types.dedup.flatMap s.members).Nodup := by
    refine List.nodup_flatMap.2 ⟨fun t _ => h.nodup_members t, ?_⟩
    refine (List.nodup_dedup types).imp fun {t t'} hdiff o ho ho' => hdiff ?_
    obtain ⟨e, he, rfl⟩ := (mem_members_iff h t o).1 ho
    obtain ⟨e', he', rfl⟩ := (mem_members_iff h t' o).1 ho'
    rw [he] at he'
    rw [Option.some.inj he']
  refine (List.perm_ext_iff_of_nodup (s.nodup_ordinals types) hunion).2 fun o => ?_
  rw [mem_ordinals, List.mem_flatMap]
  simp only [hne, false_or, List.mem_dedup]
  exact ⟨And.right, fun hmem => ⟨h.lt_size_of_mem hmem.choose_spec.2, hmem⟩⟩

theorem displayName_named {e : Entity Double} (h : (named e).displayName = "") :
    (named e).id = "" := by
  by_cases hname : e.displayName.isEmpty
  · rw [named, if_pos hname] at h ⊢
    exact h
  · rw [named, if_neg hname] at h
    rw [h] at hname
    exact absurd rfl hname

theorem EntityFits.named {d : Dimensions} {tolerance : Single} {e : Entity Double}
    (h : EntityFits d tolerance e) : EntityFits d tolerance (Snapshot.named e) where
  dense_length := by rw [dense_named, h.dense_length]
  symbolic_length := by rw [symbolic_named]; exact h.symbolic_length
  dense_finite := by rw [dense_named, h.dense_finite]
  symbolic_finite := by rw [symbolic_named, h.symbolic_finite]
  norm_le := by rw [dense_named]; exact h.norm_le

theorem values_named (field : String) (es : List (Entity Double)) :
    values field (es.map named) = values field es := by
  unfold values
  rw [List.filterMap_map]
  simp only [Function.comp_def, metadata_named]

section Built

variable {es : List (Entity Double)} {rs : List Relation} {config : StoreConfig} {generation : Nat}
  {created : Instant} {s : Snapshot}

theorem isSearchable_of_build (h : build es rs config generation created = .ok s) (t : String) :
    s.isSearchable t = true ↔ config.indexThreshold < s.typeSize t := by
  obtain ⟨catalog, _, -, -, rfl⟩ := parts_of_build h
  unfold isSearchable typeSize members members?
  rw [get?_markSearchable]
  cases catalog.types.get? t with
  | none => simp
  | some index => simp

/-- Each field is known by the statistics of the values that the entities carry in it. -/
theorem fields_of_build (h : build es rs config generation created = .ok s) (field : String) :
    s.fields.get? field = summary (values field s.entities.toList) := by
  rw [entities_of_build h, values_named]
  obtain ⟨catalog, _, hcatalog, -, rfl⟩ := parts_of_build h
  exact Catalog.summarizes_empty.gather hcatalog field

theorem count_of_build (h : build es rs config generation created = .ok s) {field : String}
    {stats : FieldStats Double} (hstats : s.fields.get? field = some stats) :
    stats.count = (carriers field s.entities.toList).length := by
  rw [fields_of_build h, summary_eq_some_iff] at hstats
  rw [← hstats.2, FieldStats.count_ofValues, length_values]

theorem contains_fields_of_build (h : build es rs config generation created = .ok s)
    (field : String) :
    s.fields.contains field = true ↔ carriers field s.entities.toList ≠ [] := by
  rw [OrderedMap.contains, fields_of_build h, Option.isSome_iff_exists]
  simp only [summary_eq_some_iff, exists_and_left, exists_eq', and_true, ne_eq, values_eq_nil_iff]

/-- A snapshot that was built is consistent. -/
theorem consistent_of_build (h : build es rs config generation created = .ok s) :
    s.Consistent config := by
  have hmade : s.Made := .build h
  have hsums := checksums_of_build h
  have hentities : s.entities.toList = es.map named := entities_of_build h
  obtain ⟨catalog, relations, hcatalog, hrelations, hs⟩ := parts_of_build h
  have hchecked := validate_of_gather hcatalog
  have hoperators := fitsSpaces_of_gatherRelations (by rintro _ ⟨⟩) hrelations
  have hdims : (⟨s.denseDim, s.symbolicDim⟩ : Dimensions) = .of es := by rw [hs]
  exact
    { nodup_keys := hmade.nodup_keys
      ordinal_iff := hmade.ordinal?_eq_some_iff
      mem_members := mem_members_iff hmade
      nodup_members := hmade.nodup_members
      hasType_iff := hasType_iff_members hmade
      partition := existsUnique_type hmade
      ordinals_nil := rfl
      ordinals_perm := fun _ => ordinals_perm_members hmade
      entities := fun e he => by
        rw [hentities] at he
        obtain ⟨a, ha, rfl⟩ := List.mem_map.1 he
        exact ⟨hdims ▸ (hchecked a ha).named, displayName_named⟩
      operators := fun k op hop => by
        rw [hs, OrderedMap.get?_eq_some_iff] at hop
        rw [hdims]
        exact operatorFits_of_validateRelation (hoperators _ hop)
      isSearchable_iff := isSearchable_of_build h
      field_count := fun _ _ => count_of_build h
      field_known := contains_fields_of_build h
      verified := (verify_eq_ok_iff (by rw [hsums, List.length_map]; exact Array.length_toList)).2
        hsums }

end Built

open SnapshotFile (Obtained)

/-- **Indexes.** However a snapshot was obtained, by building, by loading or from any bytes that are
accepted, it is consistent. -/
theorem consistent_of_obtained {config : StoreConfig} {s : Snapshot} (h : Obtained config s) :
    s.Consistent config := by
  obtain ⟨_, _, _, _, -, -, hbuild⟩ := h.exists_build
  exact consistent_of_build hbuild

theorem consistent_commands :
    ∃ s, SnapshotFile.commandSnapshot = .ok s ∧ Obtained {} s ∧ s.Consistent {} := by
  obtain ⟨s, hbuild, hobtained⟩ := SnapshotFile.exists_commandSnapshot
  exact ⟨s, hbuild, hobtained, consistent_of_obtained hobtained⟩

/-- Settings with a tolerance that is no number. -/
def undefinedTolerance : StoreConfig := { normTolerance := ⟨0x7fc00000⟩ }

/-- An entity whose dense embedding is five times too long. -/
def longFeature : Entity Double := ⟨"feature", "cache", "cache", [3, 4], [], .empty⟩

/-- A settings file can name such a tolerance, and then no norm is refused. -/
theorem build_beyond_tolerance :
    (Config.ofToml? "[store]\nnorm_tolerance = nan\n").map (·.store) = some undefinedTolerance ∧
      (build [longFeature] [] undefinedTolerance 1 ⟨0, 0⟩).isOk = true ∧
      longFeature.dense.norm = 5 ∧
      ¬ Quantity.magnitude (longFeature.dense.norm - 1) ≤ undefinedTolerance.normTolerance :=
  ⟨by decide +kernel, by decide +kernel, by decide +kernel, by decide +kernel⟩

end VectorQuery.Snapshot
