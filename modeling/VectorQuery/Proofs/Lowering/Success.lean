/-
# Queries that have a plan

A lookup of a type that the snapshot knows has a plan, and so have a search near such a lookup, an
arrow along a relation of the snapshot between two types that it knows, and an optimization of
fields that it knows.
-/
import VectorQuery.Proofs.Canonical.Keys
import VectorQuery.Proofs.Lowering.Plans
import VectorQuery.Proofs.Plan.Relations

namespace VectorQuery

namespace Lowering

variable {s : Snapshot} (config : EngineConfig) {d : Draft}

/-! ## Without conditions below the root -/

theorem lower_lookup (t name : String) (fuzzy : Bool) :
    lower s config [] (.lookup t name fuzzy) =
      share (.lookup t name fuzzy) (lookup s t name fuzzy) := by
  rw [lower]
  rfl

theorem lower_similar (q : Query) (distance : Option Double) (topK : Option Nat)
    (targetType : Option String) :
    lower s config [] (.similar q distance topK targetType) =
      share (.similar q distance topK targetType)
        (similarity s config distance topK targetType [] (lower s config [] q)) := by
  rw [lower]
  rfl

theorem lower_relation (l : Query) (name : Option String) (r : Query) :
    lower s config [] (.relation l name r) =
      share (.relation l name r)
        (arrow s config name [] (lower s config [] l) (lower s config [] r)) := by
  rw [lower]
  rfl

theorem lower_optimize (direction : Direction) (o : Objective Double)
    (constraints : List (Comparison Double)) :
    lower s config [] (.optimize direction o constraints) =
      share (.optimize direction o constraints)
        (optimization s config direction o constraints) := by
  rw [lower]
  rfl

/-! ## Lookups -/

theorem run_checkType {t : String} (h : s.hasType t = true) (d : Draft) :
    checkType s t d = .ok ((), d) := by
  rw [checkType, if_pos h]
  rfl

theorem run_checkField {field : String}
    (h : isBuiltinField field = true ∨ s.fields.contains field = true) (d : Draft) :
    checkField s field d = .ok ((), d) := by
  rw [checkField, if_pos (Bool.or_eq_true_iff.2 h)]
  rfl

theorem run_forM {α : Type} {check : α → Lowering PUnit} {l : List α}
    (h : ∀ a ∈ l, ∀ d, check a d = .ok ((), d)) (d : Draft) : l.forM check d = .ok ((), d) := by
  induction l with
  | nil => rfl
  | cons a l ih =>
      change (check a >>= fun _ => l.forM check) d = _
      rw [bind_run (h a List.mem_cons_self d)]
      exact ih fun b hb => h b (List.mem_cons_of_mem _ hb)

/-- A lookup succeeds with a fragment of its type. -/
theorem run_lookup {t : String} (h : s.hasType t = true) (name : String) (fuzzy : Bool)
    (d : Draft) : ∃ f d', lookup s t name fuzzy d = .ok (f, d') ∧ f.types = .single t ∧
      d'.shared = d.shared := by
  unfold lookup
  rw [bind_run (run_checkType h d)]
  exact ⟨_, _, rfl, rfl, rfl⟩

/-- A lookup that is not yet known is shared from here on. -/
theorem run_lower_lookup {t name : String} {fuzzy : Bool} (h : s.hasType t = true)
    (hnew : d.shared.lookup (sharingKey (.lookup t name fuzzy) d.seen) = none) :
    ∃ f d', lower s config [] (.lookup t name fuzzy) d = .ok (f, d') ∧ f.types = .single t ∧
      d'.shared = (sharingKey (.lookup t name fuzzy) d.seen, f) :: d.shared := by
  obtain ⟨f, d', hrun, htypes, hshared⟩ := run_lookup h name fuzzy d
  have hshare : lower s config [] (.lookup t name fuzzy) d = _ :=
    (congrFun (lower_lookup config t name fuzzy) d).trans (share_of_unshared hnew)
  rw [hrun] at hshare
  exact ⟨f, _, hshare, htypes, congrArg _ hshared⟩

/-- Two lookups one after the other; the second may be the first one again. -/
theorem run_lower_lookups {source target : String} (name : String) (hs : IsIdentifier source)
    (ht : IsIdentifier target) (hsource : s.hasType source = true)
    (htarget : s.hasType target = true) :
    ∃ l r d₁ d₂, lower s config [] (.lookup source name false) start = .ok (l, d₁) ∧
      lower s config [] (.lookup target name false) d₁ = .ok (r, d₂) ∧
        l.types = .single source ∧ r.types = .single target := by
  have hnew : start.shared.lookup (sharingKey (.lookup source name false) start.seen) = none := rfl
  obtain ⟨l, d₁, hl, hltypes, hshared⟩ := run_lower_lookup config hsource hnew
  by_cases heq : source = target
  · subst heq
    have hknown : d₁.shared.lookup (sharingKey (.lookup source name false) d₁.seen) = some l := by
      rw [hshared]
      exact List.lookup_cons_self
    have hr : lower s config [] (.lookup source name false) d₁ = _ :=
      (congrFun (lower_lookup config source name false) d₁).trans (share_of_shared hknown)
    exact ⟨l, l, d₁, _, hl, hr, hltypes, hltypes⟩
  · have hkey : sharingKey (.lookup target name false) d₁.seen ≠
        sharingKey (.lookup source name false) start.seen := by
      intro hkey
      obtain ⟨hlookup, -⟩ :=
        sharingKey_injective (.lookup name false ht) (.lookup name false hs) hkey
      exact heq (Query.lookup.inj hlookup).1.symm
    have hnew' : d₁.shared.lookup (sharingKey (.lookup target name false) d₁.seen) = none := by
      rw [hshared, List.lookup_cons, beq_false_of_ne hkey]
      rfl
    obtain ⟨r, d₂, hr, hrtypes, -⟩ := run_lower_lookup config htarget hnew'
    exact ⟨l, r, d₁, d₂, hl, hr, hltypes, hrtypes⟩

/-! ## Searches, arrows and optimizations -/

theorem run_similarity {distance : Option Double} {topK : Option Nat} {target : Lowering Fragment}
    {f : Fragment} {d' : Draft} (htarget : target d = .ok (f, d'))
    (hdistance : 0 ≤ distance.getD config.compiler.defaultDistance ∧
      distance.getD config.compiler.defaultDistance ≤ 2) :
    ∃ r, similarity s config distance topK none [] target d = .ok r := by
  unfold similarity
  rw [bind_run htarget, bind_run (show searchedTypes s f none d' = .ok (f.types, d') from rfl)]
  simp only [hdistance, decide_true, Bool.and_true, Bool.not_true]
  exact ⟨_, rfl⟩

theorem run_arrow {name : Option String} {left right : Lowering Fragment} {l r : Fragment}
    {d₁ d₂ : Draft} (hl : left d = .ok (l, d₁)) (hr : right d₁ = .ok (r, d₂))
    {bindings : List RelationBinding} (hb : s.bindings name l.types r.types = .ok bindings) :
    ∃ x, arrow s config name [] left right d = .ok x := by
  have hleft : (left >>= fun f => filterAll s f []) d = .ok (l, d₁) := bind_run hl
  have hbranch : branch (left >>= fun f => filterAll s f []) d =
      .ok (⟨d.operations.length, d₁.operations.length, l⟩, d₁) := by
    rw [run_branch, hleft]
    rfl
  have hbranch' : branch right d₁ = .ok (⟨d₁.operations.length, d₂.operations.length, r⟩, d₂) := by
    rw [run_branch, hr]
    rfl
  obtain ⟨_, d₃, hmark, -⟩ := Silent.silent_run (y := markBranches
    [⟨d.operations.length, d₁.operations.length, l⟩,
      ⟨d₁.operations.length, d₂.operations.length, r⟩]) d₂
  unfold arrow
  rw [bind_run hbranch, bind_run hbranch', bind_run hmark]
  dsimp only
  rw [bind_run (lift_run hb)]
  exact ⟨_, rfl⟩

theorem run_optimization {direction : Direction} {o : Objective Double}
    {constraints : List (Comparison Double)}
    (hterms : ∀ t ∈ o.terms, isBuiltinField t.field = false ∧ s.fields.contains t.field = true ∧
      t.weight.isFinite = true)
    (hconstraints : ∀ c ∈ constraints, s.fields.contains c.field = true) (d : Draft) :
    ∃ r, optimization s config direction o constraints d = .ok r := by
  have hterm : ∀ t ∈ o.terms, ∀ d, checkTerm s t d = .ok ((), d) := by
    intro t ht d
    obtain ⟨hbuiltin, hfield, hweight⟩ := hterms t ht
    unfold checkTerm
    simp only [hbuiltin, hweight, Bool.not_true]
    exact bind_run (run_checkField (.inr hfield) d)
  have hchecked := run_forM hterm d
  have hconstrained := run_forM (fun c hc d => run_checkField (.inr (hconstraints c hc)) d) d
  unfold optimization
  rw [bind_run hchecked, bind_run hconstrained]
  dsimp only
  obtain ⟨f, d', hscan⟩ : ∃ f d', scanSeen s d = .ok (f, d') := ⟨_, _, rfl⟩
  rw [bind_run hscan]
  split
  · exact ⟨_, rfl⟩
  · exact ⟨_, rfl⟩

end Lowering

/-! ## The relation of an arrow -/

namespace Snapshot

variable {s : Snapshot}

theorem standsFor_single (s : Snapshot) (t : String) : s.StandsFor (.single t) t := by
  have hmem : t ∈ (TypeSet.single t).names := TypeSet.mem_single.2 rfl
  have hne : (TypeSet.single t).isEmpty ≠ true := fun hempty =>
    List.ne_nil_of_mem hmem (TypeSet.isEmpty_iff.1 hempty)
  rw [StandsFor, if_neg hne]
  exact hmem

theorem bindings_of_connects {name : String} {left right : TypeSet} {b : RelationBinding}
    (h : s.Connects (some name) left right b) :
    s.bindings (some name) left right = .ok (s.connections (some name) left right) := by
  obtain ⟨hambiguous, -⟩ | ⟨-, hnil, -⟩ | ⟨-, -, hbindings⟩ :=
    s.bindings_cases (some name) left right
  · exact absurd hambiguous (s.not_ambiguous_of_name name left right)
  · exact absurd hnil (List.ne_nil_of_mem (mem_connections.2 h))
  · exact hbindings

/-- A relation of the snapshot is found between its own two types. -/
theorem bindings_of_mem_relations {key : RelationKey} (h : key ∈ s.relations.keys) :
    ∃ bindings, s.bindings (some key.relation) (.single key.sourceType) (.single key.targetType) =
      .ok bindings := by
  have hknown : s.relations.contains key = true :=
    (OrderedMap.mem_keys_iff_contains _ _).1 h
  have hleads : s.Leads (some key.relation) key.sourceType key.targetType key :=
    ⟨hknown, rfl, rfl, fun _ => Option.some.inj⟩
  have hconnects : s.Connects (some key.relation) (.single key.sourceType) (.single key.targetType)
      ⟨key.sourceType, key.targetType, key, false⟩ :=
    ⟨s.standsFor_single _, s.standsFor_single _, hleads⟩
  exact ⟨_, bindings_of_connects hconnects⟩

end Snapshot

/-! ## Plans -/

namespace Plan

variable {s : Snapshot} {config : EngineConfig} {q : Query}

open Lowering (lower start)

/-- A query has a plan if what is shared for it can be made from nothing. -/
theorem exists_of_share {make : Lowering Fragment}
    (hlower : lower s config [] q = Lowering.share q make) (hmake : ∃ r, make start = .ok r)
    (limit : Option Nat) : ∃ p, ofQuery s config q limit = .ok p := by
  obtain ⟨⟨root, d⟩, hmake⟩ := hmake
  have hshare : lower s config [] q start = _ :=
    (congrFun hlower start).trans (Lowering.share_of_unshared rfl)
  rw [hmake] at hshare
  exact ⟨_, ofQuery_eq hshare limit⟩

theorem exists_lookup {t : String} (h : s.hasType t = true) (name : String) (fuzzy : Bool)
    (limit : Option Nat) : ∃ p, ofQuery s config (.lookup t name fuzzy) limit = .ok p := by
  obtain ⟨f, d, hrun, -⟩ := Lowering.run_lookup h name fuzzy start
  exact exists_of_share (Lowering.lower_lookup config t name fuzzy) ⟨_, hrun⟩ limit

/-- A search near what has a plan, within a distance in range. -/
theorem exists_similar {p : Plan} {limit : Option Nat} (h : ofQuery s config q limit = .ok p)
    (distance : Option Double)
    (hdistance : 0 ≤ distance.getD config.compiler.defaultDistance ∧
      distance.getD config.compiler.defaultDistance ≤ 2) (topK limit' : Option Nat) :
    ∃ p', ofQuery s config (.similar q distance topK none) limit' = .ok p' := by
  obtain ⟨f, d, -, hrun, -⟩ := lower_of_ofQuery h
  exact exists_of_share (Lowering.lower_similar config q distance topK none)
    (Lowering.run_similarity config hrun hdistance) limit'

/-- An arrow along a relation of the snapshot, from all of its source type to all of its target. -/
theorem exists_relation {key : RelationKey} (hkey : key ∈ s.relations.keys)
    (hs : IsIdentifier key.sourceType) (ht : IsIdentifier key.targetType)
    (hsource : s.hasType key.sourceType = true) (htarget : s.hasType key.targetType = true)
    (name : String) (limit : Option Nat) :
    ∃ p, ofQuery s config (.relation (.lookup key.sourceType name false) (some key.relation)
      (.lookup key.targetType name false)) limit = .ok p := by
  obtain ⟨l, r, d₁, d₂, hl, hr, hltypes, hrtypes⟩ :=
    Lowering.run_lower_lookups config name hs ht hsource htarget
  obtain ⟨bindings, hb⟩ := Snapshot.bindings_of_mem_relations hkey
  rw [← hltypes, ← hrtypes] at hb
  exact exists_of_share (Lowering.lower_relation config _ _ _)
    (Lowering.run_arrow config hl hr hb) limit

/-- An optimization of fields that the snapshot knows. -/
theorem exists_optimize {direction : Direction} {o : Objective Double}
    {constraints : List (Comparison Double)}
    (hterms : ∀ t ∈ o.terms, isBuiltinField t.field = false ∧ s.fields.contains t.field = true ∧
      t.weight.isFinite = true)
    (hconstraints : ∀ c ∈ constraints, s.fields.contains c.field = true) (limit : Option Nat) :
    ∃ p, ofQuery s config (.optimize direction o constraints) limit = .ok p :=
  exists_of_share (Lowering.lower_optimize config direction o constraints)
    (Lowering.run_optimization config hterms hconstraints start) limit

end Plan

end VectorQuery
