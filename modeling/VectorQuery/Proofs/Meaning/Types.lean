/-
# Entities are of the types of their meaning

The types that a meaning carries bound those of its entities, and no types mean any type.  Each
shape of a query keeps to this: filters, intersections and arrows drop entities, a union has the
types of both sides, and searches look among the members of their types.  An intersection may keep
only the common types because no entity has two.  A subquery whose key is known gets the meaning
kept in the memory, so every meaning kept has to be typed as well (`typed_evaluate`).
-/
import VectorQuery.Proofs.Execution.Safety
import VectorQuery.Proofs.Meaning.Pushdown
import VectorQuery.Proofs.Meaning.Sharing
import VectorQuery.Proofs.Store.Index

namespace VectorQuery

open Evaluation
open Lowering (comparison?)

/-! ## Types that sets allow -/

namespace TypeSet

variable {s t : TypeSet} {n : String}

/-- The type is one of the set, or the set knows nothing. -/
def Allows (s : TypeSet) (n : String) : Prop := s.names = [] ∨ n ∈ s.names

theorem allows_empty (n : String) : Allows .empty n := .inl rfl

theorem allows_single (n : String) : (single n).Allows n := .inr (mem_single.2 rfl)

/-- What two sets allow, their common types allow. -/
theorem Allows.both (hs : s.Allows n) (ht : t.Allows n) : (s.both t).Allows n := by
  unfold TypeSet.both
  split
  · exact ht
  · split
    · exact hs
    · rename_i hsne htne
      have hs' := hs.resolve_left (mt isEmpty_iff.2 hsne)
      have ht' := ht.resolve_left (mt isEmpty_iff.2 htne)
      refine .inr (mem_names.2 ?_)
      rw [OrderedMap.get?_filter, mem_names.1 hs', OrderedMap.contains, mem_names.1 ht']
      rfl

/-- What one of two sets allows, their types together allow. -/
theorem Allows.either (h : s.Allows n ∨ t.Allows n) : (s.either t).Allows n := by
  unfold TypeSet.either
  split
  · exact allows_empty n
  · rename_i hne
    rw [Bool.or_eq_true, not_or, isEmpty_iff, isEmpty_iff] at hne
    exact .inr (mem_union.2 (h.imp (·.resolve_left hne.1) (·.resolve_left hne.2)))

end TypeSet

/-! ## Sets and their types -/

namespace Snapshot

variable {s : Snapshot} {types types' : TypeSet} {set set' : ScoredSet Single}

/-- The entity is of a type that the set of types allows. -/
def Admitted (s : Snapshot) (types : TypeSet) (o : Nat) : Prop :=
  ∃ e, s.entity? o = some e ∧ types.Allows e.entityType

/-- All entities of the set are of types that the set of types allows. -/
def Typed (s : Snapshot) (types : TypeSet) (set : ScoredSet Single) : Prop :=
  ∀ o ∈ set.members, s.Admitted types o

theorem mem_ordinals_names (hs : s.Made) {o : Nat} :
    o ∈ s.ordinals types.names ↔ s.Admitted types o := by
  rw [mem_ordinals]
  constructor
  · rintro ⟨hlt, hnil | ⟨t, ht, hmem⟩⟩
    · exact ⟨_, Array.getElem?_eq_getElem hlt, .inl hnil⟩
    · obtain ⟨e, he, rfl⟩ := (mem_members_iff hs t o).1 hmem
      exact ⟨e, he, .inr ht⟩
  · rintro ⟨e, he, hallows⟩
    exact ⟨lt_size_of_entity? he, hallows.imp id fun ht =>
      ⟨e.entityType, ht, (mem_members_iff hs _ o).2 ⟨e, he, rfl⟩⟩⟩

theorem admitted_of_mem (hs : s.Made) {t : String} {o : Nat} (ht : types.Allows t)
    (h : o ∈ s.members t) : s.Admitted types o := by
  obtain ⟨e, he, rfl⟩ := (mem_members_iff hs t o).1 h
  exact ⟨e, he, ht⟩

namespace Typed

theorem mono (h : s.Typed types set) (hsub : set'.members ⊆ set.members) : s.Typed types set' :=
  fun o ho => h o (hsub ho)

theorem empty : s.Typed types .empty := by
  rintro o ⟨⟩

theorem ofList {hits : List (Hit Single)} (h : ∀ hit ∈ hits, s.Admitted types hit.ordinal) :
    s.Typed types (.ofList hits) := by
  intro o ho
  obtain ⟨hit, hhit, rfl⟩ := (ScoredSet.mem_members_ofList _ _).1 ho
  exact h hit hhit

theorem all (hs : s.Made) (score : Single) :
    s.Typed types (.uniform (s.ordinals types.names) score) :=
  fun o ho => (mem_ordinals_names hs).1 ((ScoredSet.mem_members_uniform _ _ o).1 ho)

/-- An entity that belongs to two sets has one type, which is a type of both. -/
theorem and (h : s.Typed types set) (h' : s.Typed types' set') :
    s.Typed (types.both types') (set.and set') := by
  intro o ho
  obtain ⟨hset, hset'⟩ := (ScoredSet.mem_members_and _ _ o).1 ho
  obtain ⟨e, he, hallows⟩ := h o hset
  obtain ⟨e', he', hallows'⟩ := h' o hset'
  cases he.symm.trans he'
  exact ⟨e, he, hallows.both hallows'⟩

theorem or (h : s.Typed types set) (h' : s.Typed types' set') :
    s.Typed (types.either types') (set.or set') := by
  intro o ho
  rcases (ScoredSet.mem_members_or _ _ o).1 ho with hset | hset'
  · obtain ⟨e, he, hallows⟩ := h o hset
    exact ⟨e, he, .either (.inl hallows)⟩
  · obtain ⟨e, he, hallows⟩ := h' o hset'
    exact ⟨e, he, .either (.inr hallows)⟩

theorem complement (set : ScoredSet Single) (h : s.Typed types set') :
    s.Typed types (set.complement set'.members) :=
  fun o ho => h o ((ScoredSet.mem_members_complement set _ o).1 ho).1

end Typed

end Snapshot

/-! ## Operations -/

theorem ScoredSet.retain_eq_self {set : ScoredSet Single} {keep : Nat → Bool}
    (h : ∀ o ∈ set.members, keep o = true) : set.retain keep = set := by
  refine ScoredSet.ext_score? fun o => ?_
  rw [ScoredSet.score?_retain]
  cases ho : set.score? o with
  | none => exact ite_self none
  | some v => exact if_pos (h o ((ScoredSet.mem_members set o).2 ⟨v, ho⟩))

/-- A way to relate that finds entities of the left side only. -/
def Relating.Narrows (relate : Relating) : Prop :=
  ∀ {bindings : List RelationBinding} {minScore : Single} {left right set : ScoredSet Single},
    relate bindings minScore left right = .ok set → set.members ⊆ left.members

namespace Executor

open Snapshot

variable {x : Executor} {left right set : ScoredSet Single} {types : TypeSet}

/-- Restricting the left side to what is there restricts the answer to it. -/
theorem relating_narrows (x : Executor) : x.relating.Narrows := by
  intro bindings minScore left right set h o ho
  have hself : left.retain (fun o => decide (o ∈ left.members)) = left :=
    ScoredSet.retain_eq_self fun o ho => decide_eq_true ho
  have hrestricted := relating_retain (fun o => decide (o ∈ left.members)) h
  rw [hself, h] at hrestricted
  rw [Except.ok.inj hrestricted, ScoredSet.mem_members_retain] at ho
  exact of_decide_eq_true ho.1

theorem relatingPredictable_narrows (x : Executor) : x.relatingPredictable.Narrows := by
  intro bindings minScore left right set h o ho
  exact ((ScoredSet.mem_members_retain _ _ o).1 (relating_narrows x h ho)).2

/-! ### Searches -/

theorem mem_of_nearestAmong {s : Snapshot} {query : Embedding} {candidates : List Nat}
    {k : Option Nat} {bound : Option Single} {hits : List (Hit Single)}
    (h : s.nearestAmong query candidates k bound = .ok hits) :
    ∀ hit ∈ hits, hit.ordinal ∈ candidates ∧ hit.ordinal < s.size := by
  obtain ⟨u, -, hhits⟩ := ok_of_bind h
  cases hhits
  intro hit hhit
  obtain ⟨o, ho, hfound⟩ := List.mem_filterMap.1 (List.mem_mergeSort.1 (mem_of_atMost hhit))
  rw [ordinal_hit? hfound]
  exact ⟨ho, lt_size_of_hit? hfound⟩

theorem mem_of_nearest {s : Snapshot} {query : Embedding} {t : String} {k : Option Nat}
    {bound : Option Single} {hits : List (Hit Single)} (h : s.nearest query t k bound = .ok hits) :
    ∀ hit ∈ hits, hit.ordinal ∈ s.members t := by
  unfold Snapshot.nearest at h
  rw [Snapshot.members]
  split at h
  · cases h
    exact fun hit hhit => absurd hhit List.not_mem_nil
  · rename_i members hmembers
    rw [hmembers]
    exact fun hit hhit => (mem_of_nearestAmong h hit hhit).1

theorem ok_of_searched {α : Type} {y : Except StoreError α} {a : α} (h : searched y = .ok a) :
    y = .ok a := by
  cases y with
  | ok b =>
      cases h
      rfl
  | error e => cases h

theorem admitted_of_hits (hs : x.snapshot.Made) {query : Embedding} {maxDistance : Single}
    {topK : Option Nat} {hits : List (Hit Single)}
    (h : x.hits query maxDistance topK types.names none = .ok hits) :
    ∀ hit ∈ hits, x.snapshot.Admitted types hit.ordinal := by
  unfold Executor.hits at h
  dsimp only at h
  split at h
  · rename_i hnil
    have hnil : types.names = [] := List.isEmpty_iff.1 hnil
    intro hit hhit
    have hmem : hit.ordinal ∈ x.snapshot.ordinals (TypeSet.names .empty) :=
      (mem_of_nearestAmong (ok_of_searched h) hit hhit).1
    obtain ⟨e, he, -⟩ := (mem_ordinals_names hs).1 hmem
    exact ⟨e, he, .inl hnil⟩
  · obtain ⟨found, hfound, hhits⟩ := ok_of_bind h
    cases hhits
    have htyped : Ends (fun _ => True) (fun found => ∀ hits ∈ found, ∀ hit ∈ hits,
        x.snapshot.Admitted types hit.ordinal)
        (types.names.mapM fun t =>
          searched (x.snapshot.nearest query t topK (some maxDistance))) := by
      refine Ends.mapM fun t ht => ?_
      cases hsearch : searched (x.snapshot.nearest query t topK (some maxDistance)) with
      | error e => trivial
      | ok hits =>
          intro hit hhit
          exact admitted_of_mem hs (.inr ht) (mem_of_nearest (ok_of_searched hsearch) hit hhit)
    intro hit hhit
    obtain ⟨hits, hhits, hmem⟩ := List.mem_flatten.1 (List.mem_mergeSort.1 (mem_of_atMost hhit))
    exact htyped.of_ok hfound hits hhits hit hmem

theorem typed_nearest (hs : x.snapshot.Made) {maxDistance : Single} {topK : Option Nat}
    {target : ScoredSet Single} {r : StepResult}
    (h : x.nearest maxDistance topK types.names none target = .ok r) :
    x.snapshot.Typed types r.set := by
  unfold Executor.nearest at h
  split at h
  · cases h
    exact .empty
  · obtain ⟨query, -, h⟩ := ok_of_bind h
    obtain ⟨hits, hhits, h⟩ := ok_of_bind h
    cases h
    exact .ofList (admitted_of_hits hs hhits)

theorem typed_analogy (hs : x.snapshot.Made) {t : String} {topK : Nat} {a b c : ScoredSet Single}
    {r : StepResult} (h : x.analogy t topK a b c = .ok r) : x.snapshot.Typed (.single t) r.set := by
  unfold Executor.analogy at h
  split at h
  · obtain ⟨va, -, h⟩ := ok_of_bind h
    obtain ⟨vb, -, h⟩ := ok_of_bind h
    obtain ⟨vc, -, h⟩ := ok_of_bind h
    dsimp only at h
    split at h
    · obtain ⟨found, hfound, h⟩ := ok_of_bind h
      cases h
      refine .ofList fun hit hhit => ?_
      exact admitted_of_mem hs (TypeSet.allows_single t) (mem_of_nearest (ok_of_searched hfound) hit
        (List.mem_filter.1 (List.mem_of_mem_take hhit)).1)
    · cases h
  · cases h
    exact .empty

/-! ### The other operations -/

theorem typed_lookup (hs : x.snapshot.Made) (t name : String) (mode : LookupMode) :
    x.snapshot.Typed (.single t) (x.lookup t name mode).set := by
  have hallows := TypeSet.allows_single t
  have hlist : ∀ {p : Nat × Entity Double}, p ∈ x.snapshot.list t →
      x.snapshot.Admitted (.single t) p.1 := by
    intro p hp
    obtain ⟨o, ho, heq⟩ := List.mem_filterMap.1 hp
    obtain ⟨e, -, rfl⟩ := Option.map_eq_some_iff.1 heq
    exact admitted_of_mem hs hallows ho
  have hnamed : ∀ hit ∈ x.named t name mode, x.snapshot.Admitted (.single t) hit.ordinal := by
    intro hit hhit
    cases mode with
    | exact =>
        obtain ⟨o, ho, rfl⟩ := List.mem_map.1 hhit
        obtain ⟨e, he, hkey⟩ := (hs.ordinal?_eq_some_iff t name o).1 (Option.mem_toList.1 ho)
        cases hkey
        exact ⟨e, he, hallows⟩
    | wildcard =>
        obtain ⟨o, ho, rfl⟩ := List.mem_map.1 hhit
        exact admitted_of_mem hs hallows ho
    | glob =>
        obtain ⟨p, hp, rfl⟩ := List.mem_map.1 hhit
        exact hlist (List.mem_filter.1 hp).1
    | fuzzy =>
        obtain ⟨p, hp, hscore⟩ := List.mem_filterMap.1 hhit
        obtain ⟨score, -, rfl⟩ := Option.map_eq_some_iff.1 hscore
        exact hlist hp
  unfold lookup
  split
  · exact .empty
  · exact .ofList hnamed

theorem optimize_narrows (x : Executor) (r : OptimizationRequest Double) (pool : ScoredSet Single) :
    (x.optimize r pool).set.members ⊆ pool.members := by
  intro o ho
  obtain ⟨hit, hhit, rfl⟩ := (ScoredSet.mem_members_ofList _ _).1 ho
  obtain ⟨c, hc, rfl⟩ := List.mem_map.1 hhit
  obtain ⟨o, ho, hpair⟩ := List.mem_filterMap.1 (Optimization.mem_pool_of_selected hc)
  obtain ⟨e, -, heq⟩ := Option.map_eq_some_iff.1 hpair
  cases heq
  exact ho

end Executor

/-! ## Meanings -/

/-- All entities are of the types that the meaning carries. -/
def Meaning.Typed (s : Snapshot) (a : Meaning) : Prop := s.Typed a.types a.set

namespace Meaning.Typed

variable {x : Executor} {a b : Meaning}

theorem everything (hs : x.snapshot.Made) (types : TypeSet) :
    (Meaning.everything x types).Typed x.snapshot := Snapshot.Typed.all hs 1

theorem filter (h : a.Typed x.snapshot) (c : Comparison Double) :
    (a.filter x c).Typed x.snapshot :=
  h.mono fun o ho => ((ScoredSet.mem_members_retain _ _ o).1 ho).2

theorem filterAll (h : a.Typed x.snapshot) (cs : List (Comparison Double)) :
    (a.filterAll x cs).Typed x.snapshot := by
  induction cs generalizing a with
  | nil => exact h
  | cons c cs ih => exact ih (h.filter c)

theorem both (ha : a.Typed x.snapshot) (hb : b.Typed x.snapshot) : (a.both b).Typed x.snapshot :=
  ha.and hb

theorem either (ha : a.Typed x.snapshot) (hb : b.Typed x.snapshot) :
    (a.either b).Typed x.snapshot := ha.or hb

theorem foldl_both {as : List Meaning} (h : a.Typed x.snapshot)
    (has : ∀ b ∈ as, b.Typed x.snapshot) : (as.foldl Meaning.both a).Typed x.snapshot :=
  List.foldlRecOn as _ h fun _ ha b hb => both ha (has b hb)

theorem foldl_either {as : List Meaning} (h : a.Typed x.snapshot)
    (has : ∀ b ∈ as, b.Typed x.snapshot) : (as.foldl Meaning.either a).Typed x.snapshot :=
  List.foldlRecOn as _ h fun _ ha b hb => either ha (has b hb)

theorem outside (a : Meaning) (hb : b.Typed x.snapshot) : (a.outside b).Typed x.snapshot :=
  Snapshot.Typed.complement a.set hb

end Meaning.Typed

/-! ## Evaluations -/

/-- Every meaning kept is typed. -/
def Memory.Typed (s : Snapshot) (m : Memory) : Prop :=
  ∀ key a, m.meaningOf? key = some a → a.Typed s

theorem Memory.typed_start (s : Snapshot) : Memory.start.Typed s := by
  rintro key a ⟨⟩

/-- Whatever the computation yields satisfies `P`, and meanings kept stay typed. -/
def Yields {α : Type} (s : Snapshot) (P : α → Prop) (y : Sharing α) : Prop :=
  ∀ m a m', m.Typed s → y m = .ok (a, m') → P a ∧ m'.Typed s

namespace Yields

variable {α β : Type} {s : Snapshot} {P : α → Prop} {Q : β → Prop} {y : Sharing α}
  {f : α → Sharing β} {relate : Relating}

theorem pure {a : α} (h : P a) : Yields s P (pure a) := by
  intro m b m' hm hrun
  cases hrun
  exact ⟨h, hm⟩

theorem bind (hy : Yields s P y) (hf : ∀ a, P a → Yields s Q (f a)) : Yields s Q (y >>= f) := by
  intro m b m' hm hrun
  obtain ⟨a, m₁, hrun₁, hrun₂⟩ := run_of_bind hrun
  obtain ⟨ha, hm₁⟩ := hy m a m₁ hm hrun₁
  exact hf a ha m₁ b m' hm₁ hrun₂

theorem lift (e : Except QueryError α) (h : ∀ a, e = .ok a → P a) : Yields s P (liftM e) := by
  intro m a m' hm hrun
  cases e with
  | error e => cases hrun
  | ok b =>
      cases hrun
      exact ⟨h _ rfl, hm⟩

/-- A computation after one whose value is not of interest. -/
theorem after (e : Except QueryError α) (hf : ∀ a, e = .ok a → Yields s Q (f a)) :
    Yields s Q (liftM e >>= f) :=
  (lift e fun _ h => h).bind hf

theorem see (types : TypeSet) : Yields s (fun _ => True) ((Strategy.sharing relate).see types) := by
  intro m u m' hm hrun
  cases hrun
  exact ⟨trivial, hm⟩

theorem seen : Yields s (fun _ => True) (Strategy.sharing relate).seen := by
  intro m types m' hm hrun
  cases hrun
  exact ⟨trivial, hm⟩

/-- A meaning is taken from the memory, where it is typed, or kept there once it is known to be. -/
theorem reuse {q : Query} {make : Sharing Meaning} (h : Yields s (Meaning.Typed s) make) :
    Yields s (Meaning.Typed s) (reuse q make) := by
  intro m a m' hm hrun
  cases hk : m.meaningOf? (Lowering.sharingKey q m.seen) with
  | some b =>
      rw [reuse_of_known hk] at hrun
      cases hrun
      exact ⟨hm _ _ hk, hm⟩
  | none =>
      rw [reuse_of_unknown hk] at hrun
      obtain ⟨⟨b, m₁⟩, hmake, heq⟩ := ok_of_map hrun
      cases heq
      obtain ⟨hb, hm₁⟩ := h m b m₁ hm hmake
      refine ⟨hb, fun key c hc => ?_⟩
      rw [Memory.meaningOf?_remember] at hc
      split at hc
      · cases hc
        exact hb
      · exact hm₁ key c hc

/-! ### Single shapes -/

section

variable {x : Executor} (config : EngineConfig) (relate : Relating)

theorem arrow (hrelate : relate.Narrows) (name : Option String) {l r : Sharing Meaning}
    (hl : Yields x.snapshot (Meaning.Typed x.snapshot) l)
    (hr : Yields x.snapshot (Meaning.Typed x.snapshot) r) :
    Yields x.snapshot (Meaning.Typed x.snapshot) (arrow x config (.sharing relate) name l r) :=
  hl.bind fun _ hleft => hr.bind fun _ _ => after _ fun _ _ => after _ fun _ hset =>
    pure (Snapshot.Typed.mono hleft (hrelate (ok_of_mapError hset)))

theorem disjunction {operands : Sharing (List Meaning)}
    (h : Yields x.snapshot (fun as => ∀ a ∈ as, a.Typed x.snapshot) operands) :
    Yields x.snapshot (Meaning.Typed x.snapshot) (disjunction operands) := by
  refine h.bind fun as has => ?_
  cases as with
  | nil => exact lift _ fun _ herror => nomatch herror
  | cons a as =>
      exact pure (.foldl_either (has a List.mem_cons_self) fun b hb =>
        has b (List.mem_cons_of_mem _ hb))

theorem cons {head : Sharing Meaning} {tail : Sharing (List Meaning)}
    (h : Yields x.snapshot (Meaning.Typed x.snapshot) head)
    (ht : Yields x.snapshot (fun as => ∀ a ∈ as, a.Typed x.snapshot) tail) :
    Yields x.snapshot (fun as => ∀ a ∈ as, a.Typed x.snapshot)
      (do
        let a ← head
        let as ← tail
        Pure.pure (a :: as)) :=
  h.bind fun _ ha => ht.bind fun _ has => pure (List.forall_mem_cons.2 ⟨ha, has⟩)

variable (hs : x.snapshot.Made)

include hs

theorem everything :
    Yields x.snapshot (Meaning.Typed x.snapshot) (everything x (.sharing relate)) :=
  seen.bind fun types _ => pure (.everything hs types)

theorem lookup (t name : String) (fuzzy : Bool) :
    Yields x.snapshot (Meaning.Typed x.snapshot) (lookup x (.sharing relate) t name fuzzy) :=
  after _ fun _ _ => (see _).bind fun _ _ =>
    pure (Executor.typed_lookup hs t name (LookupMode.of name fuzzy))

theorem comparison (c : Comparison Double) :
    Yields x.snapshot (Meaning.Typed x.snapshot) (comparison x (.sharing relate) c) :=
  after _ fun _ _ => (everything relate hs).bind fun _ hall => pure (hall.filter c)

theorem optimization (direction : Direction) (objective : Objective Double)
    (constraints : List (Comparison Double)) :
    Yields x.snapshot (Meaning.Typed x.snapshot)
      (optimization x (.sharing relate) direction objective constraints) :=
  after _ fun _ _ => after _ fun _ _ => (everything relate hs).bind fun all hall =>
    pure (Snapshot.Typed.mono hall (x.optimize_narrows _ all.set))

theorem negation {operand : Sharing Meaning}
    (h : Yields x.snapshot (Meaning.Typed x.snapshot) operand) :
    Yields x.snapshot (Meaning.Typed x.snapshot) (negation x (.sharing relate) operand) :=
  h.bind fun a _ => (everything relate hs).bind fun _ hall => pure (hall.outside a)

theorem similarity (distance : Option Double) (topK : Option Nat) (targetType : Option String)
    {target : Sharing Meaning} (h : Yields x.snapshot (Meaning.Typed x.snapshot) target) :
    Yields x.snapshot (Meaning.Typed x.snapshot)
      (similarity x config (.sharing relate) distance topK targetType target) := by
  have htypes : ∀ a, Yields x.snapshot (fun _ => True)
      (searchedTypes x (.sharing relate) a targetType) := by
    intro a
    cases targetType with
    | none => exact pure trivial
    | some t => exact after _ fun _ _ => (see _).bind fun _ _ => pure trivial
  exact h.bind fun a _ => (htypes a).bind fun _ _ => after _ fun _ _ => after _ fun _ hfound =>
    pure (Executor.typed_nearest hs (ok_of_mapError hfound))

theorem analogy (targetType : Option String) {a b c : Sharing Meaning}
    (ha : Yields x.snapshot (Meaning.Typed x.snapshot) a)
    (hb : Yields x.snapshot (Meaning.Typed x.snapshot) b)
    (hc : Yields x.snapshot (Meaning.Typed x.snapshot) c) :
    Yields x.snapshot (Meaning.Typed x.snapshot)
      (analogy x config (.sharing relate) targetType a b c) :=
  ha.bind fun _ _ => hb.bind fun _ _ => hc.bind fun _ _ => after _ fun _ _ =>
    (see _).bind fun _ _ => after _ fun _ hfound =>
      pure (Executor.typed_analogy hs (ok_of_mapError hfound))

theorem conjunction (conditions : List (Comparison Double)) {operands : Sharing (List Meaning)}
    (h : Yields x.snapshot (fun as => ∀ a ∈ as, a.Typed x.snapshot) operands) :
    Yields x.snapshot (Meaning.Typed x.snapshot)
      (conjunction x (.sharing relate) conditions operands) := by
  refine after _ fun _ _ => h.bind fun as has => ?_
  cases as with
  | nil => exact (everything relate hs).bind fun _ hall => pure (hall.filterAll conditions)
  | cons a as =>
      have hboth : (as.foldl Meaning.both a).Typed x.snapshot :=
        .foldl_both (has a List.mem_cons_self) fun b hb => has b (List.mem_cons_of_mem _ hb)
      exact pure (hboth.filterAll conditions)

end

end Yields

/-! ## All queries -/

section

variable {x : Executor} (config : EngineConfig) {relate : Relating}

mutual

/-- Whatever a query is computed to is typed, if all meanings kept before are. -/
theorem typed_compute (hs : x.snapshot.Made) (hrelate : relate.Narrows) : ∀ q : Query,
    Yields x.snapshot (Meaning.Typed x.snapshot) (computeShared x config relate q)
  | .lookup t name fuzzy => by
      rw [computeShared, compute]
      exact .lookup relate hs t name fuzzy
  | .relation l name r => by
      have hl := Yields.reuse (q := l) (typed_compute hs hrelate l)
      have hr := Yields.reuse (q := r) (typed_compute hs hrelate r)
      rw [computeShared, compute]
      exact .arrow config relate hrelate name hl hr
  | .logical .and qs => by
      have hqs := typed_computeOthers hs hrelate qs
      rw [computeShared, compute]
      exact .conjunction relate hs _ hqs
  | .logical .or qs => by
      have hqs := typed_computeAll hs hrelate qs
      rw [computeShared, compute]
      exact .disjunction hqs
  | .logical .not [] => by
      rw [computeShared, compute]
      · exact .lift _ fun _ herror => nomatch herror
      · simp
  | .logical .not [q] => by
      have hq := Yields.reuse (q := q) (typed_compute hs hrelate q)
      rw [computeShared, compute]
      exact .negation relate hs hq
  | .logical .not (p :: q :: qs) => by
      rw [computeShared, compute]
      · exact .lift _ fun _ herror => nomatch herror
      · simp
  | .comparison c => by
      rw [computeShared, compute]
      exact .comparison relate hs c
  | .similar t distance topK targetType => by
      have ht := Yields.reuse (q := t) (typed_compute hs hrelate t)
      rw [computeShared, compute]
      exact .similarity config relate hs distance topK targetType ht
  | .analogy a b c targetType => by
      have ha := Yields.reuse (q := a) (typed_compute hs hrelate a)
      have hb := Yields.reuse (q := b) (typed_compute hs hrelate b)
      have hc := Yields.reuse (q := c) (typed_compute hs hrelate c)
      rw [computeShared, compute]
      exact .analogy config relate hs targetType ha hb hc
  | .optimize direction objective constraints => by
      rw [computeShared, compute]
      exact .optimization relate hs direction objective constraints

theorem typed_computeOthers (hs : x.snapshot.Made) (hrelate : relate.Narrows) : ∀ qs : List Query,
    Yields x.snapshot (fun as => ∀ a ∈ as, a.Typed x.snapshot)
      (computeOthers x config (.sharing relate) qs)
  | [] => by
      rw [computeOthers]
      exact .pure fun a ha => absurd ha List.not_mem_nil
  | q :: qs => by
      have hq := Yields.reuse (q := q) (typed_compute hs hrelate q)
      have hqs := typed_computeOthers hs hrelate qs
      rw [computeOthers]
      split
      · exact hqs
      · exact .cons hq hqs

theorem typed_computeAll (hs : x.snapshot.Made) (hrelate : relate.Narrows) : ∀ qs : List Query,
    Yields x.snapshot (fun as => ∀ a ∈ as, a.Typed x.snapshot)
      (computeAll x config (.sharing relate) qs)
  | [] => by
      rw [computeAll]
      exact .pure fun a ha => absurd ha List.not_mem_nil
  | q :: qs => by
      have hq := Yields.reuse (q := q) (typed_compute hs hrelate q)
      have hqs := typed_computeAll hs hrelate qs
      rw [computeAll]
      exact .cons hq hqs

end

/-- Entities are of the types of their meaning. -/
theorem typed_evaluate (hs : x.snapshot.Made) (hrelate : relate.Narrows) {q : Query} {a : Meaning}
    {m : Memory} (h : evaluateShared x config relate q .start = .ok (a, m)) :
    a.Typed x.snapshot :=
  ((Yields.reuse (q := q) (typed_compute config hs hrelate q)) .start a m
    (Memory.typed_start x.snapshot) h).1

end

end VectorQuery
