/-
# Arrows and the best pairs

An arrow scores an entity on its left by the best of its pairs.  The scores are kept in a table
while bindings, sources and targets are gone through, and every step of these three loops adds the
pairs of one element to those that the table holds the best of (`RelationScores.Best`).  An arrow
fails exactly if a relation predicts nothing for one of its sources, and what it computes is told by
its pairs alone (`Executor.relate_best`), so neither the order of the bindings nor the scores on the
right matter.
-/
import VectorQuery.Proofs.Execution.Safety
import VectorQuery.Proofs.Meaning.Pushdown
import VectorQuery.Proofs.Number.Norm
import VectorQuery.Proofs.Plan.Relations
import VectorQuery.Proofs.Store.Index

namespace VectorQuery

variable {s : Snapshot} {left right : ScoredSet Single} {bindings : List RelationBinding}

/-! ## Pairs -/

namespace RelationBinding

variable {b : RelationBinding}

/-- The type of the entities that the binding predicts from. -/
def sourceType (b : RelationBinding) : String := if b.reversed then b.rightType else b.leftType

/-- The type of the entities that the binding predicts. -/
def targetType (b : RelationBinding) : String := if b.reversed then b.leftType else b.rightType

/-- A relation of the snapshot leads from the one type of the binding to the other. -/
def Resolved (s : Snapshot) (b : RelationBinding) : Prop :=
  s.Leads none b.sourceType b.targetType b.key

/-- What joins two types is resolved. -/
theorem resolved_of_joins {name : Option String} (h : s.Joins name b) : b.Resolved s := by
  obtain ⟨l, r, key, reversed⟩ := b
  cases reversed with
  | false => exact ⟨h.known, h.source, h.target, nofun⟩
  | true => exact ⟨h.2.known, h.2.source, h.2.target, nofun⟩

theorem resolved_of_bindings {name : Option String} {l r : TypeSet}
    (h : s.bindings name l r = .ok bindings) : ∀ b ∈ bindings, b.Resolved s := by
  by_cases hambiguous : s.Ambiguous name l r
  · obtain ⟨_, _, _, herror⟩ := Snapshot.bindings_of_ambiguous hambiguous
    rw [herror] at h
    cases h
  · rw [Snapshot.bindings_of_not_ambiguous hambiguous] at h
    split at h
    · cases h
    · cases h
      exact fun b hb => resolved_of_joins (Snapshot.mem_connections.1 hb).joins

/-- The cosine of what the binding predicts for its source with the embedding of its target. -/
def cosine? (s : Snapshot) (b : RelationBinding) (l r : Entity Double) : Option Single :=
  (s.relations.get? b.key).bind fun op =>
    if b.reversed then (op.apply r).cosine? (op.space.embedding l)
    else (op.apply l).cosine? (op.space.embedding r)

/-- The binding joins an entity on the left to some entity on the right with this score.  It is
their cosine, and minus infinity should the cosine be no number. -/
def Scores (s : Snapshot) (right : ScoredSet Single) (b : RelationBinding) (l : Nat)
    (score : Single) : Prop :=
  ∃ r ∈ right.members, ∃ e f c, s.entity? l = some e ∧ s.entity? r = some f ∧
    e.entityType = b.leftType ∧ f.entityType = b.rightType ∧ b.cosine? s e f = some c ∧
    score = if c.isDefined then c else -.infinity

/-- The relation predicts a vector of norm zero for an entity that the binding predicts from. -/
def Unpredictable (s : Snapshot) (left right : ScoredSet Single) (b : RelationBinding) : Prop :=
  ∃ o ∈ (if b.reversed then right else left).members, ∃ e op, s.entity? o = some e ∧
    e.entityType = b.key.sourceType ∧ s.relations.get? b.key = some op ∧
    ((op.apply e).norm == 0) = true

end RelationBinding

/-- Some binding joins an entity on the left to one on the right with this score. -/
def Snapshot.Pairs (s : Snapshot) (bindings : List RelationBinding) (right : ScoredSet Single)
    (l : Nat) (score : Single) : Prop :=
  ∃ b ∈ bindings, b.Scores s right l score

/-! ## Tables of the best scores -/

namespace RelationScores

open Single

theorem counted_eq (c : Single) : counted c = if c.isDefined then c else -.infinity := by
  have hinfinity : (-infinity : Single).isDefined = true := by decide
  rw [counted, greater_eq hinfinity]
  by_cases hc : c.isDefined = true
  · rw [if_pos hc]
    split
    · rfl
    · rename_i hle
      exact (eq_of_le_neg_infinity (le_of_not_lt hinfinity hc hle)).symm
  · rw [if_neg hc, if_neg fun hlt => hc ((lt_iff_position _ _).1 hlt).2.1]

theorem isDefined_counted (c : Single) : (counted c).isDefined = true := by
  rw [counted_eq]
  split
  · assumption
  · decide

/-- The table holds the best of the scores of each entity on the left, if it has any. -/
def Best (r : RelationScores) (Q : Nat → Single → Prop) : Prop :=
  ∀ l, match r.left.score? l with
    | none => ∀ x, ¬ Q l x
    | some best => IsGreatest {x | Q l x} best

variable {r : RelationScores} {Q Q' : Nat → Single → Prop}

theorem Best.congr (h : Best r Q) (hQ : ∀ l x, Q l x ↔ Q' l x) : Best r Q' := by
  have heq : Q = Q' := funext fun l => funext fun x => propext (hQ l x)
  rwa [← heq]

theorem best_empty : Best empty fun _ _ => False := fun _ _ h => h

/-- One more pair adds its score to those of its entity on the left. -/
theorem Best.record (h : Best r Q) (l t : Nat) (score : Single) :
    Best (r.record l t score) fun o x => Q o x ∨ (o = l ∧ x = counted score) := by
  intro o
  have ho := h o
  rw [RelationScores.record, ScoredSet.score?_insert]
  by_cases heq : o = l
  · subst heq
    rw [if_pos rfl]
    cases hscore : r.left.score? o with
    | none =>
        rw [hscore] at ho
        refine ⟨.inr ⟨rfl, rfl⟩, ?_⟩
        rintro x (hx | ⟨-, rfl⟩)
        · exact absurd hx (ho x)
        · exact Single.le_refl (isDefined_counted score)
    | some best =>
        rw [hscore] at ho
        have hset : {x | Q o x ∨ (o = o ∧ x = counted score)} =
            {x | x ∈ {x | Q o x} ∨ x = counted score} := by simp
        show IsGreatest {x | Q o x ∨ (o = o ∧ x = counted score)} _
        rw [hset]
        exact isGreatest_greater ho (isDefined_counted score)
  · rw [if_neg heq]
    have hQ : ∀ x, (Q o x ∨ (o = l ∧ x = counted score)) ↔ Q o x := fun x =>
      or_iff_left fun hx => heq hx.1
    simp only [hQ]
    exact ho

/-- What each element of a list adds, the list adds. -/
theorem Best.foldl {α : Type} {f : RelationScores → α → RelationScores}
    {E : α → Nat → Single → Prop}
    (hf : ∀ a r Q, Best r Q → Best (f r a) fun l x => Q l x ∨ E a l x) (h : Best r Q)
    (as : List α) : Best (as.foldl f r) fun l x => Q l x ∨ ∃ a ∈ as, E a l x := by
  induction as generalizing r Q with
  | nil => exact h.congr fun l x => by simp
  | cons a as ih =>
      refine (ih (hf a r Q h)).congr fun l x => ?_
      simp only [List.mem_cons, exists_eq_or_imp, or_assoc]

/-- The scores of one source are those of its pairs. -/
theorem best_addSource (h : Best r Q) (b : RelationBinding) (op : Operator) (targets : List Nat)
    (o : Nat) :
    Best (addSource s b op targets r o) fun l x => Q l x ∨
      ∃ source, s.entity? o = some source ∧ ∃ p ∈ scored s op source targets,
        l = (if b.reversed then p.1 else o) ∧ x = counted p.2 := by
  rw [addSource]
  cases hsource : s.entity? o with
  | none => exact h.congr fun l x => by simp
  | some source =>
      have hfold : Best ((scored s op source targets).foldl (fun r (p : Nat × Single) =>
          if b.reversed then r.record p.1 o p.2 else r.record o p.1 p.2) r) fun l x => Q l x ∨
            ∃ p ∈ scored s op source targets,
              l = (if b.reversed then p.1 else o) ∧ x = counted p.2 := by
        refine h.foldl (fun p r Q h => ?_) _
        cases b.reversed with
        | true => exact h.record p.1 o p.2
        | false => exact h.record o p.1 p.2
      exact hfold.congr fun l x => by simp

/-- What a binding adds to the scores, source by source and target by target. -/
def Adds (s : Snapshot) (left right : ScoredSet Single) (b : RelationBinding) (l : Nat)
    (x : Single) : Prop :=
  ∃ op, s.relations.get? b.key = some op ∧ ∃ o ∈ (sides s left right b).1,
    ∃ source, s.entity? o = some source ∧ ∃ p ∈ scored s op source (sides s left right b).2,
      l = (if b.reversed then p.1 else o) ∧ x = counted p.2

theorem best_addAll (h : Best r Q) (b : RelationBinding) :
    Best (addAll s left right r b) fun l x => Q l x ∨ Adds s left right b l x := by
  rw [addAll]
  unfold Adds
  cases hop : s.relations.get? b.key with
  | none => exact h.congr fun l x => by simp
  | some op =>
      have hfold := h.foldl (f := addSource s b op (sides s left right b).2)
        (fun o r Q h => best_addSource h b op _ o) (sides s left right b).1
      exact hfold.congr fun l x => by simp

/-- The scores of all bindings are the best of all that the bindings add. -/
theorem best_of_compute (h : compute s bindings left right = .ok r) :
    Best r fun l x => ∃ b ∈ bindings, Adds s left right b l x := by
  obtain ⟨-, rfl⟩ := (compute_eq_ok_iff r).1 h
  refine (best_empty.foldl (fun b r Q h => best_addAll h b) bindings).congr fun l x => ?_
  exact Iff.of_eq (false_or _)

theorem mem_ofType_iff (hs : s.Made) {set : ScoredSet Single} {t : String} {o : Nat} :
    o ∈ ofType s set t ↔ o ∈ set.members ∧ ∃ e, s.entity? o = some e ∧ e.entityType = t :=
  Executor.mem_ofType.trans (and_congr_right fun _ => Snapshot.mem_members_iff hs t o)

theorem mem_scored {op : Operator} {source : Entity Double} {targets : List Nat}
    {p : Nat × Single} :
    p ∈ scored s op source targets ↔ p.1 ∈ targets ∧ ∃ target, s.entity? p.1 = some target ∧
      (op.apply source).cosine? (op.space.embedding target) = some p.2 := by
  rw [scored, List.mem_filterMap]
  constructor
  · rintro ⟨o, ho, h⟩
    obtain ⟨target, htarget, h⟩ := Option.bind_eq_some_iff.1 h
    obtain ⟨c, hc, h⟩ := Option.bind_eq_some_iff.1 h
    cases h
    exact ⟨ho, target, htarget, hc⟩
  · rintro ⟨ho, target, htarget, hc⟩
    refine ⟨p.1, ho, Option.bind_eq_some_iff.2 ⟨target, htarget, ?_⟩⟩
    exact Option.bind_eq_some_iff.2 ⟨p.2, hc, rfl⟩

theorem mem_sources_iff (hs : s.Made) {b : RelationBinding} {o : Nat} :
    o ∈ (sides s left right b).1 ↔ o ∈ (if b.reversed then right else left).members ∧
      ∃ e, s.entity? o = some e ∧ e.entityType = b.sourceType := by
  obtain ⟨lt, rt, key, reversed⟩ := b
  cases reversed with
  | false => exact mem_ofType_iff hs
  | true => exact mem_ofType_iff hs

theorem mem_targets_iff (hs : s.Made) {b : RelationBinding} {o : Nat} :
    o ∈ (sides s left right b).2 ↔ o ∈ (if b.reversed then left else right).members ∧
      ∃ e, s.entity? o = some e ∧ e.entityType = b.targetType := by
  obtain ⟨lt, rt, key, reversed⟩ := b
  cases reversed with
  | false => exact mem_ofType_iff hs
  | true => exact mem_ofType_iff hs

/-- A source of the binding and a target, with their cosine. -/
structure Meets (s : Snapshot) (left right : ScoredSet Single) (b : RelationBinding) (o t : Nat)
    (e f : Entity Double) (c : Single) : Prop where
  mem_sources : o ∈ (if b.reversed then right else left).members
  source : s.entity? o = some e
  sourceType : e.entityType = b.sourceType
  mem_targets : t ∈ (if b.reversed then left else right).members
  target : s.entity? t = some f
  targetType : f.entityType = b.targetType
  cosine : (s.relations.get? b.key).bind (fun op =>
    (op.apply e).cosine? (op.space.embedding f)) = some c

theorem adds_iff_meets (hs : s.Made) {b : RelationBinding} {l : Nat} {x : Single} :
    Adds s left right b l x ↔ ∃ o t source target c, Meets s left right b o t source target c ∧
      l = (if b.reversed then t else o) ∧ x = counted c := by
  constructor
  · rintro ⟨op, hop, o, ho, source, hsource, p, hp, hl, hx⟩
    obtain ⟨hmem, source', hsource', htype⟩ := (mem_sources_iff hs).1 ho
    cases hsource.symm.trans hsource'
    obtain ⟨ht, target, htarget, hcosine⟩ := mem_scored.1 hp
    obtain ⟨hmem', target', htarget', htype'⟩ := (mem_targets_iff hs).1 ht
    cases htarget.symm.trans htarget'
    exact ⟨o, p.1, source, target, p.2, ⟨hmem, hsource, htype, hmem', htarget, htype',
      Option.bind_eq_some_iff.2 ⟨op, hop, hcosine⟩⟩, hl, hx⟩
  · rintro ⟨o, t, source, target, c, h, hl, hx⟩
    obtain ⟨op, hop, hcosine⟩ := Option.bind_eq_some_iff.1 h.cosine
    have ho := (mem_sources_iff hs).2 ⟨h.mem_sources, source, h.source, h.sourceType⟩
    have ht := (mem_targets_iff hs).2 ⟨h.mem_targets, target, h.target, h.targetType⟩
    have hp : (t, c) ∈ scored s op source (sides s left right b).2 :=
      mem_scored.2 ⟨ht, target, h.target, hcosine⟩
    exact ⟨op, hop, o, ho, source, h.source, (t, c), hp, hl, hx⟩

/-- What a binding adds are the scores of its pairs, whichever way it leads. -/
theorem adds_iff (hs : s.Made) {b : RelationBinding} {l : Nat} {x : Single} :
    Adds s left right b l x ↔ l ∈ left.members ∧ b.Scores s right l x := by
  rw [adds_iff_meets hs]
  obtain ⟨lt, rt, key, reversed⟩ := b
  cases reversed with
  | false =>
      constructor
      · rintro ⟨o, t, source, target, c, h, rfl, rfl⟩
        exact ⟨h.mem_sources, t, h.mem_targets, source, target, c, h.source, h.target,
          h.sourceType, h.targetType, h.cosine, counted_eq c⟩
      · rintro ⟨hl, r, hr, e, f, c, he, hf, hlt, hrt, hcosine, rfl⟩
        exact ⟨l, r, e, f, c, ⟨hl, he, hlt, hr, hf, hrt, hcosine⟩, rfl, (counted_eq c).symm⟩
  | true =>
      -- the sources are on the right
      constructor
      · rintro ⟨o, t, source, target, c, h, rfl, rfl⟩
        exact ⟨h.mem_targets, o, h.mem_sources, target, source, c, h.target, h.source,
          h.targetType, h.sourceType, h.cosine, counted_eq c⟩
      · rintro ⟨hl, r, hr, e, f, c, he, hf, hlt, hrt, hcosine, rfl⟩
        exact ⟨r, l, f, e, c, ⟨hr, hf, hrt, hl, he, hlt, hcosine⟩, rfl, (counted_eq c).symm⟩

/-- The table of all bindings, entity by entity. -/
theorem score?_of_compute (hs : s.Made) (h : compute s bindings left right = .ok r) (l : Nat) :
    (∀ best, r.left.score? l = some best →
      l ∈ left.members ∧ IsGreatest {x | s.Pairs bindings right l x} best) ∧
      (r.left.score? l = none → l ∈ left.members → ∀ x, ¬ s.Pairs bindings right l x) := by
  have hbest := best_of_compute h l
  have hiff : ∀ x, (∃ b ∈ bindings, Adds s left right b l x) ↔
      l ∈ left.members ∧ s.Pairs bindings right l x := by
    intro x
    simp only [adds_iff hs, Snapshot.Pairs]
    exact ⟨fun ⟨b, hb, hmem, hx⟩ => ⟨hmem, b, hb, hx⟩, fun ⟨hmem, b, hb, hx⟩ => ⟨b, hb, hmem, hx⟩⟩
  simp only [hiff] at hbest
  constructor
  · intro best hscore
    rw [hscore] at hbest
    have hmem : l ∈ left.members := hbest.1.1
    simp only [hmem, true_and] at hbest
    exact ⟨hmem, hbest⟩
  · intro hscore hmem x hx
    rw [hscore] at hbest
    exact hbest x ⟨hmem, hx⟩

/-! ## What nothing is predicted for -/

/-- What a relation of the snapshot predicts for an entity has defined components. -/
theorem isDefined_of_mem_apply (hs : s.Made) {key : RelationKey} {op : Operator}
    (hop : s.relations.get? key = some op) {o : Nat} {e : Entity Double}
    (he : s.entity? o = some e) : ∀ x ∈ op.apply e, x.isDefined = true := by
  have hmem : e ∈ s.entities.toList := Array.mem_toList_iff.2 (Array.mem_of_getElem? he)
  cases hs with
  | empty => cases hmem
  | build h =>
      have hconsistent := Snapshot.consistent_of_build h
      have hentity := (hconsistent.entities e hmem).1
      have hoperator := (hconsistent.operators key op hop).finite
      cases op with
      | offset v => exact isDefined_of_mem_add hentity.dense_finite hoperator
      | composition v => exact isDefined_of_mem_bind hentity.symbolic_finite hoperator

/-- A resolved binding is admitted unless its relation predicts nothing for some source. -/
theorem not_admits_iff (hs : s.Made) {b : RelationBinding} (hb : b.Resolved s) :
    ¬ Admits s left right b ↔ b.Unpredictable s left right := by
  obtain ⟨op, hop⟩ := Option.isSome_iff_exists.1 hb.known
  constructor
  · intro h
    have hsource : ¬ ∀ o ∈ (sides s left right b).1, Predicts s op o := fun hall =>
      h ⟨op, hop, hall⟩
    simp only [not_forall] at hsource
    obtain ⟨o, ho, hpredicts⟩ := hsource
    obtain ⟨hmem, e, he, htype⟩ := (mem_sources_iff hs).1 ho
    refine ⟨o, hmem, e, op, he, htype.trans hb.source.symm, hop, ?_⟩
    refine (not_norm_pos_iff (isDefined_of_mem_apply hs hop he)).1 fun hpos => hpredicts ?_
    intro e' he'
    cases he.symm.trans he'
    exact hpos
  · rintro ⟨o, hmem, e, op', he, htype, hop', hzero⟩ ⟨op'', hop'', hall⟩
    cases hop'.symm.trans hop''
    have ho := (mem_sources_iff hs).2 ⟨hmem, e, he, htype.trans hb.source⟩
    exact (not_norm_pos_iff (isDefined_of_mem_apply hs hop' he)).2 hzero (hall o ho e he)

end RelationScores

/-! ## Arrows -/

/-- The set holds the entities on the left whose best pair has the given score at least, with the
lesser of their own score and that of the pair. -/
structure Snapshot.Relates (s : Snapshot) (bindings : List RelationBinding) (minScore : Single)
    (left right set : ScoredSet Single) : Prop where
  mem_iff : ∀ l, l ∈ set.members ↔ l ∈ left.members ∧
    ∃ best, IsGreatest {x | s.Pairs bindings right l x} best ∧ minScore ≤ best
  score : ∀ l v, set.score? l = some v → ∃ own best, left.score? l = some own ∧
    IsGreatest {x | s.Pairs bindings right l x} best ∧ v = Quantity.lesser own best

namespace Snapshot.Relates

variable {minScore : Single} {set set' : ScoredSet Single}

theorem members_eq (h : s.Relates bindings minScore left right set)
    (h' : s.Relates bindings minScore left right set') (l : Nat) :
    l ∈ set.members ↔ l ∈ set'.members :=
  (h.mem_iff l).trans (h'.mem_iff l).symm

theorem isEmpty_eq (h : s.Relates bindings minScore left right set)
    (h' : s.Relates bindings minScore left right set') : set.isEmpty = set'.isEmpty := by
  rw [Bool.eq_iff_iff, set.isEmpty_iff, set'.isEmpty_iff, List.eq_nil_iff_forall_not_mem,
    List.eq_nil_iff_forall_not_mem]
  simp only [h.members_eq h']

/-- Pairs tell the set, up to the sign of zeros. -/
theorem same (h : s.Relates bindings minScore left right set)
    (h' : s.Relates bindings minScore left right set') : set.same set' = true := by
  refine ScoredSet.same_of (h.members_eq h') fun o v v' hscore hscore' => ?_
  obtain ⟨own, best, hown, hbest, hv⟩ := h.score _ _ hscore
  obtain ⟨own', best', hown', hbest', hv'⟩ := h'.score _ _ hscore'
  cases hown.symm.trans hown'
  rw [hv, hv', Single.compare?_of_le]
  · exact Single.lesser_mono (hbest'.2 hbest.1)
  · exact Single.lesser_mono (hbest.2 hbest'.1)

/-- The order of the bindings does not matter. -/
theorem perm {bindings' : List RelationBinding}
    (h : s.Relates bindings minScore left right set) (hperm : bindings.Perm bindings') :
    s.Relates bindings' minScore left right set := by
  have hpairs : s.Pairs bindings' right = s.Pairs bindings right := by
    funext l x
    simp only [Pairs, hperm.mem_iff]
  exact ⟨by simpa only [hpairs] using h.mem_iff, by simpa only [hpairs] using h.score⟩

end Snapshot.Relates

namespace Executor

open RelationScores

variable {x : Executor} {minScore : Single} {res res' : StepResult}

theorem notes_arrow (minScore : Single) (left right set : ScoredSet Single) :
    (arrow minScore left right set).notes =
      if set.isEmpty && !left.isEmpty && !right.isEmpty then
        ["no entity relates to the right-hand side with score >= " ++ Single.text minScore]
      else [] := by
  rw [arrow]
  split <;> rfl

theorem eq_arrow_of_relate (h : x.relate bindings minScore left right = .ok res) :
    res = arrow minScore left right res.set := by
  rw [relate_eq] at h
  obtain ⟨r, -, rfl⟩ := ok_of_map h
  rw [set_arrow]

theorem relates_of_relate (hs : x.snapshot.Made)
    (h : x.relate bindings minScore left right = .ok res) :
    x.snapshot.Relates bindings minScore left right res.set := by
  rw [relate_eq] at h
  obtain ⟨r, hr, rfl⟩ := ok_of_map h
  rw [set_arrow]
  have htable := score?_of_compute hs hr
  constructor
  · intro l
    rw [mem_related]
    constructor
    · rintro ⟨best, hbest, hle⟩
      obtain ⟨hmem, hgreatest⟩ := (htable l).1 best hbest
      exact ⟨hmem, best, hgreatest, hle⟩
    · rintro ⟨hmem, best, hbest, hle⟩
      cases hscore : r.left.score? l with
      | none => exact absurd hbest.1 ((htable l).2 hscore hmem best)
      | some best' =>
          exact ⟨best', rfl, Single.le_trans hle (((htable l).1 best' hscore).2.2 hbest.1)⟩
  · intro l v hv
    rw [score?_related] at hv
    obtain ⟨best, hbest, hv⟩ := Option.bind_eq_some_iff.1 hv
    obtain ⟨hmem, hgreatest⟩ := (htable l).1 best hbest
    obtain ⟨own, hown⟩ := (left.mem_members l).1 hmem
    split at hv
    · cases hv
      rw [hown]
      exact ⟨own, best, rfl, hgreatest, rfl⟩
    · cases hv

theorem relate_error_iff (hs : x.snapshot.Made) (hb : ∀ b ∈ bindings, b.Resolved x.snapshot) :
    (∃ e, x.relate bindings minScore left right = .error e) ↔
      ∃ b ∈ bindings, b.Unpredictable x.snapshot left right := by
  have hok : ∀ r, RelationScores.compute x.snapshot bindings left right = .ok r ↔ _ :=
    compute_eq_ok_iff
  rw [relate_eq]
  constructor
  · rintro ⟨e, he⟩
    by_contra hnone
    have hadmits : ∀ b ∈ bindings, Admits x.snapshot left right b := by
      intro b hmem
      by_contra hb'
      exact hnone ⟨b, hmem, (not_admits_iff hs (hb b hmem)).1 hb'⟩
    rw [(hok _).2 ⟨hadmits, rfl⟩] at he
    cases he
  · rintro ⟨b, hmem, hzero⟩
    cases hcompute : RelationScores.compute x.snapshot bindings left right with
    | error e => exact ⟨e, rfl⟩
    | ok r =>
        exact absurd (((hok r).1 hcompute).1 b hmem) ((not_admits_iff hs (hb b hmem)).2 hzero)

theorem isNumerical_of_relate (hb : ∀ b ∈ bindings, b.Resolved x.snapshot) {e : ExecutionError}
    (h : x.relate bindings minScore left right = .error e) : e.isNumerical = true := by
  have hends : EndsNumerically _ (RelationScores.compute x.snapshot bindings left right) :=
    ends_compute fun b hmem => (hb b hmem).known
  rw [relate_eq] at h
  cases hcompute : RelationScores.compute x.snapshot bindings left right with
  | error e' =>
      rw [hcompute] at h hends
      cases h
      exact hends
  | ok r =>
      rw [hcompute] at h
      cases h

theorem relate_right (x : Executor) (bindings : List RelationBinding) (minScore : Single)
    (left : ScoredSet Single) {right right' : ScoredSet Single}
    (h : right'.members = right.members) :
    x.relate bindings minScore left right' = x.relate bindings minScore left right := by
  have htype : ofType x.snapshot right' = ofType x.snapshot right := by
    funext t
    rw [ofType, ofType, h]
  have hadd : addBinding x.snapshot left right' = addBinding x.snapshot left right := by
    funext r b
    rw [addBinding, addBinding, htype]
  have hempty : right'.isEmpty = right.isEmpty := by
    rw [Bool.eq_iff_iff, right'.isEmpty_iff, right.isEmpty_iff, h]
  rw [relate, relate, RelationScores.compute, RelationScores.compute, hadd, hempty]

/-- **Arrows.** An arrow fails, for want of a number, exactly if some relation predicts a vector of
norm zero for one of the entities that it predicts from.  Otherwise the entities on the left relate
by the best of their pairs, whatever the order of the bindings (zeros of either sign are equal) and
the scores on the right. -/
theorem relate_best (hs : x.snapshot.Made) (hb : ∀ b ∈ bindings, b.Resolved x.snapshot)
    (minScore : Single) (left right : ScoredSet Single) :
    ((∃ e, x.relate bindings minScore left right = .error e) ↔
        ∃ b ∈ bindings, b.Unpredictable x.snapshot left right) ∧
      (∀ e, x.relate bindings minScore left right = .error e → e.isNumerical = true) ∧
      (∀ res, x.relate bindings minScore left right = .ok res →
        x.snapshot.Relates bindings minScore left right res.set) ∧
      (∀ bindings', bindings.Perm bindings' →
        ((∃ e, x.relate bindings' minScore left right = .error e) ↔
          ∃ e, x.relate bindings minScore left right = .error e) ∧
        ∀ res res', x.relate bindings minScore left right = .ok res →
          x.relate bindings' minScore left right = .ok res' →
            res.set.same res'.set = true ∧ res.notes = res'.notes) ∧
      ∀ right', right'.members = right.members →
        x.relate bindings minScore left right' = x.relate bindings minScore left right := by
  refine ⟨relate_error_iff hs hb, fun e => isNumerical_of_relate hb,
    fun res => relates_of_relate hs, fun bindings' hperm => ⟨?_, fun res res' hres hres' => ?_⟩,
    fun right' h => relate_right _ _ _ _ h⟩
  · have hb' : ∀ b ∈ bindings', b.Resolved x.snapshot := fun b hmem => hb b (hperm.mem_iff.2 hmem)
    rw [relate_error_iff hs hb, relate_error_iff hs hb']
    simp only [hperm.mem_iff]
  · have hrelates := relates_of_relate hs hres
    have hrelates' := (relates_of_relate hs hres').perm hperm.symm
    refine ⟨hrelates.same hrelates', ?_⟩
    rw [eq_arrow_of_relate hres, eq_arrow_of_relate hres', notes_arrow, notes_arrow,
      hrelates.isEmpty_eq hrelates']

/-- A snapshot of two features and two modules, where features need the modules next to them. -/
def neededModules : Snapshot :=
  (Snapshot.build
    [⟨"feature", "cache", "", [1, 0], [], .empty⟩, ⟨"feature", "graph", "", [0, 1], [], .empty⟩,
      ⟨"module", "store", "", [1, 0], [], .empty⟩, ⟨"module", "shell", "", [0.6, 0.8], [], .empty⟩]
    [⟨⟨"feature", "needs", "module"⟩, .offset [0, 0]⟩] {} 1 ⟨0, 0⟩).toOption.getD .empty

theorem made_neededModules : neededModules.Made := Snapshot.made_getD ..

/-- Features relate to the modules that they need, and modules to the features that need them. -/
theorem relate_best_modules :
    let x : Executor := ⟨neededModules, {}, NameMatch.byEdits 2, offsetAnalogy⟩
    let needs : RelationKey := ⟨"feature", "needs", "module"⟩
    let all : ScoredSet Single := .uniform [0, 1, 2, 3] 1
    let bindings := [⟨"feature", "module", needs, false⟩, ⟨"module", "feature", needs, true⟩]
    x.snapshot.Made ∧ x.snapshot.bindings none .empty .empty = .ok bindings ∧
      ∃ res, x.relate bindings 0.9 all all = .ok res ∧
        x.snapshot.Relates bindings 0.9 all all res.set ∧ res.set.members = [0, 2] := by
  intro x needs all bindings
  have hmade : x.snapshot.Made := by
    dsimp only [x]
    exact made_neededModules
  have hbindings : x.snapshot.bindings none .empty .empty = .ok bindings :=
    ok_of_toOption (by decide +kernel)
  have hmembers : (x.relate bindings 0.9 all all).toOption.map (·.set.members) = some [0, 2] := by
    decide +kernel
  obtain ⟨-, -, hrelates, -⟩ :=
    relate_best hmade (RelationBinding.resolved_of_bindings hbindings) 0.9 all all
  cases hrelate : x.relate bindings 0.9 all all with
  | error e =>
      rw [hrelate] at hmembers
      cases hmembers
  | ok res =>
      rw [hrelate] at hmembers
      exact ⟨hmade, hbindings, res, rfl, hrelates res hrelate, Option.some.inj hmembers⟩

example : (neededModules.ordinals []).isEmpty = false := by
  decide +kernel

end Executor

end VectorQuery
