/-
# Evaluating a query elsewhere

The types seen change what a query means only where some part of it draws on them: a comparison
with nothing to filter, a negation, or an optimization.

A query leaves the types that it names behind.  It means the same where more types have been seen
before it, if these have been seen wherever it draws on the types seen (`unaffected_compute`).  In
particular, the meaning of a query that does not draw on them does not depend on where it stands
(`compute_eq_of_not_drawsOnSeen`), and once a query has been evaluated, evaluating it again later
yields the same meaning, as long as no more types were seen in between if it draws on them
(`compute_again`).
-/
import VectorQuery.Proofs.Failure
import VectorQuery.Proofs.Meaning.Naming
import VectorQuery.Proofs.Meaning.Sharing

namespace VectorQuery

open Evaluation
open Lowering (comparison?)

/-! ## Computations after more types -/

/-- After the types `S`, the computation leaves the types `S'` and yields a value in `P`; after
`T` as well, it yields the same and leaves `T` as well. -/
def Unaffected {α : Type} (T S S' : TypeSet) (P : α → Prop) (y : Direct α) : Prop :=
  ∀ a U, y S = .ok (a, U) → U = S' ∧ P a ∧ y (T.union S) = .ok (a, T.union S')

namespace Unaffected

variable {α β : Type} {T S S' S'' : TypeSet} {P P' : α → Prop} {Q : β → Prop} {y : Direct α}
  {f : α → Direct β} {relate : Relating}

theorem mono (h : Unaffected T S S' P y) (hP : ∀ a, P a → P' a) : Unaffected T S S' P' y := by
  intro a U hrun
  obtain ⟨hU, ha, hafter⟩ := h a U hrun
  exact ⟨hU, hP a ha, hafter⟩

theorem pure {a : α} (h : P a) : Unaffected T S S P (pure a) := by
  rintro _ _ ⟨⟩
  exact ⟨rfl, h, rfl⟩

theorem bind (hy : Unaffected T S S' P y) (hf : ∀ a, P a → Unaffected T S' S'' Q (f a)) :
    Unaffected T S S'' Q (y >>= f) := by
  intro b U hrun
  obtain ⟨a, S₁, hrun₁, hrun₂⟩ := run_of_bind hrun
  obtain ⟨rfl, ha, hafter₁⟩ := hy a S₁ hrun₁
  obtain ⟨hU, hb, hafter₂⟩ := hf a ha b U hrun₂
  exact ⟨hU, hb, (bind_run hafter₁).trans hafter₂⟩

theorem fail (e : QueryError) : Unaffected T S S' P (liftM (.error e : Except QueryError α)) :=
  nofun

/-- A computation after one that may fail. -/
theorem after (e : Except QueryError α) (hf : ∀ a, e = .ok a → Unaffected T S S' Q (f a)) :
    Unaffected T S S' Q (liftM e >>= f) := by
  intro b U hrun
  obtain ⟨a, ha, hrest⟩ := run_of_lift_bind hrun
  obtain ⟨hU, hb, hafter⟩ := hf a ha b U hrest
  exact ⟨hU, hb, (bind_run (lift_run ha)).trans hafter⟩

theorem see (types : TypeSet) :
    Unaffected T S (S.union types) (fun _ => True) ((Strategy.direct relate).see types) := by
  rintro _ _ ⟨⟩
  refine ⟨rfl, trivial, ?_⟩
  rw [← TypeSet.union_assoc]
  rfl

/-- Reading the types seen is unaffected by types that have been seen anyway. -/
theorem seen (h : T.Within S) :
    Unaffected T S S (fun types => types = S) (Strategy.direct relate).seen := by
  rintro _ _ ⟨⟩
  refine ⟨rfl, rfl, ?_⟩
  rw [TypeSet.union_comm, h.union_eq]
  rfl

/-! ### Single shapes -/

section

variable {x : Executor} {config : EngineConfig} {S₁ S₂ S₃ U : TypeSet} {P₁ P₂ P₃ : Meaning → Prop}

theorem everything (h : T.Within S) :
    Unaffected T S S (fun a => a.types.Within S) (everything x (.direct relate)) :=
  (seen h).bind fun _ htypes => pure (htypes ▸ .refl S)

theorem lookup (t name : String) (fuzzy : Bool) :
    Unaffected T S (S.union (.single t)) (fun a => a.types.Within (S.union (.single t)))
      (lookup x (.direct relate) t name fuzzy) :=
  after _ fun _ _ => (see _).bind fun _ _ => pure (TypeSet.within_union_right _ _)

theorem comparison (h : T.Within S) (c : Comparison Double) :
    Unaffected T S S (fun a => a.types.Within S) (comparison x (.direct relate) c) :=
  after _ fun _ _ => (everything h).bind fun _ hall => pure hall

theorem optimization (h : T.Within S) (direction : Direction) (objective : Objective Double)
    (constraints : List (Comparison Double)) : Unaffected T S S (fun a => a.types.Within S)
      (optimization x (.direct relate) direction objective constraints) :=
  after _ fun _ _ => after _ fun _ _ => (everything h).bind fun _ hall => pure hall

theorem negation {operand : Direct Meaning} (h : Unaffected T S S₁ P₁ operand)
    (hT : T.Within S₁) :
    Unaffected T S S₁ (fun a => a.types.Within S₁) (negation x (.direct relate) operand) :=
  h.bind fun _ _ => (everything hT).bind fun _ hall => pure hall

theorem arrow (name : Option String) {l r : Direct Meaning}
    (hl : Unaffected T S S₁ (fun a => a.types.Within U) l) (hr : Unaffected T S₁ S₂ P₂ r) :
    Unaffected T S S₂ (fun a => a.types.Within U) (arrow x config (.direct relate) name l r) :=
  hl.bind fun _ hleft => hr.bind fun _ _ => after _ fun _ _ => after _ fun _ _ => pure hleft

theorem similarity {distance : Option Double} {topK : Option Nat} {targetType : Option String}
    {target : Direct Meaning} (h : Unaffected T S S₁ P₁ target)
    (htypes : ∀ a, P₁ a → Unaffected T S₁ S₂ (fun types => types.Within U)
      (searchedTypes x (.direct relate) a targetType)) :
    Unaffected T S S₂ (fun a => a.types.Within U)
      (similarity x config (.direct relate) distance topK targetType target) :=
  h.bind fun a ha => (htypes a ha).bind fun _ hsearched =>
    after _ fun _ _ => after _ fun _ _ => pure hsearched

theorem analogy {targetType : Option String} {a b c : Direct Meaning} (ha : Unaffected T S S₁ P₁ a)
    (hb : Unaffected T S₁ S₂ P₂ b) (hc : Unaffected T S₂ S₃ P₃ c)
    (htype : ∀ (b : Meaning) t, P₂ b → analogyType x.snapshot b.types targetType = .ok t →
      S₃.union (.single t) = S') :
    Unaffected T S S' (fun a => a.types.Within S')
      (analogy x config (.direct relate) targetType a b c) := by
  refine ha.bind fun _ _ => hb.bind fun b hb => hc.bind fun _ _ => after _ fun t ht => ?_
  obtain rfl := htype b t hb (ok_of_mapError ht)
  exact (see (.single t)).bind fun _ _ => after _ fun _ _ => pure (TypeSet.within_union_right _ _)

/-! ### Operands -/

/-- A conjunction draws on the types seen only if it has no operands but conditions. -/
theorem conjunction (conditions : List (Comparison Double)) {operands : Direct (List Meaning)}
    (h : Unaffected T S S₁ (fun as => (as = [] → T.Within S₁) ∧ ∀ a ∈ as, a.types.Within S₁)
      operands) :
    Unaffected T S S₁ (fun a => a.types.Within S₁)
      (conjunction x (.direct relate) conditions operands) := by
  refine after _ fun _ _ => h.bind fun as has => ?_
  cases as with
  | nil =>
      refine (everything (has.1 rfl)).bind fun a ha => pure ?_
      rwa [Meaning.types_filterAll]
  | cons a as =>
      refine pure ?_
      rw [Meaning.types_filterAll]
      exact Meaning.within_foldl (fun _ _ => rfl) TypeSet.mem_of_mem_both has.2

theorem disjunction {operands : Direct (List Meaning)}
    (h : Unaffected T S S₁ (fun as => ∀ a ∈ as, a.types.Within S₁) operands) :
    Unaffected T S S₁ (fun a => a.types.Within S₁) (disjunction operands) := by
  refine h.bind fun as has => ?_
  cases as with
  | nil => exact fail _
  | cons a as =>
      exact pure (Meaning.within_foldl (fun _ _ => rfl) TypeSet.mem_of_mem_either has)

end

end Unaffected

/-! ## All queries -/

section

variable (x : Executor) (config : EngineConfig) (relate : Relating)

/-- The evaluation of a query from the types seen before it. -/
abbrev computeDirect (q : Query) : Direct Meaning := compute x config (.direct relate) q

open Query

theorem seen_of_analogyType {s : Snapshot} {second : TypeSet} {targetType : Option String}
    (a b c : Query) {S : TypeSet} {t : String}
    (hsecond : second.Within ((S.union a.typesNamed).union b.typesNamed))
    (ht : analogyType s second targetType = .ok t) :
    (((S.union a.typesNamed).union b.typesNamed).union c.typesNamed).union (.single t) =
      S.union (Query.analogy a b c targetType).typesNamed := by
  rcases analogyType_cases ht with ⟨rfl, -⟩ | ⟨rfl, rfl⟩
  · exact seen_typedAnalogy a b c t
  · exact seen_analogy a b c (hsecond t (TypeSet.mem_single.2 rfl))

mutual

/-- A query leaves the types that it names, and means the same where more types have been seen, if
these have been seen wherever it draws on the types seen. -/
theorem unaffected_compute {T : TypeSet} : ∀ (q : Query) (S : TypeSet),
    (∀ seen ∈ q.draws S, T.Within seen) →
      Unaffected T S (S.union q.typesNamed) (fun a => a.types.Within (S.union q.typesNamed))
        (computeDirect x config relate q)
  | .lookup t name fuzzy, S, _ => by
      rw [computeDirect, compute, ← seen_lookup]
      exact .lookup t name fuzzy
  | .relation l name r, S, h => by
      rw [draws, List.forall_mem_append] at h
      have hl := unaffected_compute l S h.1
      have hr := unaffected_compute r _ h.2
      rw [computeDirect, compute, ← seen_relation]
      exact (Unaffected.arrow name hl hr).mono fun _ ha =>
        ha.trans (TypeSet.within_union_left _ _)
  | .logical .and qs, S, h => by
      rw [draws, List.forall_mem_append] at h
      have hqs := unaffected_computeOthers qs S h.1
      rw [computeDirect, compute]
      refine .conjunction _ (hqs.mono fun as has => ⟨fun hnil => ?_, has.2⟩)
      -- all operands are conditions, so the conjunction itself draws on the types seen
      have hseen : T.Within S := h.2 S (by simp [has.1 hnil])
      exact hseen.trans (TypeSet.within_union_left _ _)
  | .logical .or qs, S, h => by
      rw [draws] at h
      rw [computeDirect, compute]
      exact .disjunction (unaffected_computeAll qs S h)
  | .logical .not [], _, _ => by
      rw [computeDirect, compute]
      · exact .fail _
      · simp
  | .logical .not [q], S, h => by
      rw [draws, drawsOfAll, drawsOfAll, List.append_nil, List.forall_mem_append,
        List.forall_mem_singleton] at h
      have hq := unaffected_compute q S h.1
      rw [seen_negation] at hq
      rw [computeDirect, compute]
      exact .negation hq h.2
  | .logical .not (p :: q :: qs), _, _ => by
      rw [computeDirect, compute]
      · exact .fail _
      · simp
  | .comparison c, S, h => by
      rw [draws, List.forall_mem_singleton] at h
      rw [computeDirect, compute, ← seen_comparison rfl]
      exact .comparison h c
  | .similar t distance topK targetType, S, h => by
      rw [draws] at h
      have ht := unaffected_compute t S h
      rw [computeDirect, compute]
      cases targetType with
      | none =>
          rw [← seen_search]
          exact .similarity ht fun _ ha => .pure ha
      | some t =>
          rw [← seen_typedSearch]
          exact .similarity ht fun _ _ => .after _ fun _ _ => (Unaffected.see _).bind fun _ _ =>
            .pure (TypeSet.within_union_right _ _)
  | .analogy a b c targetType, S, h => by
      rw [draws, List.forall_mem_append, List.forall_mem_append] at h
      have ha := unaffected_compute a S h.1.1
      have hb := unaffected_compute b _ h.1.2
      have hc := unaffected_compute c _ h.2
      rw [computeDirect, compute]
      exact .analogy ha hb hc fun _ _ hsecond ht => seen_of_analogyType a b c hsecond ht
  | .optimize direction objective constraints, S, h => by
      rw [draws, List.forall_mem_singleton] at h
      rw [computeDirect, compute, ← seen_optimize]
      exact .optimization h direction objective constraints

theorem unaffected_computeOthers {T : TypeSet} : ∀ (qs : List Query) (S : TypeSet),
    (∀ seen ∈ drawsOfOthers S qs, T.Within seen) →
      Unaffected T S (S.union (logical .and qs).typesNamed)
        (fun as => (as = [] → qs.all (fun q => (comparison? q).isSome) = true) ∧
          ∀ a ∈ as, a.types.Within (S.union (logical .and qs).typesNamed))
        (computeOthers x config (.direct relate) qs)
  | [], S, _ => by
      rw [computeOthers, ← seen_nil]
      exact .pure ⟨fun _ => rfl, nofun⟩
  | q :: qs, S, h => by
      rw [computeOthers, ← seen_cons]
      rw [drawsOfOthers] at h
      split at h
      · rename_i hq
        have hqs := unaffected_computeOthers qs S h
        rw [if_pos hq, ← seen_comparison hq]
        refine hqs.mono fun as has => ⟨fun hnil => ?_, has.2⟩
        rw [List.all_cons, hq, has.1 hnil, Bool.and_self]
      · rename_i hq
        rw [List.forall_mem_append] at h
        have hq' := unaffected_compute q S h.1
        have hqs := unaffected_computeOthers qs _ h.2
        rw [if_neg hq]
        exact hq'.bind fun a ha => hqs.bind fun as has => .pure ⟨nofun, List.forall_mem_cons.2
          ⟨ha.trans (TypeSet.within_union_left _ _), has.2⟩⟩

theorem unaffected_computeAll {T : TypeSet} : ∀ (qs : List Query) (S : TypeSet),
    (∀ seen ∈ drawsOfAll S qs, T.Within seen) →
      Unaffected T S (S.union (logical .or qs).typesNamed)
        (fun as => ∀ a ∈ as, a.types.Within (S.union (logical .or qs).typesNamed))
        (computeAll x config (.direct relate) qs)
  | [], S, _ => by
      rw [computeAll, ← seen_nil]
      exact .pure nofun
  | q :: qs, S, h => by
      rw [drawsOfAll, List.forall_mem_append] at h
      have hq := unaffected_compute q S h.1
      have hqs := unaffected_computeAll qs _ h.2
      rw [computeAll, ← seen_cons]
      exact hq.bind fun a ha => hqs.bind fun as has => .pure (List.forall_mem_cons.2
        ⟨ha.trans (TypeSet.within_union_left _ _), has⟩)

end

section

variable {x config relate} {q : Query} {S S' T T' : TypeSet} {a b : Meaning}

theorem unaffected_of_not_drawsOnSeen (hq : q.drawsOnSeen = false) (T S : TypeSet) :
    Unaffected T S (S.union q.typesNamed) (fun a => a.types.Within (S.union q.typesNamed))
      (computeDirect x config relate q) := by
  refine unaffected_compute x config relate q S fun seen hseen => ?_
  rw [draws_eq_nil q S hq] at hseen
  cases hseen

/-- A query leaves the types that it names, besides those seen before it. -/
theorem seen_compute (h : computeDirect x config relate q S = .ok (a, S')) :
    S' = S.union q.typesNamed :=
  (unaffected_compute x config relate q S (fun _ _ => TypeSet.empty_within _) a S' h).1

/-- Evaluating a query again later changes nothing, if it does not draw on the types seen or none
were added. -/
theorem compute_again (h : computeDirect x config relate q S = .ok (a, S')) (hT : S'.Within T)
    (hdraws : q.drawsOnSeen = true → T = S) : computeDirect x config relate q T = .ok (a, T) := by
  have hS : S.Within S' := seen_compute h ▸ TypeSet.within_union_left _ _
  cases hq : q.drawsOnSeen with
  | true =>
      obtain rfl := hdraws hq
      rwa [hT.antisymm hS] at h
  | false =>
      obtain ⟨rfl, -, hafter⟩ := unaffected_of_not_drawsOnSeen hq T S a S' h
      rwa [(hS.trans hT).union_eq, hT.union_eq] at hafter

/-- What does not draw on the types seen means the same wherever it stands. -/
theorem compute_eq_of_not_drawsOnSeen (hq : q.drawsOnSeen = false)
    (ha : computeDirect x config relate q S = .ok (a, S'))
    (hb : computeDirect x config relate q T = .ok (b, T')) : a = b := by
  -- both are what comes out where the types before both have been seen
  obtain ⟨-, -, ha⟩ := unaffected_of_not_drawsOnSeen hq T S a S' ha
  obtain ⟨-, -, hb⟩ := unaffected_of_not_drawsOnSeen hq S T b T' hb
  rw [TypeSet.union_comm] at hb
  exact congrArg Prod.fst (Except.ok.inj (ha.symm.trans hb))

example : (Query.similar (.lookup "feature" "cache" false) none none none).drawsOnSeen = false := by
  decide +kernel

/-- A query means the same after types as alone, if they have been seen wherever it draws on the
types seen. -/
theorem compute_eq_of_drawsAfter (hq : q.DrawsAfter T)
    (ha : computeDirect x config relate q .empty = .ok (a, S'))
    (hb : computeDirect x config relate q T = .ok (b, T')) : a = b := by
  obtain ⟨-, -, ha⟩ := unaffected_compute x config relate q .empty hq a S' ha
  rw [(TypeSet.empty_within T).union_eq] at ha
  exact congrArg Prod.fst (Except.ok.inj (ha.symm.trans hb))

end

end

end VectorQuery
