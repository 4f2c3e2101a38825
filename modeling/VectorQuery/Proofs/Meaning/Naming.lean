/-
# What a query names and what it draws on

A lookup, a search for a type and an analogy name types that are seen from then on; the types that a
query leaves behind are those seen before it and those that its parts name (`Query.typesNamed`).

A comparison with nothing to filter, a negation and an optimization draw on the types seen where
they stand.  A query without such a part means the same everywhere (`Query.drawsOnSeen`); of
another, `Query.draws` lists the types seen at each such part, since the parts before it have named
types too.
-/
import VectorQuery.Proofs.Meaning.Basic
import VectorQuery.Proofs.Plan.TypeSet
import VectorQuery.Proofs.Query.Subqueries

namespace VectorQuery

open Lowering (comparison?)

namespace Query

variable {q : Query} {S T : TypeSet} {n : String}

/-! ## Types named -/

/-- The type that the query itself names. -/
def typeNamed? : Query → Option String
  | .lookup t .. => some t
  | .similar _ _ _ targetType => targetType
  | .analogy _ _ _ targetType => targetType
  | _ => none

/-- The types that the parts of the query name. -/
def typesNamed (q : Query) : TypeSet := .ofList (q.subqueries.filterMap typeNamed?)

theorem mem_typesNamed : n ∈ q.typesNamed.names ↔ ∃ p ∈ q.subqueries, p.typeNamed? = some n := by
  have hlist : ∀ l : List String, n ∈ (TypeSet.ofList l).names ↔ n ∈ l := by
    intro l
    rw [TypeSet.mem_names, TypeSet.ofList, OrderedMap.get?_ofList_map l (fun _ => ())]
    simp
  rw [typesNamed, hlist, List.mem_filterMap]

/-- What a query names is named by itself or directly below. -/
theorem mem_typesNamed_iff (q : Query) : n ∈ q.typesNamed.names ↔
    q.typeNamed? = some n ∨ ∃ c ∈ q.children, n ∈ c.typesNamed.names := by
  simp only [mem_typesNamed]
  constructor
  · rintro ⟨p, hp, hn⟩
    rcases mem_subqueries_iff.1 hp with rfl | ⟨c, hc, hp⟩
    · exact .inl hn
    · exact .inr ⟨c, hc, p, hp, hn⟩
  · rintro (hn | ⟨c, hc, p, hp, hn⟩)
    · exact ⟨q, q.mem_subqueries_self, hn⟩
    · exact ⟨p, subqueries_subset hc hp, hn⟩

theorem typesNamed_within_of_child {c : Query} (hc : c ∈ q.children) :
    c.typesNamed.Within q.typesNamed :=
  fun _ hn => (mem_typesNamed_iff q).2 (.inr ⟨c, hc, hn⟩)

/-! ### Types seen after a query -/

/-- What is seen after a query are the types seen before, those that it names itself and those named
directly below. -/
theorem eq_union_typesNamed (q : Query) (h : ∀ n, n ∈ T.names ↔ n ∈ S.names ∨
    q.typeNamed? = some n ∨ ∃ c ∈ q.children, n ∈ c.typesNamed.names) :
    T = S.union q.typesNamed :=
  TypeSet.ext_names fun n => by rw [h, TypeSet.mem_union, mem_typesNamed_iff q]

theorem seen_lookup (t name : String) (fuzzy : Bool) :
    S.union (.single t) = S.union (lookup t name fuzzy).typesNamed :=
  eq_union_typesNamed _ fun n => by simp [typeNamed?, children, eq_comm]

theorem seen_relation (l r : Query) (name : Option String) :
    (S.union l.typesNamed).union r.typesNamed = S.union (relation l name r).typesNamed :=
  eq_union_typesNamed _ fun n => by simp [typeNamed?, children, or_assoc]

theorem seen_nil (op : Connective) : S = S.union (logical op []).typesNamed :=
  eq_union_typesNamed _ fun n => by simp [typeNamed?, children]

theorem seen_cons (op : Connective) (q : Query) (qs : List Query) :
    (S.union q.typesNamed).union (logical op qs).typesNamed =
      S.union (logical op (q :: qs)).typesNamed := by
  refine eq_union_typesNamed _ fun n => ?_
  rw [TypeSet.mem_union, TypeSet.mem_union, mem_typesNamed_iff (.logical op qs)]
  simp [typeNamed?, children, or_assoc]

theorem seen_comparison (h : (comparison? q).isSome = true) : S = S.union q.typesNamed := by
  cases q with
  | comparison c => exact eq_union_typesNamed _ fun n => by simp [typeNamed?, children]
  | _ => cases h

theorem seen_optimize (direction : Direction) (objective : Objective Double)
    (constraints : List (Comparison Double)) :
    S = S.union (optimize direction objective constraints).typesNamed :=
  eq_union_typesNamed _ fun n => by simp [typeNamed?, children]

theorem seen_negation (q : Query) :
    S.union q.typesNamed = S.union (logical .not [q]).typesNamed :=
  eq_union_typesNamed _ fun n => by simp [typeNamed?, children]

theorem seen_search (target : Query) (distance : Option Double) (topK : Option Nat) :
    S.union target.typesNamed = S.union (similar target distance topK none).typesNamed :=
  eq_union_typesNamed _ fun n => by simp [typeNamed?, children]

theorem seen_typedSearch (target : Query) (distance : Option Double) (topK : Option Nat)
    (t : String) : (S.union target.typesNamed).union (.single t) =
      S.union (similar target distance topK (some t)).typesNamed := by
  refine eq_union_typesNamed _ fun n => ?_
  simp [typeNamed?, children]
  tauto

theorem seen_typedAnalogy (a b c : Query) (t : String) :
    (((S.union a.typesNamed).union b.typesNamed).union c.typesNamed).union (.single t) =
      S.union (analogy a b c (some t)).typesNamed := by
  refine eq_union_typesNamed _ fun n => ?_
  simp [typeNamed?, children]
  tauto

/-- Seeing a type once more changes nothing. -/
theorem seen_analogy (a b c : Query) {t : String}
    (ht : t ∈ ((S.union a.typesNamed).union b.typesNamed).names) :
    (((S.union a.typesNamed).union b.typesNamed).union c.typesNamed).union (.single t) =
      S.union (analogy a b c none).typesNamed := by
  refine eq_union_typesNamed _ fun n => ?_
  simp only [TypeSet.mem_union, TypeSet.mem_single] at ht ⊢
  simp [typeNamed?, children]
  constructor
  · rintro (h | rfl)
    · tauto
    · tauto
  · tauto

/-! ## Drawing on the types seen -/

mutual

/-- Some part of the query is all entities of the types seen before it, or is chosen from them. -/
def drawsOnSeen : Query → Bool
  | .comparison _ | .optimize .. => true
  | .logical .and qs => qs.all (fun q => (comparison? q).isSome) || anyOtherDrawsOnSeen qs
  | .logical .or qs => anyDrawsOnSeen qs
  | .logical .not _ => true
  | .lookup .. => false
  | .relation l _ r => drawsOnSeen l || drawsOnSeen r
  | .similar t .. => drawsOnSeen t
  | .analogy a b c _ => drawsOnSeen a || drawsOnSeen b || drawsOnSeen c

/-- One of the queries that are no comparisons draws on the types seen. -/
def anyOtherDrawsOnSeen : List Query → Bool
  | [] => false
  | q :: qs => (comparison? q).isNone && drawsOnSeen q || anyOtherDrawsOnSeen qs

/-- One of the queries draws on the types seen. -/
def anyDrawsOnSeen : List Query → Bool
  | [] => false
  | q :: qs => drawsOnSeen q || anyDrawsOnSeen qs

end

theorem anyDrawsOnSeen_iff {qs : List Query} :
    anyDrawsOnSeen qs = true ↔ ∃ q ∈ qs, q.drawsOnSeen = true := by
  induction qs with
  | nil => simp [anyDrawsOnSeen]
  | cons q qs ih => simp [anyDrawsOnSeen, ih]

theorem anyOtherDrawsOnSeen_iff {qs : List Query} : anyOtherDrawsOnSeen qs = true ↔
    ∃ q ∈ qs, (comparison? q).isNone = true ∧ q.drawsOnSeen = true := by
  induction qs with
  | nil => simp [anyOtherDrawsOnSeen]
  | cons q qs ih =>
      simp only [anyOtherDrawsOnSeen, Bool.or_eq_true, Bool.and_eq_true, ih, List.mem_cons,
        exists_eq_or_imp]

/-! ### Types seen where a query draws on them -/

mutual

/-- The types seen at each part of the query that draws on them, if `seen` have been seen before
it. -/
def draws (seen : TypeSet) : Query → List TypeSet
  | .comparison _ | .optimize .. => [seen]
  | .logical .and qs =>
    drawsOfOthers seen qs ++ if qs.all (fun q => (comparison? q).isSome) then [seen] else []
  | .logical .or qs => drawsOfAll seen qs
  | .logical .not qs => drawsOfAll seen qs ++ [seen.union (typesNamed (.logical .not qs))]
  | .lookup .. => []
  | .relation l _ r => draws seen l ++ draws (seen.union l.typesNamed) r
  | .similar t .. => draws seen t
  | .analogy a b c _ =>
    draws seen a ++ draws (seen.union a.typesNamed) b ++
      draws ((seen.union a.typesNamed).union b.typesNamed) c

/-- Those of the queries that are no comparisons, each after those before it. -/
def drawsOfOthers (seen : TypeSet) : List Query → List TypeSet
  | [] => []
  | q :: qs =>
    if (comparison? q).isSome then drawsOfOthers seen qs
    else draws seen q ++ drawsOfOthers (seen.union q.typesNamed) qs

/-- Those of the queries, each after those before it. -/
def drawsOfAll (seen : TypeSet) : List Query → List TypeSet
  | [] => []
  | q :: qs => draws seen q ++ drawsOfAll (seen.union q.typesNamed) qs

end

mutual

/-- What does not draw on the types seen does so nowhere. -/
theorem draws_eq_nil : ∀ (q : Query) (S : TypeSet), q.drawsOnSeen = false → q.draws S = []
  | .comparison _, _, h => by cases h
  | .optimize .., _, h => by cases h
  | .logical .and qs, S, h => by
      rw [drawsOnSeen, Bool.or_eq_false_iff] at h
      rw [draws, h.1, drawsOfOthers_eq_nil qs S h.2]
      rfl
  | .logical .or qs, S, h => drawsOfAll_eq_nil qs S h
  | .logical .not _, _, h => by cases h
  | .lookup .., _, _ => rfl
  | .relation l _ r, S, h => by
      rw [drawsOnSeen, Bool.or_eq_false_iff] at h
      rw [draws, draws_eq_nil l _ h.1, draws_eq_nil r _ h.2]
      rfl
  | .similar t .., S, h => draws_eq_nil t S h
  | .analogy a b c _, S, h => by
      rw [drawsOnSeen, Bool.or_eq_false_iff, Bool.or_eq_false_iff] at h
      rw [draws, draws_eq_nil a _ h.1.1, draws_eq_nil b _ h.1.2, draws_eq_nil c _ h.2]
      rfl

theorem drawsOfOthers_eq_nil : ∀ (qs : List Query) (S : TypeSet), anyOtherDrawsOnSeen qs = false →
    drawsOfOthers S qs = []
  | [], _, _ => rfl
  | q :: qs, S, h => by
      rw [anyOtherDrawsOnSeen, Bool.or_eq_false_iff, Bool.and_eq_false_iff] at h
      rw [drawsOfOthers]
      split
      · exact drawsOfOthers_eq_nil qs S h.2
      · rename_i hcomparison
        have hq : q.drawsOnSeen = false := h.1.resolve_left (by simpa using hcomparison)
        rw [draws_eq_nil q S hq, drawsOfOthers_eq_nil qs _ h.2]
        rfl

theorem drawsOfAll_eq_nil : ∀ (qs : List Query) (S : TypeSet), anyDrawsOnSeen qs = false →
    drawsOfAll S qs = []
  | [], _, _ => rfl
  | q :: qs, S, h => by
      rw [anyDrawsOnSeen, Bool.or_eq_false_iff] at h
      rw [drawsOfAll, draws_eq_nil q S h.1, drawsOfAll_eq_nil qs _ h.2]
      rfl

end

/-- Wherever the query draws on the types seen, it has seen the types if it stands alone. -/
def DrawsAfter (q : Query) (types : TypeSet) : Prop := ∀ seen ∈ q.draws .empty, types.Within seen

instance : Decidable (q.DrawsAfter T) :=
  inferInstanceAs (Decidable (∀ seen ∈ q.draws .empty, ∀ n ∈ T.names, n ∈ seen.names))

example : (logical .not [.lookup "command" "deps" false]).DrawsAfter (.single "command") := by
  decide +kernel

end Query

end VectorQuery
