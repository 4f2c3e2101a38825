/-
# The queries within a query
-/
import VectorQuery.Query.Basic

namespace VectorQuery.Query

mutual

/-- All queries below a query. -/
def descendants : Query → List Query
  | .lookup .. | .comparison _ | .optimize .. => []
  | .relation l _ r => l :: descendants l ++ r :: descendants r
  | .logical _ qs => descendantsOfAll qs
  | .similar t .. => t :: descendants t
  | .analogy a b c _ => a :: descendants a ++ (b :: descendants b ++ c :: descendants c)

/-- The queries and all queries below them. -/
def descendantsOfAll : List Query → List Query
  | [] => []
  | q :: qs => q :: descendants q ++ descendantsOfAll qs

end

/-- The query and all queries below it. -/
def subqueries (q : Query) : List Query := q :: q.descendants

theorem mem_subqueries_self (q : Query) : q ∈ q.subqueries := List.mem_cons_self

theorem mem_descendantsOfAll {p : Query} {qs : List Query} :
    p ∈ descendantsOfAll qs ↔ ∃ q ∈ qs, p ∈ q.subqueries := by
  induction qs with
  | nil => simp [descendantsOfAll]
  | cons q qs ih => simp [descendantsOfAll, subqueries, ih, or_assoc]

theorem mem_subqueries_iff {p q : Query} :
    p ∈ q.subqueries ↔ p = q ∨ ∃ c ∈ q.children, p ∈ c.subqueries := by
  rw [subqueries, List.mem_cons]
  refine or_congr_right ?_
  cases q with
  | lookup | comparison | optimize => simp [descendants, children]
  | logical => exact mem_descendantsOfAll
  | relation | similar | analogy => simp [descendants, children, subqueries, or_assoc]

/-- What is within a query directly below is within the query. -/
theorem subqueries_subset {q c : Query} (h : c ∈ q.children) : c.subqueries ⊆ q.subqueries :=
  fun _ hp => mem_subqueries_iff.2 (.inr ⟨c, h, hp⟩)

/-! ## Induction -/

mutual

/-- What holds of a query if it holds of those directly below holds of all queries. -/
theorem of_children {P : Query → Prop} (step : ∀ q : Query, (∀ c ∈ q.children, P c) → P q) :
    ∀ q : Query, P q
  | .lookup .. => step _ fun _ hc => absurd hc List.not_mem_nil
  | .comparison _ => step _ fun _ hc => absurd hc List.not_mem_nil
  | .optimize .. => step _ fun _ hc => absurd hc List.not_mem_nil
  | .relation l _ r => step _ <| List.forall_mem_cons.2
      ⟨of_children step l, List.forall_mem_singleton.2 (of_children step r)⟩
  | .logical _ qs => step _ (of_children_all step qs)
  | .similar t .. => step _ (List.forall_mem_singleton.2 (of_children step t))
  | .analogy a b c _ => step _ <| List.forall_mem_cons.2 ⟨of_children step a,
      List.forall_mem_cons.2 ⟨of_children step b, List.forall_mem_singleton.2 (of_children step c)⟩⟩

theorem of_children_all {P : Query → Prop} (step : ∀ q : Query, (∀ c ∈ q.children, P c) → P q) :
    ∀ qs : List Query, ∀ q ∈ qs, P q
  | [] => fun _ hq => absurd hq List.not_mem_nil
  | q :: qs => List.forall_mem_cons.2 ⟨of_children step q, of_children_all step qs⟩

end

end VectorQuery.Query
