/-
# What a conjunction finds

Every entity that a conjunction finds belongs to each operand as it is evaluated within the
conjunction (`members_of_conjunction`).  The first operand stands there as it does alone.  The
second one is evaluated after the first has named types, so it may mean something else if it draws
on the types seen before it names those types itself: `feature("*") AND NOT command("deps")` finds
features, which `NOT command("deps")` does not.  What `command("*") AND NOT command("deps")` finds,
`NOT command("deps")` finds too.
-/
import VectorQuery.Proofs.Lowering.Pushdown
import VectorQuery.Proofs.Meaning.Agreement

namespace VectorQuery

open Evaluation
open Lowering (comparison?)

namespace Meaning

variable {x : Executor}

theorem mem_filterAll {a : Meaning} {cs : List (Comparison Double)} {o : Nat}
    (h : o ∈ (a.filterAll x cs).set.members) :
    o ∈ a.set.members ∧ ∀ c ∈ cs, (x.snapshot.entity? o).any c.holds = true := by
  rw [filterAll_eq, ScoredSet.mem_members_retain] at h
  exact ⟨h.2, List.all_eq_true.1 h.1⟩

theorem mem_both {a b : Meaning} {o : Nat} (h : o ∈ (a.both b).set.members) :
    o ∈ a.set.members ∧ o ∈ b.set.members :=
  (ScoredSet.mem_members_and a.set b.set o).1 h

theorem mem_foldl_both {a : Meaning} {as : List Meaning} {o : Nat}
    (h : o ∈ (as.foldl both a).set.members) : ∀ b ∈ a :: as, o ∈ b.set.members := by
  induction as generalizing a with
  | nil =>
      intro b hb
      rwa [List.mem_singleton.1 hb]
  | cons b as ih =>
      have hall := ih h
      obtain ⟨ha, hb⟩ := mem_both (hall _ List.mem_cons_self)
      exact List.forall_mem_cons.2 ⟨ha, List.forall_mem_cons.2 ⟨hb, fun c hc =>
        hall c (List.mem_cons_of_mem _ hc)⟩⟩

end Meaning

section

variable {x : Executor} {config : EngineConfig} {relate : Relating} {m m' : Memory} {a : Meaning}

/-- The entities that a conjunction finds belong to all its operands and satisfy all its
conditions. -/
theorem members_of_conjunction {qs : List Query}
    (h : computeShared x config relate (.logical .and qs) m = .ok (a, m')) :
    ∃ as m₁, computeOthers x config (.sharing relate) qs m = .ok (as, m₁) ∧
      ∀ o ∈ a.set.members, (∀ b ∈ as, o ∈ b.set.members) ∧
        ∀ c, .comparison c ∈ qs → (x.snapshot.entity? o).any c.holds = true := by
  rw [computeShared, compute] at h
  obtain ⟨u, -, hrest⟩ := run_of_lift_bind h
  obtain ⟨as, m₁, has, hrest⟩ := run_of_bind hrest
  have hconditions : ∀ {o : Nat}, (∀ c ∈ qs.filterMap comparison?,
      (x.snapshot.entity? o).any c.holds = true) →
        ∀ c, .comparison c ∈ qs → (x.snapshot.entity? o).any c.holds = true :=
    fun hall c hc => hall c (List.mem_filterMap.2 ⟨_, hc, rfl⟩)
  refine ⟨as, m₁, has, fun o ho => ?_⟩
  cases as with
  | nil =>
      cases hrest
      exact ⟨fun b hb => absurd hb List.not_mem_nil, hconditions (Meaning.mem_filterAll ho).2⟩
  | cons b bs =>
      cases hrest
      obtain ⟨hmem, hall⟩ := Meaning.mem_filterAll ho
      exact ⟨Meaning.mem_foldl_both hmem, hconditions hall⟩

theorem evaluateShared_eq_of_start {q : Query}
    (h : evaluateShared x config relate q .start = .ok (a, m)) :
    ∃ m₁, computeShared x config relate q .start = .ok (a, m₁) := by
  have hnew : evaluateShared x config relate q .start = _ := reuse_of_unknown rfl
  rw [hnew] at h
  obtain ⟨⟨b, m₁⟩, hrun, heq⟩ := ok_of_map h
  cases heq
  exact ⟨m₁, hrun⟩

/-- A comparison that stands alone finds every entity that satisfies it. -/
theorem mem_of_comparison {c : Comparison Double}
    (h : evaluateShared x config relate (.comparison c) .start = .ok (a, m)) {o : Nat}
    (ho : (x.snapshot.entity? o).any c.holds = true) : o ∈ a.set.members := by
  obtain ⟨m₁, hrun⟩ := evaluateShared_eq_of_start h
  rw [computeShared, compute] at hrun
  obtain ⟨u, -, hrest⟩ := run_of_lift_bind hrun
  cases hrest
  refine (ScoredSet.mem_members_retain _ _ o).2 ⟨ho, (ScoredSet.mem_members _ o).2 ⟨1, ?_⟩⟩
  obtain ⟨e, he, -⟩ := Option.any_eq_true _ _ |>.1 ho
  rw [Meaning.everything, ScoredSet.score?_uniform, if_pos]
  exact Snapshot.mem_ordinals.2 ⟨(Array.getElem?_eq_some_iff.1 he).1, .inl rfl⟩

theorem operands_of_other {q : Query} {qs : List Query} (hq : comparison? q = none)
    {as : List Meaning} (h : computeOthers x config (.sharing relate) (q :: qs) m = .ok (as, m')) :
    ∃ a m₁ bs, evaluateShared x config relate q m = .ok (a, m₁) ∧
      computeOthers x config (.sharing relate) qs m₁ = .ok (bs, m') ∧ as = a :: bs := by
  rw [computeOthers, if_neg (by simp [hq])] at h
  obtain ⟨a, m₁, ha, hrest⟩ := run_of_bind h
  obtain ⟨bs, m₂, hbs, hrest⟩ := run_of_bind hrest
  cases hrest
  exact ⟨a, m₁, bs, ha, hbs, rfl⟩

/-- The first operand of a conjunction stands as it does alone. -/
theorem contained_left {p q : Query} {c : Meaning}
    (ha : evaluateShared x config relate p .start = .ok (a, m))
    (hc : computeShared x config relate (.logical .and [p, q]) .start = .ok (c, m')) :
    ∀ o ∈ c.set.members, o ∈ a.set.members := by
  obtain ⟨as, m₁, has, hmem⟩ := members_of_conjunction hc
  intro o ho
  obtain ⟨hoperands, hconditions⟩ := hmem o ho
  cases hp : comparison? p with
  | some condition =>
      obtain rfl := Lowering.eq_of_comparison? hp
      exact mem_of_comparison ha (hconditions condition List.mem_cons_self)
  | none =>
      obtain ⟨a', m₂, bs, ha', -, rfl⟩ := operands_of_other hp has
      rw [ha] at ha'
      cases ha'
      exact hoperands a List.mem_cons_self

/-- A query means the same after another one as alone, if it does not draw on the types seen, or
does so only after it has seen the types that the other one names. -/
theorem evaluate_after {p q : Query} {b b' : Meaning} {m₁ m₂ m₃ : Memory} (hp : p.Printable)
    (hq : q.Printable) (ha : evaluateShared x config relate p .start = .ok (a, m₁))
    (hb : evaluateShared x config relate q .start = .ok (b, m₂))
    (hb' : evaluateShared x config relate q m₁ = .ok (b', m₃))
    (h : q.drawsOnSeen = false ∨
      q.DrawsAfter p.typesNamed ∧ p.SearchesNamed ∧ q.SearchesNamed) : b' = b := by
  rcases h with h | ⟨hafter, hpnamed, hqnamed⟩
  · have hdraws : q.drawsOnSeen = true → False := by simp [h]
    have hstart : Memory.start.Faithful x config relate False := Memory.faithful_start
    obtain ⟨hm₁, -⟩ := hstart.evaluate hp False.elim ha
    exact compute_eq_of_not_drawsOnSeen h ((hm₁.evaluate hq False.elim hb').2 hdraws)
      ((hstart.evaluate hq False.elim hb).2 hdraws)
  · have hstart : Memory.start.Faithful x config relate True := Memory.faithful_start
    obtain ⟨hm₁, hfirst⟩ := hstart.evaluate hp (fun _ => hpnamed) ha
    -- the types seen where the query is evaluated are those that the other one names
    have hseen : m₁.seen = p.typesNamed := by
      rw [seen_compute (hfirst fun _ => trivial), TypeSet.union_comm]
      exact (TypeSet.empty_within _).union_eq
    have hsecond := (hm₁.evaluate hq (fun _ => hqnamed) hb').2 fun _ => trivial
    have halone := (hstart.evaluate hq (fun _ => hqnamed) hb).2 fun _ => trivial
    rw [hseen] at hsecond
    exact (compute_eq_of_drawsAfter hafter halone hsecond).symm

/-- The second operand of a conjunction stands as it does alone if one of the two is a comparison,
or if it does not draw on the types seen before those that the first one names. -/
theorem contained_right {p q : Query} {b c : Meaning} {m₁ m₂ : Memory} (hp : p.Printable)
    (hq : q.Printable) (ha : evaluateShared x config relate p .start = .ok (a, m₁))
    (hb : evaluateShared x config relate q .start = .ok (b, m₂))
    (hc : computeShared x config relate (.logical .and [p, q]) .start = .ok (c, m'))
    (h : (comparison? p).isSome = true ∨ (comparison? q).isSome = true ∨ q.drawsOnSeen = false ∨
      q.DrawsAfter p.typesNamed ∧ p.SearchesNamed ∧ q.SearchesNamed) :
    ∀ o ∈ c.set.members, o ∈ b.set.members := by
  obtain ⟨as, m₃, has, hmem⟩ := members_of_conjunction hc
  intro o ho
  obtain ⟨hoperands, hconditions⟩ := hmem o ho
  cases hcq : comparison? q with
  | some condition =>
      obtain rfl := Lowering.eq_of_comparison? hcq
      exact mem_of_comparison hb (hconditions condition (by simp))
  | none =>
      cases hcp : comparison? p with
      | some condition =>
          -- the first operand is a condition, so the second one is evaluated at the start
          rw [computeOthers, if_pos (by simp [hcp])] at has
          obtain ⟨b', m₄, bs, hb', -, rfl⟩ := operands_of_other hcq has
          rw [hb] at hb'
          cases hb'
          exact hoperands b List.mem_cons_self
      | none =>
          obtain ⟨a', m₄, bs, ha', hbs, rfl⟩ := operands_of_other hcp has
          rw [ha] at ha'
          cases ha'
          obtain ⟨b', m₅, bs, hb', -, rfl⟩ := operands_of_other hcq hbs
          have heq : b' = b := by
            refine evaluate_after hp hq ha hb hb' ?_
            rcases h with h | h | h
            · simp [hcp] at h
            · simp [hcq] at h
            · exact h
          rw [← heq]
          exact hoperands b' (by simp)

end

namespace Engine

/-- The query has a plan without a limit, and a run of it finds the entities. -/
def Finds (e : Engine) (s : Snapshot) (q : Query) (found : ScoredSet Single) : Prop :=
  ∃ plan time x, e.plan s q none = .ok plan ∧ (e.executor s).run plan time = .ok x ∧
    x.result = found

variable {e : Engine} {s : Snapshot}

theorem evaluates_of_finds {q : Query} (hq : q.Printable) {found : ScoredSet Single}
    (h : e.Finds s q found) : ∃ a m,
      evaluateShared (e.executor s) e.config (e.executor s).relatingPredictable q .start =
        .ok (a, m) ∧ a.set = found := by
  obtain ⟨plan, time, x, hplan, hrun, rfl⟩ := h
  obtain ⟨a, m, root, heval, -, -, hresult⟩ :=
    (Setting.lenient (e.executor s) e.config e.config.compiler.pushdownSelectivity).evaluates_of_run
      trivial hq (ok_of_mapError hplan) hrun
  exact ⟨a, m, heval, hresult.symm⟩

/-- What a run of the query's plan finds, if there is a plan and the run succeeds. -/
def find? (e : Engine) (s : Snapshot) (q : Query) : Option (ScoredSet Single) :=
  (e.plan s q none).toOption.bind fun plan =>
    ((e.executor s).run plan none).toOption.map (·.result)

theorem finds_of_find? {q : Query} {os : List Nat}
    (h : (e.find? s q).map (·.members) = some os) :
    ∃ found, e.Finds s q found ∧ found.members = os := by
  obtain ⟨found, hfound, hmembers⟩ := Option.map_eq_some_iff.1 h
  obtain ⟨plan, hplan, hfound⟩ := Option.bind_eq_some_iff.1 hfound
  obtain ⟨x, hx, hresult⟩ := Option.map_eq_some_iff.1 hfound
  exact ⟨found, ⟨plan, none, x, ok_of_toOption hplan, ok_of_toOption hx, hresult⟩, hmembers⟩

/-- A snapshot of a feature and two commands. -/
def featureAndCommands : Snapshot :=
  (Snapshot.build [⟨"feature", "cache", "", [1], [], .empty⟩,
    ⟨"command", "deps", "", [1], [], .empty⟩, ⟨"command", "lint", "", [1], [], .empty⟩]
    [] {} 1 ⟨0, 0⟩).toOption.getD .empty

example : (featureAndCommands.ordinals []).isEmpty = false := by
  decide +kernel

end Engine

end VectorQuery
