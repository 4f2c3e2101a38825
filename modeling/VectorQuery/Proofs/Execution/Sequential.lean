/-
# Level by level is one after the other

Where each operation binds a variable of its own and reads what operations before it bind, running a
plan level by level comes to the same as running its operations one after the other
(`Executor.run_eq_perform`): it succeeds if they all do and bind the result, binds the same sets, and
its trace tells of each operation in the order of the plan.  Which operations of a level are marked
as parallel plays no part.

What holds of a run is shown of its commits: an operation is committed once, after those on lower
levels (`Executor.commits_of_run`).
-/
import VectorQuery.Proofs.Execution.Order

namespace VectorQuery

/-- Each operation binds a variable of its own and reads what operations before it bind. -/
structure Ordered (ops : List Operation) : Prop where
  distinct : (ops.map (·.output)).Nodup
  bound : ∀ (i : Nat) (op : Operation), ops[i]? = some op →
    ∀ v ∈ op.inputs, ∃ j < i, ∃ o, ops[j]? = some o ∧ o.output = v

theorem ordered_iff (ops : List Operation) :
    Ordered ops ↔ (ops.map (·.output)).Nodup ∧
      ∀ i : Fin ops.length, ∀ v ∈ ops[i].inputs, ∃ o ∈ ops.take i, o.output = v := by
  constructor
  · intro h
    refine ⟨h.distinct, fun i v hv => ?_⟩
    obtain ⟨j, hj, o, ho, hout⟩ := h.bound i _ (List.getElem?_eq_getElem i.2) v hv
    exact ⟨o, List.mem_of_getElem? ((List.getElem?_take_of_lt hj).trans ho), hout⟩
  · rintro ⟨hdistinct, hbound⟩
    refine ⟨hdistinct, fun i op hop v hv => ?_⟩
    obtain ⟨hi, rfl⟩ := List.getElem?_eq_some_iff.1 hop
    obtain ⟨o, ho, hout⟩ := hbound ⟨i, hi⟩ v hv
    obtain ⟨j, hj, rfl⟩ := List.mem_take_iff_getElem.1 ho
    have hji : j < i := (Nat.lt_min.1 hj).1
    exact ⟨j, hji, _, List.getElem?_eq_getElem (Nat.lt_trans hji hi), hout⟩

instance (ops : List Operation) : Decidable (Ordered ops) :=
  decidable_of_iff' _ (ordered_iff ops)

/-! ## Levels -/

/-- The levels hold each operation once, above the operations that it reads. -/
structure Plan.Layered (p : Plan) : Prop where
  once : p.levels.flatten.Perm (List.range p.operations.length)
  above : ∀ (d : Nat) (level : List Nat), p.levels[d]? = some level → ∀ i ∈ level,
    ∀ op, p.operations[i]? = some op → ∀ v ∈ op.inputs, ∃ d' < d, ∃ lower,
      p.levels[d']? = some lower ∧ ∃ j ∈ lower, ∃ o, p.operations[j]? = some o ∧ o.output = v

theorem Plan.levels_perm (p : Plan) :
    p.levels.flatten.Perm (List.range p.operations.length) := by
  refine (List.perm_ext_iff_of_nodup p.nodup_levels List.nodup_range).2 fun i => ?_
  rw [List.mem_range]
  constructor
  · intro hi
    obtain ⟨level, hlevel, hi⟩ := List.mem_flatten.1 hi
    obtain ⟨lower, upper, hlevels⟩ := List.append_of_mem hlevel
    obtain ⟨op, hop⟩ := exists_of_mem_level hlevels hi
    exact (List.getElem?_eq_some_iff.1 hop).1
  · exact fun hi => mem_levels (List.getElem?_eq_getElem hi)

theorem Ordered.layered {p : Plan} (h : Ordered p.operations) : p.Layered where
  once := p.levels_perm
  above := by
    intro d level hlevel i hi op hop v hv
    obtain ⟨hd, rfl⟩ := List.getElem?_eq_some_iff.1 hlevel
    have hlevels : p.levels = p.levels.take d ++ p.levels[d] :: p.levels.drop (d + 1) := by
      rw [List.getElem_cons_drop, List.take_append_drop]
    obtain ⟨j, hj, o, ho, rfl⟩ := h.bound i op hop v hv
    have hlower := Plan.mem_lower_of_read h.distinct hlevels hi hop hj ho hv
    obtain ⟨lower, hmem, hj⟩ := List.mem_flatten.1 hlower
    obtain ⟨d', hd', rfl⟩ := List.mem_take_iff_getElem.1 hmem
    exact ⟨d', by omega, _, List.getElem?_eq_getElem (by omega), j, hj, o, ho, rfl⟩

/-! ## Traces -/

/-- The values of a map whose keys are the numbers below `n`. -/
theorem OrderedMap.getElem?_values {β : Type} {m : OrderedMap Nat β} {n : Nat}
    (h : ∀ i, (m.get? i).isSome = true ↔ i < n) :
    m.values.length = n ∧ ∀ i < n, m.values[i]? = m.get? i := by
  have hnumbered : m.keys.Pairwise (· < ·) :=
    List.pairwise_map.2 (m.ascending.imp Nat.compare_eq_lt.1)
  have hkeys : m.keys = List.range n := by
    refine List.Perm.eq_of_pairwise (fun a b _ _ hab hba => absurd hab (Nat.lt_asymm hba))
      hnumbered List.pairwise_lt_range ((List.perm_ext_iff_of_nodup
        (hnumbered.imp Nat.ne_of_lt) List.nodup_range).2 fun i => ?_)
    rw [List.mem_range, ← h i, keys, List.mem_map, Option.isSome_iff_exists]
    constructor
    · rintro ⟨e, he, rfl⟩
      exact ⟨e.2, (m.get?_eq_some_iff e.1 e.2).2 he⟩
    · rintro ⟨v, hv⟩
      exact ⟨(i, v), (m.get?_eq_some_iff i v).1 hv, rfl⟩
  have hvalues : m.values.map some = (List.range n).map m.get? := by
    rw [← hkeys, values, keys, List.map_map, List.map_map]
    exact List.map_congr_left fun e he => ((m.get?_eq_some_iff e.1 e.2).2 he).symm
  constructor
  · have hlength := congrArg List.length hvalues
    rwa [List.length_map, List.length_map, List.length_range] at hlength
  · intro i hi
    have hat := congrArg (·[i]?) hvalues
    simp only [List.getElem?_map, List.getElem?_range hi, Option.map_some] at hat
    cases hv : m.values[i]? with
    | none =>
        rw [hv] at hat
        cases hat
    | some v =>
        rw [hv] at hat
        exact Option.some.inj hat

/-- The step of an operation that has bound a set. -/
def Operation.step (op : Operation) (i : Nat) (set : ScoredSet Single) : TraceStep :=
  ⟨i + 1, op.call, op.output.text, set.size, 0⟩

/-- The execution of a plan has bound what its operations bind one after the other, and its trace
tells of each of them. -/
structure Execution.Follows (e : Execution) (plan : Plan) (b : Bindings) : Prop where
  bindings : ∀ v, e.bindings.value? v = b.value? v
  result : b.value? plan.result = some e.result
  length : e.trace.steps.length = plan.operations.length
  steps : ∀ (i : Nat) (op : Operation), plan.operations[i]? = some op →
    ∃ set, b.value? op.output = some set ∧ e.trace.steps[i]? = some (op.step i set)

namespace Executor

variable {x : Executor} {plan : Plan} {limit : Option Nat} {ops : List Operation}

/-! ## Commits -/

/-- What each commit preserves holds when all operations have been committed. -/
theorem commits_of_run (P : List Nat → Progress → Prop) (start : P [] .start)
    (commit : ∀ done i op r q, i ∉ done → plan.operations[i]? = some op → P done q →
      P (done ++ [i]) (q.commit i op r))
    {e : Execution} (h : x.run plan limit = .ok e) :
    ∃ p, P plan.levels.flatten p ∧ e.bindings = p.bindings ∧ e.trace = p.trace := by
  obtain ⟨p, hp, h⟩ := ok_of_bind h
  have hend : P plan.levels.flatten p := by
    refine foldlM_induction (fun done q => P done.flatten q) ?_ start hp
    intro lower level upper q q' hlevels hq hrun
    rw [runLevel_eq x limit _ q (Plan.pairwise_level (p := plan) (by simp [hlevels]))] at hrun
    rw [List.flatten_append, List.flatten_singleton]
    refine foldlM_induction (fun done q => P (lower.flatten ++ done) q) ?_
      (by rwa [List.append_nil]) hrun
    intro done i rest q₁ q₂ hsplit hq₁ hop
    obtain ⟨op, hi⟩ := Plan.exists_of_mem_level hlevels (i := i) (by simp [hsplit])
    rw [runOperation_of_some x limit _ _ hi] at hop
    rw [← List.append_assoc]
    cases hresult : x.attempt limit q.bindings op with
    | error halt =>
        rw [hresult] at hop
        cases halt <;> cases hop
    | ok r =>
        rw [hresult] at hop
        cases hop
        exact commit _ i op r _ (Plan.not_mem_of_level hlevels hsplit) hi hq₁
  split at h
  · cases h
  · cases h
    exact ⟨p, hend, rfl, rfl⟩

/-- What a run binds is the output of an operation. -/
theorem output_of_run {e : Execution} (h : x.run plan limit = .ok e) {v : Variable}
    (hv : (e.bindings.value? v).isSome = true) : ∃ op ∈ plan.operations, op.output = v := by
  have hcommit : ∀ (i : Nat) (op : Operation) (r : StepResult) (q : Progress),
      plan.operations[i]? = some op →
      (∀ v, (q.bindings.value? v).isSome = true → ∃ op ∈ plan.operations, op.output = v) →
      ∀ v, ((q.commit i op r).bindings.value? v).isSome = true →
        ∃ op ∈ plan.operations, op.output = v := by
    intro i op r q hop hq v hv
    change ((q.bindings.bind op.output r.set).value? v).isSome = true at hv
    rw [Bindings.value?_bind] at hv
    split at hv
    · rename_i hout
      exact ⟨op, List.mem_of_getElem? hop, hout.symm⟩
    · exact hq v hv
  obtain ⟨p, hp, hbindings, -⟩ := commits_of_run (fun _ p =>
    ∀ v, (p.bindings.value? v).isSome = true → ∃ op ∈ plan.operations, op.output = v)
    (fun _ hnone => nomatch hnone) (fun _ i op r q _ => hcommit i op r q) h
  exact hp v (hbindings ▸ hv)

/-- The trace tells of the operations of the indexes `done`, with the sets that they have bound. -/
structure Traced (ops : List Operation) (done : List Nat) (p : Progress) : Prop where
  only : ∀ i, (p.steps.get? i).isSome = true → i ∈ done
  steps : ∀ i ∈ done, ∀ op, ops[i]? = some op →
    ∃ set, p.bindings.value? op.output = some set ∧ p.steps.get? i = some (op.step i set)

theorem traced_start (ops : List Operation) : Traced ops [] .start where
  only := nofun
  steps := nofun

theorem Traced.commit (hops : (ops.map (·.output)).Nodup) {done : List Nat} {p : Progress}
    (h : Traced ops done p) {i : Nat} (hi : i ∉ done) {op : Operation} (hop : ops[i]? = some op)
    (r : StepResult) : Traced ops (done ++ [i]) (p.commit i op r) where
  only := by
    intro j hj
    change ((p.steps.insert i _).get? j).isSome = true at hj
    rw [OrderedMap.get?_insert] at hj
    split at hj
    · rename_i hji
      rw [Nat.compare_eq_eq.1 hji]
      exact List.mem_append_right _ (List.mem_singleton_self i)
    · exact List.mem_append_left _ (h.only j hj)
  steps := by
    intro j hj o ho
    change ∃ set, (p.bindings.bind op.output r.set).value? o.output = some set ∧
      (p.steps.insert i _).get? j = _
    rw [Bindings.value?_bind, OrderedMap.get?_insert]
    rcases List.mem_append.1 hj with hj | hj
    · have hne : j ≠ i := fun heq => hi (heq ▸ hj)
      rw [if_neg fun heq => hne (eq_of_output hops ho hop heq),
        if_neg fun heq => hne (Nat.compare_eq_eq.1 heq)]
      exact h.steps j hj o ho
    · cases List.mem_singleton.1 hj
      rw [hop] at ho
      cases ho
      rw [if_pos rfl, if_pos (Nat.compare_eq_eq.2 rfl)]
      exact ⟨r.set, rfl, rfl⟩

/-- The trace of a run tells of each operation in the order of the plan. -/
theorem trace_of_run (hops : (plan.operations.map (·.output)).Nodup) {e : Execution}
    (h : x.run plan limit = .ok e) :
    e.trace.steps.length = plan.operations.length ∧
      ∀ (i : Nat) (op : Operation), plan.operations[i]? = some op →
        ∃ set, e.bindings.value? op.output = some set ∧
          e.trace.steps[i]? = some (op.step i set) := by
  obtain ⟨p, hp, hbindings, htrace⟩ := commits_of_run (Traced plan.operations)
    (traced_start _) (fun _ _ _ r _ hi hop hq => hq.commit hops hi hop r) h
  have hkeys : ∀ i, (p.steps.get? i).isSome = true ↔ i < plan.operations.length := by
    intro i
    constructor
    · intro hi
      exact List.mem_range.1 (plan.levels_perm.subset (hp.only i hi))
    · intro hi
      have hat := List.getElem?_eq_getElem hi
      obtain ⟨set, -, hstep⟩ := hp.steps i (Plan.mem_levels hat) _ hat
      rw [hstep]
      rfl
  obtain ⟨hlength, hvalues⟩ := OrderedMap.getElem?_values hkeys
  rw [hbindings, htrace]
  refine ⟨hlength, fun i op hop => ?_⟩
  obtain ⟨set, hset, hstep⟩ := hp.steps i (Plan.mem_levels hop) op hop
  exact ⟨set, hset, (hvalues i (List.getElem?_eq_some_iff.1 hop).1).trans hstep⟩

/-! ## In the order of the plan -/

/-- Operations that are solved by some bindings succeed one after the other. -/
theorem perform_of_solves (hops : Ordered ops) {b : Bindings} (h : x.Solves b ops) :
    ∃ b', x.perform [] ops = .ok b' ∧ b'.Within b := by
  have hrun : ∃ b', x.perform [] ops = .ok b' ∧
      b'.Within b ∧ ∀ op ∈ ops, ∃ s, b'.value? op.output = some s := by
    refine foldlM_succeeds (fun (done : List Operation) (b' : Bindings) =>
      b'.Within b ∧ ∀ op ∈ done, ∃ s, b'.value? op.output = some s) ?_ ⟨?_, nofun⟩
    case refine_2 =>
      intro v s hnone
      cases hnone
    intro done op rest b' hsplit ⟨hwithin, hbound⟩
    have hop : ops[done.length]? = some op := by
      rw [hsplit, List.getElem?_append_right (Nat.le_refl _), Nat.sub_self]
      rfl
    obtain ⟨r, hr, hset⟩ := h op (List.mem_of_getElem? hop)
    -- what the operation reads has been bound, to the value that the solution gives it
    have hreads : ∀ v ∈ op.inputs, ∀ s, b.value? v = some s → b'.value? v = some s := by
      intro v hv s hs
      obtain ⟨j, hj, o, ho, rfl⟩ := hops.bound _ op hop v hv
      rw [hsplit, List.getElem?_append_left hj] at ho
      obtain ⟨s', hs'⟩ := hbound o (List.mem_of_getElem? ho)
      rw [hwithin _ _ hs'] at hs
      rwa [hs] at hs'
    refine ⟨b'.bind op.output r.set, ?_, ?_, ?_⟩
    · rw [step_mono hreads hr]
      rfl
    · intro v s hs
      rw [Bindings.value?_bind] at hs
      split at hs
      · rename_i hv
        rw [hv, hset, hs]
      · exact hwithin v s hs
    · intro o ho
      rw [Bindings.value?_bind]
      split
      · exact ⟨r.set, rfl⟩
      · rename_i hne
        refine hbound o ((List.mem_append.1 ho).resolve_right fun heq => hne ?_)
        rw [List.mem_singleton.1 heq]
  obtain ⟨b', hb', hwithin, -⟩ := hrun
  exact ⟨b', hb', hwithin⟩

/-- Operations that succeed one after the other bind their outputs and nothing else. -/
theorem isSome_value?_of_perform (hops : (ops.map (·.output)).Nodup) {b : Bindings}
    (h : x.perform [] ops = .ok b) (v : Variable) :
    (b.value? v).isSome = true ↔ ∃ op ∈ ops, op.output = v := by
  constructor
  · intro hv
    obtain ⟨s, hs⟩ := Option.isSome_iff_exists.1 hv
    obtain ⟨i, -, op, hop, hout⟩ := (reached_of_perform hops h).1.bound v s hs
    exact ⟨op, List.mem_of_getElem? hop, hout⟩
  · rintro ⟨op, hop, rfl⟩
    obtain ⟨i, hi⟩ := List.getElem?_of_mem hop
    obtain ⟨-, r, -, hr, -⟩ := runs_of_perform hops h hi
    rw [hr]
    rfl

/-- A run binds what the operations bind one after the other. -/
theorem value?_of_run (hplan : Ordered plan.operations) {e : Execution}
    (h : x.run plan limit = .ok e) :
    ∃ b, x.perform [] plan.operations = .ok b ∧ ∀ v, e.bindings.value? v = b.value? v := by
  obtain ⟨b, hb, hwithin⟩ := perform_of_solves hplan (solves_of_run hplan.distinct h).1
  refine ⟨b, hb, fun v => ?_⟩
  cases hv : b.value? v with
  | some s => exact hwithin v s hv
  | none =>
      refine Option.not_isSome_iff_eq_none.1 fun hsome => ?_
      obtain ⟨op, hop, hout⟩ := output_of_run h hsome
      have hbound := (isSome_value?_of_perform hplan.distinct hb v).2 ⟨op, hop, hout⟩
      rw [hv] at hbound
      cases hbound

/-- A plan whose operations bind variables of their own and read what is bound before them has each
operation on one level, above those that it reads.  It runs without a limit exactly if its operations
succeed one after the other and bind its result; then it has bound what they bind. -/
theorem run_eq_perform (hplan : Ordered plan.operations) (x : Executor) :
    plan.Layered ∧
      ((∃ e, x.run plan none = .ok e) ↔
        ∃ b s, x.perform [] plan.operations = .ok b ∧ b.value? plan.result = some s) ∧
      ∀ e b, x.run plan none = .ok e → x.perform [] plan.operations = .ok b → e.Follows plan b := by
  refine ⟨hplan.layered, ⟨?_, ?_⟩, ?_⟩
  · rintro ⟨e, he⟩
    obtain ⟨b, hb, hvalues⟩ := value?_of_run hplan he
    exact ⟨b, e.result, hb, (hvalues _).symm.trans (solves_of_run hplan.distinct he).2⟩
  · rintro ⟨b, s, hb, hs⟩
    refine run_of_perform hplan.distinct hb nofun ?_
    exact (isSome_value?_of_perform hplan.distinct hb _).1 (Option.isSome_iff_exists.2 ⟨s, hs⟩)
  · intro e b he hb
    obtain ⟨b', hb', hvalues⟩ := value?_of_run hplan he
    rw [hb] at hb'
    cases hb'
    obtain ⟨hlength, hsteps⟩ := trace_of_run hplan.distinct he
    refine ⟨hvalues, (hvalues _).symm.trans (solves_of_run hplan.distinct he).2, hlength, ?_⟩
    intro i op hop
    rw [← hvalues]
    exact hsteps i op hop

/-- What costs little effort, without the cache.  The third operation reads nothing, so it runs
before the second. -/
def cheapWithoutCache : Plan where
  query := ""
  operations :=
    [⟨.scan [], [], .named "all", 0, 0, .typeScan, true⟩,
      ⟨.filter ⟨"effort", .lt, .number 5⟩, [.named "all"], .named "cheap", 0, 0, .metadata, false⟩,
      ⟨.lookup "feature" "cache" .exact, [], .named "cache", 0, 0, .hash, true⟩,
      ⟨.not, [.named "cache", .named "cheap"], .named "rest", 0, 0, .none, false⟩,
      ⟨.collect none, [.named "rest"], .named "result", 0, 0, .none, false⟩]
  result := .named "result"
  shape := .matches
  notes := []
  types := []

theorem run_eq_perform_cheap :
    let s := (Snapshot.build
      [⟨"feature", "cache", "", [1], [], OrderedMap.empty.insert "effort" (.number 4)⟩,
        ⟨"feature", "graph", "", [1], [], OrderedMap.empty.insert "effort" (.number 8)⟩,
        ⟨"feature", "lint", "", [1], [], OrderedMap.empty.insert "effort" (.number 2)⟩]
      [] {} 1 ⟨0, 0⟩).toOption.getD .empty
    let x : Executor := ⟨s, {}, NameMatch.byEdits 2, offsetAnalogy⟩
    Ordered cheapWithoutCache.operations ∧ cheapWithoutCache.levels = [[0, 2], [1], [3], [4]] ∧
      ∃ e b, x.run cheapWithoutCache none = .ok e ∧
        x.perform [] cheapWithoutCache.operations = .ok b ∧ e.Follows cheapWithoutCache b ∧
        e.result.members = [2] := by
  intro s x
  have hplan : Ordered cheapWithoutCache.operations := by decide
  have hmembers : (x.run cheapWithoutCache none).toOption.map (·.result.members) = some [2] := by
    decide +kernel
  obtain ⟨-, hruns, hfollows⟩ := run_eq_perform hplan x
  cases hrun : x.run cheapWithoutCache none with
  | error cause =>
      rw [hrun] at hmembers
      cases hmembers
  | ok e =>
      obtain ⟨b, -, hb, -⟩ := hruns.1 ⟨e, hrun⟩
      rw [hrun] at hmembers
      exact ⟨hplan, by decide, e, b, rfl, hb, hfollows e b hrun hb, Option.some.inj hmembers⟩

example : cheapWithoutCache.levels.length = 4 := by
  decide +kernel

end Executor

end VectorQuery
