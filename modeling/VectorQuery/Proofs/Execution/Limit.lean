/-
# A limit cuts off the result of a plan only

A plan with a limit has the operations of the plan without, but for its last one, which collects the
best entities in place of all.  No operation reads what is collected, so the plan runs to its end
where the other does, and only its result and the last step of its trace are different
(`Plan.Cuts.run`).
-/
import VectorQuery.Execution.Basic
import VectorQuery.Proofs.Execution.Order
import VectorQuery.Proofs.ScoredSet

namespace VectorQuery

/-! ## Traces -/

namespace OrderedMap

variable {β : Type}

/-- The entry of the greatest key is the last one. -/
theorem entries_eq_concat {m : OrderedMap Nat β} {n : Nat} {v : β} (hv : m.get? n = some v)
    (hle : ∀ e ∈ m.entries, e.1 ≤ n) :
    m.entries = (m.filter fun i _ => i ≠ n).entries ++ [(n, v)] := by
  have hlist : ∀ l : List (Nat × β), (l.Pairwise fun a b => compare a.1 b.1 = .lt) →
      (n, v) ∈ l → (∀ e ∈ l, e.1 ≤ n) → l = (l.filter fun e => e.1 ≠ n) ++ [(n, v)] := by
    intro l hl hmem hle
    induction l with
    | nil => cases hmem
    | cons e l ih =>
        rw [List.pairwise_cons] at hl
        by_cases he : e.1 = n
        · -- nothing comes after the greatest key
          have hnil : l = [] := List.eq_nil_iff_forall_not_mem.2 fun e' he' => by
            have hlt := Nat.compare_eq_lt.1 (hl.1 e' he')
            have hle' := hle e' (List.mem_cons_of_mem _ he')
            omega
          subst hnil
          rw [← List.mem_singleton.1 hmem, List.filter_cons_of_neg (by simp), List.filter_nil]
          rfl
        · rw [List.filter_cons_of_pos (by simpa using he), List.cons_append,
            ← ih hl.2 ((List.mem_cons.1 hmem).resolve_left fun h => he (by rw [← h]))
              fun e' he' => hle e' (List.mem_cons_of_mem _ he')]
  exact hlist m.entries m.ascending ((get?_eq_some_iff m n v).1 hv) hle

end OrderedMap

/-- The traces are alike but for their last steps. -/
structure Trace.EndsApart (t t' : Trace) : Prop where
  length : t'.steps.length = t.steps.length
  steps : t'.steps.dropLast = t.steps.dropLast
  notes : t'.notes = t.notes
  warnings : t'.warnings = t.warnings

/-- The second execution collects the best `k` of the entities that the first one does, as `v`, and
everything else is as in the first, but for the end of the trace. -/
structure Execution.Cuts (k : Nat) (v : Variable) (e e' : Execution) : Prop where
  result : e'.result = e.result.top k
  values : ∀ w, w ≠ v → e'.bindings.value? w = e.bindings.value? w
  optimization : e'.optimization = e.optimization
  trace : e.trace.EndsApart e'.trace

namespace Progress

/-- After the same operations, the second plan has bound at most `k` entities to its result `v`, and
everything else is as in the first, but for the step of the `n`-th operation, the last one. -/
structure Cuts (k n : Nat) (v : Variable) (p p' : Progress) : Prop where
  values : ∀ w, w ≠ v → p'.bindings.value? w = p.bindings.value? w
  result : p'.bindings.value? v = (p.bindings.value? v).map (·.top k)
  optimizations : p'.optimizations = p.optimizations
  notes : p'.notes = p.notes
  warnings : p'.warnings = p.warnings
  steps : ∀ i, i ≠ n → p'.steps.get? i = p.steps.get? i
  ended : (p'.steps.get? n).isSome = (p.steps.get? n).isSome
  within : ∀ i, n < i → p.steps.get? i = none

variable {k n : Nat} {v : Variable} {p p' : Progress}

theorem cuts_start (k n : Nat) (v : Variable) : Cuts k n v start start where
  values _ _ := rfl
  result := rfl
  optimizations := rfl
  notes := rfl
  warnings := rfl
  steps _ _ := rfl
  ended := rfl
  within _ _ := rfl

theorem Cuts.trace (h : Cuts k n v p p') : p.trace.EndsApart p'.trace := by
  have hfilter : (p'.steps.filter fun i _ => i ≠ n) = p.steps.filter fun i _ => i ≠ n := by
    refine OrderedMap.ext_get? fun i => ?_
    rw [OrderedMap.get?_filter, OrderedMap.get?_filter]
    by_cases hi : i = n
    · simp [hi]
    · rw [h.steps i hi]
  have hle : ∀ q : Progress, (∀ i, n < i → q.steps.get? i = none) →
      ∀ e ∈ q.steps.entries, e.1 ≤ n := by
    intro q hq e he
    refine Nat.le_of_not_lt fun hlt => ?_
    have hget := (OrderedMap.get?_eq_some_iff q.steps e.1 e.2).2 he
    rw [hq e.1 hlt] at hget
    cases hget
  have hle' := hle p' fun i hi => (h.steps i (Nat.ne_of_gt hi)).trans (h.within i hi)
  have hended := h.ended
  suffices p'.steps.values.length = p.steps.values.length ∧
      p'.steps.values.dropLast = p.steps.values.dropLast from
    ⟨this.1, this.2, h.notes, h.warnings⟩
  cases hs : p.steps.get? n with
  | none =>
      rw [hs] at hended
      have hsame : p'.steps = p.steps := by
        refine OrderedMap.ext_get? fun i => ?_
        by_cases hi : i = n
        · rw [hi, hs]
          exact Option.not_isSome_iff_eq_none.1 (by rw [hended]; exact Bool.false_ne_true)
        · exact h.steps i hi
      rw [hsame]
      exact ⟨rfl, rfl⟩
  | some s =>
      rw [hs] at hended
      obtain ⟨s', hs'⟩ := Option.isSome_iff_exists.1 hended
      unfold OrderedMap.values
      rw [OrderedMap.entries_eq_concat hs (hle p h.within), OrderedMap.entries_eq_concat hs' hle',
        hfilter]
      simp

/-- An operation before the last one, run on the same values. -/
theorem Cuts.commit (h : Cuts k n v p p') {i : Nat} (hi : i < n) {op : Operation}
    (hop : op.output ≠ v) (r : StepResult) : Cuts k n v (p.commit i op r) (p'.commit i op r) where
  values := by
    intro w hw
    unfold Progress.commit
    rw [Bindings.value?_bind, Bindings.value?_bind, h.values w hw]
  result := by
    unfold Progress.commit
    rw [Bindings.value?_bind, Bindings.value?_bind, if_neg hop.symm, if_neg hop.symm, h.result]
  optimizations := congrArg (_ ++ ·) h.optimizations
  notes := congrArg (· ++ _) h.notes
  warnings := congrArg (· ++ _) h.warnings
  steps := by
    intro j hj
    unfold Progress.commit
    rw [OrderedMap.get?_insert, OrderedMap.get?_insert, h.steps j hj]
  ended := by
    unfold Progress.commit
    rw [OrderedMap.get?_insert, OrderedMap.get?_insert]
    split
    · rfl
    · exact h.ended
  within := by
    intro j hj
    unfold Progress.commit
    rw [OrderedMap.get?_insert, if_neg, h.within j hj]
    rw [Nat.compare_eq_eq]
    omega

/-- The last operation, which collects. -/
theorem Cuts.commit_last (h : Cuts k n v p p') {op op' : Operation} (hop : op.output = v)
    (hop' : op'.output = v) (set : ScoredSet Single) :
    Cuts k n v (p.commit n op (.ofSet set)) (p'.commit n op' (.ofSet (set.top k))) where
  values := by
    intro w hw
    unfold Progress.commit
    rw [Bindings.value?_bind, Bindings.value?_bind, if_neg (hop' ▸ hw), if_neg (hop ▸ hw),
      h.values w hw]
  result := by
    unfold Progress.commit
    rw [Bindings.value?_bind, Bindings.value?_bind, if_pos hop'.symm, if_pos hop.symm]
    rfl
  optimizations := h.optimizations
  notes := congrArg (· ++ []) h.notes
  warnings := congrArg (· ++ []) h.warnings
  steps := by
    intro j hj
    unfold Progress.commit
    have hne : ¬ compare j n = .eq := fun heq => hj (Nat.compare_eq_eq.1 heq)
    rw [OrderedMap.get?_insert, OrderedMap.get?_insert, if_neg hne, if_neg hne, h.steps j hj]
  ended := by
    unfold Progress.commit
    have heq : compare n n = .eq := Nat.compare_eq_eq.2 rfl
    rw [OrderedMap.get?_insert, OrderedMap.get?_insert, if_pos heq, if_pos heq]
    rfl
  within := by
    intro j hj
    unfold Progress.commit
    rw [OrderedMap.get?_insert, if_neg, h.within j hj]
    rw [Nat.compare_eq_eq]
    omega

end Progress

/-! ## Collecting -/

namespace Executor

variable {x : Executor} {op : Operation} {value? : Variable → Option (ScoredSet Single)}

theorem value?_of_input {n : Nat} {set : ScoredSet Single} (h : input value? op n = .ok set) :
    ∃ v, op.inputs[n]? = some v ∧ value? v = some set := by
  unfold input at h
  split at h
  · cases h
  · rename_i v hv
    split at h
    · rename_i found hfound
      cases h
      exact ⟨v, hv, hfound⟩
    · cases h

/-- What is collected is the first input. -/
theorem step_collect {topK : Option Nat} (h : op.action = .collect topK) :
    x.step value? op = (input value? op 0).map fun set => .ofSet (topK.elim set set.top) := by
  unfold step
  rw [h]
  dsimp only
  cases input value? op 0 with
  | error cause => rfl
  | ok set => cases topK <;> rfl

end Executor

/-! ## Plans with and without a limit -/

namespace Plan

/-- The second plan collects at most `k` entities where the first one collects all. -/
structure Cuts (k : Nat) (ops : List Operation) (last last' : Operation) (p p' : Plan) : Prop where
  unlimited : p.operations = ops ++ [last]
  limited : p' = { p with operations := ops ++ [last'] }
  collects : last.action = .collect none
  collects' : last'.action = .collect (some k)
  inputs : last'.inputs = last.inputs
  output : last.output = p.result
  output' : last'.output = p.result
  numbered : Numbered p.operations
  unread : ∀ op ∈ p.operations, p.result ∉ op.inputs

variable {k : Nat} {ops : List Operation} {last last' : Operation} {p p' : Plan}

section

variable (h : Cuts k ops last last' p p')

include h

theorem Cuts.mem_last : last ∈ p.operations := by
  rw [h.unlimited]
  exact List.mem_append_right _ (List.mem_singleton_self last)

theorem Cuts.result_eq : p'.result = p.result := by rw [h.limited]

theorem Cuts.operations_eq : p'.operations = ops ++ [last'] := by rw [h.limited]

/-- Only the last operation writes the result. -/
theorem Cuts.unwritten : ∀ op ∈ ops, op.output ≠ p.result := by
  intro op hop heq
  obtain ⟨i, hi⟩ := List.getElem?_of_mem hop
  have hlt : i < ops.length := (List.getElem?_eq_some_iff.1 hi).1
  have hout := h.numbered i op (by rw [h.unlimited, List.getElem?_append_left hlt, hi])
  have hlast := h.numbered ops.length last (by rw [h.unlimited, List.getElem?_concat_length])
  rw [heq, ← h.output, hlast] at hout
  cases hout
  exact Nat.lt_irrefl _ hlt

theorem Cuts.operation?_result : p.operation? p.result = some last ∧
    p'.operation? p'.result = some last' := by
  have hnone : ops.find? (·.output = p.result) = none :=
    List.find?_eq_none.2 fun op hop => by simpa using h.unwritten op hop
  unfold operation?
  rw [h.result_eq, h.operations_eq, h.unlimited, List.find?_append, List.find?_append, hnone,
    List.find?_singleton, List.find?_singleton, h.output, h.output']
  simp

theorem Cuts.operation?_eq {v : Variable} (hv : v ≠ p.result) :
    p'.operation? v = p.operation? v := by
  unfold operation?
  rw [h.operations_eq, h.unlimited, List.find?_append, List.find?_append, List.find?_singleton,
    List.find?_singleton, h.output, h.output', if_neg (by simpa using hv.symm),
    if_neg (by simpa using hv.symm)]

theorem Cuts.root?_eq : p'.root? = p.root? := by
  obtain ⟨hlast, hlast'⟩ := h.operation?_result
  unfold root?
  rw [hlast, hlast']
  exact congrArg List.head? h.inputs

theorem Cuts.root_ne {v : Variable} (hv : p.root? = some v) : v ≠ p.result := by
  rintro rfl
  unfold root? at hv
  rw [h.operation?_result.1] at hv
  exact h.unread last h.mem_last (List.mem_of_head? hv)

end

theorem depths_concat (known : List (Variable × Nat)) (ops : List Operation) (op : Operation) :
    ∃ d, ∀ op' : Operation, op'.inputs = op.inputs →
      depths known (ops ++ [op']) = depths known ops ++ [d] := by
  induction ops generalizing known with
  | nil =>
      refine ⟨depthIn known op, fun op' h => ?_⟩
      change [depthIn known op'] = [depthIn known op]
      unfold depthIn
      rw [h]
  | cons o ops ih =>
      obtain ⟨d, hd⟩ := ih ((o.output, depthIn known o) :: known)
      refine ⟨d, fun op' h => ?_⟩
      rw [List.cons_append, depths, depths, hd op' h]
      rfl

theorem Cuts.levels (h : Cuts k ops last last' p p') : p'.levels = p.levels := by
  obtain ⟨d, hd⟩ := depths_concat [] ops last
  unfold Plan.levels
  rw [h.limited, h.unlimited]
  dsimp only
  rw [hd last rfl, hd last' h.inputs]

section

variable {x : Executor} {limit : Option Nat} {q q' r r' s : Progress} {i : Nat}

/-- The values of the two plans, apart from their results. -/
theorem Cuts.value? (h : Cuts k ops last last' p p')
    (hq : Progress.Cuts k ops.length p.result q q') {op : Operation} (hop : op ∈ p.operations) :
    ∀ v ∈ op.inputs, ∀ set, q.bindings.value? v = some set → q'.bindings.value? v = some set := by
  intro v hv set hset
  rw [hq.values v fun heq => h.unread op hop (heq ▸ hv), hset]

/-- Collecting at most `k` entities in place of all. -/
theorem Cuts.step_last (h : Cuts k ops last last' p p')
    (hq : Progress.Cuts k ops.length p.result q q') {res : StepResult}
    (hres : x.step q.bindings.value? last = .ok res) :
    ∃ set, res = .ofSet set ∧ x.step q'.bindings.value? last' = .ok (.ofSet (set.top k)) := by
  rw [Executor.step_collect h.collects] at hres
  obtain ⟨set, hset, rfl⟩ := ok_of_map hres
  have hset := Executor.input_mono (h.value? hq h.mem_last) hset
  have hset' : Executor.input q'.bindings.value? last' 0 = .ok set := by
    unfold Executor.input at hset ⊢
    rw [h.inputs]
    split at hset
    · cases hset
    · exact hset
  refine ⟨set, rfl, ?_⟩
  rw [Executor.step_collect h.collects', hset']
  rfl

/-- Where an operation of the plan without a limit succeeds, that of the other plan does. -/
theorem Cuts.runOperation (h : Cuts k ops last last' p p')
    (hq : Progress.Cuts k ops.length p.result q q') (hr : Progress.Cuts k ops.length p.result r r')
    (hrun : x.runOperation limit q.bindings p.operations r i = .ok s) :
    ∃ s', x.runOperation limit q'.bindings p'.operations r' i = .ok s' ∧
      Progress.Cuts k ops.length p.result s s' := by
  have hreads : ∀ op ∈ p.operations, ∀ v ∈ op.inputs, ∀ set, q.bindings.value? v = some set →
      q'.bindings.value? v = some set := fun _ => h.value? hq
  unfold Executor.runOperation at hrun ⊢
  rw [h.unlimited] at hrun hreads
  rw [h.operations_eq]
  rcases Nat.lt_trichotomy i ops.length with hi | rfl | hi
  · obtain ⟨op, hop⟩ : ∃ op, ops[i]? = some op := ⟨_, List.getElem?_eq_getElem hi⟩
    have hmem := List.mem_of_getElem? hop
    rw [List.getElem?_append_left hi, hop] at hrun ⊢
    dsimp only at hrun ⊢
    split at hrun
    · cases hrun
    · rename_i htime
      rw [if_neg htime]
      split at hrun
      · rename_i res hres
        cases hrun
        rw [Executor.step_mono (hreads op (List.mem_append_left _ hmem)) hres]
        exact ⟨_, rfl, hr.commit hi (h.unwritten op hmem) res⟩
      · cases hrun
  · rw [List.getElem?_concat_length] at hrun ⊢
    dsimp only at hrun ⊢
    split at hrun
    · cases hrun
    · rename_i htime
      rw [if_neg htime]
      split at hrun
      · rename_i res hres
        cases hrun
        obtain ⟨set, rfl, hstep⟩ := h.step_last hq hres
        rw [hstep]
        exact ⟨_, rfl, hr.commit_last h.output h.output' set⟩
      · cases hrun
  · have hlen : ∀ o : Operation, (ops ++ [o])[i]? = none := fun o =>
      List.getElem?_eq_none (by rw [List.length_append, List.length_singleton]; exact hi)
    rw [hlen] at hrun ⊢
    cases hrun
    exact ⟨r', rfl, hr⟩

theorem Cuts.runLevel (h : Cuts k ops last last' p p')
    (hr : Progress.Cuts k ops.length p.result r r') {level : List Nat} (hlevel : level ∈ p.levels)
    (hrun : x.runLevel limit p.operations r level = .ok s) :
    ∃ s', x.runLevel limit p'.operations r' level = .ok s' ∧
      Progress.Cuts k ops.length p.result s s' := by
  have hsorted := pairwise_level hlevel
  rw [Executor.runLevel_eq x limit _ r hsorted] at hrun
  rw [Executor.runLevel_eq x limit _ r' hsorted]
  exact foldlM_follows hr hrun fun _ _ _ _ _ ht hop => h.runOperation hr ht hop

/-- Where the plan without a limit runs, the other plan runs and cuts off its result. -/
theorem Cuts.run (h : Cuts k ops last last' p p') {e : Execution}
    (hrun : x.run p limit = .ok e) :
    ∃ e', x.run p' limit = .ok e' ∧ e.Cuts k p.result e' := by
  obtain ⟨q, hq, hend⟩ := ok_of_bind hrun
  obtain ⟨q', hq', hcuts⟩ := foldlM_follows (Progress.cuts_start k ops.length p.result) hq
    fun _ hlevel _ _ _ hr hrun => h.runLevel hr hlevel hrun
  split at hend
  · cases hend
  · rename_i result hvalue
    cases hend
    have hvalue' : q'.bindings.value? p'.result = some (result.top k) := by
      rw [h.result_eq, hcuts.result, hvalue]
      rfl
    refine ⟨⟨result.top k, q'.bindings, p'.root? >>= fun v => List.lookup v q'.optimizations,
      q'.trace⟩, ?_, rfl, hcuts.values, ?_, hcuts.trace⟩
    · unfold Executor.run
      rw [h.levels, hq']
      simp only [bind, Except.bind, hvalue']
    · dsimp only
      rw [h.root?_eq, hcuts.optimizations]

/-- What is collected is bound. -/
theorem Cuts.root_bound (h : Cuts k ops last last' p p') {e : Execution}
    (hrun : x.run p limit = .ok e) : ∃ set, p.root? >>= e.bindings.value? = some set := by
  obtain ⟨res, hres, -⟩ := (Executor.solves_of_run h.numbered.nodup hrun).1 last h.mem_last
  rw [Executor.step_collect h.collects] at hres
  obtain ⟨set, hset, -⟩ := ok_of_map hres
  obtain ⟨v, hv, hvalue⟩ := Executor.value?_of_input hset
  unfold root?
  rw [h.operation?_result.1]
  change ∃ set, last.inputs.head? >>= e.bindings.value? = some set
  rw [List.head?_eq_getElem?, hv]
  exact ⟨set, hvalue⟩

end

end Plan

end VectorQuery
