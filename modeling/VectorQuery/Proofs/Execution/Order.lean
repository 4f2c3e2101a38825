/-
# The order in which a plan runs

A plan runs level by level.  In whatever order the operations of a level run, they bind what they
would bind in the order of the plan (`runLevel_eq`).  When the operations of a plan bind different
variables, what they bind in the end is a solution of the plan: each variable has the value that its
operation computes from the values of the others (`solves_of_run`).  A plan whose operations succeed
one after the other also succeeds level by level (`run_of_perform`), since an operation that is read
stands on a lower level than the one that reads it.
-/
import Mathlib.Data.List.Nodup
import VectorQuery.Execution.Basic
import VectorQuery.Proofs.Failure

namespace VectorQuery

/-! ## Bindings -/

namespace Bindings

@[simp] theorem value?_nil (v : Variable) : value? [] v = none := rfl

theorem value?_bind (b : Bindings) (v w : Variable) (set : ScoredSet Single) :
    (b.bind v set).value? w = if w = v then some set else b.value? w := by
  have hfilter : ∀ b : Bindings, w ≠ v →
      List.lookup w (List.filter (fun e => e.1 ≠ v) b) = List.lookup w b := by
    intro b hw
    induction b with
    | nil => rfl
    | cons e b ih =>
        obtain ⟨u, s⟩ := e
        by_cases hu : u = v
        · rw [List.filter_cons_of_neg (by simp [hu]), ih, List.lookup_cons, hu,
            beq_eq_false_iff_ne.2 hw]
        · rw [List.filter_cons_of_pos (by simp [hu]), List.lookup_cons, List.lookup_cons, ih]
  by_cases hw : w = v
  · subst hw
    simp [bind, value?]
  · rw [if_neg hw, value?, bind, List.lookup_cons, beq_eq_false_iff_ne.2 hw]
    exact hfilter b hw

/-- Whatever is bound stays bound to the same value. -/
def Within (b b' : Bindings) : Prop := ∀ v s, b.value? v = some s → b'.value? v = some s

theorem Within.refl (b : Bindings) : b.Within b := fun _ _ h => h

theorem Within.trans {a b c : Bindings} (hab : a.Within b) (hbc : b.Within c) : a.Within c :=
  fun v s h => hbc v s (hab v s h)

theorem within_bind {b : Bindings} {v : Variable} (hv : b.value? v = none)
    (set : ScoredSet Single) : b.Within (b.bind v set) := by
  intro w s h
  rw [value?_bind]
  split
  · rename_i hw
    rw [hw, hv] at h
    cases h
  · exact h

end Bindings

/-! ## One operation -/

namespace Executor

variable {x : Executor} {op : Operation} {f g : Variable → Option (ScoredSet Single)}

theorem input_mono (hfg : ∀ v ∈ op.inputs, ∀ s, f v = some s → g v = some s) {n : Nat}
    {s : ScoredSet Single} (h : input f op n = .ok s) : input g op n = .ok s := by
  unfold input at h ⊢
  cases hv : op.inputs[n]? with
  | none =>
      rw [hv] at h
      cases h
  | some v =>
      rw [hv] at h
      cases hf : f v with
      | none =>
          simp only [hf] at h
          cases h
      | some t =>
          simp only [hf] at h
          simp only [hfg v (List.mem_of_getElem? hv) t hf]
          exact h

/-- An operation does not depend on values that it does not read. -/
theorem step_mono (hfg : ∀ v ∈ op.inputs, ∀ s, f v = some s → g v = some s) {r : StepResult}
    (h : x.step f op = .ok r) : x.step g op = .ok r := by
  have one : ∀ {n : Nat} {k : ScoredSet Single → Except ExecutionError StepResult},
      input f op n >>= k = .ok r → input g op n >>= k = .ok r := by
    intro n k h
    obtain ⟨a, ha, h⟩ := ok_of_bind h
    rw [input_mono hfg ha]
    exact h
  have two : ∀ {n m : Nat} {k : ScoredSet Single → ScoredSet Single → Except ExecutionError StepResult},
      (input f op n >>= fun a => input f op m >>= k a) = .ok r →
        (input g op n >>= fun a => input g op m >>= k a) = .ok r := by
    intro n m k h
    obtain ⟨a, ha, h⟩ := ok_of_bind h
    obtain ⟨b, hb, h⟩ := ok_of_bind h
    rw [input_mono hfg ha]
    change input g op m >>= k a = .ok r
    rw [input_mono hfg hb]
    exact h
  unfold step at h ⊢
  split at h
  · exact h
  · exact h
  · exact one h
  · exact two h
  · dsimp only at h ⊢
    split at h
    · rename_i hlen
      rw [if_pos hlen]
      obtain ⟨c, hc, h⟩ := ok_of_bind h
      obtain ⟨b, hb, rfl⟩ := ok_of_map hc
      rw [input_mono hfg hb]
      exact one h
    · rename_i hlen
      rw [if_neg hlen]
      exact one h
  · exact two h
  · exact two h
  · exact two h
  · obtain ⟨a, ha, h⟩ := ok_of_bind h
    simp only [input_mono hfg ha]
    exact two h
  · exact one h
  · exact one h

/-! ## Operations one after the other -/

/-- The bindings after operations, run one after the other. -/
def perform (x : Executor) (b : Bindings) (ops : List Operation) :
    Except ExecutionError Bindings :=
  ops.foldlM (fun b op => do
    let r ← x.step b.value? op
    .ok (b.bind op.output r.set)) b

/-- Each operation's output has the value that it computes from its inputs. -/
def Solves (x : Executor) (b : Bindings) (ops : List Operation) : Prop :=
  ∀ op ∈ ops, ∃ r, x.step b.value? op = .ok r ∧ b.value? op.output = some r.set

end Executor

/-- The operations bind the variables from the first on. -/
def Numbered (ops : List Operation) : Prop :=
  ∀ (i : Nat) (op : Operation), ops[i]? = some op → op.output = .numbered (i + 1)

/-- What holds of each item where it stands holds with one more item. -/
theorem forall_concat {α : Type} {P : Nat → α → Prop} {l : List α} {a : α}
    (h : ∀ i b, l[i]? = some b → P i b) (ha : P l.length a) :
    ∀ i b, (l ++ [a])[i]? = some b → P i b := by
  intro i b hb
  rcases Nat.lt_trichotomy i l.length with hi | rfl | hi
  · rw [List.getElem?_append_left hi] at hb
    exact h i b hb
  · rw [List.getElem?_concat_length] at hb
    cases hb
    exact ha
  · rw [List.getElem?_eq_none (by simp; omega)] at hb
    cases hb

theorem Numbered.nodup {ops : List Operation} (h : Numbered ops) :
    (ops.map (·.output)).Nodup := by
  refine List.nodup_iff_getElem?_ne_getElem?.2 fun i j hij hj => ?_
  rw [List.length_map] at hj
  have hi := List.getElem?_eq_getElem (Nat.lt_trans hij hj)
  have hj := List.getElem?_eq_getElem hj
  rw [List.getElem?_map, List.getElem?_map, hi, hj]
  simp only [Option.map_some, ne_eq, Option.some.injEq, h i _ hi, h j _ hj,
    Variable.numbered.injEq]
  omega

/-- Of operations that bind different variables only one binds a given variable. -/
theorem eq_of_output {ops : List Operation} (h : (ops.map (·.output)).Nodup) {i j : Nat}
    {op o : Operation} (hop : ops[i]? = some op) (ho : ops[j]? = some o)
    (heq : op.output = o.output) : i = j := by
  obtain ⟨hi, -⟩ := List.getElem?_eq_some_iff.1 hop
  refine (List.getElem?_inj (by rwa [List.length_map]) h).1 ?_
  rw [List.getElem?_map, List.getElem?_map, hop, ho, Option.map_some, Option.map_some, heq]

namespace Plan

theorem operation?_of_mem {p : Plan} (h : Numbered p.operations) {op : Operation}
    (hop : op ∈ p.operations) : p.operation? op.output = some op := by
  unfold operation?
  cases hfind : p.operations.find? (·.output = op.output) with
  | none => exact absurd (decide_eq_true rfl) (List.find?_eq_none.1 hfind op hop)
  | some o =>
      have hout : o.output = op.output := by simpa using List.find?_some hfind
      obtain ⟨i, hi⟩ := List.getElem?_of_mem (List.mem_of_find?_eq_some hfind)
      obtain ⟨j, hj⟩ := List.getElem?_of_mem hop
      rw [h i o hi, h j op hj] at hout
      cases hout
      exact hi.symm.trans hj

end Plan

/-! ## Levels -/

namespace Plan

theorem length_depths (known : List (Variable × Nat)) (ops : List Operation) :
    (depths known ops).length = ops.length := by
  induction ops generalizing known with
  | nil => rfl
  | cons op ops ih => rw [depths, List.length_cons, List.length_cons, ih]

theorem le_foldl_max (f : Nat → Nat) (l : List Nat) (n : Nat) :
    n ≤ l.foldl (fun n k => max n (f k)) n ∧
      ∀ k ∈ l, f k ≤ l.foldl (fun n k => max n (f k)) n := by
  induction l generalizing n with
  | nil => simp
  | cons a l ih =>
      obtain ⟨hn, hl⟩ := ih (max n (f a))
      refine ⟨by rw [List.foldl_cons]; omega, ?_⟩
      intro k hk
      rw [List.foldl_cons]
      rcases List.mem_cons.1 hk with rfl | hk
      · omega
      · exact hl k hk

theorem lt_depthIn {known : List (Variable × Nat)} {op : Operation} {v : Variable} {d : Nat}
    (hv : v ∈ op.inputs) (hd : List.lookup v known = some d) : d < depthIn known op :=
  (le_foldl_max (· + 1) _ 0).2 d (List.mem_filterMap.2 ⟨v, hv, hd⟩)

/-- The depth of an operation is computed from the depths of all operations before it. -/
theorem exists_known {ops : List Operation} (hops : (ops.map (·.output)).Nodup)
    (known : List (Variable × Nat)) {i : Nat} {op : Operation} (hop : ops[i]? = some op) :
    ∃ known', (depths known ops)[i]? = some (depthIn known' op) ∧
      (∀ v, (∀ op ∈ ops, v ≠ op.output) → List.lookup v known' = List.lookup v known) ∧
      ∀ j < i, ∀ o, ops[j]? = some o →
        ∃ d, (depths known ops)[j]? = some d ∧ List.lookup o.output known' = some d := by
  induction ops generalizing known i with
  | nil => cases hop
  | cons first ops ih =>
      rw [List.map_cons, List.nodup_cons] at hops
      cases i with
      | zero =>
          cases hop
          exact ⟨known, rfl, fun _ _ => rfl, fun j hj => absurd hj (Nat.not_lt_zero j)⟩
      | succ i =>
          obtain ⟨known', hdepth, hother, hbefore⟩ :=
            ih hops.2 ((first.output, depthIn known first) :: known) hop
          have hfirst : ∀ o ∈ ops, first.output ≠ o.output := by
            intro o ho heq
            exact hops.1 (heq ▸ List.mem_map_of_mem ho)
          refine ⟨known', hdepth, ?_, ?_⟩
          · intro v hv
            rw [hother v fun o ho => hv o (List.mem_cons_of_mem _ ho), List.lookup_cons,
              beq_eq_false_iff_ne.2 (hv first List.mem_cons_self)]
          · intro j hj o ho
            cases j with
            | zero =>
                cases ho
                refine ⟨depthIn known first, rfl, ?_⟩
                rw [hother _ hfirst, List.lookup_cons, beq_self_eq_true]
            | succ j => exact hbefore j (Nat.lt_of_succ_lt_succ hj) o ho

/-- An operation stands on a lower level than one that reads it. -/
theorem depth_lt {ops : List Operation} (hops : (ops.map (·.output)).Nodup) {i j d : Nat}
    {op o : Operation} (hop : ops[i]? = some op) (ho : ops[j]? = some o) (hj : j < i)
    (hread : o.output ∈ op.inputs) (hd : (depths [] ops)[i]? = some d) :
    ∃ d' < d, (depths [] ops)[j]? = some d' := by
  obtain ⟨known, hdepth, -, hbefore⟩ := exists_known hops [] hop
  obtain ⟨d', hd', hlookup⟩ := hbefore j hj o ho
  rw [hd] at hdepth
  cases hdepth
  exact ⟨d', lt_depthIn hread hlookup, hd'⟩

variable {p : Plan}

theorem mem_level {i : Nat} {level : List Nat} {pre post : List (List Nat)}
    (h : p.levels = pre ++ level :: post) :
    i ∈ level ↔ (depths [] p.operations)[i]? = some pre.length := by
  have hget : p.levels[pre.length]? = some level := by
    rw [h, List.getElem?_append_right (Nat.le_refl _), Nat.sub_self]
    rfl
  simp only [levels, List.getElem?_map, Option.map_eq_some_iff] at hget
  obtain ⟨d, hd, rfl⟩ := hget
  rw [List.getElem?_eq_some_iff] at hd
  obtain ⟨hlen, hd⟩ := hd
  rw [List.getElem_range] at hd
  subst hd
  rw [List.mem_filter, List.mem_range, decide_eq_true_eq]
  refine ⟨And.right, fun h => ⟨?_, h⟩⟩
  exact (List.getElem?_eq_some_iff.1 h).1

/-- A level lists its operations in the order of the plan. -/
theorem pairwise_level {level : List Nat} (h : level ∈ p.levels) : level.Pairwise (· < ·) := by
  obtain ⟨d, -, rfl⟩ := List.mem_map.1 h
  exact List.pairwise_lt_range.filter _

theorem nodup_level {level : List Nat} (h : level ∈ p.levels) : level.Nodup :=
  (pairwise_level h).imp Nat.ne_of_lt

/-- No operation stands on two levels. -/
theorem nodup_levels (p : Plan) : p.levels.flatten.Nodup := by
  refine List.nodup_flatten.2 ⟨fun level => nodup_level, ?_⟩
  refine List.pairwise_map.2 (List.pairwise_lt_range.imp fun {d d'} hlt => ?_)
  intro i hi hi'
  have hdepth := of_decide_eq_true (List.mem_filter.1 hi).2
  rw [of_decide_eq_true (List.mem_filter.1 hi').2, Option.some.injEq] at hdepth
  exact absurd hdepth (Nat.ne_of_gt hlt)

/-- An operation runs once, after those on lower levels and those before it on its own. -/
theorem not_mem_of_level {i : Nat} {lower upper : List (List Nat)} {level done rest : List Nat}
    (h : p.levels = lower ++ level :: upper) (hlevel : level = done ++ i :: rest) :
    i ∉ lower.flatten ++ done := by
  intro hmem
  have hnodup := p.nodup_levels
  rw [h, hlevel, List.flatten_append, List.flatten_cons, List.append_assoc, ← List.append_assoc,
    List.cons_append] at hnodup
  exact List.disjoint_of_nodup_append hnodup hmem List.mem_cons_self

/-- The lower levels hold the operations of less depth. -/
theorem mem_lower {i : Nat} {pre post : List (List Nat)} (h : p.levels = pre ++ post) :
    i ∈ pre.flatten ↔ ∃ d < pre.length, (depths [] p.operations)[i]? = some d := by
  rw [List.mem_flatten]
  constructor
  · rintro ⟨level, hlevel, hi⟩
    obtain ⟨before, after, rfl⟩ := List.append_of_mem hlevel
    rw [List.append_assoc] at h
    refine ⟨before.length, ?_, (mem_level h).1 hi⟩
    rw [List.length_append, List.length_cons]
    omega
  · rintro ⟨d, hd, hi⟩
    refine ⟨pre[d], List.getElem_mem hd, ?_⟩
    have hsplit : p.levels = pre.take d ++ pre[d] :: (pre.drop (d + 1) ++ post) := by
      rw [h, ← List.cons_append, ← List.append_assoc, List.getElem_cons_drop, List.take_append_drop]
    refine (mem_level hsplit).2 ?_
    rw [hi, List.length_take, Nat.min_eq_left (Nat.le_of_lt hd)]

/-- Every operation stands on a level. -/
theorem mem_levels {i : Nat} {op : Operation} (h : p.operations[i]? = some op) :
    i ∈ p.levels.flatten := by
  obtain ⟨hi, -⟩ := List.getElem?_eq_some_iff.1 h
  have hlen : i < (depths [] p.operations).length := by
    rw [length_depths]
    exact hi
  refine (mem_lower (List.append_nil _).symm).2
    ⟨(depths [] p.operations)[i], ?_, List.getElem?_eq_getElem hlen⟩
  rw [levels, List.length_map, List.length_range]
  exact (le_foldl_max (· + 1) _ 0).2 _ (List.getElem_mem hlen)

theorem exists_of_mem_level {i : Nat} {level : List Nat} {pre post : List (List Nat)}
    (h : p.levels = pre ++ level :: post) (hi : i ∈ level) : ∃ op, p.operations[i]? = some op := by
  have hlen := (List.getElem?_eq_some_iff.1 ((mem_level h).1 hi)).1
  rw [length_depths] at hlen
  exact ⟨_, List.getElem?_eq_getElem hlen⟩

/-- What an operation reads is the output of an operation on a lower level. -/
theorem mem_lower_of_read (hplan : (p.operations.map (·.output)).Nodup) {i j : Nat}
    {level : List Nat} {pre post : List (List Nat)} (h : p.levels = pre ++ level :: post)
    (hi : i ∈ level) {op o : Operation} (hop : p.operations[i]? = some op) (hj : j < i)
    (ho : p.operations[j]? = some o) (hread : o.output ∈ op.inputs) : j ∈ pre.flatten := by
  obtain ⟨d, hd, hdepth⟩ := depth_lt hplan hop ho hj hread ((mem_level h).1 hi)
  exact (mem_lower h).2 ⟨d, hd, hdepth⟩

end Plan

namespace Executor

variable {ops : List Operation}

/-! ## The operations of a level -/

/-- Runs an operation on the values bound before its level, and binds what it computed. -/
def runOperation (x : Executor) (limit : Option Nat) (before : Bindings)
    (operations : List Operation)
    (p : Progress) (index : Nat) : Except Interruption Progress :=
  match operations[index]? with
  | none => .ok p
  | some op =>
    if expired limit then .error (.timeout (limit.getD 0) (expiredBefore p op))
    else
      match x.step before.value? op with
      | .ok r => .ok (p.commit index op r)
      | .error e => .error (.failed e)

theorem runOperation_of_some (x : Executor) (limit : Option Nat) (before : Bindings) (p : Progress)
    {i : Nat} {op : Operation} (h : ops[i]? = some op) :
    x.runOperation limit before ops p i = settle limit p i op (x.attempt limit before op) := by
  unfold runOperation attempt
  rw [h]
  dsimp only
  split
  · rfl
  · cases x.step before.value? op <;> rfl

/-- Every operation of a level runs once. -/
theorem schedule_perm (x : Executor) (ops : List Operation) (level : List Nat) :
    (x.schedule ops level).Perm level := by
  unfold schedule
  rw [List.partition_eq_filter_filter]
  dsimp only
  split
  · exact List.filter_append_perm _ level
  · exact .refl level

/-- What the operations of a level come to is listed in the order of the plan. -/
theorem entries_attempts (x : Executor) (limit : Option Nat) (before : Bindings)
    {level : List Nat} (h : level.Pairwise (· < ·)) :
    (x.attempts limit ops before level).entries =
      level.filterMap fun i => ops[i]?.map fun op => (i, op, x.attempt limit before op) := by
  have hindex : ∀ {i : Nat} {e : Nat × Operation × Except Halt StepResult},
      (ops[i]?.map fun op => (i, op, x.attempt limit before op)) = some e → e.1 = i := by
    intro i e he
    obtain ⟨op, -, rfl⟩ := Option.map_eq_some_iff.1 he
    rfl
  have hperm := x.schedule_perm ops level
  have hdifferent : ((x.schedule ops level).filterMap fun i =>
      ops[i]?.map fun op => (i, op, x.attempt limit before op)).Pairwise fun a b => a.1 ≠ b.1 := by
    have hnodup := hperm.nodup_iff.2 (h.imp Nat.ne_of_lt)
    refine List.Pairwise.filterMap _ (fun i j hne a ha b hb => ?_) hnodup
    rwa [hindex ha, hindex hb]
  refine OrderedMap.entries_eq_of_mem_iff (OrderedMap.ascending _) ?_ fun e => ?_
  · refine List.Pairwise.filterMap _ (fun i j hlt a ha b hb => ?_) h
    rw [hindex ha, hindex hb]
    exact Nat.compare_eq_lt.2 hlt
  · exact (OrderedMap.mem_entries_ofList hdifferent).trans (hperm.filterMap _).mem_iff

/-- The operations of a level bind what they would bind if each was run and bound in the order of
the plan. -/
theorem runLevel_eq (x : Executor) (limit : Option Nat) (ops : List Operation) (p : Progress)
    {level : List Nat} (h : level.Pairwise (· < ·)) :
    x.runLevel limit ops p level = level.foldlM (x.runOperation limit p.bindings ops) p := by
  unfold runLevel
  rw [entries_attempts x limit p.bindings h, List.foldlM_filterMap]
  congr 1
  funext q i
  cases hop : ops[i]? with
  | none =>
      unfold runOperation
      rw [hop]
      rfl
  | some op => exact (x.runOperation_of_some limit p.bindings q hop).symm

/-! ## What has been bound -/

/-- What is bound when the operations of the indexes `done` have been run. -/
structure Reached (x : Executor) (ops : List Operation) (done : List Nat) (b : Bindings) :
    Prop where
  bound : ∀ v s, b.value? v = some s → ∃ i ∈ done, ∃ op, ops[i]? = some op ∧ op.output = v
  solved : ∀ i ∈ done, ∀ op, ops[i]? = some op →
    ∃ r, x.step b.value? op = .ok r ∧ b.value? op.output = some r.set

theorem reached_start (x : Executor) (ops : List Operation) : Reached x ops [] [] where
  bound := by
    rintro v s ⟨⟩
  solved := by
    rintro i ⟨⟩

/-- One more operation, run on values bound before. -/
theorem Reached.next (hops : (ops.map (·.output)).Nodup) {done : List Nat} {b before : Bindings}
    (h : Reached x ops done b) (hb : before.Within b) {i : Nat} (hi : i ∉ done)
    (hop : ops[i]? = some op) {r : StepResult} (hr : x.step before.value? op = .ok r) :
    Reached x ops (done ++ [i]) (b.bind op.output r.set) ∧
      b.Within (b.bind op.output r.set) := by
  have hnone : b.value? op.output = none := by
    cases hv : b.value? op.output with
    | none => rfl
    | some s =>
        obtain ⟨j, hj, o, ho, hout⟩ := h.bound _ s hv
        rw [eq_of_output hops ho hop hout] at hj
        exact absurd hj hi
  have hwithin := Bindings.within_bind hnone r.set
  refine ⟨⟨?_, ?_⟩, hwithin⟩
  · intro v s hv
    rw [Bindings.value?_bind] at hv
    split at hv
    · rename_i hout
      exact ⟨i, by simp, op, hop, hout.symm⟩
    · obtain ⟨j, hj, hout⟩ := h.bound v s hv
      exact ⟨j, by simp [hj], hout⟩
  · intro j hj op' hop'
    rcases List.mem_append.1 hj with hj | hj
    · obtain ⟨r', hr', hout⟩ := h.solved j hj op' hop'
      exact ⟨r', step_mono (fun v _ => hwithin v) hr', hwithin _ _ hout⟩
    · cases List.mem_singleton.1 hj
      rw [hop] at hop'
      cases hop'
      refine ⟨r, step_mono (fun v _ s hs => hwithin v s (hb v s hs)) hr, ?_⟩
      rw [Bindings.value?_bind, if_pos rfl]

/-! ## Level by level -/

variable {x : Executor} {plan : Plan} {limit : Option Nat}

/-- What running an operation binds, if it succeeds. -/
theorem commit_of_runOperation {before : Bindings} {p p' : Progress} {i : Nat}
    (hop : ops[i]? = some op) (h : x.runOperation limit before ops p i = .ok p') :
    ∃ r, x.step before.value? op = .ok r ∧ p'.bindings = p.bindings.bind op.output r.set := by
  unfold runOperation at h
  rw [hop] at h
  dsimp only at h
  split at h
  · cases h
  · split at h
    · rename_i r hr
      cases h
      exact ⟨r, hr, rfl⟩
    · cases h

/-- The values that a level reads are those bound before it. -/
theorem reached_runLevel (hplan : (plan.operations.map (·.output)).Nodup)
    {lower upper : List (List Nat)} {level : List Nat}
    (hlevels : plan.levels = lower ++ level :: upper) {p p' : Progress}
    (hp : Reached x plan.operations lower.flatten p.bindings)
    (h : x.runLevel limit plan.operations p level = .ok p') :
    Reached x plan.operations (lower.flatten ++ level) p'.bindings := by
  rw [runLevel_eq x limit _ p (Plan.pairwise_level (p := plan) (by simp [hlevels]))] at h
  refine (foldlM_induction (fun done q =>
    Reached x plan.operations (lower.flatten ++ done) q.bindings ∧
      p.bindings.Within q.bindings) ?_ ⟨by rwa [List.append_nil], .refl _⟩ h).1
  intro done i rest q q' hsplit ⟨hq, hwithin⟩ hrun
  have hi : i ∈ level := by simp [hsplit]
  obtain ⟨op, hop⟩ := Plan.exists_of_mem_level hlevels hi
  obtain ⟨r, hr, hbind⟩ := commit_of_runOperation hop hrun
  obtain ⟨hnext, hlater⟩ :=
    hq.next hplan hwithin (Plan.not_mem_of_level hlevels hsplit) hop hr
  rw [hbind, ← List.append_assoc]
  exact ⟨hnext, hwithin.trans hlater⟩

/-- What a plan binds in the end is a solution of its operations. -/
theorem solves_of_run (hplan : (plan.operations.map (·.output)).Nodup) {e : Execution}
    (h : x.run plan limit = .ok e) :
    x.Solves e.bindings plan.operations ∧ e.bindings.value? plan.result = some e.result := by
  obtain ⟨p, hp, h⟩ := ok_of_bind h
  have hreached : Reached x plan.operations plan.levels.flatten p.bindings := by
    refine foldlM_induction (fun done q => Reached x plan.operations done.flatten q.bindings) ?_
      (reached_start x _) hp
    intro lower level upper q q' hlevels hq hlevel
    rw [List.flatten_append, List.flatten_singleton]
    exact reached_runLevel hplan hlevels hq hlevel
  split at h
  · cases h
  · rename_i result hresult
    cases h
    refine ⟨fun op hop => ?_, hresult⟩
    obtain ⟨i, hi⟩ := List.getElem?_of_mem hop
    exact hreached.solved i (Plan.mem_levels hi) op hi

/-- Without any time nothing is computed. -/
theorem ne_zero_of_run {e : Execution} (h : x.run plan limit = .ok e) : limit ≠ some 0 := by
  rintro rfl
  obtain ⟨p, hp, h⟩ := ok_of_bind h
  have hstart : p = .start := by
    refine foldlM_induction (fun _ q => q = Progress.start) ?_ rfl hp
    rintro lower level upper _ q' hlevels rfl hlevel
    rw [runLevel_eq x _ _ _ (Plan.pairwise_level (p := plan) (by simp [hlevels]))] at hlevel
    refine foldlM_induction (fun _ r => r = Progress.start) ?_ rfl hlevel
    rintro done i rest _ r' - rfl hrun
    unfold runOperation at hrun
    split at hrun
    · cases hrun
      rfl
    · cases hrun
  rw [hstart] at h
  cases h

/-- The operation of the index `i` succeeds on values that operations before it bind. -/
def Runs (x : Executor) (ops : List Operation) (b : Bindings) (i : Nat) (op : Operation) : Prop :=
  ∃ (before : Bindings) (r : StepResult), x.step before.value? op = .ok r ∧
    b.value? op.output = some r.set ∧
      ∀ v s, before.value? v = some s →
        b.value? v = some s ∧ ∃ j < i, ∃ o, ops[j]? = some o ∧ o.output = v

theorem Runs.mono {b b' : Bindings} (hb : b.Within b') {i : Nat} {op : Operation}
    (h : Runs x ops b i op) : Runs x ops b' i op := by
  obtain ⟨before, r, hr, hout, hvalues⟩ := h
  exact ⟨before, r, hr, hb _ _ hout,
    fun v s hv => ⟨hb _ _ (hvalues v s hv).1, (hvalues v s hv).2⟩⟩

theorem reached_of_perform (hops : (ops.map (·.output)).Nodup) {b : Bindings}
    (h : x.perform [] ops = .ok b) :
    Reached x ops (List.range ops.length) b ∧
      ∀ i op, i < ops.length → ops[i]? = some op → Runs x ops b i op := by
  refine foldlM_induction (fun done b => Reached x ops (List.range done.length) b ∧
    ∀ i op, i < done.length → ops[i]? = some op → Runs x ops b i op) ?_ ?_ h
  · intro done op rest b b' hsplit ⟨hr, hruns⟩ hstep
    obtain ⟨r, hr', hb'⟩ := ok_of_bind hstep
    cases hb'
    have hop : ops[done.length]? = some op := by
      rw [hsplit, List.getElem?_append_right (Nat.le_refl _), Nat.sub_self]
      rfl
    obtain ⟨hnext, hwithin⟩ := hr.next hops (.refl b) (by simp) hop hr'
    rw [List.length_append, List.length_singleton, List.range_succ]
    refine ⟨hnext, ?_⟩
    intro i op' hi hop'
    rcases Nat.lt_or_ge i done.length with hi | hge
    · exact (hruns i op' hi hop').mono hwithin
    · have hi : i = done.length := by omega
      subst hi
      rw [hop] at hop'
      cases hop'
      refine ⟨b, r, hr', by rw [Bindings.value?_bind, if_pos rfl], ?_⟩
      intro v s hv
      obtain ⟨j, hj, hout⟩ := hr.bound v s hv
      exact ⟨hwithin v s hv, j, List.mem_range.1 hj, hout⟩
  · exact ⟨reached_start x ops, fun i _ hi => absurd hi (Nat.not_lt_zero i)⟩

theorem runs_of_perform (hops : (ops.map (·.output)).Nodup) {b : Bindings}
    (h : x.perform [] ops = .ok b) {i : Nat} {op : Operation} (hop : ops[i]? = some op) :
    Runs x ops b i op :=
  (reached_of_perform hops h).2 i op (List.getElem?_eq_some_iff.1 hop).1 hop

/-- The next variable is not bound yet. -/
theorem value?_next (hops : Numbered ops) {b : Bindings} (h : x.perform [] ops = .ok b) :
    b.value? (.numbered (ops.length + 1)) = none := by
  cases hv : b.value? (.numbered (ops.length + 1)) with
  | none => rfl
  | some s =>
      obtain ⟨i, hi, op, hop, heq⟩ := (reached_of_perform hops.nodup h).1.bound _ s hv
      rw [hops i op hop] at heq
      cases heq
      exact absurd (List.mem_range.1 hi) (Nat.lt_irrefl _)

theorem perform_concat {b b' : Bindings} (h : x.perform b ops = .ok b') {op : Operation}
    {r : StepResult} (hr : x.step b'.value? op = .ok r) :
    x.perform b (ops ++ [op]) = .ok (b'.bind op.output r.set) := by
  unfold perform at h ⊢
  rw [List.foldlM_append, h]
  change (x.step b'.value? op >>= fun r => Except.ok (b'.bind op.output r.set)) >>= _ = _
  rw [hr]
  rfl

/-- What the operations of the indexes `done` bind in `c` is what they bind in `b`. -/
def Final (ops : List Operation) (b : Bindings) (done : List Nat) (c : Bindings) : Prop :=
  ∀ j ∈ done, ∀ o, ops[j]? = some o → c.value? o.output = b.value? o.output

theorem Final.next {b c : Bindings} {done : List Nat} (h : Final ops b done c) {i : Nat}
    {op : Operation} (hop : ops[i]? = some op) {set : ScoredSet Single}
    (hset : b.value? op.output = some set) :
    Final ops b (done ++ [i]) (c.bind op.output set) := by
  intro j hj o ho
  rw [Bindings.value?_bind]
  split
  · rename_i hout
    rw [hout, hset]
  · rename_i hne
    rcases List.mem_append.1 hj with hj | hj
    · exact h j hj o ho
    · cases List.mem_singleton.1 hj
      rw [hop] at ho
      cases ho
      exact absurd rfl hne

section

variable {lower upper : List (List Nat)} {level : List Nat} {b : Bindings}

/-- An operation succeeds once the lower levels have been run. -/
theorem step_of_final (hplan : (plan.operations.map (·.output)).Nodup)
    (hb : x.perform [] plan.operations = .ok b) (hlevels : plan.levels = lower ++ level :: upper)
    {c : Bindings} (hc : Final plan.operations b lower.flatten c) {i : Nat} (hi : i ∈ level)
    {op : Operation} (hop : plan.operations[i]? = some op) :
    ∃ r, x.step c.value? op = .ok r ∧ b.value? op.output = some r.set := by
  obtain ⟨before, r, hstep, hout, hvalues⟩ := runs_of_perform hplan hb hop
  refine ⟨r, step_mono (fun v hv s hs => ?_) hstep, hout⟩
  obtain ⟨hs, j, hj, o, ho, rfl⟩ := hvalues v s hs
  rw [hc j (Plan.mem_lower_of_read hplan hlevels hi hop hj ho hv) o ho, hs]

theorem runLevel_final (hplan : (plan.operations.map (·.output)).Nodup)
    (hb : x.perform [] plan.operations = .ok b) (hlimit : limit ≠ some 0)
    (hlevels : plan.levels = lower ++ level :: upper) {p : Progress}
    (hp : Final plan.operations b lower.flatten p.bindings) :
    ∃ p', x.runLevel limit plan.operations p level = .ok p' ∧
      Final plan.operations b (lower.flatten ++ level) p'.bindings := by
  have hexpired : expired limit = false := decide_eq_false hlimit
  rw [runLevel_eq x limit _ p (Plan.pairwise_level (p := plan) (by simp [hlevels]))]
  refine foldlM_succeeds
    (fun done (q : Progress) => Final plan.operations b (lower.flatten ++ done) q.bindings) ?_
    (by rwa [List.append_nil])
  intro done i rest q hsplit hq
  have hi : i ∈ level := by simp [hsplit]
  obtain ⟨op, hop⟩ := Plan.exists_of_mem_level hlevels hi
  obtain ⟨r, hr, hset⟩ := step_of_final hplan hb hlevels hp hi hop
  refine ⟨q.commit i op r, ?_, ?_⟩
  · unfold runOperation
    simp only [hop, hexpired, hr]
    rfl
  · rw [← List.append_assoc]
    exact hq.next hop hset

end

/-- A plan succeeds level by level if its operations succeed one after the other. -/
theorem run_of_perform (hplan : (plan.operations.map (·.output)).Nodup) {b : Bindings}
    (hb : x.perform [] plan.operations = .ok b) (hlimit : limit ≠ some 0)
    (hresult : ∃ op ∈ plan.operations, op.output = plan.result) :
    ∃ e, x.run plan limit = .ok e := by
  have hrun : ∃ p, plan.levels.foldlM (x.runLevel limit plan.operations) .start = .ok p ∧
      Final plan.operations b plan.levels.flatten p.bindings := by
    refine foldlM_succeeds
      (fun done (q : Progress) => Final plan.operations b done.flatten q.bindings) ?_ ?_
    · intro lower level upper q hlevels hq
      rw [List.flatten_append, List.flatten_singleton]
      exact runLevel_final hplan hb hlimit hlevels hq
    · rintro j ⟨⟩
  obtain ⟨p, hp, hfinal⟩ := hrun
  obtain ⟨op, hop, hout⟩ := hresult
  obtain ⟨i, hi⟩ := List.getElem?_of_mem hop
  obtain ⟨-, r, -, hr, -⟩ := runs_of_perform hplan hb hi
  have hvalue : p.bindings.value? plan.result = some r.set := by
    rw [← hout, hfinal i (Plan.mem_levels hi) op hi, hr]
  unfold run
  simp only [hp, hvalue, bind, Except.bind]
  exact ⟨_, rfl⟩

end Executor

end VectorQuery
