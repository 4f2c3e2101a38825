/-
# Operations that are fit to run

An operation fits a snapshot and the operations before it if it has enough inputs, all of them
outputs before it, and joins by relations of the snapshot.  On entities of the snapshot it finds
entities of the snapshot, or fails because numbers have no meaningful result (`ends_step`), and so
does a plan all of whose operations fit (`ends_run`).
-/
import VectorQuery.Execution.Basic
import VectorQuery.Proofs.Execution.Order
import VectorQuery.Proofs.Optimization.Selection
import VectorQuery.Proofs.Store.Snapshot

namespace VectorQuery

/-! ## Errors of numbers -/

/-- The error says that numbers have no meaningful result. -/
def ExecutionError.isNumerical : ExecutionError → Bool
  | .zeroCentroid _ | .zeroPrediction | .zeroRelated .. => true
  | .search cause =>
    match cause with
    | .zeroNorm | .queryDimension .. => true
    | _ => false
  | .missingRelation _ | .missingEntity _ | .unbound _ | .missingInput .. => false

/-- The plan failed, and it was for numbers without a meaningful result. -/
def Interruption.isNumerical : Interruption → Bool
  | .failed cause => cause.isNumerical
  | .timeout .. => false

/-- The computation succeeds with a value in `P` or fails with an error of numbers. -/
abbrev EndsNumerically {α : Type} (P : α → Prop) (y : Except ExecutionError α) : Prop :=
  Ends (fun e => e.isNumerical = true) P y

/-! ## Operations that fit -/

/-- How many inputs an action reads at least. -/
def Action.arity : Action → Nat
  | .lookup .. | .scan _ => 0
  | .filter _ | .nearest .. | .optimize .. | .collect _ => 1
  | .relate .. | .and | .or | .not => 2
  | .analogy .. => 3

/-- The relations that an action joins by. -/
def Action.relations : Action → List RelationKey
  | .relate bindings _ => bindings.map (·.key)
  | _ => []

/-- The operation has its inputs and its relations when `n` operations are before it. -/
structure Operation.Fits (s : Snapshot) (n : Nat) (op : Operation) : Prop where
  arity : op.action.arity ≤ op.inputs.length
  bound : ∀ v ∈ op.inputs, ∃ j < n, v = .numbered (j + 1)
  relations : ∀ key ∈ op.action.relations, s.relations.contains key = true

/-- Every operation fits where it stands. -/
def Fitting (s : Snapshot) (ops : List Operation) : Prop :=
  ∀ (i : Nat) (op : Operation), ops[i]? = some op → op.Fits s i

/-- The set holds entities of the snapshot only. -/
def Snapshot.Holds (s : Snapshot) (set : ScoredSet Single) : Prop := ∀ o ∈ set.members, o < s.size

variable {s : Snapshot}

namespace Snapshot.Holds

theorem mono {set set' : ScoredSet Single} (h : s.Holds set) (hsub : set'.members ⊆ set.members) :
    s.Holds set' := fun o ho => h o (hsub ho)

theorem empty : s.Holds .empty := by
  rintro o ⟨⟩

theorem ofList {hits : List (Hit Single)} (h : ∀ hit ∈ hits, hit.ordinal < s.size) :
    s.Holds (.ofList hits) := by
  intro o ho
  obtain ⟨hit, hhit, rfl⟩ := (ScoredSet.mem_members_ofList _ _).1 ho
  exact h hit hhit

end Snapshot.Holds

/-! ## Related entities -/

namespace RelationScores

variable {left right : ScoredSet Single}

theorem ends_fromSource (s : Snapshot) (relation : RelationKey) (op : Operator)
    (source : Entity Double) (targets : List Nat) :
    EndsNumerically (fun scored => ∀ e ∈ scored, e.1 ∈ targets)
      (fromSource s relation op source targets) := by
  unfold fromSource
  dsimp only
  split
  · intro e he
    obtain ⟨o, ho, he⟩ := List.mem_filterMap.1 he
    obtain ⟨target, -, he⟩ := Option.bind_eq_some_iff.1 he
    obtain ⟨score, -, he⟩ := Option.bind_eq_some_iff.1 he
    cases he
    exact ho
  · rfl

theorem left_record {r : RelationScores} (hr : r.left.members ⊆ left.members) {l : Nat}
    (hl : l ∈ left.members) (right : Nat) (score : Single) :
    (r.record l right score).left.members ⊆ left.members := by
  intro o ho
  rcases (ScoredSet.mem_members_insert _ _ _ _).1 ho with rfl | ho
  · exact hl
  · exact hr ho

/-- Whichever way a relation leads, only entities on the left are scored there. -/
theorem ends_addBinding {b : RelationBinding} (h : s.relations.contains b.key = true)
    {r : RelationScores} (hr : r.left.members ⊆ left.members) :
    EndsNumerically (fun (r : RelationScores) => r.left.members ⊆ left.members)
      (addBinding s left right r b) := by
  obtain ⟨op, hop⟩ := Option.isSome_iff_exists.1 h
  unfold addBinding
  simp only [hop]
  refine Ends.foldlM (fun _ (r : RelationScores) => r.left.members ⊆ left.members)
    (fun done o rest r hsplit hr => ?_) hr
  cases s.entity? o with
  | none => exact hr
  | some source =>
      refine (ends_fromSource ..).bind fun scored hscored => ?_
      refine List.foldlRecOn (motive := fun (r : RelationScores) =>
        r.left.members ⊆ left.members) scored _ hr fun r hr e he => ?_
      have htarget := hscored e he
      cases hreversed : b.reversed with
      | true =>
          simp only [hreversed, if_true] at htarget ⊢
          exact left_record hr (List.mem_filter.1 htarget).1 ..
      | false =>
          have ho : o ∈ ofType s left b.leftType := by
            simp only [hreversed, Bool.false_eq_true, if_false] at hsplit
            simp [hsplit]
          simp only [Bool.false_eq_true, if_false]
          exact left_record hr (List.mem_filter.1 ho).1 ..

theorem ends_compute {bindings : List RelationBinding}
    (h : ∀ b ∈ bindings, s.relations.contains b.key = true) :
    EndsNumerically (fun (r : RelationScores) => r.left.members ⊆ left.members)
      (compute s bindings left right) := by
  refine Ends.foldlM (fun _ (r : RelationScores) => r.left.members ⊆ left.members)
    (fun done b rest r hsplit hr => ends_addBinding (h b (by simp [hsplit])) hr) ?_
  rintro o ⟨⟩

end RelationScores

/-! ## Searches -/

namespace Snapshot

/-- A search that fails does so for its query vector. -/
theorem ends_nearestAmong (query : Embedding) (candidates : List Nat) (k : Option Nat)
    (bound : Option Single) :
    Ends (fun e => (ExecutionError.search e).isNumerical = true)
      (fun hits => ∀ hit ∈ hits, hit.ordinal < s.size)
      (s.nearestAmong query candidates k bound) := by
  have hcheck : Ends (fun e => (ExecutionError.search e).isNumerical = true) (fun _ => True)
      (s.checkQuery query) := by
    unfold checkQuery
    split
    · rfl
    · split
      · trivial
      · rfl
  refine hcheck.bind fun _ _ hit hhit => ?_
  obtain ⟨o, -, ho⟩ := List.mem_filterMap.1 (List.mem_mergeSort.1 (mem_of_atMost hhit))
  rw [ordinal_hit? ho]
  exact lt_size_of_hit? ho

theorem ends_nearest (query : Embedding) (t : String) (k : Option Nat) (bound : Option Single) :
    Ends (fun e => (ExecutionError.search e).isNumerical = true)
      (fun hits => ∀ hit ∈ hits, hit.ordinal < s.size) (s.nearest query t k bound) := by
  unfold nearest
  split
  · exact fun hit hhit => absurd hhit List.not_mem_nil
  · exact ends_nearestAmong ..

end Snapshot

namespace Executor

variable {x : Executor}

theorem ends_searched {α : Type} {P : α → Prop} {y : Except StoreError α}
    (h : Ends (fun e => (ExecutionError.search e).isNumerical = true) P y) :
    EndsNumerically P (searched y) := by
  cases y <;> exact h

theorem ends_hits (query : Embedding) (maxDistance : Single) (topK : Option Nat)
    (types : List String) (candidates : Option (ScoredSet Single)) :
    EndsNumerically (fun hits => ∀ hit ∈ hits, hit.ordinal < x.snapshot.size)
      (x.hits query maxDistance topK types candidates) := by
  unfold hits
  split
  · exact ends_searched (Snapshot.ends_nearestAmong ..)
  · split
    · exact ends_searched (Snapshot.ends_nearestAmong ..)
    · refine (Ends.mapM fun t _ => ends_searched (Snapshot.ends_nearest ..)).bind
        fun found hfound hit hhit => ?_
      obtain ⟨hits, hhits, hmem⟩ := List.mem_flatten.1 (List.mem_mergeSort.1 (mem_of_atMost hhit))
      exact hfound hits hhits hit hmem

theorem ends_queryVector (target : ScoredSet Single) :
    EndsNumerically (fun _ => True) (x.queryVector target) := by
  unfold queryVector
  split
  · trivial
  · split
    · trivial
    · rfl

theorem ends_nearest (maxDistance : Single) (topK : Option Nat) (types : List String)
    (candidates : Option (ScoredSet Single)) (target : ScoredSet Single) :
    EndsNumerically (fun r => x.snapshot.Holds r.set)
      (x.nearest maxDistance topK types candidates target) := by
  unfold nearest
  split
  · exact .empty
  · exact (ends_queryVector target).bind fun query _ =>
      (ends_hits query ..).bind fun hits hhits => .ofList hhits

theorem ends_vectorOf {o : Nat} (h : o < x.snapshot.size) :
    EndsNumerically (fun _ => True) (x.vectorOf o) := by
  unfold vectorOf
  have hentity : x.snapshot.entity? o = some _ := Array.getElem?_eq_getElem h
  rw [hentity]
  trivial

theorem ends_analogy (t : String) (topK : Nat) {a b c : ScoredSet Single}
    (ha : x.snapshot.Holds a) (hb : x.snapshot.Holds b) (hc : x.snapshot.Holds c) :
    EndsNumerically (fun r => x.snapshot.Holds r.set) (x.analogy t topK a b c) := by
  unfold analogy
  split
  · rename_i a' b' c' ha' hb' hc'
    refine (ends_vectorOf (ha _ (ScoredSet.mem_of_best? ha'))).bind fun _ _ => ?_
    refine (ends_vectorOf (hb _ (ScoredSet.mem_of_best? hb'))).bind fun _ _ => ?_
    refine (ends_vectorOf (hc _ (ScoredSet.mem_of_best? hc'))).bind fun _ _ => ?_
    dsimp only
    split
    · refine (ends_searched (Snapshot.ends_nearest ..)).bind fun found hfound => ?_
      refine Snapshot.Holds.ofList fun hit hhit => ?_
      exact hfound hit (List.mem_filter.1 (List.mem_of_mem_take hhit)).1
    · rfl
  · exact .empty

/-! ## The other operations -/

theorem holds_lookup (hs : x.snapshot.Made) (t name : String) (mode : LookupMode) :
    x.snapshot.Holds (x.lookup t name mode).set := by
  have hnamed : ∀ hit ∈ x.named t name mode, hit.ordinal < x.snapshot.size := by
    have hlist : ∀ {p : Nat × Entity Double}, p ∈ x.snapshot.list t → p.1 < x.snapshot.size :=
      fun hp => Snapshot.lt_size_of_entity? (Snapshot.entity?_of_mem_list hp)
    intro hit hhit
    cases mode with
    | exact =>
        obtain ⟨o, ho, rfl⟩ := List.mem_map.1 hhit
        obtain ⟨e, he, -⟩ := (hs.ordinal?_eq_some_iff t name o).1 (Option.mem_toList.1 ho)
        exact Snapshot.lt_size_of_entity? he
    | wildcard =>
        obtain ⟨o, ho, rfl⟩ := List.mem_map.1 hhit
        exact hs.lt_size_of_mem ho
    | glob =>
        obtain ⟨p, hp, rfl⟩ := List.mem_map.1 hhit
        exact hlist (List.mem_filter.1 hp).1
    | fuzzy =>
        obtain ⟨p, hp, hscore⟩ := List.mem_filterMap.1 hhit
        obtain ⟨score, -, rfl⟩ := Option.map_eq_some_iff.1 hscore
        exact hlist hp
  unfold lookup
  split
  · exact .empty
  · exact .ofList hnamed

theorem ends_relate {bindings : List RelationBinding}
    (h : ∀ b ∈ bindings, x.snapshot.relations.contains b.key = true) (minScore : Single)
    {left : ScoredSet Single} (hleft : x.snapshot.Holds left) (right : ScoredSet Single) :
    EndsNumerically (fun r => x.snapshot.Holds r.set) (x.relate bindings minScore left right) := by
  have hcompute : EndsNumerically (fun (r : RelationScores) => r.left.members ⊆ left.members)
      (RelationScores.compute x.snapshot bindings left right) := RelationScores.ends_compute h
  unfold relate
  refine hcompute.bind fun scores hscores => ?_
  dsimp only
  split
  · exact .empty
  · refine Snapshot.Holds.ofList fun hit hhit => ?_
    obtain ⟨scored, hscored, rfl⟩ := List.mem_map.1 hhit
    exact hleft _ (hscores ((ScoredSet.mem_members_iff_toList _ _).2
      ⟨scored, (List.mem_filter.1 hscored).1, rfl⟩))

theorem holds_optimize (r : OptimizationRequest Double) (pool : ScoredSet Single) :
    x.snapshot.Holds (x.optimize r pool).set := by
  unfold optimize
  refine Snapshot.Holds.ofList fun hit hhit => ?_
  obtain ⟨c, hc, rfl⟩ := List.mem_map.1 hhit
  obtain ⟨o, -, ho⟩ := List.mem_filterMap.1 (Optimization.mem_pool_of_selected hc)
  obtain ⟨e, he, heq⟩ := Option.map_eq_some_iff.1 ho
  cases heq
  exact Snapshot.lt_size_of_entity? he

/-! ## One operation -/

section

variable {op : Operation} {value? : Variable → Option (ScoredSet Single)}

theorem ends_input (h : ∀ v ∈ op.inputs, ∃ set, value? v = some set ∧ x.snapshot.Holds set) {n : Nat}
    (hn : n < op.inputs.length) : EndsNumerically x.snapshot.Holds (input value? op n) := by
  obtain ⟨set, hset, hholds⟩ := h _ (List.getElem_mem hn)
  unfold input
  simp only [List.getElem?_eq_getElem hn, hset]
  exact hholds

/-- What is computed from the first input. -/
theorem ends_first (h : ∀ v ∈ op.inputs, ∃ set, value? v = some set ∧ x.snapshot.Holds set)
    (hlen : 1 ≤ op.inputs.length) {P : StepResult → Prop}
    {f : ScoredSet Single → Except ExecutionError StepResult}
    (hf : ∀ a, x.snapshot.Holds a → EndsNumerically P (f a)) :
    EndsNumerically P (input value? op 0 >>= f) :=
  (ends_input h hlen).bind hf

/-- What is computed from the first two inputs. -/
theorem ends_both (h : ∀ v ∈ op.inputs, ∃ set, value? v = some set ∧ x.snapshot.Holds set)
    (hlen : 2 ≤ op.inputs.length) {P : StepResult → Prop}
    {f : ScoredSet Single → ScoredSet Single → Except ExecutionError StepResult}
    (hf : ∀ a b, x.snapshot.Holds a → x.snapshot.Holds b → EndsNumerically P (f a b)) :
    EndsNumerically P (input value? op 0 >>= fun a => input value? op 1 >>= f a) :=
  ends_first h (Nat.le_of_succ_le hlen) fun a ha => (ends_input h hlen).bind fun b hb => hf a b ha hb

/-- An operation that fits, run on entities of the snapshot, finds entities of the snapshot. -/
theorem ends_step (hs : x.snapshot.Made) {n : Nat} (hop : op.Fits x.snapshot n)
    (h : ∀ v ∈ op.inputs, ∃ set, value? v = some set ∧ x.snapshot.Holds set) :
    EndsNumerically (fun r => x.snapshot.Holds r.set) (x.step value? op) := by
  have harity := hop.arity
  have hrelations := hop.relations
  unfold step
  cases haction : op.action with
  | lookup t name mode => exact holds_lookup hs t name mode
  | scan =>
      intro o ho
      exact (Snapshot.mem_ordinals.1 ((ScoredSet.mem_members_uniform _ _ _).1 ho)).1
  | filter =>
      rw [haction] at harity
      refine ends_first h harity fun set hset => hset.mono fun o ho => ?_
      exact ((ScoredSet.mem_members_retain _ _ _).1 ho).2
  | relate bindings =>
      rw [haction] at harity hrelations
      exact ends_both h harity fun left right hleft _ =>
        ends_relate (fun b hb => hrelations _ (List.mem_map_of_mem hb)) _ hleft right
  | nearest =>
      rw [haction] at harity
      dsimp only
      split
      · rename_i hlen
        refine ((ends_input h hlen).map (Q := fun _ => True) fun _ _ => trivial).bind
          fun candidates _ => ?_
        exact ends_first h harity fun target _ => ends_nearest ..
      · exact ends_first h harity fun target _ => ends_nearest ..
  | and =>
      rw [haction] at harity
      refine ends_both h harity fun left right hleft _ => hleft.mono fun o ho => ?_
      exact ((ScoredSet.mem_members_and _ _ _).1 ho).1
  | or =>
      rw [haction] at harity
      refine ends_both h harity fun left right hleft hright o ho => ?_
      exact ((ScoredSet.mem_members_or _ _ _).1 ho).elim (hleft o) (hright o)
  | not =>
      rw [haction] at harity
      refine ends_both h harity fun left right _ hright => hright.mono fun o ho => ?_
      exact ((ScoredSet.mem_members_complement _ _ _).1 ho).1
  | analogy =>
      rw [haction] at harity
      exact ends_both h (Nat.le_of_succ_le harity) fun a b ha hb =>
        (ends_input h harity).bind fun c hc => ends_analogy _ _ ha hb hc
  | optimize =>
      rw [haction] at harity
      exact ends_first h harity fun pool _ => holds_optimize _ pool
  | collect topK =>
      rw [haction] at harity
      refine ends_first h harity fun set hset => ?_
      cases topK with
      | none => exact hset
      | some k => exact hset.mono fun o ho => ScoredSet.mem_of_mem_top ho

end

/-! ## Level by level -/

/-- Only entities of the snapshot are bound, and the operations of the indexes `done` have bound
their outputs. -/
structure Valid (x : Executor) (ops : List Operation) (done : List Nat) (b : Bindings) : Prop where
  holds : ∀ v set, b.value? v = some set → x.snapshot.Holds set
  bound : ∀ i ∈ done, ∀ op, ops[i]? = some op → ∃ set, b.value? op.output = some set

theorem valid_start (x : Executor) (ops : List Operation) : Valid x ops [] [] where
  holds := by
    rintro v set ⟨⟩
  bound := by
    rintro i ⟨⟩

section

variable {ops : List Operation} {done : List Nat} {b : Bindings} {i : Nat} {op : Operation}

theorem Valid.next (h : Valid x ops done b) (hop : ops[i]? = some op) {set : ScoredSet Single}
    (hset : x.snapshot.Holds set) : Valid x ops (done ++ [i]) (b.bind op.output set) where
  holds := by
    intro v t hv
    rw [Bindings.value?_bind] at hv
    split at hv
    · cases hv
      exact hset
    · exact h.holds v t hv
  bound := by
    intro j hj op' hop'
    rw [Bindings.value?_bind]
    split
    · exact ⟨set, rfl⟩
    · rename_i hne
      rcases List.mem_append.1 hj with hj | hj
      · exact h.bound j hj op' hop'
      · rw [List.mem_singleton.1 hj, hop] at hop'
        cases hop'
        exact absurd rfl hne

variable {plan : Plan} {lower upper : List (List Nat)} {level : List Nat}

/-- What an operation reads is bound once the lower levels have been run. -/
theorem Valid.inputs (hplan : Numbered plan.operations)
    (hlevels : plan.levels = lower ++ level :: upper) (hi : i ∈ level)
    (hop : plan.operations[i]? = some op) (hfits : op.Fits x.snapshot i)
    (h : Valid x plan.operations lower.flatten b) :
    ∀ v ∈ op.inputs, ∃ set, b.value? v = some set ∧ x.snapshot.Holds set := by
  intro v hv
  obtain ⟨j, hj, rfl⟩ := hfits.bound v hv
  have hlen := Nat.lt_trans hj (List.getElem?_eq_some_iff.1 hop).1
  have ho := List.getElem?_eq_getElem hlen
  have hread : plan.operations[j].output ∈ op.inputs := by rwa [hplan j _ ho]
  obtain ⟨set, hset⟩ :=
    h.bound j (Plan.mem_lower_of_read hplan.nodup hlevels hi hop hj ho hread) _ ho
  rw [hplan j _ ho] at hset
  exact ⟨set, hset, h.holds _ _ hset⟩

variable {limit : Option Nat}

theorem ends_runLevel (hs : x.snapshot.Made) (hplan : Numbered plan.operations)
    (hfits : Fitting x.snapshot plan.operations) (hlimit : limit ≠ some 0)
    (hlevels : plan.levels = lower ++ level :: upper) {p : Progress}
    (hp : Valid x plan.operations lower.flatten p.bindings) :
    Ends (fun e => e.isNumerical = true)
      (fun (q : Progress) => Valid x plan.operations (lower.flatten ++ level) q.bindings)
      (x.runLevel limit plan.operations p level) := by
  have hexpired : expired limit = false := decide_eq_false hlimit
  rw [runLevel_eq x limit _ p (Plan.pairwise_level (p := plan) (by simp [hlevels]))]
  refine Ends.foldlM
    (fun done (q : Progress) => Valid x plan.operations (lower.flatten ++ done) q.bindings) ?_
    (by rwa [List.append_nil])
  intro done i rest q hsplit hq
  have hi : i ∈ level := by simp [hsplit]
  obtain ⟨op, hop⟩ := Plan.exists_of_mem_level hlevels hi
  have hstep := ends_step hs (hfits i op hop) (hp.inputs hplan hlevels hi hop (hfits i op hop))
  unfold runOperation
  simp only [hop, hexpired, Bool.false_eq_true, if_false]
  cases hr : x.step p.bindings.value? op with
  | error e =>
      rw [hr] at hstep
      exact hstep
  | ok r =>
      rw [← List.append_assoc]
      exact hq.next hop (hstep.of_ok hr)

theorem ends_levels (hs : x.snapshot.Made) (hplan : Numbered plan.operations)
    (hfits : Fitting x.snapshot plan.operations) (hlimit : limit ≠ some 0) :
    Ends (fun e => e.isNumerical = true)
      (fun (p : Progress) => Valid x plan.operations plan.levels.flatten p.bindings)
      (plan.levels.foldlM (x.runLevel limit plan.operations) .start) := by
  refine Ends.foldlM (fun done (p : Progress) => Valid x plan.operations done.flatten p.bindings)
    (fun lower level upper p hlevels hp => ?_) (valid_start x _)
  rw [List.flatten_append, List.flatten_singleton]
  exact ends_runLevel hs hplan hfits hlimit hlevels hp

/-- A plan of operations that fit finds entities of the snapshot, or fails because numbers have no
meaningful result. -/
theorem ends_run (hs : x.snapshot.Made) (hplan : Numbered plan.operations)
    (hfits : Fitting x.snapshot plan.operations) (hlimit : limit ≠ some 0)
    (hresult : ∃ op ∈ plan.operations, op.output = plan.result) :
    Ends (fun e => e.isNumerical = true) (fun e => x.snapshot.Holds e.result)
      (x.run plan limit) := by
  refine (ends_levels hs hplan hfits hlimit).bind fun p hp => ?_
  obtain ⟨op, hop, hout⟩ := hresult
  obtain ⟨i, hi⟩ := List.getElem?_of_mem hop
  obtain ⟨set, hset⟩ := hp.bound i (Plan.mem_levels hi) op hi
  rw [hout] at hset
  simp only [hset]
  exact hp.holds _ _ hset

/-- Whatever a plan of operations that fit binds are entities of the snapshot. -/
theorem holds_of_run (hs : x.snapshot.Made) (hplan : Numbered plan.operations)
    (hfits : Fitting x.snapshot plan.operations) {e : Execution} (h : x.run plan limit = .ok e)
    {v : Variable} {set : ScoredSet Single} (hset : e.bindings.value? v = some set) :
    x.snapshot.Holds set := by
  obtain ⟨p, hp, hrun⟩ := ok_of_bind h
  have hvalid := (ends_levels hs hplan hfits (ne_zero_of_run h)).of_ok hp
  split at hrun
  · cases hrun
  · cases hrun
    exact hvalid.holds v set hset

end

end Executor

end VectorQuery
