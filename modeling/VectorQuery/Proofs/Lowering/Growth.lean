/-
# Drafts only grow

Lowering adds operations to a draft and marks some that are there, but removes none and changes no
action, input or output.  Each operation added has as many inputs as its action takes, and none
collects.  `Adding` says so of one computation; the instances carry it from the parts of a
computation to the whole.
-/
import VectorQuery.Plan.Lowering
import VectorQuery.Proofs.Execution.Order
import VectorQuery.Proofs.Failure

namespace VectorQuery

/-- The operation without its mark. -/
def Operation.unmarked (op : Operation) : Operation := { op with parallel := false }

/-- The operations of a draft without their marks. -/
def Draft.trail (d : Draft) : List Operation := d.operations.map Operation.unmarked

theorem Draft.length_trail (d : Draft) : d.trail.length = d.operations.length := List.length_map _

/-- The action takes this many inputs. -/
def Action.takes : Action → Nat → Bool
  | .lookup .., n | .scan _, n => n == 0
  | .filter _, n | .optimize .., n | .collect _, n => n == 1
  | .relate .., n | .and, n | .or, n | .not, n => n == 2
  | .nearest .., n => n == 1 || n == 2
  | .analogy .., n => n == 3

/-- The action collects. -/
def Action.collects : Action → Bool
  | .collect _ => true
  | _ => false

/-- The operation has as many inputs as its action takes, and does not collect. -/
def Operation.Inner (op : Operation) : Prop :=
  op.action.takes op.inputs.length = true ∧ op.action.collects = false

/-! ## Marks do not matter -/

theorem numbered_unmarked {ops : List Operation} :
    Numbered (ops.map Operation.unmarked) ↔ Numbered ops := by
  unfold Numbered
  simp only [List.getElem?_map, Option.map_eq_some_iff]
  constructor
  · intro h i op hop
    exact h i op.unmarked ⟨op, hop, rfl⟩
  · rintro h i _ ⟨op, hop, rfl⟩
    exact h i op hop

theorem Executor.solves_unmarked {x : Executor} {b : Bindings} {ops : List Operation} :
    x.Solves b (ops.map Operation.unmarked) ↔ x.Solves b ops := by
  unfold Solves
  simp only [List.forall_mem_map]
  exact Iff.rfl

theorem Executor.perform_unmarked (x : Executor) (b : Bindings) (ops : List Operation) :
    x.perform b (ops.map Operation.unmarked) = x.perform b ops :=
  List.foldlM_map ..

namespace Lowering

/-- What may be said of operations because they are inner ones. -/
class OfInner (P : Operation → Prop) : Prop where
  of_inner : ∀ op : Operation, op.Inner → P op

instance : OfInner Operation.Inner := ⟨fun _ => id⟩

instance : OfInner fun _ => True := ⟨fun _ _ => trivial⟩

/-- Operations that satisfy `P` are added to the draft, numbered on, and none is removed. -/
class Adding (P : Operation → Prop) {α : Type} (y : Lowering α) : Prop where
  adds_run : ∀ d a d', y d = .ok (a, d') →
    d.trail <+: d'.trail ∧ (Numbered d.trail → Numbered d'.trail) ∧
      ((∀ op ∈ d.trail, P op) → ∀ op ∈ d'.trail, P op)

/-- Operations are added to the draft, numbered on, and none is removed. -/
abbrev Extending {α : Type} (y : Lowering α) : Prop := Adding (fun _ => True) y

/-- The draft keeps its operations, the types seen and what is shared. -/
class Silent {α : Type} (y : Lowering α) : Prop where
  silent_run : ∀ d, ∃ a d', y d = .ok (a, d') ∧ d'.trail = d.trail ∧ d'.seen = d.seen ∧
    d'.shared = d.shared

variable {α β : Type} {P : Operation → Prop}

theorem Extending.extends_run {y : Lowering α} [Extending y] (d : Draft) (a : α) (d' : Draft)
    (h : y d = .ok (a, d')) : d.trail <+: d'.trail ∧ (Numbered d.trail → Numbered d'.trail) :=
  (Adding.adds_run (P := fun _ => True) d a d' h).imp_right And.left

theorem Adding.of_trail {y : Lowering α} (h : ∀ d a d', y d = .ok (a, d') → d'.trail = d.trail) :
    Adding P y where
  adds_run := by
    intro d a d' hrun
    rw [h d a d' hrun]
    exact ⟨List.prefix_rfl, id, id⟩

instance (y : Lowering α) [Silent y] : Adding P y := .of_trail <| by
  intro d a d' hrun
  obtain ⟨_, _, hrun', htrail, -⟩ := Silent.silent_run (y := y) d
  rw [hrun] at hrun'
  cases hrun'
  exact htrail

instance (a : α) : Silent (pure a : Lowering α) where
  silent_run d := ⟨a, d, rfl, rfl, rfl, rfl⟩

instance (text : String) : Silent (note text) where
  silent_run _ := ⟨_, _, rfl, rfl, rfl, rfl⟩

instance (y : Lowering α) (f : α → Lowering β) [Silent y] [∀ a, Silent (f a)] :
    Silent (y >>= f) where
  silent_run := by
    intro d
    obtain ⟨a, d₁, hrun, htrail, hseen, hshared⟩ := Silent.silent_run (y := y) d
    obtain ⟨b, d₂, hrun', htrail', hseen', hshared'⟩ := Silent.silent_run (y := f a) d₁
    exact ⟨b, d₂, (bind_run hrun).trans hrun', htrail'.trans htrail, hseen'.trans hseen,
      hshared'.trans hshared⟩

instance (ranges : List (Nat × Nat)) : Silent (markParallel ranges) := by
  unfold markParallel
  split
  · infer_instance
  · refine ⟨fun d => ⟨(), _, rfl, ?_, rfl, rfl⟩⟩
    -- the marks are all that changes
    refine List.ext_getElem? fun i => ?_
    simp only [Draft.trail, List.getElem?_map, List.getElem?_mapIdx, Option.map_map]
    congr 1
    funext op
    rw [Function.comp_apply]
    split <;> rfl

instance (bs : List Branch) : Silent (markBranches bs) := by
  unfold markBranches
  infer_instance

instance (cs : List α) (f : α → Lowering PUnit) [∀ a, Silent (f a)] : Silent (cs.forM f) := by
  induction cs with
  | nil => exact inferInstanceAs (Silent (pure PUnit.unit))
  | cons c cs ih => exact inferInstanceAs (Silent (f c >>= fun _ => cs.forM f))

/-! ## Adding computations -/

theorem Adding.of_run {y : Lowering α} {f : α → Lowering β} [Adding P y]
    (hf : ∀ d a d', y d = .ok (a, d') → Adding P (f a)) : Adding P (y >>= f) where
  adds_run := by
    intro d b d' h
    obtain ⟨a, d₁, hrun, hrun'⟩ := run_of_bind h
    obtain ⟨hops, hnumbered, hinner⟩ := Adding.adds_run (P := P) d a d₁ hrun
    obtain ⟨hops', hnumbered', hinner'⟩ := (hf d a d₁ hrun).adds_run d₁ b d' hrun'
    exact ⟨hops.trans hops', fun h => hnumbered' (hnumbered h), fun h => hinner' (hinner h)⟩

instance (y : Lowering α) (f : α → Lowering β) [Adding P y] [∀ a, Adding P (f a)] :
    Adding P (y >>= f) :=
  .of_run fun _ _ _ _ => inferInstance

instance (y : Lowering α) (f : α → Lowering β) [Adding P y] [∀ a, Adding P (f a)] :
    Adding P (bind y f) :=
  inferInstanceAs (Adding P (y >>= f))

instance (p : Prop) [Decidable p] (y z : Lowering α) [Adding P y] [Adding P z] :
    Adding P (if p then y else z) := by
  split <;> infer_instance

instance (e : Except PlanError α) : Adding P (liftM e : Lowering α) := .of_trail <| by
  intro d a d' h
  cases e with
  | error e => cases h
  | ok a =>
      cases h
      rfl

instance (e : PlanError) : Adding P (throw e : Lowering α) :=
  .of_trail <| by
    rintro d a d' ⟨⟩

instance : Adding P (get : Lowering Draft) := .of_trail <| by
  rintro d a d' ⟨⟩
  rfl

instance (types : TypeSet) : Adding P (see types) := .of_trail <| by
  rintro d a d' ⟨⟩
  rfl

/-- The operation that `emit` adds to a draft of `n` operations. -/
def emitted (n : Nat) (action : Action) (inputs : List Variable) (cost rows : Double)
    (access : Access) : Operation :=
  ⟨action, inputs, .numbered (n + 1), cost, Quantity.positivePart rows, access, false⟩

/-- The draft with one more operation. -/
def add (d : Draft) (op : Operation) : Draft := { d with operations := d.operations ++ [op] }

theorem run_emit (action : Action) (inputs : List Variable) (cost rows : Double) (access : Access)
    (d : Draft) : emit action inputs cost rows access d =
      .ok (.numbered (d.operations.length + 1),
        add d (emitted d.operations.length action inputs cost rows access)) := rfl

theorem trail_add (d : Draft) (op : Operation) :
    (add d op).trail = d.trail ++ [op.unmarked] := List.map_append ..

theorem numbered_add {d : Draft} (h : Numbered d.trail) {op : Operation}
    (hop : op.output = .numbered (d.operations.length + 1)) : Numbered (add d op).trail := by
  rw [trail_add]
  refine forall_concat h ?_
  rw [Draft.length_trail]
  exact hop

theorem adding_emit {action : Action} {inputs : List Variable} {cost rows : Double}
    {access : Access} (h : ∀ n, P (emitted n action inputs cost rows access)) :
    Adding P (emit action inputs cost rows access) where
  adds_run := by
    intro d a d' hrun
    rw [run_emit] at hrun
    cases hrun
    refine ⟨?_, fun hd => numbered_add hd rfl, fun hd => ?_⟩
    · rw [trail_add]
      exact List.prefix_append _ _
    · rw [trail_add]
      exact List.forall_mem_append.2 ⟨hd, List.forall_mem_singleton.2 (h _)⟩

instance (action : Action) (inputs : List Variable) (cost rows : Double) (access : Access) :
    Extending (emit action inputs cost rows access) := adding_emit fun _ => trivial

section

variable [OfInner P] (v w : Variable) (cost rows : Double) (access : Access)

theorem adding_inner {action : Action} {inputs : List Variable}
    (htakes : action.takes inputs.length = true) (hinner : action.collects = false) :
    Adding P (emit action inputs cost rows access) :=
  adding_emit fun _ => OfInner.of_inner _ ⟨htakes, hinner⟩

instance (t name : String) (mode : LookupMode) :
    Adding P (emit (.lookup t name mode) [] cost rows access) := adding_inner _ _ _ rfl rfl

instance (types : List String) : Adding P (emit (.scan types) [] cost rows access) :=
  adding_inner _ _ _ rfl rfl

instance (c : Comparison Double) : Adding P (emit (.filter c) [v] cost rows access) :=
  adding_inner _ _ _ rfl rfl

instance (bindings : List RelationBinding) (minScore : Single) :
    Adding P (emit (.relate bindings minScore) [v, w] cost rows access) :=
  adding_inner _ _ _ rfl rfl

/-- A search reads its target, and candidates if there are any. -/
theorem adding_nearest {inputs : List Variable} (h : inputs.length = 1 ∨ inputs.length = 2)
    (maxDistance : Single) (topK : Option Nat) (types : List String) :
    Adding P (emit (.nearest maxDistance topK types) inputs cost rows access) := by
  refine adding_inner _ _ _ ?_ rfl
  rcases h with h | h <;> rw [h] <;> rfl

instance : Adding P (emit .and [v, w] cost rows access) := adding_inner _ _ _ rfl rfl

instance : Adding P (emit .or [v, w] cost rows access) := adding_inner _ _ _ rfl rfl

instance : Adding P (emit .not [v, w] cost rows access) := adding_inner _ _ _ rfl rfl

instance (t : String) (k : Nat) (a b c : Branch) :
    Adding P (emit (.analogy t k) ([a, b, c].map (·.fragment.var)) cost rows access) :=
  adding_inner _ _ _ rfl rfl

instance (direction : Direction) (objective : Objective Double) (filters : List (Comparison Double))
    (budgets : List (Budget Double)) :
    Adding P (emit (.optimize direction objective filters budgets) [v] cost rows access) :=
  adding_inner _ _ _ rfl rfl

end

theorem share_of_shared {q : Query} {make : Lowering Fragment} {d : Draft} {f : Fragment}
    (h : d.shared.lookup (sharingKey q d.seen) = some f) :
    share q make d = .ok (f,
      { d with
        seen := d.seen.union f.types
        notes := d.notes ++ ["shared subtree: `" ++ q.canonical ++ "` reuses " ++ f.var.text] }) := by
  refine (bind_run (show (get : Lowering Draft) d = .ok (d, d) from rfl)).trans ?_
  simp only [h]
  rfl

theorem share_of_unshared {q : Query} {make : Lowering Fragment} {d : Draft}
    (h : d.shared.lookup (sharingKey q d.seen) = none) :
    share q make d = (make d).map fun p =>
      (p.1, { p.2 with shared := (sharingKey q d.seen, p.1) :: p.2.shared }) := by
  refine (bind_run (show (get : Lowering Draft) d = .ok (d, d) from rfl)).trans ?_
  simp only [h]
  change (make d >>= fun p => _) = _
  cases make d with
  | error e => rfl
  | ok p => rfl

instance (q : Query) (make : Lowering Fragment) [Adding P make] : Adding P (share q make) where
  adds_run := by
    intro d a d' h
    cases hk : d.shared.lookup (sharingKey q d.seen) with
    | some known =>
        rw [share_of_shared hk] at h
        cases h
        exact ⟨List.prefix_rfl, id, id⟩
    | none =>
        rw [share_of_unshared hk] at h
        obtain ⟨⟨made, d₁⟩, hmake, heq⟩ := ok_of_map h
        cases heq
        exact Adding.adds_run (P := P) d made d₁ hmake

theorem run_branch (make : Lowering Fragment) (d : Draft) :
    branch make d = (make d).map fun p =>
      (⟨d.operations.length, p.2.operations.length, p.1⟩, p.2) := by
  change (make d >>= fun p => Except.ok (Branch.mk d.operations.length p.2.operations.length p.1, p.2))
    = _
  cases make d with
  | error e => rfl
  | ok p => rfl

instance (make : Lowering Fragment) [Adding P make] : Adding P (branch make) := by
  unfold branch
  infer_instance

theorem eq_of_comparison? {q : Query} {c : Comparison Double} (h : comparison? q = some c) :
    q = .comparison c := by
  cases q with
  | comparison c' =>
      cases h
      rfl
  | _ => cases h

section

variable [OfInner P] (s : Snapshot) (config : EngineConfig)

instance (name : String) : Adding P (checkType s name) := by
  unfold checkType
  infer_instance

instance (field : String) : Adding P (checkField s field) := by
  unfold checkField
  infer_instance

instance (types : TypeSet) : Adding P (scan s types) := by
  unfold scan
  infer_instance

instance (f : Fragment) (c : Comparison Double) : Adding P (filter s f c) := by
  unfold filter
  infer_instance

instance (f : β → α → Lowering β) [∀ b a, Adding P (f b a)] (cs : List α) (b : β) :
    Adding P (cs.foldlM f b) := by
  induction cs generalizing b with
  | nil => exact inferInstanceAs (Adding P (pure b))
  | cons c cs ih =>
      rw [List.foldlM_cons]
      infer_instance

instance (f : Fragment) (cs : List (Comparison Double)) : Adding P (filterAll s f cs) := by
  unfold filterAll
  infer_instance

instance : Adding P (scanSeen s) := by
  unfold scanSeen
  infer_instance

instance (a b : Fragment) : Adding P (intersect a b) := by
  unfold intersect
  infer_instance

instance (a b : Fragment) : Adding P (unite a b) := by
  unfold unite
  infer_instance

instance (cs : List α) (f : α → Lowering PUnit) [∀ a, Adding P (f a)] : Adding P (cs.forM f) := by
  induction cs with
  | nil => exact inferInstanceAs (Adding P (pure PUnit.unit))
  | cons c cs ih => exact inferInstanceAs (Adding P (f c >>= fun _ => cs.forM f))

instance (t : Term Double) : Adding P (checkTerm s t) := by
  unfold checkTerm
  infer_instance

instance (t name : String) (fuzzy : Bool) : Adding P (lookup s t name fuzzy) := by
  unfold lookup
  infer_instance

instance (c : Comparison Double) : Adding P (bareComparison s c) := by
  unfold bareComparison
  infer_instance

theorem adding_unites (fs : List Fragment) : Adding P (match fs with
    | [] => throw (.noOperands .or)
    | f :: fs => fs.foldlM unite f : Lowering Fragment) := by
  split <;> infer_instance

theorem adding_joins (remaining : List (Comparison Double)) (fs : List Fragment) :
    Adding P (match fs with
    | [] => throw (.noOperands .and)
    | f :: fs => do filterAll s (← fs.foldlM intersect f) remaining : Lowering Fragment) := by
  split <;> infer_instance

instance (operands : Lowering (List Branch)) [Adding P operands] :
    Adding P (disjunction operands) := by
  have hunites := adding_unites (P := P)
  unfold disjunction
  infer_instance

instance (operand : Lowering Fragment) [Adding P operand] : Adding P (negation s operand) := by
  unfold negation
  infer_instance

instance (name : Option String) (pushed : List (Comparison Double)) (left right : Lowering Fragment)
    [Adding P left] [Adding P right] : Adding P (arrow s config name pushed left right) := by
  unfold arrow
  infer_instance

instance (target : Fragment) (targetType : Option String) :
    Adding P (searchedTypes s target targetType) := by
  unfold searchedTypes
  split <;> infer_instance

instance (distance : Option Double) (topK : Option Nat) (targetType : Option String)
    (pushed : List (Comparison Double)) (target : Lowering Fragment) [Adding P target] :
    Adding P (similarity s config distance topK targetType pushed target) := by
  unfold similarity
  refine .of_run fun _ f _ _ => .of_run fun _ types _ _ => ?_
  dsimp only
  split
  · exact .of_run fun _ _ _ hfail => nomatch hfail
  · refine .of_run fun _ p _ hp => ?_
    have hinputs : p.1.length = 1 ∨ p.1.length = 2 := by
      split at hp
      · cases hp
        exact .inl rfl
      · obtain ⟨all, _, -, hp⟩ := run_of_bind hp
        obtain ⟨candidates, _, -, hp⟩ := run_of_bind hp
        cases hp
        exact .inr rfl
    have hnearest := fun cost rows access => adding_nearest (P := P) cost rows access hinputs
      (distance.getD config.compiler.defaultDistance).toSingle topK types.names
    infer_instance

instance (second : Fragment) (targetType : Option String) :
    Adding P (analogyType s second targetType) := by
  unfold analogyType
  split
  · infer_instance
  · split <;> infer_instance

instance (targetType : Option String) (a b c : Lowering Fragment) [Adding P a] [Adding P b]
    [Adding P c] : Adding P (analogy s config targetType a b c) := by
  unfold analogy
  infer_instance

instance (direction : Direction) (objective : Objective Double)
    (constraints : List (Comparison Double)) :
    Adding P (optimization s config direction objective constraints) := by
  unfold optimization
  infer_instance

instance (qs : List Query)
    (operands : List (Comparison Double) → Option Nat → Lowering (List Branch))
    [∀ pushed target, Adding P (operands pushed target)] :
    Adding P (conjunction s config qs operands) := by
  have hjoins := adding_joins (P := P) s
  unfold conjunction
  simp only [List.partition_eq_filter_filter]
  infer_instance

end

section

variable (s : Snapshot) (config : EngineConfig)

mutual

theorem adding_lower [OfInner P] (pushed : List (Comparison Double)) :
    ∀ q : Query, Adding P (lower s config pushed q)
  | .lookup t name fuzzy => by
      rw [lower]
      infer_instance
  | .relation l name r => by
      have hl := adding_lower [] l
      have hr := adding_lower [] r
      rw [lower]
      infer_instance
  | .logical .and qs => by
      have hqs : ∀ pushed target, Adding P (conjuncts s config pushed target qs) :=
        fun pushed target => adding_conjuncts pushed target qs
      rw [lower]
      infer_instance
  | .logical .or qs => by
      have hqs := adding_branches qs
      rw [lower]
      infer_instance
  | .logical .not [] => by
      rw [lower]
      · infer_instance
      · simp
  | .logical .not [q] => by
      have hq := adding_lower [] q
      rw [lower]
      infer_instance
  | .logical .not (p :: q :: qs) => by
      rw [lower]
      · infer_instance
      · simp
  | .comparison c => by
      rw [lower]
      infer_instance
  | .similar t distance topK targetType => by
      have ht := adding_lower [] t
      rw [lower]
      infer_instance
  | .analogy a b c targetType => by
      have ha := adding_lower [] a
      have hb := adding_lower [] b
      have hc := adding_lower [] c
      rw [lower]
      infer_instance
  | .optimize direction objective constraints => by
      rw [lower]
      infer_instance

theorem adding_conjuncts [OfInner P] (pushed : List (Comparison Double)) (target : Option Nat) :
    ∀ qs : List Query, Adding P (conjuncts s config pushed target qs)
  | [] => by
      rw [conjuncts]
      infer_instance
  | q :: qs => by
      have hq := adding_lower (if target = some 0 then pushed else []) q
      have hqs := fun target => adding_conjuncts pushed target qs
      rw [conjuncts]
      infer_instance

theorem adding_branches [OfInner P] : ∀ qs : List Query, Adding P (branches s config qs)
  | [] => by
      rw [branches]
      infer_instance
  | q :: qs => by
      have hq := adding_lower [] q
      have hqs := adding_branches qs
      rw [branches]
      infer_instance

end

instance [OfInner P] (pushed : List (Comparison Double)) (q : Query) :
    Adding P (lower s config pushed q) :=
  adding_lower s config pushed q

instance [OfInner P] (pushed : List (Comparison Double)) (target : Option Nat) (qs : List Query) :
    Adding P (conjuncts s config pushed target qs) :=
  adding_conjuncts s config pushed target qs

instance [OfInner P] (qs : List Query) : Adding P (branches s config qs) :=
  adding_branches s config qs

end

end Lowering

end VectorQuery
