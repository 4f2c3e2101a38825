/-
# Each shape of a query, lowered and evaluated

One lemma a shape: if lowering simulates evaluation on the operands, it does on the whole.  Those of
arrows and searches also say what conditions below the root amount to: the same conditions above.
-/
import VectorQuery.Proofs.Lowering.Simulation
import VectorQuery.Proofs.Meaning.Pushdown

namespace VectorQuery

open Evaluation
open Lowering (Extending Silent)

/-! ## Checks -/

namespace Lowering

theorem checkType_eq (s : Snapshot) (name : String) :
    checkType s name = liftM (Evaluation.checkType s name) := by
  unfold checkType Evaluation.checkType
  split <;> rfl

theorem checkField_eq (s : Snapshot) (field : String) :
    checkField s field = liftM (Evaluation.checkField s field) := by
  unfold checkField Evaluation.checkField
  split <;> rfl

theorem forM_eq {α : Type} {f : α → Lowering PUnit} {g : α → Except PlanError PUnit}
    (h : ∀ a, f a = liftM (g a)) (l : List α) : l.forM f = liftM (l.forM g) := by
  induction l with
  | nil => rfl
  | cons a l ih =>
      change (f a >>= fun _ => l.forM f) = liftM (g a >>= fun _ => l.forM g)
      rw [h, ih]
      cases g a with
      | error e => rfl
      | ok u => rfl

theorem checkConditions_eq (s : Snapshot) (cs : List (Comparison Double)) :
    (cs.forM fun c => checkField s c.field) = liftM (checkConditions s cs) :=
  forM_eq (fun c => checkField_eq s c.field) cs

theorem checkTerm_eq (s : Snapshot) (t : Term Double) :
    checkTerm s t = liftM (Evaluation.checkTerm s t) := by
  unfold checkTerm Evaluation.checkTerm
  rw [checkField_eq]
  cases isBuiltinField t.field with
  | true => rfl
  | false =>
      cases Evaluation.checkField s t.field with
      | error e => rfl
      | ok u => cases t.weight.isFinite <;> rfl

theorem analogyType_eq (s : Snapshot) (second : Fragment) (targetType : Option String) :
    analogyType s second targetType = liftM (Evaluation.analogyType s second.types targetType) := by
  unfold analogyType Evaluation.analogyType
  cases targetType with
  | some t =>
      dsimp only
      rw [checkType_eq]
      cases Evaluation.checkType s t with
      | error e => rfl
      | ok u => rfl
  | none =>
      match second.types.names with
      | [] => rfl
      | [t] => rfl
      | t :: u :: ts => rfl

end Lowering

variable {S : Setting} {α β γ δ : Type} {b : Bindings}

/-- A fragment stands for a meaning whose types are known. -/
structure Setting.Knows (S : Setting) (b : Bindings) (f : Fragment) (a : Meaning) : Prop extends
    Stands b f a where
  typed : ∀ n ∈ a.types.names, S.x.snapshot.hasType n = true

theorem Executor.input_eq {value? : Variable → Option (ScoredSet Single)} {op : Operation} {n : Nat}
    {v : Variable} {set : ScoredSet Single} (hv : op.inputs[n]? = some v)
    (hset : value? v = some set) : Executor.input value? op n = .ok set := by
  unfold input
  rw [hv]
  dsimp only
  rw [hset]

namespace Setting.Sim

/-! ## Rules for evaluations that take no step -/

/-- A result that stands for another one. -/
theorem replace {y : Lowering α} {v : β} {w : δ} {R : Bindings → α → δ → Prop}
    {R' : Bindings → α → β → Prop} (h : S.Sim b y (Pure.pure w) R)
    (hR : ∀ b' a, R b' a w → R' b' a v) : S.Sim b y (Pure.pure v) R' where
  forward := by
    intro hfrom b' hb d m a d' hagrees hy hsolves
    obtain ⟨w', m', hz, hagrees', hr⟩ := h.forward hfrom b' hb d m a d' hagrees hy hsolves
    cases hz
    exact ⟨v, m, rfl, hagrees', hR b' a hr⟩
  backward := by
    intro hto b' hb d m v' m' hperform hagrees hz
    cases hz
    obtain ⟨a, d', b'', hy, hperform', hb', hagrees', hr⟩ :=
      h.backward hto b' hb d m w m hperform hagrees rfl
    exact ⟨a, d', b'', hy, hperform', hb', hagrees', hR b'' a hr⟩

theorem advance {y : Lowering α} {v : β} {R : Bindings → α → β → Prop} {f : α → Lowering γ}
    {w : Sharing δ} {R' : Bindings → γ → δ → Prop} [∀ a, Extending (f a)]
    (h : S.Sim b y (Pure.pure v) R)
    (hf : ∀ b' a, b.Within b' → R b' a v → S.Sim b' (f a) w R') : S.Sim b (y >>= f) w R' := by
  have hsame : S.Sim b y (Pure.pure v) fun b' a v' => v' = v ∧ R b' a v :=
    replace h fun _ _ hr => ⟨rfl, hr⟩
  have hbind := bind (g := fun _ => w) hsame fun b' a v' hb hr => hf b' a hb hr.2
  rwa [pure_bind] at hbind

/-- More operations on a result. -/
theorem finish {y : Lowering α} {z : Sharing β} {R : Bindings → α → β → Prop} {f : α → Lowering γ}
    {R' : Bindings → γ → β → Prop} [∀ a, Extending (f a)] (h : S.Sim b y z R)
    (hf : ∀ b' a v, b.Within b' → R b' a v → S.Sim b' (f a) (Pure.pure v) R') :
    S.Sim b (y >>= f) z R' := by
  have hbind := bind (g := Pure.pure) h hf
  rwa [bind_pure] at hbind

/-- The types seen, which both read. -/
theorem seen {f : Draft → Lowering γ} {g : TypeSet → Sharing δ} {R : Bindings → γ → δ → Prop}
    (h : ∀ d : Draft, S.Sim b (f d) (g d.seen) R) :
    S.Sim b (get >>= f) ((Strategy.sharing S.relate).seen >>= g) R where
  forward := by
    intro hfrom b' hb d m c d' hagrees hy hsolves
    have hz := (h d).forward hfrom b' hb d m c d' hagrees hy hsolves
    rwa [hagrees.seen] at hz
  backward := by
    intro hto b' hb d m v m' hperform hagrees hz
    refine (h d).backward hto b' hb d m v m' hperform hagrees ?_
    rw [hagrees.seen]
    exact hz

/-- A test that both make. -/
theorem test {p : Prop} [Decidable p] {e : PlanError} {f : PUnit → Lowering γ} {y : Lowering γ}
    {z : Sharing δ} {R : Bindings → γ → δ → Prop} (h : S.Sim b y z R) :
    S.Sim b (if p then (throw e : Lowering PUnit) >>= f else y)
      ((liftM (planned (if p then .error e else .ok ())) : Sharing Unit) >>= fun _ => z) R := by
  by_cases hp : p
  · rw [if_pos hp, if_pos hp]
    constructor
    · rintro - b' _ d m a d' _ ⟨⟩
    · rintro - b' _ d m v m' _ _ ⟨⟩
  · rw [if_neg hp, if_neg hp]
    exact h

/-! ## Single operations -/

theorem scan (b : Bindings) (types : TypeSet) :
    S.Sim b (Lowering.scan S.x.snapshot types) (Pure.pure (.everything S.x types)) Stands := by
  refine operation_pure rfl ?_
  intro b' op _ haction _
  unfold Executor.step
  rw [haction]
  exact ⟨_, rfl, rfl⟩

theorem scanSeen (b : Bindings) :
    S.Sim b (Lowering.scanSeen S.x.snapshot) (everything S.x (.sharing S.relate)) Stands :=
  seen fun d => scan b d.seen

theorem filter {f : Fragment} {a : Meaning} (h : Stands b f a) (c : Comparison Double) :
    S.Sim b (Lowering.filter S.x.snapshot f c) (Pure.pure (a.filter S.x c)) Stands := by
  refine operation_pure h.types ?_
  intro b' op hb haction hinputs
  have hinput : Executor.input b'.value? op 0 = .ok a.set :=
    Executor.input_eq (by rw [hinputs]; rfl) (h.mono hb).value
  unfold Executor.step
  rw [haction]
  dsimp only
  rw [hinput]
  exact ⟨_, rfl, rfl⟩

theorem filterAll {f : Fragment} {a : Meaning} (h : Stands b f a)
    (cs : List (Comparison Double)) :
    S.Sim b (Lowering.filterAll S.x.snapshot f cs) (Pure.pure (a.filterAll S.x cs)) Stands := by
  unfold Lowering.filterAll
  induction cs generalizing b f a with
  | nil => exact pure fun b' hb => h.mono hb
  | cons c cs ih =>
      rw [List.foldlM_cons]
      exact advance (filter h c) fun b' f' _ hf' => ih hf'

theorem intersect {f f' : Fragment} {a a' : Meaning} (h : Stands b f a) (h' : Stands b f' a') :
    S.Sim b (Lowering.intersect f f') (Pure.pure (a.both a')) Stands := by
  refine operation_pure (by rw [h.types, h'.types]; rfl) ?_
  intro b' op hb haction hinputs
  have hinput : Executor.input b'.value? op 0 = .ok a.set :=
    Executor.input_eq (by rw [hinputs]; rfl) (h.mono hb).value
  have hinput' : Executor.input b'.value? op 1 = .ok a'.set :=
    Executor.input_eq (by rw [hinputs]; rfl) (h'.mono hb).value
  unfold Executor.step
  rw [haction]
  dsimp only
  rw [hinput, hinput']
  exact ⟨_, rfl, rfl⟩

theorem unite {f f' : Fragment} {a a' : Meaning} (h : Stands b f a) (h' : Stands b f' a') :
    S.Sim b (Lowering.unite f f') (Pure.pure (a.either a')) Stands := by
  refine operation_pure (by rw [h.types, h'.types]; rfl) ?_
  intro b' op hb haction hinputs
  have hinput : Executor.input b'.value? op 0 = .ok a.set :=
    Executor.input_eq (by rw [hinputs]; rfl) (h.mono hb).value
  have hinput' : Executor.input b'.value? op 1 = .ok a'.set :=
    Executor.input_eq (by rw [hinputs]; rfl) (h'.mono hb).value
  unfold Executor.step
  rw [haction]
  dsimp only
  rw [hinput, hinput']
  exact ⟨_, rfl, rfl⟩

/-! ## Shapes without operands -/

theorem lookup (b : Bindings) (t name : String) (fuzzy : Bool) :
    S.Sim b (Lowering.lookup S.x.snapshot t name fuzzy)
      (Evaluation.lookup S.x (.sharing S.relate) t name fuzzy) Stands := by
  unfold Lowering.lookup
  rw [Lowering.checkType_eq]
  refine lift fun u hcheck => see (typed_single (hasType_of_checkType (u := u) (by rw [hcheck]; rfl))) ?_
  refine operation_pure rfl ?_
  intro b' op _ haction _
  unfold Executor.step
  rw [haction]
  exact ⟨_, rfl, rfl⟩

theorem comparison (b : Bindings) (c : Comparison Double) :
    S.Sim b (Lowering.bareComparison S.x.snapshot c)
      (Evaluation.comparison S.x (.sharing S.relate) c) Stands := by
  unfold Lowering.bareComparison
  rw [Lowering.checkField_eq]
  exact lift fun _ _ => bind (scanSeen b) fun b' f a _ h => filter h c

theorem optimization (b : Bindings) (direction : Direction) (objective : Objective Double)
    (constraints : List (Comparison Double)) :
    S.Sim b (Lowering.optimization S.x.snapshot S.lowered direction objective constraints)
      (Evaluation.optimization S.x (.sharing S.relate) direction objective constraints)
      Stands := by
  unfold Lowering.optimization
  rw [Lowering.checkConditions_eq, Lowering.forM_eq (Lowering.checkTerm_eq S.x.snapshot)]
  refine lift fun _ _ => lift fun _ _ => bind (scanSeen b) fun b' f a _ h => ?_
  have hemit : ∀ b'', b'.Within b'' → ∀ (cost rows rows' : Double), S.Sim b''
      (Lowering.emit (.optimize direction objective
          (constraints.filter fun c => (Lowering.budget? c).isNone)
          (constraints.filterMap Lowering.budget?)) [f.var] cost rows .metadata >>= fun v =>
        Pure.pure ⟨v, f.types, rows'⟩)
      (Pure.pure ⟨(S.x.optimize ⟨direction, objective,
          constraints.filter fun c => (Lowering.budget? c).isNone,
          constraints.filterMap Lowering.budget?⟩ a.set).set, a.types⟩) Stands := by
    intro b'' hb' cost rows rows'
    refine operation_pure h.types ?_
    intro b₃ op hb haction hinputs
    have hinput : Executor.input b₃.value? op 0 = .ok a.set :=
      Executor.input_eq (by rw [hinputs]; rfl) (h.mono (hb'.trans hb)).value
    unfold Executor.step
    rw [haction]
    dsimp only
    rw [hinput]
    exact ⟨_, rfl, rfl⟩
  dsimp only
  split
  · exact silent fun _ => hemit b' (.refl b') _ _ _
  · exact hemit b' (.refl b') _ _ _

/-! ## Shapes with operands -/

variable {y y' y'' : Lowering Fragment} {z z' z'' : Sharing Meaning}

theorem negation (h : ∀ b, S.Sim b y z S.Knows) (b : Bindings) :
    S.Sim b (Lowering.negation S.x.snapshot y) (Evaluation.negation S.x (.sharing S.relate) z)
      Stands := by
  unfold Lowering.negation
  refine bind (branch (h b)) fun b₁ inner a _ ha => ?_
  refine bind (branch (scanSeen b₁)) fun b₂ all v hb₁ hv => ?_
  refine silent fun _ => operation_pure hv.types ?_
  intro b' op hb haction hinputs
  have hinput : Executor.input b'.value? op 0 = .ok a.set :=
    Executor.input_eq (by rw [hinputs]; rfl) (ha.mono (hb₁.trans hb)).value
  have hinput' : Executor.input b'.value? op 1 = .ok v.set :=
    Executor.input_eq (by rw [hinputs]; rfl) (hv.mono hb).value
  unfold Executor.step
  rw [haction]
  dsimp only
  rw [hinput, hinput']
  exact ⟨_, rfl, rfl⟩

/-- Conditions on the left of an arrow are conditions on the whole. -/
theorem arrow [Extending y'] (name : Option String) {pushed : List (Comparison Double)}
    (hpushed : S.pushes pushed) (h : ∀ b, S.Sim b y z S.Knows) (h' : ∀ b, S.Sim b y' z' S.Knows)
    (b : Bindings) :
    S.Sim b (Lowering.arrow S.x.snapshot S.lowered name pushed y y')
      (Evaluation.arrow S.x S.config (.sharing S.relate) name z z')
      fun b' f a => Stands b' f (a.filterAll S.x pushed) := by
  have hleft : S.Sim b (y >>= fun f => Lowering.filterAll S.x.snapshot f pushed) z
      fun b' f a => Stands b' f (a.filterAll S.x pushed) :=
    finish (h b) fun _ _ _ _ hf => replace (filterAll hf.toStands pushed) fun _ _ h => h
  unfold Lowering.arrow
  refine bind (branch hleft) fun b₁ l a _ ha => ?_
  refine bind (branch (h' b₁)) fun b₂ r v hb₁ hv => silent fun _ => ?_
  have hla := ha.types
  rw [Meaning.types_filterAll] at hla
  dsimp only
  rw [hla, hv.types]
  refine lift fun bindings _ => ?_
  refine operation (g := fun set => Meaning.mk set a.types) (fun c => c.filterAll S.x pushed) ?_ ?_ ?_
  · intro set
    rw [Meaning.types_filterAll]
  · intro hfrom b' op res hb haction hinputs hstep
    have hinput : Executor.input b'.value? op 0 = .ok (a.filterAll S.x pushed).set :=
      Executor.input_eq (by rw [hinputs]; rfl) (ha.mono (hb₁.trans hb)).value
    have hinput' : Executor.input b'.value? op 1 = .ok v.set :=
      Executor.input_eq (by rw [hinputs]; rfl) (hv.mono hb).value
    unfold Executor.step at hstep
    rw [haction] at hstep
    dsimp only at hstep
    rw [hinput, hinput'] at hstep
    exact S.relate_of_run hfrom hpushed hstep
  · intro hto b' op set hb haction hinputs hset
    have hinput : Executor.input b'.value? op 0 = .ok (a.filterAll S.x pushed).set :=
      Executor.input_eq (by rw [hinputs]; rfl) (ha.mono (hb₁.trans hb)).value
    have hinput' : Executor.input b'.value? op 1 = .ok v.set :=
      Executor.input_eq (by rw [hinputs]; rfl) (hv.mono hb).value
    unfold Executor.step
    rw [haction]
    dsimp only
    rw [hinput, hinput']
    exact S.run_of_relate hto hpushed hset

theorem searchedTypes {f : Fragment} {a : Meaning} (h : S.Knows b f a)
    (targetType : Option String) :
    S.Sim b (Lowering.searchedTypes S.x.snapshot f targetType)
      (Evaluation.searchedTypes S.x (.sharing S.relate) a targetType)
      fun _ types types' => types = types' ∧ ∀ n ∈ types.names, S.x.snapshot.hasType n = true := by
  unfold Lowering.searchedTypes Evaluation.searchedTypes
  cases targetType with
  | none =>
      refine pure fun _ _ => ⟨h.types, ?_⟩
      rw [h.types]
      exact h.typed
  | some t =>
      dsimp only
      rw [Lowering.checkType_eq]
      refine lift fun u hcheck => ?_
      have htyped := typed_single (x := S.x) (hasType_of_checkType (u := u) (by rw [hcheck]; rfl))
      exact see htyped (pure fun _ _ => ⟨rfl, htyped⟩)

/-- A search, with conditions on its candidates or none. -/
theorem search {f : Fragment} {a : Meaning} (h : Stands b f a) (d : Single) {topK : Option Nat}
    {types : TypeSet} (htypes : ∀ n ∈ types.names, S.x.snapshot.hasType n = true)
    {pushed : List (Comparison Double)} {inputs : List Variable}
    (hinputs : (pushed = [] ∧ inputs = [f.var]) ∨ (topK = none ∧ ∃ c : Fragment,
      inputs = [f.var, c.var] ∧ Stands b c ((Meaning.everything S.x types).filterAll S.x pushed)))
    {cost rows rows' : Double} {access : Access} :
    S.Sim b
      (Lowering.emit (.nearest d topK types.names) inputs cost rows access >>= fun v =>
        Pure.pure ⟨v, types, rows'⟩)
      ((liftM (executed (S.x.nearest d topK types.names none a.set)) : Sharing StepResult) >>=
        fun found => Pure.pure (Meaning.mk found.set types))
      fun b' f (v : Meaning) => Stands b' f (v.filterAll S.x pushed) := by
  have hmap : ∀ b' op, b.Within b' → op.action = .nearest d topK types.names → op.inputs = inputs →
      (S.x.step b'.value? op).map (·.set) = (S.x.nearest d topK types.names none a.set).map
        fun r => (Meaning.filterAll S.x ⟨r.set, types⟩ pushed).set := by
    intro b' op hb haction hop
    unfold Executor.step
    rw [haction]
    dsimp only
    rcases hinputs with ⟨rfl, rfl⟩ | ⟨rfl, c, rfl, hc⟩
    · rw [hop, Executor.input_eq (n := 0) (by rw [hop]; rfl) (h.mono hb).value]
      rfl
    · rw [hop, Executor.input_eq (n := 0) (by rw [hop]; rfl) (h.mono hb).value,
        Executor.input_eq (n := 1) (by rw [hop]; rfl) (hc.mono hb).value]
      simp only [Meaning.filterAll_eq]
      exact Executor.nearest_retain htypes d (Meaning.accepts S.x pushed) a.set
  refine operation (g := fun found : StepResult => Meaning.mk found.set types)
    (fun v => v.filterAll S.x pushed) ?_ ?_ ?_
  · intro found
    rw [Meaning.types_filterAll]
  · rintro - b' op r hb haction hop hr
    have hrun := hmap b' op hb haction hop
    rw [hr] at hrun
    obtain ⟨found, hfound, hset⟩ := ok_of_map hrun.symm
    exact ⟨found, hfound, hset.symm⟩
  · rintro - b' op found hb haction hop hfound
    have hrun := hmap b' op hb haction hop
    rw [hfound] at hrun
    obtain ⟨r, hr, hset⟩ := ok_of_map hrun
    exact ⟨r, hr, hset⟩

/-- Conditions on the candidates of a search without a limit are conditions on what it finds. -/
theorem similarity (distance : Option Double) {topK : Option Nat} (targetType : Option String)
    {pushed : List (Comparison Double)} (hpushed : pushed ≠ [] → topK = none)
    (h : ∀ b, S.Sim b y z S.Knows) (b : Bindings) :
    S.Sim b (Lowering.similarity S.x.snapshot S.lowered distance topK targetType pushed y)
      (Evaluation.similarity S.x S.config (.sharing S.relate) distance topK targetType z)
      fun b' f a => Stands b' f (a.filterAll S.x pushed) := by
  unfold Lowering.similarity
  refine bind (h b) fun b₁ f a _ ha => ?_
  refine bind (searchedTypes ha targetType) ?_
  rintro b₂ types _ hb₁ ⟨rfl, htypes⟩
  have ha := ha.toStands.mono hb₁
  refine test ?_
  cases pushed with
  | nil => exact search ha _ htypes (.inl ⟨rfl, rfl⟩)
  | cons c cs =>
      have hcandidates : S.Sim b₂
          (do
            let candidates ←
              Lowering.filterAll S.x.snapshot (← Lowering.scan S.x.snapshot types) (c :: cs)
            Pure.pure ([f.var, candidates.var], Access.bruteForce,
              Quantity.greater candidates.rows 1))
          (Pure.pure ((Meaning.everything S.x types).filterAll S.x (c :: cs)))
          fun b' p v => ∃ g : Fragment, p.1 = [f.var, g.var] ∧ Stands b' g v :=
        advance (scan b₂ types) fun _ _ _ hall =>
          advance (filterAll hall (c :: cs)) fun _ g _ hg =>
            pure fun _ hb => ⟨g, rfl, hg.mono hb⟩
      refine advance hcandidates ?_
      rintro b₃ ⟨inputs, access, cost⟩ hb₂ ⟨g, rfl, hg⟩
      exact search (ha.mono hb₂) _ htypes
        (.inr ⟨hpushed (List.cons_ne_nil _ _), g, rfl, hg⟩)

theorem analogy [Extending y'] [Extending y''] (targetType : Option String)
    (h : ∀ b, S.Sim b y z S.Knows)
    (h' : ∀ b, S.Sim b y' z' S.Knows) (h'' : ∀ b, S.Sim b y'' z'' S.Knows) (b : Bindings) :
    S.Sim b (Lowering.analogy S.x.snapshot S.lowered targetType y y' y'')
      (Evaluation.analogy S.x S.config (.sharing S.relate) targetType z z' z'') Stands := by
  unfold Lowering.analogy
  refine bind (branch (h b)) fun b₁ f a _ ha => ?_
  refine bind (branch (h' b₁)) fun b₂ f' a' hb₁ ha' => ?_
  refine bind (branch (h'' b₂)) fun b₃ f'' a'' hb₂ ha'' => silent fun _ => ?_
  rw [Lowering.analogyType_eq, ha'.types]
  refine lift fun t ht => see (typed_single (hasType_of_analogyType ht ha'.typed)) ?_
  refine operation_same fun b' op hb haction hinputs => ?_
  have ha := ha.toStands.mono ((hb₁.trans hb₂).trans hb)
  have ha' := ha'.toStands.mono (hb₂.trans hb)
  have ha'' := ha''.toStands.mono hb
  unfold Executor.step
  rw [haction]
  dsimp only
  rw [Executor.input_eq (n := 0) (by rw [hinputs]; rfl) ha.value,
    Executor.input_eq (n := 1) (by rw [hinputs]; rfl) ha'.value,
    Executor.input_eq (n := 2) (by rw [hinputs]; rfl) ha''.value]
  rfl

end Setting.Sim

end VectorQuery
