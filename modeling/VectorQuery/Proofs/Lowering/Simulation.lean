/-
# Lowering simulates evaluation

A lowering with the bindings of a run is compared with an evaluation that shares.  `Setting.Sim`
holds of two computations in both directions: what runs also evaluates, and what evaluates can be
lowered and run; either way the results are related.

A forward comparison looks back from the bindings that a run ends with.  A backward one runs the
operations one after the other as they are emitted.
-/
import VectorQuery.Proofs.Lowering.Growth
import VectorQuery.Proofs.Meaning.Sharing

namespace VectorQuery

open Evaluation
open Lowering (Extending Silent admitsPushdown sharingKey selectivity)

/-- The configuration with another bound for conditions that run below the root of a query. -/
def EngineConfig.withPushdown (config : EngineConfig) (threshold : Double) : EngineConfig :=
  { config with compiler := { config.compiler with pushdownSelectivity := threshold } }

/-- What is compared: lowering with a bound for conditions below the root, and evaluation with a
way to relate sides.  `pushes` are the lists of conditions that may come to stand below a root. -/
structure Setting where
  x : Executor
  config : EngineConfig
  threshold : Double
  relate : Relating
  pushes : List (Comparison Double) → Prop
  /-- Runs are compared with evaluations. -/
  fromRun : Prop
  /-- Evaluations are compared with runs. -/
  toRun : Prop
  pushes_nil : pushes []
  pushes_selective : ∀ cs, (∀ c ∈ cs, selectivity x.snapshot c < threshold) → pushes cs
  relate_of_run : fromRun → ∀ {cs : List (Comparison Double)}, pushes cs →
    ∀ {bindings : List RelationBinding} {minScore : Single} {a b : Meaning} {r : StepResult},
      x.relate bindings minScore (a.filterAll x cs).set b.set = .ok r →
        ∃ set, relate bindings minScore a.set b.set = .ok set ∧
          r.set = (Meaning.filterAll x ⟨set, a.types⟩ cs).set
  run_of_relate : toRun → ∀ {cs : List (Comparison Double)}, pushes cs →
    ∀ {bindings : List RelationBinding} {minScore : Single} {a b : Meaning} {set : ScoredSet Single},
      relate bindings minScore a.set b.set = .ok set →
        ∃ r, x.relate bindings minScore (a.filterAll x cs).set b.set = .ok r ∧
          r.set = (Meaning.filterAll x ⟨set, a.types⟩ cs).set

/-- A fragment has the types of a meaning, and its variable has the entities. -/
structure Stands (b : Bindings) (f : Fragment) (a : Meaning) : Prop where
  types : f.types = a.types
  value : b.value? f.var = some a.set

theorem Stands.mono {b b' : Bindings} {f : Fragment} {a : Meaning} (h : Stands b f a)
    (hb : b.Within b') : Stands b' f a :=
  ⟨h.types, hb _ _ h.value⟩

namespace Setting

variable (S : Setting)

/-- The configuration of lowering. -/
def lowered : EngineConfig := S.config.withPushdown S.threshold

/-- A draft and a memory that lowering and evaluation have reached together.  What is shared is
known; what is known and not shared was lowered with conditions below its root. -/
structure Agrees (b : Bindings) (d : Draft) (m : Memory) : Prop where
  numbered : Numbered d.trail
  sound : m.Sound S.x S.config S.relate
  seen : d.seen = m.seen
  shared : ∀ key f, d.shared.lookup key = some f → ∃ a, m.meaningOf? key = some a ∧ Stands b f a
  known : ∀ key a, m.meaningOf? key = some a → d.shared.lookup key = none →
    ∃ q T, q.Printable ∧ admitsPushdown q = true ∧ key = sharingKey q T

/-- A lowering and an evaluation succeed together, from bindings that hold those of `b`, with
results that are related. -/
structure Sim {α β : Type} (b : Bindings) (y : Lowering α) (z : Sharing β)
    (R : Bindings → α → β → Prop) : Prop where
  forward : S.fromRun → ∀ b', b.Within b' → ∀ d m a d', S.Agrees b' d m → y d = .ok (a, d') →
    S.x.Solves b' d'.trail → ∃ v m', z m = .ok (v, m') ∧ S.Agrees b' d' m' ∧ R b' a v
  backward : S.toRun → ∀ b', b.Within b' → ∀ d m v m', S.x.perform [] d.trail = .ok b' →
    S.Agrees b' d m → z m = .ok (v, m') →
      ∃ a d' b'', y d = .ok (a, d') ∧ S.x.perform [] d'.trail = .ok b'' ∧ b'.Within b'' ∧
        S.Agrees b'' d' m' ∧ R b'' a v

end Setting

variable {S : Setting} {α β γ δ : Type} {b : Bindings} {d : Draft} {m : Memory}

/-- The bindings are those of a list of operations. -/
theorem Executor.Solves.of_isPrefix {x : Executor} {ops ops' : List Operation}
    (h : x.Solves b ops') (hops : ops <+: ops') : x.Solves b ops :=
  fun op hop => h op (hops.subset hop)

theorem Setting.Agrees.mono {b' : Bindings} (h : S.Agrees b d m) (hb : b.Within b') :
    S.Agrees b' d m where
  numbered := h.numbered
  sound := h.sound
  seen := h.seen
  shared := by
    intro key f hf
    obtain ⟨a, ha, hstands⟩ := h.shared key f hf
    exact ⟨a, ha, hstands.mono hb⟩
  known := h.known

theorem Setting.Agrees.of_same {d' : Draft} (h : S.Agrees b d m) (htrail : d'.trail = d.trail)
    (hseen : d'.seen = d.seen) (hshared : d'.shared = d.shared) : S.Agrees b d' m where
  numbered := htrail ▸ h.numbered
  sound := h.sound
  seen := hseen.trans h.seen
  shared := hshared ▸ h.shared
  known := hshared ▸ h.known

theorem Setting.Agrees.add (h : S.Agrees b d m) {op : Operation}
    (hop : op.output = .numbered (d.operations.length + 1)) : S.Agrees b (Lowering.add d op) m :=
  ⟨Lowering.numbered_add h.numbered hop, h.sound, h.seen, h.shared, h.known⟩

namespace Setting.Sim

variable {y : Lowering α} {z : Sharing β} {R : Bindings → α → β → Prop}

theorem pure {R : Bindings → α → β → Prop} {a : α} {v : β} (h : ∀ b', b.Within b' → R b' a v) :
    S.Sim b (Pure.pure a) (Pure.pure v) R where
  forward := by
    rintro - b' hb d m _ _ hagrees ⟨⟩ -
    exact ⟨v, m, rfl, hagrees, h b' hb⟩
  backward := by
    rintro - b' hb d m _ _ hperform hagrees ⟨⟩
    exact ⟨a, d, b', rfl, hperform, .refl b', hagrees, h b' hb⟩

theorem mono {R' : Bindings → α → β → Prop} (h : S.Sim b y z R)
    (hR : ∀ b' a v, b.Within b' → R b' a v → R' b' a v) : S.Sim b y z R' where
  forward := by
    intro hfrom b' hb d m a d' hagrees hrun hsolves
    obtain ⟨v, m', hz, hagrees', hr⟩ := h.forward hfrom b' hb d m a d' hagrees hrun hsolves
    exact ⟨v, m', hz, hagrees', hR b' a v hb hr⟩
  backward := by
    intro hto b' hb d m v m' hperform hagrees hrun
    obtain ⟨a, d', b'', hy, hperform', hb', hagrees', hr⟩ :=
      h.backward hto b' hb d m v m' hperform hagrees hrun
    exact ⟨a, d', b'', hy, hperform', hb', hagrees', hR b'' a v (hb.trans hb') hr⟩

/-- One computation after another. -/
theorem bind {f : α → Lowering γ} {g : β → Sharing δ} {R' : Bindings → γ → δ → Prop}
    [∀ a, Extending (f a)] (h : S.Sim b y z R)
    (hf : ∀ b' a v, b.Within b' → R b' a v → S.Sim b' (f a) (g v) R') :
    S.Sim b (y >>= f) (z >>= g) R' where
  forward := by
    intro hfrom b' hb d m c d' hagrees hrun hsolves
    obtain ⟨a, d₁, hy, hrest⟩ := run_of_bind hrun
    have hops := (Extending.extends_run d₁ c d' hrest).1
    obtain ⟨v, m₁, hz, hagrees', hr⟩ :=
      h.forward hfrom b' hb d m a d₁ hagrees hy (hsolves.of_isPrefix hops)
    obtain ⟨w, m', hz', hagrees'', hr'⟩ :=
      (hf b' a v hb hr).forward hfrom b' (.refl b') d₁ m₁ c d' hagrees' hrest hsolves
    exact ⟨w, m', (bind_run hz).trans hz', hagrees'', hr'⟩
  backward := by
    intro hto b' hb d m w m' hperform hagrees hrun
    obtain ⟨v, m₁, hz, hrest⟩ := run_of_bind hrun
    obtain ⟨a, d₁, b₁, hy, hperform', hb', hagrees', hr⟩ :=
      h.backward hto b' hb d m v m₁ hperform hagrees hz
    obtain ⟨c, d', b₂, hy', hperform'', hb'', hagrees'', hr'⟩ :=
      (hf b₁ a v (hb.trans hb') hr).backward hto b₁ (.refl b₁) d₁ m₁ w m' hperform' hagrees' hrest
    exact ⟨c, d', b₂, (bind_run hy).trans hy', hperform'', hb'.trans hb'', hagrees'', hr'⟩

/-- What lowering does in silence is not compared. -/
theorem silent {f : α → Lowering γ} {w : Sharing δ} {R' : Bindings → γ → δ → Prop} [Silent y]
    (hf : ∀ a, S.Sim b (f a) w R') : S.Sim b (y >>= f) w R' where
  forward := by
    intro hfrom b' hb d m c d' hagrees hrun hsolves
    obtain ⟨a, d₁, hy, htrail, hseen, hshared⟩ := Silent.silent_run (y := y) d
    rw [bind_run hy] at hrun
    exact (hf a).forward hfrom b' hb d₁ m c d' (hagrees.of_same htrail hseen hshared) hrun hsolves
  backward := by
    intro hto b' hb d m v m' hperform hagrees hrun
    obtain ⟨a, d₁, hy, htrail, hseen, hshared⟩ := Silent.silent_run (y := y) d
    rw [bind_run hy]
    exact (hf a).backward hto b' hb d₁ m v m' (htrail ▸ hperform)
      (hagrees.of_same htrail hseen hshared) hrun

/-- A check that both make. -/
theorem lift {e : Except PlanError α} {f : α → Lowering γ} {g : α → Sharing δ}
    {R' : Bindings → γ → δ → Prop} (hf : ∀ a, e = .ok a → S.Sim b (f a) (g a) R') :
    S.Sim b ((liftM e : Lowering α) >>= f) ((liftM (planned e) : Sharing α) >>= g) R' := by
  cases e with
  | error e =>
      constructor
      · rintro - b' hb d m c d' hagrees ⟨⟩
      · rintro - b' hb d m v m' hperform hagrees ⟨⟩
  | ok a => exact ⟨(hf a rfl).forward, (hf a rfl).backward⟩

/-- Types that both see. -/
theorem see {types : TypeSet} {f : Unit → Lowering γ} {g : Unit → Sharing δ}
    {R' : Bindings → γ → δ → Prop} (htypes : ∀ n ∈ types.names, S.x.snapshot.hasType n = true)
    (hf : S.Sim b (f ()) (g ()) R') :
    S.Sim b (Lowering.see types >>= f) ((Strategy.sharing S.relate).see types >>= g) R' := by
  have hagrees : ∀ {b' : Bindings} {d : Draft} {m : Memory}, S.Agrees b' d m →
      S.Agrees b' { d with seen := d.seen.union types } (m.see types) := by
    intro b' d m h
    exact ⟨h.numbered, h.sound.see htypes, congrArg (·.union types) h.seen, h.shared, h.known⟩
  constructor
  · intro hfrom b' hb d m c d' h hrun hsolves
    exact hf.forward hfrom b' hb _ _ c d' (hagrees h) hrun hsolves
  · intro hto b' hb d m v m' hperform h hrun
    exact hf.backward hto b' hb _ _ v m' hperform (hagrees h) hrun

/-- An operation and what the evaluation computes in its place. -/
theorem operation {action : Action} {inputs : List Variable} {cost rows rows' : Double}
    {access : Access} {types : TypeSet} {e : Except ExecutionError γ} {g : γ → Meaning}
    (h : Meaning → Meaning) (htypes : ∀ c, (h (g c)).types = types)
    (hfrom : S.fromRun → ∀ b' op r, b.Within b' → op.action = action → op.inputs = inputs →
      S.x.step b'.value? op = .ok r → ∃ c, e = .ok c ∧ r.set = (h (g c)).set)
    (hto : S.toRun → ∀ b' op c, b.Within b' → op.action = action → op.inputs = inputs →
      e = .ok c → ∃ r, S.x.step b'.value? op = .ok r ∧ r.set = (h (g c)).set) :
    S.Sim b
      (Lowering.emit action inputs cost rows access >>= fun v => Pure.pure ⟨v, types, rows'⟩)
      ((liftM (executed e) : Sharing γ) >>= fun c => Pure.pure (g c))
      fun b' f a => Stands b' f (h a) where
  forward := by
    intro hrun b' hb d m f d' hagrees hy hsolves
    rw [bind_run (Lowering.run_emit ..)] at hy
    cases hy
    have hnext := hagrees.add
      (show (Lowering.emitted _ action inputs cost rows access).output = _ from rfl)
    rw [Lowering.trail_add] at hsolves
    obtain ⟨r, hstep, hvalue⟩ := hsolves _ (List.mem_append_right _ (List.mem_singleton_self _))
    obtain ⟨c, rfl, hset⟩ := hfrom hrun b' _ r hb rfl rfl hstep
    exact ⟨g c, m, rfl, hnext, (htypes c).symm, hvalue.trans (by rw [hset])⟩
  backward := by
    intro hrun b' hb d m a m' hperform hagrees hz
    obtain ⟨c, he, hrest⟩ := run_of_lift_bind hz
    cases hrest
    have hnext := hagrees.add
      (show (Lowering.emitted _ action inputs cost rows access).output = _ from rfl)
    have hnone := Executor.value?_next hagrees.numbered hperform
    rw [d.length_trail] at hnone
    obtain ⟨r, hstep, hset⟩ := hto hrun b'
      (Lowering.emitted d.operations.length action inputs cost rows access) c hb rfl rfl
      (ok_of_mapError he)
    have hwithin := Bindings.within_bind hnone r.set
    refine ⟨_, _, _, bind_run (Lowering.run_emit ..), ?_, hwithin, hnext.mono hwithin,
      (htypes c).symm, ?_⟩
    · rw [Lowering.trail_add]
      exact Executor.perform_concat hperform hstep
    · rw [Bindings.value?_bind, if_pos rfl, hset]

/-- An operation that does not fail. -/
theorem operation_pure {action : Action} {inputs : List Variable} {cost rows rows' : Double}
    {access : Access} {a : Meaning} {types : TypeSet} (htypes : types = a.types)
    (hstep : ∀ b' op, b.Within b' → op.action = action → op.inputs = inputs →
      ∃ r, S.x.step b'.value? op = .ok r ∧ r.set = a.set) :
    S.Sim b
      (Lowering.emit action inputs cost rows access >>= fun v => Pure.pure ⟨v, types, rows'⟩)
      (Pure.pure a) Stands := by
  refine operation (e := .ok ()) (g := fun _ => a) id (fun _ => htypes.symm) ?_ ?_
  · rintro - b' op r hb haction hinputs hr
    obtain ⟨r', hr', hset⟩ := hstep b' op hb haction hinputs
    rw [hr] at hr'
    cases hr'
    exact ⟨(), rfl, hset⟩
  · rintro - b' op _ hb haction hinputs -
    exact hstep b' op hb haction hinputs

/-- An operation that computes what the evaluation computes. -/
theorem operation_same {action : Action} {inputs : List Variable} {cost rows rows' : Double}
    {access : Access} {types : TypeSet} {e : Except ExecutionError StepResult}
    (hstep : ∀ b' op, b.Within b' → op.action = action → op.inputs = inputs →
      S.x.step b'.value? op = e) :
    S.Sim b
      (Lowering.emit action inputs cost rows access >>= fun v => Pure.pure ⟨v, types, rows'⟩)
      ((liftM (executed e) : Sharing StepResult) >>= fun r => Pure.pure ⟨r.set, types⟩) Stands := by
  refine operation id (fun _ => rfl) ?_ ?_
  · rintro - b' op r hb haction hinputs hr
    rw [hstep b' op hb haction hinputs] at hr
    exact ⟨r, hr, rfl⟩
  · rintro - b' op r hb haction hinputs hr
    exact ⟨r, (hstep b' op hb haction hinputs).trans hr, rfl⟩

/-- Operations made in a branch. -/
theorem branch {y : Lowering Fragment} {z : Sharing β} {R : Bindings → Fragment → β → Prop}
    (h : S.Sim b y z R) : S.Sim b (Lowering.branch y) z fun b' br v => R b' br.fragment v where
  forward := by
    intro hfrom b' hb d m br d' hagrees hrun hsolves
    rw [Lowering.run_branch] at hrun
    obtain ⟨⟨f, d₁⟩, hy, heq⟩ := ok_of_map hrun
    cases heq
    exact h.forward hfrom b' hb d m f d₁ hagrees hy hsolves
  backward := by
    intro hto b' hb d m v m' hperform hagrees hz
    obtain ⟨f, d', b'', hy, hrest⟩ := h.backward hto b' hb d m v m' hperform hagrees hz
    refine ⟨⟨d.operations.length, d'.operations.length, f⟩, d', b'', ?_, hrest⟩
    rw [Lowering.run_branch, hy]
    rfl

end Setting.Sim

end VectorQuery
