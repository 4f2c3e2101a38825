/-
# Every query, lowered and evaluated

Lowering simulates an evaluation that shares (`Setting.simulates`).  A subquery whose fragment is
shared has a known meaning.  The other way round fails for the one operand of a conjunction that is
lowered with conditions below its root: its meaning is known and its fragment is not shared.  When
such a subquery comes up again it is lowered anew, and evaluating it anew yields the meaning known.
-/
import Mathlib.Data.List.Forall2
import VectorQuery.Proofs.Lowering.Shapes

namespace VectorQuery

open Evaluation
open Lowering (Extending Silent Branch admitsPushdown readsSeen sharingKey comparison?)

variable {S : Setting} {b : Bindings} {d : Draft} {m : Memory} {q : Query} {a : Meaning}

/-! ## Memories and drafts -/

theorem Memory.Sound.evaluate_eq (hm : m.Sound S.x S.config S.relate)
    (ha : m.meaningOf? (sharingKey q m.seen) = some a) :
    evaluateShared S.x S.config S.relate q m = .ok (a, m) := by
  obtain ⟨-, -, -, -, hwithin, -⟩ := hm.entry _ a ha
  refine (reuse_of_known ha).trans ?_
  rw [Memory.see_eq hwithin]

/-- A known query that admits conditions below its root has the same meaning when it is computed. -/
theorem Memory.Sound.compute_eq (hm : m.Sound S.x S.config S.relate) (hq : q.Printable)
    (hadmits : admitsPushdown q = true) (ha : m.meaningOf? (sharingKey q m.seen) = some a) :
    computeShared S.x S.config S.relate q m = .ok (a, m) := by
  obtain ⟨q', T, hq', hkey, -, hrepeats⟩ := hm.entry _ a ha
  obtain ⟨rfl, htext⟩ := Lowering.sharingKey_injective hq hq' hkey
  exact hrepeats hadmits m (.refl m) htext

/-- A query that is not known becomes known. -/
theorem Memory.Sound.evaluate_unknown {m' : Memory} (hm : m.Sound S.x S.config S.relate)
    (hq : q.Printable) (hnone : m.meaningOf? (sharingKey q m.seen) = none)
    (hrun : computeShared S.x S.config S.relate q m = .ok (a, m')) :
    evaluateShared S.x S.config S.relate q m = .ok (a, m'.remember (sharingKey q m.seen) a) ∧
      m'.meaningOf? (sharingKey q m.seen) = none ∧
        (m'.remember (sharingKey q m.seen) a).Sound S.x S.config S.relate := by
  have heval : evaluateShared S.x S.config S.relate q m =
      .ok (a, m'.remember (sharingKey q m.seen) a) := by
    exact (reuse_of_unknown hnone).trans (congrArg (Except.map _) hrun)
  exact ⟨heval, (computes hq m a m' hm hrun).1.fresh.meaningOf?_eq_none hq hnone,
    (evaluates hq m a _ hm heval).1.sound⟩

namespace Setting.Agrees

theorem admits (h : S.Agrees b d m) (hq : q.Printable)
    (ha : m.meaningOf? (sharingKey q m.seen) = some a)
    (hf : d.shared.lookup (sharingKey q m.seen) = none) : admitsPushdown q = true := by
  obtain ⟨q', T, hq', hadmits, hkey⟩ := h.known _ a ha hf
  obtain ⟨rfl, -⟩ := Lowering.sharingKey_injective hq hq' hkey
  exact hadmits

/-- A query whose fragment is shared is known, and its types have been seen. -/
theorem reuse (h : S.Agrees b d m) {f : Fragment}
    (hf : d.shared.lookup (sharingKey q d.seen) = some f) :
    ∃ a, evaluateShared S.x S.config S.relate q m = .ok (a, m) ∧ Stands b f a ∧
      d.seen.union f.types = d.seen := by
  obtain ⟨a, ha, hstands⟩ := h.shared _ f hf
  rw [h.seen] at ha
  obtain ⟨-, -, -, -, hwithin, -⟩ := h.sound.entry _ a ha
  refine ⟨a, h.sound.evaluate_eq ha, hstands, ?_⟩
  rw [hstands.types, h.seen, hwithin.union_eq]

/-- A fragment is shared for a key that is known. -/
theorem share (h : S.Agrees b d m) {key : String} {f : Fragment}
    (ha : m.meaningOf? key = some a) (hf : Stands b f a) :
    S.Agrees b { d with shared := (key, f) :: d.shared } m where
  numbered := h.numbered
  sound := h.sound
  seen := h.seen
  shared := by
    intro key' g hg
    rw [List.lookup_cons] at hg
    split at hg
    · rename_i heq
      cases hg
      rw [beq_iff_eq.1 heq]
      exact ⟨a, ha, hf⟩
    · exact h.shared key' g hg
  known := by
    intro key' v hv hg
    rw [List.lookup_cons] at hg
    split at hg
    · cases hg
    · exact h.known key' v hv hg

/-- A meaning becomes known that is not shared. -/
theorem remember (h : S.Agrees b d m) (hq : q.Printable) (hadmits : admitsPushdown q = true)
    {T : TypeSet} (hkey : m.meaningOf? (sharingKey q T) = none)
    (hsound : (m.remember (sharingKey q T) a).Sound S.x S.config S.relate) :
    S.Agrees b d (m.remember (sharingKey q T) a) where
  numbered := h.numbered
  sound := hsound
  seen := h.seen
  shared := by
    intro key f hf
    obtain ⟨v, hv, hstands⟩ := h.shared key f hf
    exact ⟨v, (Memory.within_remember hkey a).meanings key v hv, hstands⟩
  known := by
    intro key v hv hf
    rw [Memory.meaningOf?_remember] at hv
    split at hv
    · rename_i heq
      exact ⟨q, T, hq, hadmits, heq⟩
    · exact h.known key v hv hf

/-- A meaning becomes known, and its fragment is shared. -/
theorem share_remember (h : S.Agrees b d m) {key : String} {f : Fragment} (hf : Stands b f a)
    (hkey : m.meaningOf? key = none)
    (hsound : (m.remember key a).Sound S.x S.config S.relate) :
    S.Agrees b { d with shared := (key, f) :: d.shared } (m.remember key a) where
  numbered := h.numbered
  sound := hsound
  seen := h.seen
  shared := by
    intro key' g hg
    rw [List.lookup_cons] at hg
    split at hg
    · rename_i heq
      cases hg
      rw [Memory.meaningOf?_remember, if_pos (beq_iff_eq.1 heq)]
      exact ⟨a, rfl, hf⟩
    · obtain ⟨v, hv, hstands⟩ := h.shared key' g hg
      exact ⟨v, (Memory.within_remember hkey a).meanings key' v hv, hstands⟩
  known := by
    intro key' v hv hg
    rw [List.lookup_cons] at hg
    split at hg
    · cases hg
    · rename_i hne
      rw [Memory.meaningOf?_remember, if_neg (by simpa using hne)] at hv
      exact h.known key' v hv hg

end Setting.Agrees

/-! ## One query -/

namespace Setting.Sim

variable {y : Lowering Fragment} {R : Bindings → Fragment → Meaning → Prop}

/-- The types of an evaluation are known. -/
theorem typed (hq : q.Printable) (h : S.Sim b y (evaluateShared S.x S.config S.relate q) R) :
    S.Sim b y (evaluateShared S.x S.config S.relate q) fun b' f a =>
      R b' f a ∧ ∀ n ∈ a.types.names, S.x.snapshot.hasType n = true where
  forward := by
    intro hfrom b' hb d m f d' hagrees hrun hsolves
    obtain ⟨a, m', hz, hagrees', hr⟩ := h.forward hfrom b' hb d m f d' hagrees hrun hsolves
    obtain ⟨hstep, hwithin, -⟩ := evaluates hq m a m' hagrees.sound hz
    exact ⟨a, m', hz, hagrees', hr, fun n hn => hstep.sound.typed n (hwithin n hn)⟩
  backward := by
    intro hto b' hb d m a m' hperform hagrees hz
    obtain ⟨hstep, hwithin, -⟩ := evaluates hq m a m' hagrees.sound hz
    obtain ⟨f, d', b'', hy, hperform', hb', hagrees', hr⟩ :=
      h.backward hto b' hb d m a m' hperform hagrees hz
    exact ⟨f, d', b'', hy, hperform', hb', hagrees', hr,
      fun n hn => hstep.sound.typed n (hwithin n hn)⟩

/-- A query lowered with conditions below its root, so that its fragment is not shared. -/
theorem unshared (hq : q.Printable) (hadmits : admitsPushdown q = true)
    (h : S.Sim b y (computeShared S.x S.config S.relate q) R) :
    S.Sim b y (evaluateShared S.x S.config S.relate q) R where
  forward := by
    intro hfrom b' hb d m f d' hagrees hrun hsolves
    obtain ⟨a, m', hz, hagrees', hr⟩ := h.forward hfrom b' hb d m f d' hagrees hrun hsolves
    cases hk : m.meaningOf? (sharingKey q m.seen) with
    | some v =>
        have hagain := hagrees.sound.compute_eq hq hadmits hk
        rw [hz] at hagain
        cases hagain
        exact ⟨a, m, hagrees.sound.evaluate_eq hk, hagrees', hr⟩
    | none =>
        obtain ⟨heval, hnone, hsound⟩ := hagrees.sound.evaluate_unknown hq hk hz
        exact ⟨a, _, heval, hagrees'.remember hq hadmits hnone hsound, hr⟩
  backward := by
    intro hto b' hb d m a m' hperform hagrees hz
    cases hk : m.meaningOf? (sharingKey q m.seen) with
    | some v =>
        have hknown := hagrees.sound.evaluate_eq hk
        rw [hz] at hknown
        cases hknown
        exact h.backward hto b' hb d m a m hperform hagrees (hagrees.sound.compute_eq hq hadmits hk)
    | none =>
        have hmap := (reuse_of_unknown hk).symm.trans hz
        obtain ⟨⟨a, m₁⟩, hrun, heq⟩ := ok_of_map hmap
        cases heq
        obtain ⟨-, hnone, hsound⟩ := hagrees.sound.evaluate_unknown hq hk hrun
        obtain ⟨f, d', b'', hy, hperform', hb', hagrees', hr⟩ :=
          h.backward hto b' hb d m a m₁ hperform hagrees hrun
        exact ⟨f, d', b'', hy, hperform', hb', hagrees'.remember hq hadmits hnone hsound, hr⟩

/-- A query that shares its fragment. -/
theorem shared (hq : q.Printable) (h : S.Sim b y (computeShared S.x S.config S.relate q) Stands) :
    S.Sim b (Lowering.share q y) (evaluateShared S.x S.config S.relate q) Stands where
  forward := by
    intro hfrom b' hb d m f d' hagrees hrun hsolves
    cases hf : d.shared.lookup (sharingKey q d.seen) with
    | some g =>
        rw [Lowering.share_of_shared hf] at hrun
        cases hrun
        obtain ⟨a, heval, hstands, hseen⟩ := hagrees.reuse hf
        exact ⟨a, m, heval, hagrees.of_same rfl hseen rfl, hstands⟩
    | none =>
        rw [Lowering.share_of_unshared hf] at hrun
        obtain ⟨⟨g, d₁⟩, hy, heq⟩ := ok_of_map hrun
        cases heq
        obtain ⟨a, m₁, hz, hagrees', hstands⟩ := h.forward hfrom b' hb d m g d₁ hagrees hy hsolves
        rw [hagrees.seen] at hf ⊢
        cases hk : m.meaningOf? (sharingKey q m.seen) with
        | some v =>
            have hagain := hagrees.sound.compute_eq hq (hagrees.admits hq hk hf) hk
            rw [hz] at hagain
            cases hagain
            exact ⟨a, m, hagrees.sound.evaluate_eq hk, hagrees'.share hk hstands, hstands⟩
        | none =>
            obtain ⟨heval, hnone, hsound⟩ := hagrees.sound.evaluate_unknown hq hk hz
            exact ⟨a, _, heval, hagrees'.share_remember hstands hnone hsound, hstands⟩
  backward := by
    intro hto b' hb d m a m' hperform hagrees hz
    cases hf : d.shared.lookup (sharingKey q d.seen) with
    | some g =>
        obtain ⟨v, heval, hstands, hseen⟩ := hagrees.reuse hf
        rw [hz] at heval
        cases heval
        exact ⟨g, _, b', Lowering.share_of_shared hf, hperform, .refl b',
          hagrees.of_same rfl hseen rfl, hstands⟩
    | none =>
        rw [Lowering.share_of_unshared hf]
        rw [hagrees.seen] at hf ⊢
        cases hk : m.meaningOf? (sharingKey q m.seen) with
        | some v =>
            have hknown := hagrees.sound.evaluate_eq hk
            rw [hz] at hknown
            cases hknown
            obtain ⟨f, d', b'', hy, hperform', hb', hagrees', hstands⟩ :=
              h.backward hto b' hb d m a m hperform hagrees
                (hagrees.sound.compute_eq hq (hagrees.admits hq hk hf) hk)
            exact ⟨f, { d' with shared := (sharingKey q m.seen, f) :: d'.shared }, b'', by rw [hy]; rfl,
              hperform', hb', hagrees'.share hk hstands, hstands⟩
        | none =>
            have hmap := (reuse_of_unknown hk).symm.trans hz
            obtain ⟨⟨a, m₁⟩, hrun, heq⟩ := ok_of_map hmap
            cases heq
            obtain ⟨-, hnone, hsound⟩ := hagrees.sound.evaluate_unknown hq hk hrun
            obtain ⟨f, d', b'', hy, hperform', hb', hagrees', hstands⟩ :=
              h.backward hto b' hb d m a m₁ hperform hagrees hrun
            exact ⟨f, { d' with shared := (sharingKey q m.seen, f) :: d'.shared }, b'', by rw [hy]; rfl,
              hperform', hb', hagrees'.share_remember hstands hnone hsound, hstands⟩

end Setting.Sim

/-! ## Operands -/

/-- Lowering a query, with conditions below its root or none, simulates its evaluation. -/
def Setting.Simulates (S : Setting) (q : Query) : Prop :=
  ∀ pushed, S.pushes pushed → (pushed ≠ [] → admitsPushdown q = true) → ∀ b,
    S.Sim b (Lowering.lower S.x.snapshot S.lowered pushed q)
      (evaluateShared S.x S.config S.relate q) fun b' f a => S.Knows b' f (a.filterAll S.x pushed)

theorem Setting.Simulates.plain (h : S.Simulates q) (b : Bindings) :
    S.Sim b (Lowering.lower S.x.snapshot S.lowered [] q) (evaluateShared S.x S.config S.relate q)
      S.Knows :=
  h [] S.pushes_nil (fun hne => absurd rfl hne) b

/-- The fragments of branches stand for meanings. -/
def Stand (b : Bindings) (bs : List Branch) (as : List Meaning) : Prop :=
  List.Forall₂ (fun br a => Stands b br.fragment a) bs as

theorem Stand.mono {b' : Bindings} {bs : List Branch} {as : List Meaning} (h : Stand b bs as)
    (hb : b.Within b') : Stand b' bs as :=
  h.imp fun _ _ hbr => hbr.mono hb

/-- Conditions restrict one of some meanings, or none if there is no target. -/
inductive Narrows (x : Executor) (cs : List (Comparison Double)) :
    Option Nat → List Meaning → List Meaning → Prop where
  | all (as : List Meaning) : Narrows x cs none as as
  | here (a : Meaning) (as : List Meaning) : Narrows x cs (some 0) (a :: as) (a.filterAll x cs :: as)
  | later (a : Meaning) {n : Nat} {as as' : List Meaning} (h : Narrows x cs (some n) as as') :
      Narrows x cs (some (n + 1)) (a :: as) (a :: as')

variable {x : Executor} {cs : List (Comparison Double)} {as as' : List Meaning}

theorem Narrows.foldl_both {n : Nat} (h : Narrows x cs (some n) as as') (a : Meaning) :
    as'.foldl Meaning.both a = (as.foldl Meaning.both a).filterAll x cs := by
  generalize htarget : some n = target at h
  induction h generalizing n a with
  | all => cases htarget
  | here v as => rw [List.foldl_cons, Meaning.both_filterAll_right, Meaning.foldl_both_filterAll,
      List.foldl_cons]
  | later v _ ih => exact ih (a.both v) rfl

/-- Conditions on one operand are conditions on the intersection of all. -/
theorem Narrows.both {target : Option Nat} {a : Meaning} (h : Narrows x cs target (a :: as) as')
    (hcs : target = none → cs = []) :
    ∃ v vs, as' = v :: vs ∧
      vs.foldl Meaning.both v = (as.foldl Meaning.both a).filterAll x cs := by
  cases h with
  | all =>
      rw [hcs rfl]
      exact ⟨a, as, rfl, rfl⟩
  | here => exact ⟨_, _, rfl, Meaning.foldl_both_filterAll ..⟩
  | later _ h => exact ⟨a, _, rfl, h.foldl_both a⟩

namespace Setting.Sim

theorem computeOthers_of_comparisons {qs : List Query} {config : EngineConfig} {relate : Relating}
    (h : qs.filter (fun q => (comparison? q).isNone) = []) :
    computeOthers x config (.sharing relate) qs = Pure.pure [] := by
  induction qs with
  | nil => rfl
  | cons q qs ih =>
      rw [computeOthers]
      cases hc : comparison? q with
      | none =>
          rw [List.filter_cons_of_pos (by simp [hc])] at h
          cases h
      | some c =>
          rw [List.filter_cons_of_neg (by simp [hc])] at h
          exact ih h

theorem branches {qs : List Query} (h : ∀ q ∈ qs, S.Simulates q) (b : Bindings) :
    S.Sim b (Lowering.branches S.x.snapshot S.lowered qs)
      (computeAll S.x S.config (.sharing S.relate) qs) Stand := by
  induction qs generalizing b with
  | nil => exact pure fun _ _ => .nil
  | cons q qs ih =>
      rw [Lowering.branches, computeAll]
      refine bind (branch ((h q List.mem_cons_self).plain b)) fun b₁ br a _ ha => ?_
      refine bind (ih (fun p hp => h p (List.mem_cons_of_mem _ hp)) b₁) fun b₂ bs as hb₁ has => ?_
      exact pure fun _ hb => .cons (ha.toStands.mono (hb₁.trans hb)) (has.mono hb)

/-- The operands of a conjunction, with conditions below the root of one that admits them. -/
theorem conjuncts {pushed : List (Comparison Double)} (hpushed : S.pushes pushed) {qs : List Query}
    (h : ∀ q ∈ qs, S.Simulates q) {target : Option Nat}
    (htarget : ∀ n, target = some n →
      ∃ q, (qs.filter fun q => (comparison? q).isNone)[n]? = some q ∧ admitsPushdown q = true)
    (b : Bindings) :
    S.Sim b (Lowering.conjuncts S.x.snapshot S.lowered pushed target qs)
      (computeOthers S.x S.config (.sharing S.relate) qs)
      fun b' bs as => as.length = (qs.filter fun q => (comparison? q).isNone).length ∧
        ∃ as', Narrows S.x pushed target as as' ∧ Stand b' bs as' := by
  induction qs generalizing b target with
  | nil =>
      refine pure fun _ _ => ⟨rfl, [], ?_, .nil⟩
      cases target with
      | none => exact .all []
      | some n =>
          obtain ⟨q, hq, -⟩ := htarget n rfl
          cases hq
  | cons q qs ih =>
      have hqs : ∀ p ∈ qs, S.Simulates p := fun p hp => h p (List.mem_cons_of_mem _ hp)
      rw [Lowering.conjuncts, computeOthers]
      cases hc : comparison? q with
      | some c =>
          rw [List.filter_cons_of_neg (by simp [hc])] at htarget ⊢
          exact ih hqs htarget b
      | none =>
          rw [List.filter_cons_of_pos (by simp [hc])] at htarget ⊢
          have hplain := (h q List.mem_cons_self).plain
          cases target with
          | none =>
              refine bind (branch (hplain b)) fun b₁ br a _ ha => ?_
              refine bind (ih hqs (by rintro _ ⟨⟩) b₁) ?_
              rintro b₂ bs as hb₁ ⟨hlength, _, ⟨⟩, has⟩
              exact pure fun _ hb => ⟨congrArg Nat.succ hlength, _, .all _,
                .cons (ha.toStands.mono (hb₁.trans hb)) (has.mono hb)⟩
          | some n =>
              cases n with
              | zero =>
                  obtain ⟨_, ⟨⟩, hadmits⟩ := htarget 0 rfl
                  have hq := h q List.mem_cons_self pushed hpushed fun _ => hadmits
                  refine bind (branch (hq b)) fun b₁ br a _ ha => ?_
                  refine bind (ih hqs (by rintro _ ⟨⟩) b₁) ?_
                  rintro b₂ bs as hb₁ ⟨hlength, _, ⟨⟩, has⟩
                  exact pure fun _ hb => ⟨congrArg Nat.succ hlength, _, .here _ _,
                    .cons (ha.toStands.mono (hb₁.trans hb)) (has.mono hb)⟩
              | succ n =>
                  refine bind (branch (hplain b)) fun b₁ br a _ ha => ?_
                  have hlater : ∀ k, some n = some k →
                      ∃ q, (qs.filter fun q => (comparison? q).isNone)[k]? = some q ∧
                        admitsPushdown q = true := by
                    rintro k ⟨⟩
                    exact htarget (n + 1) rfl
                  refine bind (ih hqs hlater b₁) ?_
                  rintro b₂ bs as hb₁ ⟨hlength, as', hnarrows, has⟩
                  exact pure fun _ hb => ⟨congrArg Nat.succ hlength, a :: as', hnarrows.later a,
                    .cons (ha.toStands.mono (hb₁.trans hb)) (has.mono hb)⟩

/-- An operation joins each fragment to what the ones before it amount to. -/
theorem foldlM {g : Fragment → Fragment → Lowering Fragment} {k : Meaning → Meaning → Meaning}
    [∀ f f', Extending (g f f')]
    (hg : ∀ {b : Bindings} {f f' : Fragment} {a a' : Meaning}, Stands b f a → Stands b f' a' →
      S.Sim b (g f f') (Pure.pure (k a a')) Stands)
    {b : Bindings} {f : Fragment} {a : Meaning} (ha : Stands b f a) {bs : List Branch}
    {as : List Meaning} (has : Stand b bs as) :
    S.Sim b ((bs.map Branch.fragment).foldlM g f) (Pure.pure (as.foldl k a)) Stands := by
  induction bs generalizing b f a as with
  | nil =>
      cases has
      exact pure fun _ hb => ha.mono hb
  | cons br bs ih =>
      cases has with
      | cons hbr hbs =>
          rw [List.map_cons, List.foldlM_cons]
          exact advance (hg ha hbr) fun _ _ hb hf => ih hf (Stand.mono hbs hb)

theorem disjunction {qs : List Query} (h : ∀ q ∈ qs, S.Simulates q) (b : Bindings) :
    S.Sim b (Lowering.disjunction (Lowering.branches S.x.snapshot S.lowered qs))
      (Evaluation.disjunction (computeAll S.x S.config (.sharing S.relate) qs)) Stands := by
  have hunites := Lowering.adding_unites (P := fun _ => True)
  unfold Lowering.disjunction
  refine bind (branches h b) fun b₁ bs as _ has => silent fun _ => ?_
  cases has with
  | nil =>
      constructor
      · rintro - b' _ d m f d' _ ⟨⟩
      · rintro - b' _ d m a m' _ _ ⟨⟩
  | cons hbr hbs => exact foldlM unite hbr hbs

/-- Conditions of which a part runs below the root of an operand are conditions on the whole. -/
theorem joined {pushed remaining conditions : List (Comparison Double)}
    (hperm : (pushed ++ remaining).Perm conditions) {target : Option Nat}
    (htarget : target = none → pushed = []) {a : Meaning} {as as' : List Meaning}
    (hnarrows : Narrows S.x pushed target (a :: as) as') {bs : List Branch} (hbs : Stand b bs as') :
    S.Sim b
      (match bs.map Branch.fragment with
        | [] => throw (.noOperands .and)
        | f :: fs => do
          Lowering.filterAll S.x.snapshot (← fs.foldlM Lowering.intersect f) remaining)
      (Pure.pure ((as.foldl Meaning.both a).filterAll S.x conditions)) Stands := by
  obtain ⟨v, vs, rfl, heq⟩ := hnarrows.both htarget
  cases hbs with
  | cons hbr hbs =>
      refine advance (foldlM intersect hbr hbs) fun b₁ f _ hf => ?_
      refine replace (filterAll hf remaining) fun b₂ g hg => ?_
      rwa [heq, ← Meaning.filterAll_append, Meaning.filterAll_perm S.x _ hperm] at hg

theorem conjunction {qs : List Query} (h : ∀ q ∈ qs, S.Simulates q) (b : Bindings) :
    S.Sim b
      (Lowering.conjunction S.x.snapshot S.lowered qs fun pushed target =>
        Lowering.conjuncts S.x.snapshot S.lowered pushed target qs)
      (Evaluation.conjunction S.x (.sharing S.relate) (qs.filterMap comparison?)
        (computeOthers S.x S.config (.sharing S.relate) qs)) Stands := by
  have hjoins := Lowering.adding_joins (P := fun _ => True) S.x.snapshot
  unfold Lowering.conjunction
  dsimp only
  rw [Lowering.checkConditions_eq]
  refine lift fun _ _ => ?_
  split
  · rename_i hempty
    rw [computeOthers_of_comparisons (List.isEmpty_iff.1 hempty), pure_bind]
    refine bind (scanSeen b) fun b₁ f a _ hf => ?_
    refine replace (filterAll hf _) fun b₂ g hg => ?_
    have hperm : (Lowering.bySelectivity S.x.snapshot (qs.filterMap comparison?)).Perm _ :=
      List.mergeSort_perm _ _
    rwa [Meaning.filterAll_perm S.x a hperm] at hg
  · rename_i hne
    rw [List.partition_eq_filter_filter]
    refine silent fun _ => ?_
    dsimp only
    refine bind (conjuncts (S.pushes_selective _ ?_) h ?_ b) ?_
    · intro c hc
      obtain ⟨-, hselective⟩ := List.mem_filter.1 hc
      exact of_decide_eq_true (Bool.and_eq_true_iff.1 hselective).2
    · intro n hn
      obtain ⟨hlt, hadmits, -⟩ := List.findIdx?_eq_some_iff_getElem.1 hn
      exact ⟨_, List.getElem?_eq_getElem hlt, hadmits⟩
    · rintro b₁ bs as _ ⟨hlength, as', hnarrows, hbs⟩
      refine silent fun _ => ?_
      cases as with
      | nil => exact absurd (List.isEmpty_iff_length_eq_zero.2 hlength.symm) hne
      | cons a as =>
          refine joined ?_ ?_ hnarrows hbs
          · exact (List.filter_append_perm _ _).trans (List.mergeSort_perm _ _)
          · intro hnone
            rw [hnone]
            exact List.filter_eq_nil_iff.2 fun c _ => by simp

/-! ## All queries -/

theorem node (hq : q.Printable) {y : Lowering Fragment} {pushed : List (Comparison Double)}
    (hadmits : pushed ≠ [] → admitsPushdown q = true)
    (h : S.Sim b y (computeShared S.x S.config S.relate q)
      fun b' f a => Stands b' f (a.filterAll S.x pushed)) :
    S.Sim b (if pushed.isEmpty then Lowering.share q y else y)
      (evaluateShared S.x S.config S.relate q)
      fun b' f a => S.Knows b' f (a.filterAll S.x pushed) := by
  have hknows : ∀ (b' : Bindings) (f : Fragment) (a : Meaning),
      (Stands b' f (a.filterAll S.x pushed) ∧
        ∀ n ∈ a.types.names, S.x.snapshot.hasType n = true) →
      S.Knows b' f (a.filterAll S.x pushed) := by
    rintro b' f a ⟨hstands, htyped⟩
    refine ⟨hstands, ?_⟩
    rwa [Meaning.types_filterAll]
  cases pushed with
  | nil => exact (typed hq (shared hq h)).mono fun b' f a _ => hknows b' f a
  | cons c cs =>
      have hadmits := hadmits (List.cons_ne_nil _ _)
      exact (typed hq (unshared hq hadmits h)).mono fun b' f a _ => hknows b' f a

/-- A query that does not admit conditions below its root has none there. -/
theorem node_plain (hq : q.Printable) (hq' : admitsPushdown q = false) {y : Lowering Fragment}
    {pushed : List (Comparison Double)} (hadmits : pushed ≠ [] → admitsPushdown q = true)
    (h : S.Sim b y (computeShared S.x S.config S.relate q) Stands) :
    S.Sim b (if pushed.isEmpty then Lowering.share q y else y)
      (evaluateShared S.x S.config S.relate q)
      fun b' f a => S.Knows b' f (a.filterAll S.x pushed) := by
  cases pushed with
  | nil => exact node hq hadmits h
  | cons c cs =>
      rw [hadmits (List.cons_ne_nil _ _)] at hq'
      cases hq'

end Setting.Sim

/-- Lowering simulates evaluation. -/
theorem Setting.simulates (hq : q.Printable) : S.Simulates q := by
  induction hq with
  | @lookup t name fuzzy ht =>
      intro pushed _ hadmits b
      rw [Lowering.lower]
      exact Sim.node_plain (.lookup name fuzzy ht) rfl hadmits (Sim.lookup b t name fuzzy)
  | @relation l r name hl hname hr ihl ihr =>
      intro pushed hpushed hadmits b
      rw [Lowering.lower]
      exact Sim.node (.relation hl hname hr) hadmits
        (Sim.arrow name hpushed ihl.plain ihr.plain b)
  | not hq ih =>
      intro pushed _ hadmits b
      rw [Lowering.lower]
      exact Sim.node_plain (.not hq) rfl hadmits (Sim.negation ih.plain b)
  | @logical op qs hop hlength hqs ih =>
      intro pushed _ hadmits b
      have hq := Query.WellFormed.logical hop hlength hqs
      cases op with
      | and =>
          rw [Lowering.lower]
          exact Sim.node_plain hq rfl hadmits (Sim.conjunction ih b)
      | or =>
          rw [Lowering.lower]
          exact Sim.node_plain hq rfl hadmits (Sim.disjunction ih b)
      | not => exact absurd rfl hop
  | @comparison c hc =>
      intro pushed _ hadmits b
      rw [Lowering.lower]
      exact Sim.node_plain (.comparison hc) rfl hadmits (Sim.comparison b c)
  | @similar target distance topK targetType ht hd hk ih =>
      intro pushed hpushed hadmits b
      rw [Lowering.lower]
      refine Sim.node (.similar targetType ht hd hk) hadmits ?_
      exact Sim.similarity distance targetType
        (fun hne => Option.isNone_iff_eq_none.1 (hadmits hne)) ih.plain b
  | @analogy p q r targetType hp hq hr htype ihp ihq ihr =>
      intro pushed _ hadmits b
      rw [Lowering.lower]
      exact Sim.node_plain (.analogy hp hq hr htype) rfl hadmits
        (Sim.analogy targetType ihp.plain ihq.plain ihr.plain b)
  | @optimize direction o cs ho hterms hcs =>
      intro pushed _ hadmits b
      rw [Lowering.lower]
      exact Sim.node_plain (.optimize direction ho hterms hcs) rfl hadmits
        (Sim.optimization b direction o cs)

end VectorQuery
