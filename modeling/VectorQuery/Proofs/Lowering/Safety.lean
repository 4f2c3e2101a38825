/-
# What has a plan names what is known

Lowering checks the names of a query where it makes a fragment for it, and makes operations that fit
a snapshot from the operations before them.  `Builds` says so of one computation; its rules follow
the shapes of queries.

The names of a query that is given the fragment of another query are not checked.  Queries that can
be written are told apart by their keys, so this happens to others only (`Query.Confuses`).
-/
import VectorQuery.Proofs.Execution.Safety
import VectorQuery.Proofs.Lowering.Pushdown
import VectorQuery.Proofs.Query.Subqueries

namespace VectorQuery

open Lowering (sharingKey)

/-! ## Known names -/

/-- Some entity carries the field, or all entities have it. -/
def Snapshot.hasField (s : Snapshot) (field : String) : Bool :=
  isBuiltinField field || s.fields.contains field

/-- The types and fields that a query names itself are known; those of an objective are metadata. -/
def Snapshot.knows (s : Snapshot) : Query → Bool
  | .lookup t _ _ => s.hasType t
  | .relation .. | .logical .. => true
  | .comparison c => s.hasField c.field
  | .similar _ _ _ targetType | .analogy _ _ _ targetType => targetType.all s.hasType
  | .optimize _ objective constraints =>
    objective.terms.all (fun t => !isBuiltinField t.field && s.hasField t.field)
      && constraints.all fun c => s.hasField c.field

namespace Query

/-- Within `q`, the query `p` belongs to one that has a key of another one. -/
def Confuses (q p : Query) : Prop :=
  ∃ a ∈ q.subqueries, p ∈ a.subqueries ∧
    ∃ b ∈ q.subqueries, b ≠ a ∧ ∃ S S', sharingKey a S = sharingKey b S'

theorem Printable.child {q c : Query} (h : q.Printable) (hc : c ∈ q.children) : c.Printable := by
  cases h with
  | lookup | comparison | optimize => cases hc
  | relation hl _ hr =>
      exact List.forall_mem_cons.2 ⟨hl, List.forall_mem_singleton.2 hr⟩ c hc
  | not hq => exact List.forall_mem_singleton.2 hq c hc
  | logical _ _ hqs => exact hqs c hc
  | similar _ ht => exact List.forall_mem_singleton.2 ht c hc
  | analogy ha hb hc' =>
      exact List.forall_mem_cons.2 ⟨ha, List.forall_mem_cons.2
        ⟨hb, List.forall_mem_singleton.2 hc'⟩⟩ c hc

theorem Printable.subquery {q : Query} : q.Printable → ∀ p ∈ q.subqueries, p.Printable := by
  refine of_children (P := fun q => q.Printable → ∀ p ∈ q.subqueries, p.Printable)
    (fun q ih h p hp => ?_) q
  rcases mem_subqueries_iff.1 hp with rfl | ⟨c, hc, hp⟩
  · exact h
  · exact ih c hc (h.child hc) p hp

/-- A query that can be written is told apart from others by its key. -/
theorem Printable.not_confuses {q : Query} (h : q.Printable) (p : Query) : ¬ q.Confuses p := by
  rintro ⟨a, ha, -, b, hb, hne, S, S', hkey⟩
  exact hne (Lowering.sharingKey_injective (h.subquery a ha) (h.subquery b hb) hkey).1.symm

/-- The snapshot knows what a part of the query names, except where it is confused. -/
def Accounts (q : Query) (s : Snapshot) (part : Query) : Prop :=
  ∀ p ∈ part.subqueries, s.knows p = true ∨ q.Confuses p

variable {q part : Query} {s : Snapshot}

theorem accounts_of_children (hknows : s.knows part = true)
    (h : ∀ c ∈ part.children, q.Accounts s c) : q.Accounts s part := by
  intro p hp
  rcases mem_subqueries_iff.1 hp with rfl | ⟨c, hc, hp⟩
  · exact .inl hknows
  · exact h c hc p hp

/-- What is known of a query is known of another one of its key, or else they are confused. -/
theorem Accounts.of_key {p : Query} (h : q.Accounts s p) (hp : p ∈ q.subqueries)
    (hpart : part ∈ q.subqueries) {S S' : TypeSet} (hkey : sharingKey part S = sharingKey p S') :
    q.Accounts s part := by
  by_cases heq : p = part
  · exact heq ▸ h
  · exact fun p' hp' => .inr ⟨part, hpart, hp', p, hp, heq, S, S', hkey⟩

end Query

namespace Lowering

/-! ## Drafts -/

/-- The variable is the output of an operation of the draft. -/
def Binds (d : Draft) (v : Variable) : Prop := ∃ j < d.trail.length, v = .numbered (j + 1)

/-- The operations of the draft fit, and what is shared is bound and accounts for a part of the
query. -/
structure Sound (s : Snapshot) (q : Query) (d : Draft) : Prop where
  fitting : Fitting s d.trail
  shared : ∀ key f, d.shared.lookup key = some f → Binds d f.var ∧
    ∃ p ∈ q.subqueries, (∃ S, key = sharingKey p S) ∧ q.Accounts s p

/-- From variables `held` a computation makes the variables that its value `gives`, and only if
what it is to check holds. -/
def Builds {α : Type} (s : Snapshot) (q : Query) (held : List Variable) (y : Lowering α)
    (gives : α → List Variable) (checked : α → Prop) : Prop :=
  ∀ d, Sound s q d → (∀ v ∈ held, Binds d v) → ∀ a d', y d = .ok (a, d') →
    Sound s q d' ∧ (∀ v ∈ gives a, Binds d' v) ∧ checked a

/-- A computation makes a fragment, wherever it stands. -/
def BuildsFragment (s : Snapshot) (q : Query) (y : Lowering Fragment) (checked : Prop) : Prop :=
  ∀ held, Builds s q held y (fun f => f.var :: held) fun _ => checked

variable {s : Snapshot} {q : Query} {held : List Variable} {α β : Type}

theorem Binds.of_trail {d d' : Draft} (h : d'.trail = d.trail) {v : Variable} (hv : Binds d v) :
    Binds d' v := by
  unfold Binds
  rwa [h]

theorem Binds.add {d : Draft} {v : Variable} (h : Binds d v) (op : Operation) :
    Binds (add d op) v := by
  obtain ⟨j, hj, rfl⟩ := h
  refine ⟨j, ?_, rfl⟩
  rw [trail_add, List.length_append]
  exact Nat.lt_add_right _ hj

theorem Sound.congr {d d' : Draft} (h : Sound s q d) (htrail : d'.trail = d.trail)
    (hshared : d'.shared = d.shared) : Sound s q d' where
  fitting := htrail ▸ h.fitting
  shared := by
    intro key f hf
    rw [hshared] at hf
    obtain ⟨hbinds, hpart⟩ := h.shared key f hf
    exact ⟨hbinds.of_trail htrail, hpart⟩

theorem sound_start (s : Snapshot) (q : Query) : Sound s q start where
  fitting := by
    intro i op hop
    cases hop
  shared := by
    intro key f hf
    cases hf

/-! ## Rules -/

namespace Builds

variable {y : Lowering α} {gives : α → List Variable} {checked : α → Prop} {f : α → Lowering β}
  {gives' : β → List Variable} {checked' : β → Prop}

theorem mono (h : Builds s q held y gives checked) {fewer : α → List Variable} {less : α → Prop}
    (hgives : ∀ a, fewer a ⊆ gives a) (hchecked : ∀ a, checked a → less a) :
    Builds s q held y fewer less := by
  intro d hd hheld a d' hy
  obtain ⟨hd', hbinds, hc⟩ := h d hd hheld a d' hy
  exact ⟨hd', fun v hv => hbinds v (hgives a hv), hchecked a hc⟩

/-- A fragment takes the place of a variable. -/
theorem forget {v : Variable} {z : Lowering Fragment}
    (h : Builds s q (v :: held) z (fun f => f.var :: v :: held) fun _ => True) {less : Prop}
    (hless : less) : Builds s q (v :: held) z (fun f => f.var :: held) fun _ => less :=
  h.mono (fun _ => List.cons_subset_cons _ (List.subset_cons_self ..)) fun _ _ => hless

theorem pure {a : α} (hgives : gives a ⊆ held) (hchecked : checked a) :
    Builds s q held (pure a) gives checked := by
  intro d hd hheld b d' hy
  cases hy
  exact ⟨hd, fun v hv => hheld v (hgives hv), hchecked⟩

theorem bind (h : Builds s q held y gives checked)
    (hf : ∀ a, checked a → Builds s q (gives a) (f a) gives' checked') :
    Builds s q held (y >>= f) gives' checked' := by
  intro d hd hheld b d' hrun
  obtain ⟨a, d₁, hy, hrun⟩ := run_of_bind hrun
  obtain ⟨hd₁, hbinds, hc⟩ := h d hd hheld a d₁ hy
  exact hf a hc d₁ hd₁ hbinds b d' hrun

theorem fail (e : PlanError) : Builds s q held (throw e : Lowering α) gives checked := by
  rintro d - - a d' ⟨⟩

theorem fail_bind (e : PlanError) :
    Builds s q held ((throw e : Lowering α) >>= f) gives' checked' := by
  have h : Builds s q held (throw e : Lowering α) (fun _ => held) fun _ => False := fail e
  exact h.bind fun _ h => h.elim

theorem lift_bind {e : Except PlanError α}
    (h : ∀ a, e = .ok a → Builds s q held (f a) gives' checked') :
    Builds s q held ((liftM e : Lowering α) >>= f) gives' checked' := by
  intro d hd hheld b d' hrun
  obtain ⟨a, he, hrun⟩ := run_of_lift_bind hrun
  exact h a he d hd hheld b d' hrun

theorem silent (y : Lowering α) [Silent y] :
    Builds s q held y (fun _ => held) fun _ => True := by
  intro d hd hheld a d' hy
  obtain ⟨_, _, hrun, htrail, -, hshared⟩ := Silent.silent_run (y := y) d
  rw [hy] at hrun
  cases hrun
  exact ⟨hd.congr htrail hshared, fun v hv => (hheld v hv).of_trail htrail, trivial⟩

theorem see (types : TypeSet) : Builds s q held (see types) (fun _ => held) fun _ => True := by
  rintro d hd hheld a d' ⟨⟩
  exact ⟨hd.congr rfl rfl, hheld, trivial⟩

theorem get : Builds s q held get (fun _ => held) fun _ => True := by
  rintro d hd hheld a d' ⟨⟩
  exact ⟨hd, hheld, trivial⟩

theorem forM {f : α → Lowering PUnit} {checked : α → Prop} {l : List α}
    (h : ∀ a ∈ l, Builds s q held (f a) (fun _ => held) fun _ => checked a) :
    Builds s q held (l.forM f) (fun _ => held) fun _ => ∀ a ∈ l, checked a := by
  induction l with
  | nil => exact pure (List.Subset.refl _) fun a ha => absurd ha List.not_mem_nil
  | cons a l ih =>
      exact (h a List.mem_cons_self).bind fun _ ha =>
        (ih fun b hb => h b (List.mem_cons_of_mem _ hb)).mono (fun _ => List.Subset.refl _)
          fun _ hl => List.forall_mem_cons.2 ⟨ha, hl⟩

theorem emit {action : Action} {inputs : List Variable} (harity : action.arity ≤ inputs.length)
    (hinputs : inputs ⊆ held)
    (hrelations : ∀ key ∈ action.relations, s.relations.contains key = true) (cost rows : Double)
    (access : Access) :
    Builds s q held (emit action inputs cost rows access) (fun v => v :: held) fun _ => True := by
  intro d hd hheld v d' hrun
  rw [run_emit] at hrun
  cases hrun
  refine ⟨⟨?_, fun key f hf => ?_⟩, List.forall_mem_cons.2 ⟨?_, fun v hv => (hheld v hv).add _⟩,
    trivial⟩
  · rw [trail_add]
    exact forall_concat hd.fitting ⟨harity, fun v hv => hheld v (hinputs hv), hrelations⟩
  · obtain ⟨hbinds, hpart⟩ := hd.shared key f hf
    exact ⟨hbinds.add _, hpart⟩
  · refine ⟨d.operations.length, ?_, rfl⟩
    rw [trail_add, List.length_append, Draft.length_trail]
    exact Nat.lt_add_one _

/-- An operation that makes a fragment. -/
theorem emit_fragment {action : Action} {inputs : List Variable}
    (harity : action.arity ≤ inputs.length) (hinputs : inputs ⊆ held)
    (hrelations : ∀ key ∈ action.relations, s.relations.contains key = true)
    {cost rows rows' : Double} {access : Access} {types : TypeSet} {held' : List Variable}
    (hheld : held' ⊆ held) {checked : Prop} (hchecked : checked) :
    Builds s q held (do
      let var ← Lowering.emit action inputs cost rows access
      Pure.pure ⟨var, types, rows'⟩ : Lowering Fragment) (fun f => f.var :: held')
      fun _ => checked :=
  (emit harity hinputs hrelations cost rows access).bind fun v _ =>
    pure (List.cons_subset_cons v hheld) hchecked

/-- A query is checked where its fragment is made, and that of another query only if the two have
one key. -/
theorem share {p : Query} (hp : p ∈ q.subqueries) {make : Lowering Fragment}
    (h : BuildsFragment s q make (q.Accounts s p)) :
    BuildsFragment s q (share p make) (q.Accounts s p) := by
  intro held d hd hheld f d' hrun
  cases hk : d.shared.lookup (sharingKey p d.seen) with
  | some known =>
      rw [share_of_shared hk] at hrun
      cases hrun
      obtain ⟨hbinds, p', hp', ⟨S, hkey⟩, haccounts⟩ := hd.shared _ _ hk
      exact ⟨hd.congr rfl rfl, List.forall_mem_cons.2 ⟨hbinds, hheld⟩,
        haccounts.of_key hp' hp hkey⟩
  | none =>
      rw [share_of_unshared hk] at hrun
      obtain ⟨⟨made, d₁⟩, hmake, heq⟩ := ok_of_map hrun
      cases heq
      obtain ⟨hd₁, hbinds, haccounts⟩ := h held d hd hheld made d₁ hmake
      refine ⟨⟨hd₁.fitting, fun key f hf => ?_⟩, hbinds, haccounts⟩
      rw [List.lookup_cons] at hf
      split at hf
      · rename_i hkey
        cases hf
        exact ⟨hbinds _ List.mem_cons_self, p, hp, ⟨d.seen, eq_of_beq hkey⟩, haccounts⟩
      · exact hd₁.shared key f hf

theorem branch {make : Lowering Fragment} {gives : Fragment → List Variable}
    {checked : Fragment → Prop} (h : Builds s q held make gives checked) :
    Builds s q held (branch make) (fun b => gives b.fragment) fun b => checked b.fragment := by
  intro d hd hheld b d' hrun
  rw [run_branch] at hrun
  obtain ⟨⟨f, d₁⟩, hmake, heq⟩ := ok_of_map hrun
  cases heq
  exact h d hd hheld f d₁ hmake

end Builds

theorem BuildsFragment.mono {y : Lowering Fragment} {checked less : Prop}
    (h : BuildsFragment s q y checked) (hless : checked → less) : BuildsFragment s q y less :=
  fun held => (h held).mono (fun _ => List.Subset.refl _) fun _ => hless

/-! ## Checks -/

theorem builds_checkType (t : String) :
    Builds s q held (checkType s t) (fun _ => held) fun _ => s.hasType t = true := by
  unfold checkType
  split
  · rename_i ht
    exact .pure (List.Subset.refl _) ht
  · exact .fail _

theorem builds_checkField (field : String) :
    Builds s q held (checkField s field) (fun _ => held) fun _ => s.hasField field = true := by
  unfold checkField
  split
  · rename_i hfield
    exact .pure (List.Subset.refl _) hfield
  · exact .fail _

theorem builds_checkTerm (t : Term Double) :
    Builds s q held (checkTerm s t) (fun _ => held) fun _ =>
      (!isBuiltinField t.field && s.hasField t.field) = true := by
  unfold checkTerm
  cases hbuiltin : isBuiltinField t.field with
  | true => exact .fail_bind _
  | false =>
      refine (builds_checkField t.field).bind fun _ hfield => ?_
      cases t.weight.isFinite with
      | true => exact .pure (List.Subset.refl _) hfield
      | false => exact .fail _

theorem builds_searchedTypes (target : Fragment) (targetType : Option String) :
    Builds s q held (searchedTypes s target targetType) (fun _ => held) fun _ =>
      targetType.all s.hasType = true := by
  cases targetType with
  | none => exact .pure (List.Subset.refl _) rfl
  | some t =>
      exact (builds_checkType t).bind fun _ ht => (Builds.see _).bind fun _ _ =>
        .pure (List.Subset.refl _) ht

theorem builds_analogyType (second : Fragment) (targetType : Option String) :
    Builds s q held (analogyType s second targetType) (fun _ => held) fun _ =>
      targetType.all s.hasType = true := by
  cases targetType with
  | none =>
      unfold analogyType
      dsimp only
      split
      · exact .pure (List.Subset.refl _) rfl
      · exact .fail _
  | some t =>
      exact (builds_checkType t).bind fun _ ht => .pure (List.Subset.refl _) ht

/-! ## Single operations -/

theorem builds_scan (types : TypeSet) : BuildsFragment s q (scan s types) True := fun _ =>
  .emit_fragment (Nat.zero_le _) (List.nil_subset _) (by rintro key ⟨⟩) (List.Subset.refl _) trivial

theorem builds_scanSeen : BuildsFragment s q (scanSeen s) True := fun _ =>
  Builds.get.bind fun _ _ => builds_scan _ _

theorem builds_filter {f : Fragment} (hf : f.var ∈ held) (c : Comparison Double) :
    Builds s q held (filter s f c) (fun g => g.var :: held) fun _ => True :=
  .emit_fragment (Nat.le_refl _) (List.cons_subset.2 ⟨hf, List.nil_subset _⟩) (by rintro key ⟨⟩)
    (List.Subset.refl _) trivial

theorem builds_intersect {f g : Fragment} (hf : f.var ∈ held) (hg : g.var ∈ held) :
    Builds s q held (intersect f g) (fun r => r.var :: held) fun _ => True :=
  .emit_fragment (Nat.le_refl _)
    (List.cons_subset.2 ⟨hf, List.cons_subset.2 ⟨hg, List.nil_subset _⟩⟩) (by rintro key ⟨⟩)
    (List.Subset.refl _) trivial

theorem builds_unite {f g : Fragment} (hf : f.var ∈ held) (hg : g.var ∈ held) :
    Builds s q held (unite f g) (fun r => r.var :: held) fun _ => True :=
  .emit_fragment (Nat.le_refl _)
    (List.cons_subset.2 ⟨hf, List.cons_subset.2 ⟨hg, List.nil_subset _⟩⟩) (by rintro key ⟨⟩)
    (List.Subset.refl _) trivial

/-- A fold makes one fragment after the other from the one before. -/
theorem builds_foldlM {f : Fragment → α → Lowering Fragment} {l : List α}
    (step : ∀ g, ∀ a ∈ l, ∀ held', held ⊆ held' → g.var ∈ held' →
      Builds s q held' (f g a) (fun r => r.var :: held') fun _ => True)
    {g : Fragment} (hg : g.var ∈ held) :
    Builds s q held (l.foldlM f g) (fun r => r.var :: held) fun _ => True := by
  suffices ∀ held' g, held ⊆ held' → g.var ∈ held' →
      Builds s q held' (l.foldlM f g) (fun r => r.var :: held') fun _ => True from
    this held g (List.Subset.refl _) hg
  induction l with
  | nil => exact fun held' g _ hg => .pure (List.cons_subset.2 ⟨hg, List.Subset.refl _⟩) trivial
  | cons a l ih =>
      intro held' g hheld hg
      rw [List.foldlM_cons]
      refine (step g a List.mem_cons_self held' hheld hg).bind fun g' _ => ?_
      exact (ih (fun g b hb => step g b (List.mem_cons_of_mem _ hb)) (g'.var :: held') g'
        (List.Subset.trans hheld (List.subset_cons_self ..)) List.mem_cons_self).forget trivial

theorem builds_filterAll {f : Fragment} (hf : f.var ∈ held) (cs : List (Comparison Double)) :
    Builds s q held (filterAll s f cs) (fun g => g.var :: held) fun _ => True :=
  builds_foldlM (fun _ c _ _ _ hg => builds_filter hg c) hf

theorem builds_lookup (t name : String) (fuzzy : Bool) :
    BuildsFragment s q (lookup s t name fuzzy) (s.hasType t = true) := by
  intro held
  refine (builds_checkType t).bind fun _ ht => (Builds.see _).bind fun _ _ => ?_
  exact .emit_fragment (Nat.zero_le _) (List.nil_subset _) (by rintro key ⟨⟩) (List.Subset.refl _) ht

theorem builds_bareComparison (c : Comparison Double) :
    BuildsFragment s q (bareComparison s c) (s.hasField c.field = true) := fun _ =>
  (builds_checkField c.field).bind fun _ hfield => (builds_scanSeen _).bind fun _ _ =>
    (builds_filter List.mem_cons_self c).forget hfield

/-! ## Compound queries -/

/-- The variables of branches. -/
def vars (bs : List Branch) : List Variable := (bs.map Branch.fragment).map Fragment.var

/-- A computation makes branches, wherever it stands. -/
def BuildsBranches (s : Snapshot) (q : Query) (y : Lowering (List Branch)) (checked : Prop) : Prop :=
  ∀ held, Builds s q held y (fun bs => vars bs ++ held) fun _ => checked

/-- One more branch. -/
theorem builds_cons {make : Lowering Fragment} {operands : Lowering (List Branch)}
    {checked checked' : Prop} (h : BuildsFragment s q make checked)
    (hs : BuildsBranches s q operands checked') :
    BuildsBranches s q (do
      let b ← branch make
      let bs ← operands
      pure (b :: bs)) (checked ∧ checked') := fun held =>
  (h held).branch.bind fun _ hb => (hs _).bind fun _ hbs =>
    .pure List.perm_middle.symm.subset ⟨hb, hbs⟩

/-- Fragments are joined one after the other. -/
theorem builds_joined {join : Fragment → Fragment → Lowering Fragment}
    (hjoin : ∀ held f g, f.var ∈ held → g.var ∈ held →
      Builds s q held (join f g) (fun r => r.var :: held) fun _ => True)
    (f : Fragment) (fs : List Fragment) :
    Builds s q ((f :: fs).map Fragment.var ++ held) (fs.foldlM join f) (fun r => r.var :: held)
      fun _ => True := by
  refine (builds_foldlM (fun g a ha held' hheld hg => hjoin held' g a hg (hheld ?_)) ?_).mono
    (fun r => List.cons_subset_cons _ (List.subset_append_right ..)) fun _ _ => trivial
  · exact List.mem_append_left _ (List.mem_map_of_mem (List.mem_cons_of_mem _ ha))
  · exact List.mem_append_left _ List.mem_cons_self

variable {checked checked' checked'' : Prop} {config : EngineConfig}

theorem builds_disjunction {operands : Lowering (List Branch)}
    (h : BuildsBranches s q operands checked) :
    BuildsFragment s q (disjunction operands) checked := by
  intro held
  refine (h held).bind fun bs hbs => (Builds.silent (markBranches bs)).bind fun _ _ => ?_
  unfold vars
  cases bs.map Branch.fragment with
  | nil => exact .fail _
  | cons f fs =>
      exact (builds_joined (fun _ _ _ => builds_unite) f fs).mono (fun _ => List.Subset.refl _)
        fun _ _ => hbs

theorem builds_negation {operand : Lowering Fragment} (h : BuildsFragment s q operand checked) :
    BuildsFragment s q (negation s operand) checked := by
  intro held
  refine (h held).branch.bind fun inner hinner => (builds_scanSeen _).branch.bind fun all _ => ?_
  refine (Builds.silent (markBranches [inner, all])).bind fun _ _ => ?_
  refine .emit_fragment (Nat.le_refl _) ?_ (by rintro key ⟨⟩) ?_ hinner
  · simp
  · intro v hv
    simp [hv]

/-- An arrow joins by relations of the snapshot. -/
theorem ends_binding? (name : Option String) (l r : String) :
    Ends (fun _ => True) (fun b => ∀ b' ∈ b, s.relations.contains b'.key = true)
      (s.binding? name l r) := by
  have hbetween : ∀ {a b key}, key ∈ s.relationsBetween name a b →
      s.relations.contains key = true := fun hkey =>
    (OrderedMap.mem_keys_iff_contains _ _).1 (List.mem_filter.1 hkey).1
  have hjoining : ∀ key ∈ (s.joining name l r).1, s.relations.contains key = true := by
    unfold Snapshot.joining
    dsimp only
    split
    · exact fun key => hbetween
    · exact fun key => hbetween
  unfold Snapshot.binding?
  split
  · rintro b ⟨⟩
  · rename_i key reversed heq
    rintro b ⟨⟩
    exact hjoining key (by simp [heq])
  · trivial

theorem ends_bindings (name : Option String) (left right : TypeSet) :
    Ends (fun _ => True) (fun bs => ∀ b ∈ bs, s.relations.contains b.key = true)
      (s.bindings name left right) := by
  unfold Snapshot.bindings
  refine (Ends.mapM fun p _ => ends_binding? name p.1 p.2).bind fun found hfound => ?_
  split
  · trivial
  · intro b hb
    obtain ⟨o, ho, heq⟩ := List.mem_filterMap.1 hb
    exact hfound o ho b heq

theorem builds_arrow (name : Option String) (pushed : List (Comparison Double))
    {left right : Lowering Fragment} (hl : BuildsFragment s q left checked)
    (hr : BuildsFragment s q right checked') :
    BuildsFragment s q (arrow s config name pushed left right) (checked ∧ checked') := by
  intro held
  have hleft : Builds s q held (do filterAll s (← left) pushed) (fun f => f.var :: held)
      fun _ => checked :=
    (hl held).bind fun f hf => (builds_filterAll List.mem_cons_self pushed).forget hf
  refine hleft.branch.bind fun l hl' => (hr _).branch.bind fun r hr' => ?_
  refine (Builds.silent (markBranches [l, r])).bind fun _ _ => ?_
  refine Builds.lift_bind fun bindings hbindings => ?_
  refine .emit_fragment (Nat.le_refl _) ?_ ?_ ?_ ⟨hl', hr'⟩
  · simp
  · exact List.forall_mem_map.2 ((ends_bindings ..).of_ok hbindings)
  · intro v hv
    simp [hv]

theorem builds_similarity (distance : Option Double) (topK : Option Nat)
    (targetType : Option String) (pushed : List (Comparison Double)) {target : Lowering Fragment}
    (h : BuildsFragment s q target checked) :
    BuildsFragment s q (similarity s config distance topK targetType pushed target)
      (checked ∧ targetType.all s.hasType = true) := by
  intro held
  refine (h held).bind fun f hf => (builds_searchedTypes f targetType).bind fun types htypes => ?_
  dsimp only
  split
  · exact .fail_bind _
  · -- a search reads its target, and its candidates where conditions restrict them
    have hinputs : Builds s q (f.var :: held)
        (if pushed.isEmpty then pure ([f.var], searchAccess s config types)
        else do
          let candidates ← filterAll s (← scan s types) pushed
          pure ([f.var, candidates.var], Access.bruteForce, Quantity.greater candidates.rows 1))
        (fun p => p.1 ++ held) fun p => 1 ≤ p.1.length := by
      split
      · exact .pure (List.Subset.refl _) (Nat.le_refl 1)
      · refine (builds_scan types _).bind fun all _ => ?_
        refine (builds_filterAll List.mem_cons_self pushed).bind fun candidates _ => ?_
        refine .pure ?_ (Nat.le_succ 1)
        refine List.cons_subset.2 ⟨by simp, List.cons_subset.2 ⟨by simp, fun v hv => ?_⟩⟩
        exact List.mem_cons_of_mem _ (List.mem_cons_of_mem _ (List.mem_cons_of_mem _ hv))
    refine hinputs.bind fun p hp => ?_
    exact .emit_fragment (show (Action.nearest _ _ _).arity ≤ _ from hp) (List.subset_append_left ..) (by rintro key ⟨⟩)
      (List.subset_append_right ..) ⟨hf, htypes⟩

theorem builds_analogy (targetType : Option String) {a b c : Lowering Fragment}
    (ha : BuildsFragment s q a checked) (hb : BuildsFragment s q b checked')
    (hc : BuildsFragment s q c checked'') :
    BuildsFragment s q (analogy s config targetType a b c)
      (checked ∧ checked' ∧ checked'' ∧ targetType.all s.hasType = true) := by
  intro held
  refine (ha held).branch.bind fun fa ha' => (hb _).branch.bind fun fb hb' =>
    (hc _).branch.bind fun fc hc' => ?_
  refine (Builds.silent (markBranches [fa, fb, fc])).bind fun _ _ => ?_
  refine (builds_analogyType fb.fragment targetType).bind fun t ht => ?_
  refine (Builds.see _).bind fun _ _ => ?_
  refine .emit_fragment (Nat.le_refl _) ?_ (by rintro key ⟨⟩) ?_ ⟨ha', hb', hc', ht⟩
  · simp
  · intro v hv
    simp [hv]

theorem builds_optimization (direction : Direction) (objective : Objective Double)
    (constraints : List (Comparison Double)) :
    BuildsFragment s q (optimization s config direction objective constraints)
      (s.knows (.optimize direction objective constraints) = true) := by
  intro held
  refine (Builds.forM fun t _ => builds_checkTerm t).bind fun _ hterms => ?_
  refine (Builds.forM fun (c : Comparison Double) _ => builds_checkField c.field).bind
    fun _ hconstraints => ?_
  have hknows : s.knows (.optimize direction objective constraints) = true := by
    rw [Snapshot.knows, List.all_eq_true.2 hterms, List.all_eq_true.2 hconstraints]
    rfl
  refine (builds_scanSeen _).bind fun candidates _ => ?_
  dsimp only
  split
  · refine (Builds.silent (note _)).bind fun _ _ => ?_
    exact .emit_fragment (Nat.le_refl _) (by simp) (by rintro key ⟨⟩) (List.subset_cons_self ..)
      hknows
  · exact .emit_fragment (Nat.le_refl _) (by simp) (by rintro key ⟨⟩) (List.subset_cons_self ..)
      hknows

/-- The operands of a conjunction are accounted for, and the fields of its conditions are known. -/
theorem builds_conjunction {qs : List Query}
    {operands : List (Comparison Double) → Option Nat → Lowering (List Branch)}
    (h : ∀ pushed target, BuildsBranches s q (operands pushed target) checked)
    (hnone : qs.filter (fun p => (comparison? p).isNone) = [] → checked) :
    BuildsFragment s q (conjunction s config qs operands)
      ((∀ c ∈ qs.filterMap comparison?, s.hasField c.field = true) ∧ checked) := by
  intro held
  unfold conjunction
  simp only [List.partition_eq_filter_filter]
  refine (Builds.forM fun (c : Comparison Double) _ => builds_checkField c.field).bind
    fun _ hconditions => ?_
  split
  · rename_i hempty
    refine (builds_scanSeen _).bind fun all _ => ?_
    exact (builds_filterAll List.mem_cons_self _).forget
      ⟨hconditions, hnone (List.isEmpty_iff.1 hempty)⟩
  · refine (Builds.silent _).bind fun _ _ => (h _ _ _).bind fun bs hbs => ?_
    refine (Builds.silent (markBranches bs)).bind fun _ _ => ?_
    unfold vars
    cases bs.map Branch.fragment with
    | nil => exact .fail _
    | cons f fs =>
        refine (builds_joined (fun _ _ _ => builds_intersect) f fs).bind fun g _ => ?_
        exact (builds_filterAll List.mem_cons_self _).forget ⟨hconditions, hbs⟩

/-! ## All queries -/

section

variable {qs : List Query}

theorem builds_conjuncts
    (h : ∀ p ∈ qs, ∀ pushed, BuildsFragment s q (lower s config pushed p) (q.Accounts s p))
    (pushed : List (Comparison Double)) (target : Option Nat) :
    BuildsBranches s q (conjuncts s config pushed target qs)
      (∀ p ∈ qs, comparison? p = none → q.Accounts s p) := by
  intro held
  induction qs generalizing held target with
  | nil => exact .pure (List.Subset.refl _) fun p hp => absurd hp List.not_mem_nil
  | cons p qs ih =>
      have ih := ih fun p hp => h p (List.mem_cons_of_mem _ hp)
      rw [conjuncts]
      split
      · rename_i hcomparison
        refine (ih target held).mono (fun _ => List.Subset.refl _) fun _ hqs => ?_
        refine List.forall_mem_cons.2 ⟨fun hnone => ?_, hqs⟩
        rw [hnone] at hcomparison
        cases hcomparison
      · exact (builds_cons (h p List.mem_cons_self _) (ih _) held).mono
          (fun _ => List.Subset.refl _)
          fun _ hboth => List.forall_mem_cons.2 ⟨fun _ => hboth.1, hboth.2⟩

theorem builds_branches
    (h : ∀ p ∈ qs, BuildsFragment s q (lower s config [] p) (q.Accounts s p)) :
    BuildsBranches s q (branches s config qs) (∀ p ∈ qs, q.Accounts s p) := by
  intro held
  induction qs generalizing held with
  | nil => exact .pure (List.Subset.refl _) fun p hp => absurd hp List.not_mem_nil
  | cons p qs ih =>
      exact (builds_cons (h p List.mem_cons_self)
        (ih fun p hp => h p (List.mem_cons_of_mem _ hp)) held).mono (fun _ => List.Subset.refl _)
          fun _ hboth => List.forall_mem_cons.2 hboth

end

/-- Below its root a query is shared if no conditions run there. -/
theorem builds_shared {p : Query} (hp : p ∈ q.subqueries) {make : Lowering Fragment}
    (h : BuildsFragment s q make (q.Accounts s p)) (pushed : List (Comparison Double)) :
    BuildsFragment s q (if pushed.isEmpty then share p make else make) (q.Accounts s p) := by
  split
  · exact Builds.share hp h
  · exact h

open Query in
/-- A connective is accounted for if its operands are. -/
theorem builds_logical {op : Connective} {qs : List Query} (hself : .logical op qs ∈ q.subqueries)
    (h : ∀ p ∈ qs, ∀ pushed, BuildsFragment s q (lower s config pushed p) (q.Accounts s p))
    (pushed : List (Comparison Double)) :
    BuildsFragment s q (lower s config pushed (.logical op qs))
      (q.Accounts s (.logical op qs)) := by
  cases op with
  | and =>
      rw [lower]
      refine builds_shared hself ((builds_conjunction (builds_conjuncts h)
        fun hempty c hc hnone => ?_).mono fun hboth => ?_) pushed
      · simpa [hnone] using List.filter_eq_nil_iff.1 hempty c hc
      · refine accounts_of_children rfl fun c hc => ?_
        cases hcomparison : comparison? c with
        | none => exact hboth.2 c hc hcomparison
        | some condition =>
            have hfield := hboth.1 condition (List.mem_filterMap.2 ⟨c, hc, hcomparison⟩)
            rw [eq_of_comparison? hcomparison]
            exact accounts_of_children hfield (by rintro c ⟨⟩)
  | or =>
      rw [lower]
      refine builds_shared hself ((builds_disjunction (builds_branches fun c hc => h c hc [])).mono
        fun hall => ?_) pushed
      exact accounts_of_children rfl hall
  | not =>
      have hfail : ∀ e, BuildsFragment s q (throw e) (q.Accounts s (.logical .not qs)) :=
        fun e held => .fail e
      -- only a negation of one operand has a plan
      cases qs with
      | nil =>
          rw [lower]
          · exact builds_shared hself (hfail _) pushed
          · simp
      | cons c cs =>
          cases cs with
          | nil =>
              rw [lower]
              refine builds_shared hself ((builds_negation (h c List.mem_cons_self [])).mono
                fun hc => ?_) pushed
              exact accounts_of_children rfl (List.forall_mem_singleton.2 hc)
          | cons c' cs =>
              rw [lower]
              · exact builds_shared hself (hfail _) pushed
              · simp

open Query in
/-- What is lowered is made of operations that fit, and its names are known. -/
theorem builds_lower (config : EngineConfig) (p : Query) : p.subqueries ⊆ q.subqueries →
    ∀ pushed, BuildsFragment s q (lower s config pushed p) (q.Accounts s p) := by
  refine of_children (P := fun p => p.subqueries ⊆ q.subqueries →
    ∀ pushed, BuildsFragment s q (lower s config pushed p) (q.Accounts s p)) ?_ p
  intro p ih hp pushed
  have hself := hp (mem_subqueries_self p)
  have ih : ∀ c ∈ p.children, ∀ pushed,
      BuildsFragment s q (lower s config pushed c) (q.Accounts s c) := fun c hc =>
    ih c hc (List.Subset.trans (subqueries_subset hc) hp)
  cases p with
  | lookup t name fuzzy =>
      rw [lower]
      exact builds_shared hself ((builds_lookup t name fuzzy).mono fun ht =>
        accounts_of_children ht (by rintro c ⟨⟩)) pushed
  | relation l name r =>
      rw [lower]
      refine builds_shared hself ((builds_arrow name pushed (ih l (by simp [children]) [])
        (ih r (by simp [children]) [])).mono fun hboth => ?_) pushed
      exact accounts_of_children rfl
        (List.forall_mem_cons.2 ⟨hboth.1, List.forall_mem_singleton.2 hboth.2⟩)
  | logical op qs => exact builds_logical hself ih pushed
  | comparison c =>
      rw [lower]
      exact builds_shared hself ((builds_bareComparison c).mono fun hfield =>
        accounts_of_children hfield (by rintro c ⟨⟩)) pushed
  | similar t distance topK targetType =>
      rw [lower]
      refine builds_shared hself ((builds_similarity distance topK targetType pushed
        (ih t (by simp [children]) [])).mono fun hboth => ?_) pushed
      exact accounts_of_children hboth.2 (List.forall_mem_singleton.2 hboth.1)
  | analogy a b c targetType =>
      rw [lower]
      refine builds_shared hself ((builds_analogy targetType (ih a (by simp [children]) [])
        (ih b (by simp [children]) []) (ih c (by simp [children]) [])).mono ?_) pushed
      rintro ⟨ha, hb, hc, htype⟩
      exact accounts_of_children htype (List.forall_mem_cons.2
        ⟨ha, List.forall_mem_cons.2 ⟨hb, List.forall_mem_singleton.2 hc⟩⟩)
  | optimize direction objective constraints =>
      rw [lower]
      exact builds_shared hself ((builds_optimization direction objective constraints).mono
        fun hknows => accounts_of_children hknows (by rintro c ⟨⟩)) pushed

end Lowering

/-! ## Plans -/

theorem fitting_unmarked {s : Snapshot} {ops : List Operation}
    (h : Fitting s (ops.map Operation.unmarked)) : Fitting s ops := by
  intro i op hop
  have hfits := h i op.unmarked (by rw [List.getElem?_map, hop, Option.map_some])
  exact ⟨hfits.arity, hfits.bound, hfits.relations⟩

/-- The names of a query that has a plan are known, and the operations of the plan fit. -/
theorem Plan.fitting_of_ofQuery {s : Snapshot} {config : EngineConfig} {q : Query}
    {limit : Option Nat} {plan : Plan} (h : ofQuery s config q limit = .ok plan) :
    q.Accounts s q ∧ Fitting s plan.operations := by
  obtain ⟨root, d, op, hlower, hops, haction, hinputs, -, -⟩ := lower_of_ofQuery h
  obtain ⟨hd, hbinds, haccounts⟩ := Lowering.builds_lower config q (List.Subset.refl _) [] []
    Lowering.start (Lowering.sound_start s q) (fun v hv => absurd hv List.not_mem_nil) root d hlower
  have hroot : ∃ j < d.operations.length, root.var = .numbered (j + 1) := by
    rw [← d.length_trail]
    exact hbinds _ List.mem_cons_self
  refine ⟨haccounts, ?_⟩
  rw [hops]
  refine forall_concat (fitting_unmarked hd.fitting) ⟨?_, ?_, ?_⟩
  · rw [haction, hinputs]
    exact Nat.le_refl 1
  · rw [hinputs]
    exact List.forall_mem_singleton.2 hroot
  · rw [haction]
    rintro key ⟨⟩

namespace Engine

/-- If a query has a plan, the types and fields that it names are known, except in a subquery that
has the key of another one; a query that can be written has none of these.  Without a limit of
time the plan runs to its end, unless numbers have no meaningful result. -/
theorem safe_of_plan (e : Engine) {s : Snapshot} (hs : s.Made) {q : Query} {limit : Option Nat}
    {plan : Plan} (h : e.plan s q limit = .ok plan) :
    (∀ p ∈ q.subqueries, s.knows p = true ∨ q.Confuses p) ∧
      (q.Printable → ∀ p ∈ q.subqueries, s.knows p = true) ∧
      ((∃ x, (e.executor s).run plan none = .ok x) ∨
        ∃ cause, (e.executor s).run plan none = .error (.failed cause) ∧
          cause.isNumerical = true) := by
  have hplan := ok_of_mapError h
  obtain ⟨hknown, hfits⟩ := Plan.fitting_of_ofQuery hplan
  refine ⟨hknown, fun hq p hp => (hknown p hp).resolve_right (hq.not_confuses p), ?_⟩
  obtain ⟨_, _, op, -, hops, -, -, hresult, -⟩ := Plan.lower_of_ofQuery hplan
  have hrun : Ends (fun i => i.isNumerical = true) (fun x => s.Holds x.result)
      ((e.executor s).run plan none) :=
    Executor.ends_run hs (Plan.numbered_of_ofQuery hplan) hfits (by simp)
      ⟨op, by simp [hops], hresult⟩
  cases hx : (e.executor s).run plan none with
  | ok x => exact .inl ⟨x, rfl⟩
  | error i =>
      rw [hx] at hrun
      cases i with
      | failed cause => exact .inr ⟨cause, rfl, hrun⟩
      | timeout => cases hrun

theorem safe_of_plan_search :
    let e := Engine.new (.empty {}) {}
    let text := "similar_to(feature(\"cache\"), type=feature) AND effort < 5"
    oneFeature.Made ∧ ∃ q plan, Query.parse text = .ok q ∧ e.plan oneFeature q none = .ok plan ∧
      (∀ p ∈ q.subqueries, oneFeature.knows p = true) ∧
      ((∃ x, (e.executor oneFeature).run plan none = .ok x) ∨
        ∃ cause, (e.executor oneFeature).run plan none = .error (.failed cause) ∧
          cause.isNumerical = true) := by
  intro e text
  have hplan : ((Query.parse text).toOption.bind fun q =>
      (e.plan oneFeature q none).toOption).isSome = true := by decide +kernel
  obtain ⟨plan, hplan⟩ := Option.isSome_iff_exists.1 hplan
  obtain ⟨q, hq, hplan⟩ := Option.bind_eq_some_iff.1 hplan
  have hq := ok_of_toOption hq
  have hplan := ok_of_toOption hplan
  obtain ⟨-, hknown, hrun⟩ := safe_of_plan e made_oneFeature hplan
  exact ⟨made_oneFeature, q, plan, hq, hplan, hknown (printable_of_parse hq), hrun⟩

/-- A query may have a plan although it names an unknown type, if that name contains the text of
another part of the query. -/
theorem plan_of_unknown_type :
    let e := Engine.new (.empty {}) {}
    let feature (id : String) : Query := .lookup "feature" id false
    let other : Query := .lookup "feature(\"cache\") OR feature" "b" false
    let q : Query := .logical .or [.logical .or [feature "cache", feature "b", feature "c"],
      .logical .or [other, feature "c"]]
    oneFeature.Made ∧ (∃ plan, e.plan oneFeature q none = .ok plan) ∧ other ∈ q.subqueries ∧
      oneFeature.knows other = false := by
  intro e feature other q
  have hplan : (e.plan oneFeature q none).toOption.isSome = true := by decide +kernel
  obtain ⟨plan, hplan⟩ := Option.isSome_iff_exists.1 hplan
  have hother : other ∈ (Query.logical .or [other, feature "c"]).subqueries :=
    Query.subqueries_subset List.mem_cons_self (Query.mem_subqueries_self other)
  exact ⟨made_oneFeature, ⟨plan, ok_of_toOption hplan⟩,
    Query.subqueries_subset (List.mem_cons_of_mem _ List.mem_cons_self) hother, by decide +kernel⟩

end Engine

end VectorQuery
