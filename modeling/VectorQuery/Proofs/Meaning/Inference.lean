/-
# Types read off a query

The types that the meaning of a query carries can be read off the query and the types seen before
it, if it has neither conditions nor optimizations (`Query.inferred`).  No types mean any type; and
though every such query names a type, no types may be left where a conjunction joins operands
without a common type (`Query.Clashes`), and nowhere else.

A subquery whose key is known gets the meaning kept in the memory.  A key tells the types seen apart
by their text, which is the same for no types and for the type of the empty name, but a query that
has been evaluated has named another type (`Memory.Inferred.types_of_known`).  So evaluations carry
the types inferred (`types_evaluate`).
-/
import VectorQuery.Proofs.Meaning.Agreement

namespace VectorQuery

open Evaluation
open Lowering (anyReadsSeen comparison? readsSeen sharingKey)

/-! ## Types of several values -/

namespace TypeSet

variable {ts : List TypeSet} {u : TypeSet}

/-- The types of entities that belong to all of some values. -/
def bothAll : List TypeSet → TypeSet
  | [] => .empty
  | t :: ts => ts.foldl both t

/-- The types of entities that belong to some of some values. -/
def eitherAll : List TypeSet → TypeSet
  | [] => .empty
  | t :: ts => ts.foldl either t

theorem within_bothAll (h : ∀ t ∈ ts, t.Within u) : (bothAll ts).Within u := by
  cases ts with
  | nil => exact empty_within u
  | cons t ts => exact within_foldl mem_of_mem_both h

theorem within_eitherAll (h : ∀ t ∈ ts, t.Within u) : (eitherAll ts).Within u := by
  cases ts with
  | nil => exact empty_within u
  | cons t ts => exact within_foldl mem_of_mem_either h

/-- Types that are known on both sides are known of either. -/
theorem either_ne_empty {s t : TypeSet} (hs : s ≠ .empty) (ht : t ≠ .empty) :
    s.either t ≠ .empty := by
  unfold either
  split
  · rename_i hnone
    rw [Bool.or_eq_true, isEmpty_iff, isEmpty_iff, ← eq_empty_iff, ← eq_empty_iff] at hnone
    exact absurd hnone (not_or.2 ⟨hs, ht⟩)
  · obtain ⟨n, hn⟩ := ne_empty_iff.1 hs
    exact ne_empty_iff.2 ⟨n, mem_union.2 (.inl hn)⟩

theorem eitherAll_ne_empty (hts : ts ≠ []) (h : ∀ t ∈ ts, t ≠ .empty) : eitherAll ts ≠ .empty := by
  cases ts with
  | nil => exact absurd rfl hts
  | cons t ts =>
      refine List.foldlRecOn (motive := (· ≠ .empty)) ts either (h t List.mem_cons_self) ?_
      exact fun s hs t ht => either_ne_empty hs (h t (List.mem_cons_of_mem _ ht))

end TypeSet

/-! ## Inferred types -/

namespace Query

variable {q : Query} {qs : List Query} {S T U : TypeSet} {n : String}

mutual

/-- The types of a query without conditions, after some types have been seen. -/
def inferred (seen : TypeSet) : Query → TypeSet
  | .lookup t .. => .single t
  | .relation l _ _ => inferred seen l
  | .logical .and qs => .bothAll (inferredAll seen qs)
  | .logical .or qs => .eitherAll (inferredAll seen qs)
  | .logical .not qs => seen.union (typesNamed (.logical .not qs))
  | .similar _ _ _ (some t) => .single t
  | .similar target _ _ none => inferred seen target
  | .analogy _ _ _ (some t) => .single t
  | .analogy a b _ none => inferred (seen.union a.typesNamed) b
  | .comparison _ | .optimize .. => seen

/-- The types of queries, each after those before it. -/
def inferredAll (seen : TypeSet) : List Query → List TypeSet
  | [] => []
  | q :: qs => inferred seen q :: inferredAll (seen.union q.typesNamed) qs

end

/-- The query is a comparison or an optimization. -/
def isConditional : Query → Bool
  | .comparison _ | .optimize .. => true
  | _ => false

/-- No part of the query is a comparison or an optimization. -/
def Unconditional (q : Query) : Prop := ∀ p ∈ q.subqueries, p.isConditional = false

instance : DecidablePred Unconditional := fun q =>
  inferInstanceAs (Decidable (∀ p ∈ q.subqueries, p.isConditional = false))

/-- Within the query, a conjunction joins operands that have no type in common, though each has
types. -/
def Clashes (q : Query) : Prop :=
  ∃ qs S, .logical .and qs ∈ q.subqueries ∧ (∀ t ∈ inferredAll S qs, t ≠ .empty) ∧
    TypeSet.bothAll (inferredAll S qs) = .empty

theorem Unconditional.self (h : q.Unconditional) : q.isConditional = false :=
  h q q.mem_subqueries_self

theorem Unconditional.child {c : Query} (h : q.Unconditional) (hc : c ∈ q.children) :
    c.Unconditional :=
  fun p hp => h p (subqueries_subset hc hp)

theorem Clashes.of_child {c : Query} (hc : c ∈ q.children) (h : c.Clashes) : q.Clashes := by
  obtain ⟨qs, S, hmem, hclash⟩ := h
  exact ⟨qs, S, subqueries_subset hc hmem, hclash⟩

theorem exists_mem_of_le_length {qs : List Query} (h : 2 ≤ qs.length) : ∃ q, q ∈ qs :=
  List.exists_mem_of_length_pos (Nat.lt_of_lt_of_le Nat.zero_lt_two h)

/-- A query without conditions names a type, and one with a name. -/
theorem exists_typeNamed (hq : q.Printable) (hu : q.Unconditional) :
    ∃ n ∈ q.typesNamed.names, n ≠ "" := by
  have hchild {p c : Query} (hc : c ∈ p.children) (h : ∃ n ∈ c.typesNamed.names, n ≠ "") :
      ∃ n ∈ p.typesNamed.names, n ≠ "" := by
    obtain ⟨n, hn, hne⟩ := h
    exact ⟨n, typesNamed_within_of_child hc n hn, hne⟩
  induction hq with
  | lookup name fuzzy h => exact ⟨_, (mem_typesNamed_iff _).2 (.inl rfl), h.ne_empty⟩
  | relation _ _ _ ih => exact hchild List.mem_cons_self (ih (hu.child List.mem_cons_self))
  | not _ ih => exact hchild List.mem_cons_self (ih (hu.child List.mem_cons_self))
  | logical _ hlength _ ih =>
      obtain ⟨q, hq⟩ := exists_mem_of_le_length hlength
      exact hchild hq (ih q hq (hu.child hq))
  | comparison => cases hu.self
  | similar _ _ _ _ ih => exact hchild List.mem_cons_self (ih (hu.child List.mem_cons_self))
  | analogy _ _ _ _ ih => exact hchild List.mem_cons_self (ih (hu.child List.mem_cons_self))
  | optimize => cases hu.self

/-! ### What is inferred -/

theorem inferredAll_ne_nil (S : TypeSet) (h : 2 ≤ qs.length) : inferredAll S qs ≠ [] := by
  cases qs with
  | nil => exact absurd h (by decide)
  | cons q qs => simp [inferredAll]

theorem exists_of_mem_inferredAll {t : TypeSet} (h : t ∈ inferredAll S qs) :
    ∃ q ∈ qs, ∃ T, t = q.inferred T := by
  induction qs generalizing S with
  | nil => cases h
  | cons q qs ih =>
      rw [inferredAll] at h
      rcases List.mem_cons.1 h with rfl | h
      · exact ⟨q, List.mem_cons_self, S, rfl⟩
      · obtain ⟨p, hp, T, rfl⟩ := ih h
        exact ⟨p, List.mem_cons_of_mem _ hp, T, rfl⟩

theorem within_inferredAll (ih : ∀ q ∈ qs, ∀ S, S.Within U → q.typesNamed.Within U →
      (q.inferred S).Within U) (hS : S.Within U) (hqs : ∀ q ∈ qs, q.typesNamed.Within U) :
    ∀ t ∈ inferredAll S qs, t.Within U := by
  induction qs generalizing S with
  | nil => exact nofun
  | cons q qs ih' =>
      obtain ⟨hq, hqs⟩ := List.forall_mem_cons.1 hqs
      obtain ⟨ihq, ihqs⟩ := List.forall_mem_cons.1 ih
      rw [inferredAll]
      refine List.forall_mem_cons.2 ⟨ihq S hS hq, ih' ihqs (fun n hn => ?_) hqs⟩
      exact (TypeSet.mem_union.1 hn).elim (hS n) (hq n)

/-- The types inferred are types seen before or named. -/
theorem inferred_within (q : Query) (S : TypeSet) (hS : S.Within U) (hq : q.typesNamed.Within U) :
    (q.inferred S).Within U := by
  induction q using of_children generalizing S with
  | step q ih =>
      have hnamed (c : Query) (hc : c ∈ q.children) : c.typesNamed.Within U :=
        (typesNamed_within_of_child hc).trans hq
      have hself {t : String} (ht : q.typeNamed? = some t) : (TypeSet.single t).Within U := by
        intro n hn
        rw [TypeSet.mem_single.1 hn]
        exact hq t ((mem_typesNamed_iff q).2 (.inl ht))
      have hand : ∀ {S' : TypeSet}, S'.Within U → (S.union S').Within U :=
        fun hS' n hn => (TypeSet.mem_union.1 hn).elim (hS n) (hS' n)
      cases q with
      | lookup => exact hself rfl
      | relation l => exact ih l List.mem_cons_self S hS (hnamed l List.mem_cons_self)
      | logical op qs =>
          have hqs := within_inferredAll (fun q hq S hS => ih q hq S hS) hS hnamed
          cases op with
          | and => exact TypeSet.within_bothAll hqs
          | or => exact TypeSet.within_eitherAll hqs
          | not => exact hand hq
      | similar target _ _ targetType =>
          cases targetType with
          | none => exact ih target List.mem_cons_self S hS (hnamed target List.mem_cons_self)
          | some t => exact hself rfl
      | analogy a b c targetType =>
          have hb : b ∈ (Query.analogy a b c targetType).children := by simp [children]
          cases targetType with
          | none => exact ih b hb _ (hand (hnamed a List.mem_cons_self)) (hnamed b hb)
          | some t => exact hself rfl
      | comparison => exact hS
      | optimize => exact hS

theorem inferredAll_congr (ih : ∀ q ∈ qs, readsSeen q = false → ∀ S T, q.inferred S = q.inferred T)
    (h : anyReadsSeen qs = false) (S T : TypeSet) : inferredAll S qs = inferredAll T qs := by
  induction qs generalizing S T with
  | nil => rfl
  | cons q qs ih' =>
      rw [anyReadsSeen, Bool.or_eq_false_iff] at h
      obtain ⟨ihq, ihqs⟩ := List.forall_mem_cons.1 ih
      rw [inferredAll, inferredAll, ihq h.1 S T, ih' ihqs h.2]

/-- What does not read the types seen has the same types after any. -/
theorem inferred_congr (h : readsSeen q = false) (S T : TypeSet) : q.inferred S = q.inferred T := by
  induction q using of_children generalizing S T with
  | step q ih =>
      cases q with
      | lookup => rfl
      | relation l =>
          rw [readsSeen, Bool.or_eq_false_iff] at h
          exact ih l List.mem_cons_self h.1 S T
      | logical op qs =>
          rw [readsSeen, Bool.or_eq_false_iff] at h
          have hqs := inferredAll_congr ih h.2 S T
          cases op with
          | and => exact congrArg TypeSet.bothAll hqs
          | or => exact congrArg TypeSet.eitherAll hqs
          | not => cases h.1
      | similar target _ _ targetType =>
          cases targetType with
          | none => exact ih target List.mem_cons_self h S T
          | some t => rfl
      | analogy a b c targetType =>
          rw [readsSeen, Bool.or_eq_false_iff, Bool.or_eq_false_iff] at h
          cases targetType with
          | none => exact ih b (by simp [children]) h.1.2 _ _
          | some t => rfl
      | comparison => cases h
      | optimize => cases h

/-- A query without conditions is left without types only by a conjunction. -/
theorem clashes_of_inferred (hq : q.Printable) (hu : q.Unconditional) (h : q.inferred S = .empty) :
    q.Clashes := by
  have hsingle {t : String} : TypeSet.single t ≠ .empty :=
    TypeSet.ne_empty_iff.2 ⟨t, TypeSet.mem_single.2 rfl⟩
  induction hq generalizing S with
  | lookup => exact absurd h hsingle
  | relation _ _ _ ih =>
      exact .of_child List.mem_cons_self (ih (hu.child List.mem_cons_self) h)
  | @not q hq _ =>
      obtain ⟨n, hn, -⟩ := exists_typeNamed (.not hq) hu
      exact absurd h (TypeSet.ne_empty_iff.2 ⟨n, TypeSet.mem_union.2 (.inr hn)⟩)
  | @logical op qs hop hlength _ ih =>
      by_cases hnone : ∀ t ∈ inferredAll S qs, t ≠ .empty
      · cases op with
        | and => exact ⟨qs, S, mem_subqueries_self _, hnone, h⟩
        | or => exact absurd h (TypeSet.eitherAll_ne_empty (inferredAll_ne_nil S hlength) hnone)
        | not => exact absurd rfl hop
      · push Not at hnone
        obtain ⟨t, ht, hempty⟩ := hnone
        obtain ⟨q, hq, T, rfl⟩ := exists_of_mem_inferredAll ht
        exact .of_child hq (ih q hq (hu.child hq) hempty)
  | comparison => cases hu.self
  | similar targetType _ _ _ ih =>
      cases targetType with
      | none => exact .of_child List.mem_cons_self (ih (hu.child List.mem_cons_self) h)
      | some t => exact absurd h hsingle
  | @analogy a b c targetType _ _ _ _ _ ih =>
      have hb : b ∈ (Query.analogy a b c targetType).children := by simp [children]
      cases targetType with
      | none => exact .of_child hb (ih (hu.child hb) h)
      | some t => exact absurd h hsingle
  | optimize => cases hu.self

example : (inferred .empty (.logical .and
    [.lookup "feature" "cache" false, .lookup "command" "deps" false])).names = [] := by
  decide +kernel

end Query

/-! ## Evaluations -/

/-- Every meaning kept is that of a query without conditions, and carries the types inferred after
types that have been seen. -/
def Memory.Inferred (m : Memory) : Prop :=
  ∀ key a, m.meaningOf? key = some a → ∃ (q : Query) (S : TypeSet), q.Printable ∧
    q.Unconditional ∧ key = sharingKey q S ∧ S.Within m.seen ∧ q.typesNamed.Within m.seen ∧
    a.types = q.inferred S

/-- From the types seen before, the computation yields a value in `P` and leaves the types seen
after. -/
def Reaches {α : Type} (before after : TypeSet) (P : α → Prop) (y : Sharing α) : Prop :=
  ∀ m a m', m.Inferred → m.seen = before → y m = .ok (a, m') →
    m'.Inferred ∧ m'.seen = after ∧ P a

namespace Memory

variable {m : Memory} {q : Query}

theorem inferred_start : Memory.start.Inferred := by
  rintro key a ⟨⟩

theorem Inferred.see (h : m.Inferred) (types : TypeSet) : (m.see types).Inferred := by
  intro key a ha
  have hwithin := TypeSet.within_union_left m.seen types
  obtain ⟨q, S, hq, hu, hkey, hS, hnamed, hatypes⟩ := h key a ha
  exact ⟨q, S, hq, hu, hkey, hS.trans hwithin, hnamed.trans hwithin, hatypes⟩

theorem Inferred.remember (h : m.Inferred) (hq : q.Printable) (hu : q.Unconditional) {S : TypeSet}
    {a : Meaning} (hseen : m.seen = S.union q.typesNamed) (ha : a.types = q.inferred S) :
    (m.remember (sharingKey q S) a).Inferred := by
  intro key b hb
  rw [meaningOf?_remember] at hb
  split at hb
  · rename_i hkey
    cases hb
    refine ⟨q, S, hq, hu, hkey, ?_, ?_, ha⟩
    · rw [seen_remember, hseen]
      exact TypeSet.within_union_left _ _
    · rw [seen_remember, hseen]
      exact TypeSet.within_union_right _ _
  · exact h key b hb

/-- What is known for the key of a query carries the types inferred now, and adds nothing to the
types seen. -/
theorem Inferred.types_of_known (h : m.Inferred) (hq : q.Printable) {a : Meaning}
    (ha : m.meaningOf? (sharingKey q m.seen) = some a) :
    a.types = q.inferred m.seen ∧ q.typesNamed.Within m.seen := by
  obtain ⟨q', S, hq', hu, hkey, hS, hnamed, hatypes⟩ := h _ a ha
  obtain ⟨rfl, htext⟩ := Lowering.sharingKey_injective hq hq' hkey
  refine ⟨hatypes.trans ?_, hnamed⟩
  cases hreads : readsSeen q with
  | false => exact Query.inferred_congr hreads ..
  | true =>
      rcases TypeSet.eq_of_text hS (htext hreads).symm with heq | ⟨-, hempty⟩
      · rw [heq]
      · -- the query has named a type with a name, which is not the only type seen
        obtain ⟨n, hn, hne⟩ := Query.exists_typeNamed hq hu
        have hseen := hnamed n hn
        rw [hempty] at hseen
        exact absurd (TypeSet.mem_single.1 hseen) hne

end Memory

namespace Reaches

variable {α β : Type} {S S' S'' : TypeSet} {P P' : α → Prop} {Q : β → Prop} {y : Sharing α}
  {f : α → Sharing β} {relate : Relating}

theorem congr (h : Reaches S S' P y) (hS : S' = S'') (hP : ∀ a, P a → P' a) :
    Reaches S S'' P' y := by
  intro m a m' hm hseen hrun
  obtain ⟨hm', hseen', ha⟩ := h m a m' hm hseen hrun
  exact ⟨hm', hseen'.trans hS, hP a ha⟩

theorem pure {a : α} (h : P a) : Reaches S S P (pure a) := by
  intro m b m' hm hseen hrun
  cases hrun
  exact ⟨hm, hseen, h⟩

theorem bind (hy : Reaches S S' P y) (hf : ∀ a, P a → Reaches S' S'' Q (f a)) :
    Reaches S S'' Q (y >>= f) := by
  intro m b m' hm hseen hrun
  obtain ⟨a, m₁, hrun₁, hrun₂⟩ := run_of_bind hrun
  obtain ⟨hm₁, hseen₁, ha⟩ := hy m a m₁ hm hseen hrun₁
  exact hf a ha m₁ b m' hm₁ hseen₁ hrun₂

/-- A computation after one that may fail. -/
theorem after (e : Except QueryError α) (hf : ∀ a, e = .ok a → Reaches S S' Q (f a)) :
    Reaches S S' Q (liftM e >>= f) := by
  intro m b m' hm hseen hrun
  obtain ⟨a, ha, hrest⟩ := run_of_lift_bind hrun
  exact hf a ha m b m' hm hseen hrest

theorem see (types : TypeSet) :
    Reaches S (S.union types) (fun _ => True) ((Strategy.sharing relate).see types) := by
  intro m u m' hm hseen hrun
  cases hrun
  exact ⟨hm.see types, congrArg (TypeSet.union · types) hseen, trivial⟩

theorem seen : Reaches S S (fun types => types = S) (Strategy.sharing relate).seen := by
  intro m types m' hm hseen hrun
  cases hrun
  exact ⟨hm, hseen, hseen⟩

/-- A meaning is taken from the memory or kept there, which comes to the same types. -/
theorem reuse {q : Query} (hq : q.Printable) (hu : q.Unconditional) {make : Sharing Meaning}
    (h : Reaches S (S.union q.typesNamed) (fun a => a.types = q.inferred S) make) :
    Reaches S (S.union q.typesNamed) (fun a => a.types = q.inferred S) (reuse q make) := by
  intro m a m' hm hseen hrun
  subst hseen
  cases hk : m.meaningOf? (sharingKey q m.seen) with
  | some b =>
      obtain ⟨hb, hnamed⟩ := hm.types_of_known hq hk
      have hwithin : b.types.Within m.seen := by
        rw [hb]
        exact Query.inferred_within q m.seen (.refl _) hnamed
      rw [reuse_of_known hk, Memory.see_eq hwithin] at hrun
      cases hrun
      exact ⟨hm, hnamed.union_eq.symm, hb⟩
  | none =>
      rw [reuse_of_unknown hk] at hrun
      obtain ⟨⟨b, m₁⟩, hmake, heq⟩ := ok_of_map hrun
      cases heq
      obtain ⟨hm₁, hseen₁, hb⟩ := h m b m₁ hm rfl hmake
      exact ⟨hm₁.remember hq hu hseen₁ hb, hseen₁, hb⟩

/-! ### Single shapes -/

section

variable {x : Executor} {config : EngineConfig} {S₁ S₂ S₃ T U : TypeSet} {P₁ P₂ : Meaning → Prop}

theorem everything :
    Reaches S S (fun a => a.types = S) (everything x (.sharing relate)) :=
  seen.bind fun _ htypes => pure htypes

theorem lookup (t name : String) (fuzzy : Bool) :
    Reaches S (S.union (.single t)) (fun a => a.types = .single t)
      (lookup x (.sharing relate) t name fuzzy) :=
  after _ fun _ _ => (see _).bind fun _ _ => pure rfl

theorem negation {operand : Sharing Meaning} (h : Reaches S S₁ P₁ operand) :
    Reaches S S₁ (fun a => a.types = S₁) (negation x (.sharing relate) operand) :=
  h.bind fun _ _ => everything.bind fun _ hall => pure hall

theorem arrow (name : Option String) {l r : Sharing Meaning}
    (hl : Reaches S S₁ (fun a => a.types = T) l) (hr : Reaches S₁ S₂ P₂ r) :
    Reaches S S₂ (fun a => a.types = T) (arrow x config (.sharing relate) name l r) :=
  hl.bind fun _ hleft => hr.bind fun _ _ => after _ fun _ _ => after _ fun _ _ => pure hleft

theorem similarity {distance : Option Double} {topK : Option Nat} {targetType : Option String}
    {target : Sharing Meaning} (h : Reaches S S₁ (fun a => a.types = T) target)
    (htypes : ∀ a : Meaning, a.types = T → Reaches S₁ S₂ (fun types => types = U)
      (searchedTypes x (.sharing relate) a targetType)) :
    Reaches S S₂ (fun a => a.types = U)
      (similarity x config (.sharing relate) distance topK targetType target) :=
  h.bind fun a ha => (htypes a ha).bind fun _ hsearched =>
    after _ fun _ _ => after _ fun _ _ => pure hsearched

theorem analogy {targetType : Option String} {a b c : Sharing Meaning} (ha : Reaches S S₁ P₁ a)
    (hb : Reaches S₁ S₂ (fun b => b.types = T) b) (hc : Reaches S₂ S₃ P₂ c)
    (htype : ∀ t, analogyType x.snapshot T targetType = .ok t →
      S₃.union (.single t) = S' ∧ .single t = U) :
    Reaches S S' (fun a => a.types = U)
      (analogy x config (.sharing relate) targetType a b c) := by
  refine ha.bind fun _ _ => hb.bind fun b hb => hc.bind fun _ _ => after _ fun t ht => ?_
  rw [hb] at ht
  obtain ⟨hseen, htypes⟩ := htype t (ok_of_mapError ht)
  refine congr ((see (.single t)).bind fun _ _ => after _ fun _ _ => ?_) hseen fun _ h => h
  exact pure htypes

/-! ### Operands -/

theorem conjunction (conditions : List (Comparison Double)) {operands : Sharing (List Meaning)}
    {types : List TypeSet} (hne : types ≠ [])
    (h : Reaches S S₁ (fun as => as.map Meaning.types = types) operands) :
    Reaches S S₁ (fun a => a.types = .bothAll types)
      (conjunction x (.sharing relate) conditions operands) := by
  refine after _ fun _ _ => h.bind fun as has => ?_
  subst has
  cases as with
  | nil => exact absurd rfl hne
  | cons a as =>
      refine pure ?_
      rw [Meaning.types_filterAll]
      exact Meaning.types_foldl (fun _ _ => rfl) a as

theorem disjunction {operands : Sharing (List Meaning)} {types : List TypeSet} (hne : types ≠ [])
    (h : Reaches S S₁ (fun as => as.map Meaning.types = types) operands) :
    Reaches S S₁ (fun a => a.types = .eitherAll types) (disjunction operands) := by
  refine h.bind fun as has => ?_
  subst has
  cases as with
  | nil => exact absurd rfl hne
  | cons a as => exact pure (Meaning.types_foldl (fun _ _ => rfl) a as)

end

end Reaches

/-! ## All queries -/

section

variable {x : Executor} {config : EngineConfig} {relate : Relating} {q : Query} {qs : List Query}

/-- Operands without comparisons are all evaluated. -/
theorem computeOthers_eq (h : ∀ q ∈ qs, comparison? q = none) :
    computeOthers x config (.sharing relate) qs = computeAll x config (.sharing relate) qs := by
  induction qs with
  | nil => rw [computeOthers, computeAll]
  | cons q qs ih =>
      obtain ⟨hq, hqs⟩ := List.forall_mem_cons.1 h
      rw [computeOthers, computeAll, hq, ih hqs]
      rfl

theorem Query.Unconditional.comparison?_eq_none (hu : q.Unconditional) : comparison? q = none := by
  cases q with
  | comparison => cases hu.self
  | _ => rfl

/-- Operands leave the types that a query of them names. -/
theorem reaches_computeAll (op : Connective) (S : TypeSet)
    (h : ∀ q ∈ qs, ∀ S, Reaches S (S.union q.typesNamed) (fun a => a.types = q.inferred S)
      (reuse q (computeShared x config relate q))) :
    Reaches S (S.union (Query.logical op qs).typesNamed)
      (fun as => as.map Meaning.types = Query.inferredAll S qs)
      (computeAll x config (.sharing relate) qs) := by
  induction qs generalizing S with
  | nil =>
      rw [computeAll, ← Query.seen_nil]
      exact .pure rfl
  | cons q qs ih =>
      obtain ⟨hq, hqs⟩ := List.forall_mem_cons.1 h
      rw [computeAll, ← Query.seen_cons]
      refine (hq S).bind fun a ha => (ih _ hqs).bind fun as has => .pure ?_
      rw [List.map_cons, ha, has]
      rfl

/-- The type of an analogy is the one named, or the only one inferred for its second term. -/
theorem single_of_analogyType {s : Snapshot} {targetType : Option String} (a b c : Query)
    {S : TypeSet} {t : String}
    (ht : analogyType s (b.inferred (S.union a.typesNamed)) targetType = .ok t) :
    .single t = (Query.analogy a b c targetType).inferred S := by
  rcases analogyType_cases ht with ⟨rfl, -⟩ | ⟨rfl, hsecond⟩
  · rfl
  · exact hsecond.symm

/-- A query is computed to the types inferred, and leaves the types that it names. -/
theorem reaches_compute (hq : q.Printable) (hu : q.Unconditional) (S : TypeSet) :
    Reaches S (S.union q.typesNamed) (fun a => a.types = q.inferred S)
      (computeShared x config relate q) := by
  induction hq generalizing S with
  | lookup name fuzzy _ =>
      rw [computeShared, compute, ← Query.seen_lookup]
      exact .lookup _ name fuzzy
  | @relation l r name hl _ hr ihl ihr =>
      have hul : l.Unconditional := hu.child (by simp [Query.children])
      have hur : r.Unconditional := hu.child (by simp [Query.children])
      rw [computeShared, compute, ← Query.seen_relation]
      exact .arrow name (.reuse hl hul (ihl hul S)) (.reuse hr hur (ihr hur _))
  | @not q hq ih =>
      have huq : q.Unconditional := hu.child (by simp [Query.children])
      rw [computeShared, compute, ← Query.seen_negation]
      refine (Reaches.negation (.reuse hq huq (ih huq S))).congr rfl fun a ha => ?_
      rw [ha, Query.seen_negation]
      rfl
  | @logical op qs hop hlength hqs ih =>
      have huqs : ∀ q ∈ qs, q.Unconditional := fun q hq => hu.child hq
      have hoperands : Reaches S (S.union (Query.logical op qs).typesNamed)
          (fun as => as.map Meaning.types = Query.inferredAll S qs)
          (computeAll x config (.sharing relate) qs) :=
        reaches_computeAll op S fun q hq S => .reuse (hqs q hq) (huqs q hq) (ih q hq (huqs q hq) S)
      have hne := Query.inferredAll_ne_nil S hlength
      cases op with
      | and =>
          rw [computeShared, compute, computeOthers_eq fun q hq => (huqs q hq).comparison?_eq_none]
          exact .conjunction _ hne hoperands
      | or =>
          rw [computeShared, compute]
          exact .disjunction hne hoperands
      | not => exact absurd rfl hop
  | comparison => cases hu.self
  | @similar target distance topK targetType ht _ _ ih =>
      have hut : target.Unconditional := hu.child (by simp [Query.children])
      have htarget := Reaches.reuse ht hut (ih hut S)
      rw [computeShared, compute]
      cases targetType with
      | none =>
          rw [← Query.seen_search]
          exact .similarity htarget fun a ha => .pure ha
      | some t =>
          rw [← Query.seen_typedSearch]
          exact .similarity htarget fun a ha => .after _ fun _ _ => (Reaches.see _).bind fun _ _ =>
            .pure rfl
  | @analogy a b c targetType ha hb hc _ iha ihb ihc =>
      have hua : a.Unconditional := hu.child (by simp [Query.children])
      have hub : b.Unconditional := hu.child (by simp [Query.children])
      have huc : c.Unconditional := hu.child (by simp [Query.children])
      have hwithin := b.inferred_within (S.union a.typesNamed)
        (TypeSet.within_union_left _ b.typesNamed) (TypeSet.within_union_right _ _)
      rw [computeShared, compute]
      exact .analogy (.reuse ha hua (iha hua S)) (.reuse hb hub (ihb hub _))
        (.reuse hc huc (ihc huc _)) fun _ ht =>
          ⟨seen_of_analogyType a b c hwithin ht, single_of_analogyType a b c ht⟩
  | optimize => cases hu.self

/-- The meaning of a query without conditions carries the types inferred. -/
theorem types_evaluate (hq : q.Printable) (hu : q.Unconditional) {a : Meaning} {m : Memory}
    (h : evaluateShared x config relate q .start = .ok (a, m)) : a.types = q.inferred .empty :=
  ((Reaches.reuse hq hu (reaches_compute hq hu .empty)) .start a m Memory.inferred_start rfl h).2.2

end

end VectorQuery
