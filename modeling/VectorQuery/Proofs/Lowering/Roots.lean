/-
# What a plan collects

The root of a plan is the operation whose output is collected.  It relates two sides exactly if the
query is an arrow, alone or in conjunction with conditions that are all selective enough to run
below it (`Query.relatesAtRoot`).  A single condition that is not makes the root a filter, and any
other shape of a query has a root of its own.
-/
import VectorQuery.Proofs.Lowering.Plans

namespace VectorQuery

open Evaluation
open Lowering (Branch admitsPushdown bySelectivity comparison? selectivity Silent Extending)

/-- The action relates two sides. -/
def Action.relates : Action → Bool
  | .relate .. => true
  | _ => false

/-- An arrow, alone or in conjunction with conditions. -/
structure Arrow where
  left : Query
  relation : Option String
  right : Query
  conditions : List (Comparison Double)

namespace Query

/-- The arrow that a query is, with the conditions on it. -/
def arrow? : Query → Option Arrow
  | .relation l name r => some ⟨l, name, r, []⟩
  | .logical .and qs =>
    match qs.filter fun q => (comparison? q).isNone with
    | [.relation l name r] => some ⟨l, name, r, qs.filterMap comparison?⟩
    | _ => none
  | _ => none

/-- The query is an arrow, and every condition on it is selective enough to run below it. -/
def relatesAtRoot (s : Snapshot) (threshold : Double) (q : Query) : Bool :=
  match q.arrow? with
  | some a => a.conditions.all fun c => selectivity s c < threshold
  | none => false

end Query

namespace Lowering

variable {s : Snapshot} {config : EngineConfig} {α β : Type}

/-! ## Conditions that all run below one operand -/

theorem mem_bySelectivity {c : Comparison Double} {cs : List (Comparison Double)} :
    c ∈ bySelectivity s cs ↔ c ∈ cs := List.mem_mergeSort

theorem bySelectivity_nil : bySelectivity s [] = [] := List.mergeSort_nil

theorem isEmpty_bySelectivity {cs : List (Comparison Double)} (h : cs ≠ []) :
    (bySelectivity s cs).isEmpty = false := by
  obtain ⟨c, hc⟩ := List.exists_mem_of_ne_nil cs h
  exact List.isEmpty_eq_false_iff.2 (List.ne_nil_of_mem (mem_bySelectivity.2 hc))

theorem conjuncts_nil {pushed : List (Comparison Double)} {target : Option Nat} {qs : List Query}
    (h : qs.filter (fun q => (comparison? q).isNone) = []) :
    conjuncts s config pushed target qs = pure [] := by
  induction qs with
  | nil => rfl
  | cons q qs ih =>
      rw [conjuncts]
      cases hc : comparison? q with
      | none =>
          rw [List.filter_cons_of_pos (by simp [hc])] at h
          cases h
      | some c =>
          rw [List.filter_cons_of_neg (by simp [hc])] at h
          exact ih h

theorem conjuncts_singleton {pushed : List (Comparison Double)} {qs : List Query} {p : Query}
    (h : qs.filter (fun q => (comparison? q).isNone) = [p]) :
    conjuncts s config pushed (some 0) qs =
      branch (lower s config pushed p) >>= fun b => pure [b] := by
  induction qs with
  | nil => cases h
  | cons q qs ih =>
      rw [conjuncts]
      cases hc : comparison? q with
      | none =>
          rw [List.filter_cons_of_pos (by simp [hc])] at h
          obtain ⟨rfl, hnil⟩ := List.cons.inj h
          change (branch (lower s config pushed q) >>= fun b =>
            conjuncts s config pushed none qs >>= fun bs => pure (b :: bs)) = _
          rw [conjuncts_nil hnil]
          rfl
      | some c =>
          rw [List.filter_cons_of_neg (by simp [hc])] at h
          exact ih h

theorem length_conjuncts {pushed : List (Comparison Double)} {target : Option Nat}
    {qs : List Query} {d d' : Draft} {bs : List Branch}
    (h : conjuncts s config pushed target qs d = .ok (bs, d')) :
    bs.length = (qs.filter fun q => (comparison? q).isNone).length := by
  induction qs generalizing target d d' bs with
  | nil =>
      cases h
      rfl
  | cons q qs ih =>
      rw [conjuncts] at h
      cases hc : comparison? q with
      | none =>
          rw [hc] at h
          obtain ⟨b, _, -, h⟩ := run_of_bind h
          obtain ⟨bs', _, hbs, h⟩ := run_of_bind h
          cases h
          rw [List.filter_cons_of_pos (by simp [hc]), List.length_cons, List.length_cons, ih hbs]
      | some c =>
          rw [hc] at h
          rw [List.filter_cons_of_neg (by simp [hc])]
          exact ih h

theorem length_branches {qs : List Query} {d d' : Draft} {bs : List Branch}
    (h : branches s config qs d = .ok (bs, d')) : bs.length = qs.length := by
  induction qs generalizing d d' bs with
  | nil =>
      cases h
      rfl
  | cons q qs ih =>
      rw [branches] at h
      obtain ⟨b, _, -, h⟩ := run_of_bind h
      obtain ⟨bs', _, hbs, h⟩ := run_of_bind h
      cases h
      rw [List.length_cons, List.length_cons, ih hbs]

/-- The draft has the operations, the types seen and the fragments shared of another one. -/
structure Same (d d' : Draft) : Prop where
  trail : d'.trail = d.trail
  seen : d'.seen = d.seen
  shared : d'.shared = d.shared

theorem Same.of_silent {y : Lowering α} [Silent y] {g : α → Lowering β} {d d' : Draft} {b : β}
    (h : (y >>= g) d = .ok (b, d')) : ∃ a d₁, g a d₁ = .ok (b, d') ∧ Same d d₁ := by
  obtain ⟨a, d₁, hy, htrail, hseen, hshared⟩ := Silent.silent_run (y := y) d
  rw [bind_run hy] at h
  exact ⟨a, d₁, h, htrail, hseen, hshared⟩

/-- A conjunction of one operand and conditions that all run below it is the operand. -/
theorem run_conjunction_pushed {qs : List Query} {p : Query}
    (hothers : qs.filter (fun q => (comparison? q).isNone) = [p])
    (hadmits : admitsPushdown p = true)
    (hselective : ∀ c ∈ qs.filterMap comparison?,
      selectivity s c < config.compiler.pushdownSelectivity) {d d' : Draft} {f : Fragment}
    (h : conjunction s config qs (fun pushed target => conjuncts s config pushed target qs) d =
      .ok (f, d')) :
    ∃ d₀ d₁, Same d d₀ ∧
      lower s config (bySelectivity s (qs.filterMap comparison?)) p d₀ = .ok (f, d₁) ∧
        Same d₁ d' := by
  have htarget : [p].findIdx? admitsPushdown = some 0 := by
    rw [List.findIdx?_cons, if_pos hadmits]
  have hall : ∀ c ∈ bySelectivity s (qs.filterMap comparison?),
      selectivity s c < config.compiler.pushdownSelectivity :=
    fun c hc => hselective c (mem_bySelectivity.1 hc)
  have hpartition : (bySelectivity s (qs.filterMap comparison?)).partition (fun c =>
      (some 0 : Option Nat).isSome && selectivity s c < config.compiler.pushdownSelectivity) =
      (bySelectivity s (qs.filterMap comparison?), []) := by
    rw [List.partition_eq_filter_filter]
    refine Prod.ext (List.filter_eq_self.2 fun c hc => ?_) (List.filter_eq_nil_iff.2 fun c hc => ?_)
    · simpa using hall c hc
    · simpa using hall c hc
  unfold conjunction at h
  dsimp only at h
  rw [checkConditions_eq, hothers] at h
  obtain ⟨_, -, h⟩ := run_of_lift_bind h
  simp only [htarget, hpartition, conjuncts_singleton hothers] at h
  obtain ⟨_, d₀, h, hsame⟩ := Same.of_silent h
  obtain ⟨bs, d₁, hbs, h⟩ := run_of_bind h
  obtain ⟨b, d₂, hb, hbs⟩ := run_of_bind hbs
  cases hbs
  rw [run_branch] at hb
  obtain ⟨⟨g, d₁⟩, hlower, hb⟩ := ok_of_map hb
  cases hb
  obtain ⟨_, d₃, h, hsame'⟩ := Same.of_silent h
  cases h
  exact ⟨d₀, d₁, hsame, hlower, hsame'⟩

/-- The first query of all is made, not reused. -/
theorem run_of_share {q : Query} {y : Lowering Fragment} {f : Fragment} {d : Draft}
    (h : share q y start = .ok (f, d)) : ∃ d₁, y start = .ok (f, d₁) ∧ d.trail = d₁.trail := by
  rw [share_of_unshared rfl] at h
  obtain ⟨⟨g, d₁⟩, hrun, heq⟩ := ok_of_map h
  cases heq
  exact ⟨d₁, hrun, rfl⟩

/-! ## Roots that relate nothing -/

/-- The fragment that is made is bound by an operation that relates nothing. -/
def Unrelating (y : Lowering Fragment) : Prop :=
  ∀ d f d', y d = .ok (f, d') → ∃ op ∈ d'.trail, op.output = f.var ∧ op.action.relates = false

namespace Unrelating

variable {y z : Lowering Fragment}

theorem of_run {x : Lowering α} {g : α → Lowering Fragment}
    (h : ∀ d a d', x d = .ok (a, d') → Unrelating (g a)) : Unrelating (x >>= g) := by
  intro d f d' hrun
  obtain ⟨a, d₁, hx, hrun⟩ := run_of_bind hrun
  exact h d a d₁ hx d₁ f d' hrun

theorem bind {x : Lowering α} {g : α → Lowering Fragment} (h : ∀ a, Unrelating (g a)) :
    Unrelating (x >>= g) :=
  of_run fun _ a _ _ => h a

theorem emit {action : Action} (h : action.relates = false) {inputs : List Variable}
    {cost rows rows' : Double} {access : Access} {types : TypeSet} :
    Unrelating (Lowering.emit action inputs cost rows access >>= fun var =>
      pure ⟨var, types, rows'⟩) := by
  intro d f d' hrun
  rw [bind_run (run_emit ..)] at hrun
  cases hrun
  rw [trail_add]
  exact ⟨_, List.mem_append_right _ (List.mem_singleton_self _), rfl, h⟩

theorem throw (e : PlanError) : Unrelating (throw e) := by
  rintro d f d' ⟨⟩

theorem ite {p : Prop} [Decidable p] (hy : Unrelating y) (hz : Unrelating z) :
    Unrelating (if p then y else z) := by
  split
  · exact hy
  · exact hz

theorem foldlM {g : Fragment → α → Lowering Fragment} (hg : ∀ f a, Unrelating (g f a)) {l : List α}
    (hl : l ≠ []) (f : Fragment) : Unrelating (l.foldlM g f) := by
  induction l generalizing f with
  | nil => exact absurd rfl hl
  | cons a l ih =>
      rw [List.foldlM_cons]
      cases l with
      | nil =>
          simp only [List.foldlM_nil, bind_pure]
          exact hg f a
      | cons b l => exact bind fun f' => ih (List.cons_ne_nil _ _) f'

theorem run_share {q : Query} (hy : Unrelating y) {f : Fragment} {d : Draft}
    (h : share q y start = .ok (f, d)) :
    ∃ op ∈ d.trail, op.output = f.var ∧ op.action.relates = false := by
  obtain ⟨d₁, hrun, htrail⟩ := run_of_share h
  rw [htrail]
  exact hy start f d₁ hrun

end Unrelating

theorem unrelating_filter (f : Fragment) (c : Comparison Double) : Unrelating (filter s f c) :=
  .emit rfl

theorem unrelating_filterAll (f : Fragment) {cs : List (Comparison Double)} (hcs : cs ≠ []) :
    Unrelating (filterAll s f cs) :=
  .foldlM unrelating_filter hcs f

theorem unrelating_intersect (a b : Fragment) : Unrelating (intersect a b) := .emit rfl

theorem unrelating_unite (a b : Fragment) : Unrelating (unite a b) := .emit rfl

theorem unrelating_lookup (t name : String) (fuzzy : Bool) : Unrelating (lookup s t name fuzzy) :=
  .bind fun _ => .bind fun _ => .emit rfl

theorem unrelating_bareComparison (c : Comparison Double) : Unrelating (bareComparison s c) :=
  .bind fun _ => .bind fun _ => unrelating_filter _ c

theorem unrelating_negation (operand : Lowering Fragment) : Unrelating (negation s operand) :=
  .bind fun _ => .bind fun _ => .bind fun _ => .emit rfl

theorem unrelating_similarity (distance : Option Double) (topK : Option Nat)
    (targetType : Option String) (pushed : List (Comparison Double)) (target : Lowering Fragment) :
    Unrelating (similarity s config distance topK targetType pushed target) := by
  refine .bind fun _ => .bind fun _ => .ite (.bind fun _ => ?_) ?_ <;>
    exact .bind fun _ => .emit rfl

theorem unrelating_analogy (targetType : Option String) (a b c : Lowering Fragment) :
    Unrelating (analogy s config targetType a b c) :=
  .bind fun _ => .bind fun _ => .bind fun _ => .bind fun _ => .bind fun _ => .bind fun _ =>
    .emit rfl

theorem unrelating_optimization (direction : Direction) (objective : Objective Double)
    (constraints : List (Comparison Double)) :
    Unrelating (optimization s config direction objective constraints) := by
  refine .bind fun _ => .bind fun _ => .bind fun _ => .ite (.bind fun _ => ?_) ?_ <;>
    exact .emit rfl

theorem unrelating_disjunction {operands : Lowering (List Branch)}
    (h : ∀ d bs d', operands d = .ok (bs, d') → 2 ≤ bs.length) :
    Unrelating (disjunction operands) := by
  refine .of_run fun d bs d' hbs => .bind fun _ => ?_
  match bs, h d bs d' hbs with
  | a :: b :: bs, _ => exact .foldlM unrelating_unite (List.cons_ne_nil _ _) _

/-- Operands are intersected or a condition filters, unless there is one operand only. -/
theorem unrelating_joins {bs : List Branch} {remaining : List (Comparison Double)}
    (h : remaining ≠ [] ∨ 2 ≤ bs.length) :
    Unrelating (match bs.map Branch.fragment with
      | [] => throw (.noOperands .and)
      | f :: fs => do filterAll s (← fs.foldlM intersect f) remaining) := by
  match bs, remaining, h with
  | [], _, _ => exact .throw _
  | a :: bs, c :: cs, _ => exact .bind fun f => unrelating_filterAll f (List.cons_ne_nil _ _)
  | [_], [], h => simp at h
  | a :: b :: bs, [], _ =>
      simp only [filterAll, List.foldlM_nil, bind_pure]
      exact .foldlM unrelating_intersect (List.cons_ne_nil _ _) _

theorem exists_comparison (qs : List Query)
    (h : (qs.filter fun q => (comparison? q).isNone).length < qs.length) :
    ∃ c, c ∈ qs.filterMap comparison? := by
  obtain ⟨q, hq, hc⟩ := List.length_filter_lt_length_iff_exists.1 h
  obtain ⟨c, hc⟩ := Option.ne_none_iff_exists'.1 (mt Option.isNone_iff_eq_none.2 hc)
  exact ⟨c, List.mem_filterMap.2 ⟨q, hq, hc⟩⟩

/-- A condition remains that filters, or there are operands to intersect. -/
theorem unrelating_conjunction_joins {qs : List Query}
    (h : (∃ c ∈ qs.filterMap comparison?,
        ¬ (((qs.filter fun q => (comparison? q).isNone).findIdx? admitsPushdown).isSome = true ∧
          selectivity s c < config.compiler.pushdownSelectivity)) ∨
      2 ≤ (qs.filter fun q => (comparison? q).isNone).length) :
    Unrelating (conjunction s config qs fun pushed target =>
      conjuncts s config pushed target qs) := by
  unfold conjunction
  refine .bind fun _ => ?_
  dsimp only
  split
  · rename_i hempty
    obtain ⟨c, hc, -⟩ := h.resolve_right (by rw [List.isEmpty_iff.1 hempty]; decide)
    have hne : bySelectivity s (qs.filterMap comparison?) ≠ [] :=
      List.ne_nil_of_mem (mem_bySelectivity.2 hc)
    exact .bind fun _ => unrelating_filterAll _ hne
  · simp only [List.partition_eq_filter_filter]
    refine .bind fun _ => .of_run fun d bs d' hbs => .bind fun _ => unrelating_joins ?_
    rw [length_conjuncts hbs]
    refine h.imp_left ?_
    rintro ⟨c, hc, hno⟩
    refine List.ne_nil_of_mem (List.mem_filter.2 ⟨mem_bySelectivity.2 hc, ?_⟩)
    rwa [Function.comp_apply, Bool.not_eq_true', ← Bool.not_eq_true, Bool.and_eq_true,
      decide_eq_true_eq]

/-- All conditions run below the search that is the only operand. -/
theorem unrelating_conjunction_search {qs : List Query} {t : Query} {distance : Option Double}
    {targetType : Option String}
    (hothers : qs.filter (fun q => (comparison? q).isNone) = [.similar t distance none targetType])
    (hne : qs.filterMap comparison? ≠ [])
    (hall : ∀ c ∈ qs.filterMap comparison?, selectivity s c < config.compiler.pushdownSelectivity) :
    Unrelating (conjunction s config qs fun pushed target =>
      conjuncts s config pushed target qs) := by
  intro d f d' h
  obtain ⟨d₀, d₁, -, hlower, hsame⟩ := run_conjunction_pushed hothers rfl hall h
  rw [lower, isEmpty_bySelectivity hne] at hlower
  rw [hsame.trail]
  exact unrelating_similarity distance none targetType _ _ d₀ f d₁ hlower

theorem unrelating_conjunction {qs : List Query} (hlength : 2 ≤ qs.length)
    (hno : (Query.logical .and qs).relatesAtRoot s config.compiler.pushdownSelectivity = false) :
    Unrelating (conjunction s config qs fun pushed target =>
      conjuncts s config pushed target qs) := by
  by_cases htwo : 2 ≤ (qs.filter fun q => (comparison? q).isNone).length
  · exact unrelating_conjunction_joins (.inr htwo)
  obtain ⟨c, hc⟩ := exists_comparison qs (by omega)
  by_cases htarget : ((qs.filter fun q => (comparison? q).isNone).findIdx? admitsPushdown).isSome
  · -- the operand that conditions can run below is the only one
    obtain ⟨i, hi⟩ := Option.isSome_iff_exists.1 htarget
    obtain ⟨hlt, hadmits, -⟩ := List.findIdx?_eq_some_iff_getElem.1 hi
    obtain ⟨p, hothers⟩ := List.length_eq_one_iff.1
      (show (qs.filter fun q => (comparison? q).isNone).length = 1 by omega)
    simp only [hothers, List.getElem_singleton] at hadmits
    by_cases hall : ∀ c ∈ qs.filterMap comparison?,
        selectivity s c < config.compiler.pushdownSelectivity
    · cases p with
      | similar t distance topK targetType =>
          cases topK with
          | none => exact unrelating_conjunction_search hothers (List.ne_nil_of_mem hc) hall
          | some k => cases hadmits
      | relation l name r =>
          simp only [Query.relatesAtRoot, Query.arrow?, hothers, List.all_eq_false,
            decide_eq_true_eq] at hno
          obtain ⟨c, hc, hlt⟩ := hno
          exact absurd (hall c hc) hlt
      | _ => cases hadmits
    · simp only [not_forall] at hall
      obtain ⟨c, hc, hlt⟩ := hall
      exact unrelating_conjunction_joins (.inl ⟨c, hc, fun h => hlt h.2⟩)
  · exact unrelating_conjunction_joins (.inl ⟨c, hc, fun h => htarget h.1⟩)

end Lowering

namespace Query

variable {s : Snapshot} {config : EngineConfig} {q : Query} {f : Fragment} {d : Draft}

/-- A query that does not relate at its root has a plan that does not. -/
theorem unrelating_root (hq : q.Printable)
    (hno : q.relatesAtRoot s config.compiler.pushdownSelectivity = false)
    (h : Lowering.lower s config [] q Lowering.start = .ok (f, d)) :
    ∃ op ∈ d.trail, op.output = f.var ∧ op.action.relates = false := by
  cases hq with
  | @lookup t name fuzzy ht =>
      rw [Lowering.lower] at h
      exact (Lowering.unrelating_lookup t name fuzzy).run_share h
  | @relation l r name hl hname hr => cases hno
  | not hq =>
      rw [Lowering.lower] at h
      exact (Lowering.unrelating_negation _).run_share h
  | @logical op qs hop hlength hqs =>
      cases op with
      | and =>
          rw [Lowering.lower] at h
          exact (Lowering.unrelating_conjunction hlength hno).run_share h
      | or =>
          rw [Lowering.lower] at h
          refine (Lowering.unrelating_disjunction fun d bs d' hbs => ?_).run_share h
          rw [Lowering.length_branches hbs]
          exact hlength
      | not => exact absurd rfl hop
  | @comparison c hc =>
      rw [Lowering.lower] at h
      exact (Lowering.unrelating_bareComparison c).run_share h
  | @similar target distance topK targetType ht hd hk =>
      rw [Lowering.lower] at h
      exact (Lowering.unrelating_similarity distance topK targetType [] _).run_share h
  | @analogy a b c targetType ha hb hc htype =>
      rw [Lowering.lower] at h
      exact (Lowering.unrelating_analogy targetType _ _ _).run_share h
  | @optimize direction o cs ho hterms hcs =>
      rw [Lowering.lower] at h
      exact (Lowering.unrelating_optimization direction o cs).run_share h

/-! ## Arrows at the root -/

theorem arrow?_cases {a : Arrow} (ha : q.arrow? = some a) :
    (q = .relation a.left a.relation a.right ∧ a.conditions = []) ∨
      ∃ qs, q = .logical .and qs ∧ a.conditions = qs.filterMap comparison? ∧
        qs.filter (fun q => (comparison? q).isNone) = [.relation a.left a.relation a.right] := by
  unfold arrow? at ha
  split at ha
  · cases ha
    exact .inl ⟨rfl, rfl⟩
  · rename_i qs
    split at ha
    · rename_i hothers
      cases ha
      exact .inr ⟨qs, rfl, rfl, hothers⟩
    · cases ha
  · cases ha

theorem printable_of_arrow? (hq : q.Printable) {a : Arrow} (ha : q.arrow? = some a) :
    a.left.Printable ∧ a.right.Printable := by
  have hrelation : (Query.relation a.left a.relation a.right).Printable := by
    rcases arrow?_cases ha with ⟨rfl, -⟩ | ⟨qs, rfl, -, hothers⟩
    · exact hq
    · have hmem := List.mem_of_mem_filter (hothers ▸ List.mem_singleton_self _)
      cases hq with
      | logical hop hlength hqs => exact hqs _ hmem
  cases hrelation with
  | relation hl hname hr => exact ⟨hl, hr⟩

/-- The plan of an arrow relates its sides below which all conditions on it run. -/
theorem run_arrow_root (hq : q.Printable) {a : Arrow} (ha : q.arrow? = some a)
    (hall : ∀ c ∈ a.conditions, selectivity s c < config.compiler.pushdownSelectivity)
    (h : Lowering.lower s config [] q Lowering.start = .ok (f, d)) :
    ∃ d₀ d₁, Lowering.Same Lowering.start d₀ ∧
      Lowering.arrow s config a.relation (bySelectivity s a.conditions)
        (Lowering.lower s config [] a.left) (Lowering.lower s config [] a.right) d₀ = .ok (f, d₁) ∧
      d.trail = d₁.trail := by
  rcases arrow?_cases ha with ⟨rfl, hconditions⟩ | ⟨qs, rfl, hconditions, hothers⟩
  · rw [Lowering.lower] at h
    obtain ⟨d₁, hrun, htrail⟩ := Lowering.run_of_share h
    rw [hconditions, Lowering.bySelectivity_nil]
    exact ⟨Lowering.start, d₁, ⟨rfl, rfl, rfl⟩, hrun, htrail⟩
  · rw [Lowering.lower] at h
    obtain ⟨d', hrun, htrail⟩ := Lowering.run_of_share h
    rw [hconditions] at hall ⊢
    obtain ⟨d₀, d₁, hsame, hlower, hsame'⟩ :=
      Lowering.run_conjunction_pushed hothers rfl hall hrun
    have hne : qs.filterMap comparison? ≠ [] := by
      cases hq with
      | logical hop hlength hqs =>
          obtain ⟨c, hc⟩ := Lowering.exists_comparison qs (by
            rw [hothers, List.length_singleton]
            omega)
          exact List.ne_nil_of_mem hc
    rw [Lowering.lower, Lowering.isEmpty_bySelectivity hne] at hlower
    exact ⟨d₀, d₁, hsame, hlower, htrail.trans hsame'.trail⟩

end Query

/-- The operation that binds what a query is lowered to is the one whose output is collected. -/
theorem Plan.operation?_root {s : Snapshot} {config : EngineConfig} {q : Query}
    {limit : Option Nat} {p : Plan} (hplan : Plan.ofQuery s config q limit = .ok p)
    {root : Fragment} {d : Draft}
    (hlower : Lowering.lower s config [] q Lowering.start = .ok (root, d)) {op : Operation}
    (hop : op ∈ d.trail) (hout : op.output = root.var) :
    ∃ o, p.root? >>= p.operation? = some o ∧ o.unmarked = op := by
  obtain ⟨o, ho, rfl⟩ := List.mem_map.1 hop
  have hnumbered := numbered_of_ofQuery hplan
  have hroot := root?_of_ofQuery hplan hlower
  rw [ofQuery_eq hlower] at hplan
  cases hplan
  refine ⟨o, ?_, rfl⟩
  rw [hroot, ← hout]
  exact operation?_of_mem hnumbered (List.mem_append_left _ ho)

/-! ## What is related at the root -/

/-- The relations that an arrow follows, and the entities on both sides. -/
structure Sides where
  bindings : List RelationBinding
  left : ScoredSet Single
  right : ScoredSet Single

/-- The sides of an arrow once all conditions on it are applied. -/
def Arrow.sides (x : Executor) (config : EngineConfig) (relate : Relating) (a : Arrow) :
    Sharing Sides := do
  let left ← evaluateShared x config relate a.left
  let right ← evaluateShared x config relate a.right
  let bindings ← planned (x.snapshot.bindings a.relation left.types right.types)
  pure ⟨bindings, (left.filterAll x (bySelectivity x.snapshot a.conditions)).set, right.set⟩

namespace Setting

variable {S : Setting} {a : Arrow} {b : Bindings} {d d' : Draft} {m : Memory} {f : Fragment}

/-- Lowering an arrow ends with an operation that relates its sides. -/
theorem relates_of_arrow (hfrom : S.fromRun) (hl : S.Simulates a.left) (hr : S.Simulates a.right)
    (hagrees : S.Agrees b d m)
    (hrun : Lowering.arrow S.x.snapshot S.lowered a.relation
      (bySelectivity S.x.snapshot a.conditions) (Lowering.lower S.x.snapshot S.lowered [] a.left)
      (Lowering.lower S.x.snapshot S.lowered [] a.right) d = .ok (f, d'))
    (hsolves : S.x.Solves b d'.trail) :
    ∃ sides m', a.sides S.x S.config S.relate m = .ok (sides, m') ∧
      ∃ op ∈ d'.trail, op.output = f.var ∧
        op.action = .relate sides.bindings S.config.executor.relationMinScore ∧
        Executor.input b.value? op 0 = .ok sides.left ∧
        Executor.input b.value? op 1 = .ok sides.right := by
  have hleft : S.Sim b
      (Lowering.branch (Lowering.lower S.x.snapshot S.lowered [] a.left >>= fun f =>
        Lowering.filterAll S.x.snapshot f (bySelectivity S.x.snapshot a.conditions)))
      (evaluateShared S.x S.config S.relate a.left) fun b' br v =>
        Stands b' br.fragment (v.filterAll S.x (bySelectivity S.x.snapshot a.conditions)) :=
    .branch (.finish (hl.plain b) fun _ _ _ _ hf =>
      .replace (.filterAll hf.toStands _) fun _ _ h => h)
  have hright := Sim.branch (hr.plain b)
  obtain ⟨l, d₁, hrunl, hrun⟩ := run_of_bind hrun
  obtain ⟨r, d₂, hrunr, hrun⟩ := run_of_bind hrun
  obtain ⟨_, d₃, hrun, hsame⟩ := Lowering.Same.of_silent hrun
  obtain ⟨bindings, hbindings, hrun⟩ := run_of_lift_bind hrun
  rw [bind_run (Lowering.run_emit ..)] at hrun
  cases hrun
  rw [Lowering.trail_add, hsame.trail] at hsolves ⊢
  -- both sides were bound before
  have hsolves₂ : S.x.Solves b d₂.trail := hsolves.of_isPrefix (List.prefix_append _ _)
  have hsolves₁ := hsolves₂.of_isPrefix (Extending.extends_run d₁ r d₂ hrunr).1
  obtain ⟨v, m₁, hv, hagrees₁, hlv⟩ :=
    hleft.forward hfrom b (.refl b) d m l d₁ hagrees hrunl hsolves₁
  obtain ⟨w, m₂, hw, -, hrw⟩ :=
    hright.forward hfrom b (.refl b) d₁ m₁ r d₂ hagrees₁ hrunr hsolves₂
  have htypes := hlv.types
  rw [Meaning.types_filterAll] at htypes
  rw [htypes, hrw.types] at hbindings
  refine ⟨⟨bindings, _, w.set⟩, m₂, ?_, _,
    List.mem_append_right _ (List.mem_singleton_self _), rfl, rfl,
    Executor.input_eq rfl hlv.value, Executor.input_eq rfl hrw.value⟩
  unfold Arrow.sides
  rw [bind_run hv, bind_run hw, hbindings]
  rfl

end Setting

end VectorQuery
