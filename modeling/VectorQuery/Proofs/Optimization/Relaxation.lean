/-
# Relaxed budgets

An optimization considers the entities that carry the numbers it reads and satisfy its filters, all
that carry the numbers if none of these satisfies the filters.  Budgets that the candidates do not
fit are raised in two stages: each to the least weight in its field, and then all of them together to
the weights of one candidate.

This holds in every arithmetic in which budgets can be raised to the weights of the candidates
(`Budget.Regular`): relaxed budgets allow whatever the budgets asked for allow, and some candidate
fits all of them (`Optimization.relaxed_spec`).
-/
import Mathlib.Data.List.Forall2
import VectorQuery.Proofs.Optimization.Selection

namespace VectorQuery

variable {α : Type} [Quantity α] {budgets : List (Budget α)}

/-! ## Candidates of a request -/

theorem map_of_mapM {β γ : Type} {f : β → Option γ} {as : List β} {bs : List γ}
    (h : as.mapM f = some bs) : as.map f = bs.map some := by
  induction as generalizing bs with
  | nil =>
      rw [List.mapM_nil] at h
      cases h
      rfl
  | cons a as ih =>
      rw [List.mapM_cons] at h
      obtain ⟨b, hb, h⟩ := Option.bind_eq_some_iff.1 h
      obtain ⟨bs', hbs', h⟩ := Option.bind_eq_some_iff.1 h
      cases h
      rw [List.map_cons, List.map_cons, hb, ih hbs']

theorem exists_mapM_iff {β γ : Type} {f : β → Option γ} {as : List β} :
    (∃ bs, as.mapM f = some bs) ↔ ∀ a ∈ as, ∃ b, f a = some b := by
  constructor
  · rintro ⟨bs, hbs⟩ a ha
    have hmem : f a ∈ bs.map some := map_of_mapM hbs ▸ List.mem_map_of_mem ha
    obtain ⟨b, -, hb⟩ := List.mem_map.1 hmem
    exact ⟨b, hb.symm⟩
  · intro h
    induction as with
    | nil => exact ⟨[], List.mapM_nil⟩
    | cons a as ih =>
        obtain ⟨b, hb⟩ := h a List.mem_cons_self
        obtain ⟨bs, hbs⟩ := ih fun a ha => h a (List.mem_cons_of_mem _ ha)
        exact ⟨b :: bs, by rw [List.mapM_cons, hb, hbs]; rfl⟩

theorem Objective.exists_value?_iff (o : Objective α) (e : Entity α) :
    (∃ x, o.value? e = some x) ↔ ∀ t ∈ o.terms, ∃ x, e.number? t.field = some x := by
  unfold value?
  generalize (Quantity.zero : α) = start
  induction o.terms generalizing start with
  | nil => exact iff_of_true ⟨start, rfl⟩ nofun
  | cons t terms ih =>
      rw [List.foldlM_cons, List.forall_mem_cons]
      cases hnumber : e.number? t.field with
      | none =>
          refine iff_of_false ?_ ?_
          · rintro ⟨x, hx⟩
            cases hx
          · rintro ⟨⟨x, hx⟩, -⟩
            cases hx
      | some x => exact (ih _).trans (and_iff_right ⟨x, rfl⟩).symm

/-- The number of an entity in a field, or zero. -/
def Entity.numberOf (e : Entity α) (field : String) : α := (e.number? field).getD Quantity.zero

/-- The value of an objective is added up term by term. -/
theorem Objective.value?_eq_foldl {o : Objective α} {e : Entity α} {x : α}
    (h : o.value? e = some x) :
    x = o.terms.foldl (fun sum t => sum + t.weight * e.numberOf t.field) Quantity.zero := by
  unfold value? at h
  generalize (Quantity.zero : α) = start at *
  generalize o.terms = terms at *
  induction terms generalizing start with
  | nil => exact (Option.some.inj h).symm
  | cons t terms ih =>
      rw [List.foldlM_cons] at h
      obtain ⟨next, hnext, h⟩ := Option.bind_eq_some_iff.1 h
      obtain ⟨y, hy, rfl⟩ := Option.map_eq_some_iff.1 hnext
      have hnumber : e.numberOf t.field = y := by
        unfold Entity.numberOf
        rw [hy]
        rfl
      rw [List.foldl_cons, hnumber]
      exact ih _ h

/-- Each budget allows the number of the entity in its field. -/
def Entity.Fits (e : Entity α) (budgets : List (Budget α)) : Prop :=
  ∀ b ∈ budgets, ∃ x, e.number? b.field = some x ∧ b.admits x = true

namespace OptimizationRequest

variable {r : OptimizationRequest α} {ordinal : Nat} {e : Entity α} {c : Candidate α}

/-- The entity carries a number in each field of the objective and of the budgets. -/
def CarriedBy (r : OptimizationRequest α) (e : Entity α) : Prop :=
  (∀ t ∈ r.objective.terms, ∃ x, e.number? t.field = some x) ∧
    ∀ b ∈ r.budgets, ∃ x, e.number? b.field = some x

theorem exists_candidate?_iff : (∃ c, r.candidate? ordinal e = some c) ↔ r.CarriedBy e := by
  unfold CarriedBy
  rw [← r.objective.exists_value?_iff, ← exists_mapM_iff]
  constructor
  · rintro ⟨c, h⟩
    obtain ⟨raw, hraw, h⟩ := Option.bind_eq_some_iff.1 h
    obtain ⟨weights, hweights, -⟩ := Option.bind_eq_some_iff.1 h
    exact ⟨⟨raw, hraw⟩, weights, hweights⟩
  · rintro ⟨⟨raw, hraw⟩, weights, hweights⟩
    refine ⟨⟨ordinal, e, raw, r.direction.orient raw, weights⟩, ?_⟩
    unfold candidate?
    rw [hraw, hweights]
    rfl

/-- The weights of a candidate are the numbers of its entity in the fields of the budgets. -/
theorem numbers_of_candidate? (h : r.candidate? ordinal e = some c) :
    r.budgets.map (fun b => c.entity.number? b.field) = c.weights.map some := by
  obtain ⟨raw, -, h⟩ := Option.bind_eq_some_iff.1 h
  obtain ⟨weights, hweights, h⟩ := Option.bind_eq_some_iff.1 h
  cases h
  exact map_of_mapM hweights

end OptimizationRequest

/-! ## Budgets that are raised -/

namespace Budget

/-- A budget of the same field that allows whatever another one does. -/
structure Loosens (b b' : Budget α) : Prop where
  field_eq : b'.field = b.field
  admits : ∀ x, b.admits x = true → b'.admits x = true

theorem Loosens.refl (b : Budget α) : b.Loosens b := ⟨rfl, fun _ h => h⟩

theorem Loosens.trans {b b' b'' : Budget α} (h : b.Loosens b') (h' : b'.Loosens b'') :
    b.Loosens b'' :=
  ⟨h'.field_eq.trans h.field_eq, fun x hx => h'.admits x (h.admits x hx)⟩

theorem loosens_trans {bs bs' bs'' : List (Budget α)} (h : List.Forall₂ Loosens bs bs')
    (h' : List.Forall₂ Loosens bs' bs'') : List.Forall₂ Loosens bs bs'' := by
  induction h generalizing bs'' with
  | nil =>
      cases h'
      exact .nil
  | cons hb _ ih =>
      cases h' with
      | cons hb' h' => exact .cons (hb.trans hb') (ih h')

theorem fields_of_loosens {bs bs' : List (Budget α)} (h : List.Forall₂ Loosens bs bs') :
    bs'.map field = bs.map field := by
  induction h with
  | nil => rfl
  | cons hb _ ih => rw [List.map_cons, List.map_cons, hb.field_eq, ih]

/-- Budgets raised to the weight allow it and whatever they allowed, and it counts as much on top of
nothing as alone. -/
structure Regular (w : α) : Prop where
  admits_zero_add : ∀ b : Budget α, b.admits (Quantity.zero + w) = b.admits w
  raise_admits : ∀ b : Budget α, (Optimization.raise b w).admits w = true
  raise_loosens : ∀ b : Budget α, b.admits w = false → b.Loosens (Optimization.raise b w)

end Budget

open Budget

namespace Candidate

variable {c : Candidate α}

theorem fitsAlone_iff (hregular : ∀ w ∈ c.weights, Regular w) : c.fitsAlone budgets = true ↔
    ∀ e ∈ budgets.zip c.weights, e.1.admits e.2 = true := by
  unfold fitsAlone fits Budget.fits Budget.unused
  generalize c.weights = weights at hregular
  induction budgets generalizing weights with
  | nil => exact iff_of_true rfl nofun
  | cons b budgets ih =>
      cases weights with
      | nil => exact iff_of_true rfl nofun
      | cons w weights =>
          have hw : Regular w := hregular w List.mem_cons_self
          rw [List.map_cons, List.zip_cons_cons, List.zip_cons_cons, List.zip_cons_cons,
            List.all_cons, Bool.and_eq_true, List.forall_mem_cons]
          exact and_congr (iff_of_eq (congrArg (· = true) (hw.admits_zero_add b)))
            (ih weights fun w hw => hregular w (List.mem_cons_of_mem _ hw))

/-- A candidate fits budgets if each allows the number of its entity. -/
theorem fits_iff (hnumbers : budgets.map (fun b => c.entity.number? b.field) = c.weights.map some)
    (hregular : ∀ w ∈ c.weights, Regular w) :
    c.fitsAlone budgets = true ↔ c.entity.Fits budgets := by
  rw [fitsAlone_iff hregular]
  unfold Entity.Fits
  generalize c.weights = weights at hnumbers
  induction budgets generalizing weights with
  | nil => exact iff_of_true nofun nofun
  | cons b budgets ih =>
      cases weights with
      | nil => cases hnumbers
      | cons w weights =>
          rw [List.map_cons, List.map_cons, List.cons.injEq] at hnumbers
          rw [List.zip_cons_cons, List.forall_mem_cons, List.forall_mem_cons, hnumbers.1]
          refine and_congr ?_ (ih weights hnumbers.2)
          simp

theorem length_used (budgets : List (Budget α)) (cs : List (Candidate α)) :
    (used budgets cs).length = budgets.length := by
  rw [used, List.length_map, List.length_range]

end Candidate

open Candidate

namespace Optimization

variable {warn : Budget α → α → OptimizationWarning α} {cs : List (Candidate α)} {b : Budget α}
  {w : α}

theorem allow_of_nil (h : (allow warn b w).2 = []) :
    b.admits w = true ∧ (allow warn b w).1 = b := by
  unfold allow at *
  split at h
  · rename_i hadmits
    rw [if_pos hadmits]
    exact ⟨hadmits, rfl⟩
  · cases h

theorem allow_of_admits (h : b.admits w = true) : allow warn b w = (b, []) := if_pos h

theorem allow_spec (warn : Budget α → α → OptimizationWarning α) (b : Budget α) (hw : Regular w) :
    b.Loosens (allow warn b w).1 ∧ (allow warn b w).1.admits w = true := by
  unfold allow
  split
  · rename_i hadmits
    exact ⟨.refl b, hadmits⟩
  · rename_i hadmits
    exact ⟨hw.raise_loosens b (eq_false_of_ne_true hadmits), hw.raise_admits b⟩

/-! ### Each budget -/

/-- The least weight in the field of a budget. -/
def leastWeight (cs : List (Candidate α)) (j : Nat) : α := least (cs.filterMap (·.weights[j]?))

theorem relaxEach_eq (cs : List (Candidate α)) (budgets : List (Budget α)) : relaxEach cs budgets =
    budgets.zipIdx.map fun (b, j) => allow .tight b (leastWeight cs j) := rfl

/-- Budgets that each allow the least weight stay as they are. -/
theorem relaxEach_of_nil (h : (relaxEach cs budgets).flatMap (·.2) = []) :
    (relaxEach cs budgets).map (·.1) = budgets := by
  have hnil := List.flatMap_eq_nil_iff.1 h
  have hkept : (relaxEach cs budgets).map (·.1) = budgets.zipIdx.map (·.1) := by
    rw [relaxEach_eq, List.map_map] at *
    refine List.map_congr_left fun e he => ?_
    exact (allow_of_nil (hnil _ (List.mem_map_of_mem he))).2
  rw [hkept, List.zipIdx_map_fst]

/-- Nothing is said where each budget allows the least weight. -/
theorem relaxEach_of_admits (h : ∀ (j : Nat) (b : Budget α), budgets[j]? = some b →
    b.admits (leastWeight cs j) = true) : (relaxEach cs budgets).flatMap (·.2) = [] := by
  refine List.flatMap_eq_nil_iff.2 (List.forall_mem_map.2 fun e he => ?_)
  obtain ⟨b, j⟩ := e
  exact congrArg (·.2) (allow_of_admits (h j b (List.mem_zipIdx_iff_getElem?.1 he)))

theorem relaxEach_loosens (h : ∀ j < budgets.length, Regular (leastWeight cs j)) :
    List.Forall₂ Loosens budgets ((relaxEach cs budgets).map (·.1)) := by
  have hfrom : ∀ k, (∀ j, k ≤ j → j < k + budgets.length → Regular (leastWeight cs j)) →
      List.Forall₂ Loosens budgets
        (((budgets.zipIdx k).map fun (b, j) => allow .tight b (leastWeight cs j)).map (·.1)) := by
    clear h
    induction budgets with
    | nil => exact fun k _ => .nil
    | cons b budgets ih =>
        intro k h
        rw [List.length_cons] at h
        exact .cons (allow_spec _ b (h k (Nat.le_refl k) (by omega))).1
          (ih (k + 1) fun j hk hj => h j (by omega) (by omega))
  exact hfrom 0 fun j _ hj => h j (by omega)

/-! ### All budgets -/

/-- One that is picked again and again is one of those picked from. -/
theorem foldl_mem_cons {β : Type} {pick : β → β → β} (h : ∀ a b, pick a b = a ∨ pick a b = b)
    (a : β) (l : List β) : l.foldl pick a ∈ a :: l := by
  induction l generalizing a with
  | nil => exact List.mem_cons_self
  | cons b l ih =>
      rw [List.foldl_cons]
      rcases List.mem_cons.1 (ih (pick a b)) with heq | hmem
      · rw [heq]
        rcases h a b with hab | hab
        · rw [hab]
          exact List.mem_cons_self
        · rw [hab]
          exact List.mem_cons_of_mem _ List.mem_cons_self
      · exact List.mem_cons_of_mem _ (List.mem_cons_of_mem _ hmem)

theorem mem_of_lightest? {c : Candidate α} (h : lightest? budgets cs = some c) : c ∈ cs := by
  cases cs with
  | nil => cases h
  | cons a cs =>
      cases h
      refine foldl_mem_cons (fun a b => ?_) a cs
      split
      · exact .inl rfl
      · split
        · exact .inl rfl
        · exact .inr rfl
      · exact .inr rfl

theorem exists_lightest (budgets : List (Budget α)) (hcs : cs ≠ []) :
    ∃ c, lightest? budgets cs = some c ∧ c ∈ cs := by
  cases hlightest : lightest? budgets cs with
  | some c => exact ⟨c, rfl, mem_of_lightest? hlightest⟩
  | none =>
      cases cs with
      | nil => exact absurd rfl hcs
      | cons c cs => cases hlightest

theorem relaxAll_of_any (h : cs.any (·.fitsAlone budgets) = true) :
    relaxAll cs budgets = budgets.map (·, []) := if_pos h

theorem relaxAll_of_not_any (h : ¬ cs.any (·.fitsAlone budgets) = true) (hcs : cs ≠ []) :
    ∃ c ∈ cs, relaxAll cs budgets = List.zipWith (allow .conflict) budgets c.weights := by
  obtain ⟨c, hlightest, hc⟩ := exists_lightest budgets hcs
  refine ⟨c, hc, ?_⟩
  unfold relaxAll
  rw [if_neg h]
  simp only [hlightest]

/-- Budgets that stay as they are leave a candidate that fits all of them. -/
theorem relaxAll_of_nil (hcs : cs ≠ []) (hregular : ∀ c ∈ cs, ∀ w ∈ c.weights, Regular w)
    (h : (relaxAll cs budgets).flatMap (·.2) = []) :
    (relaxAll cs budgets).map (·.1) = budgets ∧ cs.any (·.fitsAlone budgets) = true := by
  have hany : cs.any (·.fitsAlone budgets) = true := by
    refine Decidable.byContradiction fun hany => hany ?_
    obtain ⟨c, hc, hrelax⟩ := relaxAll_of_not_any hany hcs
    refine List.any_eq_true.2 ⟨c, hc, (fitsAlone_iff (hregular c hc)).2 fun e he => ?_⟩
    rw [hrelax, ← List.map_uncurry_zip_eq_zipWith] at h
    exact (allow_of_nil (List.flatMap_eq_nil_iff.1 h _ (List.mem_map_of_mem he))).1
  refine ⟨?_, hany⟩
  rw [relaxAll_of_any hany, List.map_map]
  exact List.map_id _

theorem zipWith_allow_spec (warn : Budget α → α → OptimizationWarning α) {weights : List α}
    (hregular : ∀ w ∈ weights, Regular w)
    (hlength : weights.length = budgets.length) :
    List.Forall₂ Loosens budgets ((List.zipWith (allow warn) budgets weights).map (·.1)) ∧
      ∀ e ∈ ((List.zipWith (allow warn) budgets weights).map (·.1)).zip weights,
        e.1.admits e.2 = true := by
  induction budgets generalizing weights with
  | nil => exact ⟨.nil, nofun⟩
  | cons b budgets ih =>
      cases weights with
      | nil => cases hlength
      | cons w weights =>
          obtain ⟨hloosens, hadmits⟩ := allow_spec warn b (hregular w List.mem_cons_self)
          obtain ⟨hrest, hall⟩ := ih (fun w hw => hregular w (List.mem_cons_of_mem _ hw))
            (Nat.succ.inj hlength)
          exact ⟨.cons hloosens hrest, List.forall_mem_cons.2 ⟨hadmits, hall⟩⟩

theorem relaxAll_spec (budgets : List (Budget α)) (hcs : cs ≠ [])
    (hregular : ∀ c ∈ cs, ∀ w ∈ c.weights, Regular w)
    (hlength : ∀ c ∈ cs, c.weights.length = budgets.length) :
    List.Forall₂ Loosens budgets ((relaxAll cs budgets).map (·.1)) ∧
      ∃ c ∈ cs, c.fitsAlone ((relaxAll cs budgets).map (·.1)) = true := by
  by_cases hany : cs.any (·.fitsAlone budgets) = true
  · have hkept : (relaxAll cs budgets).map (·.1) = budgets := by
      rw [relaxAll_of_any hany, List.map_map]
      exact List.map_id _
    rw [hkept]
    exact ⟨List.forall₂_same.2 fun b _ => .refl b, List.any_eq_true.1 hany⟩
  · obtain ⟨c, hc, hrelax⟩ := relaxAll_of_not_any hany hcs
    obtain ⟨hloosens, hadmits⟩ := zipWith_allow_spec .conflict (hregular c hc) (hlength c hc)
    rw [hrelax]
    exact ⟨hloosens, c, hc, (fitsAlone_iff (hregular c hc)).2 hadmits⟩

/-! ### The answer -/

variable {r : OptimizationRequest α} {all : List (Candidate α)} {exactThreshold maxAlternatives : Nat}

/-- The candidates that satisfy the filters, or all if none does. -/
def considerable (r : OptimizationRequest α) (all : List (Candidate α)) : List (Candidate α) :=
  let passing := all.filter fun c => r.passes c.entity
  if passing.isEmpty then all else passing

/-- A warning for each filter if no candidate satisfies all of them. -/
def dropped (r : OptimizationRequest α) (all : List (Candidate α)) :
    List (OptimizationWarning α) :=
  if (all.filter fun c => r.passes c.entity).isEmpty then r.filters.map .filter else []

/-- The budgets of a request, each raised to the least weight. -/
def raised (r : OptimizationRequest α) (cs : List (Candidate α)) : List (Budget α) :=
  (relaxEach cs r.budgets).map (·.1)

/-- The budgets of a request, raised until a candidate fits all of them. -/
def relaxed (r : OptimizationRequest α) (cs : List (Candidate α)) : List (Budget α) :=
  (relaxAll cs (raised r cs)).map (·.1)

theorem considered_eq : (ofCandidates exactThreshold maxAlternatives r all).considered =
    considerable r all := by
  unfold ofCandidates considerable
  dsimp only
  split <;> rfl

theorem warnings_eq : (ofCandidates exactThreshold maxAlternatives r all).warnings =
    dropped r all ++ (relaxEach (considerable r all) r.budgets).flatMap (·.2) ++
      (relaxAll (considerable r all) (raised r (considerable r all))).flatMap (·.2) := by
  unfold ofCandidates considerable dropped
  dsimp only
  split <;> rfl

theorem select_eq (exactThreshold maxAlternatives : Nat) (r : OptimizationRequest α)
    (all : List (Candidate α)) : (ofCandidates exactThreshold maxAlternatives r all).selected =
      ranked (select exactThreshold (relaxed r (considerable r all)) (considerable r all)).1 ∧
    (ofCandidates exactThreshold maxAlternatives r all).solver =
      (select exactThreshold (relaxed r (considerable r all)) (considerable r all)).2 := by
  unfold ofCandidates considerable
  dsimp only
  split <;> exact ⟨rfl, rfl⟩

theorem alternatives_eq : (ofCandidates exactThreshold maxAlternatives r all).alternatives =
    if (ofCandidates exactThreshold maxAlternatives r all).feasible then
      Alternative.list maxAlternatives (relaxed r (considerable r all))
        (select exactThreshold (relaxed r (considerable r all)) (considerable r all)).1
        (considerable r all)
    else [] := by
  unfold feasible ofCandidates considerable
  dsimp only
  split <;> rfl

theorem budgets_eq : (ofCandidates exactThreshold maxAlternatives r all).usage.map (·.1) =
    relaxed r (considerable r all) := by
  unfold ofCandidates considerable
  dsimp only
  split <;> exact List.map_fst_zip (Nat.le_of_eq (length_used _ _).symm)

/-- Either no candidate satisfies the filters, and these are dropped, or those that do are
considered. -/
theorem considerable_cases (r : OptimizationRequest α) (all : List (Candidate α)) :
    (all.filter fun c => r.passes c.entity) = [] ∧ considerable r all = all ∧
        dropped r all = r.filters.map .filter ∨
      considerable r all ≠ [] ∧ (considerable r all = all.filter fun c => r.passes c.entity) ∧
        dropped r all = [] := by
  unfold considerable dropped
  dsimp only
  split
  · rename_i hnone
    exact .inl ⟨List.isEmpty_iff.1 hnone, rfl, rfl⟩
  · rename_i hsome
    exact .inr ⟨mt List.isEmpty_iff.2 hsome, rfl, rfl⟩

theorem considerable_sublist : (considerable r all).Sublist all := by
  rcases considerable_cases r all with ⟨-, hall, -⟩ | ⟨-, hpassing, -⟩
  · rw [hall]
  · rw [hpassing]
    exact List.filter_sublist

theorem considerable_subset : considerable r all ⊆ all := considerable_sublist.subset

theorem mem_considerable {c : Candidate α} (hc : c ∈ all) (hpasses : r.passes c.entity = true) :
    c ∈ considerable r all := by
  rcases considerable_cases r all with ⟨-, hall, -⟩ | ⟨-, hpassing, -⟩
  · rwa [hall]
  · rw [hpassing]
    exact List.mem_filter.2 ⟨hc, hpasses⟩

theorem considerable_ne_nil (hall : all ≠ []) : considerable r all ≠ [] := by
  rcases considerable_cases r all with ⟨-, heq, -⟩ | ⟨hne, -⟩
  · rwa [heq]
  · exact hne

/-- No filter is dropped exactly if some candidate satisfies all of them; then the candidates
considered are those that do. -/
theorem dropped_eq_nil_iff (hall : all ≠ []) : dropped r all = [] ↔
    considerable r all ≠ [] ∧ considerable r all = all.filter fun c => r.passes c.entity := by
  rcases considerable_cases r all with ⟨hnone, -, hdropped⟩ | ⟨hne, hpassing, hdropped⟩
  · rw [hnone, hdropped]
    refine iff_of_false (fun hfilters => hall ?_) fun h => h.1 h.2
    -- without filters every candidate would satisfy them
    have hpasses : ∀ c ∈ all, r.passes c.entity = true := by
      intro c _
      unfold OptimizationRequest.passes
      rw [List.map_eq_nil_iff.1 hfilters]
      rfl
    rw [← List.filter_eq_self.2 hpasses, hnone]
  · exact iff_of_true hdropped ⟨hne, hpassing⟩

theorem feasible_iff_of_candidates : (ofCandidates exactThreshold maxAlternatives r all).feasible = true ↔
    dropped r all = [] ∧ (relaxEach (considerable r all) r.budgets).flatMap (·.2) = [] ∧
      (relaxAll (considerable r all) (raised r (considerable r all))).flatMap (·.2) = [] := by
  unfold feasible
  rw [List.isEmpty_iff, warnings_eq, List.append_eq_nil_iff, List.append_eq_nil_iff, and_assoc]

/-- A request that is met as it is keeps its budgets, and some candidate that satisfies its filters
fits all of them. -/
theorem kept_of_feasible (hall : all ≠ []) (hregular : ∀ c ∈ all, ∀ w ∈ c.weights, Regular w)
    (h : (ofCandidates exactThreshold maxAlternatives r all).feasible = true) :
    relaxed r (considerable r all) = r.budgets ∧
      (∀ c ∈ considerable r all, r.passes c.entity = true) ∧
      (considerable r all).any (·.fitsAlone r.budgets) = true := by
  obtain ⟨hdropped, heach, htogether⟩ := feasible_iff_of_candidates.1 h
  have hraised : raised r (considerable r all) = r.budgets := relaxEach_of_nil heach
  obtain ⟨hne, hpassing⟩ := (dropped_eq_nil_iff hall).1 hdropped
  rw [hraised] at htogether
  obtain ⟨hkept, hany⟩ := relaxAll_of_nil hne
    (fun c hc => hregular c (considerable_subset hc)) htogether
  refine ⟨?_, fun c hc => ?_, hany⟩
  · unfold relaxed
    rwa [hraised]
  · rw [hpassing] at hc
    exact (List.mem_filter.1 hc).2

/-- Where a candidate satisfies the filters and fits the budgets, and each budget allows the least
weight, the request is met as it is. -/
theorem feasible_of_fits {c : Candidate α} (hc : c ∈ all) (hpasses : r.passes c.entity = true)
    (hfits : c.fitsAlone r.budgets = true)
    (hleast : ∀ (j : Nat) (b : Budget α), r.budgets[j]? = some b →
      b.admits (leastWeight (considerable r all) j) = true) :
    (ofCandidates exactThreshold maxAlternatives r all).feasible = true := by
  have hdropped : dropped r all = [] := by
    rcases considerable_cases r all with ⟨hnone, -⟩ | ⟨-, -, hdropped⟩
    · exact absurd hnone (List.ne_nil_of_mem (List.mem_filter.2 ⟨hc, hpasses⟩))
    · exact hdropped
  have heach : (relaxEach (considerable r all) r.budgets).flatMap (·.2) = [] :=
    relaxEach_of_admits hleast
  have hany : (considerable r all).any (·.fitsAlone r.budgets) = true :=
    List.any_eq_true.2 ⟨c, mem_considerable hc hpasses, hfits⟩
  refine feasible_iff_of_candidates.2 ⟨hdropped, heach, ?_⟩
  unfold raised
  rw [relaxEach_of_nil heach, relaxAll_of_any hany, List.flatMap_map]
  exact List.flatMap_eq_nil_iff.2 fun _ _ => rfl

/-- Relaxed budgets allow whatever the budgets asked for allow, and some candidate fits all of
them. -/
theorem relaxed_spec {cs : List (Candidate α)} (hcs : cs ≠ [])
    (hregular : ∀ c ∈ cs, ∀ w ∈ c.weights, Regular w)
    (hleast : ∀ j < r.budgets.length, Regular (leastWeight cs j))
    (hlength : ∀ c ∈ cs, c.weights.length = r.budgets.length) :
    List.Forall₂ Loosens r.budgets (relaxed r cs) ∧ ∃ c ∈ cs, c.fitsAlone (relaxed r cs) = true := by
  have hraised : List.Forall₂ Loosens r.budgets (raised r cs) := relaxEach_loosens hleast
  obtain ⟨hrelaxed, hfits⟩ := relaxAll_spec (raised r cs) hcs hregular
    fun c hc => (hlength c hc).trans hraised.length_eq
  exact ⟨loosens_trans hraised hrelaxed, hfits⟩

end Optimization

end VectorQuery
