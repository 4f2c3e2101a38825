/-
# What the statistics of a field say

Statistics are gathered value by value, in whatever order the values come, and past a limit no more
values are remembered.  Which ones are remembered depends on the order; all that is said of the
values does not: how many they are, how many of them are numbers, the extremes of the numbers, and how
many different values there are up to the limit (`FieldStats.agree_of_perm`).

An estimate is computed from nothing else.  Over exact numbers it is a part of one, and over checked
numbers it is the same part, so it never divides by zero (`FieldStats.selectivity_checked`).
-/
import VectorQuery.Entity.FieldStats
import VectorQuery.Proofs.Number.Checked
import VectorQuery.Proofs.Number.Value
import VectorQuery.Proofs.Number.Zero
import VectorQuery.Proofs.ScoredSet

namespace VectorQuery

/-- The scalar with its number, if it is one, replaced. -/
def Scalar.map {α β : Type} (f : α → β) : Scalar α → Scalar β
  | .bool b => .bool b
  | .number x => .number (f x)
  | .text s => .text s

namespace OrderedMap

variable {κ β : Type} [Ord κ] [Std.TransOrd κ] [Std.LawfulEqOrd κ]

theorem mem_keys_insert (m : OrderedMap κ β) (k j : κ) (v : β) :
    j ∈ (m.insert k v).keys ↔ j = k ∨ j ∈ m.keys := by
  rw [mem_keys_iff_contains, mem_keys_iff_contains, contains, get?_insert]
  by_cases hkey : compare j k = .eq
  · rw [if_pos hkey]
    exact iff_of_true rfl (.inl (Std.LawfulEqOrd.eq_of_compare hkey))
  · rw [if_neg hkey, or_iff_right]
    · rfl
    · rintro rfl
      exact hkey Std.ReflOrd.compare_self

omit [Std.TransOrd κ] in
theorem size_eq_card [DecidableEq κ] (m : OrderedMap κ β) : m.size = m.keys.toFinset.card := by
  rw [List.toFinset_card_of_nodup m.nodup_keys, keys, List.length_map, size]

theorem size_insert_le [DecidableEq κ] (m : OrderedMap κ β) (k : κ) (v : β) :
    (m.insert k v).size ≤ m.size + 1 := by
  rw [size_eq_card, size_eq_card]
  refine le_trans (Finset.card_le_card fun j hj => ?_) (Finset.card_insert_le k _)
  rw [List.mem_toFinset, mem_keys_insert] at hj
  rw [Finset.mem_insert, List.mem_toFinset]
  exact hj

end OrderedMap

namespace FieldStats

variable {α β : Type}

/-- The numbers among some values. -/
def numbers (vs : List (Scalar α)) : List α := vs.filterMap (·.number?)

theorem numbers_concat (vs : List (Scalar α)) (v : Scalar α) :
    numbers (vs ++ [v]) = numbers vs ++ v.number?.toList := by
  simp only [numbers, List.filterMap_eq_flatMap_toList, List.flatMap_append, List.flatMap_singleton]

/-- The statistics with their numbers replaced. -/
def map (f : α → β) (s : FieldStats α) : FieldStats β :=
  ⟨s.count, s.numeric, s.least.map f, s.greatest.map f, s.seen⟩

/-- Both statistics say the same, whichever values they remember. -/
structure Agree (s t : FieldStats α) : Prop where
  count : s.count = t.count
  numeric : s.numeric = t.numeric
  least : s.least = t.least
  greatest : s.greatest = t.greatest
  distinct : s.distinct = t.distinct

section

variable [Quantity α] {s t : FieldStats α} {vs ws : List (Scalar α)} {v w : Scalar α}

/-- The statistics of values in the order in which they come. -/
def ofValues (vs : List (Scalar α)) : FieldStats α := vs.foldl observe empty

theorem ofValues_concat (vs : List (Scalar α)) (v : Scalar α) :
    ofValues (vs ++ [v]) = (ofValues vs).observe v := List.foldl_concat ..

/-! ## Counts -/

theorem count_observe (s : FieldStats α) (v : Scalar α) : (s.observe v).count = s.count + 1 := by
  unfold observe
  cases v.number? <;> rfl

theorem numeric_observe (s : FieldStats α) (v : Scalar α) :
    (s.observe v).numeric = s.numeric + v.number?.toList.length := by
  unfold observe
  cases v.number? <;> rfl

theorem count_ofValues (vs : List (Scalar α)) : (ofValues vs).count = vs.length := by
  induction vs using List.reverseRecOn with
  | nil => rfl
  | append_singleton vs v ih => rw [ofValues_concat, count_observe, ih, List.length_append]; rfl

theorem numeric_ofValues (vs : List (Scalar α)) :
    (ofValues vs).numeric = (numbers vs).length := by
  induction vs using List.reverseRecOn with
  | nil => rfl
  | append_singleton vs v ih =>
      rw [ofValues_concat, numeric_observe, ih, numbers_concat, List.length_append]

/-! ## Different values -/

/-- What the label of a value tells: its kind and what it is shown as. -/
def face (v : Scalar α) : String × String := (v.kind, v.shown)

/-- Different kinds differ before the colon. -/
theorem label_eq_iff : label v = label w ↔ face v = face w := by
  have hlabel (u : Scalar α) : (label u).toList = u.kind.toList ++ ':' :: u.shown.toList := by
    rw [label, String.toList_append, String.toList_append, List.append_assoc]
    rfl
  rw [face, face, Prod.mk.injEq, ← String.toList_inj, hlabel, hlabel]
  cases v <;> cases w <;> simp [Scalar.kind, String.toList_inj]

theorem card_labels (vs : List (Scalar α)) :
    (vs.map label).toFinset.card = (vs.map face).toFinset.card := by
  have himage : (vs.map label).toFinset =
      (vs.map face).toFinset.image fun p => p.1 ++ ":" ++ p.2 := by
    ext k
    simp [label, face]
  rw [himage]
  refine Finset.card_image_of_injOn fun p hp q hq heq => ?_
  rw [Finset.mem_coe, List.mem_toFinset] at hp hq
  obtain ⟨v, -, rfl⟩ := List.mem_map.1 hp
  obtain ⟨w, -, rfl⟩ := List.mem_map.1 hq
  exact label_eq_iff.1 heq

/-- What is remembered has been seen, and all of it while there is room. -/
structure Remembers (s : FieldStats α) (vs : List (Scalar α)) : Prop where
  seen : ∀ k ∈ s.seen.keys, ∃ v ∈ vs, label v = k
  all : s.seen.size < distinctLimit → ∀ v ∈ vs, label v ∈ s.seen.keys
  size_le : s.seen.size ≤ distinctLimit

theorem seen_observe (s : FieldStats α) (v : Scalar α) : (s.observe v).seen =
    if s.seen.size < distinctLimit then s.seen.insert (label v) () else s.seen := by
  unfold observe
  cases v.number? <;> rfl

theorem Remembers.observe (h : s.Remembers vs) (v : Scalar α) :
    (s.observe v).Remembers (vs ++ [v]) := by
  by_cases hroom : s.seen.size < distinctLimit
  · have hseen : (s.observe v).seen = s.seen.insert (label v) () := by
      rw [seen_observe, if_pos hroom]
    refine ⟨fun k hk => ?_, fun _ u hu => ?_, ?_⟩
    · rw [hseen, OrderedMap.mem_keys_insert] at hk
      rcases hk with rfl | hk
      · exact ⟨v, List.mem_concat_self, rfl⟩
      · obtain ⟨u, hu, hlabel⟩ := h.seen k hk
        exact ⟨u, List.mem_append_left _ hu, hlabel⟩
    · rw [hseen, OrderedMap.mem_keys_insert]
      rcases List.mem_append.1 hu with hu | hu
      · exact .inr (h.all hroom u hu)
      · exact .inl (congrArg label (List.mem_singleton.1 hu))
    · rw [hseen]
      exact (OrderedMap.size_insert_le ..).trans hroom
  · have hseen : (s.observe v).seen = s.seen := by rw [seen_observe, if_neg hroom]
    refine ⟨fun k hk => ?_, fun hsize => ?_, ?_⟩
    · rw [hseen] at hk
      obtain ⟨u, hu, hlabel⟩ := h.seen k hk
      exact ⟨u, List.mem_append_left _ hu, hlabel⟩
    · rw [hseen] at hsize
      exact absurd hsize hroom
    · rw [hseen]
      exact h.size_le

theorem remembers_ofValues (vs : List (Scalar α)) : (ofValues vs).Remembers vs := by
  induction vs using List.reverseRecOn with
  | nil => exact ⟨nofun, nofun, Nat.zero_le _⟩
  | append_singleton vs v ih =>
      rw [ofValues_concat]
      exact ih.observe v

/-- How many values are told apart. -/
theorem distinct_ofValues (vs : List (Scalar α)) :
    (ofValues vs).distinct = min distinctLimit (vs.map face).toFinset.card := by
  have h := remembers_ofValues vs
  have hsubset : (ofValues vs).seen.keys.toFinset ⊆ (vs.map label).toFinset := by
    intro k hk
    obtain ⟨v, hv, rfl⟩ := h.seen k (List.mem_toFinset.1 hk)
    exact List.mem_toFinset.2 (List.mem_map_of_mem hv)
  rw [distinct, ← card_labels]
  rcases Nat.lt_or_eq_of_le h.size_le with hroom | hfull
  · have hall : (vs.map label).toFinset ⊆ (ofValues vs).seen.keys.toFinset := by
      intro k hk
      obtain ⟨v, hv, rfl⟩ := List.mem_map.1 (List.mem_toFinset.1 hk)
      exact List.mem_toFinset.2 (h.all hroom v hv)
    rw [← Finset.Subset.antisymm hsubset hall, ← OrderedMap.size_eq_card, Nat.min_eq_right h.size_le]
  · have hle := Finset.card_le_card hsubset
    rw [← OrderedMap.size_eq_card, hfull] at hle
    rw [hfull, Nat.min_eq_left hle]

end

/-! ## Extremes -/

/-- The one of some numbers that stands before all of them, if there are any. -/
inductive Extreme (r : α → α → Prop) : List α → Option α → Prop
  | none : Extreme r [] none
  | some {xs : List α} {m : α} (hmem : m ∈ xs) (hfirst : ∀ x ∈ xs, r m x) : Extreme r xs (some m)

theorem Extreme.concat {r : α → α → Prop} {pick : α → α → α} {xs : List α} {o : Option α} {x : α}
    (h : Extreme r xs o) (htrans : ∀ {a b c}, r a b → r b c → r a c) (hx : r x x)
    (hpick : ∀ m ∈ xs, (pick m x = m ∨ pick m x = x) ∧ r (pick m x) m ∧ r (pick m x) x) :
    Extreme r (xs ++ [x]) (.some (o.elim x (pick · x))) := by
  cases h with
  | none => exact .some (List.mem_singleton_self x) (List.forall_mem_singleton.2 hx)
  | @some _ m hmem hfirst =>
      obtain ⟨heq, hm, hx⟩ := hpick m hmem
      refine .some ?_ fun y hy => ?_
      · change pick m x ∈ xs ++ [x]
        rcases heq with heq | heq
        · exact List.mem_append_left _ (heq.symm ▸ hmem)
        · exact List.mem_append_right _ (List.mem_singleton.2 heq)
      · rcases List.mem_append.1 hy with hy | hy
        · exact htrans hm (hfirst y hy)
        · exact List.mem_singleton.1 hy ▸ hx

/-- Extremes of the same numbers stand before each other. -/
theorem Extreme.map_eq {r : α → α → Prop} {f : α → β} {xs ys : List α} {o p : Option α}
    (h : Extreme r xs o) (h' : Extreme r ys p) (hperm : xs.Perm ys)
    (hf : ∀ a ∈ xs, ∀ b ∈ xs, r a b → r b a → f a = f b) : o.map f = p.map f := by
  cases h with
  | none =>
      cases h' with
      | none => rfl
      | some hmem _ => exact absurd (hperm.mem_iff.2 hmem) List.not_mem_nil
  | @some _ a ha hfirst =>
      cases h' with
      | none => exact absurd (hperm.mem_iff.1 ha) List.not_mem_nil
      | @some _ b hb hfirst' =>
          have hb := hperm.mem_iff.2 hb
          exact congrArg Option.some
            (hf a ha b hb (hfirst b hb) (hfirst' a (hperm.mem_iff.1 ha)))

theorem least_observe [Quantity α] (s : FieldStats α) (v : Scalar α) : (s.observe v).least =
    v.number?.elim s.least fun x => some (s.least.elim x (Quantity.lesser · x)) := by
  unfold observe
  cases v.number? with
  | none => rfl
  | some x => cases s.least <;> rfl

theorem greatest_observe [Quantity α] (s : FieldStats α) (v : Scalar α) : (s.observe v).greatest =
    v.number?.elim s.greatest fun x => some (s.greatest.elim x (Quantity.greater · x)) := by
  unfold observe
  cases v.number? with
  | none => rfl
  | some x => cases s.greatest <;> rfl

/-- The extremes are those of some numbers. -/
structure Bounds (s : FieldStats Double) (xs : List Double) : Prop where
  least : Extreme (· ≤ ·) xs s.least
  greatest : Extreme (· ≥ ·) xs s.greatest

theorem Bounds.observe {s : FieldStats Double} {xs : List Double} {v : Scalar Double}
    (h : s.Bounds xs) (hxs : ∀ x ∈ xs ++ v.number?.toList, x.isFinite = true) :
    (s.observe v).Bounds (xs ++ v.number?.toList) := by
  cases hv : v.number? with
  | none =>
      rw [Option.toList_none, List.append_nil]
      exact ⟨by rw [least_observe, hv]; exact h.least, by rw [greatest_observe, hv]; exact h.greatest⟩
  | some x =>
      rw [hv, Option.toList_some, List.forall_mem_append, List.forall_mem_singleton] at hxs
      obtain ⟨hxs, hx⟩ := hxs
      constructor
      · rw [least_observe, hv]
        exact h.least.concat Double.le_trans (Double.le_refl hx) fun m hm =>
          ⟨Double.lesser_eq m x, Double.lesser_le (hxs m hm) hx⟩
      · rw [greatest_observe, hv]
        exact h.greatest.concat (fun hab hbc => Double.le_trans hbc hab) (Double.le_refl hx)
          fun m hm => ⟨Double.greater_eq m x, Double.le_greater (hxs m hm) hx⟩

theorem bounds_ofValues {vs : List (Scalar Double)} (h : ∀ x ∈ numbers vs, x.isFinite = true) :
    (ofValues vs).Bounds (numbers vs) := by
  induction vs using List.reverseRecOn with
  | nil => exact ⟨.none, .none⟩
  | append_singleton vs v ih =>
      rw [numbers_concat] at h ⊢
      rw [ofValues_concat]
      exact (ih fun x hx => h x (List.mem_append_left _ hx)).observe h

/-- Statistics say the same of values in any order, as far as numbers that bound each other are not
told apart. -/
theorem agree_of_perm {f : Double → β} {vs ws : List (Scalar Double)}
    (h : ∀ x ∈ numbers vs, x.isFinite = true)
    (hf : ∀ a ∈ numbers vs, ∀ b ∈ numbers vs, a ≤ b → b ≤ a → f a = f b) (hperm : vs.Perm ws) :
    Agree ((ofValues vs).map f) ((ofValues ws).map f) := by
  have hnumbers : (numbers vs).Perm (numbers ws) := hperm.filterMap _
  have hbounds := bounds_ofValues h
  have hbounds' := bounds_ofValues fun x hx => h x (hnumbers.mem_iff.2 hx)
  have hfaces : (vs.map face).toFinset = (ws.map face).toFinset :=
    List.toFinset_eq_of_perm _ _ (hperm.map face)
  exact
    { count := (count_ofValues vs).trans (hperm.length_eq.trans (count_ofValues ws).symm)
      numeric := (numeric_ofValues vs).trans (hnumbers.length_eq.trans (numeric_ofValues ws).symm)
      least := hbounds.least.map_eq hbounds'.least hnumbers hf
      greatest := hbounds.greatest.map_eq hbounds'.greatest hnumbers fun a ha b hb hab hba =>
        hf a ha b hb hba hab
      distinct := by
        change (ofValues vs).distinct = (ofValues ws).distinct
        rw [distinct_ofValues, distinct_ofValues, hfaces] }

theorem agree_exact_of_perm {vs ws : List (Scalar Double)}
    (h : ∀ x ∈ numbers vs, x.isFinite = true) (hperm : vs.Perm ws) :
    Agree ((ofValues vs).map Double.exact) ((ofValues ws).map Double.exact) :=
  agree_of_perm h (fun a ha b hb => Double.exact_eq_of_le (h a ha) (h b hb)) hperm

/-- Only zeros of both signs can leave the order its choice of a pattern. -/
theorem agree_of_perm_of_zero {vs ws : List (Scalar Double)}
    (h : ∀ x ∈ numbers vs, x.isFinite = true)
    (hzero : Quantity.zero ∉ numbers vs ∨ -Quantity.zero ∉ numbers vs) (hperm : vs.Perm ws) :
    Agree (ofValues vs) (ofValues ws) := by
  have hid (s : FieldStats Double) : s.map id = s := by
    rw [map, Option.map_id, id, id]
  rw [← hid (ofValues vs), ← hid (ofValues ws)]
  refine agree_of_perm h (fun a ha b hb hab hba => ?_) hperm
  have hposition : a.position = b.position := Int.le_antisymm
    ((Double.le_iff_position a b).1 hab).2.2 ((Double.le_iff_position b a).1 hba).2.2
  rcases Double.eq_of_position_eq hposition with heq | ⟨rfl, rfl⟩ | ⟨rfl, rfl⟩
  · exact heq
  · exact hzero.elim (absurd ha) (absurd hb)
  · exact hzero.elim (absurd hb) (absurd ha)

/-! ## Estimates -/

/-- An estimate depends on what the statistics say only. -/
theorem Agree.selectivity [Quantity α] {s t : FieldStats α} (h : Agree s t) (op : CompareOp)
    (v : Scalar α) (total : Nat) : s.selectivity op v total = t.selectivity op v total := by
  simp only [FieldStats.selectivity, fraction, h.count, h.numeric, h.least, h.greatest, h.distinct]

open scoped Rational

theorem clamp_mem_unit (a : ℚ) : 0 ≤ Quantity.clamp 0 1 a ∧ Quantity.clamp 0 1 a ≤ 1 := by
  unfold Quantity.clamp
  split
  · exact ⟨le_rfl, zero_le_one⟩
  · rename_i hlow
    split
    · exact ⟨zero_le_one, le_rfl⟩
    · rename_i hhigh
      exact ⟨not_lt.1 hlow, not_lt.1 hhigh⟩

/-- All different values are taken to be alike frequent. -/
theorem selectivity_equal {s : FieldStats α} (hs : s.count ≠ 0) (f : α → ℚ) (v : Scalar ℚ)
    {total : Nat} (htotal : total ≠ 0) : (s.map f).selectivity .eq v total =
      Quantity.clamp (0 : ℚ) 1 (s.count / total * (1 / (max s.distinct 1 : Nat))) :=
  if_neg (not_or.2 ⟨htotal, hs⟩)

/-- An estimate is a part of one. -/
theorem selectivity_mem_unit (s : FieldStats ℚ) (op : CompareOp) (v : Scalar ℚ) (total : Nat) :
    0 ≤ s.selectivity op v total ∧ s.selectivity op v total ≤ 1 := by
  unfold FieldStats.selectivity
  split
  · exact ⟨le_rfl, zero_le_one⟩
  · exact clamp_mem_unit _

open Checked (of)

theorem below_checked (least greatest x : ℚ) :
    below (of least) (of greatest) (of x) = of (below least greatest x) := by
  unfold below
  simp only [Checked.of_lt_iff, Checked.of_le_iff]
  split
  · rename_i hlt
    rw [Checked.of_sub, Checked.of_sub, Checked.of_div, if_neg (sub_pos.2 hlt).ne']
    exact Checked.of_clamp 0 1 _
  · split <;> rfl

/-- No part of the values is computed with a quotient by zero. -/
theorem fraction_checked {s : FieldStats ℚ} (h : s.count ≠ 0) (op : CompareOp) (v : Scalar ℚ) :
    (s.map of).fraction op (v.map of) = of (s.fraction op v) := by
  have hequal : of 1 / of (max s.distinct 1 : Nat) = of (1 / (max s.distinct 1 : Nat)) := by
    rw [Checked.of_div, if_neg (Nat.cast_ne_zero.2 (Nat.one_pos.trans_le (Nat.le_max_right ..)).ne')]
  have hhalf : of 1 / of (2 : Nat) = of (1 / (2 : Nat)) := by
    rw [Checked.of_div, if_neg (Nat.cast_ne_zero.2 two_ne_zero)]
  have hrange (c : Prop) [Decidable c] (part : ℚ) :
      of s.numeric / of s.count * (if c then of part else of 1 - of part) =
        of (s.numeric / s.count * if c then part else 1 - part) := by
    rw [Checked.of_div, if_neg (Nat.cast_ne_zero.2 h)]
    split <;> rfl
  cases op with
  | eq => exact hequal
  | ne =>
      change of 1 - of 1 / of (max s.distinct 1 : Nat) = _
      rw [hequal]
      rfl
  | lt | le | gt | ge =>
      cases v with
      | bool b => exact hhalf
      | text t => exact hhalf
      | number x =>
          obtain ⟨count, numeric, least, greatest, seen⟩ := s
          cases least with
          | none => rfl
          | some a =>
              cases greatest with
              | none => rfl
              | some b =>
                  dsimp only [fraction, map, Scalar.map, Option.map_some]
                  rw [below_checked]
                  exact hrange ..

/-- An estimate is the same over checked numbers as over exact ones. -/
theorem selectivity_checked (s : FieldStats ℚ) (op : CompareOp) (v : Scalar ℚ) (total : Nat) :
    (s.map of).selectivity op (v.map of) total = of (s.selectivity op v total) := by
  have hcount : (s.map of).count = s.count := rfl
  unfold FieldStats.selectivity
  rw [hcount]
  split
  · rfl
  · rename_i hsome
    obtain ⟨htotal, hs⟩ := not_or.1 hsome
    have hpresent : of s.count / of total = of (s.count / total) := by
      rw [Checked.of_div, if_neg (Nat.cast_ne_zero.2 htotal)]
    rw [fraction_checked hs]
    change Quantity.clamp (of 0) (of 1) (of s.count / of total * _) = _
    rw [hpresent, Checked.of_mul]
    exact Checked.of_clamp 0 1 _

/-- **Statistics.** They count the values and the numbers among them, give the extremes of the
numbers, and tell up to 4096 different values apart.  The values may come in any order: all this is
the same but for the sign of a zero, and so is every estimate in exact arithmetic, which is a part of
one and is computed without a quotient by zero. -/
theorem statistics_exact {vs : List (Scalar Double)} (h : ∀ x ∈ numbers vs, x.isFinite = true) :
    (ofValues vs).count = vs.length ∧
    (ofValues vs).numeric = (numbers vs).length ∧
    Extreme (· ≤ ·) (numbers vs) (ofValues vs).least ∧
    Extreme (· ≥ ·) (numbers vs) (ofValues vs).greatest ∧
    (ofValues vs).distinct = min 4096 (vs.map face).toFinset.card ∧
    (∀ ws, vs.Perm ws →
      Agree ((ofValues vs).map Double.exact) ((ofValues ws).map Double.exact) ∧
      (Quantity.zero ∉ numbers vs ∨ -Quantity.zero ∉ numbers vs →
        Agree (ofValues vs) (ofValues ws))) ∧
    ∀ (op : CompareOp) (v : Scalar ℚ) (total : Nat), ∃ part : ℚ, 0 ≤ part ∧ part ≤ 1 ∧
      ∀ ws, vs.Perm ws →
        ((ofValues ws).map Double.exact).selectivity op v total = part ∧
        (((ofValues ws).map Double.exact).map of).selectivity op (v.map of) total = of part := by
  have hbounds := bounds_ofValues h
  refine ⟨count_ofValues vs, numeric_ofValues vs, hbounds.least, hbounds.greatest,
    distinct_ofValues vs, fun ws hperm => ?_, fun op v total => ?_⟩
  · exact ⟨agree_exact_of_perm h hperm, fun hzero => agree_of_perm_of_zero h hzero hperm⟩
  · obtain ⟨hlow, hhigh⟩ := selectivity_mem_unit ((ofValues vs).map Double.exact) op v total
    refine ⟨_, hlow, hhigh, fun ws hperm => ?_⟩
    have hsame := (agree_exact_of_perm h hperm).selectivity op v total
    exact ⟨hsame.symm, by rw [selectivity_checked, hsame]⟩

/-- A number, and texts of all lengths below 5000. -/
def manyValues : List (Scalar Double) :=
  .number 2 :: (List.range 5000).map fun n => .text (.ofList (List.replicate n 'x'))

theorem numbers_manyValues : numbers manyValues = [2] := by
  simp [numbers, manyValues, Scalar.number?, List.filterMap_map]

theorem card_faces_manyValues : (manyValues.map face).toFinset.card = 5001 := by
  have hnodup : (manyValues.map face).Nodup := by
    rw [manyValues, List.map_cons, List.map_map, List.nodup_cons]
    constructor
    · intro hmem
      obtain ⟨n, -, hn⟩ := List.mem_map.1 hmem
      have hkind : "text" = "number" := congrArg Prod.fst hn
      exact absurd hkind (by decide)
    · refine List.nodup_range.map fun m n hmn => ?_
      have htext := congrArg List.length (String.ofList_injective (Prod.mk.inj hmn).2)
      rwa [List.length_replicate, List.length_replicate] at htext
  rw [List.toFinset_card_of_nodup hnodup, List.length_map, manyValues, List.length_cons,
    List.length_map, List.length_range]

/-- Past the limit the values are counted and no longer told apart, from either end. -/
theorem statistics_exact_manyValues :
    (∀ x ∈ numbers manyValues, x.isFinite = true) ∧ manyValues.Perm manyValues.reverse ∧
      (ofValues manyValues.reverse).count = 5001 ∧ (ofValues manyValues.reverse).least = some 2 ∧
      (ofValues manyValues.reverse).distinct = 4096 ∧
      ((ofValues manyValues.reverse).map Double.exact).selectivity .eq (.bool true) 10002 =
        1 / 8192 := by
  have hfinite : ∀ x ∈ numbers manyValues, x.isFinite = true := by
    rw [numbers_manyValues]
    decide
  have hperm : manyValues.Perm manyValues.reverse := (List.reverse_perm _).symm
  have hmany : manyValues.length = 5001 := by simp [manyValues]
  obtain ⟨hcount, -, hleast, -, hdistinct, hagree, hpart⟩ := statistics_exact hfinite
  obtain ⟨-, hsame⟩ := hagree _ hperm
  rw [numbers_manyValues] at hleast hsame
  have hsame := hsame (.inl fun hmem => absurd (List.mem_singleton.1 hmem) (by decide))
  have hcount := hcount.trans hmany
  have hdistinct : (ofValues manyValues).distinct = 4096 := by
    rw [hdistinct, card_faces_manyValues]
    rfl
  have hleast : (ofValues manyValues).least = some 2 := by
    generalize (ofValues manyValues).least = o at hleast
    obtain _ | ⟨hmem, -⟩ := hleast
    exact congrArg some (List.mem_singleton.1 hmem)
  refine ⟨hfinite, hperm, hsame.count.symm.trans hcount, hsame.least.symm.trans hleast,
    hsame.distinct.symm.trans hdistinct, ?_⟩
  obtain ⟨part, -, -, hpart⟩ := hpart .eq (.bool true) 10002
  rw [(hpart _ hperm).1, ← (hpart _ (.refl _)).1]
  rw [selectivity_equal (by rw [hcount]; decide) _ _ (by decide), hcount, hdistinct]
  norm_num [Quantity.clamp]

end FieldStats

end VectorQuery
