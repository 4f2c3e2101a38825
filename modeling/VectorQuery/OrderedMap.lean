/-
# Maps in ascending order of their keys

A finite map is the list of its entries with strictly ascending keys.  The order is part of the
type, so two maps are equal when they answer every look-up alike (`OrderedMap.ext_get?`), and
whatever is written from a map comes out in one order only.
-/
namespace VectorQuery

/-- Entries with strictly ascending keys. -/
structure OrderedMap (κ β : Type) [Ord κ] where
  entries : List (κ × β)
  ascending : entries.Pairwise fun a b => compare a.1 b.1 = .lt

namespace OrderedMap

variable {κ β : Type} [Ord κ]

/-- The map without entries. -/
def empty : OrderedMap κ β := ⟨[], .nil⟩

instance : Inhabited (OrderedMap κ β) := ⟨empty⟩

/-- The value of the first entry with the key `k`. -/
def lookupIn (k : κ) : List (κ × β) → Option β
  | [] => none
  | (k', v) :: rest => if compare k k' = .eq then some v else lookupIn k rest

/-- The value at a key. -/
def get? (m : OrderedMap κ β) (k : κ) : Option β := lookupIn k m.entries

/-- The key has a value. -/
def contains (m : OrderedMap κ β) (k : κ) : Bool := (m.get? k).isSome

/-- The keys in ascending order. -/
def keys (m : OrderedMap κ β) : List κ := m.entries.map (·.1)

/-- The values in ascending order of their keys. -/
def values (m : OrderedMap κ β) : List β := m.entries.map (·.2)

/-- The number of entries. -/
def size (m : OrderedMap κ β) : Nat := m.entries.length

/-- The map has no entries. -/
def isEmpty (m : OrderedMap κ β) : Bool := m.entries.isEmpty

/-- Puts at `k` what `f` makes of the value there. -/
def alterIn (k : κ) (f : Option β → β) : List (κ × β) → List (κ × β)
  | [] => [(k, f none)]
  | (k', v) :: rest =>
    match compare k k' with
    | .lt => (k, f none) :: (k', v) :: rest
    | .eq => (k, f (some v)) :: rest
    | .gt => (k', v) :: alterIn k f rest

theorem mem_alterIn {k : κ} {f : Option β → β} {l : List (κ × β)} {e : κ × β}
    (h : e ∈ alterIn k f l) : e.1 = k ∨ e ∈ l := by
  induction l with
  | nil => simp_all [alterIn]
  | cons x l ih =>
    obtain ⟨k', v⟩ := x
    unfold alterIn at h
    split at h <;> simp only [List.mem_cons] at h ⊢ <;> grind

theorem ascending_alterIn [Std.TransOrd κ] [Std.LawfulEqOrd κ] {k : κ} {f : Option β → β}
    {l : List (κ × β)} (h : l.Pairwise fun a b => compare a.1 b.1 = .lt) :
    (alterIn k f l).Pairwise fun a b => compare a.1 b.1 = .lt := by
  induction l with
  | nil => simp [alterIn]
  | cons x l ih =>
    obtain ⟨k', v⟩ := x
    rw [List.pairwise_cons] at h
    unfold alterIn
    split
    · rename_i hk
      refine .cons ?_ (.cons h.1 h.2)
      intro e he
      rcases List.mem_cons.1 he with rfl | he
      · exact hk
      · exact Std.TransCmp.lt_trans hk (h.1 e he)
    · rename_i hk
      have : k = k' := Std.LawfulEqCmp.eq_of_compare hk
      subst this
      exact .cons h.1 h.2
    · rename_i hk
      refine .cons ?_ (ih h.2)
      intro e he
      rcases mem_alterIn he with hk' | he
      · rw [hk']
        exact Std.OrientedCmp.lt_of_gt hk
      · exact h.1 e he

/-- Puts at `k` what `f` makes of the value there. -/
def alter [Std.TransOrd κ] [Std.LawfulEqOrd κ] (m : OrderedMap κ β) (k : κ) (f : Option β → β) :
    OrderedMap κ β :=
  ⟨alterIn k f m.entries, ascending_alterIn m.ascending⟩

/-- Puts a value at a key, whatever was there. -/
def insert [Std.TransOrd κ] [Std.LawfulEqOrd κ] (m : OrderedMap κ β) (k : κ) (v : β) :
    OrderedMap κ β :=
  m.alter k fun _ => v

/-- The map of a list of entries; the last entry of a key counts. -/
def ofList [Std.TransOrd κ] [Std.LawfulEqOrd κ] (l : List (κ × β)) : OrderedMap κ β :=
  l.foldl (fun m e => m.insert e.1 e.2) empty

/-- The entries that `p` accepts. -/
def filter (m : OrderedMap κ β) (p : κ → β → Bool) : OrderedMap κ β :=
  ⟨m.entries.filter fun e => p e.1 e.2, m.ascending.filter _⟩

/-- The entries for which `f` has a value, with that value. -/
def filterMap {γ : Type} (m : OrderedMap κ β) (f : κ → β → Option γ) : OrderedMap κ γ :=
  ⟨m.entries.filterMap fun e => (f e.1 e.2).map fun c => (e.1, c), by
    refine m.ascending.filterMap _ ?_
    intro a b h
    simp only [Option.map_eq_some_iff, forall_exists_index, and_imp]
    rintro _ _ _ rfl _ _ _ rfl
    exact h⟩

/-- The map with every value replaced. -/
def map {γ : Type} (m : OrderedMap κ β) (f : β → γ) : OrderedMap κ γ :=
  m.filterMap fun _ v => some (f v)

/-! ### What a look-up finds -/

theorem ext_entries {m n : OrderedMap κ β} (h : m.entries = n.entries) : m = n := by
  cases m; cases n; simp_all

@[simp] theorem get?_empty (k : κ) : (empty : OrderedMap κ β).get? k = none := rfl

theorem lookupIn_alterIn [Std.TransOrd κ] [Std.LawfulEqOrd κ] (k j : κ) (f : Option β → β)
    {l : List (κ × β)} (h : l.Pairwise fun a b => compare a.1 b.1 = .lt) :
    lookupIn j (alterIn k f l) =
      if compare j k = .eq then some (f (lookupIn k l)) else lookupIn j l := by
  induction l with
  | nil => simp [alterIn, lookupIn]
  | cons x l ih =>
    obtain ⟨k', v⟩ := x
    rw [List.pairwise_cons] at h
    unfold alterIn
    split
    · rename_i hk
      have hnone : lookupIn k ((k', v) :: l) = none := by
        have hne : ∀ e ∈ (k', v) :: l, compare k e.1 = .lt := by
          intro e he
          rcases List.mem_cons.1 he with rfl | he
          · exact hk
          · exact Std.TransCmp.lt_trans hk (h.1 e he)
        generalize (k', v) :: l = l' at hne
        induction l' with
        | nil => rfl
        | cons y l' ih' =>
          obtain ⟨ky, vy⟩ := y
          have hy : compare k ky = .lt := hne (ky, vy) (by simp)
          rw [lookupIn, hy]
          exact ih' fun e he => hne e (List.mem_cons_of_mem _ he)
      rw [hnone]
      conv => lhs; unfold lookupIn
    · rename_i hk
      have : k = k' := Std.LawfulEqCmp.eq_of_compare hk
      subst this
      simp only [lookupIn, hk, if_true]
      split <;> rfl
    · rename_i hk
      simp only [lookupIn, ih h.2, hk]
      by_cases hj : compare j k' = .eq
      · have : j = k' := Std.LawfulEqCmp.eq_of_compare hj
        subst this
        have : compare j k ≠ .eq := by
          intro he
          have : j = k := Std.LawfulEqCmp.eq_of_compare he
          subst this
          simp_all
        simp [this]
      · simp [hj]

@[simp] theorem get?_alter [Std.TransOrd κ] [Std.LawfulEqOrd κ] (m : OrderedMap κ β) (k j : κ)
    (f : Option β → β) :
    (m.alter k f).get? j = if compare j k = .eq then some (f (m.get? k)) else m.get? j :=
  lookupIn_alterIn k j f m.ascending

@[simp] theorem get?_insert [Std.TransOrd κ] [Std.LawfulEqOrd κ] (m : OrderedMap κ β) (k j : κ)
    (v : β) : (m.insert k v).get? j = if compare j k = .eq then some v else m.get? j := by
  simp [insert]

theorem lookupIn_eq_some_iff [Std.TransOrd κ] [Std.LawfulEqOrd κ] {l : List (κ × β)}
    (h : l.Pairwise fun a b => compare a.1 b.1 = .lt) (k : κ) (v : β) :
    lookupIn k l = some v ↔ (k, v) ∈ l := by
  induction l with
  | nil => simp [lookupIn]
  | cons x l ih =>
    obtain ⟨k', v'⟩ := x
    rw [List.pairwise_cons] at h
    rw [lookupIn]
    by_cases hk : compare k k' = .eq
    · have : k = k' := Std.LawfulEqCmp.eq_of_compare hk
      subst this
      simp only [hk, if_true, Option.some.injEq, List.mem_cons, Prod.mk.injEq, true_and]
      constructor
      · rintro rfl; exact .inl rfl
      · rintro (rfl | hm)
        · rfl
        · have := h.1 _ hm
          simp_all
    · simp only [hk, if_false, ih h.2, List.mem_cons, Prod.mk.injEq]
      constructor
      · exact .inr
      · rintro (⟨rfl, -⟩ | hm)
        · exact absurd Std.ReflCmp.compare_self hk
        · exact hm

/-- A look-up finds exactly the entries of the map. -/
theorem get?_eq_some_iff [Std.TransOrd κ] [Std.LawfulEqOrd κ] (m : OrderedMap κ β) (k : κ) (v : β) :
    m.get? k = some v ↔ (k, v) ∈ m.entries :=
  lookupIn_eq_some_iff m.ascending k v

theorem entries_eq_of_mem_iff [Std.TransOrd κ] [Std.LawfulEqOrd κ] {l r : List (κ × β)}
    (hl : l.Pairwise fun a b => compare a.1 b.1 = .lt)
    (hr : r.Pairwise fun a b => compare a.1 b.1 = .lt) (h : ∀ e, e ∈ l ↔ e ∈ r) : l = r := by
  induction l generalizing r with
  | nil =>
    cases r with
    | nil => rfl
    | cons y r => exact absurd ((h y).2 (by simp)) (by simp)
  | cons x l ih =>
    cases r with
    | nil => exact absurd ((h x).1 (by simp)) (by simp)
    | cons y r =>
      rw [List.pairwise_cons] at hl hr
      have asymm : ∀ a b : κ × β, compare a.1 b.1 = .lt → compare b.1 a.1 = .lt → False := by
        intro a b hab hba
        have := Std.TransCmp.lt_trans hab hba
        simp at this
      have hxy : x = y := by
        rcases List.mem_cons.1 ((h x).1 (by simp)) with hx | hx
        · exact hx
        · rcases List.mem_cons.1 ((h y).2 (by simp)) with hy | hy
          · exact hy.symm
          · exact (asymm _ _ (hr.1 x hx) (hl.1 y hy)).elim
      subst hxy
      congr 1
      refine ih hl.2 hr.2 fun e => ?_
      have he := h e
      simp only [List.mem_cons] at he
      constructor
      · intro hm
        rcases he.1 (.inr hm) with rfl | hm'
        · exact (asymm _ _ (hl.1 _ hm) (hl.1 _ hm)).elim
        · exact hm'
      · intro hm
        rcases he.2 (.inr hm) with rfl | hm'
        · exact (asymm _ _ (hr.1 _ hm) (hr.1 _ hm)).elim
        · exact hm'

/-- Maps that answer every look-up alike are equal. -/
theorem ext_get? [Std.TransOrd κ] [Std.LawfulEqOrd κ] {m n : OrderedMap κ β}
    (h : ∀ k, m.get? k = n.get? k) : m = n :=
  ext_entries <| entries_eq_of_mem_iff m.ascending n.ascending fun e => by
    rw [← Prod.eta e, ← get?_eq_some_iff, ← get?_eq_some_iff, h]

/-! ### Maps of lists -/

/-- A key beyond all others goes to the end. -/
theorem alterIn_of_lt [Std.OrientedOrd κ] {k : κ} {f : Option β → β} {l : List (κ × β)}
    (h : ∀ e ∈ l, compare e.1 k = .lt) : alterIn k f l = l ++ [(k, f none)] := by
  induction l with
  | nil => rfl
  | cons x l ih =>
    have hk : compare k x.1 = .gt := Std.OrientedCmp.gt_of_lt (h x List.mem_cons_self)
    rw [alterIn, hk]
    exact congrArg (x :: ·) (ih fun e he => h e (List.mem_cons_of_mem x he))

/-- The map of entries of different keys has these entries. -/
theorem mem_entries_ofList [Std.TransOrd κ] [Std.LawfulEqOrd κ] {l : List (κ × β)}
    (h : l.Pairwise fun a b => a.1 ≠ b.1) {e : κ × β} : e ∈ (ofList l).entries ↔ e ∈ l := by
  have hfold : ∀ (l : List (κ × β)) (m : OrderedMap κ β), (l.Pairwise fun a b => a.1 ≠ b.1) →
      (∀ a ∈ l, m.get? a.1 = none) →
        (e ∈ (l.foldl (fun m e => m.insert e.1 e.2) m).entries ↔ e ∈ m.entries ∨ e ∈ l) := by
    intro l
    induction l with
    | nil => exact fun m _ _ => by simp
    | cons x l ih =>
      intro m hl hm
      rw [List.pairwise_cons] at hl
      have hx := hm x List.mem_cons_self
      have hinsert : e ∈ (m.insert x.1 x.2).entries ↔ e = x ∨ e ∈ m.entries := by
        rw [← Prod.eta e, ← get?_eq_some_iff, ← get?_eq_some_iff, get?_insert]
        split
        · rename_i hkey
          have hkey := Std.LawfulEqCmp.eq_of_compare hkey
          rw [hkey, hx, Option.some.injEq, Prod.ext_iff]
          exact ⟨fun hv => .inl ⟨rfl, hv.symm⟩, fun hv => (hv.resolve_right nofun).2.symm⟩
        · rename_i hkey
          refine ⟨.inr, fun hv => hv.resolve_left fun heq => hkey ?_⟩
          rw [Prod.ext_iff] at heq
          rw [heq.1]
          exact Std.ReflCmp.compare_self
      have hrest : ∀ a ∈ l, (m.insert x.1 x.2).get? a.1 = none := by
        intro a ha
        rw [get?_insert, if_neg fun heq => hl.1 a ha (Std.LawfulEqCmp.eq_of_compare heq).symm]
        exact hm a (List.mem_cons_of_mem x ha)
      rw [List.foldl_cons, ih _ hl.2 hrest, hinsert, List.mem_cons, or_comm (a := e = x), or_assoc]
  rw [ofList, hfold l empty h fun _ _ => rfl]
  exact or_iff_right List.not_mem_nil

/-- The map of the entries of a map is the map. -/
@[simp] theorem ofList_entries [Std.TransOrd κ] [Std.LawfulEqOrd κ] (m : OrderedMap κ β) :
    ofList m.entries = m := by
  have hfold : ∀ (l : List (κ × β)) (n : OrderedMap κ β),
      ((n.entries ++ l).Pairwise fun a b => compare a.1 b.1 = .lt) →
        (l.foldl (fun n e => n.insert e.1 e.2) n).entries = n.entries ++ l := by
    intro l
    induction l with
    | nil => exact fun n _ => (List.append_nil _).symm
    | cons e l ih =>
      intro n h
      have hlast : ∀ a ∈ n.entries, compare a.1 e.1 = .lt := fun a ha =>
        (List.pairwise_append.1 h).2.2 a ha e List.mem_cons_self
      have hinsert : (n.insert e.1 e.2).entries = n.entries ++ [e] := alterIn_of_lt hlast
      rw [List.foldl_cons, ih _ (by rwa [hinsert, List.append_assoc]), hinsert, List.append_assoc]
      rfl
  exact ext_entries (hfold m.entries empty m.ascending)

end OrderedMap

end VectorQuery
