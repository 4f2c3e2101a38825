/-
# Sets of types and their texts

Lemmas on the sets of type names that lowering keeps.  Sharing tells contexts apart by the text of
the types seen.  Texts of unrelated sets may coincide, but the types seen only grow, and the text
of a larger set is longer: `eq_of_text` says that one text stands for one set, except that the
empty set and the set of the empty name share theirs.
-/
import Mathlib.Data.List.Sort
import VectorQuery.Plan.TypeSet
import VectorQuery.Proofs.ScoredSet

namespace VectorQuery.TypeSet

variable {s t u : TypeSet} {n : String}

theorem mem_names : n ∈ s.names ↔ s.get? n = some () := by
  rw [OrderedMap.get?_eq_some_iff, names, OrderedMap.keys, List.mem_map]
  constructor
  · rintro ⟨⟨_, ⟨⟩⟩, h, rfl⟩
    exact h
  · intro h
    exact ⟨_, h, rfl⟩

theorem ext_names (h : ∀ n, n ∈ s.names ↔ n ∈ t.names) : s = t := by
  refine OrderedMap.ext_get? fun n => ?_
  have hn := h n
  rw [mem_names, mem_names] at hn
  cases hs : s.get? n with
  | some u => exact (hn.1 hs).symm
  | none =>
      cases ht : t.get? n with
      | none => rfl
      | some u =>
          rw [hn.2 ht] at hs
          cases hs

theorem nodup_names (s : TypeSet) : s.names.Nodup := s.nodup_keys

@[simp] theorem not_mem_empty : n ∉ names .empty := List.not_mem_nil

theorem isEmpty_iff : s.isEmpty = true ↔ s.names = [] :=
  List.isEmpty_iff.trans List.map_eq_nil_iff.symm

theorem eq_empty_iff : s = .empty ↔ s.names = [] := by
  constructor
  · rintro rfl
    rfl
  · intro h
    refine ext_names fun n => ?_
    rw [h]
    exact ⟨fun hn => absurd hn List.not_mem_nil, fun hn => absurd hn not_mem_empty⟩

theorem ne_empty_iff : s ≠ .empty ↔ ∃ n, n ∈ s.names := by
  rw [Ne, eq_empty_iff, List.eq_nil_iff_forall_not_mem]
  exact not_forall_not

theorem mem_insert {m : String} : n ∈ names (s.insert m ()) ↔ n = m ∨ n ∈ s.names := by
  rw [mem_names, mem_names, OrderedMap.get?_insert]
  split
  · rename_i h
    simp [Std.LawfulEqCmp.eq_of_compare h]
  · rename_i h
    have hne : n ≠ m := by
      rintro rfl
      exact h Std.ReflCmp.compare_self
    simp [hne]

@[simp] theorem mem_single {m : String} : n ∈ names (single m) ↔ n = m := by
  rw [single, mem_insert]
  simp

@[simp] theorem mem_union : n ∈ names (s.union t) ↔ n ∈ s.names ∨ n ∈ t.names := by
  have hfold : ∀ (l : List String) (s : TypeSet),
      n ∈ names (l.foldl (fun s name => s.insert name ()) s) ↔ n ∈ s.names ∨ n ∈ l := by
    intro l
    induction l with
    | nil => simp
    | cons m l ih =>
        intro s
        rw [List.foldl_cons, ih, mem_insert, List.mem_cons]
        tauto
  exact hfold _ _

theorem mem_of_mem_both (h : n ∈ names (s.both t)) : n ∈ s.names ∨ n ∈ t.names := by
  unfold both at h
  split at h
  · exact .inr h
  · split at h
    · exact .inl h
    · obtain ⟨e, he, rfl⟩ := List.mem_map.1 h
      exact .inl (List.mem_map.2 ⟨e, (List.mem_filter.1 he).1, rfl⟩)

theorem mem_of_mem_either (h : n ∈ names (s.either t)) : n ∈ s.names ∨ n ∈ t.names := by
  unfold either at h
  split at h
  · exact absurd h not_mem_empty
  · exact mem_union.1 h

/-! ## Inclusion -/

/-- Every name of the one set is a name of the other. -/
def Within (s t : TypeSet) : Prop := ∀ n ∈ s.names, n ∈ t.names

theorem Within.refl (s : TypeSet) : s.Within s := fun _ h => h

theorem Within.trans (h : s.Within t) (h' : t.Within u) : s.Within u := fun n hn => h' n (h n hn)

theorem Within.antisymm (h : s.Within t) (h' : t.Within s) : s = t :=
  ext_names fun n => ⟨h n, h' n⟩

theorem empty_within (t : TypeSet) : Within .empty t := fun _ h => absurd h not_mem_empty

theorem within_union_left (s t : TypeSet) : s.Within (s.union t) := fun _ h => mem_union.2 (.inl h)

theorem within_union_right (s t : TypeSet) : t.Within (s.union t) := fun _ h => mem_union.2 (.inr h)

theorem Within.union_eq (h : t.Within s) : s.union t = s :=
  ext_names fun n => by
    rw [mem_union]
    exact ⟨fun hn => hn.elim id (h n), .inl⟩

theorem union_comm (s t : TypeSet) : s.union t = t.union s :=
  ext_names fun n => by rw [mem_union, mem_union, or_comm]

theorem union_assoc (s t u : TypeSet) : (s.union t).union u = s.union (t.union u) :=
  ext_names fun n => by simp only [mem_union, or_assoc]

/-- What combines values keeps to their types if it does so for two of them. -/
theorem within_foldl {f : TypeSet → TypeSet → TypeSet} {ts : List TypeSet}
    (hf : ∀ {s t n}, n ∈ names (f s t) → n ∈ s.names ∨ n ∈ t.names)
    (h : ∀ t ∈ s :: ts, t.Within u) : (ts.foldl f s).Within u := by
  induction ts generalizing s with
  | nil => exact h s List.mem_cons_self
  | cons t ts ih =>
      obtain ⟨hs, h⟩ := List.forall_mem_cons.1 h
      obtain ⟨ht, h⟩ := List.forall_mem_cons.1 h
      exact ih (List.forall_mem_cons.2 ⟨fun n hn => (hf hn).elim (hs n) (ht n), h⟩)

/-! ## Texts -/

/-- The characters of names, each with a separator. -/
def width : List String → Nat
  | [] => 0
  | n :: names => n.length + 1 + width names

theorem length_text (s : TypeSet) : s.text.length = width s.names - 1 := by
  unfold text
  induction s.names with
  | nil => simp [width]
  | cons a l ih =>
      cases l with
      | nil => simp [width]
      | cons b l =>
          rw [String.intercalate_cons_cons, String.length_append, String.length_append, ih]
          simp only [width]
          change a.length + 1 + _ = _
          omega

theorem width_of_sublist {l r : List String} (h : l.Sublist r) :
    width l + (r.length - l.length) ≤ width r := by
  induction h with
  | slnil => simp
  | @cons l r a h ih =>
      have := h.length_le
      simp only [width, List.length_cons] at ih ⊢
      omega
  | cons_cons a h ih =>
      simp only [width, List.length_cons] at ih ⊢
      omega

theorem width_of_perm {l r : List String} (h : l.Perm r) : width l = width r := by
  induction h with
  | nil => rfl
  | cons a _ ih => simp only [width, ih]
  | swap a b l =>
      simp only [width]
      omega
  | trans _ _ ih ih' => exact ih.trans ih'

theorem Within.width_le (h : s.Within t) :
    width s.names + (t.names.length - s.names.length) ≤ width t.names := by
  obtain ⟨l, hperm, hsub⟩ := List.subperm_of_subset s.nodup_names h
  rw [← width_of_perm hperm, ← hperm.length_eq]
  exact width_of_sublist hsub

theorem Within.eq_of_length (h : s.Within t) (hlen : t.names.length ≤ s.names.length) : s = t := by
  obtain ⟨l, hperm, hsub⟩ := List.subperm_of_subset s.nodup_names h
  rw [← hperm.length_eq] at hlen
  have hl := hsub.eq_of_length_le hlen
  subst hl
  exact ext_names fun n => hperm.mem_iff.symm

/-- Among the sets that contain one another a text stands for one, or for none and the empty
name. -/
theorem eq_of_text (h : s.Within t) (htext : s.text = t.text) :
    s = t ∨ s = .empty ∧ t = single "" := by
  have hwidth := h.width_le
  have hlen := congrArg String.length htext
  rw [length_text, length_text] at hlen
  cases hs : s.names with
  | nil =>
      have hs' : s = .empty := eq_empty_iff.2 hs
      rw [hs] at hlen
      cases ht : t.names with
      | nil => exact .inl (hs'.trans (eq_empty_iff.2 ht).symm)
      | cons n l =>
          refine .inr ⟨hs', ?_⟩
          rw [ht] at hlen
          simp only [width] at hlen
          have hn : n = "" := String.length_eq_zero_iff.1 (by omega)
          have hl : l = [] := by
            cases l with
            | nil => rfl
            | cons m l =>
                simp only [width] at hlen
                omega
          exact ext_names fun m => by rw [ht, hn, hl, mem_single, List.mem_singleton]
  | cons n l =>
      refine .inl (h.eq_of_length ?_)
      rw [hs] at hwidth hlen ⊢
      simp only [width] at hwidth hlen
      omega

example : text .empty = text (single "") := by
  decide +kernel

/-- A set between two of one text has that text. -/
theorem text_between (hs : s.Within u) (ht : u.Within t) (htext : s.text = t.text) :
    u.text = s.text := by
  rcases eq_of_text (hs.trans ht) htext with rfl | ⟨rfl, rfl⟩
  · rw [hs.antisymm ht]
  · by_cases hmem : "" ∈ u.names
    · have hu : u = single "" := ht.antisymm fun n hn => by rwa [mem_single.1 hn]
      rw [hu, ← htext]
    · have hu : u = .empty := ext_names fun n => by
        refine ⟨fun hn => absurd ?_ hmem, fun hn => absurd hn not_mem_empty⟩
        rwa [← mem_single.1 (ht n hn)]
      rw [hu]

end VectorQuery.TypeSet
