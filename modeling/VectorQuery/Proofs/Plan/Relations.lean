/-
# Every pair of types has one relation or none

A candidate for two types is a relation that leads from the left one to the right one, or, where
there is no such relation, one that leads back (`Snapshot.Joins`).  Relations are looked for pair by
pair.  Two candidates for one pair make an arrow ambiguous, no candidate for any pair makes it
unknown, and otherwise the bindings found are exactly the candidates (`Snapshot.bindings_exact`).  A
relation is known by its two types and its name, so a name leaves no pair with two candidates.
-/
import VectorQuery.Plan.Relations
import VectorQuery.Proofs.Failure
import VectorQuery.Proofs.Plan.TypeSet
import VectorQuery.Proofs.ScoredSet

namespace VectorQuery

/-! ## Lists of one element or none -/

theorem toList_head? {α : Type} {as : List α} (h : as.length ≤ 1) : as.head?.toList = as := by
  match as with
  | [] => rfl
  | [a] => rfl
  | a :: a' :: as => simp at h

theorem one_lt_length_iff {α : Type} {as : List α} (h : as.Nodup) :
    1 < as.length ↔ ∃ a ∈ as, ∃ a' ∈ as, a ≠ a' := by
  match as with
  | [] => simp
  | [a] => simp
  | a :: a' :: as =>
      refine iff_of_true (by simp) ⟨a, List.mem_cons_self, a', ?_, fun heq => ?_⟩
      · exact List.mem_cons_of_mem _ List.mem_cons_self
      · exact (List.nodup_cons.1 h).1 (heq ▸ List.mem_cons_self)

/-! ## Candidates -/

namespace Snapshot

variable {s : Snapshot} {name : Option String} {l r : String} {b : RelationBinding}

/-- A relation of the snapshot leads from one type to another, and has the name if one is given. -/
structure Leads (s : Snapshot) (name : Option String) (source target : String)
    (key : RelationKey) : Prop where
  known : s.relations.contains key = true
  source : key.sourceType = source
  target : key.targetType = target
  named : ∀ n, name = some n → key.relation = n

/-- The relation of the binding may join its two types: it leads from left to right, or from right
to left where none leads from left to right. -/
def Joins (s : Snapshot) (name : Option String) (b : RelationBinding) : Prop :=
  match b.reversed with
  | false => s.Leads name b.leftType b.rightType b.key
  | true => (∀ key, ¬ s.Leads name b.leftType b.rightType key) ∧
      s.Leads name b.rightType b.leftType b.key

/-- A set of types stands for its names, or for all types of the snapshot when it has none. -/
def StandsFor (s : Snapshot) (types : TypeSet) (n : String) : Prop :=
  if types.isEmpty then s.hasType n = true else n ∈ types.names

/-- The binding is a candidate for an arrow between two sets of types. -/
structure Connects (s : Snapshot) (name : Option String) (left right : TypeSet)
    (b : RelationBinding) : Prop where
  left : s.StandsFor left b.leftType
  right : s.StandsFor right b.rightType
  joins : s.Joins name b

/-- Some pair of types has more than one candidate. -/
def Ambiguous (s : Snapshot) (name : Option String) (left right : TypeSet) : Prop :=
  ∃ b b', s.Connects name left right b ∧ s.Connects name left right b' ∧
    b.leftType = b'.leftType ∧ b.rightType = b'.rightType ∧ b ≠ b'

/-- The candidates for a pair of types. -/
def candidates (s : Snapshot) (name : Option String) (l r : String) : List RelationBinding :=
  (s.joining name l r).1.map fun key => ⟨l, r, key, (s.joining name l r).2⟩

theorem mem_relationsBetween {source target : String} {key : RelationKey} :
    key ∈ s.relationsBetween name source target ↔ s.Leads name source target key := by
  have hname : (name.all fun n => decide (key.relation = n)) = true ↔
      ∀ n, name = some n → key.relation = n := by
    cases name <;> simp
  rw [relationsBetween, List.mem_filter, OrderedMap.mem_keys_iff_contains, Bool.and_eq_true,
    Bool.and_eq_true, hname, decide_eq_true_eq, decide_eq_true_eq]
  constructor
  · rintro ⟨hknown, ⟨hsource, htarget⟩, hnamed⟩
    exact ⟨hknown, hsource, htarget, hnamed⟩
  · intro h
    exact ⟨h.known, ⟨h.source, h.target⟩, h.named⟩

theorem mem_candidates : b ∈ s.candidates name l r ↔
    b.leftType = l ∧ b.rightType = r ∧ s.Joins name b := by
  obtain ⟨l', r', key, reversed⟩ := b
  have hmem : (⟨l', r', key, reversed⟩ : RelationBinding) ∈ s.candidates name l r ↔
      l' = l ∧ r' = r ∧ key ∈ (s.joining name l r).1 ∧ reversed = (s.joining name l r).2 := by
    rw [candidates, List.mem_map]
    constructor
    · rintro ⟨key, hkey, heq⟩
      cases heq
      exact ⟨rfl, rfl, hkey, rfl⟩
    · rintro ⟨rfl, rfl, hkey, rfl⟩
      exact ⟨key, hkey, rfl⟩
  rw [hmem]
  refine and_congr_right fun hl => and_congr_right fun hr => ?_
  subst hl hr
  rw [joining]
  split
  · -- no relation leads from left to right
    rename_i hnone
    have hforward : ∀ key, ¬ s.Leads name l' r' key := by
      intro key hkey
      have hmem := mem_relationsBetween.2 hkey
      rw [List.isEmpty_iff.1 hnone] at hmem
      cases hmem
    rw [mem_relationsBetween]
    cases reversed with
    | true => exact ⟨fun h => ⟨hforward, h.1⟩, fun h => ⟨h.2, rfl⟩⟩
    | false => exact iff_of_false (fun h => nomatch h.2) (hforward key)
  · rename_i hsome
    obtain ⟨forward, hforward⟩ := List.exists_mem_of_ne_nil _ (mt List.isEmpty_iff.2 hsome)
    rw [mem_relationsBetween]
    cases reversed with
    | false => exact ⟨And.left, fun h => ⟨h, rfl⟩⟩
    | true =>
        exact iff_of_false (fun h => nomatch h.2)
          fun h => h.1 forward (mem_relationsBetween.1 hforward)

theorem nodup_candidates (s : Snapshot) (name : Option String) (l r : String) :
    (s.candidates name l r).Nodup := by
  have hjoining : (s.joining name l r).1.Nodup := by
    rw [joining]
    split <;> exact s.relations.nodup_keys.filter _
  refine hjoining.map fun a b h => ?_
  exact congrArg RelationBinding.key h

theorem binding?_of_le_one (h : (s.candidates name l r).length ≤ 1) :
    s.binding? name l r = .ok (s.candidates name l r).head? := by
  rw [candidates, List.length_map] at h
  rw [binding?, candidates]
  rcases hj : s.joining name l r with ⟨keys, reversed⟩
  rw [hj] at h
  match keys with
  | [] => rfl
  | [key] => rfl
  | key :: key' :: keys => simp at h

theorem binding?_of_one_lt (h : 1 < (s.candidates name l r).length) :
    s.binding? name l r =
      .error (.ambiguousRelation l r ((s.candidates name l r).map (·.key.relation))) := by
  rw [candidates, List.length_map] at h
  rw [binding?, candidates, List.map_map]
  rcases hj : s.joining name l r with ⟨keys, reversed⟩
  rw [hj] at h
  match keys with
  | [] => simp at h
  | [key] => simp at h
  | key :: key' :: keys => rfl

/-! ## Pairs of types -/

theorem mem_possible {types : TypeSet} {n : String} :
    n ∈ s.possible types ↔ s.StandsFor types n := by
  rw [possible, StandsFor]
  split
  · exact OrderedMap.mem_keys_iff_contains _ _
  · exact Iff.rfl

theorem nodup_possible (s : Snapshot) (types : TypeSet) : (s.possible types).Nodup := by
  rw [possible]
  split
  · exact s.types.nodup_keys
  · exact types.nodup_names

/-- The pairs of types of an arrow between two sets of types. -/
def pairs (s : Snapshot) (left right : TypeSet) : List (String × String) :=
  (s.possible left).flatMap fun l => (s.possible right).map fun r => (l, r)

variable {left right : TypeSet}

theorem mem_pairs {p : String × String} :
    p ∈ s.pairs left right ↔ s.StandsFor left p.1 ∧ s.StandsFor right p.2 := by
  rw [pairs, List.mem_flatMap, ← mem_possible, ← mem_possible]
  constructor
  · rintro ⟨l, hl, hp⟩
    obtain ⟨r, hr, rfl⟩ := List.mem_map.1 hp
    exact ⟨hl, hr⟩
  · rintro ⟨hl, hr⟩
    exact ⟨p.1, hl, List.mem_map.2 ⟨p.2, hr, rfl⟩⟩

theorem nodup_pairs (s : Snapshot) (left right : TypeSet) : (s.pairs left right).Nodup := by
  refine List.nodup_flatMap.2 ⟨fun l _ => ?_,
    (s.nodup_possible left).imp fun {l l'} hne p hp hp' => ?_⟩
  · exact (s.nodup_possible right).map fun r r' h => congrArg Prod.snd h
  · obtain ⟨r, -, rfl⟩ := List.mem_map.1 hp
    obtain ⟨r', -, h⟩ := List.mem_map.1 hp'
    exact hne (congrArg Prod.fst h).symm

theorem connects_iff :
    s.Connects name left right b ↔
      ∃ p ∈ s.pairs left right, b ∈ s.candidates name p.1 p.2 := by
  constructor
  · intro h
    exact ⟨(b.leftType, b.rightType), mem_pairs.2 ⟨h.left, h.right⟩,
      mem_candidates.2 ⟨rfl, rfl, h.joins⟩⟩
  · rintro ⟨p, hp, hb⟩
    obtain ⟨hl, hr, hjoins⟩ := mem_candidates.1 hb
    obtain ⟨hleft, hright⟩ := mem_pairs.1 hp
    exact ⟨hl ▸ hleft, hr ▸ hright, hjoins⟩

theorem ambiguous_iff :
    s.Ambiguous name left right ↔
      ∃ p ∈ s.pairs left right, 1 < (s.candidates name p.1 p.2).length := by
  constructor
  · rintro ⟨b, b', h, h', hl, hr, hne⟩
    refine ⟨(b.leftType, b.rightType), mem_pairs.2 ⟨h.left, h.right⟩, ?_⟩
    have hb : b ∈ s.candidates name b.leftType b.rightType := mem_candidates.2 ⟨rfl, rfl, h.joins⟩
    have hb' : b' ∈ s.candidates name b.leftType b.rightType :=
      mem_candidates.2 ⟨hl.symm, hr.symm, h'.joins⟩
    exact (one_lt_length_iff (s.nodup_candidates name _ _)).2 ⟨b, hb, b', hb', hne⟩
  · rintro ⟨p, hp, hlen⟩
    obtain ⟨b, hb, b', hb', hne⟩ := (one_lt_length_iff (s.nodup_candidates name _ _)).1 hlen
    obtain ⟨hl, hr, -⟩ := mem_candidates.1 hb
    obtain ⟨hl', hr', -⟩ := mem_candidates.1 hb'
    exact ⟨b, b', connects_iff.2 ⟨p, hp, hb⟩, connects_iff.2 ⟨p, hp, hb'⟩, hl.trans hl'.symm,
      hr.trans hr'.symm, hne⟩

/-- Two types and a name identify a relation. -/
theorem Leads.unique {n : String} {key key' : RelationKey} (h : s.Leads (some n) l r key)
    (h' : s.Leads (some n) l r key') : key = key' := by
  obtain ⟨source, relation, target⟩ := key
  obtain ⟨source', relation', target'⟩ := key'
  have hsource : source = source' := h.source.trans h'.source.symm
  have htarget : target = target' := h.target.trans h'.target.symm
  have hrelation : relation = relation' := (h.named n rfl).trans (h'.named n rfl).symm
  rw [hsource, htarget, hrelation]

theorem not_ambiguous_of_name (s : Snapshot) (n : String) (left right : TypeSet) :
    ¬ s.Ambiguous (some n) left right := by
  rintro ⟨⟨l, r, key, reversed⟩, ⟨l', r', key', reversed'⟩, h, h', hl, hr, hne⟩
  cases hl
  cases hr
  -- a relation that leads forward rules out those that lead back
  match reversed, reversed' with
  | false, false =>
      exact hne (congrArg (RelationBinding.mk l r · false) (Leads.unique h.joins h'.joins))
  | true, true =>
      exact hne (congrArg (RelationBinding.mk l r · true) (Leads.unique h.joins.2 h'.joins.2))
  | false, true => exact h'.joins.1 key h.joins
  | true, false => exact h.joins.1 key' h'.joins

/-! ## What is found -/

theorem bindings_of_ambiguous (h : s.Ambiguous name left right) :
    ∃ l r names, s.bindings name left right = .error (.ambiguousRelation l r names) := by
  obtain ⟨p, hp, hlen⟩ := ambiguous_iff.1 h
  have hends : ∀ q ∈ s.pairs left right,
      Ends (fun e => ∃ l r names, e = .ambiguousRelation l r names) (fun _ => True)
        (s.binding? name q.1 q.2) := by
    intro q _
    by_cases hone : (s.candidates name q.1 q.2).length ≤ 1
    · rw [binding?_of_le_one hone]
      exact trivial
    · rw [binding?_of_one_lt (by omega)]
      exact ⟨_, _, _, rfl⟩
  have hfails : ∀ found, s.binding? name p.1 p.2 ≠ .ok found := by
    intro found hfound
    rw [binding?_of_one_lt hlen] at hfound
    cases hfound
  obtain ⟨e, he, l, r, names, rfl⟩ := Ends.mapM_error hends hp hfails
  refine ⟨l, r, names, ?_⟩
  show (s.pairs left right).mapM (fun q => s.binding? name q.1 q.2) >>= _ = _
  rw [he]
  rfl

/-- The candidates for the pairs of types of an arrow. -/
def connections (s : Snapshot) (name : Option String) (left right : TypeSet) :
    List RelationBinding :=
  (s.pairs left right).flatMap fun p => s.candidates name p.1 p.2

theorem mem_connections : b ∈ s.connections name left right ↔ s.Connects name left right b :=
  List.mem_flatMap.trans connects_iff.symm

theorem bindings_of_not_ambiguous (h : ¬ s.Ambiguous name left right) :
    s.bindings name left right =
      match s.connections name left right with
      | [] => .error (.unknownRelation ("|".intercalate (s.possible left)) name
          ("|".intercalate (s.possible right)))
      | bindings => .ok bindings := by
  have hone : ∀ p ∈ s.pairs left right, (s.candidates name p.1 p.2).length ≤ 1 := by
    intro p hp
    by_contra hlen
    exact h (ambiguous_iff.2 ⟨p, hp, by omega⟩)
  have hfound : (s.pairs left right).mapM (fun p => s.binding? name p.1 p.2) =
      .ok ((s.pairs left right).map fun p => (s.candidates name p.1 p.2).head?) :=
    mapM_of_ok fun p hp => binding?_of_le_one (hone p hp)
  have hall : ((s.pairs left right).map fun p => (s.candidates name p.1 p.2).head?).filterMap id =
      s.connections name left right := by
    rw [List.filterMap_map, List.filterMap_eq_flatMap_toList, connections]
    exact List.flatMap_congr fun p hp => toList_head? (hone p hp)
  show (s.pairs left right).mapM (fun p => s.binding? name p.1 p.2) >>= _ = _
  rw [hfound, ← hall]
  rfl

theorem nodup_connected (h : ¬ s.Ambiguous name left right) :
    ((s.connections name left right).map fun b => (b.leftType, b.rightType)).Nodup := by
  have hnodup : (s.connections name left right).Nodup := by
    refine List.nodup_flatMap.2 ⟨fun p _ => s.nodup_candidates name p.1 p.2,
      (s.nodup_pairs left right).imp fun {p q} hne b hb hb' => hne ?_⟩
    obtain ⟨hl, hr, -⟩ := mem_candidates.1 hb
    obtain ⟨hl', hr', -⟩ := mem_candidates.1 hb'
    exact Prod.ext (hl.symm.trans hl') (hr.symm.trans hr')
  refine hnodup.map_on fun b hb b' hb' heq => ?_
  by_contra hne
  exact h ⟨b, b', mem_connections.1 hb, mem_connections.1 hb', congrArg Prod.fst heq,
    congrArg Prod.snd heq, hne⟩

/-- There are three outcomes: an ambiguity, no candidate, or the candidates. -/
theorem bindings_cases (s : Snapshot) (name : Option String) (left right : TypeSet) :
    (s.Ambiguous name left right ∧
        ∃ l r names, s.bindings name left right = .error (.ambiguousRelation l r names)) ∨
      (¬ s.Ambiguous name left right ∧ s.connections name left right = [] ∧
        ∃ l r, s.bindings name left right = .error (.unknownRelation l name r)) ∨
      (¬ s.Ambiguous name left right ∧ s.connections name left right ≠ [] ∧
        s.bindings name left right = .ok (s.connections name left right)) := by
  by_cases h : s.Ambiguous name left right
  · exact .inl ⟨h, bindings_of_ambiguous h⟩
  · refine .inr ?_
    rw [bindings_of_not_ambiguous h]
    cases s.connections name left right with
    | nil => exact .inl ⟨h, rfl, _, _, rfl⟩
    | cons b bs => exact .inr ⟨h, List.cons_ne_nil b bs, rfl⟩

/-- Relations are found exactly and with their direction.  More than one candidate for some pair of
types is an ambiguity, no candidate at all an unknown relation, and otherwise what is found are the
candidates, one for each pair that has one.  With a name no pair is ambiguous. -/
theorem bindings_exact (s : Snapshot) (name : Option String) (left right : TypeSet) :
    ((∃ l r names, s.bindings name left right = .error (.ambiguousRelation l r names)) ↔
        s.Ambiguous name left right) ∧
      ((∃ l r, s.bindings name left right = .error (.unknownRelation l name r)) ↔
        ¬ s.Ambiguous name left right ∧ ∀ b, ¬ s.Connects name left right b) ∧
      ((∃ bs, s.bindings name left right = .ok bs) ↔
        ¬ s.Ambiguous name left right ∧ ∃ b, s.Connects name left right b) ∧
      (∀ bs, s.bindings name left right = .ok bs →
        (∀ b, b ∈ bs ↔ s.Connects name left right b) ∧
          (bs.map fun b => (b.leftType, b.rightType)).Nodup) ∧
      ∀ n, name = some n →
        ∀ l r names, s.bindings name left right ≠ .error (.ambiguousRelation l r names) := by
  have hsome : s.connections name left right ≠ [] ↔ ∃ b, s.Connects name left right b := by
    constructor
    · exact fun h => (List.exists_mem_of_ne_nil _ h).imp fun _ => mem_connections.1
    · exact fun ⟨b, hb⟩ => List.ne_nil_of_mem (mem_connections.2 hb)
  obtain ⟨h, l, r, names, hresult⟩ | ⟨h, hnil, l, r, hresult⟩ | ⟨h, hne, hresult⟩ :=
    s.bindings_cases name left right
  · rw [hresult]
    refine ⟨iff_of_true ⟨l, r, names, rfl⟩ h,
      iff_of_false (fun ⟨_, _, herror⟩ => nomatch herror) fun hnot => hnot.1 h,
      iff_of_false (fun ⟨_, hok⟩ => nomatch hok) fun hnot => hnot.1 h, nofun, ?_⟩
    intro n hn
    rw [hn] at h
    exact absurd h (s.not_ambiguous_of_name n left right)
  · rw [hresult]
    have hnone : ¬ ∃ b, s.Connects name left right b := fun hb => hsome.2 hb hnil
    exact ⟨iff_of_false (fun ⟨_, _, _, herror⟩ => nomatch herror) h,
      iff_of_true ⟨l, r, rfl⟩ ⟨h, not_exists.1 hnone⟩,
      iff_of_false (fun ⟨_, hok⟩ => nomatch hok) fun hb => hnone hb.2, nofun, nofun⟩
  · rw [hresult]
    obtain ⟨b, hb⟩ := hsome.1 hne
    refine ⟨iff_of_false (fun ⟨_, _, _, herror⟩ => nomatch herror) h,
      iff_of_false (fun ⟨_, _, herror⟩ => nomatch herror) fun hnone => hnone.2 b hb,
      iff_of_true ⟨_, rfl⟩ ⟨h, b, hb⟩, ?_, nofun⟩
    intro bs hbs
    cases hbs
    exact ⟨fun _ => mem_connections, nodup_connected h⟩

end Snapshot

end VectorQuery
