/-
# Members and scores kept apart

A scored set may be kept as a set of members beside a table of scores, each of which every operation
has to update; a score that the table lacks reads as zero.  `ScoreTable` states the operations on
that form, and `Assembly` the ways in which a set comes about.

Main statement: however a set comes about, its table has a score for each member and for nothing
else, and the two together hold the scored set that the same operations make (`Assembly.holds`).  So
no operation lets the two drift apart, and the zero is never read.
-/
import Mathlib.Data.Finset.Sort
import VectorQuery.Proofs.ScoredSet

namespace VectorQuery

/-- A set of entities beside a table of scores. -/
structure ScoreTable (σ : Type) where
  members : Finset Nat
  scores : OrderedMap Nat σ

namespace ScoreTable

variable {σ : Type}

/-- The score that the table has for an entity. -/
def score? (t : ScoreTable σ) (ordinal : Nat) : Option σ := t.scores.get? ordinal

/-- No members and no scores. -/
def empty : ScoreTable σ := ⟨∅, .empty⟩

/-- Members with one score for all. -/
def uniform (members : Finset Nat) (score : σ) : ScoreTable σ :=
  ⟨members, .ofList (members.sort.map (·, score))⟩

/-- Takes out, one after the other from both, the members that `keep` rejects. -/
def retain (keep : Nat → Bool) (t : ScoreTable σ) : ScoreTable σ :=
  let dropped := t.members.filter fun o => !keep o
  ⟨t.members \ dropped, t.scores.filter fun o _ => decide (o ∉ dropped)⟩

section

variable [Quantity σ]

/-- The members in ascending order with their scores; zero where the table has none. -/
def iter (t : ScoreTable σ) : List (Hit σ) :=
  t.members.sort.map fun o => ⟨o, (t.score? o).getD Quantity.zero⟩

/-- Puts in a member; the greater of two scores counts. -/
def insert (t : ScoreTable σ) (ordinal : Nat) (score : σ) : ScoreTable σ :=
  ⟨Insert.insert ordinal t.members, t.scores.alter ordinal fun
    | some known => Quantity.greater known score
    | none => score⟩

/-- Puts in hit after hit. -/
def extend (t : ScoreTable σ) (hits : List (Hit σ)) : ScoreTable σ :=
  hits.foldl (fun t h => t.insert h.ordinal h.score) t

/-- The common members, each with the lesser score; zero for a score that a table lacks. -/
def and (t u : ScoreTable σ) : ScoreTable σ :=
  let members := t.members ∩ u.members
  ⟨members, .ofList (members.sort.map fun o =>
    (o, Quantity.lesser ((t.score? o).getD Quantity.zero) ((u.score? o).getD Quantity.zero)))⟩

/-- One set extended by the other. -/
def or (t u : ScoreTable σ) : ScoreTable σ := t.extend u.iter

/-- The rest of a universe, each with the score one. -/
def complement (t : ScoreTable σ) (members : Finset Nat) : ScoreTable σ :=
  uniform (members \ t.members) Quantity.one

/-- The `k` members ranked first. -/
def top (t : ScoreTable σ) (k : Nat) : ScoreTable σ :=
  empty.extend ((Hit.ranked t.iter).take k)

end

/-! ## The scored set that a table holds -/

/-- Members and table are those of a scored set. -/
structure Holds (t : ScoreTable σ) (s : ScoredSet σ) : Prop where
  members : t.members = s.members.toFinset
  scores : t.scores = s.scores

namespace Holds

variable {t u : ScoreTable σ} {s r : ScoredSet σ}

theorem score?_eq (h : t.Holds s) (o : Nat) : t.score? o = s.score? o := by
  rw [score?, h.scores, ScoredSet.score?]

theorem mem_iff (h : t.Holds s) (o : Nat) : o ∈ t.members ↔ o ∈ s.members := by
  rw [h.members, List.mem_toFinset]

theorem keys (h : t.Holds s) : t.scores.keys.toFinset = t.members := by
  rw [h.members, h.scores]
  rfl

/-- Tables with the members and the scores of a set hold it. -/
theorem of_score? (hmembers : ∀ o, o ∈ t.members ↔ o ∈ s.members)
    (hscores : ∀ o, t.score? o = s.score? o) : t.Holds s where
  members := Finset.ext fun o => (hmembers o).trans List.mem_toFinset.symm
  scores := OrderedMap.ext_get? hscores

theorem empty : (ScoreTable.empty : ScoreTable σ).Holds .empty := ⟨rfl, rfl⟩

theorem uniform (members : List Nat) (v : σ) :
    (ScoreTable.uniform members.toFinset v).Holds (ScoredSet.uniform members v) := by
  refine of_score? (fun o => ?_) fun o => ?_
  · rw [ScoredSet.mem_members_uniform]
    exact List.mem_toFinset
  · refine (OrderedMap.get?_ofList_map members.toFinset.sort (fun _ => v) o).trans ?_
    rw [ScoredSet.score?_uniform]
    simp only [Finset.mem_sort, List.mem_toFinset]

theorem retain (h : t.Holds s) (keep : Nat → Bool) : (t.retain keep).Holds (s.retain keep) := by
  refine of_score? (fun o => ?_) fun o => ?_
  · rw [ScoredSet.mem_members_retain, ScoreTable.retain, Finset.mem_sdiff, Finset.mem_filter,
      h.mem_iff]
    cases keep o <;> simp
  · have hfilter : (t.retain keep).score? o =
        (t.score? o).filter fun _ => decide (o ∉ t.members.filter fun o => !keep o) :=
      OrderedMap.get?_filter ..
    rw [hfilter, h.score?_eq, ScoredSet.score?_retain]
    cases hscore : s.score? o with
    | none => simp
    | some v =>
        have hmem : o ∈ t.members := (h.mem_iff o).2 ((s.mem_members o).2 ⟨v, hscore⟩)
        cases hkeep : keep o <;> simp [hmem, hkeep]

variable [Quantity σ]

theorem iter (h : t.Holds s) : t.iter = s.toList := by
  have hascending : s.members.Pairwise (· ≤ ·) :=
    List.pairwise_map.2 (s.scores.ascending.imp fun hlt => (Nat.compare_eq_lt.1 hlt).le)
  have hsort : t.members.sort = s.members := by
    rw [h.members]
    exact (List.toFinset_sort _ s.nodup_members).2 hascending
  unfold ScoreTable.iter ScoredSet.toList
  rw [hsort, ScoredSet.members, OrderedMap.keys, List.map_map]
  refine List.map_congr_left fun e he => ?_
  have hscore : s.score? e.1 = some e.2 := (OrderedMap.get?_eq_some_iff _ _ _).2 he
  rw [Function.comp_apply, h.score?_eq, hscore]
  rfl

theorem insert (h : t.Holds s) (o : Nat) (v : σ) : (t.insert o v).Holds (s.insert o v) where
  members := by
    ext k
    rw [List.mem_toFinset, ScoredSet.mem_members_insert, ScoreTable.insert, Finset.mem_insert,
      h.mem_iff]
  scores := congrArg (OrderedMap.alter · o _) h.scores

theorem extend (h : t.Holds s) (hits : List (Hit σ)) :
    (t.extend hits).Holds (hits.foldl (fun s h => s.insert h.ordinal h.score) s) := by
  unfold ScoreTable.extend
  induction hits generalizing t s with
  | nil => exact h
  | cons hit hits ih => exact ih (h.insert hit.ordinal hit.score)

theorem and (h : t.Holds s) (h' : u.Holds r) : (t.and u).Holds (s.and r) := by
  have hmembers (o : Nat) : o ∈ t.members ∩ u.members ↔ o ∈ (s.and r).members := by
    rw [Finset.mem_inter, h.mem_iff, h'.mem_iff, ScoredSet.mem_members_and]
  refine of_score? hmembers fun o => ?_
  refine (OrderedMap.get?_ofList_map (t.members ∩ u.members).sort (fun o => Quantity.lesser
    ((t.score? o).getD Quantity.zero) ((u.score? o).getD Quantity.zero)) o).trans ?_
  simp only [Finset.mem_sort, hmembers, ScoredSet.mem_members, ← Option.isSome_iff_exists,
    h.score?_eq, h'.score?_eq, ScoredSet.score?_and]
  cases s.score? o <;> cases r.score? o <;> simp

theorem or (h : t.Holds s) (h' : u.Holds r) : (t.or u).Holds (s.or r) := by
  unfold ScoreTable.or
  rw [h'.iter]
  exact h.extend r.toList

theorem complement (h : t.Holds s) (members : List Nat) :
    (t.complement members.toFinset).Holds (s.complement members) := by
  have hrest : members.toFinset \ t.members =
      (members.filter fun o => !s.contains o).toFinset := by
    ext o
    rw [Finset.mem_sdiff, h.mem_iff, List.mem_toFinset, List.mem_toFinset,
      ← ScoredSet.mem_members_complement, ScoredSet.complement, ScoredSet.mem_members_uniform]
  unfold ScoreTable.complement ScoredSet.complement
  rw [hrest]
  exact uniform _ _

theorem top (h : t.Holds s) (k : Nat) : (t.top k).Holds (s.top k) := by
  unfold ScoreTable.top
  rw [h.iter]
  exact empty.extend (s.ranked.take k)

end Holds

end ScoreTable

/-! ## How a set comes about -/

/-- The ways in which a scored set comes about. -/
inductive Assembly (σ : Type) where
  | empty
  | uniform (members : List Nat) (score : σ)
  | insert (a : Assembly σ) (ordinal : Nat) (score : σ)
  | ofList (hits : List (Hit σ))
  | and (a b : Assembly σ)
  | or (a b : Assembly σ)
  | complement (a : Assembly σ) (members : List Nat)
  | retain (keep : Nat → Bool) (a : Assembly σ)
  | top (a : Assembly σ) (k : Nat)

namespace Assembly

variable {σ : Type} [Quantity σ]

/-- The scored set that comes about. -/
def set : Assembly σ → ScoredSet σ
  | empty => .empty
  | uniform members score => .uniform members score
  | insert a ordinal score => a.set.insert ordinal score
  | ofList hits => .ofList hits
  | and a b => a.set.and b.set
  | or a b => a.set.or b.set
  | complement a members => a.set.complement members
  | retain keep a => a.set.retain keep
  | top a k => a.set.top k

/-- The members and the table of scores that come about. -/
def table : Assembly σ → ScoreTable σ
  | empty => .empty
  | uniform members score => .uniform members.toFinset score
  | insert a ordinal score => a.table.insert ordinal score
  | ofList hits => ScoreTable.empty.extend hits
  | and a b => a.table.and b.table
  | or a b => a.table.or b.table
  | complement a members => a.table.complement members.toFinset
  | retain keep a => a.table.retain keep
  | top a k => a.table.top k

/-- However a set comes about, members and table hold it. -/
theorem holds (a : Assembly σ) : a.table.Holds a.set := by
  induction a with
  | empty => exact .empty
  | uniform members score => exact .uniform members score
  | insert a ordinal score ih => exact ih.insert ordinal score
  | ofList hits => exact ScoreTable.Holds.empty.extend hits
  | and a b iha ihb => exact iha.and ihb
  | or a b iha ihb => exact iha.or ihb
  | complement a members ih => exact ih.complement members
  | retain keep a ih => exact ih.retain keep
  | top a k ih => exact ih.top k

end Assembly

end VectorQuery
