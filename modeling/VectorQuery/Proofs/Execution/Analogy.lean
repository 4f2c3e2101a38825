/-
# Analogies

An analogy looks for as many entities as it was asked for and three more, drops the best entity of
each operand and cuts the rest.  An operand takes at most one place in the longer list, wherever it
stands there and whether it is of the target type at all, so the three more are enough
(`take_filter_take`): what is left is what one would find among the other entities alone
(`Executor.analogy_nearest`).
-/
import VectorQuery.Proofs.Execution.Safety
import VectorQuery.Proofs.Execution.Search

namespace VectorQuery

/-! ## Places that are given up -/

section

variable {α : Type} {l : List α} {p : α → Bool} {k n : Nat}

/-- If at most `n` of the first `k + n` are dropped, then `k` of those that are kept can be taken
from the first `k + n` as well as from all. -/
theorem take_filter_take (h : ((l.take (k + n)).filter fun a => !p a).length ≤ n) :
    ((l.take (k + n)).filter p).take k = (l.filter p).take k := by
  have hsplit : l.filter p = (l.take (k + n)).filter p ++ (l.drop (k + n)).filter p := by
    rw [← List.filter_append, List.take_append_drop]
  rcases Nat.lt_or_ge l.length (k + n) with hshort | hlong
  · rw [List.take_of_length_le hshort.le]
  · have hcount : ((l.take (k + n)).filter p).length +
        ((l.take (k + n)).filter fun a => !p a).length = k + n := by
      rw [← List.length_eq_length_filter_add, List.length_take_of_le hlong]
    have hkept : k ≤ ((l.take (k + n)).filter p).length := by omega
    rw [hsplit, List.take_append_of_le_length hkept]

end

/-- Hits of different entities that have their ordinals in a list are at most as many. -/
theorem length_filter_ordinals_le {hits : List (Hit Single)}
    (hdistinct : (hits.map Hit.ordinal).Nodup) (given : List Nat) :
    (hits.filter fun h => given.contains h.ordinal).length ≤ given.length := by
  have hnodup : ((hits.filter fun h => given.contains h.ordinal).map Hit.ordinal).Nodup :=
    hdistinct.sublist (List.filter_sublist.map Hit.ordinal)
  have hsubset : (hits.filter fun h => given.contains h.ordinal).map Hit.ordinal ⊆ given := by
    intro o ho
    obtain ⟨h, hh, rfl⟩ := List.mem_map.1 ho
    exact List.contains_iff_mem.1 (List.mem_filter.1 hh).2
  calc (hits.filter fun h => given.contains h.ordinal).length
      = ((hits.filter fun h => given.contains h.ordinal).map Hit.ordinal).length :=
        (List.length_map _).symm
    _ ≤ given.length := (List.subperm_of_subset hnodup hsubset).length_le

/-! ## The best of an operand -/

namespace ScoredSet

/-- The entity of the set is ranked before all others of the set. -/
structure Leads (s : ScoredSet Single) (h : Hit Single) : Prop where
  mem : h ∈ s.toList
  before : ∀ h' ∈ s.toList, h' ≠ h → h.Before h'

variable {s : ScoredSet Single}

theorem leads_of_best? {h : Hit Single} (hbest : s.best? = some h) : s.Leads h := by
  have hperm := Hit.ranked_perm s.toList
  have hsorted := Hit.pairwise_ranked s.toList
  obtain ⟨rest, hranked⟩ := List.head?_eq_some_iff.1 hbest
  rw [ranked] at hranked
  rw [hranked] at hperm hsorted
  refine ⟨hperm.subset List.mem_cons_self, fun h' hh' hne => ?_⟩
  exact (List.pairwise_cons.1 hsorted).1 h' (List.mem_of_ne_of_mem hne (hperm.symm.subset hh'))

theorem exists_best? (h : s.isEmpty = false) : ∃ h, s.best? = some h := by
  cases hbest : s.best? with
  | some h => exact ⟨h, rfl⟩
  | none =>
      have hnil : s.toList = [] := rankedBy_eq_nil_iff.1 (List.head?_eq_none_iff.1 hbest)
      have hempty : s.isEmpty = true := by
        rw [isEmpty_iff, ← map_ordinal_toList, hnil, List.map_nil]
      rw [hempty] at h
      cases h

end ScoredSet

namespace Snapshot

variable {s : Snapshot} {query : Embedding} {h : Hit Single}

theorem hit?_eq_some_iff_of_unbounded :
    s.hit? query none h.ordinal = some h ↔
      ∃ e, s.entity? h.ordinal = some e ∧ query.cosine? e.dense = some h.score := by
  rw [hit?, Option.bind_eq_bind, Option.bind_eq_some_iff]
  refine exists_congr fun e => and_congr_right fun _ => ?_
  rw [Option.bind_eq_bind, Option.bind_eq_some_iff]
  constructor
  · rintro ⟨similarity, hcosine, hhit⟩
    rw [← congrArg Hit.score (Option.some.inj hhit)]
    exact hcosine
  · exact fun hcosine => ⟨h.score, hcosine, rfl⟩

/-- The hit is of an entity of the type, one of positive norm that is not among the given ones. -/
structure Other (s : Snapshot) (query : Embedding) (t : String) (given : List Nat)
    (h : Hit Single) (e : Entity Double) : Prop where
  entity : s.entity? h.ordinal = some e
  type : e.entityType = t
  norm_pos : 0 < e.dense.norm
  similarity : query.cosine? e.dense = some h.score
  other : h.ordinal ∉ given

/-- The entities of the type that are not among the given ones, ranked. -/
def others (s : Snapshot) (query : Embedding) (t : String) (given : List Nat) :
    List (Hit Single) :=
  (Hit.ranked ((s.members t).filterMap (s.hit? query none))).filter fun h =>
    !given.contains h.ordinal

variable {t : String} {given : List Nat}

theorem mem_others (hs : s.Made) : h ∈ s.others query t given ↔ ∃ e, s.Other query t given h e := by
  have hgiven : (!given.contains h.ordinal) = true ↔ h.ordinal ∉ given := by
    rw [Bool.not_eq_true', ← Bool.not_eq_true, List.contains_iff_mem]
  rw [others, List.mem_filter, hgiven, (hitsOf_filterMap _).ranked h, mem_members_iff hs,
    hit?_eq_some_iff_of_unbounded]
  constructor
  · rintro ⟨⟨⟨e, he, rfl⟩, e', he', hcosine⟩, hother⟩
    cases he.symm.trans he'
    exact ⟨e, he, rfl, Embedding.norm_pos_of_cosine? hcosine, hcosine, hother⟩
  · rintro ⟨e, hh⟩
    exact ⟨⟨⟨e, hh.entity, hh.type⟩, e, hh.entity, hh.similarity⟩, hh.other⟩

theorem nodup_ranked_members (hs : s.Made) (query : Embedding) (t : String) :
    ((Hit.ranked ((s.members t).filterMap (s.hit? query none))).map Hit.ordinal).Nodup :=
  ((Hit.ranked_perm _).map Hit.ordinal).nodup_iff.2 (nodup_hits (hs.nodup_members t))

/-- The first of the others are found among as many more as there are given ones. -/
theorem take_others (hs : s.Made) (query : Embedding) (t : String) (given : List Nat) (k : Nat) :
    (((Hit.ranked ((s.members t).filterMap (s.hit? query none))).take
      (k + given.length)).filter fun h => !given.contains h.ordinal).take k =
      (s.others query t given).take k := by
  refine take_filter_take ?_
  simp only [Bool.not_not]
  exact length_filter_ordinals_le
    ((nodup_ranked_members hs query t).sublist ((List.take_sublist _ _).map Hit.ordinal)) given

end Snapshot

namespace Executor

open Snapshot

variable {x : Executor} {a b c : ScoredSet Single}

/-- What an operand stands for: the entity of the snapshot that is ranked first in it. -/
structure Operand (x : Executor) (s : ScoredSet Single) (h : Hit Single) (e : Entity Double) :
    Prop where
  best : s.best? = some h
  leads : s.Leads h
  entity : x.snapshot.entity? h.ordinal = some e

theorem exists_operand {s : ScoredSet Single} (hholds : x.snapshot.Holds s)
    (hs : s.isEmpty = false) : ∃ h e, x.Operand s h e := by
  obtain ⟨h, hbest⟩ := ScoredSet.exists_best? hs
  have hlt : h.ordinal < x.snapshot.size := hholds _ (ScoredSet.mem_of_best? hbest)
  obtain ⟨e, he⟩ : ∃ e, x.snapshot.entity? h.ordinal = some e :=
    ⟨_, Array.getElem?_eq_getElem hlt⟩
  exact ⟨h, e, hbest, ScoredSet.leads_of_best? hbest, he⟩

theorem vectorOf_of_entity? {o : Nat} {e : Entity Double} (h : x.snapshot.entity? o = some e) :
    x.vectorOf o = .ok e.dense := by
  rw [vectorOf, h]

/-- From what is predicted, an analogy takes the first of the entities that no operand stands
for. -/
theorem analogy_eq (hs : x.snapshot.Made) {p q r : Hit Single} {ep eq er : Entity Double}
    (hp : x.Operand a p ep) (hq : x.Operand b q eq) (hr : x.Operand c r er) (t : String)
    {topK : Nat} (htop : topK + 3 < 2 ^ 64)
    (hdim : (x.predict ep.dense eq.dense er.dense).length = x.snapshot.denseDim)
    (hpos : 0 < (x.predict ep.dense eq.dense er.dense).norm) :
    x.analogy t topK a b c = .ok (.ofSet (.ofList ((x.snapshot.others
      (x.predict ep.dense eq.dense er.dense) t ([p, q, r].map Hit.ordinal)).take topK))) := by
  have hcheck : x.snapshot.checkQuery (x.predict ep.dense eq.dense er.dense) = .ok () := by
    rw [checkQuery, if_neg (not_not.2 hdim), if_pos hpos]
  have hword : Number.word (topK + ([p, q, r].map Hit.ordinal).length) =
      topK + ([p, q, r].map Hit.ordinal).length := Number.word_of_lt htop
  rw [analogy, hp.best, hq.best, hr.best]
  show (x.vectorOf p.ordinal >>= fun vp => x.vectorOf q.ordinal >>= fun vq =>
    x.vectorOf r.ordinal >>= fun vr => _) = _
  rw [vectorOf_of_entity? hp.entity, vectorOf_of_entity? hq.entity, vectorOf_of_entity? hr.entity]
  show (if 0 < (x.predict ep.dense eq.dense er.dense).norm then _ else _) = _
  rw [if_pos hpos, hword, nearest_of_checkQuery hcheck, ← take_others hs]
  rfl

/-- **Analogies.** Each operand that is not empty stands for the entity ranked first in it.  If what
these predict can be searched for, then the analogy finds, of the other entities of the target type
and of positive norm, those that come first by descending similarity and ascending ordinal, as many
as it was asked for unless there are fewer. -/
theorem analogy_nearest (hs : x.snapshot.Made) (ha : x.snapshot.Holds a) (hb : x.snapshot.Holds b)
    (hc : x.snapshot.Holds c) (hane : a.isEmpty = false) (hbne : b.isEmpty = false)
    (hcne : c.isEmpty = false) (t : String) {topK : Nat} (htop : topK + 3 < 2 ^ 64) :
    ∃ (p q r : Hit Single) (ep eq er : Entity Double),
      x.Operand a p ep ∧ x.Operand b q eq ∧ x.Operand c r er ∧
      let predicted := x.predict ep.dense eq.dense er.dense
      let given := [p, q, r].map Hit.ordinal
      predicted.length = x.snapshot.denseDim → 0 < predicted.norm →
        ∃ all : List (Hit Single),
          (∀ h, h ∈ all ↔ ∃ e, x.snapshot.Other predicted t given h e) ∧
          all.Pairwise Hit.Before ∧ (all.map Hit.ordinal).Nodup ∧
          x.analogy t topK a b c = .ok (.ofSet (.ofList (all.take topK))) ∧
          (ScoredSet.ofList (all.take topK)).toList.Perm (all.take topK) ∧
          (∀ o ∈ given, o ∉ (ScoredSet.ofList (all.take topK)).members) ∧
          (all.take topK).length = min topK all.length := by
  obtain ⟨p, ep, hp⟩ := exists_operand ha hane
  obtain ⟨q, eq, hq⟩ := exists_operand hb hbne
  obtain ⟨r, er, hr⟩ := exists_operand hc hcne
  refine ⟨p, q, r, ep, eq, er, hp, hq, hr, ?_⟩
  intro predicted given hdim hpos
  have hdistinct : ((x.snapshot.others predicted t given).map Hit.ordinal).Nodup :=
    (nodup_ranked_members hs predicted t).sublist (List.filter_sublist.map Hit.ordinal)
  refine ⟨x.snapshot.others predicted t given, fun h => mem_others hs,
    (Hit.pairwise_ranked _).sublist List.filter_sublist, hdistinct,
    analogy_eq hs hp hq hr t htop hdim hpos,
    ScoredSet.toList_ofList_perm (hdistinct.sublist ((List.take_sublist _ _).map _)), ?_,
    List.length_take⟩
  intro o ho hmem
  obtain ⟨h, hh, rfl⟩ := (ScoredSet.mem_members_ofList _ _).1 hmem
  obtain ⟨e, hother⟩ := (mem_others hs).1 (List.mem_of_mem_take hh)
  exact hother.other ho

/-- The one entity of a set is what the set stands for. -/
theorem Operand.eq_of_toList {s : ScoredSet Single} {h hit : Hit Single} {e : Entity Double}
    (hs : x.Operand s h e) (hlist : s.toList = [hit]) : h = hit := by
  have hmem := hs.leads.mem
  rw [hlist] at hmem
  exact List.mem_singleton.1 hmem

/-- Two operands are the same, and the third is itself a module: the other module is found. -/
theorem analogy_nearest_modules :
    let x : Executor := ⟨featuresAndModules, {}, NameMatch.byEdits 2, offsetAnalogy⟩
    let feature : ScoredSet Single := .uniform [0] 1
    let module : ScoredSet Single := .uniform [2] 1
    x.snapshot.Made ∧ x.snapshot.Holds feature ∧ x.snapshot.Holds module ∧
      feature.isEmpty = false ∧ module.isEmpty = false ∧ 1 + 3 < 2 ^ 64 ∧
      x.analogy "module" 1 feature feature module = .ok (.ofSet (.ofList [⟨3, 0⟩])) := by
  intro x feature module
  have hmade : x.snapshot.Made := by
    dsimp only [x]
    exact made_featuresAndModules
  have hsize : x.snapshot.size = 4 := by decide +kernel
  have hfeature : x.snapshot.Holds feature := by
    intro o ho
    rw [List.mem_singleton.1 ((ScoredSet.mem_members_uniform [0] 1 o).1 ho), hsize]
    decide
  have hmodule : x.snapshot.Holds module := by
    intro o ho
    rw [List.mem_singleton.1 ((ScoredSet.mem_members_uniform [2] 1 o).1 ho), hsize]
    decide
  have htop : 1 + 3 < 2 ^ 64 := by decide
  obtain ⟨p, q, r, ep, eq, er, hp, hq, hr, hfound⟩ := analogy_nearest (x := x) (a := feature)
    (b := feature) (c := module) hmade hfeature hfeature hmodule rfl rfl rfl "module" htop
  obtain rfl : p = ⟨0, 1⟩ := hp.eq_of_toList rfl
  obtain rfl : q = ⟨0, 1⟩ := hq.eq_of_toList rfl
  obtain rfl : r = ⟨2, 1⟩ := hr.eq_of_toList rfl
  have hdense (o : Nat) (e : Entity Double) (ho : o = 0 ∨ o = 2)
      (he : x.snapshot.entity? o = some e) : e.dense = [1, 0] := by
    have hstored : (x.snapshot.entity? o).map (·.dense) = some [1, 0] := by
      rcases ho with rfl | rfl <;> decide +kernel
    rw [he] at hstored
    exact Option.some.inj hstored
  have hpredicted : x.predict ep.dense eq.dense er.dense = [1, 0] := by
    rw [hdense 0 ep (.inl rfl) hp.entity, hdense 0 eq (.inl rfl) hq.entity,
      hdense 2 er (.inr rfl) hr.entity]
    decide +kernel
  rw [hpredicted] at hfound
  obtain ⟨all, hall, -, hdistinct, hanalogy, -⟩ := hfound (by decide +kernel) (by decide +kernel)
  have hothers : ((x.snapshot.members "module").filterMap (x.snapshot.hit? [1, 0] none)).filter
      (fun h => !([0, 0, 2] : List Nat).contains h.ordinal) = [⟨3, 0⟩] := by decide +kernel
  have hperm : all.Perm [⟨3, 0⟩] := by
    refine (List.perm_ext_iff_of_nodup (.of_map _ hdistinct) (by decide)).2 fun h => ?_
    rw [hall, ← mem_others hmade, others, List.mem_filter, (Hit.ranked_perm _).mem_iff, ← hothers,
      List.mem_filter]
    rfl
  rw [List.perm_singleton.1 hperm] at hanalogy
  exact ⟨hmade, hfeature, hmodule, rfl, rfl, htop, hanalogy⟩

example : (featuresAndModules.ordinals []).isEmpty = false := by
  decide +kernel

end Executor

end VectorQuery
