/-
# Conditions before or after an operation

A condition on the left side of an arrow, or on the candidates of a search without a limit, may be
applied before or after: each entity keeps or loses its score on its own.  An arrow whose left side
is restricted may even succeed where the other fails, for the entities left out may be the ones
that no prediction is possible for.  `Executor.relatingPredictable` leaves all of these out, so it
agrees with every restricted arrow that succeeds.
-/
import VectorQuery.Proofs.Failure
import VectorQuery.Proofs.Meaning.Basic
import VectorQuery.Proofs.Store.Snapshot

namespace VectorQuery

namespace RelationScores

variable {s : Snapshot} {left right : ScoredSet Single} {bindings : List RelationBinding}

/-- The operator predicts a vector of positive norm for the entity, if there is one. -/
def Predicts (s : Snapshot) (op : Operator) (o : Nat) : Prop :=
  ∀ e, s.entity? o = some e → 0 < (op.apply e).norm

/-- The entities that a binding predicts from, and those that it predicts. -/
def sides (s : Snapshot) (left right : ScoredSet Single) (b : RelationBinding) :
    List Nat × List Nat :=
  let lefts := ofType s left b.leftType
  let rights := ofType s right b.rightType
  if b.reversed then (rights, lefts) else (lefts, rights)

theorem sides_of_reversed {b : RelationBinding} (h : b.reversed = true) :
    sides s left right b = (ofType s right b.rightType, ofType s left b.leftType) :=
  if_pos h

theorem sides_of_forward {b : RelationBinding} (h : b.reversed = false) :
    sides s left right b = (ofType s left b.leftType, ofType s right b.rightType) :=
  if_neg (by simp [h])

/-- The relation of a binding is there, and predicts from each source. -/
def Admits (s : Snapshot) (left right : ScoredSet Single) (b : RelationBinding) : Prop :=
  ∃ op, s.relations.get? b.key = some op ∧ ∀ o ∈ (sides s left right b).1, Predicts s op o

/-- The score of one source with a target. -/
def score? (s : Snapshot) (op : Operator) (source : Entity Double) (o : Nat) :
    Option (Nat × Single) := do
  let target ← s.entity? o
  let score ← (op.apply source).cosine? (op.space.embedding target)
  some (o, score)

/-- The scores of one source with every target. -/
def scored (s : Snapshot) (op : Operator) (source : Entity Double) (targets : List Nat) :
    List (Nat × Single) :=
  targets.filterMap (score? s op source)

/-- The scores with those of one source, where no prediction fails. -/
def addSource (s : Snapshot) (b : RelationBinding) (op : Operator) (targets : List Nat)
    (r : RelationScores) (o : Nat) : RelationScores :=
  match s.entity? o with
  | none => r
  | some source =>
    (scored s op source targets).foldl (fun r (t, score) =>
      if b.reversed then r.record t o score else r.record o t score) r

/-- The scores with those of a binding, where no prediction fails. -/
def addAll (s : Snapshot) (left right : ScoredSet Single) (r : RelationScores)
    (b : RelationBinding) : RelationScores :=
  match s.relations.get? b.key with
  | none => r
  | some op =>
    (sides s left right b).1.foldl (addSource s b op (sides s left right b).2) r

theorem fromSource_of_pos {key : RelationKey} {op : Operator} {source : Entity Double}
    (h : 0 < (op.apply source).norm) (targets : List Nat) :
    fromSource s key op source targets = .ok (scored s op source targets) := by
  unfold fromSource
  dsimp only
  rw [if_pos h]
  rfl

theorem fromSource_of_not_pos {key : RelationKey} {op : Operator} {source : Entity Double}
    (h : ¬ 0 < (op.apply source).norm) (targets : List Nat) :
    fromSource s key op source targets = .error (.zeroRelated key source.key) := by
  unfold fromSource
  dsimp only
  rw [if_neg h]

/-- A fold succeeds if each of its elements is admitted, whatever came before. -/
theorem foldlM_eq_ok_iff {ε α β : Type} {f : β → α → Except ε β} {g : β → α → β} {P : α → Prop}
    (hf : ∀ b a b', f b a = .ok b' ↔ P a ∧ b' = g b a) (l : List α) (b b' : β) :
    l.foldlM f b = .ok b' ↔ (∀ a ∈ l, P a) ∧ b' = l.foldl g b := by
  induction l generalizing b with
  | nil =>
      constructor
      · rintro ⟨⟩
        exact ⟨nofun, rfl⟩
      · rintro ⟨-, rfl⟩
        rfl
  | cons a l ih =>
      rw [List.foldlM_cons, List.forall_mem_cons, List.foldl_cons]
      constructor
      · intro h
        obtain ⟨c, hc, hrest⟩ := ok_of_bind h
        obtain ⟨ha, rfl⟩ := (hf b a c).1 hc
        obtain ⟨hl, hb'⟩ := (ih _).1 hrest
        exact ⟨⟨ha, hl⟩, hb'⟩
      · rintro ⟨⟨ha, hl⟩, hb'⟩
        rw [(hf b a _).2 ⟨ha, rfl⟩]
        exact (ih _).2 ⟨hl, hb'⟩

theorem addBinding_eq_ok_iff (r : RelationScores) (b : RelationBinding) (r' : RelationScores) :
    addBinding s left right r b = .ok r' ↔
      Admits s left right b ∧ r' = addAll s left right r b := by
  unfold addBinding Admits addAll
  cases s.relations.get? b.key with
  | none => simp
  | some op =>
      change (sides s left right b).1.foldlM _ r = Except.ok r' ↔ _
      rw [foldlM_eq_ok_iff (P := Predicts s op) (g := addSource s b op (sides s left right b).2)]
      · simp
      · intro r o r'
        unfold Predicts addSource
        cases s.entity? o with
        | none => simp [eq_comm]
        | some source =>
            by_cases hpos : 0 < (op.apply source).norm
            · simp only [fromSource_of_pos hpos]
              constructor
              · rintro ⟨⟩
                refine ⟨?_, rfl⟩
                rintro _ ⟨⟩
                exact hpos
              · rintro ⟨-, rfl⟩
                rfl
            · simp only [fromSource_of_not_pos hpos]
              constructor
              · rintro ⟨⟩
              · rintro ⟨h, -⟩
                exact absurd (h source rfl) hpos

theorem compute_eq_ok_iff (r : RelationScores) :
    compute s bindings left right = .ok r ↔
      (∀ b ∈ bindings, Admits s left right b) ∧ r = bindings.foldl (addAll s left right) empty :=
  foldlM_eq_ok_iff addBinding_eq_ok_iff bindings empty r

/-! ## A restricted left side -/

variable (keep : Nat → Bool)

theorem ofType_retain (t : String) :
    ofType s (left.retain keep) t = (ofType s left t).filter keep := by
  unfold ofType
  dsimp only
  rw [ScoredSet.members_retain, List.filter_filter, List.filter_filter]
  congr 1
  funext o
  rw [Bool.and_comm]

/-- Where the entities on the left are restricted before, their scores are those restricted
after. -/
def Restricts (r r' : RelationScores) : Prop := r'.left = r.left.retain keep

theorem retain_insert (t : ScoredSet Single) (o : Nat) (v : Single) :
    (t.insert o v).retain keep = if keep o then (t.retain keep).insert o v else t.retain keep := by
  refine ScoredSet.ext_score? fun k => ?_
  rw [ScoredSet.score?_retain, ScoredSet.score?_insert]
  cases ho : keep o with
  | true =>
      rw [if_pos rfl, ScoredSet.score?_insert, ScoredSet.score?_retain, ScoredSet.score?_retain, ho]
      by_cases hk : k = o
      · subst hk
        simp [ho]
      · simp [hk]
  | false =>
      rw [if_neg Bool.false_ne_true, ScoredSet.score?_retain]
      by_cases hk : k = o
      · subst hk
        simp [ho]
      · simp [hk]

theorem restricts_record {r r' : RelationScores} (h : Restricts keep r r') {o : Nat}
    (ho : keep o = true) (t t' : Nat) (score : Single) :
    Restricts keep (r.record o t score) (r'.record o t' score) := by
  unfold Restricts record at *
  rw [retain_insert, if_pos ho, h]

theorem restricts_record_left {r r' : RelationScores} (h : Restricts keep r r') {o : Nat}
    (ho : keep o = false) (t : Nat) (score : Single) :
    Restricts keep (r.record o t score) r' := by
  unfold Restricts record at *
  rw [retain_insert, if_neg (by simp [ho]), h]

theorem fst_score? {op : Operator} {source : Entity Double} {o : Nat} {p : Nat × Single}
    (h : score? s op source o = some p) : p.1 = o := by
  obtain ⟨target, -, h⟩ := Option.bind_eq_some_iff.1 h
  obtain ⟨score, -, h⟩ := Option.bind_eq_some_iff.1 h
  cases h
  rfl

theorem scored_filter (op : Operator) (source : Entity Double) (targets : List Nat) :
    scored s op source (targets.filter keep) =
      (scored s op source targets).filter fun p => keep p.1 := by
  unfold scored
  induction targets with
  | nil => rfl
  | cons o targets ih =>
      rw [List.filter_cons, List.filterMap_cons]
      cases hp : score? s op source o with
      | none => cases keep o <;> simp [hp, ih]
      | some p =>
          have hfst := fst_score? hp
          cases hk : keep o <;> simp [hp, hfst, hk, ih]

theorem restricts_foldl {α : Type} (l : List α) {f f' : RelationScores → α → RelationScores}
    (hf : ∀ r r' a, Restricts keep r r' → Restricts keep (f r a) (f' r' a)) {r r' : RelationScores}
    (h : Restricts keep r r') : Restricts keep (l.foldl f r) (l.foldl f' r') := by
  induction l generalizing r r' with
  | nil => exact h
  | cons a l ih => exact ih (hf r r' a h)

/-- A fold over what is kept, where the rest makes no difference. -/
theorem restricts_foldl_filter {α : Type} (l : List α) (p : α → Bool)
    {f f' : RelationScores → α → RelationScores}
    (hf : ∀ r r' a, p a = true → Restricts keep r r' → Restricts keep (f r a) (f' r' a))
    (hskip : ∀ r r' a, p a = false → Restricts keep r r' → Restricts keep (f r a) r')
    {r r' : RelationScores} (h : Restricts keep r r') :
    Restricts keep (l.foldl f r) ((l.filter p).foldl f' r') := by
  induction l generalizing r r' with
  | nil => exact h
  | cons a l ih =>
      rw [List.filter_cons, List.foldl_cons]
      cases ha : p a with
      | true => exact ih (hf r r' a ha h)
      | false => exact ih (hskip r r' a ha h)

theorem restricts_addAll {r r' : RelationScores} (b : RelationBinding) (h : Restricts keep r r') :
    Restricts keep (addAll s left right r b) (addAll s (left.retain keep) right r' b) := by
  unfold addAll
  cases s.relations.get? b.key with
  | none => exact h
  | some op =>
      cases hrev : b.reversed with
      | true =>
          rw [sides_of_reversed hrev, sides_of_reversed hrev, ofType_retain]
          -- the sources are on the right, the targets are restricted
          refine restricts_foldl keep _ ?_ h
          intro r r' o h
          unfold addSource
          cases s.entity? o with
          | none => exact h
          | some source =>
              dsimp only
              rw [scored_filter]
              refine restricts_foldl_filter keep _ _ ?_ ?_ h
              · rintro r r' ⟨t, score⟩ ht h
                rw [hrev]
                exact restricts_record keep h ht o o score
              · rintro r r' ⟨t, score⟩ ht h
                rw [hrev]
                exact restricts_record_left keep h ht o score
      | false =>
          rw [sides_of_forward hrev, sides_of_forward hrev, ofType_retain]
          refine restricts_foldl_filter keep _ _ ?_ ?_ h
          · intro r r' o ho h
            unfold addSource
            cases s.entity? o with
            | none => exact h
            | some source =>
                refine restricts_foldl keep _ ?_ h
                rintro r r' ⟨t, score⟩ h
                rw [hrev]
                exact restricts_record keep h ho t t score
          · intro r r' o ho h
            unfold addSource
            cases s.entity? o with
            | none => exact h
            | some source =>
                dsimp only
                generalize scored s op source (ofType s right b.rightType) = l
                induction l generalizing r with
                | nil => exact h
                | cons p l ih =>
                    refine ih _ ?_
                    rw [hrev]
                    exact restricts_record_left keep h ho p.1 p.2

theorem restricts_compute {r r' : RelationScores}
    (h : compute s bindings left right = .ok r)
    (h' : compute s bindings (left.retain keep) right = .ok r') : Restricts keep r r' := by
  obtain ⟨-, rfl⟩ := (compute_eq_ok_iff r).1 h
  obtain ⟨-, rfl⟩ := (compute_eq_ok_iff r').1 h'
  have hempty : Restricts keep empty empty := by
    refine ScoredSet.ext_score? fun o => ?_
    rw [ScoredSet.score?_retain]
    split <;> rfl
  exact restricts_foldl keep bindings (fun _ _ b h => restricts_addAll keep b h) hempty

theorem sources_retain {b : RelationBinding} {o : Nat}
    (h : o ∈ (sides s (left.retain keep) right b).1) : o ∈ (sides s left right b).1 := by
  cases hrev : b.reversed with
  | true =>
      rw [sides_of_reversed hrev] at h ⊢
      exact h
  | false =>
      rw [sides_of_forward hrev, ofType_retain] at h
      rw [sides_of_forward hrev]
      exact (List.mem_filter.1 h).1

theorem Admits.retain {b : RelationBinding} (h : Admits s left right b) :
    Admits s (left.retain keep) right b := by
  obtain ⟨op, hop, hpredicts⟩ := h
  exact ⟨op, hop, fun o ho => hpredicts o (sources_retain keep ho)⟩

end RelationScores

/-! ## Arrows -/

namespace Executor

open RelationScores

variable {x : Executor} {bindings : List RelationBinding} {minScore : Single}
  {left right set : ScoredSet Single} {keep : Nat → Bool}

/-- The entities that relate, from the scores of all. -/
def related (minScore : Single) (left : ScoredSet Single) (r : RelationScores) :
    ScoredSet Single :=
  .ofList ((r.left.toList.filter fun h => minScore ≤ h.score).map fun h =>
    Hit.mk h.ordinal (Quantity.lesser ((left.score? h.ordinal).getD 1) h.score))

/-- What an arrow leaves behind when these entities relate. -/
def arrow (minScore : Single) (left right set : ScoredSet Single) : StepResult :=
  if set.isEmpty && !left.isEmpty && !right.isEmpty then
    .nothing ("no entity relates to the right-hand side with score >= " ++ Single.text minScore)
  else .ofSet set

theorem relate_eq (x : Executor) (bindings : List RelationBinding) (minScore : Single)
    (left right : ScoredSet Single) :
    x.relate bindings minScore left right =
      (RelationScores.compute x.snapshot bindings left right).map fun r =>
        arrow minScore left right (related minScore left r) := by
  rw [relate]
  cases RelationScores.compute x.snapshot bindings left right with
  | error e => rfl
  | ok r =>
      show (if _ then Except.ok _ else Except.ok _) = Except.ok (arrow minScore left right _)
      rw [arrow, related, ScoredSet.isEmpty_ofList]
      split <;> rfl

theorem set_arrow (minScore : Single) (left right set : ScoredSet Single) :
    (arrow minScore left right set).set = set := by
  rw [arrow]
  split
  · rename_i hempty
    rw [Bool.and_eq_true, Bool.and_eq_true] at hempty
    exact (set.eq_empty hempty.1.1).symm
  · rfl

theorem relating_eq (x : Executor) (bindings : List RelationBinding) (minScore : Single)
    (left right : ScoredSet Single) :
    x.relating bindings minScore left right =
      (RelationScores.compute x.snapshot bindings left right).map (related minScore left) := by
  rw [relating, relate_eq]
  cases RelationScores.compute x.snapshot bindings left right with
  | error e => rfl
  | ok r => exact congrArg Except.ok (set_arrow minScore left right _)

theorem score?_related (minScore : Single) (left : ScoredSet Single) (r : RelationScores) (o : Nat) :
    (related minScore left r).score? o = (r.left.score? o).bind fun score =>
      if minScore ≤ score then some (Quantity.lesser ((left.score? o).getD 1) score) else none := by
  unfold related
  rw [ScoredSet.score?_ofList (g := fun o => (r.left.score? o).bind fun score =>
    if minScore ≤ score then some (Quantity.lesser ((left.score? o).getD 1) score) else none)]
  · split
    · rfl
    · rename_i hmem
      cases hs : r.left.score? o with
      | none => rfl
      | some score =>
          rw [Option.bind_some]
          split
          · rename_i hle
            refine absurd ?_ hmem
            rw [List.map_map, List.mem_map]
            exact ⟨⟨o, score⟩, List.mem_filter.2 ⟨(ScoredSet.mem_toList _ _).2 hs,
              decide_eq_true hle⟩, rfl⟩
          · rfl
  · intro hit hhit
    obtain ⟨h, hmem, rfl⟩ := List.mem_map.1 hhit
    obtain ⟨hmem, hle⟩ := List.mem_filter.1 hmem
    rw [(ScoredSet.mem_toList _ _).1 hmem, Option.bind_some, if_pos (of_decide_eq_true hle)]

/-- The entities that relate are those with a score that is good enough. -/
theorem mem_related {r : RelationScores} {o : Nat} :
    o ∈ (related minScore left r).members ↔
      ∃ best, r.left.score? o = some best ∧ minScore ≤ best := by
  rw [ScoredSet.mem_members, score?_related]
  constructor
  · rintro ⟨v, hv⟩
    obtain ⟨best, hbest, hv⟩ := Option.bind_eq_some_iff.1 hv
    split at hv
    · rename_i hle
      exact ⟨best, hbest, hle⟩
    · cases hv
  · rintro ⟨best, hbest, hle⟩
    rw [hbest]
    exact ⟨_, (Option.bind_some ..).trans (if_pos hle)⟩

theorem related_retain {r r' : RelationScores} (h : Restricts keep r r') :
    related minScore (left.retain keep) r' = (related minScore left r).retain keep := by
  refine ScoredSet.ext_score? fun o => ?_
  rw [ScoredSet.score?_retain, score?_related, score?_related, h, ScoredSet.score?_retain,
    ScoredSet.score?_retain]
  split <;> rfl

/-- A restricted left side gives the answer restricted. -/
theorem relating_retain (keep : Nat → Bool) (h : x.relating bindings minScore left right = .ok set) :
    x.relating bindings minScore (left.retain keep) right = .ok (set.retain keep) := by
  rw [relating_eq] at h
  obtain ⟨r, hr, rfl⟩ := ok_of_map h
  have hadmits := ((compute_eq_ok_iff r).1 hr).1
  have hr' := (compute_eq_ok_iff _).2 ⟨fun b hb => (hadmits b hb).retain keep, rfl⟩
  rw [relating_eq, hr']
  exact congrArg Except.ok (related_retain (restricts_compute keep hr hr'))

/-- No binding fails to predict from the entity on its left. -/
def predictable (s : Snapshot) (bindings : List RelationBinding) (o : Nat) : Bool :=
  bindings.all fun b => b.reversed || !(s.members b.leftType).contains o ||
    match s.relations.get? b.key, s.entity? o with
    | some op, some e => decide (0 < (op.apply e).norm)
    | _, _ => true

/-- Relates the entities on the left that no binding fails to predict from. -/
def relatingPredictable (x : Executor) : Relating := fun bindings minScore left right =>
  x.relating bindings minScore (left.retain (predictable x.snapshot bindings)) right

theorem predicts_of_predictable {s : Snapshot} {o : Nat} (h : predictable s bindings o = true)
    {b : RelationBinding} (hb : b ∈ bindings) (hforward : b.reversed = false)
    (hmem : o ∈ s.members b.leftType) {op : Operator} (hop : s.relations.get? b.key = some op) :
    Predicts s op o := by
  intro e he
  have hall := List.all_eq_true.1 h b hb
  rw [hforward, List.contains_iff_mem.2 hmem, hop, he] at hall
  exact of_decide_eq_true hall

theorem predictable_of_admits {s : Snapshot} {o : Nat} (ho : o ∈ left.members)
    (h : ∀ b ∈ bindings, Admits s left right b) : predictable s bindings o = true := by
  refine List.all_eq_true.2 fun b hb => ?_
  obtain ⟨op, hop, hpredicts⟩ := h b hb
  cases hrev : b.reversed with
  | true => rfl
  | false =>
      cases hmem : (s.members b.leftType).contains o with
      | false => rfl
      | true =>
          rw [sides_of_forward hrev] at hpredicts
          have hpredicts := hpredicts o (List.mem_filter.2 ⟨ho, hmem⟩)
          rw [hop]
          cases he : s.entity? o with
          | none => rfl
          | some e => exact decide_eq_true (hpredicts e he)

theorem mem_ofType {s : Snapshot} {t : String} {o : Nat} :
    o ∈ ofType s left t ↔ o ∈ left.members ∧ o ∈ s.members t := by
  unfold ofType
  dsimp only
  rw [List.mem_filter, List.contains_iff_mem]

/-- Whatever the left side is restricted to, an arrow that succeeds agrees with the one that leaves
out what makes arrows fail. -/
theorem relatingPredictable_of_relating (keep : Nat → Bool)
    (h : x.relating bindings minScore (left.retain keep) right = .ok set) :
    ∃ all, x.relatingPredictable bindings minScore left right = .ok all ∧ set = all.retain keep := by
  have hstart := h
  rw [relating_eq] at hstart
  obtain ⟨r, hr, -⟩ := ok_of_map hstart
  have hadmits := ((compute_eq_ok_iff r).1 hr).1
  have hpredictable : ∀ o ∈ (left.retain keep).members,
      predictable x.snapshot bindings o = true :=
    fun o ho => predictable_of_admits ho hadmits
  have hall : ∀ b ∈ bindings,
      Admits x.snapshot (left.retain (predictable x.snapshot bindings)) right b := by
    intro b hb
    obtain ⟨op, hop, hpredicts⟩ := hadmits b hb
    refine ⟨op, hop, ?_⟩
    cases hrev : b.reversed with
    | true =>
        rw [sides_of_reversed hrev] at hpredicts ⊢
        exact hpredicts
    | false =>
        rw [sides_of_forward hrev]
        intro o ho
        obtain ⟨hmem, htype⟩ := mem_ofType.1 ho
        exact predicts_of_predictable ((ScoredSet.mem_members_retain _ _ _).1 hmem).1 hb hrev htype hop
  have hr' := (compute_eq_ok_iff _).2 ⟨hall, rfl⟩
  refine ⟨_, (relating_eq ..).trans (by rw [hr']; rfl), ?_⟩
  have hsame : left.retain keep =
      (left.retain (predictable x.snapshot bindings)).retain keep := by
    refine ScoredSet.ext_score? fun o => ?_
    simp only [ScoredSet.score?_retain]
    cases hk : keep o with
    | false => rfl
    | true =>
        cases ho : left.score? o with
        | none => simp
        | some v =>
            rw [hpredictable o ((ScoredSet.mem_members_retain _ _ _).2
              ⟨hk, (ScoredSet.mem_members _ _).2 ⟨v, ho⟩⟩)]
            rfl
  have hrestricted := relating_retain keep
    ((relating_eq x _ minScore ..).trans (by rw [hr']; rfl))
  rw [← hsame, h] at hrestricted
  cases hrestricted
  rfl

end Executor

/-! ## Searches -/

namespace Snapshot

variable {s : Snapshot} {query : Embedding} {bound : Option Single} {o : Nat}

/-- The hits are those of the candidates. -/
def HitsOf (s : Snapshot) (query : Embedding) (bound : Option Single) (candidates : List Nat)
    (hits : List (Hit Single)) : Prop :=
  ∀ hit, hit ∈ hits ↔ hit.ordinal ∈ candidates ∧ s.hit? query bound hit.ordinal = some hit

theorem hitsOf_filterMap (candidates : List Nat) :
    HitsOf s query bound candidates (candidates.filterMap (s.hit? query bound)) := by
  intro hit
  rw [List.mem_filterMap]
  constructor
  · rintro ⟨o, ho, h⟩
    rw [ordinal_hit? h]
    exact ⟨ho, h⟩
  · rintro ⟨ho, h⟩
    exact ⟨_, ho, h⟩

theorem HitsOf.ranked {candidates : List Nat} {hits : List (Hit Single)}
    (h : HitsOf s query bound candidates hits) : HitsOf s query bound candidates (Hit.ranked hits) :=
  fun hit => List.mem_mergeSort.trans (h hit)

theorem HitsOf.score? {candidates : List Nat} {hits : List (Hit Single)}
    (h : HitsOf s query bound candidates hits) (o : Nat) :
    (ScoredSet.ofList hits).score? o =
      if o ∈ candidates then (s.hit? query bound o).map Hit.score else none := by
  rw [ScoredSet.score?_ofList (g := fun o => (s.hit? query bound o).map Hit.score)]
  · by_cases hmem : o ∈ hits.map Hit.ordinal
    · rw [if_pos hmem]
      obtain ⟨hit, hhit, rfl⟩ := List.mem_map.1 hmem
      rw [if_pos ((h hit).1 hhit).1]
    · rw [if_neg hmem]
      split
      · rename_i ho
        cases hs : s.hit? query bound o with
        | none => rfl
        | some hit =>
            have hord := ordinal_hit? hs
            refine absurd (List.mem_map.2 ⟨hit, (h hit).2 ?_, hord⟩) hmem
            rw [hord]
            exact ⟨ho, hs⟩
      · rfl
  · intro hit hhit
    rw [((h hit).1 hhit).2]
    rfl

/-- Hits of candidates that are restricted are the hits restricted. -/
theorem HitsOf.retain {candidates restricted : List Nat} {hits hits' : List (Hit Single)}
    (h : HitsOf s query bound candidates hits) (h' : HitsOf s query bound restricted hits')
    {keep : Nat → Bool}
    (hkeep : ∀ o < s.size, o ∈ restricted ↔ keep o = true ∧ o ∈ candidates) :
    ScoredSet.ofList hits' = (ScoredSet.ofList hits).retain keep := by
  refine ScoredSet.ext_score? fun o => ?_
  rw [ScoredSet.score?_retain, h.score?, h'.score?]
  cases hs : s.hit? query bound o with
  | none => simp
  | some hit =>
      have hiff := hkeep o (lt_size_of_hit? hs)
      by_cases hk : keep o = true <;> by_cases ho : o ∈ candidates <;> simp [hiff, hk, ho]

theorem members?_of_hasType {t : String} (h : s.hasType t = true) :
    s.members? t = some (s.members t) := by
  unfold members members?
  unfold hasType OrderedMap.contains at h
  cases ht : s.types.get? t with
  | none =>
      rw [ht] at h
      cases h
  | some t => rfl

end Snapshot

namespace Executor

open Snapshot

variable {x : Executor} {types : List String}

theorem nearest_eq {t : String} (ht : x.snapshot.hasType t = true) (query : Embedding)
    (bound : Option Single) : x.snapshot.nearest query t none bound =
      (x.snapshot.checkQuery query).map fun _ =>
        Hit.ranked ((x.snapshot.members t).filterMap (x.snapshot.hit? query bound)) := by
  unfold Snapshot.nearest
  rw [members?_of_hasType ht]
  unfold nearestAmong
  cases x.snapshot.checkQuery query with
  | error e => rfl
  | ok u => rfl

/-- A search of known types finds the hits among their members, if the query is fit to search
with. -/
theorem exists_hits (htypes : ∀ t ∈ types, x.snapshot.hasType t = true) (query : Embedding)
    (d : Single) :
    ∃ hits, HitsOf x.snapshot query (some d) (x.snapshot.ordinals types) hits ∧
      x.hits query d none types none =
        (searched (x.snapshot.checkQuery query)).map fun _ => hits := by
  cases types with
  | nil =>
      refine ⟨_, (hitsOf_filterMap _).ranked, ?_⟩
      unfold hits nearestAmong
      cases x.snapshot.checkQuery query with
      | error e => rfl
      | ok u => rfl
  | cons t ts =>
      let found (t : String) : List (Hit Single) :=
        Hit.ranked ((x.snapshot.members t).filterMap (x.snapshot.hit? query (some d)))
      refine ⟨Hit.ranked ((t :: ts).map found).flatten, HitsOf.ranked ?_, ?_⟩
      · intro hit
        rw [List.mem_flatten, mem_ordinals]
        constructor
        · rintro ⟨l, hl, hhit⟩
          obtain ⟨u, hu, rfl⟩ := List.mem_map.1 hl
          obtain ⟨hmem, hsome⟩ := ((hitsOf_filterMap _).ranked hit).1 hhit
          exact ⟨⟨lt_size_of_hit? hsome, .inr ⟨u, hu, hmem⟩⟩, hsome⟩
        · rintro ⟨⟨-, hnil | ⟨u, hu, hmem⟩⟩, hsome⟩
          · cases hnil
          · exact ⟨found u, List.mem_map_of_mem hu, ((hitsOf_filterMap _).ranked hit).2 ⟨hmem, hsome⟩⟩
      · change ((t :: ts).mapM fun t => searched (x.snapshot.nearest query t none (some d))) >>= _ = _
        cases hcheck : x.snapshot.checkQuery query with
        | error e =>
            rw [List.mapM_cons, nearest_eq (htypes t List.mem_cons_self), hcheck]
            rfl
        | ok u =>
            have hfound : ∀ u ∈ t :: ts,
                searched (x.snapshot.nearest query u none (some d)) = .ok (found u) := by
              intro u hu
              rw [nearest_eq (htypes u hu), hcheck]
              rfl
            rw [mapM_of_ok hfound]
            rfl

/-- A search without a limit may look among the candidates that are kept, or keep what it finds
among all. -/
theorem nearest_retain (htypes : ∀ t ∈ types, x.snapshot.hasType t = true) (d : Single)
    (keep : Nat → Bool) (target : ScoredSet Single) :
    (x.nearest d none types
        (some ((ScoredSet.uniform (x.snapshot.ordinals types) 1).retain keep)) target).map (·.set) =
      (x.nearest d none types none target).map fun r => r.set.retain keep := by
  unfold nearest
  split
  · refine congrArg Except.ok (ScoredSet.ext_score? fun o => ?_)
    rw [ScoredSet.score?_retain]
    split <;> rfl
  · cases x.queryVector target with
    | error e => rfl
    | ok query =>
        obtain ⟨hits, hhits, heq⟩ := exists_hits htypes query d
        change Except.map _ (x.hits query d none types _ >>= _) =
          Except.map _ (x.hits query d none types none >>= _)
        rw [heq]
        unfold Executor.hits nearestAmong
        cases x.snapshot.checkQuery query with
        | error e => rfl
        | ok u =>
            refine congrArg Except.ok (hhits.retain (hitsOf_filterMap _).ranked fun o _ => ?_)
            rw [ScoredSet.mem_members_retain, ScoredSet.mem_members]
            simp [ScoredSet.score?_uniform]

end Executor

/-! ## Meanings -/

namespace Meaning

variable (x : Executor)

/-- The entity of an ordinal satisfies all conditions. -/
def accepts (x : Executor) (cs : List (Comparison Double)) (o : Nat) : Bool :=
  cs.all fun c => (x.snapshot.entity? o).any c.holds

theorem filterAll_eq (a : Meaning) (cs : List (Comparison Double)) :
    a.filterAll x cs = ⟨a.set.retain (accepts x cs), a.types⟩ := by
  induction cs generalizing a with
  | nil =>
      have hall : a.set.retain (accepts x []) = a.set := by
        refine ScoredSet.ext_score? fun o => ?_
        rw [ScoredSet.score?_retain]
        rfl
      rw [hall]
      rfl
  | cons c cs ih =>
      change (a.filter x c).filterAll x cs = _
      rw [ih]
      change Meaning.mk ((a.set.retain _).retain _) _ = _
      rw [ScoredSet.retain_retain]
      rfl

theorem filterAll_append (a : Meaning) (cs cs' : List (Comparison Double)) :
    a.filterAll x (cs ++ cs') = (a.filterAll x cs).filterAll x cs' :=
  List.foldl_append ..

/-- The order of conditions does not matter. -/
theorem filterAll_perm (a : Meaning) {cs cs' : List (Comparison Double)} (h : cs.Perm cs') :
    a.filterAll x cs = a.filterAll x cs' := by
  have haccepts : accepts x cs = accepts x cs' := by
    funext o
    exact h.all_eq
  rw [filterAll_eq, filterAll_eq, haccepts]

theorem both_filterAll_left (a b : Meaning) (cs : List (Comparison Double)) :
    (a.filterAll x cs).both b = (a.both b).filterAll x cs := by
  rw [filterAll_eq, filterAll_eq, both, both, ScoredSet.and_retain_left]

theorem both_filterAll_right (a b : Meaning) (cs : List (Comparison Double)) :
    a.both (b.filterAll x cs) = (a.both b).filterAll x cs := by
  rw [filterAll_eq, filterAll_eq, both, both, ScoredSet.and_retain_right]

theorem foldl_both_filterAll (a : Meaning) (as : List Meaning) (cs : List (Comparison Double)) :
    as.foldl both (a.filterAll x cs) = (as.foldl both a).filterAll x cs := by
  induction as generalizing a with
  | nil => rfl
  | cons b as ih => rw [List.foldl_cons, both_filterAll_left, ih, List.foldl_cons]

end Meaning

end VectorQuery
