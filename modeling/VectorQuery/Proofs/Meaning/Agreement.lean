/-
# Sharing does not change meanings

An evaluation with a memory and one that evaluates every subquery anew fail alike, or yield the
same meaning and see the same types (`alike_evaluate`).  A memory is `Faithful` if evaluating the
query of an entry anew yields what the entry says.

Keys tell the types seen apart by their texts.  The text of no types is that of the empty name, so
what draws on the types seen may be taken for something else once the type of that name has been
searched.  Everything else here holds of such searches, too: `named` says that there are none, and
a query that does not draw on the types seen needs no such assumption.
-/
import VectorQuery.Proofs.Meaning.Direct

namespace VectorQuery

open Evaluation
open Lowering (anyReadsSeen comparison? readsSeen sharingKey)

/-! ## Queries that draw on the types seen -/

theorem anyReadsSeen_iff {qs : List Query} :
    anyReadsSeen qs = true ↔ ∃ q ∈ qs, readsSeen q = true := by
  induction qs with
  | nil => simp [anyReadsSeen]
  | cons q qs ih => simp [anyReadsSeen, ih]

/-- Lowering keeps apart what draws on the types seen. -/
theorem readsSeen_of_drawsOnSeen {q : Query} (hq : q.Printable) (h : q.drawsOnSeen = true) :
    readsSeen q = true := by
  induction hq with
  | lookup => cases h
  | relation _ _ _ ihl ihr =>
      rw [Query.drawsOnSeen, Bool.or_eq_true] at h
      rw [readsSeen, Bool.or_eq_true]
      exact h.imp ihl ihr
  | not => rfl
  | @logical op qs hop hlen _ ih =>
      have hany : ∀ q ∈ qs, q.drawsOnSeen = true → readsSeen (.logical op qs) = true := by
        intro q hq h
        rw [readsSeen, anyReadsSeen_iff.2 ⟨q, hq, ih q hq h⟩, Bool.or_true]
      cases op with
      | and =>
          rw [Query.drawsOnSeen, Bool.or_eq_true] at h
          rcases h with h | h
          · obtain ⟨q, qs, rfl⟩ := List.exists_cons_of_ne_nil (List.ne_nil_of_length_pos
              (Nat.lt_of_lt_of_le Nat.zero_lt_two hlen))
            refine hany q List.mem_cons_self ?_
            have hfirst := List.all_eq_true.1 h q List.mem_cons_self
            cases q with
            | comparison => rfl
            | _ => cases hfirst
          · obtain ⟨q, hq, -, h⟩ := Query.anyOtherDrawsOnSeen_iff.1 h
            exact hany q hq h
      | or =>
          obtain ⟨q, hq, h⟩ := Query.anyDrawsOnSeen_iff.1 h
          exact hany q hq h
      | not => exact absurd rfl hop
  | comparison => rfl
  | similar _ _ _ _ ih => exact ih h
  | analogy _ _ _ _ iha ihb ihc =>
      rw [Query.drawsOnSeen, Bool.or_eq_true, Bool.or_eq_true] at h
      rw [readsSeen, Bool.or_eq_true, Bool.or_eq_true]
      exact h.imp (Or.imp iha ihb) ihc
  | optimize => rfl

/-! ## Memories that tell the truth -/

section

variable (x : Executor) (config : EngineConfig) (relate : Relating) (named : Prop)

/-- If no search was for the empty name, it has not been seen.  Evaluating the query of an entry
anew yields the meaning known and leaves the types as they are, now and later. -/
structure Memory.Faithful (m : Memory) : Prop where
  seen_named : named → "" ∉ m.seen.names
  entry : ∀ key a, m.meaningOf? key = some a → ∃ q S, q.Printable ∧ key = sharingKey q S ∧
    S.Within m.seen ∧ a.types.Within m.seen ∧ ((q.drawsOnSeen = true → named) →
      ∀ T, m.seen.Within T → (q.drawsOnSeen = true → T = S) →
        computeDirect x config relate q T = .ok (a, T))

/-- The first evaluation keeps memories faithful, and if they are compared, the second fails as the
first does, or yields the same and sees the same types.  The types `held` have been seen before,
and those that a value `gives` have been seen after. -/
def Agrees {α : Type} (compared : Prop) (held : List TypeSet) (y : Sharing α) (z : Direct α)
    (gives : α → List TypeSet) : Prop :=
  ∀ m, m.Faithful x config relate named → (∀ t ∈ held, t.Within m.seen) →
    (∀ e, y m = .error e → compared → z m.seen = .error e) ∧
    ∀ a m', y m = .ok (a, m') → m'.Faithful x config relate named ∧ m.seen.Within m'.seen ∧
      (∀ t ∈ gives a, t.Within m'.seen) ∧ (compared → z m.seen = .ok (a, m'.seen))

end

variable {x : Executor} {config : EngineConfig} {relate : Relating} {named compared : Prop}
  {held : List TypeSet}

namespace Memory

variable {m : Memory}

theorem faithful_start : Memory.start.Faithful x config relate named where
  seen_named := fun _ => TypeSet.not_mem_empty
  entry := by
    intro key a h
    cases h

theorem Faithful.see (h : m.Faithful x config relate named) {types : TypeSet}
    (hnamed : named → "" ∉ types.names) : (m.see types).Faithful x config relate named where
  seen_named := fun hn hmem => (TypeSet.mem_union.1 hmem).elim (h.seen_named hn) (hnamed hn)
  entry := by
    intro key a ha
    have hwithin := TypeSet.within_union_left m.seen types
    obtain ⟨q, S, hq, hkey, hS, hatypes, hdirect⟩ := h.entry key a ha
    exact ⟨q, S, hq, hkey, hS.trans hwithin, hatypes.trans hwithin,
      fun hdraws T hT => hdirect hdraws T (hwithin.trans hT)⟩

theorem Faithful.remember (h : m.Faithful x config relate named) {q : Query} (hq : q.Printable)
    {S : TypeSet} {a : Meaning} (hS : S.Within m.seen) (hatypes : a.types.Within m.seen)
    (ha : (q.drawsOnSeen = true → named) → computeDirect x config relate q S = .ok (a, m.seen)) :
    (m.remember (sharingKey q S) a).Faithful x config relate named where
  seen_named := h.seen_named
  entry := by
    intro key b hb
    rw [meaningOf?_remember] at hb
    split at hb
    · rename_i hkey
      cases hb
      exact ⟨q, S, hq, hkey, hS, hatypes, fun hdraws T hT =>
        compute_again (ha hdraws) hT⟩
    · exact h.entry key b hb

/-- What is known for the key of a query is what evaluating it anew yields. -/
theorem Faithful.compute_of_known (h : m.Faithful x config relate named) {q : Query}
    (hq : q.Printable) {a : Meaning} (ha : m.meaningOf? (sharingKey q m.seen) = some a) :
    a.types.Within m.seen ∧ ((q.drawsOnSeen = true → named) →
      computeDirect x config relate q m.seen = .ok (a, m.seen)) := by
  obtain ⟨q', S, hq', hkey, hS, hatypes, hdirect⟩ := h.entry _ a ha
  obtain ⟨rfl, htext⟩ := Lowering.sharingKey_injective hq hq' hkey
  refine ⟨hatypes, fun hnamed => hdirect hnamed m.seen (.refl _) fun hdraws => ?_⟩
  rcases TypeSet.eq_of_text hS (htext (readsSeen_of_drawsOnSeen hq hdraws)).symm with hS | ⟨-, hm⟩
  · exact hS.symm
  · refine absurd ?_ (h.seen_named (hnamed hdraws))
    rw [hm]
    exact TypeSet.mem_single.2 rfl

end Memory

/-! ## Computations that agree -/

namespace Agrees

variable {α β : Type} {y : Sharing α} {z : Direct α} {f : α → Sharing β} {g : α → Direct β}
  {gives : α → List TypeSet} {gives' : β → List TypeSet}

theorem pure {a : α} (h : ∀ S : TypeSet, (∀ t ∈ held, t.Within S) → ∀ t ∈ gives a, t.Within S) :
    Agrees x config relate named compared held (pure a) (pure a) gives := by
  intro m hm hheld
  refine ⟨fun e hy => ?_, fun b m' hy => ?_⟩
  · cases hy
  · cases hy
    exact ⟨hm, .refl _, h m.seen hheld, fun _ => rfl⟩

theorem bind (h : Agrees x config relate named compared held y z gives)
    (hf : ∀ a, Agrees x config relate named compared (gives a) (f a) (g a) gives') :
    Agrees x config relate named compared held (y >>= f) (z >>= g) gives' := by
  intro m hm hheld
  obtain ⟨herror, hok⟩ := h m hm hheld
  cases hy : y m with
  | error e =>
      have hfail : (y >>= f) m = .error e := by
        change (y m >>= fun p => f p.1 p.2) = _
        rw [hy]
        rfl
      rw [hfail]
      refine ⟨fun e' he hc => ?_, fun b m' hb => ?_⟩
      · cases he
        change (z m.seen >>= fun p => g p.1 p.2) = _
        rw [herror e hy hc]
        rfl
      · cases hb
  | ok p =>
      obtain ⟨a, m₁⟩ := p
      obtain ⟨hm₁, hwithin, hgives, hz⟩ := hok a m₁ hy
      obtain ⟨herror', hok'⟩ := hf a m₁ hm₁ hgives
      rw [bind_run hy]
      refine ⟨fun e he hc => ?_, fun b m₂ hb => ?_⟩
      · rw [bind_run (hz hc)]
        exact herror' e he hc
      · obtain ⟨hm₂, hwithin', hgives', hz'⟩ := hok' b m₂ hb
        refine ⟨hm₂, hwithin.trans hwithin', hgives', fun hc => ?_⟩
        rw [bind_run (hz hc)]
        exact hz' hc

theorem lift_bind {e : Except QueryError α}
    (h : ∀ a, e = .ok a → Agrees x config relate named compared held (f a) (g a) gives') :
    Agrees x config relate named compared held ((liftM e : Sharing α) >>= f)
      ((liftM e : Direct α) >>= g) gives' := by
  intro m hm hheld
  cases e with
  | error e =>
      refine ⟨fun e' he _ => ?_, fun b m' hb => ?_⟩
      · cases he
        rfl
      · cases hb
  | ok a => exact h a rfl m hm hheld

theorem fail (e : QueryError) :
    Agrees x config relate named compared held (liftM (.error e : Except QueryError α))
      (liftM (.error e : Except QueryError α)) gives := by
  intro m _ _
  refine ⟨fun e' he _ => ?_, fun b m' hb => ?_⟩
  · cases he
    rfl
  · cases hb

theorem seen : Agrees x config relate named compared held (Strategy.sharing relate).seen
    (Strategy.direct relate).seen fun S => S :: held := by
  intro m hm hheld
  refine ⟨fun e he => ?_, fun S m' hy => ?_⟩
  · cases he
  · cases hy
    exact ⟨hm, .refl _, List.forall_mem_cons.2 ⟨.refl _, hheld⟩, fun _ => rfl⟩

/-- The empty name is not seen, unless it was before. -/
theorem see {types : TypeSet} (h : named → "" ∈ types.names → ∃ t ∈ held, "" ∈ t.names) :
    Agrees x config relate named compared held ((Strategy.sharing relate).see types)
      ((Strategy.direct relate).see types) fun _ => types :: held := by
  intro m hm hheld
  refine ⟨fun e he => ?_, fun u m' hy => ?_⟩
  · cases he
  · cases hy
    have hwithin := TypeSet.within_union_left m.seen types
    refine ⟨hm.see fun hn hmem => ?_, hwithin, List.forall_mem_cons.2
      ⟨TypeSet.within_union_right _ _, fun t ht => (hheld t ht).trans hwithin⟩, fun _ => rfl⟩
    obtain ⟨t, ht, hmem⟩ := h hn hmem
    exact hm.seen_named hn (hheld t ht _ hmem)

/-- A meaning whose types have been seen. -/
theorem done {a : Meaning} {held' : List TypeSet} (ha : a.types ∈ held) (hheld : held' ⊆ held) :
    Agrees x config relate named compared held (Pure.pure a) (Pure.pure a) fun a =>
      a.types :: held' :=
  pure fun _ h => List.forall_mem_cons.2 ⟨h _ ha, fun t ht => h t (hheld ht)⟩

end Agrees

/-- The computations agree wherever they stand, and the types of what they yield have been seen. -/
def Alike (x : Executor) (config : EngineConfig) (relate : Relating) (named compared : Prop)
    (y : Sharing Meaning) (z : Direct Meaning) : Prop :=
  ∀ held, Agrees x config relate named compared held y z fun a => a.types :: held

namespace Alike

open Agrees

theorem mono {y : Sharing Meaning} {z : Direct Meaning} {compared' : Prop}
    (h : Alike x config relate named compared y z) (hc : compared' → compared) :
    Alike x config relate named compared' y z := by
  intro held m hm hheld
  obtain ⟨herror, hok⟩ := h held m hm hheld
  refine ⟨fun e he h' => herror e he (hc h'), fun a m' ha => ?_⟩
  obtain ⟨hm', hwithin, hgives, hz⟩ := hok a m' ha
  exact ⟨hm', hwithin, hgives, fun h' => hz (hc h')⟩

/-- A query that is shared agrees with one that is evaluated anew. -/
theorem share {q : Query} (hq : q.Printable)
    (h : Alike x config relate named (q.drawsOnSeen = true → named)
      (computeShared x config relate q) (computeDirect x config relate q)) :
    Alike x config relate named (q.drawsOnSeen = true → named) (evaluateShared x config relate q)
      (evaluate x config (.direct relate) q) := by
  intro held m hm hheld
  cases hk : m.meaningOf? (sharingKey q m.seen) with
  | some a =>
      obtain ⟨htypes, hdirect⟩ := hm.compute_of_known hq hk
      have hshared : evaluateShared x config relate q m = .ok (a, m) := by
        refine (reuse_of_known hk).trans ?_
        rw [Memory.see_eq htypes]
      rw [hshared]
      refine ⟨fun e he => ?_, fun b m' hb => ?_⟩
      · cases he
      · cases hb
        exact ⟨hm, .refl _, List.forall_mem_cons.2 ⟨htypes, hheld⟩, hdirect⟩
  | none =>
      have hshared : evaluateShared x config relate q m =
          (computeShared x config relate q m).map fun p =>
            (p.1, p.2.remember (sharingKey q m.seen) p.1) := reuse_of_unknown hk
      rw [hshared]
      obtain ⟨herror, hok⟩ := h held m hm hheld
      cases hy : computeShared x config relate q m with
      | error e =>
          refine ⟨fun e' he hc => ?_, fun b m' hb => ?_⟩
          · cases he
            exact herror e hy hc
          · cases hb
      | ok p =>
          obtain ⟨a, m'⟩ := p
          obtain ⟨hm', hwithin, hgives, hz⟩ := hok a m' hy
          refine ⟨fun e he => ?_, fun b m'' hb => ?_⟩
          · cases he
          · cases hb
            exact ⟨hm'.remember hq hwithin (hgives a.types List.mem_cons_self) hz, hwithin,
              hgives, hz⟩

/-! ### Single shapes -/

theorem everything : Alike x config relate named compared (everything x (.sharing relate))
    (everything x (.direct relate)) := fun _ =>
  seen.bind fun _ => done List.mem_cons_self (List.subset_cons_self ..)

theorem lookup {t : String} (ht : t ≠ "") (name : String) (fuzzy : Bool) :
    Alike x config relate named compared (lookup x (.sharing relate) t name fuzzy)
      (lookup x (.direct relate) t name fuzzy) := fun _ =>
  lift_bind fun _ _ =>
    (see fun _ h => absurd (TypeSet.mem_single.1 h).symm ht).bind fun _ =>
      done List.mem_cons_self (List.subset_cons_self ..)

theorem comparison (c : Comparison Double) :
    Alike x config relate named compared (comparison x (.sharing relate) c)
      (comparison x (.direct relate) c) := fun _ =>
  lift_bind fun _ _ => (everything _).bind fun _ =>
    done List.mem_cons_self (List.subset_cons_self ..)

theorem optimization (direction : Direction) (objective : Objective Double)
    (constraints : List (Comparison Double)) :
    Alike x config relate named compared
      (optimization x (.sharing relate) direction objective constraints)
      (optimization x (.direct relate) direction objective constraints) := fun _ =>
  lift_bind fun _ _ => lift_bind fun _ _ => (everything _).bind fun _ =>
    done List.mem_cons_self (List.subset_cons_self ..)

section

variable {l r a b c : Sharing Meaning} {l' r' a' b' c' : Direct Meaning}

theorem negation (h : Alike x config relate named compared l l') :
    Alike x config relate named compared (negation x (.sharing relate) l)
      (negation x (.direct relate) l') := fun _ =>
  (h _).bind fun _ => (everything _).bind fun _ =>
    done List.mem_cons_self fun _ ht => List.mem_cons_of_mem _ (List.mem_cons_of_mem _ ht)

theorem arrow (name : Option String) (hl : Alike x config relate named compared l l')
    (hr : Alike x config relate named compared r r') :
    Alike x config relate named compared (arrow x config (.sharing relate) name l r)
      (arrow x config (.direct relate) name l' r') := fun _ =>
  (hl _).bind fun _ => (hr _).bind fun _ => lift_bind fun _ _ => lift_bind fun _ _ =>
    done (List.mem_cons_of_mem _ List.mem_cons_self) fun _ ht =>
      List.mem_cons_of_mem _ (List.mem_cons_of_mem _ ht)

theorem searchedTypes (target : Meaning) {targetType : Option String}
    (h : named → ∀ t ∈ targetType, t ≠ "") :
    Agrees x config relate named compared (target.types :: held)
      (searchedTypes x (.sharing relate) target targetType)
      (searchedTypes x (.direct relate) target targetType) fun types => types :: held := by
  cases targetType with
  | none => exact Agrees.pure fun _ h => h
  | some t =>
      refine lift_bind fun _ _ =>
        (see fun hn hmem => absurd (TypeSet.mem_single.1 hmem).symm (h hn t rfl)).bind fun _ => ?_
      exact Agrees.pure fun _ h => List.forall_mem_cons.2
        ⟨h _ List.mem_cons_self, fun u hu => h u (List.mem_cons_of_mem _ (List.mem_cons_of_mem _ hu))⟩

theorem similarity (distance : Option Double) (topK : Option Nat) {targetType : Option String}
    (htype : named → ∀ t ∈ targetType, t ≠ "") (h : Alike x config relate named compared l l') :
    Alike x config relate named compared
      (similarity x config (.sharing relate) distance topK targetType l)
      (similarity x config (.direct relate) distance topK targetType l') := fun _ =>
  (h _).bind fun target => (searchedTypes target htype).bind fun _ =>
    lift_bind fun _ _ => lift_bind fun _ _ =>
      done List.mem_cons_self (List.subset_cons_self ..)

theorem analogy {targetType : Option String} (htype : ∀ t ∈ targetType, t ≠ "")
    (ha : Alike x config relate named compared a a') (hb : Alike x config relate named compared b b')
    (hc : Alike x config relate named compared c c') :
    Alike x config relate named compared (analogy x config (.sharing relate) targetType a b c)
      (analogy x config (.direct relate) targetType a' b' c') := by
  intro held
  refine (ha _).bind fun va => (hb _).bind fun vb => (hc _).bind fun vc => lift_bind fun t ht => ?_
  -- the type of the answers is named, or it is the second term's, which was seen
  have hsee : named → "" ∈ (TypeSet.single t).names →
      ∃ u ∈ vc.types :: vb.types :: va.types :: held, "" ∈ u.names := by
    intro _ hmem
    rcases analogyType_cases (ok_of_mapError ht) with ⟨rfl, -⟩ | ⟨-, hsecond⟩
    · exact absurd (TypeSet.mem_single.1 hmem).symm (htype t rfl)
    · refine ⟨vb.types, by simp, ?_⟩
      rwa [hsecond]
  refine (see hsee).bind fun _ => lift_bind fun _ _ => done List.mem_cons_self ?_
  intro u hu
  simp [hu]

end

/-! ### Operands -/

section

variable {qs : List Query}

theorem operands (hqs : ∀ q ∈ qs, Alike x config relate named compared
    (evaluateShared x config relate q) (evaluate x config (.direct relate) q))
    (held : List TypeSet) :
    Agrees x config relate named compared held (computeAll x config (.sharing relate) qs)
      (computeAll x config (.direct relate) qs) fun as => as.map (·.types) ++ held := by
  induction qs generalizing held with
  | nil => exact Agrees.pure fun _ h => h
  | cons q qs ih =>
      exact (hqs q List.mem_cons_self held).bind fun a =>
        (ih (fun p hp => hqs p (List.mem_cons_of_mem _ hp)) _).bind fun as =>
          Agrees.pure fun S h t ht => h t (List.perm_middle.mem_iff.2 ht)

theorem others (hqs : ∀ q ∈ qs, (comparison? q).isNone = true → Alike x config relate named compared
    (evaluateShared x config relate q) (evaluate x config (.direct relate) q))
    (held : List TypeSet) :
    Agrees x config relate named compared held (computeOthers x config (.sharing relate) qs)
      (computeOthers x config (.direct relate) qs) fun as => as.map (·.types) ++ held := by
  induction qs generalizing held with
  | nil => exact Agrees.pure fun _ h => h
  | cons q qs ih =>
      have ih := ih fun p hp => hqs p (List.mem_cons_of_mem _ hp)
      rw [computeOthers, computeOthers]
      split
      · exact ih held
      · rename_i hcomparison
        have hother : (comparison? q).isNone = true := by simpa using hcomparison
        exact (hqs q List.mem_cons_self hother held).bind fun a => (ih _).bind fun as =>
          Agrees.pure fun S h t ht => h t (List.perm_middle.mem_iff.2 ht)

theorem disjunction (hqs : ∀ q ∈ qs, Alike x config relate named compared
    (evaluateShared x config relate q) (evaluate x config (.direct relate) q)) :
    Alike x config relate named compared (disjunction (computeAll x config (.sharing relate) qs))
      (disjunction (computeAll x config (.direct relate) qs)) := by
  intro held
  refine (operands hqs held).bind fun as => ?_
  cases as with
  | nil => exact fail _
  | cons a as =>
      refine Agrees.pure fun S h => List.forall_mem_cons.2 ⟨?_, fun t ht =>
        h t (List.mem_append_right _ ht)⟩
      exact Meaning.within_foldl (fun _ _ => rfl) TypeSet.mem_of_mem_either fun b hb =>
        h b.types (List.mem_append_left _ (List.mem_map_of_mem hb))

theorem conjunction (hqs : ∀ q ∈ qs, (comparison? q).isNone = true →
    Alike x config relate named compared (evaluateShared x config relate q)
      (evaluate x config (.direct relate) q)) (conditions : List (Comparison Double)) :
    Alike x config relate named compared
      (conjunction x (.sharing relate) conditions (computeOthers x config (.sharing relate) qs))
      (conjunction x (.direct relate) conditions (computeOthers x config (.direct relate) qs)) := by
  intro held
  refine lift_bind fun _ _ => (others hqs held).bind fun as => ?_
  cases as with
  | nil =>
      refine (everything _).bind fun all => Agrees.pure fun S h => List.forall_mem_cons.2
        ⟨?_, fun t ht => h t (List.mem_cons_of_mem _ ht)⟩
      rw [Meaning.types_filterAll]
      exact h _ List.mem_cons_self
  | cons a as =>
      refine Agrees.pure fun S h => List.forall_mem_cons.2 ⟨?_, fun t ht =>
        h t (List.mem_append_right _ ht)⟩
      rw [Meaning.types_filterAll]
      exact Meaning.within_foldl (fun _ _ => rfl) TypeSet.mem_of_mem_both fun b hb =>
        h b.types (List.mem_append_left _ (List.mem_map_of_mem hb))

end

end Alike

/-! ## All queries -/

theorem IsIdentifier.ne_empty {s : String} (h : IsIdentifier s) : s ≠ "" := by
  rintro rfl
  obtain ⟨c, cs, hword, -⟩ := h.word.head
  cases hword

/-- The type that a search names. -/
def Query.searchedType? : Query → Option String
  | .similar _ _ _ targetType => targetType
  | _ => none

/-- No search within the query is one for the type of the empty name. -/
def Query.SearchesNamed (q : Query) : Prop := ∀ p ∈ q.subqueries, p.searchedType? ≠ some ""

instance : DecidablePred Query.SearchesNamed := fun q =>
  inferInstanceAs (Decidable (∀ p ∈ q.subqueries, p.searchedType? ≠ some ""))

theorem Query.SearchesNamed.child {q c : Query} (h : q.SearchesNamed) (hc : c ∈ q.children) :
    c.SearchesNamed :=
  fun p hp => h p (subqueries_subset hc hp)

open Query in
/-- Sharing does not change what a query means, if it does not draw on the types seen or there are
no searches for the empty name. -/
theorem alike_compute {q : Query} (hq : q.Printable) (hnamed : named → q.SearchesNamed) :
    Alike x config relate named (q.drawsOnSeen = true → named) (computeShared x config relate q)
      (computeDirect x config relate q) := by
  -- an operand is compared if the whole is, since it draws on the types seen only if the whole does
  have operand : ∀ {p c : Query}, c.Printable → (c.drawsOnSeen = true → p.drawsOnSeen = true) →
      Alike x config relate named (c.drawsOnSeen = true → named) (computeShared x config relate c)
        (computeDirect x config relate c) →
      Alike x config relate named (p.drawsOnSeen = true → named) (evaluateShared x config relate c)
        (evaluate x config (.direct relate) c) :=
    fun hc hdraws h => (Alike.share hc h).mono fun hp hd => hp (hdraws hd)
  induction hq with
  | lookup name fuzzy ht =>
      rw [computeShared, computeDirect, compute, compute]
      exact .lookup ht.ne_empty name fuzzy
  | @relation l r name hl _ hr ihl ihr =>
      have ihl := ihl fun h => (hnamed h).child (by simp [children])
      have ihr := ihr fun h => (hnamed h).child (by simp [children])
      rw [computeShared, computeDirect, compute, compute]
      exact .arrow name (operand hl (fun h => by rw [drawsOnSeen, h, Bool.true_or]) ihl)
        (operand hr (fun h => by rw [drawsOnSeen, h, Bool.or_true]) ihr)
  | not hq ih =>
      have ih := ih fun h => (hnamed h).child (by simp [children])
      rw [computeShared, computeDirect, compute, compute]
      exact .negation (operand hq (fun _ => rfl) ih)
  | @logical op qs hop _ hqs ih =>
      have hqs' : ∀ q ∈ qs, (q.drawsOnSeen = true → (logical op qs).drawsOnSeen = true) →
          Alike x config relate named ((logical op qs).drawsOnSeen = true → named)
            (evaluateShared x config relate q) (evaluate x config (.direct relate) q) :=
        fun q hq hdraws => operand (hqs q hq) hdraws (ih q hq fun h => (hnamed h).child hq)
      cases op with
      | and =>
          rw [computeShared, computeDirect, compute, compute]
          refine .conjunction (fun q hq hother => hqs' q hq fun h => ?_) _
          rw [drawsOnSeen, anyOtherDrawsOnSeen_iff.2 ⟨q, hq, hother, h⟩, Bool.or_true]
      | or =>
          rw [computeShared, computeDirect, compute, compute]
          refine .disjunction fun q hq => hqs' q hq fun h => ?_
          rw [drawsOnSeen]
          exact anyDrawsOnSeen_iff.2 ⟨q, hq, h⟩
      | not => exact absurd rfl hop
  | comparison =>
      rw [computeShared, computeDirect, compute, compute]
      exact .comparison _
  | @similar t d k targetType ht _ _ ih =>
      have ih := ih fun h => (hnamed h).child (by simp [children])
      rw [computeShared, computeDirect, compute, compute]
      refine .similarity _ _ ?_ (operand ht (fun h => by rw [drawsOnSeen, h]) ih)
      rintro hn _ htype rfl
      exact hnamed hn _ (mem_subqueries_self _) htype
  | analogy ha hb hc hty iha ihb ihc =>
      have iha := iha fun h => (hnamed h).child (by simp [children])
      have ihb := ihb fun h => (hnamed h).child (by simp [children])
      have ihc := ihc fun h => (hnamed h).child (by simp [children])
      rw [computeShared, computeDirect, compute, compute]
      exact .analogy (fun t ht => (hty t ht).ne_empty)
        (operand ha (fun h => by simp [drawsOnSeen, h]) iha)
        (operand hb (fun h => by simp [drawsOnSeen, h]) ihb)
        (operand hc (fun h => by simp [drawsOnSeen, h]) ihc)
  | optimize direction =>
      rw [computeShared, computeDirect, compute, compute]
      exact .optimization direction _ _

/-- An evaluation with a faithful memory agrees with one that evaluates every subquery anew. -/
theorem alike_evaluate {q : Query} (hq : q.Printable) (hnamed : named → q.SearchesNamed) :
    Alike x config relate named (q.drawsOnSeen = true → named) (evaluateShared x config relate q)
      (evaluate x config (.direct relate) q) :=
  .share hq (alike_compute hq hnamed)

/-- What an evaluation with a faithful memory yields is what evaluating anew yields. -/
theorem Memory.Faithful.evaluate {m m' : Memory} (hm : m.Faithful x config relate named) {q : Query}
    (hq : q.Printable) (hnamed : named → q.SearchesNamed) {a : Meaning}
    (h : evaluateShared x config relate q m = .ok (a, m')) :
    m'.Faithful x config relate named ∧ ((q.drawsOnSeen = true → named) →
      computeDirect x config relate q m.seen = .ok (a, m'.seen)) := by
  obtain ⟨-, hok⟩ := alike_evaluate hq hnamed [] m hm fun t ht => absurd ht List.not_mem_nil
  obtain ⟨hm', -, -, hdirect⟩ := hok a m' h
  exact ⟨hm', hdirect⟩

/-- A query means what it is evaluated to with a memory. -/
theorem Query.meaning_eq_ok_iff {q : Query} (hq : q.Printable) (hnamed : q.SearchesNamed)
    {a : Meaning} : q.meaning x config = .ok a ↔
      ∃ m, evaluateShared x config x.relating q .start = .ok (a, m) := by
  have hstart : Memory.start.Faithful x config x.relating True := Memory.faithful_start
  obtain ⟨herror, hok⟩ := alike_evaluate hq (fun _ => hnamed) [] .start hstart
    fun t ht => absurd ht List.not_mem_nil
  change (computeDirect x config x.relating q .empty).map Prod.fst = .ok a ↔ _
  cases hshared : evaluateShared x config x.relating q .start with
  | error e =>
      have hdirect : computeDirect x config x.relating q .empty = .error e :=
        herror e hshared fun _ => trivial
      rw [hdirect]
      simp [Except.map]
  | ok p =>
      obtain ⟨b, m⟩ := p
      have hdirect : computeDirect x config x.relating q .empty = .ok (b, m.seen) :=
        (hok b m hshared).2.2.2 fun _ => trivial
      rw [hdirect]
      simp [Except.map]

end VectorQuery
