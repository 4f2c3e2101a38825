/-
# Every phrase is accepted

`Reads p w a F`: wherever the tokens `w` come next and `F` holds of the token after them, the
reader `p` takes exactly `w` and answers `a`.  The token after a phrase matters because the loops
and optional tails of the parser are greedy: `EndsPrimary`, `EndsPostfixed` and the others say that
a token goes on no phrase of their level, and every rule of the grammar puts such a token behind
each of its parts.

The main induction (`reads_of_derives`) is over derivations.  A nested phrase is shorter than the
phrase around it by the two parentheses, so a depth of the phrase's length is enough.
-/
import VectorQuery.Proofs.Grammar.Soundness

namespace VectorQuery.Parser

open Grammar

theorem peek_of_tokens {ts : List Spanned} {t : Token} {w : List Token}
    (h : tokens ts = t :: w) : peek ts = t := by
  cases ts with
  | nil => cases h
  | cons s ts => exact (List.cons.inj h).1

theorem tokens_tail {ts : List Spanned} {t : Token} {w : List Token}
    (h : tokens ts = t :: w) : tokens ts.tail = w := by
  cases ts with
  | nil => cases h
  | cons s ts => exact (List.cons.inj h).2

theorem eq_cons_of_tokens {ts : List Spanned} {t : Token} {w : List Token}
    (h : tokens ts = t :: w) : ∃ s us, ts = s :: us ∧ s.token = t ∧ tokens us = w := by
  cases ts with
  | nil => cases h
  | cons s us => exact ⟨s, us, rfl, (List.cons.inj h).1, (List.cons.inj h).2⟩

/-- The token that a list of tokens starts with; past the last one it is the end of the query. -/
def head (w : List Token) : Token := w.headD .endOfQuery

@[simp] theorem head_cons (t : Token) (w : List Token) : head (t :: w) = t := rfl

theorem peek_eq_head (ts : List Spanned) : peek ts = head (tokens ts) := by
  cases ts <;> rfl

/-- Before a token that `F` holds of, `p` takes exactly `w` and answers `a`. -/
def Reads {α : Type} (p : Parser α) (w : List Token) (a : α) (F : Token → Prop) : Prop :=
  ∀ ⦃ts : List Spanned⦄ ⦃r : List Token⦄, tokens ts = w ++ r → F (head r) →
    ∃ rest, p ts = .ok (a, rest) ∧ tokens rest = r

/-- Nothing is asked of the token after a phrase. -/
def Anything (_ : Token) : Prop := True

theorem ok_bind {ε α β : Type} (a : α) (f : α → Except ε β) : (Except.ok a >>= f) = f a := rfl

/-! ## Single tokens -/

theorem reads_expect {t : Token} {label : String} {ts : List Spanned} {r : List Token}
    (h : tokens ts = t :: r) : expect t label ts = .ok (here ts, ts.tail) := by
  rw [expect, if_pos (peek_of_tokens h)]

theorem reads_identifier {label name : String} {ts : List Spanned} {r : List Token}
    (h : tokens ts = .identifier name :: r) : identifier label ts = .ok (name, ts.tail) := by
  rw [identifier, peek_of_tokens h]

theorem reads_closeParen {opened : Position} {expected : List String} {ts : List Spanned}
    {r : List Token} (h : tokens ts = .rightParen :: r) :
    closeParen opened expected ts = .ok ((), ts.tail) := by
  rw [closeParen, peek_of_tokens h]

/-! ## Conditions -/

theorem reads_literal {w : List Token} {v : Scalar Double} (h : Literal w v) :
    Reads literal w v Anything := by
  intro ts r hw _
  cases h with
  | number x =>
      refine ⟨ts.tail, ?_, tokens_tail hw⟩
      rw [literal, peek_of_tokens hw, if_neg (by simp)]
  | negative x =>
      have hw' := tokens_tail hw
      refine ⟨ts.tail.tail, ?_, tokens_tail hw'⟩
      rw [literal, peek_of_tokens hw, if_pos rfl, peek_of_tokens hw']
  | string s =>
      refine ⟨ts.tail, ?_, tokens_tail hw⟩
      rw [literal, peek_of_tokens hw, if_neg (by simp)]
  | true =>
      refine ⟨ts.tail, ?_, tokens_tail hw⟩
      rw [literal, peek_of_tokens hw, if_neg (by simp)]
  | false =>
      refine ⟨ts.tail, ?_, tokens_tail hw⟩
      rw [literal, peek_of_tokens hw, if_neg (by simp)]

@[simp] theorem compareOp?_token (op : CompareOp) : compareOp? op.token = some op := by
  cases op <;> rfl

theorem reads_comparisonOf (field : String) {op : CompareOp} {w : List Token}
    {v : Scalar Double} (h : Literal w v) :
    Reads (comparisonOf field) (op.token :: w) ⟨field, op, v⟩ Anything := by
  intro ts r hw hf
  obtain ⟨rest, hr, hrest⟩ := reads_literal h (tokens_tail hw) hf
  refine ⟨rest, ?_, hrest⟩
  rw [comparisonOf, peek_of_tokens hw, compareOp?_token]
  dsimp only
  rw [hr]
  rfl

/-- A condition is read in two steps: its field and the rest. -/
theorem reads_condition {w r : List Token} {c : Comparison Double} {ts : List Spanned}
    (label : String) (h : Condition w c) (hw : tokens ts = w ++ r) :
    ∃ us rest, identifier label ts = .ok (c.field, us) ∧
      comparisonOf c.field us = .ok (c, rest) ∧ tokens rest = r := by
  cases h with
  | mk field op hl =>
      obtain ⟨rest, hr, hrest⟩ := reads_comparisonOf _ hl (tokens_tail hw) trivial
      exact ⟨ts.tail, rest, reads_identifier hw, hr, hrest⟩

theorem reads_constraints {w : List Token} {cs : List (Comparison Double)}
    (h : Conditions w cs) (fuel : Nat) (hn : w.length ≤ fuel) :
    Reads (constraints fuel) w cs (· ≠ .comma) := by
  induction h generalizing fuel with
  | one hc =>
      intro ts r hw hf
      obtain ⟨us, rest, hi, ho, hrest⟩ := reads_condition "constraint field" hc hw
      refine ⟨rest, ?_, hrest⟩
      rw [constraints, hi]
      cases fuel with
      | zero =>
          show (comparisonOf _ us >>= _) = _
          rw [ho]
          rfl
      | succ fuel =>
          show (comparisonOf _ us >>= _) = _
          rw [ho]
          show (if peek rest = .comma then _ else _) = _
          rw [if_neg]
          rw [peek_eq_head, hrest]
          exact hf
  | cons hc _ ih =>
      intro ts r hw hf
      rw [List.append_assoc] at hw
      obtain ⟨us, rest, hi, ho, hrest⟩ := reads_condition "constraint field" hc hw
      rw [List.length_append, List.length_cons] at hn
      cases fuel with
      | zero => omega
      | succ fuel =>
          obtain ⟨rest', hr, hrest'⟩ := ih fuel (by omega) (tokens_tail hrest) hf
          refine ⟨rest', ?_, hrest'⟩
          rw [constraints, hi]
          show (comparisonOf _ us >>= _) = _
          rw [ho]
          show (if peek rest = .comma then _ else _) = _
          rw [if_pos (peek_of_tokens hrest), hr]
          rfl

/-! ## Optimizations -/

theorem reads_term {w : List Token} {t : Term Double} (h : Weighted w t) :
    Reads term w t (· ≠ .star) := by
  induction h with
  | before weight field =>
      intro ts r hw _
      obtain ⟨s, ts, rfl, hs, hw⟩ := eq_cons_of_tokens hw
      refine ⟨ts.tail.tail, ?_, tokens_tail (tokens_tail hw)⟩
      rw [term, hs]
      dsimp only
      rw [reads_expect hw]
      show (identifier _ ts.tail >>= _) = _
      rw [reads_identifier (tokens_tail hw)]
      rfl
  | after field weight =>
      intro ts r hw _
      obtain ⟨s, ts, rfl, hs, hw⟩ := eq_cons_of_tokens hw
      refine ⟨ts.tail.tail, ?_, tokens_tail (tokens_tail hw)⟩
      rw [term, hs]
      dsimp only
      rw [if_pos (peek_of_tokens hw), peek_of_tokens (tokens_tail hw)]
  | bare field =>
      intro ts r hw hf
      obtain ⟨s, ts, rfl, hs, hw⟩ := eq_cons_of_tokens hw
      have hr : tokens ts = r := hw
      refine ⟨ts, ?_, hr⟩
      rw [term, hs]
      dsimp only
      rw [if_neg]
      rw [peek_eq_head, hr]
      exact hf
  | negated _ ih =>
      intro ts r hw hf
      obtain ⟨s, ts, rfl, hs, hw⟩ := eq_cons_of_tokens hw
      obtain ⟨rest, hr, hrest⟩ := ih hw hf
      refine ⟨rest, ?_, hrest⟩
      rw [term, hs]
      dsimp only
      rw [hr]
      rfl

/-- The token goes on neither a term nor a sum. -/
def EndsSum (t : Token) : Prop := t ≠ .star ∧ joiningSign? t = none

/-- The first token of joined terms goes on no term, and neither does the token after them. -/
theorem head_joined {w r : List Token} {l : List (Term Double)} (h : Joined w l)
    (hf : EndsSum (head r)) : head (w ++ r) ≠ .star := by
  cases h with
  | nil => exact hf.1
  | plus _ _ => simp
  | minus _ _ => simp

theorem reads_moreTerms {w : List Token} {l : List (Term Double)} (h : Joined w l) (fuel : Nat)
    (hn : w.length ≤ fuel) : Reads (moreTerms fuel) w l EndsSum := by
  induction h generalizing fuel with
  | nil =>
      intro ts r hw hf
      refine ⟨ts, ?_, hw⟩
      cases fuel with
      | zero => rfl
      | succ fuel =>
          rw [moreTerms, peek_eq_head, hw, List.nil_append, hf.2]
  | plus ht hj ih =>
      intro ts r hw hf
      rw [List.cons_append, List.cons_append, List.append_assoc] at hw
      rw [List.length_append, List.length_cons] at hn
      cases fuel with
      | zero => omega
      | succ fuel =>
          obtain ⟨us, hu, hus⟩ := reads_term ht (tokens_tail hw) (head_joined hj hf)
          obtain ⟨rest, hr, hrest⟩ := ih fuel (by omega) hus hf
          refine ⟨rest, ?_, hrest⟩
          rw [moreTerms, peek_of_tokens hw]
          show (term ts.tail >>= _) = _
          rw [hu]
          show (moreTerms fuel us >>= _) = _
          rw [hr]
          rfl
  | minus ht hj ih =>
      intro ts r hw hf
      rw [List.cons_append, List.cons_append, List.append_assoc] at hw
      rw [List.length_append, List.length_cons] at hn
      cases fuel with
      | zero => omega
      | succ fuel =>
          obtain ⟨us, hu, hus⟩ := reads_term ht (tokens_tail hw) (head_joined hj hf)
          obtain ⟨rest, hr, hrest⟩ := ih fuel (by omega) hus hf
          refine ⟨rest, ?_, hrest⟩
          rw [moreTerms, peek_of_tokens hw]
          show (term ts.tail >>= _) = _
          rw [hu]
          show (moreTerms fuel us >>= _) = _
          rw [hr]
          rfl

theorem reads_objective {w : List Token} {o : Objective Double} (h : Sum w o) :
    Reads objective w o EndsSum := by
  cases h with
  | mk ht hj =>
      intro ts r hw hf
      rw [List.append_assoc] at hw
      obtain ⟨us, hu, hus⟩ := reads_term ht hw (head_joined hj hf)
      have hlen := congrArg List.length hus
      rw [length_tokens, List.length_append] at hlen
      obtain ⟨rest, hr, hrest⟩ := reads_moreTerms hj us.length (by omega) hus hf
      refine ⟨rest, ?_, hrest⟩
      rw [objective, hu]
      show (moreTerms us.length us >>= _) = _
      rw [hr]
      rfl

theorem reads_subjectTo {w : List Token} {cs : List (Comparison Double)} (h : SubjectTo w cs) :
    Reads subjectTo w cs (· ≠ .subjectTo) := by
  cases h with
  | absent =>
      intro ts r hw hf
      have hr : tokens ts = r := hw
      refine ⟨ts, ?_, hr⟩
      rw [subjectTo, if_neg]
      rw [peek_eq_head, hr]
      exact hf
  | @present w' _ hc =>
      intro ts r hw _
      have hw₁ : tokens ts = .subjectTo :: .leftParen :: (w' ++ .rightParen :: r) := by
        simpa using hw
      have hw₂ := tokens_tail hw₁
      have hw₃ := tokens_tail hw₂
      have hlen := congrArg List.length hw₃
      rw [length_tokens, List.length_append] at hlen
      obtain ⟨rest, hr, hrest⟩ :=
        reads_constraints hc ts.tail.tail.length (by omega) hw₃ (by simp)
      refine ⟨rest.tail, ?_, tokens_tail hrest⟩
      rw [subjectTo, if_pos (peek_of_tokens hw₁), reads_expect hw₂]
      show (constraints ts.tail.tail.length ts.tail.tail >>= _) = _
      rw [hr]
      show (closeParen _ _ rest >>= _) = _
      rw [reads_closeParen hrest]
      rfl

theorem reads_optimization (direction : Direction) {w ws : List Token} {o : Objective Double}
    {cs : List (Comparison Double)} (ho : Sum w o) (hc : SubjectTo ws cs) :
    Reads (optimization direction) (.leftParen :: (w ++ .rightParen :: ws))
      (.optimize direction o cs) (· ≠ .subjectTo) := by
  intro ts r hw hf
  have hw₁ : tokens ts = .leftParen :: (w ++ .rightParen :: (ws ++ r)) := by simpa using hw
  obtain ⟨us, hu, hus⟩ := reads_objective ho (tokens_tail hw₁) ⟨by simp, rfl⟩
  obtain ⟨rest, hr, hrest⟩ := reads_subjectTo hc (tokens_tail hus) hf
  refine ⟨rest, ?_, hrest⟩
  rw [optimization, reads_expect hw₁]
  show (objective ts.tail >>= _) = _
  rw [hu]
  show (closeParen _ _ us >>= _) = _
  rw [reads_closeParen hus]
  show (subjectTo us.tail >>= _) = _
  rw [hr]
  rfl

/-! ## Similarity searches and lookups -/

theorem reads_parameterValue {w : List Token} {v : Scalar Double} (h : ParameterValue w v) :
    Reads parameterValue w v Anything := by
  cases h with
  | name s =>
      intro ts r hw _
      refine ⟨ts.tail, ?_, tokens_tail hw⟩
      rw [parameterValue, peek_of_tokens hw]
  | literal hl =>
      intro ts r hw hf
      obtain ⟨rest, hr, hrest⟩ := reads_literal hl hw hf
      refine ⟨rest, ?_, hrest⟩
      have hp : ∀ name, peek ts ≠ .identifier name := by
        intro name
        cases hl <;> rw [peek_of_tokens hw] <;> simp
      rw [parameterValue]
      split
      · exact absurd ‹_› (hp _)
      · exact hr

/-- A phrase of a parameter has a name that exists and a value that is accepted for it. -/
theorem set_of_parameter {w : List Token} {s s' : Similarity} (h : Parameter w s s') :
    ∃ name v wv, name ∈ ["distance", "top_k", "type"] ∧ ParameterValue wv v ∧
      w = .identifier name :: .assign :: wv ∧ s.set name v = .ok s' := by
  cases h with
  | distance s hv h₀ h₂ =>
      refine ⟨_, _, _, by simp, hv, rfl, ?_⟩
      simp [Similarity.set, h₀, h₂]
  | topK s hv hk h₁ h₂ =>
      refine ⟨_, _, _, by simp, hv, rfl, ?_⟩
      simp [Similarity.set, hk, h₁, topKLimit]
      omega
  | type s hv => exact ⟨_, _, _, by simp, hv, rfl, rfl⟩

theorem reads_parameter {w : List Token} {s s' : Similarity} (h : Parameter w s s') :
    Reads (parameter s) w s' Anything := by
  obtain ⟨name, v, wv, hname, hv, rfl, hset⟩ := set_of_parameter h
  intro ts r hw hf
  have hw₁ := tokens_tail hw
  obtain ⟨rest, hr, hrest⟩ := reads_parameterValue hv (tokens_tail hw₁) hf
  refine ⟨rest, ?_, hrest⟩
  rw [parameter, reads_identifier hw]
  show (if name ∈ _ then _ else _) = _
  rw [if_pos hname, reads_expect hw₁]
  show (parameterValue ts.tail.tail >>= _) = _
  rw [hr]
  simp only [bind, Except.bind, hset]

theorem reads_parameters {w : List Token} {s s' : Similarity} (h : Parameters w s s')
    (fuel : Nat) (hn : w.length ≤ fuel) : Reads (parameters fuel s) w s' (· ≠ .comma) := by
  induction h generalizing fuel with
  | nil s =>
      intro ts r hw hf
      have hr : tokens ts = r := hw
      refine ⟨ts, ?_, hr⟩
      cases fuel with
      | zero => rfl
      | succ fuel =>
          rw [parameters, if_neg]
          rw [peek_eq_head, hr]
          exact hf
  | cons hp _ ih =>
      intro ts r hw hf
      rw [List.cons_append, List.cons_append, List.append_assoc] at hw
      rw [List.length_append, List.length_cons] at hn
      cases fuel with
      | zero => omega
      | succ fuel =>
          obtain ⟨us, hu, hus⟩ := reads_parameter hp (tokens_tail hw) trivial
          obtain ⟨rest, hr, hrest⟩ := ih fuel (by omega) hus hf
          refine ⟨rest, ?_, hrest⟩
          rw [parameters, if_pos (peek_of_tokens hw), hu]
          exact hr

theorem reads_lookupName {t : Token} {name : String} (h : LookupName t name)
    (entityType : String) (position opened : Position) {ts : List Spanned} {r : List Token}
    (hw : tokens ts = t :: r) :
    lookupName entityType position opened ts = .ok (name, ts.tail) := by
  cases h <;> rw [lookupName, peek_of_tokens hw]

theorem reads_lookup (entityType : String) (position : Position) {t : Token} {name : String}
    (fuzzy : Bool) (h : LookupName t name) :
    Reads (lookup entityType position)
      (.leftParen :: t :: (if fuzzy then [.tilde, .rightParen] else [.rightParen]))
      (.lookup entityType name fuzzy) Anything := by
  intro ts r hw _
  have hw₁ := tokens_tail hw
  have hw₂ := tokens_tail hw₁
  cases fuzzy with
  | true =>
      have hw₃ := tokens_tail hw₂
      refine ⟨ts.tail.tail.tail.tail, ?_, tokens_tail hw₃⟩
      rw [lookup, reads_lookupName h _ _ _ hw₁]
      simp only [ok_bind, peek_of_tokens hw₂, if_true, decide_true]
      rw [lookupEnd, peek_of_tokens hw₃]
      rfl
  | false =>
      refine ⟨ts.tail.tail.tail, ?_, tokens_tail hw₂⟩
      rw [lookup, reads_lookupName h _ _ _ hw₁]
      simp only [ok_bind, peek_of_tokens hw₂, reduceCtorEq, if_false, decide_false]
      rw [lookupEnd, peek_of_tokens hw₂]
      rfl

/-! ## The levels -/

/-- The token goes on no primary query. -/
def EndsPrimary (t : Token) : Prop := t ≠ .subjectTo

/-- The token goes on no narrowed query either. -/
def EndsPostfixed (t : Token) : Prop := EndsPrimary t ∧ t ≠ .dot

/-- The token goes on no analogy either. -/
def EndsAnalogy (t : Token) : Prop := EndsPostfixed t ∧ t ≠ .isTo

/-- The token goes on no relational query and no negation either. -/
def EndsRelational (t : Token) : Prop := EndsAnalogy t ∧ arrow? t = none

/-- The token goes on no conjunction either. -/
def EndsConjunction (t : Token) : Prop := EndsRelational t ∧ t ≠ .and

/-- The token goes on no phrase at all. -/
def EndsQuery (t : Token) : Prop := EndsConjunction t ∧ t ≠ .or

attribute [local simp] EndsPrimary EndsPostfixed EndsAnalogy EndsRelational EndsConjunction
  EndsQuery arrow?

theorem endsQuery_rightParen : EndsQuery .rightParen := by simp

theorem reads_similarity {nested : Parser Query} {w ws : List Token} {target : Query}
    {s : Similarity} (hn : Reads nested w target EndsQuery)
    (hp : Parameters ws ⟨none, none, none⟩ s) :
    Reads (similarity nested) (.leftParen :: (w ++ (ws ++ [.rightParen])))
      (.similar target s.distance s.topK s.targetType) Anything := by
  intro ts r hw _
  have hw₁ : tokens ts = .leftParen :: (w ++ (ws ++ .rightParen :: r)) := by simpa using hw
  have hnext : EndsQuery (head (ws ++ .rightParen :: r)) := by
    cases hp with
    | nil => exact endsQuery_rightParen
    | cons _ _ => simp
  obtain ⟨us, hu, hus⟩ := hn (tokens_tail hw₁) hnext
  have hlen := congrArg List.length hus
  rw [length_tokens, List.length_append] at hlen
  obtain ⟨vs, hv, hvs⟩ := reads_parameters hp us.length (by omega) hus (by simp)
  refine ⟨vs.tail, ?_, tokens_tail hvs⟩
  rw [similarity, reads_expect hw₁]
  show (nested ts.tail >>= _) = _
  rw [hu]
  show (parameters us.length _ us >>= _) = _
  rw [hv]
  show (closeParen _ _ vs >>= _) = _
  rw [reads_closeParen hvs]
  rfl

theorem reads_group {nested : Parser Query} {w : List Token} {q : Query}
    (hn : Reads nested w q EndsQuery) :
    Reads (primary nested) (.leftParen :: (w ++ [.rightParen])) q EndsPrimary := by
  intro ts r hw _
  have hw₁ : tokens ts = .leftParen :: (w ++ .rightParen :: r) := by simpa using hw
  obtain ⟨us, hu, hus⟩ := hn (tokens_tail hw₁) endsQuery_rightParen
  refine ⟨us.tail, ?_, tokens_tail hus⟩
  rw [primary, peek_of_tokens hw₁]
  dsimp only
  rw [hu]
  show (closeParen _ _ us >>= _) = _
  rw [reads_closeParen hus]
  rfl

theorem reads_comparison (nested : Parser Query) {w : List Token} {c : Comparison Double}
    (h : Condition w c) : Reads (primary nested) w (.comparison c) EndsPrimary := by
  intro ts r hw _
  cases h with
  | mk field op hl =>
      have hw₁ := tokens_tail hw
      obtain ⟨rest, hr, hrest⟩ := reads_comparisonOf field hl hw₁ trivial
      refine ⟨rest, ?_, hrest⟩
      rw [primary, peek_of_tokens hw]
      dsimp only
      rw [peek_of_tokens hw₁, if_pos (by cases op <;> rfl), hr]
      rfl

theorem reads_primary_lookup (nested : Parser Query) (entityType : String) {t : Token}
    {name : String} (fuzzy : Bool) (h : LookupName t name) :
    Reads (primary nested)
      (.identifier entityType :: .leftParen :: t ::
        (if fuzzy then [.tilde, .rightParen] else [.rightParen]))
      (.lookup entityType name fuzzy) EndsPrimary := by
  intro ts r hw _
  have hw₁ := tokens_tail hw
  obtain ⟨rest, hr, hrest⟩ := reads_lookup entityType (here ts) fuzzy h hw₁ trivial
  refine ⟨rest, ?_, hrest⟩
  rw [primary, peek_of_tokens hw]
  dsimp only
  rw [peek_of_tokens hw₁, if_neg (by simp [Token.isComparison]), if_pos rfl, hr]

theorem reads_primary_similar {nested : Parser Query} {w ws : List Token} {target : Query}
    {s : Similarity} (hn : Reads nested w target EndsQuery)
    (hp : Parameters ws ⟨none, none, none⟩ s) :
    Reads (primary nested) (.similarTo :: .leftParen :: (w ++ (ws ++ [.rightParen])))
      (.similar target s.distance s.topK s.targetType) EndsPrimary := by
  intro ts r hw _
  obtain ⟨rest, hr, hrest⟩ := reads_similarity hn hp (tokens_tail hw) trivial
  refine ⟨rest, ?_, hrest⟩
  rw [primary, peek_of_tokens hw]
  exact hr

theorem reads_primary_optimize (nested : Parser Query) (direction : Direction)
    {w ws : List Token} {o : Objective Double} {cs : List (Comparison Double)} (ho : Sum w o)
    (hc : SubjectTo ws cs) :
    Reads (primary nested) (direction.token :: .leftParen :: (w ++ .rightParen :: ws))
      (.optimize direction o cs) EndsPrimary := by
  intro ts r hw hf
  obtain ⟨rest, hr, hrest⟩ :=
    reads_optimization direction ho hc (tokens_tail hw) hf
  refine ⟨rest, ?_, hrest⟩
  rw [primary, peek_of_tokens hw]
  cases direction <;> exact hr

theorem reads_postfixed {nested : Parser Query} {w : List Token} {q : Query}
    (hp : Reads (primary nested) w q EndsPrimary) :
    Reads (postfixed nested) w q EndsPostfixed := by
  intro ts r hw hf
  obtain ⟨us, hu, hus⟩ := hp hw hf.1
  refine ⟨us, ?_, hus⟩
  rw [postfixed, hu]
  show (if peek us = .dot then _ else _) = _
  rw [if_neg]
  rw [peek_eq_head, hus]
  exact hf.2

theorem reads_narrowed {nested : Parser Query} {w ws : List Token} {q : Query}
    {c : Comparison Double} (hp : Reads (primary nested) w q EndsPrimary)
    (hc : Condition ws c) :
    Reads (postfixed nested) (w ++ .dot :: ws) (.logical .and [q, .comparison c])
      EndsPostfixed := by
  intro ts r hw _
  rw [List.append_assoc] at hw
  obtain ⟨us, hu, hus⟩ := hp hw (by simp)
  obtain ⟨vs, rest, hi, hr, hrest⟩ := reads_condition "field name" hc (tokens_tail hus)
  refine ⟨rest, ?_, hrest⟩
  rw [postfixed, hu]
  show (if peek us = .dot then _ else _) = _
  rw [if_pos (peek_of_tokens hus), hi]
  show (comparisonOf c.field vs >>= _) = _
  rw [hr]
  rfl

theorem reads_analogyTarget {w : List Token} {target : Option String} (h : Target w target) :
    Reads analogyTarget w target Anything := by
  intro ts r hw _
  cases h with
  | «open» =>
      refine ⟨ts.tail, ?_, tokens_tail hw⟩
      rw [analogyTarget, peek_of_tokens hw]
  | typed name =>
      have hw₁ := tokens_tail hw
      have hw₂ := tokens_tail hw₁
      have hw₃ := tokens_tail hw₂
      refine ⟨ts.tail.tail.tail.tail, ?_, tokens_tail hw₃⟩
      rw [analogyTarget, peek_of_tokens hw]
      dsimp only
      rw [reads_expect hw₁]
      show (expect _ _ ts.tail.tail >>= _) = _
      rw [reads_expect hw₂]
      show (closeParen _ _ ts.tail.tail.tail >>= _) = _
      rw [reads_closeParen hw₃]
      rfl

theorem reads_plainAnalogy {nested : Parser Query} {w : List Token} {q : Query}
    (hp : Reads (postfixed nested) w q EndsPostfixed) :
    Reads (analogy nested) w q EndsAnalogy := by
  intro ts r hw hf
  obtain ⟨us, hu, hus⟩ := hp hw hf.1
  refine ⟨us, ?_, hus⟩
  rw [analogy, hu]
  show (if peek us = .isTo then _ else _) = _
  rw [if_neg]
  rw [peek_eq_head, hus]
  exact hf.2

theorem reads_analogy {nested : Parser Query} {wa wb wc wt : List Token} {a b c : Query}
    {target : Option String} (ha : Reads (postfixed nested) wa a EndsPostfixed)
    (hb : Reads (postfixed nested) wb b EndsPostfixed)
    (hc : Reads (postfixed nested) wc c EndsPostfixed) (ht : Target wt target) :
    Reads (analogy nested) (wa ++ .isTo :: (wb ++ .as :: (wc ++ .isTo :: wt)))
      (.analogy a b c target) EndsAnalogy := by
  intro ts r hw _
  have hw₁ : tokens ts = wa ++ .isTo :: (wb ++ .as :: (wc ++ .isTo :: (wt ++ r))) := by
    simpa using hw
  obtain ⟨us, hu, hus⟩ := ha hw₁ (by simp)
  obtain ⟨vs, hv, hvs⟩ := hb (tokens_tail hus) (by simp)
  obtain ⟨xs, hx, hxs⟩ := hc (tokens_tail hvs) (by simp)
  obtain ⟨rest, hr, hrest⟩ := reads_analogyTarget ht (tokens_tail hxs) trivial
  refine ⟨rest, ?_, hrest⟩
  rw [analogy, hu]
  show (if peek us = .isTo then _ else _) = _
  rw [if_pos (peek_of_tokens hus), hv]
  show (expect _ _ vs >>= _) = _
  rw [reads_expect hvs]
  show (postfixed nested vs.tail >>= _) = _
  rw [hx]
  show (expect _ _ xs >>= _) = _
  rw [reads_expect hxs]
  show (analogyTarget xs.tail >>= _) = _
  rw [hr]
  rfl

/-! The grammar grows a relational phrase at its right end, the parser carries what it has read so
far along.  So `Carries` speaks of the state in which the loop stands behind the phrase. -/

/-- Behind the phrase `w` the loop over arrows carries `q` and has fuel for the rest. -/
def Carries (nested : Parser Query) (w : List Token) (q : Query) : Prop :=
  ∀ ⦃ts : List Spanned⦄ ⦃r : List Token⦄, tokens ts = w ++ r → EndsAnalogy (head r) →
    ∃ rest fuel, relational nested ts = arrows nested fuel q rest ∧ tokens rest = r ∧
      r.length ≤ fuel

theorem carries_plain {nested : Parser Query} {w : List Token} {q : Query}
    (ha : Reads (analogy nested) w q EndsAnalogy) : Carries nested w q := by
  intro ts r hw hf
  obtain ⟨us, hu, hus⟩ := ha hw hf
  refine ⟨us, us.length, ?_, hus, Nat.le_of_eq (by rw [← hus, length_tokens])⟩
  rw [relational, hu]
  rfl

theorem arrow?_of_arrow {t : Token} {name : Option String} (h : Arrow t name) :
    arrow? t = some name := by
  cases h <;> rfl

theorem carries_arrow {nested : Parser Query} {w ws : List Token} {t : Token}
    {name : Option String} {l q : Query} (hl : Carries nested w l) (ht : Arrow t name)
    (ha : Reads (analogy nested) ws q EndsAnalogy) :
    Carries nested (w ++ t :: ws) (.relation l name q) := by
  intro ts r hw hf
  rw [List.append_assoc] at hw
  have hstop : EndsAnalogy (head ((t :: ws) ++ r)) := by
    cases ht <;> simp
  obtain ⟨us, fuel, hu, hus, hfuel⟩ := hl hw hstop
  rw [List.cons_append, List.length_cons, List.length_append] at hfuel
  obtain ⟨rest, hr, hrest⟩ := ha (tokens_tail hus) hf
  cases fuel with
  | zero => omega
  | succ fuel =>
      refine ⟨rest, fuel, ?_, hrest, by omega⟩
      rw [hu, arrows, peek_of_tokens hus, arrow?_of_arrow ht]
      dsimp only
      rw [hr]
      rfl

theorem reads_relational {nested : Parser Query} {w : List Token} {q : Query}
    (h : Carries nested w q) : Reads (relational nested) w q EndsRelational := by
  intro ts r hw hf
  obtain ⟨rest, fuel, hr, hrest, _⟩ := h hw hf.1
  refine ⟨rest, ?_, hrest⟩
  rw [hr]
  cases fuel with
  | zero => rfl
  | succ fuel => rw [arrows, peek_eq_head, hrest, hf.2]

/-- No phrase below the level of negations starts with a negation. -/
theorem head_ne_not {level : Level} {w : List Token} {q : Query} (h : Derives level w q) :
    level ∈ [.relational, .analogy, .postfixed, .primary] → ∃ t v, w = t :: v ∧ t ≠ .not := by
  induction h with
  | disjunction | conjunction | not | plainNegation => simp
  | arrow _ _ _ ih _ =>
      intro _
      obtain ⟨t, v, rfl, ht⟩ := ih (by simp)
      exact ⟨t, _, rfl, ht⟩
  | analogy _ _ _ _ ih _ _ =>
      intro _
      obtain ⟨t, v, rfl, ht⟩ := ih (by simp)
      exact ⟨t, _, rfl, ht⟩
  | narrowed _ _ ih =>
      intro _
      obtain ⟨t, v, rfl, ht⟩ := ih (by simp)
      exact ⟨t, _, rfl, ht⟩
  | plainRelational _ ih | plainAnalogy _ ih | plainPostfixed _ ih =>
      intro _
      exact ih (by simp)
  | group | similar | lookup => exact fun _ => ⟨_, _, rfl, by simp⟩
  | optimize direction => exact fun _ => ⟨_, _, rfl, by cases direction <;> simp [Direction.token]⟩
  | comparison hc =>
      intro _
      cases hc
      exact ⟨_, _, rfl, by simp⟩

theorem reads_plainNegation {nested : Parser Query} {w : List Token} {q : Query}
    (h : Derives .relational w q) (hr : Reads (relational nested) w q EndsRelational) :
    Reads (negation nested) w q EndsRelational := by
  intro ts r hw hf
  obtain ⟨t, v, rfl, ht⟩ := head_ne_not h (by simp)
  obtain ⟨rest, hrest⟩ := hr hw hf
  obtain ⟨s, us, rfl, hs, _⟩ := eq_cons_of_tokens hw
  refine ⟨rest, ?_, hrest.2⟩
  rw [negation, if_neg (by rw [hs]; exact ht)]
  exact hrest.1

theorem reads_not {nested : Parser Query} {w : List Token} {q : Query}
    (h : Reads (negation nested) w q EndsRelational) :
    Reads (negation nested) (.not :: w) (.logical .not [q]) EndsRelational := by
  intro ts r hw hf
  obtain ⟨s, us, rfl, hs, hus⟩ := eq_cons_of_tokens hw
  obtain ⟨rest, hr, hrest⟩ := h hus hf
  refine ⟨rest, ?_, hrest⟩
  rw [negation, if_pos hs, hr]
  rfl

/-! ## Operands -/

/-- The token behind an operand is the separator or the one behind all operands. -/
theorem reads_operands {separator : Token} {operand : Parser Query} {F : Token → Prop}
    {parts : List (List Token × Query)} (hs : F separator)
    (hp : ∀ p ∈ parts, Reads operand p.1 p.2 F) (fuel : Nat)
    (hn : (parts.flatMap fun p => separator :: p.1).length ≤ fuel) :
    Reads (operands separator operand fuel) (parts.flatMap fun p => separator :: p.1)
      (parts.map (·.2)) fun t => F t ∧ t ≠ separator := by
  induction parts generalizing fuel with
  | nil =>
      intro ts r hw hf
      have hr : tokens ts = r := hw
      refine ⟨ts, ?_, hr⟩
      cases fuel with
      | zero => rfl
      | succ fuel =>
          rw [operands, if_neg]
          · rfl
          · rw [peek_eq_head, hr]
            exact hf.2
  | cons p parts ih =>
      intro ts r hw hf
      rw [List.flatMap_cons, List.append_assoc, List.cons_append] at hw
      rw [List.flatMap_cons, List.length_append, List.length_cons] at hn
      cases fuel with
      | zero => omega
      | succ fuel =>
          have hnext : F (head ((parts.flatMap fun p => separator :: p.1) ++ r)) := by
            cases parts with
            | nil => exact hf.1
            | cons => exact hs
          obtain ⟨us, hu, hus⟩ := hp p (by simp) (tokens_tail hw) hnext
          obtain ⟨rest, hr, hrest⟩ :=
            ih (fun p hm => hp p (List.mem_cons_of_mem _ hm)) fuel (by omega) hus hf
          refine ⟨rest, ?_, hrest⟩
          rw [operands, if_pos (peek_of_tokens hw), hu]
          show (operands separator operand fuel us >>= _) = _
          rw [hr]
          rfl

theorem reads_joined {op : Connective} {separator : Token} {operand : Parser Query}
    {F : Token → Prop} {parts : List (List Token × Query)} (hs : F separator) (hne : parts ≠ [])
    (hp : ∀ p ∈ parts, Reads operand p.1 p.2 F) :
    Reads (joined op separator operand) (separated separator (parts.map (·.1)))
      (Grammar.joined op (parts.map (·.2))) fun t => F t ∧ t ≠ separator := by
  intro ts r hw hf
  cases parts with
  | nil => exact absurd rfl hne
  | cons p parts =>
      rw [List.map_cons, separated_cons, List.flatMap_map, List.append_assoc] at hw
      have hnext : F (head ((parts.flatMap fun p => separator :: p.1) ++ r)) := by
        cases parts with
        | nil => exact hf.1
        | cons => exact hs
      obtain ⟨us, hu, hus⟩ := hp p (by simp) hw hnext
      have hlen := congrArg List.length hus
      rw [length_tokens, List.length_append] at hlen
      obtain ⟨rest, hr, hrest⟩ :=
        reads_operands hs (fun p hm => hp p (List.mem_cons_of_mem _ hm)) us.length
          (by omega) hus hf
      refine ⟨rest, ?_, hrest⟩
      rw [joined, hu]
      show (operands separator operand us.length us >>= _) = _
      rw [hr]
      cases parts <;> rfl

/-! ## All phrases -/

/-- What the parser does with a phrase of a level. -/
def Accepts (nested : Parser Query) (w : List Token) (q : Query) : Level → Prop
  | .disjunction => Reads (disjunction nested) w q EndsQuery
  | .conjunction => Reads (conjunction nested) w q EndsConjunction
  | .negation => Reads (negation nested) w q EndsRelational
  | .relational => Carries nested w q
  | .analogy => Reads (analogy nested) w q EndsAnalogy
  | .postfixed => Reads (postfixed nested) w q EndsPostfixed
  | .primary => Reads (primary nested) w q EndsPrimary

theorem length_le_separated {separator : Token} {parts : List (List Token × Query)}
    {p : List Token × Query} (hp : p ∈ parts) :
    p.1.length ≤ (separated separator (parts.map (·.1))).length := by
  induction parts with
  | nil => cases hp
  | cons q parts ih =>
      rw [List.map_cons, separated_cons, List.length_append]
      rcases List.mem_cons.1 hp with rfl | hp
      · omega
      · cases parts with
        | nil => cases hp
        | cons q' parts =>
            have := ih hp
            rw [List.map_cons, separated_cons, List.length_append] at this
            rw [List.map_cons, List.flatMap_cons, List.length_append, List.length_cons]
            omega

/-- A phrase is accepted at its level when the depth that is left is at least one less than its
length. -/
theorem reads_of_derives {level : Level} {w : List Token} {q : Query} (h : Derives level w q) :
    ∀ {depth : Nat}, w.length ≤ depth + 1 → Accepts (query depth) w q level := by
  induction h with
  | disjunction hne _ ih =>
      intro depth hd
      refine reads_joined (by simp) hne fun p hp => ih p hp ?_
      exact Nat.le_trans (length_le_separated hp) hd
  | conjunction hne _ ih =>
      intro depth hd
      refine reads_joined (by simp) hne fun p hp => ih p hp ?_
      exact Nat.le_trans (length_le_separated hp) hd
  | not _ ih =>
      intro depth hd
      rw [List.length_cons] at hd
      exact reads_not (ih (by omega))
  | plainNegation h ih =>
      intro depth hd
      exact reads_plainNegation h (reads_relational (ih hd))
  | arrow _ ht _ ihl ihr =>
      intro depth hd
      rw [List.length_append, List.length_cons] at hd
      exact carries_arrow (ihl (by omega)) ht (ihr (by omega))
  | plainRelational _ ih => exact fun hd => carries_plain (ih hd)
  | analogy _ _ _ ht iha ihb ihc =>
      intro depth hd
      simp only [List.length_append, List.length_cons] at hd
      exact reads_analogy (iha (by omega)) (ihb (by omega)) (ihc (by omega)) ht
  | plainAnalogy _ ih => exact fun hd => reads_plainAnalogy (ih hd)
  | narrowed _ hc ih =>
      intro depth hd
      rw [List.length_append] at hd
      exact reads_narrowed (ih (by omega)) hc
  | plainPostfixed _ ih => exact fun hd => reads_postfixed (ih hd)
  | group _ ih =>
      intro depth hd
      simp only [List.length_append, List.length_cons] at hd
      obtain ⟨depth, rfl⟩ : ∃ k, depth = k + 1 := ⟨depth - 1, by omega⟩
      exact reads_group (ih (by omega))
  | similar _ hp ih =>
      intro depth hd
      simp only [List.length_append, List.length_cons] at hd
      obtain ⟨depth, rfl⟩ : ∃ k, depth = k + 1 := ⟨depth - 1, by omega⟩
      exact reads_primary_similar (ih (by omega)) hp
  | optimize direction ho hc => exact fun _ => reads_primary_optimize _ direction ho hc
  | comparison hc => exact fun _ => reads_comparison _ hc
  | lookup entityType fuzzy h => exact fun _ => reads_primary_lookup _ entityType fuzzy h

/-! ## The grammar and the parser -/

theorem end_notMem_literal {w : List Token} {v : Scalar Double} (h : Literal w v) :
    Token.endOfQuery ∉ w := by
  cases h <;> simp

theorem end_notMem_condition {w : List Token} {c : Comparison Double} (h : Condition w c) :
    Token.endOfQuery ∉ w := by
  cases h with
  | mk field op hl =>
      have := end_notMem_literal hl
      cases op <;> simpa [CompareOp.token]

theorem end_notMem_conditions {w : List Token} {cs : List (Comparison Double)}
    (h : Conditions w cs) : Token.endOfQuery ∉ w := by
  induction h with
  | one hc => exact end_notMem_condition hc
  | cons hc _ ih => simp [end_notMem_condition hc, ih]

theorem end_notMem_subjectTo {w : List Token} {cs : List (Comparison Double)}
    (h : SubjectTo w cs) : Token.endOfQuery ∉ w := by
  cases h with
  | absent => simp
  | present hc => simp [end_notMem_conditions hc]

theorem end_notMem_weighted {w : List Token} {t : Term Double} (h : Weighted w t) :
    Token.endOfQuery ∉ w := by
  induction h with
  | before | after | bare => simp
  | negated _ ih => simp [ih]

theorem end_notMem_sum {w : List Token} {o : Objective Double} (h : Sum w o) :
    Token.endOfQuery ∉ w := by
  have hj : ∀ {w l}, Joined w l → Token.endOfQuery ∉ w := by
    intro w l h
    induction h with
    | nil => simp
    | plus ht _ ih | minus ht _ ih => simp [end_notMem_weighted ht, ih]
  cases h with
  | mk ht hl => simp [end_notMem_weighted ht, hj hl]

theorem end_notMem_parameterValue {w : List Token} {v : Scalar Double} (h : ParameterValue w v) :
    Token.endOfQuery ∉ w := by
  cases h with
  | name => simp
  | literal hl => exact end_notMem_literal hl

theorem end_notMem_parameter {w : List Token} {s s' : Similarity} (h : Parameter w s s') :
    Token.endOfQuery ∉ w := by
  cases h with
  | distance _ hv | topK _ hv | type _ hv => simpa using end_notMem_parameterValue hv

theorem end_notMem_parameters {w : List Token} {s s' : Similarity} (h : Parameters w s s') :
    Token.endOfQuery ∉ w := by
  induction h with
  | nil => simp
  | cons hp _ ih => simp [end_notMem_parameter hp, ih]

theorem end_notMem_target {w : List Token} {target : Option String} (h : Target w target) :
    Token.endOfQuery ∉ w := by
  cases h <;> simp

theorem end_notMem_separated {separator : Token} (hs : separator ≠ .endOfQuery)
    {parts : List (List Token × Query)} (hp : ∀ p ∈ parts, Token.endOfQuery ∉ p.1) :
    Token.endOfQuery ∉ separated separator (parts.map (·.1)) := by
  cases parts with
  | nil => simp [separated]
  | cons p parts =>
      rw [List.map_cons, separated_cons]
      simp only [List.mem_cons, forall_eq_or_imp] at hp
      simp only [List.mem_append, List.mem_flatMap, List.mem_map, List.mem_cons, not_or,
        not_exists, not_and]
      refine ⟨hp.1, ?_⟩
      rintro _ ⟨v, hv, rfl⟩
      exact ⟨hs.symm, hp.2 v hv⟩

/-- The end of the query is in no phrase. -/
theorem end_notMem_of_derives {level : Level} {w : List Token} {q : Query}
    (h : Derives level w q) : Token.endOfQuery ∉ w := by
  induction h with
  | disjunction _ _ ih => exact end_notMem_separated (by simp) ih
  | conjunction _ _ ih => exact end_notMem_separated (by simp) ih
  | not _ ih => simp [ih]
  | plainNegation _ ih | plainRelational _ ih | plainAnalogy _ ih | plainPostfixed _ ih => exact ih
  | arrow _ ht _ ihl ihr => cases ht <;> simp [ihl, ihr]
  | analogy _ _ _ ht iha ihb ihc => simp [iha, ihb, ihc, end_notMem_target ht]
  | narrowed _ hc ih => simp [ih, end_notMem_condition hc]
  | group _ ih => simp [ih]
  | similar _ hp ih => simp [ih, end_notMem_parameters hp]
  | optimize direction ho hc =>
      cases direction <;> simp [Direction.token, end_notMem_sum ho, end_notMem_subjectTo hc]
  | comparison hc => exact end_notMem_condition hc
  | lookup _ fuzzy hn => cases fuzzy <;> cases hn <;> simp

/-- The tokens before the end of the query. -/
def beforeEnd (ts : List Spanned) : List Token := (tokens ts).takeWhile (· ≠ .endOfQuery)

/-- Behind the tokens before the end of the query comes the end of the query. -/
theorem head_afterEnd (w : List Token) :
    head (w.dropWhile (· ≠ .endOfQuery)) = .endOfQuery := by
  have h := List.head?_dropWhile_not (fun t : Token => decide (t ≠ .endOfQuery)) w
  cases hd : w.dropWhile (· ≠ .endOfQuery) with
  | nil => rfl
  | cons t v =>
      rw [hd] at h
      simpa using h

/-- What stands before the end of the query is all of `w` when `w` has no end in it. -/
theorem beforeEnd_eq {ts rest : List Spanned} {w : List Token}
    (hw : tokens ts = w ++ tokens rest) (hend : Token.endOfQuery ∉ w)
    (hrest : peek rest = .endOfQuery) : beforeEnd ts = w := by
  have hpos : ∀ t ∈ w, decide (t ≠ Token.endOfQuery) = true := by
    intro t ht
    exact decide_eq_true fun he => hend (he ▸ ht)
  rw [beforeEnd, hw, List.takeWhile_append_of_pos hpos]
  cases rest with
  | nil => simp
  | cons s rest =>
      have hs : s.token = .endOfQuery := hrest
      simp [hs]

theorem peek_of_expectEnd {ts : List Spanned} {u : Unit} (h : expectEnd ts = .ok u) :
    peek ts = .endOfQuery := by
  unfold expectEnd at h
  split at h
  · assumption
  · cases h
  · cases h

/-- A phrase before the end of the query is accepted. -/
theorem ofTokens_of_derives {ts : List Spanned} {w r : List Token} {q : Query}
    (h : Derives .disjunction w q) (hts : tokens ts = w ++ r) (hend : head r = .endOfQuery) :
    ofTokens ts = .ok q := by
  have hlen : w.length ≤ ts.length := by
    rw [← length_tokens, hts, List.length_append]
    exact Nat.le_add_right _ _
  obtain ⟨rest, hr, hrest⟩ : ∃ rest, disjunction (query (ts.length - 1)) ts = .ok (q, rest) ∧
      tokens rest = r :=
    reads_of_derives h (by omega) hts (by rw [hend]; simp [EndsQuery])
  have hne : 0 < ts.length := by
    cases ts with
    | nil => cases hr
    | cons s ts => exact Nat.succ_pos _
  have hq : query ts.length ts = .ok (q, rest) := by
    rw [← Nat.succ_pred_eq_of_pos hne]
    exact hr
  have he : expectEnd rest = .ok () := by
    rw [expectEnd, peek_eq_head, hrest, hend]
  rw [ofTokens, hq, ok_bind]
  dsimp only
  rw [he, ok_bind]

/-- What is accepted is a phrase, with the end of the query behind it. -/
theorem derives_of_ofTokens {ts : List Spanned} {q : Query} (h : ofTokens ts = .ok q) :
    ∃ w rest, tokens ts = w ++ tokens rest ∧ peek rest = .endOfQuery ∧ Derives .disjunction w q := by
  obtain ⟨⟨q', rest⟩, hq, h⟩ := ok_of_bind h
  obtain ⟨_, hend, h⟩ := ok_of_bind h
  cases h
  obtain ⟨w, hw, hd⟩ := sound_query _ hq
  exact ⟨w, rest, hw, peek_of_expectEnd hend, hd⟩

/-- The parser accepts exactly the phrases of the grammar, and answers the query of the
derivation. -/
theorem ofTokens_eq_ok_iff_derives (ts : List Spanned) (q : Query) :
    ofTokens ts = .ok q ↔ Derives .disjunction (beforeEnd ts) q := by
  constructor
  · intro h
    obtain ⟨w, rest, hw, hend, hd⟩ := derives_of_ofTokens h
    rw [beforeEnd_eq hw (end_notMem_of_derives hd) hend]
    exact hd
  · intro h
    exact ofTokens_of_derives h List.takeWhile_append_dropWhile.symm (head_afterEnd (tokens ts))

end VectorQuery.Parser
