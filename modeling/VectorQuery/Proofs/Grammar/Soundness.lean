/-
# What the parser accepts is a phrase

`Sound p L`: whatever the reader `p` takes off the front of a list of tokens is a phrase of the
language `L`, and the answer is what the phrase stands for.  A level of the parser is sound when
the reader for nested queries is (`sound_disjunction` and the lemmas before it), so by induction on
the depth of nesting the parser is (`sound_query`).
-/
import VectorQuery.Proofs.Failure
import VectorQuery.Proofs.Grammar.Basic

namespace VectorQuery.Parser

open Grammar

/-- Tokens without their positions. -/
def tokens (ts : List Spanned) : List Token := ts.map (·.token)

@[simp] theorem tokens_nil : tokens [] = [] := rfl

@[simp] theorem tokens_cons (t : Spanned) (ts : List Spanned) :
    tokens (t :: ts) = t.token :: tokens ts := rfl

@[simp] theorem tokens_append (ts us : List Spanned) :
    tokens (ts ++ us) = tokens ts ++ tokens us := List.map_append

theorem length_tokens (ts : List Spanned) : (tokens ts).length = ts.length := List.length_map _

/-- A token that is seen stands at the front. -/
theorem tokens_of_peek {ts : List Spanned} {t : Token} (h : peek ts = t)
    (ht : t ≠ .endOfQuery) : tokens ts = t :: tokens ts.tail := by
  cases ts with
  | nil => exact absurd h.symm ht
  | cons s ts => subst h; rfl

/-- What `p` takes off the front is a phrase of `L` for its answer. -/
def Sound {α : Type} (p : Parser α) (L : List Token → α → Prop) : Prop :=
  ∀ ⦃ts : List Spanned⦄ ⦃a : α⦄ ⦃rest : List Spanned⦄, p ts = .ok (a, rest) →
    ∃ w, tokens ts = w ++ tokens rest ∧ L w a

theorem Sound.mono {α : Type} {p : Parser α} {L L' : List Token → α → Prop} (hp : Sound p L)
    (h : ∀ w a, L w a → L' w a) : Sound p L' := by
  intro ts a rest hr
  obtain ⟨w, hw, hl⟩ := hp hr
  exact ⟨w, hw, h w a hl⟩

/-! ## Single tokens -/

theorem sound_expect {t : Token} (ht : t ≠ .endOfQuery) (label : String) :
    Sound (expect t label) fun w _ => w = [t] := by
  intro ts a rest h
  unfold expect at h
  split at h
  · rename_i hp
    cases h
    exact ⟨[t], tokens_of_peek hp ht, rfl⟩
  · cases h

theorem sound_identifier (label : String) :
    Sound (identifier label) fun w name => w = [.identifier name] := by
  intro ts name rest h
  unfold identifier at h
  split at h
  · rename_i hp
    cases h
    exact ⟨_, tokens_of_peek hp (by simp), rfl⟩
  · cases h

theorem sound_closeParen (opened : Position) (expected : List String) :
    Sound (closeParen opened expected) fun w _ => w = [.rightParen] := by
  intro ts a rest h
  unfold closeParen at h
  split at h
  · rename_i hp
    cases h
    exact ⟨_, tokens_of_peek hp (by simp), rfl⟩
  · cases h
  · cases h

/-! ## Conditions -/

theorem sound_literal : Sound literal Literal := by
  intro ts v rest h
  unfold literal at h
  split at h
  · rename_i hm
    split at h
    · rename_i x hx
      cases h
      refine ⟨[.minus, .number x], ?_, .negative x⟩
      rw [tokens_of_peek hm (by simp), tokens_of_peek hx (by simp)]
      rfl
    · cases h
  · split at h
    · rename_i x hx
      cases h
      exact ⟨_, tokens_of_peek hx (by simp), .number x⟩
    · rename_i s hs
      cases h
      exact ⟨_, tokens_of_peek hs (by simp), .string s⟩
    · rename_i hb
      cases h
      exact ⟨_, tokens_of_peek hb (by simp), .true⟩
    · rename_i hb
      cases h
      exact ⟨_, tokens_of_peek hb (by simp), .false⟩
    · cases h

theorem eq_token_of_compareOp? {t : Token} {op : CompareOp} (h : compareOp? t = some op) :
    t = op.token := by
  cases t <;> cases h <;> rfl

theorem sound_comparisonOf (field : String) :
    Sound (comparisonOf field) fun w c => Condition (.identifier field :: w) c := by
  intro ts c rest h
  unfold comparisonOf at h
  split at h
  · cases h
  · rename_i op hop
    obtain ⟨⟨v, us⟩, hv, h⟩ := ok_of_bind h
    cases h
    obtain ⟨w, hw, hl⟩ := sound_literal hv
    refine ⟨op.token :: w, ?_, .mk field op hl⟩
    rw [tokens_of_peek (eq_token_of_compareOp? hop) (by cases op <;> simp [CompareOp.token]), hw]
    rfl

/-- An identifier and the comparison after it. -/
theorem sound_condition {label field : String} {ts us rest : List Spanned}
    {c : Comparison Double} (hf : identifier label ts = .ok (field, us))
    (hc : comparisonOf field us = .ok (c, rest)) :
    ∃ w, tokens ts = w ++ tokens rest ∧ Condition w c := by
  obtain ⟨w, hw, rfl⟩ := sound_identifier label hf
  obtain ⟨w', hw', hl⟩ := sound_comparisonOf field hc
  exact ⟨_, by rw [hw, hw']; rfl, hl⟩

theorem sound_constraints (fuel : Nat) : Sound (constraints fuel) Conditions := by
  induction fuel with
  | zero =>
      intro ts cs rest h
      rw [constraints] at h
      obtain ⟨⟨field, us⟩, hf, h⟩ := ok_of_bind h
      obtain ⟨⟨c, vs⟩, hc, h⟩ := ok_of_bind h
      cases h
      obtain ⟨w, hw, hl⟩ := sound_condition hf hc
      exact ⟨w, hw, .one hl⟩
  | succ fuel ih =>
      intro ts cs rest h
      rw [constraints] at h
      obtain ⟨⟨field, us⟩, hf, h⟩ := ok_of_bind h
      obtain ⟨⟨c, vs⟩, hc, h⟩ := ok_of_bind h
      obtain ⟨w, hw, hl⟩ := sound_condition hf hc
      dsimp only at h
      split at h
      · rename_i hp
        obtain ⟨⟨more, xs⟩, hm, h⟩ := ok_of_bind h
        cases h
        obtain ⟨w', hw', hl'⟩ := ih hm
        refine ⟨w ++ .comma :: w', ?_, .cons hl hl'⟩
        rw [hw, tokens_of_peek hp (by simp), hw']
        simp
      · cases h
        exact ⟨w, hw, .one hl⟩

/-! ## Optimizations -/

theorem sound_term : Sound term Weighted := by
  intro ts t rest h
  induction ts generalizing t rest with
  | nil => cases h
  | cons s ts ih =>
      rw [term] at h
      split at h
      · rename_i hs
        obtain ⟨⟨inner, us⟩, hi, h⟩ := ok_of_bind h
        cases h
        obtain ⟨w, hw, hl⟩ := ih hi
        exact ⟨.minus :: w, by rw [tokens_cons, hs, hw]; rfl, .negated hl⟩
      · rename_i weight hs
        obtain ⟨⟨_, us⟩, he, h⟩ := ok_of_bind h
        obtain ⟨⟨field, vs⟩, hf, h⟩ := ok_of_bind h
        cases h
        obtain ⟨w, hw, rfl⟩ := sound_expect (by simp) _ he
        obtain ⟨w', hw', rfl⟩ := sound_identifier _ hf
        exact ⟨_, by rw [tokens_cons, hs, hw, hw']; rfl, .before weight field⟩
      · rename_i field hs
        split at h
        · rename_i hp
          split at h
          · rename_i weight hn
            cases h
            refine ⟨_, ?_, .after field weight⟩
            rw [tokens_cons, hs, tokens_of_peek hp (by simp), tokens_of_peek hn (by simp)]
            rfl
          · cases h
        · cases h
          exact ⟨_, by rw [tokens_cons, hs]; rfl, .bare field⟩
      · cases h

/-- Only a plus and a minus join terms. -/
theorem joiningSign?_eq_some {t : Token} {sign : Double → Double}
    (h : joiningSign? t = some sign) : t = .plus ∧ sign = id ∨ t = .minus ∧ sign = (-·) := by
  cases t <;> cases h
  · exact .inl ⟨rfl, rfl⟩
  · exact .inr ⟨rfl, rfl⟩

theorem sound_moreTerms (fuel : Nat) : Sound (moreTerms fuel) Joined := by
  induction fuel with
  | zero =>
      intro ts l rest h
      cases h
      exact ⟨[], rfl, .nil⟩
  | succ fuel ih =>
      intro ts l rest h
      rw [moreTerms] at h
      split at h
      · cases h
        exact ⟨[], rfl, .nil⟩
      · rename_i sign hs
        obtain ⟨⟨t, us⟩, ht, h⟩ := ok_of_bind h
        obtain ⟨⟨more, vs⟩, hm, h⟩ := ok_of_bind h
        cases h
        obtain ⟨w, hw, hl⟩ := sound_term ht
        obtain ⟨w', hw', hl'⟩ := ih hm
        rcases joiningSign?_eq_some hs with ⟨hp, rfl⟩ | ⟨hp, rfl⟩
        · refine ⟨.plus :: w ++ w', ?_, .plus hl hl'⟩
          rw [tokens_of_peek hp (by simp), hw, hw']
          simp
        · refine ⟨.minus :: w ++ w', ?_, .minus hl hl'⟩
          rw [tokens_of_peek hp (by simp), hw, hw']
          simp

theorem sound_objective : Sound objective Sum := by
  intro ts o rest h
  unfold objective at h
  obtain ⟨⟨t, us⟩, ht, h⟩ := ok_of_bind h
  obtain ⟨⟨more, vs⟩, hm, h⟩ := ok_of_bind h
  cases h
  obtain ⟨w, hw, hl⟩ := sound_term ht
  obtain ⟨w', hw', hl'⟩ := sound_moreTerms _ hm
  exact ⟨w ++ w', by rw [hw, hw', List.append_assoc], .mk hl hl'⟩

theorem sound_subjectTo : Sound subjectTo SubjectTo := by
  intro ts cs rest h
  unfold subjectTo at h
  split at h
  · rename_i hp
    obtain ⟨⟨opened, us⟩, ho, h⟩ := ok_of_bind h
    obtain ⟨⟨cs, vs⟩, hc, h⟩ := ok_of_bind h
    obtain ⟨⟨_, xs⟩, hx, h⟩ := ok_of_bind h
    cases h
    obtain ⟨w, hw, rfl⟩ := sound_expect (by simp) _ ho
    obtain ⟨w', hw', hl⟩ := sound_constraints _ hc
    obtain ⟨w'', hw'', rfl⟩ := sound_closeParen _ _ hx
    refine ⟨_, ?_, .present hl⟩
    rw [tokens_of_peek hp (by simp), hw, hw', hw'']
    simp
  · cases h
    exact ⟨[], rfl, .absent⟩

theorem sound_optimization (direction : Direction) :
    Sound (optimization direction) fun w q => ∃ wo ws o cs, Sum wo o ∧ SubjectTo ws cs ∧
      w = .leftParen :: (wo ++ .rightParen :: ws) ∧ q = .optimize direction o cs := by
  intro ts q rest h
  unfold optimization at h
  obtain ⟨⟨opened, us⟩, ho, h⟩ := ok_of_bind h
  obtain ⟨⟨o, vs⟩, hs, h⟩ := ok_of_bind h
  obtain ⟨⟨_, xs⟩, hx, h⟩ := ok_of_bind h
  obtain ⟨⟨cs, ys⟩, hc, h⟩ := ok_of_bind h
  cases h
  obtain ⟨w, hw, rfl⟩ := sound_expect (by simp) _ ho
  obtain ⟨wo, hwo, hlo⟩ := sound_objective hs
  obtain ⟨w'', hw'', rfl⟩ := sound_closeParen _ _ hx
  obtain ⟨ws, hws, hls⟩ := sound_subjectTo hc
  refine ⟨_, ?_, wo, ws, o, cs, hlo, hls, rfl, rfl⟩
  rw [hw, hwo, hw'', hws]
  simp

/-! ## Similarity searches and lookups -/

theorem sound_parameterValue : Sound parameterValue ParameterValue := by
  intro ts v rest h
  unfold parameterValue at h
  split at h
  · rename_i name hp
    cases h
    exact ⟨_, tokens_of_peek hp (by simp), .name name⟩
  · obtain ⟨w, hw, hl⟩ := sound_literal h
    exact ⟨w, hw, .literal hl⟩

/-- A value that is accepted for a parameter makes a phrase of the parameter. -/
theorem parameter_of_set {s s' : Similarity} {name : String} {v : Scalar Double} {w : List Token}
    (hv : ParameterValue w v) (h : s.set name v = .ok s') :
    Parameter (.identifier name :: .assign :: w) s s' := by
  unfold Similarity.set at h
  split at h
  · split at h
    · rename_i hd
      simp only [Bool.and_eq_true, decide_eq_true_eq] at hd
      cases h
      exact .distance s hv hd.1 hd.2
    · cases h
  · split at h
    · rename_i n hn
      split at h
      · rename_i hb
        cases h
        exact .topK s hv hn hb.1 hb.2
      · cases h
    · cases h
  · cases h
    exact .type s hv
  all_goals cases h

theorem sound_parameter (s : Similarity) : Sound (parameter s) fun w s' => Parameter w s s' := by
  intro ts s' rest h
  unfold parameter at h
  obtain ⟨⟨name, us⟩, hn, h⟩ := ok_of_bind h
  dsimp only at h
  split at h
  · obtain ⟨⟨_, vs⟩, ha, h⟩ := ok_of_bind h
    obtain ⟨⟨v, xs⟩, hv, h⟩ := ok_of_bind h
    dsimp only at h
    split at h
    · rename_i hset
      cases h
      obtain ⟨w, hw, rfl⟩ := sound_identifier _ hn
      obtain ⟨w', hw', rfl⟩ := sound_expect (by simp) _ ha
      obtain ⟨w'', hw'', hl⟩ := sound_parameterValue hv
      refine ⟨_, ?_, parameter_of_set hl hset⟩
      rw [hw, hw', hw'']
      rfl
    · cases h
  · cases h

theorem sound_parameters (fuel : Nat) (s : Similarity) :
    Sound (parameters fuel s) fun w s' => Parameters w s s' := by
  induction fuel generalizing s with
  | zero =>
      intro ts s' rest h
      cases h
      exact ⟨[], rfl, .nil s⟩
  | succ fuel ih =>
      intro ts s' rest h
      rw [parameters] at h
      split at h
      · rename_i hp
        obtain ⟨⟨s₁, us⟩, h₁, h⟩ := ok_of_bind h
        obtain ⟨w, hw, hl⟩ := sound_parameter s h₁
        obtain ⟨w', hw', hl'⟩ := ih s₁ h
        refine ⟨.comma :: w ++ w', ?_, .cons hl hl'⟩
        rw [tokens_of_peek hp (by simp), hw, hw']
        simp
      · cases h
        exact ⟨[], rfl, .nil s⟩

theorem sound_lookupName (entityType : String) (position opened : Position) :
    Sound (lookupName entityType position opened)
      fun w name => ∃ t, w = [t] ∧ LookupName t name := by
  intro ts name rest h
  unfold lookupName at h
  split at h <;> cases h
  · rename_i hp
    exact ⟨_, tokens_of_peek hp (by simp), _, rfl, .string name⟩
  · rename_i hp
    exact ⟨_, tokens_of_peek hp (by simp), _, rfl, .identifier name⟩
  · rename_i hp
    exact ⟨_, tokens_of_peek hp (by simp), _, rfl, .star⟩

theorem sound_lookupEnd (entityType : String) (position opened : Position) (fuzzy : Bool) :
    Sound (lookupEnd entityType position opened fuzzy) fun w _ => w = [.rightParen] := by
  intro ts a rest h
  unfold lookupEnd at h
  split at h <;> cases h
  rename_i hp
  exact ⟨_, tokens_of_peek hp (by simp), rfl⟩

theorem sound_lookup (entityType : String) (position : Position) {ts : List Spanned}
    (ht : peek ts = .leftParen) {q : Query} {rest : List Spanned}
    (h : lookup entityType position ts = .ok (q, rest)) :
    ∃ w, .identifier entityType :: tokens ts = w ++ tokens rest ∧ Derives .primary w q := by
  unfold lookup at h
  obtain ⟨⟨name, us⟩, hn, h⟩ := ok_of_bind h
  obtain ⟨⟨_, vs⟩, he, h⟩ := ok_of_bind h
  cases h
  obtain ⟨_, hw, t, rfl, hl⟩ := sound_lookupName _ _ _ hn
  obtain ⟨_, hw', rfl⟩ := sound_lookupEnd _ _ _ _ he
  refine ⟨_, ?_, .lookup entityType (peek us = .tilde) hl⟩
  rw [tokens_of_peek ht (by simp), hw]
  by_cases hf : peek us = .tilde
  · simp only [hf, decide_true, if_true] at hw' ⊢
    rw [tokens_of_peek hf (by simp), hw']
    rfl
  · simp only [hf, decide_false, if_false] at hw' ⊢
    rw [show tokens us = _ from hw']
    rfl

/-! ## The levels -/

theorem sound_similarity {nested : Parser Query} (hn : Sound nested (Derives .disjunction)) :
    Sound (similarity nested) fun w q => Derives .primary (.similarTo :: w) q := by
  intro ts q rest h
  unfold similarity at h
  obtain ⟨⟨opened, us⟩, ho, h⟩ := ok_of_bind h
  obtain ⟨⟨target, vs⟩, ht, h⟩ := ok_of_bind h
  obtain ⟨⟨s, xs⟩, hp, h⟩ := ok_of_bind h
  obtain ⟨⟨_, ys⟩, hx, h⟩ := ok_of_bind h
  cases h
  obtain ⟨_, hw, rfl⟩ := sound_expect (by simp) _ ho
  obtain ⟨w, hwt, hl⟩ := hn ht
  obtain ⟨ws, hwp, hl'⟩ := sound_parameters _ _ hp
  obtain ⟨_, hw'', rfl⟩ := sound_closeParen _ _ hx
  refine ⟨_, ?_, .similar hl hl'⟩
  rw [hw, hwt, hwp, hw'']
  simp

theorem sound_primary {nested : Parser Query} (hn : Sound nested (Derives .disjunction)) :
    Sound (primary nested) (Derives .primary) := by
  intro ts q rest h
  unfold primary at h
  split at h
  · rename_i hp
    obtain ⟨⟨q, us⟩, hq, h⟩ := ok_of_bind h
    obtain ⟨⟨_, vs⟩, hx, h⟩ := ok_of_bind h
    cases h
    obtain ⟨w, hw, hl⟩ := hn hq
    obtain ⟨_, hw', rfl⟩ := sound_closeParen _ _ hx
    refine ⟨_, ?_, .group hl⟩
    rw [tokens_of_peek hp (by simp), hw, hw']
    simp
  · rename_i hp
    obtain ⟨w, hw, hl⟩ := sound_similarity hn h
    exact ⟨_, by rw [tokens_of_peek hp (by simp), hw]; rfl, hl⟩
  · rename_i hp
    obtain ⟨_, hw, wo, ws, o, cs, ho, hs, rfl, rfl⟩ := sound_optimization _ h
    exact ⟨_, by rw [tokens_of_peek hp (by simp), hw]; rfl, .optimize .maximize ho hs⟩
  · rename_i hp
    obtain ⟨_, hw, wo, ws, o, cs, ho, hs, rfl, rfl⟩ := sound_optimization _ h
    exact ⟨_, by rw [tokens_of_peek hp (by simp), hw]; rfl, .optimize .minimize ho hs⟩
  · rename_i name hp
    split at h
    · obtain ⟨⟨c, us⟩, hc, h⟩ := ok_of_bind h
      cases h
      obtain ⟨w, hw, hl⟩ := sound_comparisonOf name hc
      exact ⟨_, by rw [tokens_of_peek hp (by simp), hw]; rfl, .comparison hl⟩
    · split at h
      · rename_i hl
        rw [tokens_of_peek hp (by simp)]
        exact sound_lookup name _ hl h
      · cases h
  · cases h

theorem sound_postfixed {nested : Parser Query} (hn : Sound nested (Derives .disjunction)) :
    Sound (postfixed nested) (Derives .postfixed) := by
  intro ts q rest h
  unfold postfixed at h
  obtain ⟨⟨p, us⟩, hp, h⟩ := ok_of_bind h
  obtain ⟨w, hw, hl⟩ := sound_primary hn hp
  dsimp only at h
  split at h
  · rename_i hd
    obtain ⟨⟨field, vs⟩, hf, h⟩ := ok_of_bind h
    obtain ⟨⟨c, xs⟩, hc, h⟩ := ok_of_bind h
    cases h
    obtain ⟨w', hw', hl'⟩ := sound_condition hf hc
    refine ⟨w ++ .dot :: w', ?_, .narrowed hl hl'⟩
    rw [hw, tokens_of_peek hd (by simp), hw']
    simp
  · cases h
    exact ⟨w, hw, .plainPostfixed hl⟩

theorem sound_analogyTarget : Sound analogyTarget Target := by
  intro ts target rest h
  unfold analogyTarget at h
  split at h
  · rename_i hp
    cases h
    exact ⟨_, tokens_of_peek hp (by simp), .open⟩
  · rename_i name hp
    obtain ⟨⟨_, us⟩, ho, h⟩ := ok_of_bind h
    obtain ⟨⟨_, vs⟩, hq, h⟩ := ok_of_bind h
    obtain ⟨⟨_, xs⟩, hx, h⟩ := ok_of_bind h
    cases h
    obtain ⟨_, hw, rfl⟩ := sound_expect (by simp) _ ho
    obtain ⟨_, hw', rfl⟩ := sound_expect (by simp) _ hq
    obtain ⟨_, hw'', rfl⟩ := sound_closeParen _ _ hx
    refine ⟨_, ?_, .typed name⟩
    rw [tokens_of_peek hp (by simp), hw, hw', hw'']
    rfl
  · cases h

theorem sound_analogy {nested : Parser Query} (hn : Sound nested (Derives .disjunction)) :
    Sound (analogy nested) (Derives .analogy) := by
  intro ts q rest h
  unfold analogy at h
  obtain ⟨⟨a, us⟩, ha, h⟩ := ok_of_bind h
  obtain ⟨wa, hwa, hla⟩ := sound_postfixed hn ha
  dsimp only at h
  split at h
  · rename_i hi
    obtain ⟨⟨b, vs⟩, hb, h⟩ := ok_of_bind h
    obtain ⟨⟨_, xs⟩, has, h⟩ := ok_of_bind h
    obtain ⟨⟨c, ys⟩, hc, h⟩ := ok_of_bind h
    obtain ⟨⟨_, zs⟩, hi', h⟩ := ok_of_bind h
    obtain ⟨⟨target, rs⟩, ht, h⟩ := ok_of_bind h
    cases h
    obtain ⟨wb, hwb, hlb⟩ := sound_postfixed hn hb
    obtain ⟨_, hwas, rfl⟩ := sound_expect (by simp) _ has
    obtain ⟨wc, hwc, hlc⟩ := sound_postfixed hn hc
    obtain ⟨_, hwi, rfl⟩ := sound_expect (by simp) _ hi'
    obtain ⟨wt, hwt, hlt⟩ := sound_analogyTarget ht
    refine ⟨_, ?_, .analogy hla hlb hlc hlt⟩
    rw [hwa, tokens_of_peek hi (by simp), hwb, hwas, hwc, hwi, hwt]
    simp
  · cases h
    exact ⟨wa, hwa, .plainAnalogy hla⟩

theorem arrow_of_arrow? {t : Token} {name : Option String} (h : arrow? t = some name) :
    Arrow t name := by
  cases t <;> cases h
  · exact .any
  · exact .named _

/-- What stands before the arrows is a phrase already; every arrow makes a longer one. -/
theorem sound_arrows {nested : Parser Query} (hn : Sound nested (Derives .disjunction))
    (fuel : Nat) {left q : Query} {w : List Token} {ts rest : List Spanned}
    (hl : Derives .relational w left) (h : arrows nested fuel left ts = .ok (q, rest)) :
    ∃ w', w ++ tokens ts = w' ++ tokens rest ∧ Derives .relational w' q := by
  induction fuel generalizing left w ts with
  | zero =>
      cases h
      exact ⟨w, rfl, hl⟩
  | succ fuel ih =>
      rw [arrows] at h
      split at h
      · cases h
        exact ⟨w, rfl, hl⟩
      · rename_i name ha
        obtain ⟨⟨right, us⟩, hr, h⟩ := ok_of_bind h
        obtain ⟨wr, hwr, hlr⟩ := sound_analogy hn hr
        obtain ⟨w', hw', hl'⟩ := ih (.arrow hl (arrow_of_arrow? ha) hlr) h
        have hne : peek ts ≠ .endOfQuery := by
          intro he
          rw [he] at ha
          cases ha
        refine ⟨w', ?_, hl'⟩
        rw [← hw', tokens_of_peek rfl hne, hwr]
        simp

theorem sound_relational {nested : Parser Query} (hn : Sound nested (Derives .disjunction)) :
    Sound (relational nested) (Derives .relational) := by
  intro ts q rest h
  unfold relational at h
  obtain ⟨⟨left, us⟩, hl, h⟩ := ok_of_bind h
  obtain ⟨w, hw, hd⟩ := sound_analogy hn hl
  rw [hw]
  exact sound_arrows hn _ (.plainRelational hd) h

theorem sound_negation {nested : Parser Query} (hn : Sound nested (Derives .disjunction)) :
    Sound (negation nested) (Derives .negation) := by
  intro ts q rest h
  induction ts generalizing q rest with
  | nil => exact (sound_relational hn).mono (fun _ _ => .plainNegation) h
  | cons t ts ih =>
      rw [negation] at h
      split at h
      · rename_i ht
        obtain ⟨⟨q, us⟩, hq, h⟩ := ok_of_bind h
        cases h
        obtain ⟨w, hw, hl⟩ := ih hq
        exact ⟨.not :: w, by rw [tokens_cons, ht, hw]; rfl, .not hl⟩
      · exact (sound_relational hn).mono (fun _ _ => .plainNegation) h

/-- Phrases of `L` with their values, as a rule joins them. -/
def AllDerive (L : List Token → Query → Prop) (parts : List (List Token × Query)) : Prop :=
  ∀ p ∈ parts, L p.1 p.2

theorem sound_operands {separator : Token} (hs : separator ≠ .endOfQuery) {operand : Parser Query}
    {L : List Token → Query → Prop} (ho : Sound operand L) (fuel : Nat) :
    Sound (operands separator operand fuel) fun w qs => ∃ parts, AllDerive L parts ∧
      w = parts.flatMap (fun p => separator :: p.1) ∧ qs = parts.map (·.2) := by
  induction fuel with
  | zero =>
      intro ts qs rest h
      cases h
      exact ⟨[], rfl, [], by simp [AllDerive], rfl, rfl⟩
  | succ fuel ih =>
      intro ts qs rest h
      rw [operands] at h
      split at h
      · rename_i hp
        obtain ⟨⟨q, us⟩, hq, h⟩ := ok_of_bind h
        obtain ⟨⟨qs, vs⟩, hqs, h⟩ := ok_of_bind h
        cases h
        obtain ⟨w, hw, hl⟩ := ho hq
        obtain ⟨_, hw', parts, hall, rfl, rfl⟩ := ih hqs
        refine ⟨_, ?_, (w, q) :: parts, ?_, rfl, rfl⟩
        · rw [tokens_of_peek hp hs, hw, hw']
          simp
        · intro p hm
          rcases List.mem_cons.1 hm with rfl | hm
          · exact hl
          · exact hall p hm
      · cases h
        exact ⟨[], rfl, [], by simp [AllDerive], rfl, rfl⟩

theorem separated_cons (separator : Token) (w : List Token) (ws : List (List Token)) :
    separated separator (w :: ws) = w ++ ws.flatMap (separator :: ·) := by
  induction ws generalizing w with
  | nil => simp [separated]
  | cons v ws ih => simp [separated, ih]

theorem sound_joined {op : Connective} {separator : Token} (hs : separator ≠ .endOfQuery)
    {operand : Parser Query} {L : List Token → Query → Prop} (ho : Sound operand L) :
    Sound (joined op separator operand) fun w q => ∃ parts, parts ≠ [] ∧ AllDerive L parts ∧
      w = separated separator (parts.map (·.1)) ∧ q = Grammar.joined op (parts.map (·.2)) := by
  intro ts q rest h
  unfold joined at h
  obtain ⟨⟨first, us⟩, hf, h⟩ := ok_of_bind h
  obtain ⟨⟨more, vs⟩, hm, h⟩ := ok_of_bind h
  obtain ⟨w, hw, hl⟩ := ho hf
  obtain ⟨_, hw', parts, hall, rfl, rfl⟩ := sound_operands hs ho _ hm
  cases h
  refine ⟨_, ?_, (w, first) :: parts, by simp, ?_, rfl, ?_⟩
  · rw [hw, hw', List.map_cons, separated_cons]
    simp [List.flatMap_map]
  · intro p hp
    rcases List.mem_cons.1 hp with rfl | hp
    · exact hl
    · exact hall p hp
  · cases parts <;> rfl

theorem sound_disjunction {nested : Parser Query} (hn : Sound nested (Derives .disjunction)) :
    Sound (disjunction nested) (Derives .disjunction) := by
  have hand : Sound (conjunction nested) (Derives .conjunction) := by
    refine (sound_joined (by simp) (sound_negation hn)).mono ?_
    rintro _ _ ⟨parts, hne, hall, rfl, rfl⟩
    exact .conjunction hne hall
  refine (sound_joined (by simp) hand).mono ?_
  rintro _ _ ⟨parts, hne, hall, rfl, rfl⟩
  exact .disjunction hne hall

/-- The parser is sound at every depth of nesting. -/
theorem sound_query (depth : Nat) : Sound (query depth) (Derives .disjunction) := by
  induction depth with
  | zero =>
      intro ts q rest h
      cases h
  | succ depth ih => exact sound_disjunction ih

end VectorQuery.Parser
