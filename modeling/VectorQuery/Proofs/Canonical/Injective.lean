/-
# Different queries have different canonical forms

The tokens of a canonical form tell where it ends, so two canonical forms cannot start alike and
stand for different queries (`Cancels`).  A text is cut into tokens in one way, and so the
canonical form determines the query (`canonical_injective`).  No bar stands in a canonical form but
inside quotes; a key for sharing therefore determines its query, and the types seen as far as the
query reads them (`sharingKey_injective`).
-/
import VectorQuery.Plan.Lowering
import VectorQuery.Proofs.Canonical.Parsing

namespace VectorQuery

/-- The query can be printed: its names can be written, and its numbers are defined. -/
abbrev Query.Printable (q : Query) : Prop := q.WellFormed (·.isDefined = true)

/-! ## Numbers, comparisons and terms -/

section

variable {r r' : List Token}

theorem token_injective {x y : Double} (hx : x.Nonneg) (hy : y.Nonneg) (hdx : x.isDefined = true)
    (hdy : y.isDefined = true) (h : x.token = y.token) : x = y := by
  unfold Double.token at h
  split at h
  · split at h
    · exact Token.number.inj h
    · cases h
  · rename_i hfx
    split at h
    · cases h
    · rename_i hfy
      rw [Double.eq_infinity hx hdx (Bool.eq_false_iff.2 hfx),
        Double.eq_infinity hy hdy (Bool.eq_false_iff.2 hfy)]

theorem token_ne {x : Double} {t : Token} (ht : t = .minus ∨ t = .true ∨ t = .false ∨
    t = .leftParen ∨ ∃ s, t = .string s) : x.token ≠ t := by
  unfold Double.token
  split <;> rcases ht with rfl | rfl | rfl | rfl | ⟨s, rfl⟩ <;> exact nofun

theorem number_cancel {x y : Double} (hx : x.isDefined = true) (hy : y.isDefined = true)
    (h : x.tokens ++ r = y.tokens ++ r') : x = y ∧ r = r' := by
  obtain ⟨a, ha, hax⟩ := x.eq_or_eq_neg
  obtain ⟨b, hb, hby⟩ := y.eq_or_eq_neg
  have hminus : ∀ {z : Double}, z.token ≠ .minus := token_ne (.inl rfl)
  rcases hax with rfl | rfl <;> rcases hby with rfl | rfl
  · rw [Double.tokens_of_nonneg ha, Double.tokens_of_nonneg hb] at h
    obtain ⟨ht, hr⟩ := List.cons.inj h
    exact ⟨token_injective ha hb hx hy ht, hr⟩
  · rw [Double.tokens_of_nonneg ha, Double.tokens_neg hb] at h
    exact absurd (List.cons.inj h).1 hminus
  · rw [Double.tokens_neg ha, Double.tokens_of_nonneg hb] at h
    exact absurd (List.cons.inj h).1.symm hminus
  · rw [Double.tokens_neg ha, Double.tokens_neg hb] at h
    obtain ⟨ht, hr⟩ := List.cons.inj (List.cons.inj h).2
    rw [Double.isDefined_neg] at hx hy
    rw [token_injective ha hb hx hy ht]
    exact ⟨rfl, hr⟩

theorem head_number_tokens (x : Double) : ∃ t w, x.tokens = t :: w ∧ t ≠ .true ∧ t ≠ .false ∧
    ∀ s, t ≠ .string s := by
  unfold Double.tokens
  split
  · exact ⟨_, _, rfl, nofun, nofun, nofun⟩
  · exact ⟨_, _, rfl, token_ne (by simp), token_ne (by simp), fun s => token_ne (by simp)⟩

theorem literal_cancel {v v' : Scalar Double} (hv : ∀ x, v = .number x → x.isDefined = true)
    (hv' : ∀ x, v' = .number x → x.isDefined = true) (h : v.tokens ++ r = v'.tokens ++ r') :
    v = v' ∧ r = r' := by
  cases v with
  | number x =>
      obtain ⟨t, w, hw, htrue, hfalse, hstring⟩ := head_number_tokens x
      cases v' with
      | number y =>
          obtain ⟨rfl, hr⟩ := number_cancel (hv x rfl) (hv' y rfl) h
          exact ⟨rfl, hr⟩
      | bool b =>
          rw [Scalar.tokens, hw] at h
          cases b <;> rw [Scalar.tokens] at h
          · exact absurd (List.cons.inj h).1 hfalse
          · exact absurd (List.cons.inj h).1 htrue
      | text s =>
          rw [Scalar.tokens, Scalar.tokens, hw] at h
          exact absurd (List.cons.inj h).1 (hstring s)
  | bool b =>
      cases v' with
      | number y =>
          obtain ⟨t, w, hw, htrue, hfalse, hstring⟩ := head_number_tokens y
          rw [Scalar.tokens.eq_def (.number y)] at h
          dsimp only at h
          rw [hw] at h
          cases b <;> rw [Scalar.tokens] at h
          · exact absurd (List.cons.inj h).1.symm hfalse
          · exact absurd (List.cons.inj h).1.symm htrue
      | bool b' =>
          cases b <;> cases b' <;> obtain ⟨ht, hr⟩ := List.cons.inj h <;> first
            | exact ⟨rfl, hr⟩
            | cases ht
      | text s => cases b <;> cases (List.cons.inj h).1
  | text s =>
      cases v' with
      | number y =>
          obtain ⟨t, w, hw, htrue, hfalse, hstring⟩ := head_number_tokens y
          rw [Scalar.tokens, Scalar.tokens, hw] at h
          exact absurd (List.cons.inj h).1.symm (hstring s)
      | bool b => cases b <;> cases (List.cons.inj h).1
      | text s' =>
          obtain ⟨ht, hr⟩ := List.cons.inj h
          cases ht
          exact ⟨rfl, hr⟩

theorem compare_token_injective {a b : CompareOp} (h : a.token = b.token) : a = b := by
  cases a <;> cases b <;> first
    | rfl
    | cases h

theorem comparison_cancel {c c' : Comparison Double} (hc : c.WellFormed (·.isDefined = true))
    (hc' : c'.WellFormed (·.isDefined = true)) (h : c.tokens ++ r = c'.tokens ++ r') :
    c = c' ∧ r = r' := by
  obtain ⟨field, op, v⟩ := c
  obtain ⟨field', op', v'⟩ := c'
  obtain ⟨hfield, h⟩ := List.cons.inj h
  obtain ⟨hop, h⟩ := List.cons.inj h
  obtain ⟨rfl, hr⟩ := literal_cancel hc.number hc'.number h
  cases hfield
  cases compare_token_injective hop
  exact ⟨rfl, hr⟩

theorem constraintTokens_cons (c d : Comparison Double) (ds : List (Comparison Double)) :
    Query.constraintTokens (c :: d :: ds) ++ r =
      c.tokens ++ .comma :: (Query.constraintTokens (d :: ds) ++ r) :=
  List.append_assoc ..

/-- Constraints up to the closing parenthesis. -/
theorem constraints_cancel {cs cs' : List (Comparison Double)}
    (hcs : ∀ c ∈ cs, c.WellFormed (·.isDefined = true))
    (hcs' : ∀ c ∈ cs', c.WellFormed (·.isDefined = true)) (hne : cs ≠ []) (hne' : cs' ≠ [])
    (h : Query.constraintTokens cs ++ .rightParen :: r =
      Query.constraintTokens cs' ++ .rightParen :: r') : cs = cs' ∧ r = r' := by
  induction cs generalizing cs' with
  | nil => exact absurd rfl hne
  | cons c cs ih =>
      cases cs' with
      | nil => exact absurd rfl hne'
      | cons c' cs' =>
          have hc := hcs c List.mem_cons_self
          have hc' := hcs' c' List.mem_cons_self
          cases cs with
          | nil =>
              cases cs' with
              | nil =>
                  obtain ⟨rfl, hrest⟩ := comparison_cancel hc hc' h
                  exact ⟨rfl, (List.cons.inj hrest).2⟩
              | cons d' ds' =>
                  rw [constraintTokens_cons] at h
                  cases (List.cons.inj (comparison_cancel hc hc' h).2).1
          | cons d ds =>
              rw [constraintTokens_cons] at h
              cases cs' with
              | nil => cases (List.cons.inj (comparison_cancel hc hc' h).2).1
              | cons d' ds' =>
                  rw [constraintTokens_cons] at h
                  obtain ⟨rfl, hrest⟩ := comparison_cancel hc hc' h
                  obtain ⟨hds, hr⟩ := ih (fun e he => hcs e (List.mem_cons_of_mem _ he))
                    (fun e he => hcs' e (List.mem_cons_of_mem _ he)) (by simp) (by simp)
                    (List.cons.inj hrest).2
                  exact ⟨by rw [hds], hr⟩

/-- A number is its magnitude and its sign. -/
theorem eq_of_magnitude {x y : Double} (hx : x.isDefined = true) (hy : y.isDefined = true)
    (hsign : x.isNegative = y.isNegative)
    (hmagnitude : Quantity.magnitude x = Quantity.magnitude y) : x = y := by
  obtain ⟨a, -, -, ha, hxa⟩ := Lexer.exists_magnitude hx
  obtain ⟨b, -, -, hb, hyb⟩ := Lexer.exists_magnitude hy
  have hab : a = b := by rw [← ha, ← hb, hmagnitude]
  subst hab
  rcases hxa with ⟨hneg, rfl⟩ | ⟨hneg, rfl⟩ <;> rcases hyb with ⟨hneg', rfl⟩ | ⟨hneg', rfl⟩
  · rfl
  · rw [hneg, hneg'] at hsign
    cases hsign
  · rw [hneg, hneg'] at hsign
    cases hsign
  · rfl

/-- A term without its sign, which no star follows. -/
theorem unsigned_cancel {t t' : Term Double} (ht : t.WellFormed (·.isDefined = true))
    (ht' : t'.WellFormed (·.isDefined = true)) (hr : r.head? ≠ some .star)
    (hr' : r'.head? ≠ some .star) (h : t.unsignedTokens ++ r = t'.unsignedTokens ++ r') :
    t.field = t'.field ∧ Quantity.magnitude t.weight = Quantity.magnitude t'.weight ∧ r = r' := by
  obtain ⟨a, ha, had, hmagnitude, -⟩ := Lexer.exists_magnitude ht.weight
  obtain ⟨b, hb, hbd, hmagnitude', -⟩ := Lexer.exists_magnitude ht'.weight
  simp only [Term.unsignedTokens, hmagnitude, hmagnitude'] at h ⊢
  split at h
  · rename_i hone
    split at h
    · rename_i hone'
      obtain ⟨hfield, hrest⟩ := List.cons.inj h
      exact ⟨Token.identifier.inj hfield, hone.trans hone'.symm, hrest⟩
    · obtain ⟨-, rfl⟩ := List.cons.inj h
      exact absurd rfl hr
  · split at h
    · obtain ⟨-, rfl⟩ := List.cons.inj h
      exact absurd rfl hr'
    · obtain ⟨htoken, hrest⟩ := List.cons.inj h
      obtain ⟨hfield, hrest⟩ := List.cons.inj (List.cons.inj hrest).2
      exact ⟨Token.identifier.inj hfield, token_injective ha hb had hbd htoken, hrest⟩

theorem term_eq {t t' : Term Double} (ht : t.WellFormed (·.isDefined = true))
    (ht' : t'.WellFormed (·.isDefined = true)) (hfield : t.field = t'.field)
    (hsign : t.weight.isNegative = t'.weight.isNegative)
    (hmagnitude : Quantity.magnitude t.weight = Quantity.magnitude t'.weight) : t = t' := by
  obtain ⟨field, weight⟩ := t
  obtain ⟨field', weight'⟩ := t'
  cases hfield
  cases eq_of_magnitude ht.weight ht'.weight hsign hmagnitude
  rfl

theorem head_joined (ts : List (Term Double)) :
    (Term.joinedTokens ts ++ .rightParen :: r).head? ≠ some .star := by
  cases ts with
  | nil =>
      intro h
      cases h
  | cons t ts =>
      rw [Term.joinedTokens]
      split <;> intro h <;> cases h

/-- Terms after the first, up to the closing parenthesis. -/
theorem joined_cancel {ts ts' : List (Term Double)}
    (hts : ∀ t ∈ ts, t.WellFormed (·.isDefined = true))
    (hts' : ∀ t ∈ ts', t.WellFormed (·.isDefined = true))
    (h : Term.joinedTokens ts ++ .rightParen :: r = Term.joinedTokens ts' ++ .rightParen :: r') :
    ts = ts' ∧ r = r' := by
  induction ts generalizing ts' with
  | nil =>
      cases ts' with
      | nil => exact ⟨rfl, (List.cons.inj h).2⟩
      | cons t' ts' =>
          rw [Term.joinedTokens, Term.joinedTokens] at h
          split at h <;> cases (List.cons.inj h).1
  | cons t ts ih =>
      cases ts' with
      | nil =>
          rw [Term.joinedTokens, Term.joinedTokens] at h
          split at h <;> cases (List.cons.inj h).1
      | cons t' ts' =>
          rw [Term.joinedTokens, Term.joinedTokens, List.append_assoc, List.append_assoc] at h
          obtain ⟨hsign, hrest⟩ := List.cons.inj h
          obtain ⟨hfield, hmagnitude, hrest⟩ := unsigned_cancel (hts t List.mem_cons_self)
            (hts' t' List.mem_cons_self) (head_joined ts) (head_joined ts') hrest
          obtain ⟨rfl, hr⟩ := ih (fun u hu => hts u (List.mem_cons_of_mem _ hu))
            (fun u hu => hts' u (List.mem_cons_of_mem _ hu)) hrest
          have hneg : t.weight.isNegative = t'.weight.isNegative := by
            cases hn : t.weight.isNegative <;> cases hn' : t'.weight.isNegative <;>
              simp [hn, hn'] at hsign ⊢
          rw [term_eq (hts t List.mem_cons_self) (hts' t' List.mem_cons_self) hfield hneg hmagnitude]
          exact ⟨rfl, hr⟩

theorem head_unsigned_tokens (t : Term Double) :
    ∃ u w, t.unsignedTokens = u :: w ∧ u ≠ .minus := by
  unfold Term.unsignedTokens
  dsimp only
  split
  · exact ⟨_, _, rfl, nofun⟩
  · exact ⟨_, _, rfl, token_ne (.inl rfl)⟩

theorem sign_cancel {a b : Bool} {t t' : Term Double}
    (h : (if a then [Token.minus] else []) ++ (t.unsignedTokens ++ r) =
      (if b then [Token.minus] else []) ++ (t'.unsignedTokens ++ r')) :
    a = b ∧ t.unsignedTokens ++ r = t'.unsignedTokens ++ r' := by
  obtain ⟨u, w, hu, hne⟩ := head_unsigned_tokens t
  obtain ⟨u', w', hu', hne'⟩ := head_unsigned_tokens t'
  rw [hu, hu'] at h ⊢
  cases a <;> cases b
  · exact ⟨rfl, h⟩
  · exact absurd (List.cons.inj h).1 hne
  · exact absurd (List.cons.inj h).1.symm hne'
  · exact ⟨rfl, (List.cons.inj h).2⟩

theorem objective_cancel {o o' : Objective Double} (ho : o.terms ≠ []) (ho' : o'.terms ≠ [])
    (hts : ∀ t ∈ o.terms, t.WellFormed (·.isDefined = true))
    (hts' : ∀ t ∈ o'.terms, t.WellFormed (·.isDefined = true))
    (h : o.tokens ++ .rightParen :: r = o'.tokens ++ .rightParen :: r') : o = o' ∧ r = r' := by
  obtain ⟨_ | ⟨t, ts⟩⟩ := o
  · exact absurd rfl ho
  obtain ⟨_ | ⟨t', ts'⟩⟩ := o'
  · exact absurd rfl ho'
  simp only [Objective.tokens, List.append_assoc] at h
  obtain ⟨hsign, h⟩ := sign_cancel h
  obtain ⟨hfield, hmagnitude, hrest⟩ := unsigned_cancel (hts t List.mem_cons_self)
    (hts' t' List.mem_cons_self) (head_joined ts) (head_joined ts') h
  obtain ⟨rfl, hr⟩ := joined_cancel (fun u hu => hts u (List.mem_cons_of_mem _ hu))
    (fun u hu => hts' u (List.mem_cons_of_mem _ hu)) hrest
  rw [term_eq (hts t List.mem_cons_self) (hts' t' List.mem_cons_self) hfield hsign hmagnitude]
  exact ⟨rfl, hr⟩

end

/-! ## Queries -/

/-- The tokens of the query are the front of no other canonical form. -/
def Cancels (q : Query) : Prop :=
  ∀ ⦃q' : Query⦄, q'.Printable → ∀ ⦃r r' : List Token⦄, r.head? ≠ some .subjectTo →
    r'.head? ≠ some .subjectTo → q.tokens ++ r = q'.tokens ++ r' → q = q' ∧ r = r'

theorem head_tokens {q : Query} (h : q.Printable) : ∃ t w, q.tokens = t :: w ∧ t ≠ .not ∧
    (t = .leftParen ∨ t = .similarTo ∨ (∃ d : Direction, t = d.token) ∨ ∃ s, t = .identifier s) := by
  cases h with
  | lookup => exact ⟨_, _, rfl, nofun, by simp⟩
  | relation => exact ⟨_, _, rfl, nofun, by simp⟩
  | not => exact ⟨_, _, rfl, nofun, by simp⟩
  | @logical op _ hop =>
      cases op with
      | not => exact absurd rfl hop
      | and => exact ⟨_, _, rfl, nofun, by simp⟩
      | or => exact ⟨_, _, rfl, nofun, by simp⟩
  | comparison => exact ⟨_, _, rfl, nofun, by simp⟩
  | similar => exact ⟨_, _, rfl, nofun, by simp⟩
  | analogy => exact ⟨_, _, rfl, nofun, by simp⟩
  | optimize direction =>
      refine ⟨_, _, rfl, ?_, .inr (.inr (.inl ⟨direction, rfl⟩))⟩
      cases direction <;> exact nofun

theorem tokens_logical {op : Connective} (hop : op ≠ .not) (q p : Query) (qs : List Query) :
    (Query.logical op (q :: p :: qs)).tokens = .leftParen ::
      (q.tokens ++ op.token :: (Query.joinedTokens [op.token] (p :: qs) ++ [.rightParen])) := by
  cases op with
  | not => exact absurd rfl hop
  | and => simp [Query.tokens, Query.joinedTokens]
  | or => simp [Query.tokens, Query.joinedTokens]

/-- What stands between the first operand of a shape in parentheses and the rest of it. -/
inductive Opens (q : Query) : Query → Token → List Token → Prop
  | relation {l r : Query} {name : Option String} : q = .relation l name r →
      Opens q l (arrowToken name) (r.tokens ++ [.rightParen])
  | logical {op : Connective} {p o : Query} {ps : List Query} : op ≠ .not →
      q = .logical op (p :: o :: ps) →
        Opens q p op.token (Query.joinedTokens [op.token] (o :: ps) ++ [.rightParen])
  | analogy {a b c : Query} {ty : Option String} : q = .analogy a b c ty →
      Opens q a .isTo (b.tokens ++ .as :: (c.tokens ++ .isTo :: (targetTokens ty ++ [.rightParen])))

theorem Opens.tokens {q first : Query} {t : Token} {w : List Token} (h : Opens q first t w) :
    q.tokens = .leftParen :: (first.tokens ++ t :: w) := by
  cases h with
  | relation h =>
      subst h
      rfl
  | logical hop h =>
      subst h
      exact tokens_logical hop _ _ _
  | analogy h =>
      subst h
      rfl

theorem Opens.ne_subjectTo {q first : Query} {t : Token} {w : List Token} (h : Opens q first t w) :
    t ≠ .subjectTo := by
  cases h with
  | @relation l r name _ => cases name <;> exact nofun
  | @logical op _ _ _ hop _ => cases op <;> exact nofun
  | analogy => exact nofun

/-- A canonical form that starts with a parenthesis is a negation or opens with an operand. -/
theorem paren_cases {q : Query} (h : q.Printable) {w : List Token}
    (hw : q.tokens = .leftParen :: w) :
    (∃ p, q = .logical .not [p] ∧ p.Printable) ∨
      ∃ first t w', Opens q first t w' ∧ first.Printable := by
  cases h with
  | lookup => cases (List.cons.inj hw).1
  | relation hl _ _ => exact .inr ⟨_, _, _, .relation rfl, hl⟩
  | not hp => exact .inl ⟨_, rfl, hp⟩
  | @logical op qs hop hlen hqs =>
      match qs, hlen with
      | p :: o :: ps, _ => exact .inr ⟨_, _, _, .logical hop rfl, hqs p List.mem_cons_self⟩
  | comparison => cases (List.cons.inj hw).1
  | similar => cases (List.cons.inj hw).1
  | analogy ha _ _ _ => exact .inr ⟨_, _, _, .analogy rfl, ha⟩
  | optimize direction => cases direction <;> cases (List.cons.inj hw).1

/-- Two canonical forms that start alike with an operand have the same operand first, and go on
alike. -/
theorem opens_cancel {q q' first : Query} {t : Token} {w r r' : List Token}
    (hq : Opens q first t w) (hfirst : Cancels first) (hp : first.Printable) (h' : q'.Printable)
    (h : q.tokens ++ r = q'.tokens ++ r') :
    ∃ w', Opens q' first t w' ∧ w ++ r = w' ++ r' := by
  obtain ⟨u, v, hu, hnot, -⟩ := head_tokens hp
  obtain ⟨u', v', hu', -⟩ := head_tokens h'
  rw [hq.tokens, hu', List.cons_append, List.cons_append] at h
  obtain ⟨rfl, hrest⟩ := List.cons.inj h
  rcases paren_cases h' hu' with ⟨p, rfl, -⟩ | ⟨first', t', w', hopens, hfirst'⟩
  · cases hu'
    rw [hu] at hrest
    exact absurd (List.cons.inj hrest).1 hnot
  · rw [hopens.tokens] at hu'
    cases hu'
    rw [List.append_assoc, List.append_assoc] at hrest
    obtain ⟨rfl, hafter⟩ := hfirst hfirst' (by simpa using hq.ne_subjectTo)
      (by simpa using hopens.ne_subjectTo) hrest
    obtain ⟨rfl, hend⟩ := List.cons.inj hafter
    exact ⟨w', hopens, hend⟩

theorem arrowToken_injective {a b : Option String} (h : arrowToken a = arrowToken b) : a = b := by
  cases a <;> cases b <;> cases h <;> rfl

theorem cancels_relation {l r : Query} {name : Option String} (hl : Cancels l) (hr : Cancels r)
    (hpl : l.Printable) : Cancels (.relation l name r) := by
  intro q' h' u u' _ _ h
  obtain ⟨w', hopens, hrest⟩ := opens_cancel (.relation rfl) hl hpl h' h
  generalize ht : arrowToken name = t at hopens
  cases hopens with
  | @relation l r' name' hq' =>
      cases arrowToken_injective ht
      subst hq'
      rw [List.append_assoc, List.append_assoc] at hrest
      cases h' with
      | relation _ _ hpr =>
          obtain ⟨rfl, hafter⟩ := hr hpr (by simp) (by simp) hrest
          exact ⟨rfl, (List.cons.inj hafter).2⟩
  | @logical op _ _ _ hop => cases op <;> cases name <;> cases ht
  | analogy => cases name <;> cases ht

theorem joinedTokens_cons (t : Token) (q p : Query) (qs : List Query) (w : List Token) :
    Query.joinedTokens [t] (q :: p :: qs) ++ w =
      q.tokens ++ t :: (Query.joinedTokens [t] (p :: qs) ++ w) := by
  rw [Query.joinedTokens]
  · simp
  · exact List.cons_ne_nil _ _

/-- Operands up to the closing parenthesis. -/
theorem operands_cancel {op : Connective} {qs qs' : List Query} (hqs : ∀ q ∈ qs, Cancels q)
    (hqs' : ∀ q ∈ qs', q.Printable) (hne : qs ≠ []) (hne' : qs' ≠ []) {r r' : List Token}
    (h : Query.joinedTokens [op.token] qs ++ .rightParen :: r =
      Query.joinedTokens [op.token] qs' ++ .rightParen :: r') : qs = qs' ∧ r = r' := by
  have hop : op.token ≠ .subjectTo := by cases op <;> exact nofun
  have hclose : op.token ≠ .rightParen := by cases op <;> exact nofun
  induction qs generalizing qs' with
  | nil => exact absurd rfl hne
  | cons q qs ih =>
      have hq := hqs q List.mem_cons_self
      cases qs' with
      | nil => exact absurd rfl hne'
      | cons q' qs' =>
          have hq' := hqs' q' List.mem_cons_self
          cases qs with
          | nil =>
              cases qs' with
              | nil =>
                  obtain ⟨rfl, hrest⟩ := hq hq' (by simp) (by simp) h
                  exact ⟨rfl, (List.cons.inj hrest).2⟩
              | cons p' ps' =>
                  rw [joinedTokens_cons] at h
                  obtain ⟨-, hrest⟩ := hq hq' (by simp) (by simpa using hop) h
                  exact absurd (List.cons.inj hrest).1.symm hclose
          | cons p ps =>
              rw [joinedTokens_cons] at h
              cases qs' with
              | nil =>
                  obtain ⟨-, hrest⟩ := hq hq' (by simpa using hop) (by simp) h
                  exact absurd (List.cons.inj hrest).1 hclose
              | cons p' ps' =>
                  rw [joinedTokens_cons] at h
                  obtain ⟨rfl, hrest⟩ := hq hq' (by simpa using hop) (by simpa using hop) h
                  obtain ⟨hps, hr⟩ := ih (fun o ho => hqs o (List.mem_cons_of_mem _ ho))
                    (fun o ho => hqs' o (List.mem_cons_of_mem _ ho)) (by simp) (by simp)
                    (List.cons.inj hrest).2
                  exact ⟨by rw [hps], hr⟩

theorem cancels_logical {op : Connective} (hop : op ≠ .not) {qs : List Query}
    (hlen : 2 ≤ qs.length) (hqs : ∀ q ∈ qs, Cancels q) (hp : ∀ q ∈ qs, q.Printable) :
    Cancels (.logical op qs) := by
  match qs, hlen with
  | p :: o :: ps, _ =>
      intro q' h' r r' _ _ h
      obtain ⟨w', hopens, hrest⟩ := opens_cancel (.logical hop rfl) (hqs p List.mem_cons_self)
        (hp p List.mem_cons_self) h' h
      generalize ht : op.token = t at hopens
      cases hopens with
      | @relation _ _ name => cases op <;> cases name <;> cases ht
      | @logical op' p o' ps' hop' hq' =>
          have : op = op' := by cases op <;> cases op' <;> cases ht <;> rfl
          subst this
          subst hq'
          rw [List.append_assoc, List.append_assoc] at hrest
          cases h' with
          | logical _ _ hqs' =>
              obtain ⟨hos, hr⟩ := operands_cancel
                (fun q hq => hqs q (List.mem_cons_of_mem _ hq))
                (fun q hq => hqs' q (List.mem_cons_of_mem _ hq)) (by simp) (by simp) hrest
              rw [hos]
              exact ⟨rfl, hr⟩
      | analogy => cases op <;> cases ht

theorem target_cancel {a b : Option String} {r r' : List Token}
    (h : targetTokens a ++ .rightParen :: r = targetTokens b ++ .rightParen :: r') :
    a = b ∧ r = r' := by
  cases a with
  | none =>
      cases b with
      | none => exact ⟨rfl, (List.cons.inj (List.cons.inj h).2).2⟩
      | some s => cases (List.cons.inj h).1
  | some s =>
      cases b with
      | none => cases (List.cons.inj h).1
      | some s' =>
          simp only [targetTokens, List.cons_append, List.nil_append, List.cons.injEq,
            Token.identifier.injEq, true_and] at h
          exact ⟨congrArg some h.1, h.2⟩

theorem cancels_analogy {a b c : Query} {ty : Option String} (ha : Cancels a) (hb : Cancels b)
    (hc : Cancels c) (hpa : a.Printable) : Cancels (.analogy a b c ty) := by
  intro q' h' r r' _ _ h
  obtain ⟨w', hopens, hrest⟩ := opens_cancel (.analogy rfl) ha hpa h' h
  generalize ht : Token.isTo = t at hopens
  cases hopens with
  | @relation _ _ name => cases name <;> cases ht
  | @logical op _ _ _ hop => cases op <;> cases ht
  | @analogy a b' c' ty' hq' =>
      subst hq'
      cases h' with
      | analogy _ hpb hpc _ =>
          simp only [List.append_assoc, List.cons_append] at hrest
          obtain ⟨rfl, hafter⟩ := hb hpb (by simp) (by simp) hrest
          obtain ⟨rfl, hend⟩ := hc hpc (by simp) (by simp) (List.cons.inj hafter).2
          obtain ⟨rfl, hr⟩ := target_cancel (List.cons.inj hend).2
          exact ⟨rfl, hr⟩

theorem cancels_lookup (t name : String) (fuzzy : Bool) : Cancels (.lookup t name fuzzy) := by
  intro q' h' r r' _ _ h
  cases h' with
  | lookup name' fuzzy' _ =>
      cases fuzzy <;> cases fuzzy' <;> simp_all [Query.tokens]
  | @comparison c =>
      have := (List.cons.inj (List.cons.inj h).2).1
      cases hop : c.op <;> rw [hop] at this <;> cases this
  | relation => cases (List.cons.inj h).1
  | not => cases (List.cons.inj h).1
  | @logical op => cases op <;> cases (List.cons.inj h).1
  | similar => cases (List.cons.inj h).1
  | analogy => cases (List.cons.inj h).1
  | optimize direction => cases direction <;> cases (List.cons.inj h).1

theorem cancels_comparison {c : Comparison Double} (hc : c.WellFormed (·.isDefined = true)) :
    Cancels (.comparison c) := by
  intro q' h' r r' _ _ h
  cases h' with
  | lookup =>
      have := (List.cons.inj (List.cons.inj h).2).1
      cases hop : c.op <;> rw [hop] at this <;> cases this
  | comparison hc' =>
      obtain ⟨rfl, hr⟩ := comparison_cancel hc hc' h
      exact ⟨rfl, hr⟩
  | relation => cases (List.cons.inj h).1
  | not => cases (List.cons.inj h).1
  | @logical op => cases op <;> cases (List.cons.inj h).1
  | similar => cases (List.cons.inj h).1
  | analogy => cases (List.cons.inj h).1
  | optimize direction => cases direction <;> cases (List.cons.inj h).1

theorem cancels_not {q : Query} (hq : Cancels q) : Cancels (.logical .not [q]) := by
  intro q' h' r r' _ _ h
  obtain ⟨u, v, hu, -⟩ := head_tokens h'
  have hu' : u = .leftParen := by
    rw [hu] at h
    exact (List.cons.inj h).1.symm
  subst hu'
  rcases paren_cases h' hu with ⟨p, rfl, hp⟩ | ⟨first, t, w, hopens, hfirst⟩
  · have hrest := (List.cons.inj (List.cons.inj h).2).2
    simp only [Query.joinedTokens, List.append_eq, List.append_assoc] at hrest
    obtain ⟨rfl, hafter⟩ := hq hp (by simp) (by simp) hrest
    exact ⟨rfl, (List.cons.inj hafter).2⟩
  · obtain ⟨u, v', hu', hnot, -⟩ := head_tokens hfirst
    rw [hopens.tokens, hu'] at h
    exact absurd (List.cons.inj (List.cons.inj h).2).1.symm hnot

theorem parameter_cancel {name : String} {v v' : Option (List Token)} {r r' : List Token}
    (hr : ∀ w, r ≠ .comma :: .identifier name :: w) (hr' : ∀ w, r' ≠ .comma :: .identifier name :: w)
    (h : parameterTokens name v ++ r = parameterTokens name v' ++ r') :
    (v = none ∧ v' = none ∧ r = r') ∨ ∃ w w', v = some w ∧ v' = some w' ∧ w ++ r = w' ++ r' := by
  cases v with
  | none =>
      cases v' with
      | none => exact .inl ⟨rfl, rfl, h⟩
      | some w' => exact absurd h (hr _)
  | some w =>
      cases v' with
      | none => exact absurd h.symm (hr' _)
      | some w' =>
          have hrest := (List.cons.inj (List.cons.inj (List.cons.inj h).2).2).2
          exact .inr ⟨w, w', rfl, rfl, hrest⟩

theorem parameter_ne {name other : String} (hne : name ≠ other) {v : Option (List Token)}
    {r : List Token} (hr : ∀ w, r ≠ .comma :: .identifier other :: w) (w : List Token) :
    parameterTokens name v ++ r ≠ .comma :: .identifier other :: w := by
  cases v with
  | none => exact hr w
  | some v =>
      intro h
      exact hne (Token.identifier.inj (List.cons.inj (List.cons.inj h).2).1)

theorem parameter_head (name : String) (v : Option (List Token)) {r : List Token}
    (hr : r.head? ≠ some .subjectTo) : (parameterTokens name v ++ r).head? ≠ some .subjectTo := by
  cases v with
  | none => exact hr
  | some v => exact nofun

theorem distance_cancel {d d' : Option Double} (hd : ∀ x ∈ d, x.isDefined = true)
    (hd' : ∀ x ∈ d', x.isDefined = true) {r r' : List Token}
    (hr : ∀ w, r ≠ .comma :: .identifier "distance" :: w)
    (hr' : ∀ w, r' ≠ .comma :: .identifier "distance" :: w)
    (h : parameterTokens "distance" (d.map Double.tokens) ++ r =
      parameterTokens "distance" (d'.map Double.tokens) ++ r') : d = d' ∧ r = r' := by
  rcases parameter_cancel hr hr' h with ⟨hv, hv', hrest⟩ | ⟨w, w', hv, hv', hrest⟩
  · rw [Option.map_eq_none_iff] at hv hv'
    exact ⟨hv.trans hv'.symm, hrest⟩
  · obtain ⟨x, rfl, rfl⟩ := Option.map_eq_some_iff.1 hv
    obtain ⟨y, rfl, rfl⟩ := Option.map_eq_some_iff.1 hv'
    obtain ⟨rfl, hend⟩ := number_cancel (hd x rfl) (hd' y rfl) hrest
    exact ⟨rfl, hend⟩

theorem topK_cancel {k k' : Option Nat} (hk : ∀ n ∈ k, 1 ≤ n ∧ n ≤ 2 ^ 32 - 1)
    (hk' : ∀ n ∈ k', 1 ≤ n ∧ n ≤ 2 ^ 32 - 1) {r r' : List Token}
    (hr : ∀ w, r ≠ .comma :: .identifier "top_k" :: w)
    (hr' : ∀ w, r' ≠ .comma :: .identifier "top_k" :: w)
    (h : parameterTokens "top_k" (k.map fun n => [.number (.ofDecimal n 0)]) ++ r =
      parameterTokens "top_k" (k'.map fun n => [.number (.ofDecimal n 0)]) ++ r') :
    k = k' ∧ r = r' := by
  rcases parameter_cancel hr hr' h with ⟨hv, hv', hrest⟩ | ⟨w, w', hv, hv', hrest⟩
  · rw [Option.map_eq_none_iff] at hv hv'
    exact ⟨hv.trans hv'.symm, hrest⟩
  · obtain ⟨n, rfl, rfl⟩ := Option.map_eq_some_iff.1 hv
    obtain ⟨m, rfl, rfl⟩ := Option.map_eq_some_iff.1 hv'
    obtain ⟨hnumber, hend⟩ := List.cons.inj hrest
    have hn := hk n rfl
    have hm := hk' m rfl
    -- such numbers are held exactly
    have hnat := Double.natural?_ofDecimal (k := n) (by omega) (by omega)
    rw [Token.number.inj hnumber, Double.natural?_ofDecimal (k := m) (by omega) (by omega)] at hnat
    cases hnat
    exact ⟨rfl, hend⟩

theorem type_cancel {t t' : Option String} {r r' : List Token}
    (hr : ∀ w, r ≠ .comma :: .identifier "type" :: w)
    (hr' : ∀ w, r' ≠ .comma :: .identifier "type" :: w)
    (h : parameterTokens "type" (t.map fun t => [.string t]) ++ r =
      parameterTokens "type" (t'.map fun t => [.string t]) ++ r') : t = t' ∧ r = r' := by
  rcases parameter_cancel hr hr' h with ⟨hv, hv', hrest⟩ | ⟨w, w', hv, hv', hrest⟩
  · rw [Option.map_eq_none_iff] at hv hv'
    exact ⟨hv.trans hv'.symm, hrest⟩
  · obtain ⟨s, rfl, rfl⟩ := Option.map_eq_some_iff.1 hv
    obtain ⟨s', rfl, rfl⟩ := Option.map_eq_some_iff.1 hv'
    obtain ⟨hstring, hend⟩ := List.cons.inj hrest
    cases hstring
    exact ⟨rfl, hend⟩

theorem cancels_similar {t : Query} (ht : Cancels t) {d : Option Double} {k : Option Nat}
    (ty : Option String) (hd : ∀ x ∈ d, x.isDefined = true)
    (hk : ∀ n ∈ k, 1 ≤ n ∧ n ≤ 2 ^ 32 - 1) : Cancels (.similar t d k ty) := by
  intro q' h' r r' _ _ h
  cases h' with
  | lookup => cases (List.cons.inj h).1
  | comparison => cases (List.cons.inj h).1
  | relation => cases (List.cons.inj h).1
  | not => cases (List.cons.inj h).1
  | @logical op => cases op <;> cases (List.cons.inj h).1
  | @similar t' d' k' ty' hp hd' hk' =>
      have hrest := (List.cons.inj (List.cons.inj h).2).2
      simp only [List.append_eq, List.append_assoc] at hrest
      have hclose : ∀ (other : String) (u w : List Token),
          [Token.rightParen] ++ u ≠ .comma :: .identifier other :: w := fun _ _ _ => nofun
      have hhead : ∀ u : List Token, ([Token.rightParen] ++ u).head? ≠ some .subjectTo :=
        fun _ => nofun
      obtain ⟨rfl, hdistance⟩ := ht hp
        (parameter_head _ _ (parameter_head _ _ (parameter_head _ _ (hhead r))))
        (parameter_head _ _ (parameter_head _ _ (parameter_head _ _ (hhead r')))) hrest
      obtain ⟨rfl, htopK⟩ := distance_cancel hd (fun x hx => (hd' x hx).1)
        (parameter_ne (by decide) (parameter_ne (by decide) (hclose _ r)))
        (parameter_ne (by decide) (parameter_ne (by decide) (hclose _ r'))) hdistance
      obtain ⟨rfl, htype⟩ := topK_cancel hk hk' (parameter_ne (by decide) (hclose _ r))
        (parameter_ne (by decide) (hclose _ r')) htopK
      obtain ⟨rfl, hend⟩ := type_cancel (hclose _ r) (hclose _ r') htype
      exact ⟨rfl, (List.cons.inj hend).2⟩
  | analogy => cases (List.cons.inj h).1
  | optimize direction => cases direction <;> cases (List.cons.inj h).1

theorem direction_token_injective {a b : Direction} (h : a.token = b.token) : a = b := by
  cases a <;> cases b <;> cases h <;> rfl

theorem cancels_optimize (direction : Direction) {o : Objective Double}
    {cs : List (Comparison Double)} (ho : o.terms ≠ [])
    (hts : ∀ t ∈ o.terms, t.WellFormed (·.isDefined = true))
    (hcs : ∀ c ∈ cs, c.WellFormed (·.isDefined = true)) : Cancels (.optimize direction o cs) := by
  intro q' h' r r' hr hr' h
  cases h' with
  | lookup => cases direction <;> cases (List.cons.inj h).1
  | comparison => cases direction <;> cases (List.cons.inj h).1
  | relation => cases direction <;> cases (List.cons.inj h).1
  | not => cases direction <;> cases (List.cons.inj h).1
  | @logical op => cases direction <;> cases op <;> cases (List.cons.inj h).1
  | similar => cases direction <;> cases (List.cons.inj h).1
  | analogy => cases direction <;> cases (List.cons.inj h).1
  | @optimize direction' o' cs' ho' hts' hcs' =>
      cases direction_token_injective (List.cons.inj h).1
      have hrest := (List.cons.inj (List.cons.inj h).2).2
      simp only [List.append_eq, List.append_assoc, List.cons_append] at hrest
      obtain ⟨rfl, hafter⟩ := objective_cancel ho ho' hts hts' hrest
      cases cs with
      | nil =>
          cases cs' with
          | nil => exact ⟨rfl, hafter⟩
          | cons c' cs' =>
              have : r = .subjectTo :: _ := hafter
              rw [this] at hr
              exact absurd rfl hr
      | cons c cs =>
          cases cs' with
          | nil =>
              have : r' = .subjectTo :: _ := hafter.symm
              rw [this] at hr'
              exact absurd rfl hr'
          | cons c' cs' =>
              have hconditions := (List.cons.inj (List.cons.inj hafter).2).2
              simp only [List.append_eq, List.append_assoc] at hconditions
              obtain ⟨hc, hend⟩ := constraints_cancel hcs hcs' (by simp) (by simp) hconditions
              rw [hc]
              exact ⟨rfl, hend⟩

theorem cancels_of_printable {q : Query} (h : q.Printable) : Cancels q := by
  induction h with
  | lookup name fuzzy _ => exact cancels_lookup _ name fuzzy
  | relation hl _ _ ihl ihr => exact cancels_relation ihl ihr hl
  | not _ ih => exact cancels_not ih
  | logical hop hlen hqs ih => exact cancels_logical hop hlen ih hqs
  | comparison hc => exact cancels_comparison hc
  | similar targetType _ hd hk ih =>
      exact cancels_similar ih targetType (fun x hx => (hd x hx).1) hk
  | analogy ha _ _ _ iha ihb ihc => exact cancels_analogy iha ihb ihc ha
  | optimize direction ho hts hcs => exact cancels_optimize direction ho hts hcs

/-- The canonical form determines the query. -/
theorem canonical_injective {q q' : Query} (h : q.Printable) (h' : q'.Printable)
    (heq : q.canonical = q'.canonical) : q = q' := by
  obtain ⟨ts, hts, htokens⟩ := tokenize_canonical h
  obtain ⟨ts', hts', htokens'⟩ := tokenize_canonical h'
  rw [heq, hts'] at hts
  cases hts
  rw [htokens] at htokens'
  exact (cancels_of_printable h h' (by simp) (by simp) htokens').1

end VectorQuery
