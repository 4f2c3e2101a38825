/-
# The canonical form is cut into its tokens

The characters of a well-formed query, before a blank, a closing parenthesis, a comma or the end,
are cut into the tokens of the query (`spells_chars`).  Infinite numbers are allowed here: they are
cut as words.
-/
import VectorQuery.Proofs.Canonical.Basic

namespace VectorQuery.Lexer

/-- A text that closes a query, and its tokens. -/
structure Follows (rest : List Char) (w : List Token) : Prop where
  closes : Closes rest
  spells : ∀ context, context ≠ .call → Spells context rest w

theorem follows_nil : Follows [] [.endOfQuery] where
  closes := by rintro c ⟨⟩
  spells context _ := spells_nil context

theorem follows_blank {cs : List Char} {w : List Token}
    (h : ∀ context, context ≠ .call → Spells context cs w) : Follows (' ' :: cs) w where
  closes := by
    rintro c ⟨⟩
    exact .inl rfl
  spells context hc := (h context hc).blank (by decide)

theorem next_rightParen (context : Context) : context.next .rightParen = .other := by
  cases context <;> rfl

theorem next_comma (context : Context) : context.next .comma = .other := by
  cases context <;> rfl

theorem follows_rightParen {cs : List Char} {w : List Token} (h : Spells .other cs w) :
    Follows (')' :: cs) (.rightParen :: w) where
  closes := by
    rintro c ⟨⟩
    exact .inr (.inl rfl)
  spells context _ := Spells.plain rfl (fun _ => rfl) (next_rightParen context ▸ h)

theorem follows_comma {cs : List Char} {w : List Token} (h : Spells .other cs w) :
    Follows (',' :: cs) (.comma :: w) where
  closes := by
    rintro c ⟨⟩
    exact .inr (.inr rfl)
  spells context _ := Spells.plain rfl (fun _ => rfl) (next_comma context ▸ h)

/-! ## Words -/

theorem Follows.not_continues {rest : List Char} {w : List Token} (h : Follows rest w) :
    ∀ d ∈ rest.head?, continuesWord d = false :=
  not_of_closes h.closes (by decide)

theorem spells_identifier {context : Context} {s : String} {rest : List Char} {w : List Token}
    (hcontext : context ≠ .call) (hs : IsIdentifier s)
    (hrest : ∀ d ∈ rest.head?, continuesWord d = false) (h : Spells .name rest w) :
    Spells context (s.toList ++ rest) (.identifier s :: w) := by
  have hnext : context.next (.identifier s) = .name := by
    cases context <;> rfl
  rw [← hs.ofWord]
  exact Spells.word hcontext hs.word hrest (by rw [hs.ofWord, hnext]; exact h)

/-- A keyword. -/
theorem spells_keyword {context : Context} (word : List Char) {rest : List Char} {t : Token}
    {w : List Token} (hcontext : context ≠ .call) (hword : IsWord word) (ht : Token.ofWord word = t)
    (hnext : context.next t = .other) (hrest : ∀ d ∈ rest.head?, continuesWord d = false)
    (h : Spells .other rest w) : Spells context (word ++ rest) (t :: w) := by
  subst ht
  exact Spells.word hcontext hword hrest (hnext ▸ h)

/-! ## Numbers and literals -/

theorem isIdentifier_inf : IsIdentifier "inf" where
  word := isWord_of_all (by decide) (by decide)
  keyword := by decide

/-- A number without a sign. -/
theorem spells_token {context : Context} {x : Double} {rest : List Char} {w : List Token}
    (hcontext : context ≠ .call) (hx : x.Nonneg) (hd : x.isDefined = true)
    (h : Follows rest w) : Spells context (x.text.toList ++ rest) (x.token :: w) := by
  rw [Double.token]
  cases hf : x.isFinite with
  | true =>
      obtain ⟨m, hm, htext, hvalue⟩ := Double.exists_numeral hx hf
      rw [if_pos rfl, htext, ← hvalue]
      exact Spells.numeral hm h.closes (h.spells .other (by decide))
  | false =>
      rw [if_neg Bool.false_ne_true, Double.eq_infinity hx hd hf, Double.text_infinity]
      exact spells_identifier hcontext isIdentifier_inf h.not_continues
        (h.spells .name (by decide))

/-- The text of a number without a sign starts with a digit or a letter. -/
theorem head_text {x : Double} (hx : x.Nonneg) (hd : x.isDefined = true) :
    ∃ c cs, x.text.toList = c :: cs ∧ (c.isDigit = true ∨ startsWord c = true) := by
  cases hf : x.isFinite with
  | true =>
      obtain ⟨m, hm, htext, -⟩ := Double.exists_numeral hx hf
      obtain ⟨c, whole, hw⟩ := List.exists_cons_of_ne_nil hm.whole_ne_nil
      have hdigit : c.isDigit = true := hm.isDigit_whole c (by rw [hw]; exact List.mem_cons_self)
      rw [htext, Numeral.chars, hw]
      exact ⟨c, _, rfl, .inl hdigit⟩
  | false =>
      rw [Double.eq_infinity hx hd hf, Double.text_infinity]
      exact ⟨'i', _, rfl, .inr (by decide)⟩

theorem ne_of_digit_or_word {c d : Char} (h : c.isDigit = true ∨ startsWord c = true)
    (hd : d.isDigit = false ∧ startsWord d = false) : c ≠ d := by
  rintro rfl
  rcases h with h | h
  · rw [hd.1] at h
    cases h
  · rw [hd.2] at h
    cases h

/-- A number, with its sign. -/
theorem spells_number {x : Double} {rest : List Char} {w : List Token}
    (hd : x.isDefined = true) (h : Follows rest w) :
    Spells .other (x.text.toList ++ rest) (x.tokens ++ w) := by
  obtain ⟨y, hy, rfl | rfl⟩ := x.eq_or_eq_neg
  · rw [Double.tokens_of_nonneg hy]
    exact spells_token (by decide) hy hd h
  · rw [Double.isDefined_neg] at hd
    rw [Double.tokens_neg hy, Double.text_neg hy hd]
    refine Spells.minus ?_ (spells_token (by decide) hy hd h)
    obtain ⟨c, cs, hc, hdigit⟩ := head_text hy hd
    rw [hc]
    rintro d ⟨⟩
    exact ⟨ne_of_digit_or_word hdigit (by decide), ne_of_digit_or_word hdigit (by decide)⟩

/-- A literal. -/
theorem spells_literal {v : Scalar Double} {rest : List Char} {w : List Token}
    (hd : ∀ x, v = .number x → x.isDefined = true) (h : Follows rest w) :
    Spells .other (v.literal ++ rest) (v.tokens ++ w) := by
  cases v with
  | bool b =>
      cases b
      · exact spells_keyword "false".toList (by decide)
          (isWord_of_all (by decide) (by decide)) (by decide) rfl h.not_continues
          (h.spells .other (by decide))
      · exact spells_keyword "true".toList (by decide)
          (isWord_of_all (by decide) (by decide)) (by decide) rfl h.not_continues
          (h.spells .other (by decide))
  | number x => exact spells_number (hd x rfl) h
  | text s => exact Spells.quote (h.spells .other (by decide))

/-- A comparison. -/
theorem spells_comparison {c : Comparison Double} {rest : List Char} {w : List Token}
    (hc : c.WellFormed (·.isDefined = true)) (h : Follows rest w) {context : Context}
    (hcontext : context ≠ .call) : Spells context (c.chars ++ rest) (c.tokens ++ w) := by
  have hchars : c.chars ++ rest
      = c.field.toList ++ ' ' :: (c.op.symbol.toList ++ ' ' :: (c.value.literal ++ rest)) := by
    simp [Comparison.chars]
  rw [hchars]
  refine spells_identifier hcontext hc.field (by rintro d ⟨⟩; decide) ?_
  refine Spells.blank (by decide) (Spells.operator (by simp) ?_)
  exact Spells.blank (by decide) (spells_literal hc.number h)

/-! ## Objectives -/

theorem isNegative_eq {x : Double} (hd : x.isDefined = true) : isNegative x = x.isNegative := by
  obtain ⟨y, hy, rfl | rfl⟩ := x.eq_or_eq_neg
  · obtain ⟨c, cs, hc, hdigit⟩ := head_text hy hd
    have hne : c ≠ '-' := ne_of_digit_or_word hdigit (by decide)
    rw [Double.isNegative_of_nonneg hy, isNegative]
    change (x.text.toList.head? == some '-') = false
    simp [hc, hne]
  · rw [Double.isDefined_neg] at hd
    rw [Double.isNegative_neg hy, isNegative]
    change ((-y).text.toList.head? == some '-') = true
    rw [Double.text_neg hy hd]
    rfl

theorem next_star (context : Context) : context.next .star = .other := by
  cases context <;> rfl

theorem next_plus (context : Context) : context.next .plus = .other := by
  cases context <;> rfl

/-- The magnitude of a number has no sign. -/
theorem exists_magnitude {x : Double} (hd : x.isDefined = true) :
    ∃ y : Double, y.Nonneg ∧ y.isDefined = true ∧ Quantity.magnitude x = y ∧
      (x.isNegative = false ∧ x = y ∨ x.isNegative = true ∧ x = -y) := by
  obtain ⟨y, hy, hx | hx⟩ := x.eq_or_eq_neg
  · rw [hx] at hd ⊢
    exact ⟨y, hy, hd, Double.magnitude_of_nonneg hy, .inl ⟨Double.isNegative_of_nonneg hy, rfl⟩⟩
  · rw [hx, Double.isDefined_neg] at hd
    rw [hx]
    exact ⟨y, hy, hd, Double.magnitude_neg hy hd, .inr ⟨Double.isNegative_neg hy, rfl⟩⟩

/-- A term without its sign starts with a digit or a letter. -/
theorem head_unsigned {t : Term Double} (ht : t.WellFormed (·.isDefined = true)) :
    ∃ c cs, t.unsigned = c :: cs ∧ (c.isDigit = true ∨ startsWord c = true) := by
  obtain ⟨y, hy, hd, hmagnitude, -⟩ := exists_magnitude ht.weight
  rw [Term.unsigned, hmagnitude]
  split
  · obtain ⟨c, cs, hc, hword⟩ := ht.field.word.head
    exact ⟨c, cs, hc, .inr hword⟩
  · obtain ⟨c, cs, hc, hdigit⟩ := head_text hy hd
    change ∃ d ds, y.text.toList ++ " * ".toList ++ t.field.toList = d :: ds ∧ _
    rw [hc]
    exact ⟨c, _, rfl, hdigit⟩

/-- A term without its sign. -/
theorem spells_unsigned {t : Term Double} {rest : List Char} {w : List Token}
    (ht : t.WellFormed (·.isDefined = true)) (h : Follows rest w) (context : Context)
    (hcontext : context ≠ .call) : Spells context (t.unsigned ++ rest) (t.unsignedTokens ++ w) := by
  obtain ⟨y, hy, hd, hmagnitude, -⟩ := exists_magnitude ht.weight
  have hfield : ∀ {context}, context ≠ .call →
      Spells context (t.field.toList ++ rest) (.identifier t.field :: w) := fun hc =>
    spells_identifier hc ht.field h.not_continues (h.spells .name (by decide))
  rw [Term.unsigned, Term.unsignedTokens, hmagnitude]
  by_cases hone : y = Quantity.one
  · rw [if_pos ((Double.compare?_one_iff hy).2 hone), if_pos hone]
    exact hfield hcontext
  · rw [if_neg (mt (Double.compare?_one_iff hy).1 hone), if_neg hone, List.append_assoc,
      List.append_assoc]
    refine spells_token hcontext hy hd (follows_blank fun context hc => ?_)
    refine Spells.plain rfl (fun h => absurd h hc) ?_
    rw [next_star]
    exact Spells.blank (by decide) (hfield (by decide))

/-- The terms after the first. -/
theorem spells_joined {ts : List (Term Double)} {rest : List Char} {w : List Token}
    (hts : ∀ t ∈ ts, t.WellFormed (·.isDefined = true)) (h : Follows rest w) :
    Follows (Term.joined ts ++ rest) (Term.joinedTokens ts ++ w) := by
  induction ts with
  | nil => exact h
  | cons t ts ih =>
      have ht := hts t List.mem_cons_self
      have hrest := ih fun t' ht' => hts t' (List.mem_cons_of_mem _ ht')
      have hunsigned := Spells.blank (b := ' ') (by decide)
        (spells_unsigned ht hrest .other (by decide))
      rw [Term.joined, Term.joinedTokens, isNegative_eq ht.weight]
      simp only [List.append_assoc, List.cons_append]
      cases t.weight.isNegative with
      | true =>
          change Follows (' ' :: '-' :: ' ' :: (t.unsigned ++ (Term.joined ts ++ rest)))
            (.minus :: (t.unsignedTokens ++ (Term.joinedTokens ts ++ w)))
          exact follows_blank fun context _ => Spells.minus (by rintro c ⟨⟩; decide) hunsigned
      | false =>
          change Follows (' ' :: '+' :: ' ' :: (t.unsigned ++ (Term.joined ts ++ rest)))
            (.plus :: (t.unsignedTokens ++ (Term.joinedTokens ts ++ w)))
          exact follows_blank fun context _ =>
            Spells.plain rfl (fun _ => rfl) (next_plus context ▸ hunsigned)

/-- An objective. -/
theorem spells_objective {o : Objective Double} {rest : List Char} {w : List Token}
    (hts : ∀ t ∈ o.terms, t.WellFormed (·.isDefined = true)) (ho : o.terms ≠ [])
    (h : Follows rest w) : Spells .other (o.chars ++ rest) (o.tokens ++ w) := by
  obtain ⟨_ | ⟨t, ts⟩⟩ := o
  · exact absurd rfl ho
  · have ht := hts t List.mem_cons_self
    have hrest := spells_joined (fun t' ht' => hts t' (List.mem_cons_of_mem _ ht')) h
    have hunsigned := spells_unsigned ht hrest .other (by decide)
    simp only [Objective.chars, Objective.tokens, isNegative_eq ht.weight]
    rw [List.append_assoc, List.append_assoc, List.append_assoc, List.append_assoc]
    cases t.weight.isNegative with
    | false => exact hunsigned
    | true =>
        refine Spells.minus ?_ hunsigned
        obtain ⟨c, cs, hc, hdigit⟩ := head_unsigned ht
        rw [hc]
        rintro d ⟨⟩
        exact ⟨ne_of_digit_or_word hdigit (by decide), ne_of_digit_or_word hdigit (by decide)⟩

/-! ## Queries -/

theorem next_leftParen : Context.other.next .leftParen = .other := rfl

/-- An opening parenthesis that stands behind no name. -/
theorem spells_leftParen {cs : List Char} {w : List Token} (h : Spells .other cs w) :
    Spells .other ('(' :: cs) (.leftParen :: w) :=
  Spells.plain rfl (by decide) (next_leftParen ▸ h)

/-- Constraints with commas between them. -/
theorem spells_constraints {cs : List (Comparison Double)} {rest : List Char} {w : List Token}
    (hcs : ∀ c ∈ cs, c.WellFormed (·.isDefined = true)) (hne : cs ≠ []) (h : Follows rest w) :
    Spells .other (Query.constraintChars cs ++ rest) (Query.constraintTokens cs ++ w) := by
  induction cs with
  | nil => exact absurd rfl hne
  | cons c cs ih =>
      have hc := hcs c List.mem_cons_self
      cases cs with
      | nil => exact spells_comparison hc h (by decide)
      | cons c' cs =>
          have hmore := ih (fun d hd => hcs d (List.mem_cons_of_mem _ hd)) (by simp)
          rw [Query.constraintChars, Query.constraintTokens, List.append_assoc, List.append_assoc,
            List.append_assoc]
          · exact spells_comparison hc (follows_comma (Spells.blank (by decide) hmore)) (by decide)
          · simp
          · simp

/-- The word of a connective between blanks. -/
theorem follows_connective {op : Connective} {cs : List Char} {w : List Token}
    (h : Spells .other cs w) :
    Follows (' ' :: (op.word.toList ++ ' ' :: cs)) (op.token :: w) := by
  refine follows_blank fun context hcontext => ?_
  have hrest : ∀ d ∈ (' ' :: cs).head?, continuesWord d = false := by
    rintro d ⟨⟩
    decide
  have hblank := Spells.blank (b := ' ') (by decide) h
  cases op with
  | and =>
      exact spells_keyword "AND".toList hcontext (isWord_of_all (by decide) (by decide))
        (by decide) (by cases context <;> rfl) hrest hblank
  | or =>
      exact spells_keyword "OR".toList hcontext (isWord_of_all (by decide) (by decide))
        (by decide) (by cases context <;> rfl) hrest hblank
  | not =>
      exact spells_keyword "NOT".toList hcontext (isWord_of_all (by decide) (by decide))
        (by decide) (by cases context <;> rfl) hrest hblank

/-- The characters of a query are cut into its tokens. -/
def Cuts (q : Query) : Prop :=
  ∀ ⦃rest : List Char⦄ ⦃w : List Token⦄, Follows rest w →
    Spells .other (q.chars ++ rest) (q.tokens ++ w)

theorem spells_operands (op : Connective) {qs : List Query} (hqs : ∀ q ∈ qs, Cuts q)
    (hne : qs ≠ []) {rest : List Char} {w : List Token} (h : Follows rest w) :
    Spells .other (Query.joined (' ' :: op.word.toList ++ [' ']) qs ++ rest)
      (Query.joinedTokens [op.token] qs ++ w) := by
  induction qs with
  | nil => exact absurd rfl hne
  | cons q qs ih =>
      have hq := hqs q List.mem_cons_self
      cases qs with
      | nil =>
          rw [Query.joined, Query.joinedTokens]
          exact hq h
      | cons q' qs =>
          have hmore := ih (fun p hp => hqs p (List.mem_cons_of_mem _ hp)) (by simp)
          rw [Query.joined, Query.joinedTokens]
          · simp only [List.append_assoc, List.cons_append, List.nil_append] at hmore ⊢
            exact hq (follows_connective hmore)
          · simp
          · simp

/-- Behind `type(`, and before what ends a lookup, the text is cut into the token. -/
def Names (name : List Char) (token : Token) : Prop :=
  ∀ ⦃rest : List Char⦄ ⦃w : List Token⦄, (∀ d ∈ rest.head?, d = ')' ∨ d = '~') →
    (∀ context, context ≠ .call → Spells context rest w) → Spells .call (name ++ rest) (token :: w)

theorem names_quote (s : String) : Names (quote s) (.string s) :=
  fun _ _ _ h => Spells.quote (h .other (by decide))

/-- A lookup whose name is written in some way. -/
theorem spells_lookup {context : Context} (hcontext : context ≠ .call) {entityType : String}
    (ht : IsIdentifier entityType) {name : List Char} {token : Token} (hname : Names name token)
    (fuzzy : Bool) {rest : List Char} {w : List Token}
    (h : ∀ context, context ≠ .call → Spells context rest w) :
    Spells context
      (entityType.toList ++ '(' :: (name ++ ((if fuzzy then ['~', ')'] else [')']) ++ rest)))
      (.identifier entityType :: .leftParen :: token ::
        ((if fuzzy then [.tilde, .rightParen] else [.rightParen]) ++ w)) := by
  refine spells_identifier hcontext ht (by rintro d ⟨⟩; decide) ?_
  refine Spells.plain rfl (by decide) ?_
  have hclose : ∀ context, context ≠ .call → Spells context (')' :: rest) (.rightParen :: w) :=
    fun context _ => Spells.plain rfl (fun _ => rfl)
      (next_rightParen context ▸ h .other (by decide))
  cases fuzzy with
  | false =>
      refine hname ?_ hclose
      rintro d ⟨⟩
      exact .inl rfl
  | true =>
      refine hname ?_ fun context _ => ?_
      · rintro d ⟨⟩
        exact .inr rfl
      · refine Spells.plain rfl (fun _ => rfl) (hclose _ ?_)
        cases context <;> decide

theorem cuts_lookup {entityType : String} (ht : IsIdentifier entityType) (name : String)
    (fuzzy : Bool) : Cuts (.lookup entityType name fuzzy) := by
  intro rest w h
  simp only [Query.chars, Query.tokens, List.append_assoc, List.cons_append]
  exact spells_lookup (by decide) ht (names_quote name) fuzzy h.spells

theorem cuts_relation {l r : Query} {name : Option String} (hl : Cuts l)
    (hn : ∀ n ∈ name, IsRelation n.toList) (hr : Cuts r) : Cuts (.relation l name r) := by
  intro rest w h
  have hright := hr (follows_rightParen (h.spells .other (by decide)))
  have hblank := Spells.blank (b := ' ') (by decide) hright
  simp only [Query.chars, Query.relationChars, Query.tokens, List.append_assoc, List.cons_append,
    List.nil_append]
  refine spells_leftParen (hl ?_)
  cases name with
  | none => exact follows_blank fun context _ => Spells.arrow hblank
  | some n =>
      simp only [List.append_assoc, List.cons_append, List.nil_append]
      refine follows_blank fun context _ => ?_
      have hnamed := Spells.namedArrow context (hn n rfl) hblank
      rw [String.ofList_toList] at hnamed
      exact hnamed

theorem cuts_not {q : Query} (hq : Cuts q) : Cuts (.logical .not [q]) := by
  intro rest w h
  have hinner := Spells.blank (b := ' ') (by decide)
    (hq (follows_rightParen (h.spells .other (by decide))))
  simp only [Query.chars, Query.joined, Query.tokens, Query.joinedTokens, List.append_assoc,
    List.cons_append, List.nil_append]
  exact spells_leftParen (spells_keyword "NOT".toList (by decide)
    (isWord_of_all (by decide) (by decide)) (by decide) rfl (by rintro d ⟨⟩; decide) hinner)

theorem cuts_logical {op : Connective} (hop : op ≠ .not) {qs : List Query} (hne : qs ≠ [])
    (hqs : ∀ q ∈ qs, Cuts q) : Cuts (.logical op qs) := by
  intro rest w h
  have hinner := spells_operands op hqs hne (follows_rightParen (h.spells .other (by decide)))
  cases op with
  | not => exact absurd rfl hop
  | and | or =>
      simp only [Query.chars, Query.tokens, List.append_assoc, List.cons_append, List.nil_append]
        at hinner ⊢
      exact spells_leftParen hinner

/-- A parameter, if it is given, between a query and what closes the search. -/
theorem follows_parameter {name : String} (hname : IsIdentifier name)
    {value : Option (List Char)} {tokens : Option (List Token)} {rest : List Char} {w : List Token}
    (hvalue : value = none ∧ tokens = none ∨ ∃ text v, value = some text ∧ tokens = some v ∧
      text.head?.any (· != '=') = true ∧ Spells .other (text ++ rest) (v ++ w))
    (h : Follows rest w) :
    Follows (Query.parameterChars name value ++ rest) (parameterTokens name tokens ++ w) := by
  rcases hvalue with ⟨rfl, rfl⟩ | ⟨text, v, rfl, rfl, hhead, hspells⟩
  · exact h
  · have hassign : Spells .name ('=' :: (text ++ rest)) (.assign :: (v ++ w)) := by
      refine Spells.assign ?_ hspells
      cases text with
      | nil => cases hhead
      | cons c text => simpa using hhead
    simp only [Query.parameterChars, parameterTokens, Option.map_some, Option.getD_some,
      List.append_assoc, List.cons_append]
    refine follows_comma (Spells.blank (by decide) ?_)
    exact spells_identifier (by decide) hname (by rintro d ⟨⟩; decide) hassign

theorem isIdentifier_distance : IsIdentifier "distance" where
  word := isWord_of_all (by decide) (by decide)
  keyword := by decide

theorem isIdentifier_topK : IsIdentifier "top_k" where
  word := isWord_of_all (by decide) (by decide)
  keyword := by decide

theorem isIdentifier_type : IsIdentifier "type" where
  word := isWord_of_all (by decide) (by decide)
  keyword := by decide

theorem head_number {x : Double} (hd : x.isDefined = true) :
    x.text.toList.head?.any (· != '=') = true := by
  obtain ⟨y, hy, hx | hx⟩ := x.eq_or_eq_neg
  · rw [hx] at hd ⊢
    obtain ⟨c, cs, hc, hdigit⟩ := head_text hy hd
    have hne : c ≠ '=' := ne_of_digit_or_word hdigit (by decide)
    simp [hc, hne]
  · rw [hx, Double.isDefined_neg] at hd
    rw [hx, Double.text_neg hy hd]
    rfl

/-- The digits of a whole number are a plain numeral. -/
theorem plain_digits (k : Nat) : Numeral.Plain ⟨Number.digits k, [], [], []⟩ where
  whole_ne_nil := Number.digits_ne_nil k
  isDigit_whole _ hc := Number.isDigit_of_mem_digits hc
  isDigit_fraction := by simp
  mark := rfl
  exponent := rfl

/-- A whole number. -/
theorem spells_natural (k : Nat) {rest : List Char} {w : List Token} (h : Follows rest w) :
    (toString k).toList.head?.any (· != '=') = true ∧
      Spells .other ((toString k).toList ++ rest) (.number (.ofDecimal k 0) :: w) := by
  have htext : (toString k).toList = Numeral.chars ⟨Number.digits k, [], [], []⟩ := by
    rw [Numeral.chars]
    simp [Number.digits]
  have hvalue : Numeral.value ⟨Number.digits k, [], [], []⟩ = .ofDecimal k 0 := by
    rw [(plain_digits k).value_eq]
    simp
  rw [htext]
  constructor
  · obtain ⟨c, cs, hc⟩ := List.exists_cons_of_ne_nil (Number.digits_ne_nil k)
    have hdigit := Number.isDigit_of_mem_digits (hc ▸ List.mem_cons_self : c ∈ Number.digits k)
    have hne : c ≠ '=' := ne_of_digit_or_word (.inl hdigit) (by decide)
    simp [Numeral.chars, hc, hne]
  · rw [← hvalue]
    exact Spells.numeral (plain_digits k) h.closes (h.spells .other (by decide))

theorem isWord_similarTo : IsWord "similar_to".toList :=
  isWord_of_all (by decide) (by decide)

theorem similarChars_append (t : List Char) (d : Option Double) (k : Option Nat)
    (ty : Option String) (rest : List Char) :
    Query.similarChars t d k ty ++ rest = "similar_to".toList ++ '(' :: (t
      ++ (Query.parameterChars "distance" (d.map fun d => d.text.toList)
        ++ (Query.parameterChars "top_k" (k.map fun k => (toString k).toList)
          ++ (Query.parameterChars "type" (ty.map quote) ++ ')' :: rest)))) := by
  unfold Query.similarChars
  generalize "similar_to".toList = word
  simp only [List.append_assoc, List.cons_append, List.nil_append]

/-- A search near a target that is written in some way. -/
theorem spells_similar {t : List Char} {tokens : List Token} {distance : Option Double}
    {topK : Option Nat} {targetType : Option String}
    (ht : ∀ ⦃rest : List Char⦄ ⦃w : List Token⦄, Follows rest w →
      Spells .other (t ++ rest) (tokens ++ w))
    (hd : ∀ d ∈ distance, d.isDefined = true) {rest : List Char} {w : List Token}
    (h : Follows rest w) :
    Spells .other (Query.similarChars t distance topK targetType ++ rest)
      (.similarTo :: .leftParen :: (tokens
        ++ (parameterTokens "distance" (distance.map Double.tokens)
          ++ (parameterTokens "top_k" (topK.map fun k => [.number (.ofDecimal k 0)])
            ++ (parameterTokens "type" (targetType.map fun ty => [.string ty])
              ++ .rightParen :: w))))) := by
  have hclose := follows_rightParen (h.spells .other (by decide))
  have htype : Follows (Query.parameterChars "type" (targetType.map quote) ++ ')' :: rest)
      (parameterTokens "type" (targetType.map fun t => [.string t]) ++ .rightParen :: w) := by
    refine follows_parameter isIdentifier_type ?_ hclose
    cases targetType with
    | none => exact .inl ⟨rfl, rfl⟩
    | some t =>
        exact .inr ⟨_, _, rfl, rfl, rfl, Spells.quote (hclose.spells .other (by decide))⟩
  have hk : Follows (Query.parameterChars "top_k" (topK.map fun k => (toString k).toList)
        ++ (Query.parameterChars "type" (targetType.map quote) ++ ')' :: rest))
      (parameterTokens "top_k" (topK.map fun k => [.number (.ofDecimal k 0)])
        ++ (parameterTokens "type" (targetType.map fun t => [.string t]) ++ .rightParen :: w)) := by
    refine follows_parameter isIdentifier_topK ?_ htype
    cases topK with
    | none => exact .inl ⟨rfl, rfl⟩
    | some k => exact .inr ⟨_, _, rfl, rfl, spells_natural k htype⟩
  rw [similarChars_append]
  refine spells_keyword _ (by decide) isWord_similarTo (by decide) rfl (by rintro d ⟨⟩; decide)
    (spells_leftParen (ht (follows_parameter isIdentifier_distance ?_ hk)))
  cases distance with
  | none => exact .inl ⟨rfl, rfl⟩
  | some d =>
      exact .inr ⟨_, _, rfl, rfl, head_number (hd d rfl), spells_number (hd d rfl) hk⟩

theorem cuts_similar {target : Query} {distance : Option Double} {topK : Option Nat}
    {targetType : Option String} (ht : Cuts target)
    (hd : ∀ d ∈ distance, d.isDefined = true) :
    Cuts (.similar target distance topK targetType) := by
  intro rest w h
  rw [Query.chars, Query.tokens]
  simp only [List.append_assoc, List.cons_append, List.nil_append]
  exact spells_similar ht hd h

theorem analogyChars_append (a b c : List Char) (ty : Option String) (rest : List Char) :
    Query.analogyChars a b c ty ++ rest = '(' :: (a ++ ' ' :: ("is_to".toList ++ ' ' :: (b
      ++ ' ' :: ("as".toList ++ ' ' :: (c ++ ' ' :: ("is_to".toList ++ ' ' ::
        ((ty.elim ['?'] fun name => name.toList ++ ['(', '?', ')']) ++ ')' :: rest))))))) := by
  unfold Query.analogyChars
  generalize "is_to".toList = word
  generalize "as".toList = word'
  cases ty with
  | none =>
      simp only [Option.elim_none, List.append_assoc, List.cons_append, List.nil_append]
  | some t =>
      simp only [Option.elim_some, List.append_assoc, List.cons_append, List.nil_append]

theorem follows_isTo {cs : List Char} {w : List Token} (h : Spells .other cs w) :
    Follows (' ' :: ("is_to".toList ++ ' ' :: cs)) (.isTo :: w) :=
  follows_blank fun context hcontext => spells_keyword _ hcontext
    (isWord_of_all (by decide) (by decide)) (by decide) (by cases context <;> rfl)
    (by rintro d ⟨⟩; decide) (Spells.blank (by decide) h)

theorem follows_as {cs : List Char} {w : List Token} (h : Spells .other cs w) :
    Follows (' ' :: ("as".toList ++ ' ' :: cs)) (.as :: w) :=
  follows_blank fun context hcontext => spells_keyword _ hcontext
    (isWord_of_all (by decide) (by decide)) (by decide) (by cases context <;> rfl)
    (by rintro d ⟨⟩; decide) (Spells.blank (by decide) h)

/-- The wildcard of an analogy's target behind `type(`, where it is an argument. -/
theorem spells_wildcard {cs : List Char} {w : List Token} (h : Spells .other (')' :: cs) w) :
    Spells .call ('?' :: ')' :: cs) (.question :: w) :=
  Spells.cons (l := ⟨.question, ['?'], ')' :: cs⟩) (by decide) (by rfl) h

/-- The target of an analogy. -/
theorem spells_target {ty : Option String} (ht : ∀ t ∈ ty, IsIdentifier t) {rest : List Char}
    {w : List Token} (h : Spells .other rest w) :
    Spells .other ((ty.elim ['?'] fun name => name.toList ++ ['(', '?', ')']) ++ ')' :: rest)
      (targetTokens ty ++ .rightParen :: w) := by
  have hclose : Spells .other (')' :: rest) (.rightParen :: w) := Spells.plain rfl (by decide) h
  cases ty with
  | none => exact Spells.plain rfl (by decide) hclose
  | some t =>
      simp only [Option.elim_some, targetTokens, List.append_assoc, List.cons_append,
        List.nil_append]
      refine spells_identifier (by decide) (ht t rfl) (by rintro d ⟨⟩; decide) ?_
      refine Spells.plain rfl (by decide) (spells_wildcard ?_)
      exact Spells.plain rfl (by decide) hclose

theorem cuts_analogy {a b c : Query} {targetType : Option String} (ha : Cuts a) (hb : Cuts b)
    (hc : Cuts c) (ht : ∀ t ∈ targetType, IsIdentifier t) : Cuts (.analogy a b c targetType) := by
  intro rest w h
  have htarget := spells_target ht (h.spells .other (by decide))
  rw [Query.chars, analogyChars_append, Query.tokens]
  simp only [List.append_assoc, List.cons_append, List.nil_append]
  exact spells_leftParen (ha (follows_isTo (hb (follows_as (hc (follows_isTo htarget))))))

theorem optimizeChars_append (dir : Direction) (o : Objective Double)
    (cs : List (Comparison Double)) (rest : List Char) :
    Query.optimizeChars dir o cs ++ rest = dir.word.toList ++ '(' :: (o.chars ++ ')' ::
      ((if cs.isEmpty then [] else
        ' ' :: ("subject_to".toList ++ '(' :: (Query.constraintChars cs ++ [')']))) ++ rest)) := by
  unfold Query.optimizeChars
  generalize "subject_to".toList = word
  generalize dir.word.toList = word'
  simp only [List.append_assoc, List.cons_append, List.nil_append]

theorem spells_direction {direction : Direction} {cs : List Char} {w : List Token}
    (h : Spells .other ('(' :: cs) w) :
    Spells .other (direction.word.toList ++ '(' :: cs) (direction.token :: w) := by
  cases direction with
  | maximize =>
      exact spells_keyword "maximize".toList (by decide) (isWord_of_all (by decide) (by decide))
        (by decide) rfl (by rintro d ⟨⟩; decide) h
  | minimize =>
      exact spells_keyword "minimize".toList (by decide) (isWord_of_all (by decide) (by decide))
        (by decide) rfl (by rintro d ⟨⟩; decide) h

theorem spells_subjectTo {cs : List (Comparison Double)} {rest : List Char} {w : List Token}
    (hcs : ∀ c ∈ cs, c.WellFormed (·.isDefined = true)) (hne : cs ≠ [])
    (h : Spells .other rest w) :
    Spells .other ("subject_to".toList ++ '(' :: (Query.constraintChars cs ++ ')' :: rest))
      (.subjectTo :: .leftParen :: (Query.constraintTokens cs ++ .rightParen :: w)) :=
  spells_keyword "subject_to".toList (by decide) (isWord_of_all (by decide) (by decide)) (by decide)
    rfl (by rintro d ⟨⟩; decide)
    (spells_leftParen (spells_constraints hcs hne (follows_rightParen h)))

theorem cuts_optimize (direction : Direction) {o : Objective Double}
    {cs : List (Comparison Double)} (ho : o.terms ≠ [])
    (hts : ∀ t ∈ o.terms, t.WellFormed (·.isDefined = true))
    (hcs : ∀ c ∈ cs, c.WellFormed (·.isDefined = true)) : Cuts (.optimize direction o cs) := by
  intro rest w h
  have hrest := h.spells .other (by decide)
  rw [Query.chars, optimizeChars_append, Query.tokens]
  simp only [List.append_assoc, List.cons_append]
  refine spells_direction (spells_leftParen (spells_objective hts ho (follows_rightParen ?_)))
  cases hcs' : cs.isEmpty with
  | true => exact hrest
  | false =>
      rw [if_neg Bool.false_ne_true, if_neg Bool.false_ne_true]
      simp only [List.append_assoc, List.cons_append, List.nil_append]
      refine Spells.blank (by decide) (spells_subjectTo hcs ?_ hrest)
      rintro rfl
      cases hcs'

/-- The canonical form of a well-formed query is cut into the tokens of the query. -/
theorem cuts_of_wellFormed {q : Query} (h : q.WellFormed (·.isDefined = true)) : Cuts q := by
  induction h with
  | lookup name fuzzy ht => exact cuts_lookup ht name fuzzy
  | relation _ hn _ ihl ihr => exact cuts_relation ihl hn ihr
  | not _ ih => exact cuts_not ih
  | logical hop hlen _ ih => exact cuts_logical hop (by rintro rfl; simp at hlen) ih
  | comparison hc => exact fun _ _ h => spells_comparison hc h (by decide)
  | similar _ _ hd _ ih => exact cuts_similar ih fun d hd' => (hd d hd').1
  | analogy _ _ _ ht iha ihb ihc => exact cuts_analogy iha ihb ihc ht
  | optimize direction ho hts hcs => exact cuts_optimize direction ho hts hcs

end VectorQuery.Lexer
