/-
# The canonical form reads back

The tokens of a well-formed query with finite numbers are a phrase that stands for the query
(`derives_tokens`), so parsing the canonical form answers the query itself.
-/
import VectorQuery.Proofs.Canonical.Lexing
import VectorQuery.Proofs.Grammar.Completeness

namespace VectorQuery

open Grammar

/-! ## Numbers and literals -/

theorem literal_number {x : Double} (hf : x.isFinite = true) : Literal x.tokens (.number x) := by
  obtain ⟨y, hy, hx | hx⟩ := x.eq_or_eq_neg
  · rw [hx] at hf ⊢
    rw [Double.tokens_of_nonneg hy, Double.token_of_isFinite hf]
    exact .number y
  · rw [hx, Double.isFinite_neg] at hf
    rw [hx, Double.tokens_neg hy, Double.token_of_isFinite hf]
    exact .negative y

theorem literal_tokens {v : Scalar Double} (hf : ∀ x, v = .number x → x.isFinite = true) :
    Literal v.tokens v := by
  cases v with
  | bool b => cases b <;> constructor
  | number x => exact literal_number (hf x rfl)
  | text s => exact .string s

theorem condition_tokens {c : Comparison Double} (hc : c.WellFormed (·.isFinite = true)) :
    Condition c.tokens c :=
  .mk c.field c.op (literal_tokens hc.number)

theorem conditions_tokens {cs : List (Comparison Double)}
    (hcs : ∀ c ∈ cs, c.WellFormed (·.isFinite = true)) (hne : cs ≠ []) :
    Conditions (Query.constraintTokens cs) cs := by
  induction cs with
  | nil => exact absurd rfl hne
  | cons c cs ih =>
      have hc := condition_tokens (hcs c List.mem_cons_self)
      cases cs with
      | nil => exact .one hc
      | cons c' cs =>
          rw [Query.constraintTokens]
          · exact .cons hc (ih (fun d hd => hcs d (List.mem_cons_of_mem _ hd)) (by simp))
          · simp

/-! ## Objectives -/

theorem one_literal : (1.0 : Double) = Quantity.one := by
  decide

/-- A term without its sign has the magnitude of its weight. -/
theorem weighted_unsigned {t : Term Double} (hf : t.weight.isFinite = true) :
    ∃ y : Double, Weighted t.unsignedTokens ⟨t.field, y⟩ ∧
      (t.weight.isNegative = false ∧ t.weight = y ∨ t.weight.isNegative = true ∧ t.weight = -y) := by
  obtain ⟨y, hy, hd, hmagnitude, hsign⟩ := Lexer.exists_magnitude (Double.isDefined_of_isFinite hf)
  have hfy : y.isFinite = true := by
    rcases hsign with ⟨-, hx⟩ | ⟨-, hx⟩
    · rwa [hx] at hf
    · rwa [hx, Double.isFinite_neg] at hf
  refine ⟨y, ?_, hsign⟩
  rw [Term.unsignedTokens, hmagnitude, Double.token_of_isFinite hfy]
  by_cases hone : y = Quantity.one
  · rw [if_pos hone, hone, ← one_literal]
    exact .bare t.field
  · rw [if_neg hone]
    exact .before y t.field

theorem joined_tokens {ts : List (Term Double)} (hts : ∀ t ∈ ts, t.weight.isFinite = true) :
    Joined (Term.joinedTokens ts) ts := by
  induction ts with
  | nil => exact .nil
  | cons t ts ih =>
      obtain ⟨y, hy, hsign⟩ := weighted_unsigned (hts t List.mem_cons_self)
      have hrest := ih fun t' ht' => hts t' (List.mem_cons_of_mem _ ht')
      obtain ⟨field, weight⟩ := t
      rw [Term.joinedTokens]
      rcases hsign with ⟨hneg, rfl⟩ | ⟨hneg, hx⟩
      · rw [hneg]
        exact .plus hy hrest
      · rw [hneg]
        dsimp only at hx
        subst hx
        exact .minus hy hrest

theorem sum_tokens {o : Objective Double} (hts : ∀ t ∈ o.terms, t.weight.isFinite = true)
    (hne : o.terms ≠ []) : Sum o.tokens o := by
  obtain ⟨_ | ⟨t, ts⟩⟩ := o
  · exact absurd rfl hne
  · obtain ⟨y, hy, hsign⟩ := weighted_unsigned (hts t List.mem_cons_self)
    have hrest := joined_tokens fun t' ht' => hts t' (List.mem_cons_of_mem _ ht')
    obtain ⟨field, weight⟩ := t
    rcases hsign with ⟨hneg, rfl⟩ | ⟨hneg, hx⟩
    · simp only [Objective.tokens, hneg]
      exact .mk hy hrest
    · simp only [Objective.tokens, hneg]
      dsimp only at hx
      subst hx
      exact .mk (.negated hy) hrest

/-! ## Queries -/

theorem derives_postfixed {w : List Token} {q : Query} (h : Derives .primary w q) :
    Derives .postfixed w q := .plainPostfixed h

theorem derives_analogy {w : List Token} {q : Query} (h : Derives .primary w q) :
    Derives .analogy w q := .plainAnalogy (.plainPostfixed h)

theorem derives_negation {w : List Token} {q : Query} (h : Derives .primary w q) :
    Derives .negation w q := .plainNegation (.plainRelational (derives_analogy h))

theorem derives_conjunction {w : List Token} {q : Query} (h : Derives .negation w q) :
    Derives .conjunction w q :=
  @Derives.conjunction [(w, q)] (by simp) (by simpa using h)

theorem derives_disjunction {w : List Token} {q : Query} (h : Derives .conjunction w q) :
    Derives .disjunction w q :=
  @Derives.disjunction [(w, q)] (by simp) (by simpa using h)

/-- A primary is a whole query. -/
theorem derives_whole {w : List Token} {q : Query} (h : Derives .primary w q) :
    Derives .disjunction w q :=
  derives_disjunction (derives_conjunction (derives_negation h))

theorem separated_map_tokens (t : Token) (qs : List Query) :
    separated t (qs.map Query.tokens) = Query.joinedTokens [t] qs := by
  induction qs with
  | nil => rfl
  | cons q qs ih =>
      cases qs with
      | nil => rfl
      | cons q' qs =>
          rw [Query.joinedTokens]
          · rw [← ih]
            simp [separated]
          · simp

theorem map_pair_tokens (qs : List Query) :
    (qs.map fun q => (q.tokens, q)).map (·.1) = qs.map Query.tokens ∧
      (qs.map fun q => (q.tokens, q)).map (·.2) = qs := by
  simp [Function.comp_def]

/-- Operands with `AND` or `OR` between them are one query within parentheses. -/
theorem derives_logical {op : Connective} (hop : op ≠ .not) {qs : List Query}
    (hlen : 2 ≤ qs.length) (hqs : ∀ q ∈ qs, Derives .primary q.tokens q) :
    Derives .disjunction (Query.joinedTokens [op.token] qs) (.logical op qs) := by
  have hne : (qs.map fun q => (q.tokens, q)) ≠ [] := by
    rw [Ne, List.map_eq_nil_iff]
    rintro rfl
    simp at hlen
  have hjoined : joined op qs = .logical op qs := by
    unfold joined
    split
    · simp at hlen
    · rfl
  obtain ⟨hfirst, hsecond⟩ := map_pair_tokens qs
  rw [← separated_map_tokens, ← hjoined, ← hfirst]
  cases op with
  | not => exact absurd rfl hop
  | and =>
      refine derives_disjunction ?_
      have := Derives.conjunction hne (by simpa using fun q hq => derives_negation (hqs q hq))
      rwa [hsecond] at this
  | or =>
      have := Derives.disjunction hne
        (by simpa using fun q hq => derives_conjunction (derives_negation (hqs q hq)))
      rwa [hsecond] at this

theorem parameters_cons {name : String} {value : Option (List Token)} {ws : List Token}
    {s s'' : Parser.Similarity} (s' : Parser.Similarity)
    (h : value = none ∧ s = s' ∨
      ∃ w, value = some w ∧ Parameter (.identifier name :: .assign :: w) s s')
    (hws : Parameters ws s' s'') : Parameters (parameterTokens name value ++ ws) s s'' := by
  rcases h with ⟨rfl, rfl⟩ | ⟨w, rfl, hw⟩
  · exact hws
  · exact .cons hw hws

theorem parameters_tokens {distance : Option Double} {topK : Option Nat}
    (targetType : Option String)
    (hd : ∀ d ∈ distance, d.isFinite = true ∧ 0.0 ≤ d ∧ d ≤ 2.0)
    (hk : ∀ k ∈ topK, 1 ≤ k ∧ k ≤ 2 ^ 32 - 1) :
    Parameters (parameterTokens "distance" (distance.map Double.tokens)
      ++ (parameterTokens "top_k" (topK.map fun k => [.number (.ofDecimal k 0)])
        ++ (parameterTokens "type" (targetType.map fun ty => [.string ty]) ++ [])))
      ⟨none, none, none⟩ ⟨distance, topK, targetType⟩ := by
  refine parameters_cons ⟨distance, none, none⟩ ?_
    (parameters_cons ⟨distance, topK, none⟩ ?_ (parameters_cons _ ?_ (.nil _)))
  · cases distance with
    | none => exact .inl ⟨rfl, rfl⟩
    | some d =>
        obtain ⟨hf, hlow, hhigh⟩ := hd d rfl
        exact .inr ⟨_, rfl, .distance _ (.literal (literal_number hf)) hlow hhigh⟩
  · cases topK with
    | none => exact .inl ⟨rfl, rfl⟩
    | some k =>
        obtain ⟨hlow, hhigh⟩ := hk k rfl
        have hnatural : (Double.ofDecimal k 0).natural? = some k :=
          Double.natural?_ofDecimal hlow (by omega)
        exact .inr ⟨_, rfl, .topK _ (.literal (.number _)) hnatural hlow hhigh⟩
  · cases targetType with
    | none => exact .inl ⟨rfl, rfl⟩
    | some ty => exact .inr ⟨_, rfl, .type _ (.literal (.string ty))⟩

theorem target_tokens (ty : Option String) : Target (targetTokens ty) ty := by
  cases ty with
  | none => exact .open
  | some name => exact .typed name

theorem arrow_token (name : Option String) : Arrow (arrowToken name) name := by
  cases name with
  | none => exact .any
  | some name => exact .named name

/-- The tokens of a well-formed query are a phrase that stands for it. -/
theorem derives_tokens {q : Query} (h : q.WellFormed (·.isFinite = true)) :
    Derives .primary q.tokens q := by
  induction h with
  | lookup name fuzzy _ => exact .lookup _ fuzzy (.string name)
  | @relation l r name _ _ _ ihl ihr =>
      have := Derives.arrow (.plainRelational (derives_analogy ihl)) (arrow_token name)
        (derives_analogy ihr)
      have := Derives.group (derives_disjunction (derives_conjunction (.plainNegation this)))
      simpa [Query.tokens] using this
  | not _ ih =>
      rw [Query.tokens, Query.joinedTokens, ← List.cons_append]
      exact .group (derives_disjunction (derives_conjunction (.not (derives_negation ih))))
  | @logical op qs hop hlen _ ih =>
      have := Derives.group (derives_logical hop hlen ih)
      cases op with
      | not => exact absurd rfl hop
      | and | or => exact this
  | comparison hc => exact .comparison (condition_tokens hc)
  | similar targetType _ hd hk ih =>
      have := Derives.similar (derives_whole ih)
        (parameters_tokens targetType hd hk)
      simpa [Query.tokens] using this
  | @analogy a b c targetType _ _ _ _ iha ihb ihc =>
      have := Derives.analogy (derives_postfixed iha) (derives_postfixed ihb)
        (derives_postfixed ihc) (target_tokens targetType)
      have := Derives.group (derives_disjunction (derives_conjunction
        (.plainNegation (.plainRelational this))))
      simpa [Query.tokens] using this
  | @optimize direction o cs ho hts hcs =>
      have hsum := sum_tokens (fun t ht => (hts t ht).weight) ho
      rw [Query.tokens]
      refine .optimize direction hsum ?_
      cases cs with
      | nil => exact .absent
      | cons c cs => exact .present (conditions_tokens hcs (by simp))

/-! ## Reading back -/

/-- A query stays well-formed when less is asked of its numbers. -/
theorem Query.WellFormed.mono {ok ok' : Double → Prop} (hok : ∀ x, ok x → ok' x) {q : Query}
    (h : q.WellFormed ok) : q.WellFormed ok' :=
  h.of_numbers fun x _ => hok x

open Lexer in
/-- A text that is cut into a phrase is read as the query that the phrase stands for. -/
theorem parse_of_spells {text : String} {w : List Token} {q : Query}
    (hspells : Spells .other text.toList (w ++ [.endOfQuery]))
    (hderives : Derives .disjunction w q) : Query.parse text = .ok q := by
  obtain ⟨ts, hts, htokens⟩ := hspells .start
  have htokenize : tokenize text = .ok ts := hts
  rw [Query.parse, htokenize]
  exact Parser.ofTokens_of_derives hderives htokens rfl

/-- The tokens of a canonical form, before the end of the query. -/
theorem tokenize_canonical {q : Query} (h : q.WellFormed (·.isDefined = true)) :
    ∃ ts, tokenize q.canonical = .ok ts ∧ Parser.tokens ts = q.tokens ++ [.endOfQuery] := by
  have := Lexer.cuts_of_wellFormed h Lexer.follows_nil .start
  rwa [List.append_nil, ← String.toList_ofList (l := q.chars)] at this

/-- Parsing undoes canonical printing: the canonical form of a well-formed query with finite
numbers reads back as the query. -/
theorem parse_canonical {q : Query} (h : q.WellFormed (·.isFinite = true)) :
    Query.parse q.canonical = .ok q := by
  obtain ⟨ts, hts, htokens⟩ := tokenize_canonical (h.mono fun _ => Double.isDefined_of_isFinite)
  rw [Query.parse, hts]
  exact Parser.ofTokens_of_derives
    (derives_disjunction (derives_conjunction (derives_negation (derives_tokens h)))) htokens rfl

/-- A negated comparison with a negative number, beside a search below a named relation. -/
theorem parse_canonical_search :
    let q : Query := .logical .and
      [.logical .not [.comparison ⟨"year", .lt, .number (-2.5)⟩],
        .similar (.relation (.lookup "paper" "the \"best\"" true) (some "cited-by")
          (.lookup "author" "*" false)) (some 0.25) (some 3) (some "author")]
    q.WellFormed (·.isFinite = true) ∧ Query.parse q.canonical = .ok q := by
  intro q
  have hyear : IsIdentifier "year" := ⟨Lexer.isWord_of_all (by decide) (by decide), by decide⟩
  have hpaper : IsIdentifier "paper" := ⟨Lexer.isWord_of_all (by decide) (by decide), by decide⟩
  have hauthor : IsIdentifier "author" := ⟨Lexer.isWord_of_all (by decide) (by decide), by decide⟩
  have hcited : Lexer.IsRelation "cited-by".toList :=
    ⟨⟨'c', _, rfl, by decide⟩, by simp [Lexer.Hyphened]; decide⟩
  have hnot : Query.WellFormed (·.isFinite = true)
      (.logical .not [.comparison ⟨"year", .lt, .number (-2.5)⟩]) := by
    refine .not (.comparison ⟨hyear, ?_⟩)
    rintro x ⟨⟩
    decide
  have hsimilar : Query.WellFormed (·.isFinite = true)
      (.similar (.relation (.lookup "paper" "the \"best\"" true) (some "cited-by")
        (.lookup "author" "*" false)) (some 0.25) (some 3) (some "author")) := by
    refine .similar _ (.relation (.lookup _ _ hpaper) ?_ (.lookup _ _ hauthor)) ?_ ?_
    · rintro n ⟨⟩
      exact hcited
    · rintro d ⟨⟩
      decide
    · rintro k ⟨⟩
      decide
  have hq : q.WellFormed (·.isFinite = true) := by
    refine .logical (by decide) (by decide) ?_
    rintro p hp
    rcases List.mem_cons.1 hp with rfl | hp
    · exact hnot
    · rcases List.mem_cons.1 hp with rfl | hp
      · exact hsimilar
      · cases hp
  exact ⟨hq, parse_canonical hq⟩

end VectorQuery
