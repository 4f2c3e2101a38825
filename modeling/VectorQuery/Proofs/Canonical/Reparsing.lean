/-
# Which canonical forms are accepted

A numeral may be as large as it likes: one beyond the finite numbers stands for infinity.  But
infinity has no numeral, it is printed as the word `inf`, which the grammar accepts in no place of a
number.  So the canonical form of a query that was parsed reads back as the query exactly if the
numbers of the query are finite.
-/
import VectorQuery.Proofs.Canonical.Parsed
import VectorQuery.Proofs.Canonical.Parsing

namespace VectorQuery

/-! ## The number tokens of a canonical form -/

/-- Every number among the tokens is finite. -/
def FiniteTokens (w : List Token) : Prop := ∀ x, Token.number x ∈ w → x.isFinite = true

@[simp] theorem finiteTokens_nil : FiniteTokens [] := nofun

@[simp] theorem finiteTokens_append (w ws : List Token) :
    FiniteTokens (w ++ ws) ↔ FiniteTokens w ∧ FiniteTokens ws := by
  simp only [FiniteTokens, List.mem_append]
  exact ⟨fun h => ⟨fun x hx => h x (.inl hx), fun x hx => h x (.inr hx)⟩,
    fun h x hx => hx.elim (h.1 x) (h.2 x)⟩

@[simp] theorem finiteTokens_cons (t : Token) (w : List Token) :
    FiniteTokens (t :: w) ↔ (∀ x, t = .number x → x.isFinite = true) ∧ FiniteTokens w := by
  simp only [FiniteTokens, List.mem_cons]
  exact ⟨fun h => ⟨fun x hx => h x (.inl hx.symm), fun x hx => h x (.inr hx)⟩,
    fun h x hx => hx.elim (fun heq => h.1 x heq.symm) (h.2 x)⟩

/-- An infinite number has a word for a token. -/
theorem isFinite_of_token_eq {x y : Double} (h : x.token = .number y) : y.isFinite = true := by
  unfold Double.token at h
  split at h
  · rename_i hx
    cases h
    exact hx
  · cases h

example : Double.infinity.token = .identifier "inf" := by
  decide +kernel

theorem finiteTokens_number (x : Double) : FiniteTokens x.tokens := by
  unfold Double.tokens
  split
  · simpa using fun y => isFinite_of_token_eq
  · simpa using fun y => isFinite_of_token_eq

theorem finiteTokens_literal (v : Scalar Double) : FiniteTokens v.tokens := by
  cases v with
  | bool b => cases b <;> simp [Scalar.tokens]
  | number x => exact finiteTokens_number x
  | text s => simp [Scalar.tokens]

theorem finiteTokens_comparison (c : Comparison Double) : FiniteTokens c.tokens := by
  have hop : ∀ x, c.op.token ≠ .number x := by
    intro x
    cases c.op <;> exact nofun
  simp [Comparison.tokens, hop, finiteTokens_literal]

theorem finiteTokens_unsigned (t : Term Double) : FiniteTokens t.unsignedTokens := by
  unfold Term.unsignedTokens
  dsimp only
  split
  · simp
  · simpa using fun y => isFinite_of_token_eq

theorem finiteTokens_joinedTerms (ts : List (Term Double)) :
    FiniteTokens (Term.joinedTokens ts) := by
  induction ts with
  | nil => exact finiteTokens_nil
  | cons t ts ih =>
      unfold Term.joinedTokens
      split <;> simp [finiteTokens_unsigned, ih]

theorem finiteTokens_objective (o : Objective Double) : FiniteTokens o.tokens := by
  unfold Objective.tokens
  split
  · exact finiteTokens_nil
  · split <;> simp [finiteTokens_unsigned, finiteTokens_joinedTerms]

theorem finiteTokens_constraints (cs : List (Comparison Double)) :
    FiniteTokens (Query.constraintTokens cs) := by
  induction cs with
  | nil => exact finiteTokens_nil
  | cons c cs ih =>
      cases cs with
      | nil => exact finiteTokens_comparison c
      | cons c' cs =>
          rw [Query.constraintTokens]
          · simp [finiteTokens_comparison, ih]
          · simp

theorem finiteTokens_parameter (name : String) {value : Option (List Token)}
    (h : ∀ w ∈ value, FiniteTokens w) : FiniteTokens (parameterTokens name value) := by
  cases value with
  | none => exact finiteTokens_nil
  | some w => simp [parameterTokens, h w rfl]

theorem finiteTokens_joinedQueries {separator : List Token} (hs : FiniteTokens separator)
    {qs : List Query} (h : ∀ q ∈ qs, FiniteTokens q.tokens) :
    FiniteTokens (Query.joinedTokens separator qs) := by
  induction qs with
  | nil => exact finiteTokens_nil
  | cons q qs ih =>
      have hq := h q List.mem_cons_self
      cases qs with
      | nil => exact hq
      | cons q' qs =>
          rw [Query.joinedTokens]
          · simp [hq, hs, ih fun p hp => h p (List.mem_cons_of_mem q hp)]
          · simp

/-- A number of results is finite. -/
theorem isFinite_ofDecimal {k : Nat} (hpos : 0 < k) (hlt : k < 2 ^ 53) :
    (Double.ofDecimal k 0).isFinite = true := by
  by_contra hf
  have hinfinity :=
    Double.eq_infinity (Double.nonneg_ofDecimal k 0) (Double.isDefined_ofDecimal k 0)
    (Bool.eq_false_iff.2 hf)
  have hnatural := Double.natural?_ofDecimal hpos hlt
  have hnone : Double.infinity.natural? = none := by decide
  rw [hinfinity, hnone] at hnatural
  exact nomatch hnatural

theorem finiteTokens_canonical {q : Query} (h : q.Printable) : FiniteTokens q.tokens := by
  induction h with
  | lookup name fuzzy _ => cases fuzzy <;> simp [Query.tokens]
  | @relation l r name _ _ _ ihl ihr => cases name <;> simp [Query.tokens, arrowToken, ihl, ihr]
  | not _ ih => simp [Query.tokens, Query.joinedTokens, ih]
  | @logical op qs hop _ _ ih =>
      have hconnective : FiniteTokens [op.token] := by cases op <;> simp [Connective.token]
      have hoperands := finiteTokens_joinedQueries hconnective ih
      cases op with
      | not => exact absurd rfl hop
      | and | or => simpa [Query.tokens] using hoperands
  | comparison _ => exact finiteTokens_comparison _
  | @similar target distance topK targetType _ _ hk ih =>
      have hdistance : FiniteTokens (parameterTokens "distance" (distance.map Double.tokens)) :=
        finiteTokens_parameter _ fun w hw => by
          obtain ⟨d, -, rfl⟩ := Option.map_eq_some_iff.1 hw
          exact finiteTokens_number d
      have htopK : FiniteTokens
          (parameterTokens "top_k" (topK.map fun k => [.number (.ofDecimal k 0)])) :=
        finiteTokens_parameter _ fun w hw => by
          obtain ⟨k, hmem, rfl⟩ := Option.map_eq_some_iff.1 hw
          obtain ⟨hlow, hhigh⟩ := hk k hmem
          rw [finiteTokens_cons]
          refine ⟨?_, finiteTokens_nil⟩
          rintro x ⟨⟩
          exact isFinite_ofDecimal hlow (by omega)
      have htype : FiniteTokens (parameterTokens "type" (targetType.map fun ty => [.string ty])) :=
        finiteTokens_parameter _ fun w hw => by
          obtain ⟨ty, -, rfl⟩ := Option.map_eq_some_iff.1 hw
          simp
      simp [Query.tokens, ih, hdistance, htopK, htype]
  | @analogy a b c targetType _ _ _ _ iha ihb ihc =>
      cases targetType <;> simp [Query.tokens, targetTokens, iha, ihb, ihc]
  | @optimize direction o cs _ _ _ =>
      have hdirection : ∀ x, direction.token ≠ .number x := by
        intro x
        cases direction <;> simp [Direction.token]
      unfold Query.tokens
      split <;> simp [hdirection, finiteTokens_objective, finiteTokens_constraints]

/-! ## The numbers of a phrase -/

section

open Grammar

variable {w : List Token}

theorem finite_of_literal {v : Scalar Double} (hw : Literal w v) (h : FiniteTokens w) :
    ∀ x ∈ v.number?, x.isFinite = true := by
  cases hw with
  | number x =>
      rintro y ⟨⟩
      exact h x (by simp)
  | negative x =>
      rintro y ⟨⟩
      rw [Double.isFinite_neg]
      exact h x (by simp)
  | string | true | false => exact nofun

theorem finite_of_condition {c : Comparison Double} (hw : Condition w c) (h : FiniteTokens w) :
    ∀ x ∈ c.numbers, x.isFinite = true := by
  cases hw with
  | mk field op hv =>
      rw [finiteTokens_cons, finiteTokens_cons] at h
      exact fun x hx => finite_of_literal hv h.2.2 x (Option.mem_toList.1 hx)

theorem finite_of_conditions {cs : List (Comparison Double)} (hw : Conditions w cs)
    (h : FiniteTokens w) : ∀ x ∈ cs.flatMap Comparison.numbers, x.isFinite = true := by
  induction hw with
  | one hc =>
      rw [List.flatMap_singleton]
      exact finite_of_condition hc h
  | cons hc _ ih =>
      rw [finiteTokens_append, finiteTokens_cons] at h
      rw [List.flatMap_cons, List.forall_mem_append]
      exact ⟨finite_of_condition hc h.1, ih h.2.2⟩

theorem finite_of_subjectTo {cs : List (Comparison Double)} (hw : SubjectTo w cs)
    (h : FiniteTokens w) : ∀ x ∈ cs.flatMap Comparison.numbers, x.isFinite = true := by
  cases hw with
  | absent => exact nofun
  | present hcs =>
      simp only [finiteTokens_cons, finiteTokens_append, List.cons_append] at h
      exact finite_of_conditions hcs h.2.2.1

theorem finite_of_weighted {t : Term Double} (hw : Weighted w t) (h : FiniteTokens w) :
    t.weight.isFinite = true := by
  induction hw with
  | before weight field => exact h weight (by simp)
  | after field weight => exact h weight (by simp)
  | bare field =>
      change (1.0 : Double).isFinite = true
      decide
  | negated _ ih => exact (Double.isFinite_neg _).trans (ih ((finiteTokens_cons _ _).1 h).2)

theorem finite_of_joined {ts : List (Term Double)} (hw : Joined w ts) (h : FiniteTokens w) :
    ∀ t ∈ ts, t.weight.isFinite = true := by
  induction hw with
  | nil => exact nofun
  | plus ht _ ih =>
      rw [finiteTokens_append, finiteTokens_cons] at h
      exact List.forall_mem_cons.2 ⟨finite_of_weighted ht h.1.2, ih h.2⟩
  | minus ht _ ih =>
      rw [finiteTokens_append, finiteTokens_cons] at h
      exact List.forall_mem_cons.2
        ⟨(Double.isFinite_neg _).trans (finite_of_weighted ht h.1.2), ih h.2⟩

theorem finite_of_sum {o : Objective Double} (hw : Sum w o) (h : FiniteTokens w) :
    ∀ x ∈ o.terms.map (·.weight), x.isFinite = true := by
  cases hw with
  | mk ht hts =>
      rw [finiteTokens_append] at h
      rw [List.forall_mem_map]
      exact List.forall_mem_cons.2 ⟨finite_of_weighted ht h.1, finite_of_joined hts h.2⟩

theorem finite_of_parameter {s s' : Parser.Similarity} (hw : Parameter w s s')
    (h : FiniteTokens w) (hs : ∀ d ∈ s.distance, d.isFinite = true) :
    ∀ d ∈ s'.distance, d.isFinite = true := by
  cases hw with
  | distance s hv _ _ =>
      rw [finiteTokens_cons, finiteTokens_cons] at h
      rintro d ⟨⟩
      cases hv with
      | literal hv => exact finite_of_literal hv h.2.2 _ rfl
  | topK | type => exact hs

theorem finite_of_parameters {s s' : Parser.Similarity} (hw : Parameters w s s')
    (h : FiniteTokens w) (hs : ∀ d ∈ s.distance, d.isFinite = true) :
    ∀ d ∈ s'.distance, d.isFinite = true := by
  induction hw with
  | nil s => exact hs
  | cons hp _ ih =>
      rw [finiteTokens_append, finiteTokens_cons] at h
      exact ih h.2 (finite_of_parameter hp h.1.2 hs)

theorem finiteTokens_separated {separator : Token} {ws : List (List Token)}
    (h : FiniteTokens (separated separator ws)) : ∀ w ∈ ws, FiniteTokens w := by
  induction ws with
  | nil => exact nofun
  | cons w ws ih =>
      cases ws with
      | nil => simpa [separated] using h
      | cons w' ws =>
          rw [separated, finiteTokens_append, finiteTokens_cons] at h
          · exact List.forall_mem_cons.2 ⟨h.1, ih h.2.2⟩
          · exact List.cons_ne_nil _ _

theorem numbers_joined (op : Connective) (qs : List Query) :
    (joined op qs).numbers = Query.numbersOfAll qs := by
  unfold joined
  split
  · simp [Query.numbersOfAll]
  · rw [Query.numbers]

theorem finite_of_operands {parts : List (List Token × Query)} {separator : Token} (op : Connective)
    (h : FiniteTokens (separated separator (parts.map (·.1))))
    (hparts : ∀ p ∈ parts, FiniteTokens p.1 → ∀ x ∈ p.2.numbers, x.isFinite = true) :
    ∀ x ∈ (joined op (parts.map (·.2))).numbers, x.isFinite = true := by
  intro x hx
  rw [numbers_joined, Query.mem_numbersOfAll] at hx
  obtain ⟨_, hq, hx⟩ := hx
  obtain ⟨p, hp, rfl⟩ := List.mem_map.1 hq
  exact hparts p hp (finiteTokens_separated h _ (List.mem_map_of_mem hp)) x hx

/-- A phrase of finite numbers stands for a query of finite numbers. -/
theorem finite_of_derives {level : Level} {q : Query} (hw : Derives level w q)
    (h : FiniteTokens w) : ∀ x ∈ q.numbers, x.isFinite = true := by
  induction hw with
  | disjunction _ _ ih => exact finite_of_operands .or h ih
  | conjunction _ _ ih => exact finite_of_operands .and h ih
  | not _ ih =>
      rw [finiteTokens_cons] at h
      simpa [Query.numbers, Query.numbersOfAll] using ih h.2
  | plainNegation _ ih | plainRelational _ ih | plainAnalogy _ ih | plainPostfixed _ ih =>
      exact ih h
  | arrow _ _ _ ihl ihr =>
      rw [finiteTokens_append, finiteTokens_cons] at h
      rw [Query.numbers, List.forall_mem_append]
      exact ⟨ihl h.1, ihr h.2.2⟩
  | analogy _ _ _ _ iha ihb ihc =>
      simp only [finiteTokens_append, finiteTokens_cons] at h
      obtain ⟨ha, -, hb, -, hc, -⟩ := h
      rw [Query.numbers, List.forall_mem_append, List.forall_mem_append]
      exact ⟨iha ha, ihb hb, ihc hc⟩
  | narrowed _ hc ih =>
      rw [finiteTokens_append, finiteTokens_cons] at h
      simp only [Query.numbers, Query.numbersOfAll, List.append_nil, List.forall_mem_append]
      exact ⟨ih h.1, finite_of_condition hc h.2.2⟩
  | group _ ih =>
      rw [finiteTokens_cons, finiteTokens_append] at h
      exact ih h.2.1
  | similar _ hps ih =>
      simp only [finiteTokens_append, finiteTokens_cons] at h
      obtain ⟨-, -, ht, hparameters, -⟩ := h
      rw [Query.numbers, List.forall_mem_append]
      exact ⟨ih ht, fun x hx =>
        finite_of_parameters hps hparameters (by simp) x (Option.mem_toList.1 hx)⟩
  | optimize direction ho hcs =>
      simp only [finiteTokens_append, finiteTokens_cons] at h
      obtain ⟨-, -, hsum, -, hconstraints⟩ := h
      rw [Query.numbers, List.forall_mem_append]
      exact ⟨finite_of_sum ho hsum, finite_of_subjectTo hcs hconstraints⟩
  | comparison hc => exact finite_of_condition hc h
  | lookup => simp [Query.numbers]

end

/-! ## Canonical forms -/

/-- **Canonical forms.** The canonical form of a query that was parsed reads back as the query
exactly if every number in the query is finite. -/
theorem parse_canonical_iff {text : String} {q : Query} (h : Query.parse text = .ok q) :
    Query.parse q.canonical = .ok q ↔ ∀ x ∈ q.numbers, x.isFinite = true := by
  have hprintable := printable_of_parse h
  obtain ⟨ts, hts, htokens⟩ := tokenize_canonical hprintable
  constructor
  · intro hparse
    rw [Query.parse, hts] at hparse
    obtain ⟨w, rest, hw, -, hderives⟩ := Parser.derives_of_ofTokens hparse
    have hfinite : FiniteTokens (Parser.tokens ts) := by
      rw [htokens, finiteTokens_append]
      exact ⟨finiteTokens_canonical hprintable, by simp⟩
    rw [hw, finiteTokens_append] at hfinite
    exact finite_of_derives hderives hfinite.1
  · intro hfinite
    have hwell := hprintable.of_numbers fun x hx _ => hfinite x hx
    rw [Query.parse, hts]
    have hderives :=
      derives_disjunction (derives_conjunction (derives_negation (derives_tokens hwell)))
    exact Parser.ofTokens_of_derives hderives htokens rfl

theorem parse_canonical_iff_objective :
    ∃ q, Query.parse "maximize(2.5*coverage - 1e3*cost) subject_to(effort <= 10)" = .ok q ∧
      Query.parse q.canonical = .ok q := by
  have hnumbers : ((Query.parse
      "maximize(2.5*coverage - 1e3*cost) subject_to(effort <= 10)").toOption.map fun q =>
        q.numbers.all Double.isFinite) = some true := by decide +kernel
  cases hparse : Query.parse "maximize(2.5*coverage - 1e3*cost) subject_to(effort <= 10)" with
  | error e =>
      rw [hparse] at hnumbers
      exact nomatch hnumbers
  | ok q =>
      rw [hparse] at hnumbers
      exact ⟨q, rfl, (parse_canonical_iff hparse).2 (List.all_eq_true.1 (Option.some.inj hnumbers))⟩

/-- The canonical form of a query with too large a numeral is refused. -/
theorem canonical_of_infinite_refused :
    ∃ q, Query.parse "year > 1e999" = .ok q ∧ q.canonical = "year > inf" ∧
      Query.parse q.canonical ≠ .ok q := by
  have hcanonical : (Query.parse "year > 1e999").toOption.map Query.canonical =
      some "year > inf" := by decide +kernel
  have hrefused : (Query.parse "year > inf").isOk = false := by decide +kernel
  cases hparse : Query.parse "year > 1e999" with
  | error e =>
      rw [hparse] at hcanonical
      exact nomatch hcanonical
  | ok q =>
      rw [hparse] at hcanonical
      have hform : q.canonical = "year > inf" := Option.some.inj hcanonical
      refine ⟨q, rfl, hform, fun hsame => ?_⟩
      rw [hform] at hsame
      rw [hsame] at hrefused
      exact nomatch hrefused

end VectorQuery
