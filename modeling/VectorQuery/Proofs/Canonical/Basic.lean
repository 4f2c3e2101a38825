/-
# Well-formed queries and the tokens of the canonical form

`Query.WellFormed ok q`: the names of `q` can be written outside of quotes, its numbers satisfy
`ok` and its operands are as many as its connectives ask for.  `Query.tokens` is the canonical form
as tokens, shape by shape as `Query.chars` writes it.

A number that is not finite has no digits; it is written as a word.
-/
import VectorQuery.Proofs.Grammar.Basic
import VectorQuery.Proofs.Lexer.Spelling

namespace VectorQuery

/-! ## Names -/

/-- The text is written as a word and is no keyword. -/
structure IsIdentifier (s : String) : Prop where
  word : Lexer.IsWord s.toList
  keyword : Token.keyword? s.toList = none

theorem IsIdentifier.ofWord {s : String} (h : IsIdentifier s) :
    Token.ofWord s.toList = .identifier s := by
  rw [Token.ofWord, h.keyword, String.ofList_toList]
  rfl

/-! ## Well-formed queries -/

/-- The field can be written, and a number satisfies `ok`. -/
structure Comparison.WellFormed (ok : Double → Prop) (c : Comparison Double) : Prop where
  field : IsIdentifier c.field
  number : ∀ x, c.value = .number x → ok x

/-- The field can be written, and the weight satisfies `ok`. -/
structure Term.WellFormed (ok : Double → Prop) (t : Term Double) : Prop where
  field : IsIdentifier t.field
  weight : ok t.weight

/-- Names can be written, numbers satisfy `ok` and lie in their ranges, a negation has one operand
and another connective two or more. -/
inductive Query.WellFormed (ok : Double → Prop) : Query → Prop
  | lookup {entityType : String} (name : String) (fuzzy : Bool) :
      IsIdentifier entityType → WellFormed ok (.lookup entityType name fuzzy)
  | relation {l r : Query} {name : Option String} :
      WellFormed ok l → (∀ n ∈ name, Lexer.IsRelation n.toList) → WellFormed ok r →
        WellFormed ok (.relation l name r)
  | not {q : Query} : WellFormed ok q → WellFormed ok (.logical .not [q])
  | logical {op : Connective} {qs : List Query} :
      op ≠ .not → 2 ≤ qs.length → (∀ q ∈ qs, WellFormed ok q) → WellFormed ok (.logical op qs)
  | comparison {c : Comparison Double} : c.WellFormed ok → WellFormed ok (.comparison c)
  | similar {target : Query} {distance : Option Double} {topK : Option Nat}
      (targetType : Option String) :
      WellFormed ok target → (∀ d ∈ distance, ok d ∧ 0.0 ≤ d ∧ d ≤ 2.0) →
        (∀ k ∈ topK, 1 ≤ k ∧ k ≤ 2 ^ 32 - 1) →
          WellFormed ok (.similar target distance topK targetType)
  | analogy {a b c : Query} {targetType : Option String} :
      WellFormed ok a → WellFormed ok b → WellFormed ok c →
        (∀ t ∈ targetType, IsIdentifier t) → WellFormed ok (.analogy a b c targetType)
  | optimize (direction : Direction) {o : Objective Double} {cs : List (Comparison Double)} :
      o.terms ≠ [] → (∀ t ∈ o.terms, t.WellFormed ok) → (∀ c ∈ cs, c.WellFormed ok) →
        WellFormed ok (.optimize direction o cs)

/-! ## The numbers of a query -/

/-- The number that is compared with, if it is one. -/
def Comparison.numbers (c : Comparison Double) : List Double := c.value.number?.toList

namespace Query

mutual

/-- All numbers in a query: those that are compared with, distances and weights. -/
def numbers : Query → List Double
  | .lookup .. => []
  | .relation l _ r => l.numbers ++ r.numbers
  | .logical _ qs => numbersOfAll qs
  | .comparison c => c.numbers
  | .similar t distance _ _ => t.numbers ++ distance.toList
  | .analogy a b c _ => a.numbers ++ (b.numbers ++ c.numbers)
  | .optimize _ o cs => o.terms.map (·.weight) ++ cs.flatMap Comparison.numbers

/-- All numbers in some queries. -/
def numbersOfAll : List Query → List Double
  | [] => []
  | q :: qs => q.numbers ++ numbersOfAll qs

end

theorem mem_numbersOfAll {x : Double} {qs : List Query} :
    x ∈ numbersOfAll qs ↔ ∃ q ∈ qs, x ∈ q.numbers := by
  induction qs with
  | nil => simp [numbersOfAll]
  | cons q qs ih => simp [numbersOfAll, ih]

end Query

theorem Comparison.WellFormed.of_numbers {c : Comparison Double} {ok ok' : Double → Prop}
    (h : c.WellFormed ok) (hok : ∀ x ∈ c.numbers, ok x → ok' x) : c.WellFormed ok' where
  field := h.field
  number x hx := hok x (by rw [Comparison.numbers, hx]; exact List.mem_singleton_self x)
    (h.number x hx)

/-- What is asked of the numbers of a well-formed query may be anything that follows for those there
are. -/
theorem Query.WellFormed.of_numbers {ok ok' : Double → Prop} {q : Query} (h : q.WellFormed ok)
    (hok : ∀ x ∈ q.numbers, ok x → ok' x) : q.WellFormed ok' := by
  induction h with
  | lookup name fuzzy ht => exact .lookup name fuzzy ht
  | relation _ hn _ ihl ihr =>
      rw [Query.numbers, List.forall_mem_append] at hok
      exact .relation (ihl hok.1) hn (ihr hok.2)
  | not _ ih => exact .not (ih fun x hx => hok x (Query.mem_numbersOfAll.2 ⟨_, by simp, hx⟩))
  | logical hop hlen _ ih =>
      exact .logical hop hlen fun q hq =>
        ih q hq fun x hx => hok x (Query.mem_numbersOfAll.2 ⟨q, hq, hx⟩)
  | comparison hc => exact .comparison (hc.of_numbers hok)
  | similar targetType _ hd hk ih =>
      rw [Query.numbers, List.forall_mem_append] at hok
      refine .similar targetType (ih hok.1) (fun d hmem => ?_) hk
      exact (hd d hmem).imp_left (hok.2 d (Option.mem_toList.2 hmem))
  | analogy _ _ _ ht iha ihb ihc =>
      rw [Query.numbers, List.forall_mem_append, List.forall_mem_append] at hok
      exact .analogy (iha hok.1) (ihb hok.2.1) (ihc hok.2.2) ht
  | optimize direction ho hts hcs =>
      rw [Query.numbers, List.forall_mem_append] at hok
      exact .optimize direction ho
        (fun t ht => ⟨(hts t ht).field, hok.1 _ (List.mem_map_of_mem ht) (hts t ht).weight⟩)
        fun c hc => (hcs c hc).of_numbers fun x hx => hok.2 x (List.mem_flatMap.2 ⟨c, hc, hx⟩)

/-! ## Tokens -/

/-- The token of a number without a sign. -/
def Double.token (x : Double) : Token := if x.isFinite then .number x else .identifier "inf"

/-- The tokens of a number. -/
def Double.tokens (x : Double) : List Token :=
  if x.isNegative then [.minus, (-x).token] else [x.token]

theorem Double.token_of_isFinite {x : Double} (h : x.isFinite = true) : x.token = .number x :=
  if_pos h

theorem Double.tokens_of_nonneg {x : Double} (h : x.Nonneg) : x.tokens = [x.token] := by
  rw [Double.tokens, Double.isNegative_of_nonneg h]
  rfl

theorem Double.tokens_neg {x : Double} (h : x.Nonneg) : (-x).tokens = [.minus, x.token] := by
  rw [Double.tokens, Double.isNegative_neg h, Double.neg_neg]
  rfl

/-- The tokens of a literal. -/
def Scalar.tokens : Scalar Double → List Token
  | .bool true => [.true]
  | .bool false => [.false]
  | .number x => x.tokens
  | .text s => [.string s]

/-- The tokens of a comparison. -/
def Comparison.tokens (c : Comparison Double) : List Token :=
  .identifier c.field :: c.op.token :: c.value.tokens

/-- The tokens of a term without its sign. -/
def Term.unsignedTokens (t : Term Double) : List Token :=
  let w := Quantity.magnitude t.weight
  if w = Quantity.one then [.identifier t.field] else [w.token, .star, .identifier t.field]

/-- The tokens of the terms after the first. -/
def Term.joinedTokens : List (Term Double) → List Token
  | [] => []
  | t :: ts => (if t.weight.isNegative then .minus else .plus) :: t.unsignedTokens ++ joinedTokens ts

/-- The tokens of an objective. -/
def Objective.tokens (o : Objective Double) : List Token :=
  match o.terms with
  | [] => []
  | t :: ts =>
    (if t.weight.isNegative then [.minus] else []) ++ t.unsignedTokens ++ Term.joinedTokens ts

/-- The token of an arrow. -/
def arrowToken : Option String → Token
  | none => .arrow
  | some name => .namedArrow name

/-- The token of a connective. -/
def Connective.token : Connective → Token
  | .and => .and
  | .or => .or
  | .not => .not

/-- A parameter of a similarity search, if it is given. -/
def parameterTokens (name : String) (value : Option (List Token)) : List Token :=
  (value.map fun w => .comma :: .identifier name :: .assign :: w).getD []

/-- The tokens of an analogy's target. -/
def targetTokens : Option String → List Token
  | none => [.question]
  | some name => [.identifier name, .leftParen, .question, .rightParen]

namespace Query

/-- The tokens of constraints. -/
def constraintTokens : List (Comparison Double) → List Token
  | [] => []
  | [c] => c.tokens
  | c :: cs => c.tokens ++ .comma :: constraintTokens cs

mutual

/-- The tokens of the canonical form. -/
def tokens : Query → List Token
  | .lookup t name fuzzy =>
    .identifier t :: .leftParen :: .string name :: (if fuzzy then [.tilde, .rightParen] else [.rightParen])
  | .relation l name r => .leftParen :: (l.tokens ++ arrowToken name :: (r.tokens ++ [.rightParen]))
  | .logical .not qs => .leftParen :: .not :: (joinedTokens [] qs ++ [.rightParen])
  | .logical op qs => .leftParen :: (joinedTokens [op.token] qs ++ [.rightParen])
  | .comparison c => c.tokens
  | .similar t d k ty =>
    .similarTo :: .leftParen :: (t.tokens ++ (parameterTokens "distance" (d.map Double.tokens)
      ++ (parameterTokens "top_k" (k.map fun k => [.number (.ofDecimal k 0)])
        ++ (parameterTokens "type" (ty.map fun ty => [.string ty]) ++ [.rightParen]))))
  | .analogy a b c ty =>
    .leftParen :: (a.tokens ++ .isTo :: (b.tokens ++ .as :: (c.tokens
      ++ .isTo :: (targetTokens ty ++ [.rightParen]))))
  | .optimize dir o cs =>
    dir.token :: .leftParen :: (o.tokens ++ .rightParen ::
      (if cs.isEmpty then [] else .subjectTo :: .leftParen :: (constraintTokens cs ++ [.rightParen])))

/-- The tokens of canonical forms with a separator between them. -/
def joinedTokens (separator : List Token) : List Query → List Token
  | [] => []
  | [q] => q.tokens
  | q :: qs => q.tokens ++ separator ++ joinedTokens separator qs

end

end Query

end VectorQuery
