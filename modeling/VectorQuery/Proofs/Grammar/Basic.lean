/-
# The grammar of queries

`Derives level w q` says that the tokens `w` are a phrase of the given level and that `q` is the
query the phrase stands for.  Nothing here mentions a parser: there is no fuel, no lookahead and no
rest, so the levels can be read off the rules

    disjunction := conjunction (OR conjunction)*
    conjunction := negation (AND negation)*
    negation    := NOT negation | relational
    relational  := relational ("->" | "-[name]->") analogy | analogy
    analogy     := postfixed is_to postfixed as postfixed is_to target | postfixed
    postfixed   := primary "." condition | primary
    primary     := "(" disjunction ")" | similar_to "(" disjunction ("," parameter)* ")"
                 | ("maximize" | "minimize") "(" objective ")" (subject_to "(" conditions ")")?
                 | condition | type "(" name "~"? ")"

one constructor a rule.
-/
import VectorQuery.Query.Parser

namespace VectorQuery

/-- The token of a comparison. -/
def CompareOp.token : CompareOp → Token
  | .lt => .lt
  | .le => .le
  | .gt => .gt
  | .ge => .ge
  | .eq => .eq
  | .ne => .ne

/-- The keyword of a direction as a token. -/
def Direction.token : Direction → Token
  | .maximize => .maximize
  | .minimize => .minimize

namespace Grammar

/-- A number with an optional sign, a string or a truth value. -/
inductive Literal : List Token → Scalar Double → Prop
  | number (x : Double) : Literal [.number x] (.number x)
  | negative (x : Double) : Literal [.minus, .number x] (.number (-x))
  | string (s : String) : Literal [.string s] (.text s)
  | true : Literal [.true] (.bool Bool.true)
  | false : Literal [.false] (.bool Bool.false)

/-- `field cmp literal`. -/
inductive Condition : List Token → Comparison Double → Prop
  | mk (field : String) (op : CompareOp) {w : List Token} {v : Scalar Double} :
      Literal w v → Condition (.identifier field :: op.token :: w) ⟨field, op, v⟩

/-- Conditions with commas between them. -/
inductive Conditions : List Token → List (Comparison Double) → Prop
  | one {w : List Token} {c : Comparison Double} : Condition w c → Conditions w [c]
  | cons {w ws : List Token} {c : Comparison Double} {cs : List (Comparison Double)} :
      Condition w c → Conditions ws cs → Conditions (w ++ .comma :: ws) (c :: cs)

/-- The constraints of an optimization, if there are any. -/
inductive SubjectTo : List Token → List (Comparison Double) → Prop
  | absent : SubjectTo [] []
  | present {w : List Token} {cs : List (Comparison Double)} :
      Conditions w cs → SubjectTo (.subjectTo :: .leftParen :: w ++ [.rightParen]) cs

/-- A field with a weight before or after it, and minus signs in front. -/
inductive Weighted : List Token → Term Double → Prop
  | before (weight : Double) (field : String) :
      Weighted [.number weight, .star, .identifier field] ⟨field, weight⟩
  | after (field : String) (weight : Double) :
      Weighted [.identifier field, .star, .number weight] ⟨field, weight⟩
  | bare (field : String) : Weighted [.identifier field] ⟨field, 1.0⟩
  | negated {w : List Token} {t : Term Double} :
      Weighted w t → Weighted (.minus :: w) { t with weight := -t.weight }

/-- The terms after the first; one that a minus joins has its weight negated. -/
inductive Joined : List Token → List (Term Double) → Prop
  | nil : Joined [] []
  | plus {w ws : List Token} {t : Term Double} {ts : List (Term Double)} :
      Weighted w t → Joined ws ts → Joined (.plus :: w ++ ws) (t :: ts)
  | minus {w ws : List Token} {t : Term Double} {ts : List (Term Double)} :
      Weighted w t → Joined ws ts →
        Joined (.minus :: w ++ ws) ({ t with weight := -t.weight } :: ts)

/-- A sum of terms. -/
inductive Sum : List Token → Objective Double → Prop
  | mk {w ws : List Token} {t : Term Double} {ts : List (Term Double)} :
      Weighted w t → Joined ws ts → Sum (w ++ ws) ⟨t :: ts⟩

/-- The value of a parameter; an identifier stands for a string. -/
inductive ParameterValue : List Token → Scalar Double → Prop
  | name (s : String) : ParameterValue [.identifier s] (.text s)
  | literal {w : List Token} {v : Scalar Double} : Literal w v → ParameterValue w v

/-- `name = value` turns the parameters `s` into `s'`.  A distance lies between 0 and 2, and a
number of results is a whole number between 1 and the greatest of 32 bits. -/
inductive Parameter : List Token → Parser.Similarity → Parser.Similarity → Prop
  | distance {w : List Token} {d : Double} (s : Parser.Similarity) :
      ParameterValue w (.number d) → 0.0 ≤ d → d ≤ 2.0 →
        Parameter (.identifier "distance" :: .assign :: w) s { s with distance := some d }
  | topK {w : List Token} {k : Double} {n : Nat} (s : Parser.Similarity) :
      ParameterValue w (.number k) → k.natural? = some n → 1 ≤ n → n ≤ 2 ^ 32 - 1 →
        Parameter (.identifier "top_k" :: .assign :: w) s { s with topK := some n }
  | type {w : List Token} {t : String} (s : Parser.Similarity) :
      ParameterValue w (.text t) →
        Parameter (.identifier "type" :: .assign :: w) s { s with targetType := some t }

/-- Parameters, each after a comma; of a repeated one the last counts. -/
inductive Parameters : List Token → Parser.Similarity → Parser.Similarity → Prop
  | nil (s : Parser.Similarity) : Parameters [] s s
  | cons {w ws : List Token} {s s' s'' : Parser.Similarity} :
      Parameter w s s' → Parameters ws s' s'' → Parameters (.comma :: w ++ ws) s s''

/-- The type of an analogy's answer: `?`, or `type(?)`. -/
inductive Target : List Token → Option String → Prop
  | open : Target [.question] none
  | typed (name : String) :
      Target [.identifier name, .leftParen, .question, .rightParen] (some name)

/-- The token that names an entity in a lookup. -/
inductive LookupName : Token → String → Prop
  | string (s : String) : LookupName (.string s) s
  | identifier (s : String) : LookupName (.identifier s) s
  | star : LookupName .star "*"

/-- An arrow and the relation it names. -/
inductive Arrow : Token → Option String → Prop
  | any : Arrow .arrow none
  | named (name : String) : Arrow (.namedArrow name) (some name)

/-- The levels of the grammar, loosest joint first. -/
inductive Level where
  | disjunction
  | conjunction
  | negation
  | relational
  | analogy
  | postfixed
  | primary
  deriving DecidableEq, Repr

/-- Phrases with a separator between them. -/
def separated (separator : Token) : List (List Token) → List Token
  | [] => []
  | [w] => w
  | w :: ws => w ++ separator :: separated separator ws

/-- Operands joined by a connective; a single one stands for itself. -/
def joined (op : Connective) : List Query → Query
  | [q] => q
  | qs => .logical op qs

/-- The tokens are a phrase of a level and stand for a query. -/
inductive Derives : Level → List Token → Query → Prop
  | disjunction {parts : List (List Token × Query)} :
      parts ≠ [] → (∀ p ∈ parts, Derives .conjunction p.1 p.2) →
        Derives .disjunction (separated .or (parts.map (·.1))) (joined .or (parts.map (·.2)))
  | conjunction {parts : List (List Token × Query)} :
      parts ≠ [] → (∀ p ∈ parts, Derives .negation p.1 p.2) →
        Derives .conjunction (separated .and (parts.map (·.1))) (joined .and (parts.map (·.2)))
  | not {w : List Token} {q : Query} :
      Derives .negation w q → Derives .negation (.not :: w) (.logical .not [q])
  | plainNegation {w : List Token} {q : Query} :
      Derives .relational w q → Derives .negation w q
  | arrow {w ws : List Token} {t : Token} {name : Option String} {l r : Query} :
      Derives .relational w l → Arrow t name → Derives .analogy ws r →
        Derives .relational (w ++ t :: ws) (.relation l name r)
  | plainRelational {w : List Token} {q : Query} :
      Derives .analogy w q → Derives .relational w q
  | analogy {wa wb wc wt : List Token} {a b c : Query} {target : Option String} :
      Derives .postfixed wa a → Derives .postfixed wb b → Derives .postfixed wc c →
        Target wt target →
          Derives .analogy (wa ++ .isTo :: (wb ++ .as :: (wc ++ .isTo :: wt)))
            (.analogy a b c target)
  | plainAnalogy {w : List Token} {q : Query} : Derives .postfixed w q → Derives .analogy w q
  | narrowed {w ws : List Token} {q : Query} {c : Comparison Double} :
      Derives .primary w q → Condition ws c →
        Derives .postfixed (w ++ .dot :: ws) (.logical .and [q, .comparison c])
  | plainPostfixed {w : List Token} {q : Query} : Derives .primary w q → Derives .postfixed w q
  | group {w : List Token} {q : Query} :
      Derives .disjunction w q → Derives .primary (.leftParen :: (w ++ [.rightParen])) q
  | similar {w ws : List Token} {target : Query} {s : Parser.Similarity} :
      Derives .disjunction w target → Parameters ws ⟨none, none, none⟩ s →
        Derives .primary (.similarTo :: .leftParen :: (w ++ (ws ++ [.rightParen])))
          (.similar target s.distance s.topK s.targetType)
  | optimize (direction : Direction) {w ws : List Token} {o : Objective Double}
      {cs : List (Comparison Double)} :
      Sum w o → SubjectTo ws cs →
        Derives .primary (direction.token :: .leftParen :: (w ++ .rightParen :: ws))
          (.optimize direction o cs)
  | comparison {w : List Token} {c : Comparison Double} :
      Condition w c → Derives .primary w (.comparison c)
  | lookup (entityType : String) {t : Token} {name : String} (fuzzy : Bool) :
      LookupName t name →
        Derives .primary
          (.identifier entityType :: .leftParen :: t ::
            (if fuzzy then [.tilde, .rightParen] else [.rightParen]))
          (.lookup entityType name fuzzy)

end Grammar

end VectorQuery
