/-
# From tokens to queries

The grammar, loosest joint first:

    or      := and (OR and)*
    and     := not (AND not)*
    not     := NOT not | rel
    rel     := analogy (("->" | "-[name]->") analogy)*
    analogy := postfix (is_to postfix as postfix is_to target)?
    postfix := primary ("." field cmp literal)?
    primary := "(" or ")" | similar_to(…) | maximize(…) | minimize(…)
             | field cmp literal | type "(" name "~"? ")"

Each level is a function of the parser for nested queries, so the levels need no mutual recursion:
only `Parser.query` recurses, on the depth of nesting.
-/
import VectorQuery.Query.Basic
import VectorQuery.Query.Tokens

namespace VectorQuery

/-- Reads something off the front of a list of tokens. -/
abbrev Parser (α : Type) := List Spanned → Except ParseError (α × List Spanned)

namespace Parser

/-- The next token; past the last one it is the end of the query. -/
def peek : List Spanned → Token
  | [] => .endOfQuery
  | t :: _ => t.token

/-- Where the next token starts. -/
def here : List Spanned → Position
  | [] => .start
  | t :: _ => t.position

/-- Labels in ascending order, each once. -/
def sortLabels (labels : List String) : List String :=
  (labels.mergeSort fun a b => !(b < a)).eraseReps

/-- The next token is none of those expected. -/
def unexpected (expected : List String) (ts : List Spanned) : ParseError :=
  match peek ts with
  | .endOfQuery => .unexpectedEnd (sortLabels expected) (here ts)
  | t => .unexpectedToken t.shown (sortLabels expected) (here ts)

/-- The next token is `t`; answers where it stands. -/
def expect (t : Token) (label : String) : Parser Position := fun ts =>
  if peek ts = t then .ok (here ts, ts.tail) else .error (unexpected [label] ts)

/-- The next token is an identifier; answers it. -/
def identifier (label : String) : Parser String := fun ts =>
  match peek ts with
  | .identifier name => .ok (name, ts.tail)
  | _ => .error (unexpected [label] ts)

/-- Closes a parenthesis opened at `opened`; a missing one is reported where it was opened. -/
def closeParen (opened : Position) (expected : List String) : Parser Unit := fun ts =>
  match peek ts with
  | .rightParen => .ok ((), ts.tail)
  | .endOfQuery => .error (.unmatchedParen opened)
  | _ => .error (unexpected (expected ++ ["`)`"]) ts)

/-- A number with an optional sign, a string or a truth value. -/
def literal : Parser (Scalar Double) := fun ts =>
  if peek ts = .minus then
    match peek ts.tail with
    | .number x => .ok (.number (-x), ts.tail.tail)
    | _ => .error (unexpected ["number"] ts.tail)
  else
    match peek ts with
    | .number x => .ok (.number x, ts.tail)
    | .string s => .ok (.text s, ts.tail)
    | .true => .ok (.bool true, ts.tail)
    | .false => .ok (.bool false, ts.tail)
    | _ => .error (unexpected ["number", "string", "`true`", "`false`"] ts)

/-- The comparison that a token writes. -/
def compareOp? : Token → Option CompareOp
  | .lt => some .lt
  | .le => some .le
  | .gt => some .gt
  | .ge => some .ge
  | .eq => some .eq
  | .ne => some .ne
  | _ => none

/-- The operator and the literal of a comparison of `field`. -/
def comparisonOf (field : String) : Parser (Comparison Double) := fun ts =>
  match compareOp? (peek ts) with
  | none => .error (unexpected ["comparison operator"] ts)
  | some op => do
    let (value, ts) ← literal ts.tail
    .ok (⟨field, op, value⟩, ts)

/-! ### Lookups -/

/-- The name inside `type(…)`, from the token after the parenthesis.  Anything but a name, `*` or a
malformed argument makes `type` a function that the language does not have. -/
def lookupName (entityType : String) (position opened : Position) : Parser String := fun ts =>
  match peek ts with
  | .string s => .ok (s, ts.tail)
  | .identifier s => .ok (s, ts.tail)
  | .star => .ok ("*", ts.tail)
  | .endOfQuery => .error (.unmatchedParen opened)
  | .rightParen | .comma | .number _ | .tilde | .question =>
    .error (unexpected ["string", "identifier", "`*`"] ts)
  | _ => .error (.unknownFunction entityType position)

/-- The end of `type(name)` or `type(name~)`. -/
def lookupEnd (entityType : String) (position opened : Position) (fuzzy : Bool) : Parser Unit :=
  fun ts =>
    match peek ts with
    | .rightParen => .ok ((), ts.tail)
    | .endOfQuery => .error (.unmatchedParen opened)
    | .string _ | .identifier _ | .number _ | .star | .question | .tilde =>
      .error (unexpected (if fuzzy then ["`)`"] else ["`)`", "`~`"]) ts)
    | _ => .error (.unknownFunction entityType position)

/-- `type(name)`; `ts` starts at the parenthesis. -/
def lookup (entityType : String) (position : Position) : Parser Query := fun ts => do
  let opened := here ts
  let (name, ts) ← lookupName entityType position opened ts.tail
  let fuzzy := peek ts = .tilde
  let ts := if fuzzy then ts.tail else ts
  let ((), ts) ← lookupEnd entityType position opened fuzzy ts
  .ok (.lookup entityType name fuzzy, ts)

/-! ### Optimizations -/

/-- A term of an objective: a field, with a weight before or after it, and minus signs in front. -/
def term : Parser (Term Double)
  | [] => .error (unexpected ["field name", "number", "`-`"] [])
  | t :: ts =>
    match t.token with
    | .minus => do
      let (inner, ts) ← term ts
      .ok ({ inner with weight := -inner.weight }, ts)
    | .number weight => do
      let (_, ts) ← expect .star "`*`" ts
      let (field, ts) ← identifier "field name" ts
      .ok (⟨field, weight⟩, ts)
    | .identifier field =>
      if peek ts = .star then
        match peek ts.tail with
        | .number weight => .ok (⟨field, weight⟩, ts.tail.tail)
        | _ => .error (unexpected ["number"] ts.tail)
      else .ok (⟨field, 1.0⟩, ts)
    | _ => .error (unexpected ["field name", "number", "`-`"] (t :: ts))

/-- The sign that joins a term to those before it: a minus turns the weight's sign. -/
def joiningSign? : Token → Option (Double → Double)
  | .plus => some id
  | .minus => some (-·)
  | _ => none

/-- The terms after the first; `fuel` bounds their number. -/
def moreTerms : Nat → Parser (List (Term Double))
  | 0, ts => .ok ([], ts)
  | fuel + 1, ts =>
    match joiningSign? (peek ts) with
    | none => .ok ([], ts)
    | some sign => do
      let (t, ts) ← term ts.tail
      let (more, ts) ← moreTerms fuel ts
      .ok ({ t with weight := sign t.weight } :: more, ts)

/-- A sum of terms. -/
def objective : Parser (Objective Double) := fun ts => do
  let (first, ts) ← term ts
  let (more, ts) ← moreTerms ts.length ts
  .ok (⟨first :: more⟩, ts)

/-- Constraints separated by commas, at least one; `fuel` bounds the number of commas. -/
def constraints : Nat → Parser (List (Comparison Double))
  | fuel, ts => do
    let (field, ts) ← identifier "constraint field" ts
    let (c, ts) ← comparisonOf field ts
    match fuel with
    | 0 => .ok ([c], ts)
    | fuel + 1 =>
      if peek ts = .comma then
        let (more, ts) ← constraints fuel ts.tail
        .ok (c :: more, ts)
      else .ok ([c], ts)

/-- `subject_to(…)`, if it comes next. -/
def subjectTo : Parser (List (Comparison Double)) := fun ts =>
  if peek ts = .subjectTo then do
    let (opened, ts) ← expect .leftParen "`(`" ts.tail
    let (cs, ts) ← constraints ts.length ts
    let ((), ts) ← closeParen opened ["`,`"] ts
    .ok (cs, ts)
  else .ok ([], ts)

/-- An optimization; `ts` starts after its keyword. -/
def optimization (direction : Direction) : Parser Query := fun ts => do
  let (opened, ts) ← expect .leftParen "`(`" ts
  let (o, ts) ← objective ts
  let ((), ts) ← closeParen opened ["`+`", "`-`", "`*`"] ts
  let (cs, ts) ← subjectTo ts
  .ok (.optimize direction o cs, ts)

/-! ### Similarity searches -/

/-- The parameters of a similarity search given so far. -/
structure Similarity where
  distance : Option Double
  topK : Option Nat
  targetType : Option String

/-- The greatest number of results that a query may ask for. -/
def topKLimit : Nat := 2 ^ 32 - 1

/-- The value of a parameter; a bare identifier stands for a string. -/
def parameterValue : Parser (Scalar Double) := fun ts =>
  match peek ts with
  | .identifier name => .ok (.text name, ts.tail)
  | _ => literal ts

/-- Sets a parameter, or says why its value is not accepted. -/
def Similarity.set (s : Similarity) (name : String) (value : Scalar Double) :
    Except String Similarity :=
  match name, value with
  | "distance", .number d =>
    if 0.0 ≤ d && d ≤ 2.0 then .ok { s with distance := some d }
    else .error "cosine distance must lie in [0, 2]"
  | "top_k", .number k =>
    match Double.natural? k with
    | some n =>
      if 1 ≤ n ∧ n ≤ topKLimit then .ok { s with topK := some n }
      else .error "expected a positive integer"
    | none => .error "expected a positive integer"
  | "type", .text t => .ok { s with targetType := some t }
  | "distance", _ => .error "expected a number"
  | "top_k", _ => .error "expected a number"
  | _, _ => .error "expected an entity type name"

/-- One parameter of a similarity search. -/
def parameter (s : Similarity) : Parser Similarity := fun ts => do
  let position := here ts
  let (name, ts) ← identifier "parameter name" ts
  if name ∈ ["distance", "top_k", "type"] then
    let (_, ts) ← expect .assign "`=`" ts
    let valuePosition := here ts
    let (value, ts) ← parameterValue ts
    match s.set name value with
    | .ok s => .ok (s, ts)
    | .error reason => .error (.invalidParameter name reason valuePosition)
  else .error (.unknownParameter name "similar_to" position)

/-- The parameters after the target; `fuel` bounds their number. -/
def parameters : Nat → Similarity → Parser Similarity
  | 0, s, ts => .ok (s, ts)
  | fuel + 1, s, ts =>
    if peek ts = .comma then do
      let (s, ts) ← parameter s ts.tail
      parameters fuel s ts
    else .ok (s, ts)

/-- A similarity search; `ts` starts after its keyword. -/
def similarity (nested : Parser Query) : Parser Query := fun ts => do
  let (opened, ts) ← expect .leftParen "`(`" ts
  let (target, ts) ← nested ts
  let (s, ts) ← parameters ts.length ⟨none, none, none⟩ ts
  let ((), ts) ← closeParen opened ["`,`"] ts
  .ok (.similar target s.distance s.topK s.targetType, ts)

/-! ### The levels of the grammar -/

/-- What stands on its own. -/
def primary (nested : Parser Query) : Parser Query := fun ts =>
  match peek ts with
  | .leftParen => do
    let (q, rest) ← nested ts.tail
    let ((), rest) ← closeParen (here ts) ["`AND`", "`OR`", "`->`", "`is_to`"] rest
    .ok (q, rest)
  | .similarTo => similarity nested ts.tail
  | .maximize => optimization .maximize ts.tail
  | .minimize => optimization .minimize ts.tail
  | .identifier name =>
    if (peek ts.tail).isComparison then do
      let (c, rest) ← comparisonOf name ts.tail
      .ok (.comparison c, rest)
    else if peek ts.tail = .leftParen then lookup name (here ts) ts.tail
    else .error (unexpected ["`(`", "comparison operator"] ts.tail)
  | _ =>
    .error (unexpected
      ["`(`", "`NOT`", "`similar_to`", "`maximize`", "`minimize`", "entity lookup",
        "comparison"] ts)

/-- A primary query, narrowed by at most one condition on a field. -/
def postfixed (nested : Parser Query) : Parser Query := fun ts => do
  let (q, ts) ← primary nested ts
  if peek ts = .dot then
    let (field, ts) ← identifier "field name" ts.tail
    let (c, ts) ← comparisonOf field ts
    .ok (.logical .and [q, .comparison c], ts)
  else .ok (q, ts)

/-- The target of an analogy: `?`, or `type(?)`. -/
def analogyTarget : Parser (Option String) := fun ts =>
  match peek ts with
  | .question => .ok (none, ts.tail)
  | .identifier name => do
    let (opened, ts) ← expect .leftParen "`(`" ts.tail
    let (_, ts) ← expect .question "`?`" ts
    let ((), ts) ← closeParen opened [] ts
    .ok (some name, ts)
  | _ => .error (unexpected ["`?`", "entity type"] ts)

/-- An analogy, or what it is made of. -/
def analogy (nested : Parser Query) : Parser Query := fun ts => do
  let (a, ts) ← postfixed nested ts
  if peek ts = .isTo then
    let (b, ts) ← postfixed nested ts.tail
    let (_, ts) ← expect .as "`as`" ts
    let (c, ts) ← postfixed nested ts
    let (_, ts) ← expect .isTo "`is_to`" ts
    let (target, ts) ← analogyTarget ts
    .ok (.analogy a b c target, ts)
  else .ok (a, ts)

/-- The relation that an arrow names, if the token is an arrow. -/
def arrow? : Token → Option (Option String)
  | .arrow => some none
  | .namedArrow name => some (some name)
  | _ => none

/-- Further arrows from `left`; they associate to the left.  `fuel` bounds their number. -/
def arrows (nested : Parser Query) : Nat → Query → Parser Query
  | 0, left, ts => .ok (left, ts)
  | fuel + 1, left, ts =>
    match arrow? (peek ts) with
    | none => .ok (left, ts)
    | some name => do
      let (right, ts) ← analogy nested ts.tail
      arrows nested fuel (.relation left name right) ts

/-- Analogies joined by arrows. -/
def relational (nested : Parser Query) : Parser Query := fun ts => do
  let (left, ts) ← analogy nested ts
  arrows nested ts.length left ts

/-- Negations in front of a relational query. -/
def negation (nested : Parser Query) : Parser Query
  | [] => relational nested []
  | t :: ts =>
    if t.token = .not then do
      let (q, ts) ← negation nested ts
      .ok (.logical .not [q], ts)
    else relational nested (t :: ts)

/-- Further operands after a separator; `fuel` bounds their number. -/
def operands (separator : Token) (operand : Parser Query) : Nat → Parser (List Query)
  | 0, ts => .ok ([], ts)
  | fuel + 1, ts =>
    if peek ts = separator then do
      let (q, ts) ← operand ts.tail
      let (qs, ts) ← operands separator operand fuel ts
      .ok (q :: qs, ts)
    else .ok ([], ts)

/-- Operands joined by a connective; a single one stands for itself. -/
def joined (op : Connective) (separator : Token) (operand : Parser Query) : Parser Query :=
  fun ts => do
    let (first, ts) ← operand ts
    let (more, ts) ← operands separator operand ts.length ts
    .ok (if more.isEmpty then first else .logical op (first :: more), ts)

/-- A conjunction of negations. -/
def conjunction (nested : Parser Query) : Parser Query := joined .and .and (negation nested)

/-- A disjunction of conjunctions. -/
def disjunction (nested : Parser Query) : Parser Query := joined .or .or (conjunction nested)

/-- A query nested at most `depth` deep.  A nested query starts after a parenthesis, so the number
of tokens is depth enough. -/
def query : Nat → Parser Query
  | 0, ts => .error (unexpected ["end of query"] ts)
  | depth + 1, ts => disjunction (query depth) ts

/-- No token is left but the end of the query. -/
def expectEnd (ts : List Spanned) : Except ParseError Unit :=
  match peek ts with
  | .endOfQuery => .ok ()
  | .rightParen => .error (.unmatchedParen (here ts))
  | _ => .error (unexpected ["`AND`", "`OR`", "`->`", "`is_to`", "`.`", "end of query"] ts)

/-- The query that a list of tokens is. -/
def ofTokens (ts : List Spanned) : Except ParseError Query := do
  let (q, rest) ← query ts.length ts
  expectEnd rest
  .ok q

end Parser

/-- The query that a text is. -/
def Query.parse (text : String) : Except ParseError Query := do
  let tokens ← tokenize text
  Parser.ofTokens tokens

/-- Two queries are the same; numbers are compared by value. -/
def Query.same (a b : Query) : Bool := a == b

end VectorQuery
