/-
# Where errors show

The parser keeps positions of tokens that it has passed: an unmatched parenthesis shows where it was
opened, a function that does not exist where its name stands.  Started on tokens that stand in the
text, a reader leaves such tokens and fails with errors that the text bears out (`Points`), so the
error of a text that is no query shows at the right place (`positions_right`).
-/
import VectorQuery.Proofs.Failure
import VectorQuery.Proofs.Lexer.Positions

namespace VectorQuery.Parser

open ParseError (Fits)

section

variable {text : List Char} {ts : List Spanned}

/-- The place is one in the text that has an opening parenthesis. -/
structure Opens (text : List Char) (p : Position) : Prop where
  isIn : p.IsIn text
  paren : text[p.offset]? = some '('

/-- The token stands in the text, a parenthesis where the text has one. -/
structure Stands (text : List Char) (t : Spanned) : Prop where
  isIn : t.position.IsIn text
  left : t.token = .leftParen → text[t.position.offset]? = some '('
  right : t.token = .rightParen → text[t.position.offset]? = some ')'

/-- Tokens of the text. -/
def Stand (text : List Char) (ts : List Spanned) : Prop := ∀ t ∈ ts, Stands text t

theorem Stand.tail (h : Stand text ts) : Stand text ts.tail :=
  fun t ht => h t (List.mem_of_mem_tail ht)

theorem Stand.here (h : Stand text ts) : (here ts).IsIn text := by
  cases ts with
  | nil => exact Position.isIn_start text
  | cons t ts => exact (h t List.mem_cons_self).isIn

theorem Stand.opens (h : Stand text ts) (hpeek : peek ts = .leftParen) :
    Opens text (Parser.here ts) := by
  cases ts with
  | nil => cases hpeek
  | cons t ts =>
      have ht := h t List.mem_cons_self
      exact ⟨ht.isIn, ht.left hpeek⟩

theorem Stand.closes (h : Stand text ts) (hpeek : peek ts = .rightParen) :
    text[(Parser.here ts).offset]? = some ')' := by
  cases ts with
  | nil => cases hpeek
  | cons t ts => exact (h t List.mem_cons_self).right hpeek

/-- Started on tokens of the text, the reader leaves such tokens or points at a place that bears its
error out. -/
def Points {α : Type} (text : List Char) (p : Parser α) : Prop :=
  ∀ ⦃ts : List Spanned⦄, Stand text ts → Ends (Fits text) (fun r => Stand text r.2) (p ts)

/-! ## Single tokens -/

theorem fits_unexpected (h : Stand text ts) (expected : List String) :
    (unexpected expected ts).Fits text := by
  unfold unexpected
  split
  · exact ⟨h.here, trivial⟩
  · exact ⟨h.here, trivial⟩

theorem Opens.fits {p : Position} (h : Opens text p) : (ParseError.unmatchedParen p).Fits text :=
  ⟨h.isIn, .inl h.paren⟩

theorem points_expect (t : Token) (label : String) : Points text (expect t label) := by
  intro ts hts
  unfold expect
  split
  · exact hts.tail
  · exact fits_unexpected hts _

/-- The answer is where the parenthesis was opened. -/
theorem opens_expect (hts : Stand text ts) (label : String) :
    Ends (Fits text) (fun r => Opens text r.1 ∧ Stand text r.2) (expect .leftParen label ts) := by
  unfold expect
  split
  · exact ⟨hts.opens ‹_›, hts.tail⟩
  · exact fits_unexpected hts _

theorem points_identifier (label : String) : Points text (identifier label) := by
  intro ts hts
  unfold identifier
  split
  · exact hts.tail
  · exact fits_unexpected hts _

theorem points_closeParen {opened : Position} (h : Opens text opened) (expected : List String) :
    Points text (closeParen opened expected) := by
  intro ts hts
  unfold closeParen
  split
  · exact hts.tail
  · exact h.fits
  · exact fits_unexpected hts _

/-! ## Conditions -/

theorem points_literal : Points text literal := by
  intro ts hts
  unfold literal
  split
  · split
    · exact hts.tail.tail
    · exact fits_unexpected hts.tail _
  · split
    iterate 4 exact hts.tail
    exact fits_unexpected hts _

theorem points_comparisonOf (field : String) : Points text (comparisonOf field) := by
  intro ts hts
  unfold comparisonOf
  split
  · exact fits_unexpected hts _
  · exact (points_literal hts.tail).bind fun _ hus => hus

theorem points_constraints (fuel : Nat) : Points text (constraints fuel) := by
  induction fuel with
  | zero =>
      intro ts hts
      rw [constraints]
      refine (points_identifier _ hts).bind ?_
      rintro ⟨field, us⟩ hus
      exact (points_comparisonOf field hus).bind fun _ hvs => hvs
  | succ fuel ih =>
      intro ts hts
      rw [constraints]
      refine (points_identifier _ hts).bind ?_
      rintro ⟨field, us⟩ hus
      refine (points_comparisonOf field hus).bind ?_
      rintro ⟨c, vs⟩ hvs
      dsimp only
      split
      · exact (ih hvs.tail).bind fun _ hxs => hxs
      · exact hvs

/-! ## Optimizations -/

theorem points_term : Points text term := by
  intro ts hts
  induction ts with
  | nil => exact fits_unexpected hts _
  | cons t ts ih =>
      rw [term]
      split
      · exact (ih hts.tail).bind fun _ hus => hus
      · refine (points_expect .star _ hts.tail).bind ?_
        rintro ⟨_, us⟩ hus
        exact (points_identifier _ hus).bind fun _ hvs => hvs
      · split
        · split
          · exact hts.tail.tail.tail
          · exact fits_unexpected hts.tail.tail _
        · exact hts.tail
      · exact fits_unexpected hts _

theorem points_moreTerms (fuel : Nat) : Points text (moreTerms fuel) := by
  induction fuel with
  | zero => exact fun ts hts => hts
  | succ fuel ih =>
      intro ts hts
      rw [moreTerms]
      split
      · exact hts
      · refine (points_term hts.tail).bind ?_
        rintro ⟨_, us⟩ hus
        exact (ih hus).bind fun _ hvs => hvs

theorem points_objective : Points text objective := by
  intro ts hts
  unfold objective
  refine (points_term hts).bind ?_
  rintro ⟨_, us⟩ hus
  exact (points_moreTerms _ hus).bind fun _ hvs => hvs

theorem points_subjectTo : Points text subjectTo := by
  intro ts hts
  unfold subjectTo
  split
  · refine (opens_expect hts.tail _).bind ?_
    rintro ⟨opened, us⟩ ⟨hopened, hus⟩
    refine (points_constraints _ hus).bind ?_
    rintro ⟨_, vs⟩ hvs
    exact (points_closeParen hopened _ hvs).bind fun _ hxs => hxs
  · exact hts

theorem points_optimization (direction : Direction) : Points text (optimization direction) := by
  intro ts hts
  unfold optimization
  refine (opens_expect hts _).bind ?_
  rintro ⟨opened, us⟩ ⟨hopened, hus⟩
  refine (points_objective hus).bind ?_
  rintro ⟨_, vs⟩ hvs
  refine (points_closeParen hopened _ hvs).bind ?_
  rintro ⟨_, xs⟩ hxs
  exact (points_subjectTo hxs).bind fun _ hys => hys

/-! ## Similarity searches and lookups -/

theorem points_parameterValue : Points text parameterValue := by
  intro ts hts
  unfold parameterValue
  split
  · exact hts.tail
  · exact points_literal hts

theorem points_parameter (s : Similarity) : Points text (parameter s) := by
  intro ts hts
  unfold parameter
  refine (points_identifier _ hts).bind ?_
  rintro ⟨name, us⟩ hus
  dsimp only
  split
  · refine (points_expect .assign _ hus).bind ?_
    rintro ⟨_, vs⟩ hvs
    refine (points_parameterValue hvs).bind ?_
    rintro ⟨value, xs⟩ hxs
    dsimp only
    split
    · exact hxs
    · exact ⟨hvs.here, trivial⟩
  · exact ⟨hts.here, trivial⟩

theorem points_parameters (fuel : Nat) (s : Similarity) : Points text (parameters fuel s) := by
  induction fuel generalizing s with
  | zero => exact fun ts hts => hts
  | succ fuel ih =>
      intro ts hts
      rw [parameters]
      split
      · exact (points_parameter s hts.tail).bind fun r hr => ih r.1 hr
      · exact hts

theorem points_similarity {nested : Parser Query} (hn : Points text nested) :
    Points text (similarity nested) := by
  intro ts hts
  unfold similarity
  refine (opens_expect hts _).bind ?_
  rintro ⟨opened, us⟩ ⟨hopened, hus⟩
  refine (hn hus).bind ?_
  rintro ⟨_, vs⟩ hvs
  refine (points_parameters _ _ hvs).bind ?_
  rintro ⟨_, xs⟩ hxs
  exact (points_closeParen hopened _ hxs).bind fun _ hys => hys

theorem points_lookupName (entityType : String) {position opened : Position}
    (hposition : position.IsIn text) (hopened : Opens text opened) :
    Points text (lookupName entityType position opened) := by
  intro ts hts
  unfold lookupName
  split
  iterate 3 exact hts.tail
  · exact hopened.fits
  iterate 5 exact fits_unexpected hts _
  · exact ⟨hposition, trivial⟩

theorem points_lookupEnd (entityType : String) {position opened : Position}
    (hposition : position.IsIn text) (hopened : Opens text opened) (fuzzy : Bool) :
    Points text (lookupEnd entityType position opened fuzzy) := by
  intro ts hts
  unfold lookupEnd
  split
  · exact hts.tail
  · exact hopened.fits
  iterate 6 exact fits_unexpected hts _
  · exact ⟨hposition, trivial⟩

theorem points_lookup (entityType : String) {position : Position} (hposition : position.IsIn text)
    (hts : Stand text ts) (hpeek : peek ts = .leftParen) :
    Ends (Fits text) (fun r => Stand text r.2) (lookup entityType position ts) := by
  have hopened := hts.opens hpeek
  unfold lookup
  refine (points_lookupName entityType hposition hopened hts.tail).bind ?_
  rintro ⟨_, us⟩ hus
  have hvs : Stand text (if peek us = .tilde then us.tail else us) := by
    split
    · exact hus.tail
    · exact hus
  exact (points_lookupEnd entityType hposition hopened _ hvs).bind fun _ hxs => hxs

/-! ## The levels -/

section

variable {nested : Parser Query} (hn : Points text nested)
include hn

theorem points_primary : Points text (primary nested) := by
  intro ts hts
  unfold primary
  split
  · have hopened := hts.opens ‹_›
    refine (hn hts.tail).bind ?_
    rintro ⟨_, us⟩ hus
    exact (points_closeParen hopened _ hus).bind fun _ hvs => hvs
  · exact points_similarity hn hts.tail
  · exact points_optimization _ hts.tail
  · exact points_optimization _ hts.tail
  · rename_i name _
    split
    · exact (points_comparisonOf name hts.tail).bind fun _ hus => hus
    split
    · exact points_lookup name hts.here hts.tail ‹_›
    · exact fits_unexpected hts.tail _
  · exact fits_unexpected hts _

theorem points_postfixed : Points text (postfixed nested) := by
  intro ts hts
  unfold postfixed
  refine (points_primary hn hts).bind ?_
  rintro ⟨_, us⟩ hus
  dsimp only
  split
  · refine (points_identifier _ hus.tail).bind ?_
    rintro ⟨field, vs⟩ hvs
    exact (points_comparisonOf field hvs).bind fun _ hxs => hxs
  · exact hus

omit hn in
theorem points_analogyTarget : Points text analogyTarget := by
  intro ts hts
  unfold analogyTarget
  split
  · exact hts.tail
  · refine (opens_expect hts.tail _).bind ?_
    rintro ⟨opened, us⟩ ⟨hopened, hus⟩
    refine (points_expect .question _ hus).bind ?_
    rintro ⟨_, vs⟩ hvs
    exact (points_closeParen hopened _ hvs).bind fun _ hxs => hxs
  · exact fits_unexpected hts _

theorem points_analogy : Points text (analogy nested) := by
  intro ts hts
  unfold analogy
  refine (points_postfixed hn hts).bind ?_
  rintro ⟨_, us⟩ hus
  dsimp only
  split
  · refine (points_postfixed hn hus.tail).bind ?_
    rintro ⟨_, vs⟩ hvs
    refine (points_expect .as _ hvs).bind ?_
    rintro ⟨_, xs⟩ hxs
    refine (points_postfixed hn hxs).bind ?_
    rintro ⟨_, ys⟩ hys
    refine (points_expect .isTo _ hys).bind ?_
    rintro ⟨_, zs⟩ hzs
    exact (points_analogyTarget hzs).bind fun _ hrest => hrest
  · exact hus

theorem points_arrows (fuel : Nat) (left : Query) : Points text (arrows nested fuel left) := by
  induction fuel generalizing left with
  | zero => exact fun ts hts => hts
  | succ fuel ih =>
      intro ts hts
      rw [arrows]
      split
      · exact hts
      · exact (points_analogy hn hts.tail).bind fun _ hus => ih _ hus

theorem points_relational : Points text (relational nested) := by
  intro ts hts
  unfold relational
  exact (points_analogy hn hts).bind fun r hr => points_arrows hn _ r.1 hr

theorem points_negation : Points text (negation nested) := by
  intro ts hts
  induction ts with
  | nil => exact points_relational hn hts
  | cons t ts ih =>
      rw [negation]
      split
      · exact (ih hts.tail).bind fun _ hus => hus
      · exact points_relational hn hts

omit hn in
theorem points_operands {operand : Parser Query} (ho : Points text operand) (separator : Token)
    (fuel : Nat) : Points text (operands separator operand fuel) := by
  induction fuel with
  | zero => exact fun ts hts => hts
  | succ fuel ih =>
      intro ts hts
      rw [operands]
      split
      · refine (ho hts.tail).bind ?_
        rintro ⟨_, us⟩ hus
        exact (ih hus).bind fun _ hvs => hvs
      · exact hts

omit hn in
theorem points_joined {operand : Parser Query} (ho : Points text operand) (op : Connective)
    (separator : Token) : Points text (joined op separator operand) := by
  intro ts hts
  unfold joined
  refine (ho hts).bind ?_
  rintro ⟨_, us⟩ hus
  exact (points_operands ho separator _ hus).bind fun _ hvs => hvs

theorem points_disjunction : Points text (disjunction nested) :=
  points_joined (points_joined (points_negation hn) .and .and) .or .or

end

/-- The parser reports right places at every depth of nesting. -/
theorem points_query (depth : Nat) : Points text (query depth) := by
  induction depth with
  | zero => exact fun ts hts => fits_unexpected hts _
  | succ depth ih => exact points_disjunction ih

theorem fits_expectEnd (hts : Stand text ts) :
    Ends (Fits text) (fun _ => True) (expectEnd ts) := by
  unfold expectEnd
  split
  · trivial
  · exact ⟨hts.here, .inr (hts.closes ‹_›)⟩
  · exact fits_unexpected hts _

theorem fits_ofTokens (hts : Stand text ts) : Ends (Fits text) (fun _ => True) (ofTokens ts) := by
  unfold ofTokens
  refine (points_query _ hts).bind ?_
  rintro ⟨q, rest⟩ hrest
  exact (fits_expectEnd hrest).bind fun _ _ => trivial

/-- The tokens that a text is cut into stand in it. -/
theorem stand_of_cut (h : Lexer.Cut [] text ts) : Stand text ts := fun t ht =>
  ⟨h.isIn t ht, fun hleft => h.sign t ht (by rw [hleft]; rfl),
    fun hright => h.sign t ht (by rw [hright]; rfl)⟩

end

end VectorQuery.Parser

namespace VectorQuery

end VectorQuery
