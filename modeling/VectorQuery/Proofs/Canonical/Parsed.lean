/-
# What the parser returns can be printed

The lexer takes a word for an identifier only where it can be written without quotes, except for
the argument right after `name(`.  The grammar takes names of types and fields from other places
only, so a query that was parsed has names that can be written (`printable_of_parse`).  Its numbers
are defined, though a numeral may be too large to be finite.
-/
import Mathlib.Data.List.TakeWhile
import VectorQuery.Proofs.Canonical.Injective

namespace VectorQuery

open Lexer

namespace Number.Format

theorem ofDecimal_le (f : Format) (n : Nat) (e : Int) :
    f.ofDecimal false n e ≤ f.pattern false (2 ^ f.exponentBits - 1) 0 := by
  have hzero : f.pattern false 0 0 ≤ f.pattern false (2 ^ f.exponentBits - 1) 0 := by
    simp [pattern]
  have hnearest : ∀ n d, f.nearest false n d ≤ f.pattern false (2 ^ f.exponentBits - 1) 0 := by
    intro n d
    unfold nearest
    split
    · exact hzero
    · have hpattern : ∀ k, f.pattern false 0 k = k := by
        simp [pattern]
      rw [hpattern]
      exact Nat.min_le_right _ _
  unfold ofDecimal
  dsimp only
  split
  · exact hzero
  · split
    · exact Nat.le_refl _
    · exact hnearest _ _

end Number.Format

namespace Double

/-- What a numeral stands for is no more than infinity. -/
theorem toNat_ofDecimal_le (n : Nat) (e : Int) : (ofDecimal n e).bits.toNat ≤ infinity.bits.toNat := by
  have hle : Number.Format.double.ofDecimal false n e ≤ 0x7ff0000000000000 :=
    Number.Format.ofDecimal_le _ n e
  have hbits : (ofDecimal n e).bits.toNat = Number.Format.double.ofDecimal false n e :=
    UInt64.toNat_ofNat_of_lt' (by rw [UInt64.size]; omega)
  rw [hbits]
  exact hle

theorem nonneg_ofDecimal (n : Nat) (e : Int) : (ofDecimal n e).Nonneg :=
  Nat.lt_of_le_of_lt (toNat_ofDecimal_le n e) (by decide)

theorem isDefined_ofDecimal (n : Nat) (e : Int) : (ofDecimal n e).isDefined = true :=
  (isDefined_iff (nonneg_ofDecimal n e)).2 (toNat_ofDecimal_le n e)

end Double

/-! ## Tokens of a text -/

/-- An identifier that is no argument can be written as a word, the name of a relation as one with
hyphens, and a number is defined. -/
structure ProperToken (argument : Bool) (t : Token) : Prop where
  identifier : ∀ s, argument = false → t = .identifier s → IsIdentifier s
  number : ∀ x, t = .number x → x.isDefined = true
  namedArrow : ∀ n, t = .namedArrow n → IsRelation n.toList

/-- Every token is proper where it stands. -/
def Proper : Context → List Token → Prop
  | _, [] => True
  | context, t :: w => ProperToken (context = .call) t ∧ Proper (context.next t) w

/-- The token has neither a name nor a number. -/
def IsBare : Token → Prop
  | .identifier _ | .number _ | .namedArrow _ => False
  | _ => True

theorem IsBare.proper {t : Token} (h : IsBare t) (argument : Bool) : ProperToken argument t := by
  refine ⟨?_, ?_, ?_⟩
  · rintro s - rfl
    exact h.elim
  · rintro x rfl
    exact h.elim
  · rintro n rfl
    exact h.elim

theorem isBare_of_keyword {word : List Char} {t : Token} (h : Token.keyword? word = some t) :
    IsBare t := by
  unfold Token.keyword? at h
  iterate 11
    split at h
    · cases h
      trivial
  cases h

theorem properToken_ofWord {word : List Char} (argument : Bool)
    (h : argument = false → IsWord word) : ProperToken argument (.ofWord word) := by
  unfold Token.ofWord
  cases hk : Token.keyword? word with
  | some t => exact (isBare_of_keyword hk).proper argument
  | none =>
      refine ⟨?_, nofun, nofun⟩
      rintro s harg hs
      cases hs
      exact ⟨by rw [String.toList_ofList]; exact h harg, by rw [String.toList_ofList]; exact hk⟩

theorem hyphened_hyphenated (cs : List Char) : Hyphened (hyphenated continuesWord cs).1 := by
  induction cs with
  | nil => trivial
  | cons c cs ih =>
      rw [hyphenated]
      split
      · rename_i hc
        refine ⟨?_, ih⟩
        rcases Bool.or_eq_true_iff.1 hc with hword | hhyphen
        · exact .inl hword
        · rw [Bool.and_eq_true, beq_iff_eq] at hhyphen
          refine .inr ⟨hhyphen.1, ?_⟩
          cases cs with
          | nil => cases hhyphen.2
          | cons d ds =>
              have hd : continuesWord d = true := hhyphen.2
              refine ⟨d, ?_, hd⟩
              rw [hyphenated, hd, Bool.true_or, if_pos rfl]
              rfl
      · trivial

theorem isRelation_hyphenated {c : Char} (hc : startsWord c = true) (cs : List Char) :
    IsRelation (hyphenated continuesWord (c :: cs)).1 := by
  refine ⟨?_, hyphened_hyphenated _⟩
  rw [hyphenated, if_pos (by rw [continuesWord_of_startsWord hc, Bool.true_or])]
  exact ⟨c, _, rfl, hc⟩

theorem isWord_takeWhile {c : Char} (hc : startsWord c = true) (cs : List Char) :
    IsWord ((c :: cs).takeWhile continuesWord) := by
  refine ⟨?_, fun d hd => List.mem_takeWhile_imp hd⟩
  rw [List.takeWhile_cons_of_pos (continuesWord_of_startsWord hc)]
  exact ⟨c, _, rfl, hc⟩

theorem properToken_scanMinus {argument : Bool} {cs : List Char} {l : Lexeme}
    (h : scanMinus cs = .ok l) : ProperToken argument l.token := by
  unfold scanMinus at h
  split at h
  · cases h
    exact IsBare.proper (by trivial) _
  · rename_i cs
    unfold scanNamedArrow at h
    split at h
    · cases h
    · rename_i c cs' hcs
      split at h
      · rename_i hc
        dsimp only at h
        split at h
        · cases h
        · cases h
          refine ⟨nofun, nofun, ?_⟩
          rintro n hn
          cases hn
          rw [String.toList_ofList]
          exact isRelation_hyphenated hc cs'
      · cases h
  · cases h
    exact IsBare.proper (by trivial) _

theorem isBare_withEquals {bare joined : Token} (hb : IsBare bare) (hj : IsBare joined) (c : Char)
    (cs : List Char) : IsBare (withEquals c bare joined cs).token := by
  unfold withEquals
  split
  · exact hj
  · exact hb

theorem properToken_scanSign {argument : Bool} {c : Char} {cs : List Char} {l : Lexeme}
    (h : scanSign c cs = .ok l) : ProperToken argument l.token := by
  have hplain : ∀ {t : Token} {text rest : List Char},
      (.ok ⟨t, text, rest⟩ : Except Fault Lexeme) = .ok l → IsBare t →
        ProperToken argument l.token := by
    rintro t text rest ⟨⟩ ht
    exact ht.proper argument
  have hequals : ∀ {a b : Token}, (.ok (withEquals c a b cs) : Except Fault Lexeme) = .ok l →
      IsBare a → IsBare b → ProperToken argument l.token := by
    rintro a b ⟨⟩ ha hb
    exact (isBare_withEquals ha hb c cs).proper argument
  unfold scanSign at h
  split at h
  iterate 8 · exact hplain h trivial
  iterate 3 · exact hequals h trivial trivial
  · split at h
    · exact hplain h trivial
    · cases h
  · cases h

theorem properToken_scan {argument : Bool} {c : Char} {cs : List Char} {l : Lexeme}
    (h : scan argument c cs = .ok l) : ProperToken argument l.token := by
  unfold scan at h
  split at h
  · unfold scanString at h
    split at h
    · cases h
    · cases h
      exact IsBare.proper (by trivial) _
  split at h
  · rename_i harg
    rw [Bool.and_eq_true] at harg
    obtain ⟨rfl, -⟩ := harg
    cases h
    unfold scanArgument
    dsimp only
    split
    · exact IsBare.proper (by trivial) _
    split
    · exact IsBare.proper (by trivial) _
    split
    · exact ⟨nofun, nofun, nofun⟩
    · exact properToken_ofWord _ nofun
  split at h
  · unfold scanNumber at h
    dsimp only at h
    split at h
    · cases h
    · cases h
      refine ⟨nofun, ?_, nofun⟩
      rintro x hx
      cases hx
      exact Double.isDefined_ofDecimal _ _
  split at h
  · rename_i hc
    cases h
    exact properToken_ofWord _ fun _ => isWord_takeWhile hc cs
  split at h
  · exact properToken_scanMinus h
  · exact properToken_scanSign h

/-- The lexer cuts proper tokens only. -/
theorem proper_tokensFrom {context : Context} {p : Position} {text : List Char}
    {ts : List Spanned} (h : tokensFrom context p text = .ok ts) :
    Proper context (Parser.tokens ts) := by
  induction hn : text.length using Nat.strong_induction_on generalizing context p text ts with
  | _ n ih =>
      subst hn
      cases hd : text.dropWhile Text.isBlank with
      | nil =>
          rw [tokensFrom_of_nil context p hd] at h
          cases h
          exact ⟨IsBare.proper (by trivial) _, trivial⟩
      | cons c cs =>
          cases hl : scan (context = .call) c cs with
          | error fault =>
              rw [tokensFrom_of_fault hd hl] at h
              cases h
          | ok l =>
              rw [tokensFrom_of_scan hd hl] at h
              obtain ⟨more, hmore, h⟩ := ok_of_bind h
              cases h
              have hlength := scan_length hl
              have hdrop := length_dropWhile_le Text.isBlank text
              rw [hd, List.length_cons] at hdrop
              exact ⟨properToken_scan hl, ih _ (by omega) hmore rfl⟩

/-! ## Phrases -/

section

open Grammar

variable {context : Context} {w rest : List Token}

theorem other_ne_call : Context.other ≠ .call := nofun

/-- A token that is no name and opens nothing leaves no context behind. -/
theorem next_of_isBare {t : Token} (ht : IsBare t) (h : t ≠ .leftParen) (context : Context) :
    context.next t = .other := by
  cases t <;> cases context <;> first | exact absurd rfl h | exact ht.elim | rfl

theorem Proper.tail {t : Token} (h : Proper context (t :: rest)) (ht : IsBare t)
    (hopen : t ≠ .leftParen) : Proper .other rest := by
  have htail := h.2
  rwa [next_of_isBare ht hopen] at htail

theorem Proper.enter (h : Proper .other (.leftParen :: rest)) : Proper .other rest := h.2

theorem Proper.identifier {s : String} (h : Proper context (.identifier s :: rest))
    (hcall : context ≠ .call) : IsIdentifier s ∧ Proper .name rest := by
  refine ⟨h.1.identifier s (decide_eq_false hcall) rfl, ?_⟩
  have htail := h.2
  cases context <;> exact htail

theorem Proper.number {x : Double} (h : Proper context (.number x :: rest)) :
    x.isDefined = true ∧ Proper .other rest := by
  refine ⟨h.1.number x rfl, ?_⟩
  have htail := h.2
  cases context <;> exact htail

theorem Proper.operator {op : CompareOp} (h : Proper context (op.token :: rest)) :
    Proper .other rest := by
  cases op <;> exact h.tail trivial nofun

theorem Proper.direction {direction : Direction} (h : Proper context (direction.token :: rest)) :
    Proper .other rest := by
  cases direction <;> exact h.tail trivial nofun

theorem proper_literal {v : Scalar Double} (hw : Literal w v) (h : Proper context (w ++ rest)) :
    (∀ x, v = .number x → x.isDefined = true) ∧ Proper .other rest := by
  cases hw with
  | number x =>
      obtain ⟨hx, hrest⟩ := h.number
      refine ⟨?_, hrest⟩
      rintro y ⟨⟩
      exact hx
  | negative x =>
      obtain ⟨hx, hrest⟩ := (h.tail trivial nofun).number
      refine ⟨?_, hrest⟩
      rintro y ⟨⟩
      rw [Double.isDefined_neg]
      exact hx
  | string s => exact ⟨nofun, h.tail trivial nofun⟩
  | true => exact ⟨nofun, h.tail trivial nofun⟩
  | false => exact ⟨nofun, h.tail trivial nofun⟩

theorem proper_condition {c : Comparison Double} (hw : Condition w c) (hcall : context ≠ .call)
    (h : Proper context (w ++ rest)) :
    c.WellFormed (·.isDefined = true) ∧ Proper .other rest := by
  cases hw with
  | mk field op hv =>
      obtain ⟨hfield, h⟩ := h.identifier hcall
      obtain ⟨hx, hrest⟩ := proper_literal hv h.operator
      exact ⟨⟨hfield, hx⟩, hrest⟩

theorem proper_conditions {cs : List (Comparison Double)} (hw : Conditions w cs)
    (hcall : context ≠ .call) (h : Proper context (w ++ rest)) :
    (∀ c ∈ cs, c.WellFormed (·.isDefined = true)) ∧ Proper .other rest := by
  induction hw generalizing context with
  | one hc =>
      obtain ⟨hc, hrest⟩ := proper_condition hc hcall h
      exact ⟨by simpa using hc, hrest⟩
  | cons hc _ ih =>
      rw [List.append_assoc] at h
      obtain ⟨hc, hcomma⟩ := proper_condition hc hcall h
      obtain ⟨hcs, hrest⟩ := ih other_ne_call (hcomma.tail trivial nofun)
      exact ⟨List.forall_mem_cons.2 ⟨hc, hcs⟩, hrest⟩

theorem proper_subjectTo {cs : List (Comparison Double)} (hw : SubjectTo w cs)
    (h : Proper .other (w ++ rest)) :
    (∀ c ∈ cs, c.WellFormed (·.isDefined = true)) ∧ Proper .other rest := by
  cases hw with
  | absent => exact ⟨nofun, h⟩
  | present hcs =>
      rw [List.append_assoc] at h
      obtain ⟨hcs, hclose⟩ := proper_conditions hcs other_ne_call (h.tail trivial nofun).enter
      exact ⟨hcs, hclose.tail trivial nofun⟩

theorem isDefined_one : (1.0 : Double).isDefined = true := Double.isDefined_ofDecimal 10 (-1)

theorem proper_weighted {t : Term Double} (hw : Weighted w t) (hcall : context ≠ .call)
    (h : Proper context (w ++ rest)) :
    t.WellFormed (·.isDefined = true) ∧ ∃ c, c ≠ .call ∧ Proper c rest := by
  induction hw generalizing context with
  | before weight field =>
      obtain ⟨hweight, h⟩ := h.number
      obtain ⟨hfield, hrest⟩ := (h.tail trivial nofun).identifier nofun
      exact ⟨⟨hfield, hweight⟩, .name, nofun, hrest⟩
  | after field weight =>
      obtain ⟨hfield, h⟩ := h.identifier hcall
      obtain ⟨hweight, hrest⟩ := (h.tail trivial nofun).number
      exact ⟨⟨hfield, hweight⟩, .other, nofun, hrest⟩
  | bare field =>
      obtain ⟨hfield, hrest⟩ := h.identifier hcall
      exact ⟨⟨hfield, isDefined_one⟩, .name, nofun, hrest⟩
  | negated _ ih =>
      obtain ⟨ht, hrest⟩ := ih other_ne_call (h.tail trivial nofun)
      exact ⟨⟨ht.field, (Double.isDefined_neg _).trans ht.weight⟩, hrest⟩

theorem proper_joined {ts : List (Term Double)} (hw : Joined w ts) (hcall : context ≠ .call)
    (h : Proper context (w ++ rest)) :
    (∀ t ∈ ts, t.WellFormed (·.isDefined = true)) ∧ ∃ c, c ≠ .call ∧ Proper c rest := by
  induction hw generalizing context with
  | nil => exact ⟨nofun, context, hcall, h⟩
  | plus ht _ ih =>
      rw [List.append_assoc] at h
      obtain ⟨ht, c, hc, h⟩ := proper_weighted ht other_ne_call (h.tail trivial nofun)
      obtain ⟨hts, hrest⟩ := ih hc h
      exact ⟨List.forall_mem_cons.2 ⟨ht, hts⟩, hrest⟩
  | minus ht _ ih =>
      rw [List.append_assoc] at h
      obtain ⟨ht, c, hc, h⟩ := proper_weighted ht other_ne_call (h.tail trivial nofun)
      obtain ⟨hts, hrest⟩ := ih hc h
      exact ⟨List.forall_mem_cons.2
        ⟨⟨ht.field, (Double.isDefined_neg _).trans ht.weight⟩, hts⟩, hrest⟩

theorem proper_sum {o : Objective Double} (hw : Sum w o) (h : Proper .other (w ++ rest)) :
    o.terms ≠ [] ∧ (∀ t ∈ o.terms, t.WellFormed (·.isDefined = true)) ∧
      ∃ c, c ≠ .call ∧ Proper c rest := by
  cases hw with
  | mk ht hts =>
      rw [List.append_assoc] at h
      obtain ⟨ht, c, hc, h⟩ := proper_weighted ht other_ne_call h
      obtain ⟨hts, hrest⟩ := proper_joined hts hc h
      exact ⟨nofun, List.forall_mem_cons.2 ⟨ht, hts⟩, hrest⟩

theorem proper_parameterValue {v : Scalar Double} (hw : ParameterValue w v)
    (h : Proper .other (w ++ rest)) :
    (∀ x, v = .number x → x.isDefined = true) ∧ ∃ c, c ≠ .call ∧ Proper c rest := by
  cases hw with
  | name s => exact ⟨nofun, .name, nofun, (h.identifier nofun).2⟩
  | literal hv =>
      obtain ⟨hx, hrest⟩ := proper_literal hv h
      exact ⟨hx, .other, nofun, hrest⟩

/-- The parameters lie in their ranges. -/
def InRange (s : Parser.Similarity) : Prop :=
  (∀ d ∈ s.distance, d.isDefined = true ∧ 0.0 ≤ d ∧ d ≤ 2.0) ∧
    ∀ k ∈ s.topK, 1 ≤ k ∧ k ≤ 2 ^ 32 - 1

theorem proper_parameter {s s' : Parser.Similarity} (hw : Parameter w s s')
    (h : Proper .other (w ++ rest)) (hs : InRange s) :
    InRange s' ∧ ∃ c, c ≠ .call ∧ Proper c rest := by
  cases hw with
  | distance s hv hlow hhigh =>
      obtain ⟨hx, hrest⟩ := proper_parameterValue hv ((h.identifier nofun).2.tail trivial nofun)
      refine ⟨⟨?_, hs.2⟩, hrest⟩
      rintro _ ⟨⟩
      exact ⟨hx _ rfl, hlow, hhigh⟩
  | topK s hv _ hlow hhigh =>
      obtain ⟨-, hrest⟩ := proper_parameterValue hv ((h.identifier nofun).2.tail trivial nofun)
      refine ⟨⟨hs.1, ?_⟩, hrest⟩
      rintro _ ⟨⟩
      exact ⟨hlow, hhigh⟩
  | type s hv =>
      obtain ⟨-, hrest⟩ := proper_parameterValue hv ((h.identifier nofun).2.tail trivial nofun)
      exact ⟨hs, hrest⟩

theorem proper_parameters {s s' : Parser.Similarity} (hw : Parameters w s s')
    (hcall : context ≠ .call) (h : Proper context (w ++ rest)) (hs : InRange s) :
    InRange s' ∧ ∃ c, c ≠ .call ∧ Proper c rest := by
  induction hw generalizing context with
  | nil s => exact ⟨hs, context, hcall, h⟩
  | cons hp _ ih =>
      rw [List.append_assoc] at h
      obtain ⟨hs', c, hc, h⟩ := proper_parameter hp (h.tail trivial nofun) hs
      exact ih hc h hs'

theorem proper_target {name : Option String} (hw : Target w name) (h : Proper .other (w ++ rest)) :
    (∀ t ∈ name, IsIdentifier t) ∧ Proper .other rest := by
  cases hw with
  | «open» => exact ⟨nofun, h.tail trivial nofun⟩
  | typed name =>
      obtain ⟨hname, h⟩ := h.identifier nofun
      refine ⟨by simpa using hname, ?_⟩
      exact (Proper.tail h.2 trivial nofun).tail trivial nofun

theorem proper_operands {parts : List (List Token × Query)} (separator : Token)
    (hs : IsBare separator) (hopen : separator ≠ .leftParen) (hne : parts ≠ [])
    (ih : ∀ p ∈ parts, ∀ rest, Proper .other (p.1 ++ rest) → p.2.Printable ∧ Proper .other rest)
    (h : Proper .other (separated separator (parts.map (·.1)) ++ rest)) :
    (∀ p ∈ parts, p.2.Printable) ∧ Proper .other rest := by
  induction parts with
  | nil => exact absurd rfl hne
  | cons p parts ihparts =>
      cases parts with
      | nil =>
          obtain ⟨hp, hrest⟩ := ih p (by simp) rest h
          exact ⟨by simpa using hp, hrest⟩
      | cons p' parts =>
          have hcons : separated separator ((p :: p' :: parts).map (·.1)) ++ rest =
              p.1 ++ separator :: (separated separator ((p' :: parts).map (·.1)) ++ rest) := by
            rw [List.map_cons, List.map_cons, separated, List.append_assoc]
            · rfl
            · exact List.cons_ne_nil _ _
          rw [hcons] at h
          obtain ⟨hp, h⟩ := ih p (by simp) _ h
          obtain ⟨hparts, hrest⟩ := ihparts (List.cons_ne_nil _ _) (fun q hq => ih q (List.mem_cons_of_mem _ hq))
            (h.tail hs hopen)
          exact ⟨List.forall_mem_cons.2 ⟨hp, hparts⟩, hrest⟩

theorem printable_joined {op : Connective} (hop : op ≠ .not) {parts : List (List Token × Query)}
    (hne : parts ≠ []) (h : ∀ p ∈ parts, p.2.Printable) :
    (joined op (parts.map (·.2))).Printable := by
  match parts with
  | [p] => exact h p (by simp)
  | p :: p' :: parts =>
      have hall : ∀ q ∈ (p :: p' :: parts).map (·.2), q.Printable := by
        intro q hq
        obtain ⟨r, hr, rfl⟩ := List.mem_map.1 hq
        exact h r hr
      exact .logical hop (by simp) hall

/-- A phrase of proper tokens stands for a query that can be printed. -/
theorem printable_of_derives {level : Level} {q : Query} (hw : Derives level w q)
    (h : Proper .other (w ++ rest)) : q.Printable ∧ Proper .other rest := by
  induction hw generalizing rest with
  | disjunction hne _ ih =>
      obtain ⟨hparts, hrest⟩ := proper_operands .or trivial nofun hne (fun p hp _ => ih p hp) h
      exact ⟨printable_joined (by nofun) hne hparts, hrest⟩
  | conjunction hne _ ih =>
      obtain ⟨hparts, hrest⟩ := proper_operands .and trivial nofun hne (fun p hp _ => ih p hp) h
      exact ⟨printable_joined (by nofun) hne hparts, hrest⟩
  | not _ ih =>
      obtain ⟨hq, hrest⟩ := ih (h.tail trivial nofun)
      exact ⟨.not hq, hrest⟩
  | plainNegation _ ih => exact ih h
  | arrow _ ha _ ihl ihr =>
      rw [List.append_assoc] at h
      obtain ⟨hl, h⟩ := ihl h
      cases ha with
      | any =>
          obtain ⟨hr, hrest⟩ := ihr (h.tail trivial nofun)
          exact ⟨.relation hl nofun hr, hrest⟩
      | named name =>
          obtain ⟨hr, hrest⟩ := ihr h.2
          exact ⟨.relation hl (by simpa using h.1.namedArrow name rfl) hr, hrest⟩
  | plainRelational _ ih => exact ih h
  | analogy _ _ _ ht iha ihb ihc =>
      simp only [List.append_assoc, List.cons_append] at h
      obtain ⟨ha, h⟩ := iha h
      obtain ⟨hb, h⟩ := ihb (h.tail trivial nofun)
      obtain ⟨hc, h⟩ := ihc (h.tail trivial nofun)
      obtain ⟨hname, hrest⟩ := proper_target ht (h.tail trivial nofun)
      exact ⟨.analogy ha hb hc hname, hrest⟩
  | plainAnalogy _ ih => exact ih h
  | narrowed _ hc ih =>
      rw [List.append_assoc] at h
      obtain ⟨hq, h⟩ := ih h
      obtain ⟨hc, hrest⟩ := proper_condition hc other_ne_call (h.tail trivial nofun)
      refine ⟨.logical nofun (Nat.le_refl 2) ?_, hrest⟩
      exact List.forall_mem_cons.2 ⟨hq, by simpa using Query.WellFormed.comparison hc⟩
  | plainPostfixed _ ih => exact ih h
  | group _ ih =>
      rw [List.cons_append, List.append_assoc] at h
      obtain ⟨hq, h⟩ := ih h.enter
      exact ⟨hq, h.tail trivial nofun⟩
  | similar _ hps ih =>
      simp only [List.append_assoc, List.cons_append] at h
      obtain ⟨hq, h⟩ := ih (h.tail trivial nofun).enter
      obtain ⟨⟨hd, hk⟩, c, -, h⟩ := proper_parameters hps other_ne_call h ⟨nofun, nofun⟩
      exact ⟨.similar _ hq hd hk, h.tail trivial nofun⟩
  | optimize direction ho hcs =>
      simp only [List.append_assoc, List.cons_append] at h
      have hopen := h.direction
      obtain ⟨hne, hts, c, -, h⟩ := proper_sum ho hopen.enter
      obtain ⟨hcs, hrest⟩ := proper_subjectTo hcs (h.tail trivial nofun)
      exact ⟨.optimize direction hne hts hcs, hrest⟩
  | comparison hc =>
      obtain ⟨hc, hrest⟩ := proper_condition hc other_ne_call h
      exact ⟨.comparison hc, hrest⟩
  | lookup entityType fuzzy hname =>
      obtain ⟨ht, h⟩ := h.identifier other_ne_call
      refine ⟨.lookup _ fuzzy ht, ?_⟩
      obtain ⟨c, hclose⟩ : ∃ c, Proper c
          ((if fuzzy then [.tilde, .rightParen] else [.rightParen]) ++ rest) := ⟨_, h.2.2⟩
      cases fuzzy with
      | false => exact hclose.tail trivial nofun
      | true => exact (hclose.tail trivial nofun).tail trivial nofun

end

/-- A query that a text is can be printed. -/
theorem printable_of_parse {text : String} {q : Query} (h : Query.parse text = .ok q) :
    q.Printable := by
  obtain ⟨ts, hts, h⟩ := ok_of_bind h
  obtain ⟨w, rest, hw, -, hd⟩ := Parser.derives_of_ofTokens h
  have hproper := proper_tokensFrom hts
  rw [hw] at hproper
  exact (printable_of_derives hd hproper).1

end VectorQuery
