/-
# Keys for sharing

In a canonical form every quote is closed and no bar stands outside of quotes (`closed_chars`).  So
the bar that a key puts between a canonical form and the types seen can be found again, and the key
determines the query, and the text of the types seen if the query reads them
(`sharingKey_injective`).
-/
import VectorQuery.Proofs.Canonical.Injective

namespace VectorQuery

open Lexer (continuesWord IsWord IsRelation Hyphened)

/-- Where a character stands. -/
inductive Quoting where
  | outside
  | inside
  /-- After a backslash inside of quotes. -/
  | escaped

/-- A bar stands in the text outside of quotes. -/
def bars : Quoting → List Char → Bool
  | _, [] => false
  | .outside, c :: cs => c = '|' || bars (if c = '"' then .inside else .outside) cs
  | .inside, c :: cs =>
    bars (if c = '"' then .outside else if c = '\\' then .escaped else .inside) cs
  | .escaped, _ :: cs => bars .inside cs

/-- Every quote in the text is closed, and no bar stands outside of quotes. -/
def Closed (cs : List Char) : Prop := ∀ rest, bars .outside (cs ++ rest) = bars .outside rest

theorem closed_nil : Closed [] := fun _ => rfl

theorem Closed.append {cs ds : List Char} (h : Closed cs) (h' : Closed ds) : Closed (cs ++ ds) := by
  intro rest
  rw [List.append_assoc, h, h']

theorem Closed.cons {c : Char} {cs : List Char} (hc : c ≠ '"' ∧ c ≠ '|') (h : Closed cs) :
    Closed (c :: cs) := by
  intro rest
  rw [List.cons_append, bars, decide_eq_false hc.2, if_neg hc.1, Bool.false_or]
  exact h rest

theorem closed_of_plain {cs : List Char} (h : ∀ c ∈ cs, c ≠ '"' ∧ c ≠ '|') : Closed cs := by
  induction cs with
  | nil => exact closed_nil
  | cons c cs ih =>
      exact .cons (h c List.mem_cons_self) (ih fun d hd => h d (List.mem_cons_of_mem _ hd))

theorem closed_of_all {cs : List Char} (h : (cs.all fun c => c != '"' && c != '|') = true) :
    Closed cs :=
  closed_of_plain fun c hc => by simpa using List.all_eq_true.1 h c hc

theorem bars_quoteChar (c : Char) (rest : List Char) :
    bars .inside (quoteChar c ++ rest) = bars .inside rest := by
  unfold quoteChar
  split
  · rfl
  · rfl
  · rfl
  · rfl
  · rename_i hquote hslash _ _
    rw [List.singleton_append, bars, if_neg (by simpa using hquote), if_neg (by simpa using hslash)]

theorem closed_quote (s : String) : Closed (quote s) := by
  intro rest
  have hbody : ∀ cs : List Char,
      bars .inside (cs.flatMap quoteChar ++ '"' :: rest) = bars .outside rest := by
    intro cs
    induction cs with
    | nil => rfl
    | cons c cs ih => rw [List.flatMap_cons, List.append_assoc, bars_quoteChar, ih]
  unfold quote
  rw [List.append_assoc]
  exact hbody s.toList

/-! ## Names and numbers -/

theorem plain_of_continuesWord {c : Char} (h : continuesWord c = true) : c ≠ '"' ∧ c ≠ '|' := by
  constructor
  · rintro rfl
    exact absurd h (by decide)
  · rintro rfl
    exact absurd h (by decide)

theorem plain_of_isDigit {c : Char} (h : c.isDigit = true) : c ≠ '"' ∧ c ≠ '|' := by
  constructor
  · rintro rfl
    exact absurd h (by decide)
  · rintro rfl
    exact absurd h (by decide)

theorem closed_identifier {s : String} (h : IsIdentifier s) : Closed s.toList :=
  closed_of_plain fun c hc => plain_of_continuesWord (h.word.continues c hc)

theorem closed_relation {name : List Char} (h : IsRelation name) : Closed name := by
  refine closed_of_plain ?_
  have hhyphened : ∀ cs : List Char, Hyphened cs → ∀ c ∈ cs, c ≠ '"' ∧ c ≠ '|' := by
    intro cs
    induction cs with
    | nil => simp
    | cons d cs ih =>
        intro hcs c hc
        rcases List.mem_cons.1 hc with rfl | hc
        · rcases hcs.1 with hword | ⟨rfl, -⟩
          · exact plain_of_continuesWord hword
          · decide
        · exact ih hcs.2 c hc
  exact hhyphened name h.hyphened

theorem closed_text {x : Double} (hd : x.isDefined = true) : Closed x.text.toList := by
  have hplain : ∀ {y : Double}, y.Nonneg → y.isDefined = true → Closed y.text.toList := by
    intro y hy hd
    cases hf : y.isFinite with
    | false =>
        rw [Double.eq_infinity hy hd hf, Double.text_infinity]
        exact closed_identifier Lexer.isIdentifier_inf
    | true =>
        obtain ⟨m, hm, htext, -⟩ := Double.exists_numeral hy hf
        rw [htext, Lexer.Numeral.chars, hm.mark, hm.exponent, List.append_nil, List.append_nil]
        refine (closed_of_plain fun c hc => plain_of_isDigit (hm.isDigit_whole c hc)).append ?_
        split
        · exact closed_nil
        · exact .cons (by decide)
            (closed_of_plain fun c hc => plain_of_isDigit (hm.isDigit_fraction c hc))
  obtain ⟨y, hy, rfl | rfl⟩ := x.eq_or_eq_neg
  · exact hplain hy hd
  · rw [Double.isDefined_neg] at hd
    rw [Double.text_neg hy hd]
    exact .cons (by decide) (hplain hy hd)

theorem closed_natural (k : Nat) : Closed (toString k).toList := by
  refine closed_of_plain fun c hc => plain_of_isDigit (Number.isDigit_of_mem_digits (n := k) ?_)
  simpa [Number.digits] using hc

/-! ## Shapes -/

theorem closed_comparison {c : Comparison Double} (hc : c.WellFormed (·.isDefined = true)) :
    Closed c.chars := by
  have hop : Closed c.op.symbol.toList := by
    refine closed_of_all ?_
    cases c.op <;> decide
  have hvalue : Closed c.value.literal := by
    cases hv : c.value with
    | bool b =>
        refine closed_of_all ?_
        cases b <;> decide
    | number x => exact closed_text (hc.number x hv)
    | text s => exact closed_quote s
  exact ((closed_identifier hc.field).append (.cons (by decide) hop)).append (.cons (by decide) hvalue)

theorem closed_unsigned {t : Term Double} (ht : t.WellFormed (·.isDefined = true)) :
    Closed t.unsigned := by
  obtain ⟨y, -, hd, hmagnitude, -⟩ := Lexer.exists_magnitude ht.weight
  rw [Term.unsigned, hmagnitude]
  split
  · exact closed_identifier ht.field
  · exact ((closed_text hd).append (closed_of_all (by decide))).append (closed_identifier ht.field)

theorem closed_joined {ts : List (Term Double)} (hts : ∀ t ∈ ts, t.WellFormed (·.isDefined = true)) :
    Closed (Term.joined ts) := by
  induction ts with
  | nil => exact closed_nil
  | cons t ts ih =>
      have hsign : Closed (if isNegative t.weight then " - " else " + ").toList := by
        refine closed_of_all ?_
        split <;> decide
      exact (hsign.append (closed_unsigned (hts t List.mem_cons_self))).append
        (ih fun u hu => hts u (List.mem_cons_of_mem _ hu))

theorem closed_objective {o : Objective Double}
    (hts : ∀ t ∈ o.terms, t.WellFormed (·.isDefined = true)) : Closed o.chars := by
  obtain ⟨_ | ⟨t, ts⟩⟩ := o
  · exact closed_nil
  · have hsign : Closed (if isNegative t.weight then ['-'] else []) := by
      split
      · exact .cons (by decide) closed_nil
      · exact closed_nil
    exact (hsign.append (closed_unsigned (hts t List.mem_cons_self))).append
      (closed_joined fun u hu => hts u (List.mem_cons_of_mem _ hu))

theorem closed_constraints {cs : List (Comparison Double)}
    (hcs : ∀ c ∈ cs, c.WellFormed (·.isDefined = true)) : Closed (Query.constraintChars cs) := by
  induction cs with
  | nil => exact closed_nil
  | cons c cs ih =>
      have hc := closed_comparison (hcs c List.mem_cons_self)
      cases cs with
      | nil => exact hc
      | cons d ds =>
          exact (hc.append (closed_of_all (by decide))).append
            (ih fun e he => hcs e (List.mem_cons_of_mem _ he))

theorem closed_parameter {name : String} (hname : IsIdentifier name) {value : Option (List Char)}
    (hvalue : ∀ text ∈ value, Closed text) : Closed (Query.parameterChars name value) := by
  cases value with
  | none => exact closed_nil
  | some text =>
      exact .cons (by decide) (.cons (by decide)
        ((closed_identifier hname).append (.cons (by decide) (hvalue text rfl))))

theorem closed_operands {separator : List Char} (hs : Closed separator) {qs : List Query}
    (hqs : ∀ q ∈ qs, Closed q.chars) : Closed (Query.joined separator qs) := by
  induction qs with
  | nil => exact closed_nil
  | cons q qs ih =>
      have hq := hqs q List.mem_cons_self
      cases qs with
      | nil => exact hq
      | cons p ps =>
          rw [Query.joined]
          · exact (hq.append hs).append (ih fun o ho => hqs o (List.mem_cons_of_mem _ ho))
          · exact List.cons_ne_nil _ _

theorem closed_relationChars {l r : List Char} (hl : Closed l) (hr : Closed r)
    {name : Option String} (hname : ∀ n ∈ name, IsRelation n.toList) :
    Closed (Query.relationChars l name r) := by
  have hclose : Closed [')'] := .cons (by decide) closed_nil
  unfold Query.relationChars
  cases name with
  | none =>
      exact .cons (by decide) (((hl.append (closed_of_all (by decide))).append hr).append hclose)
  | some n =>
      have hopen : Closed [' ', '-', '['] := closed_of_all (by decide)
      have hend : Closed [']', '-', '>', ' '] := closed_of_all (by decide)
      have harrow := (hopen.append (closed_relation (hname n rfl))).append hend
      exact .cons (by decide) (((hl.append harrow).append hr).append hclose)

theorem closed_similarChars {t : List Char} (ht : Closed t) {d : Option Double}
    (hd : ∀ x ∈ d, x.isDefined = true) (k : Option Nat) (ty : Option String) :
    Closed (Query.similarChars t d k ty) := by
  have hdistance : ∀ text ∈ d.map fun d => (Double.text d).toList, Closed text := by
    intro text htext
    obtain ⟨x, hx, rfl⟩ := Option.map_eq_some_iff.1 htext
    exact closed_text (hd x hx)
  have htopK : ∀ text ∈ k.map fun k => (toString k).toList, Closed text := by
    intro text htext
    obtain ⟨n, -, rfl⟩ := Option.map_eq_some_iff.1 htext
    exact closed_natural n
  have htype : ∀ text ∈ ty.map quote, Closed text := by
    intro text htext
    obtain ⟨s, -, rfl⟩ := Option.map_eq_some_iff.1 htext
    exact closed_quote s
  exact (((((closed_of_all (by decide)).append (.cons (by decide) ht)).append
    (closed_parameter Lexer.isIdentifier_distance hdistance)).append
    (closed_parameter Lexer.isIdentifier_topK htopK)).append
    (closed_parameter Lexer.isIdentifier_type htype)).append (.cons (by decide) closed_nil)

theorem closed_analogyChars {a b c : List Char} (ha : Closed a) (hb : Closed b) (hc : Closed c)
    {ty : Option String} (hty : ∀ t ∈ ty, IsIdentifier t) :
    Closed (Query.analogyChars a b c ty) := by
  have htarget : ∀ {target : List Char}, Closed target →
      Closed ('(' :: a ++ ' ' :: "is_to".toList ++ ' ' :: b ++ ' ' :: "as".toList ++ ' ' :: c
        ++ ' ' :: "is_to".toList ++ ' ' :: target ++ [')']) := by
    intro target ht
    have hisTo : Closed (' ' :: "is_to".toList) := closed_of_all (by decide)
    have has : Closed (' ' :: "as".toList) := closed_of_all (by decide)
    exact ((((((((Closed.cons (by decide) ha).append hisTo).append (.cons (by decide) hb)).append
      has).append (.cons (by decide) hc)).append hisTo).append (.cons (by decide) ht)).append
      (.cons (by decide) closed_nil))
  unfold Query.analogyChars
  cases ty with
  | none => exact htarget (.cons (by decide) closed_nil)
  | some s => exact htarget ((closed_identifier (hty s rfl)).append (closed_of_all (by decide)))

theorem closed_optimizeChars (direction : Direction) {o : Objective Double}
    {cs : List (Comparison Double)} (ho : Closed o.chars)
    (hcs : Closed (Query.constraintChars cs)) : Closed (Query.optimizeChars direction o cs) := by
  have hclose : Closed [')'] := .cons (by decide) closed_nil
  have hword : Closed direction.word.toList := by
    refine closed_of_all ?_
    cases direction <;> decide
  have hsubject : Closed (' ' :: "subject_to".toList) := closed_of_all (by decide)
  unfold Query.optimizeChars
  refine ((hword.append (.cons (by decide) ho)).append hclose).append ?_
  split
  · exact closed_nil
  · exact (hsubject.append (.cons (by decide) hcs)).append hclose

/-- Quotes are closed in a canonical form, and bars stand inside of quotes only. -/
theorem closed_chars {q : Query} (h : q.Printable) : Closed q.chars := by
  have hclose : Closed [')'] := .cons (by decide) closed_nil
  induction h with
  | lookup name fuzzy ht =>
      have hend : Closed (if fuzzy = true then ['~', ')'] else [')']) := by
        split
        · exact .cons (by decide) hclose
        · exact hclose
      exact ((closed_identifier ht).append (.cons (by decide) (closed_quote name))).append hend
  | relation _ hname _ ihl ihr => exact closed_relationChars ihl ihr hname
  | not _ ih =>
      have hword : Closed Connective.not.word.toList := closed_of_all (by decide)
      exact .cons (by decide) ((hword.append (.cons (by decide) ih)).append hclose)
  | @logical op qs hop _ _ ih =>
      have hseparator : Closed (' ' :: op.word.toList ++ [' ']) := by
        refine closed_of_all ?_
        cases op <;> decide
      cases op with
      | not => exact absurd rfl hop
      | and => exact .cons (by decide) ((closed_operands hseparator ih).append hclose)
      | or => exact .cons (by decide) ((closed_operands hseparator ih).append hclose)
  | comparison hc => exact closed_comparison hc
  | similar targetType _ hd _ ih =>
      exact closed_similarChars ih (fun x hx => (hd x hx).1) _ targetType
  | analogy _ _ _ hty iha ihb ihc => exact closed_analogyChars iha ihb ihc hty
  | optimize direction _ hts hcs =>
      exact closed_optimizeChars direction (closed_objective hts) (closed_constraints hcs)

/-! ## Keys -/

namespace Lowering

theorem toList_canonical (q : Query) : q.canonical.toList = q.chars := String.toList_ofList

/-- The texts before the first bar are equal if they are canonical forms. -/
theorem chars_before_bar {q q' : Query} (h : q.Printable) (h' : q'.Printable)
    {rest rest' : List Char} (heq : q.chars ++ '|' :: rest = q'.chars ++ '|' :: rest') :
    q.chars = q'.chars ∧ rest = rest' := by
  have hbar : ∀ cs, bars .outside ('|' :: cs) = true := fun _ => rfl
  rcases List.append_eq_append_iff.1 heq with ⟨u, hu, hrest⟩ | ⟨u, hu, hrest⟩
  · cases u with
    | nil =>
        rw [List.append_nil] at hu
        exact ⟨hu.symm, (List.cons.inj hrest).2⟩
    | cons c u =>
        -- the longer one has a bar after the shorter one
        obtain ⟨rfl, -⟩ := List.cons.inj hrest
        have hclosed := closed_chars h' []
        rw [hu, List.append_assoc, closed_chars h] at hclosed
        cases hclosed
  · cases u with
    | nil =>
        rw [List.append_nil] at hu
        exact ⟨hu, (List.cons.inj hrest).2.symm⟩
    | cons c u =>
        obtain ⟨rfl, -⟩ := List.cons.inj hrest
        have hclosed := closed_chars h []
        rw [hu, List.append_assoc, closed_chars h'] at hclosed
        cases hclosed

/-- A key determines the query, and the text of the types seen as far as the query reads them. -/
theorem sharingKey_injective {q q' : Query} (h : q.Printable) (h' : q'.Printable)
    {s s' : TypeSet} (heq : sharingKey q s = sharingKey q' s') :
    q = q' ∧ (readsSeen q = true → s.text = s'.text) := by
  have hmixed : ∀ {q q' : Query} {s : TypeSet}, q.Printable → q'.Printable →
      q.canonical ++ "|" ++ s.text ≠ q'.canonical := by
    intro q q' s h h' heq
    have hclosed := closed_chars h' []
    rw [List.append_nil, ← toList_canonical, ← heq, String.toList_append, String.toList_append,
      List.append_assoc, toList_canonical, closed_chars h] at hclosed
    cases hclosed
  unfold sharingKey at heq
  split at heq
  · split at heq
    · have hlist := congrArg String.toList heq
      simp only [String.toList_append, toList_canonical, List.append_assoc] at hlist
      obtain ⟨hchars, hrest⟩ := chars_before_bar h h' hlist
      refine ⟨canonical_injective h h' ?_, fun _ => String.toList_inj.1 hrest⟩
      rw [Query.canonical, hchars]
      rfl
    · exact absurd heq (hmixed h h')
  · rename_i hreads
    split at heq
    · exact absurd heq.symm (hmixed h' h)
    · exact ⟨canonical_injective h h' heq, fun hr => absurd hr hreads⟩

-- no types and the type of the empty name have one text
example : sharingKey (.logical .not [.lookup "feature" "cache" false]) .empty =
    sharingKey (.logical .not [.lookup "feature" "cache" false]) (.single "") := by
  decide +kernel

end Lowering

end VectorQuery
