/-
# Where tokens stand

A text that is cut into tokens is blanks, the lexeme of the first token, blanks, and so on up to the
blanks at its end (`Cut`).  A lexeme is told by its token alone (`Writes`), so this says that the
lexer goes over exactly the characters that it read.  The position of a token is where its lexeme
starts, and line and column are those of that place in the text (`Position.IsIn`).

Main statement: a text is cut into its tokens, or it has a fault that shows where the text bears it
out (`ends_tokensFrom`).
-/
import Mathlib.Data.List.DropRight
import Mathlib.Data.List.TakeWhile
import VectorQuery.Proofs.Lexer.Spelling

namespace VectorQuery

/-! ## Lines and columns -/

namespace Position

/-- The place right behind a text: lines are counted by the line feeds, columns by the characters
since the last of these. -/
def behind (before : List Char) : Position :=
  ⟨before.length, 1 + before.count '\n', 1 + (before.rtakeWhile (· ≠ '\n')).length⟩

/-- A place in the text; line and column are those of the offset. -/
structure IsIn (p : Position) (text : List Char) : Prop where
  offset_le : p.offset ≤ text.length
  eq_behind : p = behind (text.take p.offset)

/-- Character by character, a position keeps count. -/
theorem start_after (s : List Char) : start.after s = behind s := by
  induction s using List.reverseRecOn with
  | nil => rfl
  | append_singleton s c ih =>
      have hstep : start.after (s ++ [c]) = (start.after s).next c := List.foldl_append
      rw [hstep, ih]
      unfold next behind
      by_cases hc : c = '\n'
      · subst hc
        rw [if_pos rfl, List.rtakeWhile_concat_neg _ _ _ (by simp)]
        simp [Nat.add_assoc]
      · rw [if_neg hc, List.rtakeWhile_concat_pos _ _ _ (by simpa using hc), List.count_append,
          List.count_singleton]
        simp [hc, Nat.add_assoc]

theorem behind_after (s t : List Char) : (behind s).after t = behind (s ++ t) := by
  rw [← start_after, ← start_after, after, after, after, List.foldl_append]

theorem isIn_behind (before rest : List Char) : (behind before).IsIn (before ++ rest) := by
  constructor
  · rw [List.length_append]
    exact Nat.le_add_right _ _
  · change _ = behind ((before ++ rest).take before.length)
    rw [List.take_left]

theorem isIn_start (text : List Char) : start.IsIn text := isIn_behind [] text

/-- The character that stands behind a text. -/
theorem getElem?_behind (before rest : List Char) :
    (before ++ rest)[(behind before).offset]? = rest.head? := by
  change (before ++ rest)[before.length]? = _
  rw [List.getElem?_append_right (Nat.le_refl _), Nat.sub_self, List.head?_eq_getElem?]

end Position

/-! ## Errors -/

namespace ParseError

/-- What an error says of the place where it shows is so. -/
def Shows (text : List Char) : ParseError → Prop
  | unexpectedCharacter c p => text[p.offset]? = some c
  | unterminatedString p => text[p.offset]? = some '"' ∨ text[p.offset]? = some '\x27'
  | unmatchedParen p => text[p.offset]? = some '(' ∨ text[p.offset]? = some ')'
  | invalidNumber s p => s.toList <+: text.drop p.offset
  | _ => True

/-- The error shows at a place of the text that bears it out. -/
structure Fits (text : List Char) (e : ParseError) : Prop where
  position : e.position.IsIn text
  shows : e.Shows text

end ParseError

/-! ## Lexemes -/

/-- The signs that a token is written with. -/
def Token.sign? : Token → Option String
  | arrow => some "->"
  | dot => some "."
  | comma => some ","
  | leftParen => some "("
  | rightParen => some ")"
  | star => some "*"
  | tilde => some "~"
  | question => some "?"
  | assign => some "="
  | plus => some "+"
  | minus => some "-"
  | lt => some "<"
  | le => some "<="
  | gt => some ">"
  | ge => some ">="
  | eq => some "=="
  | ne => some "!="
  | _ => none

/-- Only words are keywords. -/
theorem Token.sign?_of_keyword {word : List Char} {t : Token} (h : keyword? word = some t) :
    t.sign? = none ∧ t ≠ .endOfQuery := by
  unfold keyword? at h
  iterate 11
    split at h
    · cases h
      exact ⟨rfl, nofun⟩
  cases h

namespace Lexer

open Text (isBlank)

/-- The characters of a quoted string between its quotes, with its value. -/
inductive Quoted (delimiter : Char) : List Char → List Char → Prop where
  | nil : Quoted delimiter [] []
  | plain {c : Char} {text value : List Char} : c ≠ delimiter → Quoted delimiter text value →
      Quoted delimiter (c :: text) (c :: value)
  | escaped (c : Char) {text value : List Char} : Quoted delimiter text value →
      Quoted delimiter ('\\' :: c :: text) (unescape c :: value)

/-- The token is written with this lexeme. -/
inductive Writes : Token → List Char → Prop where
  | sign {t : Token} (signs : String) (h : t.sign? = some signs) : Writes t signs.toList
  | keyword {t : Token} {word : List Char} (h : Token.keyword? word = some t) : Writes t word
  | identifier (name : List Char) : Writes (.identifier (.ofList name)) name
  | number {n : Numeral} (hwhole : n.whole ≠ [])
      (hdigits : ∀ c ∈ n.whole ++ n.fraction ++ n.exponent, c.isDigit = true) :
      Writes (.number n.value) n.chars
  | string {delimiter : Char} {text value : List Char}
      (hdelimiter : delimiter = '"' ∨ delimiter = '\x27') (h : Quoted delimiter text value) :
      Writes (.string (.ofList value)) (delimiter :: (text ++ [delimiter]))
  | namedArrow {blanks blanks' name : List Char}
      (hblanks : ∀ c ∈ blanks ++ blanks', isBlank c = true) :
      Writes (.namedArrow (.ofList name))
        ('-' :: '[' :: blanks ++ name ++ blanks' ++ [']', '-', '>'])

theorem writes_ofWord (word : List Char) : Writes (.ofWord word) word := by
  unfold Token.ofWord
  cases h : Token.keyword? word with
  | some t => exact .keyword h
  | none => exact .identifier word

theorem Writes.ne_endOfQuery {t : Token} {lexeme : List Char} (h : Writes t lexeme) :
    t ≠ .endOfQuery := by
  rintro rfl
  cases h with
  | sign _ h => cases h
  | keyword h => exact (Token.sign?_of_keyword h).2 rfl

/-- A token with signs is written with these. -/
theorem Writes.eq_sign {t : Token} {lexeme : List Char} (h : Writes t lexeme) {signs : String}
    (hsigns : t.sign? = some signs) : lexeme = signs.toList := by
  cases h with
  | sign _ h => rw [Option.some.inj (h.symm.trans hsigns)]
  | keyword h =>
      rw [(Token.sign?_of_keyword h).1] at hsigns
      cases hsigns
  | identifier | number | string | namedArrow => cases hsigns

/-- The lexeme is what its token is written with, and the text goes on after it. -/
structure Lexeme.Of (text : List Char) (l : Lexeme) : Prop where
  cut : l.text ++ l.rest = text
  writes : Writes l.token l.text

/-- The fault is one of the text. -/
def Fault.Of (text : List Char) : Fault → Prop
  | .character before c => before ++ [c] <+: text
  | .openString => text.head? = some '"' ∨ text.head? = some '\x27'
  | .openArrow => True
  | .number s => s <+: text

theorem hyphenated_cut (part : Char → Bool) (cs : List Char) :
    (hyphenated part cs).1 ++ (hyphenated part cs).2 = cs := by
  induction cs with
  | nil => rfl
  | cons c cs ih =>
      rw [hyphenated]
      split
      · exact congrArg (c :: ·) ih
      · rfl

theorem quoted_of_stringBody {delimiter : Char} {cs value text rest : List Char}
    (h : stringBody delimiter cs = some (value, text, rest)) :
    ∃ body, text = body ++ [delimiter] ∧ Quoted delimiter body value ∧ text ++ rest = cs := by
  fun_induction stringBody delimiter cs generalizing value text rest with
  | case1 => cases h
  | case2 => cases h
  | case3 c cs ih =>
      obtain ⟨⟨v, t, r⟩, hbody, heq⟩ := Option.map_eq_some_iff.1 h
      cases heq
      obtain ⟨body, rfl, hquoted, rfl⟩ := ih hbody
      exact ⟨_, rfl, .escaped c hquoted, rfl⟩
  | case4 c cs hc =>
      cases h
      exact ⟨[], rfl, .nil, rfl⟩
  | case5 c cs _ _ hc ih =>
      obtain ⟨⟨v, t, r⟩, hbody, heq⟩ := Option.map_eq_some_iff.1 h
      cases heq
      obtain ⟨body, rfl, hquoted, rfl⟩ := ih hbody
      exact ⟨_, rfl, .plain hc hquoted, rfl⟩

theorem ends_scanString {delimiter : Char} (h : delimiter = '"' ∨ delimiter = '\x27')
    (cs : List Char) :
    Ends (Fault.Of (delimiter :: cs)) (Lexeme.Of (delimiter :: cs)) (scanString delimiter cs) := by
  unfold scanString
  split
  · exact h.imp (congrArg some) (congrArg some)
  · rename_i hbody
    obtain ⟨body, rfl, hquoted, rfl⟩ := quoted_of_stringBody hbody
    exact ⟨rfl, .string h hquoted⟩

/-! ### Numbers -/

/-- A point with the digits after it comes next, if there are digits. -/
theorem fractionOf_prefix {cs : List Char} (h : fractionOf cs ≠ []) :
    '.' :: fractionOf cs <+: cs := by
  unfold fractionOf at h ⊢
  split at h
  · exact List.cons_prefix_cons.2 ⟨rfl, List.takeWhile_prefix _⟩
  · exact absurd rfl h

theorem exponentOf_prefix (cs : List Char) : (exponentOf cs).1 ++ (exponentOf cs).2 <+: cs := by
  unfold exponentOf
  split
  · split
    · split
      · exact List.cons_prefix_cons.2 ⟨rfl, List.cons_prefix_cons.2 ⟨rfl, List.takeWhile_prefix _⟩⟩
      · exact List.cons_prefix_cons.2 ⟨rfl, List.takeWhile_prefix _⟩
    · exact List.nil_prefix
  · exact List.nil_prefix

theorem isDigit_fractionOf {cs : List Char} : ∀ c ∈ fractionOf cs, c.isDigit = true := by
  unfold fractionOf
  split
  · exact fun c hc => List.mem_takeWhile_imp hc
  · exact nofun

theorem isDigit_exponentOf {cs : List Char} : ∀ c ∈ (exponentOf cs).2, c.isDigit = true := by
  unfold exponentOf
  split
  · split
    · split <;> exact fun c hc => List.mem_takeWhile_imp hc
    · exact nofun
  · exact nofun

/-- A numeral is what its characters are at the front of the text. -/
theorem Numeral.chars_prefix (cs : List Char) : (Numeral.read cs).chars <+: cs := by
  let whole := cs.takeWhile Char.isDigit
  let tail := cs.dropWhile Char.isDigit
  let fraction := fractionOf tail
  let point := if fraction.isEmpty then [] else '.' :: fraction
  let tail' := if fraction.isEmpty then tail else tail.drop (fraction.length + 1)
  let mark := if (exponentOf tail').2.isEmpty then [] else (exponentOf tail').1
  have htail : point ++ tail' = tail := by
    dsimp only [point, tail']
    split
    · rfl
    · rename_i hne
      have hpoint : '.' :: fractionOf tail <+: tail := fractionOf_prefix (by simpa using hne)
      exact (List.prefix_iff_eq_append.1 hpoint)
  have hexponent : mark ++ (exponentOf tail').2 <+: tail' := by
    dsimp only [mark]
    split
    · rename_i hempty
      rw [List.isEmpty_iff.1 hempty]
      exact List.nil_prefix
    · exact exponentOf_prefix tail'
  have hcs : whole ++ (point ++ tail') = cs := by
    rw [htail]
    exact List.takeWhile_append_dropWhile
  change whole ++ point ++ mark ++ (exponentOf tail').2 <+: cs
  rw [List.append_assoc, List.append_assoc, ← hcs]
  exact (List.prefix_append_right_inj _).2 ((List.prefix_append_right_inj _).2 hexponent)

theorem ends_scanNumber {c : Char} (hc : c.isDigit = true) (cs : List Char) :
    Ends (Fault.Of (c :: cs)) (Lexeme.Of (c :: cs)) (scanNumber (c :: cs)) := by
  have hcut := List.prefix_iff_eq_append.1 (Numeral.chars_prefix (c :: cs))
  unfold scanNumber
  dsimp only
  split
  · change _ <+: c :: cs
    conv => rhs; rw [← hcut]
    exact (List.prefix_append_right_inj _).2 (List.takeWhile_prefix _)
  · refine ⟨hcut, .number ?_ ?_⟩
    · simp [Numeral.read, hc]
    · intro d hd
      rcases List.mem_append.1 hd with hd | hd
      · rcases List.mem_append.1 hd with hd | hd
        · exact List.mem_takeWhile_imp hd
        · exact isDigit_fractionOf d hd
      · exact isDigit_exponentOf d hd

/-! ### Arrows and signs -/

theorem ends_expectChars (before ws cs : List Char) :
    Ends (Fault.Of (before ++ cs)) (fun p => p.1 = before ++ ws ∧ p.1 ++ p.2 = before ++ cs)
      (expectChars before ws cs) := by
  fun_induction expectChars before ws cs with
  | case1 before cs => exact ⟨(List.append_nil _).symm, rfl⟩
  | case2 => trivial
  | case3 before w ws cs ih =>
      simpa only [List.append_assoc, List.singleton_append] using ih
  | case4 before w ws c cs hc =>
      change before ++ [c] <+: before ++ c :: cs
      exact (List.prefix_append_right_inj _).2 (List.prefix_append [c] cs)

theorem ends_scanNamedArrow (cs : List Char) :
    Ends (Fault.Of ('-' :: '[' :: cs)) (Lexeme.Of ('-' :: '[' :: cs)) (scanNamedArrow cs) := by
  have hblanks : cs.takeWhile isBlank ++ cs.dropWhile isBlank = cs :=
    List.takeWhile_append_dropWhile
  unfold scanNamedArrow
  dsimp only
  split
  · trivial
  · rename_i c cs' hcs
    rw [hcs] at hblanks
    split
    · have hname := hyphenated_cut continuesWord (c :: cs')
      generalize hyphenated continuesWord (c :: cs') = word at hname
      obtain ⟨name, tail⟩ := word
      have htail : tail.takeWhile isBlank ++ tail.dropWhile isBlank = tail :=
        List.takeWhile_append_dropWhile
      have hends := ends_expectChars
        ('-' :: '[' :: cs.takeWhile isBlank ++ name ++ tail.takeWhile isBlank) [']', '-', '>']
        (tail.dropWhile isBlank)
      have hcut : '-' :: '[' :: cs.takeWhile isBlank ++ name ++ tail.takeWhile isBlank ++
          tail.dropWhile isBlank = '-' :: '[' :: cs := by
        rw [List.append_assoc, htail, List.append_assoc, hname]
        exact congrArg ('-' :: '[' :: ·) hblanks
      rw [hcut] at hends
      dsimp only
      split
      · rename_i herror
        rw [herror] at hends
        exact hends
      · rename_i text rest hok
        rw [hok] at hends
        obtain ⟨htext, hrest⟩ := hends
        dsimp only at htext hrest
        refine ⟨hrest, ?_⟩
        rw [htext]
        refine .namedArrow fun d hd => ?_
        rcases List.mem_append.1 hd with hd | hd <;> exact List.mem_takeWhile_imp hd
    · change '-' :: '[' :: cs.takeWhile isBlank ++ [c] <+: '-' :: '[' :: cs
      conv => rhs; rw [← hblanks]
      exact List.cons_prefix_cons.2 ⟨rfl, List.cons_prefix_cons.2
        ⟨rfl, (List.prefix_append_right_inj _).2 (List.prefix_append [c] cs')⟩⟩

theorem ends_scanMinus (cs : List Char) :
    Ends (Fault.Of ('-' :: cs)) (Lexeme.Of ('-' :: cs)) (scanMinus cs) := by
  unfold scanMinus
  split
  · exact ⟨rfl, .sign "->" rfl⟩
  · exact ends_scanNamedArrow _
  · exact ⟨rfl, .sign "-" rfl⟩

theorem withEquals_of {c : Char} {bare joined : Token} (cs : List Char)
    (hbare : bare.sign? = some (.ofList [c])) (hjoined : joined.sign? = some (.ofList [c, '='])) :
    (withEquals c bare joined cs).Of (c :: cs) := by
  unfold withEquals
  split
  · exact ⟨rfl, by simpa using Writes.sign _ hjoined⟩
  · exact ⟨rfl, by simpa using Writes.sign _ hbare⟩

theorem ends_scanSign (c : Char) (cs : List Char) :
    Ends (Fault.Of (c :: cs)) (Lexeme.Of (c :: cs)) (scanSign c cs) := by
  have hfault (c : Char) : Fault.Of (c :: cs) (.character [] c) := List.prefix_append [c] cs
  unfold scanSign
  split
  · exact ⟨rfl, .sign "." rfl⟩
  · exact ⟨rfl, .sign "," rfl⟩
  · exact ⟨rfl, .sign "(" rfl⟩
  · exact ⟨rfl, .sign ")" rfl⟩
  · exact ⟨rfl, .sign "*" rfl⟩
  · exact ⟨rfl, .sign "~" rfl⟩
  · exact ⟨rfl, .sign "?" rfl⟩
  · exact ⟨rfl, .sign "+" rfl⟩
  · exact withEquals_of cs rfl rfl
  · exact withEquals_of cs rfl rfl
  · exact withEquals_of cs rfl rfl
  · split
    · exact ⟨rfl, .sign "!=" rfl⟩
    · exact hfault _
  · exact hfault _

/-! ### The front of a text -/

theorem scanArgument_of (cs : List Char) : (scanArgument cs).Of cs := by
  have hcut := hyphenated_cut continuesArgument cs
  unfold scanArgument
  generalize hyphenated continuesArgument cs = word at hcut
  obtain ⟨word, rest⟩ := word
  refine ⟨hcut, ?_⟩
  dsimp only
  split
  · rename_i hstar
    rw [hstar]
    exact .sign "*" rfl
  split
  · rename_i hquestion
    rw [hquestion]
    exact .sign "?" rfl
  split
  · exact .identifier word
  · exact writes_ofWord word

/-- What the lexer takes off the front of a text is a lexeme of its token; what it reports is a fault
of the text. -/
theorem ends_scan (argument : Bool) (c : Char) (cs : List Char) :
    Ends (Fault.Of (c :: cs)) (Lexeme.Of (c :: cs)) (scan argument c cs) := by
  unfold scan
  split
  · exact ends_scanString ‹_› cs
  split
  · exact scanArgument_of (c :: cs)
  split
  · exact ends_scanNumber ‹_› cs
  split
  · exact ⟨List.takeWhile_append_dropWhile, writes_ofWord _⟩
  split
  · rename_i hminus
    subst hminus
    exact ends_scanMinus cs
  · exact ends_scanSign c cs

/-- Every lexeme has a character. -/
theorem ne_nil_of_scan {argument : Bool} {c : Char} {cs : List Char} {l : Lexeme}
    (h : scan argument c cs = .ok l) : l.text ≠ [] := by
  intro hnil
  have hcut := ((ends_scan argument c cs).of_ok h).cut
  have hlength := scan_length h
  rw [hnil, List.nil_append] at hcut
  rw [hcut, List.length_cons] at hlength
  omega

/-! ## Texts cut into tokens -/

/-- Behind `before`, the text is cut into the tokens: blanks, the lexeme of the first token, and so
on up to the blanks before the end of the query. -/
inductive Cut : List Char → List Char → List Spanned → Prop where
  | finish {before blanks : List Char} (hblanks : ∀ c ∈ blanks, isBlank c = true) :
      Cut before blanks [⟨.endOfQuery, .behind (before ++ blanks)⟩]
  | token {before blanks lexeme rest : List Char} {t : Token} {ts : List Spanned}
      (hblanks : ∀ c ∈ blanks, isBlank c = true) (hlexeme : lexeme ≠ [])
      (hwrites : Writes t lexeme) (hrest : Cut (before ++ blanks ++ lexeme) rest ts) :
      Cut before (blanks ++ lexeme ++ rest) (⟨t, .behind (before ++ blanks)⟩ :: ts)

namespace Cut

variable {before text : List Char} {ts : List Spanned}

theorem offset_ge (h : Cut before text ts) : ∀ t ∈ ts, before.length ≤ t.position.offset := by
  induction h with
  | @finish before blanks _ =>
      refine List.forall_mem_singleton.2 ?_
      change before.length ≤ (before ++ blanks).length
      simp
  | @token before blanks lexeme _ _ _ _ _ _ _ ih =>
      refine List.forall_mem_cons.2 ⟨?_, fun t ht => Nat.le_trans ?_ (ih t ht)⟩
      · change before.length ≤ (before ++ blanks).length
        simp
      · simp

/-- Every token stands further on than those before it. -/
theorem ascending (h : Cut before text ts) :
    ts.Pairwise fun t u => t.position.offset < u.position.offset := by
  induction h with
  | finish => exact List.pairwise_singleton _ _
  | @token before blanks lexeme _ _ _ _ hlexeme _ hrest ih =>
      refine List.pairwise_cons.2 ⟨fun u hu => Nat.lt_of_lt_of_le ?_ (hrest.offset_ge u hu), ih⟩
      change (before ++ blanks).length < (before ++ blanks ++ lexeme).length
      have hlength : (before ++ blanks ++ lexeme).length =
          (before ++ blanks).length + lexeme.length := List.length_append
      rw [hlength]
      exact Nat.lt_add_of_pos_right (List.length_pos_iff.2 hlexeme)

theorem isIn (h : Cut before text ts) : ∀ t ∈ ts, t.position.IsIn (before ++ text) := by
  induction h with
  | @finish before blanks _ =>
      refine List.forall_mem_singleton.2 ?_
      simpa using Position.isIn_behind (before ++ blanks) []
  | @token before blanks lexeme rest _ _ _ _ _ _ ih =>
      refine List.forall_mem_cons.2 ⟨?_, ?_⟩
      · simpa using Position.isIn_behind (before ++ blanks) (lexeme ++ rest)
      · simpa using ih

/-- The end of the query stands at the end of the text, and nowhere else. -/
theorem ends (h : Cut before text ts) : ∃ init p, ts = init ++ [⟨.endOfQuery, p⟩] ∧
    p.offset = (before ++ text).length ∧ ∀ t ∈ init, t.token ≠ .endOfQuery := by
  induction h with
  | finish => exact ⟨[], _, rfl, rfl, nofun⟩
  | token _ _ hwrites _ ih =>
      obtain ⟨init, p, rfl, hp, hinit⟩ := ih
      refine ⟨_ :: init, p, rfl, ?_, List.forall_mem_cons.2 ⟨hwrites.ne_endOfQuery, hinit⟩⟩
      simpa using hp

/-- A token of one sign stands where the text has the sign. -/
theorem sign (h : Cut before text ts) {c : Char} : ∀ t ∈ ts,
    t.token.sign? = some (.ofList [c]) → (before ++ text)[t.position.offset]? = some c := by
  induction h with
  | finish => exact List.forall_mem_singleton.2 nofun
  | @token before blanks lexeme rest _ _ _ _ hwrites _ ih =>
      refine List.forall_mem_cons.2 ⟨fun hsign => ?_, ?_⟩
      · have hlexeme := hwrites.eq_sign hsign
        rw [String.toList_ofList] at hlexeme
        subst hlexeme
        simpa using Position.getElem?_behind (before ++ blanks) (c :: rest)
      · simpa using ih

end Cut

/-- A fault shows at a place of the text that bears it out. -/
theorem Fault.fits {fault : Fault} {text : List Char} (h : fault.Of text) (before : List Char) :
    (fault.error (.behind before)).Fits (before ++ text) := by
  cases fault with
  | character passed c =>
      obtain ⟨rest, rfl⟩ := h
      have htext : before ++ (passed ++ [c] ++ rest) = before ++ passed ++ c :: rest := by simp
      rw [htext, error, Position.behind_after]
      exact ⟨Position.isIn_behind _ _, Position.getElem?_behind _ _⟩
  | openString =>
      refine ⟨Position.isIn_behind _ _, ?_⟩
      exact h.imp (Position.getElem?_behind before text).trans
        (Position.getElem?_behind before text).trans
  | openArrow => exact ⟨Position.isIn_behind _ _, trivial⟩
  | number s =>
      refine ⟨Position.isIn_behind _ _, ?_⟩
      change (String.ofList s).toList <+: (before ++ text).drop before.length
      rw [String.toList_ofList, List.drop_left]
      exact h

/-- Behind `before`, a text is cut into tokens or has a fault that shows where it says. -/
theorem ends_tokensFrom (context : Context) (before text : List Char) :
    Ends (ParseError.Fits (before ++ text)) (Cut before text)
      (tokensFrom context (.behind before) text) := by
  induction hn : text.length using Nat.strong_induction_on generalizing context before text with
  | _ n ih =>
      subst hn
      have hblanks : ∀ c ∈ text.takeWhile isBlank, isBlank c = true :=
        fun c hc => List.mem_takeWhile_imp hc
      have htext : text.takeWhile isBlank ++ text.dropWhile isBlank = text :=
        List.takeWhile_append_dropWhile
      cases hd : text.dropWhile isBlank with
      | nil =>
          rw [tokensFrom_of_nil context _ hd, Position.behind_after]
          rw [hd, List.append_nil] at htext
          have hcut : Cut before _ _ := .finish hblanks
          rw [htext] at hcut ⊢
          exact hcut
      | cons c cs =>
          rw [hd] at htext
          have hends := ends_scan (context = .call) c cs
          cases hl : scan (context = .call) c cs with
          | error fault =>
              rw [hl] at hends
              have hfits := Fault.fits hends (before ++ text.takeWhile isBlank)
              rw [List.append_assoc, htext] at hfits
              rw [tokensFrom_of_fault hd hl, Position.behind_after]
              exact hfits
          | ok l =>
              have hof : l.Of (c :: cs) := hends.of_ok hl
              have hcut : text.takeWhile isBlank ++ l.text ++ l.rest = text := by
                rw [List.append_assoc, hof.cut, htext]
              have hwhole : before ++ text.takeWhile isBlank ++ l.text ++ l.rest =
                  before ++ text := by
                rw [List.append_assoc before, List.append_assoc before, hcut]
              have hshorter : l.rest.length < text.length := by
                have hlength := scan_length hl
                have hdrop := length_dropWhile_le isBlank text
                rw [hd, List.length_cons] at hdrop
                omega
              have hrest := ih _ hshorter (context.next l.token)
                (before ++ text.takeWhile isBlank ++ l.text) l.rest rfl
              rw [hwhole] at hrest
              rw [tokensFrom_of_scan hd hl, Position.behind_after, Position.behind_after]
              refine hrest.bind fun ts hts => ?_
              have htoken := Cut.token hblanks (ne_nil_of_scan hl) hof.writes hts
              rw [hcut] at htoken
              exact htoken

end Lexer

end VectorQuery
