/-
# Texts and the tokens they are cut into

`Spells context cs w`: from the context on, the text `cs` is cut into the tokens `w`, wherever it
stands.  There is one lemma for each kind of token; each says which text may follow the token and
which context it leaves.
-/
import Mathlib.Data.Bool.AllAny
import VectorQuery.Proofs.Grammar.Soundness
import VectorQuery.Proofs.Number.Text
import VectorQuery.Query.Printer

namespace VectorQuery.Lexer

open Text (isAlphabetic isAlphanumeric isBlank)
open VectorQuery.Parser (tokens tokens_cons)

/-! ## Characters -/

theorem toNat_of_isDigit {c : Char} (h : c.isDigit = true) : 48 ≤ c.toNat ∧ c.toNat ≤ 57 := by
  simp only [Char.isDigit, Bool.and_eq_true, decide_eq_true_eq, UInt32.le_iff_toNat_le] at h
  exact h

theorem toNat_of_isAlpha {c : Char} (h : c.isAlpha = true) : 65 ≤ c.toNat ∧ c.toNat ≤ 122 := by
  rcases Bool.or_eq_true_iff.1 h with h | h
  · have hrange : 65 ≤ c.toNat ∧ c.toNat ≤ 90 := of_decide_eq_true h
    omega
  · obtain ⟨hlow, hhigh⟩ := Bool.and_eq_true_iff.1 h
    have hlow : 97 ≤ c.toNat := of_decide_eq_true hlow
    have hhigh : c.toNat ≤ 122 := of_decide_eq_true hhigh
    omega

theorem not_startsWord_of_isDigit {c : Char} (h : c.isDigit = true) : startsWord c = false := by
  have hn := toNat_of_isDigit h
  rw [startsWord, Bool.or_eq_false_iff]
  constructor
  · rw [isAlphabetic, if_pos (by omega)]
    cases ha : c.isAlpha with
    | false => rfl
    | true =>
        have := toNat_of_isAlpha ha
        omega
  · rw [beq_eq_false_iff_ne]
    rintro rfl
    exact absurd hn (by decide)

/-- Blanks beyond ASCII are no letters. -/
theorem not_alphabetic_of_blank : ∀ n ∈ [0x85, 0xA0, 0x1680, 0x2000, 0x2001, 0x2002, 0x2003,
    0x2004, 0x2005, 0x2006, 0x2007, 0x2008, 0x2009, 0x200A, 0x2028, 0x2029, 0x202F, 0x205F, 0x3000],
    Text.alphabeticRanges.contains n = false := by
  decide +kernel

theorem not_isBlank_of_startsWord {c : Char} (h : startsWord c = true) : isBlank c = false := by
  refine Bool.eq_false_iff.2 fun hb => ?_
  simp only [isBlank, Bool.or_eq_true, Bool.and_eq_true, decide_eq_true_eq, beq_iff_eq] at hb
  rw [startsWord, Bool.or_eq_true, beq_iff_eq] at h
  rcases h with h | rfl
  · rw [isAlphabetic] at h
    split at h
    · have := toNat_of_isAlpha h
      omega
    · rw [not_alphabetic_of_blank c.toNat (by simp; omega)] at h
      cases h
  · exact absurd hb (by decide)

/-! ## Spelling -/

/-- Wherever it stands, the text is cut into the tokens. -/
def Spells (context : Context) (cs : List Char) (w : List Token) : Prop :=
  ∀ p, ∃ ts, tokensFrom context p cs = .ok ts ∧ tokens ts = w

/-- A text is cut in one way only. -/
theorem Spells.unique {context : Context} {cs : List Char} {w w' : List Token}
    (h : Spells context cs w) (h' : Spells context cs w') : w = w' := by
  obtain ⟨ts, hts, rfl⟩ := h .start
  obtain ⟨ts', hts', rfl⟩ := h' .start
  rw [hts] at hts'
  cases hts'
  rfl

theorem spells_nil (context : Context) : Spells context [] [.endOfQuery] := by
  intro p
  rw [tokensFrom]
  exact ⟨_, rfl, rfl⟩

theorem tokensFrom_of_scan {context : Context} {p : Position} {text : List Char} {c : Char}
    {cs : List Char} {l : Lexeme} (h : text.dropWhile isBlank = c :: cs)
    (hl : scan (context = .call) c cs = .ok l) :
    tokensFrom context p text =
      (tokensFrom (context.next l.token) ((p.after (text.takeWhile isBlank)).after l.text) l.rest >>=
        fun more => .ok (⟨l.token, p.after (text.takeWhile isBlank)⟩ :: more)) := by
  rw [tokensFrom]
  split
  · rename_i hd
    rw [h] at hd
    cases hd
  · rename_i hd
    rw [h] at hd
    cases hd
    split
    · rename_i hs
      rw [hl] at hs
      cases hs
    · rename_i hs
      rw [hl] at hs
      cases hs
      rfl

theorem tokensFrom_of_fault {context : Context} {p : Position} {text : List Char} {c : Char}
    {cs : List Char} {fault : Fault} (h : text.dropWhile isBlank = c :: cs)
    (hl : scan (context = .call) c cs = .error fault) :
    tokensFrom context p text = .error (fault.error (p.after (text.takeWhile isBlank))) := by
  rw [tokensFrom]
  split
  · rename_i hd
    rw [h] at hd
    cases hd
  · rename_i hd
    rw [h] at hd
    cases hd
    split
    · rename_i hs
      rw [hl] at hs
      cases hs
      rfl
    · rename_i hs
      rw [hl] at hs
      cases hs

theorem tokensFrom_of_nil (context : Context) (p : Position) {text : List Char}
    (h : text.dropWhile isBlank = []) :
    tokensFrom context p text = .ok [⟨.endOfQuery, p.after (text.takeWhile isBlank)⟩] := by
  rw [tokensFrom]
  split
  · rfl
  · rename_i hd
    rw [h] at hd
    cases hd

/-- A text that is cut into tokens is cut after more blanks. -/
theorem Spells.blank {context : Context} {cs : List Char} {w : List Token} {b : Char}
    (hb : isBlank b = true) (h : Spells context cs w) : Spells context (b :: cs) w := by
  intro p
  obtain ⟨ts, hts, hw⟩ := h (p.next b)
  have htake : (p.next b).after (cs.takeWhile isBlank) = p.after ((b :: cs).takeWhile isBlank) := by
    rw [List.takeWhile_cons_of_pos hb]
    rfl
  have hdrop : (b :: cs).dropWhile isBlank = cs.dropWhile isBlank := by
    rw [List.dropWhile_cons_of_pos hb]
  refine ⟨ts, ?_, hw⟩
  rw [← hts]
  cases hd : cs.dropWhile isBlank with
  | nil =>
      rw [tokensFrom_of_nil _ _ hd, tokensFrom_of_nil _ _ (hdrop.trans hd), htake]
  | cons c cs' =>
      cases hl : scan (context = .call) c cs' with
      | error fault =>
          rw [tokensFrom_of_fault hd hl, tokensFrom_of_fault (hdrop.trans hd) hl, htake]
      | ok l => rw [tokensFrom_of_scan hd hl, tokensFrom_of_scan (hdrop.trans hd) hl, htake]

/-- A token in front of a text that is cut into tokens. -/
theorem Spells.cons {context : Context} {c : Char} {cs : List Char} {l : Lexeme} {w : List Token}
    (hb : isBlank c = false) (hl : scan (context = .call) c cs = .ok l)
    (h : Spells (context.next l.token) l.rest w) : Spells context (c :: cs) (l.token :: w) := by
  intro p
  have hd : (c :: cs).dropWhile isBlank = c :: cs := List.dropWhile_cons_of_neg (by simp [hb])
  obtain ⟨ts, hts, htokens⟩ := h ((p.after ((c :: cs).takeWhile isBlank)).after l.text)
  rw [tokensFrom_of_scan hd hl, hts]
  exact ⟨_, rfl, by rw [tokens_cons, htokens]⟩

/-! ## Words -/

theorem takeWhile_append_stop {p : Char → Bool} {cs rest : List Char} (hcs : ∀ c ∈ cs, p c = true)
    (hrest : ∀ c ∈ rest.head?, p c = false) : (cs ++ rest).takeWhile p = cs := by
  rw [List.takeWhile_append_of_pos hcs]
  cases rest with
  | nil => simp
  | cons c rest => simp [hrest c rfl]

theorem dropWhile_append_stop {p : Char → Bool} {cs rest : List Char} (hcs : ∀ c ∈ cs, p c = true)
    (hrest : ∀ c ∈ rest.head?, p c = false) : (cs ++ rest).dropWhile p = rest := by
  rw [List.dropWhile_append_of_pos hcs]
  cases rest with
  | nil => simp
  | cons c rest => simp [hrest c rfl]

theorem continuesWord_of_startsWord {c : Char} (h : startsWord c = true) :
    continuesWord c = true := by
  simp only [startsWord, continuesWord, isAlphanumeric, Bool.or_eq_true] at h ⊢
  exact h.imp_left .inl

theorem ne_quote_of_startsWord {c : Char} (h : startsWord c = true) :
    ¬ (c = '"' ∨ c = '\x27') := by
  rintro (rfl | rfl) <;> exact absurd h (by decide)

/-- A word: a letter or an underscore, and what continues a word. -/
structure IsWord (word : List Char) : Prop where
  head : ∃ c cs, word = c :: cs ∧ startsWord c = true
  continues : ∀ c ∈ word, continuesWord c = true

theorem isWord_of_all {word : List Char} (hhead : word.head?.any startsWord = true)
    (h : word.all continuesWord = true) : IsWord word where
  head := by
    cases word with
    | nil => cases hhead
    | cons c cs => exact ⟨c, cs, rfl, hhead⟩
  continues := List.all_eq_true.1 h

theorem scan_word {c : Char} {cs rest : List Char} (h : IsWord (c :: cs))
    (hrest : ∀ d ∈ rest.head?, continuesWord d = false) :
    scan false c (cs ++ rest) = .ok ⟨.ofWord (c :: cs), c :: cs, rest⟩ := by
  obtain ⟨_, _, he, hc⟩ := h.head
  cases he
  have hdigit : c.isDigit = false := by
    refine Bool.eq_false_iff.2 fun hd => ?_
    rw [not_startsWord_of_isDigit hd] at hc
    cases hc
  have htake := takeWhile_append_stop h.continues hrest
  have hdrop := dropWhile_append_stop h.continues hrest
  rw [List.cons_append] at htake hdrop
  rw [scan, if_neg (ne_quote_of_startsWord hc), Bool.false_and, if_neg Bool.false_ne_true, hdigit,
    if_neg Bool.false_ne_true, if_pos hc, scanWord, htake, hdrop]

/-- A word that no character continues. -/
theorem Spells.word {context : Context} {word rest : List Char} {w : List Token}
    (hcontext : context ≠ .call) (h : IsWord word)
    (hrest : ∀ d ∈ rest.head?, continuesWord d = false)
    (hw : Spells (context.next (.ofWord word)) rest w) :
    Spells context (word ++ rest) (.ofWord word :: w) := by
  obtain ⟨c, cs, rfl, hc⟩ := h.head
  refine Spells.cons (not_isBlank_of_startsWord hc) (l := ⟨.ofWord (c :: cs), c :: cs, rest⟩) ?_ hw
  rw [decide_eq_false hcontext]
  exact scan_word h hrest

/-! ## Signs -/

/-- The characters of signs other than the hyphen. -/
def signs : List Char := ['.', ',', '(', ')', '~', '+', '<', '>', '=', '!', '*', '?']

theorem class_of_sign : ∀ c ∈ signs, isBlank c = false ∧ ¬ (c = '"' ∨ c = '\x27') ∧
    (isAlphabetic c || c == '_') = false ∧ c.isDigit = false ∧ startsWord c = false ∧ c ≠ '-' :=
  List.all_iff_forall_prop.1 (by decide)

/-- A sign; behind `name(` the wildcards are no signs. -/
theorem Spells.sign {context : Context} {c : Char} {cs : List Char} {l : Lexeme} {w : List Token}
    (hc : c ∈ signs) (hcontext : context = .call → isWildcard c = false)
    (hl : scanSign c cs = .ok l) (h : Spells (context.next l.token) l.rest w) :
    Spells context (c :: cs) (l.token :: w) := by
  obtain ⟨hb, hq, ha, hd, hs, hm⟩ := class_of_sign c hc
  refine Spells.cons hb ?_ h
  have hargument : (decide (context = .call) && (isAlphabetic c || c == '_' || isWildcard c)) = false := by
    rw [ha, Bool.false_or]
    by_cases hcall : context = .call
    · simp [hcontext hcall]
    · simp [hcall]
  rw [scan, if_neg hq, hargument, if_neg Bool.false_ne_true, hd, if_neg Bool.false_ne_true, hs,
    if_neg Bool.false_ne_true, if_neg hm]
  exact hl

/-- The sign of one character that no equals sign continues. -/
def plainSign? : Char → Option Token
  | '.' => some .dot
  | ',' => some .comma
  | '(' => some .leftParen
  | ')' => some .rightParen
  | '~' => some .tilde
  | '+' => some .plus
  | '*' => some .star
  | '?' => some .question
  | _ => none

theorem Spells.plain {context : Context} {c : Char} {t : Token} {cs : List Char} {w : List Token}
    (hc : plainSign? c = some t) (hcontext : context = .call → isWildcard c = false)
    (h : Spells (context.next t) cs w) : Spells context (c :: cs) (t :: w) := by
  have hmem : c ∈ signs ∧ scanSign c cs = .ok ⟨t, [c], cs⟩ := by
    unfold plainSign? at hc
    split at hc <;> cases hc <;> exact ⟨by decide, rfl⟩
  exact Spells.sign hmem.1 hcontext hmem.2 h

theorem withEquals_of_head_ne {cs : List Char} (hcs : cs.head? ≠ some '=') (c : Char)
    (bare joined : Token) : withEquals c bare joined cs = ⟨bare, [c], cs⟩ := by
  unfold withEquals
  split
  · exact absurd rfl hcs
  · rfl

theorem scanSign_operator (op : CompareOp) {cs : List Char} (hcs : cs.head? ≠ some '=') :
    ∃ c more, op.symbol.toList = c :: more ∧ c ∈ signs ∧ isWildcard c = false ∧
      scanSign c (more ++ cs) = .ok ⟨op.token, c :: more, cs⟩ := by
  cases op with
  | lt =>
      refine ⟨'<', [], rfl, by decide, rfl, ?_⟩
      exact congrArg Except.ok (withEquals_of_head_ne hcs ..)
  | le => exact ⟨'<', ['='], rfl, by decide, rfl, rfl⟩
  | gt =>
      refine ⟨'>', [], rfl, by decide, rfl, ?_⟩
      exact congrArg Except.ok (withEquals_of_head_ne hcs ..)
  | ge => exact ⟨'>', ['='], rfl, by decide, rfl, rfl⟩
  | eq => exact ⟨'=', ['='], rfl, by decide, rfl, rfl⟩
  | ne => exact ⟨'!', ['='], rfl, by decide, rfl, rfl⟩

/-- The text of an operator; an equals sign may not follow. -/
theorem Spells.operator {context : Context} {op : CompareOp} {cs : List Char} {w : List Token}
    (hcs : cs.head? ≠ some '=') (h : Spells .other cs w) :
    Spells context (op.symbol.toList ++ cs) (op.token :: w) := by
  have hnext : context.next op.token = .other := by
    cases op <;> cases context <;> rfl
  obtain ⟨c, more, hsymbol, hc, hwild, hl⟩ := scanSign_operator op hcs
  rw [hsymbol]
  exact Spells.sign hc (fun _ => hwild) hl (hnext ▸ h)

/-- The equals sign of a parameter. -/
theorem Spells.assign {context : Context} {cs : List Char} {w : List Token}
    (hcs : cs.head? ≠ some '=') (h : Spells .other cs w) :
    Spells context ('=' :: cs) (.assign :: w) := by
  have hnext : context.next .assign = .other := by
    cases context <;> rfl
  exact Spells.sign (l := ⟨.assign, ['='], cs⟩) (by decide) (fun _ => rfl)
    (congrArg Except.ok (withEquals_of_head_ne hcs ..)) (hnext ▸ h)

/-! ## Hyphens -/

theorem scan_minus (argument : Bool) (cs : List Char) : scan argument '-' cs = scanMinus cs := by
  cases argument <;> rfl

/-- A minus sign that starts no arrow. -/
theorem Spells.minus {context : Context} {cs : List Char} {w : List Token}
    (hcs : ∀ c ∈ cs.head?, c ≠ '>' ∧ c ≠ '[') (h : Spells .other cs w) :
    Spells context ('-' :: cs) (.minus :: w) := by
  have hnext : context.next .minus = .other := by
    cases context <;> rfl
  refine Spells.cons (l := ⟨.minus, ['-'], cs⟩) (by decide) ?_ (hnext ▸ h)
  rw [scan_minus]
  unfold scanMinus
  split
  · exact absurd rfl (hcs '>' rfl).1
  · exact absurd rfl (hcs '[' rfl).2
  · rfl

theorem Spells.arrow {context : Context} {cs : List Char} {w : List Token}
    (h : Spells .other cs w) : Spells context ('-' :: '>' :: cs) (.arrow :: w) := by
  have hnext : context.next .arrow = .other := by
    cases context <;> rfl
  exact Spells.cons (l := ⟨.arrow, ['-', '>'], cs⟩) (by decide) (scan_minus _ _) (hnext ▸ h)

/-- What continues a word, and hyphens before such a character. -/
def Hyphened : List Char → Prop
  | [] => True
  | c :: cs => (continuesWord c = true ∨ c = '-' ∧ ∃ d ∈ cs.head?, continuesWord d = true) ∧ Hyphened cs

/-- The name of a relation: a letter or an underscore, and what continues a word with hyphens
between. -/
structure IsRelation (name : List Char) : Prop where
  head : ∃ c cs, name = c :: cs ∧ startsWord c = true
  hyphened : Hyphened name

/-- Every character is in `part`, or is a hyphen before such a character. -/
def Joins (part : Char → Bool) : List Char → Prop
  | [] => True
  | c :: cs => (part c = true ∨ c = '-' ∧ ∃ d ∈ cs.head?, part d = true) ∧ Joins part cs

theorem Hyphened.joins {cs : List Char} (h : Hyphened cs) : Joins continuesWord cs := by
  induction cs with
  | nil => trivial
  | cons c cs ih => exact ⟨h.1, ih h.2⟩

theorem hyphenated_append {part : Char → Bool} {cs : List Char} (rest : List Char)
    (h : Joins part cs) (hrest : ∀ d ∈ rest.head?, part d = false ∧ d ≠ '-') :
    hyphenated part (cs ++ rest) = (cs, rest) := by
  induction cs with
  | nil =>
      cases rest with
      | nil => rfl
      | cons d rest =>
          obtain ⟨hd, hm⟩ := hrest d rfl
          simp [hyphenated, hd, hm]
  | cons c cs ih =>
      obtain ⟨hc, hcs⟩ := h
      have hpart : (part c || (c == '-' && (cs ++ rest).head?.any part)) = true := by
        rcases hc with hc | ⟨rfl, d, hd, hw⟩
        · simp [hc]
        · cases cs with
          | nil => cases hd
          | cons e cs =>
              cases hd
              simp [hw]
      rw [List.cons_append, hyphenated, if_pos hpart, ih hcs]

/-- An arrow that names a relation. -/
theorem Spells.namedArrow (context : Context) {name cs : List Char} {w : List Token}
    (hname : IsRelation name) (h : Spells .other cs w) :
    Spells context ('-' :: '[' :: (name ++ ']' :: '-' :: '>' :: cs))
      (.namedArrow (.ofList name) :: w) := by
  obtain ⟨c, name', rfl, hc⟩ := hname.head
  have hb := not_isBlank_of_startsWord hc
  have hscan : scanMinus ('[' :: (c :: name' ++ ']' :: '-' :: '>' :: cs))
      = .ok ⟨.namedArrow (.ofList (c :: name')), '-' :: '[' :: (c :: name') ++ [']', '-', '>'], cs⟩ := by
    have hhyphen := hyphenated_append (']' :: '-' :: '>' :: cs) hname.hyphened.joins
      (by rintro d ⟨⟩; decide)
    rw [List.cons_append] at hhyphen ⊢
    have htake : (c :: (name' ++ ']' :: '-' :: '>' :: cs)).takeWhile isBlank = [] := by
      simp [hb]
    have hdrop : (c :: (name' ++ ']' :: '-' :: '>' :: cs)).dropWhile isBlank
        = c :: (name' ++ ']' :: '-' :: '>' :: cs) := by
      simp [hb]
    rw [scanMinus, scanNamedArrow, hdrop, htake]
    dsimp only
    rw [if_pos hc, hhyphen]
    have hbracket : isBlank ']' = false := by decide
    simp [hbracket, expectChars]
  have hnext : context.next (.namedArrow (.ofList (c :: name'))) = .other := by
    cases context <;> rfl
  exact Spells.cons (by decide) ((scan_minus _ _).trans hscan) (hnext ▸ h)

/-! ## Strings -/

/-- A quoted character is a backslash with what stands for it, or itself. -/
theorem quoteChar_cases (c : Char) :
    (∃ e, quoteChar c = ['\\', e] ∧ unescape e = c) ∨
      (quoteChar c = [c] ∧ c ≠ '"' ∧ c ≠ '\\') := by
  unfold quoteChar
  split
  · exact .inl ⟨'"', rfl, rfl⟩
  · exact .inl ⟨'\\', rfl, rfl⟩
  · exact .inl ⟨'n', rfl, rfl⟩
  · exact .inl ⟨'t', rfl, rfl⟩
  · rename_i hquote hslash _ _
    exact .inr ⟨rfl, hquote, hslash⟩

theorem stringBody_cons {delimiter c : Char} (cs : List Char) (hd : c ≠ delimiter)
    (hs : c ≠ '\\') : stringBody delimiter (c :: cs) =
      (stringBody delimiter cs).map fun (value, text, rest) => (c :: value, c :: text, rest) := by
  rw [stringBody.eq_def]
  split
  · rename_i h
    cases h
  · rename_i h
    exact absurd (List.cons.inj h).1 hs
  · rename_i h
    exact absurd (List.cons.inj h).1 hs
  · rename_i h
    cases h
    rw [if_neg hd]

/-- Quoted characters before the closing quote are read as themselves. -/
theorem stringBody_quote (cs rest : List Char) :
    stringBody '"' (cs.flatMap quoteChar ++ '"' :: rest)
      = some (cs, cs.flatMap quoteChar ++ ['"'], rest) := by
  induction cs with
  | nil => rfl
  | cons c cs ih =>
      rw [List.flatMap_cons, List.append_assoc, List.append_assoc]
      rcases quoteChar_cases c with ⟨e, hq, he⟩ | ⟨hq, hquote, hslash⟩
      · rw [hq]
        change stringBody '"' ('\\' :: e :: (cs.flatMap quoteChar ++ '"' :: rest)) = _
        rw [stringBody, ih, Option.map_some, he]
        rfl
      · rw [hq, List.singleton_append, stringBody_cons _ hquote hslash, ih]
        rfl

/-- A quoted text. -/
theorem Spells.quote {context : Context} {s : String} {cs : List Char} {w : List Token}
    (h : Spells .other cs w) : Spells context (quote s ++ cs) (.string s :: w) := by
  have hnext : context.next (.string s) = .other := by
    cases context <;> rfl
  have hscan : scan (context = .call) '"' (s.toList.flatMap quoteChar ++ '"' :: cs)
      = .ok ⟨.string s, '"' :: (s.toList.flatMap quoteChar ++ ['"']), cs⟩ := by
    rw [scan, if_pos (.inl rfl), scanString, stringBody_quote]
    dsimp only
    rw [String.ofList_toList]
  have htext : VectorQuery.quote s ++ cs = '"' :: (s.toList.flatMap quoteChar ++ '"' :: cs) := by
    simp [VectorQuery.quote]
  rw [htext]
  exact Spells.cons (by decide) hscan (hnext ▸ h)

/-! ## Numbers -/

/-- What may follow a number or a query: a blank, a closing parenthesis or a comma. -/
def Closes (rest : List Char) : Prop := ∀ c ∈ rest.head?, c = ' ' ∨ c = ')' ∨ c = ','

theorem not_of_closes {p : Char → Bool} {rest : List Char} (h : Closes rest)
    (hp : p ' ' = false ∧ p ')' = false ∧ p ',' = false) : ∀ c ∈ rest.head?, p c = false := by
  intro c hc
  rcases h c hc with rfl | rfl | rfl
  · exact hp.1
  · exact hp.2.1
  · exact hp.2.2

theorem fractionOf_of_closes {rest : List Char} (h : Closes rest) : fractionOf rest = [] := by
  unfold fractionOf
  split
  · exact absurd (h '.' rfl) (by decide)
  · rfl

theorem exponentOf_of_closes {rest : List Char} (h : Closes rest) : exponentOf rest = ([], []) := by
  unfold exponentOf
  split
  · rename_i e s cs
    rw [if_neg]
    rintro (rfl | rfl)
    · exact absurd (h 'e' rfl) (by decide)
    · exact absurd (h 'E' rfl) (by decide)
  · rfl

/-- A plain numeral is read off the front of a text as it is. -/
theorem Numeral.read_append {n : Numeral} {rest : List Char} (hn : n.Plain) (h : Closes rest) :
    Numeral.read (n.chars ++ rest) = n := by
  obtain ⟨whole, fraction, mark, exponent⟩ := n
  obtain ⟨-, hwhole, hfraction, hmark, hexponent⟩ := hn
  dsimp only at hwhole hfraction hmark hexponent
  subst hmark hexponent
  have hdigit := not_of_closes (p := Char.isDigit) h (by decide)
  cases fraction with
  | nil =>
      have htake := takeWhile_append_stop hwhole hdigit
      have hdrop := dropWhile_append_stop hwhole hdigit
      simp [Numeral.chars, Numeral.read, htake, hdrop, fractionOf_of_closes h,
        exponentOf_of_closes h]
  | cons d fraction =>
      have hpoint : ∀ c ∈ ('.' :: (d :: fraction) ++ rest).head?, c.isDigit = false := by
        rintro c ⟨⟩
        rfl
      have htake := takeWhile_append_stop hwhole hpoint
      have hdrop := dropWhile_append_stop hwhole hpoint
      have hdigits : fractionOf ('.' :: (d :: fraction) ++ rest) = d :: fraction :=
        takeWhile_append_stop hfraction hdigit
      have hrest : ('.' :: (d :: fraction) ++ rest).drop ((d :: fraction).length + 1) = rest := by
        simp
      have hchars : Numeral.chars ⟨whole, d :: fraction, [], []⟩ ++ rest
          = whole ++ ('.' :: (d :: fraction) ++ rest) := by
        simp [Numeral.chars]
      rw [hchars, Numeral.read, htake, hdrop, hdigits]
      simp only [List.isEmpty_cons, Bool.false_eq_true, if_false]
      rw [hrest, exponentOf_of_closes h]
      rfl

/-- What starts with a digit is read as a number, in every context. -/
theorem scan_digit {argument : Bool} {c : Char} (hc : c.isDigit = true) (cs : List Char) :
    scan argument c cs = scanNumber (c :: cs) := by
  have hword := not_startsWord_of_isDigit hc
  have hquote : ¬ (c = '"' ∨ c = '\x27') := by
    rintro (rfl | rfl) <;> exact absurd hc (by decide)
  have hwild : isWildcard c = false := by
    rw [isWildcard, Bool.or_eq_false_iff, beq_eq_false_iff_ne, beq_eq_false_iff_ne]
    constructor <;> rintro rfl <;> exact absurd hc (by decide)
  rw [startsWord] at hword
  rw [scan, if_neg hquote, hword, hwild, Bool.or_false, Bool.and_false, if_neg Bool.false_ne_true,
    if_pos hc]

/-- A plain numeral before a text that closes it. -/
theorem Spells.numeral {context : Context} {n : Numeral} {rest : List Char} {w : List Token}
    (hn : n.Plain) (hrest : Closes rest) (h : Spells .other rest w) :
    Spells context (n.chars ++ rest) (.number n.value :: w) := by
  obtain ⟨c, cs, hchars, hc⟩ : ∃ c cs, n.chars = c :: cs ∧ c.isDigit = true := by
    have hne := hn.whole_ne_nil
    have hdigit := hn.isDigit_whole
    cases hw : n.whole with
    | nil => exact absurd hw hne
    | cons c whole =>
        rw [hw] at hdigit
        exact ⟨c, _, by rw [Numeral.chars, hw]; rfl, hdigit c List.mem_cons_self⟩
  have hblank : isBlank c = false := by
    have := toNat_of_isDigit hc
    refine Bool.eq_false_iff.2 fun hb => ?_
    simp only [isBlank, Bool.or_eq_true, Bool.and_eq_true, decide_eq_true_eq, beq_iff_eq] at hb
    omega
  have hnext : context.next (.number n.value) = .other := by
    cases context <;> rfl
  have hscan : scan (context = .call) c (cs ++ rest) = .ok ⟨.number n.value, n.chars, rest⟩ := by
    have hread := Numeral.read_append hn hrest
    have hword : rest.head?.any startsWord = false := by
      have := not_of_closes (p := startsWord) hrest (by decide)
      cases hr : rest.head? with
      | none => rfl
      | some d => exact this d hr
    rw [scan_digit hc, ← List.cons_append, ← hchars, scanNumber, hread, List.drop_left, hword]
    rfl
  rw [hchars]
  exact Spells.cons hblank hscan (hnext ▸ h)

end VectorQuery.Lexer
