/-
# The tokens of a text

`tokenize` cuts token after token off a text, skipping blanks, and ends with the end of the query.
It ends because every token takes at least one character (`scan_length`).
-/
import VectorQuery.Query.Lexer

namespace VectorQuery

namespace Lexer

open Text (isBlank)

theorem length_dropWhile_le (p : Char → Bool) (cs : List Char) :
    (cs.dropWhile p).length ≤ cs.length :=
  (List.dropWhile_suffix p).length_le

theorem length_hyphenated_le (part : Char → Bool) (cs : List Char) :
    (hyphenated part cs).2.length ≤ cs.length := by
  induction cs with
  | nil => exact Nat.le_refl _
  | cons c cs ih =>
    rw [hyphenated]
    split
    · exact Nat.le_succ_of_le ih
    · exact Nat.le_refl _

/-- A word that starts takes its first character. -/
theorem length_hyphenated_lt {part : Char → Bool} {c : Char} (cs : List Char) (h : part c = true) :
    (hyphenated part (c :: cs)).2.length ≤ cs.length := by
  simpa [hyphenated, h] using length_hyphenated_le part cs

theorem length_stringBody_lt {d : Char} {cs value text rest : List Char}
    (h : stringBody d cs = some (value, text, rest)) : rest.length < cs.length := by
  fun_induction stringBody d cs generalizing value text rest with
  | case1 => simp at h
  | case2 => simp at h
  | case3 e cs ih =>
    obtain ⟨⟨v, t, r⟩, hs, he⟩ := Option.map_eq_some_iff.1 h
    simp only [Prod.mk.injEq] at he
    obtain ⟨-, -, rfl⟩ := he
    have := ih hs
    simp only [List.length_cons]
    omega
  | case4 c cs hc => simp_all
  | case5 c cs _ _ hc ih =>
    obtain ⟨⟨v, t, r⟩, hs, he⟩ := Option.map_eq_some_iff.1 h
    simp only [Prod.mk.injEq] at he
    obtain ⟨-, -, rfl⟩ := he
    have := ih hs
    simp only [List.length_cons]
    omega

theorem length_expectChars_le {ws cs before text rest : List Char}
    (h : expectChars before ws cs = .ok (text, rest)) : rest.length ≤ cs.length := by
  fun_induction expectChars before ws cs with
  | case1 => simp_all
  | case2 => simp at h
  | case3 _ _ _ _ ih => have := ih h; simp only [List.length_cons]; omega
  | case4 => simp at h

theorem length_scanNamedArrow_le {cs : List Char} {l : Lexeme} (h : scanNamedArrow cs = .ok l) :
    l.rest.length ≤ cs.length := by
  unfold scanNamedArrow at h
  split at h
  · simp at h
  · rename_i c cs' hcs
    split at h
    · simp only at h
      split at h
      · simp at h
      · rename_i text rest hx
        injection h with h
        subst h
        have h1 := length_expectChars_le hx
        have h2 := length_dropWhile_le isBlank (hyphenated continuesWord (c :: cs')).2
        have h3 := length_hyphenated_le continuesWord (c :: cs')
        have h4 := length_dropWhile_le isBlank cs
        rw [hcs] at h4
        simp only [List.length_cons] at *
        omega
    · simp at h

theorem length_withEquals_le (c : Char) (bare joined : Token) (cs : List Char) :
    (withEquals c bare joined cs).rest.length ≤ cs.length := by
  unfold withEquals; split <;> simp

theorem length_scanSign_le {c : Char} {cs : List Char} {l : Lexeme} (h : scanSign c cs = .ok l) :
    l.rest.length ≤ cs.length := by
  unfold scanSign at h
  split at h <;> first
    | (injection h with h; subst h; first | exact length_withEquals_le .. | exact Nat.le_refl _)
    | (split at h <;> simp_all; subst h; simp)
    | simp at h

theorem length_scanMinus_le {cs : List Char} {l : Lexeme} (h : scanMinus cs = .ok l) :
    l.rest.length ≤ cs.length := by
  unfold scanMinus at h
  split at h
  · injection h with h; subst h; simp
  · have := length_scanNamedArrow_le h; simp only [List.length_cons]; omega
  · injection h with h; subst h; simp

/-- A numeral that starts with a digit has characters. -/
theorem Numeral.chars_ne_nil {c : Char} (cs : List Char) (h : c.isDigit = true) :
    (Numeral.read (c :: cs)).chars ≠ [] := by
  simp [Numeral.read, Numeral.chars, h]

theorem length_scanNumber_le {c : Char} {cs : List Char} {l : Lexeme} (hc : c.isDigit = true)
    (h : scanNumber (c :: cs) = .ok l) : l.rest.length ≤ cs.length := by
  unfold scanNumber at h
  simp only at h
  split at h
  · simp at h
  · injection h with h
    subst h
    have := List.length_pos_iff.2 (Numeral.chars_ne_nil cs hc)
    simp only [List.length_drop, List.length_cons]
    omega

/-- Every token takes at least one character. -/
theorem scan_length {argument : Bool} {c : Char} {cs : List Char} {l : Lexeme}
    (h : scan argument c cs = .ok l) : l.rest.length ≤ cs.length := by
  unfold scan at h
  split at h
  · unfold scanString at h
    split at h
    · simp at h
    · rename_i hs
      injection h with h
      subst h
      exact Nat.le_of_lt (length_stringBody_lt hs)
  split at h
  · rename_i hc
    injection h with h
    subst h
    have : continuesArgument c = true := by
      simp only [continuesArgument, continuesWord, isWildcard, Text.isAlphanumeric] at hc ⊢
      grind
    simpa [scanArgument] using length_hyphenated_lt cs this
  split at h
  · exact length_scanNumber_le ‹_› h
  split at h
  · rename_i hc
    injection h with h
    subst h
    have : continuesWord c = true := by
      simp only [startsWord, continuesWord, Text.isAlphanumeric] at hc ⊢
      grind
    simpa [scanWord, List.dropWhile_cons, this] using length_dropWhile_le continuesWord cs
  split at h
  · exact length_scanMinus_le h
  · exact length_scanSign_le h

/-- The tokens of `text`, which starts at position `p`. -/
def tokensFrom (context : Context) (p : Position) (text : List Char) :
    Except ParseError (List Spanned) :=
  let start := p.after (text.takeWhile isBlank)
  match _ : text.dropWhile isBlank with
  | [] => .ok [⟨.endOfQuery, start⟩]
  | c :: cs =>
    match _ : scan (context = .call) c cs with
    | .error fault => .error (fault.error start)
    | .ok l => do
      let more ← tokensFrom (context.next l.token) (start.after l.text) l.rest
      .ok (⟨l.token, start⟩ :: more)
  termination_by text.length
  decreasing_by
    rename_i hd hs
    have h1 := scan_length hs
    have h2 := length_dropWhile_le isBlank text
    rw [hd] at h2
    simp only [List.length_cons] at h2
    omega

end Lexer

/-- The tokens of a text; the last one is the end of the query. -/
def tokenize (text : String) : Except ParseError (List Spanned) :=
  Lexer.tokensFrom .other .start text.toList

end VectorQuery
