/-
# Lookups with names in quotes and without

Right behind `name(` a word is read as an argument: it may hold hyphens and wildcards, and where it
has a wildcard it is no keyword.  The only arguments that do not stand for themselves are keywords
and the lone question mark, so with these set aside a lookup says the same with its name in quotes
and without (`parse_bare_quoted`).
-/
import VectorQuery.Proofs.Canonical.Parsing

namespace VectorQuery

namespace Lexer

/-! ## Arguments -/

/-- A word of letters, digits, underscores, hyphens and wildcards.  It starts with a letter, an
underscore or a wildcard, and something other than a hyphen follows each hyphen in it. -/
structure IsArgument (word : List Char) : Prop where
  head : ∃ c cs, word = c :: cs ∧ (startsWord c = true ∨ isWildcard c = true)
  chars : ∀ c ∈ word, continuesArgument c = true ∨ c = '-'
  hyphens : ∀ before after, word = before ++ '-' :: after →
    ∃ d ∈ after.head?, continuesArgument d = true

theorem joins_of_hyphens {part : Char → Bool} {cs : List Char}
    (hchars : ∀ c ∈ cs, part c = true ∨ c = '-')
    (hhyphens : ∀ before after, cs = before ++ '-' :: after → ∃ d ∈ after.head?, part d = true) :
    Joins part cs := by
  induction cs with
  | nil => trivial
  | cons c cs ih =>
      refine ⟨?_, ih (fun d hd => hchars d (List.mem_cons_of_mem _ hd)) fun before after h => ?_⟩
      · refine (hchars c List.mem_cons_self).imp_right fun hc => ⟨hc, ?_⟩
        exact hhyphens [] cs (by rw [hc]; rfl)
      · exact hhyphens (c :: before) after (by rw [h]; rfl)

theorem eq_of_isWildcard {c : Char} (h : isWildcard c = true) : c = '*' ∨ c = '?' := by
  simpa [isWildcard] using h

/-- The token of an argument that is no keyword and no lone question mark. -/
def argumentToken (word : List Char) : Token :=
  if word = ['*'] then .star else .identifier (.ofList word)

theorem scanArgument_append {word rest : List Char} (hw : IsArgument word) (hlone : word ≠ ['?'])
    (hkeyword : Token.keyword? word = none)
    (hrest : ∀ d ∈ rest.head?, continuesArgument d = false ∧ d ≠ '-') :
    scanArgument (word ++ rest) = ⟨argumentToken word, word, rest⟩ := by
  rw [scanArgument, hyphenated_append rest (joins_of_hyphens hw.chars hw.hyphens) hrest]
  dsimp only
  rw [if_neg hlone, Token.ofWord, hkeyword, Option.getD_none, ite_self]
  rfl

/-- An argument without quotes. -/
theorem names_argument {word : List Char} (hw : IsArgument word) (hlone : word ≠ ['?'])
    (hkeyword : Token.keyword? word = none) : Names word (argumentToken word) := by
  intro rest w hrest h
  have hstop : ∀ d ∈ rest.head?, continuesArgument d = false ∧ d ≠ '-' := by
    intro d hd
    rcases hrest d hd with rfl | rfl <;> decide
  have hscanned := scanArgument_append hw hlone hkeyword hstop
  obtain ⟨c, cs, rfl, hc⟩ := hw.head
  have hblank : Text.isBlank c = false := by
    rcases hc with hc | hc
    · exact not_isBlank_of_startsWord hc
    · rcases eq_of_isWildcard hc with rfl | rfl <;> decide
  have hquote : ¬ (c = '"' ∨ c = '\x27') := by
    rcases hc with hc | hc
    · exact ne_quote_of_startsWord hc
    · rcases eq_of_isWildcard hc with rfl | rfl <;> decide
  have hstarts : (Text.isAlphabetic c || c == '_' || isWildcard c) = true :=
    Bool.or_eq_true_iff.2 hc
  have hscan : scan (Context.call = .call) c (cs ++ rest)
      = .ok ⟨argumentToken (c :: cs), c :: cs, rest⟩ := by
    rw [scan, if_neg hquote, decide_eq_true rfl, Bool.true_and, if_pos hstarts]
    exact congrArg Except.ok hscanned
  refine Spells.cons hblank hscan (h _ ?_)
  dsimp only
  unfold argumentToken
  split
  · intro hcall
    cases hcall
  · intro hcall
    cases hcall

/-- An argument has no character that is written in another way between quotes. -/
theorem IsArgument.quoteChar_eq {word : List Char} (hw : IsArgument word) :
    ∀ c ∈ word, quoteChar c = [c] := by
  intro c hc
  unfold quoteChar
  split
  · exact absurd (hw.chars _ hc) (by decide)
  · exact absurd (hw.chars _ hc) (by decide)
  · exact absurd (hw.chars _ hc) (by decide)
  · exact absurd (hw.chars _ hc) (by decide)
  · rfl

end Lexer

/-! ## Lookups -/

theorem lookupName_argumentToken (word : List Char) :
    Grammar.LookupName (Lexer.argumentToken word) (.ofList word) := by
  unfold Lexer.argumentToken
  split
  · rename_i h
    subst h
    exact .star
  · exact .identifier _

/-- A lookup is read whichever way its name is written. -/
theorem parse_lookup {entityType s text : String} {name : List Char} {token : Token} (fuzzy : Bool)
    (ht : IsIdentifier entityType) (hname : Lexer.Names name token)
    (htoken : Grammar.LookupName token s)
    (htext : text.toList =
      entityType.toList ++ '(' :: (name ++ if fuzzy then ['~', ')'] else [')'])) :
    Query.parse text = .ok (.lookup entityType s fuzzy) := by
  refine parse_of_spells ?_ (derives_whole (.lookup _ fuzzy htoken))
  have hstart : Lexer.Context.other ≠ .call := by decide
  have hspells := Lexer.spells_lookup hstart ht hname fuzzy fun context _ =>
    Lexer.spells_nil context
  rw [List.append_nil] at hspells
  rw [htext]
  exact hspells

/-- **Names without quotes.** Every word of letters, digits, underscores, hyphens and wildcards that
is no keyword and no lone question mark is the same name with quotes around it and without. -/
theorem parse_bare_quoted {t w : String} (ht : IsIdentifier t) (hw : Lexer.IsArgument w.toList)
    (hlone : w ≠ "?") (hkeyword : Token.keyword? w.toList = none) :
    (Query.parse (t ++ "(" ++ w ++ ")") = .ok (.lookup t w false) ∧
      Query.parse (t ++ "(\"" ++ w ++ "\")") = .ok (.lookup t w false)) ∧
    Query.parse (t ++ "(" ++ w ++ "~)") = .ok (.lookup t w true) ∧
      Query.parse (t ++ "(\"" ++ w ++ "\"~)") = .ok (.lookup t w true) := by
  have hlone' : w.toList ≠ ['?'] := fun h => hlone (String.toList_inj.1 h)
  have hbare := Lexer.names_argument hw hlone' hkeyword
  have hname := lookupName_argumentToken w.toList
  rw [String.ofList_toList] at hname
  have hquote : quote w = '"' :: (w.toList ++ ['"']) := by
    rw [quote, List.flatMap_congr hw.quoteChar_eq, List.flatMap_singleton']
    rfl
  have hquoted := Lexer.names_quote w
  rw [hquote] at hquoted
  refine ⟨⟨parse_lookup false ht hbare hname ?_, parse_lookup false ht hquoted (.string w) ?_⟩,
    parse_lookup true ht hbare hname ?_, parse_lookup true ht hquoted (.string w) ?_⟩ <;> simp

/-- A pattern with a hyphen and two kinds of wildcards, as a fuzzy lookup. -/
theorem parse_bare_quoted_pattern :
    IsIdentifier "feature" ∧ Lexer.IsArgument "*-cache_2?".toList ∧ "*-cache_2?" ≠ "?" ∧
      Token.keyword? "*-cache_2?".toList = none ∧
      Query.parse "feature(*-cache_2?~)" = .ok (.lookup "feature" "*-cache_2?" true) ∧
        Query.parse "feature(\"*-cache_2?\"~)" = .ok (.lookup "feature" "*-cache_2?" true) := by
  have ht : IsIdentifier "feature" := ⟨Lexer.isWord_of_all (by decide) (by decide), by decide⟩
  have hw : Lexer.IsArgument "*-cache_2?".toList := by
    have hchars : "*-cache_2?".toList.all (fun c => Lexer.continuesArgument c || c == '-') = true := by
      decide
    refine ⟨⟨'*', _, rfl, .inr (by decide)⟩, by simpa using hchars, ?_⟩
    intro before after h
    rcases before with _ | ⟨_, _ | ⟨_, before⟩⟩
    · exact absurd (List.cons.inj h).1 (by decide)
    · obtain ⟨_, rfl⟩ : _ ∧ "cache_2?".toList = after := by simpa using h
      exact ⟨'c', rfl, by decide⟩
    · -- Behind the first hyphen there is none.
      have hrest : "cache_2?".toList = before ++ '-' :: after := (by simpa using h : _ ∧ _ ∧ _).2.2
      have hmem : '-' ∈ "cache_2?".toList := by rw [hrest]; simp
      exact absurd hmem (by decide)
  have hkeyword : Token.keyword? "*-cache_2?".toList = none := by decide
  exact ⟨ht, hw, by decide, hkeyword, (parse_bare_quoted ht hw (by decide) hkeyword).2⟩

end VectorQuery
