/-
# What an input line says

A line that is neither empty nor a comment is remembered, without the blanks at its ends.  Its first
word may name a command, and then the rest of it is the command's argument.  `Orders` and
`SetsLimit` say so of the text of a line, and the reading of commands agrees with them
(`ofLine_eq_limit_iff`, `ofLine_eq_load_iff`, `orders_of_ofLine_save`).
-/
import VectorQuery.Proofs.Failure
import VectorQuery.Proofs.Text
import VectorQuery.Session.Basic

namespace VectorQuery

namespace Command

/-- The commands that the first word of a line and what stands after it may give; of an inquiry
only that it is one. -/
inductive Given (word rest : String) : Command → Prop
  | inquire (i : Inquiry) : Given word rest (.inquire i)
  | exit : Given word rest .exit
  | limit {most : Option Nat} :
      word = "limit" → limitOf rest = .ok most → Given word rest (.limit most)
  | save {path : String} :
      word = "save" → argument word rest = .ok path → Given word rest (.save path)
  | load {path : String} :
      word = "load" → argument word rest = .ok path → Given word rest (.load path)

theorem given_of_ofLine {line : String} {c : Command} (h : ofLine line = .ok c) :
    Given (.ofList (split line.toList).1) (.ofList (split line.toList).2) c := by
  unfold ofLine at h
  dsimp only at h
  split at h
  case h_14 hword =>
    obtain ⟨most, hmost, hc⟩ := ok_of_bind h
    cases hc
    exact .limit hword hmost
  case h_15 hword =>
    obtain ⟨path, hpath, hc⟩ := ok_of_bind h
    cases hc
    exact .save hword hpath
  case h_16 hword =>
    obtain ⟨path, hpath, hc⟩ := ok_of_bind h
    cases hc
    exact .load hword hpath
  case h_3 | h_4 =>
    cases h
    exact .exit
  case h_5 | h_6 | h_7 | h_8 | h_9 | h_10 =>
    obtain ⟨_, _, hc⟩ := ok_of_bind h
    cases hc
    exact .inquire _
  all_goals
    cases h
    exact .inquire _

theorem argument_eq_ok_iff {word rest text : String} :
    argument word rest = .ok text ↔ rest = text ∧ text ≠ "" := by
  unfold argument
  split
  · rename_i hempty
    rw [String.isEmpty_iff] at hempty
    exact ⟨nofun, fun ⟨hrest, htext⟩ => absurd (hrest.symm.trans hempty) htext⟩
  · rename_i hne
    rw [String.isEmpty_iff] at hne
    rw [Except.ok.injEq]
    exact ⟨fun h => ⟨h, h ▸ hne⟩, And.left⟩

theorem ofLine_limit {line : String} {rest : List Char}
    (h : split line.toList = ("limit".toList, rest)) :
    ofLine line = (limitOf (.ofList rest)).map .limit := by
  rw [ofLine, h]
  rfl

theorem ofLine_load {line : String} {rest : List Char}
    (h : split line.toList = ("load".toList, rest)) :
    ofLine line = (argument "load" (.ofList rest)).map .load := by
  rw [ofLine, h]
  rfl

end Command

namespace Session

/-- What a session remembers of an input line: the line without the blanks at its ends, unless
that is empty or a comment. -/
def recorded? (line : String) : Option String :=
  let trimmed := Text.trimBlanks line.toList
  if trimmed = [] ∨ trimmed.head? = some '#' then none else some (.ofList trimmed)

theorem recorded?_eq (line : String) : recorded? line =
    if isInput (Text.trimBlanks line.toList) then some (.ofList (Text.trimBlanks line.toList))
    else none := by
  unfold recorded? isInput
  cases Text.trimBlanks line.toList with
  | nil => rfl
  | cons c cs => by_cases h : c = '#' <;> simp [h]

theorem toList_of_recorded? {line input : String} (h : recorded? line = some input) :
    input.toList = Text.trimBlanks line.toList := by
  rw [recorded?_eq, Option.ite_none_right_eq_some, Option.some.injEq] at h
  rw [← h.2, String.toList_ofList]

/-! ## Orders -/

/-- A line, without the blanks at its ends, is a word, a gap of blanks, and an argument. -/
def Orders (line word argument : String) : Prop :=
  ∃ gap, Text.trimBlanks line.toList = word.toList ++ (gap ++ argument.toList) ∧
    gap ≠ [] ∧ (∀ c ∈ gap, Text.isBlank c = true) ∧
    ∃ c cs, argument.toList = c :: cs ∧ Text.isBlank c = false

/-- An argument writes a number below 2⁶⁴ in decimal digits, perhaps after a plus. -/
def Writes (argument : String) (n : Nat) : Prop :=
  ∃ digits, (argument.toList = digits ∨ argument.toList = '+' :: digits) ∧ digits ≠ [] ∧
    (∀ c ∈ digits, c.isDigit = true) ∧ n = Text.decimalValue digits ∧ n < 2 ^ 64

/-- A line sets the limit to a number that it writes, or lifts it. -/
def SetsLimit (line : String) (limit : Option Nat) : Prop :=
  ∃ argument, Orders line "limit" argument ∧
    ((argument = "none" ∨ argument = "off") ∧ limit = none ∨
      ∃ n, Writes argument n ∧ limit = some n)

theorem recorded?_of_orders {line word argument : String} (h : Orders line word argument)
    {c : Char} {cs : List Char} (hword : word.toList = c :: cs) (hc : c ≠ '#') :
    recorded? line = some (.ofList (Text.trimBlanks line.toList)) := by
  obtain ⟨gap, hline, -⟩ := h
  rw [hword] at hline
  rw [recorded?_eq, hline]
  exact if_pos (by simp [isInput, hc])

theorem split_of_orders {line word argument : String} (h : Orders line word argument)
    (hword : Text.IsSolid word.toList) :
    Command.split (Text.trimBlanks line.toList) = (word.toList, argument.toList) := by
  obtain ⟨gap, hline, hne, hgap, c, cs, hargument, hc⟩ := h
  have htrimmed := Text.isTrimmed_trimBlanks line.toList
  obtain ⟨b, bs, rfl⟩ := List.exists_cons_of_ne_nil hne
  have hb : Text.isBlank b = true := hgap b List.mem_cons_self
  have hword' : ∀ c ∈ word.toList, (!Text.isBlank c) = true := by
    intro c hc
    rw [hword c hc]
    rfl
  have hargument' : Text.IsTrimmed argument.toList := by
    constructor
    · intro d hd
      rw [hargument] at hd
      cases hd
      exact hc
    · intro d hd
      refine htrimmed.last d ?_
      rw [hline, List.getLast?_append, List.getLast?_append, hd]
      rfl
  rw [Command.split, hline, List.takeWhile_append_of_pos hword', List.dropWhile_append_of_pos hword',
    List.cons_append, List.takeWhile_cons_of_neg (by rw [hb]; decide),
    List.dropWhile_cons_of_neg (by rw [hb]; decide), List.append_nil,
    ← List.cons_append, Text.trimBlanks_append hgap, Text.trimBlanks_of_isTrimmed hargument']

theorem orders_of_split {line word argument : String}
    (h : Command.split (Text.trimBlanks line.toList) = (word.toList, argument.toList))
    (hargument : argument.toList ≠ []) : Orders line word argument := by
  have htrimmed := Text.isTrimmed_trimBlanks line.toList
  have hcut := List.takeWhile_append_dropWhile (p := (!Text.isBlank ·))
    (l := Text.trimBlanks line.toList)
  have hgap := List.head?_dropWhile_not (!Text.isBlank ·) (Text.trimBlanks line.toList)
  obtain ⟨hword, hrest⟩ := Prod.mk.inj h
  rw [hword] at hcut
  generalize (Text.trimBlanks line.toList).dropWhile (!Text.isBlank ·) = rest at hcut hrest hgap
  have hne : rest ≠ [] := by
    rintro rfl
    exact hargument hrest.symm
  have hlast : ∀ c ∈ rest.getLast?, Text.isBlank c = false := by
    intro c hc
    refine htrimmed.last c ?_
    rw [← hcut, List.getLast?_append, hc]
    rfl
  have hsplit := Text.eq_append_trimBlanks hlast
  rw [hrest] at hsplit
  refine ⟨rest.takeWhile Text.isBlank, ?_, ?_, fun c hc => List.mem_takeWhile_imp hc, ?_⟩
  · rw [← hsplit, hcut]
  · obtain ⟨b, bs, rfl⟩ := List.exists_cons_of_ne_nil hne
    have hb : Text.isBlank b = true := by simpa using hgap
    rw [List.takeWhile_cons_of_pos hb]
    exact List.cons_ne_nil _ _
  · obtain ⟨c, cs, hc⟩ := List.exists_cons_of_ne_nil hargument
    refine ⟨c, cs, hc, (Text.isTrimmed_trimBlanks rest).head c ?_⟩
    rw [hrest, hc]
    rfl

theorem word64?_eq_some_iff {argument : String} {n : Nat} :
    Text.word64? argument.toList = some n ↔ Writes argument n := by
  unfold Writes
  generalize argument.toList = cs
  constructor
  · intro h
    obtain ⟨digits, htext, hword⟩ : ∃ digits, (cs = digits ∨ cs = '+' :: digits) ∧
        Text.word64? cs = if digits.isEmpty || !digits.all Char.isDigit then none
          else if Text.decimalValue digits < 2 ^ 64 then some (Text.decimalValue digits)
          else none := by
      unfold Text.word64?
      split
      · exact ⟨_, .inr rfl, rfl⟩
      · exact ⟨cs, .inl rfl, rfl⟩
    rw [hword, Option.ite_none_left_eq_some, Option.ite_none_right_eq_some, Option.some.injEq] at h
    obtain ⟨hdigits, hlt, rfl⟩ := h
    rw [Bool.or_eq_true, not_or, List.isEmpty_iff, Bool.not_eq_true', Bool.not_eq_false,
      List.all_eq_true] at hdigits
    exact ⟨digits, htext, hdigits.1, hdigits.2, rfl, hlt⟩
  · rintro ⟨digits, htext, hne, hdigits, rfl, hlt⟩
    have hall : digits.all Char.isDigit = true := List.all_eq_true.2 hdigits
    obtain ⟨d, ds, rfl⟩ := List.exists_cons_of_ne_nil hne
    have hplus : d ≠ '+' := by
      rintro rfl
      exact absurd (hdigits '+' List.mem_cons_self) (by decide)
    rcases htext with rfl | rfl <;> simp [Text.word64?, hplus, hall, hlt]

theorem Writes.ne {argument : String} {n : Nat} (h : Writes argument n) :
    argument ≠ "" ∧ argument ≠ "none" ∧ argument ≠ "off" := by
  rw [← word64?_eq_some_iff] at h
  refine ⟨?_, ?_, ?_⟩ <;> rintro rfl <;> cases h

theorem limitOf_eq_ok_iff {argument : String} {limit : Option Nat} :
    Command.limitOf argument = .ok limit ↔
      (argument = "none" ∨ argument = "off") ∧ limit = none ∨
        ∃ n, Writes argument n ∧ limit = some n := by
  constructor
  · intro h
    unfold Command.limitOf at h
    split at h
    · cases h
    · cases h
      exact .inl ⟨.inl rfl, rfl⟩
    · cases h
      exact .inl ⟨.inr rfl, rfl⟩
    · split at h
      · rename_i n hn
        cases h
        exact .inr ⟨n, word64?_eq_some_iff.1 hn, rfl⟩
      · cases h
  · rintro (⟨rfl | rfl, rfl⟩ | ⟨n, hn, rfl⟩)
    · rfl
    · rfl
    · obtain ⟨hempty, hnone, hoff⟩ := hn.ne
      unfold Command.limitOf
      split
      · contradiction
      · contradiction
      · contradiction
      · rw [word64?_eq_some_iff.2 hn]

theorem setsLimit_iff {line : String} {limit : Option Nat} :
    SetsLimit line limit ↔ ∃ argument, Orders line "limit" argument ∧
      Command.limitOf argument = .ok limit := by
  simp only [SetsLimit, limitOf_eq_ok_iff]

theorem orders_iff {line input word argument : String} (hinput : recorded? line = some input)
    (hword : Text.IsSolid word.toList) :
    Orders line word argument ↔
      Command.split input.toList = (word.toList, argument.toList) ∧ argument ≠ "" := by
  rw [toList_of_recorded? hinput]
  constructor
  · intro h
    refine ⟨split_of_orders h hword, ?_⟩
    rintro rfl
    obtain ⟨_, _, _, _, c, cs, hargument, _⟩ := h
    cases hargument
  · rintro ⟨hsplit, hne⟩
    exact orders_of_split hsplit fun hempty => hne (String.toList_inj.1 hempty)

theorem ofLine_eq_limit_iff {line input : String} (hinput : recorded? line = some input)
    {limit : Option Nat} :
    Command.ofLine input = .ok (.limit limit) ↔ SetsLimit line limit := by
  have hword : Text.IsSolid "limit".toList := by decide
  simp only [setsLimit_iff, orders_iff hinput hword]
  constructor
  · intro h
    cases Command.given_of_ofLine h with
    | limit hword hrest =>
      refine ⟨_, ⟨?_, ?_⟩, hrest⟩
      · rw [← hword, String.toList_ofList, String.toList_ofList]
      · intro hempty
        rw [hempty] at hrest
        cases hrest
  · rintro ⟨argument, ⟨hsplit, -⟩, hlimit⟩
    rw [Command.ofLine_limit hsplit, String.ofList_toList, hlimit]
    rfl

theorem ofLine_eq_load_iff {line input : String} (hinput : recorded? line = some input)
    {path : String} : Command.ofLine input = .ok (.load path) ↔ Orders line "load" path := by
  rw [orders_iff hinput (by decide)]
  constructor
  · intro h
    cases Command.given_of_ofLine h with
    | load hword hrest =>
      obtain ⟨hrest, hne⟩ := Command.argument_eq_ok_iff.1 hrest
      exact ⟨by rw [← hword, ← hrest, String.toList_ofList, String.toList_ofList], hne⟩
  · rintro ⟨hsplit, hne⟩
    rw [Command.ofLine_load hsplit, String.ofList_toList, Command.argument_eq_ok_iff.2 ⟨rfl, hne⟩]
    rfl

theorem orders_of_ofLine_save {line input : String} (hinput : recorded? line = some input)
    {path : String} (h : Command.ofLine input = .ok (.save path)) : Orders line "save" path := by
  rw [orders_iff hinput (by decide)]
  cases Command.given_of_ofLine h with
  | save hword hrest =>
    obtain ⟨hrest, hne⟩ := Command.argument_eq_ok_iff.1 hrest
    exact ⟨by rw [← hword, ← hrest, String.toList_ofList, String.toList_ofList], hne⟩

end Session

end VectorQuery
