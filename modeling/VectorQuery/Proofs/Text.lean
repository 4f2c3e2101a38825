/-
# Trimming and lines

A solid text has no blanks.  A trimmed one has no blank at either end, and trimming leaves such a
text as it is.  Lines that are written one after the other, each with a line break, are read back as
they were, but for a carriage return at the end of one (`linesOf_flatMap`); where no line ends with a
blank they are just the lines of the text (`lines_ofLines`).
-/
import Mathlib.Data.List.DropRight
import VectorQuery.Text.Letter
import VectorQuery.Text.Lines

namespace VectorQuery.Text

/-- A text without blanks. -/
def IsSolid (s : List Char) : Prop := ∀ c ∈ s, isBlank c = false

instance (s : List Char) : Decidable (IsSolid s) :=
  decidable_of_iff (s.all (!isBlank ·) = true) (by simp [IsSolid])

@[simp] theorem isSolid_append {s t : List Char} :
    IsSolid (s ++ t) ↔ IsSolid s ∧ IsSolid t := by
  simp only [IsSolid, List.forall_mem_append]

/-! ## Trimming -/

/-- The text has no blank at either end. -/
structure IsTrimmed (s : List Char) : Prop where
  head : ∀ c ∈ s.head?, isBlank c = false
  last : ∀ c ∈ s.getLast?, isBlank c = false

theorem trimBlanks_eq (s : List Char) :
    trimBlanks s = (s.dropWhile isBlank).rdropWhile isBlank := rfl

theorem isTrimmed_trimBlanks (s : List Char) : IsTrimmed (trimBlanks s) := by
  rw [trimBlanks_eq]
  constructor
  · intro c hc
    -- What is left after the end is trimmed begins as what was there before.
    have hhead : (s.dropWhile isBlank).head? = some c := by
      obtain ⟨cs, hcs⟩ : ∃ cs, (s.dropWhile isBlank).rdropWhile isBlank = c :: cs :=
        List.head?_eq_some_iff.1 hc
      obtain ⟨more, hmore⟩ := List.rdropWhile_prefix isBlank (l := s.dropWhile isBlank)
      rw [← hmore, hcs]
      rfl
    have hnot := List.head?_dropWhile_not isBlank s
    rw [hhead] at hnot
    simpa using hnot
  · intro c hc
    obtain ⟨hne, rfl⟩ := List.mem_getLast?_eq_getLast hc
    simpa using List.rdropWhile_last_not isBlank _ hne

theorem trimBlanks_append {gap : List Char} (hgap : ∀ c ∈ gap, isBlank c = true)
    (s : List Char) : trimBlanks (gap ++ s) = trimBlanks s := by
  have hdrop : (gap ++ s).dropWhile isBlank = s.dropWhile isBlank := by
    rw [List.dropWhile_append, List.dropWhile_eq_nil_iff.2 hgap]
    rfl
  rw [trimBlanks_eq, hdrop]
  rfl

/-- Of a text without blanks at its end only blanks at its beginning are trimmed. -/
theorem eq_append_trimBlanks {s : List Char} (h : ∀ c ∈ s.getLast?, isBlank c = false) :
    s = s.takeWhile isBlank ++ trimBlanks s := by
  have hend : (s.dropWhile isBlank).rdropWhile isBlank = s.dropWhile isBlank := by
    rw [List.rdropWhile_eq_self_iff]
    intro hne
    obtain ⟨gap, hgap⟩ := List.dropWhile_suffix isBlank (l := s)
    have hlast : s.getLast? = some ((s.dropWhile isBlank).getLast hne) := by
      conv_lhs => rw [← hgap, List.getLast?_append, List.getLast?_eq_getLast_of_ne_nil hne]
      rfl
    rw [h _ hlast]
    exact Bool.false_ne_true
  rw [trimBlanks_eq, hend, List.takeWhile_append_dropWhile]

theorem trimBlanks_of_isTrimmed {s : List Char} (h : IsTrimmed s) : trimBlanks s = s := by
  have hstart : s.takeWhile isBlank = [] := by
    cases s with
    | nil => rfl
    | cons c cs => simp [h.head c rfl]
  conv_rhs => rw [eq_append_trimBlanks h.last, hstart, List.nil_append]

theorem mem_of_mem_trimBlanks {s : List Char} {c : Char} (h : c ∈ trimBlanks s) : c ∈ s :=
  (List.dropWhile_suffix isBlank).mem ((List.rdropWhile_prefix isBlank _).mem h)

/-! ## Lines -/

theorem cutLines_append {line : List Char} (h : '\n' ∉ line) (rest : List Char) :
    cutLines (line ++ '\n' :: rest) = line :: cutLines rest := by
  induction line with
  | nil => rfl
  | cons c cs ih =>
    rw [List.mem_cons, not_or] at h
    rw [List.cons_append, cutLines, if_neg (Ne.symm h.1), ih h.2]

theorem cutLines_flatMap {lines : List (List Char)} (h : ∀ line ∈ lines, '\n' ∉ line) :
    cutLines (lines.flatMap (· ++ ['\n'])) = lines ++ [[]] := by
  induction lines with
  | nil => rfl
  | cons line lines ih =>
    rw [List.flatMap_cons, List.append_assoc, List.singleton_append,
      cutLines_append (h line List.mem_cons_self),
      ih fun l hl => h l (List.mem_cons_of_mem _ hl), List.cons_append]

theorem linesOf_flatMap {lines : List (List Char)} (h : ∀ line ∈ lines, '\n' ∉ line) :
    linesOf (lines.flatMap (· ++ ['\n'])) = lines.map dropReturn := by
  rw [linesOf, cutLines_flatMap h, List.dropLast_concat, List.getLast?_concat]

/-- A line without a blank at its end is not mistaken for one with a carriage return there. -/
theorem dropReturn_of_last {line : List Char} (h : ∀ c ∈ line.getLast?, isBlank c = false) :
    dropReturn line = line := by
  refine if_neg fun hlast => ?_
  exact absurd (h _ hlast) (by decide)

/-- Lines without line breaks or blanks at their ends are the lines of the text that they make. -/
theorem lines_ofLines {xs : List String} (hbreak : ∀ x ∈ xs, '\n' ∉ x.toList)
    (hlast : ∀ x ∈ xs, ∀ c ∈ x.toList.getLast?, isBlank c = false) : lines (ofLines xs) = xs := by
  have htext : (ofLines xs).toList = (xs.map String.toList).flatMap (· ++ ['\n']) := by
    simp [ofLines, List.flatMap_map]
  rw [lines, htext, linesOf_flatMap (List.forall_mem_map.2 hbreak), List.map_map, List.map_map]
  conv_rhs => rw [← List.map_id xs]
  refine List.map_congr_left fun x hx => ?_
  rw [Function.comp_apply, Function.comp_apply, dropReturn_of_last (hlast x hx),
    String.ofList_toList, id_eq]

end VectorQuery.Text
