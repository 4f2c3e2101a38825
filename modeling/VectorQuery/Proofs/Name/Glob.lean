/-
# What a name pattern stands for

A pattern stands for a candidate if the candidate can be cut into runs, one for each character of
the pattern: any run for `*`, a single character for `?`, and the character itself for any other.
What is accepted is what the pattern stands for with wildcards that do not reach beyond a line
(`accepts_iff_standsFor`).  So `a*b` is not accepted for an `a` and a `b` on two lines, although it
stands for them (`standsFor_two_lines`).
-/
import Mathlib.Data.List.Forall2
import VectorQuery.Name.Glob

namespace VectorQuery.Glob

/-! ## Patterns and runs -/

/-- The run is one that a character of a pattern stands for. -/
inductive Takes : Char → List Char → Prop
  | run (s : List Char) : Takes '*' s
  | one (c : Char) : Takes '?' [c]
  | self {p : Char} : p ≠ '*' → p ≠ '?' → Takes p [p]

/-- The run is one that a character of a pattern stands for, and a wildcard takes it from one
line. -/
def TakesInLine (p : Char) (s : List Char) : Prop :=
  Takes p s ∧ (p = '*' ∨ p = '?' → '\n' ∉ s)

/-- The candidate is cut into runs, one for each character of the pattern. -/
def Cuts (takes : Char → List Char → Prop) (pattern candidate : List Char) : Prop :=
  ∃ runs, List.Forall₂ takes pattern runs ∧ runs.flatten = candidate

/-- The pattern stands for the candidate. -/
def StandsFor (pattern candidate : List Char) : Prop := Cuts Takes pattern candidate

/-- The text starts with a run that is taken, and what follows has the property. -/
def After (takes holds : List Char → Prop) (s : List Char) : Prop :=
  ∃ run rest, run ++ rest = s ∧ takes run ∧ holds rest

theorem After.congr {takes takes' holds : List Char → Prop} {s : List Char}
    (h : ∀ run, takes run ↔ takes' run) : After takes holds s ↔ After takes' holds s := by
  simp only [After, h]

variable {takes : Char → List Char → Prop} {p : Char} {pattern candidate s : List Char}

theorem cuts_nil_iff : Cuts takes [] s ↔ s = [] := by
  constructor
  · rintro ⟨runs, hruns, rfl⟩
    cases hruns
    rfl
  · rintro rfl
    exact ⟨[], .nil, rfl⟩

theorem cuts_cons_iff :
    Cuts takes (p :: pattern) s ↔ After (takes p) (Cuts takes pattern) s := by
  constructor
  · rintro ⟨runs, hruns, rfl⟩
    cases hruns with
    | cons htakes hruns => exact ⟨_, _, rfl, htakes, _, hruns, rfl⟩
  · rintro ⟨run, rest, rfl, htakes, runs, hruns, rfl⟩
    exact ⟨run :: runs, .cons htakes hruns, rfl⟩

theorem takesInLine_star_iff : TakesInLine '*' s ↔ '\n' ∉ s :=
  ⟨fun h => h.2 (.inl rfl), fun h => ⟨.run s, fun _ => h⟩⟩

theorem takesInLine_question_iff : TakesInLine '?' s ↔ ∃ c, covers c = true ∧ s = [c] := by
  have hcovers : ∀ {c}, covers c = true ↔ c ≠ '\n' := bne_iff_ne
  constructor
  · rintro ⟨htakes, hline⟩
    have hline := hline (.inr rfl)
    cases htakes with
    | one c => exact ⟨c, hcovers.2 fun h => hline (h ▸ List.mem_singleton_self c), rfl⟩
    | self _ hne => exact absurd rfl hne
  · rintro ⟨c, hc, rfl⟩
    exact ⟨.one c, fun _ h => hcovers.1 hc (List.mem_singleton.1 h).symm⟩

theorem takesInLine_self_iff (hstar : p ≠ '*') (hquestion : p ≠ '?') :
    TakesInLine p s ↔ ∃ c, (c == p) = true ∧ s = [c] := by
  constructor
  · rintro ⟨htakes, -⟩
    cases htakes with
    | run => exact absurd rfl hstar
    | one => exact absurd rfl hquestion
    | self => exact ⟨p, beq_self_eq_true p, rfl⟩
  · rintro ⟨c, hc, rfl⟩
    obtain rfl := beq_iff_eq.1 hc
    exact ⟨.self hstar hquestion, fun h => absurd h (not_or.2 ⟨hstar, hquestion⟩)⟩

/-! ## Rows -/

/-- The row tells of each suffix of the candidate whether it has the property. -/
inductive Tells (holds : List Char → Prop) : List Char → List Bool → Prop
  | nil {b : Bool} : (b = true ↔ holds []) → Tells holds [] [b]
  | cons {c : Char} {s : List Char} {b : Bool} {row : List Bool} :
      (b = true ↔ holds (c :: s)) → Tells holds s row → Tells holds (c :: s) (b :: row)

namespace Tells

variable {holds holds' : List Char → Prop} {row : List Bool}

theorem congr (h : Tells holds s row) (heq : ∀ s, holds s ↔ holds' s) : Tells holds' s row := by
  induction h with
  | nil hb => exact .nil (hb.trans (heq _))
  | cons hb _ ih => exact .cons (hb.trans (heq _)) ih

theorem headD_iff (h : Tells holds s row) : row.headD false = true ↔ holds s := by
  cases h with
  | nil hb => exact hb
  | cons hb _ => exact hb

theorem lastRow (s : List Char) : Tells (· = []) s (lastRow s) := by
  induction s with
  | nil => exact .nil (iff_of_true rfl rfl)
  | cons c s ih => exact .cons (iff_of_false Bool.false_ne_true (List.cons_ne_nil c s)) ih

theorem oneRow (h : Tells holds s row) (accepts : Char → Bool) :
    Tells (After (fun run => ∃ c, accepts c = true ∧ run = [c]) holds) s
      (oneRow accepts s row) := by
  induction h with
  | nil =>
      refine .nil (iff_of_false Bool.false_ne_true ?_)
      rintro ⟨_, rest, heq, ⟨c, -, rfl⟩, -⟩
      cases heq
  | @cons c s b row _ hrow ih =>
      refine .cons ?_ ih
      rw [Bool.and_eq_true, hrow.headD_iff]
      constructor
      · rintro ⟨hc, hs⟩
        exact ⟨[c], s, rfl, ⟨c, hc, rfl⟩, hs⟩
      · rintro ⟨_, rest, heq, ⟨c', hc, rfl⟩, hs⟩
        cases heq
        exact ⟨hc, hs⟩

theorem runRow (h : Tells holds s row) :
    Tells (After ('\n' ∉ ·) holds) s (runRow s row) := by
  induction h with
  | nil hb =>
      refine .nil (hb.trans ?_)
      constructor
      · intro h
        exact ⟨[], [], rfl, List.not_mem_nil, h⟩
      · rintro ⟨run, rest, heq, -, h⟩
        obtain ⟨-, rfl⟩ := List.append_eq_nil_iff.1 heq
        exact h
  | @cons c s b row hb _ ih =>
      refine .cons ?_ ih
      rw [Bool.or_eq_true, Bool.and_eq_true, ih.headD_iff, hb, covers, bne_iff_ne]
      constructor
      · rintro (h | ⟨hc, run, rest, rfl, hrun, h⟩)
        · exact ⟨[], c :: s, rfl, List.not_mem_nil, h⟩
        · exact ⟨c :: run, rest, rfl, List.not_mem_cons_of_ne_of_not_mem hc.symm hrun, h⟩
      · rintro ⟨run, rest, heq, hrun, h⟩
        cases run with
        | nil =>
            rw [List.nil_append] at heq
            exact .inl (heq ▸ h)
        | cons c' run =>
            cases heq
            exact .inr ⟨(List.ne_of_not_mem_cons hrun).symm, run, rest, rfl,
              List.not_mem_of_not_mem_cons hrun, h⟩

/-- One more character at the front of the pattern leads from a row to the next. -/
theorem next (h : Tells (Cuts TakesInLine pattern) s row) (p : Char) :
    Tells (Cuts TakesInLine (p :: pattern)) s (Glob.row s p row) := by
  unfold Glob.row
  split
  · rename_i hp
    subst hp
    refine h.runRow.congr fun s => ?_
    exact (After.congr fun run => takesInLine_star_iff.symm).trans cuts_cons_iff.symm
  · rename_i hstar
    split
    · rename_i hp
      subst hp
      refine (h.oneRow covers).congr fun s => ?_
      exact (After.congr fun run => takesInLine_question_iff.symm).trans cuts_cons_iff.symm
    · rename_i hquestion
      refine (h.oneRow (· == p)).congr fun s => ?_
      exact (After.congr fun run => (takesInLine_self_iff hstar hquestion).symm).trans
        cuts_cons_iff.symm

end Tells

/-! ## Acceptance -/

/-- The search over rows finds whether the candidate can be cut. -/
theorem accepts_iff_cuts (pattern candidate : List Char) :
    accepts pattern candidate = true ↔ Cuts TakesInLine pattern candidate := by
  have hrow : Tells (Cuts TakesInLine pattern) candidate
      (pattern.foldr (row candidate) (lastRow candidate)) := by
    induction pattern with
    | nil => exact (Tells.lastRow candidate).congr fun s => cuts_nil_iff.symm
    | cons p pattern ih => exact ih.next p
  exact hrow.headD_iff

/-- Within one line, no wildcard can reach beyond it. -/
theorem cuts_of_line (hline : '\n' ∉ candidate) :
    Cuts TakesInLine pattern candidate ↔ StandsFor pattern candidate := by
  constructor
  · rintro ⟨runs, hruns, rfl⟩
    exact ⟨runs, hruns.imp fun _ _ h => h.1, rfl⟩
  · rintro ⟨runs, hruns, rfl⟩
    refine ⟨runs, ?_, rfl⟩
    induction hruns with
    | nil => exact .nil
    | cons htakes _ ih =>
        rw [List.flatten_cons, List.mem_append, not_or] at hline
        exact .cons ⟨htakes, fun _ => hline.1⟩ (ih hline.2)

/-- What is accepted can be cut into runs that the pattern takes, none of which takes a wildcard
beyond a line; so a candidate of one line is accepted exactly if the pattern stands for it. -/
theorem accepts_iff_standsFor (pattern candidate : List Char) :
    (accepts pattern candidate = true ↔ Cuts TakesInLine pattern candidate) ∧
      ('\n' ∉ candidate → (accepts pattern candidate = true ↔ StandsFor pattern candidate)) := by
  have haccepts := accepts_iff_cuts pattern candidate
  exact ⟨haccepts, fun hline => haccepts.trans (cuts_of_line hline)⟩

theorem accepts_iff_standsFor_build :
    '\n' ∉ "build.x".toList ∧ StandsFor "b?ild.*".toList "build.x".toList ∧
      ¬ StandsFor "b?ild.*".toList "buildax".toList :=
  ⟨by decide, ((accepts_iff_standsFor _ _).2 (by decide)).1 (by decide),
    mt ((accepts_iff_standsFor _ _).2 (by decide)).2 (by decide)⟩

/-- A run may reach beyond a line, but a wildcard is not accepted for such a run. -/
theorem standsFor_two_lines :
    StandsFor "a*b".toList "a\nb".toList ∧ accepts "a*b".toList "a\nb".toList = false := by
  refine ⟨⟨[['a'], ['\n'], ['b']], ?_, rfl⟩, by decide⟩
  exact .cons (.self (by decide) (by decide)) (.cons (.run _)
    (.cons (.self (by decide) (by decide)) .nil))

end VectorQuery.Glob
