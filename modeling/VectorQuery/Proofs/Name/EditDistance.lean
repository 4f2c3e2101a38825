/-
# The edit distance

`levenshtein` is the least number of insertions, deletions and replacements between two texts, by
recursion on their first characters.  It can be taken by their last characters as well
(`levenshtein_concat`), which is how a table of prefixes is filled: the row that a text leads to
holds the distances of the text from the prefixes of the other one.  A distance is never less than
the least entry of a row above it, so a search may stop as soon as a whole row is beyond its limit
(`bounded_eq`).
-/
import Mathlib.Data.List.Induction
import VectorQuery.Name.EditDistance

namespace VectorQuery.EditDistance

/-! ## Distances -/

/-- What it takes to put one character in the place of another. -/
def cost (x y : Char) : Nat := if x = y then 0 else 1

/-- The least number of insertions, deletions and replacements that lead from one text to the
other. -/
def levenshtein : List Char → List Char → Nat
  | [], ys => ys.length
  | x :: xs, [] => xs.length + 1
  | x :: xs, y :: ys =>
    min (min (levenshtein xs (y :: ys) + 1) (levenshtein (x :: xs) ys + 1))
      (levenshtein xs ys + cost x y)
termination_by xs ys => xs.length + ys.length

theorem cost_comm (x y : Char) : cost x y = cost y x :=
  ite_congr (propext eq_comm) (fun _ => rfl) fun _ => rfl

theorem cost_eq_zero_iff {x y : Char} : cost x y = 0 ↔ x = y := by
  unfold cost
  split <;> simp_all

@[simp] theorem levenshtein_nil_left (ys : List Char) : levenshtein [] ys = ys.length := by
  rw [levenshtein]

@[simp] theorem levenshtein_nil_right (xs : List Char) : levenshtein xs [] = xs.length := by
  cases xs with
  | nil => rw [levenshtein]
  | cons x xs =>
      rw [levenshtein]
      rfl

theorem levenshtein_cons_cons (x y : Char) (xs ys : List Char) :
    levenshtein (x :: xs) (y :: ys) =
      min (min (levenshtein xs (y :: ys) + 1) (levenshtein (x :: xs) ys + 1))
        (levenshtein xs ys + cost x y) := by
  rw [levenshtein]

/-- An edit can be undone by an edit. -/
theorem levenshtein_comm (xs ys : List Char) : levenshtein xs ys = levenshtein ys xs := by
  induction xs, ys using levenshtein.induct with
  | case1 ys => rw [levenshtein_nil_left, levenshtein_nil_right]
  | case2 x xs => rw [levenshtein_nil_left, levenshtein_nil_right]
  | case3 x xs y ys ihdelete ihinsert ihreplace =>
      rw [levenshtein_cons_cons, levenshtein_cons_cons, ihdelete, ihinsert, ihreplace,
        cost_comm y x, Nat.min_comm (levenshtein (y :: ys) xs + 1)]

theorem levenshtein_eq_zero_iff {xs ys : List Char} : levenshtein xs ys = 0 ↔ xs = ys := by
  induction xs, ys using levenshtein.induct with
  | case1 ys =>
      rw [levenshtein_nil_left, List.length_eq_zero_iff]
      exact eq_comm
  | case2 x xs => simp
  | case3 x xs y ys ihdelete ihinsert ihreplace =>
      rw [levenshtein_cons_cons, List.cons.injEq, ← cost_eq_zero_iff, ← ihreplace]
      omega

/-- Every character is edited once at most. -/
theorem levenshtein_le_max (xs ys : List Char) :
    levenshtein xs ys ≤ max xs.length ys.length := by
  induction xs, ys using levenshtein.induct with
  | case1 ys =>
      rw [levenshtein_nil_left]
      exact Nat.le_max_right ..
  | case2 x xs =>
      rw [levenshtein_nil_right]
      exact Nat.le_max_left ..
  | case3 x xs y ys ihdelete ihinsert ihreplace =>
      have hcost : cost x y ≤ 1 := by
        unfold cost
        split <;> omega
      rw [levenshtein_cons_cons, List.length_cons, List.length_cons]
      omega

/-! ## Distances by the last characters -/

theorem levenshtein_singleton_concat (x y : Char) (ys : List Char) :
    levenshtein [x] (ys ++ [y]) =
      min (min (levenshtein [] (ys ++ [y]) + 1) (levenshtein [x] ys + 1))
        (levenshtein [] ys + cost x y) := by
  induction ys with
  | nil => rw [List.nil_append, levenshtein_cons_cons]
  | cons b ys ih =>
      rw [List.cons_append, levenshtein_cons_cons, levenshtein_cons_cons x b [] ys, ih]
      simp only [levenshtein_nil_left, List.length_cons, List.length_append, List.length_nil]
      omega

/-- What the last edit costs may be counted before what the first one costs. -/
theorem min_interchange {a b c a' b' c' a'' b'' c'' k l : Nat} :
    min (min (min (min (a + 1) (b + 1)) (c + k) + 1) (min (min (a' + 1) (b' + 1)) (c' + k) + 1))
        (min (min (a'' + 1) (b'' + 1)) (c'' + k) + l) =
      min
        (min (min (min (a + 1) (a' + 1)) (a'' + l) + 1) (min (min (b + 1) (b' + 1)) (b'' + l) + 1))
        (min (min (c + 1) (c' + 1)) (c'' + l) + k) := by
  simp only [← Nat.add_min_add_right]
  ac_rfl

/-- The distance by what becomes of the last characters. -/
theorem levenshtein_concat (x y : Char) (xs ys : List Char) :
    levenshtein (xs ++ [x]) (ys ++ [y]) =
      min (min (levenshtein xs (ys ++ [y]) + 1) (levenshtein (xs ++ [x]) ys + 1))
        (levenshtein xs ys + cost x y) := by
  induction xs, ys using levenshtein.induct with
  | case1 ys => exact levenshtein_singleton_concat x y ys
  | case2 a xs =>
      have h := levenshtein_singleton_concat y x (a :: xs)
      rw [levenshtein_comm, List.nil_append, h, cost_comm y x, levenshtein_comm [y] (a :: xs),
        levenshtein_comm [] (a :: xs), levenshtein_comm [] (a :: xs ++ [x])]
      omega
  | case3 a xs b ys ihdelete ihinsert ihreplace =>
      rw [List.cons_append] at ihdelete ihinsert
      rw [List.cons_append, List.cons_append, levenshtein_cons_cons a b, ihdelete, ihinsert,
        ihreplace, levenshtein_cons_cons a b xs, levenshtein_cons_cons a b _ ys,
        levenshtein_cons_cons a b xs ys]
      exact min_interchange

/-- No text is nearer to a longer one than some prefix of it is. -/
theorem exists_prefix_concat_le (value needle : List Char) (c : Char) :
    ∃ p, p <+: needle ∧ levenshtein value p ≤ levenshtein (value ++ [c]) needle := by
  induction needle using List.reverseRecOn with
  | nil =>
      refine ⟨[], List.prefix_refl _, ?_⟩
      rw [levenshtein_nil_right, levenshtein_nil_right, List.length_append]
      omega
  | append_singleton needle n ih =>
      obtain ⟨p, hp, hle⟩ := ih
      rw [levenshtein_concat]
      -- the last edit deletes `c`, inserts `n`, or puts `n` in the place of `c`
      have hlast : levenshtein value (needle ++ [n]) ≤ levenshtein (value ++ [c]) (needle ++ [n]) ∨
          levenshtein (value ++ [c]) needle ≤ levenshtein (value ++ [c]) (needle ++ [n]) ∨
          levenshtein value needle ≤ levenshtein (value ++ [c]) (needle ++ [n]) := by
        rw [levenshtein_concat]
        omega
      rw [← levenshtein_concat]
      rcases hlast with hdelete | hinsert | hreplace
      · exact ⟨needle ++ [n], List.prefix_refl _, hdelete⟩
      · exact ⟨p, hp.trans (List.prefix_append _ _), Nat.le_trans hle hinsert⟩
      · exact ⟨needle, List.prefix_append _ _, hreplace⟩

/-- A text that goes on is no nearer than the text before it to some prefix. -/
theorem exists_prefix_append_le (value rest needle : List Char) :
    ∃ p, p <+: needle ∧ levenshtein value p ≤ levenshtein (value ++ rest) needle := by
  induction rest generalizing value with
  | nil =>
      rw [List.append_nil]
      exact ⟨needle, List.prefix_refl _, Nat.le_refl _⟩
  | cons c rest ih =>
      obtain ⟨p, hp, hle⟩ := ih (value ++ [c])
      obtain ⟨p', hp', hle'⟩ := exists_prefix_concat_le value p c
      rw [List.append_assoc, List.singleton_append] at hle
      exact ⟨p', hp'.trans hp, Nat.le_trans hle' hle⟩

/-! ## Rows -/

/-- The distances of a text from `done` and from each longer prefix of `done ++ rest`. -/
def distances (value : List Char) : (done rest : List Char) → List Nat
  | done, [] => [levenshtein value done]
  | done, n :: rest => levenshtein value done :: distances value (done ++ [n]) rest

theorem distances_eq_cons (value done rest : List Char) :
    distances value done rest = levenshtein value done :: (distances value done rest).tail := by
  cases rest <;> rfl

theorem distances_nil (done rest : List Char) :
    distances [] done rest = List.range' done.length (rest.length + 1) := by
  induction rest generalizing done with
  | nil => rw [distances, levenshtein_nil_left, List.length_nil, List.range'_one]
  | cons n rest ih =>
      rw [distances, ih, levenshtein_nil_left, List.length_append, List.length_singleton,
        List.length_cons, List.range'_succ (n := rest.length + 1)]

theorem getLastD_distances (value done rest : List Char) :
    (distances value done rest).getLastD 0 = levenshtein value (done ++ rest) := by
  induction rest generalizing done with
  | nil => rw [distances, List.append_nil, List.getLastD_cons, List.getLastD_nil]
  | cons n rest ih =>
      have hlast := ih (done ++ [n])
      rw [distances_eq_cons, List.getLastD_cons] at hlast
      rw [distances, distances_eq_cons, List.getLastD_cons, List.getLastD_cons, hlast,
        List.append_assoc, List.singleton_append]

theorem mem_distances {value done p : List Char} {rest : List Char} (hp : p <+: rest) :
    levenshtein value (done ++ p) ∈ distances value done rest := by
  induction rest generalizing done p with
  | nil => rw [List.prefix_nil.1 hp, List.append_nil, distances, List.mem_singleton]
  | cons n rest ih =>
      rcases List.prefix_cons_iff.1 hp with rfl | ⟨p, rfl, hp'⟩
      · rw [List.append_nil, distances]
        exact List.mem_cons_self
      · have hmem : levenshtein value (done ++ [n] ++ p) ∈ distances value (done ++ [n]) rest :=
          ih hp'
        rw [List.append_assoc, List.singleton_append] at hmem
        exact List.mem_cons_of_mem _ hmem

/-- One more character of the text leads from a row to the next. -/
theorem cells_distances (c : Char) (value done rest : List Char) :
    cells c rest (distances value done rest) (levenshtein (value ++ [c]) done) =
      (distances (value ++ [c]) done rest).tail := by
  induction rest generalizing done with
  | nil => rfl
  | cons n rest ih =>
      have hcell : min
          (min (levenshtein value (done ++ [n]) + 1) (levenshtein (value ++ [c]) done + 1))
          (levenshtein value done + if c = n then 0 else 1) =
            levenshtein (value ++ [c]) (done ++ [n]) := (levenshtein_concat c n value done).symm
      rw [distances, distances, distances_eq_cons value (done ++ [n]), cells, hcell,
        ← distances_eq_cons, ih, List.tail_cons, ← distances_eq_cons]

theorem nextRow_distances (c : Char) (value needle : List Char) :
    nextRow c needle (distances value [] needle) = distances (value ++ [c]) [] needle := by
  have hfirst : (distances value [] needle).headD 0 + 1 = levenshtein (value ++ [c]) [] := by
    rw [distances_eq_cons, List.headD_cons, levenshtein_nil_right, levenshtein_nil_right,
      List.length_append, List.length_singleton]
  rw [nextRow, hfirst, cells_distances, ← distances_eq_cons]

theorem least_le {row : List Nat} {d : Nat} (h : d ∈ row) : least row ≤ d := by
  obtain ⟨a, ha⟩ := Option.isSome_iff_exists.1 (List.isSome_min?_of_mem h)
  rw [least, List.foldl_min, ha, Option.getD_some]
  exact Nat.le_trans (Nat.min_le_right _ _) ((List.le_min?_iff ha).1 (Nat.le_refl a) d h)

/-! ## The search -/

variable {limit : Nat}

theorem beyond_of_lt (h : limit < 2 ^ 64 - 1) : beyond limit = limit + 1 :=
  Number.word_of_lt (by omega)

/-- From the row of a text, the search finds the distance of the whole, but no more than its limit
allows. -/
theorem run_distances (h : limit < 2 ^ 64 - 1) (needle rest value : List Char) :
    run needle limit rest (distances value [] needle) =
      min (levenshtein (value ++ rest) needle) (limit + 1) := by
  induction rest generalizing value with
  | nil =>
      rw [run, beyond_of_lt h, getLastD_distances, List.append_nil, List.nil_append]
  | cons c rest ih =>
      have happend : value ++ c :: rest = value ++ [c] ++ rest := by
        rw [List.append_assoc, List.singleton_append]
      rw [run, nextRow_distances, ih, beyond_of_lt h, happend]
      split
      · rename_i hbeyond
        obtain ⟨p, hp, hle⟩ := exists_prefix_append_le (value ++ [c]) rest needle
        have hleast : least (distances (value ++ [c]) [] needle) ≤ levenshtein (value ++ [c]) p :=
          least_le (mem_distances hp)
        omega
      · rfl

/-- The search finds the distance, but no more than one beyond its limit. -/
theorem bounded_eq (h : limit < 2 ^ 64 - 1) (value needle : List Char) :
    bounded value needle limit = min (levenshtein value needle) (limit + 1) := by
  rw [bounded]
  split
  · rename_i hlimit
    split
    · rename_i heq
      rw [levenshtein_eq_zero_iff.2 heq, Nat.zero_min]
    · rename_i hne
      have hpos := mt levenshtein_eq_zero_iff.1 hne
      omega
  · split
    · rename_i hempty
      rw [List.isEmpty_iff.1 hempty, levenshtein_nil_right, beyond_of_lt h]
    · have hstart : List.range (needle.length + 1) = distances [] [] needle := by
        rw [distances_nil, List.range_eq_range']
        rfl
      rw [hstart, run_distances h, List.nil_append]

end VectorQuery.EditDistance
