/-
# Names within an edit distance

Two names match if few enough edits lead from one lower-case form to the other, fewer than the
longer of them has characters.  The score is the part of its characters that none of the edits
takes; in single precision it stays above zero, too, unless names have millions of characters.  How
far the search looks decides whether there is a score, but not which, and neither name is told apart
from the other (`byDistance`).
-/
import VectorQuery.Name.Match
import VectorQuery.Proofs.Name.EditDistance
import VectorQuery.Proofs.Number.Rational
import VectorQuery.Proofs.Number.Share

namespace VectorQuery.NameMatch

open EditDistance

/-- The least number of edits that lead from one name to the other, whatever their case. -/
def distance (candidate pattern : String) : Nat :=
  levenshtein (Text.lowercase candidate.toList) (Text.lowercase pattern.toList)

/-- The length of the longer of two names. -/
def longer (candidate pattern : String) : Nat :=
  max (Text.lowercase candidate.toList).length (Text.lowercase pattern.toList).length

theorem distance_comm (candidate pattern : String) :
    distance candidate pattern = distance pattern candidate := levenshtein_comm _ _

theorem distance_le_longer (candidate pattern : String) :
    distance candidate pattern ≤ longer candidate pattern := levenshtein_le_max _ _

theorem longer_comm (candidate pattern : String) :
    longer candidate pattern = longer pattern candidate := Nat.max_comm _ _

/-- The distance is within the limit and less than the length of the longer name, unless both names
are empty. -/
def Near (limit : Nat) (candidate pattern : String) : Prop :=
  distance candidate pattern ≤ limit ∧
    (distance candidate pattern < longer candidate pattern ∨ longer candidate pattern = 0)

instance (limit : Nat) (candidate pattern : String) : Decidable (Near limit candidate pattern) :=
  inferInstanceAs (Decidable (_ ∧ _))

section

variable {α : Type} [Quantity α] {limit : Nat}

/-- Within the limit, the score is that of the distance. -/
theorem withinEdits_eq (h : limit < 2 ^ 64 - 1) (candidate pattern : String) :
    (withinEdits limit candidate pattern : Option α) =
      if distance candidate pattern ≤ limit then
        score? (distance candidate pattern) (longer candidate pattern)
      else none := by
  rw [withinEdits, bounded_eq h]
  change (if limit < min (distance candidate pattern) (limit + 1) then none
    else score? (min (distance candidate pattern) (limit + 1)) (longer candidate pattern)) = _
  by_cases hle : distance candidate pattern ≤ limit
  · rw [Nat.min_eq_left (Nat.le_succ_of_le hle), if_neg (Nat.not_lt_of_le hle), if_pos hle]
  · rw [Nat.min_eq_right (Nat.lt_of_not_le hle), if_pos (Nat.lt_succ_self limit), if_neg hle]

theorem withinEdits_comm (h : limit < 2 ^ 64 - 1) (candidate pattern : String) :
    (withinEdits limit candidate pattern : Option α) = withinEdits limit pattern candidate := by
  rw [withinEdits_eq h, withinEdits_eq h, distance_comm, longer_comm]

/-- Two limits that let a score be found agree on it. -/
theorem score_unique {other : Nat} {candidate pattern : String} {s s' : α}
    (h : limit < 2 ^ 64 - 1) (hother : other < 2 ^ 64 - 1)
    (hs : withinEdits limit candidate pattern = some s)
    (hs' : withinEdits other candidate pattern = some s') : s = s' := by
  have score_of {bound : Nat} {r : α} (hbound : bound < 2 ^ 64 - 1)
      (hr : withinEdits bound candidate pattern = some r) :
      score? (distance candidate pattern) (longer candidate pattern) = some r := by
    rw [withinEdits_eq hbound] at hr
    exact (Option.ite_none_right_eq_some.1 hr).2
  exact Option.some.inj ((score_of h hs).symm.trans (score_of hother hs'))

end

/-- In single precision, names that are not too long match as they do in exact arithmetic. -/
theorem isSome_byEdits {limit : Nat} (h : limit < 2 ^ 64 - 1) {candidate pattern : String}
    (hlength : longer candidate pattern < 2 ^ 24) :
    (byEdits limit candidate pattern).isSome = true ↔ Near limit candidate pattern := by
  have hscore : (score? (distance candidate pattern) (longer candidate pattern) :
      Option Single).isSome = true ↔
        distance candidate pattern < longer candidate pattern ∨ longer candidate pattern = 0 := by
    rw [score?]
    by_cases hzero : longer candidate pattern = 0
    · rw [if_pos hzero]
      exact iff_of_true rfl (.inr hzero)
    · have hshare := Single.pos_one_sub_share_iff (Nat.pos_of_ne_zero hzero)
        (distance_le_longer candidate pattern) hlength
      rw [if_neg hzero, or_iff_left hzero, ← hshare]
      dsimp only
      rw [Option.isSome_ite]
      rfl
  rw [byEdits, withinEdits_eq h, Near, ← hscore]
  by_cases hle : distance candidate pattern ≤ limit
  · rw [if_pos hle, and_iff_right hle]
  · rw [if_neg hle]
    exact iff_of_false Bool.false_ne_true fun hmatch => hle hmatch.1

open scoped Rational

/-- The score of names in exact arithmetic. -/
theorem score?_exact (d n : Nat) :
    (score? d n : Option ℚ) =
      if d < n ∨ n = 0 then some (if n = 0 then 1 else 1 - (d : ℚ) / n) else none := by
  rw [score?]
  by_cases hn : n = 0
  · rw [if_pos hn, if_pos (.inr hn), if_pos hn]
    rfl
  · have hpos : (0 : ℚ) < n := Nat.cast_pos.2 (Nat.pos_of_ne_zero hn)
    have hscore : (0 : ℚ) < 1 - d / n ↔ d < n := by
      rw [sub_pos, div_lt_one hpos, Nat.cast_lt]
    rw [if_neg hn, if_neg hn]
    change (if (0 : ℚ) < 1 - d / n then some ((1 : ℚ) - d / n) else none) = _
    simp only [hscore, hn, or_false]

theorem withinEdits_exact (h : limit < 2 ^ 64 - 1) (candidate pattern : String) :
    (withinEdits limit candidate pattern : Option ℚ) =
      if Near limit candidate pattern then
        some (if longer candidate pattern = 0 then 1
          else 1 - (distance candidate pattern : ℚ) / longer candidate pattern)
      else none := by
  rw [withinEdits_eq h, score?_exact, ← ite_and]
  rfl

/-- The search finds the edit distance, cut off just above its limit.  Two names match if they are
near, and the score is one less the share of the edits in the length of the longer one.  No score
depends on the limit that let it be found, and the names may change places. -/
theorem byDistance {limit : Nat} (h : limit < 2 ^ 64 - 1) :
    (∀ value needle : List Char,
      bounded value needle limit = min (levenshtein value needle) (limit + 1)) ∧
    ∀ candidate pattern : String,
      (withinEdits limit candidate pattern : Option ℚ) =
        (if Near limit candidate pattern then
          some (if longer candidate pattern = 0 then 1
            else 1 - (distance candidate pattern : ℚ) / longer candidate pattern)
        else none) ∧
      (longer candidate pattern < 2 ^ 24 →
        ((byEdits limit candidate pattern).isSome = true ↔ Near limit candidate pattern)) ∧
      (∀ (other : Nat) (s s' : Single), other < 2 ^ 64 - 1 →
        byEdits limit candidate pattern = some s → byEdits other candidate pattern = some s' →
        s = s') ∧
      (withinEdits limit candidate pattern : Option ℚ) = withinEdits limit pattern candidate ∧
      byEdits limit candidate pattern = byEdits limit pattern candidate := by
  refine ⟨fun value needle => bounded_eq h value needle, fun candidate pattern => ?_⟩
  refine ⟨withinEdits_exact h candidate pattern, isSome_byEdits h, ?_,
    withinEdits_comm h candidate pattern, withinEdits_comm h candidate pattern⟩
  intro other s s' hother hs hs'
  exact score_unique h hother hs hs'

/-- Three edits, as many as are allowed, lead from `kitten` to `sitting`. -/
theorem byDistance_kitten :
    3 < 2 ^ 64 - 1 ∧
      bounded "kitten".toList "sitting".toList 3 = 3 ∧
      (withinEdits 3 "kitten" "Sitting" : Option ℚ) = some (4 / 7) ∧
      (byEdits 3 "kitten" "Sitting").isSome = true := by
  have hlow : Text.lowercase "kitten".toList = "kitten".toList := by decide
  have hlow' : Text.lowercase "Sitting".toList = "sitting".toList := by decide
  have hedits : levenshtein "kitten".toList "sitting".toList = 3 := by
    simp [levenshtein_cons_cons, cost]
  have hdistance : distance "kitten" "Sitting" = 3 := by rw [distance, hlow, hlow', hedits]
  have hlonger : longer "kitten" "Sitting" = 7 := by rw [longer, hlow, hlow']; rfl
  have hnear : Near 3 "kitten" "Sitting" := by
    rw [Near, hdistance, hlonger]
    decide
  have hlength : longer "kitten" "Sitting" < 2 ^ 24 := by
    rw [hlonger]
    decide
  have hlimit : 3 < 2 ^ 64 - 1 := by decide
  obtain ⟨hbounded, hmatch⟩ := byDistance hlimit
  obtain ⟨hscore, hsome, -⟩ := hmatch "kitten" "Sitting"
  refine ⟨hlimit, ?_, ?_, ?_⟩
  · rw [hbounded, hedits]
    rfl
  · rw [hscore, if_pos hnear, hdistance, hlonger, if_neg (by decide)]
    norm_num
  · exact (hsome hlength).2 hnear

end VectorQuery.NameMatch
