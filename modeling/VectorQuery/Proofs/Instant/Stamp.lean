/-
# Instants read back from their stamps

Every instant of the calendar is read back from its stamp (`Instant.ofText?_stamp`), and every
instant that is read is one of the calendar.  The parts of a stamp are numbers of a fixed width with
signs between them, so there is one lemma for a number and one for each reader that is made of
numbers.
-/
import VectorQuery.Proofs.Instant.Calendar
import VectorQuery.Proofs.Lexer.Spelling
import VectorQuery.Proofs.Text

namespace VectorQuery.Instant

open Lexer (takeWhile_append_stop toNat_of_isDigit)
open Text (Reader isBlank decimalValue)

/-- An instant of a year that instants fall in.  Only the last second of a minute may be a leap
second. -/
structure Valid (t : Instant) : Prop where
  year : holdsYear (Date.ofDays (t.seconds.fdiv 86400)).year = true
  nanos_lt : t.nanos < 2000000000
  leap : 1000000000 ≤ t.nanos → t.seconds.fmod 60 = 59

/-! ## Numbers -/

theorem isBlank_of_isDigit {c : Char} (h : c.isDigit = true) : isBlank c = false := by
  have hn := toNat_of_isDigit h
  simp only [isBlank, Bool.or_eq_false_iff, Bool.and_eq_false_iff, decide_eq_false_iff_not,
    beq_eq_false_iff_ne]
  omega

theorem skip_eq_self {cs : List Char} (h : ∀ c ∈ cs.head?, isBlank c = false) : skip cs = cs := by
  cases cs with
  | nil => rfl
  | cons c rest => rw [skip, List.dropWhile_cons_of_neg (by simp [h c rfl])]

theorem toList_padded (width n : Nat) :
    (padded width n).toList =
      Number.zeros (width - (Number.digits n).length) ++ Number.digits n :=
  String.toList_ofList

theorem isDigit_of_mem_padded {width n : Nat} {c : Char} (h : c ∈ (padded width n).toList) :
    c.isDigit = true := by
  rw [toList_padded, List.mem_append] at h
  exact h.elim Number.isDigit_of_mem_zeros Number.isDigit_of_mem_digits

@[simp] theorem decimalValue_padded (width n : Nat) :
    decimalValue (padded width n).toList = n := by
  rw [toList_padded, Text.decimalValue_append, Text.decimalValue_zeros, Text.decimalValue_digits,
    Nat.mul_zero, Nat.zero_add]

theorem padded_ne_nil (width n : Nat) : (padded width n).toList ≠ [] := by
  rw [toList_padded]
  exact List.append_ne_nil_of_right_ne_nil _ (Number.digits_ne_nil n)

theorem length_padded {width n : Nat} (hwidth : 0 < width) (h : n < 10 ^ width) :
    (padded width n).toList.length = width := by
  have hle : (Number.digits n).length ≤ width :=
    (Nat.length_toDigits_le_iff (by decide) hwidth).2 h
  rw [toList_padded, List.length_append, Number.zeros, List.length_replicate]
  omega

/-- A padded number is a digit and more digits. -/
theorem exists_cons_padded (width n : Nat) :
    ∃ c cs, (padded width n).toList = c :: cs ∧ c.isDigit = true := by
  obtain ⟨c, cs, heq⟩ := List.exists_cons_of_ne_nil (padded_ne_nil width n)
  exact ⟨c, cs, heq, isDigit_of_mem_padded (heq ▸ List.mem_cons_self)⟩

theorem number_append {width : Nat} {ds rest : List Char} (hne : ds ≠ [])
    (hdigit : ∀ d ∈ ds, d.isDigit = true) (hwidth : ds.length ≤ width)
    (hstop : ∀ c ∈ rest.head?, c.isDigit = false) :
    number width (ds ++ rest) = some (decimalValue ds, rest) := by
  have hskip : skip (ds ++ rest) = ds ++ rest := by
    refine skip_eq_self fun c hc => isBlank_of_isDigit (hdigit c ?_)
    cases ds with
    | nil => exact absurd rfl hne
    | cons d ds =>
        obtain rfl : d = c := Option.some.inj hc
        exact List.mem_cons_self
  have hempty : ds.isEmpty = false := by
    rw [List.isEmpty_eq_false_iff]
    exact hne
  simp only [number, hskip, takeWhile_append_stop hdigit hstop, List.take_of_length_le hwidth,
    hempty, Bool.false_eq_true, if_false, List.drop_left]

theorem number_padded (width n : Nat) (hwidth : 0 < width) (h : n < 10 ^ width) {rest : List Char}
    (hstop : ∀ c ∈ rest.head?, c.isDigit = false) :
    number width ((padded width n).toList ++ rest) = some (n, rest) := by
  rw [number_append (padded_ne_nil width n) (fun _ => isDigit_of_mem_padded)
    (length_padded hwidth h).le hstop, decimalValue_padded]

theorem skip_cons {c : Char} (h : isBlank c = false) (rest : List Char) :
    skip (c :: rest) = c :: rest :=
  skip_eq_self fun d hd => by
    obtain rfl : c = d := Option.some.inj hd
    exact h

@[simp] theorem sign_cons {c : Char} (h : isBlank c = false) (rest : List Char) :
    sign c (c :: rest) = some ((), rest) := by
  rw [sign, skip_cons h, Reader.char, if_pos rfl]

/-! ## Dates -/

theorem head_isDigit_padded (width n : Nat) (rest : List Char) :
    ((padded width n).toList ++ rest).head?.any Char.isDigit = true := by
  obtain ⟨c, cs, heq, hc⟩ := exists_cons_padded width n
  rw [heq]
  exact hc

section Year

variable {n : Nat} {rest : List Char}

theorem number_length (hstop : ∀ c ∈ rest.head?, c.isDigit = false) :
    number ((padded 4 n).toList ++ rest).length ((padded 4 n).toList ++ rest) = some (n, rest) := by
  have hwidth : (padded 4 n).toList.length ≤ ((padded 4 n).toList ++ rest).length := by
    rw [List.length_append]
    exact Nat.le_add_right _ _
  rw [number_append (padded_ne_nil 4 n) (fun _ => isDigit_of_mem_padded) hwidth hstop,
    decimalValue_padded]

theorem year_cons_minus (cs : List Char) :
    year ('-' :: cs) =
      if cs.head?.any Char.isDigit then (number cs.length cs).map fun p => (-(p.1 : Int), p.2)
      else none := rfl

theorem year_cons_plus (cs : List Char) :
    year ('+' :: cs) =
      if cs.head?.any Char.isDigit then (number cs.length cs).map fun p => ((p.1 : Int), p.2)
      else none := rfl

theorem year_minus (hstop : ∀ c ∈ rest.head?, c.isDigit = false) :
    year ('-' :: ((padded 4 n).toList ++ rest)) = some (-(n : Int), rest) := by
  rw [year_cons_minus, if_pos (head_isDigit_padded 4 n rest), number_length hstop]
  rfl

theorem year_plus (hstop : ∀ c ∈ rest.head?, c.isDigit = false) :
    year ('+' :: ((padded 4 n).toList ++ rest)) = some ((n : Int), rest) := by
  rw [year_cons_plus, if_pos (head_isDigit_padded 4 n rest), number_length hstop]
  rfl

theorem year_plain (hn : n < 10 ^ 4) (hstop : ∀ c ∈ rest.head?, c.isDigit = false) :
    year ((padded 4 n).toList ++ rest) = some ((n : Int), rest) := by
  obtain ⟨c, cs, heq, hc⟩ := exists_cons_padded 4 n
  have hplain : year ((padded 4 n).toList ++ rest) =
      (number 4 ((padded 4 n).toList ++ rest)).map fun p => ((p.1 : Int), p.2) := by
    -- a digit is no sign
    rw [heq, List.cons_append, year, skip_cons (isBlank_of_isDigit hc)]
    split
    · next hcons => exact absurd hc (by rw [(List.cons.inj hcons).1]; decide)
    · next hcons => exact absurd hc (by rw [(List.cons.inj hcons).1]; decide)
    · rfl
  rw [hplain, number_padded 4 n (by decide) hn hstop]
  rfl

end Year

theorem year_yearText {y : Int} {rest : List Char} (hstop : ∀ c ∈ rest.head?, c.isDigit = false) :
    year ((yearText y).toList ++ rest) = some (y, rest) := by
  unfold yearText
  split
  case isTrue hrange =>
    rw [year_plain (by omega) hstop, Int.toNat_of_nonneg hrange.1]
  case isFalse hrange =>
    rw [String.toList_append, List.append_assoc]
    split
    case isTrue hneg =>
      have hsign (cs : List Char) : "-".toList ++ cs = '-' :: cs := rfl
      rw [hsign, year_minus hstop, Int.ofNat_natAbs_of_nonpos (by omega), Int.neg_neg]
    case isFalse hneg =>
      have hsign (cs : List Char) : "+".toList ++ cs = '+' :: cs := rfl
      rw [hsign, year_plus hstop, Int.natAbs_of_nonneg (by omega)]

/-- The date in the text of an instant. -/
def Date.text (d : Date) : String :=
  yearText d.year ++ "-" ++ padded 2 d.month ++ "-" ++ padded 2 d.day

theorem monthDays_le (year : Int) (month : Nat) : monthDays year month ≤ 31 := by
  unfold monthDays
  split
  · split <;> decide
  · split <;> decide

theorem date_text {d : Date} (h : d.IsDate) (hyear : holdsYear d.year = true) {rest : List Char}
    (hstop : ∀ c ∈ rest.head?, c.isDigit = false) :
    date (d.text.toList ++ rest) = some (d, rest) := by
  have hdash : ∀ cs : List Char, ∀ c ∈ ('-' :: cs).head?, c.isDigit = false := by
    rintro cs c ⟨⟩
    rfl
  have hmonth := number_padded 2 d.month (by decide)
    (Nat.lt_of_le_of_lt h.month_le (by decide)) (hdash ((padded 2 d.day).toList ++ rest))
  have hday := number_padded 2 d.day (by decide)
    (Nat.lt_of_le_of_lt (Nat.le_trans h.day_le (monthDays_le d.year d.month)) (by decide)) hstop
  have hsign (cs : List Char) : "-".toList ++ cs = '-' :: cs := rfl
  simp only [Date.text, String.toList_append, List.append_assoc, hsign, List.cons_append]
  simp only [date, year_yearText (hdash _), bind, Option.bind_some, sign_cons (c := '-') rfl,
    hmonth, hday]
  rw [if_pos ⟨hyear, h.month_pos, h.month_le, h.day_pos, h.day_le⟩]

/-! ## Times of day -/

theorem fraction_eq {n : Nat} (h : n < 1000000000) :
    n = 0 ∧ fraction n = "" ∨
      ∃ width k, 0 < width ∧ width ≤ 9 ∧ k < 10 ^ width ∧ k * 10 ^ (9 - width) = n ∧
        fraction n = "." ++ padded width k := by
  unfold fraction
  split
  case isTrue hzero => exact .inl ⟨hzero, rfl⟩
  case isFalse =>
    right
    split
    case isTrue => exact ⟨3, n / 1000000, by decide, by decide, by omega, by omega, rfl⟩
    case isFalse =>
      split
      case isTrue => exact ⟨6, n / 1000, by decide, by decide, by omega, by omega, rfl⟩
      case isFalse => exact ⟨9, n, by decide, by decide, h, Nat.mul_one n, rfl⟩

theorem nanosecond_point {width k : Nat} (hpos : 0 < width) (hle : width ≤ 9) (h : k < 10 ^ width)
    {rest : List Char} (hstop : ∀ c ∈ rest.head?, c.isDigit = false) :
    nanosecond ('.' :: ((padded width k).toList ++ rest)) = some (k * 10 ^ (9 - width), rest) := by
  have hlength := length_padded hpos h
  have hempty : (padded width k).toList.isEmpty = false := by
    rw [List.isEmpty_eq_false_iff]
    exact padded_ne_nil width k
  have htake : (padded width k).toList.take 9 = (padded width k).toList :=
    List.take_of_length_le (hlength.trans_le hle)
  simp only [nanosecond, takeWhile_append_stop (fun _ => isDigit_of_mem_padded) hstop, hempty,
    Bool.false_eq_true, if_false, htake, decimalValue_padded, List.drop_left]
  rw [hlength]

theorem nanosecond_fraction {n : Nat} (h : n < 1000000000) (rest : List Char) :
    nanosecond ((fraction n).toList ++ 'Z' :: rest) = some (n, 'Z' :: rest) := by
  rcases fraction_eq h with ⟨rfl, -⟩ | ⟨width, k, hpos, hle, hk, hn, heq⟩
  · rfl
  · have hpoint (cs : List Char) : ".".toList ++ cs = '.' :: cs := rfl
    rw [heq, String.toList_append, List.append_assoc, ← hn, hpoint]
    exact nanosecond_point hpos hle hk (by rintro c ⟨⟩; rfl)

theorem head_fraction {n : Nat} (h : n < 1000000000) (rest : List Char) :
    ∀ c ∈ ((fraction n).toList ++ 'Z' :: rest).head?, c.isDigit = false := by
  rcases fraction_eq h with ⟨rfl, -⟩ | ⟨width, k, -, -, -, -, heq⟩
  · rintro c ⟨⟩
    rfl
  · rw [heq, String.toList_append]
    rintro c ⟨⟩
    rfl

/-- The time of day in the text of an instant. -/
def clockText (hour minute second nanos : Nat) : String :=
  padded 2 hour ++ ":" ++ padded 2 minute ++ ":" ++ padded 2 second ++ fraction nanos

/-- The last second of a minute is a leap second when it is the sixtieth. -/
theorem time_clockText {hour minute second nanos : Nat} (hhour : hour < 24) (hminute : minute < 60)
    (hsecond : second ≤ 60) (hnanos : nanos < 1000000000) (rest : List Char) :
    time ((clockText hour minute second nanos).toList ++ 'Z' :: rest) =
      if second = 60 then some ((3600 * hour + 60 * minute + 59, nanos + 1000000000), 'Z' :: rest)
      else some ((3600 * hour + 60 * minute + second, nanos), 'Z' :: rest) := by
  have hcolon : ∀ cs : List Char, ∀ c ∈ (':' :: cs).head?, c.isDigit = false := by
    rintro cs c ⟨⟩
    rfl
  have hhour' := number_padded 2 hour (by decide) (by omega)
    (hcolon ((padded 2 minute).toList ++
      ':' :: ((padded 2 second).toList ++ ((fraction nanos).toList ++ 'Z' :: rest))))
  have hminute' := number_padded 2 minute (by decide) (by omega)
    (hcolon ((padded 2 second).toList ++ ((fraction nanos).toList ++ 'Z' :: rest)))
  have hsecond' := number_padded 2 second (by decide) (by omega)
    (head_fraction hnanos rest)
  have hsign (cs : List Char) : ":".toList ++ cs = ':' :: cs := rfl
  simp only [clockText, String.toList_append, List.append_assoc, hsign, List.cons_append]
  simp only [time, hhour', hminute', hsecond', nanosecond_fraction hnanos, bind, Option.bind_some,
    sign_cons (c := ':') rfl]
  rw [if_pos ⟨hhour, hminute, hsecond⟩]

/-! ## Stamps -/

/-- Whole seconds since midnight. -/
def secondOfDay (t : Instant) : Nat := (t.seconds.fmod 86400).toNat

theorem secondOfDay_eq (t : Instant) : (t.secondOfDay : Int) = t.seconds.fmod 86400 :=
  Int.toNat_of_nonneg (Int.fmod_nonneg_of_pos _ (by decide))

theorem secondOfDay_lt (t : Instant) : t.secondOfDay < 86400 := by
  have hlt := Int.fmod_lt_of_pos t.seconds (b := 86400) (by decide)
  rw [← secondOfDay_eq] at hlt
  omega

theorem secondOfDay_mod (t : Instant) : ((t.secondOfDay % 60 : Nat) : Int) = t.seconds.fmod 60 := by
  have hday := t.secondOfDay_eq
  rw [Int.fmod_eq_emod_of_nonneg _ (by decide)] at hday ⊢
  omega

/-- The time of day of an instant. -/
def clock (t : Instant) : String :=
  clockText (t.secondOfDay / 3600) (t.secondOfDay / 60 % 60)
    (t.secondOfDay % 60 + t.nanos / 1000000000) (t.nanos % 1000000000)

theorem toList_stamp (t : Instant) :
    t.stamp.toList =
      (Date.ofDays (t.seconds.fdiv 86400)).text.toList ++ 'T' :: (t.clock.toList ++ ['Z']) := by
  simp only [stamp, wallClock, Date.text, clock, clockText, String.toList_append,
    List.append_assoc]
  rfl

theorem time_clock {t : Instant} (h : t.Valid) :
    time (t.clock.toList ++ ['Z']) = some ((t.secondOfDay, t.nanos), ['Z']) := by
  have hday := t.secondOfDay_lt
  have hnanos := h.nanos_lt
  have hleap : 1000000000 ≤ t.nanos → t.secondOfDay % 60 = 59 := fun hle => by
    have heq := t.secondOfDay_mod
    rw [h.leap hle] at heq
    omega
  refine (time_clockText (by omega) (by omega) (by omega) (by omega) []).trans ?_
  split
  case isTrue hsixty =>
    have hseconds : 3600 * (t.secondOfDay / 3600) + 60 * (t.secondOfDay / 60 % 60) + 59 =
        t.secondOfDay := by omega
    have hnanoseconds : t.nanos % 1000000000 + 1000000000 = t.nanos := by omega
    rw [hseconds, hnanoseconds]
  case isFalse hsixty =>
    have hextra : t.nanos / 1000000000 = 0 := by omega
    have hseconds : 3600 * (t.secondOfDay / 3600) + 60 * (t.secondOfDay / 60 % 60) +
        t.secondOfDay % 60 = t.secondOfDay := by omega
    rw [hextra, Nat.add_zero, hseconds, Nat.mod_eq_of_lt (by omega)]

/-- **Stamps.** An instant of the calendar is read back from its stamp. -/
theorem ofText?_stamp {t : Instant} (h : t.Valid) : ofText? t.stamp = some t := by
  have hstop : ∀ c ∈ ('T' :: (t.clock.toList ++ ['Z'])).head?, c.isDigit = false := by
    rintro c ⟨⟩
    rfl
  have hdate := date_text (Date.isDate_ofDays (t.seconds.fdiv 86400)) h.year hstop
  have htotal : t.seconds.fdiv 86400 * 86400 + (t.secondOfDay : Int) - 0 = t.seconds := by
    rw [secondOfDay_eq, Int.sub_zero, Int.mul_comm]
    exact Int.mul_fdiv_add_fmod t.seconds 86400
  have hoffset : offset ['Z'] = some (0, []) := rfl
  simp only [ofText?, toList_stamp, hdate, bind, Option.bind_some, true_or, if_true, time_clock h,
    hoffset, Date.days_ofDays, htotal, h.year]
  rfl

/-! ## Instants that are read -/

theorem decimalValue_lt {ds : List Char} (h : ∀ d ∈ ds, d.isDigit = true) :
    decimalValue ds < 10 ^ ds.length := by
  induction ds with
  | nil => decide
  | cons d ds ih =>
      have hrest := ih fun c hc => h c (List.mem_cons_of_mem d hc)
      have hdigit := toNat_of_isDigit (h d List.mem_cons_self)
      have hhead : decimalValue [d] = d.toNat - 48 := Nat.zero_add _
      have hle : 10 ^ ds.length * decimalValue [d] ≤ 10 ^ ds.length * 9 :=
        Nat.mul_le_mul_left _ (by omega)
      rw [← List.singleton_append, Text.decimalValue_append, List.length_append,
        List.length_singleton, Nat.pow_add, Nat.pow_one]
      omega

theorem nanosecond_lt {cs rest : List Char} {n : Nat} (h : nanosecond cs = some (n, rest)) :
    n < 1000000000 := by
  unfold nanosecond at h
  split at h
  case h_1 cs' =>
    have hdigit : ∀ d ∈ (cs'.takeWhile Char.isDigit).take 9, d.isDigit = true := fun d hd =>
      List.all_eq_true.1 List.all_takeWhile d (List.mem_of_mem_take hd)
    have hvalue := decimalValue_lt hdigit
    have hlength : ((cs'.takeWhile Char.isDigit).take 9).length ≤ 9 := List.length_take_le _ _
    dsimp only at h
    split at h
    · exact nomatch h
    · obtain ⟨rfl, -⟩ := Prod.mk.inj (Option.some.inj h)
      generalize ((cs'.takeWhile Char.isDigit).take 9).length = width at *
      calc decimalValue ((cs'.takeWhile Char.isDigit).take 9) * 10 ^ (9 - width)
          < 10 ^ width * 10 ^ (9 - width) :=
            Nat.mul_lt_mul_of_pos_right hvalue (Nat.pow_pos (by decide))
        _ = 10 ^ 9 := by rw [← Nat.pow_add, Nat.add_sub_cancel' hlength]
  case h_2 =>
    obtain ⟨rfl, -⟩ := Prod.mk.inj (Option.some.inj h)
    decide

/-- A time of day ends in a leap second, or it is short of a second. -/
theorem time_spec {cs rest : List Char} {seconds nanos : Nat}
    (h : time cs = some ((seconds, nanos), rest)) :
    nanos < 2000000000 ∧ (1000000000 ≤ nanos → seconds % 60 = 59) := by
  simp only [time, bind, Option.bind_eq_some_iff, Prod.exists] at h
  obtain ⟨hour, _, -, _, _, -, minute, _, -, _, _, -, second, _, -, n, _, hn, hif⟩ := h
  have hlt := nanosecond_lt hn
  split at hif
  case isFalse => exact nomatch hif
  case isTrue =>
    split at hif
    · obtain ⟨⟨rfl, rfl⟩, -⟩ := (by simpa using hif : (_ ∧ _) ∧ _)
      omega
    · obtain ⟨⟨rfl, rfl⟩, -⟩ := (by simpa using hif : (_ ∧ _) ∧ _)
      omega

theorem offsetBody_minutes {cs rest : List Char} {off : Int}
    (h : offsetBody cs = some (off, rest)) : off % 60 = 0 := by
  simp only [offsetBody, bind, Option.bind_eq_some_iff, Prod.exists] at h
  obtain ⟨hour, _, -, minute, _, -, hif⟩ := h
  split at hif
  · obtain ⟨rfl, -⟩ := Prod.mk.inj (Option.some.inj hif)
    omega
  · exact nomatch hif

/-- Offsets are whole minutes. -/
theorem offset_minutes {cs rest : List Char} {off : Int} (h : offset cs = some (off, rest)) :
    off % 60 = 0 := by
  unfold offset at h
  split at h
  case h_1 =>
    split at h
    · obtain ⟨rfl, -⟩ := Prod.mk.inj (Option.some.inj h)
      rfl
    split at h
    · obtain ⟨rfl, -⟩ := Prod.mk.inj (Option.some.inj h)
      rfl
    split at h
    · exact offsetBody_minutes h
    split at h
    · obtain ⟨⟨off', rest'⟩, hbody, heq⟩ := Option.map_eq_some_iff.1 h
      obtain ⟨rfl, -⟩ := Prod.mk.inj heq
      have := offsetBody_minutes hbody
      omega
    · exact nomatch h
  case h_2 =>
    split at h
    · obtain ⟨rfl, -⟩ := Prod.mk.inj (Option.some.inj h)
      rfl
    · exact nomatch h
  case h_3 => exact nomatch h

/-- Every instant that is read is one of the calendar. -/
theorem valid_of_ofText? {s : String} {t : Instant} (h : ofText? s = some t) : t.Valid := by
  obtain ⟨⟨d, cs⟩, -, h⟩ := Option.bind_eq_some_iff.1 h
  dsimp only [bind] at h
  have hparts : ∃ cs, ((time cs).bind fun a => (offset a.2).bind fun b =>
      if ((skip b.2).isEmpty &&
        holdsYear (Date.ofDays ((d.days * 86400 + a.1.1 - b.1).fdiv 86400)).year) = true
      then some (⟨d.days * 86400 + a.1.1 - b.1, a.1.2⟩ : Instant) else none) = some t := by
    split at h
    · split at h
      · exact ⟨_, h⟩
      · exact nomatch h
    · exact nomatch h
  simp only [Option.bind_eq_some_iff, Prod.exists] at hparts
  obtain ⟨_, seconds, nanos, _, htime, off, _, hoff, hif⟩ := hparts
  obtain ⟨hnanos, hleap⟩ := time_spec htime
  have hminutes := offset_minutes hoff
  split at hif
  case isTrue hyear =>
    obtain rfl := Option.some.inj hif
    refine ⟨(Bool.and_eq_true_iff.1 hyear).2, hnanos, fun hle => ?_⟩
    have hsecond := hleap hle
    rw [Int.fmod_eq_emod_of_nonneg _ (by decide)]
    dsimp only
    omega
  case isFalse => exact nomatch hif

/-! ## No blanks -/

theorem isSolid_padded (width n : Nat) : Text.IsSolid (padded width n).toList :=
  fun _ hc => isBlank_of_isDigit (isDigit_of_mem_padded hc)

theorem isSolid_fraction (nanos : Nat) : Text.IsSolid (fraction nanos).toList := by
  have hpoint : Text.IsSolid ".".toList := by decide
  have hdigits (width n : Nat) : Text.IsSolid ("." ++ padded width n).toList := by
    rw [String.toList_append, Text.isSolid_append]
    exact ⟨hpoint, isSolid_padded width n⟩
  unfold fraction
  repeat' split
  · exact nofun
  all_goals exact hdigits _ _

theorem isSolid_yearText (year : Int) : Text.IsSolid (yearText year).toList := by
  have hsigns : Text.IsSolid "-".toList ∧ Text.IsSolid "+".toList := by decide
  unfold yearText
  split
  · exact isSolid_padded _ _
  · rw [String.toList_append, Text.isSolid_append]
    refine ⟨?_, isSolid_padded _ _⟩
    split
    · exact hsigns.1
    · exact hsigns.2

/-- A time in text has no blank. -/
theorem isSolid_text (t : Instant) : Text.IsSolid t.text.toList := by
  have hsigns : Text.IsSolid "-".toList ∧ Text.IsSolid "T".toList ∧ Text.IsSolid ":".toList ∧
      Text.IsSolid "+00:00".toList := by
    decide
  simp only [text, wallClock, String.toList_append, Text.isSolid_append, isSolid_yearText,
    isSolid_padded, isSolid_fraction, hsigns, and_self]

end VectorQuery.Instant
