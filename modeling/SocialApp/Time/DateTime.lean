import Mathlib.Data.Nat.Find
import Mathlib.Data.String.Basic

/-! # Local times and their texts

`DateTime.toString` of Dart writes a local time as year, month, day, hour, minute,
second and fraction, each of a fixed width, so that the texts are ordered as the
times are.  The microseconds are left out when they are zero, which keeps the
order, since a text comes before its continuations. -/

namespace SocialApp
namespace Time

/-! ## Fields of a fixed width -/

/-- The last `w` decimal digits of `n`, the most significant first. -/
def digits : Nat → Nat → List Char
  | 0, _ => []
  | w + 1, n => Nat.digitChar (n / 10 ^ w) :: digits w (n % 10 ^ w)

theorem digitChar_lt : ∀ d' < 10, ∀ d < d', Nat.digitChar d < Nat.digitChar d' := by
  decide

/-- Texts that begin with a field of one width are ordered by it, and then by what
follows. -/
theorem field_lt {w n n' : Nat} {rest rest' : List Char} (hn' : n' < 10 ^ w)
    (h : n < n' ∨ n = n' ∧ rest < rest') : digits w n ++ rest < digits w n' ++ rest' := by
  induction w generalizing n n' with
  | zero =>
    rw [Nat.pow_zero] at hn'
    exact (h.resolve_left (by omega)).2
  | succ w ih =>
    rw [digits, digits, List.cons_append, List.cons_append, List.cons_lt_cons_iff]
    have hpos : 0 < 10 ^ w := Nat.pow_pos (by omega)
    have hten : n' / 10 ^ w < 10 := by
      rw [Nat.div_lt_iff_lt_mul hpos, Nat.mul_comm, ← Nat.pow_succ]
      exact hn'
    have hle : n / 10 ^ w ≤ n' / 10 ^ w := Nat.div_le_div_right (by omega)
    rcases Nat.lt_or_eq_of_le hle with hlt | heq
    · exact Or.inl (digitChar_lt _ hten _ hlt)
    · refine Or.inr ⟨by rw [heq], ih (Nat.mod_lt _ hpos) ?_⟩
      have hn := Nat.div_add_mod n (10 ^ w)
      have hn'' := Nat.div_add_mod n' (10 ^ w)
      rw [heq] at hn
      rcases h with hlt | ⟨hn, hrest⟩
      · exact Or.inl (by omega)
      · exact Or.inr ⟨by omega, hrest⟩

/-! ## The time of the day -/

/-- The microseconds after the last full millisecond, left out when there are none. -/
def microText (t : Nat) : List Char :=
  if t % 1000 = 0 then [] else digits 3 (t % 1000)

/-- `hh:mm:ss.mmmuuu`, for the microseconds since midnight. -/
def timeText (t : Nat) : List Char :=
  digits 2 (t / 3600000000) ++ ':' :: (digits 2 (t / 60000000 % 60) ++
    ':' :: (digits 2 (t / 1000000 % 60) ++ '.' :: (digits 3 (t / 1000 % 1000) ++ microText t)))

theorem microText_lt {t t' : Nat} (h : t % 1000 < t' % 1000) : microText t < microText t' := by
  have hpos : t' % 1000 ≠ 0 := by omega
  unfold microText
  rw [if_neg hpos]
  by_cases h0 : t % 1000 = 0
  · rw [if_pos h0]
    exact List.nil_lt_cons _ _
  · rw [if_neg h0, ← List.append_nil (digits 3 (t % 1000)), ← List.append_nil (digits 3 _)]
    have hlt : t' % 1000 < 10 ^ 3 := Nat.mod_lt _ (by decide)
    exact field_lt hlt (Or.inl h)

/-- A field of the time, then a sign, then the smaller fields. -/
theorem field_sign_lt {w n n' : Nat} {sign : Char} {rest rest' : List Char} (hn' : n' < 10 ^ w)
    (hle : n ≤ n') (h : n = n' → rest < rest') :
    digits w n ++ sign :: rest < digits w n' ++ sign :: rest' := by
  refine field_lt hn' ?_
  rcases Nat.lt_or_eq_of_le hle with hlt | heq
  · exact Or.inl hlt
  · exact Or.inr ⟨heq, List.cons_lt_cons_iff.mpr (Or.inr ⟨rfl, h heq⟩)⟩

theorem timeText_lt {t t' : Nat} (h : t < t') (ht' : t' < 86400000000) :
    timeText t < timeText t' := by
  unfold timeText
  refine field_sign_lt (by omega) (by omega) fun hhour => ?_
  refine field_sign_lt (by omega) (by omega) fun hminute => ?_
  refine field_sign_lt (by omega) (by omega) fun hsecond => ?_
  refine field_lt (by omega) ?_
  have hmilli : t / 1000 % 1000 < t' / 1000 % 1000 ∨
      t / 1000 % 1000 = t' / 1000 % 1000 ∧ t % 1000 < t' % 1000 := by omega
  exact hmilli.imp_right fun heq => ⟨heq.1, microText_lt heq.2⟩

/-! ## The date -/

/-- The leap years among the first `y` years, beginning with the year 0. -/
def leaps (y : Nat) : Nat := (y + 3) / 4 - (y + 99) / 100 + (y + 399) / 400

def isLeap (y : Nat) : Bool := y % 4 = 0 && (y % 100 ≠ 0 || y % 400 = 0)

/-- The days before the first of January of a year. -/
def yearStart (y : Nat) : Nat := 365 * y + leaps y

theorem leaps_succ (y : Nat) : leaps (y + 1) = leaps y + if isLeap y then 1 else 0 := by
  have h₄ : (y + 1 + 3) / 4 = (y + 3) / 4 + if y % 4 = 0 then 1 else 0 := by split <;> omega
  have h₁₀₀ : (y + 1 + 99) / 100 = (y + 99) / 100 + if y % 100 = 0 then 1 else 0 := by
    split <;> omega
  have h₄₀₀ : (y + 1 + 399) / 400 = (y + 399) / 400 + if y % 400 = 0 then 1 else 0 := by
    split <;> omega
  have hle : (y + 99) / 100 ≤ (y + 3) / 4 := by omega
  unfold leaps
  rw [h₄, h₁₀₀, h₄₀₀]
  generalize (y + 3) / 4 = a at *
  generalize (y + 99) / 100 = b at *
  by_cases h4 : y % 4 = 0
  · by_cases h100 : y % 100 = 0
    · by_cases h400 : y % 400 = 0
      · have hleap : isLeap y = true := by simp [isLeap, h4, h400]
        rw [if_pos h4, if_pos h100, if_pos h400, if_pos hleap]
        omega
      · have hleap : ¬ isLeap y = true := by simp [isLeap, h100, h400]
        rw [if_pos h4, if_pos h100, if_neg h400, if_neg hleap]
        omega
    · have h400 : y % 400 ≠ 0 := by omega
      have hleap : isLeap y = true := by simp [isLeap, h4, h100]
      rw [if_pos h4, if_neg h100, if_neg h400, if_pos hleap]
      omega
  · have h100 : y % 100 ≠ 0 := by omega
    have h400 : y % 400 ≠ 0 := by omega
    have hleap : ¬ isLeap y = true := by simp [isLeap, h4]
    rw [if_neg h4, if_neg h100, if_neg h400, if_neg hleap]
    omega

theorem yearStart_succ (y : Nat) :
    yearStart (y + 1) = yearStart y + 365 + if isLeap y then 1 else 0 := by
  unfold yearStart
  rw [leaps_succ]
  omega

theorem yearStart_mono {y y' : Nat} (h : y ≤ y') : yearStart y ≤ yearStart y' := by
  induction h with
  | refl => exact Nat.le_refl _
  | step _ ih =>
    rw [yearStart_succ]
    omega

/-- The year of a day, counted from the first day of the year 0. -/
def yearOf (day : Nat) : Nat := Nat.findGreatest (fun y => yearStart y ≤ day) (day / 365)

theorem yearStart_yearOf (day : Nat) : yearStart (yearOf day) ≤ day :=
  Nat.findGreatest_spec (P := fun y => yearStart y ≤ day) (Nat.zero_le _) (Nat.zero_le _)

theorem lt_yearStart_succ (day : Nat) : day < yearStart (yearOf day + 1) := by
  by_cases hle : yearOf day + 1 ≤ day / 365
  · have hnot := Nat.findGreatest_is_greatest (P := fun y => yearStart y ≤ day)
      (Nat.lt_succ_self (yearOf day)) hle
    exact Nat.lt_of_not_le hnot
  · have hyear : 365 * (yearOf day + 1) ≤ yearStart (yearOf day + 1) := Nat.le_add_right _ _
    omega

theorem yearOf_le {day y : Nat} (h : day < yearStart (y + 1)) : yearOf day ≤ y := by
  by_contra hlt
  have hstart := yearStart_yearOf day
  have hmono : yearStart (y + 1) ≤ yearStart (yearOf day) := yearStart_mono (by omega)
  omega

/-- The days of a year before the first of a month, January being 0. -/
def monthStart (leap : Bool) (m : Nat) : Nat :=
  [0, 31, 59, 90, 120, 151, 181, 212, 243, 273, 304, 334].getD m 365 +
    if leap ∧ 2 ≤ m then 1 else 0

theorem monthStart_succ_le :
    ∀ leap, ∀ m < 12, monthStart leap (m + 1) ≤ monthStart leap m + 31 := by
  decide

/-- The month of a day of the year. -/
def monthOf (leap : Bool) (day : Nat) : Nat :=
  Nat.findGreatest (fun m => monthStart leap m ≤ day) 11

theorem monthOf_lt (leap : Bool) (day : Nat) : monthOf leap day < 12 :=
  Nat.lt_succ_of_le (Nat.findGreatest_le 11)

theorem monthStart_monthOf (leap : Bool) (day : Nat) :
    monthStart leap (monthOf leap day) ≤ day :=
  Nat.findGreatest_spec (P := fun m => monthStart leap m ≤ day) (Nat.zero_le _)
    (by cases leap <;> exact Nat.zero_le _)

theorem lt_monthStart_succ {leap : Bool} {day : Nat} (h : day < monthStart leap 12) :
    day < monthStart leap (monthOf leap day + 1) := by
  rcases Nat.lt_or_eq_of_le (Nat.le_of_lt_succ (monthOf_lt leap day)) with hlt | heq
  · have hnot := Nat.findGreatest_is_greatest (P := fun m => monthStart leap m ≤ day)
      (Nat.lt_succ_self (monthOf leap day)) hlt
    exact Nat.lt_of_not_le hnot
  · rw [heq]
    exact h

theorem monthOf_mono {leap : Bool} {day day' : Nat} (h : day ≤ day') :
    monthOf leap day ≤ monthOf leap day' :=
  Nat.le_findGreatest (Nat.findGreatest_le 11) (Nat.le_trans (monthStart_monthOf leap day) h)

/-- The day of the year of a day. -/
def dayOfYear (day : Nat) : Nat := day - yearStart (yearOf day)

theorem dayOfYear_lt (day : Nat) : dayOfYear day < monthStart (isLeap (yearOf day)) 12 := by
  have hlt := lt_yearStart_succ day
  have hle := yearStart_yearOf day
  rw [yearStart_succ] at hlt
  unfold dayOfYear
  cases hleap : isLeap (yearOf day) with
  | false =>
    rw [hleap] at hlt
    show _ < 365
    simp only [Bool.false_eq_true, if_false] at hlt
    omega
  | true =>
    rw [hleap] at hlt
    show _ < 366
    simp only [if_true] at hlt
    omega

/-- `yyyy-mm-dd`, for the days since the first of January of the year 0. -/
def dateText (day : Nat) : List Char :=
  let y := yearOf day
  let m := monthOf (isLeap y) (dayOfYear day)
  digits 4 y ++ '-' :: (digits 2 (m + 1) ++
    '-' :: digits 2 (dayOfYear day - monthStart (isLeap y) m + 1))

theorem dateText_lt {day day' : Nat} {rest rest' : List Char} (h : day < day')
    (hday' : day' < yearStart 10000) : dateText day ++ rest < dateText day' ++ rest' := by
  have hyear' : yearOf day' < 10000 := Nat.lt_succ_of_le (yearOf_le hday')
  have hyear : yearOf day ≤ yearOf day' :=
    yearOf_le (Nat.lt_trans h (lt_yearStart_succ day'))
  unfold dateText
  simp only [List.append_assoc, List.cons_append]
  refine field_sign_lt hyear' hyear fun hy => ?_
  -- the days are of the same year
  have hdays : dayOfYear day < dayOfYear day' := by
    have hle := yearStart_yearOf day
    unfold dayOfYear
    rw [hy] at hle ⊢
    omega
  have hmonth := @monthOf_mono (isLeap (yearOf day')) _ _ (Nat.le_of_lt hdays)
  have hlt := monthOf_lt (isLeap (yearOf day')) (dayOfYear day')
  rw [hy]
  refine field_sign_lt (by omega) (by omega) fun hm => ?_
  have hm : monthOf (isLeap (yearOf day')) (dayOfYear day) =
      monthOf (isLeap (yearOf day')) (dayOfYear day') := by omega
  have hle := monthStart_monthOf (isLeap (yearOf day')) (dayOfYear day)
  have hnext := lt_monthStart_succ (dayOfYear_lt day')
  have hwidth := monthStart_succ_le (isLeap (yearOf day')) _ hlt
  rw [hm] at hle ⊢
  exact field_lt (by omega) (Or.inl (by omega))

/-! ## Times -/

/-- The microseconds of a day. -/
def dayLength : Nat := 86400000000

/-- A local time, in microseconds since the beginning of the year 0.  The year has
at most four digits. -/
structure DateTime where
  micros : Nat
  year_lt : micros < yearStart 10000 * dayLength

namespace DateTime

/-- The beginning of the year 0. -/
def zero : DateTime := ⟨0, by decide⟩

/-- The text of a local time, as in `2022-01-31 09:05:00.000250`. -/
def toString (t : DateTime) : String :=
  String.ofList (dateText (t.micros / dayLength) ++ ' ' :: timeText (t.micros % dayLength))

theorem toString_lt {t t' : DateTime} (h : t.micros < t'.micros) : t.toString < t'.toString := by
  rw [String.lt_iff_toList_lt]
  unfold toString
  rw [String.toList_ofList, String.toList_ofList]
  have hpos : 0 < dayLength := by decide
  have hle : t.micros / dayLength ≤ t'.micros / dayLength :=
    Nat.div_le_div_right (Nat.le_of_lt h)
  rcases Nat.lt_or_eq_of_le hle with hlt | heq
  · exact dateText_lt hlt ((Nat.div_lt_iff_lt_mul hpos).mpr t'.year_lt)
  · rw [heq]
    refine List.append_left_lt (List.cons_lt_cons_iff.mpr (Or.inr ⟨rfl, ?_⟩))
    have hdiv := Nat.div_add_mod t.micros dayLength
    have hdiv' := Nat.div_add_mod t'.micros dayLength
    rw [heq] at hdiv
    exact timeText_lt (by omega) (Nat.mod_lt _ hpos)

theorem ext_micros {t t' : DateTime} (h : t.micros = t'.micros) : t = t' := by
  cases t
  cases t'
  cases h
  rfl

/-- The texts of times are ordered as the times are. -/
theorem toString_lt_iff {t t' : DateTime} : t.toString < t'.toString ↔ t.micros < t'.micros := by
  refine ⟨fun h => ?_, toString_lt⟩
  rcases Nat.lt_trichotomy t.micros t'.micros with hlt | heq | hgt
  · exact hlt
  · rw [ext_micros heq] at h
    exact absurd h (lt_irrefl _)
  · exact absurd h (lt_asymm (toString_lt hgt))

/-- Different times have different texts. -/
theorem toString_inj {t t' : DateTime} : t.toString = t'.toString ↔ t = t' := by
  refine ⟨fun h => ext_micros ?_, congrArg _⟩
  rcases Nat.lt_trichotomy t.micros t'.micros with hlt | heq | hgt
  · exact absurd h (ne_of_lt (toString_lt hlt))
  · exact heq
  · exact absurd h (ne_of_gt (toString_lt hgt))

example : (DateTime.mk 63810839100000250 (by decide)).toString = "2022-01-31 09:05:00.000250" := by
  decide

end DateTime

end Time
end SocialApp
