import AuroraGateway.Foundation.Bytes
import Mathlib.Tactic.SplitIfs

/-!
# The schedule of backups

`ValidateCron` accepts an expression of five fields and `MatchCron` compares it
with a time.  What the fields mean is laid down in crontab(5).
-/

namespace AuroraGateway.ControlPlane

open Foundation

/-! ## Fields -/

def readPart (part : Bytes) : Option (Int × Int) :=
  if part.contains 45 then
    match part.splitOn 45 with
    | [start, stop] =>
      (parseI64 start).bind fun start => (parseI64 stop).map fun stop => (start, stop)
    | _ => none
  else (parseI64 part).map fun val => (val, val)

def validateCronField (min max : Int) (field : Bytes) : Bool :=
  if field = ascii "*" then true
  else if (ascii "*/").isPrefixOf field then
    (parseI64 (field.drop 2)).any fun step => 0 < step && step ≤ max
  else (field.splitOn 44).all fun part =>
    (readPart part).any fun range =>
      min ≤ range.1 && range.2 ≤ max && range.1 ≤ range.2

def matchField (field : Bytes) (val : Int) : Bool :=
  if field = ascii "*" then true
  else if (ascii "*/").isPrefixOf field then
    (parseI64 (field.drop 2)).any fun step => 0 < step && val.tmod step == 0
  else (field.splitOn 44).any fun part =>
    (readPart part).any fun range => range.1 ≤ val && val ≤ range.2

def matchWeekday (field : Bytes) (weekday : Int) : Bool :=
  field == ascii "*" || matchField field weekday || weekday == 0 && matchField field 7

def Selects (low : Int) (field : Bytes) (val : Int) : Prop :=
  if field = ascii "*" then True
  else if (ascii "*/").isPrefixOf field then
    ∃ step, parseI64 (field.drop 2) = some step ∧ 0 < step ∧ step ∣ val - low
  else ∃ part ∈ field.splitOn 44, ∃ range, readPart part = some range ∧
    range.1 ≤ val ∧ val ≤ range.2

def SelectsWeekday (field : Bytes) (weekday : Int) : Prop :=
  Selects 0 field weekday ∨ weekday = 0 ∧ Selects 0 field 7

def starred (field : Bytes) : Bool := field.head? == some 42

def Stepped (field : Bytes) : Prop :=
  (ascii "*/").isPrefixOf field = true ∧ ∃ step, parseI64 (field.drop 2) = some step ∧ 2 ≤ step

variable {low high val : Int} {field : Bytes}

theorem matchField_iff (hval : 0 ≤ val) : matchField field val = true ↔ Selects 0 field val := by
  unfold matchField Selects
  split_ifs
  · simp
  · simp only [Option.any_eq_true, Bool.and_eq_true, decide_eq_true_eq, beq_iff_eq, Int.sub_zero,
      Int.tmod_eq_emod_of_nonneg hval, Int.dvd_iff_emod_eq_zero]
  · simp [Option.any_eq_true]

theorem matchWeekday_iff (hval : 0 ≤ val) :
    matchWeekday field val = true ↔ SelectsWeekday field val := by
  have hall : field = ascii "*" → Selects 0 field val := by
    rintro rfl
    trivial
  simp only [matchWeekday, SelectsWeekday, Bool.or_eq_true, Bool.and_eq_true, beq_iff_eq,
    matchField_iff hval, @matchField_iff 7 field (by decide), or_iff_right_of_imp hall]

theorem selects_iff_of_not_stepped (h : ¬Stepped field) :
    Selects 1 field val ↔ Selects 0 field val := by
  unfold Selects
  split_ifs with hall hstep
  · rfl
  · constructor <;>
    · rintro ⟨step, hread, hpos, -⟩
      have hone : step = 1 := by
        by_contra hne
        exact h ⟨hstep, step, hread, by omega⟩
      exact ⟨step, hread, hpos, by rw [hone]; exact Int.one_dvd _⟩
  · rfl

theorem Stepped.selects_one (h : Stepped field) : Selects 1 field 1 ∧ ¬Selects 0 field 1 := by
  obtain ⟨hstep, step, hread, htwo⟩ := h
  have hall : field ≠ ascii "*" := by
    rintro rfl
    cases hstep
  simp only [Selects, if_neg hall, if_pos hstep, hread, Option.some.injEq]
  refine ⟨⟨step, rfl, by omega, by simp⟩, ?_⟩
  rintro ⟨_, rfl, -, hdvd⟩
  have := Int.le_of_dvd (by decide) hdvd
  omega

theorem Stepped.starred (h : Stepped field) : starred field = true := by
  obtain ⟨tail, rfl⟩ := List.isPrefixOf_iff_prefix.mp h.1
  rfl

theorem exists_selected (hle : low ≤ high) (h : validateCronField low high field = true) :
    ∃ val, (low ≤ val ∧ val ≤ high) ∧ Selects low field val := by
  unfold validateCronField at h
  unfold Selects
  split_ifs at h ⊢ with hall hstep
  · exact ⟨low, ⟨Int.le_refl _, hle⟩, trivial⟩
  · obtain ⟨step, hread, hbounds⟩ := (Option.any_eq_true _ _).mp h
    simp only [Bool.and_eq_true, decide_eq_true_eq] at hbounds
    exact ⟨low, ⟨Int.le_refl _, hle⟩, step, hread, hbounds.1, by simp⟩
  · obtain ⟨part, hpart⟩ := List.exists_mem_of_ne_nil _ (List.splitOn_ne_nil 44 field)
    obtain ⟨range, hread, hbounds⟩ :=
      (Option.any_eq_true _ _).mp (List.all_eq_true.mp h part hpart)
    simp only [Bool.and_eq_true, decide_eq_true_eq] at hbounds
    exact ⟨range.1, by omega, part, hpart, range, hread, by omega⟩

theorem exists_selectedWeekday (h : validateCronField 0 7 field = true) :
    ∃ weekday, (0 ≤ weekday ∧ weekday ≤ 6) ∧ SelectsWeekday field weekday := by
  obtain ⟨val, hrange, hselects⟩ := exists_selected (by decide) h
  by_cases hseven : val = 7
  · subst hseven
    exact ⟨0, by decide, .inr ⟨rfl, hselects⟩⟩
  · exact ⟨val, by omega, .inl hselects⟩

/-! ## Times -/

def monthLength (month : Int) : Int :=
  if month = 2 then 29 else if month ∈ [4, 6, 9, 11] then 30 else 31

/-- A day of some year; every combination occurs. -/
structure CalendarDay where
  month : Int
  day : Int
  weekday : Int
  month_range : 1 ≤ month ∧ month ≤ 12
  day_range : 1 ≤ day ∧ day ≤ monthLength month
  weekday_range : 0 ≤ weekday ∧ weekday ≤ 6

structure Moment extends CalendarDay where
  hour : Int
  minute : Int
  hour_range : 0 ≤ hour ∧ hour ≤ 23
  minute_range : 0 ≤ minute ∧ minute ≤ 59

/-- The texts are the fields of the expression, as `strings.Fields` gives them. -/
def validateCron : List Bytes → Bool
  | [minute, hour, day, month, weekday] =>
    validateCronField 0 59 minute && validateCronField 0 23 hour &&
      validateCronField 1 31 day && validateCronField 1 12 month &&
      validateCronField 0 7 weekday
  | _ => false

def matchCron (fields : List Bytes) (t : Moment) : Option Bool :=
  match fields with
  | [minute, hour, day, month, weekday] =>
    some (matchField minute t.minute && matchField hour t.hour && matchField day t.day &&
      matchField month t.month && matchWeekday weekday t.weekday)
  | _ => none

structure AcceptedCron where
  minute : Bytes
  hour : Bytes
  day : Bytes
  month : Bytes
  weekday : Bytes
  accepted : validateCron [minute, hour, day, month, weekday] = true

namespace AcceptedCron

variable (c : AcceptedCron)

def Day (d : CalendarDay) : Prop :=
  Selects 1 c.month d.month ∧
    if starred c.day || starred c.weekday then
      Selects 1 c.day d.day ∧ SelectsWeekday c.weekday d.weekday
    else Selects 1 c.day d.day ∨ SelectsWeekday c.weekday d.weekday

def MatchedDay (d : CalendarDay) : Prop :=
  Selects 0 c.day d.day ∧ Selects 0 c.month d.month ∧ SelectsWeekday c.weekday d.weekday

def Time (t : Moment) : Prop := Selects 0 c.minute t.minute ∧ Selects 0 c.hour t.hour

def FollowsCrontab : Prop :=
  ∀ t, matchCron [c.minute, c.hour, c.day, c.month, c.weekday] t = some true ↔
    c.Time t ∧ c.Day t.toCalendarDay

theorem fields_accepted :
    validateCronField 0 59 c.minute = true ∧ validateCronField 0 23 c.hour = true ∧
      validateCronField 1 31 c.day = true ∧ validateCronField 1 12 c.month = true ∧
      validateCronField 0 7 c.weekday = true := by
  simpa [validateCron, and_assoc] using c.accepted

theorem matchCron_iff (t : Moment) :
    matchCron [c.minute, c.hour, c.day, c.month, c.weekday] t = some true ↔
      c.Time t ∧ c.MatchedDay t.toCalendarDay := by
  have hday : 0 ≤ t.day := Int.le_trans (by decide) t.day_range.1
  have hmonth : 0 ≤ t.month := Int.le_trans (by decide) t.month_range.1
  simp only [matchCron, Option.some.injEq, Bool.and_eq_true, Time, MatchedDay, and_assoc,
    matchField_iff t.minute_range.1, matchField_iff t.hour_range.1, matchField_iff hday,
    matchField_iff hmonth, matchWeekday_iff t.weekday_range.1]

theorem followsCrontab_iff_days : c.FollowsCrontab ↔ ∀ d, c.MatchedDay d ↔ c.Day d := by
  simp only [FollowsCrontab, matchCron_iff, and_congr_right_iff]
  refine ⟨fun h d => ?_, fun h t _ => h t.toCalendarDay⟩
  obtain ⟨hminute, hhour, -⟩ := c.fields_accepted
  obtain ⟨minute, hminute, hselected⟩ := exists_selected (by decide) hminute
  obtain ⟨hour, hhour, hselected'⟩ := exists_selected (by decide) hhour
  exact h ⟨d, hour, minute, hhour, hminute⟩ ⟨hselected, hselected'⟩

variable {c}

theorem Day.of_both {d : CalendarDay} (hmonth : Selects 1 c.month d.month)
    (hday : Selects 1 c.day d.day) (hweekday : SelectsWeekday c.weekday d.weekday) : c.Day d := by
  refine ⟨hmonth, ?_⟩
  split_ifs
  · exact ⟨hday, hweekday⟩
  · exact .inl hday

theorem both_of_either (h : ∀ d, c.MatchedDay d ↔ c.Day d) (hday : starred c.day = false)
    (hweekday : starred c.weekday = false) {d : CalendarDay}
    (hmonth : Selects 1 c.month d.month) :
    Selects 0 c.day d.day ∧ SelectsWeekday c.weekday d.weekday := by
  have heither : ∀ d : CalendarDay, Selects 1 c.month d.month →
      Selects 1 c.day d.day ∨ SelectsWeekday c.weekday d.weekday → c.MatchedDay d := by
    intro d hmonth hd
    refine (h d).mpr ⟨hmonth, ?_⟩
    rwa [hday, hweekday]
  obtain ⟨weekday, hrange, hselected⟩ := exists_selectedWeekday c.fields_accepted.2.2.2.2
  have hlisted := (heither { d with weekday, weekday_range := hrange } hmonth (.inr hselected)).1
  have hstep : ¬Stepped c.day := fun hstepped => by simp [hstepped.starred] at hday
  have hmatched := heither d hmonth (.inl ((selects_iff_of_not_stepped hstep).mpr hlisted))
  exact ⟨hmatched.1, hmatched.2.2⟩

/-- An expression follows crontab exactly if it counts no days or months in steps of two or more,
and if two restricted day fields both list every day of the months. -/
theorem follows_crontab_iff (c : AcceptedCron) : c.FollowsCrontab ↔
    ¬Stepped c.month ∧ ¬Stepped c.day ∧
      (starred c.day = false → starred c.weekday = false →
        ∀ d : CalendarDay, Selects 1 c.month d.month →
          Selects 0 c.day d.day ∧ SelectsWeekday c.weekday d.weekday) := by
  rw [followsCrontab_iff_days]
  constructor
  · intro h
    obtain ⟨-, -, hday, hmonth, hweekday⟩ := c.fields_accepted
    obtain ⟨month, hmonth, hlisted⟩ := exists_selected (by decide) hmonth
    obtain ⟨day, hday, hlisted'⟩ := exists_selected (by decide) hday
    obtain ⟨weekday, hweekday, hselected⟩ := exists_selectedWeekday hweekday
    refine ⟨fun hstepped => ?_, fun hstepped => ?_,
      fun hday hweekday _ => both_of_either h hday hweekday⟩
    · have hmatched := (h ⟨1, day, weekday, by decide, hday, hweekday⟩).mpr
        (.of_both hstepped.selects_one.1 hlisted' hselected)
      exact hstepped.selects_one.2 hmatched.2.1
    · have hlength : 1 ≤ monthLength month := by
        unfold monthLength
        split_ifs <;> decide
      have hmatched := (h ⟨month, 1, weekday, hmonth, ⟨by decide, hlength⟩, hweekday⟩).mpr
        (.of_both hlisted hstepped.selects_one.1 hselected)
      exact hstepped.selects_one.2 hmatched.1
  · rintro ⟨hmonth, hday, hfull⟩ d
    rw [MatchedDay, Day, selects_iff_of_not_stepped hmonth, selects_iff_of_not_stepped hday,
      and_left_comm]
    refine and_congr_right fun hlisted => ?_
    split_ifs with hstarred
    · rfl
    · rw [Bool.or_eq_true, not_or, Bool.not_eq_true, Bool.not_eq_true] at hstarred
      have hboth := hfull hstarred.1 hstarred.2 d
        ((selects_iff_of_not_stepped hmonth).mpr hlisted)
      exact ⟨fun _ => .inl hboth.1, fun _ => hboth⟩

end AcceptedCron

def everyOtherDay : AcceptedCron :=
  ⟨ascii "0", ascii "0", ascii "*/2", ascii "*", ascii "*", by decide +kernel⟩

def firstOfJanuary : Moment :=
  ⟨⟨1, 1, 4, by decide, by decide, by decide⟩, 0, 0, by decide, by decide⟩

theorem first_day_missed :
    matchCron [ascii "0", ascii "0", ascii "*/2", ascii "*", ascii "*"] firstOfJanuary =
        some false ∧
      everyOtherDay.Day firstOfJanuary.toCalendarDay ∧ ¬everyOtherDay.FollowsCrontab := by
  have hstepped : Stepped everyOtherDay.day := ⟨rfl, 2, by decide +kernel, by decide⟩
  have hday : everyOtherDay.Day firstOfJanuary.toCalendarDay :=
    .of_both trivial hstepped.selects_one.1 (.inl trivial)
  refine ⟨by decide +kernel, hday, fun h => ?_⟩
  exact hstepped.selects_one.2 ((everyOtherDay.followsCrontab_iff_days.mp h _).mpr hday).1

end AuroraGateway.ControlPlane
