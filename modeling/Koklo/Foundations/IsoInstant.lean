import Koklo.Foundations.Calendar
import Koklo.Foundations.Decimal
import Koklo.Foundations.Pattern

/-!
# Instants as texts

An instant is a number of milliseconds from the first of January 1970. `toISOString` writes it as
a date and a time in UTC; a year beyond 9999 is written with a sign and six digits. The texts that
are read are those of ISO 8601 with a year of four digits (`isoUtc`). An instant of the years 0 to
9999 is read back from its text (`isoInstant_isoText`), and no other one is
(`not_accepts_isoText`).
-/

set_option autoImplicit false

namespace Koklo.Foundations

open Calendar

namespace Text

/-- The last digits of a number, as many as the width. -/
def fixed : ℕ → ℕ → Text
  | 0, _ => []
  | width + 1, n => fixed width (n / 10) ++ [digitUnit (n % 10)]

theorem isDigit_digitUnit {d : ℕ} (digit : d < 10) : isDigit (digitUnit d) = true := by
  interval_cases d <;> rfl

theorem length_fixed (width n : ℕ) : (fixed width n).length = width := by
  induction width generalizing n with
  | zero => rfl
  | succ width ih => rw [fixed, List.length_append, ih, List.length_singleton]

theorem isDigit_of_mem_fixed {width n : ℕ} {u : CodeUnit} (member : u ∈ fixed width n) :
    isDigit u = true := by
  induction width generalizing n with
  | zero => cases member
  | succ width ih =>
    rcases List.mem_append.mp member with first | last
    · exact ih first
    · rw [List.mem_singleton.mp last]
      exact isDigit_digitUnit (Nat.mod_lt n (by decide))

/-- **The digits of a fixed width** write the number when it fits. -/
theorem decimal_fixed {width n : ℕ} (small : n < 10 ^ width) : decimal (fixed width n) = n := by
  induction width generalizing n with
  | zero =>
    rw [pow_zero, Nat.lt_one_iff] at small
    rw [small]
    rfl
  | succ width ih =>
    have tenth : n / 10 < 10 ^ width := by
      rw [Nat.div_lt_iff_lt_mul (by decide), ← pow_succ]
      exact small
    rw [fixed, decimal_append_singleton, ih tenth, digitValue_digitUnit (Nat.mod_lt n (by decide))]
    omega

end Text

namespace IsoInstant

open Text

/-! ## Writing -/

def dayMs : ℤ := 86400000

/-- The greatest distance of an instant from 1970 that a date can hold. -/
def maxTime : ℤ := 8640000000000000

/-- The first instant of the year 0. -/
def firstInstant : ℤ := -62167219200000

/-- The first instant of the year 10000. -/
def endInstant : ℤ := 253402300800000

def dash : CodeUnit := 0x2D
def colon : CodeUnit := 0x3A

def yearText (year : ℤ) : Text :=
  if 0 ≤ year ∧ year ≤ 9999 then fixed 4 year.toNat
  else (if year < 0 then dash else 0x2B) :: fixed 6 year.natAbs

/-- The time of a day, from its milliseconds. -/
def timeText (ms : ℕ) : Text :=
  fixed 2 (ms / 3600000) ++ colon :: (fixed 2 (ms / 60000 % 60) ++ colon ::
    (fixed 2 (ms / 1000 % 60) ++ 0x2E :: (fixed 3 (ms % 1000) ++ [0x5A])))

/-- `toISOString`. -/
def isoText (ms : ℤ) : Text :=
  let date := civilOfDay (ms / dayMs)
  yearText date.year ++ dash :: (fixed 2 date.month ++ dash ::
    (fixed 2 date.day ++ 0x54 :: timeText (ms % dayMs).toNat))

/-! ## Reading -/

def digit : Pattern CodeUnit := .unit isDigit

/-- `/^\\d{4}-\\d{2}-\\d{2}T\\d{2}:\\d{2}:\\d{2}(\\.\\d{1,3})?Z$/`. -/
def isoUtc : Pattern CodeUnit :=
  .seq (.times 4 digit) (.seq (.text [dash]) (.seq (.times 2 digit) (.seq (.text [dash])
    (.seq (.times 2 digit) (.seq (.text [0x54]) (.seq (.times 2 digit) (.seq (.text [colon])
      (.seq (.times 2 digit) (.seq (.text [colon]) (.seq (.times 2 digit)
        (.seq (.optional (.seq (.text [0x2E])
          (.seq digit (.seq (.optional digit) (.optional digit))))) (.text [0x5A]))))))))))))

/-- The milliseconds of a time, up to the end of the day. -/
def timeMs (hour minute second ms : ℕ) : Option ℕ :=
  if (hour ≤ 23 ∨ hour = 24 ∧ minute = 0 ∧ second = 0 ∧ ms = 0) ∧ minute ≤ 59 ∧ second ≤ 59 then
    some (((hour * 60 + minute) * 60 + second) * 1000 + ms)
  else none

/-- The day of a date whose month and day are in their ranges; a day past the end of its month is
one of the next month. -/
def dateDay (year month day : ℕ) : Option ℤ :=
  if 1 ≤ month ∧ month ≤ 12 ∧ 1 ≤ day ∧ day ≤ 31 then some (CivilDate.toDay ⟨year, month, day⟩)
  else none

/-- `Date.parse` on a text that `isoUtc` accepts. -/
def isoInstant (t : Text) : Option ℤ := do
  let fraction := (t.drop 20).takeWhile isDigit
  let day ← dateDay (decimal (t.take 4)) (decimal ((t.drop 5).take 2)) (decimal ((t.drop 8).take 2))
  let time ← timeMs (decimal ((t.drop 11).take 2)) (decimal ((t.drop 14).take 2))
    (decimal ((t.drop 17).take 2)) (decimal fraction * 10 ^ (3 - fraction.length))
  some (day * dayMs + time)

/-- A text that is read as an instant. -/
structure Instant where
  text : Text
  ms : ℤ
  accepted : isoUtc.accepts text = true
  read : isoInstant text = some ms

/-! ## What is written is accepted -/

theorem matches_times_digit {n : ℕ} {w : Text} (length : w.length = n)
    (digits : ∀ u ∈ w, isDigit u = true) : Pattern.Matches (.times n digit) w := by
  induction n generalizing w with
  | zero =>
    rw [List.eq_nil_of_length_eq_zero length]
    exact .empty
  | succ n ih =>
    obtain ⟨u, rest, rfl⟩ := List.exists_cons_of_length_eq_add_one length
    obtain ⟨first, others⟩ := List.forall_mem_cons.mp digits
    exact .seq (.unit first) (ih (Nat.succ.inj length) others)

theorem matches_fixed (width n : ℕ) : Pattern.Matches (.times width digit) (fixed width n) :=
  matches_times_digit (length_fixed width n) fun _ member => isDigit_of_mem_fixed member

/-- The first unit of a text that starts with a test. -/
theorem head_of_matches {test : CodeUnit → Bool} {p q : Pattern CodeUnit} {u : CodeUnit} {w : Text}
    (matched : Pattern.Matches (.seq (.seq (.unit test) p) q) (u :: w)) : test u = true := by
  generalize split : u :: w = whole at matched
  cases matched with
  | seq first _ =>
    cases first with
    | seq unit _ =>
      cases unit with
      | unit passes =>
        rw [(List.cons.inj split).1]
        exact passes

/-- The text of a date and a time, from their fields. -/
def fieldsText (year month day hour minute second ms : ℕ) : Text :=
  fixed 4 year ++ dash :: (fixed 2 month ++ dash :: (fixed 2 day ++ 0x54 ::
    (fixed 2 hour ++ colon :: (fixed 2 minute ++ colon ::
      (fixed 2 second ++ 0x2E :: (fixed 3 ms ++ [0x5A]))))))

theorem accepts_fieldsText (year month day hour minute second ms : ℕ) :
    isoUtc.accepts (fieldsText year month day hour minute second ms) = true := by
  have mark : ∀ {rest : Text} {p : Pattern CodeUnit} (u : CodeUnit), Pattern.Matches p rest →
      Pattern.Matches (.seq (.text [u]) p) (u :: rest) := fun u second =>
    Pattern.matches_text_seq.mpr ⟨_, rfl, second⟩
  have unit : ∀ n : ℕ, Pattern.Matches digit [digitUnit (n % 10)] := fun n =>
    .unit (isDigit_digitUnit (Nat.mod_lt n (by decide)))
  have fraction : Pattern.Matches (.seq digit (.seq (.optional digit) (.optional digit)))
      ([digitUnit (ms / 10 / 10 % 10)] ++ ([digitUnit (ms / 10 % 10)] ++ [digitUnit (ms % 10)])) :=
    .seq (unit _) (.seq (.left (unit _)) (.left (unit _)))
  rw [Pattern.accepts_iff]
  refine .seq (matches_fixed 4 year) (mark dash ?_)
  refine .seq (matches_fixed 2 month) (mark dash ?_)
  refine .seq (matches_fixed 2 day) (mark 0x54 ?_)
  refine .seq (matches_fixed 2 hour) (mark colon ?_)
  refine .seq (matches_fixed 2 minute) (mark colon ?_)
  refine .seq (matches_fixed 2 second) ?_
  exact .seq (s := 0x2E :: fixed 3 ms) (.left (mark 0x2E fraction)) (Pattern.matches_text.mpr rfl)

/-! ## What is written is read back -/

theorem takeWhile_fraction (ms : ℕ) : (fixed 3 ms ++ [0x5A]).takeWhile isDigit = fixed 3 ms := by
  rw [List.takeWhile_append_of_pos fun u member => isDigit_of_mem_fixed member]
  exact List.append_nil _

/-- The fields of a text are read back. -/
theorem isoInstant_fieldsText {year month day hour minute second ms : ℕ} (fits : year < 10000)
    (inYear : month < 100) (inMonth : day < 100) (inDay : hour < 100) (inHour : minute < 100)
    (inMinute : second < 100) (inSecond : ms < 1000) :
    isoInstant (fieldsText year month day hour minute second ms) =
      (dateDay year month day).bind fun date =>
        (timeMs hour minute second ms).bind fun time => some (date * dayMs + time) := by
  have fraction : ((fieldsText year month day hour minute second ms).drop 20).takeWhile isDigit =
      fixed 3 ms := takeWhile_fraction ms
  have years : (fieldsText year month day hour minute second ms).take 4 = fixed 4 year := rfl
  have months : ((fieldsText year month day hour minute second ms).drop 5).take 2 =
      fixed 2 month := rfl
  have days : ((fieldsText year month day hour minute second ms).drop 8).take 2 = fixed 2 day := rfl
  have hours : ((fieldsText year month day hour minute second ms).drop 11).take 2 =
      fixed 2 hour := rfl
  have minutes : ((fieldsText year month day hour minute second ms).drop 14).take 2 =
      fixed 2 minute := rfl
  have seconds : ((fieldsText year month day hour minute second ms).drop 17).take 2 =
      fixed 2 second := rfl
  rw [isoInstant, fraction, years, months, days, hours, minutes, seconds, decimal_fixed fits,
    decimal_fixed inYear, decimal_fixed inMonth, decimal_fixed inDay, decimal_fixed inHour,
    decimal_fixed inMinute, decimal_fixed inSecond, length_fixed, Nat.sub_self, pow_zero, mul_one]
  rfl

theorem timeMs_of_lt {time : ℕ} (inside : time < 86400000) :
    timeMs (time / 3600000) (time / 60000 % 60) (time / 1000 % 60) (time % 1000) = some time := by
  rw [timeMs, if_pos (by omega)]
  congr 1
  omega

/-- The years 0 to 9999. -/
def FourDigitYear (ms : ℤ) : Prop := firstInstant ≤ ms ∧ ms < endInstant

theorem year_nonneg_iff {ms : ℤ} : 0 ≤ yearFromDay (ms / dayMs) ↔ firstInstant ≤ ms := by
  have start : dayFromYear 0 = -719528 := by decide
  rw [le_yearFromDay_iff, start, firstInstant, dayMs]
  omega

theorem year_le_iff {ms : ℤ} : yearFromDay (ms / dayMs) ≤ 9999 ↔ ms < endInstant := by
  have start : dayFromYear 10000 = 2932897 := by decide
  have late : 10000 ≤ yearFromDay (ms / dayMs) ↔ endInstant ≤ ms := by
    rw [le_yearFromDay_iff, start, endInstant, dayMs]
    omega
  omega

/-- The text of an instant whose year has four digits. -/
theorem isoText_eq_fieldsText {ms : ℤ} (four : FourDigitYear ms) :
    isoText ms = fieldsText (civilOfDay (ms / dayMs)).year.toNat (civilOfDay (ms / dayMs)).month
      (civilOfDay (ms / dayMs)).day ((ms % dayMs).toNat / 3600000)
      ((ms % dayMs).toNat / 60000 % 60) ((ms % dayMs).toNat / 1000 % 60)
      ((ms % dayMs).toNat % 1000) := by
  have year : yearText (civilOfDay (ms / dayMs)).year =
      fixed 4 (civilOfDay (ms / dayMs)).year.toNat :=
    if_pos ⟨year_nonneg_iff.mpr four.1, year_le_iff.mpr four.2⟩
  rw [isoText, year]
  rfl

theorem accepts_isoText {ms : ℤ} (four : FourDigitYear ms) : isoUtc.accepts (isoText ms) = true := by
  rw [isoText_eq_fieldsText four]
  exact accepts_fieldsText ..

/-- **An instant is read back from its text** when its year has four digits. -/
theorem isoInstant_isoText {ms : ℤ} (four : FourDigitYear ms) : isoInstant (isoText ms) = some ms := by
  have first : 0 ≤ (civilOfDay (ms / dayMs)).year := year_nonneg_iff.mpr four.1
  have last : (civilOfDay (ms / dayMs)).year ≤ 9999 := year_le_iff.mpr four.2
  have calendar := inCalendar_civilOfDay (ms / dayMs)
  have date : dateDay (civilOfDay (ms / dayMs)).year.toNat (civilOfDay (ms / dayMs)).month
      (civilOfDay (ms / dayMs)).day = some (ms / dayMs) := by
    rw [dateDay, if_pos ⟨calendar.firstMonth, calendar.lastMonth, calendar.firstDay,
      calendar.lastDay⟩, Int.toNat_of_nonneg first]
    exact congrArg some (toDay_civilOfDay (ms / dayMs))
  have positive : (0 : ℤ) < dayMs := by decide
  have low := Int.emod_nonneg ms positive.ne'
  have high := Int.emod_lt_of_pos ms positive
  have time : (ms % dayMs).toNat < 86400000 := by
    rw [dayMs] at high ⊢
    omega
  rw [isoText_eq_fieldsText four, isoInstant_fieldsText (by omega) (by have := calendar.lastMonth; omega)
    (by have := calendar.lastDay; omega) (by omega) (by omega) (by omega)
    (Nat.mod_lt _ (by decide)), date, Option.bind_some, timeMs_of_lt time, Option.bind_some,
    Int.toNat_of_nonneg low, Int.mul_comm, Int.mul_ediv_add_emod]

/-- Other years are written with a sign. -/
theorem not_accepts_isoText {ms : ℤ} (other : ¬ FourDigitYear ms) :
    isoUtc.accepts (isoText ms) = false := by
  have year : ¬ (0 ≤ (civilOfDay (ms / dayMs)).year ∧ (civilOfDay (ms / dayMs)).year ≤ 9999) :=
    fun both => other ⟨year_nonneg_iff.mp both.1, year_le_iff.mp both.2⟩
  have signed : ∃ u rest, isoText ms = u :: rest ∧ isDigit u = false := by
    rw [isoText, yearText, if_neg year, List.cons_append]
    refine ⟨_, _, rfl, ?_⟩
    split <;> rfl
  obtain ⟨u, rest, shape, mark⟩ := signed
  rw [Bool.eq_false_iff, shape]
  intro accepted
  have first := head_of_matches (Pattern.accepts_iff.mp accepted)
  rw [mark] at first
  cases first

/-- An instant that is read is in the years that are read. -/
theorem firstInstant_le {t : Text} {ms : ℤ} (read : isoInstant t = some ms) : firstInstant ≤ ms := by
  obtain ⟨day, date, read⟩ := Option.bind_eq_some_iff.mp read
  obtain ⟨time, _, read⟩ := Option.bind_eq_some_iff.mp read
  cases read
  rw [dateDay] at date
  split at date
  · rename_i inside
    cases date
    have start := dayFromYear_mono (Int.natCast_nonneg (decimal (t.take 4)))
    have zero : dayFromYear 0 = -719528 := by decide
    rw [zero] at start
    rw [firstInstant, dayMs, CivilDate.toDay]
    simp only
    omega
  · cases date

end IsoInstant

end Koklo.Foundations
