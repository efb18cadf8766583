-- The clock: deadlines from accepted times, civil dates, and RFC 3339
-- texts. Machine integers are `Int`s with their casts.
import Nxr.SchemaValidate
import Nxr.DeadlineQueue
import Mathlib.Tactic.IntervalCases
import Mathlib.Data.String.Basic

open nxr_process.deadline

namespace nxr_task

/-! ## Deadlines -/

namespace duration

/-- `Instant`: seconds of 64 bits with their sign, and nanoseconds below a second. -/
structure Instant where
  secs : Int
  nanos : Nat
  above : -9223372036854775808 ≤ secs
  below : secs ≤ 9223372036854775807
  nanos_lt : nanos < 1000000000

/-- `Instant + Duration`, where `none` stands for the panic on overflow. -/
def Instant.checked_add (self : Instant) (millis : Nat) : Option Instant :=
  let secs := self.secs + millis / 1000
  let nanos := self.nanos + millis % 1000 * 1000000
  let carry := if nanos < 1000000000 then 0 else 1
  if h : secs + carry ≤ 9223372036854775807 then
    some ⟨secs + carry, nanos % 1000000000,
      by have := self.above; have : 0 ≤ carry := by (unfold carry; split <;> omega)
         omega,
      h, by omega⟩
  else none

/-- The instant as the queue of deadlines orders it: the nanoseconds since the least one. -/
def Instant.tick (self : Instant) : Nat :=
  ((self.secs + 9223372036854775808) * 1000000000 + self.nanos).toNat

/-- The insertion of a started node's deadline in `run_plan`. -/
def arm_timeout (deadlines : DeadlineQueue) (compact : UInt32) (started_at : Instant) :
    Option Nat → Option DeadlineQueue
  | none => some deadlines
  | some timeout => do
    let deadline ← started_at.checked_add timeout
    some (deadlines.insert compact deadline.tick)

/-- The deadline of `shutdown_one`. -/
def grace_deadline (now : Instant) (grace : Nat) : Option Instant := now.checked_add grace

/-- The milliseconds one of a unit stands for. -/
def Scale (unit : String) (scale : Nat) : Prop :=
  (unit ∈ ["", "s", "sec", "secs", "second", "seconds"] ∧ scale = 1000) ∨
    (unit ∈ ["ms", "millis", "millisecond", "milliseconds"] ∧ scale = 1) ∨
    (unit ∈ ["m", "min", "mins", "minute", "minutes"] ∧ scale = 60000) ∨
    (unit ∈ ["h", "hr", "hrs", "hour", "hours"] ∧ scale = 3600000)

/-- The text is an amount of a unit. -/
def Denotes (raw : String) (amount scale : Nat) : Prop :=
  ∃ number unit n, split_number_unit (std_str.trim raw) = some (number, unit) ∧
    std_str.parse_u64 number = some n ∧ n.toNat = amount ∧ Scale unit scale

/-- Seconds are cut off at the largest one a `u64` holds, in minutes and hours. -/
theorem unit_millis_scale {amount millis : Nat} {unit : String}
    (h : unit_millis amount unit = some millis) :
    ∃ scale, Scale unit scale ∧
      (millis = amount * scale ∨
        millis = num.U64.MAX * 1000 ∧ num.U64.MAX * 1000 + 1000 ≤ amount * scale) := by
  unfold unit_millis at h
  split at h
  · rename_i hin
    exact ⟨1000, .inl ⟨List.contains_iff_mem.mp hin, rfl⟩, .inl (Option.some.inj h).symm⟩
  · split at h
    · rename_i hin
      refine ⟨1, .inr (.inl ⟨List.contains_iff_mem.mp hin, rfl⟩), .inl ?_⟩
      rw [Nat.mul_one]; exact (Option.some.inj h).symm
    · split at h
      · rename_i hin
        refine ⟨60000, .inr (.inr (.inl ⟨List.contains_iff_mem.mp hin, rfl⟩)), ?_⟩
        have := Option.some.inj h
        omega
      · split at h
        · rename_i hin
          refine ⟨3600000, .inr (.inr (.inr ⟨List.contains_iff_mem.mp hin, rfl⟩)), ?_⟩
          have := Option.some.inj h
          omega
        · cases h

theorem parse_duration_denotes {raw : String} {millis : Nat}
    (h : parse_duration raw = .ok millis) :
    ∃ amount scale, Denotes raw amount scale ∧
      (millis = amount * scale ∨
        millis = num.U64.MAX * 1000 ∧ num.U64.MAX * 1000 + 1000 ≤ amount * scale) := by
  unfold parse_duration at h
  dsimp only at h
  split at h
  · cases h
  · split at h
    · cases h
    · rename_i number unit hsplit
      split at h
      · cases h
      · rename_i n hn
        split at h
        · cases h
        · rename_i value hmillis
          cases h
          obtain ⟨scale, hscale, hvalue⟩ := unit_millis_scale hmillis
          exact ⟨n.toNat, scale, ⟨number, unit, n, hsplit, hn, rfl, hscale⟩, hvalue⟩

theorem checked_add_isSome_iff (start : Instant) (millis : Nat) :
    (start.checked_add millis).isSome ↔
      start.secs * 1000000000 + start.nanos + millis * 1000000 < 9223372036854775808000000000 := by
  have := start.nanos_lt
  unfold Instant.checked_add
  dsimp only
  by_cases hcarry : start.nanos + millis % 1000 * 1000000 < 1000000000
  · simp only [if_pos hcarry, Option.isSome_dite]
    omega
  · simp only [if_neg hcarry, Option.isSome_dite]
    omega

theorem arm_timeout_isSome (deadlines : DeadlineQueue) (compact : UInt32) (start : Instant)
    (millis : Nat) :
    (arm_timeout deadlines compact start (some millis)).isSome =
      (start.checked_add millis).isSome := by
  simp only [arm_timeout]
  cases start.checked_add millis <;> rfl

/-- The number read is the one written, and no sum panics, exactly when the instant of the timeout
can be held. -/
theorem an_accepted_time_is_armed_iff {raw : String} {millis : Nat}
    (h : parse_duration raw = .ok millis) (start : Instant) (deadlines : DeadlineQueue)
    (compact : UInt32) :
    ∃ amount scale, Denotes raw amount scale ∧
      ((millis = amount * scale ∧ (arm_timeout deadlines compact start (some millis)).isSome ∧
          (grace_deadline start millis).isSome) ↔
        start.secs * 1000000000 + start.nanos + amount * scale * 1000000 <
          9223372036854775808000000000) := by
  obtain ⟨amount, scale, hdenotes, hvalue⟩ := parse_duration_denotes h
  refine ⟨amount, scale, hdenotes, ?_⟩
  rw [arm_timeout_isSome, grace_deadline, checked_add_isSome_iff]
  have hlow := start.above
  unfold num.U64.MAX at hvalue
  constructor
  · rintro ⟨rfl, hfits, -⟩
    push_cast at hfits
    exact hfits
  · intro hfits
    have hexact : millis = amount * scale := by
      generalize hproduct : amount * scale = product at hvalue
      rw [← Int.natCast_mul, hproduct] at hfits
      omega
    subst hexact
    push_cast
    exact ⟨rfl, hfits, hfits⟩

/-- The instant the clock counts from. -/
def Instant.zero : Instant := ⟨0, 0, by omega, by omega, by omega⟩

theorem a_minute_is_armed :
    ∃ amount scale, Denotes "1m" amount scale ∧
      ((60000 = amount * scale ∧ (arm_timeout .new 0 .zero (some 60000)).isSome ∧
          (grace_deadline .zero 60000).isSome) ↔
        Instant.zero.secs * 1000000000 + Instant.zero.nanos + amount * scale * 1000000 <
          9223372036854775808000000000) :=
  an_accepted_time_is_armed_iff (by decide +kernel) .zero .new 0

/-- One second more than a clock at zero can be moved on is accepted, and its sum panics. -/
theorem a_long_timeout_panics :
    ¬ ∀ (raw : String) (millis : Nat), parse_duration raw = .ok millis →
      ∀ (start : Instant) (deadlines : DeadlineQueue) (compact : UInt32),
        ∃ amount scale, Denotes raw amount scale ∧ millis = amount * scale ∧
          (arm_timeout deadlines compact start (some millis)).isSome ∧
            (grace_deadline start millis).isSome := by
  intro h
  have hparse : parse_duration "9223372036854775808s" = .ok 9223372036854775808000 := by
    decide +kernel
  obtain ⟨_, _, -, -, -, hgrace⟩ := h _ _ hparse .zero .new 0
  rw [grace_deadline, checked_add_isSome_iff] at hgrace
  revert hgrace
  decide

end duration

/-! ## The calendar -/

namespace run_events

/-- The machine integers that `civil_utc_from_unix` casts to. -/
inductive IntTy where
  | I64
  | U64
  | U32
  | I32

/-- The values of the type. -/
def IntTy.Holds : IntTy → Int → Prop
  | I64, x => -9223372036854775808 ≤ x ∧ x < 9223372036854775808
  | U64, x => 0 ≤ x ∧ x < 18446744073709551616
  | U32, x => 0 ≤ x ∧ x < 4294967296
  | I32, x => -2147483648 ≤ x ∧ x < 2147483648

/-- `as`: the value of the type that agrees with the number in its low bits. -/
def IntTy.wrapping : IntTy → Int → Int
  | I64, x => (x + 9223372036854775808) % 18446744073709551616 - 9223372036854775808
  | U64, x => x % 18446744073709551616
  | U32, x => x % 4294967296
  | I32, x => (x + 2147483648) % 4294967296 - 2147483648

theorem wrapping_of_holds (ty : IntTy) (x : Int) (h : ty.Holds x) : ty.wrapping x = x := by
  cases ty <;> simp only [IntTy.Holds] at h <;> simp only [IntTy.wrapping] <;> omega

structure Civil where
  year : Int
  month : Int
  day : Int
  hour : Int
  minute : Int
  second : Int
  deriving DecidableEq

/-- The code of `civil_utc_from_unix` over its casts; the subtractions of `u64` are cast too. -/
def civil_with (cast : IntTy → Int → Int) (secs : Int) : Civil :=
  let days := cast .I64 (secs / 86400)
  let tod := secs % 86400
  let hour := cast .U32 (tod / 3600)
  let minute := cast .U32 (tod % 3600 / 60)
  let second := cast .U32 (tod % 60)
  let z := days + 719468
  let era := (if 0 ≤ z then z else z - 146096).tdiv 146097
  let doe := cast .U64 (z - era * 146097)
  let yoe := cast .U64 (cast .U64 (doe - doe / 1460) + doe / 36524 - doe / 146096) / 365
  let y := cast .I64 yoe + era * 400
  let doy := cast .U64 (doe - cast .U64 (365 * yoe + yoe / 4 - yoe / 100))
  let mp := (5 * doy + 2) / 153
  let d := cast .U32 (cast .U64 (doy - (153 * mp + 2) / 5) + 1)
  let m := cast .U32 (if mp < 10 then mp + 3 else cast .U64 (mp - 9))
  let year := cast .I32 (y + if m ≤ 2 then 1 else 0)
  ⟨year, m, d, hour, minute, second⟩

/-- Civil UTC date and time of a `u64` of Unix seconds. -/
def civil_utc_from_unix (secs : UInt64) : Civil := civil_with IntTy.wrapping secs.toNat

/-- The Gregorian leap years. -/
def is_leap (y : Int) : Bool := y % 4 = 0 ∧ (y % 100 ≠ 0 ∨ y % 400 = 0)

def days_in_year (y : Int) : Int := if is_leap y then 366 else 365

def days_in_month (leap : Bool) : Nat → Int
  | 1 | 3 | 5 | 7 | 8 | 10 | 12 => 31
  | 4 | 6 | 9 | 11 => 30
  | 2 => if leap then 29 else 28
  | _ => 0

/-- The days of a year before a month. -/
def days_before_month (leap : Bool) : Nat → Int
  | 0 => 0
  | m + 1 => days_before_month leap m + days_in_month leap m

/-- The days from the first day of the year 0 to the first day of a year. -/
def days_before_year (y : Int) : Int := 365 * y + (y + 3) / 4 - (y + 99) / 100 + (y + 399) / 400

theorem days_before_year_zero : days_before_year 0 = 0 := rfl

theorem days_before_year_next (y : Int) :
    days_before_year (y + 1) = days_before_year y + days_in_year y := by
  unfold days_before_year days_in_year is_leap
  simp only [decide_eq_true_eq]
  split <;> omega

/-- A date of the calendar and a time of the day. -/
structure Civil.Valid (t : Civil) : Prop where
  month : 1 ≤ t.month ∧ t.month ≤ 12
  day : 1 ≤ t.day ∧ t.day ≤ days_in_month (is_leap t.year) t.month.toNat
  hour : 0 ≤ t.hour ∧ t.hour < 24
  minute : 0 ≤ t.minute ∧ t.minute < 60
  second : 0 ≤ t.second ∧ t.second < 60

def Civil.days (t : Civil) : Int :=
  days_before_year t.year + days_before_month (is_leap t.year) t.month.toNat + t.day

def Civil.seconds (t : Civil) : Int :=
  t.days * 86400 + t.hour * 3600 + t.minute * 60 + t.second

def epoch : Civil := ⟨1970, 1, 1, 0, 0, 0⟩

/-- The year of a day of an era of 400 years that start in March. -/
theorem year_of_era {doe yoe : Int} (h0 : 0 ≤ doe) (h1 : doe < 146097)
    (hy : yoe = (doe - doe / 1460 + doe / 36524 - doe / 146096) / 365) :
    0 ≤ yoe ∧ yoe < 400 ∧ 365 * yoe + yoe / 4 - yoe / 100 ≤ doe ∧
      (doe < 365 * (yoe + 1) + (yoe + 1) / 4 - (yoe + 1) / 100 ∨
        yoe = 399 ∧ doe = 146096) := by
  by_cases hlast : doe = 146096
  · subst hlast
    omega
  -- Four years are 1460 days and the correction of each is below four days, so the quotient is
  -- four times the number of such spans and a remainder from -1 to 4.
  obtain ⟨c, s, hc, hs, hs'⟩ : ∃ c s, doe = 1460 * c + s ∧ 0 ≤ s ∧ s < 1460 :=
    ⟨doe / 1460, doe % 1460, by omega, by omega, by omega⟩
  obtain ⟨d, hd⟩ : ∃ d, doe / 36524 = d := ⟨_, rfl⟩
  have hspan : doe / 1460 = c := by omega
  have hera : doe / 146096 = 0 := by omega
  rw [hspan, hd, hera] at hy
  obtain ⟨r, hr⟩ : ∃ r, (s + d - c) / 365 = r := ⟨_, rfl⟩
  have hyear : yoe = 4 * c + r := by omega
  have hcentury : d = 0 ∨ d = 1 ∨ d = 2 ∨ d = 3 := by omega
  have hrest : r = -1 ∨ r = 0 ∨ r = 1 ∨ r = 2 ∨ r = 3 ∨ r = 4 := by omega
  clear hy hspan hera
  subst hyear
  rcases hcentury with rfl | rfl | rfl | rfl <;>
    rcases hrest with rfl | rfl | rfl | rfl | rfl | rfl <;> omega

/-- The month and the day of a year that starts in March. -/
theorem month_of_year_day {doy mp : Int} (h0 : 0 ≤ doy) (h1 : doy ≤ 365)
    (hmp : mp = (5 * doy + 2) / 153) :
    0 ≤ mp ∧ mp ≤ 11 ∧ (153 * mp + 2) / 5 ≤ doy := by omega

/-- No cast changes its value, and every step has the value of its plain arithmetic. -/
theorem civil_with_steps {cast : IntTy → Int → Int}
    (hcast : ∀ ty x, ty.Holds x → cast ty x = x) {secs : Int} (h0 : 0 ≤ secs)
    (h1 : secs < 253402300800) :
    ∃ era doe yoe doy mp, era * 146097 + doe = secs / 86400 + 719468 ∧ 4 ≤ era ∧ era < 25 ∧
      0 ≤ doe ∧ doe < 146097 ∧
      yoe = (doe - doe / 1460 + doe / 36524 - doe / 146096) / 365 ∧
      doe = 365 * yoe + yoe / 4 - yoe / 100 + doy ∧ mp = (5 * doy + 2) / 153 ∧
      civil_with cast secs =
        ⟨if mp < 10 then yoe + era * 400 else yoe + era * 400 + 1,
          if mp < 10 then mp + 3 else mp - 9, doy - (153 * mp + 2) / 5 + 1,
          secs % 86400 / 3600, secs % 86400 % 3600 / 60, secs % 86400 % 60⟩ := by
  obtain ⟨z, hz⟩ : ∃ z, secs / 86400 + 719468 = z := ⟨_, rfl⟩
  have hz0 : 719468 ≤ z := by omega
  have hz1 : z < 3652425 := by omega
  obtain ⟨era, hera⟩ : ∃ era, z / 146097 = era := ⟨_, rfl⟩
  have hdiv : (if 0 ≤ z then z else z - 146096).tdiv 146097 = era := by
    rw [if_pos (by omega), Int.tdiv_eq_ediv_of_nonneg (by omega), hera]
  obtain ⟨doe, hdoe⟩ : ∃ doe, z - era * 146097 = doe := ⟨_, rfl⟩
  have hdoe0 : 0 ≤ doe ∧ doe < 146097 := by omega
  obtain ⟨yoe, hyoe⟩ : ∃ yoe, (doe - doe / 1460 + doe / 36524 - doe / 146096) / 365 = yoe :=
    ⟨_, rfl⟩
  obtain ⟨hyoe0, hyoe1, hbefore, hafter⟩ := year_of_era hdoe0.1 hdoe0.2 hyoe.symm
  obtain ⟨doy, hdoy⟩ : ∃ doy, doe - (365 * yoe + yoe / 4 - yoe / 100) = doy := ⟨_, rfl⟩
  have hdoy0 : 0 ≤ doy ∧ doy ≤ 365 := by omega
  obtain ⟨mp, hmp⟩ : ∃ mp, (5 * doy + 2) / 153 = mp := ⟨_, rfl⟩
  obtain ⟨hmp0, hmp1, hday⟩ := month_of_year_day hdoy0.1 hdoy0.2 hmp.symm
  refine ⟨era, doe, yoe, doy, mp, by omega, by omega, by omega, hdoe0.1, hdoe0.2, hyoe.symm,
    by omega, hmp.symm, ?_⟩
  have c1 : cast .I64 (secs / 86400) = secs / 86400 :=
    hcast _ _ (by simp only [IntTy.Holds]; omega)
  have c2 : cast .U64 doe = doe := hcast _ _ (by simp only [IntTy.Holds]; omega)
  have c3 : cast .U64 (doe - doe / 1460) = doe - doe / 1460 :=
    hcast _ _ (by simp only [IntTy.Holds]; omega)
  have c4 : cast .U64 (doe - doe / 1460 + doe / 36524 - doe / 146096) =
      doe - doe / 1460 + doe / 36524 - doe / 146096 :=
    hcast _ _ (by simp only [IntTy.Holds]; omega)
  have c5 : cast .I64 yoe = yoe := hcast _ _ (by simp only [IntTy.Holds]; omega)
  have c6 : cast .U64 (365 * yoe + yoe / 4 - yoe / 100) = 365 * yoe + yoe / 4 - yoe / 100 :=
    hcast _ _ (by simp only [IntTy.Holds]; omega)
  have c7 : cast .U64 doy = doy := hcast _ _ (by simp only [IntTy.Holds]; omega)
  have c8 : cast .U64 (doy - (153 * mp + 2) / 5) = doy - (153 * mp + 2) / 5 :=
    hcast _ _ (by simp only [IntTy.Holds]; omega)
  have c9 : cast .U32 (doy - (153 * mp + 2) / 5 + 1) = doy - (153 * mp + 2) / 5 + 1 :=
    hcast _ _ (by simp only [IntTy.Holds]; omega)
  have c10 : cast .U32 (secs % 86400 / 3600) = secs % 86400 / 3600 :=
    hcast _ _ (by simp only [IntTy.Holds]; omega)
  have c11 : cast .U32 (secs % 86400 % 3600 / 60) = secs % 86400 % 3600 / 60 :=
    hcast _ _ (by simp only [IntTy.Holds]; omega)
  have c12 : cast .U32 (secs % 86400 % 60) = secs % 86400 % 60 :=
    hcast _ _ (by simp only [IntTy.Holds]; omega)
  simp only [civil_with, c1, hz, hdiv, hdoe, c2, c3, c4, hyoe, c5, c6, hdoy, c7, hmp, c8, c9, c10,
    c11, c12]
  by_cases hlate : mp < 10
  · have c13 : cast .U32 (mp + 3) = mp + 3 := hcast _ _ (by simp only [IntTy.Holds]; omega)
    have c14 : cast .I32 (yoe + era * 400) = yoe + era * 400 :=
      hcast _ _ (by simp only [IntTy.Holds]; omega)
    simp only [if_pos hlate, c13, if_neg (show ¬ mp + 3 ≤ 2 by omega), Int.add_zero, c14]
  · have c13 : cast .U64 (mp - 9) = mp - 9 := hcast _ _ (by simp only [IntTy.Holds]; omega)
    have c14 : cast .U32 (mp - 9) = mp - 9 := hcast _ _ (by simp only [IntTy.Holds]; omega)
    have c15 : cast .I32 (yoe + era * 400 + 1) = yoe + era * 400 + 1 :=
      hcast _ _ (by simp only [IntTy.Holds]; omega)
    simp only [if_neg hlate, c13, c14, if_pos (show mp - 9 ≤ 2 by omega), c15]

/-- The days before the year that begins in a year of an era which starts in March. -/
theorem days_before_next_year (era : Int) {yoe : Int} (h0 : 0 ≤ yoe) (h1 : yoe < 400) :
    days_before_year (yoe + era * 400 + 1) =
        era * 146097 + 365 * yoe + yoe / 4 - yoe / 100 + 366 ∧
      (yoe < 399 → days_before_year (yoe + era * 400 + 1 + 1) =
        era * 146097 + 365 * (yoe + 1) + (yoe + 1) / 4 - (yoe + 1) / 100 + 366) ∧
      (yoe = 399 → days_before_year (yoe + era * 400 + 1 + 1) = era * 146097 + 146463) := by
  have hfour : (yoe + era * 400 + 1 + 3) / 4 = yoe / 4 + 1 + era * 100 := by omega
  have hcentury : (yoe + era * 400 + 1 + 99) / 100 = yoe / 100 + 1 + era * 4 := by omega
  have hera : (yoe + era * 400 + 1 + 399) / 400 = era + 1 := by omega
  have hfour' : (yoe + era * 400 + 1 + 1 + 3) / 4 = (yoe + 1) / 4 + 1 + era * 100 := by omega
  have hcentury' : (yoe + era * 400 + 1 + 1 + 99) / 100 = (yoe + 1) / 100 + 1 + era * 4 := by
    omega
  unfold days_before_year
  rw [hfour, hcentury, hera, hfour', hcentury']
  refine ⟨by omega, ?_, ?_⟩
  · intro hlast
    have hera' : (yoe + era * 400 + 1 + 1 + 399) / 400 = era + 1 := by omega
    omega
  · rintro rfl
    omega

/-- The months of a year that starts in March: March to December, and the next year's first two. -/
theorem march_year {era doe yoe doy mp : Int} (h0 : 0 ≤ doe) (h1 : doe < 146097)
    (hyoe : yoe = (doe - doe / 1460 + doe / 36524 - doe / 146096) / 365)
    (hdoy : doe = 365 * yoe + yoe / 4 - yoe / 100 + doy) (hmp : mp = (5 * doy + 2) / 153)
    {year month day : Int}
    (hyear : year = if mp < 10 then yoe + era * 400 else yoe + era * 400 + 1)
    (hmonth : month = if mp < 10 then mp + 3 else mp - 9)
    (hday : day = doy - (153 * mp + 2) / 5 + 1) :
    (1 ≤ month ∧ month ≤ 12) ∧ (1 ≤ day ∧ day ≤ days_in_month (is_leap year) month.toNat) ∧
      days_before_year year + days_before_month (is_leap year) month.toNat + day =
        era * 146097 + doe + 61 := by
  obtain ⟨hyoe0, hyoe1, hbefore, hafter⟩ := year_of_era h0 h1 hyoe
  have hdoy0 : 0 ≤ doy ∧ doy ≤ 365 := by omega
  have hmp0 := month_of_year_day hdoy0.1 hdoy0.2 hmp
  obtain ⟨hmarch, hnextmarch, hlast⟩ := days_before_next_year era hyoe0 hyoe1
  have hnext := days_before_year_next year
  unfold days_in_year at hnext
  clear hyoe
  have hmonths : mp = 0 ∨ mp = 1 ∨ mp = 2 ∨ mp = 3 ∨ mp = 4 ∨ mp = 5 ∨ mp = 6 ∨ mp = 7 ∨ mp = 8 ∨
      mp = 9 ∨ mp = 10 ∨ mp = 11 := by omega
  rcases hmonths with rfl | rfl | rfl | rfl | rfl | rfl | rfl | rfl | rfl | rfl | rfl | rfl <;>
    simp only [Int.reduceLT, if_true, if_false, Int.reduceAdd, Int.reduceSub] at hyear hmonth <;>
    subst hmonth hyear <;>
    cases hleap : is_leap _ <;>
    simp only [hleap, if_true, Bool.false_eq_true, if_false] at hnext <;>
    simp [days_before_month, days_in_month] <;>
    omega

/-- The code computes a valid date and time, that many seconds after the epoch. -/
theorem civil_with_valid {cast : IntTy → Int → Int} (hcast : ∀ ty x, ty.Holds x → cast ty x = x)
    {secs : Int} (h0 : 0 ≤ secs) (h1 : secs < 253402300800) :
    (civil_with cast secs).Valid ∧
      (civil_with cast secs).seconds = epoch.seconds + secs := by
  obtain ⟨era, doe, yoe, doy, mp, hz, hera0, hera1, hdoe0, hdoe1, hyoe, hdoy, hmp, heq⟩ :=
    civil_with_steps hcast h0 h1
  obtain ⟨hmonth, hday, hdays⟩ := march_year hdoe0 hdoe1 hyoe hdoy hmp rfl rfl rfl
  have hepoch : epoch.seconds = 719529 * 86400 := rfl
  rw [heq]
  refine ⟨⟨hmonth, hday, ⟨?_, ?_⟩, ⟨?_, ?_⟩, ⟨?_, ?_⟩⟩, ?_⟩
  · show 0 ≤ secs % 86400 / 3600
    omega
  · show secs % 86400 / 3600 < 24
    omega
  · show 0 ≤ secs % 86400 % 3600 / 60
    omega
  · show secs % 86400 % 3600 / 60 < 60
    omega
  · show 0 ≤ secs % 86400 % 60
    omega
  · show secs % 86400 % 60 < 60
    omega
  · rw [hepoch]
    simp only [Civil.seconds, Civil.days]
    rw [hdays]
    omega

/-! ## The order of dates -/

theorem days_in_month_nonneg (leap : Bool) (m : Nat) : 0 ≤ days_in_month leap m := by
  unfold days_in_month
  split <;> omega

theorem days_before_month_mono {leap : Bool} {m n : Nat} (h : m ≤ n) :
    days_before_month leap m ≤ days_before_month leap n := by
  induction n with
  | zero => rw [Nat.le_zero.mp h]
  | succ n ih =>
    rcases Nat.lt_or_ge n m with hlt | hle
    · rw [Nat.le_antisymm h hlt]
    · have := days_in_month_nonneg leap n
      have := ih hle
      simp only [days_before_month]
      omega

theorem days_before_year_mono {y z : Int} (h : y ≤ z) :
    days_before_year y ≤ days_before_year z := by
  unfold days_before_year
  omega

/-- The date comes first: an earlier year, or the year and an earlier month, and so on. -/
def Civil.Before (t u : Civil) : Prop :=
  t.year < u.year ∨ t.year = u.year ∧ (t.month < u.month ∨ t.month = u.month ∧
    (t.day < u.day ∨ t.day = u.day ∧ (t.hour < u.hour ∨ t.hour = u.hour ∧
      (t.minute < u.minute ∨ t.minute = u.minute ∧ t.second < u.second))))

theorem Civil.before_total (t u : Civil) : t.Before u ∨ t = u ∨ u.Before t := by
  unfold Civil.Before
  rw [Civil.mk.injEq]
  omega

namespace Civil.Valid

variable {t u : Civil}

/-- A valid date lies in its month. -/
theorem month_bounds (h : t.Valid) :
    days_before_year t.year + days_before_month (is_leap t.year) t.month.toNat < t.days ∧
      t.days ≤ days_before_year t.year + days_before_month (is_leap t.year) (t.month.toNat + 1) := by
  have hday := h.day
  simp only [Civil.days, days_before_month]
  omega

/-- A valid date lies in its year. -/
theorem year_bounds (h : t.Valid) :
    days_before_year t.year < t.days ∧ t.days ≤ days_before_year (t.year + 1) := by
  have hmonth := h.month
  obtain ⟨hlow, hhigh⟩ := h.month_bounds
  have hfirst := @days_before_month_mono (is_leap t.year) _ _ (Nat.zero_le t.month.toNat)
  have hlast := @days_before_month_mono (is_leap t.year) _ _
    (show t.month.toNat + 1 ≤ 13 by omega)
  have hyear : days_before_month (is_leap t.year) 13 = days_in_year t.year := by
    unfold days_in_year
    cases is_leap t.year <;> rfl
  rw [days_before_year_next]
  simp only [days_before_month] at hfirst
  omega

/-- A second of the day is below the day's end. -/
theorem seconds_bounds (h : t.Valid) :
    t.days * 86400 ≤ t.seconds ∧ t.seconds < (t.days + 1) * 86400 := by
  have hhour := h.hour
  have hminute := h.minute
  have hsecond := h.second
  unfold Civil.seconds
  omega

theorem days_lt (ht : t.Valid) (hu : u.Valid)
    (h : t.year < u.year ∨ t.year = u.year ∧ t.month < u.month) : t.days < u.days := by
  rcases h with hyear | ⟨hyear, hmonth⟩
  · have := days_before_year_mono (show t.year + 1 ≤ u.year by omega)
    have := ht.year_bounds
    have := hu.year_bounds
    omega
  · have hfirst := ht.month
    have hmono := @days_before_month_mono (is_leap u.year) _ _
      (show t.month.toNat + 1 ≤ u.month.toNat by omega)
    have hlow := ht.month_bounds
    have hhigh := hu.month_bounds
    rw [hyear] at hlow
    omega

/-- An earlier date is fewer seconds from the start. -/
theorem seconds_lt (ht : t.Valid) (hu : u.Valid) (h : t.Before u) : t.seconds < u.seconds := by
  have hts := ht.seconds_bounds
  have hus := hu.seconds_bounds
  rcases h with hyear | ⟨hyear, hmonth | ⟨hmonth, hday | ⟨hday, htime⟩⟩⟩
  · have := ht.days_lt hu (.inl hyear)
    omega
  · have := ht.days_lt hu (.inr ⟨hyear, hmonth⟩)
    omega
  · have : t.days < u.days := by
      unfold Civil.days
      rw [hyear, hmonth]
      omega
    omega
  · have hdays : t.days = u.days := by
      unfold Civil.days
      rw [hyear, hmonth, hday]
    have := ht.minute
    have := ht.second
    have := hu.minute
    have := hu.second
    have := ht.hour
    have := hu.hour
    unfold Civil.seconds
    omega

theorem before_of_seconds_lt (ht : t.Valid) (hu : u.Valid) (h : t.seconds < u.seconds) :
    t.Before u := by
  rcases t.before_total u with hbefore | rfl | hafter
  · exact hbefore
  · omega
  · have := hu.seconds_lt ht hafter
    omega

theorem eq_of_seconds_eq (ht : t.Valid) (hu : u.Valid) (h : t.seconds = u.seconds) : t = u := by
  rcases t.before_total u with hbefore | heq | hafter
  · have := ht.seconds_lt hu hbefore
    omega
  · exact heq
  · have := hu.seconds_lt ht hafter
    omega

end Civil.Valid

/-! ## The text -/

/-- A number in decimal, filled with zeros up to a width, as `{:04}` prints it. -/
def padded (width : Nat) (n : Int) : List Char :=
  let sign := if n < 0 then ['-'] else []
  let digits := Nat.toDigits 10 n.natAbs
  sign ++ List.replicate (width - (sign.length + digits.length)) '0' ++ digits

/-- `SystemTime`: seconds after the epoch, or before it, and nanoseconds below a second. -/
structure SystemTime where
  secs : Int
  nanos : Nat
  nanos_lt : nanos < 1000000000

/-- `duration_since(UNIX_EPOCH).unwrap_or_default()`: nothing for a time before the epoch. -/
def SystemTime.since_epoch (system : SystemTime) : UInt64 × Nat :=
  if system.secs < 0 then (0, 0) else (UInt64.ofNat system.secs.toNat, system.nanos)

def stamp (t : Civil) (millis : Nat) : List Char :=
  padded 4 t.year ++ '-' :: (padded 2 t.month ++ '-' :: (padded 2 t.day ++ 'T' ::
    (padded 2 t.hour ++ ':' :: (padded 2 t.minute ++ ':' :: (padded 2 t.second ++ '.' ::
      (padded 3 millis ++ ['Z']))))))

/-- A time as an RFC 3339 text with milliseconds. -/
def format_rfc3339_utc (system : SystemTime) : String :=
  let duration := system.since_epoch
  String.ofList (stamp (civil_utc_from_unix duration.1) (duration.2 / 1000000))

/-- The last digits of a number, of a fixed count. -/
def last_digits : Nat → Nat → List Char
  | 0, _ => []
  | k + 1, n => last_digits k (n / 10) ++ [Nat.digitChar (n % 10)]

theorem last_digits_zero (k : Nat) : last_digits k 0 = List.replicate k '0' := by
  induction k with
  | zero => rfl
  | succ k ih =>
    simp only [last_digits]
    rw [show 0 / 10 = 0 from rfl, ih, List.replicate_succ']
    rfl

theorem padded_eq {k n : Nat} (h : n < 10 ^ (k + 1)) :
    padded (k + 1) n = last_digits (k + 1) n := by
  have hpos : ¬ (n : Int) < 0 := by omega
  simp only [padded, if_neg hpos, Int.natAbs_natCast, List.nil_append, List.length_nil, Nat.zero_add]
  induction k generalizing n with
  | zero =>
    have : n < 10 := h
    rw [Nat.toDigits_of_lt_base this]
    simp [last_digits, Nat.mod_eq_of_lt this]
  | succ k ih =>
    rw [Nat.pow_succ] at h
    rcases Nat.lt_or_ge n 10 with hlt | hge
    · rw [Nat.toDigits_of_lt_base hlt, last_digits, Nat.div_eq_of_lt hlt, last_digits_zero,
        Nat.mod_eq_of_lt hlt]
      rfl
    · rw [Nat.toDigits_of_base_le (by omega) hge, last_digits, ← ih (n := n / 10) (by omega) (by omega)]
      simp

theorem digit_lt {a b : Nat} (h : a < b) (hb : b < 10) : Nat.digitChar a < Nat.digitChar b := by
  interval_cases b <;> interval_cases a <;> decide

/-- Texts that begin with numbers of one width are in the order of the numbers. -/
theorem last_digits_lt {k a b : Nat} (h : a < b) (hb : b < 10 ^ k) (s t : List Char) :
    last_digits k a ++ s < last_digits k b ++ t := by
  induction k generalizing a b s t with
  | zero => simp at hb; omega
  | succ k ih =>
    rw [Nat.pow_succ] at hb
    simp only [last_digits, List.append_assoc]
    rcases Nat.lt_or_ge (a / 10) (b / 10) with hlt | hge
    · exact ih hlt (by omega) _ _
    · rw [show a / 10 = b / 10 by omega]
      apply List.append_left_lt
      apply List.cons_lt_cons_iff.mpr
      exact .inl (digit_lt (by omega) (by omega))

theorem field_lt {k : Nat} {a b : Int} {s t : List Char} (ha : 0 ≤ a) (hb : b < 10 ^ (k + 1))
    (h : a < b ∨ a = b ∧ s < t) : padded (k + 1) a ++ s < padded (k + 1) b ++ t := by
  rcases h with hlt | ⟨rfl, hrest⟩
  · obtain ⟨m, rfl⟩ := Int.eq_ofNat_of_zero_le ha
    obtain ⟨n, rfl⟩ := Int.eq_ofNat_of_zero_le (ha.trans hlt.le)
    have hn : n < 10 ^ (k + 1) := by exact_mod_cast hb
    rw [padded_eq (by omega), padded_eq hn]
    exact last_digits_lt (by omega) hn s t
  · exact List.append_left_lt hrest

theorem sep_lt {c : Char} {s t : List Char} (h : s < t) : c :: s < c :: t :=
  List.cons_lt_cons_iff.mpr (.inr ⟨rfl, h⟩)

/-- Texts of dates up to the year 9999 are in the order of the dates. -/
theorem stamp_lt {t u : Civil} (ht : t.Valid) (hu : u.Valid) (h0 : 0 ≤ t.year)
    (h1 : u.year < 10000) {a b : Nat} (hb : b < 1000) (h : t.Before u ∨ t = u ∧ a < b) :
    stamp t a < stamp u b := by
  have hmonth := hu.month
  have hday : u.day ≤ 31 := by
    have := hu.day
    have : days_in_month (is_leap u.year) u.month.toNat ≤ 31 := by
      unfold days_in_month
      split <;> omega
    omega
  have hhour := hu.hour
  have hminute := hu.minute
  have hsecond := hu.second
  unfold stamp
  have hlast : t = u ∧ a < b → padded 3 a ++ ['Z'] < padded 3 b ++ ['Z'] := fun h =>
    field_lt (by omega) (by norm_num; omega) (.inl (by omega))
  unfold Civil.Before at h
  rw [Civil.mk.injEq] at h hlast
  refine field_lt h0 (by omega) ?_
  rcases Int.lt_or_eq_of_le (show t.year ≤ u.year by omega) with hlt | heq
  · exact .inl hlt
  refine .inr ⟨heq, sep_lt (field_lt (by have := ht.month; omega) (by omega) ?_)⟩
  rcases Int.lt_or_eq_of_le (show t.month ≤ u.month by omega) with hlt | heq
  · exact .inl hlt
  refine .inr ⟨heq, sep_lt (field_lt (by have := ht.day; omega) (by omega) ?_)⟩
  rcases Int.lt_or_eq_of_le (show t.day ≤ u.day by omega) with hlt | heq
  · exact .inl hlt
  refine .inr ⟨heq, sep_lt (field_lt (by have := ht.hour; omega) (by omega) ?_)⟩
  rcases Int.lt_or_eq_of_le (show t.hour ≤ u.hour by omega) with hlt | heq
  · exact .inl hlt
  refine .inr ⟨heq, sep_lt (field_lt (by have := ht.minute; omega) (by omega) ?_)⟩
  rcases Int.lt_or_eq_of_le (show t.minute ≤ u.minute by omega) with hlt | heq
  · exact .inl hlt
  refine .inr ⟨heq, sep_lt (field_lt (by have := ht.second; omega) (by omega) ?_)⟩
  rcases Int.lt_or_eq_of_le (show t.second ≤ u.second by omega) with hlt | heq
  · exact .inl hlt
  exact .inr ⟨heq, sep_lt (hlast (by omega))⟩

/-- The first second of the year 10000. -/
def year_10000 : Civil := ⟨10000, 1, 1, 0, 0, 0⟩

/-- The date and the time of day lie the seconds after the epoch. -/
def Gregorian (t : Civil) (secs : UInt64) : Prop := t.Valid ∧ t.seconds = epoch.seconds + secs.toNat

/-- The civil time of a second before the year 10000, with any casts that keep what a type holds. -/
theorem civil_with_gregorian {cast : IntTy → Int → Int}
    (hcast : ∀ ty x, ty.Holds x → cast ty x = x) {secs : UInt64}
    (h : epoch.seconds + secs.toNat < year_10000.seconds) :
    Gregorian (civil_with cast secs.toNat) secs := by
  have hyear : year_10000.seconds - epoch.seconds = 253402300800 := by decide
  exact civil_with_valid hcast (Int.natCast_nonneg _) (by omega)

theorem Gregorian.unique {t u : Civil} {secs : UInt64} (ht : Gregorian t secs)
    (hu : Gregorian u secs) : t = u :=
  ht.1.eq_of_seconds_eq hu.1 (ht.2.trans hu.2.symm)

/-- The year of such a time has four digits. -/
theorem Gregorian.year_bounds {t : Civil} {secs : UInt64} (ht : Gregorian t secs)
    (h : epoch.seconds + secs.toNat < year_10000.seconds) : 0 ≤ t.year ∧ t.year < 10000 := by
  obtain ⟨hvalid, hseconds⟩ := ht
  have hyear := hvalid.year_bounds
  have hday := hvalid.seconds_bounds
  have hfirst : epoch.seconds = 719529 * 86400 := rfl
  have hlast : year_10000.seconds = 3652426 * 86400 := by decide
  constructor
  · by_contra hneg
    have := days_before_year_mono (show t.year + 1 ≤ 0 by omega)
    rw [days_before_year_zero] at this
    omega
  · by_contra hlate
    have := days_before_year_mono (show 10000 ≤ t.year by omega)
    have : days_before_year 10000 = 3652425 := by decide
    omega

/-- The milliseconds after the epoch that a text shows. -/
def SystemTime.millis (system : SystemTime) : Nat :=
  system.since_epoch.1.toNat * 1000 + system.since_epoch.2 / 1000000

def SystemTime.BeforeYear10000 (system : SystemTime) : Prop :=
  epoch.seconds + system.secs < year_10000.seconds

/-- The time is no later. -/
def SystemTime.NotAfter (a b : SystemTime) : Prop :=
  a.secs < b.secs ∨ a.secs = b.secs ∧ a.nanos ≤ b.nanos

theorem since_epoch_spec {a : SystemTime} (h : a.BeforeYear10000) :
    epoch.seconds + a.since_epoch.1.toNat < year_10000.seconds ∧
      a.since_epoch.2 < 1000000000 ∧
      (a.secs < 0 ∧ a.since_epoch = (0, 0) ∨
        (a.since_epoch.1.toNat : Int) = a.secs ∧ a.since_epoch.2 = a.nanos) := by
  have hyear : year_10000.seconds - epoch.seconds = 253402300800 := by decide
  have hnanos := a.nanos_lt
  unfold SystemTime.BeforeYear10000 at h
  unfold SystemTime.since_epoch
  split
  · rename_i hneg
    refine ⟨?_, by omega, .inl ⟨hneg, rfl⟩⟩
    show epoch.seconds + 0 < _
    omega
  · have hsecs : (UInt64.ofNat a.secs.toNat).toNat = a.secs.toNat := by
      rw [UInt64.toNat_ofNat', Nat.mod_eq_of_lt (by omega)]
    dsimp only
    rw [hsecs]
    exact ⟨by omega, hnanos, .inr ⟨by omega, rfl⟩⟩

theorem millis_le {a b : SystemTime} (ha : a.BeforeYear10000) (hb : b.BeforeYear10000)
    (h : a.NotAfter b) : a.millis ≤ b.millis := by
  obtain ⟨-, ha1, ha2⟩ := since_epoch_spec ha
  obtain ⟨-, hb1, hb2⟩ := since_epoch_spec hb
  unfold SystemTime.millis
  rcases ha2 with ⟨hneg, hzero⟩ | ⟨hsecs, hnanos⟩
  · rw [hzero]
    exact Nat.zero_le _
  · rcases hb2 with ⟨hneg, -⟩ | ⟨hsecs', hnanos'⟩
    · unfold SystemTime.NotAfter at h
      omega
    · have : a.since_epoch.2 / 1000000 < 1000 := by omega
      rcases h with hlt | ⟨heq, hle⟩
      · omega
      · have := Nat.div_le_div_right (c := 1000000) hle
        omega

/-- A text that shows fewer milliseconds comes first. -/
theorem format_lt {a b : SystemTime} (ha : a.BeforeYear10000) (hb : b.BeforeYear10000)
    (h : a.millis < b.millis) : format_rfc3339_utc a < format_rfc3339_utc b := by
  obtain ⟨hrange, hnanos, -⟩ := since_epoch_spec ha
  obtain ⟨hrange', hnanos', -⟩ := since_epoch_spec hb
  have hcivil := civil_with_gregorian wrapping_of_holds hrange
  have hcivil' := civil_with_gregorian wrapping_of_holds hrange'
  have hyear := hcivil.year_bounds hrange
  have hyear' := hcivil'.year_bounds hrange'
  unfold SystemTime.millis at h
  rw [String.lt_iff_toList_lt]
  simp only [format_rfc3339_utc, String.toList_ofList]
  apply stamp_lt hcivil.1 hcivil'.1 hyear.1 hyear'.2 (by omega)
  rcases Nat.lt_or_ge a.since_epoch.1.toNat b.since_epoch.1.toNat with hlt | hge
  · apply Or.inl
    apply hcivil.1.before_of_seconds_lt hcivil'.1
    rw [hcivil.2, hcivil'.2]
    omega
  · have heq : a.since_epoch.1 = b.since_epoch.1 := UInt64.toNat_inj.mp (by omega)
    refine .inr ⟨by rw [heq], ?_⟩
    rw [heq] at h
    omega

theorem format_congr {a b : SystemTime} (ha : a.BeforeYear10000) (hb : b.BeforeYear10000)
    (h : a.millis = b.millis) : format_rfc3339_utc a = format_rfc3339_utc b := by
  obtain ⟨-, hnanos, -⟩ := since_epoch_spec ha
  obtain ⟨-, hnanos', -⟩ := since_epoch_spec hb
  unfold SystemTime.millis at h
  have hsecs : a.since_epoch.1 = b.since_epoch.1 := UInt64.toNat_inj.mp (by omega)
  have hmillis : a.since_epoch.2 / 1000000 = b.since_epoch.2 / 1000000 := by
    rw [hsecs] at h
    omega
  simp only [format_rfc3339_utc, hsecs, hmillis]

/-- Before the year 10000 the civil time is the Gregorian time of the second, and texts are in the
order of the times. -/
theorem a_timestamp_is_the_gregorian_time :
    (∀ secs : UInt64, epoch.seconds + secs.toNat < year_10000.seconds →
      Gregorian (civil_utc_from_unix secs) secs ∧
        (∀ t, Gregorian t secs → t = civil_utc_from_unix secs) ∧
        ∀ cast : IntTy → Int → Int, (∀ ty x, ty.Holds x → cast ty x = x) →
          civil_with cast secs.toNat = civil_utc_from_unix secs) ∧
    ∀ a b : SystemTime, a.BeforeYear10000 → b.BeforeYear10000 →
      (format_rfc3339_utc a < format_rfc3339_utc b ↔ a.millis < b.millis) ∧
        (format_rfc3339_utc a = format_rfc3339_utc b ↔ a.millis = b.millis) ∧
        (a.NotAfter b → format_rfc3339_utc a ≤ format_rfc3339_utc b) := by
  refine ⟨fun secs h => ?_, fun a b ha hb => ?_⟩
  · have hcivil : Gregorian (civil_utc_from_unix secs) secs :=
      civil_with_gregorian wrapping_of_holds h
    exact ⟨hcivil, fun t ht => ht.unique hcivil,
      fun cast hcast => (civil_with_gregorian hcast h).unique hcivil⟩
  · have hlt := format_lt ha hb
    have hgt := format_lt hb ha
    have heq := format_congr ha hb
    refine ⟨⟨fun h => ?_, hlt⟩, ⟨fun h => ?_, heq⟩, fun h => ?_⟩
    · rcases Nat.lt_trichotomy a.millis b.millis with hless | hsame | hmore
      · exact hless
      · exact absurd h (by rw [heq hsame]; exact lt_irrefl _)
      · exact absurd h (lt_asymm (hgt hmore))
    · rcases Nat.lt_trichotomy a.millis b.millis with hless | hsame | hmore
      · exact absurd h (hlt hless).ne
      · exact hsame
      · exact absurd h (hgt hmore).ne'
    · rcases Nat.lt_or_eq_of_le (millis_le ha hb h) with hless | hsame
      · exact (hlt hless).le
      · exact (heq hsame).le

/-- The epoch, and a time one millisecond later. -/
theorem the_epoch_is_the_gregorian_time :
    Gregorian (civil_utc_from_unix 0) 0 ∧
      format_rfc3339_utc ⟨0, 0, by omega⟩ < format_rfc3339_utc ⟨0, 1000000, by omega⟩ :=
  ⟨(a_timestamp_is_the_gregorian_time.1 0 (by decide)).1,
    (a_timestamp_is_the_gregorian_time.2 ⟨0, 0, by omega⟩ ⟨0, 1000000, by omega⟩
      (by unfold SystemTime.BeforeYear10000; decide)
      (by unfold SystemTime.BeforeYear10000; decide)).1.mpr (by decide)⟩

example : format_rfc3339_utc ⟨0, 0, by omega⟩ = "1970-01-01T00:00:00.000Z" := by decide +kernel

end run_events
end nxr_task
