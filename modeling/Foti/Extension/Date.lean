import Foti.Firestore.Value

/-!
`Date.timeBefore`, the age of a post in words. The date is written from the author's clock and read
against the viewer's, which may be behind; `timeBefore_sound_iff` says what is shown then.
-/

namespace Foti

inductive TimeUnit where
  | second
  | minute
  | hour
  | day
  | week
  | month
  deriving DecidableEq, Repr

namespace TimeUnit

def seconds : TimeUnit → Int
  | second => 1
  | minute => 60
  | hour => 60 * 60
  | day => 24 * (60 * 60)
  | week => 7 * (24 * (60 * 60))
  | month => 4 * (7 * (24 * (60 * 60)))

def text : TimeUnit → String
  | second => "Second"
  | minute => "Minute"
  | hour => "Hour"
  | day => "Day"
  | week => "Week"
  | month => "Month"

def next : TimeUnit → Option TimeUnit
  | second => some minute
  | minute => some hour
  | hour => some day
  | day => some week
  | week => some month
  | month => none

theorem seconds_pos (unit : TimeUnit) : 0 < unit.seconds := by
  cases unit <;> decide

theorem next_le {unit other : TimeUnit} (longer : unit.seconds < other.seconds) :
    ∃ next ∈ unit.next, next.seconds ≤ other.seconds := by
  cases unit <;> cases other <;> revert longer <;> decide

end TimeUnit

/-- `Int(Date().timeIntervalSince(self))`, which truncates to whole seconds. -/
def secondAgo (now date : Timestamp) : Int := (now - date).tdiv 1000000

/-- `ratio` and `unit`. Swift's integer division truncates as well. -/
def ratioAndUnit (secondAgo : Int) : Int × TimeUnit :=
  if secondAgo < TimeUnit.minute.seconds then (secondAgo, .second)
  else if secondAgo < TimeUnit.hour.seconds then (secondAgo.tdiv TimeUnit.minute.seconds, .minute)
  else if secondAgo < TimeUnit.day.seconds then (secondAgo.tdiv TimeUnit.hour.seconds, .hour)
  else if secondAgo < TimeUnit.week.seconds then (secondAgo.tdiv TimeUnit.day.seconds, .day)
  else if secondAgo < TimeUnit.month.seconds then (secondAgo.tdiv TimeUnit.week.seconds, .week)
  else (secondAgo.tdiv TimeUnit.month.seconds, .month)

def timeBefore (now date : Timestamp) : String :=
  let (ratio, unit) := ratioAndUnit (secondAgo now date)
  toString ratio ++ " " ++ unit.text ++ " Ago"

/-! ### The count and the unit -/

namespace Date

/-- The time that is shown, in seconds. -/
def shown (secondAgo : Int) : Int := (ratioAndUnit secondAgo).1 * (ratioAndUnit secondAgo).2.seconds

theorem ratio_eq (s : Int) : (ratioAndUnit s).1 = s.tdiv (ratioAndUnit s).2.seconds := by
  unfold ratioAndUnit
  repeat' split
  all_goals simp [TimeUnit.seconds]

theorem unit_fits (s : Int) : (ratioAndUnit s).2 = .second ∨ (ratioAndUnit s).2.seconds ≤ s := by
  unfold ratioAndUnit
  repeat' split
  all_goals simp only [reduceCtorEq, true_or, false_or]
  all_goals omega

theorem before_next (s : Int) : ∀ next ∈ (ratioAndUnit s).2.next, s < next.seconds := by
  unfold ratioAndUnit
  repeat' split
  all_goals simp only [TimeUnit.next, Option.mem_def, Option.some.injEq, forall_eq', reduceCtorEq, false_implies, implies_true]
  all_goals assumption

theorem below_longer {s : Int} {other : TimeUnit} (longer : (ratioAndUnit s).2.seconds < other.seconds) :
    s < other.seconds := by
  obtain ⟨next, after, le⟩ := TimeUnit.next_le longer
  exact Int.lt_of_lt_of_le (before_next s next after) le

/-- The first branch takes every negative number too. -/
theorem ratioAndUnit_of_neg {s : Int} (negative : s < 0) : ratioAndUnit s = (s, .second) := by
  have early : s < TimeUnit.minute.seconds := by
    show s < 60
    omega
  exact if_pos early

section Past
variable {s : Int} (past : 0 ≤ s)
include past

theorem ratio_bounds : shown s ≤ s ∧ s < ((ratioAndUnit s).1 + 1) * (ratioAndUnit s).2.seconds := by
  have positive := (ratioAndUnit s).2.seconds_pos
  unfold shown
  rw [ratio_eq, Int.tdiv_eq_ediv_of_nonneg past]
  exact ⟨Int.ediv_mul_le s (Int.ne_of_gt positive), Int.lt_ediv_add_one_mul_self s positive⟩

theorem ratio_nonneg : 0 ≤ (ratioAndUnit s).1 := by
  have positive := (ratioAndUnit s).2.seconds_pos
  rw [ratio_eq]
  exact Int.tdiv_nonneg past (Int.le_of_lt positive)

theorem ratio_pos (fits : (ratioAndUnit s).2.seconds ≤ s) : 1 ≤ (ratioAndUnit s).1 := by
  have positive := (ratioAndUnit s).2.seconds_pos
  rw [ratio_eq, Int.tdiv_eq_ediv_of_nonneg past]
  exact (Int.le_ediv_iff_mul_le positive).mpr (by omega)

theorem unit_le_shown (fits : (ratioAndUnit s).2.seconds ≤ s) : (ratioAndUnit s).2.seconds ≤ shown s := by
  have positive := (ratioAndUnit s).2.seconds_pos
  have once := Int.mul_le_mul_of_nonneg_right (ratio_pos past fits) (Int.le_of_lt positive)
  rwa [Int.one_mul] at once

end Past

theorem unit_fits_of_longer {s : Int} {other : TimeUnit} (longer : other.seconds < (ratioAndUnit s).2.seconds) :
    (ratioAndUnit s).2.seconds ≤ s := by
  have positive := other.seconds_pos
  rcases unit_fits s with shortest | fits
  · rw [shortest] at longer
    have second : TimeUnit.second.seconds = 1 := rfl
    omega
  · exact fits

theorem shown_of_neg {s : Int} (negative : s < 0) : shown s = s := by
  rw [shown, ratioAndUnit_of_neg negative]
  exact Int.mul_one s

theorem shown_nonneg {s : Int} (past : 0 ≤ s) : 0 ≤ shown s :=
  Int.mul_nonneg (ratio_nonneg past) (Int.le_of_lt (ratioAndUnit s).2.seconds_pos)

theorem shown_mono {s later : Int} (le : s ≤ later) : shown s ≤ shown later := by
  by_cases negative : s < 0
  · rw [shown_of_neg negative]
    by_cases both : later < 0
    · rwa [shown_of_neg both]
    · have nonneg := shown_nonneg (Int.not_lt.mp both)
      omega
  · have past : 0 ≤ s := Int.not_lt.mp negative
    have past' : 0 ≤ later := Int.le_trans past le
    rcases Int.lt_trichotomy (ratioAndUnit s).2.seconds (ratioAndUnit later).2.seconds with longer | same | shorter
    · -- What is shown for `s` stays below the next unit, and a whole longer unit is shown later.
      have below := below_longer longer
      have reached := unit_le_shown past' (unit_fits_of_longer longer)
      have bound := (ratio_bounds past).1
      omega
    · unfold shown
      rw [ratio_eq, ratio_eq, same, Int.tdiv_eq_ediv_of_nonneg past, Int.tdiv_eq_ediv_of_nonneg past']
      have positive := (ratioAndUnit later).2.seconds_pos
      exact Int.mul_le_mul_of_nonneg_right (Int.ediv_le_ediv positive le) (Int.le_of_lt positive)
    · have below := below_longer shorter
      have fits := unit_fits_of_longer shorter
      omega

/-- What is shown for a date `s` seconds ago. -/
structure Sound (s : Int) : Prop where
  text : ∀ now date, secondAgo now date = s →
    timeBefore now date = toString (ratioAndUnit s).1 ++ " " ++ (ratioAndUnit s).2.text ++ " Ago"
  nonneg : 0 ≤ (ratioAndUnit s).1
  bounds : 0 ≤ s → (ratioAndUnit s).1 * (ratioAndUnit s).2.seconds ≤ s ∧
    s < ((ratioAndUnit s).1 + 1) * (ratioAndUnit s).2.seconds
  largest : 0 ≤ s → ∀ unit : TimeUnit, unit.seconds ≤ s → unit.seconds ≤ (ratioAndUnit s).2.seconds
  once : 0 ≤ s → (ratioAndUnit s).2 ≠ .second → 1 ≤ (ratioAndUnit s).1
  below : 0 ≤ s → ∀ unit : TimeUnit, (ratioAndUnit s).2.seconds < unit.seconds → shown s < unit.seconds
  longer : ∀ later, s ≤ later → shown s ≤ shown later

/-- The count is negative for a date in the future, and all is right for every other one. -/
theorem timeBefore_sound_iff (s : Int) : Sound s ↔ 0 ≤ s := by
  constructor
  · intro sound
    by_contra future
    have negative : s < 0 := Int.not_le.mp future
    have nonneg := sound.nonneg
    rw [ratioAndUnit_of_neg negative] at nonneg
    exact future nonneg
  · intro past
    constructor
    case text =>
      rintro now date rfl
      rfl
    case nonneg => exact ratio_nonneg past
    case bounds => exact fun _ => ratio_bounds past
    case largest =>
      intro _ unit fits
      by_contra longer
      have below := below_longer (Int.not_le.mp longer)
      omega
    case once => exact fun _ longer => ratio_pos past ((unit_fits s).resolve_left longer)
    case below => exact fun _ unit longer => Int.lt_of_le_of_lt (ratio_bounds past).1 (below_longer longer)
    case longer => exact fun later le => shown_mono le

/-- The viewer's clock is five seconds behind the author's. -/
theorem future_negative : secondAgo 0 5000000 = -5 ∧ timeBefore 0 5000000 = "-5 Second Ago" ∧ ¬ Sound (-5) :=
  ⟨rfl, rfl, fun sound => absurd sound.nonneg (by decide)⟩

end Date
end Foti
