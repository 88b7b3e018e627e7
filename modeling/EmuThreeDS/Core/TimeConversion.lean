import EmuThreeDS.Core.TimeSlices
import Mathlib.Tactic.Ring

/-!
# Guest time in cycles

The conversions of `core_timing.h` that take 64-bit values. The multiplication is a
parameter: the code's own wraps to a `u64`, and the checked one fails when the product does
not fit in 63 bits.
-/
namespace EmuThreeDS
namespace Timing

def baseClockRateArm11 : Int := 268111856

def maxValueToMultiply : Int := (2 ^ 63 - 1) / baseClockRateArm11

def mulU64 (x y : Int) : Id Int := toU64 (x * toU64 y)

def mulChecked (x y : Int) : Option Int :=
  if 0 ≤ x * y ∧ x * y < 2 ^ 63 then some (x * y) else none

/-- What the overloads share: `rounded` is the quotient that is multiplied when `time` itself
is too large. The cast of `time` leaves an `s64` as it is. -/
def toCycles {m : Type → Type} [Monad m] (mul : Int → Int → m Int) (unit time rounded : Int) :
    m Int := do
  if time.tdiv unit > maxValueToMultiply then
    -- "Integer overflow, use max value"
    return 2 ^ 63 - 1
  else if time > maxValueToMultiply then
    -- "Time very big, do rounding"
    return toS64 (← mul baseClockRateArm11 rounded)
  else
    return toS64 ((← mul baseClockRateArm11 (toS64 time)) / unit)

section
variable {m : Type → Type} [Monad m] (mul : Int → Int → m Int)

def usToCyclesS64 (us : Int) : m Int := toCycles mul 1000000 us (us.tdiv 1000000)

def usToCyclesU64 (us : Int) : m Int := toCycles mul 1000000 us (toS64 (us / 1000000))

def nsToCyclesS64 (ns : Int) : m Int := toCycles mul 1000000000 ns (ns.tdiv 1000000000)

/-- Here the cast comes before the division. -/
def nsToCyclesU64 (ns : Int) : m Int := toCycles mul 1000000000 ns ((toS64 ns).tdiv 1000000000)

end

inductive Overload where
  | usS64
  | usU64
  | nsS64
  | nsU64

namespace Overload

def unit : Overload → Int
  | usS64 | usU64 => 1000000
  | nsS64 | nsU64 => 1000000000

def run {m : Type → Type} [Monad m] (mul : Int → Int → m Int) : Overload → Int → m Int
  | usS64, us => usToCyclesS64 mul us
  | usU64, us => usToCyclesU64 mul us
  | nsS64, ns => nsToCyclesS64 mul ns
  | nsU64, ns => nsToCyclesU64 mul ns

def cycles (o : Overload) (time : Int) : Int := (o.run mulU64 time).run

/-- The values of the argument, without those a `nsToCycles(u64)` takes for negative. -/
def limit : Overload → Int
  | usU64 => 2 ^ 64
  | usS64 | nsS64 | nsU64 => 2 ^ 63

end Overload

/-- The cycles of a time, as far as the width of the counter lets them be computed: whole
seconds from `maxValueToMultiply` on, and the largest value where even these do not fit. -/
def cyclesOf (unit time : Int) : Int :=
  if maxValueToMultiply < time / unit then 2 ^ 63 - 1
  else if maxValueToMultiply < time then baseClockRateArm11 * (time / unit)
  else baseClockRateArm11 * time / unit

/-- `a` and `b` lie in the second in which the rounding begins, `a` before that point and at
least one cycle into the second. -/
def AcrossRounding (unit a b : Int) : Prop :=
  a ≤ maxValueToMultiply ∧ maxValueToMultiply < b ∧ a / unit = b / unit ∧
    unit ≤ baseClockRateArm11 * (a % unit)

theorem maxValueToMultiply_eq : maxValueToMultiply = 34401209161 := rfl

section

variable {x : Int} (low : 0 ≤ x) (high : x ≤ maxValueToMultiply)
include low high

theorem base_mul_bounds : 0 ≤ baseClockRateArm11 * x ∧ baseClockRateArm11 * x < 2 ^ 63 := by
  rw [maxValueToMultiply_eq] at high
  unfold baseClockRateArm11
  omega

theorem mulU64_eq : mulU64 baseClockRateArm11 x = baseClockRateArm11 * x := by
  have fits := base_mul_bounds low high
  have small : x < 2 ^ 63 := by
    rw [maxValueToMultiply_eq] at high
    omega
  unfold mulU64
  rw [toU64_eq low small, toU64_eq fits.1 fits.2]

theorem mulChecked_eq : mulChecked baseClockRateArm11 x = some (baseClockRateArm11 * x) :=
  if_pos (base_mul_bounds low high)

end

section
variable {m : Type → Type} [Monad m] [LawfulMonad m] {mul : Int → Int → m Int}
    {unit time rounded : Int}

/-- With any multiplication that is right on what may be multiplied, the code gives the cycles
of the time. -/
theorem toCycles_eq (right : ∀ x, 0 ≤ x → x ≤ maxValueToMultiply →
      mul baseClockRateArm11 x = pure (baseClockRateArm11 * x))
    (positive : 0 < unit) (low : 0 ≤ time)
    (divided : time / unit ≤ maxValueToMultiply → rounded = time / unit) :
    toCycles mul unit time rounded = pure (cyclesOf unit time) := by
  have quotient : 0 ≤ time / unit := Int.ediv_nonneg low positive.le
  unfold toCycles cyclesOf
  rw [Int.tdiv_eq_ediv_of_nonneg low]
  by_cases huge : time / unit > maxValueToMultiply
  · rw [if_pos huge, if_pos huge]
  · rw [if_neg huge, if_neg huge]
    have fits := base_mul_bounds quotient (not_lt.mp huge)
    by_cases big : time > maxValueToMultiply
    · rw [if_pos big, if_pos big, divided (not_lt.mp huge), right _ quotient (not_lt.mp huge),
        pure_bind, toS64_eq (by omega) fits.2]
    · rw [if_neg big, if_neg big]
      have product := base_mul_bounds low (not_lt.mp big)
      have result : 0 ≤ baseClockRateArm11 * time / unit :=
        Int.ediv_nonneg product.1 positive.le
      have smaller : baseClockRateArm11 * time / unit ≤ baseClockRateArm11 * time :=
        Int.ediv_le_self _ product.1
      have same : toS64 time = time := by
        have bound := not_lt.mp big
        rw [maxValueToMultiply_eq] at bound
        exact toS64_eq (by omega) (by omega)
      rw [same, right _ low (not_lt.mp big), pure_bind, toS64_eq (by omega) (by omega)]

end

namespace Overload
variable {o : Overload} {time : Int}

theorem unit_pos (o : Overload) : 0 < o.unit := by
  cases o <;> decide

theorem run_eq {m : Type → Type} [Monad m] [LawfulMonad m] {mul : Int → Int → m Int}
    (right : ∀ x, 0 ≤ x → x ≤ maxValueToMultiply →
      mul baseClockRateArm11 x = pure (baseClockRateArm11 * x))
    (low : 0 ≤ time) (high : time < o.limit) : o.run mul time = pure (cyclesOf o.unit time) := by
  cases o with
  | usS64 | nsS64 => exact toCycles_eq right (by decide) low fun _ => Int.tdiv_eq_ediv_of_nonneg low
  | usU64 =>
    apply toCycles_eq right (by decide) low
    intro small
    rw [maxValueToMultiply_eq] at small
    exact toS64_eq (by omega) (by omega)
  | nsU64 =>
    apply toCycles_eq right (by decide) low
    intro _
    rw [toS64_eq (by omega) high]
    exact Int.tdiv_eq_ediv_of_nonneg low

theorem cycles_eq (low : 0 ≤ time) (high : time < o.limit) : o.cycles time = cyclesOf o.unit time :=
  run_eq (m := Id) (fun _ nonneg small => mulU64_eq nonneg small) low high

theorem checked_eq (low : 0 ≤ time) (high : time < o.limit) :
    o.run mulChecked time = some (cyclesOf o.unit time) :=
  run_eq (m := Option) (fun _ nonneg small => mulChecked_eq nonneg small) low high

end Overload

section
variable {unit a b : Int}

section

variable (positive : 0 < unit)
include positive

theorem cyclesOf_le (nonneg : 0 ≤ a) : cyclesOf unit a ≤ 2 ^ 63 - 1 := by
  unfold cyclesOf
  split_ifs with huge big
  · exact le_refl _
  · have fits := base_mul_bounds (Int.ediv_nonneg nonneg positive.le) (not_lt.mp huge)
    omega
  · have fits := base_mul_bounds nonneg (not_lt.mp big)
    have smaller : baseClockRateArm11 * a / unit ≤ baseClockRateArm11 * a :=
      Int.ediv_le_self _ fits.1
    omega

theorem cycles_split (a : Int) : baseClockRateArm11 * a / unit =
      baseClockRateArm11 * (a / unit) + baseClockRateArm11 * (a % unit) / unit := by
  have cut : baseClockRateArm11 * a =
      baseClockRateArm11 * (a % unit) + unit * (baseClockRateArm11 * (a / unit)) := by
    conv_lhs => rw [← Int.emod_add_mul_ediv a unit]
    ring
  rw [cut, Int.add_mul_ediv_left _ _ positive.ne', add_comm]

theorem cycles_part_bounds (a : Int) : 0 ≤ baseClockRateArm11 * (a % unit) / unit ∧
      baseClockRateArm11 * (a % unit) / unit < baseClockRateArm11 := by
  have low := Int.emod_nonneg a positive.ne'
  have high := Int.emod_lt_of_pos a positive
  constructor
  · exact Int.ediv_nonneg (Int.mul_nonneg (by decide) low) positive.le
  · exact Int.ediv_lt_of_lt_mul positive (Int.mul_lt_mul_of_pos_left high (by decide))

theorem cyclesOf_le_across (small : a ≤ maxValueToMultiply)
    (big : maxValueToMultiply < b) (order : a / unit ≤ b / unit) :
    baseClockRateArm11 * a / unit ≤ baseClockRateArm11 * (b / unit) ↔ ¬AcrossRounding unit a b := by
  have part := cycles_part_bounds positive a
  rw [cycles_split positive a]
  rcases order.lt_or_eq with later | same
  · have next : baseClockRateArm11 * (a / unit + 1) ≤ baseClockRateArm11 * (b / unit) :=
      Int.mul_le_mul_of_nonneg_left later (by decide)
    rw [Int.mul_add] at next
    constructor
    · intro _ across
      exact later.ne across.2.2.1
    · omega
  · rw [← same]
    constructor
    · intro le across
      have one := Int.ediv_le_ediv positive across.2.2.2
      rw [Int.ediv_self positive.ne'] at one
      omega
    · intro across
      have short : baseClockRateArm11 * (a % unit) < unit :=
        not_le.mp fun long => across ⟨small, big, same, long⟩
      have nothing : baseClockRateArm11 * (a % unit) / unit < 1 :=
        Int.ediv_lt_of_lt_mul positive (by omega)
      omega

theorem cyclesOf_le_iff (nonneg : 0 ≤ a) (order : a ≤ b) :
    cyclesOf unit a ≤ cyclesOf unit b ↔ ¬AcrossRounding unit a b := by
  have seconds : a / unit ≤ b / unit := Int.ediv_le_ediv positive order
  by_cases huge : maxValueToMultiply < b / unit
  · have largest : cyclesOf unit b = 2 ^ 63 - 1 := if_pos huge
    have quotient := Int.ediv_le_self unit nonneg
    constructor
    · intro _ across
      have small := across.1
      have same := across.2.2.1
      omega
    · intro _
      rw [largest]
      exact cyclesOf_le positive nonneg
  · unfold cyclesOf
    rw [if_neg huge, if_neg (by omega)]
    by_cases big : maxValueToMultiply < b
    · rw [if_pos big]
      by_cases bigger : maxValueToMultiply < a
      · rw [if_pos bigger]
        constructor
        · intro _ across
          exact not_lt.mpr across.1 bigger
        · intro _
          exact Int.mul_le_mul_of_nonneg_left seconds (by decide)
      · rw [if_neg bigger]
        exact cyclesOf_le_across positive (not_lt.mp bigger) big seconds
    · rw [if_neg big, if_neg (by omega)]
      constructor
      · intro _ across
        exact big across.2.1
      · intro _
        exact Int.ediv_le_ediv positive (Int.mul_le_mul_of_nonneg_left order (by decide))

end

end

/-- A conversion never decreases but across the point where the rounding begins; it is the
floor of the exact value up to there, and no product overflows. -/
theorem conversion_monotone (o : Overload) (a b : Int) (nonneg : 0 ≤ a) (order : a ≤ b)
    (inRange : b < o.limit) : (o.cycles a ≤ o.cycles b ↔ ¬AcrossRounding o.unit a b) ∧
      o.cycles a = cyclesOf o.unit a ∧ o.run mulChecked a = some (o.cycles a) := by
  rw [Overload.cycles_eq nonneg (by omega), Overload.cycles_eq (by omega) inRange]
  exact ⟨cyclesOf_le_iff o.unit_pos nonneg order, rfl, Overload.checked_eq nonneg (by omega)⟩

theorem conversion_monotone_instance :
    (Overload.nsS64.cycles 5 ≤ Overload.nsS64.cycles 7 ↔ ¬AcrossRounding 1000000000 5 7) ∧
      Overload.nsS64.cycles 5 = cyclesOf 1000000000 5 ∧
      Overload.nsS64.run mulChecked 5 = some (Overload.nsS64.cycles 5) :=
  conversion_monotone .nsS64 5 7 (by decide) (by decide) (by decide)

/-- One nanosecond later, and most of a second fewer cycles. -/
theorem nsToCycles_decreases :
    Overload.nsS64.cycles (maxValueToMultiply + 1) < Overload.nsS64.cycles maxValueToMultiply := by
  decide +kernel

end Timing
end EmuThreeDS
