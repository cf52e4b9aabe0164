import Mathlib.Algebra.Order.Floor.Ring
import Mathlib.Data.Rat.Floor
import Mathlib.Tactic.FieldSimp
import Mathlib.Tactic.Linarith

set_option autoImplicit false

namespace Binary64

def roundHalfEven (q : Rat) : Int :=
  let below := q.floor
  let part := q - below
  if part < 1 / 2 then below
  else if 1 / 2 < part then below + 1
  else if below % 2 = 0 then below
  else below + 1

theorem roundHalfEven_intCast (n : Int) : roundHalfEven n = n := by
  unfold roundHalfEven
  simp

def pow2 (e : Int) : Rat := if 0 ≤ e then (2 : Rat) ^ e.toNat else 1 / (2 : Rat) ^ (-e).toNat

def exponent (q : Rat) : Int :=
  let e : Int := q.num.natAbs.log2 - q.den.log2
  if pow2 e ≤ |q| then e else e - 1

-- The nearest double, ties to even. The exponent is not bounded, so this is the format for magnitudes
-- in its normal range.
def round (q : Rat) : Rat :=
  if q = 0 then 0
  else
    let ulp := pow2 (exponent q - 52)
    roundHalfEven (q / ulp) * ulp

theorem exponent_intCast {n : Int} (nonzero : n ≠ 0) : exponent n = n.natAbs.log2 := by
  unfold exponent
  have leading : pow2 n.natAbs.log2 ≤ |(n : Rat)| := by
    unfold pow2
    rw [if_pos (Int.natCast_nonneg _), Int.toNat_natCast]
    have below : 2 ^ n.natAbs.log2 ≤ n.natAbs := Nat.log2_self_le (by omega)
    have magnitude : |(n : Rat)| = (n.natAbs : Rat) := by
      rw [← Int.cast_abs, Int.abs_eq_natAbs, Int.cast_natCast]
    rw [magnitude]
    exact_mod_cast below
  have unit_ : Nat.log2 1 = 0 := by decide
  simp [unit_, leading]

theorem round_intCast {n : Int} (small : n.natAbs < 2 ^ 53) : round n = n := by
  unfold round
  by_cases zero : n = 0
  · simp [zero]
  · have top : n.natAbs.log2 < 53 := (Nat.log2_lt (by omega)).mpr small
    have unit_ : pow2 ((n.natAbs.log2 : Int) - 52) = 1 / (2 : Rat) ^ (52 - n.natAbs.log2) := by
      unfold pow2
      by_cases last : n.natAbs.log2 = 52
      · simp [last]
      · rw [if_neg (by omega)]
        congr 2
        omega
    have scaled : (n : Rat) / (1 / (2 : Rat) ^ (52 - n.natAbs.log2)) =
        ((n * 2 ^ (52 - n.natAbs.log2) : Int) : Rat) := by
      rw [div_div_eq_mul_div, div_one]
      push_cast
      rfl
    have back : (2 : Rat) ^ (52 - n.natAbs.log2) ≠ 0 := by positivity
    rw [if_neg (by exact_mod_cast zero), exponent_intCast zero]
    simp only [unit_, scaled, roundHalfEven_intCast]
    push_cast
    field_simp

theorem pow2_eq_zpow (e : Int) : pow2 e = (2 : Rat) ^ e := by
  unfold pow2
  split
  next nonneg =>
      obtain ⟨n, rfl⟩ := Int.eq_ofNat_of_zero_le nonneg
      rw [Int.toNat_natCast, zpow_natCast]
  next negative =>
      obtain ⟨n, equal⟩ := Int.eq_ofNat_of_zero_le (show 0 ≤ -e by omega)
      have flipped : e = -(n : Int) := by omega
      rw [flipped, neg_neg, Int.toNat_natCast, zpow_neg, zpow_natCast, one_div]

theorem pow2_pos (e : Int) : 0 < pow2 e := by
  rw [pow2_eq_zpow]
  exact zpow_pos two_pos e

theorem pow2_add (a b : Int) : pow2 (a + b) = pow2 a * pow2 b := by
  simp only [pow2_eq_zpow]
  exact zpow_add₀ two_ne_zero a b

theorem pow2_lt_iff {a b : Int} : pow2 a < pow2 b ↔ a < b := by
  simp only [pow2_eq_zpow]
  exact zpow_lt_zpow_iff_right₀ one_lt_two

theorem abs_roundHalfEven_sub_le (q : Rat) : |(roundHalfEven q : Rat) - q| ≤ 1 / 2 := by
  have below : ((q.floor : Int) : Rat) ≤ q := Int.floor_le q
  have above : q < (q.floor : Int) + 1 := Int.lt_floor_add_one q
  unfold roundHalfEven
  simp only
  split_ifs with low high
  next => rw [abs_le]; constructor <;> linarith
  next => push_cast; rw [abs_le]; constructor <;> linarith
  next => rw [abs_le]; constructor <;> linarith
  next => push_cast; rw [abs_le]; constructor <;> linarith

theorem roundHalfEven_eq {q : Rat} {n : Int} (close : |q - n| < 1 / 2) : roundHalfEven q = n := by
  have error := abs_roundHalfEven_sub_le q
  have apart : |(roundHalfEven q : Rat) - n| < 1 := by
    have sum := abs_sub_le (roundHalfEven q : Rat) q n
    linarith
  have whole : |roundHalfEven q - n| < 1 := by exact_mod_cast apart
  have same := Int.abs_lt_one_iff.mp whole
  omega

theorem roundHalfEven_eq_iff {q : Rat} {n : Int} (even : n % 2 = 0) :
    roundHalfEven q = n ↔ |q - n| ≤ 1 / 2 := by
  constructor
  next =>
      intro same
      rw [abs_sub_comm, ← same]
      exact abs_roundHalfEven_sub_le q
  next =>
      intro close
      rcases close.lt_or_eq with closer | tie
      next => exact roundHalfEven_eq closer
      next =>
          rcases (abs_eq (by norm_num)).mp tie with above | under
          next =>
              have value : q = n + 1 / 2 := by linarith
              have cut : ⌊q⌋ = n := Int.floor_eq_iff.mpr ⟨by linarith, by linarith⟩
              change q.floor = n at cut
              unfold roundHalfEven
              simp only [cut]
              rw [if_neg (by linarith), if_neg (by linarith), if_pos even]
          next =>
              have value : q = n - 1 / 2 := by linarith
              have cut : ⌊q⌋ = n - 1 :=
                Int.floor_eq_iff.mpr ⟨by push_cast; linarith, by push_cast; linarith⟩
              change q.floor = n - 1 at cut
              unfold roundHalfEven
              simp only [cut]
              rw [if_neg (by push_cast; linarith), if_neg (by push_cast; linarith),
                if_neg (by omega)]
              omega

theorem pow2_exponent_le {q : Rat} (nonzero : q ≠ 0) : pow2 (exponent q) ≤ |q| := by
  unfold exponent
  simp only
  split
  next leading => exact leading
  next =>
      have numerator : q.num.natAbs ≠ 0 := Int.natAbs_ne_zero.mpr (Rat.num_ne_zero.mpr nonzero)
      have top : (2 : Rat) ^ q.num.natAbs.log2 ≤ (q.num.natAbs : Rat) := by
        exact_mod_cast Nat.log2_self_le numerator
      have bottom : (q.den : Rat) ≤ (2 : Rat) ^ (q.den.log2 + 1) := by
        exact_mod_cast (Nat.lt_log2_self (n := q.den)).le
      have positive : (0 : Rat) < q.den := by exact_mod_cast q.den_pos
      have value : |q| = (q.num.natAbs : Rat) / q.den := by
        conv_lhs => rw [← Rat.num_div_den q]
        rw [abs_div, abs_of_pos positive, Nat.cast_natAbs, Int.cast_abs]
      have split_ : (q.num.natAbs.log2 : Int) - q.den.log2 - 1 =
          q.num.natAbs.log2 - ((q.den.log2 + 1 : Nat) : Int) := by push_cast; ring
      rw [pow2_eq_zpow, value, split_, zpow_sub₀ two_ne_zero, zpow_natCast, zpow_natCast]
      exact div_le_div₀ (by positivity) top positive bottom

theorem lt_pow2_exponent (q : Rat) : |q| < pow2 (exponent q + 1) := by
  unfold exponent
  simp only
  split
  next =>
      have top : (q.num.natAbs : Rat) < (2 : Rat) ^ (q.num.natAbs.log2 + 1) := by
        exact_mod_cast Nat.lt_log2_self
      have bottom : (2 : Rat) ^ q.den.log2 ≤ q.den := by
        exact_mod_cast Nat.log2_self_le q.den_nz
      have value : |q| = (q.num.natAbs : Rat) / q.den := by
        have positive : (0 : Rat) < q.den := by exact_mod_cast q.den_pos
        conv_lhs => rw [← Rat.num_div_den q]
        rw [abs_div, abs_of_pos positive, Nat.cast_natAbs, Int.cast_abs]
      have split_ : (q.num.natAbs.log2 : Int) - q.den.log2 + 1 =
          ((q.num.natAbs.log2 + 1 : Nat) : Int) - q.den.log2 := by push_cast; ring
      rw [pow2_eq_zpow, value, split_, zpow_sub₀ two_ne_zero, zpow_natCast, zpow_natCast]
      exact div_lt_div₀ top bottom (by positivity) (by positivity)
  next small =>
      rw [sub_add_cancel]
      exact not_le.mp small

theorem round_dyadic {m : Int} (small : m.natAbs < 2 ^ 53) (a : Int) :
    round (m * pow2 a) = m * pow2 a := by
  by_cases zero : m * pow2 a = 0
  next => rw [zero]; rfl
  next =>
      have magnitude : |(m : Rat)| < pow2 53 := by
        have bound : pow2 53 = 9007199254740992 := by decide +kernel
        rw [bound, ← Int.cast_abs, Int.abs_eq_natAbs]
        exact_mod_cast small
      have less : |m * pow2 a| < pow2 (53 + a) := by
        rw [abs_mul, abs_of_pos (pow2_pos a), pow2_add]
        exact mul_lt_mul_of_pos_right magnitude (pow2_pos a)
      have leading := pow2_lt_iff.mp ((pow2_exponent_le zero).trans_lt less)
      unfold round
      rw [if_neg zero]
      generalize exponent (m * pow2 a) = e at leading
      obtain ⟨shift, isShift⟩ := Int.eq_ofNat_of_zero_le (show 0 ≤ a - (e - 52) by omega)
      have value : m * pow2 a = ((m * 2 ^ shift : Int) : Rat) * pow2 (e - 52) := by
        have unit_ : pow2 a = (2 : Rat) ^ shift * pow2 (e - 52) := by
          rw [← zpow_natCast, ← isShift, ← pow2_eq_zpow, ← pow2_add, Int.sub_add_cancel]
        rw [unit_]
        push_cast
        ring
      rw [value]
      simp only [mul_div_cancel_right₀ _ (pow2_pos (e - 52)).ne', roundHalfEven_intCast]

theorem round_multiple {q : Rat} {a : Int} (large : pow2 (a + 52) ≤ |q|) :
    ∃ n : Int, round q = n * pow2 a := by
  have nonzero : q ≠ 0 := by
    intro zero
    rw [zero, abs_zero] at large
    exact absurd (pow2_pos _) (not_lt.mpr large)
  have leading := pow2_lt_iff.mp (large.trans_lt (lt_pow2_exponent q))
  unfold round
  rw [if_neg nonzero]
  generalize exponent q = e at leading
  obtain ⟨shift, isShift⟩ := Int.eq_ofNat_of_zero_le (show 0 ≤ e - 52 - a by omega)
  have unit_ : pow2 (e - 52) = (2 : Rat) ^ shift * pow2 a := by
    rw [← zpow_natCast, ← isShift, ← pow2_eq_zpow, ← pow2_add, Int.sub_add_cancel]
  refine ⟨roundHalfEven (q / pow2 (e - 52)) * 2 ^ shift, ?_⟩
  push_cast
  generalize roundHalfEven (q / pow2 (e - 52)) = m
  rw [unit_, mul_assoc]

theorem abs_round_sub_le {q : Rat} {k : Int} (small : |q| < pow2 k) :
    |round q - q| ≤ pow2 (k - 54) := by
  unfold round
  split
  next zero =>
      rw [zero, sub_self, abs_zero, pow2_eq_zpow]
      exact (zpow_pos two_pos _).le
  next nonzero =>
      have unit_ : 0 < pow2 (exponent q - 52) := by
        rw [pow2_eq_zpow]
        exact zpow_pos two_pos _
      have leading : exponent q < k := by
        have less := (pow2_exponent_le nonzero).trans_lt small
        rw [pow2_eq_zpow, pow2_eq_zpow] at less
        exact (zpow_lt_zpow_iff_right₀ one_lt_two).mp less
      have half : pow2 (exponent q - 52) / 2 = pow2 (exponent q - 53) := by
        rw [pow2_eq_zpow, pow2_eq_zpow, show exponent q - 53 = exponent q - 52 - 1 by ring,
          zpow_sub_one₀ two_ne_zero, div_eq_mul_inv]
      have scaled : roundHalfEven (q / pow2 (exponent q - 52)) * pow2 (exponent q - 52) - q =
          (roundHalfEven (q / pow2 (exponent q - 52)) - q / pow2 (exponent q - 52)) *
            pow2 (exponent q - 52) := by
        rw [sub_mul, div_mul_cancel₀ _ unit_.ne']
      calc |roundHalfEven (q / pow2 (exponent q - 52)) * pow2 (exponent q - 52) - q|
          = |(roundHalfEven (q / pow2 (exponent q - 52)) : Rat) - q / pow2 (exponent q - 52)| *
              pow2 (exponent q - 52) := by rw [scaled, abs_mul, abs_of_pos unit_]
        _ ≤ 1 / 2 * pow2 (exponent q - 52) :=
          mul_le_mul_of_nonneg_right (abs_roundHalfEven_sub_le _) unit_.le
        _ = pow2 (exponent q - 53) := by rw [← half]; ring
        _ ≤ pow2 (k - 54) := by
          rw [pow2_eq_zpow, pow2_eq_zpow]
          exact zpow_le_zpow_right₀ one_le_two (by omega)

end Binary64
