import Mathlib
import ProcessEngine.Json.Basic

/-!
# Floats of whole numbers

A sum, a product or a quotient of floats leaves their range only where an operand is very
large or very small.  The float of a signed 64-bit number is neither: it is zero, or it has
a full mantissa of fifty-three bits at an exponent from -52 to 12.  So what is computed
from two of them is finite.

Nothing has to be known about the value that rounding gives.  It drops the bits that a
magnitude has too many, and it carries at most once (`roundWithAccuracy_eq`), so it adds
no more than one to the exponent, and the bits of the operands bound all the others.

Main statements: `isFinite_add`, `isFinite_sub`, `isFinite_mul`, `isFinite_div` and
`isFinite_neg`.
-/

namespace ProcessEngine.FloatRange

open Float.Model Float.Model.UnpackedFloat

/-! ## Rounding -/

/-- The exponent at which the magnitude `m * 2 ^ e` has no more bits than a float. -/
def fitted (m : Nat) (e : Int) : Int := max e (max (m.log2 + e - 52) (-1074))

theorem max_targetExponent (m : Nat) (e : Int) :
    max e (Format.binary64.targetExponent (totalExponent m e)) = fitted m e := by
  simp only [fitted, Format.targetExponent, totalExponent, Format.mantissaBits,
    Format.minExponent]
  omega

theorem shiftRight_mantissa (em : ExtendedMantissa) (n : Nat) :
    (em >>> n).mantissa = em.mantissa / 2 ^ n := by
  change (n.repeat ExtendedMantissa.shiftRightOne em).mantissa = em.mantissa / 2 ^ n
  induction n with
  | zero => simp [Nat.repeat]
  | succ n ih =>
      change (n.repeat ExtendedMantissa.shiftRightOne em).mantissa / 2 = em.mantissa / 2 ^ (n + 1)
      rw [ih, Nat.div_div_eq_div_mul, Nat.pow_succ]

theorem ofMantissaAndAccuracy_mantissa (m : Nat) (accuracy : Accuracy) :
    (ExtendedMantissa.ofMantissaAndAccuracy m accuracy).mantissa = m := by
  cases accuracy with
  | exact => rfl
  | inexact o => cases o <;> rfl

/-- The bits that a magnitude has too many are dropped. -/
theorem shiftToTargetExponent_spec (m : Nat) (e : Int) (accuracy : Accuracy) :
    (shiftToTargetExponent .binary64 m e accuracy).1.mantissa
        = m / 2 ^ (fitted m e - e).toNat ∧
      (shiftToTargetExponent .binary64 m e accuracy).2 = fitted m e := by
  have hfitted := max_targetExponent m e
  have hdropped : (Format.binary64.targetExponent (totalExponent m e) - e).toNat
      = (fitted m e - e).toNat := by omega
  simp only [shiftToTargetExponent, shiftToExponent, shiftRight_mantissa,
    ofMantissaAndAccuracy_mantissa, hdropped, true_and]
  omega

theorem roundedMantissa_bounds (em : ExtendedMantissa) :
    em.mantissa ≤ em.roundedMantissa ∧ em.roundedMantissa ≤ em.mantissa + 1 := by
  rcases em with ⟨m, r, s⟩
  have := Nat.mod_lt m (by decide : 0 < 2)
  cases r <;> cases s <;>
    simp only [ExtendedMantissa.roundedMantissa, ExtendedMantissa.accuracy,
      Accuracy.roundToNearestEven] <;> omega

theorem div_fitted_lt (m : Nat) (e : Int) : m / 2 ^ (fitted m e - e).toNat < 2 ^ 53 := by
  rw [Nat.div_lt_iff_lt_mul (Nat.two_pow_pos _), ← Nat.pow_add]
  refine Nat.lt_of_lt_of_le Nat.lt_log2_self (Nat.pow_le_pow_right (by decide) ?_)
  unfold fitted
  omega

/-- A mantissa at an exponent, where rounding may have carried into a bit of its own. -/
def carried (s : Sign) (r : Nat) (e : Int) : UnpackedFloat :=
  if h : r = 0 then .zero s
  else if r = 2 ^ 53 then .finite s (2 ^ 52) (e + 1) (by decide)
  else .finite s r e (Nat.pos_of_ne_zero h)

theorem fitted_of_lt {r : Nat} {e : Int} (hr : r < 2 ^ 53) (he : -1074 ≤ e) : fitted r e = e := by
  have hlog : r.log2 ≤ 52 := by
    by_cases hzero : r = 0
    · simp [hzero]
    · have := (Nat.log2_lt hzero).mpr hr
      omega
  unfold fitted
  omega

theorem fitted_two_pow (e : Int) (he : -1074 ≤ e) : fitted (2 ^ 53) e = e + 1 := by
  unfold fitted
  rw [Nat.log2_two_pow]
  omega

/-- The second shift after rounding only undoes a carry. -/
theorem carry_spec {r : Nat} {e : Int} (hr : r ≤ 2 ^ 53) (he : -1074 ≤ e) (s : Sign) :
    (if h : (shiftToTargetExponent .binary64 r e .exact).1.mantissa = 0 then .zero s
      else .finite s (shiftToTargetExponent .binary64 r e .exact).1.mantissa
        (shiftToTargetExponent .binary64 r e .exact).2 (Nat.pos_of_ne_zero h))
      = carried s r e := by
  obtain ⟨hmantissa, hexponent⟩ := shiftToTargetExponent_spec r e .exact
  simp only [hmantissa, hexponent]
  by_cases hcarry : r = 2 ^ 53
  · simp [carried, hcarry, fitted_two_pow e he]
  · simp [carried, hcarry, fitted_of_lt (Nat.lt_of_le_of_ne hr hcarry) he]

/-- **Rounding** drops the bits that are too many and carries at most once. -/
theorem roundWithAccuracy_eq (s : Sign) (m : Nat) (e : Int) (accuracy : Accuracy) :
    ∃ r, m / 2 ^ (fitted m e - e).toNat ≤ r ∧ r ≤ 2 ^ 53 ∧
      roundWithAccuracy .binary64 s m e accuracy = carried s r (fitted m e) := by
  obtain ⟨hmantissa, hexponent⟩ := shiftToTargetExponent_spec m e accuracy
  have hlt := div_fitted_lt m e
  have hlow : -1074 ≤ fitted m e := by unfold fitted; omega
  have hbounds := roundedMantissa_bounds (shiftToTargetExponent .binary64 m e accuracy).1
  rw [hmantissa] at hbounds
  refine ⟨_, hbounds.1, by omega, ?_⟩
  rw [← carry_spec (by omega) hlow, roundWithAccuracy, ← hexponent]

/-! ## Two shapes of floats -/

/-- Zero, or a magnitude whose exponent is far from that of the infinite floats. -/
inductive Moderate : UnpackedFloat → Prop
  | zero {s : Sign} : Moderate (.zero s)
  | finite {s : Sign} {m : Nat} {e : Int} {h : 0 < m} (small : e ≤ 900) : Moderate (.finite s m e h)

/-- A magnitude with all bits of a mantissa, and not far from one. -/
inductive Full (low high : Int) : UnpackedFloat → Prop
  | finite {s : Sign} {m : Nat} {e : Int} {h : 0 < m} (hlow : 2 ^ 52 ≤ m) (hhigh : m < 2 ^ 53)
      (lowest : low ≤ e) (highest : e ≤ high) : Full low high (.finite s m e h)

theorem carried_moderate {r : Nat} {e : Int} (he : e ≤ 899) (s : Sign) :
    Moderate (carried s r e) := by
  unfold carried
  split
  · exact .zero
  · split
    · exact .finite (by omega)
    · exact .finite (by omega)

theorem carried_full {r : Nat} {e : Int} (hlow : 2 ^ 52 ≤ r) (hhigh : r ≤ 2 ^ 53) (s : Sign) :
    Full e (e + 1) (carried s r e) := by
  unfold carried
  split
  · omega
  · split
    · exact .finite (by decide) (by decide) (by omega) (by omega)
    · exact .finite hlow (by omega) (by omega) (by omega)

theorem roundWithAccuracy_moderate {m : Nat} {e : Int} (he : e ≤ 800) (hm : m.log2 + e ≤ 800)
    (s : Sign) (accuracy : Accuracy) :
    Moderate (roundWithAccuracy .binary64 s m e accuracy) := by
  obtain ⟨r, -, -, hround⟩ := roundWithAccuracy_eq s m e accuracy
  rw [hround]
  refine carried_moderate ?_ s
  unfold fitted
  omega

/-- A magnitude with bits enough is rounded to one with all bits of a mantissa. -/
theorem roundWithAccuracy_full {m : Nat} {e : Int} (hm : 52 ≤ m.log2) (he : -1000 ≤ e) (s : Sign)
    (accuracy : Accuracy) :
    Full (m.log2 + e - 52) (m.log2 + e - 51) (roundWithAccuracy .binary64 s m e accuracy) := by
  obtain ⟨r, hlow, hhigh, hround⟩ := roundWithAccuracy_eq s m e accuracy
  have hfitted : fitted m e = m.log2 + e - 52 := by
    unfold fitted
    omega
  have hnormal : 2 ^ 52 ≤ m / 2 ^ (fitted m e - e).toNat := by
    rw [Nat.le_div_iff_mul_le (Nat.two_pow_pos _), ← Nat.pow_add]
    refine Nat.le_trans (Nat.pow_le_pow_right (by decide) ?_)
      (Nat.log2_self_le (n := m) (fun h => by simp [h] at hm))
    omega
  rw [hround, hfitted]
  have := carried_full (e := m.log2 + e - 52) (Nat.le_trans hnormal hlow) hhigh s
  rwa [show (m.log2 + e - 52 + 1 : Int) = m.log2 + e - 51 by omega] at this

theorem log2_shiftLeft {m : Nat} (hm : m ≠ 0) (k : Nat) : (m <<< k).log2 = m.log2 + k := by
  obtain ⟨hlow, hhigh⟩ := (Nat.log2_eq_iff hm).mp rfl
  have hpow : m * 2 ^ k ≠ 0 := Nat.mul_ne_zero hm (Nat.ne_of_gt (Nat.two_pow_pos k))
  rw [Nat.shiftLeft_eq, Nat.log2_eq_iff hpow, Nat.pow_add, Nat.add_right_comm, Nat.pow_add]
  exact ⟨Nat.mul_le_mul_right _ hlow, Nat.mul_lt_mul_of_pos_right hhigh (Nat.two_pow_pos k)⟩

/-- A magnitude with bits too few gets them first. -/
theorem round_eq (s : Sign) (m : Nat) (e : Int) :
    ∃ k : Nat, (k : Int) = max 0 (min (52 - (m.log2 : Int)) (e + 1074)) ∧
      round .binary64 s m e = roundWithAccuracy .binary64 s (m <<< k) (e - k) .exact := by
  refine ⟨(e - Format.binary64.targetExponent (totalExponent m e)).toNat, ?_, rfl⟩
  simp only [Format.targetExponent, totalExponent, Format.mantissaBits, Format.minExponent]
  omega

theorem round_moderate {m : Nat} {e : Int} (hm : m ≠ 0) (hsize : m.log2 + e ≤ 800)
    (s : Sign) : Moderate (round .binary64 s m e) := by
  obtain ⟨k, hk, hround⟩ := round_eq s m e
  rw [hround]
  refine roundWithAccuracy_moderate (by omega) ?_ s .exact
  rw [log2_shiftLeft hm]
  omega

/-! ## Packing -/

theorem isFinite_unpack_packComponents (s : Sign) {exponent : BitVec 11}
    (hexponent : exponent ≠ -1#11) (mantissa : BitVec 52) :
    (UnpackedFloat.unpack .binary64 (packComponents .binary64 s exponent mantissa)).isFinite
      = true := by
  simp only [UnpackedFloat.unpack, unpackExponent_packComponents, unpackMantissa_packComponents,
    if_neg hexponent]
  split
  · split <;> rfl
  · rfl

theorem toNat_ofNat_exponent {n : Nat} (h : n < 2 ^ 11) : (BitVec.ofNat 11 n).toNat = n := by
  rw [BitVec.toNat_ofNat, Nat.mod_eq_of_lt h]

theorem ofNat_exponent_ne {n : Nat} (h : n + 1 < 2 ^ 11) : BitVec.ofNat 11 n ≠ -1#11 := by
  intro heq
  have hnat := congrArg BitVec.toNat heq
  rw [toNat_ofNat_exponent (by omega)] at hnat
  exact absurd hnat (by simp; omega)

theorem isFinite_pack {u : UnpackedFloat} (h : Moderate u) :
    (Float.Model.pack u).isFinite = true := by
  have hbias : Format.binary64.exponentBias = 1023 := rfl
  cases h with
  | @zero s => exact isFinite_unpack_packComponents s (by decide) 0
  | @finite s m e hm small =>
      change (UnpackedFloat.unpack .binary64
        (UnpackedFloat.pack .binary64 (.finite s m e hm))).isFinite = true
      simp only [UnpackedFloat.pack, hbias]
      rw [if_neg (by omega)]
      split
      · exact isFinite_unpack_packComponents s (ofNat_exponent_ne (by omega)) _
      · exact isFinite_unpack_packComponents s (by decide) _

/-- A full magnitude in range is kept as it is by the patterns of bits. -/
theorem unpack_pack_full {u : UnpackedFloat} {low high : Int} (h : Full low high u)
    (hlow : -1000 ≤ low) (hhigh : high ≤ 900) : Full low high (Float.Model.pack u).unpack := by
  have hbias : Format.binary64.exponentBias = 1023 := rfl
  cases h with
  | @finite s m e hm hleast hmost hlowest hhighest =>
      have hlog : m.log2 = 52 := (Nat.log2_eq_iff (Nat.ne_of_gt hm)).mpr ⟨hleast, hmost⟩
      change Full low high
        (UnpackedFloat.unpack .binary64 (UnpackedFloat.pack .binary64 (.finite s m e hm)))
      simp only [UnpackedFloat.pack, hbias]
      rw [if_neg (by omega), if_pos (by rw [hlog]; rfl)]
      have hexponent : (BitVec.ofNat 11 (e + (1023 : Nat) + (52 : Nat)).toNat).toNat
          = (e + 1075).toNat := by
        rw [toNat_ofNat_exponent (by omega)]
        omega
      simp only [UnpackedFloat.unpack, unpackExponent_packComponents, unpackMantissa_packComponents]
      rw [if_neg (ofNat_exponent_ne (by omega)), if_neg]
      · have hmantissa : (1#1 ++ BitVec.ofNat 52 m).toNat = m := by
          rw [BitVec.toNat_append, BitVec.toNat_ofNat m 52,
            ← Nat.shiftLeft_add_eq_or_of_lt (Nat.mod_lt m (Nat.two_pow_pos 52))]
          change 2 ^ 52 + m % 2 ^ 52 = m
          omega
        exact .finite (by rwa [hmantissa]) (by rwa [hmantissa]) (by rw [hexponent, hbias]; omega)
          (by rw [hexponent, hbias]; omega)
      · intro hzero
        have hnat := congrArg BitVec.toNat hzero
        rw [hexponent, BitVec.toNat_ofNat] at hnat
        omega

/-! ## The float of a whole number -/

theorem Full.mono {low high low' high' : Int} {u : UnpackedFloat} (h : Full low high u)
    (hlow : low' ≤ low) (hhigh : high ≤ high') : Full low' high' u := by
  cases h with
  | finite hleast hmost hlowest hhighest =>
      exact .finite hleast hmost (Int.le_trans hlow hlowest) (Int.le_trans hhighest hhigh)

theorem Full.neg {low high : Int} {u : UnpackedFloat} (h : Full low high u) :
    Full low high u.neg := by
  cases h with
  | finite hleast hmost hlowest hhighest => exact .finite hleast hmost hlowest hhighest

theorem unpack_one :
    (1.0 : Float).toModel.unpack = .finite .positive (2 ^ 52) (-52) (by decide) := rfl

theorem log2_mul_two_pow {m : Nat} (hm : m ≠ 0) (k : Nat) : (m * 2 ^ k).log2 = m.log2 + k := by
  rw [← Nat.shiftLeft_eq, log2_shiftLeft hm]

/-- Below `2 ^ 53` a number is converted as a machine word. -/
theorem full_toFloat {n : Nat} (hzero : n ≠ 0) (hn : n < 2 ^ 53) :
    Full (-52) 1 n.toUInt64.toFloat.toModel.unpack := by
  have hlog : n.log2 < 53 := (Nat.log2_lt hzero).mpr hn
  have hnat : n.toUInt64.toNat = n := by
    simp only [Nat.toUInt64, UInt64.toNat_ofNat']
    omega
  change Full (-52) 1
    (Float.Model.pack (normalize .binary64 (n.toUInt64.toNat : Int) 0 .positive)).unpack
  rw [hnat, UnpackedFloat.normalize]
  have hcompare : compare (n : Int) 0 = .gt := Int.compare_eq_gt.mpr (by omega)
  rw [hcompare]
  obtain ⟨k, hk, hround⟩ := round_eq .positive n 0
  refine unpack_pack_full ?_ (by decide) (by decide)
  change Full (-52) 1 (round .binary64 .positive n 0)
  rw [hround]
  have hshift := log2_shiftLeft hzero k
  exact (roundWithAccuracy_full (by omega) (by omega) .positive .exact).mono (by omega) (by omega)

/-- From `2 ^ 53` on a number is converted as a decimal without places. -/
theorem ofScientific_zero {n : Nat} (hzero : n ≠ 0) :
    UnpackedFloat.ofScientific .binary64 n 0
      = roundWithAccuracy .binary64 .positive (n <<< 53 * 1) (-53) .exact := by
  have hlarge : ¬ (0 : Int) > 2 ^ 11 := by decide
  have hsmall : ¬ (0 : Int) < -((2 ^ 11 : Int) + n.log2) := by omega
  rw [UnpackedFloat.ofScientific, dif_neg hzero, if_neg hlarge, if_neg hsmall,
    if_pos (Int.le_refl 0)]
  rfl

theorem full_ofNat {n : Nat} (hzero : n ≠ 0) (hn : n ≤ 2 ^ 63) :
    Full (-52) 12 (Float.ofNat n).toModel.unpack := by
  change Full (-52) 12 (Float.ofScientific n false 0).toModel.unpack
  rw [Float.ofScientific]
  by_cases hsmall : n < 2 ^ 53
  · rw [dif_pos ⟨hsmall, by decide⟩]
    have hfull := full_toFloat hzero hsmall
    change Full (-52) 12 (Float.Model.pack (UnpackedFloat.mul .binary64
      n.toUInt64.toFloat.toModel.unpack (1.0 : Float).toModel.unpack)).unpack
    generalize n.toUInt64.toFloat.toModel.unpack = u at hfull ⊢
    refine unpack_pack_full ?_ (by decide) (by decide)
    cases hfull with
    | @finite s m e hm hleast hmost hlowest hhighest =>
        have hlog : m.log2 = 52 := (Nat.log2_eq_iff (Nat.ne_of_gt hm)).mpr ⟨hleast, hmost⟩
        have hshift := log2_mul_two_pow (Nat.ne_of_gt hm) 52
        rw [unpack_one]
        change Full (-52) 12
          (roundWithAccuracy .binary64 (s * .positive) (m * 2 ^ 52) (e + -52) .exact)
        exact (roundWithAccuracy_full (by omega) (by omega) _ .exact).mono (by omega) (by omega)
  · rw [dif_neg (fun h => hsmall h.1)]
    have hlog : 53 ≤ n.log2 ∧ n.log2 < 64 :=
      ⟨(Nat.le_log2 hzero).mpr (by omega), (Nat.log2_lt hzero).mpr (by omega)⟩
    have hshift := log2_shiftLeft hzero 53
    refine unpack_pack_full ?_ (by decide) (by decide)
    change Full (-52) 12 (UnpackedFloat.ofScientific .binary64 n 0)
    rw [ofScientific_zero hzero, Nat.mul_one]
    exact (roundWithAccuracy_full (by omega) (by omega) _ .exact).mono (by omega) (by omega)

theorem full_ofInt {n : Int} (hzero : n ≠ 0) (hn : fitsSigned n = true) :
    Full (-52) 12 (Float.ofInt n).toModel.unpack := by
  obtain ⟨hleast, hmost⟩ := of_decide_eq_true hn
  cases n with
  | ofNat n =>
      rw [Int.ofNat_eq_natCast] at hzero hmost
      exact full_ofNat (by omega) (by omega)
  | negSucc n =>
      change Full (-52) 12 (Float.Model.pack (Float.ofNat (n + 1)).toModel.unpack.neg).unpack
      exact unpack_pack_full (full_ofNat (by omega) (by omega)).neg (by decide) (by decide)

/-! ## Results on such floats -/

/-- Zero, or a magnitude not far from those of whole numbers. -/
inductive Whole : UnpackedFloat → Prop
  | zero {s : Sign} : Whole (.zero s)
  | finite {s : Sign} {m : Nat} {e : Int} {h : 0 < m} (bits : m < 2 ^ 53) (lowest : -52 ≤ e)
      (highest : e ≤ 12) : Whole (.finite s m e h)

theorem whole_ofInt {n : Int} (hn : fitsSigned n = true) :
    Whole (Float.ofInt n).toModel.unpack := by
  by_cases hzero : n = 0
  · rw [hzero]
    exact .zero (s := .positive)
  · have hfull := full_ofInt hzero hn
    generalize (Float.ofInt n).toModel.unpack = u at hfull ⊢
    cases hfull with
    | finite _ bits lowest highest => exact .finite bits lowest highest

theorem Whole.neg {u : UnpackedFloat} (h : Whole u) : Whole u.neg := by
  cases h with
  | zero => exact .zero
  | finite bits lowest highest => exact .finite bits lowest highest

theorem Whole.moderate {u : UnpackedFloat} (h : Whole u) : Moderate u := by
  cases h with
  | zero => exact .zero
  | finite _ _ highest => exact .finite (by omega)

theorem log2_le_of_lt {m k : Nat} (hm : m < 2 ^ k) : m.log2 ≤ k := by
  by_cases hzero : m = 0
  · simp [hzero]
  · exact Nat.le_of_lt ((Nat.log2_lt hzero).mpr hm)

theorem normalize_moderate {k : Int} {e : Int} (hk : k.natAbs < 2 ^ 118) (he : e ≤ 12) (s : Sign) :
    Moderate (normalize .binary64 k e s) := by
  have hlog := log2_le_of_lt hk
  rw [UnpackedFloat.normalize]
  cases hcompare : compare k 0 with
  | lt =>
      have hneg := Int.compare_eq_lt.mp hcompare
      have habs : (-k).toNat = k.natAbs := by omega
      exact round_moderate (by omega) (by rw [habs]; omega) .negative
  | eq => exact .zero
  | gt =>
      have hpos := Int.compare_eq_gt.mp hcompare
      have habs : k.toNat = k.natAbs := by omega
      exact round_moderate (by omega) (by rw [habs]; omega) .positive

theorem natAbs_apply (s : Sign) (k : Int) : (s.apply k).natAbs = k.natAbs := by
  cases s with
  | negative => exact Int.natAbs_neg k
  | positive => rfl

theorem decreaseExponent_lt {m : Nat} {e e' : Int} (hm : m < 2 ^ 53) (hbits : e - e' ≤ 64) :
    (decreaseExponent m e e').1 < 2 ^ 117 := by
  change m <<< (e - e').toNat < 2 ^ 117
  rw [Nat.shiftLeft_eq]
  calc m * 2 ^ (e - e').toNat < 2 ^ 53 * 2 ^ (e - e').toNat :=
        Nat.mul_lt_mul_of_pos_right hm (Nat.two_pow_pos _)
    _ = 2 ^ (53 + (e - e').toNat) := (Nat.pow_add 2 53 _).symm
    _ ≤ 2 ^ 117 := Nat.pow_le_pow_right (by decide) (by omega)

theorem add_moderate {u v : UnpackedFloat} (hu : Whole u) (hv : Whole v) :
    Moderate (UnpackedFloat.add .binary64 u v) := by
  cases hu with
  | @zero s =>
      cases hv with
      | @zero s' =>
          rw [UnpackedFloat.add]
          split <;> exact .zero
      | finite bits lowest highest => exact (Whole.finite bits lowest highest).moderate
  | @finite s m e hm bits lowest highest =>
      cases hv with
      | zero => exact (Whole.finite bits lowest highest).moderate
      | @finite s' m' e' hm' bits' lowest' highest' =>
          have hleft : (decreaseExponent m e (min e e')).1 < 2 ^ 117 :=
            decreaseExponent_lt bits (by omega)
          have hright : (decreaseExponent m' e' (min e e')).1 < 2 ^ 117 :=
            decreaseExponent_lt bits' (by omega)
          have hsum := Int.natAbs_add_le (s.apply (decreaseExponent m e (min e e')).1)
            (s'.apply (decreaseExponent m' e' (min e e')).1)
          rw [natAbs_apply, natAbs_apply, Int.natAbs_natCast, Int.natAbs_natCast] at hsum
          change Moderate (normalize .binary64 (s.apply (decreaseExponent m e (min e e')).1
            + s'.apply (decreaseExponent m' e' (min e e')).1) (min e e') .positive)
          exact normalize_moderate (by omega) (by omega) _

theorem apply_neg (s : Sign) (k : Int) : (-s).apply k = -s.apply k := by
  cases s with
  | negative => exact (Int.neg_neg k).symm
  | positive => rfl

theorem sub_eq_add_neg (u v : UnpackedFloat) :
    UnpackedFloat.sub .binary64 u v = UnpackedFloat.add .binary64 u v.neg := by
  cases u <;> cases v <;>
    simp only [UnpackedFloat.sub, UnpackedFloat.add, UnpackedFloat.neg, apply_neg,
      Int.sub_eq_add_neg]

theorem mul_moderate {u v : UnpackedFloat} (hu : Whole u) (hv : Whole v) :
    Moderate (UnpackedFloat.mul .binary64 u v) := by
  cases hu with
  | zero =>
      cases hv with
      | zero => exact .zero
      | finite => exact .zero
  | @finite s m e hm bits lowest highest =>
      cases hv with
      | zero => exact .zero
      | @finite s' m' e' hm' bits' lowest' highest' =>
          have hproduct : m * m' < 2 ^ 106 :=
            calc m * m' < 2 ^ 53 * 2 ^ 53 := Nat.mul_lt_mul'' bits bits'
              _ = 2 ^ 106 := (Nat.pow_add 2 53 53).symm
          have hlog := log2_le_of_lt hproduct
          exact roundWithAccuracy_moderate (by omega) (by omega) _ .exact

theorem divCore_eq (m m' : Nat) (e e' : Int) :
    ∃ k : Nat, divCore .binary64 m e m' e'
      = ((m <<< k) / m', e - e' - k, accuracyOfFraction ((m <<< k) % m') m') := by
  have hexponent (t : Int) (h : t ≤ e - e') : t = e - e' - (e - e' - t).toNat := by omega
  exact ⟨_, congrArg _ (congrArg (·, _) (hexponent _ (Int.min_le_left _ _)))⟩

theorem div_moderate {u v : UnpackedFloat} (hu : Whole u) (hv : Full (-52) 12 v) :
    Moderate (UnpackedFloat.div .binary64 u v) := by
  cases hv with
  | @finite s' m' e' hm' hleast' hmost' lowest' highest' =>
      cases hu with
      | zero => exact .zero
      | @finite s m e hm bits lowest highest =>
          obtain ⟨k, hcore⟩ := divCore_eq m m' e e'
          have hquotient : (m <<< k) / m' < 2 ^ (53 + k) := by
            refine Nat.lt_of_le_of_lt (Nat.div_le_self _ _) ?_
            rw [Nat.shiftLeft_eq, Nat.pow_add]
            exact Nat.mul_lt_mul_of_pos_right bits (Nat.two_pow_pos k)
          have hlog := log2_le_of_lt hquotient
          change Moderate (roundWithAccuracy .binary64 (s / s') (divCore .binary64 m e m' e').1
            (divCore .binary64 m e m' e').2.1 (divCore .binary64 m e m' e').2.2)
          rw [hcore]
          dsimp only
          exact roundWithAccuracy_moderate (by omega) (by omega) _ _

/-! ## Floats -/

variable {a b : Int} (ha : fitsSigned a = true) (hb : fitsSigned b = true)

include ha in
theorem isFinite_neg : (-Float.ofInt a).isFinite = true :=
  isFinite_pack (whole_ofInt ha).neg.moderate

include hb in
theorem ofInt_ne_zero (hzero : b ≠ 0) : (Float.ofInt b == 0.0) = false := by
  have hfull := full_ofInt hzero hb
  change UnpackedFloat.beq (Float.ofInt b).toModel.unpack (.zero .positive) = false
  generalize (Float.ofInt b).toModel.unpack = u at hfull ⊢
  cases hfull with
  | @finite s => cases s <;> rfl

include ha hb

theorem isFinite_add : (Float.ofInt a + Float.ofInt b).isFinite = true :=
  isFinite_pack (add_moderate (whole_ofInt ha) (whole_ofInt hb))

theorem isFinite_sub : (Float.ofInt a - Float.ofInt b).isFinite = true := by
  have hsub := add_moderate (whole_ofInt ha) (whole_ofInt hb).neg
  rw [← sub_eq_add_neg] at hsub
  exact isFinite_pack hsub

theorem isFinite_mul : (Float.ofInt a * Float.ofInt b).isFinite = true :=
  isFinite_pack (mul_moderate (whole_ofInt ha) (whole_ofInt hb))

theorem isFinite_div (hzero : b ≠ 0) : (Float.ofInt a / Float.ofInt b).isFinite = true :=
  isFinite_pack (div_moderate (whole_ofInt ha) (full_ofInt hzero hb))

end ProcessEngine.FloatRange
