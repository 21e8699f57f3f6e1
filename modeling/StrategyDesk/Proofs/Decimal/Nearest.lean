import Mathlib
import StrategyDesk.Arithmetic

/-!
This module contains which doubles come out of the rounding of fractions. There is always one, it is
infinite at worst, and a whole number of 64 bits gives a finite one.
-/

namespace StrategyDesk
namespace Binary64

/-! ## Bits -/

theorem valid_toBitVec {bits : UInt64} (h : bits.toNat % Nat.pow 2 63 ≤ infinityBits) :
    Float.Model.Format.binary64.Valid bits.toBitVec := by
  constructor
  intro hexponent hmantissa
  exfalso
  apply hmantissa
  apply BitVec.eq_of_toNat_eq
  have hexponent := congrArg BitVec.toNat hexponent
  simp only [Float.Model.UnpackedFloat.unpackExponent_def] at hexponent
  simp only [Float.Model.UnpackedFloat.unpackMantissa_def]
  simp [Nat.shiftRight_eq_div_pow] at hexponent ⊢
  simp [infinityBits] at h
  omega

theorem ofFloat_ofBits {bits : Nat} (hlt : bits < Nat.pow 2 64)
    (hle : bits % Nat.pow 2 63 ≤ infinityBits) :
    ofFloat (Float.ofBits (UInt64.ofNat bits)) = ofBits bits := by
  have hbits : (UInt64.ofNat bits).toNat = bits := by
    rw [UInt64.toNat_ofNat']
    exact Nat.mod_eq_of_lt hlt
  have hfloat : (Float.ofBits (UInt64.ofNat bits)).toBits = UInt64.ofNat bits := by
    apply UInt64.toBitVec_inj.mp
    apply Float.Model.UnpackedFloat.pack_unpack_of_valid
    . apply valid_toBitVec
      rw [hbits]
      exact hle
    . decide
  unfold ofFloat
  rw [hfloat, hbits]

theorem ofBits_ne_notANumber {bits : Nat} (h : bits % Nat.pow 2 63 ≤ infinityBits) :
    ofBits bits ≠ .notANumber := by
  unfold ofBits
  dsimp only
  split
  . next hscale =>
    have hfraction : bits % Nat.pow 2 52 = 0 := by
      simp [infinityBits] at h hscale ⊢
      omega
    simp [hfraction]
  . split <;> simp

theorem isFinite_ofBits {bits : Nat} (h : bits % Nat.pow 2 63 < infinityBits) :
    ∃ negative mantissa exponent, ofBits bits = .finite negative mantissa exponent := by
  have hscale : bits / Nat.pow 2 52 % Nat.pow 2 11 ≠ 2047 := by
    simp [infinityBits] at h ⊢
    omega
  unfold ofBits
  dsimp only
  rw [if_neg hscale]
  split
  . exact ⟨_, _, _, rfl⟩
  . exact ⟨_, _, _, rfl⟩

theorem isFinite_iff_of_ne_notANumber {x : Float} (h : ofFloat x ≠ .notANumber) :
    Arithmetic.isFinite x = true ↔ ∀ negative, ofFloat x ≠ .infinite negative := by
  simp only [Arithmetic.isFinite]
  split
  . next hfinite => simp [hfinite]
  . next hfinite =>
    cases hx : ofFloat x with
    | finite negative mantissa exponent => exact absurd hx (hfinite negative mantissa exponent)
    | infinite negative => simp
    | notANumber => exact absurd hx h

theorem exists_of_isFinite {x : Float} (h : Arithmetic.isFinite x = true) :
    ∃ negative mantissa exponent, ofFloat x = .finite negative mantissa exponent := by
  simp only [Arithmetic.isFinite] at h
  split at h
  . next hfinite => exact ⟨_, _, _, hfinite⟩
  . cases h

/-! ## Rounding -/

theorem nearestBits_le (num den : Nat) : nearestBits num den ≤ infinityBits := by
  unfold nearestBits
  dsimp only
  split
  . simp
  . split
    . next hsmall =>
      apply Nat.le_of_lt
      apply Nat.lt_of_lt_of_le hsmall
      decide
    . apply Nat.min_le_left

theorem ofFloat_nearest (negative : Bool) (num den : Nat) :
    ofFloat (nearest negative num den) =
      ofBits (if negative then nearestBits num den + Nat.pow 2 63 else nearestBits num den) := by
  have hle := nearestBits_le num den
  have hlt : infinityBits < Nat.pow 2 63 := by decide
  unfold nearest
  apply ofFloat_ofBits
  . simp at hlt ⊢
    split <;> omega
  . simp at hlt ⊢
    split <;> omega

theorem ofFloat_nearest_ne_notANumber (negative : Bool) (num den : Nat) :
    ofFloat (nearest negative num den) ≠ .notANumber := by
  have hle := nearestBits_le num den
  have hlt : infinityBits < Nat.pow 2 63 := by decide
  rw [ofFloat_nearest]
  apply ofBits_ne_notANumber
  simp at hlt ⊢
  split <;> omega

theorem isFinite_nearest {num den : Nat} (negative : Bool) (h : nearestBits num den < infinityBits) :
    Arithmetic.isFinite (nearest negative num den) = true := by
  have hlt : infinityBits < Nat.pow 2 63 := by decide
  have hbits : (if negative then nearestBits num den + Nat.pow 2 63 else nearestBits num den) %
      Nat.pow 2 63 < infinityBits := by
    simp at hlt ⊢
    split <;> omega
  obtain ⟨_, _, _, hfinite⟩ := isFinite_ofBits hbits
  simp [Arithmetic.isFinite, ofFloat_nearest, hfinite]

/-! ## Whole numbers -/

theorem roundHalfEven_le (num den : Nat) : roundHalfEven num den ≤ num / den + 1 := by
  unfold roundHalfEven
  dsimp only
  split
  . omega
  . split <;> omega

theorem scaleOf_bounds (n : Nat) :
    (n.log2 : Int) - 53 ≤ scaleOf n 1 ∧ scaleOf n 1 ≤ (n.log2 : Int) - 52 := by
  have hone : Nat.log2 1 = 0 := by
    decide
  unfold scaleOf
  dsimp only
  rw [hone]
  split <;> omega

theorem fraction_lt {n : Nat} {e : Int} (h : (n.log2 : Int) - 53 ≤ e) :
    (fraction n 2 (-e)).1 < 2 ^ 54 * (fraction n 2 (-e)).2 := by
  have hn : n < 2 ^ (n.log2 + 1) := Nat.lt_log2_self
  unfold fraction
  split
  . dsimp only
    calc n * 2 ^ (-e).toNat
      _ < 2 ^ (n.log2 + 1) * 2 ^ (-e).toNat := by
        exact Nat.mul_lt_mul_of_pos_right hn (Nat.pow_pos (by decide))
      _ = 2 ^ (n.log2 + 1 + (-e).toNat) := (Nat.pow_add ..).symm
      _ ≤ 2 ^ 54 := Nat.pow_le_pow_right (by decide) (by omega)
      _ = 2 ^ 54 * 1 := (Nat.mul_one _).symm
  . dsimp only
    calc n
      _ < 2 ^ (n.log2 + 1) := hn
      _ ≤ 2 ^ (54 + (- -e).toNat) := Nat.pow_le_pow_right (by decide) (by omega)
      _ = 2 ^ 54 * 2 ^ (- -e).toNat := Nat.pow_add ..

theorem nearestBits_lt_of_whole {n : Nat} (h : n ≤ Nat.pow 2 64) : nearestBits n 1 < infinityBits := by
  unfold nearestBits
  dsimp only
  split
  . decide
  . next hzero =>
    obtain ⟨hfirst, hlast⟩ := scaleOf_bounds n
    have hlog : n.log2 ≤ 64 := by
      have : n.log2 < 65 := (Nat.log2_lt hzero).mpr (Nat.lt_of_le_of_lt h (by decide))
      omega
    have hlt := fraction_lt hfirst
    have hround := roundHalfEven_le (fraction n 2 (-scaleOf n 1)).1 (fraction n 2 (-scaleOf n 1)).2
    rw [Nat.mul_one]
    have hmantissa := Nat.div_lt_of_lt_mul (Nat.mul_comm _ _ ▸ hlt)
    split
    . next hsmall => exact Nat.lt_of_lt_of_le hsmall (by decide)
    . apply Nat.lt_of_le_of_lt (Nat.min_le_right ..)
      simp [infinityBits]
      omega

theorem isFinite_nearest_of_whole {n : Nat} (negative : Bool) (h : n ≤ Nat.pow 2 64) :
    Arithmetic.isFinite (nearest negative n 1) = true :=
  isFinite_nearest negative (nearestBits_lt_of_whole h)

end Binary64
end StrategyDesk
