import StrategyDesk.Proofs.Decimal.Rounding

/-!
This module contains the comparison of doubles. Doubles that are finite compare as the numbers that
they stand for, because one of a greater exponent has no room for a smaller number. So the whole
doubles from one on are told by the numbers alone.
-/

namespace StrategyDesk
namespace Binary64

open Float.Model

def value? (x : Float) : Option ℚ :=
  match ofFloat x with
  | .finite negative mantissa exponent =>
    some (if negative then -(mantissa * 2 ^ exponent) else mantissa * 2 ^ exponent)
  | _ => none

variable {x y : Float} {negative : Bool} {m m' : Nat} {e e' : Int}

structure IsCanonical (m : Nat) (e : Int) : Prop where
  lt : m < 2 ^ 53
  le_exponent : -1074 ≤ e
  full : e = -1074 ∨ 2 ^ 52 ≤ m

theorem isCanonical_of_ofFloat (h : ofFloat x = .finite negative m e) : IsCanonical m e := by
  unfold ofFloat at h
  generalize x.toBits.toNat = bits at h
  have hlt : bits % Nat.pow 2 52 < Nat.pow 2 52 := Nat.mod_lt _ (by decide)
  unfold ofBits at h
  dsimp only at h
  simp at hlt h
  split at h
  . split at h <;> cases h
  . split at h
    . cases h
      constructor <;> omega
    . cases h
      constructor <;> omega

theorem lt_of_exponent_lt (h : IsCanonical m e) (h' : IsCanonical m' e') (hlt : e < e') :
    (m : ℚ) * 2 ^ e < m' * 2 ^ e' := by
  have hm : (m : ℚ) < 2 ^ (53 : Int) := by
    exact_mod_cast h.lt
  have hm' : (2 : ℚ) ^ (52 : Int) ≤ m' := by
    have hle := h.le_exponent
    exact_mod_cast h'.full.resolve_left (by omega)
  calc (m : ℚ) * 2 ^ e < 2 ^ (53 : Int) * 2 ^ e := by gcongr
    _ = 2 ^ (53 + e) := (zpow_add₀ (by norm_num) 53 e).symm
    _ ≤ 2 ^ (52 + e') := zpow_le_zpow_right₀ (by norm_num) (by omega)
    _ = 2 ^ (52 : Int) * 2 ^ e' := zpow_add₀ (by norm_num) 52 e'
    _ ≤ m' * 2 ^ e' := by gcongr

theorem compare_of_isCanonical (h : IsCanonical m e) (h' : IsCanonical m' e') :
    (compare e e').then (compare m m') = compare ((m : ℚ) * 2 ^ e) (m' * 2 ^ e') := by
  rcases lt_trichotomy e e' with hlt | rfl | hgt
  . rw [compare_lt_iff_lt.mpr hlt, compare_lt_iff_lt.mpr (lt_of_exponent_lt h h' hlt)]
    rfl
  . have hmono : StrictMono fun m : Nat => (m : ℚ) * 2 ^ e := by
      intro m m' hlt
      dsimp only
      gcongr
    rw [compare_eq_iff_eq.mpr rfl, ← cmp_eq_compare, ← cmp_eq_compare]
    exact (hmono.cmp_map_eq m m').symm
  . rw [compare_gt_iff_gt.mpr hgt, compare_gt_iff_gt.mpr (lt_of_exponent_lt h' h hgt)]
    rfl

/-! ## Unpacked doubles -/

theorem toNat_unpackExponent (b : BitVec 64) :
    (@UnpackedFloat.unpackExponent Format.binary64 b).toNat =
      b.toNat / Nat.pow 2 52 % Nat.pow 2 11 := by
  rw [UnpackedFloat.unpackExponent_def]
  simp [Nat.shiftRight_eq_div_pow]

theorem toNat_unpackMantissa (b : BitVec 64) :
    (@UnpackedFloat.unpackMantissa Format.binary64 b).toNat = b.toNat % Nat.pow 2 52 := by
  rw [UnpackedFloat.unpackMantissa_def]
  simp

theorem toNat_unpackSign (b : BitVec 64) :
    (@UnpackedFloat.unpackSign Format.binary64 b).toNat = b.toNat / Nat.pow 2 63 % 2 := by
  unfold UnpackedFloat.unpackSign
  simp [Nat.shiftRight_eq_div_pow]

theorem toNat_one_append (b : BitVec 52) : (1#1 ++ b).toNat = b.toNat + Nat.pow 2 52 := by
  rw [BitVec.toNat_append, ← Nat.shiftLeft_add_eq_or_of_lt b.isLt, Nat.add_comm]
  rfl

def signOf (negative : Bool) : UnpackedFloat.Sign :=
  if negative then .negative else .positive

theorem ofBitVec_unpackSign (b : BitVec 64) :
    .ofBitVec (@UnpackedFloat.unpackSign Format.binary64 b) =
      signOf (b.toNat / Nat.pow 2 63 % 2 == 1) := by
  rw [← toNat_unpackSign]
  rcases BitVec.eq_zero_or_eq_one (@UnpackedFloat.unpackSign Format.binary64 b) with h | h
  . rw [h]
    rfl
  . rw [h]
    rfl

theorem unpack_of_ofBits {b : BitVec 64} (h : ofBits b.toNat = .finite negative m e) :
    (m = 0 ∧ UnpackedFloat.unpack Format.binary64 b = .zero (signOf negative)) ∨
      ∃ hpos, UnpackedFloat.unpack Format.binary64 b = .finite (signOf negative) m e hpos := by
  have hexponent := toNat_unpackExponent b
  have hmantissa := toNat_unpackMantissa b
  have hsign := ofBitVec_unpackSign b
  unfold ofBits at h
  dsimp only at h
  rw [← hexponent, ← hmantissa] at h
  unfold UnpackedFloat.unpack
  dsimp only
  rw [hsign]
  split at h
  . split at h <;> cases h
  . next hscale =>
    have hfinite : @UnpackedFloat.unpackExponent Format.binary64 b ≠ -1#11 := by
      intro heq
      rw [heq] at hscale
      exact hscale rfl
    rw [if_neg hfinite]
    split at h
    . next hzero =>
      cases h
      have hzero : @UnpackedFloat.unpackExponent Format.binary64 b = 0#11 :=
        BitVec.eq_of_toNat_eq hzero
      rw [if_pos hzero, hzero]
      split
      . next hm =>
        rw [hm]
        exact .inl ⟨rfl, rfl⟩
      . next hm =>
        have hpos : 0 < (@UnpackedFloat.unpackMantissa Format.binary64 b).toNat :=
          Nat.pos_of_ne_zero fun heq => hm (BitVec.eq_of_toNat_eq heq)
        exact .inr ⟨hpos, rfl⟩
    . next hzero =>
      cases h
      have hzero : @UnpackedFloat.unpackExponent Format.binary64 b ≠ 0#11 := by
        intro heq
        rw [heq] at hzero
        exact hzero rfl
      have hpos : 0 < (1#1 ++ @UnpackedFloat.unpackMantissa Format.binary64 b).toNat := by
        rw [toNat_one_append]
        exact Nat.add_pos_right _ (by decide)
      rw [if_neg hzero, ← toNat_one_append]
      exact .inr ⟨hpos, rfl⟩
inductive Unpacks : UnpackedFloat → ℚ → Prop where
  | zero {s : UnpackedFloat.Sign} : Unpacks (.zero s) 0
  | positive {m : Nat} {e : Int} {hpos : 0 < m} (h : IsCanonical m e) :
    Unpacks (.finite .positive m e hpos) (m * 2 ^ e)
  | negative {m : Nat} {e : Int} {hpos : 0 < m} (h : IsCanonical m e) :
    Unpacks (.finite .negative m e hpos) (-(m * 2 ^ e))

theorem compare_of_unpacks {u v : UnpackedFloat} {q r : ℚ} (hu : Unpacks u q) (hv : Unpacks v r) :
    u.compare v = some (compare q r) := by
  have hpos {m : Nat} {e : Int} (hm : 0 < m) : (0 : ℚ) < m * 2 ^ e := by positivity
  have hneg {m : Nat} {e : Int} (hm : 0 < m) : -(m * 2 ^ e : ℚ) < 0 := neg_neg_of_pos (hpos hm)
  cases hu with
  | zero =>
    cases hv with
    | zero => rfl
    | @positive m e hm _ => exact congrArg some (compare_lt_iff_lt.mpr (hpos hm)).symm
    | @negative m e hm _ => exact congrArg some (compare_gt_iff_gt.mpr (hneg hm)).symm
  | @positive m e hm h =>
    cases hv with
    | zero => exact congrArg some (compare_gt_iff_gt.mpr (hpos hm)).symm
    | @positive m' e' hm' h' => exact congrArg some (compare_of_isCanonical h h')
    | @negative m' e' hm' _ =>
      exact congrArg some (compare_gt_iff_gt.mpr ((hneg hm').trans (hpos hm))).symm
  | @negative m e hm h =>
    cases hv with
    | zero => exact congrArg some (compare_lt_iff_lt.mpr (hneg hm)).symm
    | @positive m' e' hm' _ =>
      exact congrArg some (compare_lt_iff_lt.mpr ((hneg hm).trans (hpos hm'))).symm
    | @negative m' e' hm' h' =>
      -- Between negative numbers the exponents and mantissas decide the other way round.
      have hanti : StrictAnti fun q : ℚ => -q := fun q r hlt => neg_lt_neg hlt
      show some ((compare e e').then (compare m m')).swap = _
      rw [compare_of_isCanonical h h', ← cmp_eq_compare, cmp_swap, ← cmp_eq_compare]
      exact congrArg some (hanti.cmp_map_eq (m * 2 ^ e) (m' * 2 ^ e')).symm

theorem unpacks_of_value {q : ℚ} (h : value? x = some q) : Unpacks x.toModel.unpack q := by
  unfold value? at h
  split at h
  . next negative m e hx =>
    cases h
    have hunpack : x.toModel.unpack = UnpackedFloat.unpack Format.binary64 x.toBits.toBitVec := rfl
    have hcanonical := isCanonical_of_ofFloat hx
    rw [hunpack]
    rcases @unpack_of_ofBits negative m e x.toBits.toBitVec hx with ⟨rfl, hzero⟩ | ⟨hpos, hfinite⟩
    . rw [hzero]
      cases negative with
      | true => simpa using Unpacks.zero
      | false => simpa using Unpacks.zero
    . rw [hfinite]
      cases negative with
      | true => exact .negative hcanonical
      | false => exact .positive hcanonical
  . cases h

theorem le_iff_of_value {q r : ℚ} (hx : value? x = some q) (hy : value? y = some r) :
    x ≤ y ↔ q ≤ r := by
  have hmodel : x ≤ y ↔ (x.toModel.unpack.compare y.toModel.unpack).any (·.isLE) = true :=
    decide_eq_true_iff
  rw [hmodel, compare_of_unpacks (unpacks_of_value hx) (unpacks_of_value hy)]
  exact Ordering.isLE_iff_ne_gt.trans compare_le_iff_le

/-! ## Whole numbers -/

theorem value?_one : value? 1 = some 1 := by
  have hone : ofFloat 1 = .finite false (2 ^ 52) (-52) := by decide
  unfold value?
  rw [hone]
  norm_num

theorem exists_fraction_of_value {q : ℚ} (h : value? x = some q) (hpos : 0 < q) :
    ∃ n d : Nat, 0 < d ∧ q = n / d ∧ isWhole x = (n % d == 0) ∧
      toCount x = min (n / d) (Nat.pow 2 64 - 1) := by
  unfold value? at h
  split at h
  . next negative m e hx =>
    have hvalue := fraction_two_value m e
    have hd := fraction_pos m 2 e (by decide)
    cases h
    cases negative with
    | true =>
      have hnonneg : (0 : ℚ) ≤ m * 2 ^ e := by positivity
      exact absurd hpos (not_lt.mpr (neg_nonpos_of_nonneg hnonneg))
    | false =>
      refine ⟨(fraction m 2 e).1, (fraction m 2 e).2, hd, hvalue.symm, ?_, ?_⟩
      . unfold isWhole
        rw [hx]
      . unfold toCount
        rw [hx]
  . cases h

theorem isWhole_iff_value {n : Nat} :
    isWhole x = true ∧ 1 ≤ x ∧ toCount x = n ↔
      ∃ whole : Nat, 1 ≤ whole ∧ value? x = some (whole : ℚ) ∧
        n = min whole (Nat.pow 2 64 - 1) := by
  constructor
  . rintro ⟨hwhole, hle, rfl⟩
    obtain ⟨q, hq⟩ : ∃ q, value? x = some q := by
      unfold value?
      cases hx : ofFloat x with
      | finite negative m e => exact ⟨_, rfl⟩
      | infinite negative => simp [isWhole, hx] at hwhole
      | notANumber => simp [isWhole, hx] at hwhole
    have hone : 1 ≤ q := (le_iff_of_value value?_one hq).mp hle
    obtain ⟨n, d, hd, rfl, hmod, hcount⟩ := exists_fraction_of_value hq (by linarith)
    rw [hwhole] at hmod
    have hdvd : d ∣ n := Nat.dvd_of_mod_eq_zero (eq_of_beq hmod.symm)
    have hdiv : ((n / d : Nat) : ℚ) = n / d := Nat.cast_div hdvd (by exact_mod_cast hd.ne')
    rw [← hdiv] at hq hone
    exact ⟨n / d, by exact_mod_cast hone, hq, hcount⟩
  . rintro ⟨whole, hone, hvalue, rfl⟩
    have honeq : (1 : ℚ) ≤ whole := by
      exact_mod_cast hone
    obtain ⟨n, d, hd, heq, hmod, hcount⟩ := exists_fraction_of_value hvalue (by linarith)
    have hmul : n = whole * d := by
      rw [eq_div_iff (by exact_mod_cast hd.ne')] at heq
      exact_mod_cast heq.symm
    subst hmul
    rw [Nat.mul_mod_left] at hmod
    rw [Nat.mul_div_cancel _ hd] at hcount
    exact ⟨hmod, (le_iff_of_value value?_one hvalue).mpr honeq, hcount⟩

end Binary64
end StrategyDesk
