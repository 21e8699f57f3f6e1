import StrategyDesk.Proofs.Decimal.Nearest

/-!
This module contains what the rounding of a fraction depends on, which is its value alone, and the
doubles that are rounded to themselves: the double nearest to the value of a finite double is that
double again.
-/

namespace StrategyDesk
namespace Binary64

/-! ## Values of fractions -/

theorem fraction_pos (n base : Nat) (e : Int) (hbase : 0 < base) :
    0 < (fraction n base e).2 := by
  unfold fraction
  split
  . exact Nat.one_pos
  . exact Nat.pow_pos hbase

theorem fraction_value (n base : Nat) (e : Int) (hbase : 0 < base) :
    ((fraction n base e).1 : ℚ) / (fraction n base e).2 = n * (base : ℚ) ^ e := by
  have hne : (base : ℚ) ≠ 0 := by
    exact_mod_cast hbase.ne'
  unfold fraction
  split
  . next hnonneg =>
    obtain ⟨k, rfl⟩ := Int.eq_ofNat_of_zero_le hnonneg
    simp [Nat.pow_eq]
  . next hneg =>
    obtain ⟨k, hk⟩ := Int.eq_ofNat_of_zero_le (a := -e) (by omega)
    obtain rfl : e = -(k : Int) := by omega
    simp [Nat.pow_eq, div_eq_mul_inv]

theorem fraction_two_value (n : Nat) (e : Int) :
    ((fraction n 2 e).1 : ℚ) / (fraction n 2 e).2 = n * 2 ^ e := by
  rw [fraction_value n 2 e (by decide), Nat.cast_ofNat]

theorem fraction_ten_value (n : Nat) (e : Int) :
    ((fraction n 10 e).1 : ℚ) / (fraction n 10 e).2 = n * 10 ^ e := by
  rw [fraction_value n 10 e (by decide), Nat.cast_ofNat]

theorem moved_value (num den base : Nat) (e : Int) (hbase : 0 < base) :
    ((fraction num base e).1 : ℚ) / ((fraction num base e).2 * den : Nat) =
      num / den * (base : ℚ) ^ e := by
  rw [Nat.cast_mul, ← div_div, fraction_value num base e hbase]
  ring

theorem mul_eq_mul_of_div_eq {n d n' d' : Nat} (hd : 0 < d) (hd' : 0 < d')
    (h : (n : ℚ) / d = n' / d') : n * d' = n' * d := by
  rw [div_eq_div_iff (by exact_mod_cast hd.ne') (by exact_mod_cast hd'.ne')] at h
  exact_mod_cast h

/-! ## Whole numbers -/

theorem roundHalfEven_mul_left {k : Nat} (n d : Nat) (hk : 0 < k) :
    roundHalfEven (k * n) (k * d) = roundHalfEven n d := by
  unfold roundHalfEven
  dsimp only
  rw [Nat.mul_div_mul_left n d hk, Nat.mul_mod_mul_left, Nat.mul_left_comm]
  simp only [Nat.mul_lt_mul_left hk]

theorem roundHalfEven_congr {n d n' d' : Nat} (hd : 0 < d) (hd' : 0 < d')
    (h : (n : ℚ) / d = n' / d') : roundHalfEven n d = roundHalfEven n' d' := by
  have hcross := mul_eq_mul_of_div_eq hd hd' h
  calc roundHalfEven n d
    _ = roundHalfEven (d' * n) (d' * d) := (roundHalfEven_mul_left n d hd').symm
    _ = roundHalfEven (d * n') (d * d') := by
      rw [Nat.mul_comm d' n, hcross, Nat.mul_comm n' d, Nat.mul_comm d' d]
    _ = roundHalfEven n' d' := roundHalfEven_mul_left n' d' hd

theorem roundHalfEven_one (n : Nat) : roundHalfEven n 1 = n := by
  simp [roundHalfEven, Nat.mod_one]

theorem roundHalfEven_of_eq {n d m : Nat} (hd : 0 < d) (h : (n : ℚ) / d = m) :
    roundHalfEven n d = m := by
  have hone : (n : ℚ) / d = m / (1 : Nat) := by
    simpa using h
  rw [roundHalfEven_congr hd Nat.one_pos hone, roundHalfEven_one]

theorem roundHalfEven_eq_zero {n d : Nat} (hd : 0 < d) (h : (n : ℚ) / d < 1 / 2) :
    roundHalfEven n d = 0 := by
  have hdq : (0 : ℚ) < d := by
    exact_mod_cast hd
  have hlt : 2 * n < d := by
    rw [div_lt_iff₀ hdq] at h
    have : (2 * n : ℚ) < d := by linarith
    exact_mod_cast this
  have hmod : n % d = n := Nat.mod_eq_of_lt (by omega)
  unfold roundHalfEven
  dsimp only
  rw [hmod, if_pos hlt, Nat.div_eq_of_lt (by omega)]

theorem le_roundHalfEven {n d m : Nat} (hd : 0 < d) (h : (m : ℚ) ≤ (n : ℚ) / d) :
    m ≤ roundHalfEven n d := by
  have hdq : (0 : ℚ) < d := by
    exact_mod_cast hd
  have hm : m ≤ n / d := by
    rw [le_div_iff₀ hdq] at h
    rw [Nat.le_div_iff_mul_le hd]
    exact_mod_cast h
  apply Nat.le_trans hm
  unfold roundHalfEven
  dsimp only
  split
  . exact Nat.le_refl _
  . split
    . exact Nat.le_succ _
    . exact Nat.le_add_right ..

/-! ## The scale -/

theorem log2_value {n : Nat} (h : n ≠ 0) :
    (2 : ℚ) ^ (n.log2 : Int) ≤ n ∧ (n : ℚ) < 2 ^ ((n.log2 : Int) + 1) := by
  constructor
  . rw [zpow_natCast]
    exact_mod_cast Nat.log2_self_le h
  . rw [show (n.log2 : Int) + 1 = (n.log2 + 1 : Nat) by push_cast; rfl, zpow_natCast]
    exact_mod_cast Nat.lt_log2_self

theorem log2_sub_bounds {num den : Nat} {t : Int} (hnum : num ≠ 0) (hden : 0 < den)
    (hle : (2 : ℚ) ^ t ≤ num / den) (hlt : (num : ℚ) / den < 2 ^ (t + 1)) :
    (num.log2 : Int) - den.log2 - 1 ≤ t ∧ t ≤ num.log2 - den.log2 := by
  have hdenq : (0 : ℚ) < den := by
    exact_mod_cast hden
  obtain ⟨hnumle, hnumlt⟩ := log2_value hnum
  obtain ⟨hdenle, hdenlt⟩ := log2_value hden.ne'
  rw [le_div_iff₀ hdenq] at hle
  rw [div_lt_iff₀ hdenq] at hlt
  have hbelow : (2 : ℚ) ^ (num.log2 : Int) < 2 ^ (t + 1 + (den.log2 + 1)) := by
    rw [zpow_add₀ two_ne_zero]
    calc (2 : ℚ) ^ (num.log2 : Int)
      _ ≤ num := hnumle
      _ < 2 ^ (t + 1) * den := hlt
      _ ≤ 2 ^ (t + 1) * 2 ^ ((den.log2 : Int) + 1) := by gcongr
  have habove : (2 : ℚ) ^ (t + den.log2) < 2 ^ ((num.log2 : Int) + 1) := by
    rw [zpow_add₀ two_ne_zero]
    calc (2 : ℚ) ^ t * 2 ^ (den.log2 : Int)
      _ ≤ 2 ^ t * den := by gcongr
      _ ≤ num := hle
      _ < 2 ^ ((num.log2 : Int) + 1) := hnumlt
  rw [zpow_lt_zpow_iff_right₀ one_lt_two] at hbelow habove
  omega

theorem scaleOf_eq {num den : Nat} {t : Int} (hnum : num ≠ 0) (hden : 0 < den)
    (hle : (2 : ℚ) ^ t ≤ num / den) (hlt : (num : ℚ) / den < 2 ^ (t + 1)) :
    scaleOf num den = max (t - 52) (-1074) := by
  obtain ⟨hlow, hhigh⟩ := log2_sub_bounds hnum hden hle hlt
  set e : Int := num.log2 - den.log2 - 53 with he
  have hpos : 0 < (fraction num 2 (-e)).2 * den :=
    Nat.mul_pos (fraction_pos num 2 (-e) (by decide)) hden
  have hfits : Nat.pow 2 53 * ((fraction num 2 (-e)).2 * den) ≤ (fraction num 2 (-e)).1 ↔
      (2 : ℚ) ^ (e + 53) ≤ num / den := by
    have hmoved := moved_value num den 2 (-e) (by decide)
    rw [show e + 53 = 53 - -e by ring, zpow_sub₀ two_ne_zero, div_le_iff₀ (by positivity)]
    push_cast at hmoved
    rw [← hmoved, le_div_iff₀ (by exact_mod_cast hpos)]
    norm_cast
  unfold scaleOf
  dsimp only
  rw [← he]
  -- The place is that of the guess or the one below it, and this comparison tells which.
  by_cases hcase : (2 : ℚ) ^ (e + 53) ≤ num / den
  . rw [if_pos (hfits.mpr hcase)]
    have := (zpow_lt_zpow_iff_right₀ one_lt_two).mp (hcase.trans_lt hlt)
    congr 1
    omega
  . rw [if_neg (fun h => hcase (hfits.mp h))]
    have := (zpow_lt_zpow_iff_right₀ one_lt_two).mp (hle.trans_lt (not_le.mp hcase))
    congr 1
    omega

theorem exists_scale {num den : Nat} (hnum : num ≠ 0) (hden : 0 < den) :
    ∃ t : Int, (2 : ℚ) ^ t ≤ num / den ∧ (num : ℚ) / den < 2 ^ (t + 1) := by
  have hpos : (0 : ℚ) < num / den := by
    have := Nat.pos_of_ne_zero hnum
    positivity
  exact exists_mem_Ico_zpow hpos one_lt_two

theorem eq_zero_iff_of_div_eq {n d n' d' : Nat} (hd : 0 < d) (hd' : 0 < d')
    (h : (n : ℚ) / d = n' / d') : n = 0 ↔ n' = 0 := by
  have hcross := mul_eq_mul_of_div_eq hd hd' h
  constructor
  . rintro rfl
    rw [Nat.zero_mul] at hcross
    exact (Nat.mul_eq_zero.mp hcross.symm).resolve_right hd.ne'
  . rintro rfl
    rw [Nat.zero_mul] at hcross
    exact (Nat.mul_eq_zero.mp hcross).resolve_right hd'.ne'

theorem scaleOf_congr {n d n' d' : Nat} (hn : n ≠ 0) (hd : 0 < d) (hd' : 0 < d')
    (h : (n : ℚ) / d = n' / d') : scaleOf n d = scaleOf n' d' := by
  have hn' : n' ≠ 0 := (eq_zero_iff_of_div_eq hd hd' h).not.mp hn
  obtain ⟨t, hle, hlt⟩ := exists_scale hn hd
  rw [scaleOf_eq hn hd hle hlt, scaleOf_eq hn' hd' (h ▸ hle) (h ▸ hlt)]

/-! ## The nearest double -/

def mantissaOf (num den : Nat) (e : Int) : Nat :=
  roundHalfEven (fraction num 2 (-e)).1 ((fraction num 2 (-e)).2 * den)

def pack (mantissa : Nat) (e : Int) : Nat :=
  if mantissa < Nat.pow 2 52 then mantissa
  else min infinityBits ((e + 1075).toNat * Nat.pow 2 52 + (mantissa - Nat.pow 2 52))

theorem nearestBits_of_ne_zero {num : Nat} (den : Nat) (hnum : num ≠ 0) :
    nearestBits num den = pack (mantissaOf num den (scaleOf num den)) (scaleOf num den) := by
  unfold nearestBits
  rw [if_neg hnum]
  rfl

theorem nearestBits_zero (den : Nat) : nearestBits 0 den = 0 := by
  simp [nearestBits]

section

variable {num den : Nat} (hden : 0 < den)

include hden

theorem scaled_pos (e : Int) : 0 < (fraction num 2 e).2 * den :=
  Nat.mul_pos (fraction_pos num 2 e (by decide)) hden

theorem mantissaOf_of_eq {m : Nat} {e : Int} (h : (num : ℚ) / den = m * 2 ^ e) :
    mantissaOf num den e = m := by
  apply roundHalfEven_of_eq (scaled_pos hden _)
  rw [moved_value num den 2 (-e) (by decide), h]
  push_cast
  rw [mul_assoc, ← zpow_add₀ two_ne_zero, add_neg_cancel, zpow_zero, mul_one]

theorem mantissaOf_eq_zero {e : Int} (h : (num : ℚ) / den < 2 ^ (e - 1)) :
    mantissaOf num den e = 0 := by
  apply roundHalfEven_eq_zero (scaled_pos hden _)
  rw [moved_value num den 2 (-e) (by decide)]
  push_cast
  calc (num : ℚ) / den * 2 ^ (-e)
    _ < 2 ^ (e - 1) * 2 ^ (-e) := by gcongr
    _ = 2 ^ (e - 1 + -e) := (zpow_add₀ two_ne_zero ..).symm
    _ = 1 / 2 := by
      rw [show e - 1 + -e = -1 by ring]
      norm_num

theorem le_mantissaOf {k : Nat} {e : Int} (h : (2 : ℚ) ^ (e + k) ≤ num / den) :
    2 ^ k ≤ mantissaOf num den e := by
  apply le_roundHalfEven (scaled_pos hden _)
  rw [moved_value num den 2 (-e) (by decide)]
  push_cast
  calc (2 : ℚ) ^ k
    _ = 2 ^ (e + k + -e) := by
      rw [show e + k + -e = (k : Int) by ring, zpow_natCast]
    _ = 2 ^ (e + k) * 2 ^ (-e) := zpow_add₀ two_ne_zero ..
    _ ≤ (num : ℚ) / den * 2 ^ (-e) := by gcongr

theorem nearestBits_congr {num' den' : Nat} (hden' : 0 < den')
    (h : (num : ℚ) / den = num' / den') : nearestBits num den = nearestBits num' den' := by
  by_cases hnum : num = 0
  . have hnum' : num' = 0 := (eq_zero_iff_of_div_eq hden hden' h).mp hnum
    rw [hnum, hnum', nearestBits_zero, nearestBits_zero]
  . have hnum' : num' ≠ 0 := (eq_zero_iff_of_div_eq hden hden' h).not.mp hnum
    rw [nearestBits_of_ne_zero den hnum, nearestBits_of_ne_zero den' hnum',
      ← scaleOf_congr hnum hden hden' h]
    congr 1
    apply roundHalfEven_congr (scaled_pos hden _) (scaled_pos hden' _)
    rw [moved_value num den 2 _ (by decide), moved_value num' den' 2 _ (by decide), h]

theorem nearestBits_eq_zero (h : (num : ℚ) / den < 2 ^ (-1075 : Int)) : nearestBits num den = 0 := by
  by_cases hnum : num = 0
  . rw [hnum, nearestBits_zero]
  . obtain ⟨t, hle, hlt⟩ := exists_scale hnum hden
    have ht : t < -1075 := (zpow_lt_zpow_iff_right₀ one_lt_two).mp (hle.trans_lt h)
    have hscale : scaleOf num den = -1074 := by
      rw [scaleOf_eq hnum hden hle hlt]
      omega
    rw [nearestBits_of_ne_zero den hnum, hscale, mantissaOf_eq_zero hden h]
    rfl

theorem nearestBits_eq_infinityBits (h : (2 : ℚ) ^ (1024 : Int) ≤ num / den) :
    nearestBits num den = infinityBits := by
  have hnum : num ≠ 0 := by
    rintro rfl
    rw [Nat.cast_zero, zero_div] at h
    exact absurd h (not_le.mpr (by positivity))
  obtain ⟨t, hle, hlt⟩ := exists_scale hnum hden
  have ht : 1024 < t + 1 := (zpow_lt_zpow_iff_right₀ one_lt_two).mp (h.trans_lt hlt)
  have hscale : scaleOf num den = t - 52 := by
    rw [scaleOf_eq hnum hden hle hlt]
    omega
  have hmantissa := le_mantissaOf hden (k := 52) (e := t - 52) (by simpa using hle)
  rw [nearestBits_of_ne_zero den hnum, hscale, pack, if_neg (by simpa using hmantissa)]
  apply Nat.min_eq_left
  simp [infinityBits] at hmantissa ⊢
  omega

theorem nearestBits_of_eq {m : Nat} {e : Int} (h : (num : ℚ) / den = m * 2 ^ e)
    (hm : m < Nat.pow 2 53) (he : -1074 ≤ e) (hfull : e = -1074 ∨ Nat.pow 2 52 ≤ m) :
    nearestBits num den = pack m e := by
  by_cases hnum : num = 0
  . have hm : m = 0 := by
      have hpow : (2 : ℚ) ^ e ≠ 0 := by positivity
      rw [hnum] at h
      simpa [hpow] using h.symm
    rw [hnum, nearestBits_zero, hm]
    rfl
  . have hmne : m ≠ 0 := by
      rintro rfl
      simp at h
      omega
    have hpos : (0 : ℚ) < 2 ^ e := by positivity
    obtain ⟨hle, hlt⟩ := log2_value hmne
    -- The scale leaves all digits of the mantissa before the point, so there is nothing to round.
    have hlog : m.log2 < 53 := (Nat.log2_lt hmne).mpr hm
    have hscale : scaleOf num den = max (m.log2 + e - 52) (-1074) := by
      apply scaleOf_eq hnum hden
      . rw [h, zpow_add₀ two_ne_zero]
        gcongr
      . rw [h, show (m.log2 : Int) + e + 1 = m.log2 + 1 + e by ring, zpow_add₀ two_ne_zero]
        gcongr
    have hscale : scaleOf num den = e := by
      rw [hscale]
      rcases hfull with rfl | hfull
      . omega
      . have : 52 ≤ m.log2 := (Nat.le_log2 hmne).mpr hfull
        omega
    rw [nearestBits_of_ne_zero den hnum, hscale, mantissaOf_of_eq hden h]

end

/-! ## Doubles -/

theorem nearest_congr {num den num' den' : Nat} {negative : Bool}
    (h : nearestBits num den = nearestBits num' den') :
    nearest negative num den = nearest negative num' den' := by
  unfold nearest
  rw [h]

theorem nearestBits_of_ofBits {bits m num den : Nat} {negative : Bool} {e : Int}
    (h : ofBits bits = .finite negative m e) (hden : 0 < den)
    (hvalue : (num : ℚ) / den = m * 2 ^ e) : nearestBits num den = bits % Nat.pow 2 63 := by
  unfold ofBits at h
  dsimp only at h
  split at h
  . split at h <;> cases h
  . next hscale =>
    split at h
    . next hzero =>
      cases h
      rw [nearestBits_of_eq hden hvalue _ (Int.le_refl _) (Or.inl rfl)]
      . rw [pack, if_pos (Nat.mod_lt _ (by decide))]
        simp at hzero ⊢
        omega
      . apply Nat.lt_trans (Nat.mod_lt _ (by decide))
        decide
    . next hzero =>
      cases h
      have hlt : bits % Nat.pow 2 52 < Nat.pow 2 52 := Nat.mod_lt _ (by decide)
      have hle : bits / Nat.pow 2 52 % Nat.pow 2 11 < 2047 := by
        have := Nat.mod_lt (bits / Nat.pow 2 52) (y := Nat.pow 2 11) (by decide)
        simp at this hscale ⊢
        omega
      rw [nearestBits_of_eq hden hvalue]
      . rw [pack, if_neg (by omega), Nat.min_eq_right]
        . simp at hlt hle hzero ⊢
          omega
        . simp [infinityBits] at hlt hle ⊢
          omega
      . simp at hlt ⊢
        omega
      . omega
      . exact Or.inr (Nat.le_add_left ..)

theorem negative_of_ofBits {bits m : Nat} {negative : Bool} {e : Int}
    (h : ofBits bits = .finite negative m e) : negative = (bits / Nat.pow 2 63 % 2 == 1) := by
  unfold ofBits at h
  dsimp only at h
  split at h
  . split at h <;> cases h
  . split at h <;> cases h <;> rfl

theorem nearest_of_ofFloat {x : Float} {num den m : Nat} {negative : Bool} {e : Int}
    (h : ofFloat x = .finite negative m e) (hden : 0 < den)
    (hvalue : (num : ℚ) / den = m * 2 ^ e) : nearest negative num den = x := by
  have hbits := nearestBits_of_ofBits h hden hvalue
  have hsign := negative_of_ofBits h
  have hlt : x.toBits.toNat < 2 ^ 64 := x.toBits.toNat_lt
  have hpacked : (if negative then nearestBits num den + Nat.pow 2 63 else nearestBits num den) =
      x.toBits.toNat := by
    rw [hbits, hsign]
    simp
    split <;> omega
  unfold nearest
  dsimp only
  rw [hpacked, UInt64.ofNat_toNat, Float.ofBits_toBits]

end Binary64
end StrategyDesk
