import StrategyDesk.Decimal.Format
import StrategyDesk.Proofs.Decimal.Numeral
import StrategyDesk.Proofs.Decimal.Rounding

/-!
This module contains that the plain form of a finite double is a number without exponent that is
read back as the same double.
-/

namespace StrategyDesk
namespace Decimal

/-! ## Values -/

def value (d : Decimal) : ℚ :=
  d.digits * 10 ^ d.power

theorem toFraction_pos (d : Decimal) : 0 < d.toFraction.2 :=
  Binary64.fraction_pos d.digits 10 d.power (by decide)

theorem toFraction_value (d : Decimal) : (d.toFraction.1 : ℚ) / d.toFraction.2 = d.value :=
  Binary64.fraction_ten_value d.digits d.power

theorem nearestBits_def (d : Decimal) :
    d.nearestBits = Binary64.nearestBits d.toFraction.1 d.toFraction.2 :=
  rfl

theorem nearestBits_eq {d : Decimal} {num den : Nat} (hden : 0 < den)
    (h : (num : ℚ) / den = d.value) : d.nearestBits = Binary64.nearestBits num den := by
  rw [nearestBits_def]
  apply Binary64.nearestBits_congr d.toFraction_pos hden
  rw [h, toFraction_value]

theorem nearestBits_congr {d d' : Decimal} (h : d.value = d'.value) :
    d.nearestBits = d'.nearestBits := by
  rw [nearestBits_def d']
  apply nearestBits_eq d'.toFraction_pos
  rw [h, toFraction_value]

/-! ## Reading -/

section Reading

variable {digits : Nat} {power : Int}

theorem value_lt (digits : Nat) (power : Int) :
    (digits : ℚ) * 10 ^ power < 10 ^ (power + (Nat.toDigits 10 digits).length) := by
  have hlt : digits < 10 ^ (Nat.toDigits 10 digits).length :=
    (Nat.length_toDigits_le_iff (by decide) Nat.length_toDigits_pos).mp (Nat.le_refl _)
  rw [add_comm, zpow_add₀ (by norm_num), zpow_natCast]
  gcongr
  exact_mod_cast hlt

theorem le_value (hdigits : digits ≠ 0) :
    (10 : ℚ) ^ (power + (Nat.toDigits 10 digits).length - 1) ≤ digits * 10 ^ power := by
  have hle : 10 ^ ((Nat.toDigits 10 digits).length - 1) ≤ digits := by
    by_contra hlt
    by_cases hone : (Nat.toDigits 10 digits).length - 1 = 0
    . rw [hone, Nat.pow_zero] at hlt
      omega
    . have := (Nat.length_toDigits_le_iff (b := 10) (by decide) (Nat.pos_of_ne_zero hone)).mpr
        (not_le.mp hlt)
      omega
  have hlength := Nat.length_toDigits_pos (b := 10) (n := digits)
  rw [show power + (Nat.toDigits 10 digits).length - 1 =
      ((Nat.toDigits 10 digits).length - 1 : Nat) + power by omega,
    zpow_add₀ (by norm_num), zpow_natCast]
  gcongr
  exact_mod_cast hle

theorem two_pow_le_ten_pow {m n : Nat} (h : m ≤ 3 * n) : (2 : ℚ) ^ m ≤ 10 ^ n :=
  calc (2 : ℚ) ^ m
    _ ≤ 2 ^ (3 * n) := pow_le_pow_right₀ (by norm_num) h
    _ = 8 ^ n := by
      rw [pow_mul]
      norm_num
    _ ≤ 10 ^ n := pow_le_pow_left₀ (by norm_num) (by norm_num) n

theorem nearestBits_ten_pow {n : Nat} (h : 1024 ≤ 3 * n) :
    Binary64.nearestBits (Nat.pow 10 n) 1 = Binary64.infinityBits := by
  apply Binary64.nearestBits_eq_infinityBits Nat.one_pos
  rw [Nat.cast_one, div_one, zpow_ofNat, Nat.pow_eq, Nat.cast_pow]
  exact two_pow_le_ten_pow h

theorem toFloat_eq {num den : Nat} (negative : Bool) (hden : 0 < den)
    (h : (num : ℚ) / den = digits * 10 ^ power) :
    toFloat negative digits power = Binary64.nearest negative num den := by
  unfold toFloat
  dsimp only
  split
  . next hsmall =>
    simp only [Bool.or_eq_true, decide_eq_true_eq] at hsmall
    apply Binary64.nearest_congr
    rw [Binary64.nearestBits_zero]
    symm
    apply Binary64.nearestBits_eq_zero hden
    rw [h]
    rcases hsmall with hzero | hsize
    . simp [hzero]
    . calc (digits : ℚ) * 10 ^ power
        _ < 10 ^ (power + (Nat.toDigits 10 digits).length) := value_lt digits power
        _ ≤ 10 ^ (-401 : Int) := zpow_le_zpow_right₀ (by norm_num) (by omega)
        _ ≤ 2 ^ (-1075 : Int) := by
          rw [zpow_neg, zpow_neg, zpow_ofNat, zpow_ofNat]
          apply inv_anti₀ (by positivity)
          exact two_pow_le_ten_pow (by decide)
  . next hsmall =>
    simp only [Bool.or_eq_true, decide_eq_true_eq, not_or] at hsmall
    split
    . next hlarge =>
      apply Binary64.nearest_congr
      apply (nearestBits_ten_pow (by decide)).trans
      rw [Binary64.nearestBits_eq_infinityBits hden]
      rw [h]
      calc (2 : ℚ) ^ (1024 : Int)
        _ ≤ 10 ^ (400 : Int) := by
          rw [zpow_ofNat, zpow_ofNat]
          exact two_pow_le_ten_pow (by decide)
        _ ≤ 10 ^ (power + (Nat.toDigits 10 digits).length - 1) :=
          zpow_le_zpow_right₀ (by norm_num) (by omega)
        _ ≤ digits * 10 ^ power := le_value hsmall.1
    . apply Binary64.nearest_congr
      apply Binary64.nearestBits_congr (Binary64.fraction_pos _ _ _ (by decide)) hden
      rw [h]
      exact Binary64.fraction_ten_value digits power

end Reading

/-! ## The shortest decimal -/

theorem nearestBits_of_onGrid {tie : Tie} {bits num den : Nat} {power : Int} {d : Decimal}
    (h : onGrid tie bits num den power = some d) : d.nearestBits = bits := by
  unfold onGrid at h
  dsimp only at h
  split at h
  . next hbelow habove =>
    split at h
    . cases h
      exact eq_of_beq hbelow
    . split at h
      . cases h
        exact eq_of_beq habove
      . split at h
        . cases h
          exact eq_of_beq habove
        . split at h
          . cases h
            exact eq_of_beq hbelow
          . cases h
            exact eq_of_beq habove
  . next hbelow _ =>
    cases h
    exact eq_of_beq hbelow
  . next _ habove =>
    cases h
    exact eq_of_beq habove
  . cases h

theorem value_stripZeros (fuel : Nat) (d : Decimal) : (stripZeros fuel d).value = d.value := by
  induction fuel generalizing d with
  | zero => rfl
  | succ fuel ih =>
    unfold stripZeros
    split
    . next hzero =>
      rw [ih]
      have hdigits : (d.digits : ℚ) = 10 * (d.digits / 10 : Nat) := by
        exact_mod_cast (Nat.mul_div_cancel' (Nat.dvd_of_mod_eq_zero hzero)).symm
      simp only [value]
      rw [hdigits, zpow_add₀ (by norm_num), zpow_one]
      ring
    . rfl

theorem value_exact (mantissa : Nat) (exponent : Int) :
    (exact mantissa exponent).value = mantissa * 2 ^ exponent := by
  unfold exact
  split
  . next hnonneg =>
    obtain ⟨k, rfl⟩ := Int.eq_ofNat_of_zero_le hnonneg
    simp [value, Nat.pow_eq]
  . next hneg =>
    obtain ⟨k, hk⟩ := Int.eq_ofNat_of_zero_le (a := -exponent) (by omega)
    obtain rfl : exponent = -(k : Int) := by omega
    have hten : (10 : ℚ) ^ k = 5 ^ k * 2 ^ k := by
      rw [← mul_pow]
      norm_num
    simp only [value, neg_neg, Int.toNat_natCast, Nat.pow_eq, zpow_neg, zpow_natCast]
    push_cast
    rw [hten]
    field_simp

theorem nearestBits_shortest {num den mantissa : Nat} {exponent : Int} (tie : Tie) (hden : 0 < den)
    (h : (num : ℚ) / den = mantissa * 2 ^ exponent) :
    (shortest tie mantissa exponent).nearestBits = Binary64.nearestBits num den := by
  have hvalue := Binary64.fraction_two_value mantissa exponent
  have hpos := Binary64.fraction_pos mantissa 2 exponent (by decide)
  have hbits : Binary64.nearestBits (Binary64.fraction mantissa 2 exponent).1
      (Binary64.fraction mantissa 2 exponent).2 = Binary64.nearestBits num den := by
    apply Binary64.nearestBits_congr hpos hden
    rw [h]
    exact hvalue
  unfold shortest
  dsimp only
  rw [nearestBits_congr (value_stripZeros ..)]
  rw [hbits]
  cases hfound : (List.range 17).findSome? fun (n : Nat) => onGrid tie (Binary64.nearestBits num den)
      (Binary64.fraction mantissa 2 exponent).1 (Binary64.fraction mantissa 2 exponent).2
      (magnitude (Binary64.fraction mantissa 2 exponent).1
        (Binary64.fraction mantissa 2 exponent).2 - (n + 1)) with
  | none =>
    -- Seventeen digits are always enough, but the number itself reads back just as well.
    apply nearestBits_eq hden
    rw [h, ← value_exact]
    rfl
  | some d =>
    obtain ⟨n, _, hgrid⟩ := List.exists_of_findSome?_eq_some hfound
    exact nearestBits_of_onGrid hgrid

/-! ## The positional form -/

theorem valueOf_digitsOf (n : Nat) : valueOf (digitsOf n) = n := by
  rw [valueOf_eq]
  exact Nat.ofDigitChars_toDigits (by decide) (by decide)

theorem valueOf_zeros (n : Nat) : valueOf (zeros n) = 0 := by
  rw [valueOf_eq, zeros, Nat.ofDigitChars_replicate_zero, Nat.mul_zero]

theorem length_zeros (n : Nat) : (zeros n).length = n :=
  List.length_replicate

theorem isDigit_of_mem_digitsOf {n : Nat} {c : Char} (h : c ∈ digitsOf n) : c.isDigit = true :=
  Nat.isDigit_of_mem_toDigits (by decide) (by decide) h

theorem isDigit_of_mem_zeros {n : Nat} {c : Char} (h : c ∈ zeros n) : c.isDigit = true := by
  rw [List.eq_of_mem_replicate h]
  rfl

theorem digitsOf_ne_nil (n : Nat) : digitsOf n ≠ [] :=
  List.ne_nil_of_length_pos Nat.length_toDigits_pos

namespace Places

def value (p : Places) : ℚ :=
  valueOf (p.whole ++ p.fraction) * 10 ^ (-(p.fraction.length : Int))

theorem toFloat_eq {p : Places} {num den : Nat} (negative : Bool) (hden : 0 < den)
    (h : (num : ℚ) / den = p.value) : p.toFloat negative 0 = Binary64.nearest negative num den := by
  unfold toFloat
  apply Decimal.toFloat_eq negative hden
  rw [h, zero_sub, value]

end Places

theorem exists_places_positional (d : Decimal) :
    ∃ p : Places, p.Spells d.positional ∧ p.isEmpty = false ∧ p.value = d.value := by
  have hdigits : ∀ c ∈ digitsOf d.digits, c.isDigit = true := fun c => isDigit_of_mem_digitsOf
  unfold positional
  dsimp only
  split
  -- The point stands behind all digits, among them, or before all of them.
  . next hnonneg =>
    obtain ⟨k, hk⟩ := Int.eq_ofNat_of_zero_le hnonneg
    refine ⟨⟨digitsOf d.digits ++ zeros d.power.toNat, []⟩, .whole ?_, ?_, ?_⟩
    . intro c hc
      exact (List.mem_append.mp hc).elim (hdigits c) isDigit_of_mem_zeros
    . simp [Places.isEmpty, digitsOf_ne_nil]
    . simp [Places.value, value, valueOf_append, valueOf_digitsOf, valueOf_zeros, length_zeros, hk]
  . next hneg =>
    obtain ⟨k, hk⟩ := Int.eq_ofNat_of_zero_le (a := -d.power) (by omega)
    have hplaces : (-d.power).toNat = k := by omega
    have hpower : d.power = -(k : Int) := by omega
    rw [hplaces]
    split
    . next hlt =>
      refine ⟨⟨_, _⟩, .point ?_ ?_, ?_, ?_⟩
      . intro c hc
        exact hdigits c (List.mem_of_mem_take hc)
      . intro c hc
        exact hdigits c (List.mem_of_mem_drop hc)
      . simp [Places.isEmpty, digitsOf_ne_nil]
        omega
      . have hlength : (digitsOf d.digits).length - ((digitsOf d.digits).length - k) = k := by omega
        simp [Places.value, value, List.take_append_drop, valueOf_digitsOf, hpower, hlength]
    . next hle =>
      refine ⟨⟨zeros 1, zeros (k - (digitsOf d.digits).length) ++ digitsOf d.digits⟩,
        .point (fun c => isDigit_of_mem_zeros) ?_, rfl, ?_⟩
      . intro c hc
        exact (List.mem_append.mp hc).elim isDigit_of_mem_zeros (hdigits c)
      . have hlength : k - (digitsOf d.digits).length + (digitsOf d.digits).length = k := by omega
        simp only [Places.value, value, valueOf_append, valueOf_zeros, valueOf_digitsOf,
          List.length_append, length_zeros, hlength, hpower]
        simp

/-! ## The plain form -/

theorem withSign_eq_append (negative : Bool) :
    ∃ sign, IsSign negative sign ∧ ∀ s, withSign negative s = sign ++ s := by
  cases negative with
  | false => exact ⟨_, .none, fun _ => rfl⟩
  | true => exact ⟨_, .minus, fun _ => rfl⟩

theorem exists_places_plain {x : Float} {negative : Bool} {mantissa : Nat} {exponent : Int}
    (h : Binary64.ofFloat x = .finite negative mantissa exponent) :
    ∃ (p : Places) (body : List Char), p.Spells body ∧ p.isEmpty = false ∧
      p.toFloat negative 0 = x ∧ (plain x).toList = withSign negative body := by
  have hvalue := Binary64.fraction_two_value mantissa exponent
  have hpos := Binary64.fraction_pos mantissa 2 exponent (by decide)
  unfold plain
  rw [h, String.toList_ofList]
  dsimp only
  split
  . next hzero =>
    refine ⟨⟨zeros 1, []⟩, _, .whole (fun c => isDigit_of_mem_zeros), rfl, ?_, rfl⟩
    have hplaces : ((0 : Nat) : ℚ) / (1 : Nat) = Places.value ⟨zeros 1, []⟩ := by
      simp [Places.value, valueOf_zeros]
    rw [Places.toFloat_eq negative Nat.one_pos hplaces]
    apply Binary64.nearest_of_ofFloat h Nat.one_pos
    simp [hzero]
  . obtain ⟨p, hspells, hne, hplaces⟩ := exists_places_positional (shortest .up mantissa exponent)
    refine ⟨p, _, hspells, hne, ?_, rfl⟩
    have hbits := nearestBits_shortest .up hpos hvalue
    rw [nearestBits_def] at hbits
    rw [Places.toFloat_eq negative (toFraction_pos _) (hplaces ▸ toFraction_value _),
      ← Binary64.nearest_of_ofFloat h hpos hvalue]
    exact Binary64.nearest_congr hbits

theorem isNumeral_plain {x : Float} (h : Arithmetic.isFinite x = true) :
    IsNumeral (plain x).toList := by
  obtain ⟨negative, mantissa, exponent, hx⟩ := Binary64.exists_of_isFinite h
  obtain ⟨p, body, hspells, hne, _, hplain⟩ := exists_places_plain hx
  obtain ⟨sign, hsign, happend⟩ := withSign_eq_append negative
  exact ⟨negative, sign, body, hsign, isUnsigned_of_spells hspells hne, hplain.trans (happend body)⟩

/-- A finite double is read back from its plain form, bit for bit. -/
theorem read?_plain {x : Float} (h : Arithmetic.isFinite x = true) :
    read? (plain x).toList = some x := by
  obtain ⟨negative, mantissa, exponent, hx⟩ := Binary64.exists_of_isFinite h
  obtain ⟨p, body, hspells, hne, hfloat, hplain⟩ := exists_places_plain hx
  obtain ⟨sign, hsign, happend⟩ := withSign_eq_append negative
  rw [hplain, happend, read?_append hsign hspells hne, hfloat]

end Decimal
end StrategyDesk
