import StrategyDesk.Proofs.Arithmetic.Exact
import StrategyDesk.Proofs.Indicator.Components

/-!
This module contains that averages stay inside what they average, in exact arithmetic. The average
of a window and every step of a smoothed average are convex combinations, so they do not leave a
convex set that their elements lie in.
-/

namespace StrategyDesk

open Arithmetic

/-- Exact arithmetic in which the root of the square of a rational number is exact. -/
@[reducible]
def exactRoots : Conventions where
  sqrt := Rat.sqrt
  infinity := 0
  text _ := ""

variable [Conventions]

theorem Arithmetic.mean_mem {s : Set ℚ} {xs : List ℚ} (hs : Convex ℚ s) (hne : xs ≠ [])
    (h : ∀ x ∈ xs, x ∈ s) : mean xs ∈ s := by
  rw [mean_eq]
  induction xs with
  | nil => exact absurd rfl hne
  | cons x xs ih =>
    rw [List.forall_mem_cons] at h
    by_cases hone : xs = []
    . simpa [hone] using h.1
    . have hlength : (0 : ℚ) < xs.length := by
        exact_mod_cast List.length_pos_iff.mpr hone
      have hcombined : (x :: xs).sum / (x :: xs).length =
          (1 / (xs.length + 1 : ℚ)) • x +
            (xs.length / (xs.length + 1 : ℚ)) • (xs.sum / xs.length) := by
        simp only [List.sum_cons, List.length_cons, smul_eq_mul, Nat.cast_succ]
        field_simp
      rw [hcombined]
      apply hs h.1 (ih hone h.2) (by positivity) (by positivity)
      field_simp
      ring

namespace Average

variable {β γ : Type} {s : Set ℚ} {p : Nat} {xs : List ℚ} {y : ℚ}

omit [Conventions] in
theorem forall_mem_running {step : γ → β → γ} {start : γ} {xs : List β} {P : γ → Prop}
    (hstart : P start) (hstep : ∀ total x, x ∈ xs → P total → P (step total x)) :
    ∀ y ∈ running step start xs, P y := by
  induction xs generalizing start with
  | nil =>
    intro y hy
    rwa [List.mem_singleton.mp hy]
  | cons x xs ih =>
    intro y hy
    rcases List.mem_cons.mp hy with rfl | hy
    . exact hstart
    . apply ih (hstep start x List.mem_cons_self hstart) _ y hy
      intro total x' hx'
      exact hstep total x' (List.mem_cons_of_mem x hx')

omit [Conventions] in
theorem isInfix_of_mem_windows {xs w : List β} (h : w ∈ windows p xs) : w <:+: xs := by
  induction xs with
  | nil => cases h
  | cons x xs ih =>
    unfold windows at h
    split at h
    . cases h
    . rcases List.mem_cons.mp h with rfl | h
      . exact (List.take_prefix p (x :: xs)).isInfix
      . exact (ih h).trans (List.suffix_cons x xs).isInfix

theorem plain_mem (hs : Convex ℚ s) (hp : p ≠ 0) (hxs : ∀ x ∈ xs, x ∈ s) (hy : y ∈ plain p xs) :
    y ∈ s := by
  obtain ⟨w, hw, rfl⟩ := List.mem_map.mp hy
  apply mean_mem hs
  . apply List.ne_nil_of_length_pos
    rw [length_of_mem_windows hw]
    exact Nat.pos_of_ne_zero hp
  . intro x hx
    exact hxs x ((isInfix_of_mem_windows hw).mem hx)

theorem smoothed_mem {step : ℚ → ℚ → ℚ} (hs : Convex ℚ s) (hxs : ∀ x ∈ xs, x ∈ s)
    (hstep : ∀ average x, average ∈ s → x ∈ s → step average x ∈ s) (hy : y ∈ smoothed step p xs) :
    y ∈ s := by
  by_cases hshort : p = 0 ∨ xs.length < p
  . rw [smoothed_of_length_lt hshort] at hy
    cases hy
  . rw [not_or] at hshort
    rw [smoothed_of_le_length hshort.1 (not_lt.mp hshort.2)] at hy
    refine forall_mem_running (P := (· ∈ s)) ?_ ?_ y hy
    . apply mean_mem hs
      . apply List.ne_nil_of_length_pos
        rw [List.length_take]
        omega
      . intro x hx
        exact hxs x (List.mem_of_mem_take hx)
    . intro average x hx haverage
      exact hstep average x haverage (hxs x (List.mem_of_mem_drop hx))

theorem exponential_mem (hs : Convex ℚ s) (hp : p ≠ 0) (hxs : ∀ x ∈ xs, x ∈ s)
    (hy : y ∈ exponential p xs) : y ∈ s := by
  apply smoothed_mem hs hxs _ hy
  intro average x haverage hx
  have hpos : (1 : ℚ) ≤ p := by
    exact_mod_cast Nat.one_le_iff_ne_zero.mpr hp
  have hshare : 2 / (p + 1 : ℚ) ≤ 1 := by
    rw [div_le_one₀ (by linarith)]
    linarith
  have hcombined : (x - average) * (2 / (p + 1 : ℚ)) + average =
      (1 - 2 / (p + 1 : ℚ)) • average + (2 / (p + 1 : ℚ)) • x := by
    simp only [smul_eq_mul]
    ring
  show (x - average) * (2 / (p + 1 : ℚ)) + average ∈ s
  rw [hcombined]
  apply hs haverage hx (by linarith) (by positivity)
  ring

theorem weighted_mem (hs : Convex ℚ s) (hp : p ≠ 0) (hxs : ∀ x ∈ xs, x ∈ s)
    (hy : y ∈ weighted p xs) : y ∈ s := by
  apply smoothed_mem hs hxs _ hy
  intro average x haverage hx
  have hpos : (0 : ℚ) < p := by
    exact_mod_cast Nat.pos_of_ne_zero hp
  have hcombined : (average * ((p - 1 : Nat) : ℚ) + x) / p =
      (((p - 1 : Nat) : ℚ) / p) • average + (1 / p : ℚ) • x := by
    simp only [smul_eq_mul]
    ring
  show (average * ((p - 1 : Nat) : ℚ) + x) / p ∈ s
  rw [hcombined]
  apply hs haverage hx (by positivity) (by positivity)
  rw [Nat.cast_pred (Nat.pos_of_ne_zero hp)]
  field_simp
  ring

end Average

omit [Conventions] in
theorem exists_of_mem_zipWith {β γ δ : Type} {f : β → γ → δ} {xs : List β} {ys : List γ} {z : δ}
    (h : z ∈ List.zipWith f xs ys) : ∃ x ∈ xs, ∃ y ∈ ys, f x y = z := by
  rw [← List.map_uncurry_zip_eq_zipWith] at h
  obtain ⟨⟨x, y⟩, hmem, hz⟩ := List.mem_map.mp h
  obtain ⟨hx, hy⟩ := List.of_mem_zip hmem
  exact ⟨x, hx, y, hy, hz⟩

namespace Indicator

section Extremes

variable {xs : List ℚ} {x : ℚ}

theorem min?_eq_lowest (hne : xs ≠ []) : xs.min? = some (lowest xs) := by
  have hleast : (least : ℚ → ℚ → ℚ) = min := funext₂ least_eq
  have hall : xs.filter (!isNaN ·) = xs := List.filter_true xs
  unfold lowest
  rw [hall, hleast]
  cases xs with
  | nil => exact absurd rfl hne
  | cons x xs => exact List.min?_cons'

theorem max?_eq_highest (hne : xs ≠ []) : xs.max? = some (highest xs) := by
  have hgreatest : (greatest : ℚ → ℚ → ℚ) = max := funext₂ greatest_eq
  have hall : xs.filter (!isNaN ·) = xs := List.filter_true xs
  unfold highest
  rw [hall, hgreatest]
  cases xs with
  | nil => exact absurd rfl hne
  | cons x xs => exact List.max?_cons'

theorem lowest_le (hx : x ∈ xs) : lowest xs ≤ x :=
  (List.min?_eq_some_iff.mp (min?_eq_lowest (List.ne_nil_of_mem hx))).2 x hx

theorem le_highest (hx : x ∈ xs) : x ≤ highest xs :=
  (List.max?_eq_some_iff.mp (max?_eq_highest (List.ne_nil_of_mem hx))).2 x hx

end Extremes

section Readings

omit [Conventions]

variable {α : Type} [Arithmetic α] {ind : Indicator α} {cs : List (Candle α)} {i : Nat}
  {r : Reading α}

theorem mem_readings_of_readingAt? (h : (ind.compute cs).readingAt? i = some r) :
    r ∈ ind.readings cs := by
  unfold compute at h
  rw [Series.readingAt?_ofReadings (ind.online_readings.length_le cs)] at h
  split at h
  . exact List.mem_of_getElem? h
  . cases h

theorem lt_length_of_readingAt? (h : (ind.compute cs).readingAt? i = some r) : i < cs.length := by
  by_contra hle
  rw [readingAt?_compute_of_le ind (not_lt.mp hle)] at h
  cases h

theorem mem_readings_take_of_readingAt? (h : (ind.compute cs).readingAt? i = some r) :
    r ∈ ind.readings (cs.take (i + 1)) := by
  have hi := lt_length_of_readingAt? h
  have htake : i < (cs.take (i + 1)).length := by
    rw [List.length_take]
    omega
  apply mem_readings_of_readingAt? (i := i)
  rw [← ind.readingAt?_append _ (cs.drop (i + 1)) htake, List.take_append_drop]
  exact h

end Readings

end Indicator

end StrategyDesk
