import StrategyDesk.Proofs.Backtest.Balance

/-!
This module contains that the greatest fall of a balance can be told from its highest peak so far. A
fall is measured between any two moments in exact arithmetic, and falls from lower capitals than the
peak are never greater.
-/

namespace StrategyDesk
namespace Drawdown

def fallBetween (before after : ℚ) : ℚ :=
  (before - after) / before * 100

/-- The falls from any positive capital of a list to itself or to a later one. -/
def falls (capitals : List ℚ) : Set ℚ :=
  { d | ∃ (i j : Nat) (before after : ℚ), i ≤ j ∧ capitals[i]? = some before ∧
    capitals[j]? = some after ∧ 0 < before ∧ d = fallBetween before after }

theorem fallBetween_mono {before before' after : ℚ} (hbefore : 0 < before) (hle : before ≤ before')
    (hafter : 0 ≤ after) : fallBetween before after ≤ fallBetween before' after := by
  have hbefore' := hbefore.trans_le hle
  have hpart : after / before' ≤ after / before :=
    div_le_div_of_nonneg_left hafter hbefore hle
  unfold fallBetween
  rw [sub_div, sub_div, div_self hbefore.ne', div_self hbefore'.ne']
  linarith

theorem fallBetween_nonpos {before after : ℚ} (hbefore : 0 < before) (hle : before ≤ after) :
    fallBetween before after ≤ 0 := by
  have hquotient : (before - after) / before ≤ 0 :=
    div_nonpos_of_nonpos_of_nonneg (sub_nonpos.mpr hle) hbefore.le
  unfold fallBetween
  linarith

theorem fallBetween_self (capital : ℚ) : fallBetween capital capital = 0 := by
  simp [fallBetween]

theorem fallBetween_le_hundred {before after : ℚ} (hbefore : 0 < before) (hafter : 0 ≤ after) :
    fallBetween before after ≤ 100 := by
  have hquotient : (before - after) / before ≤ 1 := by
    rw [div_le_one₀ hbefore]
    linarith
  unfold fallBetween
  linarith

variable {capitals more : List ℚ} {capital d : ℚ}

theorem mem_falls_concat : d ∈ falls (capitals ++ [capital]) ↔
    d ∈ falls capitals ∨
      ∃ before ∈ capitals ++ [capital], 0 < before ∧ d = fallBetween before capital := by
  constructor
  . rintro ⟨i, j, before, after, hij, hi, hj, hpos, rfl⟩
    have hlength := (List.getElem?_eq_some_iff.mp hj).1
    rw [List.length_append, List.length_singleton] at hlength
    rcases Nat.lt_succ_iff_lt_or_eq.mp hlength with hlt | rfl
    . left
      rw [List.getElem?_append_left (by omega)] at hi
      rw [List.getElem?_append_left hlt] at hj
      exact ⟨i, j, before, after, hij, hi, hj, hpos, rfl⟩
    . right
      rw [List.getElem?_concat_length] at hj
      injection hj with hj
      rw [← hj]
      exact ⟨before, List.mem_of_getElem? hi, hpos, rfl⟩
  . rintro (⟨i, j, before, after, hij, hi, hj, hpos, rfl⟩ | ⟨before, hmem, hpos, rfl⟩)
    . have hlt := (List.getElem?_eq_some_iff.mp hj).1
      refine ⟨i, j, before, after, hij, ?_, ?_, hpos, rfl⟩
      . rw [List.getElem?_append_left (by omega)]
        exact hi
      . rw [List.getElem?_append_left hlt]
        exact hj
    . obtain ⟨i, hlt, hi⟩ := List.getElem_of_mem hmem
      rw [List.length_append, List.length_singleton] at hlt
      refine ⟨i, capitals.length, before, capital, by omega, ?_, ?_, hpos, rfl⟩
      . rw [← hi]
        exact List.getElem?_eq_getElem _
      . exact List.getElem?_concat_length

structure Tracks (s : Drawdown ℚ) (capitals : List ℚ) : Prop where
  peak : IsGreatest { c | c ∈ capitals } s.peak
  greatest : IsGreatest (falls capitals) s.greatest

variable {s : Drawdown ℚ}

theorem Tracks.greatest_nonneg (h : s.Tracks capitals) (hpeak : 0 < s.peak) : 0 ≤ s.greatest := by
  obtain ⟨i, hlt, hi⟩ := List.getElem_of_mem h.peak.1
  have hi : capitals[i]? = some s.peak := by
    rw [← hi]
    exact List.getElem?_eq_getElem hlt
  apply h.greatest.2
  exact ⟨i, i, s.peak, s.peak, le_rfl, hi, hi, hpeak, (fallBetween_self _).symm⟩

theorem Tracks.le_of_mem_falls (h : s.Tracks capitals) (hcapital : 0 ≤ capital) {bound : ℚ}
    (hgreatest : s.greatest ≤ bound) (hzero : 0 ≤ bound)
    (hpeak : fallBetween s.peak capital ≤ bound) (hd : d ∈ falls (capitals ++ [capital])) : d ≤ bound := by
  rcases mem_falls_concat.mp hd with hd | ⟨before, hmem, hpos, rfl⟩
  . exact (h.greatest.2 hd).trans hgreatest
  . rcases List.mem_append.mp hmem with hmem | hmem
    . exact (fallBetween_mono hpos (h.peak.2 hmem) hcapital).trans hpeak
    . rw [List.mem_singleton.mp hmem, fallBetween_self]
      exact hzero

section Records

variable [Conventions]

theorem tracks_start {initial : ℚ} (hinitial : 0 < initial) : (start initial).Tracks [initial] := by
  constructor
  . constructor
    . exact List.mem_singleton_self initial
    . intro c hc
      exact (List.mem_singleton.mp hc).le
  . constructor
    . exact ⟨0, 0, initial, initial, le_rfl, rfl, rfl, hinitial, (fallBetween_self initial).symm⟩
    . rintro _ ⟨i, j, before, after, _, hi, hj, _, rfl⟩
      have hbefore := List.mem_singleton.mp (List.mem_of_getElem? hi)
      have hafter := List.mem_singleton.mp (List.mem_of_getElem? hj)
      rw [hbefore, hafter, fallBetween_self]
      exact le_rfl

theorem Tracks.record (h : s.Tracks capitals) (hpeak : 0 < s.peak) (hcapital : 0 ≤ capital) :
    (s.record capital).Tracks (capitals ++ [capital]) := by
  have hnonneg := h.greatest_nonneg hpeak
  unfold Drawdown.record
  split
  . next hhigher =>
    have hfall := fallBetween_nonpos hpeak hhigher.le
    constructor
    . refine ⟨List.mem_concat_self, ?_⟩
      intro c hc
      rcases List.mem_append.mp hc with hc | hc
      . exact (h.peak.2 hc).trans hhigher.le
      . exact (List.mem_singleton.mp hc).le
    . refine ⟨mem_falls_concat.mpr (.inl h.greatest.1), ?_⟩
      intro d hd
      exact h.le_of_mem_falls hcapital le_rfl hnonneg (hfall.trans hnonneg) hd
  . next hlower =>
    have hpeak' : IsGreatest { c | c ∈ capitals ++ [capital] } s.peak := by
      refine ⟨List.mem_append_left _ h.peak.1, ?_⟩
      intro c hc
      rcases List.mem_append.mp hc with hc | hc
      . exact h.peak.2 hc
      . rw [List.mem_singleton.mp hc]
        exact not_lt.mp hlower
    dsimp only
    split
    . next hgreater =>
      have hgreater : s.greatest < fallBetween s.peak capital := hgreater
      refine ⟨hpeak', mem_falls_concat.mpr (.inr ⟨s.peak, hpeak'.1, hpeak, rfl⟩), ?_⟩
      intro d hd
      exact h.le_of_mem_falls hcapital hgreater.le (hnonneg.trans hgreater.le) le_rfl hd
    . next hsmaller =>
      refine ⟨hpeak', mem_falls_concat.mpr (.inl h.greatest.1), ?_⟩
      intro d hd
      exact h.le_of_mem_falls hcapital le_rfl hnonneg (not_lt.mp hsmaller) hd

theorem peak_le_record (s : Drawdown ℚ) (capital : ℚ) : s.peak ≤ (s.record capital).peak := by
  unfold Drawdown.record
  split
  . next hhigher => exact hhigher.le
  . split
    . dsimp only
      split <;> exact le_rfl
    . exact le_rfl

theorem greatest_le_record (s : Drawdown ℚ) (capital : ℚ) :
    s.greatest ≤ (s.record capital).greatest := by
  unfold Drawdown.record
  split
  . exact le_rfl
  . split
    . dsimp only
      split
      . next hgreater => exact hgreater.le
      . exact le_rfl
    . exact le_rfl

theorem greatest_le_records (s : Drawdown ℚ) (more : List ℚ) :
    s.greatest ≤ (more.foldl Drawdown.record s).greatest := by
  induction more generalizing s with
  | nil => exact le_rfl
  | cons capital more ih => exact (greatest_le_record s capital).trans (ih _)

theorem Tracks.records (h : s.Tracks capitals) (hpeak : 0 < s.peak) (hmore : ∀ c ∈ more, 0 ≤ c) :
    (more.foldl Drawdown.record s).Tracks (capitals ++ more) := by
  induction more generalizing s capitals with
  | nil => rwa [List.append_nil]
  | cons capital more ih =>
    rw [List.forall_mem_cons] at hmore
    have htracks := ih (h.record hpeak hmore.1) (hpeak.trans_le (peak_le_record s capital)) hmore.2
    rwa [List.append_assoc] at htracks

/--
What is recorded of a balance is the greatest fall between any two moments, the one before the first
record included. It is a share of the whole, and further records never lower it.
-/
theorem isGreatest_of_records {initial : ℚ} (hinitial : 0 < initial)
    (hcapitals : ∀ c ∈ capitals, 0 ≤ c) :
    IsGreatest (falls (initial :: capitals)) (capitals.foldl record (start initial)).greatest ∧
      0 ≤ (capitals.foldl record (start initial)).greatest ∧
      (capitals.foldl record (start initial)).greatest ≤ 100 ∧
      ∀ more, (capitals.foldl record (start initial)).greatest ≤
        ((capitals ++ more).foldl record (start initial)).greatest := by
  have htracks := (tracks_start hinitial).records hinitial hcapitals
  refine ⟨htracks.greatest, ?_, ?_, ?_⟩
  . exact greatest_le_records (start initial) capitals
  . obtain ⟨i, j, before, after, _, _, hj, hpos, hfall⟩ := htracks.greatest.1
    have hafter : 0 ≤ after := by
      rcases List.mem_cons.mp (List.mem_of_getElem? hj) with rfl | hmem
      . exact hinitial.le
      . exact hcapitals after hmem
    rw [hfall]
    exact fallBetween_le_hundred hpos hafter
  . intro more
    rw [List.foldl_append]
    exact greatest_le_records _ more

end Records

section Sample

attribute [local instance] sampleConventions

theorem isGreatest_of_two_peaks :
    (0 : ℚ) < 100 ∧ (∀ c ∈ ([120, 90, 130, 117] : List ℚ), 0 ≤ c) ∧
      ([120, 90, 130, 117].foldl record (start (100 : ℚ))).greatest = 25 ∧
      IsGreatest (falls [100, 120, 90, 130, 117]) 25 := by
  have hcapitals : ∀ c ∈ ([120, 90, 130, 117] : List ℚ), 0 ≤ c := by
    decide +kernel
  have hgreatest : ([120, 90, 130, 117].foldl record (start (100 : ℚ))).greatest = 25 := by
    decide +kernel
  have hinitial : (0 : ℚ) < 100 := by
    norm_num
  obtain ⟨hfalls, _⟩ := isGreatest_of_records hinitial hcapitals
  rw [hgreatest] at hfalls
  exact ⟨hinitial, hcapitals, hgreatest, hfalls⟩

end Sample

end Drawdown
end StrategyDesk
