import StrategyDesk.Indicator.Counted
import StrategyDesk.Indicator.Parser
import StrategyDesk.Proofs.Indicator.WarmUp

/-!
This module contains what comes of computing indicators place by place on counts of 64 bits. The
only fault that there can be is a period with no count after it, or a sum of periods that is no count.
-/

namespace StrategyDesk

open Indicator

variable {α : Type}

section Lists

variable {β γ : Type}

theorem mapM_eq_ok {f : β → Except Fault γ} {xs : List β} {ys : List γ}
    (hlength : xs.length = ys.length)
    (h : ∀ (i : Nat) (hx : i < xs.length) (hy : i < ys.length), f xs[i] = .ok ys[i]) :
    xs.mapM f = .ok ys := by
  induction xs generalizing ys with
  | nil =>
    rw [List.eq_nil_of_length_eq_zero hlength.symm]
    rfl
  | cons x xs ih =>
    cases ys with
    | nil => cases hlength
    | cons y ys =>
      have hhead : f x = .ok y := h 0 (Nat.zero_lt_succ _) (Nat.zero_lt_succ _)
      have htail : xs.mapM f = .ok ys := by
        apply ih
        . exact Nat.succ.inj hlength
        . intro i hx hy
          exact h (i + 1) (Nat.succ_lt_succ hx) (Nat.succ_lt_succ hy)
      rw [List.mapM_cons, hhead, htail]
      rfl

theorem mapM_eq_ite {f : β → Except Fault γ} {fits : β → Prop} [DecidablePred fits] {g : β → γ}
    {fault : Fault} {xs : List β}
    (h : ∀ x ∈ xs, f x = if fits x then .ok (g x) else .error fault) :
    xs.mapM f = if ∀ x ∈ xs, fits x then .ok (xs.map g) else .error fault := by
  induction xs with
  | nil => rfl
  | cons x xs ih =>
    rw [List.forall_mem_cons] at h
    rw [List.mapM_cons, h.1, ih h.2]
    simp only [List.forall_mem_cons]
    by_cases hx : fits x
    . by_cases hxs : ∀ y ∈ xs, fits y
      . rw [if_pos hx, if_pos hxs, if_pos ⟨hx, hxs⟩]
        rfl
      . rw [if_pos hx, if_neg hxs, if_neg fun hall => hxs hall.2]
        rfl
    . have hnot : ¬ (fits x ∧ ∀ y ∈ xs, fits y) := fun hall => hx hall.1
      rw [if_neg hx, if_neg hnot]
      rfl

theorem Average.length_of_mem_windows {p : Nat} {xs w : List β} (h : w ∈ windows p xs) :
    w.length = p := by
  induction xs with
  | nil => cases h
  | cons x xs ih =>
    unfold windows at h
    split at h
    . cases h
    . next hp =>
      simp only [Bool.or_eq_true, decide_eq_true_eq, not_or] at hp
      cases h with
      | head =>
        rw [List.length_take, List.length_cons]
        omega
      | tail _ h => exact ih h

end Lists

namespace Indicator

/-- The greatest sum of periods that counting the warm-up takes. Of a single period there is none. -/
def greatestSum : Indicator α → Nat
  | .rsi period | .atr period => period + 1
  | .macd fast slow signal => max fast slow + signal
  | .stochastic kPeriod dPeriod => kPeriod + dPeriod
  | .sma _ | .ema _ | .bollinger _ _ | .vwap => 0

/-- Whether the values come from what changes from candle to candle. -/
def seesChanges : Indicator α → Bool
  | .rsi _ | .atr _ => true
  | _ => false

end Indicator

namespace Counted

/-! ## Series -/

section Series

variable [Arithmetic α] {ind : Indicator α} {cs : List (Candle α)}

theorem none_eq (h : ind.readings cs = []) : none ind = ind.compute cs := by
  unfold Indicator.compute
  rw [h]
  simp [Series.ofReadings, none]

theorem none_of_lt (hperiods : ind.HasPeriods) (hvwap : ind ≠ .vwap)
    (h : cs.length < ind.minCandles) : none ind = ind.compute cs := by
  apply none_eq
  apply List.eq_nil_of_length_eq_zero
  rw [length_readings cs hperiods hvwap]
  omega

theorem aligned_eq {offset : Nat} (hne : ind.readings cs ≠ [])
    (h : offset + (ind.readings cs).length = cs.length) :
    aligned ind cs offset (ind.readings cs) = .ok (ind.compute cs) := by
  have hoffset : cs.length - (ind.readings cs).length = offset := by omega
  unfold aligned Indicator.compute Series.ofReadings
  rw [Place.onwards_of_le (by omega), List.isEmpty_eq_false_iff.mpr hne, hoffset]
  rfl

theorem aligned_of_le {offset : Nat} (hperiods : ind.HasPeriods) (hvwap : ind ≠ .vwap)
    (h : ind.minCandles ≤ cs.length) (hoffset : offset + 1 = ind.minCandles) :
    aligned ind cs offset (ind.readings cs) = .ok (ind.compute cs) := by
  have hlength := length_readings cs hperiods hvwap
  apply aligned_eq
  . apply List.ne_nil_of_length_pos
    omega
  . omega

theorem guarded_eq {few : Prop} [Decidable few] {counted : Except Fault (Series α)}
    (hperiods : ind.HasPeriods) (hvwap : ind ≠ .vwap)
    (hfew : few ↔ cs.length < ind.minCandles)
    (hcounted : ind.minCandles ≤ cs.length →
      counted = aligned ind cs (ind.minCandles - 1) (ind.readings cs)) :
    (if few then return none ind else counted) = .ok (ind.compute cs) := by
  have hpos := hperiods.minCandles_pos
  by_cases h : few
  . rw [if_pos h]
    exact congrArg Except.ok (none_of_lt hperiods hvwap (hfew.mp h))
  . have hle : ind.minCandles ≤ cs.length := Nat.le_of_not_lt fun hlt => h (hfew.mpr hlt)
    rw [if_neg h, hcounted hle]
    exact aligned_of_le hperiods hvwap hle (by omega)

end Series

/-! ## Averages -/

section Averages

variable [Arithmetic α] {p : Nat} {xs : List α}

theorem start_eq (h : p ≤ xs.length) : start p xs = .ok (Arithmetic.mean (xs.take p)) := by
  unfold start Arithmetic.mean
  rw [Place.upTo_of_le h, List.length_take_of_le h]
  rfl

omit [Arithmetic α] in
theorem room_eq (hp : p ≠ 0) (h : p ≤ xs.length) (hmax : xs.length ≤ maxCount) :
    room xs p = .ok (xs.length - p + 1) := by
  unfold room
  rw [Count.sub_of_le h]
  apply Count.add_of_le
  omega

theorem exponential_eq (hp : p ≠ 0) (hmax : xs.length ≤ maxCount) :
    exponential p xs = .ok (Average.exponential p xs) := by
  unfold exponential
  by_cases h : xs.length < p
  . have hnone : Average.exponential p xs = [] := Average.smoothed_of_length_lt (.inr h)
    simp [h, hnone]
    rfl
  . have hle : p ≤ xs.length := by omega
    rw [if_neg (by simp [hp, h]), start_eq hle, room_eq hp hle hmax, Place.onwards_of_le hle]
    unfold Average.exponential
    rw [Average.smoothed_of_le_length hp hle]
    rfl

end Averages

/-! ## Prices -/

section Prices

variable [Arithmetic α] {cs : List (Candle α)}

theorem sma_eq {period : Nat} (hperiods : (Indicator.sma period : Indicator α).HasPeriods) :
    sma period cs = .ok ((Indicator.sma period).compute cs) := by
  have hperiod : period ≠ 0 := hasPeriods_iff.mp hperiods
  have hlength := Average.length_plain (Candle.closes cs) hperiod
  have hcloses := Candle.length_closes cs
  unfold sma
  apply guarded_eq hperiods (by simp)
  . show _ ↔ cs.length < period
    rw [List.isEmpty_iff_length_eq_zero]
    omega
  . intro _
    rw [Count.sub_of_le (by omega)]
    rfl

theorem ema_eq {period : Nat} (hperiods : (Indicator.ema period : Indicator α).HasPeriods)
    (hmax : cs.length ≤ maxCount) : ema period cs = .ok ((Indicator.ema period).compute cs) := by
  have hperiod : period ≠ 0 := hasPeriods_iff.mp hperiods
  have hlength := Average.length_exponential (Candle.closes cs) hperiod
  have hcloses := Candle.length_closes cs
  unfold ema
  rw [exponential_eq hperiod (by omega)]
  apply guarded_eq hperiods (by simp)
  . show _ ↔ cs.length < period
    rw [List.isEmpty_iff_length_eq_zero]
    omega
  . intro _
    rw [Count.sub_of_le (by omega)]
    rfl

theorem bollinger_eq {period : Nat} {k : α}
    (hperiods : (Indicator.bollinger period k : Indicator α).HasPeriods) :
    bollinger period k cs = .ok ((Indicator.bollinger period k).compute cs) := by
  have hperiod : period ≠ 0 := hasPeriods_iff.mp hperiods
  unfold bollinger
  apply guarded_eq hperiods (by simp)
  . show _ ↔ cs.length < period
    simp [hperiod]
  . intro _
    rw [Count.sub_of_le (by omega)]
    rfl

theorem line_eq {fast slow : Nat} {prices : List α} (hfast : fast ≠ 0) (hslow : slow ≠ 0)
    (hmax : prices.length ≤ maxCount) (h : max fast slow ≤ prices.length) :
    (List.range' (max fast slow - 1) (prices.length - (max fast slow - 1))).mapM
        (macdAt fast slow (Average.exponential fast prices) (Average.exponential slow prices)) =
      .ok (macdLine fast slow prices) := by
  have hshort := Average.length_exponential prices hfast
  have hlong := Average.length_exponential prices hslow
  apply mapM_eq_ok
  . rw [List.length_range', length_macdLine prices hfast hslow]
    omega
  . intro i hi _
    rw [List.length_range'] at hi
    have hplace : max fast slow - 1 + i + 1 = max fast slow + i := by omega
    have hx : max fast slow + i - fast = max fast slow - fast + i := by omega
    have hy : max fast slow + i - slow = max fast slow - slow + i := by omega
    rw [List.getElem_range', Nat.one_mul]
    unfold macdAt
    rw [Count.add_of_le (by omega), hplace]
    simp only [bind, Except.bind]
    rw [Count.sub_of_le (by omega), Count.sub_of_le (by omega), hx, hy]
    dsimp only
    rw [Place.entry_of_lt (by omega), Place.entry_of_lt (by omega)]
    simp only [macdLine, List.getElem_zipWith, List.getElem_drop]
    rfl

theorem macdReadings_eq {fast slow signal : Nat} {prices : List α} (hfast : fast ≠ 0)
    (hslow : slow ≠ 0) (hsignal : signal ≠ 0) (hmax : prices.length ≤ maxCount) :
    (Average.exponential signal (macdLine fast slow prices)).zipIdx.mapM
        (fun (average, i) => macdReading signal (macdLine fast slow prices) average i) =
      .ok (macdReadings fast slow signal prices) := by
  have hline := length_macdLine prices hfast hslow
  have haverages := Average.length_exponential (macdLine fast slow prices) hsignal
  apply mapM_eq_ok
  . rw [List.length_zipIdx, length_macdReadings prices hfast hslow hsignal]
    omega
  . intro i hi _
    rw [List.length_zipIdx] at hi
    have hplace : i + signal - 1 = signal - 1 + i := by omega
    simp only [List.getElem_zipIdx, Nat.zero_add]
    unfold macdReading
    rw [Count.add_of_le (by omega)]
    simp only [bind, Except.bind]
    rw [Count.sub_of_le (by omega), hplace]
    dsimp only
    rw [Place.entry_of_lt (by omega)]
    simp only [macdReadings, List.getElem_zipWith, List.getElem_drop]
    rfl

theorem macd_eq {fast slow signal : Nat}
    (hperiods : (Indicator.macd fast slow signal : Indicator α).HasPeriods)
    (hmax : cs.length ≤ maxCount) :
    macd fast slow signal cs = .ok ((Indicator.macd fast slow signal).compute cs) := by
  have hperiods : fast ≠ 0 ∧ slow ≠ 0 ∧ signal ≠ 0 :=
    hasPeriods_iff.mp hperiods
  obtain ⟨hfast, hslow, hsignal⟩ := hperiods
  have hcloses := Candle.length_closes cs
  have hshort := Average.length_exponential (Candle.closes cs) hfast
  have hlong := Average.length_exponential (Candle.closes cs) hslow
  have hline := length_macdLine (Candle.closes cs) hfast hslow
  have haverages := Average.length_exponential
    (macdLine fast slow (Candle.closes cs)) hsignal
  have hmin : (Indicator.macd fast slow signal : Indicator α).minCandles =
      max fast slow + signal - 1 := rfl
  unfold macd
  rw [if_neg (by simp [hfast, hslow, hsignal]), exponential_eq hfast (by omega),
    exponential_eq hslow (by omega)]
  simp only [bind, Except.bind]
  by_cases hshorter : cs.length < max fast slow
  . rw [if_pos (by
      rw [Bool.or_eq_true, List.isEmpty_iff_length_eq_zero, List.isEmpty_iff_length_eq_zero]
      omega)]
    exact congrArg Except.ok (none_of_lt hperiods (by simp) (by omega))
  . rw [if_neg (by
      rw [Bool.or_eq_true, List.isEmpty_iff_length_eq_zero, List.isEmpty_iff_length_eq_zero]
      omega), Count.sub_of_le (by omega), ← hcloses]
    dsimp only
    rw [line_eq hfast hslow (by omega) (by omega)]
    dsimp only
    rw [exponential_eq hsignal (by omega)]
    dsimp only
    rw [macdReadings_eq hfast hslow hsignal (by omega)]
    apply guarded_eq hperiods (by simp)
    . rw [List.isEmpty_iff_length_eq_zero]
      omega
    . intro _
      have hoffset : max fast slow - 1 + signal - 1 = max fast slow + signal - 1 - 1 := by omega
      dsimp only
      rw [Count.add_of_le (by omega)]
      dsimp only
      rw [Count.sub_of_le (by omega), hoffset]
      rfl

end Prices

/-! ## Changes from candle to candle -/

section Changes

variable {cs : List (Candle α)}

theorem changes_eq (cs : List (Candle α)) : changes cs = .ok (Candle.neighbours cs) := by
  unfold changes
  induction cs with
  | nil => rfl
  | cons c cs ih =>
    cases cs with
    | nil => rfl
    | cons d cs =>
      rw [Average.windows_cons (by decide) (by simp), List.mapM_cons, ih]
      rfl

variable [Arithmetic α]

theorem zipWith_running {β γ δ ε : Type} (f : γ → δ → ε) (g : γ → β → γ) (h : δ → β → δ) (a : γ)
    (b : δ) (xs ys : List β) :
    List.zipWith f (Average.running g a xs) (Average.running h b ys) =
      f a b :: (List.zipWith f (Average.running g a xs) (Average.running h b ys)).tail := by
  cases xs <;> cases ys <;> rfl

theorem strengths_eq {p before n i : Nat} {gains losses : List α} {gain loss : α}
    (hlength : gains.length = losses.length) (hn : i + n = gains.length) :
    strengths p before gains losses gain loss (List.range' i n) =
      .ok (List.zipWith relativeStrength
        (Average.running (weigh p before) gain (gains.drop i))
        (Average.running (weigh p before) loss (losses.drop i))).tail := by
  induction n generalizing i gain loss with
  | zero =>
    rw [List.drop_eq_nil_of_le (by omega), List.drop_eq_nil_of_le (by omega)]
    rfl
  | succ n ih =>
    have hgains : gains.drop i = gains[i] :: gains.drop (i + 1) :=
      List.drop_eq_getElem_cons (by omega)
    have hlosses : losses.drop i = losses[i] :: losses.drop (i + 1) :=
      List.drop_eq_getElem_cons (by omega)
    rw [List.range'_succ, hgains, hlosses]
    unfold strengths
    rw [Place.entry_of_lt (by omega), Place.entry_of_lt (by omega)]
    simp only [bind, Except.bind]
    rw [ih (by omega)]
    simp only [Average.running, List.zipWith_cons_cons, List.tail_cons]
    rw [zipWith_running]
    rfl

theorem readings_rsi {period : Nat} (hperiod : period ≠ 0) (h : period + 1 ≤ cs.length) :
    (Indicator.rsi period).readings cs =
      (List.zipWith relativeStrength
        (Average.running (weigh period (period - 1)) (Arithmetic.mean ((gains cs).take period))
          ((gains cs).drop period))
        (Average.running (weigh period (period - 1)) (Arithmetic.mean ((losses cs).take period))
          ((losses cs).drop period))).map .simple := by
  have hgains : period ≤ (gains cs).length := by
    rw [length_gains]
    omega
  have hlosses : period ≤ (losses cs).length := by
    rw [length_losses]
    omega
  unfold readings rsiValues Average.weighted
  dsimp only
  rw [Average.smoothed_of_le_length hperiod hgains, Average.smoothed_of_le_length hperiod hlosses]
  rfl

theorem rsi_eq {period : Nat} (hperiods : (Indicator.rsi period : Indicator α).HasPeriods)
    (hcount : period + 1 ≤ maxCount) (hmax : cs.length ≤ maxCount) :
    rsi period cs = .ok ((Indicator.rsi period).compute cs) := by
  have hperiod : period ≠ 0 := hasPeriods_iff.mp hperiods
  have hgains := length_gains cs
  have hlosses := length_losses cs
  unfold rsi
  rw [if_neg hperiod, Count.add_of_le hcount]
  apply guarded_eq hperiods (by simp)
  . exact Iff.rfl
  . intro h
    have h : period + 1 ≤ cs.length := h
    have hgainsOf : (Candle.neighbours cs).map gainOf = gains cs := rfl
    have hlossesOf : (Candle.neighbours cs).map lossOf = losses cs := rfl
    rw [Count.sub_of_le (by omega), changes_eq]
    simp only [bind, Except.bind]
    rw [hgainsOf, hlossesOf, start_eq (by omega), start_eq (by omega),
      room_eq hperiod (by omega) (by omega), Count.sub_of_le (by omega)]
    dsimp only
    rw [strengths_eq (by omega) (by omega)]
    dsimp only
    rw [← zipWith_running, ← readings_rsi hperiod h]
    rfl

theorem readings_atr {period : Nat} (hperiod : period ≠ 0) (h : period + 1 ≤ cs.length) :
    (Indicator.atr period).readings cs =
      (Average.running (weigh period (period - 1)) (Arithmetic.mean ((trueRanges cs).take period))
        ((trueRanges cs).drop period)).map .simple := by
  have hranges : period ≤ (trueRanges cs).length := by
    rw [length_trueRanges]
    omega
  unfold readings Average.weighted
  dsimp only
  rw [Average.smoothed_of_le_length hperiod hranges]
  rfl

theorem atr_eq {period : Nat} (hperiods : (Indicator.atr period : Indicator α).HasPeriods)
    (hcount : period + 1 ≤ maxCount) (hmax : cs.length ≤ maxCount) :
    atr period cs = .ok ((Indicator.atr period).compute cs) := by
  have hperiod : period ≠ 0 := hasPeriods_iff.mp hperiods
  have hranges := length_trueRanges cs
  unfold atr
  rw [if_neg hperiod, Count.add_of_le hcount]
  apply guarded_eq hperiods (by simp)
  . exact Iff.rfl
  . intro h
    have h : period + 1 ≤ cs.length := h
    have hrangesOf : (Candle.neighbours cs).map _ = trueRanges cs := rfl
    rw [changes_eq]
    simp only [bind, Except.bind]
    rw [hrangesOf, start_eq (by omega), room_eq hperiod (by omega) (by omega),
      Count.sub_of_le (by omega), Place.onwards_of_le (by omega)]
    dsimp only
    rw [← readings_atr hperiod h]
    rfl

theorem rsi_of_lt {period : Nat} (h : maxCount < period + 1) :
    rsi period cs = .error .overflow := by
  have hperiod : period ≠ 0 := by
    rintro rfl
    exact absurd h (by decide)
  unfold rsi
  rw [if_neg hperiod, Count.add_of_lt h]
  rfl

theorem atr_of_lt {period : Nat} (h : maxCount < period + 1) :
    atr period cs = .error .overflow := by
  have hperiod : period ≠ 0 := by
    rintro rfl
    exact absurd h (by decide)
  unfold atr
  rw [if_neg hperiod, Count.add_of_lt h]
  rfl

end Changes

/-! ## Ranges -/

section Ranges

variable [Arithmetic α] {cs : List (Candle α)}

theorem percentK_eq {window : List (Candle α)} (h : window ≠ []) :
    percentK window = .ok (Indicator.percentK window) := by
  have hpos := List.length_pos_iff.mpr h
  unfold percentK Indicator.percentK
  rw [List.getLast?_eq_getElem?, Count.sub_of_le (by omega)]
  simp only [bind, Except.bind]
  rw [Place.entry_of_lt (by omega), List.getElem?_eq_getElem (by omega)]
  rfl

theorem percentKs_eq {kPeriod : Nat} (hk : kPeriod ≠ 0) :
    (Average.windows kPeriod cs).mapM percentK =
      .ok ((Average.windows kPeriod cs).map Indicator.percentK) := by
  apply mapM_eq_ok
  . rw [List.length_map]
  . intro i hi _
    rw [List.getElem_map]
    apply percentK_eq
    apply List.ne_nil_of_length_pos
    rw [Average.length_of_mem_windows (List.getElem_mem hi)]
    omega

theorem stochasticReadings_eq {kPeriod dPeriod : Nat} (hk : kPeriod ≠ 0) (hd : dPeriod ≠ 0)
    (hmax : cs.length ≤ maxCount) :
    let ks := (Average.windows kPeriod cs).map Indicator.percentK
    (Average.plain dPeriod ks).zipIdx.mapM (fun (d, i) => stochasticReading dPeriod ks d i) =
      .ok (stochasticReadings kPeriod dPeriod cs) := by
  intro ks
  have hks : ks.length = cs.length + 1 - kPeriod := by
    rw [List.length_map, Average.length_windows _ _ hk]
  have hds := Average.length_plain ks hd
  apply mapM_eq_ok
  . rw [List.length_zipIdx, length_stochasticReadings cs hk hd]
    omega
  . intro i hi _
    rw [List.length_zipIdx] at hi
    have hplace : i + dPeriod - 1 = dPeriod - 1 + i := by omega
    simp only [List.getElem_zipIdx, Nat.zero_add]
    unfold stochasticReading
    rw [Count.add_of_le (by omega)]
    simp only [bind, Except.bind]
    rw [Count.sub_of_le (by omega), hplace]
    dsimp only
    rw [Place.entry_of_lt (by omega)]
    simp only [stochasticReadings, List.getElem_zipWith, List.getElem_drop]
    rfl

theorem stochastic_eq {kPeriod dPeriod : Nat}
    (hperiods : (Indicator.stochastic kPeriod dPeriod : Indicator α).HasPeriods)
    (hmax : cs.length ≤ maxCount) :
    stochastic kPeriod dPeriod cs = .ok ((Indicator.stochastic kPeriod dPeriod).compute cs) := by
  have hperiods : kPeriod ≠ 0 ∧ dPeriod ≠ 0 :=
    hasPeriods_iff.mp hperiods
  obtain ⟨hk, hd⟩ := hperiods
  have hks : ((Average.windows kPeriod cs).map Indicator.percentK).length =
      cs.length + 1 - kPeriod := by
    rw [List.length_map, Average.length_windows _ _ hk]
  have hds := Average.length_plain ((Average.windows kPeriod cs).map Indicator.percentK) hd
  have hmin : (Indicator.stochastic kPeriod dPeriod : Indicator α).minCandles =
      kPeriod + dPeriod - 1 := rfl
  unfold stochastic
  by_cases hshorter : cs.length < kPeriod
  . rw [if_pos (by simp [hshorter])]
    exact congrArg Except.ok (none_of_lt hperiods (by simp) (by omega))
  . rw [if_neg (by simp [hk, hd, hshorter]), percentKs_eq hk]
    simp only [bind, Except.bind]
    rw [stochasticReadings_eq hk hd hmax, Count.sub_of_le (by omega)]
    apply guarded_eq hperiods (by simp)
    . rw [List.isEmpty_iff_length_eq_zero]
      omega
    . intro _
      have hoffset : kPeriod - 1 + dPeriod - 1 = kPeriod + dPeriod - 1 - 1 := by omega
      dsimp only
      rw [Count.add_of_le (by omega)]
      dsimp only
      rw [Count.sub_of_le (by omega), hoffset]
      rfl

end Ranges

/-! ## Volume -/

section Volume

variable [Arithmetic α] {cs : List (Candle α)}

def firstVolume (cs : List (Candle α)) : Nat :=
  (turnovers cs).findIdx fun (_, volume) => !(volume == 0)

theorem readings_vwap (cs : List (Candle α)) :
    ∃ f : α × α → Reading α,
      (Indicator.vwap : Indicator α).readings cs = ((turnovers cs).drop (firstVolume cs)).map f := by
  let ratio (pv : α × α) : α :=
    if pv.2 == 0 then Arithmetic.infinity - Arithmetic.infinity else pv.1 / pv.2
  refine ⟨fun pv => .simple (ratio pv), ?_⟩
  unfold readings vwapValues firstVolume
  rw [List.dropWhile_eq_drop_findIdx_not, List.map_map]
  rfl

theorem length_readings_vwap (cs : List (Candle α)) :
    ((Indicator.vwap : Indicator α).readings cs).length = cs.length - firstVolume cs := by
  obtain ⟨f, hf⟩ := readings_vwap cs
  rw [hf, List.length_map, List.length_drop, length_turnovers]

theorem vwap_eq : vwap cs = .ok (Indicator.vwap.compute cs) := by
  have hlength := length_readings_vwap cs
  have hturnovers := length_turnovers cs
  unfold vwap
  split
  . next hnone =>
    apply congrArg Except.ok
    apply none_eq
    apply List.eq_nil_of_length_eq_zero
    have hfirst : firstVolume cs = (turnovers cs).length :=
      List.findIdx_eq_length.mpr (List.findIdx?_eq_none_iff.mp hnone)
    omega
  . next offset hsome =>
    obtain ⟨hlt, hfirst⟩ := List.findIdx?_eq_some_iff_findIdx_eq.mp hsome
    have hfirst : firstVolume cs = offset := hfirst
    apply aligned_eq
    . apply List.ne_nil_of_length_pos
      omega
    . omega

end Volume

/-! ## All indicators -/

section All

variable [Arithmetic α]

omit [Arithmetic α] in
theorem minCandles_eq (ind : Indicator α) :
    minCandles ind =
      if ind.greatestSum ≤ maxCount then .ok ind.minCandles else .error .overflow := by
  unfold minCandles greatestSum Count.add
  cases ind with
  | rsi period => rfl
  | atr period => rfl
  | macd fast slow signal =>
    dsimp only
    split
    . rfl
    . rfl
  | stochastic kPeriod dPeriod =>
    dsimp only
    split
    . rfl
    . rfl
  | _ => rfl

omit [Arithmetic α] in
theorem minCandles_eq_ok_iff {ind : Indicator α} {n : Nat} :
    minCandles ind = .ok n ↔ ind.greatestSum ≤ maxCount ∧ ind.minCandles = n := by
  rw [minCandles_eq]
  split
  . next hfits => simp [hfits]
  . next hfits => simp [hfits]

omit [Arithmetic α] in
theorem requiredCandles_eq (cfg : Config α) :
    requiredCandles cfg =
      if ∀ ki ∈ cfg.indicators, ki.indicator.greatestSum ≤ maxCount then .ok cfg.requiredCandles
      else .error .overflow := by
  unfold requiredCandles
  rw [mapM_eq_ite fun ki _ => minCandles_eq ki.indicator]
  split
  . rfl
  . rfl

omit [Arithmetic α] in
theorem requiredCandles_eq_ok_iff {cfg : Config α} {n : Nat} :
    requiredCandles cfg = .ok n ↔
      (∀ ki ∈ cfg.indicators, ki.indicator.greatestSum ≤ maxCount) ∧ cfg.requiredCandles = n := by
  rw [requiredCandles_eq]
  split
  . next hfits =>
    rw [Except.ok.injEq]
    exact (and_iff_right hfits).symm
  . next hfits =>
    constructor
    . exact nofun
    . intro h
      exact absurd h.1 hfits

theorem compute_eq {ind : Indicator α} (hperiods : ind.HasPeriods) {cs : List (Candle α)}
    (hmax : cs.length ≤ maxCount) :
    compute ind cs =
      if ind.seesChanges = true ∧ maxCount < ind.greatestSum then .error .overflow
      else .ok (ind.compute cs) := by
  cases ind with
  | sma period => exact sma_eq hperiods
  | ema period => exact ema_eq hperiods hmax
  | rsi period =>
    by_cases h : maxCount < period + 1
    . rw [if_pos ⟨rfl, h⟩]
      exact rsi_of_lt h
    . rw [if_neg fun hboth => h hboth.2]
      exact rsi_eq hperiods (Nat.le_of_not_lt h) hmax
  | macd fast slow signal => exact macd_eq hperiods hmax
  | bollinger period k => exact bollinger_eq hperiods
  | stochastic kPeriod dPeriod => exact stochastic_eq hperiods hmax
  | atr period =>
    by_cases h : maxCount < period + 1
    . rw [if_pos ⟨rfl, h⟩]
      exact atr_of_lt h
    . rw [if_neg fun hboth => h hboth.2]
      exact atr_eq hperiods (Nat.le_of_not_lt h) hmax
  | vwap => exact vwap_eq

theorem compute_of_le {ind : Indicator α} (hvalid : ind.validate = .ok ())
    (hfits : ind.greatestSum ≤ maxCount) {cs : List (Candle α)} (hmax : cs.length ≤ maxCount) :
    compute ind cs = .ok (ind.compute cs) := by
  rw [compute_eq (hasPeriods_of_validate hvalid) hmax, if_neg (by omega)]

theorem computeAll_eq {cfg : Config α} (hvalid : cfg.validate = .ok ())
    {cs : List (Candle α)} (hmax : cs.length ≤ maxCount) :
    computeAll cfg.indicators cs =
      if ∀ ki ∈ cfg.indicators, ¬(ki.indicator.seesChanges = true ∧
        maxCount < ki.indicator.greatestSum) then .ok (.compute cfg.indicators cs)
      else .error .overflow := by
  unfold computeAll SeriesSet.compute
  apply mapM_eq_ite
  intro ki hki
  rw [compute_eq (hasPeriods_of_validate (Config.validate_indicator hvalid hki)) hmax]
  by_cases hoverflow : ki.indicator.seesChanges = true ∧ maxCount < ki.indicator.greatestSum
  . rw [if_pos hoverflow, if_neg (not_not.mpr hoverflow)]
    rfl
  . rw [if_neg hoverflow, if_pos hoverflow]
    rfl

theorem computeAll_of_le {cfg : Config α} (hvalid : cfg.validate = .ok ())
    (hfits : ∀ ki ∈ cfg.indicators, ki.indicator.greatestSum ≤ maxCount) {cs : List (Candle α)}
    (hmax : cs.length ≤ maxCount) :
    computeAll cfg.indicators cs = .ok (.compute cfg.indicators cs) := by
  rw [computeAll_eq hvalid hmax, if_pos]
  intro ki hki hoverflow
  exact Nat.not_lt_of_le (hfits ki hki) hoverflow.2

/--
Admitted indicators are computed on counts of 64 bits as on unbounded ones, and their warm-up is
counted, with a single exception: a sum of periods that is no count is an overflow. RSI and ATR
cannot even be computed then, whatever the candles are. The required candles of a configuration can
be counted if the warm-up of each indicator can, and in this case all indicators can be computed.
-/
theorem faultless_unless_overflow (α : Type) [Arithmetic α] :
    (∀ ind : Indicator α, ind.validate = .ok () →
      minCandles ind =
        (if ind.greatestSum ≤ maxCount then .ok ind.minCandles else .error .overflow) ∧
      ∀ cs : List (Candle α), cs.length ≤ maxCount →
        compute ind cs =
          if ind.seesChanges = true ∧ maxCount < ind.greatestSum then .error .overflow
          else .ok (ind.compute cs)) ∧
    ∀ cfg : Config α, cfg.validate = .ok () →
      requiredCandles cfg =
        (if ∀ ki ∈ cfg.indicators, ki.indicator.greatestSum ≤ maxCount then .ok cfg.requiredCandles
        else .error .overflow) ∧
      ∀ n, requiredCandles cfg = .ok n → ∀ cs : List (Candle α), cs.length ≤ maxCount →
        computeAll cfg.indicators cs = .ok (.compute cfg.indicators cs) := by
  constructor
  . intro ind hvalid
    refine ⟨minCandles_eq ind, ?_⟩
    intro cs hmax
    exact compute_eq (hasPeriods_of_validate hvalid) hmax
  . intro cfg hvalid
    refine ⟨requiredCandles_eq cfg, ?_⟩
    intro n hn cs hmax
    obtain ⟨hfits, _⟩ := requiredCandles_eq_ok_iff.mp hn
    exact computeAll_of_le hvalid hfits hmax

def strengthConfig (period : Nat) : Config Float where
  name := "Oversold"
  description := .none
  kind := .custom
  symbols := ["BTC"]
  timeframe := .day1
  indicators := [{ key := "rsi", indicator := .rsi period }]
  rules := {
    entry := [{ field := "rsi", comparison := .less, value := 30 }]
    exit := [{ field := "rsi", comparison := .greater, value := 70 }] }
  risk := { positionSize := 10, maxDrawdown := 50, stopLoss := .none, takeProfit := .none }

theorem faultless_strengthConfig :
    requiredCandles (strengthConfig 14) = .ok 15 ∧
      computeAll (strengthConfig 14).indicators [] =
        .ok (.compute (strengthConfig 14).indicators []) ∧
      minCandles (.stochastic maxCount 1 : Indicator Float) = .error .overflow ∧
      compute (.stochastic maxCount 1 : Indicator Float) [] =
        .ok (Indicator.compute (.stochastic maxCount 1) []) := by
  obtain ⟨hindicators, hconfigs⟩ := faultless_unless_overflow Float
  obtain ⟨hrequired, hall⟩ := hconfigs (strengthConfig 14) rfl
  obtain ⟨hmin, hstochastic⟩ := hindicators (.stochastic maxCount 1) rfl
  rw [if_pos (by decide)] at hrequired
  rw [if_neg (by decide)] at hmin
  have hnone := hstochastic [] (Nat.zero_le _)
  rw [if_neg (by decide)] at hnone
  exact ⟨hrequired, hall 15 hrequired [] (Nat.zero_le _), hmin, hnone⟩

/-- The greatest period can be written down and is admitted, yet there is no count after it. -/
theorem overflow_of_greatest_period :
    (Indicator.parse "RSI(18446744073709551615)".toList).toOption.map
        (fun ind => (ind.name, ind.periods)) = some ("RSI", [("period", maxCount)]) ∧
      (Indicator.rsi maxCount : Indicator Float).validate = .ok () ∧
      minCandles (.rsi maxCount : Indicator Float) = .error .overflow ∧
      (∀ cs : List (Candle Float), compute (.rsi maxCount) cs = .error .overflow) ∧
      (strengthConfig maxCount).validate = .ok () ∧
      requiredCandles (strengthConfig maxCount) = .error .overflow := by
  refine ⟨by decide +kernel, rfl, rfl, ?_, rfl, rfl⟩
  intro cs
  apply rsi_of_lt
  decide

end All

end Counted
end StrategyDesk
