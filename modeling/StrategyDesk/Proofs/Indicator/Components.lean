import StrategyDesk.Proofs.Indicator.Alignment

/-!
This module contains what indicators with several outputs are made of. An output at a candle is that
of a simpler indicator at the same candle, or an average of such outputs at the candles up to it,
though each of the series begins at a candle of its own.
-/

namespace StrategyDesk

open Arithmetic Candle

/-! ## Averages at a place -/

namespace Average

section Lists

variable {β γ : Type}

theorem getElem?_windows {p k : Nat} {xs : List β} (hp : p ≠ 0) (h : k + p ≤ xs.length) :
    (windows p xs)[k]? = some ((xs.drop k).take p) := by
  induction xs generalizing k with
  | nil =>
    rw [List.length_nil] at h
    omega
  | cons x xs ih =>
    rw [List.length_cons] at h
    rw [windows_cons hp (by omega)]
    cases k with
    | zero => rfl
    | succ k => exact ih (by omega)

theorem getElem?_running_succ (step : γ → β → γ) (start : γ) {xs : List β} {k : Nat}
    (h : k < xs.length) :
    (running step start xs)[k + 1]? =
      (running step start xs)[k]?.map fun total => step total xs[k] := by
  rw [getElem?_running _ _ h, getElem?_running _ _ (Nat.le_of_lt h),
    List.take_succ_eq_append_getElem h, List.foldl_append]
  rfl

end Lists

variable {α : Type} [Arithmetic α] {p k : Nat} {xs : List α}

theorem getElem?_plain (hp : p ≠ 0) (h : k + p ≤ xs.length) :
    (plain p xs)[k]? = some (mean ((xs.drop k).take p)) := by
  unfold plain
  rw [List.getElem?_map, getElem?_windows hp h]
  rfl

theorem getElem?_exponential_zero (hp : p ≠ 0) (h : p ≤ xs.length) :
    (exponential p xs)[0]? = some (mean (xs.take p)) := by
  unfold exponential
  rw [smoothed_of_le_length hp h, getElem?_running _ _ (Nat.zero_le _)]
  rfl

theorem getElem?_exponential_succ (hp : p ≠ 0) (h : p + k < xs.length) :
    (exponential p xs)[k + 1]? = (exponential p xs)[k]?.map fun average =>
      (xs[p + k] - average) * (2 / (ofNat p + 1)) + average := by
  unfold exponential
  rw [smoothed_of_le_length hp (by omega),
    getElem?_running_succ _ _ (by rw [List.length_drop]; omega), List.getElem_drop]

end Average

/-! ## Outputs at a candle -/

variable {α : Type}

namespace Series

def output? (s : Series α) (name : Option String) (index : Nat) : Option α :=
  (s.readingAt? index).bind fun r => r.output? name

def gap? [Arithmetic α] (s t : Series α) (index : Nat) : Option α := do
  return (← s.output? none index) - (← t.output? none index)

/-- Whether a list consists of values at candles one after another, the last of them at `index`. -/
structure Trails (value? : Nat → Option α) (index : Nat) (xs : List α) : Prop where
  length_le : xs.length ≤ index + 1
  value_eq : ∀ j, j < xs.length → value? (index + 1 - xs.length + j) = xs[j]?

end Series

namespace Indicator

variable [Arithmetic α] {cs : List (Candle α)} {i : Nat}

section Coverage

variable {ind : Indicator α}

theorem readingAt?_compute_of_le (ind : Indicator α) (h : cs.length ≤ i) :
    (ind.compute cs).readingAt? i = none := by
  unfold compute
  rw [Series.readingAt?_ofReadings (ind.online_readings.length_le cs), if_pos (by omega)]
  apply List.getElem?_eq_none
  omega

theorem covers_iff (hperiods : ind.HasPeriods) (hvwap : ind ≠ .vwap) :
    ((ind.compute cs).readingAt? i).isSome = true ↔ ind.minCandles ≤ i + 1 ∧ i < cs.length := by
  by_cases hi : i < cs.length
  . rw [isSome_readingAt?_compute hperiods hvwap hi]
    exact (and_iff_left hi).symm
  . rw [readingAt?_compute_of_le ind (Nat.le_of_not_lt hi)]
    simp [hi]

end Coverage

/-! ## Moving average convergence -/

theorem output?_ema {period : Nat} (hperiod : period ≠ 0) (hmin : period ≤ i + 1)
    (hi : i < cs.length) :
    ((Indicator.ema period).compute cs).output? none i =
      (Average.exponential period (closes cs))[i + 1 - period]? := by
  have hperiods : (Indicator.ema period : Indicator α).HasPeriods :=
    hasPeriods_iff.mpr hperiod
  have hmin : (Indicator.ema period : Indicator α).minCandles ≤ i + 1 := hmin
  unfold Series.output?
  rw [readingAt?_compute hperiods (by simp) hi, if_pos hmin]
  show (((Average.exponential period (closes cs)).map Reading.simple)[i + 1 - period]?).bind _ = _
  rw [List.getElem?_map]
  cases (Average.exponential period (closes cs))[i + 1 - period]? <;> rfl

section Macd

variable {fast slow signal : Nat}

theorem gap?_ema (hfast : fast ≠ 0) (hslow : slow ≠ 0) (hmin : max fast slow ≤ i + 1)
    (hi : i < cs.length) :
    ((Indicator.ema fast).compute cs).gap? ((Indicator.ema slow).compute cs) i =
      (macdLine fast slow (closes cs))[i + 1 - max fast slow]? := by
  have hshort : max fast slow - fast + (i + 1 - max fast slow) = i + 1 - fast := by omega
  have hlong : max fast slow - slow + (i + 1 - max fast slow) = i + 1 - slow := by omega
  unfold Series.gap? macdLine
  rw [output?_ema hfast (by omega) hi, output?_ema hslow (by omega) hi]
  dsimp only
  rw [List.getElem?_zipWith, List.getElem?_drop, List.getElem?_drop, hshort, hlong]
  cases (Average.exponential fast (closes cs))[i + 1 - fast]? <;>
    cases (Average.exponential slow (closes cs))[i + 1 - slow]? <;> rfl

theorem readingAt?_macd (hfast : fast ≠ 0) (hslow : slow ≠ 0) (hsignal : signal ≠ 0)
    (hmin : max fast slow + signal ≤ i + 2) (hi : i < cs.length) :
    ∃ line average,
      ((Indicator.macd fast slow signal).compute cs).readingAt? i =
        some (.macd line average (line - average)) ∧
      (macdLine fast slow (closes cs))[i + 1 - max fast slow]? = some line ∧
      (Average.exponential signal (macdLine fast slow (closes cs)))[
        i + 2 - (max fast slow + signal)]? = some average := by
  have hperiods : (Indicator.macd fast slow signal : Indicator α).HasPeriods :=
    hasPeriods_iff.mpr ⟨hfast, hslow, hsignal⟩
  have hcloses := length_closes cs
  have hline := length_macdLine (closes cs) hfast hslow
  have haverages := Average.length_exponential (macdLine fast slow (closes cs)) hsignal
  have hcovered : (Indicator.macd fast slow signal : Indicator α).minCandles ≤ i + 1 := by
    show max fast slow + signal - 1 ≤ i + 1
    omega
  have hplace : i + 1 - (Indicator.macd fast slow signal : Indicator α).minCandles =
      i + 2 - (max fast slow + signal) := by
    show i + 1 - (max fast slow + signal - 1) = _
    omega
  have hlast : signal - 1 + (i + 2 - (max fast slow + signal)) = i + 1 - max fast slow := by omega
  refine ⟨(macdLine fast slow (closes cs))[i + 1 - max fast slow],
    (Average.exponential signal (macdLine fast slow (closes cs)))[
      i + 2 - (max fast slow + signal)], ?_, List.getElem?_eq_getElem _, List.getElem?_eq_getElem _⟩
  rw [readingAt?_compute hperiods (by simp) hi, if_pos hcovered, hplace]
  show (macdReadings fast slow signal (closes cs))[i + 2 - (max fast slow + signal)]? = _
  unfold macdReadings
  dsimp only
  rw [List.getElem?_zipWith, List.getElem?_drop, hlast, List.getElem?_eq_getElem (by omega),
    List.getElem?_eq_getElem (by omega)]

theorem output?_signal (hfast : fast ≠ 0) (hslow : slow ≠ 0) (hsignal : signal ≠ 0)
    (hmin : max fast slow + signal ≤ i + 2) (hi : i < cs.length) :
    ((Indicator.macd fast slow signal).compute cs).output? (some "signal") i =
      (Average.exponential signal (macdLine fast slow (closes cs)))[
        i + 2 - (max fast slow + signal)]? := by
  obtain ⟨line, average, hreading, _, haverage⟩ := readingAt?_macd hfast hslow hsignal hmin hi
  unfold Series.output?
  rw [hreading, haverage]
  rfl

theorem trails_gap?_ema (hfast : fast ≠ 0) (hslow : slow ≠ 0) (hsignal : signal ≠ 0)
    (hfirst : i + 2 = max fast slow + signal) (hi : i < cs.length) :
    Series.Trails (((Indicator.ema fast).compute cs).gap? ((Indicator.ema slow).compute cs)) i
      ((macdLine fast slow (closes cs)).take signal) := by
  have hcloses := length_closes cs
  have hline := length_macdLine (closes cs) hfast hslow
  have hlength : ((macdLine fast slow (closes cs)).take signal).length = signal :=
    List.length_take_of_le (by omega)
  constructor
  . omega
  . intro j hj
    rw [hlength] at hj ⊢
    rw [gap?_ema hfast hslow (by omega) (by omega), List.getElem?_take_of_lt hj]
    congr 1
    omega

theorem signal_spec {line average : α} (hfast : fast ≠ 0) (hslow : slow ≠ 0) (hsignal : signal ≠ 0)
    (hi : i < cs.length)
    (hline : (macdLine fast slow (closes cs))[i + 1 - max fast slow]? = some line)
    (haverage : (Average.exponential signal (macdLine fast slow (closes cs)))[
      i + 2 - (max fast slow + signal)]? = some average) :
    (i + 2 = max fast slow + signal →
      average = mean ((macdLine fast slow (closes cs)).take signal)) ∧
    (max fast slow + signal < i + 2 → ∃ before,
      ((Indicator.macd fast slow signal).compute cs).output? (some "signal") (i - 1) = some before ∧
      average = (line - before) * (2 / (ofNat signal + 1)) + before) := by
  have hcloses := length_closes cs
  have hlength := length_macdLine (closes cs) hfast hslow
  constructor
  . intro hfirst
    have hzero : i + 2 - (max fast slow + signal) = 0 := by omega
    rw [hzero, Average.getElem?_exponential_zero hsignal (by omega)] at haverage
    injection haverage with haverage
    exact haverage.symm
  . intro hlater
    obtain ⟨k, hk⟩ : ∃ k, i + 2 - (max fast slow + signal) = k + 1 :=
      Nat.exists_eq_add_one.mpr (by omega)
    have hbefore : i - 1 + 2 - (max fast slow + signal) = k := by omega
    have hplace : i + 1 - max fast slow = signal + k := by omega
    have hk' : signal + k < (macdLine fast slow (closes cs)).length := by omega
    rw [hplace, List.getElem?_eq_getElem hk'] at hline
    injection hline with hline
    rw [hk, Average.getElem?_exponential_succ hsignal hk', hline, Option.map_eq_some_iff] at haverage
    obtain ⟨before, hsome, haverage⟩ := haverage
    refine ⟨before, ?_, haverage.symm⟩
    rw [output?_signal hfast hslow hsignal (by omega) (by omega), hbefore]
    exact hsome

end Macd

/-! ## Bollinger bands -/

theorem output?_middle {period : Nat} (k : α) (hperiod : period ≠ 0) :
    ((Indicator.bollinger period k).compute cs).output? (some "middle") i =
      ((Indicator.sma period).compute cs).output? none i := by
  have hbands : (Indicator.bollinger period k).HasPeriods :=
    hasPeriods_iff.mpr hperiod
  have hsma : (Indicator.sma period : Indicator α).HasPeriods :=
    hasPeriods_iff.mpr hperiod
  unfold Series.output?
  by_cases hi : i < cs.length
  . rw [readingAt?_compute hbands (by simp) hi, readingAt?_compute hsma (by simp) hi]
    show (if period ≤ i + 1 then ((Average.windows period (closes cs)).map (bandsAround k))[
        i + 1 - period]? else none).bind _ =
      (if period ≤ i + 1 then (((Average.windows period (closes cs)).map mean).map Reading.simple)[
        i + 1 - period]? else none).bind _
    split
    . rw [List.getElem?_map, List.getElem?_map, List.getElem?_map]
      cases (Average.windows period (closes cs))[i + 1 - period]? <;> rfl
    . rfl
  . rw [readingAt?_compute_of_le _ (Nat.le_of_not_lt hi),
      readingAt?_compute_of_le _ (Nat.le_of_not_lt hi)]
    rfl

/-! ## Stochastic oscillator -/

section Stochastic

variable {kPeriod dPeriod : Nat}

def percentKs (kPeriod : Nat) (cs : List (Candle α)) : List α :=
  (Average.windows kPeriod cs).map percentK

theorem length_percentKs (cs : List (Candle α)) (hk : kPeriod ≠ 0) :
    (percentKs kPeriod cs).length = cs.length + 1 - kPeriod := by
  unfold percentKs
  rw [List.length_map, Average.length_windows _ _ hk]

theorem readingAt?_stochastic (hk : kPeriod ≠ 0) (hd : dPeriod ≠ 0)
    (hmin : kPeriod + dPeriod ≤ i + 2) (hi : i < cs.length) :
    ∃ k d, ((Indicator.stochastic kPeriod dPeriod).compute cs).readingAt? i =
        some (.stochastic k d) ∧
      (percentKs kPeriod cs)[i + 1 - kPeriod]? = some k ∧
      (Average.plain dPeriod (percentKs kPeriod cs))[i + 2 - (kPeriod + dPeriod)]? = some d := by
  have hperiods : (Indicator.stochastic kPeriod dPeriod : Indicator α).HasPeriods :=
    hasPeriods_iff.mpr ⟨hk, hd⟩
  have hks := length_percentKs cs hk
  have hds := Average.length_plain (percentKs kPeriod cs) hd
  have hcovered : (Indicator.stochastic kPeriod dPeriod : Indicator α).minCandles ≤ i + 1 := by
    show kPeriod + dPeriod - 1 ≤ i + 1
    omega
  have hplace : i + 1 - (Indicator.stochastic kPeriod dPeriod : Indicator α).minCandles =
      i + 2 - (kPeriod + dPeriod) := by
    show i + 1 - (kPeriod + dPeriod - 1) = _
    omega
  have hlast : dPeriod - 1 + (i + 2 - (kPeriod + dPeriod)) = i + 1 - kPeriod := by omega
  refine ⟨(percentKs kPeriod cs)[i + 1 - kPeriod],
    (Average.plain dPeriod (percentKs kPeriod cs))[i + 2 - (kPeriod + dPeriod)], ?_,
    List.getElem?_eq_getElem _, List.getElem?_eq_getElem _⟩
  rw [readingAt?_compute hperiods (by simp) hi, if_pos hcovered, hplace]
  show (List.zipWith Reading.stochastic ((percentKs kPeriod cs).drop (dPeriod - 1))
    (Average.plain dPeriod (percentKs kPeriod cs)))[i + 2 - (kPeriod + dPeriod)]? = _
  rw [List.getElem?_zipWith, List.getElem?_drop, hlast, List.getElem?_eq_getElem (by omega),
    List.getElem?_eq_getElem (by omega)]

theorem output?_k (hk : kPeriod ≠ 0) (hd : dPeriod ≠ 0) (hmin : kPeriod + dPeriod ≤ i + 2)
    (hi : i < cs.length) :
    ((Indicator.stochastic kPeriod dPeriod).compute cs).output? (some "k") i =
      (percentKs kPeriod cs)[i + 1 - kPeriod]? := by
  obtain ⟨k, d, hreading, hsome, _⟩ := readingAt?_stochastic hk hd hmin hi
  unfold Series.output?
  rw [hreading, hsome]
  rfl

theorem exists_trails_k (hk : kPeriod ≠ 0) (hd : dPeriod ≠ 0)
    (hmin : kPeriod + dPeriod ≤ i + 2) (hi : i < cs.length) :
    ∃ ks, ks.length = dPeriod ∧
      Series.Trails (((Indicator.stochastic kPeriod 1).compute cs).output? (some "k")) i ks ∧
      (Average.plain dPeriod (percentKs kPeriod cs))[i + 2 - (kPeriod + dPeriod)]? =
        some (mean ks) := by
  have hks := length_percentKs cs hk
  have hlength : (((percentKs kPeriod cs).drop (i + 2 - (kPeriod + dPeriod))).take dPeriod).length =
      dPeriod := by
    rw [List.length_take_of_le]
    rw [List.length_drop]
    omega
  refine ⟨_, hlength, ?_, Average.getElem?_plain hd (by omega)⟩
  constructor
  . omega
  . intro j hj
    rw [hlength] at hj ⊢
    rw [output?_k hk Nat.one_ne_zero (by omega) (by omega), List.getElem?_take_of_lt hj,
      List.getElem?_drop]
    congr 1
    omega

end Stochastic

end Indicator

/-! ## Computed series -/

namespace Counted

section Computed

variable [Arithmetic α] {cs : List (Candle α)}

theorem macd_of_ema {fast slow signal : Nat} (hmax : cs.length ≤ maxCount) (hfast : fast ≠ 0)
    (hslow : slow ≠ 0) (hsignal : signal ≠ 0) :
    ∃ s short long, compute (.macd fast slow signal) cs = .ok s ∧
      compute (.ema fast) cs = .ok short ∧ compute (.ema slow) cs = .ok long ∧
      (∀ i, (s.readingAt? i).isSome = true ↔ max fast slow + signal - 2 ≤ i ∧ i < cs.length) ∧
      ∀ i r, s.readingAt? i = some r → ∃ line average,
        r = .macd line average (line - average) ∧ short.gap? long i = some line ∧
        (i = max fast slow + signal - 2 → ∃ lines, lines.length = signal ∧
          Series.Trails (short.gap? long) i lines ∧ average = mean lines) ∧
        (max fast slow + signal - 2 < i → ∃ before,
          s.output? (some "signal") (i - 1) = some before ∧
          average = (line - before) * (2 / (ofNat signal + 1)) + before) := by
  have hperiods : (Indicator.macd fast slow signal : Indicator α).HasPeriods :=
    Indicator.hasPeriods_iff.mpr ⟨hfast, hslow, hsignal⟩
  have hshort : (Indicator.ema fast : Indicator α).HasPeriods :=
    Indicator.hasPeriods_iff.mpr hfast
  have hlong : (Indicator.ema slow : Indicator α).HasPeriods :=
    Indicator.hasPeriods_iff.mpr hslow
  have hcovers (i : Nat) : (((Indicator.macd fast slow signal).compute cs).readingAt? i).isSome =
      true ↔ max fast slow + signal - 2 ≤ i ∧ i < cs.length := by
    rw [Indicator.covers_iff hperiods (by simp)]
    show max fast slow + signal - 1 ≤ i + 1 ∧ _ ↔ _
    omega
  refine ⟨_, _, _, macd_eq hperiods hmax, ema_eq hshort hmax, ema_eq hlong hmax, hcovers, ?_⟩
  intro i r hr
  obtain ⟨hmin, hi⟩ := (hcovers i).mp (Option.isSome_of_eq_some hr)
  obtain ⟨line, average, hreading, hline, haverage⟩ :=
    Indicator.readingAt?_macd hfast hslow hsignal (by omega) hi
  obtain ⟨hfirst, hlater⟩ := Indicator.signal_spec hfast hslow hsignal hi hline haverage
  rw [hreading] at hr
  injection hr with hr
  refine ⟨line, average, hr.symm, ?_, ?_, ?_⟩
  . rw [Indicator.gap?_ema hfast hslow (by omega) hi]
    exact hline
  . intro hplace
    have htrails := Indicator.trails_gap?_ema hfast hslow hsignal (by omega) hi
    refine ⟨_, ?_, htrails, hfirst (by omega)⟩
    apply List.length_take_of_le
    rw [Indicator.length_macdLine _ hfast hslow, length_closes]
    omega
  . intro hplace
    exact hlater (by omega)

theorem bollinger_of_sma {period : Nat} (k : α) (hperiod : period ≠ 0) :
    ∃ s plain, compute (.bollinger period k) cs = .ok s ∧ compute (.sma period) cs = .ok plain ∧
      (∀ i, (s.readingAt? i).isSome = true ↔ period - 1 ≤ i ∧ i < cs.length) ∧
      ∀ i, s.output? (some "middle") i = plain.output? .none i := by
  have hbands : (Indicator.bollinger period k).HasPeriods :=
    Indicator.hasPeriods_iff.mpr hperiod
  have hsma : (Indicator.sma period : Indicator α).HasPeriods :=
    Indicator.hasPeriods_iff.mpr hperiod
  refine ⟨_, _, bollinger_eq hbands, sma_eq hsma, ?_, ?_⟩
  . intro i
    rw [Indicator.covers_iff hbands (by simp)]
    show period ≤ i + 1 ∧ _ ↔ _
    omega
  . intro i
    exact Indicator.output?_middle k hperiod

theorem stochastic_of_stochastic {kPeriod dPeriod : Nat} (hmax : cs.length ≤ maxCount)
    (hk : kPeriod ≠ 0) (hd : dPeriod ≠ 0) :
    ∃ s plain, compute (.stochastic kPeriod dPeriod) cs = .ok s ∧
      compute (.stochastic kPeriod 1) cs = .ok plain ∧
      (∀ i, (s.readingAt? i).isSome = true ↔ kPeriod + dPeriod - 2 ≤ i ∧ i < cs.length) ∧
      ∀ i r, s.readingAt? i = some r → ∃ k ks, r = .stochastic k (mean ks) ∧
        plain.output? (some "k") i = some k ∧ ks.length = dPeriod ∧
        Series.Trails (plain.output? (some "k")) i ks := by
  have hperiods : (Indicator.stochastic kPeriod dPeriod : Indicator α).HasPeriods :=
    Indicator.hasPeriods_iff.mpr ⟨hk, hd⟩
  have hplain : (Indicator.stochastic kPeriod 1 : Indicator α).HasPeriods :=
    Indicator.hasPeriods_iff.mpr ⟨hk, Nat.one_ne_zero⟩
  have hcovers (i : Nat) : (((Indicator.stochastic kPeriod dPeriod).compute cs).readingAt? i).isSome =
      true ↔ kPeriod + dPeriod - 2 ≤ i ∧ i < cs.length := by
    rw [Indicator.covers_iff hperiods (by simp)]
    show kPeriod + dPeriod - 1 ≤ i + 1 ∧ _ ↔ _
    omega
  refine ⟨_, _, stochastic_eq hperiods hmax, stochastic_eq hplain hmax, hcovers, ?_⟩
  intro i r hr
  obtain ⟨hmin, hi⟩ := (hcovers i).mp (Option.isSome_of_eq_some hr)
  obtain ⟨k, d, hreading, hsome, haverage⟩ := Indicator.readingAt?_stochastic hk hd (by omega) hi
  obtain ⟨ks, hlength, htrails, hmean⟩ := Indicator.exists_trails_k hk hd (by omega) hi
  rw [hreading] at hr
  injection hr with hr
  rw [haverage] at hmean
  injection hmean with hmean
  refine ⟨k, ks, ?_, ?_, hlength, htrails⟩
  . rw [← hr, hmean]
  . rw [Indicator.output?_k hk Nat.one_ne_zero (by omega) hi]
    exact hsome

end Computed

end Counted

open Counted in
/--
Every output of an indicator with several outputs agrees with simpler indicators at the same candle.
The convergence is the gap between two exponential averages. Its signal is the average of the gaps up
to the first candle that is covered, and moves towards the gap at each candle after it. In the middle
of the Bollinger bands is the plain average. The smoothing of a stochastic oscillator leaves its
principal output alone and is the average of the latest of these.
-/
theorem Series.agrees_with_components {α : Type} [Arithmetic α] {cs : List (Candle α)}
    (hmax : cs.length ≤ maxCount) :
    (∀ fast slow signal, fast ≠ 0 → slow ≠ 0 → signal ≠ 0 →
      ∃ s short long, compute (.macd fast slow signal) cs = .ok s ∧
        compute (.ema fast) cs = .ok short ∧ compute (.ema slow) cs = .ok long ∧
        (∀ i, (s.readingAt? i).isSome = true ↔
          max fast slow + signal - 2 ≤ i ∧ i < cs.length) ∧
        ∀ i r, s.readingAt? i = some r → ∃ line average,
          r = .macd line average (line - average) ∧ short.gap? long i = some line ∧
          (i = max fast slow + signal - 2 → ∃ lines, lines.length = signal ∧
            Trails (short.gap? long) i lines ∧ average = mean lines) ∧
          (max fast slow + signal - 2 < i → ∃ before,
            s.output? (some "signal") (i - 1) = some before ∧
            average = (line - before) * (2 / (ofNat signal + 1)) + before)) ∧
    (∀ period k, period ≠ 0 →
      ∃ s plain, compute (.bollinger period k) cs = .ok s ∧ compute (.sma period) cs = .ok plain ∧
        (∀ i, (s.readingAt? i).isSome = true ↔ period - 1 ≤ i ∧ i < cs.length) ∧
        ∀ i, s.output? (some "middle") i = plain.output? .none i) ∧
    ∀ kPeriod dPeriod, kPeriod ≠ 0 → dPeriod ≠ 0 →
      ∃ s plain, compute (.stochastic kPeriod dPeriod) cs = .ok s ∧
        compute (.stochastic kPeriod 1) cs = .ok plain ∧
        (∀ i, (s.readingAt? i).isSome = true ↔ kPeriod + dPeriod - 2 ≤ i ∧ i < cs.length) ∧
        ∀ i r, s.readingAt? i = some r → ∃ k ks, r = .stochastic k (mean ks) ∧
          plain.output? (some "k") i = some k ∧ ks.length = dPeriod ∧
          Trails (plain.output? (some "k")) i ks := by
  refine ⟨?_, ?_, ?_⟩
  . intro fast slow signal hfast hslow hsignal
    exact macd_of_ema hmax hfast hslow hsignal
  . intro period k hperiod
    exact bollinger_of_sma k hperiod
  . intro kPeriod dPeriod hk hd
    exact stochastic_of_stochastic hmax hk hd

open Counted in
theorem Series.convergence_growing :
    (candlesOfCloses [1, 2, 4, 8, 16, 32]).length ≤ maxCount ∧
    ∃ s short long, compute (.macd 2 3 2) (candlesOfCloses [1, 2, 4, 8, 16, 32]) = .ok s ∧
      compute (.ema 2) (candlesOfCloses [1, 2, 4, 8, 16, 32]) = .ok short ∧
      compute (.ema 3) (candlesOfCloses [1, 2, 4, 8, 16, 32]) = .ok long ∧
      ∃ line lines, s.readingAt? 3 = some (.macd line (mean lines) (line - mean lines)) ∧
        short.gap? long 3 = some line ∧ lines.length = 2 ∧ Trails (short.gap? long) 3 lines := by
  have hmax : (candlesOfCloses [1, 2, 4, 8, 16, 32]).length ≤ maxCount := by decide
  refine ⟨hmax, ?_⟩
  obtain ⟨s, short, long, hs, hshort, hlong, hcovers, hreadings⟩ :=
    (Series.agrees_with_components hmax).1 2 3 2 (by decide) (by decide) (by decide)
  obtain ⟨r, hr⟩ := Option.isSome_iff_exists.mp ((hcovers 3).mpr (by decide))
  obtain ⟨line, average, rfl, hline, hfirst, _⟩ := hreadings 3 r hr
  obtain ⟨lines, hlength, htrails, rfl⟩ := hfirst rfl
  exact ⟨s, short, long, hs, hshort, hlong, line, lines, hr, hline, hlength, htrails⟩

end StrategyDesk
