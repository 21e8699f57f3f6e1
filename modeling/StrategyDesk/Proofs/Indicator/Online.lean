import StrategyDesk.Indicator.Readings
import Mathlib.Data.List.Induction

/-!
This module contains the reason why indicators do not look ahead: their readings can be computed
online. Each further candle adds at most one reading, and none of those before it changes.
-/

namespace StrategyDesk

variable {β γ δ ε : Type}

structure Online (f : List β → List γ) : Prop where
  nil : f [] = []
  concat : ∀ xs x, (f xs = [] ∧ f (xs ++ [x]) = []) ∨ ∃ z, f (xs ++ [x]) = f xs ++ [z]

namespace Online

theorem map (g : β → γ) : Online (List.map g) where
  nil := rfl
  concat _ x := .inr ⟨g x, List.map_append⟩

theorem comp {g : List γ → List δ} {f : List β → List γ} (hg : Online g) (hf : Online f) :
    Online (fun xs => g (f xs)) where
  nil := by rw [hf.nil, hg.nil]
  concat xs x := by
    rcases hf.concat xs x with ⟨hnone, hnone'⟩ | ⟨z, hz⟩
    . left
      rw [hnone, hnone']
      exact ⟨hg.nil, hg.nil⟩
    . rw [hz]
      exact hg.concat (f xs) z

theorem map_comp (g : γ → δ) {f : List β → List γ} (hf : Online f) :
    Online (fun xs => (f xs).map g) :=
  (map g).comp hf

theorem drop (k : Nat) : Online (List.drop (α := β) k) where
  nil := List.drop_nil
  concat xs x := by
    rcases Nat.lt_or_ge xs.length k with hk | hk
    . left
      constructor
      . exact List.drop_eq_nil_of_le (by omega)
      . apply List.drop_eq_nil_of_le
        rw [List.length_append, List.length_singleton]
        omega
    . right
      exact ⟨x, List.drop_append_of_le_length hk⟩

theorem dropWhile (p : β → Bool) : Online (List.dropWhile p) where
  nil := rfl
  concat xs x := by
    induction xs with
    | nil =>
      rw [List.nil_append, List.dropWhile_cons]
      split
      . exact .inl ⟨rfl, rfl⟩
      . exact .inr ⟨x, rfl⟩
    | cons y xs ih =>
      rw [List.cons_append, List.dropWhile_cons, List.dropWhile_cons]
      split
      . exact ih
      . -- `y` stays, and then so does everything behind it
        exact .inr ⟨x, rfl⟩

theorem exists_zipWith_concat (g : γ → δ → ε) (as : List γ) (bs : List δ) (a : γ) (b : δ) :
    ∃ z, List.zipWith g (as ++ [a]) (bs ++ [b]) = List.zipWith g as bs ++ [z] := by
  induction as generalizing bs with
  | nil =>
    cases bs with
    | nil => exact ⟨g a b, rfl⟩
    | cons b' bs => exact ⟨g a b', rfl⟩
  | cons a' as ih =>
    cases bs with
    | nil =>
      refine ⟨g a' b, ?_⟩
      rw [List.nil_append, List.cons_append, List.zipWith_cons_cons, List.zipWith_nil_right,
        List.zipWith_nil_right]
      rfl
    | cons b' bs =>
      obtain ⟨z, hz⟩ := ih bs
      exact ⟨z, congrArg (g a' b' :: ·) hz⟩

theorem zipWith (g : γ → δ → ε) {f : List β → List γ} {f' : List β → List δ} (hf : Online f)
    (hf' : Online f') : Online (fun xs => List.zipWith g (f xs) (f' xs)) where
  nil := by rw [hf.nil, List.zipWith_nil_left]
  concat xs x := by
    rcases hf.concat xs x with ⟨hnone, hnone'⟩ | ⟨a, ha⟩
    . left
      rw [hnone, hnone']
      exact ⟨List.zipWith_nil_left, List.zipWith_nil_left⟩
    . rcases hf'.concat xs x with ⟨hnone, hnone'⟩ | ⟨b, hb⟩
      . left
        rw [hnone, hnone']
        exact ⟨List.zipWith_nil_right, List.zipWith_nil_right⟩
      . right
        rw [ha, hb]
        exact exists_zipWith_concat g (f xs) (f' xs) a b

variable {f : List β → List γ}

theorem length_le (hf : Online f) (xs : List β) : (f xs).length ≤ xs.length := by
  induction xs using List.reverseRecOn with
  | nil =>
    rw [hf.nil]
    exact Nat.le_refl _
  | append_singleton xs x ih =>
    rw [List.length_append, List.length_singleton]
    rcases hf.concat xs x with ⟨_, hnone⟩ | ⟨z, hz⟩
    . rw [hnone]
      exact Nat.zero_le _
    . rw [hz, List.length_append, List.length_singleton]
      omega

theorem exists_append (hf : Online f) (xs ys : List β) :
    ∃ zs, f (xs ++ ys) = f xs ++ zs ∧ zs.length ≤ ys.length ∧
      (f xs ≠ [] → zs.length = ys.length) := by
  induction ys using List.reverseRecOn with
  | nil => exact ⟨[], by simp, Nat.le_refl _, fun _ => rfl⟩
  | append_singleton ys y ih =>
    obtain ⟨zs, hzs, hle, hlength⟩ := ih
    rw [← List.append_assoc]
    rcases hf.concat (xs ++ ys) y with ⟨hnone, hnone'⟩ | ⟨z, hz⟩
    . -- still no results, so there were none for `xs` either
      rw [hnone] at hzs
      obtain ⟨hxs, _⟩ := List.append_eq_nil_iff.mp hzs.symm
      exact ⟨[], by rw [hnone', hxs]; rfl, Nat.zero_le _, fun hne => absurd hxs hne⟩
    . refine ⟨zs ++ [z], ?_, ?_, ?_⟩
      . rw [hz, hzs, List.append_assoc]
      . rw [List.length_append, List.length_append]
        exact Nat.add_le_add_right hle 1
      . intro hne
        rw [List.length_append, List.length_append, hlength hne]
        rfl

end Online

namespace Average

theorem windows_of_length_lt {p : Nat} {xs : List β} (h : p = 0 ∨ xs.length < p) :
    windows p xs = [] := by
  cases xs with
  | nil => rfl
  | cons x xs =>
    unfold windows
    rw [if_pos]
    rcases h with rfl | h
    . rfl
    . have : xs.length + 1 < p := h
      simp [this]

theorem windows_cons {p : Nat} {x : β} {xs : List β} (hp : p ≠ 0) (h : p ≤ xs.length + 1) :
    windows p (x :: xs) = (x :: xs).take p :: windows p xs := by
  have hnot : ¬ xs.length + 1 < p := by omega
  rw [windows, if_neg]
  simp [hp, hnot]

theorem online_windows (p : Nat) : Online (windows (β := β) p) where
  nil := rfl
  concat xs x := by
    rcases Nat.eq_zero_or_pos p with hp | hp
    . exact .inl ⟨windows_of_length_lt (.inl hp), windows_of_length_lt (.inl hp)⟩
    . have hp : p ≠ 0 := by omega
      induction xs with
      | nil =>
        rcases Nat.lt_or_ge 1 p with h | h
        . exact .inl ⟨rfl, windows_of_length_lt (.inr h)⟩
        . exact .inr ⟨[x].take p, windows_cons hp h⟩
      | cons y xs ih =>
        have hlength : (xs ++ [x]).length = xs.length + 1 := by simp
        rcases Nat.lt_trichotomy (xs.length + 2) p with h | h | h
        . left
          constructor
          . apply windows_of_length_lt
            rw [List.length_cons]
            omega
          . apply windows_of_length_lt
            rw [List.cons_append, List.length_cons, hlength]
            omega
        . right
          refine ⟨(y :: (xs ++ [x])).take p, ?_⟩
          rw [List.cons_append, windows_cons hp (by omega), windows_of_length_lt (.inr (by omega)),
            windows_of_length_lt (.inr (by rw [List.length_cons]; omega))]
          rfl
        . right
          rw [List.cons_append, windows_cons hp (by omega), windows_cons hp (by omega),
            ← List.cons_append, List.take_append_of_le_length (by rw [List.length_cons]; omega)]
          rcases ih with ⟨_, hnone⟩ | ⟨z, hz⟩
          . -- the window of the last `p` elements is there already
            have hwindows := length_windows p (xs ++ [x]) hp
            rw [hnone, hlength, List.length_nil] at hwindows
            omega
          . exact ⟨z, congrArg _ hz⟩

theorem running_concat (step : γ → β → γ) (start : γ) (xs : List β) (x : β) :
    ∃ z, running step start (xs ++ [x]) = running step start xs ++ [z] := by
  induction xs generalizing start with
  | nil => exact ⟨step start x, rfl⟩
  | cons y xs ih =>
    obtain ⟨z, hz⟩ := ih (step start y)
    exact ⟨z, congrArg (start :: ·) hz⟩

theorem online_tail_running (step : γ → β → γ) (start : γ) :
    Online (fun xs => (running step start xs).tail) where
  nil := rfl
  concat xs x := by
    right
    obtain ⟨z, hz⟩ := running_concat step start xs x
    refine ⟨z, ?_⟩
    rw [hz]
    cases xs <;> rfl

variable {α : Type} [Arithmetic α]

theorem online_plain (p : Nat) : Online (plain (α := α) p) :=
  (online_windows p).map_comp _

theorem smoothed_of_length_lt {step : α → α → α} {p : Nat} {xs : List α}
    (h : p = 0 ∨ xs.length < p) : smoothed step p xs = [] := by
  unfold smoothed
  rw [if_pos]
  simpa using h

theorem smoothed_of_le_length {step : α → α → α} {p : Nat} {xs : List α} (hp : p ≠ 0)
    (h : p ≤ xs.length) :
    smoothed step p xs = running step (Arithmetic.mean (xs.take p)) (xs.drop p) := by
  have hnot : ¬ xs.length < p := by omega
  unfold smoothed
  rw [if_neg]
  simp [hp, hnot]

theorem online_smoothed (step : α → α → α) (p : Nat) : Online (smoothed step p) where
  nil := by
    rcases Nat.eq_zero_or_pos p with hp | hp
    . exact smoothed_of_length_lt (.inl hp)
    . exact smoothed_of_length_lt (.inr hp)
  concat xs x := by
    have hlength : (xs ++ [x]).length = xs.length + 1 := by simp
    rcases Nat.eq_zero_or_pos p with hp | hp
    . exact .inl ⟨smoothed_of_length_lt (.inl hp), smoothed_of_length_lt (.inl hp)⟩
    . have hp : p ≠ 0 := by omega
      rcases Nat.lt_trichotomy (xs.length + 1) p with h | h | h
      . exact .inl ⟨smoothed_of_length_lt (.inr (by omega)), smoothed_of_length_lt (.inr (by omega))⟩
      . right
        have hbefore : smoothed step p xs = [] := smoothed_of_length_lt (.inr (by omega))
        refine ⟨Arithmetic.mean ((xs ++ [x]).take p), ?_⟩
        rw [hbefore, smoothed_of_le_length hp (by omega), List.drop_eq_nil_of_le (by omega)]
        rfl
      . right
        rw [smoothed_of_le_length hp (by omega), smoothed_of_le_length hp (by omega),
          List.take_append_of_le_length (by omega), List.drop_append_of_le_length (by omega)]
        exact running_concat step _ _ x

theorem online_exponential (p : Nat) : Online (exponential (α := α) p) :=
  online_smoothed _ p

theorem online_weighted (p : Nat) : Online (weighted (α := α) p) :=
  online_smoothed _ p

end Average

theorem Candle.online_neighbours : Online (Candle.neighbours (β := β)) where
  nil := rfl
  concat xs x := by
    induction xs with
    | nil => exact .inl ⟨rfl, rfl⟩
    | cons y xs ih =>
      right
      cases xs with
      | nil => exact ⟨(y, x), rfl⟩
      | cons z xs =>
        -- there are neighbours already, so another pair is added to them
        rcases ih with ⟨_, hnone⟩ | ⟨pair, hpair⟩
        . cases xs <;> cases hnone
        . exact ⟨pair, congrArg ((y, z) :: ·) hpair⟩

theorem Candle.online_closes {α : Type} : Online (Candle.closes (α := α)) :=
  .map Candle.close

namespace Indicator

variable {α : Type} [Arithmetic α]

theorem online_macdLine (fast slow : Nat) : Online (macdLine (α := α) fast slow) :=
  .zipWith _ ((Online.drop _).comp (Average.online_exponential fast))
    ((Online.drop _).comp (Average.online_exponential slow))

theorem online_macdReadings (fast slow signal : Nat) :
    Online (macdReadings (α := α) fast slow signal) :=
  .zipWith _ ((Online.drop _).comp (online_macdLine fast slow))
    ((Average.online_exponential signal).comp (online_macdLine fast slow))

theorem online_gains : Online (gains (α := α)) :=
  Candle.online_neighbours.map_comp _

theorem online_losses : Online (losses (α := α)) :=
  Candle.online_neighbours.map_comp _

theorem online_rsiValues (period : Nat) : Online (rsiValues (α := α) period) :=
  .zipWith _ ((Average.online_weighted period).comp online_gains)
    ((Average.online_weighted period).comp online_losses)

theorem online_trueRanges : Online (trueRanges (α := α)) :=
  Candle.online_neighbours.map_comp _

theorem online_stochasticReadings (kPeriod dPeriod : Nat) :
    Online (stochasticReadings (α := α) kPeriod dPeriod) := by
  have hks : Online (fun cs : List (Candle α) => (Average.windows kPeriod cs).map percentK) :=
    (Average.online_windows kPeriod).map_comp percentK
  exact .zipWith _ ((Online.drop _).comp hks) ((Average.online_plain dPeriod).comp hks)

theorem online_turnovers : Online (turnovers (α := α)) :=
  Average.online_tail_running _ _

theorem online_vwapValues : Online (vwapValues (α := α)) :=
  ((Online.dropWhile _).comp online_turnovers).map_comp _

theorem online_readings (ind : Indicator α) : Online ind.readings := by
  cases ind with
  | sma period => exact ((Average.online_plain period).comp Candle.online_closes).map_comp _
  | ema period => exact ((Average.online_exponential period).comp Candle.online_closes).map_comp _
  | rsi period => exact (online_rsiValues period).map_comp _
  | macd fast slow signal => exact (online_macdReadings fast slow signal).comp Candle.online_closes
  | bollinger period k => exact ((Average.online_windows period).comp Candle.online_closes).map_comp _
  | stochastic kPeriod dPeriod => exact online_stochasticReadings kPeriod dPeriod
  | atr period => exact ((Average.online_weighted period).comp online_trueRanges).map_comp _
  | vwap => exact online_vwapValues.map_comp _

end Indicator

theorem Series.readingAt?_ofReadings {α : Type} {ind : Indicator α} {cs : List (Candle α)}
    {rs : List (Reading α)} {i : Nat} (h : rs.length ≤ cs.length) :
    (ofReadings ind cs rs).readingAt? i =
      if cs.length ≤ i + rs.length then rs[i + rs.length - cs.length]? else none := by
  have hreadings (offset : Nat) (hoffset : rs.length ≤ (cs.drop offset).length) :
      (((cs.drop offset).zip rs).map fun p => (⟨p.1.time, p.2⟩ : Point α)).map Point.reading = rs := by
    rw [List.map_map]
    exact List.map_snd_zip hoffset
  unfold readingAt? ofReadings
  dsimp only
  rw [List.getElem?_toArray, ← List.getElem?_map]
  cases rs with
  | nil => simp
  | cons r rs =>
    rw [List.isEmpty_cons, if_neg Bool.false_ne_true, hreadings _ (by rw [List.length_drop]; omega)]
    by_cases hi : cs.length ≤ i + (r :: rs).length
    . rw [if_pos (by omega), if_pos hi]
      congr 1
      omega
    . rw [if_neg (by omega), if_neg hi]

theorem Indicator.readingAt?_append {α : Type} [Arithmetic α] (ind : Indicator α)
    (cs ds : List (Candle α)) {i : Nat} (hi : i < cs.length) :
    (ind.compute (cs ++ ds)).readingAt? i = (ind.compute cs).readingAt? i := by
  have honline := ind.online_readings
  unfold compute
  rw [Series.readingAt?_ofReadings (honline.length_le _),
    Series.readingAt?_ofReadings (honline.length_le _)]
  obtain ⟨zs, hzs, hle, hlength⟩ := honline.exists_append cs ds
  rw [hzs, List.length_append, List.length_append]
  by_cases hnone : ind.readings cs = []
  . rw [if_neg, if_neg]
    . rw [hnone, List.length_nil]
      omega
    . rw [hnone, List.length_nil]
      omega
  . rw [hlength hnone]
    by_cases hcovered : cs.length ≤ i + (ind.readings cs).length
    . have hindex : i + ((ind.readings cs).length + ds.length) - (cs.length + ds.length) =
          i + (ind.readings cs).length - cs.length := by omega
      rw [if_pos (by omega), if_pos hcovered, hindex, List.getElem?_append_left]
      have := List.length_pos_iff.mpr hnone
      omega
    . rw [if_neg (by omega), if_neg hcovered]

def Series.pointAt? {α : Type} (s : Series α) (index : Nat) : Option (Point α) :=
  if s.offset ≤ index then s.points[index - s.offset]? else none

theorem Series.readingAt?_eq_map_pointAt? {α : Type} (s : Series α) (i : Nat) :
    s.readingAt? i = (s.pointAt? i).map Point.reading := by
  unfold readingAt? pointAt?
  split <;> rfl

theorem Series.time_of_pointAt? {α : Type} {ind : Indicator α} {cs : List (Candle α)}
    {rs : List (Reading α)} {i : Nat} {p : Point α}
    (h : (ofReadings ind cs rs).pointAt? i = some p) : cs[i]?.map Candle.time = some p.time := by
  unfold pointAt? ofReadings at h
  dsimp only at h
  generalize (if rs.isEmpty then 0 else cs.length - rs.length) = offset at h
  split at h
  . next hcovered =>
    rw [List.getElem?_toArray, List.getElem?_map, Option.map_eq_some_iff] at h
    obtain ⟨⟨c, r⟩, hzip, rfl⟩ := h
    have hc := (List.getElem?_zip_eq_some.mp hzip).1
    rw [List.getElem?_drop, Nat.add_sub_cancel' hcovered] at hc
    rw [hc]
    rfl
  . cases h

theorem Indicator.pointAt?_compute {α : Type} [Arithmetic α] (ind : Indicator α)
    {cs : List (Candle α)} {i : Nat} (hi : i < cs.length) :
    (ind.compute cs).pointAt? i =
      ((ind.compute cs).readingAt? i).map fun r => { time := cs[i].time, reading := r } := by
  rw [Series.readingAt?_eq_map_pointAt?]
  cases hpoint : (ind.compute cs).pointAt? i with
  | none => rfl
  | some p =>
    have htime := Series.time_of_pointAt? hpoint
    rw [List.getElem?_eq_getElem hi] at htime
    injection htime with htime
    rw [Option.map_some, Option.map_some, htime]

end StrategyDesk
