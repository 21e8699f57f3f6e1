import StrategyDesk.Ini.DeskSettings
import StrategyDesk.Proofs.Decimal.Whole
import StrategyDesk.Proofs.Outcome

/-!
This module contains that the settings of the desk are what stands in the file, and that those which
pass the checks in advance pass the checks that are made again where they are used.
-/

namespace StrategyDesk

open Text

/-! ## Counts -/

theorem Count.ofInteger_eq {z : Int} (hz : 0 ≤ z) (hle : z ≤ Decimal.maxInteger) :
    (ofInteger z : Int) = z := by
  have hmax : Decimal.maxInteger < Nat.pow 2 64 := by
    decide
  unfold ofInteger
  rw [Int.emod_eq_of_lt hz (hle.trans_lt hmax), Int.toNat_of_nonneg hz]

theorem LiveSettings.validate_eq_ok_iff {s : LiveSettings} :
    s.validate = .ok () ↔ 1 ≤ s.pairTimeout ∧ 1 ≤ s.tickDeadline ∧ 1 ≤ s.maxConcurrency := by
  unfold validate
  simp only [refuse_eq_ok_iff, Nat.one_le_iff_ne_zero, and_true]

theorem BacktestRequest.validate_eq_ok_iff {α : Type} [Arithmetic α] {r : BacktestRequest α} :
    r.validate = .ok () ↔
      (Arithmetic.isFinite r.capital = true ∧ ¬r.capital ≤ 0) ∧ ¬r.stop ≤ r.start := by
  unfold validate
  simp only [refuse_eq_ok_iff]
  simp

namespace Ini
namespace Document

variable {d : Document} {s : DeskSettings} {sectionName key : String} {z : Int}

def Gives {β : Type} (d : Document) (sectionName key : String) (stands : String → β → Prop)
    (default x : β) : Prop :=
  match d.filled? sectionName key with
  | none => x = default
  | some raw => stands raw x

section Gives

variable {β : Type} {stands : String → β → Prop} {default x : β} {raw : String}

theorem gives_iff_of_none (hraw : d.filled? sectionName key = none) :
    d.Gives sectionName key stands default x ↔ x = default := by
  unfold Gives
  rw [hraw]

theorem gives_iff_of_some (hraw : d.filled? sectionName key = some raw) :
    d.Gives sectionName key stands default x ↔ stands raw x := by
  unfold Gives
  rw [hraw]

end Gives

/-! ## Readers -/

theorem gives_of_number? {x : Option Float} {default : Float}
    (h : d.number? sectionName key = .ok x) :
    d.Gives sectionName key (fun raw y => Decimal.read? (trim raw.toList) = some y) default
      (x.getD default) := by
  unfold number? at h
  cases hraw : d.filled? sectionName key with
  | none =>
    rw [hraw] at h
    cases h
    exact (gives_iff_of_none hraw).mpr rfl
  | some raw =>
    rw [hraw] at h
    rw [gives_iff_of_some hraw]
    dsimp only at h
    split at h
    . next hread =>
      cases h
      exact hread
    . cases h

theorem gives_of_time? {t : Option Instant} (h : d.time? sectionName key = .ok t) :
    d.Gives sectionName key (fun raw t => ∃ u, Instant.read? raw.toList = some u ∧ t = some u) none
      t := by
  unfold time? at h
  cases hraw : d.filled? sectionName key with
  | none =>
    rw [hraw] at h
    cases h
    exact (gives_iff_of_none hraw).mpr rfl
  | some raw =>
    rw [hraw] at h
    rw [gives_iff_of_some hraw]
    dsimp only at h
    split at h
    . next t hread =>
      cases h
      exact ⟨t, hread, rfl⟩
    . cases h

theorem gives_of_integer {default : Int} (h : d.integer sectionName key default = .ok z) :
    d.Gives sectionName key (fun raw z => Decimal.IsInteger (trim raw.toList) z) default z := by
  unfold integer at h
  cases hraw : d.filled? sectionName key with
  | none =>
    rw [hraw] at h
    cases h
    exact (gives_iff_of_none hraw).mpr rfl
  | some raw =>
    rw [hraw] at h
    rw [gives_iff_of_some hraw]
    dsimp only at h
    split at h
    . next hread =>
      cases h
      exact Decimal.isInteger_of_readInteger hread
    . cases h

theorem integer_le {default : Int} (hdefault : default ≤ Decimal.maxInteger)
    (h : d.integer sectionName key default = .ok z) : z ≤ Decimal.maxInteger := by
  unfold integer at h
  split at h
  . cases h
    exact hdefault
  . split at h
    . next hread =>
      cases h
      exact (Decimal.readInteger_bounds hread).2
    . cases h

/-! ## Checks -/

theorem checkCapital_eq_ok_iff :
    d.checkCapital = .ok () ↔
      ∃ x, d.number? "backtest" "initial_capital" = .ok x ∧
        Arithmetic.isFinite (x.getD DeskSettings.defaultCapital) = true ∧
        ¬x.getD DeskSettings.defaultCapital ≤ 0 := by
  unfold checkCapital
  rw [bind_eq_ok_iff]
  refine exists_congr fun x => and_congr_right fun _ => ?_
  refine refuse_eq_ok_iff.trans ?_
  simp [pure, Except.pure]

theorem checkWindow_eq_ok_iff :
    d.checkWindow = .ok () ↔
      ∃ start stop, d.time? "backtest" "start" = .ok start ∧ d.time? "backtest" "end" = .ok stop ∧
        ∀ t u, start = some t → stop = some u → ¬u ≤ t := by
  unfold checkWindow
  simp only [bind_eq_ok_iff]
  refine exists_congr fun start => ?_
  rw [exists_and_left]
  refine and_congr_right fun _ => exists_congr fun stop => and_congr_right fun _ => ?_
  split
  . next t u =>
    refine refuse_eq_ok_iff.trans ?_
    simp [pure, Except.pure]
  . next hopen =>
    constructor
    . intro _ t u ht hu
      exact absurd hu (hopen t u ht)
    . intro _
      rfl

theorem integer_refuse_eq_ok_iff {default least : Int} {f : Failure} :
    (d.integer "live" key default >>= fun z => if z < least then .error f else .ok ()) = .ok () ↔
      ∃ z, d.integer "live" key default = .ok z ∧ least ≤ z := by
  rw [bind_eq_ok_iff]
  refine exists_congr fun z => and_congr_right fun _ => ?_
  rw [refuse_eq_ok_iff]
  simp

theorem checkPositive_eq_ok_iff {default : Int} :
    d.checkPositive key default = .ok () ↔ ∃ z, d.integer "live" key default = .ok z ∧ 1 ≤ z :=
  integer_refuse_eq_ok_iff

theorem checkNotNegative_eq_ok_iff {default : Int} :
    d.checkNotNegative key default = .ok () ↔
      ∃ z, d.integer "live" key default = .ok z ∧ 0 ≤ z :=
  integer_refuse_eq_ok_iff

theorem readDesk_eq_ok_iff :
    d.readDesk = .ok s ↔
      d.checkDesk = .ok () ∧
      (∃ x, d.number? "backtest" "initial_capital" = .ok x ∧
        s.capital = x.getD DeskSettings.defaultCapital) ∧
      d.time? "backtest" "start" = .ok s.start ∧
      d.time? "backtest" "end" = .ok s.stop ∧
      s.candleDirectory = (d.filled? "data" "csv_dir").getD DeskSettings.defaultDirectory ∧
      d.count "tick_interval_secs" DeskSettings.defaultTickInterval = .ok s.tickInterval ∧
      d.count "pair_timeout_ms" liveDefaults.pairTimeout = .ok s.live.pairTimeout ∧
      d.count "tick_deadline_ms" liveDefaults.tickDeadline = .ok s.live.tickDeadline ∧
      d.count "max_concurrency" liveDefaults.maxConcurrency = .ok s.live.maxConcurrency ∧
      d.count "warmup_buffer" liveDefaults.warmupBuffer = .ok s.live.warmupBuffer := by
  unfold readDesk
  rw [check_bind_eq_ok_iff]
  simp only [bind_eq_ok_iff]
  constructor
  . rintro ⟨hcheck, x, hx, start, hstart, stop, hstop, _, hinterval, _, hpair, _, htick, _,
      hconcurrency, _, hbuffer, ⟨⟩⟩
    exact ⟨hcheck, ⟨x, hx, rfl⟩, hstart, hstop, rfl, hinterval, hpair, htick, hconcurrency, hbuffer⟩
  . rintro ⟨hcheck, ⟨x, hx, hcapital⟩, hstart, hstop, hdirectory, hinterval, hpair, htick,
      hconcurrency, hbuffer⟩
    refine ⟨hcheck, x, hx, _, hstart, _, hstop, _, hinterval, _, hpair, _, htick, _, hconcurrency, _,
      hbuffer, ?_⟩
    rw [← hcapital, ← hdirectory]
    rfl

theorem checkDesk_eq_ok_iff :
    d.checkDesk = .ok () ↔
      d.checkCapital = .ok () ∧
      d.checkWindow = .ok () ∧
      d.checkPositive "tick_interval_secs" DeskSettings.defaultTickInterval = .ok () ∧
      d.checkPositive "pair_timeout_ms" liveDefaults.pairTimeout = .ok () ∧
      d.checkPositive "tick_deadline_ms" liveDefaults.tickDeadline = .ok () ∧
      d.checkPositive "max_concurrency" liveDefaults.maxConcurrency = .ok () ∧
      d.checkNotNegative "warmup_buffer" liveDefaults.warmupBuffer = .ok () := by
  unfold checkDesk
  simp only [check_bind_eq_ok_iff]

/-! ## Settings -/

def GivesCount (d : Document) (key : String) (default n : Nat) : Prop :=
  d.Gives "live" key (fun raw n => Decimal.IsInteger (trim raw.toList) n) default n

theorem exists_count {default : Nat} {least : Int} (hleast : 0 ≤ least)
    (hdefault : default ≤ Decimal.maxInteger)
    (h : ∃ z, d.integer "live" key default = .ok z ∧ least ≤ z) :
    ∃ n, d.count key default = .ok n ∧ least ≤ n ∧ d.GivesCount key default n := by
  obtain ⟨z, hz, hle⟩ := h
  have hcount := Count.ofInteger_eq (hleast.trans hle) (integer_le hdefault hz)
  have hgives := gives_of_integer hz
  refine ⟨Count.ofInteger z, ?_, ?_, ?_⟩
  . unfold count
    rw [hz]
    rfl
  . rwa [hcount]
  . unfold GivesCount
    cases hraw : d.filled? "live" key with
    | none =>
      rw [gives_iff_of_none hraw] at hgives ⊢
      omega
    | some raw =>
      rw [gives_iff_of_some hraw] at hgives ⊢
      rwa [hcount]

structure Settles (d : Document) (s : DeskSettings) : Prop where
  capital : d.Gives "backtest" "initial_capital"
    (fun raw x => Decimal.read? (trim raw.toList) = some x) DeskSettings.defaultCapital s.capital
  start : d.Gives "backtest" "start"
    (fun raw t => ∃ u, Instant.read? raw.toList = some u ∧ t = some u) none s.start
  stop : d.Gives "backtest" "end"
    (fun raw t => ∃ u, Instant.read? raw.toList = some u ∧ t = some u) none s.stop
  candleDirectory : d.Gives "data" "csv_dir" (fun raw directory => directory = raw)
    DeskSettings.defaultDirectory s.candleDirectory
  tickInterval : d.GivesCount "tick_interval_secs" DeskSettings.defaultTickInterval s.tickInterval
  pairTimeout : d.GivesCount "pair_timeout_ms" liveDefaults.pairTimeout s.live.pairTimeout
  tickDeadline : d.GivesCount "tick_deadline_ms" liveDefaults.tickDeadline s.live.tickDeadline
  maxConcurrency : d.GivesCount "max_concurrency" liveDefaults.maxConcurrency s.live.maxConcurrency
  warmupBuffer : d.GivesCount "warmup_buffer" liveDefaults.warmupBuffer s.live.warmupBuffer

theorem exists_readDesk (h : d.checkDesk = .ok ()) :
    ∃ s, d.readDesk = .ok s ∧ d.Settles s ∧ 1 ≤ s.tickInterval ∧ s.live.validate = .ok () ∧
      ∀ start stop, s.start = some start → s.stop = some stop →
        s.request = .ok { start, stop, capital := s.capital } := by
  have hcheck := h
  rw [checkDesk_eq_ok_iff, checkCapital_eq_ok_iff, checkWindow_eq_ok_iff] at h
  simp only [checkPositive_eq_ok_iff, checkNotNegative_eq_ok_iff] at h
  obtain ⟨⟨x, hx, hcapital⟩, ⟨start, stop, hstart, hstop, hwindow⟩, hinterval, hpair, htick,
    hconcurrency, hbuffer⟩ := h
  obtain ⟨interval, hinterval, hintervalLe, hintervalGives⟩ :=
    exists_count Int.one_nonneg (by decide) hinterval
  obtain ⟨pair, hpair, hpairLe, hpairGives⟩ := exists_count Int.one_nonneg (by decide) hpair
  obtain ⟨tick, htick, htickLe, htickGives⟩ := exists_count Int.one_nonneg (by decide) htick
  obtain ⟨concurrency, hconcurrency, hconcurrencyLe, hconcurrencyGives⟩ :=
    exists_count Int.one_nonneg (by decide) hconcurrency
  obtain ⟨buffer, hbuffer, _, hbufferGives⟩ := exists_count (le_refl 0) (by decide) hbuffer
  refine ⟨⟨x.getD DeskSettings.defaultCapital, start, stop,
    (d.filled? "data" "csv_dir").getD DeskSettings.defaultDirectory, interval,
    ⟨pair, tick, concurrency, buffer⟩⟩, ?_, ?_, ?_, ?_, ?_⟩
  . rw [readDesk_eq_ok_iff]
    exact ⟨hcheck, ⟨x, hx, rfl⟩, hstart, hstop, rfl, hinterval, hpair, htick, hconcurrency, hbuffer⟩
  . refine ⟨gives_of_number? hx, gives_of_time? hstart, gives_of_time? hstop, ?_, hintervalGives,
      hpairGives, htickGives, hconcurrencyGives, hbufferGives⟩
    cases hraw : d.filled? "data" "csv_dir" with
    | none => exact (gives_iff_of_none hraw).mpr rfl
    | some raw => exact (gives_iff_of_some hraw).mpr rfl
  . exact_mod_cast hintervalLe
  . rw [LiveSettings.validate_eq_ok_iff]
    exact ⟨by exact_mod_cast hpairLe, by exact_mod_cast htickLe, by exact_mod_cast hconcurrencyLe⟩
  . intro t u ht hu
    have hvalid : BacktestRequest.validate
        ⟨t, u, x.getD DeskSettings.defaultCapital⟩ = .ok () := by
      rw [BacktestRequest.validate_eq_ok_iff]
      exact ⟨hcapital, hwindow t u ht hu⟩
    unfold DeskSettings.request
    dsimp only at ht hu ⊢
    rw [ht, hu]
    dsimp only
    rw [hvalid]
    rfl

end Document
end Ini
end StrategyDesk
