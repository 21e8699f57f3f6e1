import StrategyDesk.Ini.StrategySettings
import StrategyDesk.Proofs.Ini.Desk

/-!
This module contains how the reading of a strategy can end whose settings are all there: in a
configuration that is admitted, in a text that cannot be parsed or a name that is not known, or in a
complaint about what the settings say. That a setting is missing has been said before.
-/

namespace StrategyDesk

open Text

variable {α : Type}

/-! ## Complaints -/

def Failure.IsInvalid (f : Failure) : Prop :=
  ∃ field reason, f = .invalid field reason

section Complaints

variable [Arithmetic α]

theorem Indicator.ends_validate (ind : Indicator α) :
    Ends Failure.IsInvalid (fun _ => True) ind.validate := by
  unfold validate
  split
  . exact .error ⟨_, _, rfl⟩
  . split
    . next failure hcomplaint =>
      cases ind <;> simp only [complaint?, Option.ite_none_right_eq_some, reduceCtorEq] at hcomplaint
      all_goals
        obtain ⟨_, hfailure⟩ := hcomplaint
        cases hfailure
        exact .error ⟨_, _, rfl⟩
    . exact .ok trivial

theorem KeyedIndicator.ends_validate (ki : KeyedIndicator α) :
    Ends Failure.IsInvalid (fun _ => True) ki.validate :=
  Ends.refuse ⟨_, _, rfl⟩ fun _ => Ends.refuse ⟨_, _, rfl⟩ fun _ => ki.indicator.ends_validate

theorem Rule.ends_validate (r : Rule α) : Ends Failure.IsInvalid (fun _ => True) r.validate :=
  Ends.refuse ⟨_, _, rfl⟩ fun _ => Ends.refuse ⟨_, _, rfl⟩ fun _ => .ok trivial

theorem RuleSet.ends_validate (rs : RuleSet α) :
    Ends Failure.IsInvalid (fun _ => True) rs.validate :=
  Ends.refuse ⟨_, _, rfl⟩ fun _ => Ends.forM fun r _ => r.ends_validate

theorem Risk.ends_checkPercent (field : String) (value : α) (max : Nat) :
    Ends Failure.IsInvalid (fun _ => True) (checkPercent field value max) := by
  unfold checkPercent
  split
  . exact .ok trivial
  . exact .error ⟨_, _, rfl⟩

theorem Risk.ends_checkPercents (field : String) (value? : Option α) (max : Nat) :
    Ends Failure.IsInvalid (fun _ => True)
      (value?.forM fun percent => checkPercent field percent max) := by
  cases value? with
  | none => exact .ok trivial
  | some value => exact ends_checkPercent field value max

theorem Risk.ends_validate (risk : Risk α) :
    Ends Failure.IsInvalid (fun _ => True) risk.validate := by
  refine (ends_checkPercent ..).bind fun _ _ => ?_
  refine (ends_checkPercent ..).bind fun _ _ => ?_
  refine (ends_checkPercents ..).bind fun _ _ => ?_
  apply ends_checkPercents

namespace Config

theorem ends_checkSymbols (seen symbols : List String) :
    Ends Failure.IsInvalid (fun _ => True) (checkSymbols seen symbols) := by
  induction symbols generalizing seen with
  | nil => exact .ok trivial
  | cons symbol rest ih =>
    exact Ends.refuse ⟨_, _, rfl⟩ fun _ => Ends.refuse ⟨_, _, rfl⟩ fun _ => ih _

theorem ends_checkIndicators (seen : List String) (kis : List (KeyedIndicator α)) :
    Ends Failure.IsInvalid (fun _ => True) (checkIndicators seen kis) := by
  induction kis generalizing seen with
  | nil => exact .ok trivial
  | cons ki rest ih =>
    refine ki.ends_validate.bind fun _ _ => ?_
    exact Ends.refuse ⟨_, _, rfl⟩ fun _ => ih _

theorem ends_validate (cfg : Config α) : Ends Failure.IsInvalid (fun _ => True) cfg.validate := by
  refine Ends.refuse ⟨_, _, rfl⟩ fun _ => ?_
  refine Ends.refuse ⟨_, _, rfl⟩ fun _ => ?_
  refine (ends_checkSymbols ..).bind fun _ _ => ?_
  refine (ends_checkIndicators ..).bind fun _ _ => ?_
  refine cfg.rules.ends_validate.bind fun _ _ => ?_
  exact cfg.risk.ends_validate

end Config
end Complaints

inductive Failure.IsSemantic : Failure → Prop where
  | ruleParse (e : ParseError) : IsSemantic (.ruleParse e)
  | kind (reason : String) : IsSemantic (.configInvalid "strategy" "type" reason)
  | timeframe (reason : String) : IsSemantic (.configInvalid "strategy" "timeframe" reason)
  | invalid (field reason : String) : IsSemantic (.invalid field reason)

theorem Failure.IsInvalid.isSemantic {f : Failure} (h : f.IsInvalid) : f.IsSemantic := by
  obtain ⟨field, reason, rfl⟩ := h
  exact .invalid field reason

namespace Ini

def Refusal.IsSemantic (r : Refusal) : Prop :=
  r.failure.IsSemantic

namespace Document

variable {d : Document} {sectionName : String} {keys : List String}

/-! ## Checks -/

theorem discard_eq_ok_iff {β : Type} {x : Except Failure β} :
    discard x = .ok () ↔ ∃ a, x = .ok a := by
  cases x with
  | error e => exact ⟨nofun, nofun⟩
  | ok a => exact ⟨fun _ => ⟨a, rfl⟩, fun _ => rfl⟩

theorem checkTexts_eq_ok_iff :
    d.checkTexts sectionName keys = .ok () ↔
      ∀ key ∈ keys, ∃ raw, d.text sectionName key = .ok raw := by
  induction keys with
  | nil => simp [checkTexts]
  | cons key rest ih =>
    unfold checkTexts
    rw [check_bind_eq_ok_iff, discard_eq_ok_iff, ih, List.forall_mem_cons]

theorem texts_of_checkIndicators (h : d.checkIndicators = .ok ()) :
    ∀ key ∈ d.keys "indicators", ∃ raw, d.text "indicators" key = .ok raw := by
  unfold checkIndicators at h
  split at h
  . cases h
  . exact checkTexts_eq_ok_iff.mp h

/-! ## Readers -/

theorem ends_plainly_of_eq_ok {β : Type} {x : Except Failure β} {a : β} (h : x = .ok a) :
    Ends Refusal.IsSemantic (· = a) (plainly x) :=
  (Ends.of_eq_ok h).mapError fun _ => False.elim

theorem ends_parsed {β : Type} (what raw : String) (x : Except ParseError β) :
    Ends Refusal.IsSemantic (fun _ => True) (parsed what raw x) := by
  cases x with
  | error e => exact .error (.ruleParse e)
  | ok a => exact .ok trivial

theorem ends_named {β : Type} {key : String} (read : String → Except Failure β) (default : β)
    (hkey : ∀ reason, Failure.IsSemantic (.configInvalid "strategy" key reason)) :
    Ends Refusal.IsSemantic (fun _ => True) (d.named key read default) := by
  unfold named
  split
  . exact .ok trivial
  . next raw _ =>
    cases read raw with
    | error e => exact .error (hkey e.message)
    | ok a => exact .ok trivial

theorem ends_readIndicators
    (h : ∀ key ∈ keys, ∃ raw, d.text "indicators" key = .ok raw) :
    Ends Refusal.IsSemantic (fun _ => True) (d.readIndicators keys) := by
  induction keys with
  | nil => exact .ok trivial
  | cons key rest ih =>
    rw [List.forall_mem_cons] at h
    obtain ⟨⟨raw, hraw⟩, hrest⟩ := h
    refine (ends_plainly_of_eq_ok hraw).bind fun _ _ => ?_
    refine (ends_parsed ..).bind fun _ _ => ?_
    refine (ih hrest).bind fun _ _ => ?_
    exact .ok trivial

theorem ends_readExitRules :
    Ends Refusal.IsSemantic (fun _ => True) d.readExitRules := by
  unfold readExitRules
  split
  . exact .ok trivial
  . apply ends_parsed

theorem ends_admitted (cfg : Config Float) :
    Ends Refusal.IsSemantic (fun cfg => cfg.validate = .ok ())
      (do plainly cfg.validate; return cfg) := by
  have hinvalid := cfg.ends_validate
  cases hvalid : cfg.validate with
  | ok _ => exact .ok hvalid
  | error failure =>
    rw [hvalid] at hinvalid
    cases hinvalid with
    | error h => exact .error h.isSemantic

theorem ends_readStrategy (h : d.checkStrategy = .ok ()) :
    Ends Refusal.IsSemantic (fun cfg => cfg.validate = .ok ()) d.readStrategy := by
  have hcheck := h
  unfold checkStrategy at h
  simp only [check_bind_eq_ok_iff, discard_eq_ok_iff, checkTexts_eq_ok_iff, List.forall_mem_cons] at h
  obtain ⟨⟨⟨_, hname⟩, ⟨_, hsymbols⟩, ⟨_, hentry⟩, _⟩, ⟨_, hposition⟩, ⟨_, hdrawdown⟩,
    ⟨_, hstopLoss⟩, ⟨_, htakeProfit⟩, hindicators⟩ := h
  unfold readStrategy
  refine (ends_plainly_of_eq_ok hcheck).bind fun _ _ => ?_
  refine (ends_readIndicators (texts_of_checkIndicators hindicators)).bind fun _ _ => ?_
  refine (ends_plainly_of_eq_ok hentry).bind fun _ _ => ?_
  refine (ends_parsed ..).bind fun _ _ => ?_
  refine ends_readExitRules.bind fun _ _ => ?_
  refine (ends_plainly_of_eq_ok hname).bind fun _ _ => ?_
  refine (ends_named _ _ .kind).bind fun _ _ => ?_
  refine (ends_plainly_of_eq_ok hsymbols).bind fun _ _ => ?_
  refine (ends_named _ _ .timeframe).bind fun _ _ => ?_
  refine (ends_plainly_of_eq_ok hposition).bind fun _ _ => ?_
  refine (ends_plainly_of_eq_ok hdrawdown).bind fun _ _ => ?_
  refine (ends_plainly_of_eq_ok hstopLoss).bind fun _ _ => ?_
  refine (ends_plainly_of_eq_ok htakeProfit).bind fun _ _ => ?_
  apply ends_admitted

/--
What is checked in advance covers what is read. The settings of the desk are read exactly if they
pass, are what stands in the file, and are accepted by the live runs and, if it has a window, by the
backtest. A strategy whose settings pass is read and admitted, or says what it is refused for.
-/
theorem reads_of_checks (d : Document) :
    ((∃ s, d.readDesk = .ok s) ↔ d.checkDesk = .ok ()) ∧
    (∀ s, d.readDesk = .ok s →
      d.Settles s ∧ s.live.validate = .ok () ∧ 1 ≤ s.tickInterval ∧
      ∀ rawStart rawStop, d.filled? "backtest" "start" = some rawStart →
        d.filled? "backtest" "end" = some rawStop →
          ∃ start stop, Instant.read? rawStart.toList = some start ∧
            Instant.read? rawStop.toList = some stop ∧
            s.request = .ok { start, stop, capital := s.capital }) ∧
    (d.checkStrategy = .ok () →
      Ends Refusal.IsSemantic (fun cfg => cfg.validate = .ok ()) d.readStrategy) := by
  refine ⟨⟨?_, ?_⟩, ?_, ends_readStrategy⟩
  . rintro ⟨s, hs⟩
    exact (readDesk_eq_ok_iff.mp hs).1
  . intro hcheck
    obtain ⟨s, hs, _⟩ := exists_readDesk hcheck
    exact ⟨s, hs⟩
  . intro s hs
    obtain ⟨s', hs', hsettles, hinterval, hlive, hrequest⟩ :=
      exists_readDesk (readDesk_eq_ok_iff.mp hs).1
    obtain rfl := Except.ok.inj (hs.symm.trans hs')
    refine ⟨hsettles, hlive, hinterval, ?_⟩
    intro rawStart rawStop hrawStart hrawStop
    obtain ⟨start, hreadStart, hstart⟩ := (gives_iff_of_some hrawStart).mp hsettles.start
    obtain ⟨stop, hreadStop, hstop⟩ := (gives_iff_of_some hrawStop).mp hsettles.stop
    exact ⟨start, stop, hreadStart, hreadStop, hrequest start stop hstart hstop⟩

def sample : Document where
  entries := [
    { sectionName := "backtest", key := "start", value := some "2024-01-01" },
    { sectionName := "backtest", key := "end", value := some "2024-06-01T12:00:00Z" },
    { sectionName := "backtest", key := "initial_capital", value := some "2500.5" },
    { sectionName := "live", key := "tick_interval_secs", value := some "+90" },
    { sectionName := "live", key := "warmup_buffer", value := some "-0" },
    { sectionName := "strategy", key := "name", value := some "Breakout" },
    { sectionName := "strategy", key := "symbols", value := some "BTC" },
    { sectionName := "strategy", key := "entry_rules", value := some "rsi < 30" },
    { sectionName := "strategy", key := "position_size", value := some "10" },
    { sectionName := "strategy", key := "max_drawdown", value := some "25" },
    { sectionName := "indicators", key := "rsi", value := some "RSI(14)" }]

theorem reads_of_checks_sample :
    ∃ s cfg, sample.readDesk = .ok s ∧ s.tickInterval = 90 ∧ s.live.validate = .ok () ∧
      (∃ start stop, s.request = .ok { start, stop, capital := s.capital }) ∧
      sample.checkStrategy = .ok () ∧ sample.readStrategy = .ok cfg ∧ cfg.validate = .ok () := by
  have hdesk : sample.readDesk.toOption.map (·.tickInterval) = some 90 := by
    rfl
  have hcheck : sample.checkStrategy.toOption.map (fun _ => ()) = some () := by
    decide +kernel
  have hstrategy : sample.readStrategy.toOption.map (fun _ => ()) = some () := by
    decide +kernel
  obtain ⟨s, hs, hinterval⟩ := exists_ok_of_toOption hdesk
  obtain ⟨_, hcheck, _⟩ := exists_ok_of_toOption hcheck
  obtain ⟨cfg, hcfg, _⟩ := exists_ok_of_toOption hstrategy
  obtain ⟨_, hsettings, hends⟩ := reads_of_checks sample
  obtain ⟨_, hlive, _, hrequest⟩ := hsettings s hs
  obtain ⟨start, stop, _, _, hrequest⟩ := hrequest "2024-01-01" "2024-06-01T12:00:00Z"
    rfl rfl
  have hvalid := hends hcheck
  rw [hcfg] at hvalid
  cases hvalid with
  | ok hvalid =>
    exact ⟨s, cfg, hs, hinterval, hlive, ⟨start, stop, hrequest⟩, hcheck, hcfg, hvalid⟩

end Document
end Ini
end StrategyDesk
