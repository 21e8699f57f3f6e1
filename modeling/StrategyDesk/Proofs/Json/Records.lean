import StrategyDesk.Json.Strategy
import StrategyDesk.Proofs.Json.Lossless

/-!
This module contains that the forms of configurations, results, events and signals lose nothing. What
is asked of a record to be written is asked of the numbers and times in it.
-/

namespace StrategyDesk

open Json JsonForm LosslessForm

/-! ## Configurations -/

instance : LosslessForm Comparison := .ofNames Comparison.ofSymbol?_symbol

instance : LosslessForm StrategyKind := .ofNames StrategyKind.ofName?_name

instance : LosslessForm Timeframe := .ofNames Timeframe.ofName?_name

instance : LosslessForm (Rule Float) where
  Writable r := Writable r.value
  ofJson?_toJson h _ := by
    apply bind_fields?_record
    . simp [member]
    . intro fs hshow
      simp only [Option.bind_eq_bind, Option.bind_eq_some_iff]
      exact ⟨_, hshow.required (by simp) trivial, _, hshow.required (by simp) trivial, _,
        hshow.required (by simp) h, rfl⟩
  writable_of_ofJson? hj h := by
    obtain ⟨fs, hfs, h⟩ := exists_fields hj h
    simp only [Option.bind_eq_bind, Option.bind_eq_some_iff] at h
    obtain ⟨_, _, _, _, _, hvalue, ⟨⟩⟩ := h
    exact hfs.required hvalue
  ofJson?_null _ := rfl

instance : LosslessForm (RuleSet Float) where
  Writable rs := Writable rs.entry ∧ Writable rs.exit
  ofJson?_toJson h _ := by
    apply bind_fields?_record
    . simp [member]
    . intro fs hshow
      simp only [Option.bind_eq_bind, Option.bind_eq_some_iff]
      exact ⟨_, hshow.required (by simp) h.1, _, hshow.required (by simp) h.2, rfl⟩
  writable_of_ofJson? hj h := by
    obtain ⟨fs, hfs, h⟩ := exists_fields hj h
    simp only [Option.bind_eq_bind, Option.bind_eq_some_iff] at h
    obtain ⟨_, hentry, _, hexit, ⟨⟩⟩ := h
    exact ⟨hfs.required hentry, hfs.required hexit⟩
  ofJson?_null _ := rfl

namespace Indicator

def IsWritable : Indicator Float → Prop
  | .sma period | .ema period | .rsi period | .atr period => Writable period
  | .macd fast slow signal => Writable fast ∧ Writable slow ∧ Writable signal
  | .bollinger period k => Writable period ∧ Writable k
  | .stochastic kPeriod dPeriod => Writable kPeriod ∧ Writable dPeriod
  | .vwap => True

variable {ind : Indicator Float} {fs : Fields}

theorem exists_ofKind?_of_show (hshow : fs.Show ind.members) (h : ind.IsWritable) :
    ∃ kind, fs.values.lookup "kind" = some (.string kind) ∧ ofKind? kind fs = some ind := by
  have hkind : ∀ kind, member "kind" kind ∈ ind.members →
      fs.values.lookup "kind" = some (.string kind) :=
    fun kind hmem => hshow _ _ hmem
  cases ind with
  | sma period | ema period | rsi period | atr period =>
    refine ⟨_, hkind _ (.head _), ?_⟩
    simp only [ofKind?, Option.bind_eq_bind, Option.bind_eq_some_iff]
    exact ⟨_, hshow.required (by simp [members]) h, rfl⟩
  | macd fast slow signal =>
    obtain ⟨hfast, hslow, hsignal⟩ := h
    refine ⟨_, hkind _ (.head _), ?_⟩
    simp only [ofKind?, Option.bind_eq_bind, Option.bind_eq_some_iff]
    exact ⟨_, hshow.required (by simp [members]) hfast, _, hshow.required (by simp [members]) hslow, _,
      hshow.required (by simp [members]) hsignal, rfl⟩
  | bollinger period k =>
    obtain ⟨hperiod, hk⟩ := h
    refine ⟨_, hkind _ (.head _), ?_⟩
    simp only [ofKind?, Option.bind_eq_bind, Option.bind_eq_some_iff]
    exact ⟨_, hshow.required (by simp [members]) hperiod, _, hshow.required (by simp [members]) hk, rfl⟩
  | stochastic kPeriod dPeriod =>
    obtain ⟨hkPeriod, hdPeriod⟩ := h
    refine ⟨_, hkind _ (.head _), ?_⟩
    simp only [ofKind?, Option.bind_eq_bind, Option.bind_eq_some_iff]
    exact ⟨_, hshow.required (by simp [members]) hkPeriod, _,
      hshow.required (by simp [members]) hdPeriod, rfl⟩
  | vwap => exact ⟨_, hkind _ (.head _), rfl⟩

theorem ofFields?_of_show (hshow : fs.Show ind.members) (h : ind.IsWritable) :
    ofFields? fs = some ind := by
  obtain ⟨kind, hkind, hind⟩ := exists_ofKind?_of_show hshow h
  unfold ofFields?
  rw [hkind]
  exact hind

theorem nodup_members (ind : Indicator Float) : (ind.members.map Prod.fst).Nodup := by
  cases ind <;> simp [members, member]

theorem isWritable_of_ofKind? {kind : String} (hfs : fs.IsProper) (h : ofKind? kind fs = some ind) :
    ind.IsWritable := by
  unfold ofKind? at h
  simp only [Option.bind_eq_bind] at h
  split at h
  . obtain ⟨_, hperiod, ⟨⟩⟩ := Option.bind_eq_some_iff.mp h
    exact hfs.required hperiod
  . obtain ⟨_, hperiod, ⟨⟩⟩ := Option.bind_eq_some_iff.mp h
    exact hfs.required hperiod
  . obtain ⟨_, hperiod, ⟨⟩⟩ := Option.bind_eq_some_iff.mp h
    exact hfs.required hperiod
  . simp only [Option.bind_eq_some_iff] at h
    obtain ⟨_, hfast, _, hslow, _, hsignal, ⟨⟩⟩ := h
    exact ⟨hfs.required hfast, hfs.required hslow, hfs.required hsignal⟩
  . simp only [Option.bind_eq_some_iff] at h
    obtain ⟨_, hperiod, _, hk, ⟨⟩⟩ := h
    exact ⟨hfs.required hperiod, hfs.required hk⟩
  . simp only [Option.bind_eq_some_iff] at h
    obtain ⟨_, hkPeriod, _, hdPeriod, ⟨⟩⟩ := h
    exact ⟨hfs.required hkPeriod, hfs.required hdPeriod⟩
  . obtain ⟨_, hperiod, ⟨⟩⟩ := Option.bind_eq_some_iff.mp h
    exact hfs.required hperiod
  . cases h
    trivial
  . cases h

theorem isWritable_of_ofFields? (hfs : fs.IsProper) (h : ofFields? fs = some ind) :
    ind.IsWritable := by
  obtain ⟨_, _, h⟩ := Option.bind_eq_some_iff.mp h
  obtain ⟨_, _, h⟩ := Option.bind_eq_some_iff.mp h
  exact isWritable_of_ofKind? hfs h

end Indicator

instance : LosslessForm (Indicator Float) where
  Writable := Indicator.IsWritable
  ofJson?_toJson {ind} h void := by
    have hshow : Fields.Show ⟨written ind.members, void⟩ ind.members :=
      Fields.show_written ind.nodup_members
    obtain ⟨kind, hkind, hind⟩ := Indicator.exists_ofKind?_of_show hshow h
    show Option.bind ((Json.object (written ind.members)).tagged? "kind") _ = _
    rw [tagged?_object hkind]
    exact hind
  writable_of_ofJson? hj h := by
    obtain ⟨⟨kind, content⟩, htagged, h⟩ := Option.bind_eq_some_iff.mp h
    obtain ⟨fs, hfs, h⟩ := exists_fields (isProper_of_tagged? hj htagged) h
    exact Indicator.isWritable_of_ofKind? hfs h
  ofJson?_null _ := rfl

instance : LosslessForm (KeyedIndicator Float) where
  Writable ki := ki.indicator.IsWritable
  ofJson?_toJson {ki} h void := by
    have hkey : "key" ∉ ki.indicator.members.map Prod.fst := by
      cases ki.indicator <;> simp [Indicator.members, member]
    have hnames := List.nodup_cons.mpr ⟨hkey, ki.indicator.nodup_members⟩
    have hshow : Fields.Show ⟨_, void⟩ (member "key" ki.key :: ki.indicator.members) :=
      Fields.show_written hnames
    have hindicator := hshow.mono (List.subset_cons_self _ _)
    show Option.bind _ _ = _
    simp only [Option.bind_eq_bind, Option.bind_eq_some_iff]
    exact ⟨_, hshow.required (by simp) trivial, _, Indicator.ofFields?_of_show hindicator h, rfl⟩
  writable_of_ofJson? {void j ki} hj h := by
    cases hj with
    | object hmembers =>
      simp only [ofJson?, Option.bind_eq_bind, Option.bind_eq_some_iff] at h
      obtain ⟨_, _, _, hindicator, ⟨⟩⟩ := h
      have hfs : Fields.IsProper ⟨_, void⟩ := hmembers
      exact Indicator.isWritable_of_ofFields? hfs hindicator
    | _ => cases h
  ofJson?_null _ := rfl

structure Risk.IsWritable (r : Risk Float) : Prop where
  positionSize : Writable r.positionSize
  maxDrawdown : Writable r.maxDrawdown
  stopLoss : ∀ x ∈ r.stopLoss, Writable x
  takeProfit : ∀ x ∈ r.takeProfit, Writable x

instance : LosslessForm (Risk Float) where
  Writable := Risk.IsWritable
  ofJson?_toJson h _ := by
    apply bind_fields?_record
    . simp [member, memberIf]
    . intro fs hshow
      simp only [Option.bind_eq_bind, Option.bind_eq_some_iff]
      exact ⟨_, hshow.required (by simp) h.positionSize, _, hshow.required (by simp) h.maxDrawdown, _,
        hshow.optional (by simp) h.stopLoss, _, hshow.optional (by simp) h.takeProfit, rfl⟩
  writable_of_ofJson? hj h := by
    obtain ⟨fs, hfs, h⟩ := exists_fields hj h
    simp only [Option.bind_eq_bind, Option.bind_eq_some_iff] at h
    obtain ⟨_, hpositionSize, _, hmaxDrawdown, _, hstopLoss, _, htakeProfit, ⟨⟩⟩ := h
    exact ⟨hfs.required hpositionSize, hfs.required hmaxDrawdown, hfs.optional hstopLoss,
      hfs.optional htakeProfit⟩
  ofJson?_null _ := rfl

namespace Config

structure IsWritable (cfg : Config Float) : Prop where
  indicators : Writable cfg.indicators
  rules : Writable cfg.rules
  risk : Writable cfg.risk

variable {cfg : Config Float} {fs : Fields}

theorem ofFields?_of_show (hshow : fs.Show cfg.members) (h : cfg.IsWritable) :
    ofFields? fs = some cfg := by
  unfold ofFields?
  simp only [Option.bind_eq_bind, Option.bind_eq_some_iff]
  exact ⟨_, hshow.required (by simp [members]) trivial, _,
    hshow.optional (by simp [members]) (fun _ _ => trivial), _,
    hshow.required (by simp [members]) trivial, _,
    hshow.required (by simp [members]) (fun _ _ => trivial), _,
    hshow.required (by simp [members]) trivial, _,
    hshow.required (by simp [members]) h.indicators, _,
    hshow.required (by simp [members]) h.rules, _,
    hshow.required (by simp [members]) h.risk, rfl⟩

theorem isWritable_of_ofFields? (hfs : fs.IsProper) (h : ofFields? fs = some cfg) :
    cfg.IsWritable := by
  unfold ofFields? at h
  simp only [Option.bind_eq_bind, Option.bind_eq_some_iff] at h
  obtain ⟨_, _, _, _, _, _, _, _, _, _, _, hindicators, _, hrules, _, hrisk, ⟨⟩⟩ := h
  exact ⟨hfs.required hindicators, hfs.required hrules, hfs.required hrisk⟩

theorem nodup_members (cfg : Config Float) : (cfg.members.map Prod.fst).Nodup := by
  simp [members, member, memberIf]

end Config

instance : LosslessForm (Config Float) where
  Writable := Config.IsWritable
  ofJson?_toJson {cfg} h _ :=
    bind_fields?_record cfg.nodup_members fun _ hshow => Config.ofFields?_of_show hshow h
  writable_of_ofJson? hj h := by
    obtain ⟨fs, hfs, h⟩ := exists_fields hj h
    exact Config.isWritable_of_ofFields? hfs h
  ofJson?_null _ := rfl

/-! ## Results and signals -/

instance : LosslessForm ExitReason := .ofNames ExitReason.ofName?_name

structure Trade.IsWritable (t : Trade Float) : Prop where
  entryPrice : Writable t.entryPrice
  exitPrice : Writable t.exitPrice
  quantity : Writable t.quantity
  profit : Writable t.profit
  profitPercent : Writable t.profitPercent
  entryTime : Writable t.entryTime
  exitTime : Writable t.exitTime

instance : LosslessForm (Trade Float) where
  Writable := Trade.IsWritable
  ofJson?_toJson h _ := by
    apply bind_fields?_record
    . simp [member]
    . intro fs hshow
      simp only [Option.bind_eq_bind, Option.bind_eq_some_iff]
      exact ⟨_, hshow.required (by simp) trivial, _, hshow.required (by simp) h.entryPrice, _,
        hshow.required (by simp) h.exitPrice, _, hshow.required (by simp) h.quantity, _,
        hshow.required (by simp) h.profit, _, hshow.required (by simp) h.profitPercent, _,
        hshow.required (by simp) h.entryTime, _, hshow.required (by simp) h.exitTime, _,
        hshow.required (by simp) trivial, rfl⟩
  writable_of_ofJson? hj h := by
    obtain ⟨fs, hfs, h⟩ := exists_fields hj h
    simp only [Option.bind_eq_bind, Option.bind_eq_some_iff] at h
    obtain ⟨_, _, _, hentryPrice, _, hexitPrice, _, hquantity, _, hprofit, _, hprofitPercent, _,
      hentryTime, _, hexitTime, _, _, ⟨⟩⟩ := h
    exact ⟨hfs.required hentryPrice, hfs.required hexitPrice, hfs.required hquantity,
      hfs.required hprofit, hfs.required hprofitPercent, hfs.required hentryTime,
      hfs.required hexitTime⟩
  ofJson?_null _ := rfl

structure BacktestResult.IsWritable (r : BacktestResult Float) : Prop where
  initialCapital : Writable r.initialCapital
  finalCapital : Writable r.finalCapital
  totalTrades : Writable r.totalTrades
  winningTrades : Writable r.winningTrades
  losingTrades : Writable r.losingTrades
  winRate : Writable r.winRate
  profitability : Writable r.profitability
  maxDrawdown : Writable r.maxDrawdown
  trades : Writable r.trades

instance : LosslessForm (BacktestResult Float) where
  Writable := BacktestResult.IsWritable
  ofJson?_toJson h _ := by
    apply bind_fields?_record
    . simp [member, memberIf]
    . intro fs hshow
      simp only [Option.bind_eq_bind, Option.bind_eq_some_iff]
      exact ⟨_, hshow.required (by simp) h.initialCapital, _, hshow.required (by simp) h.finalCapital, _,
        hshow.required (by simp) h.totalTrades, _, hshow.required (by simp) h.winningTrades, _,
        hshow.required (by simp) h.losingTrades, _, hshow.required (by simp) h.winRate, _,
        hshow.required (by simp) h.profitability, _, hshow.required (by simp) h.maxDrawdown, _,
        hshow.required (by simp) h.trades, _, hshow.optional (by simp) (fun _ _ => trivial), rfl⟩
  writable_of_ofJson? hj h := by
    obtain ⟨fs, hfs, h⟩ := exists_fields hj h
    simp only [Option.bind_eq_bind, Option.bind_eq_some_iff] at h
    obtain ⟨_, hinitialCapital, _, hfinalCapital, _, htotalTrades, _, hwinningTrades, _, hlosingTrades, _,
      hwinRate, _, hprofitability, _, hmaxDrawdown, _, htrades, _, _, ⟨⟩⟩ := h
    exact ⟨hfs.required hinitialCapital, hfs.required hfinalCapital, hfs.required htotalTrades,
      hfs.required hwinningTrades, hfs.required hlosingTrades, hfs.required hwinRate,
      hfs.required hprofitability, hfs.required hmaxDrawdown, hfs.required htrades⟩
  ofJson?_null _ := rfl

structure Sizing.IsWritable (s : Sizing Float) : Prop where
  positionSize : Writable s.positionSize
  referencePrice : Writable s.referencePrice
  stopLoss : ∀ x ∈ s.stopLoss, Writable x
  takeProfit : ∀ x ∈ s.takeProfit, Writable x

instance : LosslessForm (Sizing Float) where
  Writable := Sizing.IsWritable
  ofJson?_toJson h _ := by
    apply bind_fields?_record
    . simp [member, memberIf]
    . intro fs hshow
      simp only [Option.bind_eq_bind, Option.bind_eq_some_iff]
      exact ⟨_, hshow.required (by simp) h.positionSize, _, hshow.required (by simp) h.referencePrice, _,
        hshow.optional (by simp) h.stopLoss, _, hshow.optional (by simp) h.takeProfit, rfl⟩
  writable_of_ofJson? hj h := by
    obtain ⟨fs, hfs, h⟩ := exists_fields hj h
    simp only [Option.bind_eq_bind, Option.bind_eq_some_iff] at h
    obtain ⟨_, hpositionSize, _, hreferencePrice, _, hstopLoss, _, htakeProfit, ⟨⟩⟩ := h
    exact ⟨hfs.required hpositionSize, hfs.required hreferencePrice, hfs.optional hstopLoss,
      hfs.optional htakeProfit⟩
  ofJson?_null _ := rfl

instance : LosslessForm Unit := .ofNames fun _ => if_pos rfl

instance : LosslessForm (Signal Float) where
  Writable s := Writable s.sizing ∧ Writable s.generatedAt
  ofJson?_toJson h _ := by
    apply bind_fields?_record
    . simp [member]
    . intro fs hshow
      simp only [Option.bind_eq_bind, Option.bind_eq_some_iff]
      exact ⟨(), hshow.required (by simp) trivial, _, hshow.required (by simp) trivial, _,
        hshow.required (by simp) trivial, _, hshow.required (by simp) h.1, _,
        hshow.required (by simp) h.2, rfl⟩
  writable_of_ofJson? hj h := by
    obtain ⟨fs, hfs, h⟩ := exists_fields hj h
    simp only [Option.bind_eq_bind, Option.bind_eq_some_iff] at h
    obtain ⟨_, _, _, _, _, _, _, hsizing, _, hgeneratedAt, ⟨⟩⟩ := h
    exact ⟨hfs.required hsizing, hfs.required hgeneratedAt⟩
  ofJson?_null _ := rfl

/-! ## Events -/

instance : LosslessForm Status := .ofNames Status.ofName?_name

namespace Change

def IsWritable : Change → Prop
  | .backtestCompleted _ totalTrades profitability => Writable totalTrades ∧ Writable profitability
  | _ => True

variable {change : Change} {kind : String} {fs : Fields}

theorem ofFields?_of_show (hshow : fs.Show change.members) (h : change.IsWritable) :
    ofFields? change.name fs = some change := by
  cases change with
  | created ownerId =>
    simp only [ofFields?, name, Option.bind_eq_bind, Option.bind_eq_some_iff]
    exact ⟨_, hshow.required (by simp [members]) trivial, rfl⟩
  | backtestCompleted passed totalTrades profitability =>
    simp only [ofFields?, name, Option.bind_eq_bind, Option.bind_eq_some_iff]
    exact ⟨_, hshow.required (by simp [members]) trivial, _, hshow.required (by simp [members]) h.1, _,
      hshow.required (by simp [members]) h.2, rfl⟩
  | backtestFailed reason =>
    simp only [ofFields?, name, Option.bind_eq_bind, Option.bind_eq_some_iff]
    exact ⟨_, hshow.required (by simp [members]) trivial, rfl⟩
  | configurationUpdated stale =>
    simp only [ofFields?, name, Option.bind_eq_bind, Option.bind_eq_some_iff]
    exact ⟨_, hshow.required (by simp [members]) trivial, rfl⟩
  | _ => rfl

theorem isWritable_of_ofFields? (hfs : fs.IsProper) (h : ofFields? kind fs = some change) :
    change.IsWritable := by
  unfold ofFields? at h
  simp only [Option.bind_eq_bind] at h
  split at h
  . obtain ⟨_, _, ⟨⟩⟩ := Option.bind_eq_some_iff.mp h
    trivial
  . cases h
    trivial
  . simp only [Option.bind_eq_some_iff] at h
    obtain ⟨_, _, _, htotalTrades, _, hprofitability, ⟨⟩⟩ := h
    exact ⟨hfs.required htotalTrades, hfs.required hprofitability⟩
  . obtain ⟨_, _, ⟨⟩⟩ := Option.bind_eq_some_iff.mp h
    trivial
  . cases h
    trivial
  . cases h
    trivial
  . cases h
    trivial
  . obtain ⟨_, _, ⟨⟩⟩ := Option.bind_eq_some_iff.mp h
    trivial
  . cases h

end Change

namespace Event

def members (e : Event) : List (String × Option Json) :=
  member "event" e.change.name :: member "strategy_id" e.strategyId :: e.change.members ++
    [member "at" e.time]

def ofContent? (void : NoContent) (kind : String) (content : Json) : Option Event :=
  (content.fields? ("strategy_id" :: Change.memberNames kind ++ ["at"]) void).bind fun fs => do
    return {
      strategyId := ← fs.required "strategy_id"
      change := ← Change.ofFields? kind fs
      time := ← fs.required "at" }

variable {e : Event} {void : NoContent} {kind : String}

theorem ofJson?_eq_bind (j : Json) :
    ofJson? void j = (j.tagged? "event").bind fun (kind, content) => ofContent? void kind content :=
  rfl

end Event

instance : LosslessForm Event where
  Writable e := e.change.IsWritable ∧ Writable e.time
  ofJson?_toJson {e} h void := by
    have hnames : (e.members.map Prod.fst).Nodup := by
      unfold Event.members
      cases e.change <;> simp [Change.members, member]
    have hshow : Fields.Show ⟨written e.members, void⟩ e.members := Fields.show_written hnames
    have hkind : (written e.members).lookup "event" = some (.string e.change.name) :=
      hshow _ _ (.head _)
    show ofJson? void (.object (written e.members)) = _
    rw [Event.ofJson?_eq_bind, tagged?_object hkind, Option.bind_some]
    apply bind_fields?_record hnames
    intro fs hshow
    have hchange : fs.Show e.change.members :=
      hshow.mono fun m hmem => by simp [Event.members, hmem]
    simp only [Option.bind_eq_bind, Option.bind_eq_some_iff]
    exact ⟨_, hshow.required (by simp [Event.members]) trivial, _, Change.ofFields?_of_show hchange h.1, _,
      hshow.required (by simp [Event.members]) h.2, rfl⟩
  writable_of_ofJson? hj h := by
    rw [Event.ofJson?_eq_bind] at h
    obtain ⟨⟨kind, content⟩, htagged, h⟩ := Option.bind_eq_some_iff.mp h
    obtain ⟨fs, hfs, h⟩ := exists_fields (isProper_of_tagged? hj htagged) h
    simp only [Option.bind_eq_bind, Option.bind_eq_some_iff] at h
    obtain ⟨_, _, _, hchange, _, htime, ⟨⟩⟩ := h
    exact ⟨Change.isWritable_of_ofFields? hfs hchange, hfs.required htime⟩
  ofJson?_null _ := rfl

end StrategyDesk
