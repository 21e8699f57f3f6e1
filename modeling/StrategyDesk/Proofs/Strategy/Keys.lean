import StrategyDesk.Proofs.Backtest.Lookahead
import StrategyDesk.Proofs.Indicator.Counting
import StrategyDesk.Proofs.Outcome
import StrategyDesk.Proofs.Text.Pieces

/-!
This module contains which rules of a configuration find the indicator that they name. The warning
about keys without an indicator compares the trimmed keys, but series are looked up under the keys
as they are written.
-/

namespace StrategyDesk

variable {α : Type} [Arithmetic α]

/-! ## Keys -/

theorem FieldRef.trim_key (s : String) :
    Text.trim (FieldRef.ofText s).key.toList = (FieldRef.ofText s).key.toList := by
  unfold FieldRef.ofText
  dsimp only
  split
  . simp
  . simp

omit [Arithmetic α] in
theorem KeyedIndicator.trimmedKey_of_key_eq {ki : KeyedIndicator α} {r : Rule α}
    (h : ki.key = r.fieldRef.key) : ki.trimmedKey = r.fieldRef.key := by
  unfold trimmedKey Text.trimmed
  rw [h, Rule.fieldRef, FieldRef.trim_key, String.ofList_toList]

namespace Config

variable {cfg : Config α} {kis : List (KeyedIndicator α)} {ki : KeyedIndicator α} {key : String}
  {r : Rule α} {cs : List (Candle α)}

theorem nodup_of_checkIndicators {seen : List String} (h : checkIndicators seen kis = .ok ()) :
    (kis.map KeyedIndicator.trimmedKey).Nodup ∧ ∀ ki ∈ kis, ki.trimmedKey ∉ seen := by
  induction kis generalizing seen with
  | nil => simp
  | cons first kis ih =>
    unfold checkIndicators at h
    obtain ⟨_, _, h⟩ := bind_eq_ok_iff.mp h
    by_cases hseen : seen.contains first.trimmedKey = true
    . rw [if_pos hseen] at h
      cases h
    . rw [if_neg hseen] at h
      obtain ⟨hnodup, hnew⟩ := ih h
      have hfirst : ∀ ki ∈ kis, ki.trimmedKey ≠ first.trimmedKey := by
        intro ki hki heq
        exact hnew ki hki (by simp [heq])
      simp only [List.contains_eq_mem, decide_eq_true_eq] at hseen
      constructor
      . simpa [hnodup] using hfirst
      . rw [List.forall_mem_cons]
        refine ⟨hseen, ?_⟩
        intro ki hki hmem
        exact hnew ki hki (by simp [hmem])

theorem nodup_of_validate (h : cfg.validate = .ok ()) :
    (cfg.indicators.map KeyedIndicator.trimmedKey).Nodup := by
  obtain ⟨_, _, _, hindicators, _⟩ := validate_eq_ok_iff.mp h
  exact (nodup_of_checkIndicators hindicators).1

omit [Arithmetic α] in
theorem filter_trimmedKey (hnodup : (kis.map KeyedIndicator.trimmedKey).Nodup) (hki : ki ∈ kis) :
    (kis.filter fun other => other.trimmedKey == ki.trimmedKey) = [ki] := by
  induction kis with
  | nil => cases hki
  | cons first kis ih =>
    rw [List.map_cons, List.nodup_cons] at hnodup
    cases hki with
    | head =>
      have hrest : (kis.filter fun other => other.trimmedKey == ki.trimmedKey) = [] := by
        rw [List.filter_eq_nil_iff]
        intro other hother heq
        apply hnodup.1
        rw [← eq_of_beq heq]
        exact List.mem_map_of_mem hother
      simp [hrest]
    | tail _ hki =>
      have hne : first.trimmedKey ≠ ki.trimmedKey := by
        intro heq
        apply hnodup.1
        rw [heq]
        exact List.mem_map_of_mem hki
      simp [hne, ih hnodup.2 hki]

omit [Arithmetic α] in
theorem mem_unresolvedKeys_iff (hr : r ∈ cfg.rules.all) :
    r.fieldRef.key ∈ cfg.unresolvedKeys ↔ ∀ ki ∈ cfg.indicators, ki.trimmedKey ≠ r.fieldRef.key := by
  have hmem : r.fieldRef.key ∈ cfg.rules.referencedKeys := by
    unfold RuleSet.referencedKeys
    rw [List.mem_eraseDups]
    exact List.mem_map_of_mem hr
  unfold unresolvedKeys
  simp [hmem]

end Config

/-! ## Series -/

section Lookup

variable {indicators : List (KeyedIndicator α)} {cs : List (Candle α)} {ki : KeyedIndicator α}
  {r : Rule α}

theorem SeriesSet.get?_compute_eq_none
    (h : ∀ ki ∈ indicators, ki.key ≠ r.fieldRef.key) :
    (compute indicators cs).get? r.fieldRef.key = none := by
  rw [get?_compute, Option.map_eq_none_iff, List.find?_eq_none]
  intro ki hki heq
  exact h ki (List.mem_reverse.mp hki) (eq_of_beq heq).symm

theorem SeriesSet.get?_compute_eq_some (hki : ki ∈ indicators)
    (honly : (indicators.filter fun other => other.trimmedKey == r.fieldRef.key) = [ki])
    (hkey : ki.key = r.fieldRef.key) :
    (compute indicators cs).get? r.fieldRef.key = some (ki.indicator.compute cs) := by
  rw [get?_compute]
  cases hfind : indicators.reverse.find? fun ki => r.fieldRef.key == ki.key with
  | none =>
    rw [List.find?_eq_none] at hfind
    have := hfind ki (List.mem_reverse.mpr hki)
    simp [hkey] at this
  | some other =>
    have heq : r.fieldRef.key = other.key := by
      simpa using List.find?_some hfind
    have hmem : other ∈ indicators.filter fun other => other.trimmedKey == r.fieldRef.key := by
      rw [List.mem_filter]
      refine ⟨List.mem_reverse.mp (List.mem_of_find?_eq_some hfind), ?_⟩
      rw [KeyedIndicator.trimmedKey_of_key_eq heq.symm]
      apply beq_self_eq_true
    rw [honly, List.mem_singleton] at hmem
    rw [hmem]
    rfl

theorem Rule.holdsAt_of_get?_eq_none {set : SeriesSet α} (h : set.get? r.fieldRef.key = none)
    (i : Nat) : r.holdsAt set i = false := by
  have hvalue : ∀ i, set.value? r.field i = none := by
    intro i
    unfold SeriesSet.value?
    dsimp only
    rw [← Rule.fieldRef, h]
    rfl
  unfold holdsAt
  rw [hvalue]

theorem SeriesSet.value?_of_get?_eq_some {set : SeriesSet α} {series : Series α}
    (h : set.get? r.fieldRef.key = some series) (i : Nat) :
    set.value? r.field i =
      ((series.readingAt? i).bind fun reading => reading.output? r.fieldRef.sub).filter
        fun value => !Arithmetic.isNaN value := by
  unfold value?
  dsimp only
  rw [← Rule.fieldRef, h]
  simp only [Option.bind_eq_bind, Option.bind_some]
  cases series.readingAt? i with
  | none => rfl
  | some reading =>
    simp only [Option.bind_some]
    cases reading.output? r.fieldRef.sub with
    | none => rfl
    | some value => cases hnan : Arithmetic.isNaN value <;> simp [Option.filter, hnan]

end Lookup

/-! ## Computed configurations -/

namespace Config

variable {cfg : Config α} {r : Rule α} {cs : List (Candle α)} {set : SeriesSet α}

/--
A rule that the warning names never holds. A rule that it does not name has exactly one indicator
with its key up to blanks. If the key of the indicator has no blanks around it, the rule sees the
values of the indicator; otherwise it never holds either. The indicators of an admitted
configuration can be computed unless the period of an RSI or an ATR is the greatest count.
-/
theorem unresolvedKeys_spec (hvalid : cfg.validate = .ok ()) (hmax : cs.length ≤ maxCount) :
    ((∃ set, Counted.computeAll cfg.indicators cs = .ok set) ↔
      ∀ ki ∈ cfg.indicators, ¬(ki.indicator.seesChanges = true ∧
        maxCount < ki.indicator.greatestSum)) ∧
    ∀ set, Counted.computeAll cfg.indicators cs = .ok set → ∀ r ∈ cfg.rules.all,
      (r.fieldRef.key ∈ cfg.unresolvedKeys → ∀ i, r.holdsAt set i = false) ∧
      (r.fieldRef.key ∉ cfg.unresolvedKeys →
        ∃ ki, (cfg.indicators.filter fun ki => ki.trimmedKey == r.fieldRef.key) = [ki] ∧
          (ki.key = r.fieldRef.key →
            set.get? r.fieldRef.key = some (ki.indicator.compute cs) ∧
            ∀ i, set.value? r.field i =
              (((ki.indicator.compute cs).readingAt? i).bind fun reading =>
                reading.output? r.fieldRef.sub).filter fun value => !Arithmetic.isNaN value) ∧
          (ki.key ≠ r.fieldRef.key →
            set.get? r.fieldRef.key = none ∧ ∀ i, r.holdsAt set i = false)) := by
  rw [Counted.computeAll_eq hvalid hmax]
  split
  . next hfits =>
    refine ⟨⟨fun _ => hfits, fun _ => ⟨_, rfl⟩⟩, ?_⟩
    rintro set ⟨⟩ r hr
    rw [mem_unresolvedKeys_iff hr]
    constructor
    . intro hnone
      apply Rule.holdsAt_of_get?_eq_none
      apply SeriesSet.get?_compute_eq_none
      intro ki hki heq
      exact hnone ki hki (KeyedIndicator.trimmedKey_of_key_eq heq)
    . intro hsome
      simp only [not_forall, not_not] at hsome
      obtain ⟨ki, hki, hkey⟩ := hsome
      have honly := filter_trimmedKey (nodup_of_validate hvalid) hki
      rw [hkey] at honly
      refine ⟨ki, honly, ?_, ?_⟩
      . intro heq
        have hget : (SeriesSet.compute cfg.indicators cs).get? r.fieldRef.key = _ :=
          SeriesSet.get?_compute_eq_some hki honly heq
        exact ⟨hget, SeriesSet.value?_of_get?_eq_some hget⟩
      . intro hne
        have hget : (SeriesSet.compute cfg.indicators cs).get? r.fieldRef.key = none := by
          apply SeriesSet.get?_compute_eq_none
          intro other hother heq
          have hmem : other ∈ cfg.indicators.filter fun ki => ki.trimmedKey == r.fieldRef.key := by
            rw [List.mem_filter, KeyedIndicator.trimmedKey_of_key_eq heq]
            exact ⟨hother, beq_self_eq_true _⟩
          rw [honly, List.mem_singleton] at hmem
          exact hne (hmem ▸ heq)
        exact ⟨hget, Rule.holdsAt_of_get?_eq_none hget⟩
  . next hfits =>
    refine ⟨⟨?_, fun h => absurd h hfits⟩, ?_⟩
    . rintro ⟨_, ⟨⟩⟩
    . exact nofun

def keyedConfig (key : String) : Config Float :=
  { crossingConfig ["BTC"] with indicators := [{ key, indicator := .sma 1 }] }

theorem unresolvedKeys_spec_sma :
    (keyedConfig "sma").validate = .ok () ∧ (candlesOfCloses [110]).length ≤ maxCount ∧
      ∃ set, Counted.computeAll (keyedConfig "sma").indicators (candlesOfCloses [110]) = .ok set ∧
        set.get? "sma" = some ((Indicator.sma 1).compute (candlesOfCloses [110])) := by
  have hvalid : (keyedConfig "sma").validate = .ok () := by
    rfl
  have hmax : (candlesOfCloses [110]).length ≤ maxCount := by
    decide
  obtain ⟨hcomputed, hspec⟩ := unresolvedKeys_spec hvalid hmax
  obtain ⟨set, hset⟩ := hcomputed.mpr (by decide)
  obtain ⟨_, hresolved⟩ := hspec set hset _ List.mem_cons_self
  obtain ⟨ki, honly, hseen, _⟩ := hresolved (by decide +kernel)
  have hki : ki = { key := "sma", indicator := .sma 1 } := by
    have hmem : ki ∈ (keyedConfig "sma").indicators := by
      apply List.mem_of_mem_filter
      rw [honly]
      exact List.mem_singleton_self ki
    simpa [keyedConfig] using hmem
  subst hki
  exact ⟨hvalid, hmax, set, hset, (hseen rfl).1⟩

/-- With blanks around its key the indicator is found by the warning, but not by the rule. -/
theorem not_resolved_of_blank_key :
    ¬∀ (cfg : Config Float) (cs : List (Candle Float)) (set : SeriesSet Float),
      cfg.validate = .ok () → Counted.computeAll cfg.indicators cs = .ok set →
      ∀ r ∈ cfg.rules.all, r.fieldRef.key ∉ cfg.unresolvedKeys →
        ∃ ki ∈ cfg.indicators, ki.trimmedKey = r.fieldRef.key ∧
          set.get? r.fieldRef.key = some (ki.indicator.compute cs) := by
  intro h
  have hvalid : (keyedConfig " sma ").validate = .ok () := by
    rfl
  have hset : Counted.computeAll (keyedConfig " sma ").indicators (candlesOfCloses [110]) =
      .ok (.compute (keyedConfig " sma ").indicators (candlesOfCloses [110])) := by
    rfl
  obtain ⟨_, _, _, hget⟩ := h _ _ _ hvalid hset _ List.mem_cons_self (by decide +kernel)
  cases hget

end Config

end StrategyDesk
