import StrategyDesk.Backtest.Simulation
import StrategyDesk.Proofs.Csv.Order
import StrategyDesk.Proofs.Outcome

/-!
This module contains which candles are read from comma-separated text, and what is reported if there
is something wrong with it.
-/

namespace StrategyDesk
namespace Csv

namespace Record

/-! ## Records -/

def time? (r : Record) : Option Instant :=
  r.fields[0]?.bind fun raw => Instant.read? raw.toList

def number? (r : Record) (column : Nat) : Option Float :=
  r.fields[column]?.bind fun raw => Decimal.read? (Text.trim raw.toList)

def columns : List (Nat × String) :=
  [(1, "open"), (2, "high"), (3, "low"), (4, "close"), (5, "volume")]

structure Shows (r : Record) (c : Candle Float) : Prop where
  time : r.time? = some c.time
  openPrice : r.number? 1 = some c.openPrice
  high : r.number? 2 = some c.high
  low : r.number? 3 = some c.low
  close : r.number? 4 = some c.close
  volume : r.number? 5 = some c.volume

/-- Whether nothing is wrong with a record. Outside of the window only its time matters. -/
structure IsSound (r : Record) (width : Nat) (w : Window) : Prop where
  width : r.fields.length = width
  time : r.time?.isSome = true
  numbers : ∀ t, r.time? = some t → w.contains t = true →
    ∀ column ∈ columns, (r.number? column.1).isSome = true

inductive Offence (r : Record) (width : Nat) (w : Window) : Failure → Prop where
  | width (hwidth : r.fields.length ≠ width) : Offence r width w <| .candleData <|
      s!"CSV parse error: CSV error: record {r.index} (line: {r.line}, byte: {r.byte}): " ++
        s!"found record with {r.fields.length} fields, " ++
        s!"but the previous record has {width} fields"
  | noTime (hwidth : r.fields.length = width) (hraw : r.fields[0]? = none) :
    Offence r width w (r.failure "missing time column")
  | time {raw : String} (hwidth : r.fields.length = width) (hraw : r.fields[0]? = some raw)
    (htime : Instant.read? raw.toList = none) :
    Offence r width w (r.failure s!"invalid time '{raw}'")
  | noNumber {t : Instant} {before after : List (Nat × String)} {column : Nat} {name : String}
    (hwidth : r.fields.length = width) (htime : r.time? = some t) (ht : w.contains t = true)
    (hcolumns : columns = before ++ (column, name) :: after)
    (hbefore : ∀ earlier ∈ before, (r.number? earlier.1).isSome = true)
    (hraw : r.fields[column]? = none) :
    Offence r width w (r.failure s!"missing {name} column")
  | number {t : Instant} {before after : List (Nat × String)} {column : Nat} {name raw : String}
    (hwidth : r.fields.length = width) (htime : r.time? = some t) (ht : w.contains t = true)
    (hcolumns : columns = before ++ (column, name) :: after)
    (hbefore : ∀ earlier ∈ before, (r.number? earlier.1).isSome = true)
    (hraw : r.fields[column]? = some raw)
    (hnumber : Decimal.read? (Text.trim raw.toList) = none) :
    Offence r width w (r.failure
      s!"invalid {name} value '{raw}': {Decimal.complaint (Text.trim raw.toList)}")

variable {r : Record} {width column : Nat} {name : String} {w w' : Window} {t : Instant} {x : Float}
  {c d : Candle Float} {o : Option (Candle Float)} {f : Failure}

theorem Shows.unique (hc : r.Shows c) (hd : r.Shows d) : c = d := by
  obtain ⟨_, _, _, _, _, _⟩ := c
  obtain ⟨_, _, _, _, _, _⟩ := d
  have htime := hc.time.symm.trans hd.time
  have hopen := hc.openPrice.symm.trans hd.openPrice
  have hhigh := hc.high.symm.trans hd.high
  have hlow := hc.low.symm.trans hd.low
  have hclose := hc.close.symm.trans hd.close
  have hvolume := hc.volume.symm.trans hd.volume
  simp only [Option.some.injEq] at htime hopen hhigh hlow hclose hvolume
  simp only [Candle.mk.injEq]
  exact ⟨htime, hopen, hhigh, hlow, hclose, hvolume⟩

theorem checkWidth_eq_ok_iff : r.checkWidth width = .ok () ↔ r.fields.length = width := by
  unfold checkWidth
  split
  . next h => simp [h]
  . next h => simp [h]

theorem time_eq_ok_iff : r.time = .ok t ↔ r.time? = some t := by
  unfold time time?
  split
  . next h => simp [h]
  . next raw h =>
    rw [h, Option.bind_some]
    split
    . next h => simp [h]
    . next h => simp [h]

theorem number_eq_ok_iff : r.number column name = .ok x ↔ r.number? column = some x := by
  unfold number number?
  split
  . next h => simp [h]
  . next raw h =>
    rw [h, Option.bind_some]
    dsimp only
    split
    . next h => simp [h]
    . next h => simp [h]

theorem candle?_eq_ok_iff :
    r.candle? width w = .ok o ↔ r.fields.length = width ∧ ∃ t, r.time? = some t ∧
      if w.contains t = true then ∃ c, o = some c ∧ r.Shows c ∧ c.time = t else o = none := by
  unfold candle?
  rw [check_bind_eq_ok_iff, checkWidth_eq_ok_iff]
  simp only [bind_eq_ok_iff, time_eq_ok_iff]
  refine and_congr_right fun _ => exists_congr fun t => and_congr_right fun htime => ?_
  split
  . simp only [bind_eq_ok_iff, number_eq_ok_iff]
    constructor
    . rintro ⟨p, hopen, q, hhigh, l, hlow, k, hclose, v, hvolume, ⟨⟩⟩
      exact ⟨_, rfl, ⟨htime, hopen, hhigh, hlow, hclose, hvolume⟩, rfl⟩
    . rintro ⟨c, rfl, hshows, rfl⟩
      exact ⟨_, hshows.openPrice, _, hshows.high, _, hshows.low, _, hshows.close, _, hshows.volume, rfl⟩
  . simp [pure, Except.pure, eq_comm]

theorem isSound_iff : r.IsSound width w ↔ ∃ o, r.candle? width w = .ok o := by
  simp only [candle?_eq_ok_iff]
  constructor
  . intro h
    obtain ⟨t, ht⟩ := Option.isSome_iff_exists.mp h.time
    have hnumbers := h.numbers t ht
    by_cases hin : w.contains t = true
    . have hnumber := hnumbers hin
      simp only [columns, List.forall_mem_cons, Option.isSome_iff_exists] at hnumber
      obtain ⟨⟨p, hopen⟩, ⟨q, hhigh⟩, ⟨l, hlow⟩, ⟨k, hclose⟩, ⟨v, hvolume⟩, _⟩ := hnumber
      refine ⟨some ⟨t, p, q, l, k, v⟩, h.width, t, ht, ?_⟩
      rw [if_pos hin]
      exact ⟨_, rfl, ⟨ht, hopen, hhigh, hlow, hclose, hvolume⟩, rfl⟩
    . refine ⟨none, h.width, t, ht, ?_⟩
      rw [if_neg hin]
  . rintro ⟨o, hwidth, t, ht, ho⟩
    refine ⟨hwidth, by simp [ht], ?_⟩
    intro t' ht' hin
    rw [ht] at ht'
    cases ht'
    rw [if_pos hin] at ho
    obtain ⟨c, _, hshows, _⟩ := ho
    simp [columns, hshows.openPrice, hshows.high, hshows.low, hshows.close, hshows.volume]

theorem checkWidth_eq_error_iff :
    r.checkWidth width = .error f ↔ r.fields.length ≠ width ∧ f = .candleData
      (s!"CSV parse error: CSV error: record {r.index} (line: {r.line}, byte: {r.byte}): " ++
        s!"found record with {r.fields.length} fields, " ++
        s!"but the previous record has {width} fields") := by
  unfold checkWidth
  split
  . next h => simp [h]
  . next h => simp [h, eq_comm]

theorem time_eq_error_iff :
    r.time = .error f ↔ (r.fields[0]? = none ∧ f = r.failure "missing time column") ∨
      ∃ raw, r.fields[0]? = some raw ∧ Instant.read? raw.toList = none ∧
        f = r.failure s!"invalid time '{raw}'" := by
  unfold time
  split
  . next h => simp [h, eq_comm]
  . next raw h =>
    split
    . next h' => simp [h, h']
    . next h' => simp [h, h', eq_comm]

theorem number_eq_error_iff :
    r.number column name = .error f ↔
      (r.fields[column]? = none ∧ f = r.failure s!"missing {name} column") ∨
      ∃ raw, r.fields[column]? = some raw ∧ Decimal.read? (Text.trim raw.toList) = none ∧
        f = r.failure
          s!"invalid {name} value '{raw}': {Decimal.complaint (Text.trim raw.toList)}" := by
  unfold number
  split
  . next h => simp [h, eq_comm]
  . next raw h =>
    dsimp only
    split
    . next h' => simp [h, h']
    . next h' => simp [h, h', eq_comm]

theorem isSome_number? : (r.number? column).isSome = true ↔ ∃ x, r.number column name = .ok x := by
  simp only [number_eq_ok_iff, Option.isSome_iff_exists]

theorem candle?_eq_error_of_width (hwidth : r.fields.length ≠ width) :
    r.candle? width w = .error f ↔ r.checkWidth width = .error f := by
  unfold candle?
  rw [bind_eq_error_iff]
  constructor
  . rintro (h | ⟨_, hok, _⟩)
    . exact h
    . exact absurd (checkWidth_eq_ok_iff.mp hok) hwidth
  . exact Or.inl

theorem candle?_eq_error_of_time (hwidth : r.fields.length = width) (htime : r.time? = none) :
    r.candle? width w = .error f ↔ r.time = .error f := by
  unfold candle?
  rw [checkWidth_eq_ok_iff.mpr hwidth]
  simp [bind_eq_error_iff, time_eq_ok_iff, htime]

theorem candle?_of_outside (hwidth : r.fields.length = width) (htime : r.time? = some t)
    (ht : w.contains t = false) : r.candle? width w = .ok none := by
  rw [candle?_eq_ok_iff]
  exact ⟨hwidth, t, htime, by rw [ht]; rfl⟩

theorem candle?_eq_error_of_window (hwidth : r.fields.length = width) (htime : r.time? = some t)
    (ht : w.contains t = true) :
    r.candle? width w = .error f ↔ (columns.mapM fun k => r.number k.1 k.2) = .error f := by
  unfold candle?
  rw [checkWidth_eq_ok_iff.mpr hwidth, time_eq_ok_iff.mpr htime]
  simp only [columns, List.mapM_cons, List.mapM_nil, bind_eq_error_iff]
  simp [ht, pure, Except.pure, bind_eq_error_iff]

theorem candle?_eq_error_of_column {before after : List (Nat × String)}
    (hwidth : r.fields.length = width) (htime : r.time? = some t) (ht : w.contains t = true)
    (hcolumns : columns = before ++ (column, name) :: after)
    (hbefore : ∀ earlier ∈ before, (r.number? earlier.1).isSome = true)
    (hnumber : r.number column name = .error f) : r.candle? width w = .error f := by
  rw [candle?_eq_error_of_window hwidth htime ht, mapM_eq_error_iff]
  exact ⟨before, _, after, hcolumns, fun earlier hmem => isSome_number?.mp (hbefore earlier hmem),
    hnumber⟩

theorem offence_of_candle? (h : r.candle? width w = .error f) : r.Offence width w f := by
  by_cases hwidth : r.fields.length = width
  . cases htime : r.time? with
    | none =>
      rw [candle?_eq_error_of_time hwidth htime] at h
      rcases time_eq_error_iff.mp h with ⟨hraw, rfl⟩ | ⟨raw, hraw, hread, rfl⟩
      . exact .noTime hwidth hraw
      . exact .time hwidth hraw hread
    | some t =>
      cases ht : w.contains t with
      | true =>
        rw [candle?_eq_error_of_window hwidth htime ht, mapM_eq_error_iff] at h
        obtain ⟨before, column, after, hcolumns, hbefore, hnumber⟩ := h
        have hbefore : ∀ earlier ∈ before, (r.number? earlier.1).isSome = true :=
          fun earlier hmem => isSome_number?.mpr (hbefore earlier hmem)
        rcases number_eq_error_iff.mp hnumber with ⟨hraw, rfl⟩ | ⟨raw, hraw, hread, rfl⟩
        . exact .noNumber hwidth htime ht hcolumns hbefore hraw
        . exact .number hwidth htime ht hcolumns hbefore hraw hread
      | false =>
        rw [candle?_of_outside hwidth htime ht] at h
        cases h
  . rw [candle?_eq_error_of_width hwidth] at h
    obtain ⟨_, rfl⟩ := checkWidth_eq_error_iff.mp h
    exact .width hwidth

theorem candle?_of_offence (h : r.Offence width w f) : r.candle? width w = .error f := by
  cases h with
  | width hwidth =>
    rw [candle?_eq_error_of_width hwidth]
    exact checkWidth_eq_error_iff.mpr ⟨hwidth, rfl⟩
  | noTime hwidth hraw =>
    rw [candle?_eq_error_of_time hwidth (by simp [time?, hraw])]
    exact time_eq_error_iff.mpr (.inl ⟨hraw, rfl⟩)
  | time hwidth hraw htime =>
    rw [candle?_eq_error_of_time hwidth (by simp [time?, hraw, htime])]
    exact time_eq_error_iff.mpr (.inr ⟨_, hraw, htime, rfl⟩)
  | noNumber hwidth htime ht hcolumns hbefore hraw =>
    apply candle?_eq_error_of_column hwidth htime ht hcolumns hbefore
    exact number_eq_error_iff.mpr (.inl ⟨hraw, rfl⟩)
  | number hwidth htime ht hcolumns hbefore hraw hnumber =>
    apply candle?_eq_error_of_column hwidth htime ht hcolumns hbefore
    exact number_eq_error_iff.mpr (.inr ⟨_, hraw, hnumber, rfl⟩)

theorem candle?_eq_error_iff : r.candle? width w = .error f ↔ r.Offence width w f :=
  ⟨offence_of_candle?, candle?_of_offence⟩

theorem candle?_narrow (h : r.candle? width w = .ok o)
    (hw : ∀ t, w'.contains t = true → w.contains t = true) :
    r.candle? width w' = .ok (o.filter fun c => w'.contains c.time) := by
  obtain ⟨hwidth, t, ht, ho⟩ := candle?_eq_ok_iff.mp h
  rw [candle?_eq_ok_iff]
  refine ⟨hwidth, t, ht, ?_⟩
  cases hin : w'.contains t with
  | true =>
    rw [if_pos (hw t hin)] at ho
    obtain ⟨c, rfl, hshows, rfl⟩ := ho
    rw [if_pos rfl]
    exact ⟨c, by simp [hin], hshows, rfl⟩
  | false =>
    rw [if_neg (by simp)]
    split at ho
    . obtain ⟨c, rfl, _, rfl⟩ := ho
      simp [hin]
    . simp [ho]

end Record

/-! ## Candles in order -/

section Validity

variable {c : Candle Float} {cs : List (Candle Float)} {place symbol : String}
  {previous : Option Instant} {f : Failure}

theorem complaint?_of_lt (h : ∀ t ∈ previous, t < c.time) :
    c.complaint? place previous = c.complaint? place none := by
  cases previous with
  | none => rfl
  | some t =>
    unfold Candle.complaint?
    dsimp only
    rw [if_neg (Instant.not_le.mpr (h t rfl))]

theorem exists_complaint_of_checkCandles {index : Nat}
    (hcs : cs.Pairwise fun c d => c.time < d.time) (hprevious : ∀ t ∈ previous, ∀ c ∈ cs, t < c.time)
    (h : Simulation.checkCandles symbol index previous cs = .error f) :
    ∃ (i : Nat) (c : Candle Float) (reason : String), cs[i]? = some c ∧
      c.complaint? s!"{symbol}: candle {index + i}" none = some reason ∧ f = .simulation reason := by
  induction cs generalizing index previous with
  | nil => cases h
  | cons c cs ih =>
    rw [List.pairwise_cons] at hcs
    unfold Simulation.checkCandles at h
    rw [complaint?_of_lt fun t ht => hprevious t ht c (by simp)] at h
    split at h
    . next reason hreason =>
      cases h
      exact ⟨0, c, reason, rfl, hreason, rfl⟩
    . obtain ⟨i, d, reason, hd, hreason, rfl⟩ :=
        ih hcs.2 (by rintro t ⟨⟩; exact hcs.1) h
      refine ⟨i + 1, d, reason, by simpa using hd, ?_, rfl⟩
      rw [← hreason, Nat.add_assoc, Nat.add_comm 1 i]

end Validity

/-! ## All records -/

def headerWidth : List Record → Nat
  | [] => 0
  | names :: _ => names.fields.length

variable {w w' : Window} {rs : List Record} {os : List (Option (Candle Float))}
  {cs : List (Candle Float)} {c : Candle Float} {width : Nat} {f : Failure}

theorem inOrder_nil : inOrder [] = [] := by
  simp [inOrder, firstOfEachTime]

theorem candlesOfRecords_eq (w : Window) (rs : List Record) :
    candlesOfRecords w rs = do
      let os ← rs.tail.mapM (·.candle? (headerWidth rs) w)
      return inOrder (os.filterMap id) := by
  cases rs with
  | nil => exact congrArg Except.ok inOrder_nil.symm
  | cons names rs => rfl

theorem candlesOfRecords_eq_ok_iff :
    candlesOfRecords w rs = .ok cs ↔
      ∃ os, List.Forall₂ (fun r o => r.candle? (headerWidth rs) w = .ok o) rs.tail os ∧
        cs = inOrder (os.filterMap id) := by
  rw [candlesOfRecords_eq]
  simp only [bind_eq_ok_iff, mapM_eq_ok_iff]
  simp only [pure, Except.pure, Except.ok.injEq, eq_comm]

theorem candlesOfRecords_eq_error_iff :
    candlesOfRecords w rs = .error f ↔ ∃ before r after, rs.tail = before ++ r :: after ∧
      (∀ x ∈ before, x.IsSound (headerWidth rs) w) ∧ r.Offence (headerWidth rs) w f := by
  rw [candlesOfRecords_eq, bind_eq_error_iff, mapM_eq_error_iff]
  simp only [Record.candle?_eq_error_iff, ← Record.isSound_iff]
  constructor
  . rintro (h | ⟨_, _, ⟨⟩⟩)
    exact h
  . exact Or.inl

theorem exists_candlesOfRecords_iff :
    (∃ cs, candlesOfRecords w rs = .ok cs) ↔ ∀ r ∈ rs.tail, r.IsSound (headerWidth rs) w := by
  simp only [Record.isSound_iff, ← exists_mapM_eq_ok_iff, candlesOfRecords_eq, bind_eq_ok_iff]
  constructor
  . rintro ⟨_, os, hos, _⟩
    exact ⟨os, hos⟩
  . rintro ⟨os, hos⟩
    exact ⟨_, os, hos, rfl⟩

theorem find?_eq_some_iff (hos : List.Forall₂ (fun r o => r.candle? width w = .ok o) rs os) :
    (os.filterMap id).find? (fun d => d.time == c.time) = some c ↔
      w.contains c.time = true ∧
        ∃ r, rs.find? (fun r => r.time? == some c.time) = some r ∧ r.Shows c := by
  induction hos with
  | nil => simp
  | @cons r o rs os hr hos ih =>
    obtain ⟨_, t, ht, ho⟩ := Record.candle?_eq_ok_iff.mp hr
    split at ho
    . next hin =>
      obtain ⟨d, rfl, hshows, rfl⟩ := ho
      rw [List.filterMap_cons_some (f := id) rfl]
      by_cases htime : d.time = c.time
      . rw [List.find?_cons_of_pos (by simp [htime]), List.find?_cons_of_pos (by simp [ht, htime])]
        constructor
        . rintro ⟨⟩
          exact ⟨hin, r, rfl, hshows⟩
        . rintro ⟨_, r', ⟨⟩, hshows'⟩
          rw [hshows.unique hshows']
      . rw [List.find?_cons_of_neg (by simp [htime]), List.find?_cons_of_neg (by simp [ht, htime])]
        exact ih
    . next hout =>
      subst ho
      rw [List.filterMap_cons_none (f := id) rfl, ih]
      by_cases htime : t = c.time
      . rw [htime] at hout
        simp [hout]
      . rw [List.find?_cons_of_neg (by simp [ht, htime])]

theorem mem_iff_of_candlesOfRecords (h : candlesOfRecords w rs = .ok cs) :
    c ∈ cs ↔ w.contains c.time = true ∧
      ∃ r, rs.tail.find? (fun r => r.time? == some c.time) = some r ∧ r.Shows c := by
  obtain ⟨os, hos, rfl⟩ := candlesOfRecords_eq_ok_iff.mp h
  rw [(thinned_inOrder _).mem_iff, find?_eq_some_iff hos]

theorem pairwise_of_candlesOfRecords (h : candlesOfRecords w rs = .ok cs) :
    cs.Pairwise fun c d => c.time < d.time := by
  obtain ⟨os, _, rfl⟩ := candlesOfRecords_eq_ok_iff.mp h
  exact (thinned_inOrder _).pairwise

theorem existsUnique_of_candlesOfRecords {r : Record} {t : Instant}
    (h : candlesOfRecords w rs = .ok cs) (hr : r ∈ rs.tail) (ht : r.time? = some t)
    (hin : w.contains t = true) :
    ∃! c, c ∈ cs ∧ c.time = t := by
  have hsound := exists_candlesOfRecords_iff.mp ⟨cs, h⟩
  obtain ⟨first, hfirst⟩ : ∃ first, rs.tail.find? (fun r => r.time? == some t) = some first := by
    rw [← Option.isSome_iff_exists, List.find?_isSome]
    exact ⟨r, hr, by simp [ht]⟩
  have htime : first.time? = some t := by
    simpa using List.find?_some hfirst
  obtain ⟨o, ho⟩ := Record.isSound_iff.mp (hsound first (List.mem_of_find?_eq_some hfirst))
  obtain ⟨_, t', ht', ho⟩ := Record.candle?_eq_ok_iff.mp ho
  rw [htime] at ht'
  cases ht'
  rw [if_pos hin] at ho
  obtain ⟨c, _, hshows, rfl⟩ := ho
  refine ⟨c, ⟨(mem_iff_of_candlesOfRecords h).mpr ⟨hin, first, hfirst, hshows⟩, rfl⟩, ?_⟩
  rintro d ⟨hd, hdt⟩
  obtain ⟨_, first', hfirst', hshows'⟩ := (mem_iff_of_candlesOfRecords h).mp hd
  rw [hdt, hfirst] at hfirst'
  cases hfirst'
  exact hshows'.unique hshows

theorem candlesOfRecords_narrow (h : candlesOfRecords w rs = .ok cs)
    (hw : ∀ t, w'.contains t = true → w.contains t = true) :
    candlesOfRecords w' rs = .ok (cs.filter fun c => w'.contains c.time) := by
  obtain ⟨os, hos, rfl⟩ := candlesOfRecords_eq_ok_iff.mp h
  rw [candlesOfRecords_eq_ok_iff]
  refine ⟨os.map fun o => o.filter fun c => w'.contains c.time, ?_, ?_⟩
  . rw [List.forall₂_map_right_iff]
    exact hos.imp fun r o ho => Record.candle?_narrow ho hw
  . rw [← inOrder_filter]
    rw [List.filterMap_map, List.filter_filterMap]
    rfl

/--
Candles are read from records exactly if all of these are as wide as the one with the names, have a
time, and have their numbers if they lie in the window. Otherwise the first record that is wrong is
reported. The candles increase in time, and each time of a record in the window has the candle of
the first record with this time, and no other one. So a replay never refuses the candles for their
order, and a smaller window gives the candles that lie in it.
-/
theorem candlesOfRecords_exact (w : Window) (rs : List Record) :
    ((∃ cs, candlesOfRecords w rs = .ok cs) ↔ ∀ r ∈ rs.tail, r.IsSound (headerWidth rs) w) ∧
    (∀ f, candlesOfRecords w rs = .error f ↔ ∃ before r after, rs.tail = before ++ r :: after ∧
      (∀ x ∈ before, x.IsSound (headerWidth rs) w) ∧ r.Offence (headerWidth rs) w f) ∧
    ∀ cs, candlesOfRecords w rs = .ok cs →
      cs.Pairwise (fun c d => c.time < d.time) ∧
      (∀ c, c ∈ cs ↔ w.contains c.time = true ∧
        ∃ r, rs.tail.find? (fun r => r.time? == some c.time) = some r ∧ r.Shows c) ∧
      (∀ r ∈ rs.tail, ∀ t, r.time? = some t → w.contains t = true → ∃! c, c ∈ cs ∧ c.time = t) ∧
      (∀ symbol f, Simulation.validateCandles symbol cs = .error f →
        ∃ (i : Nat) (c : Candle Float) (reason : String), cs[i]? = some c ∧
          c.complaint? s!"{symbol}: candle {i}" none = some reason ∧ f = .simulation reason) ∧
      ∀ w' : Window, w.first ≤ w'.first → w'.last ≤ w.last →
        candlesOfRecords w' rs = .ok (cs.filter fun c => w'.contains c.time) := by
  refine ⟨exists_candlesOfRecords_iff, fun f => candlesOfRecords_eq_error_iff, ?_⟩
  intro cs h
  have hpairwise := pairwise_of_candlesOfRecords h
  refine ⟨hpairwise, fun c => mem_iff_of_candlesOfRecords h, ?_, ?_, ?_⟩
  . intro r hr t
    apply existsUnique_of_candlesOfRecords h hr
  . intro symbol f hrefused
    obtain ⟨i, c, reason, hc, hreason, rfl⟩ :=
      exists_complaint_of_checkCandles hpairwise (by rintro t ⟨⟩) hrefused
    rw [Nat.zero_add] at hreason
    exact ⟨i, c, reason, hc, hreason, rfl⟩
  . intro w' hfirst hlast
    exact candlesOfRecords_narrow h fun t => Window.contains_of_le hfirst hlast

/-- The candles of a text are exactly those of its records. -/
theorem readCandles_exact (s : List Char) (w : Window) :
    let rs := records s
    ((∃ cs, readCandles s w = .ok cs) ↔ ∀ r ∈ rs.tail, r.IsSound (headerWidth rs) w) ∧
    (∀ f, readCandles s w = .error f ↔ ∃ before r after, rs.tail = before ++ r :: after ∧
      (∀ x ∈ before, x.IsSound (headerWidth rs) w) ∧ r.Offence (headerWidth rs) w f) ∧
    ∀ cs, readCandles s w = .ok cs →
      cs.Pairwise (fun c d => c.time < d.time) ∧
      (∀ c, c ∈ cs ↔ w.contains c.time = true ∧
        ∃ r, rs.tail.find? (fun r => r.time? == some c.time) = some r ∧ r.Shows c) ∧
      (∀ r ∈ rs.tail, ∀ t, r.time? = some t → w.contains t = true → ∃! c, c ∈ cs ∧ c.time = t) ∧
      (∀ symbol f, Simulation.validateCandles symbol cs = .error f →
        ∃ (i : Nat) (c : Candle Float) (reason : String), cs[i]? = some c ∧
          c.complaint? s!"{symbol}: candle {i}" none = some reason ∧ f = .simulation reason) ∧
      ∀ w' : Window, w.first ≤ w'.first → w'.last ≤ w.last →
        readCandles s w' = .ok (cs.filter fun c => w'.contains c.time) :=
  candlesOfRecords_exact w (records s)

def unsortedText : List Char :=
  ("time,open,high,low,close,volume\n" ++
    "1970-01-03,3,3,3,3,1\n1970-01-02,2,2,2,2,1\n1970-01-03,9,9,9,9,9\n1970-01-09,,,,,\n").toList

theorem readCandles_unsortedText :
    let w : Window := ⟨{ seconds := 0 }, { seconds := 172800 }⟩
    ∃ cs, readCandles unsortedText w = .ok cs ∧ cs.Pairwise (fun c d => c.time < d.time) ∧
      ∃ (c : Candle Float) (r : Record), c ∈ cs ∧ c.time = { seconds := 172800 } ∧ r.Shows c ∧
        r.line = 2 := by
  intro w
  have hread : ((records unsortedText).tail.mapM fun r : Record =>
      r.candle? (headerWidth (records unsortedText)) w).toOption.map (fun _ => ()) = some () := by
    decide +kernel
  have hfirst : ((records unsortedText).tail.find? fun r =>
      r.time? == some { seconds := 172800 }).map Record.line = some 2 := by
    decide +kernel
  obtain ⟨hreads, _, hexact⟩ := readCandles_exact unsortedText w
  obtain ⟨os, hos, _⟩ := exists_ok_of_toOption hread
  obtain ⟨cs, hcs⟩ : ∃ cs, readCandles unsortedText w = .ok cs := by
    rw [hreads]
    intro r hr
    exact Record.isSound_iff.mpr (exists_mapM_eq_ok_iff.mp ⟨os, hos⟩ r hr)
  obtain ⟨hpairwise, hmem, hunique, _⟩ := hexact cs hcs
  obtain ⟨r, hr, hline⟩ := Option.map_eq_some_iff.mp hfirst
  have htime : r.time? = some { seconds := 172800 } := by
    simpa using List.find?_some hr
  obtain ⟨c, ⟨hc, hct⟩, _⟩ := hunique r (List.mem_of_find?_eq_some hr) _ htime (by decide)
  obtain ⟨_, r', hr', hshows⟩ := (hmem c).mp hc
  rw [hct, hr] at hr'
  cases hr'
  exact ⟨cs, hcs, hpairwise, c, r, hc, hct, hshows, hline⟩

end Csv
end StrategyDesk
