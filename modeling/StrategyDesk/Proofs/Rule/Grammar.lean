import StrategyDesk.Proofs.Scan
import StrategyDesk.Rule.Parser

/-!
This module contains the grammar of rules: how a rule may be written, and that the rules of a text
are read exactly if its pieces are written like this. It also contains which of the rules read are
valid.
-/

namespace StrategyDesk

open Text

/-! ## Comparisons -/

namespace Comparison

variable {c d : Comparison} {s symbol rest symbol' rest' : List Char}

def Fits (c : Comparison) (symbol rest : List Char) : Prop :=
  sameLetters symbol c.symbol.toList = true ∧ (c.isCrossover = true → Stops isWordChar rest)

def Leads (c : Comparison) (symbol rest : List Char) : Prop :=
  c.Fits symbol rest ∧
    ∀ (d : Comparison) symbol' rest', d.Fits symbol' rest' → symbol' ++ rest' = symbol ++ rest →
      symbol'.length ≤ symbol.length

theorem all_pairwise : all.Pairwise fun c d => ¬c.symbol.toList <+: d.symbol.toList := by
  decide

theorem symbol_toLower (c : Comparison) : c.symbol.toList.map Char.toLower = c.symbol.toList := by
  cases c <;> decide

theorem Fits.length_eq (h : c.Fits symbol rest) : symbol.length = c.symbol.toList.length :=
  length_eq_of_sameLetters h.1

theorem Fits.toLower_eq (h : c.Fits symbol rest) : symbol.map Char.toLower = c.symbol.toList := by
  have := eq_of_beq h.1
  rwa [symbol_toLower] at this

theorem Fits.isPrefix (h : c.Fits symbol rest) (h' : d.Fits symbol' rest')
    (heq : symbol ++ rest = symbol' ++ rest') (hle : symbol.length ≤ symbol'.length) :
    c.symbol.toList <+: d.symbol.toList := by
  rw [← h.toLower_eq, ← h'.toLower_eq]
  have hprefix' : symbol' <+: symbol ++ rest := by
    rw [heq]
    apply List.prefix_append
  apply List.IsPrefix.map
  exact List.prefix_of_prefix_length_le (List.prefix_append symbol rest) hprefix' hle

theorem strip?_eq_some_iff :
    c.strip? s = some rest ↔ ∃ symbol, c.Fits symbol rest ∧ s = symbol ++ rest := by
  unfold strip?
  dsimp only
  constructor
  . intro h
    split at h
    . next hfits =>
      cases h
      simp only [Bool.and_eq_true, Bool.not_eq_true', Bool.and_eq_false_imp] at hfits
      refine ⟨s.take c.symbol.toList.length, ⟨hfits.1, ?_⟩, ?_⟩
      . intro hcrossover
        exact stops_iff.mpr (hfits.2 hcrossover)
      . simp
    . cases h
  . rintro ⟨symbol, hfits, rfl⟩
    rw [List.take_left' hfits.length_eq, List.drop_left' hfits.length_eq, if_pos]
    simp only [Bool.and_eq_true, Bool.not_eq_true', Bool.and_eq_false_imp]
    refine ⟨hfits.1, ?_⟩
    intro hcrossover
    exact stops_iff.mp (hfits.2 hcrossover)

theorem findSome?_strip?_eq_some_iff :
    (all.findSome? fun c => (c.strip? s).map fun rest => (c, rest)) = some (c, rest) ↔
      ∃ symbol, c.Leads symbol rest ∧ s = symbol ++ rest := by
  constructor
  . intro h
    obtain ⟨before, d, after, hall, hstrip, hnone⟩ := List.findSome?_eq_some_iff.mp h
    simp only [Option.map_eq_some_iff, Prod.mk.injEq] at hstrip
    obtain ⟨_, hstrip, rfl, rfl⟩ := hstrip
    obtain ⟨symbol, hfits, rfl⟩ := strip?_eq_some_iff.mp hstrip
    refine ⟨symbol, ⟨hfits, ?_⟩, rfl⟩
    intro e symbol' rest' hfits' heq
    have hmem := mem_all e
    rw [hall, List.mem_append, List.mem_cons] at hmem
    rcases hmem with hmem | rfl | hmem
    . have := strip?_eq_some_iff.mpr ⟨symbol', hfits', heq.symm⟩
      simpa [this] using hnone e hmem
    . rw [hfits.length_eq, hfits'.length_eq]
    . by_contra hlt
      have hpairwise := all_pairwise
      rw [hall, List.pairwise_append, List.pairwise_cons] at hpairwise
      exact hpairwise.2.1.1 e hmem (hfits.isPrefix hfits' heq.symm (by omega))
  . rintro ⟨symbol, hleads, rfl⟩
    obtain ⟨before, after, hall⟩ := List.append_of_mem (mem_all c)
    apply List.findSome?_eq_some_iff.mpr
    refine ⟨before, c, after, hall, ?_, ?_⟩
    . rw [strip?_eq_some_iff.mpr ⟨symbol, hleads.1, rfl⟩]
      rfl
    . intro d hmem
      rw [Option.map_eq_none_iff, Option.eq_none_iff_forall_ne_some]
      intro rest' hstrip
      obtain ⟨symbol', hfits, heq⟩ := strip?_eq_some_iff.mp hstrip
      have hle := hleads.2 d symbol' rest' hfits heq.symm
      have hpairwise := all_pairwise
      rw [hall, List.pairwise_append] at hpairwise
      exact hpairwise.2.2 d hmem c (by simp) (hfits.isPrefix hleads.1 heq.symm hle)

theorem Fits.exists_cons (h : c.Fits symbol rest) :
    ∃ a t, symbol = a :: t ∧ a.toLower ∈ ['>', '<', '=', 'c'] := by
  have := h.toLower_eq
  cases symbol with
  | nil => cases c <;> simp [Comparison.symbol] at this
  | cons a t =>
    refine ⟨a, t, rfl, ?_⟩
    cases c <;> simp [Comparison.symbol] at this <;> simp [this.1]

theorem Fits.stops_isBlank (h : c.Fits symbol rest) (rest' : List Char) :
    Stops isBlank (symbol ++ rest') := by
  obtain ⟨a, t, rfl, ha⟩ := h.exists_cons
  rw [List.cons_append, stops_cons]
  by_contra hblank
  have hpoints : ∀ n ∈ blankPoints, (Char.ofNat n).toLower ∉ ['>', '<', '=', 'c'] := by
    decide +kernel
  apply hpoints a.toNat (mem_blankPoints (by simpa using hblank))
  rwa [Char.ofNat_toNat]

end Comparison

/-! ## Rules -/

namespace Scan

variable {s rest : List Char}

theorem comparison_eq_ok_iff {c : Comparison} :
    comparison s = .ok (c, rest) ↔
      ∃ gap symbol, allBlank gap = true ∧ c.Leads symbol rest ∧ s = gap ++ (symbol ++ rest) := by
  have hscan : comparison s = .ok (c, rest) ↔ ∃ symbol, c.Leads symbol rest ∧
      trimStart s = symbol ++ rest := by
    rw [← Comparison.findSome?_strip?_eq_some_iff]
    unfold comparison
    dsimp only
    split
    . next h => simp [h]
    . next h => simp [h]
  rw [hscan]
  constructor
  . rintro ⟨symbol, hleads, htrim⟩
    obtain ⟨gap, hgap, hs⟩ := exists_gap s
    rw [htrim] at hs
    exact ⟨gap, symbol, hgap, hleads, hs⟩
  . rintro ⟨gap, symbol, hgap, hleads, rfl⟩
    exact ⟨symbol, hleads, trimStart_append hgap (hleads.1.stops_isBlank rest)⟩

inductive IsField : List Char → String → Prop where
  | key {key : List Char} (hkey : IsWord key) : IsField key (String.ofList key)
  | output {key gap sub : List Char} (hkey : IsWord key) (hgap : allBlank gap = true)
    (hsub : IsWord sub) :
    IsField (key ++ '.' :: (gap ++ sub)) (String.ofList (key ++ '.' :: sub))

theorem field_of_eq_ok {name : String} (h : field s = .ok (name, rest)) :
    ∃ lead text, allBlank lead = true ∧ IsField text name ∧ Stops isWordChar rest ∧
      s = lead ++ (text ++ rest) := by
  unfold field at h
  obtain ⟨⟨key, afterKey⟩, hword, hkey⟩ := bind_eq_ok_iff.mp h
  obtain ⟨lead, hlead, hisWord, hstops, rfl⟩ := word_eq_ok_iff.mp hword
  dsimp only at hkey
  split at hkey
  . obtain ⟨⟨sub, afterSub⟩, hword, hsub⟩ := bind_eq_ok_iff.mp hkey
    obtain ⟨gap, hgap, hisSub, hsubStops, rfl⟩ := word_eq_ok_iff.mp hword
    cases hsub
    refine ⟨lead, _, hlead, .output hisWord hgap hisSub, hsubStops, ?_⟩
    simp
  . cases hkey
    exact ⟨lead, key, hlead, .key hisWord, hstops, rfl⟩

theorem field_append {lead text : List Char} {name : String} (hlead : allBlank lead = true)
    (htext : IsField text name) (hword : Stops isWordChar rest) (hpoint : rest.head? ≠ some '.') :
    field (lead ++ (text ++ rest)) = .ok (name, rest) := by
  unfold field
  rw [bind_eq_ok_iff]
  cases htext with
  | key hkey =>
    refine ⟨(text, rest), word_eq_ok_iff.mpr ⟨lead, hlead, hkey, hword, rfl⟩, ?_⟩
    dsimp only
    split
    . simp at hpoint
    . rfl
  | @output key gap sub hkey hgap hsub =>
    refine ⟨(key, '.' :: (gap ++ (sub ++ rest))), ?_, ?_⟩
    . rw [word_eq_ok_iff]
      refine ⟨lead, hlead, hkey, ?_, ?_⟩
      . simp [isWordChar, isAlphanumeric]
      . simp
    . apply bind_eq_ok_iff.mpr
      exact ⟨(sub, rest), word_eq_ok_iff.mpr ⟨gap, hgap, hsub, hword, rfl⟩, rfl⟩

end Scan

namespace Rule

structure Spelling where
  lead : List Char
  field : List Char
  gap : List Char
  symbol : List Char
  space : List Char
  numeral : List Char
  trail : List Char

namespace Spelling

def afterField (w : Spelling) : List Char :=
  w.gap ++ (w.symbol ++ (w.space ++ (w.numeral ++ w.trail)))

def text (w : Spelling) : List Char :=
  w.lead ++ (w.field ++ w.afterField)

structure Spells (w : Spelling) (r : Rule Float) : Prop where
  lead : allBlank w.lead = true
  field : Scan.IsField w.field r.field
  gap : allBlank w.gap = true
  symbol : r.comparison.Leads w.symbol (w.space ++ (w.numeral ++ w.trail))
  space : allBlank w.space = true
  numeral : Decimal.IsNumeral w.numeral
  value : Decimal.read? w.numeral = some r.value
  trail : allBlank w.trail = true

def IsApart (w : Spelling) : Prop :=
  Stops isWordChar w.afterField

theorem Spells.head?_ne_point {w : Spelling} {r : Rule Float} (h : w.Spells r) :
    w.afterField.head? ≠ some '.' := by
  have hgap := allBlank_iff.mp h.gap
  unfold afterField
  cases hw : w.gap with
  | nil =>
    obtain ⟨a, t, hsymbol, ha⟩ := h.symbol.1.exists_cons
    rw [hsymbol]
    rintro ⟨⟩
    exact absurd ha (by decide)
  | cons a t =>
    have ha := hgap a (by simp [hw])
    rintro ⟨⟩
    exact absurd ha (by decide)

end Spelling

variable {s : List Char} {r : Rule Float}

theorem spells_of_parse (h : parse s = .ok r) :
    ∃ w : Spelling, w.Spells r ∧ w.IsApart ∧ s = w.text := by
  obtain ⟨rest, hrule, hrest⟩ := Scan.whole_eq_ok_iff.mp h
  unfold Scan.rule at hrule
  obtain ⟨⟨name, afterField⟩, hfield, hrule⟩ := bind_eq_ok_iff.mp hrule
  obtain ⟨⟨c, afterSymbol⟩, hcomparison, hrule⟩ := bind_eq_ok_iff.mp hrule
  obtain ⟨⟨value, afterNumber⟩, hnumber, hrule⟩ := bind_eq_ok_iff.mp hrule
  cases hrule
  obtain ⟨lead, text, hlead, htext, hapart, rfl⟩ := Scan.field_of_eq_ok hfield
  obtain ⟨gap, symbol, hgap, hleads, rfl⟩ := Scan.comparison_eq_ok_iff.mp hcomparison
  obtain ⟨space, numeral, hspace, hnumeral, hvalue, rfl⟩ := Scan.number_of_eq_ok hnumber
  refine ⟨⟨lead, text, gap, symbol, space, numeral, rest⟩, ?_, hapart, rfl⟩
  exact ⟨hlead, htext, hgap, hleads, hspace, hnumeral, hvalue, hrest⟩

theorem parse_of_spells {w : Spelling} (h : w.Spells r) (hapart : w.IsApart) :
    parse w.text = .ok r := by
  have hfield := Scan.field_append h.lead h.field hapart h.head?_ne_point
  have hcomparison := Scan.comparison_eq_ok_iff.mpr ⟨w.gap, w.symbol, h.gap, h.symbol, rfl⟩
  have hnumber := Scan.number_append h.space h.numeral h.value (Scan.stops_isPlaceChar h.trail)
  apply Scan.whole_eq_ok_iff.mpr
  refine ⟨w.trail, ?_, h.trail⟩
  simp only [Scan.rule, bind_eq_ok_iff]
  exact ⟨_, hfield, _, hcomparison, _, hnumber, rfl⟩

theorem parse_eq_ok_iff :
    parse s = .ok r ↔ ∃ w : Spelling, w.Spells r ∧ w.IsApart ∧ s = w.text := by
  constructor
  . apply spells_of_parse
  . rintro ⟨w, hspells, hapart, rfl⟩
    exact parse_of_spells hspells hapart

theorem parsePieces_eq_ok_iff {offset : Nat} {pieces : List (List Char)} {rs : List (Rule Float)} :
    parsePieces offset pieces = .ok rs ↔
      List.Forall₂ (fun piece r => parse piece = .ok r) (pieces.filter fun piece => !allBlank piece)
        rs := by
  induction pieces generalizing offset rs with
  | nil => simp [parsePieces, eq_comm]
  | cons piece pieces ih =>
    unfold parsePieces
    dsimp only
    by_cases hblank : allBlank piece = true
    . simp [hblank, ih]
    . rw [if_neg hblank, List.filter_cons_of_pos (by simpa using hblank)]
      simp only [bind_eq_ok_iff, mapError_eq_ok_iff, ih]
      constructor
      . rintro ⟨r, hr, rs, hrs, ⟨⟩⟩
        exact .cons hr hrs
      . rintro (_ | ⟨hr, hrs⟩)
        exact ⟨_, hr, _, hrs, rfl⟩

end Rule

/-! ## Validity -/

theorem isWordChar_ne_point {c : Char} (h : isWordChar c = true) : c ≠ '.' := by
  rintro rfl
  exact absurd h (by decide)

theorem FieldRef.ofText_key {key : List Char} (hkey : Scan.IsWord key) :
    FieldRef.ofText (String.ofList key) = { key := String.ofList key, sub := none } := by
  have hblank : ∀ c ∈ key, isBlank c = false := fun c hc => isBlank_of_isWordChar (hkey.2 c hc)
  have hpoint : ∀ c ∈ key, decide (c ≠ '.') = true := by
    simpa using fun c hc => isWordChar_ne_point (hkey.2 c hc)
  have htake := takeWhile_of_stops hpoint stops_nil
  have hdrop := dropWhile_of_stops hpoint stops_nil
  rw [List.append_nil] at htake hdrop
  unfold FieldRef.ofText
  simp only [String.toList_ofList, trim_of_forall hblank, htake, hdrop]

theorem FieldRef.ofText_output {key sub : List Char} (hkey : Scan.IsWord key)
    (hsub : Scan.IsWord sub) :
    FieldRef.ofText (String.ofList (key ++ '.' :: sub)) =
      { key := String.ofList key, sub := some (String.ofList sub) } := by
  have hkeyBlank : ∀ c ∈ key, isBlank c = false := fun c hc => isBlank_of_isWordChar (hkey.2 c hc)
  have hsubBlank : ∀ c ∈ sub, isBlank c = false := fun c hc => isBlank_of_isWordChar (hsub.2 c hc)
  have hblank : ∀ c ∈ key ++ '.' :: sub, isBlank c = false := by
    intro c hc
    simp only [List.mem_append, List.mem_cons] at hc
    rcases hc with hc | rfl | hc
    . exact hkeyBlank c hc
    . decide
    . exact hsubBlank c hc
  have hpoint : ∀ c ∈ key, decide (c ≠ '.') = true := by
    simpa using fun c hc => isWordChar_ne_point (hkey.2 c hc)
  have hstops : Stops (fun c => decide (c ≠ '.')) ('.' :: sub) := by
    simp
  unfold FieldRef.ofText
  simp only [String.toList_ofList, trim_of_forall hblank, takeWhile_of_stops hpoint hstops,
    dropWhile_of_stops hpoint hstops, trim_of_forall hkeyBlank, trim_of_forall hsubBlank]

theorem Scan.IsField.isProper {text : List Char} {name : String} (h : Scan.IsField text name) :
    (FieldRef.ofText name).isProper = true := by
  cases h with
  | key hkey =>
    rw [FieldRef.ofText_key hkey]
    simp [FieldRef.isProper, hkey.1]
  | output hkey _ hsub =>
    rw [FieldRef.ofText_output hkey hsub]
    simp [FieldRef.isProper, hkey.1, hsub.1]

namespace Rule

theorem validate_eq_ok_iff {α : Type} [Arithmetic α] {r : Rule α} :
    r.validate = .ok () ↔ r.fieldRef.isProper = true ∧ Arithmetic.isFinite r.value = true := by
  unfold validate
  cases r.fieldRef.isProper with
  | false => simp
  | true => cases Arithmetic.isFinite r.value <;> simp

theorem Spelling.Spells.validate_eq_ok_iff {w : Spelling} {r : Rule Float} (h : w.Spells r) :
    r.validate = .ok () ↔ ∀ negative, Binary64.ofFloat r.value ≠ .infinite negative := by
  have hproper : r.fieldRef.isProper = true := h.field.isProper
  have hnumber := h.numeral.ne_notANumber h.value
  rw [Rule.validate_eq_ok_iff, Binary64.isFinite_iff_of_ne_notANumber hnumber]
  simp [hproper]

theorem exists_of_forall₂ {β γ : Type} {related : β → γ → Prop} {xs : List β} {ys : List γ} {y : γ}
    (h : List.Forall₂ related xs ys) (hy : y ∈ ys) : ∃ x ∈ xs, related x y := by
  induction h with
  | nil => cases hy
  | cons hfirst _ ih =>
    cases hy with
    | head => exact ⟨_, List.mem_cons_self, hfirst⟩
    | tail _ hy =>
      obtain ⟨x, hx, hrelated⟩ := ih hy
      exact ⟨x, List.mem_cons_of_mem _ hx, hrelated⟩

/--
A text is read as a list of rules exactly if its pieces that are not blank spell these rules, with
words that are as long as they can be. Every numeral stands for a number, and a rule read is valid
unless its number is too large for a double.
-/
theorem parseList_grammar (t : List Char) (rs : List (Rule Float)) :
    (parseList t = .ok rs ↔
      List.Forall₂ (fun piece r => ∃ w : Spelling, w.Spells r ∧ w.IsApart ∧ piece = w.text)
        ((t.splitOn ';').filter fun piece => !allBlank piece) rs) ∧
    (∀ numeral, Decimal.IsNumeral numeral → ∃ x, Decimal.read? numeral = some x) ∧
    (parseList t = .ok rs → ∀ r ∈ rs,
      (r.validate = .ok () ↔ ∀ negative, Binary64.ofFloat r.value ≠ .infinite negative)) := by
  have hparse : parseList t = .ok rs ↔
      List.Forall₂ (fun piece r => ∃ w : Spelling, w.Spells r ∧ w.IsApart ∧ piece = w.text)
        ((t.splitOn ';').filter fun piece => !allBlank piece) rs := by
    unfold parseList
    rw [segments_eq_splitOn, parsePieces_eq_ok_iff]
    simp only [parse_eq_ok_iff]
  refine ⟨hparse, ?_, ?_⟩
  . intro numeral hnumeral
    obtain ⟨_, _, _, hread⟩ := hnumeral.read?_eq
    exact ⟨_, hread⟩
  . intro h r hr
    obtain ⟨_, _, w, hspells, _, _⟩ := exists_of_forall₂ (hparse.mp h) hr
    exact hspells.validate_eq_ok_iff

theorem parseList_grammar_two :
    ∃ rs, parseList "sma. fast > 5 ;; rsi CROSSES_below 30".toList = .ok rs ∧
      rs.map (·.field) = ["sma.fast", "rsi"] ∧
      ∀ r ∈ rs, (r.validate = .ok () ↔ ∀ negative, Binary64.ofFloat r.value ≠ .infinite negative) := by
  have hfields : (parseList "sma. fast > 5 ;; rsi CROSSES_below 30".toList).toOption.map
      (fun rs => rs.map (·.field)) = some ["sma.fast", "rsi"] := by
    decide +kernel
  obtain ⟨rs, hrs, hfields⟩ := exists_ok_of_toOption hfields
  refine ⟨rs, hrs, hfields, ?_⟩
  exact (parseList_grammar _ rs).2.2 hrs

/-- A word does not end where a symbol could start, so not every way to cut a text is one to read it. -/
theorem not_parseList_of_joined :
    ¬∀ (t : List Char) (rs : List (Rule Float)), parseList t = .ok rs ↔
      List.Forall₂ (fun piece r => ∃ w : Spelling, w.Spells r ∧ piece = w.text)
        ((t.splitOn ';').filter fun piece => !allBlank piece) rs := by
  intro h
  have hnumeral : Decimal.IsNumeral ['5'] := by
    refine ⟨false, [], ['5'], .none, ⟨?_, ?_, ?_⟩, rfl⟩
    . simp [Decimal.isPlaceChar]
    . simp
    . simp
  obtain ⟨_, _, _, hread⟩ := hnumeral.read?_eq
  have hlonger : ∀ d : Comparison, d.symbol.toList.length ≤ 13 := by
    intro d
    cases d <;> decide
  have hleads : Comparison.crossesAbove.Leads "crosses_above".toList " 5".toList := by
    refine ⟨⟨by decide, fun _ => stops_iff.mpr (by decide)⟩, ?_⟩
    intro d symbol rest hfits _
    rw [hfits.length_eq]
    exact hlonger d
  have hspells : Spelling.Spells ⟨[], ['a'], [], "crosses_above".toList, [' '], ['5'], []⟩
      ⟨"a", .crossesAbove, _⟩ :=
    ⟨rfl, .key ⟨by simp, by simp [isWordChar, isAlphanumeric]⟩, rfl, hleads, rfl, hnumeral, hread, rfl⟩
  have hpieces : (("acrosses_above 5".toList.splitOn ';').filter fun piece => !allBlank piece) =
      ["acrosses_above 5".toList] := by
    decide +kernel
  have hrefused : (parseList "acrosses_above 5".toList).toOption.isNone = true := by
    decide +kernel
  have hread := h "acrosses_above 5".toList
  rw [hpieces] at hread
  rw [(hread _).mpr (.cons ⟨_, hspells, rfl⟩ .nil)] at hrefused
  cases hrefused

end Rule
end StrategyDesk
