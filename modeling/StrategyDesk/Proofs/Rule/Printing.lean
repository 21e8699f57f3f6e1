import StrategyDesk.Proofs.Decimal.Plain
import StrategyDesk.Proofs.Rule.Grammar

/-!
This module contains that the texts of valid rules are read back: a rule's own text is one of the
ways to write it, and a list of texts that are joined by semicolons falls into them again.
-/

namespace StrategyDesk

open Text

/-! ## Symbols -/

namespace Comparison

variable {c : Comparison} {a : Char} {symbol rest : List Char}

theorem Fits.toLower_mem (h : c.Fits symbol rest) (ha : a ∈ symbol) :
    a.toLower ∈ c.symbol.toList := by
  rw [← h.toLower_eq]
  exact List.mem_map_of_mem ha

theorem not_mem_symbol (c : Comparison) : ' ' ∉ c.symbol.toList ∧ ';' ∉ c.symbol.toList := by
  cases c <;> decide

theorem leads_symbol (c : Comparison) (rest : List Char) :
    c.Leads c.symbol.toList (' ' :: rest) := by
  refine ⟨⟨by simp [sameLetters], fun _ => ?_⟩, ?_⟩
  . rw [stops_cons]
    decide +kernel
  . intro d symbol' rest' hfits heq
    by_contra hlonger
    have hprefix : c.symbol.toList ++ [' '] <+: symbol' := by
      have hwhole : c.symbol.toList ++ [' '] <+: symbol' ++ rest' := by
        rw [heq]
        exact ⟨rest, by simp⟩
      apply List.prefix_of_prefix_length_le hwhole (List.prefix_append symbol' rest')
      simp
      omega
    have hspace : ' ' ∈ symbol' := hprefix.subset (by simp)
    exact (not_mem_symbol d).1 (hfits.toLower_mem hspace)

end Comparison

/-! ## Fields -/

theorem Scan.IsField.toList {text : List Char} {name : String} (h : IsField text name) :
    IsField name.toList name := by
  cases h with
  | @key key hkey =>
    rw [String.toList_ofList]
    exact .key hkey
  | @output key gap sub hkey _ hsub =>
    rw [String.toList_ofList]
    exact IsField.output hkey (List.all_nil) hsub

namespace Rule

/-! ## Semicolons -/

section Semicolons

theorem semicolon_notMem_of_allBlank {s : List Char} (h : allBlank s = true) : ';' ∉ s := by
  intro hmem
  exact absurd (allBlank_iff.mp h _ hmem) (by decide)

theorem semicolon_notMem_of_isWord {w : List Char} (h : Scan.IsWord w) : ';' ∉ w := by
  intro hmem
  exact absurd (h.2 _ hmem) (by decide)

theorem semicolon_notMem_of_isField {text : List Char} {name : String} (h : Scan.IsField text name) :
    ';' ∉ text := by
  cases h with
  | key hkey => exact semicolon_notMem_of_isWord hkey
  | output hkey hgap hsub =>
    simp [semicolon_notMem_of_isWord hkey, semicolon_notMem_of_allBlank hgap,
      semicolon_notMem_of_isWord hsub]

theorem semicolon_notMem_of_isNumeral {numeral : List Char} (h : Decimal.IsNumeral numeral) :
    ';' ∉ numeral := by
  obtain ⟨negative, sign, digits, hsign, hdigits, rfl⟩ := h
  have hplace : ';' ∉ digits := fun hmem => absurd (hdigits.char _ hmem) (by decide)
  cases hsign <;> simp [hplace]

variable {w : Spelling} {r : Rule Float}

theorem Spelling.Spells.semicolon_notMem (h : w.Spells r) : ';' ∉ w.text := by
  have hsymbol : ';' ∉ w.symbol := by
    intro hmem
    exact (Comparison.not_mem_symbol r.comparison).2 (h.symbol.1.toLower_mem hmem)
  simp [Spelling.text, Spelling.afterField, semicolon_notMem_of_allBlank h.lead,
    semicolon_notMem_of_isField h.field, semicolon_notMem_of_allBlank h.gap, hsymbol,
    semicolon_notMem_of_allBlank h.space, semicolon_notMem_of_isNumeral h.numeral,
    semicolon_notMem_of_allBlank h.trail]

theorem Spelling.Spells.allBlank_text (h : w.Spells r) : allBlank w.text = false := by
  obtain ⟨a, t, hsymbol, _⟩ := h.symbol.1.exists_cons
  have ha := h.symbol.1.stops_isBlank []
  rw [hsymbol, List.cons_append, stops_cons] at ha
  by_contra hblank
  have := allBlank_iff.mp (eq_true_of_ne_false hblank) a
    (by simp [Spelling.text, Spelling.afterField, hsymbol])
  rw [ha] at this
  cases this

end Semicolons

theorem parseList_intercalate {pieces : List (List Char)} {rs : List (Rule Float)}
    (h : List.Forall₂ (fun piece r => ∃ w : Spelling, w.Spells r ∧ w.IsApart ∧ piece = w.text)
      pieces rs) : parseList ([';'].intercalate pieces) = .ok rs := by
  unfold parseList
  rw [segments_eq_splitOn, parsePieces_eq_ok_iff]
  simp only [parse_eq_ok_iff]
  cases hpieces : pieces with
  | nil =>
    rw [hpieces] at h
    cases h
    -- The empty text has one piece, which is blank.
    simp [List.intercalate, allBlank]
  | cons first others =>
    have hspells : ∀ piece ∈ pieces, ∃ (w : Spelling) (r : Rule Float),
        w.Spells r ∧ piece = w.text := by
      intro piece hpiece
      obtain ⟨r, _, w, hw, _, htext⟩ := exists_of_forall₂ h.flip hpiece
      exact ⟨w, r, hw, htext⟩
    rw [← hpieces, List.splitOn_intercalate ';', List.filter_eq_self.mpr]
    . exact h
    . intro piece hpiece
      obtain ⟨w, r, hw, rfl⟩ := hspells piece hpiece
      simp [hw.allBlank_text]
    . intro piece hpiece
      obtain ⟨w, r, hw, rfl⟩ := hspells piece hpiece
      exact hw.semicolon_notMem
    . simp [hpieces]

/-! ## Texts of rules -/

def Prints (piece : List Char) (r : Rule Float) : Prop :=
  ∃ lead trail, allBlank lead = true ∧ allBlank trail = true ∧
    piece = lead ++ (r.text.toList ++ trail)

def printed (r : Rule Float) (lead trail : List Char) : Spelling where
  lead := lead
  field := r.field.toList
  gap := [' ']
  symbol := r.comparison.symbol.toList
  space := [' ']
  numeral := (Decimal.plain r.value).toList
  trail := trail

theorem text_printed (r : Rule Float) (lead trail : List Char) :
    (r.printed lead trail).text = lead ++ (r.text.toList ++ trail) := by
  simp [Spelling.text, Spelling.afterField, printed, Rule.text, Arithmetic.text, toString]

theorem isApart_printed (r : Rule Float) (lead trail : List Char) :
    (r.printed lead trail).IsApart := by
  unfold Spelling.IsApart Spelling.afterField printed
  rw [List.singleton_append, stops_cons]
  decide +kernel

variable {r : Rule Float} {lead trail : List Char}

theorem spells_printed {text : List Char} (hfield : Scan.IsField text r.field)
    (hfinite : Arithmetic.isFinite r.value = true) (hlead : allBlank lead = true)
    (htrail : allBlank trail = true) : (r.printed lead trail).Spells r where
  lead := hlead
  field := hfield.toList
  gap := rfl
  symbol := Comparison.leads_symbol ..
  space := rfl
  numeral := Decimal.isNumeral_plain hfinite
  value := Decimal.read?_plain hfinite
  trail := htrail

theorem exists_spelling_of_prints {w : Spelling} {piece : List Char} (hw : w.Spells r)
    (hvalid : r.validate = .ok ()) (hprints : Prints piece r) :
    ∃ w' : Spelling, w'.Spells r ∧ w'.IsApart ∧ piece = w'.text := by
  obtain ⟨lead, trail, hlead, htrail, rfl⟩ := hprints
  refine ⟨r.printed lead trail, ?_, isApart_printed r lead trail, (text_printed r lead trail).symm⟩
  exact spells_printed hw.field (validate_eq_ok_iff.mp hvalid).2 hlead htrail

/--
The texts of rules that were read and are valid, joined by semicolons with any blanks around them,
are read as the same rules again.
-/
theorem parseList_printed {t : List Char} {rs : List (Rule Float)} {pieces : List (List Char)}
    (h : parseList t = .ok rs) (hvalid : ∀ r ∈ rs, r.validate = .ok ())
    (hprints : List.Forall₂ Prints pieces rs) :
    parseList ([';'].intercalate pieces) = .ok rs := by
  apply parseList_intercalate
  unfold parseList at h
  rw [parsePieces_eq_ok_iff] at h
  simp only [parse_eq_ok_iff] at h
  have hspelled : ∀ r ∈ rs, r.validate = .ok () ∧ ∃ w : Spelling, w.Spells r := by
    intro r hr
    obtain ⟨_, _, w, hw, _⟩ := exists_of_forall₂ h hr
    exact ⟨hvalid r hr, w, hw⟩
  have hboth := ((List.forall₂_and_left _ _).mpr ⟨hspelled, hprints.flip⟩).flip
  apply hboth.imp
  rintro piece r ⟨⟨hr, w, hw⟩, hpiece⟩
  exact exists_spelling_of_prints hw hr hpiece

theorem parseList_printed_two :
    ∃ rs, parseList "macd. histogram CROSSES_above -0 ;; rsi<.10".toList = .ok rs ∧
      (∀ r ∈ rs, r.validate = .ok ()) ∧
      parseList "macd.histogram crosses_above -0 ; rsi < 0.1 ".toList = .ok rs := by
  have htexts : (parseList "macd. histogram CROSSES_above -0 ;; rsi<.10".toList).toOption.map
      (fun rs => rs.map fun r => (r.text, Arithmetic.isFinite r.value, r.fieldRef.isProper)) =
        some [("macd.histogram crosses_above -0", true, true), ("rsi < 0.1", true, true)] := by
    decide +kernel
  obtain ⟨rs, hrs, htexts⟩ := exists_ok_of_toOption htexts
  match rs, htexts with
  | [macd, rsi], htexts =>
    simp only [List.map_cons, List.map_nil, List.cons.injEq, Prod.mk.injEq, and_true] at htexts
    obtain ⟨⟨hmacd, hmacdValid⟩, hrsi, hrsiValid⟩ := htexts
    have hvalid : ∀ r ∈ [macd, rsi], r.validate = .ok () := by
      simp [validate_eq_ok_iff, hmacdValid, hrsiValid]
    refine ⟨_, hrs, hvalid, ?_⟩
    have hprints : List.Forall₂ Prints
        ["macd.histogram crosses_above -0 ".toList, " rsi < 0.1 ".toList] [macd, rsi] := by
      refine .cons ⟨[], [' '], rfl, rfl, ?_⟩ (.cons ⟨[' '], [' '], rfl, rfl, ?_⟩ .nil)
      . rw [hmacd]
        decide +kernel
      . rw [hrsi]
        decide +kernel
    have hjoin : "macd.histogram crosses_above -0 ; rsi < 0.1 ".toList =
        [';'].intercalate ["macd.histogram crosses_above -0 ".toList, " rsi < 0.1 ".toList] := by
      decide +kernel
    rw [hjoin]
    exact parseList_printed hrs hvalid hprints

end Rule
end StrategyDesk
