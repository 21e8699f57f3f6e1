import StrategyDesk.Proofs.Rule.Printing
import StrategyDesk.Proofs.Strategy.Admission

/-!
This module contains which indicators a rule can name. A key is admitted if there is no point and no
blank in it, but the name in a rule has to be a word, so an admitted key with any other character in
it cannot be written there.
-/

namespace StrategyDesk

open Text

variable {α : Type}

/-! ## Keys -/

theorem KeyedIndicator.validate_eq_ok_iff [Arithmetic α] {ki : KeyedIndicator α} :
    ki.validate = .ok () ↔
      trim ki.key.toList ≠ [] ∧
      (∀ a ∈ trim ki.key.toList, a ≠ '.' ∧ isBlank a = false) ∧ ki.indicator.validate = .ok () := by
  unfold validate
  dsimp only
  by_cases hempty : trim ki.key.toList = []
  . simp [hempty]
  . rw [if_neg (by simpa using hempty)]
    split
    . next hany =>
      obtain ⟨a, ha, hbad⟩ := List.any_eq_true.mp hany
      constructor
      . exact nofun
      . rintro ⟨_, hall, _⟩
        obtain ⟨hpoint, hblank⟩ := hall a ha
        simp [hpoint, hblank] at hbad
    . next hany =>
      have hall : ∀ a ∈ trim ki.key.toList, a ≠ '.' ∧ isBlank a = false := by
        simpa using hany
      constructor
      . intro hindicator
        exact ⟨hempty, hall, hindicator⟩
      . rintro ⟨_, _, hindicator⟩
        exact hindicator

/-! ## Texts without blanks -/

theorem Text.toLower_of_isBlank {a : Char} (h : isBlank a = true) : a.toLower = a := by
  have hpoints : ∀ n ∈ blankPoints, (Char.ofNat n).toLower = Char.ofNat n := by
    decide
  rw [← Char.ofNat_toNat a]
  exact hpoints a.toNat (mem_blankPoints h)

theorem Comparison.isBlank_of_mem_symbol (c : Comparison) :
    ∀ a ∈ c.symbol.toList, isBlank a = false := by
  have hall : c.symbol.toList.all (!isBlank ·) = true := by
    cases c <;> decide
  simpa using hall

theorem Comparison.Fits.isBlank_eq_false {c : Comparison} {symbol rest : List Char}
    (h : c.Fits symbol rest) : ∀ a ∈ symbol, isBlank a = false := by
  intro a ha
  by_contra hblank
  rw [Bool.not_eq_false] at hblank
  have hmem := h.toLower_mem ha
  rw [toLower_of_isBlank hblank] at hmem
  rw [c.isBlank_of_mem_symbol a hmem] at hblank
  cases hblank

theorem Decimal.IsNumeral.isBlank_eq_false {numeral : List Char} (h : IsNumeral numeral) :
    ∀ a ∈ numeral, isBlank a = false := by
  obtain ⟨negative, sign, digits, hsign, hdigits, rfl⟩ := h
  intro a ha
  rcases List.mem_append.mp ha with ha | ha
  . cases hsign with
    | none => cases ha
    | plus | minus =>
      obtain rfl := List.mem_singleton.mp ha
      decide
  . exact Scan.isBlank_of_isPlaceChar (hdigits.char a ha)

theorem Decimal.IsNumeral.ne_symbol {numeral : List Char} (h : IsNumeral numeral) (c : Comparison) :
    numeral ≠ c.symbol.toList := by
  obtain ⟨a, t, rfl, ha⟩ := h.exists_cons
  intro heq
  cases c <;> simp [Comparison.symbol] at heq <;> rw [heq.1] at ha <;> exact absurd ha (by decide)

def Text.IsApart (t : List Char) : Prop :=
  Stops (fun a => !isBlank a) t

theorem Text.isApart_of_allBlank {s t : List Char} (hs : allBlank s = true) (h : s ≠ [] ∨ t = []) :
    IsApart (s ++ t) := by
  cases s with
  | nil => simp [IsApart, h.resolve_left (by simp)]
  | cons a s => simp [IsApart, allBlank_iff.mp hs a List.mem_cons_self]

theorem Text.append_inj_of_isApart {s s' t t' : List Char} (hs : ∀ a ∈ s, isBlank a = false)
    (ht : IsApart t) (hs' : ∀ a ∈ s', isBlank a = false) (ht' : IsApart t')
    (h : s ++ t = s' ++ t') : s = s' ∧ t = t' :=
  append_inj_of_stops (by simpa using hs) ht (by simpa using hs') ht' h

namespace Rule

variable {c : Comparison} {s key numeral block gap symbol space trail : List Char} {r : Rule Float}

/-! ## Conditions -/

def condition (key : List Char) (c : Comparison) (numeral : List Char) : List Char :=
  key ++ ' ' :: (c.symbol.toList ++ ' ' :: numeral)

theorem exists_condition (key : List Char) :
    ∃ lead gap, allBlank lead = true ∧ allBlank gap = true ∧ gap ≠ [] ∧
      ∀ (c : Comparison) (numeral : List Char), condition key c numeral =
        lead ++ (trim key ++ (gap ++ (c.symbol.toList ++ ' ' :: numeral))) := by
  obtain ⟨lead, trail, hlead, htrail, hs⟩ := exists_trim key
  refine ⟨lead, trail ++ [' '], hlead, ?_, by simp, ?_⟩
  . rw [allBlank_append, htrail]
    rfl
  . intro c numeral
    unfold condition
    conv_lhs => rw [hs]
    simp

theorem parse_condition {x : Float} (hkey : Scan.IsWord (trim key))
    (hnumeral : Decimal.IsNumeral numeral) (hx : Decimal.read? numeral = some x) (c : Comparison) :
    parse (condition key c numeral) = .ok ⟨String.ofList (trim key), c, x⟩ := by
  obtain ⟨lead, gap, hlead, hgap, hne, hcondition⟩ := exists_condition key
  have hspells : Spelling.Spells ⟨lead, trim key, gap, c.symbol.toList, [' '], numeral, []⟩
      ⟨String.ofList (trim key), c, x⟩ :=
    ⟨hlead, .key hkey, hgap, Comparison.leads_symbol c _, rfl, hnumeral, hx, rfl⟩
  have hapart : Spelling.IsApart ⟨lead, trim key, gap, c.symbol.toList, [' '], numeral, []⟩ := by
    apply stops_append_of_ne_nil _ hne
    intro a ha
    by_contra hword
    have := isBlank_of_isWordChar (by simpa using hword)
    rw [allBlank_iff.mp hgap a ha] at this
    cases this
  have htext : condition key c numeral =
      Spelling.text ⟨lead, trim key, gap, c.symbol.toList, [' '], numeral, []⟩ := by
    rw [hcondition]
    simp [Spelling.text, Spelling.afterField]
  rw [htext]
  exact parse_of_spells hspells hapart

theorem symbol_number_ne (hsymbol : ∀ a ∈ symbol, isBlank a = false)
    (hspace : allBlank space = true) (hnumeral : Decimal.IsNumeral numeral)
    (htrail : allBlank trail = true) (hblock : ∀ a ∈ block, isBlank a = false)
    (hgap : allBlank gap = true) (hne : gap ≠ []) (c : Comparison) (rest : List Char) :
    symbol ++ (space ++ (numeral ++ trail)) ≠
      block ++ (gap ++ (c.symbol.toList ++ ' ' :: rest)) := by
  intro h
  have hfits := (Comparison.leads_symbol c rest).1
  have hnumeralFree := hnumeral.isBlank_eq_false
  have htrailApart := isApart_of_allBlank htrail (.inr rfl)
  have hgapApart := isApart_of_allBlank (t := c.symbol.toList ++ ' ' :: rest) hgap (.inl hne)
  rw [List.append_nil] at htrailApart
  by_cases hnil : space = []
  . -- The symbol and the number make up one text, and the blanks behind it would go on with a symbol.
    rw [hnil, List.nil_append, ← List.append_assoc] at h
    have hboth : ∀ a ∈ symbol ++ numeral, isBlank a = false := by
      intro a ha
      exact (List.mem_append.mp ha).elim (hsymbol a) (hnumeralFree a)
    have htail := (append_inj_of_isApart hboth htrailApart hblock hgapApart h).2
    have hblank := trimStart_eq_nil_iff.mpr htrail
    rw [htail, trimStart_append hgap (hfits.stops_isBlank _)] at hblank
    obtain ⟨a, t, hcons, _⟩ := hfits.exists_cons
    simp [hcons] at hblank
  . -- The symbol is the first text, and the number would be the symbol of the condition.
    have hspaceApart := isApart_of_allBlank (t := numeral ++ trail) hspace (.inl hnil)
    have htail := (append_inj_of_isApart hsymbol hspaceApart hblock hgapApart h).2
    have htail := congrArg trimStart htail
    rw [trimStart_append hspace (Scan.stops_isBlank_of_isNumeral hnumeral _),
      trimStart_append hgap (hfits.stops_isBlank _)] at htail
    have hrestApart := isApart_of_allBlank (s := [' ']) (t := rest) rfl (.inl (by simp))
    have heq := append_inj_of_isApart hnumeralFree htrailApart hfits.isBlank_eq_false hrestApart htail
    exact hnumeral.ne_symbol c heq.1

theorem exists_key_of_isField {text : List Char} {name : String} (h : Scan.IsField text name) :
    ∃ word, Scan.IsWord word ∧ (FieldRef.ofText name).key = String.ofList word := by
  cases h with
  | key hkey =>
    rw [FieldRef.ofText_key hkey]
    exact ⟨_, hkey, rfl⟩
  | output hkey _ hsub =>
    rw [FieldRef.ofText_output hkey hsub]
    exact ⟨_, hkey, rfl⟩

theorem exists_word_of_isField {text : List Char} {name : String} (h : Scan.IsField text name) :
    ∃ word output, Scan.IsWord word ∧ text = word ++ output ∧
      (output = [] ∨ ∃ sub, output = '.' :: sub) := by
  cases h with
  | key hkey => exact ⟨text, [], hkey, by simp, .inl rfl⟩
  | output hkey _ _ => exact ⟨_, _, hkey, rfl, .inr ⟨_, rfl⟩⟩

theorem exists_word_of_parse (h : parse s = .ok r) :
    ∃ lead word tail, allBlank lead = true ∧ Scan.IsWord word ∧ s = lead ++ (word ++ tail) ∧
      Stops isWordChar tail ∧
      (tail.head? = some '.' ∨ ∃ w : Spelling, w.Spells r ∧ tail = w.afterField) := by
  obtain ⟨w, hw, hapart, rfl⟩ := spells_of_parse h
  obtain ⟨word, output, hword, hfield, houtput⟩ := exists_word_of_isField hw.field
  refine ⟨w.lead, word, output ++ w.afterField, hw.lead, hword, ?_, ?_⟩
  . rw [Spelling.text, hfield, List.append_assoc]
  . rcases houtput with rfl | ⟨sub, rfl⟩
    . exact ⟨hapart, .inr ⟨w, hw, rfl⟩⟩
    . refine ⟨?_, .inl rfl⟩
      rw [List.cons_append, stops_cons]
      decide

theorem Spelling.Spells.afterField_ne {w : Spelling} (hw : w.Spells r)
    (hblock : ∀ a ∈ block, isBlank a = false) (hblockNe : block ≠ []) (hgap : allBlank gap = true)
    (hne : gap ≠ []) (c : Comparison) (rest : List Char) :
    w.afterField ≠ block ++ (gap ++ (c.symbol.toList ++ ' ' :: rest)) := by
  intro h
  unfold afterField at h
  have hgapNil := (append_inj_of_stops (allBlank_iff.mp hw.gap) (hw.symbol.1.stops_isBlank _)
    (List.forall_mem_nil _) (stops_append_of_ne_nil hblock hblockNe _) h).1
  rw [hgapNil, List.nil_append] at h
  exact symbol_number_ne hw.symbol.1.isBlank_eq_false hw.space hw.numeral hw.trail hblock hgap hne c
    rest h

theorem isWord_of_parse (hne : trim key ≠ [])
    (hkey : ∀ a ∈ trim key, a ≠ '.' ∧ isBlank a = false)
    (h : parse (condition key c numeral) = .ok r) : Scan.IsWord (trim key) := by
  refine ⟨hne, ?_⟩
  by_contra hword
  have hfree : ∀ a ∈ trim key, isBlank a = false := fun a ha => (hkey a ha).2
  obtain ⟨lead, gap, hlead, hgap, hgapNe, hcondition⟩ := exists_condition key
  obtain ⟨lead', word, tail, hlead', hisWord, htext, htail, hcases⟩ := exists_word_of_parse h
  -- The blanks before the key are those before the word, so the key starts with it.
  rw [hcondition] at htext
  have hstart := (append_inj_of_stops (allBlank_iff.mp hlead) (stops_append_of_ne_nil hfree hne _)
    (allBlank_iff.mp hlead') (Scan.stops_isBlank_of_isWord hisWord tail) htext).2
  have hcut : trim key = (trim key).takeWhile isWordChar ++ (trim key).dropWhile isWordChar :=
    List.takeWhile_append_dropWhile.symm
  cases hblock : (trim key).dropWhile isWordChar with
  | nil => exact hword (List.dropWhile_eq_nil_iff.mp hblock)
  | cons a block =>
    have hmem : ∀ b ∈ a :: block, b ∈ trim key := by
      intro b hb
      rw [hcut, hblock]
      exact List.mem_append_right _ hb
    have ha : isWordChar a = false := by
      have hstops := stops_dropWhile isWordChar (trim key)
      rwa [hblock, stops_cons] at hstops
    rw [hcut, hblock, List.append_assoc] at hstart
    have hgoesOn := (append_inj_of_stops (fun _ => List.mem_takeWhile_imp) (stops_cons.mpr ha)
      hisWord.2 htail hstart).2
    rcases hcases with hpoint | ⟨w, hw, hafter⟩
    . rw [← hgoesOn] at hpoint
      exact (hkey a (hmem a List.mem_cons_self)).1 (Option.some.inj hpoint)
    . rw [hafter] at hgoesOn
      exact hw.afterField_ne (fun b hb => hfree b (hmem b hb)) (List.cons_ne_nil a block) hgap hgapNe
        c numeral hgoesOn.symm

/--
A key that is admitted can be used in a condition exactly if it is a word, and is then what the
condition names, without an output. No other text names a key that is not a word either.
-/
theorem condition_usable_iff [Arithmetic α] {ki : KeyedIndicator α} (hadmitted : ki.validate = .ok ())
    (hnumeral : Decimal.IsNumeral numeral) (c : Comparison) :
    ((∃ r, parse (condition ki.key.toList c numeral) = .ok r) ↔
      Scan.IsWord (trim ki.key.toList)) ∧
    (∀ r, parse (condition ki.key.toList c numeral) = .ok r →
      r.fieldRef = ⟨ki.trimmedKey, none⟩ ∧ r.comparison = c ∧ Decimal.read? numeral = some r.value) ∧
    ((∃ s r, parse s = .ok r ∧ r.fieldRef.key = ki.trimmedKey) ↔
      Scan.IsWord (trim ki.key.toList)) := by
  obtain ⟨hne, hkey, _⟩ := KeyedIndicator.validate_eq_ok_iff.mp hadmitted
  obtain ⟨_, _, _, hx⟩ := hnumeral.read?_eq
  have hnamed : ∀ hword : Scan.IsWord (trim ki.key.toList),
      FieldRef.ofText (String.ofList (trim ki.key.toList)) = ⟨ki.trimmedKey, none⟩ :=
    FieldRef.ofText_key
  refine ⟨⟨?_, ?_⟩, ?_, ?_, ?_⟩
  . rintro ⟨r, hr⟩
    exact isWord_of_parse hne hkey hr
  . intro hword
    exact ⟨_, parse_condition hword hnumeral hx c⟩
  . intro r hr
    have hword := isWord_of_parse hne hkey hr
    rw [parse_condition hword hnumeral hx c] at hr
    cases hr
    exact ⟨hnamed hword, rfl, hx⟩
  . rintro ⟨s, r, hr, hrkey⟩
    obtain ⟨w, hw, _, _⟩ := spells_of_parse hr
    obtain ⟨word, hword, hfield⟩ := exists_key_of_isField hw.field
    have hrword : ki.trimmedKey = String.ofList word := hrkey.symm.trans hfield
    rwa [String.ofList_injective hrword]
  . intro hword
    refine ⟨_, _, parse_condition hword hnumeral hx c, ?_⟩
    exact congrArg FieldRef.key (hnamed hword)

theorem condition_usable_iff_umlauts :
    ∃ ki : KeyedIndicator Float, ki.key = " größe_2 " ∧ ki.validate = .ok () ∧
      Decimal.IsNumeral "-30.5".toList ∧ Scan.IsWord (trim ki.key.toList) ∧
      ∃ r, parse (condition ki.key.toList .crossesAbove "-30.5".toList) = .ok r ∧
        r.fieldRef = ⟨ki.trimmedKey, none⟩ ∧ r.comparison = .crossesAbove := by
  have htrim : trim " größe_2 ".toList = ['g', 'r', 'ö', 'ß', 'e', '_', '2'] := by
    rfl
  have hadmitted : (⟨" größe_2 ", .sma 3⟩ : KeyedIndicator Float).validate = .ok () := by
    rw [KeyedIndicator.validate_eq_ok_iff, htrim]
    exact ⟨by simp, by simp [isBlank], rfl⟩
  have hnumeral : Decimal.IsNumeral "-30.5".toList := by
    refine ⟨true, ['-'], "30.5".toList, .minus, ⟨?_, ?_, ?_⟩, rfl⟩ <;> simp [Decimal.isPlaceChar]
  have hword : Scan.IsWord (trim " größe_2 ".toList) := by
    rw [htrim]
    refine ⟨by simp, ?_⟩
    simp only [List.forall_mem_cons, List.not_mem_nil, false_implies, implies_true, and_true]
    decide
  obtain ⟨husable, hnamed, _⟩ := condition_usable_iff hadmitted hnumeral .crossesAbove
  obtain ⟨r, hr⟩ := husable.mpr hword
  obtain ⟨hfield, hcomparison, _⟩ := hnamed r hr
  exact ⟨_, rfl, hadmitted, hnumeral, hword, r, hr, hfield, hcomparison⟩

/-- A key with a hyphen in it is admitted, but cannot be used. -/
theorem not_condition_usable :
    ¬∀ (ki : KeyedIndicator Float) (c : Comparison) (numeral : List Char), ki.validate = .ok () →
      Decimal.IsNumeral numeral → (∃ x, Decimal.read? numeral = some x) →
        ∃ r, parse (condition ki.key.toList c numeral) = .ok r ∧
          r.fieldRef = ⟨ki.trimmedKey, none⟩ := by
  intro husable
  have htrim : trim "a-b".toList = ['a', '-', 'b'] := by
    rfl
  have hadmitted : (⟨"a-b", .sma 3⟩ : KeyedIndicator Float).validate = .ok () := by
    rw [KeyedIndicator.validate_eq_ok_iff, htrim]
    exact ⟨by simp, by simp [isBlank], rfl⟩
  have hnumeral : Decimal.IsNumeral "30".toList := by
    refine ⟨false, [], "30".toList, .none, ⟨?_, ?_, ?_⟩, rfl⟩ <;> simp [Decimal.isPlaceChar]
  obtain ⟨_, _, _, hx⟩ := hnumeral.read?_eq
  obtain ⟨r, hr, _⟩ := husable ⟨"a-b", .sma 3⟩ .greater _ hadmitted hnumeral ⟨_, hx⟩
  obtain ⟨hne, hkey, _⟩ := KeyedIndicator.validate_eq_ok_iff.mp hadmitted
  have hword := isWord_of_parse hne hkey hr
  rw [htrim] at hword
  exact absurd (hword.2 '-' (by simp)) (by decide)

end Rule
end StrategyDesk
