import StrategyDesk.Proofs.Decimal.Nearest
import StrategyDesk.Proofs.Text.Pieces

/-!
This module contains how numbers without exponent are written: an optional sign, then digits with at
most one point among or beside them. Every text of this form is read.
-/

namespace StrategyDesk
namespace Decimal

/-! ## Digits -/

theorem valueOf_eq (ds : List Char) : valueOf ds = Nat.ofDigitChars 10 ds 0 :=
  (Nat.ofDigitChars_eq_foldl).symm

theorem valueOf_lt {ds : List Char} (h : ∀ c ∈ ds, c.isDigit = true) :
    valueOf ds < 10 ^ ds.length := by
  rw [valueOf_eq]
  induction ds with
  | nil => simp
  | cons c ds ih =>
    rw [List.forall_mem_cons] at h
    have hdigit := (Char.isDigit_iff_toNat.mp h.1).2
    have hrest := ih h.2
    rw [Nat.ofDigitChars_cons, Nat.ofDigitChars_eq_ofDigitChars_zero, List.length_cons, Nat.pow_succ']
    simp at hdigit ⊢
    have hle : 10 ^ ds.length * (c.toNat - 48) ≤ 10 ^ ds.length * 9 :=
      Nat.mul_le_mul_left _ (by omega)
    omega

theorem valueOf_append (ds es : List Char) :
    valueOf (ds ++ es) = valueOf ds * 10 ^ es.length + valueOf es := by
  simp only [valueOf_eq]
  rw [Nat.ofDigitChars_append, Nat.ofDigitChars_eq_ofDigitChars_zero, Nat.mul_comm]

/-! ## Signs -/

inductive IsSign : Bool → List Char → Prop where
  | none : IsSign false []
  | plus : IsSign false ['+']
  | minus : IsSign true ['-']

def isSignChar (c : Char) : Bool :=
  c == '+' || c == '-'

theorem splitSign_append {negative : Bool} {sign s : List Char} (hsign : IsSign negative sign)
    (hs : Text.Stops isSignChar s) : splitSign (sign ++ s) = (negative, s) := by
  cases hsign with
  | none =>
    cases s with
    | nil => rfl
    | cons c s =>
      simp [isSignChar] at hs
      simp [splitSign, hs]
  | plus => rfl
  | minus => rfl

theorem exists_sign (s : List Char) :
    ∃ sign, IsSign (splitSign s).1 sign ∧ s = sign ++ (splitSign s).2 := by
  unfold splitSign
  split
  . exact ⟨_, .minus, rfl⟩
  . exact ⟨_, .plus, rfl⟩
  . exact ⟨_, .none, rfl⟩

/-! ## Places -/

def isPlaceChar (c : Char) : Bool :=
  c.isDigit || c == '.'

inductive Places.Spells : Places → List Char → Prop where
  | whole {ds : List Char} (hds : ∀ c ∈ ds, c.isDigit = true) : Spells ⟨ds, []⟩ ds
  | point {ds es : List Char} (hds : ∀ c ∈ ds, c.isDigit = true) (hes : ∀ c ∈ es, c.isDigit = true) :
    Spells ⟨ds, es⟩ (ds ++ '.' :: es)

structure IsUnsigned (s : List Char) : Prop where
  char : ∀ c ∈ s, isPlaceChar c = true
  point : s.count '.' ≤ 1
  digit : ∃ c ∈ s, c.isDigit = true

theorem stops_isDigit {s : List Char} (h : Text.Stops isPlaceChar s) : Text.Stops Char.isDigit s := by
  intro c hc
  have := h c hc
  simp [isPlaceChar] at this
  exact this.1

theorem splitPlaces_append {p : Places} {body rest : List Char} (hbody : p.Spells body)
    (hrest : Text.Stops isPlaceChar rest) : splitPlaces (body ++ rest) = (p, rest) := by
  have hdigit := stops_isDigit hrest
  cases hbody with
  | whole hds =>
    simp only [splitPlaces, splitDigits, Text.takeWhile_of_stops hds hdigit,
      Text.dropWhile_of_stops hds hdigit]
    split
    . simp [isPlaceChar] at hrest
    . rfl
  | point hds hes =>
    have hpoint : ∀ s, Text.Stops Char.isDigit ('.' :: s) := by
      simp
    simp only [splitPlaces, splitDigits, List.append_assoc, List.cons_append,
      Text.takeWhile_of_stops hds (hpoint _), Text.dropWhile_of_stops hds (hpoint _),
      Text.takeWhile_of_stops hes hdigit, Text.dropWhile_of_stops hes hdigit]

theorem exists_places (s : List Char) :
    ∃ body, (splitPlaces s).1.Spells body ∧ s = body ++ (splitPlaces s).2 := by
  have hdigits : ∀ t : List Char, ∀ c ∈ (splitDigits t).1, c.isDigit = true := by
    intro t c
    apply List.mem_takeWhile_imp
  have hjoin : ∀ t : List Char, (splitDigits t).1 ++ (splitDigits t).2 = t := by
    simp [splitDigits]
  unfold splitPlaces
  dsimp only
  split
  . next t hrest =>
    refine ⟨_, .point (hdigits s) (hdigits t), ?_⟩
    rw [List.append_assoc, List.cons_append, hjoin, ← hrest, hjoin]
  . exact ⟨_, .whole (hdigits s), (hjoin s).symm⟩

theorem isUnsigned_of_spells {p : Places} {s : List Char} (hs : p.Spells s)
    (hp : p.isEmpty = false) : IsUnsigned s := by
  have hpoint : ∀ {ds : List Char}, (∀ c ∈ ds, c.isDigit = true) → ds.count '.' = 0 := by
    intro ds hds
    rw [List.count_eq_zero]
    intro hmem
    exact absurd (hds _ hmem) (by decide)
  cases hs with
  | whole hds =>
    constructor
    . intro c hc
      simp [isPlaceChar, hds c hc]
    . simp [hpoint hds]
    . obtain ⟨c, hc⟩ := List.exists_mem_of_ne_nil _ (by simpa [Places.isEmpty] using hp)
      exact ⟨c, hc, hds c hc⟩
  | @point ds es hds hes =>
    constructor
    . intro c hc
      simp only [List.mem_append, List.mem_cons] at hc
      rcases hc with hc | rfl | hc
      . simp [isPlaceChar, hds c hc]
      . simp [isPlaceChar]
      . simp [isPlaceChar, hes c hc]
    . simp [List.count_append, hpoint hds, hpoint hes]
    . have hne : ds ++ es ≠ [] := by
        intro hnil
        simp at hnil
        simp [Places.isEmpty, hnil] at hp
      obtain ⟨c, hc⟩ := List.exists_mem_of_ne_nil _ hne
      rcases List.mem_append.mp hc with hc | hc
      . exact ⟨c, by simp [hc], hds c hc⟩
      . exact ⟨c, by simp [hc], hes c hc⟩

theorem IsUnsigned.exists_places {s : List Char} (h : IsUnsigned s) :
    ∃ p : Places, p.Spells s ∧ p.isEmpty = false := by
  have hds : ∀ c ∈ s.takeWhile Char.isDigit, c.isDigit = true := by
    intro c
    apply List.mem_takeWhile_imp
  have hs := List.takeWhile_append_dropWhile (p := Char.isDigit) (l := s)
  obtain ⟨c, hc, hdigit⟩ := h.digit
  cases hrest : s.dropWhile Char.isDigit with
  | nil =>
    rw [hrest, List.append_nil] at hs
    rw [hs] at hds
    refine ⟨⟨s, []⟩, .whole hds, ?_⟩
    simp [Places.isEmpty, List.ne_nil_of_mem hc]
  | cons d es =>
    rw [hrest] at hs
    generalize s.takeWhile Char.isDigit = ds at hs hds
    have hd : d = '.' := by
      have hd := Text.stops_dropWhile Char.isDigit s d (by simp [hrest])
      have := h.char d (by simp [← hs])
      simpa [isPlaceChar, hd] using this
    subst hd hs
    have hes : ∀ c ∈ es, c.isDigit = true := by
      intro e he
      have hpoint := h.point
      have := h.char e (by simp [he])
      simp only [isPlaceChar, Bool.or_eq_true, beq_iff_eq] at this
      rcases this with hdigit | rfl
      . exact hdigit
      . have := List.count_pos_iff.mpr he
        simp [List.count_append] at hpoint
        omega
    refine ⟨⟨ds, es⟩, .point hds hes, ?_⟩
    by_contra hempty
    simp [Places.isEmpty] at hempty
    simp [hempty] at hc
    subst hc
    cases hdigit

/-! ## Whole texts -/

def IsNumeral (s : List Char) : Prop :=
  ∃ negative sign digits, IsSign negative sign ∧ IsUnsigned digits ∧ s = sign ++ digits

theorem IsNumeral.exists_cons {s : List Char} (h : IsNumeral s) :
    ∃ c t, s = c :: t ∧ (isSignChar c = true ∨ isPlaceChar c = true) := by
  obtain ⟨negative, sign, digits, hsign, hdigits, rfl⟩ := h
  cases hsign with
  | none =>
    obtain ⟨c, hc, _⟩ := hdigits.digit
    cases digits with
    | nil => cases hc
    | cons d digits => exact ⟨d, digits, rfl, .inr (hdigits.char d List.mem_cons_self)⟩
  | plus => exact ⟨'+', digits, rfl, .inl rfl⟩
  | minus => exact ⟨'-', digits, rfl, .inl rfl⟩

theorem IsUnsigned.stops_isSignChar {s : List Char} (h : IsUnsigned s) (rest : List Char) :
    Text.Stops isSignChar (s ++ rest) := by
  obtain ⟨c, hc, _⟩ := h.digit
  cases s with
  | nil => cases hc
  | cons d s =>
    have hd := h.char d (by simp)
    rw [List.cons_append, Text.stops_cons]
    by_contra hsign
    simp only [isSignChar, Bool.not_eq_false, Bool.or_eq_true, beq_iff_eq] at hsign
    rcases hsign with rfl | rfl
    . exact absurd hd (by decide)
    . exact absurd hd (by decide)

theorem toLower_of_isPlaceChar {c : Char} (h : isPlaceChar c = true) :
    c.toLower ≠ 'n' ∧ c.toLower ≠ 'i' := by
  have hlt : c.toNat < 0x3A := by
    simp only [isPlaceChar, Bool.or_eq_true, beq_iff_eq] at h
    rcases h with h | rfl
    . have := (Char.isDigit_iff_toNat.mp h).2
      simp at this
      omega
    . decide
  have hpoints : ∀ n < 0x3A, (Char.ofNat n).toLower ≠ 'n' ∧ (Char.ofNat n).toLower ≠ 'i' := by
    decide +kernel
  have := hpoints c.toNat hlt
  rwa [Char.ofNat_toNat] at this

theorem readWord_of_isUnsigned {s : List Char} (h : IsUnsigned s) (negative : Bool) :
    readWord negative s = none := by
  obtain ⟨c, hc, _⟩ := h.digit
  cases s with
  | nil => cases hc
  | cons d s =>
    have hd := toLower_of_isPlaceChar (h.char d (by simp))
    simp [readWord, Text.sameLetters, hd]

theorem read?_append {p : Places} {negative : Bool} {sign digits : List Char}
    (hsign : IsSign negative sign) (hdigits : p.Spells digits) (hp : p.isEmpty = false) :
    read? (sign ++ digits) = some (p.toFloat negative 0) := by
  have hunsigned := isUnsigned_of_spells hdigits hp
  have hstops := hunsigned.stops_isSignChar []
  have hplaces := splitPlaces_append hdigits Text.stops_nil
  rw [List.append_nil] at hstops hplaces
  unfold read?
  rw [splitSign_append hsign hstops]
  dsimp only
  rw [readWord_of_isUnsigned hunsigned, Option.orElse_none, readUnsigned, hplaces]
  simp [hp, readExponent]

theorem exists_nearest (negative : Bool) (digits : Nat) (power : Int) :
    ∃ num den, toFloat negative digits power = Binary64.nearest negative num den := by
  unfold toFloat
  dsimp only
  split
  . exact ⟨_, _, rfl⟩
  . split
    . exact ⟨_, _, rfl⟩
    . exact ⟨_, _, rfl⟩

theorem IsNumeral.read?_eq {s : List Char} (h : IsNumeral s) :
    ∃ negative num den, read? s = some (Binary64.nearest negative num den) := by
  obtain ⟨negative, sign, digits, hsign, hdigits, rfl⟩ := h
  obtain ⟨p, hp, hne⟩ := hdigits.exists_places
  obtain ⟨num, den, hnearest⟩ := exists_nearest negative (valueOf (p.whole ++ p.fraction))
    (0 - p.fraction.length)
  refine ⟨negative, num, den, ?_⟩
  rw [read?_append hsign hp hne, Places.toFloat, hnearest]

theorem IsNumeral.ne_notANumber {s : List Char} {x : Float} (h : IsNumeral s)
    (hx : read? s = some x) : Binary64.ofFloat x ≠ .notANumber := by
  obtain ⟨negative, num, den, hread⟩ := h.read?_eq
  rw [hread] at hx
  cases hx
  apply Binary64.ofFloat_nearest_ne_notANumber

end Decimal
end StrategyDesk
