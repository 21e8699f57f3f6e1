import Mathlib.Data.List.TakeWhile
import StrategyDesk.Text.Blank
import StrategyDesk.Text.Bytes
import StrategyDesk.Text.Word

/-!
This module contains how texts fall into pieces: runs of characters of a kind, blanks before what is
read, and the parts between separators.
-/

namespace StrategyDesk.Text

def Stops (kind : Char → Bool) (s : List Char) : Prop :=
  ∀ c, s.head? = some c → kind c = false

section Runs

variable {kind : Char → Bool} {c : Char} {s t : List Char}

@[simp]
theorem stops_nil : Stops kind [] := by
  simp [Stops]

@[simp]
theorem stops_cons : Stops kind (c :: s) ↔ kind c = false := by
  simp [Stops]

theorem stops_iff : Stops kind s ↔ s.head?.any kind = false := by
  cases s <;> simp

theorem stops_append_of_ne_nil (hs : ∀ c ∈ s, kind c = false) (hne : s ≠ []) (t : List Char) :
    Stops kind (s ++ t) := by
  cases s with
  | nil => exact absurd rfl hne
  | cons c s => simp [hs]

theorem stops_dropWhile (kind : Char → Bool) (s : List Char) : Stops kind (s.dropWhile kind) := by
  intro c hc
  have := List.head?_dropWhile_not kind s
  rw [hc] at this
  exact this

theorem takeWhile_of_stops (hs : ∀ c ∈ s, kind c = true) (ht : Stops kind t) :
    (s ++ t).takeWhile kind = s := by
  rw [List.takeWhile_append_of_pos hs]
  cases t with
  | nil => simp
  | cons c t => simp [stops_cons.mp ht]

theorem dropWhile_of_stops (hs : ∀ c ∈ s, kind c = true) (ht : Stops kind t) :
    (s ++ t).dropWhile kind = t := by
  rw [List.dropWhile_append_of_pos hs]
  cases t with
  | nil => simp
  | cons c t => simp [stops_cons.mp ht]

theorem append_inj_of_stops {s' t' : List Char} (hs : ∀ c ∈ s, kind c = true) (ht : Stops kind t)
    (hs' : ∀ c ∈ s', kind c = true) (ht' : Stops kind t') (h : s ++ t = s' ++ t') :
    s = s' ∧ t = t' := by
  constructor
  . rw [← takeWhile_of_stops hs ht, h, takeWhile_of_stops hs' ht']
  . rw [← dropWhile_of_stops hs ht, h, dropWhile_of_stops hs' ht']

end Runs

/-! ## Blanks -/

section Blanks

variable {c : Char} {gap s : List Char}

theorem allBlank_iff : allBlank s = true ↔ ∀ c ∈ s, isBlank c = true := by
  simp [allBlank]

theorem allBlank_append (s t : List Char) : allBlank (s ++ t) = (allBlank s && allBlank t) :=
  List.all_append

theorem trimStart_append (hgap : allBlank gap = true) (hs : Stops isBlank s) :
    trimStart (gap ++ s) = s :=
  dropWhile_of_stops (allBlank_iff.mp hgap) hs

theorem stops_trimStart (s : List Char) : Stops isBlank (trimStart s) :=
  stops_dropWhile isBlank s

theorem exists_gap (s : List Char) : ∃ gap, allBlank gap = true ∧ s = gap ++ trimStart s := by
  refine ⟨s.takeWhile isBlank, ?_, ?_⟩
  . rw [allBlank_iff]
    intro c
    apply List.mem_takeWhile_imp
  . simp [trimStart]

theorem trimStart_eq_nil_iff : trimStart s = [] ↔ allBlank s = true := by
  rw [allBlank_iff]
  apply List.dropWhile_eq_nil_iff

theorem trimStart_of_stops (h : Stops isBlank s) : trimStart s = s := by
  apply trimStart_append (List.all_nil) h

theorem trim_of_stops (hstart : Stops isBlank s) (hend : Stops isBlank s.reverse) : trim s = s := by
  unfold trim trimEnd
  rw [trimStart_of_stops hstart, trimStart_of_stops hend, List.reverse_reverse]

theorem trim_of_forall (h : ∀ c ∈ s, isBlank c = false) : trim s = s := by
  apply trim_of_stops
  . intro c hc
    exact h c (List.mem_of_mem_head? hc)
  . intro c hc
    exact h c (List.mem_reverse.mp (List.mem_of_mem_head? hc))

theorem stops_trim_reverse (s : List Char) : Stops isBlank (trim s).reverse := by
  unfold trim trimEnd
  rw [List.reverse_reverse]
  apply stops_trimStart

theorem trimEnd_isPrefix (s : List Char) : trimEnd s <+: s := by
  unfold trimEnd
  rw [← List.reverse_suffix, List.reverse_reverse]
  apply List.dropWhile_suffix

theorem exists_trim (s : List Char) :
    ∃ lead trail, allBlank lead = true ∧ allBlank trail = true ∧ s = lead ++ (trim s ++ trail) := by
  obtain ⟨lead, hlead, hs⟩ := exists_gap s
  obtain ⟨trail, htrail, hreverse⟩ := exists_gap (trimStart s).reverse
  refine ⟨lead, trail.reverse, hlead, ?_, ?_⟩
  . rw [allBlank_iff] at htrail ⊢
    simpa using htrail
  . have hend : trimStart s = trim s ++ trail.reverse := by
      rw [← List.reverse_inj, hreverse]
      simp [trim, trimEnd]
    rwa [← hend]

theorem stops_trim (s : List Char) : Stops isBlank (trim s) := by
  intro c hc
  obtain ⟨tail, htail⟩ := trimEnd_isPrefix (trimStart s)
  apply stops_trimStart s c
  unfold trim at hc
  rw [← htail, List.head?_append, hc, Option.some_or]

@[simp]
theorem trim_trim (s : List Char) : trim (trim s) = trim s :=
  trim_of_stops (stops_trim s) (stops_trim_reverse s)

def blankPoints : List Nat :=
  [0x9, 0xA, 0xB, 0xC, 0xD, 0x20, 0x85, 0xA0, 0x1680, 0x2000, 0x2001, 0x2002, 0x2003, 0x2004, 0x2005,
    0x2006, 0x2007, 0x2008, 0x2009, 0x200A, 0x2028, 0x2029, 0x202F, 0x205F, 0x3000]

theorem mem_blankPoints (h : isBlank c = true) : c.toNat ∈ blankPoints := by
  simp only [isBlank, Bool.or_eq_true, Bool.and_eq_true, decide_eq_true_eq, beq_iff_eq] at h
  simp only [blankPoints, List.mem_cons, List.not_mem_nil, or_false]
  omega

theorem isBlank_of_isWordChar (h : isWordChar c = true) : isBlank c = false := by
  by_contra hblank
  have hpoints : ∀ n ∈ blankPoints, isWordChar (Char.ofNat n) = false := by
    decide +kernel
  have := hpoints c.toNat (mem_blankPoints (by simpa using hblank))
  rw [Char.ofNat_toNat, h] at this
  cases this

theorem isBlank_of_isDigit (h : c.isDigit = true) : isBlank c = false := by
  apply isBlank_of_isWordChar
  have hlt : c.toNat < 0x80 := by
    have := (Char.isDigit_iff_toNat.mp h).2
    simp at this
    omega
  simp [isWordChar, isAlphanumeric, hlt, Char.isAlphanum, h]

end Blanks

/-! ## Separators -/

theorem segments_eq_splitOn (sep : Char) (s : List Char) : segments sep s = s.splitOn sep := by
  induction s with
  | nil => simp [segments]
  | cons c s ih =>
    simp only [segments, ih]
    unfold List.splitOn
    rw [List.splitOnP_cons_eq_if_modifyHead]
    simp only [beq_iff_eq]
    split
    . rfl
    . cases hparts : List.splitOnP (fun x => x == sep) s with
      | nil => exact absurd hparts (List.splitOnP_ne_nil _ s)
      | cons first rest => rfl

end StrategyDesk.Text
