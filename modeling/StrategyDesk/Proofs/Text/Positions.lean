import StrategyDesk.Proofs.Text.Pieces

/-!
This module contains how places in a text are counted. The position of a place is the length in
bytes of what comes before it, which is the number of characters there unless one lies outside of
ASCII. It also contains the places of the parts between separators.
-/

namespace StrategyDesk.Text

variable {c sep : Char} {s t part : List Char} {before after : List (List Char)}

/-! ## Bytes and characters -/

theorem utf8Size_eq_one_iff_toNat : c.utf8Size = 1 ↔ c.toNat < 0x80 := by
  rw [Char.utf8Size_eq_one_iff, UInt32.le_iff_toNat_le]
  exact Nat.lt_succ_iff.symm

theorem length_le_byteLength (s : List Char) : s.length ≤ byteLength s := by
  induction s with
  | nil => simp
  | cons c s ih =>
    have := c.utf8Size_pos
    rw [byteLength_cons, List.length_cons]
    omega

theorem byteLength_eq_length_iff : byteLength s = s.length ↔ ∀ c ∈ s, c.toNat < 0x80 := by
  induction s with
  | nil => simp
  | cons c s ih =>
    have hpos := c.utf8Size_pos
    have hle := length_le_byteLength s
    rw [byteLength_cons, List.length_cons, List.forall_mem_cons, ← ih, ← utf8Size_eq_one_iff_toNat]
    omega

/-! ## Parts between separators -/

def closed (sep : Char) (parts : List (List Char)) : List Char :=
  parts.flatMap fun part => part ++ [sep]

def opened (sep : Char) (parts : List (List Char)) : List Char :=
  parts.flatMap fun part => sep :: part

@[simp]
theorem closed_nil : closed sep [] = [] := rfl

@[simp]
theorem closed_cons : closed sep (part :: after) = part ++ sep :: closed sep after := by
  simp [closed]

@[simp]
theorem closed_append : closed sep (before ++ after) = closed sep before ++ closed sep after := by
  simp [closed]

theorem cons_closed (sep : Char) (parts : List (List Char)) :
    sep :: closed sep parts = opened sep parts ++ [sep] := by
  induction parts with
  | nil => rfl
  | cons part parts ih => simp [closed_cons, ih, opened]

theorem segments_append (sep : Char) (s t : List Char) :
    segments sep (s ++ sep :: t) = segments sep s ++ segments sep t := by
  induction s with
  | nil => simp [segments]
  | cons c s ih =>
    simp only [List.cons_append, segments, ih]
    split
    . rfl
    . cases h : segments sep s with
      | nil => exact absurd h (segments_ne_nil sep s)
      | cons first rest => rfl

@[simp]
theorem closed_segments (sep : Char) (s : List Char) : closed sep (segments sep s) = s ++ [sep] := by
  induction s with
  | nil => rfl
  | cons c s ih =>
    simp only [segments]
    split
    . next h => simp [h, ih]
    . cases h : segments sep s with
      | nil => exact absurd h (segments_ne_nil sep s)
      | cons first rest =>
        rw [h, closed_cons] at ih
        simp [ih]

theorem eq_of_segments_eq (h : segments sep s = before ++ part :: after) :
    s = closed sep before ++ (part ++ opened sep after) := by
  have hs := closed_segments sep s
  rw [h, closed_append, closed_cons, cons_closed] at hs
  have hend : s ++ [sep] = (closed sep before ++ (part ++ opened sep after)) ++ [sep] := by
    rw [← hs]
    simp
  exact List.append_cancel_right hend

end StrategyDesk.Text
