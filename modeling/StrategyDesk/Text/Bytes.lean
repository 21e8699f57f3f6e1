/-!
This module contains the lengths of texts in UTF-8 bytes, the unit that positions are counted in,
and the cutting of a text at a separator.
-/

namespace StrategyDesk.Text

def byteLength (s : List Char) : Nat :=
  s.foldr (fun c n => c.utf8Size + n) 0

@[simp]
theorem byteLength_nil : byteLength [] = 0 := rfl

@[simp]
theorem byteLength_cons (c : Char) (s : List Char) :
    byteLength (c :: s) = c.utf8Size + byteLength s := rfl

@[simp]
theorem byteLength_append (s t : List Char) :
    byteLength (s ++ t) = byteLength s + byteLength t := by
  induction s with
  | nil => simp
  | cons c s ih => simp [ih, Nat.add_assoc]

def segments (sep : Char) : List Char → List (List Char)
  | [] => [[]]
  | c :: s =>
    if c = sep then
      [] :: segments sep s
    else
      match segments sep s with
      | [] => [[c]]
      | first :: rest => (c :: first) :: rest

theorem segments_ne_nil (sep : Char) (s : List Char) : segments sep s ≠ [] := by
  cases s with
  | nil => simp [segments]
  | cons c s =>
    simp only [segments]
    split
    · simp
    · split <;> simp

end StrategyDesk.Text
