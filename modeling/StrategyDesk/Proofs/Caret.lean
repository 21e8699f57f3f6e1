import StrategyDesk.Proofs.Rule.Pieces

/-!
This module contains where the caret of an error stands. It is moved by one space for every byte
before the place where the error was noticed, so it stands under that place if all characters before
it are ASCII, and to the right of it otherwise.
-/

namespace StrategyDesk

open Text

namespace ParseError

variable {e : ParseError} {t : List Char} {m n : Nat}

def HasCaret (shown : List Char) (n : Nat) : Prop :=
  (shown.splitOn '\n')[1]? = some (List.replicate n ' ' ++ ['^'])

theorem toList_withContext (e : ParseError) (t : List Char) :
    (e.withContext (String.ofList t)).toList =
      t ++ '\n' :: ((List.replicate e.position ' ' ++ ['^']) ++ '\n' :: e.message.toList) := by
  simp [withContext, toString]

theorem splitOn_of_notMem {sep : Char} (h : sep ∉ t) : t.splitOn sep = [t] := by
  unfold List.splitOn
  apply List.splitOnP_eq_singleton
  intro c hc
  rw [beq_eq_false_iff_ne]
  rintro rfl
  exact h hc

theorem hasCaret_position (e : ParseError) (hline : '\n' ∉ t) :
    HasCaret (e.withContext (String.ofList t)).toList e.position := by
  have hcaret : '\n' ∉ List.replicate e.position ' ' ++ ['^'] := by
    simp
  unfold HasCaret
  rw [toList_withContext, ← segments_eq_splitOn, segments_append, segments_append]
  simp only [segments_eq_splitOn, splitOn_of_notMem hline, splitOn_of_notMem hcaret]
  rfl

theorem HasCaret.eq {shown : List Char} (hm : HasCaret shown m) (hn : HasCaret shown n) : m = n := by
  have h := Option.some.inj (hm.symm.trans hn)
  simpa using congrArg List.length h

theorem hasCaret_length_iff {read : List Char} (hline : '\n' ∉ t)
    (hposition : e.position = byteLength read) :
    HasCaret (e.withContext (String.ofList t)).toList read.length ↔ ∀ c ∈ read, c.toNat < 0x80 := by
  have hcaret := hasCaret_position e hline
  rw [← byteLength_eq_length_iff, ← hposition]
  constructor
  . intro h
    exact hcaret.eq h
  . intro h
    rwa [← h]

end ParseError

theorem exists_place_of_error {t : List Char} {e : ParseError}
    (h : Rule.parseList t = .error e ∨ Indicator.parse t = .error e) :
    ∃ read unread trail, t = read ++ (unread ++ trail) ∧ (trail = [] ∨ trail.head? = some ';') ∧
      e.position = byteLength read ∧ Stops isBlank unread ∧ e.problem.Concerns unread := by
  rcases h with h | h
  . obtain ⟨before, piece, after, e', hpieces, _, _, he, rfl⟩ := Rule.exists_piece_of_error h
    obtain ⟨read, unread, rfl, hposition, hblank, hproblem⟩ := Rule.exists_place_of_parse he
    refine ⟨closed ';' before ++ read, unread, opened ';' after, ?_, ?_, ?_, hblank, hproblem⟩
    . rw [eq_of_segments_eq hpieces]
      simp only [List.append_assoc]
    . cases after with
      | nil => exact .inl rfl
      | cons piece after => exact .inr rfl
    . simp only [ParseError.shift, hposition, byteLength_append]
      omega
  . obtain ⟨read, unread, rfl, hposition, hblank, hproblem⟩ :=
      Scan.exists_place_of_whole Scan.faithful_indicator h
    refine ⟨read, unread, [], ?_, .inl rfl, hposition, hblank, hproblem⟩
    rw [List.append_nil]

/--
Under a text of one line, the caret of its error stands behind as many spaces as there are bytes
before the place where the error was noticed. So it stands under that place, which is no blank and
where what the message speaks of begins, exactly if all characters before it are ASCII.
-/
theorem ParseError.caret_under_place_iff {t : List Char} {e : ParseError} (hline : '\n' ∉ t)
    (h : Rule.parseList t = .error e ∨ Indicator.parse t = .error e) :
    ∃ read unread trail, t = read ++ (unread ++ trail) ∧ (trail = [] ∨ trail.head? = some ';') ∧
      Stops isBlank unread ∧ e.problem.Concerns unread ∧
      HasCaret (e.withContext (String.ofList t)).toList (byteLength read) ∧
      (HasCaret (e.withContext (String.ofList t)).toList read.length ↔
        ∀ c ∈ read, c.toNat < 0x80) := by
  obtain ⟨read, unread, trail, ht, htrail, hposition, hblank, hproblem⟩ := exists_place_of_error h
  refine ⟨read, unread, trail, ht, htrail, hblank, hproblem, ?_, ?_⟩
  . rw [← hposition]
    exact hasCaret_position e hline
  . exact hasCaret_length_iff hline hposition

theorem ParseError.caret_under_place_iff_umlauts :
    ∃ (e : ParseError) (read unread trail : List Char),
      '\n' ∉ "rsi < 30; größe ! 2".toList ∧ Rule.parseList "rsi < 30; größe ! 2".toList = .error e ∧
      "rsi < 30; größe ! 2".toList = read ++ (unread ++ trail) ∧ e.problem.Concerns unread ∧
      HasCaret (e.withContext "rsi < 30; größe ! 2").toList 18 ∧ byteLength read = 18 ∧
      (HasCaret (e.withContext "rsi < 30; größe ! 2").toList read.length ↔
        ∀ c ∈ read, c.toNat < 0x80) := by
  have hline : '\n' ∉ "rsi < 30; größe ! 2".toList := by
    simp
  have hposition : (error? (Rule.parseList "rsi < 30; größe ! 2".toList)).map (·.position) =
      some 18 := by
    rfl
  obtain ⟨e, he, hposition⟩ := exists_error_of_error? hposition
  obtain ⟨read, unread, trail, ht, _, _, hproblem, hcaret, hascii⟩ :=
    caret_under_place_iff hline (.inl he)
  have hbytes : byteLength read = 18 := by
    rw [← hposition]
    exact hcaret.eq (hasCaret_position e hline)
  rw [hbytes] at hcaret
  exact ⟨e, read, unread, trail, hline, he, ht, hproblem, hcaret, hbytes, hascii⟩

/-- Behind an umlaut the caret stands one place too far to the right. -/
theorem ParseError.not_caret_under_place :
    ¬∀ (t : List Char) (e : ParseError), '\n' ∉ t →
      (Rule.parseList t = .error e ∨ Indicator.parse t = .error e) →
        ∀ read rest, t = read ++ rest → e.position = byteLength read →
          HasCaret (e.withContext (String.ofList t)).toList read.length := by
  intro hunder
  have hposition : (error? (Rule.parseList "ö ? 30".toList)).map (·.position) = some 3 := by
    rfl
  obtain ⟨e, he, hposition⟩ := exists_error_of_error? hposition
  have hline : '\n' ∉ "ö ? 30".toList := by
    simp
  have hplace : "ö ? 30".toList = "ö ".toList ++ "? 30".toList := by
    rfl
  have hbytes : byteLength "ö ".toList = 3 := by
    rfl
  have hcaret := hunder _ e hline (.inl he) _ _ hplace (hposition.trans hbytes.symm)
  have hascii := (hasCaret_length_iff hline (hposition.trans hbytes.symm)).mp hcaret
  exact absurd (hascii 'ö' (by simp)) (by decide)

end StrategyDesk
