import StrategyDesk.Proofs.Faults

/-!
This module contains that a list of rules is read piece by piece: what stands before a semicolon is
read as if it stood alone, and so is what stands behind it, apart from the position of an error. The
position is that of a place in the first piece that is not a rule.
-/

namespace StrategyDesk

open Text

@[simp]
theorem ParseError.shift_shift (e : ParseError) (m n : Nat) :
    (e.shift m).shift n = e.shift (m + n) := by
  simp [shift, Nat.add_assoc]

namespace Rule

variable {offset : Nat} {piece : List Char} {pieces : List (List Char)} {e : ParseError}
  {r : Rule Float}

/-! ## One piece more -/

theorem parsePieces_of_blank (h : allBlank piece = true) :
    parsePieces offset (piece :: pieces) =
      parsePieces (offset + byteLength piece + 1) pieces := by
  simp [parsePieces, h]

theorem parsePieces_of_error (h : allBlank piece = false) (he : parse piece = .error e) :
    parsePieces offset (piece :: pieces) = .error (e.shift offset) := by
  simp [parsePieces, h, he, Except.mapError, bind, Except.bind]

theorem parsePieces_of_ok (h : allBlank piece = false) (hr : parse piece = .ok r) :
    parsePieces offset (piece :: pieces) = do
      let rs ← parsePieces (offset + byteLength piece + 1) pieces
      return r :: rs := by
  simp [parsePieces, h, hr, Except.mapError, bind, Except.bind]

theorem piece_cases (piece : List Char) :
    allBlank piece = true ∨ allBlank piece = false ∧
      ((∃ e, parse piece = .error e) ∨ ∃ r, parse piece = .ok r) := by
  cases hblank : allBlank piece with
  | true => exact .inl rfl
  | false =>
    cases hparse : parse piece with
    | error e => exact .inr ⟨rfl, .inl ⟨e, rfl⟩⟩
    | ok r => exact .inr ⟨rfl, .inr ⟨r, rfl⟩⟩

/-! ## Offsets -/

theorem byteLength_closed_cons (piece : List Char) (pieces : List (List Char)) :
    byteLength (closed ';' (piece :: pieces)) =
      byteLength piece + 1 + byteLength (closed ';' pieces) := by
  have hsemicolon : ';'.utf8Size = 1 := by decide
  rw [closed_cons, byteLength_append, byteLength_cons, hsemicolon, Nat.add_assoc]

theorem parsePieces_add (offset n : Nat) (pieces : List (List Char)) :
    parsePieces (offset + n) pieces = (parsePieces offset pieces).mapError (·.shift n) := by
  induction pieces generalizing offset with
  | nil => rfl
  | cons piece pieces ih =>
    have hnext : offset + n + byteLength piece + 1 = offset + byteLength piece + 1 + n := by
      omega
    rcases piece_cases piece with h | ⟨h, ⟨e, he⟩ | ⟨r, hr⟩⟩
    . rw [parsePieces_of_blank h, parsePieces_of_blank h, hnext, ih]
    . rw [parsePieces_of_error h he, parsePieces_of_error h he]
      simp [Except.mapError]
    . rw [parsePieces_of_ok h hr, parsePieces_of_ok h hr, hnext, ih]
      cases parsePieces (offset + byteLength piece + 1) pieces <;> rfl

theorem parsePieces_append (offset : Nat) (before after : List (List Char)) :
    parsePieces offset (before ++ after) = do
      let rs ← parsePieces offset before
      let rs' ← parsePieces (offset + byteLength (closed ';' before)) after
      return rs ++ rs' := by
  induction before generalizing offset with
  | nil =>
    rw [List.nil_append, closed_nil, byteLength_nil, Nat.add_zero]
    cases parsePieces offset after <;> rfl
  | cons piece before ih =>
    rw [List.cons_append, byteLength_closed_cons, ← Nat.add_assoc, ← Nat.add_assoc]
    rcases piece_cases piece with h | ⟨h, ⟨e, he⟩ | ⟨r, hr⟩⟩
    . rw [parsePieces_of_blank h, parsePieces_of_blank h, ih]
    . rw [parsePieces_of_error h he, parsePieces_of_error h he]
      rfl
    . rw [parsePieces_of_ok h hr, parsePieces_of_ok h hr, ih]
      simp only [bind_assoc, pure_bind, List.cons_append]

theorem exists_piece_of_error (h : parsePieces offset pieces = .error e) :
    ∃ before piece after e', pieces = before ++ piece :: after ∧
      (∀ p ∈ before, allBlank p = true ∨ ∃ r, parse p = .ok r) ∧ allBlank piece = false ∧
      parse piece = .error e' ∧ e = e'.shift (offset + byteLength (closed ';' before)) := by
  induction pieces generalizing offset with
  | nil => cases h
  | cons piece pieces ih =>
    have hcons : (allBlank piece = true ∨ ∃ r, parse piece = .ok r) →
        parsePieces (offset + byteLength piece + 1) pieces = .error e →
        ∃ before piece' after e', piece :: pieces = before ++ piece' :: after ∧
          (∀ p ∈ before, allBlank p = true ∨ ∃ r, parse p = .ok r) ∧ allBlank piece' = false ∧
          parse piece' = .error e' ∧ e = e'.shift (offset + byteLength (closed ';' before)) := by
      intro hpiece hrest
      obtain ⟨before, piece', after, e', rfl, hbefore, hblank, he, rfl⟩ := ih hrest
      refine ⟨piece :: before, piece', after, e', rfl, ?_, hblank, he, ?_⟩
      . exact List.forall_mem_cons.mpr ⟨hpiece, hbefore⟩
      . rw [byteLength_closed_cons, ← Nat.add_assoc, ← Nat.add_assoc]
    rcases piece_cases piece with hblank | ⟨hblank, ⟨e', he⟩ | ⟨r, hr⟩⟩
    . rw [parsePieces_of_blank hblank] at h
      exact hcons (.inl hblank) h
    . rw [parsePieces_of_error hblank he] at h
      cases h
      exact ⟨[], piece, pieces, e', rfl, by simp, hblank, he, rfl⟩
    . rw [parsePieces_of_ok hblank hr] at h
      rcases bind_eq_error_iff.mp h with h | ⟨_, _, ⟨⟩⟩
      exact hcons (.inr ⟨r, hr⟩) h

/-! ## Lists -/

theorem parseList_append (a b : List Char) :
    parseList (a ++ ';' :: b) = do
      let rs ← parseList a
      let rs' ← (parseList b).mapError (·.shift (byteLength a + 1))
      return rs ++ rs' := by
  have hoffset : 0 + byteLength (closed ';' (segments ';' a)) = 0 + (byteLength a + 1) := by
    have hsemicolon : byteLength [';'] = 1 := by decide
    rw [closed_segments, byteLength_append, hsemicolon]
  unfold parseList
  rw [segments_append, parsePieces_append, hoffset, parsePieces_add 0]

theorem exists_place_of_parse (h : parse piece = .error e) :
    ∃ read unread, piece = read ++ unread ∧ e.position = byteLength read ∧
      Stops isBlank unread ∧ e.problem.Concerns unread :=
  Scan.exists_place_of_whole Scan.faithful_rule h

/--
A semicolon divides a list of rules: an error before it stays, an error behind it is found as many
bytes further on as there are before it, and else the rules of both sides are read. The position of
an error is that of a place in the first piece that is neither blank nor a rule.
-/
theorem parseList_by_pieces (a b : List Char) :
    (parseList (a ++ ';' :: b) =
      match parseList a, parseList b with
      | .error e, _ => .error e
      | .ok _, .error e => .error { e with position := e.position + (byteLength a + 1) }
      | .ok rs, .ok rs' => .ok (rs ++ rs')) ∧
    ∀ (t : List Char) (e : ParseError), parseList t = .error e →
      ∃ (before : List (List Char)) (read unread : List Char) (after : List (List Char)),
        t.splitOn ';' = before ++ (read ++ unread) :: after ∧
        (∀ piece ∈ before, allBlank piece = true ∨ ∃ r, parse piece = .ok r) ∧
        allBlank (read ++ unread) = false ∧
        parse (read ++ unread) = .error { e with position := byteLength read } ∧
        t = closed ';' before ++ read ++ (unread ++ opened ';' after) ∧
        e.position = byteLength (closed ';' before ++ read) ∧ e.position ≤ byteLength t := by
  constructor
  . rw [parseList_append]
    cases parseList a with
    | error e => rfl
    | ok rs => cases parseList b <;> rfl
  . intro t e h
    obtain ⟨before, piece, after, e', hpieces, hbefore, hblank, he, rfl⟩ := exists_piece_of_error h
    obtain ⟨read, unread, rfl, hposition, _, _⟩ := exists_place_of_parse he
    have ht := eq_of_segments_eq hpieces
    rw [List.append_assoc, ← List.append_assoc] at ht
    have hplace : (e'.shift (0 + byteLength (closed ';' before))).position =
        byteLength (closed ';' before ++ read) := by
      simp only [ParseError.shift, hposition, byteLength_append]
      omega
    refine ⟨before, read, unread, after, ?_, hbefore, hblank, ?_, ht, hplace, ?_⟩
    . rw [← segments_eq_splitOn]
      exact hpieces
    . rw [he, ← hposition]
      rfl
    . rw [hplace, ht, byteLength_append _ (unread ++ _)]
      apply Nat.le_add_right

theorem parseList_by_pieces_umlauts :
    ∃ (e : ParseError) (before : List (List Char)) (read unread : List Char)
        (after : List (List Char)),
      parseList ("größe > 1 ;".toList ++ ';' :: " ü ! 2".toList) = .error e ∧ e.position = 18 ∧
        "größe > 1 ;; ü ! 2".toList.splitOn ';' = before ++ (read ++ unread) :: after ∧
        parse (read ++ unread) = .error { e with position := byteLength read } ∧
        e.position = byteLength (closed ';' before ++ read) := by
  obtain ⟨hboth, hplaces⟩ := parseList_by_pieces "größe > 1 ;".toList " ü ! 2".toList
  have hfirst : (parseList "größe > 1 ;".toList).toOption.map (·.length) = some 1 := by
    rfl
  have hsecond : (error? (parseList " ü ! 2".toList)).map (·.position) = some 4 := by
    rfl
  obtain ⟨rs, hrs, _⟩ := exists_ok_of_toOption hfirst
  obtain ⟨e, he, hposition⟩ := exists_error_of_error? hsecond
  rw [hrs, he] at hboth
  obtain ⟨before, read, unread, after, hpieces, _, _, hparse, _, hplace, _⟩ := hplaces _ _ hboth
  refine ⟨_, before, read, unread, after, hboth, ?_, hpieces, hparse, hplace⟩
  show e.position + 14 = 18
  rw [hposition]

end Rule
end StrategyDesk
