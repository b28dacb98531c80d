import ComponentRules.Json.Printer
import ComponentRules.Json.Reader
import Mathlib.Data.List.Forall2

/-!
# Written values are scanned again

What stands in a written text is cut into the tokens it was made of, whatever follows it.

* `scan_gap`, `scan_punctuation`, `scan_literal`: one piece of a text.
* `scan_printString`: a string between quotes is one token that holds the string.
-/

namespace ComponentRules.Json

/-! ## One piece at a time -/

theorem scan_gap {gap : List Char} (h : ∀ c ∈ gap, isGap c = true) (offset : Nat)
    (rest : List Char) :
    Token.scan offset (gap ++ rest) = Token.scan (offset + gap.length) rest := by
  induction gap generalizing offset with
  | nil => rfl
  | cons c gap ih =>
    rw [List.cons_append, Token.scan, if_pos (h c (by simp)), ih fun d hd => h d (by simp [hd]),
      List.length_cons, Nat.add_assoc, Nat.add_comm 1]

theorem scan_punctuation {c : Char} {lexeme : Lexeme} (hg : isGap c = false)
    (hp : punctuation? c = some lexeme) (offset : Nat) (rest : List Char) :
    Token.scan offset (c :: rest) =
      ⟨lexeme, offset, offset + 1⟩ :: Token.scan (offset + 1) rest := by
  rw [Token.scan, if_neg (by simp [hg]), hp]

theorem scan_literal {c : Char} {cs rest : List Char} {lexeme : Lexeme} {offset stop : Nat}
    (hg : isGap c = false) (hp : punctuation? c = none)
    (h : scanLiteral offset c cs = .ok (lexeme, stop, rest)) :
    Token.scan offset (c :: cs) = ⟨lexeme, offset, stop⟩ :: Token.scan stop rest := by
  rw [Token.scan, if_neg (by simp [hg]), hp]
  simp only
  split
  · rename_i he
    rw [h] at he
    cases he
  · rename_i he
    rw [h] at he
    cases he
    rfl

theorem scan_comma (offset : Nat) (rest : List Char) :
    Token.scan offset (',' :: rest) =
      ⟨.comma, offset, offset + 1⟩ :: Token.scan (offset + 1) rest :=
  scan_punctuation (by decide) rfl offset rest

theorem scan_colon (offset : Nat) (rest : List Char) :
    Token.scan offset (':' :: rest) =
      ⟨.colon, offset, offset + 1⟩ :: Token.scan (offset + 1) rest :=
  scan_punctuation (by decide) rfl offset rest

theorem scan_beginArray (offset : Nat) (rest : List Char) :
    Token.scan offset ('[' :: rest) =
      ⟨.beginArray, offset, offset + 1⟩ :: Token.scan (offset + 1) rest :=
  scan_punctuation (by decide) rfl offset rest

theorem scan_endArray (offset : Nat) (rest : List Char) :
    Token.scan offset (']' :: rest) =
      ⟨.endArray, offset, offset + 1⟩ :: Token.scan (offset + 1) rest :=
  scan_punctuation (by decide) rfl offset rest

theorem scan_beginObject (offset : Nat) (rest : List Char) :
    Token.scan offset ('\x7b' :: rest) =
      ⟨.beginObject, offset, offset + 1⟩ :: Token.scan (offset + 1) rest :=
  scan_punctuation (by decide) rfl offset rest

theorem scan_endObject (offset : Nat) (rest : List Char) :
    Token.scan offset ('\x7d' :: rest) =
      ⟨.endObject, offset, offset + 1⟩ :: Token.scan (offset + 1) rest :=
  scan_punctuation (by decide) rfl offset rest

theorem scan_null (offset : Nat) (rest : List Char) :
    Token.scan offset ('n' :: 'u' :: 'l' :: 'l' :: rest) =
      ⟨.null, offset, offset + 4⟩ :: Token.scan (offset + 4) rest :=
  scan_literal (by decide) rfl rfl

theorem scan_true (offset : Nat) (rest : List Char) :
    Token.scan offset ('t' :: 'r' :: 'u' :: 'e' :: rest) =
      ⟨.bool true, offset, offset + 4⟩ :: Token.scan (offset + 4) rest :=
  scan_literal (by decide) rfl rfl

theorem scan_false (offset : Nat) (rest : List Char) :
    Token.scan offset ('f' :: 'a' :: 'l' :: 's' :: 'e' :: rest) =
      ⟨.bool false, offset, offset + 5⟩ :: Token.scan (offset + 5) rest :=
  scan_literal (by decide) rfl rfl

/-! ## Strings -/

theorem hexCode?_hexPair : ∀ n < 0x20,
    hexCode? '0' '0' (Nat.digitChar (n / 16)) (Nat.digitChar (n % 16)) = some n := by
  decide

theorem scanString_quote (d : Decoding) (offset : Nat) (rest : List Char) :
    scanString d offset ('"' :: rest) = .ok (d.close (offset + 1), offset + 1, rest) := by
  rw [scanString.eq_def]
  rfl

theorem scanString_letter {e c : Char} (hu : e ≠ 'u') (h : escaped? e = some c) (d : Decoding)
    (offset : Nat) (rest : List Char) :
    scanString d offset ('\\' :: e :: rest) =
      scanString (d.char (offset + 2) c) (offset + 2) rest := by
  rw [scanString.eq_def]
  simp [hu, h]

theorem scanString_code {x₁ x₂ x₃ x₄ : Char} {n : Nat} (h : hexCode? x₁ x₂ x₃ x₄ = some n)
    (d : Decoding) (offset : Nat) (rest : List Char) :
    scanString d offset ('\\' :: 'u' :: x₁ :: x₂ :: x₃ :: x₄ :: rest) =
      scanString (d.code (offset + 6) n) (offset + 6) rest := by
  rw [scanString.eq_def]
  simp [h]

theorem scanString_plain {c : Char} (hq : c ≠ '"') (hb : c ≠ '\\') (hc : 0x20 ≤ c.toNat)
    (d : Decoding) (offset : Nat) (rest : List Char) :
    scanString d offset (c :: rest) =
      scanString (d.char (offset + 1) c) (offset + c.utf8Size) rest := by
  rw [scanString.eq_def]
  simp [hq, hb, Nat.not_lt.mpr hc]

/-- Codes of control characters are no surrogates. -/
theorem code_of_lt {n : Nat} (h : n < 0x20) (before : List Char) (offset : Nat) :
    Decoding.code (.ok ⟨before, none⟩) offset n = .ok ⟨Char.ofNat n :: before, none⟩ := by
  have hlow : Decoding.isLowSurrogate n = false := by
    simp only [Decoding.isLowSurrogate, Bool.and_eq_false_iff, decide_eq_false_iff_not]
    omega
  have hhigh : Decoding.isHighSurrogate n = false := by
    simp only [Decoding.isHighSurrogate, Bool.and_eq_false_iff, decide_eq_false_iff_not]
    omega
  simp [Decoding.code, hlow, hhigh]

/-- An escaped character is decoded as itself. -/
theorem scanString_escape (c : Char) (before : List Char) (offset : Nat) (rest : List Char) :
    ∃ stop, scanString (.ok ⟨before, none⟩) offset (escape c ++ rest) =
      scanString (.ok ⟨c :: before, none⟩) stop rest := by
  have letter : ∀ e, e ≠ 'u' → escaped? e = some c →
      ∃ stop, scanString (.ok ⟨before, none⟩) offset ('\\' :: e :: rest) =
        scanString (.ok ⟨c :: before, none⟩) stop rest :=
    fun e hu he => ⟨offset + 2, scanString_letter hu he _ _ _⟩
  unfold escape
  split
  · subst c
    exact letter '"' (by decide) rfl
  split
  · subst c
    exact letter '\\' (by decide) rfl
  split
  · subst c
    exact letter 'b' (by decide) rfl
  split
  · subst c
    exact letter 'f' (by decide) rfl
  split
  · subst c
    exact letter 'n' (by decide) rfl
  split
  · subst c
    exact letter 'r' (by decide) rfl
  split
  · subst c
    exact letter 't' (by decide) rfl
  rename_i hquote hslash _ _ _ _ _
  split
  · rename_i hc
    refine ⟨offset + 6, (scanString_code (hexCode?_hexPair c.toNat hc) _ _ _).trans ?_⟩
    rw [code_of_lt hc, Char.ofNat_toNat]
    rfl
  · rename_i hc
    exact ⟨offset + c.utf8Size, scanString_plain hquote hslash (Nat.not_lt.mp hc) _ _ _⟩

theorem scanString_flatMap_escape (cs before : List Char) (offset : Nat) (rest : List Char) :
    ∃ stop, scanString (.ok ⟨before, none⟩) offset (cs.flatMap escape ++ '"' :: rest) =
      .ok (.ok (String.ofList (before.reverse ++ cs)), stop, rest) := by
  induction cs generalizing before offset with
  | nil =>
    refine ⟨offset + 1, (scanString_quote _ _ _).trans ?_⟩
    rw [List.append_nil]
    rfl
  | cons c cs ih =>
    obtain ⟨next, hnext⟩ := scanString_escape c before offset (cs.flatMap escape ++ '"' :: rest)
    obtain ⟨stop, hstop⟩ := ih (c :: before) next
    refine ⟨stop, ?_⟩
    rw [List.flatMap_cons, List.append_assoc, hnext, hstop]
    simp

/-- A written string is one token. -/
theorem scan_printString (s : String) (offset : Nat) (rest : List Char) :
    ∃ stop, Token.scan offset (printString s rest) =
      ⟨.string (.ok s), offset, stop⟩ :: Token.scan stop rest := by
  obtain ⟨stop, h⟩ := scanString_flatMap_escape s.toList [] (offset + 1) rest
  refine ⟨stop, scan_literal (by decide) rfl ?_⟩
  simp only [List.reverse_nil, List.nil_append, String.ofList_toList] at h
  simp only [scanLiteral, Decoding.empty, if_true, h]

end ComponentRules.Json
