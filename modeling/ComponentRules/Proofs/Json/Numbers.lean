import ComponentRules.Json.Reader
import ComponentRules.Proofs.Json.Decimals
import ComponentRules.Proofs.Outcome

/-!
# Numbers that are read back

A number is stable if its text is read as the same number again. Every number is one token of every
text it stands in, unless something follows that belongs to numbers, and a stable number is read
from that token.

* `Number.Stable`: the text of a number is read as that number.
* `scan_text`: a number in a text is one token, which holds the number if it is stable.
* `stable_integer`: whole numbers of 64 bits are stable.
-/

namespace ComponentRules.Json

open Outcome

/-- A document is read if its root is and nothing but blanks follows the root. -/
theorem Document.read_eq_ok {α : Type} {document : Document} {reader : Reader α} {a : α} :
    document.read reader = .ok a ↔
      reader maxDepth document.root = .ok a ∧ document.trailing = none := by
  unfold read
  rw [bind_eq_ok]
  constructor
  · rintro ⟨b, hb, h⟩
    split at h
    · rename_i htrailing
      cases h
      exact ⟨hb, htrailing⟩
    · cases h
  · rintro ⟨ha, htrailing⟩
    exact ⟨a, ha, by rw [htrailing]; rfl⟩

/-- The text of a number is read as that number. -/
def Number.Stable (n : Number) : Prop :=
  Content.ofText (Value.number n).compact = .ok (.number n)

/-! ## Stable numbers -/

/-- The literal that a stable number is written as. -/
theorem Number.Stable.scanLiteral {n : Number} (h : n.Stable) {c : Char} {cs : List Char}
    {value : Except Fault Number} {stop : Nat} (htext : n.text = c :: cs) (hc : StartsNumber c)
    (hlit : scanLiteral 0 c cs = .ok (.number value, stop, [])) : value = .ok n := by
  obtain ⟨hvalue, -⟩ := Document.read_eq_ok.mp (mapError_eq_ok.mp h)
  have hchars : (Value.number n).compact.toList = c :: cs := by
    rw [Value.compact, String.toList_ofList, Value.print, List.append_nil, htext]
  rw [Document.ofText, Document.ofTokens, hchars,
    scan_literal hc.not_isGap hc.punctuation? hlit, Token.scan] at hvalue
  obtain ⟨m, hm, he⟩ := map_eq_ok.mp hvalue
  cases he
  exact hm

/-- **A number is one token**, whatever stands behind it, and a stable number is the token that
holds it. -/
theorem scan_text (n : Number) {t : List Char} (ht : Ends t) (offset : Nat) :
    ∃ value stop, Token.scan offset (n.text ++ t) =
      ⟨.number value, offset, stop⟩ :: Token.scan stop t ∧ (n.Stable → value = .ok n) := by
  obtain ⟨c, cs, value, stop, htext, hc, hlit⟩ := scanLiteral_text n ht offset
  refine ⟨value, stop, ?_, fun hstable => ?_⟩
  · rw [htext, List.cons_append, scan_literal hc.not_isGap hc.punctuation? hlit]
  · obtain ⟨_, _, alone, next, htext', -, halone⟩ := scanLiteral_text n ends_nil 0
    cases htext.symm.trans htext'
    rw [List.append_nil] at halone
    obtain rfl := hstable.scanLiteral htext hc halone
    -- with nothing behind it, it is read as itself; so it is with something behind it
    obtain ⟨_, hlit'⟩ := scanLiteral_append hc halone (.inr ht) offset
    cases hlit.symm.trans hlit'
    rfl

/-! ## Whole numbers -/

theorem le_ofDigitChars (cs : List Char) (k : Nat) : k ≤ Nat.ofDigitChars 10 cs k := by
  induction cs generalizing k with
  | nil => simp
  | cons c cs ih =>
    rw [Nat.ofDigitChars_cons]
    have := ih (10 * k + (c.toNat - '0'.toNat))
    omega

/-- Digits are collected to the end if their number fits. -/
theorem collect_of_le {cs : List Char} {k : Nat} (h : Nat.ofDigitChars 10 cs k ≤ maxDigits) :
    collect k cs = (Nat.ofDigitChars 10 cs k, []) := by
  induction cs generalizing k with
  | nil => simp [collect]
  | cons c cs ih =>
    rw [Nat.ofDigitChars_cons, Nat.mul_comm] at h ⊢
    have hle := Nat.le_trans (le_ofDigitChars cs _) h
    rw [collect, if_pos hle, ih h]

/-- Digits that fit are read as a whole number. -/
theorem scanNumber_toDigits {negative : Bool} {k : Nat} {n : Number} (hk : k ≤ maxDigits)
    (h : Numeral.integer negative k = .ok n) (offset : Nat) :
    ∃ stop, scanNumber negative offset (Nat.toDigits 10 k) = .ok (.ok n, stop, []) := by
  obtain ⟨stop, hwhole⟩ := (isWhole_toDigits k).scanWhole ends_nil.noDigit offset
  rw [List.append_nil] at hwhole
  have hcollect : collect 0 (Nat.toDigits 10 k) = (k, []) := by
    have hvalue : Nat.ofDigitChars 10 (Nat.toDigits 10 k) 0 = k := Nat.ofDigitChars_ten_toDigits
    rw [collect_of_le (by rw [hvalue]; exact hk), hvalue]
  refine ⟨stop, ?_⟩
  simp [scanNumber, hwhole, scanFraction, scanExponent, numberValue_eq_ok, Numeral.value, hcollect,
    h]

/-- A number is stable if its text is one literal. -/
theorem stable_of_scanLiteral {n : Number} {c : Char} {cs : List Char} {stop : Nat}
    (htext : n.text = c :: cs) (hc : StartsNumber c)
    (h : scanLiteral 0 c cs = .ok (.number (.ok n), stop, [])) : n.Stable := by
  have hchars : (Value.number n).compact.toList = c :: cs := by
    rw [Value.compact, String.toList_ofList, Value.print, List.append_nil, htext]
  refine mapError_eq_ok.mpr (Document.read_eq_ok.mpr ?_)
  rw [Document.ofText, Document.ofTokens, hchars, scan_literal hc.not_isGap hc.punctuation? h,
    Token.scan]
  exact ⟨rfl, rfl⟩

/-- **Whole numbers of 64 bits are stable**, with or without sign. -/
theorem stable_integer {n : Int} (hlow : -(Nat.pow 2 63 : Int) ≤ n)
    (hhigh : n < (Nat.pow 2 64 : Int)) : (Number.integer n).Stable := by
  have hlow : -9223372036854775808 ≤ n := hlow
  have hhigh : n < 18446744073709551616 := hhigh
  obtain ⟨c, cs, hdigits, hdigit⟩ := (isDigits_toDigits n.natAbs).head
  have hc : StartsNumber c := .inr hdigit
  by_cases hneg : n < 0
  · have hvalue : Numeral.integer true n.natAbs = .ok (.integer n) := by
      have hfits : 0 < n.natAbs ∧ n.natAbs ≤ Nat.pow 2 63 := by
        have : Nat.pow 2 63 = 9223372036854775808 := rfl
        omega
      have hsign : -(n.natAbs : Int) = n := by omega
      rw [Numeral.integer, if_neg (by decide), if_pos hfits, hsign]
    have hmax : n.natAbs ≤ maxDigits := by
      have : maxDigits = 18446744073709551615 := rfl
      omega
    obtain ⟨stop, hscan⟩ := scanNumber_toDigits hmax hvalue 1
    have htext : (Number.integer n).text = '-' :: Nat.toDigits 10 n.natAbs := by
      simp [Number.text, hneg]
    exact stable_of_scanLiteral htext (.inl rfl)
      ((scanLiteral_eq_ok (.inl rfl)).mpr ⟨_, rfl, hscan⟩)
  · have hvalue : Numeral.integer false n.natAbs = .ok (.integer n) := by
      have hsign : (n.natAbs : Int) = n := by omega
      rw [Numeral.integer, if_pos (by decide), hsign]
    have hmax : n.natAbs ≤ maxDigits := by
      have : maxDigits = 18446744073709551615 := rfl
      omega
    obtain ⟨stop, hscan⟩ := scanNumber_toDigits hmax hvalue 0
    have htext : (Number.integer n).text = c :: cs := by
      simp [Number.text, hneg, hdigits]
    have hminus : c ≠ '-' := by
      rintro rfl
      exact absurd hdigit (by decide)
    rw [hdigits] at hscan
    exact stable_of_scanLiteral htext hc
      ((scanLiteral_eq_ok hc).mpr ⟨_, rfl, by rw [if_neg hminus, hscan]⟩)

end ComponentRules.Json
