import ComponentRules.Proofs.Json.Scanning

/-!
# Numbers in longer texts

Reading a number stops where the digits stop. So what stands behind a number does not change it,
as long as it does not start with something that a reader takes for a part of the number.

* `Ends`: what may stand behind a number.
* `scanNumber_append`: the same number, with more text behind it.
* `scanLiteral_append`: the same for a literal that is a number.
-/

namespace ComponentRules.Json

/-- What may stand behind a number: nothing that belongs to numbers. -/
def Ends (t : List Char) : Prop :=
  ∀ c ∈ t.head?, c.isDigit = false ∧ c ≠ '.' ∧ c ≠ 'e' ∧ c ≠ 'E'

theorem ends_nil : Ends [] := by
  simp [Ends]

theorem ends_cons {c : Char} {t : List Char} :
    Ends (c :: t) ↔ c.isDigit = false ∧ c ≠ '.' ∧ c ≠ 'e' ∧ c ≠ 'E' := by
  simp [Ends]

/-- Blanks may stand behind a number. -/
theorem ends_of_isGap {c : Char} (h : isGap c = true) (t : List Char) : Ends (c :: t) := by
  simp only [isGap, Bool.or_eq_true, beq_iff_eq] at h
  rw [ends_cons]
  rcases h with ((rfl | rfl) | rfl) | rfl <;> decide

/-! ## A number in a longer text -/

theorem digits_append {cs t : List Char} (h : dropDigits cs ≠ [] ∨ Ends t) :
    takeDigits (cs ++ t) = takeDigits cs ∧ dropDigits (cs ++ t) = dropDigits cs ++ t := by
  induction cs with
  | nil =>
    have ht : Ends t := h.resolve_left (by simp [dropDigits])
    cases t with
    | nil => simp
    | cons d t =>
      have hd := (ends_cons.mp ht).1
      simp [takeDigits, dropDigits, hd]
  | cons c cs ih =>
    by_cases hc : c.isDigit = true
    · have hdrop : dropDigits (c :: cs) = dropDigits cs := by
        simp [dropDigits, hc]
      obtain ⟨htake, hrest⟩ := ih (hdrop ▸ h)
      simp only [takeDigits, dropDigits] at htake hrest
      simp [takeDigits, dropDigits, hc, htake, hrest]
    · simp [takeDigits, dropDigits, hc]

theorem scanWhole_append {offset stop : Nat} {cs ds rest t : List Char}
    (h : scanWhole offset cs = .ok (ds, stop, rest)) (ht : rest ≠ [] ∨ Ends t) (start : Nat) :
    ∃ stop, scanWhole start (cs ++ t) = .ok (ds, stop, rest ++ t) := by
  cases cs with
  | nil => cases h
  | cons c cs =>
    simp only [scanWhole] at h
    simp only [List.cons_append, scanWhole]
    split at h
    · rename_i hc
      rw [if_pos hc]
      cases cs with
      | nil =>
        cases h
        have ht : Ends t := ht.resolve_left (by simp)
        cases t with
        | nil => exact ⟨_, rfl⟩
        | cons d t =>
          simp [(ends_cons.mp ht).1]
      | cons d cs =>
        simp only at h
        split at h
        · cases h
        · rename_i hd
          cases h
          simp [hd]
    · rename_i hc
      rw [if_neg hc]
      split at h
      · rename_i hdigit
        cases h
        obtain ⟨htake, hdrop⟩ := digits_append ht
        rw [if_pos hdigit, ← List.cons_append, htake, hdrop]
        exact ⟨_, rfl⟩
      · cases h

theorem scanFraction_append {offset stop : Nat} {cs rest t : List Char} {f : Option (List Char)}
    (h : scanFraction offset cs = .ok (f, stop, rest)) (ht : rest ≠ [] ∨ Ends t) (start : Nat) :
    ∃ stop, scanFraction start (cs ++ t) = .ok (f, stop, rest ++ t) := by
  unfold scanFraction at h
  split at h
  · rename_i cs
    cases cs with
    | nil => cases h
    | cons c cs =>
      simp only at h
      split at h
      · rename_i hc
        cases h
        obtain ⟨htake, hdrop⟩ := digits_append ht
        simp only [List.cons_append, scanFraction, if_pos hc]
        rw [← List.cons_append, htake, hdrop]
        exact ⟨_, rfl⟩
      · cases h
  · rename_i hpoint
    cases h
    refine ⟨start, ?_⟩
    unfold scanFraction
    split
    · rename_i cs' heq
      exfalso
      cases cs with
      | nil =>
        have ht : Ends t := ht.resolve_left (by simp)
        rw [List.nil_append] at heq
        exact (ends_cons.mp (heq ▸ ht)).2.1 rfl
      | cons c cs =>
        cases heq
        exact hpoint cs rfl
    · rfl

theorem scanExponentDigits_append {offset stop : Nat} {cs ds rest t : List Char}
    (h : scanExponentDigits offset cs = .ok (ds, stop, rest)) (ht : rest ≠ [] ∨ Ends t)
    (start : Nat) :
    ∃ stop, scanExponentDigits start (cs ++ t) = .ok (ds, stop, rest ++ t) := by
  cases cs with
  | nil => cases h
  | cons c cs =>
    simp only [scanExponentDigits] at h
    split at h
    · rename_i hc
      cases h
      obtain ⟨htake, hdrop⟩ := digits_append ht
      simp only [List.cons_append, scanExponentDigits, if_pos hc]
      rw [← List.cons_append, htake, hdrop]
      exact ⟨_, rfl⟩
    · cases h

/-- The sign of an exponent with digits behind it. -/
theorem scanSign_append {offset : Nat} {cs t : List Char} (h : (scanSign offset cs).2.2 ≠ [])
    (start : Nat) :
    ∃ stop, scanSign start (cs ++ t) =
      ((scanSign offset cs).1, stop, (scanSign offset cs).2.2 ++ t) := by
  cases cs with
  | nil => exact absurd rfl h
  | cons c cs =>
    simp only [List.cons_append, scanSign]
    split
    · exact ⟨_, rfl⟩
    split <;> exact ⟨_, rfl⟩

theorem scanExponent_append {offset stop : Nat} {cs rest t : List Char}
    {e : Option (Exponent × Nat)} (h : scanExponent offset cs = .ok (e, stop, rest))
    (ht : rest ≠ [] ∨ Ends t) (start : Nat) :
    ∃ e' stop, scanExponent start (cs ++ t) = .ok (e', stop, rest ++ t) ∧
      e'.map (·.1) = e.map (·.1) := by
  cases cs with
  | nil =>
    cases h
    have ht : Ends t := ht.resolve_left (by simp)
    refine ⟨none, start, ?_, rfl⟩
    cases t with
    | nil => rfl
    | cons c t =>
      obtain ⟨-, -, he, hE⟩ := ends_cons.mp ht
      simp [scanExponent, he, hE]
  | cons c cs =>
    simp only [scanExponent] at h
    simp only [List.cons_append, scanExponent]
    split at h
    · rename_i hc
      rw [if_pos hc]
      split at h
      · cases h
      · rename_i ds stop rest hds
        cases h
        have hsign : (scanSign (offset + 1) cs).2.2 ≠ [] := by
          intro hnil
          rw [hnil] at hds
          cases hds
        obtain ⟨next, hnext⟩ := scanSign_append (t := t) hsign (start + 1)
        obtain ⟨stop', hstop⟩ := scanExponentDigits_append hds ht next
        simp only [hnext, hstop]
        exact ⟨_, _, rfl, rfl⟩
    · rename_i hc
      cases h
      rw [if_neg hc]
      exact ⟨none, start, rfl, rfl⟩

theorem numberValue_eq_ok {numeral : Numeral} {exponentStart stop : Nat} {n : Number} :
    numberValue numeral exponentStart stop = .ok n ↔ numeral.value = .ok n := by
  unfold numberValue
  split <;> simp_all

/-- A number that is read at one place is read anywhere, with more text behind it. -/
theorem scanNumber_append {negative : Bool} {offset stop : Nat} {cs rest t : List Char}
    {n : Number} (h : scanNumber negative offset cs = .ok (.ok n, stop, rest))
    (ht : rest ≠ [] ∨ Ends t) (start : Nat) :
    ∃ stop, scanNumber negative start (cs ++ t) = .ok (.ok n, stop, rest ++ t) := by
  simp only [scanNumber] at h
  split at h
  · cases h
  rename_i whole o₁ cs₁ hwhole
  split at h
  · cases h
  rename_i fraction o₂ cs₂ hfraction
  split at h
  · cases h
  rename_i exponent o₃ cs₃ hexponent
  simp only [Except.ok.injEq, Prod.mk.injEq] at h
  obtain ⟨hvalue, rfl, rfl⟩ := h
  -- what is left of the number is empty only if nothing is left at all
  have ht₂ : cs₂ ≠ [] ∨ Ends t := by
    refine ht.imp_left fun hne hnil => ?_
    rw [hnil] at hexponent
    cases hexponent
    exact hne rfl
  have ht₁ : cs₁ ≠ [] ∨ Ends t := by
    refine ht₂.imp_left fun hne hnil => ?_
    rw [hnil] at hfraction
    cases hfraction
    exact hne rfl
  obtain ⟨p₁, h₁⟩ := scanWhole_append hwhole ht₁ start
  obtain ⟨p₂, h₂⟩ := scanFraction_append hfraction ht₂ p₁
  obtain ⟨exponent', p₃, h₃, hsame⟩ := scanExponent_append hexponent ht p₂
  refine ⟨p₃, ?_⟩
  simp only [scanNumber, h₁, h₂, h₃, Except.ok.injEq, Prod.mk.injEq, and_true]
  rw [numberValue_eq_ok] at hvalue ⊢
  rw [hsame, hvalue]

/-! ## Literals that are numbers -/

/-- Whether a number may start with a character. -/
def StartsNumber (c : Char) : Prop :=
  c = '-' ∨ c.isDigit = true

theorem StartsNumber.not_isGap {c : Char} (h : StartsNumber c) : isGap c = false := by
  by_contra hg
  simp only [isGap, Bool.not_eq_false, Bool.or_eq_true, beq_iff_eq] at hg
  rcases hg with ((rfl | rfl) | rfl) | rfl <;> exact absurd h (by unfold StartsNumber; decide)

theorem StartsNumber.punctuation? {c : Char} (h : StartsNumber c) : punctuation? c = none := by
  have hne : ∀ d : Char, ¬ StartsNumber d → c ≠ d := by
    rintro d hd rfl
    exact hd h
  unfold Json.punctuation?
  rw [if_neg (hne '[' (by unfold StartsNumber; decide)),
    if_neg (hne ']' (by unfold StartsNumber; decide)),
    if_neg (hne '\x7b' (by unfold StartsNumber; decide)),
    if_neg (hne '\x7d' (by unfold StartsNumber; decide)),
    if_neg (hne ',' (by unfold StartsNumber; decide)),
    if_neg (hne ':' (by unfold StartsNumber; decide))]

theorem scanLiteral_eq_ok {c : Char} {cs rest : List Char} {offset stop : Nat} {lexeme : Lexeme}
    (hc : StartsNumber c) :
    scanLiteral offset c cs = .ok (lexeme, stop, rest) ↔
      ∃ value, lexeme = .number value ∧
        (if c = '-' then scanNumber true (offset + 1) cs else scanNumber false offset (c :: cs)) =
          .ok (value, stop, rest) := by
  have hquote : c ≠ '"' := by
    rintro rfl
    exact absurd hc (by unfold StartsNumber; decide)
  unfold scanLiteral
  rw [if_neg hquote]
  by_cases hminus : c = '-'
  · rw [if_pos hminus, if_pos hminus]
    cases scanNumber true (offset + 1) cs with
    | error fault => simp
    | ok r =>
      obtain ⟨value, stop', rest'⟩ := r
      simp [eq_comm]
  · rw [if_neg hminus, if_neg hminus, if_pos (hc.resolve_left hminus)]
    cases scanNumber false offset (c :: cs) with
    | error fault => simp
    | ok r =>
      obtain ⟨value, stop', rest'⟩ := r
      simp [eq_comm]

theorem scanLiteral_append {c : Char} {cs rest t : List Char} {offset stop : Nat} {n : Number}
    (hc : StartsNumber c) (h : scanLiteral offset c cs = .ok (.number (.ok n), stop, rest))
    (ht : rest ≠ [] ∨ Ends t) (start : Nat) :
    ∃ stop, scanLiteral start c (cs ++ t) = .ok (.number (.ok n), stop, rest ++ t) := by
  obtain ⟨value, hvalue, h⟩ := (scanLiteral_eq_ok hc).mp h
  cases hvalue
  by_cases hminus : c = '-'
  · rw [if_pos hminus] at h
    obtain ⟨stop', hstop⟩ := scanNumber_append h ht (start + 1)
    exact ⟨stop', (scanLiteral_eq_ok hc).mpr ⟨_, rfl, by rw [if_pos hminus, hstop]⟩⟩
  · rw [if_neg hminus] at h
    obtain ⟨stop', hstop⟩ := scanNumber_append h ht start
    exact ⟨stop', (scanLiteral_eq_ok hc).mpr
      ⟨_, rfl, by rw [if_neg hminus, ← List.cons_append, hstop]⟩⟩

end ComponentRules.Json
