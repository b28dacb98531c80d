import ComponentRules.Proofs.Json.Numerals

/-!
# Every number is one literal

A number is written as a whole part, a fraction and an exponent, the last two not always, behind
its sign. So its text is one literal of every text it stands in, whatever number is read from it.

* `IsNumeral`: the texts that are numbers behind their signs.
* `IsNumeral.scanNumber`: such a text is scanned to its end.
* `shortest_digits`: the digits of a floating-point number do not start with a zero.
* `scanLiteral_text`: the text of a number is one literal.
-/

namespace ComponentRules.Json

/-! ## Numerals -/

/-- One or more digits. -/
def IsDigits (ds : List Char) : Prop :=
  ds ≠ [] ∧ ∀ c ∈ ds, c.isDigit = true

/-- The whole part of a number. Nothing but zero starts with a zero. -/
inductive IsWhole : List Char → Prop
  | zero : IsWhole ['0']
  | digits {c : Char} {ds : List Char} : c ≠ '0' → IsDigits (c :: ds) → IsWhole (c :: ds)

inductive IsFraction : List Char → Prop
  | absent : IsFraction []
  | digits {ds : List Char} : IsDigits ds → IsFraction ('.' :: ds)

inductive IsExponent : List Char → Prop
  | absent : IsExponent []
  | unsigned {ds : List Char} : IsDigits ds → IsExponent ('e' :: ds)
  | plus {ds : List Char} : IsDigits ds → IsExponent ('e' :: '+' :: ds)
  | minus {ds : List Char} : IsDigits ds → IsExponent ('e' :: '-' :: ds)

/-- The text of a number behind its sign. -/
inductive IsNumeral : List Char → Prop
  | parts {whole fraction exponent : List Char} : IsWhole whole → IsFraction fraction →
      IsExponent exponent → IsNumeral (whole ++ (fraction ++ exponent))

/-- Whether a text does not start with a digit. -/
def NoDigit (t : List Char) : Prop :=
  ∀ c ∈ t.head?, c.isDigit = false

theorem Ends.noDigit {t : List Char} (h : Ends t) : NoDigit t :=
  fun c hc => (h c hc).1

theorem digits_of_isDigits {ds t : List Char} (h : IsDigits ds) (ht : NoDigit t) :
    takeDigits (ds ++ t) = ds ∧ dropDigits (ds ++ t) = t := by
  rw [takeDigits, dropDigits, List.takeWhile_append_of_pos h.2, List.dropWhile_append_of_pos h.2]
  cases t with
  | nil => simp
  | cons c t =>
    have hc : c.isDigit = false := ht c rfl
    simp [hc]

theorem IsDigits.head {ds : List Char} (h : IsDigits ds) :
    ∃ c cs, ds = c :: cs ∧ c.isDigit = true := by
  obtain ⟨hne, hall⟩ := h
  cases ds with
  | nil => exact absurd rfl hne
  | cons c cs => exact ⟨c, cs, rfl, hall c List.mem_cons_self⟩

theorem isDigits_zero : IsDigits ['0'] := by
  refine ⟨List.cons_ne_nil _ _, fun c hc => ?_⟩
  rw [List.mem_singleton.mp hc]
  decide

theorem IsDigits.append {ds es : List Char} (hds : IsDigits ds) (hes : ∀ c ∈ es, c.isDigit = true) :
    IsDigits (ds ++ es) := by
  refine ⟨List.append_ne_nil_of_left_ne_nil hds.1 _, fun c hc => ?_⟩
  rcases List.mem_append.mp hc with hc | hc
  · exact hds.2 c hc
  · exact hes c hc

/-! ## Scanning the parts -/

theorem IsWhole.scanWhole {ds t : List Char} (h : IsWhole ds) (ht : NoDigit t) (offset : Nat) :
    ∃ stop, scanWhole offset (ds ++ t) = .ok (ds, stop, t) := by
  cases h with
  | zero =>
    cases t with
    | nil => exact ⟨_, rfl⟩
    | cons c t =>
      have hc : c.isDigit = false := ht c rfl
      refine ⟨offset + 1, ?_⟩
      simp [Json.scanWhole, hc]
  | @digits c ds hzero hdigits =>
    obtain ⟨htake, hdrop⟩ := digits_of_isDigits hdigits ht
    have hc : c.isDigit = true := hdigits.2 c List.mem_cons_self
    rw [List.cons_append] at htake hdrop ⊢
    simp only [Json.scanWhole, if_neg hzero, if_pos hc, htake, hdrop]
    exact ⟨_, rfl⟩

theorem IsFraction.scanFraction {fraction t : List Char} (h : IsFraction fraction) (ht : NoDigit t)
    (hpoint : '.' ∉ t.head?) (offset : Nat) :
    ∃ digits stop, scanFraction offset (fraction ++ t) = .ok (digits, stop, t) := by
  cases h with
  | absent =>
    refine ⟨none, offset, ?_⟩
    unfold Json.scanFraction
    split
    · rename_i cs heq
      exact absurd (by rw [← List.nil_append t, heq]; rfl) hpoint
    · rfl
  | @digits ds hdigits =>
    obtain ⟨htake, hdrop⟩ := digits_of_isDigits hdigits ht
    obtain ⟨c, ds, rfl, hc⟩ := hdigits.head
    rw [List.cons_append] at htake hdrop
    simp only [List.cons_append, Json.scanFraction, if_pos hc, htake, hdrop]
    exact ⟨_, _, rfl⟩

theorem scanExponentDigits_of_isDigits {ds t : List Char} (h : IsDigits ds) (ht : NoDigit t)
    (offset : Nat) : ∃ stop, scanExponentDigits offset (ds ++ t) = .ok (ds, stop, t) := by
  obtain ⟨htake, hdrop⟩ := digits_of_isDigits h ht
  obtain ⟨c, ds, rfl, hc⟩ := h.head
  rw [List.cons_append] at htake hdrop ⊢
  simp only [scanExponentDigits, if_pos hc, htake, hdrop]
  exact ⟨_, rfl⟩

theorem scanSign_of_isDigits {ds : List Char} (h : IsDigits ds) (t : List Char) (offset : Nat) :
    scanSign offset (ds ++ t) = (false, offset, ds ++ t) := by
  obtain ⟨c, ds, rfl, hc⟩ := h.head
  have hplus : c ≠ '+' := by
    rintro rfl
    exact absurd hc (by decide)
  have hminus : c ≠ '-' := by
    rintro rfl
    exact absurd hc (by decide)
  rw [List.cons_append, scanSign, if_neg hplus, if_neg hminus]

theorem IsExponent.scanExponent {exponent t : List Char} (h : IsExponent exponent) (ht : Ends t)
    (offset : Nat) : ∃ value stop, scanExponent offset (exponent ++ t) = .ok (value, stop, t) := by
  -- a sign is scanned by evaluation, and so is the letter before it
  have digits {ds : List Char} (hds : IsDigits ds) (start : Nat) :
      ∃ stop, scanExponentDigits start (ds ++ t) = .ok (ds, stop, t) :=
    scanExponentDigits_of_isDigits hds ht.noDigit start
  cases h with
  | absent =>
    cases t with
    | nil => exact ⟨_, _, rfl⟩
    | cons c t =>
      obtain ⟨-, -, he, hE⟩ := ends_cons.mp ht
      refine ⟨none, offset, ?_⟩
      simp [Json.scanExponent, he, hE]
  | @unsigned ds hds =>
    obtain ⟨stop, hstop⟩ := digits hds (offset + 1)
    simp only [List.cons_append, Json.scanExponent, true_or, if_true, scanSign_of_isDigits hds,
      hstop]
    exact ⟨_, _, rfl⟩
  | @plus ds hds =>
    obtain ⟨stop, hstop⟩ := digits hds (offset + 1 + 1)
    simp only [List.cons_append, Json.scanExponent, true_or, if_true, scanSign, hstop]
    exact ⟨_, _, rfl⟩
  | @minus ds hds =>
    obtain ⟨stop, hstop⟩ := digits hds (offset + 1 + 1)
    have hsign : scanSign (offset + 1) ('-' :: (ds ++ t)) = (true, offset + 1 + 1, ds ++ t) := rfl
    simp only [List.cons_append, Json.scanExponent, true_or, if_true, hsign, hstop]
    exact ⟨_, _, rfl⟩

/-! ## Scanning a numeral -/

theorem IsExponent.noDigit_append {exponent t : List Char} (h : IsExponent exponent)
    (ht : Ends t) : NoDigit (exponent ++ t) ∧ '.' ∉ (exponent ++ t).head? := by
  cases h with
  | absent =>
    refine ⟨ht.noDigit, fun hpoint => ?_⟩
    exact (ht '.' hpoint).2.1 rfl
  | unsigned | plus | minus => exact ⟨fun c hc => by cases hc; decide, nofun⟩

theorem IsFraction.noDigit_append {fraction t : List Char} (h : IsFraction fraction)
    (ht : NoDigit t) : NoDigit (fraction ++ t) := by
  cases h with
  | absent => exact ht
  | digits => exact fun c hc => by cases hc; decide

/-- **A numeral is scanned to its end**, whatever stands behind it. -/
theorem IsNumeral.scanNumber {cs t : List Char} (h : IsNumeral cs) (ht : Ends t) (negative : Bool)
    (offset : Nat) : ∃ value stop, scanNumber negative offset (cs ++ t) = .ok (value, stop, t) := by
  cases h with
  | @parts whole fraction exponent hwhole hfraction hexponent =>
    obtain ⟨hnoDigit, hnoPoint⟩ := hexponent.noDigit_append ht
    obtain ⟨o₁, h₁⟩ := hwhole.scanWhole (hfraction.noDigit_append hnoDigit) offset
    obtain ⟨_, o₂, h₂⟩ := hfraction.scanFraction hnoDigit hnoPoint o₁
    obtain ⟨_, o₃, h₃⟩ := hexponent.scanExponent ht o₂
    simp only [List.append_assoc, Json.scanNumber, h₁, h₂, h₃]
    exact ⟨_, _, rfl⟩

theorem IsNumeral.head {cs : List Char} (h : IsNumeral cs) :
    ∃ c rest, cs = c :: rest ∧ c.isDigit = true := by
  cases h with
  | parts hwhole =>
    cases hwhole with
    | zero => exact ⟨_, _, rfl, by decide⟩
    | digits _ hdigits => exact ⟨_, _, rfl, hdigits.2 _ List.mem_cons_self⟩

/-! ## Digits of natural numbers -/

theorem isDigits_toDigits (k : Nat) : IsDigits (Nat.toDigits 10 k) :=
  ⟨Nat.toDigits_ne_nil, fun _ hc => Nat.isDigit_of_mem_toDigits (by omega) (by omega) hc⟩

theorem digitChar_ne_zero : ∀ d < 10, 0 < d → Nat.digitChar d ≠ '0' := by
  decide

/-- Nothing but zero starts with a zero. -/
theorem head_toDigits_ne_zero (k : Nat) (hk : 0 < k) :
    ∀ c ∈ (Nat.toDigits 10 k).head?, c ≠ '0' := by
  induction k using Nat.strongRecOn with
  | ind k ih =>
    by_cases hlt : k < 10
    · rw [Nat.toDigits_of_lt_base hlt]
      simpa using digitChar_ne_zero k hlt hk
    · rw [Nat.toDigits_of_base_le (by omega) (by omega), List.head?_append_of_ne_nil _
        Nat.toDigits_ne_nil]
      exact ih (k / 10) (by omega) (by omega)

theorem exists_cons_toDigits {k : Nat} (hk : k ≠ 0) :
    ∃ c ds, Nat.toDigits 10 k = c :: ds ∧ c ≠ '0' ∧ IsDigits (c :: ds) := by
  have hdigits := isDigits_toDigits k
  have hhead := head_toDigits_ne_zero k (Nat.pos_of_ne_zero hk)
  cases h : Nat.toDigits 10 k with
  | nil => exact absurd h Nat.toDigits_ne_nil
  | cons c ds =>
    rw [h] at hdigits hhead
    exact ⟨c, ds, rfl, hhead c rfl, hdigits⟩

theorem isWhole_toDigits (k : Nat) : IsWhole (Nat.toDigits 10 k) := by
  by_cases hk : k = 0
  · rw [hk]
    exact .zero
  · obtain ⟨c, ds, h, hzero, hdigits⟩ := exists_cons_toDigits hk
    rw [h]
    exact .digits hzero hdigits

theorem IsWhole.take {ds : List Char} (h : IsWhole ds) {i : Nat} (hi : 0 < i) :
    IsWhole (ds.take i) := by
  obtain ⟨i, rfl⟩ := Nat.exists_eq_succ_of_ne_zero (Nat.pos_iff_ne_zero.mp hi)
  cases h with
  | zero =>
    rw [List.take_succ_cons, List.take_nil]
    exact .zero
  | digits hzero hdigits =>
    rw [List.take_succ_cons]
    refine .digits hzero ⟨List.cons_ne_nil _ _, fun c hc => hdigits.2 c ?_⟩
    rw [← List.take_succ_cons] at hc
    exact List.mem_of_mem_take hc

theorem isWhole_toDigits_append {k : Nat} (hk : k ≠ 0) {es : List Char}
    (hes : ∀ c ∈ es, c.isDigit = true) : IsWhole (Nat.toDigits 10 k ++ es) := by
  obtain ⟨c, ds, h, hzero, hdigits⟩ := exists_cons_toDigits hk
  rw [h]
  exact .digits hzero (hdigits.append hes)

theorem isDigits_drop {ds : List Char} (h : IsDigits ds) {i : Nat} (hi : i < ds.length) :
    IsDigits (ds.drop i) := by
  refine ⟨fun hnil => ?_, fun c hc => h.2 c (List.mem_of_mem_drop hc)⟩
  have := List.drop_eq_nil_iff.mp hnil
  omega

theorem isDigit_of_mem_zeros {n : Nat} : ∀ c ∈ List.replicate n '0', c.isDigit = true := by
  intro c hc
  rw [(List.mem_replicate.mp hc).2]
  decide

/-! ## Decimals -/

theorem isFraction_drop_one {ds : List Char} (h : IsDigits ds) :
    IsFraction (if ds.length = 1 then [] else '.' :: ds.drop 1) := by
  split
  · exact .absent
  · rename_i hlength
    have hpos : 0 < ds.length := List.length_pos_iff.mpr h.1
    exact .digits (isDigits_drop h (by omega))

theorem isExponent_sign (plus : Bool) (shift : Int) :
    IsExponent ('e' :: ((if shift < 0 then ['-'] else if plus then ['+'] else []) ++
      Nat.toDigits 10 shift.natAbs)) := by
  have hdigits := isDigits_toDigits shift.natAbs
  split
  · exact .minus hdigits
  split
  · exact .plus hdigits
  · exact .unsigned hdigits

/-- A decimal is written as a numeral, unless it is a zero with its exponent written out. -/
theorem isNumeral_text (layout : DecimalLayout) {d : Decimal}
    (hd : d.digits = 0 → layout.greatest < d.exponent) : IsNumeral (d.text layout) := by
  have hwhole := isWhole_toDigits d.digits
  have hdigits := isDigits_toDigits d.digits
  have hone : d.digits = 0 → (Nat.toDigits 10 d.digits).length = 1 := by
    intro hzero
    rw [hzero]
    rfl
  have happend := @isWhole_toDigits_append d.digits
  simp only [Decimal.text]
  generalize Nat.toDigits 10 d.digits = ds at *
  have hlength : 0 < ds.length := List.length_pos_iff.mpr hdigits.1
  generalize hpoint : (ds.length : Int) + d.exponent = point
  split
  · rename_i hplain
    split
    · -- the number is below one: zeros stand between the point and the digits
      have hzeros : IsDigits (List.replicate (-point).toNat '0' ++ ds) := by
        refine ⟨List.append_ne_nil_of_right_ne_nil _ hdigits.1, fun c hc => ?_⟩
        rcases List.mem_append.mp hc with hc | hc
        · exact isDigit_of_mem_zeros c hc
        · exact hdigits.2 c hc
      have hnumeral := IsNumeral.parts .zero (.digits hzeros) .absent
      simpa using hnumeral
    split
    · -- the number is whole: zeros stand between the digits and the point
      have hne : d.digits ≠ 0 := by
        intro hzero
        have := hone hzero
        have := hd hzero
        omega
      have hfraction : IsFraction ['.', '0'] := .digits isDigits_zero
      have hnumeral := IsNumeral.parts
        (happend hne (@isDigit_of_mem_zeros d.exponent.toNat)) hfraction .absent
      simpa using hnumeral
    · have hfirst : IsWhole (ds.take point.toNat) := hwhole.take (by omega)
      have hlast : IsDigits (ds.drop point.toNat) := isDigits_drop hdigits (by omega)
      have hnumeral := IsNumeral.parts hfirst (.digits hlast) .absent
      simpa using hnumeral
  · have hnumeral := IsNumeral.parts (hwhole.take Nat.one_pos) (isFraction_drop_one hdigits)
      (isExponent_sign layout.plus (point - 1))
    simpa using hnumeral

/-! ## The digits of floating-point numbers -/

theorem trimZeros_digits (fuel : Nat) {d : Decimal} (h : d.digits ≠ 0) :
    (d.trimZeros fuel).digits ≠ 0 := by
  induction fuel generalizing d with
  | zero => exact h
  | succ fuel ih =>
    rw [Decimal.trimZeros]
    split
    · exact ih (by simp only; omega)
    · exact h

theorem scaled_pos (num den : Nat) (e : Int) (hnum : 0 < num) (hden : 0 < den) :
    0 < (Binary64.scaled num den e).1 ∧ 0 < (Binary64.scaled num den e).2 := by
  unfold Binary64.scaled
  split
  · exact ⟨hnum, Nat.mul_pos hden (Nat.pow_pos Nat.two_pos)⟩
  · exact ⟨Nat.mul_pos hnum (Nat.pow_pos Nat.two_pos), hden⟩

theorem reach_low_pos {x : Binary64} (hx : x.isZero = false) : 0 < x.reach.low := by
  have hmantissa : 0 < x.mantissa := by
    rw [Binary64.isZero, beq_eq_false_iff_ne] at hx
    omega
  have hunit := (scaled_pos 1 1 (x.exponent - 2) Nat.one_pos Nat.one_pos).2
  have hbelow : 0 < 4 * x.mantissa -
      (if x.mantissa = Nat.pow 2 52 ∧ Binary64.leastExponent < x.exponent then 1 else 2) := by
    split <;> omega
  exact Nat.mul_pos hbelow hunit

theorem inUnits_low_pos {r : Binary64.Reach} (h : 0 < r.low) (k : Int) :
    0 < (r.inUnits k).low := by
  unfold Binary64.Reach.inUnits
  split
  · exact h
  · exact Nat.mul_pos h (Nat.pow_pos (by omega))

/-- Zero does not read back as a number that is above zero. -/
theorem ne_zero_of_holds {r : Binary64.Reach} {n : Nat} (hlow : 0 < r.low)
    (h : r.holds n = true) : n ≠ 0 := by
  rintro rfl
  unfold Binary64.Reach.holds at h
  split at h
  · simp only [Bool.and_eq_true, decide_eq_true_eq, Nat.zero_mul] at h
    omega
  · simp only [Bool.and_eq_true, decide_eq_true_eq, Nat.zero_mul] at h
    omega

theorem holds_of_nearest? {r : Binary64.Reach} {n : Nat} (h : r.nearest? = some n) :
    r.holds n = true := by
  unfold Binary64.Reach.nearest? at h
  simp only at h
  generalize (if roundDiv r.value r.den = r.value / r.den then r.value / r.den + 1
    else r.value / r.den) = second at h
  split at h
  · rename_i hfirst
    cases h
    exact hfirst
  split at h
  · rename_i hsecond
    cases h
    exact hsecond
  · cases h

/-- The digits of a number other than zero are not zero. Were none to read back, its text would be
a zero with an exponent. -/
theorem shortest_digits {x : Binary64} (hx : x.isZero = false) :
    x.shortest.digits ≠ 0 ∨ x.shortest = ⟨0, 17⟩ := by
  unfold Binary64.shortest
  simp only
  cases hfound : (List.range 17).findSome? fun (i : Nat) =>
      (x.reach.inUnits (x.reach.leading - i)).nearest?.map fun n =>
        (⟨n, x.reach.leading - i⟩ : Decimal) with
  | none => exact .inr rfl
  | some d =>
    left
    obtain ⟨i, -, hi⟩ := List.exists_of_findSome?_eq_some hfound
    obtain ⟨n, hn, rfl⟩ := Option.map_eq_some_iff.mp hi
    apply trimZeros_digits
    exact ne_zero_of_holds (inUnits_low_pos (reach_low_pos hx) _) (holds_of_nearest? hn)

/-! ## The texts of numbers -/

/-- **The text of a number is a numeral behind its sign.** -/
theorem exists_numeral (n : Number) :
    ∃ (negative : Bool) (cs : List Char),
      n.text = (if negative then ['-'] else []) ++ cs ∧ IsNumeral cs := by
  cases n with
  | integer i =>
    refine ⟨decide (i < 0), Nat.toDigits 10 i.natAbs, by simp [Number.text], ?_⟩
    have hnumeral := IsNumeral.parts (isWhole_toDigits i.natAbs) .absent .absent
    simpa using hnumeral
  | float x =>
    by_cases hx : x.isZero = true
    · refine ⟨x.negative, ['0', '.', '0'], by simp [Number.text, Binary64.text, hx], ?_⟩
      exact .parts .zero (.digits isDigits_zero) .absent
    · refine ⟨x.negative, x.shortest.text Number.layout,
        by simp [Number.text, Binary64.text, hx], isNumeral_text _ fun hzero => ?_⟩
      rcases shortest_digits (Bool.not_eq_true _ ▸ hx) with hne | heq
      · exact absurd hzero hne
      · rw [heq]
        decide

/-- **The text of a number is one literal**, whatever stands behind it. -/
theorem scanLiteral_text (n : Number) {t : List Char} (ht : Ends t) (offset : Nat) :
    ∃ c cs value stop, n.text = c :: cs ∧ StartsNumber c ∧
      scanLiteral offset c (cs ++ t) = .ok (.number value, stop, t) := by
  obtain ⟨negative, cs, htext, hnumeral⟩ := exists_numeral n
  cases negative with
  | true =>
    obtain ⟨value, stop, hscan⟩ := hnumeral.scanNumber ht true (offset + 1)
    refine ⟨'-', cs, value, stop, htext, .inl rfl, ?_⟩
    exact (scanLiteral_eq_ok (.inl rfl)).mpr ⟨value, rfl, hscan⟩
  | false =>
    obtain ⟨value, stop, hscan⟩ := hnumeral.scanNumber ht false offset
    obtain ⟨c, rest, rfl, hc⟩ := hnumeral.head
    have hminus : c ≠ '-' := by
      rintro rfl
      exact absurd hc (by decide)
    refine ⟨c, rest, value, stop, htext, .inr hc, ?_⟩
    exact (scanLiteral_eq_ok (.inr hc)).mpr ⟨value, rfl, by rw [if_neg hminus]; exact hscan⟩

end ComponentRules.Json
