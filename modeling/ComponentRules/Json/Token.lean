import ComponentRules.Json.Fault

/-!
# JSON tokens

A text is cut into tokens whatever their order. A reader takes a value in one of two ways: it
*keeps* it, or it *skips* it and looks at its extent only. Skipping is less strict: the value of a
number and the surrogates in a string do not matter to it. So a literal holds what keeping it
gives, and a literal that has no end holds the fault seen by either reader.

* `Token`: a token and the bytes before and after it.
* `Token.scan`: the tokens of a text, up to the first that has no end or that nothing starts with.
-/

namespace ComponentRules.Json

/-- The faults seen where a text breaks off, by a reader that keeps the value and by one that skips
it. -/
structure Break where
  kept : Fault
  skipped : Fault
  deriving Repr

/-- The same fault for either reader. -/
def Break.both (cause : Cause) (offset : Nat) : Break :=
  ⟨⟨cause, offset⟩, ⟨cause, offset⟩⟩

inductive Lexeme
  | beginArray
  | endArray
  | beginObject
  | endObject
  | comma
  | colon
  | null
  | bool (b : Bool)
  | number (value : Except Fault Number)
  | string (value : Except Fault String)
  /-- A string that has no end. -/
  | brokenString (fault : Break)
  /-- Another literal that has no end. -/
  | brokenLiteral (fault : Break)
  /-- A character that no token starts with. -/
  | stray

/-- A token and the numbers of bytes before and after it. -/
structure Token where
  lexeme : Lexeme
  start : Nat
  stop : Nat

/-- The result of scanning a literal: what it is, its end and the characters behind it. -/
abbrev Scan (α : Type) := Except Break (α × Nat × List Char)

/-! ## Words -/

/-- Expects the given characters. A wrong one is consumed. -/
def scanWord (offset : Nat) : List Char → List Char → Scan Unit
  | [], cs => .ok ((), offset, cs)
  | _ :: _, [] => .error (.both .endInValue offset)
  | w :: word, c :: cs =>
    if c = w then scanWord (offset + 1) word cs else .error (.both .brokenWord (offset + 1))

/-! ## Numbers -/

def takeDigits (cs : List Char) : List Char :=
  cs.takeWhile Char.isDigit

def dropDigits (cs : List Char) : List Char :=
  cs.dropWhile Char.isDigit

/-- Digits that must be there. A wrong character is consumed by either reader. -/
def scanExponentDigits (offset : Nat) (cs : List Char) : Scan (List Char) :=
  match cs with
  | [] => .error ⟨⟨.endInValue, offset⟩, ⟨.invalidNumber, offset⟩⟩
  | c :: _ =>
    if c.isDigit then .ok (takeDigits cs, offset + (takeDigits cs).length, dropDigits cs)
    else .error (.both .invalidNumber (offset + 1))

/-- The sign of an exponent, if there is one: whether it is a minus, and what is behind it. -/
def scanSign (offset : Nat) : List Char → Bool × Nat × List Char
  | [] => (false, offset, [])
  | c :: cs =>
    if c = '+' then (false, offset + 1, cs)
    else if c = '-' then (true, offset + 1, cs)
    else (false, offset, c :: cs)

/-- The exponent, if there is one. -/
def scanExponent (offset : Nat) (cs : List Char) : Scan (Option (Exponent × Nat)) :=
  match cs with
  | [] => .ok (none, offset, [])
  | c :: rest =>
    if c = 'e' ∨ c = 'E' then
      match scanSign (offset + 1) rest with
      | (negative, start, rest) =>
        match scanExponentDigits start rest with
        | .error fault => .error fault
        | .ok (digits, stop, rest) => .ok (some (⟨negative, digits⟩, start), stop, rest)
    else .ok (none, offset, c :: rest)

/-- The point and the digits behind it, if there is one. -/
def scanFraction (offset : Nat) (cs : List Char) : Scan (Option (List Char)) :=
  match cs with
  | '.' :: rest =>
    match rest with
    | [] => .error ⟨⟨.endInValue, offset + 1⟩, ⟨.invalidNumber, offset + 1⟩⟩
    | c :: _ =>
      if c.isDigit then
        .ok (some (takeDigits rest), offset + 1 + (takeDigits rest).length, dropDigits rest)
      else .error (.both .invalidNumber (offset + 2))
  | cs => .ok (none, offset, cs)

/-- The digits before the point. Nothing but zero starts with a zero. -/
def scanWhole (offset : Nat) (cs : List Char) : Scan (List Char) :=
  match cs with
  | [] => .error ⟨⟨.endInValue, offset⟩, ⟨.invalidNumber, offset⟩⟩
  | c :: rest =>
    if c = '0' then
      match rest with
      | d :: _ =>
        if d.isDigit then .error (.both .invalidNumber (offset + 2))
        else .ok (['0'], offset + 1, rest)
      | [] => .ok (['0'], offset + 1, rest)
    else if c.isDigit then .ok (takeDigits cs, offset + (takeDigits cs).length, dropDigits cs)
    else .error (.both .invalidNumber (offset + 1))

/-- The value of a number between two offsets, the digits of its exponent starting at a third. -/
def numberValue (numeral : Numeral) (exponentStart stop : Nat) : Except Fault Number :=
  match numeral.value with
  | .ok n => .ok n
  | .error (.inExponent count) => .error ⟨.numberOutOfRange, exponentStart + count⟩
  | .error .atEnd => .error ⟨.numberOutOfRange, stop⟩

/-- A number behind its sign. -/
def scanNumber (negative : Bool) (offset : Nat) (cs : List Char) : Scan (Except Fault Number) :=
  match scanWhole offset cs with
  | .error fault => .error fault
  | .ok (whole, offset, cs) =>
    match scanFraction offset cs with
    | .error fault => .error fault
    | .ok (fraction, offset, cs) =>
      match scanExponent offset cs with
      | .error fault => .error fault
      | .ok (exponent, stop, cs) =>
        let numeral : Numeral := ⟨negative, whole, fraction, exponent.map (·.1)⟩
        .ok (numberValue numeral ((exponent.map (·.2)).getD stop) stop, stop, cs)

/-! ## Strings -/

/-- The part of a string decoded so far, last character first, and a high surrogate that waits for
its low one. -/
structure Decoded where
  chars : List Char
  high : Option Nat

/-- A string as far as it is decoded, or the first fault in it. -/
abbrev Decoding := Except Fault Decoded

namespace Decoding

def empty : Decoding :=
  .ok ⟨[], none⟩

/-- A character that is no `\u` escape. A high surrogate may not stand before it. -/
def char (d : Decoding) (offset : Nat) (c : Char) : Decoding :=
  match d with
  | .error fault => .error fault
  | .ok ⟨_, some _⟩ => .error ⟨.endOfEscape, offset⟩
  | .ok ⟨chars, none⟩ => .ok ⟨c :: chars, none⟩

def isHighSurrogate (n : Nat) : Bool :=
  0xD800 ≤ n && n ≤ 0xDBFF

def isLowSurrogate (n : Nat) : Bool :=
  0xDC00 ≤ n && n ≤ 0xDFFF

/-- The code of a `\u` escape. Surrogates stand in pairs. -/
def code (d : Decoding) (offset : Nat) (n : Nat) : Decoding :=
  match d with
  | .error fault => .error fault
  | .ok ⟨chars, some high⟩ =>
    if isLowSurrogate n then
      .ok ⟨Char.ofNat (0x10000 + (high - 0xD800) * 0x400 + (n - 0xDC00)) :: chars, none⟩
    else .error ⟨.loneSurrogate, offset⟩
  | .ok ⟨chars, none⟩ =>
    if isLowSurrogate n then .error ⟨.loneSurrogate, offset⟩
    else if isHighSurrogate n then .ok ⟨chars, some n⟩
    else .ok ⟨Char.ofNat n :: chars, none⟩

/-- The string at its closing quote, which ends at `offset`. -/
def close (d : Decoding) (offset : Nat) : Except Fault String :=
  match d with
  | .error fault => .error fault
  | .ok ⟨_, some _⟩ => .error ⟨.endOfEscape, offset⟩
  | .ok ⟨chars, none⟩ => .ok (String.ofList chars.reverse)

/-- The string breaks off with a fault that does not depend on what is before it. -/
def breakOff (d : Decoding) (fault : Fault) : Break :=
  match d with
  | .error first => ⟨first, fault⟩
  | .ok _ => ⟨fault, fault⟩

/-- The string breaks off at a character that may not stand there; `offset` is where a reader
stands that looks for the second half of a surrogate pair. -/
def breakAt (d : Decoding) (offset : Nat) (fault : Break) : Break :=
  match d with
  | .error first => ⟨first, fault.skipped⟩
  | .ok ⟨_, some _⟩ => ⟨⟨.endOfEscape, offset⟩, fault.skipped⟩
  | .ok ⟨_, none⟩ => fault

end Decoding

def hexDigit? (c : Char) : Option Nat :=
  if '0' ≤ c ∧ c ≤ '9' then some (c.toNat - '0'.toNat)
  else if 'a' ≤ c ∧ c ≤ 'f' then some (c.toNat - 'a'.toNat + 10)
  else if 'A' ≤ c ∧ c ≤ 'F' then some (c.toNat - 'A'.toNat + 10)
  else none

/-- The code of four digits. -/
def hexCode? (a b c d : Char) : Option Nat := do
  let a ← hexDigit? a
  let b ← hexDigit? b
  let c ← hexDigit? c
  let d ← hexDigit? d
  some (((a * 16 + b) * 16 + c) * 16 + d)

/-- The fault of a `\u` that four digits do not follow: four bytes are consumed at once. -/
def hexFault (offset : Nat) (cs : List Char) : Fault :=
  let size := (String.ofList (cs.take 4)).utf8ByteSize
  if 4 ≤ size then ⟨.invalidEscape, offset + 4⟩ else ⟨.endInString, offset + size⟩

/-- The character that a one-letter escape stands for. -/
def escaped? (c : Char) : Option Char :=
  if c = '"' then some '"'
  else if c = '\\' then some '\\'
  else if c = '/' then some '/'
  else if c = 'b' then some '\x08'
  else if c = 'f' then some '\x0c'
  else if c = 'n' then some '\n'
  else if c = 'r' then some '\r'
  else if c = 't' then some '\t'
  else none

/-- A string behind its opening quote. A control character is consumed by a reader that keeps the
string. -/
def scanString (decoding : Decoding) (offset : Nat) : List Char → Scan (Except Fault String)
  | [] => .error (decoding.breakOff ⟨.endInString, offset⟩)
  | c :: cs =>
    if c = '"' then .ok (decoding.close (offset + 1), offset + 1, cs)
    else if c = '\\' then
      match cs with
      | [] => .error (decoding.breakOff ⟨.endInString, offset + 1⟩)
      | e :: cs =>
        if e = 'u' then
          match cs with
          | x₁ :: x₂ :: x₃ :: x₄ :: rest =>
            match hexCode? x₁ x₂ x₃ x₄ with
            | some n => scanString (decoding.code (offset + 6) n) (offset + 6) rest
            | none => .error (decoding.breakOff (hexFault (offset + 2) [x₁, x₂, x₃, x₄]))
          | few => .error (decoding.breakOff (hexFault (offset + 2) few))
        else
          match escaped? e with
          | some c => scanString (decoding.char (offset + 2) c) (offset + 2) cs
          | none => .error (decoding.breakAt (offset + 2) (.both .invalidEscape (offset + 2)))
    else if c.toNat < 0x20 then
      .error (decoding.breakAt (offset + 1)
        ⟨⟨.controlCharacter, offset + 1⟩, ⟨.controlCharacter, offset⟩⟩)
    else scanString (decoding.char (offset + 1) c) (offset + c.utf8Size) cs

/-! ## Tokens -/

/-- The tokens of one character. -/
def punctuation? (c : Char) : Option Lexeme :=
  if c = '[' then some .beginArray
  else if c = ']' then some .endArray
  else if c = '\x7b' then some .beginObject
  else if c = '\x7d' then some .endObject
  else if c = ',' then some .comma
  else if c = ':' then some .colon
  else none

/-- The characters that may stand between tokens. -/
def isGap (c : Char) : Bool :=
  c == ' ' || c == '\n' || c == '\t' || c == '\r'

/-- A literal that starts with `c`, or the lexeme that ends the tokens. -/
def scanLiteral (offset : Nat) (c : Char) (cs : List Char) :
    Except Lexeme (Lexeme × Nat × List Char) :=
  let word (word : List Char) (lexeme : Lexeme) :=
    match scanWord (offset + 1) word cs with
    | .error fault => .error (.brokenLiteral fault)
    | .ok (_, stop, rest) => .ok (lexeme, stop, rest)
  let number (result : Scan (Except Fault Number)) :=
    match result with
    | .error fault => .error (.brokenLiteral fault)
    | .ok (value, stop, rest) => .ok (.number value, stop, rest)
  if c = '"' then
    match scanString .empty (offset + 1) cs with
    | .error fault => .error (.brokenString fault)
    | .ok (value, stop, rest) => .ok (.string value, stop, rest)
  else if c = '-' then number (scanNumber true (offset + 1) cs)
  else if c.isDigit then number (scanNumber false offset (c :: cs))
  else if c = 'n' then word ['u', 'l', 'l'] .null
  else if c = 't' then word ['r', 'u', 'e'] (.bool true)
  else if c = 'f' then word ['a', 'l', 's', 'e'] (.bool false)
  else .error .stray

/-! ## Nothing is read twice -/

theorem length_dropDigits_le (cs : List Char) : (dropDigits cs).length ≤ cs.length :=
  (List.dropWhile_sublist _).length_le

theorem length_le_of_scanWord {offset : Nat} {word cs rest : List Char} {u : Unit} {stop : Nat}
    (h : scanWord offset word cs = .ok (u, stop, rest)) : rest.length ≤ cs.length := by
  induction word generalizing offset cs with
  | nil => simp_all [scanWord]
  | cons w word ih =>
    cases cs with
    | nil => simp [scanWord] at h
    | cons c cs =>
      rw [scanWord] at h
      split at h
      · exact Nat.le_succ_of_le (ih h)
      · simp at h

theorem length_le_of_scanExponentDigits {offset stop : Nat} {cs rest digits : List Char}
    (h : scanExponentDigits offset cs = .ok (digits, stop, rest)) : rest.length ≤ cs.length := by
  cases cs with
  | nil => simp [scanExponentDigits] at h
  | cons c cs =>
    rw [scanExponentDigits] at h
    split at h
    · cases h
      exact length_dropDigits_le _
    · simp at h

theorem length_scanSign_le (offset : Nat) (cs : List Char) :
    (scanSign offset cs).2.2.length ≤ cs.length := by
  cases cs with
  | nil => simp [scanSign]
  | cons c cs =>
    rw [scanSign]
    split
    · simp
    · split <;> simp

theorem length_le_of_scanExponent {offset stop : Nat} {cs rest : List Char}
    {e : Option (Exponent × Nat)} (h : scanExponent offset cs = .ok (e, stop, rest)) :
    rest.length ≤ cs.length := by
  cases cs with
  | nil => simp_all [scanExponent]
  | cons c cs =>
    simp only [scanExponent] at h
    split at h
    · split at h
      · simp at h
      next hd =>
        cases h
        exact Nat.le_succ_of_le
          (Nat.le_trans (length_le_of_scanExponentDigits hd) (length_scanSign_le _ _))
    · cases h
      exact Nat.le_refl _

theorem length_le_of_scanFraction {offset stop : Nat} {cs rest : List Char}
    {f : Option (List Char)} (h : scanFraction offset cs = .ok (f, stop, rest)) :
    rest.length ≤ cs.length := by
  unfold scanFraction at h
  split at h
  · split at h
    · simp at h
    · split at h
      · cases h
        exact Nat.le_succ_of_le (length_dropDigits_le _)
      · simp at h
  · cases h
    exact Nat.le_refl _

theorem length_lt_of_scanWhole {offset stop : Nat} {cs rest digits : List Char}
    (h : scanWhole offset cs = .ok (digits, stop, rest)) : rest.length < cs.length := by
  cases cs with
  | nil => simp [scanWhole] at h
  | cons c cs =>
    simp only [scanWhole] at h
    split at h
    · split at h
      · split at h
        · simp at h
        · cases h
          simp
      · cases h
        simp
    · split at h
      next hc =>
        cases h
        have := length_dropDigits_le cs
        simp only [dropDigits, List.dropWhile_cons, hc, if_true, List.length_cons] at this ⊢
        omega
      next => simp at h

theorem length_lt_of_scanNumber {negative : Bool} {offset stop : Nat} {cs rest : List Char}
    {n : Except Fault Number} (h : scanNumber negative offset cs = .ok (n, stop, rest)) :
    rest.length < cs.length := by
  simp only [scanNumber] at h
  split at h
  · simp at h
  next hw =>
    split at h
    · simp at h
    next hf =>
      split at h
      · simp at h
      next he =>
        cases h
        have := length_lt_of_scanWhole hw
        have := length_le_of_scanFraction hf
        have := length_le_of_scanExponent he
        omega

theorem length_le_of_scanString {decoding : Decoding} {offset stop : Nat} {cs rest : List Char}
    {s : Except Fault String} (h : scanString decoding offset cs = .ok (s, stop, rest)) :
    rest.length ≤ cs.length := by
  fun_induction scanString decoding offset cs <;> simp_all <;> grind

theorem length_le_of_scanLiteral {offset stop : Nat} {c : Char} {cs rest : List Char}
    {lexeme : Lexeme} (h : scanLiteral offset c cs = .ok (lexeme, stop, rest)) :
    rest.length ≤ cs.length := by
  simp only [scanLiteral] at h
  repeat' split at h
  all_goals first
    | cases h
      done
    | rename_i hs
      cases h
      first
        | exact length_le_of_scanString hs
        | exact Nat.le_of_lt (length_lt_of_scanNumber hs)
        | exact Nat.le_of_lt_succ (length_lt_of_scanNumber hs)
        | exact length_le_of_scanWord hs

/-- The tokens of the characters behind `offset` bytes. They end with the text or with a token that
has no end. -/
def Token.scan (offset : Nat) : List Char → List Token
  | [] => []
  | c :: cs =>
    if isGap c then Token.scan (offset + 1) cs
    else match punctuation? c with
      | some lexeme => ⟨lexeme, offset, offset + 1⟩ :: Token.scan (offset + 1) cs
      | none =>
        match h : scanLiteral offset c cs with
        | .error lexeme => [⟨lexeme, offset, offset + 1⟩]
        | .ok (lexeme, stop, rest) =>
          have := length_le_of_scanLiteral h
          ⟨lexeme, offset, stop⟩ :: Token.scan stop rest
termination_by cs => cs.length

end ComponentRules.Json
