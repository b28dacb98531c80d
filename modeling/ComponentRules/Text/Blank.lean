/-!
# Blank characters

Names of components and dependencies may hold no blank, and selectors are read with blanks
around them ignored. Blank means Unicode's `White_Space` property, which has 25 members.

* `isBlank`: the property.
* `trim`: a text without the blanks around it.
* `trim_eq_iff`: what is trimmed are the blanks around a text, and nothing else.
-/

namespace ComponentRules.Text

/-- The characters with Unicode's `White_Space` property. -/
def isBlank (c : Char) : Bool :=
  let n := c.toNat
  (9 ≤ n && n ≤ 13) || n == 0x20 || n == 0x85 || n == 0xA0 || n == 0x1680 ||
    (0x2000 ≤ n && n ≤ 0x200A) || n == 0x2028 || n == 0x2029 || n == 0x202F ||
    n == 0x205F || n == 0x3000

/-- Drops the blanks at both ends. -/
def trimChars (cs : List Char) : List Char :=
  ((cs.dropWhile isBlank).reverse.dropWhile isBlank).reverse

/-- The text without the blanks around it. -/
def trim (s : String) : String :=
  String.ofList (trimChars s.toList)

/-- Whether a text holds nothing but blanks. -/
def isBlankText (s : String) : Bool :=
  s.toList.all isBlank

/-- Whether a text is another one with blanks around it. -/
def Padded (inner outer : String) : Prop :=
  ∃ front back : String, isBlankText front = true ∧ isBlankText back = true ∧
    outer = front ++ inner ++ back

/-! ## Laws -/

theorem dropWhile_isBlank_eq_self {cs : List Char} (h : ∀ c ∈ cs.head?, isBlank c = false) :
    cs.dropWhile isBlank = cs := by
  cases cs with
  | nil => rfl
  | cons c cs => simp [h c (by simp)]

/-- What is trimmed are blanks. -/
theorem exists_trimChars (cs : List Char) :
    ∃ front back : List Char, front.all isBlank = true ∧ back.all isBlank = true ∧
      cs = front ++ trimChars cs ++ back := by
  refine ⟨cs.takeWhile isBlank, ((cs.dropWhile isBlank).reverse.takeWhile isBlank).reverse,
    List.all_takeWhile, ?_, ?_⟩
  · rw [List.all_reverse]
    exact List.all_takeWhile
  · rw [trimChars, List.append_assoc, ← List.reverse_append, List.takeWhile_append_dropWhile,
      List.reverse_reverse, List.takeWhile_append_dropWhile]

theorem padded_trim (text : String) : Padded (trim text) text := by
  obtain ⟨front, back, hfront, hback, hsplit⟩ := exists_trimChars text.toList
  refine ⟨.ofList front, .ofList back, by simpa [isBlankText] using hfront,
    by simpa [isBlankText] using hback, ?_⟩
  rw [trim, ← String.ofList_append, ← String.ofList_append, ← hsplit, String.ofList_toList]

/-- A text is trimmed to what blanks stand around, if no blank stands at the ends of this. -/
theorem trim_eq_iff {inner outer : String} (hd : ∀ c ∈ inner.toList.head?, isBlank c = false)
    (tl : ∀ c ∈ inner.toList.getLast?, isBlank c = false) (hne : inner ≠ "") :
    trim outer = inner ↔ Padded inner outer := by
  constructor
  · rintro rfl
    exact padded_trim outer
  · rintro ⟨front, back, hfront, hback, rfl⟩
    have hne' : inner.toList ≠ [] := by simpa using hne
    have hfront' : ∀ c ∈ front.toList, isBlank c = true := List.all_eq_true.mp hfront
    have hback' : ∀ c ∈ back.toList.reverse, isBlank c = true := by
      intro c hc
      exact List.all_eq_true.mp hback c (List.mem_reverse.mp hc)
    have hbegin : (inner.toList ++ back.toList).dropWhile isBlank =
        inner.toList ++ back.toList := by
      obtain ⟨c, cs, hcons⟩ := List.exists_cons_of_ne_nil hne'
      rw [hcons] at hd ⊢
      exact dropWhile_isBlank_eq_self hd
    have hend : inner.toList.reverse.dropWhile isBlank = inner.toList.reverse := by
      refine dropWhile_isBlank_eq_self ?_
      rwa [List.head?_reverse]
    rw [trim, trimChars, String.toList_append, String.toList_append, List.append_assoc,
      List.dropWhile_append_of_pos hfront', hbegin, List.reverse_append,
      List.dropWhile_append_of_pos hback', hend, List.reverse_reverse, String.ofList_toList]

end ComponentRules.Text
