/-!
# Splitting at a separator

Coordinates, selectors and paths are texts of parts with a separator between them.

* `splitOn`, `joinWith`: apart and together again.
* `joinWith_splitOn`: nothing is lost by splitting.
* `splitOn_joinWith`: parts that do not hold the separator come back.
* `splitOn_append`: what stands before a separator is split apart from what stands behind it.
* `not_mem_of_mem_splitOn`: no part holds the separator.
-/

namespace ComponentRules.Text

/-- The parts between the separators; a text without one is its only part. -/
def splitOn (sep : Char) : List Char → List (List Char)
  | [] => [[]]
  | c :: cs =>
    if c = sep then [] :: splitOn sep cs
    else match splitOn sep cs with
      | [] => [[c]]
      | part :: parts => (c :: part) :: parts

/-- The parts with a separator between each two. -/
def joinWith (sep : Char) : List (List Char) → List Char
  | [] => []
  | [part] => part
  | part :: next :: parts => part ++ sep :: joinWith sep (next :: parts)

/-! ## Laws -/

theorem splitOn_ne_nil (sep : Char) (cs : List Char) : splitOn sep cs ≠ [] := by
  cases cs with
  | nil => simp [splitOn]
  | cons c cs =>
    rw [splitOn]
    split
    · simp
    · split <;> simp

theorem joinWith_cons_of_ne_nil {sep : Char} {part : List Char} {parts : List (List Char)}
    (h : parts ≠ []) : joinWith sep (part :: parts) = part ++ sep :: joinWith sep parts := by
  cases parts with
  | nil => exact absurd rfl h
  | cons next parts => rfl

theorem joinWith_splitOn (sep : Char) (cs : List Char) : joinWith sep (splitOn sep cs) = cs := by
  induction cs with
  | nil => rfl
  | cons c cs ih =>
    rw [splitOn]
    split
    next h => rw [joinWith_cons_of_ne_nil (splitOn_ne_nil sep cs), ih, h]; rfl
    next =>
      split
      next h => exact absurd h (splitOn_ne_nil sep cs)
      next part parts h =>
        rw [h] at ih
        rw [← ih]
        cases parts <;> rfl

theorem not_mem_of_mem_splitOn {sep : Char} {cs part : List Char} (h : part ∈ splitOn sep cs) :
    sep ∉ part := by
  induction cs generalizing part with
  | nil => simp_all [splitOn]
  | cons c cs ih =>
    rw [splitOn] at h
    split at h
    next =>
      rcases List.mem_cons.1 h with rfl | h
      · simp
      · exact ih h
    next hc =>
      split at h
      next he => exact absurd he (splitOn_ne_nil sep cs)
      next first parts he =>
        rcases List.mem_cons.1 h with rfl | h
        · have : sep ∉ first := ih (by simp [he])
          simp [this, Ne.symm hc]
        · exact ih (by simp [he, h])

theorem splitOn_of_not_mem {sep : Char} {cs : List Char} (h : sep ∉ cs) :
    splitOn sep cs = [cs] := by
  induction cs with
  | nil => rfl
  | cons c cs ih =>
    simp only [List.mem_cons, not_or] at h
    rw [splitOn, if_neg (Ne.symm h.1), ih h.2]

/-- Two texts with a separator between them are split apart. -/
theorem splitOn_append (sep : Char) (front back : List Char) :
    splitOn sep (front ++ sep :: back) = splitOn sep front ++ splitOn sep back := by
  induction front with
  | nil => simp [splitOn]
  | cons c front ih =>
    rw [List.cons_append, splitOn, splitOn, ih]
    split
    · rfl
    · cases h : splitOn sep front with
      | nil => exact absurd h (splitOn_ne_nil sep front)
      | cons part parts => rfl

theorem splitOn_append_sep {sep : Char} {part cs : List Char} (h : sep ∉ part) :
    splitOn sep (part ++ sep :: cs) = part :: splitOn sep cs := by
  rw [splitOn_append, splitOn_of_not_mem h, List.singleton_append]

theorem splitOn_joinWith {sep : Char} {parts : List (List Char)} (hne : parts ≠ [])
    (h : ∀ part ∈ parts, sep ∉ part) : splitOn sep (joinWith sep parts) = parts := by
  induction parts with
  | nil => exact absurd rfl hne
  | cons part parts ih =>
    cases parts with
    | nil => exact splitOn_of_not_mem (h part (by simp))
    | cons next parts =>
      rw [joinWith_cons_of_ne_nil (by simp), splitOn_append_sep (h part (by simp)),
        ih (by simp) fun p hp => h p (by simp [hp])]

end ComponentRules.Text
