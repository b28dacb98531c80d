import ComponentRules.Proofs.Coordinates

/-!
# What selectors name

A selector names a component if the parts of the selector are the first parts of the component. The
same can be said of the texts: that of the component is that of the selector, or goes on behind it
with a colon. It cannot go on in the middle of a part, since parts are compared as a whole.

* `Selector.names_iff_begins`: what a selector names, by parts.
* `Selector.names_iff_continues`: what a selector without a version names, by texts.
* `Coordinate.selector`: the selector that names one component and no other.
* `Selector.names_iff_text`: what selectors name, by texts.
-/

namespace ComponentRules

theorem colonParts_append (front back : String) :
    colonParts (front ++ ":" ++ back) = colonParts front ++ colonParts back := by
  have hchars : (front ++ ":" ++ back).toList = front.toList ++ ':' :: back.toList := by
    rw [String.toList_append, String.toList_append, List.append_assoc]
    rfl
  rw [colonParts, hchars, Text.splitOn_append, List.map_append]
  rfl

/-- The selector of a single component. -/
def Coordinate.selector (c : Coordinate) : Selector :=
  ⟨c.group, c.module, some c.version⟩

namespace Selector

/-- A selector names the components that begin with its parts. -/
theorem names_iff_begins {s : Selector} {c : Coordinate} :
    s.names c = true ↔ s.parts <+: c.parts := by
  obtain ⟨group, module, _ | version⟩ := s <;>
    simp [names, parts, Coordinate.parts, List.cons_prefix_cons, Part.text_injective.eq_iff,
      and_assoc]

theorem colonParts_text (s : Selector) : colonParts s.text = s.parts :=
  colonParts_eq_parts_iff.mpr rfl

theorem length_parts (s : Selector) : s.parts.length = if s.version.isSome then 3 else 2 := by
  obtain ⟨group, module, _ | version⟩ := s <;> rfl

/-- With a version, the texts are the same. -/
theorem names_iff_same {s : Selector} {c : Coordinate} (h : s.version.isSome = true) :
    s.names c = true ↔ c.text = s.text := by
  rw [names_iff_begins, ← Coordinate.colonParts_eq_parts_iff, colonParts_text]
  constructor
  · intro hbegin
    refine hbegin.eq_of_length ?_
    rw [length_parts, if_pos h]
    rfl
  · intro hparts
    exact hparts ▸ List.prefix_rfl

/-- Without a version, the text goes on behind a colon. -/
theorem names_iff_continues {s : Selector} {c : Coordinate} (h : s.version = none) :
    s.names c = true ↔ ∃ rest, c.text = s.text ++ ":" ++ rest := by
  rw [names_iff_begins]
  constructor
  · rintro ⟨more, hparts⟩
    have hmore : more ≠ [] := by
      rintro rfl
      have hlength := congrArg List.length hparts
      rw [List.append_nil, length_parts, h] at hlength
      cases hlength
    refine ⟨":".intercalate more, ?_⟩
    have hparts' : s.parts ≠ [] := List.cons_ne_nil _ _
    rw [c.text_eq, ← hparts, String.intercalate_append_of_ne_nil hparts' hmore, ← s.text_eq]
  · rintro ⟨rest, htext⟩
    refine ⟨colonParts rest, ?_⟩
    rw [← colonParts_text, ← colonParts_append, ← htext]
    exact Coordinate.colonParts_eq_parts_iff.mpr rfl

/-- The selector of a component names this component and no other. -/
theorem names_selector_iff {c d : Coordinate} : c.selector.names d = true ↔ d = c := by
  rw [names_iff_same rfl]
  exact Coordinate.text_injective.eq_iff

theorem eq_selector {s : Selector} (h : s.version.isSome = true) :
    ∃ c : Coordinate, s = c.selector := by
  obtain ⟨group, module, _ | version⟩ := s
  · cases h
  · exact ⟨⟨group, module, version⟩, rfl⟩

/-- **A selector names the components whose text begins with its own, up to the end of a part.**
With a version, nothing may follow, and without one, a colon and something else. A text without
blanks around it is read as a coordinate if and only if it is read as a selector with a version, and
then the selector names just this component. A component named in one version is also named by the
selector that is read from the first two parts. -/
theorem names_iff_text :
    (∀ (s : Selector) (c : Coordinate), s.names c = true ↔
      match s.version with
      | some _ => c.text = s.text
      | none => ∃ rest, c.text = s.text ++ ":" ++ rest) ∧
    (∀ text : String, Text.trim text = text →
      ((∃ c, Coordinate.parse text = .ok c) ↔
        ∃ s, Selector.parse text = .ok s ∧ s.version.isSome = true) ∧
      ∀ s c, Selector.parse text = .ok s → Coordinate.parse text = .ok c →
        ∀ d, s.names d = true ↔ d = c) ∧
    ∀ (s : Selector) (c : Coordinate), s.version.isSome = true → s.names c = true →
      ∃ wider, Selector.parse (s.group.text ++ ":" ++ s.module.text) = .ok wider ∧
        wider.names c = true := by
  refine ⟨fun s c => ?_, fun text htrim => ⟨⟨?_, ?_⟩, ?_⟩, fun s c _ hnames => ?_⟩
  · split
    · rename_i version hversion
      exact names_iff_same (by rw [hversion]; rfl)
    · rename_i hversion
      exact names_iff_continues hversion
  · rintro ⟨c, hc⟩
    have htext : c.selector.text = text := Coordinate.parse_eq_ok_iff.mp hc
    exact ⟨c.selector, parse_eq_ok_iff.mpr (htext.trans htrim.symm), rfl⟩
  · rintro ⟨s, hs, hversion⟩
    obtain ⟨c, rfl⟩ := eq_selector hversion
    exact ⟨c, Coordinate.parse_eq_ok_iff.mpr ((parse_eq_ok_iff.mp hs).trans htrim)⟩
  · intro s c hs hc d
    have htext : s.text = c.selector.text := by
      rw [parse_eq_ok_iff.mp hs, htrim]
      exact (Coordinate.parse_eq_ok_iff.mp hc).symm
    rw [text_injective htext, names_selector_iff]
  · refine ⟨{ s with version := none }, parse_text { s with version := none }, ?_⟩
    rw [names_iff_begins] at hnames ⊢
    have hbegin : Selector.parts { s with version := none } <+: s.parts :=
      ⟨(s.version.map Part.text).toList, rfl⟩
    exact hbegin.trans hnames

/-- One version of a module, and the module. Another module whose name begins with the same letters
is not named. -/
theorem names_iff_text_junit :
    ∃ s c wider, Text.trim "junit:junit:4.13.2" = "junit:junit:4.13.2" ∧
      Selector.parse "junit:junit:4.13.2" = .ok s ∧
      Coordinate.parse "junit:junit:4.13.2" = .ok c ∧ (∀ d, s.names d = true ↔ d = c) ∧
      Selector.parse "junit:junit" = .ok wider ∧ wider.names c = true ∧
      ∀ d, Coordinate.parse "junit:junit-dep:4.10" = .ok d → ¬ wider.names d = true := by
  obtain ⟨htexts, hread, hwider⟩ := names_iff_text
  have htrim : Text.trim "junit:junit:4.13.2" = "junit:junit:4.13.2" := by decide +kernel
  have hs : Selector.parse "junit:junit:4.13.2" =
      .ok ⟨⟨"junit", by decide⟩, ⟨"junit", by decide⟩, some ⟨"4.13.2", by decide⟩⟩ := by
    decide +kernel
  have hmodule : Selector.parse "junit:junit" =
      .ok ⟨⟨"junit", by decide⟩, ⟨"junit", by decide⟩, none⟩ := by
    decide +kernel
  obtain ⟨hsame, hone⟩ := hread _ htrim
  obtain ⟨c, hc⟩ := hsame.mpr ⟨_, hs, rfl⟩
  have hnames := hone _ _ hs hc
  obtain ⟨wider, hparse, hnamed⟩ := hwider _ c rfl ((hnames c).mpr rfl)
  refine ⟨_, c, wider, htrim, hs, hc, hnames, hparse, hnamed, fun d hd hother => ?_⟩
  cases hmodule.symm.trans hparse
  obtain ⟨rest, hrest⟩ := (htexts _ d).mp hother
  -- behind the letters that are the same, one text has a dash and the other a colon
  rw [Coordinate.parse_eq_ok_iff.mp hd, ← String.toList_inj, String.toList_append] at hrest
  have hdash := congrArg (·[11]?) hrest
  rw [List.getElem?_append_left (by decide)] at hdash
  exact absurd hdash (by decide)

end Selector

end ComponentRules
