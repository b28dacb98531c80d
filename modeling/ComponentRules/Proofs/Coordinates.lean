import ComponentRules.Coordinate
import ComponentRules.Proofs.Outcome

/-!
# The texts of coordinates and selectors

A coordinate is three parts and a selector two or three. Their texts have colons between the parts,
and since no part holds a colon, the parts can be told from the text. A text with blanks around it is
read as a selector as well; no part holds a blank, so what is read is the text between the blanks.

* `IsPart`: the texts that can be parts, said without checking them.
* `colonParts_eq_iff`: the parts of a text are those it is joined from.
* `Coordinate.parse_eq_ok_iff`, `Selector.parse_eq_ok_iff`: a text is read as what has this text.
* `JoinsParts`: the texts of some parts, said without reading them.
* `parse_iff_text`: which texts can be read, and that reading is inverse to writing.
-/

namespace ComponentRules

open Outcome

/-! ## Parts -/

/-- Whether a text can be a part of a coordinate. -/
structure IsPart (text : String) : Prop where
  nonempty : text ≠ ""
  size_le : text.utf8ByteSize ≤ 255
  clean : ∀ c ∈ text.toList, c ≠ ':' ∧ Text.isBlank c = false

theorem partFault?_eq_none_iff {text : String} : partFault? text = none ↔ IsPart text := by
  unfold partFault?
  constructor
  · intro h
    split at h
    · cases h
    rename_i hempty
    split at h
    · cases h
    rename_i hsize
    split at h
    · cases h
    rename_i hany
    refine ⟨fun hnil => hempty (by simp [hnil]), Nat.not_lt.mp hsize, fun c hc => ?_⟩
    have hclean : isForbidden c ≠ true := fun hbad => hany (List.any_eq_true.mpr ⟨c, hc, hbad⟩)
    simpa [isForbidden] using hclean
  · intro h
    have hempty : ¬ text.isEmpty = true := by simpa using h.nonempty
    have hany : ¬ text.toList.any isForbidden = true := by
      rw [List.any_eq_true]
      rintro ⟨c, hc, hbad⟩
      obtain ⟨hcolon, hblank⟩ := h.clean c hc
      simp [isForbidden, hcolon, hblank] at hbad
    have hsize : ¬ maxPartSize < text.utf8ByteSize := Nat.not_lt.mpr h.size_le
    rw [if_neg hempty, if_neg hsize, if_neg hany]

theorem IsPart.colon_not_mem {text : String} (h : IsPart text) : ':' ∉ text.toList :=
  fun hc => (h.clean ':' hc).1 rfl

namespace Part

theorem isPart (part : Part) : IsPart part.text :=
  partFault?_eq_none_iff.mp part.valid

theorem exists_of_isPart {text : String} (h : IsPart text) : ∃ part : Part, part.text = text :=
  ⟨⟨text, partFault?_eq_none_iff.mpr h⟩, rfl⟩

theorem text_injective : Function.Injective text := by
  intro a b h
  cases a
  cases b
  cases h
  rfl

/-- A text is taken for the part that has this text. -/
theorem ofText_eq_ok_iff {text : String} {part : Part} :
    ofText text = .ok part ↔ part.text = text := by
  unfold ofText
  split
  · rename_i fault hfault
    constructor
    · intro h
      cases h
    · rintro rfl
      cases part.valid.symm.trans hfault
  · constructor
    · intro h
      cases h
      rfl
    · intro h
      exact congrArg Except.ok (text_injective h.symm)

theorem ofKind_eq_ok_iff {kind text : String} {part : Part} :
    ofKind kind text = .ok part ↔ part.text = text := by
  rw [ofKind, mapError_eq_ok, ofText_eq_ok_iff]

end Part

/-! ## Parts between colons -/

theorem Text.joinWith_eq_intercalate (sep : Char) (parts : List (List Char)) :
    joinWith sep parts = [sep].intercalate parts := by
  induction parts with
  | nil => rfl
  | cons part parts ih =>
    cases parts with
    | nil => simp [joinWith]
    | cons next parts =>
      rw [joinWith_cons_of_ne_nil (List.cons_ne_nil next parts), ih]
      simp [List.intercalate]

theorem Text.mem_joinWith {sep c : Char} {parts : List (List Char)} (h : c ∈ joinWith sep parts) :
    c = sep ∨ ∃ part ∈ parts, c ∈ part := by
  induction parts with
  | nil => cases h
  | cons part parts ih =>
    by_cases hnil : parts = []
    · subst hnil
      exact .inr ⟨part, List.mem_cons_self, h⟩
    · rw [joinWith_cons_of_ne_nil hnil, List.mem_append, List.mem_cons] at h
      rcases h with hpart | hsep | hrest
      · exact .inr ⟨part, List.mem_cons_self, hpart⟩
      · exact .inl hsep
      · rcases ih hrest with hsep | ⟨later, hlater, hc⟩
        · exact .inl hsep
        · exact .inr ⟨later, List.mem_cons_of_mem part hlater, hc⟩

theorem toList_intercalate_colon (parts : List String) :
    (":".intercalate parts).toList = Text.joinWith ':' (parts.map String.toList) := by
  rw [String.toList_intercalate, Text.joinWith_eq_intercalate]
  rfl

/-- Nothing is lost by taking a text apart. -/
theorem intercalate_colonParts (text : String) : ":".intercalate (colonParts text) = text := by
  have hparts : (colonParts text).map String.toList = Text.splitOn ':' text.toList := by
    simp [colonParts, Function.comp_def]
  rw [← String.toList_inj, toList_intercalate_colon, hparts, Text.joinWith_splitOn]

/-- The parts of a text are those it is joined from, if none of them holds a colon. -/
theorem colonParts_eq_iff {text : String} {parts : List String} (hne : parts ≠ [])
    (hcolon : ∀ part ∈ parts, ':' ∉ part.toList) :
    colonParts text = parts ↔ ":".intercalate parts = text := by
  constructor
  · rintro rfl
    exact intercalate_colonParts text
  · rintro rfl
    have hsplit : Text.splitOn ':' (Text.joinWith ':' (parts.map String.toList)) =
        parts.map String.toList := by
      refine Text.splitOn_joinWith (by simpa using hne) fun part hpart => ?_
      obtain ⟨text, htext, rfl⟩ := List.mem_map.mp hpart
      exact hcolon text htext
    rw [colonParts, toList_intercalate_colon, hsplit]
    simp [Function.comp_def]

/-! ## Coordinates -/

namespace Coordinate

/-- The texts of the parts. -/
def parts (c : Coordinate) : List String :=
  [c.group.text, c.module.text, c.version.text]

theorem text_eq (c : Coordinate) : c.text = ":".intercalate c.parts := by
  simp [text, parts, String.append_assoc]

theorem isPart_of_mem_parts {c : Coordinate} {part : String} (h : part ∈ c.parts) :
    IsPart part := by
  simp only [parts, List.mem_cons, List.not_mem_nil, or_false] at h
  rcases h with rfl | rfl | rfl
  · exact c.group.isPart
  · exact c.module.isPart
  · exact c.version.isPart

theorem colonParts_eq_parts_iff {c : Coordinate} {text : String} :
    colonParts text = c.parts ↔ c.text = text := by
  have hne : c.parts ≠ [] := List.cons_ne_nil _ _
  rw [colonParts_eq_iff hne fun part h => (isPart_of_mem_parts h).colon_not_mem, text_eq]

theorem ofTexts_eq_ok_iff {group module version : String} {c : Coordinate} :
    ofTexts group module version = .ok c ↔ [group, module, version] = c.parts := by
  have hparts : ofTexts group module version = .ok c ↔ (do
      let group ← Part.ofKind "group" group
      let module ← Part.ofKind "module" module
      let version ← Part.ofKind "version" version
      pure ⟨group, module, version⟩ : Except String Coordinate) = .ok c := by
    unfold ofTexts
    dsimp only
    split
    · rename_i c' h
      rw [h]
      simp
    · rename_i reason h
      rw [h]
      exact ⟨nofun, nofun⟩
  rw [hparts]
  constructor
  · intro h
    obtain ⟨group, hgroup, h⟩ := bind_eq_ok.mp h
    obtain ⟨module, hmodule, h⟩ := bind_eq_ok.mp h
    obtain ⟨version, hversion, h⟩ := bind_eq_ok.mp h
    cases pure_eq_ok.mp h
    rw [parts, Part.ofKind_eq_ok_iff.mp hgroup, Part.ofKind_eq_ok_iff.mp hmodule,
      Part.ofKind_eq_ok_iff.mp hversion]
  · intro h
    simp only [parts, List.cons.injEq, and_true] at h
    obtain ⟨rfl, rfl, rfl⟩ := h
    exact bind_eq_ok.mpr ⟨_, Part.ofKind_eq_ok_iff.mpr rfl, bind_eq_ok.mpr
      ⟨_, Part.ofKind_eq_ok_iff.mpr rfl, bind_eq_ok.mpr ⟨_, Part.ofKind_eq_ok_iff.mpr rfl, rfl⟩⟩⟩

/-- Three texts make a coordinate if each of them can be a part of one. -/
theorem exists_ofTexts_iff {group module version : String} :
    (∃ c, ofTexts group module version = .ok c) ↔
      IsPart group ∧ IsPart module ∧ IsPart version := by
  constructor
  · rintro ⟨c, h⟩
    have hparts := ofTexts_eq_ok_iff.mp h
    simp only [parts, List.cons.injEq, and_true] at hparts
    obtain ⟨rfl, rfl, rfl⟩ := hparts
    exact ⟨c.group.isPart, c.module.isPart, c.version.isPart⟩
  · rintro ⟨hgroup, hmodule, hversion⟩
    obtain ⟨group, rfl⟩ := Part.exists_of_isPart hgroup
    obtain ⟨module, rfl⟩ := Part.exists_of_isPart hmodule
    obtain ⟨version, rfl⟩ := Part.exists_of_isPart hversion
    exact ⟨⟨group, module, version⟩, ofTexts_eq_ok_iff.mpr rfl⟩

/-- A text is read as the coordinate that has this text. -/
theorem parse_eq_ok_iff {text : String} {c : Coordinate} :
    parse text = .ok c ↔ c.text = text := by
  rw [← colonParts_eq_parts_iff, parse]
  split
  · rename_i group module version h
    rw [ofTexts_eq_ok_iff, h]
  · rename_i h
    exact ⟨nofun, fun hparts => absurd hparts (h _ _ _)⟩

theorem text_injective : Function.Injective text := by
  intro a b h
  have ha : parse a.text = .ok a := parse_eq_ok_iff.mpr rfl
  rw [h, parse_eq_ok_iff.mpr rfl] at ha
  exact (Except.ok.inj ha).symm

end Coordinate

/-! ## Selectors -/

namespace Selector

/-- The texts of the parts that are there. -/
def parts (s : Selector) : List String :=
  s.group.text :: s.module.text :: (s.version.map Part.text).toList

theorem text_eq (s : Selector) : s.text = ":".intercalate s.parts := by
  obtain ⟨group, module, _ | version⟩ := s <;> simp [text, parts, String.append_assoc]

theorem isPart_of_mem_parts {s : Selector} {part : String} (h : part ∈ s.parts) :
    IsPart part := by
  simp only [parts, List.mem_cons, Option.mem_toList, Option.map_eq_some_iff] at h
  rcases h with rfl | rfl | ⟨version, -, rfl⟩
  · exact s.group.isPart
  · exact s.module.isPart
  · exact version.isPart

theorem colonParts_eq_parts_iff {s : Selector} {text : String} :
    colonParts text = s.parts ↔ s.text = text := by
  have hne : s.parts ≠ [] := List.cons_ne_nil _ _
  rw [colonParts_eq_iff hne fun part h => (isPart_of_mem_parts h).colon_not_mem, text_eq]

theorem ofParts_eq_ok_iff {texts : List String} {s : Selector} :
    ofParts texts = .ok s ↔ texts = s.parts := by
  constructor
  · intro h
    unfold ofParts at h
    split at h
    · obtain ⟨group, hgroup, h⟩ := bind_eq_ok.mp h
      obtain ⟨module, hmodule, h⟩ := bind_eq_ok.mp h
      cases pure_eq_ok.mp h
      rw [← Part.ofKind_eq_ok_iff.mp hgroup, ← Part.ofKind_eq_ok_iff.mp hmodule]
      rfl
    · obtain ⟨group, hgroup, h⟩ := bind_eq_ok.mp h
      obtain ⟨module, hmodule, h⟩ := bind_eq_ok.mp h
      obtain ⟨version, hversion, h⟩ := bind_eq_ok.mp h
      cases pure_eq_ok.mp h
      rw [← Part.ofKind_eq_ok_iff.mp hgroup, ← Part.ofKind_eq_ok_iff.mp hmodule,
        ← Part.ofKind_eq_ok_iff.mp hversion]
      rfl
    · cases h
  · rintro rfl
    have hgroup := @Part.ofKind_eq_ok_iff "group" _ s.group |>.mpr rfl
    have hmodule := @Part.ofKind_eq_ok_iff "module" _ s.module |>.mpr rfl
    obtain ⟨group, module, _ | version⟩ := s
    · exact bind_eq_ok.mpr ⟨_, hgroup, bind_eq_ok.mpr ⟨_, hmodule, rfl⟩⟩
    · exact bind_eq_ok.mpr ⟨_, hgroup, bind_eq_ok.mpr ⟨_, hmodule, bind_eq_ok.mpr
        ⟨_, Part.ofKind_eq_ok_iff.mpr rfl, rfl⟩⟩⟩

/-- A text is read as the selector that has this text, but for blanks around it. -/
theorem parse_eq_ok_iff {text : String} {s : Selector} :
    parse text = .ok s ↔ s.text = Text.trim text := by
  have hparse : parse text = .ok s ↔ ofParts (colonParts (Text.trim text)) = .ok s := by
    unfold parse
    split
    · rename_i selector h
      rw [h]
      simp
    · rename_i reason h
      rw [h]
      exact ⟨nofun, nofun⟩
  rw [hparse, ofParts_eq_ok_iff, colonParts_eq_parts_iff]

theorem not_isBlank_of_mem_text {s : Selector} {c : Char} (h : c ∈ s.text.toList) :
    Text.isBlank c = false := by
  rw [text_eq, toList_intercalate_colon] at h
  rcases Text.mem_joinWith h with rfl | ⟨cs, hcs, hc⟩
  · decide
  · obtain ⟨part, hpart, rfl⟩ := List.mem_map.mp hcs
    exact ((isPart_of_mem_parts hpart).clean c hc).2

theorem text_ne_empty (s : Selector) : s.text ≠ "" := by
  intro h
  have hparts : colonParts "" = s.parts := colonParts_eq_parts_iff.mpr h
  have hgroup : s.group.text = "" := (List.cons.inj hparts).1.symm
  exact s.group.isPart.nonempty hgroup

theorem trim_eq_text_iff {s : Selector} {text : String} :
    Text.trim text = s.text ↔ Text.Padded s.text text :=
  Text.trim_eq_iff (fun _ hc => not_isBlank_of_mem_text (List.mem_of_mem_head? hc))
    (fun _ hc => not_isBlank_of_mem_text (List.mem_of_mem_getLast? hc)) s.text_ne_empty

theorem parse_text (s : Selector) : parse s.text = .ok s := by
  rw [parse_eq_ok_iff]
  exact (trim_eq_text_iff.mpr ⟨"", "", rfl, rfl, by simp⟩).symm

theorem text_injective : Function.Injective text := by
  intro a b h
  have ha := a.parse_text
  rw [h, b.parse_text] at ha
  exact (Except.ok.inj ha).symm

end Selector

/-! ## The texts that can be read -/

/-- Whether a text is some number of parts with colons between them. -/
def JoinsParts (n : Nat) (text : String) : Prop :=
  ∃ parts : List String, parts.length = n ∧ (∀ part ∈ parts, IsPart part) ∧
    ":".intercalate parts = text

theorem Coordinate.exists_text_iff {text : String} :
    (∃ c : Coordinate, c.text = text) ↔ JoinsParts 3 text := by
  constructor
  · rintro ⟨c, rfl⟩
    exact ⟨c.parts, rfl, fun part => isPart_of_mem_parts, c.text_eq.symm⟩
  · rintro ⟨parts, hlength, hparts, rfl⟩
    obtain ⟨a, b, c, rfl⟩ := List.length_eq_three.mp hlength
    obtain ⟨group, rfl⟩ := Part.exists_of_isPart (hparts a (by simp))
    obtain ⟨module, rfl⟩ := Part.exists_of_isPart (hparts b (by simp))
    obtain ⟨version, rfl⟩ := Part.exists_of_isPart (hparts c (by simp))
    exact ⟨⟨group, module, version⟩, text_eq _⟩

theorem Selector.exists_text_iff {text : String} :
    (∃ s : Selector, s.text = text) ↔ JoinsParts 2 text ∨ JoinsParts 3 text := by
  constructor
  · rintro ⟨s, rfl⟩
    have hlength : s.parts.length = 2 ∨ s.parts.length = 3 := by
      obtain ⟨group, module, _ | version⟩ := s
      · exact .inl rfl
      · exact .inr rfl
    exact hlength.imp (fun h => ⟨s.parts, h, fun part => isPart_of_mem_parts, s.text_eq.symm⟩)
      fun h => ⟨s.parts, h, fun part => isPart_of_mem_parts, s.text_eq.symm⟩
  · rintro (⟨parts, hlength, hparts, rfl⟩ | h)
    · obtain ⟨a, b, rfl⟩ := List.length_eq_two.mp hlength
      obtain ⟨group, rfl⟩ := Part.exists_of_isPart (hparts a (by simp))
      obtain ⟨module, rfl⟩ := Part.exists_of_isPart (hparts b (by simp))
      exact ⟨⟨group, module, none⟩, text_eq _⟩
    · obtain ⟨⟨group, module, version⟩, rfl⟩ := Coordinate.exists_text_iff.mpr h
      exact ⟨⟨group, module, some version⟩, rfl⟩

/-- **Reading is inverse to writing.** A text is read as a coordinate if and only if it is three
parts with colons between them, and as a selector if and only if two or three parts are left when it
is trimmed. What is read has just this text, so it is a selector that the text is with blanks around
it. Every coordinate is made of the texts of its parts, and every coordinate and selector is read
from its own text, which no other one has. -/
theorem parse_iff_text :
    (∀ text : String, ((∃ c, Coordinate.parse text = .ok c) ↔ JoinsParts 3 text) ∧
      ∀ c, Coordinate.parse text = .ok c ↔ c.text = text) ∧
    (∀ text : String, ((∃ s, Selector.parse text = .ok s) ↔
        JoinsParts 2 (Text.trim text) ∨ JoinsParts 3 (Text.trim text)) ∧
      ∀ s, (Selector.parse text = .ok s ↔ s.text = Text.trim text) ∧
        (Selector.parse text = .ok s ↔ Text.Padded s.text text)) ∧
    (∀ c : Coordinate,
      Coordinate.ofTexts c.group.text c.module.text c.version.text = .ok c ∧
        Coordinate.parse c.text = .ok c) ∧
    (∀ s : Selector, Selector.parse s.text = .ok s) ∧
    Function.Injective Coordinate.text ∧ Function.Injective Selector.text := by
  refine ⟨fun text => ⟨?_, fun c => Coordinate.parse_eq_ok_iff⟩, fun text => ⟨?_, fun s => ?_⟩,
    fun c => ?_, Selector.parse_text, Coordinate.text_injective, Selector.text_injective⟩
  · simp only [Coordinate.parse_eq_ok_iff]
    exact Coordinate.exists_text_iff
  · simp only [Selector.parse_eq_ok_iff]
    exact Selector.exists_text_iff
  · have htrim : Selector.parse text = .ok s ↔ s.text = Text.trim text :=
      Selector.parse_eq_ok_iff
    exact ⟨htrim, htrim.trans (eq_comm.trans Selector.trim_eq_text_iff)⟩
  · exact ⟨Coordinate.ofTexts_eq_ok_iff.mpr rfl, Coordinate.parse_eq_ok_iff.mpr rfl⟩

end ComponentRules
