import ComponentRules.Proofs.Coordinates
import ComponentRules.Proofs.Metadata.Codec
import ComponentRules.Proofs.Metadata.Shapes

/-!
# The documents that are supported

Which documents can be decoded is said here without the decoder: by the tree of the document, and
by the characters of the texts in it.

* `IsMajorOne`, `IsPart`, `IsName`: the texts that are allowed for the version of the format, in the
  coordinate of the component, and as the name of a variant.
* `Metadata.Supported`: the trees that can be decoded.
* `Metadata.decode_iff_supported`: a document can be decoded if and only if its tree is supported,
  and what is decoded depends on the tree only.
-/

namespace ComponentRules

open Json Outcome

/-! ## Texts -/

/-- Whether a text is version 1, or begins with it and a point. -/
def IsMajorOne (text : String) : Prop :=
  text = "1" ∨ ∃ rest, text = "1." ++ rest

/-- Whether a text has a character that is not blank. -/
def IsName (text : String) : Prop :=
  ∃ c ∈ text.toList, Text.isBlank c = false

theorem isMajorOne_iff {text : String} :
    IsMajorOne text ↔ text.toList = ['1'] ∨ ∃ rest, text.toList = '1' :: '.' :: rest := by
  unfold IsMajorOne
  refine or_congr ?_ ⟨?_, ?_⟩
  · rw [← String.toList_inj]
    rfl
  · rintro ⟨rest, rfl⟩
    exact ⟨rest.toList, by rw [String.toList_append]; rfl⟩
  · rintro ⟨rest, h⟩
    refine ⟨String.ofList rest, String.toList_inj.mp ?_⟩
    simp [h]

theorem takeWhile_eq_one_iff {cs : List Char} :
    cs.takeWhile (· != '.') = ['1'] ↔ cs = ['1'] ∨ ∃ rest, cs = '1' :: '.' :: rest := by
  rcases cs with _ | ⟨a, _ | ⟨b, rest⟩⟩
  · simp
  · by_cases ha : a = '.' <;> simp [ha]
  · by_cases ha : a = '.' <;> by_cases hb : b = '.' <;> simp [ha, hb]

theorem Metadata.majorVersion_eq_iff {text : String} :
    majorVersion text = supportedMajor ↔ IsMajorOne text := by
  rw [isMajorOne_iff, ← takeWhile_eq_one_iff, majorVersion, ← String.toList_inj,
    String.toList_ofList]
  rfl

theorem isBlankText_eq_false_iff {text : String} :
    Text.isBlankText text = false ↔ IsName text := by
  simp [Text.isBlankText, IsName]

/-! ## Trees with such texts -/

theorem Json.Value.isText_iff (P : String → Prop) (tree : Value) :
    tree.IsText P ↔ (tree.IsText fun _ => True) ∧ P tree.text := by
  cases tree <;> simp [IsText, text]

theorem Json.Value.isList_iff {P Q R : Value → Prop} (h : ∀ tree, P tree ↔ Q tree ∧ R tree)
    (tree : Value) : tree.IsList P ↔ tree.IsList Q ∧ ∀ item ∈ tree.items, R item := by
  cases tree <;> simp [IsList, items, h, forall_and]

theorem Component.shaped_iff (isPart : String → Prop) (tree : Value) :
    Shaped isPart tree ↔ Shaped (fun _ => True) tree ∧
      isPart (ofTree tree).group ∧ isPart (ofTree tree).module ∧ isPart (ofTree tree).version := by
  cases tree with
  | object members =>
    simp only [Shaped, Value.IsRecord, Fields.requires_iff (Value.isText_iff isPart), ofTree,
      Value.members]
    tauto
  | _ => simp [Shaped, Value.IsRecord]

theorem Variant.shaped_iff (isName : String → Prop) (tree : Value) :
    Shaped isName tree ↔ Shaped (fun _ => True) tree ∧ isName (ofTree tree).name := by
  cases tree with
  | object members =>
    simp only [Shaped, Value.IsRecord, Fields.requires_iff (Value.isText_iff isName), ofTree,
      Value.members]
    tauto
  | _ => simp [Shaped, Value.IsRecord]

namespace Metadata

theorem shaped_iff (isFormat isPart isName : String → Prop) (tree : Value) :
    Shaped isFormat isPart isName tree ↔
      Shaped (fun _ => True) (fun _ => True) (fun _ => True) tree ∧
        isFormat (ofTree tree).formatVersion ∧
        (isPart (ofTree tree).component.group ∧ isPart (ofTree tree).component.module ∧
          isPart (ofTree tree).component.version) ∧
        ∀ v ∈ (ofTree tree).variants, isName v.name := by
  cases tree with
  | object members =>
    simp only [Shaped, Value.IsRecord, ofTree, Value.members, List.forall_mem_map,
      Fields.requires_iff (Value.isText_iff isFormat),
      Fields.requires_iff (Component.shaped_iff isPart),
      Fields.admits_iff (Value.isList_iff (Variant.shaped_iff isName)) (List.forall_mem_nil _)]
    tauto
  | _ => simp [Shaped, Value.IsRecord]

/-- Whether a tree is metadata that can be decoded. -/
def Supported : Value → Prop :=
  Shaped IsMajorOne IsPart IsName

/-- What is decoded from the tree of a text. -/
theorem decode_eq_ok_iff {text : String} {tree : Value} (h : TreeOf text tree) {m : Metadata} :
    decode text = .ok m ↔ Supported tree ∧ m = ofTree tree := by
  rw [decode_eq_ok, ofJson_eq_ok, h.trailing, reads.eq_ok_iff h.shows_root h.depth_le, Supported,
    shaped_iff IsMajorOne, majorVersion_eq_iff, coordinate, Coordinate.exists_ofTexts_iff]
  simp only [isBlankText_eq_false_iff, and_true]
  constructor
  · rintro ⟨⟨hshaped, rfl⟩, htexts⟩
    exact ⟨⟨hshaped, htexts⟩, rfl⟩
  · rintro ⟨⟨hshaped, htexts⟩, rfl⟩
    exact ⟨⟨hshaped, rfl⟩, htexts⟩

/-- **A document can be decoded if and only if its tree is supported.** A text that can be read as
any value has one tree, in which repeated keys are kept. What is decoded depends on nothing but
this tree. -/
theorem decode_iff_supported (text : String) :
    ((∃ c, Content.ofText text = .ok c) ↔ ∃! tree, TreeOf text tree) ∧
      ∀ tree, TreeOf text tree →
        ((∃ m, decode text = .ok m) ↔ Supported tree) ∧
        ∀ m, decode text = .ok m → m = ofTree tree := by
  refine ⟨exists_ofText_iff, fun tree htree => ⟨⟨?_, fun h => ?_⟩, fun m hm => ?_⟩⟩
  · rintro ⟨m, hm⟩
    exact ((decode_eq_ok_iff htree).mp hm).1
  · exact ⟨ofTree tree, (decode_eq_ok_iff htree).mpr ⟨h, rfl⟩⟩
  · exact ((decode_eq_ok_iff htree).mp hm).2

/-- A document in which an unknown key is repeated and a version is given by position. -/
def annotated : Value :=
  .object [("formatVersion", .string "1.1"),
    ("component", .object [("group", .string "foo"), ("module", .string "bar"),
      ("version", .string "1.0")]),
    ("createdBy", .null),
    ("variants", .array [.object [("name", .string "api"), ("note", .null),
      ("dependencies", .array [.object [("group", .string "junit"), ("module", .string "junit"),
        ("version", .array [.null, .string "4.13"])]]),
      ("note", .bool true)]])]

theorem supported_annotated : Supported annotated := by
  have hformat : IsMajorOne "1.1" := .inr ⟨"1", rfl⟩
  have hgroup : IsPart "foo" := partFault?_eq_none_iff.mp (by decide)
  have hmodule : IsPart "bar" := partFault?_eq_none_iff.mp (by decide)
  have hversion : IsPart "1.0" := partFault?_eq_none_iff.mp (by decide)
  have hname : IsName "api" := ⟨'a', by decide, by decide⟩
  simp [Supported, Shaped, annotated, Value.IsRecord, Value.IsText, Value.IsList,
    Fields.Requires, Fields.Admits, Fields.get?_cons, Component.Shaped, Variant.Shaped,
    Declaration.Shaped, VersionConstraint.Shaped, VersionConstraint.Placed,
    VersionConstraint.IsDemand, *]

theorem treeOf_annotated : TreeOf (annotated.pretty ++ "\n") annotated :=
  treeOf_pretty (by simp [annotated, Value.Stable, Value.StableItems]) (by decide)

/-- The last note is kept, and the second place of the version is what it requires. -/
theorem decode_annotated :
    TreeOf (annotated.pretty ++ "\n") annotated ∧ Supported annotated ∧
      ∃ m, decode (annotated.pretty ++ "\n") = .ok m ∧ ∃ v, m.variants = [v] ∧
        v.extra.fields = [("note", .bool true)] ∧
        v.dependencies.map (·.version) = [some (.requiring "4.13")] := by
  obtain ⟨hsome, hwhat⟩ := (decode_iff_supported _).2 annotated treeOf_annotated
  obtain ⟨m, hm⟩ := hsome.mpr supported_annotated
  refine ⟨treeOf_annotated, supported_annotated, m, hm, ?_⟩
  rw [hwhat m hm]
  exact ⟨_, rfl, by rfl, by rfl⟩

end Metadata

end ComponentRules
