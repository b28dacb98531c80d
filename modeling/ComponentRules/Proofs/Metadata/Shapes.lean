import ComponentRules.Proofs.Json.KnownMembers
import ComponentRules.Proofs.Metadata.Documents

/-!
# The shape of metadata

Each record of metadata is read from trees of one shape. The shape says which members there must be
or may be, and none of them may be repeated. What is read depends on nothing but the tree, and a
member that may be left out may be there all the same.

* `VersionConstraint.Shaped`, `Declaration.Shaped`, `Variant.Shaped`, `Component.Shaped`,
  `Metadata.Shaped`: the trees that can be read. Some texts in them may be bound to a condition.
* `ofTree`, for each of them: what a tree is read as.
* `reads`, for each of them: the reader accepts the trees of the shape and makes this of them.
-/

namespace ComponentRules

open Json Outcome

/-! ## Version constraints -/

namespace VersionConstraint

/-- Whether a tree is a text or nothing. -/
def IsDemand (tree : Value) : Prop :=
  tree = .null ∨ tree.IsText fun _ => True

/-- Whether a tree is a list of texts. -/
def IsTexts (tree : Value) : Prop :=
  tree.IsList fun item => item.IsText fun _ => True

/-- Whether members suit a version constraint. -/
def Named (members : Fields) : Prop :=
  members.Admits "strictly" IsDemand ∧ members.Admits "requires" IsDemand ∧
    members.Admits "prefers" IsDemand ∧ members.Admits "rejects" IsTexts

/-- Whether items suit a version constraint, by position. -/
def Placed (items : List Value) : Prop :=
  items.length ≤ 4 ∧ (∀ item ∈ items.take 3, IsDemand item) ∧ ∀ item ∈ items.drop 3, IsTexts item

/-- Whether a tree is a version constraint: an object with demands, or an array of them. -/
def Shaped : Value → Prop
  | .object members => Named members
  | .array items => Placed items
  | _ => False

/-- The version constraint of four trees; what is not demanded is `null`. -/
def ofTrees (strictly requires prefers rejects : Value) : VersionConstraint :=
  ⟨strictly.unlessNull Value.text, requires.unlessNull Value.text, prefers.unlessNull Value.text,
    rejects.items.map Value.text⟩

/-- The version constraint in a tree. -/
def ofTree : Value → VersionConstraint
  | .array items =>
    ofTrees (items.getD 0 .null) (items.getD 1 .null) (items.getD 2 .null) (items.getD 3 .null)
  | tree =>
    ofTrees (tree.members.value "strictly") (tree.members.value "requires")
      (tree.members.value "prefers") (tree.members.value "rejects")

theorem reads_demand :
    (Reader.optional Reader.string).Reads IsDemand (Value.unlessNull Value.text) :=
  Reader.reads_optional Reader.reads_string

theorem reads_texts :
    (Reader.sequence Reader.string).Reads IsTexts fun tree => tree.items.map Value.text :=
  Reader.reads_sequence Reader.reads_string

namespace Draft

/-- The shapes of the members that a version constraint knows. -/
def shapes : List (Reader.ShapedField Draft) :=
  [⟨strictlyField, _, _, reads_demand⟩, ⟨requiresField, _, _, reads_demand⟩,
    ⟨prefersField, _, _, reads_demand⟩, ⟨rejectsField, _, _, reads_texts⟩]

theorem total_passOver : Reader.Total passOver := by
  intro s key settled room node tree hnode _
  rw [passOver, skip_of_shows hnode]
  exact ⟨s, rfl⟩

end Draft

/-- What has been taken in of the members of a version constraint. -/
theorem Draft.finish_of_takenIn {members : Fields} {s : Draft}
    (h : Reader.TakenIn Draft.shapes (fun _ _ => True) members s) :
    s.finish = ofTrees (members.value "strictly") (members.value "requires")
      (members.value "prefers") (members.value "rejects") := by
  have hknown := h.known
  simp only [shapes, List.forall_mem_cons, strictlyField, requiresField, prefersField,
    rejectsField] at hknown
  obtain ⟨hstrictly, hrequires, hprefers, hrejects, -⟩ := hknown
  have hrejects : s.rejects.getD [] = _ :=
    hrejects ▸ Fields.getD_map_get? members "rejects" rfl
  rw [finish, hstrictly, hrequires, hprefers, hrejects, Fields.join_map_get?,
    Fields.join_map_get?, Fields.join_map_get?, ofTrees]

theorem reads_record :
    (Reader.record "VersionConstraint" Draft.member .empty fun s => .ok s.finish).Reads
      (Value.IsRecord Named) fun tree =>
        ofTrees (tree.members.value "strictly") (tree.members.value "requires")
          (tree.members.value "prefers") (tree.members.value "rejects") := by
  have hfinish {members : Fields} {s : Draft}
      (h : Reader.TakenIn Draft.shapes (fun _ _ => True) members s) (v : VersionConstraint) :
      (Except.ok s.finish : Except String VersionConstraint) = .ok v ↔
        True ∧ v = ofTrees (members.value "strictly") (members.value "requires")
          (members.value "prefers") (members.value "rejects") := by
    rw [Draft.finish_of_takenIn h, Except.ok.injEq, true_and, eq_comm]
  have hempty : ∀ f ∈ Draft.shapes, f.get Draft.empty = none := by
    simp only [Draft.shapes, List.forall_mem_cons]
    exact ⟨rfl, rfl, rfl, rfl, nofun⟩
  rw [Draft.member_eq]
  have hrecord := Reader.reads_record "VersionConstraint" Draft.knows_fields Draft.total_passOver
    hempty _ (fun _ _ _ => trivial) hfinish
  refine hrecord.congr (Value.isRecord_congr fun members => ?_)
  simp only [Draft.shapes, List.forall_mem_cons]
  constructor
  · rintro ⟨⟨hstrictly, hrequires, hprefers, hrejects, -⟩, -⟩
    exact ⟨hstrictly, hrequires, hprefers, hrejects⟩
  · rintro ⟨hstrictly, hrequires, hprefers, hrejects⟩
    exact ⟨⟨hstrictly, hrequires, hprefers, hrejects, nofun⟩, trivial⟩

/-- The places of an array of demands. -/
def slots : List (Reader.Slot VersionConstraint) :=
  [.ofReader reads_demand fun v text => { v with strictly := text },
    .ofReader reads_demand fun v text => { v with requires := text },
    .ofReader reads_demand fun v text => { v with prefers := text },
    .ofReader reads_texts fun v texts => { v with rejects := texts }]

theorem places_eq : places = slots.map Reader.Slot.place := rfl

theorem fit_iff {items : List Value} : Reader.Fit slots items ↔ Placed items := by
  rcases items with _ | ⟨a, _ | ⟨b, _ | ⟨c, _ | ⟨d, _ | ⟨e, items⟩⟩⟩⟩⟩ <;>
    simp [Reader.Fit, slots, Reader.Slot.ofReader, Placed, and_assoc]

theorem fill_eq {items : List Value} (h : Placed items) :
    Reader.fill slots items free = ofTree (.array items) := by
  rcases items with _ | ⟨a, _ | ⟨b, _ | ⟨c, _ | ⟨d, _ | ⟨e, items⟩⟩⟩⟩⟩
  case cons.cons.cons.cons.cons =>
    have hlength : items.length + 5 ≤ 4 := h.1
    omega
  all_goals rfl

/-- **A version constraint is read from an object or from an array.** -/
theorem reads : reader.Reads Shaped ofTree where
  eq_ok_iff {room node tree v} hnode hdepth := by
    cases hnode with
    | @array start nodes items hitems =>
      obtain ⟨room, rfl, hroom⟩ := exists_room hdepth
      rw [reader, places_eq, Reader.tuple_eq_ok_iff hitems hroom, fit_iff]
      exact and_congr_right fun h => by rw [fill_eq h]
    | object start stop hms => exact reads_record.eq_ok_iff (.object start stop hms) hdepth
    | null start stop => exact reads_record.eq_ok_iff (.null start stop) hdepth
    | bool b start stop => exact reads_record.eq_ok_iff (.bool b start stop) hdepth
    | number start stop h => exact reads_record.eq_ok_iff (.number start stop h) hdepth
    | string s start stop => exact reads_record.eq_ok_iff (.string s start stop) hdepth

end VersionConstraint

/-! ## Declarations -/

namespace Declaration

/-- Whether a tree is a declaration. -/
def Shaped : Value → Prop :=
  Value.IsRecord fun members =>
    members.Requires "group" (Value.IsText fun _ => True) ∧
      members.Requires "module" (Value.IsText fun _ => True) ∧
      members.Admits "version" fun tree => tree = .null ∨ VersionConstraint.Shaped tree

/-- The declaration in a tree. -/
def ofTree (tree : Value) : Declaration where
  group := (tree.members.value "group").text
  name := (tree.members.value "module").text
  version := (tree.members.value "version").unlessNull VersionConstraint.ofTree
  extra := Reader.kept knownKeys tree.members

namespace Draft

/-- The shapes of the members that a declaration knows. -/
def shapes : List (Reader.ShapedField Draft) :=
  [⟨groupField, _, _, Reader.reads_string⟩, ⟨nameField, _, _, Reader.reads_string⟩,
    ⟨versionField, _, _, Reader.reads_optional VersionConstraint.reads⟩]

theorem finish_of_takenIn {members : Fields} {s : Draft} {d : Declaration}
    (h : Reader.TakenIn shapes (fun s members => s.extra = Reader.kept knownKeys members)
      members s) :
    s.finish = .ok d ↔ ("group" ∈ members.keys ∧ "module" ∈ members.keys) ∧
      d = ofTree (.object members) := by
  have hknown := h.known
  simp only [shapes, List.forall_mem_cons, groupField, nameField, versionField] at hknown
  obtain ⟨hgroup, hname, hversion, -⟩ := hknown
  obtain ⟨group, name, version, extra⟩ := d
  rw [finish_eq_ok, hgroup, hname, hversion, h.others, Fields.map_get?_eq_some,
    Fields.map_get?_eq_some, Fields.join_map_get?, ofTree, Declaration.mk.injEq]
  constructor
  · rintro ⟨⟨hg, rfl⟩, ⟨hn, rfl⟩, rfl, rfl⟩
    exact ⟨⟨hg, hn⟩, rfl, rfl, rfl, rfl⟩
  · rintro ⟨⟨hg, hn⟩, rfl, rfl, rfl, rfl⟩
    exact ⟨⟨hg, rfl⟩, ⟨hn, rfl⟩, rfl, rfl⟩

end Draft

/-- **A declaration is read from the trees of its shape.** -/
theorem reads : reader.Reads Shaped ofTree := by
  have hempty : ∀ f ∈ Draft.shapes, f.get Draft.empty = none := by
    simp only [Draft.shapes, List.forall_mem_cons]
    exact ⟨rfl, rfl, rfl, nofun⟩
  have hspare : Reader.Spare (Reader.unshaped Draft.shapes) _ _ := Draft.spare
  have hrecord := hspare.reads_record "DependencyDeclaration" hempty rfl
    fun h _ => Draft.finish_of_takenIn h
  refine hrecord.congr (Value.isRecord_congr fun members => ?_)
  simp only [Draft.shapes, List.forall_mem_cons]
  constructor
  · rintro ⟨⟨hgroup, hname, hversion, -⟩, hg, hn⟩
    exact ⟨⟨hg, hgroup⟩, ⟨hn, hname⟩, hversion⟩
  · rintro ⟨⟨hg, hgroup⟩, ⟨hn, hname⟩, hversion⟩
    exact ⟨⟨hgroup, hname, hversion, nofun⟩, hg, hn⟩

end Declaration

/-! ## Variants -/

namespace Variant

/-- Whether a tree is a variant with a name of a certain kind. -/
def Shaped (isName : String → Prop) : Value → Prop :=
  Value.IsRecord fun members =>
    members.Requires "name" (Value.IsText isName) ∧
      members.Admits "attributes" (Value.IsRecord fun _ => True) ∧
      members.Admits "dependencies" (Value.IsList Declaration.Shaped)

/-- The variant in a tree. -/
def ofTree (tree : Value) : Variant where
  name := (tree.members.value "name").text
  attributes := Value.mergedFields .empty (tree.members.value "attributes").members
  dependencies := (tree.members.value "dependencies").items.map Declaration.ofTree
  extra := Reader.kept knownKeys tree.members

namespace Draft

/-- The shapes of the members that a variant knows. -/
def shapes : List (Reader.ShapedField Draft) :=
  [⟨nameField, _, _, Reader.reads_string⟩, ⟨attributesField, _, _, Reader.reads_map⟩,
    ⟨dependenciesField, _, _, Reader.reads_sequence Declaration.reads⟩]

theorem finish_of_takenIn {members : Fields} {s : Draft} {v : Variant}
    (h : Reader.TakenIn shapes (fun s members => s.extra = Reader.kept knownKeys members)
      members s) :
    s.finish = .ok v ↔ "name" ∈ members.keys ∧ v = ofTree (.object members) := by
  have hknown := h.known
  simp only [shapes, List.forall_mem_cons, nameField, attributesField, dependenciesField] at hknown
  obtain ⟨hname, hattributes, hdependencies, -⟩ := hknown
  obtain ⟨name, attributes, dependencies, extra⟩ := v
  have hattributes : s.attributes.getD .empty = _ :=
    hattributes ▸ Fields.getD_map_get? members "attributes" rfl
  have hdependencies : s.dependencies.getD [] = _ :=
    hdependencies ▸ Fields.getD_map_get? members "dependencies" rfl
  rw [finish_eq_ok, hname, hattributes, hdependencies, h.others, Fields.map_get?_eq_some, ofTree,
    Variant.mk.injEq]
  constructor
  · rintro ⟨⟨hn, rfl⟩, rfl, rfl, rfl⟩
    exact ⟨hn, rfl, rfl, rfl, rfl⟩
  · rintro ⟨hn, rfl, rfl, rfl, rfl⟩
    exact ⟨⟨hn, rfl⟩, rfl, rfl, rfl⟩

end Draft

/-- **A variant is read from the trees of its shape.** -/
theorem reads : reader.Reads (Shaped fun _ => True) ofTree := by
  have hempty : ∀ f ∈ Draft.shapes, f.get Draft.empty = none := by
    simp only [Draft.shapes, List.forall_mem_cons]
    exact ⟨rfl, rfl, rfl, nofun⟩
  have hspare : Reader.Spare (Reader.unshaped Draft.shapes) _ _ := Draft.spare
  have hrecord := hspare.reads_record "Variant" hempty rfl
    fun h _ => Draft.finish_of_takenIn h
  refine hrecord.congr (Value.isRecord_congr fun members => ?_)
  simp only [Draft.shapes, List.forall_mem_cons]
  constructor
  · rintro ⟨⟨hname, hattributes, hdependencies, -⟩, hn⟩
    exact ⟨⟨hn, hname⟩, hattributes, hdependencies⟩
  · rintro ⟨⟨hn, hname⟩, hattributes, hdependencies⟩
    exact ⟨⟨hname, hattributes, hdependencies, nofun⟩, hn⟩

end Variant

/-! ## Components -/

namespace Component

/-- Whether a tree is a component whose texts are of a certain kind. -/
def Shaped (isPart : String → Prop) : Value → Prop :=
  Value.IsRecord fun members =>
    members.Requires "group" (Value.IsText isPart) ∧
      members.Requires "module" (Value.IsText isPart) ∧
      members.Requires "version" (Value.IsText isPart)

/-- The component in a tree. -/
def ofTree (tree : Value) : Component where
  group := (tree.members.value "group").text
  module := (tree.members.value "module").text
  version := (tree.members.value "version").text
  extra := Reader.kept knownKeys tree.members

namespace Draft

/-- The shapes of the members that a component knows. -/
def shapes : List (Reader.ShapedField Draft) :=
  [⟨groupField, _, _, Reader.reads_string⟩, ⟨moduleField, _, _, Reader.reads_string⟩,
    ⟨versionField, _, _, Reader.reads_string⟩]

theorem finish_of_takenIn {members : Fields} {s : Draft} {c : Component}
    (h : Reader.TakenIn shapes (fun s members => s.extra = Reader.kept knownKeys members)
      members s) :
    s.finish = .ok c ↔
      ("group" ∈ members.keys ∧ "module" ∈ members.keys ∧ "version" ∈ members.keys) ∧
        c = ofTree (.object members) := by
  have hknown := h.known
  simp only [shapes, List.forall_mem_cons, groupField, moduleField, versionField] at hknown
  obtain ⟨hgroup, hname, hversion, -⟩ := hknown
  obtain ⟨group, module, version, extra⟩ := c
  rw [finish_eq_ok, hgroup, hname, hversion, h.others, Fields.map_get?_eq_some,
    Fields.map_get?_eq_some, Fields.map_get?_eq_some, ofTree, Component.mk.injEq]
  constructor
  · rintro ⟨⟨hg, rfl⟩, ⟨hn, rfl⟩, ⟨hv, rfl⟩, rfl⟩
    exact ⟨⟨hg, hn, hv⟩, rfl, rfl, rfl, rfl⟩
  · rintro ⟨⟨hg, hn, hv⟩, rfl, rfl, rfl, rfl⟩
    exact ⟨⟨hg, rfl⟩, ⟨hn, rfl⟩, ⟨hv, rfl⟩, rfl⟩

end Draft

/-- **A component is read from the trees of its shape.** -/
theorem reads : reader.Reads (Shaped fun _ => True) ofTree := by
  have hempty : ∀ f ∈ Draft.shapes, f.get Draft.empty = none := by
    simp only [Draft.shapes, List.forall_mem_cons]
    exact ⟨rfl, rfl, rfl, nofun⟩
  have hspare : Reader.Spare (Reader.unshaped Draft.shapes) _ _ := Draft.spare
  have hrecord := hspare.reads_record "ComponentIdentity" hempty rfl
    fun h _ => Draft.finish_of_takenIn h
  refine hrecord.congr (Value.isRecord_congr fun members => ?_)
  simp only [Draft.shapes, List.forall_mem_cons]
  constructor
  · rintro ⟨⟨hgroup, hmodule, hversion, -⟩, hg, hm, hv⟩
    exact ⟨⟨hg, hgroup⟩, ⟨hm, hmodule⟩, hv, hversion⟩
  · rintro ⟨⟨hg, hgroup⟩, ⟨hm, hmodule⟩, hv, hversion⟩
    exact ⟨⟨hgroup, hmodule, hversion, nofun⟩, hg, hm, hv⟩

end Component

/-! ## Metadata -/

namespace Metadata

/-- Whether a tree is metadata whose format version, whose component's texts and whose variants'
names are of certain kinds. -/
def Shaped (isFormat isPart isName : String → Prop) : Value → Prop :=
  Value.IsRecord fun members =>
    members.Requires "formatVersion" (Value.IsText isFormat) ∧
      members.Requires "component" (Component.Shaped isPart) ∧
      members.Admits "createdBy" (fun _ => True) ∧
      members.Admits "variants" (Value.IsList (Variant.Shaped isName))

/-- The metadata in a tree. -/
def ofTree (tree : Value) : Metadata where
  formatVersion := (tree.members.value "formatVersion").text
  component := .ofTree (tree.members.value "component")
  createdBy := (tree.members.value "createdBy").unlessNull Value.merged
  variants := (tree.members.value "variants").items.map Variant.ofTree
  extra := Reader.kept knownKeys tree.members

theorem reads_createdBy : (Reader.optional fun room node => node.value room).Reads (fun _ => True)
    (Value.unlessNull Value.merged) :=
  (Reader.reads_optional Reader.reads_value).congr fun _ => iff_of_true (.inr trivial) trivial

namespace Draft

/-- The shapes of the members that metadata knows. -/
def shapes : List (Reader.ShapedField Draft) :=
  [⟨formatVersionField, _, _, Reader.reads_string⟩, ⟨componentField, _, _, Component.reads⟩,
    ⟨createdByField, _, _, reads_createdBy⟩,
    ⟨variantsField, _, _, Reader.reads_sequence Variant.reads⟩]

theorem finish_of_takenIn {members : Fields} {s : Draft} {m : Metadata}
    (h : Reader.TakenIn shapes (fun s members => s.extra = Reader.kept knownKeys members)
      members s) :
    s.finish = .ok m ↔ ("formatVersion" ∈ members.keys ∧ "component" ∈ members.keys) ∧
      m = ofTree (.object members) := by
  have hknown := h.known
  simp only [shapes, List.forall_mem_cons, formatVersionField, componentField, createdByField,
    variantsField] at hknown
  obtain ⟨hformat, hcomponent, hcreatedBy, hvariants, -⟩ := hknown
  obtain ⟨formatVersion, component, createdBy, variants, extra⟩ := m
  have hvariants : s.variants.getD [] = _ :=
    hvariants ▸ Fields.getD_map_get? members "variants" rfl
  rw [finish_eq_ok, hformat, hcomponent, hcreatedBy, hvariants, h.others, Fields.map_get?_eq_some,
    Fields.map_get?_eq_some, Fields.join_map_get?, ofTree, Metadata.mk.injEq]
  constructor
  · rintro ⟨⟨hf, rfl⟩, ⟨hc, rfl⟩, rfl, rfl, rfl⟩
    exact ⟨⟨hf, hc⟩, rfl, rfl, rfl, rfl, rfl⟩
  · rintro ⟨⟨hf, hc⟩, rfl, rfl, rfl, rfl, rfl⟩
    exact ⟨⟨hf, rfl⟩, ⟨hc, rfl⟩, rfl, rfl, rfl⟩

end Draft

/-- **Metadata is read from the trees of its shape.** -/
theorem reads :
    reader.Reads (Shaped (fun _ => True) (fun _ => True) fun _ => True) ofTree := by
  have hempty : ∀ f ∈ Draft.shapes, f.get Draft.empty = none := by
    simp only [Draft.shapes, List.forall_mem_cons]
    exact ⟨rfl, rfl, rfl, rfl, nofun⟩
  have hspare : Reader.Spare (Reader.unshaped Draft.shapes) _ _ := Draft.spare
  have hrecord := hspare.reads_record "ComponentMetadata" hempty rfl
    fun h _ => Draft.finish_of_takenIn h
  refine hrecord.congr (Value.isRecord_congr fun members => ?_)
  simp only [Draft.shapes, List.forall_mem_cons]
  constructor
  · rintro ⟨⟨hformat, hcomponent, hcreatedBy, hvariants, -⟩, hf, hc⟩
    exact ⟨⟨hf, hformat⟩, ⟨hc, hcomponent⟩, hcreatedBy, hvariants⟩
  · rintro ⟨⟨hf, hformat⟩, ⟨hc, hcomponent⟩, hcreatedBy, hvariants⟩
    exact ⟨⟨hformat, hcomponent, hcreatedBy, hvariants, nofun⟩, hf, hc⟩

end Metadata

end ComponentRules
