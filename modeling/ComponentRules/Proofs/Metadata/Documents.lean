import ComponentRules.Metadata.Document
import ComponentRules.Proofs.Metadata.Variants

/-!
# Metadata read and read again

Written metadata is read as it was, with all its variants in order. What metadata keeps besides
them and its other known members are the unknown members of the text, and so for its component.

* `Metadata.Sound`: what is true of all metadata that was read.
* `Metadata.sound_of_reader`: reading gives sound metadata.
* `Metadata.reader_of_shows`: trees of sound metadata are read.
-/

namespace ComponentRules

open Json Outcome

/-! ## Components -/

namespace Component

/-- The keys that a component knows. -/
def knownKeys : List String :=
  ["group", "module", "version"]

/-- What is true of a component whose members were read with room for so many containers. -/
structure Sound (room : Nat) (c : Component) : Prop where
  extra : c.extra.Loose knownKeys room

namespace Draft

def groupField : Reader.Field Draft :=
  ⟨"group", Reader.string, Draft.group, fun s group => { s with group }, fun _ _ => rfl⟩

def moduleField : Reader.Field Draft :=
  ⟨"module", Reader.string, Draft.module, fun s module => { s with module }, fun _ _ => rfl⟩

def versionField : Reader.Field Draft :=
  ⟨"version", Reader.string, Draft.version, fun s version => { s with version }, fun _ _ => rfl⟩

/-- The members that a component knows. -/
def fields : List (Reader.Field Draft) :=
  [groupField, moduleField, versionField]

theorem spare : Reader.Spare fields Draft.extra fun s extra => { s with extra } := by
  constructor <;> simp [fields, Reader.Field.Apart, groupField, moduleField, versionField]

theorem member_eq : member =
    Reader.takeIn (Reader.keepOther Draft.extra fun s extra => { s with extra }) fields := rfl

theorem keeps : Reader.Keeps member knownKeys Draft.extra fun s extra => { s with extra } := by
  rw [member_eq]
  exact spare.keeps

theorem finish_eq_ok {s : Draft} {c : Component} :
    s.finish = .ok c ↔
      s.group = some c.group ∧ s.module = some c.module ∧ s.version = some c.version ∧
        s.extra = c.extra := by
  unfold finish
  rw [bind_eq_ok]
  constructor
  · rintro ⟨group, hgroup, h⟩
    obtain ⟨name, hname, h⟩ := bind_eq_ok.mp h
    obtain ⟨version, hversion, h⟩ := bind_eq_ok.mp h
    cases h
    exact ⟨Reader.required_eq_ok.mp hgroup, Reader.required_eq_ok.mp hname,
      Reader.required_eq_ok.mp hversion, rfl⟩
  · rintro ⟨hgroup, hname, hversion, hextra⟩
    refine ⟨c.group, Reader.required_eq_ok.mpr hgroup, bind_eq_ok.mpr
      ⟨c.module, Reader.required_eq_ok.mpr hname, bind_eq_ok.mpr
        ⟨c.version, Reader.required_eq_ok.mpr hversion, ?_⟩⟩⟩
    rw [hextra]
    rfl

end Draft

/-- What a component was read from. -/
theorem reader_eq_ok {room : Nat} {node : Node} {c : Component}
    (h : reader (room + 1) node = .ok c) :
    ∃ start ms stop s, node = .object start ms (.closed stop) ∧
      Reader.members room Draft.member .empty ms = .ok s ∧ s.extra = c.extra := by
  obtain ⟨start, ms, stop, hnode, s, hs, hfinish⟩ := Reader.record_eq_ok.mp h
  obtain ⟨-, -, -, hextra⟩ := Draft.finish_eq_ok.mp hfinish
  exact ⟨start, ms, stop, s, hnode, hs, hextra⟩

/-- A component that was read is sound. -/
theorem sound_of_reader {room : Nat} {node : Node} {c : Component}
    (h : reader (room + 1) node = .ok c) : c.Sound room := by
  obtain ⟨_, ms, _, s, -, hs, hextra⟩ := reader_eq_ok h
  exact ⟨hextra ▸ loose_of_members Draft.keeps rfl hs⟩

/-- A written component is read as it was. -/
theorem reader_of_shows {c : Component} {room : Nat} {node : Node} (hc : c.Sound room)
    (h : Shows node c.toValue) : reader (room + 1) node = .ok c := by
  have hgroup : Reader.Runs room Draft.member .empty [("group", .string c.group)]
      ⟨some c.group, none, none, .empty⟩ :=
    Draft.spare.knows.runs (f := Draft.groupField) (by simp [Draft.fields]) rfl
      fun _ hnode => Reader.string_of_shows hnode room
  have hname : Reader.Runs room Draft.member ⟨some c.group, none, none, .empty⟩
      [("module", .string c.module)] ⟨some c.group, some c.module, none, .empty⟩ :=
    Draft.spare.knows.runs (f := Draft.moduleField) (by simp [Draft.fields]) rfl
      fun _ hnode => Reader.string_of_shows hnode room
  have hversion : Reader.Runs room Draft.member ⟨some c.group, some c.module, none, .empty⟩
      [("version", .string c.version)] ⟨some c.group, some c.module, some c.version, .empty⟩ :=
    Draft.spare.knows.runs (f := Draft.versionField) (by simp [Draft.fields]) rfl
      fun _ hnode => Reader.string_of_shows hnode room
  have hextra := runs_loose Draft.keeps hc.extra
    (s := ⟨some c.group, some c.module, some c.version, .empty⟩) rfl
  exact Reader.record_of_shows h (((hgroup.append hname).append hversion).append hextra)
    (Draft.finish_eq_ok.mpr ⟨rfl, rfl, rfl, rfl⟩)

end Component

/-! ## Metadata -/

namespace Metadata

/-- The keys that metadata knows. -/
def knownKeys : List String :=
  ["formatVersion", "component", "createdBy", "variants"]

/-- What is true of metadata whose declarations had room for so many containers in each member. -/
structure Sound (room : Nat) (m : Metadata) : Prop where
  component : m.component.Sound (room + 3)
  createdBy : ∀ creator, m.createdBy = some creator →
    creator.value.depth ≤ room + 4 ∧ creator ≠ .null
  variants : ∀ v ∈ m.variants, v.Sound room
  extra : m.extra.Loose knownKeys (room + 4)

namespace Draft

def formatVersionField : Reader.Field Draft :=
  ⟨"formatVersion", Reader.string, Draft.formatVersion,
    fun s formatVersion => { s with formatVersion }, fun _ _ => rfl⟩

def componentField : Reader.Field Draft :=
  ⟨"component", Component.reader, Draft.component, fun s component => { s with component },
    fun _ _ => rfl⟩

def createdByField : Reader.Field Draft :=
  ⟨"createdBy", Reader.optional fun room node => node.value room, Draft.createdBy,
    fun s createdBy => { s with createdBy }, fun _ _ => rfl⟩

def variantsField : Reader.Field Draft :=
  ⟨"variants", Reader.sequence Variant.reader, Draft.variants,
    fun s variants => { s with variants }, fun _ _ => rfl⟩

/-- The members that metadata knows. -/
def fields : List (Reader.Field Draft) :=
  [formatVersionField, componentField, createdByField, variantsField]

theorem spare : Reader.Spare fields Draft.extra fun s extra => { s with extra } := by
  constructor <;>
    simp [fields, Reader.Field.Apart, formatVersionField, componentField, createdByField,
      variantsField]

theorem member_eq : member =
    Reader.takeIn (Reader.keepOther Draft.extra fun s extra => { s with extra }) fields := rfl

theorem keeps : Reader.Keeps member knownKeys Draft.extra fun s extra => { s with extra } := by
  rw [member_eq]
  exact spare.keeps

theorem takes_component :
    Reader.Takes member "component" Component.reader Draft.component :=
  spare.knows.takes (f := componentField) (by simp [fields])

theorem takes_createdBy : Reader.Takes member "createdBy"
    (Reader.optional fun room node => node.value room) Draft.createdBy :=
  spare.knows.takes (f := createdByField) (by simp [fields])

theorem takes_variants : Reader.Takes member "variants" (Reader.sequence Variant.reader)
    Draft.variants :=
  spare.knows.takes (f := variantsField) (by simp [fields])

theorem finish_eq_ok {s : Draft} {m : Metadata} :
    s.finish = .ok m ↔
      s.formatVersion = some m.formatVersion ∧ s.component = some m.component ∧
        s.createdBy.join = m.createdBy ∧ s.variants.getD [] = m.variants ∧ s.extra = m.extra := by
  unfold finish
  rw [bind_eq_ok]
  constructor
  · rintro ⟨formatVersion, hformat, h⟩
    obtain ⟨component, hcomponent, h⟩ := bind_eq_ok.mp h
    cases h
    exact ⟨Reader.required_eq_ok.mp hformat, Reader.required_eq_ok.mp hcomponent, rfl, rfl, rfl⟩
  · rintro ⟨hformat, hcomponent, hcreatedBy, hvariants, hextra⟩
    refine ⟨m.formatVersion, Reader.required_eq_ok.mpr hformat, bind_eq_ok.mpr
      ⟨m.component, Reader.required_eq_ok.mpr hcomponent, ?_⟩⟩
    rw [hcreatedBy, hvariants, hextra]
    rfl

end Draft

/-- What metadata was read from. -/
theorem reader_eq_ok {room : Nat} {node : Node} {m : Metadata}
    (h : reader (room + 1) node = .ok m) :
    ∃ start ms stop s, node = .object start ms (.closed stop) ∧
      Reader.members room Draft.member .empty ms = .ok s ∧ s.component = some m.component ∧
      s.createdBy.join = m.createdBy ∧ s.variants.getD [] = m.variants ∧ s.extra = m.extra := by
  obtain ⟨start, ms, stop, hnode, s, hs, hfinish⟩ := Reader.record_eq_ok.mp h
  obtain ⟨-, hrest⟩ := Draft.finish_eq_ok.mp hfinish
  exact ⟨start, ms, stop, s, hnode, hs, hrest⟩

/-- Metadata that was read is sound. -/
theorem sound_of_reader {room : Nat} {node : Node} {m : Metadata}
    (h : reader (room + 5) node = .ok m) : m.Sound room := by
  obtain ⟨_, ms, _, s, -, hs, hcomponent, hcreatedBy, hvariants, hextra⟩ := reader_eq_ok h
  refine ⟨?_, ?_, ?_, hextra ▸ loose_of_members Draft.keeps rfl hs⟩
  · obtain ⟨node, hnode⟩ := read_of_members Draft.takes_component rfl hs hcomponent
    exact Component.sound_of_reader hnode
  · intro creator hcreator
    rw [← hcreatedBy] at hcreator
    have hread : s.createdBy = some (some creator) := Option.join_eq_some_iff.mp hcreator
    obtain ⟨node, hnode⟩ := read_of_members Draft.takes_createdBy rfl hs hread
    obtain hnone | ⟨_, hsome, hvalue, hnull⟩ := Reader.optional_eq_ok hnode
    · cases hnone
    · cases hsome
      refine ⟨depth_of_value hvalue, ?_⟩
      rintro rfl
      obtain ⟨start, stop, hscalar⟩ := eq_null_of_value hvalue
      exact hnull start stop hscalar
  · rw [← hvariants]
    cases hread : s.variants with
    | none => nofun
    | some vs =>
      obtain ⟨node, hnode⟩ := read_of_members Draft.takes_variants rfl hs hread
      intro v hv
      obtain ⟨item, hitem⟩ := Reader.read_of_mem_sequence hnode hv
      exact Variant.sound_of_reader hitem

/-- The known members of metadata, as members read into an empty draft. -/
theorem runs_known {m : Metadata} {room : Nat} (hm : m.Sound (room + 2)) :
    Reader.Runs (room + 6) Draft.member .empty m.known
      ⟨some m.formatVersion, some m.component, m.createdBy.map some, some m.variants, .empty⟩ := by
  have hformat : Reader.Runs (room + 6) Draft.member .empty
      [("formatVersion", .string m.formatVersion)]
      ⟨some m.formatVersion, none, none, none, .empty⟩ :=
    Draft.spare.knows.runs (f := Draft.formatVersionField) (by simp [Draft.fields]) rfl
      fun _ hnode => Reader.string_of_shows hnode (room + 6)
  have hcomponent : Reader.Runs (room + 6) Draft.member
      ⟨some m.formatVersion, none, none, none, .empty⟩ [("component", m.component.toValue)]
      ⟨some m.formatVersion, some m.component, none, none, .empty⟩ :=
    Draft.spare.knows.runs (f := Draft.componentField) (by simp [Draft.fields]) rfl
      fun _ hnode => Component.reader_of_shows hm.component hnode
  have hvariants (creator : Option (Option Content)) : Reader.Runs (room + 6) Draft.member
      ⟨some m.formatVersion, some m.component, creator, none, .empty⟩
      [("variants", .array (m.variants.map Variant.toValue))]
      ⟨some m.formatVersion, some m.component, creator, some m.variants, .empty⟩ :=
    Draft.spare.knows.runs (f := Draft.variantsField) (by simp [Draft.fields]) rfl
      fun _ hnode => Reader.sequence_of_shows hnode fun v hv _ hitem =>
        Variant.reader_of_shows (hm.variants v hv) hitem
  unfold known
  cases hcreator : m.createdBy with
  | none => exact (hformat.append hcomponent).append (hvariants none)
  | some creator =>
    obtain ⟨hdepth, hnull⟩ := hm.createdBy creator hcreator
    have hcreatedBy : Reader.Runs (room + 6) Draft.member
        ⟨some m.formatVersion, some m.component, none, none, .empty⟩ [("createdBy", creator.value)]
        ⟨some m.formatVersion, some m.component, some (some creator), none, .empty⟩ :=
      Draft.spare.knows.runs (f := Draft.createdByField) (by simp [Draft.fields]) rfl
        fun _ hnode => Reader.optional_of_shows hnode (fun h => hnull (Content.ext h))
          (value_of_shows hnode hdepth)
    exact ((hformat.append hcomponent).append hcreatedBy).append (hvariants (some (some creator)))

/-- **Written metadata is read as it was.** -/
theorem reader_of_shows {m : Metadata} {room : Nat} {node : Node} (hm : m.Sound (room + 2))
    (h : Shows node m.toValue) : reader (room + 7) node = .ok m := by
  have hextra := runs_loose Draft.keeps hm.extra (s := ⟨some m.formatVersion, some m.component,
    m.createdBy.map some, some m.variants, .empty⟩) rfl
  exact Reader.record_of_shows h ((runs_known hm).append hextra)
    (Draft.finish_eq_ok.mpr ⟨rfl, rfl, Reader.join_map_some _, rfl, rfl⟩)

end Metadata

end ComponentRules
