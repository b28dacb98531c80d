import ComponentRules.Metadata.Variant
import ComponentRules.Proofs.Metadata.Declarations

/-!
# Variants read and read again

A written variant is read as it was, whether its attributes and dependencies are empty or not. What
a variant keeps besides them and its name are the unknown members of the text.

* `Variant.Sound`: what is true of every variant that was read.
* `Variant.sound_of_reader`: reading gives sound variants.
* `Variant.reader_of_shows`: trees of sound variants are read.
-/

namespace ComponentRules.Variant

open Json Outcome

/-- The keys that a variant knows. -/
def knownKeys : List String :=
  ["name", "attributes", "dependencies"]

/-- What is true of a variant whose declarations had room for so many containers in each member. -/
structure Sound (room : Nat) (v : Variant) : Prop where
  attributes : v.attributes.Fits (room + 1)
  dependencies : ∀ d ∈ v.dependencies, d.Sound room
  extra : v.extra.Loose knownKeys (room + 2)

namespace Draft

def nameField : Reader.Field Draft :=
  ⟨"name", Reader.string, Draft.name, fun s name => { s with name }, fun _ _ => rfl⟩

def attributesField : Reader.Field Draft :=
  ⟨"attributes", Reader.map, Draft.attributes, fun s attributes => { s with attributes },
    fun _ _ => rfl⟩

def dependenciesField : Reader.Field Draft :=
  ⟨"dependencies", Reader.sequence Declaration.reader, Draft.dependencies,
    fun s dependencies => { s with dependencies }, fun _ _ => rfl⟩

/-- The members that a variant knows. -/
def fields : List (Reader.Field Draft) :=
  [nameField, attributesField, dependenciesField]

theorem spare : Reader.Spare fields Draft.extra fun s extra => { s with extra } := by
  constructor <;> simp [fields, Reader.Field.Apart, nameField, attributesField, dependenciesField]

theorem member_eq : member =
    Reader.takeIn (Reader.keepOther Draft.extra fun s extra => { s with extra }) fields := rfl

theorem keeps : Reader.Keeps member knownKeys Draft.extra fun s extra => { s with extra } := by
  rw [member_eq]
  exact spare.keeps

theorem takes_attributes : Reader.Takes member "attributes" Reader.map Draft.attributes :=
  spare.knows.takes (f := attributesField) (by simp [fields])

theorem takes_dependencies : Reader.Takes member "dependencies"
    (Reader.sequence Declaration.reader) Draft.dependencies :=
  spare.knows.takes (f := dependenciesField) (by simp [fields])

theorem finish_eq_ok {s : Draft} {v : Variant} :
    s.finish = .ok v ↔
      s.name = some v.name ∧ s.attributes.getD .empty = v.attributes ∧
        s.dependencies.getD [] = v.dependencies ∧ s.extra = v.extra := by
  unfold finish
  rw [bind_eq_ok]
  constructor
  · rintro ⟨name, hname, h⟩
    cases h
    exact ⟨Reader.required_eq_ok.mp hname, rfl, rfl, rfl⟩
  · rintro ⟨hname, hattributes, hdependencies, hextra⟩
    refine ⟨v.name, Reader.required_eq_ok.mpr hname, ?_⟩
    rw [hattributes, hdependencies, hextra]
    rfl

end Draft

/-- What a variant was read from. -/
theorem reader_eq_ok {room : Nat} {node : Node} {v : Variant}
    (h : reader (room + 1) node = .ok v) :
    ∃ start ms stop s, node = .object start ms (.closed stop) ∧
      Reader.members room Draft.member .empty ms = .ok s ∧ s.attributes.getD .empty = v.attributes ∧
      s.dependencies.getD [] = v.dependencies ∧ s.extra = v.extra := by
  obtain ⟨start, ms, stop, hnode, s, hs, hfinish⟩ := Reader.record_eq_ok.mp h
  obtain ⟨-, hrest⟩ := Draft.finish_eq_ok.mp hfinish
  exact ⟨start, ms, stop, s, hnode, hs, hrest⟩

/-- A variant that was read is sound. -/
theorem sound_of_reader {room : Nat} {node : Node} {v : Variant}
    (h : reader (room + 3) node = .ok v) : v.Sound room := by
  obtain ⟨_, ms, _, s, -, hs, hattributes, hdependencies, hextra⟩ := reader_eq_ok h
  refine ⟨?_, ?_, hextra ▸ loose_of_members Draft.keeps rfl hs⟩
  · rw [← hattributes]
    cases hread : s.attributes with
    | none => exact Object.fits_empty _
    | some attributes =>
      obtain ⟨node, hnode⟩ := read_of_members Draft.takes_attributes rfl hs hread
      obtain ⟨_, _, _, -, hfields⟩ := Reader.map_reader_eq_ok.mp hnode
      exact fits_of_fields (Object.fits_empty _) hfields
  · rw [← hdependencies]
    cases hread : s.dependencies with
    | none => nofun
    | some ds =>
      obtain ⟨node, hnode⟩ := read_of_members Draft.takes_dependencies rfl hs hread
      intro d hd
      obtain ⟨item, hitem⟩ := Reader.read_of_mem_sequence hnode hd
      exact Declaration.sound_of_reader hitem

/-- The attributes of a variant, as members read into an empty place. -/
theorem runs_attributes {room : Nat} (name : String) {attributes : Object}
    (h : attributes.Fits room) :
    ∃ read, Reader.Runs (room + 1) Draft.member ⟨some name, none, none, .empty⟩
      (match attributes.fields with
        | [] => []
        | fields => [("attributes", .object fields)])
      ⟨some name, read, none, .empty⟩ ∧ read.getD .empty = attributes := by
  have hwritten : Reader.Runs (room + 1) Draft.member ⟨some name, none, none, .empty⟩
      [("attributes", .object attributes.fields)]
      ⟨some name, some attributes, none, .empty⟩ :=
    Draft.spare.knows.runs (f := Draft.attributesField) (by simp [Draft.fields]) rfl
      fun _ hnode => Reader.map_of_shows hnode h
  cases hfields : attributes.fields with
  | nil => exact ⟨none, .nil _, Object.ext hfields.symm⟩
  | cons field fields =>
    rw [hfields] at hwritten
    exact ⟨some attributes, hwritten, rfl⟩

/-- **A written variant is read as it was.** -/
theorem reader_of_shows {v : Variant} {room : Nat} {node : Node} (hv : v.Sound (room + 2))
    (h : Shows node v.toValue) : reader (room + 5) node = .ok v := by
  have hname : Reader.Runs (room + 4) Draft.member .empty [("name", .string v.name)]
      ⟨some v.name, none, none, .empty⟩ :=
    Draft.spare.knows.runs (f := Draft.nameField) (by simp [Draft.fields]) rfl
      fun _ hnode => Reader.string_of_shows hnode (room + 4)
  obtain ⟨attributes, hattributes, hread⟩ := runs_attributes v.name hv.attributes
  have hds : Reader.Runs (room + 4) Draft.member ⟨some v.name, attributes, none, .empty⟩
      [("dependencies", .array (v.dependencies.map Declaration.toValue))]
      ⟨some v.name, attributes, some v.dependencies, .empty⟩ :=
    Draft.spare.knows.runs (f := Draft.dependenciesField) (by simp [Draft.fields]) rfl
      fun _ hnode => Reader.sequence_of_shows hnode fun d hd _ hitem =>
        Declaration.reader_of_shows (hv.dependencies d hd) hitem
  obtain ⟨dependencies, hdependencies, hlist⟩ := VersionConstraint.runs_listField
    (fun ds => Draft.mk (some v.name) attributes ds .empty) hds
  have hextra := runs_loose Draft.keeps hv.extra
    (s := ⟨some v.name, attributes, dependencies, .empty⟩) rfl
  exact Reader.record_of_shows h ((hname.append (hattributes.append hdependencies)).append hextra)
    (Draft.finish_eq_ok.mpr ⟨rfl, hread, hlist, rfl⟩)

end ComponentRules.Variant
