import ComponentRules.Metadata.Format
import ComponentRules.Proofs.Metadata.Documents

/-!
# The codec undoes itself

Metadata that was decoded is sound and has passed the checks of the codec. If its numbers are
stable, its text is decoded as the same metadata. Nothing of this depends on how many declarations
a variant has or where they stand, so it stays true while declarations come and go.

* `Metadata.Decoded`: what is true of all decoded metadata; `decoded_of_decode`.
* `Metadata.decode_encode`: such metadata, once written, is decoded as it was.
* `Metadata.Follows`: metadata that differs in declarations only. `Decoded.of_follows`,
  `stable_of_follows`: it can be written as well.
-/

namespace ComponentRules

open Json Outcome

/-! ## Stable metadata -/

namespace VersionConstraint

theorem stable_textField (name : String) (text : Option String) :
    Value.StableFields (textField name text) := by
  cases text <;> simp [textField]

theorem stable_listField {name : String} {items : List Value} :
    Value.StableFields (listField name items) ↔ ∀ item ∈ items, item.Stable := by
  cases items with
  | nil => simp [listField]
  | cons item items =>
    simp [listField, Value.stableItems_iff]

theorem stable_toValue (v : VersionConstraint) : v.toValue.Stable := by
  simp only [toValue, Value.stable_object, Value.stableFields_append, stable_textField,
    stable_listField, true_and, List.mem_map]
  rintro _ ⟨text, -, rfl⟩
  exact trivial

end VersionConstraint

theorem Declaration.stable_toValue {d : Declaration} :
    d.toValue.Stable ↔ Value.StableFields d.extra.fields := by
  obtain ⟨group, name, version, extra⟩ := d
  cases version with
  | none => simp [toValue, known]
  | some version =>
    simp [toValue, known, version.stable_toValue]

theorem Variant.stable_toValue {v : Variant} :
    v.toValue.Stable ↔ Value.StableFields v.attributes.fields ∧
      (∀ d ∈ v.dependencies, d.toValue.Stable) ∧ Value.StableFields v.extra.fields := by
  obtain ⟨name, attributes, dependencies, extra⟩ := v
  have hlist : Value.StableFields
      (VersionConstraint.listField "dependencies" (dependencies.map Declaration.toValue)) ↔
        ∀ d ∈ dependencies, d.toValue.Stable := by
    simp [VersionConstraint.stable_listField]
  obtain ⟨fields, hfields⟩ := attributes
  cases fields with
  | nil =>
    simp [toValue, known, Value.stableFields_append, hlist]
  | cons field fields =>
    simp [toValue, known, Value.stableFields_append, hlist]

theorem Component.stable_toValue {c : Component} :
    c.toValue.Stable ↔ Value.StableFields c.extra.fields := by
  simp [toValue]

namespace Metadata

theorem stable_toValue {m : Metadata} :
    m.toValue.Stable ↔ m.component.toValue.Stable ∧
      (∀ creator, m.createdBy = some creator → creator.value.Stable) ∧
      (∀ v ∈ m.variants, v.toValue.Stable) ∧ Value.StableFields m.extra.fields := by
  obtain ⟨formatVersion, component, createdBy, variants, extra⟩ := m
  cases createdBy with
  | none =>
    simp [toValue, known, Value.stableItems_iff]
  | some creator =>
    simp [toValue, known, Value.stableItems_iff]

/-! ## Decoded metadata -/

/-- What is true of all decoded metadata. -/
structure Decoded (m : Metadata) : Prop where
  sound : m.Sound (maxDepth - 5)
  format : majorVersion m.formatVersion = supportedMajor
  coordinate : ∃ c, m.coordinate = .ok c
  named : ∀ v ∈ m.variants, Text.isBlankText v.name = false

theorem ofJson_eq_ok {text : String} {m : Metadata} :
    ofJson text = .ok m ↔
      reader maxDepth (Document.ofText text).root = .ok m ∧
        (Document.ofText text).trailing = none := by
  have hread : ofJson text = .ok m ↔ Json.read reader text = .ok m := by
    unfold ofJson
    cases Json.read reader text <;> simp [Attempt.ofJson]
  rw [hread, Json.read, mapError_eq_ok, Document.read_eq_ok]

theorem decode_eq_ok {text : String} {m : Metadata} :
    decode text = .ok m ↔
      ofJson text = .ok m ∧ majorVersion m.formatVersion = supportedMajor ∧
        (∃ c, m.coordinate = .ok c) ∧ ∀ v ∈ m.variants, Text.isBlankText v.name = false := by
  unfold decode
  rw [bind_eq_ok]
  constructor
  · rintro ⟨read, hread, h⟩
    rw [within_eq_ok] at hread
    split at h
    · cases h
    rename_i hformat
    obtain ⟨c, hc, h⟩ := bind_eq_ok.mp h
    split at h
    · cases h
    rename_i hnamed
    cases h
    refine ⟨hread, Decidable.not_not.mp hformat, ⟨c, within_eq_ok.mp hc⟩, fun v hv => ?_⟩
    simpa using fun hblank => hnamed (List.any_eq_true.mpr ⟨v, hv, hblank⟩)
  · rintro ⟨hread, hformat, ⟨c, hc⟩, hnamed⟩
    refine ⟨m, within_eq_ok.mpr hread, ?_⟩
    have hany : (m.variants.any fun v => Text.isBlankText v.name) = false := by
      simpa using hnamed
    rw [if_neg (Decidable.not_not.mpr hformat)]
    exact bind_eq_ok.mpr ⟨c, within_eq_ok.mpr hc, by rw [hany]; rfl⟩

theorem decoded_of_decode {text : String} {m : Metadata} (h : decode text = .ok m) :
    m.Decoded := by
  obtain ⟨hread, hformat, hcoordinate, hnamed⟩ := decode_eq_ok.mp h
  exact ⟨sound_of_reader (ofJson_eq_ok.mp hread).1, hformat, hcoordinate, hnamed⟩

/-- **Written metadata is decoded as it was.** -/
theorem decode_encode {m : Metadata} (h : m.Decoded) (hstable : m.toValue.Stable) :
    decode m.encode = .ok m := by
  obtain ⟨node, htext, hnode⟩ := ofText_pretty hstable
  refine decode_eq_ok.mpr ⟨ofJson_eq_ok.mpr ?_, h.format, h.coordinate, h.named⟩
  rw [encode, htext]
  exact ⟨reader_of_shows h.sound hnode, rfl⟩

/-- Metadata of one component, with a number and a declaration. -/
def junit : Metadata :=
  ⟨currentFormat,
    ⟨"junit", "junit", "4.13", Object.empty.insert "build" (.number (.integer 7))⟩, none,
    [⟨"api", .empty, [.ofName "org.hamcrest" "hamcrest-core"], .empty⟩], .empty⟩

theorem decoded_junit : junit.Decoded where
  sound := {
    component := ⟨⟨Nat.zero_le _, by decide⟩⟩
    createdBy := nofun
    variants := by
      intro v hv
      rw [List.mem_singleton.mp hv]
      refine ⟨Object.fits_empty _, fun d hd => ?_, Object.loose_empty _ _⟩
      rw [List.mem_singleton.mp hd]
      exact Declaration.sound_ofName _ _ _
    extra := Object.loose_empty _ _ }
  format := by decide
  coordinate := exists_of_isOk (by decide +kernel)
  named := by decide

theorem stable_junit : junit.toValue.Stable := by
  have hbuild : (Number.integer 7).Stable := stable_integer (by decide) (by decide)
  refine stable_toValue.mpr ⟨Component.stable_toValue.mpr ⟨hbuild, trivial⟩, nofun, ?_, trivial⟩
  intro v hv
  rw [List.mem_singleton.mp hv]
  refine Variant.stable_toValue.mpr ⟨trivial, fun d hd => ?_, trivial⟩
  rw [List.mem_singleton.mp hd]
  exact Declaration.stable_toValue.mpr trivial

end Metadata

/-! ## Other declarations -/

/-- Whether one variant differs from another in its declarations only: each stands in the other or
has nothing but a name. -/
def Variant.Follows (v v' : Variant) : Prop :=
  ∃ ds, v' = { v with dependencies := ds } ∧
    ∀ d ∈ ds, d ∈ v.dependencies ∨ ∃ group name, d = .ofName group name

theorem Variant.Follows.refl (v : Variant) : v.Follows v :=
  ⟨v.dependencies, rfl, fun _ hd => .inl hd⟩

theorem Variant.Follows.sound {v v' : Variant} {room : Nat} (h : v.Follows v')
    (hv : v.Sound room) : v'.Sound room := by
  obtain ⟨ds, rfl, hds⟩ := h
  refine ⟨hv.attributes, fun d hd => ?_, hv.extra⟩
  rcases hds d hd with hd | ⟨group, name, rfl⟩
  · exact hv.dependencies d hd
  · exact Declaration.sound_ofName group name room

theorem Variant.Follows.stable {v v' : Variant} (h : v.Follows v') (hv : v.toValue.Stable) :
    v'.toValue.Stable := by
  obtain ⟨ds, rfl, hds⟩ := h
  obtain ⟨hattributes, hdependencies, hextra⟩ := stable_toValue.mp hv
  refine stable_toValue.mpr ⟨hattributes, fun d hd => ?_, hextra⟩
  rcases hds d hd with hd | ⟨group, name, rfl⟩
  · exact hdependencies d hd
  · exact Declaration.stable_toValue.mpr trivial

namespace Metadata

/-- Whether metadata differs from other metadata in the declarations of its variants only. -/
def Follows (m m' : Metadata) : Prop :=
  ∃ vs, m' = { m with variants := vs } ∧ ∀ v' ∈ vs, ∃ v ∈ m.variants, v.Follows v'

theorem Decoded.of_follows {m m' : Metadata} (h : m.Decoded) (hm : m.Follows m') :
    m'.Decoded := by
  obtain ⟨vs, rfl, hvs⟩ := hm
  refine ⟨⟨h.sound.component, h.sound.createdBy, fun v' hv' => ?_, h.sound.extra⟩, h.format,
    h.coordinate, fun v' hv' => ?_⟩
  · obtain ⟨v, hv, hfollows⟩ := hvs v' hv'
    exact hfollows.sound (h.sound.variants v hv)
  · obtain ⟨v, hv, ds, rfl, -⟩ := hvs v' hv'
    exact h.named v hv

theorem stable_of_follows {m m' : Metadata} (h : m.toValue.Stable) (hm : m.Follows m') :
    m'.toValue.Stable := by
  obtain ⟨vs, rfl, hvs⟩ := hm
  obtain ⟨hcomponent, hcreator, hvariants, hextra⟩ := stable_toValue.mp h
  refine stable_toValue.mpr ⟨hcomponent, hcreator, fun v' hv' => ?_, hextra⟩
  obtain ⟨v, hv, hfollows⟩ := hvs v' hv'
  exact hfollows.stable (hvariants v hv)

end Metadata

end ComponentRules
