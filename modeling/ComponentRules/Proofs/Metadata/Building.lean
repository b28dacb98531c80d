import ComponentRules.Proofs.Metadata.Declared
import ComponentRules.Proofs.Metadata.Equality
import ComponentRules.Proofs.Metadata.Supported
import ComponentRules.Proofs.Metadata.Values

/-!
# Metadata that is built

Metadata is built from a coordinate by adding variants, and these by adding attributes and
declarations. A declaration takes any property, also one with the key of a member that it knows.
Such a property is written behind the member, and then the text is not read as it was written.
Whatever else is built can be read back.

* `Declaration.Built`, `Variant.Built`, `Metadata.Built`: what can be built.
* `Metadata.Unmixed`: no declaration has a property with a key that declarations know.
* `Metadata.Built.decoded`: unmixed metadata that was built could have been decoded.
* `Metadata.decode_encode_iff_unmixed`: it is exactly unmixed metadata that is read back.
* `Metadata.Built.decode_ne_ok`: a property that repeats a member leaves a text that cannot be
  decoded.
-/

namespace ComponentRules

open Json Outcome

/-! ## What can be built -/

/-- Whether a declaration was built. -/
inductive Declaration.Built : Declaration → Prop
  | ofName (group name : String) : Built (.ofName group name)
  | withVersion {d : Declaration} (version : VersionConstraint) : Built d →
      Built (d.withVersion version)
  | withProperty {d : Declaration} (key : String) (value : Content) : Built d →
      Built (d.withProperty key value)

/-- Whether a variant with a name was built. -/
inductive Variant.Built : Variant → Prop
  | ofName {name : String} : Text.isBlankText name = false → Built (.ofName name)
  | withAttribute {v : Variant} (key : String) (value : Content) : Built v →
      Built (v.withAttribute key value)
  | withDependency {v : Variant} {d : Declaration} : d.Built → Built v →
      Built (v.withDependency d)

/-- Whether metadata was built. -/
inductive Metadata.Built : Metadata → Prop
  | ofCoordinate (c : Coordinate) : Built (.ofCoordinate c)
  | withVariant {m : Metadata} {v : Variant} : v.Built → Built m → Built (m.withVariant v)

/-! ## What is built -/

/-- What is true of every variant that is built. -/
theorem Variant.Built.parts {v : Variant} (h : v.Built) :
    Text.isBlankText v.name = false ∧ v.extra = .empty := by
  induction h with
  | ofName hname => exact ⟨hname, rfl⟩
  | withAttribute key value _ ih => exact ih
  | withDependency hd _ ih => exact ih

/-- What is true of all metadata that is built. -/
theorem Metadata.Built.parts {m : Metadata} (h : m.Built) :
    (∃ c : Coordinate, m = { Metadata.ofCoordinate c with variants := m.variants }) ∧
      ∀ v ∈ m.variants, v.Built := by
  induction h with
  | ofCoordinate c => exact ⟨⟨c, rfl⟩, nofun⟩
  | @withVariant m v hv _ ih =>
    obtain ⟨⟨c, hc⟩, hvariants⟩ := ih
    refine ⟨⟨c, ?_⟩, fun v' hv' => ?_⟩
    · rw [hc]
      rfl
    · rcases List.mem_append.mp hv' with hv' | hv'
      · exact hvariants v' hv'
      · exact List.mem_singleton.mp hv' ▸ hv

/-! ## Depth -/

/-- A declaration is sound if its properties are no members that it knows. -/
theorem Declaration.sound_of_unmixed {d : Declaration} {room : Nat}
    (hdepth : d.toValue.depth ≤ room + 1)
    (hunmixed : ∀ key ∈ d.extra.fields.keys, key ∉ knownKeys) : d.Sound room := by
  have hmembers := Value.depth_object_le.mp hdepth
  have hextra : d.extra.Fits room := Value.depthFields_le_iff.mpr fun f hf =>
    hmembers f (List.mem_append_right _ hf)
  exact ⟨⟨hextra, hunmixed⟩⟩

theorem Variant.attributes_mem_known {v : Variant} (h : v.attributes.fields ≠ []) :
    ("attributes", .object v.attributes.fields) ∈ v.known := by
  obtain ⟨name, ⟨_ | ⟨f, attributes⟩, _⟩, dependencies, extra⟩ := v
  · exact absurd rfl h
  · simp [known]

theorem Variant.dependencies_mem_known {v : Variant} (h : v.dependencies ≠ []) :
    ("dependencies", .array (v.dependencies.map Declaration.toValue)) ∈ v.known := by
  obtain ⟨name, attributes, _ | ⟨d, dependencies⟩, extra⟩ := v
  · exact absurd rfl h
  · simp [known, VersionConstraint.listField]

theorem Variant.Built.sound {v : Variant} {room : Nat} (h : v.Built)
    (hdepth : v.toValue.depth ≤ room + 3)
    (hunmixed : ∀ d ∈ v.dependencies, ∀ key ∈ d.extra.fields.keys, key ∉ Declaration.knownKeys) :
    v.Sound room := by
  obtain ⟨-, hextra⟩ := h.parts
  have hmembers := Value.depth_object_le.mp hdepth
  have hknown : ∀ f ∈ v.known, f.2.depth ≤ room + 2 := fun f hf =>
    hmembers f (List.mem_append_left _ hf)
  refine ⟨Value.depthFields_le_iff.mpr fun f hf => ?_, fun d hd => ?_,
    hextra ▸ Object.loose_empty _ _⟩
  · have hmember := hknown _ (attributes_mem_known (List.ne_nil_of_mem hf))
    exact Value.depth_object_le.mp hmember f hf
  · have hmember := hknown _ (dependencies_mem_known (List.ne_nil_of_mem hd))
    have hitem := Value.depth_array_le.mp hmember _ (List.mem_map_of_mem hd)
    exact Declaration.sound_of_unmixed hitem (hunmixed d hd)

namespace Metadata

/-! ## What is read back -/

/-- Whether no declaration has a property with the key of a member that declarations know. -/
def Unmixed (m : Metadata) : Prop :=
  ∀ v ∈ m.variants, ∀ d ∈ v.dependencies, ∀ key ∈ d.extra.fields.keys, key ∉ Declaration.knownKeys

theorem variants_mem_known (m : Metadata) :
    ("variants", .array (m.variants.map Variant.toValue)) ∈ m.known := by
  simp [known]

/-- **Unmixed metadata that was built could have been decoded.** -/
theorem Built.decoded {m : Metadata} (h : m.Built) (hdepth : m.toValue.depth ≤ maxDepth)
    (hunmixed : m.Unmixed) : m.Decoded := by
  obtain ⟨⟨c, hc⟩, hvariants⟩ := h.parts
  have hroom : m.toValue.depth ≤ maxDepth - 5 + 4 + 1 := hdepth
  have hmember := Value.depth_object_le.mp hroom _ (List.mem_append_left _ m.variants_mem_known)
  have hsound : ∀ v ∈ m.variants, v.Sound (maxDepth - 5) := fun v hv =>
    (hvariants v hv).sound (Value.depth_array_le.mp hmember _ (List.mem_map_of_mem hv))
      (hunmixed v hv)
  refine ⟨⟨?_, ?_, hsound, ?_⟩, ?_, ?_, fun v hv => (hvariants v hv).parts.1⟩
  all_goals rw [hc]
  · exact ⟨Object.loose_empty _ _⟩
  · nofun
  · exact Object.loose_empty _ _
  · exact show majorVersion currentFormat = supportedMajor by decide
  · exact ⟨c, Coordinate.ofTexts_eq_ok_iff.mpr rfl⟩

/-- Metadata that equals decoded metadata is unmixed. -/
theorem unmixed_of_same {m n : Metadata} (hn : n.Decoded) (h : m.same n = true) : m.Unmixed := by
  intro v hv d hd key hkey hknown
  obtain ⟨w, hw, hvw⟩ := exists_right_of_mem (variants_of_same h) hv
  have hdependencies : Variant.sameDependencies v.dependencies w.dependencies = true := by
    simp only [Variant.same, Bool.and_eq_true] at hvw
    exact hvw.1.2
  obtain ⟨e, he, hde⟩ :=
    exists_right_of_mem (Variant.sameDependencies_iff.mp hdependencies) hd
  obtain ⟨-, -, -, hextra⟩ := Declaration.same_iff.mp hde
  simp only [Object.same, Value.same, Bool.and_eq_true] at hextra
  obtain ⟨f, hf, rfl⟩ := List.mem_map.mp hkey
  obtain ⟨value, hvalue, -⟩ := Value.within_iff.mp hextra.2 f hf
  -- what is decoded has no property with a known key
  have hloose := ((hn.sound.variants w hw).dependencies e he).extra
  exact hloose.unknown f.1 (List.mem_map.mpr ⟨_, Fields.mem_of_get? hvalue, rfl⟩) hknown

/-- **It is exactly unmixed metadata that is read back.** Metadata that was built is written as one
object in the given form. If it is unmixed, then no object in the text repeats a key, and the text
is decoded as the metadata that was built. Otherwise it cannot be decoded, or as other metadata. -/
theorem decode_encode_iff_unmixed {m : Metadata} (h : m.Built)
    (hdepth : m.toValue.depth ≤ maxDepth) (hstable : m.toValue.Stable) :
    TreeOf m.encode m.toValue ∧
      ((∃ n, decode m.encode = .ok n ∧ m.same n = true) ↔ m.Unmixed) ∧
      (m.Unmixed → m.toValue.Distinct ∧ decode m.encode = .ok m) := by
  have hback : m.Unmixed → m.toValue.Distinct ∧ decode m.encode = .ok m := fun hunmixed =>
    have hm := h.decoded hdepth hunmixed
    ⟨hm.sound.toValue.distinct, decode_encode hm hstable⟩
  refine ⟨treeOf_pretty hstable hdepth, ⟨?_, fun hunmixed => ?_⟩, hback⟩
  · rintro ⟨n, hn, hsame⟩
    exact unmixed_of_same (decoded_of_decode hn) hsame
  · exact ⟨m, (hback hunmixed).2, m.same_self⟩

/-- Metadata of one variant, with a declaration that has one property. -/
def withOneProperty (key text : String) : Metadata :=
  let junit := (Declaration.ofName "junit" "junit").withVersion (.requiring "4.13")
  let api := (Variant.ofName "api").withAttribute "usage" (.string "java-api")
  (ofCoordinate ⟨⟨"foo", by decide⟩, ⟨"bar", by decide⟩, ⟨"1.0", by decide⟩⟩).withVariant
    (api.withDependency (junit.withProperty key (.string text)))

theorem built_withOneProperty (key text : String) : (withOneProperty key text).Built := by
  have hjunit := (Declaration.Built.ofName "junit" "junit").withVersion (.requiring "4.13")
  have hname : Text.isBlankText "api" = false := by decide
  have hapi := (Variant.Built.ofName hname).withAttribute "usage" (.string "java-api")
  have hdeclared := hjunit.withProperty key (.string text)
  exact .withVariant (hapi.withDependency hdeclared) (.ofCoordinate _)

theorem stable_withOneProperty (key text : String) :
    (withOneProperty key text).toValue.Stable := by
  refine stable_toValue.mpr ⟨Component.stable_toValue.mpr trivial, nofun, fun v hv => ?_, trivial⟩
  rw [List.mem_singleton.mp hv]
  refine Variant.stable_toValue.mpr ⟨⟨trivial, trivial⟩, fun d hd => ?_, trivial⟩
  rw [List.mem_singleton.mp hd]
  exact Declaration.stable_toValue.mpr ⟨trivial, trivial⟩

/-- A reason for a dependency is read back. -/
theorem decode_encode_reason :
    (withOneProperty "reason" "tests").Built ∧
      (withOneProperty "reason" "tests").toValue.depth ≤ maxDepth ∧
      (withOneProperty "reason" "tests").toValue.Stable ∧
      (withOneProperty "reason" "tests").Unmixed ∧
      decode (withOneProperty "reason" "tests").encode =
        .ok (withOneProperty "reason" "tests") := by
  have hbuilt := built_withOneProperty "reason" "tests"
  have hdepth : (withOneProperty "reason" "tests").toValue.depth ≤ maxDepth := by decide
  have hstable := stable_withOneProperty "reason" "tests"
  have hunmixed : (withOneProperty "reason" "tests").Unmixed := by
    intro v hv d hd
    rw [List.mem_singleton.mp hv] at hd
    rw [List.mem_singleton.mp hd]
    decide
  have hback := decode_encode_iff_unmixed hbuilt hdepth hstable
  exact ⟨hbuilt, hdepth, hstable, hunmixed, (hback.2.2 hunmixed).2⟩

end Metadata

/-! ## Repeated members -/

/-- The values in an object that repeats no key repeat none either. -/
theorem Json.Value.Distinct.of_mem {fields : Fields} (h : (Value.object fields).Distinct)
    {f : String × Value} (hf : f ∈ fields) : f.2.Distinct :=
  distinctFields_iff.mp h.2 f hf

theorem Json.Value.Distinct.of_mem_array {items : List Value} (h : (Value.array items).Distinct)
    {item : Value} (hitem : item ∈ items) : item.Distinct :=
  distinctItems_iff.mp h item hitem

namespace Declaration

variable {d : Declaration} {key : String}

theorem not_distinct_of_repeated (hknown : key ∈ d.known.keys)
    (hextra : key ∈ d.extra.fields.keys) : ¬ d.toValue.Distinct := by
  intro h
  have hnodup : (Fields.keys (d.known ++ d.extra.fields)).Nodup := h.1
  rw [Fields.keys, List.map_append, List.nodup_append] at hnodup
  exact hnodup.2.2 key hknown key hextra rfl

theorem not_shaped_of_repeated (hknown : key ∈ d.known.keys) (hextra : key ∈ d.extra.fields.keys) :
    ¬ Shaped d.toValue := by
  intro h
  have hcount : (Fields.keys (d.known ++ d.extra.fields)).count key ≤ 1 := by
    obtain ⟨⟨-, hgroup, -⟩, ⟨-, hname, -⟩, hversion, -⟩ := h
    have hkey := d.keys_known key hknown
    simp only [knownKeys, List.mem_cons, List.not_mem_nil, or_false] at hkey
    rcases hkey with rfl | rfl | rfl
    · exact hgroup
    · exact hname
    · exact hversion
  have hfirst := List.count_pos_iff.mpr hknown
  have hlast := List.count_pos_iff.mpr hextra
  rw [Fields.keys, List.map_append, List.count_append] at hcount
  unfold Fields.keys at hfirst hlast
  omega

end Declaration

namespace Metadata

/-- **A property that repeats a member cannot be read back.** -/
theorem Built.decode_ne_ok {m : Metadata} (h : m.Built) (hdepth : m.toValue.depth ≤ maxDepth)
    (hstable : m.toValue.Stable) {v : Variant} (hv : v ∈ m.variants) {d : Declaration}
    (hd : d ∈ v.dependencies) {key : String} (hknown : key ∈ d.known.keys)
    (hextra : key ∈ d.extra.fields.keys) :
    ¬ m.toValue.Distinct ∧ ∀ n, decode m.encode ≠ .ok n := by
  constructor
  · intro hm
    have hvariants := hm.of_mem (List.mem_append_left _ m.variants_mem_known)
    have hvariant := hvariants.of_mem_array (List.mem_map_of_mem hv)
    have hdependencies := hvariant.of_mem
      (List.mem_append_left _ (Variant.dependencies_mem_known (List.ne_nil_of_mem hd)))
    have hdeclaration := hdependencies.of_mem_array (List.mem_map_of_mem hd)
    exact Declaration.not_distinct_of_repeated hknown hextra hdeclaration
  · intro n hn
    obtain ⟨hsupported, -⟩ := (decode_eq_ok_iff (treeOf_pretty hstable hdepth)).mp hn
    obtain ⟨-, -, -, -, hvariants⟩ := hsupported
    have hvariant := hvariants _ m.get?_variants _ (List.mem_map_of_mem hv)
    obtain ⟨-, -, -, hdependencies⟩ := hvariant
    have hnone : v.extra.get? "dependencies" = none := by
      rw [(h.parts.2 v hv).parts.2]
      rfl
    have hmember : (v.known ++ v.extra.fields).get? "dependencies" =
        some (.array (v.dependencies.map Declaration.toValue)) := by
      rw [Variant.get?_dependencies hnone]
      cases hds : v.dependencies with
      | nil =>
        rw [hds] at hd
        cases hd
      | cons first ds => rfl
    have hdeclaration := hdependencies _ hmember _ (List.mem_map_of_mem hd)
    exact Declaration.not_shaped_of_repeated hknown hextra hdeclaration

/-- Another group for a dependency is written behind its group, and then nothing is decoded. -/
theorem not_decode_encode_group :
    (withOneProperty "group" "org.junit").Built ∧
      (withOneProperty "group" "org.junit").toValue.depth ≤ maxDepth ∧
      (withOneProperty "group" "org.junit").toValue.Stable ∧
      TreeOf (withOneProperty "group" "org.junit").encode
        (withOneProperty "group" "org.junit").toValue ∧
      ¬ (withOneProperty "group" "org.junit").toValue.Distinct ∧
      ∀ n, decode (withOneProperty "group" "org.junit").encode ≠ .ok n := by
  have hdepth : (withOneProperty "group" "org.junit").toValue.depth ≤ maxDepth := by decide
  have hstable := stable_withOneProperty "group" "org.junit"
  have htree : TreeOf (withOneProperty "group" "org.junit").encode _ := treeOf_pretty hstable hdepth
  have hbuilt := built_withOneProperty "group" "org.junit"
  have hfails := hbuilt.decode_ne_ok hdepth hstable List.mem_cons_self List.mem_cons_self
    (show "group" ∈ _ by decide) (by decide)
  exact ⟨hbuilt, hdepth, hstable, htree, hfails⟩

end Metadata

end ComponentRules
