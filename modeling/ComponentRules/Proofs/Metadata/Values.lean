import ComponentRules.Proofs.Metadata.Codec

/-!
# Metadata as any value

The text of metadata may also be read as any value, without asking what its members mean. It is then
the value that was written: no object in it repeats a key, since what is kept of unknown members
never has a key that is known.

* `Json.Value.Sound`: what is true of every value that was read.
* `Json.Fields.Sound.append_loose`: known members with unknown ones behind them.
* `Metadata.Sound.toValue`: the value of sound metadata could have been read.
* `Metadata.ofText_encode`: the text of metadata, read as any value.
-/

namespace ComponentRules

open Json Outcome

namespace Json

/-- What is true of a value that was read with room for so many containers. -/
structure Value.Sound (room : Nat) (v : Value) : Prop where
  distinct : v.Distinct
  depth_le : v.depth ≤ room

namespace Fields

/-- What is true of members that were read with room for so many containers in each. -/
structure Sound (room : Nat) (fields : Fields) : Prop where
  nodup : fields.keys.Nodup
  distinct : Value.DistinctFields fields
  depth_le : Value.depthFields fields ≤ room

theorem mem_keys_append {fields more : Fields} {key : String} :
    key ∈ keys (fields ++ more) ↔ key ∈ fields.keys ∨ key ∈ more.keys := by
  simp [keys]

theorem sound_nil (room : Nat) : Sound room [] :=
  ⟨List.nodup_nil, trivial, Nat.zero_le _⟩

theorem sound_cons {room : Nat} {key : String} {value : Value} {fields : Fields} :
    Sound room ((key, value) :: fields) ↔
      key ∉ fields.keys ∧ value.Sound room ∧ fields.Sound room := by
  constructor
  · rintro ⟨hkeys, ⟨hvalue, hfields⟩, hdepth⟩
    obtain ⟨hnew, hnodup⟩ := List.nodup_cons.mp hkeys
    obtain ⟨hle, hles⟩ := Nat.max_le.mp hdepth
    exact ⟨hnew, ⟨hvalue, hle⟩, ⟨hnodup, hfields, hles⟩⟩
  · rintro ⟨hnew, hvalue, hfields⟩
    exact ⟨List.nodup_cons.mpr ⟨hnew, hfields.nodup⟩, ⟨hvalue.distinct, hfields.distinct⟩,
      Nat.max_le.mpr ⟨hvalue.depth_le, hfields.depth_le⟩⟩

/-- Members make a sound object. -/
theorem Sound.object {room : Nat} {fields : Fields} (h : fields.Sound room) :
    (Value.object fields).Sound (room + 1) :=
  ⟨⟨h.nodup, h.distinct⟩, Nat.succ_le_succ h.depth_le⟩

/-- Members before others, if no key stands among both. -/
theorem Sound.append {room : Nat} {fields more : Fields} (h : fields.Sound room)
    (hmore : more.Sound room) (hkeys : ∀ key ∈ fields.keys, key ∉ more.keys) :
    Sound room (fields ++ more) := by
  induction fields with
  | nil => exact hmore
  | cons f fields ih =>
    obtain ⟨key, value⟩ := f
    rw [keys_cons, List.forall_mem_cons] at hkeys
    obtain ⟨hnew, hvalue, hfields⟩ := sound_cons.mp h
    refine sound_cons.mpr ⟨?_, hvalue, ih hfields hkeys.2⟩
    exact fun hmem => (mem_keys_append.mp hmem).elim hnew hkeys.1

end Fields

theorem Object.Fits.sound {room : Nat} {o : Object} (h : o.Fits room) : o.fields.Sound room :=
  ⟨o.distinct.1, o.distinct.2, h⟩

/-- Known members with unknown ones behind them. -/
theorem Fields.Sound.append_loose {room : Nat} {known : List String} {fields : Fields} {o : Object}
    (h : fields.Sound room) (hknown : ∀ key ∈ fields.keys, key ∈ known)
    (ho : o.Loose known room) : Sound room (fields ++ o.fields) :=
  h.append ho.fits.sound fun key hkey hmem => ho.unknown key hmem (hknown key hkey)

theorem Value.sound_string (s : String) (room : Nat) : (Value.string s).Sound room :=
  ⟨trivial, Nat.zero_le _⟩

theorem Value.sound_array {items : List Value} {room : Nat}
    (h : ∀ item ∈ items, item.Sound room) : (Value.array items).Sound (room + 1) :=
  ⟨distinctItems_iff.mpr fun item hitem => (h item hitem).distinct,
    depth_array_le.mpr fun item hitem => (h item hitem).depth_le⟩

end Json

namespace VersionConstraint

theorem keys_textField (name : String) (text : Option String) :
    ∀ key ∈ Fields.keys (textField name text), key = name := by
  cases text <;> simp [textField]

theorem keys_listField (name : String) (items : List Value) :
    ∀ key ∈ Fields.keys (listField name items), key = name := by
  cases items <;> simp [listField]

theorem sound_textField (name : String) (text : Option String) (room : Nat) :
    Fields.Sound room (textField name text) := by
  cases text with
  | none => exact Fields.sound_nil _
  | some text =>
    exact Fields.sound_cons.mpr ⟨List.not_mem_nil, Value.sound_string _ _, Fields.sound_nil _⟩

theorem sound_listField {name : String} {items : List Value} {room : Nat}
    (h : ∀ item ∈ items, item.Sound room) : Fields.Sound (room + 1) (listField name items) := by
  cases items with
  | nil => exact Fields.sound_nil _
  | cons item items =>
    exact Fields.sound_cons.mpr ⟨List.not_mem_nil, Value.sound_array h, Fields.sound_nil _⟩

theorem keys_known (v : VersionConstraint) : ∀ key ∈ v.known.keys, key ∈ knownKeys := by
  intro key hkey
  simp only [known, Fields.mem_keys_append] at hkey
  rcases hkey with ((hkey | hkey) | hkey) | hkey
  · rw [keys_textField _ _ key hkey]
    decide
  · rw [keys_textField _ _ key hkey]
    decide
  · rw [keys_textField _ _ key hkey]
    decide
  · rw [keys_listField _ _ key hkey]
    decide

theorem sound_known (v : VersionConstraint) (room : Nat) : v.known.Sound (room + 1) := by
  have hrejects : Fields.Sound (room + 1) (listField "rejects" (v.rejects.map .string)) := by
    refine sound_listField fun item hitem => ?_
    obtain ⟨text, -, rfl⟩ := List.mem_map.mp hitem
    exact Value.sound_string text room
  refine (((sound_textField _ _ _).append (sound_textField _ _ _) ?_).append
    (sound_textField _ _ _) ?_).append hrejects ?_
  · intro key hkey hmem
    rw [keys_textField _ _ key hkey] at hmem
    exact absurd (keys_textField _ _ _ hmem) (by decide)
  · intro key hkey hmem
    rw [keys_textField _ _ key hmem] at hkey
    rcases Fields.mem_keys_append.mp hkey with hkey | hkey
    · exact absurd (keys_textField _ _ _ hkey) (by decide)
    · exact absurd (keys_textField _ _ _ hkey) (by decide)
  · intro key hkey hmem
    rw [keys_listField _ _ key hmem] at hkey
    rcases Fields.mem_keys_append.mp hkey with hkey | hkey
    · rcases Fields.mem_keys_append.mp hkey with hkey | hkey
      · exact absurd (keys_textField _ _ _ hkey) (by decide)
      · exact absurd (keys_textField _ _ _ hkey) (by decide)
    · exact absurd (keys_textField _ _ _ hkey) (by decide)

theorem sound_toValue (v : VersionConstraint) (room : Nat) : v.toValue.Sound (room + 2) :=
  (v.sound_known room).object

end VersionConstraint

namespace Declaration

theorem keys_known (d : Declaration) : ∀ key ∈ d.known.keys, key ∈ knownKeys := by
  obtain ⟨group, name, version, extra⟩ := d
  cases version <;> simp [known, knownKeys]

theorem sound_known (d : Declaration) (room : Nat) : d.known.Sound (room + 2) := by
  obtain ⟨group, name, version, extra⟩ := d
  have htext (s : String) := Value.sound_string s (room + 2)
  cases version with
  | none =>
    exact Fields.sound_cons.mpr ⟨by simp, htext group,
      Fields.sound_cons.mpr ⟨by simp, htext name, Fields.sound_nil _⟩⟩
  | some version =>
    exact Fields.sound_cons.mpr ⟨by simp, htext group,
      Fields.sound_cons.mpr ⟨by simp, htext name,
        Fields.sound_cons.mpr ⟨by simp, version.sound_toValue room, Fields.sound_nil _⟩⟩⟩

theorem Sound.toValue {d : Declaration} {room : Nat} (h : d.Sound (room + 2)) :
    d.toValue.Sound (room + 3) :=
  ((d.sound_known room).append_loose d.keys_known h.extra).object

end Declaration

namespace Variant

theorem keys_known (v : Variant) : ∀ key ∈ v.known.keys, key ∈ knownKeys := by
  obtain ⟨name, ⟨attributes, hattributes⟩, dependencies, extra⟩ := v
  cases attributes <;> cases dependencies <;>
    simp [known, knownKeys, VersionConstraint.listField]

theorem Sound.known {v : Variant} {room : Nat} (h : v.Sound (room + 2)) :
    v.known.Sound (room + 4) := by
  obtain ⟨name, ⟨attributes, hattributes⟩, dependencies, extra⟩ := v
  have hname := Value.sound_string name (room + 4)
  have hdependencies : Fields.Sound (room + 4)
      (VersionConstraint.listField "dependencies" (dependencies.map Declaration.toValue)) := by
    refine VersionConstraint.sound_listField fun item hitem => ?_
    obtain ⟨d, hd, rfl⟩ := List.mem_map.mp hitem
    exact (h.dependencies d hd).toValue
  have hnew : ∀ key, key ≠ "dependencies" → key ∉ Fields.keys
      (VersionConstraint.listField "dependencies" (dependencies.map Declaration.toValue)) :=
    fun key hkey hmem => hkey (VersionConstraint.keys_listField _ _ key hmem)
  cases attributes with
  | nil => exact Fields.sound_cons.mpr ⟨hnew _ (by decide), hname, hdependencies⟩
  | cons field attributes =>
    have hname_ne : "name" ≠ "attributes" := by decide
    exact Fields.sound_cons.mpr
      ⟨List.not_mem_cons_of_ne_of_not_mem hname_ne (hnew _ (by decide)), hname,
        Fields.sound_cons.mpr ⟨hnew _ (by decide), h.attributes.sound.object, hdependencies⟩⟩

theorem Sound.toValue {v : Variant} {room : Nat} (h : v.Sound (room + 2)) :
    v.toValue.Sound (room + 5) :=
  (h.known.append_loose v.keys_known h.extra).object

end Variant

theorem Component.keys_known (c : Component) :
    ∀ key ∈ Fields.keys [("group", .string c.group), ("module", .string c.module),
      ("version", .string c.version)], key ∈ knownKeys := by
  simp [knownKeys]

theorem Component.Sound.toValue {c : Component} {room : Nat} (h : c.Sound room) :
    c.toValue.Sound (room + 1) := by
  have hknown : Fields.Sound room [("group", .string c.group), ("module", .string c.module),
      ("version", .string c.version)] :=
    Fields.sound_cons.mpr ⟨by simp, Value.sound_string _ _,
      Fields.sound_cons.mpr ⟨by simp, Value.sound_string _ _,
        Fields.sound_cons.mpr ⟨by simp, Value.sound_string _ _, Fields.sound_nil _⟩⟩⟩
  exact (hknown.append_loose c.keys_known h.extra).object

namespace Metadata

theorem keys_known (m : Metadata) : ∀ key ∈ m.known.keys, key ∈ knownKeys := by
  obtain ⟨formatVersion, component, createdBy, variants, extra⟩ := m
  cases createdBy <;> simp [known, knownKeys]

theorem Sound.known {m : Metadata} {room : Nat} (h : m.Sound (room + 2)) :
    m.known.Sound (room + 6) := by
  obtain ⟨formatVersion, component, createdBy, variants, extra⟩ := m
  have hformat := Value.sound_string formatVersion (room + 6)
  have hvariants : Fields.Sound (room + 6)
      [("variants", .array (variants.map Variant.toValue))] := by
    refine Fields.sound_cons.mpr ⟨by simp, Value.sound_array fun item hitem => ?_,
      Fields.sound_nil _⟩
    obtain ⟨v, hv, rfl⟩ := List.mem_map.mp hitem
    exact (h.variants v hv).toValue
  cases createdBy with
  | none =>
    exact Fields.sound_cons.mpr ⟨by simp, hformat,
      Fields.sound_cons.mpr ⟨by simp, h.component.toValue, hvariants⟩⟩
  | some creator =>
    have hcreator : creator.value.Sound (room + 6) :=
      ⟨creator.distinct, (h.createdBy creator rfl).1⟩
    exact Fields.sound_cons.mpr ⟨by simp, hformat,
      Fields.sound_cons.mpr ⟨by simp, h.component.toValue,
        Fields.sound_cons.mpr ⟨by simp, hcreator, hvariants⟩⟩⟩

/-- The value of sound metadata could have been read. -/
theorem Sound.toValue {m : Metadata} {room : Nat} (h : m.Sound (room + 2)) :
    m.toValue.Sound (room + 7) :=
  (h.known.append_loose m.keys_known h.extra).object

/-- **The text of metadata, read as any value,** is the value that was written. -/
theorem ofText_encode {m : Metadata} (h : m.Decoded) (hstable : m.toValue.Stable) :
    ∃ c, Content.ofText m.encode = .ok c ∧ c.value = m.toValue := by
  obtain ⟨node, htext, hnode⟩ := ofText_pretty hstable
  have hsound : m.toValue.Sound maxDepth := h.sound.toValue
  refine ⟨⟨m.toValue, hsound.distinct⟩, mapError_eq_ok.mpr (Document.read_eq_ok.mpr ?_), rfl⟩
  rw [encode, htext]
  exact ⟨value_of_shows hnode hsound.depth_le, rfl⟩

end Metadata

end ComponentRules
