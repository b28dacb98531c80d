import ComponentRules.Proofs.Configurations
import ComponentRules.Proofs.Metadata.Codec

/-!
# Which declarations can be removed

A removal is made for a name that can be a part of a coordinate. A declaration is read with any name
at all: the codec checks the parts of the component, but not those of its dependencies. So of what
is read exactly the declarations can be removed whose names can be parts. There is no removal for
the others, and they stay whatever else is removed.

* `isRemovable_iff`, `Removal.ofName_of_fault`: the names that removals are made for.
* `Registry.mem_without_targets`: a declaration of another name stays.
* `Metadata.decode_encode_naming`: a declaration is read whatever its name.
* `Metadata.removable_of_decode`: which declarations of a document can be removed.
-/

namespace ComponentRules

open Outcome

/-! ## The names of removals -/

theorem Part.ofText_of_fault {text : String} {fault : PartFault}
    (h : partFault? text = some fault) : ofText text = .error fault := by
  unfold ofText
  split
  next other hother =>
    cases h.symm.trans hother
    rfl
  next hnone => cases h.symm.trans hnone

/-- A removal is made for any name that can be a part. -/
theorem isRemovable_iff {name : String} : IsRemovable name ↔ IsPart name := by
  constructor
  · rintro ⟨removal, hremoval⟩
    rw [← (Config.target_of_ofName hremoval).1]
    exact removal.target.isPart
  · intro h
    obtain ⟨part, hpart⟩ := Part.exists_of_isPart h
    refine ⟨⟨part, none⟩, ?_⟩
    rw [Removal.ofName, Part.ofText_eq_ok_iff.mpr hpart]

namespace Removal

variable {removal : Removal} {d : Declaration} {name : String}

theorem ofName_of_fault {fault : PartFault} (h : partFault? name = some fault) :
    ofName name = .fail (.invalid (targetMessage fault)) := by
  rw [ofName, Part.ofText_of_fault h]

theorem removes_iff : removal.removes d = true ↔ d.name = removal.target.text :=
  beq_iff_eq

end Removal

/-! ## What stays -/

namespace Registry

theorem isPart_of_mem_targets {removals : List (Scope × Removal)} {c : Coordinate} {name : String}
    (h : name ∈ targets removals c) : IsPart name := by
  obtain ⟨p, -, -, rfl⟩ := mem_targets.mp h
  exact p.2.target.isPart

/-- A declaration whose name cannot be a part stays in its variant. -/
theorem mem_without_targets {v : Variant} {d : Declaration} (hd : d ∈ v.dependencies)
    (hname : ¬ IsPart d.name) (removals : List (Scope × Removal)) (c : Coordinate) :
    d ∈ (v.without (targets removals c)).dependencies := by
  refine List.mem_filter.mpr ⟨hd, ?_⟩
  simpa using fun htarget => hname (isPart_of_mem_targets htarget)

end Registry

theorem Metadata.not_mem_without {m : Metadata} {d : Declaration} {w : Variant}
    (hw : w ∈ (m.without [d.name]).variants) : d ∉ w.dependencies := by
  obtain ⟨v, -, rfl⟩ := List.mem_map.mp hw
  intro hd
  simpa using (List.mem_filter.mp hd).2

/-! ## What is read -/

namespace Metadata

/-- Metadata with a declaration of some name. -/
def naming (name : String) : Metadata :=
  { junit with variants := [⟨"api", .empty, [.ofName "org.hamcrest" name], .empty⟩] }

theorem follows_naming (name : String) : junit.Follows (naming name) := by
  refine ⟨_, rfl, fun v hv => ?_⟩
  rw [List.mem_singleton.mp hv]
  refine ⟨_, List.mem_singleton_self _, _, rfl, fun d hd => .inr ⟨_, _, List.mem_singleton.mp hd⟩⟩

/-- **A declaration is read whatever its name.** -/
theorem decode_encode_naming (name : String) :
    decode (naming name).encode = .ok (naming name) := by
  have hfollows := follows_naming name
  exact decode_encode (decoded_junit.of_follows hfollows) (stable_of_follows stable_junit hfollows)

/-- **Which declarations of a document can be removed.** There is a removal of a declaration that is
read if and only if its name can be a part of a coordinate: then its rule leaves the metadata
without the declarations of this name. Otherwise the name is refused for its fault as a part, and
the declaration stays in its variant whatever removals are applied to the metadata. -/
theorem removable_of_decode {text : String} {m : Metadata} (h : decode text = .ok m)
    {v : Variant} (hv : v ∈ m.variants) {d : Declaration} (hd : d ∈ v.dependencies) :
    (IsPart d.name → ∃ removal, Removal.ofName d.name = .ok removal ∧
      removal.removes d = true ∧ removal.rule.run m = m.without [d.name] ∧
      ∀ w ∈ (removal.rule.run m).variants, d ∉ w.dependencies) ∧
    (¬ IsPart d.name →
      (∃ fault, partFault? d.name = some fault ∧
        Removal.ofName d.name = .fail (.invalid (Removal.targetMessage fault))) ∧
      ∀ removals, ∃ rewrite after, (Registry.ofRemovals removals).apply m = .ok (rewrite, after) ∧
        ∃ w ∈ after.variants, w.name = v.name ∧ d ∈ w.dependencies) := by
  constructor
  · intro hname
    obtain ⟨removal, hremoval⟩ := isRemovable_iff.mpr hname
    have htarget := (Config.target_of_ofName hremoval).1
    have hrun : removal.rule.run m = m.without [d.name] := by
      rw [removal.run_rule, htarget]
    refine ⟨removal, hremoval, Removal.removes_iff.mpr htarget.symm, hrun, fun w hw => ?_⟩
    rw [hrun] at hw
    exact not_mem_without hw
  · intro hname
    obtain ⟨fault, hfault⟩ := Option.ne_none_iff_exists'.mp (mt partFault?_eq_none_iff.mp hname)
    refine ⟨⟨fault, hfault, Removal.ofName_of_fault hfault⟩, fun removals => ?_⟩
    obtain ⟨c, hc⟩ := (decoded_of_decode h).coordinate
    refine ⟨_, _, Registry.apply_ofRemovals removals hc, _, List.mem_map_of_mem hv, rfl, ?_⟩
    exact Registry.mem_without_targets hd hname removals c

/-- The declaration of the default removal. -/
theorem removable_of_decode_hamcrest :
    ∃ v ∈ (naming "hamcrest-core").variants, ∃ d ∈ v.dependencies,
      decode (naming "hamcrest-core").encode = .ok (naming "hamcrest-core") ∧
      ∃ removal, Removal.ofName d.name = .ok removal ∧ removal.removes d = true ∧
        removal.rule.run (naming "hamcrest-core") =
          (naming "hamcrest-core").without ["hamcrest-core"] := by
  have hpart : IsPart "hamcrest-core" := partFault?_eq_none_iff.mp (by decide)
  have hread := decode_encode_naming "hamcrest-core"
  obtain ⟨hremovable, -⟩ := removable_of_decode hread List.mem_cons_self List.mem_cons_self
  obtain ⟨removal, hremoval, hremoves, hrun, -⟩ := hremovable hpart
  exact ⟨_, List.mem_cons_self, _, List.mem_cons_self, hread, removal, hremoval, hremoves, hrun⟩

/-- A document is read in which a name has a blank, and no removal is made for this name. -/
theorem not_removable_blank :
    ∃ m, decode (naming "hamcrest core").encode = .ok m ∧
      ∃ v ∈ m.variants, ∃ d ∈ v.dependencies, d.name = "hamcrest core" ∧
        Removal.ofName d.name = .fail (.invalid
          "Dependency name 'hamcrest core' must be a bare module name (no whitespace or ':')") := by
  refine ⟨_, decode_encode_naming "hamcrest core", _, List.mem_cons_self, _, List.mem_cons_self,
    rfl, ?_⟩
  exact @Removal.ofName_of_fault _ (.forbidden "hamcrest core") (by decide)

end Metadata

end ComponentRules
