import ComponentRules.Proofs.Json.Paths
import ComponentRules.Proofs.Metadata.Codec

/-!
# Written metadata declares as much

A number may be read back as another, so metadata need not be read back as it was written. But every
variant is read back with as many declarations as it was written with. So a text that is written for
metadata with fewer declarations is another text.

* `Metadata.forall₂_of_decode_encode`: the variants of written metadata that is decoded.
-/

namespace ComponentRules

open Json Outcome

/-! ## Trees of written containers -/

namespace Json

variable {reads : Number → Except Fault Number → Prop}

theorem forall₂_of_showsItems {nodes : List Node} {items : List Value}
    (h : ShowsItemsBy reads nodes items) : List.Forall₂ (ShowsBy reads) nodes items := by
  induction items generalizing nodes with
  | nil =>
    cases h
    exact .nil
  | cons item items ih =>
    cases h with
    | cons hnode hnodes => exact .cons hnode (ih hnodes)

/-- The items that are read from a written array, one for each of its values. -/
theorem forall₂_of_sequence {α : Type} {reader : Reader α} {room : Nat} {node : Node}
    {items : List Value} {as : List α} (h : ShowsBy reads node (.array items))
    (has : Reader.sequence reader (room + 1) node = .ok as) :
    List.Forall₂ (fun item a => ∃ node, ShowsBy reads node item ∧ reader room node = .ok a)
      items as := by
  obtain ⟨start, nodes, rfl, hread⟩ := Reader.sequence_eq_ok.mp has
  cases h with
  | array _ hitems =>
    have hshown := forall₂_of_showsItems hitems
    clear hitems has
    induction hread generalizing items with
    | nil =>
      cases hshown
      exact .nil
    | cons hfirst _ ih =>
      cases hshown with
      | cons hitem hrest => exact .cons ⟨_, hitem, hfirst⟩ (ih hrest)

end Json

/-! ## Known members of written metadata -/

theorem Variant.get?_dependencies {v : Variant} (h : v.extra.get? "dependencies" = none) :
    (v.known ++ v.extra.fields).get? "dependencies" =
      match v.dependencies with
      | [] => none
      | ds => some (.array (ds.map Declaration.toValue)) := by
  obtain ⟨name, ⟨attributes, hattributes⟩, dependencies, extra⟩ := v
  cases dependencies <;> cases attributes <;>
    simp_all [Variant.known, VersionConstraint.listField, Fields.get?_cons, Object.get?]

theorem Metadata.get?_variants (m : Metadata) :
    (m.known ++ m.extra.fields).get? "variants" =
      some (.array (m.variants.map Variant.toValue)) := by
  cases hcreator : m.createdBy <;> simp [Metadata.known, Fields.get?_cons, hcreator]

/-! ## What is read back -/

/-- A written variant is read back with as many declarations. -/
theorem Variant.length_of_outlines {v w : Variant} {room : Nat} {node : Node}
    (hv : v.extra.get? "dependencies" = none) (h : Outlines node v.toValue)
    (hw : reader (room + 2) node = .ok w) : v.dependencies.length = w.dependencies.length := by
  obtain ⟨start, ms, stop, s, rfl, hs, -, hdependencies, -⟩ := reader_eq_ok hw
  have htaken := taken_of_members Draft.takes_dependencies rfl hs
  rw [← hdependencies]
  cases h with
  | object _ _ hms =>
    have hshown := rel_memberNode? hms "dependencies"
    rw [get?_dependencies hv] at hshown
    generalize memberNode? "dependencies" ms = found at htaken hshown
    generalize s.dependencies = taken at htaken
    -- the member stands in the text if and only if there are declarations
    cases hds : v.dependencies with
    | nil =>
      rw [hds] at hshown
      cases hshown
      cases htaken
      rfl
    | cons d ds =>
      rw [hds] at hshown
      cases hshown with
      | some hnode =>
        cases htaken with
        | some hread =>
          have hitems := forall₂_of_sequence hnode hread
          have hlength := hitems.length_eq
          rwa [List.length_map] at hlength

namespace Metadata

/-- **Every variant is read back with as many declarations.** -/
theorem forall₂_of_decode_encode {m n : Metadata} (hm : m.Decoded)
    (hn : decode m.encode = .ok n) :
    List.Forall₂ (fun v w => v.dependencies.length = w.dependencies.length)
      m.variants n.variants := by
  obtain ⟨root, htext, hshown⟩ := outlines_pretty m.toValue
  have hread := (ofJson_eq_ok.mp (decode_eq_ok.mp hn).1).1
  rw [encode, htext] at hread
  obtain ⟨start, ms, stop, s, hroot, hs, -, -, hvariants, -⟩ := reader_eq_ok hread
  subst hroot
  have htaken := taken_of_members Draft.takes_variants rfl hs
  rw [← hvariants]
  cases hshown with
  | object _ _ hms =>
    have hmember := rel_memberNode? hms "variants"
    rw [get?_variants] at hmember
    generalize memberNode? "variants" ms = found at htaken hmember
    generalize s.variants = taken at htaken
    cases hmember with
    | some hnode =>
      cases htaken with
      | some hsequence =>
        have hitems := forall₂_of_sequence hnode hsequence
        rw [List.forall₂_map_left_iff] at hitems
        have hextra : ∀ v ∈ m.variants, v.extra.get? "dependencies" = none := fun v hv =>
          (hm.sound.variants v hv).extra.get?_eq_none (by simp [Variant.knownKeys])
        have hboth := (List.forall₂_and_left _ _).mpr ⟨hextra, hitems⟩
        refine hboth.imp ?_
        rintro v w ⟨hv, node, hnode, hw⟩
        exact Variant.length_of_outlines hv hnode hw

end Metadata

end ComponentRules
