import ComponentRules.Proofs.Metadata.Codec
import Mathlib.Logic.Relation

/-!
# Edited metadata is decoded as it was written

Rules edit metadata: declarations are dropped, moved, doubled or added by name. Whatever is done to
decoded metadata in this way, and however often, its text is decoded as the edited metadata, with
every key in its place.

* `Edit`: one edit of a list of declarations. `Metadata.Edited`: one edit of one variant.
* `follows_of_edited`: an edit leaves everything else as it is.
* `decode_encode_edited`: the codec undoes itself after any run of edits.
-/

namespace ComponentRules

open Json Outcome

/-- One edit of a list of declarations. -/
inductive Edit : List Declaration → List Declaration → Prop
  | drop {ds kept : List Declaration} : kept.Sublist ds → Edit ds kept
  | reorder {ds ds' : List Declaration} : ds.Perm ds' → Edit ds ds'
  | duplicate {before after : List Declaration} {d : Declaration} :
      d ∈ before ++ after → Edit (before ++ after) (before ++ d :: after)
  | append (ds : List Declaration) (group name : String) :
      Edit ds (ds ++ [.ofName group name])

/-- After an edit, every declaration stood in the list before or has nothing but a name. -/
theorem Edit.mem {ds ds' : List Declaration} (h : Edit ds ds') {d : Declaration} (hd : d ∈ ds') :
    d ∈ ds ∨ ∃ group name, d = .ofName group name := by
  cases h with
  | drop hsub => exact .inl (hsub.subset hd)
  | reorder hperm => exact .inl (hperm.mem_iff.mpr hd)
  | @duplicate before after d' hd' =>
    rcases List.mem_append.mp hd with hd | hd
    · exact .inl (List.mem_append_left _ hd)
    · rcases List.mem_cons.mp hd with rfl | hd
      · exact .inl hd'
      · exact .inl (List.mem_append_right _ hd)
  | append _ group name =>
    rcases List.mem_append.mp hd with hd | hd
    · exact .inl hd
    · exact .inr ⟨group, name, List.mem_singleton.mp hd⟩

namespace Metadata

/-- One edit of the declarations of one variant. -/
def Edited (m m' : Metadata) : Prop :=
  ∃ before v after ds, m.variants = before ++ v :: after ∧ Edit v.dependencies ds ∧
    m' = { m with variants := before ++ { v with dependencies := ds } :: after }

/-- An edit changes nothing but declarations. -/
theorem follows_of_edited {m m' : Metadata} (h : m.Edited m') : m.Follows m' := by
  obtain ⟨before, v, after, ds, hvariants, hedit, rfl⟩ := h
  refine ⟨_, rfl, fun v' hv' => ?_⟩
  rw [hvariants]
  rcases List.mem_append.mp hv' with hv' | hv'
  · exact ⟨v', List.mem_append_left _ hv', Variant.Follows.refl v'⟩
  · rcases List.mem_cons.mp hv' with rfl | hv'
    · exact ⟨v, List.mem_append_right _ List.mem_cons_self, ds, rfl, fun d hd => hedit.mem hd⟩
    · exact ⟨v', List.mem_append_right _ (List.mem_cons_of_mem _ hv'), Variant.Follows.refl v'⟩

/-- Edited metadata can be written and decoded if the metadata before could. -/
theorem decoded_of_edits {m m' : Metadata} (h : Relation.ReflTransGen Edited m m')
    (hm : m.Decoded) (hstable : m.toValue.Stable) : m'.Decoded ∧ m'.toValue.Stable := by
  induction h with
  | refl => exact ⟨hm, hstable⟩
  | tail _ hedit ih =>
    have hfollows := follows_of_edited hedit
    exact ⟨ih.1.of_follows hfollows, stable_of_follows ih.2 hfollows⟩

/-- **The codec undoes itself after any run of edits** of decoded metadata whose numbers are
stable: the text is decoded as the edited metadata, so writing it again gives the same text. -/
theorem decode_encode_edited {text : String} {read m : Metadata} (hread : decode text = .ok read)
    (hstable : read.toValue.Stable) (hedits : Relation.ReflTransGen Edited read m) :
    decode m.encode = .ok m ∧ (decode m.encode).map encode = .ok m.encode := by
  obtain ⟨hm, hwritten⟩ := decoded_of_edits hedits (decoded_of_decode hread) hstable
  have hdecode := decode_encode hm hwritten
  refine ⟨hdecode, ?_⟩
  rw [hdecode]
  rfl

/-- The only variant of some metadata, with a declaration dropped and another one added. -/
theorem decode_encode_edited_junit :
    ∃ m, m.variants = [⟨"api", .empty, [.ofName "org.junit" "junit-bom"], .empty⟩] ∧
      decode junit.encode = .ok junit ∧ Relation.ReflTransGen Edited junit m ∧
      decode m.encode = .ok m ∧ (decode m.encode).map encode = .ok m.encode := by
  have hread : decode junit.encode = .ok junit := decode_encode decoded_junit stable_junit
  have hdrop : Edited junit { junit with variants := [.ofName "api"] } :=
    ⟨[], _, [], [], rfl, .drop (List.nil_sublist _), rfl⟩
  have happend : Edited { junit with variants := [.ofName "api"] }
      { junit with variants := [⟨"api", .empty, [.ofName "org.junit" "junit-bom"], .empty⟩] } :=
    ⟨[], _, [], _, rfl, .append [] "org.junit" "junit-bom", rfl⟩
  have hedits := (Relation.ReflTransGen.single hdrop).tail happend
  exact ⟨_, rfl, hread, hedits, decode_encode_edited hread stable_junit hedits⟩

end Metadata

end ComponentRules
