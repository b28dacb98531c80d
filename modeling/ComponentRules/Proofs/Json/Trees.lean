import ComponentRules.Proofs.Json.Reading

/-!
# Texts as trees that keep repeated keys

A text that can be read has one tree, in which every key stands as often as it is written.

* `eq_of_shows`: a node has at most one tree.
* `TreeOf`: the tree of a text that is JSON and no deeper than the readers go.
* `TreeOf.unique`: a text has at most one tree.
* `ofText_eq_ok_iff`: a text can be read as any value if and only if it has a tree.
-/

namespace ComponentRules.Json

open Outcome

/-! ## The tree of a node -/

mutual

/-- A node has no other tree. -/
theorem eq_of_shows : ∀ {v w : Value} {node : Node}, Shows node v → Shows node w → v = w
  | _, _, _, .null _ _, .null _ _ => rfl
  | _, _, _, .bool _ _ _, .bool _ _ _ => rfl
  | _, _, _, .number _ _ hv, .number _ _ hw => congrArg Value.number (Except.ok.inj (hv ▸ hw))
  | _, _, _, .string _ _ _, .string _ _ _ => rfl
  | _, _, _, .array _ hv, .array _ hw => congrArg Value.array (eq_of_showsItems hv hw)
  | _, _, _, .object _ _ hv, .object _ _ hw => congrArg Value.object (eq_of_showsMembers hv hw)

theorem eq_of_showsItems : ∀ {vs ws : List Value} {nodes : List Node}, ShowsItems nodes vs →
    ShowsItems nodes ws → vs = ws
  | _, _, _, .nil, .nil => rfl
  | _, _, _, .cons hv hvs, .cons hw hws => by
    rw [eq_of_shows hv hw, eq_of_showsItems hvs hws]

theorem eq_of_showsMembers : ∀ {vs ws : Fields} {members : List (Key × Node)},
    ShowsMembers members vs → ShowsMembers members ws → vs = ws
  | [], _, _, .nil, h => by
    cases h
    rfl
  | _ :: _, _, _, .cons hv hvs, h => by
    cases h with
    | cons hw hws => rw [eq_of_shows hv hw, eq_of_showsMembers hvs hws]

end

/-! ## The tree of a text -/

/-- Whether a text is JSON, is no deeper than the readers go, and has the given tree, in which
repeated keys are kept. -/
structure TreeOf (text : String) (tree : Value) : Prop where
  shows_root : Shows (Document.ofText text).root tree
  trailing : (Document.ofText text).trailing = none
  depth_le : tree.depth ≤ maxDepth

/-- A text has no other tree. -/
theorem TreeOf.unique {text : String} {tree tree' : Value} (h : TreeOf text tree)
    (h' : TreeOf text tree') : tree = tree' :=
  eq_of_shows h.shows_root h'.shows_root

/-- **A text can be read as any value if and only if it has a tree.** -/
theorem ofText_eq_ok_iff {text : String} {c : Content} :
    Content.ofText text = .ok c ↔ ∃ tree, TreeOf text tree ∧ tree.merged = c := by
  rw [Content.ofText, read, mapError_eq_ok, Document.read_eq_ok, value_eq_ok_iff]
  constructor
  · rintro ⟨⟨tree, hshows, hdepth, hmerged⟩, htrailing⟩
    exact ⟨tree, ⟨hshows, htrailing, hdepth⟩, hmerged⟩
  · rintro ⟨tree, h, hmerged⟩
    exact ⟨⟨tree, h.shows_root, h.depth_le, hmerged⟩, h.trailing⟩

theorem exists_ofText_iff {text : String} :
    (∃ c, Content.ofText text = .ok c) ↔ ∃! tree, TreeOf text tree := by
  constructor
  · rintro ⟨c, hc⟩
    obtain ⟨tree, htree, -⟩ := ofText_eq_ok_iff.mp hc
    exact ⟨tree, htree, fun _ hother => hother.unique htree⟩
  · rintro ⟨tree, htree, -⟩
    exact ⟨tree.merged, ofText_eq_ok_iff.mpr ⟨tree, htree, rfl⟩⟩

/-- The text that a stable value is written as has this value as its tree. -/
theorem treeOf_pretty {v : Value} (hv : v.Stable) (hdepth : v.depth ≤ maxDepth) :
    TreeOf (v.pretty ++ "\n") v := by
  obtain ⟨node, htext, hnode⟩ := ofText_pretty hv
  exact ⟨htext ▸ hnode, by rw [htext], hdepth⟩

end ComponentRules.Json
