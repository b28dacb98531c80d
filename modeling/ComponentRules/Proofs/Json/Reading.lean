import ComponentRules.Proofs.Json.Printed

/-!
# Any value read and read again

Values hold the members of an object in a list, so a value can also be the tree of a text just as it
stands, with every key as often as it is written. A reader for any value makes content of such a
tree: a key that is repeated keeps its first place and its last value. A value that repeats no key
is read as itself.

* `Value.depth`: how many containers stand inside each other.
* `Value.merged`: the content that a tree is read as. `value_merged`: it is the tree itself if no
  key is repeated.
* `value_eq_ok_iff`: reading as any value succeeds on the trees that are not too deep.
* `value_of_shows`, `fields_of_shows`: content and objects are read as they are written.
* `depth_of_value`, `fits_of_fields`: what was read is no deeper than its reader goes.
-/

namespace ComponentRules.Json

open Outcome

/-! ## Depth -/

namespace Value

mutual

/-- How many containers stand inside each other in a value. -/
def depth : Value → Nat
  | .array items => depthItems items + 1
  | .object fields => depthFields fields + 1
  | _ => 0

/-- How many containers stand inside each other in the items. -/
def depthItems : List Value → Nat
  | [] => 0
  | item :: items => max item.depth (depthItems items)

/-- How many containers stand inside each other in the values of the members. -/
def depthFields : List (String × Value) → Nat
  | [] => 0
  | (_, value) :: fields => max value.depth (depthFields fields)

end

theorem depthItems_le_iff {items : List Value} {room : Nat} :
    depthItems items ≤ room ↔ ∀ item ∈ items, item.depth ≤ room := by
  induction items with
  | nil => simp [depthItems]
  | cons item items ih => rw [depthItems, Nat.max_le, ih, List.forall_mem_cons]

theorem depthFields_le_iff {fields : Fields} {room : Nat} :
    depthFields fields ≤ room ↔ ∀ f ∈ fields, f.2.depth ≤ room := by
  induction fields with
  | nil => simp [depthFields]
  | cons f fields ih =>
    obtain ⟨key, value⟩ := f
    rw [depthFields, Nat.max_le, ih, List.forall_mem_cons]

theorem depth_array_le {items : List Value} {room : Nat} :
    (array items).depth ≤ room + 1 ↔ ∀ item ∈ items, item.depth ≤ room := by
  rw [depth, Nat.succ_le_succ_iff, depthItems_le_iff]

theorem depth_object_le {fields : Fields} {room : Nat} :
    (object fields).depth ≤ room + 1 ↔ ∀ f ∈ fields, f.2.depth ≤ room := by
  rw [depth, Nat.succ_le_succ_iff, depthFields_le_iff]

end Value

/-- Whether there is room for so many containers in each member of an object. -/
def Object.Fits (room : Nat) (o : Object) : Prop :=
  Value.depthFields o.fields ≤ room

theorem Object.fits_empty (room : Nat) : empty.Fits room :=
  Nat.zero_le _

theorem Object.Fits.insert {room : Nat} {o : Object} (h : o.Fits room) (key : String) {c : Content}
    (hc : c.value.depth ≤ room) : (o.insert key c).Fits room := by
  refine Value.depthFields_le_iff.mpr fun f hf => ?_
  rcases Fields.mem_insert hf with hf | rfl
  · exact Value.depthFields_le_iff.mp h f hf
  · exact hc

/-! ## Merging repeated keys -/

namespace Value

mutual

/-- The content that a tree is read as. -/
def merged : Value → Content
  | .null => .null
  | .bool b => .bool b
  | .number n => .number n
  | .string s => .string s
  | .array items => .array (mergedItems items)
  | .object fields => .object (mergedFields .empty fields)

/-- The values that the items are read as. -/
def mergedItems : List Value → List Content
  | [] => []
  | item :: items => item.merged :: mergedItems items

/-- The members read before, and behind them those of a tree. A key that is there already keeps its
place and gets the new value. -/
def mergedFields (before : Object) : List (String × Value) → Object
  | [] => before
  | (key, value) :: fields => mergedFields (before.insert key value.merged) fields

end

mutual

/-- **A value that repeats no key is read as itself.** -/
theorem value_merged : ∀ {v : Value}, v.Distinct → v.merged.value = v
  | .null, _ | .bool _, _ | .number _, _ | .string _, _ => rfl
  | .array _, h => congrArg Value.array (value_mergedItems h)
  | .object _, h => congrArg Value.object (fields_mergedFields .empty h.2 h.1)

theorem value_mergedItems : ∀ {items : List Value}, DistinctItems items →
    (mergedItems items).map (·.value) = items
  | [], _ => rfl
  | item :: items, h => by
    rw [mergedItems, List.map_cons, value_merged h.1, value_mergedItems h.2]

theorem fields_mergedFields : ∀ {fields : Fields} (before : Object), DistinctFields fields →
    (Fields.keys (before.fields ++ fields)).Nodup →
    (mergedFields before fields).fields = before.fields ++ fields
  | [], before, _, _ => by rw [mergedFields, List.append_nil]
  | (key, value) :: fields, before, h, hkeys => by
    have hnew : key ∉ before.fields.keys := by
      intro hmem
      rw [Fields.keys, List.map_append, List.nodup_append] at hkeys
      exact hkeys.2.2 key hmem key List.mem_cons_self rfl
    have hinsert : (before.insert key value.merged).fields = before.fields ++ [(key, value)] := by
      rw [Object.fields_insert, value_merged h.1, Fields.insert_of_not_mem hnew]
    rw [List.append_cons, ← hinsert] at hkeys ⊢
    rw [mergedFields, fields_mergedFields _ h.2 hkeys]

end

mutual

/-- Merging makes nothing deeper. -/
theorem depth_merged_le : ∀ v : Value, v.merged.value.depth ≤ v.depth
  | .null | .bool _ | .number _ | .string _ => Nat.le_refl _
  | .array items => Nat.succ_le_succ (depthItems_merged_le items)
  | .object fields =>
    Nat.succ_le_succ (fits_mergedFields fields (Object.fits_empty _) (Nat.le_refl _))

theorem depthItems_merged_le : ∀ items : List Value,
    depthItems ((mergedItems items).map (·.value)) ≤ depthItems items
  | [] => Nat.le_refl _
  | item :: items => by
    have hitem := depth_merged_le item
    have hitems := depthItems_merged_le items
    simp only [mergedItems, List.map_cons, depthItems]
    omega

theorem fits_mergedFields : ∀ (fields : Fields) {before : Object} {room : Nat}, before.Fits room →
    depthFields fields ≤ room → (mergedFields before fields).Fits room
  | [], _, _, h, _ => h
  | (key, value) :: fields, _, _, h, hroom => by
    obtain ⟨hle, hles⟩ := Nat.max_le.mp hroom
    exact fits_mergedFields fields (h.insert key (Nat.le_trans (depth_merged_le value) hle)) hles

end

end Value

/-! ## Reading a tree -/

mutual

/-- A tree that is not too deep is read as its content. -/
theorem value_of_tree : ∀ {v : Value} {node : Node} {room : Nat}, Shows node v →
    v.depth ≤ room → node.value room = .ok v.merged
  | _, _, _, .null _ _, _ | _, _, _, .bool _ _ _, _ | _, _, _, .number _ _ rfl, _
  | _, _, _, .string _ _ _, _ => rfl
  | _, _, 0, .array start hitems, hroom => absurd hroom (Nat.not_succ_le_zero _)
  | _, _, room + 1, .array start hitems, hroom => by
    rw [Node.value, Value.merged]
    exact bind_eq_ok.mpr ⟨_, values_of_tree hitems (Nat.le_of_succ_le_succ hroom), rfl⟩
  | _, _, 0, .object start stop hmembers, hroom => absurd hroom (Nat.not_succ_le_zero _)
  | _, _, room + 1, .object start stop hmembers, hroom => by
    rw [Node.value, Value.merged]
    exact bind_eq_ok.mpr ⟨_, fields_of_tree hmembers .empty (Nat.le_of_succ_le_succ hroom), rfl⟩

theorem values_of_tree : ∀ {vs : List Value} {nodes : List Node} {room : Nat},
    ShowsItems nodes vs → Value.depthItems vs ≤ room →
    Node.values room nodes = .ok (Value.mergedItems vs)
  | _, _, _, .nil, _ => rfl
  | _, _, room, .cons hnode hnodes, hroom => by
    obtain ⟨hle, hles⟩ := Nat.max_le.mp hroom
    rw [Node.values, value_of_tree hnode hle, values_of_tree hnodes hles]
    rfl

theorem fields_of_tree : ∀ {fields : Fields} {members : List (Key × Node)} {room : Nat}
    (_ : ShowsMembers members fields) (before : Object), Value.depthFields fields ≤ room →
    Node.fields room before members = .ok (Value.mergedFields before fields)
  | [], _, _, .nil, before, _ => by
    rw [Node.fields, Value.mergedFields]
  | (key, value) :: fields, _, room, .cons hnode hmembers, before, hroom => by
    obtain ⟨hle, hles⟩ := Nat.max_le.mp hroom
    rw [Node.fields, value_of_tree hnode hle, Value.mergedFields]
    exact fields_of_tree hmembers _ hles

end

mutual

/-- What can be read as any value has a tree. -/
theorem tree_of_value : ∀ {node : Node} {room : Nat} {c : Content}, node.value room = .ok c →
    ∃ v, Shows node v ∧ v.depth ≤ room
  | .scalar s start stop, room, c, h => by
    rw [Node.value] at h
    cases s with
    | null => exact ⟨.null, .null start stop, Nat.zero_le _⟩
    | bool b => exact ⟨.bool b, .bool b start stop, Nat.zero_le _⟩
    | number n =>
      obtain ⟨n, hn, -⟩ := map_eq_ok.mp h
      exact ⟨.number n, .number start stop hn, Nat.zero_le _⟩
    | string s =>
      obtain ⟨s, rfl, -⟩ := map_eq_ok.mp h
      exact ⟨.string s, .string s start stop, Nat.zero_le _⟩
  | .broken start fault, room, c, h => by cases h
  | .array start items fin, 0, c, h => by cases h
  | .array start items fin, room + 1, c, h => by
    obtain ⟨cs, hcs, h⟩ := bind_eq_ok.mp h
    obtain ⟨_, hfin, -⟩ := bind_eq_ok.mp h
    obtain ⟨vs, hvs, hdepth⟩ := trees_of_values hcs
    cases fin <;> cases hfin
    exact ⟨.array vs, .array start hvs, Nat.succ_le_succ hdepth⟩
  | .object start members fin, 0, c, h => by cases h
  | .object start members fin, room + 1, c, h => by
    obtain ⟨o, ho, h⟩ := bind_eq_ok.mp h
    obtain ⟨stop, hfin, -⟩ := bind_eq_ok.mp h
    obtain ⟨vs, hvs, hdepth⟩ := trees_of_fields ho
    cases fin <;> cases hfin
    exact ⟨.object vs, .object start stop hvs, Nat.succ_le_succ hdepth⟩

theorem trees_of_values : ∀ {nodes : List Node} {room : Nat} {cs : List Content},
    Node.values room nodes = .ok cs → ∃ vs, ShowsItems nodes vs ∧ Value.depthItems vs ≤ room
  | [], room, cs, _ => ⟨[], .nil, Nat.zero_le _⟩
  | node :: nodes, room, cs, h => by
    rw [Node.values] at h
    obtain ⟨c, hc, h⟩ := bind_eq_ok.mp h
    obtain ⟨_, hcs, -⟩ := bind_eq_ok.mp h
    obtain ⟨v, hv, hle⟩ := tree_of_value hc
    obtain ⟨vs, hvs, hles⟩ := trees_of_values hcs
    exact ⟨v :: vs, .cons hv hvs, Nat.max_le.mpr ⟨hle, hles⟩⟩

theorem trees_of_fields : ∀ {members : List (Key × Node)} {room : Nat} {before after : Object},
    Node.fields room before members = .ok after →
    ∃ fields, ShowsMembers members fields ∧ Value.depthFields fields ≤ room
  | [], room, before, after, _ => ⟨[], .nil, Nat.zero_le _⟩
  | (⟨text, settled⟩, node) :: members, room, before, after, h => by
    rw [Node.fields] at h
    obtain ⟨key, htext, h⟩ := bind_eq_ok.mp h
    obtain ⟨c, hc, h⟩ := bind_eq_ok.mp h
    obtain ⟨v, hv, hle⟩ := tree_of_value hc
    obtain ⟨fields, hfields, hles⟩ := trees_of_fields h
    cases htext
    exact ⟨(key, v) :: fields, .cons hv hfields, Nat.max_le.mpr ⟨hle, hles⟩⟩

end

/-- **A node is read as any value if and only if it has a tree that is not too deep**, and then it
is read as the content of that tree. -/
theorem value_eq_ok_iff {node : Node} {room : Nat} {c : Content} :
    node.value room = .ok c ↔ ∃ v, Shows node v ∧ v.depth ≤ room ∧ v.merged = c := by
  constructor
  · intro h
    obtain ⟨v, hv, hdepth⟩ := tree_of_value h
    refine ⟨v, hv, hdepth, ?_⟩
    rw [value_of_tree hv hdepth] at h
    exact Except.ok.inj h
  · rintro ⟨v, hv, hdepth, rfl⟩
    exact value_of_tree hv hdepth

/-! ## What was read -/

theorem depth_of_value {node : Node} {room : Nat} {c : Content} (h : node.value room = .ok c) :
    c.value.depth ≤ room := by
  obtain ⟨v, -, hdepth, rfl⟩ := value_eq_ok_iff.mp h
  exact Nat.le_trans (Value.depth_merged_le v) hdepth

theorem fits_of_fields {room : Nat} {before after : Object} {members : List (Key × Node)}
    (hbefore : before.Fits room) (h : Node.fields room before members = .ok after) :
    after.Fits room := by
  obtain ⟨fields, hfields, hdepth⟩ := trees_of_fields h
  cases h.symm.trans (fields_of_tree hfields before hdepth)
  exact Value.fits_mergedFields fields hbefore hdepth

/-- Only the word for it is read as nothing. -/
theorem eq_null_of_value {node : Node} {room : Nat} (h : node.value room = .ok .null) :
    ∃ start stop, node = .scalar .null start stop := by
  obtain ⟨v, hv, -, hmerged⟩ := value_eq_ok_iff.mp h
  have hnull : v.merged.value = .null := congrArg Content.value hmerged
  cases v <;> cases hnull
  cases hv with
  | null start stop => exact ⟨start, stop, rfl⟩

/-! ## What is written is read -/

/-- **Content is read as it is written.** -/
theorem value_of_shows {c : Content} {node : Node} {room : Nat} (h : Shows node c.value)
    (hroom : c.value.depth ≤ room) : node.value room = .ok c := by
  rw [value_of_tree h hroom]
  exact congrArg Except.ok (Content.ext (Value.value_merged c.distinct))

/-- An object is read as its members are written. -/
theorem fields_of_shows {o : Object} {members : List (Key × Node)} {room : Nat}
    (h : ShowsMembers members o.fields) (hroom : o.Fits room) :
    Node.fields room .empty members = .ok o := by
  rw [fields_of_tree h .empty hroom]
  exact congrArg Except.ok (Object.ext (Value.fields_mergedFields .empty o.distinct.2 o.distinct.1))

end ComponentRules.Json
