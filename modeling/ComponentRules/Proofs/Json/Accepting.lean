import ComponentRules.Proofs.Json.Records
import ComponentRules.Proofs.Json.Trees

/-!
# What readers accept

A reader accepts some trees and refuses all others, and what it makes of a tree does not depend on
where the tree stands in a text. So a reader is described by what it accepts and by what it makes of
it, and readers made of others are described by those.

* `Reader.Reads`: what a reader accepts and what it makes of it.
* `reads_value`, `reads_string`, `reads_optional`, `reads_sequence`, `reads_map`: the readers that
  are no records.
* `Reader.Slot`: a place of a tuple. `tuple_eq_ok_iff`: what a tuple accepts and how it is filled.
* `skip_of_shows`: what has a tree can be passed over.
-/

namespace ComponentRules.Json

open Outcome

variable {α σ : Type}

/-! ## Parts of trees -/

namespace Value

/-- The text of a string. -/
def text : Value → String
  | .string s => s
  | _ => ""

/-- The items of an array. -/
def items : Value → List Value
  | .array items => items
  | _ => []

/-- The members of an object. -/
def members : Value → Fields
  | .object fields => fields
  | _ => []

/-- Nothing for `null`. -/
def unlessNull (out : Value → α) : Value → Option α
  | .null => none
  | tree => some (out tree)

/-- Whether a tree is a string of a certain kind. -/
def IsText (accepts : String → Prop) : Value → Prop
  | .string s => accepts s
  | _ => False

/-- Whether a tree is an array of certain items. -/
def IsList (accepts : Value → Prop) : Value → Prop
  | .array items => ∀ item ∈ items, accepts item
  | _ => False

/-- Whether a tree is an object with certain members. -/
def IsRecord (accepts : Fields → Prop) : Value → Prop
  | .object fields => accepts fields
  | _ => False

theorem isRecord_congr {P Q : Fields → Prop} (h : ∀ members, P members ↔ Q members)
    (tree : Value) : tree.IsRecord P ↔ tree.IsRecord Q := by
  cases tree with
  | object members => exact h members
  | _ => exact Iff.rfl

end Value

/-! ## Readers -/

/-- What a reader accepts, and what it makes of a tree that it accepts. -/
structure Reader.Reads (reader : Reader α) (accepts : Value → Prop) (out : Value → α) : Prop where
  eq_ok_iff : ∀ {room : Nat} {node : Node} {tree : Value} {a : α}, Shows node tree →
    tree.depth ≤ room → (reader room node = .ok a ↔ accepts tree ∧ a = out tree)

/-- A container leaves room for those in it. -/
theorem exists_room {depth room : Nat} (h : depth + 1 ≤ room) :
    ∃ less, room = less + 1 ∧ depth ≤ less :=
  ⟨room - 1, by omega, by omega⟩

namespace Reader

theorem Reads.congr {reader : Reader α} {accepts accepts' : Value → Prop} {out : Value → α}
    (h : reader.Reads accepts out) (haccepts : ∀ tree, accepts tree ↔ accepts' tree) :
    reader.Reads accepts' out :=
  ⟨fun hnode hdepth => by rw [h.eq_ok_iff hnode hdepth, haccepts]⟩

theorem reads_value :
    Reads (fun room node => node.value room) (fun _ => True) Value.merged where
  eq_ok_iff hnode hdepth := by
    rw [value_of_tree hnode hdepth, Except.ok.injEq, true_and, eq_comm]

theorem reads_string : Reads string (Value.IsText fun _ => True) Value.text where
  eq_ok_iff hnode _ := by
    cases hnode <;> simp [string, Value.IsText, Value.text, eq_comm]

theorem optional_of_ne {reader : Reader α} {room : Nat} {node : Node}
    (h : ∀ start stop, node ≠ .scalar .null start stop) :
    optional reader room node = (reader room node).map some := by
  unfold optional
  split
  · exact absurd rfl (h _ _)
  · cases reader room node <;> rfl

theorem reads_optional {reader : Reader α} {accepts : Value → Prop} {out : Value → α}
    (h : reader.Reads accepts out) :
    (optional reader).Reads (fun tree => tree = .null ∨ accepts tree) (Value.unlessNull out) where
  eq_ok_iff {room node tree a} hnode hdepth := by
    by_cases hnull : tree = .null
    · subst hnull
      cases hnode
      simp [optional, Value.unlessNull, eq_comm]
    · have hne : ∀ start stop, node ≠ .scalar .null start stop := by
        rintro start stop rfl
        cases hnode
        exact hnull rfl
      have hout : Value.unlessNull out tree = some (out tree) := by
        unfold Value.unlessNull
        split
        · exact absurd rfl hnull
        · rfl
      rw [optional_of_ne hne, map_eq_ok, hout]
      constructor
      · rintro ⟨b, hb, rfl⟩
        obtain ⟨haccepts, rfl⟩ := (h.eq_ok_iff hnode hdepth).mp hb
        exact ⟨.inr haccepts, rfl⟩
      · rintro ⟨hor, rfl⟩
        exact ⟨_, (h.eq_ok_iff hnode hdepth).mpr ⟨hor.resolve_left hnull, rfl⟩, rfl⟩

theorem forall₂_reads {reader : Reader α} {accepts : Value → Prop} {out : Value → α}
    (h : reader.Reads accepts out) {room : Nat} :
    ∀ {trees : List Value} {nodes : List Node} {as : List α}, ShowsItems nodes trees →
      Value.depthItems trees ≤ room →
      (List.Forall₂ (fun node a => reader room node = .ok a) nodes as ↔
        (∀ tree ∈ trees, accepts tree) ∧ as = trees.map out)
  | [], _, as, .nil, _ => by simp
  | tree :: trees, _, as, .cons hnode hnodes, hdepth => by
    obtain ⟨hle, hles⟩ := Nat.max_le.mp hdepth
    rw [List.forall₂_cons_left_iff, List.forall_mem_cons, List.map_cons]
    simp only [forall₂_reads h hnodes hles, h.eq_ok_iff hnode hle]
    constructor
    · rintro ⟨_, _, ⟨hfirst, rfl⟩, ⟨hrest, rfl⟩, rfl⟩
      exact ⟨⟨hfirst, hrest⟩, rfl⟩
    · rintro ⟨⟨hfirst, hrest⟩, rfl⟩
      exact ⟨_, _, ⟨hfirst, rfl⟩, ⟨hrest, rfl⟩, rfl⟩

theorem reads_sequence {reader : Reader α} {accepts : Value → Prop} {out : Value → α}
    (h : reader.Reads accepts out) :
    (sequence reader).Reads (Value.IsList accepts) fun tree => tree.items.map out where
  eq_ok_iff hnode hdepth := by
    cases hnode with
    | array start hitems =>
      obtain ⟨room, rfl, hroom⟩ := exists_room hdepth
      rw [sequence_eq_ok]
      refine Iff.trans ?_ (forall₂_reads h hitems hroom)
      simp
    | _ => simp [sequence, Value.IsList]

theorem reads_map :
    Reads map (Value.IsRecord fun _ => True)
      fun tree => Value.mergedFields .empty tree.members where
  eq_ok_iff hnode hdepth := by
    cases hnode with
    | object start stop hms =>
      obtain ⟨room, rfl, hroom⟩ := exists_room hdepth
      rw [map_reader_eq_ok]
      have hfields := fields_of_tree hms .empty hroom
      simp [hfields, Value.IsRecord, Value.members, eq_comm]
    | _ => simp [map, Value.IsRecord]

end Reader

/-! ## Tuples -/

namespace Reader

/-- A place of a tuple: what is accepted there, and what it makes of what was read before. -/
structure Slot (σ : Type) where
  place : Place σ
  accepts : Value → Prop
  put : σ → Value → σ
  place_eq_ok_iff : ∀ {s s' : σ} {room : Nat} {node : Node} {tree : Value}, Shows node tree →
    tree.depth ≤ room → (place s room node = .ok s' ↔ accepts tree ∧ s' = put s tree)

/-- A place that is read by a reader. -/
def Slot.ofReader {reader : Reader α} {accepts : Value → Prop} {out : Value → α}
    (h : reader.Reads accepts out) (set : σ → α → σ) : Slot σ where
  place s room node := do pure (set s (← reader room node))
  accepts := accepts
  put s tree := set s (out tree)
  place_eq_ok_iff {s s' room node tree} hnode hdepth := by
    rw [bind_eq_ok]
    constructor
    · rintro ⟨a, ha, hs⟩
      obtain ⟨haccepts, rfl⟩ := (h.eq_ok_iff hnode hdepth).mp ha
      exact ⟨haccepts, (pure_eq_ok.mp hs).symm⟩
    · rintro ⟨haccepts, rfl⟩
      exact ⟨_, (h.eq_ok_iff hnode hdepth).mpr ⟨haccepts, rfl⟩, rfl⟩

/-- Whether there is a place for each item, where the item is accepted. -/
def Fit : List (Slot σ) → List Value → Prop
  | _, [] => True
  | [], _ :: _ => False
  | slot :: slots, tree :: trees => slot.accepts tree ∧ Fit slots trees

/-- What the items make of what was read before. -/
def fill : List (Slot σ) → List Value → σ → σ
  | slot :: slots, tree :: trees, s => fill slots trees (slot.put s tree)
  | _, _, s => s

/-- **What a tuple accepts**: no more items than places, each accepted in its place. -/
theorem tuple_eq_ok_iff {slots : List (Slot σ)} {room : Nat} {nodes : List Node}
    {trees : List Value} (hnodes : ShowsItems nodes trees)
    (hdepth : Value.depthItems trees ≤ room) {s s' : σ} :
    tuple room .closed (slots.map Slot.place) nodes s = .ok s' ↔
      Fit slots trees ∧ s' = fill slots trees s := by
  induction slots generalizing nodes trees s with
  | nil =>
    cases hnodes with
    | nil => simp [tuple, Fit, fill, ArrayEnd.full, ArrayEnd.kept, eq_comm]
    | cons hnode hnodes => simp [tuple, Fit]
  | cons slot slots ih =>
    cases hnodes with
    | nil => simp [tuple, Fit, fill, ArrayEnd.kept, eq_comm]
    | cons hnode hnodes =>
      obtain ⟨hle, hles⟩ := Nat.max_le.mp hdepth
      rw [List.map_cons, tuple, bind_eq_ok, Fit, fill]
      simp only [ih hnodes hles, slot.place_eq_ok_iff hnode hle]
      constructor
      · rintro ⟨_, ⟨hfirst, rfl⟩, hrest, rfl⟩
        exact ⟨⟨hfirst, hrest⟩, rfl⟩
      · rintro ⟨⟨hfirst, hrest⟩, rfl⟩
        exact ⟨_, ⟨hfirst, rfl⟩, hrest, rfl⟩

end Reader

/-! ## Passing over -/

mutual

/-- What has a tree can be passed over. -/
theorem skip_of_shows : ∀ {tree : Value} {node : Node}, Shows node tree → node.skip = .ok ()
  | _, _, .null _ _ | _, _, .bool _ _ _ | _, _, .number _ _ _ | _, _, .string _ _ _ => rfl
  | _, _, .array start hitems => by
    rw [Node.skip, skipItems_of_shows hitems]
    rfl
  | _, _, .object start stop hmembers => by
    rw [Node.skip, skipMembers_of_shows hmembers]
    rfl

theorem skipItems_of_shows : ∀ {trees : List Value} {nodes : List Node}, ShowsItems nodes trees →
    Node.skipItems nodes = .ok ()
  | _, _, .nil => rfl
  | _, _, .cons hnode hnodes => by
    rw [Node.skipItems, skip_of_shows hnode]
    exact skipItems_of_shows hnodes

theorem skipMembers_of_shows : ∀ {fields : Fields} {members : List (Key × Node)},
    ShowsMembers members fields → Node.skipMembers members = .ok ()
  | [], _, .nil => rfl
  | _ :: _, _, .cons hnode hmembers => by
    rw [Node.skipMembers, skip_of_shows hnode]
    exact skipMembers_of_shows hmembers

end

end ComponentRules.Json
