import ComponentRules.Proofs.Json.Records

/-!
# Parts of documents

A path leads from the root of a document to one of its parts, through members of objects and items
of arrays. It can be followed in a tree and in a value alike. The members of an object that are not
known are compared as well: those of a tree stand for those of a value.

* `Node.at?`, `Value.at?`: the part of a tree or of a value that a path leads to.
* `Node.unknown`, `Value.unknown`: the members that are not among given ones.
* `rel_memberNode?`: the member of a key in a tree and in the value that it stands for.
* `StandFor`: members of a tree and the members of a value that they are read as.
* `unknown_append`: the unknown members behind known ones.
-/

namespace ComponentRules.Json

open Outcome

/-! ## Paths -/

/-- A step into a container. -/
inductive PathStep
  | key (text : String)
  | item (index : Nat)

/-- The part of a tree one step further in. -/
def Node.part? : Node → PathStep → Option Node
  | .object _ ms _, .key text => memberNode? text ms
  | .array _ items _, .item i => items[i]?
  | _, _ => none

/-- The part of a tree that a path leads to. -/
def Node.at? (node : Node) : List PathStep → Option Node
  | [] => some node
  | step :: path => (node.part? step).bind fun part => part.at? path

/-- The part of a value one step further in. -/
def Value.part? : Value → PathStep → Option Value
  | .object fields, .key text => Fields.get? fields text
  | .array items, .item i => items[i]?
  | _, _ => none

/-- The part of a value that a path leads to. -/
def Value.at? (v : Value) : List PathStep → Option Value
  | [] => some v
  | step :: path => (v.part? step).bind fun part => part.at? path

theorem Node.at?_append (node : Node) (path more : List PathStep) :
    node.at? (path ++ more) = (node.at? path).bind fun part => part.at? more := by
  induction path generalizing node with
  | nil => rfl
  | cons step path ih =>
    simp only [List.cons_append, at?, ih, Option.bind_assoc]

theorem Value.at?_append (v : Value) (path more : List PathStep) :
    v.at? (path ++ more) = (v.at? path).bind fun part => part.at? more := by
  induction path generalizing v with
  | nil => rfl
  | cons step path ih =>
    simp only [List.cons_append, at?, ih, Option.bind_assoc]

theorem Node.at?_singleton (node : Node) (step : PathStep) : node.at? [step] = node.part? step := by
  simp [at?]

theorem Value.at?_singleton (v : Value) (step : PathStep) : v.at? [step] = v.part? step := by
  simp [at?]

theorem Node.at?_key (start : Nat) (ms : List (Key × Node)) (fin : ObjectEnd) (text : String)
    (path : List PathStep) :
    (Node.object start ms fin).at? (.key text :: path) =
      (memberNode? text ms).bind fun node => node.at? path := rfl

theorem Value.at?_key (fields : Fields) (text : String) (path : List PathStep) :
    (Value.object fields).at? (.key text :: path) =
      (fields.get? text).bind fun value => value.at? path := rfl

/-! ## Members of a key -/

@[simp] theorem Fields.get?_nil (key : String) : get? [] key = none := rfl

theorem Fields.get?_cons (key text : String) (value : Value) (fields : Fields) :
    get? ((key, value) :: fields) text = if text = key then some value else fields.get? text := by
  rw [get?, List.lookup_cons]
  by_cases h : text = key
  · simp [h]
  · have hne : (text == key) = false := by simpa using h
    rw [if_neg h, hne]
    rfl

/-- What is kept of unknown members has no known key. -/
theorem Object.Loose.get?_eq_none {known : List String} {room : Nat} {o : Object}
    (h : o.Loose known room) {text : String} (htext : text ∈ known) : o.get? text = none := by
  refine List.lookup_eq_none_iff.mpr fun f hf => ?_
  have hne : text ≠ f.1 := by
    rintro rfl
    exact h.unknown f.1 (List.mem_map_of_mem hf) htext
  simpa using hne

/-- The first member of a key stands for the value of the key. -/
theorem rel_memberNode? {reads : Number → Except Fault Number → Prop}
    {ms : List (Key × Node)} {fields : Fields} (h : ShowsMembersBy reads ms fields)
    (text : String) :
    Option.Rel (ShowsBy reads) (memberNode? text ms) (fields.get? text) := by
  induction fields generalizing ms with
  | nil =>
    cases h
    exact .none
  | cons f fields ih =>
    cases h with
    | @cons key settled node ms value _ hnode hms =>
      rw [Fields.get?_cons]
      by_cases hkey : text = key
      · subst hkey
        rw [if_pos rfl]
        have hfirst : memberNode? text ((⟨.ok text, settled⟩, node) :: ms) = some node := by
          simp [memberNode?, Key.reads]
        rw [hfirst]
        exact .some hnode
      · rw [if_neg hkey]
        have hlater : memberNode? text ((⟨.ok key, settled⟩, node) :: ms) =
            memberNode? text ms := by
          simp [memberNode?, Key.reads, Ne.symm hkey]
        rw [hlater]
        exact ih hms

/-! ## Unknown members -/

/-- The members of a tree that are not known. -/
def Node.unknown (known : List String) : Node → List (Key × Node)
  | .object _ ms _ => unknownMembers known ms
  | _ => []

/-- The members of a value that are not known. -/
def Value.unknown (known : List String) : Value → Fields
  | .object fields => fields.filter fun f => !known.contains f.1
  | _ => []

/-- Whether members of a text stand for members of a value: a key that is repeated has its first
place and its last value. -/
def StandFor (ms : List (Key × Node)) (fields : Fields) : Prop :=
  ∃ room o, Node.fields room .empty ms = .ok o ∧ o.fields = fields

theorem keys_subset_of_fields {room : Nat} {ms : List (Key × Node)} {before after : Object}
    (h : Node.fields room before ms = .ok after) : before.fields.keys ⊆ after.fields.keys := by
  induction ms generalizing before with
  | nil =>
    rw [Node.fields] at h
    cases h
    exact List.Subset.refl _
  | cons m ms ih =>
    obtain ⟨key, node⟩ := m
    rw [Node.fields] at h
    obtain ⟨text, -, h⟩ := bind_eq_ok.mp h
    obtain ⟨v, -, h⟩ := bind_eq_ok.mp h
    exact fun k hk => ih h (Fields.mem_keys_insert.mpr (.inl hk))

/-- Members stand for nothing only if there are none. -/
theorem standFor_nil {ms : List (Key × Node)} : StandFor ms [] ↔ ms = [] := by
  constructor
  · rintro ⟨room, o, h, hnil⟩
    cases ms with
    | nil => rfl
    | cons m ms =>
      obtain ⟨key, node⟩ := m
      rw [Node.fields] at h
      obtain ⟨text, -, h⟩ := bind_eq_ok.mp h
      obtain ⟨v, -, h⟩ := bind_eq_ok.mp h
      have hkey := keys_subset_of_fields h (Fields.mem_keys_insert.mpr (.inr rfl))
      rw [hnil] at hkey
      cases hkey
  · rintro rfl
    exact ⟨0, .empty, rfl, rfl⟩

theorem unknown_append {known : List String} {fields : Fields} {extra : Object} {room : Nat}
    (hfields : ∀ key ∈ fields.keys, key ∈ known) (hextra : extra.Loose known room) :
    Value.unknown known (.object (fields ++ extra.fields)) = extra.fields := by
  have hnone : fields.filter (fun f => !known.contains f.1) = [] := by
    refine List.filter_eq_nil_iff.mpr fun f hf => ?_
    simpa using hfields f.1 (List.mem_map_of_mem hf)
  have hall : extra.fields.filter (fun f => !known.contains f.1) = extra.fields := by
    refine List.filter_eq_self.mpr fun f hf => ?_
    simpa using hextra.unknown f.1 (List.mem_map_of_mem hf)
  rw [Value.unknown, List.filter_append, hnone, hall, List.nil_append]

end ComponentRules.Json
