import ComponentRules.Proofs.Json.Accepting
import ComponentRules.Proofs.Json.Equality
import ComponentRules.Proofs.Json.Members
import ComponentRules.Proofs.Json.Paths

/-!
# What records accept

A record accepts an object if each member that it knows stands there at most once, with a value that
its own reader accepts, and if those that it cannot do without are there.

* `Fields.Admits`, `Fields.Requires`: whether the members of an object suit one that is known.
* `Reader.ShapedField`: a member that is known, with what is accepted for it.
* `members_of_tree`: which members can be taken in.
* `reads_record`: what a record accepts and what it makes of it.
* `kept_of_members`: what a record keeps of the members it does not know.
-/

namespace ComponentRules.Json

open Outcome

variable {α σ : Type}

/-! ## Known members -/

/-- Whether members hold a key at most once, with a value that is accepted. -/
def Fields.Admits (fields : Fields) (key : String) (accepts : Value → Prop) : Prop :=
  fields.keys.count key ≤ 1 ∧ ∀ tree, fields.get? key = some tree → accepts tree

/-- Whether members hold a key exactly once, with a value that is accepted. -/
def Fields.Requires (fields : Fields) (key : String) (accepts : Value → Prop) : Prop :=
  key ∈ fields.keys ∧ fields.Admits key accepts

/-- The value of a key, `null` if there is none. -/
def Fields.value (fields : Fields) (key : String) : Value :=
  (fields.get? key).getD .null

theorem Fields.get?_isSome_iff {fields : Fields} {key : String} :
    (fields.get? key).isSome ↔ key ∈ fields.keys := by
  induction fields with
  | nil => simp [get?]
  | cons f fields ih =>
    obtain ⟨name, tree⟩ := f
    rw [get?_cons, keys_cons, List.mem_cons, ← ih]
    split
    · rename_i hkey
      simp [hkey]
    · rename_i hkey
      simp [hkey]

/-- What is made of a member that must be there. -/
theorem Fields.map_get?_eq_some {fields : Fields} {key : String} {out : Value → α} {a : α} :
    (fields.get? key).map out = some a ↔ key ∈ fields.keys ∧ a = out (fields.value key) := by
  rw [← get?_isSome_iff, value]
  cases fields.get? key <;> simp [eq_comm]

/-- What is made of a member that may be `null`. -/
theorem Fields.join_map_get? (fields : Fields) (key : String) (out : Value → α) :
    ((fields.get? key).map (Value.unlessNull out)).join =
      Value.unlessNull out (fields.value key) := by
  rw [value]
  cases fields.get? key <;> rfl

/-- What is made of a member that may be left out. -/
theorem Fields.getD_map_get? (fields : Fields) (key : String) {out : Value → α} {a : α}
    (h : out .null = a) : ((fields.get? key).map out).getD a = out (fields.value key) := by
  rw [value]
  cases fields.get? key with
  | none => exact h.symm
  | some tree => rfl

/-- A stronger demand on a member that must be there. -/
theorem Fields.requires_iff {fields : Fields} {key : String} {P Q R : Value → Prop}
    (h : ∀ tree, P tree ↔ Q tree ∧ R tree) :
    fields.Requires key P ↔ fields.Requires key Q ∧ R (fields.value key) := by
  simp only [Requires, Admits, value, ← get?_isSome_iff]
  cases fields.get? key with
  | none => simp
  | some tree =>
    simp only [Option.isSome_some, Option.some.injEq, forall_eq', true_and, h, Option.getD_some]
    exact and_assoc.symm

/-- A stronger demand on a member that may be left out, if leaving it out fulfils it. -/
theorem Fields.admits_iff {fields : Fields} {key : String} {P Q R : Value → Prop}
    (h : ∀ tree, P tree ↔ Q tree ∧ R tree) (hnull : R .null) :
    fields.Admits key P ↔ fields.Admits key Q ∧ R (fields.value key) := by
  simp only [Admits, value]
  cases fields.get? key with
  | none => simp [hnull]
  | some tree =>
    simp only [Option.some.injEq, forall_eq', h, Option.getD_some]
    exact and_assoc.symm

theorem Fields.Admits.of_head {key : String} {tree : Value} {fields : Fields}
    {accepts : Value → Prop} (h : Fields.Admits ((key, tree) :: fields) key accepts) :
    accepts tree ∧ key ∉ fields.keys := by
  refine ⟨h.2 tree (by rw [get?_cons, if_pos rfl]), fun hmem => ?_⟩
  have hcount := h.1
  have hpos := List.count_pos_iff.mpr hmem
  rw [keys_cons, List.count_cons_self] at hcount
  omega

theorem Fields.Admits.of_cons {key : String} {member : String × Value} {fields : Fields}
    {accepts : Value → Prop} (h : Fields.Admits (member :: fields) key accepts) :
    fields.Admits key accepts := by
  obtain ⟨name, value⟩ := member
  by_cases hkey : key = name
  · -- the key does not come again
    subst hkey
    have hnew := h.of_head.2
    refine ⟨by rw [List.count_eq_zero_of_not_mem hnew]; omega, fun tree htree => ?_⟩
    exact absurd (List.mem_map_of_mem (mem_of_get? htree)) hnew
  · refine ⟨?_, fun tree htree => h.2 tree (by rwa [get?_cons, if_neg hkey])⟩
    have hcount := h.1
    rwa [keys_cons, List.count_cons_of_ne (Ne.symm hkey)] at hcount

namespace Reader

/-- A member that a record knows, with what is accepted for it and what is made of that. -/
structure ShapedField (σ : Type) extends Field σ where
  accepts : Value → Prop
  out : Value → α
  reads : reader.Reads accepts out

/-- Some members that a record knows, without their shapes. -/
def unshaped (shapes : List (ShapedField σ)) : List (Field σ) :=
  shapes.map ShapedField.toField

/-- Whether members are taken in whatever they hold. -/
def Total (other : Member σ) : Prop :=
  ∀ (s : σ) (key : String) (settled : Nat) {room : Nat} {node : Node} {tree : Value},
    Shows node tree → tree.depth ≤ room → ∃ s', other s key settled room node = .ok s'

theorem total_keepOther (extra : σ → Object) (put : σ → Object → σ) :
    Total (keepOther extra put) := by
  intro s key settled room node tree hnode hdepth
  rw [keepOther, value_of_tree hnode hdepth]
  exact ⟨_, rfl⟩

section Shapes

variable {other : Member σ} {shapes : List (ShapedField σ)}

theorem mem_unshaped {f : ShapedField σ} (hf : f ∈ shapes) : f.toField ∈ unshaped shapes :=
  List.mem_map_of_mem hf

/-- A member that was taken in stood there at most once. -/
theorem count_of_members {member : Member σ} {key : String} {reader : Reader α}
    {get : σ → Option α} (h : Takes member key reader get) {room : Nat} {ms : List (Key × Node)}
    {members : Fields} (hms : ShowsMembers ms members) {s s' : σ}
    (hs : Reader.members room member s ms = .ok s') :
    members.keys.count key ≤ if (get s).isSome then 0 else 1 := by
  induction members generalizing ms s with
  | nil => simp
  | cons f members ih =>
    obtain ⟨name, tree⟩ := f
    cases hms with
    | cons hnode hms =>
      obtain ⟨_, hname, hs⟩ := bind_eq_ok.mp hs
      cases hname
      obtain ⟨next, hnext, hs⟩ := bind_eq_ok.mp hs
      have hrest := ih hms hs
      by_cases hkey : name = key
      · subst hkey
        obtain ⟨hnone, a, -, hsome⟩ := h.own hnext
        rw [hsome] at hrest
        rw [hnone, Fields.keys_cons, List.count_cons_self]
        simpa using hrest
      · rw [h.other hkey hnext] at hrest
        rwa [Fields.keys_cons, List.count_cons_of_ne hkey]

/-- What was taken in for a member that is known. -/
theorem get_of_tree (h : Knows other (unshaped shapes)) {f : ShapedField σ} (hf : f ∈ shapes)
    {room : Nat} {ms : List (Key × Node)} {members : Fields} (hms : ShowsMembers ms members)
    (hdepth : Value.depthFields members ≤ room) {s s' : σ} (hempty : f.get s = none)
    (hs : Reader.members room (takeIn other (unshaped shapes)) s ms = .ok s') :
    members.Admits f.name f.accepts ∧ f.get s' = (members.get? f.name).map f.out := by
  have hcount := count_of_members (h.takes (mem_unshaped hf)) hms hs
  rw [hempty] at hcount
  have htaken := taken_of_members (h.takes (mem_unshaped hf)) hempty hs
  have hshown := rel_memberNode? hms f.name
  cases hget : members.get? f.name with
  | none =>
    rw [hget] at hshown
    generalize memberNode? f.name ms = found at htaken hshown
    cases hshown
    cases hf' : f.get s' with
    | none => exact ⟨⟨hcount, by simp [hget]⟩, rfl⟩
    | some a =>
      rw [hf'] at htaken
      cases htaken
  | some tree =>
    rw [hget] at hshown
    generalize memberNode? f.name ms = found at htaken hshown
    cases hshown with
    | some hnode =>
      generalize f.get s' = taken at htaken
      cases htaken with
      | some ha =>
        have hle := Value.depthFields_le_iff.mp hdepth _ (Fields.mem_of_get? hget)
        obtain ⟨haccepts, rfl⟩ := (f.reads.eq_ok_iff hnode hle).mp ha
        refine ⟨⟨hcount, fun tree' htree' => ?_⟩, rfl⟩
        cases hget.symm.trans htree'
        exact haccepts

/-- Members that suit a record are taken in, one after the other. What is taken in already may not
stand among them. -/
theorem exists_members (h : Knows other (unshaped shapes)) (hother : Total other) {room : Nat}
    {ms : List (Key × Node)} {members : Fields} (hms : ShowsMembers ms members)
    (hdepth : Value.depthFields members ≤ room)
    {s : σ} (hs : ∀ f ∈ shapes, f.get s ≠ none → f.name ∉ members.keys)
    (hadmits : ∀ f ∈ shapes, members.Admits f.name f.accepts) :
    ∃ s', Reader.members room (takeIn other (unshaped shapes)) s ms = .ok s' := by
  induction members generalizing ms s with
  | nil =>
    cases hms
    exact ⟨s, rfl⟩
  | cons member members ih =>
    obtain ⟨key, tree⟩ := member
    cases hms with
    | @cons _ settled node ms _ _ hnode hms =>
      obtain ⟨hle, hles⟩ := Nat.max_le.mp hdepth
      have hstep : ∃ next, takeIn other (unshaped shapes) s key settled room node = .ok next := by
        by_cases hknown : ∃ f ∈ shapes, key = f.name
        · obtain ⟨f, hf, rfl⟩ := hknown
          have hnone : f.get s = none := by
            by_contra hsome
            exact hs f hf hsome List.mem_cons_self
          have haccepts := (hadmits f hf).of_head.1
          rw [takeIn_of_mem h.apart (mem_unshaped hf)]
          exact ⟨_, once_bind_eq_ok.mpr
            ⟨hnone, _, (f.reads.eq_ok_iff hnode hle).mpr ⟨haccepts, rfl⟩, rfl⟩⟩
        · have hne : ∀ f ∈ unshaped shapes, key ≠ f.name := by
            intro f hf heq
            obtain ⟨g, hg, rfl⟩ := List.mem_map.mp hf
            exact hknown ⟨g, hg, heq⟩
          rw [takeIn_of_ne hne]
          exact hother s key settled hnode hle
      obtain ⟨next, hnext⟩ := hstep
      have hkept : ∀ f ∈ shapes, f.get next ≠ none → f.name ∉ Fields.keys members := by
        intro f hf hsome
        by_cases hkey : key = f.name
        · subst hkey
          exact (hadmits f hf).of_head.2
        · rw [(h.takes (mem_unshaped hf)).other hkey hnext] at hsome
          exact fun hmem => hs f hf hsome (List.mem_cons_of_mem _ hmem)
      obtain ⟨s', hs'⟩ := ih hms hles hkept fun f hf => (hadmits f hf).of_cons
      exact ⟨s', bind_eq_ok.mpr ⟨key, rfl, bind_eq_ok.mpr ⟨next, hnext, hs'⟩⟩⟩

/-- **What it takes to be read as a record**: the members that it knows suit it. -/
theorem members_of_tree (h : Knows other (unshaped shapes)) (hother : Total other) {empty : σ}
    (hempty : ∀ f ∈ shapes, f.get empty = none) {room : Nat} {ms : List (Key × Node)}
    {members : Fields} (hms : ShowsMembers ms members)
    (hdepth : Value.depthFields members ≤ room) :
    (∃ s, Reader.members room (takeIn other (unshaped shapes)) empty ms = .ok s) ↔
      ∀ f ∈ shapes, members.Admits f.name f.accepts := by
  constructor
  · rintro ⟨s, hs⟩ f hf
    exact (get_of_tree h hf hms hdepth (hempty f hf) hs).1
  · exact exists_members h hother hms hdepth fun f hf hsome => absurd (hempty f hf) hsome

/-- What has been taken in of the members of an object, and what has been kept of the others. -/
structure TakenIn (shapes : List (ShapedField σ)) (keeps : σ → Fields → Prop) (members : Fields)
    (s : σ) : Prop where
  known : ∀ f ∈ shapes, f.get s = (members.get? f.name).map f.out
  others : keeps s members

/-- **A record reads the objects whose members suit it**, if what it makes of the members that it
has taken in depends on the object only. -/
theorem reads_record (name : String) (h : Knows other (unshaped shapes)) (hother : Total other)
    {empty : σ} (hempty : ∀ f ∈ shapes, f.get empty = none) (keeps : σ → Fields → Prop)
    (hkeeps : ∀ {room : Nat} {ms : List (Key × Node)} {members : Fields} {s : σ},
      ShowsMembers ms members → Value.depthFields members ≤ room →
      Reader.members room (takeIn other (unshaped shapes)) empty ms = .ok s → keeps s members)
    {finish : σ → Except String α} {complete : Fields → Prop} {out : Fields → α}
    (hfinish : ∀ {members : Fields} {s : σ}, TakenIn shapes keeps members s → ∀ a,
      finish s = .ok a ↔ complete members ∧ a = out members) :
    (record name (takeIn other (unshaped shapes)) empty finish).Reads
      (Value.IsRecord fun members =>
        (∀ f ∈ shapes, members.Admits f.name f.accepts) ∧ complete members)
      fun tree => out tree.members where
  eq_ok_iff {room node tree a} hnode hdepth := by
    cases hnode with
    | @object start stop ms members hms =>
      obtain ⟨room, rfl, hroom⟩ := exists_room hdepth
      have taken {s : σ}
          (hs : Reader.members room (takeIn other (unshaped shapes)) empty ms = .ok s) :
          TakenIn shapes keeps members s :=
        ⟨fun f hf => (get_of_tree h hf hms hroom (hempty f hf) hs).2, hkeeps hms hroom hs⟩
      rw [record_eq_ok]
      constructor
      · rintro ⟨_, _, _, hsame, s, hs, ha⟩
        cases hsame
        obtain ⟨hcomplete, rfl⟩ := (hfinish (taken hs) a).mp ha
        exact ⟨⟨(members_of_tree h hother hempty hms hroom).mp ⟨s, hs⟩, hcomplete⟩, rfl⟩
      · rintro ⟨⟨hadmits, hcomplete⟩, rfl⟩
        obtain ⟨s, hs⟩ := (members_of_tree h hother hempty hms hroom).mpr hadmits
        exact ⟨start, ms, stop, rfl, s, hs, (hfinish (taken hs) _).mpr ⟨hcomplete, rfl⟩⟩
    | _ => simp [record, Value.IsRecord]

end Shapes

/-! ## What is kept of unknown members -/

/-- The unknown members of a tree show the unknown members of the object. -/
theorem showsMembers_unknown (known : List String) {ms : List (Key × Node)} {members : Fields}
    (h : ShowsMembers ms members) :
    ShowsMembers (unknownMembers known ms) (Value.unknown known (.object members)) := by
  induction members generalizing ms with
  | nil =>
    cases h
    exact .nil
  | cons member members ih =>
    obtain ⟨key, tree⟩ := member
    cases h with
    | @cons _ settled node ms _ _ hnode hms =>
      have hrest := ih hms
      by_cases hk : key ∈ known
      · have hskip : unknownMembers known ((⟨.ok key, settled⟩, node) :: ms) =
            unknownMembers known ms := by
          simp [unknownMembers, Key.knownBy, hk]
        have hskip' : Value.unknown known (.object ((key, tree) :: members)) =
            Value.unknown known (.object members) := by
          simp [Value.unknown, hk]
        rwa [hskip, hskip']
      · have hkeep : unknownMembers known ((⟨.ok key, settled⟩, node) :: ms) =
            (⟨.ok key, settled⟩, node) :: unknownMembers known ms := by
          simp [unknownMembers, Key.knownBy, hk]
        have hkeep' : Value.unknown known (.object ((key, tree) :: members)) =
            (key, tree) :: Value.unknown known (.object members) := by
          simp [Value.unknown, hk]
        rw [hkeep, hkeep']
        exact .cons hnode hrest

theorem depth_unknown_le (known : List String) {members : Fields} {room : Nat}
    (h : Value.depthFields members ≤ room) :
    Value.depthFields (Value.unknown known (.object members)) ≤ room :=
  Value.depthFields_le_iff.mpr fun f hf =>
    Value.depthFields_le_iff.mp h f (List.mem_of_mem_filter hf)

/-- What a record keeps of the members it does not know: each in its first place and with its last
value. -/
def kept (known : List String) (members : Fields) : Object :=
  Value.mergedFields .empty (Value.unknown known (.object members))

theorem kept_of_members {member : Member σ} {known : List String} {extra : σ → Object}
    {put : σ → Object → σ} (h : Keeps member known extra put) {room : Nat}
    {ms : List (Key × Node)} {members : Fields} {s s' : σ} (hms : ShowsMembers ms members)
    (hdepth : Value.depthFields members ≤ room) (hempty : extra s = .empty)
    (hs : Reader.members room member s ms = .ok s') : extra s' = kept known members := by
  have hread := fields_of_members h hs
  rw [hempty, fields_of_tree (showsMembers_unknown known hms) .empty
    (depth_unknown_le known hdepth)] at hread
  exact (Except.ok.inj hread).symm

/-- A record that keeps what it does not know reads the objects whose members suit it. -/
theorem Spare.reads_record (name : String) {shapes : List (ShapedField σ)} {extra : σ → Object}
    {put : σ → Object → σ} (h : Spare (unshaped shapes) extra put) {empty : σ}
    (hempty : ∀ f ∈ shapes, f.get empty = none) (hextra : extra empty = .empty)
    {finish : σ → Except String α} {complete : Fields → Prop} {out : Fields → α}
    (hfinish : ∀ {members : Fields} {s : σ}, TakenIn shapes
      (fun s members => extra s = kept ((unshaped shapes).map (·.name)) members) members s → ∀ a,
      finish s = .ok a ↔ complete members ∧ a = out members) :
    (record name (takeIn (keepOther extra put) (unshaped shapes)) empty finish).Reads
      (Value.IsRecord fun members =>
        (∀ f ∈ shapes, members.Admits f.name f.accepts) ∧ complete members)
      fun tree => out tree.members :=
  Reader.reads_record name h.knows (total_keepOther extra put) hempty _
    (fun hms hdepth hs => kept_of_members h.keeps hms hdepth hextra hs) hfinish

end Reader

end ComponentRules.Json
