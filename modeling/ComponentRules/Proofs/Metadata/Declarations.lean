import ComponentRules.Metadata.Declaration
import ComponentRules.Proofs.Json.Members

/-!
# Declarations read and read again

A written declaration is read as it was. What a declaration keeps besides its group, its name and
its version are the unknown members of the text; of a version nothing is kept but the demands.

* `Declaration.Sound`: what is true of every declaration that was read.
* `Declaration.sound_of_reader`: reading gives sound declarations.
* `Declaration.reader_of_shows`: trees of sound declarations are read.
-/

namespace ComponentRules

open Json Outcome

/-! ## Members that may be left out -/

namespace VersionConstraint

/-- A text that is written only if it is there, read into an empty place. -/
theorem runs_textField {σ : Type} {room : Nat} {member : Reader.Member σ} {key : String}
    (put : Option (Option String) → σ)
    (h : ∀ text, Reader.Runs room member (put none) [(key, .string text)] (put (some (some text))))
    (text : Option String) :
    Reader.Runs room member (put none) (textField key text) (put (text.map some)) := by
  cases text with
  | none => exact .nil _
  | some text => exact h text

/-- A list that is written only if it holds something, read into an empty place. -/
theorem runs_listField {σ α : Type} {room : Nat} {member : Reader.Member σ} {key : String}
    (put : Option (List α) → σ) {toValue : α → Value} {as : List α}
    (h : Reader.Runs room member (put none) [(key, .array (as.map toValue))] (put (some as))) :
    ∃ read, Reader.Runs room member (put none) (listField key (as.map toValue)) (put read) ∧
      read.getD [] = as := by
  cases as with
  | nil => exact ⟨none, .nil _, rfl⟩
  | cons a as => exact ⟨some (a :: as), h, rfl⟩

/-! ## Version constraints -/

/-- The keys that a version constraint knows. -/
def knownKeys : List String :=
  ["strictly", "requires", "prefers", "rejects"]

/-- The members that a version constraint is written as. -/
def known (v : VersionConstraint) : Fields :=
  textField "strictly" v.strictly ++ textField "requires" v.requires ++
    textField "prefers" v.prefers ++ listField "rejects" (v.rejects.map .string)

namespace Draft

def strictlyField : Reader.Field Draft :=
  ⟨"strictly", Reader.optional .string, Draft.strictly, fun s strictly => { s with strictly },
    fun _ _ => rfl⟩

def requiresField : Reader.Field Draft :=
  ⟨"requires", Reader.optional .string, Draft.requires, fun s requires => { s with requires },
    fun _ _ => rfl⟩

def prefersField : Reader.Field Draft :=
  ⟨"prefers", Reader.optional .string, Draft.prefers, fun s prefers => { s with prefers },
    fun _ _ => rfl⟩

def rejectsField : Reader.Field Draft :=
  ⟨"rejects", Reader.sequence .string, Draft.rejects, fun s rejects => { s with rejects },
    fun _ _ => rfl⟩

/-- The members that a version constraint knows. -/
def fields : List (Reader.Field Draft) :=
  [strictlyField, requiresField, prefersField, rejectsField]

/-- Passes over a member. -/
def passOver : Reader.Member Draft := fun s _ _ _ node => do
  node.skip
  pure s

theorem member_eq : member = Reader.takeIn passOver fields := rfl

theorem knows_fields : Reader.Knows passOver fields where
  apart := by
    simp [fields, Reader.Field.Apart, strictlyField, requiresField, prefersField, rejectsField]
  get_other f _ s s' key settled room node h := by
    obtain ⟨_, -, h⟩ := bind_eq_ok.mp h
    cases h
    rfl

end Draft

/-- The demands of a version constraint, as members read into an empty draft. -/
theorem runs_known (v : VersionConstraint) (room : Nat) :
    ∃ s, Reader.Runs (room + 1) Draft.member .empty v.known s ∧ s.finish = v := by
  obtain ⟨strictly, requires, prefers, rejects⟩ := v
  have read_text (text : String) (node : Node) (h : Shows node (.string text)) :
      Reader.optional .string (room + 1) node = .ok (some text) :=
    Reader.optional_of_shows h nofun (Reader.string_of_shows h _)
  have read_texts (node : Node) (h : Shows node (.array (rejects.map .string))) :
      Reader.sequence .string (room + 1) node = .ok rejects :=
    Reader.sequence_of_shows h fun _ _ _ hitem => Reader.string_of_shows hitem _
  have hstrictly := runs_textField (Draft.mk · none none none) (fun text =>
    Draft.knows_fields.runs (f := Draft.strictlyField) (by simp [Draft.fields]) rfl
      (read_text text)) strictly
  have hrequires := runs_textField (Draft.mk (strictly.map some) · none none) (fun text =>
    Draft.knows_fields.runs (f := Draft.requiresField) (by simp [Draft.fields]) rfl
      (read_text text)) requires
  have hprefers := runs_textField (Draft.mk (strictly.map some) (requires.map some) · none)
    (fun text => Draft.knows_fields.runs (f := Draft.prefersField) (by simp [Draft.fields]) rfl
      (read_text text)) prefers
  have htexts (s : Draft) (hnone : s.rejects = none) : Reader.Runs (room + 1) Draft.member s
      [("rejects", .array (rejects.map .string))] { s with rejects := some rejects } :=
    Draft.knows_fields.runs (f := Draft.rejectsField) (by simp [Draft.fields]) hnone read_texts
  obtain ⟨read, hrejects, hread⟩ := runs_listField
    (Draft.mk (strictly.map some) (requires.map some) (prefers.map some)) (htexts _ rfl)
  refine ⟨_, ((hstrictly.append hrequires).append hprefers).append hrejects, ?_⟩
  simp [Draft.finish, Reader.join_map_some, hread]

/-- A written version constraint is read as it was. -/
theorem reader_of_shows {v : VersionConstraint} {node : Node} (h : Shows node v.toValue)
    (room : Nat) : reader (room + 2) node = .ok v := by
  obtain ⟨s, hrun, hfinish⟩ := v.runs_known room
  have hrecord : Reader.record "VersionConstraint" Draft.member .empty (fun s => .ok s.finish)
      (room + 2) node = .ok v :=
    Reader.record_of_shows h hrun (congrArg Except.ok hfinish)
  cases h with
  | object start stop hms => exact hrecord

end VersionConstraint

/-! ## Declarations -/

namespace Declaration

/-- The keys that a declaration knows. -/
def knownKeys : List String :=
  ["group", "module", "version"]

/-- What is true of a declaration whose members were read with room for so many containers. -/
structure Sound (room : Nat) (d : Declaration) : Prop where
  extra : d.extra.Loose knownKeys room

namespace Draft

def groupField : Reader.Field Draft :=
  ⟨"group", Reader.string, Draft.group, fun s group => { s with group }, fun _ _ => rfl⟩

def nameField : Reader.Field Draft :=
  ⟨"module", Reader.string, Draft.name, fun s name => { s with name }, fun _ _ => rfl⟩

def versionField : Reader.Field Draft :=
  ⟨"version", Reader.optional VersionConstraint.reader, Draft.version,
    fun s version => { s with version }, fun _ _ => rfl⟩

/-- The members that a declaration knows. -/
def fields : List (Reader.Field Draft) :=
  [groupField, nameField, versionField]

theorem spare : Reader.Spare fields Draft.extra fun s extra => { s with extra } := by
  constructor <;> simp [fields, Reader.Field.Apart, groupField, nameField, versionField]

theorem member_eq : member =
    Reader.takeIn (Reader.keepOther Draft.extra fun s extra => { s with extra }) fields := rfl

theorem keeps : Reader.Keeps member knownKeys Draft.extra fun s extra => { s with extra } := by
  rw [member_eq]
  exact spare.keeps

theorem finish_eq_ok {s : Draft} {d : Declaration} :
    s.finish = .ok d ↔
      s.group = some d.group ∧ s.name = some d.name ∧ s.version.join = d.version ∧
        s.extra = d.extra := by
  unfold finish
  rw [bind_eq_ok]
  constructor
  · rintro ⟨group, hgroup, h⟩
    obtain ⟨name, hname, h⟩ := bind_eq_ok.mp h
    cases h
    exact ⟨Reader.required_eq_ok.mp hgroup, Reader.required_eq_ok.mp hname, rfl, rfl⟩
  · rintro ⟨hgroup, hname, hversion, hextra⟩
    refine ⟨d.group, Reader.required_eq_ok.mpr hgroup, bind_eq_ok.mpr
      ⟨d.name, Reader.required_eq_ok.mpr hname, ?_⟩⟩
    rw [hversion, hextra]
    rfl

end Draft

/-- What a declaration was read from. -/
theorem reader_eq_ok {room : Nat} {node : Node} {d : Declaration}
    (h : reader (room + 1) node = .ok d) :
    ∃ start ms stop s, node = .object start ms (.closed stop) ∧
      Reader.members room Draft.member .empty ms = .ok s ∧ s.version.join = d.version ∧
      s.extra = d.extra := by
  obtain ⟨start, ms, stop, hnode, s, hs, hfinish⟩ := Reader.record_eq_ok.mp h
  obtain ⟨-, -, hversion, hextra⟩ := Draft.finish_eq_ok.mp hfinish
  exact ⟨start, ms, stop, s, hnode, hs, hversion, hextra⟩

/-- A declaration that was read is sound. -/
theorem sound_of_reader {room : Nat} {node : Node} {d : Declaration}
    (h : reader (room + 1) node = .ok d) : d.Sound room := by
  obtain ⟨_, ms, _, s, -, hs, -, hextra⟩ := reader_eq_ok h
  refine ⟨?_⟩
  rw [← hextra]
  exact loose_of_members Draft.keeps rfl hs

theorem sound_ofName (group name : String) (room : Nat) : (ofName group name).Sound room :=
  ⟨Object.loose_empty _ room⟩

/-- The known members of a declaration, as members read into an empty draft. -/
theorem runs_known (d : Declaration) (room : Nat) :
    Reader.Runs (room + 2) Draft.member .empty d.known
      ⟨some d.group, some d.name, d.version.map some, .empty⟩ := by
  obtain ⟨group, name, version, extra⟩ := d
  have hgroup : Reader.Runs (room + 2) Draft.member .empty [("group", .string group)]
      ⟨some group, none, none, .empty⟩ :=
    Draft.spare.knows.runs (f := Draft.groupField) (by simp [Draft.fields]) rfl
      fun _ hnode => Reader.string_of_shows hnode (room + 2)
  have hname : Reader.Runs (room + 2) Draft.member ⟨some group, none, none, .empty⟩
      [("module", .string name)] ⟨some group, some name, none, .empty⟩ :=
    Draft.spare.knows.runs (f := Draft.nameField) (by simp [Draft.fields]) rfl
      fun _ hnode => Reader.string_of_shows hnode (room + 2)
  cases version with
  | none => exact hgroup.append hname
  | some version =>
    have hversion : Reader.Runs (room + 2) Draft.member ⟨some group, some name, none, .empty⟩
        [("version", version.toValue)] ⟨some group, some name, some (some version), .empty⟩ :=
      Draft.spare.knows.runs (f := Draft.versionField) (by simp [Draft.fields]) rfl
        fun _ hnode => Reader.optional_of_shows hnode nofun
          (VersionConstraint.reader_of_shows hnode room)
    exact (hgroup.append hname).append hversion

/-- **A written declaration is read as it was.** -/
theorem reader_of_shows {d : Declaration} {room : Nat} {node : Node} (hd : d.Sound (room + 2))
    (h : Shows node d.toValue) : reader (room + 3) node = .ok d := by
  have hextra := runs_loose Draft.keeps hd.extra
    (s := ⟨some d.group, some d.name, d.version.map some, .empty⟩) rfl
  exact Reader.record_of_shows h ((d.runs_known room).append hextra)
    (Draft.finish_eq_ok.mpr ⟨rfl, rfl, Reader.join_map_some _, rfl⟩)

end Declaration

end ComponentRules
