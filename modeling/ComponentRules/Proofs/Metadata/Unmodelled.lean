import Mathlib
import ComponentRules.Proofs.Metadata.Declared
import ComponentRules.Proofs.Metadata.Values

/-!
# Members that the domain does not know

Metadata is decoded and written back. Members that no field is for are kept on the way wherever they
stand, with one exception: those of a version constraint are lost.

* `Level`: the objects of metadata that know some of their members.
* `Level.Keeps`: whether the unknown members of a text stand in a value, at the same place, with
  the same values and in the same order.
* `Written`: a part of a text and what is written for it; `Written.variant` and
  `Written.declaration` follow it into the parts.
* `keeps_all_iff`: unknown members are kept if and only if no version has any.
-/

namespace ComponentRules

open Json Outcome

/-! ## Levels of metadata -/

/-- The objects of metadata that know some of their members. -/
inductive Level
  | document
  | component
  | variant (i : Nat)
  | declaration (i j : Nat)
  | version (i j : Nat)

namespace Level

/-- Where an object stands. -/
def path : Level → List PathStep
  | document => []
  | component => [.key "component"]
  | variant i => [.key "variants", .item i]
  | declaration i j => [.key "variants", .item i, .key "dependencies", .item j]
  | version i j => [.key "variants", .item i, .key "dependencies", .item j, .key "version"]

/-- The keys that an object knows. -/
def knownKeys : Level → List String
  | document => Metadata.knownKeys
  | component => Component.knownKeys
  | variant _ => Variant.knownKeys
  | declaration _ _ => Declaration.knownKeys
  | version _ _ => VersionConstraint.knownKeys

/-- The unknown members of a text at a level. -/
def members (level : Level) (root : Node) : List (Key × Node) :=
  ((root.at? level.path).map (Node.unknown level.knownKeys)).getD []

/-- The unknown members of a value at a level. -/
def fields (level : Level) (v : Value) : Fields :=
  ((v.at? level.path).map (Value.unknown level.knownKeys)).getD []

/-- Whether the unknown members of a text at a level stand in a value at the same level. -/
def Keeps (level : Level) (root : Node) (v : Value) : Prop :=
  StandFor (level.members root) (level.fields v)

end Level

/-! ## What was read and what is written -/

/-- Whether a value is what is written for the thing that a tree was read as. -/
def Written {α : Type} (read : Node → Except Fault α) (toValue : α → Value) (node : Node)
    (value : Value) : Prop :=
  ∃ a, read node = .ok a ∧ value = toValue a

section Written

variable {α : Type} {room : Nat} {node : Node} {value : Value}

theorem rel_bind {A B C D : Type} {R : A → B → Prop} {S : C → D → Prop} {a : Option A}
    {b : Option B} {f : A → Option C} {g : B → Option D} (h : Option.Rel R a b)
    (hfg : ∀ x y, R x y → Option.Rel S (f x) (g y)) : Option.Rel S (a.bind f) (b.bind g) := by
  cases h with
  | none => exact .none
  | some h => exact hfg _ _ h

theorem rel_written {read : Node → Except Fault α} {toValue : α → Value} {found : Option Node}
    {a : Option α} (h : Option.Rel (fun node a => read node = .ok a) found a) :
    Option.Rel (Written read toValue) found (a.map toValue) := by
  cases h with
  | none => exact .none
  | some h => exact .some ⟨_, h, rfl⟩

theorem rel_getElem? {A B : Type} {R : A → B → Prop} {as : List A} {bs : List B}
    (h : List.Forall₂ R as bs) (i : Nat) : Option.Rel R as[i]? bs[i]? := by
  induction h generalizing i with
  | nil => exact .none
  | cons hfirst _ ih =>
    cases i with
    | zero => exact .some hfirst
    | succ i => exact ih i

/-- The items of a list that was taken from a tree. -/
theorem rel_item {reader : Reader α} {found : Option Node} {as : Option (List α)}
    (h : Option.Rel (fun node as => Reader.sequence reader (room + 1) node = .ok as) found as)
    (i : Nat) :
    Option.Rel (fun node a => reader room node = .ok a)
      (found.bind fun node => node.part? (.item i)) (as.getD [])[i]? := by
  cases h with
  | none => exact .none
  | some h =>
    obtain ⟨start, items, rfl, hitems⟩ := Reader.sequence_eq_ok.mp h
    exact rel_getElem? hitems i

theorem Written.standFor_declaration
    (h : Written (Declaration.reader (room + 1)) Declaration.toValue node value) :
    StandFor (node.unknown Declaration.knownKeys) (value.unknown Declaration.knownKeys) := by
  obtain ⟨d, hd, rfl⟩ := h
  obtain ⟨start, ms, stop, s, rfl, hs, -, hextra⟩ := Declaration.reader_eq_ok hd
  rw [Declaration.toValue, unknown_append d.keys_known (Declaration.sound_of_reader hd).extra,
    ← hextra]
  exact ⟨room, s.extra, fields_of_members Declaration.Draft.keeps hs, rfl⟩

theorem Written.standFor_variant
    (h : Written (Variant.reader (room + 3)) Variant.toValue node value) :
    StandFor (node.unknown Variant.knownKeys) (value.unknown Variant.knownKeys) := by
  obtain ⟨v, hv, rfl⟩ := h
  obtain ⟨start, ms, stop, s, rfl, hs, -, -, hextra⟩ := Variant.reader_eq_ok hv
  rw [Variant.toValue, unknown_append v.keys_known (Variant.sound_of_reader hv).extra, ← hextra]
  exact ⟨room + 2, s.extra, fields_of_members Variant.Draft.keeps hs, rfl⟩

theorem Written.standFor_component
    (h : Written (Component.reader (room + 1)) Component.toValue node value) :
    StandFor (node.unknown Component.knownKeys) (value.unknown Component.knownKeys) := by
  obtain ⟨c, hc, rfl⟩ := h
  obtain ⟨start, ms, stop, s, rfl, hs, hextra⟩ := Component.reader_eq_ok hc
  rw [Component.toValue, unknown_append c.keys_known (Component.sound_of_reader hc).extra,
    ← hextra]
  exact ⟨room, s.extra, fields_of_members Component.Draft.keeps hs, rfl⟩

theorem Written.standFor_metadata
    (h : Written (Metadata.reader (room + 5)) Metadata.toValue node value) :
    StandFor (node.unknown Metadata.knownKeys) (value.unknown Metadata.knownKeys) := by
  obtain ⟨m, hm, rfl⟩ := h
  obtain ⟨start, ms, stop, s, rfl, hs, -, -, -, hextra⟩ := Metadata.reader_eq_ok hm
  rw [Metadata.toValue, unknown_append m.keys_known (Metadata.sound_of_reader hm).extra,
    ← hextra]
  exact ⟨room + 4, s.extra, fields_of_members Metadata.Draft.keeps hs, rfl⟩

/-- The component in written metadata. -/
theorem Written.component (h : Written (Metadata.reader (room + 1)) Metadata.toValue node value) :
    Option.Rel (Written (Component.reader room) Component.toValue)
      (node.at? [.key "component"]) (value.at? [.key "component"]) := by
  obtain ⟨m, hm, rfl⟩ := h
  obtain ⟨start, ms, stop, s, rfl, hs, hcomponent, -⟩ := Metadata.reader_eq_ok hm
  have htaken := taken_of_members Metadata.Draft.takes_component rfl hs
  rw [hcomponent] at htaken
  have hget : (m.known ++ m.extra.fields).get? "component" = some m.component.toValue := by
    simp [Metadata.known, Fields.get?_cons]
  rw [Node.at?_singleton, Value.at?_singleton, Metadata.toValue, Value.part?, hget]
  exact rel_written htaken

/-- A variant in written metadata. -/
theorem Written.variant (h : Written (Metadata.reader (room + 2)) Metadata.toValue node value)
    (i : Nat) :
    Option.Rel (Written (Variant.reader room) Variant.toValue)
      (node.at? [.key "variants", .item i]) (value.at? [.key "variants", .item i]) := by
  obtain ⟨m, hm, rfl⟩ := h
  obtain ⟨start, ms, stop, s, rfl, hs, -, -, hvariants, -⟩ := Metadata.reader_eq_ok hm
  have htaken := rel_item (taken_of_members Metadata.Draft.takes_variants rfl hs) i
  rw [hvariants] at htaken
  have hvalue : m.toValue.at? [.key "variants", .item i] = m.variants[i]?.map Variant.toValue := by
    rw [Metadata.toValue, Value.at?_key, m.get?_variants, Option.bind_some, Value.at?_singleton]
    exact List.getElem?_map
  rw [hvalue, Node.at?_key]
  simp only [Node.at?_singleton]
  exact rel_written htaken

/-- A declaration in a written variant. -/
theorem Written.declaration (h : Written (Variant.reader (room + 3)) Variant.toValue node value)
    (j : Nat) :
    Option.Rel (Written (Declaration.reader (room + 1)) Declaration.toValue)
      (node.at? [.key "dependencies", .item j]) (value.at? [.key "dependencies", .item j]) := by
  obtain ⟨v, hv, rfl⟩ := h
  have hextra : v.extra.get? "dependencies" = none :=
    (Variant.sound_of_reader hv).extra.get?_eq_none (by simp [Variant.knownKeys])
  obtain ⟨start, ms, stop, s, rfl, hs, -, hdependencies, -⟩ := Variant.reader_eq_ok hv
  have htaken := rel_item (taken_of_members Variant.Draft.takes_dependencies rfl hs) j
  rw [hdependencies] at htaken
  have hvalue : v.toValue.at? [.key "dependencies", .item j] =
      v.dependencies[j]?.map Declaration.toValue := by
    rw [Variant.toValue, Value.at?_key, Variant.get?_dependencies hextra]
    cases v.dependencies with
    | nil => rfl
    | cons d ds =>
      rw [Option.bind_some, Value.at?_singleton]
      exact List.getElem?_map
  rw [hvalue, Node.at?_key]
  simp only [Node.at?_singleton]
  exact rel_written htaken

/-- The unknown members of the version in a written declaration: there are none. -/
theorem Written.unknown_version
    (h : Written (Declaration.reader (room + 1)) Declaration.toValue node value) :
    (value.at? [.key "version"]).map (Value.unknown VersionConstraint.knownKeys) = none ∨
      (value.at? [.key "version"]).map (Value.unknown VersionConstraint.knownKeys) = some [] := by
  obtain ⟨d, hd, rfl⟩ := h
  have hextra : d.extra.fields.get? "version" = none :=
    (Declaration.sound_of_reader hd).extra.get?_eq_none (by simp [Declaration.knownKeys])
  obtain ⟨group, name, version, extra⟩ := d
  rw [Value.at?_singleton, Declaration.toValue, Value.part?]
  cases version with
  | none =>
    left
    simp [Declaration.known, Fields.get?_cons, hextra]
  | some version =>
    right
    have hnone : version.toValue.unknown VersionConstraint.knownKeys = [] := by
      have happend := unknown_append version.keys_known (Object.loose_empty _ 0)
      rwa [Object.fields_empty, List.append_nil] at happend
    simpa [Declaration.known, Fields.get?_cons] using hnone

end Written

/-! ## What is kept -/

theorem standFor_of_rel {R : Node → Value → Prop} {known : List String} {node : Option Node}
    {value : Option Value} (h : Option.Rel R node value)
    (hstand : ∀ n v, R n v → StandFor (n.unknown known) (v.unknown known)) :
    StandFor ((node.map (Node.unknown known)).getD [])
      ((value.map (Value.unknown known)).getD []) := by
  cases h with
  | none => exact standFor_nil.mpr rfl
  | some h => exact hstand _ _ h

namespace Level

variable {room : Nat} {root : Node} {out : Value}

/-- The declarations of written metadata. -/
theorem rel_declaration (h : Written (Metadata.reader (room + 5)) Metadata.toValue root out)
    (i j : Nat) :
    Option.Rel (Written (Declaration.reader (room + 1)) Declaration.toValue)
      (root.at? (declaration i j).path) (out.at? (declaration i j).path) := by
  have hpath : (declaration i j).path =
      (variant i).path ++ [.key "dependencies", .item j] := rfl
  rw [hpath, Node.at?_append, Value.at?_append]
  exact rel_bind (h.variant i) fun _ _ hv => hv.declaration j

/-- Nothing is written for the unknown members of versions. -/
theorem fields_version (h : Written (Metadata.reader (room + 5)) Metadata.toValue root out)
    (i j : Nat) : (version i j).fields out = [] := by
  have hpath : (version i j).path = (declaration i j).path ++ [.key "version"] := rfl
  rw [fields, hpath, Value.at?_append]
  cases hpart : out.at? (declaration i j).path with
  | none => rfl
  | some part =>
    have hrel := rel_declaration h i j
    rw [hpart] at hrel
    generalize root.at? (declaration i j).path = found at hrel
    cases hrel with
    | some hwritten =>
      rw [Option.bind_some]
      rcases hwritten.unknown_version with hnone | hnone
      · rw [knownKeys, hnone]
        rfl
      · rw [knownKeys, hnone]
        rfl

/-- A level keeps its unknown members unless it is a version that has some. -/
theorem keeps_of_written (h : Written (Metadata.reader (room + 5)) Metadata.toValue root out)
    (level : Level) :
    level.Keeps root out ↔ ∀ i j, level = version i j → level.members root = [] := by
  cases level with
  | document => exact iff_of_true h.standFor_metadata nofun
  | component =>
    exact iff_of_true (standFor_of_rel h.component fun _ _ hc => hc.standFor_component) nofun
  | variant i =>
    exact iff_of_true (standFor_of_rel (h.variant i) fun _ _ hv => hv.standFor_variant) nofun
  | declaration i j =>
    exact iff_of_true
      (standFor_of_rel (rel_declaration h i j) fun _ _ hd => hd.standFor_declaration) nofun
  | version i j =>
    rw [Keeps, fields_version h, standFor_nil]
    exact ⟨fun hmembers _ _ _ => hmembers, fun hmembers => hmembers i j rfl⟩

end Level

/-! ## What decoding and writing back keeps -/

/-- **Unknown members are kept if and only if no version has any.** Whatever the versions hold, all
other levels keep theirs: read as a value, the text that is written back holds them at the same
place, with the same values and in the same order. -/
theorem keeps_all_iff {text : String} {m : Metadata} (h : Metadata.decode text = .ok m)
    (hstable : m.toValue.Stable) :
    ∃ out, Content.ofText m.encode = .ok out ∧
      ((∀ level : Level, level.Keeps (Document.ofText text).root out.value) ↔
        ∀ i j, (Level.version i j).members (Document.ofText text).root = []) ∧
      ∀ level : Level, (∀ i j, level ≠ .version i j) →
        level.Keeps (Document.ofText text).root out.value := by
  have hread := (Metadata.ofJson_eq_ok.mp (Metadata.decode_eq_ok.mp h).1).1
  have hwritten : Written (Metadata.reader maxDepth) Metadata.toValue (Document.ofText text).root
      m.toValue := ⟨m, hread, rfl⟩
  have hkeeps := Level.keeps_of_written hwritten
  obtain ⟨out, hout, hvalue⟩ := Metadata.ofText_encode (Metadata.decoded_of_decode h) hstable
  rw [← hvalue] at hkeeps
  refine ⟨out, hout, ⟨fun hall i j => ?_, fun hnone level => ?_⟩, fun level hlevel => ?_⟩
  · exact (hkeeps (.version i j)).mp (hall _) i j rfl
  · refine (hkeeps level).mpr fun i j hlevel => ?_
    rw [hlevel]
    exact hnone i j
  · exact (hkeeps level).mpr fun i j heq => absurd heq (hlevel i j)

/-! ## A version that loses a member -/

/-- A document with a declaration that gives a reason and asks for a branch of a version. -/
def branchDocument : Value :=
  .object [("formatVersion", .string "1.1"),
    ("component", .object [("group", .string "junit"), ("module", .string "junit"),
      ("version", .string "4.13")]),
    ("variants", .array [.object [("name", .string "api"), ("dependencies", .array [.object
      [("group", .string "org.hamcrest"), ("module", .string "hamcrest-core"),
        ("version", .object [("requires", .string "1.3"), ("branch", .string "main")]),
        ("reason", .string "matchers")]])]])]

/-- What is read from the document: the reason, but not the branch. -/
def branchMetadata : Metadata :=
  ⟨"1.1", ⟨"junit", "junit", "4.13", .empty⟩, none, [⟨"api", .empty, [⟨"org.hamcrest",
    "hamcrest-core", some (.requiring "1.3"), Object.empty.insert "reason" (.string "matchers")⟩],
    .empty⟩], .empty⟩

set_option maxRecDepth 10000 in
theorem ofTokens_branch (size : Nat) :
    let document := Document.ofTokens size (Token.scan 0 (branchDocument.print .pretty 0 ['\n']))
    Metadata.reader maxDepth document.root = .ok branchMetadata ∧ document.trailing = none ∧
      ((Level.version 0 0).members document.root).isEmpty = false := by
  cbv

theorem ofText_branch :
    Metadata.ofJson (branchDocument.pretty ++ "\n") = .ok branchMetadata ∧
      (Level.version 0 0).members (Document.ofText (branchDocument.pretty ++ "\n")).root ≠ [] := by
  have htokens := ofTokens_branch (branchDocument.pretty ++ "\n").utf8ByteSize
  rw [← toList_pretty] at htokens
  obtain ⟨hread, htrailing, hmembers⟩ := htokens
  refine ⟨Metadata.ofJson_eq_ok.mpr ⟨hread, htrailing⟩, fun hnil => ?_⟩
  rw [Document.ofText] at hnil
  rw [hnil] at hmembers
  cases hmembers

theorem decode_branch : Metadata.decode (branchDocument.pretty ++ "\n") = .ok branchMetadata :=
  Metadata.decode_eq_ok.mpr ⟨ofText_branch.1, by decide, exists_of_isOk (by decide +kernel),
    by decide⟩

theorem stable_branch : branchMetadata.toValue.Stable := by
  simp [branchMetadata, Metadata.stable_toValue, Component.stable_toValue, Variant.stable_toValue,
    Declaration.stable_toValue, Fields.insert, Content.string]

/-- The reason of the declaration is kept. -/
theorem keeps_all_iff_branch :
    ∃ out, Content.ofText branchMetadata.encode = .ok out ∧
      (Level.declaration 0 0).Keeps (Document.ofText (branchDocument.pretty ++ "\n")).root
        out.value ∧
      (Level.declaration 0 0).fields out.value = [("reason", .string "matchers")] := by
  obtain ⟨out, hout, -, hkeeps⟩ := keeps_all_iff decode_branch stable_branch
  refine ⟨out, hout, hkeeps _ nofun, ?_⟩
  obtain ⟨c, hc, hvalue⟩ :=
    Metadata.ofText_encode (Metadata.decoded_of_decode decode_branch) stable_branch
  cases hout.symm.trans hc
  rw [hvalue]
  cbv

/-- The branch of the version is lost. -/
theorem not_keeps_all_branch :
    ∃ m out, Metadata.decode (branchDocument.pretty ++ "\n") = .ok m ∧ m.toValue.Stable ∧
      Content.ofText m.encode = .ok out ∧
      ¬ ∀ level : Level,
        level.Keeps (Document.ofText (branchDocument.pretty ++ "\n")).root out.value := by
  have hread := (Metadata.ofJson_eq_ok.mp ofText_branch.1).1
  have hwritten : Written (Metadata.reader maxDepth) Metadata.toValue
      (Document.ofText (branchDocument.pretty ++ "\n")).root branchMetadata.toValue :=
    ⟨_, hread, rfl⟩
  obtain ⟨out, hout, hvalue⟩ :=
    Metadata.ofText_encode (Metadata.decoded_of_decode decode_branch) stable_branch
  rw [← hvalue] at hwritten
  refine ⟨branchMetadata, out, decode_branch, stable_branch, hout, fun hall => ?_⟩
  have hkeeps := Level.keeps_of_written hwritten (.version 0 0)
  exact ofText_branch.2 (hkeeps.mp (hall _) 0 0 rfl)

end ComponentRules
