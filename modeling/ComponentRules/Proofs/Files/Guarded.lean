import ComponentRules.Proofs.Files.Effects

/-!
# Guarded reading

A metadata file is looked at before it is read: links at the end of its path are not followed, and
it must be a file of a bounded size. Then it is opened, and this time links are followed. Both times
the path leads to the same file, so that opening it can only fail because it may not be read or holds
no text.

* `FileTree.Offers`: the bytes that a path offers to be read.
* `FileTree.Insecure`, `FileTree.Refused`: what is not read for the sake of security, and every
  failure with its reason.
* `offers_or_refused`: a path either offers a text or is refused.
* `readMetadata_exact`: what is read, and what the failures are.
-/

namespace ComponentRules.FileTree

open Outcome

variable {tree : FileTree} {limit : Nat} {path text : String}

/-! ## What a path offers -/

/-- Whether these bytes can be read: the path leads to a file with them, and a link at its end is not
followed; the file may be read and is not too large. -/
def Offers (tree : FileTree) (limit : Nat) (path : String) (content : ByteArray) : Prop :=
  ∃ mode, tree.look false path = .ok (.file content mode) ∧
    (Entry.file content mode).isReadable = true ∧ content.size ≤ limit

/-- Whether a path leads to a link or to a file that is too large. -/
def Insecure (tree : FileTree) (limit : Nat) (path : String) : Prop :=
  (∃ target, tree.look false path = .ok (.link target)) ∨
    ∃ content mode, tree.look false path = .ok (.file content mode) ∧ limit < content.size

/-- Why nothing is read. -/
inductive Refused (tree : FileTree) (limit : Nat) (path : String) : Failure → Prop
  | missing : tree.look false path = .error .notFound →
      Refused tree limit path (.metadataNotFound path)
  | unreachable {fault : FileFault} : tree.look false path = .error fault → fault ≠ .notFound →
      Refused tree limit path (.cannotRead path fault.message)
  | link {target : String} : tree.look false path = .ok (.link target) →
      Refused tree limit path (.insecure path "Input is a symbolic link"
        "Pass the resolved file path instead of the link")
  | directory : tree.look false path = .ok .directory →
      Refused tree limit path (.cannotRead path "Not a regular file")
  | tooLarge {content : ByteArray} {mode : Nat} :
      tree.look false path = .ok (.file content mode) → limit < content.size →
      Refused tree limit path (.insecure path
        ("File is too large (" ++ Text.decimal content.size ++
          " bytes). Maximum allowed size is " ++ Text.decimal limit ++ " bytes")
        "Module metadata files are small JSON documents; check the input path")
  | locked {content : ByteArray} {mode : Nat} :
      tree.look false path = .ok (.file content mode) → content.size ≤ limit →
      (Entry.file content mode).isReadable = false →
      Refused tree limit path (.cannotRead path FileFault.permissionDenied.message)
  | notText {content : ByteArray} : tree.Offers limit path content → ¬ content.IsValidUTF8 →
      Refused tree limit path (.cannotRead path FileFault.notText.message)

/-- A path offers a text, or it is refused for one of the reasons. -/
theorem offers_or_refused (tree : FileTree) (limit : Nat) (path : String) :
    (∃ text : String, tree.Offers limit path text.toUTF8) ∨
      ∃ failure, tree.Refused limit path failure := by
  cases hlook : tree.look false path with
  | error fault =>
    by_cases hmissing : fault = .notFound
    · exact .inr ⟨_, .missing (hmissing ▸ hlook)⟩
    · exact .inr ⟨_, .unreachable hlook hmissing⟩
  | ok entry =>
    cases entry with
    | directory => exact .inr ⟨_, .directory hlook⟩
    | link target => exact .inr ⟨_, .link hlook⟩
    | file content mode =>
      by_cases hsize : limit < content.size
      · exact .inr ⟨_, .tooLarge hlook hsize⟩
      have hsize := Nat.le_of_not_lt hsize
      cases hreadable : (Entry.file content mode).isReadable with
      | false => exact .inr ⟨_, .locked hlook hsize hreadable⟩
      | true =>
        have hoffers : tree.Offers limit path content := ⟨mode, hlook, hreadable, hsize⟩
        by_cases hvalid : content.IsValidUTF8
        · exact .inl ⟨⟨content, hvalid⟩, hoffers⟩
        · exact .inr ⟨_, .notText hoffers hvalid⟩

/-! ## Looking and opening -/

theorem inspect_of_file {content : ByteArray} {mode : Nat}
    (hlook : tree.look false path = .ok (.file content mode)) (hsize : content.size ≤ limit) :
    tree.inspect limit path = .ok content.size := by
  rw [inspect, hlook]
  simp only
  rw [if_neg (Nat.not_lt.mpr hsize)]

/-- Nothing more is looked at if the first look fails. -/
theorem readMetadata_of_inspect {failure : Failure}
    (h : tree.inspect limit path = Attempt.fail failure) :
    tree.readMetadata limit path = Attempt.fail failure := by
  rw [readMetadata, h]
  rfl

/-- The file that was looked at is the one that is opened. -/
theorem readMetadata_of_readText {content : ByteArray} {mode : Nat} {fault : FileFault}
    (hlook : tree.look false path = .ok (.file content mode)) (hsize : content.size ≤ limit)
    (hread : tree.readText path = .error fault) :
    tree.readMetadata limit path = .fail (.cannotRead path fault.message) := by
  rw [readMetadata, inspect_of_file hlook hsize, hread]
  rfl

theorem readMetadata_of_offers (h : tree.Offers limit path text.toUTF8) :
    tree.readMetadata limit path = .ok text := by
  obtain ⟨mode, hlook, hreadable, hsize⟩ := h
  rw [readMetadata_of_file hlook hsize, if_pos hreadable]

theorem readMetadata_of_refused {failure : Failure} (h : tree.Refused limit path failure) :
    tree.readMetadata limit path = .fail failure := by
  cases h with
  | missing hlook =>
    apply readMetadata_of_inspect
    rw [inspect, hlook]
  | @unreachable fault hlook hfault =>
    apply readMetadata_of_inspect
    rw [inspect, hlook]
    cases fault with
    | notFound => exact absurd rfl hfault
    | _ => rfl
  | link hlook =>
    apply readMetadata_of_inspect
    rw [inspect, hlook]
  | directory hlook =>
    apply readMetadata_of_inspect
    rw [inspect, hlook]
  | tooLarge hlook hsize =>
    apply readMetadata_of_inspect
    rw [inspect, hlook]
    simp only
    rw [if_pos hsize]
  | locked hlook hsize hreadable =>
    refine readMetadata_of_readText hlook hsize ?_
    rw [readText, look_true_of_file hlook]
    simp only [bind, Except.bind, hreadable]
    rfl
  | notText hoffers hvalid =>
    obtain ⟨mode, hlook, hreadable, hsize⟩ := hoffers
    refine readMetadata_of_readText hlook hsize ?_
    rw [readText, look_true_of_file hlook]
    simp only [bind, Except.bind, hreadable, String.fromUTF8?, dif_neg hvalid]
    rfl

/-! ## What is read -/

/-- A text is read if and only if its bytes are offered. -/
theorem readMetadata_eq_ok_iff :
    tree.readMetadata limit path = .ok text ↔ tree.Offers limit path text.toUTF8 := by
  refine ⟨fun h => ?_, readMetadata_of_offers⟩
  rcases offers_or_refused tree limit path with ⟨offered, hoffered⟩ | ⟨failure, hrefused⟩
  · cases h.symm.trans (readMetadata_of_offers hoffered)
    exact hoffered
  · cases h.symm.trans (readMetadata_of_refused hrefused)

/-- Reading fails if and only if the path is refused, and for the same reason. -/
theorem readMetadata_eq_fail_iff {failure : Failure} :
    tree.readMetadata limit path = .fail failure ↔ tree.Refused limit path failure := by
  refine ⟨fun h => ?_, readMetadata_of_refused⟩
  rcases offers_or_refused tree limit path with ⟨offered, hoffered⟩ | ⟨failure, hrefused⟩
  · cases h.symm.trans (readMetadata_of_offers hoffered)
  · cases h.symm.trans (readMetadata_of_refused hrefused)
    exact hrefused

theorem exists_readMetadata_iff :
    (∃ text, tree.readMetadata limit path = .ok text) ↔
      ∃ content, tree.Offers limit path content ∧ content.IsValidUTF8 := by
  simp only [readMetadata_eq_ok_iff]
  constructor
  · rintro ⟨text, htext⟩
    exact ⟨text.toUTF8, htext, text.isValidUTF8⟩
  · rintro ⟨content, hoffers, hvalid⟩
    exact ⟨⟨content, hvalid⟩, hoffers⟩

/-- A text is still read under a larger limit. -/
theorem Offers.mono {content : ByteArray} {larger : Nat} (h : tree.Offers limit path content)
    (hlarger : limit ≤ larger) : tree.Offers larger path content := by
  obtain ⟨mode, hlook, hreadable, hsize⟩ := h
  exact ⟨mode, hlook, hreadable, Nat.le_trans hsize hlarger⟩

/-! ## The failures -/

theorem readMetadata_missing_iff :
    tree.readMetadata limit path = .fail (.metadataNotFound path) ↔
      tree.look false path = .error .notFound := by
  rw [readMetadata_eq_fail_iff]
  constructor
  · rintro ⟨hlook⟩
    exact hlook
  · exact .missing

theorem readMetadata_insecure_iff :
    (∃ reason hint, tree.readMetadata limit path = .fail (.insecure path reason hint)) ↔
      tree.Insecure limit path := by
  simp only [readMetadata_eq_fail_iff]
  constructor
  · rintro ⟨reason, hint, hrefused⟩
    cases hrefused with
    | link hlink => exact .inl ⟨_, hlink⟩
    | tooLarge hlook hlarge => exact .inr ⟨_, _, hlook, hlarge⟩
  · rintro (⟨target, hlink⟩ | ⟨content, mode, hlook, hlarge⟩)
    · exact ⟨_, _, .link hlink⟩
    · exact ⟨_, _, .tooLarge hlook hlarge⟩

/-- All other paths cannot be read. -/
theorem readMetadata_cannotRead_iff :
    (∃ details, tree.readMetadata limit path = .fail (.cannotRead path details)) ↔
      (¬ ∃ content, tree.Offers limit path content ∧ content.IsValidUTF8) ∧
        tree.look false path ≠ .error .notFound ∧ ¬ tree.Insecure limit path := by
  rw [← exists_readMetadata_iff, ← readMetadata_insecure_iff, ne_eq,
    ← @readMetadata_missing_iff tree limit path]
  constructor
  · rintro ⟨details, h⟩
    rw [h]
    refine ⟨?_, nofun, ?_⟩
    · rintro ⟨text, htext⟩
      cases htext
    · rintro ⟨reason, hint, hinsecure⟩
      cases hinsecure
  · rintro ⟨hread, hmissing, hinsecure⟩
    rcases offers_or_refused tree limit path with ⟨text, hoffered⟩ | ⟨failure, hrefused⟩
    · exact absurd ⟨text, readMetadata_of_offers hoffered⟩ hread
    have hfail := readMetadata_of_refused hrefused
    cases hrefused with
    | missing hlook => exact absurd hfail hmissing
    | link hlook => exact absurd ⟨_, _, hfail⟩ hinsecure
    | tooLarge hlook hlarge => exact absurd ⟨_, _, hfail⟩ hinsecure
    | unreachable hlook hfault => exact ⟨_, hfail⟩
    | directory hlook => exact ⟨_, hfail⟩
    | locked hlook hsize hreadable => exact ⟨_, hfail⟩
    | notText hoffers hvalid => exact ⟨_, hfail⟩

/-- **Reading is exact.** A text is read if and only if the path, with a link at its end not
followed, leads to a file that may be read, is not too large and holds the bytes of this text. Its
size is what inspecting the path tells, and a larger limit makes no difference. Otherwise the failure
is that the file is not found if and only if the path leads nowhere, it is one of security if and
only if the path leads to a link or to a file that is too large, and in all other cases the file
cannot be read. -/
theorem readMetadata_exact (tree : FileTree) (limit : Nat) (path : String) :
    (∀ text : String,
      tree.readMetadata limit path = .ok text ↔ tree.Offers limit path text.toUTF8) ∧
    ((∃ text, tree.readMetadata limit path = .ok text) ↔
      ∃ content, tree.Offers limit path content ∧ content.IsValidUTF8) ∧
    (∀ text, tree.readMetadata limit path = .ok text →
      tree.inspect limit path = .ok text.utf8ByteSize ∧
        ∀ larger, limit ≤ larger → tree.readMetadata larger path = .ok text) ∧
    (tree.readMetadata limit path = .fail (.metadataNotFound path) ↔
      tree.look false path = .error .notFound) ∧
    ((∃ reason hint, tree.readMetadata limit path = .fail (.insecure path reason hint)) ↔
      tree.Insecure limit path) ∧
    ((∃ details, tree.readMetadata limit path = .fail (.cannotRead path details)) ↔
      (¬ ∃ content, tree.Offers limit path content ∧ content.IsValidUTF8) ∧
        tree.look false path ≠ .error .notFound ∧ ¬ tree.Insecure limit path) := by
  refine ⟨fun text => readMetadata_eq_ok_iff, exists_readMetadata_iff, fun text htext => ?_,
    readMetadata_missing_iff, readMetadata_insecure_iff, readMetadata_cannotRead_iff⟩
  have hoffers := readMetadata_eq_ok_iff.mp htext
  refine ⟨?_, fun larger hlarger => readMetadata_of_offers (hoffers.mono hlarger)⟩
  obtain ⟨mode, hlook, -, hsize⟩ := hoffers
  exact inspect_of_file hlook hsize

/-- A tree with a small file of some mode in its root, which is the working directory. -/
def withMode (mode : Nat) : FileTree :=
  ⟨[], 0o022, [(["a.module".toList], .file "{}".toUTF8 mode)]⟩

theorem look_withMode (mode : Nat) :
    (withMode mode).look false "a.module" = .ok (.file "{}".toUTF8 mode) := by
  have hpath : pathFault? "a.module" = none := by decide
  have hsteps : steps "a.module" = ["a.module".toList] := by decide
  have hname : IsName "a.module".toList := ⟨by unfold IsDots; decide, by decide⟩
  exact look_single hpath hsteps hname

theorem size_braces : "{}".toUTF8.size = 2 := by decide

/-- A file of two bytes is read under the limit 2 and larger ones, and is too large for less. -/
theorem readMetadata_exact_braces :
    (withMode 0o644).readMetadata 2 "a.module" = .ok "{}" ∧
      (withMode 0o644).inspect 2 "a.module" = .ok 2 ∧
      (∀ larger, 2 ≤ larger → (withMode 0o644).readMetadata larger "a.module" = .ok "{}") ∧
      ∃ reason hint, (withMode 0o644).readMetadata 1 "a.module" =
        .fail (.insecure "a.module" reason hint) := by
  obtain ⟨htext, -, hread, -⟩ := readMetadata_exact (withMode 0o644) 2 "a.module"
  have hbraces := (htext "{}").mpr ⟨0o644, look_withMode 0o644, by decide,
    Nat.le_of_eq size_braces⟩
  obtain ⟨hinspect, hlarger⟩ := hread _ hbraces
  obtain ⟨-, -, -, -, hinsecure, -⟩ := readMetadata_exact (withMode 0o644) 1 "a.module"
  refine ⟨hbraces, hinspect, hlarger, hinsecure.mpr (.inr ⟨_, _, look_withMode 0o644, ?_⟩)⟩
  rw [size_braces]
  decide

/-- That the path leads to a small file that holds a text does not suffice to read it: the file may
have a mode that forbids it. -/
theorem not_readMetadata_locked :
    ¬ ((∃ text, (withMode 0).readMetadata maxFileSize "a.module" = .ok text) ↔
      ∃ content mode, (withMode 0).look false "a.module" = .ok (.file content mode) ∧
        content.size ≤ maxFileSize ∧ content.IsValidUTF8) := by
  intro h
  have hsize : "{}".toUTF8.size ≤ maxFileSize := by
    rw [size_braces]
    decide
  obtain ⟨text, htext⟩ := h.mpr ⟨_, 0, look_withMode 0, hsize, String.isValidUTF8 "{}"⟩
  have hlocked := readMetadata_of_refused (.locked (look_withMode 0) hsize rfl)
  cases htext.symm.trans hlocked

end ComponentRules.FileTree
