import ComponentRules.Proofs.Files.Effects

/-!
# Replacing a file

A text that is written to a path replaces the file there as a whole, or nothing happens. In the
first case the path leads to a file with the text and the old mode, which is read back as the text,
and nothing else has changed: the staged file is gone, and the targets of links are as they were.
In the second case the tree is the one before. Some paths have no place for a file, whatever the
tree holds.

* `FileTree.Closed`: paths to which nothing can be written.
* `FileTree.writeStaged_replaces`: what writing to a path does.
-/

namespace ComponentRules

open Text

namespace FileTree

open Outcome

variable {tree after : FileTree} {path content : String} {location : Location}

/-! ## Paths to which nothing can be written -/

/-- Paths that a link or a directory has, that are empty, end with a slash or with two points, or
whose directory is not there. -/
inductive Closed (tree : FileTree) : String → Prop
  | link {path target : String} : tree.look false path = .ok (.link target) → Closed tree path
  | directory {path : String} : tree.look false path = .ok .directory → Closed tree path
  | empty : Closed tree ""
  | slash (front : String) : Closed tree (front ++ "/")
  | points : Closed tree ".."
  | behind (front : String) : Closed tree (front ++ "/..")
  | orphan {path : String} : tree.look true (directoryOf path) ≠ .ok .directory → Closed tree path

theorem endsWithSlash_append (front : String) : endsWithSlash (front ++ "/") = true := by
  rw [endsWithSlash, String.toList_append]
  simp

theorem names_behind (front : String) : names (front ++ "/..") = names front ++ [['.', '.']] := by
  have hsplit : splitOn '/' (front ++ "/..").toList = splitOn '/' front.toList ++ [['.', '.']] := by
    rw [String.toList_append]
    exact splitOn_append '/' front.toList ['.', '.']
  rw [names, hsplit, List.filter_append]
  rfl

theorem look_eq_ok_of_target (htarget : tree.target path = .ok location) {entry : Entry} :
    tree.look false path = .ok entry ↔ tree.find? location = some entry := by
  rw [look_of_target htarget]
  cases tree.find? location <;> simp

/-- If a closed path has a place, it is not open. -/
theorem Closed.not_open (h : tree.Closed path) (htarget : tree.target path = .ok location) :
    ¬ tree.Open location := by
  intro hopen
  obtain ⟨hfault, hslash, front, name, parent, hnames, hname, -, rfl⟩ := target_eq_ok.mp htarget
  cases h with
  | link hlook =>
    obtain ⟨_, _, hfile⟩ := hopen _ ((look_eq_ok_of_target htarget).mp hlook)
    cases hfile
  | directory hlook =>
    obtain ⟨_, _, hfile⟩ := hopen _ ((look_eq_ok_of_target htarget).mp hlook)
    cases hfile
  | empty => cases hfault
  | slash start =>
    rw [endsWithSlash_append] at hslash
    cases hslash
  | points =>
    have hpoints : names ".." = [] ++ [['.', '.']] := by decide
    rw [hpoints] at hnames
    cases (List.append_inj' hnames rfl).2
    exact hname.1 (.inr rfl)
  | behind start =>
    rw [names_behind] at hnames
    cases (List.append_inj' hnames rfl).2
    exact hname.1 (.inr rfl)
  | orphan horphan =>
    obtain ⟨above, habove, hrooted⟩ := directory_of_target htarget
    exact horphan (look_eq_ok.mpr ⟨above, habove, hrooted.find?⟩)

/-! ## What is written, and what is read -/

/-- The name of the staged file makes no difference. -/
theorem writeAs_eq_writeStaged {name : List Char} (hname : name ∉ tree.mentioned ++ steps path)
    (hpoint : name ≠ ['.']) (content : String) :
    tree.writeAs name path content = tree.writeStaged path content := by
  rw [writeAs_eq hname hpoint, writeStaged_eq]

/-- What is at an open place before and after a text is written there. -/
theorem mode_of_open (htarget : tree.target path = .ok location) (hopen : tree.Open location) :
    (∃ old, tree.look false path = .ok (.file old (tree.modeAt location))) ∨
      (tree.look false path = .error .notFound ∧ tree.modeAt location = tree.newFileMode) := by
  rw [look_of_target htarget, modeAt]
  cases hfind : tree.find? location with
  | none => exact .inr ⟨rfl, rfl⟩
  | some entry =>
    obtain ⟨old, mode, rfl⟩ := hopen entry hfind
    exact .inl ⟨old, rfl⟩

/-- **Writing replaces a file or does nothing.** A write that fails leaves the tree as it was. One
that succeeds goes to a path where a file was, whose mode is kept, or nothing. The path then leads
to a file with the text, which is read back as the text if its mode lets it be read. All other
entries are the ones before, so nothing is left of the staged file, whose name makes no difference.
Writing to a closed path fails. -/
theorem writeStaged_replaces (tree : FileTree) (path content : String) :
    (∀ after problem, tree.writeStaged path content = (after, .error problem) → after = tree) ∧
    (∀ after, tree.writeStaged path content = (after, .ok ()) →
      ∃ location mode,
        ((∃ old, tree.look false path = .ok (.file old mode)) ∨
          (tree.look false path = .error .notFound ∧ mode = tree.newFileMode)) ∧
        after.resolve false path = .ok location ∧
        after.find? location = some (.file content.toUTF8 mode) ∧
        (∀ limit, content.toUTF8.size ≤ limit → after.readMetadata limit path =
          if (Entry.file content.toUTF8 mode).isReadable then .ok content
          else .fail (.cannotRead path FileFault.permissionDenied.message)) ∧
        after.home = tree.home ∧ after.mask = tree.mask ∧
        ∀ other, other ≠ location → after.find? other = tree.find? other) ∧
    (∀ name, name ∉ tree.mentioned ++ steps path → name ≠ ['.'] →
      tree.writeAs name path content = tree.writeStaged path content) ∧
    (tree.Closed path → ∃ problem, tree.writeStaged path content = (tree, .error problem)) := by
  refine ⟨fun after problem h => tree_of_writeStaged h, fun after h => ?_,
    fun name hname hpoint => writeAs_eq_writeStaged hname hpoint content, fun hclosed => ?_⟩
  · obtain ⟨location, htarget, hopen, rfl⟩ := writeStaged_eq_ok.mp h
    have hafter := (hopen.extends content.toUTF8 (tree.modeAt location)).target htarget
    have hfind := find?_put_self tree (.file content.toUTF8 (tree.modeAt location))
      hopen.not_isPrefixOf
    have hlook := (look_eq_ok_of_target hafter).mpr hfind
    have hresolve := resolve_of_target hafter
    rw [hfind] at hresolve
    exact ⟨location, tree.modeAt location, mode_of_open htarget hopen, hresolve, hfind,
      fun limit hsize => readMetadata_of_file hlook hsize, rfl, rfl,
      fun other hother => find?_put_of_ne tree _ hother⟩
  · rcases hresult : tree.writeStaged path content with ⟨after, problem | ⟨⟩⟩
    · exact ⟨problem, by rw [tree_of_writeStaged hresult]⟩
    · obtain ⟨location, htarget, hopen, -⟩ := writeStaged_eq_ok.mp hresult
      exact absurd hopen (hclosed.not_open htarget)

end FileTree

end ComponentRules
