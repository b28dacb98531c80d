import ComponentRules.Files.Staging
import ComponentRules.Proofs.Files.Writing
import Mathlib.Data.List.Nodup
import Mathlib.Data.List.Perm.Subperm

/-!
# Nothing is left of staged files

A staged file has a name that stands nowhere else in the tree and on no path that is written to. So
no walk meets it, and in the end it is gone: writing by way of it is writing in one step.

* `freshName_not_mem`: a fresh name stands nowhere else.
* `writeStaged_eq`: a staged write is a write in one step, or leaves the tree as it was.
-/

namespace ComponentRules.FileTree

open Outcome

variable {tree : FileTree} {path : String} {name : List Char}

/-! ## Fresh names -/

theorem stagedName_injective : Function.Injective stagedName := by
  intro a b h
  have hlength := congrArg List.length h
  simpa [stagedName] using hlength

theorem freshName_not_mem (others : List (List Char)) : freshName others ∉ others := by
  have hexists : ∃ number ∈ List.range (others.length + 1), stagedName number ∉ others := by
    -- there are more numbers than names
    by_contra hall
    push Not at hall
    have hsubset : (List.range (others.length + 1)).map stagedName ⊆ others := by
      intro name hname
      obtain ⟨number, hnumber, rfl⟩ := List.mem_map.mp hname
      exact hall number hnumber
    have hnodup : ((List.range (others.length + 1)).map stagedName).Nodup :=
      List.nodup_range.map stagedName_injective
    have hle := (List.subperm_of_subset hnodup hsubset).length_le
    rw [List.length_map, List.length_range] at hle
    omega
  obtain ⟨number, hnumber, hfresh⟩ := hexists
  have hsome : ((List.range (others.length + 1)).find? fun number =>
      !others.contains (stagedName number)).isSome = true :=
    List.find?_isSome.mpr ⟨number, hnumber, by simpa using hfresh⟩
  obtain ⟨found, hfound⟩ := Option.isSome_iff_exists.mp hsome
  rw [freshName, hfound]
  simpa using List.find?_some hfound

/-! ## Names that a tree does not mention -/

theorem mem_entries_of_find? {location : Location} {entry : Entry}
    (h : tree.find? location = some entry) (hne : entry ≠ .directory) :
    (location, entry) ∈ tree.entries := by
  unfold find? at h
  split at h
  · cases h
    exact absurd rfl hne
  · obtain ⟨before, after, hentries, -⟩ := List.lookup_eq_some_iff.mp h
    rw [hentries]
    exact List.mem_append_right _ List.mem_cons_self

theorem unlinked_of_not_mem (h : name ∉ tree.mentioned) : tree.Unlinked name := by
  intro location target hfind hmem
  have hentry := mem_entries_of_find? hfind nofun
  refine h (List.mem_append_right _ (List.mem_flatMap.mpr ⟨_, hentry, ?_⟩))
  exact List.mem_append_right _ hmem

theorem not_mem_of_mem_entries (h : name ∉ tree.mentioned) {e : Location × Entry}
    (he : e ∈ tree.entries) : name ∉ e.1 := by
  intro hmem
  refine h (List.mem_append_right _ (List.mem_flatMap.mpr ⟨e, he, ?_⟩))
  obtain ⟨location, entry⟩ := e
  cases entry with
  | link target => exact List.mem_append_left _ hmem
  | directory => exact hmem
  | file content mode => exact hmem

/-! ## A staged file on its way -/

theorem put_put (location : Location) (first second : Entry) :
    (tree.put location first).put location second = tree.put location second := by
  simp [put]

theorem erase_put {location : Location} (h : ∀ e ∈ tree.entries, e.1 ≠ location) (entry : Entry) :
    (tree.put location entry).erase location = tree := by
  have hkept : tree.entries.filter (fun old => old.1 != location) = tree.entries :=
    List.filter_eq_self.mpr fun e he => by simpa using h e he
  simp [put, erase, hkept]

theorem move_put {location destination : Location} (h : ∀ e ∈ tree.entries, e.1 ≠ location)
    (hhome : ¬ location.isPrefixOf tree.home) (entry : Entry) :
    (tree.put location entry).move location destination = tree.put destination entry := by
  rw [move, find?_put_self tree entry hhome]
  simp only
  rw [erase_put h]

section

variable (directory : Location) (entry : Entry)

theorem resolve_put_of_unlinked (hlinks : tree.Unlinked name) (hsteps : name ∉ steps path)
    (follow : Bool) :
    (tree.put (directory ++ [name]) entry).resolve follow path = tree.resolve follow path := by
  unfold resolve
  split
  · rfl
  · exact walk_put_of_unlinked hlinks directory entry hsteps

theorem target_put_of_unlinked (hlinks : tree.Unlinked name) (hsteps : name ∉ steps path)
    (hpoint : name ≠ ['.']) :
    (tree.put (directory ++ [name]) entry).target path = tree.target path := by
  have hfront : name ∉ (names path).dropLast ++ [['.']] := by
    rw [List.mem_append, List.mem_singleton, not_or]
    exact ⟨fun h => hsteps (List.mem_append_left _ (List.dropLast_subset _ h)), hpoint⟩
  unfold target
  have hwalk : (tree.put (directory ++ [name]) entry).walk true maxLinks
      (origin (tree.put (directory ++ [name]) entry).home path)
      ((names path).dropLast ++ [['.']]) = tree.walk true maxLinks (origin tree.home path)
        ((names path).dropLast ++ [['.']]) :=
    walk_put_of_unlinked hlinks directory entry hfront
  rw [hwalk]

/-- The mode that the staged file takes over is that of the file at the place of the path. -/
theorem modeOf_put_of_unlinked {location : Location} (htarget : tree.target path = .ok location)
    (hopen : tree.Open location) (hlinks : tree.Unlinked name) (hsteps : name ∉ steps path) :
    (tree.put (directory ++ [name]) entry).modeOf path = tree.modeAt location := by
  have hresolve := resolve_put_of_unlinked directory entry hlinks hsteps true
  have hne : location ≠ directory ++ [name] := by
    obtain ⟨-, -, front, last, parent, hnames, -, -, rfl⟩ := target_eq_ok.mp htarget
    intro heq
    cases (List.append_inj' heq rfl).2
    refine hsteps (List.mem_append_left _ ?_)
    rw [hnames]
    exact List.mem_append_right _ (List.mem_singleton_self _)
  have hlink : ∀ target, tree.find? location ≠ some (.link target) := by
    intro target hfind
    obtain ⟨content, mode, hfile⟩ := hopen _ hfind
    cases hfile
  have hthere : ∀ found, (tree.put (directory ++ [name]) entry).look true path = .ok found ↔
      tree.find? location = some found := by
    intro found
    rw [look_eq_ok, hresolve]
    constructor
    · rintro ⟨there, hthere, hfound⟩
      obtain ⟨-, rfl⟩ := (resolve_true_of_target htarget hlink).mp hthere
      rwa [find?_put_of_ne tree entry hne] at hfound
    · intro hfound
      refine ⟨location, (resolve_true_of_target htarget hlink).mpr ⟨?_, rfl⟩, ?_⟩
      · rw [hfound]
        exact Option.some_ne_none found
      · rwa [find?_put_of_ne tree entry hne]
  unfold modeOf modeAt
  cases hfind : tree.find? location with
  | none =>
    split
    · rename_i content mode hfile
      rw [hthere, hfind] at hfile
      cases hfile
    · rfl
  | some found =>
    obtain ⟨content, mode, rfl⟩ := hopen found hfind
    rw [(hthere _).mpr hfind]

end

/-! ## Staged writes -/

theorem isDirectory_eq_isSome (tree : FileTree) (path : String) :
    tree.isDirectory path = (tree.directoryAt? path).isSome := by
  unfold isDirectory directoryAt? look
  cases tree.resolve true path with
  | error fault => rfl
  | ok location =>
    simp only [bind, Except.bind]
    cases tree.find? location with
    | none => rfl
    | some entry => cases entry <;> rfl

/-- **A staged write is a write in one step**, whatever the name of the staged file, if it stands
nowhere else. A write that fails leaves the tree as it was. -/
theorem writeAs_eq (hname : name ∉ tree.mentioned ++ steps path) (hpoint : name ≠ ['.'])
    (content : String) :
    tree.writeAs name path content =
      match tree.write path content with
      | .ok after => (after, .ok ())
      | .error problem => (tree, .error problem) := by
  rw [List.mem_append, not_or] at hname
  obtain ⟨hmentioned, hsteps⟩ := hname
  have hlinks := unlinked_of_not_mem hmentioned
  unfold writeAs write
  cases hcheck : tree.checkOutput path with
  | error problem => rfl
  | ok u =>
    have hdirectory := isDirectory_eq_isSome tree (directoryOf path)
    cases hparent : tree.directoryAt? (directoryOf path) with
    | none =>
      rw [hparent, Option.isSome_none] at hdirectory
      simp only [hdirectory, bind, Except.bind]
      rfl
    | some directory =>
      rw [hparent, Option.isSome_some] at hdirectory
      have hstaged : ∀ e ∈ tree.entries, e.1 ≠ directory ++ [name] := by
        intro e he heq
        refine not_mem_of_mem_entries hmentioned he ?_
        rw [heq]
        exact List.mem_append_right _ (List.mem_singleton_self name)
      have hhome : ¬ (directory ++ [name]).isPrefixOf tree.home := by
        intro hbegin
        refine hmentioned (List.mem_append_left _ ?_)
        exact (List.isPrefixOf_iff_prefix.mp hbegin).subset
          (List.mem_append_right _ (List.mem_singleton_self name))
      simp only [hdirectory, bind, Except.bind, put_put]
      rw [target_put_of_unlinked directory _ hlinks hsteps hpoint]
      cases htarget : tree.target path with
      | error fault =>
        simp only [erase_put hstaged]
        rfl
      | ok location =>
        have hopen := (checkOutput_of_target htarget).mp hcheck
        simp only [move_put hstaged hhome, modeOf_put_of_unlinked directory _ htarget hopen hlinks
          hsteps]
        rfl

/-- **A staged write is a write in one step**, or it fails and leaves the tree as it was. -/
theorem writeStaged_eq (content : String) :
    tree.writeStaged path content =
      match tree.write path content with
      | .ok after => (after, .ok ())
      | .error problem => (tree, .error problem) := by
  refine writeAs_eq (freshName_not_mem _) ?_ content
  unfold freshName stagedName
  simp

end ComponentRules.FileTree
