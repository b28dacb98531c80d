import ComponentRules.Proofs.Files.Directories

/-!
# Written files

A file goes to the place that its path has for it. This is the place where the path leads, if it
leads to a file already; else nothing is there. So whatever could be read through a path can be
written through it.

* `target_eq_ok`: what it takes for a path to have a place.
* `look_of_target`: what the path leads to is what stands at its place.
* `exists_target_of_look`: a path that leads to a file has a place.
* `write_eq_ok`: what it takes to write a file, and what is written.
-/

namespace ComponentRules.FileTree

open Outcome

variable {tree : FileTree} {path : String} {location : Location}

/-! ## The place of a file -/

theorem steps_of_names (hslash : endsWithSlash path = false) : steps path = names path := by
  rw [steps, hslash]
  exact List.append_nil _

/-- A path has a place for a file if all its names but the last lead somewhere. -/
theorem target_eq_ok :
    tree.target path = .ok location ↔ pathFault? path = none ∧ endsWithSlash path = false ∧
      ∃ front name parent, names path = front ++ [name] ∧ IsName name ∧
        tree.Walks true maxLinks (origin tree.home path) (front ++ [['.']]) parent ∧
          location = parent ++ [name] := by
  constructor
  · intro h
    unfold target at h
    split at h
    · cases h
    · cases h
    rename_i hfault
    split at h
    · cases h
    rename_i name hlast
    obtain ⟨front, hnames⟩ := List.getLast?_eq_some_iff.mp hlast
    rw [hnames, List.dropLast_concat] at h
    obtain ⟨parent, hparent, h⟩ := bind_eq_ok.mp h
    split at h
    · cases h
    rename_i hdots
    split at h
    · cases h
    rename_i hsize
    split at h
    · cases h
    rename_i hslash
    cases h
    exact ⟨hfault, by simpa using hslash, front, name, parent, hnames,
      ⟨hdots, Nat.le_of_not_lt hsize⟩, walk_eq_ok.mp hparent, rfl⟩
  · rintro ⟨hfault, hslash, front, name, parent, hnames, hname, hwalk, rfl⟩
    unfold target
    rw [hfault]
    simp only
    rw [hnames, List.getLast?_concat]
    simp only [List.dropLast_concat]
    refine bind_eq_ok.mpr ⟨parent, walk_eq_ok.mpr hwalk, ?_⟩
    have hdots : ¬ (name = ['.'] ∨ name = ['.', '.']) := hname.1
    rw [if_neg hdots, if_neg (Nat.not_lt.mpr hname.2), if_neg (by simp [hslash])]

theorem resolve_eq_ok {follow : Bool} :
    tree.resolve follow path = .ok location ↔ pathFault? path = none ∧
      tree.Walks follow maxLinks (origin tree.home path) (steps path) location := by
  unfold resolve
  cases hfault : pathFault? path with
  | some fault => simp
  | none => simp only [walk_eq_ok, true_and]

theorem look_eq_ok {follow : Bool} {entry : Entry} :
    tree.look follow path = .ok entry ↔
      ∃ location, tree.resolve follow path = .ok location ∧
        tree.find? location = some entry := by
  unfold look
  rw [bind_eq_ok]
  refine exists_congr fun location => and_congr_right fun _ => ?_
  cases tree.find? location <;> simp

/-- In a tree of one file in the root, which is the working directory, its name leads to it. -/
theorem look_single {name : List Char} {content : ByteArray} {mask mode : Nat} {follow : Bool}
    (hpath : pathFault? path = none) (hsteps : steps path = [name]) (hname : IsName name) :
    (⟨[], mask, [([name], .file content mode)]⟩ : FileTree).look follow path =
      .ok (.file content mode) := by
  have hroot : ¬ ([] ++ [name]).isPrefixOf [] := by simp
  have hfind : (⟨[], mask, [([name], .file content mode)]⟩ : FileTree).find? ([] ++ [name]) =
      some (.file content mode) := by
    rw [find?, if_neg hroot]
    exact List.lookup_cons_self
  have horigin : origin [] path = [] := ite_self _
  refine look_eq_ok.mpr ⟨_, resolve_eq_ok.mpr ⟨hpath, ?_⟩, hfind⟩
  rw [hsteps, horigin]
  exact .file hname hfind

/-- Other names lead nowhere in such a tree. -/
theorem look_single_of_ne {name other : List Char} {content : ByteArray} {mask mode : Nat}
    {follow : Bool} (hpath : pathFault? path = none) (hsteps : steps path = [other])
    (hother : IsName other) (hne : other ≠ name) :
    (⟨[], mask, [([name], .file content mode)]⟩ : FileTree).look follow path =
      .error .notFound := by
  have hfind : (⟨[], mask, [([name], .file content mode)]⟩ : FileTree).find? ([] ++ [other]) =
      none := by
    rw [find?, if_neg (by simp)]
    exact List.lookup_eq_none_iff.mpr (by simpa using hne)
  have hwalk : (⟨[], mask, [([name], .file content mode)]⟩ : FileTree).walk follow maxLinks []
      [other] = .error .notFound := by
    rw [walk_name hother.1, if_neg (Nat.not_lt.mpr hother.2), hfind]
    rfl
  have horigin : origin [] path = [] := ite_self _
  rw [look, resolve, hpath]
  simp only [hsteps, horigin, hwalk]
  rfl

theorem resolve_of_target (h : tree.target path = .ok location) :
    tree.resolve false path =
      (tree.find? location).elim (.error .notFound) fun _ => .ok location := by
  obtain ⟨hfault, hslash, front, name, parent, hnames, hname, hwalk, rfl⟩ := target_eq_ok.mp h
  have hresolve : tree.resolve false path = tree.enter name parent := by
    rw [resolve, hfault]
    simp only
    rw [steps_of_names hslash, hnames, walk_concat hname.1, hwalk.walk]
    rfl
  rw [hresolve, enter, if_neg (Nat.not_lt.mpr hname.2)]
  cases tree.find? (parent ++ [name]) <;> rfl

/-- A path leads to what stands at its place. -/
theorem look_of_target (h : tree.target path = .ok location) :
    tree.look false path = (tree.find? location).elim (.error .notFound) .ok := by
  have hresolve := resolve_of_target h
  cases hfind : tree.find? location with
  | none =>
    rw [hfind] at hresolve
    rw [look, hresolve]
    rfl
  | some entry =>
    rw [hfind] at hresolve
    exact look_eq_ok.mpr ⟨location, hresolve, hfind⟩

/-- If no link stands at the place of a path, it does not matter whether one is followed. -/
theorem resolve_true_of_target (h : tree.target path = .ok location)
    (hlink : ∀ target, tree.find? location ≠ some (.link target)) {there : Location} :
    tree.resolve true path = .ok there ↔ tree.find? location ≠ none ∧ there = location := by
  have hresolve := resolve_of_target h
  have hpresent : tree.find? location ≠ none → tree.resolve true path = .ok location := by
    intro hne
    obtain ⟨entry, hfind⟩ := Option.ne_none_iff_exists'.mp hne
    rw [hfind] at hresolve
    obtain ⟨hfault, hwalk⟩ := resolve_eq_ok.mp hresolve
    exact resolve_eq_ok.mpr ⟨hfault, hwalk.followed hlink⟩
  constructor
  · intro hthere
    obtain ⟨hfault, hwalk⟩ := resolve_eq_ok.mp hthere
    obtain ⟨here, hhere⟩ := hwalk.unfollowed
    have hne : tree.find? location ≠ none := by
      intro hnone
      rw [hnone, resolve_eq_ok.mpr ⟨hfault, hhere⟩] at hresolve
      cases hresolve
    refine ⟨hne, ?_⟩
    cases hthere.symm.trans (hpresent hne)
    rfl
  · rintro ⟨hne, rfl⟩
    exact hpresent hne

/-- **A path that leads to a file has a place**, and the file stands there. -/
theorem exists_target_of_look {content : ByteArray} {mode : Nat}
    (h : tree.look false path = .ok (.file content mode)) :
    ∃ location, tree.target path = .ok location ∧
      tree.find? location = some (.file content mode) := by
  obtain ⟨location, hresolve, hfind⟩ := look_eq_ok.mp h
  obtain ⟨hfault, hwalk⟩ := resolve_eq_ok.mp hresolve
  refine ⟨location, ?_, hfind⟩
  -- behind a slash, a point or two, only a directory could be
  have hlast : ¬ ∀ step ∈ (steps path).getLast?, IsDots step := by
    intro hdots
    have hrooted := hwalk.rooted (rooted_origin (rooted_home tree) path) hdots
    rw [hrooted.find?] at hfind
    cases hfind
  have hslash : endsWithSlash path = false := by
    by_contra hslash
    rw [Bool.not_eq_false] at hslash
    refine hlast fun step hstep => ?_
    rw [steps, hslash, if_pos rfl, List.getLast?_concat] at hstep
    cases hstep
    exact .inl rfl
  rw [steps_of_names hslash] at hwalk hlast
  rcases List.eq_nil_or_concat (names path) with hnil | ⟨front, name, hnames⟩
  · rw [hnil] at hlast
    exact absurd nofun hlast
  rw [List.concat_eq_append] at hnames
  have hdots : ¬ IsDots name := by
    intro hdots
    refine hlast fun step hstep => ?_
    rw [hnames, List.getLast?_concat] at hstep
    cases hstep
    exact hdots
  rw [hnames, ← walk_eq_ok, walk_concat hdots] at hwalk
  obtain ⟨parent, hparent, henter⟩ := bind_eq_ok.mp hwalk
  unfold enter at henter
  split at henter
  · cases henter
  rename_i hsize
  split at henter
  · cases henter
  cases henter
  exact target_eq_ok.mpr ⟨hfault, hslash, front, name, parent, hnames,
    ⟨hdots, Nat.le_of_not_lt hsize⟩, walk_eq_ok.mp hparent, rfl⟩

/-- The directory of a path with a place is there. -/
theorem directory_of_target (h : tree.target path = .ok location) :
    ∃ parent, tree.resolve true (directoryOf path) = .ok parent ∧ tree.Rooted parent := by
  obtain ⟨hfault, hslash, front, name, parent, hnames, hname, hwalk, rfl⟩ := target_eq_ok.mp h
  refine ⟨parent, resolve_directoryOf hfault hnames hslash hname.ne_point hwalk, ?_⟩
  refine hwalk.rooted (rooted_origin (rooted_home tree) path) fun step hstep => ?_
  rw [List.getLast?_concat] at hstep
  cases hstep
  exact .inl rfl

theorem isDirectory_of_target (h : tree.target path = .ok location) :
    tree.isDirectory (directoryOf path) = true := by
  obtain ⟨parent, hparent, hrooted⟩ := directory_of_target h
  have hlook : tree.look true (directoryOf path) = .ok .directory :=
    look_eq_ok.mpr ⟨parent, hparent, hrooted.find?⟩
  rw [isDirectory, hlook]

/-! ## What is written -/

/-- Whether nothing but a file stands at a location. -/
def Open (tree : FileTree) (location : Location) : Prop :=
  ∀ entry, tree.find? location = some entry → ∃ content mode, entry = .file content mode

theorem checkOutput_of_target (h : tree.target path = .ok location) :
    tree.checkOutput path = .ok () ↔ tree.Open location := by
  have hlook := look_of_target h
  unfold checkOutput Open
  rw [hlook]
  cases tree.find? location with
  | none => simp
  | some entry => cases entry <;> simp [Attempt.fail]

/-- **A file can be written if its path has a place where nothing but a file stands.** It then
stands there with the new content. -/
theorem write_eq_ok {content : String} {after : FileTree} :
    tree.write path content = .ok after ↔ ∃ location, tree.target path = .ok location ∧
      tree.Open location ∧
        after = tree.put location (.file content.toUTF8 (tree.modeAt location)) := by
  constructor
  · intro h
    obtain ⟨_, hcheck, h⟩ := bind_eq_ok.mp h
    split at h
    · cases h
    split at h
    · cases h
    rename_i location htarget
    cases h
    exact ⟨location, htarget, (checkOutput_of_target htarget).mp hcheck, rfl⟩
  · rintro ⟨location, htarget, hopen, rfl⟩
    refine bind_eq_ok.mpr ⟨(), (checkOutput_of_target htarget).mpr hopen, ?_⟩
    rw [if_neg (by simp [isDirectory_of_target htarget]), htarget]

/-- **What is read through a path can be written through it.** -/
theorem exists_write_of_look {content : ByteArray} {mode : Nat}
    (h : tree.look false path = .ok (.file content mode)) (text : String) :
    ∃ location, tree.target path = .ok location ∧
      tree.find? location = some (.file content mode) ∧
        tree.write path text = .ok (tree.put location (.file text.toUTF8 mode)) := by
  obtain ⟨location, htarget, hfind⟩ := exists_target_of_look h
  refine ⟨location, htarget, hfind, write_eq_ok.mpr ⟨location, htarget, ?_, ?_⟩⟩
  · intro entry hentry
    cases hfind.symm.trans hentry
    exact ⟨content, mode, rfl⟩
  · rw [modeAt, hfind]

/-! ## The tree afterwards -/

theorem Open.not_isPrefixOf (h : tree.Open location) : ¬ location.isPrefixOf tree.home := by
  intro hbegin
  have hfind : tree.find? location = some .directory := by
    rw [find?, if_pos hbegin]
  obtain ⟨content, mode, hfile⟩ := h _ hfind
  cases hfile

/-- A file put where nothing but a file stands is in the way of no walk. -/
theorem Open.extends (h : tree.Open location) (content : ByteArray) (mode : Nat) :
    tree.Extends (tree.put location (.file content mode)) := by
  refine ⟨rfl, fun other entry hentry => ?_⟩
  by_cases hother : other = location
  · subst hother
    obtain ⟨content', mode', rfl⟩ := h entry hentry
    exact ⟨_, find?_put_self tree _ h.not_isPrefixOf, .file content' content mode' mode⟩
  · exact ⟨entry, (find?_put_of_ne tree _ hother).trans hentry, .refl entry⟩

theorem Extends.target {extended : FileTree} (hext : tree.Extends extended)
    (h : tree.target path = .ok location) : extended.target path = .ok location := by
  obtain ⟨hfault, hslash, front, name, parent, hnames, hname, hwalk, hlocation⟩ :=
    target_eq_ok.mp h
  refine target_eq_ok.mpr ⟨hfault, hslash, front, name, parent, hnames, hname, ?_, hlocation⟩
  rw [hext.home]
  exact hwalk.of_extends hext

/-- A path that has a place has no other one in a tree that has more. -/
theorem Extends.target_iff {extended : FileTree} (hext : tree.Extends extended)
    (h : ∃ location, tree.target path = .ok location) :
    extended.target path = .ok location ↔ tree.target path = .ok location := by
  refine ⟨fun hlocation => ?_, hext.target⟩
  obtain ⟨place, hplace⟩ := h
  cases hlocation.symm.trans (hext.target hplace)
  exact hplace

end ComponentRules.FileTree
