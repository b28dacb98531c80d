import ComponentRules.Run
import ComponentRules.Proofs.Files.Staging

/-!
# What a series of writes does to a tree

Writes change the files at the places of their paths and nothing else. If every path leads to a file
already, and those that lead to the same file are to hold the same text, then no write fails.

* `FileTree.Wrote`: the effect of some writes.
* `readText_of_file`, `readMetadata_eq_ok`, `readMetadata_of_file`: what is read is what a file
  holds.
* `writeStaged_eq_ok`: when a text can be written.
* `exists_writeAll`: writing what was read, and what it does.
-/

namespace ComponentRules.FileTree

open Outcome

variable {tree before after : FileTree} {writes : List (String × String)}

/-- Whether one tree is another after some writes: each path has a place where nothing but a file
stood; the text stands there now, with the mode that the file had, and the path leads to it.
Elsewhere nothing has changed. -/
structure Wrote (before : FileTree) (writes : List (String × String)) (after : FileTree) :
    Prop where
  home : after.home = before.home
  mask : after.mask = before.mask
  holds : ∀ w ∈ writes, ∃ location, before.target w.1 = .ok location ∧ before.Open location ∧
    after.find? location = some (.file w.2.toUTF8 (before.modeAt location)) ∧
      after.look false w.1 = .ok (.file w.2.toUTF8 (before.modeAt location))
  frame : ∀ location, (∀ w ∈ writes, before.target w.1 ≠ .ok location) →
    after.find? location = before.find? location

section

variable (home : after.home = before.home)
  (holds : ∀ w ∈ writes, ∃ location, before.target w.1 = .ok location ∧ before.Open location ∧
    after.find? location = some (.file w.2.toUTF8 (before.modeAt location)))
  (frame : ∀ location, (∀ w ∈ writes, before.target w.1 ≠ .ok location) →
    after.find? location = before.find? location)

include home holds frame

theorem extends_of_holds : before.Extends after := by
  refine ⟨home, fun location entry hentry => ?_⟩
  by_cases hwritten : ∃ w ∈ writes, before.target w.1 = .ok location
  · obtain ⟨w, hw, htarget⟩ := hwritten
    obtain ⟨location', htarget', hopen, hfind⟩ := holds w hw
    cases htarget.symm.trans htarget'
    obtain ⟨content, mode, rfl⟩ := hopen entry hentry
    exact ⟨_, hfind, .file _ _ _ _⟩
  · push Not at hwritten
    exact ⟨entry, (frame location hwritten).trans hentry, .refl entry⟩

/-- If the texts stand at their places, the paths lead to them. -/
theorem wrote_of_holds (mask : after.mask = before.mask) : before.Wrote writes after := by
  refine ⟨home, mask, fun w hw => ?_, frame⟩
  obtain ⟨location, htarget, hopen, hfind⟩ := holds w hw
  refine ⟨location, htarget, hopen, hfind, ?_⟩
  rw [look_of_target ((extends_of_holds home holds frame).target htarget), hfind]
  rfl

end

theorem wrote_nil (tree : FileTree) : tree.Wrote [] tree :=
  ⟨rfl, rfl, nofun, fun _ _ => rfl⟩

theorem Wrote.extends (h : before.Wrote writes after) : before.Extends after := by
  refine extends_of_holds h.home (fun w hw => ?_) h.frame
  obtain ⟨location, htarget, hopen, hfind, -⟩ := h.holds w hw
  exact ⟨location, htarget, hopen, hfind⟩

/-- A single write. -/
theorem wrote_of_write {path content : String} (h : before.write path content = .ok after) :
    before.Wrote [(path, content)] after := by
  obtain ⟨location, htarget, hopen, rfl⟩ := write_eq_ok.mp h
  refine wrote_of_holds rfl (fun w hw => ?_) (fun other hother => ?_) rfl
  · cases List.mem_singleton.mp hw
    exact ⟨location, htarget, hopen, find?_put_self before _ hopen.not_isPrefixOf⟩
  · refine find?_put_of_ne before _ ?_
    rintro rfl
    exact hother _ (List.mem_singleton_self _) htarget

/-! ## Reading -/

theorem toUTF8_of_fromUTF8? {content : ByteArray} {text : String}
    (h : String.fromUTF8? content = some text) : text.toUTF8 = content := by
  unfold String.fromUTF8? at h
  split at h
  · cases h
    rfl
  · cases h

theorem fromUTF8?_toUTF8 (text : String) : String.fromUTF8? text.toUTF8 = some text := by
  have hvalid : text.toUTF8.IsValidUTF8 := text.isValidUTF8
  rw [String.fromUTF8?, dif_pos hvalid]
  rfl

/-- A path to a file leads there, whether links at its end are followed or not. -/
theorem look_true_of_file {path : String} {content : ByteArray} {mode : Nat}
    (h : tree.look false path = .ok (.file content mode)) :
    tree.look true path = .ok (.file content mode) := by
  obtain ⟨location, htarget, hfind⟩ := exists_target_of_look h
  have hlink : ∀ target, tree.find? location ≠ some (.link target) := by
    intro target hlink
    cases hfind.symm.trans hlink
  refine look_eq_ok.mpr ⟨location, (resolve_true_of_target htarget hlink).mpr ⟨?_, rfl⟩, hfind⟩
  rw [hfind]
  exact Option.some_ne_none _

/-- What is read is what a file holds. -/
theorem readMetadata_eq_ok {limit : Nat} {path text : String}
    (h : tree.readMetadata limit path = .ok text) :
    ∃ mode, tree.look false path = .ok (.file text.toUTF8 mode) := by
  obtain ⟨size, hinspect, h⟩ := bind_eq_ok.mp h
  unfold inspect at hinspect
  split at hinspect
  · cases hinspect
  · cases hinspect
  · cases hinspect
  · cases hinspect
  rename_i content mode hlook
  split at h
  · rename_i read hread
    cases h
    obtain ⟨entry, hentry, hread⟩ := bind_eq_ok.mp hread
    cases (look_true_of_file hlook).symm.trans hentry
    split at hread
    · cases hread
    simp only at hread
    split at hread
    · rename_i decoded hdecoded
      cases hread
      rw [toUTF8_of_fromUTF8? hdecoded]
      exact ⟨mode, hlook⟩
    · cases hread
  · cases h

/-- A file that holds a text is read as the text, if it may be read. -/
theorem readText_of_file {mode : Nat} {path text : String}
    (hlook : tree.look false path = .ok (.file text.toUTF8 mode)) :
    tree.readText path =
      if (Entry.file text.toUTF8 mode).isReadable then .ok text
      else .error .permissionDenied := by
  rw [readText, look_true_of_file hlook]
  simp only [bind, Except.bind, fromUTF8?_toUTF8]
  cases (Entry.file text.toUTF8 mode).isReadable <;> rfl

/-- A file that holds a text and is not too large is read as the text, if it may be read. -/
theorem readMetadata_of_file {limit mode : Nat} {path text : String}
    (hlook : tree.look false path = .ok (.file text.toUTF8 mode))
    (hsize : text.toUTF8.size ≤ limit) :
    tree.readMetadata limit path =
      if (Entry.file text.toUTF8 mode).isReadable then .ok text
      else .fail (.cannotRead path FileFault.permissionDenied.message) := by
  have hinspect : tree.inspect limit path = .ok text.toUTF8.size := by
    rw [inspect, hlook]
    simp only [if_neg (Nat.not_lt.mpr hsize)]
  rw [readMetadata, hinspect, readText_of_file hlook]
  cases (Entry.file text.toUTF8 mode).isReadable <;> rfl

theorem readMetadata_of_look {limit mode : Nat} {path text : String}
    (hlook : tree.look false path = .ok (.file text.toUTF8 mode))
    (hreadable : mode / 0o400 % 2 = 1) (hsize : text.toUTF8.size ≤ limit) :
    tree.readMetadata limit path = .ok text := by
  rw [readMetadata_of_file hlook hsize, if_pos (by simpa [Entry.isReadable] using hreadable)]

/-! ## Writing all -/

theorem writeAll_cons (tree : FileTree) (path content : String)
    (writes : List (String × String)) :
    writeAll tree ((path, content) :: writes) =
      match tree.write path content with
      | .ok after => writeAll after writes
      | .error problem => (tree, .error problem) := by
  rw [writeAll, writeStaged_eq]
  cases tree.write path content <;> rfl

theorem writeAll_one (tree : FileTree) (path content : String) :
    writeAll tree [(path, content)] = tree.writeStaged path content := by
  rw [writeAll]
  rcases tree.writeStaged path content with ⟨after, _ | ⟨⟩⟩ <;> rfl

/-- A text can be written if its path has an open place. -/
theorem writeStaged_eq_ok {path content : String} :
    tree.writeStaged path content = (after, .ok ()) ↔ ∃ location,
      tree.target path = .ok location ∧ tree.Open location ∧
        after = tree.put location (.file content.toUTF8 (tree.modeAt location)) := by
  rw [← write_eq_ok, writeStaged_eq]
  cases tree.write path content <;> simp

theorem wrote_of_writeStaged {path content : String}
    (h : tree.writeStaged path content = (after, .ok ())) : tree.Wrote [(path, content)] after :=
  wrote_of_write (write_eq_ok.mpr (writeStaged_eq_ok.mp h))

/-- A write that fails leaves the tree as it was. -/
theorem tree_of_writeStaged {path content : String} {problem : Problem}
    (h : tree.writeStaged path content = (after, .error problem)) : after = tree := by
  rw [writeStaged_eq] at h
  cases hwrite : tree.write path content with
  | ok written =>
    rw [hwrite] at h
    cases h
  | error problem =>
    rw [hwrite] at h
    cases h
    rfl

/-- Writing leaves all modes as they were. -/
theorem Wrote.modeAt (h : before.Wrote writes after) (location : Location) :
    after.modeAt location = before.modeAt location := by
  by_cases hwritten : ∃ w ∈ writes, before.target w.1 = .ok location
  · obtain ⟨w, hw, htarget⟩ := hwritten
    obtain ⟨location', htarget', -, hfind, -⟩ := h.holds w hw
    cases htarget.symm.trans htarget'
    rw [FileTree.modeAt, hfind]
  · push Not at hwritten
    rw [FileTree.modeAt, h.frame location hwritten, FileTree.modeAt, newFileMode, h.mask,
      newFileMode]

/-- A path to a file that is not written leads to the same file afterwards. -/
theorem Wrote.look_of_frame {path : String} {content : ByteArray} {mode : Nat}
    (h : before.Wrote writes after) (hlook : before.look false path = .ok (.file content mode))
    (hother : ∀ w ∈ writes, before.target w.1 ≠ before.target path) :
    after.look false path = .ok (.file content mode) := by
  obtain ⟨location, htarget, hfind⟩ := exists_target_of_look hlook
  have hframe : after.find? location = before.find? location :=
    h.frame location fun w hw hw' => hother w hw (hw'.trans htarget.symm)
  rw [look_of_target (h.extends.target htarget), hframe, hfind]
  rfl

theorem Extends.open_of {location : Location} (h : before.Extends after)
    (hopen : after.Open location) : before.Open location := by
  intro entry hentry
  obtain ⟨entry', hentry', halike⟩ := h.entries location entry hentry
  obtain ⟨content, mode, rfl⟩ := hopen entry' hentry'
  cases halike
  exact ⟨_, _, rfl⟩

/-- A path that leads to a file leads to the same place in a tree that has more. -/
theorem Extends.look {path : String} {content : ByteArray} {mode : Nat} (h : before.Extends after)
    (hlook : before.look false path = .ok (.file content mode)) :
    ∃ content' mode', after.look false path = .ok (.file content' mode') := by
  obtain ⟨location, htarget, hfind⟩ := exists_target_of_look hlook
  obtain ⟨entry, hentry, halike⟩ := h.entries _ _ hfind
  cases halike with
  | file _ content' _ mode' =>
    refine ⟨content', mode', ?_⟩
    rw [look_of_target (h.target htarget), hentry]
    rfl

/-- A write before others. If one of them goes to the same place, it is of the same text. -/
theorem Wrote.cons {path text : String} {middle : FileTree} {location : Location}
    (htarget : before.target path = .ok location) (hfirst : before.Wrote [(path, text)] middle)
    (hrest : middle.Wrote writes after)
    (hplaces : ∀ w ∈ writes, ∃ location, before.target w.1 = .ok location)
    (hagree : ∀ w ∈ writes, before.target w.1 = .ok location → w.2 = text) :
    before.Wrote ((path, text) :: writes) after := by
  have hext := hfirst.extends
  have hback : ∀ w ∈ writes, ∀ place, middle.target w.1 = .ok place →
      before.target w.1 = .ok place :=
    fun w hw _ => (hext.target_iff (hplaces w hw)).mp
  refine wrote_of_holds (hrest.home.trans hfirst.home) (fun w hw => ?_) (fun place hplace => ?_)
    (hrest.mask.trans hfirst.mask)
  · rcases List.mem_cons.mp hw with rfl | hw
    · obtain ⟨place, hplace, hopen, hfind, -⟩ := hfirst.holds _ (List.mem_singleton_self _)
      cases htarget.symm.trans hplace
      refine ⟨location, htarget, hopen, ?_⟩
      by_cases hagain : ∃ w ∈ writes, before.target w.1 = .ok location
      · -- the same text is written there once more
        obtain ⟨w, hw, hsame⟩ := hagain
        obtain ⟨place, hplace, -, hwritten, -⟩ := hrest.holds w hw
        cases (hext.target hsame).symm.trans hplace
        rw [hwritten, hagree w hw hsame, hfirst.modeAt]
      · push Not at hagain
        rw [hrest.frame location fun w hw h => hagain w hw (hback w hw _ h), hfind]
    · obtain ⟨place, hplace, hopen, hfind, -⟩ := hrest.holds w hw
      refine ⟨place, hback w hw place hplace, hext.open_of hopen, ?_⟩
      rw [hfind, hfirst.modeAt]
  · rw [List.forall_mem_cons] at hplace
    have hlater : ∀ w ∈ writes, middle.target w.1 ≠ .ok place :=
      fun w hw h => hplace.2 w hw (hback w hw place h)
    rw [hrest.frame place hlater, hfirst.frame place]
    intro w hw
    cases List.mem_singleton.mp hw
    exact hplace.1

/-- **Files that are there can all be written**, if those that are written twice get the same text
both times. -/
theorem exists_writeAll
    (hfiles : ∀ w ∈ writes, ∃ content mode, tree.look false w.1 = .ok (.file content mode))
    (hagree : ∀ w ∈ writes, ∀ w' ∈ writes, ∀ location, tree.target w.1 = .ok location →
      tree.target w'.1 = .ok location → w.2 = w'.2) :
    ∃ after, writeAll tree writes = (after, .ok ()) ∧ tree.Wrote writes after := by
  induction writes generalizing tree with
  | nil => exact ⟨tree, rfl, wrote_nil tree⟩
  | cons w writes ih =>
    obtain ⟨path, text⟩ := w
    rw [List.forall_mem_cons] at hfiles
    obtain ⟨⟨content, mode, hlook⟩, hfiles⟩ := hfiles
    obtain ⟨location, htarget, -, hwrite⟩ := exists_write_of_look hlook text
    have hfirst := wrote_of_write hwrite
    have hext := hfirst.extends
    have hplaces : ∀ w ∈ writes, ∃ location, tree.target w.1 = .ok location := by
      intro w hw
      obtain ⟨content, mode, hlook⟩ := hfiles w hw
      obtain ⟨place, hplace, -⟩ := exists_target_of_look hlook
      exact ⟨place, hplace⟩
    have hfiles' : ∀ w ∈ writes, ∃ content' mode',
        (tree.put location (.file text.toUTF8 mode)).look false w.1 =
          .ok (.file content' mode') := by
      intro w hw
      obtain ⟨content, mode, hlook⟩ := hfiles w hw
      exact hext.look hlook
    obtain ⟨after, hwrites, hrest⟩ := ih hfiles' fun w hw w' hw' place h h' =>
      hagree w (List.mem_cons_of_mem _ hw) w' (List.mem_cons_of_mem _ hw') place
        ((hext.target_iff (hplaces w hw)).mp h) ((hext.target_iff (hplaces w' hw')).mp h')
    refine ⟨after, ?_, hfirst.cons htarget hrest hplaces fun w hw h => ?_⟩
    · rw [writeAll_cons, hwrite]
      exact hwrites
    · exact hagree w (List.mem_cons_of_mem _ hw) (path, text) List.mem_cons_self location h htarget

end ComponentRules.FileTree
