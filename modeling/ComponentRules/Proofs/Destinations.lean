import ComponentRules.Proofs.Modes

/-!
# One document for one destination

Several files have to be checked or rewritten in place; what is printed, or written to an output
path, comes from a single file. The options alone see to this: a command line that is accepted and
not objected to has one destination at most, and without a check or the in-place option it has one
file. So no run prints two documents one behind the other or writes a second one over the first.

* `Options.count_destinations`, `Options.files_ne_nil`, `Options.remove_ne_nil`,
  `Options.exists_file`: what the options say.
* `run_single`: what a run prints or writes.
-/

namespace ComponentRules

open Outcome

namespace Options

variable {o : Options} {arguments : List String} {tree : FileTree}

/-! ## What the options say -/

/-- At most one destination is given. -/
theorem count_destinations (h : parse arguments = .ok o) :
    [o.check, o.inPlace, o.output.isSome].count true ≤ 1 := by
  obtain ⟨honlyCheck, honlyInPlace⟩ := exclusive_of_parse h
  by_cases hcheck : o.check = true
  · obtain ⟨hinPlace, houtput⟩ := honlyCheck hcheck
    rw [hcheck, hinPlace, houtput]
    decide
  rw [Bool.not_eq_true] at hcheck
  by_cases hinPlace : o.inPlace = true
  · obtain ⟨-, houtput⟩ := honlyInPlace hinPlace
    rw [hcheck, hinPlace, houtput]
    decide
  rw [Bool.not_eq_true] at hinPlace
  rw [hcheck, hinPlace]
  cases o.output <;> simp

theorem exists_filled (h : parse arguments = .ok o) : ∃ g, g.Filled ∧ ofGiven g = .ok o := by
  obtain ⟨g, hall, hg⟩ := parse_eq_ok.mp h
  exact ⟨g, (Given.step_addAll arguments).filled Given.filled_nothing hall, hg⟩

/-- There is a file. -/
theorem files_ne_nil (h : parse arguments = .ok o) : o.files ≠ [] := by
  obtain ⟨g, hfilled, hg⟩ := exists_filled h
  obtain ⟨-, hfiles, -, rfl⟩ := ofGiven_eq_ok.mp hg
  exact hfilled.values_ne_nil rfl hfiles

/-- A module is given only if something is to be removed from it. -/
theorem remove_ne_nil (h : parse arguments = .ok o) (hmodule : o.module ≠ none) :
    o.remove ≠ [] := by
  obtain ⟨g, hfilled, hg⟩ := exists_filled h
  obtain ⟨-, -, hremove, rfl⟩ := ofGiven_eq_ok.mp hg
  obtain ⟨module, hmodule⟩ := Option.ne_none_iff_exists'.mp hmodule
  exact hfilled.values_ne_nil rfl (hremove (Given.has_of_values (List.mem_of_mem_head? hmodule)))

/-- Without a check and the in-place option, there is one file. -/
theorem exists_file (h : parse arguments = .ok o) (hobjection : o.objection? = none)
    (hcheck : o.check = false) (hinPlace : o.inPlace = false) : ∃ path, o.files = [path] := by
  have hfew := length_files_le hobjection hcheck hinPlace
  have hsome := List.length_pos_iff.mpr (files_ne_nil h)
  exact List.length_eq_one_iff.mp (Nat.le_antisymm hfew hsome)

/-! ## What a run prints or writes -/

/-- A single document is printed, or it goes to the output path. -/
theorem deliver_single (hcheck : o.check = false) (hinPlace : o.inPlace = false)
    (file : RewrittenFile) :
    o.deliver [file] = (.success, if o.output.isNone then file.content else "",
      o.output.toList.map fun path => (path, file.content)) := by
  cases houtput : o.output with
  | none =>
    rw [deliver_stdout hcheck hinPlace houtput]
    simp
  | some path =>
    rw [deliver_output hcheck hinPlace houtput]
    rfl

/-- Not more than one document is printed, and none if there is an output path. -/
theorem stdout_rewrite (hobjection : o.objection? = none) (tree : FileTree) :
    (o.rewrite tree).stdout = "" ∨ (o.output = none ∧
      ∃ file, o.batch tree = .ok [file] ∧ (o.rewrite tree).stdout = file.content) := by
  cases hbatch : o.batch tree with
  | error problem => exact .inl (rewrite_of_error hbatch).2.1
  | ok files =>
    by_cases hcheck : o.check = true
    · exact .inl (rewrite_check hbatch hcheck).2.1
    rw [Bool.not_eq_true] at hcheck
    by_cases hinPlace : o.inPlace = true
    · exact .inl (rewrite_inPlace hbatch hcheck hinPlace).2.1
    rw [Bool.not_eq_true] at hinPlace
    obtain ⟨file, rfl⟩ := files_of_objection? hobjection hcheck hinPlace hbatch
    cases houtput : o.output with
    | none =>
      obtain ⟨-, hstdout, -⟩ := rewrite_stdout hbatch hcheck hinPlace houtput rfl
      exact .inr ⟨rfl, file, rfl, hstdout⟩
    | some path => exact .inl (rewrite_staged hbatch hcheck hinPlace houtput).1

/-- The output path is written once, or the tree stays as it was. -/
theorem rewrite_output_once (hobjection : o.objection? = none) (hcheck : o.check = false)
    (hinPlace : o.inPlace = false) {path : String} (houtput : o.output = some path)
    (tree : FileTree) :
    ((o.rewrite tree).exit = .success ∧ ∃ file, o.batch tree = .ok [file] ∧
        tree.writeStaged path file.content = ((o.rewrite tree).tree, .ok ())) ∨
      ((o.rewrite tree).exit = .applicationError ∧ (o.rewrite tree).tree = tree) := by
  cases hbatch : o.batch tree with
  | error problem =>
    obtain ⟨hexit, -, htree⟩ := rewrite_of_error hbatch
    exact .inr ⟨hexit, htree⟩
  | ok files =>
    obtain ⟨file, rfl⟩ := files_of_objection? hobjection hcheck hinPlace hbatch
    obtain ⟨-, ⟨hexit, _, hwrite⟩ | ⟨hexit, hwrite⟩⟩ :=
      rewrite_staged hbatch hcheck hinPlace houtput
    · exact .inr ⟨hexit, FileTree.tree_of_writeStaged hwrite⟩
    · exact .inl ⟨hexit, file, rfl, hwrite⟩

end Options

/-- **One document for one destination.** A command line that is accepted, and to which there is no
objection, has files and at most one destination; with a module it has something to remove, and
without a check and the in-place option it has one file. What is to be delivered then is one
document, and it is printed or goes to the output path. In no case does a run print more than one
document; and with an output path it prints none, and writes one document there, once, or leaves the
tree as it was. -/
theorem run_single {arguments : List String} {o : Options}
    (hparse : Options.parse arguments = .ok o) (hobjection : o.objection? = none)
    (tree : FileTree) :
    o.files ≠ [] ∧ [o.check, o.inPlace, o.output.isSome].count true ≤ 1 ∧
    (o.module ≠ none → o.remove ≠ []) ∧
    (o.check = false → o.inPlace = false → (∃ path, o.files = [path]) ∧
      ∀ files, o.batch tree = .ok files → ∃ file, files = [file] ∧
        o.deliver files = (.success, if o.output.isNone then file.content else "",
          o.output.toList.map fun path => (path, file.content))) ∧
    ((run tree arguments).stdout = "" ∨ (o.output = none ∧
      ∃ file, o.batch tree = .ok [file] ∧ (run tree arguments).stdout = file.content)) ∧
    (∀ path, o.output = some path →
      ((run tree arguments).exit = .success ∧ ∃ file, o.batch tree = .ok [file] ∧
        tree.writeStaged path file.content = ((run tree arguments).tree, .ok ())) ∨
      ((run tree arguments).exit = .applicationError ∧ (run tree arguments).tree = tree)) := by
  rw [run_of_parse hparse hobjection]
  refine ⟨Options.files_ne_nil hparse, Options.count_destinations hparse,
    Options.remove_ne_nil hparse, fun hcheck hinPlace => ⟨?_, fun files hbatch => ?_⟩,
    Options.stdout_rewrite hobjection tree, fun path houtput => ?_⟩
  · exact Options.exists_file hparse hobjection hcheck hinPlace
  · obtain ⟨file, rfl⟩ := Options.files_of_objection? hobjection hcheck hinPlace hbatch
    exact ⟨file, rfl, Options.deliver_single hcheck hinPlace file⟩
  · obtain ⟨hcheck, hinPlace⟩ := Options.exclusive_of_output hparse houtput
    exact Options.rewrite_output_once hobjection hcheck hinPlace houtput tree

/-- A file that is written to its own path by way of the output option. -/
theorem run_single_junit :
    ∃ o : Options, Options.parse ["-o", "junit.module", "junit.module"] = .ok o ∧
      o.objection? = none ∧ o.files = ["junit.module"] ∧
      (run junitTree ["-o", "junit.module", "junit.module"]).stdout = "" ∧
      ∃ file, o.batch junitTree = .ok [file] ∧ file.rewrite.modified = true ∧
        o.deliver [file] = (.success, "", [("junit.module", file.content)]) ∧
        junitTree.writeStaged "junit.module" file.content =
          ((run junitTree ["-o", "junit.module", "junit.module"]).tree, .ok ()) := by
  have hparse : Options.parse ["-o", "junit.module", "junit.module"] =
      .ok ⟨["junit.module"], none, [], none, some "junit.module", false, false, false⟩ := rfl
  obtain ⟨file, hbatch, hmodified, -⟩ := @batch_junitTree
    ⟨["junit.module"], none, [], none, some "junit.module", false, false, false⟩ rfl rfl rfl rfl
  obtain ⟨-, -, -, hone, hprinted, hwritten⟩ := run_single hparse rfl junitTree
  obtain ⟨-, hdeliver⟩ := hone rfl rfl
  obtain ⟨_, hfile, hdelivered⟩ := hdeliver [file] hbatch
  cases hfile
  have hstdout : (run junitTree ["-o", "junit.module", "junit.module"]).stdout = "" := by
    rcases hprinted with hnothing | ⟨houtput, -⟩
    · exact hnothing
    · cases houtput
  have hexit : (run junitTree ["-o", "junit.module", "junit.module"]).exit = .success := by
    rw [run_of_parse hparse rfl]
    exact Options.exit_of_output_file hbatch rfl rfl rfl look_junitTree
  rcases hwritten "junit.module" rfl with ⟨-, _, hfile, hwrite⟩ | ⟨hfailed, -⟩
  · cases hbatch.symm.trans hfile
    exact ⟨_, hparse, rfl, rfl, hstdout, file, hbatch, hmodified, hdelivered, hwrite⟩
  · rw [hexit] at hfailed
    cases hfailed

end ComponentRules
