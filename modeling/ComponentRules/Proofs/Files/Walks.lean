import ComponentRules.Files.Tree
import ComponentRules.Proofs.Outcome

/-!
# Following paths

What a walk along some steps has to do with a walk along others, or with the same walk in another
tree. A walk looks at the kinds of entries only: at directories, files and the targets of links.

* `walk_induction`: what is true of every walk, shown step by step.
* `walk_concat`: a walk to a name goes to its directory first.
* `walk_skipIdle`: points on the way do not matter.
* `Walks.rooted`: a walk that does not end with a name ends in a directory.
* `Walks.of_extends`: a walk that leads somewhere leads there in every tree that has more.
-/

namespace ComponentRules.FileTree

open Outcome

variable {tree : FileTree} {follow : Bool}

/-! ## Step by step -/

/-- A step that stays or leads upwards. -/
def IsDots (step : List Char) : Prop :=
  step = ['.'] ∨ step = ['.', '.']

/-- A step to an entry, whose name is not too long. -/
def IsName (step : List Char) : Prop :=
  ¬ IsDots step ∧ nameSize step ≤ maxNameSize

@[simp] theorem walk_nil (links : Nat) (here : Location) :
    tree.walk follow links here [] = .ok here := by
  rw [walk]

@[simp] theorem walk_point (links : Nat) (here : Location) (steps : List (List Char)) :
    tree.walk follow links here (['.'] :: steps) = tree.walk follow links here steps := by
  rw [walk, if_pos rfl]

@[simp] theorem walk_points (links : Nat) (here : Location) (steps : List (List Char)) :
    tree.walk follow links here (['.', '.'] :: steps) =
      tree.walk follow links here.dropLast steps := by
  rw [walk, if_neg (by decide), if_pos rfl]

/-- What becomes of a walk at an entry. -/
def walkOn (tree : FileTree) (follow : Bool) (links : Nat) (here there : Location)
    (steps : List (List Char)) : Option Entry → Except FileFault Location
  | none => .error .notFound
  | some .directory => tree.walk follow links there steps
  | some (.file _ _) => if steps.isEmpty then .ok there else .error .notDirectory
  | some (.link target) =>
    if steps.isEmpty && !follow then .ok there
    else match links with
      | 0 => .error .tooManyLinks
      | links + 1 =>
        if target.isEmpty then .error .notFound
        else tree.walk follow links (origin here target) (FileTree.steps target ++ steps)

theorem walk_name {step : List Char} (h : ¬ IsDots step) (links : Nat) (here : Location)
    (steps : List (List Char)) :
    tree.walk follow links here (step :: steps) =
      if maxNameSize < nameSize step then .error .nameTooLong
      else tree.walkOn follow links here (here ++ [step]) steps (tree.find? (here ++ [step])) := by
  unfold IsDots at h
  rw [not_or] at h
  rw [walk, if_neg h.1, if_neg h.2]
  split
  · rfl
  · unfold walkOn
    rfl

/-- What is true of every walk: it may be supposed for the rest of the steps, and for any steps with
fewer links to follow. -/
theorem walk_induction {motive : Nat → Location → List (List Char) → Prop}
    (nil : ∀ links here, motive links here [])
    (cons : ∀ links here step steps, (∀ here, motive links here steps) →
      (∀ fewer, links = fewer + 1 → ∀ here steps, motive fewer here steps) →
        motive links here (step :: steps))
    (links : Nat) (here : Location) (steps : List (List Char)) : motive links here steps := by
  induction links generalizing here steps with
  | zero =>
    induction steps generalizing here with
    | nil => exact nil 0 here
    | cons step steps ih => exact cons 0 here step steps ih nofun
  | succ links outer =>
    induction steps generalizing here with
    | nil => exact nil _ here
    | cons step steps ih =>
      refine cons _ here step steps ih fun fewer h => ?_
      cases h
      exact outer

/-! ## The directory of a name -/

/-- The last step of a walk, to a name in a directory. -/
def enter (tree : FileTree) (name : List Char) (parent : Location) : Except FileFault Location :=
  if maxNameSize < nameSize name then .error .nameTooLong
  else match tree.find? (parent ++ [name]) with
    | none => .error .notFound
    | some _ => .ok (parent ++ [name])

/-- A walk to a name goes to its directory first. -/
theorem walk_concat {name : List Char} (h : ¬ IsDots name) (links : Nat) (here : Location)
    (steps : List (List Char)) :
    tree.walk false links here (steps ++ [name]) =
      tree.walk true links here (steps ++ [['.']]) >>= tree.enter name := by
  induction links, here, steps using walk_induction with
  | nil links here =>
    rw [List.nil_append, List.nil_append, walk_name h, walk_point, walk_nil]
    change _ = tree.enter name here
    unfold enter walkOn
    split
    · rfl
    · cases tree.find? (here ++ [name]) with
      | none => rfl
      | some entry => cases entry <;> simp
  | cons links here step steps ih fewer =>
    rw [List.cons_append, List.cons_append]
    by_cases hdots : IsDots step
    · rcases hdots with rfl | rfl
      · rw [walk_point, walk_point, ih]
      · rw [walk_points, walk_points, ih]
    · rw [walk_name hdots, walk_name hdots]
      split
      · rfl
      · have hname : (steps ++ [name]).isEmpty = false := by simp
        have hpoint : (steps ++ [['.']]).isEmpty = false := by simp
        unfold walkOn
        cases tree.find? (here ++ [step]) with
        | none => rfl
        | some entry =>
          cases entry with
          | directory => exact ih _
          | file content mode => simp only [hname, hpoint]; rfl
          | link target =>
            simp only [hname, hpoint, Bool.false_and, Bool.false_eq_true, if_false]
            cases links with
            | zero => rfl
            | succ links =>
              simp only
              split
              · rfl
              · rw [← List.append_assoc, ← List.append_assoc]
                exact fewer links rfl _ _

/-! ## Points on the way -/

/-- Steps without those that stay. -/
def skipIdle (steps : List (List Char)) : List (List Char) :=
  steps.filter (· != ['.'])

theorem skipIdle_append_skipIdle (steps more : List (List Char)) :
    skipIdle (steps ++ skipIdle more) = skipIdle (steps ++ more) := by
  simp [skipIdle]

/-- Steps that stay may be left out of a walk to a directory. -/
theorem walk_skipIdle (links : Nat) (here : Location) (steps : List (List Char)) :
    tree.walk follow links here (skipIdle steps ++ [['.']]) =
      tree.walk follow links here (steps ++ [['.']]) := by
  induction links, here, steps using walk_induction with
  | nil links here => rfl
  | cons links here step steps ih fewer =>
    by_cases hpoint : step = ['.']
    · subst hpoint
      have hskip : skipIdle (['.'] :: steps) = skipIdle steps := rfl
      rw [hskip, List.cons_append, walk_point, ih]
    have hskip : skipIdle (step :: steps) = step :: skipIdle steps := by
      simp [skipIdle, hpoint]
    rw [hskip, List.cons_append, List.cons_append]
    by_cases hpoints : step = ['.', '.']
    · subst hpoints
      rw [walk_points, walk_points, ih]
    have hname : ¬ IsDots step := not_or.mpr ⟨hpoint, hpoints⟩
    rw [walk_name hname, walk_name hname]
    split
    · rfl
    have hskipped : (skipIdle steps ++ [['.']]).isEmpty = false := by simp
    have hall : (steps ++ [['.']]).isEmpty = false := by simp
    unfold walkOn
    cases tree.find? (here ++ [step]) with
    | none => rfl
    | some entry =>
      cases entry with
      | directory => exact ih _
      | file content mode => simp only [hskipped, hall]
      | link target =>
        simp only [hskipped, hall, Bool.false_and, Bool.false_eq_true, if_false]
        cases links with
        | zero => rfl
        | succ links =>
          simp only
          split
          · rfl
          -- with fewer links, both walks are the walk without any step that stays
          · rw [← List.append_assoc, ← List.append_assoc, ← fewer links rfl,
              ← fewer links rfl _ (FileTree.steps target ++ steps), skipIdle_append_skipIdle]

/-! ## Walks that lead somewhere -/

/-- Walks that lead somewhere, by what they meet on the way. -/
inductive Walks (tree : FileTree) (follow : Bool) :
    Nat → Location → List (List Char) → Location → Prop
  | done (links : Nat) (here : Location) : Walks tree follow links here [] here
  | stay {links : Nat} {here there : Location} {steps : List (List Char)} :
      Walks tree follow links here steps there → Walks tree follow links here (['.'] :: steps) there
  | up {links : Nat} {here there : Location} {steps : List (List Char)} :
      Walks tree follow links here.dropLast steps there →
        Walks tree follow links here (['.', '.'] :: steps) there
  | into {links : Nat} {here there : Location} {name : List Char} {steps : List (List Char)} :
      IsName name → tree.find? (here ++ [name]) = some .directory →
        Walks tree follow links (here ++ [name]) steps there →
          Walks tree follow links here (name :: steps) there
  | file {links : Nat} {here : Location} {name : List Char} {content : ByteArray} {mode : Nat} :
      IsName name → tree.find? (here ++ [name]) = some (.file content mode) →
        Walks tree follow links here [name] (here ++ [name])
  | link {links : Nat} {here : Location} {name : List Char} {target : String} :
      IsName name → tree.find? (here ++ [name]) = some (.link target) → follow = false →
        Walks tree follow links here [name] (here ++ [name])
  | through {links : Nat} {here there : Location} {name : List Char} {steps : List (List Char)}
      {target : String} :
      IsName name → tree.find? (here ++ [name]) = some (.link target) →
        (steps ≠ [] ∨ follow = true) → target.isEmpty = false →
          Walks tree follow links (origin here target) (FileTree.steps target ++ steps) there →
            Walks tree follow (links + 1) here (name :: steps) there

theorem walks_of_walk {links : Nat} {here there : Location} {steps : List (List Char)}
    (h : tree.walk follow links here steps = .ok there) :
    tree.Walks follow links here steps there := by
  induction links, here, steps using walk_induction with
  | nil links here =>
    rw [walk_nil] at h
    cases h
    exact .done links _
  | cons links here step steps ih fewer =>
    by_cases hdots : IsDots step
    · rcases hdots with rfl | rfl
      · rw [walk_point] at h
        exact .stay (ih _ h)
      · rw [walk_points] at h
        exact .up (ih _ h)
    rw [walk_name hdots] at h
    split at h
    · cases h
    rename_i hsize
    have hname : IsName step := ⟨hdots, Nat.le_of_not_lt hsize⟩
    unfold walkOn at h
    cases hfind : tree.find? (here ++ [step]) with
    | none => rw [hfind] at h; cases h
    | some entry =>
      rw [hfind] at h
      cases entry with
      | directory => exact .into hname hfind (ih _ h)
      | file content mode =>
        cases steps with
        | nil => cases h; exact .file hname hfind
        | cons next steps => cases h
      | link target =>
        simp only at h
        split at h
        · rename_i hend
          rw [Bool.and_eq_true, Bool.not_eq_true', List.isEmpty_iff] at hend
          obtain ⟨rfl, hfollow⟩ := hend
          cases h
          exact .link hname hfind hfollow
        · rename_i hon
          have hon : steps ≠ [] ∨ follow = true := by
            cases follow <;> simp_all
          cases links with
          | zero => cases h
          | succ links =>
            simp only at h
            split at h
            · cases h
            · rename_i hempty
              exact .through hname hfind hon (by simpa using hempty) (fewer links rfl _ _ h)

theorem Walks.walk {links : Nat} {here there : Location} {steps : List (List Char)}
    (h : tree.Walks follow links here steps there) :
    tree.walk follow links here steps = .ok there := by
  have hname : ∀ {name : List Char}, IsName name → ∀ links here steps,
      tree.walk follow links here (name :: steps) =
        tree.walkOn follow links here (here ++ [name]) steps (tree.find? (here ++ [name])) := by
    intro name h links here steps
    rw [walk_name h.1, if_neg (Nat.not_lt.mpr h.2)]
  induction h with
  | done links here => exact walk_nil links here
  | stay _ ih => rw [walk_point, ih]
  | up _ ih => rw [walk_points, ih]
  | into h hfind _ ih => rw [hname h, hfind]; exact ih
  | file h hfind => rw [hname h, hfind]; rfl
  | link h hfind hfollow => rw [hname h, hfind, hfollow]; rfl
  | @through links here there name steps target h hfind hon hempty _ ih =>
    have hend : (steps.isEmpty && !follow) = false := by
      rcases hon with hne | hfollow
      · simp [hne]
      · simp [hfollow]
    rw [hname h, hfind]
    simp only [walkOn, hend, Bool.false_eq_true, if_false, hempty]
    exact ih

theorem walk_eq_ok {links : Nat} {here there : Location} {steps : List (List Char)} :
    tree.walk follow links here steps = .ok there ↔ tree.Walks follow links here steps there :=
  ⟨walks_of_walk, Walks.walk⟩

theorem IsName.ne_point {name : List Char} (h : IsName name) : name ≠ ['.'] :=
  fun he => h.1 (.inl he)

/-- A walk that may end with staying need not. -/
theorem Walks.of_point {links : Nat} {here there : Location} {steps : List (List Char)}
    (h : tree.Walks true links here (steps ++ [['.']]) there) :
    tree.Walks true links here steps there := by
  generalize hall : steps ++ [['.']] = all at h
  induction h generalizing steps with
  | done => simp at hall
  | stay hrest ih =>
    cases steps with
    | nil => cases hall; exact hrest
    | cons step steps => cases hall; exact .stay (ih rfl)
  | up hrest ih =>
    cases steps with
    | nil => cases hall
    | cons step steps => cases hall; exact .up (ih rfl)
  | into hname hfind hrest ih =>
    cases steps with
    | nil => cases hall; exact absurd rfl hname.ne_point
    | cons step steps => cases hall; exact .into hname hfind (ih rfl)
  | file hname hfind =>
    cases steps with
    | nil => cases hall; exact absurd rfl hname.ne_point
    | cons step steps => simp at hall
  | link hname hfind hfollow => cases hfollow
  | through hname hfind hon hempty hrest ih =>
    cases steps with
    | nil => cases hall; exact absurd rfl hname.ne_point
    | cons step steps =>
      cases hall
      exact .through hname hfind (.inr rfl) hempty (ih (List.append_assoc _ _ _))

/-- A walk that ends at something other than a link does not depend on whether links at the end are
followed. -/
theorem Walks.followed {links : Nat} {here there : Location} {steps : List (List Char)}
    (h : tree.Walks false links here steps there)
    (hlink : ∀ target, tree.find? there ≠ some (.link target)) :
    tree.Walks true links here steps there := by
  induction h with
  | done links here => exact .done links here
  | stay _ ih => exact .stay (ih hlink)
  | up _ ih => exact .up (ih hlink)
  | into hname hfind _ ih => exact .into hname hfind (ih hlink)
  | file hname hfind => exact .file hname hfind
  | link _ hfind _ => exact absurd hfind (hlink _)
  | through hname hfind _ hempty _ ih => exact .through hname hfind (.inr rfl) hempty (ih hlink)

/-- A walk that leads somewhere does so if a link at the end is not followed. -/
theorem Walks.unfollowed {links : Nat} {here there : Location} {steps : List (List Char)}
    (h : tree.Walks true links here steps there) :
    ∃ end', tree.Walks false links here steps end' := by
  induction h with
  | done links here => exact ⟨here, .done links here⟩
  | stay _ ih => exact ih.imp fun _ => .stay
  | up _ ih => exact ih.imp fun _ => .up
  | into hname hfind _ ih => exact ih.imp fun _ => .into hname hfind
  | file hname hfind => exact ⟨_, .file hname hfind⟩
  | link hname hfind _ => exact ⟨_, .link hname hfind rfl⟩
  | @through links here there name steps target hname hfind _ hempty _ ih =>
    cases steps with
    | nil => exact ⟨_, .link hname hfind rfl⟩
    | cons step steps =>
      exact ih.imp fun _ => .through hname hfind (.inl (List.cons_ne_nil _ _)) hempty

/-! ## Where walks end -/

/-- Whether a location and all above it are directories. -/
def Rooted (tree : FileTree) (here : Location) : Prop :=
  ∀ above, above <+: here → tree.find? above = some .directory

theorem Rooted.find? {here : Location} (h : tree.Rooted here) :
    tree.find? here = some .directory :=
  h here (List.prefix_refl here)

theorem rooted_home (tree : FileTree) : tree.Rooted tree.home := by
  intro above habove
  have hprefix : above.isPrefixOf tree.home = true := List.isPrefixOf_iff_prefix.mpr habove
  rw [FileTree.find?, if_pos hprefix]

theorem rooted_origin {here : Location} (h : tree.Rooted here) (path : String) :
    tree.Rooted (origin here path) := by
  unfold origin
  split
  · intro above habove
    exact h above (habove.trans (List.nil_prefix))
  · exact h

theorem Rooted.dropLast {here : Location} (h : tree.Rooted here) : tree.Rooted here.dropLast :=
  fun above habove => h above (habove.trans (List.dropLast_prefix here))

theorem Rooted.enter {here : Location} {name : List Char} (h : tree.Rooted here)
    (hname : tree.find? (here ++ [name]) = some .directory) : tree.Rooted (here ++ [name]) := by
  intro above habove
  rcases List.prefix_concat_iff.mp habove with rfl | habove
  · exact hname
  · exact h above habove

theorem isDots_of_getLast? {step : List Char} {steps : List (List Char)}
    (h : ∀ last ∈ (step :: steps).getLast?, IsDots last) :
    ∀ last ∈ steps.getLast?, IsDots last := by
  intro last hlast
  cases steps with
  | nil => cases hlast
  | cons next steps => exact h last (by rwa [List.getLast?_cons_cons])

/-- A walk that does not end with a name ends in a directory. -/
theorem Walks.rooted {links : Nat} {here there : Location} {steps : List (List Char)}
    (h : tree.Walks follow links here steps there) (hhere : tree.Rooted here)
    (hlast : ∀ step ∈ steps.getLast?, IsDots step) : tree.Rooted there := by
  induction h with
  | done links here => exact hhere
  | stay _ ih => exact ih hhere (isDots_of_getLast? hlast)
  | up _ ih => exact ih hhere.dropLast (isDots_of_getLast? hlast)
  | into _ hfind _ ih => exact ih (hhere.enter hfind) (isDots_of_getLast? hlast)
  | file hname _ => exact absurd (hlast _ rfl) hname.1
  | link hname _ _ => exact absurd (hlast _ rfl) hname.1
  | @through links here there name steps target hname _ _ _ _ ih =>
    -- a name is not the last step
    have hne : steps ≠ [] := by
      rintro rfl
      exact hname.1 (hlast _ rfl)
    refine ih (rooted_origin hhere target) ?_
    rw [List.getLast?_append_of_ne_nil _ hne]
    exact isDots_of_getLast? hlast

/-! ## Walks in other trees -/

/-- Whether two entries are alike to a walk. -/
inductive Alike : Entry → Entry → Prop
  | directory : Alike .directory .directory
  | file (content content' : ByteArray) (mode mode' : Nat) :
      Alike (.file content mode) (.file content' mode')
  | link (target : String) : Alike (.link target) (.link target)

theorem Alike.refl (entry : Entry) : Alike entry entry := by
  cases entry with
  | directory => exact .directory
  | file content mode => exact .file _ _ _ _
  | link target => exact .link target

/-- Whether a tree has all that another one has; files may hold something else. -/
structure Extends (tree extended : FileTree) : Prop where
  home : extended.home = tree.home
  entries : ∀ location entry, tree.find? location = some entry →
    ∃ entry', extended.find? location = some entry' ∧ Alike entry entry'

theorem Walks.of_extends {extended : FileTree} (hext : tree.Extends extended) {links : Nat}
    {here there : Location} {steps : List (List Char)}
    (h : tree.Walks follow links here steps there) :
    extended.Walks follow links here steps there := by
  induction h with
  | done links here => exact .done links here
  | stay _ ih => exact .stay ih
  | up _ ih => exact .up ih
  | into hname hfind _ ih =>
    obtain ⟨_, hfind', halike⟩ := hext.entries _ _ hfind
    cases halike
    exact .into hname hfind' ih
  | file hname hfind =>
    obtain ⟨_, hfind', halike⟩ := hext.entries _ _ hfind
    cases halike
    exact .file hname hfind'
  | link hname hfind hfollow =>
    obtain ⟨_, hfind', halike⟩ := hext.entries _ _ hfind
    cases halike
    exact .link hname hfind' hfollow
  | through hname hfind hon hempty _ ih =>
    obtain ⟨_, hfind', halike⟩ := hext.entries _ _ hfind
    cases halike
    exact .through hname hfind' hon hempty ih

/-- Whether no link in a tree leads by a name. -/
def Unlinked (tree : FileTree) (name : List Char) : Prop :=
  ∀ location target, tree.find? location = some (.link target) → name ∉ FileTree.steps target

/-- A walk does not see an entry whose name it does not meet. -/
theorem walk_put_of_unlinked {name : List Char} (hlinks : tree.Unlinked name)
    (directory : Location) (entry : Entry) {links : Nat} {here : Location}
    {steps : List (List Char)} (hsteps : name ∉ steps) :
    (tree.put (directory ++ [name]) entry).walk follow links here steps =
      tree.walk follow links here steps := by
  induction links, here, steps using walk_induction with
  | nil links here => rw [walk_nil, walk_nil]
  | cons links here step steps ih fewer =>
    rw [List.mem_cons, not_or] at hsteps
    by_cases hdots : IsDots step
    · rcases hdots with rfl | rfl
      · rw [walk_point, walk_point, ih _ hsteps.2]
      · rw [walk_points, walk_points, ih _ hsteps.2]
    have hne : here ++ [step] ≠ directory ++ [name] := by
      intro h
      exact hsteps.1 (List.singleton_inj.mp (List.append_inj' h rfl).2).symm
    rw [walk_name hdots, walk_name hdots, find?_put_of_ne tree entry hne]
    split
    · rfl
    unfold walkOn
    cases hfind : tree.find? (here ++ [step]) with
    | none => rfl
    | some found =>
      cases found with
      | directory => exact ih _ hsteps.2
      | file content mode => rfl
      | link target =>
        cases links with
        | zero => rfl
        | succ links =>
          simp only
          have hmore : name ∉ FileTree.steps target ++ steps := by
            rw [List.mem_append, not_or]
            exact ⟨hlinks _ _ hfind, hsteps.2⟩
          rw [fewer links rfl _ _ hmore]

end ComponentRules.FileTree
