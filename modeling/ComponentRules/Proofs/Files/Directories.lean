import ComponentRules.Files.Access
import ComponentRules.Proofs.Files.Walks

/-!
# The directory of a path

The directory that a path is in is found twice: as a text, by cutting off the last part, and as a
walk along all names but the last. Both lead to the same place.

* `Path.Named`: paths that end with a name.
* `Path.realParts_above`: the parts of the directory are those of the path without the last.
* `FileTree.resolve_directoryOf`: the walk to the directory.
-/

namespace ComponentRules

open Text

/-! ## Joined parts -/

namespace Text

variable {sep : Char}

theorem joinWith_concat {parts : List (List Char)} (h : parts ≠ []) (last : List Char) :
    joinWith sep (parts ++ [last]) = joinWith sep parts ++ sep :: last := by
  induction parts with
  | nil => exact absurd rfl h
  | cons part parts ih =>
    cases parts with
    | nil => rfl
    | cons next parts =>
      have hne : next :: parts ++ [last] ≠ [] := by simp
      rw [List.cons_append, joinWith_cons_of_ne_nil hne, ih (List.cons_ne_nil _ _),
        joinWith_cons_of_ne_nil (List.cons_ne_nil _ _), List.append_assoc, List.cons_append]

theorem prefix_joinWith {parts all : List (List Char)} (h : parts <+: all) :
    joinWith sep parts <+: joinWith sep all := by
  obtain ⟨more, rfl⟩ := h
  induction parts with
  | nil => exact List.nil_prefix
  | cons part parts ih =>
    cases parts with
    | nil =>
      cases more with
      | nil => exact List.prefix_refl _
      | cons next more => exact List.prefix_append _ _
    | cons next parts =>
      have hne : next :: parts ++ more ≠ [] := by simp
      rw [List.cons_append, joinWith_cons_of_ne_nil hne,
        joinWith_cons_of_ne_nil (List.cons_ne_nil _ _), List.prefix_append_right_inj,
        List.cons_prefix_cons]
      exact ⟨rfl, ih⟩

end Text

namespace Path

/-! ## Parts that count -/

/-- Some parts without those that do not count. -/
def real (parts : List (List Char)) : List (List Char) :=
  parts.filter fun part => !isIdle part

theorem real_cons_of_isIdle {part : List Char} (h : isIdle part = true)
    (parts : List (List Char)) : real (part :: parts) = real parts :=
  List.filter_cons_of_neg (by simp [h])

theorem real_dropIdle (parts : List (List Char)) : real (dropIdle parts) = real parts := by
  have hdrop : ∀ parts : List (List Char), real (parts.dropWhile isIdle) = real parts := by
    intro parts
    induction parts with
    | nil => rfl
    | cons part parts ih =>
      by_cases h : isIdle part = true
      · rw [List.dropWhile_cons_of_pos h, ih, real_cons_of_isIdle h]
      · rw [List.dropWhile_cons_of_neg h]
  have hreverse : ∀ parts, real parts.reverse = (real parts).reverse :=
    fun parts => List.filter_reverse
  rw [dropIdle, hreverse, hdrop, hreverse, List.reverse_reverse]

theorem prefix_dropIdle (parts : List (List Char)) : dropIdle parts <+: parts := by
  have h := List.dropWhile_suffix isIdle (l := parts.reverse)
  rw [← List.reverse_prefix, List.reverse_reverse] at h
  exact h

theorem dropIdle_concat {part : List Char} (h : isIdle part = false) (parts : List (List Char)) :
    dropIdle (parts ++ [part]) = parts ++ [part] := by
  rw [dropIdle, List.reverse_concat, List.dropWhile_cons_of_neg (by simp [h]), List.reverse_cons,
    List.reverse_reverse]

/-- Nothing idle is left at the end. -/
theorem dropIdle_ne_singleton_nil (parts : List (List Char)) : dropIdle parts ≠ [[]] := by
  intro h
  have hlast := List.head?_dropWhile_not isIdle parts.reverse
  rw [dropIdle, List.reverse_eq_iff] at h
  rw [h] at hlast
  exact Bool.noConfusion (hlast : isIdle [] = false)

theorem real_splitOn_joinWith {parts : List (List Char)} (h : ∀ part ∈ parts, '/' ∉ part) :
    real (splitOn '/' (joinWith '/' parts)) = real parts := by
  cases parts with
  | nil => rfl
  | cons part parts => rw [splitOn_joinWith (List.cons_ne_nil _ _) h]

/-! ## Paths that end with a name -/

/-- Whether a path ends with a name behind some parts. -/
structure EndsWith (path : String) (front : List (List Char)) (name : List Char) : Prop where
  split : splitOn '/' path.toList = front ++ [name]
  ne_nil : name ≠ []
  ne_point : name ≠ ['.']

variable {path : String} {front : List (List Char)} {name : List Char}

theorem EndsWith.isIdle (h : EndsWith path front name) : isIdle name = false := by
  simp [Path.isIdle, h.ne_nil, h.ne_point]

/-- What stands behind the lead of a path: the parts of the whole path, but for idle ones at the
beginning. -/
theorem EndsWith.behind_lead (h : EndsWith path front name) :
    ∃ parts, splitOn '/' (path.toList.drop (lead path.toList).length) = parts ++ [name] ∧
      real parts = real front ∧ (lead path.toList = ['.'] → parts.head? = some []) := by
  obtain ⟨hsplit, hnil, hpoint⟩ := h
  unfold lead
  split
  · rename_i rest heq
    rw [heq, splitOn, if_pos rfl] at hsplit
    cases front with
    | nil =>
      rw [List.nil_append, List.cons.injEq] at hsplit
      exact absurd hsplit.1.symm hnil
    | cons part front =>
      rw [List.cons_append, List.cons.injEq] at hsplit
      obtain ⟨rfl, hrest⟩ := hsplit
      refine ⟨front, ?_, (real_cons_of_isIdle rfl _).symm,
        fun hlead => absurd hlead (by decide)⟩
      rw [heq]
      exact hrest
  · rename_i heq
    rw [heq] at hsplit
    cases front with
    | nil => cases hsplit; exact absurd rfl hpoint
    | cons part front => simp [splitOn] at hsplit
  · rename_i rest heq
    have hpart : '/' ∉ ['.'] := by decide
    rw [heq, show '.' :: '/' :: rest = ['.'] ++ '/' :: rest from rfl,
      splitOn_append_sep hpart] at hsplit
    cases front with
    | nil =>
      rw [List.nil_append, List.cons.injEq] at hsplit
      exact absurd hsplit.1.symm hpoint
    | cons part front =>
      rw [List.cons_append, List.cons.injEq] at hsplit
      obtain ⟨rfl, hrest⟩ := hsplit
      refine ⟨[] :: front, ?_, ?_, fun _ => rfl⟩
      · rw [heq]
        simp only [List.length_singleton, List.drop_succ_cons, List.drop_zero]
        rw [splitOn, if_pos rfl, hrest, List.cons_append]
      · rw [real_cons_of_isIdle rfl, real_cons_of_isIdle rfl]
  · exact ⟨front, hsplit, rfl, fun hlead => absurd hlead (by decide)⟩

theorem prefix_lead (cs : List Char) : lead cs <+: cs := by
  unfold lead
  split
  · exact ⟨_, rfl⟩
  · exact List.prefix_refl _
  · exact ⟨_, rfl⟩
  · exact List.nil_prefix

theorem lead_append_drop (cs : List Char) : lead cs ++ cs.drop (lead cs).length = cs :=
  List.prefix_iff_eq_append.mp (prefix_lead cs)

theorem lead_cases (cs : List Char) :
    (lead cs = ['/'] ∧ cs.head? = some '/') ∨ lead cs = ['.'] ∨
      (lead cs = [] ∧ cs.head? ≠ some '/') := by
  unfold lead
  split
  · exact .inl ⟨rfl, rfl⟩
  · exact .inr (.inl rfl)
  · exact .inr (.inl rfl)
  · rename_i hslash _ _
    refine .inr (.inr ⟨rfl, fun hhead => ?_⟩)
    obtain ⟨rest, hrest⟩ := List.head?_eq_some_iff.mp hhead
    exact hslash rest hrest

/-- **The directory of a path that ends with a name**: a beginning of the path, with all parts that
count but the last, and with a slash at the beginning if the path has one. -/
theorem EndsWith.exists_directory (h : EndsWith path front name) :
    ∃ above : List Char,
      FileTree.directoryOf path = (if above = [] then "." else String.ofList above) ∧
      above <+: path.toList ∧ real (splitOn '/' above) = real front ∧
      (above = [] → path.toList.head? ≠ some '/') := by
  obtain ⟨parts, hparts, hreal, hpoint⟩ := h.behind_lead
  have hdropped : dropIdle (parts ++ [name]) = parts ++ [name] := dropIdle_concat h.isIdle parts
  have hbegin : dropIdle parts <+: parts ++ [name] :=
    (prefix_dropIdle parts).trans (List.prefix_append _ _)
  have hslash : ∀ part ∈ dropIdle parts, '/' ∉ part := by
    intro part hpart
    refine @not_mem_of_mem_splitOn '/' (path.toList.drop (lead path.toList).length) part ?_
    rw [hparts]
    exact hbegin.subset hpart
  refine ⟨lead path.toList ++ joinWith '/' (dropIdle parts), ?_, ?_, ?_, ?_⟩
  · have hparent : parent? path =
        some (String.ofList (lead path.toList ++ joinWith '/' (dropIdle parts))) := by
      unfold parent?
      simp only [hparts, hdropped]
      split
      · rename_i hnil _
        exact absurd hnil (List.append_ne_nil_of_right_ne_nil _ (List.cons_ne_nil _ _))
      · rename_i hnil _
        exact absurd hnil (List.append_ne_nil_of_right_ne_nil _ (List.cons_ne_nil _ _))
      · rw [List.dropLast_concat]
    unfold FileTree.directoryOf
    rw [hparent]
    generalize lead path.toList ++ joinWith '/' (dropIdle parts) = above
    cases above with
    | nil => rfl
    | cons c above =>
      split
      · rename_i hempty
        exact absurd (String.ofList_injective (Option.some.inj hempty)) (List.cons_ne_nil _ _)
      · rename_i heq
        cases heq
        rw [if_neg (List.cons_ne_nil _ _)]
      · rename_i hnone
        cases hnone
  · have hjoined := @prefix_joinWith '/' _ _ hbegin
    rw [← hparts, joinWith_splitOn] at hjoined
    conv_rhs => rw [← lead_append_drop path.toList]
    exact (List.prefix_append_right_inj _).mpr hjoined
  · rw [← hreal, ← real_dropIdle parts]
    rcases lead_cases path.toList with ⟨hlead, -⟩ | hlead | ⟨hlead, -⟩
    · rw [hlead, List.singleton_append, splitOn, if_pos rfl, real_cons_of_isIdle rfl,
        real_splitOn_joinWith hslash]
    · rw [hlead]
      obtain ⟨more, hmore⟩ := List.head?_eq_some_iff.mp (hpoint hlead)
      have hbegin := prefix_dropIdle parts
      cases hdrop : dropIdle parts with
      | nil => rfl
      | cons part rest =>
        -- the first part is the empty one behind the point, and not the only one
        rw [hdrop, hmore, List.cons_prefix_cons] at hbegin
        obtain ⟨rfl, -⟩ := hbegin
        have hne : rest ≠ [] := by
          rintro rfl
          exact dropIdle_ne_singleton_nil parts hdrop
        rw [hdrop] at hslash
        have hrest : ∀ part ∈ rest, '/' ∉ part :=
          fun part hpart => hslash part (List.mem_cons_of_mem _ hpart)
        rw [joinWith_cons_of_ne_nil hne, List.nil_append, splitOn_append_sep (by decide),
          real_cons_of_isIdle rfl, real_cons_of_isIdle rfl, real_splitOn_joinWith hrest]
    · rw [hlead, List.nil_append, real_splitOn_joinWith hslash]
  · intro hnil
    rw [List.append_eq_nil_iff] at hnil
    rcases lead_cases path.toList with ⟨hlead, -⟩ | hlead | ⟨-, hhead⟩
    · rw [hlead] at hnil
      exact absurd hnil.1 (List.cons_ne_nil _ _)
    · rw [hlead] at hnil
      exact absurd hnil.1 (List.cons_ne_nil _ _)
    · exact hhead

end Path

/-! ## The walk to the directory -/

namespace FileTree

variable {tree : FileTree} {path : String}

theorem skipIdle_steps (path : String) :
    skipIdle (steps path) = Path.real (splitOn '/' path.toList) := by
  have hend : skipIdle (if endsWithSlash path then [['.']] else []) = [] := by
    split <;> rfl
  unfold steps
  rw [skipIdle, List.filter_append, ← skipIdle, ← skipIdle, hend, List.append_nil, names, skipIdle,
    List.filter_filter, Path.real]
  refine List.filter_congr fun part _ => ?_
  rw [Path.isIdle, Bool.not_or, Bool.and_comm]
  rfl

/-- A path whose last name is no point, and behind which no slash stands, ends with this name. -/
theorem endsWith_of_names {front : List (List Char)} {name : List Char}
    (hnames : names path = front ++ [name]) (hslash : endsWithSlash path = false)
    (hpoint : name ≠ ['.']) :
    ∃ parts, Path.EndsWith path parts name ∧ Path.real parts = skipIdle front := by
  obtain ⟨parts, last, hsplit⟩ : ∃ parts last, splitOn '/' path.toList = parts ++ [last] :=
    ⟨_, _, (List.dropLast_concat_getLast (splitOn_ne_nil '/' path.toList)).symm⟩
  have hlast : last ≠ [] := by
    rintro rfl
    cases parts with
    | nil =>
      rw [names, hsplit] at hnames
      simp at hnames
    | cons part parts =>
      -- then the path ends with the slash in front of the empty part
      have hjoin := joinWith_splitOn '/' path.toList
      rw [hsplit, joinWith_concat (List.cons_ne_nil _ _)] at hjoin
      rw [endsWithSlash, ← hjoin, List.getLast?_concat] at hslash
      exact absurd hslash (by decide)
  rw [names, hsplit, List.filter_append, List.filter_cons_of_pos (by simpa using hlast),
    List.filter_nil] at hnames
  obtain ⟨rfl, hname⟩ := List.append_inj' hnames rfl
  cases hname
  refine ⟨parts, ⟨hsplit, hlast, hpoint⟩, ?_⟩
  rw [skipIdle, List.filter_filter, Path.real]
  refine List.filter_congr fun part _ => ?_
  rw [Path.isIdle, Bool.not_or, Bool.and_comm]
  rfl

theorem pathFault?_eq_none {path : String} :
    pathFault? path = none ↔
      '\x00' ∉ path.toList ∧ path.isEmpty = false ∧ path.utf8ByteSize < pathLimit := by
  unfold pathFault?
  constructor
  · intro h
    split at h
    · cases h
    split at h
    · cases h
    split at h
    · cases h
    · simp_all
  · rintro ⟨hnul, hempty, hsize⟩
    rw [if_neg (by simpa using hnul), if_neg (by simp [hempty]), if_neg (Nat.not_le.mpr hsize)]

theorem pathFault?_of_prefix {above : List Char} (h : pathFault? path = none) (hne : above ≠ [])
    (hbegin : above <+: path.toList) : pathFault? (String.ofList above) = none := by
  obtain ⟨hnul, -, hsize⟩ := pathFault?_eq_none.mp h
  obtain ⟨rest, hrest⟩ := hbegin
  have hpath : path = String.ofList above ++ String.ofList rest := by
    rw [← String.ofList_append, hrest, String.ofList_toList]
  refine pathFault?_eq_none.mpr ⟨?_, ?_, ?_⟩
  · rw [String.toList_ofList]
    intro hmem
    exact hnul (hrest ▸ List.mem_append_left rest hmem)
  · simpa using hne
  · rw [hpath, String.utf8ByteSize_append] at hsize
    omega

/-- **The path of the directory leads to where the names but the last lead.** -/
theorem resolve_directoryOf {front : List (List Char)} {name : List Char} {parent : Location}
    (hfault : pathFault? path = none) (hnames : names path = front ++ [name])
    (hslash : endsWithSlash path = false) (hpoint : name ≠ ['.'])
    (hwalk : tree.Walks true maxLinks (origin tree.home path) (front ++ [['.']]) parent) :
    tree.resolve true (directoryOf path) = .ok parent := by
  obtain ⟨parts, hends, hparts⟩ := endsWith_of_names hnames hslash hpoint
  obtain ⟨above, habove, hbegin, hreal, hhead⟩ := hends.exists_directory
  have hsteps : skipIdle (steps (directoryOf path)) = skipIdle front := by
    rw [skipIdle_steps, habove, ← hparts, ← hreal]
    split
    · rename_i hnil
      rw [hnil]
      rfl
    · rw [String.toList_ofList]
  have hfault' : pathFault? (directoryOf path) = none := by
    rw [habove]
    split
    · exact pathFault?_eq_none.mpr (by decide)
    · rename_i hne
      exact pathFault?_of_prefix hfault hne hbegin
  have horigin : origin tree.home (directoryOf path) = origin tree.home path := by
    rw [habove]
    split
    · rename_i hnil
      rw [origin, origin, if_neg (by decide), if_neg (hhead hnil)]
    · rename_i hne
      obtain ⟨rest, hrest⟩ := hbegin
      rw [origin, origin, String.toList_ofList, ← hrest, List.head?_append_of_ne_nil _ hne]
  rw [resolve, hfault']
  simp only
  rw [horigin, walk_eq_ok]
  refine Walks.of_point ?_
  rw [← walk_eq_ok] at hwalk ⊢
  rw [← walk_skipIdle, hsteps, walk_skipIdle, hwalk]

end FileTree

end ComponentRules
