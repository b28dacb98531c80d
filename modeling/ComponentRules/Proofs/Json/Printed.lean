import ComponentRules.Proofs.Json.Numbers

/-!
# Written values have their tree again

The tree of a written text is the tree of the value that was written, but for the numbers that are
not read back. It is built token by token: wherever a value is awaited, the tokens of a written
value put its tree there and leave the stack of open containers as it was.

* `Shows`: a tree without faults that stands for a value.
* `Outlines`: the same, except that numbers may be read as others, unless they are stable.
* `foldl_print`: the tokens of a written value fill the place of a value.
* `outlines_pretty`, `ofText_pretty`: the tree of a value written with a line for each item.
-/

namespace ComponentRules.Json

/-! ## Trees without faults -/

mutual

/-- Whether a tree stands for a value: its literals are whole and its containers closed. What is
read from a number must be as demanded. -/
inductive ShowsBy (reads : Number → Except Fault Number → Prop) : Node → Value → Prop
  | null (start stop : Nat) : ShowsBy reads (.scalar .null start stop) .null
  | bool (b : Bool) (start stop : Nat) : ShowsBy reads (.scalar (.bool b) start stop) (.bool b)
  | number {n : Number} {value : Except Fault Number} (start stop : Nat) : reads n value →
      ShowsBy reads (.scalar (.number value) start stop) (.number n)
  | string (s : String) (start stop : Nat) :
      ShowsBy reads (.scalar (.string (.ok s)) start stop) (.string s)
  | array (start : Nat) {nodes : List Node} {items : List Value} :
      ShowsItemsBy reads nodes items → ShowsBy reads (.array start nodes .closed) (.array items)
  | object (start stop : Nat) {members : List (Key × Node)} {fields : Fields} :
      ShowsMembersBy reads members fields →
        ShowsBy reads (.object start members (.closed stop)) (.object fields)

/-- Whether trees stand for items. -/
inductive ShowsItemsBy (reads : Number → Except Fault Number → Prop) :
    List Node → List Value → Prop
  | nil : ShowsItemsBy reads [] []
  | cons {node : Node} {nodes : List Node} {item : Value} {items : List Value} :
      ShowsBy reads node item → ShowsItemsBy reads nodes items →
        ShowsItemsBy reads (node :: nodes) (item :: items)

/-- Whether members of a tree stand for members of an object. -/
inductive ShowsMembersBy (reads : Number → Except Fault Number → Prop) :
    List (Key × Node) → Fields → Prop
  | nil : ShowsMembersBy reads [] []
  | cons {key : String} {settled : Nat} {node : Node} {members : List (Key × Node)}
      {value : Value} {fields : Fields} :
      ShowsBy reads node value → ShowsMembersBy reads members fields →
        ShowsMembersBy reads ((⟨.ok key, settled⟩, node) :: members) ((key, value) :: fields)

end

/-- Whether a tree stands for a value, with all its numbers. -/
abbrev Shows : Node → Value → Prop :=
  ShowsBy fun n value => value = .ok n

abbrev ShowsItems : List Node → List Value → Prop :=
  ShowsItemsBy fun n value => value = .ok n

abbrev ShowsMembers : List (Key × Node) → Fields → Prop :=
  ShowsMembersBy fun n value => value = .ok n

/-- Whether a tree stands for a value, except that numbers may be read as others, unless they are
stable. -/
abbrev Outlines : Node → Value → Prop :=
  ShowsBy fun n value => n.Stable → value = .ok n

abbrev OutlinesItems : List Node → List Value → Prop :=
  ShowsItemsBy fun n value => n.Stable → value = .ok n

abbrev OutlinesMembers : List (Key × Node) → Fields → Prop :=
  ShowsMembersBy fun n value => n.Stable → value = .ok n

/-! ## Stable values -/

namespace Value

mutual

/-- Whether all numbers in a value are stable. -/
def Stable : Value → Prop
  | .number n => n.Stable
  | .array items => StableItems items
  | .object fields => StableFields fields
  | _ => True

/-- Whether all numbers in the items are stable. -/
def StableItems : List Value → Prop
  | [] => True
  | item :: items => item.Stable ∧ StableItems items

/-- Whether all numbers in the values of the members are stable. -/
def StableFields : List (String × Value) → Prop
  | [] => True
  | (_, value) :: fields => value.Stable ∧ StableFields fields

end

variable {items : List Value} {fields more : Fields}

@[simp]
theorem stable_string (s : String) : Stable (.string s) :=
  trivial

@[simp]
theorem stable_array : Stable (.array items) ↔ StableItems items :=
  Iff.rfl

@[simp]
theorem stable_object : Stable (.object fields) ↔ StableFields fields :=
  Iff.rfl

@[simp]
theorem stableFields_nil : StableFields [] :=
  trivial

@[simp]
theorem stableFields_cons {key : String} {value : Value} :
    StableFields ((key, value) :: fields) ↔ value.Stable ∧ StableFields fields :=
  Iff.rfl

theorem stableFields_append :
    StableFields (fields ++ more) ↔ StableFields fields ∧ StableFields more := by
  induction fields with
  | nil => simp
  | cons f fields ih =>
    obtain ⟨key, value⟩ := f
    simp [ih, and_assoc]

theorem stableItems_iff : StableItems items ↔ ∀ item ∈ items, item.Stable := by
  induction items with
  | nil => simp [StableItems]
  | cons item items ih => simp [StableItems, ih]

end Value

mutual

/-- A tree stands for a stable value with all its numbers. -/
theorem shows_of_stable : ∀ {v : Value} {node : Node}, Outlines node v → v.Stable → Shows node v
  | _, _, .null start stop, _ => .null start stop
  | _, _, .bool b start stop, _ => .bool b start stop
  | _, _, .number start stop hread, hv => .number start stop (hread hv)
  | _, _, .string s start stop, _ => .string s start stop
  | _, _, .array start hitems, hv => .array start (showsItems_of_stable hitems hv)
  | _, _, .object start stop hmembers, hv =>
    .object start stop (showsMembers_of_stable hmembers hv)

theorem showsItems_of_stable : ∀ {items : List Value} {nodes : List Node},
    OutlinesItems nodes items → Value.StableItems items → ShowsItems nodes items
  | _, _, .nil, _ => .nil
  | _, _, .cons hnode hnodes, hv =>
    .cons (shows_of_stable hnode hv.1) (showsItems_of_stable hnodes hv.2)

theorem showsMembers_of_stable : ∀ {fields : Fields} {members : List (Key × Node)},
    OutlinesMembers members fields → Value.StableFields fields → ShowsMembers members fields
  | _, _, .nil, _ => .nil
  | _, _, .cons hnode hmembers, hv =>
    .cons (shows_of_stable hnode hv.1) (showsMembers_of_stable hmembers hv.2)

end

/-! ## Blanks between the tokens -/

/-- Whether a style writes nothing but blanks between the tokens. -/
def Style.Blank (style : Style) : Prop :=
  (∀ depth, ∀ c ∈ style.gap depth, isGap c = true) ∧ ∀ c ∈ style.afterColon, isGap c = true

theorem blank_pretty : Style.pretty.Blank := by
  refine ⟨fun depth c hc => ?_, fun c hc => ?_⟩
  · rcases List.mem_cons.mp hc with rfl | hc
    · decide
    · rw [(List.mem_replicate.mp hc).2]
      decide
  · rw [List.mem_singleton.mp hc]
    decide

theorem ends_gap_append {gap t : List Char} (hgap : ∀ c ∈ gap, isGap c = true) (ht : Ends t) :
    Ends (gap ++ t) := by
  cases gap with
  | nil => exact ht
  | cons c gap => exact ends_of_isGap (hgap c List.mem_cons_self) _

theorem ends_printItems {style : Style} (hs : style.Blank) (depth : Nat) (items : List Value)
    (rest : List Char) : Ends (Value.printItems style depth items rest) := by
  cases items with
  | nil =>
    rw [Value.printItems]
    exact ends_gap_append (hs.1 depth) (ends_cons.mpr (by decide))
  | cons item items =>
    rw [Value.printItems, ends_cons]
    decide

theorem ends_printFields {style : Style} (hs : style.Blank) (depth : Nat) (fields : Fields)
    (rest : List Char) : Ends (Value.printFields style depth fields rest) := by
  cases fields with
  | nil =>
    rw [Value.printFields]
    exact ends_gap_append (hs.1 depth) (ends_cons.mpr (by decide))
  | cons field fields =>
    rw [Value.printFields, ends_cons]
    decide

/-! ## Text behind a value -/

mutual

/-- What is written in front of a text does not depend on it. -/
theorem print_append : ∀ (v : Value) (style : Style) (depth : Nat) (rest more : List Char),
    v.print style depth rest ++ more = v.print style depth (rest ++ more)
  | .null, _, _, _, _ | .bool true, _, _, _, _ | .bool false, _, _, _, _ | .array [], _, _, _, _
  | .object [], _, _, _, _ => by simp [Value.print]
  | .number n, _, _, _, _ => by simp [Value.print]
  | .string s, _, _, _, _ => by simp [Value.print, printString]
  | .array (item :: items), style, depth, rest, more => by
    rw [Value.print, Value.print, List.cons_append, List.append_assoc, print_append item,
      printItems_append items]
  | .object ((key, value) :: fields), style, depth, rest, more => by
    rw [Value.print, Value.print, ← printFields_append fields, ← print_append value]
    simp [printString]

theorem printItems_append : ∀ (items : List Value) (style : Style) (depth : Nat)
    (rest more : List Char),
    Value.printItems style depth items rest ++ more =
      Value.printItems style depth items (rest ++ more)
  | [], _, _, _, _ => by simp [Value.printItems]
  | item :: items, style, depth, rest, more => by
    rw [Value.printItems, Value.printItems, List.cons_append, List.append_assoc, print_append item,
      printItems_append items]

theorem printFields_append : ∀ (fields : Fields) (style : Style) (depth : Nat)
    (rest more : List Char),
    Value.printFields style depth fields rest ++ more =
      Value.printFields style depth fields (rest ++ more)
  | [], _, _, _, _ => by simp [Value.printFields]
  | (key, value) :: fields, style, depth, rest, more => by
    rw [Value.printFields, Value.printFields, ← printFields_append fields, ← print_append value]
    simp [printString]

end

/-! ## Building the tree -/

/-- Whether a tree under construction awaits a value in the innermost of the given containers. A
closing bracket may mean something else to it. -/
def Growth.Awaits (growth : Growth) (frames : List Frame) : Prop :=
  ∀ token : Token, token.lexeme ≠ .endArray → growth.step token = Growth.value frames token

theorem awaits_value (frames : List Frame) : Growth.Awaits ⟨.value, frames⟩ frames :=
  fun _ _ => rfl

theorem awaits_firstItem (start : Nat) (frames : List Frame) :
    Growth.Awaits ⟨.firstItem start, frames⟩ (.item start [] :: frames) := by
  rintro ⟨lexeme, b, e⟩ h
  cases lexeme <;> first | rfl | exact absurd rfl h

theorem awaits_nextItem (start : Nat) (items : List Node) (frames : List Frame) :
    Growth.Awaits ⟨.nextItem start items, frames⟩ (.item start items :: frames) := by
  rintro ⟨lexeme, b, e⟩ h
  cases lexeme <;> first | rfl | exact absurd rfl h

/-- The tokens of a scalar, put where a value is awaited. -/
theorem foldl_scalar {growth : Growth} {frames : List Frame} (h : growth.Awaits frames)
    {token : Token} {tokens : List Token} {node : Node} (hl : token.lexeme ≠ .endArray)
    (hv : Growth.value frames token = Growth.fill node frames) :
    (token :: tokens).foldl Growth.step growth =
      tokens.foldl Growth.step (Growth.fill node frames) := by
  rw [List.foldl_cons, h token hl, hv]

/-- The tokens up to the value of a member. -/
theorem foldl_key {style : Style} (hs : style.Blank) (growth : Growth) (start : Nat)
    (before : List (Key × Node)) (frames : List Frame)
    (hg : ∀ token : Token, ∀ s, token.lexeme = .string (.ok s) →
      growth.step token = ⟨.afterKey start before (.ok s), frames⟩)
    (key : String) (offset : Nat) (rest : List Char) :
    ∃ settled stop,
      (Token.scan offset (printString key (':' :: (style.afterColon ++ rest)))).foldl Growth.step
          growth =
        (Token.scan stop rest).foldl Growth.step
          ⟨.value, .member start before ⟨.ok key, settled⟩ :: frames⟩ := by
  obtain ⟨next, hkey⟩ := scan_printString key offset (':' :: (style.afterColon ++ rest))
  refine ⟨next, next + 1 + style.afterColon.length, ?_⟩
  rw [hkey, scan_colon, scan_gap hs.2, List.foldl_cons, List.foldl_cons, hg _ key rfl]
  rfl

mutual

/-- **The tokens of a written value fill the place of a value**, with the tree of that value. -/
theorem foldl_print {style : Style} (hs : style.Blank) :
    ∀ (v : Value) (depth : Nat) (rest : List Char) (offset : Nat) (growth : Growth)
      (frames : List Frame), Ends rest → growth.Awaits frames →
    ∃ node stop, Outlines node v ∧
      (Token.scan offset (v.print style depth rest)).foldl Growth.step growth =
        (Token.scan stop rest).foldl Growth.step (Growth.fill node frames)
  | .null, depth, rest, offset, growth, frames, _, h => by
    refine ⟨_, offset + 4, .null offset (offset + 4), ?_⟩
    rw [Value.print, scan_null]
    exact foldl_scalar h nofun rfl
  | .bool true, depth, rest, offset, growth, frames, _, h => by
    refine ⟨_, offset + 4, .bool true offset (offset + 4), ?_⟩
    rw [Value.print, scan_true]
    exact foldl_scalar h nofun rfl
  | .bool false, depth, rest, offset, growth, frames, _, h => by
    refine ⟨_, offset + 5, .bool false offset (offset + 5), ?_⟩
    rw [Value.print, scan_false]
    exact foldl_scalar h nofun rfl
  | .number n, depth, rest, offset, growth, frames, hrest, h => by
    obtain ⟨value, stop, hscan, hread⟩ := scan_text n hrest offset
    refine ⟨_, stop, .number offset stop hread, ?_⟩
    rw [Value.print, hscan]
    exact foldl_scalar h nofun rfl
  | .string s, depth, rest, offset, growth, frames, _, h => by
    obtain ⟨stop, hscan⟩ := scan_printString s offset rest
    refine ⟨_, stop, .string s offset stop, ?_⟩
    rw [Value.print, hscan]
    exact foldl_scalar h nofun rfl
  | .array [], depth, rest, offset, growth, frames, _, h => by
    refine ⟨_, offset + 1 + 1, .array offset .nil, ?_⟩
    rw [Value.print, scan_beginArray, scan_endArray, List.foldl_cons,
      h ⟨.beginArray, offset, offset + 1⟩ nofun]
    rfl
  | .array (item :: items), depth, rest, offset, growth, frames, _, h => by
    rw [Value.print, scan_beginArray, scan_gap (hs.1 _), List.foldl_cons,
      h ⟨.beginArray, offset, offset + 1⟩ nofun]
    -- the first item stands in a frame of its own, the others behind an item
    obtain ⟨node, next, hnode, hitem⟩ := foldl_print hs item (depth + 1)
      (Value.printItems style depth items rest) (offset + 1 + (style.gap (depth + 1)).length)
      ⟨.firstItem offset, frames⟩ (.item offset [] :: frames) (ends_printItems hs _ _ _)
      (awaits_firstItem _ _)
    obtain ⟨nodes, stop, hnodes, hitems⟩ := foldl_printItems hs items depth rest next offset
      [node] frames
    exact ⟨_, stop, .array offset (.cons hnode hnodes), hitem.trans hitems⟩
  | .object [], depth, rest, offset, growth, frames, _, h => by
    refine ⟨_, offset + 1 + 1, .object offset (offset + 1 + 1) .nil, ?_⟩
    rw [Value.print, scan_beginObject, scan_endObject, List.foldl_cons,
      h ⟨.beginObject, offset, offset + 1⟩ nofun]
    rfl
  | .object ((key, value) :: fields), depth, rest, offset, growth, frames, _, h => by
    rw [Value.print, scan_beginObject, scan_gap (hs.1 _), List.foldl_cons,
      h ⟨.beginObject, offset, offset + 1⟩ nofun]
    obtain ⟨settled, mid, hkey⟩ := foldl_key hs ⟨.firstKey offset, frames⟩ offset [] frames
      (by rintro ⟨lexeme, b, e⟩ s rfl; rfl) key (offset + 1 + (style.gap (depth + 1)).length)
      (value.print style (depth + 1) (Value.printFields style depth fields rest))
    obtain ⟨node, next, hnode, hvalue⟩ := foldl_print hs value (depth + 1)
      (Value.printFields style depth fields rest) mid _ _ (ends_printFields hs _ _ _)
      (awaits_value (.member offset [] ⟨.ok key, settled⟩ :: frames))
    obtain ⟨members, stop, last, hmembers, hfields⟩ := foldl_printFields hs fields depth rest
      next offset [(⟨.ok key, settled⟩, node)] frames
    exact ⟨_, stop, .object offset last (.cons hnode hmembers),
      hkey.trans (hvalue.trans hfields)⟩

/-- The tokens of written items and the closing bracket complete an array. -/
theorem foldl_printItems {style : Style} (hs : style.Blank) :
    ∀ (items : List Value) (depth : Nat) (rest : List Char)
      (offset start : Nat) (before : List Node) (frames : List Frame),
    ∃ nodes stop, OutlinesItems nodes items ∧
      (Token.scan offset (Value.printItems style depth items rest)).foldl Growth.step
          ⟨.afterItem start before, frames⟩ =
        (Token.scan stop rest).foldl Growth.step
          (Growth.fill (.array start (before.reverse ++ nodes) .closed) frames)
  | [], depth, rest, offset, start, before, frames => by
    refine ⟨[], offset + (style.gap depth).length + 1, .nil, ?_⟩
    rw [Value.printItems, scan_gap (hs.1 _), scan_endArray, List.append_nil]
    rfl
  | item :: items, depth, rest, offset, start, before, frames => by
    rw [Value.printItems, scan_comma, scan_gap (hs.1 _), List.foldl_cons]
    obtain ⟨node, next, hnode, hitem⟩ := foldl_print hs item (depth + 1)
      (Value.printItems style depth items rest) (offset + 1 + (style.gap (depth + 1)).length)
      ⟨.nextItem start before, frames⟩ (.item start before :: frames) (ends_printItems hs _ _ _)
      (awaits_nextItem _ _ _)
    obtain ⟨nodes, stop, hnodes, hitems⟩ := foldl_printItems hs items depth rest next start
      (node :: before) frames
    rw [List.reverse_cons, List.append_assoc, List.singleton_append] at hitems
    exact ⟨node :: nodes, stop, .cons hnode hnodes, hitem.trans hitems⟩

/-- The tokens of written members and the closing brace complete an object. -/
theorem foldl_printFields {style : Style} (hs : style.Blank) :
    ∀ (fields : Fields) (depth : Nat) (rest : List Char)
      (offset start : Nat) (before : List (Key × Node)) (frames : List Frame),
    ∃ members stop last, OutlinesMembers members fields ∧
      (Token.scan offset (Value.printFields style depth fields rest)).foldl Growth.step
          ⟨.afterMember start before, frames⟩ =
        (Token.scan stop rest).foldl Growth.step
          (Growth.fill (.object start (before.reverse ++ members) (.closed last)) frames)
  | [], depth, rest, offset, start, before, frames => by
    refine ⟨[], offset + (style.gap depth).length + 1, offset + (style.gap depth).length + 1, .nil,
      ?_⟩
    rw [Value.printFields, scan_gap (hs.1 _), scan_endObject, List.append_nil]
    rfl
  | (key, value) :: fields, depth, rest, offset, start, before, frames => by
    rw [Value.printFields, scan_comma, scan_gap (hs.1 _), List.foldl_cons]
    obtain ⟨settled, mid, hkey⟩ := foldl_key hs ⟨.nextKey start before, frames⟩ start before frames
      (by rintro ⟨lexeme, b, e⟩ s rfl; rfl) key (offset + 1 + (style.gap (depth + 1)).length)
      (value.print style (depth + 1) (Value.printFields style depth fields rest))
    obtain ⟨node, next, hnode, hvalue⟩ := foldl_print hs value (depth + 1)
      (Value.printFields style depth fields rest) mid _ _ (ends_printFields hs _ _ _)
      (awaits_value (.member start before ⟨.ok key, settled⟩ :: frames))
    obtain ⟨members, stop, last, hmembers, hfields⟩ := foldl_printFields hs fields depth rest
      next start ((⟨.ok key, settled⟩, node) :: before) frames
    rw [List.reverse_cons, List.append_assoc, List.singleton_append] at hfields
    exact ⟨_, stop, last, .cons hnode hmembers, hkey.trans (hvalue.trans hfields)⟩

end

/-! ## Written documents -/

theorem toList_pretty (v : Value) : (v.pretty ++ "\n").toList = v.print .pretty 0 ['\n'] := by
  rw [String.toList_append, Value.pretty, String.toList_ofList]
  exact print_append v _ _ _ _

/-- **The tree of a written value.** -/
theorem outlines_pretty (v : Value) :
    ∃ node, Document.ofText (v.pretty ++ "\n") = ⟨node, none⟩ ∧ Outlines node v := by
  obtain ⟨node, stop, hnode, hfold⟩ := foldl_print blank_pretty v 0 ['\n'] 0 .start []
    (ends_of_isGap (by decide) _) (awaits_value [])
  have hblank : Token.scan stop ['\n'] = [] := by
    rw [Token.scan, if_pos (by decide), Token.scan]
  refine ⟨node, ?_, hnode⟩
  rw [Document.ofText, Document.ofTokens, toList_pretty, hfold, hblank]
  rfl

/-- The tree of the text that a stable value is written as. -/
theorem ofText_pretty {v : Value} (hv : v.Stable) :
    ∃ node, Document.ofText (v.pretty ++ "\n") = ⟨node, none⟩ ∧ Shows node v := by
  obtain ⟨node, htext, hnode⟩ := outlines_pretty v
  exact ⟨node, htext, shows_of_stable hnode hv⟩

end ComponentRules.Json
