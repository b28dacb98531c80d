import ComponentRules.Proofs.Json.Reading

/-!
# Records read and read again

The results of readers taken apart, and readers applied to the trees of written values. A record
takes its members in one after the other. Those it does not know it may keep in the order in which
they stand, as any value.

* `record_eq_ok`, `sequence_eq_ok`, `optional_eq_ok`, `once_eq_ok`: what it takes to be read.
* `Reader.Keeps`: the record keeps what it does not know. `fields_of_members`: what it has kept
  is what the unknown members of the text stand for.
* `Reader.Runs`: what written members make of the members before them.
* `Object.Loose`: an object that a record may keep; `runs_loose`: it keeps it as it is.
-/

namespace ComponentRules.Json

open Outcome

variable {α σ : Type}

/-! ## What it takes to be read -/

theorem ObjectEnd.kept_eq_ok {fin : ObjectEnd} {stop : Nat} :
    fin.kept = .ok stop ↔ fin = .closed stop := by
  cases fin <;> simp [kept]

theorem ArrayEnd.kept_eq_ok {fin : ArrayEnd} {u : Unit} : fin.kept = .ok u ↔ fin = .closed := by
  cases fin <;> simp [kept]

namespace Reader

theorem once_eq_ok {current now : Option α} {name : String} {settled : Nat}
    {read : Except Fault α} :
    once current name settled read = .ok now ↔
      current = none ∧ ∃ a, read = .ok a ∧ now = some a := by
  cases current with
  | some a => simp [once]
  | none => simp [once, map_eq_ok, @eq_comm _ now]

/-- A member that is read once and then kept in a part of what has been read. -/
theorem once_bind_eq_ok {current : Option α} {name : String} {settled : Nat}
    {read : Except Fault α} {put : Option α → σ} {s' : σ} :
    (do pure (put (← once current name settled read)) : Except Fault σ) = .ok s' ↔
      current = none ∧ ∃ a, read = .ok a ∧ put (some a) = s' := by
  rw [bind_eq_ok]
  constructor
  · rintro ⟨now, honce, h⟩
    obtain ⟨hnone, a, ha, rfl⟩ := once_eq_ok.mp honce
    exact ⟨hnone, a, ha, pure_eq_ok.mp h⟩
  · rintro ⟨hnone, a, ha, rfl⟩
    exact ⟨some a, once_eq_ok.mpr ⟨hnone, a, ha, rfl⟩, rfl⟩

theorem required_eq_ok {name : String} {current : Option α} {a : α} :
    required name current = .ok a ↔ current = some a := by
  cases current <;> simp [required]

theorem record_eq_ok {name : String} {member : Member σ} {empty : σ}
    {finish : σ → Except String α} {room : Nat} {node : Node} {a : α} :
    record name member empty finish (room + 1) node = .ok a ↔
      ∃ start ms stop, node = .object start ms (.closed stop) ∧
        ∃ s, members room member empty ms = .ok s ∧ finish s = .ok a := by
  cases node with
  | object start ms fin =>
    rw [record, object, bind_eq_ok]
    constructor
    · rintro ⟨s, hs, h⟩
      obtain ⟨stop, hstop, h⟩ := bind_eq_ok.mp h
      rw [ObjectEnd.kept_eq_ok] at hstop
      subst hstop
      refine ⟨start, ms, stop, rfl, s, hs, ?_⟩
      split at h
      · rename_i b hb
        cases h
        exact hb
      · cases h
    · rintro ⟨_, _, stop, hnode, s, hs, ha⟩
      cases hnode
      exact ⟨s, hs, bind_eq_ok.mpr ⟨stop, rfl, by simp only [ha]⟩⟩
  | scalar v start stop => simp [record]
  | array start items fin => simp [record]
  | broken start fault => simp [record]

theorem sequence_eq_ok {reader : Reader α} {room : Nat} {node : Node} {as : List α} :
    sequence reader (room + 1) node = .ok as ↔
      ∃ start items, node = .array start items .closed ∧
        List.Forall₂ (fun item a => reader room item = .ok a) items as := by
  cases node with
  | array start items fin =>
    rw [sequence, bind_eq_ok]
    constructor
    · rintro ⟨bs, hbs, h⟩
      obtain ⟨_, hfin, h⟩ := bind_eq_ok.mp h
      rw [ArrayEnd.kept_eq_ok] at hfin
      subst hfin
      cases h
      exact ⟨start, items, rfl, mapM_eq_ok.mp hbs⟩
    · rintro ⟨_, _, hnode, h⟩
      cases hnode
      exact ⟨as, mapM_eq_ok.mpr h, rfl⟩
  | scalar v start stop => simp [sequence]
  | object start members fin => simp [sequence]
  | broken start fault => simp [sequence]

/-- Every item of a list was read from an item of the array. -/
theorem read_of_mem_sequence {reader : Reader α} {room : Nat} {node : Node} {as : List α}
    (h : sequence reader (room + 1) node = .ok as) {a : α} (ha : a ∈ as) :
    ∃ item, reader room item = .ok a := by
  obtain ⟨start, items, -, hitems⟩ := sequence_eq_ok.mp h
  obtain ⟨hlength, hget⟩ := List.forall₂_iff_get.mp hitems
  obtain ⟨⟨i, hi⟩, rfl⟩ := List.mem_iff_get.mp ha
  exact ⟨_, hget i (hlength ▸ hi) hi⟩

theorem map_reader_eq_ok {room : Nat} {node : Node} {o : Object} :
    map (room + 1) node = .ok o ↔
      ∃ start ms stop, node = .object start ms (.closed stop) ∧
        Node.fields room .empty ms = .ok o := by
  cases node with
  | object start ms fin =>
    rw [map, bind_eq_ok]
    constructor
    · rintro ⟨read, hread, h⟩
      obtain ⟨stop, hstop, h⟩ := bind_eq_ok.mp h
      rw [ObjectEnd.kept_eq_ok] at hstop
      subst hstop
      cases h
      exact ⟨start, ms, stop, rfl, hread⟩
    · rintro ⟨_, _, stop, hnode, h⟩
      cases hnode
      exact ⟨o, h, rfl⟩
  | scalar v start stop => simp [map]
  | array start items fin => simp [map]
  | broken start fault => simp [map]

theorem optional_eq_ok {reader : Reader α} {room : Nat} {node : Node} {a : Option α}
    (h : optional reader room node = .ok a) :
    a = none ∨ ∃ b, a = some b ∧ reader room node = .ok b ∧
      ∀ start stop, node ≠ .scalar .null start stop := by
  unfold optional at h
  split at h
  · cases h
    exact .inl rfl
  · rename_i hnull
    obtain ⟨b, hb, h⟩ := bind_eq_ok.mp h
    cases h
    exact .inr ⟨b, rfl, hb, hnull⟩

end Reader

/-! ## Unknown members -/

/-- Whether a key is one of those that a record knows. -/
def Key.knownBy (known : List String) (key : Key) : Bool :=
  match key.text with
  | .ok text => known.contains text
  | .error _ => false

/-- The members of a tree that a record does not know. -/
def unknownMembers (known : List String) (ms : List (Key × Node)) : List (Key × Node) :=
  ms.filter fun m => !m.1.knownBy known

/-- An object that a record may keep: each of its members could have been read, and none has a key
that the record knows. -/
structure Object.Loose (known : List String) (room : Nat) (o : Object) : Prop where
  fits : o.Fits room
  unknown : ∀ key ∈ o.fields.keys, key ∉ known

theorem Object.loose_empty (known : List String) (room : Nat) : empty.Loose known room :=
  ⟨fits_empty room, fun _ hkey => absurd hkey List.not_mem_nil⟩

/-- The record keeps the members it does not know in a part of what it has read. -/
structure Reader.Keeps (member : Reader.Member σ) (known : List String) (extra : σ → Object)
    (put : σ → Object → σ) : Prop where
  same_extra : ∀ {s s' : σ} {key : String} {settled room : Nat} {node : Node}, key ∈ known →
    member s key settled room node = .ok s' → extra s' = extra s
  insert_extra : ∀ {key : String}, key ∉ known → ∀ (s : σ) (settled room : Nat) (node : Node),
    member s key settled room node =
      (node.value room).map fun v => put s ((extra s).insert key v)
  extra_put : ∀ (s : σ) (o : Object), extra (put s o) = o
  put_extra : ∀ s : σ, put s (extra s) = s
  put_put : ∀ (s : σ) (o more : Object), put (put s o) more = put s more

section Keeps

variable {member : Reader.Member σ} {known : List String} {extra : σ → Object}
  {put : σ → Object → σ}

/-- **What a record has kept** is what the unknown members of the text stand for. -/
theorem fields_of_members (h : Reader.Keeps member known extra put) {room : Nat}
    {ms : List (Key × Node)} {s s' : σ} (hs : Reader.members room member s ms = .ok s') :
    Node.fields room (extra s) (unknownMembers known ms) = .ok (extra s') := by
  induction ms generalizing s with
  | nil =>
    cases hs
    rfl
  | cons m ms ih =>
    obtain ⟨key, node⟩ := m
    obtain ⟨text, htext, hs⟩ := bind_eq_ok.mp hs
    obtain ⟨next, hnext, hs⟩ := bind_eq_ok.mp hs
    have hrest := ih hs
    by_cases hk : text ∈ known
    · have hskip : unknownMembers known ((key, node) :: ms) = unknownMembers known ms := by
        simp [unknownMembers, Key.knownBy, htext, hk]
      rw [hskip, ← h.same_extra hk hnext, hrest]
    · have hkeep : unknownMembers known ((key, node) :: ms) =
          (key, node) :: unknownMembers known ms := by
        simp [unknownMembers, Key.knownBy, htext, hk]
      rw [h.insert_extra hk, map_eq_ok] at hnext
      obtain ⟨v, hv, rfl⟩ := hnext
      rw [h.extra_put] at hrest
      rw [hkeep, Node.fields]
      exact bind_eq_ok.mpr ⟨text, htext, bind_eq_ok.mpr ⟨v, hv, hrest⟩⟩

/-- The keys of members that were read stand in the text. -/
theorem mem_keys_of_fields {room : Nat} {ms : List (Key × Node)} {before after : Object}
    (h : Node.fields room before ms = .ok after) {key : String} (hk : key ∈ after.fields.keys) :
    key ∈ before.fields.keys ∨ ∃ m ∈ ms, m.1.text = .ok key := by
  induction ms generalizing before with
  | nil =>
    rw [Node.fields] at h
    cases h
    exact .inl hk
  | cons m ms ih =>
    obtain ⟨k, node⟩ := m
    rw [Node.fields] at h
    obtain ⟨text, htext, h⟩ := bind_eq_ok.mp h
    obtain ⟨v, hv, h⟩ := bind_eq_ok.mp h
    rcases ih h with hb | ⟨m, hm, hkey⟩
    · rcases Fields.mem_keys_insert.mp hb with hb | rfl
      · exact .inl hb
      · exact .inr ⟨(k, node), List.mem_cons_self, htext⟩
    · exact .inr ⟨m, List.mem_cons_of_mem _ hm, hkey⟩

/-- What a record has kept it may keep again. -/
theorem loose_of_members (h : Reader.Keeps member known extra put) {room : Nat}
    {ms : List (Key × Node)} {s s' : σ} (hempty : extra s = .empty)
    (hs : Reader.members room member s ms = .ok s') : (extra s').Loose known room := by
  have hfields := fields_of_members h hs
  rw [hempty] at hfields
  refine ⟨fits_of_fields (Object.fits_empty room) hfields, fun key hk hknown => ?_⟩
  obtain hnil | ⟨m, hm, hkey⟩ := mem_keys_of_fields hfields hk
  · cases hnil
  · have hm := (List.mem_filter.mp hm).2
    simp [Key.knownBy, hkey, hknown] at hm

end Keeps

/-! ## Known members -/

/-- Whether a key is the given one. -/
def Key.reads (text : String) (key : Key) : Bool :=
  match key.text with
  | .ok t => t == text
  | .error _ => false

/-- The value of the first member with a key. -/
def memberNode? (text : String) (ms : List (Key × Node)) : Option Node :=
  (ms.find? (·.1.reads text)).map (·.2)

/-- The record takes the members of one key, once, with a reader, into a part of what it has
read. -/
structure Reader.Takes (member : Reader.Member σ) (text : String) (reader : Reader α)
    (get : σ → Option α) : Prop where
  own : ∀ {s s' : σ} {settled room : Nat} {node : Node},
    member s text settled room node = .ok s' →
      get s = none ∧ ∃ a, reader room node = .ok a ∧ get s' = some a
  other : ∀ {s s' : σ} {key : String} {settled room : Nat} {node : Node}, key ≠ text →
    member s key settled room node = .ok s' → get s' = get s

section Takes

variable {member : Reader.Member σ} {text : String} {reader : Reader α} {get : σ → Option α}

theorem get_of_members (h : Reader.Takes member text reader get) {room : Nat}
    {ms : List (Key × Node)} {s s' : σ} {a : α} (hget : get s = some a)
    (hs : Reader.members room member s ms = .ok s') : get s' = some a := by
  induction ms generalizing s with
  | nil =>
    cases hs
    exact hget
  | cons m ms ih =>
    obtain ⟨key, -, hs⟩ := bind_eq_ok.mp hs
    obtain ⟨next, hnext, hs⟩ := bind_eq_ok.mp hs
    by_cases hk : key = text
    · subst hk
      rw [(h.own hnext).1] at hget
      cases hget
    · exact ih ((h.other hk hnext).trans hget) hs

/-- **What a record has taken** is what its reader makes of the member in the text. -/
theorem taken_of_members (h : Reader.Takes member text reader get) {room : Nat}
    {ms : List (Key × Node)} {s s' : σ} (hget : get s = none)
    (hs : Reader.members room member s ms = .ok s') :
    Option.Rel (fun node a => reader room node = .ok a) (memberNode? text ms) (get s') := by
  induction ms generalizing s with
  | nil =>
    cases hs
    rw [hget]
    exact .none
  | cons m ms ih =>
    obtain ⟨k, node⟩ := m
    obtain ⟨key, hkey, hs⟩ := bind_eq_ok.mp hs
    obtain ⟨next, hnext, hs⟩ := bind_eq_ok.mp hs
    by_cases hk : key = text
    · -- once it is set it stays, since a second member of the key would be a fault
      subst hk
      obtain ⟨-, a, ha, hnow⟩ := h.own hnext
      have hfirst : memberNode? key ((k, node) :: ms) = some node := by
        simp [memberNode?, Key.reads, hkey]
      rw [hfirst, get_of_members h hnow hs]
      exact .some ha
    · have hlater : memberNode? text ((k, node) :: ms) = memberNode? text ms := by
        simp [memberNode?, Key.reads, hkey, hk]
      rw [hlater]
      exact ih ((h.other hk hnext).trans hget) hs

/-- What a record has taken was read. -/
theorem read_of_members (h : Reader.Takes member text reader get) {room : Nat}
    {ms : List (Key × Node)} {s s' : σ} {a : α} (hget : get s = none)
    (hs : Reader.members room member s ms = .ok s') (ha : get s' = some a) :
    ∃ node, reader room node = .ok a := by
  have htaken := taken_of_members h hget hs
  rw [ha] at htaken
  generalize memberNode? text ms = found at htaken
  cases htaken with
  | some hread => exact ⟨_, hread⟩

end Takes

/-! ## Written members -/

/-- Whether the tree of some members, wherever they stand in a text, makes one state of a record
out of another. -/
def Reader.Runs (room : Nat) (member : Reader.Member σ) (s : σ) (fields : Fields) (s' : σ) : Prop :=
  ∀ ms, ShowsMembers ms fields → Reader.members room member s ms = .ok s'

theorem showsMembers_append {ms : List (Key × Node)} {fields more : Fields}
    (h : ShowsMembers ms (fields ++ more)) :
    ∃ first last, ms = first ++ last ∧ ShowsMembers first fields ∧ ShowsMembers last more := by
  induction fields generalizing ms with
  | nil => exact ⟨[], ms, rfl, .nil, h⟩
  | cons f fields ih =>
    cases h with
    | cons hnode hms =>
      obtain ⟨first, last, rfl, hfirst, hlast⟩ := ih hms
      exact ⟨_ :: first, last, rfl, .cons hnode hfirst, hlast⟩

theorem Reader.members_append (room : Nat) (member : Reader.Member σ) (s : σ)
    (first last : List (Key × Node)) :
    Reader.members room member s (first ++ last) =
      Reader.members room member s first >>= fun s' => Reader.members room member s' last := by
  induction first generalizing s with
  | nil => rfl
  | cons m first ih => simp [Reader.members, ih]

namespace Reader.Runs

variable {room : Nat} {member : Reader.Member σ}

theorem nil (s : σ) : Runs room member s [] s := by
  rintro _ ⟨⟩
  rfl

theorem cons {s s' s'' : σ} {key : String} {value : Value} {fields : Fields}
    (h : ∀ settled node, Shows node value → member s key settled room node = .ok s')
    (hrest : Runs room member s' fields s'') :
    Runs room member s ((key, value) :: fields) s'' := by
  rintro _ (_ | ⟨hnode, hmembers⟩)
  exact bind_eq_ok.mpr ⟨key, rfl, bind_eq_ok.mpr ⟨s', h _ _ hnode, hrest _ hmembers⟩⟩

theorem one {s s' : σ} {key : String} {value : Value}
    (h : ∀ settled node, Shows node value → member s key settled room node = .ok s') :
    Runs room member s [(key, value)] s' :=
  cons h (nil s')

theorem append {s s' s'' : σ} {fields more : Fields} (h : Runs room member s fields s')
    (hmore : Runs room member s' more s'') : Runs room member s (fields ++ more) s'' := by
  intro ms hms
  obtain ⟨first, last, rfl, hfirst, hlast⟩ := showsMembers_append hms
  rw [members_append, h first hfirst]
  exact hmore last hlast

end Reader.Runs

/-- **A record keeps unknown members as they are written.** -/
theorem runs_loose {member : Reader.Member σ} {known : List String} {extra : σ → Object}
    {put : σ → Object → σ} (h : Reader.Keeps member known extra put) {room : Nat} {o : Object}
    (ho : o.Loose known room) {s : σ} (hs : extra s = .empty) :
    Reader.Runs room member s o.fields (put s o) := by
  -- what is kept grows at its end until it is the whole object
  have general : ∀ (rest : Fields) (s : σ), (∀ key ∈ rest.keys, key ∉ known) →
      Value.depthFields rest ≤ room → o.fields = (extra s).fields ++ rest →
      Reader.Runs room member s rest (put s o) := by
    intro rest
    induction rest with
    | nil =>
      intro s _ _ hall
      have hextra : extra s = o := Object.ext (by rw [hall, List.append_nil])
      rw [← hextra, h.put_extra]
      exact .nil s
    | cons f rest ih =>
      intro s hunknown hroom hall
      obtain ⟨key, value⟩ := f
      obtain ⟨hle, hles⟩ := Nat.max_le.mp hroom
      have hnodup := o.distinct.1
      rw [hall, Fields.keys, List.map_append, List.nodup_append] at hnodup
      have hnew : key ∉ (extra s).fields.keys := fun hmem =>
        hnodup.2.2 key hmem key List.mem_cons_self rfl
      have hvalue : value.Distinct := Value.distinctFields_iff.mp o.distinct.2 (key, value)
        (hall ▸ List.mem_append_right _ List.mem_cons_self)
      let next := (extra s).insert key ⟨value, hvalue⟩
      have hnext : next.fields = (extra s).fields ++ [(key, value)] :=
        Fields.insert_of_not_mem hnew value
      have hfirst (settled : Nat) (node : Node) (hnode : Shows node value) :
          member s key settled room node = .ok (put s next) := by
        rw [h.insert_extra (hunknown key List.mem_cons_self),
          @value_of_shows ⟨value, hvalue⟩ node room hnode hle]
        rfl
      have hrest := ih (put s next) (fun k hk => hunknown k (List.mem_cons_of_mem _ hk)) hles
      rw [h.extra_put, h.put_put, hnext, List.append_assoc] at hrest
      exact .cons hfirst (hrest hall)
  have hrun := general o.fields s ho.unknown ho.fits
  rw [hs] at hrun
  exact hrun rfl

/-! ## Readers of written values -/

namespace Reader

theorem string_of_shows {s : String} {node : Node} (h : Shows node (.string s)) (room : Nat) :
    string room node = .ok s := by
  cases h
  rfl

theorem optional_of_shows {reader : Reader α} {room : Nat} {v : Value} {node : Node} {a : α}
    (h : Shows node v) (hv : v ≠ .null) (ha : reader room node = .ok a) :
    optional reader room node = .ok (some a) := by
  have hnode : ∀ start stop, node ≠ .scalar .null start stop := by
    rintro start stop rfl
    cases h
    exact hv rfl
  unfold optional
  split
  · exact absurd rfl (hnode _ _)
  · rw [ha]
    rfl

theorem join_map_some (a : Option α) : (a.map some).join = a := by
  cases a <;> rfl

theorem sequence_of_shows {reader : Reader α} {room : Nat} {node : Node} {toValue : α → Value}
    {as : List α} (h : Shows node (.array (as.map toValue)))
    (hread : ∀ a ∈ as, ∀ item, Shows item (toValue a) → reader room item = .ok a) :
    sequence reader (room + 1) node = .ok as := by
  have items : ∀ (as : List α) (nodes : List Node), ShowsItems nodes (as.map toValue) →
      (∀ a ∈ as, ∀ item, Shows item (toValue a) → reader room item = .ok a) →
      List.Forall₂ (fun item a => reader room item = .ok a) nodes as := by
    intro as
    induction as with
    | nil =>
      rintro nodes ⟨⟩ _
      exact .nil
    | cons a as ih =>
      rintro nodes (_ | ⟨hnode, hnodes⟩) hread
      exact .cons (hread a List.mem_cons_self _ hnode)
        (ih _ hnodes fun b hb => hread b (List.mem_cons_of_mem _ hb))
  cases h with
  | array start hnodes => exact sequence_eq_ok.mpr ⟨start, _, rfl, items as _ hnodes hread⟩

theorem map_of_shows {room : Nat} {node : Node} {o : Object} (h : Shows node (.object o.fields))
    (ho : o.Fits room) : map (room + 1) node = .ok o := by
  cases h with
  | object start stop hms =>
    exact map_reader_eq_ok.mpr ⟨start, _, stop, rfl, fields_of_shows hms ho⟩

theorem record_of_shows {name : String} {member : Member σ} {empty s : σ}
    {finish : σ → Except String α} {room : Nat} {node : Node} {fields : Fields} {a : α}
    (h : Shows node (.object fields)) (hrun : Runs room member empty fields s)
    (ha : finish s = .ok a) : record name member empty finish (room + 1) node = .ok a := by
  cases h with
  | object start stop hms =>
    exact record_eq_ok.mpr ⟨start, _, stop, rfl, s, hrun _ hms, ha⟩

end Reader

end ComponentRules.Json
