import ComponentRules.Json.Number

/-!
# JSON values

Values as a document holds them: whole numbers and floating-point numbers are kept apart, and the
members of an object keep their order.

* `Fields`: the members of an object, with `Fields.get?` and `Fields.insert`. An inserted key
  keeps its place if it is there already.
* `Value.same`: equality up to the order of members. It is reflexive on values whose objects
  repeat no key (`same_self`).
-/

namespace ComponentRules.Json

inductive Value
  | null
  | bool (b : Bool)
  | number (n : Number)
  | string (s : String)
  | array (items : List Value)
  | object (fields : List (String × Value))
  deriving Inhabited, Repr

/-- The members of an object, in order. -/
abbrev Fields := List (String × Value)

namespace Fields

/-- The value of the first member with a key. -/
def get? (fields : Fields) (key : String) : Option Value :=
  List.lookup key fields

/-- Sets a member: a key that is there keeps its place, a new one comes last. -/
def insert (fields : Fields) (key : String) (value : Value) : Fields :=
  match fields with
  | [] => [(key, value)]
  | (k, v) :: rest => if k = key then (k, value) :: rest else (k, v) :: insert rest key value

def keys (fields : Fields) : List String :=
  fields.map (·.1)

@[simp] theorem keys_nil : keys [] = [] := rfl

@[simp] theorem keys_cons (f : String × Value) (fields : Fields) :
    keys (f :: fields) = f.1 :: keys fields := rfl

theorem mem_keys_insert {fields : Fields} {key : String} {value : Value} {k : String} :
    k ∈ keys (insert fields key value) ↔ k ∈ keys fields ∨ k = key := by
  induction fields with
  | nil => simp [insert, keys]
  | cons f fields ih =>
    obtain ⟨k', v⟩ := f
    by_cases h : k' = key
    · simp only [insert, if_pos h, keys_cons, List.mem_cons]
      grind
    · simp only [insert, if_neg h, keys_cons, List.mem_cons, ih]
      grind

/-- Insertion repeats no key. -/
theorem nodup_keys_insert {fields : Fields} (h : (keys fields).Nodup) (key : String)
    (value : Value) : (keys (insert fields key value)).Nodup := by
  induction fields with
  | nil => simp [insert, keys]
  | cons f fields ih =>
    obtain ⟨k, v⟩ := f
    rw [keys_cons, List.nodup_cons] at h
    by_cases hk : k = key
    · simpa only [insert, if_pos hk, keys_cons, List.nodup_cons] using h
    · simp only [insert, if_neg hk, keys_cons, List.nodup_cons, mem_keys_insert]
      exact ⟨fun hm => hm.elim h.1 hk, ih h.2⟩

/-- A new key comes last. -/
theorem insert_of_not_mem {fields : Fields} {key : String} (h : key ∉ keys fields)
    (value : Value) : insert fields key value = fields ++ [(key, value)] := by
  induction fields with
  | nil => rfl
  | cons f fields ih =>
    obtain ⟨k, v⟩ := f
    simp only [keys_cons, List.mem_cons, not_or] at h
    rw [insert, if_neg (Ne.symm h.1), ih h.2, List.cons_append]

theorem mem_insert {fields : Fields} {key : String} {value : Value} {f : String × Value}
    (h : f ∈ fields.insert key value) : f ∈ fields ∨ f = (key, value) := by
  induction fields with
  | nil => exact .inr (List.mem_singleton.mp h)
  | cons g fields ih =>
    obtain ⟨k, v⟩ := g
    rw [Fields.insert] at h
    split at h
    next hk =>
      rcases List.mem_cons.mp h with rfl | h
      · exact .inr (by rw [hk])
      · exact .inl (List.mem_cons_of_mem _ h)
    next =>
      rcases List.mem_cons.mp h with rfl | h
      · exact .inl List.mem_cons_self
      · exact (ih h).imp_left (List.mem_cons_of_mem _)

end Fields

/-! ## Equality up to the order of members -/

namespace Value

mutual

/-- Equality of values; the order of members does not count. -/
def same : Value → Value → Bool
  | .null, .null => true
  | .bool a, .bool b => a == b
  | .number a, .number b => a.same b
  | .string a, .string b => a == b
  | .array a, .array b => sameItems a b
  | .object a, .object b => a.length == b.length && within a b
  | _, _ => false

/-- Equality item by item. -/
def sameItems : List Value → List Value → Bool
  | [], [] => true
  | a :: as, b :: bs => a.same b && sameItems as bs
  | _, _ => false

/-- Whether every member of the one has its equal in the other. -/
def within : List (String × Value) → List (String × Value) → Bool
  | [], _ => true
  | (key, a) :: rest, other =>
    (match Fields.get? other key with
      | some b => a.same b
      | none => false) && within rest other

end

mutual

/-- Whether no object in a value repeats a key. -/
def Distinct : Value → Prop
  | .array items => DistinctItems items
  | .object fields => (Fields.keys fields).Nodup ∧ DistinctFields fields
  | _ => True

/-- Whether no object in the items repeats a key. -/
def DistinctItems : List Value → Prop
  | [] => True
  | item :: items => item.Distinct ∧ DistinctItems items

/-- Whether no object in the values of the members repeats a key. -/
def DistinctFields : List (String × Value) → Prop
  | [] => True
  | (_, value) :: fields => value.Distinct ∧ DistinctFields fields

end

theorem distinctItems_iff {items : List Value} :
    DistinctItems items ↔ ∀ item ∈ items, item.Distinct := by
  induction items with
  | nil => simp [DistinctItems]
  | cons item items ih => simp [DistinctItems, ih]

theorem distinctFields_iff {fields : Fields} :
    DistinctFields fields ↔ ∀ f ∈ fields, f.2.Distinct := by
  induction fields with
  | nil => simp [DistinctFields]
  | cons f fields ih =>
    obtain ⟨key, value⟩ := f
    simp [DistinctFields, ih]

/-- Insertion of a value that repeats no key. -/
theorem distinct_insert {fields : Fields} (h : (Value.object fields).Distinct) (key : String)
    {value : Value} (hvalue : value.Distinct) :
    (Value.object (fields.insert key value)).Distinct := by
  refine ⟨Fields.nodup_keys_insert h.1 key value, distinctFields_iff.mpr fun f hf => ?_⟩
  rcases Fields.mem_insert hf with hf | rfl
  · exact distinctFields_iff.mp h.2 f hf
  · exact hvalue

theorem get?_of_mem {fields : Fields} (h : (Fields.keys fields).Nodup) {key : String} {v : Value}
    (hm : (key, v) ∈ fields) : Fields.get? fields key = some v := by
  induction fields with
  | nil => simp at hm
  | cons f fields ih =>
    obtain ⟨k, w⟩ := f
    rw [Fields.keys_cons, List.nodup_cons] at h
    rcases List.mem_cons.1 hm with he | ht
    · cases he
      simp [Fields.get?]
    · have hne : (key == k) = false := by
        rw [beq_eq_false_iff_ne]
        rintro rfl
        exact h.1 (List.mem_map.2 ⟨_, ht, rfl⟩)
      simp only [Fields.get?, List.lookup_cons, hne]
      exact ih h.2 ht

mutual

/-- A value equals itself if its objects repeat no key. -/
theorem same_self : ∀ v : Value, v.Distinct → v.same v = true
  | .null, _ => rfl
  | .bool _, _ => by simp [same]
  | .number _, _ => by simp [same, Number.same_self]
  | .string _, _ => by simp [same]
  | .array items, h => by
    rw [same]
    exact sameItems_self items h
  | .object fields, h => by
    rw [same, within_of_get? fields fields h.2 fun _ hm => get?_of_mem h.1 hm]
    simp

theorem sameItems_self : ∀ items : List Value, DistinctItems items → sameItems items items = true
  | [], _ => rfl
  | item :: items, h => by
    rw [sameItems, same_self item h.1, sameItems_self items h.2, Bool.and_self]

theorem within_of_get? : ∀ (rest other : List (String × Value)), DistinctFields rest →
    (∀ f ∈ rest, Fields.get? other f.1 = some f.2) → within rest other = true
  | [], _, _, _ => rfl
  | (key, v) :: rest, other, hd, hg => by
    rw [within, hg (key, v) (by simp)]
    simp only [same_self v hd.1, Bool.true_and]
    exact within_of_get? rest other hd.2 fun f hf => hg f (by simp [hf])

end

end Value

end ComponentRules.Json
