import ComponentRules.Json.Value

/-!
# Values whose objects repeat no key

A value holds the members of an object in a list, which could hold a key twice. What is kept of a
document never does, and so it carries the proof of that. Both kinds of objects are compared in the
same way; for those here the comparison is reflexive.

* `Content`: a value in which no object repeats a key. There is one for each kind of value.
* `Object`: the members of an object in such a value, with `Object.insert`.
* `Content.same_self`, `Object.same_self`: each equals itself.
-/

namespace ComponentRules.Json

/-- A value in which no object repeats a key. -/
@[ext]
structure Content where
  value : Value
  distinct : value.Distinct

/-- The members of an object. Neither it nor any object in it repeats a key. -/
@[ext]
structure Object where
  fields : Fields
  distinct : (Value.object fields).Distinct

namespace Object

/-- An object without members. -/
def empty : Object :=
  ⟨[], List.nodup_nil, trivial⟩

/-- Sets a member: a key that is there keeps its place, a new one comes last. -/
def insert (o : Object) (key : String) (c : Content) : Object :=
  ⟨o.fields.insert key c.value, Value.distinct_insert o.distinct key c.distinct⟩

/-- The value of a member. -/
def get? (o : Object) (key : String) : Option Value :=
  o.fields.get? key

@[simp] theorem fields_empty : empty.fields = [] := rfl

@[simp] theorem fields_insert (o : Object) (key : String) (c : Content) :
    (o.insert key c).fields = o.fields.insert key c.value := rfl

/-- Equality of objects; the order of members does not count. -/
def same (a b : Object) : Bool :=
  Value.same (.object a.fields) (.object b.fields)

theorem same_self (o : Object) : o.same o = true :=
  Value.same_self (.object o.fields) o.distinct

end Object

namespace Content

def null : Content :=
  ⟨.null, trivial⟩

def bool (b : Bool) : Content :=
  ⟨.bool b, trivial⟩

def number (n : Number) : Content :=
  ⟨.number n, trivial⟩

def string (s : String) : Content :=
  ⟨.string s, trivial⟩

def array (items : List Content) : Content where
  value := .array (items.map (·.value))
  distinct := Value.distinctItems_iff.mpr (List.forall_mem_map.mpr fun c _ => c.distinct)

def object (o : Object) : Content :=
  ⟨.object o.fields, o.distinct⟩

/-- Equality of values; the order of members does not count. -/
def same (a b : Content) : Bool :=
  a.value.same b.value

theorem same_self (c : Content) : c.same c = true :=
  c.value.same_self c.distinct

end Content

end ComponentRules.Json
