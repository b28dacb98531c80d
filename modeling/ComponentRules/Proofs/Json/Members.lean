import ComponentRules.Proofs.Json.Records
import Mathlib.Data.List.Pairwise

/-!
# Records as lists of members that they know

A record is given by the members that it knows and by what it does with all others. Each member that
it knows it takes in once, into a place of its own. So whatever holds of every such record is said
here once, and a record only names its members and their places.

* `Reader.Field`, `Reader.takeIn`: a record as the list of the members that it knows.
* `Reader.Knows`: the places are apart. `Knows.takes`, `Knows.runs`: what is taken in.
* `Reader.Spare`: a further place for what is not known. `Spare.keeps`: it is kept there.
-/

namespace ComponentRules.Json

open Outcome

variable {α σ : Type}

namespace Reader

/-- A member that a record knows: how it is read, and where in a draft it is kept. -/
structure Field (σ : Type) where
  {α : Type}
  name : String
  reader : Reader α
  get : σ → Option α
  put : σ → Option α → σ
  get_put : ∀ s a, get (put s a) = a

/-- Whether two members have different names and are kept in different places. -/
def Field.Apart (f g : Field σ) : Prop :=
  f.name ≠ g.name ∧ (∀ s a, f.get (g.put s a) = f.get s) ∧ ∀ s a, g.get (f.put s a) = g.get s

instance : Std.Symm (@Field.Apart σ) where
  symm _ _ h := ⟨h.1.symm, h.2.2, h.2.1⟩

/-- Takes in a member of a record: each that is known once, and all others in the way given. -/
def takeIn (other : Member σ) : List (Field σ) → Member σ
  | [], s, key, settled, room, node => other s key settled room node
  | f :: fields, s, key, settled, room, node =>
    if key = f.name then do
      pure (f.put s (← once (f.get s) key settled (f.reader room node)))
    else takeIn other fields s key settled room node

/-- Whether the members that a record knows are apart, and all others change none of them. -/
structure Knows (other : Member σ) (fields : List (Field σ)) : Prop where
  apart : fields.Pairwise Field.Apart
  get_other : ∀ f ∈ fields, ∀ {s s' : σ} {key : String} {settled room : Nat} {node : Node},
    other s key settled room node = .ok s' → f.get s' = f.get s

section Knows

variable {other : Member σ} {fields : List (Field σ)} {f : Field σ}

theorem takeIn_of_mem (hapart : fields.Pairwise Field.Apart) (hf : f ∈ fields) (s : σ)
    (settled room : Nat) (node : Node) :
    takeIn other fields s f.name settled room node =
      (do pure (f.put s (← once (f.get s) f.name settled (f.reader room node))) :
        Except Fault σ) := by
  induction fields with
  | nil => cases hf
  | cons g fields ih =>
    obtain ⟨hfirst, hrest⟩ := List.pairwise_cons.mp hapart
    rw [takeIn]
    rcases List.mem_cons.mp hf with rfl | hf'
    · rw [if_pos rfl]
    · rw [if_neg (hfirst f hf').1.symm, ih hrest hf']

theorem takeIn_of_ne {key : String} (hkey : ∀ f ∈ fields, key ≠ f.name) (s : σ)
    (settled room : Nat) (node : Node) :
    takeIn other fields s key settled room node = other s key settled room node := by
  induction fields with
  | nil => rfl
  | cons f fields ih =>
    rw [List.forall_mem_cons] at hkey
    rw [takeIn, if_neg hkey.1, ih hkey.2]

/-- A record takes each member that it knows. -/
theorem Knows.takes (h : Knows other fields) (hf : f ∈ fields) :
    Takes (takeIn other fields) f.name f.reader f.get where
  own {s s' settled room node} hs := by
    rw [takeIn_of_mem h.apart hf] at hs
    obtain ⟨hnone, a, ha, rfl⟩ := once_bind_eq_ok.mp hs
    exact ⟨hnone, a, ha, f.get_put s _⟩
  other {s s' key settled room node} hkey hs := by
    by_cases hknown : ∃ g ∈ fields, key = g.name
    · obtain ⟨g, hg, rfl⟩ := hknown
      rw [takeIn_of_mem h.apart hg] at hs
      obtain ⟨-, a, -, rfl⟩ := once_bind_eq_ok.mp hs
      have hne : f ≠ g := fun heq => hkey (heq ▸ rfl)
      exact (h.apart.forall hf hg hne).2.1 s _
    · rw [takeIn_of_ne fun g hg heq => hknown ⟨g, hg, heq⟩] at hs
      exact h.get_other f hf hs

/-- A written member that a record knows is put into its place, if this is empty. -/
theorem Knows.runs (h : Knows other fields) (hf : f ∈ fields) {room : Nat} {s : σ} {value : Value}
    {a : f.α} (hnone : f.get s = none)
    (hread : ∀ node, Shows node value → f.reader room node = .ok a) :
    Runs room (takeIn other fields) s [(f.name, value)] (f.put s (some a)) := by
  refine .one fun settled node hnode => ?_
  rw [takeIn_of_mem h.apart hf]
  exact once_bind_eq_ok.mpr ⟨hnone, a, hread node hnode, rfl⟩

end Knows

/-! ## What is not known -/

/-- Keeps a member as any value. -/
def keepOther (extra : σ → Object) (put : σ → Object → σ) : Member σ := fun s key _ room node => do
  let value ← node.value room
  pure (put s ((extra s).insert key value))

/-- Whether there is a place for what a record does not know, besides the places of the members that
it knows. -/
structure Spare (fields : List (Field σ)) (extra : σ → Object) (put : σ → Object → σ) : Prop where
  apart : fields.Pairwise Field.Apart
  get_put : ∀ f ∈ fields, ∀ s more, f.get (put s more) = f.get s
  extra_field : ∀ f ∈ fields, ∀ s a, extra (f.put s a) = extra s
  extra_put : ∀ s more, extra (put s more) = more
  put_extra : ∀ s, put s (extra s) = s
  put_put : ∀ s less more, put (put s less) more = put s more

section Spare

variable {fields : List (Field σ)} {extra : σ → Object} {put : σ → Object → σ}

theorem Spare.knows (h : Spare fields extra put) : Knows (keepOther extra put) fields where
  apart := h.apart
  get_other f hf s s' key settled room node hs := by
    obtain ⟨value, -, hs⟩ := bind_eq_ok.mp hs
    cases hs
    exact h.get_put f hf s _

/-- A record with a place for what it does not know keeps it there. -/
theorem Spare.keeps (h : Spare fields extra put) :
    Keeps (takeIn (keepOther extra put) fields) (fields.map (·.name)) extra put where
  same_extra {s s' key settled room node} hkey hs := by
    obtain ⟨f, hf, rfl⟩ := List.mem_map.mp hkey
    rw [takeIn_of_mem h.apart hf] at hs
    obtain ⟨-, a, -, rfl⟩ := once_bind_eq_ok.mp hs
    exact h.extra_field f hf s _
  insert_extra {key} hkey s settled room node := by
    have hne : ∀ f ∈ fields, key ≠ f.name := by
      rintro f hf rfl
      exact hkey (List.mem_map_of_mem hf)
    rw [takeIn_of_ne hne, keepOther]
    cases node.value room <;> rfl
  extra_put := h.extra_put
  put_extra := h.put_extra
  put_put := h.put_put

end Spare

end Reader

end ComponentRules.Json
