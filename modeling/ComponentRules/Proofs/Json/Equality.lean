import ComponentRules.Json.Content
import Mathlib.Data.List.Perm.Subperm

/-!
# Equality up to the order of members is an equivalence

Two objects are equal if they are of one size and every member of the first has its equal in the
second. Whatever the values, this can be continued from the second to a third. To turn it round one
has to know that the first object repeats no key: then its keys are all the keys of the second.

* `Value.same_trans`: equality can be continued.
* `Value.same_symm`: it can be turned round for a value whose objects repeat no key.
* `Object.same_trans`, `Object.same_symm`: so both can be done with objects as they are kept.
-/

namespace ComponentRules

theorem Binary64.same_symm {x y : Binary64} (h : x.same y = true) : y.same x = true := by
  simp only [same, Bool.or_eq_true, beq_iff_eq, Bool.and_eq_true] at h ⊢
  exact h.imp Eq.symm And.symm

theorem Binary64.same_trans {x y z : Binary64} (hxy : x.same y = true) (hyz : y.same z = true) :
    x.same z = true := by
  simp only [same, Bool.or_eq_true, beq_iff_eq, Bool.and_eq_true] at hxy hyz ⊢
  rcases hxy with rfl | ⟨hx, hy⟩
  · exact hyz
  · rcases hyz with rfl | ⟨-, hz⟩
    · exact .inr ⟨hx, hy⟩
    · exact .inr ⟨hx, hz⟩

namespace Json

theorem Number.same_symm {a b : Number} (h : a.same b = true) : b.same a = true := by
  cases a <;> cases b <;> simp only [same, beq_iff_eq, Bool.false_eq_true] at h ⊢
  · exact h.symm
  · exact Binary64.same_symm h

theorem Number.same_trans {a b c : Number} (hab : a.same b = true) (hbc : b.same c = true) :
    a.same c = true := by
  cases a <;> cases b <;> cases c <;> simp only [same, beq_iff_eq, Bool.false_eq_true] at *
  · exact hab.trans hbc
  · exact Binary64.same_trans hab hbc

theorem Fields.mem_of_get? {fields : Fields} {key : String} {value : Value}
    (h : fields.get? key = some value) : (key, value) ∈ fields := by
  obtain ⟨before, after, rfl, -⟩ := List.lookup_eq_some_iff.mp h
  exact List.mem_append_right _ List.mem_cons_self

namespace Value

theorem within_iff {fields other : Fields} :
    within fields other = true ↔
      ∀ f ∈ fields, ∃ value, other.get? f.1 = some value ∧ f.2.same value = true := by
  induction fields with
  | nil => simp [within]
  | cons f fields ih =>
    obtain ⟨key, value⟩ := f
    rw [within, Bool.and_eq_true, ih, List.forall_mem_cons]
    cases Fields.get? other key <;> simp

/-! ## Continuing an equality -/

mutual

theorem same_trans : ∀ {a b c : Value}, a.same b = true → b.same c = true → a.same c = true
  | .null, b, c, hab, hbc => by
    cases b <;> simp only [same, Bool.false_eq_true] at hab
    exact hbc
  | .bool x, b, c, hab, hbc => by
    cases b <;> simp only [same, beq_iff_eq, Bool.false_eq_true] at hab
    exact hab ▸ hbc
  | .string s, b, c, hab, hbc => by
    cases b <;> simp only [same, beq_iff_eq, Bool.false_eq_true] at hab
    exact hab ▸ hbc
  | .number m, b, c, hab, hbc => by
    cases b <;> cases c <;> simp only [same, Bool.false_eq_true] at hab hbc ⊢
    exact Number.same_trans hab hbc
  | .array items, b, c, hab, hbc => by
    cases b <;> cases c <;> simp only [same, Bool.false_eq_true] at hab hbc ⊢
    exact sameItems_trans hab hbc
  | .object fields, b, c, hab, hbc => by
    cases b <;> cases c <;>
      simp only [same, Bool.and_eq_true, beq_iff_eq, Bool.false_eq_true] at hab hbc ⊢
    exact ⟨hab.1.trans hbc.1, within_trans hab.2 hbc.2⟩

theorem sameItems_trans : ∀ {as bs cs : List Value}, sameItems as bs = true →
    sameItems bs cs = true → sameItems as cs = true
  | [], bs, cs, hab, hbc => by
    cases bs <;> simp only [sameItems, Bool.false_eq_true] at hab
    exact hbc
  | a :: as, bs, cs, hab, hbc => by
    cases bs <;> cases cs <;>
      simp only [sameItems, Bool.and_eq_true, Bool.false_eq_true] at hab hbc ⊢
    exact ⟨same_trans hab.1 hbc.1, sameItems_trans hab.2 hbc.2⟩

theorem within_trans : ∀ {xs ys zs : Fields}, within xs ys = true → within ys zs = true →
    within xs zs = true
  | [], _, _, _, _ => rfl
  | (key, x) :: xs, ys, zs, hxy, hyz => by
    rw [within, Bool.and_eq_true] at hxy ⊢
    refine ⟨?_, within_trans hxy.2 hyz⟩
    cases hy : Fields.get? ys key with
    | none =>
      rw [hy] at hxy
      exact absurd hxy.1 Bool.false_ne_true
    | some y =>
      obtain ⟨z, hz, hsame⟩ := within_iff.mp hyz (key, y) (Fields.mem_of_get? hy)
      rw [hy] at hxy
      rw [hz]
      exact same_trans hxy.1 hsame

end

/-! ## Turning an equality round -/

/-- Members that repeat no key, each of which has its equal among as many others, have the same
keys as they. -/
theorem keys_perm_of_within {xs ys : Fields} (hkeys : xs.keys.Nodup)
    (hlength : xs.length = ys.length) (h : within xs ys = true) : xs.keys.Perm ys.keys := by
  have hsubset : xs.keys ⊆ ys.keys := by
    intro key hkey
    obtain ⟨f, hf, rfl⟩ := List.mem_map.mp hkey
    obtain ⟨value, hvalue, -⟩ := within_iff.mp h f hf
    exact List.mem_map.mpr ⟨_, Fields.mem_of_get? hvalue, rfl⟩
  have hle : ys.keys.length ≤ xs.keys.length := by
    simp only [Fields.keys, List.length_map, hlength, Nat.le_refl]
  exact (List.subperm_of_subset hkeys hsubset).perm_of_length_le hle

mutual

theorem same_symm : ∀ {a b : Value}, a.Distinct → a.same b = true → b.same a = true
  | .null, b, _, h => by
    cases b <;> simp only [same, Bool.false_eq_true] at h ⊢
  | .bool x, b, _, h => by
    cases b <;> simp only [same, beq_iff_eq, Bool.false_eq_true] at h ⊢
    exact h.symm
  | .string s, b, _, h => by
    cases b <;> simp only [same, beq_iff_eq, Bool.false_eq_true] at h ⊢
    exact h.symm
  | .number m, b, _, h => by
    cases b <;> simp only [same, Bool.false_eq_true] at h ⊢
    exact Number.same_symm h
  | .array items, b, hd, h => by
    cases b <;> simp only [same, Bool.false_eq_true] at h ⊢
    exact sameItems_symm hd h
  | .object xs, b, hd, h => by
    cases b with
    | object ys =>
      simp only [same, Bool.and_eq_true, beq_iff_eq] at h ⊢
      obtain ⟨hlength, hwithin⟩ := h
      have hperm := keys_perm_of_within hd.1 hlength hwithin
      refine ⟨hlength.symm, within_iff.mpr fun g hg => ?_⟩
      -- the key of a member of the second stands in the first as well
      have hkey : g.1 ∈ Fields.keys xs := hperm.mem_iff.mpr (List.mem_map.mpr ⟨g, hg, rfl⟩)
      obtain ⟨f, hf, hfg⟩ := List.mem_map.mp hkey
      obtain ⟨value, hvalue, hsame⟩ := within_iff.mp hwithin f hf
      have hg' := get?_of_mem (hperm.nodup_iff.mp hd.1) hg
      rw [hfg, hg', Option.some.injEq] at hvalue
      refine ⟨f.2, hfg ▸ get?_of_mem hd.1 hf, ?_⟩
      exact member_symm hd.2 f hf (hvalue ▸ hsame)
    | _ => simp only [same, Bool.false_eq_true] at h

theorem sameItems_symm : ∀ {as bs : List Value}, DistinctItems as → sameItems as bs = true →
    sameItems bs as = true
  | [], bs, _, h => by
    cases bs <;> simp only [sameItems, Bool.false_eq_true] at h ⊢
  | a :: as, bs, hd, h => by
    cases bs <;> simp only [sameItems, Bool.and_eq_true, Bool.false_eq_true] at h ⊢
    exact ⟨same_symm hd.1 h.1, sameItems_symm hd.2 h.2⟩

theorem member_symm : ∀ {xs : Fields}, DistinctFields xs → ∀ f ∈ xs, ∀ {value : Value},
    f.2.same value = true → value.same f.2 = true
  | [], _, f, hf, _, _ => absurd hf List.not_mem_nil
  | (key, x) :: xs, hd, f, hf, value, h => by
    rcases List.mem_cons.mp hf with rfl | hf
    · exact same_symm hd.1 h
    · exact member_symm hd.2 f hf h

end

end Value

theorem Object.same_trans {a b c : Object} (hab : a.same b = true) (hbc : b.same c = true) :
    a.same c = true :=
  @Value.same_trans (.object a.fields) (.object b.fields) (.object c.fields) hab hbc

theorem Object.same_symm {a b : Object} (h : a.same b = true) : b.same a = true :=
  @Value.same_symm (.object a.fields) (.object b.fields) a.distinct h

end Json

end ComponentRules
