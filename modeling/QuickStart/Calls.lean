import Mathlib.Data.List.Perm.Basic

/-! # Calls in progress

A list of calls that have not returned, each at its next statement. -/

namespace QuickStart.Calls
variable {α : Type*} {calls : List α} {i : Nat} {c : α}

/-- The calls after a statement of the `i`-th left it at `o`; a call that returns is taken out. -/
def put (calls : List α) (i : Nat) : Option α → List α
  | none => calls.eraseIdx i
  | some c => calls.set i c

theorem mem_put {o : Option α} (hm : c ∈ put calls i o) : c ∈ calls ∨ o = some c := by
  cases o with
  | none => exact Or.inl (List.mem_of_mem_eraseIdx hm)
  | some d =>
    rcases List.mem_or_eq_of_mem_set hm with hm | rfl
    · exact Or.inl hm
    · exact Or.inr rfl

/-- After the statement of the `i`-th call there are this call and the others. -/
theorem mem_put_others {a : α} (hi : calls[i]? = some a) {o : Option α} (hm : c ∈ put calls i o) :
    o = some c ∨ c ∈ calls.eraseIdx i := by
  obtain ⟨hlt, -⟩ := List.getElem?_eq_some_iff.mp hi
  cases o with
  | none => exact Or.inr hm
  | some d =>
    rcases List.mem_cons.mp ((List.set_perm_cons_eraseIdx hlt d).mem_iff.mp hm) with rfl | hm
    · exact Or.inl rfl
    · exact Or.inr hm

/-- The number of calls with a property changes by what the call's statement changes. -/
theorem countP_put (hi : calls[i]? = some c) (p : α → Bool) (o : Option α) :
    (put calls i o).countP p + (if p c then 1 else 0) = calls.countP p + (if o.any p then 1 else 0) := by
  obtain ⟨hlt, rfl⟩ := List.getElem?_eq_some_iff.mp hi
  have hperm := (List.getElem_cons_eraseIdx_perm hlt).countP_eq p
  rw [List.countP_cons] at hperm
  cases o with
  | none =>
    simp only [put, Option.any_none]
    rw [← hperm]
    simp
  | some d =>
    have hset := (List.set_perm_cons_eraseIdx hlt d).countP_eq p
    rw [List.countP_cons] at hset
    simp only [put, Option.any_some]
    omega

/-- No call is left if the only one has returned. -/
theorem put_eq_nil (hi : calls[i]? = some c) {o : Option α} : put calls i o = [] ↔ o = none ∧ calls = [c] := by
  obtain ⟨hlt, rfl⟩ := List.getElem?_eq_some_iff.mp hi
  cases o with
  | none =>
    refine ⟨fun hnil => ⟨rfl, ?_⟩, fun ⟨_, hone⟩ => ?_⟩
    · have hperm := List.getElem_cons_eraseIdx_perm hlt
      rw [show calls.eraseIdx i = [] from hnil] at hperm
      exact (List.singleton_perm.mp hperm).symm
    · have hlen : calls.length = 1 := congrArg List.length hone
      exact List.eraseIdx_eq_nil_iff.mpr (Or.inr ⟨hlen, by omega⟩)
  | some d =>
    have hne : calls ≠ [] := List.ne_nil_of_length_pos (Nat.zero_lt_of_lt hlt)
    exact ⟨fun hnil => absurd ((List.set_eq_nil_iff i d).mp hnil) hne, fun h => by cases h.1⟩

/-! ### One of the calls -/

theorem getElem?_concat_cases {a : α} (h : (calls ++ [a])[i]? = some c) :
    calls[i]? = some c ∨ (i = calls.length ∧ c = a) := by
  rw [List.getElem?_append] at h
  split at h
  · exact Or.inl h
  · rename_i hlen
    obtain ⟨hlt, heq⟩ := List.getElem?_eq_some_iff.mp h
    rw [List.length_singleton] at hlt
    refine Or.inr ⟨by omega, ?_⟩
    rw [← heq, List.getElem_singleton]

theorem getElem?_set_cases {a : α} {j : Nat} (h : (calls.set i a)[j]? = some c) :
    (j = i ∧ c = a) ∨ (j ≠ i ∧ calls[j]? = some c) := by
  rw [List.getElem?_set] at h
  split at h
  · rename_i hij
    split at h
    · exact Or.inl ⟨hij.symm, (Option.some.inj h).symm⟩
    · cases h
  · rename_i hij
    exact Or.inr ⟨fun hji => hij hji.symm, h⟩

end QuickStart.Calls
