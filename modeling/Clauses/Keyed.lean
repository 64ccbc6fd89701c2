/-!
# Keyed lists

A finite map from texts, written as a list of pairs whose keys ascend strictly in the order of
their characters. The order is part of the form: two keyed lists that bind the same keys to the
same values are the same list, and a walk over one visits its keys in ascending order.

* `Keyed.Ordered` — the keys ascend strictly
* `Keyed.insert_ordered`, `Keyed.extend_ordered` — every keyed list that is built here is ordered
* `Keyed.find?_insert` — the last value put under a key is the one that is found
* `Keyed.extend_perm` — new keys are added to the old ones, which stay bound as they are
-/

namespace Clauses

/-- Pairs of a key and what it is bound to. -/
abbrev Keyed (α : Type) := List (String × α)

namespace Keyed

variable {α : Type}

/-- The keys. -/
def keys (m : Keyed α) : List String := m.map Prod.fst

/-- The value bound to a key. -/
def find? (k : String) : Keyed α → Option α
  | [] => none
  | (k', v) :: r => if k == k' then some v else find? k r

/-- Binds a key to a value, in the place of what it was bound to. -/
def insert (k : String) (v : α) : Keyed α → Keyed α
  | [] => [(k, v)]
  | (k', v') :: r =>
    if k < k' then (k, v) :: (k', v') :: r
    else if k == k' then (k, v) :: r
    else (k', v') :: insert k v r

/-- Binds more pairs, one after the other: of two with the same key the later stays. -/
def extend (m : Keyed α) (entries : List (String × α)) : Keyed α :=
  entries.foldl (fun m e => m.insert e.1 e.2) m

/-- Binds the pairs one after the other. -/
def ofList (entries : List (String × α)) : Keyed α := extend [] entries

/-! ## Ascending keys -/

/-- The keys ascend strictly. -/
def Ordered : Keyed α → Prop
  | [] => True
  | (k, _) :: r => (∀ e ∈ r, k < e.1) ∧ Ordered r

theorem mem_insert {k : String} {v : α} {m : Keyed α} {e : String × α} (h : e ∈ m.insert k v) :
    e = (k, v) ∨ e ∈ m := by
  induction m with
  | nil => exact .inl (by simpa [insert] using h)
  | cons e' r ih =>
    obtain ⟨k', v'⟩ := e'
    simp only [insert] at h
    split at h
    · exact List.mem_cons.1 h
    · split at h
      · exact (List.mem_cons.1 h).imp_right (List.mem_cons_of_mem _)
      · rcases List.mem_cons.1 h with rfl | h
        · exact .inr List.mem_cons_self
        · exact (ih h).imp_right (List.mem_cons_of_mem _)

theorem insert_ordered {k : String} {v : α} {m : Keyed α} (h : m.Ordered) :
    (m.insert k v).Ordered := by
  induction m with
  | nil => simp [insert, Ordered]
  | cons e r ih =>
    obtain ⟨k', v'⟩ := e
    obtain ⟨hk, hr⟩ := h
    simp only [insert]
    split
    · rename_i hlt
      refine ⟨fun e he => ?_, hk, hr⟩
      rcases List.mem_cons.1 he with rfl | he
      · exact hlt
      · exact String.lt_trans hlt (hk e he)
    · rename_i hnlt
      split
      · rename_i heq
        have heq : k = k' := by simpa using heq
        subst heq
        exact ⟨hk, hr⟩
      · rename_i hne
        refine ⟨fun e he => ?_, ih hr⟩
        rcases mem_insert he with rfl | he
        · have hne : k ≠ k' := by simpa using hne
          exact Decidable.byContradiction fun hge =>
            hne (String.le_antisymm (String.not_lt.1 hge) (String.not_lt.1 hnlt))
        · exact hk e he

theorem extend_ordered (entries : List (String × α)) {m : Keyed α} (h : m.Ordered) :
    (m.extend entries).Ordered := by
  induction entries generalizing m with
  | nil => exact h
  | cons e r ih => exact ih (insert_ordered h)

theorem ofList_ordered (entries : List (String × α)) : (ofList entries).Ordered :=
  extend_ordered entries trivial

/-! ## Look-up -/

theorem find?_insert (k k' : String) (v : α) (m : Keyed α) :
    (m.insert k v).find? k' = if k' == k then some v else m.find? k' := by
  induction m with
  | nil => simp [insert, find?]
  | cons e r ih =>
    obtain ⟨k₁, v₁⟩ := e
    simp only [insert]
    split
    · simp [find?]
    · split
      · rename_i heq
        have heq : k = k₁ := by simpa using heq
        subst heq
        simp only [find?]
        split <;> rfl
      · rename_i hne
        have hne : k ≠ k₁ := by simpa using hne
        simp only [find?, ih]
        split
        · rename_i h
          have h : k' = k₁ := by simpa using h
          subst h
          rw [if_neg (by simpa using fun h => hne h.symm)]
        · rfl

theorem mem_of_find? {k : String} {v : α} {m : Keyed α} (h : m.find? k = some v) : (k, v) ∈ m := by
  induction m with
  | nil => cases h
  | cons e r ih =>
    obtain ⟨k', v'⟩ := e
    simp only [find?] at h
    split at h
    · rename_i heq
      have heq : k = k' := by simpa using heq
      rw [heq, ← Option.some.inj h]
      exact List.mem_cons_self
    · exact List.mem_cons_of_mem _ (ih h)

theorem mem_keys_of_find? {k : String} {v : α} {m : Keyed α} (h : m.find? k = some v) :
    k ∈ m.keys :=
  List.mem_map_of_mem (mem_of_find? h)

theorem find?_eq_none {k : String} {m : Keyed α} (h : k ∉ m.keys) : m.find? k = none := by
  cases hv : m.find? k with
  | none => rfl
  | some v => exact absurd (mem_keys_of_find? hv) h

/-- Where no key occurs twice, what is found under a key is what stands there. -/
theorem find?_eq_some_iff {k : String} {v : α} {m : Keyed α} (hm : m.keys.Nodup) :
    m.find? k = some v ↔ (k, v) ∈ m := by
  induction m with
  | nil => simp [find?]
  | cons e r ih =>
    obtain ⟨k', v'⟩ := e
    obtain ⟨hk', hr⟩ : k' ∉ keys r ∧ (keys r).Nodup := List.nodup_cons.mp hm
    simp only [find?, List.mem_cons, Prod.mk.injEq]
    split
    · rename_i heq
      have heq : k = k' := by simpa using heq
      subst heq
      have hnot : (k, v) ∉ r := fun h => hk' (List.mem_map_of_mem h)
      simp [hnot, eq_comm]
    · rename_i hne
      have hne : k ≠ k' := by simpa using hne
      rw [ih hr]
      simp [hne]

/-! ## New keys -/

theorem insert_perm {k : String} (v : α) {m : Keyed α} (hk : k ∉ m.keys) :
    (m.insert k v).Perm ((k, v) :: m) := by
  induction m with
  | nil => exact .refl _
  | cons e r ih =>
    obtain ⟨k', v'⟩ := e
    obtain ⟨hne, hr⟩ : k ≠ k' ∧ k ∉ keys r := by simpa [keys] using hk
    simp only [insert]
    split
    · exact .refl _
    · split
      · rename_i heq
        exact absurd (by simpa using heq) hne
      · exact ((ih hr).cons _).trans (.swap _ _ _)

theorem extend_perm {entries : List (String × α)} {m : Keyed α}
    (h : (m.keys ++ entries.map Prod.fst).Nodup) : (m.extend entries).Perm (m ++ entries) := by
  induction entries generalizing m with
  | nil =>
    rw [List.append_nil]
    exact .refl _
  | cons e r ih =>
    obtain ⟨k, v⟩ := e
    have hmid : ((k :: m.keys) ++ r.map Prod.fst).Nodup := List.perm_middle.nodup_iff.mp h
    have hk : k ∉ m.keys := fun hk => (List.nodup_cons.mp hmid).1 (List.mem_append_left _ hk)
    have hp := insert_perm v hk
    have hkeys : ((m.insert k v).keys ++ r.map Prod.fst).Nodup :=
      ((hp.map Prod.fst).append_right _).nodup_iff.mpr hmid
    exact (ih hkeys).trans ((hp.append_right _).trans List.perm_middle.symm)

end Keyed

end Clauses
