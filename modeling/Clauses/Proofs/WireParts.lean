import Clauses.Wire.Value

/-!
# The parts of a wire value

Lists and maps nest to any depth. What is to hold at every depth is said of the parts of a value:
the value itself, and the parts of what is in it.

* `WireValue.walk` — what holds of a list and of a map if it holds of what is in them holds of all
  values
* `WireValue.Filled` — no part is an empty collection
* `WireValue.InOrder` — the entries of every map are in the order of their keys
* `WireValue.findEmpty_eq_none_iff` — the search for an empty collection misses none
* `WireValue.sorted` — the value with the entries of each map put in order
-/

namespace Clauses

/-! ## Maps in order -/

theorem Keyed.mem_extend {α : Type} {entries : List (String × α)} {m : Keyed α} {e : String × α}
    (h : e ∈ m.extend entries) : e ∈ m ∨ e ∈ entries := by
  induction entries generalizing m with
  | nil => exact .inl h
  | cons e' r ih =>
    rcases ih h with h | h
    · rcases mem_insert h with rfl | h
      · exact .inr List.mem_cons_self
      · exact .inl h
    · exact .inr (List.mem_cons_of_mem _ h)

theorem Keyed.mem_of_mem_ofList {α : Type} {entries : List (String × α)} {e : String × α}
    (h : e ∈ ofList entries) : e ∈ entries :=
  (mem_extend h).resolve_left List.not_mem_nil

theorem Keyed.insert_ne_nil {α : Type} (k : String) (v : α) (m : Keyed α) : m.insert k v ≠ [] := by
  cases m with
  | nil => exact List.cons_ne_nil _ _
  | cons e r =>
    rw [insert]
    split
    · exact List.cons_ne_nil _ _
    · split <;> exact List.cons_ne_nil _ _

theorem Keyed.extend_ne_nil {α : Type} (entries : List (String × α)) {m : Keyed α} (h : m ≠ []) :
    m.extend entries ≠ [] := by
  induction entries generalizing m with
  | nil => exact h
  | cons e r ih => exact ih (insert_ne_nil e.1 e.2 m)

theorem Keyed.ofList_ne_nil {α : Type} {entries : List (String × α)} (h : entries ≠ []) :
    ofList entries ≠ [] := by
  obtain ⟨e, r, rfl⟩ := List.exists_cons_of_ne_nil h
  exact extend_ne_nil r (insert_ne_nil e.1 e.2 [])

theorem Keyed.insert_of_last {α : Type} {k : String} {v : α} {m : Keyed α}
    (h : ∀ e ∈ m, e.1 < k) : m.insert k v = m ++ [(k, v)] := by
  induction m with
  | nil => rfl
  | cons e r ih =>
    obtain ⟨k', v'⟩ := e
    rw [List.forall_mem_cons] at h
    have hlt : k' < k := h.1
    have hle : ¬k < k' := fun hge => String.lt_irrefl _ (String.lt_trans hlt hge)
    have hne : ¬(k == k') = true := by
      rw [beq_iff_eq]
      rintro rfl
      exact String.lt_irrefl _ hlt
    rw [insert, if_neg hle, if_neg hne, ih h.2, List.cons_append]

theorem Keyed.extend_of_ordered {α : Type} {entries : List (String × α)} (h : Ordered entries) :
    ∀ {m : Keyed α}, (∀ e ∈ m, ∀ e' ∈ entries, e.1 < e'.1) → m.extend entries = m ++ entries := by
  induction entries with
  | nil => exact fun _ => (List.append_nil _).symm
  | cons e r ih =>
    obtain ⟨k, v⟩ := e
    intro m hm
    have hlast : ∀ e ∈ m, e.1 < k := fun e he => hm e he _ List.mem_cons_self
    change (m.insert k v).extend r = _
    rw [insert_of_last hlast, ih h.2, List.append_assoc, List.singleton_append]
    simp only [List.forall_mem_append, List.forall_mem_singleton]
    exact ⟨fun e he e' he' => hm e he e' (List.mem_cons_of_mem _ he'), h.1⟩

/-- Entries that are in order stay as they are. -/
theorem Keyed.ofList_of_ordered {α : Type} {entries : List (String × α)} (h : Ordered entries) :
    ofList entries = entries :=
  extend_of_ordered h fun _ he => absurd he List.not_mem_nil

namespace WireValue

/-! ## All values -/

section Walk

variable {motive : WireValue → Prop}
  (text : ∀ t, motive (.text t)) (number : ∀ t, motive (.number t))
  (binary : ∀ bytes, motive (.binary bytes)) (textSet : ∀ members, motive (.textSet members))
  (numberSet : ∀ members, motive (.numberSet members))
  (binarySet : ∀ members, motive (.binarySet members))
  (bool : ∀ flag, motive (.bool flag)) (null : ∀ flag, motive (.null flag))
  (list : ∀ items, (∀ w ∈ items, motive w) → motive (.list items))
  (map : ∀ entries, (∀ e ∈ entries, motive e.2) → motive (.map entries))

include text number binary textSet numberSet binarySet bool null list map

/--
What holds of lists and maps if it holds of what is in them, and of all other values, holds of all.
-/
@[elab_as_elim]
theorem walk : ∀ w : WireValue, motive w
  | .text t => text t
  | .number t => number t
  | .binary bytes => binary bytes
  | .textSet members => textSet members
  | .numberSet members => numberSet members
  | .binarySet members => binarySet members
  | .bool flag => bool flag
  | .null flag => null flag
  | .list items => list items fun w _hw => walk w
  | .map entries => map entries fun e _he => walk e.2
termination_by w => sizeOf w
decreasing_by
  · have hlt := List.sizeOf_lt_of_mem _hw
    simp only [WireValue.list.sizeOf_spec]
    omega
  · have hlt := List.sizeOf_lt_of_mem _he
    obtain ⟨k, w⟩ := e
    simp only [WireValue.map.sizeOf_spec, Prod.mk.sizeOf_spec] at hlt ⊢
    omega

end Walk

/-! ## Parts -/

/-- A value is a part of another, at any depth. -/
inductive PartOf (part : WireValue) : WireValue → Prop where
  | self : PartOf part part
  | item {w : WireValue} {items : List WireValue} (hw : w ∈ items) (h : PartOf part w) :
    PartOf part (.list items)
  | entry {e : String × WireValue} {entries : List (String × WireValue)} (he : e ∈ entries)
    (h : PartOf part e.2) : PartOf part (.map entries)

/-- No collection in the value is empty, at any depth. -/
def Filled (w : WireValue) : Prop := ∀ part, PartOf part w → part.isEmptyCollection = false

/-- If the value is a map, its entries are in the order of their keys. -/
def KeysInOrder : WireValue → Prop
  | .map entries => Keyed.Ordered entries
  | _ => True

/-- The entries of each map in the value are in the order of their keys, at any depth. -/
def InOrder (w : WireValue) : Prop := ∀ part, PartOf part w → part.KeysInOrder

/-- Something holds of all parts of a list if it holds of the list and of the parts of its items. -/
theorem forall_partOf_list {p : WireValue → Prop} {items : List WireValue} :
    (∀ part, PartOf part (.list items) → p part) ↔
      p (.list items) ∧ ∀ w ∈ items, ∀ part, PartOf part w → p part := by
  constructor
  · exact fun h => ⟨h _ .self, fun w hw part hp => h part (.item hw hp)⟩
  · rintro ⟨hlist, hitems⟩ part hp
    cases hp with
    | self => exact hlist
    | item hw hp => exact hitems _ hw part hp

/-- So it is with a map. -/
theorem forall_partOf_map {p : WireValue → Prop} {entries : List (String × WireValue)} :
    (∀ part, PartOf part (.map entries) → p part) ↔
      p (.map entries) ∧ ∀ e ∈ entries, ∀ part, PartOf part e.2 → p part := by
  constructor
  · exact fun h => ⟨h _ .self, fun e he part hp => h part (.entry he hp)⟩
  · rintro ⟨hmap, hentries⟩ part hp
    cases hp with
    | self => exact hmap
    | entry he hp => exact hentries _ he part hp

theorem filled_list_iff {items : List WireValue} :
    (WireValue.list items).Filled ↔ items ≠ [] ∧ ∀ w ∈ items, w.Filled := by
  rw [Filled, forall_partOf_list, isEmptyCollection, List.isEmpty_eq_false_iff]
  rfl

theorem filled_map_iff {entries : List (String × WireValue)} :
    (WireValue.map entries).Filled ↔ entries ≠ [] ∧ ∀ e ∈ entries, e.2.Filled := by
  rw [Filled, forall_partOf_map, isEmptyCollection, List.isEmpty_eq_false_iff]
  rfl

/-- A value without parts other than itself is filled if it is no empty collection. -/
theorem filled_iff_of_leaf {w : WireValue} (h : ∀ part, PartOf part w → part = w) :
    w.Filled ↔ w.isEmptyCollection = false := by
  constructor
  · exact fun hf => hf w .self
  · intro hw part hp
    rw [h part hp]
    exact hw

/-! ## The search for empty collections -/

theorem findEmptyItem_eq_none_iff {items : List WireValue} (i : Nat) :
    findEmptyItem i items = none ↔ ∀ w ∈ items, w.findEmpty = none := by
  induction items generalizing i with
  | nil => simp [findEmptyItem]
  | cons w rest ih =>
    rw [findEmptyItem, List.forall_mem_cons]
    cases hw : w.findEmpty with
    | none => simp [ih]
    | some e => simp

theorem findEmptyEntry_eq_none_iff {entries : List (String × WireValue)} :
    findEmptyEntry entries = none ↔ ∀ e ∈ entries, e.2.findEmpty = none := by
  induction entries with
  | nil => simp [findEmptyEntry]
  | cons e rest ih =>
    obtain ⟨k, w⟩ := e
    rw [findEmptyEntry, List.forall_mem_cons]
    cases hw : w.findEmpty with
    | none => simp [ih]
    | some e => simp

/-- **The search for an empty collection finds one wherever there is one.** -/
theorem findEmpty_eq_none_iff {w : WireValue} : w.findEmpty = none ↔ w.Filled := by
  induction w using walk with
  | text | number | binary | bool | null =>
    rw [filled_iff_of_leaf fun part hp => by cases hp; rfl]
    exact ⟨fun _ => rfl, fun _ => rfl⟩
  | textSet members | numberSet members | binarySet members =>
    rw [filled_iff_of_leaf fun part hp => by cases hp; rfl, findEmpty, isEmptyCollection]
    cases members.isEmpty <;> simp
  | list items ih =>
    rw [filled_list_iff, ← forall₂_congr ih, ← findEmptyItem_eq_none_iff 0, findEmpty]
    cases items <;> simp
  | map entries ih =>
    rw [filled_map_iff, ← forall₂_congr ih, ← findEmptyEntry_eq_none_iff, findEmpty]
    cases entries <;> simp

/-! ## Values in order -/

mutual

/--
The value with the entries of each map in the order of their keys; of two with one key the later.
-/
def sorted : WireValue → WireValue
  | .list items => .list (sortedItems items)
  | .map entries => .map (Keyed.ofList (sortedEntries entries))
  | w => w

/-- The items of a list, each of them sorted. -/
def sortedItems : List WireValue → List WireValue
  | [] => []
  | w :: rest => sorted w :: sortedItems rest

/-- The entries of a map as they stand, with what is behind each key sorted. -/
def sortedEntries : List (String × WireValue) → List (String × WireValue)
  | [] => []
  | (k, w) :: rest => (k, sorted w) :: sortedEntries rest

end

theorem sortedItems_eq (items : List WireValue) : sortedItems items = items.map sorted := by
  induction items with
  | nil => rfl
  | cons w rest ih => rw [sortedItems, ih, List.map_cons]

theorem sortedEntries_eq (entries : List (String × WireValue)) :
    sortedEntries entries = entries.map fun e => (e.1, e.2.sorted) := by
  induction entries with
  | nil => rfl
  | cons e rest ih => rw [sortedEntries, ih, List.map_cons]

/-- Sorting leaves no collection empty. -/
theorem Filled.sorted {w : WireValue} (h : w.Filled) : w.sorted.Filled := by
  induction w using walk with
  | text | number | binary | bool | null | textSet | numberSet | binarySet => exact h
  | list items ih =>
    obtain ⟨hne, hitems⟩ := filled_list_iff.mp h
    rw [WireValue.sorted, sortedItems_eq, filled_list_iff, List.forall_mem_map]
    exact ⟨by simpa using hne, fun w hw => ih w hw (hitems w hw)⟩
  | map entries ih =>
    obtain ⟨hne, hentries⟩ := filled_map_iff.mp h
    rw [WireValue.sorted, sortedEntries_eq, filled_map_iff]
    refine ⟨Keyed.ofList_ne_nil (by simpa using hne), fun e he => ?_⟩
    obtain ⟨e, hm, rfl⟩ := List.mem_map.mp (Keyed.mem_of_mem_ofList he)
    exact ih e hm (hentries e hm)

theorem inOrder_list_iff {items : List WireValue} :
    (WireValue.list items).InOrder ↔ ∀ w ∈ items, w.InOrder := by
  rw [InOrder, forall_partOf_list]
  exact and_iff_right trivial

theorem inOrder_map_iff {entries : List (String × WireValue)} :
    (WireValue.map entries).InOrder ↔ Keyed.Ordered entries ∧ ∀ e ∈ entries, e.2.InOrder := by
  rw [InOrder, forall_partOf_map]
  rfl

/-- A value that is in order stays as it is. -/
theorem InOrder.sorted_eq {w : WireValue} (h : w.InOrder) : w.sorted = w := by
  induction w using walk with
  | text | number | binary | bool | null | textSet | numberSet | binarySet => rfl
  | list items ih =>
    rw [inOrder_list_iff] at h
    have hitems : items.map WireValue.sorted = items.map id :=
      List.map_congr_left fun w hw => ih w hw (h w hw)
    rw [WireValue.sorted, sortedItems_eq, hitems, List.map_id]
  | map entries ih =>
    obtain ⟨ho, h⟩ := inOrder_map_iff.mp h
    have hentries : (entries.map fun e => (e.1, e.2.sorted)) = entries.map id :=
      List.map_congr_left fun e he => Prod.ext rfl (ih e he (h e he))
    rw [WireValue.sorted, sortedEntries_eq, hentries, List.map_id, Keyed.ofList_of_ordered ho]

end WireValue

end Clauses
