import Clauses.Wire.Value

/-!
# The order in which maps come

A map binds keys to values, in no order. But it is kept in a table, and who goes through the table
finds the entries one after the other: in another order for another table, though it may hold the
same. Nothing is known of these orders but that they lose no entry and bring none twice.

* `MapOrder` — in which order the entries of the maps in a value come
* `WireValue.arranged` — the value with the entries of its maps as they come
-/

namespace Clauses

/-- The order in which the entries of each map in a value come. -/
structure MapOrder where
  /-- The entries of one map, to which these steps lead; the last step comes first. -/
  arrange : (path : List String) → List (String × WireValue) → List (String × WireValue)
  /-- Behind each key comes what stands there. -/
  stable : ∀ path entries k,
    (arrange path entries).filter (·.1 == k) = entries.filter (·.1 == k)

/-- Entries come as they stand, in the order of their keys. -/
def MapOrder.byKey : MapOrder := ⟨fun _ entries => entries, fun _ _ _ => rfl⟩

namespace WireValue

mutual

/-- The value to which these steps lead, with the entries of its maps as they come. -/
def arrangedAt (order : MapOrder) (path : List String) : WireValue → WireValue
  | .list items => .list (arrangedItems order path 0 items)
  | .map entries => .map (order.arrange path (arrangedEntries order path entries))
  | w => w

/-- The items of a list from index `i` on. -/
def arrangedItems (order : MapOrder) (path : List String) (i : Nat) :
    List WireValue → List WireValue
  | [] => []
  | w :: rest =>
    arrangedAt order (indexStep i :: path) w :: arrangedItems order path (i + 1) rest

/-- The entries of a map, in the order in which they stand. -/
def arrangedEntries (order : MapOrder) (path : List String) :
    List (String × WireValue) → List (String × WireValue)
  | [] => []
  | (k, w) :: rest =>
    (k, arrangedAt order (keyStep k :: path) w) :: arrangedEntries order path rest

end

/-- The value with the entries of its maps as they come. -/
def arranged (order : MapOrder) (w : WireValue) : WireValue := w.arrangedAt order []

@[simp] theorem arranged_text (order : MapOrder) (t : String) :
    (WireValue.text t).arranged order = .text t := rfl

end WireValue

end Clauses
