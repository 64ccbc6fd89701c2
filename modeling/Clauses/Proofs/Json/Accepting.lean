import Clauses.Proofs.Drafting
import Clauses.Proofs.Json.WireValues

/-!
# What is accepted as a wire value

A text that is read as a wire value need not be one that is written so. It may have white space,
other escapes, or a key of a map twice. But the value that it is read as is one that is written
well: the reader has looked through it for empty collections, has put its maps in order, and has
gone no deeper than it goes.

* `Json.Reader.Yields` — a reader gives the value for some text
* `WireValue.Readable.of_yields` — what is read can be read again, within as many brackets
* `WireValue.json_comes_back` — values come back from their texts, and texts from what they are read
  as
-/

namespace Clauses

/-! ## Readers of collections -/

namespace Json.Reader

variable {α : Type}

/-- The reader gives the value for the front of some text. -/
def Yields (read : Reader α) (a : α) : Prop := ∃ s rest, read s = .ok (a, rest)

theorem value_yields {read : Reader α} {a : α} (h : (value read).Yields a) : read.Yields a := by
  obtain ⟨s, rest, h⟩ := h
  unfold value at h
  split at h
  · cases h
  · next front _ => exact ⟨front, rest, h⟩

/-- Each item that has been read is one that the reader of items gives. -/
theorem items_yield {item : Reader α} {first : Bool} {s rest : Bytes} {as : List α}
    (h : items item first s = .ok (as, rest)) : ∀ a ∈ as, item.Yields a := by
  fun_induction items item first s generalizing as rest with
  | case1 | case3 | case4 | case6 => cases h
  | case2 =>
    obtain ⟨_, -, ⟨⟩⟩ := Except.map_ok.mp h
    exact fun _ ha => absurd ha List.not_mem_nil
  | case5 first s front _ a behind ha _ as' rest' has ih =>
    cases h
    exact List.forall_mem_cons.mpr ⟨⟨front, behind, ha⟩, ih has⟩

/-- A list takes a bracket, and each item of it is one that the reader of items gives. -/
theorem list_yields {depth : Nat} {item : Reader α} {as : List α}
    (h : (list depth item).Yields as) :
    depth ≠ 0 ∧ ∀ a ∈ as, item.Yields a := by
  obtain ⟨s, rest, h⟩ := h
  unfold list at h
  split at h
  · cases h
  · split at h
    · split at h
      · cases h
      · next hdepth => exact ⟨hdepth, items_yield h⟩
    · cases h

/-- Each member that has been read is one that the reader of values gives, or was there before. -/
theorem members_yield {item : Reader α} {first : Bool} {s rest : Bytes}
    {entries all : List (String × α)}
    (h : members (Json.gather item) first entries s = .ok (all, rest))
    (hentries : ∀ e ∈ entries, item.Yields e.2) : ∀ e ∈ all, item.Yields e.2 := by
  fun_induction members (Json.gather item) first entries s generalizing rest with
  | case1 | case3 | case5 => cases h
  | case2 =>
    cases h
    exact hentries
  | case4 first entries s k front _ gathered behind hgather _ ih =>
    obtain ⟨⟨a, rest⟩, hv, ⟨⟩⟩ := Except.map_ok.mp hgather
    exact ih h (List.forall_mem_cons.mpr ⟨value_yields ⟨front, _, hv⟩, hentries⟩)

/-- A map takes a bracket, and each value in it is one that the reader of values gives. -/
theorem map_yields {depth : Nat} {item : Reader α} {entries : List (String × α)}
    (h : (map depth item).Yields entries) : depth ≠ 0 ∧ ∀ e ∈ entries, item.Yields e.2 := by
  obtain ⟨s, rest, h⟩ := h
  unfold map at h
  split at h
  · cases h
  · next b behind _ =>
    split at h
    · split at h
      · cases h
      · next hdepth =>
        obtain ⟨⟨all, rest⟩, hm, ⟨⟩⟩ := Except.map_ok.mp h
        have hall := members_yield hm fun _ h => absurd h List.not_mem_nil
        exact ⟨hdepth, fun e he => hall e (List.mem_reverse.mp he)⟩
    · cases h

end Json.Reader

/-! ## Wire values -/

namespace WireValue

/-- What a tag is bound to is written well, if the values in it are. -/
theorem readable_of_tagged {depth : Nat} {nested : Json.Reader WireValue}
    {tag : Tag} {w : WireValue} (h : (readTagged depth nested tag).Yields w) (hf : w.Filled)
    (hnested : ∀ d, depth = d + 1 → ∀ v, nested.Yields v → v.Readable d) :
    w.Readable (depth + 1) := by
  obtain ⟨s, rest, h⟩ := h
  cases tag with
  | text | number | bool | null =>
    obtain ⟨_, -, ⟨⟩⟩ := Except.bind_ok.mp h
    constructor
  | binary =>
    obtain ⟨_, -, h⟩ := Except.bind_ok.mp h
    obtain ⟨bytes, -, ⟨⟩⟩ := Except.bind_ok.mp h
    exact .binary bytes
  | textSet | numberSet =>
    obtain ⟨_, hm, ⟨⟩⟩ := Except.bind_ok.mp h
    obtain ⟨hdepth, -⟩ := Json.Reader.list_yields (Json.Reader.value_yields ⟨_, _, hm⟩)
    obtain ⟨d, rfl⟩ := Nat.exists_eq_succ_of_ne_zero hdepth
    constructor
    exact List.isEmpty_eq_false_iff.mp (hf _ .self)
  | binarySet =>
    obtain ⟨_, hm, h⟩ := Except.bind_ok.mp h
    obtain ⟨members, -, ⟨⟩⟩ := Except.bind_ok.mp h
    obtain ⟨hdepth, -⟩ := Json.Reader.list_yields (Json.Reader.value_yields ⟨_, _, hm⟩)
    obtain ⟨d, rfl⟩ := Nat.exists_eq_succ_of_ne_zero hdepth
    exact .binarySet (List.isEmpty_eq_false_iff.mp (hf _ .self))
  | list =>
    obtain ⟨_, hl, ⟨⟩⟩ := Except.bind_ok.mp h
    obtain ⟨hdepth, hitems⟩ := Json.Reader.list_yields (Json.Reader.value_yields ⟨_, _, hl⟩)
    obtain ⟨d, rfl⟩ := Nat.exists_eq_succ_of_ne_zero hdepth
    exact .list (filled_list_iff.mp hf).1 fun w hw => hnested d rfl w (hitems w hw)
  | map =>
    obtain ⟨⟨entries, _⟩, hm, ⟨⟩⟩ := Except.bind_ok.mp h
    obtain ⟨hdepth, hentries⟩ := Json.Reader.map_yields (Json.Reader.value_yields ⟨_, _, hm⟩)
    obtain ⟨d, rfl⟩ := Nat.exists_eq_succ_of_ne_zero hdepth
    refine .map (filled_map_iff.mp hf).1 (Keyed.ofList_ordered entries) fun e he => ?_
    exact hnested d rfl e.2 (hentries e (Keyed.mem_of_mem_ofList he))

/-- What is read behind a brace is written well, if the values in it are. -/
theorem readable_of_body {depth : Nat} {nested : Json.Reader WireValue} {w : WireValue}
    (h : (readBody depth nested).Yields w)
    (hnested : ∀ d, depth = d + 1 → ∀ v, nested.Yields v → v.Readable d) :
    w.Readable (depth + 1) := by
  obtain ⟨s, rest, h⟩ := h
  obtain ⟨⟨key, front⟩, -, h⟩ := Except.bind_ok.mp h
  cases key with
  | none => cases h
  | some name =>
    dsimp only at h
    split at h
    · cases h
    · next tag _ =>
      obtain ⟨⟨v, behind⟩, hv, h⟩ := Except.bind_ok.mp h
      obtain ⟨⟨key, behind'⟩, -, h⟩ := Except.bind_ok.mp h
      cases key with
      | some name' => cases h
      | none =>
        dsimp only at h
        split at h
        · cases h
        · next hempty =>
          cases h
          exact readable_of_tagged ⟨front, behind, hv⟩ (findEmpty_eq_none_iff.mp hempty) hnested

/--
**What is read as a wire value is written well**, within the brackets that the reader may open.
-/
theorem Readable.of_yields {depth : Nat} {w : WireValue} (h : (read depth).Yields w) :
    w.Readable depth := by
  induction depth using Nat.strongRecOn generalizing w with
  | ind depth ih =>
    obtain ⟨s, rest, h⟩ := h
    match depth with
    | 0 =>
      obtain ⟨_, -, ⟨⟩⟩ := Except.bind_ok.mp h
    | 1 =>
      obtain ⟨front, -, h⟩ := Except.bind_ok.mp h
      exact readable_of_body ⟨front, rest, h⟩ fun d hd => absurd hd (by omega)
    | depth + 2 =>
      obtain ⟨front, -, h⟩ := Except.bind_ok.mp h
      refine readable_of_body ⟨front, rest, h⟩ fun d hd v hv => ?_
      obtain rfl : depth = d := by omega
      exact ih depth (by omega) hv

/-! ## Both ways -/

theorem yields_of_ofJson {bytes : Bytes} {w : WireValue} (h : ofJson bytes = .ok w) :
    (read Json.maxDepth).Yields w := by
  unfold ofJson Json.readAll at h
  split at h
  · cases h
  · next rest hread =>
    split at h
    · cases h
      exact ⟨bytes, rest, hread⟩
    · cases h

/--
**Wire values come back from their JSON texts.** A value in which no collection is empty is read
back from its text, unless the text nests too deep for the reader. The entries of its maps may
stand in any order in the text; a value in order is read back as it is. And whatever text a
value has been read from, no collection in it is empty, its maps are in order, and it is read
back from its own text.
-/
theorem json_comes_back :
    (∀ w : WireValue, w.Filled → w.toJson.nesting < 128 →
      ofJson w.toJson.bytes = .ok w.sorted ∧ (w.InOrder → w.sorted = w)) ∧
    ∀ (bytes : Bytes) (w : WireValue), ofJson bytes = .ok w →
      w.Filled ∧ w.InOrder ∧ ofJson w.toJson.bytes = .ok w := by
  constructor
  · intro w hf hd
    exact ⟨ofJson_toJson_sorted hf (Nat.le_of_lt_succ hd), InOrder.sorted_eq⟩
  · intro bytes w h
    have hw := Readable.of_yields (yields_of_ofJson h)
    exact ⟨hw.filled, hw.inOrder, ofJson_toJson hw⟩

/-- A map whose entries are not in order, with a list and a set in it. -/
def shelf : WireValue := .map [("marks", .binarySet [[255, 0]]),
  ("books", .list [.text "\"é\"\n", .null true, .numberSet ["-0.5", "7"]])]

/-- A text with white space, an escape, and one key twice. -/
def shelfNote : Bytes := Text.toBytes ("\x7b \"M\":\x7b\"b\":\x7b\"N\":\"1\"\x7d, " ++
  "\"a\":\x7b\"NULL\":true\x7d,\"b\":\x7b\"S\":\"\\u00e9\"\x7d\x7d\n\x7d")

theorem shelf_comes_back :
    ofJson shelf.toJson.bytes = .ok (.map [
        ("books", .list [.text "\"é\"\n", .null true, .numberSet ["-0.5", "7"]]),
        ("marks", .binarySet [[255, 0]])]) ∧
      ofJson shelfNote = .ok (.map [("a", .null true), ("b", .text "é")]) ∧
      ofJson (toJson (.map [("a", .null true), ("b", .text "é")])).bytes
        = .ok (.map [("a", .null true), ("b", .text "é")]) := by
  have hf : shelf.Filled := findEmpty_eq_none_iff.mp (by decide +kernel)
  have hsorted : shelf.sorted = .map [
      ("books", .list [.text "\"é\"\n", .null true, .numberSet ["-0.5", "7"]]),
      ("marks", .binarySet [[255, 0]])] := by
    decide +kernel
  have hnote : ofJson shelfNote = .ok (.map [("a", .null true), ("b", .text "é")]) := by
    decide +kernel
  obtain ⟨hback, -⟩ := json_comes_back.1 shelf hf (by decide)
  obtain ⟨-, -, hagain⟩ := json_comes_back.2 _ _ hnote
  exact ⟨hback.trans (congrArg Except.ok hsorted), hnote, hagain⟩

end WireValue

end Clauses
