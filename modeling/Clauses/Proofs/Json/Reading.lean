import Clauses.Json.Basic
import Clauses.Json.Reader
import Mathlib.Data.List.Forall2

/-!
# Compact JSON is read back

What is written as compact JSON is read back as what was written, whatever stands behind
it. A text comes back through its escapes and its UTF-8 form, a list item by item, and an
object member by member.

* `Json.Reads` — a reader takes a text off the front and gives a value for it
* `Json.reads_text`, `Json.reads_list`, `Json.reads_map` — the readers of texts, lists and maps
-/

namespace Clauses.Json

/-- The UTF-8 form of some characters. -/
def utf8 (s : List Char) : Bytes := s.flatMap String.utf8EncodeChar

theorem bytes_eq (v : Json) : v.bytes = utf8 v.chars := by
  rw [bytes, Text.toBytes, String.toList_ofList, utf8]

@[simp] theorem utf8_cons (c : Char) (s : List Char) :
    utf8 (c :: s) = String.utf8EncodeChar c ++ utf8 s := List.flatMap_cons

@[simp] theorem utf8_append (s t : List Char) : utf8 (s ++ t) = utf8 s ++ utf8 t :=
  List.flatMap_append

/-- The reader takes the text off the front of a longer one, and gives this value for it. -/
def Reads {α : Type} (read : Reader α) (text : List Char) (a : α) : Prop :=
  ∀ rest, read (utf8 text ++ rest) = .ok (a, rest)

/-! ## Texts -/

/-- A byte of a text literal that stands for itself. -/
def IsPlain (b : UInt8) : Prop := b.toNat ≠ 34 ∧ b.toNat ≠ 92 ∧ 32 ≤ b.toNat

/-- What is read behind some bytes that have been read. -/
def behind (bytes : Bytes) (r : Except Fault (Bytes × Bytes)) : Except Fault (Bytes × Bytes) :=
  r.map fun p => (bytes ++ p.1, p.2)

theorem readLiteral_plain {bytes : Bytes} (h : ∀ b ∈ bytes, IsPlain b) (rest : Bytes) :
    readLiteral (bytes ++ rest) = behind bytes (readLiteral rest) := by
  induction bytes with
  | nil =>
    rw [List.nil_append]
    cases readLiteral rest <;> rfl
  | cons b bytes ih =>
    obtain ⟨⟨hquote, hslash, hlow⟩, h⟩ := List.forall_mem_cons.mp h
    have hne (n : UInt8) (hn : b.toNat ≠ n.toNat) : ¬(b == n) = true := by
      simpa using mt (congrArg UInt8.toNat) hn
    have hnlt : ¬b < 32 := by
      rw [UInt8.lt_iff_toNat_lt]
      exact Nat.not_lt.mpr hlow
    rw [List.cons_append, readLiteral, if_neg (hne 34 hquote), if_neg (hne 92 hslash), if_neg hnlt,
      ih h]
    cases readLiteral rest <;> rfl

theorem readLiteral_escape {escape bytes : Bytes}
    (h : ∀ rest, readEscape (escape ++ rest) = .ok (bytes, rest)) (rest : Bytes) :
    readLiteral (92 :: escape ++ rest) = behind bytes (readLiteral rest) := by
  rw [List.cons_append, readLiteral, if_neg (by decide), if_pos (by decide)]
  split
  · next he =>
    rw [h] at he
    cases he
  · next he =>
    rw [h] at he
    cases he
    cases readLiteral rest <;> rfl

/-- A character that is not escaped is plain in its UTF-8 form. -/
theorem isPlain_of_mem {c : Char} (hquote : c ≠ '"') (hslash : c ≠ '\\') (hlow : ¬c.toNat < 0x20)
    {b : UInt8} (hb : b ∈ String.utf8EncodeChar c) : IsPlain b := by
  have hquote : c.toNat ≠ 34 := fun h => hquote (Char.toNat_inj.mp h)
  have hslash : c.toNat ≠ 92 := fun h => hslash (Char.toNat_inj.mp h)
  have hc : c.val.toNat = c.toNat := rfl
  have hbyte (n : Nat) : (UInt8.ofNat n).toNat = n % 256 := UInt8.toNat_ofNat'
  unfold String.utf8EncodeChar at hb
  -- Beyond ASCII all bytes are from 128 on.
  by_cases h1 : c.toNat ≤ 127
  · simp only [hc, if_pos h1, List.mem_singleton] at hb
    rw [hb, IsPlain, hbyte]
    omega
  · have h : 128 ≤ b.toNat := by
      simp only [hc, if_neg h1] at hb
      split at hb
      · simp only [List.mem_cons, List.not_mem_nil, or_false] at hb
        rcases hb with rfl | rfl <;> rw [hbyte] <;> omega
      · split at hb
        · simp only [List.mem_cons, List.not_mem_nil, or_false] at hb
          rcases hb with rfl | rfl | rfl <;> rw [hbyte] <;> omega
        · simp only [List.mem_cons, List.not_mem_nil, or_false] at hb
          rcases hb with rfl | rfl | rfl | rfl <;> rw [hbyte] <;> omega
    unfold IsPlain
    omega

/-- A hexadecimal digit is read back. -/
theorem hexValue?_digitChar {d : Nat} (h : d < 16) :
    ∃ b, String.utf8EncodeChar d.digitChar = [b] ∧ hexValue? b = some d := by
  have hall : ∀ d ∈ List.range 16,
      String.utf8EncodeChar d.digitChar = [UInt8.ofNat d.digitChar.toNat] ∧
        hexValue? (UInt8.ofNat d.digitChar.toNat) = some d := by
    decide
  exact ⟨_, hall d (List.mem_range.mpr h)⟩

/-- A control character is read back from its number. -/
theorem readLiteral_control {c : Char} (h : c.toNat < 0x20) (rest : Bytes) :
    readLiteral (utf8 ['\\', 'u', '0', '0', (c.toNat / 16).digitChar, (c.toNat % 16).digitChar]
      ++ rest) = behind (String.utf8EncodeChar c) (readLiteral rest) := by
  obtain ⟨x, hhigh, hx⟩ := hexValue?_digitChar (d := c.toNat / 16) (by omega)
  obtain ⟨y, hlow, hy⟩ := hexValue?_digitChar (d := c.toNat % 16) (by omega)
  have hzero : hexValue? 48 = some 0 := by decide
  have hn : ((0 * 16 + 0) * 16 + c.toNat / 16) * 16 + c.toNat % 16 = c.toNat := by omega
  have hhex (rest : Bytes) : readHex (48 :: 48 :: x :: y :: rest) = .ok (c.toNat, rest) := by
    simp only [readHex, hzero, hx, hy, hn]
  -- Surrogates have larger numbers.
  have htrail : ¬isTrailSurrogate c.toNat = true := by
    simp [isTrailSurrogate]
    omega
  have hlead : ¬isLeadSurrogate c.toNat = true := by
    simp [isLeadSurrogate]
    omega
  have hescape (rest : Bytes) :
      readEscape ([117, 48, 48, x, y] ++ rest) = .ok (String.utf8EncodeChar c, rest) := by
    change readCodePoint (48 :: 48 :: x :: y :: rest) = _
    simp only [readCodePoint, hhex, if_neg htrail, if_neg hlead, codePointBytes, Char.ofNat_toNat]
  have hchars : utf8 ['\\', 'u', '0', '0', (c.toNat / 16).digitChar, (c.toNat % 16).digitChar]
      = 92 :: [117, 48, 48, x, y] := by
    simp only [utf8_cons, hhigh, hlow]
    rfl
  rw [hchars]
  exact readLiteral_escape hescape rest

theorem readLiteral_escapedChar (c : Char) (rest : Bytes) :
    readLiteral (utf8 (escapedChar c) ++ rest)
      = behind (String.utf8EncodeChar c) (readLiteral rest) := by
  have hsimple {c d : Char} {b v : UInt8} (hc : String.utf8EncodeChar c = [v])
      (hd : String.utf8EncodeChar d = [b]) (hb : simpleEscape? b = some v) :
      readLiteral (utf8 ['\\', d] ++ rest) = behind (String.utf8EncodeChar c)
      (readLiteral rest) := by
    have hchars : utf8 ['\\', d] = 92 :: [b] := by
      simp only [utf8_cons, hd]
      rfl
    rw [hchars, hc]
    refine readLiteral_escape (fun rest => ?_) rest
    simp only [List.cons_append, List.nil_append, readEscape, hb]
  unfold escapedChar
  simp only [beq_iff_eq]
  split
  · next h => rw [h]; exact hsimple rfl rfl rfl
  split
  · next h => rw [h]; exact hsimple rfl rfl rfl
  split
  · next h => rw [h]; exact hsimple rfl rfl rfl
  split
  · next h => rw [h]; exact hsimple rfl rfl rfl
  split
  · next h => rw [h]; exact hsimple rfl rfl rfl
  split
  · next h => rw [h]; exact hsimple rfl rfl rfl
  split
  · next h => rw [h]; exact hsimple rfl rfl rfl
  split
  · next h => exact readLiteral_control h rest
  · next hquote hslash _ _ _ _ _ hlow =>
    rw [utf8_cons, show utf8 [] = [] from rfl, List.append_nil]
    exact readLiteral_plain (fun b hb => isPlain_of_mem hquote hslash hlow hb) rest

/-- The characters of a text are read back through their escapes. -/
theorem readLiteral_escaped (s : List Char) (rest : Bytes) :
    readLiteral (utf8 (s.flatMap escapedChar ++ ['"']) ++ rest) = .ok (utf8 s, rest) := by
  induction s with
  | nil =>
    change readLiteral (34 :: rest) = _
    rw [readLiteral, if_pos (by decide)]
    rfl
  | cons c s ih =>
    rw [List.flatMap_cons, List.append_assoc, utf8_append, List.append_assoc,
      readLiteral_escapedChar, ih, utf8_cons]
    rfl

/-- A text is read back. -/
theorem readText_escaped (s : String) (rest : Bytes) :
    readText (utf8 (s.toList.flatMap escapedChar ++ ['"']) ++ rest) = .ok (s, rest) := by
  rw [readText, readLiteral_escaped]
  have hs : Text.ofBytes? (utf8 s.toList) = some s := Text.ofBytes?_toBytes s
  simp only [hs]

/-! ## Values -/

theorem dropBlanks_cons {b : UInt8} (h : isBlankByte b = false) (rest : Bytes) :
    dropBlanks (b :: rest) = b :: rest :=
  List.dropWhile_cons_of_neg (by simp [h])

theorem reads_text (s : String) : Reads Reader.text (escaped s) s := by
  intro rest
  change Reader.text (34 :: (utf8 (s.toList.flatMap escapedChar ++ ['"']) ++ rest)) = _
  rw [Reader.text, dropBlanks_cons (by decide)]
  exact readText_escaped s rest

theorem reads_bool (b : Bool) : Reads Reader.bool (chars (.bool b)) b := by
  cases b <;> exact fun _ => rfl

theorem Reads.value {α : Type} {read : Reader α} {text : List Char} {a : α}
    (h : Reads read text a) :
    Reads (Reader.value read) (':' :: text) a := by
  intro rest
  have hcolon : Reader.colon (utf8 (':' :: text) ++ rest) = .ok (utf8 text ++ rest) := by
    change Reader.colon (58 :: (utf8 text ++ rest)) = _
    rw [Reader.colon, dropBlanks_cons (by decide)]
    rfl
  rw [Reader.value, hcolon]
  exact h rest

/-- The text starts with a byte that is not blank and closes no list. -/
def Opens (text : List Char) : Prop :=
  ∃ b rest, utf8 text = b :: rest ∧ isBlankByte b = false ∧ (b == 93) = false

theorem Opens.cons {c : Char} {b : UInt8} (hc : String.utf8EncodeChar c = [b])
    (hb : isBlankByte b = false ∧ (b == 93) = false) (text : List Char) : Opens (c :: text) :=
  ⟨b, utf8 text, by rw [utf8_cons, hc, List.singleton_append], hb⟩

theorem opens_chars (v : Json) : Opens v.chars := by
  cases v with
  | bool b =>
    cases b
    · exact .cons (c := 'f') rfl (by decide) _
    · exact .cons (c := 't') rfl (by decide) _
  | text s => exact .cons (c := '"') rfl (by decide) _
  | list items => exact .cons (c := '[') rfl (by decide) _
  | object members => exact .cons (c := '\x7b') rfl (by decide) _

/-! ## Lists -/

/-- The items of a list behind the first one. -/
def moreItemsChars : List Json → List Char
  | [] => [']']
  | v :: rest => ',' :: (v.chars ++ moreItemsChars rest)

theorem itemsChars_cons (v : Json) (rest : List Json) :
    itemsChars (v :: rest) = v.chars ++ moreItemsChars rest := by
  induction rest generalizing v with
  | nil => rfl
  | cons w rest ih =>
    rw [itemsChars, ih w, moreItemsChars]
    simp

variable {α : Type} {item : Reader α}

theorem items_end (first : Bool) (rest : Bytes) :
    Reader.items item first (93 :: rest) = .ok ([], rest) := by
  rw [Reader.items]
  have hnext : Reader.nextItem first (93 :: rest) = .ok none := rfl
  have hclose : Reader.closeList (93 :: rest) = .ok rest := rfl
  rw [hnext, hclose]
  rfl

theorem items_cons {first : Bool} {s front rest rest' : Bytes} {a : α} {as : List α}
    (hnext : Reader.nextItem first s = .ok (some front)) (ha : item front = .ok (a, rest))
    (hlt : rest.length < s.length) (has : Reader.items item false rest = .ok (as, rest')) :
    Reader.items item first s = .ok (a :: as, rest') := by
  rw [Reader.items]
  simp only [hnext, ha, if_pos hlt, has]

theorem items_more {vs : List Json} {as : List α}
    (h : List.Forall₂ (fun v a => Reads item v.chars a) vs as) (rest : Bytes) :
    Reader.items item false (utf8 (moreItemsChars vs) ++ rest) = .ok (as, rest) := by
  induction h with
  | nil => exact items_end false rest
  | @cons v a vs as hv _ ih =>
    obtain ⟨b, text, hb, hblank, hend⟩ := opens_chars v
    have hs : utf8 (moreItemsChars (v :: vs)) ++ rest
        = 44 :: (utf8 v.chars ++ (utf8 (moreItemsChars vs) ++ rest)) := by
      simp [moreItemsChars]
      rfl
    rw [hs]
    refine items_cons ?_ (hv _) ?_ ih
    · rw [hb, Reader.nextItem, dropBlanks_cons (by decide)]
      simp only [List.cons_append, dropBlanks_cons hblank, hend]
      rfl
    · rw [hb]
      simp only [List.length_cons, List.length_append]
      omega

/-- A list is read back item by item. -/
theorem reads_list {depth : Nat} (hdepth : depth ≠ 0) {vs : List Json} {as : List α}
    (h : List.Forall₂ (fun v a => Reads item v.chars a) vs as) :
    Reads (Reader.list depth item) (chars (.list vs)) as := by
  intro rest
  have hlist (s : Bytes) : Reader.list depth item (91 :: s) = Reader.items item true s := by
    rw [Reader.list, dropBlanks_cons (by decide)]
    exact if_neg hdepth
  have hs : utf8 (chars (.list vs)) ++ rest = 91 :: (utf8 (itemsChars vs) ++ rest) := by
    rw [chars, utf8_cons]
    rfl
  rw [hs, hlist]
  cases h with
  | nil => exact items_end true rest
  | @cons v a vs as hv hvs =>
    obtain ⟨b, text, hb, hblank, hend⟩ := opens_chars v
    rw [itemsChars_cons, utf8_append, List.append_assoc]
    refine items_cons ?_ (hv _) ?_ (items_more hvs rest)
    · rw [hb, List.cons_append, Reader.nextItem, dropBlanks_cons hblank]
      simp only [hend]
      rfl
    · rw [hb]
      simp only [List.length_cons, List.length_append]
      omega

/-! ## Objects -/

/-- The members of an object behind the first one. -/
def moreMembersChars : List (String × Json) → List Char
  | [] => ['\x7d']
  | (k, v) :: rest => ',' :: (escaped k ++ ':' :: (v.chars ++ moreMembersChars rest))

theorem membersChars_cons (k : String) (v : Json) (rest : List (String × Json)) :
    membersChars ((k, v) :: rest) = escaped k ++ ':' :: (v.chars ++ moreMembersChars rest) := by
  induction rest generalizing k v with
  | nil => rfl
  | cons e rest ih =>
    obtain ⟨l, w⟩ := e
    rw [membersChars, ih l w, moreMembersChars]
    simp

theorem nextKey_end (first : Bool) (rest : Bytes) :
    Reader.nextKey first (125 :: rest) = .ok (none, rest) := rfl

/-- The first key of an object is read back. -/
theorem nextKey_first (k : String) (rest : Bytes) :
    Reader.nextKey true (utf8 (escaped k) ++ rest) = .ok (some k, rest) := by
  change Reader.nextKey true (34 :: (utf8 (k.toList.flatMap escapedChar ++ ['"']) ++ rest)) = _
  rw [Reader.nextKey, dropBlanks_cons (by decide)]
  change Except.map _ (readText _) = _
  rw [readText_escaped]
  rfl

/-- A key behind a comma is read back. -/
theorem nextKey_more (k : String) (rest : Bytes) :
    Reader.nextKey false (44 :: (utf8 (escaped k) ++ rest)) = .ok (some k, rest) := by
  change Reader.nextKey false
    (44 :: 34 :: (utf8 (k.toList.flatMap escapedChar ++ ['"']) ++ rest)) = _
  rw [Reader.nextKey, dropBlanks_cons (by decide)]
  simp only [dropBlanks_cons (show isBlankByte 34 = false by decide)]
  change Except.map _ (readText _) = _
  rw [readText_escaped]
  rfl

/-- The member of a map, put in front of those that have been read. -/
def gather (item : Reader α) (k : String) (entries : List (String × α)) :
    Reader (List (String × α)) :=
  fun s => (Reader.value item s).map fun (a, rest) => ((k, a) :: entries, rest)

theorem members_cons {first : Bool} {s rest rest' rest'' : Bytes} {k : String} {a : α}
    {entries : List (String × α)} {all : List (String × α)}
    (hnext : Reader.nextKey first s = .ok (some k, rest))
    (ha : Reader.value item rest = .ok (a, rest')) (hlt : rest'.length < s.length)
    (hall : Reader.members (gather item) false ((k, a) :: entries) rest' = .ok (all, rest'')) :
    Reader.members (gather item) first entries s = .ok (all, rest'') := by
  rw [Reader.members]
  have hmember : gather item k entries rest = .ok ((k, a) :: entries, rest') := by
    rw [gather, ha]
    rfl
  simp only [hnext, hmember, if_pos hlt, hall]

theorem members_end (first : Bool) (entries : List (String × α)) (rest : Bytes) :
    Reader.members (gather item) first entries (125 :: rest) = .ok (entries, rest) := by
  rw [Reader.members]
  simp only [nextKey_end]

theorem members_more {es : List (String × Json)} {as : List (String × α)}
    (h : List.Forall₂ (fun e a => a.1 = e.1 ∧ Reads item e.2.chars a.2) es as) :
    ∀ (entries : List (String × α)) (rest : Bytes),
      Reader.members (gather item) false entries (utf8 (moreMembersChars es) ++ rest)
        = .ok (as.reverse ++ entries, rest) := by
  induction h with
  | nil => exact fun entries rest => members_end false entries rest
  | @cons e a es as ha _ ih =>
    intro entries rest
    obtain ⟨k, v⟩ := e
    obtain ⟨k', a⟩ := a
    obtain ⟨rfl, hv⟩ := ha
    have hs : utf8 (moreMembersChars ((k', v) :: es)) ++ rest
        = 44 :: (utf8 (escaped k') ++
          (utf8 (':' :: v.chars) ++ (utf8 (moreMembersChars es) ++ rest))) := by
      simp [moreMembersChars]
      rfl
    rw [hs, List.reverse_cons, List.append_assoc]
    refine members_cons (nextKey_more k' _) (hv.value _) ?_ (ih _ rest)
    simp only [List.length_cons, List.length_append]
    omega

/-- An object is read back as a map, member by member. -/
theorem reads_map {depth : Nat} (hdepth : depth ≠ 0) {es : List (String × Json)}
    {as : List (String × α)}
    (h : List.Forall₂ (fun e a => a.1 = e.1 ∧ Reads item e.2.chars a.2) es as) :
    Reads (Reader.map depth item) (chars (.object es)) as := by
  intro rest
  have hmap (s : Bytes) : Reader.map depth item (123 :: s)
      = (Reader.members (gather item) true [] s).map fun p => (p.1.reverse, p.2) := by
    rw [Reader.map, dropBlanks_cons (by decide)]
    exact if_neg hdepth
  have hs : utf8 (chars (.object es)) ++ rest = 123 :: (utf8 (membersChars es) ++ rest) := by
    rw [chars, utf8_cons]
    rfl
  have hmembers : Reader.members (gather item) true [] (utf8 (membersChars es) ++ rest)
      = .ok (as.reverse, rest) := by
    cases h with
    | nil => exact members_end true [] rest
    | @cons e a es as ha has =>
      obtain ⟨k, v⟩ := e
      obtain ⟨k', a⟩ := a
      obtain ⟨rfl, hv⟩ := ha
      have hs : utf8 (membersChars ((k', v) :: es)) ++ rest
          = utf8 (escaped k')
            ++ (utf8 (':' :: v.chars) ++ (utf8 (moreMembersChars es) ++ rest)) := by
        rw [membersChars_cons]
        simp
      have hkey : 0 < (utf8 (escaped k')).length := Nat.succ_pos _
      rw [hs, List.reverse_cons]
      refine members_cons (nextKey_first k' _) (hv.value _) ?_ (members_more has _ rest)
      simp only [List.length_append]
      omega
  rw [hs, hmap, hmembers]
  exact congrArg (fun as => Except.ok (as, rest)) as.reverse_reverse

end Clauses.Json
