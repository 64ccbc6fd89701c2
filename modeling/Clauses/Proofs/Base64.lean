import Clauses.Base64
import Clauses.Text.Utf8

/-!
# Base64 is read back

* `Base64.decode_encode` — bytes that are written in base64 are read back
-/

namespace Clauses.Base64

/-! ## Symbols -/

/-- The byte that a symbol is written as. -/
def symbolByte (n : Nat) : UInt8 := UInt8.ofNat (symbol n).toNat

theorem utf8_symbol {n : Nat} (h : n < 64) : String.utf8EncodeChar (symbol n) = [symbolByte n] := by
  have hall : ∀ m ∈ List.range 64, String.utf8EncodeChar (symbol m) = [symbolByte m] := by decide
  exact hall n (List.mem_range.mpr h)

theorem symbolByte_ne_pad {n : Nat} (h : n < 64) : (symbolByte n == pad) = false := by
  have hall : ∀ m ∈ List.range 64, (symbolByte m == pad) = false := by decide
  exact hall n (List.mem_range.mpr h)

theorem valueAt_symbolByte {n : Nat} (h : n < 64) (offset : Nat) :
    valueAt (symbolByte n) offset = .ok n := by
  rw [valueAt, symbolByte, value?_symbol h]

theorem splitLast_symbol {start place n : Nat} {symbols : List (UInt8 × Nat)} (h : n < 64)
    (rest : Bytes) : splitLast start symbols 0 place (symbolByte n :: rest)
      = splitLast start ((symbolByte n, n) :: symbols) 0 (place + 1) rest := by
  rw [splitLast, symbolByte_ne_pad h, valueAt_symbolByte h]
  rfl

/-! ## Groups -/

/-- The symbols of 24 bits, as bytes. -/
def groupBytes (n : Nat) : Bytes :=
  [symbolByte (n / 262144), symbolByte (n / 4096 % 64), symbolByte (n / 64 % 64),
    symbolByte (n % 64)]

theorem threeBytes_eq (a b c : UInt8) :
    threeBytes ((a.toNat * 256 + b.toNat) * 256 + c.toNat) = [a, b, c] := by
  have ha := a.toNat_lt
  have hb := b.toNat_lt
  have hc := c.toNat_lt
  have h1 : ((a.toNat * 256 + b.toNat) * 256 + c.toNat) / 65536 = a.toNat := by omega
  have h2 : ((a.toNat * 256 + b.toNat) * 256 + c.toNat) / 256 % 256 = b.toNat := by omega
  have h3 : ((a.toNat * 256 + b.toNat) * 256 + c.toNat) % 256 = c.toNat := by omega
  rw [threeBytes, h1, h2, h3, UInt8.ofNat_toNat, UInt8.ofNat_toNat, UInt8.ofNat_toNat]

/-- The last group is read back if it is whole. -/
theorem decodeLast_three {n : Nat} (h : n < 16777216) (start : Nat) :
    decodeLast start (groupBytes n) = .ok (threeBytes n) := by
  have h1 : n / 262144 < 64 := by omega
  have h2 : n / 4096 % 64 < 64 := by omega
  have h3 : n / 64 % 64 < 64 := by omega
  have h4 : n % 64 < 64 := by omega
  have hn : ((n / 262144 * 64 + n / 4096 % 64) * 64 + n / 64 % 64) * 64 + n % 64 = n := by omega
  rw [decodeLast, groupBytes, splitLast_symbol h1, splitLast_symbol h2, splitLast_symbol h3,
    splitLast_symbol h4]
  simp [splitLast, bind, Except.bind, hn, Nat.mod_one]
  rfl

/-- Two bytes at the end are read back. -/
theorem decodeLast_two {n : Nat} (h : n < 262144) (hz : n % 4 = 0) (start : Nat) :
    decodeLast start [symbolByte (n / 4096), symbolByte (n / 64 % 64), symbolByte (n % 64), pad]
      = .ok ((threeBytes (n * 64)).take 2) := by
  have h1 : n / 4096 < 64 := by omega
  have h2 : n / 64 % 64 < 64 := by omega
  have h3 : n % 64 < 64 := by omega
  have hn : (n / 4096 * 64 + n / 64 % 64) * 64 + n % 64 = n := by omega
  rw [decodeLast, splitLast_symbol h1, splitLast_symbol h2, splitLast_symbol h3]
  simp [splitLast, bind, Except.bind, hn]
  omega

/-- One byte at the end is read back. -/
theorem decodeLast_one {n : Nat} (h : n < 4096) (hz : n % 16 = 0) (start : Nat) :
    decodeLast start [symbolByte (n / 64), symbolByte (n % 64), pad, pad]
      = .ok ((threeBytes (n * 4096)).take 1) := by
  have h1 : n / 64 < 64 := by omega
  have h2 : n % 64 < 64 := by omega
  have hn : n / 64 * 64 + n % 64 = n := by omega
  rw [decodeLast, splitLast_symbol h1, splitLast_symbol h2]
  simp [splitLast, bind, Except.bind, hn]
  omega

theorem decodeGroups_cons {n : Nat} (h : n < 16777216) (start : Nat) (rest : Bytes)
    (hrest : rest ≠ []) : decodeGroups start (groupBytes n ++ rest)
      = (decodeGroups (start + 4) rest).map (threeBytes n ++ ·) := by
  have hn : n / 262144 * 262144 + n / 4096 % 64 * 4096 + n / 64 % 64 * 64 + n % 64 = n := by omega
  obtain ⟨e, rest, rfl⟩ := List.exists_cons_of_ne_nil hrest
  rw [groupBytes]
  simp only [List.cons_append, List.nil_append]
  rw [decodeGroups, valueAt_symbolByte (by omega), valueAt_symbolByte (by omega),
    valueAt_symbolByte (by omega), valueAt_symbolByte (by omega)]
  simp only [bind, Except.bind, hn]
  cases decodeGroups (start + 4) (e :: rest) <;> rfl

/-! ## Texts -/

/-- Bytes in base64, as bytes. -/
def encodedBytes (bytes : Bytes) : Bytes := Text.toBytes (String.ofList (encode bytes))

theorem encodedBytes_one (a : UInt8) : encodedBytes [a]
    = [symbolByte (a.toNat * 16 / 64), symbolByte (a.toNat * 16 % 64), pad, pad] := by
  have ha := a.toNat_lt
  have h1 : a.toNat * 16 / 64 < 64 := by omega
  have h2 : a.toNat * 16 % 64 < 64 := by omega
  simp only [encodedBytes, Text.toBytes, String.toList_ofList, encode, List.flatMap_cons,
    utf8_symbol h1, utf8_symbol h2]
  rfl

theorem encodedBytes_two (a b : UInt8) : encodedBytes [a, b]
    = [symbolByte ((a.toNat * 256 + b.toNat) * 4 / 4096),
      symbolByte ((a.toNat * 256 + b.toNat) * 4 / 64 % 64),
      symbolByte ((a.toNat * 256 + b.toNat) * 4 % 64), pad] := by
  have ha := a.toNat_lt
  have hb := b.toNat_lt
  have h1 : (a.toNat * 256 + b.toNat) * 4 / 4096 < 64 := by omega
  have h2 : (a.toNat * 256 + b.toNat) * 4 / 64 % 64 < 64 := by omega
  have h3 : (a.toNat * 256 + b.toNat) * 4 % 64 < 64 := by omega
  simp only [encodedBytes, Text.toBytes, String.toList_ofList, encode, List.flatMap_cons,
    utf8_symbol h1, utf8_symbol h2, utf8_symbol h3]
  rfl

theorem encodedBytes_cons (a b c : UInt8) (rest : Bytes) : encodedBytes (a :: b :: c :: rest)
    = groupBytes ((a.toNat * 256 + b.toNat) * 256 + c.toNat) ++ encodedBytes rest := by
  have ha := a.toNat_lt
  have hb := b.toNat_lt
  have hc := c.toNat_lt
  have h1 : ((a.toNat * 256 + b.toNat) * 256 + c.toNat) / 262144 < 64 := by omega
  have h2 : ((a.toNat * 256 + b.toNat) * 256 + c.toNat) / 4096 % 64 < 64 := by omega
  have h3 : ((a.toNat * 256 + b.toNat) * 256 + c.toNat) / 64 % 64 < 64 := by omega
  have h4 : ((a.toNat * 256 + b.toNat) * 256 + c.toNat) % 64 < 64 := by omega
  simp only [encodedBytes, Text.toBytes, String.toList_ofList, encode, List.flatMap_cons,
    utf8_symbol h1, utf8_symbol h2, utf8_symbol h3, utf8_symbol h4]
  rfl

/-- A text is as long as its groups; it is empty only where there are no bytes. -/
theorem length_encodedBytes (bytes : Bytes) :
    (encodedBytes bytes).length = (bytes.length + 2) / 3 * 4 := by
  fun_induction encode bytes with
  | case1 => rfl
  | case2 a => simp [encodedBytes_one]
  | case3 a b => simp [encodedBytes_two]
  | case4 a b c rest n ih =>
    rw [encodedBytes_cons, List.length_append, ih, groupBytes]
    simp only [List.length_cons, List.length_nil]
    omega

/-- The groups of a text are read back, one after the other. -/
theorem decodeGroups_encodedBytes (start : Nat) (bytes : Bytes) :
    decodeGroups start (encodedBytes bytes) = .ok bytes := by
  fun_induction encode bytes generalizing start with
  | case1 => rfl
  | case2 a =>
    have ha := a.toNat_lt
    have hn : a.toNat * 16 * 4096 = (a.toNat * 256 + (0 : UInt8).toNat) * 256
        + (0 : UInt8).toNat := by
      simp
      omega
    rw [encodedBytes_one, decodeGroups, decodeLast_one (by omega) (by omega), hn, threeBytes_eq]
    · rfl
    · simp
  | case3 a b =>
    have ha := a.toNat_lt
    have hb := b.toNat_lt
    have hn : (a.toNat * 256 + b.toNat) * 4 * 64
        = (a.toNat * 256 + b.toNat) * 256 + (0 : UInt8).toNat := by
      simp
      omega
    rw [encodedBytes_two, decodeGroups, decodeLast_two (by omega) (by omega), hn, threeBytes_eq]
    · rfl
    · simp
  | case4 a b c rest n ih =>
    have ha := a.toNat_lt
    have hb := b.toNat_lt
    have hc := c.toNat_lt
    rw [encodedBytes_cons]
    cases rest with
    | nil =>
      change decodeGroups start (groupBytes _) = _
      rw [groupBytes, decodeGroups, ← groupBytes, decodeLast_three (by omega), threeBytes_eq]
      simp
    | cons d rest =>
      have hne : encodedBytes (d :: rest) ≠ [] := by
        refine List.ne_nil_of_length_pos ?_
        rw [length_encodedBytes, List.length_cons]
        omega
      rw [decodeGroups_cons (by omega) start _ hne, ih, threeBytes_eq]
      rfl

/-- **Bytes in base64 are read back.** -/
theorem decode_encode (bytes : Bytes) :
    decode (Text.toBytes (String.ofList (encode bytes))) = .ok bytes := by
  change decode (encodedBytes bytes) = _
  have hlength : (encodedBytes bytes).length % 4 = 0 := by
    rw [length_encodedBytes]
    omega
  rw [decode]
  split
  · next b _ =>
    rw [hlength]
    exact decodeGroups_encodedBytes 0 bytes
  · next h =>
    have hnil : encodedBytes bytes = [] := List.getLast?_eq_none_iff.mp h
    rw [← decodeGroups_encodedBytes 0 bytes, hnil]
    rfl

end Clauses.Base64
