import Clauses.Proofs.Passage

/-!
# How a template is cut into tokens

What a token is made of can be said without the reader: a brace that is written twice, a slot with
its digits and its format, a sigil with a word, a word, or a single character. What follows a token
decides where its word ends and whether it is called, and nothing else.

* `Template.Cut` — a text is a token, in front of another text
* `Template.next_ok_iff` — a token is taken off a text if, and only if, the text starts with it
* `Template.Cuts` — a whole text is made of these tokens
* `Template.cuts_lexFrom`, `Template.Cuts.lexFrom` — these are the tokens that a template is cut
  into, if it has no fault
-/

namespace Clauses

theorem Text.firstVisible?_blank {c : Char} (hc : isBlank c = true) (s : List Char) :
    firstVisible? (c :: s) = firstVisible? s := by
  rw [firstVisible?, dropBlanks, List.dropWhile_cons_of_pos hc]
  rfl

theorem Text.firstVisible?_visible {c : Char} (hc : isBlank c = false) (s : List Char) :
    firstVisible? (c :: s) = some c := by
  rw [firstVisible?, dropBlanks, List.dropWhile_cons_of_neg (by simp [hc])]
  rfl

namespace Template

/-! ## Characters -/

/-- A token may go on behind this character: a brace, a sigil, or the start of a word. -/
def isLead (c : Char) : Bool := ['\x7b', '\x7d', '#', ':'].contains c || Text.isWordStart c

theorem isLead_iff {c : Char} : isLead c = true ↔
    c = '\x7b' ∨ c = '\x7d' ∨ c = '#' ∨ c = ':' ∨ Text.isWordStart c = true := by
  simp [isLead, or_assoc]

theorem isLead_of_isBlank {c : Char} (h : Text.isBlank c = true) : isLead c = false := by
  rw [← Bool.not_eq_true, isLead_iff]
  rintro (rfl | rfl | rfl | rfl | hc)
  · exact absurd h (by decide)
  · exact absurd h (by decide)
  · exact absurd h (by decide)
  · exact absurd h (by decide)
  · -- Letters are between the blanks of ASCII and those beyond it.
    simp only [Text.isWordStart, Text.isBlank, Bool.or_eq_true, Bool.and_eq_true,
      decide_eq_true_eq, beq_iff_eq, Text.isAlpha_iff] at hc h
    rcases hc with hc | rfl
    · omega
    · exact absurd h (by decide)

theorem isWordStart_of_isLead {c : Char} (h : isLead c = false) : Text.isWordStart c = false := by
  rw [isLead, Bool.or_eq_false_iff] at h
  exact h.2

theorem isBlank_of_isWordStart {c : Char} (h : Text.isWordStart c = true) :
    Text.isBlank c = false := by
  rw [← Bool.not_eq_true]
  intro hb
  rw [isWordStart_of_isLead (isLead_of_isBlank hb)] at h
  cases h

/-! ## Slots -/

/-- A slot with its number and its format, if it has one. -/
structure IsSlot (digits : List Char) (format : Option (List Char)) : Prop where
  ne : digits ≠ []
  isDigit : ∀ c ∈ digits, c.isDigit = true
  small : Text.digitsValue digits ≤ maxSlot
  closed : ∀ f ∈ format, f ≠ [] ∧ '\x7d' ∉ f

/-- What stands behind the digits of a slot. -/
def formatChars (format : Option (List Char)) : List Char := format.elim [] (':' :: ·) ++ ['\x7d']

/-- A slot as it is written. -/
def slotChars (digits : List Char) (format : Option (List Char)) : List Char :=
  '\x7b' :: (digits ++ formatChars format)

/-- The slot as a token. -/
def slotToken (digits : List Char) (format : Option (List Char)) : Token :=
  .slot (Text.digitsValue digits) (format.map String.ofList)

variable {digits s rest rest' text : List Char} {format : Option (List Char)}
    {token : Token} {c : Char}

theorem slotOf_ok_iff : slotOf digits format rest = .ok (token, rest') ↔
    digits ≠ [] ∧ Text.digitsValue digits ≤ maxSlot ∧ token = slotToken digits format ∧
    rest' = rest := by
  unfold slotOf
  by_cases hd : digits = []
  · simp [hd]
  · rw [if_neg (mt List.isEmpty_iff.mp hd)]
    by_cases hm : maxSlot < Text.digitsValue digits
    · rw [if_pos hm]
      constructor
      · intro h
        cases h
      · exact fun h => absurd h.2.1 (Nat.not_le_of_lt hm)
    · rw [if_neg hm]
      constructor
      · rintro ⟨⟩
        exact ⟨hd, Nat.le_of_not_lt hm, rfl, rfl⟩
      · rintro ⟨-, -, rfl, rfl⟩
        rfl

theorem takeWhile_format {f : List Char} (hf : '\x7d' ∉ f) (rest : List Char) :
    (f ++ '\x7d' :: rest).takeWhile (· != '\x7d') = f ∧
      (f ++ '\x7d' :: rest).dropWhile (· != '\x7d') = '\x7d' :: rest := by
  have hin : ∀ c ∈ f, (c != '\x7d') = true := by
    rintro c hc
    rw [bne_iff_ne]
    rintro rfl
    exact hf hc
  rw [List.takeWhile_append_of_pos hin, List.dropWhile_append_of_pos hin]
  simp

/-- Conversely, what is read up to the first closing brace has none in it. -/
theorem eq_takeWhile_append {d : Char} {behind : List Char}
    (h : s.dropWhile (· != '\x7d') = d :: behind) :
    '\x7d' ∉ s.takeWhile (· != '\x7d') ∧ s = s.takeWhile (· != '\x7d') ++ '\x7d' :: behind := by
  obtain rfl : d = '\x7d' := by
    have hhead := List.head?_dropWhile_not (· != '\x7d') s
    rw [h] at hhead
    simpa using hhead
  constructor
  · intro hm
    simpa using List.all_eq_true.mp List.all_takeWhile _ hm
  · rw [← h, List.takeWhile_append_dropWhile]

theorem slotEnd_ok_iff : slotEnd digits s = .ok (token, rest) ↔ ∃ format : Option (List Char),
    (∀ f ∈ format, f ≠ [] ∧ '\x7d' ∉ f) ∧ s = formatChars format ++ rest ∧
      digits ≠ [] ∧ Text.digitsValue digits ≤ maxSlot ∧ token = slotToken digits format := by
  constructor
  · intro h
    unfold slotEnd at h
    split at h
    · cases h
    · next c after =>
      split at h
      · next hc =>
        obtain ⟨hne, hle, rfl, rfl⟩ := slotOf_ok_iff.mp h
        rw [beq_iff_eq.mp hc]
        exact ⟨none, by simp, rfl, hne, hle, rfl⟩
      · split at h
        · next hc =>
          rw [beq_iff_eq.mp hc]
          split at h
          · cases h
          · next d behind hdrop =>
            split at h
            · cases h
            · next hformat =>
              obtain ⟨hne, hle, rfl, rfl⟩ := slotOf_ok_iff.mp h
              obtain ⟨hbrace, hafter⟩ := eq_takeWhile_append hdrop
              refine ⟨some (after.takeWhile (· != '\x7d')), ?_, ?_, hne, hle, rfl⟩
              · rintro f ⟨⟩
                exact ⟨by simpa using hformat, hbrace⟩
              · rw [formatChars, List.append_assoc, List.singleton_append, Option.elim_some,
                  List.cons_append, ← hafter]
        · cases h
  · rintro ⟨format, hformat, rfl, hne, hle, rfl⟩
    cases format with
    | none => exact slotOf_ok_iff.mpr ⟨hne, hle, rfl, rfl⟩
    | some f =>
      obtain ⟨hf, hbrace⟩ := hformat f rfl
      obtain ⟨htake, hdrop⟩ := takeWhile_format hbrace rest
      have hs : formatChars (some f) ++ rest = ':' :: (f ++ '\x7d' :: rest) := by
        simp [formatChars]
      rw [hs, slotEnd, if_neg (by decide), if_pos (by decide), hdrop]
      dsimp only
      rw [htake, if_neg (mt List.isEmpty_iff.mp hf)]
      exact slotOf_ok_iff.mpr ⟨hne, hle, rfl, rfl⟩

/-- The first character behind the digits of a slot. -/
theorem head?_formatChars (format : Option (List Char)) (rest : List Char) :
    ∃ c s, formatChars format ++ rest = c :: s ∧ c.isDigit = false := by
  cases format with
  | none => exact ⟨'\x7d', rest, rfl, by decide⟩
  | some f => exact ⟨':', f ++ ['\x7d'] ++ rest, rfl, by decide⟩

/-- A slot is taken off a text if, and only if, the text goes on with one behind its brace. -/
theorem nextSlot_ok_iff : nextSlot s = .ok (token, rest) ↔ ∃ digits format, IsSlot digits format ∧
    s = digits ++ formatChars format ++ rest ∧ token = slotToken digits format := by
  rw [nextSlot, slotEnd_ok_iff]
  constructor
  · rintro ⟨format, hformat, hs, hne, hle, rfl⟩
    refine ⟨_, format, ⟨hne, List.all_eq_true.mp List.all_takeWhile, hle, hformat⟩, ?_, rfl⟩
    rw [List.append_assoc, ← hs, List.takeWhile_append_dropWhile]
  · rintro ⟨digits, format, h, rfl, rfl⟩
    obtain ⟨c, s, hc, hdigit⟩ := head?_formatChars format rest
    have hd : ¬c.isDigit = true := by simp [hdigit]
    have htake : (digits ++ formatChars format ++ rest).takeWhile Char.isDigit = digits := by
      rw [List.append_assoc, hc, List.takeWhile_append_of_pos h.isDigit,
        List.takeWhile_cons_of_neg hd, List.append_nil]
    have hdrop : (digits ++ formatChars format ++ rest).dropWhile Char.isDigit
        = formatChars format ++ rest := by
      rw [List.append_assoc, hc, List.dropWhile_append_of_pos h.isDigit,
        List.dropWhile_cons_of_neg hd]
    rw [htake, hdrop]
    exact ⟨format, h.closed, rfl, h.ne, h.small, rfl⟩

/-! ## Single tokens -/

/-- The token is white space. -/
def Token.isBlank : Token → Bool
  | .blank _ => true
  | _ => false

/-- The text is the token, in front of the rest. -/
inductive Cut : Token → (text rest : List Char) → Prop where
  | brace {c : Char} (hc : c = '\x7b' ∨ c = '\x7d') (rest : List Char) : Cut (.brace c) [c, c] rest
  | slot {digits : List Char} {format : Option (List Char)} (h : IsSlot digits format)
    (rest : List Char) : Cut (slotToken digits format) (slotChars digits format) rest
  | placeholder (sigil : Sigil) {w rest : List Char} (hne : w ≠ [])
    (hw : ∀ c ∈ w, Text.isWordChar c = true) (hr : Text.Boundary rest) :
    Cut (.placeholder sigil w) (sigil.char :: w) rest
  | word {c : Char} {w rest : List Char} (hw : IsWord c w) (hr : Text.Boundary rest) :
    Cut (.word (c :: w) (Text.firstVisible? rest == some '(')) (c :: w) rest
  | blank {c : Char} (hc : Text.isBlank c = true) (rest : List Char) : Cut (.blank c) [c] rest
  | mark {c : Char} (hc : isLead c = false) (hb : Text.isBlank c = false) (rest : List Char) :
    Cut (.mark c) [c] rest

theorem boundary_dropWhile (s : List Char) : Text.Boundary (s.dropWhile Text.isWordChar) := by
  intro c hc
  have hhead := List.head?_dropWhile_not Text.isWordChar s
  rw [hc] at hhead
  simpa using hhead

theorem Cut.exists_cons (h : Cut token text rest) : ∃ c t, text = c :: t := by
  cases h with
  | brace | slot | placeholder | word | blank | mark => exact ⟨_, _, rfl⟩

theorem Cut.text_of_word {w : List Char} {called : Bool} (h : Cut (.word w called) text rest) :
    text = w := by
  cases h
  rfl

theorem cut_of_nextPlaceholder {sigil : Sigil} (h : nextPlaceholder sigil s = .ok (token, rest)) :
    ∃ text, sigil.char :: s = text ++ rest ∧ Cut token text rest := by
  unfold nextPlaceholder at h
  dsimp only at h
  split at h
  · cases h
  · next hne =>
    cases h
    refine ⟨sigil.char :: s.takeWhile Text.isWordChar, ?_, ?_⟩
    · rw [List.cons_append, List.takeWhile_append_dropWhile]
    · exact .placeholder sigil (mt List.isEmpty_iff.mpr hne)
        (List.all_eq_true.mp List.all_takeWhile) (boundary_dropWhile s)

/-- What is taken off a text as a token is that token. -/
theorem cut_of_next (h : next c s = .ok (token, rest)) :
    ∃ text, c :: s = text ++ rest ∧ Cut token text rest := by
  -- One case for each branch of the scanner.
  revert h
  fun_cases next c s with
  | case1 hc =>
    rintro ⟨⟩
    rw [beq_iff_eq.mp hc]
    exact ⟨_, rfl, .brace (.inl rfl) _⟩
  | case2 hc =>
    intro h
    obtain ⟨digits, format, hslot, rfl, rfl⟩ := nextSlot_ok_iff.mp h
    rw [beq_iff_eq.mp hc]
    exact ⟨slotChars digits format, rfl, .slot hslot rest⟩
  | case3 _ hc =>
    rintro ⟨⟩
    rw [beq_iff_eq.mp hc]
    exact ⟨_, rfl, .brace (.inr rfl) _⟩
  | case4 => rintro ⟨⟩
  | case5 _ _ _ hc =>
    rw [beq_iff_eq.mp hc]
    exact cut_of_nextPlaceholder
  | case6 _ _ _ _ hc =>
    rw [beq_iff_eq.mp hc]
    exact cut_of_nextPlaceholder
  | case7 s _ _ _ _ hc =>
    rintro ⟨⟩
    refine ⟨c :: s.takeWhile Text.isWordChar, ?_, ?_⟩
    · rw [List.cons_append, List.takeWhile_append_dropWhile]
    · exact .word ⟨hc, List.all_takeWhile⟩ (boundary_dropWhile s)
  | case8 _ _ _ _ _ _ hc =>
    rintro ⟨⟩
    exact ⟨[c], rfl, .blank hc _⟩
  | case9 _ hopen hclose hname hvalue hword hblank =>
    rintro ⟨⟩
    have hlead : isLead c = false := by
      rw [← Bool.not_eq_true, isLead_iff]
      rintro (rfl | rfl | rfl | rfl | hw)
      · exact hopen rfl
      · exact hclose rfl
      · exact hname rfl
      · exact hvalue rfl
      · exact hword hw
    exact ⟨[c], rfl, .mark hlead (Bool.not_eq_true _ ▸ hblank) _⟩
/-- A character behind which no token goes on is a token of its own. -/
theorem next_single (hc : isLead c = false) (s : List Char) :
    next c s = .ok (if Text.isBlank c then .blank c else .mark c, s) := by
  rw [← Bool.not_eq_true, isLead_iff] at hc
  simp only [not_or] at hc
  obtain ⟨hopen, hclose, hname, hvalue, hword⟩ := hc
  unfold next
  rw [if_neg (by simpa using hopen), if_neg (by simpa using hclose), if_neg (by simpa using hname),
    if_neg (by simpa using hvalue), if_neg hword]
  split <;> rfl

/-- A token is taken off every text that starts with it. -/
theorem Cut.next {t : List Char} (h : Cut token (c :: t) rest) :
    next c (t ++ rest) = .ok (token, rest) := by
  generalize htext : c :: t = text at h
  cases h with
  | @brace c' hc =>
    cases htext
    rcases hc with rfl | rfl <;> rfl
  | @slot digits format h =>
    cases htext
    obtain ⟨d, w, hd⟩ := List.exists_cons_of_ne_nil h.ne
    have hslot : nextSlot (digits ++ formatChars format ++ rest)
        = .ok (slotToken digits format, rest) :=
      nextSlot_ok_iff.mpr ⟨digits, format, h, rfl, rfl⟩
    unfold Template.next
    rw [if_pos (by decide)]
    split
    · next hs =>
      -- A slot starts with a digit, and not with another brace.
      rw [hd] at hs
      cases hs
      exact absurd (h.isDigit '\x7b' (by rw [hd]; exact List.mem_cons_self)) (by decide)
    · exact hslot
  | placeholder sigil hne hw hr =>
    cases htext
    obtain ⟨htake, hdrop⟩ := takeWhile_word hw hr
    have hnext : nextPlaceholder sigil (t ++ rest) = .ok (.placeholder sigil t, rest) := by
      simp only [nextPlaceholder, htake, hdrop]
      rw [if_neg (mt List.isEmpty_iff.mp hne)]
    cases sigil <;> exact hnext
  | word hw hr =>
    cases htext
    exact next_word hw hr
  | blank hc =>
    cases htext
    rw [next_single (isLead_of_isBlank hc), if_pos hc]
    rfl
  | mark hc hb =>
    cases htext
    rw [next_single hc, if_neg (by simp [hb])]
    rfl

/-- **A token is taken off a text if, and only if, the text starts with it.** -/
theorem next_ok_iff : next c s = .ok (token, rest) ↔
    ∃ text, c :: s = text ++ rest ∧ Cut token text rest := by
  constructor
  · exact cut_of_next
  · rintro ⟨text, hs, hcut⟩
    obtain ⟨c', t, rfl⟩ := hcut.exists_cons
    cases hs
    exact hcut.next

/-! ## Whole templates -/

/-- The text is made of these tokens, wherever they have been found. -/
inductive Cuts : List Char → List Placed → Prop where
  | nil : Cuts [] []
  | cons {token : Token} {text rest : List Char} {tokens : List Placed} (position : Nat)
    (h : Cut token text rest) (hs : Cuts rest tokens) :
    Cuts (text ++ rest) (⟨position, token⟩ :: tokens)

/-- A text without fault is made of the tokens that it is cut into. -/
theorem cuts_lexFrom (position : Nat) (text : List Char)
    (h : (lexFrom position text).fault = none) : Cuts text (lexFrom position text).tokens := by
  fun_induction lexFrom position text with
  | case1 => exact .nil
  | case2 position c s fault hn => cases h
  | case3 position c s token rest hn hle lexed ih =>
    obtain ⟨t, ht, hcut⟩ := cut_of_next hn
    rw [ht]
    exact .cons position hcut (ih h)

/-- A token and what stands behind it are cut off one after the other. -/
theorem lexFrom_cut {t : List Char} (h : Cut token (c :: t) rest) (position : Nat) :
    lexFrom position (c :: t ++ rest)
      = ⟨⟨position, token⟩ :: (lexFrom (position + Text.byteLength (c :: t)) rest).tokens,
        (lexFrom (position + Text.byteLength (c :: t)) rest).fault⟩ := by
  have hlength : Text.byteLength (c :: (t ++ rest)) - Text.byteLength rest
      = Text.byteLength (c :: t) := by
    rw [← List.cons_append, Text.byteLength_append]
    omega
  rw [List.cons_append, lexFrom]
  split
  · next hn =>
    rw [h.next] at hn
    cases hn
  · next hn =>
    rw [h.next] at hn
    cases hn
    rw [hlength]

/-- Each token stands where it has been found. -/
theorem exists_cut_of_mem_lexFrom {p : Placed} (position : Nat) (text : List Char)
    (hp : p ∈ (lexFrom position text).tokens) : ∃ before t rest, text = before ++ t ++ rest ∧
      p.position = position + Text.byteLength before ∧ Cut p.token t rest := by
  fun_induction lexFrom position text with
  | case1 | case2 => cases hp
  | case3 position c s token rest hn =>
    rename_i ih
    obtain ⟨t, ht, hcut⟩ := cut_of_next hn
    rcases List.mem_cons.mp hp with rfl | hp
    · exact ⟨[], t, rest, ht, rfl, hcut⟩
    · obtain ⟨before, t', rest', rfl, hposition, hcut'⟩ := ih hp
      refine ⟨t ++ before, t', rest', ?_, ?_, hcut'⟩
      · rw [ht, List.append_assoc, List.append_assoc, List.append_assoc]
      · simp only [hposition, ht, Text.byteLength_append]
        omega

/-- What is made of tokens is cut into these tokens, and has no fault. -/
theorem Cuts.lexFrom {tokens : List Placed} (h : Cuts text tokens) : ∀ position,
    (lexFrom position text).tokens.map Placed.token = tokens.map Placed.token ∧
      (lexFrom position text).fault = none := by
  induction h with
  | nil => exact fun position => by simp [Template.lexFrom]
  | cons position hcut _ ih =>
    intro position'
    obtain ⟨c, t, rfl⟩ := hcut.exists_cons
    rw [lexFrom_cut hcut]
    exact ⟨congrArg (_ :: ·) (ih _).1, (ih _).2⟩

end Template

end Clauses
