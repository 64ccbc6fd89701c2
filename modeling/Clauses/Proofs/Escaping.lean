import Clauses.Proofs.Policies

/-!
# Texts and slots of a template

A template can be put together from texts and slots: in the texts each brace is written twice.
Reading undoes this. Each text is written out as it is, character for character, and each slot to
the placeholder of its argument, whatever stands next to what.

A text may hold everything but the sigils of placeholders. A word of it that is called has to be the
name of a function, though, or a word of the grammar, and the latter is known as such only where no
path may go on with it.

* `Template.escape` — a text in which braces are written twice
* `Template.templateOf`, `Template.filled` — a template from its parts, and what it is written out
  to
* `Template.Prose` — the tokens of a text in which braces are written twice
* `Compiler.parts_written_out` — reading undoes what writing the parts has done
-/

namespace Clauses

/-! ## Words of a text -/

namespace Text

theorem length_dropWhile_le (p : Char → Bool) (s : List Char) : (s.dropWhile p).length ≤ s.length :=
  (List.dropWhile_suffix p).length_le

/-- The words of a text, each with what stands behind it. -/
def words : List Char → List (List Char × List Char)
  | [] => []
  | c :: s =>
    have := length_dropWhile_le isWordChar s
    if isWordStart c then
      (c :: s.takeWhile isWordChar, s.dropWhile isWordChar) :: words (s.dropWhile isWordChar)
    else words s
termination_by s => s.length
decreasing_by
  all_goals
    simp only [List.length_cons]
    omega

theorem words_word {c : Char} {w s : List Char} (hw : Template.IsWord c w) (hs : Boundary s) :
    words (c :: w ++ s) = (c :: w, s) :: words s := by
  obtain ⟨htake, hdrop⟩ := Template.takeWhile_word (List.all_eq_true.mp hw.rest) hs
  rw [List.cons_append, words, if_pos hw.first, htake, hdrop]

theorem words_cons {c : Char} (hc : isWordStart c = false) (s : List Char) :
    words (c :: s) = words s := by
  rw [words, if_neg (by simp [hc])]

end Text

namespace Template

/-! ## Parts of a template -/

/-- A part of a template. -/
inductive Segment where
  | text (t : List Char)
  | slot (index : Nat) (format : Option (List Char))

/-- A text in which braces are written twice. -/
def escape (t : List Char) : List Char :=
  t.flatMap fun c => if c = '\x7b' ∨ c = '\x7d' then [c, c] else [c]

/-- The part as it is written. -/
def Segment.chars : Segment → List Char
  | .text t => escape t
  | .slot index format => slotChars (Nat.toDigits 10 index) format

/-- The template that is made of these parts. -/
def templateOf (segments : List Segment) : List Char := segments.flatMap Segment.chars

/-- The texts as they are, with placeholders for the slots. -/
def filled (s : Scope) : (number : Nat) → List Segment → List Char
  | _, [] => []
  | n, .text t :: rest => t ++ filled s n rest
  | n, .slot _ _ :: rest => (s.valueToken n).toList ++ filled s (n + 1) rest

/-- The argument that the part asks for. -/
def Segment.index? : Segment → Option Nat
  | .text _ => none
  | .slot index _ => some index

/--
A text has no sigils; a slot has an argument, and its format, if it has one, ends where the slot
does.
-/
def Segment.IsValid (count : Nat) : Segment → Prop
  | .text t => ∀ c ∈ t, c ≠ '#' ∧ c ≠ ':'
  | .slot index format => index < count ∧ ∀ f ∈ format, f ≠ [] ∧ '\x7d' ∉ f

/-- The texts between the slots, from the start to the end. -/
def textsBetween : List Segment → List (List Char)
  | [] => [[]]
  | .text t :: rest => (textsBetween rest).modifyHead (t ++ ·)
  | .slot _ _ :: rest => [] :: textsBetween rest

theorem textsBetween_nil (segments : List Segment) :
    textsBetween (.text [] :: segments) = textsBetween segments := by
  rw [textsBetween]
  cases textsBetween segments <;> rfl

/-! ## Escaped texts -/

theorem escape_append (t t' : List Char) : escape (t ++ t') = escape t ++ escape t' :=
  List.flatMap_append

theorem escape_brace {c : Char} (hc : c = '\x7b' ∨ c = '\x7d') (t : List Char) :
    escape (c :: t) = c :: c :: escape t := by
  rw [escape, List.flatMap_cons, if_pos hc]
  rfl

theorem escape_cons {c : Char} (hc : ¬(c = '\x7b' ∨ c = '\x7d')) (t : List Char) :
    escape (c :: t) = c :: escape t := by
  rw [escape, List.flatMap_cons, if_neg hc]
  rfl

theorem not_brace_of_isWordChar {c : Char} (h : Text.isWordChar c = true) :
    ¬(c = '\x7b' ∨ c = '\x7d') := by
  rintro (rfl | rfl) <;> exact absurd h (by decide)

theorem escape_word {w : List Char} (hw : ∀ c ∈ w, Text.isWordChar c = true) : escape w = w := by
  induction w with
  | nil => rfl
  | cons c w ih =>
    obtain ⟨hc, hw⟩ := List.forall_mem_cons.mp hw
    rw [escape_cons (not_brace_of_isWordChar hc), ih hw]

/-- An escaped text starts as the text does. -/
theorem escape_eq_cons (c : Char) (t : List Char) : ∃ s, escape (c :: t) = c :: s := by
  by_cases hc : c = '\x7b' ∨ c = '\x7d'
  · exact ⟨_, escape_brace hc t⟩
  · exact ⟨_, escape_cons hc t⟩

variable {t rest : List Char}

theorem boundary_escape (ht : Text.Boundary t) (hr : Text.Boundary rest) :
    Text.Boundary (escape t ++ rest) := by
  cases t with
  | nil => exact hr
  | cons c t =>
    obtain ⟨s, hs⟩ := escape_eq_cons c t
    rw [hs]
    exact .cons (ht c rfl) _

theorem firstVisible?_escape (hr : (Text.firstVisible? rest == some '(') = false) (t : List Char) :
    (Text.firstVisible? (escape t ++ rest) == some '(') = (Text.firstVisible? t == some '(') := by
  induction t with
  | nil => exact hr
  | cons c t ih =>
    cases hb : Text.isBlank c with
    | true =>
      have hc : ¬(c = '\x7b' ∨ c = '\x7d') := by
        rintro (rfl | rfl) <;> exact absurd hb (by decide)
      rw [escape_cons hc, List.cons_append, Text.firstVisible?_blank hb,
        Text.firstVisible?_blank hb, ih]
    | false =>
      obtain ⟨s, hs⟩ := escape_eq_cons c t
      rw [hs, List.cons_append, Text.firstVisible?_visible hb, Text.firstVisible?_visible hb]

/-! ## The tokens of an escaped text -/

/-- A text and the tokens that it is cut into when its braces are written twice. -/
inductive Prose : (t : List Char) → List Token → Prop where
  | nil : Prose [] []
  | word {c : Char} {w t : List Char} {ts : List Token} (hw : IsWord c w) (ht : Text.Boundary t)
    (h : Prose t ts) : Prose (c :: w ++ t) (.word (c :: w) (Text.firstVisible? t == some '(') :: ts)
  | brace {c : Char} {t : List Char} {ts : List Token}
    (hc : c = '\x7b' ∨ c = '\x7d') (h : Prose t ts) :
    Prose (c :: t) (.brace c :: ts)
  | blank {c : Char} {t : List Char} {ts : List Token}
    (hc : Text.isBlank c = true) (h : Prose t ts) :
    Prose (c :: t) (.blank c :: ts)
  | mark {c : Char} {t : List Char} {ts : List Token} (hc : isLead c = false)
    (hb : Text.isBlank c = false) (h : Prose t ts) : Prose (c :: t) (.mark c :: ts)

/-- Every text without sigils has its tokens. -/
theorem exists_prose (t : List Char) (h : ∀ c ∈ t, c ≠ '#' ∧ c ≠ ':') : ∃ ts, Prose t ts := by
  fun_induction Text.words t with
  | case1 => exact ⟨[], .nil⟩
  | case2 c s hle hc ih =>
    obtain ⟨-, hs⟩ := List.forall_mem_cons.mp h
    obtain ⟨ts, hts⟩ := ih fun d hd => hs d ((List.dropWhile_suffix _).subset hd)
    have hw : IsWord c (s.takeWhile Text.isWordChar) := ⟨hc, List.all_takeWhile⟩
    have hprose := Prose.word hw (boundary_dropWhile s) hts
    rw [List.cons_append, List.takeWhile_append_dropWhile] at hprose
    exact ⟨_, hprose⟩
  | case3 c s hle hc ih =>
    obtain ⟨⟨hname, hvalue⟩, hs⟩ := List.forall_mem_cons.mp h
    obtain ⟨ts, hts⟩ := ih hs
    by_cases hbrace : c = '\x7b' ∨ c = '\x7d'
    · exact ⟨_, .brace hbrace hts⟩
    · have hlead : isLead c = false := by
        rw [← Bool.not_eq_true, isLead_iff]
        rintro (hb | hb | hb | hb | hb)
        · exact hbrace (.inl hb)
        · exact hbrace (.inr hb)
        · exact hname hb
        · exact hvalue hb
        · exact hc hb
      cases hblank : Text.isBlank c with
      | true => exact ⟨_, .blank hblank hts⟩
      | false => exact ⟨_, .mark hlead hblank hts⟩

namespace Prose

variable {ts : List Token} {placed : List Placed}

/--
The escaped text is cut into the tokens, in front of what neither goes on with a word nor calls it.
-/
theorem cuts (h : Prose t ts) (hr : NoCall rest) (hrest : Cuts rest placed) :
    Cuts (escape t ++ rest) (ts.map (⟨0, ·⟩) ++ placed) := by
  induction h with
  | nil => exact hrest
  | @word c w t ts hw ht _ ih =>
    have hin : ∀ d ∈ c :: w, Text.isWordChar d = true :=
      List.forall_mem_cons.mpr ⟨Text.isWordChar_of_isWordStart hw.first,
        List.all_eq_true.mp hw.rest⟩
    rw [escape_append, escape_word hin, List.append_assoc, ← firstVisible?_escape hr.2 t]
    exact .cons 0 (.word hw (boundary_escape ht hr.1)) ih
  | @brace c t ts hc _ ih =>
    rw [escape_brace hc]
    change Cuts ([c, c] ++ (escape t ++ rest)) (_ :: (_ ++ placed))
    exact .cons 0 (.brace hc _) ih
  | @blank c t ts hc _ ih =>
    rw [escape_cons (by rintro (rfl | rfl) <;> exact absurd hc (by decide))]
    change Cuts ([c] ++ (escape t ++ rest)) (_ :: (_ ++ placed))
    exact .cons 0 (.blank hc _) ih
  | @mark c t ts hc hb _ ih =>
    rw [escape_cons (by rintro (rfl | rfl) <;> exact absurd hc (by decide))]
    change Cuts ([c] ++ (escape t ++ rest)) (_ :: (_ ++ placed))
    exact .cons 0 (.mark hc hb _) ih

/-- The words among the tokens are those of the text. -/
theorem mem_words {w : List Char} (h : Prose t ts) (hw : .word w true ∈ ts) :
    ∃ behind, (w, behind) ∈ Text.words t ∧ Text.firstVisible? behind = some '(' := by
  induction h with
  | nil => cases hw
  | @word c w' t ts hword ht _ ih =>
    rw [Text.words_word hword ht]
    rcases List.mem_cons.mp hw with he | hw
    · simp only [Token.word.injEq] at he
      obtain ⟨rfl, hcalled⟩ := he
      exact ⟨t, List.mem_cons_self, beq_iff_eq.mp hcalled.symm⟩
    · obtain ⟨behind, hmem, hcalled⟩ := ih hw
      exact ⟨behind, List.mem_cons_of_mem _ hmem, hcalled⟩
  | brace hc _ ih =>
    rw [Text.words_cons (by rcases hc with rfl | rfl <;> decide)]
    exact ih (by simpa using hw)
  | blank hc _ ih =>
    rw [Text.words_cons (isWordStart_of_isLead (isLead_of_isBlank hc))]
    exact ih (by simpa using hw)
  | mark hc _ _ ih =>
    rw [Text.words_cons (isWordStart_of_isLead hc)]
    exact ih (by simpa using hw)

/-- The dots among the tokens are those of the text. -/
theorem mem_dot (h : Prose t ts) (hd : .mark '.' ∈ ts) : '.' ∈ t := by
  induction h with
  | nil => cases hd
  | word _ _ _ ih => exact List.mem_append_right _ (ih (by simpa using hd))
  | brace _ _ ih | blank _ _ ih => exact List.mem_cons_of_mem _ (ih (by simpa using hd))
  | mark hc _ _ ih =>
    rcases List.mem_cons.mp hd with he | hd
    · cases he
      exact List.mem_cons_self
    · exact List.mem_cons_of_mem _ (ih hd)

end Prose

/-! ## Writing tokens out -/

/-- The token as it is written out where reserved words stay; a slot is a matter of the draft. -/
def Token.chars : Token → List Char
  | .slot _ _ => []
  | .placeholder sigil w => sigil.char :: w
  | .word w _ => w
  | .brace c | .blank c | .mark c => [c]

/--
The tokens as they are written out where reserved words stay, with placeholders for the slots.
-/
def written (s : Scope) : (number : Nat) → List Token → List Char
  | _, [] => []
  | n, t :: ts => if t.isSlot then (s.valueToken n).toList ++ written s (n + 1) ts
    else t.chars ++ written s n ts

theorem Prose.written {ts : List Token} (h : Prose t ts) (s : Scope) (n : Nat) (more : List Token) :
    written s n (ts ++ more) = t ++ Template.written s n more := by
  induction h with
  | nil => rfl
  | @word c w t ts _ _ _ ih =>
    rw [List.append_assoc, ← ih]
    rfl
  | brace _ _ ih | blank _ _ ih | mark _ _ _ ih => exact congrArg (_ :: ·) ih

variable {b : Binder} {input : Input} {ctx ctx' : Context} {d d' : Draft} {out : List Char}

/-- Where reserved words stay, a token that is no slot is written out as it is. -/
theorem readToken_unaliased (ha : input.aliasReserved = false) {p : Placed}
    (hp : p.token.isSlot = false)
    (h : readToken b input ctx p d = .ok ((out, ctx'), d')) : out = p.token.chars ∧ d' = d := by
  obtain ⟨position, token⟩ := p
  cases token with
  | slot index format => cases hp
  | brace c | blank c | mark c =>
    obtain ⟨⟨⟩, rfl⟩ := Drafting.pure_ok.mp h
    exact ⟨rfl, rfl⟩
  | placeholder sigil w => exact (readPlaceholder_ok h).2
  | word w called =>
    obtain ⟨-, ⟨rfl, rfl, -⟩ | ⟨t, -, -, hr⟩⟩ := readWord_inv (fun _ => none) h
    · exact ⟨rfl, rfl⟩
    · rw [ha] at hr
      cases hr

/-- Where reserved words stay, tokens are written out as they are, and no name is minted. -/
theorem readTokens_unaliased (ha : input.aliasReserved = false) : ∀ (tokens : List Placed)
    {ctx : Context} {d : Draft} {out : List Char}, readTokens b input ctx tokens d = .ok (out, d') →
      out = written d.scope (d.scope.valueCount + d.bindings.length) (tokens.map Placed.token) ∧
        d'.names = d.names
  | [], ctx, d, out, h => by
    obtain ⟨rfl, rfl⟩ := Drafting.pure_ok.mp h
    exact ⟨rfl, rfl⟩
  | p :: rest, ctx, d, out, h => by
    obtain ⟨text, ctx', d₁, out', hfirst, hrest, -, rfl⟩ := readTokens_cons_ok h
    obtain ⟨rfl, hnames⟩ := readTokens_unaliased ha rest hrest
    rw [List.map_cons, written]
    cases hslot : p.token.isSlot with
    | true =>
      obtain ⟨position, token⟩ := p
      cases token with
      | slot index format =>
        obtain ⟨v, t, -, hvalue, rfl, -⟩ := readSlot_ok hfirst
        obtain ⟨binding, -, rfl, rfl⟩ := Binder.value_ok_iff.mp hvalue
        rw [List.length_append, List.length_singleton, ← Nat.add_assoc]
        exact ⟨rfl, hnames⟩
      | _ => cases hslot
    | false =>
      obtain ⟨rfl, rfl⟩ := readToken_unaliased ha hslot hfirst
      exact ⟨rfl, hnames⟩

/-! ## The tokens of a template -/

/-- The argument that the token asks for. -/
def Token.index? : Token → Option Nat
  | .slot index _ => some index
  | _ => none

/-- In the text between slots there is neither a slot nor a placeholder. -/
theorem Prose.forall_mem {ts : List Token} (h : Prose t ts) :
    ∀ x ∈ ts, x.index? = none ∧ ∀ sigil w, x ≠ .placeholder sigil w := by
  induction h with
  | nil => exact List.forall_mem_nil _
  | word _ _ _ ih | brace _ _ ih | blank _ _ ih | mark _ _ _ ih =>
    exact List.forall_mem_cons.mpr ⟨⟨rfl, fun _ _ => nofun⟩, ih⟩

/-- What the tokens of a template have of its parts, in front of which there is another text. -/
structure Spelling (u : List Char) (segments : List Segment) (ts : List Token) : Prop where
  cuts : Cuts (escape u ++ templateOf segments) (ts.map (⟨0, ·⟩))
  written : ∀ s n, written s n ts = u ++ filled s n segments
  indices : ts.filterMap Token.index? = segments.filterMap Segment.index?
  words : ∀ w, .word w true ∈ ts → ∃ t ∈ textsBetween (.text u :: segments), ∃ behind,
    (w, behind) ∈ Text.words t ∧ Text.firstVisible? behind = some '('
  dots : .mark '.' ∈ ts → '.' ∈ u ∨ ∃ t, .text t ∈ segments ∧ '.' ∈ t
  noPlaceholder : ∀ sigil w, .placeholder sigil w ∉ ts

theorem Prose.spelling {u : List Char} {ts : List Token} (h : Prose u ts) : Spelling u [] ts where
  cuts := by
    have hcuts := h.cuts ⟨Text.Boundary.nil, rfl⟩ .nil
    rwa [List.append_nil (ts.map _)] at hcuts
  written s n := by
    have hwritten := h.written s n []
    rwa [List.append_nil] at hwritten
  indices := List.filterMap_eq_nil_iff.mpr fun x hx => (h.forall_mem x hx).1
  words w hw := by
    obtain ⟨behind, hmem, hcalled⟩ := h.mem_words hw
    exact ⟨u, by simp [textsBetween], behind, hmem, hcalled⟩
  dots hd := .inl (h.mem_dot hd)
  noPlaceholder sigil w hp := (h.forall_mem _ hp).2 sigil w rfl

/-- A text goes on with the one in front of it. -/
theorem Spelling.text {u t : List Char} {segments : List Segment} {ts : List Token}
    (h : Spelling (u ++ t) segments ts) : Spelling u (.text t :: segments) ts where
  cuts := by
    have hcuts := h.cuts
    rwa [escape_append, List.append_assoc] at hcuts
  written s n := by
    rw [h.written, filled, List.append_assoc]
  indices := h.indices
  words w hw := by
    obtain ⟨t', ht', hrest⟩ := h.words w hw
    refine ⟨t', ?_, hrest⟩
    simp only [textsBetween, List.modifyHead_modifyHead] at ht' ⊢
    have happend : ((u ++ ·) ∘ (t ++ ·) : List Char → List Char) = ((u ++ t) ++ ·) :=
      funext fun x => (List.append_assoc u t x).symm
    rwa [happend]
  dots hd := by
    rcases h.dots hd with hd | ⟨t', ht', hd⟩
    · rcases List.mem_append.mp hd with hd | hd
      · exact .inl hd
      · exact .inr ⟨t, List.mem_cons_self, hd⟩
    · exact .inr ⟨t', List.mem_cons_of_mem _ ht', hd⟩
  noPlaceholder := h.noPlaceholder

/-- A slot ends the text in front of it. -/
theorem Spelling.slot {u : List Char} {index : Nat} {format : Option (List Char)}
    {segments : List Segment} {pre ts : List Token} (hprose : Prose u pre)
    (hslot : IsSlot (Nat.toDigits 10 index) format) (h : Spelling [] segments ts) :
    Spelling u (.slot index format :: segments)
      (pre ++ slotToken (Nat.toDigits 10 index) format :: ts) where
  cuts := by
    have hcuts := Cuts.cons 0 (.slot hslot (templateOf segments)) h.cuts
    have hcall : NoCall (slotChars (Nat.toDigits 10 index) format ++ templateOf segments) :=
      ⟨.cons (by decide) _, rfl⟩
    rw [List.map_append, List.map_cons]
    exact hprose.cuts hcall hcuts
  written s n := by
    have hrest : Template.written s n (slotToken (Nat.toDigits 10 index) format :: ts)
        = (s.valueToken n).toList ++ Template.written s (n + 1) ts := rfl
    rw [hprose.written, hrest, h.written]
    rfl
  indices := by
    have hnone : pre.filterMap Token.index? = [] :=
      List.filterMap_eq_nil_iff.mpr fun x hx => (hprose.forall_mem x hx).1
    have hvalue : Text.digitsValue (Nat.toDigits 10 index) = index := Nat.ofDigitChars_ten_toDigits
    rw [List.filterMap_append, hnone, List.nil_append]
    simp only [slotToken, hvalue, List.filterMap_cons, Token.index?, Segment.index?, h.indices]
  words w hw := by
    rcases List.mem_append.mp hw with hw | hw
    · obtain ⟨behind, hmem, hcalled⟩ := hprose.mem_words hw
      exact ⟨u, by simp [textsBetween], behind, hmem, hcalled⟩
    · obtain ⟨t, ht, hrest⟩ := h.words w (by simpa [slotToken] using hw)
      refine ⟨t, ?_, hrest⟩
      rw [textsBetween_nil] at ht
      exact List.mem_cons_of_mem _ ht
  dots hd := by
    rcases List.mem_append.mp hd with hd | hd
    · exact .inl (hprose.mem_dot hd)
    · rcases h.dots (by simpa [slotToken] using hd) with hd | ⟨t, ht, hd⟩
      · cases hd
      · exact .inr ⟨t, List.mem_cons_of_mem _ ht, hd⟩
  noPlaceholder sigil w hp := by
    rcases List.mem_append.mp hp with hp | hp
    · exact (hprose.forall_mem _ hp).2 sigil w rfl
    · exact h.noPlaceholder sigil w (by simpa [slotToken] using hp)

theorem Segment.IsValid.isSlot {count index : Nat} {format : Option (List Char)}
    (hcount : count ≤ maxSlot + 1) (h : (Segment.slot index format).IsValid count) :
    IsSlot (Nat.toDigits 10 index) format where
  ne := Nat.toDigits_ne_nil
  isDigit _ hc := Nat.isDigit_of_mem_toDigits (by decide) (by decide) hc
  small := by
    have hvalue : Text.digitsValue (Nat.toDigits 10 index) = index := Nat.ofDigitChars_ten_toDigits
    have hindex : index < count := h.1
    omega
  closed := h.2

/-- Every template that is made of parts has tokens that are made of these parts. -/
theorem exists_spelling {count : Nat} (hcount : count ≤ maxSlot + 1) : ∀ (segments : List Segment)
    (u : List Char), (∀ x ∈ segments, x.IsValid count) → (∀ c ∈ u, c ≠ '#' ∧ c ≠ ':') →
      ∃ ts, Spelling u segments ts
  | [], u, _, hu => by
    obtain ⟨ts, hprose⟩ := exists_prose u hu
    exact ⟨ts, hprose.spelling⟩
  | .text t :: segments, u, hvalid, hu => by
    obtain ⟨ht, hvalid⟩ := List.forall_mem_cons.mp hvalid
    obtain ⟨ts, h⟩ :=
      exists_spelling hcount segments (u ++ t) hvalid (List.forall_mem_append.mpr ⟨hu, ht⟩)
    exact ⟨ts, h.text⟩
  | .slot index format :: segments, u, hvalid, hu => by
    obtain ⟨hslot, hvalid⟩ := List.forall_mem_cons.mp hvalid
    obtain ⟨pre, hprose⟩ := exists_prose u hu
    obtain ⟨ts, h⟩ := exists_spelling hcount segments [] hvalid (List.forall_mem_nil _)
    exact ⟨_, .slot hprose (hslot.isSlot hcount) h⟩

/-! ## Reading the parts -/

section

variable {attribute? : String → Option String} {schema : Option Schema}

theorem map_fst_policies (ctx : Context) (ts : List Token) :
    (policies attribute? schema ctx ts).map Prod.fst = ts.filterMap Token.index? := by
  induction ts generalizing ctx with
  | nil => rfl
  | cons t ts ih =>
    rw [policies_cons, List.map_append, ih]
    cases t <;> rfl

theorem Context.next_afterDot {ctx : Context} (h : ctx.afterDot = false) {t : Token}
    (ht : t ≠ .mark '.') :
    (ctx.next attribute? t).afterDot = false := by
  cases t with
  | brace c | blank c => exact h
  | slot index format => rfl
  | placeholder sigil w =>
    dsimp only [Context.next]
    split
    · split <;> rfl
    · rfl
  | word w called =>
    dsimp only [Context.next]
    split
    · exact h
    · split <;> rfl
  | mark c =>
    have hc : c ≠ '.' := fun hc => ht (by rw [hc])
    simpa [Context.next, Context.pass] using hc

/-- Without dots there is no word behind a dot. -/
theorem Context.afterDot_of_mem_trace {x : Context × Token} : ∀ {ts : List Token} {ctx : Context},
    ctx.afterDot = false → .mark '.' ∉ ts → x ∈ ctx.trace attribute? ts → x.1.afterDot = false
  | t :: ts, ctx, h, hd, hx => by
    rw [List.mem_cons, not_or] at hd
    rcases List.mem_cons.mp hx with rfl | hx
    · exact h
    · exact afterDot_of_mem_trace (next_afterDot h (Ne.symm hd.1)) hd.2 hx

end

/-- A word that is called may be called: it is a function, or a keyword where there is no path. -/
def MayBeCalled (segments : List Segment) (w : List Char) : Prop :=
  (Builtin.ofName? w).isSome = true ∨
    isKeyword w = true ∧ ∀ t, .text t ∈ segments → '.' ∉ t

/-- The tokens of the parts can be read. -/
theorem Spelling.readable {segments : List Segment} {ts : List Token} (h : Spelling [] segments ts)
    (hcalled : ∀ t ∈ textsBetween segments, ∀ x ∈ Text.words t,
      Text.firstVisible? x.2 = some '(' → MayBeCalled segments x.1) (s : Scope) :
    ∀ x ∈ Context.start.trace s.attribute? ts, IsReadable s x := by
  rintro ⟨ctx, token⟩ hx
  have htoken : token ∈ ts := mem_of_mem_trace hx
  cases token with
  | placeholder sigil w => exact absurd htoken (h.noPlaceholder sigil w)
  | word w called =>
    cases called with
    | false => trivial
    | true =>
      obtain ⟨t, ht, behind, hmem, hopen⟩ := h.words w htoken
      rw [textsBetween_nil] at ht
      rcases hcalled t ht _ hmem hopen with hf | ⟨hk, hdots⟩
      · exact .inr hf
      · refine .inl ⟨Context.afterDot_of_mem_trace rfl (fun hd => ?_) hx, hk⟩
        rcases h.dots hd with hd | ⟨t', ht', hd⟩
        · cases hd
        · exact hdots t' ht' hd
  | _ => trivial

end Template

namespace Compiler

/-- Where every hook answers at once, a slot is bound to the wire value that comes of it. -/
theorem bindsTo_of_settled {b : Binder} (hsync : b.codec.hooks.AllSync) {arguments : List Value}
    {uses : List ((Nat × Property) × Nat)} {bindings : List (String × Binding)}
    {values : List (String × WireValue)}
    (hb : List.Forall₂ (fun use n => b.BindsTo arguments use n.2) uses bindings)
    (hs : List.Forall₂ Draft.Settled bindings values) :
    List.Forall₂ (fun use v => b.BindsTo arguments use (.ready v.2)) uses values := by
  induction hb generalizing values with
  | nil =>
    cases hs
    exact .nil
  | @cons use n uses bindings hn _ ih =>
    cases hs with
    | @cons _ v _ values hv hs =>
      refine .cons ?_ (ih hs)
      obtain ⟨a, ha, hbind⟩ := hn
      have hlater : (b.codec.later use.2).hooks.AllSync := hsync
      obtain ⟨w, hw⟩ := Codec.ready_of_allSync hlater hbind
      have hsettles := hv.2
      rw [hw] at hbind hsettles
      cases hsettles
      exact ⟨a, ha, hbind⟩

/--
**Reading a template undoes the writing of its parts.** If reserved words stay, every hook
answers at once, the arguments of the slots can be bound and every word that is called may be,
then the template is translated: to its texts as they are, with a new value placeholder for
each slot. No name is minted, and each placeholder is bound to the argument of its slot, in
the order of the slots.
-/
theorem parts_written_out (c : Compiler) {mode : Mode} (hm : mode.isCancelled = false)
    (hsync : c.hooks.AllSync) (ha : c.config.aliasReserved = false) {kind : ClauseKind}
    {schema : Option Schema} {s : Scope} {arguments : List Value}
    (hfew : arguments.length ≤ Template.maxSlot + 1) {segments : List Template.Segment}
    (hvalid : ∀ x ∈ segments, x.IsValid arguments.length)
    (hcalled : ∀ t ∈ Template.textsBetween segments, ∀ x ∈ Text.words t,
      Text.firstVisible? x.2 = some '(' → Template.MayBeCalled segments x.1)
    {template : String} (ht : template.toList = Template.templateOf segments)
    (hbind : ∀ use ∈ (Template.policies s.attribute? schema .start
        (Template.tokensOf template)).zipIdx,
      ∃ binding, (c.slotBinder schema).BindsTo arguments use binding) :
    ∃ values, c.translate mode (.template kind template arguments schema) s
        = .ok ⟨String.ofList (Template.filled s s.valueCount segments), [], values⟩
          (s.enter [] values) ∧
      values.map Prod.fst = (List.range' s.valueCount values.length).map s.valueToken ∧
      List.Forall₂ (fun use v => (c.slotBinder schema).BindsTo arguments use (.ready v.2))
        (Template.policies s.attribute? schema .start (Template.tokensOf template)).zipIdx values ∧
      (Template.policies s.attribute? schema .start (Template.tokensOf template)).map Prod.fst
        = segments.filterMap Template.Segment.index? := by
  obtain ⟨ts, h⟩ := Template.exists_spelling hfew segments [] hvalid (List.forall_mem_nil _)
  obtain ⟨htokens, hfault⟩ := h.cuts.lexFrom 0
  have hlex : Template.lex template
      = Template.lexFrom 0 (Template.escape [] ++ Template.templateOf segments) :=
    congrArg (Template.lexFrom 0) ht
  rw [← hlex] at htokens hfault
  have htokens : Template.tokensOf template = ts := by
    rw [Template.tokensOf, htokens, List.map_map]
    exact List.map_id ts
  have hread := h.readable hcalled s
  rw [← htokens] at hread
  obtain ⟨out, d, hd⟩ : ∃ out d, c.draft (c.slotBinder schema)
      (.template kind template arguments schema) (.on s) = .ok (out, d) :=
    template_made hfault hread hbind
  -- What is written out, and what is bound.
  obtain ⟨hout, hnames⟩ := Template.readTokens_unaliased ha _ (draft_template_iff.mp hd).2
  have hout : out = Template.filled s s.valueCount segments := by
    have hwritten : out = Template.written s s.valueCount (Template.tokensOf template) := hout
    rw [hwritten, htokens]
    exact h.written s _
  obtain ⟨bs, hbs, hlabel⟩ := template_bindings (fun x hx => (hread x hx).isKnown) hd
  obtain ⟨values, hvalues⟩ := resolve_of_allSync hm hd hsync
  have hsettled := (Draft.resolve_ok hvalues).2
  have hslots : List.Forall₂ (fun use n => (c.slotBinder schema).BindsTo arguments use n.2)
      (Template.policies s.attribute? schema .start (Template.tokensOf template)).zipIdx
      d.bindings := by
    rw [← s.map_snd_label bs, ← hlabel] at hbs
    exact List.forall₂_map_right_iff.mp hbs
  refine ⟨values, ?_, ?_, bindsTo_of_settled hsync hslots hsettled, ?_⟩
  · exact template_ok_iff.mpr ⟨out, d, values, hd, hvalues, by rw [hout, hnames]; rfl,
      by rw [hnames]; rfl⟩
  · rw [Draft.settled_keys hsettled, ← hsettled.length_eq, hlabel, s.map_fst_label]
    simp [Scope.label]
  · rw [Template.map_fst_policies, htokens]
    exact h.indices

/-- A slot between a brace and another, and a word of the grammar that is called. -/
def bracedParts : List Template.Segment :=
  [.text ['\x7b'], .slot 1 none, .text ['\x7d', 'o', 'r', ' ', '('],
    .slot 0 (some ['x']), .text [')']]

theorem braced_parts_written_out :
    let c : Compiler := ⟨{ Config.standard with aliasReserved := false }, .empty⟩
    let template := "\x7b\x7b\x7b1\x7d\x7d\x7dor (\x7b0:x\x7d)"
    let arguments : List Value := [.text "Ada", .integer 18]
    template.toList = Template.templateOf bracedParts ∧
    ∃ values, c.translate .sync (.template .filter template arguments none) c.scope
        = .ok ⟨"\x7b:p0\x7dor (:p1)", [], values⟩ (c.scope.enter [] values) ∧
      values.map Prod.fst = (List.range' 0 values.length).map c.scope.valueToken ∧
      List.Forall₂ (fun use v => (c.slotBinder none).BindsTo arguments use (.ready v.2))
        (Template.policies c.scope.attribute? none .start (Template.tokensOf template)).zipIdx
        values ∧
      (Template.policies c.scope.attribute? none .start (Template.tokensOf template)).map Prod.fst
        = [1, 0] := by
  intro c template arguments
  have htemplate : template.toList = Template.templateOf bracedParts := by decide +kernel
  have htokens : Template.tokensOf template = [.brace '\x7b', .slot 1 none, .brace '\x7d',
      .word ['o', 'r'] true, .blank ' ', .mark '(', .slot 0 (some "x"), .mark ')'] := by
    decide +kernel
  have hpolicies : Template.policies c.scope.attribute? none .start (Template.tokensOf template)
      = [(1, .plain (Template.slotName 1)),
          (0, (Property.plain (Template.slotName 0)).withFormat "x")] := by
    rw [htokens]
    rfl
  have hbind : ∀ use ∈ (Template.policies c.scope.attribute? none .start
        (Template.tokensOf template)).zipIdx,
      ∃ binding, (c.slotBinder none).BindsTo arguments use binding := by
    rw [hpolicies]
    refine List.forall_mem_cons.mpr ⟨⟨.ready (.number "18"), .integer 18, rfl, rfl⟩, ?_⟩
    exact List.forall_mem_cons.mpr ⟨⟨.ready (.text "Ada"), .text "Ada", rfl, rfl⟩,
      List.forall_mem_nil _⟩
  have hvalid : ∀ x ∈ bracedParts, x.IsValid arguments.length := by
    simp [bracedParts, Template.Segment.IsValid, arguments]
  have hcalled : ∀ t ∈ Template.textsBetween bracedParts, ∀ x ∈ Text.words t,
      Text.firstVisible? x.2 = some '(' → Template.MayBeCalled bracedParts x.1 := by
    have hwords : (Template.textsBetween bracedParts).flatMap Text.words
        = [(['o', 'r'], [' ', '('])] := by
      decide +kernel
    intro t ht x hx _
    have hin := List.mem_flatMap.mpr ⟨t, ht, hx⟩
    rw [hwords, List.mem_singleton] at hin
    rw [hin]
    exact .inr ⟨by decide, by simp [bracedParts]⟩
  have hsync : c.hooks.AllSync := by
    intro id hook course h
    cases h
  have hfilled : String.ofList (Template.filled c.scope c.scope.valueCount bracedParts)
      = "\x7b:p0\x7dor (:p1)" := by decide +kernel
  rw [← hfilled]
  have hfew : arguments.length ≤ Template.maxSlot + 1 := by decide
  exact ⟨htemplate, parts_written_out c rfl hsync rfl hfew hvalid hcalled htemplate hbind⟩

end Compiler

end Clauses
