import Clauses.Proofs.Contexts
import Clauses.Proofs.Lexing
import Clauses.Proofs.Predicates
import Mathlib.Data.List.Chain

/-!
# Placeholders of a template that has been read

The placeholders that a template is written out with are read again by someone who knows
nothing of its tokens: a sigil, and behind it a word as long as it goes on. Where the template
has a placeholder or an attribute of its own, the word ends with the token. Behind a slot it
does not end by itself: the text that follows may go on with it, and then the placeholder is
one that nobody has minted.

* `Text.placeholders` — the placeholders of a text
* `Template.Spells` — a text and its tokens
* `Template.readTokens_placeholders` — the placeholders that a template is written out with
* `Compiler.template_placeholders_bound` — all of them are bound, if no text goes on behind a slot
-/

namespace Clauses

/-! ## Placeholders of a text -/

namespace Text

/-- The placeholders of a text: each sigil with the word behind it, if there is one. -/
def placeholders : List Char → List String
  | [] => []
  | c :: s =>
    if (c = '#' ∨ c = ':') ∧ s.takeWhile isWordChar ≠ [] then
      String.ofList (c :: s.takeWhile isWordChar) :: placeholders s
    else placeholders s

theorem placeholders_cons {c : Char} (hn : c ≠ '#') (hv : c ≠ ':') (s : List Char) :
    placeholders (c :: s) = placeholders s := by
  rw [placeholders, if_neg]
  rintro ⟨rfl | rfl, -⟩
  · exact hn rfl
  · exact hv rfl

theorem ne_of_isWordChar {c d : Char} (hc : isWordChar c = true) (hd : isWordChar d = false) :
    c ≠ d := by
  rintro rfl
  rw [hc] at hd
  cases hd

theorem placeholders_word {w : List Char} (hw : ∀ c ∈ w, isWordChar c = true) (s : List Char) :
    placeholders (w ++ s) = placeholders s := by
  induction w with
  | nil => rfl
  | cons c w ih =>
    obtain ⟨hc, hw⟩ := List.forall_mem_cons.mp hw
    rw [List.cons_append, placeholders_cons (ne_of_isWordChar hc (by decide))
      (ne_of_isWordChar hc (by decide)), ih hw]

end Text

/-- A placeholder of either kind: a sigil with a word behind it. -/
def IsPlaceholder (token : String) : Prop := Grammar.IsToken '#' token ∨ Grammar.IsToken ':' token

theorem IsPlaceholder.word {token : String} (h : IsPlaceholder token) :
    ∃ sigil w, (sigil = '#' ∨ sigil = ':') ∧ w ≠ [] ∧ (∀ c ∈ w, Text.isWordChar c = true) ∧
      token.toList = sigil :: w := by
  rcases h with ⟨w, hne, hw, ht⟩ | ⟨w, hne, hw, ht⟩
  · exact ⟨'#', w, .inl rfl, hne, hw, ht⟩
  · exact ⟨':', w, .inr rfl, hne, hw, ht⟩

/-- A placeholder in front of what ends its word. -/
theorem IsPlaceholder.placeholders {token : String} (h : IsPlaceholder token) {s : List Char}
    (hs : Text.Boundary s) :
    Text.placeholders (token.toList ++ s) = token :: Text.placeholders s := by
  obtain ⟨sigil, w, hsigil, hne, hw, ht⟩ := h.word
  have htake := (Template.takeWhile_word hw hs).1
  rw [ht, List.cons_append, Text.placeholders, htake, if_pos ⟨hsigil, hne⟩,
    Text.placeholders_word hw, ← ht, String.ofList_toList]

/-! ## Tokens of a template -/

namespace Template

/-- The text starts with the token, and the rest is left. -/
inductive Takes : (text : List Char) → Token → (rest : List Char) → Prop where
  | brace {c : Char} (hc : c = '\x7b' ∨ c = '\x7d') (rest : List Char) :
    Takes (c :: c :: rest) (.brace c) rest
  | slot (text : List Char) (index : Nat) (format : Option String) (rest : List Char) :
    Takes text (.slot index format) rest
  | placeholder (sigil : Sigil) {word rest : List Char} (hne : word ≠ [])
    (hw : ∀ c ∈ word, Text.isWordChar c = true) (hr : Text.Boundary rest) :
    Takes (sigil.char :: word ++ rest) (.placeholder sigil word) rest
  | word {c : Char} {w rest : List Char} (hw : ∀ d ∈ c :: w, Text.isWordChar d = true)
    (hr : Text.Boundary rest) :
    Takes (c :: w ++ rest) (.word (c :: w) (Text.firstVisible? rest == some '(')) rest
  | blank {c : Char} (hn : c ≠ '#') (hv : c ≠ ':') (rest : List Char) :
    Takes (c :: rest) (.blank c) rest
  | mark {c : Char} (hn : c ≠ '#') (hv : c ≠ ':') (rest : List Char) :
    Takes (c :: rest) (.mark c) rest

theorem takes_of_next {c : Char} {s rest : List Char} {token : Token}
    (h : next c s = .ok (token, rest)) : Takes (c :: s) token rest := by
  have hsigil : ∀ {d : Char}, isLead d = false → d ≠ '#' ∧ d ≠ ':' := by
    intro d hd
    constructor <;> rintro rfl <;> exact absurd hd (by decide)
  obtain ⟨text, htext, hcut⟩ := cut_of_next h
  rw [htext]
  cases hcut with
  | brace hc => exact .brace hc rest
  | slot => exact .slot _ _ _ rest
  | placeholder sigil hne hw hr => exact .placeholder sigil hne hw hr
  | word hw hr =>
    exact .word (List.forall_mem_cons.mpr
      ⟨Text.isWordChar_of_isWordStart hw.first, List.all_eq_true.mp hw.rest⟩) hr
  | blank hc =>
    obtain ⟨hn, hv⟩ := hsigil (isLead_of_isBlank hc)
    exact .blank hn hv rest
  | mark hc =>
    obtain ⟨hn, hv⟩ := hsigil hc
    exact .mark hn hv rest

/-- The text has been cut into these tokens, up to its end or to a fault. -/
inductive Spells : List Char → Lexed → Prop where
  | nil : Spells [] ⟨[], none⟩
  | fault (text : List Char) (f : Nat × TemplateFault) : Spells text ⟨[], some f⟩
  | cons {text rest : List Char} {token : Token} {lexed : Lexed} (position : Nat)
    (ht : Takes text token rest) (h : Spells rest lexed) :
    Spells text ⟨⟨position, token⟩ :: lexed.tokens, lexed.fault⟩

theorem spells_lexFrom (position : Nat) (text : List Char) :
    Spells text (lexFrom position text) := by
  fun_induction lexFrom position text with
  | case1 => exact .nil
  | case2 position c s fault h => exact .fault _ _
  | case3 position c s token rest h hle lexed ih => exact .cons position (takes_of_next h) ih

/-- The token may go on with a word that stands in front of it. -/
def Token.goesOn : Token → Bool
  | .word _ _ => true
  | .blank c | .mark c => Text.isWordChar c
  | .brace _ | .slot _ _ | .placeholder _ _ => false

/-- What ends a word does not start with a token that goes on with it. -/
theorem Takes.goesOn {text rest : List Char} {token : Token} (ht : Takes text token rest)
    (h : Text.Boundary text) : token.goesOn = false := by
  cases ht with
  | brace | slot | placeholder => rfl
  | word hw =>
    have hc := h _ rfl
    rw [hw _ List.mem_cons_self] at hc
    cases hc
  | blank | mark => exact h _ rfl

/-- No token at the start goes on with a word in front of the text. -/
def Closes (tokens : List Placed) : Prop := ∀ p ∈ tokens.head?, p.token.goesOn = false

theorem Spells.closes {text : List Char} {lexed : Lexed} (hs : Spells text lexed)
    (h : Text.Boundary text) : Closes lexed.tokens := by
  cases hs with
  | nil | fault => exact fun p hp => nomatch hp
  | cons position ht =>
    rintro p ⟨⟩
    exact ht.goesOn h

end Template

/-! ## Placeholders of a draft -/

/-- What stands behind the sigils goes on as a word. -/
structure Scope.HasWordPrefixes (s : Scope) : Prop where
  name : ∀ c ∈ s.namePrefix.toList, Text.isWordChar c = true
  value : ∀ c ∈ s.valuePrefix.toList, Text.isWordChar c = true

section

variable {d d' : Draft} {t : String}

theorem Draft.contains_of_grows (hg : d.Grows d') (h : d.contains t = true) :
    d'.contains t = true := by
  simp only [contains, Bool.or_eq_true, List.any_eq_true] at h ⊢
  rw [hg.scope_eq]
  rcases h with (h | ⟨e, he, h⟩) | ⟨e, he, h⟩
  · exact .inl (.inl h)
  · exact .inl (.inr ⟨e, hg.names_prefix.subset he, h⟩)
  · exact .inr ⟨e, hg.bindings_prefix.subset he, h⟩

theorem Draft.bindName_contains {a : String} (h : Draft.bindName a d = .ok (t, d')) :
    t = d.nextName ∧ d'.contains t = true := by
  cases h
  exact ⟨rfl, by simp [contains]⟩

theorem Binder.value_contains {b : Binder} {v : Value} {p : Property}
    (h : b.value v p d = .ok (t, d')) : t = d.nextValue ∧ d'.contains t = true := by
  obtain ⟨binding, -, rfl, rfl⟩ := Binder.value_ok_iff.mp h
  exact ⟨rfl, by simp [Draft.contains]⟩

theorem Draft.isPlaceholder_nextName (hs : d.scope.HasWordPrefixes) : IsPlaceholder d.nextName :=
  .inl (Scope.isToken_numbered hs.name _)

theorem Draft.isPlaceholder_nextValue (hs : d.scope.HasWordPrefixes) : IsPlaceholder d.nextValue :=
  .inr (Scope.isToken_numbered hs.value _)

end

/-! ## What is written out -/

namespace Template

section

variable {b : Binder} {input : Input} {ctx ctx' : Context} {d d' : Draft} {out : List Char}

/-- All that is behind a placeholder: it has been minted. -/
theorem readPlaceholder_ok {sigil : Sigil} {word : List Char}
    (h : readPlaceholder ctx sigil word d = .ok ((out, ctx'), d')) :
    d.contains (String.ofList (sigil.char :: word)) = true ∧ out = sigil.char :: word ∧ d' = d := by
  obtain ⟨t, d₁, hreuse, h₁⟩ := Drafting.bind_ok.mp h
  obtain ⟨rfl, rfl, hc⟩ := Draft.reuse_contains hreuse
  refine ⟨hc, ?_⟩
  split at h₁
  · obtain ⟨d₂, d₃, hget, h₂⟩ := Drafting.bind_ok.mp h₁
    obtain ⟨-, rfl⟩ := Drafting.get_ok.mp hget
    cases ha : d₂.attribute? (String.ofList (sigil.char :: word)) <;>
    · rw [ha] at h₂
      obtain ⟨⟨⟩, rfl⟩ := Drafting.pure_ok.mp h₂
      exact ⟨String.toList_ofList, rfl⟩
  · obtain ⟨⟨⟩, rfl⟩ := Drafting.pure_ok.mp h₁
    exact ⟨String.toList_ofList, rfl⟩

/-- All that is behind a word: it stays as it is, or is replaced by a placeholder. -/
theorem readWord_ok {position : Nat} {word : List Char} {called : Bool}
    (h : readWord input ctx position word called d = .ok ((out, ctx'), d')) :
    (out = word ∧ d' = d) ∨
      ∃ t, Draft.bindName (String.ofList word) d = .ok (t, d') ∧ out = t.toList := by
  unfold readWord at h
  split at h
  · obtain ⟨⟨⟩, rfl⟩ := Drafting.pure_ok.mp h
    exact .inl ⟨rfl, rfl⟩
  · split at h
    · cases hf : Builtin.ofName? word with
      | none =>
        rw [hf] at h
        exact absurd h Drafting.throw_ok
      | some f =>
        rw [hf] at h
        obtain ⟨⟨⟩, rfl⟩ := Drafting.pure_ok.mp h
        exact .inl ⟨rfl, rfl⟩
    · unfold readAttribute at h
      dsimp only at h
      split at h
      · obtain ⟨t, d₁, hname, h₁⟩ := Drafting.bind_ok.mp h
        obtain ⟨⟨⟩, rfl⟩ := Drafting.pure_ok.mp h₁
        exact .inr ⟨t, hname, rfl⟩
      · obtain ⟨⟨⟩, rfl⟩ := Drafting.pure_ok.mp h
        exact .inl ⟨rfl, rfl⟩

end

/-- The token is a slot. -/
def Token.isSlot : Token → Bool
  | .slot _ _ => true
  | _ => false

/--
What a token in front of a text is written out to: a character, a word, or a placeholder of the
draft, whose word is ended by the text unless the token is a slot.
-/
inductive WrittenOut (d : Draft) (rest : List Char) : Token → List Char → Prop where
  | char {token : Token} {c : Char} (hn : c ≠ '#') (hv : c ≠ ':')
    (hc : token.goesOn = Text.isWordChar c) : WrittenOut d rest token [c]
  | word {w : List Char} (called : Bool) (hw : ∀ c ∈ w, Text.isWordChar c = true) :
    WrittenOut d rest (.word w called) w
  | placeholder {token : Token} {t : String} (ht : IsPlaceholder t) (hd : d.contains t = true)
    (hr : token.isSlot = true ∨ Text.Boundary rest) : WrittenOut d rest token t.toList

variable {b : Binder} {input : Input}

theorem readToken_writtenOut {text rest out : List Char} {token : Token} {ctx ctx' : Context}
    {position : Nat} {d d' : Draft} (ht : Takes text token rest) (hs : d.scope.HasWordPrefixes)
    (h : readToken b input ctx ⟨position, token⟩ d = .ok ((out, ctx'), d')) :
    WrittenOut d' rest token out := by
  cases ht with
  | brace hc =>
    obtain ⟨⟨⟩, rfl⟩ := Drafting.pure_ok.mp h
    rcases hc with rfl | rfl <;> exact .char (by decide) (by decide) rfl
  | slot text index format rest =>
    obtain ⟨v, t, -, hvalue, rfl, -⟩ := readSlot_ok h
    obtain ⟨rfl, hc⟩ := Binder.value_contains hvalue
    exact .placeholder (Draft.isPlaceholder_nextValue hs) hc (.inl rfl)
  | @placeholder sigil word rest hne hw hr =>
    obtain ⟨hc, rfl, rfl⟩ := readPlaceholder_ok h
    rw [← String.toList_ofList (l := sigil.char :: word)]
    refine .placeholder ?_ hc (.inr hr)
    cases sigil with
    | name => exact .inl ⟨word, hne, hw, String.toList_ofList⟩
    | value => exact .inr ⟨word, hne, hw, String.toList_ofList⟩
  | word hw hr =>
    rcases readWord_ok h with ⟨rfl, -⟩ | ⟨t, hname, rfl⟩
    · exact .word _ hw
    · obtain ⟨rfl, hc⟩ := Draft.bindName_contains hname
      exact .placeholder (Draft.isPlaceholder_nextName hs) hc (.inr hr)
  | blank hn hv =>
    obtain ⟨⟨⟩, rfl⟩ := Drafting.pure_ok.mp h
    exact .char hn hv rfl
  | mark hn hv =>
    obtain ⟨⟨⟩, rfl⟩ := Drafting.pure_ok.mp h
    exact .char hn hv rfl

/-- What a token adds to the placeholders of the text behind it. -/
theorem WrittenOut.placeholders {d : Draft} {rest out out' : List Char} {token : Token}
    (h : WrittenOut d rest token out)
    (hb : token.isSlot = true ∨ Text.Boundary rest → Text.Boundary out') :
    ∀ t ∈ Text.placeholders (out ++ out'), d.contains t = true ∨ t ∈ Text.placeholders out' := by
  intro t ht
  cases h with
  | char hn hv =>
    rw [List.singleton_append, Text.placeholders_cons hn hv] at ht
    exact .inr ht
  | word called hw =>
    rw [Text.placeholders_word hw] at ht
    exact .inr ht
  | placeholder hp hd hr =>
    rw [hp.placeholders (hb hr)] at ht
    rcases List.mem_cons.mp ht with rfl | ht
    · exact .inl hd
    · exact .inr ht

/-- What does not go on with a word is not written out to something that does. -/
theorem WrittenOut.boundary {d : Draft} {rest out : List Char} {token : Token}
    (h : WrittenOut d rest token out) (hg : token.goesOn = false) (out' : List Char) :
    Text.Boundary (out ++ out') := by
  cases h with
  | char hn hv hc => exact .cons (hc ▸ hg) out'
  | word => cases hg
  | placeholder hp =>
    obtain ⟨sigil, w, hsigil, -, -, ht⟩ := hp.word
    rw [ht, List.cons_append]
    rcases hsigil with rfl | rfl <;> exact .cons (by decide) _

/-- No text goes on behind a slot as part of a word. -/
def SlotsApart (tokens : List Placed) : Prop :=
  tokens.IsChain fun p q => p.token.isSlot = true → q.token.goesOn = false

/-- What stands behind a slot, or behind what ends a word, closes it. -/
theorem SlotsApart.closes {p : Placed} {rest : List Char} {lexed : Lexed}
    (h : SlotsApart (p :: lexed.tokens)) (hs : Spells rest lexed)
    (hr : p.token.isSlot = true ∨ Text.Boundary rest) : Closes lexed.tokens := by
  rcases hr with hslot | hb
  · intro q hq
    exact List.IsChain.rel_head? h hq hslot
  · exact hs.closes hb

/-- The placeholders that tokens are written out with are those of the draft. -/
theorem readTokens_placeholders {text : List Char} {lexed : Lexed} (hl : Spells text lexed) :
    ∀ {ctx : Context} {d d' : Draft} {out : List Char}, d.scope.HasWordPrefixes →
      SlotsApart lexed.tokens → readTokens b input ctx lexed.tokens d = .ok (out, d') →
      (∀ t ∈ Text.placeholders out, d'.contains t = true) ∧
        (Closes lexed.tokens → Text.Boundary out) := by
  induction hl with
  | nil | fault =>
    intro ctx d d' out _ _ h
    obtain ⟨rfl, rfl⟩ := Drafting.pure_ok.mp h
    exact ⟨fun t ht => (List.not_mem_nil ht).elim, fun _ => .nil⟩
  | @cons text rest token lexed position ht hrest ih =>
    intro ctx d d' out hs hapart h
    obtain ⟨out₁, ctx₁, d₁, out₂, h₁, h₃, hscope, rfl⟩ := readTokens_cons_ok h
    have hw := readToken_writtenOut ht hs h₁
    have hs₁ : d₁.scope.HasWordPrefixes := hscope ▸ hs
    obtain ⟨hin, hclose⟩ := ih hs₁ hapart.tail h₃
    have hg := Drafting.Minting.compatible.readTokens b.minting input _ _ h₃
    refine ⟨fun t ht' => ?_, fun hc => hw.boundary (hc _ rfl) out₂⟩
    rcases hw.placeholders (fun hr => hclose (hapart.closes hrest hr)) t ht' with hd | ht'
    · exact Draft.contains_of_grows hg hd
    · exact hin t ht'

end Template

/-! ## What a scope has after a clause -/

/-- Entries that are added to a table are found, and so is what has been there before. -/
theorem Keyed.isSome_find?_extend {α : Type} {k : String} (entries : List (String × α)) :
    ∀ m : Keyed α, (m.find? k).isSome = true ∨ k ∈ entries.map Prod.fst →
      ((m.extend entries).find? k).isSome = true := by
  induction entries with
  | nil =>
    rintro m (h | h)
    · exact h
    · exact absurd h List.not_mem_nil
  | cons e entries ih =>
    intro m h
    refine ih (m.insert e.1 e.2) ?_
    rw [Keyed.find?_insert]
    rcases h with h | h
    · refine .inl ?_
      split
      · rfl
      · exact h
    · rcases List.mem_cons.mp h with rfl | h
      · exact .inl (by simp)
      · exact .inr h

/-- A placeholder has been minted if it is bound in the table of its sigil. -/
theorem Scope.contains_iff {s : Scope} {t : String} : s.contains t = true ↔
    (t.toList.head? = some '#' ∧ ∃ a, s.attribute? t = some a) ∨
      (t.toList.head? = some ':' ∧ ∃ w, s.value? t = some w) := by
  unfold contains
  split
  · next hn => simp [hn, Option.isSome_iff_exists]
  · next hv => simp [hv, Option.isSome_iff_exists]
  · next hn hv =>
    constructor
    · exact fun h => absurd h Bool.false_ne_true
    · rintro (⟨h, -⟩ | ⟨h, -⟩)
      · exact (hn h).elim
      · exact (hv h).elim

theorem Scope.head?_nameToken (s : Scope) (i : Nat) : (s.nameToken i).toList.head? = some '#' := by
  simp [nameToken]

theorem Scope.head?_valueToken (s : Scope) (i : Nat) :
    (s.valueToken i).toList.head? = some ':' := by
  simp [valueToken]

theorem Scope.contains_enter {s : Scope} (names : List (String × String))
    (values : List (String × WireValue)) {t : String} (h : s.contains t = true) :
    (s.enter names values).contains t = true := by
  unfold contains at h ⊢
  split at h
  · exact Keyed.isSome_find?_extend names s.nameTable (.inl h)
  · exact Keyed.isSome_find?_extend values s.valueTable (.inl h)
  · cases h

/-- What a draft has is in the scope when the clause is complete. -/
theorem Draft.Numbered.contains_enter {d : Draft} (hd : d.Numbered)
    {values : List (String × WireValue)} (hv : List.Forall₂ Draft.Settled d.bindings values)
    {t : String} (h : d.contains t = true) :
    (d.scope.enter d.names values).contains t = true := by
  simp only [Draft.contains, Bool.or_eq_true, List.any_eq_true, beq_iff_eq] at h
  rcases h with (h | ⟨e, he, rfl⟩) | ⟨e, he, rfl⟩
  · exact Scope.contains_enter d.names values h
  · -- A name of the draft has the sigil of names, so it is looked for among the names.
    have hmem : e.1 ∈ d.names.map Prod.fst := List.mem_map_of_mem he
    have hsigil : e.1.toList.head? = some '#' := by
      rw [hd.names] at hmem
      obtain ⟨i, -, hi⟩ := List.mem_map.mp hmem
      rw [← hi, Scope.head?_nameToken]
    simp only [Scope.contains, hsigil]
    exact Keyed.isSome_find?_extend d.names _ (.inr hmem)
  · have hmem : e.1 ∈ d.bindings.map Prod.fst := List.mem_map_of_mem he
    have hsigil : e.1.toList.head? = some ':' := by
      rw [hd.bindings] at hmem
      obtain ⟨i, -, hi⟩ := List.mem_map.mp hmem
      rw [← hi, Scope.head?_valueToken]
    simp only [Scope.contains, hsigil]
    rw [← Draft.settled_keys hv] at hmem
    exact Keyed.isSome_find?_extend values _ (.inr hmem)

namespace Compiler

/--
What is behind the placeholders of a template that has been translated, whatever they are used for:
the scope in the end has all of them.
-/
theorem placeholders_contained {c : Compiler} {mode : Mode} {kind : ClauseKind} {template : String}
    {arguments : List Value} {schema : Option Schema} {s s' : Scope} {clause : Clause}
    (hs : s.HasWordPrefixes) (hapart : Template.SlotsApart (Template.lex template).tokens)
    (h : c.translate mode (.template kind template arguments schema) s = .ok clause s') :
    ∀ t ∈ Text.placeholders clause.expression.toList, s'.contains t = true := by
  obtain ⟨expression, d, values, hd, hv, rfl, rfl⟩ := translate_ok h
  have hg := c.draft_minting _ _ hd
  obtain ⟨text, d₁, hread, hend⟩ := Drafting.bind_ok.mp hd
  have hout : expression = text ∧ d = d₁ := by
    cases hf : (Template.lex template).fault with
    | none =>
      simp only [hf] at hend
      exact Drafting.pure_ok.mp hend
    | some f =>
      simp only [hf] at hend
      exact absurd hend Drafting.throw_ok
  obtain ⟨rfl, rfl⟩ := hout
  have hspells := Template.spells_lexFrom 0 template.toList
  have hin := (Template.readTokens_placeholders hspells hs hapart hread).1
  intro t ht
  rw [String.toList_ofList] at ht
  have hn := ((Draft.Numbered.on s).grows hg).contains_enter hv (hin t ht)
  rwa [hg.scope_eq] at hn

/--
**The placeholders of a template that has been translated are bound**, names to attributes and
values to wire values, if no text goes on behind a slot. It does not matter which of them the
template had and which were minted for it.
-/
theorem template_placeholders_bound (c : Compiler) {mode : Mode} {kind : ClauseKind}
    {template : String} {arguments : List Value} {schema : Option Schema} {s s' : Scope}
    {clause : Clause} (hs : s.HasWordPrefixes)
    (hapart : Template.SlotsApart (Template.lex template).tokens)
    (h : c.translate mode (.template kind template arguments schema) s = .ok clause s') :
    ∀ t ∈ Text.placeholders clause.expression.toList,
      (t.toList.head? = some '#' ∧ ∃ a, s'.attribute? t = some a) ∨
        (t.toList.head? = some ':' ∧ ∃ w, s'.value? t = some w) := by
  exact fun t ht => Scope.contains_iff.mp (placeholders_contained hs hapart h t ht)

/-- A template whose slots stand apart, one of which it uses twice. -/
def slotTwice : Source :=
  .template .filter "\x7b0\x7d IN (\x7b1\x7d,:p0)" [.text "Ada", .integer 18] none

theorem slot_twice_bound :
    let c : Compiler := ⟨.standard, .empty⟩
    let clause : Clause := ⟨":p0 IN (:p1,:p0)", [], [(":p0", .text "Ada"), (":p1", .number "18")]⟩
    let s' := c.scope.enter clause.names clause.values
    c.translate .sync slotTwice c.scope = .ok clause s' ∧
    Text.placeholders clause.expression.toList = [":p0", ":p1", ":p0"] ∧
    ∀ t ∈ Text.placeholders clause.expression.toList,
      (t.toList.head? = some '#' ∧ ∃ a, s'.attribute? t = some a) ∨
        (t.toList.head? = some ':' ∧ ∃ w, s'.value? t = some w) := by
  intro c clause s'
  have h : c.translate .sync slotTwice c.scope = .ok clause s' := by decide +kernel
  have hs : c.scope.HasWordPrefixes :=
    ⟨List.all_eq_true.mp (by decide), List.all_eq_true.mp (by decide)⟩
  have hapart : Template.SlotsApart (Template.lex "\x7b0\x7d IN (\x7b1\x7d,:p0)").tokens := by
    have htokens : (Template.lex "\x7b0\x7d IN (\x7b1\x7d,:p0)").tokens
        = [⟨0, .slot 0 none⟩, ⟨3, .blank ' '⟩, ⟨4, .word ['I', 'N'] true⟩, ⟨6, .blank ' '⟩,
          ⟨7, .mark '('⟩, ⟨8, .slot 1 none⟩, ⟨11, .mark ','⟩, ⟨12, .placeholder .value ['p', '0']⟩,
          ⟨15, .mark ')'⟩] := by
      decide +kernel
    rw [htokens]
    simp [Template.SlotsApart, Template.Token.goesOn, Template.Token.isSlot, Text.isWordChar]
  exact ⟨h, by decide +kernel, template_placeholders_bound c hs hapart h⟩

/-- A digit behind a slot goes on with its placeholder, and nobody has minted what comes of it. -/
theorem digit_behind_slot_unbound :
    let c : Compiler := ⟨.standard, .empty⟩
    let clause : Clause := ⟨":p01", [], [(":p0", .number "18")]⟩
    let s' := c.scope.enter clause.names clause.values
    c.translate .sync (.template .filter "\x7b0\x7d1" [.integer 18] none) c.scope = .ok clause s' ∧
    ":p01" ∈ Text.placeholders clause.expression.toList ∧ s'.value? ":p01" = none := by
  intro c clause s'
  exact ⟨by decide +kernel, by decide +kernel, by decide +kernel⟩

end Compiler

end Clauses
