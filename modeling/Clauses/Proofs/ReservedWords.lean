import Clauses.Proofs.Policies

/-!
# Reserved words in what a template is written out to

Where reserved words are replaced, none is left in the text that a template is written out to:
whatever can be read there as a word, and is no part of a placeholder, belongs to the grammar, or is
the name of a function that is called, or is not reserved. This is said about the text as somebody
reads it who knows nothing of the tokens of the template. A word of the text may begin with a digit,
for instance, or go on behind a slot, where no token does.

* `Text.IsBareWord` — a word that is read in a text
* `Template.readTokens_harmless` — no word that tokens are written out with is reserved
* `Template.readTokens_names` — what names are minted for
* `Compiler.no_reserved_word_left` — both for templates that are translated
-/

namespace Clauses

/-! ## Words of a text -/

/-- A word between two texts: it is as long as it can be, and no part of a placeholder. -/
structure Text.IsBareWord (before w after : List Char) : Prop where
  word : ∃ c t, w = c :: t ∧ Template.IsWord c t
  alone : ∀ c ∈ before.getLast?, isWordChar c = false ∧ c ≠ '#' ∧ c ≠ ':'
  ends : Boundary after

/-- The word belongs to the grammar, or is a function that is called, or is not reserved. -/
def Harmless (w after : List Char) : Prop :=
  Template.isKeyword w = true ∨
    ((Builtin.ofName? w).isSome = true ∧ Text.firstVisible? after = some '(') ∨ isReserved w = false

/-- Behind this text, the words of another text are harmless. -/
def HarmlessBehind (front s : List Char) : Prop :=
  ∀ before w after, s = before ++ w ++ after →
    Text.IsBareWord (front ++ before) w after → Harmless w after

namespace HarmlessBehind

variable {front s w : List Char} {c : Char}

/-- No word is read in a text without characters. -/
theorem nil (front : List Char) : HarmlessBehind front [] := by
  intro before w after hs hword
  obtain ⟨c, t, rfl, -⟩ := hword.word
  simp at hs

/-- A word starts with the first character, or it is a word of what is behind that. -/
theorem cons (hstart : ∀ w after, c :: s = w ++ after →
    Text.IsBareWord front w after → Harmless w after)
    (h : HarmlessBehind (front ++ [c]) s) : HarmlessBehind front (c :: s) := by
  intro before w after hs hword
  cases before with
  | nil =>
    rw [List.append_nil] at hword
    exact hstart w after hs hword
  | cons b before =>
    rw [List.cons_append, List.cons_append, List.cons.injEq] at hs
    obtain ⟨rfl, hs⟩ := hs
    rw [List.append_cons] at hword
    exact h before w after hs hword

/-- No word starts with a character that starts none. -/
theorem char (hc : Text.isWordStart c = false) (h : HarmlessBehind (front ++ [c]) s) :
    HarmlessBehind front (c :: s) := by
  refine cons (fun w after hs hword => ?_) h
  obtain ⟨c', t, rfl, hw⟩ := hword.word
  rw [List.cons_append, List.cons.injEq] at hs
  have hfirst := hw.first
  rw [← hs.1, hc] at hfirst
  cases hfirst

/-- No word starts behind a character with which it would go on, or be part of a placeholder. -/
theorem behind {b : Char} (hb : Text.isWordChar b = true ∨ b = '#' ∨ b = ':')
    (hw : ∀ c ∈ w, Text.isWordChar c = true) (h : ∀ front, HarmlessBehind front s) :
    HarmlessBehind (front ++ [b]) (w ++ s) := by
  induction w generalizing front b with
  | nil => exact h _
  | cons c w ih =>
    obtain ⟨hc, hw⟩ := List.forall_mem_cons.mp hw
    refine cons (fun w' after hs hword => ?_) (ih (.inl hc) hw)
    obtain ⟨hchar, hname, hvalue⟩ := hword.alone b List.getLast?_concat
    rcases hb with hb | rfl | rfl
    · rw [hchar] at hb
      cases hb
    · exact absurd rfl hname
    · exact absurd rfl hvalue

/-- A placeholder has no words. -/
theorem placeholder {t : String} (ht : IsPlaceholder t) (h : ∀ front, HarmlessBehind front s) :
    HarmlessBehind front (t.toList ++ s) := by
  obtain ⟨sigil, w, hsigil, -, hw, hlist⟩ := ht.word
  rw [hlist, List.cons_append]
  refine char ?_ (behind (.inr hsigil) hw h)
  rcases hsigil with rfl | rfl <;> decide

/-- A word is read where it stands. -/
theorem word (hw : Template.IsWord c w) (hs : Text.Boundary s) (hgood : Harmless (c :: w) s)
    (h : ∀ front, HarmlessBehind front s) : HarmlessBehind front (c :: w ++ s) := by
  have hin : ∀ d ∈ w, Text.isWordChar d = true := List.all_eq_true.mp hw.rest
  rw [List.cons_append]
  refine cons (fun w' after he hword => ?_)
    (behind (.inl (Text.isWordChar_of_isWordStart hw.first)) hin h)
  obtain ⟨c', t, rfl, hw'⟩ := hword.word
  rw [List.cons_append, List.cons.injEq] at he
  obtain ⟨rfl, he⟩ := he
  -- Both words end where the same text goes on behind them.
  obtain ⟨htake, hdrop⟩ := Template.takeWhile_word hin hs
  obtain ⟨htake', hdrop'⟩ := Template.takeWhile_word (List.all_eq_true.mp hw'.rest) hword.ends
  rw [← he, htake] at htake'
  rw [← he, hdrop] at hdrop'
  rw [← htake', ← hdrop']
  exact hgood

end HarmlessBehind

/-! ## What comes first -/

theorem IsPlaceholder.boundary {t : String} (ht : IsPlaceholder t) (s : List Char) :
    Text.Boundary (t.toList ++ s) := by
  obtain ⟨sigil, w, hsigil, -, -, hlist⟩ := ht.word
  rw [hlist, List.cons_append]
  rcases hsigil with rfl | rfl <;> exact .cons (by decide) _

namespace Template

variable {b : Binder} {input : Input} {d d' : Draft} {ctx ctx' : Context} {out : List Char}

/-- What ends a word is written out to what ends it, and a bracket to a bracket. -/
structure OpensAs (text out : List Char) : Prop where
  boundary : Text.Boundary text → Text.Boundary out
  bracket : Text.firstVisible? text = some '(' → Text.firstVisible? out = some '('

theorem OpensAs.of_ne {c : Char} {text : List Char} (hb : Text.isBlank c = false) (hc : c ≠ '(')
    (h : Text.isWordChar c = false → Text.Boundary out) : OpensAs (c :: text) out where
  boundary hr := h (hr c rfl)
  bracket hv := by
    rw [Text.firstVisible?_visible hb] at hv
    exact absurd (Option.some.inj hv) hc

/-- Tokens are written out to a text that opens as they do. -/
theorem readTokens_opensAs {text : List Char} {tokens : List Placed} (hcuts : Cuts text tokens) :
    ∀ {ctx : Context} {d d' : Draft} {out : List Char}, d.scope.HasWordPrefixes →
      readTokens b input ctx tokens d = .ok (out, d') → OpensAs text out := by
  induction hcuts with
  | nil =>
    intro ctx d d' out _ h
    obtain ⟨rfl, -⟩ := Drafting.pure_ok.mp h
    exact ⟨id, id⟩
  | @cons token text rest tokens position hcut _ ih =>
    intro ctx d d' out hs h
    obtain ⟨out₁, ctx₁, d₁, out₂, h₁, h₃, hscope, rfl⟩ := readTokens_cons_ok h
    have hs₁ : d₁.scope.HasWordPrefixes := hscope ▸ hs
    cases hcut with
    | brace hc =>
      obtain ⟨⟨⟩, rfl⟩ := Drafting.pure_ok.mp h₁
      rcases hc with rfl | rfl <;> exact .of_ne (by decide) (by decide) fun hc => .cons hc _
    | slot =>
      obtain ⟨v, t, -, hvalue, rfl, -⟩ := readSlot_ok h₁
      obtain ⟨rfl, -⟩ := Binder.value_contains hvalue
      exact .of_ne (by decide) (by decide) fun _ =>
        (Draft.isPlaceholder_nextValue hs).boundary _
    | placeholder sigil =>
      obtain ⟨-, rfl, rfl⟩ := readPlaceholder_ok h₁
      cases sigil <;> exact .of_ne (by decide) (by decide) fun hc => .cons hc _
    | @word c w rest hw =>
      have hne : c ≠ '(' := by
        rintro rfl
        exact absurd hw.first (by decide)
      refine .of_ne (isBlank_of_isWordStart hw.first) hne fun hc => ?_
      rw [Text.isWordChar_of_isWordStart hw.first] at hc
      cases hc
    | blank hc =>
      obtain ⟨⟨⟩, rfl⟩ := Drafting.pure_ok.mp h₁
      refine ⟨fun hr => .cons (hr _ rfl) _, fun hv => ?_⟩
      rw [List.singleton_append, Text.firstVisible?_blank hc] at hv ⊢
      exact (ih hs₁ h₃).bracket hv
    | mark hc hb =>
      obtain ⟨⟨⟩, rfl⟩ := Drafting.pure_ok.mp h₁
      refine ⟨fun hr => .cons (hr _ rfl) _, fun hv => ?_⟩
      rw [List.singleton_append, Text.firstVisible?_visible hb] at hv ⊢
      exact hv

/-! ## Reserved words -/

/-- No word that tokens are written out with is reserved. -/
theorem readTokens_harmless (ha : input.aliasReserved = true) {text : List Char}
    {tokens : List Placed}
    (hcuts : Cuts text tokens) : ∀ {ctx : Context} {d d' : Draft} {out : List Char},
      d.scope.HasWordPrefixes → readTokens b input ctx tokens d = .ok (out, d') →
      ∀ front, HarmlessBehind front out := by
  induction hcuts with
  | nil =>
    intro ctx d d' out _ h
    obtain ⟨rfl, -⟩ := Drafting.pure_ok.mp h
    exact .nil
  | @cons token text rest tokens position hcut hrest ih =>
    intro ctx d d' out hs h front
    obtain ⟨out₁, ctx₁, d₁, out₂, h₁, h₃, hscope, rfl⟩ := readTokens_cons_ok h
    have hs₁ : d₁.scope.HasWordPrefixes := hscope ▸ hs
    have ih := ih hs₁ h₃
    cases hcut with
    | brace hc =>
      obtain ⟨⟨⟩, rfl⟩ := Drafting.pure_ok.mp h₁
      rcases hc with rfl | rfl <;> exact .char (by decide) (ih _)
    | slot =>
      obtain ⟨v, t, -, hvalue, rfl, -⟩ := readSlot_ok h₁
      obtain ⟨rfl, -⟩ := Binder.value_contains hvalue
      exact .placeholder (Draft.isPlaceholder_nextValue hs) ih
    | placeholder sigil hne hw =>
      obtain ⟨-, rfl, rfl⟩ := readPlaceholder_ok h₁
      cases sigil <;> exact .char (by decide) (.behind (by decide) hw ih)
    | word hw hr =>
      have hopens := readTokens_opensAs hrest hs₁ h₃
      obtain ⟨-, ⟨rfl, -, hkeeps⟩ | ⟨t, hname, rfl, -⟩⟩ := readWord_inv (fun _ => none) h₁
      · rw [Input.Keeps, ha, Bool.true_and] at hkeeps
        refine .word hw (hopens.boundary hr) ?_ ih
        exact hkeeps.imp_right (.imp_left fun hf => ⟨hf.2, hopens.bracket (beq_iff_eq.mp hf.1)⟩)
      · obtain ⟨rfl, -⟩ := Draft.bindName_contains hname
        exact .placeholder (Draft.isPlaceholder_nextName hs) ih
    | blank hc =>
      obtain ⟨⟨⟩, rfl⟩ := Drafting.pure_ok.mp h₁
      exact .char (isWordStart_of_isLead (isLead_of_isBlank hc)) (ih _)
    | mark hc =>
      obtain ⟨⟨⟩, rfl⟩ := Drafting.pure_ok.mp h₁
      exact .char (isWordStart_of_isLead hc) (ih _)

/-! ## Names that are minted -/

/-- A name is minted for nothing but a reserved word. -/
theorem readToken_names {p : Placed}
    (h : readToken b input ctx p d = .ok ((out, ctx'), d')) : d'.names = d.names ∨
      ∃ w called, p.token = .word w called ∧ isReserved w = true ∧
        d'.names = d.names ++ [(d.nextName, String.ofList w)] := by
  obtain ⟨position, token⟩ := p
  cases token with
  | brace c | blank c | mark c =>
    obtain ⟨-, rfl⟩ := Drafting.pure_ok.mp h
    exact .inl rfl
  | slot index format =>
    obtain ⟨v, t, -, hvalue, -⟩ := readSlot_ok h
    obtain ⟨binding, -, -, rfl⟩ := Binder.value_ok_iff.mp hvalue
    exact .inl rfl
  | placeholder sigil word =>
    obtain ⟨-, -, rfl⟩ := readPlaceholder_ok h
    exact .inl rfl
  | word word called =>
    obtain ⟨-, ⟨-, rfl, -⟩ | ⟨t, hname, -, hr⟩⟩ := readWord_inv (fun _ => none) h
    · exact .inl rfl
    · cases hname
      exact .inr ⟨word, called, rfl, (Bool.and_eq_true _ _ ▸ hr).2, rfl⟩

/-- The names that tokens mint are for reserved words among the tokens. -/
theorem readTokens_names : ∀ (tokens : List Placed) {ctx : Context}
    {d : Draft} {out : List Char}, readTokens b input ctx tokens d = .ok (out, d') →
      ∀ e ∈ d'.names, e ∈ d.names ∨ isReserved e.2.toList = true ∧
        ∃ p ∈ tokens, ∃ called, p.token = .word e.2.toList called
  | [], ctx, d, out, h => by
    obtain ⟨-, rfl⟩ := Drafting.pure_ok.mp h
    exact fun e he => .inl he
  | p :: rest, ctx, d, out, h => by
    obtain ⟨text, ctx', d₁, out', hfirst, hrest, -, -⟩ := readTokens_cons_ok h
    intro e he
    rcases readTokens_names rest hrest e he with he | ⟨hr, q, hq, called, hw⟩
    · rcases readToken_names hfirst with hn | ⟨w, called, hw, hr, hn⟩
      · exact .inl (hn ▸ he)
      · rw [hn, List.mem_append, List.mem_singleton] at he
        rcases he with he | rfl
        · exact .inl he
        · rw [← String.toList_ofList (l := w)] at hw hr
          exact .inr ⟨hr, p, List.mem_cons_self, called, hw⟩
    · exact .inr ⟨hr, q, List.mem_cons_of_mem _ hq, called, hw⟩

end Template

namespace Compiler

/--
**No reserved word is left in a template that has been translated**, if reserved words are replaced:
each word that is read in the text that it is written out to belongs to the grammar, or is a
function that is called, or is not reserved. The names that are minted are bound to reserved words,
spelled as they stand in the template.
-/
theorem no_reserved_word_left (c : Compiler) (ha : c.config.aliasReserved = true) {mode : Mode}
    {kind : ClauseKind} {template : String} {arguments : List Value} {schema : Option Schema}
    {s s' : Scope} {clause : Clause} (hs : s.HasWordPrefixes)
    (h : c.translate mode (.template kind template arguments schema) s = .ok clause s') :
    (∀ before w after, clause.expression.toList = before ++ w ++ after →
      Text.IsBareWord before w after → Template.isKeyword w = true ∨
        ((Builtin.ofName? w).isSome = true ∧ Text.firstVisible? after = some '(') ∨
        isReserved w = false) ∧
    ∀ e ∈ clause.names, isReserved e.2.toList = true ∧
      ∃ before after called, template.toList = before ++ e.2.toList ++ after ∧
        ⟨Text.byteLength before, .word e.2.toList called⟩ ∈ (Template.lex template).tokens := by
  obtain ⟨expression, d, values, hd, -, rfl, -⟩ := translate_ok h
  obtain ⟨text, d₁, hread, hend⟩ := Drafting.bind_ok.mp hd
  cases hfault : (Template.lex template).fault with
  | some fault =>
    simp only [hfault] at hend
    exact absurd hend Drafting.throw_ok
  | none =>
    simp only [hfault] at hend
    obtain ⟨rfl, rfl⟩ := Drafting.pure_ok.mp hend
    constructor
    · intro before w after hsplit hword
      rw [String.toList_ofList] at hsplit
      exact Template.readTokens_harmless ha
        (Template.cuts_lexFrom 0 template.toList hfault) hs hread []
        before w after hsplit hword
    · intro e he
      rcases Template.readTokens_names _ hread e he with he | ⟨hr, p, hp, called, hw⟩
      · cases he
      · obtain ⟨before, t, after, hsplit, hposition, hcut⟩ :=
          Template.exists_cut_of_mem_lexFrom 0 template.toList hp
        obtain ⟨position, token⟩ := p
        dsimp only at hw hposition hcut
        rw [Nat.zero_add] at hposition
        subst hw hposition
        rw [hcut.text_of_word] at hsplit
        exact ⟨hr, before, after, called, hsplit, hp⟩

/-- A keyword of the grammar is a member behind a dot, and a keyword further on. -/
def memberAdd : Source := .template .filter "#n.Add = \x7b0\x7d or #n" [.integer 18] none

theorem member_add_replaced :
    let c : Compiler := ⟨.standard, .empty⟩
    let s := c.scope.enter [("#n", "cost")] []
    let clause : Clause := ⟨"#n.#attr1 = :p0 or #n", [("#attr1", "Add")], [(":p0", .number "18")]⟩
    c.translate .sync memberAdd s = .ok clause (s.enter clause.names clause.values) ∧
    (∀ before w after, clause.expression.toList = before ++ w ++ after →
      Text.IsBareWord before w after → Template.isKeyword w = true ∨
        ((Builtin.ofName? w).isSome = true ∧ Text.firstVisible? after = some '(') ∨
        isReserved w = false) ∧
    ∀ e ∈ clause.names, isReserved e.2.toList = true ∧
      ∃ before after called, "#n.Add = \x7b0\x7d or #n".toList = before ++ e.2.toList ++ after ∧
        ⟨Text.byteLength before, .word e.2.toList called⟩
          ∈ (Template.lex "#n.Add = \x7b0\x7d or #n").tokens := by
  intro c s clause
  have h : c.translate .sync memberAdd s = .ok clause (s.enter clause.names clause.values) := by
    decide +kernel
  have hs : s.HasWordPrefixes :=
    ⟨List.all_eq_true.mp (by decide), List.all_eq_true.mp (by decide)⟩
  exact ⟨h, no_reserved_word_left c rfl hs h⟩

end Compiler

end Clauses
