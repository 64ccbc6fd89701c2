import Clauses.Proofs.Acceptance
import Clauses.Proofs.Lexing

/-!
# Where a template is malformed

A template that is malformed is so at a position, and everything in front of the position is in
order: as a template of its own it is translated. This is not clear from the outset, since a
word is a function or not according to what stands far behind it, and a slot ends where its
brace is closed. But each of the characters at which a fault is found ends what stands in front
of it, and is no bracket.

* `Template.Cut.short` — what is a token in front of the bad place is the same token without it
* `Template.readToken_malformed` — a token that is at fault is so where it starts
* `Compiler.malformed_at_first_fault` — the place of a fault, and the template in front of it
-/

namespace Clauses

/-! ## Errors that are about templates -/

/-- The error says that a template is malformed. -/
def ClauseError.isOfTemplate : ClauseError → Bool
  | .malformedTemplate _ _ _ => true
  | _ => false

theorem Except.bind_error_iff {ε α β : Type} {x : Except ε α} {f : α → Except ε β} {e : ε} :
    (x >>= f) = .error e ↔ x = .error e ∨ ∃ a, x = .ok a ∧ f a = .error e := by
  change Except.bind x f = _ ↔ _
  cases x <;> simp [Except.bind]

theorem Except.mapError_error {ε ε' α : Type} {x : Except ε α} {f : ε → ε'} {e : ε'}
    (h : x.mapError f = .error e) : ∃ e', e = f e' := by
  cases x with
  | error e' =>
    cases h
    exact ⟨e', rfl⟩
  | ok a => cases h

theorem Drafting.bind_error_iff {α β : Type} {x : Drafting α} {f : α → Drafting β} {d : Draft}
    {e : ClauseError} : (x >>= f) d = .error e ↔
      x d = .error e ∨ ∃ a d', x d = .ok (a, d') ∧ f a d' = .error e := by
  change Except.bind (x d) (fun p => f p.1 p.2) = _ ↔ _
  cases x d with
  | error e' => simp [Except.bind]
  | ok p =>
    constructor
    · exact fun h => .inr ⟨p.1, p.2, rfl, h⟩
    · rintro (h | ⟨a, d', he, hf⟩)
      · cases h
      · cases he
        exact hf

theorem Drafting.lift_error_iff {α : Type} {x : Except ClauseError α}
    {d : Draft} {e : ClauseError} :
    (liftM x : Drafting α) d = .error e ↔ x = .error e := by
  change Except.bind x (fun a => .ok (a, d)) = _ ↔ _
  cases x <;> simp [Except.bind]

namespace Value

variable {field : String}

theorem invalidIn_error {α : Type} {x : Except InvalidValue α} {e : ClauseError}
    (h : invalidIn field x = .error e) : e.isOfTemplate = false := by
  obtain ⟨reason, rfl⟩ := Except.mapError_error h
  rfl

theorem nonempty_error {w : WireValue} {e : ClauseError} (h : nonempty field w = .error e) :
    e.isOfTemplate = false := by
  obtain ⟨found, rfl⟩ := Except.mapError_error h
  rfl

mutual

/-- A value that has no wire form makes no template malformed. -/
theorem encode_error {dates format : Option String} {e : ClauseError} :
    ∀ (v : Value) {field : String},
    v.encode dates field format = .error e → e.isOfTemplate = false
  | .null, _, h | .bool _, _, h | .text _, _, h | .binary _, _, h => by cases h
  | .integer _, _, h | .decimal _, _, h | .float _, _, h | .timestamp _, _, h | .date _, _, h =>
    invalidIn_error h
  | .textSet _, _, h | .numberSet _, _, h | .binarySet _, _, h => nonempty_error h
  | .list items, _, h => by
    rcases Except.bind_error_iff.mp h with h | ⟨ws, -, h⟩
    · exact encodeItems_error items h
    · exact nonempty_error h
  | .map entries, _, h => by
    rcases Except.bind_error_iff.mp h with h | ⟨ws, -, h⟩
    · exact encodeEntries_error entries h
    · exact nonempty_error h

theorem encodeItems_error {dates format : Option String} {e : ClauseError} : ∀ (items : List Value)
    {field : String} {i : Nat}, encodeItems dates field format i items = .error e →
      e.isOfTemplate = false
  | [], _, _, h => by cases h
  | v :: rest, _, _, h => by
    rcases Except.bind_error_iff.mp h with h | ⟨w, -, h⟩
    · exact encode_error v h
    · rcases Except.bind_error_iff.mp h with h | ⟨ws, -, h⟩
      · exact encodeItems_error rest h
      · cases h

theorem encodeEntries_error {dates format : Option String} {e : ClauseError} :
    ∀ (entries : List (String × Value)) {field : String},
      encodeEntries dates field format entries = .error e → e.isOfTemplate = false
  | [], _, h => by cases h
  | (k, v) :: rest, _, h => by
    rcases Except.bind_error_iff.mp h with h | ⟨w, -, h⟩
    · exact encode_error v h
    · rcases Except.bind_error_iff.mp h with h | ⟨ws, -, h⟩
      · exact encodeEntries_error rest h
      · cases h

end

end Value

/-- Neither does a value that cannot be bound. -/
theorem Codec.bind_error {codec : Codec} {entity : Option String} {cancelled : Bool} {v : Value}
    {p : Property} {e : ClauseError} (h : codec.bind entity cancelled v p = .error e) :
    e.isOfTemplate = false := by
  rcases Except.bind_error_iff.mp h with h | ⟨w, -, h⟩
  · exact v.encode_error h
  · cases hp : p.hook with
    | none =>
      rw [hp] at h
      cases h
    | some id =>
      rw [hp] at h
      rcases Except.bind_error_iff.mp h with h | ⟨hook, -, h⟩
      · unfold HookRegistry.resolve at h
        split at h <;> cases h
        rfl
      · cases hook with
        | async hook course => cases h
        | sync hook =>
          rcases Except.bind_error_iff.mp h with h | ⟨output, -, h⟩
          · obtain ⟨fault, rfl⟩ := Except.mapError_error h
            rfl
          · cases h

theorem Binder.value_error {b : Binder} {v : Value} {p : Property} {d : Draft} {e : ClauseError}
    (h : b.value v p d = .error e) : e.isOfTemplate = false := by
  rcases Drafting.bind_error_iff.mp h with h | ⟨_, _, -, h⟩
  · cases h
  · rcases Drafting.bind_error_iff.mp h with h | ⟨binding, d₁, -, h⟩
    · exact Codec.bind_error (Drafting.lift_error_iff.mp h)
    · cases h

namespace Template

variable {b : Binder} {input : Input} {ctx ctx' : Context} {d d' : Draft} {token : Token}
  {text rest more : List Char} {c bad : Char}

/-! ## Tokens in front of a bad place -/

theorem boundary_of_append (h : Text.Boundary (text ++ more)) : Text.Boundary text := by
  intro c hc
  exact h c (by rw [List.head?_append, hc]; rfl)

/-- The bad place is no bracket, so no word is called there. -/
theorem firstVisible?_short (hbad : isLead bad = true) :
    (Text.firstVisible? (rest ++ bad :: more) == some '(')
      = (Text.firstVisible? rest == some '(') := by
  have hblank : ¬Text.isBlank bad = true := by
    intro h
    rw [isLead_of_isBlank h] at hbad
    cases hbad
  have hbracket : bad ≠ '(' := by
    rintro rfl
    exact absurd hbad (by decide)
  simp only [Text.firstVisible?, Text.dropBlanks, List.dropWhile_append,
    List.dropWhile_cons_of_neg hblank]
  cases rest.dropWhile Text.isBlank with
  | nil => simpa using hbracket
  | cons c s => rfl

/-- What is a token in front of the bad place is the same token where the text ends there. -/
theorem Cut.short (hbad : isLead bad = true) (h : Cut token text (rest ++ bad :: more)) :
    Cut token text rest := by
  generalize hrest : rest ++ bad :: more = rest' at h
  cases h with
  | brace hc => exact .brace hc rest
  | slot h => exact .slot h rest
  | placeholder sigil hne hw hr => exact .placeholder sigil hne hw (boundary_of_append (hrest ▸ hr))
  | word hw hr =>
    rw [← hrest, firstVisible?_short hbad]
    exact .word hw (boundary_of_append (hrest ▸ hr))
  | blank hc => exact .blank hc rest
  | mark hc hb => exact .mark hc hb rest

/-- Where no token can be taken off a text, a token starts that does not end. -/
theorem isLead_of_next_error {fault : TemplateFault} {s : List Char} (h : next c s = .error fault) :
    isLead c = true := by
  by_contra hc
  rw [next_single (by simpa using hc)] at h
  cases h

/-! ## Tokens at fault -/

/-- A token of which one can tell only from what has been read that it is at fault. -/
def Token.isRisky : Token → Bool
  | .slot _ _ | .word _ _ => true
  | _ => false

theorem Cut.isLead {t : List Char} (h : Cut token (c :: t) rest) (hr : token.isRisky = true) :
    isLead c = true := by
  generalize htext : c :: t = text at h
  cases h with
  | brace | placeholder | blank | mark => cases hr
  | slot =>
    cases htext
    rfl
  | word hw =>
    cases htext
    exact isLead_iff.mpr (.inr (.inr (.inr (.inr hw.first))))

section Malformed

variable {position p : Nat} {template : String} {fault : TemplateFault}

/--
A slot is at fault if there is no argument for it; that a value cannot be bound is no such fault.
-/
theorem readSlot_malformed {index : Nat} {format : Option String}
    (h : readSlot b input ctx position index format d
      = .error (.malformedTemplate template p fault)) :
    template = input.template ∧ p = position := by
  unfold readSlot at h
  cases hv : input.arguments[index]? with
  | none =>
    rw [hv] at h
    cases h
    exact ⟨rfl, rfl⟩
  | some v =>
    rw [hv] at h
    rcases Drafting.bind_error_iff.mp h with h | ⟨t, d₁, -, h⟩
    · cases Binder.value_error h
    · cases h

/-- That a placeholder stands for nothing is none either. -/
theorem readPlaceholder_error {sigil : Sigil} {word : List Char} {e : ClauseError}
    (h : readPlaceholder ctx sigil word d = .error e) : e.isOfTemplate = false := by
  rcases Drafting.bind_error_iff.mp h with h | ⟨t, d₁, -, h⟩
  · unfold Draft.reuse at h
    split at h <;> cases h
    rfl
  · split at h
    · rcases Drafting.bind_error_iff.mp h with h | ⟨d₂, d₃, -, h⟩
      · cases h
      · cases ha : d₂.attribute? t <;> rw [ha] at h <;> cases h
    · cases h

theorem readAttribute_ne_error {word : List Char} {e : ClauseError} :
    readAttribute input ctx word d ≠ .error e := by
  intro h
  unfold readAttribute at h
  dsimp only at h
  split at h
  · rcases Drafting.bind_error_iff.mp h with h | ⟨t, d₁, -, h⟩ <;> cases h
  · cases h

/-- A word is at fault if it is called and is no function. -/
theorem readWord_malformed {word : List Char} {called : Bool}
    (h : readWord input ctx position word called d = .error (.malformedTemplate template p fault)) :
    template = input.template ∧ p = position := by
  unfold readWord at h
  split at h
  · cases h
  · split at h
    · cases hf : Builtin.ofName? word with
      | none =>
        rw [hf] at h
        cases h
        exact ⟨rfl, rfl⟩
      | some f =>
        rw [hf] at h
        cases h
    · exact absurd h readAttribute_ne_error

/-- A token that is at fault is so where it starts. -/
theorem readToken_malformed
    (h : readToken b input ctx ⟨position, token⟩ d = .error (.malformedTemplate template p fault)) :
    template = input.template ∧ p = position ∧ token.isRisky = true := by
  cases token with
  | brace c | blank c | mark c => cases h
  | slot index format =>
    obtain ⟨htemplate, hp⟩ := readSlot_malformed h
    exact ⟨htemplate, hp, rfl⟩
  | placeholder sigil word => cases readPlaceholder_error h
  | word word called =>
    obtain ⟨htemplate, hp⟩ := readWord_malformed h
    exact ⟨htemplate, hp, rfl⟩

end Malformed

/-- The template and the position of a token are told to nobody if the token is read. -/
theorem readToken_retitled {position : Nat} {out : List Char}
    (h : readToken b input ctx ⟨position, token⟩ d = .ok ((out, ctx'), d')) (template : String)
    (position' : Nat) :
    readToken b { input with template := template } ctx ⟨position', token⟩ d
      = .ok ((out, ctx'), d') := by
  cases token with
  | brace c | blank c | mark c | placeholder sigil word => exact h
  | slot index format =>
    change readSlot b input ctx position index format d = _ at h
    change readSlot b { input with template := template } ctx position' index format d = _
    unfold readSlot at h ⊢
    dsimp only at h ⊢
    cases hv : input.arguments[index]? with
    | none =>
      rw [hv] at h
      cases h
    | some v =>
      rw [hv] at h
      exact h
  | word word called =>
    change readWord input ctx position word called d = _ at h
    change readWord { input with template := template } ctx position' word called d = _
    unfold readWord at h ⊢
    by_cases hk : (!ctx.afterDot && isKeyword word) = true
    · rw [if_pos hk] at h ⊢
      exact h
    · rw [if_neg hk] at h ⊢
      cases called with
      | false => exact h
      | true =>
        cases hf : Builtin.ofName? word with
        | none =>
          rw [hf] at h
          cases h
        | some f =>
          rw [hf] at h
          exact h

/-! ## Templates at fault -/

/-- The rest of a template is read token by token. -/
theorem readFrom_cut {t : List Char} (hcut : Cut token (c :: t) rest) (ctx : Context)
    (position : Nat) :
    readFrom b input ctx position (c :: t ++ rest) = (do
      let (out, ctx') ← readToken b input ctx ⟨position, token⟩
      let out' ← readFrom b input ctx' (position + Text.byteLength (c :: t)) rest
      return out ++ out') := by
  rw [readFrom, lexFrom_cut hcut]
  simp only [readTokens, bind_assoc, pure_bind]
  refine bind_congr fun r => ?_
  rw [readFrom]
  simp only [bind_assoc]
  refine bind_congr fun text => ?_
  cases (lexFrom (position + Text.byteLength (c :: t)) rest).fault with
  | none => rw [pure_bind]
  | some fault => rfl

/--
A text at whose end a template is at fault, or which it is at fault in: the fault is found at one of
the characters that a token may go on behind, and what is in front of it can be written out.
-/
theorem readFrom_malformed {template : String} {p : Nat} {fault : TemplateFault} (position : Nat)
    (text : List Char) : ∀ {ctx : Context} {d : Draft},
      readFrom b input ctx position text d = .error (.malformedTemplate template p fault) →
      template = input.template ∧ ∃ before bad after, text = before ++ bad :: after ∧
        p = position + Text.byteLength before ∧ isLead bad = true ∧
        ∃ out d', ∀ title, Writes b { input with template := title } ctx d before out d' := by
  fun_induction lexFrom position text with
  | case1 position =>
    intro ctx d h
    rw [readFrom, lexFrom] at h
    cases h
  | case2 position c s found hn =>
    intro ctx d h
    have hlex : lexFrom position (c :: s) = ⟨[], some (position, found)⟩ := by
      rw [lexFrom]
      split
      · next hn' =>
        rw [hn] at hn'
        cases hn'
        rfl
      · next hn' =>
        rw [hn] at hn'
        cases hn'
    rw [readFrom, hlex] at h
    cases h
    exact ⟨rfl, [], c, s, rfl, rfl, isLead_of_next_error hn, [], d, fun title => .nil ctx d⟩
  | case3 position c s token rest hn =>
    rename_i ih
    intro ctx d h
    obtain ⟨t, ht, hcut⟩ := cut_of_next hn
    obtain ⟨c', t, rfl⟩ := hcut.exists_cons
    rw [List.cons_append, List.cons.injEq] at ht
    obtain ⟨rfl, rfl⟩ := ht
    have hnext : position + (Text.byteLength (c :: (t ++ rest)) - Text.byteLength rest)
        = position + Text.byteLength (c :: t) := by
      rw [← List.cons_append, Text.byteLength_append]
      omega
    rw [hnext] at ih
    rw [← List.cons_append, readFrom_cut hcut] at h
    rcases Drafting.bind_error_iff.mp h with h | ⟨⟨out, ctx'⟩, d₁, hread, h⟩
    · obtain ⟨htemplate, rfl, hr⟩ := readToken_malformed h
      exact ⟨htemplate, [], c, _, rfl, rfl, hcut.isLead hr, [], d, fun title => .nil ctx d⟩
    · rcases Drafting.bind_error_iff.mp h with h | ⟨out', d₂, -, h⟩
      · obtain ⟨htemplate, before, bad, after, rfl, hp, hbad, out', d', hwrites⟩ := ih h
        refine ⟨htemplate, c :: t ++ before, bad, after, ?_, ?_, hbad, out ++ out',
          d', fun title => ?_⟩
        · rw [List.append_assoc]
          rfl
        · rw [hp, Text.byteLength_append, Nat.add_assoc]
        · exact .cons (hcut.short hbad).next (readToken_retitled hread title) (hwrites title)
      · cases h

end Template

namespace Compiler

/--
**A malformed template is so at the first bad place**: a character of it at which a brace, a
placeholder or a word starts. The template in front of this character is translated.
-/
theorem malformed_at_first_fault (c : Compiler) {mode : Mode} (hm : mode.isCancelled = false)
    (hsync : c.hooks.AllSync) {kind : ClauseKind} {template text : String} {arguments : List Value}
    {schema : Option Schema} {s s' : Scope} {position : Nat} {fault : TemplateFault}
    (h : c.translate mode (.template kind template arguments schema) s
      = .error (.malformedTemplate text position fault) s') :
    text = template ∧ ∃ before bad after, template.toList = before ++ bad :: after ∧
      Text.byteLength before = position ∧ Template.isLead bad = true ∧
      ∃ clause s'', c.translate mode (.template kind (String.ofList before) arguments schema) s
        = .ok clause s'' := by
  let b : Binder := c.binder mode (.template kind template arguments schema)
  let input (title : String) : Template.Input := ⟨title, arguments, schema, c.config.aliasReserved⟩
  have hcompleted : Draft.complete mode (c.draft b (.template kind template arguments schema)) s
      = .error (.malformedTemplate text position fault) s' := h
  have hmade : Template.readFrom b (input template) .start 0 template.toList (.on s)
      = .error (.malformedTemplate text position fault) := by
    cases hd : c.draft b (.template kind template arguments schema) (.on s) with
    | error e =>
      rw [Draft.complete_unmade hd] at hcompleted
      cases hcompleted
      exact hd
    | ok r =>
      -- What has been made is completed, so the error is one of the making.
      obtain ⟨values, hvalues⟩ := resolve_of_allSync hm hd hsync
      rw [Draft.complete_made hd, hvalues] at hcompleted
      cases hcompleted
  obtain ⟨htext, before, bad, after, hsplit, hp, hbad, out, d, hwrites⟩ :=
    Template.readFrom_malformed 0 template.toList hmade
  have hbefore : c.draft (c.binder mode (.template kind (String.ofList before) arguments schema))
      (.template kind (String.ofList before) arguments schema) (.on s) = .ok (out, d) := by
    have hread := hwrites (String.ofList before) 0
    have hlist : (String.ofList before).toList = before := String.toList_ofList
    change Template.readFrom b (input (String.ofList before)) .start 0 (String.ofList before).toList
      (.on s) = _
    rw [hlist]
    exact hread
  obtain ⟨values, hvalues⟩ := resolve_of_allSync hm hbefore hsync
  have hp : Text.byteLength before = position := by omega
  exact ⟨htext, before, bad, after, hsplit, hp, hbad, _, _,
    Draft.complete_iff.mpr ⟨out, d, values, hbefore, hvalues, rfl, rfl⟩⟩

/-- A word that is no function is called behind a slot and a letter of two bytes. -/
def unknownCall : String := "é = \x7b0\x7d OR f (x)"

theorem unknown_call_malformed :
    let c : Compiler := ⟨.standard, .empty⟩
    let source (template : String) : Source := .template .filter template [.integer 18] none
    c.translate .sync (source unknownCall) c.scope
      = .error (.malformedTemplate unknownCall 12 (.unknownFunction "f")) c.scope ∧
    ∃ before bad after, unknownCall.toList = before ++ bad :: after ∧ Text.byteLength before = 12 ∧
      Template.isLead bad = true ∧
      ∃ clause s', c.translate .sync (source (String.ofList before)) c.scope = .ok clause s' := by
  intro c source
  have h : c.translate .sync (source unknownCall) c.scope
      = .error (.malformedTemplate unknownCall 12 (.unknownFunction "f")) c.scope := by
    decide +kernel
  have hsync : c.hooks.AllSync := by
    intro id hook course h
    cases h
  exact ⟨h, (malformed_at_first_fault c rfl hsync h).2⟩

end Compiler

end Clauses
