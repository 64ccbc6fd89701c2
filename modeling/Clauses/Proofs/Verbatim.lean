import Clauses.Proofs.Placeholders

/-!
# Texts that are read as they stand

A text without slots in which every placeholder has been minted and every word belongs to the
language is no different as a template: it is written out as it stands, and nothing is minted for
it. What keeps a text from being so is a token that asks for something else, a stray.

* `Template.strays` — the strays of a text
* `Template.translate_verbatim` — a text without strays is written out as it stands
* `Template.Stands` — a text that adds no strays, in front of everything that ends its last word
-/

namespace Clauses.Template

/-! ## Strays -/

/-- The token is written out as it stands, unless a path goes on with it. -/
def Token.isSettled (s : Scope) : Token → Bool
  | .brace _ | .slot _ _ => false
  | .placeholder sigil w => s.contains (String.ofList (sigil.char :: w))
  | .word w called => isKeyword w || called && (Builtin.ofName? w).isSome
  | .blank _ => true
  | .mark c => c != '.'

/--
The tokens of a text that are not written out as they stand, and a mark of its fault if it has one.
-/
def strays (s : Scope) (text : List Char) : List (Option Token) :=
  (((lexFrom 0 text).tokens.map Placed.token).filter fun token => !token.isSettled s).map some ++
    (lexFrom 0 text).fault.toList.map fun _ => none

/-- It does not matter to the tokens of a text where it stands. -/
theorem lexFrom_moved (position : Nat) (text : List Char) : ∀ position',
    (lexFrom position' text).tokens.map Placed.token
        = (lexFrom position text).tokens.map Placed.token ∧
      (lexFrom position' text).fault.isSome = (lexFrom position text).fault.isSome := by
  fun_induction lexFrom position text with
  | case1 => exact fun position' => by simp [lexFrom]
  | case2 position c s fault h =>
    intro position'
    rw [lexFrom]
    split
    · exact ⟨rfl, rfl⟩
    · next h' =>
      rw [h] at h'
      cases h'
  | case3 position c s token rest h hle lexed ih =>
    intro position'
    obtain ⟨position₁, hl⟩ := lexFrom_cons position' h
    rw [hl]
    exact ⟨congrArg (token :: ·) (ih position₁).1, (ih position₁).2⟩

theorem strays_nil (s : Scope) : strays s [] = [] := by simp [strays, lexFrom]

theorem strays_cons {s : Scope} {c : Char} {text rest : List Char} {token : Token}
    (h : next c text = .ok (token, rest)) (hs : token.isSettled s = true) :
    strays s (c :: text) = strays s rest := by
  obtain ⟨position, hl⟩ := lexFrom_cons 0 h
  obtain ⟨htokens, hfault⟩ := lexFrom_moved 0 rest position
  simp only [strays, hl, List.map_cons, htokens]
  rw [List.filter_cons_of_neg (by simp [hs])]
  congr 1
  cases h₁ : (lexFrom position rest).fault <;> cases h₂ : (lexFrom 0 rest).fault <;>
    simp_all

/-! ## Texts without strays -/

/-- What has no strays is cut into tokens that are all written out as they stand. -/
theorem settled_of_strays {s : Scope} {text : List Char} (h : strays s text = []) :
    (∀ p ∈ (lexFrom 0 text).tokens, p.token.isSettled s = true) ∧
    (lexFrom 0 text).fault = none := by
  obtain ⟨htokens, hfault⟩ := List.append_eq_nil_iff.mp h
  refine ⟨fun p hp => ?_, ?_⟩
  · have hnone := List.filter_eq_nil_iff.mp (List.map_eq_nil_iff.mp htokens) p.token
      (List.mem_map_of_mem hp)
    simpa using hnone
  · simpa using hfault

theorem slotsApart_of_settled {s : Scope} {tokens : List Placed}
    (h : ∀ p ∈ tokens, p.token.isSettled s = true) : SlotsApart tokens := by
  induction tokens with
  | nil => exact .nil
  | cons p tokens ih =>
    obtain ⟨hp, h⟩ := List.forall_mem_cons.mp h
    refine (ih h).cons fun q _ hslot => ?_
    -- A slot is never settled.
    obtain ⟨position, token⟩ := p
    cases token with
    | slot index format => cases hp
    | _ => cases hslot

variable {b : Binder} {input : Input} {d : Draft}

theorem readPlaceholder_settled (sigil : Sigil) {w : List Char} (ctx : Context)
    (hs : d.scope.contains (String.ofList (sigil.char :: w)) = true) :
    ∃ ctx', readPlaceholder ctx sigil w d = .ok ((sigil.char :: w, ctx'), d) ∧
      ctx'.afterDot = false := by
  unfold readPlaceholder
  have htoken : (String.ofList (sigil.char :: w)).toList = sigil.char :: w := String.toList_ofList
  generalize String.ofList (sigil.char :: w) = token at hs htoken ⊢
  rw [← htoken]
  have hreuse : Draft.reuse token d = .ok (token, d) :=
    if_pos (by rw [Draft.contains, hs]; rfl)
  by_cases hname : sigil = .name ∧ (!ctx.afterDot) = true
  · -- The attribute becomes the subject, if there is one.
    cases ha : d.attribute? token with
    | some a =>
      refine ⟨{ ctx.openSubject a with afterDot := false }, ?_, rfl⟩
      refine Drafting.bind_ok.mpr ⟨_, d, hreuse, ?_⟩
      rw [if_pos hname]
      exact Drafting.bind_ok.mpr ⟨d, d, rfl, by rw [ha]; rfl⟩
    | none =>
      refine ⟨{ ctx with subject := none, afterDot := false }, ?_, rfl⟩
      refine Drafting.bind_ok.mpr ⟨_, d, hreuse, ?_⟩
      rw [if_pos hname]
      exact Drafting.bind_ok.mpr ⟨d, d, rfl, by rw [ha]; rfl⟩
  · refine ⟨ctx.closeSubject, Drafting.bind_ok.mpr ⟨_, d, hreuse, ?_⟩, rfl⟩
    rw [if_neg hname]
    rfl

theorem readWord_settled {w : List Char} {called : Bool} {ctx : Context} (position : Nat)
    (hs : (isKeyword w || called && (Builtin.ofName? w).isSome) = true)
    (hdot : ctx.afterDot = false) :
    ∃ ctx', readWord input ctx position w called d = .ok ((w, ctx'), d) ∧
    ctx'.afterDot = false := by
  cases hk : isKeyword w with
  | true =>
    refine ⟨{ ctx with isOpen := false }, ?_, hdot⟩
    rw [readWord, hk, hdot]
    rfl
  | false =>
    -- The word is no keyword, so it is a function that is called.
    rw [hk, Bool.false_or, Bool.and_eq_true, Option.isSome_iff_exists] at hs
    obtain ⟨rfl, f, hf⟩ := hs
    refine ⟨{ ctx.closeSubject with function := some f }, ?_, rfl⟩
    rw [readWord, hk, Bool.and_false, if_neg Bool.false_ne_true, if_pos rfl, hf]
    rfl

/-- A token that is settled is written out as it stands, and nothing is minted. -/
theorem readToken_settled {text rest : List Char} {token : Token} {ctx : Context} {position : Nat}
    (ht : Takes text token rest) (hs : token.isSettled d.scope = true)
    (hdot : ctx.afterDot = false) :
    ∃ out ctx', readToken b input ctx ⟨position, token⟩ d = .ok ((out, ctx'), d) ∧
      ctx'.afterDot = false ∧ text = out ++ rest := by
  cases ht with
  | brace => cases hs
  | slot => cases hs
  | @placeholder sigil w rest hne hw hr =>
    obtain ⟨ctx', hread, hdot'⟩ := readPlaceholder_settled sigil ctx hs
    exact ⟨_, ctx', hread, hdot', rfl⟩
  | @word c w rest hw hr =>
    obtain ⟨ctx', hread, hdot'⟩ := readWord_settled position hs hdot
    exact ⟨_, ctx', hread, hdot', rfl⟩
  | blank => exact ⟨_, ctx, rfl, hdot, rfl⟩
  | mark => exact ⟨_, _, rfl, by simpa [Token.isSettled, Context.pass] using hs, rfl⟩

/-- What is cut into settled tokens is written out as it stands. -/
theorem readTokens_settled {text : List Char} {lexed : Lexed} (hl : Spells text lexed) :
    ∀ {ctx : Context}, ctx.afterDot = false → lexed.fault = none →
      (∀ p ∈ lexed.tokens, p.token.isSettled d.scope = true) →
      readTokens b input ctx lexed.tokens d = .ok (text, d) := by
  induction hl with
  | nil => exact fun _ _ _ => rfl
  | fault text f => exact fun _ h _ => nomatch h
  | @cons text rest token lexed position ht hrest ih =>
    intro ctx hdot hfault hs
    obtain ⟨hs₁, hs⟩ := List.forall_mem_cons.mp hs
    obtain ⟨out, ctx', hread, hdot', rfl⟩ := readToken_settled ht hs₁ hdot
    exact Drafting.bind_ok.mpr ⟨_, d, hread,
      Drafting.bind_ok.mpr ⟨rest, d, ih hdot' hfault hs, rfl⟩⟩

/-- **A text without strays is written out as it stands**, and nothing is minted for it. -/
theorem translate_verbatim (h : strays d.scope input.template.toList = []) :
    Template.translate b input d = .ok (input.template.toList, d) := by
  obtain ⟨hs, hfault⟩ := settled_of_strays h
  refine Drafting.bind_ok.mpr ⟨_, d, readTokens_settled (spells_lexFrom 0 _) rfl hfault hs, ?_⟩
  have hnone : (lex input.template).fault = none := hfault
  simp only [hnone]
  rfl

/-! ## Pieces of texts -/

/-- The text adds no strays to what follows it, if that ends its last word. -/
abbrev Stands (s : Scope) (text : List Char) : Prop := Text.Gives (strays s) text []

/-- The text adds no strays to what follows it. -/
abbrev StandsAnywhere (s : Scope) (text : List Char) : Prop := Text.GivesAnywhere (strays s) text []

theorem Stands.strays {s : Scope} {text : List Char} (h : Stands s text) : strays s text = [] := by
  have hall := h [] .nil
  rwa [List.append_nil, strays_nil] at hall

variable {s : Scope} {text text' : List Char}

/-- The marks of the language, and the space. -/
def isLoose (c : Char) : Bool := ['(', ')', ',', '=', '<', '>', '+', '-', ' '].contains c

theorem standsAnywhere_loose {t : List Char} (ht : t.all isLoose = true) : StandsAnywhere s t := by
  induction t with
  | nil => exact fun rest => rfl
  | cons c t ih =>
    rw [List.all_cons, Bool.and_eq_true] at ht
    have hc : c = '(' ∨ c = ')' ∨ c = ',' ∨ c = '=' ∨ c = '<' ∨ c = '>' ∨ c = '+' ∨ c = '-' ∨
        c = ' ' := by
      simpa [isLoose] using ht.1
    have hfirst : StandsAnywhere s [c] := by
      intro rest
      rcases hc with rfl | rfl | rfl | rfl | rfl | rfl | rfl | rfl | rfl <;>
        exact strays_cons rfl rfl
    exact hfirst.append (ih ht.2)

theorem stands_keyword {c : Char} {w : List Char} (hw : IsWord c w)
    (hk : isKeyword (c :: w) = true) : Stands s (c :: w) := by
  intro rest hr
  exact strays_cons (next_word hw hr) (by simp [Token.isSettled, hk])

theorem next_placeholder {sigil : Sigil} {w rest : List Char} (hne : w ≠ [])
    (hw : ∀ c ∈ w, Text.isWordChar c = true) (hr : Text.Boundary rest) :
    next sigil.char (w ++ rest) = .ok (.placeholder sigil w, rest) := by
  obtain ⟨htake, hdrop⟩ := takeWhile_word hw hr
  have h : nextPlaceholder sigil (w ++ rest) = .ok (.placeholder sigil w, rest) := by
    simp only [nextPlaceholder, htake, hdrop]
    rw [if_neg (mt List.isEmpty_iff.mp hne)]
  cases sigil <;> exact h

/-- A placeholder that has been minted stands as it is. -/
theorem stands_placeholder {t : String} (ht : IsPlaceholder t) (hs : s.contains t = true) :
    Stands s t.toList := by
  obtain ⟨sigil, w, hsigil, hne, hw, he⟩ := ht.word
  obtain ⟨sigil, rfl⟩ : ∃ k : Sigil, sigil = k.char := by
    rcases hsigil with rfl | rfl
    · exact ⟨.name, rfl⟩
    · exact ⟨.value, rfl⟩
  intro rest hr
  rw [he]
  refine strays_cons (next_placeholder hne hw hr) ?_
  rwa [Token.isSettled, ← he, String.ofList_toList]

/-- The name of a function stands in front of its arguments. -/
theorem StandsAnywhere.call (f : Builtin) (h : Stands s text) :
    StandsAnywhere s (f.name.toList ++ bracketed text) := by
  have hin : StandsAnywhere s (bracketed text) :=
    Text.Gives.bracketed (standsAnywhere_loose rfl) h (standsAnywhere_loose rfl)
  obtain ⟨c, w, hname, hw⟩ : ∃ c w, f.name.toList = c :: w ∧ IsWord c w := by
    cases f <;> exact ⟨_, _, rfl, ⟨rfl, rfl⟩⟩
  intro rest
  have hf : (Builtin.ofName? (c :: w)).isSome = true := by
    rw [← hname]
    cases f <;> decide
  have hcalled : (Text.firstVisible? (bracketed text ++ rest) == some '(') = true := rfl
  rw [hname, List.append_assoc]
  refine (strays_cons (next_word hw (.cons (by decide) _)) ?_).trans (hin rest)
  change (isKeyword (c :: w) || (Text.firstVisible? (bracketed text ++ rest) == some '(') &&
    (Builtin.ofName? (c :: w)).isSome) = true
  rw [hcalled, hf]
  exact Bool.or_true _

theorem Stands.bracketed (h : Stands s text) : StandsAnywhere s (bracketed text) :=
  Text.Gives.bracketed (standsAnywhere_loose rfl) h (standsAnywhere_loose rfl)

theorem standsAnywhere_spaced {word : String} {c : Char} {w : List Char}
    (he : word.toList = c :: w) (hw : IsWord c w) (hk : isKeyword (c :: w) = true) :
    StandsAnywhere s (spaced word) := by
  have hword : StandsAnywhere s (word.toList ++ [' ']) := by
    rw [he]
    exact (stands_keyword hw hk).append (standsAnywhere_loose rfl) (by decide)
  exact (standsAnywhere_loose (t := [' ']) rfl).append hword

/-- Texts with something between them that ends their words. -/
theorem stands_intercalate {c : Char} {sep : List Char} (hsep : StandsAnywhere s (c :: sep))
    (hc : Text.isWordChar c = false) {texts : List (List Char)}
    (h : ∀ text ∈ texts, Stands s text) : Stands s ((c :: sep).intercalate texts) := by
  induction texts with
  | nil => exact fun rest _ => rfl
  | cons text texts ih =>
    obtain ⟨h₁, h⟩ := List.forall_mem_cons.mp h
    cases texts with
    | nil =>
      rw [List.intercalate_singleton]
      exact h₁
    | cons text' texts =>
      rw [List.intercalate_cons_cons]
      exact (h₁.append hsep hc).append_gives (ih h)

theorem stands_commas {texts : List (List Char)} (h : ∀ text ∈ texts, Stands s text) :
    Stands s (comma.intercalate texts) :=
  stands_intercalate (standsAnywhere_loose rfl) (by decide) h

end Clauses.Template
