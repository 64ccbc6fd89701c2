import Clauses.Proofs.Drafting
import Clauses.Proofs.Streaming

/-!
# Reading a template piece by piece

A template is read from left to right, and what a piece of it is written out to depends on what was
read before only by little: by the subject, by the function whose argument comes next, and by the
draft. A passage says what a piece is written out to, and what is known behind it.

* `Template.Writes` — what the rest of a template is written out to
* `Template.Passage` — what a piece of a template is written out to, whatever follows it
-/

namespace Clauses.Template

section

variable (b : Binder) (input : Input)

/-- Reads what is left of a template, from a position on. -/
def readFrom (ctx : Context) (position : Nat) (s : List Char) : Drafting (List Char) := do
  let lexed := lexFrom position s
  let text ← readTokens b input ctx lexed.tokens
  match lexed.fault with
  | none => return text
  | some (position, fault) => throw (input.malformed position fault)

theorem translate_eq_readFrom :
    translate b input = readFrom b input .start 0 input.template.toList := rfl

/-- The rest of a template is written out to this, wherever it stands. -/
def Writes (ctx : Context) (d : Draft) (s out : List Char) (d' : Draft) : Prop :=
  ∀ position, readFrom b input ctx position s d = .ok (out, d')

end

variable {b : Binder} {input : Input}

theorem lexFrom_cons {c : Char} {s rest : List Char} {token : Token} (position : Nat)
    (h : next c s = .ok (token, rest)) :
    ∃ position', lexFrom position (c :: s)
      = ⟨⟨position, token⟩ :: (lexFrom position' rest).tokens, (lexFrom position' rest).fault⟩ := by
  rw [lexFrom]
  split
  · next h' =>
    rw [h] at h'
    cases h'
  · next h' =>
    rw [h] at h'
    cases h'
    exact ⟨_, rfl⟩

/--
All that is behind tokens that have been read: the first of them, and then the others on the same
scope.
-/
theorem readTokens_cons_ok {ctx : Context} {p : Placed} {rest : List Placed}
    {d d' : Draft} {out : List Char} (h : readTokens b input ctx (p :: rest) d = .ok (out, d')) :
    ∃ text ctx₁ d₁ out', readToken b input ctx p d = .ok ((text, ctx₁), d₁) ∧
      readTokens b input ctx₁ rest d₁ = .ok (out', d') ∧ d₁.scope = d.scope ∧
      out = text ++ out' := by
  obtain ⟨⟨text, ctx₁⟩, d₁, hfirst, h₁⟩ := Drafting.bind_ok.mp h
  obtain ⟨out', d₂, hrest, h₂⟩ := Drafting.bind_ok.mp h₁
  obtain ⟨rfl, rfl⟩ := Drafting.pure_ok.mp h₂
  have hscope := (Drafting.Minting.compatible.readToken b.minting input ctx p hfirst).scope_eq
  exact ⟨text, ctx₁, d₁, out', hfirst, hrest, hscope, rfl⟩

theorem Writes.nil (ctx : Context) (d : Draft) : Writes b input ctx d [] [] d := by
  intro position
  rw [readFrom, lexFrom]
  rfl

/-- One token, in front of the rest. -/
theorem Writes.cons {ctx ctx' : Context} {d d₁ d' : Draft} {c : Char} {s rest out out' : List Char}
    {token : Token} (hn : next c s = .ok (token, rest))
    (ht : ∀ position, readToken b input ctx ⟨position, token⟩ d = .ok ((out, ctx'), d₁))
    (h : Writes b input ctx' d₁ rest out' d') :
    Writes b input ctx d (c :: s) (out ++ out') d' := by
  intro position
  obtain ⟨position', hl⟩ := lexFrom_cons position hn
  obtain ⟨text, d₂, htext, hend⟩ := Drafting.bind_ok.mp (h position')
  -- The fault at the end, if any, is that of the rest.
  have hread : readTokens b input ctx (lexFrom position (c :: s)).tokens d
      = .ok (out ++ text, d₂) := by
    rw [hl]
    exact Drafting.bind_ok.mpr ⟨_, d₁, ht position, Drafting.bind_ok.mpr ⟨text, d₂, htext, rfl⟩⟩
  refine Drafting.bind_ok.mpr ⟨_, d₂, hread, ?_⟩
  rw [hl]
  cases hf : (lexFrom position' rest).fault with
  | none =>
    simp only [hf] at hend ⊢
    obtain ⟨rfl, rfl⟩ := Drafting.pure_ok.mp hend
    rfl
  | some fault =>
    simp only [hf] at hend
    exact absurd hend Drafting.throw_ok

/-! ## Passages -/

/-- What is known when a piece of a template has been read. -/
structure Reading where
  subject : Option Subject
  /-- The function whose first argument comes next. -/
  function : Option Builtin
  draft : Draft

/-- A context in which this is known, not within a path. -/
structure Reading.Fits (x : Reading) (ctx : Context) : Prop where
  subject : ctx.subject = x.subject
  function : ctx.function = x.function
  afterDot : ctx.afterDot = false

/-- The piece is written out to this in front of everything that is admitted. -/
def Passage (b : Binder) (input : Input) (admits : List Char → Prop) (text out : List Char)
    (x y : Reading) : Prop :=
  ∀ ctx, x.Fits ctx → ∀ rest, admits rest → ∃ ctx', y.Fits ctx' ∧
    ∀ out' d', Writes b input ctx' y.draft rest out' d' →
      Writes b input ctx x.draft (text ++ rest) (out ++ out') d'

/-- Everything may follow. -/
def Anything (_ : List Char) : Prop := True

variable {admits admits' : List Char → Prop} {text text' out out' : List Char} {x y z : Reading}

theorem Passage.append (h : Passage b input admits text out x y)
    (h' : Passage b input admits' text' out' y z)
    (ha : ∀ rest, admits' rest → admits (text' ++ rest)) :
    Passage b input admits' (text ++ text') (out ++ out') x z := by
  intro ctx hx rest hr
  obtain ⟨ctx₁, hy, hwrites⟩ := h ctx hx (text' ++ rest) (ha rest hr)
  obtain ⟨ctx₂, hz, hwrites'⟩ := h' ctx₁ hy rest hr
  refine ⟨ctx₂, hz, fun out₁ d' hw => ?_⟩
  rw [List.append_assoc, List.append_assoc]
  exact hwrites _ _ (hwrites' out₁ d' hw)

/-- What may be followed by everything. -/
theorem Passage.then (h : Passage b input Anything text out x y)
    (h' : Passage b input admits' text' out' y z) :
    Passage b input admits' (text ++ text') (out ++ out') x z :=
  h.append h' fun _ _ => trivial

theorem Passage.weaken (h : Passage b input admits text out x y)
    (ha : ∀ rest, admits' rest → admits rest) : Passage b input admits' text out x y :=
  fun ctx hx rest hr => h ctx hx rest (ha rest hr)

/-! ### Marks and blanks -/

/-- A mark of the expression language. -/
def isMark (c : Char) : Bool := ['(', ')', ',', '=', '<', '>'].contains c

theorem Passage.mark {c : Char} (hc : isMark c = true) (x : Reading) :
    Passage b input Anything [c] [c] x x := by
  intro ctx hx rest _
  have hm : c = '(' ∨ c = ')' ∨ c = ',' ∨ c = '=' ∨ c = '<' ∨ c = '>' := by
    simpa [isMark] using hc
  have hn : next c rest = .ok (.mark c, rest) := by
    rcases hm with rfl | rfl | rfl | rfl | rfl | rfl <;> rfl
  have hdot : (c == '.') = false ∧ (c == '[') = false := by
    rcases hm with rfl | rfl | rfl | rfl | rfl | rfl <;> decide
  -- None of the marks leads into a path, so the subject stays what it is.
  refine ⟨ctx.pass c, ⟨?_, hx.function, hdot.1⟩, fun out' d' hw => ?_⟩
  · simp only [Context.pass, hdot.1, hdot.2, Bool.or_self, Bool.and_false, Bool.false_eq_true,
      if_false]
    exact hx.subject
  · exact Writes.cons hn (fun _ => rfl) hw

theorem Passage.blank (x : Reading) : Passage b input Anything [' '] [' '] x x := by
  intro ctx hx rest _
  have hn : next ' ' rest = .ok (.blank ' ', rest) := rfl
  exact ⟨ctx, hx, fun out' d' hw => Writes.cons hn (fun _ => rfl) hw⟩

/-! ### Words -/

/-- A word of a template, with its first character. -/
structure IsWord (c : Char) (w : List Char) : Prop where
  first : Text.isWordStart c = true
  rest : w.all Text.isWordChar = true

theorem takeWhile_word {w rest : List Char} (hw : ∀ d ∈ w, Text.isWordChar d = true)
    (hr : Text.Boundary rest) :
    (w ++ rest).takeWhile Text.isWordChar = w ∧ (w ++ rest).dropWhile Text.isWordChar = rest := by
  have hrest : rest.takeWhile Text.isWordChar = [] ∧ rest.dropWhile Text.isWordChar = rest := by
    cases rest with
    | nil => exact ⟨rfl, rfl⟩
    | cons c rest =>
      have hc : ¬Text.isWordChar c = true := by simp [hr c rfl]
      rw [List.takeWhile_cons_of_neg hc, List.dropWhile_cons_of_neg hc]
      exact ⟨rfl, rfl⟩
  rw [List.takeWhile_append_of_pos hw, List.dropWhile_append_of_pos hw, hrest.1, hrest.2,
    List.append_nil]
  exact ⟨rfl, rfl⟩

theorem next_word {c : Char} {w rest : List Char} (hw : IsWord c w) (hr : Text.Boundary rest) :
    next c (w ++ rest)
      = .ok (.word (c :: w) (Text.firstVisible? rest == some '('), rest) := by
  have hne : ∀ d : Char, Text.isWordStart d = false → ¬(c == d) = true := by
    intro d hd he
    have hfirst := hw.first
    rw [beq_iff_eq.mp he, hd] at hfirst
    exact absurd hfirst Bool.false_ne_true
  obtain ⟨htake, hdrop⟩ := takeWhile_word (List.all_eq_true.mp hw.rest) hr
  unfold next
  rw [if_neg (hne _ (by decide)), if_neg (hne _ (by decide)), if_neg (hne _ (by decide)),
    if_neg (hne _ (by decide)), if_pos hw.first, nextWord]
  simp only [htake, hdrop]

/-- A word of the grammar stays, and changes nothing that is known. -/
theorem Passage.keyword {c : Char} {w : List Char} (hw : IsWord c w)
    (hk : isKeyword (c :: w) = true) (x : Reading) :
    Passage b input Text.Boundary (c :: w) (c :: w) x x := by
  intro ctx hx rest hr
  refine ⟨{ ctx with isOpen := false }, ⟨hx.subject, hx.function, hx.afterDot⟩, fun out' d' h => ?_⟩
  refine Writes.cons (next_word hw hr) (fun position => ?_) h
  simp only [readToken, readWord, hx.afterDot, hk]
  rfl

/-- The name of a function stays; its first argument comes next. -/
theorem Passage.function (f : Builtin) (x : Reading) :
    Passage b input (fun rest => rest.head? = some '(') f.name.toList f.name.toList x
      { x with function := some f } := by
  intro ctx hx rest hr
  obtain ⟨rest, rfl⟩ : ∃ s, rest = '(' :: s := by
    cases rest with
    | nil => cases hr
    | cons c s => exact ⟨s, by rw [Option.some.inj hr]⟩
  obtain ⟨c, w, hname, hw, hk⟩ : ∃ c w, f.name.toList = c :: w ∧ IsWord c w ∧
      isKeyword (c :: w) = false := by
    cases f <;> exact ⟨_, _, rfl, ⟨rfl, rfl⟩, by decide⟩
  have hf : Builtin.ofName? (c :: w) = some f := by
    rw [← hname]
    cases f <;> decide
  refine ⟨{ ctx.closeSubject with function := some f }, ⟨hx.subject, rfl, rfl⟩, fun out' d' h => ?_⟩
  rw [hname]
  refine Writes.cons (next_word hw (Text.Boundary.cons (by decide) rest)) (fun position => ?_) h
  have hcalled : (Text.firstVisible? ('(' :: rest) == some '(') = true := rfl
  simp only [readToken, readWord, hx.afterDot, hk, hcalled, hf]
  rfl

/-! ### Texts of the expression language -/

/-- Marks and blanks stay. -/
theorem Passage.marks {t : List Char}
    (ht : t.all (fun c => isMark c || c == ' ') = true) (x : Reading) :
    Passage b input Anything t t x x := by
  induction t with
  | nil => exact fun ctx hx rest _ => ⟨ctx, hx, fun _ _ h => h⟩
  | cons c t ih =>
    rw [List.all_cons, Bool.and_eq_true, Bool.or_eq_true, beq_iff_eq] at ht
    obtain ⟨hc, ht⟩ := ht
    have hfirst : Passage b input Anything [c] [c] x x := by
      rcases hc with hc | rfl
      · exact .mark hc x
      · exact .blank x
    exact hfirst.then (ih ht)

theorem Passage.spaced_keyword {word : String} {c : Char} {w : List Char}
    (he : word.toList = c :: w) (hw : IsWord c w) (hk : isKeyword (c :: w) = true) (x : Reading) :
    Passage b input Anything (spaced word) (spaced word) x x := by
  have hword : Passage b input Anything (word.toList ++ [' ']) (word.toList ++ [' ']) x x := by
    rw [he]
    exact (Passage.keyword hw hk x).append (.blank x) fun rest _ => .cons (by decide) rest
  exact (Passage.blank x).then hword

theorem Passage.operator {op : Operator} (hb : op ≠ .beginsWith) (hc : op ≠ .contains)
    (x : Reading) : Passage b input Anything (spaced op.text) (spaced op.text) x x := by
  cases op with
  | beginsWith => exact absurd rfl hb
  | contains => exact absurd rfl hc
  | between | among => exact .spaced_keyword rfl ⟨rfl, rfl⟩ (by decide) x
  | _ => exact .marks rfl x

theorem Passage.connective (c : Connective) (x : Reading) :
    Passage b input Anything (spaced c.text) (spaced c.text) x x := by
  cases c <;> exact .spaced_keyword rfl ⟨rfl, rfl⟩ (by decide) x

theorem Passage.negation (x : Reading) :
    Passage b input Anything "NOT ".toList "NOT ".toList x x := by
  have hw : IsWord 'N' ['O', 'T'] := ⟨rfl, rfl⟩
  exact (Passage.keyword hw (by decide) x).append (.blank x) fun rest _ => .cons (by decide) rest

/-- What is in brackets may be followed by everything. -/
theorem Passage.bracketed (h : Passage b input admits text out x y)
    (ha : ∀ rest, admits (')' :: rest)) :
    Passage b input Anything (bracketed text) (bracketed out) x y := by
  have hin : Passage b input Anything (text ++ [')']) (out ++ [')']) x y :=
    h.append (.mark (by decide) y) fun rest _ => ha rest
  exact (Passage.mark (c := '(') (by decide) x).then hin

/-- A function with its arguments in brackets. -/
theorem Passage.call (f : Builtin)
    (h : Passage b input admits text out { x with function := some f } y)
    (ha : ∀ rest, admits (')' :: rest)) :
    Passage b input Anything (f.name.toList ++ Clauses.bracketed text)
      (f.name.toList ++ Clauses.bracketed out) x y :=
  (Passage.function f x).append (h.bracketed ha) fun _ _ => rfl

/-! ### Attributes -/

/-- The attribute has to stand behind a placeholder. -/
def needsAlias (aliasReserved : Bool) (a : String) : Bool := aliasReserved && isReserved a.toList

/-- The draft when the attribute has been written out, with a placeholder if it needs one. -/
def Input.mention (input : Input) (a : String) (d : Draft) : Draft :=
  if needsAlias input.aliasReserved a then { d with names := d.names ++ [(d.nextName, a)] } else d

/-- The attribute as it is written out. -/
def Input.spelling (input : Input) (a : String) (d : Draft) : String :=
  if needsAlias input.aliasReserved a then d.nextName else a

/-- An attribute has become the subject. -/
def Reading.about (x : Reading) (input : Input) (a : String) : Reading where
  subject := some ⟨a, x.function == some .size || x.function == some .attributeType⟩
  function := none
  draft := input.mention a x.draft

/-- What ends a word and does not make it a function. -/
def NoCall (rest : List Char) : Prop :=
  Text.Boundary rest ∧ (Text.firstVisible? rest == some '(') = false

theorem Passage.attribute {a : String} (ha : Config.isWord a = true)
    (hk : isKeyword a.toList = false) (x : Reading) :
    Passage b input NoCall a.toList (input.spelling a x.draft).toList x (x.about input a) := by
  intro ctx hx rest hr
  obtain ⟨c, w, hname, hw⟩ : ∃ c w, a.toList = c :: w ∧ IsWord c w := by
    unfold Config.isWord at ha
    split at ha
    · cases ha
    · next c w hname =>
      rw [Bool.and_eq_true] at ha
      exact ⟨c, w, hname, ha.1, ha.2⟩
  have hof : String.ofList (c :: w) = a := by rw [← hname, String.ofList_toList]
  rw [hname] at hk ⊢
  have hopen : (x.about input a).Fits { ctx.openSubject a with afterDot := false } := by
    refine ⟨?_, rfl, rfl⟩
    simp only [Context.openSubject, hx.function]
    rfl
  refine ⟨_, hopen, fun out' d' h => ?_⟩
  refine Writes.cons (next_word hw hr.1) (fun position => ?_) h
  simp only [readToken, readWord, hx.afterDot, hk, hr.2, readAttribute, hof]
  by_cases hr : needsAlias input.aliasReserved a = true
  · have hr' : (input.aliasReserved && isReserved (c :: w)) = true := by rwa [← hname]
    simp only [Reading.about, Input.mention, Input.spelling, hr, hr', if_true]
    rfl
  · have hr' : ¬(input.aliasReserved && isReserved (c :: w)) = true := by rwa [← hname]
    simp only [Reading.about, Input.mention, Input.spelling, hr, hr', Bool.false_eq_true, if_false,
      hname]
    rfl

/-! ### Slots -/

/-- A slot. -/
def slotText (n : Nat) : String := String.ofList ('\x7b' :: Nat.toDigits 10 n ++ ['\x7d'])

theorem next_slot {n : Nat} (hn : n ≤ maxSlot) (rest : List Char) :
    next '\x7b' (Nat.toDigits 10 n ++ '\x7d' :: rest) = .ok (.slot n none, rest) := by
  have hd : ∀ c ∈ Nat.toDigits 10 n, c.isDigit = true :=
    fun c hc => Nat.isDigit_of_mem_toDigits (by decide) (by decide) hc
  have htake : (Nat.toDigits 10 n ++ '\x7d' :: rest).takeWhile Char.isDigit
      = Nat.toDigits 10 n := by
    rw [List.takeWhile_append_of_pos hd, List.takeWhile_cons_of_neg (by decide), List.append_nil]
  have hdrop : (Nat.toDigits 10 n ++ '\x7d' :: rest).dropWhile Char.isDigit = '\x7d' :: rest := by
    rw [List.dropWhile_append_of_pos hd, List.dropWhile_cons_of_neg (by decide)]
  have hvalue : Text.digitsValue (Nat.toDigits 10 n) = n := Nat.ofDigitChars_ten_toDigits
  have hslot : nextSlot (Nat.toDigits 10 n ++ '\x7d' :: rest) = .ok (.slot n none, rest) := by
    rw [nextSlot, htake, hdrop, slotEnd, if_pos (by decide), slotOf,
      if_neg (by simp [Nat.toDigits_ne_nil]), hvalue, if_neg (by omega)]
    rfl
  unfold next
  rw [if_pos (by decide)]
  split
  · next rest' he =>
    obtain ⟨c, w, hw⟩ := List.exists_cons_of_ne_nil (Nat.toDigits_ne_nil (n := n) (b := 10))
    rw [hw, List.cons_append] at he
    cases he
    exact absurd (hd '\x7b' (by rw [hw]; exact List.mem_cons_self)) (by decide)
  · exact hslot

/-- A slot is written out to the placeholder of its argument. -/
theorem Passage.slot {n : Nat} (hn : n ≤ maxSlot) {v : Value} (hv : input.arguments[n]? = some v)
    {x : Reading} {q : Property} {token : String} {d' : Draft}
    (hq : ∀ ctx, x.Fits ctx → slotProperty input.schema ctx n none = q)
    (hb : b.value v q x.draft = .ok (token, d')) :
    Passage b input Anything (slotText n).toList token.toList x { x with draft := d' } := by
  intro ctx hx rest _
  refine ⟨ctx.closeSubject, ⟨hx.subject, hx.function, rfl⟩, fun out' d'' h => ?_⟩
  rw [slotText, String.toList_ofList, List.append_assoc, List.singleton_append]
  refine Writes.cons (next_slot hn rest) (fun position => ?_) h
  simp only [readToken, readSlot, hv]
  refine Drafting.bind_ok.mpr ⟨token, d', ?_, rfl⟩
  rw [hq ctx hx]
  exact hb


end Clauses.Template
