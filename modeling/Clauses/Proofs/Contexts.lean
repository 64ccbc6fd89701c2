import Clauses.Proofs.Drafting

/-!
# What is known in a template

What has been read of a template, as far as it matters for the slots that follow, can be told from
its tokens and from the attributes behind its name placeholders. So the way in which each argument
is bound, the policy of its slot, can be told as well.

* `Template.Context.trace` — each token with what is known in front of it
* `Template.policies` — the slots with the ways in which their arguments are bound
* `Template.readToken_next` — what is known behind a token that has been read
-/

namespace Clauses.Template

open Drafting

/-! ## What is known -/

/-- The tokens of a template, wherever they stand. -/
def tokensOf (template : String) : List Token := (lex template).tokens.map Placed.token

/-- What is known behind a token, where name placeholders stand for these attributes. -/
def Context.next (attribute? : String → Option String) (ctx : Context) : Token → Context
  | .brace _ | .blank _ => ctx
  | .slot _ _ => ctx.closeSubject
  | .placeholder sigil w =>
    if sigil = .name ∧ !ctx.afterDot then
      match attribute? (String.ofList (sigil.char :: w)) with
      | some a => { ctx.openSubject a with afterDot := false }
      | none => { ctx with subject := none, afterDot := false }
    else ctx.closeSubject
  | .word w called =>
    if !ctx.afterDot && isKeyword w then { ctx with isOpen := false }
    else if called then { ctx.closeSubject with function := Builtin.ofName? w }
    else { (if ctx.afterDot then ctx else ctx.openSubject (String.ofList w))
      with afterDot := false }
  | .mark c => ctx.pass c

/-- Each token with what is known in front of it. -/
def Context.trace (attribute? : String → Option String) (ctx : Context) :
    List Token → List (Context × Token)
  | [] => []
  | t :: ts => (ctx, t) :: (ctx.next attribute? t).trace attribute? ts

/-- What is known behind tokens. -/
def Context.after (attribute? : String → Option String) (ctx : Context)
    (ts : List Token) : Context :=
  ts.foldl (Context.next attribute?) ctx

/-- The slot with the way in which its argument is bound; a token that is no slot has none. -/
def policy? (schema : Option Schema) : Context × Token → Option (Nat × Property)
  | (ctx, .slot index format) => some (index, slotProperty schema ctx index format)
  | _ => none

/-- The slots with the ways in which their arguments are bound. -/
def policies (attribute? : String → Option String) (schema : Option Schema) (ctx : Context)
    (ts : List Token) : List (Nat × Property) :=
  (ctx.trace attribute? ts).filterMap (policy? schema)

section

variable {attribute? : String → Option String} {schema : Option Schema} {ctx : Context}

theorem Context.trace_append (ts ts' : List Token) : ctx.trace attribute? (ts ++ ts')
    = ctx.trace attribute? ts ++ (ctx.after attribute? ts).trace attribute? ts' := by
  induction ts generalizing ctx with
  | nil => rfl
  | cons t ts ih => exact congrArg (_ :: ·) ih

theorem mem_of_mem_trace {x : Context × Token} : ∀ {ts : List Token} {ctx : Context},
    x ∈ ctx.trace attribute? ts → x.2 ∈ ts
  | _ :: _, _, h => by
    rcases List.mem_cons.mp h with rfl | h
    · exact List.mem_cons_self
    · exact List.mem_cons_of_mem _ (mem_of_mem_trace h)

/--
If the token is a name placeholder that becomes the subject, it stands for the same attribute.
-/
def LooksUp (attribute? attribute?' : String → Option String) : Context × Token → Prop
  | (ctx, .placeholder .name w) => ctx.afterDot = false →
    attribute? (String.ofList ('#' :: w)) = attribute?' (String.ofList ('#' :: w))
  | _ => True

theorem Context.next_congr {attribute?' : String → Option String} {t : Token}
    (h : LooksUp attribute? attribute?' (ctx, t)) :
    ctx.next attribute? t = ctx.next attribute?' t := by
  cases t with
  | placeholder sigil w =>
    cases sigil with
    | name =>
      dsimp only [Context.next]
      split
      · next hdot =>
        have hsame : attribute? (String.ofList (Sigil.name.char :: w))
          = attribute?' (String.ofList (Sigil.name.char :: w)) := h (by simpa using hdot.2)
        rw [hsame]
      · rfl
    | value => rfl
  | _ => rfl

theorem Context.trace_congr {attribute?' : String → Option String} {ts : List Token} :
    ∀ {ctx : Context}, (∀ x ∈ ctx.trace attribute? ts, LooksUp attribute? attribute?' x) →
      ctx.trace attribute? ts = ctx.trace attribute?' ts := by
  induction ts with
  | nil => exact fun _ => rfl
  | cons t ts ih =>
    intro ctx h
    obtain ⟨hfirst, hrest⟩ := List.forall_mem_cons.mp h
    rw [trace, trace, ih hrest, next_congr hfirst]

theorem policies_cons (t : Token) (ts : List Token) :
    policies attribute? schema ctx (t :: ts)
      = (policy? schema (ctx, t)).toList
        ++ policies attribute? schema (ctx.next attribute? t) ts := by
  rw [policies, Context.trace, List.filterMap_cons]
  cases policy? schema (ctx, t) <;> rfl

end

/-! ## Reading -/

variable {b : Binder} {input : Input} {ctx ctx' : Context} {d d' : Draft} {out : List Char}

theorem readPlaceholder_next {sigil : Sigil} {w : List Char}
    (h : readPlaceholder ctx sigil w d = .ok ((out, ctx'), d')) :
    ctx' = ctx.next d.attribute? (.placeholder sigil w) := by
  obtain ⟨t, d₁, hreuse, h₁⟩ := bind_ok.mp h
  obtain ⟨rfl, rfl, -⟩ := Draft.reuse_contains hreuse
  dsimp only [Context.next]
  split at h₁
  · next hname =>
    obtain ⟨d₂, d₃, hget, h₂⟩ := bind_ok.mp h₁
    obtain ⟨rfl, rfl⟩ := get_ok.mp hget
    rw [if_pos hname]
    cases ha : d₃.attribute? (String.ofList (sigil.char :: w)) <;> rw [ha] at h₂ <;>
    · obtain ⟨⟨⟩, -⟩ := pure_ok.mp h₂
      rfl
  · next hname =>
    rw [if_neg hname]
    obtain ⟨⟨⟩, -⟩ := pure_ok.mp h₁
    rfl

/--
The word is written out as it is: a keyword, a function that is called, or nothing that is replaced.
-/
def Input.Keeps (input : Input) (w : List Char) (called : Bool) : Prop :=
  isKeyword w = true ∨ (called = true ∧ (Builtin.ofName? w).isSome = true) ∨
    (input.aliasReserved && isReserved w) = false

/-- All that is behind a word: what is known behind it, and whether it stays. -/
theorem readWord_inv {position : Nat} {w : List Char} {called : Bool}
    (attribute? : String → Option String)
    (h : readWord input ctx position w called d = .ok ((out, ctx'), d')) :
    ctx' = ctx.next attribute? (.word w called) ∧
      ((out = w ∧ d' = d ∧ input.Keeps w called) ∨
        ∃ t, Draft.bindName (String.ofList w) d = .ok (t, d') ∧ out = t.toList ∧
          (input.aliasReserved && isReserved w) = true) := by
  unfold readWord at h
  dsimp only [Context.next]
  split at h
  · next hkey =>
    rw [if_pos hkey]
    obtain ⟨⟨⟩, rfl⟩ := pure_ok.mp h
    rw [Bool.and_eq_true] at hkey
    exact ⟨rfl, .inl ⟨rfl, rfl, .inl hkey.2⟩⟩
  · next hkey =>
    rw [if_neg hkey]
    split at h
    · next hcalled =>
      rw [if_pos hcalled]
      cases hf : Builtin.ofName? w with
      | none =>
        rw [hf] at h
        exact absurd h throw_ok
      | some f =>
        rw [hf] at h
        obtain ⟨⟨⟩, rfl⟩ := pure_ok.mp h
        exact ⟨rfl, .inl ⟨rfl, rfl, .inr (.inl ⟨hcalled, by rw [hf]; rfl⟩)⟩⟩
    · next hcalled =>
      rw [if_neg hcalled]
      unfold readAttribute at h
      dsimp only at h
      split at h
      · next hr =>
        obtain ⟨t, d₁, hname, h₁⟩ := bind_ok.mp h
        obtain ⟨⟨⟩, rfl⟩ := pure_ok.mp h₁
        exact ⟨rfl, .inr ⟨t, hname, rfl, hr⟩⟩
      · next hr =>
        obtain ⟨⟨⟩, rfl⟩ := pure_ok.mp h
        exact ⟨rfl, .inl ⟨rfl, rfl, .inr (.inr (Bool.not_eq_true _ ▸ hr))⟩⟩

/-- All that is behind a slot: its argument is bound. -/
theorem readSlot_ok {position index : Nat} {format : Option String}
    (h : readSlot b input ctx position index format d = .ok ((out, ctx'), d')) :
    ∃ v t, input.arguments[index]? = some v ∧
      b.value v (slotProperty input.schema ctx index format) d = .ok (t, d') ∧
      out = t.toList ∧ ctx' = ctx.closeSubject := by
  unfold readSlot at h
  cases hv : input.arguments[index]? with
  | none =>
    rw [hv] at h
    exact absurd h throw_ok
  | some v =>
    rw [hv] at h
    obtain ⟨t, d₁, ht, h₁⟩ := bind_ok.mp h
    obtain ⟨⟨⟩, rfl⟩ := pure_ok.mp h₁
    exact ⟨v, t, rfl, ht, rfl, rfl⟩

/-- What is known behind a token that has been read can be told from the token. -/
theorem readToken_next {p : Placed} (h : readToken b input ctx p d = .ok ((out, ctx'), d')) :
    ctx' = ctx.next d.attribute? p.token := by
  obtain ⟨position, token⟩ := p
  cases token with
  | brace c | blank c | mark c =>
    obtain ⟨⟨⟩, -⟩ := pure_ok.mp h
    rfl
  | slot index format =>
    obtain ⟨v, t, -, -, -, hctx⟩ := readSlot_ok h
    exact hctx
  | placeholder sigil w => exact readPlaceholder_next h
  | word w called => exact (readWord_inv _ h).1

end Clauses.Template
