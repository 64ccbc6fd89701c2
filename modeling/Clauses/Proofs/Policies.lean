import Clauses.Proofs.Acceptance
import Clauses.Proofs.Contexts
import Clauses.Proofs.Lexing
import Clauses.Proofs.Verbatim

/-!
# How the arguments of a template are bound

Where the attributes behind the name placeholders of a template are known to the scope, the draft
has no part in what is known in front of a slot. So the way in which each argument is bound is known
before anything is bound.

* `Binder.BindsTo` — what the argument of a slot is bound to
* `Template.IsKnown`, `Template.IsReadable` — what is asked of the placeholders and words of a
  template
* `Compiler.template_bindings` — a template that has been made binds its arguments in these ways
* `Compiler.template_made` — it can be made if they can be bound in these ways
-/

namespace Clauses

open Drafting

/--
The argument that a slot asks for is bound to this, in the way that goes with the slot, where so
many values have been bound before.
-/
def Binder.BindsTo (b : Binder) (arguments : List Value) (use : (Nat × Property) × Nat)
    (binding : Binding) : Prop :=
  ∃ v, arguments[use.1.1]? = some v ∧ b.binding use.2 v use.1.2 = .ok binding

/-- Slots that take some values, and the bindings of these values. -/
theorem Binder.bindsTo_of_fills {b : Binder} {arguments : List Value} {uses : List (Nat × Property)}
    {bound : List BoundValue} (hfills : List.Forall₂ (Template.Fills arguments) uses bound) :
    ∀ {n : Nat} {new : List (String × Binding)},
      List.Forall₂ (fun v e => b.binding v.2 v.1.1 v.1.2 = .ok e.2) (bound.zipIdx n) new →
      List.Forall₂ (b.BindsTo arguments) (uses.zipIdx n) (new.map Prod.snd) := by
  induction hfills with
  | nil =>
    intro n new h
    cases h
    exact .nil
  | cons hfirst _ ih =>
    intro n new h
    cases h with
    | cons hbind hrest =>
      refine .cons ⟨_, hfirst.1, ?_⟩ (ih hrest)
      rw [← hfirst.2]
      exact hbind

/-- The bindings with the placeholders that follow those of the scope. -/
def Scope.label (s : Scope) (bs : List Binding) : List (String × Binding) :=
  bs.mapIdx fun i b => (s.valueToken (s.valueCount + i), b)

theorem Scope.map_snd_label (s : Scope) (bs : List Binding) : (s.label bs).map Prod.snd = bs := by
  refine List.ext_getElem (by simp [label]) fun i _ _ => by simp [label]

theorem Scope.map_fst_label (s : Scope) (bs : List Binding) :
    (s.label bs).map Prod.fst = (List.range' s.valueCount bs.length).map s.valueToken := by
  refine List.ext_getElem (by simp [label]) fun i _ _ => by simp [label]

namespace Template

/-- A placeholder that becomes the subject stands for an attribute that the scope knows. -/
def IsKnown (s : Scope) : Context × Token → Prop
  | (ctx, .placeholder .name w) =>
    ctx.afterDot = false → (s.attribute? (String.ofList ('#' :: w))).isSome = true
  | _ => True

/-- If the token is no slot, it can be read. -/
def IsReadable (s : Scope) : Context × Token → Prop
  | (_, .placeholder sigil w) => s.contains (String.ofList (sigil.char :: w)) = true
  | (ctx, .word w true) =>
    ctx.afterDot = false ∧ isKeyword w = true ∨ (Builtin.ofName? w).isSome = true
  | _ => True

section

variable {attribute? : String → Option String} {schema : Option Schema} {ctx : Context}

/-- White space makes nothing known. -/
theorem Context.trace_visible (ts : List Token) :
    ctx.trace attribute? (ts.filter fun t => !t.isBlank)
      = (ctx.trace attribute? ts).filter fun x => !x.2.isBlank := by
  induction ts generalizing ctx with
  | nil => rfl
  | cons t ts ih =>
    rw [Context.trace]
    cases t with
    | blank c =>
      rw [List.filter_cons_of_neg (by simp [Token.isBlank]),
        List.filter_cons_of_neg (by simp [Token.isBlank])]
      exact ih
    | _ =>
      rw [List.filter_cons_of_pos (by simp [Token.isBlank]),
        List.filter_cons_of_pos (by simp [Token.isBlank])]
      exact congrArg (_ :: ·) ih

theorem policies_visible (ts : List Token) :
    policies attribute? schema ctx (ts.filter fun t => !t.isBlank)
      = policies attribute? schema ctx ts := by
  rw [policies, Context.trace_visible, List.filterMap_filter]
  refine List.filterMap_congr fun x _ => ?_
  obtain ⟨ctx, t⟩ := x
  cases t <;> rfl

/-- What is true of white space anyway is true of tokens if it is true of those that are visible. -/
theorem forall_trace_visible {P : Context × Token → Prop} (hP : ∀ ctx c, P (ctx, .blank c))
    {ts : List Token} (h : ∀ x ∈ ctx.trace attribute? (ts.filter fun t => !t.isBlank), P x) :
    ∀ x ∈ ctx.trace attribute? ts, P x := by
  rintro ⟨ctx', t⟩ hx
  cases ht : t.isBlank with
  | true =>
    cases t with
    | blank c => exact hP ctx' c
    | _ => cases ht
  | false =>
    refine h _ ?_
    rw [Context.trace_visible, List.mem_filter]
    exact ⟨hx, by simp [ht]⟩

end

/-! ## Reading -/

variable {b : Binder} {input : Input} {ctx ctx' : Context} {d d' : Draft} {out : List Char}

theorem attribute?_of_scope {t : String} (h : (d.scope.attribute? t).isSome = true) :
    d.attribute? t = d.scope.attribute? t := by
  rw [Draft.attribute?]
  cases ha : d.scope.attribute? t with
  | none =>
    rw [ha] at h
    cases h
  | some a => rfl

/-- What the scope knows, the draft has for it too, whatever has been minted. -/
theorem IsKnown.looksUp {x : Context × Token} (h : IsKnown d.scope x) :
    LooksUp d.scope.attribute? d.attribute? x := by
  obtain ⟨ctx, t⟩ := x
  cases t with
  | placeholder sigil w =>
    cases sigil with
    | name => exact fun hdot => (attribute?_of_scope (h hdot)).symm
    | value => trivial
  | _ => trivial

theorem readWord_of_readable {position : Nat} {w : List Char} {called : Bool}
    (hr : IsReadable d.scope (ctx, .word w called)) :
    ∃ out ctx' d', readWord input ctx position w called d = .ok ((out, ctx'), d') := by
  unfold readWord
  split
  · exact ⟨_, _, _, rfl⟩
  · next hkey =>
    split
    · next hcalled =>
      subst hcalled
      -- The word is no keyword here, so it is the name of a function.
      have hf : (Builtin.ofName? w).isSome = true := by
        rcases hr with ⟨hdot, hk⟩ | hf
        · exact absurd (by simp [hdot, hk]) hkey
        · exact hf
      obtain ⟨f, hf⟩ := Option.isSome_iff_exists.mp hf
      rw [hf]
      exact ⟨_, _, _, rfl⟩
    · unfold readAttribute
      dsimp only
      split
      · exact ⟨_, _, _, rfl⟩
      · exact ⟨_, _, _, rfl⟩

/-- A token that can be read is read, if the argument can be bound in the case of a slot. -/
theorem readToken_of_readable {p : Placed} (hr : IsReadable d.scope (ctx, p.token))
    (hb : ∀ use ∈ (policy? input.schema (ctx, p.token)).toList.zipIdx d.bindings.length,
      ∃ binding, b.BindsTo input.arguments use binding) :
    ∃ out ctx' d', readToken b input ctx p d = .ok ((out, ctx'), d') := by
  obtain ⟨position, token⟩ := p
  cases token with
  | brace c | blank c | mark c => exact ⟨_, _, _, rfl⟩
  | slot index format =>
    obtain ⟨binding, v, hv, hbind⟩ := hb _ List.mem_cons_self
    refine ⟨d.nextValue.toList, ctx.closeSubject,
      { d with bindings := d.bindings ++ [(d.nextValue, binding)] }, ?_⟩
    change readSlot b input ctx position index format d = _
    rw [readSlot, hv]
    exact bind_ok.mpr ⟨_, _, Binder.value_ok_iff.mpr ⟨binding, hbind, rfl, rfl⟩, rfl⟩
  | placeholder sigil w =>
    obtain ⟨ctx', hread, -⟩ := readPlaceholder_settled sigil ctx hr
    exact ⟨_, ctx', d, hread⟩
  | word w called => exact readWord_of_readable hr

/-- A slot binds one value, and no other token binds any. -/
theorem readToken_length {p : Placed} (h : readToken b input ctx p d = .ok ((out, ctx'), d')) :
    d'.bindings.length
      = d.bindings.length + (policy? input.schema (ctx, p.token)).toList.length := by
  obtain ⟨position, token⟩ := p
  cases token with
  | slot index format =>
    obtain ⟨v, t, -, hvalue, -⟩ := readSlot_ok h
    exact (b.value_binds _ _ hvalue).length_eq
  | brace c | blank c | mark c | placeholder sigil w | word w called =>
    exact (readToken_gains_none rfl h).length_eq

theorem IsReadable.isKnown {s : Scope} {x : Context × Token} (h : IsReadable s x) :
    IsKnown s x := by
  obtain ⟨ctx, t⟩ := x
  cases t with
  | placeholder sigil w =>
    cases sigil with
    | name =>
      intro _
      rcases Scope.contains_iff.mp h with ⟨-, a, ha⟩ | ⟨hhead, -⟩
      · exact Option.isSome_of_eq_some ha
      · rw [String.toList_ofList] at hhead
        cases hhead
    | value => trivial
  | _ => trivial

/-- Tokens that can be read are read, if the arguments of their slots can be bound in these ways. -/
theorem readTokens_of_readable : ∀ (tokens : List Placed) {ctx : Context} {d : Draft},
    (∀ x ∈ ctx.trace d.scope.attribute? (tokens.map Placed.token), IsReadable d.scope x) →
    (∀ use ∈ (policies d.scope.attribute? input.schema ctx
        (tokens.map Placed.token)).zipIdx d.bindings.length,
      ∃ binding, b.BindsTo input.arguments use binding) →
    ∃ out d', readTokens b input ctx tokens d = .ok (out, d')
  | [], ctx, d, _, _ => ⟨[], d, rfl⟩
  | p :: rest, ctx, d, hr, hb => by
    obtain ⟨hr₁, hr⟩ := List.forall_mem_cons.mp hr
    rw [List.map_cons, policies_cons, List.zipIdx_append, List.forall_mem_append] at hb
    obtain ⟨out, ctx', d₁, hfirst⟩ := readToken_of_readable hr₁ hb.1
    have hscope : d₁.scope = d.scope :=
      (Minting.compatible.readToken b.minting input ctx _ hfirst).scope_eq
    have hctx := (readToken_next hfirst).trans (Context.next_congr hr₁.isKnown.looksUp).symm
    have hb := hb.2
    rw [← readToken_length hfirst] at hb
    rw [← hctx, ← hscope] at hr hb
    obtain ⟨out', d', hrest⟩ := readTokens_of_readable rest hr hb
    exact ⟨out ++ out', d', bind_ok.mpr ⟨_, d₁, hfirst, bind_ok.mpr ⟨out', d', hrest, rfl⟩⟩⟩

end Template

/-! ## Translating -/

theorem Draft.Numbered.bindings_eq {d : Draft} (h : d.Numbered) :
    d.bindings = d.scope.label (d.bindings.map Prod.snd) := by
  refine List.ext_getElem (by simp [Scope.label]) fun i hi _ => ?_
  have hkey : d.bindings[i].1 = d.scope.valueToken (d.scope.valueCount + i) := by
    have hkeys := congrArg (·[i]?) h.bindings
    simpa [hi] using hkeys
  simp [Scope.label, ← hkey]

namespace Compiler

variable {c : Compiler} {mode : Mode} {kind : ClauseKind} {template : String}
    {arguments : List Value}
  {schema : Option Schema} {s s' : Scope}

/-- How the values of a template are bound. -/
def slotBinder (c : Compiler) (schema : Option Schema) : Binder :=
  ⟨c.codec, schema.map Schema.entity, false⟩

/-- What a template makes is read from its tokens, and it has no fault. -/
theorem draft_template_iff {b : Binder} {out : List Char} {d d' : Draft} :
    c.draft b (.template kind template arguments schema) d = .ok (out, d') ↔
      (Template.lex template).fault = none ∧
        Template.readTokens b ⟨template, arguments, schema, c.config.aliasReserved⟩ .start
          (Template.lex template).tokens d = .ok (out, d') := by
  constructor
  · intro h
    obtain ⟨text, d₁, hread, hend⟩ := bind_ok.mp h
    cases hfault : (Template.lex template).fault with
    | none =>
      simp only [hfault] at hend
      obtain ⟨rfl, rfl⟩ := pure_ok.mp hend
      exact ⟨rfl, hread⟩
    | some fault =>
      simp only [hfault] at hend
      exact absurd hend throw_ok
  · rintro ⟨hfault, hread⟩
    refine bind_ok.mpr ⟨out, d', hread, ?_⟩
    simp only [hfault]
    rfl

/-- A template is translated if it can be made and its bindings are resolved. -/
theorem template_ok_iff {clause : Clause} :
    c.translate mode (.template kind template arguments schema) s = .ok clause s' ↔ ∃ out d values,
      c.draft (c.slotBinder schema) (.template kind template arguments schema) (.on s)
        = .ok (out, d) ∧
      Draft.resolve mode d.bindings = .ok values ∧ clause = ⟨String.ofList out, d.names, values⟩ ∧
      s' = s.enter d.names values := by
  have hcomplete : c.translate mode (.template kind template arguments schema) s
      = Draft.complete mode (c.draft ⟨c.codec, schema.map Schema.entity, mode.isCancelled⟩
        (.template kind template arguments schema)) s := rfl
  rw [hcomplete, Draft.complete_iff]
  -- What is resolved has not been given up.
  constructor
  · rintro ⟨out, d, values, hd, hr, hrest⟩
    rw [(Draft.resolve_ok hr).1] at hd
    exact ⟨out, d, values, hd, hr, hrest⟩
  · rintro ⟨out, d, values, hd, hr, hrest⟩
    rw [(Draft.resolve_ok hr).1]
    exact ⟨out, d, values, hd, hr, hrest⟩

/-- The bindings of a template that has been made are those of its slots. -/
theorem template_bindings {out : List Char} {d : Draft}
    (hk : ∀ x ∈ Template.Context.start.trace s.attribute? (Template.tokensOf template),
      Template.IsKnown s x)
    (h : c.draft (c.slotBinder schema) (.template kind template arguments schema) (.on s)
      = .ok (out, d)) :
    ∃ bs, List.Forall₂ ((c.slotBinder schema).BindsTo arguments)
        (Template.policies s.attribute? schema .start (Template.tokensOf template)).zipIdx bs ∧
      d.bindings = s.label bs := by
  have hg := c.draft_minting _ _ h
  have hscope : d.scope = s := hg.scope_eq
  obtain ⟨bound, hfills, new, hnew, hbinds⟩ := draft_gains (.on s) h
  rw [← hscope] at hk
  have hpolicies := Template.Context.trace_congr fun x hx => (hk x hx).looksUp
  rw [Source.Binds, Template.policies, ← hpolicies, hscope] at hfills
  refine ⟨new.map Prod.snd, Binder.bindsTo_of_fills hfills hbinds, ?_⟩
  have hlabel := ((Draft.Numbered.on s).grows hg).bindings_eq
  rw [hscope, hnew] at hlabel
  rw [hnew]
  exact hlabel

/-- A template can be made if its tokens can be read and the arguments of its slots can be bound. -/
theorem template_made (hfault : (Template.lex template).fault = none)
    (hread : ∀ x ∈ Template.Context.start.trace s.attribute? (Template.tokensOf template),
      Template.IsReadable s x)
    (hbind : ∀ use ∈ (Template.policies s.attribute? schema .start
        (Template.tokensOf template)).zipIdx,
      ∃ binding, (c.slotBinder schema).BindsTo arguments use binding) :
    ∃ out d, c.draft (c.slotBinder schema) (.template kind template arguments schema) (.on s)
      = .ok (out, d) := by
  obtain ⟨out, d, hd⟩ : ∃ out d, Template.readTokens (c.slotBinder schema)
      ⟨template, arguments, schema, c.config.aliasReserved⟩ .start
      (Template.lex template).tokens (.on s)
        = .ok (out, d) :=
    Template.readTokens_of_readable _ hread hbind
  exact ⟨out, d, draft_template_iff.mpr ⟨hfault, hd⟩⟩

end Compiler

end Clauses
