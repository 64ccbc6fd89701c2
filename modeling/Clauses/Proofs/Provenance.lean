import Clauses.Proofs.BoundValues
import Clauses.Proofs.Contexts
import Clauses.Proofs.Placeholders

/-!
# The values of a clause

Which values a clause binds, and in the way of which property, can be read off what it is made from:
the operands in the order of the text, each with the property that it is compared with or that it
changes, and the arguments of the slots of a template, each in the way that what stands in front of
its slot tells. A translation binds these values and no others, in this order.

* `Source.Binds` — the values of a clause
* `Clause.attribute?` — what the name placeholders of a clause stand for, its own among them
* `Compiler.translate_binds` — a translation binds the values of the clause
-/

namespace Clauses

open Drafting

/-! ## Values that can be read off -/

/-- The slot takes this value: its argument, in the way that goes with the slot. -/
def Template.Fills (arguments : List Value) (use : Nat × Property) (bound : BoundValue) : Prop :=
  arguments[use.1]? = some bound.1 ∧ bound.2 = use.2

/--
The values that a clause binds, in the order in which it does. The name placeholders of a template
stand for these attributes.
-/
def Source.Binds (attribute? : String → Option String) : Source → List BoundValue → Prop
  | .predicate _ schema p, bound => bound = p.bound schema
  | .template _ text arguments schema, bound =>
    List.Forall₂ (Template.Fills arguments)
      (Template.policies attribute? schema .start (Template.tokensOf text)) bound
  | .update schema u, bound => bound = u.bound schema
  | .projection _ _, bound => bound = []

/-- The attribute behind a name placeholder of the scope, or of the clause that stands on it. -/
def Clause.attribute? (clause : Clause) (s : Scope) : String → Option String :=
  Draft.attribute? ⟨s, clause.names, []⟩

/-! ## Templates -/

/-- What a name placeholder stands for stays while more is minted. -/
theorem Draft.Grows.attribute?_eq {d d' : Draft} (h : d.Grows d') {t a : String}
    (ha : d.attribute? t = some a) : d'.attribute? t = some a := by
  obtain ⟨more, hmore⟩ := h.names_prefix
  rw [Draft.attribute?] at ha ⊢
  rw [h.scope_eq, ← hmore, List.find?_append]
  cases hs : d.scope.attribute? t with
  | some a' =>
    rw [hs] at ha
    exact ha
  | none =>
    rw [hs] at ha
    obtain ⟨e, he, rfl⟩ := Option.map_eq_some_iff.mp ha
    rw [he]
    rfl

/-- A name placeholder that has been minted stands for something. -/
theorem Draft.Numbered.exists_attribute {d : Draft} (h : d.Numbered) {w : List Char}
    (hc : d.contains (String.ofList ('#' :: w)) = true) :
    ∃ a, d.attribute? (String.ofList ('#' :: w)) = some a := by
  simp only [Draft.contains, Bool.or_eq_true] at hc
  have hhead : (String.ofList ('#' :: w)).toList.head? = some '#' := by simp
  rcases hc with (hc | hc) | hc
  · rcases Scope.contains_iff.mp hc with ⟨-, a, ha⟩ | ⟨hv, -⟩
    · exact ⟨a, by rw [Draft.attribute?, ha]; rfl⟩
    · rw [hhead] at hv
      cases hv
  · obtain ⟨e, he⟩ := Option.isSome_iff_exists.mp (List.find?_isSome.mpr (List.any_eq_true.mp hc))
    rw [Draft.attribute?, he]
    cases d.scope.attribute? (String.ofList ('#' :: w)) <;> exact ⟨_, rfl⟩
  · -- A value placeholder starts with another sigil.
    obtain ⟨e, he, hkey⟩ := List.any_eq_true.mp hc
    have hm : e.1 ∈ d.bindings.map Prod.fst := List.mem_map_of_mem he
    rw [h.bindings] at hm
    obtain ⟨i, -, hi⟩ := List.mem_map.mp hm
    have hv := d.scope.head?_valueToken i
    rw [hi, beq_iff_eq.mp hkey, hhead] at hv
    cases hv

namespace Template

variable {b : Binder} {input : Input} {ctx ctx' : Context} {d d' : Draft} {out : List Char}

/-- A token that is no slot binds nothing. -/
theorem readToken_gains_none {p : Placed} (hp : p.token.isSlot = false)
    (h : readToken b input ctx p d = .ok ((out, ctx'), d')) : d.Gains b d' [] := by
  obtain ⟨position, token⟩ := p
  cases token with
  | slot index format => cases hp
  | brace c | blank c | mark c =>
    obtain ⟨-, rfl⟩ := pure_ok.mp h
    exact .none rfl
  | placeholder sigil word =>
    obtain ⟨-, -, rfl⟩ := readPlaceholder_ok h
    exact .none rfl
  | word text called =>
    rcases readWord_ok h with ⟨-, rfl⟩ | ⟨t, hname, -⟩
    · exact .none rfl
    · exact Draft.bindName_binds b _ hname

/-- What is looked up while a token is read is found so in the end. -/
theorem looksUp_of_read {d₁ : Draft} {p : Placed} (hd : d.Numbered)
    (h : readToken b input ctx p d = .ok ((out, ctx'), d₁)) (hg : d.Grows d') :
    LooksUp d'.attribute? d.attribute? (ctx, p.token) := by
  obtain ⟨position, token⟩ := p
  cases token with
  | placeholder sigil w =>
    cases sigil with
    | name =>
      intro _
      obtain ⟨a, ha⟩ := hd.exists_attribute (readPlaceholder_ok h).1
      rw [ha, hg.attribute?_eq ha]
    | value => trivial
  | _ => trivial

/--
Tokens bind the arguments of their slots, one after the other, in the ways that go with the slots.
-/
theorem readTokens_gains : ∀ (tokens : List Placed) {ctx : Context} {d : Draft} {out : List Char},
    d.Numbered → readTokens b input ctx tokens d = .ok (out, d') →
      ∃ bound, List.Forall₂ (Fills input.arguments)
          (policies d'.attribute? input.schema ctx (tokens.map Placed.token)) bound ∧
        d.Gains b d' bound
  | [], ctx, d, out, _, h => by
    obtain ⟨-, rfl⟩ := pure_ok.mp h
    exact ⟨[], .nil, .none rfl⟩
  | p :: rest, ctx, d, out, hd, h => by
    obtain ⟨text, ctx', d₁, out', hfirst, hrest, -, -⟩ := readTokens_cons_ok h
    have hg₁ := Minting.compatible.readToken b.minting input ctx p hfirst
    have hg := hg₁.trans (Minting.compatible.readTokens b.minting input rest ctx' hrest)
    have hctx := Context.next_congr (looksUp_of_read hd hfirst hg)
    obtain ⟨bound, hfills, hgains⟩ := readTokens_gains rest (hd.grows hg₁) hrest
    rw [List.map_cons, policies_cons, hctx, ← readToken_next hfirst]
    obtain ⟨position, token⟩ := p
    cases token with
    | slot index format =>
      obtain ⟨v, t, hv, hvalue, -⟩ := readSlot_ok hfirst
      exact ⟨_, .cons ⟨hv, rfl⟩ hfills, (b.value_binds _ _ hvalue).append hgains⟩
    | brace c | blank c | mark c | placeholder sigil word | word text called =>
      exact ⟨bound, hfills, (readToken_gains_none rfl hfirst).append hgains⟩

theorem translate_gains (hd : d.Numbered) (h : translate b input d = .ok (out, d')) :
    ∃ bound, List.Forall₂ (Fills input.arguments)
        (policies d'.attribute? input.schema .start (tokensOf input.template)) bound ∧
      d.Gains b d' bound := by
  obtain ⟨text, d₁, hread, h₁⟩ := bind_ok.mp h
  cases hfault : (lex input.template).fault with
  | none =>
    rw [hfault] at h₁
    obtain ⟨-, rfl⟩ := pure_ok.mp h₁
    exact readTokens_gains _ hd hread
  | some fault =>
    rw [hfault] at h₁
    exact absurd h₁ throw_ok

end Template

/-! ## Clauses -/

namespace Compiler

/-- The making of a clause binds its values. -/
theorem draft_gains {c : Compiler} {b : Binder} {source : Source} {d d' : Draft}
    {out : List Char} (hd : d.Numbered) (h : c.draft b source d = .ok (out, d')) :
    ∃ bound, source.Binds d'.attribute? bound ∧ d.Gains b d' bound := by
  cases source with
  | predicate kind schema p =>
    obtain ⟨condition, d₁, hc, hx⟩ := bind_ok.mp (refuse_ok h).2
    obtain ⟨-, rfl⟩ := pure_ok.mp hx
    exact ⟨_, rfl, p.translate_binds b schema kind false hc⟩
  | template kind text arguments schema => exact Template.translate_gains hd h
  | update schema u =>
    obtain ⟨groups, d₁, hg, hx⟩ := bind_ok.mp h
    obtain ⟨-, rfl⟩ := pure_ok.mp hx
    exact ⟨_, rfl, u.translate_binds b schema hg⟩
  | projection schema properties =>
    obtain ⟨names, d₁, hn, hx⟩ := bind_ok.mp h
    obtain ⟨-, rfl⟩ := pure_ok.mp hx
    exact ⟨[], rfl, Projection.translate_binds b schema properties hn⟩

/-- **A translation binds the values of its clause, and no others.** -/
theorem translate_binds {c : Compiler} {mode : Mode} {source : Source} {s s' : Scope}
    {clause : Clause} (h : c.translate mode source s = .ok clause s') :
    ∃ bound, source.Binds (clause.attribute? s) bound ∧
      List.Forall₂ (fun v t => c.codec.BoundAs source.entity v t.2) bound.zipIdx clause.values := by
  obtain ⟨expression, d, values, hd, hsettled, rfl, -⟩ := translate_ok h
  obtain ⟨bound, hbound, new, hnew, hgains⟩ := draft_gains (.on s) hd
  have hscope : d.scope = s := (c.draft_minting _ source hd).scope_eq
  refine ⟨bound, ?_, ?_⟩
  · rw [← hscope]
    exact hbound
  · have hnew : d.bindings = new := hnew
    rw [hnew] at hsettled
    exact Codec.boundAs_of_settled hgains hsettled

end Compiler

end Clauses
