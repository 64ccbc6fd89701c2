import Clauses.Proofs.Emission
import Clauses.Proofs.Shapes

/-!
# Data stays out of expressions

What a caller passes as data is bound to placeholders and never written. An expression is therefore
the same, character for character, whatever the arguments of its template are, or the properties and
values of its predicate. Data decides whether a clause can be made at all: a format that a value
does not have, a hook that fails. But it does not decide what is written.

Two makings of clauses are compared that stand on drafts with the same placeholders, bound to
whatever they may be. Where both succeed they come to the same text, on drafts that again have
the same placeholders.

* `Draft.Level` — two drafts with the same placeholders
* `Source.SameShape` — two clauses that differ in their data only
* `Compiler.data_not_written` — they come to the same expression
-/

namespace Clauses

theorem eq_of_forall₂ {α : Type} {as as' : List α} (h : List.Forall₂ Eq as as') : as = as' := by
  rwa [List.forall₂_eq_eq_eq] at h

/-! ## Drafts with the same placeholders -/

/-- Both drafts have the same placeholders; `κ` relates the names and what they are bound to. -/
structure Draft.Level (κ : String × String → String × String → Prop) (d d' : Draft) : Prop where
  scope : d.scope = d'.scope
  names : List.Forall₂ κ d.names d'.names
  bindings : List.Forall₂ (fun b b' => b.1 = b'.1) d.bindings d'.bindings

/-- The two names are of one placeholder. -/
def SameToken (n n' : String × String) : Prop := n.1 = n'.1

variable {κ : String × String → String × String → Prop}

namespace Draft.Level

variable {d d' : Draft}

theorem on (s : Scope) : (Draft.on s).Level κ (Draft.on s) := ⟨rfl, .nil, .nil⟩

theorem nextName_eq (h : d.Level κ d') : d.nextName = d'.nextName := by
  rw [nextName, nextName, h.scope, h.names.length_eq]

theorem nextValue_eq (h : d.Level κ d') : d.nextValue = d'.nextValue := by
  rw [nextValue, nextValue, h.scope, h.bindings.length_eq]

/-- The next name is minted on both. -/
theorem name (h : d.Level κ d') {a a' : String} (ha : κ (d.nextName, a) (d'.nextName, a')) :
    Level κ { d with names := d.names ++ [(d.nextName, a)] }
      { d' with names := d'.names ++ [(d'.nextName, a')] } :=
  ⟨h.scope, List.rel_append h.names (.cons ha .nil), h.bindings⟩

/-- The next value is minted on both. -/
theorem value (h : d.Level κ d') (b b' : Binding) :
    Level κ { d with bindings := d.bindings ++ [(d.nextValue, b)] }
      { d' with bindings := d'.bindings ++ [(d'.nextValue, b')] } :=
  ⟨h.scope, h.names, List.rel_append h.bindings (.cons h.nextValue_eq .nil)⟩

theorem attribute?_eq (h : d.Level Eq d') (token : String) :
    d.attribute? token = d'.attribute? token := by
  rw [attribute?, attribute?, h.scope, eq_of_forall₂ h.names]

end Draft.Level

/-! ## Steps that write the same -/

namespace Drafting

/-- Where both steps succeed their outcomes are related, and the drafts go on to be level. -/
def Level (κ : String × String → String × String → Prop) : Relation := fun _ _ ρ x x' =>
  ∀ ⦃d d' a a' e e'⦄, d.Level κ d' → x d = .ok (a, e) → x' d' = .ok (a', e') → ρ a a' ∧ e.Level κ e'

namespace Level

variable {α α' β β' : Type} {ρ : α → α' → Prop} {σ : β → β' → Prop}

theorem pure {a : α} {a' : α'} (h : ρ a a') : Level κ α α' ρ (pure a) (pure a') := by
  intro d d' b b' e e' hd hx hx'
  obtain ⟨rfl, rfl⟩ := pure_ok.mp hx
  obtain ⟨rfl, rfl⟩ := pure_ok.mp hx'
  exact ⟨h, hd⟩

theorem throw (ρ : α → α' → Prop) (e : ClauseError) (x' : Drafting α') :
    Level κ α α' ρ (MonadExcept.throw e) x' :=
  fun _ _ _ _ _ _ _ hx _ => absurd hx throw_ok

theorem bind {x : Drafting α} {x' : Drafting α'} {f : α → Drafting β} {f' : α' → Drafting β'}
    (hx : Level κ α α' ρ x x') (hf : ∀ a a', ρ a a' → Level κ β β' σ (f a) (f' a')) :
    Level κ β β' σ (x >>= f) (x' >>= f') := by
  intro d d' b b' e e' hd h h'
  obtain ⟨a, d₁, h₁, h₂⟩ := bind_ok.mp h
  obtain ⟨a', d₁', h₁', h₂'⟩ := bind_ok.mp h'
  obtain ⟨ha, hd₁⟩ := hx hd h₁ h₁'
  exact hf a a' ha hd₁ h₂ h₂'

/-- What is looked up without a look at the draft leaves it as it is. -/
theorem lift (x : Except ClauseError α) (x' : Except ClauseError α')
    (h : ∀ a a', x = .ok a → x' = .ok a' → ρ a a') : Level κ α α' ρ (liftM x) (liftM x') := by
  intro d d' a a' e e' hd hx hx'
  obtain ⟨ha, rfl⟩ := lift_ok.mp hx
  obtain ⟨ha', rfl⟩ := lift_ok.mp hx'
  exact ⟨h a a' ha ha', hd⟩

theorem bindName {a a' : String} (h : ∀ t, κ (t, a) (t, a')) :
    Level κ String String Eq (Draft.bindName a) (Draft.bindName a') := by
  intro d d' t t' e e' hd hx hx'
  cases hx
  cases hx'
  exact ⟨hd.nextName_eq, hd.name (hd.nextName_eq ▸ h _)⟩

/-- A placeholder that is used again is written as it is. -/
theorem reuse (token : String) :
    Level κ String String Eq (Draft.reuse token) (Draft.reuse token) := by
  intro d d' t t' e e' hd hx hx'
  unfold Draft.reuse at hx hx'
  split at hx <;> cases hx
  split at hx' <;> cases hx'
  exact ⟨rfl, hd⟩

/-- A value gets the next placeholder, whatever it is and however it is bound. -/
theorem value (b b' : Binder) (v v' : Value) (p p' : Property) :
    Level κ String String Eq (b.value v p) (b'.value v' p') := by
  intro d d' t t' e e' hd hx hx'
  obtain ⟨binding, -, rfl, rfl⟩ := Binder.value_ok_iff.mp hx
  obtain ⟨binding', -, rfl, rfl⟩ := Binder.value_ok_iff.mp hx'
  exact ⟨hd.nextValue_eq, hd.value binding binding'⟩

end Level

end Drafting

open Drafting

/-! ## Predicates, updates and projections -/

/-- Two operands that differ at most in their values. -/
inductive Operand.Alike : Operand → Operand → Prop where
  | value (v v' : Value) : Alike (.value v) (.value v')
  | placeholder (token : String) : Alike (.placeholder token) (.placeholder token)

/-- The names of properties and the values may be any. -/
theorem Drafting.Level.walk (b b' : Binder) (schema schema' : Schema) :
    Walk (Level SameToken) (fun _ _ => True) (fun _ _ => True) Operand.Alike Eq b
    b' schema schema' where
  pure := .pure
  throw ρ e _ := .throw ρ e _
  bind := .bind
  resolve _ := .lift _ _ fun _ _ _ _ => trivial
  bindName _ := .bindName fun _ => rfl
  operand ho _ := by
    cases ho with
    | value v v' => exact .value b b' v v' _ _
    | placeholder token =>
      unfold Binder.operand
      dsimp only
      split
      · exact .reuse token
      · exact .throw _ _ _
  checkTag _ _ := .lift _ _ fun _ _ _ _ => trivial
  bare _ := trivial

/-! ### Equal placeholders -/

theorem Compared.Like.eq {c c' : Compared} (h : c.Like Eq c') : c = c' := by
  rcases h with h | h <;> rw [h]

namespace Condition

mutual

/-- Conditions of one shape with equal placeholders are equal. -/
theorem Like.eq : ∀ {c c' : Condition}, c.Like Eq c' → c = c'
  | _, _, .compare op hl hv => by rw [hl.eq, eq_of_forall₂ hv]
  | _, _, .call f hn .none => by rw [hn]
  | _, _, .call f hn (.some hv) => by rw [hn, hv]
  | _, _, .join c h hs => by rw [Like.eq h, PartsLike.eq hs]
  | _, _, .not h => by rw [Like.eq h]

theorem PartsLike.eq : ∀ {cs cs' : List Condition}, PartsLike Eq cs cs' → cs = cs'
  | _, _, .nil => rfl
  | _, _, .cons h hs => by rw [Like.eq h, PartsLike.eq hs]

end

end Condition

theorem Term.Like.eq : ∀ {a a' : Term}, a.Like Eq a' → a = a'
  | _, _, .attribute h | _, _, .bound h => by rw [h]
  | _, _, .ifNotExists hn ht => by rw [hn, ht]
  | _, _, .listAppend ha hb | _, _, .plus ha hb | _, _, .minus ha hb => by rw [eq ha, eq hb]

theorem Change.Like.eq {c c' : Change} (h : c.Like Eq c') : c = c' := by
  cases h with
  | set hn ha => rw [hn, ha.eq]
  | remove hn => rw [hn]
  | apply hn ht => rw [hn, ht]

theorem Change.GroupLike.eq {g g' : UpdateKeyword × List Change} (h : Change.GroupLike Eq g g') :
    g = g' := by
  have hc : List.Forall₂ Eq g.2 g'.2 := h.changes.imp fun _ _ hc => hc.eq
  exact Prod.ext h.keyword (eq_of_forall₂ hc)

/-! ## Templates -/

/-- Where the names are bound alike, whatever is looked up is the same. -/
theorem Drafting.Level.compatible : Compatible fun α x x' => Level Eq α α Eq x x' where
  pure _ := .pure rfl
  throw e := .throw _ e _
  lift x := .lift x x fun _ _ h h' => Except.ok.inj (h.symm.trans h')
  bind hx hf := .bind hx fun a _ h => h ▸ hf a
  bindName _ := .bindName fun _ => rfl
  reuse := .reuse
  lookUp token f f' hf := by
    intro d d' a a' e e' hd hx hx'
    obtain ⟨_, _, hg, h₁⟩ := bind_ok.mp hx
    obtain ⟨rfl, rfl⟩ := get_ok.mp hg
    obtain ⟨_, _, hg', h₁'⟩ := bind_ok.mp hx'
    obtain ⟨rfl, rfl⟩ := get_ok.mp hg'
    rw [← hd.attribute?_eq token] at h₁'
    exact hf _ hd h₁ h₁'

namespace Template

variable (b b' : Binder) (template : String) (arguments arguments' : List Value)
  (schema schema' : Option Schema) (aliasReserved : Bool)

/-- Only slots look at the arguments and at the schema. -/
theorem readToken_of_not_slot (ctx : Context) {p : Placed}
    (hp : ∀ index format, p.token ≠ .slot index format) :
    readToken b ⟨template, arguments', schema', aliasReserved⟩ ctx p
      = readToken b ⟨template, arguments, schema, aliasReserved⟩ ctx p := by
  unfold readToken
  cases h : p.token with
  | slot index format => exact absurd h (hp index format)
  | _ => rfl

/-- A slot is written as the next placeholder, whatever its argument is and however it is bound. -/
theorem readSlot_level (ctx : Context) (position index : Nat) (format : Option String) :
    Drafting.Level Eq _ _ Eq
      (readSlot b ⟨template, arguments, schema, aliasReserved⟩ ctx position index format)
      (readSlot b' ⟨template, arguments', schema', aliasReserved⟩ ctx position index format) := by
  unfold readSlot
  dsimp only
  cases arguments[index]? with
  | none => exact .throw _ _ _
  | some v =>
    cases arguments'[index]? with
    | none => exact fun _ _ _ _ _ _ _ _ hx' => absurd hx' throw_ok
    | some v' => exact .bind (.value b b' v v' _ _) fun _ _ ht => .pure (by rw [ht])

theorem readToken_level (ctx : Context) (p : Placed) :
    Drafting.Level Eq _ _ Eq (readToken b ⟨template, arguments, schema, aliasReserved⟩ ctx p)
      (readToken b' ⟨template, arguments', schema', aliasReserved⟩ ctx p) := by
  by_cases hp : ∃ index format, p.token = .slot index format
  · obtain ⟨index, format, hp⟩ := hp
    unfold readToken
    simp only [hp]
    exact readSlot_level b b' template arguments arguments' schema schema' aliasReserved ctx _ _ _
  · rw [readToken_of_not_slot b' template arguments arguments' schema schema' aliasReserved ctx
      fun index format h => hp ⟨index, format, h⟩]
    exact Drafting.Level.compatible.readToken (fun v p => .value b b' v v p p) _ ctx p

/-- What a run over the tokens writes, by induction on them. -/
theorem readTokens_level (tokens : List Placed) : ∀ ctx : Context,
    Drafting.Level Eq _ _ Eq (readTokens b ⟨template, arguments, schema, aliasReserved⟩ ctx tokens)
      (readTokens b' ⟨template, arguments', schema', aliasReserved⟩ ctx tokens) := by
  induction tokens with
  | nil => exact fun ctx => .pure rfl
  | cons p rest ih =>
    intro ctx
    refine .bind (readToken_level b b' template arguments arguments' schema
      schema' aliasReserved ctx p)
      fun r r' hr => ?_
    subst hr
    exact .bind (ih r.2) fun _ _ ht => .pure (by rw [ht])

theorem translate_level :
    Drafting.Level Eq _ _ Eq (translate b ⟨template, arguments, schema, aliasReserved⟩)
      (translate b' ⟨template, arguments', schema', aliasReserved⟩) := by
  refine .bind (readTokens_level b b' template arguments arguments' schema
    schema' aliasReserved _ _)
    fun text text' ht => ?_
  dsimp only
  split
  · exact .pure ht
  · exact .throw _ _ _

end Template

/-! ## Clauses -/

/-- The two clauses differ at most in their data. -/
inductive Source.SameShape : Source → Source → Prop where
  | template (kind kind' : ClauseKind) (text : String) (arguments arguments' : List Value)
    (schema schema' : Option Schema) :
    SameShape (.template kind text arguments schema) (.template kind' text arguments' schema')
  | predicate (kind : ClauseKind) (schema schema' : Schema) {p p' : Predicate}
    (h : p.Like (fun _ _ => True) Operand.Alike p') :
    SameShape (.predicate kind schema p) (.predicate kind schema' p')
  | update (schema schema' : Schema) {u u' : Update}
    (h : List.Forall₂ (Action.Like (fun _ _ => True) Operand.Alike) u u') :
    SameShape (.update schema u) (.update schema' u')
  | projection (schema schema' : Schema) {properties properties' : List String}
    (h : properties.length = properties'.length) :
    SameShape (.projection schema properties) (.projection schema' properties')

namespace Compiler

/-- What two clauses of one shape are made to. -/
theorem draft_level (c c' : Compiler) (b b' : Binder) {source source' : Source}
    (h : source.SameShape source') (ha : c.config.aliasReserved = c'.config.aliasReserved) :
    Drafting.Level (if source.isTyped then SameToken else Eq) _ _ Eq (c.draft b source)
      (c'.draft b' source') := by
  cases h with
  | template kind kind' text arguments arguments' schema schema' =>
    unfold draft draftTemplate
    rw [← ha]
    exact Template.translate_level b b' text arguments arguments' schema schema' _
  | predicate kind schema schema' h =>
    have w := Drafting.Level.walk b b' schema schema'
    exact w.refuse .rfl _ _ (.bind (w.predicate false h) fun _ _ hc => .pure (by rw [hc.eq]))
  | update schema schema' h =>
    have w := Drafting.Level.walk b b' schema schema'
    refine .bind (w.update h) fun groups groups' hg => .pure ?_
    rw [eq_of_forall₂ (hg.imp fun _ _ hg => hg.eq)]
  | @projection schema schema' properties properties' h =>
    have w := Drafting.Level.walk b b' schema schema'
    have hall : List.Forall₂ (fun _ _ => True) properties properties' :=
      List.forall₂_iff_get.mpr ⟨h, fun _ _ _ => trivial⟩
    exact .bind (w.projection hall) fun _ _ hn => .pure (by rw [eq_of_forall₂ hn])

/--
**Data is never written.** Two clauses that differ in nothing but the arguments and the schemas of
a template, or in the properties and the values of a predicate, an update or a projection, are the
same text wherever both can be made on one scope, and have the same placeholders. This holds for
any two compilers that replace the same words, whatever their hooks. Those of a template are names
for the same attributes.
-/
theorem data_not_written (c c' : Compiler) (mode mode' : Mode) {source source' : Source} {s : Scope}
    (h : source.SameShape source') (ha : c.config.aliasReserved = c'.config.aliasReserved)
    {clause clause' : Clause} {s₁ s₁' : Scope} (hc : c.translate mode source s = .ok clause s₁)
    (hc' : c'.translate mode' source' s = .ok clause' s₁') :
    clause.expression = clause'.expression ∧
      clause.names.map Prod.fst = clause'.names.map Prod.fst ∧
      clause.values.map Prod.fst = clause'.values.map Prod.fst ∧
      (source.isTyped = false → clause.names = clause'.names) := by
  obtain ⟨text, d, values, hd, hv, rfl, -⟩ := translate_ok hc
  obtain ⟨text', d', values', hd', hv', rfl, -⟩ := translate_ok hc'
  obtain ⟨rfl, hlevel⟩ := draft_level c c' _ _ h ha (.on s) hd hd'
  have hbindings : d.bindings.map Prod.fst = d'.bindings.map Prod.fst := by
    rw [← List.forall₂_eq_eq_eq, List.forall₂_map_left_iff, List.forall₂_map_right_iff]
    exact hlevel.bindings
  have hvalues : values.map Prod.fst = values'.map Prod.fst := by
    rw [Draft.settled_keys hv, Draft.settled_keys hv', hbindings]
  cases hk : source.isTyped with
  | false =>
    have hnames := hlevel.names
    rw [hk, if_neg Bool.false_ne_true] at hnames
    have heq := eq_of_forall₂ hnames
    exact ⟨rfl, congrArg _ heq, hvalues, fun _ => heq⟩
  | true =>
    have hnames := hlevel.names
    rw [hk, if_pos rfl] at hnames
    refine ⟨rfl, ?_, hvalues, nofun⟩
    rw [← List.forall₂_eq_eq_eq, List.forall₂_map_left_iff, List.forall₂_map_right_iff]
    exact hnames

/-- An account has a role and a note, and tags. -/
def accountSchema : Schema :=
  ⟨"Account", [("Note", .plain "note"), ("Role", .plain "role"), ("Tags", .plain "tags")]⟩

/-- A property has a value, and there are so many tags. -/
def accountFilter (property : String) (v count : Value) : Source :=
  .predicate .filter accountSchema (.or [.compare (.property property) .equal [.value v],
    .not (.compare (.size "Tags") .less [.value count])])

/-- A value that looks like the end of one expression and the beginning of another. -/
theorem hostile_note_not_written :
    let c : Compiler := ⟨.standard, .empty⟩
    let hostile : Value := .text ":p0) OR (attribute_exists(#attr0)"
    ∃ clause s₁ clause' s₁',
      c.translate .sync (accountFilter "Role" (.text "admin") (.integer 3)) c.scope
        = .ok clause s₁ ∧
      c.translate .sync (accountFilter "Note" hostile .null) c.scope = .ok clause' s₁' ∧
      clause.expression = "(#attr0 = :p0) OR (size(#attr1) >= :p1)" ∧
      clause'.expression = clause.expression ∧
      clause'.names = [("#attr0", "note"), ("#attr1", "tags")] ∧
      clause'.values.map Prod.fst = [":p0", ":p1"] := by
  intro c hostile
  let names (a : String) := [("#attr0", a), ("#attr1", "tags")]
  let text := "(#attr0 = :p0) OR (size(#attr1) >= :p1)"
  have h : c.translate .sync (accountFilter "Role" (.text "admin") (.integer 3)) c.scope
      = .ok ⟨text, names "role", [(":p0", .text "admin"), (":p1", .number "3")]⟩
        (c.scope.enter (names "role") [(":p0", .text "admin"), (":p1", .number "3")]) := by
    decide +kernel
  have h' : ∃ clause' s₁', c.translate .sync (accountFilter "Note" hostile .null) c.scope
    = .ok clause' s₁' ∧
      clause'.names = names "note" := by
    refine ⟨⟨text, names "note",
      [(":p0", .text ":p0) OR (attribute_exists(#attr0)"), (":p1", .null true)]⟩,
      c.scope.enter (names "note")
        [(":p0", .text ":p0) OR (attribute_exists(#attr0)"), (":p1", .null true)], ?_, rfl⟩
    decide +kernel
  obtain ⟨clause', s₁', h', hnames⟩ := h'
  have hshape : (accountFilter "Role" (.text "admin") (.integer 3)).SameShape
      (accountFilter "Note" hostile .null) :=
    .predicate _ _ _ (.or (.cons (.compare _ (.property trivial) (.cons (.value _ _) .nil))
      (.cons (.not (.compare _ (.size trivial) (.cons (.value _ _) .nil))) .nil)))
  obtain ⟨he, -, hv, -⟩ := data_not_written c c .sync .sync hshape rfl h h'
  exact ⟨_, _, clause', s₁', h, h', rfl, he.symm, hnames, hv.symm⟩

end Compiler

end Clauses
