import Clauses.Proofs.Inlining
import Clauses.Proofs.SideBySide

/-!
# One clause on two scopes

A clause that is made of properties and values does not look at its scope, other than to number its
placeholders on from there. On two scopes it is therefore made, or fails, alike: it binds the same
names and values in the same order, and what it writes is the same text as soon as the placeholders
are replaced by what they are bound to.

* `Source.isLiteral` — the clauses that look at nothing but the numbers of a scope
* `Scope.Paired` — the placeholders that such a clause mints in the same place
* `Compiler.translate_parallel` — both clauses are made, and are alike in all later scopes, or both
  fail
-/

namespace Clauses

open Drafting

/-! ## Clauses of properties and values -/

/-- There is no placeholder in what a property is set to. -/
def SetValue.isLiteral : SetValue → Bool
  | .operand o | .ifNotExists _ o => o.literal?.isSome
  | .property _ => true
  | .plus a b | .minus a b | .listAppend a b => a.isLiteral && b.isLiteral

/-- There is no placeholder in the action. -/
def Action.isLiteral : Action → Bool
  | .set _ v => v.isLiteral
  | .remove _ => true
  | .add _ o | .delete _ o => o.literal?.isSome

/-- The clause is made of properties and values: neither of a text nor with placeholders. -/
def Source.isLiteral : Source → Bool
  | .template _ _ _ _ => false
  | .predicate _ _ p => p.literals?.isSome
  | .update _ u => u.all Action.isLiteral
  | .projection _ _ => true

/-- The operands are one value. -/
inductive Operand.SameValue : Operand → Operand → Prop where
  | intro (v : Value) : SameValue (.value v) (.value v)

theorem Operand.sameValue_of_literal {o : Operand} {v : Value} (h : o.literal? = some v) :
    o.SameValue o := by
  cases o with
  | value v => exact .intro v
  | placeholder token => cases h

/-- What holds of all that can be read holds of a list that can be read. -/
theorem forall₂_of_mapM {α β : Type} {f : α → Option β} {ρ : α → α → Prop}
    (hf : ∀ a b, f a = some b → ρ a a) {as : List α} {bs : List β} (h : as.mapM f = some bs) :
    List.Forall₂ ρ as as := by
  have hread := mapM_eq_some_iff.mp h
  clear h
  induction hread with
  | nil => exact .nil
  | cons hb _ ih => exact .cons (hf _ _ hb) ih

theorem Subject.like_self (subject : Subject) : subject.Like Eq subject := by
  cases subject
  · exact .property rfl
  · exact .size rfl

theorem Argument.like_of_literals {a : Argument} {vs : List Value} (h : a.literals? = some vs) :
    a.Like Eq Operand.SameValue a := by
  cases a with
  | property name => exact .property rfl
  | operand o =>
    obtain ⟨v, hv, -⟩ := Option.map_eq_some_iff.mp h
    exact .operand (Operand.sameValue_of_literal hv)

namespace Predicate

mutual

/-- A predicate without placeholders is of its own shape, with its own values. -/
theorem like_of_literals : ∀ {p : Predicate} {vs : List Value}, p.literals? = some vs →
    p.Like Eq Operand.SameValue p
  | .compare subject op operands, _, h =>
    .compare op subject.like_self (forall₂_of_mapM (fun _ _ => Operand.sameValue_of_literal) h)
  | .call f arguments, _, h => by
    obtain ⟨vss, hvss, -⟩ := Option.map_eq_some_iff.mp h
    exact .call f (forall₂_of_mapM (fun _ _ => Argument.like_of_literals) hvss)
  | .and parts, _, h => .and (partsLike_of_literals (by rwa [literals?] at h))
  | .or parts, _, h => .or (partsLike_of_literals (by rwa [literals?] at h))
  | .not p, _, h => .not (like_of_literals (by rwa [literals?] at h))

theorem partsLike_of_literals : ∀ {parts : List Predicate} {vs : List Value},
    literalsOf? parts = some vs → PartsLike Eq Operand.SameValue parts parts
  | [], _, _ => .nil
  | p :: rest, _, h => by
    obtain ⟨ws, ws', hp, hrest, -⟩ := literalsOf?_cons h
    exact .cons (like_of_literals hp) (partsLike_of_literals hrest)

end

end Predicate

theorem SetValue.like_of_literal : ∀ {v : SetValue}, v.isLiteral = true →
    v.Like Eq Operand.SameValue v
  | .operand o, h => by
    obtain ⟨v, hv⟩ := Option.isSome_iff_exists.mp h
    exact .operand (Operand.sameValue_of_literal hv)
  | .property name, _ => .property rfl
  | .ifNotExists name o, h => by
    obtain ⟨v, hv⟩ := Option.isSome_iff_exists.mp h
    exact .ifNotExists rfl (Operand.sameValue_of_literal hv)
  | .plus a b, h => by
    rw [isLiteral, Bool.and_eq_true] at h
    exact .plus (like_of_literal h.1) (like_of_literal h.2)
  | .minus a b, h => by
    rw [isLiteral, Bool.and_eq_true] at h
    exact .minus (like_of_literal h.1) (like_of_literal h.2)
  | .listAppend a b, h => by
    rw [isLiteral, Bool.and_eq_true] at h
    exact .listAppend (like_of_literal h.1) (like_of_literal h.2)

theorem Action.like_of_literal {a : Action} (h : a.isLiteral = true) :
    a.Like Eq Operand.SameValue a := by
  cases a with
  | set name v => exact .set rfl (SetValue.like_of_literal h)
  | remove name => exact .remove rfl
  | add name o =>
    obtain ⟨v, hv⟩ := Option.isSome_iff_exists.mp h
    exact .add rfl (Operand.sameValue_of_literal hv)
  | delete name o =>
    obtain ⟨v, hv⟩ := Option.isSome_iff_exists.mp h
    exact .delete rfl (Operand.sameValue_of_literal hv)

/-! ## Two drafts of one clause -/

/-- Entries that are bound to the same. -/
def SameBound {α : Type} (e e' : String × α) : Prop := e.2 = e'.2

/-- The drafts stand on these scopes, and have bound the same so far. -/
structure Draft.Parallel (s s' : Scope) (d d' : Draft) : Prop where
  scope : d.scope = s
  scope' : d'.scope = s'
  names : List.Forall₂ SameBound d.names d'.names
  bindings : List.Forall₂ SameBound d.bindings d'.bindings

/-- What a clause mints in one place has its own number on each scope. -/
inductive Scope.Paired (s s' : Scope) : String → String → Prop where
  | name (i : Nat) : Paired s s' (s.nameToken (s.nameCount + i)) (s'.nameToken (s'.nameCount + i))
  | value (i : Nat) : Paired s s' (s.valueToken (s.valueCount + i))
    (s'.valueToken (s'.valueCount + i))

variable {s s' : Scope}

theorem Draft.Parallel.on (s s' : Scope) : Draft.Parallel s s' (.on s) (.on s') :=
  ⟨rfl, rfl, .nil, .nil⟩

/-- On drafts that have bound the same, both steps succeed and bind the same, or both fail. -/
def Drafting.Parallel (s s' : Scope) : Relation := fun _ _ ρ x x' => ∀ ⦃d d'⦄, d.Parallel s s' d' →
  (∃ a e a' e', x d = .ok (a, e) ∧ x' d' = .ok (a', e') ∧ ρ a a' ∧ e.Parallel s s' e') ∨
    ∃ fault fault', x d = .error fault ∧ x' d' = .error fault'

namespace Drafting

theorem bind_error {α β : Type} {x : Drafting α} {f : α → Drafting β} {d : Draft} {e : ClauseError}
    (h : x d = .error e) : (x >>= f) d = .error e := by
  change Except.bind (x d) (fun p => f p.1 p.2) = _
  rw [h]
  rfl

theorem bind_of_ok {α β : Type} {x : Drafting α} {f : α → Drafting β} {d d' : Draft} {a : α}
    (h : x d = .ok (a, d')) : (x >>= f) d = f a d' := by
  change Except.bind (x d) (fun p => f p.1 p.2) = _
  rw [h]
  rfl

namespace Parallel

variable {α α' β β' : Type} {ρ : α → α' → Prop} {σ : β → β' → Prop}

theorem pure {a : α} {a' : α'} (h : ρ a a') : Parallel s s' α α' ρ (pure a) (pure a') :=
  fun d d' hd => .inl ⟨a, d, a', d', rfl, rfl, h, hd⟩

theorem throw (ρ : α → α' → Prop) (e e' : ClauseError) :
    Parallel s s' α α' ρ (MonadExcept.throw e) (MonadExcept.throw e') :=
  fun _ _ _ => .inr ⟨e, e', rfl, rfl⟩

theorem bind {x : Drafting α} {x' : Drafting α'} {f : α → Drafting β} {f' : α' → Drafting β'}
    (hx : Parallel s s' α α' ρ x x') (hf : ∀ a a', ρ a a' → Parallel s s' β β' σ (f a) (f' a')) :
    Parallel s s' β β' σ (x >>= f) (x' >>= f') := by
  intro d d' hd
  rcases hx hd with ⟨a, e, a', e', h, h', ha, he⟩ | ⟨fault, fault', h, h'⟩
  · rw [bind_of_ok h, bind_of_ok h']
    exact hf a a' ha he
  · exact .inr ⟨fault, fault', bind_error h, bind_error h'⟩

/-- What does not look at the draft does the same on both. -/
theorem lift {x : Except ClauseError α} {ρ : α → α → Prop} (hρ : ∀ a, x = .ok a → ρ a a) :
    Parallel s s' α α ρ (liftM x) (liftM x) := by
  intro d d' hd
  cases x with
  | ok a => exact .inl ⟨a, d, a, d', rfl, rfl, hρ a rfl, hd⟩
  | error e => exact .inr ⟨e, e, rfl, rfl⟩

theorem bindName (a : String) :
    Parallel s s' String String (s.Paired s') (Draft.bindName a) (Draft.bindName a) := by
  intro d d' hd
  refine .inl ⟨_, _, _, _, rfl, rfl, ?_, hd.scope, hd.scope',
    List.rel_append hd.names (.cons rfl .nil), hd.bindings⟩
  rw [Draft.nextName, Draft.nextName, hd.scope, hd.scope', ← hd.names.length_eq]
  exact .name _

theorem value (b : Binder) (v : Value) (p : Property) :
    Parallel s s' String String (s.Paired s') (b.value v p) (b.value v p) := by
  intro d d' hd
  rw [Binder.value_apply, Binder.value_apply, ← hd.bindings.length_eq]
  cases b.binding d.bindings.length v p with
  | error e => exact .inr ⟨e, e, rfl, rfl⟩
  | ok binding =>
    refine .inl ⟨_, _, _, _, rfl, rfl, ?_, hd.scope, hd.scope', hd.names,
      List.rel_append hd.bindings (.cons rfl .nil)⟩
    rw [Draft.nextValue, Draft.nextValue, hd.scope, hd.scope', ← hd.bindings.length_eq]
    exact .value _

/-- A clause is made in the same steps on both scopes, and pairs its placeholders. -/
theorem walk (s s' : Scope) (b : Binder) (schema : Schema) :
    Walk (Parallel s s') Eq Eq Operand.SameValue (s.Paired s') b b schema schema where
  pure := .pure
  throw := .throw
  bind := .bind
  resolve h := h ▸ .lift fun _ _ => rfl
  bindName h := h ▸ .bindName _
  operand ho hp := by
    cases ho with
    | intro v => exact hp ▸ .value b v _
  checkTag ho hp := by
    cases ho with
    | intro v => exact hp ▸ .lift fun _ _ => trivial
  bare h := h ▸ rfl

end Parallel

end Drafting

/-! ## Two texts of one clause -/

open Text (Alike)

/--
Both texts are made, and are alike where the placeholders of the first draft are alike to those that
are paired with them, or both fail.
-/
def Drafting.WritesAlike (s s' : Scope) (x x' : Drafting (List Char)) : Prop :=
  (∃ text d text' d', x (.on s) = .ok (text, d) ∧ x' (.on s') = .ok (text', d') ∧
    d.Parallel s s' d' ∧ ∀ f f', (∀ t t', s.Paired s' t t' → d.contains t = true →
      Alike f f' t.toList t'.toList) → Alike f f' text text') ∨
  ∃ e e', x (.on s) = .error e ∧ x' (.on s') = .error e'

/-- What is written without anything more being bound. -/
theorem Drafting.Parallel.writes {α α' : Type} {ρ : α → α' → Prop}
    {x : Drafting α} {x' : Drafting α'}
    {g : α → List Char} {g' : α' → List Char} {tokens : α → List String}
    (h : Parallel s s' α α' ρ x x') (ht : Emits [] tokens x)
    (hg : ∀ a a', ρ a a' → ∀ f f',
      (∀ t ∈ tokens a, ∀ t', s.Paired s' t t' → Alike f f' t.toList t'.toList) →
        Alike f f' (g a) (g' a')) :
    WritesAlike s s' (x >>= fun a => Pure.pure (g a)) (x' >>= fun a => Pure.pure (g' a)) := by
  rcases h (.on s s') with ⟨a, d, a', d', hx, hx', ha, hd⟩ | ⟨e, e', hx, hx'⟩
  · obtain ⟨-, hin⟩ := ht (fun _ hm => absurd hm List.not_mem_nil) hx
    refine .inl ⟨g a, d, g' a', d', bind_of_ok hx, bind_of_ok hx', hd, fun f f' htoken => ?_⟩
    exact hg a a' ha f f' fun t hm t' hp => htoken t t' hp (hin t hm)
  · exact .inr ⟨e, e', bind_error hx, bind_error hx'⟩

theorem Compiler.draft_writes (c : Compiler) (b : Binder) {source : Source}
    (hl : source.isLiteral = true) (s s' : Scope) :
    WritesAlike s s' (c.draft b source) (c.draft b source) := by
  cases source with
  | template kind text arguments schema => cases hl
  | predicate kind schema p =>
    obtain ⟨vs, hvs⟩ := Option.isSome_iff_exists.mp hl
    have w := Drafting.Parallel.walk s s' b schema
    change WritesAlike s s' (draftPredicate b kind schema p) (draftPredicate b kind schema p)
    unfold draftPredicate
    split
    · exact .inr ⟨_, _, bind_error rfl, bind_error rfl⟩
    · exact (w.predicate false (Predicate.like_of_literals hvs)).writes
        (p.translate_emits b schema kind false) fun _ _ h _ _ => h.alike
  | update schema u =>
    have w := Drafting.Parallel.walk s s' b schema
    have hu : List.Forall₂ (Action.Like Eq Operand.SameValue) u u :=
      List.forall₂_same.mpr fun a ha => Action.like_of_literal (List.all_eq_true.mp hl a ha)
    exact (w.update hu).writes (u.translate_emits b schema) fun _ _ h _ _ => Change.groups_alike h
  | projection schema properties =>
    have w := Drafting.Parallel.walk s s' b schema
    refine (w.projection (List.forall₂_refl properties)).writes
      (Projection.translate_emits schema properties) fun names _ h f f' ht => Projection.alike h ?_
    exact fun t hm => ht t (List.mem_flatMap.mpr ⟨t, hm, List.mem_singleton.mpr rfl⟩)

/-! ## Completing both -/

namespace Draft

variable {bindings bindings' : List (String × Binding)}

theorem resolveNow_sameBound (h : List.Forall₂ SameBound bindings bindings') :
    Except.Akin (List.Forall₂ SameBound) (resolveNow bindings) (resolveNow bindings') := by
  induction h with
  | nil => exact .ok .nil
  | @cons e e' rest rest' he _ ih =>
    have hnow : Except.Akin Eq e.2.now e'.2.now := by
      rw [he]
      exact .of_self (fun _ => rfl) _
    exact hnow.bind fun _ _ hw => ih.bind fun _ _ hvs => .ok (.cons hw hvs)

theorem deferred_eq (h : List.Forall₂ SameBound bindings bindings') :
    deferred bindings = deferred bindings' := by
  induction h with
  | nil => rfl
  | @cons b b' rest rest' hb _ ih =>
    obtain ⟨t, b⟩ := b
    obtain ⟨t', b'⟩ := b'
    cases (hb : b = b')
    cases b with
    | ready w => exact ih
    | deferred d => exact congrArg (d :: ·) ih

theorem fill_sameBound (h : List.Forall₂ SameBound bindings bindings') : ∀ outputs : List Bytes,
    List.Forall₂ SameBound (fill bindings outputs) (fill bindings' outputs) := by
  induction h with
  | nil => exact fun _ => .nil
  | @cons b b' rest rest' hb _ ih =>
    intro outputs
    obtain ⟨t, b⟩ := b
    obtain ⟨t', b'⟩ := b'
    cases (hb : b = b')
    cases b with
    | ready w => exact .cons rfl (ih outputs)
    | deferred d =>
      cases outputs with
      | nil => exact ih []
      | cons output outputs => exact .cons rfl (ih outputs)

/-- Whether bindings are resolved, and to which values, does not depend on their placeholders. -/
theorem resolve_sameBound (mode : Mode) (h : List.Forall₂ SameBound bindings bindings') :
    Except.Akin (List.Forall₂ SameBound) (resolve mode bindings) (resolve mode bindings') := by
  cases mode with
  | sync => exact resolveNow_sameBound h
  | async cancelled =>
    cases cancelled with
    | true => exact .error _
    | false =>
      rw [resolve_async, resolve_async, ← deferred_eq h]
      cases Batch.run false ((deferred bindings).map Deferred.task) with
      | error fault => exact .error _
      | ok outputs => exact .ok (fill_sameBound h outputs)

end Draft

namespace Scope

variable {names names' : List (String × String)} {values values' : List (String × WireValue)}

theorem FollowOn.name_at (h : s.FollowOn names values) {i : Nat} (hi : i < names.length) :
    names[i].1 = s.nameToken (s.nameCount + i) := by
  have hat := congrArg (·[i]?) h.names
  simpa [hi] using hat

theorem FollowOn.value_at (h : s.FollowOn names values) {i : Nat} (hi : i < values.length) :
    values[i].1 = s.valueToken (s.valueCount + i) := by
  have hat := congrArg (·[i]?) h.values
  simpa [hi] using hat

/-- A name that has been minted has a number below the next one. -/
theorem Numbered.name_lt (h : s.Numbered) {i : Nat} (hc : s.contains (s.nameToken i) = true) :
    i < s.nameCount := by
  rcases contains_iff.mp hc with ⟨-, a, ha⟩ | ⟨hv, -⟩
  · have hk := h.names.mem_iff.mp (Keyed.mem_keys_of_find? ha)
    obtain ⟨j, hj, he⟩ := List.mem_map.mp hk
    rw [← s.nameToken_injective he]
    exact List.mem_range.mp hj
  · rw [head?_nameToken] at hv
    exact absurd hv (by decide)

theorem Numbered.value_lt (h : s.Numbered) {i : Nat} (hc : s.contains (s.valueToken i) = true) :
    i < s.valueCount := by
  rcases contains_iff.mp hc with ⟨hn, -⟩ | ⟨-, w, hw⟩
  · rw [head?_valueToken] at hn
    exact absurd hn (by decide)
  · have hk := h.values.mem_iff.mp (Keyed.mem_keys_of_find? hw)
    obtain ⟨j, hj, he⟩ := List.mem_map.mp hk
    rw [← s.valueToken_injective he]
    exact List.mem_range.mp hj

/-- Placeholders that are minted in the same place are bound to the same, and go on to be. -/
theorem Paired.alike (hs : s.Numbered) (hs' : s'.Numbered) (hp : s.HasWordPrefixes)
    (hp' : s'.HasWordPrefixes) (hf : s.FollowOn names values) (hf' : s'.FollowOn names' values')
    (hn : List.Forall₂ SameBound names names') (hv : List.Forall₂ SameBound values values')
    {later later' : Scope} (hk : (s.enter names values).Keeps later)
    (hk' : (s'.enter names' values').Keeps later') (write : Bound → String) {t t' : String}
    (h : s.Paired s' t t') (hc : (s.enter names values).contains t = true) :
    Alike (later.spell write) (later'.spell write) t.toList t'.toList := by
  obtain ⟨-, hnames, hvalues⟩ := hs.enter_keeps hf
  obtain ⟨-, hnames', hvalues'⟩ := hs'.enter_keeps hf'
  cases h with
  | name i =>
    have hi : i < names.length :=
      Nat.lt_of_add_lt_add_left (Numbered.name_lt (s := s.enter names values) (hs.enter hf) hc)
    have hi' : i < names'.length := hn.length_eq ▸ hi
    have ha := hk.names _ _ (hnames _ (List.getElem_mem hi))
    have ha' := hk'.names _ _ (hnames' _ (List.getElem_mem hi'))
    have hsame : names[i].2 = names'[i].2 := hn.get hi hi'
    rw [hf.name_at hi, hsame] at ha
    rw [hf'.name_at hi'] at ha'
    refine .token (.inl (isToken_numbered hp.name _)) (.inl (isToken_numbered hp'.name _)) ?_
    rw [spell_name write (head?_nameToken _ _) ha, spell_name write (head?_nameToken _ _) ha']
  | value i =>
    have hi : i < values.length :=
      Nat.lt_of_add_lt_add_left (Numbered.value_lt (s := s.enter names values) (hs.enter hf) hc)
    have hi' : i < values'.length := hv.length_eq ▸ hi
    have hw := hk.values _ _ (hvalues _ (List.getElem_mem hi))
    have hw' := hk'.values _ _ (hvalues' _ (List.getElem_mem hi'))
    have hsame : values[i].2 = values'[i].2 := hv.get hi hi'
    rw [hf.value_at hi, hsame] at hw
    rw [hf'.value_at hi'] at hw'
    refine .token (.inr (isToken_numbered hp.value _)) (.inr (isToken_numbered hp'.value _)) ?_
    rw [spell_value write (head?_valueToken _ _) hw, spell_value write (head?_valueToken _ _) hw']

end Scope

/-! ## Clauses -/

/-- The texts are alike in the two scopes and in all later ones. -/
def Scope.AlikeIn (s s' : Scope) (text text' : String) : Prop :=
  ∀ later later', s.Keeps later → s'.Keeps later' → ∀ write,
    Alike (later.spell write) (later'.spell write) text.toList text'.toList

/--
What a clause is on two scopes, which are left as `s₁` and `s₁'`: it has minted as many names and
values on both, and its texts are alike.
-/
structure Clause.Parallel (s s' : Scope) (clause clause' : Clause) (s₁ s₁' : Scope) : Prop where
  enter : s₁ = s.enter clause.names clause.values
  enter' : s₁' = s'.enter clause'.names clause'.values
  followOn : s.FollowOn clause.names clause.values
  followOn' : s'.FollowOn clause'.names clause'.values
  names : List.Forall₂ SameBound clause.names clause'.names
  values : List.Forall₂ SameBound clause.values clause'.values
  alike : s₁.AlikeIn s₁' clause.expression clause'.expression

/-- **A clause of properties and values is the same clause on every scope,** but for its numbers. -/
theorem Compiler.translate_parallel (c : Compiler) (mode : Mode) {source : Source}
    (hl : source.isLiteral = true) (hs : s.Numbered) (hs' : s'.Numbered) (hp : s.HasWordPrefixes)
    (hp' : s'.HasWordPrefixes) :
    (∃ clause clause' s₁ s₁', c.translate mode source s = .ok clause s₁ ∧
      c.translate mode source s' = .ok clause' s₁' ∧ clause.Parallel s s' clause' s₁ s₁') ∨
    ∃ e e', c.translate mode source s = .error e s ∧ c.translate mode source s' = .error e' s' := by
  have hmake := c.draft_writes (c.binder (source.modeOf mode) source) hl s s'
  rcases hmake with ⟨text, d, text', d', hd, hd', hpar, halike⟩ | ⟨e, e', hx, hx'⟩
  · have hresolved := Draft.resolve_sameBound (source.modeOf mode) hpar.bindings
    generalize hv : Draft.resolve _ d.bindings = x, hv' : Draft.resolve _ d'.bindings = x'
      at hresolved
    cases hresolved with
    | error e =>
      exact .inr ⟨e, e, (Draft.complete_made hd).trans (by rw [hv]),
        (Draft.complete_made hd').trans (by rw [hv'])⟩
    | @ok values values' hvalues =>
      have hf := draft_followOn hd (Draft.resolve_ok hv).2
      have hf' := draft_followOn hd' (Draft.resolve_ok hv').2
      refine .inl ⟨_, _, _, _, Draft.complete_iff.mpr ⟨text, d, values, hd, hv, rfl, rfl⟩,
        Draft.complete_iff.mpr ⟨text', d', values', hd', hv', rfl, rfl⟩, rfl, rfl, hf, hf',
        hpar.names, hvalues, fun later later' hk hk' write => ?_⟩
      rw [String.toList_ofList, String.toList_ofList]
      refine halike _ _ fun t t' ht hc => ?_
      refine Scope.Paired.alike hs hs' hp hp' hf hf' hpar.names hvalues hk hk' write ht ?_
      have hin := ((Draft.Numbered.on s).grows (c.draft_minting _ _ hd)).contains_enter
        (Draft.resolve_ok hv).2 hc
      rwa [hpar.scope] at hin
  · exact .inr ⟨e, e', Draft.complete_unmade hx, Draft.complete_unmade hx'⟩

end Clauses
