import Clauses.Proofs.Congruence

/-!
# What the making of a clause does to its draft

All that happens to a draft while a clause is made is that placeholders are minted: names and
values, in any order, each with the next number of its kind. Whatever minting one placeholder keeps
is therefore kept by the making of any clause.

* `Draft.Grows` — a draft is reached from another by minting placeholders
* `Compiler.draft_minting` — every clause only mints placeholders
* `Predicate.comparison_ok`, `Predicate.invocation_ok` — all that is behind a comparison or a call
-/

namespace Clauses

variable {α β : Type}

/-! ## Steps that have succeeded -/

namespace Except

variable {ε ε' : Type}

theorem bind_ok {x : Except ε α} {f : α → Except ε β} {b : β} :
    (x >>= f) = .ok b ↔ ∃ a, x = .ok a ∧ f a = .ok b := by
  change Except.bind x f = _ ↔ _
  cases x <;> simp [Except.bind]

theorem map_ok {x : Except ε α} {f : α → β} {b : β} :
    x.map f = .ok b ↔ ∃ a, x = .ok a ∧ f a = b := by
  cases x <;> simp [Except.map]

theorem mapError_ok {x : Except ε α} {f : ε → ε'} {a : α} : x.mapError f = .ok a ↔ x = .ok a := by
  cases x with
  | error e =>
    constructor <;>
    · intro h
      cases h
  | ok b =>
    constructor <;>
    · intro h
      cases h
      rfl

end Except

namespace Drafting

theorem bind_ok {x : Drafting α} {f : α → Drafting β} {d d'' : Draft} {b : β} :
    (x >>= f) d = .ok (b, d'') ↔ ∃ a d', x d = .ok (a, d') ∧ f a d' = .ok (b, d'') := by
  change Except.bind (x d) (fun p => f p.1 p.2) = _ ↔ _
  cases x d with
  | error e => simp [Except.bind]
  | ok p =>
    constructor
    · exact fun h => ⟨p.1, p.2, rfl, h⟩
    · rintro ⟨a, d', he, hf⟩
      cases he
      exact hf

theorem map_ok {x : Drafting α} {f : α → β} {d d' : Draft} {b : β} :
    (f <$> x) d = .ok (b, d') ↔ ∃ a, x d = .ok (a, d') ∧ f a = b := by
  rw [map_eq_pure_bind, bind_ok]
  constructor
  · rintro ⟨a, d₁, hx, hf⟩
    cases hf
    exact ⟨a, hx, rfl⟩
  · rintro ⟨a, hx, rfl⟩
    exact ⟨a, d', hx, rfl⟩

theorem pure_ok {a b : α} {d d' : Draft} :
    (pure a : Drafting α) d = .ok (b, d') ↔ b = a ∧ d' = d := by
  change Except.ok (a, d) = _ ↔ _
  simp [eq_comm]

theorem throw_ok {e : ClauseError} {a : α} {d d' : Draft} :
    ¬(throw e : Drafting α) d = .ok (a, d') := by
  intro h
  cases h

/-- What has not been refused goes on. -/
theorem refuse_ok {p : Prop} [Decidable p] {e : ClauseError} {f : α → Drafting β} {x : Drafting β}
    {b : β} {d d' : Draft} (h : (if p then throw e >>= f else x) d = .ok (b, d')) :
    ¬p ∧ x d = .ok (b, d') := by
  by_cases hp : p
  · rw [if_pos hp] at h
    obtain ⟨_, _, ht, -⟩ := bind_ok.mp h
    exact absurd ht throw_ok
  · rw [if_neg hp] at h
    exact ⟨hp, h⟩

theorem lift_ok {x : Except ClauseError α} {a : α} {d d' : Draft} :
    (liftM x : Drafting α) d = .ok (a, d') ↔ x = .ok a ∧ d' = d := by
  change Except.bind x (fun a => .ok (a, d)) = _ ↔ _
  cases x <;> simp [Except.bind, eq_comm]

theorem get_ok {a d d' : Draft} : (get : Drafting Draft) d = .ok (a, d') ↔ a = d ∧ d' = d := by
  change Except.ok (d, d) = _ ↔ _
  simp [eq_comm]

end Drafting

/-! ## Minting -/

/-- The draft `d'` is reached from `d` by minting placeholders. -/
inductive Draft.Grows (d : Draft) : Draft → Prop where
  | refl : Grows d d
  | name {d' : Draft} (a : String) : Grows d d' →
    Grows d { d' with names := d'.names ++ [(d'.nextName, a)] }
  | value {d' : Draft} (b : Binding) : Grows d d' →
    Grows d { d' with bindings := d'.bindings ++ [(d'.nextValue, b)] }

namespace Draft.Grows

variable {d d' d'' : Draft}

theorem trans (h : d.Grows d') (h' : d'.Grows d'') : d.Grows d'' := by
  induction h' with
  | refl => exact h
  | name a _ ih => exact .name a ih
  | value b _ ih => exact .value b ih

theorem scope_eq (h : d.Grows d') : d'.scope = d.scope := by
  induction h with
  | refl => rfl
  | name _ _ ih => exact ih
  | value _ _ ih => exact ih

theorem names_prefix (h : d.Grows d') : d.names <+: d'.names := by
  induction h with
  | refl => exact List.prefix_rfl
  | name _ _ ih => exact ih.trans (List.prefix_append _ _)
  | value _ _ ih => exact ih

theorem bindings_prefix (h : d.Grows d') : d.bindings <+: d'.bindings := by
  induction h with
  | refl => exact List.prefix_rfl
  | name _ _ ih => exact ih
  | value _ _ ih => exact ih.trans (List.prefix_append _ _)

end Draft.Grows

/-! ## Steps that only mint -/

/-- The step does no more to a draft than to mint placeholders. -/
def Drafting.Minting (x : Drafting α) : Prop :=
  ∀ ⦃d a d'⦄, x d = .ok (a, d') → d.Grows d'

namespace Drafting.Minting

theorem pure (a : α) : Minting (pure a : Drafting α) := by
  intro d b d' h
  obtain ⟨-, rfl⟩ := pure_ok.mp h
  exact .refl

theorem throw (e : ClauseError) : Minting (throw e : Drafting α) :=
  fun _ _ _ h => absurd h throw_ok

theorem lift (x : Except ClauseError α) : Minting (liftM x : Drafting α) := by
  intro d b d' h
  obtain ⟨-, rfl⟩ := lift_ok.mp h
  exact .refl

theorem get : Minting (get : Drafting Draft) := by
  intro d b d' h
  obtain ⟨-, rfl⟩ := get_ok.mp h
  exact .refl

theorem bind {x : Drafting α} {f : α → Drafting β} (hx : Minting x) (hf : ∀ a, Minting (f a)) :
    Minting (x >>= f) := by
  intro d b d'' h
  obtain ⟨a, d', h₁, h₂⟩ := bind_ok.mp h
  exact (hx h₁).trans (hf a h₂)

theorem mapM {f : α → Drafting β} (hf : ∀ a, Minting (f a)) (as : List α) :
    Minting (as.mapM f) := by
  induction as with
  | nil => exact pure []
  | cons a as ih =>
    rw [List.mapM_cons]
    exact bind (hf a) fun _ => bind ih fun _ => pure _

end Drafting.Minting

/-! ## Clauses only mint -/

open Drafting

theorem Draft.bindName_minting (a : String) : Minting (Draft.bindName a) := by
  intro d token d' h
  cases h
  exact .name a .refl

theorem Draft.bindValue_minting (b : Binding) : Minting (Draft.bindValue b) := by
  intro d token d' h
  cases h
  exact .value b .refl

theorem Draft.reuse_contains {token t : String} {d d' : Draft}
    (h : Draft.reuse token d = .ok (t, d')) :
    t = token ∧ d' = d ∧ d.contains t = true := by
  unfold Draft.reuse at h
  split at h
  · next hc =>
    cases h
    exact ⟨rfl, rfl, hc⟩
  · cases h

theorem Draft.reuse_minting (token : String) : Minting (Draft.reuse token) := by
  intro d token' d' h
  unfold Draft.reuse at h
  split at h
  · cases h
    exact .refl
  · cases h

theorem Binder.value_apply (b : Binder) (v : Value) (p : Property) (d : Draft) : b.value v p d
    = b.binding d.bindings.length v p >>= fun binding => Draft.bindValue binding d := by
  change Except.bind (StateT.lift (b.binding d.bindings.length v p) d) _ = _
  cases b.binding d.bindings.length v p <;> rfl

/-- A value is bound to the next value placeholder. -/
theorem Binder.value_ok_iff {b : Binder} {v : Value} {p : Property}
    {d d' : Draft} {token : String} :
    b.value v p d = .ok (token, d') ↔ ∃ binding, b.binding d.bindings.length v p = .ok binding ∧
      token = d.nextValue ∧ d' = { d with bindings := d.bindings ++ [(d.nextValue, binding)] } := by
  rw [value_apply]
  constructor
  · intro h
    obtain ⟨binding, hb, h⟩ := Except.bind_ok.mp h
    cases h
    exact ⟨binding, hb, rfl, rfl⟩
  · rintro ⟨binding, hb, rfl, rfl⟩
    exact Except.bind_ok.mpr ⟨binding, hb, rfl⟩

theorem Binder.value_minting (b : Binder) (v : Value) (p : Property) : Minting (b.value v p) :=
  .bind .get fun _ => .bind (.lift _) Draft.bindValue_minting

/-- Only minting is kept when steps are put together. -/
theorem Drafting.Minting.compatible : Compatible fun _ x _ => Minting x where
  pure := .pure
  throw := .throw
  lift := .lift
  bind := .bind
  bindName := Draft.bindName_minting
  reuse := Draft.reuse_minting
  lookUp _ _ _ hf := .bind .get fun _ => hf _

theorem Binder.minting (b : Binder) : Compatible.Binders (fun _ x _ => Minting x) b b :=
  b.value_minting

theorem Binder.operand_minting (b : Binder) (o : Operand) (p : Property) :
    Minting (b.operand o p) :=
  Minting.compatible.operand b.minting o p

theorem Predicate.translateAll_minting (b : Binder) (schema : Schema) (kind : ClauseKind)
    (parts : List Predicate) : Minting (translateAll b schema kind parts) :=
  Minting.compatible.parts b.minting parts

/-- **The making of a clause only mints placeholders.** -/
theorem Compiler.draft_minting (c : Compiler) (b : Binder) (source : Source) :
    Minting (c.draft b source) :=
  Minting.compatible.draft b.minting c source

/-! ## Comparisons and calls that have succeeded -/

namespace Predicate

variable {b : Binder} {schema : Schema} {negate : Bool} {subject : Subject} {op : Operator}
  {operands : List Operand} {f : Builtin} {arguments : List Argument} {c : Condition} {d d' : Draft}

/-- All that is behind a comparison: a name is minted, and then the values. -/
theorem comparison_ok (h : comparison b schema subject op operands d = .ok (c, d')) :
    op.arity.Admits operands.length ∧ ∃ p name d₁ ts,
      schema.resolve subject.propertyName = .ok p ∧ p.bindName d = .ok (name, d₁) ∧
      (operands.mapM fun o => b.operand o (subject.policy p)) d₁ = .ok (ts, d') ∧
      c = .compare (subject.compared name) op ts := by
  unfold comparison at h
  obtain ⟨hne, h₀⟩ := refuse_ok h
  obtain ⟨p, d₁, hlift, h₁⟩ := bind_ok.mp h₀
  obtain ⟨hp, rfl⟩ := lift_ok.mp hlift
  obtain ⟨name, d₂, hname, h₂⟩ := bind_ok.mp h₁
  obtain ⟨ts, d₃, hts, h₃⟩ := bind_ok.mp h₂
  obtain ⟨rfl, rfl⟩ := pure_ok.mp h₃
  exact ⟨by simpa using hne, p, name, d₂, ts, hp, hname, hts, rfl⟩

theorem comparisonOrNot_ok
    (h : comparisonOrNot b schema negate subject op operands d = .ok (c, d')) :
    (negate = false ∧ comparison b schema subject op operands d = .ok (c, d')) ∨
    (∃ opposite, negate = true ∧ op.negation = .inverted opposite ∧
      comparison b schema subject opposite operands d = .ok (c, d')) ∨
    ∃ c', negate = true ∧ comparison b schema subject op operands d = .ok (c', d') ∧
    c = .not c' := by
  cases negate with
  | false => exact .inl ⟨rfl, h⟩
  | true =>
    simp only [comparisonOrNot, if_true] at h
    cases ho : op.negation with
    | inverted opposite =>
      rw [ho] at h
      exact .inr (.inl ⟨opposite, rfl, rfl, h⟩)
    | wrapped =>
      rw [ho] at h
      obtain ⟨c', hc, rfl⟩ := map_ok.mp h
      exact .inr (.inr ⟨c', rfl, hc, rfl⟩)
    | refused =>
      rw [ho] at h
      exact absurd h throw_ok

/-- All that is behind a call: a name is minted, and then the value if there is one. -/
theorem invocation_ok (h : invocation b schema f arguments d = .ok (c, d')) :
    f ≠ .size ∧ ∃ property p name d₁,
      schema.resolve property = .ok p ∧ p.bindName d = .ok (name, d₁) ∧
      ((arguments = [.property property] ∧ c = .call f name none ∧ d' = d₁) ∨
        ∃ o t, arguments = [.property property, .operand o] ∧
          b.operand o (if f = .attributeType then p.bare else p) d₁ = .ok (t, d') ∧
          c = .call f name (some t)) := by
  revert h
  fun_cases invocation b schema f arguments with
  | case1 => exact fun h => absurd h throw_ok
  | case2 property he =>
    intro h
    have hf : f ≠ .size := by
      rintro rfl
      cases he
    obtain ⟨p, d₁, hlift, h₁⟩ := bind_ok.mp h
    obtain ⟨hp, rfl⟩ := lift_ok.mp hlift
    obtain ⟨name, d₂, hname, h₂⟩ := bind_ok.mp h₁
    obtain ⟨rfl, rfl⟩ := pure_ok.mp h₂
    exact ⟨hf, property, p, name, _, hp, hname, .inl ⟨rfl, rfl, rfl⟩⟩
  | case3 property o he =>
    intro h
    have hf : f = .attributeType := by
      cases f <;> first | rfl | cases he
    subst hf
    obtain ⟨p, d₁, hlift, h₁⟩ := bind_ok.mp h
    obtain ⟨hp, rfl⟩ := lift_ok.mp hlift
    obtain ⟨_, d₂, hcheck, h₂⟩ := bind_ok.mp h₁
    obtain ⟨-, rfl⟩ := lift_ok.mp hcheck
    obtain ⟨name, d₃, hname, h₃⟩ := bind_ok.mp h₂
    obtain ⟨t, d₄, ht, h₄⟩ := bind_ok.mp h₃
    obtain ⟨rfl, rfl⟩ := pure_ok.mp h₄
    exact ⟨by decide, property, p, name, d₃, hp, hname, .inr ⟨o, t, rfl, ht, rfl⟩⟩
  | case4 property o he =>
    intro h
    have hf : f ≠ .attributeType ∧ f ≠ .size := by
      constructor <;>
      · rintro rfl
        cases he
    obtain ⟨p, d₁, hlift, h₁⟩ := bind_ok.mp h
    obtain ⟨hp, rfl⟩ := lift_ok.mp hlift
    obtain ⟨name, d₂, hname, h₂⟩ := bind_ok.mp h₁
    obtain ⟨t, d₃, ht, h₃⟩ := bind_ok.mp h₂
    obtain ⟨rfl, rfl⟩ := pure_ok.mp h₃
    refine ⟨hf.2, property, p, name, d₂, hp, hname, .inr ⟨o, t, rfl, ?_, rfl⟩⟩
    rwa [if_neg hf.1]
  | case5 => exact fun h => absurd h throw_ok

theorem invocationOrNot_ok (h : invocationOrNot b schema negate f arguments d = .ok (c, d')) :
    (negate = false ∧ invocation b schema f arguments d = .ok (c, d')) ∨
    (∃ opposite, negate = true ∧ f.negation = .inverted opposite ∧
      invocation b schema opposite arguments d = .ok (c, d')) ∨
    ∃ c', negate = true ∧ invocation b schema f arguments d = .ok (c', d') ∧ c = .not c' := by
  cases negate with
  | false => exact .inl ⟨rfl, h⟩
  | true =>
    simp only [invocationOrNot, if_true] at h
    cases ho : f.negation with
    | inverted opposite =>
      rw [ho] at h
      exact .inr (.inl ⟨opposite, rfl, rfl, h⟩)
    | wrapped =>
      rw [ho] at h
      obtain ⟨c', hc, rfl⟩ := map_ok.mp h
      exact .inr (.inr ⟨c', rfl, hc, rfl⟩)
    | refused =>
      rw [ho] at h
      exact absurd h throw_ok

end Predicate

end Clauses
