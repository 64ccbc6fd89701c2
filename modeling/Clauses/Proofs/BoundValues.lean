import Clauses.Proofs.Completing

/-!
# Values that are bound

Which values a predicate or an update binds, and in the way of which property, can be read off it:
its operands in the order of the text, each with the property that it is compared with or that it
changes. Its translation binds these values and no others, in this order; and as each value is the
next that is written, it is known for each how many have been written before it.

* `Predicate.bound`, `Update.bound` — the values of a predicate and of an update
* `Drafting.Binds` — a step binds just these values
* `Codec.BoundAs` — the wire value that the binding of a value has come to
-/

namespace Clauses

/-! ## Values that can be read off -/

/-- A value, and the property in whose way it is bound. -/
abbrev BoundValue := Value × Property

/-- The values that come with a property, if there is one of the name. -/
def Schema.bound (schema : Schema) (name : String) (values : Property → List BoundValue) :
    List BoundValue :=
  match schema.resolve name with
  | .ok p => values p
  | .error _ => []

/-- The value of an operand: a placeholder has none of its own. -/
def Operand.bound (p : Property) : Operand → List BoundValue
  | .value v => [(v, p)]
  | .placeholder _ => []

/-- The value that a call is given; the name of a type is no value of the property. -/
def Builtin.bound (schema : Schema) (f : Builtin) : List Argument → List BoundValue
  | [.property name, .operand o] =>
    schema.bound name fun p => o.bound (if f = .attributeType then p.bare else p)
  | _ => []

namespace Predicate

mutual

/-- The values of a predicate, in the order of its text. -/
def bound (schema : Schema) : Predicate → List BoundValue
  | .compare subject _ operands =>
    schema.bound subject.propertyName fun p => operands.flatMap (Operand.bound (subject.policy p))
  | .call f arguments => f.bound schema arguments
  | .and parts | .or parts => partsBound schema parts
  | .not p => bound schema p

/-- The values of the parts of a junction. -/
def partsBound (schema : Schema) : List Predicate → List BoundValue
  | [] => []
  | p :: rest => bound schema p ++ partsBound schema rest

end

end Predicate

/-- The values that go into what the property `target` is set to. -/
def SetValue.bound (schema : Schema) (target : Property) : SetValue → List BoundValue
  | .operand o => o.bound target
  | .property _ => []
  | .plus x y | .minus x y | .listAppend x y => x.bound schema target ++ y.bound schema target
  | .ifNotExists name otherwise => schema.bound name otherwise.bound

/-- The values of an action. -/
def Action.bound (schema : Schema) : Action → List BoundValue
  | .set name value => schema.bound name fun p => value.bound schema p
  | .remove _ => []
  | .add name o | .delete name o => schema.bound name o.bound

/-- The values of an update, group by group. -/
def Update.bound (schema : Schema) (u : Update) : List BoundValue :=
  u.keywords.flatMap fun keyword => (u.under keyword).flatMap (Action.bound schema)

/-! ## Steps that bind values -/

/--
From the one draft to the other, just these values have been bound. Each has been written after
those that had been bound before it.
-/
def Draft.Gains (b : Binder) (d d' : Draft) (bound : List BoundValue) : Prop :=
  ∃ new, d'.bindings = d.bindings ++ new ∧
    List.Forall₂ (fun (v : BoundValue × Nat) n => b.binding v.2 v.1.1 v.1.2 = .ok n.2)
      (bound.zipIdx d.bindings.length) new

namespace Draft.Gains

variable {b : Binder} {d d' d'' : Draft} {bound bound' : List BoundValue}

theorem none (h : d'.bindings = d.bindings) : d.Gains b d' [] :=
  ⟨[], by rw [h, List.append_nil], .nil⟩

theorem length_eq (h : d.Gains b d' bound) :
    d'.bindings.length = d.bindings.length + bound.length := by
  obtain ⟨new, hd, hnew⟩ := h
  rw [hd, List.length_append, ← hnew.length_eq, List.length_zipIdx]

theorem append (h : d.Gains b d' bound) (h' : d'.Gains b d'' bound') :
    d.Gains b d'' (bound ++ bound') := by
  have hlength := h.length_eq
  obtain ⟨new, hd, hnew⟩ := h
  obtain ⟨new', hd', hnew'⟩ := h'
  rw [hlength] at hnew'
  refine ⟨new ++ new', by rw [hd', hd, List.append_assoc], ?_⟩
  rw [List.zipIdx_append]
  exact List.rel_append hnew hnew'

end Draft.Gains

/-- The step binds just these values, in this order. -/
def Drafting.Binds {α : Type} (b : Binder) (bound : List BoundValue) (x : Drafting α) : Prop :=
  ∀ ⦃d a d'⦄, x d = .ok (a, d') → d.Gains b d' bound

namespace Drafting.Binds

variable {α β : Type} {b : Binder} {bound bound' : List BoundValue}

theorem pure (a : α) : Binds b [] (pure a : Drafting α) := by
  intro d a' d' h
  obtain ⟨-, rfl⟩ := pure_ok.mp h
  exact .none rfl

theorem throw (e : ClauseError) : Binds b bound (throw e : Drafting α) :=
  fun _ _ _ h => absurd h throw_ok

theorem lift (x : Except ClauseError α) : Binds b [] (liftM x : Drafting α) := by
  intro d a d' h
  obtain ⟨-, rfl⟩ := lift_ok.mp h
  exact .none rfl

theorem bind {x : Drafting α} {f : α → Drafting β} (hx : Binds b bound x)
    (hf : ∀ a, Binds b bound' (f a)) : Binds b (bound ++ bound') (x >>= f) := by
  intro d a d'' h
  obtain ⟨a', d', h₁, h₂⟩ := bind_ok.mp h
  exact (hx h₁).append (hf a' h₂)

/-- A step that binds no value is followed by one that does. -/
theorem after {x : Drafting α} {f : α → Drafting β} (hx : Binds b [] x)
    (hf : ∀ a, Binds b bound (f a)) : Binds b bound (x >>= f) := hx.bind hf

/-- A step that binds values is followed by one that binds none. -/
theorem before {x : Drafting α} {f : α → Drafting β} (hx : Binds b bound x)
    (hf : ∀ a, Binds b [] (f a)) : Binds b bound (x >>= f) := by
  have h := hx.bind hf
  rwa [List.append_nil] at h

theorem map {x : Drafting α} (f : α → β) (hx : Binds b bound x) : Binds b bound (f <$> x) := by
  intro d a d' h
  obtain ⟨a', h₁, -⟩ := map_ok.mp h
  exact hx h₁

theorem mapM {f : α → Drafting β} {values : α → List BoundValue}
    (hf : ∀ a, Binds b (values a) (f a)) (as : List α) :
    Binds b (as.flatMap values) (as.mapM f) := by
  induction as with
  | nil => exact pure []
  | cons a as ih =>
    rw [List.mapM_cons, List.flatMap_cons]
    exact (hf a).bind fun _ => ih.before fun _ => pure _

theorem refuse {p : Prop} [Decidable p] {e : ClauseError} {f : β → Drafting α} {x : Drafting α}
    (hx : Binds b bound x) :
    Binds b bound (if p then (MonadExcept.throw e : Drafting β) >>= f else x) :=
  fun _ _ _ h => hx (refuse_ok h).2

/-- A step that starts with the property of a name binds the values that come with the property. -/
theorem resolve {schema : Schema} {name : String} {values : Property → List BoundValue}
    {f : Property → Drafting β} (hf : ∀ p, Binds b (values p) (f p)) :
    Binds b (schema.bound name values) (liftM (schema.resolve name) >>= f) := by
  intro d a d' h
  obtain ⟨p, d₁, h₁, h₂⟩ := bind_ok.mp h
  obtain ⟨hp, rfl⟩ := lift_ok.mp h₁
  rw [Schema.bound, hp]
  exact hf p h₂

end Drafting.Binds

open Drafting

theorem Draft.bindName_binds (b : Binder) (a : String) : Binds b [] (Draft.bindName a) := by
  intro d t d' h
  cases h
  exact .none rfl

theorem Binder.value_binds (b : Binder) (v : Value) (p : Property) :
    Binds b [(v, p)] (b.value v p) := by
  intro d t d' h
  obtain ⟨binding, hb, rfl, rfl⟩ := Binder.value_ok_iff.mp h
  exact ⟨[(_, binding)], rfl, .cons hb .nil⟩

theorem Binder.operand_binds (b : Binder) (o : Operand) (p : Property) :
    Binds b (o.bound p) (b.operand o p) := by
  cases o with
  | value v => exact b.value_binds v p
  | placeholder token =>
    intro d t d' h
    unfold Binder.operand at h
    dsimp only at h
    split at h
    · obtain ⟨-, rfl, -⟩ := Draft.reuse_contains h
      exact .none rfl
    · exact absurd h throw_ok

/-! ## Predicates -/

namespace Predicate

variable (b : Binder) (schema : Schema) (kind : ClauseKind)

theorem comparison_binds (subject : Subject) (op : Operator) (operands : List Operand) :
    Binds b (schema.bound subject.propertyName fun p =>
      operands.flatMap (Operand.bound (subject.policy p)))
      (comparison b schema subject op operands) := by
  refine .refuse (.resolve fun p => .after (Draft.bindName_binds b _) fun name => ?_)
  exact .before (.mapM (fun o => b.operand_binds o _) operands) fun values => .pure _

theorem comparisonOrNot_binds (negate : Bool) (subject : Subject) (op : Operator)
    (operands : List Operand) :
    Binds b (schema.bound subject.propertyName fun p =>
      operands.flatMap (Operand.bound (subject.policy p)))
      (comparisonOrNot b schema negate subject op operands) := by
  unfold comparisonOrNot
  split
  · cases op.negation with
    | inverted opposite => exact comparison_binds b schema subject opposite operands
    | wrapped => exact .map _ (comparison_binds b schema subject op operands)
    | refused => exact .throw _
  · exact comparison_binds b schema subject op operands

theorem invocation_binds (f : Builtin) (arguments : List Argument) :
    Binds b (f.bound schema arguments) (invocation b schema f arguments) := by
  intro d c d' h
  obtain ⟨-, property, p, name, d₁, hp, hname, h⟩ := invocation_ok h
  have hfirst : d.Gains b d₁ [] := Draft.bindName_binds b _ hname
  rcases h with ⟨rfl, -, rfl⟩ | ⟨o, t, rfl, ht, -⟩
  · exact hfirst
  · rw [Builtin.bound, Schema.bound, hp]
    exact hfirst.append (b.operand_binds o _ ht)

/-- A call and its opposite are given the same value. -/
theorem bound_of_inverted {f opposite : Builtin} (h : f.negation = .inverted opposite)
    (arguments : List Argument) : opposite.bound schema arguments = f.bound schema arguments := by
  have hf : opposite = .attributeType ↔ f = .attributeType := by
    cases f <;> cases h <;> simp
  unfold Builtin.bound
  simp only [hf]

theorem invocationOrNot_binds (negate : Bool) (f : Builtin) (arguments : List Argument) :
    Binds b (f.bound schema arguments) (invocationOrNot b schema negate f arguments) := by
  unfold invocationOrNot
  split
  · cases hf : f.negation with
    | inverted opposite =>
      rw [← bound_of_inverted schema hf]
      exact invocation_binds b schema opposite arguments
    | wrapped => exact .map _ (invocation_binds b schema f arguments)
    | refused => exact .throw _
  · exact invocation_binds b schema f arguments

theorem checkComparison_binds (subject : Subject) (op : Operator) :
    Binds b [] (checkComparison kind subject op) := by
  unfold checkComparison
  split
  · cases subject with
    | size name => exact .throw _
    | property name =>
      dsimp only
      split
      · exact .throw _
      · exact .pure _
  · exact .pure _

mutual

/-- A predicate binds its values, negated or not. -/
theorem translate_binds : ∀ (negate : Bool) (p : Predicate),
    Binds b (p.bound schema) (p.translate b schema kind negate)
  | negate, .compare subject op operands => by
    rw [translate, bound]
    exact .after (checkComparison_binds b kind subject op) fun _ =>
      comparisonOrNot_binds b schema negate subject op operands
  | negate, .call f arguments => by
    rw [translate, bound]
    exact .refuse (invocationOrNot_binds b schema negate f arguments)
  | negate, .and parts => by
    rw [translate, bound]
    exact junction_binds negate .and parts
  | negate, .or parts => by
    rw [translate, bound]
    exact .refuse (junction_binds negate .or parts)
  | negate, .not p => by
    rw [translate, bound]
    exact .refuse (translate_binds (!negate) p)

/-- So does a junction. -/
theorem junction_binds : ∀ (negate : Bool) (c : Connective) (parts : List Predicate),
    Binds b (partsBound schema parts) (junction b schema kind negate c parts)
  | negate, c, [] => by
    rw [junction]
    exact .throw _
  | negate, c, [p] => by
    rw [junction, partsBound, partsBound, List.append_nil]
    exact translate_binds negate p
  | negate, c, p :: q :: rest => by
    rw [junction, partsBound]
    · exact .bind (translate_binds false p) fun first =>
        .before (parts_bind (q :: rest)) fun others => .pure _
    · simp

/-- So do the parts of a junction. -/
theorem parts_bind : ∀ parts : List Predicate,
    Binds b (partsBound schema parts) (translateAll b schema kind parts)
  | [] => by
    rw [translateAll]
    exact .pure []
  | p :: rest => by
    rw [translateAll, partsBound]
    exact .bind (translate_binds false p) fun first =>
      .before (parts_bind rest) fun others => .pure _

end

end Predicate

/-! ## Updates and projections -/

section

variable (b : Binder) (schema : Schema)

theorem SetValue.translate_binds (target : Property) : ∀ (outermost : Bool) (v : SetValue),
    Binds b (v.bound schema target) (v.translate b schema target outermost)
  | _, .operand o => .map _ (b.operand_binds o target)
  | _, .property name =>
    .after (.lift _) fun p => .after (Draft.bindName_binds b _) fun _ => .pure _
  | _, .ifNotExists name otherwise =>
    .resolve fun p => .after (Draft.bindName_binds b _) fun name =>
      .before (b.operand_binds otherwise p) fun _ => .pure _
  | outermost, .plus x y => by
    rw [SetValue.translate, SetValue.bound]
    refine .refuse (.bind (translate_binds target false x) fun _ => ?_)
    exact .before (translate_binds target false y) fun _ => .pure _
  | outermost, .minus x y => by
    rw [SetValue.translate, SetValue.bound]
    refine .refuse (.bind (translate_binds target false x) fun _ => ?_)
    exact .before (translate_binds target false y) fun _ => .pure _
  | _, .listAppend x y => by
    rw [SetValue.translate, SetValue.bound]
    refine .bind (translate_binds target false x) fun _ => ?_
    exact .before (translate_binds target false y) fun _ => .pure _

theorem Action.translate_binds (a : Action) : Binds b (a.bound schema) (a.translate b schema) := by
  cases a with
  | set name value =>
    refine .resolve fun p => .after (Draft.bindName_binds b _) fun name => ?_
    exact .before (value.translate_binds b schema p true) fun _ => .pure _
  | remove name =>
    exact .after (.lift _) fun p => .after (Draft.bindName_binds b _) fun _ => .pure _
  | add name o | delete name o =>
    refine .resolve fun p => .after (Draft.bindName_binds b _) fun name => ?_
    exact .before (b.operand_binds o p) fun _ => .pure _

theorem Update.translate_binds (u : Update) : Binds b (u.bound schema) (u.translate b schema) := by
  refine .refuse (.mapM (fun keyword => ?_) _)
  exact .before (.mapM (fun a => a.translate_binds b schema) _) fun _ => .pure _

theorem Projection.translate_binds (properties : List String) :
    Binds b [] (Projection.translate schema properties) := by
  refine .refuse ?_
  have h : Binds b (properties.flatMap fun _ => []) (properties.mapM fun property => do
      let p ← schema.resolve property
      p.bindName) :=
    .mapM (fun property => .after (.lift _) fun p => Draft.bindName_binds b _) _
  rwa [List.flatMap_eq_nil_iff.mpr fun _ _ => rfl] at h

end

/-! ## What bindings come to -/

/--
The wire value that the binding of a value for an entity has come to, where so many values had been
written before it.
-/
def Codec.BoundAs (codec : Codec) (entity : Option String) (v : BoundValue × Nat) (w : WireValue) :
    Prop :=
  ∃ binding, (codec.later v.2).bind entity false v.1.1 v.1.2 = .ok binding ∧ binding.Settles w

/-- What has been bound for some values is what their bindings have come to. -/
theorem Codec.boundAs_of_settled {codec : Codec} {entity : Option String}
    {bound : List (BoundValue × Nat)} {bindings : List (String × Binding)}
    {values : List (String × WireValue)}
    (hb : List.Forall₂ (fun v n => (codec.later v.2).bind entity false v.1.1 v.1.2 = .ok n.2)
      bound bindings)
    (hs : List.Forall₂ Draft.Settled bindings values) :
    List.Forall₂ (fun v t => codec.BoundAs entity v t.2) bound values := by
  induction hb generalizing values with
  | nil =>
    cases hs
    exact .nil
  | cons hv _ ih =>
    cases hs with
    | cons ht hs => exact .cons ⟨_, hv, ht.2⟩ (ih hs)

end Clauses
