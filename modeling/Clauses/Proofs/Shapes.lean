import Clauses.Proofs.Drafting
import Mathlib.Data.List.Forall2

/-!
# Clauses of one shape

Two clauses are of one shape if they differ in nothing but the properties that they name and the
operands that they bind. The steps in which they are made are then the same, one for one. What can
be said of the two outcomes comes from what can be said of the single placeholders: a property is
resolved and gets a name, an operand gets a value.

All relations here are parameters. The same walk over the two clauses serves to compare clauses that
differ in their data, and one clause on two scopes.

* `Predicate.Like`, `Action.Like` — the same but for the names of properties and the operands
* `Condition.Like`, `Change.Like` — the same but for the placeholders
* `Drafting.Walk` — how the two bind names and operands, and a relation that is kept when
  steps are put together
* `Drafting.Walk.predicate`, `Drafting.Walk.update` — two of one shape come to two of one shape
-/

namespace Clauses

/-! ## What callers write -/

section Written

variable (ν : String → String → Prop) (ω : Operand → Operand → Prop)

/-- The same side of a comparison, of another property. -/
inductive Subject.Like : Subject → Subject → Prop where
  | property {a a' : String} (h : ν a a') : Like (.property a) (.property a')
  | size {a a' : String} (h : ν a a') : Like (.size a) (.size a')

/-- The same kind of argument. -/
inductive Argument.Like : Argument → Argument → Prop where
  | property {a a' : String} (h : ν a a') : Like (.property a) (.property a')
  | operand {o o' : Operand} (h : ω o o') : Like (.operand o) (.operand o')

namespace Predicate

mutual

/-- The same predicate but for the names of properties and the operands. -/
inductive Like : Predicate → Predicate → Prop where
  | compare {subject subject' : Subject} (op : Operator) {operands operands' : List Operand}
    (hs : subject.Like ν subject') (ho : List.Forall₂ ω operands operands') :
    Like (.compare subject op operands) (.compare subject' op operands')
  | call (f : Builtin) {arguments arguments' : List Argument}
    (h : List.Forall₂ (Argument.Like ν ω) arguments arguments') :
    Like (.call f arguments) (.call f arguments')
  | and {parts parts' : List Predicate} (h : PartsLike parts parts') :
    Like (.and parts) (.and parts')
  | or {parts parts' : List Predicate} (h : PartsLike parts parts') : Like (.or parts) (.or parts')
  | not {p p' : Predicate} (h : Like p p') : Like (.not p) (.not p')

/-- So are the parts of two junctions. -/
inductive PartsLike : List Predicate → List Predicate → Prop where
  | nil : PartsLike [] []
  | cons {p p' : Predicate} {rest rest' : List Predicate} (h : Like p p')
    (hs : PartsLike rest rest') :
    PartsLike (p :: rest) (p' :: rest')

end

end Predicate

/-- The same but for the names of properties and the operands. -/
inductive SetValue.Like : SetValue → SetValue → Prop where
  | operand {o o' : Operand} (h : ω o o') : Like (.operand o) (.operand o')
  | property {a a' : String} (h : ν a a') : Like (.property a) (.property a')
  | plus {x x' y y' : SetValue} (hx : Like x x') (hy : Like y y') : Like (.plus x y) (.plus x' y')
  | minus {x x' y y' : SetValue} (hx : Like x x') (hy : Like y y') :
    Like (.minus x y) (.minus x' y')
  | ifNotExists {a a' : String} {o o' : Operand} (ha : ν a a') (ho : ω o o') :
    Like (.ifNotExists a o) (.ifNotExists a' o')
  | listAppend {x x' y y' : SetValue} (hx : Like x x') (hy : Like y y') :
    Like (.listAppend x y) (.listAppend x' y')

/-- The same action but for the names of properties and the operands. -/
inductive Action.Like : Action → Action → Prop where
  | set {a a' : String} {v v' : SetValue} (ha : ν a a') (hv : v.Like ν ω v') :
    Like (.set a v) (.set a' v')
  | remove {a a' : String} (ha : ν a a') : Like (.remove a) (.remove a')
  | add {a a' : String} {o o' : Operand} (ha : ν a a') (ho : ω o o') : Like (.add a o) (.add a' o')
  | delete {a a' : String} {o o' : Operand} (ha : ν a a') (ho : ω o o') :
    Like (.delete a o) (.delete a' o')

end Written

/-! ## What is on the wire -/

section OnTheWire

variable (τ : String → String → Prop)

/-- The same side of a comparison, with another placeholder. -/
inductive Compared.Like : Compared → Compared → Prop where
  | attribute {t t' : String} (h : τ t t') : Like (.attribute t) (.attribute t')
  | size {t t' : String} (h : τ t t') : Like (.size t) (.size t')

namespace Condition

mutual

/-- The same condition but for its placeholders. -/
inductive Like : Condition → Condition → Prop where
  | compare {left left' : Compared} (op : Operator) {values values' : List String}
    (hl : left.Like τ left') (hv : List.Forall₂ τ values values') :
    Like (.compare left op values) (.compare left' op values')
  | call (f : Builtin) {name name' : String} {value value' : Option String} (hn : τ name name')
    (hv : Option.Rel τ value value') : Like (.call f name value) (.call f name' value')
  | join (c : Connective) {first first' : Condition} {others others' : List Condition}
    (h : Like first first') (hs : PartsLike others others') :
    Like (.join c first others) (.join c first' others')
  | not {c c' : Condition} (h : Like c c') : Like (.not c) (.not c')

/-- So are the parts of two junctions. -/
inductive PartsLike : List Condition → List Condition → Prop where
  | nil : PartsLike [] []
  | cons {c c' : Condition} {rest rest' : List Condition} (h : Like c c')
    (hs : PartsLike rest rest') :
    PartsLike (c :: rest) (c' :: rest')

end

end Condition

/-- The same but for the placeholders. -/
inductive Term.Like : Term → Term → Prop where
  | attribute {t t' : String} (h : τ t t') : Like (.attribute t) (.attribute t')
  | bound {t t' : String} (h : τ t t') : Like (.bound t) (.bound t')
  | ifNotExists {n n' t t' : String} (hn : τ n n') (ht : τ t t') :
    Like (.ifNotExists n t) (.ifNotExists n' t')
  | listAppend {a a' b b' : Term} (ha : Like a a') (hb : Like b b') :
    Like (.listAppend a b) (.listAppend a' b')
  | plus {a a' b b' : Term} (ha : Like a a') (hb : Like b b') : Like (.plus a b) (.plus a' b')
  | minus {a a' b b' : Term} (ha : Like a a') (hb : Like b b') : Like (.minus a b) (.minus a' b')

/-- The same change but for its placeholders. -/
inductive Change.Like : Change → Change → Prop where
  | set {n n' : String} {a a' : Term} (hn : τ n n') (ha : a.Like τ a') :
    Like (.set n a) (.set n' a')
  | remove {n n' : String} (hn : τ n n') : Like (.remove n) (.remove n')
  | apply {n n' t t' : String} (hn : τ n n') (ht : τ t t') : Like (.apply n t) (.apply n' t')

/-- The same group of changes but for its placeholders. -/
structure Change.GroupLike (g g' : UpdateKeyword × List Change) : Prop where
  keyword : g.1 = g'.1
  changes : List.Forall₂ (Change.Like τ) g.2 g'.2

end OnTheWire

/-! ## Steps -/

namespace Drafting

/-- A relation between steps, made of one between their outcomes. -/
abbrev Relation := (α α' : Type) → (α → α' → Prop) → Drafting α → Drafting α' → Prop

/--
How two clauses bind names and operands, where `R` is kept when steps are put together: `ν` relates
the names of properties, `π` properties, `ω` operands and `τ` placeholders.
-/
structure Walk (R : Relation) (ν : String → String → Prop) (π : Property → Property → Prop)
    (ω : Operand → Operand → Prop) (τ : String → String → Prop) (b b' : Binder)
    (schema schema' : Schema) : Prop where
  pure {α α' : Type} {ρ : α → α' → Prop} {a : α} {a' : α'} (h : ρ a a') :
    R α α' ρ (pure a) (pure a')
  throw {α α' : Type} (ρ : α → α' → Prop) (e e' : ClauseError) : R α α' ρ (throw e) (throw e')
  bind {α α' β β' : Type} {ρ : α → α' → Prop} {σ : β → β' → Prop}
    {x : Drafting α} {x' : Drafting α'}
    {f : α → Drafting β} {f' : α' → Drafting β'} (hx : R α α' ρ x x')
    (hf : ∀ a a', ρ a a' → R β β' σ (f a) (f' a')) : R β β' σ (x >>= f) (x' >>= f')
  resolve {a a' : String} (h : ν a a') :
    R Property Property π (liftM (schema.resolve a)) (liftM (schema'.resolve a'))
  bindName {p p' : Property} (h : π p p') : R String String τ p.bindName p'.bindName
  operand {o o' : Operand} {p p' : Property} (ho : ω o o') (hp : π p p') :
    R String String τ (b.operand o p) (b'.operand o' p')
  checkTag {o o' : Operand} {p p' : Property} (ho : ω o o') (hp : π p p') :
    R Unit Unit (fun _ _ => True) (liftM (Predicate.checkTag p.wireName o))
      (liftM (Predicate.checkTag p'.wireName o'))
  bare {p p' : Property} (h : π p p') : π p.bare p'.bare

namespace Walk

variable {R : Relation} {ν : String → String → Prop} {π : Property → Property → Prop}
  {ω : Operand → Operand → Prop} {τ : String → String → Prop} {b b' : Binder}
    {schema schema' : Schema}
  {kind : ClauseKind} (w : Walk R ν π ω τ b b' schema schema')

include w

variable {α α' β β' : Type} {ρ : α → α' → Prop} {σ : β → β' → Prop}

theorem map {f : α → β} {f' : α' → β'} {x : Drafting α} {x' : Drafting α'} (h : R α α' ρ x x')
    (hf : ∀ a a', ρ a a' → σ (f a) (f' a')) : R β β' σ (f <$> x) (f' <$> x') := by
  rw [map_eq_pure_bind, map_eq_pure_bind]
  exact w.bind h fun a a' ha => w.pure (hf a a' ha)

theorem mapM {ι ι' : Type} {χ : ι → ι' → Prop} {f : ι → Drafting β} {f' : ι' → Drafting β'}
    (h : ∀ i i', χ i i' → R β β' σ (f i) (f' i')) {is : List ι} {is' : List ι'}
    (hs : List.Forall₂ χ is is') :
    R (List β) (List β') (List.Forall₂ σ) (is.mapM f) (is'.mapM f') := by
  induction hs with
  | nil => exact w.pure .nil
  | cons hi _ ih =>
    rw [List.mapM_cons, List.mapM_cons]
    exact w.bind (h _ _ hi) fun _ _ hb => w.bind ih fun _ _ hbs => w.pure (.cons hb hbs)

/-- Both go on, or neither does. -/
theorem refuse {p p' : Prop} [Decidable p] [Decidable p'] (hp : p ↔ p') (e e' : ClauseError)
    {x : Drafting α} {x' : Drafting α'} (h : R α α' ρ x x') :
    R α α' ρ (if p then (MonadExcept.throw e : Drafting PUnit) >>= fun _ => x else x)
      (if p' then (MonadExcept.throw e' : Drafting PUnit) >>= fun _ => x' else x') := by
  by_cases hc : p
  · rw [if_pos hc, if_pos (hp.mp hc)]
    exact w.bind (w.throw (fun _ _ => True) e e') fun _ _ _ => h
  · rw [if_neg hc, if_neg (mt hp.mpr hc)]
    exact h

/-! ### Predicates -/

theorem checkComparison {subject subject' : Subject}
    (hs : subject.Like ν subject') (op : Operator) :
    R Unit Unit (fun _ _ => True) (Predicate.checkComparison kind subject op)
      (Predicate.checkComparison kind subject' op) := by
  unfold Predicate.checkComparison
  split
  · cases hs with
    | property h =>
      dsimp only
      split
      · exact w.throw _ _ _
      · exact w.pure trivial
    | size h => exact w.throw _ _ _
  · exact w.pure trivial

theorem comparison {subject subject' : Subject} (hs : subject.Like ν subject') (op : Operator)
    {operands operands' : List Operand} (ho : List.Forall₂ ω operands operands') :
    R Condition Condition (Condition.Like τ) (Predicate.comparison b schema subject op operands)
      (Predicate.comparison b' schema' subject' op operands') := by
  have hname : ν subject.propertyName subject'.propertyName := by cases hs <;> assumption
  have hpolicy (p p' : Property) (hp : π p p') : π (subject.policy p) (subject'.policy p') := by
    cases hs
    · exact hp
    · exact w.bare hp
  have hcompared (t t' : String) (ht : τ t t') :
      (subject.compared t).Like τ (subject'.compared t') := by
    cases hs
    · exact .attribute ht
    · exact .size ht
  refine w.refuse (by rw [ho.length_eq]) _ _ ?_
  refine w.bind (w.resolve hname) fun p p' hp => w.bind (w.bindName hp) fun t t' ht => ?_
  exact w.bind (w.mapM (fun o o' hoo => w.operand hoo (hpolicy p p' hp)) ho)
    fun ts ts' hts => w.pure (.compare op (hcompared t t' ht) hts)

theorem comparisonOrNot (negate : Bool) {subject subject' : Subject} (hs : subject.Like ν subject')
    (op : Operator) {operands operands' : List Operand} (ho : List.Forall₂ ω operands operands') :
    R Condition Condition (Condition.Like τ)
      (Predicate.comparisonOrNot b schema negate subject op operands)
      (Predicate.comparisonOrNot b' schema' negate subject' op operands') := by
  unfold Predicate.comparisonOrNot
  split
  · cases op.negation with
    | inverted opposite => exact w.comparison hs opposite ho
    | wrapped => exact w.map (w.comparison hs op ho) fun _ _ hc => .not hc
    | refused => exact w.throw _ _ _
  · exact w.comparison hs op ho

theorem invocation (f : Builtin) {arguments arguments' : List Argument}
    (h : List.Forall₂ (Argument.Like ν ω) arguments arguments') :
    R Condition Condition (Condition.Like τ) (Predicate.invocation b schema f arguments)
      (Predicate.invocation b' schema' f arguments') := by
  unfold Predicate.invocation
  cases f.arguments? with
  | none => exact w.throw _ _ _
  | some expected =>
    -- The arguments are a property, or a property and an operand; all else is refused.
    rcases h with _ | ⟨ha | ho, _ | ⟨hb | ho', _ | _⟩⟩
    all_goals cases expected <;> try exact w.throw _ _ _
    · refine w.bind (w.resolve ha) fun p p' hp => w.bind (w.bindName hp) fun t t' ht => ?_
      exact w.pure (.call f ht .none)
    · refine w.bind (w.resolve ha) fun p p' hp => w.bind (w.checkTag ho' hp) fun _ _ _ => ?_
      refine w.bind (w.bindName hp) fun t t' ht => ?_
      exact w.bind (w.operand ho' (w.bare hp)) fun u u' hu => w.pure (.call f ht (.some hu))
    · refine w.bind (w.resolve ha) fun p p' hp => w.bind (w.bindName hp) fun t t' ht => ?_
      exact w.bind (w.operand ho' hp) fun u u' hu => w.pure (.call f ht (.some hu))

theorem invocationOrNot (negate : Bool) (f : Builtin) {arguments arguments' : List Argument}
    (h : List.Forall₂ (Argument.Like ν ω) arguments arguments') :
    R Condition Condition (Condition.Like τ)
      (Predicate.invocationOrNot b schema negate f arguments)
      (Predicate.invocationOrNot b' schema' negate f arguments') := by
  unfold Predicate.invocationOrNot
  split
  · cases f.negation with
    | inverted opposite => exact w.invocation opposite h
    | wrapped => exact w.map (w.invocation f h) fun _ _ hc => .not hc
    | refused => exact w.throw _ _ _
  · exact w.invocation f h

mutual

/-- Predicates of one shape come to conditions of one shape. -/
theorem predicate : ∀ {p p' : Predicate} (negate : Bool), p.Like ν ω p' →
    R Condition Condition (Condition.Like τ) (p.translate b schema kind negate)
      (p'.translate b' schema' kind negate)
  | _, _, negate, .compare op hs ho => by
    rw [Predicate.translate, Predicate.translate]
    exact w.bind (w.checkComparison hs op) fun _ _ _ => w.comparisonOrNot negate hs op ho
  | _, _, negate, .call f h => by
    rw [Predicate.translate, Predicate.translate]
    exact w.refuse .rfl _ _ (w.invocationOrNot negate f h)
  | _, _, negate, .and h => by
    rw [Predicate.translate, Predicate.translate]
    exact junction negate .and h
  | _, _, negate, .or h => by
    rw [Predicate.translate, Predicate.translate]
    exact w.refuse .rfl _ _ (junction negate .or h)
  | _, _, negate, .not h => by
    rw [Predicate.translate, Predicate.translate]
    exact w.refuse .rfl _ _ (predicate (!negate) h)

theorem junction : ∀ {parts parts' : List Predicate} (negate : Bool) (c : Connective),
    Predicate.PartsLike ν ω parts parts' →
    R Condition Condition (Condition.Like τ) (Predicate.junction b schema kind negate c parts)
      (Predicate.junction b' schema' kind negate c parts')
  | _, _, negate, c, .nil => by
    rw [Predicate.junction, Predicate.junction]
    exact w.throw _ _ _
  | _, _, negate, c, .cons h .nil => by
    rw [Predicate.junction, Predicate.junction]
    exact predicate negate h
  | _, _, negate, c, .cons h (.cons h' hs) => by
    rw [Predicate.junction, Predicate.junction]
    · refine w.bind (predicate false h) fun first first' hfirst => ?_
      refine w.bind (parts (.cons h' hs)) fun others others' hothers => w.pure ?_
      cases negate with
      | false => exact .join c hfirst hothers
      | true => exact .not (.join c hfirst hothers)
    · simp
    · simp

theorem parts : ∀ {ps ps' : List Predicate}, Predicate.PartsLike ν ω ps ps' →
    R (List Condition) (List Condition) (Condition.PartsLike τ)
    (Predicate.translateAll b schema kind ps)
      (Predicate.translateAll b' schema' kind ps')
  | _, _, .nil => by
    rw [Predicate.translateAll, Predicate.translateAll]
    exact w.pure .nil
  | _, _, .cons h hs => by
    rw [Predicate.translateAll, Predicate.translateAll]
    exact w.bind (predicate false h) fun _ _ hfirst =>
      w.bind (parts hs) fun _ _ hothers => w.pure (.cons hfirst hothers)

end

/-! ### Updates and projections -/

theorem setValue {target target' : Property} (ht : π target target') {v v' : SetValue}
    (h : v.Like ν ω v') (outermost : Bool) :
    R Term Term (Term.Like τ) (v.translate b schema target outermost)
      (v'.translate b' schema' target' outermost) := by
  induction h generalizing outermost with
  | operand h => exact w.map (w.operand h ht) fun _ _ hu => .bound hu
  | property h =>
    refine w.bind (w.resolve h) fun _ _ hp => ?_
    exact w.bind (w.bindName hp) fun _ _ hn => w.pure (.attribute hn)
  | plus _ _ ihx ihy =>
    rw [SetValue.translate, SetValue.translate]
    refine w.refuse .rfl _ _ (w.bind (ihx false) fun _ _ ha => ?_)
    exact w.bind (ihy false) fun _ _ hb => w.pure (.plus ha hb)
  | minus _ _ ihx ihy =>
    rw [SetValue.translate, SetValue.translate]
    refine w.refuse .rfl _ _ (w.bind (ihx false) fun _ _ ha => ?_)
    exact w.bind (ihy false) fun _ _ hb => w.pure (.minus ha hb)
  | ifNotExists ha ho =>
    refine w.bind (w.resolve ha) fun _ _ hp => w.bind (w.bindName hp) fun _ _ hn => ?_
    exact w.bind (w.operand ho hp) fun _ _ hu => w.pure (.ifNotExists hn hu)
  | listAppend _ _ ihx ihy =>
    rw [SetValue.translate, SetValue.translate]
    refine w.bind (ihx false) fun _ _ ha => ?_
    exact w.bind (ihy false) fun _ _ hb => w.pure (.listAppend ha hb)

theorem action {a a' : Action} (h : a.Like ν ω a') :
    R Change Change (Change.Like τ) (a.translate b schema) (a'.translate b' schema') := by
  cases h with
  | set ha hv =>
    refine w.bind (w.resolve ha) fun p p' hp => w.bind (w.bindName hp) fun _ _ hn => ?_
    exact w.bind (w.setValue hp hv true) fun _ _ ht => w.pure (.set hn ht)
  | remove ha =>
    exact w.bind (w.resolve ha) fun p p' hp => w.bind (w.bindName hp) fun _ _ hn =>
      w.pure (.remove hn)
  | add ha ho | delete ha ho =>
    refine w.bind (w.resolve ha) fun p p' hp => w.bind (w.bindName hp) fun _ _ hn => ?_
    exact w.bind (w.operand ho hp) fun _ _ hu => w.pure (.apply hn hu)

omit w in
theorem keyword_eq {a a' : Action} (h : a.Like ν ω a') : a.keyword = a'.keyword := by
  cases h <;> rfl

omit w in
theorem keywords_eq {u u' : Update} (h : List.Forall₂ (Action.Like ν ω) u u') :
    u.keywords = u'.keywords := by
  induction h with
  | nil => rfl
  | cons ha _ ih => rw [Update.keywords, Update.keywords, ih, keyword_eq ha]

omit w in
/-- The actions under a keyword stand in the same places. -/
theorem under_like {u u' : Update} (h : List.Forall₂ (Action.Like ν ω) u u')
    (keyword : UpdateKeyword) :
    List.Forall₂ (Action.Like ν ω) (u.under keyword) (u'.under keyword) := by
  refine List.rel_filter (fun a a' ha => ?_) h
  simp [keyword_eq ha]

/-- Updates of one shape come to groups of one shape. -/
theorem update {u u' : Update} (h : List.Forall₂ (Action.Like ν ω) u u') :
    R _ _ (List.Forall₂ (Change.GroupLike τ)) (u.translate b schema) (u'.translate b' schema') := by
  have hempty : u.isEmpty = u'.isEmpty := by cases h <;> rfl
  have hkeywords : List.Forall₂ Eq u.keywords u'.keywords := keywords_eq h ▸ List.forall₂_refl _
  refine w.refuse (by rw [hempty]) _ _ (w.mapM (fun keyword keyword' hk => ?_) hkeywords)
  subst hk
  exact w.bind (w.mapM (fun _ _ ha => w.action ha) (under_like h keyword))
    fun _ _ hc => w.pure ⟨rfl, hc⟩

/-- Projections of one shape come to as many placeholders. -/
theorem projection {properties properties' : List String}
    (h : List.Forall₂ ν properties properties') :
    R (List String) (List String) (List.Forall₂ τ) (Projection.translate schema properties)
      (Projection.translate schema' properties') := by
  have hempty : properties.isEmpty = properties'.isEmpty := by cases h <;> rfl
  refine w.refuse (by rw [hempty]) _ _ (w.mapM (fun _ _ ha => ?_) h)
  exact w.bind (w.resolve ha) fun _ _ hp => w.bindName hp

end Walk

end Drafting

end Clauses
