import Clauses.Proofs.Positions
import Clauses.Proofs.Reuse
import Mathlib.Data.List.TakeWhile

/-!
# Which predicates are translated

A predicate is translated if, and only if, it is well-formed: a condition on every position of its
tree, which says nothing of the order in which a translation goes through it. The making of a
clause checks these conditions on its way down, where it knows of the nodes above only whether
what comes is negated.

* `Predicate.WellFormed` — every part is complete, no part is negated that cannot be, and a
  condition on keys has only parts that are for keys
* `Drafting.SucceedsIff` — on which condition a step succeeds, whichever values have been bound
  before
* `Compiler.translated_iff_wellFormed` — the well-formed predicates are those that are translated
-/

namespace Clauses

open Drafting

/-! ## Well-formed predicates -/

/-- There is a property of the name. -/
def Schema.Knows (schema : Schema) (name : String) : Prop := ∃ p, schema.resolve name = .ok p

/-- The function can be called with these arguments in a condition. -/
inductive Builtin.Takes (schema : Schema) : Builtin → List Argument → Prop
  | attributeExists {name : String} (hp : schema.Knows name) :
    Takes schema .attributeExists [.property name]
  | attributeNotExists {name : String} (hp : schema.Knows name) :
    Takes schema .attributeNotExists [.property name]
  | attributeType {name t : String} (hp : schema.Knows name) (ht : t ∈ Tag.all.map Tag.name) :
    Takes schema .attributeType [.property name, .operand (.value (.text t))]
  | beginsWith {name : String} {o : Operand} (hp : schema.Knows name) :
    Takes schema .beginsWith [.property name, .operand o]
  | contains {name : String} {o : Operand} (hp : schema.Knows name) :
    Takes schema .contains [.property name, .operand o]

namespace Predicate

/-- Nothing is missing at the top: the operands are as many as the operator takes, and so on. -/
def IsComplete (schema : Schema) : Predicate → Prop
  | .compare subject op operands =>
    op.arity.Admits operands.length ∧ schema.Knows subject.propertyName
  | .call f arguments => f.Takes schema arguments
  | .and parts | .or parts => parts ≠ []
  | .not _ => True

/-- The language has a way to say the contrary of what stands at the top. -/
def IsNegatable : Predicate → Prop
  | .compare _ op _ => op ≠ .between ∧ op ≠ .beginsWith
  | .call f _ => f ≠ .beginsWith
  | .and _ | .or _ | .not _ => True

/-- What stands at the top may be used in a condition on keys. -/
def IsForKeys : Predicate → Prop
  | .compare (.property _) op _ =>
    op ∈ [.equal, .less, .lessOrEqual, .greater, .greaterOrEqual, .between, .beginsWith]
  | .call f _ => f = .beginsWith
  | .and _ => True
  | .compare (.size _) _ _ | .or _ | .not _ => False

/-- The predicate can be written as a clause of the kind. -/
structure WellFormed (schema : Schema) (kind : ClauseKind) (p : Predicate) : Prop where
  complete : ∀ path q, p.at? path = some q → q.IsComplete schema
  negatable : ∀ path q, p.at? path = some q → p.NegatedAt path → q.IsNegatable
  forKeys : kind = .keyCondition → ∀ path q, p.at? path = some q → q.IsForKeys

/-! ## On the way down -/

/-- Whether the parts are negated if the predicate is, or is not. -/
def passOn (negated : Bool) (p : Predicate) : Bool := if p.isLink then negated ^^ p.isNot else false

/-- Whether what stands at a position is negated, if the predicate is negated or not. -/
def negatedFrom (negated : Bool) (p : Predicate) : List Nat → Bool
  | [] => negated
  | i :: path =>
    match p.parts[i]? with
    | some q => q.negatedFrom (p.passOn negated) path
    | none => negated

/-- A junction hands on to its only part whether it is negated. -/
theorem passOn_and (negated : Bool) (parts : List Predicate) :
    passOn negated (.and parts) = if parts.length = 1 then negated else false := by
  rcases parts with _ | ⟨p, _ | ⟨q, rest⟩⟩ <;> simp [passOn, isLink, isNot]

theorem passOn_or (negated : Bool) (parts : List Predicate) :
    passOn negated (.or parts) = if parts.length = 1 then negated else false := by
  rcases parts with _ | ⟨p, _ | ⟨q, rest⟩⟩ <;> simp [passOn, isLink, isNot]

/--
A node goes on with the links above what stands below it, if there are only links between them.
-/
theorem linksAbove_cons {p q : Predicate} {i : Nat} (hi : p.parts[i]? = some q) (path : List Nat) :
    p.linksAbove (i :: path) = if ((q.above path).all isLink && p.isLink) = true
      then q.linksAbove path ++ [p] else q.linksAbove path := by
  have habove : p.above (i :: path) = q.above path ++ [p] := by rw [above, hi]
  rw [linksAbove, linksAbove, habove, List.takeWhile_append]
  by_cases hall : (q.above path).all isLink = true
  · have hlinks : (q.above path).takeWhile isLink = q.above path :=
      List.takeWhile_eq_self_iff.mpr (List.all_eq_true.mp hall)
    rw [hlinks, if_pos rfl, hall, Bool.true_and]
    cases hlink : p.isLink <;> simp [hlink]
  · have hlinks : ((q.above path).takeWhile isLink).length ≠ (q.above path).length := by
      intro h
      refine hall (List.all_eq_true.mpr (List.takeWhile_eq_self_iff.mp ?_))
      exact (List.takeWhile_prefix isLink).eq_of_length h
    rw [if_neg hlinks, if_neg (by simp [hall])]

/-- What is handed down arrives at a position if there are only links above it. -/
theorem negatedFrom_eq : ∀ (path : List Nat) (p : Predicate) (negated : Bool),
    p.negatedFrom negated path = (decide (Odd ((p.linksAbove path).countP isNot)) ^^
      (negated && (p.above path).all isLink))
  | [], p, negated => by simp [negatedFrom, linksAbove, above]
  | i :: path, p, negated => by
    cases hi : p.parts[i]? with
    | none => simp [negatedFrom, linksAbove, above, hi]
    | some q =>
      have habove : p.above (i :: path) = q.above path ++ [p] := by rw [above, hi]
      simp only [negatedFrom, hi]
      rw [negatedFrom_eq path q, habove, linksAbove_cons hi, List.all_append]
      cases hall : (q.above path).all isLink <;> cases hlink : p.isLink <;>
        cases hnot : p.isNot <;> cases negated <;>
        simp [passOn, hlink, hnot, Nat.odd_add_one, -Nat.not_odd_iff_even]

/-- What stands at a position is negated if, and only if, the links above it say so. -/
theorem negatedFrom_false (p : Predicate) (path : List Nat) :
    p.negatedFrom false path = true ↔ p.NegatedAt path := by
  simp [negatedFrom_eq, NegatedAt]

/-! ## Node by node -/

/-- What stands at the top can be written, negated or not, in a clause of the kind. -/
structure Fits (schema : Schema) (kind : ClauseKind) (negated : Bool) (q : Predicate) : Prop where
  complete : q.IsComplete schema
  negatable : negated = true → q.IsNegatable
  forKeys : kind = .keyCondition → q.IsForKeys

theorem fits_iff {schema : Schema} {kind : ClauseKind} {negated : Bool} {q : Predicate} :
    q.Fits schema kind negated ↔ q.IsComplete schema ∧ (negated = true → q.IsNegatable) ∧
      (kind = .keyCondition → q.IsForKeys) :=
  ⟨fun h => ⟨h.complete, h.negatable, h.forKeys⟩, fun h => ⟨h.1, h.2.1, h.2.2⟩⟩

/-- So can what stands at each position, if the whole is negated or not. -/
def FitsBelow (schema : Schema) (kind : ClauseKind) (negated : Bool) (p : Predicate) : Prop :=
  ∀ path q, p.at? path = some q → q.Fits schema kind (p.negatedFrom negated path)

theorem wellFormed_iff_fitsBelow {schema : Schema} {kind : ClauseKind} {p : Predicate} :
    p.WellFormed schema kind ↔ p.FitsBelow schema kind false := by
  constructor
  · intro h path q hq
    exact ⟨h.complete path q hq, fun hn => h.negatable path q hq ((p.negatedFrom_false path).mp hn),
      fun hk => h.forKeys hk path q hq⟩
  · intro h
    exact ⟨fun path q hq => (h path q hq).complete,
      fun path q hq hn => (h path q hq).negatable ((p.negatedFrom_false path).mpr hn),
      fun hk path q hq => (h path q hq).forKeys hk⟩

/-- The positions in a predicate are the top and the positions in its parts. -/
theorem fitsBelow_iff {schema : Schema} {kind : ClauseKind} {negated : Bool} {p : Predicate} :
    p.FitsBelow schema kind negated ↔
      p.Fits schema kind negated ∧ ∀ q ∈ p.parts, q.FitsBelow schema kind (p.passOn negated) := by
  constructor
  · intro h
    refine ⟨h [] p rfl, fun q hq path x hx => ?_⟩
    obtain ⟨i, hi⟩ := List.mem_iff_getElem?.mp hq
    have hx' := h (i :: path) x (at?_cons.mpr ⟨q, hi, hx⟩)
    rwa [negatedFrom, hi] at hx'
  · rintro ⟨htop, hparts⟩ path x hx
    cases path with
    | nil =>
      cases hx
      exact htop
    | cons i path =>
      obtain ⟨q, hi, hx⟩ := at?_cons.mp hx
      rw [negatedFrom, hi]
      exact hparts q (List.mem_of_getElem? hi) path x hx

end Predicate

/-! ## Steps that succeed -/

/-- From a draft that has bound `n` values the step succeeds just on this condition. -/
def Drafting.SucceedsIff {α : Type} (n : Nat) (P : Prop) (x : Drafting α) : Prop :=
  ∀ d, d.bindings.length = n → ((∃ a d', x d = .ok (a, d')) ↔ P)

namespace Drafting.SucceedsIff

variable {α β : Type} {n : Nat} {P Q : Prop}

theorem of_iff {x : Drafting α} (hx : SucceedsIff n P x) (h : P ↔ Q) : SucceedsIff n Q x :=
  fun d hd => (hx d hd).trans h

theorem pure (a : α) : SucceedsIff n True (pure a : Drafting α) :=
  fun d _ => ⟨fun _ => trivial, fun _ => ⟨a, d, rfl⟩⟩

theorem throw (e : ClauseError) : SucceedsIff n False (throw e : Drafting α) := by
  intro d _
  constructor
  · rintro ⟨a, d', h⟩
    exact throw_ok h
  · exact False.elim

theorem lift {x : Except ClauseError α} (h : (∃ a, x = .ok a) ↔ P) :
    SucceedsIff n P (liftM x : Drafting α) := by
  intro d _
  rw [← h]
  constructor
  · rintro ⟨a, d', hx⟩
    exact ⟨a, (lift_ok.mp hx).1⟩
  · rintro ⟨a, hx⟩
    exact ⟨a, d, lift_ok.mpr ⟨hx, rfl⟩⟩

/-- What stands behind a step finds as many values more as the step has bound. -/
theorem bind {b : Binder} {bound : List BoundValue} {x : Drafting α} {f : α → Drafting β}
    (hb : Binds b bound x) (hx : SucceedsIff n P x)
    (hf : ∀ a, SucceedsIff (n + bound.length) Q (f a)) : SucceedsIff n (P ∧ Q) (x >>= f) := by
  intro d hd
  have hlength {a d'} (h : x d = .ok (a, d')) : d'.bindings.length = n + bound.length := by
    rw [(hb h).length_eq, hd]
  constructor
  · rintro ⟨y, d'', h⟩
    obtain ⟨a, d', h₁, h₂⟩ := bind_ok.mp h
    exact ⟨(hx d hd).mp ⟨a, d', h₁⟩, (hf a d' (hlength h₁)).mp ⟨y, d'', h₂⟩⟩
  · rintro ⟨hP, hQ⟩
    obtain ⟨a, d', h₁⟩ := (hx d hd).mpr hP
    obtain ⟨y, d'', h₂⟩ := (hf a d' (hlength h₁)).mpr hQ
    exact ⟨y, d'', bind_ok.mpr ⟨a, d', h₁, h₂⟩⟩

/-- A step that always succeeds is followed by another one. -/
theorem after {b : Binder} {bound : List BoundValue} {x : Drafting α} {f : α → Drafting β}
    (hb : Binds b bound x) (hx : SucceedsIff n True x)
    (hf : ∀ a, SucceedsIff (n + bound.length) Q (f a)) : SucceedsIff n Q (x >>= f) :=
  (bind hb hx hf).of_iff (iff_of_eq (true_and Q))

/-- A step is followed by one that always succeeds. -/
theorem before {x : Drafting α} {f : α → Drafting β} (hx : SucceedsIff n P x)
    (hf : ∀ a m, SucceedsIff m True (f a)) : SucceedsIff n P (x >>= f) := by
  intro d hd
  rw [← hx d hd]
  constructor
  · rintro ⟨y, d'', h⟩
    obtain ⟨a, d', h₁, -⟩ := bind_ok.mp h
    exact ⟨a, d', h₁⟩
  · rintro ⟨a, d', h₁⟩
    obtain ⟨y, d'', h₂⟩ := (hf a _ d' rfl).mpr trivial
    exact ⟨y, d'', bind_ok.mpr ⟨a, d', h₁, h₂⟩⟩

theorem map {x : Drafting α} (f : α → β) (hx : SucceedsIff n P x) : SucceedsIff n P (f <$> x) := by
  rw [map_eq_pure_bind]
  exact hx.before fun _ _ => pure _

theorem refuse {p : Prop} [Decidable p] {e : ClauseError} {f : β → Drafting α} {x : Drafting α}
    (hx : SucceedsIff n P x) :
    SucceedsIff n (¬p ∧ P) (if p then (MonadExcept.throw e : Drafting β) >>= f else x) := by
  by_cases hp : p
  · rw [if_pos hp]
    intro d _
    constructor
    · rintro ⟨a, d', h⟩
      obtain ⟨_, _, ht, -⟩ := bind_ok.mp h
      exact absurd ht throw_ok
    · exact fun h => absurd hp h.1
  · rw [if_neg hp]
    exact hx.of_iff (by simp [hp])

/-- A step that starts with the property of a name. -/
theorem resolve {schema : Schema} {name : String} {f : Property → Drafting β}
    (hf : ∀ p, schema.resolve name = .ok p → SucceedsIff n P (f p)) :
    SucceedsIff n (schema.Knows name ∧ P) (liftM (schema.resolve name) >>= f) := by
  intro d hd
  constructor
  · rintro ⟨b, d', h⟩
    obtain ⟨p, d₁, h₁, h₂⟩ := bind_ok.mp h
    obtain ⟨hp, rfl⟩ := lift_ok.mp h₁
    exact ⟨⟨p, hp⟩, (hf p hp d₁ hd).mp ⟨b, d', h₂⟩⟩
  · rintro ⟨⟨p, hp⟩, hP⟩
    obtain ⟨b, d', h⟩ := (hf p hp d hd).mpr hP
    exact ⟨b, d', bind_ok.mpr ⟨p, d, lift_ok.mpr ⟨hp, rfl⟩, h⟩⟩

end Drafting.SucceedsIff

/-- A name gets its placeholder in front of what succeeds on some condition. -/
theorem Property.bindName_then {α : Type} {n : Nat} {P : Prop} (p : Property)
    {f : String → Drafting α} (hf : ∀ name, SucceedsIff n P (f name)) :
    SucceedsIff n P (p.bindName >>= f) := by
  intro d hd
  constructor
  · rintro ⟨a, d', h⟩
    obtain ⟨name, d₁, hname, h⟩ := bind_ok.mp h
    cases hname
    exact (hf d.nextName { d with names := d.names ++ [(d.nextName, p.wireName)] } hd).mp ⟨a, d', h⟩
  · intro hP
    obtain ⟨a, d', h⟩ := (hf d.nextName
      { d with names := d.names ++ [(d.nextName, p.wireName)] } hd).mpr hP
    exact ⟨a, d', bind_ok.mpr ⟨_, _, rfl, h⟩⟩

/-! ## Operands -/

/-- The values are bound for the entity, one after the other, and without waiting for a hook. -/
def Codec.BindsAtOnce (codec : Codec) (entity : Option String) (bound : List BoundValue) : Prop :=
  ∀ v ∈ bound.zipIdx, ∃ w, (codec.later v.2).bind entity false v.1.1 v.1.2 = .ok (.ready w)

namespace Codec.BindsAtOnce

variable {codec : Codec} {entity : Option String} {bound bound' : List BoundValue}

theorem append_iff : codec.BindsAtOnce entity (bound ++ bound') ↔
    codec.BindsAtOnce entity bound ∧ (codec.later bound.length).BindsAtOnce entity bound' := by
  simp only [BindsAtOnce, List.zipIdx_append, List.forall_mem_append, later_later, Nat.zero_add]
  rw [List.zipIdx_eq_map_add (l := bound'), List.forall_mem_map]

/-- What has been bound waits for nothing. -/
theorem ready (h : codec.BindsAtOnce entity bound) {bindings : List (String × Binding)}
    (hb : List.Forall₂ (fun v n => (codec.later v.2).bind entity false v.1.1 v.1.2 = .ok n.2)
      bound.zipIdx bindings) : ∀ n ∈ bindings, ∃ w, n.2 = .ready w := by
  unfold BindsAtOnce at h
  generalize bound.zipIdx = values at h hb
  induction hb with
  | nil => exact List.forall_mem_nil _
  | cons hv _ ih =>
    obtain ⟨⟨w, hw⟩, hrest⟩ := List.forall_mem_cons.mp h
    exact List.forall_mem_cons.mpr ⟨⟨w, Except.ok.inj (hv.symm.trans hw)⟩, ih hrest⟩

end Codec.BindsAtOnce

section

variable {codec : Codec} {schema : Schema} {n : Nat}

/-- A value that is bound at once gets its placeholder. -/
theorem Binder.operand_succeeds {o : Operand} {p : Property} {v : Value} (hl : o.literal? = some v)
    (hb : (codec.later n).BindsAtOnce (some schema.entity) (o.bound p)) :
    SucceedsIff n True ((codec.binder schema).operand o p) := by
  cases o with
  | placeholder token => cases hl
  | value v =>
    obtain ⟨w, hw⟩ := hb ((v, p), 0) List.mem_cons_self
    rw [Codec.later_zero] at hw
    rintro d rfl
    exact ⟨fun _ => trivial, fun _ => ⟨_, _, Binder.value_ok_iff.mpr ⟨.ready w, hw, rfl, rfl⟩⟩⟩

/-- So do all the values of a comparison. -/
theorem Binder.operands_succeed {p : Property} :
    ∀ {operands : List Operand} {n : Nat} {vs : List Value},
      operands.mapM Operand.literal? = some vs →
      (codec.later n).BindsAtOnce (some schema.entity) (operands.flatMap (Operand.bound p)) →
      SucceedsIff n True (operands.mapM fun o => (codec.binder schema).operand o p)
  | [], _, _, _, _ => .pure []
  | o :: operands, n, vs, hl, hb => by
    rw [List.mapM_cons] at hl
    obtain ⟨v, hv, hl₁⟩ := Option.bind_eq_some_iff.mp hl
    obtain ⟨vs', hvs, -⟩ := Option.bind_eq_some_iff.mp hl₁
    rw [List.flatMap_cons, Codec.BindsAtOnce.append_iff, Codec.later_later] at hb
    rw [List.mapM_cons]
    refine .after (Binder.operand_binds _ o p) (operand_succeeds hv hb.1) fun t => ?_
    exact (operands_succeed hvs hb.2).before fun ts _ => .pure _

/-! ## Comparisons -/

/-- A comparison that is not refused when it is negated has as many operands as its opposite. -/
theorem Operator.negation_cases (op : Operator) :
    (op.negation = .refused ∧ ¬(op ≠ .between ∧ op ≠ .beginsWith)) ∨
      (op ≠ .between ∧ op ≠ .beginsWith) ∧ (op.negation = .wrapped ∨
        ∃ opposite, op.negation = .inverted opposite ∧ opposite.arity = op.arity) := by
  cases op <;> simp [negation, inverse?, arity]

namespace Predicate

variable {subject : Subject} {op : Operator} {operands : List Operand} {vs : List Value}

theorem comparison_succeedsIff (hl : operands.mapM Operand.literal? = some vs)
    (hb : (codec.later n).BindsAtOnce (some schema.entity)
        (schema.bound subject.propertyName fun p =>
      operands.flatMap (Operand.bound (subject.policy p)))) :
    SucceedsIff n (op.arity.Admits operands.length ∧ schema.Knows subject.propertyName)
      (comparison (codec.binder schema) schema subject op operands) := by
  refine (SucceedsIff.refuse (.resolve (P := True) fun p hp => ?_)).of_iff (by simp)
  rw [Schema.bound, hp] at hb
  exact p.bindName_then fun name => (Binder.operands_succeed hl hb).before fun ts _ => .pure _

theorem comparisonOrNot_succeedsIff (negate : Bool) (hl : operands.mapM Operand.literal? = some vs)
    (hb : (codec.later n).BindsAtOnce (some schema.entity)
        (schema.bound subject.propertyName fun p =>
      operands.flatMap (Operand.bound (subject.policy p)))) :
    SucceedsIff n ((op.arity.Admits operands.length ∧ schema.Knows subject.propertyName) ∧
        (negate = true → op ≠ .between ∧ op ≠ .beginsWith))
      (comparisonOrNot (codec.binder schema) schema negate subject op operands) := by
  unfold comparisonOrNot
  cases negate with
  | false => exact (comparison_succeedsIff hl hb).of_iff (by simp)
  | true =>
    rw [if_pos rfl]
    rcases op.negation_cases with ⟨hop, hnot⟩ | ⟨hop, hwrapped | ⟨opposite, hinverted, harity⟩⟩
    · rw [hop]
      exact (SucceedsIff.throw _).of_iff ⟨False.elim, fun h => hnot (h.2 rfl)⟩
    · rw [hwrapped]
      exact ((comparison_succeedsIff hl hb).map _).of_iff (by simp [hop])
    · rw [hinverted, ← harity]
      exact (comparison_succeedsIff hl hb).of_iff (by simp [hop])

theorem checkComparison_succeedsIff (kind : ClauseKind) (subject : Subject) (op : Operator)
    (operands : List Operand) :
    SucceedsIff n (kind = .keyCondition → IsForKeys (.compare subject op operands))
      (checkComparison kind subject op) := by
  unfold checkComparison
  by_cases hk : kind = .keyCondition
  · rw [if_pos hk]
    cases subject with
    | size name => exact (SucceedsIff.throw _).of_iff (by simp [hk, IsForKeys])
    | property name =>
      have hop : op.isForKeys = true ↔ IsForKeys (.compare (.property name) op operands) := by
        cases op <;> simp [Operator.isForKeys, IsForKeys]
      cases hf : op.isForKeys with
      | true => exact (SucceedsIff.pure ()).of_iff (by simp [← hop, hf])
      | false => exact (SucceedsIff.throw _).of_iff (by simp [← hop, hf, hk])
  · rw [if_neg hk]
    exact (SucceedsIff.pure ()).of_iff (by simp [hk])

/-! ## Calls -/

/-- The name of a type is one of those that there are. -/
theorem checkTag_ok_iff {field : String} {v : Value} :
    (∃ u, checkTag field (.value v) = .ok u) ↔ ∃ t, v = .text t ∧ t ∈ Tag.all.map Tag.name := by
  have htag (t : String) : (Tag.ofName? t).isSome = true ↔ t ∈ Tag.all.map Tag.name := by
    simp [Tag.ofName?]
  cases v with
  | text t =>
    rw [checkTag]
    split
    · next h => simpa using (htag t).mp h
    · next h => simpa using mt (htag t).mpr h
  | _ => simp [checkTag]

variable {f : Builtin} {arguments : List Argument} {vss : List (List Value)} {property : String}

/-- A function of one property takes every property that there is. -/
theorem takes_property_iff (hf : f.arguments? = some .property) :
    f.Takes schema [.property property] ↔ schema.Knows property := by
  constructor
  · intro h
    cases h with
    | attributeExists hp | attributeNotExists hp => exact hp
  · intro hp
    cases f with
    | attributeExists => exact .attributeExists hp
    | attributeNotExists => exact .attributeNotExists hp
    | _ => cases hf

/-- A function of a property and a type looks at the text that names the type. -/
theorem takes_type_iff {v : Value} (hf : f.arguments? = some .propertyAndType) :
    f.Takes schema [.property property, .operand (.value v)] ↔
      schema.Knows property ∧ ∃ t, v = .text t ∧ t ∈ Tag.all.map Tag.name := by
  constructor
  · intro h
    cases h with
    | attributeType hp ht => exact ⟨hp, _, rfl, ht⟩
    | beginsWith | contains => cases hf
  · rintro ⟨hp, t, rfl, ht⟩
    cases f with
    | attributeType => exact .attributeType hp ht
    | _ => cases hf

/-- A function of a property and a value does not look at the value. -/
theorem takes_value_iff {o : Operand} (hf : f.arguments? = some .propertyAndValue) :
    f.Takes schema [.property property, .operand o] ↔ schema.Knows property := by
  constructor
  · intro h
    cases h with
    | attributeType hp | beginsWith hp | contains hp => exact hp
  · intro hp
    cases f with
    | beginsWith => exact .beginsWith hp
    | contains => exact .contains hp
    | _ => cases hf

theorem invocation_succeedsIff (hl : arguments.mapM Argument.literals? = some vss)
    (hb : (codec.later n).BindsAtOnce (some schema.entity) (f.bound schema arguments)) :
    SucceedsIff n (f.Takes schema arguments)
      (invocation (codec.binder schema) schema f arguments) := by
  fun_cases invocation (codec.binder schema) schema f arguments with
  | case1 =>
    rename_i hf
    refine (SucceedsIff.throw _).of_iff ⟨False.elim, fun h => ?_⟩
    cases h <;> cases hf
  | case2 property hf =>
    refine (SucceedsIff.resolve (P := True) fun p _ => ?_).of_iff (by simp [takes_property_iff hf])
    exact p.bindName_then fun name => .pure _
  | case3 property o hf =>
    have htype : f = .attributeType := by
      cases f <;> first | rfl | cases hf
    obtain ⟨v, hv, -⟩ := Argument.literals?_operand hl
    cases o with
    | placeholder token => cases hv
    | value v =>
      refine (SucceedsIff.resolve fun p hp => ?_).of_iff (takes_type_iff hf).symm
      simp only [Builtin.bound, Schema.bound, hp, if_pos htype] at hb
      refine (SucceedsIff.bind (Binds.lift (b := codec.binder schema) _)
        (.lift checkTag_ok_iff) fun _ => ?_).of_iff (iff_of_eq (and_true _))
      exact p.bindName_then fun name => (Binder.operand_succeeds hv hb).before fun t _ => .pure _
  | case4 property o hf =>
    have htype : f ≠ .attributeType := by
      rintro rfl
      cases hf
    obtain ⟨v, hv, -⟩ := Argument.literals?_operand hl
    refine (SucceedsIff.resolve (P := True) fun p hp => ?_).of_iff (by simp [takes_value_iff hf])
    simp only [Builtin.bound, Schema.bound, hp, if_neg htype] at hb
    exact p.bindName_then fun name => (Binder.operand_succeeds hv hb).before fun t _ => .pure _
  | case5 expected _ hproperty htype hvalue =>
    rename_i hf
    refine (SucceedsIff.throw _).of_iff ⟨False.elim, fun h => ?_⟩
    cases h with
    | attributeExists hp | attributeNotExists hp =>
      cases hf
      exact hproperty _ rfl rfl
    | attributeType hp ht =>
      cases hf
      exact htype _ _ rfl rfl
    | beginsWith hp | contains hp =>
      cases hf
      exact hvalue _ _ rfl rfl

/-- A call and its opposite take the same arguments. -/
theorem takes_of_inverted {opposite : Builtin} (h : f.negation = .inverted opposite) :
    opposite.Takes schema arguments ↔ f.Takes schema arguments := by
  constructor
  · intro ht
    cases ht <;> cases f <;> cases h
    · exact .attributeNotExists ‹_›
    · exact .attributeExists ‹_›
  · intro ht
    cases ht <;> cases h
    · exact .attributeNotExists ‹_›
    · exact .attributeExists ‹_›

theorem invocationOrNot_succeedsIff (negate : Bool)
    (hl : arguments.mapM Argument.literals? = some vss)
    (hb : (codec.later n).BindsAtOnce (some schema.entity) (f.bound schema arguments)) :
    SucceedsIff n (f.Takes schema arguments ∧ (negate = true → f ≠ .beginsWith))
      (invocationOrNot (codec.binder schema) schema negate f arguments) := by
  have hne (h : f.negation ≠ .refused) : f.Takes schema arguments ↔
      f.Takes schema arguments ∧ (negate = true → f ≠ .beginsWith) := by
    refine ⟨fun ht => ⟨ht, fun _ => ?_⟩, And.left⟩
    rintro rfl
    exact h rfl
  unfold invocationOrNot
  cases negate with
  | false => exact (invocation_succeedsIff hl hb).of_iff (by simp)
  | true =>
    rw [if_pos rfl]
    cases hf : f.negation with
    | inverted opposite =>
      rw [← bound_of_inverted schema hf] at hb
      exact (invocation_succeedsIff hl hb).of_iff
        ((takes_of_inverted hf).trans (hne (by simp [hf])))
    | wrapped => exact ((invocation_succeedsIff hl hb).map _).of_iff (hne (by simp [hf]))
    | refused =>
      obtain rfl : f = .beginsWith := by
        cases f <;> first | rfl | cases hf
      exact (SucceedsIff.throw _).of_iff (by simp)

/-! ## Trees -/

mutual

/-- A predicate is translated if what stands at each of its positions can be written. -/
theorem translate_succeedsIff (kind : ClauseKind) (negate : Bool) :
    ∀ (p : Predicate) {n : Nat} {vs : List Value}, p.literals? = some vs →
      (codec.later n).BindsAtOnce (some schema.entity) (p.bound schema) →
      SucceedsIff n (p.FitsBelow schema kind negate)
        (p.translate (codec.binder schema) schema kind negate)
  | .compare subject op operands, n, vs, hl, hb => by
    rw [literals?] at hl
    rw [bound] at hb
    rw [translate]
    refine (SucceedsIff.bind (checkComparison_binds (codec.binder schema) kind subject op)
      (checkComparison_succeedsIff kind subject op operands) fun _ =>
        comparisonOrNot_succeedsIff negate hl hb).of_iff ?_
    rw [fitsBelow_iff, fits_iff]
    simp only [parts, IsComplete, IsNegatable, List.not_mem_nil, false_implies, implies_true]
    tauto
  | .call f arguments, n, vs, hl, hb => by
    rw [literals?] at hl
    obtain ⟨vss, hvss, -⟩ := Option.map_eq_some_iff.mp hl
    rw [bound] at hb
    rw [translate]
    refine (SucceedsIff.refuse (invocationOrNot_succeedsIff negate hvss hb)).of_iff ?_
    rw [fitsBelow_iff, fits_iff]
    simp only [parts, IsComplete, IsNegatable, IsForKeys, List.not_mem_nil,
      false_implies, implies_true]
    tauto
  | .and parts, n, vs, hl, hb => by
    rw [literals?] at hl
    rw [bound] at hb
    rw [translate]
    refine (junction_succeedsIff kind negate .and parts hl hb).of_iff ?_
    rw [fitsBelow_iff, fits_iff]
    simp [IsComplete, IsNegatable, IsForKeys, passOn_and, Predicate.parts]
  | .or parts, n, vs, hl, hb => by
    rw [literals?] at hl
    rw [bound] at hb
    rw [translate]
    refine (SucceedsIff.refuse (junction_succeedsIff kind negate .or parts hl hb)).of_iff ?_
    rw [fitsBelow_iff, fits_iff]
    simp [IsComplete, IsNegatable, IsForKeys, passOn_or, Predicate.parts]
    tauto
  | .not p, n, vs, hl, hb => by
    rw [literals?] at hl
    rw [bound] at hb
    rw [translate]
    refine (SucceedsIff.refuse (translate_succeedsIff kind (!negate) p hl hb)).of_iff ?_
    rw [fitsBelow_iff (p := .not p), fits_iff]
    simp [IsComplete, IsNegatable, IsForKeys, passOn, isLink, isNot, Predicate.parts]

/-- A junction hands on what is negated to its only part. -/
theorem junction_succeedsIff (kind : ClauseKind) (negate : Bool) (c : Connective) :
    ∀ (parts : List Predicate) {n : Nat} {vs : List Value}, literalsOf? parts = some vs →
      (codec.later n).BindsAtOnce (some schema.entity) (partsBound schema parts) →
      SucceedsIff n (parts ≠ [] ∧
          ∀ q ∈ parts, q.FitsBelow schema kind (if parts.length = 1 then negate else false))
        (junction (codec.binder schema) schema kind negate c parts)
  | [], n, vs, _, _ => by
    rw [junction]
    exact (SucceedsIff.throw _).of_iff (by simp)
  | [p], n, vs, hl, hb => by
    obtain ⟨ws, ws', hws, -, -⟩ := literalsOf?_cons hl
    rw [partsBound] at hb
    rw [junction]
    exact (translate_succeedsIff kind negate p hws (Codec.BindsAtOnce.append_iff.mp hb).1).of_iff
      (by simp)
  | p :: q :: rest, n, vs, hl, hb => by
    obtain ⟨ws, ws', hws, hws', -⟩ := literalsOf?_cons hl
    rw [partsBound] at hb
    obtain ⟨hb₁, hb₂⟩ := Codec.BindsAtOnce.append_iff.mp hb
    rw [Codec.later_later] at hb₂
    rw [junction]
    · refine (SucceedsIff.bind (p.translate_binds _ schema kind false)
        (translate_succeedsIff kind false p hws hb₁) fun first =>
          (translateAll_succeedsIff kind (q :: rest) hws' hb₂).before fun others _ =>
            .pure _).of_iff ?_
      simp
    · simp

/-- The parts of a junction that has several of them are translated as they are. -/
theorem translateAll_succeedsIff (kind : ClauseKind) :
    ∀ (parts : List Predicate) {n : Nat} {vs : List Value}, literalsOf? parts = some vs →
      (codec.later n).BindsAtOnce (some schema.entity) (partsBound schema parts) →
      SucceedsIff n (∀ q ∈ parts, q.FitsBelow schema kind false)
        (translateAll (codec.binder schema) schema kind parts)
  | [], n, vs, _, _ => by
    rw [translateAll]
    exact (SucceedsIff.pure []).of_iff (by simp)
  | p :: rest, n, vs, hl, hb => by
    obtain ⟨ws, ws', hws, hws', -⟩ := literalsOf?_cons hl
    rw [partsBound] at hb
    obtain ⟨hb₁, hb₂⟩ := Codec.BindsAtOnce.append_iff.mp hb
    rw [Codec.later_later] at hb₂
    rw [translateAll]
    refine (SucceedsIff.bind (translate_binds _ schema kind false p)
      (translate_succeedsIff kind false p hws hb₁) fun first =>
        (translateAll_succeedsIff kind rest hws' hb₂).before fun others _ => .pure _).of_iff ?_
    rw [List.forall_mem_cons]

end

end Predicate

end

/-! ## Clauses -/

/-- Bindings that wait for nothing are resolved, unless the caller has given up. -/
theorem Draft.resolve_of_ready {mode : Mode} (hm : mode.isCancelled = false)
    {bindings : List (String × Binding)} (h : ∀ b ∈ bindings, ∃ w, b.2 = .ready w) :
    ∃ values, resolve mode bindings = .ok values := by
  cases mode with
  | sync =>
    show ∃ values, resolveNow bindings = .ok values
    induction bindings with
    | nil => exact ⟨[], rfl⟩
    | cons b rest ih =>
      obtain ⟨token, b⟩ := b
      obtain ⟨⟨w, rfl⟩, hrest⟩ := List.forall_mem_cons.mp h
      obtain ⟨values, hvalues⟩ := ih hrest
      exact ⟨(token, w) :: values, by rw [resolveNow, hvalues]; rfl⟩
  | async cancelled =>
    cases hm
    have hnone : deferred bindings = [] := by
      refine List.filterMap_eq_nil_iff.mpr fun b hb => ?_
      obtain ⟨token, b⟩ := b
      obtain ⟨w, rfl⟩ := h _ hb
      rfl
    exact ⟨fill bindings [], by rw [resolve_async, hnone]; rfl⟩

/-- Where every hook answers at once, no value is waited for. -/
theorem Codec.all_ready_of_allSync {codec : Codec} {entity : Option String} {cancelled : Bool}
    (hsync : codec.hooks.AllSync) {bound : List (BoundValue × Nat)}
    {bindings : List (String × Binding)}
    (h : List.Forall₂ (fun v n => (codec.later v.2).bind entity cancelled v.1.1 v.1.2 = .ok n.2)
      bound bindings) : ∀ n ∈ bindings, ∃ w, n.2 = .ready w := by
  induction h with
  | nil => exact List.forall_mem_nil _
  | @cons v _ _ _ hv _ ih =>
    have hlater : (codec.later v.2).hooks.AllSync := hsync
    exact List.forall_mem_cons.mpr ⟨ready_of_allSync hlater hv, ih⟩

namespace Compiler

variable {c : Compiler} {mode : Mode} {kind : ClauseKind} {schema : Schema} {p : Predicate}

/-- Where every hook answers at once, the bindings of a clause that has been made are resolved. -/
theorem resolve_of_allSync (hm : mode.isCancelled = false) {b : Binder}
    {source : Source} {s : Scope}
    {expression : List Char} {d : Draft} (h : c.draft b source (.on s) = .ok (expression, d))
    (hsync : b.codec.hooks.AllSync) : ∃ values, Draft.resolve mode d.bindings = .ok values := by
  obtain ⟨bound, -, new, hnew, hgains⟩ := draft_gains (.on s) h
  refine Draft.resolve_of_ready hm ?_
  rw [hnew]
  exact Codec.all_ready_of_allSync hsync hgains

/--
**Exactly the well-formed predicates are translated.** If all the operands of a predicate are values
that the codec binds at once in the way of the properties that they come with, then the predicate is
translated as a clause of a kind, on any scope, if and only if predicates make clauses of the kind
and the predicate is well-formed.
-/
theorem translated_iff_wellFormed (c : Compiler) (hm : mode.isCancelled = false) (kind : ClauseKind)
    {vs : List Value} (hl : p.literals? = some vs)
    (hb : c.codec.BindsAtOnce (some schema.entity) (p.bound schema)) (s : Scope) :
    (∃ clause s', c.translate mode (.predicate kind schema p) s = .ok clause s') ↔
      (kind = .keyCondition ∨ kind = .filter ∨ kind = .condition) ∧ p.WellFormed schema kind := by
  have hkind : ¬(!kind.isConjunctive) = true ↔
      kind = .keyCondition ∨ kind = .filter ∨ kind = .condition := by
    cases kind <;> decide
  have hmake : SucceedsIff 0 ((kind = .keyCondition ∨ kind = .filter ∨ kind = .condition) ∧
      p.WellFormed schema kind) (draftPredicate (c.codec.binder schema) kind schema p) := by
    refine (SucceedsIff.refuse ?_).of_iff (and_congr hkind Predicate.wellFormed_iff_fitsBelow.symm)
    have hbind : (c.codec.later 0).BindsAtOnce (some schema.entity) (p.bound schema) := hb
    exact (p.translate_succeedsIff kind false hl hbind).before fun condition _ => .pure _
  have hcomplete : c.translate mode (.predicate kind schema p)
      = Draft.complete mode (draftPredicate (c.codec.binder schema) kind schema p) := by
    show Draft.complete mode (c.draft (c.binder mode _) _) = _
    rw [binder, hm]
    rfl
  rw [← hmake (.on s) rfl, hcomplete]
  constructor
  · rintro ⟨clause, s', h⟩
    obtain ⟨expression, d, values, hd, -⟩ := Draft.complete_iff.mp h
    exact ⟨expression, d, hd⟩
  · rintro ⟨expression, d, hd⟩
    -- The bindings of the draft are those of the values, and these wait for nothing.
    have hdraft : c.draft (c.codec.binder schema) (.predicate kind schema p) (.on s)
      = .ok (expression, d) := hd
    obtain ⟨bound, rfl, new, hnew, hgains⟩ := draft_gains (.on s) hdraft
    have hready : ∀ n ∈ d.bindings, ∃ w, n.2 = .ready w := by
      rw [hnew]
      exact hb.ready hgains
    obtain ⟨values, hvalues⟩ := Draft.resolve_of_ready hm hready
    exact ⟨_, _, Draft.complete_iff.mpr ⟨expression, d, values, hd, hvalues, rfl, rfl⟩⟩

/-- Of a vintage between two years. -/
def isMiddleAged : Predicate :=
  .compare (.property "Vintage") .between [.value (.integer 1961), .value (.integer 1982)]

/--
A range can stand below two negations, and not below one, with a junction of one part between.
-/
theorem middle_aged_translated :
    let c : Compiler := ⟨.standard, .empty⟩
    let translates (p : Predicate) : Prop :=
      ∃ clause s', c.translate .sync (.predicate .filter bottleSchema p) c.scope = .ok clause s'
    let once : Predicate := .not (.or [isMiddleAged])
    let twice : Predicate := .not (.or [.not isMiddleAged])
    twice.WellFormed bottleSchema .filter ∧ translates twice ∧
      ¬once.WellFormed bottleSchema .filter ∧ ¬translates once := by
  intro c translates once twice
  let vintage : Property := (Property.plain "vintage").withFormat "D6"
  have hb : c.codec.BindsAtOnce (some bottleSchema.entity)
      [(.integer 1961, vintage), (.integer 1982, vintage)] := by
    rw [Codec.BindsAtOnce, List.zipIdx_cons, List.forall_mem_cons, List.zipIdx_singleton,
      List.forall_mem_singleton]
    exact ⟨⟨.text "001961", rfl⟩, ⟨.text "001982", rfl⟩⟩
  have honce : translates once ↔ _ ∧ once.WellFormed bottleSchema .filter :=
    translated_iff_wellFormed c rfl .filter (show once.literals? = some _ from rfl) hb c.scope
  have htwice : translates twice ↔ _ ∧ twice.WellFormed bottleSchema .filter :=
    translated_iff_wellFormed c rfl .filter (show twice.literals? = some _ from rfl) hb c.scope
  have hrange : ¬once.WellFormed bottleSchema .filter := by
    intro h
    exact (h.negatable [0, 0] isMiddleAged rfl (by decide)).1 rfl
  let clause : Clause := ⟨"#attr0 BETWEEN :p0 AND :p1", [("#attr0", "vintage")],
    [(":p0", .text "001961"), (":p1", .text "001982")]⟩
  have h : translates twice := ⟨clause, c.scope.enter clause.names clause.values, by decide +kernel⟩
  exact ⟨(htwice.mp h).2, h, hrange, fun h => hrange (honce.mp h).2⟩

end Compiler

end Clauses
