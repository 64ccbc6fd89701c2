import Clauses.Compiler

/-!
# Clauses that are made alike

A clause is made in the same steps whatever its values are bound to: only the binding of a value
looks at the codec and at its hooks. Two makings of one clause with different binders are therefore
related in any way in which the two bindings of each value are related, if the relation is kept when
steps are put together.

* `Drafting.Compatible` — a relation that is kept when steps are put together
* `Drafting.Compatible.draft` — the two makings of a clause are related if the bindings of values
  are
-/

namespace Clauses

/--
The relation is kept when steps are put together, and every step that binds no value has it to
itself.
-/
structure Drafting.Compatible (R : (α : Type) → Drafting α → Drafting α → Prop) : Prop where
  pure {α : Type} (a : α) : R α (pure a) (pure a)
  throw {α : Type} (e : ClauseError) : R α (throw e) (throw e)
  lift {α : Type} (x : Except ClauseError α) : R α (liftM x) (liftM x)
  bind {α β : Type} {x x' : Drafting α} {f f' : α → Drafting β} :
    R α x x' → (∀ a, R β (f a) (f' a)) → R β (x >>= f) (x' >>= f')
  bindName (a : String) : R String (Draft.bindName a) (Draft.bindName a)
  reuse (token : String) : R String (Draft.reuse token) (Draft.reuse token)
  lookUp {α : Type} (token : String) {f f' : Option String → Drafting α} :
    (∀ a, R α (f a) (f' a)) →
      R α (get >>= fun d => f (d.attribute? token)) (get >>= fun d => f' (d.attribute? token))

namespace Drafting.Compatible

variable {R : (α : Type) → Drafting α → Drafting α → Prop} {α β : Type}

theorem map (hR : Compatible R) (f : α → β) {x x' : Drafting α} (h : R α x x') :
    R β (f <$> x) (f <$> x') := by
  rw [map_eq_pure_bind, map_eq_pure_bind]
  exact hR.bind h fun _ => hR.pure _

theorem mapM (hR : Compatible R) {f f' : α → Drafting β} (h : ∀ a, R β (f a) (f' a))
    (as : List α) : R (List β) (as.mapM f) (as.mapM f') := by
  induction as with
  | nil => exact hR.pure []
  | cons a as ih =>
    rw [List.mapM_cons, List.mapM_cons]
    exact hR.bind (h a) fun _ => hR.bind ih fun _ => hR.pure _

/-- Both go on, or neither does. -/
theorem refuse (hR : Compatible R) {p : Prop} [Decidable p] {e : ClauseError} {x x' : Drafting α}
    (h : R α x x') :
    R α (if p then (MonadExcept.throw e : Drafting PUnit) >>= fun _ => x else x)
      (if p then (MonadExcept.throw e : Drafting PUnit) >>= fun _ => x' else x') := by
  split
  · exact hR.bind (hR.throw e) fun _ => h
  · exact h

/-! ## Predicates -/

/-- The bindings of each value are related. -/
def Binders (R : (α : Type) → Drafting α → Drafting α → Prop) (b b' : Binder) : Prop :=
  ∀ v p, R String (b.value v p) (b'.value v p)

variable {b b' : Binder} (hR : Compatible R) {schema : Schema} {kind : ClauseKind}

include hR

theorem operand (hv : Binders R b b') (o : Operand) (p : Property) :
    R String (b.operand o p) (b'.operand o p) := by
  cases o with
  | value v => exact hv v p
  | placeholder token =>
    unfold Binder.operand
    dsimp only
    split
    · exact hR.reuse token
    · exact hR.throw _

theorem comparison (hv : Binders R b b') (subject : Subject) (op : Operator)
    (operands : List Operand) :
    R Condition (Predicate.comparison b schema subject op operands)
      (Predicate.comparison b' schema subject op operands) := by
  refine hR.refuse (hR.bind (hR.lift _) fun p => hR.bind (hR.bindName _) fun name => ?_)
  exact hR.bind (hR.mapM (fun o => hR.operand hv o _) operands) fun _ => hR.pure _

theorem comparisonOrNot (hv : Binders R b b') (negate : Bool) (subject : Subject) (op : Operator)
    (operands : List Operand) :
    R Condition (Predicate.comparisonOrNot b schema negate subject op operands)
      (Predicate.comparisonOrNot b' schema negate subject op operands) := by
  unfold Predicate.comparisonOrNot
  split
  · cases op.negation with
    | inverted opposite => exact hR.comparison hv subject opposite operands
    | wrapped => exact hR.map _ (hR.comparison hv subject op operands)
    | refused => exact hR.throw _
  · exact hR.comparison hv subject op operands

theorem invocation (hv : Binders R b b') (f : Builtin) (arguments : List Argument) :
    R Condition (Predicate.invocation b schema f arguments)
      (Predicate.invocation b' schema f arguments) := by
  unfold Predicate.invocation
  split
  · exact hR.throw _
  · split
    · exact hR.bind (hR.lift _) fun p => hR.bind (hR.bindName _) fun _ => hR.pure _
    · refine hR.bind (hR.lift _) fun p => hR.bind (hR.lift _) fun _ => ?_
      refine hR.bind (hR.bindName _) fun _ => ?_
      exact hR.bind (hR.operand hv _ _) fun _ => hR.pure _
    · refine hR.bind (hR.lift _) fun p => hR.bind (hR.bindName _) fun _ => ?_
      exact hR.bind (hR.operand hv _ _) fun _ => hR.pure _
    · exact hR.throw _

theorem invocationOrNot (hv : Binders R b b') (negate : Bool) (f : Builtin)
    (arguments : List Argument) :
    R Condition (Predicate.invocationOrNot b schema negate f arguments)
      (Predicate.invocationOrNot b' schema negate f arguments) := by
  unfold Predicate.invocationOrNot
  split
  · cases f.negation with
    | inverted opposite => exact hR.invocation hv opposite arguments
    | wrapped => exact hR.map _ (hR.invocation hv f arguments)
    | refused => exact hR.throw _
  · exact hR.invocation hv f arguments

theorem checkComparison (subject : Subject) (op : Operator) :
    R Unit (Predicate.checkComparison kind subject op)
      (Predicate.checkComparison kind subject op) := by
  unfold Predicate.checkComparison
  split
  · cases subject with
    | property name =>
      dsimp only
      split
      · exact hR.throw _
      · exact hR.pure _
    | size name => exact hR.throw _
  · exact hR.pure _

mutual

theorem predicate (hv : Binders R b b') (negate : Bool) : ∀ p : Predicate,
    R Condition (p.translate b schema kind negate) (p.translate b' schema kind negate)
  | .compare subject op operands => by
    rw [Predicate.translate, Predicate.translate]
    exact hR.bind (hR.checkComparison subject op)
      fun _ => hR.comparisonOrNot hv negate subject op operands
  | .call f arguments => by
    rw [Predicate.translate, Predicate.translate]
    exact hR.refuse (hR.invocationOrNot hv negate f arguments)
  | .and parts => by
    rw [Predicate.translate, Predicate.translate]
    exact junction hv negate .and parts
  | .or parts => by
    rw [Predicate.translate, Predicate.translate]
    exact hR.refuse (junction hv negate .or parts)
  | .not p => by
    rw [Predicate.translate, Predicate.translate]
    exact hR.refuse (predicate hv (!negate) p)

theorem junction (hv : Binders R b b') (negate : Bool) (c : Connective) : ∀ parts : List Predicate,
    R Condition (Predicate.junction b schema kind negate c parts)
      (Predicate.junction b' schema kind negate c parts)
  | [] => by
    rw [Predicate.junction, Predicate.junction]
    exact hR.throw _
  | [p] => by
    rw [Predicate.junction, Predicate.junction]
    exact predicate hv negate p
  | p :: q :: rest => by
    rw [Predicate.junction, Predicate.junction]
    · refine hR.bind (predicate hv false p) fun _ => ?_
      exact hR.bind (parts hv (q :: rest)) fun _ => hR.pure _
    · simp
    · simp

theorem parts (hv : Binders R b b') : ∀ ps : List Predicate,
    R (List Condition) (Predicate.translateAll b schema kind ps)
      (Predicate.translateAll b' schema kind ps)
  | [] => by
    rw [Predicate.translateAll, Predicate.translateAll]
    exact hR.pure _
  | p :: rest => by
    rw [Predicate.translateAll, Predicate.translateAll]
    exact hR.bind (predicate hv false p) fun _ => hR.bind (parts hv rest) fun _ => hR.pure _

end

/-! ## Updates and projections -/

theorem setValue (hv : Binders R b b') (target : Property) : ∀ (outermost : Bool) (v : SetValue),
    R Term (v.translate b schema target outermost) (v.translate b' schema target outermost)
  | _, .operand o => hR.map _ (hR.operand hv o target)
  | _, .property _ => hR.bind (hR.lift _) fun _ => hR.bind (hR.bindName _) fun _ => hR.pure _
  | outermost, .plus x y => by
    rw [SetValue.translate, SetValue.translate]
    refine hR.refuse (hR.bind (setValue hv target false x) fun _ => ?_)
    exact hR.bind (setValue hv target false y) fun _ => hR.pure _
  | outermost, .minus x y => by
    rw [SetValue.translate, SetValue.translate]
    refine hR.refuse (hR.bind (setValue hv target false x) fun _ => ?_)
    exact hR.bind (setValue hv target false y) fun _ => hR.pure _
  | _, .ifNotExists _ _ => hR.bind (hR.lift _) fun _ =>
    hR.bind (hR.bindName _) fun _ => hR.bind (hR.operand hv _ _) fun _ => hR.pure _
  | _, .listAppend x y => by
    rw [SetValue.translate, SetValue.translate]
    refine hR.bind (setValue hv target false x) fun _ => ?_
    exact hR.bind (setValue hv target false y) fun _ => hR.pure _

theorem action (hv : Binders R b b') (a : Action) :
    R Change (a.translate b schema) (a.translate b' schema) := by
  cases a with
  | set property value =>
    refine hR.bind (hR.lift _) fun p => hR.bind (hR.bindName _) fun _ => ?_
    exact hR.bind (hR.setValue hv p true value) fun _ => hR.pure _
  | remove property =>
    exact hR.bind (hR.lift _) fun p => hR.bind (hR.bindName _) fun _ => hR.pure _
  | add property o | delete property o =>
    refine hR.bind (hR.lift _) fun p => hR.bind (hR.bindName _) fun _ => ?_
    exact hR.bind (hR.operand hv o p) fun _ => hR.pure _

theorem update (hv : Binders R b b') (u : Update) :
    R (List (UpdateKeyword × List Change)) (u.translate b schema) (u.translate b' schema) := by
  refine hR.refuse (hR.mapM (fun keyword => ?_) _)
  exact hR.bind (hR.mapM (hR.action hv) _) fun _ => hR.pure _

theorem projection (properties : List String) :
    R (List String) (Projection.translate schema properties)
      (Projection.translate schema properties) := by
  refine hR.refuse (hR.mapM (fun property => ?_) _)
  exact hR.bind (hR.lift _) fun p => hR.bindName _

/-! ## Templates -/

open Template in
theorem readPlaceholder (ctx : Context) (sigil : Sigil) (word : List Char) :
    R (List Char × Context) (Template.readPlaceholder ctx sigil word)
      (Template.readPlaceholder ctx sigil word) := by
  refine hR.bind (hR.reuse _) fun token => ?_
  split
  · let f : Option String → Drafting (List Char × Context) := fun a =>
      a.elim (Pure.pure (token.toList, { ctx with subject := none, afterDot := false })) fun name =>
        Pure.pure (token.toList, { ctx.openSubject name with afterDot := false })
    have hf (a : Option String) : R (List Char × Context) (f a) (f a) := by
      cases a with
      | some name => exact hR.pure _
      | none => exact hR.pure _
    -- The reader is the lookup followed by `f`, case by case.
    refine (congr (congrArg (R _) ?_) ?_).mp (hR.lookUp token hf) <;>
    · refine bind_congr fun d => ?_
      cases d.attribute? token <;> rfl
  · exact hR.pure _

open Template in
theorem readToken (hv : Binders R b b') (input : Input) (ctx : Context) (p : Placed) :
    R (List Char × Context) (Template.readToken b input ctx p)
      (Template.readToken b' input ctx p) := by
  unfold Template.readToken
  split
  · exact hR.pure _
  · unfold readSlot
    split
    · exact hR.throw _
    · exact hR.bind (hv _ _) fun _ => hR.pure _
  · exact hR.readPlaceholder ctx _ _
  · unfold readWord
    split
    · exact hR.pure _
    · split
      · split
        · exact hR.throw _
        · exact hR.pure _
      · unfold readAttribute
        dsimp only
        split
        · exact hR.bind (hR.bindName _) fun _ => hR.pure _
        · exact hR.pure _
  · exact hR.pure _
  · exact hR.pure _

open Template in
theorem readTokens (hv : Binders R b b') (input : Input) (tokens : List Placed) : ∀ ctx : Context,
    R (List Char) (Template.readTokens b input ctx tokens)
      (Template.readTokens b' input ctx tokens) := by
  induction tokens with
  | nil => exact fun ctx => hR.pure _
  | cons p rest ih =>
    intro ctx
    exact hR.bind (hR.readToken hv input ctx p) fun r => hR.bind (ih r.2) fun _ => hR.pure _

theorem template (hv : Binders R b b') (input : Template.Input) :
    R (List Char) (Template.translate b input) (Template.translate b' input) := by
  refine hR.bind (hR.readTokens hv input _ _) fun text => ?_
  split
  · exact hR.pure _
  · exact hR.throw _

/-! ## Clauses -/

/-- **Two makings of a clause are related if the bindings of its values are.** -/
theorem draft (hv : Binders R b b') (c : Compiler) (source : Source) :
    R (List Char) (c.draft b source) (c.draft b' source) := by
  cases source with
  | predicate kind schema p =>
    exact hR.refuse (hR.bind (hR.predicate hv false p) fun _ => hR.pure _)
  | template kind template arguments schema => exact hR.template hv _
  | update schema u => exact hR.bind (hR.update hv u) fun _ => hR.pure _
  | projection schema properties =>
    exact hR.bind (hR.projection properties) fun _ => hR.pure _

end Drafting.Compatible

end Clauses
