import Clauses.Proofs.MapOrders

/-!
# Steps that fail change nothing

Nothing is undone where a step fails: whatever a failing step has changed by then stays changed.
That it has changed nothing is a matter of order. All that can fail stands in front of all that
changes something, in the minting of a value as well as in the completing of a clause and in the
building of a request.

* `Effect.Restores` — where it fails, everything is as before
* `RequestBuilder.trace` — the course of a request
* `RequestBuilder.failed_steps_leave_no_trace` — a request does not depend on the steps that failed
-/

namespace Clauses

variable {σ α β : Type}

/-! ## Failures -/

namespace Effect

/-- Where it fails, everything is as before. -/
def Restores (x : EStateM ClauseError σ α) : Prop := ∀ ⦃s e s'⦄, x s = .error e s' → s' = s

/-- Where it succeeds, everything is as before. -/
def ReadOnly (x : EStateM ClauseError σ α) : Prop := ∀ ⦃s a s'⦄, x s = .ok a s' → s' = s

/-- It never fails. -/
def Infallible (x : EStateM ClauseError σ α) : Prop := ∀ ⦃s e s'⦄, x s ≠ .error e s'

theorem bind_error {x : EStateM ClauseError σ α} {f : α → EStateM ClauseError σ β} {s s'' : σ}
    {e : ClauseError} (h : (x >>= f) s = .error e s'') :
    x s = .error e s'' ∨ ∃ a s', x s = .ok a s' ∧ f a s' = .error e s'' := by
  change EStateM.bind x f s = _ at h
  unfold EStateM.bind at h
  split at h
  · next a s' hx => exact Or.inr ⟨a, s', hx, h⟩
  · next e' s' hx =>
    cases h
    exact Or.inl hx

theorem Infallible.restores {x : EStateM ClauseError σ α} (h : Infallible x) : Restores x :=
  fun _ _ _ he => (h he).elim

theorem Infallible.pure (a : α) : Infallible (pure a : EStateM ClauseError σ α) := by
  intro s e s' h
  cases h

theorem Infallible.set (s : σ) : Infallible (set s : EStateM ClauseError σ PUnit) := by
  intro s₁ e s' h
  cases h

theorem Infallible.modify (f : σ → σ) :
    Infallible (modify f : EStateM ClauseError σ PUnit) := by
  intro s e s' h
  cases h

theorem Infallible.bind {x : EStateM ClauseError σ α} {f : α → EStateM ClauseError σ β}
    (hx : Infallible x) (hf : ∀ a, Infallible (f a)) : Infallible (x >>= f) := by
  intro s e s'' h
  rcases bind_error h with hx' | ⟨a, s', -, hf'⟩
  · exact hx hx'
  · exact hf a hf'

theorem Restores.throw (e : ClauseError) : Restores (throw e : EStateM ClauseError σ α) := by
  intro s e' s' h
  cases h
  rfl

theorem Restores.ofExcept (x : Except ClauseError α) :
    Restores (MonadExcept.ofExcept x : EStateM ClauseError σ α) := by
  intro s e s' h
  cases x with
  | ok a => cases h
  | error e =>
    cases h
    rfl

theorem ReadOnly.ofExcept (x : Except ClauseError α) :
    ReadOnly (MonadExcept.ofExcept x : EStateM ClauseError σ α) := by
  intro s a s' h
  cases x with
  | ok a =>
    cases h
    rfl
  | error e => cases h

/-- What only looks may stand in front of what restores. -/
theorem Restores.bind_readOnly {x : EStateM ClauseError σ α} {f : α → EStateM ClauseError σ β}
    (hx : Restores x) (hr : ReadOnly x) (hf : ∀ a, Restores (f a)) : Restores (x >>= f) := by
  intro s e s'' h
  rcases bind_error h with hx' | ⟨a, s', ha, hf'⟩
  · exact hx hx'
  · rw [hf a hf', hr ha]

/-- The state may be looked at in front of what restores. -/
theorem Restores.bind_get {f : σ → EStateM ClauseError σ β} (hf : ∀ s, Restores (f s)) :
    Restores (get >>= f) := by
  refine Restores.bind_readOnly (x := get) ?_ ?_ hf
  · intro s e s' h
    cases h
  · intro s a s' h
    cases h
    rfl

/-- What never fails may stand behind what restores. -/
theorem Restores.bind_infallible {x : EStateM ClauseError σ α} {f : α → EStateM ClauseError σ β}
    (hx : Restores x) (hf : ∀ a, Infallible (f a)) : Restores (x >>= f) := by
  intro s e s'' h
  rcases bind_error h with hx' | ⟨a, s', -, hf'⟩
  · exact hx hx'
  · exact (hf a hf').elim

theorem Restores.map {x : EStateM ClauseError σ α} (f : α → β) (hx : Restores x) :
    Restores (f <$> x) := by
  rw [map_eq_pure_bind]
  exact Restores.bind_infallible hx fun a => Infallible.pure (f a)

end Effect

open Effect

/-! ## Scopes -/

theorem Scope.mintName_infallible (a : String) : Infallible (Scope.mintName a) := by
  intro s e s' h
  cases h

/-- A value is looked through before the number of its placeholder is taken. -/
theorem Scope.mintValue_restores (w : WireValue) : Restores (Scope.mintValue w) := by
  refine Restores.bind_get fun s => ?_
  dsimp only
  split
  · exact Restores.throw _
  · exact (Infallible.bind (Infallible.set _) fun _ => Infallible.pure _).restores

theorem Draft.commit_infallible (expression : List Char) (names : List (String × String))
    (values : List (String × WireValue)) : Infallible (Draft.commit expression names values) :=
  Infallible.bind (Infallible.modify _) fun _ => Infallible.pure _

/-- The making of a clause and the calls of its hooks come before its placeholders are entered. -/
theorem Draft.complete_restores (mode : Mode) (make : Drafting (List Char)) :
    Restores (Draft.complete mode make) := by
  refine Restores.bind_get fun s => ?_
  refine Restores.bind_readOnly (Restores.ofExcept _) (ReadOnly.ofExcept _) fun made => ?_
  refine Restores.bind_infallible (Restores.ofExcept _) fun values => ?_
  exact Draft.commit_infallible made.1 made.2.names values

namespace Compiler

theorem translate_restores (c : Compiler) (mode : Mode) (source : Source) :
    Restores (c.translate mode source) :=
  Draft.complete_restores _ _

theorem bindValue_restores (c : Compiler) (v : Value) (p : Property) :
    Restores (c.bindValue v p) :=
  Restores.bind_readOnly (Restores.ofExcept _) (ReadOnly.ofExcept _) Scope.mintValue_restores

theorem step_restores (c : Compiler) (step : Step) : Restores (c.step step) := by
  cases step with
  | clause mode source => exact (c.translate_restores mode source).map _
  | bind v p => exact (c.bindValue_restores v p).map _
  | mintName a => exact (Scope.mintName_infallible a).restores.map _
  | mintValue w => exact (Scope.mintValue_restores w).map _

end Compiler

/-! ## Requests -/

namespace RequestBuilder

theorem onScope_restores {x : Scoped α} (hx : Restores x) : Restores (onScope x) := by
  intro r e r' h
  unfold onScope at h
  split at h
  · cases h
  · next e' scope he =>
    cases h
    rw [hx he]

theorem ensureOpen_restores (kind : ClauseKind) : Restores (ensureOpen kind) := by
  refine Restores.bind_get fun r => ?_
  split
  · exact Restores.throw _
  · exact (Infallible.pure _).restores

theorem ensureOpen_readOnly (kind : ClauseKind) : ReadOnly (ensureOpen kind) := by
  intro r a r' h
  rw [ensureOpen_eq] at h
  split at h
  · cases h
    rfl
  · cases h

/-- A slot is looked at before a clause is made for it, and filled after that. -/
theorem add_restores (c : Compiler) (mode : Mode) (source : Source) :
    Restores (add c mode source) := by
  refine Restores.bind_readOnly (ensureOpen_restores _) (ensureOpen_readOnly _) fun _ => ?_
  refine Restores.bind_infallible (onScope_restores (c.translate_restores mode source)) ?_
  exact fun clause => Infallible.modify _

theorem step_restores (c : Compiler) (s : RequestStep) : Restores (step c s) := by
  cases s with
  | clause mode source =>
    exact Restores.bind_infallible (add_restores c mode source) fun _ => Infallible.pure _
  | bind v p => exact (onScope_restores (c.bindValue_restores v p)).map _

/-- A step that has failed has changed nothing. -/
theorem advance_of_error {r r' : RequestBuilder} {c : Compiler} {s : RequestStep} {e : ClauseError}
    (h : r.advance c s = (.error e, r')) : r' = r := by
  unfold advance at h
  split at h
  · cases h
  · next e' r₁ he =>
    cases h
    exact step_restores c s he

/-! ## Courses of requests -/

/-- Each step on its occasion, with its answer and the request after it. -/
def trace (r : RequestBuilder) (config : Config) : List (Occasion RequestStep) →
    List (Occasion RequestStep × Except ClauseError (Option String) × RequestBuilder)
  | [] => []
  | o :: occasions =>
    (o, r.advance ⟨config, o.hooks⟩ o.step)
      :: trace (r.advance ⟨config, o.hooks⟩ o.step).2 config occasions

/-- A step of a course that has succeeded. -/
def hasSucceeded
    (t : Occasion RequestStep × Except ClauseError (Option String) × RequestBuilder) : Bool :=
  t.2.1.isOk

theorem run_cons (r : RequestBuilder) (config : Config) (o : Occasion RequestStep)
    (occasions : List (Occasion RequestStep)) :
    r.run config (o :: occasions) = ((r.advance ⟨config, o.hooks⟩ o.step).1
        :: ((r.advance ⟨config, o.hooks⟩ o.step).2.run config occasions).1,
      ((r.advance ⟨config, o.hooks⟩ o.step).2.run config occasions).2) := rfl

/-- The course without the steps that failed is the course of the steps that did not fail. -/
theorem trace_succeeded (config : Config) (occasions : List (Occasion RequestStep)) :
    ∀ r : RequestBuilder,
      r.trace config (((r.trace config occasions).filter hasSucceeded).map Prod.fst)
        = (r.trace config occasions).filter hasSucceeded := by
  induction occasions with
  | nil => exact fun r => rfl
  | cons o occasions ih =>
    intro r
    rcases ha : r.advance ⟨config, o.hooks⟩ o.step with ⟨answer, r'⟩
    cases answer with
    | ok token =>
      rw [trace, ha, List.filter_cons_of_pos rfl, List.map_cons, trace, ha, ih r']
    | error e =>
      -- The step is left out, and the next one starts from the request that this one started from.
      rw [trace, ha, List.filter_cons_of_neg (by simp [hasSucceeded, Except.isOk, Except.toBool]),
        advance_of_error ha, ih r]

/-- A run of the steps that did not fail gives their answers, and ends in the same request. -/
theorem run_succeeded (config : Config) (occasions : List (Occasion RequestStep)) :
    ∀ r : RequestBuilder,
      r.run config (((r.trace config occasions).filter hasSucceeded).map Prod.fst)
        = ((r.run config occasions).1.filter Except.isOk, (r.run config occasions).2) := by
  induction occasions with
  | nil => exact fun r => rfl
  | cons o occasions ih =>
    intro r
    rcases ha : r.advance ⟨config, o.hooks⟩ o.step with ⟨answer, r'⟩
    cases answer with
    | ok token =>
      rw [trace, ha, List.filter_cons_of_pos rfl, List.map_cons, run_cons, run_cons, ha, ih r',
        List.filter_cons_of_pos rfl]
    | error e =>
      rw [trace, ha, List.filter_cons_of_neg (by simp [hasSucceeded, Except.isOk, Except.toBool]),
        run_cons, ha, List.filter_cons_of_neg (by simp [Except.isOk, Except.toBool]),
        advance_of_error ha, ih r]

/--
**A request does not depend on the steps that failed.** Without them every other step gives the same
answer and leaves the same request behind, down to the numbers of its placeholders, and the same
request is built in the end. That is so if each of these steps finds the hooks and the maps as it
has found them among the others. If maps come in other orders, the answers and the expressions are
the same too, and the placeholders; only what hooks have sealed may be sealed from another text.
-/
theorem failed_steps_leave_no_trace (config : Config) (r : RequestBuilder)
    (occasions : List (Occasion RequestStep)) :
    let course := (r.trace config occasions).filter hasSucceeded
    let kept := course.map Prod.fst
    (r.trace config kept = course ∧
      (r.run config kept).1 = (r.run config occasions).1.filter Except.isOk ∧
      (r.run config kept).2 = (r.run config occasions).2) ∧
    ∀ kept', List.Forall₂ Occasion.Reorders kept kept' → (∀ o ∈ kept, o.hooks.OrderBlind) →
      (r.run config kept').1 = (r.run config occasions).1.filter Except.isOk ∧
      (r.run config occasions).2.Akin (WireValue.Reordered (Occasion.AnyKnows kept))
        (r.run config kept').2 ∧
      (r.run config occasions).2.build.Akin (WireValue.Reordered (Occasion.AnyKnows kept))
        (r.run config kept').2.build := by
  intro course kept
  have hrun : r.run config kept
      = ((r.run config occasions).1.filter Except.isOk, (r.run config occasions).2) :=
    run_succeeded config occasions r
  refine ⟨⟨trace_succeeded config occasions r, by rw [hrun], by rw [hrun]⟩,
    fun kept' ho hblind => ?_⟩
  obtain ⟨hanswers, hbuilt⟩ := Akin.run config ho hblind (fun _ h => h)
    (.of_self .same r)
  rw [hrun] at hanswers hbuilt
  exact ⟨hanswers, hbuilt, hbuilt.build⟩

/-- Rooms, of which the size is written backwards by a hook. -/
def roomSchema : Schema :=
  ⟨"Room", [("Door", .plain "door"), ("Size", ⟨"Size", "size", none, some "mirror"⟩)]⟩

/-- An update of a room, when maps come in this order. -/
def updateRoom (order : MapOrder) (u : Update) : Occasion RequestStep where
  hooks := { hooks := [("mirror", .sync .mirroring)], writing := fun _ => order }
  step := .clause .sync (.update roomSchema u)

/-- The update that sets the size of a room. -/
def setSize : Update :=
  [.set "Size" (.operand (.value (.map [("length", .integer 4), ("width", .integer 3)])))]

/-- The first update fails, since there is no key to a room, and the last one is one too many. -/
theorem room_without_failures :
    let r := start ⟨.standard, .empty⟩
    let all := r.run .standard
      [updateRoom .byKey [.remove "Key"], updateRoom .byKey setSize,
        updateRoom .byKey [.remove "Door"]]
    let kept := r.run .standard [updateRoom .fromLast setSize]
    let bytes (r : RequestBuilder) := (r.scope.value? ":p0").bind WireValue.bytes?
    all.1 = [.error (.unknownProperty "Room" "Key"), .ok none, .error (.duplicateClause .update)] ∧
      kept.1 = [.ok none] ∧
      kept.2.build.expressions = all.2.build.expressions ∧
      all.2.build.expressions .update = some "SET #attr0 = :p0" ∧
      bytes all.2 = some (Text.toBytes ("\x7b\"M\":\x7b\"length\":\x7b\"N\":\"4\"\x7d," ++
        "\"width\":\x7b\"N\":\"3\"\x7d\x7d\x7d")).reverse ∧
      bytes kept.2 = some (Text.toBytes ("\x7b\"M\":\x7b\"width\":\x7b\"N\":\"3\"\x7d," ++
        "\"length\":\x7b\"N\":\"4\"\x7d\x7d\x7d")).reverse := by
  intro r all kept bytes
  have hall : all.1 = [.error (.unknownProperty "Room" "Key"), .ok none,
      .error (.duplicateClause .update)] := rfl
  obtain ⟨-, horders⟩ := failed_steps_leave_no_trace .standard r
    [updateRoom .byKey [.remove "Key"], updateRoom .byKey setSize,
      updateRoom .byKey [.remove "Door"]]
  have hblind : (updateRoom .byKey setSize).hooks.OrderBlind :=
    HookRegistry.orderBlind_of_forall (List.forall_mem_singleton.mpr Hook.mirroring_orderBlind)
  obtain ⟨hanswers, -, hbuilt⟩ := horders [updateRoom .fromLast setSize] (.cons ⟨rfl, rfl⟩ .nil)
    (List.forall_mem_singleton.mpr hblind)
  refine ⟨hall, hanswers.trans (congrArg (List.filter Except.isOk) hall), hbuilt.expressions, ?_⟩
  decide +kernel

end RequestBuilder

end Clauses
