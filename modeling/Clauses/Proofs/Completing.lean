import Clauses.Proofs.Batch
import Clauses.Proofs.Drafting

/-!
# Clauses that are completed

What is behind a clause that has been translated: a draft whose bindings all came to a wire value.
The scope has been given the placeholders of the draft, and nothing else has happened to it.

* `Codec.bind_ok_iff` — all that is behind a binding
* `Binding.Settles` — a binding comes to a wire value
* `Compiler.translate_ok` — all that a successful translation does
-/

namespace Clauses

variable {σ α β : Type}

/-! ## Effects that have succeeded -/

namespace Effect

theorem bind_ok {x : EStateM ClauseError σ α} {f : α → EStateM ClauseError σ β}
    {s s'' : σ} {b : β} :
    (x >>= f) s = .ok b s'' ↔ ∃ a s', x s = .ok a s' ∧ f a s' = .ok b s'' := by
  change EStateM.bind x f s = _ ↔ _
  unfold EStateM.bind
  cases x s with
  | error e s' => simp
  | ok a s' =>
    constructor
    · exact fun h => ⟨a, s', rfl, h⟩
    · rintro ⟨a, s', he, hf⟩
      cases he
      exact hf

theorem map_ok {x : EStateM ClauseError σ α} {f : α → β} {s s' : σ} {b : β} :
    (f <$> x) s = .ok b s' ↔ ∃ a, x s = .ok a s' ∧ f a = b := by
  change EStateM.map f x s = _ ↔ _
  unfold EStateM.map
  cases x s with
  | error e s₁ => simp
  | ok a s₁ =>
    constructor
    · intro h
      cases h
      exact ⟨a, rfl, rfl⟩
    · rintro ⟨a, he, rfl⟩
      cases he
      rfl

theorem ofExcept_ok {x : Except ClauseError α} {s s' : σ} {a : α} :
    (MonadExcept.ofExcept x : EStateM ClauseError σ α) s = .ok a s' ↔ x = .ok a ∧ s' = s := by
  cases x with
  | error e =>
    constructor
    · intro h
      cases h
    · rintro ⟨h, -⟩
      cases h
  | ok b =>
    constructor
    · intro h
      cases h
      exact ⟨rfl, rfl⟩
    · rintro ⟨h, rfl⟩
      cases h
      rfl

end Effect

/-! ## Bindings -/

/-- What a hook makes of a payload in a context: its answer, or a call that waits for it. -/
inductive RegisteredHook.Seals (id : String) (context : HookContext) (payload : Bytes) :
    RegisteredHook → Binding → Prop where
  | now {hook : Hook} {output : Bytes} (h : hook.transform context payload = .ok output) :
    Seals id context payload (.sync hook) (.ready (.binary output))
  | later (hook : Hook) (course : HookContext → Bytes → Course) :
    Seals id context payload (.async hook course)
      (.deferred ⟨id, context.field, .start hook.transform course context payload⟩)

theorem HookRegistry.resolve_ok_iff {registry : HookRegistry} {field id : String}
    {hook : RegisteredHook} : registry.resolve field id = .ok hook
      ↔ registry.get? id = some hook := by
  unfold resolve
  cases registry.get? id with
  | none => simp
  | some hook' => simp

/-- **All that is behind a binding.** -/
theorem Codec.bind_ok_iff {codec : Codec} {entity : Option String} {cancelled : Bool} {v : Value}
    {p : Property} {b : Binding} :
    codec.bind entity cancelled v p = .ok b ↔
      ∃ w, v.encode codec.dateFormat p.wireName p.format = .ok w ∧
        ((p.hook = none ∧ b = .ready w) ∨ ∃ id hook, p.hook = some id ∧
          codec.hooks.get? id = some hook ∧
          hook.Seals id ⟨p.wireName, entity, cancelled⟩ (w.payload (codec.hooks.writing 0)) b) := by
  unfold bind
  simp only [Except.bind_ok]
  refine exists_congr fun w => and_congr_right fun _ => ?_
  cases p.hook with
  | none => simp [pure, Except.pure, eq_comm]
  | some id =>
    simp only [Except.bind_ok, HookRegistry.resolve_ok_iff, reduceCtorEq, false_and, false_or,
      Option.some.injEq, exists_and_left, exists_eq_left']
    refine exists_congr fun hook => and_congr_right fun _ => ?_
    cases hook with
    | sync hook =>
      simp only [Except.bind_ok, Except.mapError_ok]
      constructor
      · rintro ⟨output, ho, ⟨⟩⟩
        exact .now ho
      · rintro ⟨ho⟩
        exact ⟨_, ho, rfl⟩
    | async hook course =>
      constructor
      · rintro ⟨⟩
        exact .later hook course
      · rintro ⟨⟩
        rfl

/-- Every hook answers at once. -/
def HookRegistry.AllSync (registry : HookRegistry) : Prop :=
  ∀ id hook course, registry.get? id ≠ some (.async hook course)

/-- Where every hook answers at once, no binding waits for one. -/
theorem Codec.ready_of_allSync {codec : Codec} {entity : Option String}
    {cancelled : Bool} {v : Value} {p : Property} {b : Binding} (hs : codec.hooks.AllSync)
    (h : codec.bind entity cancelled v p = .ok b) : ∃ w, b = .ready w := by
  obtain ⟨w, -, ⟨-, rfl⟩ | ⟨id, hook, -, hid, hseals⟩⟩ := bind_ok_iff.mp h
  · exact ⟨w, rfl⟩
  · cases hseals with
    | now => exact ⟨_, rfl⟩
    | later hook course => exact absurd hid (hs id hook course)

/-- A value that is bound at once, and for no entity. -/
theorem Codec.toWire_ok_iff {codec : Codec} {v : Value} {p : Property} {w : WireValue} :
    codec.toWire v p = .ok w ↔ codec.bind none false v p = .ok (.ready w) := by
  unfold toWire
  rw [Except.bind_ok]
  constructor
  · rintro ⟨b, hb, hw⟩
    cases b with
    | ready w' =>
      cases hw
      exact hb
    | deferred d => cases hw
  · exact fun h => ⟨_, h, rfl⟩

/-! ### Bindings that come to a value -/

/-- What a binding comes to when nobody cancels. -/
inductive Binding.Settles : Binding → WireValue → Prop where
  | ready (w : WireValue) : Settles (.ready w) w
  | deferred {d : Deferred} {bytes : Bytes} (h : d.task.answer false = .ok bytes) :
    Settles (.deferred d) (.binary bytes)

namespace Draft

/-- The placeholder is kept, and what it was to be bound to has come to a wire value. -/
def Settled (b : String × Binding) (v : String × WireValue) : Prop :=
  v.1 = b.1 ∧ b.2.Settles v.2

/-- Values are bound under the placeholders that have been minted for them. -/
theorem settled_keys {bindings : List (String × Binding)} {values : List (String × WireValue)}
    (h : List.Forall₂ Settled bindings values) :
    values.map Prod.fst = bindings.map Prod.fst := by
  induction h with
  | nil => rfl
  | cons hv _ ih => rw [List.map_cons, List.map_cons, hv.1, ih]

theorem exists_settled {bindings : List (String × Binding)} {values : List (String × WireValue)}
    (h : List.Forall₂ Settled bindings values) {b : String × Binding} (hb : b ∈ bindings) :
    ∃ w, b.2.Settles w ∧ (b.1, w) ∈ values := by
  induction h with
  | nil => cases hb
  | @cons b' v bindings values hv _ ih =>
    rcases List.mem_cons.mp hb with rfl | hb
    · refine ⟨v.2, hv.2, ?_⟩
      rw [← hv.1]
      exact List.mem_cons_self
    · obtain ⟨w, hw, hm⟩ := ih hb
      exact ⟨w, hw, List.mem_cons_of_mem _ hm⟩

theorem resolveNow_ok {bindings : List (String × Binding)} {values : List (String × WireValue)}
    (h : resolveNow bindings = .ok values) : List.Forall₂ Settled bindings values := by
  induction bindings generalizing values with
  | nil =>
    cases h
    exact .nil
  | cons b rest ih =>
    obtain ⟨token, b⟩ := b
    cases b with
    | deferred d => cases h
    | ready w =>
      change Except.bind (resolveNow rest) (fun vs => .ok ((token, w) :: vs)) = _ at h
      cases hr : resolveNow rest with
      | error e => rw [hr] at h; cases h
      | ok vs =>
        rw [hr] at h
        cases h
        exact .cons ⟨rfl, .ready w⟩ (ih hr)

/-- The bindings come to the bytes of the calls, put in their places. -/
theorem settled_iff {bindings : List (String × Binding)} {values : List (String × WireValue)} :
    List.Forall₂ Settled bindings values ↔ ∃ outputs,
      List.Forall₂ (fun d bytes => d.task.answer false = .ok bytes) (deferred bindings) outputs ∧
      fill bindings outputs = values := by
  constructor
  · intro h
    induction h with
    | nil => exact ⟨[], .nil, rfl⟩
    | @cons e v bindings values hs _ ih =>
      obtain ⟨outputs, ha, hfill⟩ := ih
      obtain ⟨token, b⟩ := e
      obtain ⟨token', w⟩ := v
      obtain ⟨rfl, hw⟩ := hs
      cases hw with
      | ready w => exact ⟨outputs, ha, by rw [fill, hfill]⟩
      | @deferred d bytes answer => exact ⟨bytes :: outputs, .cons answer ha, by rw [fill, hfill]⟩
  · rintro ⟨outputs, ha, rfl⟩
    induction bindings generalizing outputs with
    | nil => exact .nil
    | cons b rest ih =>
      obtain ⟨token, b⟩ := b
      cases b with
      | ready w => exact .cons ⟨rfl, .ready w⟩ (ih outputs ha)
      | deferred d =>
        cases ha with
        | cons ha h => exact .cons ⟨rfl, .deferred ha⟩ (ih _ h)

/-- Bindings are resolved as the batch of their calls ends. -/
theorem resolve_async (bindings : List (String × Binding)) :
    resolve (.async false) bindings
      = match Batch.run false ((deferred bindings).map Deferred.task) with
        | .error fault => .error (batchError (deferred bindings) fault)
        | .ok outputs => .ok (fill bindings outputs) := by
  change (if (deferred bindings).isEmpty then Except.ok (fill bindings []) else _) = _
  split
  · next he =>
    rw [List.isEmpty_iff.mp he]
    rfl
  · rfl

/-- Bindings are resolved if all of them come to a value and no call cancels the others. -/
theorem resolve_async_iff {bindings : List (String × Binding)}
    {values : List (String × WireValue)} :
    resolve (.async false) bindings = .ok values ↔
      (∀ d ∈ deferred bindings, d.task.course.cancels = false) ∧
        List.Forall₂ Settled bindings values := by
  have hrun (outputs : List Bytes) :
      Batch.run false ((deferred bindings).map Deferred.task) = .ok outputs ↔
        (∀ d ∈ deferred bindings, d.task.course.cancels = false) ∧
          List.Forall₂ (fun d bytes => d.task.answer false = .ok bytes)
          (deferred bindings) outputs :=
    Batch.run_ok_iff.trans (List.forall₂_map_left_iff.trans (List.forall₂_and_left _ _))
  rw [resolve_async, settled_iff]
  constructor
  · intro h
    cases hr : Batch.run false ((deferred bindings).map Deferred.task) with
    | error fault => rw [hr] at h; cases h
    | ok outputs =>
      rw [hr] at h
      cases h
      obtain ⟨hquiet, ha⟩ := (hrun outputs).mp hr
      exact ⟨hquiet, outputs, ha, rfl⟩
  · rintro ⟨hquiet, outputs, ha, rfl⟩
    rw [(hrun outputs).mpr ⟨hquiet, ha⟩]

/-- Bindings are resolved one for one, unless the caller has given up. -/
theorem resolve_ok {mode : Mode} {bindings : List (String × Binding)}
    {values : List (String × WireValue)} (h : resolve mode bindings = .ok values) :
    mode.isCancelled = false ∧ List.Forall₂ Settled bindings values := by
  cases mode with
  | sync => exact ⟨rfl, resolveNow_ok h⟩
  | async cancelled =>
    cases cancelled with
    | true => cases h
    | false => exact ⟨rfl, (resolve_async_iff.mp h).2⟩

/-- A clause is completed if it is made and its bindings are resolved. -/
theorem complete_iff {mode : Mode} {make : Drafting (List Char)} {s s' : Scope} {clause : Clause} :
    complete mode make s = .ok clause s' ↔ ∃ expression d values,
      make (.on s) = .ok (expression, d) ∧ resolve mode d.bindings = .ok values ∧
      clause = ⟨String.ofList expression, d.names, values⟩ ∧ s' = s.enter d.names values := by
  constructor
  · intro h
    obtain ⟨s₁, _, hg, h₁⟩ := Effect.bind_ok.mp h
    cases hg
    obtain ⟨⟨expression, d⟩, _, hx, h₂⟩ := Effect.bind_ok.mp h₁
    obtain ⟨hm, rfl⟩ := Effect.ofExcept_ok.mp hx
    obtain ⟨values, _, hy, h₃⟩ := Effect.bind_ok.mp h₂
    obtain ⟨hr, rfl⟩ := Effect.ofExcept_ok.mp hy
    cases h₃
    exact ⟨expression, d, values, hm, hr, rfl, rfl⟩
  · rintro ⟨expression, d, values, hm, hr, rfl, rfl⟩
    refine Effect.bind_ok.mpr ⟨s, s, rfl, ?_⟩
    refine Effect.bind_ok.mpr ⟨(expression, d), s, Effect.ofExcept_ok.mpr ⟨hm, rfl⟩, ?_⟩
    exact Effect.bind_ok.mpr ⟨values, s, Effect.ofExcept_ok.mpr ⟨hr, rfl⟩, rfl⟩

/-- A clause that cannot be made is not completed, and the scope stays. -/
theorem complete_unmade {mode : Mode} {make : Drafting (List Char)} {s : Scope} {e : ClauseError}
    (h : make (.on s) = .error e) : complete mode make s = .error e s := by
  unfold complete
  change EStateM.bind (MonadExcept.ofExcept (make (.on s))) _ s = _
  rw [h]
  rfl

/--
A clause that has been made is completed if its bindings are resolved; if not, the scope stays.
-/
theorem complete_made {mode : Mode} {make : Drafting (List Char)} {s : Scope}
    {expression : List Char} {d : Draft} (h : make (.on s) = .ok (expression, d)) :
    complete mode make s = match resolve mode d.bindings with
      | .ok values => .ok ⟨String.ofList expression, d.names, values⟩ (s.enter d.names values)
      | .error e => .error e s := by
  unfold complete
  change EStateM.bind (MonadExcept.ofExcept (make (.on s))) _ s = _
  rw [h]
  change EStateM.bind (MonadExcept.ofExcept (resolve mode d.bindings)) _ s = _
  cases resolve mode d.bindings <;> rfl

end Draft

/-- What is done to a scope to mint a placeholder for a value. -/
theorem Scope.mintValue_eq (w : WireValue) (s : Scope) :
    mintValue w s = match w.findEmpty with
      | some e => .error (.emptyCollection (s.valueToken s.valueCount ++ e.path) e.tag) s
      | none => .ok (s.valueToken s.valueCount)
          (s.enter [] [(s.valueToken s.valueCount, w)]) := by
  unfold mintValue
  cases w.findEmpty <;> rfl

namespace Compiler

/-- **All that a successful translation does.** -/
theorem translate_ok {c : Compiler} {mode : Mode} {source : Source} {s s' : Scope}
    {clause : Clause} (h : c.translate mode source s = .ok clause s') :
    ∃ expression d values,
      c.draft ⟨c.codec, source.entity, false⟩ source (.on s) = .ok (expression, d) ∧
      List.Forall₂ Draft.Settled d.bindings values ∧
      clause = ⟨String.ofList expression, d.names, values⟩ ∧ s' = s.enter d.names values := by
  obtain ⟨expression, d, values, hm, hr, rest⟩ := Draft.complete_iff.mp h
  obtain ⟨hc, hv⟩ := Draft.resolve_ok hr
  refine ⟨expression, d, values, ?_, hv, rest⟩
  rw [binder, hc] at hm
  exact hm

end Compiler

end Clauses
