import Clauses.Proofs.Akin
import Clauses.Request.Builder
import Mathlib.Data.List.Nodup

/-!
# Clauses that do not depend on the order of maps

A hook is given a text in which the entries of a map stand in some order, and the next time that the
value is bound it may be another one. What the hook makes of the two texts need not be the same. But
this is all that there is to see of the order: the same clauses are made with the same placeholders,
and the same steps fail with the same errors. Only a hook that takes a text in one order and refuses
it in another would change that.

* `HookRegistry.Reorders` — the same hooks, where maps come in other orders
* `HookRegistry.OrderBlind` — no order of maps makes a hook fail that takes another one
* `WireValue.Reordered` — the same value, or what a hook has made of one value in two orders
* `Compiler.translate_reordered`, `RequestBuilder.Akin.run` — so nothing else differs
-/

namespace Clauses

/-! ## Other orders -/

/-- The same hooks, where maps come in other orders. -/
def HookRegistry.Reorders (r r' : HookRegistry) : Prop := r'.hooks = r.hooks

theorem HookRegistry.Reorders.get? {r r' : HookRegistry} (h : r.Reorders r') (id : String) :
    r'.get? id = r.get? id := by
  rw [HookRegistry.get?, HookRegistry.get?, h]

/-- The same codec, where maps come in other orders. -/
structure Codec.Reorders (codec codec' : Codec) : Prop where
  dateFormat : codec'.dateFormat = codec.dateFormat
  hooks : codec.hooks.Reorders codec'.hooks

/-- The same step, on an occasion on which maps come in other orders. -/
structure Occasion.Reorders {α : Type} (o o' : Occasion α) : Prop where
  step : o'.step = o.step
  hooks : o.hooks.Reorders o'.hooks

/-! ## Hooks -/

/-- The hook, however it is called. -/
def RegisteredHook.hook : RegisteredHook → Hook
  | .sync hook => hook
  | .async hook _ => hook

/-- Where the hook takes a value in one order of its maps it takes it in each, or it fails alike. -/
def Hook.OrderBlind (hook : Hook) : Prop :=
  ∀ context w order order', Except.Akin (fun _ _ => True)
    (hook.transform context (WireValue.payload order w))
    (hook.transform context (w.payload order'))

/-- A hook that never fails takes each order. -/
theorem Hook.orderBlind_of_total {hook : Hook}
    (h : ∀ context bytes, ∃ sealed, hook.transform context bytes = .ok sealed) :
    hook.OrderBlind := by
  intro context w order order'
  obtain ⟨sealed, hsealed⟩ := h context (w.payload order)
  obtain ⟨sealed', hsealed'⟩ := h context (w.payload order')
  rw [hsealed, hsealed']
  exact .ok trivial

/-- Neither the answer nor the course of a call is decided by the order of maps. -/
def RegisteredHook.OrderBlind : RegisteredHook → Prop
  | .sync hook => hook.OrderBlind
  | .async hook course => hook.OrderBlind ∧ ∀ context w order order',
    course context (WireValue.payload order w) = course context (w.payload order')

namespace HookRegistry

/-- No hook fails for one order of maps that takes another one. -/
def OrderBlind (r : HookRegistry) : Prop := ∀ id hook, r.get? id = some hook → hook.OrderBlind

theorem orderBlind_of_forall {r : HookRegistry} (h : ∀ e ∈ r.hooks, e.2.OrderBlind) :
    r.OrderBlind :=
  fun _ _ hid => h _ (Keyed.mem_of_find? hid)

/-- The hook is among those of the registry. -/
def Knows (r : HookRegistry) (hook : Hook) : Prop :=
  ∃ id registered, r.get? id = some registered ∧ registered.hook = hook

end HookRegistry

/-- The hook is there on one of the occasions. -/
def Occasion.AnyKnows {α : Type} (occasions : List (Occasion α)) (hook : Hook) : Prop :=
  ∃ o ∈ occasions, o.hooks.Knows hook

/-! ## Wire values -/

/--
The same wire value, or what one of these hooks has made of one value in two orders of its maps.
-/
inductive WireValue.Reordered (known : Hook → Prop) : WireValue → WireValue → Prop where
  | same (w : WireValue) : Reordered known w w
  | sealed {hook : Hook} {context : HookContext} {w : WireValue} {order order' : MapOrder}
    {bytes bytes' : Bytes} (h : known hook)
    (ho : hook.transform context (w.payload order) = .ok bytes)
    (ho' : hook.transform context (w.payload order') = .ok bytes') :
    Reordered known (.binary bytes) (.binary bytes')

theorem WireValue.Reordered.findEmpty_eq {known : Hook → Prop} {w w' : WireValue}
    (h : w.Reordered known w') : w'.findEmpty = w.findEmpty := by
  cases h <;> rfl

section

variable {known : Hook → Prop}

/-- What a hook makes of a value in two orders. -/
theorem Hook.OrderBlind.transform {hook : Hook} (h : hook.OrderBlind) (hk : known hook)
    (context : HookContext) (w : WireValue) (order order' : MapOrder) :
    Except.Akin (WireValue.SealsAkin (WireValue.Reordered known))
      (hook.transform context (w.payload order)) (hook.transform context (w.payload order')) := by
  have hboth := h context w order order'
  cases ho : hook.transform context (w.payload order) with
  | error fault =>
    cases ho' : hook.transform context (w.payload order') <;> rw [ho, ho'] at hboth <;> cases hboth
    exact .error fault
  | ok bytes =>
    cases ho' : hook.transform context (w.payload order') with
    | error fault => rw [ho, ho'] at hboth; cases hboth
    | ok bytes' => exact .ok (.sealed hk ho ho')

/-! ## Bindings -/

theorem Codec.Reorders.later {codec codec' : Codec} (h : codec.Reorders codec') (n : Nat) :
    (codec.later n).Reorders (codec'.later n) := ⟨h.dateFormat, h.hooks⟩

/-- A value is bound alike in each order. -/
theorem Codec.bind_reordered {codec codec' : Codec} (h : codec.Reorders codec')
    (hblind : codec.hooks.OrderBlind) (hk : ∀ hook, codec.hooks.Knows hook → known hook)
    (entity : Option String) (cancelled : Bool) (v : Value) (p : Property) :
    Except.Akin (Binding.Akin (WireValue.Reordered known)) (codec.bind entity cancelled v p)
      (codec'.bind entity cancelled v p) := by
  unfold Codec.bind
  rw [h.dateFormat]
  refine Except.Akin.bind (.of_self (R := Eq) (fun _ => rfl) _) fun w _ hw => ?_
  subst hw
  cases p.hook with
  | none => exact .ok (.ready (.same w))
  | some id =>
    dsimp only
    rw [HookRegistry.resolve, HookRegistry.resolve, h.hooks.get?]
    cases hid : codec.hooks.get? id with
    | none => exact .error _
    | some registered =>
      have hknown : known registered.hook := hk _ ⟨id, registered, hid, rfl⟩
      cases registered with
      | sync hook =>
        have hboth := (hblind id _ hid).transform hknown ⟨p.wireName, entity, cancelled⟩ w
          (codec.hooks.writing 0) (codec'.hooks.writing 0)
        change Except.Akin _ (Except.mapError _ _ >>= fun _ => _)
          (Except.mapError _ _ >>= fun _ => _)
        generalize hook.transform ⟨p.wireName, entity, cancelled⟩
          (w.payload (codec.hooks.writing 0))
          = x, hook.transform ⟨p.wireName, entity, cancelled⟩
          (w.payload (codec'.hooks.writing 0)) = x' at hboth
        cases hboth with
        | ok hb => exact .ok (.ready hb)
        | error fault => exact .error _
      | async hook course =>
        obtain ⟨hanswer, hcourse⟩ := hblind id _ hid
        exact .ok (.deferred ⟨rfl, rfl, hcourse _ _ _ _,
          fun cancelled => hanswer.transform hknown _ w _ _⟩)

/-- So are all values of a clause. -/
theorem Binder.reordered {codec codec' : Codec} (h : codec.Reorders codec')
    (hblind : codec.hooks.OrderBlind) (hk : ∀ hook, codec.hooks.Knows hook → known hook)
    (entity : Option String) (cancelled : Bool) :
    Drafting.Compatible.Binders (fun _ x x' => Drafting.Akin (WireValue.Reordered known) x x')
      ⟨codec, entity, cancelled⟩ ⟨codec', entity, cancelled⟩ :=
  fun v p => .value fun n => Codec.bind_reordered (h.later n) hblind hk entity cancelled v p

/-! ## Clauses -/

namespace Compiler

variable {c : Compiler} {hooks : HookRegistry} {s s' : Scope}

/-- A value that is bound at once. -/
theorem toWire_reordered {codec codec' : Codec} (h : codec.Reorders codec')
    (hblind : codec.hooks.OrderBlind) (hk : ∀ hook, codec.hooks.Knows hook → known hook)
    (v : Value) (p : Property) :
    Except.Akin (WireValue.Reordered known) (codec.toWire v p) (codec'.toWire v p) :=
  (Codec.bind_reordered h hblind hk none false v p).bind fun _ _ hb => hb.now

theorem codec_reorders (h : c.hooks.Reorders hooks) :
    c.codec.Reorders (Compiler.codec { c with hooks }) := ⟨rfl, h⟩

/-- **A clause comes out alike in each order of maps.** -/
theorem translate_reordered (h : c.hooks.Reorders hooks) (hblind : c.hooks.OrderBlind)
    (hk : ∀ hook, c.hooks.Knows hook → known hook) (mode : Mode) (source : Source)
    (hs : s.Akin (WireValue.Reordered known) s') :
    Effect.Akin (Clause.Akin (WireValue.Reordered known)) (Scope.Akin (WireValue.Reordered known))
      (c.translate mode source s) (Compiler.translate { c with hooks } mode source s') := by
  have hmade := Drafting.Akin.compatible.draft (Binder.reordered (codec_reorders h) hblind hk
    source.entity (source.modeOf mode).isCancelled) c source
  have hdraft (b : Binder) : Compiler.draft { c with hooks } b source = c.draft b source := by
    cases source <;> rfl
  unfold Compiler.translate
  refine Draft.complete_akin _ ?_ hs
  rw [hdraft]
  exact hmade

theorem bindValue_reordered (h : c.hooks.Reorders hooks) (hblind : c.hooks.OrderBlind)
    (hk : ∀ hook, c.hooks.Knows hook → known hook) (v : Value) (p : Property)
    (hs : s.Akin (WireValue.Reordered known) s') :
    Effect.Akin Eq (Scope.Akin (WireValue.Reordered known)) (c.bindValue v p s)
      (Compiler.bindValue { c with hooks } v p s') := by
  have hbind (c : Compiler) (s : Scope) : c.bindValue v p s = match c.codec.toWire v p with
      | .ok w => Scope.mintValue w s
      | .error e => .error e s := by
    change EStateM.bind (MonadExcept.ofExcept (c.codec.toWire v p)) _ s = _
    cases c.codec.toWire v p <;> rfl
  have hwire := toWire_reordered (codec_reorders h) hblind hk v p
  rw [hbind, hbind]
  generalize c.codec.toWire v p = x, (Compiler.codec { c with hooks }).toWire v p = x' at hwire
  cases hwire with
  | error e => exact .error e hs
  | ok hw => exact hs.mintValue hw hw.findEmpty_eq

end Compiler

/-! ## Requests -/

/-- The same expressions and placeholders; what the placeholders are bound to is akin. -/
structure RequestBuilder.Akin (W : WireValue → WireValue → Prop)
    (r r' : RequestBuilder) : Prop where
  scope : r.scope.Akin W r'.scope
  expressions : r'.expressions = r.expressions

/-- The same expressions and names; the wire values are akin. -/
structure Request.Akin (W : WireValue → WireValue → Prop) (q q' : Request) : Prop where
  expressions : q'.expressions = q.expressions
  names : q'.names = q.names
  values : Keyed.Akin W q.values q'.values

namespace RequestBuilder

variable {W : WireValue → WireValue → Prop} {r r' : RequestBuilder}

theorem Akin.of_self (hW : ∀ w, W w w) (r : RequestBuilder) : r.Akin W r := ⟨.of_self hW _, rfl⟩

theorem Akin.build (h : r.Akin W r') : r.build.Akin W r'.build :=
  ⟨h.expressions, h.scope.names, h.scope.values⟩

theorem ensureOpen_eq (kind : ClauseKind) (r : RequestBuilder) :
    ensureOpen kind r = if isOpen r.expressions kind then .ok () r
      else .error (.duplicateClause kind) r := by
  change (if !isOpen r.expressions kind then throw _ else pure () : Building Unit) r = _
  cases isOpen r.expressions kind <;> rfl

/-- What becomes of a request to which a clause is added. -/
theorem advance_clause (r : RequestBuilder) (c : Compiler) (mode : Mode) (source : Source) :
    r.advance c (.clause mode source) =
      if isOpen r.expressions source.kind then
        match c.translate mode source r.scope with
        | .ok clause s => (.ok none, ⟨s, merge r.expressions source.kind clause.expression⟩)
        | .error e s => (.error e, ⟨s, r.expressions⟩)
      else (.error (.duplicateClause source.kind), r) := by
  simp only [advance, step, add, onScope, bind, EStateM.bind, ensureOpen_eq]
  cases isOpen r.expressions source.kind with
  | false => rfl
  | true =>
    simp only [if_true]
    cases c.translate mode source r.scope <;> rfl

/-- What becomes of a request for which a value is bound beforehand. -/
theorem advance_bind (r : RequestBuilder) (c : Compiler) (v : Value) (p : Property) :
    r.advance c (.bind v p) =
      match c.bindValue v p r.scope with
      | .ok token s => (.ok (some token), ⟨s, r.expressions⟩)
      | .error e s => (.error e, ⟨s, r.expressions⟩) := by
  simp only [advance, step, onScope, Functor.map, EStateM.map]
  cases c.bindValue v p r.scope <;> rfl

/-- A step comes to the same in each order of maps. -/
theorem Akin.advance (h : r.Akin (WireValue.Reordered known) r') {c : Compiler}
    {hooks : HookRegistry} (hr : c.hooks.Reorders hooks) (hblind : c.hooks.OrderBlind)
    (hk : ∀ hook, c.hooks.Knows hook → known hook) (step : RequestStep) :
    (r'.advance { c with hooks } step).1 = (r.advance c step).1 ∧
      (r.advance c step).2.Akin (WireValue.Reordered known)
      (r'.advance { c with hooks } step).2 := by
  cases step with
  | clause mode source =>
    have htranslated := Compiler.translate_reordered hr hblind hk mode source h.scope
    rw [advance_clause, advance_clause, h.expressions]
    split
    · generalize c.translate mode source r.scope = x,
        Compiler.translate { c with hooks } mode source r'.scope = x' at htranslated
      cases htranslated with
      | ok hclause hs => exact ⟨rfl, hs, congrArg (merge _ _) hclause.expression⟩
      | error e hs => exact ⟨rfl, hs, rfl⟩
    · exact ⟨rfl, h⟩
  | bind v p =>
    have hbound := Compiler.bindValue_reordered hr hblind hk v p h.scope
    rw [advance_bind, advance_bind, h.expressions]
    generalize c.bindValue v p r.scope = x,
      Compiler.bindValue { c with hooks } v p r'.scope = x' at hbound
    cases hbound with
    | ok htoken hs => exact ⟨by rw [htoken], hs, rfl⟩
    | error e hs => exact ⟨rfl, hs, rfl⟩

/--
**So do all steps**, by induction: every answer is the same, and so is all that is built but seals.
-/
theorem Akin.run (config : Config) {occasions occasions' : List (Occasion RequestStep)}
    (ho : List.Forall₂ Occasion.Reorders occasions occasions')
    (hblind : ∀ o ∈ occasions, o.hooks.OrderBlind)
    (hk : ∀ hook, Occasion.AnyKnows occasions hook → known hook) :
    ∀ {r r' : RequestBuilder}, r.Akin (WireValue.Reordered known) r' →
      (r'.run config occasions').1 = (r.run config occasions).1 ∧
        (r.run config occasions).2.Akin (WireValue.Reordered known)
        (r'.run config occasions').2 := by
  induction ho with
  | nil => exact fun h => ⟨rfl, h⟩
  | @cons o o' occasions occasions' hfirst _ ih =>
    intro r r' h
    rw [List.forall_mem_cons] at hblind
    have hknown : ∀ hook, o.hooks.Knows hook → known hook :=
      fun hook hh => hk hook ⟨o, List.mem_cons_self, hh⟩
    obtain ⟨hanswer, hr⟩ := h.advance (c := ⟨config, o.hooks⟩) hfirst.hooks hblind.1 hknown o.step
    obtain ⟨hanswers, hrun⟩ := ih hblind.2
      (fun hook ⟨o, ho, hh⟩ => hk hook ⟨o, List.mem_cons_of_mem _ ho, hh⟩) hr
    rw [RequestBuilder.run, RequestBuilder.run, hfirst.step]
    exact ⟨congrArg₂ List.cons hanswer hanswers, hrun⟩

end RequestBuilder

end

/-! ### A map that comes in two orders -/

/-- Where no key stands twice, one entry at most stands behind a key. -/
theorem filter_reverse_of_nodup {entries : List (String × WireValue)}
    (h : (entries.map Prod.fst).Nodup) (k : String) :
    entries.reverse.filter (·.1 == k) = entries.filter (·.1 == k) := by
  have hcount : (entries.filter (·.1 == k)).length ≤ 1 := by
    have hkey := List.nodup_iff_count_le_one.mp h k
    rwa [List.count, List.countP_map, List.countP_eq_length_filter] at hkey
  rw [List.filter_reverse]
  generalize entries.filter (·.1 == k) = l at hcount
  match l, hcount with
  | [], _ | [_], _ => rfl

/-- Entries come from the last key to the first, where no key stands twice. -/
def MapOrder.fromLast : MapOrder where
  arrange _ entries := if (entries.map Prod.fst).Nodup then entries.reverse else entries
  stable _ entries k := by
    split
    · next h => exact filter_reverse_of_nodup h k
    · rfl

/-- A hook that writes bytes backwards. -/
def Hook.mirroring : Hook :=
  ⟨fun _ bytes => .ok bytes.reverse, fun _ bytes => .ok bytes.reverse⟩

theorem Hook.mirroring_orderBlind : mirroring.OrderBlind :=
  orderBlind_of_total fun _ bytes => ⟨bytes.reverse, rfl⟩

end Clauses
