import Clauses.Proofs.MapOrders

/-!
# Calls that are postponed

A hook may be called at once, while a clause is made, or later, side by side with other calls of the
clause. Where nobody cancels this makes no difference. The clause is made in the same steps; only
what is bound to its values differs, the answer of a hook on one side and a call that will give it
on the other. A call that fails does so at another time: the making of the clause goes on without
knowing, but the call is among the bindings when it ends, and they are not resolved.

* `HookRegistry.Postpones` — the same hooks, some of them called later
* `Drafting.Postpones` — two makings of a clause side by side, and how they come to an end
* `Compiler.postponed_agrees` — the same clauses are translated, to the same and in the same scope
-/

namespace Clauses

/-! ## Hooks -/

/-- The same hook, called at once and then or later; nobody cancels in the course of it. -/
inductive RegisteredHook.Postpones : RegisteredHook → RegisteredHook → Prop where
  | same (hook : Hook) : Postpones (.sync hook) (.sync hook)
  | later (hook : Hook) {course : HookContext → Bytes → Course}
    (quiet : ∀ context payload, (course context payload).cancels = false) :
    Postpones (.sync hook) (.async hook course)

/--
The same hooks under the same ids, all called at once on one side and some later on the other.
-/
def HookRegistry.Postpones (r r' : HookRegistry) : Prop :=
  ∀ id, Option.Rel RegisteredHook.Postpones (r.get? id) (r'.get? id)

namespace HookRegistry.Postpones

variable {r r' : HookRegistry}

theorem empty : HookRegistry.empty.Postpones .empty := fun _ => .none

/-- Each hook of a registry may be called at once or later, whatever is done with the others. -/
theorem insert {hook hook' : RegisteredHook} (h : r.Postpones r') (id : String)
    (hh : hook.Postpones hook') : (r.insert id hook).Postpones (r'.insert id hook') := by
  intro id'
  simp only [HookRegistry.get?, HookRegistry.insert, Keyed.find?_insert]
  split
  · exact .some hh
  · exact h id'

end HookRegistry.Postpones

/-! ## Bindings -/

/-- The same wire value, or a call that will answer with it. -/
inductive Binding.Postpones : Binding → Binding → Prop where
  | same (w : WireValue) : Postpones (.ready w) (.ready w)
  | later {d : Deferred} {bytes : Bytes} (quiet : d.task.course.cancels = false)
    (answer : d.task.answer false = .ok bytes) : Postpones (.ready (.binary bytes)) (.deferred d)

/-- What is waited for is what is there on the other side. -/
theorem Binding.Postpones.settles_iff {b b' : Binding} (h : b.Postpones b') (w : WireValue) :
    b'.Settles w ↔ b = .ready w := by
  cases h with
  | same w₀ =>
    constructor
    · rintro ⟨⟩
      rfl
    · rintro ⟨⟩
      exact .ready w
  | later quiet answer =>
    constructor
    · rintro (_ | ha)
      rw [answer] at ha
      cases ha
      rfl
    · rintro ⟨⟩
      exact .deferred answer

/-! ### What hooks make of a value -/

section Hooks

variable {r r' : HookRegistry} {hook hook' : RegisteredHook} {id : String} {context : HookContext}
  {payload : Bytes}

theorem HookRegistry.Postpones.postponed (h : r.Postpones r') (hid : r.get? id = some hook) :
    ∃ hook', r'.get? id = some hook' ∧ hook.Postpones hook' := by
  have hrel := h id
  cases hid' : r'.get? id with
  | none => rw [hid, hid'] at hrel; cases hrel
  | some hook' =>
    rw [hid, hid', Option.rel_some_some] at hrel
    exact ⟨hook', rfl, hrel⟩

theorem HookRegistry.Postpones.prompt (h : r.Postpones r') (hid : r'.get? id = some hook') :
    ∃ hook, r.get? id = some hook ∧ hook.Postpones hook' := by
  have hrel := h id
  cases hid' : r.get? id with
  | none => rw [hid, hid'] at hrel; cases hrel
  | some hook =>
    rw [hid, hid', Option.rel_some_some] at hrel
    exact ⟨hook, rfl, hrel⟩

/-- What a hook answers at once it answers later as well. -/
theorem RegisteredHook.Postpones.seals_later (h : hook.Postpones hook')
    (hcontext : context.cancelled = false) {b : Binding} (hs : hook.Seals id context payload b) :
    ∃ b', hook'.Seals id context payload b' ∧ b.Postpones b' := by
  cases h with
  | same hook =>
    cases hs with
    | now ho => exact ⟨_, .now ho, .same _⟩
  | later hook quiet =>
    cases hs with
    | now ho =>
      refine ⟨_, .later hook _, .later (quiet _ _) ?_⟩
      rw [Task.start, ← hcontext]
      exact ho

/-- What a hook will answer later it answers at once as well. -/
theorem RegisteredHook.Postpones.seals_now (h : hook.Postpones hook')
    (hcontext : context.cancelled = false) {b' : Binding} {w' : WireValue}
    (hs : hook'.Seals id context payload b') (hw : b'.Settles w') :
    ∃ b, hook.Seals id context payload b ∧ b.Postpones b' := by
  cases h with
  | same hook =>
    cases hs with
    | now ho => exact ⟨_, .now ho, .same _⟩
  | later hook quiet =>
    cases hs with
    | later =>
      cases hw with
      | deferred answer =>
        have now := answer
        rw [Task.start, ← hcontext] at now
        exact ⟨_, .now now, .later (quiet _ _) answer⟩

end Hooks

namespace Codec

variable (codec codec' : Codec) {entity : Option String} {v : Value} {p : Property}

/-- What is bound at once is bound or waited for on the other side. -/
theorem bind_later (hf : codec'.dateFormat = codec.dateFormat)
    (hh : codec.hooks.Postpones codec'.hooks)
    (hw : codec'.hooks.writing 0 = codec.hooks.writing 0) {b : Binding}
    (h : codec.bind entity false v p = .ok b) :
    ∃ b', codec'.bind entity false v p = .ok b' ∧ b.Postpones b' := by
  obtain ⟨w, he, h⟩ := bind_ok_iff.mp h
  rw [← hf] at he
  rcases h with ⟨hp, rfl⟩ | ⟨id, hook, hp, hid, hs⟩
  · exact ⟨.ready w, bind_ok_iff.mpr ⟨w, he, .inl ⟨hp, rfl⟩⟩, .same w⟩
  · obtain ⟨hook', hid', hrel⟩ := hh.postponed hid
    rw [← hw] at hs
    obtain ⟨b', hs', hb⟩ := hrel.seals_later rfl hs
    exact ⟨b', bind_ok_iff.mpr ⟨w, he, .inr ⟨id, hook', hp, hid', hs'⟩⟩, hb⟩

/-- What is bound, or is waited for and will come, is bound at once on the other side. -/
theorem bind_now (hf : codec'.dateFormat = codec.dateFormat)
    (hh : codec.hooks.Postpones codec'.hooks)
    (hw : codec'.hooks.writing 0 = codec.hooks.writing 0) {b' : Binding} {w' : WireValue}
    (h : codec'.bind entity false v p = .ok b') (hs : b'.Settles w') :
    ∃ b, codec.bind entity false v p = .ok b ∧ b.Postpones b' := by
  obtain ⟨w, he, h⟩ := bind_ok_iff.mp h
  rw [hf] at he
  rcases h with ⟨hp, rfl⟩ | ⟨id, hook', hp, hid', hs'⟩
  · exact ⟨.ready w, bind_ok_iff.mpr ⟨w, he, .inl ⟨hp, rfl⟩⟩, .same w⟩
  · obtain ⟨hook, hid, hrel⟩ := hh.prompt hid'
    rw [hw] at hs'
    obtain ⟨b, hs, hb⟩ := hrel.seals_now rfl hs' hs
    exact ⟨b, bind_ok_iff.mpr ⟨w, he, .inr ⟨id, hook, hp, hid, hs⟩⟩, hb⟩

end Codec

/-! ## Drafts -/

/-- The same placeholders, and bindings some of which are waited for. -/
def Draft.Postpones (d d' : Draft) : Prop := d.Akin Eq Binding.Postpones d'

theorem Draft.Postpones.on (s : Scope) : (Draft.on s).Postpones (.on s) :=
  Draft.Akin.on (.of_self (fun _ => rfl) s)

/-- All that is waited for will come. -/
def Draft.Settles (d : Draft) : Prop := ∀ e ∈ d.bindings, ∃ w, e.2.Settles w

/-! ## Steps side by side -/

/--
A step beside the same step with calls that are postponed. From drafts side by side both come to
drafts side by side. The second one may go further, but not if all that it waits for will come.
-/
structure Drafting.Postpones {α : Type} (x x' : Drafting α) : Prop where
  minting : Minting x'
  later {d d' d₁ : Draft} {a : α} : d.Postpones d' → x d = .ok (a, d₁) →
    ∃ d₁', x' d' = .ok (a, d₁') ∧ d₁.Postpones d₁'
  now {d d' d₁' : Draft} {a : α} : d.Postpones d' → x' d' = .ok (a, d₁') → d₁'.Settles →
    ∃ d₁, x d = .ok (a, d₁) ∧ d₁.Postpones d₁'

/-- What has been waited for before more was minted is waited for after that. -/
theorem Draft.Settles.of_grows {d d' : Draft} (h : d'.Settles) (hg : d.Grows d') : d.Settles :=
  fun e he => h e (hg.bindings_prefix.subset he)

namespace Drafting.Postpones

variable {α β : Type}

/-- A step that comes to the same from every draft, with the same draft. -/
theorem of_eq {x x' : Drafting α} (r : Except ClauseError α)
    (h : ∀ d, x d = r.map (·, d)) (h' : ∀ d, x' d = r.map (·, d)) : Postpones x x' := by
  refine ⟨fun d a d' hd => ?_, fun {d d' d₁ a} hp hd => ?_, fun {d d' d₁' a} hp hd _ => ?_⟩
  · rw [h'] at hd
    cases r with
    | error e => cases hd
    | ok b => cases hd; exact .refl
  · rw [h] at hd
    rw [h']
    cases r with
    | error e => cases hd
    | ok b => cases hd; exact ⟨d', rfl, hp⟩
  · rw [h'] at hd
    rw [h]
    cases r with
    | error e => cases hd
    | ok b => cases hd; exact ⟨d, rfl, hp⟩

theorem bind {x x' : Drafting α} {f f' : α → Drafting β} (hx : Postpones x x')
    (hf : ∀ a, Postpones (f a) (f' a)) : Postpones (x >>= f) (x' >>= f') := by
  refine ⟨.bind hx.minting fun a => (hf a).minting, fun {d d' d₂ b} hp h => ?_,
    fun {d d' d₂' b} hp h hs => ?_⟩
  · obtain ⟨a, d₁, h₁, h₂⟩ := bind_ok.mp h
    obtain ⟨d₁', h₁', hp₁⟩ := hx.later hp h₁
    obtain ⟨d₂', h₂', hp₂⟩ := (hf a).later hp₁ h₂
    exact ⟨d₂', bind_ok.mpr ⟨a, d₁', h₁', h₂'⟩, hp₂⟩
  · obtain ⟨a, d₁', h₁', h₂'⟩ := bind_ok.mp h
    -- What the first step waits for is still waited for at the end.
    have hs₁ : d₁'.Settles := hs.of_grows ((hf a).minting h₂')
    obtain ⟨d₁, h₁, hp₁⟩ := hx.now hp h₁' hs₁
    obtain ⟨d₂, h₂, hp₂⟩ := (hf a).now hp₁ h₂' hs
    exact ⟨d₂, bind_ok.mpr ⟨a, d₁, h₁, h₂⟩, hp₂⟩

theorem bindName (a : String) : Postpones (Draft.bindName a) (Draft.bindName a) := by
  refine ⟨Draft.bindName_minting a, fun {d d' d₁ t} hp h => ?_, fun {d d' d₁' t} hp h _ => ?_⟩
  · cases h
    refine ⟨_, ?_, hp.name a⟩
    rw [Draft.bindName, hp.nextName]
  · cases h
    refine ⟨_, ?_, hp.name a⟩
    rw [Draft.bindName, hp.nextName]

theorem reuse (token : String) : Postpones (Draft.reuse token) (Draft.reuse token) := by
  refine ⟨Draft.reuse_minting token, fun {d d' d₁ t} hp h => ?_, fun {d d' d₁' t} hp h _ => ?_⟩
  · unfold Draft.reuse at h ⊢
    rw [hp.contains]
    split at h
    · next hc =>
      cases h
      exact ⟨d', if_pos hc, hp⟩
    · cases h
  · unfold Draft.reuse at h ⊢
    rw [hp.contains] at h
    split at h
    · next hc =>
      cases h
      exact ⟨d, if_pos hc, hp⟩
    · cases h

theorem lookUp (token : String) {f f' : Option String → Drafting α}
    (hf : ∀ a, Postpones (f a) (f' a)) :
    Postpones (get >>= fun d => f (d.attribute? token))
      (get >>= fun d => f' (d.attribute? token)) := by
  refine ⟨.bind .get fun d => (hf _).minting, fun {d d' d₁ a} hp h => ?_,
    fun {d d' d₁' a} hp h hs => ?_⟩
  · obtain ⟨_, _, hg, h₁⟩ := bind_ok.mp h
    obtain ⟨rfl, rfl⟩ := get_ok.mp hg
    obtain ⟨d₁', h₁', hp₁⟩ := (hf _).later hp h₁
    refine ⟨d₁', bind_ok.mpr ⟨d', d', rfl, ?_⟩, hp₁⟩
    rw [hp.attribute?]
    exact h₁'
  · obtain ⟨_, _, hg, h₁'⟩ := bind_ok.mp h
    obtain ⟨rfl, rfl⟩ := get_ok.mp hg
    rw [hp.attribute?] at h₁'
    obtain ⟨d₁, h₁, hp₁⟩ := (hf _).now hp h₁' hs
    exact ⟨d₁, bind_ok.mpr ⟨d, d, rfl, h₁⟩, hp₁⟩

theorem compatible : Compatible fun _ x x' => Postpones x x' where
  pure a := of_eq (.ok a) (fun _ => rfl) fun _ => rfl
  throw e := of_eq (.error e) (fun _ => rfl) fun _ => rfl
  lift x := of_eq x (fun _ => by cases x <;> rfl) fun _ => by cases x <;> rfl
  bind := bind
  bindName := bindName
  reuse := reuse
  lookUp token _ _ hf := lookUp token hf

/-- The bindings of each value, with hooks that are called later on the same texts. -/
theorem binders (codec codec' : Codec) (entity : Option String)
    (hf : codec'.dateFormat = codec.dateFormat) (hh : codec.hooks.Postpones codec'.hooks)
    (hw : codec'.hooks.writing = codec.hooks.writing) :
    Compatible.Binders (fun _ x x' => Postpones x x') ⟨codec, entity, false⟩
      ⟨codec', entity, false⟩ := by
  intro v p
  have hlater (n : Nat) : (codec'.later n).hooks.writing 0 = (codec.later n).hooks.writing 0 :=
    congrFun hw (0 + n)
  refine ⟨Binder.value_minting _ v p, fun {d d' d₁ t} hp h => ?_, fun {d d' d₁' t} hp h hs => ?_⟩
  · obtain ⟨b, hb, rfl, rfl⟩ := Binder.value_ok_iff.mp h
    obtain ⟨b', hb', hrel⟩ := Codec.bind_later (codec.later _) (codec'.later _) hf hh (hlater _) hb
    refine ⟨_, Binder.value_ok_iff.mpr ⟨b', ?_, hp.nextValue.symm, rfl⟩, hp.value hrel⟩
    rwa [← hp.bindings.length_eq]
  · obtain ⟨b', hb', rfl, rfl⟩ := Binder.value_ok_iff.mp h
    -- The call is among the bindings at the end, so it comes to a value.
    obtain ⟨w, hcome⟩ := hs (d'.nextValue, b') (List.mem_append_right _ List.mem_cons_self)
    rw [← hp.bindings.length_eq] at hb'
    obtain ⟨b, hb, hrel⟩ := Codec.bind_now (codec.later _) (codec'.later _) hf
      hh (hlater _) hb' hcome
    exact ⟨_, Binder.value_ok_iff.mpr ⟨b, hb, hp.nextValue, rfl⟩, hp.value hrel⟩

end Drafting.Postpones

/-! ## The ends of clauses -/

namespace Draft

/-- Bindings are resolved at once if none of them waits. -/
theorem resolveNow_iff {bindings : List (String × Binding)} {values : List (String × WireValue)} :
    resolveNow bindings = .ok values ↔ bindings = values.map fun v => (v.1, .ready v.2) := by
  constructor
  · intro h
    induction bindings generalizing values with
    | nil =>
      cases h
      rfl
    | cons e rest ih =>
      obtain ⟨token, b⟩ := e
      obtain ⟨w, hw, h₁⟩ := Except.bind_ok.mp h
      obtain ⟨vs, hvs, h₂⟩ := Except.bind_ok.mp h₁
      cases h₂
      cases b with
      | ready w₀ =>
        cases hw
        rw [ih hvs, List.map_cons]
      | deferred d => cases hw
  · rintro rfl
    induction values with
    | nil => rfl
    | cons v values ih =>
      exact Except.bind_ok.mpr ⟨v.2, rfl, Except.bind_ok.mpr ⟨values, ih, rfl⟩⟩

namespace Postpones

variable {d d' : Draft}

/-- No call that is waited for cancels the others. -/
theorem quiet (h : d.Postpones d') : ∀ c ∈ deferred d'.bindings, c.task.course.cancels = false := by
  have hall := h.bindings
  generalize d.bindings = bs, d'.bindings = bs' at hall
  induction hall with
  | nil => exact fun c hc => absurd hc List.not_mem_nil
  | @cons e e' bs bs' he _ ih =>
    obtain ⟨token, b⟩ := e
    obtain ⟨token', b'⟩ := e'
    cases he.2 with
    | same w => exact ih
    | later quiet answer => exact List.forall_mem_cons.mpr ⟨quiet, ih⟩

/-- The bindings come to what is bound on the other side. -/
theorem settled_iff (h : d.Postpones d') {values : List (String × WireValue)} :
    List.Forall₂ Settled d'.bindings values ↔
      d.bindings = values.map fun v => (v.1, .ready v.2) := by
  have hall := h.bindings
  generalize d.bindings = bs, d'.bindings = bs' at hall
  induction hall generalizing values with
  | nil => cases values <;> simp
  | @cons e e' bs bs' he _ ih =>
    obtain ⟨token, b⟩ := e
    cases values with
    | nil => simp
    | cons v values =>
      simp only [List.forall₂_cons, Settled, he.1, he.2.settles_iff, ih, List.map_cons,
        List.cons.injEq, Prod.mk.injEq, eq_comm (a := v.1)]

theorem resolve_iff (h : d.Postpones d') (values : List (String × WireValue)) :
    resolve (.async false) d'.bindings = .ok values ↔ resolve .sync d.bindings = .ok values := by
  rw [resolve_async_iff, and_iff_right h.quiet, h.settled_iff]
  exact resolveNow_iff.symm

theorem settles_of_resolve {values : List (String × WireValue)}
    (h : resolve (.async false) d'.bindings = .ok values) : d'.Settles := by
  intro e he
  obtain ⟨w, hw, -⟩ := exists_settled (resolve_ok h).2 he
  exact ⟨w, hw⟩

end Postpones

/-- What is made side by side is completed alike. -/
theorem complete_agrees {make make' : Drafting (List Char)} (h : Drafting.Postpones make make')
    {s s' : Scope} {clause : Clause} :
    complete (.async false) make' s = .ok clause s' ↔ complete .sync make s = .ok clause s' := by
  rw [complete_iff, complete_iff]
  constructor
  · rintro ⟨expression, d', values, hm', hr', hclause, hs'⟩
    obtain ⟨d, hm, hp⟩ := h.now (.on s) hm' (Postpones.settles_of_resolve hr')
    rw [hp.names] at hclause hs'
    exact ⟨expression, d, values, hm, (hp.resolve_iff values).mp hr', hclause, hs'⟩
  · rintro ⟨expression, d, values, hm, hr, hclause, hs'⟩
    obtain ⟨d', hm', hp⟩ := h.later (.on s) hm
    rw [← hp.names] at hclause hs'
    exact ⟨expression, d', values, hm', (hp.resolve_iff values).mpr hr, hclause, hs'⟩

end Draft

/-! ## Clauses -/

namespace Compiler

/--
**Asynchronous translation agrees with the synchronous one.** Let some of the hooks be called later,
for any time, without anybody cancelling. Then the same sources are translated, to the same clauses,
and the scope is left the same, if the hooks are given the same texts. If maps come in other orders,
the clauses and scopes differ in what is sealed from another text, and in nothing else.
-/
theorem postponed_agrees (c : Compiler) {hooks : HookRegistry} (h : c.hooks.Postpones hooks)
    (source : Source) (s : Scope) :
    let prompt := c.translate .sync source s
    let postponed := Compiler.translate { c with hooks } (.async false) source s
    (hooks.writing = c.hooks.writing →
      ∀ clause s', postponed = .ok clause s' ↔ prompt = .ok clause s') ∧
    (c.hooks.OrderBlind →
      Effect.Agree (Clause.Akin (WireValue.Reordered c.hooks.Knows))
        (Scope.Akin (WireValue.Reordered c.hooks.Knows)) prompt postponed) := by
  intro prompt postponed
  have same {c : Compiler} (h : c.hooks.Postpones hooks) (hw : hooks.writing = c.hooks.writing)
      (clause : Clause) (s' : Scope) :
      Compiler.translate { c with hooks } (.async false) source s = .ok clause s' ↔
        c.translate .sync source s = .ok clause s' := by
    have hmade : Drafting.Postpones (c.draft ⟨c.codec, source.entity, false⟩ source)
        (c.draft ⟨⟨c.config.dateFormat, hooks⟩, source.entity, false⟩ source) :=
      Drafting.Postpones.compatible.draft
        (Drafting.Postpones.binders c.codec ⟨_, hooks⟩ _ rfl h hw) c source
    cases source with
    -- A projection binds no value, and is translated without looking at hooks at all.
    | projection schema properties => exact Iff.rfl
    | predicate | template | update => exact Draft.complete_agrees hmade
  refine ⟨same h, fun hblind => ?_⟩
  -- The hooks that are called at once, given the texts of those that are called later.
  let middle : HookRegistry := { c.hooks with writing := hooks.writing }
  have hreorders : c.hooks.Reorders middle := rfl
  have hmiddle := translate_reordered hreorders hblind (fun _ h => h) .sync source
    (.of_self .same s)
  exact hmiddle.agree.trans_iff (same (c := { c with hooks := middle }) h rfl)

/-! ### A hook that is called later -/

/-- Guests, of whom two properties are written backwards by hooks of their own. -/
def guestSchema : Schema :=
  ⟨"Guest", [("Name", ⟨"Name", "name", none, some "early"⟩), ("Age", .plain "age"),
    ("Room", ⟨"Room", "room", none, some "late"⟩)]⟩

/-- A guest on a floor, but not of this name. -/
def isNeighbour : Predicate :=
  .and [.not (.compare (.property "Name") .equal [.value (.text "Ada")]),
    .compare (.property "Age") .greater [.value (.integer 18)],
    .compare (.property "Room") .among [.value (.text "A1"), .value (.text "A2")]]

/-- Hooks that are called at once. -/
def promptHooks : HookRegistry :=
  (HookRegistry.empty.insert "late" (.sync .mirroring)).insert "early" (.sync .mirroring)

/-- The same hooks; one of them takes longer the more bytes there are. -/
def tardyHooks : HookRegistry :=
  (HookRegistry.empty.insert "late" (.async .mirroring fun _ bytes => ⟨bytes.length, false⟩)).insert
    "early" (.sync .mirroring)

theorem tardy_hooks_agree :
    let c : Compiler := ⟨.standard, promptHooks⟩
    let clause : Clause := ⟨"(#attr0 <> :p0) AND (#attr1 > :p1) AND (#attr2 IN (:p2, :p3))",
      [("#attr0", "name"), ("#attr1", "age"), ("#attr2", "room")],
      [(":p0", .binary (Text.toBytes "\x7d\"adA\":\"S\"\x7b")), (":p1", .number "18"),
        (":p2", .binary (Text.toBytes "\x7d\"1A\":\"S\"\x7b")),
        (":p3", .binary (Text.toBytes "\x7d\"2A\":\"S\"\x7b"))]⟩
    promptHooks.Postpones tardyHooks ∧
      Compiler.translate { c with hooks := tardyHooks } (.async false)
          (.predicate .filter guestSchema isNeighbour) c.scope
        = .ok clause (c.scope.enter clause.names clause.values) := by
  intro c clause
  have hh : promptHooks.Postpones tardyHooks :=
    (HookRegistry.Postpones.empty.insert "late" (.later .mirroring fun _ _ => rfl)).insert "early"
      (.same .mirroring)
  have h : c.translate .sync (.predicate .filter guestSchema isNeighbour) c.scope
      = .ok clause (c.scope.enter clause.names clause.values) := by
    decide +kernel
  exact ⟨hh, ((postponed_agrees c hh _ _).1 rfl _ _).mpr h⟩

end Compiler

end Clauses
