import Clauses.Proofs.Completing
import Mathlib.Data.List.Forall2

/-!
# Clauses that are akin

A clause may be made twice so that nothing differs but the wire values that are bound: the same
placeholders are minted in the same order, and the same errors come at the same places. Which wire
values are akin to each other is left open here. The making of a clause does nothing with them but
keep them, and so it is enough that the bindings of each value are akin.

* `Except.Akin`, `Effect.Akin` — results that are akin, or the same error
* `Scope.Akin`, `Draft.Akin` — the same placeholders, bound to what is akin
* `Batch.run_akin` — calls whose answers are akin make batches that end alike
* `Drafting.Akin.compatible`, `Draft.complete_akin` — clauses that are made and completed alike
-/

namespace Clauses

variable {α α' β β' ε σ σ' : Type}

/-! ## Results -/

namespace Except

/-- Both have come to what is akin, or both to the same error. -/
inductive Akin (R : α → α' → Prop) : Except ε α → Except ε α' → Prop where
  | ok {a : α} {a' : α'} (h : R a a') : Akin R (.ok a) (.ok a')
  | error (e : ε) : Akin R (.error e) (.error e)

namespace Akin

variable {R : α → α' → Prop} {S : β → β' → Prop} {x : Except ε α} {x' : Except ε α'}

theorem of_self {R : α → α → Prop} (hR : ∀ a, R a a) : ∀ x : Except ε α, Akin R x x
  | .ok a => .ok (hR a)
  | .error e => .error e

theorem mono {R' : α → α' → Prop} (h : Akin R x x') (hR : ∀ {a a'}, R a a' → R' a a') :
    Akin R' x x' := by
  cases h with
  | ok ha => exact .ok (hR ha)
  | error e => exact .error e

theorem ok_right (h : Akin R x x') {a : α} (hx : x = .ok a) : ∃ a', x' = .ok a' ∧ R a a' := by
  subst hx
  cases h with | ok ha => exact ⟨_, rfl, ha⟩

theorem ok_left (h : Akin R x x') {a' : α'} (hx : x' = .ok a') : ∃ a, x = .ok a ∧ R a a' := by
  subst hx
  cases h with | ok ha => exact ⟨_, rfl, ha⟩

theorem bind {f : α → Except ε β} {f' : α' → Except ε β'} (h : Akin R x x')
    (hf : ∀ a a', R a a' → Akin S (f a) (f' a')) : Akin S (x >>= f) (x' >>= f') := by
  cases h with
  | ok ha => exact hf _ _ ha
  | error e => exact .error e

end Akin

end Except

namespace Effect

/-- Both leave behind what is akin, and so are their results, or both fail with the same error. -/
inductive Akin (R : α → α' → Prop) (S : σ → σ' → Prop) :
    EStateM.Result ClauseError σ α → EStateM.Result ClauseError σ' α' → Prop where
  | ok {a : α} {a' : α'} {s : σ} {s' : σ'} (h : R a a') (hs : S s s') :
    Akin R S (.ok a s) (.ok a' s')
  | error {s : σ} {s' : σ'} (e : ClauseError) (hs : S s s') : Akin R S (.error e s) (.error e s')

/--
Both succeed or neither does. If they do, they leave behind what is akin, and so are their results.
-/
structure Agree (R : α → α' → Prop) (S : σ → σ' → Prop) (x : EStateM.Result ClauseError σ α)
    (x' : EStateM.Result ClauseError σ' α') : Prop where
  succeed : (∃ a s, x = .ok a s) ↔ ∃ a' s', x' = .ok a' s'
  related : ∀ a s a' s', x = .ok a s → x' = .ok a' s' → R a a' ∧ S s s'

variable {R : α → α' → Prop} {S : σ → σ' → Prop} {x : EStateM.Result ClauseError σ α}
  {x' x'' : EStateM.Result ClauseError σ' α'}

theorem Akin.ok_right (h : Akin R S x x') {a : α} {s : σ} (hx : x = .ok a s) :
    ∃ a' s', x' = .ok a' s' ∧ R a a' ∧ S s s' := by
  subst hx
  cases h with | ok ha hs => exact ⟨_, _, rfl, ha, hs⟩

theorem Akin.agree (h : Akin R S x x') : Agree R S x x' := by
  cases h with
  | ok ha hs =>
    refine ⟨⟨fun _ => ⟨_, _, rfl⟩, fun _ => ⟨_, _, rfl⟩⟩, fun a s a' s' h h' => ?_⟩
    cases h
    cases h'
    exact ⟨ha, hs⟩
  | error e hs =>
    refine ⟨⟨?_, ?_⟩, fun a s a' s' h _ => nomatch h⟩ <;>
    · rintro ⟨_, _, h⟩
      cases h

theorem Agree.trans_iff (h : Agree R S x x')
    (hsame : ∀ a s, x'' = .ok a s ↔ x' = .ok a s) : Agree R S x x'' where
  succeed := h.succeed.trans (exists_congr fun a => exists_congr fun s => (hsame a s).symm)
  related a s a' s' hx hx' := h.related a s a' s' hx ((hsame a' s').mp hx')

end Effect

/-! ## Tables -/

namespace Keyed

/-- The same keys, with what is akin behind them. -/
def Akin (R : α → α' → Prop) : List (String × α) → List (String × α') → Prop :=
  List.Forall₂ fun e e' => e'.1 = e.1 ∧ R e.2 e'.2

namespace Akin

variable {R : α → α' → Prop} {m entries : List (String × α)} {m' entries' : List (String × α')}

theorem of_self {R : α → α → Prop} (hR : ∀ a, R a a) (m : List (String × α)) : Akin R m m :=
  List.forall₂_same.mpr fun e _ => ⟨rfl, hR e.2⟩

theorem keys (h : Akin R m m') : m'.map Prod.fst = m.map Prod.fst := by
  induction h with
  | nil => rfl
  | cons he _ ih => rw [List.map_cons, List.map_cons, he.1, ih]

theorem find? (h : Akin R m m') (k : String) :
    Option.Rel R (Keyed.find? k m) (Keyed.find? k m') := by
  induction h with
  | nil => exact .none
  | @cons e e' m m' he _ ih =>
    obtain ⟨k₁, v⟩ := e
    obtain ⟨k₁', v'⟩ := e'
    obtain ⟨rfl, hv⟩ := he
    rw [Keyed.find?, Keyed.find?]
    split
    · exact .some hv
    · exact ih

theorem insert (h : Akin R m m') (k : String) {v : α} {v' : α'} (hv : R v v') :
    Akin R (Keyed.insert k v m) (Keyed.insert k v' m') := by
  induction h with
  | nil => exact .cons ⟨rfl, hv⟩ .nil
  | @cons e e' m m' he hm ih =>
    obtain ⟨k₁, u⟩ := e
    obtain ⟨k₁', u'⟩ := e'
    obtain ⟨rfl, hu⟩ := he
    rw [Keyed.insert, Keyed.insert]
    split
    · exact .cons ⟨rfl, hv⟩ (.cons ⟨rfl, hu⟩ hm)
    · split
      · exact .cons ⟨rfl, hv⟩ hm
      · exact .cons ⟨rfl, hu⟩ ih

theorem extend (h : Akin R m m') (he : Akin R entries entries') :
    Akin R (Keyed.extend m entries) (Keyed.extend m' entries') := by
  induction he generalizing m m' with
  | nil => exact h
  | @cons e e' entries entries' hv _ ih =>
    obtain ⟨k, v⟩ := e
    obtain ⟨k', v'⟩ := e'
    obtain ⟨rfl, hv⟩ := hv
    exact ih (h.insert _ hv)

end Akin

end Keyed

/-! ## Scopes -/

/-- The same placeholders; the wire values behind them are akin. -/
structure Scope.Akin (W : WireValue → WireValue → Prop) (s s' : Scope) : Prop where
  namePrefix : s'.namePrefix = s.namePrefix
  valuePrefix : s'.valuePrefix = s.valuePrefix
  names : s'.nameTable = s.nameTable
  values : Keyed.Akin W s.valueTable s'.valueTable
  nameCount : s'.nameCount = s.nameCount
  valueCount : s'.valueCount = s.valueCount

namespace Scope.Akin

variable {W : WireValue → WireValue → Prop} {s s' : Scope}

theorem of_self (hW : ∀ w, W w w) (s : Scope) : s.Akin W s :=
  ⟨rfl, rfl, rfl, .of_self hW _, rfl, rfl⟩

theorem nameToken (h : s.Akin W s') (i : Nat) : s'.nameToken i = s.nameToken i := by
  rw [Scope.nameToken, Scope.nameToken, h.namePrefix]

theorem valueToken (h : s.Akin W s') (i : Nat) : s'.valueToken i = s.valueToken i := by
  rw [Scope.valueToken, Scope.valueToken, h.valuePrefix]

theorem attribute? (h : s.Akin W s') (token : String) :
    s'.attribute? token = s.attribute? token := by
  rw [Scope.attribute?, Scope.attribute?, h.names]

theorem contains (h : s.Akin W s') (token : String) : s'.contains token = s.contains token := by
  have hvalue : (s'.value? token).isSome = (s.value? token).isSome := by
    have hfind := h.values.find? token
    rw [Scope.value?, Scope.value?]
    generalize Keyed.find? token s.valueTable = x, Keyed.find? token s'.valueTable = x' at hfind
    cases hfind <;> rfl
  unfold Scope.contains
  rw [h.attribute?, hvalue]

theorem enter (h : s.Akin W s') (names : List (String × String))
    {values values' : List (String × WireValue)} (hv : Keyed.Akin W values values') :
    (s.enter names values).Akin W (s'.enter names values') where
  namePrefix := h.namePrefix
  valuePrefix := h.valuePrefix
  names := congrArg (Keyed.extend · names) h.names
  values := h.values.extend hv
  nameCount := congrArg (· + names.length) h.nameCount
  valueCount := congrArg₂ (· + ·) h.valueCount hv.length_eq.symm

/-- What is bound to a placeholder at once. -/
theorem mintValue (h : s.Akin W s') {w w' : WireValue} (hw : W w w')
    (hempty : w'.findEmpty = w.findEmpty) :
    Effect.Akin Eq (Scope.Akin W) (Scope.mintValue w s) (Scope.mintValue w' s') := by
  rw [Scope.mintValue_eq, Scope.mintValue_eq, hempty, h.valueCount, h.valueToken]
  cases w.findEmpty with
  | some e => exact .error _ h
  | none => exact .ok rfl (h.enter [] (.cons ⟨rfl, hw⟩ .nil))

end Scope.Akin

/-! ## Drafts -/

/-- The same placeholders; the wire values of the scope are akin, and so are the bindings. -/
structure Draft.Akin (W : WireValue → WireValue → Prop) (B : Binding → Binding → Prop)
    (d d' : Draft) : Prop where
  scope : d.scope.Akin W d'.scope
  names : d'.names = d.names
  bindings : Keyed.Akin B d.bindings d'.bindings

namespace Draft.Akin

variable {W : WireValue → WireValue → Prop} {B : Binding → Binding → Prop} {d d' : Draft}

theorem on {s s' : Scope} (h : s.Akin W s') : (Draft.on s).Akin W B (.on s') := ⟨h, rfl, .nil⟩

theorem nextName (h : d.Akin W B d') : d'.nextName = d.nextName := by
  rw [Draft.nextName, Draft.nextName, h.scope.nameToken, h.scope.nameCount, h.names]

theorem nextValue (h : d.Akin W B d') : d'.nextValue = d.nextValue := by
  rw [Draft.nextValue, Draft.nextValue, h.scope.valueToken, h.scope.valueCount,
    h.bindings.length_eq]

theorem contains (h : d.Akin W B d') (token : String) : d'.contains token = d.contains token := by
  have hany (bs : List (String × Binding)) :
      bs.any (·.1 == token) = (bs.map Prod.fst).any (· == token) := by
    rw [List.any_map]
    rfl
  rw [Draft.contains, Draft.contains, hany, hany, h.scope.contains, h.names, h.bindings.keys]

theorem attribute? (h : d.Akin W B d') (token : String) :
    d'.attribute? token = d.attribute? token := by
  rw [Draft.attribute?, Draft.attribute?, h.scope.attribute?, h.names]

theorem name (h : d.Akin W B d') (a : String) :
    Draft.Akin W B { d with names := d.names ++ [(d.nextName, a)] }
      { d' with names := d'.names ++ [(d'.nextName, a)] } :=
  ⟨h.scope, by rw [h.names, h.nextName], h.bindings⟩

theorem value (h : d.Akin W B d') {b b' : Binding} (hb : B b b') :
    Draft.Akin W B { d with bindings := d.bindings ++ [(d.nextValue, b)] }
      { d' with bindings := d'.bindings ++ [(d'.nextValue, b')] } :=
  ⟨h.scope, h.names, List.rel_append h.bindings (.cons ⟨h.nextValue, hb⟩ .nil)⟩

end Draft.Akin

/-! ## Batches -/

/-- Calls that take the same course, and whose answers are akin. -/
structure Task.Akin (R : Bytes → Bytes → Prop) (t t' : Task) : Prop where
  course : t'.course = t.course
  answer : ∀ cancelled, Except.Akin R (t.answer cancelled) (t'.answer cancelled)

namespace Batch

variable {R : Bytes → Bytes → Prop} {slot slot' : Slot} {slots slots' : List Slot}

/-- The same has become of two calls. -/
inductive Slot.Akin (R : Bytes → Bytes → Prop) : Slot → Slot → Prop where
  | waiting {t t' : Task} (h : t.Akin R t') : Akin R (.waiting t) (.waiting t')
  | finished {b b' : Bytes} (h : R b b') : Akin R (.finished b) (.finished b')
  | failed (fault : HookFault) : Akin R (.failed fault) (.failed fault)

theorem Slot.Akin.ofAnswer {x x' : Except HookFault Bytes} (h : Except.Akin R x x') :
    Slot.Akin R (.ofAnswer x) (.ofAnswer x') := by
  cases h with
  | ok hb => exact .finished hb
  | error fault => exact .failed fault

/-- Rounds, or parts of them, after which the same has become of all calls. -/
def PlayedAkin (R : Bytes → Bytes → Prop) (p p' : Bool × List Slot) : Prop :=
  p'.1 = p.1 ∧ List.Forall₂ (Slot.Akin R) p.2 p'.2

theorem Slot.Akin.turn (h : slot.Akin R slot') (round : Nat) (c : Bool) :
    (slot'.turn round c).1 = (slot.turn round c).1 ∧
      (slot.turn round c).2.Akin R (slot'.turn round c).2 := by
  cases h with
  | @waiting t t' h =>
    simp only [Slot.turn, h.course]
    split
    · exact ⟨rfl, .waiting h⟩
    · split
      · exact ⟨rfl, .waiting h⟩
      · exact ⟨rfl, .ofAnswer (h.answer c)⟩
  | finished hb => exact ⟨rfl, .finished hb⟩
  | failed fault => exact ⟨rfl, .failed fault⟩

theorem playForwards_akin (h : List.Forall₂ (Slot.Akin R) slots slots') (round : Nat) (c : Bool) :
    PlayedAkin R (playForwards round c slots) (playForwards round c slots') := by
  induction h generalizing c with
  | nil => exact ⟨rfl, .nil⟩
  | @cons slot _ _ _ hs _ ih =>
    obtain ⟨hc, hslot⟩ := hs.turn round c
    have hrest := ih (slot.turn round c).1
    simp only [playForwards, hc]
    exact ⟨hrest.1, .cons hslot hrest.2⟩

theorem playRound_akin (h : List.Forall₂ (Slot.Akin R) slots slots') (large : Bool)
    (round : Nat) : PlayedAkin R (playRound large round slots) (playRound large round slots') := by
  unfold playRound
  split
  · obtain ⟨hc, hslots⟩ := playForwards_akin (List.forall₂_reverse_iff.mpr h) round false
    exact ⟨hc, List.forall₂_reverse_iff.mpr hslots⟩
  · exact playForwards_akin h round false

theorem failure?_akin (h : List.Forall₂ (Slot.Akin R) slots slots') (large : Bool)
    (place : Nat) : failure? large place slots' = failure? large place slots := by
  induction h generalizing place with
  | nil => rfl
  | cons hs _ ih =>
    cases hs with
    | waiting => simp only [failure?, ih]
    | finished => exact ih _
    | failed => rfl

theorem collect?_akin (h : List.Forall₂ (Slot.Akin R) slots slots') :
    Option.Rel (List.Forall₂ R) (collect? slots) (collect? slots') := by
  induction h with
  | nil => exact .some .nil
  | @cons _ _ slots slots' hs _ ih =>
    cases hs with
    | waiting => exact .none
    | failed => exact .none
    | finished hb =>
      rw [collect?, collect?]
      cases hslots : collect? slots <;> cases hslots' : collect? slots' <;>
        rw [hslots, hslots'] at ih
      · exact .none
      · cases ih
      · cases ih
      · exact .some (.cons hb (Option.rel_some_some.mp ih))

theorem playFrom_akin (large : Bool) (left : Nat) (h : List.Forall₂ (Slot.Akin R) slots slots')
    (round : Nat) (c : Bool) : Except.Akin (List.Forall₂ R) (playFrom large round c slots left)
      (playFrom large round c slots' left) := by
  induction left generalizing round c slots slots' with
  | zero => exact .error _
  | succ left ih =>
    rw [playFrom, playFrom]
    split
    · exact .error _
    · obtain ⟨hc, hslots⟩ := playRound_akin h large round
      have hcollect := collect?_akin hslots
      simp only [failure?_akin hslots large 0, hc]
      cases failure? large 0 (playRound large round slots).2 with
      | some fault => exact .error _
      | none =>
        generalize collect? (playRound large round slots).2 = x,
          collect? (playRound large round slots').2 = x' at hcollect
        cases hcollect with
        | none => exact ih hslots _ _
        | some houtputs => exact .ok houtputs

/-- **Calls whose answers are akin make batches that end alike.** -/
theorem run_akin {tasks tasks' : List Task} (h : List.Forall₂ (Task.Akin R) tasks tasks')
    (c : Bool) : Except.Akin (List.Forall₂ R) (run c tasks) (run c tasks') := by
  have hdelays : (tasks'.map fun t => t.course.delay) = tasks.map fun t => t.course.delay := by
    induction h with
    | nil => rfl
    | cons ht _ ih => rw [List.map_cons, List.map_cons, ht.course, ih]
  have hslots : List.Forall₂ (Slot.Akin R) (tasks.map .waiting) (tasks'.map .waiting) :=
    List.rel_map (fun _ _ ht => .waiting ht) h
  rw [run, run, longestDelay, longestDelay, hdelays, h.length_eq]
  exact playFrom_akin _ _ hslots _ _

end Batch

/-! ## Bindings -/

variable {W : WireValue → WireValue → Prop}

/-- Binaries that are akin, by their bytes. -/
def WireValue.SealsAkin (W : WireValue → WireValue → Prop) (b b' : Bytes) : Prop :=
  W (.binary b) (.binary b')

/-- Calls of one hook for one field that are akin. -/
structure Deferred.Akin (W : WireValue → WireValue → Prop) (d d' : Deferred) : Prop where
  hook : d'.hook = d.hook
  field : d'.field = d.field
  task : d.task.Akin (WireValue.SealsAkin W) d'.task

/-- Wire values that are akin, or calls that will answer with such. -/
inductive Binding.Akin (W : WireValue → WireValue → Prop) : Binding → Binding → Prop where
  | ready {w w' : WireValue} (h : W w w') : Akin W (.ready w) (.ready w')
  | deferred {d d' : Deferred} (h : d.Akin W d') : Akin W (.deferred d) (.deferred d')

theorem Binding.Akin.now {b b' : Binding} (h : b.Akin W b') : Except.Akin W b.now b'.now := by
  cases h with
  | ready hw => exact .ok hw
  | deferred hd =>
    rw [Binding.now, Binding.now, hd.hook, hd.field]
    exact .error _

namespace Draft

variable {bindings bindings' : List (String × Binding)}

theorem deferred_akin (h : Keyed.Akin (Binding.Akin W) bindings bindings') :
    List.Forall₂ (Deferred.Akin W) (deferred bindings) (deferred bindings') := by
  induction h with
  | nil => exact .nil
  | @cons e e' bs bs' he _ ih =>
    obtain ⟨token, b⟩ := e
    obtain ⟨token', b'⟩ := e'
    cases he.2 with
    | ready => exact ih
    | deferred hd => exact .cons hd ih

theorem fill_akin (h : Keyed.Akin (Binding.Akin W) bindings bindings')
    {outputs outputs' : List Bytes} (ho : List.Forall₂ (WireValue.SealsAkin W) outputs outputs') :
    Keyed.Akin W (fill bindings outputs) (fill bindings' outputs') := by
  induction h generalizing outputs outputs' with
  | nil => exact .nil
  | @cons e e' bs bs' he _ ih =>
    obtain ⟨token, b⟩ := e
    obtain ⟨token', b'⟩ := e'
    obtain ⟨rfl, hb⟩ := he
    cases hb with
    | ready hw => exact .cons ⟨rfl, hw⟩ (ih ho)
    | deferred =>
      cases ho with
      | nil => exact ih .nil
      | cons hbytes ho => exact .cons ⟨rfl, hbytes⟩ (ih ho)

theorem batchError_akin {calls calls' : List Deferred}
    (h : List.Forall₂ (Deferred.Akin W) calls calls') (fault : Batch.Fault) :
    batchError calls' fault = batchError calls fault := by
  cases fault with
  | cancelled => rfl
  | failed place fault =>
    have hfield : calls'[place]?.map Deferred.field = calls[place]?.map Deferred.field := by
      induction h generalizing place with
      | nil => rfl
      | cons hd _ ih =>
        cases place with
        | zero => exact congrArg some hd.field
        | succ place => exact ih place
    have herror (calls : List Deferred) : batchError calls (.failed place fault)
        = (calls[place]?.map Deferred.field).elim .cancelled (.hookFailed · fault) := by
      rw [batchError]
      cases calls[place]? <;> rfl
    rw [herror, herror, hfield]

theorem resolveNow_akin (h : Keyed.Akin (Binding.Akin W) bindings bindings') :
    Except.Akin (Keyed.Akin W) (resolveNow bindings) (resolveNow bindings') := by
  induction h with
  | nil => exact .ok .nil
  | @cons e e' bs bs' he _ ih =>
    obtain ⟨token, b⟩ := e
    obtain ⟨token', b'⟩ := e'
    obtain ⟨rfl, hb⟩ := he
    exact hb.now.bind fun _ _ hw => ih.bind fun _ _ hvs => .ok (.cons ⟨rfl, hw⟩ hvs)

theorem resolve_akin (mode : Mode) (h : Keyed.Akin (Binding.Akin W) bindings bindings') :
    Except.Akin (Keyed.Akin W) (resolve mode bindings) (resolve mode bindings') := by
  cases mode with
  | sync => exact resolveNow_akin h
  | async cancelled =>
    cases cancelled with
    | true => exact .error _
    | false =>
      have hcalls := deferred_akin h
      have htasks : List.Forall₂ (Task.Akin (WireValue.SealsAkin W))
          ((deferred bindings).map Deferred.task) ((deferred bindings').map Deferred.task) :=
        List.rel_map (R := Deferred.Akin W) (fun _ _ hd => hd.task) hcalls
      have hrun := Batch.run_akin htasks false
      rw [resolve_async, resolve_async]
      generalize Batch.run false ((deferred bindings).map Deferred.task) = x,
        Batch.run false ((deferred bindings').map Deferred.task) = x' at hrun
      cases hrun with
      | ok ho => exact .ok (fill_akin h ho)
      | error fault =>
        dsimp only
        rw [batchError_akin hcalls]
        exact .error _

end Draft

/-! ## Clauses -/

/-- The same text, and the same placeholders for what is akin. -/
structure Clause.Akin (W : WireValue → WireValue → Prop) (c c' : Clause) : Prop where
  expression : c'.expression = c.expression
  names : c'.names = c.names
  values : Keyed.Akin W c.values c'.values

/-- A step that does the same to drafts that are akin. -/
def Drafting.Akin (W : WireValue → WireValue → Prop) {α : Type} (x x' : Drafting α) : Prop :=
  ∀ ⦃d d'⦄, d.Akin W (Binding.Akin W) d' →
    Except.Akin (fun r r' => r'.1 = r.1 ∧ r.2.Akin W (Binding.Akin W) r'.2) (x d) (x' d')

namespace Drafting.Akin

/-- A step that leaves the draft as it is, and looks at nothing that differs. -/
theorem of_eq {x x' : Drafting α} (r : Except ClauseError α) (h : ∀ d, x d = r.map (·, d))
    (h' : ∀ d, x' d = r.map (·, d)) : Drafting.Akin W x x' := by
  intro d d' hd
  rw [h, h']
  cases r with
  | ok a => exact .ok ⟨rfl, hd⟩
  | error e => exact .error e

theorem compatible : Compatible fun _ x x' => Drafting.Akin W x x' where
  pure a := of_eq (.ok a) (fun _ => rfl) fun _ => rfl
  throw e := of_eq (.error e) (fun _ => rfl) fun _ => rfl
  lift x := of_eq x (fun _ => by cases x <;> rfl) fun _ => by cases x <;> rfl
  bind hx hf d d' hd := (hx hd).bind fun r r' hr => by
    obtain ⟨a, d⟩ := r
    obtain ⟨a', d'⟩ := r'
    obtain ⟨rfl, hd⟩ := hr
    exact hf _ hd
  bindName a d d' hd := by
    rw [Draft.bindName, Draft.bindName]
    exact .ok ⟨hd.nextName, hd.name a⟩
  reuse token d d' hd := by
    rw [Draft.reuse, Draft.reuse, hd.contains]
    split
    · exact .ok ⟨rfl, hd⟩
    · exact .error _
  lookUp token f f' hf d d' hd := by
    change Except.Akin _ (f (d.attribute? token) d) (f' (d'.attribute? token) d')
    rw [hd.attribute?]
    exact hf _ hd

/-- Values are bound alike if they come to what is akin, whatever has been bound before. -/
theorem value {b b' : Binder} {v : Value} {p : Property}
    (h : ∀ n, Except.Akin (Binding.Akin W) (b.binding n v p) (b'.binding n v p)) :
    Drafting.Akin W (b.value v p) (b'.value v p) := by
  intro d d' hd
  rw [Binder.value_apply, Binder.value_apply, ← hd.bindings.length_eq]
  exact (h _).bind fun _ _ hb => .ok ⟨hd.nextValue, hd.value hb⟩

end Drafting.Akin

namespace Draft

/-- **What is made alike is completed alike.** -/
theorem complete_akin (mode : Mode) {make make' : Drafting (List Char)}
    (hm : Drafting.Akin W make make') {s s' : Scope} (h : s.Akin W s') :
    Effect.Akin (Clause.Akin W) (Scope.Akin W) (complete mode make s) (complete mode make' s') := by
  have hmade := hm (.on h)
  cases hx : make (.on s) with
  | error e =>
    rw [hx] at hmade
    cases hx' : make' (.on s') <;> rw [hx'] at hmade <;> cases hmade
    rw [complete_unmade hx, complete_unmade hx']
    exact .error e h
  | ok r =>
    rw [hx] at hmade
    cases hx' : make' (.on s') with
    | error e => rw [hx'] at hmade; cases hmade
    | ok r' =>
      rw [hx'] at hmade
      obtain ⟨expression, d⟩ := r
      obtain ⟨expression', d'⟩ := r'
      cases hmade with | ok hr =>
      obtain ⟨rfl, hd⟩ := hr
      have hresolved := resolve_akin mode hd.bindings
      rw [complete_made hx, complete_made hx']
      generalize resolve mode d.bindings = y, resolve mode d'.bindings = y' at hresolved
      cases hresolved with
      | error e => exact .error e h
      | ok hvalues =>
        dsimp only
        rw [hd.names]
        exact .ok ⟨rfl, rfl, hvalues⟩ (h.enter _ hvalues)

end Draft

end Clauses
