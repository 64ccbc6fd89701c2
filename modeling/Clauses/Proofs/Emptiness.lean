import Clauses.Proofs.Conjunction
import Clauses.Proofs.Provenance
import Clauses.Proofs.Encoding

/-!
# No empty collections

A request must not bind an empty set, list or map, however deep it is in a value. A scope is not
protected against that: the values of a clause are entered as they are. What is entered is looked at
before, in one of two places.

* A wire value that is minted on its own may be any. It is looked through, and refused if a
  collection in it is empty.
* A value that the codec has written has been checked collection by collection while it was written.
  Where it is sealed, what is bound is a binary.

* `Scope.Reachable` — the scopes that there can be
* `Codec.boundAs_filled` — what the codec has made of a value has no empty collection
* `Scope.no_empty_collection_bound` — so no scope and no request has one
-/

namespace Clauses

/-! ## Values that are written -/

namespace Value

theorem IsPlain.filled {w : WireValue} (h : IsPlain w) : w.Filled := by
  refine WireValue.findEmpty_eq_none_iff.mp ?_
  cases h <;> rfl

variable {dates format : Option String}

mutual

/-- What a value is written to holds no empty collection, however deep. -/
theorem encode_filled : ∀ (v : Value) {field : String} {w : WireValue},
    v.encode dates field format = .ok w → w.Filled
  | .null, _, _, h | .bool _, _, _, h | .text _, _, _, h | .binary _, _, _, h => by
    cases h
    exact WireValue.findEmpty_eq_none_iff.mp rfl
  | .integer n, _, _, h => (writeNumber_isPlain (invalidIn_ok.mp h)).filled
  | .decimal d, _, _, h => (writeNumber_isPlain (invalidIn_ok.mp h)).filled
  | .float x, _, _, h => (writeFloat_isPlain (invalidIn_ok.mp h)).filled
  | .timestamp t, _, _, h => (writeInstant_isPlain (invalidIn_ok.mp h)).filled
  | .date d, _, _, h => (writeDate_isPlain (invalidIn_ok.mp h)).filled
  | .textSet members, _, _, h | .numberSet members, _, _, h | .binarySet members, _, _, h => by
    obtain ⟨rfl, hne⟩ := nonempty_ok h
    exact WireValue.findEmpty_eq_none_iff.mp (if_neg (ne_true_of_eq_false hne))
  | .list items, _, _, h => by
    obtain ⟨ws, hws, h⟩ := Except.bind_ok.mp h
    obtain ⟨rfl, hne⟩ := nonempty_ok h
    exact WireValue.filled_list_iff.mpr
      ⟨List.isEmpty_eq_false_iff.mp hne, encodeItems_filled items hws⟩
  | .map entries, _, _, h => by
    obtain ⟨ws, hws, h⟩ := Except.bind_ok.mp h
    obtain ⟨rfl, hne⟩ := nonempty_ok h
    exact WireValue.filled_map_iff.mpr
      ⟨List.isEmpty_eq_false_iff.mp hne, encodeEntries_filled entries hws⟩

/-- Neither do the items of a list. -/
theorem encodeItems_filled : ∀ (items : List Value) {field : String} {i : Nat}
    {ws : List WireValue},
    encodeItems dates field format i items = .ok ws → ∀ w ∈ ws, w.Filled
  | [], _, _, _, h => by
    cases h
    exact fun _ hw => absurd hw List.not_mem_nil
  | v :: rest, _, _, _, h => by
    obtain ⟨w, hw, h⟩ := Except.bind_ok.mp h
    obtain ⟨ws, hws, ⟨⟩⟩ := Except.bind_ok.mp h
    exact List.forall_mem_cons.mpr ⟨encode_filled v hw, encodeItems_filled rest hws⟩

/-- Neither does what is behind the keys of a map. -/
theorem encodeEntries_filled : ∀ (entries : List (String × Value)) {field : String}
    {ws : List (String × WireValue)},
    encodeEntries dates field format entries = .ok ws → ∀ e ∈ ws, e.2.Filled
  | [], _, _, h => by
    cases h
    exact fun _ he => absurd he List.not_mem_nil
  | (k, v) :: rest, _, _, h => by
    obtain ⟨w, hw, h⟩ := Except.bind_ok.mp h
    obtain ⟨ws, hws, ⟨⟩⟩ := Except.bind_ok.mp h
    exact List.forall_mem_cons.mpr ⟨encode_filled v hw, encodeEntries_filled rest hws⟩

end

end Value

namespace Codec

variable {codec : Codec} {entity : Option String} {v : Value} {p : Property} {w : WireValue}

theorem binary_filled (bytes : Bytes) : (WireValue.binary bytes).Filled :=
  WireValue.findEmpty_eq_none_iff.mp rfl

/-- Whatever a binding comes to is filled: it is written so, or it is sealed. -/
theorem bind_filled {cancelled : Bool} {b : Binding} (h : codec.bind entity cancelled v p = .ok b)
    (hw : b.Settles w) : w.Filled := by
  obtain ⟨plain, hplain, ⟨-, rfl⟩ | ⟨id, hook, -, -, hs⟩⟩ := bind_ok_iff.mp h
  · cases hw
    exact v.encode_filled hplain
  · cases hs with
    | now => cases hw; exact binary_filled _
    | later => cases hw; exact binary_filled _

/-- So is what a value comes to that is bound at once. -/
theorem toWire_filled (h : codec.toWire v p = .ok w) : w.Filled :=
  bind_filled (toWire_ok_iff.mp h) (.ready w)

theorem boundAs_filled {bound : BoundValue × Nat} (h : codec.BoundAs entity bound w) :
    w.Filled := by
  obtain ⟨binding, hb, hw⟩ := h
  exact bind_filled hb hw

theorem allBoundAs_filled {bound : List (BoundValue × Nat)} {values : List (String × WireValue)}
    (h : List.Forall₂ (fun v t => codec.BoundAs entity v t.2) bound values) :
    ∀ e ∈ values, e.2.Filled := by
  induction h with
  | nil => exact fun _ he => absurd he List.not_mem_nil
  | cons hv _ ih => exact List.forall_mem_cons.mpr ⟨boundAs_filled hv, ih⟩

end Codec

/-! ## Scopes -/

namespace Scope

/-- A wire value is minted if, and only if, no collection in it is empty. -/
theorem mintValue_ok_iff {w : WireValue} {s s' : Scope} {token : String} :
    mintValue w s = .ok token s' ↔
      w.Filled ∧ token = s.valueToken s.valueCount ∧ s' = s.enter [] [(token, w)] := by
  constructor
  · intro h
    refine ⟨?_, mintValue_ok h⟩
    rw [mintValue_eq] at h
    split at h
    · cases h
    · next hw => exact WireValue.findEmpty_eq_none_iff.mp hw
  · rintro ⟨hw, rfl, rfl⟩
    rw [mintValue_eq, WireValue.findEmpty_eq_none_iff.mpr hw]

/-- No value of the scope has an empty collection. -/
def AllFilled (s : Scope) : Prop := ∀ e ∈ s.valueTable, e.2.Filled

/--
The scope has come about by steps on a new one, of any compilers, whether they have failed or not.
-/
inductive Reachable : Scope → Prop where
  | new (config : Config) : Reachable (.ofConfig config)
  | step {s : Scope} (h : Reachable s) (c : Compiler) (step : Step) : Reachable (c.advance s step).2

theorem AllFilled.ofConfig (config : Config) : (Scope.ofConfig config).AllFilled :=
  fun _ he => absurd he List.not_mem_nil

theorem AllFilled.enter {s : Scope} {names : List (String × String)}
    {values : List (String × WireValue)}
    (h : s.AllFilled) (hvalues : ∀ e ∈ values, e.2.Filled) : (s.enter names values).AllFilled :=
  fun e he => (Keyed.mem_extend he).elim (h e) (hvalues e)

end Scope

namespace Compiler

variable {c : Compiler} {s s' : Scope}

theorem values_filled {mode : Mode} {source : Source} {clause : Clause}
    (h : c.translate mode source s = .ok clause s') : ∀ e ∈ clause.values, e.2.Filled := by
  obtain ⟨bound, -, hbound⟩ := translate_binds h
  exact Codec.allBoundAs_filled hbound

/-- What a step enters is filled, each kind of step in its own way. -/
theorem step_enters_filled {step : Step} {outcome : Outcome} (h : c.step step s = .ok outcome s') :
    ∃ names values, s' = s.enter names values ∧ ∀ e ∈ values, e.2.Filled := by
  obtain ⟨names, values, hr, -, hs'⟩ := step_ok h
  refine ⟨names, values, hs', ?_⟩
  cases hr with
  | clause mode source clause =>
    obtain ⟨clause', ht, ⟨⟩⟩ := Effect.map_ok.mp h
    exact values_filled ht
  | bind token hw => exact List.forall_mem_singleton.mpr (Codec.toWire_filled hw)
  | mintName a token => exact fun _ he => absurd he List.not_mem_nil
  | mintValue w token =>
    obtain ⟨token', hm, -⟩ := Effect.map_ok.mp h
    exact List.forall_mem_singleton.mpr (Scope.mintValue_ok_iff.mp hm).1

/-- One step, whether it fails or not, leaves all values filled. -/
theorem advance_allFilled (c : Compiler) (hs : s.AllFilled) (step : Step) :
    (c.advance s step).2.AllFilled := by
  rcases ha : c.advance s step with ⟨answer, s'⟩
  cases answer with
  | error e =>
    rw [advance_of_error ha]
    exact hs
  | ok outcome =>
    obtain ⟨names, values, rfl, hvalues⟩ := step_enters_filled (advance_ok ha)
    exact hs.enter hvalues

end Compiler

namespace Scope

/-- So do all steps. -/
theorem Reachable.allFilled {s : Scope} (h : s.Reachable) : s.AllFilled := by
  induction h with
  | new config => exact .ofConfig config
  | step _ c step ih => exact c.advance_allFilled ih step

theorem Reachable.run {s : Scope} (h : s.Reachable) (config : Config)
    (occasions : List (Occasion Step)) : (Compiler.run config s occasions).2.Reachable := by
  induction occasions generalizing s with
  | nil => exact h
  | cons o occasions ih => exact ih (h.step ⟨config, o.hooks⟩ o.step)

end Scope

/-! ## Requests -/

namespace RequestBuilder

theorem advance_reachable {r : RequestBuilder} (h : r.scope.Reachable) (c : Compiler)
    (step : RequestStep) : (r.advance c step).2.scope.Reachable := by
  rcases ha : r.advance c step with ⟨answer, r'⟩
  cases answer with
  | error e =>
    rw [advance_of_error ha]
    exact h
  | ok answer =>
    obtain ⟨step', outcome, ho⟩ := exists_step ha
    have hscope : (c.advance r.scope step').2 = r'.scope := by
      rw [Compiler.advance, ho]
    change r'.scope.Reachable
    rw [← hscope]
    exact h.step c step'

/-- A request is built on a scope like any other. -/
theorem run_reachable (config : Config) (occasions : List (Occasion RequestStep)) :
    ∀ {r : RequestBuilder}, r.scope.Reachable → (r.run config occasions).2.scope.Reachable := by
  induction occasions with
  | nil => exact id
  | cons o occasions ih => exact fun h => ih (advance_reachable h ⟨config, o.hooks⟩ o.step)

end RequestBuilder

/-! ## All of it -/

namespace Scope

/--
**No empty collection reaches a request.** Whatever has been done to a scope, with any
compilers, hooks and hand-made wire values, and whatever of it has failed: no value in it has an
empty set, list or map at any depth. The same holds of each request that is built on such a
scope. The minting of wire values does not get in the way of the codec: whatever the codec has
made of a value is minted.
-/
theorem no_empty_collection_bound :
    (∀ s : Scope, s.Reachable → ∀ e ∈ s.valueTable, e.2.Filled) ∧
      (∀ (r : RequestBuilder) (config : Config) (occasions : List (Occasion RequestStep)),
        r.scope.Reachable → ∀ e ∈ (r.run config occasions).2.build.values, e.2.Filled) ∧
      (∀ (codec : Codec) (v : Value) (p : Property) (w : WireValue), codec.toWire v p = .ok w →
        ∀ s, ∃ s', mintValue w s = .ok (s.valueToken s.valueCount) s') ∧
      ∀ (codec : Codec) (entity : Option String) (v : BoundValue × Nat) (w : WireValue),
        codec.BoundAs entity v w → ∀ s, ∃ s',
        mintValue w s = .ok (s.valueToken s.valueCount) s' := by
  have hmint {w : WireValue} (hw : w.Filled) (s : Scope) :
      ∃ s', mintValue w s = .ok (s.valueToken s.valueCount) s' :=
    ⟨_, mintValue_ok_iff.mpr ⟨hw, rfl, rfl⟩⟩
  refine ⟨fun s hs => hs.allFilled, fun r config occasions hr => ?_, fun codec v p w hw => ?_,
    fun codec entity v w hw => ?_⟩
  · exact (RequestBuilder.run_reachable config occasions hr).allFilled
  · exact hmint (Codec.toWire_filled hw)
  · exact hmint (Codec.boundAs_filled hw)

/-- A larder, what is in its drawer written as it is by a hook that takes its time. -/
def larderSchema : Schema :=
  ⟨"Larder", [("Drawer", ⟨"Drawer", "drawer", none, some "slow"⟩), ("Shelf", .plain "shelf")]⟩

/-- A hook that takes its time and changes nothing. -/
def slowHooks : HookRegistry :=
  HookRegistry.empty.insert "slow"
    (.async ⟨fun _ bytes => .ok bytes, fun _ bytes => .ok bytes⟩ fun _ _ => ⟨2, false⟩)

/-- Wire values made by hand, and two clauses; in one of each there is an empty set. -/
def larderSteps : List (Occasion Step) :=
  [⟨slowHooks, .mintValue (.map [("left", .list [.text "salt"]), ("right", .textSet [])])⟩,
    ⟨slowHooks, .mintValue (.map [("left", .list [.text "salt"])])⟩,
    ⟨slowHooks, .clause .sync (.predicate .filter larderSchema
      (.compare (.property "Shelf") .equal [.value (.list [.textSet []])]))⟩,
    ⟨slowHooks, .clause (.async false) (.update larderSchema
      [.set "Drawer" (.operand (.value (.text "oil"))),
        .set "Shelf" (.operand (.value (.list [.textSet ["oil", "oil"]])))])⟩]

theorem larder_filled :
    let c : Compiler := ⟨.standard, slowHooks⟩
    let s := (Compiler.run c.config c.scope larderSteps).2
    let jars : Occasion RequestStep := ⟨slowHooks, .bind (.integer 7) (.plain "jars")⟩
    s.valueTable = [(":p0", .map [("left", .list [.text "salt"])]),
        (":p1", .binary (Text.toBytes "\x7b\"S\":\"oil\"\x7d")),
        (":p2", .list [.textSet ["oil"]])] ∧
      (∀ e ∈ s.valueTable, e.2.Filled) ∧
      (∀ e ∈ ((RequestBuilder.mk s .none).run c.config [jars]).2.build.values, e.2.Filled) ∧
      ∃ s', mintValue (.list [.number "7"]) s = .ok ":p3" s' := by
  intro c s jars
  have hs : s.Reachable := (Reachable.new c.config).run c.config larderSteps
  obtain ⟨hscope, hrequest, hwritten, -⟩ := no_empty_collection_bound
  refine ⟨by decide +kernel, hscope s hs, hrequest ⟨s, .none⟩ c.config _ hs, ?_⟩
  have hw : c.codec.toWire (.list [.integer 7]) (.plain "jars")
    = .ok (.list [.number "7"]) := by decide +kernel
  have htoken : s.valueToken s.valueCount = ":p3" := by decide +kernel
  exact htoken ▸ hwritten c.codec _ _ _ hw s

end Scope

end Clauses
