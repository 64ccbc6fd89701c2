import Clauses.Proofs.Emptiness
import Clauses.Proofs.Sealing

/-!
# Values that are bound beforehand

A value can be bound before the clauses that compare a property with it, and its placeholder be used
in all of them. Such a clause means what it would mean if the value stood in it. Two ways lead to a
binding for that: a value that is bound on its own goes through the codec and is looked through for
empty collections; a value in a clause is bound in the draft of the clause.

* What the codec has written holds no empty collection, so there is nothing to be found.
* A hook is told the entity for a value in a clause, but not for one that is bound beforehand. It
  has to seal both alike.
* A map may come in one order for the one and in another for the other. Then the value is
  sealed from two texts.

* `Compiler.comparison_translated_iff` — all that is behind a clause of one comparison
* `Compiler.reuse_means_inline` — a placeholder that is used again means its value
-/

namespace Clauses

/-! ## Bindings -/

/--
The property has no hook that tells the entity from none: a hook of the property is called at once,
and seals each value for the entity as it seals it for none.
-/
def HookRegistry.SealsAlike (hooks : HookRegistry) (entity : String) (p : Property) : Prop :=
  ∀ id hook, p.hook = some id → hooks.get? id = some hook → hook.isSync = true ∧
    ∀ bytes, hook.hook.transform ⟨p.wireName, some entity, false⟩ bytes
      = hook.hook.transform ⟨p.wireName, none, false⟩ bytes

namespace Codec

variable {codec : Codec} {entity : Option String} {v : Value} {p : Property} {b : Binding}
  {w : WireValue}

/-- Where hooks seal alike, a value is bound for the entity as it is bound for none, and at once. -/
theorem bind_entity_iff {entity : String} (hh : codec.hooks.SealsAlike entity p) :
    codec.bind (some entity) false v p = .ok b ↔
      ∃ w, b = .ready w ∧ codec.bind none false v p = .ok (.ready w) := by
  simp only [bind_ok_iff]
  constructor
  · rintro ⟨plain, hplain, ⟨hp, rfl⟩ | ⟨id, hook, hp, hid, hs⟩⟩
    · exact ⟨plain, rfl, plain, hplain, .inl ⟨hp, rfl⟩⟩
    · obtain ⟨hsync, hsame⟩ := hh id hook hp hid
      cases hs with
      | later => cases hsync
      | now ho =>
        exact ⟨_, rfl, plain, hplain, .inr ⟨id, _, hp, hid, .now ((hsame _).symm.trans ho)⟩⟩
  · rintro ⟨w, rfl, plain, hplain, ⟨hp, hw⟩ | ⟨id, hook, hp, hid, hs⟩⟩
    · exact ⟨plain, hplain, .inl ⟨hp, hw⟩⟩
    · obtain ⟨-, hsame⟩ := hh id hook hp hid
      cases hs with
      | now ho => exact ⟨plain, hplain, .inr ⟨id, _, hp, hid, .now ((hsame _).trans ho)⟩⟩

variable {codec' : Codec} {w' : WireValue}

/-- A value that is bound twice from the same text is bound to the same. -/
theorem toWire_congr (h : codec.Reorders codec')
    (hw : codec'.hooks.writing 0 = codec.hooks.writing 0) :
    codec'.toWire v p = codec.toWire v p := by
  simp only [toWire, bind, HookRegistry.resolve, h.dateFormat, h.hooks.get?, hw]

/-- A value that is bound twice is bound to what has been made of it in two orders. -/
theorem toWire_reordered_of_ok (h : codec.Reorders codec') (hw : codec.toWire v p = .ok w)
    (hw' : codec'.toWire v p = .ok w') : w.Reordered codec.hooks.Knows w' := by
  obtain ⟨plain, hplain, hb⟩ := bind_ok_iff.mp (toWire_ok_iff.mp hw)
  obtain ⟨plain', hplain', hb'⟩ := bind_ok_iff.mp (toWire_ok_iff.mp hw')
  rw [h.dateFormat, hplain] at hplain'
  cases hplain'
  rcases hb with ⟨hp, ⟨⟩⟩ | ⟨id, hook, hp, hid, hs⟩
  · rcases hb' with ⟨-, ⟨⟩⟩ | ⟨id', hook', hp', -, -⟩
    · exact .same _
    · cases hp.symm.trans hp'
  · rcases hb' with ⟨hp', -⟩ | ⟨id', hook', hp', hid', hs'⟩
    · cases hp.symm.trans hp'
    · cases hp.symm.trans hp'
      cases hid.symm.trans ((h.hooks.get? id).symm.trans hid')
      cases hs with | now ho =>
      cases hs' with | now ho' =>
      exact .sealed ⟨id, _, hid, rfl⟩ ho ho'

end Codec

namespace Draft

/-- A binding that waits for nothing is resolved, unless the caller has given up. -/
theorem resolve_ready {mode : Mode} (hm : mode.isCancelled = false) (token : String)
    (w : WireValue) : resolve mode [(token, .ready w)] = .ok [(token, w)] := by
  cases mode with
  | sync => rfl
  | async cancelled =>
    cases hm
    rfl

/-- So is a clause without bindings. -/
theorem resolve_nil {mode : Mode} (hm : mode.isCancelled = false) : resolve mode [] = .ok [] := by
  cases mode with
  | sync => rfl
  | async cancelled =>
    cases hm
    rfl

end Draft

/-! ## Clauses of one comparison -/

/-- The comparison of a property with one operand. -/
def Source.comparison (kind : ClauseKind) (schema : Schema) (property : String) (op : Operator)
    (o : Operand) : Source :=
  .predicate kind schema (.compare (.property property) op [o])

/-- There are clauses of the kind in which a property is compared so with one operand. -/
def Operator.ComparesIn (op : Operator) (kind : ClauseKind) : Prop :=
  kind.isConjunctive = true ∧ (kind = .keyCondition → op.isForKeys = true) ∧ op.arity.Admits 1

/-- A comparison with one operand, on the wire. -/
def Condition.comparison (name : String) (op : Operator) (token : String) : Condition :=
  .compare (.attribute name) op [token]

theorem Predicate.checkComparison_ok_iff {kind : ClauseKind} {name : String} {op : Operator}
    {d d' : Draft} {u : Unit} :
    checkComparison kind (.property name) op d = .ok (u, d') ↔
      (kind = .keyCondition → op.isForKeys = true) ∧ d' = d := by
  unfold checkComparison
  by_cases hk : kind = .keyCondition
  · cases hop : op.isForKeys with
    | true => simp [hk, Drafting.pure_ok]
    | false =>
      rw [if_pos hk]
      exact ⟨fun h => absurd h Drafting.throw_ok, fun h => nomatch h.1 hk⟩
  · simp [hk, Drafting.pure_ok]

namespace Compiler

variable {c : Compiler} {mode : Mode} {kind : ClauseKind} {schema : Schema} {property : String}
  {p : Property} {op : Operator} {s s' : Scope} {clause : Clause} {v : Value}

/-- The draft of a comparison in front of its operand: there is a placeholder for the property. -/
def comparedDraft (s : Scope) (p : Property) : Draft :=
  ⟨s, [(s.nameToken s.nameCount, p.wireName)], []⟩

/-- All that is behind the making of a clause of one comparison. -/
theorem draft_comparison_iff (hp : schema.resolve property = .ok p) {b : Binder} {o : Operand}
    {expression : List Char} {d : Draft} :
    c.draft b (.comparison kind schema property op o) (.on s) = .ok (expression, d) ↔
      op.ComparesIn kind ∧ ∃ token, b.operand o p (comparedDraft s p) = .ok (token, d) ∧
        expression = (Condition.comparison (s.nameToken s.nameCount) op token).chars := by
  constructor
  · intro h
    obtain ⟨hkind, h₁⟩ := Drafting.refuse_ok h
    obtain ⟨condition, d₁, hcondition, h₂⟩ := Drafting.bind_ok.mp h₁
    obtain ⟨rfl, rfl⟩ := Drafting.pure_ok.mp h₂
    rw [Predicate.translate] at hcondition
    obtain ⟨_, d₂, hcheck, hcomparison⟩ := Drafting.bind_ok.mp hcondition
    obtain ⟨hkeys, rfl⟩ := Predicate.checkComparison_ok_iff.mp hcheck
    obtain ⟨harity, p', name, d₃, ts, hp', hname, hts, rfl⟩ := Predicate.comparison_ok hcomparison
    cases hp.symm.trans hp'
    cases hname
    rw [List.mapM_cons] at hts
    obtain ⟨token, d₄, ho, h₃⟩ := Drafting.bind_ok.mp hts
    cases h₃
    exact ⟨⟨by simpa using hkind, hkeys, harity⟩, token, ho, rfl⟩
  · rintro ⟨⟨hkind, hkeys, harity⟩, token, ho, rfl⟩
    have hoperands : ([o].mapM fun o => b.operand o p) (comparedDraft s p) = .ok ([token], d) := by
      rw [List.mapM_cons]
      exact Drafting.bind_ok.mpr ⟨token, d, ho, rfl⟩
    have hcomparison : Predicate.comparison b schema (.property property) op [o] (.on s)
        = .ok (.comparison (s.nameToken s.nameCount) op token, d) := by
      unfold Predicate.comparison
      rw [if_neg (by simpa using harity)]
      refine Drafting.bind_ok.mpr ⟨p, .on s, Drafting.lift_ok.mpr ⟨hp, rfl⟩, ?_⟩
      refine Drafting.bind_ok.mpr ⟨s.nameToken s.nameCount, comparedDraft s p, rfl, ?_⟩
      exact Drafting.bind_ok.mpr ⟨[token], d, hoperands, rfl⟩
    have hcondition : (Predicate.compare (.property property) op [o]).translate b
      schema kind false (.on s)
        = .ok (.comparison (s.nameToken s.nameCount) op token, d) := by
      rw [Predicate.translate]
      exact Drafting.bind_ok.mpr
        ⟨(), .on s, Predicate.checkComparison_ok_iff.mpr ⟨hkeys, rfl⟩, hcomparison⟩
    change draftPredicate _ kind schema _ _ = _
    unfold draftPredicate
    rw [if_neg (by simp [hkind])]
    exact Drafting.bind_ok.mpr ⟨_, d, hcondition, rfl⟩

/-- How the operand of a comparison is bound. -/
def operandBinder (c : Compiler) (schema : Schema) (mode : Mode) : Binder :=
  ⟨c.codec, some schema.entity, mode.isCancelled⟩

/-- All that is behind a clause of one comparison. -/
theorem comparison_translated_iff (hp : schema.resolve property = .ok p) {o : Operand} :
    c.translate mode (.comparison kind schema property op o) s = .ok clause s' ↔
      op.ComparesIn kind ∧ ∃ token d values,
        (c.operandBinder schema mode).operand o p (comparedDraft s p) = .ok (token, d) ∧
        Draft.resolve mode d.bindings = .ok values ∧
        clause = ⟨String.ofList (Condition.comparison (s.nameToken s.nameCount) op token).chars,
          d.names, values⟩ ∧ s' = s.enter d.names values := by
  constructor
  · intro h
    obtain ⟨expression, d, values, hmake, hvalues, rfl, rfl⟩ := Draft.complete_iff.mp h
    obtain ⟨hop, token, ho, rfl⟩ := (draft_comparison_iff hp).mp hmake
    exact ⟨hop, token, d, values, ho, hvalues, rfl, rfl⟩
  · rintro ⟨hop, token, d, values, ho, hvalues, rfl, rfl⟩
    refine Draft.complete_iff.mpr ⟨_, d, values, ?_, hvalues, rfl, rfl⟩
    exact (draft_comparison_iff hp).mpr ⟨hop, token, ho, rfl⟩

/-! ## Both ways -/

/-- What a comparison with a value comes to, in whichever way the value is bound. -/
structure Compares (c : Compiler) (mode : Mode) (kind : ClauseKind) (p : Property) (op : Operator)
    (v : Value) (s s' : Scope) (expression : String) (w : WireValue) : Prop where
  comparesIn : op.ComparesIn kind
  notCancelled : mode.isCancelled = false
  written : c.codec.toWire v p = .ok w
  expression_eq : expression = String.ofList
    (Condition.comparison (s.nameToken s.nameCount) op (s.valueToken s.valueCount)).chars
  scope_eq : s' = s.enter [(s.nameToken s.nameCount, p.wireName)] [(s.valueToken s.valueCount, w)]

theorem inline_translated_iff (hp : schema.resolve property = .ok p)
    (hh : c.hooks.SealsAlike schema.entity p) :
    c.translate mode (.comparison kind schema property op (.value v)) s = .ok clause s' ↔
      ∃ w, c.Compares mode kind p op v s s' clause.expression w ∧
        clause.names = [(s.nameToken s.nameCount, p.wireName)] ∧
        clause.values = [(s.valueToken s.valueCount, w)] := by
  have hbind (hm : mode.isCancelled = false) {b : Binding} :
      c.codec.bind (some schema.entity) mode.isCancelled v p = .ok b ↔
        ∃ w, b = .ready w ∧ c.codec.toWire v p = .ok w := by
    simp only [hm, Codec.toWire_ok_iff]
    exact Codec.bind_entity_iff hh
  rw [comparison_translated_iff hp]
  constructor
  · rintro ⟨hop, token, d, values, ho, hvalues, rfl, rfl⟩
    obtain ⟨hm, -⟩ := Draft.resolve_ok hvalues
    obtain ⟨binding, hb, rfl, rfl⟩ := Binder.value_ok_iff.mp ho
    obtain ⟨w, rfl, hw⟩ := (hbind hm).mp hb
    cases (Draft.resolve_ready hm _ w).symm.trans hvalues
    exact ⟨w, ⟨hop, hm, hw, rfl, rfl⟩, rfl, rfl⟩
  · rintro ⟨w, h, hnames, hvalues⟩
    have hb := (hbind h.notCancelled).mpr ⟨w, rfl, h.written⟩
    refine ⟨h.comparesIn, _, _, _, Binder.value_ok_iff.mpr ⟨.ready w, hb, rfl, rfl⟩,
      Draft.resolve_ready h.notCancelled _ w, ?_, h.scope_eq⟩
    rw [Clause.mk.injEq]
    exact ⟨h.expression_eq, hnames, hvalues⟩

/-- A value is bound on its own to the next value placeholder. -/
theorem bindValue_ok_iff {token : String} :
    c.bindValue v p s = .ok token s' ↔ ∃ w, c.codec.toWire v p = .ok w ∧
      token = s.valueToken s.valueCount ∧ s' = s.enter [] [(token, w)] := by
  unfold bindValue
  rw [Effect.bind_ok]
  constructor
  · rintro ⟨w, _, hx, hm⟩
    obtain ⟨hw, rfl⟩ := Effect.ofExcept_ok.mp hx
    exact ⟨w, hw, Scope.mintValue_ok hm⟩
  · rintro ⟨w, hw, rfl, rfl⟩
    refine ⟨w, s, Effect.ofExcept_ok.mpr ⟨hw, rfl⟩, ?_⟩
    exact Scope.mintValue_ok_iff.mpr ⟨Codec.toWire_filled hw, rfl, rfl⟩

/-- A clause on a value that is bound beforehand, and then used by its placeholder. -/
def translateReusing (c : Compiler) (mode : Mode) (v : Value) (p : Property)
    (source : Operand → Source) : Scoped Clause := do
  let token ← c.bindValue v p
  c.translate mode (source (.placeholder token))

/-- A placeholder that has been minted is used as it is. -/
theorem operand_bound (b : Binder) (p : Property) {d : Draft} {token : String} {w : WireValue}
    (hsigil : token.toList.head? = some ':') (hw : d.scope.value? token = some w) :
    b.operand (.placeholder token) p d = .ok (token, d) := by
  have hcontains : d.scope.contains token = true := Scope.contains_iff.mpr (.inr ⟨hsigil, w, hw⟩)
  unfold Binder.operand
  dsimp only
  rw [if_pos hsigil, Draft.reuse, if_pos]
  rw [Draft.contains, hcontains, Bool.true_or, Bool.true_or]

theorem reused_translated_iff (hp : schema.resolve property = .ok p) :
    c.translateReusing mode v p (.comparison kind schema property op) s = .ok clause s' ↔
      ∃ w, c.Compares mode kind p op v s s' clause.expression w ∧
        clause.names = [(s.nameToken s.nameCount, p.wireName)] ∧ clause.values = [] := by
  have hoperand (w : WireValue) : (c.operandBinder schema mode).operand
      (.placeholder (s.valueToken s.valueCount)) p
      (comparedDraft (s.enter [] [(s.valueToken s.valueCount, w)]) p)
        = .ok (s.valueToken s.valueCount,
        comparedDraft (s.enter [] [(s.valueToken s.valueCount, w)]) p) := by
    refine operand_bound _ p (Scope.head?_valueToken s _) (w := w) ?_
    change (s.valueTable.insert _ w).find? _ = _
    rw [Keyed.find?_insert, if_pos (beq_self_eq_true _)]
  unfold translateReusing
  rw [Effect.bind_ok]
  constructor
  · rintro ⟨token, s₁, hbind, h⟩
    obtain ⟨w, hw, rfl, rfl⟩ := bindValue_ok_iff.mp hbind
    obtain ⟨hop, token, d, values, ho, hvalues, rfl, rfl⟩ := (comparison_translated_iff hp).mp h
    obtain ⟨hm, -⟩ := Draft.resolve_ok hvalues
    cases (hoperand w).symm.trans ho
    cases (Draft.resolve_nil hm).symm.trans hvalues
    exact ⟨w, ⟨hop, hm, hw, rfl, rfl⟩, rfl, rfl⟩
  · rintro ⟨w, h, hnames, hvalues⟩
    refine ⟨_, _, bindValue_ok_iff.mpr ⟨w, h.written, rfl, rfl⟩, ?_⟩
    refine (comparison_translated_iff hp).mpr ⟨h.comparesIn, _, _, _, hoperand w,
      Draft.resolve_nil h.notCancelled, ?_, h.scope_eq⟩
    rw [Clause.mk.injEq]
    exact ⟨h.expression_eq, hnames, hvalues⟩

/--
**A placeholder that is used again means its value.** Where the hook of a property seals alike for
the entity and for none, a value can be bound beforehand and then be compared with the property if,
and only if, it can be compared with it in the clause. Either way the clause is the same text, and
the placeholder of the operand is bound to the same wire value in the same scope. If maps come in
other orders for a value that is bound beforehand, it may be sealed from another text; then there
is no other difference.
-/
theorem reuse_means_inline (c : Compiler) {hooks : HookRegistry} (mode : Mode) (kind : ClauseKind)
    (schema : Schema) {property : String} {p : Property} (op : Operator) (v : Value) (s : Scope)
    (hp : schema.resolve property = .ok p) (hh : c.hooks.SealsAlike schema.entity p)
    (hr : c.hooks.Reorders hooks) :
    let inline := c.translate mode (.comparison kind schema property op (.value v)) s
    let reused := Compiler.translateReusing { c with hooks } mode v p
      (.comparison kind schema property op) s
    let sameText := hooks.writing 0 = c.hooks.writing 0
    (sameText ∨ c.hooks.OrderBlind →
      ((∃ clause s₁, inline = .ok clause s₁) ↔ ∃ clause s₁, reused = .ok clause s₁)) ∧
    ∀ clause s₁ clause' s₁', inline = .ok clause s₁ → reused = .ok clause' s₁' →
      (sameText → s₁' = s₁) ∧ s₁.Akin (WireValue.Reordered c.hooks.Knows) s₁' ∧
      ∃ name token w w',
        clause.expression = String.ofList (Condition.comparison name op token).chars ∧
        clause'.expression = String.ofList (Condition.comparison name op token).chars ∧
        s₁.attribute? name = some p.wireName ∧ s₁'.attribute? name = some p.wireName ∧
        s₁.value? token = some w ∧ s₁'.value? token = some w' ∧
        w.Reordered c.hooks.Knows w' := by
  intro inline reused sameText
  have hinline {clause s₁} : inline = .ok clause s₁ ↔ _ := inline_translated_iff hp hh
  have hreused {clause s₁} : reused = .ok clause s₁ ↔ _ := reused_translated_iff hp
  have hcodec := codec_reorders hr
  refine ⟨fun hsame => ?_, ?_⟩
  · have hwire : Except.Akin (fun _ _ => True) (c.codec.toWire v p)
        ((Compiler.codec { c with hooks }).toWire v p) := by
      rcases hsame with htext | hblind
      · rw [Codec.toWire_congr hcodec htext]
        exact .of_self (fun _ => trivial) _
      · exact (toWire_reordered hcodec hblind (fun _ h => h) v p).mono fun _ => trivial
    constructor
    · rintro ⟨clause, s₁, h⟩
      obtain ⟨w, hw, hnames, -⟩ := hinline.mp h
      obtain ⟨w', hw', -⟩ := hwire.ok_right hw.written
      exact ⟨⟨clause.expression, clause.names, []⟩, _, hreused.mpr
        ⟨w', ⟨hw.comparesIn, hw.notCancelled, hw', hw.expression_eq, rfl⟩, hnames, rfl⟩⟩
    · rintro ⟨clause, s₁, h⟩
      obtain ⟨w', hw', hnames, -⟩ := hreused.mp h
      obtain ⟨w, hw, -⟩ := hwire.ok_left hw'.written
      exact ⟨⟨clause.expression, clause.names, [(s.valueToken s.valueCount, w)]⟩, _, hinline.mpr
        ⟨w, ⟨hw'.comparesIn, hw'.notCancelled, hw, hw'.expression_eq, rfl⟩, hnames, rfl⟩⟩
  · intro clause s₁ clause' s₁' h h'
    obtain ⟨w, hw, -⟩ := hinline.mp h
    obtain ⟨w', hw', -⟩ := hreused.mp h'
    have hwire := Codec.toWire_reordered_of_ok hcodec hw.written hw'.written
    have hattribute (w : WireValue) :
        (s.enter [(s.nameToken s.nameCount, p.wireName)]
          [(s.valueToken s.valueCount, w)]).attribute?
          (s.nameToken s.nameCount) = some p.wireName := by
      change (s.nameTable.insert _ _).find? _ = _
      rw [Keyed.find?_insert, if_pos (beq_self_eq_true _)]
    have hvalue (w : WireValue) :
        (s.enter [(s.nameToken s.nameCount, p.wireName)] [(s.valueToken s.valueCount, w)]).value?
          (s.valueToken s.valueCount) = some w := by
      change (s.valueTable.insert _ _).find? _ = _
      rw [Keyed.find?_insert, if_pos (beq_self_eq_true _)]
    rw [hw.scope_eq, hw'.scope_eq]
    refine ⟨fun htext => ?_, (Scope.Akin.of_self .same s).enter _ (.cons ⟨rfl, hwire⟩ .nil),
      s.nameToken s.nameCount, s.valueToken s.valueCount, w, w',
      hw.expression_eq, hw'.expression_eq,
      hattribute w, hattribute w', hvalue w, hvalue w', hwire⟩
    have hboth := hw'.written
    rw [Codec.toWire_congr hcodec htext, hw.written] at hboth
    cases hboth
    rfl

/--
The property `rooms`, whose numbers have four digits, sealed by the hook that is called `mirror`.
-/
def sealedRooms : Property := ⟨"Rooms", "rooms", some "D4", some "mirror"⟩

theorem rooms_beforehand :
    let c : Compiler := ⟨.standard, { hooks := [("mirror", .sync .mirroring)] }⟩
    let source := Source.comparison .filter ⟨"House", [("Rooms", sealedRooms)]⟩ "Rooms" .contains
    let v : Value := .list [.integer 7, .integer 12]
    let sealed : WireValue := .binary (Text.toBytes
      "\x7b\"L\":[\x7b\"S\":\"0007\"\x7d,\x7b\"S\":\"0012\"\x7d]\x7d").reverse
    ∃ clause s₁, c.translate .sync (source (.value v)) c.scope
        = .ok ⟨"contains(#attr0, :p0)", [("#attr0", "rooms")], [(":p0", sealed)]⟩ s₁ ∧
      c.translateReusing .sync v sealedRooms source c.scope = .ok clause s₁ ∧
      clause.expression = "contains(#attr0, :p0)" ∧ s₁.value? ":p0" = some sealed := by
  intro c source v sealed
  have hp : (⟨"House", [("Rooms", sealedRooms)]⟩ : Schema).resolve "Rooms" = .ok sealedRooms := by
    decide +kernel
  have hh : c.hooks.SealsAlike "House" sealedRooms := by
    intro id hook hid hhook
    cases hid
    cases hhook
    exact ⟨rfl, fun _ => rfl⟩
  obtain ⟨hiff, hsame⟩ := reuse_means_inline c .sync .filter _ .contains v c.scope hp hh rfl
  have h : c.translate .sync (source (.value v)) c.scope
      = .ok ⟨"contains(#attr0, :p0)", [("#attr0", "rooms")], [(":p0", sealed)]⟩
        (c.scope.enter [("#attr0", "rooms")] [(":p0", sealed)]) := by
    decide +kernel
  obtain ⟨clause, s₁, h'⟩ := (hiff (.inl rfl)).mp ⟨_, _, h⟩
  obtain ⟨hscope, -, name, token, w, w', htext, htext', -⟩ := hsame _ _ clause s₁ h h'
  cases hscope rfl
  exact ⟨clause, _, h, h', htext'.trans htext.symm, rfl⟩

/-- A hook that writes in front which entity a value is sealed for. -/
def stamping : Hook :=
  ⟨fun context bytes => .ok (Text.toBytes (context.entity.getD "-" ++ "|") ++ bytes),
    fun _ sealed => .ok (sealed.dropWhile (· != 124)).tail⟩

/--
A value that is bound beforehand is sealed for no entity, and one that stands in a clause for the
entity of the clause. A hook that tells the two apart binds the placeholders to different values.
-/
theorem reuse_sealed_for_none :
    let c : Compiler := ⟨.standard, { hooks := [("seal", .sync stamping)] }⟩
    let source := Source.comparison .filter patientSchema "Email" .equal
    let v : Value := .text "a"
    patientSchema.resolve "Email" = .ok sealedEmail ∧
      ∃ clause clause' s₁ s₁',
        c.translate .sync (source (.value v)) c.scope = .ok clause s₁ ∧
        c.translateReusing .sync v sealedEmail source c.scope = .ok clause' s₁' ∧
        clause.expression = "#attr0 = :p0" ∧ clause'.expression = "#attr0 = :p0" ∧
        s₁.value? ":p0" ≠ s₁'.value? ":p0" := by
  intro c source v
  let sealed (stamp : String) : List UInt8 := Text.toBytes (stamp ++ "|\x7b\"S\":\"a\"\x7d")
  have hne : sealed "Patient" ≠ sealed "-" := by decide +kernel
  refine ⟨by decide +kernel,
    ⟨"#attr0 = :p0", [("#attr0", "email")], [(":p0", .binary (sealed "Patient"))]⟩,
    ⟨"#attr0 = :p0", [("#attr0", "email")], []⟩,
    c.scope.enter [("#attr0", "email")] [(":p0", .binary (sealed "Patient"))],
    c.scope.enter [("#attr0", "email")] [(":p0", .binary (sealed "-"))],
    by decide +kernel, by decide +kernel, rfl, rfl, fun h => hne ?_⟩
  have h : some (WireValue.binary (sealed "Patient")) = some (.binary (sealed "-")) := h
  injection h with h
  injection h

end Compiler

end Clauses
