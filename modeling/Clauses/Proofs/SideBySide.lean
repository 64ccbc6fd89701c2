import Clauses.Proofs.Passage
import Clauses.Proofs.Predicates
import Clauses.Proofs.Respelling

/-!
# Predicates and templates side by side

A predicate and the template that says the same are bound in the same way. The template recovers
from what has been read so far what the predicate has in its tree: which property a value belongs
to, and whether the value is compared with the attribute itself. The two are made side by side.
Wherever the making of the predicate has come to, the template knows no function and no path, and
its draft has the same values and those of the names that are reserved words.

* `Draft.shadow` — the draft of the template beside the draft of the predicate
* `Predicate.translate_beside` — the template beside the predicate, by induction on the predicate
-/

namespace Clauses

open Template Grammar

/-! ## Literals -/

/-- The value of an operand that is no placeholder. -/
def Operand.literal? : Operand → Option Value
  | .value v => some v
  | .placeholder _ => none

/-- The values in an argument, unless there is a placeholder. -/
def Argument.literals? : Argument → Option (List Value)
  | .property _ => some []
  | .operand o => o.literal?.map ([·])

theorem Argument.literals?_operand {property : String} {o : Operand} {vss : List (List Value)}
    (h : [.property property, .operand o].mapM Argument.literals? = some vss) :
    ∃ v, o.literal? = some v ∧ vss.flatten = [v] := by
  cases o with
  | placeholder token => cases h
  | value v =>
    cases h
    exact ⟨v, rfl, rfl⟩

namespace Predicate

mutual

/-- The values of a predicate from left to right, unless there are placeholders. -/
def literals? : Predicate → Option (List Value)
  | .compare _ _ operands => operands.mapM Operand.literal?
  | .call _ arguments => (arguments.mapM Argument.literals?).map List.flatten
  | .and parts | .or parts => literalsOf? parts
  | .not p => literals? p

/-- The values of predicates from left to right, unless there are placeholders. -/
def literalsOf? : List Predicate → Option (List Value)
  | [] => some []
  | p :: rest => do return (← literals? p) ++ (← literalsOf? rest)

end

theorem literalsOf?_cons {p : Predicate} {rest : List Predicate} {vs : List Value}
    (h : literalsOf? (p :: rest) = some vs) :
    ∃ ws ws', p.literals? = some ws ∧ literalsOf? rest = some ws' ∧ vs = ws ++ ws' := by
  rw [literalsOf?] at h
  obtain ⟨ws, hws, h₁⟩ := Option.bind_eq_some_iff.mp h
  obtain ⟨ws', hws', h₂⟩ := Option.bind_eq_some_iff.mp h₁
  cases h₂
  exact ⟨ws, ws', hws, hws', rfl⟩

end Predicate

/-! ## Drafts side by side -/

/--
The placeholders that a template has for the names of a predicate, the first with this number.
-/
def Scope.aliases (s : Scope) (aliasReserved : Bool) :
    (number : Nat) → List (String × String) → List (String × String)
  | _, [] => []
  | number, (_, a) :: names =>
    if needsAlias aliasReserved a then
      (s.nameToken number, a) :: s.aliases aliasReserved (number + 1) names
    else s.aliases aliasReserved number names

/-- The draft of a template beside the draft of its predicate. -/
def Draft.shadow (input : Input) (d : Draft) : Draft :=
  { d with names := d.scope.aliases input.aliasReserved d.scope.nameCount d.names }

theorem Scope.aliases_append (s : Scope) (aliasReserved : Bool) (more : List (String × String)) :
    ∀ (names : List (String × String)) (number : Nat),
      s.aliases aliasReserved number (names ++ more)
        = s.aliases aliasReserved number names ++
          s.aliases aliasReserved
          (number + (s.aliases aliasReserved number names).length) more := by
  intro names
  induction names with
  | nil => exact fun _ => rfl
  | cons e names ih =>
    intro number
    rw [List.cons_append, aliases, aliases]
    split
    · rw [ih, List.cons_append, List.length_cons, Nat.add_assoc, Nat.add_comm 1]
    · exact ih number

/-- Where the predicate mints a name, the template mentions it. -/
theorem Draft.shadow_name (input : Input) (d : Draft) (a : String) :
    Draft.shadow input { d with names := d.names ++ [(d.nextName, a)] }
      = input.mention a (d.shadow input) := by
  simp only [Draft.shadow, Input.mention, Scope.aliases_append, Scope.aliases]
  split
  · rfl
  · rw [List.append_nil]

/-- A value is bound on both sides alike. -/
theorem Binder.value_shadow {b : Binder} {v : Value} {q : Property} {d d' : Draft} {t : String}
    (input : Input) (h : b.value v q d = .ok (t, d')) :
    b.value v q (d.shadow input) = .ok (t, d'.shadow input) := by
  obtain ⟨binding, hb, rfl, rfl⟩ := value_ok_iff.mp h
  exact value_ok_iff.mpr ⟨binding, hb, rfl, rfl⟩

/-! ## What is known beforehand -/

/--
A predicate and a template side by side, up to the draft in which everything has been minted. In the
template a name placeholder is spelled as its attribute and a value placeholder as a slot; `out` has
the spellings that the template is written out with.
-/
structure SideBySide (schema : Schema) (input : Input) (last : Draft) (raw out : String → String) :
    Prop where
  schema_eq : input.schema = some schema
  few : input.arguments.length ≤ maxSlot + 1
  word : ∀ {name p}, schema.resolve name = .ok p →
    Config.isWord p.wireName = true ∧ isKeyword p.wireName.toList = false
  known : ∀ {name p}, schema.resolve name = .ok p → schema.ofWireName? p.wireName = some p
  name : ∀ {d : Draft} {a : String},
    Draft.Grows { d with names := d.names ++ [(d.nextName, a)] } last →
    IsToken '#' d.nextName ∧ raw d.nextName = a ∧
      out d.nextName = input.spelling a (d.shadow input)
  value : ∀ {d : Draft} {b : Binding},
    Draft.Grows { d with bindings := d.bindings ++ [(d.nextValue, b)] } last →
    IsToken ':' d.nextValue ∧ raw d.nextValue = slotText d.bindings.length ∧
      out d.nextValue = d.nextValue

/-- The arguments of a template behind those that the draft has bound. -/
def Template.Input.unread (input : Input) (d : Draft) : List Value :=
  input.arguments.drop d.bindings.length

/-- A slot takes its value in the way of the property. -/
def Template.Reading.Binds (x : Reading) (input : Input) (q : Property) : Prop :=
  ∀ ctx n, ctx.subject = x.subject → slotProperty input.schema ctx n none = q

variable {codec : Codec} {schema : Schema} {input : Input} {last : Draft}
    {raw out : String → String}
  {d d' : Draft}

/-! ## Values -/

namespace SideBySide

theorem operand (hs : SideBySide schema input last raw out) {o : Operand}
    {q : Property} {t : String}
    {v : Value} {vs : List Value} (h : (codec.binder schema).operand o q d = .ok (t, d'))
    (hg : d'.Grows last) (hl : o.literal? = some v) (hu : input.unread d = v :: vs) :
    IsToken ':' t ∧ input.unread d' = vs ∧ ∀ x : Reading, x.Binds input q →
      x.draft = d.shadow input →
      Passage (codec.binder schema) input Anything (raw t).toList (out t).toList x
        { x with draft := d'.shadow input } := by
  cases o with
  | placeholder token => cases hl
  | value w =>
    cases hl
    have hshadow := Binder.value_shadow input h
    obtain ⟨binding, -, rfl, rfl⟩ := Binder.value_ok_iff.mp h
    obtain ⟨htoken, hraw, hout⟩ := hs.value hg
    -- The next slot is the next argument, which has not been read yet.
    have hlt : d.bindings.length < input.arguments.length := by
      have hlen := congrArg List.length hu
      simp only [Input.unread, List.length_drop, List.length_cons] at hlen
      omega
    have hv : input.arguments[d.bindings.length]? = some v := by
      have hhead := congrArg (·[0]?) hu
      simpa [Input.unread] using hhead
    refine ⟨htoken, ?_, fun x hx hd => ?_⟩
    · have htail := congrArg List.tail hu
      simpa [Input.unread] using htail
    · rw [hraw, hout]
      -- The number of the slot fits into 64 bits.
      have hfew := hs.few
      refine Passage.slot (by omega) hv (fun ctx hc => hx ctx _ hc.subject) ?_
      rw [hd]
      exact hshadow

/-- Values with something between them that changes nothing. -/
theorem operands (hs : SideBySide schema input last raw out) {sep : List Char}
    (hsep : ∀ x, Passage (codec.binder schema) input Anything sep sep x x) {q : Property}
    {operands : List Operand} :
    ∀ {o : Operand} {d d' : Draft} {ts : List String} {vs vs' : List Value},
      ((o :: operands).mapM fun o => (codec.binder schema).operand o q) d = .ok (ts, d') →
      d'.Grows last → (o :: operands).mapM Operand.literal? = some vs →
      input.unread d = vs ++ vs' →
      (∀ t ∈ ts, IsToken ':' t) ∧ ts.length = operands.length + 1 ∧ input.unread d' = vs' ∧
        ∀ x : Reading, x.Binds input q → x.draft = d.shadow input →
          Passage (codec.binder schema) input Anything
            (sep.intercalate ((ts.map raw).map String.toList))
            (sep.intercalate ((ts.map out).map String.toList)) x
            { x with draft := d'.shadow input } := by
  induction operands with
  | nil =>
    intro o d d' ts vs vs' h hg hl hu
    rw [List.mapM_cons] at h hl
    obtain ⟨t, d₁, ht, h₁⟩ := Drafting.bind_ok.mp h
    obtain ⟨ts', d₂, hts, h₂⟩ := Drafting.bind_ok.mp h₁
    rw [List.mapM_nil] at hts
    obtain ⟨rfl, rfl⟩ := Drafting.pure_ok.mp hts
    obtain ⟨rfl, rfl⟩ := Drafting.pure_ok.mp h₂
    obtain ⟨v, hv, hl₁⟩ := Option.bind_eq_some_iff.mp hl
    cases hl₁
    obtain ⟨htoken, hrest, hpass⟩ := hs.operand ht hg hv hu
    refine ⟨by simpa using htoken, rfl, hrest, fun x hx hd => ?_⟩
    simp only [List.map_cons, List.map_nil, List.intercalate_singleton]
    exact hpass x hx hd
  | cons o' operands ih =>
    intro o d d' ts vs vs' h hg hl hu
    rw [List.mapM_cons] at h hl
    obtain ⟨t, d₁, ht, h₁⟩ := Drafting.bind_ok.mp h
    obtain ⟨ts', d₂, hts, h₂⟩ := Drafting.bind_ok.mp h₁
    obtain ⟨rfl, rfl⟩ := Drafting.pure_ok.mp h₂
    obtain ⟨v, hv, hl₁⟩ := Option.bind_eq_some_iff.mp hl
    obtain ⟨ws, hws, hl₂⟩ := Option.bind_eq_some_iff.mp hl₁
    cases hl₂
    have hg₁ := Drafting.Minting.mapM (fun o => (codec.binder schema).operand_minting o q) _ hts
    obtain ⟨htoken, hrest, hpass⟩ := hs.operand ht (hg₁.trans hg) hv hu
    obtain ⟨htokens, hlen, hrest', hpass'⟩ := ih hts hg hws hrest
    refine ⟨List.forall_mem_cons.mpr ⟨htoken, htokens⟩, by simp [hlen], hrest', fun x hx hd => ?_⟩
    obtain ⟨t', ts, rfl⟩ := List.exists_cons_of_length_eq_add_one hlen
    simp only [List.map_cons, List.intercalate_cons_cons]
    have hall := hpass' { x with draft := d₁.shadow input } hx rfl
    exact ((hpass x hx hd).then (hsep _)).then hall

/-! ## Subjects -/

theorem binds (hs : SideBySide schema input last raw out) {name : String} {p : Property}
    (hp : schema.resolve name = .ok p) {x : Reading} (isPlain : Bool)
    (hx : x.subject = some ⟨p.wireName, isPlain⟩) :
    x.Binds input (if isPlain then p.bare else p) := by
  intro ctx n hc
  rw [hx] at hc
  cases isPlain with
  | true => simp [slotProperty, knownProperty?, hc, hs.schema_eq, Property.bare]
  | false => simp [slotProperty, knownProperty?, hc, hs.schema_eq, hs.known hp]

theorem isToken_bindName (hs : SideBySide schema input last raw out) {p : Property} {name : String}
    (h : p.bindName d = .ok (name, d')) (hg : d'.Grows last) : IsToken '#' name := by
  cases h
  exact (hs.name hg).1

/-- The attribute of a property becomes the subject. -/
theorem mention (codec : Codec) (hs : SideBySide schema input last raw out) {property : String}
    {p : Property} (hp : schema.resolve property = .ok p) {name : String}
    (h : p.bindName d = .ok (name, d'))
    (hg : d'.Grows last) {x : Reading} (hx : x.draft = d.shadow input) :
    (x.about input p.wireName).draft = d'.shadow input ∧
      Passage (codec.binder schema) input NoCall (raw name).toList (out name).toList x
        (x.about input p.wireName) := by
  cases h
  obtain ⟨-, hraw, hout⟩ := hs.name hg
  obtain ⟨hword, hkeyword⟩ := hs.word hp
  constructor
  · rw [Reading.about, hx, Draft.shadow_name]
  · rw [hraw, hout, ← hx]
    exact Passage.attribute hword hkeyword x

theorem noCall_operator (op : Operator) (rest : List Char) (_ : Anything rest) :
    NoCall (spaced op.text ++ rest) := by
  refine ⟨Text.Boundary.cons (by decide) _, ?_⟩
  cases op <;> rfl

theorem noCall_closing (rest : List Char) : NoCall (')' :: rest) :=
  ⟨Text.Boundary.cons (by decide) rest, rfl⟩

/-- What is compared, and how its values are bound. -/
theorem subject (hs : SideBySide schema input last raw out) {subject : Subject} {p : Property}
    (hp : schema.resolve subject.propertyName = .ok p) {name : String}
    (h : p.bindName d = .ok (name, d')) (hg : d'.Grows last) {x : Reading}
    (hd : x.draft = d.shadow input) (hsize : x.function ≠ some .size)
    (htype : x.function ≠ some .attributeType) :
    ∃ y : Reading, y.function = none ∧ y.draft = d'.shadow input ∧
      y.Binds input (subject.policy p) ∧
      Passage (codec.binder schema) input NoCall ((subject.compared name).respell raw).chars
        ((subject.compared name).respell out).chars x y := by
  cases subject with
  | property property =>
    obtain ⟨hdraft, hx⟩ := hs.mention codec hp h hg hd
    refine ⟨_, rfl, hdraft, hs.binds hp false ?_, hx⟩
    simp [Reading.about, hsize, htype]
  | size property =>
    obtain ⟨hdraft, hx⟩ := hs.mention codec hp h hg (x := { x with function := some .size }) hd
    refine ⟨_, rfl, hdraft, hs.binds hp true ?_, ?_⟩
    · simp [Reading.about]
    · exact (Passage.call .size hx noCall_closing).weaken fun _ _ => trivial

end SideBySide

/-! ## Comparisons -/

/-- The condition is made of readable parts, and its template is read beside its making. -/
structure Condition.Beside (b : Binder) (input : Input) (raw out : String → String) (c : Condition)
    (d d' : Draft) : Prop where
  readable : c.Readable
  passage : ∀ x : Reading, x.function = none → x.draft = d.shadow input →
    ∃ y : Reading, y.function = none ∧ y.draft = d'.shadow input ∧
      Passage b input Anything (c.respell raw).chars (c.respell out).chars x y

namespace SideBySide

/-- The values of a comparison behind its subject. -/
theorem compareChars (hs : SideBySide schema input last raw out) {subject : Subject}
    {op : Operator} {p : Property} (hp : schema.resolve subject.propertyName = .ok p)
    {name : String} {d₁ : Draft} (hname : p.bindName d = .ok (name, d₁)) (hg₁ : d₁.Grows last)
    {ts : List String} (hne : ts ≠ [])
    (hvalues : ∀ {sep}, (∀ x, Passage (codec.binder schema) input Anything sep sep x x) →
      ∀ x : Reading, x.Binds input (subject.policy p) → x.draft = d₁.shadow input →
        Passage (codec.binder schema) input Anything
          (sep.intercalate ((ts.map raw).map String.toList))
          (sep.intercalate ((ts.map out).map String.toList)) x
          { x with draft := d'.shadow input })
    {x : Reading} (hf : x.function = none) (hd : x.draft = d.shadow input) :
    ∃ y : Reading, y.function = none ∧ y.draft = d'.shadow input ∧
      Passage (codec.binder schema) input Anything
        (Condition.compareChars ((subject.compared name).respell raw).chars op
          ((ts.map raw).map String.toList))
        (Condition.compareChars ((subject.compared name).respell out).chars op
          ((ts.map out).map String.toList)) x y := by
  obtain ⟨t, ts, rfl⟩ := List.exists_cons_of_ne_nil hne
  have hcomma : ∀ x, Passage (codec.binder schema) input Anything comma comma x x :=
    .marks rfl
  -- A comparison that is written as a function gives its subject as the first argument.
  have hcall : ∀ f : Builtin, f ≠ .size → f ≠ .attributeType →
      ∃ y : Reading, y.function = none ∧ y.draft = d'.shadow input ∧
        Passage (codec.binder schema) input Anything
          (f.name.toList ++ bracketed
            (comma.intercalate (((subject.compared name).respell raw).chars ::
            (((t :: ts).map raw).map String.toList))))
          (f.name.toList ++ bracketed
            (comma.intercalate (((subject.compared name).respell out).chars ::
            (((t :: ts).map out).map String.toList)))) x y := by
    intro f hsize htype
    obtain ⟨y, hy, hyd, hbinds, hleft⟩ := hs.subject hp hname hg₁
      (x := { x with function := some f }) hd (by simpa using hsize) (by simpa using htype)
    refine ⟨{ y with draft := d'.shadow input }, hy, rfl, ?_⟩
    have hfirst := hleft.append (hcomma y) fun rest _ => ⟨Text.Boundary.cons (by decide) _, rfl⟩
    have hall := hfirst.then (hvalues hcomma y hbinds hyd)
    simp only [List.map_cons, List.intercalate_cons_cons]
    exact Passage.call f hall fun _ => trivial
  obtain ⟨y, hy, hyd, hbinds, hleft⟩ := hs.subject hp hname hg₁ hd (by simp [hf]) (by simp [hf])
  have hop := fun hb hc => hleft.append (Passage.operator hb hc y) (noCall_operator op)
  cases op with
  | between =>
    have hand : ∀ x, Passage (codec.binder schema) input Anything (spaced Connective.and.text)
        (spaced Connective.and.text) x x := .connective .and
    have hall := (hop (by decide) (by decide)).then (hvalues hand y hbinds hyd)
    exact ⟨{ y with draft := d'.shadow input }, hy, rfl, hall⟩
  | among =>
    have hlist := (hvalues hcomma y hbinds hyd).bracketed fun _ => trivial
    have hall := (hop (by decide) (by decide)).then hlist
    exact ⟨{ y with draft := d'.shadow input }, hy, rfl, hall⟩
  | beginsWith => exact hcall .beginsWith (by decide) (by decide)
  | contains => exact hcall .contains (by decide) (by decide)
  | _ =>
    have hall := (hop (by decide) (by decide)).then (hvalues hcomma y hbinds hyd)
    exact ⟨{ y with draft := d'.shadow input }, hy, rfl, hall⟩

theorem comparison (hs : SideBySide schema input last raw out) {subject : Subject} {op : Operator}
    {operands : List Operand} {c : Condition} {vs vs' : List Value}
    (h : Predicate.comparison (codec.binder schema) schema subject op operands d = .ok (c, d'))
    (hg : d'.Grows last) (hl : operands.mapM Operand.literal? = some vs)
    (hu : input.unread d = vs ++ vs') :
    c.Beside (codec.binder schema) input raw out d d' ∧ input.unread d' = vs' := by
  obtain ⟨ha, p, name, d₂, ts, hp, hname, hts, rfl⟩ := Predicate.comparison_ok h
  have hg₂ := (Drafting.Minting.mapM
    (fun o => (codec.binder schema).operand_minting o (subject.policy p)) operands hts).trans hg
  have htoken := hs.isToken_bindName hname hg₂
  have hu₂ : input.unread d₂ = vs ++ vs' := by
    cases hname
    exact hu
  obtain ⟨o, operands, rfl⟩ : ∃ o os, operands = o :: os := by
    refine List.exists_cons_of_ne_nil ?_
    rintro rfl
    cases op <;> cases ha
  have hcomma : ∀ x, Passage (codec.binder schema) input Anything comma comma x x :=
    .marks rfl
  obtain ⟨htokens, hlen, hrest, -⟩ := hs.operands hcomma hts hg hl hu₂
  have hvalues {sep} (hsep : ∀ x, Passage (codec.binder schema) input Anything sep sep x x) :=
    (hs.operands hsep hts hg hl hu₂).2.2.2
  have hleft : (subject.compared name).token = name := by cases subject <;> rfl
  refine ⟨⟨⟨by rwa [hleft], ?_, htokens⟩, fun x hf hd => ?_⟩, hrest⟩
  · rwa [hlen]
  · rw [Condition.respell, Condition.respell, Condition.chars, Condition.chars]
    refine hs.compareChars hp hname hg₂ ?_ hvalues hf hd
    rintro rfl
    cases hlen

/-! ## Calls -/

theorem invocation (hs : SideBySide schema input last raw out) {f : Builtin}
    {arguments : List Argument} {c : Condition} {vss : List (List Value)} {vs : List Value}
    (h : Predicate.invocation (codec.binder schema) schema f arguments d = .ok (c, d'))
    (hg : d'.Grows last) (hl : arguments.mapM Argument.literals? = some vss)
    (hu : input.unread d = vss.flatten ++ vs) :
    c.Beside (codec.binder schema) input raw out d d' ∧ input.unread d' = vs := by
  obtain ⟨hf, property, p, name, d₁, hp, hname, hrest⟩ := Predicate.invocation_ok h
  have hu₁ : input.unread d₁ = vss.flatten ++ vs := by
    cases hname
    exact hu
  rcases hrest with ⟨rfl, rfl, rfl⟩ | ⟨o, t, rfl, ht, rfl⟩
  · cases hl
    have htoken := hs.isToken_bindName hname hg
    refine ⟨⟨⟨hf, htoken, fun t ht => by cases ht⟩, fun x hfn hd => ?_⟩, hu₁⟩
    obtain ⟨hdraft, hx⟩ := hs.mention codec hp hname hg (x := { x with function := some f }) hd
    have hcall : Passage (codec.binder schema) input Anything _ _ x _ :=
      Passage.call f hx noCall_closing
    refine ⟨_, rfl, hdraft, ?_⟩
    simp only [Condition.respell, Condition.chars, Condition.callChars, Option.map_none,
      Option.toList_none, List.map_nil, List.intercalate_singleton]
    exact hcall
  · obtain ⟨v, hv, hvss⟩ := Argument.literals?_operand hl
    rw [hvss] at hu₁
    have hg₁ := ((codec.binder schema).operand_minting o _ ht).trans hg
    have htoken := hs.isToken_bindName hname hg₁
    obtain ⟨htoken', hunread, hvalue⟩ := hs.operand ht hg hv hu₁
    refine ⟨⟨⟨hf, htoken, fun t' ht' => ?_⟩, fun x hfn hd => ?_⟩, hunread⟩
    · cases ht'
      exact htoken'
    · -- Behind the name of the attribute the template knows the property of the value.
      let y : Reading := Reading.about { x with function := some f } input p.wireName
      obtain ⟨hdraft, hx⟩ := hs.mention codec hp hname hg₁ (x := { x with function := some f }) hd
      have hplain : (f == .size || f == .attributeType) = decide (f = .attributeType) := by
        cases f <;> first | rfl | exact absurd rfl hf
      have hbinds := hs.binds hp (x := y) (decide (f = .attributeType))
        (by simp [y, Reading.about, hplain])
      simp only [decide_eq_true_eq] at hbinds
      have hcomma := hx.append (.marks (t := comma) rfl _)
        fun rest _ => ⟨Text.Boundary.cons (by decide) _, rfl⟩
      have hall := hcomma.then (hvalue _ hbinds hdraft)
      have hcall : Passage (codec.binder schema) input Anything _ _ x
        { y with draft := d'.shadow input } := Passage.call f hall fun _ => trivial
      refine ⟨{ y with draft := d'.shadow input }, rfl, rfl, ?_⟩
      simp only [Condition.respell, Condition.chars, Condition.callChars, Option.map_some,
        Option.toList_some, List.map_cons, List.map_nil, List.intercalate_cons_cons,
        List.intercalate_singleton]
      exact hcall

end SideBySide

/-! ## Negations -/

theorem Condition.Beside.not {b : Binder} {c : Condition} (h : c.Beside b input raw out d d') :
    (Condition.not c).Beside b input raw out d d' where
  readable := h.readable
  passage := by
    intro x hf hd
    obtain ⟨y, hy, hyd, hpass⟩ := h.passage x hf hd
    refine ⟨y, hy, hyd, ?_⟩
    rw [Condition.respell, Condition.respell, Condition.chars, Condition.chars,
      Condition.isCall_respell, Condition.isCall_respell]
    split
    · exact (Passage.negation x).then hpass
    · exact (Passage.negation x).then (hpass.bracketed fun _ => trivial)

theorem Condition.Beside.negatedIf {b : Binder} {c : Condition} (negate : Bool)
    (h : c.Beside b input raw out d d') : (c.negatedIf negate).Beside b input raw out d d' := by
  cases negate with
  | true => exact h.not
  | false => exact h

namespace SideBySide

theorem comparisonOrNot (hs : SideBySide schema input last raw out) {negate : Bool}
    {subject : Subject} {op : Operator} {operands : List Operand} {c : Condition}
    {vs vs' : List Value}
    (h : Predicate.comparisonOrNot (codec.binder schema) schema negate subject op operands d
      = .ok (c, d'))
    (hg : d'.Grows last) (hl : operands.mapM Operand.literal? = some vs)
    (hu : input.unread d = vs ++ vs') :
    c.Beside (codec.binder schema) input raw out d d' ∧ input.unread d' = vs' := by
  obtain ⟨-, hc⟩ | ⟨opposite, -, -, hc⟩ | ⟨c', -, hc, rfl⟩ := Predicate.comparisonOrNot_ok h
  · exact hs.comparison hc hg hl hu
  · exact hs.comparison hc hg hl hu
  · obtain ⟨hbeside, hrest⟩ := hs.comparison hc hg hl hu
    exact ⟨hbeside.not, hrest⟩

theorem invocationOrNot (hs : SideBySide schema input last raw out) {negate : Bool} {f : Builtin}
    {arguments : List Argument} {c : Condition} {vss : List (List Value)} {vs : List Value}
    (h : Predicate.invocationOrNot (codec.binder schema) schema negate f arguments d = .ok (c, d'))
    (hg : d'.Grows last) (hl : arguments.mapM Argument.literals? = some vss)
    (hu : input.unread d = vss.flatten ++ vs) :
    c.Beside (codec.binder schema) input raw out d d' ∧ input.unread d' = vs := by
  obtain ⟨-, hc⟩ | ⟨opposite, -, -, hc⟩ | ⟨c', -, hc, rfl⟩ := Predicate.invocationOrNot_ok h
  · exact hs.invocation hc hg hl hu
  · exact hs.invocation hc hg hl hu
  · obtain ⟨hbeside, hrest⟩ := hs.invocation hc hg hl hu
    exact ⟨hbeside.not, hrest⟩

end SideBySide

/-! ## Trees -/

namespace Predicate

/-- A check mints nothing. -/
theorem checkComparison_ok {kind : ClauseKind} {subject : Subject} {op : Operator} {u : Unit}
    (h : checkComparison kind subject op d = .ok (u, d')) : d' = d := by
  unfold checkComparison at h
  by_cases hk : kind = .keyCondition
  · rw [if_pos hk] at h
    cases subject with
    | size name => exact absurd h Drafting.throw_ok
    | property name =>
      dsimp only at h
      by_cases ho : (!op.isForKeys) = true
      · rw [if_pos ho] at h
        exact absurd h Drafting.throw_ok
      · rw [if_neg ho] at h
        exact (Drafting.pure_ok.mp h).2
  · rw [if_neg hk] at h
    exact (Drafting.pure_ok.mp h).2

mutual

theorem translate_beside (hs : SideBySide schema input last raw out) (kind : ClauseKind) :
    ∀ (p : Predicate) {negate : Bool} {c : Condition} {d d' : Draft} {vs vs' : List Value},
      translate (codec.binder schema) schema kind negate p d = .ok (c, d') → d'.Grows last →
      p.literals? = some vs → input.unread d = vs ++ vs' →
      c.Beside (codec.binder schema) input raw out d d' ∧ input.unread d' = vs'
  | .compare subject op operands, negate, c, d, d', vs, vs', h, hg, hl, hu => by
    rw [translate] at h
    obtain ⟨_, d₁, hcheck, h₁⟩ := Drafting.bind_ok.mp h
    rw [checkComparison_ok hcheck] at h₁
    exact hs.comparisonOrNot h₁ hg hl hu
  | .call f arguments, negate, c, d, d', vs, vs', h, hg, hl, hu => by
    rw [translate] at h
    obtain ⟨vss, hvss, rfl⟩ := Option.map_eq_some_iff.mp hl
    exact hs.invocationOrNot (Drafting.refuse_ok h).2 hg hvss hu
  | .and parts, negate, c, d, d', vs, vs', h, hg, hl, hu => by
    rw [translate] at h
    exact junction_beside hs kind .and parts h hg hl hu
  | .or parts, negate, c, d, d', vs, vs', h, hg, hl, hu => by
    rw [translate] at h
    exact junction_beside hs kind .or parts (Drafting.refuse_ok h).2 hg hl hu
  | .not p, negate, c, d, d', vs, vs', h, hg, hl, hu => by
    rw [translate] at h
    exact translate_beside hs kind p (Drafting.refuse_ok h).2 hg hl hu

theorem junction_beside (hs : SideBySide schema input last raw out) (kind : ClauseKind)
    (k : Connective) :
    ∀ (parts : List Predicate) {negate : Bool} {c : Condition} {d d' : Draft} {vs vs' : List Value},
      junction (codec.binder schema) schema kind negate k parts d = .ok (c, d') → d'.Grows last →
      literalsOf? parts = some vs → input.unread d = vs ++ vs' →
      c.Beside (codec.binder schema) input raw out d d' ∧ input.unread d' = vs'
  | [], negate, c, d, d', vs, vs', h, hg, hl, hu => by
    rw [junction] at h
    exact absurd h Drafting.throw_ok
  | [p], negate, c, d, d', vs, vs', h, hg, hl, hu => by
    rw [junction] at h
    obtain ⟨ws, ws', hws, hws', rfl⟩ := literalsOf?_cons hl
    cases hws'
    rw [List.append_nil] at hu
    exact translate_beside hs kind p h hg hws hu
  | p :: q :: rest, negate, c, d, d', vs, vs', h, hg, hl, hu => by
    rw [junction] at h
    · obtain ⟨first, d₁, hfirst, h₁⟩ := Drafting.bind_ok.mp h
      obtain ⟨others, d₂, hothers, h₂⟩ := Drafting.bind_ok.mp h₁
      obtain ⟨rfl, rfl⟩ := Drafting.pure_ok.mp h₂
      obtain ⟨ws, ws', hws, hws', rfl⟩ := literalsOf?_cons hl
      rw [List.append_assoc] at hu
      have hg₁ := (translateAll_minting (codec.binder schema) schema kind
        (q :: rest) hothers).trans hg
      obtain ⟨hp, hu₁⟩ := translate_beside hs kind p hfirst hg₁ hws hu
      obtain ⟨hreadable, hu', hpass⟩ := translateAll_beside hs kind (q :: rest) hothers hg hws' hu₁
      have hjoin : (Condition.join k first others).Beside (codec.binder schema)
          input raw out d d' := by
        refine ⟨⟨hp.readable, hreadable⟩, fun x hf hd => ?_⟩
        obtain ⟨y, hy, hyd, hx⟩ := hp.passage x hf hd
        rw [Condition.respell, Condition.respell, Condition.chars, Condition.chars]
        -- The first part stands in brackets as the others do.
        exact hpass k hy hyd (hx.bracketed fun _ => trivial)
      exact ⟨hjoin.negatedIf negate, hu'⟩
    · simp

/-- The parts of a junction, each in brackets, behind a text that has been read. -/
theorem translateAll_beside (hs : SideBySide schema input last raw out) (kind : ClauseKind) :
    ∀ (parts : List Predicate) {cs : List Condition} {d d' : Draft} {vs vs' : List Value},
      translateAll (codec.binder schema) schema kind parts d = .ok (cs, d') → d'.Grows last →
      literalsOf? parts = some vs → input.unread d = vs ++ vs' →
      Condition.AllReadable cs ∧ input.unread d' = vs' ∧
        ∀ (k : Connective) {s o : List Char} {x y : Reading}, y.function = none →
          y.draft = d.shadow input → Passage (codec.binder schema) input Anything s o x y →
          ∃ z : Reading, z.function = none ∧ z.draft = d'.shadow input ∧
            Passage (codec.binder schema) input Anything
              ((spaced k.text).intercalate
                (s :: Condition.partsChars (Condition.respellAll raw cs)))
              ((spaced k.text).intercalate
                (o :: Condition.partsChars (Condition.respellAll out cs))) x z
  | [], cs, d, d', vs, vs', h, hg, hl, hu => by
    rw [translateAll] at h
    obtain ⟨rfl, rfl⟩ := Drafting.pure_ok.mp h
    cases hl
    refine ⟨trivial, hu, fun k s o x y hy hyd hx => ⟨y, hy, hyd, ?_⟩⟩
    simp only [Condition.respellAll, Condition.partsChars, List.intercalate_singleton]
    exact hx
  | p :: rest, cs, d, d', vs, vs', h, hg, hl, hu => by
    rw [translateAll] at h
    obtain ⟨first, d₁, hfirst, h₁⟩ := Drafting.bind_ok.mp h
    obtain ⟨others, d₂, hothers, h₂⟩ := Drafting.bind_ok.mp h₁
    obtain ⟨rfl, rfl⟩ := Drafting.pure_ok.mp h₂
    obtain ⟨ws, ws', hws, hws', rfl⟩ := literalsOf?_cons hl
    rw [List.append_assoc] at hu
    have hg₁ := (translateAll_minting (codec.binder schema) schema kind rest hothers).trans hg
    obtain ⟨hp, hu₁⟩ := translate_beside hs kind p hfirst hg₁ hws hu
    obtain ⟨hreadable, hu', hpass⟩ := translateAll_beside hs kind rest hothers hg hws' hu₁
    refine ⟨⟨hp.readable, hreadable⟩, hu', fun k s o x y hy hyd hx => ?_⟩
    obtain ⟨z, hz, hzd, hfirst'⟩ := hp.passage y hy hyd
    obtain ⟨z', hz', hzd', hrest⟩ := hpass k hz hzd (hfirst'.bracketed fun _ => trivial)
    refine ⟨z', hz', hzd', ?_⟩
    simp only [Condition.respellAll, Condition.partsChars, List.intercalate_cons_cons]
    exact (hx.then (.connective k y)).then hrest

end

end Predicate

end Clauses
