import Clauses.Proofs.Meaning
import Clauses.Proofs.Numbering

/-!
# Predicates keep their meaning

The condition that a predicate is translated to holds exactly when the predicate does, or exactly
when it does not if the predicate is to be negated. The placeholders of the condition may be bound
to their attributes and values long after it was made, so all is said about a later scope, in which
everything that the draft has minted is found.

* `Draft.Within` — all placeholders of a draft are bound in a scope
* `Condition.Says` — a condition has a given truth value
* `Predicate.translate_sound` — the translation of a predicate, by induction on the predicate
-/

namespace Clauses

open Grammar

/-! ## Later scopes -/

/-- The placeholders of the scope are words behind their sigils. -/
structure Scope.Worded (s : Scope) : Prop where
  names : ∀ t a, s.attribute? t = some a → IsToken '#' t
  values : ∀ t w, s.value? t = some w → IsToken ':' t

theorem Scope.isToken_numbered {sigil : Char} {start : List Char}
    (hw : ∀ c ∈ start, Text.isWordChar c = true) (i : Nat) :
    IsToken sigil (String.ofList (sigil :: start ++ Nat.toDigits 10 i)) := by
  refine ⟨start ++ Nat.toDigits 10 i, ?_, fun c hc => ?_, by simp⟩
  · exact List.append_ne_nil_of_right_ne_nil _ Nat.toDigits_ne_nil
  · rcases List.mem_append.mp hc with hc | hc
    · exact hw c hc
    · have hd := Nat.isDigit_of_mem_toDigits (by decide) (by decide) hc
      simp [Text.isWordChar, Char.isAlphanum, hd]

/-- Prefixes that are words make placeholders that are words. -/
theorem Scope.Numbered.worded {s : Scope} (h : s.Numbered)
    (hn : ∀ c ∈ s.namePrefix.toList, Text.isWordChar c = true)
    (hv : ∀ c ∈ s.valuePrefix.toList, Text.isWordChar c = true) : s.Worded where
  names t a ht := by
    have hk := h.names.mem_iff.mp (Keyed.mem_keys_of_find? ht)
    obtain ⟨i, -, rfl⟩ := List.mem_map.mp hk
    exact Scope.isToken_numbered hn i
  values t w ht := by
    have hk := h.values.mem_iff.mp (Keyed.mem_keys_of_find? ht)
    obtain ⟨i, -, rfl⟩ := List.mem_map.mp hk
    exact Scope.isToken_numbered hv i

/-- The scope, names and bindings of the draft are all found in a later scope. -/
structure Draft.Within (d : Draft) (s : Scope) : Prop where
  scope : d.scope.Keeps s
  names : ∀ e ∈ d.names, s.attribute? e.1 = some e.2
  values : ∀ e ∈ d.bindings, ∃ w, e.2.Settles w ∧ s.value? e.1 = some w

theorem Draft.Within.of_grows {d d' : Draft} {s : Scope} (h : d'.Within s) (hg : d.Grows d') :
    d.Within s where
  scope := by
    rw [← hg.scope_eq]
    exact h.scope
  names e he := h.names e (hg.names_prefix.subset he)
  values e he := h.values e (hg.bindings_prefix.subset he)

variable {s : Scope} {d d' : Draft} {codec : Codec} {schema : Schema}

theorem Draft.bindName_bound {a t : String} (h : Draft.bindName a d = .ok (t, d'))
    (hd : d'.Within s) : s.attribute? t = some a := by
  cases h
  exact hd.names _ (List.mem_append_right _ List.mem_cons_self)

/-- A value placeholder that is used again is bound to a value. -/
theorem Draft.reuse_bound {token t : String} (h : Draft.reuse token d = .ok (t, d'))
    (hc : token.toList.head? = some ':') (hd : d'.Within s) (hs : s.Worded) :
    t = token ∧ ∃ w, s.value? token = some w := by
  unfold Draft.reuse at h
  split at h
  case isFalse => cases h
  case isTrue hm =>
    cases h
    refine ⟨rfl, ?_⟩
    simp only [Draft.contains, Bool.or_eq_true, List.any_eq_true, beq_iff_eq] at hm
    rcases hm with (hm | ⟨e, he, rfl⟩) | ⟨e, he, rfl⟩
    · simp only [Scope.contains, hc, Option.isSome_iff_exists] at hm
      obtain ⟨w, hw⟩ := hm
      exact ⟨w, hd.scope.values _ _ hw⟩
    · -- A name placeholder starts with another sigil.
      obtain ⟨w, -, -, ht⟩ := hs.names _ _ (hd.names e he)
      rw [ht] at hc
      cases hc
    · obtain ⟨w, -, hw⟩ := hd.values e he
      exact ⟨w, hw⟩

/-! ## Operands -/

/-- How the values of a predicate are bound if nobody cancels. -/
def Codec.binder (codec : Codec) (schema : Schema) : Binder := ⟨codec, some schema.entity, false⟩

theorem Codec.settle?_eq {v : Value} {p : Property} {b : Binding} {w : WireValue}
    {entity : Option String} (h : codec.bind entity false v p = .ok b) (hw : b.Settles w) :
    codec.settle? entity v p = some w := by
  unfold Codec.settle?
  rw [h]
  cases hw with
  | ready w => rfl
  | deferred ha =>
    dsimp only
    rw [ha]
    rfl

/-- The codec as it is when so much of a clause has been made. -/
def Codec.after (codec : Codec) (d : Draft) : Codec := codec.later d.bindings.length

@[simp] theorem Codec.after_on (codec : Codec) (s : Scope) : codec.after (.on s) = codec := rfl

/-- What comes after a step finds the codec as it is after the values of the step. -/
theorem Draft.Gains.codec_after {b : Binder} {bound : List BoundValue} (h : d.Gains b d' bound)
    (codec : Codec) : codec.after d' = (codec.after d).later bound.length := by
  rw [Codec.after, Codec.after, Codec.later_later, h.length_eq]

theorem Draft.Gains.codec_after_nil {b : Binder} (h : d.Gains b d' []) (codec : Codec) :
    codec.after d' = codec.after d := h.codec_after codec

theorem Binder.operand_bound {o : Operand} {p : Property} {t : String}
    (h : (codec.binder schema).operand o p d = .ok (t, d')) (hd : d'.Within s) (hs : s.Worded) :
    ∃ w, o.wire? (codec.after d) s.valueTable schema p = some w ∧ s.value? t = some w := by
  cases o with
  | value v =>
    obtain ⟨b, hb, rfl, rfl⟩ := Binder.value_ok_iff.mp h
    obtain ⟨w, hw, hv⟩ := hd.values _ (List.mem_append_right _ List.mem_cons_self)
    exact ⟨w, Codec.settle?_eq hb hw, hv⟩
  | placeholder token =>
    unfold Binder.operand at h
    dsimp only at h
    split at h
    · next hc =>
      obtain ⟨rfl, w, hw⟩ := Draft.reuse_bound h hc hd hs
      exact ⟨w, hw, hw⟩
    · exact absurd h Drafting.throw_ok

theorem Binder.operands_bound {p : Property} {operands : List Operand} :
    ∀ {d d' : Draft} {ts : List String},
      (operands.mapM fun o => (codec.binder schema).operand o p) d = .ok (ts, d') →
      d'.Within s → s.Worded →
      ∃ ws, Operand.wires? (codec.after d) s.valueTable schema p operands = some ws ∧
        List.Forall₂ (fun t w => s.value? t = some w) ts ws ∧ ts.length = operands.length := by
  induction operands with
  | nil =>
    intro d d' ts h _ _
    cases h
    exact ⟨[], rfl, .nil, rfl⟩
  | cons o operands ih =>
    intro d d' ts h hd hs
    rw [List.mapM_cons] at h
    obtain ⟨t, d₁, ht, h₁⟩ := Drafting.bind_ok.mp h
    obtain ⟨ts', d₂, hts, h₂⟩ := Drafting.bind_ok.mp h₁
    obtain ⟨rfl, rfl⟩ := Drafting.pure_ok.mp h₂
    have hg := Drafting.Minting.mapM (fun o =>
      (codec.binder schema).operand_minting o p) operands hts
    obtain ⟨w, hw, hv⟩ := Binder.operand_bound ht (hd.of_grows hg) hs
    obtain ⟨ws, hws, hvs, hlen⟩ := ih hts hd hs
    rw [((codec.binder schema).operand_binds o p ht).codec_after] at hws
    refine ⟨w :: ws, ?_, .cons hv hvs, by rw [List.length_cons, List.length_cons, hlen]⟩
    rw [Operand.wires?, hw]
    simp [hws]

/-! ## Comparisons and calls -/

theorem Grammar.Atom.resolve_comparison {names : Keyed String} {values : Keyed WireValue}
    {x : Item String String} {ys : List (Item String String)} {x' : Item String WireValue}
    {ys' : List (Item String WireValue)} (op : Operator) (hx : x.resolve names values = some x')
    (hys : ys.mapM (Item.resolve names values) = some ys') :
    (Atom.comparison x op ys).resolve names values = some (.comparison x' op ys') := by
  cases op with
  | beginsWith | contains =>
    simp only [Atom.comparison, Atom.resolve, List.mapM_cons, hx, hys]
    rfl
  | _ =>
    simp only [Atom.comparison, Atom.resolve, hx, hys]
    rfl

theorem Scope.resolve_values {ts : List String} {ws : List WireValue}
    (h : List.Forall₂ (fun t w => s.value? t = some w) ts ws) :
    (ts.map .value).mapM (Item.resolve s.nameTable s.valueTable) = some (ws.map .value) := by
  rw [mapM_eq_some_iff, List.forall₂_map_left_iff, List.forall₂_map_right_iff]
  refine h.imp fun t w hw => ?_
  rw [Item.resolve, show s.valueTable.find? t = some w from hw]
  rfl

/-- Placeholders that are bound to values are value placeholders. -/
theorem Scope.Worded.tokens (hs : s.Worded) {ts : List String} {ws : List WireValue}
    (h : List.Forall₂ (fun t w => s.value? t = some w) ts ws) : ∀ t ∈ ts, IsToken ':' t := by
  induction h with
  | nil => exact fun t ht => absurd ht List.not_mem_nil
  | cons hw _ ih => exact List.forall_mem_cons.mpr ⟨hs.values _ _ hw, ih⟩

namespace Predicate

/-- What is behind a comparison that has been translated. -/
theorem comparison_bound {subject : Subject} {op : Operator} {operands : List Operand}
    {c : Condition}
    (h : comparison (codec.binder schema) schema subject op operands d = .ok (c, d'))
    (hd : d'.Within s) (hs : s.Worded) :
    c.Readable ∧ ∃ x ys a,
      compared? (codec.after d) s.valueTable schema subject operands = some (x, ys) ∧
      op.arity.Admits ys.length ∧ c.formula = .atom a ∧
      a.resolve s.nameTable s.valueTable = some (.comparison x op ys) := by
  obtain ⟨ha, p, name, d₁, ts, hp, hname, hts, rfl⟩ := comparison_ok h
  have hg := Drafting.Minting.mapM (fun o => (codec.binder schema).operand_minting o _) operands hts
  have hn := Draft.bindName_bound hname (hd.of_grows hg)
  obtain ⟨ws, hws, hvs, hlen⟩ := Binder.operands_bound hts hd hs
  rw [(Draft.bindName_binds (codec.binder schema) _ hname).codec_after_nil] at hws
  have htoken : (subject.compared name).token = name := by cases subject <;> rfl
  have hitem : (subject.compared name).item.resolve s.nameTable s.valueTable
      = some (subject.item p.wireName) := by
    cases subject <;> exact congrArg (Option.map _) hn
  refine ⟨⟨?_, ?_, hs.tokens hvs⟩, subject.item p.wireName, ws.map .value, _, ?_, ?_, rfl, ?_⟩
  · rw [htoken]
    exact hs.names name _ hn
  · rwa [hlen]
  · simp only [compared?, hp, Except.toOption, Option.bind_eq_bind, Option.bind_some, hws]
    rfl
  · rwa [List.length_map, ← hvs.length_eq, hlen]
  · exact Atom.resolve_comparison op hitem (s.resolve_values hvs)

/-- What is behind a call that has been translated. -/
theorem invocation_bound {f : Builtin} {arguments : List Argument} {c : Condition}
    (h : invocation (codec.binder schema) schema f arguments d = .ok (c, d')) (hd : d'.Within s)
    (hs : s.Worded) :
    c.Readable ∧ ∃ xs a, called? (codec.after d) s.valueTable schema f arguments = some xs ∧
      c.formula = .atom a ∧ a.resolve s.nameTable s.valueTable = some (.call f xs) := by
  obtain ⟨hf, property, p, name, d₁, hp, hname, hrest⟩ := invocation_ok h
  have hattribute (hn : s.attribute? name = some p.wireName) :
      (Item.attribute name).resolve s.nameTable s.valueTable = some (.attribute p.wireName) :=
    congrArg (Option.map _) hn
  rcases hrest with ⟨rfl, rfl, rfl⟩ | ⟨o, t, rfl, ht, rfl⟩
  · have hn := Draft.bindName_bound hname hd
    refine ⟨⟨hf, hs.names name _ hn, fun t ht => by cases ht⟩,
      [.attribute p.wireName], _, ?_, rfl, ?_⟩
    · rw [called?, hp]
      rfl
    · rw [Atom.resolve, Option.toList_none, List.map_nil, List.mapM_cons, hattribute hn]
      rfl
  · have hn := Draft.bindName_bound hname
      (hd.of_grows ((codec.binder schema).operand_minting o _ ht))
    obtain ⟨w, hw, hv⟩ := Binder.operand_bound ht hd hs
    rw [(Draft.bindName_binds (codec.binder schema) _ hname).codec_after_nil] at hw
    refine ⟨⟨hf, hs.names name _ hn, fun t' ht' => ?_⟩,
      [.attribute p.wireName, .value w], _, ?_, rfl, ?_⟩
    · cases ht'
      exact hs.values t w hv
    · simp only [called?, hp, Except.toOption, Option.bind_eq_bind, Option.bind_some, hw]
      rfl
    · have hvalue : (Item.value t).resolve s.nameTable s.valueTable = some (.value w) :=
        congrArg (Option.map _) hv
      rw [Atom.resolve, Option.toList_some, List.map_cons, List.map_nil, List.mapM_cons,
        List.mapM_cons, hattribute hn, hvalue]
      rfl

end Predicate

/-! ## Truth values -/

/-- The truth value of a junction of parts with these truth values. -/
def Connective.combine (c : Connective) (vs : List Bool) : Bool :=
  match c with
  | .and => vs.all id
  | .or => vs.any id

theorem Grammar.Formula.holds_connect {names : Keyed String} {values : Keyed WireValue}
    {ρ : Valuation} (c : Connective) {f g : Written} {v : Bool} {vs : List Bool}
    (hf : f.holds names values ρ = some v) (hg : g.holds names values ρ = some (c.combine vs)) :
    (Formula.connect c f g).holds names values ρ = some (c.combine (v :: vs)) := by
  cases c with
  | and =>
    rw [Formula.connect, Formula.holds, hf, hg]
    rfl
  | or =>
    rw [Formula.connect, Formula.holds, hf, hg]
    rfl

theorem Connective.combine_singleton (c : Connective) (v : Bool) : c.combine [v] = v := by
  cases c <;> simp [combine]

/-- Where negation is what it should be, the condition has the truth value that is given. -/
structure Condition.Says (c : Condition) (s : Scope) (m : Valuation → Option Bool) : Prop where
  readable : c.Readable
  holds : ∀ ρ, Complementary ρ →
    ∃ v, m ρ = some v ∧ c.formula.holds s.nameTable s.valueTable ρ = some v

namespace Condition.Says

variable {c : Condition} {m m' : Valuation → Option Bool}

theorem congr (h : c.Says s m) (hm : ∀ ρ, Complementary ρ → m' ρ = m ρ) : c.Says s m' where
  readable := h.readable
  holds := by
    intro ρ hρ
    rw [hm ρ hρ]
    exact h.holds ρ hρ

theorem atom {a : Atom String String} {b : Atom String WireValue} (hr : c.Readable)
    (ha : c.formula = .atom a) (hb : a.resolve s.nameTable s.valueTable = some b) :
    c.Says s fun ρ => some (ρ b) where
  readable := hr
  holds := by
    intro ρ _
    refine ⟨ρ b, rfl, ?_⟩
    rw [ha, Formula.holds, hb]
    rfl

theorem not (h : c.Says s m) : (Condition.not c).Says s fun ρ => (m ρ).map (!·) where
  readable := h.readable
  holds := by
    intro ρ hρ
    obtain ⟨v, hm, hc⟩ := h.holds ρ hρ
    refine ⟨!v, by rw [hm]; rfl, ?_⟩
    rw [Condition.formula, Formula.holds, hc]
    rfl

theorem negatedIf (negate : Bool) (h : c.Says s m) :
    (c.negatedIf negate).Says s fun ρ => (m ρ).map (negate ^^ ·) := by
  cases negate with
  | true => exact h.not.congr fun ρ _ => by simp
  | false => exact h.congr fun ρ _ => by simp

end Condition.Says

/-! ## Negation -/

/-- An operator and its inverse never hold both, and one of them does. -/
theorem Complementary.inverse {ρ : Valuation} (h : Complementary ρ) {op opposite : Operator}
    (ho : op.inverse? = some opposite) {x : Item String WireValue}
    {ys : List (Item String WireValue)} (ha : op.arity.Admits ys.length) :
    ρ (.comparison x opposite ys) = !ρ (.comparison x op ys) := by
  cases op with
  | between | beginsWith | contains | among => cases ho
  | _ =>
    cases ho
    obtain ⟨y, rfl⟩ := List.length_eq_one_iff.mp ha
    simp [Atom.comparison, h.equal, h.less, h.greater]

/-- So it is with the functions that have an opposite. -/
theorem Complementary.opposite {ρ : Valuation} (h : Complementary ρ) {f opposite : Builtin}
    (ho : f.negation = .inverted opposite) (xs : List (Item String WireValue)) :
    ρ (.call opposite xs) = !ρ (.call f xs) := by
  cases f with
  | attributeExists | attributeNotExists =>
    cases ho
    simp [h.present]
  | _ => cases ho

namespace Operator

theorem inverse?_of_inverted {op opposite : Operator} (h : op.negation = .inverted opposite) :
    op.inverse? = some opposite := by
  unfold negation at h
  split at h
  · next he =>
    cases h
    exact he
  · split at h <;> cases h

end Operator

namespace Predicate

theorem comparison_sound {subject : Subject} {op : Operator} {operands : List Operand}
    {c : Condition}
    (h : comparison (codec.binder schema) schema subject op operands d = .ok (c, d'))
    (hd : d'.Within s) (hs : s.Worded) :
    c.Says s fun ρ =>
      holds (codec.after d) s.valueTable schema ρ (.compare subject op operands) := by
  obtain ⟨hr, x, ys, a, hc, -, ha, hb⟩ := comparison_bound h hd hs
  refine (Condition.Says.atom hr ha hb).congr fun ρ _ => ?_
  rw [holds, hc]
  rfl

/-- A comparison that is negated turns into the opposite one, or is put behind `NOT`. -/
theorem comparisonOrNot_sound {negate : Bool} {subject : Subject} {op : Operator}
    {operands : List Operand} {c : Condition}
    (h : comparisonOrNot (codec.binder schema) schema negate subject op operands d = .ok (c, d'))
    (hd : d'.Within s) (hs : s.Worded) :
    c.Says s fun ρ =>
      (holds (codec.after d) s.valueTable schema ρ (.compare subject op operands)).map
        (negate ^^ ·) := by
  obtain ⟨rfl, hc⟩ | ⟨opposite, rfl, ho, hc⟩ | ⟨c', rfl, hc, rfl⟩ := comparisonOrNot_ok h
  · exact (comparison_sound hc hd hs).congr fun ρ _ => by simp
  · have hi := Operator.inverse?_of_inverted ho
    obtain ⟨hr, x, ys, a, hx, harity, ha, hb⟩ := comparison_bound hc hd hs
    rw [Operator.arity_inverse hi] at harity
    refine (Condition.Says.atom hr ha hb).congr fun ρ hρ => ?_
    rw [holds, hx, hρ.inverse hi harity]
    simp
  · exact (comparison_sound hc hd hs).not.congr fun ρ _ => by simp

/-- A function and its opposite are called with the same. -/
theorem called?_opposite {values : Keyed WireValue} {f opposite : Builtin}
    (ho : f.negation = .inverted opposite) (arguments : List Argument) :
    called? codec values schema opposite arguments = called? codec values schema f arguments := by
  cases f with
  | attributeExists | attributeNotExists =>
    cases ho
    rfl
  | _ => cases ho

theorem invocation_sound {f : Builtin} {arguments : List Argument} {c : Condition}
    (h : invocation (codec.binder schema) schema f arguments d = .ok (c, d')) (hd : d'.Within s)
    (hs : s.Worded) :
    c.Says s fun ρ => holds (codec.after d) s.valueTable schema ρ (.call f arguments) := by
  obtain ⟨hr, xs, a, hc, ha, hb⟩ := invocation_bound h hd hs
  refine (Condition.Says.atom hr ha hb).congr fun ρ _ => ?_
  rw [holds, hc]
  rfl

/-- A call that is negated turns into the opposite one, or is put behind `NOT`. -/
theorem invocationOrNot_sound {negate : Bool} {f : Builtin} {arguments : List Argument}
    {c : Condition}
    (h : invocationOrNot (codec.binder schema) schema negate f arguments d = .ok (c, d'))
    (hd : d'.Within s) (hs : s.Worded) :
    c.Says s fun ρ =>
      (holds (codec.after d) s.valueTable schema ρ (.call f arguments)).map (negate ^^ ·) := by
  obtain ⟨rfl, hc⟩ | ⟨opposite, rfl, ho, hc⟩ | ⟨c', rfl, hc, rfl⟩ := invocationOrNot_ok h
  · exact (invocation_sound hc hd hs).congr fun ρ _ => by simp
  · obtain ⟨hr, xs, a, hx, ha, hb⟩ := invocation_bound hc hd hs
    refine (Condition.Says.atom hr ha hb).congr fun ρ hρ => ?_
    rw [called?_opposite ho] at hx
    rw [holds, hx, hρ.opposite ho]
    simp
  · exact (invocation_sound hc hd hs).not.congr fun ρ _ => by simp

/-! ## Trees -/

mutual

theorem translate_sound (kind : ClauseKind) (hs : s.Worded) :
    ∀ (p : Predicate) {negate : Bool} {c : Condition} {d d' : Draft},
      translate (codec.binder schema) schema kind negate p d = .ok (c, d') → d'.Within s →
      c.Says s fun ρ => (holds (codec.after d) s.valueTable schema ρ p).map (negate ^^ ·)
  | .compare subject op operands, negate, c, d, d', h, hd => by
    rw [translate] at h
    obtain ⟨_, d₁, hcheck, h₁⟩ := Drafting.bind_ok.mp h
    have hafter :=
      (checkComparison_binds (codec.binder schema) kind subject op hcheck).codec_after_nil
    have hsays := comparisonOrNot_sound h₁ hd hs
    rwa [hafter] at hsays
  | .call f arguments, negate, c, d, d', h, hd => by
    rw [translate] at h
    exact invocationOrNot_sound (Drafting.refuse_ok h).2 hd hs
  | .and parts, negate, c, d, d', h, hd => by
    rw [translate] at h
    refine (junction_sound kind hs .and parts h hd).congr fun ρ _ => ?_
    rw [holds, Option.map_map]
    rfl
  | .or parts, negate, c, d, d', h, hd => by
    rw [translate] at h
    refine (junction_sound kind hs .or parts (Drafting.refuse_ok h).2 hd).congr fun ρ _ => ?_
    rw [holds, Option.map_map]
    rfl
  | .not p, negate, c, d, d', h, hd => by
    rw [translate] at h
    refine (translate_sound kind hs p (Drafting.refuse_ok h).2 hd).congr fun ρ _ => ?_
    rw [holds, Option.map_map]
    congr 1
    funext v
    cases negate <;> cases v <;> rfl

theorem junction_sound (kind : ClauseKind) (hs : s.Worded) (k : Connective) :
    ∀ (parts : List Predicate) {negate : Bool} {c : Condition} {d d' : Draft},
      junction (codec.binder schema) schema kind negate k parts d = .ok (c, d') → d'.Within s →
      c.Says s fun ρ =>
        (holdEach (codec.after d) s.valueTable schema ρ parts).map (negate ^^ k.combine ·)
  | [], negate, c, d, d', h, hd => by
    rw [junction] at h
    exact absurd h Drafting.throw_ok
  | [p], negate, c, d, d', h, hd => by
    rw [junction] at h
    refine (translate_sound kind hs p h hd).congr fun ρ _ => ?_
    rw [holdEach, holdEach]
    cases holds (codec.after d) s.valueTable schema ρ p with
    | none => rfl
    -- A junction of one part is the part, negation included.
    | some v => exact congrArg (fun v => some (negate ^^ v)) (k.combine_singleton v)
  | p :: q :: rest, negate, c, d, d', h, hd => by
    rw [junction] at h
    · obtain ⟨first, d₁, hfirst, h₁⟩ := Drafting.bind_ok.mp h
      obtain ⟨others, d₂, hothers, h₂⟩ := Drafting.bind_ok.mp h₁
      obtain ⟨rfl, rfl⟩ := Drafting.pure_ok.mp h₂
      have hg := translateAll_minting (codec.binder schema) schema kind (q :: rest) hothers
      have hp : first.Says s fun ρ => holds (codec.after d) s.valueTable schema ρ p :=
        (translate_sound kind hs p hfirst (hd.of_grows hg)).congr fun ρ _ => by simp
      obtain ⟨hreadable, hholds⟩ := translateAll_sound kind hs (q :: rest) hothers hd
      have hjoin : (Condition.join k first others).Says s
          fun ρ => (holdEach (codec.after d) s.valueTable schema ρ (p :: q :: rest)).map
            k.combine := by
        refine ⟨⟨hp.readable, hreadable⟩, fun ρ hρ => ?_⟩
        obtain ⟨v, hv, hf⟩ := hp.holds ρ hρ
        obtain ⟨vs, hvs, hall⟩ := hholds ρ hρ
        refine ⟨k.combine (v :: vs), ?_, ?_⟩
        · rw [(translate_binds _ schema kind false p hfirst).codec_after] at hvs
          rw [holdEach, hv]
          simp [hvs]
        · rw [Condition.formula]
          exact hall k hf
      refine (hjoin.negatedIf negate).congr fun ρ _ => ?_
      rw [Option.map_map]
      rfl
    · simp

/-- The parts of a junction behind a part that has been translated. -/
theorem translateAll_sound (kind : ClauseKind) (hs : s.Worded) :
    ∀ (parts : List Predicate) {cs : List Condition} {d d' : Draft},
      translateAll (codec.binder schema) schema kind parts d = .ok (cs, d') → d'.Within s →
      Condition.AllReadable cs ∧ ∀ ρ, Complementary ρ → ∃ vs,
        holdEach (codec.after d) s.valueTable schema ρ parts = some vs ∧
        ∀ (k : Connective) {f : Written} {v : Bool},
          f.holds s.nameTable s.valueTable ρ = some v →
          (Condition.junctionFormula k f cs).holds s.nameTable s.valueTable ρ
            = some (k.combine (v :: vs))
  | [], cs, d, d', h, hd => by
    rw [translateAll] at h
    obtain ⟨rfl, rfl⟩ := Drafting.pure_ok.mp h
    refine ⟨trivial, fun ρ _ => ⟨[], rfl, fun k f v hf => ?_⟩⟩
    rw [Condition.junctionFormula, hf, k.combine_singleton]
  | p :: rest, cs, d, d', h, hd => by
    rw [translateAll] at h
    obtain ⟨first, d₁, hfirst, h₁⟩ := Drafting.bind_ok.mp h
    obtain ⟨others, d₂, hothers, h₂⟩ := Drafting.bind_ok.mp h₁
    obtain ⟨rfl, rfl⟩ := Drafting.pure_ok.mp h₂
    have hg := translateAll_minting (codec.binder schema) schema kind rest hothers
    have hp : first.Says s fun ρ => holds (codec.after d) s.valueTable schema ρ p :=
      (translate_sound kind hs p hfirst (hd.of_grows hg)).congr fun ρ _ => by simp
    obtain ⟨hreadable, hholds⟩ := translateAll_sound kind hs rest hothers hd
    refine ⟨⟨hp.readable, hreadable⟩, fun ρ hρ => ?_⟩
    obtain ⟨v, hv, hf⟩ := hp.holds ρ hρ
    obtain ⟨vs, hvs, hall⟩ := hholds ρ hρ
    refine ⟨v :: vs, ?_, fun k f u hu => ?_⟩
    · rw [(translate_binds _ schema kind false p hfirst).codec_after] at hvs
      rw [holdEach, hv]
      simp [hvs]
    · rw [Condition.junctionFormula]
      exact Formula.holds_connect k hu (hall k hf)

end

end Predicate

end Clauses
