import Clauses.Proofs.Renumbering
import Clauses.Proofs.Reuse

/-!
# The order of placeholders in a text

Placeholders are numbered while a clause is made, and the text of the clause is put together
afterwards. Where the clause is made of properties and values, both go through it in one order: read
from left to right, the placeholders of a kind in the text are those that the clause has minted of
this kind, from the first to the last, and each of them stands in the text once. The names among
them stand for the attributes of the properties that the clause mentions, in the order of the text.

* `Condition.chars_placeholders`, `Change.groups_placeholders` — the placeholders of a text
* `Draft.Mints` — the placeholders that have been minted from one draft to the other, in order
* `Drafting.InOrder` — what a step comes to is written with the placeholders that it mints, in order
* `Compiler.numbering_follows_text` — the numbers of placeholders follow the text
-/

namespace Clauses

open Drafting

/-! ## Placeholders of texts -/

namespace Text

/-- The placeholders of one kind, by its sigil. -/
def ofKind (sigil : Char) (tokens : List String) : List String :=
  tokens.filter fun t => t.toList.head? == some sigil

/-- The text has these placeholders, in front of everything that ends its last word. -/
abbrev Mentions (s : List Char) (tokens : List String) : Prop := Gives placeholders s tokens

variable {s s' : List Char} {tokens tokens' : List String}

/-- What has no sigils has no placeholders. -/
theorem placeholders_plain {t : List Char} (h : t.any isSigil = false) :
    GivesAnywhere placeholders t [] := by
  intro rest
  induction t with
  | nil => rfl
  | cons c t ih =>
    rw [List.any_cons, Bool.or_eq_false_iff] at h
    have hn : c ≠ '#' ∧ c ≠ ':' := by simpa [isSigil] using h.1
    rw [List.cons_append, placeholders_cons hn.1 hn.2, ih h.2]

theorem mentions_token {t : String} (h : IsPlaceholder t) : Mentions t.toList [t] :=
  fun _ hr => h.placeholders hr

theorem Mentions.placeholders_eq (h : Mentions s tokens) : placeholders s = tokens := by
  have hall := h [] .nil
  rwa [List.append_nil, placeholders, List.append_nil] at hall

theorem Mentions.behind {t : List Char} (ht : t.any isSigil = false) (h : Mentions s tokens) :
    Mentions (t ++ s) tokens :=
  (placeholders_plain ht).append_gives h

/-- Two texts with something between them that ends a word. -/
theorem Mentions.append {c : Char} {sep : List Char} (hc : isWordChar c = false)
    (hsep : (c :: sep).any isSigil = false) (h : Mentions s tokens) (h' : Mentions s' tokens') :
    Mentions (s ++ c :: sep ++ s') (tokens ++ tokens') := by
  have hs : GivesAnywhere placeholders (s ++ c :: sep) (tokens ++ []) :=
    Gives.append h (placeholders_plain hsep) hc
  rw [List.append_nil] at hs
  exact hs.append_gives h'

theorem Mentions.bracketed (h : Mentions s tokens) : Mentions (bracketed s) tokens := by
  have hs := Gives.bracketed (placeholders_plain rfl) h (placeholders_plain rfl)
  rw [List.nil_append, List.append_nil] at hs
  exact hs.gives

/-- The texts have these placeholders, one text after the other. -/
inductive MentionEach : List (List Char) → List String → Prop where
  | nil : MentionEach [] []
  | cons {s : List Char} {ss : List (List Char)} {tokens tokens' : List String}
    (h : Mentions s tokens)
    (hs : MentionEach ss tokens') : MentionEach (s :: ss) (tokens ++ tokens')

theorem MentionEach.map {α : Type} {f : α → List Char} {g : α → List String} {as : List α}
    (h : ∀ a ∈ as, Mentions (f a) (g a)) : MentionEach (as.map f) (as.flatMap g) := by
  induction as with
  | nil => exact .nil
  | cons a as ih =>
    obtain ⟨ha, has⟩ := List.forall_mem_cons.mp h
    exact .cons ha (ih has)

theorem MentionEach.of_tokens {ts : List String} (h : ∀ t ∈ ts, IsPlaceholder t) :
    MentionEach (ts.map String.toList) ts := by
  have hts := MentionEach.map (g := fun t => [t]) fun t ht => mentions_token (h t ht)
  rwa [List.flatMap_singleton'] at hts

/-- Texts with something between them that ends a word. -/
theorem MentionEach.intercalate {c : Char} {sep : List Char} (hc : isWordChar c = false)
    (hsep : (c :: sep).any isSigil = false) {ss : List (List Char)} (h : MentionEach ss tokens) :
    Mentions ((c :: sep).intercalate ss) tokens := by
  induction h with
  | nil => exact fun rest _ => rfl
  | cons hs hss ih =>
    cases hss with
    | nil =>
      rw [List.intercalate_singleton, List.append_nil]
      exact hs
    | cons =>
      rw [List.intercalate_cons_cons]
      exact hs.append hc hsep ih

theorem MentionEach.commas {ss : List (List Char)} (h : MentionEach ss tokens) :
    Mentions (comma.intercalate ss) tokens :=
  h.intercalate rfl rfl

/-- A function with its arguments. -/
theorem MentionEach.call (f : Builtin) {ss : List (List Char)} (h : MentionEach ss tokens) :
    Mentions (Condition.callChars f ss) tokens :=
  h.commas.bracketed.behind (by cases f <;> rfl)

end Text

open Text (Mentions MentionEach)

/-! ### Conditions -/

namespace Condition

theorem compared_placeholders {left : Compared} (h : IsPlaceholder left.token) :
    Mentions left.chars [left.token] := by
  rcases left with name | name
  · exact Text.mentions_token h
  · exact (Text.mentions_token (t := name) h).bracketed.behind rfl

theorem compareChars_placeholders (op : Operator) {left : Compared} {values : List String}
    (hl : IsPlaceholder left.token) (hv : ∀ t ∈ values, IsPlaceholder t) :
    Mentions (compareChars left.chars op (values.map String.toList)) (left.token :: values) := by
  have hleft := compared_placeholders hl
  have hvalues := MentionEach.of_tokens hv
  have hop := Text.any_isSigil_operator op
  cases op with
  | between =>
    exact hleft.append rfl hop (hvalues.intercalate rfl (Text.any_isSigil_connective .and))
  | among => exact hleft.append rfl hop hvalues.commas.bracketed
  | beginsWith => exact (MentionEach.cons hleft hvalues).call .beginsWith
  | contains => exact (MentionEach.cons hleft hvalues).call .contains
  | _ => exact hleft.append rfl hop hvalues.commas

mutual

/-- The placeholders of the text of a condition are those of the condition. -/
theorem chars_placeholders : ∀ c : Condition, (∀ t ∈ c.tokens, IsPlaceholder t) →
    Mentions c.chars c.tokens
  | .compare left op values, h => by
    rw [tokens, List.forall_mem_cons] at h
    exact compareChars_placeholders op h.1 h.2
  | .call f name value, h => by
    rw [chars, ← List.map_cons]
    exact (MentionEach.of_tokens h).call f
  | .join c first others, h => by
    rw [tokens, List.forall_mem_append] at h
    have hfirst := (chars_placeholders first h.1).bracketed
    rw [chars, tokens]
    exact (MentionEach.cons hfirst (partsChars_placeholders others h.2)).intercalate rfl
      (Text.any_isSigil_connective c)
  | .not c, h => by
    have hc := chars_placeholders c h
    rw [chars, tokens]
    split
    · exact hc.behind rfl
    · exact hc.bracketed.behind rfl

/-- So are those of the parts of a junction. -/
theorem partsChars_placeholders : ∀ cs : List Condition, (∀ t ∈ partsTokens cs, IsPlaceholder t) →
    MentionEach (partsChars cs) (partsTokens cs)
  | [], _ => .nil
  | c :: rest, h => by
    rw [partsTokens, List.forall_mem_append] at h
    exact .cons (chars_placeholders c h.1).bracketed (partsChars_placeholders rest h.2)

end

end Condition

/-! ### Changes -/

theorem Term.chars_placeholders : ∀ term : Term, (∀ t ∈ term.tokens, IsPlaceholder t) →
    Mentions term.chars term.tokens
  | .attribute name, h => Text.mentions_token (h name List.mem_cons_self)
  | .bound value, h => Text.mentions_token (h value List.mem_cons_self)
  | .ifNotExists name value, h => (MentionEach.of_tokens h).call .ifNotExists
  | .listAppend a b, h => by
    rw [tokens, List.forall_mem_append] at h
    have hb : MentionEach [b.chars] (b.tokens ++ []) := .cons (chars_placeholders b h.2) .nil
    rw [List.append_nil] at hb
    exact (MentionEach.cons (chars_placeholders a h.1) hb).call .listAppend
  | .plus a b, h => by
    rw [tokens, List.forall_mem_append] at h
    exact (chars_placeholders a h.1).append rfl rfl (chars_placeholders b h.2)
  | .minus a b, h => by
    rw [tokens, List.forall_mem_append] at h
    exact (chars_placeholders a h.1).append rfl rfl (chars_placeholders b h.2)

namespace Change

theorem chars_placeholders (c : Change) (h : ∀ t ∈ c.tokens, IsPlaceholder t) :
    Mentions c.chars c.tokens := by
  cases c with
  | set name term =>
    rw [tokens, List.forall_mem_cons] at h
    exact (Text.mentions_token h.1).append rfl rfl (term.chars_placeholders h.2)
  | remove name => exact Text.mentions_token (h name List.mem_cons_self)
  | apply name value =>
    obtain ⟨hname, hvalue⟩ := List.forall_mem_cons.mp h
    have htext : Mentions (name.toList ++ [' '] ++ value.toList) ([name] ++ [value]) :=
      (Text.mentions_token hname).append rfl rfl
        (Text.mentions_token (hvalue value List.mem_cons_self))
    rwa [List.append_assoc] at htext

theorem group_placeholders (keyword : UpdateKeyword) {changes : List Change}
    (h : ∀ c ∈ changes, ∀ t ∈ c.tokens, IsPlaceholder t) :
    Mentions (groupChars keyword changes) (changes.flatMap tokens) := by
  have hkeyword : (keyword.text.toList ++ [' ']).any Text.isSigil = false := by
    cases keyword <;> rfl
  have hchanges := MentionEach.map fun c hc => chars_placeholders c (h c hc)
  have htext := hchanges.commas.behind hkeyword
  rwa [List.append_assoc] at htext

/-- The placeholders of the text of an update are those of its changes, group by group. -/
theorem groups_placeholders {groups : List (UpdateKeyword × List Change)}
    (h : ∀ g ∈ groups, ∀ c ∈ g.2, ∀ t ∈ c.tokens, IsPlaceholder t) :
    Mentions (groupsChars groups) (groups.flatMap fun g => g.2.flatMap tokens) :=
  (MentionEach.map fun g hg => group_placeholders g.1 (h g hg)).intercalate rfl rfl

end Change

/-! ## What clauses mention -/

/-- The property of this name is stored under this attribute. -/
def Schema.Stores (schema : Schema) (name attributeName : String) : Prop :=
  ∃ p, schema.resolve name = .ok p ∧ p.wireName = attributeName

/-- The property in an argument. -/
def Argument.mentioned : Argument → List String
  | .property name => [name]
  | .operand _ => []

namespace Predicate

mutual

/-- The properties that a predicate mentions, from left to right. -/
def mentioned : Predicate → List String
  | .compare subject _ _ => [subject.propertyName]
  | .call _ arguments => arguments.flatMap Argument.mentioned
  | .and parts | .or parts => partsMentioned parts
  | .not p => mentioned p

/-- The properties that the parts of a junction mention. -/
def partsMentioned : List Predicate → List String
  | [] => []
  | p :: rest => mentioned p ++ partsMentioned rest

end

end Predicate

/-- The properties that stand in what a property is set to. -/
def SetValue.mentioned : SetValue → List String
  | .operand _ => []
  | .property name => [name]
  | .plus x y | .minus x y | .listAppend x y => x.mentioned ++ y.mentioned
  | .ifNotExists name _ => [name]

/-- The properties that an action mentions, the changed one first. -/
def Action.mentioned : Action → List String
  | .set name value => name :: value.mentioned
  | .remove name | .add name _ | .delete name _ => [name]

/-- The properties that an update mentions, group by group as it is written. -/
def Update.mentioned (u : Update) : List String :=
  u.keywords.flatMap fun keyword => (u.under keyword).flatMap Action.mentioned

/-- The attributes of the properties that a clause mentions, in the order of its text. -/
def Source.Mentions : Source → List String → Prop
  | .predicate _ schema p, attributes => List.Forall₂ schema.Stores p.mentioned attributes
  | .template _ _ _ _, _ => False
  | .update schema u, attributes => List.Forall₂ schema.Stores u.mentioned attributes
  | .projection schema properties, attributes => List.Forall₂ schema.Stores properties attributes

/-! ## Placeholders in the order in which they are minted -/

/-- The draft `d'` is reached from `d` by minting these tokens, with names for these properties. -/
inductive Draft.Mints (schema : Schema) (d : Draft) :
    (mentioned tokens : List String) → Draft → Prop where
  | nil : Mints schema d [] [] d
  | name {mentioned tokens : List String} {d' : Draft} {name : String} {p : Property}
    (hp : schema.resolve name = .ok p) (h : Mints schema d mentioned tokens d') :
    Mints schema d (mentioned ++ [name]) (tokens ++ [d'.nextName])
      { d' with names := d'.names ++ [(d'.nextName, p.wireName)] }
  | value {mentioned tokens : List String} {d' : Draft} (b : Binding)
    (h : Mints schema d mentioned tokens d') :
    Mints schema d mentioned (tokens ++ [d'.nextValue])
      { d' with bindings := d'.bindings ++ [(d'.nextValue, b)] }

namespace Draft.Mints

variable {schema : Schema} {d d' d'' : Draft} {mentioned mentioned' tokens tokens' : List String}

theorem trans (h : d.Mints schema mentioned tokens d')
    (h' : d'.Mints schema mentioned' tokens' d'') :
    d.Mints schema (mentioned ++ mentioned') (tokens ++ tokens') d'' := by
  induction h' with
  | nil =>
    rw [List.append_nil, List.append_nil]
    exact h
  | name hp _ ih =>
    rw [← List.append_assoc, ← List.append_assoc]
    exact ih.name hp
  | value b _ ih =>
    rw [← List.append_assoc]
    exact ih.value b

theorem scope_eq (h : d.Mints schema mentioned tokens d') : d'.scope = d.scope := by
  induction h with
  | nil => rfl
  | name _ _ ih | value _ _ ih => exact ih

theorem isPlaceholder (h : d.Mints schema mentioned tokens d') (hs : d.scope.HasWordPrefixes) :
    ∀ t ∈ tokens, IsPlaceholder t := by
  induction h with
  | nil => exact List.forall_mem_nil _
  | name _ h ih =>
    rw [← h.scope_eq] at hs
    exact List.forall_mem_append.mpr
      ⟨ih, List.forall_mem_singleton.mpr (Draft.isPlaceholder_nextName hs)⟩
  | value _ h ih =>
    rw [← h.scope_eq] at hs
    exact List.forall_mem_append.mpr
      ⟨ih, List.forall_mem_singleton.mpr (Draft.isPlaceholder_nextValue hs)⟩

/-- The tokens are the placeholders that have come to the draft, each kind in order. -/
theorem keys (h : d.Mints schema mentioned tokens d') :
    d'.names.map Prod.fst = d.names.map Prod.fst ++ Text.ofKind '#' tokens ∧
      d'.bindings.map Prod.fst = d.bindings.map Prod.fst ++ Text.ofKind ':' tokens := by
  induction h with
  | nil => simp [Text.ofKind]
  | @name mentioned tokens d' name p _ _ ih =>
    have hsigil : d'.nextName.toList.head? = some '#' := Scope.head?_nameToken _ _
    simp [Text.ofKind, List.filter_append, hsigil, ih.1, ih.2]
  | @value mentioned tokens d' b _ ih =>
    have hsigil : d'.nextValue.toList.head? = some ':' := Scope.head?_valueToken _ _
    simp [Text.ofKind, List.filter_append, hsigil, ih.1, ih.2]

/-- The names stand for the attributes of the properties that have been mentioned. -/
theorem attributes {s : Scope} (h : (Draft.on s).Mints schema mentioned tokens d') :
    List.Forall₂ schema.Stores mentioned (d'.names.map Prod.snd) := by
  induction h with
  | nil => exact .nil
  | name hp _ ih =>
    rw [List.map_append]
    exact List.rel_append ih (.cons ⟨_, hp, rfl⟩ .nil)
  | value _ _ ih => exact ih

end Draft.Mints

/-! ## Steps that write what they mint -/

/--
Behind the tokens that have been written before, the step writes those that it mints, with names for
these properties, and no others.
-/
def Drafting.InOrder {α : Type} (schema : Schema) (before mentioned : List String)
    (written : α → List String) (x : Drafting α) : Prop :=
  ∀ ⦃d a d'⦄, x d = .ok (a, d') →
    ∃ tokens, written a = before ++ tokens ∧ d.Mints schema mentioned tokens d'

namespace Drafting.InOrder

variable {α β : Type} {schema : Schema} {before mentioned mentioned' : List String}
  {written : α → List String} {written' : β → List String}

theorem pure {a : α} (h : written a = before) : InOrder schema before [] written (pure a) := by
  intro d a' d' hx
  obtain ⟨rfl, rfl⟩ := pure_ok.mp hx
  exact ⟨[], by rw [h, List.append_nil], .nil⟩

theorem throw (e : ClauseError) : InOrder schema before mentioned written (throw e) :=
  fun _ _ _ h => absurd h throw_ok

theorem bind {x : Drafting α} {f : α → Drafting β} (hx : InOrder schema before mentioned written x)
    (hf : ∀ a, InOrder schema (written a) mentioned' written' (f a)) :
    InOrder schema before (mentioned ++ mentioned') written' (x >>= f) := by
  intro d b d'' h
  obtain ⟨a, d', h₁, h₂⟩ := bind_ok.mp h
  obtain ⟨tokens, ha, hm⟩ := hx h₁
  obtain ⟨tokens', hb, hm'⟩ := hf a h₂
  exact ⟨tokens ++ tokens', by rw [hb, ha, List.append_assoc], hm.trans hm'⟩

/-- The last step mints nothing. -/
theorem last {x : Drafting α} {f : α → Drafting β} (hx : InOrder schema before mentioned written x)
    (hf : ∀ a, InOrder schema (written a) [] written' (f a)) :
    InOrder schema before mentioned written' (x >>= f) := by
  have h := hx.bind hf
  rwa [List.append_nil] at h

/-- A step that does not look at the draft is followed by another one. -/
theorem lift {x : Except ClauseError α} {f : α → Drafting β}
    (hf : ∀ a, x = .ok a → InOrder schema before mentioned written' (f a)) :
    InOrder schema before mentioned written' (liftM x >>= f) := by
  intro d b d' h
  obtain ⟨a, d₁, h₁, h₂⟩ := bind_ok.mp h
  obtain ⟨ha, rfl⟩ := lift_ok.mp h₁
  exact hf a ha h₂

/-- A property gets a new name. -/
theorem bindName {name : String} {p : Property} (hp : schema.resolve name = .ok p) :
    InOrder schema before [name] (fun t => before ++ [t]) p.bindName := by
  intro d t d' h
  cases h
  exact ⟨[d.nextName], rfl, Draft.Mints.nil.name hp⟩

/-- More is written behind the name of a property. -/
theorem name {name : String} {p : Property} (hp : schema.resolve name = .ok p)
    {f : String → Drafting β}
    (hf : ∀ t, InOrder schema (before ++ [t]) mentioned written' (f t)) :
    InOrder schema before (name :: mentioned) written' (p.bindName >>= f) :=
  (bindName hp).bind hf

theorem map {x : Drafting α} {f : α → β} (hx : InOrder schema before mentioned written x)
    (h : ∀ a, written' (f a) = written a) : InOrder schema before mentioned written' (f <$> x) := by
  rw [map_eq_pure_bind]
  exact hx.last fun a => .pure (h a)

theorem mapM {f : α → Drafting β} {properties : α → List String} :
    ∀ {as : List α} {before : List String}, (∀ a ∈ as, ∀ before,
      InOrder schema before (properties a) (fun b => before ++ written' b) (f a)) →
      InOrder schema before (as.flatMap properties) (fun bs => before ++ bs.flatMap written')
        (as.mapM f)
  | [], before, _ => .pure (List.append_nil before)
  | a :: as, before, hf => by
    obtain ⟨ha, has⟩ := List.forall_mem_cons.mp hf
    rw [List.mapM_cons, List.flatMap_cons]
    refine (ha before).bind fun b => (mapM has).last fun bs => .pure ?_
    rw [List.flatMap_cons, List.append_assoc]

theorem refuse {p : Prop} [Decidable p] {e : ClauseError} {f : β → Drafting α} {x : Drafting α}
    (hx : InOrder schema before mentioned written x) :
    InOrder schema before mentioned written
      (if p then (MonadExcept.throw e : Drafting β) >>= f else x) :=
  fun _ _ _ h => hx (refuse_ok h).2

end Drafting.InOrder

/-! ### Predicates -/

section

variable (b : Binder) {schema : Schema} {before : List String}

/-- A value gets a new placeholder. -/
theorem Binder.operand_inOrder {o : Operand} (ho : o.literal?.isSome = true) (p : Property) :
    InOrder schema before [] (fun t => before ++ [t]) (b.operand o p) := by
  cases o with
  | placeholder token => cases ho
  | value v =>
    intro d t d' h
    obtain ⟨binding, hb, rfl, rfl⟩ := Binder.value_ok_iff.mp h
    exact ⟨[d.nextValue], rfl, Draft.Mints.nil.value binding⟩

theorem Binder.operands_inOrder (p : Property) :
    ∀ {operands : List Operand} {vs : List Value} {before : List String},
      operands.mapM Operand.literal? = some vs →
      InOrder schema before [] (fun ts => before ++ ts) (operands.mapM fun o => b.operand o p)
  | [], _, before, _ => .pure (List.append_nil before)
  | o :: operands, _, before, h => by
    rw [List.mapM_cons] at h
    obtain ⟨v, hv, h₁⟩ := Option.bind_eq_some_iff.mp h
    obtain ⟨vs, hvs, -⟩ := Option.bind_eq_some_iff.mp h₁
    rw [List.mapM_cons]
    refine (b.operand_inOrder (Option.isSome_of_eq_some hv) p).bind fun t => ?_
    refine (operands_inOrder p hvs).last fun ts => .pure ?_
    rw [List.append_assoc, List.singleton_append]

namespace Predicate

theorem comparison_inOrder (subject : Subject) (op : Operator) {operands : List Operand}
    {vs : List Value} (hl : operands.mapM Operand.literal? = some vs) :
    InOrder schema before [subject.propertyName] (fun c => before ++ c.tokens)
      (comparison b schema subject op operands) := by
  refine .refuse (.lift fun p hp => .name hp fun t => ?_)
  refine (b.operands_inOrder _ hl).last fun ts => .pure ?_
  have htoken : (subject.compared t).token = t := by cases subject <;> rfl
  rw [Condition.tokens, htoken, List.append_assoc, List.singleton_append]

theorem comparisonOrNot_inOrder (negate : Bool) (subject : Subject) (op : Operator)
    {operands : List Operand} {vs : List Value} (hl : operands.mapM Operand.literal? = some vs) :
    InOrder schema before [subject.propertyName] (fun c => before ++ c.tokens)
      (comparisonOrNot b schema negate subject op operands) := by
  unfold comparisonOrNot
  split
  · cases op.negation with
    | inverted opposite => exact comparison_inOrder b subject opposite hl
    | wrapped =>
      refine .map (comparison_inOrder b subject op hl) fun c => ?_
      rw [Condition.tokens]
    | refused => exact .throw _
  · exact comparison_inOrder b subject op hl

theorem invocation_inOrder (f : Builtin) {arguments : List Argument} {vss : List (List Value)}
    (hl : arguments.mapM Argument.literals? = some vss) :
    InOrder schema before (arguments.flatMap Argument.mentioned) (fun c => before ++ c.tokens)
      (invocation b schema f arguments) := by
  fun_cases invocation b schema f arguments with
  | case1 => exact .throw _
  | case2 property he => exact .lift fun p hp => .name hp fun t => .pure rfl
  | case3 property o he =>
    obtain ⟨v, hv, -⟩ := Argument.literals?_operand hl
    refine .lift fun p hp => .lift fun _ _ => .name hp fun t => ?_
    refine (b.operand_inOrder (Option.isSome_of_eq_some hv) _).last fun u => .pure ?_
    rw [List.append_assoc]
    rfl
  | case4 property o he =>
    obtain ⟨v, hv, -⟩ := Argument.literals?_operand hl
    refine .lift fun p hp => .name hp fun t => ?_
    refine (b.operand_inOrder (Option.isSome_of_eq_some hv) _).last fun u => .pure ?_
    rw [List.append_assoc]
    rfl
  | case5 => exact .throw _

theorem invocationOrNot_inOrder (negate : Bool) (f : Builtin) {arguments : List Argument}
    {vss : List (List Value)} (hl : arguments.mapM Argument.literals? = some vss) :
    InOrder schema before (arguments.flatMap Argument.mentioned) (fun c => before ++ c.tokens)
      (invocationOrNot b schema negate f arguments) := by
  unfold invocationOrNot
  split
  · cases f.negation with
    | inverted opposite => exact invocation_inOrder b opposite hl
    | wrapped =>
      refine .map (invocation_inOrder b f hl) fun c => ?_
      rw [Condition.tokens]
    | refused => exact .throw _
  · exact invocation_inOrder b f hl

mutual

/-- A predicate is written from left to right, negated or not. -/
theorem translate_inOrder (kind : ClauseKind) (negate : Bool) : ∀ (p : Predicate) {vs : List Value}
    {before : List String}, p.literals? = some vs →
    InOrder schema before p.mentioned (fun c => before ++ c.tokens)
    (p.translate b schema kind negate)
  | .compare subject op operands, vs, before, hl => by
    rw [literals?] at hl
    rw [translate, mentioned]
    have hcheck : InOrder schema before [] (fun _ => before) (checkComparison kind subject op) := by
      intro d u d' h
      rw [checkComparison_ok h]
      exact ⟨[], (List.append_nil before).symm, .nil⟩
    exact hcheck.bind fun _ => comparisonOrNot_inOrder b negate subject op hl
  | .call f arguments, vs, before, hl => by
    rw [literals?] at hl
    obtain ⟨vss, hvss, -⟩ := Option.map_eq_some_iff.mp hl
    rw [translate, mentioned]
    exact .refuse (invocationOrNot_inOrder b negate f hvss)
  | .and parts, vs, before, hl => by
    rw [literals?] at hl
    rw [translate, mentioned]
    exact junction_inOrder kind negate .and parts hl
  | .or parts, vs, before, hl => by
    rw [literals?] at hl
    rw [translate, mentioned]
    exact .refuse (junction_inOrder kind negate .or parts hl)
  | .not p, vs, before, hl => by
    rw [literals?] at hl
    rw [translate, mentioned]
    exact .refuse (translate_inOrder kind (!negate) p hl)

/-- So is a junction. -/
theorem junction_inOrder (kind : ClauseKind) (negate : Bool) (k : Connective) :
    ∀ (parts : List Predicate) {vs : List Value} {before : List String},
    literalsOf? parts = some vs →
      InOrder schema before (partsMentioned parts) (fun c => before ++ c.tokens)
        (junction b schema kind negate k parts)
  | [], vs, before, _ => by
    rw [junction]
    exact .throw _
  | [p], vs, before, hl => by
    obtain ⟨ws, ws', hws, -, -⟩ := literalsOf?_cons hl
    rw [junction, partsMentioned, partsMentioned, List.append_nil]
    exact translate_inOrder kind negate p hws
  | p :: q :: rest, vs, before, hl => by
    obtain ⟨ws, ws', hws, hws', -⟩ := literalsOf?_cons hl
    rw [junction, partsMentioned]
    · refine (translate_inOrder kind false p hws).bind fun first => ?_
      refine (translateAll_inOrder kind (q :: rest) hws').last fun others => .pure ?_
      cases negate <;> simp [Condition.negatedIf, Condition.tokens]
    · simp

/-- So are the parts of a junction. -/
theorem translateAll_inOrder (kind : ClauseKind) : ∀ (parts : List Predicate) {vs : List Value}
    {before : List String}, literalsOf? parts = some vs →
    InOrder schema before (partsMentioned parts) (fun cs => before ++ Condition.partsTokens cs)
      (translateAll b schema kind parts)
  | [], vs, before, _ => by
    rw [translateAll]
    exact .pure (List.append_nil before)
  | p :: rest, vs, before, hl => by
    obtain ⟨ws, ws', hws, hws', -⟩ := literalsOf?_cons hl
    rw [translateAll, partsMentioned]
    refine (translate_inOrder kind false p hws).bind fun first => ?_
    refine (translateAll_inOrder kind rest hws').last fun others => .pure ?_
    rw [Condition.partsTokens, List.append_assoc]

end

end Predicate

/-! ### Updates and projections -/

theorem SetValue.translate_inOrder (target : Property) : ∀ (outermost : Bool) (v : SetValue)
    {before : List String}, v.isLiteral = true →
    InOrder schema before v.mentioned (fun term => before ++ term.tokens)
      (v.translate b schema target outermost)
  | _, .operand o, before, hl => .map (b.operand_inOrder hl target) fun _ => rfl
  | _, .property name, before, _ => .lift fun p hp => .name hp fun t => .pure rfl
  | outermost, .plus x y, before, hl => by
    rw [isLiteral, Bool.and_eq_true] at hl
    rw [SetValue.translate, mentioned]
    refine .refuse (.bind (translate_inOrder target false x hl.1) fun x' => ?_)
    refine (translate_inOrder target false y hl.2).last fun y' => .pure ?_
    rw [Term.tokens, List.append_assoc]
  | outermost, .minus x y, before, hl => by
    rw [isLiteral, Bool.and_eq_true] at hl
    rw [SetValue.translate, mentioned]
    refine .refuse (.bind (translate_inOrder target false x hl.1) fun x' => ?_)
    refine (translate_inOrder target false y hl.2).last fun y' => .pure ?_
    rw [Term.tokens, List.append_assoc]
  | _, .ifNotExists name o, before, hl => by
    refine .lift fun p hp => .name hp fun t => ?_
    refine (b.operand_inOrder hl p).last fun u => .pure ?_
    rw [Term.tokens, List.append_assoc, List.singleton_append]
  | _, .listAppend x y, before, hl => by
    rw [isLiteral, Bool.and_eq_true] at hl
    rw [SetValue.translate, mentioned]
    refine .bind (translate_inOrder target false x hl.1) fun x' => ?_
    refine (translate_inOrder target false y hl.2).last fun y' => .pure ?_
    rw [Term.tokens, List.append_assoc]

theorem Action.translate_inOrder {a : Action} (hl : a.isLiteral = true) :
    InOrder schema before a.mentioned (fun change => before ++ change.tokens)
      (a.translate b schema) := by
  cases a with
  | set name value =>
    refine .lift fun p hp => .name hp fun t => ?_
    refine (value.translate_inOrder b p true hl).last fun term => .pure ?_
    rw [Change.tokens, List.append_assoc, List.singleton_append]
  | remove name => exact .lift fun p hp => .name hp fun t => .pure rfl
  | add name o | delete name o =>
    refine .lift fun p hp => .name hp fun t => ?_
    refine (b.operand_inOrder hl p).last fun u => .pure ?_
    rw [Change.tokens, List.append_assoc, List.singleton_append]

/-- An update is written group by group, and in this order its placeholders are minted. -/
theorem Update.translate_inOrder {u : Update} (hl : u.all Action.isLiteral = true) :
    InOrder schema before u.mentioned
      (fun groups => before ++ groups.flatMap fun g => g.2.flatMap Change.tokens)
      (u.translate b schema) := by
  refine .refuse (.mapM fun keyword _ before => ?_)
  refine .last (.mapM fun a ha before => ?_) fun changes => .pure rfl
  exact a.translate_inOrder b (List.all_eq_true.mp hl a (List.mem_filter.mp ha).1)

end

theorem Projection.translate_inOrder {schema : Schema} (properties : List String) :
    InOrder schema [] properties (fun names => names) (Projection.translate schema properties) := by
  intro d names d' hx
  have h : InOrder schema [] (properties.flatMap fun name => [name])
      (fun names => [] ++ names.flatMap fun t => [t]) (Projection.translate schema properties) :=
    .refuse (.mapM fun name _ before => .lift fun p hp => .bindName hp)
  obtain ⟨tokens, ht, hm⟩ := h hx
  rw [List.flatMap_singleton'] at hm
  exact ⟨tokens, by simpa using ht, hm⟩

/-! ## Clauses -/

/--
The clause is numbered as its text goes on from left to right: the placeholders of a kind in the
text are those that the clause has minted, each of them once, with the next numbers of the scope,
and its names stand for the attributes of the properties that are mentioned.
-/
structure Clause.FollowsText (clause : Clause) (s : Scope) (source : Source) : Prop where
  names : Text.ofKind '#' (Text.placeholders clause.expression.toList) = clause.names.map Prod.fst
  values : Text.ofKind ':' (Text.placeholders clause.expression.toList) = clause.values.map Prod.fst
  numbered : s.FollowOn clause.names clause.values
  names_once : (Text.ofKind '#' (Text.placeholders clause.expression.toList)).Nodup
  values_once : (Text.ofKind ':' (Text.placeholders clause.expression.toList)).Nodup
  attributes : source.Mentions (clause.names.map Prod.snd)

namespace Compiler

variable {c : Compiler} {source : Source} {s s' : Scope}

/-- A clause is written with what has been minted for it, from left to right. -/
theorem draft_inOrder {b : Binder} (hs : s.HasWordPrefixes) (hl : source.isLiteral = true)
    {expression : List Char} {d : Draft} (h : c.draft b source (.on s) = .ok (expression, d)) :
    ∃ schema mentioned, (Draft.on s).Mints schema mentioned (Text.placeholders expression) d ∧
      source.Mentions (d.names.map Prod.snd) := by
  cases source with
  | template kind template arguments schema => cases hl
  | predicate kind schema p =>
    obtain ⟨vs, hvs⟩ := Option.isSome_iff_exists.mp hl
    obtain ⟨condition, d₁, hc, hx⟩ := bind_ok.mp (refuse_ok h).2
    obtain ⟨rfl, rfl⟩ := pure_ok.mp hx
    have hin : InOrder schema [] p.mentioned (fun c => [] ++ c.tokens)
        (p.translate b schema kind false) := p.translate_inOrder b kind false hvs
    obtain ⟨tokens, rfl, hm⟩ := hin hc
    have htext := (condition.chars_placeholders (hm.isPlaceholder hs)).placeholders_eq
    exact ⟨schema, _, by rw [htext]; exact hm, hm.attributes⟩
  | update schema u =>
    obtain ⟨groups, d₁, hg, hx⟩ := bind_ok.mp h
    obtain ⟨rfl, rfl⟩ := pure_ok.mp hx
    have hin : InOrder schema [] u.mentioned
        (fun groups => [] ++ groups.flatMap fun g => g.2.flatMap Change.tokens)
        (u.translate b schema) := Update.translate_inOrder b hl
    obtain ⟨tokens, rfl, hm⟩ := hin hg
    have htext := (Change.groups_placeholders fun g hg c hc t ht => hm.isPlaceholder hs t
      (List.mem_flatMap.mpr ⟨g, hg, List.mem_flatMap.mpr ⟨c, hc, ht⟩⟩)).placeholders_eq
    exact ⟨schema, _, by rw [htext]; exact hm, hm.attributes⟩
  | projection schema properties =>
    obtain ⟨names, d₁, hn, hx⟩ := bind_ok.mp h
    obtain ⟨rfl, rfl⟩ := pure_ok.mp hx
    obtain ⟨tokens, rfl, hm⟩ := Projection.translate_inOrder properties hn
    have htext : Text.placeholders (Projection.chars names) = names :=
      (MentionEach.of_tokens (hm.isPlaceholder hs)).commas.placeholders_eq
    exact ⟨schema, _, by rw [htext]; exact hm, hm.attributes⟩

/--
**Numbering follows the text.** Where the prefixes of a scope are words, a clause that is made of
properties and values, and is translated, is numbered in the order of its text.
-/
theorem numbering_follows_text {mode : Mode} (hs : s.HasWordPrefixes) (hl : source.isLiteral = true)
    {clause : Clause} (h : c.translate mode source s = .ok clause s') :
    clause.FollowsText s source := by
  obtain ⟨expression, d, values, hd, hv, rfl, rfl⟩ := translate_ok h
  obtain ⟨schema, mentioned, hm, hattributes⟩ := draft_inOrder hs hl hd
  have hnumbered := draft_followOn hd hv
  have htext : (String.ofList expression).toList = expression := String.toList_ofList
  have hnames : Text.ofKind '#' (Text.placeholders expression) = d.names.map Prod.fst :=
    hm.keys.1.symm
  have hvalues : Text.ofKind ':' (Text.placeholders expression) = values.map Prod.fst := by
    rw [Draft.settled_keys hv]
    exact hm.keys.2.symm
  refine ⟨?_, ?_, hnumbered, ?_, ?_, hattributes⟩ <;> rw [htext]
  · exact hnames
  · exact hvalues
  · rw [hnames]
    exact hnumbered.nodup_names
  · rw [hvalues]
    exact hnumbered.nodup_values

/-- Another year, another list of tags, and no name any more. -/
def birthday : Update :=
  [.set "Age" (.plus (.property "Age") (.operand (.value (.integer 1)))), .remove "Name",
    .set "Tags" (.listAppend (.ifNotExists "Tags" (.value (.list [.text "new"])))
      (.operand (.value (.list [.text "old"]))))]

/-- The name that is removed is mentioned second, and numbered last. -/
theorem birthday_follows_text :
    let c : Compiler := ⟨.standard, .empty⟩
    let s : Scope := c.scope.enter [("#attr0", "joined")] []
    let source : Source := .update RequestBuilder.memberSchema birthday
    ∃ clause s', c.translate .sync source s = .ok clause s' ∧
      clause.expression = "SET #attr1 = #attr2 + :p0, " ++
        "#attr3 = list_append(if_not_exists(#attr4, :p1), :p2) REMOVE #attr5" ∧
      clause.FollowsText s source ∧
      clause.names.map Prod.snd = ["age", "age", "tags", "tags", "name"] := by
  intro c s source
  let clause : Clause :=
    ⟨"SET #attr1 = #attr2 + :p0, #attr3 = list_append(if_not_exists(#attr4, :p1), :p2) " ++
        "REMOVE #attr5",
      [("#attr1", "age"), ("#attr2", "age"), ("#attr3", "tags"), ("#attr4", "tags"),
        ("#attr5", "name")],
      [(":p0", .number "1"), (":p1", .list [.text "new"]), (":p2", .list [.text "old"])]⟩
  have h : c.translate .sync source s = .ok clause (s.enter clause.names clause.values) := by
    decide +kernel
  have hs : s.HasWordPrefixes :=
    ⟨List.all_eq_true.mp (by decide), List.all_eq_true.mp (by decide)⟩
  exact ⟨clause, _, h, by decide, numbering_follows_text hs (by decide) h, rfl⟩

end Compiler

end Clauses
