import Clauses.Proofs.Conjunction
import Clauses.Proofs.Verbatim

/-!
# What is written for predicates, updates and projections

A clause that is made of properties and values is written with placeholders throughout: each
of them has been minted, either for the clause or before it, and all words between them belong
to the language. So its text stands as it is, and it still does when it is joined with other
such texts and when more has been minted. It may be given to the compiler again as a template,
which writes out the same.

* `Condition.tokens`, `Change.tokens` — the placeholders of a text
* `Condition.stands`, `Change.stands_groups` — a text stands as it is if its placeholders are minted
* `RequestBuilder.typed_expressions_stand` — the expressions of a request are read as they stand
-/

namespace Clauses

open Template

/-! ## Texts with their placeholders -/

/-- The placeholder has been minted in the scope. -/
structure Scope.Holds (s : Scope) (t : String) : Prop where
  isPlaceholder : IsPlaceholder t
  contains : s.contains t = true

variable {s : Scope}

theorem Scope.Holds.stands {t : String} (h : s.Holds t) : Stands s t.toList :=
  stands_placeholder h.isPlaceholder h.contains

theorem Scope.Holds.all_stand {ts : List String} (h : ∀ t ∈ ts, s.Holds t) :
    ∀ text ∈ ts.map String.toList, Stands s text := by
  rw [List.forall_mem_map]
  exact fun t ht => (h t ht).stands

/-! ### Conditions -/

theorem standsAnywhere_operator {op : Operator} (hb : op ≠ .beginsWith) (hc : op ≠ .contains) :
    StandsAnywhere s (spaced op.text) := by
  cases op with
  | beginsWith => exact absurd rfl hb
  | contains => exact absurd rfl hc
  | between | among => exact standsAnywhere_spaced rfl ⟨rfl, rfl⟩ (by decide)
  | _ => exact standsAnywhere_loose rfl

theorem standsAnywhere_connective (c : Connective) : StandsAnywhere s (spaced c.text) := by
  cases c <;> exact standsAnywhere_spaced rfl ⟨rfl, rfl⟩ (by decide)

theorem standsAnywhere_negation : StandsAnywhere s "NOT ".toList := by
  have hword : Stands s ['N', 'O', 'T'] := stands_keyword ⟨rfl, rfl⟩ (by decide)
  exact hword.append (standsAnywhere_loose rfl) (by decide)

theorem Compared.stands {left : Compared} (h : s.Holds left.token) : Stands s left.chars := by
  rcases left with name | name
  · exact h.stands
  · exact (StandsAnywhere.call .size (Scope.Holds.stands h)).gives

namespace Condition

mutual

/-- The placeholders of a condition. -/
def tokens : Condition → List String
  | .compare left _ values => left.token :: values
  | .call _ name value => name :: value.toList
  | .join _ first others => tokens first ++ partsTokens others
  | .not c => tokens c

/-- The placeholders of the parts of a junction. -/
def partsTokens : List Condition → List String
  | [] => []
  | c :: rest => tokens c ++ partsTokens rest

end

theorem stands_compare {left : Compared} (op : Operator) {values : List String}
    (hl : s.Holds left.token) (hv : ∀ t ∈ values, s.Holds t) :
    Stands s (compareChars left.chars op (values.map String.toList)) := by
  have hleft := Compared.stands hl
  have hvalues := Scope.Holds.all_stand hv
  have hcommas := stands_commas hvalues
  have hall := stands_commas (List.forall_mem_cons.mpr ⟨hleft, hvalues⟩)
  cases op with
  | between =>
    have hand : StandsAnywhere s (spaced Connective.and.text) := standsAnywhere_connective .and
    exact hleft.append_spaced (standsAnywhere_operator (by decide) (by decide))
      (stands_intercalate hand (by decide) hvalues)
  | among =>
    exact hleft.append_spaced (standsAnywhere_operator (by decide) (by decide))
      hcommas.bracketed.gives
  | beginsWith => exact (StandsAnywhere.call .beginsWith hall).gives
  | contains => exact (StandsAnywhere.call .contains hall).gives
  | _ => exact hleft.append_spaced (standsAnywhere_operator (by decide) (by decide)) hcommas

mutual

/-- A condition stands as it is if its placeholders have been minted. -/
theorem stands : ∀ c : Condition, (∀ t ∈ c.tokens, s.Holds t) → Stands s c.chars
  | .compare left op values, h => by
    rw [tokens, List.forall_mem_cons] at h
    exact stands_compare op h.1 h.2
  | .call f name value, h => by
    rw [chars, ← List.map_cons]
    exact (StandsAnywhere.call f (stands_commas (Scope.Holds.all_stand h))).gives
  | .join c first others, h => by
    rw [tokens, List.forall_mem_append] at h
    have hfirst : Stands s (bracketed first.chars) := (stands first h.1).bracketed.gives
    rw [chars]
    exact stands_intercalate (standsAnywhere_connective c) (by decide)
      (List.forall_mem_cons.mpr ⟨hfirst, parts_stand others h.2⟩)
  | .not c, h => by
    have hin : Stands s c.chars := stands c h
    have hnot : StandsAnywhere s "NOT ".toList := standsAnywhere_negation
    rw [chars]
    split
    · exact hnot.append_gives hin
    · exact hnot.append_gives hin.bracketed.gives

/-- So do the parts of a junction, each in brackets. -/
theorem parts_stand : ∀ cs : List Condition, (∀ t ∈ partsTokens cs, s.Holds t) →
    ∀ text ∈ partsChars cs, Stands s text
  | [], _ => fun text ht => absurd ht List.not_mem_nil
  | c :: rest, h => by
    rw [partsTokens, List.forall_mem_append] at h
    rw [partsChars, List.forall_mem_cons]
    exact ⟨(stands c h.1).bracketed.gives, parts_stand rest h.2⟩

end

end Condition

/-! ### Changes -/

/-- The placeholders of a value that is put together. -/
def Term.tokens : Term → List String
  | .attribute name => [name]
  | .bound value => [value]
  | .ifNotExists name value => [name, value]
  | .listAppend a b | .plus a b | .minus a b => a.tokens ++ b.tokens

/-- The placeholders of a change. -/
def Change.tokens : Change → List String
  | .set name term => name :: term.tokens
  | .remove name => [name]
  | .apply name value => [name, value]

theorem Term.stands : ∀ term : Term, (∀ t ∈ term.tokens, s.Holds t) → Stands s term.chars
  | .attribute name, h => (h name List.mem_cons_self).stands
  | .bound value, h => (h value List.mem_cons_self).stands
  | .ifNotExists name value, h =>
    (StandsAnywhere.call .ifNotExists (stands_commas (Scope.Holds.all_stand h))).gives
  | .listAppend a b, h => by
    rw [tokens, List.forall_mem_append] at h
    have hall : ∀ text ∈ [a.chars, b.chars], Stands s text :=
      List.forall_mem_cons.mpr ⟨stands a h.1, List.forall_mem_singleton.mpr (stands b h.2)⟩
    exact (StandsAnywhere.call .listAppend (stands_commas hall)).gives
  | .plus a b, h => by
    rw [tokens, List.forall_mem_append] at h
    exact (stands a h.1).append_spaced (standsAnywhere_loose rfl) (stands b h.2)
  | .minus a b, h => by
    rw [tokens, List.forall_mem_append] at h
    exact (stands a h.1).append_spaced (standsAnywhere_loose rfl) (stands b h.2)

namespace Change

theorem stands (c : Change) (h : ∀ t ∈ c.tokens, s.Holds t) : Stands s c.chars := by
  cases c with
  | set name term =>
    rw [tokens, List.forall_mem_cons] at h
    exact h.1.stands.append_spaced (standsAnywhere_loose rfl) (term.stands h.2)
  | remove name => exact (h name List.mem_cons_self).stands
  | apply name value =>
    obtain ⟨hname, hvalue⟩ := List.forall_mem_cons.mp h
    have hspace : StandsAnywhere s [' '] := standsAnywhere_loose rfl
    have hfirst : StandsAnywhere s (name.toList ++ [' ']) :=
      hname.stands.append hspace (by decide)
    rw [chars, List.append_cons]
    exact hfirst.append_gives (hvalue value List.mem_cons_self).stands

theorem stands_group (keyword : UpdateKeyword) {changes : List Change}
    (h : ∀ c ∈ changes, ∀ t ∈ c.tokens, s.Holds t) : Stands s (groupChars keyword changes) := by
  have hkeyword : Stands s keyword.text.toList := by
    cases keyword <;> exact stands_keyword ⟨rfl, rfl⟩ (by decide)
  have hspace : StandsAnywhere s [' '] := standsAnywhere_loose rfl
  have hchanges : Stands s (comma.intercalate (changes.map chars)) := by
    refine stands_commas ?_
    rw [List.forall_mem_map]
    exact fun c hc => stands c (h c hc)
  have hfirst : StandsAnywhere s (keyword.text.toList ++ [' ']) :=
    hkeyword.append hspace (by decide)
  rw [groupChars, List.append_cons]
  exact hfirst.append_gives hchanges

/-- An update stands as it is if its placeholders have been minted. -/
theorem stands_groups {groups : List (UpdateKeyword × List Change)}
    (h : ∀ g ∈ groups, ∀ c ∈ g.2, ∀ t ∈ c.tokens, s.Holds t) : Stands s (groupsChars groups) := by
  refine stands_intercalate (standsAnywhere_loose rfl) (by decide) ?_
  rw [List.forall_mem_map]
  exact fun g hg => stands_group g.1 (h g hg)

end Change

/-! ## Steps that write minted placeholders -/

/--
Where the known placeholders have been minted, so have those of what the step comes to, by the time
that it has come to it.
-/
def Drafting.Emits {α : Type} (known : List String) (tokens : α → List String) (x : Drafting α) :
    Prop :=
  ∀ ⦃d a d'⦄, (∀ t ∈ known, d.contains t = true) → x d = .ok (a, d') →
    d.Grows d' ∧ ∀ t ∈ tokens a, d'.contains t = true

namespace Drafting.Emits

variable {α β : Type} {known : List String} {tokens : α → List String} {tokens' : β → List String}

theorem pure {a : α} (h : tokens a ⊆ known) : Emits known tokens (pure a) := by
  intro d a' d' hk hx
  obtain ⟨rfl, rfl⟩ := pure_ok.mp hx
  exact ⟨.refl, fun t ht => hk t (h ht)⟩

theorem throw (e : ClauseError) : Emits known tokens (throw e) :=
  fun _ _ _ _ hx => absurd hx throw_ok

/-- A step that only mints, and comes to something without placeholders. -/
theorem of_minting {x : Drafting α} (h : Minting x) : Emits known (fun _ => []) x :=
  fun _ _ _ _ hx => ⟨h hx, fun _ ht => absurd ht List.not_mem_nil⟩

theorem bind {x : Drafting α} {f : α → Drafting β} (hx : Emits known tokens x)
    (hf : ∀ a, Emits (known ++ tokens a) tokens' (f a)) : Emits known tokens' (x >>= f) := by
  intro d b d'' hk h
  obtain ⟨a, d', h₁, h₂⟩ := bind_ok.mp h
  obtain ⟨hg, ht⟩ := hx hk h₁
  have hk' : ∀ t ∈ known ++ tokens a, d'.contains t = true :=
    List.forall_mem_append.mpr ⟨fun t hm => Draft.contains_of_grows hg (hk t hm), ht⟩
  obtain ⟨hg', ht'⟩ := hf a hk' h₂
  exact ⟨hg.trans hg', ht'⟩

theorem map {x : Drafting α} {f : α → β} (hx : Emits known tokens x)
    (h : ∀ a, tokens' (f a) ⊆ tokens a) : Emits known tokens' (f <$> x) := by
  rw [map_eq_pure_bind]
  exact hx.bind fun a => .pure fun t ht => List.mem_append_right _ (h a ht)

theorem mono {known' : List String} {x : Drafting α} (hx : Emits known tokens x)
    (h : known ⊆ known') : Emits known' tokens x :=
  fun _ _ _ hk => hx fun t ht => hk t (h ht)

theorem mapM {f : α → Drafting β} (hf : ∀ a, Emits known tokens' (f a)) (as : List α) :
    Emits known (List.flatMap tokens') (as.mapM f) := by
  induction as with
  | nil => exact .pure (List.nil_subset _)
  | cons a as ih =>
    rw [List.mapM_cons]
    refine (hf a).bind fun b => (ih.mono (List.subset_append_left _ _)).bind fun bs => .pure ?_
    rw [List.flatMap_cons, List.append_assoc]
    exact List.subset_append_right _ _

theorem refuse {p : Prop} [Decidable p] {e : ClauseError} {f : β → Drafting α} {x : Drafting α}
    (hx : Emits known tokens x) :
    Emits known tokens (if p then (MonadExcept.throw e : Drafting β) >>= f else x) :=
  fun _ _ _ hk h => hx hk (refuse_ok h).2

end Drafting.Emits

open Drafting

theorem Property.bindName_emits (known : List String) (p : Property) :
    Emits known (fun t => [t]) p.bindName := by
  intro d t d' _ h
  exact ⟨Draft.bindName_minting _ h, List.forall_mem_singleton.mpr (Draft.bindName_contains h).2⟩

theorem Binder.operand_emits (known : List String) (b : Binder) (o : Operand) (p : Property) :
    Emits known (fun t => [t]) (b.operand o p) := by
  intro d t d' _ h
  refine ⟨b.operand_minting o p h, List.forall_mem_singleton.mpr ?_⟩
  cases o with
  | value v => exact (Binder.value_contains h).2
  | placeholder token =>
    unfold Binder.operand at h
    dsimp only at h
    split at h
    · obtain ⟨rfl, rfl, hc⟩ := Draft.reuse_contains h
      exact hc
    · exact absurd h throw_ok

/-! ### Predicates -/

namespace Predicate

variable {known : List String} (b : Binder) (schema : Schema) (kind : ClauseKind)

theorem comparison_emits (subject : Subject) (op : Operator) (operands : List Operand) :
    Emits known Condition.tokens (comparison b schema subject op operands) := by
  refine .refuse (.bind (.of_minting (.lift _)) fun p => ?_)
  refine .bind (p.bindName_emits _) fun name => ?_
  refine .bind (.mapM (fun o => b.operand_emits _ o _) operands) fun values => .pure ?_
  have htoken : (subject.compared name).token = name := by cases subject <;> rfl
  simp [Condition.tokens, htoken]

theorem comparisonOrNot_emits (negate : Bool) (subject : Subject) (op : Operator)
    (operands : List Operand) :
    Emits known Condition.tokens (comparisonOrNot b schema negate subject op operands) := by
  unfold comparisonOrNot
  split
  · cases op.negation with
    | inverted opposite => exact comparison_emits b schema subject opposite operands
    | wrapped =>
      refine .map (comparison_emits b schema subject op operands) fun c => ?_
      rw [Condition.tokens]
      exact List.Subset.refl _
    | refused => exact .throw _
  · exact comparison_emits b schema subject op operands

theorem invocation_emits (f : Builtin) (arguments : List Argument) :
    Emits known Condition.tokens (invocation b schema f arguments) := by
  unfold invocation
  split
  · exact .throw _
  · split
    · refine .bind (.of_minting (.lift _)) fun p => .bind (p.bindName_emits _) fun name => .pure ?_
      simp [Condition.tokens]
    · refine .bind (.of_minting (.lift _)) fun p => .bind (.of_minting (.lift _)) fun _ => ?_
      refine .bind (p.bindName_emits _) fun name => .bind (b.operand_emits _ _ _) fun t => .pure ?_
      simp [Condition.tokens]
    · refine .bind (.of_minting (.lift _)) fun p => .bind (p.bindName_emits _) fun name => ?_
      refine .bind (b.operand_emits _ _ _) fun t => .pure ?_
      simp [Condition.tokens]
    · exact .throw _

theorem invocationOrNot_emits (negate : Bool) (f : Builtin) (arguments : List Argument) :
    Emits known Condition.tokens (invocationOrNot b schema negate f arguments) := by
  unfold invocationOrNot
  split
  · cases f.negation with
    | inverted opposite => exact invocation_emits b schema opposite arguments
    | wrapped =>
      refine .map (invocation_emits b schema f arguments) fun c => ?_
      rw [Condition.tokens]
      exact List.Subset.refl _
    | refused => exact .throw _
  · exact invocation_emits b schema f arguments

mutual

theorem translate_emits (negate : Bool) : ∀ (p : Predicate) {known : List String},
    Emits known Condition.tokens (translate b schema kind negate p)
  | .compare subject op operands, known => by
    rw [translate]
    exact .bind (.of_minting (Minting.compatible.checkComparison subject op))
      fun _ => comparisonOrNot_emits b schema negate subject op operands
  | .call f arguments, known => by
    rw [translate]
    exact .refuse (invocationOrNot_emits b schema negate f arguments)
  | .and parts, known => by
    rw [translate]
    exact junction_emits negate .and parts
  | .or parts, known => by
    rw [translate]
    exact .refuse (junction_emits negate .or parts)
  | .not p, known => by
    rw [translate]
    exact .refuse (translate_emits (!negate) p)

theorem junction_emits (negate : Bool) (c : Connective) :
    ∀ (parts : List Predicate) {known : List String},
      Emits known Condition.tokens (junction b schema kind negate c parts)
  | [], known => by
    rw [junction]
    exact .throw _
  | [p], known => by
    rw [junction]
    exact translate_emits negate p
  | p :: q :: rest, known => by
    rw [junction]
    · refine .bind (translate_emits false p) fun first => ?_
      refine .bind (translateAll_emits (q :: rest)) fun others => .pure ?_
      cases negate <;> simp [Condition.negatedIf, Condition.tokens]
    · simp

theorem translateAll_emits : ∀ (parts : List Predicate) {known : List String},
    Emits known Condition.partsTokens (translateAll b schema kind parts)
  | [], known => by
    rw [translateAll]
    exact .pure (List.nil_subset _)
  | p :: rest, known => by
    rw [translateAll]
    refine .bind (translate_emits false p) fun first => ?_
    refine .bind (translateAll_emits rest) fun others => .pure ?_
    simp [Condition.partsTokens]

end

end Predicate

/-! ### Updates and projections -/

section

variable (b : Binder) (schema : Schema)

theorem SetValue.translate_emits (target : Property) :
    ∀ (outermost : Bool) (v : SetValue) {known : List String},
      Emits known Term.tokens (v.translate b schema target outermost)
  | _, .operand o, known => .map (b.operand_emits known o target) fun _ => List.Subset.refl _
  | _, .property name, known =>
    .bind (.of_minting (.lift _)) fun p => .bind (p.bindName_emits _) fun t =>
      .pure (List.subset_append_right _ _)
  | outermost, .plus x y, known => by
    rw [SetValue.translate]
    refine .refuse (.bind (translate_emits target false x) fun x' => ?_)
    refine .bind (translate_emits target false y) fun y' => .pure ?_
    simp [Term.tokens]
  | outermost, .minus x y, known => by
    rw [SetValue.translate]
    refine .refuse (.bind (translate_emits target false x) fun x' => ?_)
    refine .bind (translate_emits target false y) fun y' => .pure ?_
    simp [Term.tokens]
  | _, .ifNotExists name otherwise, known => by
    refine .bind (.of_minting (.lift _)) fun p => .bind (p.bindName_emits _) fun name => ?_
    refine .bind (b.operand_emits _ _ _) fun t => .pure ?_
    simp [Term.tokens]
  | _, .listAppend x y, known => by
    rw [SetValue.translate]
    refine .bind (translate_emits target false x) fun x' => ?_
    refine .bind (translate_emits target false y) fun y' => .pure ?_
    simp [Term.tokens]

theorem Action.translate_emits (a : Action) {known : List String} :
    Emits known Change.tokens (a.translate b schema) := by
  cases a with
  | set property value =>
    refine .bind (.of_minting (.lift _)) fun p => .bind (p.bindName_emits _) fun name => ?_
    refine .bind (value.translate_emits b schema p true) fun term => .pure ?_
    simp [Change.tokens]
  | remove property =>
    refine .bind (.of_minting (.lift _)) fun p => .bind (p.bindName_emits _) fun name => .pure ?_
    simp [Change.tokens]
  | add property o | delete property o =>
    refine .bind (.of_minting (.lift _)) fun p => .bind (p.bindName_emits _) fun name => ?_
    refine .bind (b.operand_emits _ _ _) fun t => .pure ?_
    simp [Change.tokens]

theorem Update.translate_emits (u : Update) {known : List String} :
    Emits known (List.flatMap fun g => g.2.flatMap Change.tokens) (u.translate b schema) := by
  refine .refuse (.mapM (fun keyword => ?_) _)
  refine .bind (.mapM (fun a => a.translate_emits b schema) _) fun changes => .pure ?_
  exact List.subset_append_right _ _

theorem Projection.translate_emits (properties : List String) {known : List String} :
    Emits known (List.flatMap fun t => [t]) (Projection.translate schema properties) := by
  refine .refuse (.mapM (fun property => ?_) _)
  exact .bind (.of_minting (.lift _)) fun p => p.bindName_emits _

end

/-! ## Clauses -/

/-- The clause is made of properties and values, not of a text. -/
def Source.isTyped : Source → Bool
  | .template _ _ _ _ => false
  | .predicate _ _ _ | .update _ _ | .projection _ _ => true

theorem Scope.Keeps.contains {s s' : Scope} (h : s.Keeps s') {t : String}
    (ht : s.contains t = true) : s'.contains t = true := by
  rw [Scope.contains_iff] at ht ⊢
  exact ht.imp (.imp_right fun ⟨a, ha⟩ => ⟨a, h.names t a ha⟩)
    (.imp_right fun ⟨w, hw⟩ => ⟨w, h.values t w hw⟩)

theorem Scope.Worded.holds {s : Scope} (h : s.Worded) {t : String} (ht : s.contains t = true) :
    s.Holds t := by
  refine ⟨?_, ht⟩
  rcases Scope.contains_iff.mp ht with ⟨-, a, ha⟩ | ⟨-, w, hw⟩
  · exact .inl (h.names t a ha)
  · exact .inr (h.values t w hw)

namespace Compiler

/-- A clause stands as it is wherever the placeholders of its draft have been minted. -/
theorem draft_stands {c : Compiler} {b : Binder} {source : Source} (ht : source.isTyped = true)
    {d d' : Draft} {expression : List Char} (h : c.draft b source d = .ok (expression, d'))
    (hs : ∀ t, d'.contains t = true → s.Holds t) : Stands s expression := by
  cases source with
  | template kind template arguments schema => cases ht
  | predicate kind schema p =>
    obtain ⟨condition, d₁, hc, hx⟩ := bind_ok.mp (refuse_ok h).2
    obtain ⟨rfl, rfl⟩ := pure_ok.mp hx
    obtain ⟨-, hin⟩ := p.translate_emits b schema kind false
      (fun _ ht => absurd ht List.not_mem_nil) hc
    exact condition.stands fun t ht => hs t (hin t ht)
  | update schema u =>
    obtain ⟨groups, d₁, hg, hx⟩ := bind_ok.mp h
    obtain ⟨rfl, rfl⟩ := pure_ok.mp hx
    obtain ⟨-, hin⟩ := u.translate_emits b schema (fun _ ht => absurd ht List.not_mem_nil) hg
    refine Change.stands_groups fun g hg c hc t ht => hs t (hin t ?_)
    exact List.mem_flatMap.mpr ⟨g, hg, List.mem_flatMap.mpr ⟨c, hc, ht⟩⟩
  | projection schema properties =>
    obtain ⟨names, d₁, hn, hx⟩ := bind_ok.mp h
    obtain ⟨rfl, rfl⟩ := pure_ok.mp hx
    obtain ⟨-, hin⟩ := Projection.translate_emits schema properties
      (fun _ ht => absurd ht List.not_mem_nil) hn
    refine stands_commas (Scope.Holds.all_stand fun t ht => hs t (hin t ?_))
    exact List.mem_flatMap.mpr ⟨t, ht, List.mem_singleton.mpr rfl⟩

/-- A clause stands as it is in every later scope. -/
theorem translate_stands {c : Compiler} {mode : Mode} {source : Source}
    (ht : source.isTyped = true) {s s' later : Scope} {clause : Clause}
    (h : c.translate mode source s = .ok clause s') (hk : s'.Keeps later) (hw : later.Worded) :
    Stands later clause.expression.toList := by
  obtain ⟨expression, d, values, hd, hv, rfl, rfl⟩ := translate_ok h
  have hg := c.draft_minting _ _ hd
  rw [String.toList_ofList]
  refine draft_stands ht hd fun t htoken => hw.holds (hk.contains ?_)
  have hin := ((Draft.Numbered.on s).grows hg).contains_enter hv htoken
  rwa [hg.scope_eq] at hin

end Compiler

/-! ## Requests -/

namespace RequestBuilder

/-- The step adds no template. -/
def isTyped : RequestStep → Bool
  | .clause _ source => source.isTyped
  | .bind _ _ => true

/-- The expressions of the request stand as they are, now and later. -/
def Standing (r : RequestBuilder) : Prop :=
  ∀ kind text, r.expressions kind = some text →
    ∀ later, r.scope.Keeps later → later.Worded → Stands later text.toList

/-- Where no expression changes, they go on to stand. -/
theorem Standing.keeps {r r' : RequestBuilder} (h : Standing r) (hk : r.scope.Keeps r'.scope)
    (he : r'.expressions = r.expressions) : Standing r' := by
  intro kind text ht later hl
  rw [he] at ht
  exact h kind text ht later (hk.trans hl)

theorem stands_conjunction {a b : String} (ha : Stands s a.toList) (hb : Stands s b.toList) :
    Stands s (conjunction a b).toList := by
  rw [toList_conjunction]
  exact ha.bracketed.gives.append_spaced (standsAnywhere_connective .and) hb.bracketed.gives

/-- A clause that is added stands, also where it joins another one. -/
theorem Standing.add {c : Compiler} {mode : Mode} {source : Source} {r r' : RequestBuilder}
    {clause : Clause} (h : Standing r) (ht : source.isTyped = true)
    (hk : r.scope.Keeps r'.scope) (hc : c.translate mode source r.scope = .ok clause r'.scope)
    (he : r'.expressions = merge r.expressions source.kind clause.expression) : Standing r' := by
  intro kind text htext later hl hw
  have hclause := Compiler.translate_stands ht hc hl hw
  rw [he, merge, Slots.set] at htext
  split at htext
  · cases hp : r.expressions source.kind with
    | none =>
      rw [hp] at htext
      cases htext
      exact hclause
    | some previous =>
      rw [hp] at htext
      cases htext
      exact stands_conjunction (h _ previous hp later (hk.trans hl) hw) hclause
  · exact h kind text htext later (hk.trans hl) hw

/-- What each step keeps, by induction on the steps. -/
theorem run_standing {config : Config} (occasions : List (Occasion RequestStep)) :
    ∀ {r : RequestBuilder}, r.scope.Numbered → r.scope.HasWordPrefixes → Standing r →
    (∀ t ∈ r.trace config occasions, hasSucceeded t = true → isTyped t.1.step = true) →
    Standing (r.run config occasions).2 ∧ (r.run config occasions).2.scope.HasWordPrefixes ∧
      (r.run config occasions).2.scope.Worded := by
  induction occasions with
  | nil => exact fun hs hp h _ => ⟨h, hp, hs.worded hp.name hp.value⟩
  | cons o occasions ih =>
    intro r hs hp h htyped
    rw [run_cons]
    rcases hstep : r.advance ⟨config, o.hooks⟩ o.step with ⟨answer, r'⟩
    rw [trace, hstep, List.forall_mem_cons] at htyped
    cases answer with
    | error e =>
      rw [advance_of_error hstep] at htyped ⊢
      exact ih hs hp h htyped.2
    | ok token =>
      obtain ⟨hs', hk, hname, hvalue⟩ := advance_numbered hstep hs
      have hp' : r'.scope.HasWordPrefixes :=
        ⟨by rw [hname]; exact hp.name, by rw [hvalue]; exact hp.value⟩
      refine ih hs' hp' ?_ htyped.2
      have ho := advance_ok hstep
      obtain ⟨hooks, step⟩ := o
      cases step with
      | bind v p =>
        obtain ⟨token', -, he⟩ := ho
        exact h.keeps hk he
      | clause mode source =>
        obtain ⟨clause, hc, he⟩ := ho
        exact h.add (htyped.1 rfl) hk hc he

/-- What stands as it is comes out of every compiler as it went in. -/
theorem translate_standing {c : Compiler} {mode : Mode} {kind : ClauseKind} {text : String}
    {schema : Option Schema} (h : Stands s text.toList) (hm : mode.isCancelled = false) :
    c.translate mode (.template kind text [] schema) s = .ok ⟨text, [], []⟩ s := by
  refine Draft.complete_iff.mpr ⟨text.toList, .on s, [], translate_verbatim h.strays, ?_, ?_, rfl⟩
  · cases mode with
    | sync => rfl
    | async cancelled =>
      cases hm
      rfl
  · rw [String.ofList_toList]
    rfl

/--
**What a request is made of without templates is read as it stands.** Each expression of such a
request is translated, as a template without arguments, to itself: by every compiler, for clauses of
every kind and with any schema. Nothing is minted for it. All its placeholders are in the tables of
the request, and each of its words is a keyword or a function that is called.
-/
theorem typed_expressions_stand (c : Compiler) (occasions : List (Occasion RequestStep))
    (hname : ∀ ch ∈ c.config.namePrefix.toList, Text.isWordChar ch = true)
    (hvalue : ∀ ch ∈ c.config.valuePrefix.toList, Text.isWordChar ch = true)
    (htyped : ∀ t ∈ (start c).trace c.config occasions, hasSucceeded t = true →
      isTyped t.1.step = true) :
    let r := ((start c).run c.config occasions).2
    ∀ kind text, r.expressions kind = some text →
      (∀ (c' : Compiler) (mode : Mode) (kind' : ClauseKind) (schema : Option Schema),
        mode.isCancelled = false →
        c'.translate mode (.template kind' text [] schema) r.scope = .ok ⟨text, [], []⟩ r.scope) ∧
      (∀ t ∈ Text.placeholders text.toList,
        (t.toList.head? = some '#' ∧ ∃ a, r.build.names.find? t = some a) ∨
          (t.toList.head? = some ':' ∧ ∃ w, r.build.values.find? t = some w)) ∧
      ∀ p ∈ (Template.lex text).tokens, ∀ w called, p.token = .word w called →
        isKeyword w = true ∨ (called = true ∧ ∃ f, Builtin.ofName? w = some f) := by
  intro r kind text htext
  have hempty : Standing (start c) := fun _ _ h => nomatch h
  obtain ⟨hr, hp, hw⟩ := run_standing occasions (Scope.Numbered.ofConfig c.config)
    ⟨hname, hvalue⟩ hempty htyped
  have hstands : Stands r.scope text.toList := hr kind text htext r.scope (.refl _) hw
  obtain ⟨hsettled, -⟩ := settled_of_strays hstands.strays
  refine ⟨fun c' mode kind' schema hm => translate_standing hstands hm, fun t ht => ?_, ?_⟩
  · have hsame : c.translate .sync (.template kind text [] none) r.scope
        = .ok ⟨text, [], []⟩ r.scope :=
      translate_standing hstands rfl
    exact Scope.contains_iff.mp
      (Compiler.placeholders_contained hp (slotsApart_of_settled hsettled) hsame t ht)
  · intro p hp w called hword
    have hs := hsettled p hp
    rw [hword] at hs
    simpa [Token.isSettled, Option.isSome_iff_exists] using hs

/-- Members of a club. -/
def memberSchema : Schema :=
  ⟨"Member", [("Age", .plain "age"), ("Name", .plain "name"), ("Tags", .plain "tags")]⟩

/--
Two conditions, one of them on a value that is bound beforehand, an update, and a template that
fails.
-/
def memberSteps : List RequestStep :=
  [.bind (.integer 18) (.plain "age"),
    .clause .sync (.predicate .filter memberSchema
      (.and [.compare (.property "Age") .between [.placeholder ":p0", .value (.integer 65)],
        .not (.compare (.size "Name") .among [.value (.integer 3)])])),
    .clause .sync (.template .filter "age = \x7b0\x7d" [] none),
    .clause .sync (.predicate .filter memberSchema
      (.not (.call .attributeExists [.property "Tags"]))),
    .clause .sync (.update memberSchema
      [.set "Age" (.plus (.property "Age") (.operand (.value (.integer 1)))), .remove "Name",
        .set "Tags" (.listAppend (.ifNotExists "Tags" (.value (.list [.text "new"])))
          (.operand (.value (.list [.text "old"]))))])]

theorem member_request_stands :
    let c : Compiler := ⟨.standard, .empty⟩
    let occasions : List (Occasion RequestStep) := memberSteps.map (⟨.empty, ·⟩)
    let r := ((start c).run c.config occasions).2
    let filter := "((#attr0 BETWEEN :p0 AND :p1) AND (NOT (size(#attr1) IN (:p2)))) AND " ++
      "(attribute_not_exists(#attr2))"
    let update :=
      "SET #attr3 = #attr4 + :p3, #attr5 = list_append(if_not_exists(#attr6, :p4), :p5) " ++
      "REMOVE #attr7"
    r.expressions .filter = some filter ∧ r.expressions .update = some update ∧
      ∀ text ∈ [filter, update], ∀ kind,
        c.translate .sync (.template kind text [] (some memberSchema)) r.scope
          = .ok ⟨text, [], []⟩ r.scope := by
  intro c occasions r filter update
  have hfilter : r.expressions .filter = some filter := by decide +kernel
  have hupdate : r.expressions .update = some update := by decide +kernel
  have htyped : ∀ t ∈ (start c).trace c.config occasions, hasSucceeded t = true →
      isTyped t.1.step = true := by
    have hall : ((start c).trace c.config occasions).all
        (fun t => !hasSucceeded t || isTyped t.1.step) = true := by
      decide +kernel
    intro t ht hs
    simpa [hs] using List.all_eq_true.mp hall t ht
  have hstand := typed_expressions_stand c occasions (List.all_eq_true.mp (by decide))
    (List.all_eq_true.mp (by decide)) htyped
  refine ⟨hfilter, hupdate, ?_⟩
  rw [List.forall_mem_cons, List.forall_mem_singleton]
  exact ⟨fun kind => (hstand .filter filter hfilter).1 c .sync kind _ rfl,
    fun kind => (hstand .update update hupdate).1 c .sync kind _ rfl⟩

end RequestBuilder

end Clauses
