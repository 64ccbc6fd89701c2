import Clauses.Proofs.Predicates

/-!
# What is built means what has been added

A condition of a request means that all predicates that were added to it hold. The text grows
with each of them, and so do the tables of placeholders; each predicate keeps its meaning
because its placeholders stay bound to what they were minted for, and because each part
stands in its own brackets.

* `RequestBuilder.added` — the sources of the clauses of one kind
* `RequestBuilder.built_condition_holds` — the meaning of what is built
-/

namespace Clauses

open Grammar

/-! ## Clauses of predicates -/

namespace Compiler

/-- All that is minted for a clause is found in every later scope. -/
theorem draft_within {c : Compiler} {b : Binder} {source : Source} {s s' : Scope}
    {expression : List Char} {d : Draft} {values : List (String × WireValue)}
    (hs : s.Numbered) (hd : c.draft b source (.on s) = .ok (expression, d))
    (hv : List.Forall₂ Draft.Settled d.bindings values)
    (hk : (s.enter d.names values).Keeps s') : d.Within s' := by
  obtain ⟨hkeeps, hnames, hvalues⟩ := hs.enter_keeps (draft_followOn hd hv)
  have hscope : d.scope = s := (c.draft_minting b source hd).scope_eq
  refine ⟨?_, fun e he => hk.names _ _ (hnames e he), fun e he => ?_⟩
  · rw [hscope]
    exact hkeeps.trans hk
  · obtain ⟨w, hw, hm⟩ := Draft.exists_settled hv he
    exact ⟨w, hw, hk.values _ _ (hvalues _ hm)⟩

/-- A predicate clause says, in every later scope, what its predicate says. -/
theorem predicate_sound {c : Compiler} {mode : Mode} {kind : ClauseKind} {schema : Schema}
    {p : Predicate} {s s' : Scope} {clause : Clause} (hs : s.Numbered)
    (h : c.translate mode (.predicate kind schema p) s = .ok clause s') :
    ∃ condition : Condition, clause.expression = String.ofList condition.chars ∧
      ∀ later, s'.Keeps later → later.Worded →
        condition.Says later fun ρ => p.holds c.codec later.valueTable schema ρ := by
  obtain ⟨expression, d, values, hd, hv, rfl, rfl⟩ := translate_ok h
  obtain ⟨condition, d₁, hc, hx⟩ := Drafting.bind_ok.mp (Drafting.refuse_ok hd).2
  obtain ⟨rfl, rfl⟩ := Drafting.pure_ok.mp hx
  refine ⟨condition, rfl, fun later hk hw => ?_⟩
  have hsound := Predicate.translate_sound kind hw p hc (draft_within hs hd hv hk)
  exact hsound.congr fun ρ _ => by simp

end Compiler

/-! ## Steps of a request -/

namespace RequestBuilder

theorem onScope_ok {α : Type} {x : Scoped α} {r r' : RequestBuilder} {a : α}
    (h : onScope x r = .ok a r') : x r.scope = .ok a r'.scope ∧ r'.expressions = r.expressions := by
  unfold onScope at h
  split at h
  · next hx =>
    cases h
    exact ⟨hx, rfl⟩
  · cases h

theorem add_ok {c : Compiler} {mode : Mode} {source : Source} {r r' : RequestBuilder} {u : Unit}
    (h : add c mode source r = .ok u r') :
    ∃ clause, c.translate mode source r.scope = .ok clause r'.scope ∧
      r'.expressions = merge r.expressions source.kind clause.expression := by
  obtain ⟨_, r₁, hopen, h₁⟩ := Effect.bind_ok.mp h
  obtain ⟨clause, r₂, hclause, h₂⟩ := Effect.bind_ok.mp h₁
  cases ensureOpen_readOnly _ hopen
  obtain ⟨ht, he⟩ := onScope_ok hclause
  cases h₂
  exact ⟨clause, ht, by rw [← he]⟩

/-- What a step that has succeeded has done. -/
theorem advance_ok {c : Compiler} {r r' : RequestBuilder} {step : RequestStep}
    {answer : Option String} (h : r.advance c step = (.ok answer, r')) :
    match step with
    | .clause mode source => ∃ clause, c.translate mode source r.scope = .ok clause r'.scope ∧
        r'.expressions = merge r.expressions source.kind clause.expression
    | .bind v p => ∃ token, c.bindValue v p r.scope = .ok token r'.scope ∧
        r'.expressions = r.expressions := by
  unfold advance at h
  split at h
  · next answer' r₁ hstep =>
    cases h
    cases step with
    | clause mode source =>
      obtain ⟨_, r₂, hadd, h₁⟩ := Effect.bind_ok.mp hstep
      cases h₁
      exact add_ok hadd
    | bind v p =>
      obtain ⟨token, hbind, -⟩ := Effect.map_ok.mp hstep
      exact ⟨token, onScope_ok hbind⟩
  · cases h

/-- To the scope of the request such a step is a step like any other. -/
theorem exists_step {c : Compiler} {r r' : RequestBuilder} {step : RequestStep}
    {answer : Option String} (h : r.advance c step = (.ok answer, r')) :
    ∃ step outcome, c.step step r.scope = .ok outcome r'.scope := by
  have ho := advance_ok h
  cases step with
  | clause mode source =>
    obtain ⟨clause, ht, -⟩ := ho
    exact ⟨.clause mode source, _, Effect.map_ok.mpr ⟨clause, ht, rfl⟩⟩
  | bind v p =>
    obtain ⟨token, hb, -⟩ := ho
    exact ⟨.bind v p, _, Effect.map_ok.mpr ⟨token, hb, rfl⟩⟩

/-- A step numbers its placeholders on, and leaves those of before as they are. -/
theorem advance_numbered {c : Compiler} {r r' : RequestBuilder} {step : RequestStep}
    {answer : Option String} (h : r.advance c step = (.ok answer, r')) (hs : r.scope.Numbered) :
    r'.scope.Numbered ∧ r.scope.Keeps r'.scope ∧ r'.scope.namePrefix = r.scope.namePrefix ∧
      r'.scope.valuePrefix = r.scope.valuePrefix := by
  obtain ⟨step, outcome, ho⟩ := exists_step h
  obtain ⟨names, values, -, hf, he⟩ := Compiler.step_ok ho
  rw [he]
  exact ⟨hs.enter hf, (hs.enter_keeps hf).1, rfl, rfl⟩

/-! ## Conditions of a request -/

/-- The sources of the clauses of one kind that have been added, each on its occasion, in order. -/
def added (kind : ClauseKind) (r : RequestBuilder) (config : Config)
    (occasions : List (Occasion RequestStep)) : List (Occasion Source) :=
  ((r.trace config occasions).filter hasSucceeded).filterMap fun t =>
    match t.1.step with
    | .clause _ source => if source.kind = kind then some ⟨t.1.hooks, source⟩ else none
    | .bind _ _ => none

/-- A predicate that is added on an occasion. -/
def asClause (kind : ClauseKind) (p : Occasion (Schema × Predicate)) : Occasion Source :=
  ⟨p.hooks, .predicate kind p.step.1 p.step.2⟩

/-- The truth value of a predicate on the occasion on which it is added. -/
def holdsOn (config : Config) (values : Keyed WireValue) (ρ : Valuation)
    (p : Occasion (Schema × Predicate)) : Option Bool :=
  p.step.2.holds ⟨config.dateFormat, p.hooks⟩ values p.step.1 ρ

/-- The slot means that all of the predicates hold, in every later scope. -/
def Means (config : Config) (kind : ClauseKind) (r : RequestBuilder)
    (ps : List (Occasion (Schema × Predicate))) : Prop :=
  match r.expressions kind with
  | none => ps = []
  | some text => ps ≠ [] ∧ ∃ f, Reads IsDisjunction text.toList f ∧
      ∀ s, r.scope.Keeps s → s.Worded → ∀ ρ, Complementary ρ → ∃ vs,
        List.Forall₂ (fun p v => holdsOn config s.valueTable ρ p = some v) ps vs ∧
        f.holds s.nameTable s.valueTable ρ = some (vs.all id)

/-- Where nothing is added to a slot it goes on to mean what it meant. -/
theorem Means.keeps {config : Config} {kind : ClauseKind} {r r' : RequestBuilder}
    {ps : List (Occasion (Schema × Predicate))} (h : Means config kind r ps)
    (hk : r.scope.Keeps r'.scope) (he : r'.expressions kind = r.expressions kind) :
    Means config kind r' ps := by
  unfold Means at h ⊢
  rw [he]
  cases hs : r.expressions kind with
  | none =>
    rw [hs] at h
    exact h
  | some text =>
    rw [hs] at h
    obtain ⟨hne, f, hf, hall⟩ := h
    exact ⟨hne, f, hf, fun s hks => hall s (hk.trans hks)⟩

theorem toList_conjunction (a b : String) : (conjunction a b).toList
    = bracketed a.toList ++ spaced Connective.and.text ++ bracketed b.toList := by
  simp [conjunction, bracketed, spaced, Connective.text]

/-- Two texts in brackets with `AND` between them are read as a conjunction. -/
theorem reads_conjunction {a b : String} {f g : Written} (ha : Reads IsDisjunction a.toList f)
    (hb : Reads IsDisjunction b.toList g) :
    Reads IsDisjunction (conjunction a b).toList (.and f g) := by
  rw [toList_conjunction]
  exact (ha.bracketed.connect (hb.bracketed.junction .and)).disjunction

/-- A predicate that is added joins those that the slot has meant so far. -/
theorem Means.add {c : Compiler} {mode : Mode} {kind : ClauseKind} {schema : Schema}
    {p : Predicate} {r r' : RequestBuilder} {clause : Clause}
    {ps : List (Occasion (Schema × Predicate))} (h : Means c.config kind r ps)
    (hs : r.scope.Numbered) (hw : r'.scope.Worded) (hk : r.scope.Keeps r'.scope)
    (ht : c.translate mode (.predicate kind schema p) r.scope = .ok clause r'.scope)
    (he : r'.expressions = merge r.expressions kind clause.expression) :
    Means c.config kind r' (ps ++ [⟨c.hooks, schema, p⟩]) := by
  obtain ⟨condition, hc, hsound⟩ := Compiler.predicate_sound hs ht
  have hread := (condition.chars_reads (hsound _ (.refl _) hw).readable).1
  rw [← String.toList_ofList (l := condition.chars), ← hc] at hread
  unfold Means at h ⊢
  rw [he]
  cases hp : r.expressions kind with
  | none =>
    rw [hp] at h
    subst h
    simp only [merge, Slots.set, hp, if_true]
    refine ⟨List.cons_ne_nil _ _, _, hread, fun s hk' hw' ρ hρ => ?_⟩
    obtain ⟨v, hv, hf⟩ := (hsound s hk' hw').holds ρ hρ
    exact ⟨[v], .cons hv .nil, by simpa using hf⟩
  | some previous =>
    rw [hp] at h
    obtain ⟨-, f, hf, hall⟩ := h
    simp only [merge, Slots.set, hp, if_true]
    refine ⟨by simp, _, reads_conjunction hf hread, fun s hk' hw' ρ hρ => ?_⟩
    -- A scope that keeps what there is now keeps what there was when the others were added.
    obtain ⟨vs, hvs, hprevious⟩ := hall s (hk.trans hk') hw' ρ hρ
    obtain ⟨v, hv, hf'⟩ := (hsound s hk' hw').holds ρ hρ
    refine ⟨vs ++ [v], List.rel_append hvs (.cons hv .nil), ?_⟩
    rw [Formula.holds, hprevious, hf']
    simp

/-- What each step adds to the meaning of a slot, by induction on the steps. -/
theorem run_means {config : Config} {kind : ClauseKind}
    (hn : ∀ ch ∈ config.namePrefix.toList, Text.isWordChar ch = true)
    (hv : ∀ ch ∈ config.valuePrefix.toList, Text.isWordChar ch = true)
    (occasions : List (Occasion RequestStep)) :
    ∀ {r : RequestBuilder} {ps qs : List (Occasion (Schema × Predicate))}, r.scope.Numbered →
      r.scope.namePrefix = config.namePrefix → r.scope.valuePrefix = config.valuePrefix →
      added kind r config occasions = qs.map (asClause kind) → Means config kind r ps →
      Means config kind (r.run config occasions).2 (ps ++ qs) ∧
        (r.run config occasions).2.scope.Worded := by
  induction occasions with
  | nil =>
    intro r ps qs hs hname hvalue ha hm
    have hqs : qs = [] := List.map_eq_nil_iff.mp ha.symm
    rw [hqs, List.append_nil]
    exact ⟨hm, hs.worded (by rwa [hname]) (by rwa [hvalue])⟩
  | cons o occasions ih =>
    obtain ⟨hooks, step⟩ := o
    intro r ps qs hs hname hvalue ha hm
    rw [run_cons]
    rcases hstep : r.advance ⟨config, hooks⟩ step with ⟨answer, r'⟩
    simp only [added, trace, hstep] at ha
    cases answer with
    | error e =>
      rw [List.filter_cons_of_neg (by simp [hasSucceeded, Except.isOk, Except.toBool]),
        advance_of_error hstep] at ha
      rw [advance_of_error hstep]
      exact ih hs hname hvalue ha hm
    | ok token =>
      rw [List.filter_cons_of_pos rfl] at ha
      obtain ⟨hs', hk, hname', hvalue'⟩ := advance_numbered hstep hs
      have hname'' := hname'.trans hname
      have hvalue'' := hvalue'.trans hvalue
      have ho := advance_ok hstep
      -- A bound value and a clause of another kind leave the slot as it is.
      cases step with
      | bind v p =>
        obtain ⟨token', -, he⟩ := ho
        exact ih hs' hname'' hvalue'' ha (hm.keeps hk (congrFun he kind))
      | clause mode source =>
        obtain ⟨clause, ht, he⟩ := ho
        by_cases hkind : source.kind = kind
        · simp only [List.filterMap_cons, if_pos hkind] at ha
          cases qs with
          | nil => cases ha
          | cons q qs =>
            obtain ⟨qhooks, qschema, qp⟩ := q
            obtain ⟨hq, hrest⟩ := List.cons.inj ha
            cases hq
            have hw := hs'.worded (by rwa [hname'']) (by rwa [hvalue''])
            have hm' := hm.add hs hw hk ht he
            rw [List.append_cons]
            exact ih hs' hname'' hvalue'' hrest hm'
        · simp only [List.filterMap_cons, if_neg hkind] at ha
          refine ih hs' hname'' hvalue'' ha (hm.keeps hk ?_)
          rw [he, merge, Slots.set, if_neg (Ne.symm hkind)]

/--
**A condition of a request means that all predicates added to it hold.** Its text is read with the
grammar of conditions, and its placeholders stand for what the tables of the request bind them to.
Each predicate has been added with the hooks of its own occasion. Where nothing has been added
there is no condition.
-/
theorem built_condition_holds (c : Compiler) (occasions : List (Occasion RequestStep))
    (kind : ClauseKind) (ps : List (Occasion (Schema × Predicate)))
    (hname : ∀ ch ∈ c.config.namePrefix.toList, Text.isWordChar ch = true)
    (hvalue : ∀ ch ∈ c.config.valuePrefix.toList, Text.isWordChar ch = true)
    (hadded : added kind (start c) c.config occasions = ps.map (asClause kind)) :
    let request := ((start c).run c.config occasions).2.build
    match request.expressions kind with
    | none => ps = []
    | some text => ps ≠ [] ∧ ∃ f, Grammar.read? text = some f ∧
        ∀ ρ, Complementary ρ → ∃ vs,
          List.Forall₂ (fun p v => holdsOn c.config request.values ρ p = some v) ps vs ∧
          f.holds request.names request.values ρ = some (vs.all id) := by
  have hempty : Means c.config kind (start c) [] := rfl
  obtain ⟨hm, hw⟩ :=
    run_means hname hvalue occasions (Scope.Numbered.ofConfig c.config) rfl rfl hadded
    hempty
  rw [List.nil_append] at hm
  simp only [Means] at hm
  change match ((start c).run c.config occasions).2.expressions kind with
    | none => _
    | some text => _
  cases hs : ((start c).run c.config occasions).2.expressions kind with
  | none =>
    rw [hs] at hm
    exact hm
  | some text =>
    rw [hs] at hm
    obtain ⟨hne, f, hf, hall⟩ := hm
    refine ⟨hne, f, ?_, fun ρ hρ => hall _ (.refl _) hw ρ hρ⟩
    rw [← String.ofList_toList (s := text)]
    exact hf.read?

/-- A schema of one property. -/
def personSchema : Schema := ⟨"Person", [("Age", .plain "age")]⟩

/-- Not younger than eighteen. -/
def isAdult : Predicate := .not (.compare (.property "Age") .less [.value (.integer 18)])

/-- Without an age, or with one that the text is not in. -/
def isAgelessOrOdd : Predicate :=
  .or [.not (.call .attributeExists [.property "Age"]),
    .not (.compare (.property "Age") .contains [.value (.text "x")])]

/-- Two predicates with a step between them that fails. -/
def twoFilters : List (Occasion RequestStep) :=
  [⟨.empty, .clause .sync (.predicate .filter personSchema isAdult)⟩,
    ⟨.empty, .clause .sync (.predicate .filter personSchema (.and []))⟩,
    ⟨.empty, .clause .sync (.predicate .filter personSchema isAgelessOrOdd)⟩]

theorem two_filters_hold :
    let c : Compiler := ⟨.standard, .empty⟩
    let request := ((start c).run c.config twoFilters).2.build
    request.expressions .filter = some
        "(#attr0 >= :p0) AND ((attribute_not_exists(#attr1)) OR (NOT (contains(#attr2, :p1))))" ∧
      ∃ f, (request.expressions .filter).bind Grammar.read? = some f ∧
        ∀ ρ, Complementary ρ → ∃ vs,
          List.Forall₂ (fun p v => holdsOn c.config request.values ρ p = some v)
            [⟨.empty, personSchema, isAdult⟩, ⟨.empty, personSchema, isAgelessOrOdd⟩] vs ∧
          f.holds request.names request.values ρ = some (vs.all id) := by
  intro c request
  have ht : request.expressions .filter = some
      "(#attr0 >= :p0) AND ((attribute_not_exists(#attr1)) OR (NOT (contains(#attr2, :p1))))" := by
    decide +kernel
  have hbuilt := built_condition_holds c twoFilters .filter
    [⟨.empty, personSchema, isAdult⟩, ⟨.empty, personSchema, isAgelessOrOdd⟩]
    (List.all_eq_true.mp (by decide)) (List.all_eq_true.mp (by decide)) rfl
  simp only [show ((start c).run c.config twoFilters).2.build.expressions .filter = _ from ht]
    at hbuilt
  obtain ⟨-, f, hf, hall⟩ := hbuilt
  refine ⟨ht, f, ?_, hall⟩
  rw [ht]
  exact hf

end RequestBuilder

end Clauses
