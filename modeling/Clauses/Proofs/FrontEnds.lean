import Clauses.Proofs.MapOrders
import Clauses.Proofs.SideBySide

/-!
# Predicates and templates agree

Out of the clause of a predicate a template can be made: its names stand for themselves, and its
values are slots. The template is translated on the same scope to the same expression with the same
values, but names get a placeholder only where they are reserved words.

* `Clause.template` — the template of a clause
* `Clause.withAliases` — the clause that the template is translated to
* `Compiler.template_agrees` — the template of a predicate is translated to that clause
-/

namespace Clauses

open Template Grammar

/-- Where no key occurs twice, what stands before an entry is what stands before its key. -/
theorem Keyed.takeWhile_ne {α : Type} {m pre post : Keyed α} {k : String} {v : α}
    (hm : m.keys.Nodup) (h : m = pre ++ (k, v) :: post) : m.takeWhile (·.1 != k) = pre := by
  have hpre : ∀ e ∈ pre, (e.1 != k) = true := by
    intro e he
    rw [h, Keyed.keys, List.map_append, List.map_cons] at hm
    have hne := (List.nodup_append.mp hm).2.2 e.1 (List.mem_map_of_mem he) k List.mem_cons_self
    simpa using hne
  rw [h, List.takeWhile_append_of_pos hpre, List.takeWhile_cons_of_neg (by simp), List.append_nil]

/-! ## Templates of clauses -/

namespace Clause

/-- A name placeholder as its attribute, and a value placeholder as a slot with its place. -/
def rawSpelling (clause : Clause) (token : String) : String :=
  match Keyed.find? token clause.names, Keyed.find? token clause.values with
  | some a, _ => a
  | none, some _ => slotText (clause.values.takeWhile (·.1 != token)).length
  | none, none => token

/-- The template that the expression of a clause is turned into. -/
def template (clause : Clause) : String :=
  String.ofList (Text.respell clause.rawSpelling [] clause.expression.toList)

/--
The spelling of a placeholder where only reserved words have one. An attribute that is none stands
for itself; one that is has a number of its own, behind those of the names before it.
-/
def outSpelling (clause : Clause) (s : Scope) (aliasReserved : Bool) (token : String) : String :=
  match Keyed.find? token clause.names with
  | none => token
  | some a =>
    if needsAlias aliasReserved a then
      let before := s.aliases aliasReserved s.nameCount (clause.names.takeWhile (·.1 != token))
      s.nameToken (s.nameCount + before.length)
    else a

/-- The clause, on the same scope, in which names have a placeholder only if they are reserved. -/
def withAliases (clause : Clause) (s : Scope) (aliasReserved : Bool) : Clause where
  expression := String.ofList
    (Text.respell (clause.outSpelling s aliasReserved) [] clause.expression.toList)
  names := s.aliases aliasReserved s.nameCount clause.names
  values := clause.values

/-! ## Spellings -/

variable {clause : Clause} {s : Scope} {aliasReserved : Bool} {t a : String}

theorem rawSpelling_name (hnames : (Keyed.keys clause.names).Nodup) (h : (t, a) ∈ clause.names) :
    clause.rawSpelling t = a := by
  rw [rawSpelling, (Keyed.find?_eq_some_iff hnames).mpr h]

theorem rawSpelling_value (hnot : t ∉ Keyed.keys clause.names)
    (hvalues : (Keyed.keys clause.values).Nodup) {pre post : List (String × WireValue)}
    {w : WireValue} (h : clause.values = pre ++ (t, w) :: post) :
    clause.rawSpelling t = slotText pre.length := by
  have hfind : Keyed.find? t clause.values = some w := by
    rw [Keyed.find?_eq_some_iff hvalues, h]
    exact List.mem_append_right _ List.mem_cons_self
  rw [rawSpelling, Keyed.find?_eq_none hnot, hfind]
  exact congrArg (slotText ·.length) (Keyed.takeWhile_ne hvalues h)

theorem outSpelling_name (hnames : (Keyed.keys clause.names).Nodup)
    {pre post : List (String × String)} (h : clause.names = pre ++ (t, a) :: post) :
    clause.outSpelling s aliasReserved t = if needsAlias aliasReserved a then
      s.nameToken (s.nameCount + (s.aliases aliasReserved s.nameCount pre).length) else a := by
  have hfind : Keyed.find? t clause.names = some a := by
    rw [Keyed.find?_eq_some_iff hnames, h]
    exact List.mem_append_right _ List.mem_cons_self
  rw [outSpelling, hfind]
  dsimp only
  rw [Keyed.takeWhile_ne hnames h]

theorem outSpelling_value (hnot : t ∉ Keyed.keys clause.names) :
    clause.outSpelling s aliasReserved t = t := by
  rw [outSpelling, Keyed.find?_eq_none hnot]

/--
What a reserved word is spelled with is bound to it, and every other attribute is spelled out.
-/
theorem withAliases_names (hnames : (Keyed.keys clause.names).Nodup) (h : (t, a) ∈ clause.names) :
    if needsAlias aliasReserved a then
      (clause.outSpelling s aliasReserved t, a) ∈ (clause.withAliases s aliasReserved).names
    else clause.outSpelling s aliasReserved t = a := by
  obtain ⟨pre, post, hsplit⟩ := List.append_of_mem h
  rw [outSpelling_name hnames hsplit]
  by_cases ha : needsAlias aliasReserved a = true
  · rw [if_pos ha, if_pos ha, withAliases, hsplit, Scope.aliases_append, Scope.aliases, if_pos ha]
    exact List.mem_append_right _ List.mem_cons_self
  · rw [if_neg ha, if_neg ha]

end Clause

/-! ## Schemas -/

/-- The attributes of the schema are words and no keywords, and no two properties share one. -/
structure Schema.Spellable (schema : Schema) : Prop where
  distinct : (schema.properties.map fun e => e.2.wireName).Nodup
  word : ∀ e ∈ schema.properties,
    Config.isWord e.2.wireName = true ∧ Template.isKeyword e.2.wireName.toList = false

theorem find?_wireName {ps : List Property} (h : (ps.map Property.wireName).Nodup) {p : Property}
    (hp : p ∈ ps) : ps.find? (fun q => q.wireName == p.wireName) = some p := by
  induction ps with
  | nil => cases hp
  | cons q ps ih =>
    obtain ⟨hq, hps⟩ := List.nodup_cons.mp h
    rcases List.mem_cons.mp hp with rfl | hp
    · exact List.find?_cons_of_pos (by simp)
    · have hne : q.wireName ≠ p.wireName := fun he => hq (he ▸ List.mem_map_of_mem hp)
      rw [List.find?_cons_of_neg (by simpa using hne)]
      exact ih hps hp

namespace Schema.Spellable

variable {schema : Schema} {name : String} {p : Property}

theorem mem_of_resolve (hp : schema.resolve name = .ok p) : (name, p) ∈ schema.properties := by
  unfold Schema.resolve at hp
  split at hp
  · next q hq =>
    cases hp
    exact Keyed.mem_of_find? hq
  · cases hp

theorem known (h : schema.Spellable) (hp : schema.resolve name = .ok p) :
    schema.ofWireName? p.wireName = some p := by
  refine find?_wireName ?_ (List.mem_map_of_mem (mem_of_resolve hp))
  rw [List.map_map]
  exact h.distinct

end Schema.Spellable

/-! ## Side by side -/

/-- A value placeholder is no name placeholder, since these start with another sigil. -/
theorem Draft.Numbered.nextValue_notMem_names {d : Draft} (h : d.Numbered) (d' : Draft) :
    d'.nextValue ∉ d.names.map Prod.fst := by
  rw [h.names]
  intro hm
  obtain ⟨i, -, hi⟩ := List.mem_map.mp hm
  have hhead := congrArg (fun t : String => t.toList.head?) hi
  simp [Scope.nameToken, Draft.nextValue, Scope.valueToken] at hhead

/-- A clause and its template, once the draft of the clause is known. -/
theorem Clause.sideBySide {s : Scope}
    (hname : ∀ c ∈ s.namePrefix.toList, Text.isWordChar c = true)
    (hvalue : ∀ c ∈ s.valuePrefix.toList, Text.isWordChar c = true)
    {schema : Schema} (hschema : schema.Spellable) {input : Input}
    (hi : input.schema = some schema) (hfew : input.arguments.length ≤ maxSlot + 1) {last : Draft}
    (hlast : (Draft.on s).Grows last) {clause : Clause} (hnames : clause.names = last.names)
    (hvalues : clause.values.map Prod.fst = last.bindings.map Prod.fst) :
    SideBySide schema input last clause.rawSpelling (clause.outSpelling s input.aliasReserved) := by
  have hnumbered := (Draft.Numbered.on s).grows hlast
  have hdistinct : (Keyed.keys clause.names).Nodup := by
    rw [hnames]
    exact hnumbered.nodup_names
  have hdistinct' : (Keyed.keys clause.values).Nodup := by
    rw [Keyed.keys, hvalues]
    exact hnumbered.nodup_bindings
  have hother (d : Draft) : d.nextValue ∉ Keyed.keys clause.names := by
    rw [hnames]
    exact hnumbered.nextValue_notMem_names d
  constructor
  case schema_eq => exact hi
  case few => exact hfew
  case word => exact fun hp => hschema.word _ (Schema.Spellable.mem_of_resolve hp)
  case known => exact hschema.known
  case name =>
    intro d a hg
    have hscope : d.scope = s := hg.scope_eq.symm.trans hlast.scope_eq
    obtain ⟨post, hpost⟩ := hg.names_prefix
    have hsplit : clause.names = d.names ++ (d.nextName, a) :: post := by
      rw [hnames, ← hpost, List.append_assoc, List.singleton_append]
    refine ⟨?_, ?_, ?_⟩
    · rw [Draft.nextName, hscope]
      exact Scope.isToken_numbered hname _
    · refine Clause.rawSpelling_name hdistinct ?_
      rw [hsplit]
      exact List.mem_append_right _ List.mem_cons_self
    · rw [Clause.outSpelling_name hdistinct hsplit, Input.spelling, ← hscope]
      rfl
  case value =>
    intro d b hg
    have hscope : d.scope = s := hg.scope_eq.symm.trans hlast.scope_eq
    obtain ⟨post, hpost⟩ := hg.bindings_prefix
    have hkeys : clause.values.map Prod.fst
        = d.bindings.map Prod.fst ++ d.nextValue :: post.map Prod.fst := by
      rw [hvalues, ← hpost, List.append_assoc, List.map_append]
      rfl
    obtain ⟨pre, more, hsplit, hpre, hmore⟩ := List.map_eq_append_iff.mp hkeys
    obtain ⟨⟨token, w⟩, post', rfl, htoken, -⟩ := List.map_eq_cons_iff.mp hmore
    have hplace : pre.length = d.bindings.length := by
      simpa using congrArg List.length hpre
    refine ⟨?_, ?_, Clause.outSpelling_value (hother d)⟩
    · rw [Draft.nextValue, hscope]
      exact Scope.isToken_numbered hvalue _
    · have hnot := hother d
      rw [← htoken] at hnot ⊢
      rw [← hplace]
      exact Clause.rawSpelling_value hnot hdistinct' hsplit

/-! ## The two front ends -/

namespace Compiler

/-- The template of a predicate is read to its end, beside the making of the predicate. -/
theorem template_written {c : Compiler} {s : Scope} {kind : ClauseKind} {schema : Schema}
    {p : Predicate} {vs : List Value} {clause : Clause} {input : Input} {expression : List Char}
    {last : Draft}
    (hs : SideBySide schema input last clause.rawSpelling
      (clause.outSpelling s input.aliasReserved))
    (hclause : clause.expression = String.ofList expression)
    (hinput : input.template = clause.template) (harguments : input.arguments = vs)
    (hliterals : p.literals? = some vs)
    (h : c.draft (c.codec.binder schema) (.predicate kind schema p) (.on s)
      = .ok (expression, last)) :
    Template.translate (c.codec.binder schema) input (.on s)
      = .ok (Text.respell (clause.outSpelling s input.aliasReserved) [] expression,
          last.shadow input) := by
  obtain ⟨condition, d₁, hc, hx⟩ := Drafting.bind_ok.mp (Drafting.refuse_ok h).2
  obtain ⟨rfl, rfl⟩ := Drafting.pure_ok.mp hx
  have hunread : input.unread (.on s) = vs ++ [] := by
    rw [List.append_nil, ← harguments]
    rfl
  obtain ⟨hbeside, -⟩ := p.translate_beside hs kind hc .refl hliterals hunread
  have hrespell : ∀ spell, Text.respell spell [] condition.chars
      = (condition.respell spell).chars := by
    intro spell
    have ht := condition.chars_respell spell hbeside.readable [] Text.Boundary.nil
    rwa [List.append_nil, show Text.respell spell [] [] = [] from rfl, List.append_nil] at ht
  have htext : input.template.toList = (condition.respell clause.rawSpelling).chars := by
    rw [hinput, Clause.template, hclause, String.toList_ofList, String.toList_ofList, hrespell]
  obtain ⟨y, -, hyd, hpass⟩ := hbeside.passage ⟨none, none, .on s⟩ rfl rfl
  -- The passage through the whole text, with nothing behind it.
  obtain ⟨ctx, -, hwrites⟩ := hpass .start ⟨rfl, rfl, rfl⟩ [] trivial
  have hall := hwrites [] y.draft (Writes.nil ctx y.draft) 0
  rw [List.append_nil, List.append_nil, hyd] at hall
  rw [translate_eq_readFrom, htext, hrespell]
  exact hall

/--
**The two front ends agree.** A predicate that is accepted has a template that is accepted on the
same scope, with the literals of the predicate as arguments. Both bind the same values under the
same placeholders, and the expressions are the same but for the names: in that of the template an
attribute stands for itself, or behind a new placeholder of its own if it is a reserved word. If
maps come in other orders when the template is translated, hooks may seal the values from other
texts, but nothing else is different. That there are no more arguments than slots can count is true
of every list in memory.
-/
theorem template_agrees (c : Compiler) {s s' : Scope} {kind : ClauseKind} {schema : Schema}
    {p : Predicate} {vs : List Value} {clause : Clause}
    (hname : ∀ ch ∈ s.namePrefix.toList, Text.isWordChar ch = true)
    (hvalue : ∀ ch ∈ s.valuePrefix.toList, Text.isWordChar ch = true)
    (hschema : schema.Spellable) (hliterals : p.literals? = some vs)
    (hcount : vs.length ≤ Template.maxSlot + 1)
    (h : c.translate .sync (.predicate kind schema p) s = .ok clause s') :
    let aliased := clause.withAliases s c.config.aliasReserved
    let template := Source.template kind clause.template vs (some schema)
    let reordered := WireValue.Reordered c.hooks.Knows
    c.translate .sync template s = .ok aliased (s.enter aliased.names aliased.values) ∧
      (∀ hooks, c.hooks.Reorders hooks → c.hooks.OrderBlind → ∃ aliased' s₁,
        Compiler.translate { c with hooks } .sync template s = .ok aliased' s₁ ∧
        aliased.Akin reordered aliased' ∧
        (s.enter aliased.names aliased.values).Akin reordered s₁) ∧
      ∀ t a, (t, a) ∈ clause.names →
        if needsAlias c.config.aliasReserved a then
          (clause.outSpelling s c.config.aliasReserved t, a) ∈ aliased.names
        else clause.outSpelling s c.config.aliasReserved t = a := by
  intro aliased template reordered
  obtain ⟨expression, last, values, hd, hr, rfl, -⟩ := Draft.complete_iff.mp h
  have hgrows := c.draft_minting _ _ hd
  have hscope : last.scope = s := hgrows.scope_eq
  have hkeys := Draft.settled_keys (Draft.resolve_ok hr).2
  let clause : Clause := ⟨String.ofList expression, last.names, values⟩
  let input : Input := ⟨clause.template, vs, some schema, c.config.aliasReserved⟩
  have hs : SideBySide schema input last clause.rawSpelling
      (clause.outSpelling s input.aliasReserved) :=
    Clause.sideBySide hname hvalue hschema rfl hcount hgrows rfl hkeys
  have hwritten := template_written hs rfl rfl rfl hliterals hd
  have hdistinct := ((Draft.Numbered.on s).grows hgrows).nodup_names
  have hnames : (last.shadow input).names
      = (clause.withAliases s c.config.aliasReserved).names := by
    rw [Draft.shadow, hscope]
    rfl
  -- The bindings are those of the predicate, and so they come to the same values.
  have htranslated : c.translate .sync template s
      = .ok aliased (s.enter aliased.names aliased.values) := by
    refine Draft.complete_iff.mpr ⟨_, last.shadow input, values, hwritten, hr, ?_, ?_⟩
    · change clause.withAliases s c.config.aliasReserved = _
      rw [hnames, Clause.withAliases, String.toList_ofList]
    · rw [hnames]
      rfl
  refine ⟨htranslated, fun hooks horder hblind => ?_,
    fun t a ht => Clause.withAliases_names hdistinct ht⟩
  exact (translate_reordered horder hblind (fun _ h => h) .sync template
    (.of_self .same s)).ok_right htranslated

/-- A schema with a reserved word and with a number format. -/
def bottleSchema : Schema :=
  ⟨"Bottle", [("Name", .plain "name"), ("Vintage", (Property.plain "vintage").withFormat "D6")]⟩

/-- Of neither of two years, and with a long name. -/
def isRare : Predicate :=
  .and [.not (.compare (.property "Vintage") .among [.value (.integer 1961), .value (.integer 82)]),
    .compare (.size "Name") .greater [.value (.integer 8)]]

theorem rare_bottles_agree :
    let c : Compiler := ⟨.standard, .empty⟩
    ∃ aliased : Clause,
      c.translate .sync (.template .filter "(NOT (vintage IN ({0}, {1}))) AND (size(name) > {2})"
          [.integer 1961, .integer 82, .integer 8] (some bottleSchema)) c.scope
        = .ok aliased (c.scope.enter aliased.names aliased.values) ∧
      aliased.expression = "(NOT (vintage IN (:p0, :p1))) AND (size(#attr0) > :p2)" ∧
      aliased.names = [("#attr0", "name")] ∧
      aliased.values = [(":p0", .text "001961"), (":p1", .text "000082"),
          (":p2", .number "8")] := by
  intro c
  let clause : Clause := ⟨"(NOT (#attr0 IN (:p0, :p1))) AND (size(#attr1) > :p2)",
    [("#attr0", "vintage"), ("#attr1", "name")],
    [(":p0", .text "001961"), (":p1", .text "000082"), (":p2", .number "8")]⟩
  have h : c.translate .sync (.predicate .filter bottleSchema isRare) c.scope
      = .ok clause (c.scope.enter clause.names clause.values) := by
    decide +kernel
  have htemplate : clause.template = "(NOT (vintage IN ({0}, {1}))) AND (size(name) > {2})" := by
    decide +kernel
  have hschema : bottleSchema.Spellable := ⟨by decide, by decide +kernel⟩
  have hliterals : isRare.literals? = some [.integer 1961, .integer 82, .integer 8] := rfl
  obtain ⟨hagree, -⟩ := template_agrees c (List.all_eq_true.mp (by decide))
    (List.all_eq_true.mp (by decide)) hschema hliterals (by decide) h
  rw [htemplate] at hagree
  exact ⟨clause.withAliases c.scope true, hagree, by decide +kernel, by decide +kernel, rfl⟩

end Compiler

end Clauses
