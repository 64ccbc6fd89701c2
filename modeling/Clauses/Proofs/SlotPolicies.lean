import Clauses.Proofs.Policies
import Clauses.Proofs.Grammar.Slotted

/-!
# Each slot follows its own comparison

What the reader of a template knows goes on from one comparison to the next: the last attribute,
whether a path goes on into it, and the function whose argument comes next. In a condition nothing
of that reaches the slots of another comparison. Behind a path only this path is known, whatever was
known in front of it, and the slots that are compared with it come before the next path.

* `Slotted.Runs` — what lexemes make known, and the ways in which they bind their slots
* `Slotted.Formula.runs` — a condition binds each slot in the way of the path that it is compared
  with
* `Compiler.slots_bound_by_own_path` — so does a template that is such a condition,
  however it is laid out
-/

namespace Clauses

open Template

namespace Slotted

/-! ## Ways of binding -/

/-- The schema stores this property under the attribute. -/
def IsStored (schema : Option Schema) (attributeName : String) (p : Property) : Prop :=
  ∃ x ∈ schema, ∃ name, (name, p) ∈ x.properties ∧ p.wireName = attributeName

/-- The property in the format of the slot, if it has one. -/
def Slot.style (x : Slot) (p : Property) : Property :=
  match x.format with
  | some f => p.withFormat (String.ofList f)
  | none => p

/--
The property in whose way the slot is bound. It is the one that is stored under the attribute, if
the slot is compared with the whole attribute and the schema knows it, and one that is not sealed
otherwise; a format of the slot comes first.
-/
inductive Use.Follows (s : Scope) (schema : Option Schema) (u : Use) : Property → Prop where
  | stored {a : String} {p : Property} (ha : u.path.root.attribute? s = some a)
    (hu : u.path.isPlain u.function = false) (hp : IsStored schema a p) :
    Follows s schema u (u.slot.style p)
  | plain {a : String} (ha : u.path.root.attribute? s = some a)
    (hu : u.path.isPlain u.function = false → ∀ p, ¬IsStored schema a p) :
    Follows s schema u (u.slot.style (.plain a))

/-- What is known when the path of the slot has been read. -/
def Use.subject (s : Scope) (u : Use) : Option Template.Subject :=
  (u.path.root.attribute? s).map fun a => ⟨a, u.path.isPlain u.function⟩

/-- The argument of the slot, and the way in which it is bound behind a path. -/
def Slot.policy (schema : Option Schema) (subject : Option Template.Subject) (x : Slot) :
    Nat × Property :=
  (x.index, slotProperty schema ⟨subject, false, false, none⟩ x.index (x.format.map String.ofList))

/-- The argument of the slot, and the way in which it is bound. -/
def Use.policy (s : Scope) (schema : Option Schema) (u : Use) : Nat × Property :=
  u.slot.policy schema (u.subject s)

/-! ## What lexemes make known -/

/-- The token can be read, unless it is a name within a path that the scope does not know. -/
def MayStand (s : Scope) : Context × Token → Prop
  | (ctx, .placeholder sigil w) => sigil = .name ∧
    (ctx.afterDot = false → (s.attribute? (String.ofList ('#' :: w))).isSome = true)
  | (ctx, .word w true) => ctx.afterDot = false ∧
    isKeyword w = true ∨ (Builtin.ofName? w).isSome = true
  | _ => True

/-- Tokens lead from one state of knowledge to another, and bind their slots in these ways. -/
structure Passes (s : Scope) (schema : Option Schema) (ctx : Context) (ts : List Token)
    (uses : List (Nat × Property)) (ctx' : Context) : Prop where
  after : ctx.after s.attribute? ts = ctx'
  policies : policies s.attribute? schema ctx ts = uses
  stand : ∀ x ∈ ctx.trace s.attribute? ts, MayStand s x

/-- So do lexemes, however they are written; `behind` says whether a bracket opens behind them. -/
def Runs (s : Scope) (schema : Option Schema) (behind : Bool) (ctx : Context) (ls : List Lexeme)
    (uses : List (Nat × Property)) (ctx' : Context) : Prop :=
  ∀ ts, Tokens behind ls ts → Passes s schema ctx ts uses ctx'

variable {s : Scope} {schema : Option Schema} {behind : Bool} {ctx ctx₁ ctx' : Context}
    {ls ls' : List Lexeme}
  {uses uses' : List (Nat × Property)}

theorem Passes.append {ts ts' : List Token} (h : Passes s schema ctx ts uses ctx₁)
    (h' : Passes s schema ctx₁ ts' uses' ctx') :
    Passes s schema ctx (ts ++ ts') (uses ++ uses') ctx' where
  after := by
    rw [Context.after, List.foldl_append]
    exact (congrArg (List.foldl _ · ts') h.after).trans h'.after
  policies := by
    rw [Template.policies, Context.trace_append, h.after, List.filterMap_append]
    exact congrArg₂ (· ++ ·) h.policies h'.policies
  stand := by
    rw [Context.trace_append, h.after]
    exact List.forall_mem_append.mpr ⟨h.stand, h'.stand⟩

theorem Runs.nil : Runs s schema behind ctx [] [] ctx
  | _, .nil => ⟨rfl, rfl, List.forall_mem_nil _⟩

theorem Runs.append (h : Runs s schema (opens behind ls') ctx ls uses ctx₁)
    (h' : Runs s schema behind ctx₁ ls' uses' ctx') :
    Runs s schema behind ctx (ls ++ ls') (uses ++ uses') ctx' := by
  intro ts hts
  obtain ⟨ts₁, ts₂, rfl, h₁, h₂⟩ := hts.split
  exact (h ts₁ h₁).append (h' ts₂ h₂)

theorem Runs.cons {l : Lexeme} (h : Runs s schema (opens behind ls) ctx [l] uses ctx₁)
    (h' : Runs s schema behind ctx₁ ls uses' ctx') :
    Runs s schema behind ctx (l :: ls) (uses ++ uses') ctx' := h.append h'

/-- A single lexeme is a single token. -/
theorem Runs.single {l : Lexeme} (h : ∀ t, l.Gives behind t → ctx.next s.attribute? t = ctx' ∧
    (policy? schema (ctx, t)).toList = uses ∧ MayStand s (ctx, t)) :
    Runs s schema behind ctx [l] uses ctx'
  | _, .cons hl .nil => by
    obtain ⟨hnext, hpolicy, hstand⟩ := h _ hl
    refine ⟨hnext, ?_, List.forall_mem_singleton.mpr hstand⟩
    rw [policies_cons, hpolicy]
    exact List.append_nil _

/-! ## Single lexemes -/

variable {x : Option Template.Subject} {isOpen : Bool} {g : Option Builtin}

/-- A mark that does not go on with a path closes it. -/
theorem Runs.mark (c : Char) (hc : c ≠ '.' ∧ c ≠ '[') :
    Runs s schema behind ⟨x, isOpen, false, g⟩ [.mark c] [] ⟨x, false, false, g⟩ := by
  refine .single fun t ht => ?_
  cases ht
  refine ⟨?_, rfl, trivial⟩
  simp [Context.next, Context.pass, hc.1, hc.2]

theorem Runs.marks {cs : List Char} (h : ∀ c ∈ cs, c ≠ '.' ∧ c ≠ '[') :
    Runs s schema behind ⟨x, isOpen, false, g⟩ (cs.map .mark) []
    ⟨x, isOpen && cs.isEmpty, false, g⟩ := by
  induction cs generalizing isOpen with
  | nil =>
    rw [List.isEmpty_nil, Bool.and_true]
    exact .nil
  | cons c cs ih =>
    obtain ⟨hc, hcs⟩ := List.forall_mem_cons.mp h
    have hrest : Runs s schema behind ⟨x, false, false, g⟩ (cs.map .mark) []
      ⟨x, false, false, g⟩ := ih hcs
    rw [List.isEmpty_cons, Bool.and_false]
    exact (Runs.mark c hc).cons hrest

theorem Runs.keyword (k : Keyword) :
    Runs s schema behind ⟨x, isOpen, false, g⟩ [.keyword k] [] ⟨x, false, false, g⟩ := by
  refine .single fun t ht => ?_
  cases ht with
  | keyword h =>
    have hk := Keyword.isKeyword h
    refine ⟨by simp [Context.next, hk], rfl, ?_⟩
    cases behind with
    | true => exact .inl ⟨rfl, hk⟩
    | false => trivial

theorem Runs.function (f : Builtin) :
    Runs s schema true ⟨x, isOpen, false, g⟩ [.function f] [] ⟨x, false, false, some f⟩ := by
  refine .single fun t ht => ?_
  cases ht with
  | function h =>
    have hf := ofName?_function h
    refine ⟨?_, rfl, .inr (Option.isSome_of_eq_some hf)⟩
    simp [Context.next, isKeyword_function h, hf, Context.closeSubject]

/-- A slot is bound in the way of the subject. -/
theorem Runs.slot (y : Slot) :
    Runs s schema behind ⟨x, isOpen, false, g⟩ [y.lexeme] [y.policy schema x]
    ⟨x, false, false, g⟩ := by
  refine .single fun t ht => ?_
  cases ht
  exact ⟨rfl, rfl, trivial⟩

/-! ## Paths -/

variable {a : String}

/-- What a path starts with is the subject, and nothing else is known. -/
theorem Runs.root {r : Root} (ha : r.attribute? s = some a) :
    Runs s schema false ⟨x, isOpen, false, g⟩ [r.lexeme] []
      ⟨some ⟨a, g == some .size || g == some .attributeType⟩, true, false, none⟩ := by
  refine .single fun t ht => ?_
  cases r with
  | word w hw =>
    cases ht
    cases ha
    exact ⟨by simp [Context.next, hw, Context.openSubject], rfl, trivial⟩
  | name w =>
    cases ht
    have ha : s.attribute? (String.ofList ('#' :: w)) = some a := ha
    refine ⟨?_, rfl, rfl, fun _ => Option.isSome_of_eq_some ha⟩
    simp only [Context.next, Sigil.char, ha]
    rfl

/--
A dot or a bracket leads into the attribute, at the first step and at each of those behind it.
-/
theorem Runs.enter {p : Bool} (h : (isOpen || p) = true) {c : Char} (hc : c = '.' ∨ c = '[') :
    Runs s schema behind ⟨some ⟨a, p⟩, isOpen, false, none⟩ [.mark c] []
      ⟨some ⟨a, true⟩, false, c == '.', none⟩ := by
  refine .single fun t ht => ?_
  cases ht
  refine ⟨?_, rfl, trivial⟩
  cases isOpen with
  | true => rcases hc with rfl | rfl <;> rfl
  | false =>
    cases h
    rfl

/-- Behind a step, slots are not compared with the whole attribute. -/
theorem Runs.step {p : Bool} (h : (isOpen || p) = true) (step : Step) :
    Runs s schema false ⟨some ⟨a, p⟩, isOpen, false, none⟩ step.lexemes []
      ⟨some ⟨a, true⟩, false, false, none⟩ := by
  cases step with
  | member w =>
    refine (Runs.enter h (.inl rfl)).cons (.single fun t ht => ?_)
    cases ht
    exact ⟨rfl, rfl, trivial⟩
  | name w =>
    refine (Runs.enter h (.inl rfl)).cons (.single fun t ht => ?_)
    cases ht
    exact ⟨rfl, rfl, rfl, fun h : true = false => absurd h (by decide)⟩
  | index digits hdigits =>
    have hmarks : ∀ c ∈ digits, c ≠ '.' ∧ c ≠ '[' := by
      intro c hc
      have hdigit := hdigits c hc
      constructor <;> rintro rfl <;> revert hdigit <;> decide
    exact (Runs.enter h (.inr rfl)).cons ((Runs.marks hmarks).append (.mark ']' (by decide)))

/-- Nothing in a path is called. -/
theorem opens_steps (steps : List Step) : opens false (steps.flatMap Step.lexemes) = false := by
  cases steps with
  | nil => rfl
  | cons step steps => cases step <;> rfl

theorem Runs.steps : ∀ {isOpen p : Bool} (steps : List Step), (isOpen || p) = true →
    Runs s schema false ⟨some ⟨a, p⟩, isOpen, false, none⟩ (steps.flatMap Step.lexemes) []
      ⟨some ⟨a, p || !steps.isEmpty⟩, isOpen && steps.isEmpty, false, none⟩
  | isOpen, p, [], _ => by
    rw [List.isEmpty_nil, Bool.not_true, Bool.or_false, Bool.and_true]
    exact .nil
  | isOpen, p, step :: rest, h => by
    have hstep : Runs s schema (opens false (rest.flatMap Step.lexemes))
      ⟨some ⟨a, p⟩, isOpen, false, none⟩
        step.lexemes [] ⟨some ⟨a, true⟩, false, false, none⟩ := by
      rw [opens_steps]
      exact .step h step
    rw [List.isEmpty_cons, Bool.not_false, Bool.or_true, Bool.and_false]
    exact hstep.append (steps rest rfl)

/-- **Behind a path only this path is known**, whatever was known in front of it. -/
theorem Runs.path {p : Path} (ha : p.root.attribute? s = some a) :
    Runs s schema false ⟨x, isOpen, false, g⟩ p.lexemes []
      ⟨some ⟨a, p.isPlain g⟩, p.steps.isEmpty, false, none⟩ := by
  have hroot : Runs s schema (opens false (p.steps.flatMap Step.lexemes)) ⟨x, isOpen, false, g⟩
      [p.root.lexeme] [] ⟨some ⟨a, g == some .size || g == some .attributeType⟩,
          true, false, none⟩ := by
    rw [opens_steps]
    exact .root ha
  exact hroot.cons (.steps p.steps rfl)

/-! ## Conditions -/

theorem Runs.comparator (op : Comparator) : Runs s schema behind ⟨x, isOpen, false, g⟩ op.lexemes []
    ⟨x, false, false, g⟩ := by
  obtain ⟨c, cs, htext, hmarks⟩ := op.exists_cons
  have hruns : Runs s schema behind ⟨x, isOpen, false, g⟩ ((c :: cs).map .mark) []
      ⟨x, isOpen && (c :: cs).isEmpty, false, g⟩ := by
    refine .marks fun d hd => ?_
    rcases hmarks d hd with rfl | rfl | rfl <;> decide
  rw [Comparator.lexemes, htext]
  rwa [List.isEmpty_cons, Bool.and_false] at hruns

theorem Runs.further : ∀ (ys : List Slot),
    Runs s schema behind ⟨x, false, false, g⟩ (furtherLexemes ys) (ys.map (Slot.policy schema x))
      ⟨x, false, false, g⟩
  | [] => .nil
  | y :: ys => ((Runs.mark ',' (by decide)).cons (.slot y)).append (further ys)

theorem Runs.closed (h : Runs s schema false ctx ls uses ⟨x, isOpen, false, g⟩) :
    Runs s schema behind ctx (ls ++ [.mark ')']) uses ⟨x, false, false, g⟩ := by
  have hclosed : Runs s schema behind ctx (ls ++ [.mark ')']) (uses ++ []) ⟨x, false, false, g⟩ :=
    h.append (.mark ')' (by decide))
  rwa [List.append_nil] at hclosed

/-- What stands in the brackets of a function, and behind them. -/
theorem Runs.called (f : Builtin)
    (h : Runs s schema behind ⟨x, false, false, some f⟩ ls uses ctx') :
    Runs s schema behind ⟨x, isOpen, false, g⟩ ([.function f, .mark '('] ++ ls) uses ctx' :=
  (Runs.function f).cons ((Runs.mark '(' (by decide)).cons h)

/-- No comparison starts with a bracket. -/
theorem opens_comparator (op : Comparator) (y : Slot) :
    opens behind (op.lexemes ++ [y.lexeme]) = false := by
  obtain ⟨c, cs, htext, hmarks⟩ := op.exists_cons
  rw [Comparator.lexemes, htext]
  rcases hmarks c List.mem_cons_self with rfl | rfl | rfl <;> rfl

/--
Behind a condition without parts its path is known, and its slots are bound in the way of this path.
-/
theorem Atom.runs (c : Atom) (ha : c.path.root.attribute? s = some a) :
    Runs s schema behind ⟨x, false, false, none⟩ c.lexemes (c.uses.map (Use.policy s schema))
      ⟨some ⟨a, c.path.isPlain c.function⟩, false, false, none⟩ := by
  have huses : c.uses.map (Use.policy s schema)
      = c.slots.map (Slot.policy schema (some ⟨a, c.path.isPlain c.function⟩)) := by
    simp [Atom.uses, Use.policy, Use.subject, Function.comp_def, ha]
  rw [huses]
  cases c with
  | compare p op y =>
    have hpath : Runs s schema (opens behind (op.lexemes ++ [y.lexeme])) ⟨x, false,
      false, none⟩ p.lexemes []
        ⟨some ⟨a, p.isPlain none⟩, p.steps.isEmpty, false, none⟩ := by
      rw [opens_comparator]
      exact .path ha
    exact hpath.append ((Runs.comparator op).append (.slot y))
  | between p low high =>
    exact (Runs.path ha).append
      (.cons (.keyword .between)
        (.cons (.slot low) (.cons (.keyword (.connective .and)) (.slot high))))
  | among p first others =>
    have hvalues : Runs s schema behind ⟨some ⟨a, p.isPlain none⟩, false, false, none⟩
        (first.lexeme :: furtherLexemes others ++ [.mark ')'])
        ((first :: others).map (Slot.policy schema (some ⟨a, p.isPlain none⟩)))
        ⟨some ⟨a, p.isPlain none⟩, false, false, none⟩ :=
      .closed (.cons (.slot first) (.further others))
    exact (Runs.path ha).append (.cons (.keyword .among) (.cons (.mark '(' (by decide)) hvalues))
  | call f p y =>
    have hvalue : Runs s schema behind ⟨some ⟨a, p.isPlain (some f)⟩, p.steps.isEmpty, false, none⟩
        [.mark ',', y.lexeme, .mark ')'] [y.policy schema (some ⟨a, p.isPlain (some f)⟩)]
        ⟨some ⟨a, p.isPlain (some f)⟩, false, false, none⟩ :=
      .cons (.mark ',' (by decide)) (.cons (.slot y) (.mark ')' (by decide)))
    exact Runs.called f (.append (.path ha) hvalue)
  | size p op y =>
    have hvalue : Runs s schema behind ⟨some ⟨a, p.isPlain (some .size)⟩,
      p.steps.isEmpty, false, none⟩
        (.mark ')' :: (op.lexemes ++ [y.lexeme]))
        [y.policy schema (some ⟨a, p.isPlain (some .size)⟩)]
        ⟨some ⟨a, p.isPlain (some .size)⟩, false, false, none⟩ :=
      .cons (.mark ')' (by decide)) (.append (.comparator op) (.slot y))
    exact Runs.called .size (.append (.path ha) hvalue)

/-- The paths of the slots start with attributes that are known. -/
def Formula.RootsKnown (s : Scope) (f : Formula) : Prop :=
  ∀ u ∈ f.uses, (u.path.root.attribute? s).isSome = true

/-- Each slot of a condition is bound in the way of the path that it is compared with. -/
theorem Formula.runs (f : Formula) {behind : Bool} {x : Option Template.Subject}
    (hf : f.RootsKnown s) :
    ∃ y, Runs s schema behind ⟨x, false, false, none⟩ f.lexemes (f.uses.map (Use.policy s schema))
      ⟨y, false, false, none⟩ := by
  induction f generalizing behind x with
  | atom c =>
    obtain ⟨y, hy⟩ : ∃ y, y ∈ c.slots := by cases c <;> exact ⟨_, List.mem_cons_self⟩
    obtain ⟨a, ha⟩ := Option.isSome_iff_exists.mp (hf _ (List.mem_map_of_mem hy))
    exact ⟨_, c.runs ha⟩
  | not f ih =>
    obtain ⟨y, hy⟩ := ih hf
    exact ⟨y, (Runs.keyword .not).cons hy⟩
  | bracketed f ih =>
    obtain ⟨y, hy⟩ := ih hf
    exact ⟨y, (Runs.mark '(' (by decide)).cons hy.closed⟩
  | join c f g ihf ihg =>
    obtain ⟨hf, hg⟩ := List.forall_mem_append.mp hf
    obtain ⟨y, hy⟩ := ihf hf
    obtain ⟨z, hz⟩ := ihg hg
    refine ⟨z, ?_⟩
    rw [Formula.uses, List.map_append]
    exact hy.append ((Runs.keyword (.connective c)).cons hz)

/-- The name placeholders of the condition, those within paths too, are in the scope. -/
def Formula.NamesKnown (s : Scope) (f : Formula) : Prop :=
  ∀ w, .name w ∈ f.lexemes → (s.attribute? (String.ofList ('#' :: w))).isSome = true

/-! ## Templates -/

theorem MayStand.isKnown {x : Context × Token} (h : MayStand s x) : IsKnown s x := by
  obtain ⟨ctx, t⟩ := x
  cases t with
  | placeholder sigil w =>
    obtain ⟨rfl, h⟩ := h
    exact h
  | _ => trivial

theorem MayStand.isReadable {x : Context × Token} (h : MayStand s x)
    (hnames : ∀ w, x.2 = .placeholder .name w →
      (s.attribute? (String.ofList ('#' :: w))).isSome = true) :
    IsReadable s x := by
  obtain ⟨ctx, t⟩ := x
  cases t with
  | placeholder sigil w =>
    obtain ⟨rfl, -⟩ := h
    obtain ⟨a, ha⟩ := Option.isSome_iff_exists.mp (hnames w rfl)
    exact Scope.contains_iff.mpr (.inl ⟨by rw [String.toList_ofList]; rfl, a, ha⟩)
  | word w called => cases called <;> exact h
  | _ => trivial

theorem Tokens.mem_name {ts : List Token} {w : List Char} (h : Tokens behind ls ts)
    (hw : .placeholder .name w ∈ ts) : .name w ∈ ls := by
  induction h with
  | nil => cases hw
  | cons hl _ ih =>
    rcases List.mem_cons.mp hw with rfl | hw
    · cases hl
      exact List.mem_cons_self
    · exact List.mem_cons_of_mem _ (ih hw)

/-- All that the tokens of a laid out condition say about its slots, and that they can be read. -/
structure Reads (s : Scope) (schema : Option Schema) (template : String) (f : Formula) : Prop where
  fault : (lex template).fault = none
  policies : policies s.attribute? schema .start (tokensOf template)
    = f.uses.map (Use.policy s schema)
  isKnown : ∀ x ∈ Context.start.trace s.attribute? (tokensOf template), IsKnown s x
  isReadable : f.NamesKnown s →
    ∀ x ∈ Context.start.trace s.attribute? (tokensOf template), IsReadable s x

/-- A condition is read as such, however it is laid out. -/
theorem LaidOut.reads {f : Formula} {template : String} (h : LaidOut f.lexemes template.toList)
    (hf : f.RootsKnown s) : Reads s schema template f := by
  obtain ⟨placed, hcuts, htokens⟩ := h.tokens
  obtain ⟨htoken, hfault⟩ := hcuts.lexFrom 0
  have htoken : tokensOf template = placed.map Placed.token := htoken
  rw [← htoken] at htokens
  obtain ⟨y, hruns⟩ := f.runs hf
  have hpasses := hruns _ htokens
  refine ⟨hfault, ?_, ?_, fun hnames => ?_⟩
  · rw [← policies_visible]
    exact hpasses.policies
  · exact forall_trace_visible (fun _ _ => trivial) fun x hx => (hpasses.stand x hx).isKnown
  · refine forall_trace_visible (fun _ _ => trivial) fun x hx => ?_
    refine (hpasses.stand x hx).isReadable fun w hw => hnames w (htokens.mem_name ?_)
    rw [← hw]
    exact mem_of_mem_trace hx

/-! ## The property of a slot -/

theorem ofWireName?_iff {x : Schema} (hx : (x.properties.map fun e => e.2.wireName).Nodup)
    {p : Property} :
    x.ofWireName? a = some p ↔ (∃ name, (name, p) ∈ x.properties) ∧ p.wireName = a := by
  constructor
  · intro h
    obtain ⟨⟨name, q⟩, hq, rfl⟩ := List.mem_map.mp (List.mem_of_find?_eq_some h)
    exact ⟨⟨name, hq⟩, by simpa using List.find?_some h⟩
  · rintro ⟨⟨name, hp⟩, rfl⟩
    refine find?_wireName ?_ (List.mem_map.mpr ⟨_, hp, rfl⟩)
    rw [List.map_map]
    exact hx

/-- What the reader takes for the property of a slot is what the schema stores. -/
theorem knownProperty?_iff (hschema : ∀ x ∈ schema, (x.properties.map fun e => e.2.wireName).Nodup)
    {isPlain : Bool} {p : Property} :
    knownProperty? schema ⟨some ⟨a, isPlain⟩, false, false, none⟩ = some p ↔
      isPlain = false ∧ IsStored schema a p := by
  cases schema with
  | none => simp [knownProperty?, IsStored]
  | some x =>
    have hx := hschema x rfl
    cases isPlain with
    | true => simp [knownProperty?]
    | false => simp [knownProperty?, IsStored, ofWireName?_iff hx]

theorem slotProperty_eq (y : Slot) (isPlain : Bool) :
    slotProperty schema ⟨some ⟨a, isPlain⟩, false, false, none⟩ y.index (y.format.map String.ofList)
      = y.style
        ((knownProperty? schema ⟨some ⟨a, isPlain⟩, false, false, none⟩).getD (.plain a)) := by
  unfold slotProperty Slot.style
  cases y.format <;>
    cases knownProperty? schema ⟨some ⟨a, isPlain⟩, false, false, none⟩ <;> rfl

/-- There is exactly one property that a slot follows. -/
theorem Use.follows_iff
    (hschema : ∀ x ∈ schema, (x.properties.map fun e => e.2.wireName).Nodup) {u : Use}
    (hu : (u.path.root.attribute? s).isSome = true) {p : Property} :
    u.Follows s schema p ↔ p = (u.policy s schema).2 := by
  obtain ⟨a, ha⟩ := Option.isSome_iff_exists.mp hu
  have hpolicy : (u.policy s schema).2 = u.slot.style ((knownProperty? schema
      ⟨some ⟨a, u.path.isPlain u.function⟩, false, false, none⟩).getD (.plain a)) := by
    rw [← slotProperty_eq, policy, subject, ha]
    rfl
  rw [hpolicy]
  constructor
  · rintro (⟨ha', hplain, hp⟩ | ⟨ha', hno⟩)
    · obtain rfl := Option.some.inj (ha.symm.trans ha')
      rw [(knownProperty?_iff hschema).mpr ⟨hplain, hp⟩]
      rfl
    · obtain rfl := Option.some.inj (ha.symm.trans ha')
      cases hk : knownProperty? schema ⟨some ⟨a, u.path.isPlain u.function⟩,
          false, false, none⟩ with
      | none => rfl
      | some p =>
        obtain ⟨hplain, hp⟩ := (knownProperty?_iff hschema).mp hk
        exact absurd hp (hno hplain p)
  · rintro rfl
    cases hk : knownProperty? schema ⟨some ⟨a, u.path.isPlain u.function⟩, false, false, none⟩ with
    | none =>
      refine .plain ha fun hplain p hp => ?_
      rw [(knownProperty?_iff hschema).mpr ⟨hplain, hp⟩] at hk
      cases hk
    | some p =>
      obtain ⟨hplain, hp⟩ := (knownProperty?_iff hschema).mp hk
      exact .stored ha hplain hp

/--
The argument of the slot is bound to this, in the way of the property that the slot follows, where
so many values have been bound before.
-/
def Use.IsBoundTo (s : Scope) (schema : Option Schema) (b : Binder) (arguments : List Value)
    (u : Use × Nat) (binding : Binding) : Prop :=
  ∃ p, u.1.Follows s schema p ∧ b.BindsTo arguments ((u.1.slot.index, p), u.2) binding

theorem Use.isBoundTo_iff
    (hschema : ∀ x ∈ schema, (x.properties.map fun e => e.2.wireName).Nodup)
    {b : Binder} {arguments : List Value} {u : Use × Nat}
    (hu : (u.1.path.root.attribute? s).isSome = true) {binding : Binding} :
    Use.IsBoundTo s schema b arguments u binding ↔
      b.BindsTo arguments (u.map (Use.policy s schema) id) binding := by
  constructor
  · rintro ⟨p, hp, hb⟩
    rw [(u.1.follows_iff hschema hu).mp hp] at hb
    exact hb
  · exact fun hb => ⟨_, (u.1.follows_iff hschema hu).mpr rfl, hb⟩

theorem Formula.isBoundTo_iff
    (hschema : ∀ x ∈ schema, (x.properties.map fun e => e.2.wireName).Nodup)
    {f : Formula} (hf : f.RootsKnown s) {b : Binder} {arguments : List Value} {bs : List Binding} :
    List.Forall₂ (Use.IsBoundTo s schema b arguments) f.uses.zipIdx bs ↔
      List.Forall₂ (b.BindsTo arguments) (f.uses.map (Use.policy s schema)).zipIdx bs := by
  have hroots : ∀ u ∈ f.uses.zipIdx, (u.1.path.root.attribute? s).isSome = true :=
    fun u hu => hf u.1 (List.fst_mem_of_mem_zipIdx hu)
  rw [List.zipIdx_map, List.forall₂_map_left_iff]
  constructor
  · intro h
    exact ((List.forall₂_and_left _ _).mpr ⟨hroots, h⟩).imp fun u _ hu =>
      (Use.isBoundTo_iff hschema hu.1).mp hu.2
  · intro h
    exact ((List.forall₂_and_left _ _).mpr ⟨hroots, h⟩).imp fun u _ hu =>
      (Use.isBoundTo_iff hschema hu.1).mpr hu.2

end Slotted

theorem exists_of_forall₂ {α β : Type} {R : α → β → Prop} {as : List α} {bs : List β}
    (h : List.Forall₂ R as bs) : ∀ a ∈ as, ∃ b, R a b := by
  induction h with
  | nil => exact List.forall_mem_nil _
  | cons hab _ ih => exact List.forall_mem_cons.mpr ⟨⟨_, hab⟩, ih⟩

/-- What is bound in one way is bound to one thing. -/
theorem Binder.bindsTo_rightUnique (b : Binder) (arguments : List Value) :
    Relator.RightUnique (b.BindsTo arguments) := by
  rintro use binding binding' ⟨v, hv, hb⟩ ⟨v', hv', hb'⟩
  rw [hv] at hv'
  cases hv'
  exact Except.ok.inj (hb.symm.trans hb')

namespace Compiler

/--
**Each slot follows its own comparison.** Let a template be a condition in which slots are compared
with paths, laid out in any way, with a schema in which no two properties share an attribute. If it
is translated, then the argument of each slot has been bound in the way of the one property that its
own path and function ask for, whatever stands in front of it. And it is translated if the arguments
can be bound in these ways.
-/
theorem slots_bound_by_own_path (c : Compiler) {mode : Mode} {kind : ClauseKind} {template : String}
    {arguments : List Value} {schema : Option Schema} {s : Scope} {f : Slotted.Formula}
    (hschema : ∀ x ∈ schema, (x.properties.map fun e => e.2.wireName).Nodup)
    (hroots : f.RootsKnown s) (hlaid : Slotted.LaidOut f.lexemes template.toList) :
    (∀ clause s', c.translate mode (.template kind template arguments schema) s = .ok clause s' →
      ∃ bs, List.Forall₂ (Slotted.Use.IsBoundTo s schema (c.slotBinder schema) arguments)
          f.uses.zipIdx bs ∧
        Draft.resolve mode (s.label bs) = .ok clause.values) ∧
    (f.NamesKnown s → ∀ bs values,
      List.Forall₂ (Slotted.Use.IsBoundTo s schema (c.slotBinder schema) arguments)
        f.uses.zipIdx bs →
      Draft.resolve mode (s.label bs) = .ok values →
        ∃ clause s', c.translate mode (.template kind template arguments schema) s = .ok clause s' ∧
          clause.values = values) := by
  have hreads : Slotted.Reads s schema template f := hlaid.reads hroots
  simp only [Slotted.Formula.isBoundTo_iff hschema hroots, ← hreads.policies]
  constructor
  · intro clause s' h
    obtain ⟨out, d, values, hd, hvalues, rfl, rfl⟩ := template_ok_iff.mp h
    obtain ⟨bs, hbs, hlabel⟩ := template_bindings hreads.isKnown hd
    rw [hlabel] at hvalues
    exact ⟨bs, hbs, hvalues⟩
  · intro hnames bs values hbs hvalues
    obtain ⟨out, d, hd⟩ : ∃ out d, c.draft (c.slotBinder schema)
        (.template kind template arguments schema) (.on s) = .ok (out, d) :=
      template_made hreads.fault (hreads.isReadable hnames) (exists_of_forall₂ hbs)
    obtain ⟨bs', hbs', hlabel⟩ := template_bindings hreads.isKnown hd
    obtain rfl : bs' = bs := (Relator.RightUnique.forall₂ (Binder.bindsTo_rightUnique _ _)) hbs' hbs
    rw [← hlabel] at hvalues
    exact ⟨_, _, template_ok_iff.mpr ⟨out, d, values, hd, hvalues, rfl, rfl⟩, rfl⟩

/-- An attribute behind a name placeholder, and a part of it. -/
def totalAndPart : Slotted.Formula :=
  .join .and
    (.atom (.compare ⟨.name ['a', 't', 't', 'r', '0'], []⟩ ⟨.equal, by decide⟩ ⟨['0'], none⟩))
    (.not (.atom (.compare ⟨.word ['t', 'o', 't', 'a', 'l'] (by decide), [.member ['i', 'n']]⟩
      ⟨.notEqual, by decide⟩ ⟨['0'], none⟩)))

theorem totalAndPart_laidOut :
    Slotted.LaidOut totalAndPart.lexemes
    "#attr0 = \x7b0\x7d And NOT total.in<> \x7b0\x7d".toList := by
  have htext : "#attr0 = \x7b0\x7d And NOT total.in<> \x7b0\x7d".toList
      = ['#', 'a', 't', 't', 'r', '0'] ++ (' ' :: (['='] ++ (' ' ::
        (Template.slotChars ['0'] none ++ (' ' :: (['A', 'n', 'd'] ++ (' ' ::
        (['N', 'O', 'T'] ++ (' ' :: (['t', 'o', 't', 'a', 'l'] ++
        (['.'] ++ (['i', 'n'] ++ (['<'] ++ (['>'] ++ (' ' :: (Template.slotChars ['0'] none ++
        [])))))))))))))))) := by
    decide +kernel
  have hslot : Template.IsSlot ['0'] none := ⟨by simp, by simp, by decide, by simp⟩
  rw [htext]
  refine .cons (.name (by simp) (by simp; decide)) (fun _ => .cons (by decide) _)
    (.blank (by decide) ?_)
  refine .consAny (.mark (by decide) (by decide)) rfl (.blank (by decide) ?_)
  refine .consAny (.slot hslot) rfl (.blank (by decide) ?_)
  refine .cons (.keyword (by decide +kernel)) (fun _ => .cons (by decide) _) (.blank (by decide) ?_)
  refine .cons (.keyword (by decide +kernel)) (fun _ => .cons (by decide) _) (.blank (by decide) ?_)
  refine .cons (.word ⟨by decide, by decide⟩) (fun _ => .cons (by decide) _) ?_
  refine .consAny (.mark (by decide) (by decide)) rfl ?_
  refine .cons (.word ⟨by decide, by decide⟩) (fun _ => .cons (by decide) _) ?_
  refine .consAny (.mark (by decide) (by decide)) rfl ?_
  refine .consAny (.mark (by decide) (by decide)) rfl (.blank (by decide) ?_)
  exact .consAny (.slot hslot) rfl .nil

theorem total_and_part_bound :
    let c : Compiler := ⟨.standard, .empty⟩
    let schema : Schema := .ofList "Order" [⟨"total", "total", some "D4", none⟩]
    let s : Scope := c.scope.enter [("#attr0", "total")] []
    let template := "#attr0 = \x7b0\x7d And NOT total.in<> \x7b0\x7d"
    ∃ clause s', c.translate .sync (.template .filter template [.integer 3] (some schema)) s
      = .ok clause s' ∧
      clause.values = [(":p0", .text "0003"), (":p1", .number "3")] := by
  intro c schema s template
  have hname : s.attribute? "#attr0" = some "total" := by rfl
  have hschema : ∀ x ∈ some schema, (x.properties.map fun e => e.2.wireName).Nodup := by
    rintro x ⟨⟩
    exact List.nodup_singleton _
  have hroots : totalAndPart.RootsKnown s :=
    List.forall_mem_cons.mpr
      ⟨Option.isSome_of_eq_some hname, List.forall_mem_cons.mpr ⟨rfl, List.forall_mem_nil _⟩⟩
  have hnames : totalAndPart.NamesKnown s := by
    intro w hw
    have hw : w = ['a', 't', 't', 'r', '0'] := by
      simpa [totalAndPart, Slotted.Formula.lexemes, Slotted.Atom.lexemes, Slotted.Path.lexemes,
        Slotted.Step.lexemes, Slotted.Root.lexeme, Slotted.Slot.lexeme,
        Slotted.Comparator.lexemes] using hw
    rw [hw]
    exact Option.isSome_of_eq_some hname
  have hfirst : Slotted.Use.IsBoundTo s (some schema) (c.slotBinder (some schema)) [.integer 3]
      (⟨none, ⟨.name ['a', 't', 't', 'r', '0'], []⟩, ⟨['0'], none⟩⟩, 0)
      (.ready (.text "0003")) := by
    refine ⟨_, .stored hname rfl ⟨schema, rfl, "total", List.mem_singleton.mpr rfl, rfl⟩, ?_⟩
    exact ⟨.integer 3, rfl, rfl⟩
  have hsecond : Slotted.Use.IsBoundTo s (some schema) (c.slotBinder (some schema)) [.integer 3]
      (⟨none, ⟨.word ['t', 'o', 't', 'a', 'l'] (by decide), [.member ['i', 'n']]⟩,
        ⟨['0'], none⟩⟩, 1)
      (.ready (.number "3")) :=
    ⟨_, .plain rfl (fun h => absurd h (by decide)), .integer 3, rfl, rfl⟩
  exact (slots_bound_by_own_path c hschema hroots totalAndPart_laidOut).2 hnames
    [.ready (.text "0003"), .ready (.number "3")] _ (.cons hfirst (.cons hsecond .nil))
    (by decide +kernel)

end Compiler

end Clauses
