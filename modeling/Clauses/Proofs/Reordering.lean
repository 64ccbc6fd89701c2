import Clauses.Proofs.Renumbering
import Mathlib.Algebra.Ring.Nat

/-!
# Clauses in another order

A request is put together of five requests, one for each kind of clauses: whether a clause is added,
and what it is, depends on the clauses of its own kind and on nothing else, as long as it is made of
properties and values. The other kinds only move its numbers. So clauses may be added in another
order, as long as those of each kind stay in theirs.

* `RequestBuilder.Composed` — a request and one for each kind
* `RequestBuilder.run_composed` — what all clauses make of it, and what those of each kind do
* `RequestBuilder.OnlyRenumbers` — two courses that differ in the numbers of placeholders only
* `RequestBuilder.order_only_renumbers` — two orders, and the requests that are built
-/

namespace Clauses

/-! ## Scopes that grow -/

/-- A scope whose placeholders are numbered, and end where their words end. -/
structure Scope.Orderly (s : Scope) : Prop where
  numbered : s.Numbered
  prefixes : s.HasWordPrefixes

namespace Scope

variable {s s' s₁ s₁' : Scope} {names : List (String × String)} {values : List (String × WireValue)}

theorem Orderly.enter (h : s.Orderly) (hf : s.FollowOn names values) :
    (s.enter names values).Orderly :=
  ⟨h.numbered.enter hf, ⟨h.prefixes.name, h.prefixes.value⟩⟩

/-- An orderly scope has as many names as it has numbered. -/
theorem Orderly.length_names (h : s.Orderly) : s.nameTable.length = s.nameCount := by
  simpa [Keyed.keys] using h.numbered.names.length_eq

theorem Orderly.length_values (h : s.Orderly) : s.valueTable.length = s.valueCount := by
  simpa [Keyed.keys] using h.numbered.values.length_eq

theorem AlikeIn.keeps {text text' : String} (h : s.AlikeIn s' text text') (hk : s.Keeps s₁)
    (hk' : s'.Keeps s₁') : s₁.AlikeIn s₁' text text' :=
  fun later later' hl hl' => h later later' (hk.trans hl) (hk'.trans hl')

theorem AlikeIn.conjunction {a a' b b' : String} (ha : s.AlikeIn s' a a') (hb : s.AlikeIn s' b b') :
    s.AlikeIn s' (RequestBuilder.conjunction a b) (RequestBuilder.conjunction a' b') :=
  fun later later' hl hl' write =>
    RequestBuilder.conjunction_alike (ha later later' hl hl' write) (hb later later' hl hl' write)

/--
Slots that are both empty, or hold texts that are alike in the two scopes and in all later ones.
-/
def SlotsAlike (s s' : Scope) (slot slot' : Option String) : Prop :=
  Option.Rel (s.AlikeIn s') slot slot'

theorem SlotsAlike.keeps {slot slot' : Option String}
    (h : s.SlotsAlike s' slot slot') (hk : s.Keeps s₁)
    (hk' : s'.Keeps s₁') : s₁.SlotsAlike s₁' slot slot' := by
  cases h with
  | none => exact .none
  | some ht => exact .some (ht.keeps hk hk')

theorem SlotsAlike.isNone_eq {slot slot' : Option String} (h : s.SlotsAlike s' slot slot') :
    slot.isNone = slot'.isNone := by
  cases h <;> rfl

end Scope

/-- The sum over all kinds. -/
def ClauseKind.total (f : ClauseKind → Nat) : Nat := (all.map f).sum

/-- The sum grows by as much as the term of one kind does. -/
theorem ClauseKind.total_update {α : Type} (f : α → Nat) (q : ClauseKind → α)
    {kind : ClauseKind} {x : α} {n : Nat} (h : f x = f (q kind) + n) :
    total (fun k => f (Function.update q kind x k)) = total (fun k => f (q k)) + n := by
  cases kind <;> simp [total, all, Function.update, h] <;> omega

/-! ## Steps -/

/-- The step adds a clause that is made of properties and values. -/
def RequestStep.isLiteral : RequestStep → Bool
  | .clause _ source => source.isLiteral
  | .bind _ _ => false

/-- The step adds a clause of this kind. -/
def RequestStep.isOf (kind : ClauseKind) : RequestStep → Bool
  | .clause _ source => decide (source.kind = kind)
  | .bind _ _ => false

namespace RequestBuilder

/-- Slots that are alike stay so when alike texts are added to them. -/
theorem merge_alike {s s' : Scope} {slots slots' : Slots} {kind : ClauseKind} {text text' : String}
    (h : s.SlotsAlike s' (slots kind) (slots' kind)) (ht : s.AlikeIn s' text text') :
    s.SlotsAlike s' (merge slots kind text kind) (merge slots' kind text' kind) := by
  rw [merge, merge, Slots.set, Slots.set, if_pos rfl, if_pos rfl]
  generalize slots kind = slot, slots' kind = slot' at h
  cases h with
  | none => exact .some ht
  | some hprevious => exact .some (hprevious.conjunction ht)

theorem merge_other {kind k : ClauseKind} (h : k ≠ kind) (slots : Slots) (text : String) :
    merge slots kind text k = slots k :=
  if_neg h

/-! ## One request for each kind -/

/-- Does a step on the request of its kind. -/
def advanceEach (q : ClauseKind → RequestBuilder) (config : Config) (o : Occasion RequestStep) :
    ClauseKind → RequestBuilder :=
  fun kind => if o.step.isOf kind then ((q kind).advance ⟨config, o.hooks⟩ o.step).2 else q kind

/-- Does steps one after the other, each on the request of its kind. -/
def runEach (q : ClauseKind → RequestBuilder) (config : Config)
    (occasions : List (Occasion RequestStep)) : ClauseKind → RequestBuilder :=
  fun kind => ((q kind).run config (occasions.filter (·.step.isOf kind))).2

theorem advanceEach_clause (q : ClauseKind → RequestBuilder) (config : Config)
    (hooks : HookRegistry) (mode : Mode) (source : Source) :
    advanceEach q config ⟨hooks, .clause mode source⟩ = Function.update q source.kind
      ((q source.kind).advance ⟨config, hooks⟩ (.clause mode source)).2 := by
  funext kind
  by_cases h : kind = source.kind
  · subst h
    simp [advanceEach, RequestStep.isOf]
  · rw [Function.update_of_ne h]
    exact if_neg (by simpa [RequestStep.isOf] using Ne.symm h)

theorem runEach_cons (q : ClauseKind → RequestBuilder) (config : Config)
    (o : Occasion RequestStep) (occasions : List (Occasion RequestStep)) :
    runEach q config (o :: occasions) = runEach (advanceEach q config o) config occasions := by
  funext kind
  by_cases h : o.step.isOf kind = true
  · rw [runEach, runEach, advanceEach, List.filter_cons_of_pos (by exact h), run_cons, if_pos h]
  · rw [runEach, runEach, advanceEach, List.filter_cons_of_neg (by exact h), if_neg h]

/-- The clauses of a kind, in order, each with whether it has been added. -/
def verdicts (kind : ClauseKind) (r : RequestBuilder) (config : Config)
    (occasions : List (Occasion RequestStep)) : List (RequestStep × Bool) :=
  ((occasions.map Occasion.step).zip ((r.run config occasions).1.map Except.isOk)).filter
    (·.1.isOf kind)

/--
The request holds what those of all kinds hold: as many names and values as they do together, and
the expression of each kind, but for the numbers of its placeholders.
-/
structure Composed (r : RequestBuilder) (q : ClauseKind → RequestBuilder) : Prop where
  orderly : r.scope.Orderly
  orderlyEach : ∀ kind, (q kind).scope.Orderly
  names : r.scope.nameCount = ClauseKind.total fun kind => (q kind).scope.nameCount
  values : r.scope.valueCount = ClauseKind.total fun kind => (q kind).scope.valueCount
  alike : ∀ kind, r.scope.SlotsAlike (q kind).scope (r.expressions kind) ((q kind).expressions kind)

variable {c : Compiler} {r : RequestBuilder} {q : ClauseKind → RequestBuilder}

theorem Composed.start (h : c.scope.Orderly) : Composed (start c) fun _ => .start c where
  orderly := h
  orderlyEach _ := h
  names := rfl
  values := rfl
  alike _ := .none

/-- A slot of the request is open as long as it is in the request of its kind. -/
theorem Composed.isOpen_eq (h : Composed r q) (kind : ClauseKind) :
    isOpen r.expressions kind = isOpen (q kind).expressions kind := by
  rw [isOpen, isOpen, (h.alike kind).isNone_eq]

/-- A clause that is added to both. -/
theorem Composed.add (h : Composed r q) {kind : ClauseKind} {clause clause' : Clause}
    {s₁ s₁' : Scope} (hc : clause.Parallel r.scope (q kind).scope clause' s₁ s₁') :
    Composed ⟨s₁, merge r.expressions kind clause.expression⟩
      (Function.update q kind ⟨s₁', merge (q kind).expressions kind clause'.expression⟩) := by
  obtain ⟨rfl, rfl, hf, hf', hn, hv, halike⟩ := hc
  have hk := (h.orderly.numbered.enter_keeps hf).1
  have hk' := ((h.orderlyEach kind).numbered.enter_keeps hf').1
  refine ⟨h.orderly.enter hf, ?_, ?_, ?_, ?_⟩
  · rw [Function.forall_update_iff q fun _ x => x.scope.Orderly]
    exact ⟨(h.orderlyEach kind).enter hf', fun k _ => h.orderlyEach k⟩
  · rw [ClauseKind.total_update (·.scope.nameCount) q (n := clause.names.length)]
    · exact congrArg (· + clause.names.length) h.names
    · exact congrArg ((q kind).scope.nameCount + ·) hn.length_eq.symm
  · rw [ClauseKind.total_update (·.scope.valueCount) q (n := clause.values.length)]
    · exact congrArg (· + clause.values.length) h.values
    · exact congrArg ((q kind).scope.valueCount + ·) hv.length_eq.symm
  · rw [Function.forall_update_iff q fun k x => Scope.SlotsAlike _ x.scope
      (merge r.expressions kind clause.expression k) (x.expressions k)]
    refine ⟨merge_alike ((h.alike kind).keeps hk hk') halike, fun k hne => ?_⟩
    rw [merge_other hne]
    exact (h.alike k).keeps hk (.refl _)

theorem Composed.advance_clause (h : Composed r q) (c : Compiler) (mode : Mode) {source : Source}
    (hl : source.isLiteral = true) :
    let step := RequestStep.clause mode source
    (r.advance c step).1.isOk = ((q source.kind).advance c step).1.isOk ∧
      Composed (r.advance c step).2
        (Function.update q source.kind ((q source.kind).advance c step).2) := by
  have hr := h.orderly
  have hq := h.orderlyEach source.kind
  have hsame : Composed r (Function.update q source.kind (q source.kind)) := by
    rwa [Function.update_eq_self]
  dsimp only
  rw [RequestBuilder.advance_clause, RequestBuilder.advance_clause, ← h.isOpen_eq]
  split
  · rcases c.translate_parallel mode hl hr.numbered hq.numbered hr.prefixes hq.prefixes with
      ⟨clause, clause', s₁, s₁', ht, ht', hc⟩ | ⟨e, e', ht, ht'⟩
    · rw [ht, ht']
      exact ⟨rfl, h.add hc⟩
    · rw [ht, ht']
      exact ⟨rfl, hsame⟩
  · exact ⟨rfl, hsame⟩

/-- **A step does to the request what it does to the request of its kind.** -/
theorem Composed.advance (h : Composed r q) (config : Config) {o : Occasion RequestStep}
    (hl : o.step.isLiteral = true) :
    (∀ kind, o.step.isOf kind = true → (r.advance ⟨config, o.hooks⟩ o.step).1.isOk
      = ((q kind).advance ⟨config, o.hooks⟩ o.step).1.isOk) ∧
      Composed (r.advance ⟨config, o.hooks⟩ o.step).2 (advanceEach q config o) := by
  obtain ⟨hooks, step⟩ := o
  cases step with
  | bind v p => cases hl
  | clause mode source =>
    obtain ⟨hok, hc⟩ := h.advance_clause ⟨config, hooks⟩ mode hl
    refine ⟨fun kind hof => ?_, by rwa [advanceEach_clause]⟩
    rwa [← of_decide_eq_true hof]

/-! ## Runs -/

section

variable {kind : ClauseKind} {config : Config} {o : Occasion RequestStep}
  {occasions : List (Occasion RequestStep)}

theorem verdicts_of (h : o.step.isOf kind = true) : verdicts kind r config (o :: occasions) =
    (o.step, (r.advance ⟨config, o.hooks⟩ o.step).1.isOk)
      :: verdicts kind (r.advance ⟨config, o.hooks⟩ o.step).2 config occasions := by
  rw [verdicts, run_cons, List.map_cons, List.map_cons, List.zip_cons_cons,
    List.filter_cons_of_pos (by exact h)]
  rfl

theorem verdicts_other (h : ¬o.step.isOf kind = true) : verdicts kind r config (o :: occasions) =
    verdicts kind (r.advance ⟨config, o.hooks⟩ o.step).2 config occasions := by
  rw [verdicts, run_cons, List.map_cons, List.map_cons, List.zip_cons_cons,
    List.filter_cons_of_neg (by exact h)]
  rfl

end

/--
**All clauses together make what those of each kind make on their own.** By induction on the steps:
each clause is added, or fails, as it does among the clauses of its kind.
-/
theorem run_composed (config : Config) (occasions : List (Occasion RequestStep)) :
    ∀ {r : RequestBuilder} {q : ClauseKind → RequestBuilder}, Composed r q →
      (∀ o ∈ occasions, o.step.isLiteral = true) →
      (∀ kind, verdicts kind r config occasions
        = verdicts kind (q kind) config (occasions.filter (·.step.isOf kind))) ∧
        Composed (r.run config occasions).2 (runEach q config occasions) := by
  induction occasions with
  | nil => exact fun h _ => ⟨fun _ => rfl, h⟩
  | cons o occasions ih =>
    intro r q h hl
    rw [List.forall_mem_cons] at hl
    obtain ⟨hok, hstep⟩ := h.advance config hl.1
    obtain ⟨hverdicts, hrun⟩ := ih hstep hl.2
    rw [run_cons, runEach_cons]
    refine ⟨fun kind => ?_, hrun⟩
    -- The request of another kind does not see the step, and so its clauses go on as they were.
    by_cases hof : o.step.isOf kind = true
    · rw [verdicts_of hof, List.filter_cons_of_pos (by exact hof), verdicts_of hof, hok kind hof,
        hverdicts kind, advanceEach, if_pos hof]
    · rw [verdicts_other hof, List.filter_cons_of_neg (by exact hof), hverdicts kind,
        advanceEach, if_neg hof]

end RequestBuilder

/-! ## Two courses -/

/-- Wire values that are akin are written alike. -/
def Bound.Overlooks (W : WireValue → WireValue → Prop) (write : Bound → String) : Prop :=
  ∀ w w', W w w' → write (.value w) = write (.value w')

/-- Requests that are akin come out the same where the difference is overlooked. -/
theorem Request.Akin.inline_eq {W : WireValue → WireValue → Prop} {request request' : Request}
    (h : request.Akin W request') {write : Bound → String} (hwrite : Bound.Overlooks W write) :
    request'.inline write = request.inline write := by
  have hspell : Bound.spell request'.names request'.values write
      = Bound.spell request.names request.values write := by
    funext token
    have hfind := h.values.find? token
    rw [Bound.spell, Bound.spell, Bound.find?, Bound.find?, h.names]
    generalize Keyed.find? token request.values = x, Keyed.find? token request'.values = x' at hfind
    cases hfind with
    | none => rfl
    | some hw =>
      split
      · rfl
      · exact (hwrite _ _ hw).symm
      · rfl
  funext text
  rw [Request.inline, Request.inline, hspell]

namespace RequestBuilder

/-- The request that is built of these steps. -/
def built (c : Compiler) (occasions : List (Occasion RequestStep)) : Request :=
  ((start c).run c.config occasions).2.build

/--
In both courses the same clauses are added, and the same ones fail. The two requests hold as many
names and as many values. Their expressions come out the same once each placeholder is replaced by
what its own request binds it to, in any way of writing for wire values that are akin alike.
-/
structure OnlyRenumbers (c : Compiler) (W : WireValue → WireValue → Prop)
    (occasions occasions' : List (Occasion RequestStep)) : Prop where
  added : ∀ kind, verdicts kind (start c) c.config occasions
    = verdicts kind (start c) c.config occasions'
  inlined : ∀ kind write, Bound.Overlooks W write →
    ((built c occasions).expressions kind).map ((built c occasions).inline write)
      = ((built c occasions').expressions kind).map ((built c occasions').inline write)
  names : (built c occasions).names.length = (built c occasions').names.length
  values : (built c occasions).values.length = (built c occasions').values.length

theorem OnlyRenumbers.trans {c : Compiler} {W : WireValue → WireValue → Prop}
    {occasions occasions' occasions'' : List (Occasion RequestStep)}
    (h : OnlyRenumbers c Eq occasions occasions') (h' : OnlyRenumbers c W occasions' occasions'') :
    OnlyRenumbers c W occasions occasions'' where
  added kind := (h.added kind).trans (h'.added kind)
  inlined kind write hwrite :=
    (h.inlined kind write fun _ _ he => he ▸ rfl).trans (h'.inlined kind write hwrite)
  names := h.names.trans h'.names
  values := h.values.trans h'.values

/-- Other orders of maps do not even renumber placeholders. -/
theorem OnlyRenumbers.of_reorders (c : Compiler)
    {occasions occasions' : List (Occasion RequestStep)}
    (ho : List.Forall₂ Occasion.Reorders occasions occasions')
    (hblind : ∀ o ∈ occasions, o.hooks.OrderBlind) :
    OnlyRenumbers c (WireValue.Reordered (Occasion.AnyKnows occasions)) occasions occasions' := by
  obtain ⟨hanswers, hrun⟩ := Akin.run c.config ho hblind (fun _ h => h)
    (.of_self .same (start c))
  have hbuilt : (built c occasions).Akin _ (built c occasions') := hrun.build
  have hsteps : occasions'.map Occasion.step = occasions.map Occasion.step := by
    rw [← List.forall₂_eq_eq_eq, List.forall₂_map_left_iff, List.forall₂_map_right_iff]
    exact (ho.imp fun _ _ h => h.step).flip
  refine ⟨fun kind => ?_, fun kind write hwrite => ?_, ?_, ?_⟩
  · rw [verdicts, verdicts, hanswers, hsteps]
  · rw [hbuilt.inline_eq hwrite, hbuilt.expressions]
  · exact congrArg List.length hbuilt.names.symm
  · exact hbuilt.values.length_eq

/-- Alike expressions come out the same once their placeholders are replaced. -/
theorem inline_eq {r r' : RequestBuilder} {slot slot' : Option String}
    (h : r.scope.SlotsAlike r'.scope slot slot') (write : Bound → String) :
    slot.map (r.build.inline write) = slot'.map (r'.build.inline write) := by
  cases h with
  | none => rfl
  | some ht =>
    have he := (ht _ _ (.refl _) (.refl _) write).respell_eq
    exact congrArg (some ∘ String.ofList) he

/--
**The order of clauses of different kinds only renumbers placeholders.** Clauses that are made of
properties and values are added in two orders, which agree on the clauses of each kind, and each
clause finds the hooks and the maps as it does in the other order. Then the same clauses are added,
and the expressions come out the same once each placeholder is replaced. If maps come in other
orders in one of the two, that is so too, but for what hooks have sealed: it may be sealed from
another text of the same value.
-/
theorem order_only_renumbers (c : Compiler) (occasions occasions' : List (Occasion RequestStep))
    (hname : ∀ ch ∈ c.config.namePrefix.toList, Text.isWordChar ch = true)
    (hvalue : ∀ ch ∈ c.config.valuePrefix.toList, Text.isWordChar ch = true)
    (hl : ∀ o ∈ occasions, o.step.isLiteral = true) (hperm : occasions'.Perm occasions)
    (hkinds : ∀ kind,
      occasions'.filter (·.step.isOf kind) = occasions.filter (·.step.isOf kind)) :
    OnlyRenumbers c Eq occasions occasions' ∧
      ∀ occasions'', List.Forall₂ Occasion.Reorders occasions' occasions'' →
        (∀ o ∈ occasions', o.hooks.OrderBlind) →
        OnlyRenumbers c (WireValue.Reordered (Occasion.AnyKnows occasions')) occasions
          occasions'' := by
  have hscope : c.scope.Orderly := ⟨.ofConfig c.config, ⟨hname, hvalue⟩⟩
  have hl' : ∀ o ∈ occasions', o.step.isLiteral = true := fun o ho => hl o (hperm.mem_iff.mp ho)
  obtain ⟨hv, h⟩ := run_composed c.config occasions (.start hscope) hl
  obtain ⟨hv', h'⟩ := run_composed c.config occasions' (.start hscope) hl'
  -- Both orders are held against the same requests, one for each kind.
  have heach : runEach (fun _ => start c) c.config occasions'
      = runEach (fun _ => start c) c.config occasions := by
    funext kind
    rw [runEach, runEach, hkinds]
  rw [heach] at h'
  have hsame : OnlyRenumbers c Eq occasions occasions' := by
    refine ⟨fun kind => ?_, fun kind write _ => ?_, ?_, ?_⟩
    · rw [hv, hv', hkinds]
    · exact (inline_eq (h.alike kind) write).trans (inline_eq (h'.alike kind) write).symm
    · exact h.orderly.length_names.trans
        ((h.names.trans h'.names.symm).trans h'.orderly.length_names.symm)
    · exact h.orderly.length_values.trans
        ((h.values.trans h'.values.symm).trans h'.orderly.length_values.symm)
  exact ⟨hsame, fun occasions'' ho hblind => hsame.trans (.of_reorders c ho hblind)⟩

/-- Albums, of which the cover is written backwards by a hook. -/
def albumSchema : Schema :=
  ⟨"Album", [("Title", .plain "title"), ("Year", .plain "year"), ("Plays", .plain "plays"),
    ("Cover", ⟨"Cover", "cover", none, some "mirror"⟩)]⟩

/-- A clause about albums, when maps come in this order. -/
def albumClause (order : MapOrder) (source : Source) : Occasion RequestStep where
  hooks := { hooks := [("mirror", .sync .mirroring)], writing := fun _ => order }
  step := .clause .sync source

/-- Two filters on albums. -/
def albumFilters (order : MapOrder) : List (Occasion RequestStep) :=
  [.predicate .filter albumSchema (.compare (.property "Year") .greater [.value (.integer 1990)]),
    .predicate .filter albumSchema
      (.compare (.property "Title") .contains [.value (.text "live")])].map (albumClause order)

/-- An update of an album, a projection, and an update for which there is no more room. -/
def albumChanges (order : MapOrder) : List (Occasion RequestStep) :=
  [.update albumSchema
      [.set "Plays" (.plus (.property "Plays") (.operand (.value (.integer 1)))),
        .set "Cover" (.operand (.value (.map [("back", .integer 2), ("front", .integer 1)])))],
    .projection albumSchema ["Title", "Plays"],
    .update albumSchema [.remove "Year"]].map (albumClause order)

/-- How a replaced placeholder is shown: a name as it is, and a value as a question mark. -/
def showBound : Bound → String
  | .attribute name => name
  | .value _ => "?"

theorem albums_in_two_orders :
    let c : Compiler := ⟨.standard, .empty⟩
    let request := built c (albumFilters .byKey ++ albumChanges .byKey)
    let request' := built c (albumChanges .byKey ++ albumFilters .byKey)
    let request'' := built c (albumChanges .fromLast ++ albumFilters .fromLast)
    request.expressions .filter = some "(#attr0 > :p0) AND (contains(#attr1, :p1))" ∧
      request'.expressions .filter = some "(#attr5 > :p2) AND (contains(#attr6, :p3))" ∧
      (request.expressions .filter).map (request.inline showBound)
        = some "(year > ?) AND (contains(title, ?))" ∧
      (∀ kind write, (request.expressions kind).map (request.inline write) =
        (request'.expressions kind).map (request'.inline write)) ∧
      (∀ kind, (request.expressions kind).map (request.inline showBound) =
        (request''.expressions kind).map (request''.inline showBound)) ∧
      (verdicts .update (start c) c.config
        (albumFilters .byKey ++ albumChanges .byKey)).map Prod.snd = [true, false] ∧
      verdicts .update (start c) c.config (albumFilters .byKey ++ albumChanges .byKey)
        = verdicts .update (start c) c.config (albumChanges .byKey ++ albumFilters .byKey) := by
  intro c request request' request''
  obtain ⟨hsame, horders⟩ := order_only_renumbers c (albumFilters .byKey ++ albumChanges .byKey)
    (albumChanges .byKey ++ albumFilters .byKey)
    (List.all_eq_true.mp (by decide)) (List.all_eq_true.mp (by decide))
    (List.all_eq_true.mp (by decide)) List.perm_append_comm (by intro kind; cases kind <;> rfl)
  have hreorders : ∀ sources : List Source, List.Forall₂ Occasion.Reorders
      (sources.map (albumClause .byKey)) (sources.map (albumClause .fromLast)) := by
    intro sources
    rw [List.forall₂_map_left_iff, List.forall₂_map_right_iff]
    exact List.forall₂_same.mpr fun _ _ => ⟨rfl, rfl⟩
  have hclause (source : Source) : (albumClause .byKey source).hooks.OrderBlind :=
    HookRegistry.orderBlind_of_forall (List.forall_mem_singleton.mpr Hook.mirroring_orderBlind)
  have hblind : ∀ o ∈ albumChanges .byKey ++ albumFilters .byKey, o.hooks.OrderBlind := by
    refine List.forall_mem_append.mpr ⟨?_, ?_⟩ <;>
      exact List.forall_mem_map.mpr fun source _ => hclause source
  have hother := horders (albumChanges .fromLast ++ albumFilters .fromLast)
    (List.rel_append (hreorders _) (hreorders _)) hblind
  exact ⟨by decide +kernel, by decide +kernel, by decide +kernel,
    fun kind write => hsame.inlined kind write fun _ _ he => he ▸ rfl,
    fun kind => hother.inlined kind showBound fun _ _ _ => rfl, by decide +kernel,
    hsame.added .update⟩

end RequestBuilder

end Clauses
