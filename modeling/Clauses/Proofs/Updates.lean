import Clauses.Proofs.Grammar.Updates
import Clauses.Proofs.Emptiness
import Clauses.Proofs.RoundTrip
import Clauses.Proofs.Emission

/-!
# Updates are read as they were meant

An update is put in groups, and each group is written out. Who reads the text with the grammar of
updates, and looks up the placeholders in the scope as it is then, finds the update again: each
keyword once, where it was used first, and under it the actions of the caller, in order, on
attributes and wire values.

* `Action.edit?` — what an action does to attributes
* `Change.resolve` — what a change does that has been read
* `Update.WrittenAs` — the groups that an update should have
* `Compiler.update_reads_back` — the groups that it has
-/

namespace Clauses

open Grammar

/-! ## What updates do -/

/-- What an attribute is set to. -/
inductive Assigned where
  | attribute (a : String)
  | value (w : WireValue)
  | ifNotExists (a : String) (w : WireValue)
  | listAppend (x y : Assigned)
  | plus (x y : Assigned)
  | minus (x y : Assigned)
deriving DecidableEq

/-- What is done to an attribute; a keyword tells what is applied. -/
inductive Edit where
  | set (a : String) (x : Assigned)
  | remove (a : String)
  | apply (a : String) (w : WireValue)
deriving DecidableEq

/--
What a property is set to, in attributes and wire values. Operands are encoded as values of the
property that is set, and what stands in for another property as a value of that one. Each of them
is written after those in front of it.
-/
def SetValue.assigned? (codec : Codec) (values : Keyed WireValue) (schema : Schema)
    (target : Property) : SetValue → Option Assigned
  | .operand o => (o.wire? codec values schema target).map .value
  | .property name => (schema.resolve name).toOption.map fun p => .attribute p.wireName
  | .plus x y => do
    let x' ← x.assigned? codec values schema target
    return .plus x' (← y.assigned? (codec.later (x.bound schema target).length)
      values schema target)
  | .minus x y => do
    let x' ← x.assigned? codec values schema target
    return .minus x' (← y.assigned? (codec.later (x.bound schema target).length)
      values schema target)
  | .ifNotExists name otherwise => do
    let p ← (schema.resolve name).toOption
    return .ifNotExists p.wireName (← otherwise.wire? codec values schema p)
  | .listAppend x y => do
    let x' ← x.assigned? codec values schema target
    return .listAppend x'
      (← y.assigned? (codec.later (x.bound schema target).length) values schema target)

/-- What an action does. -/
def Action.edit? (codec : Codec) (values : Keyed WireValue) (schema : Schema) : Action → Option Edit
  | .set name v => do
    let p ← (schema.resolve name).toOption
    return .set p.wireName (← v.assigned? codec values schema p)
  | .remove name => (schema.resolve name).toOption.map fun p => .remove p.wireName
  | .add name o | .delete name o => do
    let p ← (schema.resolve name).toOption
    return .apply p.wireName (← o.wire? codec values schema p)

/-- What actions do. The values of each are written after those in front of it. -/
def Action.edits? (codec : Codec) (values : Keyed WireValue) (schema : Schema) :
    List Action → Option (List Edit)
  | [] => some []
  | a :: rest => do
    let e ← a.edit? codec values schema
    return e :: (← edits? (codec.later (a.bound schema).length) values schema rest)

/-- What the actions under each of these keywords do, in their order, group after group. -/
def Update.edits? (codec : Codec) (values : Keyed WireValue) (schema : Schema) (u : Update) :
    List UpdateKeyword → Option (List (UpdateKeyword × List Edit))
  | [] => some []
  | k :: rest => do
    let actions := u.filter (·.keyword = k)
    let es ← Action.edits? codec values schema actions
    let written := (actions.flatMap (Action.bound schema)).length
    return (k, es) :: (← edits? (codec.later written) values schema u rest)

/--
The groups of an update: all keywords that are used, in the order of their first use, and under each
of them its actions in their order. No action is lost, and none is there twice.
-/
structure Update.WrittenAs (codec : Codec) (values : Keyed WireValue) (schema : Schema) (u : Update)
    (groups : List (UpdateKeyword × List Edit)) : Prop where
  keywords : groups.map Prod.fst = (u.map Action.keyword).eraseDups
  actions : Update.edits? codec values schema u (groups.map Prod.fst) = some groups
  once : (groups.flatMap fun g => u.filter (·.keyword = g.1)).Perm u

/-! ## What has been read -/

section

variable (names : Keyed String) (values : Keyed WireValue)

/-- The value with what its placeholders are bound to. -/
def Term.resolve : Term → Option Assigned
  | .attribute t => (names.find? t).map .attribute
  | .bound t => (values.find? t).map .value
  | .ifNotExists t u => do return .ifNotExists (← names.find? t) (← values.find? u)
  | .listAppend a b => do return .listAppend (← a.resolve) (← b.resolve)
  | .plus a b => do return .plus (← a.resolve) (← b.resolve)
  | .minus a b => do return .minus (← a.resolve) (← b.resolve)

/-- The change with what its placeholders are bound to. -/
def Change.resolve : Change → Option Edit
  | .set t term => do return .set (← names.find? t) (← term.resolve names values)
  | .remove t => (names.find? t).map .remove
  | .apply t u => do return .apply (← names.find? t) (← values.find? u)

/-- The group with what its placeholders are bound to. -/
def Change.resolveGroup (g : UpdateKeyword × List Change) : Option (UpdateKeyword × List Edit) :=
  (g.2.mapM (Change.resolve names values)).map (g.1, ·)

end

/-! ## Values -/

variable {s : Scope} {d d' : Draft} {codec : Codec} {schema : Schema}

/-- The value is read back, and comes to this. -/
structure Term.Says (term : Term) (outermost : Bool) (s : Scope) (x : Assigned) : Prop where
  readable : term.Readable outermost
  resolved : term.resolve s.nameTable s.valueTable = some x

namespace Term.Says

variable {outermost : Bool} {t u a : String} {w : WireValue} {term term' : Term} {x y : Assigned}

theorem name (hs : s.Worded) (h : s.attribute? t = some a) :
    (Term.attribute t).Says outermost s (.attribute a) :=
  ⟨.name (hs.names t a h), congrArg (Option.map _) h⟩

theorem value (hs : s.Worded) (h : s.value? t = some w) :
    (Term.bound t).Says outermost s (.value w) :=
  ⟨.value (hs.values t w h), congrArg (Option.map _) h⟩

theorem ifNotExists (hs : s.Worded) (hn : s.attribute? t = some a) (hv : s.value? u = some w) :
    (Term.ifNotExists t u).Says outermost s (.ifNotExists a w) where
  readable := .ifNotExists (hs.names t a hn) (hs.values u w hv)
  resolved := by
    rw [Term.resolve, show s.nameTable.find? t = some a from hn,
      show s.valueTable.find? u = some w from hv]
    rfl

theorem listAppend (h : term.Says false s x) (h' : term'.Says false s y) :
    (Term.listAppend term term').Says outermost s (.listAppend x y) where
  readable := .listAppend h.readable h'.readable
  resolved := by
    rw [Term.resolve, h.resolved, h'.resolved]
    rfl

theorem plus (h : term.Says false s x) (h' : term'.Says false s y) :
    (Term.plus term term').Says true s (.plus x y) where
  readable := .plus h.readable h'.readable
  resolved := by
    rw [Term.resolve, h.resolved, h'.resolved]
    rfl

theorem minus (h : term.Says false s x) (h' : term'.Says false s y) :
    (Term.minus term term').Says true s (.minus x y) where
  readable := .minus h.readable h'.readable
  resolved := by
    rw [Term.resolve, h.resolved, h'.resolved]
    rfl

end Term.Says

/-- What stands behind a property that has been resolved and named. -/
theorem Schema.named_ok {β : Type} {name : String} {f : Property → String → Drafting β} {b : β}
    (h : (do let p ← schema.resolve name; let t ← p.bindName; f p t : Drafting β) d = .ok (b, d')) :
    ∃ p t d₁, schema.resolve name = .ok p ∧ p.bindName d = .ok (t, d₁) ∧
    f p t d₁ = .ok (b, d') := by
  obtain ⟨p, d₀, hlift, h₀⟩ := Drafting.bind_ok.mp h
  obtain ⟨hp, rfl⟩ := Drafting.lift_ok.mp hlift
  obtain ⟨t, d₁, ht, h₁⟩ := Drafting.bind_ok.mp h₀
  exact ⟨p, t, d₁, hp, ht, h₁⟩

theorem SetValue.translate_minting (target : Property) (outermost : Bool) (v : SetValue) :
    Drafting.Minting (v.translate (codec.binder schema) schema target outermost) :=
  Drafting.Minting.compatible.setValue (codec.binder schema).minting target outermost v

/--
Two values that have been translated one after the other, the second after what the first binds.
-/
theorem SetValue.both_ok {target : Property} {x y : SetValue} {f : Term → Term → Term} {term : Term}
    (h : (do
      let a ← x.translate (codec.binder schema) schema target false
      let b ← y.translate (codec.binder schema) schema target false
      return f a b : Drafting Term) d = .ok (term, d')) (hd : d'.Within s) :
    ∃ a b d₁, x.translate (codec.binder schema) schema target false d = .ok (a, d₁) ∧ d₁.Within s ∧
      y.translate (codec.binder schema) schema target false d₁ = .ok (b, d') ∧ term = f a b ∧
      codec.after d₁ = (codec.after d).later (x.bound schema target).length := by
  obtain ⟨a, d₁, ha, h₁⟩ := Drafting.bind_ok.mp h
  obtain ⟨b, d₂, hb, hx⟩ := Drafting.bind_ok.mp h₁
  obtain ⟨rfl, rfl⟩ := Drafting.pure_ok.mp hx
  have hwithin := hd.of_grows (y.translate_minting target false hb)
  exact ⟨a, b, d₁, ha, hwithin, hb, rfl, (x.translate_binds _ schema target false ha).codec_after _⟩

/-- A value is translated to one that says the same. -/
theorem SetValue.translate_sound (hs : s.Worded) (target : Property) : ∀ (v : SetValue)
    {outermost : Bool} {term : Term} {d d' : Draft},
    v.translate (codec.binder schema) schema target outermost d = .ok (term, d') → d'.Within s →
    ∃ x, v.assigned? (codec.after d) s.valueTable schema target = some x ∧ term.Says outermost s x
  | .operand o, outermost, term, d, d', h, hd => by
    obtain ⟨t, ht, rfl⟩ := Drafting.map_ok.mp h
    obtain ⟨w, hw, hv⟩ := Binder.operand_bound ht hd hs
    exact ⟨.value w, congrArg (Option.map _) hw, .value hs hv⟩
  | .property name, outermost, term, d, d', h, hd => by
    obtain ⟨p, t, d₁, hp, ht, hx⟩ := Schema.named_ok h
    obtain ⟨rfl, rfl⟩ := Drafting.pure_ok.mp hx
    refine ⟨.attribute p.wireName, ?_, .name hs (Draft.bindName_bound ht hd)⟩
    rw [assigned?, hp]
    rfl
  | .ifNotExists name otherwise, outermost, term, d, d', h, hd => by
    obtain ⟨p, t, d₁, hp, ht, h₁⟩ := Schema.named_ok h
    obtain ⟨u, d₂, hu, hx⟩ := Drafting.bind_ok.mp h₁
    obtain ⟨rfl, rfl⟩ := Drafting.pure_ok.mp hx
    have hn := Draft.bindName_bound ht (hd.of_grows ((codec.binder schema).operand_minting _ _ hu))
    -- What is put in the place of a property is encoded as that property is.
    obtain ⟨w, hw, hv⟩ := Binder.operand_bound hu hd hs
    rw [(Draft.bindName_binds (codec.binder schema) _ ht).codec_after_nil] at hw
    refine ⟨.ifNotExists p.wireName w, ?_, .ifNotExists hs hn hv⟩
    simp only [assigned?, hp, Except.toOption, Option.bind_eq_bind, Option.bind_some, hw]
    rfl
  | .listAppend x y, outermost, term, d, d', h, hd => by
    obtain ⟨a, b, d₁, ha, hd₁, hb, rfl, hafter⟩ := both_ok h hd
    obtain ⟨x', hx, ha'⟩ := translate_sound hs target x ha hd₁
    obtain ⟨y', hy, hb'⟩ := translate_sound hs target y hb hd
    rw [hafter] at hy
    refine ⟨.listAppend x' y', ?_, ha'.listAppend hb'⟩
    simp [assigned?, hx, hy]
  | .plus x y, outermost, term, d, d', h, hd => by
    obtain ⟨ho, h₀⟩ := Drafting.refuse_ok h
    obtain ⟨a, b, d₁, ha, hd₁, hb, rfl, hafter⟩ := both_ok h₀ hd
    obtain ⟨x', hx, ha'⟩ := translate_sound hs target x ha hd₁
    obtain ⟨y', hy, hb'⟩ := translate_sound hs target y hb hd
    rw [hafter] at hy
    obtain rfl : outermost = true := by simpa using ho
    refine ⟨.plus x' y', ?_, ha'.plus hb'⟩
    simp [assigned?, hx, hy]
  | .minus x y, outermost, term, d, d', h, hd => by
    obtain ⟨ho, h₀⟩ := Drafting.refuse_ok h
    obtain ⟨a, b, d₁, ha, hd₁, hb, rfl, hafter⟩ := both_ok h₀ hd
    obtain ⟨x', hx, ha'⟩ := translate_sound hs target x ha hd₁
    obtain ⟨y', hy, hb'⟩ := translate_sound hs target y hb hd
    rw [hafter] at hy
    obtain rfl : outermost = true := by simpa using ho
    refine ⟨.minus x' y', ?_, ha'.minus hb'⟩
    simp [assigned?, hx, hy]

/-! ## Actions -/

/-- The change may stand under the keyword, and does this. -/
structure Change.Says (c : Change) (keyword : UpdateKeyword) (s : Scope) (e : Edit) : Prop where
  readable : c.Readable keyword
  resolved : c.resolve s.nameTable s.valueTable = some e

theorem Change.Says.apply {t u a : String} {w : WireValue} {keyword : UpdateKeyword}
    (hk : keyword = .add ∨ keyword = .delete) (hs : s.Worded) (hn : s.attribute? t = some a)
    (hv : s.value? u = some w) : (Change.apply t u).Says keyword s (.apply a w) where
  readable := by
    rcases hk with rfl | rfl
    · exact .add (hs.names t a hn) (hs.values u w hv)
    · exact .delete (hs.names t a hn) (hs.values u w hv)
  resolved := by
    rw [resolve, show s.nameTable.find? t = some a from hn,
      show s.valueTable.find? u = some w from hv]
    rfl

/-- An action is translated to a change that does the same. -/
theorem Action.translate_sound (hs : s.Worded) (a : Action) {c : Change}
    (h : a.translate (codec.binder schema) schema d = .ok (c, d')) (hd : d'.Within s) :
    ∃ e, a.edit? (codec.after d) s.valueTable schema = some e ∧ c.Says a.keyword s e := by
  cases a with
  | set name v =>
    obtain ⟨p, t, d₁, hp, ht, h₁⟩ := Schema.named_ok h
    obtain ⟨term, d₂, hterm, hx⟩ := Drafting.bind_ok.mp h₁
    obtain ⟨rfl, rfl⟩ := Drafting.pure_ok.mp hx
    have hn := Draft.bindName_bound ht (hd.of_grows (v.translate_minting p true hterm))
    obtain ⟨x, hv, hsays⟩ := v.translate_sound hs p hterm hd
    rw [(Draft.bindName_binds (codec.binder schema) _ ht).codec_after_nil] at hv
    refine ⟨.set p.wireName x, ?_, .set (hs.names t _ hn) hsays.readable, ?_⟩
    · simp only [edit?, hp, Except.toOption, Option.bind_eq_bind, Option.bind_some, hv]
      rfl
    · rw [Change.resolve, show s.nameTable.find? t = some p.wireName from hn, hsays.resolved]
      rfl
  | remove name =>
    obtain ⟨p, t, d₁, hp, ht, hx⟩ := Schema.named_ok h
    obtain ⟨rfl, rfl⟩ := Drafting.pure_ok.mp hx
    have hn := Draft.bindName_bound ht hd
    refine ⟨.remove p.wireName, ?_, .remove (hs.names t _ hn), congrArg (Option.map _) hn⟩
    rw [edit?, hp]
    rfl
  | add name o | delete name o =>
    obtain ⟨p, t, d₁, hp, ht, h₁⟩ := Schema.named_ok h
    obtain ⟨u, d₂, hu, hx⟩ := Drafting.bind_ok.mp h₁
    obtain ⟨rfl, rfl⟩ := Drafting.pure_ok.mp hx
    have hn := Draft.bindName_bound ht (hd.of_grows ((codec.binder schema).operand_minting _ _ hu))
    obtain ⟨w, hw, hv⟩ := Binder.operand_bound hu hd hs
    rw [(Draft.bindName_binds (codec.binder schema) _ ht).codec_after_nil] at hw
    refine ⟨.apply p.wireName w, ?_, .apply (by simp [keyword]) hs hn hv⟩
    simp only [edit?, hp, Except.toOption, Option.bind_eq_bind, Option.bind_some, hw]
    rfl

/-- Actions under one keyword are translated to changes that do the same, one after the other. -/
theorem Action.translateAll_sound (hs : s.Worded) {k : UpdateKeyword} : ∀ {as : List Action}
    {cs : List Change} {d : Draft}, (∀ a ∈ as, a.keyword = k) →
    as.mapM (Action.translate (codec.binder schema) schema) d = .ok (cs, d') → d'.Within s →
    ∃ es, edits? (codec.after d) s.valueTable schema as = some es ∧ cs.length = as.length ∧
      List.Forall₂ (fun c e => Change.Says c k s e) cs es
  | [], cs, d, _, h, _ => by
    obtain ⟨rfl, rfl⟩ := Drafting.pure_ok.mp h
    exact ⟨[], rfl, rfl, .nil⟩
  | a :: as, cs, d, hk, h, hd => by
    obtain ⟨rfl, hk⟩ := List.forall_mem_cons.mp hk
    rw [List.mapM_cons] at h
    obtain ⟨c, d₁, hc, h₁⟩ := Drafting.bind_ok.mp h
    obtain ⟨cs', d₂, hcs, h₂⟩ := Drafting.bind_ok.mp h₁
    obtain ⟨rfl, rfl⟩ := Drafting.pure_ok.mp h₂
    have hg := Drafting.Minting.mapM (Drafting.Minting.compatible.action
      (codec.binder schema).minting) as hcs
    obtain ⟨e, he, hsays⟩ := a.translate_sound hs hc (hd.of_grows hg)
    obtain ⟨es, hes, hlength, hrest⟩ := translateAll_sound hs hk hcs hd
    rw [(a.translate_binds _ schema hc).codec_after] at hes
    refine ⟨e :: es, ?_, congrArg (· + 1) hlength, .cons hsays hrest⟩
    simp [edits?, he, hes]

/-! ## Groups -/

namespace Update

/-- The keywords are those of the actions, of which the first ones stay. -/
theorem keywords_eq (u : Update) : u.keywords = (u.map Action.keyword).eraseDups := by
  rw [← keepFirst_beq]
  induction u with
  | nil => rfl
  | cons a rest ih =>
    rw [keywords, List.map_cons, keepFirst, ih]
    congr 1
    refine List.filter_congr fun k _ => ?_
    by_cases hk : k = a.keyword
    · simp [hk]
    · simp [hk, Ne.symm hk]

theorem mem_keywords {u : Update} {k : UpdateKeyword} :
    k ∈ u.keywords ↔ ∃ a ∈ u, a.keyword = k := by
  induction u with
  | nil => simp [keywords]
  | cons a rest ih =>
    rw [keywords, List.mem_cons, List.mem_filter, ih, List.exists_mem_cons_iff]
    by_cases hk : k = a.keyword
    · simp [hk]
    · simp [hk, Ne.symm hk]

theorem nodup_keywords (u : Update) : u.keywords.Nodup := by
  induction u with
  | nil => exact List.nodup_nil
  | cons a rest ih =>
    rw [keywords, List.nodup_cons, List.mem_filter]
    exact ⟨by simp, ih.filter _⟩

/-- Put in groups under all of their keywords, the actions are the same, in another order. -/
theorem flatMap_under_perm : ∀ {keywords : List UpdateKeyword} {u : Update}, keywords.Nodup →
    (∀ a ∈ u, a.keyword ∈ keywords) → (keywords.flatMap u.under).Perm u
  | [], u, _, h => by
    rw [List.eq_nil_iff_forall_not_mem.mpr fun a ha => List.not_mem_nil (h a ha)]
    rfl
  | k :: keywords, u, hn, h => by
    obtain ⟨hk, hn⟩ := List.nodup_cons.mp hn
    have hothers : keywords.flatMap u.under
        = keywords.flatMap (under (u.filter (·.keyword ≠ k))) := by
      refine List.flatMap_congr fun k' hk' => ?_
      rw [under, under, List.filter_filter]
      refine List.filter_congr fun a _ => ?_
      by_cases ha : a.keyword = k'
      · have hne : k' ≠ k := fun he => hk (he ▸ hk')
        simp [ha, hne]
      · simp [ha]
    have hrest : ∀ a ∈ u.filter (·.keyword ≠ k), a.keyword ∈ keywords := by
      intro a ha
      obtain ⟨hu, hne⟩ := List.mem_filter.mp ha
      exact (List.mem_cons.mp (h a hu)).resolve_left (by simpa using hne)
    -- The actions of the first keyword, and in front of the others all that is left.
    rw [List.flatMap_cons, hothers]
    refine ((flatMap_under_perm hn hrest).append_left _).trans ?_
    simpa [under] using List.filter_append_perm (fun a => decide (Action.keyword a = k)) u

theorem regrouped_perm (u : Update) : (u.keywords.flatMap u.under).Perm u :=
  flatMap_under_perm u.nodup_keywords fun a ha => mem_keywords.mpr ⟨a, ha, rfl⟩

/-- Changes that can be read make a group that can be read, if a keyword of the update is used. -/
theorem groupReadable {u : Update} {k : UpdateKeyword} (hk : k ∈ u.keywords) {cs : List Change}
    (hlength : cs.length = (u.under k).length) (h : ∀ c ∈ cs, Change.Readable k c) :
    Change.GroupReadable (k, cs) := by
  cases cs with
  | cons c cs => exact .of_forall h
  | nil =>
    obtain ⟨a, ha, hkeyword⟩ := mem_keywords.mp hk
    have hunder : a ∈ u.under k := List.mem_filter.mpr ⟨ha, by simpa using hkeyword⟩
    rw [List.eq_nil_of_length_eq_zero hlength.symm] at hunder
    cases hunder

/-- Groups are translated to groups that do the same, one after the other. -/
theorem groups_sound (hs : s.Worded) (u : Update) : ∀ {ks : List UpdateKeyword}
    {groups : List (UpdateKeyword × List Change)} {d : Draft}, (∀ k ∈ ks, k ∈ u.keywords) →
    (ks.mapM fun k => do
      return (k, ← (u.under k).mapM (Action.translate (codec.binder schema) schema)) :
      Drafting _) d = .ok (groups, d') → d'.Within s →
    ∃ edits, edits? (codec.after d) s.valueTable schema u ks = some edits ∧
      edits.map Prod.fst = ks ∧ List.Forall₂ (fun g e => Change.GroupReadable g ∧
        Change.resolveGroup s.nameTable s.valueTable g = some e) groups edits
  | [], groups, d, _, h, _ => by
    obtain ⟨rfl, rfl⟩ := Drafting.pure_ok.mp h
    exact ⟨[], rfl, rfl, .nil⟩
  | k :: ks, groups, d, hk, h, hd => by
    obtain ⟨hk, hks⟩ := List.forall_mem_cons.mp hk
    rw [List.mapM_cons] at h
    obtain ⟨g, d₁, hg, h₁⟩ := Drafting.bind_ok.mp h
    obtain ⟨groups', d₂, hgroups, h₂⟩ := Drafting.bind_ok.mp h₁
    obtain ⟨rfl, rfl⟩ := Drafting.pure_ok.mp h₂
    obtain ⟨cs, d₃, hcs, h₃⟩ := Drafting.bind_ok.mp hg
    obtain ⟨rfl, rfl⟩ := Drafting.pure_ok.mp h₃
    have hgrows := Drafting.Minting.mapM (fun k => .bind (.mapM (fun a =>
      Drafting.Minting.compatible.action (codec.binder schema).minting a) _) fun _ => .pure _)
      ks hgroups
    obtain ⟨es, hes, hlength, hmeans⟩ := Action.translateAll_sound hs
      (fun a ha => by simpa using (List.mem_filter.mp ha).2) hcs (hd.of_grows hgrows)
    obtain ⟨edits, hedits, hkeywords, hrest⟩ := groups_sound hs u hks hgroups hd
    rw [(Drafting.Binds.mapM (fun a => a.translate_binds _ schema) _ hcs).codec_after] at hedits
    obtain ⟨hread, hresolved⟩ := (List.forall₂_and_left _ _).mp
      (hmeans.imp fun c e hc => ⟨hc.readable, hc.resolved⟩)
    refine ⟨(k, es) :: edits, ?_, congrArg (k :: ·) hkeywords,
      .cons ⟨groupReadable hk hlength hread, ?_⟩ hrest⟩
    · rw [under] at hes hedits
      simp [edits?, hes, hedits, -List.length_flatMap]
    · rw [Change.resolveGroup, mapM_eq_some_iff.mpr hresolved]
      rfl

/-- **An update is translated to groups that are written as the update.** -/
theorem translate_sound (hs : s.Worded) {u : Update} {groups : List (UpdateKeyword × List Change)}
    (h : u.translate (codec.binder schema) schema d = .ok (groups, d')) (hd : d'.Within s) :
    ∃ edits, (∀ g ∈ groups, Change.GroupReadable g) ∧
      groups.mapM (Change.resolveGroup s.nameTable s.valueTable) = some edits ∧
      u.WrittenAs (codec.after d) s.valueTable schema edits := by
  obtain ⟨edits, hedits, hkeywords, hgroups⟩ :=
    groups_sound hs u (fun _ hk => hk) (Drafting.refuse_ok h).2 hd
  obtain ⟨hreadable, hresolved⟩ := (List.forall₂_and_left _ _).mp hgroups
  refine ⟨edits, hreadable, mapM_eq_some_iff.mpr hresolved, ?_, ?_, ?_⟩
  · rw [hkeywords, u.keywords_eq]
  · rw [hkeywords, hedits]
  · have hperm := u.regrouped_perm
    rwa [← hkeywords, List.flatMap_map] at hperm

end Update

/-! ## Clauses -/

/-- All scopes that there can be are numbered. -/
theorem Scope.Reachable.numbered {s : Scope} (h : s.Reachable) : s.Numbered := by
  induction h with
  | new config => exact .ofConfig config
  | step _ c step ih => exact (c.advance_numbered ih step).1

namespace Compiler

/--
**The text of an update is read as the update.** In every scope whose prefixes are words, who
reads the text with the grammar of updates, and looks up the placeholders, finds the actions
of the caller in groups.
-/
theorem update_reads_back {c : Compiler} {mode : Mode} {schema : Schema} {u : Update} {s s' : Scope}
    {clause : Clause} (hs : s.Reachable) (hp : s.HasWordPrefixes)
    (h : c.translate mode (.update schema u) s = .ok clause s') :
    ∃ groups edits, Grammar.readUpdate? clause.expression = some groups ∧
      groups.mapM (Change.resolveGroup s'.nameTable s'.valueTable) = some edits ∧
      u.WrittenAs c.codec s'.valueTable schema edits := by
  obtain ⟨expression, d, values, hd, hv, rfl, rfl⟩ := translate_ok h
  obtain ⟨groups, d₁, hg, hx⟩ := Drafting.bind_ok.mp hd
  obtain ⟨rfl, rfl⟩ := Drafting.pure_ok.mp hx
  have hworded : (s.enter d.names values).Worded :=
    (hs.numbered.enter (draft_followOn hd hv)).worded hp.name hp.value
  have hwithin := draft_within hs.numbered hd hv (.refl _)
  obtain ⟨edits, hreadable, hresolved, hwritten⟩ := Update.translate_sound hworded hg hwithin
  exact ⟨groups, edits, Change.groups_read hreadable, hresolved, hwritten⟩

/-- Two keywords that take turns, and a placeholder that is used again. -/
def reunion : Update :=
  [.set "Age" (.minus (.property "Age") (.operand (.placeholder ":p0"))), .remove "Name",
    .set "Tags" (.listAppend (.ifNotExists "Tags" (.value (.list [.text "new"])))
      (.operand (.value (.list [.text "old"]))))]

/-- The value behind the minus sign is the one that was bound beforehand. -/
theorem reunion_reads_back :
    let c : Compiler := ⟨.standard, .empty⟩
    let s := (c.advance c.scope (.bind (.integer 1) (.plain "age"))).2
    let groups : List (UpdateKeyword × List Change) :=
      [(.set,
        [.set "#attr0" (.minus (.attribute "#attr1") (.bound ":p0")),
          .set "#attr2" (.listAppend (.ifNotExists "#attr3" ":p1") (.bound ":p2"))]),
        (.remove, [.remove "#attr4"])]
    let edits : List (UpdateKeyword × List Edit) :=
      [(.set,
        [.set "age" (.minus (.attribute "age") (.value (.number "1"))),
          .set "tags" (.listAppend (.ifNotExists "tags" (.list [.text "new"]))
            (.value (.list [.text "old"])))]),
        (.remove, [.remove "name"])]
    ∃ clause s', c.translate .sync (.update RequestBuilder.memberSchema reunion) s = .ok clause s' ∧
      clause.expression = "SET #attr0 = #attr1 - :p0, " ++
        "#attr2 = list_append(if_not_exists(#attr3, :p1), :p2) REMOVE #attr4" ∧
      Grammar.readUpdate? clause.expression = some groups ∧
      groups.mapM (Change.resolveGroup s'.nameTable s'.valueTable) = some edits ∧
      reunion.WrittenAs c.codec s'.valueTable RequestBuilder.memberSchema edits := by
  intro c s groups edits
  let clause : Clause :=
    ⟨"SET #attr0 = #attr1 - :p0, #attr2 = list_append(if_not_exists(#attr3, :p1), :p2) " ++
        "REMOVE #attr4",
      [("#attr0", "age"), ("#attr1", "age"), ("#attr2", "tags"), ("#attr3", "tags"),
        ("#attr4", "name")],
      [(":p1", .list [.text "new"]), (":p2", .list [.text "old"])]⟩
  have h : c.translate .sync (.update RequestBuilder.memberSchema reunion) s
      = .ok clause (s.enter clause.names clause.values) := by decide +kernel
  have hs : s.Reachable := .step (.new c.config) c _
  have hp : s.HasWordPrefixes :=
    ⟨List.all_eq_true.mp (by decide), List.all_eq_true.mp (by decide)⟩
  have hread : Grammar.readUpdate? clause.expression = some groups := by decide +kernel
  have hresolved : groups.mapM (Change.resolveGroup (s.enter clause.names clause.values).nameTable
      (s.enter clause.names clause.values).valueTable) = some edits := by decide +kernel
  obtain ⟨groups', edits', hread', hresolved', hwritten⟩ := update_reads_back hs hp h
  obtain rfl := Option.some.inj (hread'.symm.trans hread)
  obtain rfl := Option.some.inj (hresolved'.symm.trans hresolved)
  exact ⟨clause, _, h, by decide, hread, hresolved, hwritten⟩

end Compiler

end Clauses
