import Clauses.Proofs.Emission
import Clauses.Proofs.Respelling
import Clauses.Proofs.Shapes

/-!
# Expressions with their placeholders replaced

The numbers of placeholders say nothing. What an expression says is seen when each of its
placeholders is replaced by what it is bound to. Two texts that are spelled by two requests are
alike if they come out the same then; so are two texts that are put together of alike parts in the
same way, as long as no placeholder goes on from one part into the next.

* `Request.inline` — an expression with its placeholders replaced
* `Text.Alike` — two texts that come out the same
* `Condition.Like.alike`, `Change.groups_alike` — two of one shape are alike if their placeholders
  are
-/

namespace Clauses

open Grammar

/-! ## What placeholders stand for -/

/-- What a placeholder is bound to. -/
inductive Bound where
  | attribute (name : String)
  | value (w : WireValue)

/-- What a placeholder is bound to in the table of its sigil. -/
def Bound.find? (names : Keyed String) (values : Keyed WireValue) (token : String) : Option Bound :=
  match token.toList.head? with
  | some '#' => (names.find? token).map .attribute
  | some ':' => (values.find? token).map .value
  | _ => none

/--
What stands for a placeholder, where `write` says how it is written; it stays if it is not bound.
-/
def Bound.spell (names : Keyed String) (values : Keyed WireValue) (write : Bound → String)
    (token : String) : String :=
  ((find? names values token).map write).getD token

/-- An expression with each placeholder replaced by what the request binds it to. -/
def Request.inline (q : Request) (write : Bound → String) (expression : String) : String :=
  String.ofList (Text.respell (Bound.spell q.names q.values write) [] expression.toList)

/-- What stands for a placeholder of the scope. -/
def Scope.spell (s : Scope) : (Bound → String) → String → String :=
  Bound.spell s.nameTable s.valueTable

namespace Scope

variable {s : Scope} {t : String} (write : Bound → String)

theorem spell_name {a : String} (ht : t.toList.head? = some '#') (h : s.attribute? t = some a) :
    s.spell write t = write (.attribute a) := by
  have hfind : s.nameTable.find? t = some a := h
  simp [spell, Bound.spell, Bound.find?, ht, hfind]

theorem spell_value {w : WireValue} (ht : t.toList.head? = some ':') (h : s.value? t = some w) :
    s.spell write t = write (.value w) := by
  have hfind : s.valueTable.find? t = some w := h
  simp [spell, Bound.spell, Bound.find?, ht, hfind]

end Scope

/-! ## Alike texts -/

namespace Text

/-- The two texts come out the same, each with its own spellings. -/
def Alike (f f' : String → String) (s s' : List Char) : Prop :=
  ∃ out, Gives (respell f []) s out ∧ Gives (respell f' []) s' out

namespace Alike

variable {f f' : String → String} {s s' t t' : List Char} {c : Char} {sep : List Char}

theorem respell_eq (h : Alike f f' s s') : respell f [] s = respell f' [] s' := by
  obtain ⟨out, h, h'⟩ := h
  have he := h [] .nil
  have he' := h' [] .nil
  rw [List.append_nil] at he he'
  rw [he, he']
  rfl

theorem plain (ht : t.any isSigil = false) : Alike f f' t t :=
  ⟨t, (respell_plain ht).gives, (respell_plain ht).gives⟩

/-- Two placeholders are alike if they are spelled alike. -/
theorem token {t t' : String} (ht : IsPlaceholder t) (ht' : IsPlaceholder t') (h : f t = f' t') :
    Alike f f' t.toList t'.toList := by
  have hgives {g : String → String} {u : String} (hu : IsPlaceholder u) :
      Gives (respell g []) u.toList (g u).toList :=
    hu.elim (respell_token g rfl) (respell_token g rfl)
  refine ⟨(f t).toList, hgives ht, ?_⟩
  rw [h]
  exact hgives ht'

/-- Words in front stay. -/
theorem behind (ht : t.any isSigil = false) (h : Alike f f' s s') :
    Alike f f' (t ++ s) (t ++ s') := by
  obtain ⟨out, h, h'⟩ := h
  exact ⟨t ++ out, (respell_plain ht).append_gives h, (respell_plain ht).append_gives h'⟩

/-- Two texts with something between them that ends a word. -/
theorem append (hc : isWordChar c = false) (hsep : (c :: sep).any isSigil = false)
    (h : Alike f f' s s') (ht : Alike f f' t t') :
    Alike f f' (s ++ c :: sep ++ t) (s' ++ c :: sep ++ t') := by
  obtain ⟨out, h, h'⟩ := h
  obtain ⟨more, ht, ht'⟩ := ht
  exact ⟨out ++ c :: sep ++ more, (h.append (respell_plain hsep) hc).append_gives ht,
    (h'.append (respell_plain hsep) hc).append_gives ht'⟩

theorem bracketed (h : Alike f f' s s') : Alike f f' (bracketed s) (bracketed s') := by
  obtain ⟨out, h, h'⟩ := h
  exact ⟨Clauses.bracketed out, (respell_bracketed h).gives, (respell_bracketed h').gives⟩

/-- Lists of alike texts, with something between them that ends a word. -/
theorem intercalate (hc : isWordChar c = false) (hsep : (c :: sep).any isSigil = false)
    {ts ts' : List (List Char)} (h : List.Forall₂ (Alike f f') ts ts') :
    Alike f f' ((c :: sep).intercalate ts) ((c :: sep).intercalate ts') := by
  induction h with
  | nil => exact plain rfl
  | cons ht hts ih =>
    cases hts with
    | nil =>
      rw [List.intercalate_singleton, List.intercalate_singleton]
      exact ht
    | cons =>
      rw [List.intercalate_cons_cons, List.intercalate_cons_cons]
      exact append hc hsep ht ih

theorem commas {ts ts' : List (List Char)} (h : List.Forall₂ (Alike f f') ts ts') :
    Alike f f' (comma.intercalate ts) (comma.intercalate ts') :=
  intercalate rfl rfl h

/-- Two texts with a word between them. -/
theorem spaced {word : String} (hw : (spaced word).any isSigil = false) (h : Alike f f' s s')
    (ht : Alike f f' t t') :
    Alike f f' (s ++ Clauses.spaced word ++ t) (s' ++ Clauses.spaced word ++ t') :=
  append rfl hw h ht

/-- A function with its arguments. -/
theorem call (g : Builtin) {ts ts' : List (List Char)} (h : List.Forall₂ (Alike f f') ts ts') :
    Alike f f' (g.name.toList ++ Clauses.bracketed (comma.intercalate ts))
      (g.name.toList ++ Clauses.bracketed (comma.intercalate ts')) :=
  behind (by cases g <;> rfl) (commas h).bracketed

end Alike

end Text

/-! ## Alike conditions -/

open Text (Alike)

variable {τ : String → String → Prop} {f f' : String → String}

/-- What holds of two placeholders holds of the placeholders that are in a list. -/
theorem forall₂_imp_mem {α α' : Type} {ρ σ : α → α' → Prop} {as : List α} {as' : List α'}
    (h : List.Forall₂ ρ as as') (hσ : ∀ a ∈ as, ∀ a', ρ a a' → σ a a') : List.Forall₂ σ as as' :=
  ((List.forall₂_and_left as as').mpr ⟨hσ, h⟩).imp fun _ a' ⟨hσ, hρ⟩ => hσ a' hρ

theorem tokens_alike {ts ts' : List String} (h : List.Forall₂ τ ts ts')
    (ht : ∀ t ∈ ts, ∀ t', τ t t' → Alike f f' t.toList t'.toList) :
    List.Forall₂ (Alike f f') (ts.map String.toList) (ts'.map String.toList) := by
  rw [List.forall₂_map_left_iff, List.forall₂_map_right_iff]
  exact forall₂_imp_mem h ht

theorem Compared.Like.alike {c c' : Compared} (h : c.Like τ c')
    (ht : ∀ t', ∀ _ : τ c.token t', Alike f f' c.token.toList t'.toList) :
    Alike f f' c.chars c'.chars := by
  rcases h with h | h
  · exact ht _ h
  · exact .behind rfl (ht _ h).bracketed

namespace Condition

theorem compareChars_alike {left left' : List Char} (op : Operator)
    {values values' : List (List Char)}
    (hl : Alike f f' left left') (hv : List.Forall₂ (Alike f f') values values') :
    Alike f f' (compareChars left op values) (compareChars left' op values') := by
  have hop := Text.any_isSigil_operator op
  cases op with
  | between => exact .spaced hop hl (.intercalate rfl (Text.any_isSigil_connective .and) hv)
  | among => exact .spaced hop hl (Alike.commas hv).bracketed
  | beginsWith => exact .call .beginsWith (.cons hl hv)
  | contains => exact .call .contains (.cons hl hv)
  | _ => exact .spaced hop hl (.commas hv)

theorem Like.isCall_eq {c c' : Condition} (h : c.Like τ c') : c.isCall = c'.isCall := by
  cases h <;> rfl

mutual

/-- Conditions of one shape are alike if their placeholders are. -/
theorem Like.alike : ∀ {c c' : Condition}, c.Like τ c' →
    (∀ t ∈ c.tokens, ∀ t', τ t t' → Alike f f' t.toList t'.toList) → Alike f f' c.chars c'.chars
  | _, _, .compare op hl hv, ht => by
    rw [tokens, List.forall_mem_cons] at ht
    rw [chars, chars]
    exact compareChars_alike op (hl.alike ht.1) (tokens_alike hv ht.2)
  | _, _, .call g hn hv, ht => by
    rw [tokens, List.forall_mem_cons] at ht
    rw [chars, chars]
    exact .call g (.cons (ht.1 _ hn) (tokens_alike (by cases hv <;> simp [*]) ht.2))
  | _, _, .join c h hs, ht => by
    rw [tokens, List.forall_mem_append] at ht
    rw [chars, chars]
    exact .intercalate rfl (Text.any_isSigil_connective c)
      (.cons (Like.alike h ht.1).bracketed (PartsLike.alike hs ht.2))
  | _, _, .not h, ht => by
    rw [tokens] at ht
    have hc := Like.alike h ht
    rw [chars, chars, h.isCall_eq]
    split
    · exact .behind rfl hc
    · exact .behind rfl hc.bracketed

/-- So are the parts of junctions, each in brackets. -/
theorem PartsLike.alike : ∀ {cs cs' : List Condition}, PartsLike τ cs cs' →
    (∀ t ∈ partsTokens cs, ∀ t', τ t t' → Alike f f' t.toList t'.toList) →
    List.Forall₂ (Alike f f') (partsChars cs) (partsChars cs')
  | _, _, .nil, _ => .nil
  | _, _, .cons h hs, ht => by
    rw [partsTokens, List.forall_mem_append] at ht
    rw [partsChars, partsChars]
    exact .cons (Like.alike h ht.1).bracketed (PartsLike.alike hs ht.2)

end

end Condition

/-! ## Alike changes -/

theorem Term.Like.alike {a a' : Term} (h : a.Like τ a')
    (ht : ∀ t ∈ a.tokens, ∀ t', τ t t' → Alike f f' t.toList t'.toList) :
    Alike f f' a.chars a'.chars := by
  induction h with
  | «attribute» h | bound h => exact ht _ List.mem_cons_self _ h
  | ifNotExists hn hv => exact .call .ifNotExists (tokens_alike (.cons hn (.cons hv .nil)) ht)
  | listAppend _ _ iha ihb =>
    rw [tokens, List.forall_mem_append] at ht
    exact .call .listAppend (.cons (iha ht.1) (.cons (ihb ht.2) .nil))
  | plus _ _ iha ihb =>
    rw [tokens, List.forall_mem_append] at ht
    exact .spaced rfl (iha ht.1) (ihb ht.2)
  | minus _ _ iha ihb =>
    rw [tokens, List.forall_mem_append] at ht
    exact .spaced rfl (iha ht.1) (ihb ht.2)

namespace Change

theorem Like.alike {c c' : Change} (h : c.Like τ c')
    (ht : ∀ t ∈ c.tokens, ∀ t', τ t t' → Alike f f' t.toList t'.toList) :
    Alike f f' c.chars c'.chars := by
  cases h with
  | set hn ha =>
    rw [tokens, List.forall_mem_cons] at ht
    exact .spaced rfl (ht.1 _ hn) (ha.alike ht.2)
  | remove hn => exact ht _ List.mem_cons_self _ hn
  | @apply n n' t t' hn hv =>
    obtain ⟨hname, hvalue⟩ := List.forall_mem_cons.mp ht
    have h : Alike f f' (n.toList ++ [' '] ++ t.toList) (n'.toList ++ [' '] ++ t'.toList) :=
      .append rfl rfl (hname _ hn) (hvalue _ List.mem_cons_self _ hv)
    rwa [List.append_assoc, List.append_assoc] at h

/-- Updates of one shape are alike if their placeholders are. -/
theorem groups_alike {groups groups' : List (UpdateKeyword × List Change)}
    (h : List.Forall₂ (GroupLike τ) groups groups')
    (ht : ∀ t ∈ groups.flatMap (fun g => g.2.flatMap tokens), ∀ t', τ t t' →
      Alike f f' t.toList t'.toList) :
    Alike f f' (groupsChars groups) (groupsChars groups') := by
  refine .intercalate rfl rfl ?_
  rw [List.forall₂_map_left_iff, List.forall₂_map_right_iff]
  refine forall₂_imp_mem h fun g hg g' hgroup => ?_
  have hchanges : List.Forall₂ (Alike f f') (g.2.map chars) (g'.2.map chars) := by
    rw [List.forall₂_map_left_iff, List.forall₂_map_right_iff]
    refine forall₂_imp_mem hgroup.changes fun c hc c' hlike => hlike.alike fun t htoken => ht t ?_
    exact List.mem_flatMap.mpr ⟨g, hg, List.mem_flatMap.mpr ⟨c, hc, htoken⟩⟩
  have hkeyword : (g.1.text.toList ++ [' ']).any Text.isSigil = false := by cases g.1 <;> rfl
  have hg : Alike f f' _ _ := .behind hkeyword (.commas hchanges)
  rw [List.append_assoc, List.append_assoc] at hg
  rw [groupChars, groupChars, ← hgroup.keyword]
  exact hg

end Change

/-- So are projections. -/
theorem Projection.alike {names names' : List String} (h : List.Forall₂ τ names names')
    (ht : ∀ t ∈ names, ∀ t', τ t t' → Alike f f' t.toList t'.toList) :
    Alike f f' (chars names) (chars names') :=
  .commas (tokens_alike h ht)

/-- Two conditions that are joined are alike if both parts are. -/
theorem RequestBuilder.conjunction_alike {a a' b b' : String} (ha : Alike f f' a.toList a'.toList)
    (hb : Alike f f' b.toList b'.toList) :
    Alike f f' (conjunction a b).toList (conjunction a' b').toList := by
  rw [toList_conjunction, toList_conjunction]
  exact .spaced (Text.any_isSigil_connective .and) ha.bracketed hb.bracketed

end Clauses
