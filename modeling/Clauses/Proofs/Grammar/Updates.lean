import Clauses.Proofs.Grammar.Reader
import Clauses.Expression.Change
import Mathlib.Algebra.BigOperators.Group.List.Basic

/-!
# The grammar of updates

An update is read as groups of changes, each behind its keyword. A comma keeps two changes apart,
and also the arguments of a function, but these stand in brackets. A value goes on behind a sign;
behind a comma, a keyword or the end of the text it does not.

* `Grammar.readUpdate?` — the groups that a text is
* `Change.groups_read` — the text of groups is read as these groups

## Termination

An argument is read with less fuel than the function that it is given to, and has fewer
lexemes; so as much fuel as there are lexemes is enough. There are no more changes and no
more groups than lexemes.
-/

namespace Clauses

/-! ## Readers -/

/-- The keyword that a word is. -/
def UpdateKeyword.ofWord? (w : List Char) : Option UpdateKeyword :=
  [UpdateKeyword.set, .remove, .add, .delete].find? fun k => k.text.toList == w

theorem UpdateKeyword.ofWord?_text (k : UpdateKeyword) : ofWord? k.text.toList = some k := by
  cases k <;> rfl

namespace Grammar

/-- Reads a value that is neither a sum nor a difference. -/
def operand : (fuel : Nat) → Reader Term
  | 0, _ => none
  | _ + 1, .name t :: ls => some (.attribute t, ls)
  | _ + 1, .value t :: ls => some (.bound t, ls)
  | _ + 1, .function .ifNotExists :: .opening :: .name t :: .comma :: .value u :: .closing :: ls =>
    some (.ifNotExists t u, ls)
  | fuel + 1, .function .listAppend :: .opening :: ls => do
    let (a, ls) ← operand fuel ls
    match ls with
    | .comma :: ls =>
      let (b, ls) ← operand fuel ls
      match ls with
      | .closing :: ls => return (.listAppend a b, ls)
      | _ => none
    | _ => none
  | _ + 1, _ => none

/-- Reads what a value goes on with behind its first operand. -/
def further (a : Term) : Reader Term
  | .other ['+'] :: ls => do
    let (b, ls) ← operand ls.length ls
    return (.plus a b, ls)
  | .other ['-'] :: ls => do
    let (b, ls) ← operand ls.length ls
    return (.minus a b, ls)
  | ls => some (a, ls)

/-- Reads a value. -/
def assigned : Reader Term := fun ls => do
  let (a, ls) ← operand ls.length ls
  further a ls

/-- Reads a change of a group. -/
def change : UpdateKeyword → Reader Change
  | .set, .name t :: .operator .equal :: ls => do
    let (term, ls) ← assigned ls
    return (.set t term, ls)
  | .remove, .name t :: ls => some (.remove t, ls)
  | .add, .name t :: .value u :: ls | .delete, .name t :: .value u :: ls => some (.apply t u, ls)
  | _, _ => none

/-- Reads at most so many changes of a group. -/
def changes (keyword : UpdateKeyword) : (most : Nat) → Reader (List Change)
  | 0, _ => none
  | most + 1, ls => do
    let (c, ls) ← change keyword ls
    match ls with
    | .comma :: ls =>
      let (cs, ls) ← changes keyword most ls
      return (c :: cs, ls)
    | ls => return ([c], ls)

/-- Reads at most so many groups, up to the end of the text. -/
def groups : (most : Nat) → List Lexeme → Option (List (UpdateKeyword × List Change))
  | _, [] => some []
  | most + 1, .other w :: ls => do
    let keyword ← UpdateKeyword.ofWord? w
    let (cs, ls) ← changes keyword ls.length ls
    return (keyword, cs) :: (← groups most ls)
  | _, _ => none

/-- The groups of changes that a text is. -/
def readUpdate? (text : String) : Option (List (UpdateKeyword × List Change)) :=
  let ls := lexemes [] text.toList
  groups ls.length ls

end Grammar

/-- There are no more parts than lexemes, if each of them has one. -/
theorem Grammar.length_le_flatMap {α : Type} {f : α → List Lexeme} {as : List α}
    (h : ∀ a ∈ as, f a ≠ []) : as.length ≤ (as.flatMap f).length := by
  have hone : ∀ n ∈ as.map fun a => (f a).length, 1 ≤ n := by
    rw [List.forall_mem_map]
    exact fun a ha => List.length_pos_iff.mpr (h a ha)
  have hsum := List.length_le_sum_of_one_le _ hone
  rwa [List.length_map, ← List.length_flatMap] at hsum

open Grammar

/-! ## Values -/

namespace Term

/--
Its placeholders are words behind their sigils, and only the outermost value is a sum or a
difference.
-/
inductive Readable : (outermost : Bool) → Term → Prop where
  | name {outermost : Bool} {name : String} (h : IsToken '#' name) :
    Readable outermost (.attribute name)
  | value {outermost : Bool} {value : String} (h : IsToken ':' value) :
    Readable outermost (.bound value)
  | ifNotExists {outermost : Bool} {name value : String} (hn : IsToken '#' name)
    (hv : IsToken ':' value) : Readable outermost (.ifNotExists name value)
  | listAppend {outermost : Bool} {a b : Term} (ha : Readable false a) (hb : Readable false b) :
    Readable outermost (.listAppend a b)
  | plus {a b : Term} (ha : Readable false a) (hb : Readable false b) : Readable true (.plus a b)
  | minus {a b : Term} (ha : Readable false a) (hb : Readable false b) : Readable true (.minus a b)

/-- The lexemes of a value. -/
def lexemes : Term → List Lexeme
  | .attribute name => [.name name]
  | .bound value => [.value value]
  | .ifNotExists name value =>
    [.function .ifNotExists, .opening, .name name, .comma, .value value, .closing]
  | .listAppend a b =>
    .function .listAppend :: .opening :: (a.lexemes ++ .comma :: (b.lexemes ++ [.closing]))
  | .plus a b => a.lexemes ++ .other ['+'] :: b.lexemes
  | .minus a b => a.lexemes ++ .other ['-'] :: b.lexemes

/-- A function with two arguments. -/
theorem lexes_call (f : Builtin) {s s' : List Char} {ls ls' : List Lexeme} (h : Lexes s ls)
    (h' : Lexes s' ls') :
    Lexes (Condition.callChars f [s, s'])
      (.function f :: .opening :: (ls ++ .comma :: (ls' ++ [.closing]))) := by
  have hcomma : Closed comma [.comma] := fun _ => rfl
  have hboth : Lexes (comma.intercalate [s, s']) (ls ++ .comma :: ls') := by
    simpa using Text.Gives.commas hcomma (.cons h' .nil) h
  have hcall := ((lexes_function f).append (Closed.bracketed hboth) (by decide)).gives
  rw [List.append_assoc, List.cons_append] at hcall
  exact hcall

theorem Readable.lexes {outermost : Bool} {term : Term} (h : term.Readable outermost) :
    Lexes term.chars term.lexemes := by
  induction h with
  | name h => exact h.lexes_name
  | value h => exact h.lexes_value
  | ifNotExists hn hv => exact lexes_call .ifNotExists hn.lexes_name hv.lexes_value
  | listAppend _ _ iha ihb => exact lexes_call .listAppend iha ihb
  | plus _ _ iha ihb | minus _ _ iha ihb => exact iha.append_spaced (fun _ => rfl) ihb

theorem lexemes_ne_nil (term : Term) : term.lexemes ≠ [] := by
  cases term <;> simp [lexemes]

/-- An operand ends by itself, whatever follows it. -/
theorem operand_lexemes : ∀ {term : Term} {fuel : Nat} (rest : List Lexeme), term.Readable false →
    term.lexemes.length ≤ fuel → operand fuel (term.lexemes ++ rest) = some (term, rest)
  | term, 0, _, _, hf => absurd (List.length_eq_zero_iff.mp (Nat.le_zero.mp hf)) term.lexemes_ne_nil
  | _, _ + 1, _, .name _, _ => rfl
  | _, _ + 1, _, .value _, _ => rfl
  | _, _ + 1, _, .ifNotExists _ _, _ => rfl
  | .listAppend a b, fuel + 1, rest, .listAppend hread hread', hf => by
    simp only [lexemes, List.length_cons, List.length_append] at hf
    have ha : operand fuel (a.lexemes ++ .comma :: (b.lexemes ++ .closing :: rest))
        = some (a, .comma :: (b.lexemes ++ .closing :: rest)) := operand_lexemes _ hread (by omega)
    have hb : operand fuel (b.lexemes ++ .closing :: rest) = some (b, .closing :: rest) :=
      operand_lexemes _ hread' (by omega)
    simp only [lexemes, List.cons_append, List.append_assoc, List.nil_append, operand, ha, hb,
      Option.bind_eq_bind, Option.bind_some]
    rfl

/-- There is fuel enough for an operand. -/
theorem operand_self {term : Term} (h : term.Readable false) (rest : List Lexeme) :
    operand (term.lexemes ++ rest).length (term.lexemes ++ rest) = some (term, rest) :=
  operand_lexemes rest h (by simp)

end Term

/-- A value does not go on in front of these lexemes. -/
def Grammar.EndsValue (ls : List Lexeme) : Prop :=
  ls.head? ≠ some (.other ['+']) ∧ ls.head? ≠ some (.other ['-'])

namespace Term

theorem further_end {rest : List Lexeme} (hr : EndsValue rest) (term : Term) :
    further term rest = some (term, rest) := by
  unfold further
  split
  · exact absurd rfl hr.1
  · exact absurd rfl hr.2
  · rfl

theorem assigned_append {a : Term} (h : a.Readable false) (rest : List Lexeme) :
    assigned (a.lexemes ++ rest) = further a rest := by
  rw [assigned, operand_self h]
  rfl

theorem Readable.assigned_lexemes {term : Term} (h : term.Readable true) {rest : List Lexeme}
    (hr : EndsValue rest) : assigned (term.lexemes ++ rest) = some (term, rest) := by
  cases h with
  | name h => rw [assigned_append (.name h), further_end hr]
  | value h => rw [assigned_append (.value h), further_end hr]
  | ifNotExists hn hv => rw [assigned_append (.ifNotExists hn hv), further_end hr]
  | listAppend ha hb => rw [assigned_append (.listAppend ha hb), further_end hr]
  | plus ha hb | minus ha hb =>
    rw [lexemes, List.append_assoc, List.cons_append, assigned_append ha, further, operand_self hb]
    rfl

end Term

/-! ## Changes -/

namespace Change

/-- It may stand under the keyword, and its placeholders are words behind their sigils. -/
inductive Readable : UpdateKeyword → Change → Prop where
  | set {name : String} {term : Term} (hn : IsToken '#' name) (ht : term.Readable true) :
    Readable .set (.set name term)
  | remove {name : String} (hn : IsToken '#' name) : Readable .remove (.remove name)
  | add {name value : String} (hn : IsToken '#' name) (hv : IsToken ':' value) :
    Readable .add (.apply name value)
  | delete {name value : String} (hn : IsToken '#' name) (hv : IsToken ':' value) :
    Readable .delete (.apply name value)

/-- The lexemes of a change. -/
def lexemes : Change → List Lexeme
  | .set name term => .name name :: .operator .equal :: term.lexemes
  | .remove name => [.name name]
  | .apply name value => [.name name, .value value]

variable {keyword : UpdateKeyword} {c : Change}

theorem lexes_apply {name value : String} (hn : IsToken '#' name) (hv : IsToken ':' value) :
    Lexes (chars (.apply name value)) (lexemes (.apply name value)) := by
  have hspace : Closed [' '] [] := fun _ => rfl
  have htext := (hn.lexes_name.append hspace (by decide)).append_gives hv.lexes_value
  rw [List.append_assoc] at htext
  exact htext

theorem Readable.lexes (h : c.Readable keyword) : Lexes c.chars c.lexemes := by
  cases h with
  | set hn ht => exact hn.lexes_name.append_spaced (fun _ => rfl) (ht.lexes)
  | remove hn => exact hn.lexes_name
  | add hn hv | delete hn hv => exact lexes_apply hn hv

theorem change_lexemes (h : c.Readable keyword) {rest : List Lexeme} (hr : EndsValue rest) :
    change keyword (c.lexemes ++ rest) = some (c, rest) := by
  cases h with
  | set hn ht =>
    rw [lexemes, List.cons_append, List.cons_append, change, ht.assigned_lexemes hr]
    rfl
  | _ => rfl

/-! ### Changes with commas between them -/

/-- The lexemes of changes with commas between them. -/
def commaLexemes (c : Change) (cs : List Change) : List Lexeme :=
  c.lexemes ++ cs.flatMap (.comma :: ·.lexemes)

theorem lexes_commas {cs : List Change} (h : ∀ d ∈ c :: cs, d.Readable keyword) :
    Lexes (comma.intercalate ((c :: cs).map chars)) (commaLexemes c cs) := by
  obtain ⟨hc, hcs⟩ := List.forall_mem_cons.mp h
  have hcomma : Closed comma [.comma] := fun _ => rfl
  have hrest : List.Forall₂ Lexes (cs.map chars) (cs.map lexemes) := by
    rw [List.forall₂_map_left_iff, List.forall₂_map_right_iff]
    exact List.forall₂_same.mpr fun d hd => (hcs d hd).lexes
  have htext := Text.Gives.commas hcomma hrest hc.lexes
  rw [List.flatMap_map] at htext
  exact htext

theorem changes_lexemes {rest : List Lexeme} (hr : EndsValue rest)
    (hcomma : rest.head? ≠ some .comma) :
    ∀ (cs : List Change) {c : Change} {most : Nat}, (∀ d ∈ c :: cs, d.Readable keyword) →
      cs.length < most → changes keyword most (commaLexemes c cs ++ rest) = some (c :: cs, rest)
  | [], c, most + 1, h, _ => by
    have hc := change_lexemes (h c List.mem_cons_self) hr
    rw [commaLexemes, List.flatMap_nil, List.append_nil, changes, hc]
    dsimp only [Option.bind_eq_bind, Option.bind_some]
    split
    · exact absurd rfl hcomma
    · rfl
  | d :: cs, c, most + 1, h, hm => by
    obtain ⟨hc, hcs⟩ := List.forall_mem_cons.mp h
    have hends : EndsValue (.comma :: (commaLexemes d cs ++ rest)) := ⟨by simp, by simp⟩
    have hlater := changes_lexemes hr hcomma cs hcs (Nat.lt_of_succ_lt_succ hm)
    have hsplit : commaLexemes c (d :: cs) ++ rest
        = c.lexemes ++ .comma :: (commaLexemes d cs ++ rest) := by
      simp [commaLexemes]
    rw [hsplit, changes, change_lexemes hc hends]
    dsimp only [Option.bind_eq_bind, Option.bind_some]
    rw [hlater]
    rfl

theorem length_lt_commaLexemes (c : Change) (cs : List Change) :
    cs.length < (commaLexemes c cs).length := by
  have hc : 0 < c.lexemes.length := by
    cases c <;> exact Nat.succ_pos _
  have hcs : cs.length ≤ (cs.flatMap fun d => .comma :: d.lexemes).length :=
    length_le_flatMap fun _ _ => List.cons_ne_nil _ _
  rw [commaLexemes, List.length_append]
  omega

/-- There is fuel enough for the changes of a group. -/
theorem changes_self {rest : List Lexeme} (hr : EndsValue rest) (hcomma : rest.head? ≠ some .comma)
    {cs : List Change} (h : ∀ d ∈ c :: cs, d.Readable keyword) :
    changes keyword (commaLexemes c cs ++ rest).length (commaLexemes c cs ++ rest)
      = some (c :: cs, rest) := by
  refine changes_lexemes hr hcomma cs h ?_
  have hlength := length_lt_commaLexemes c cs
  rw [List.length_append]
  omega

/-! ### Groups -/

/-- The lexemes of a group, in which there is a change. -/
def groupLexemes : UpdateKeyword × List Change → List Lexeme
  | (_, []) => []
  | (keyword, c :: cs) => .other keyword.text.toList :: commaLexemes c cs

/-- There is a change in the group, and all of its changes may stand under its keyword. -/
inductive GroupReadable : UpdateKeyword × List Change → Prop where
  | of_forall {keyword : UpdateKeyword} {c : Change} {cs : List Change}
    (h : ∀ d ∈ c :: cs, d.Readable keyword) : GroupReadable (keyword, c :: cs)

variable {gs : List (UpdateKeyword × List Change)}

theorem lexes_keyword (keyword : UpdateKeyword) :
    Lexes keyword.text.toList [.other keyword.text.toList] := by
  intro rest hr
  have hw : ∀ c ∈ keyword.text.toList, Text.isWordChar c = true :=
    List.all_eq_true.mp (by cases keyword <;> rfl)
  rw [lexemes_append_word hw, lexemes_of_boundary _ hr]
  cases keyword <;> rfl

theorem GroupReadable.lexes : ∀ {g : UpdateKeyword × List Change}, GroupReadable g →
    Lexes (groupChars g.1 g.2) (groupLexemes g)
  | (keyword, c :: cs), .of_forall h => by
    have hspace : Closed [' '] [] := fun _ => rfl
    have htext := ((lexes_keyword keyword).append hspace (by decide)).append_gives (lexes_commas h)
    rw [List.append_assoc] at htext
    exact htext

theorem lexes_groups : ∀ {gs : List (UpdateKeyword × List Change)}, (∀ g ∈ gs, GroupReadable g) →
    Lexes (groupsChars gs) (gs.flatMap groupLexemes)
  | [], _ => fun _ _ => rfl
  | [g], h => by
    rw [groupsChars, List.map_singleton, List.intercalate_singleton, List.flatMap_singleton]
    exact (h g List.mem_cons_self).lexes
  | g :: g' :: gs, h => by
    obtain ⟨hg, hgs⟩ := List.forall_mem_cons.mp h
    have hspace : Closed [' '] [] := fun _ => rfl
    have htext := (hg.lexes.append hspace (by decide)).append_gives (lexes_groups hgs)
    rw [List.append_nil] at htext
    rw [groupsChars, List.map_cons, List.map_cons, List.intercalate_cons_cons]
    exact htext

/-- The keyword of the next group is no sign and no comma. -/
theorem ends_groups : ∀ {gs : List (UpdateKeyword × List Change)}, (∀ g ∈ gs, GroupReadable g) →
    EndsValue (gs.flatMap groupLexemes) ∧ (gs.flatMap groupLexemes).head? ≠ some .comma
  | [], _ => ⟨⟨nofun, nofun⟩, nofun⟩
  | (_, []) :: _, h => nomatch h _ List.mem_cons_self
  | (keyword, c :: cs) :: gs, _ => by
    rw [List.flatMap_cons, groupLexemes, List.cons_append, EndsValue, List.head?_cons]
    cases keyword <;> decide

theorem groups_lexemes : ∀ {gs : List (UpdateKeyword × List Change)} {most : Nat},
    (∀ g ∈ gs, GroupReadable g) → gs.length ≤ most →
    groups most (gs.flatMap groupLexemes) = some gs
  | [], 0, _, _ | [], _ + 1, _, _ => rfl
  | (_, []) :: _, _, h, _ => nomatch h _ List.mem_cons_self
  | (keyword, c :: cs) :: gs, most + 1, h, hm => by
    obtain ⟨⟨hall⟩, hgs⟩ := List.forall_mem_cons.mp h
    obtain ⟨hends, hcomma⟩ := ends_groups hgs
    rw [List.flatMap_cons, groupLexemes, List.cons_append, groups, UpdateKeyword.ofWord?_text]
    dsimp only [Option.bind_eq_bind, Option.bind_some]
    rw [changes_self hends hcomma hall]
    dsimp only [Option.bind_eq_bind, Option.bind_some]
    rw [groups_lexemes hgs (Nat.le_of_succ_le_succ hm)]
    rfl

/-- **The text of an update is read as its groups.** -/
theorem groups_read (h : ∀ g ∈ gs, GroupReadable g) :
    readUpdate? (String.ofList (groupsChars gs)) = some gs := by
  have htext := lexes_groups h [] .nil
  rw [List.append_nil, show Grammar.lexemes [] [] = [] from rfl, List.append_nil] at htext
  have hlength : gs.length ≤ (gs.flatMap groupLexemes).length := by
    refine length_le_flatMap fun g hg => ?_
    obtain ⟨hall⟩ := h g hg
    exact List.cons_ne_nil _ _
  simp only [readUpdate?, String.toList_ofList, htext, groups_lexemes h hlength]

end Change

end Clauses
