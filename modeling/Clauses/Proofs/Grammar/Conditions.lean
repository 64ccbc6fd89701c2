import Clauses.Proofs.Grammar.Reader

/-!
# Conditions are read as they were meant

The text of a condition is read as the formula of the condition: a comparison as that comparison, a
call as that call, and a junction as the junction of its parts, however deep they are nested. What
keeps the parts apart are their brackets, and a call behind `NOT` needs none.

* `Condition.formula` — the formula of a condition
* `Condition.chars_reads` — the text of a condition is read as its formula
-/

namespace Clauses

open Grammar

/-! ## Formulas of conditions -/

namespace Grammar

/-- The atom of a comparison; some comparisons are calls. -/
def Atom.comparison {ν ω : Type} (x : Item ν ω) (op : Operator) (ys : List (Item ν ω)) : Atom ν ω :=
  match op with
  | .beginsWith => .call .beginsWith (x :: ys)
  | .contains => .call .contains (x :: ys)
  | _ => .compare x op ys

/-- Two formulas with a connective between them. -/
def Formula.connect {ν ω : Type} (c : Connective) (f g : Formula ν ω) : Formula ν ω :=
  match c with
  | .and => .and f g
  | .or => .or f g

end Grammar

/-- The placeholder on the left side of a comparison. -/
def Compared.token : Compared → String
  | .attribute name => name
  | .size name => name

/-- What is compared, as an item. -/
def Compared.item : Compared → Item String String
  | .attribute name => .attribute name
  | .size name => .size name

namespace Condition

mutual

/-- The formula of a condition. -/
def formula : Condition → Written
  | .compare left op values => .atom (.comparison left.item op (values.map .value))
  | .call f name value => .atom (.call f (.attribute name :: value.toList.map .value))
  | .join c first others => junctionFormula c (formula first) others
  | .not c => .not (formula c)

/-- The formula of a junction with the formula of its first part. -/
def junctionFormula (c : Connective) (f : Written) : List Condition → Written
  | [] => f
  | d :: rest => .connect c f (junctionFormula c (formula d) rest)

end

mutual

/--
Its placeholders are words behind their sigils, and each operator has as many values as it takes.
-/
def Readable : Condition → Prop
  | .compare left op values =>
    IsToken '#' left.token ∧ op.arity.Admits values.length ∧ ∀ t ∈ values, IsToken ':' t
  | .call f name value => f ≠ .size ∧ IsToken '#' name ∧ ∀ t ∈ value, IsToken ':' t
  | .join _ first others => Readable first ∧ AllReadable others
  | .not c => Readable c

/-- All of them are readable. -/
def AllReadable : List Condition → Prop
  | [] => True
  | c :: rest => Readable c ∧ AllReadable rest

end

end Condition

/-! ## Texts of items -/

namespace Grammar

theorem lexes_compared {left : Compared} (h : IsToken '#' left.token) :
    Lexes left.chars left.item.lexemes := by
  rcases left with name | name
  · exact h.lexes_name
  · have hb := Closed.bracketed h.lexes_name
    exact ((lexes_function .size).append hb (by decide)).gives

theorem lexes_value {t : String} (h : IsToken ':' t) :
    Lexes t.toList (Item.value t : Item String String).lexemes :=
  h.lexes_value

theorem lexes_values {values : List String} (h : ∀ t ∈ values, IsToken ':' t) :
    List.Forall₂ Lexes (values.map String.toList)
      ((values.map Item.value).map Item.lexemes) := by
  rw [List.map_map, List.forall₂_map_left_iff, List.forall₂_map_right_iff]
  exact List.forall₂_same.mpr fun t ht => (h t ht).lexes_value

/-- Items in brackets, with commas between them. -/
theorem closed_items {s : List Char} {x : Item String String} {ss : List (List Char)}
    {xs : List (Item String String)} (h : Lexes s x.lexemes)
    (hs : List.Forall₂ Lexes ss (xs.map Item.lexemes)) :
    Closed (bracketed (comma.intercalate (s :: ss)))
      (.opening :: (commaLexemes x xs ++ [.closing])) := by
  have hcomma : Closed comma [.comma] := fun _ => rfl
  have hc := Closed.bracketed (Text.Gives.commas hcomma hs h)
  rw [List.flatMap_map] at hc
  exact hc

/-! ## Texts of formulas -/

/-- The text is read as the formula, on some level of the grammar. -/
def Reads (level : List Lexeme → Written → Prop) (s : List Char) (f : Written) : Prop :=
  ∃ ls, Lexes s ls ∧ level ls f

/-- What the parts with a connective between them make. -/
def IsJunction : Connective → List Lexeme → Written → Prop
  | .and => IsConjunction
  | .or => IsDisjunction

variable {s s' : List Char} {f g : Written}

theorem Reads.junction (c : Connective) (h : Reads IsFactor s f) : Reads (IsJunction c) s f := by
  obtain ⟨ls, hl, hf⟩ := h
  cases c with
  | and => exact ⟨ls, hl, hf.conjunction⟩
  | or => exact ⟨ls, hl, hf.conjunction.disjunction⟩

theorem Reads.disjunction {c : Connective} (h : Reads (IsJunction c) s f) :
    Reads IsDisjunction s f := by
  obtain ⟨ls, hl, hf⟩ := h
  cases c with
  | and => exact ⟨ls, hl, hf.disjunction⟩
  | or => exact ⟨ls, hl, hf⟩

theorem Reads.bracketed (h : Reads IsDisjunction s f) : Reads IsFactor (bracketed s) f := by
  obtain ⟨ls, hl, hf⟩ := h
  exact ⟨_, (Closed.bracketed hl).gives, hf.bracketed⟩

theorem Reads.not (h : Reads IsFactor s f) : Reads IsFactor ("NOT ".toList ++ s) (.not f) := by
  obtain ⟨ls, hl, hf⟩ := h
  exact ⟨_, closed_negation.append_gives hl, hf.not⟩

theorem Reads.connect {c : Connective} (h : Reads IsFactor s f) (h' : Reads (IsJunction c) s' g) :
    Reads (IsJunction c) (s ++ spaced c.text ++ s') (.connect c f g) := by
  obtain ⟨ls, hl, hf⟩ := h
  obtain ⟨ls', hl', hg⟩ := h'
  have hs := hl.append_spaced (closed_connective c) hl'
  cases c with
  | and => exact ⟨_, hs, hf.and hg⟩
  | or => exact ⟨_, hs, hf.conjunction.or hg⟩

/-- What a text is read as in front of anything is what it is on its own. -/
theorem Reads.read? (h : Reads IsDisjunction s f) : Grammar.read? (String.ofList s) = some f := by
  obtain ⟨ls, hl, hf⟩ := h
  have hs := hl [] Text.Boundary.nil
  rw [List.append_nil, show lexemes [] [] = [] from rfl, List.append_nil] at hs
  have hr := hf.read (3 * ls.length) [] (Nat.le_refl _) (fun c hc => by cases hc)
  rw [List.append_nil] at hr
  simp only [Grammar.read?, String.toList_ofList, hs, hr]

end Grammar

/-! ## Texts of comparisons and calls -/

namespace Grammar

variable {s s' s'' : List Char} {ss : List (List Char)} {x y z : Item String String}
  {ys : List (Item String String)}

theorem length_pos_of_cons {l : Lexeme} (as bs : List Lexeme) : 0 < (as ++ l :: bs).length := by
  rw [List.length_append, List.length_cons]
  omega

theorem reads_sign {op : Operator} (ho : isSign op = true) (hx : Lexes s x.lexemes)
    (hy : Lexes s' y.lexemes) :
    Reads IsFactor (s ++ spaced op.text ++ s') (.atom (.compare x op [y])) := by
  have hop : Closed (spaced op.text) [.operator op] := by
    refine closed_operator ?_ ?_ <;>
    · rintro rfl
      cases ho
  refine ⟨_, hx.append_spaced hop hy, IsFactor.atom (length_pos_of_cons _ _) fun rest => ?_⟩
  rw [List.append_assoc, List.cons_append, atom_lexemes, right_sign ho]

theorem reads_between (hx : Lexes s x.lexemes) (hy : Lexes s' y.lexemes)
    (hz : Lexes s'' z.lexemes) :
    Reads IsFactor
      (s ++ spaced Operator.between.text ++ (s' ++ spaced Connective.and.text ++ s''))
      (.atom (.compare x .between [y, z])) := by
  have hop : Closed (spaced Operator.between.text) [.operator .between] := fun _ => rfl
  have hand := hy.append_spaced (closed_connective .and) hz
  refine ⟨_, hx.append_spaced hop hand, IsFactor.atom (length_pos_of_cons _ _) fun rest => ?_⟩
  rw [List.append_assoc, List.cons_append, atom_lexemes, List.append_assoc, List.cons_append,
    right_between]

theorem reads_among (hx : Lexes s x.lexemes) (hy : Lexes s' y.lexemes)
    (hys : List.Forall₂ Lexes ss (ys.map Item.lexemes)) :
    Reads IsFactor (s ++ spaced Operator.among.text ++ bracketed (comma.intercalate (s' :: ss)))
      (.atom (.compare x .among (y :: ys))) := by
  have hop : Closed (spaced Operator.among.text) [.operator .among] := fun _ => rfl
  refine ⟨_, hx.append_spaced hop (closed_items hy hys).gives,
    IsFactor.atom (length_pos_of_cons _ _) fun rest => ?_⟩
  rw [List.append_assoc, List.cons_append, atom_lexemes, List.cons_append, List.append_assoc,
    List.singleton_append, right_among]

theorem reads_call {f : Builtin} (hf : f ≠ .size) (hy : Lexes s' y.lexemes)
    (hys : List.Forall₂ Lexes ss (ys.map Item.lexemes)) :
    Reads IsFactor (f.name.toList ++ bracketed (comma.intercalate (s' :: ss)))
      (.atom (.call f (y :: ys))) := by
  have hc := (lexes_function f).append (closed_items hy hys) (by decide)
  refine ⟨_, hc.gives, IsFactor.atom (Nat.succ_pos _) fun rest => ?_⟩
  rw [List.append_assoc, List.singleton_append, List.cons_append, List.append_assoc,
    List.singleton_append, atom_call hf]

end Grammar

/-! ## Texts of conditions -/

namespace Condition

theorem compareChars_reads {left : Compared} {op : Operator} {values : List String}
    (hl : IsToken '#' left.token) (ha : op.arity.Admits values.length)
    (hv : ∀ t ∈ values, IsToken ':' t) :
    Reads IsFactor (compareChars left.chars op (values.map String.toList))
      (.atom (.comparison left.item op (values.map .value))) := by
  have hleft := lexes_compared hl
  cases op with
  | between =>
    obtain ⟨low, high, rfl⟩ := List.length_eq_two.mp ha
    obtain ⟨hlow, hhigh⟩ : IsToken ':' low ∧ IsToken ':' high := by simpa using hv
    have hr := reads_between hleft (lexes_value hlow) (lexes_value hhigh)
    rw [compareChars, List.map_cons, List.map_cons, List.map_nil, List.intercalate_cons_cons,
      List.intercalate_singleton]
    exact hr
  | among =>
    obtain ⟨t, rest, rfl⟩ := List.exists_cons_of_length_pos ha
    obtain ⟨ht, hrest⟩ := List.forall_mem_cons.mp hv
    exact reads_among hleft (lexes_value ht) (lexes_values hrest)
  | beginsWith =>
    have hr := reads_call (f := .beginsWith) (by decide) hleft (lexes_values hv)
    rw [compareChars, show Operator.beginsWith.text = Builtin.beginsWith.name from rfl]
    exact hr
  | contains =>
    have hr := reads_call (f := .contains) (by decide) hleft (lexes_values hv)
    rw [compareChars, show Operator.contains.text = Builtin.contains.name from rfl]
    exact hr
  | _ =>
    obtain ⟨t, rfl⟩ := List.length_eq_one_iff.mp ha
    have ht := lexes_value (hv t List.mem_cons_self)
    simp only [compareChars, List.map_cons, List.map_nil, List.intercalate_singleton]
    exact reads_sign rfl hleft ht

theorem callChars_reads {f : Builtin} {name : String} {value : Option String} (hf : f ≠ .size)
    (hn : IsToken '#' name) (hv : ∀ t ∈ value, IsToken ':' t) :
    Reads IsFactor (callChars f (name.toList :: value.toList.map String.toList))
      (.atom (.call f (.attribute name :: value.toList.map .value))) := by
  have hname : Lexes name.toList (Item.attribute name : Item String String).lexemes := hn.lexes_name
  exact reads_call hf hname (lexes_values fun t ht => hv t (by simpa using ht))

mutual

/-- Its text is read as its formula; that of a call needs no brackets. -/
theorem chars_reads : ∀ c : Condition, c.Readable →
    Reads IsDisjunction c.chars c.formula ∧ (c.isCall = true → Reads IsFactor c.chars c.formula)
  | .compare left op values, h => by
    obtain ⟨hl, ha, hv⟩ := h
    refine ⟨(Reads.junction .or ?_).disjunction, fun hc => by cases hc⟩
    rw [chars, formula]
    exact compareChars_reads hl ha hv
  | .call f name value, h => by
    obtain ⟨hf, hn, hv⟩ := h
    have hr : Reads IsFactor (chars (.call f name value)) (formula (.call f name value)) := by
      rw [chars, formula]
      exact callChars_reads hf hn hv
    exact ⟨(hr.junction .or).disjunction, fun _ => hr⟩
  | .join c first others, h => by
    obtain ⟨hfirst, hothers⟩ := h
    refine ⟨?_, fun hc => by cases hc⟩
    rw [chars, formula]
    exact (junction_reads c others hothers (chars_reads first hfirst).1.bracketed).disjunction
  | .not c, h => by
    refine ⟨(Reads.junction .or ?_).disjunction, fun hc => by cases hc⟩
    obtain ⟨hread, hcall⟩ := chars_reads c h
    rw [chars, formula]
    -- A call takes no brackets behind `NOT`; it is a factor as it stands.
    split
    · next hc => exact (hcall hc).not
    · exact hread.bracketed.not

/-- The parts of a junction, each in brackets, behind something that is read. -/
theorem junction_reads (c : Connective) : ∀ others : List Condition, AllReadable others →
    ∀ {s : List Char} {f : Written}, Reads IsFactor s f →
      Reads (IsJunction c) ((spaced c.text).intercalate (s :: partsChars others))
        (junctionFormula c f others)
  | [], _, s, f, hs => by
    rw [partsChars, junctionFormula, List.intercalate_singleton]
    exact hs.junction c
  | d :: rest, h, s, f, hs => by
    obtain ⟨hd, hrest⟩ := h
    -- The brackets make a factor of the part, whatever is in it.
    have hr := junction_reads c rest hrest (chars_reads d hd).1.bracketed
    rw [partsChars, junctionFormula, List.intercalate_cons_cons]
    exact hs.connect hr

end

end Condition

end Clauses
