import Clauses.Proofs.Grammar.Conditions

/-!
# Other spellings of placeholders

An expression stays what it is when its placeholders are spelled in another way: the text of a
condition changes where its placeholders stand, and nowhere else.

* `Text.respell` — a text with other spellings of its placeholders
* `Condition.chars_respell` — the text of a condition with other spellings
-/

namespace Clauses

open Grammar

/-! ## Texts -/

namespace Text

variable (spell : String → String)

/-- The spelling of a placeholder that has come to its end, if one has been begun. -/
def spelled : (begun : List Char) → List Char
  | [] => []
  | c :: w => (spell (String.ofList (c :: w))).toList

/-- A placeholder begins with this character. -/
def isSigil (c : Char) : Bool := c == '#' || c == ':'

/-- The text with each placeholder in its other spelling. -/
def respell : (begun : List Char) → List Char → List Char
  | begun, [] => spelled spell begun
  | begun, c :: s =>
    if begun ≠ [] ∧ isWordChar c = true then respell (begun ++ [c]) s
    else if isSigil c then spelled spell begun ++ respell [c] s
    else spelled spell begun ++ c :: respell [] s

variable {spell}

theorem respell_of_boundary {s : List Char} (begun : List Char) (h : Boundary s) :
    respell spell begun s = spelled spell begun ++ respell spell [] s := by
  cases s with
  | nil => simp [respell, spelled]
  | cons c s =>
    have hc := h c rfl
    simp only [respell, hc, Bool.false_eq_true, and_false, if_false]
    split <;> rfl

theorem respell_append_word {w : List Char} (hw : ∀ c ∈ w, isWordChar c = true) :
    ∀ {begun : List Char}, begun ≠ [] → ∀ s : List Char,
      respell spell begun (w ++ s) = respell spell (begun ++ w) s := by
  induction w with
  | nil => simp
  | cons c w ih =>
    intro begun hb s
    obtain ⟨hc, hw'⟩ := List.forall_mem_cons.mp hw
    rw [List.cons_append, respell, if_pos ⟨hb, hc⟩, ih hw' (by simp), List.append_assoc,
      List.singleton_append]

/-- What has no sigils stays as it is. -/
theorem respell_plain {t : List Char} (h : t.any isSigil = false) :
    GivesAnywhere (respell spell []) t t := by
  intro rest
  induction t with
  | nil => rfl
  | cons c t ih =>
    rw [List.any_cons, Bool.or_eq_false_iff] at h
    obtain ⟨hc, ht⟩ := h
    rw [List.cons_append, respell, if_neg (by simp), if_neg (by simp [hc]), ih ht]
    rfl

/-- A placeholder takes its other spelling. -/
theorem respell_token (spell : String → String) {sigil : Char} {token : String}
    (hs : isSigil sigil = true)
    (h : IsToken sigil token) : Gives (respell spell []) token.toList (spell token).toList := by
  intro rest hr
  obtain ⟨w, -, hw, ht⟩ := h
  rw [ht, List.cons_append, respell, if_neg (by simp), if_pos hs, spelled, List.nil_append,
    respell_append_word hw (by simp), respell_of_boundary _ hr, List.singleton_append, spelled,
    ← ht, String.ofList_toList]

end Text

/-! ## Conditions -/

/-- What is compared, with another spelling of its placeholder. -/
def Compared.respell (spell : String → String) : Compared → Compared
  | .attribute name => .attribute (spell name)
  | .size name => .size (spell name)

namespace Condition

mutual

/-- The condition with other spellings of its placeholders. -/
def respell (spell : String → String) : Condition → Condition
  | .compare left op values => .compare (left.respell spell) op (values.map spell)
  | .call f name value => .call f (spell name) (value.map spell)
  | .join c first others => .join c (respell spell first) (respellAll spell others)
  | .not c => .not (respell spell c)

/-- The conditions with other spellings of their placeholders. -/
def respellAll (spell : String → String) : List Condition → List Condition
  | [] => []
  | c :: rest => respell spell c :: respellAll spell rest

end

end Condition

/-! ## Texts of conditions -/

namespace Text

variable {spell : String → String} {s s' : List Char} {out out' : List Char}

theorem respell_bracketed (h : Gives (respell spell []) s out) :
    GivesAnywhere (respell spell []) (bracketed s) (bracketed out) :=
  Gives.bracketed (respell_plain rfl) h (respell_plain rfl)

theorem intercalate_eq_flatMap (sep : List Char) (t : List Char) (ts : List (List Char)) :
    sep.intercalate (t :: ts) = t ++ ts.flatMap (sep ++ ·) := by
  induction ts generalizing t with
  | nil => simp
  | cons t' ts ih =>
    rw [List.intercalate_cons_cons, ih, List.flatMap_cons, List.append_assoc, List.append_assoc]

theorem respell_commas {ss outs : List (List Char)} (h : Gives (respell spell []) s out)
    (hs : List.Forall₂ (Gives (respell spell [])) ss outs) :
    Gives (respell spell []) (comma.intercalate (s :: ss)) (comma.intercalate (out :: outs)) := by
  rw [intercalate_eq_flatMap comma out outs]
  exact Gives.commas (respell_plain rfl) hs h

theorem respell_values (spell : String → String) {values : List String}
    (h : ∀ t ∈ values, IsToken ':' t) :
    List.Forall₂ (Gives (respell spell [])) (values.map String.toList)
      ((values.map spell).map String.toList) := by
  rw [List.map_map, List.forall₂_map_left_iff, List.forall₂_map_right_iff]
  exact List.forall₂_same.mpr fun t ht => respell_token spell rfl (h t ht)

/-- A word with a space on both sides stays as it is. -/
theorem Gives.respell_spaced {word : String} (h : Gives (respell spell []) s out)
    (hw : (spaced word).any isSigil = false) (h' : Gives (respell spell []) s' out') :
    Gives (respell spell []) (s ++ spaced word ++ s') (out ++ spaced word ++ out') :=
  h.append_spaced (respell_plain hw) h'

theorem any_isSigil_operator (op : Operator) : (spaced op.text).any isSigil = false := by
  cases op <;> rfl

theorem any_isSigil_connective (k : Connective) : (spaced k.text).any isSigil = false := by
  cases k <;> rfl

theorem respell_builtin (f : Builtin) :
    GivesAnywhere (respell spell []) f.name.toList f.name.toList :=
  respell_plain (by cases f <;> rfl)

theorem respell_compared (spell : String → String) {left : Compared} (h : IsToken '#' left.token) :
    Gives (respell spell []) left.chars (left.respell spell).chars := by
  rcases left with name | name
  · exact respell_token spell rfl h
  · have hb := respell_bracketed (respell_token spell rfl h)
    exact ((respell_builtin .size).append hb).gives

end Text

namespace Condition

variable {spell : String → String}

theorem compareChars_respell {left : Compared} {op : Operator} {values : List String}
    (hl : IsToken '#' left.token) (ha : op.arity.Admits values.length)
    (hv : ∀ t ∈ values, IsToken ':' t) :
    Text.Gives (Text.respell spell []) (compareChars left.chars op (values.map String.toList))
      (compareChars (left.respell spell).chars op ((values.map spell).map String.toList)) := by
  have hleft := Text.respell_compared spell hl
  have hvalues := Text.respell_values spell hv
  have hop := Text.any_isSigil_operator op
  cases op with
  | between =>
    obtain ⟨low, high, rfl⟩ := List.length_eq_two.mp ha
    obtain ⟨hlow, hhigh⟩ : IsToken ':' low ∧ IsToken ':' high := by simpa using hv
    have hand := Text.any_isSigil_connective .and
    have htwo := (Text.respell_token spell rfl hlow).respell_spaced hand
      (Text.respell_token spell rfl hhigh)
    simp only [compareChars, List.map_cons, List.map_nil, List.intercalate_cons_cons,
      List.intercalate_singleton]
    exact hleft.respell_spaced hop htwo
  | among =>
    obtain ⟨t, rest, rfl⟩ := List.exists_cons_of_length_pos ha
    obtain ⟨ht, hrest⟩ := List.forall_mem_cons.mp hv
    have hlist := Text.respell_bracketed
      (Text.respell_commas (Text.respell_token spell rfl ht)
        (Text.respell_values spell hrest))
    exact hleft.respell_spaced hop hlist.gives
  | beginsWith | contains =>
    have hlist := Text.respell_bracketed (Text.respell_commas hleft hvalues)
    exact ((Text.respell_plain rfl).append hlist).gives
  | _ =>
    obtain ⟨t, rfl⟩ := List.length_eq_one_iff.mp ha
    have ht := Text.respell_token spell rfl (hv t List.mem_cons_self)
    simp only [compareChars, List.map_cons, List.map_nil, List.intercalate_singleton]
    exact hleft.respell_spaced hop ht

theorem callChars_respell {f : Builtin} {name : String} {value : Option String}
    (hn : IsToken '#' name) (hv : ∀ t ∈ value, IsToken ':' t) :
    Text.Gives (Text.respell spell [])
      (callChars f (name.toList :: value.toList.map String.toList))
      (callChars f ((spell name).toList :: (value.map spell).toList.map String.toList)) := by
  have htokens : ∀ t ∈ value.toList, IsToken ':' t := by simpa using hv
  have hvalues := Text.respell_values spell htokens
  have hmap : value.toList.map spell = (value.map spell).toList := by cases value <;> rfl
  rw [hmap] at hvalues
  have hlist :=
    Text.respell_bracketed (Text.respell_commas (Text.respell_token spell rfl hn) hvalues)
  exact ((Text.respell_builtin f).append hlist).gives

theorem isCall_respell (c : Condition) : (c.respell spell).isCall = c.isCall := by
  cases c <;> rfl

variable (spell)

mutual

/-- **The text of a condition with other spellings is the text of the condition with them.** -/
theorem chars_respell : ∀ c : Condition, c.Readable →
    Text.Gives (Text.respell spell []) c.chars (c.respell spell).chars
  | .compare left op values, h => by
    obtain ⟨hl, ha, hv⟩ := h
    rw [chars, respell, chars]
    exact compareChars_respell hl ha hv
  | .call f name value, h => by
    obtain ⟨-, hn, hv⟩ := h
    rw [chars, respell, chars]
    exact callChars_respell hn hv
  | .join c first others, h => by
    obtain ⟨hfirst, hothers⟩ := h
    rw [chars, respell, chars]
    exact partsChars_respell c others hothers
      (Text.respell_bracketed (chars_respell first hfirst)).gives
  | .not c, h => by
    have hnot : Text.GivesAnywhere (Text.respell spell []) "NOT ".toList "NOT ".toList :=
      Text.respell_plain rfl
    have hc := chars_respell c h
    rw [chars, respell, chars, isCall_respell]
    -- Whether there are brackets does not depend on the spelling.
    split
    · exact hnot.append_gives hc
    · exact hnot.append_gives (Text.respell_bracketed hc).gives

/-- The parts of a junction, each in brackets, behind a text that has been respelled. -/
theorem partsChars_respell (k : Connective) : ∀ others : List Condition, AllReadable others →
    ∀ {s out : List Char}, Text.Gives (Text.respell spell []) s out →
      Text.Gives (Text.respell spell []) ((spaced k.text).intercalate (s :: partsChars others))
        ((spaced k.text).intercalate (out :: partsChars (respellAll spell others)))
  | [], _, s, out, hs => by
    rw [partsChars, respellAll, partsChars, List.intercalate_singleton, List.intercalate_singleton]
    exact hs
  | d :: rest, h, s, out, hs => by
    obtain ⟨hd, hrest⟩ := h
    have hr := partsChars_respell k rest hrest (Text.respell_bracketed (chars_respell d hd)).gives
    rw [partsChars, respellAll, partsChars, List.intercalate_cons_cons, List.intercalate_cons_cons]
    exact hs.respell_spaced (Text.any_isSigil_connective k) hr

end

end Condition

end Clauses
