import Clauses.Expression.Condition
import Mathlib.Data.List.Forall2

/-!
# Texts in front of other texts

What a text is turned into from left to right is put together from what its parts are turned into,
provided that no word goes on from one part into the next.

* `Text.Gives` — what a text gives, in front of everything that ends its last word
* `Text.GivesAnywhere` — what a text gives, in front of everything
-/

namespace Clauses.Text

/-! ## Ends of words -/

/-- A word in front of this text does not go on in it. -/
def Boundary (s : List Char) : Prop := ∀ c, s.head? = some c → isWordChar c = false

theorem Boundary.nil : Boundary [] := by
  intro c h
  cases h

theorem Boundary.cons {c : Char} (h : isWordChar c = false) (s : List Char) :
    Boundary (c :: s) := by
  intro c' h'
  cases h'
  exact h

/-! ## Parts of texts -/

variable {β : Type} {F : List Char → List β} {s s' : List Char} {out out' : List β}

/-- The text gives this in front of everything that ends its last word. -/
def Gives (F : List Char → List β) (s : List Char) (out : List β) : Prop :=
  ∀ rest, Boundary rest → F (s ++ rest) = out ++ F rest

/-- The text gives this in front of everything. -/
def GivesAnywhere (F : List Char → List β) (s : List Char) (out : List β) : Prop :=
  ∀ rest, F (s ++ rest) = out ++ F rest

theorem GivesAnywhere.gives (h : GivesAnywhere F s out) : Gives F s out := fun rest _ => h rest

theorem GivesAnywhere.append (h : GivesAnywhere F s out) (h' : GivesAnywhere F s' out') :
    GivesAnywhere F (s ++ s') (out ++ out') := by
  intro rest
  rw [List.append_assoc, h, h', List.append_assoc]

theorem GivesAnywhere.append_gives (h : GivesAnywhere F s out) (h' : Gives F s' out') :
    Gives F (s ++ s') (out ++ out') := by
  intro rest hr
  rw [List.append_assoc, h, h' rest hr, List.append_assoc]

/-- What ends a word may follow it. -/
theorem Gives.append {c : Char} (h : Gives F s out) (h' : GivesAnywhere F (c :: s') out')
    (hc : isWordChar c = false) : GivesAnywhere F (s ++ c :: s') (out ++ out') := by
  intro rest
  have hrest := h' rest
  rw [List.cons_append] at hrest
  rw [List.append_assoc, List.cons_append, h _ (Boundary.cons hc _), hrest, List.append_assoc]

/-- A word with a space on both sides keeps two texts apart. -/
theorem Gives.append_spaced {word : String} {mid : List β} (h : Gives F s out)
    (hw : GivesAnywhere F (spaced word) mid) (h' : Gives F s' out') :
    Gives F (s ++ spaced word ++ s') (out ++ mid ++ out') := by
  have hs : GivesAnywhere F (s ++ spaced word) (out ++ mid) := h.append hw (by decide)
  exact hs.append_gives h'

/-- A text in brackets is closed. -/
theorem Gives.bracketed {before after : List β} (hopen : GivesAnywhere F ['('] before)
    (h : Gives F s out) (hclose : GivesAnywhere F [')'] after) :
    GivesAnywhere F (bracketed s) (before ++ (out ++ after)) :=
  hopen.append (h.append hclose (by decide))

/-- Texts with a comma and a space between them. -/
theorem Gives.commas {mid : List β} (hcomma : GivesAnywhere F comma mid)
    {ss : List (List Char)} {outs : List (List β)} (hs : List.Forall₂ (Gives F) ss outs) :
    ∀ {s out}, Gives F s out →
      Gives F (comma.intercalate (s :: ss)) (out ++ outs.flatMap (mid ++ ·)) := by
  induction hs with
  | nil =>
    intro s out h
    simpa using h
  | @cons s₁ out₁ ss outs h₁ _ ih =>
    intro s out h
    have hs : GivesAnywhere F (s ++ comma) (out ++ mid) := h.append hcomma (by decide)
    have hrest := hs.append_gives (ih h₁)
    rw [List.intercalate_cons_cons, List.flatMap_cons]
    simpa only [List.append_assoc] using hrest

end Clauses.Text
