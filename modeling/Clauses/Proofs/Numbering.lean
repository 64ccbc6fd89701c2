import Clauses.Proofs.Completing
import Clauses.Proofs.Rollback
import Mathlib.Data.List.Nodup

/-!
# The numbers of placeholders

Placeholders are numbered in two places: a scope numbers those that are minted on their own, and a
draft numbers those of its clause, on from the scope it stands on. Entering a placeholder would
overwrite one of the same name without a word. Three facts keep that from happening.

* Different numbers give different placeholders, whatever the prefix is.
* A draft gives out the numbers that follow those of its scope, in order and without a gap.
* When a clause is completed the scope goes on by as many numbers as its draft has given out.

So in a scope that has been used in any way the placeholders are those with a number below the next
one (`Scope.Numbered`), and each of them is bound to what it was bound to when it was minted
(`Compiler.placeholders_numbered_and_kept`).
-/

namespace Clauses

/-! ## Placeholders -/

namespace Scope

theorem nameToken_eq (s : Scope) (i : Nat) :
    s.nameToken i = "#" ++ s.namePrefix ++ toString i := by
  rw [← String.toList_inj]
  simp [nameToken, Nat.toString_eq_repr, Nat.toList_repr]

theorem valueToken_eq (s : Scope) (i : Nat) :
    s.valueToken i = ":" ++ s.valuePrefix ++ toString i := by
  rw [← String.toList_inj]
  simp [valueToken, Nat.toString_eq_repr, Nat.toList_repr]

/-- Numbers behind the same text are told apart. -/
theorem numbered_injective (start : List Char) :
    Function.Injective fun i => String.ofList (start ++ Nat.toDigits 10 i) := by
  intro i j h
  have hd : Nat.toDigits 10 i = Nat.toDigits 10 j :=
    List.append_cancel_left (String.ofList_injective h)
  rw [← Nat.ofDigitChars_ten_toDigits (n := i), hd, Nat.ofDigitChars_ten_toDigits]

theorem nameToken_injective (s : Scope) : Function.Injective s.nameToken :=
  numbered_injective ('#' :: s.namePrefix.toList)

theorem valueToken_injective (s : Scope) : Function.Injective s.valueToken :=
  numbered_injective (':' :: s.valuePrefix.toList)

end Scope

/-! ## Tables -/

/-- Entries with the next numbers are added to a table; nothing in it is overwritten. -/
theorem Keyed.extend_numbered {α : Type} {token : Nat → String} (ht : Function.Injective token)
    {m : Keyed α} {n : Nat} (hm : m.keys.Perm ((List.range n).map token))
    {entries : List (String × α)}
    (he : entries.map Prod.fst = (List.range' n entries.length).map token) :
    (m.extend entries).Perm (m ++ entries) ∧
      (m.extend entries).keys.Perm ((List.range (n + entries.length)).map token) := by
  -- The old numbers and the new ones together are the numbers below the next one.
  have hall : (m.keys ++ entries.map Prod.fst).Perm
      ((List.range (n + entries.length)).map token) := by
    rw [List.range_eq_range', ← List.range'_append_1, List.map_append, he, Nat.zero_add,
      ← List.range_eq_range']
    exact hm.append_right _
  have hnd : (m.keys ++ entries.map Prod.fst).Nodup :=
    hall.nodup_iff.mpr (List.Nodup.map ht List.nodup_range)
  have hp := Keyed.extend_perm hnd
  refine ⟨hp, (hp.map Prod.fst).trans ?_⟩
  rw [List.map_append]
  exact hall

/-! ## Drafts -/

/-- The placeholders of the draft follow those of its scope, without a gap. -/
structure Draft.Numbered (d : Draft) : Prop where
  names : d.names.map Prod.fst
    = (List.range' d.scope.nameCount d.names.length).map d.scope.nameToken
  bindings : d.bindings.map Prod.fst
    = (List.range' d.scope.valueCount d.bindings.length).map d.scope.valueToken

namespace Draft.Numbered

theorem on (s : Scope) : (Draft.on s).Numbered := ⟨rfl, rfl⟩

theorem grows {d d' : Draft} (h : d.Numbered) (hg : d.Grows d') : d'.Numbered := by
  induction hg with
  | refl => exact h
  | name a _ ih =>
    refine ⟨?_, ih.bindings⟩
    rw [List.map_append, ih.names, List.length_append, List.length_singleton,
      List.range'_1_concat, List.map_append]
    rfl
  | value b _ ih =>
    refine ⟨ih.names, ?_⟩
    rw [List.map_append, ih.bindings, List.length_append, List.length_singleton,
      List.range'_1_concat, List.map_append]
    rfl

theorem nodup_names {d : Draft} (h : d.Numbered) : (d.names.map Prod.fst).Nodup := by
  rw [h.names]
  exact List.Nodup.map d.scope.nameToken_injective List.nodup_range'

theorem nodup_bindings {d : Draft} (h : d.Numbered) : (d.bindings.map Prod.fst).Nodup := by
  rw [h.bindings]
  exact List.Nodup.map d.scope.valueToken_injective List.nodup_range'

end Draft.Numbered

/-! ## Scopes -/

namespace Scope

/-- The placeholders of the scope are those with a number below the next one, each of them once. -/
structure Numbered (s : Scope) : Prop where
  names : s.nameTable.keys.Perm ((List.range s.nameCount).map s.nameToken)
  values : s.valueTable.keys.Perm ((List.range s.valueCount).map s.valueToken)

/-- The entries have the next numbers, in order. -/
structure FollowOn (s : Scope) (names : List (String × String))
    (values : List (String × WireValue)) : Prop where
  names : names.map Prod.fst = (List.range' s.nameCount names.length).map s.nameToken
  values : values.map Prod.fst = (List.range' s.valueCount values.length).map s.valueToken

theorem Numbered.ofConfig (config : Config) : (Scope.ofConfig config).Numbered :=
  ⟨.refl _, .refl _⟩

variable {s : Scope} {names : List (String × String)} {values : List (String × WireValue)}

theorem Numbered.enter (h : s.Numbered) (hf : s.FollowOn names values) :
    (s.enter names values).Numbered :=
  ⟨(Keyed.extend_numbered s.nameToken_injective h.names hf.names).2,
    (Keyed.extend_numbered s.valueToken_injective h.values hf.values).2⟩

theorem FollowOn.nodup_names (h : s.FollowOn names values) : (names.map Prod.fst).Nodup := by
  rw [h.names]
  exact List.Nodup.map s.nameToken_injective List.nodup_range'

theorem FollowOn.nodup_values (h : s.FollowOn names values) : (values.map Prod.fst).Nodup := by
  rw [h.values]
  exact List.Nodup.map s.valueToken_injective List.nodup_range'

theorem Numbered.nodup_names (h : s.Numbered) : s.nameTable.keys.Nodup :=
  h.names.nodup_iff.mpr (List.Nodup.map s.nameToken_injective List.nodup_range)

theorem Numbered.nodup_values (h : s.Numbered) : s.valueTable.keys.Nodup :=
  h.values.nodup_iff.mpr (List.Nodup.map s.valueToken_injective List.nodup_range)

/-- What is bound in the scope is bound to the same in the other one. -/
structure Keeps (s s' : Scope) : Prop where
  names : ∀ token a, s.attribute? token = some a → s'.attribute? token = some a
  values : ∀ token w, s.value? token = some w → s'.value? token = some w

theorem Keeps.refl (s : Scope) : s.Keeps s := ⟨fun _ _ h => h, fun _ _ h => h⟩

theorem Keeps.trans {s s' s'' : Scope} (h : s.Keeps s') (h' : s'.Keeps s'') : s.Keeps s'' :=
  ⟨fun token a ha => h'.names token a (h.names token a ha),
    fun token w hw => h'.values token w (h.values token w hw)⟩

/-- Entries under the next numbers are all found, and so is what has been there before. -/
theorem Numbered.enter_keeps (h : s.Numbered) (hf : s.FollowOn names values) :
    s.Keeps (s.enter names values) ∧
      (∀ e ∈ names, (s.enter names values).attribute? e.1 = some e.2) ∧
      ∀ e ∈ values, (s.enter names values).value? e.1 = some e.2 := by
  have hn := (Keyed.extend_numbered s.nameToken_injective h.names hf.names).1
  have hv := (Keyed.extend_numbered s.valueToken_injective h.values hf.values).1
  have hfindn {token a} (hm : (token, a) ∈ s.nameTable ++ names) :=
    (Keyed.find?_eq_some_iff (h.enter hf).nodup_names).mpr (hn.mem_iff.mpr hm)
  have hfindv {token w} (hm : (token, w) ∈ s.valueTable ++ values) :=
    (Keyed.find?_eq_some_iff (h.enter hf).nodup_values).mpr (hv.mem_iff.mpr hm)
  refine ⟨⟨fun token a ha => ?_, fun token w hw => ?_⟩, fun e he => ?_, fun e he => ?_⟩
  · rw [attribute?, Keyed.find?_eq_some_iff h.nodup_names] at ha
    exact hfindn (List.mem_append_left _ ha)
  · rw [value?, Keyed.find?_eq_some_iff h.nodup_values] at hw
    exact hfindv (List.mem_append_left _ hw)
  · exact hfindn (List.mem_append_right _ he)
  · exact hfindv (List.mem_append_right _ he)

end Scope

/-! ## Steps -/

/-- What a step that has succeeded reports to have minted. -/
inductive Compiler.Reports (c : Compiler) :
    Step → Outcome → List (String × String) → List (String × WireValue) → Prop where
  | clause (mode : Mode) (source : Source) (clause : Clause) :
    Reports c (.clause mode source) (.clause clause) clause.names clause.values
  | bind {v : Value} {p : Property} {w : WireValue} (token : String)
    (h : c.codec.toWire v p = .ok w) :
    Reports c (.bind v p) (.placeholder token) [] [(token, w)]
  | mintName (a token : String) :
    Reports c (.mintName a) (.placeholder token) [(token, a)] []
  | mintValue (w : WireValue) (token : String) :
    Reports c (.mintValue w) (.placeholder token) [] [(token, w)]

theorem Scope.mintValue_ok {w : WireValue} {s s' : Scope} {token : String}
    (h : Scope.mintValue w s = .ok token s') :
    token = s.valueToken s.valueCount ∧ s' = s.enter [] [(token, w)] := by
  rw [Scope.mintValue_eq] at h
  split at h
  · cases h
  · cases h
    exact ⟨rfl, rfl⟩

namespace Compiler

/-- The placeholders of a clause have the next numbers. -/
theorem draft_followOn {c : Compiler} {b : Binder} {source : Source} {s : Scope}
    {expression : List Char} {d : Draft} {values : List (String × WireValue)}
    (hd : c.draft b source (.on s) = .ok (expression, d))
    (hv : List.Forall₂ Draft.Settled d.bindings values) : s.FollowOn d.names values := by
  have hg := c.draft_minting _ _ hd
  have hn := (Draft.Numbered.on s).grows hg
  have hs : d.scope = s := hg.scope_eq
  refine ⟨?_, ?_⟩
  · rw [← hs]
    exact hn.names
  · have hb := hn.bindings
    rw [hs, hv.length_eq] at hb
    rw [← hb]
    exact Draft.settled_keys hv

/-- A step that succeeds enters what it reports, under the next numbers. -/
theorem step_ok {c : Compiler} {step : Step} {s s' : Scope} {outcome : Outcome}
    (h : c.step step s = .ok outcome s') :
    ∃ names values, c.Reports step outcome names values ∧ s.FollowOn names values ∧
      s' = s.enter names values := by
  cases step with
  | clause mode source =>
    obtain ⟨clause, ht, rfl⟩ := Effect.map_ok.mp h
    obtain ⟨expression, d, values, hd, hv, rfl, rfl⟩ := translate_ok ht
    exact ⟨_, _, .clause mode source _, draft_followOn hd hv, rfl⟩
  | bind v p =>
    obtain ⟨token, hb, rfl⟩ := Effect.map_ok.mp h
    obtain ⟨w, _, hx, hm⟩ := Effect.bind_ok.mp hb
    obtain ⟨hw, rfl⟩ := Effect.ofExcept_ok.mp hx
    obtain ⟨rfl, rfl⟩ := Scope.mintValue_ok hm
    exact ⟨_, _, .bind _ hw, ⟨rfl, rfl⟩, rfl⟩
  | mintName a =>
    obtain ⟨token, hm, rfl⟩ := Effect.map_ok.mp h
    cases hm
    exact ⟨_, _, .mintName a _, ⟨rfl, rfl⟩, rfl⟩
  | mintValue w =>
    obtain ⟨token, hm, rfl⟩ := Effect.map_ok.mp h
    obtain ⟨rfl, rfl⟩ := Scope.mintValue_ok hm
    exact ⟨_, _, .mintValue w _, ⟨rfl, rfl⟩, rfl⟩

/-- A step that has failed has left the scope as it was. -/
theorem advance_of_error {c : Compiler} {s s' : Scope} {step : Step} {e : ClauseError}
    (h : c.advance s step = (.error e, s')) : s' = s := by
  unfold advance at h
  split at h
  · cases h
  · next e' s₁ he =>
    cases h
    exact c.step_restores step he

theorem advance_ok {c : Compiler} {s s' : Scope} {step : Step} {outcome : Outcome}
    (h : c.advance s step = (.ok outcome, s')) : c.step step s = .ok outcome s' := by
  unfold advance at h
  split at h
  · next outcome' s₁ ho =>
    cases h
    exact ho
  · cases h

/-- What one step keeps. -/
theorem advance_numbered (c : Compiler) {s : Scope} (hs : s.Numbered) (step : Step) :
    (c.advance s step).2.Numbered ∧ s.Keeps (c.advance s step).2 ∧
      (c.advance s step).2.namePrefix = s.namePrefix ∧
      (c.advance s step).2.valuePrefix = s.valuePrefix := by
  rcases ha : c.advance s step with ⟨answer, s'⟩
  cases answer with
  | error e =>
    rw [advance_of_error ha]
    exact ⟨hs, .refl s, rfl, rfl⟩
  | ok outcome =>
    obtain ⟨names, values, -, hf, rfl⟩ := step_ok (advance_ok ha)
    exact ⟨hs.enter hf, (hs.enter_keeps hf).1, rfl, rfl⟩

/-- What a run keeps, by induction on its steps. -/
theorem run_numbered (config : Config) (occasions : List (Occasion Step)) :
    ∀ {s : Scope}, s.Numbered →
      (run config s occasions).2.Numbered ∧ s.Keeps (run config s occasions).2 ∧
        (run config s occasions).2.namePrefix = s.namePrefix ∧
        (run config s occasions).2.valuePrefix = s.valuePrefix := by
  induction occasions with
  | nil => exact fun hs => ⟨hs, .refl _, rfl, rfl⟩
  | cons o occasions ih =>
    intro s hs
    obtain ⟨h₁, hk₁, hn₁, hv₁⟩ := advance_numbered ⟨config, o.hooks⟩ hs o.step
    -- The other steps run on the scope that this one has left.
    obtain ⟨h₂, hk₂, hn₂, hv₂⟩ := ih h₁
    exact ⟨h₂, hk₁.trans hk₂, hn₂.trans hn₁, hv₂.trans hv₁⟩

/--
**Placeholders are numbered without a gap, and stay bound to what they were minted for.**
This holds after any steps on a new scope, with any prefixes and with any hooks for each
step. A step that succeeds adds what it reports and nothing else, under the next numbers; a
step that fails adds nothing.
-/
theorem placeholders_numbered_and_kept (c : Compiler) (occasions : List (Occasion Step)) :
    let s := (run c.config c.scope occasions).2
    s.nameTable.keys.Perm
        ((List.range s.nameCount).map fun i => "#" ++ c.config.namePrefix ++ toString i) ∧
      s.valueTable.keys.Perm
        ((List.range s.valueCount).map fun i => ":" ++ c.config.valuePrefix ++ toString i) ∧
      (∀ more, s.Keeps (run c.config s more).2) ∧
      ∀ step, match c.advance s step with
        | (.error _, s') => s' = s
        | (.ok outcome, s') => ∃ names values, c.Reports step outcome names values ∧
          s.FollowOn names values ∧
          s'.nameTable.Perm (s.nameTable ++ names) ∧
          s'.valueTable.Perm (s.valueTable ++ values) ∧
          ∀ more, (∀ e ∈ names, (run c.config s' more).2.attribute? e.1 = some e.2) ∧
            ∀ e ∈ values, (run c.config s' more).2.value? e.1 = some e.2 := by
  intro s
  obtain ⟨hs, -, hn, hv⟩ := run_numbered c.config occasions (Scope.Numbered.ofConfig c.config)
  refine ⟨?_, ?_, fun more => (run_numbered c.config more hs).2.1, fun step => ?_⟩
  · rw [← show s.namePrefix = c.config.namePrefix from hn]
    simp only [← Scope.nameToken_eq]
    exact hs.names
  · rw [← show s.valuePrefix = c.config.valuePrefix from hv]
    simp only [← Scope.valueToken_eq]
    exact hs.values
  · rcases ha : c.advance s step with ⟨answer, s'⟩
    cases answer with
    | error e => exact advance_of_error ha
    | ok outcome =>
      obtain ⟨names, values, hr, hf, rfl⟩ := step_ok (advance_ok ha)
      have hpn := (Keyed.extend_numbered s.nameToken_injective hs.names hf.names).1
      have hpv := (Keyed.extend_numbered s.valueToken_injective hs.values hf.values).1
      obtain ⟨-, hbn, hbv⟩ := hs.enter_keeps hf
      refine ⟨names, values, hr, hf, hpn, hpv, fun more => ?_⟩
      have hk := (run_numbered c.config more (hs.enter hf)).2.1
      exact ⟨fun e he => hk.names e.1 e.2 (hbn e he), fun e he => hk.values e.1 e.2 (hbv e he)⟩

end Compiler

end Clauses
