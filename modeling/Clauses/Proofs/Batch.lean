import Clauses.Hook.Batch
import Mathlib.Data.List.Forall2

/-!
# Batches that succeed

A batch that delivers its bytes was never cancelled. A call that cancels waits for one more round,
so in that round not all calls are finished, and the next round is not played. So none of the calls
cancels, and each of the bytes is what a call answers when nobody has cancelled.

Where no call cancels, every call is done in its round, with the answer that it gives when nobody
has cancelled. If all of them answer with bytes, the batch delivers these, however long the calls
take: the round behind the longest delay is the last one, and by then no call is waiting.

* `Task.Delivers` — a call does its part
* `Batch.run_ok` — what a batch has delivered
* `Batch.run_ok_iff` — when a batch delivers, be it small or large
* `Batch.run_large_failed` — which failure ends a large batch
-/

namespace Clauses

/-- The call does not cancel, and answers with these bytes. -/
def Task.Delivers (task : Task) (bytes : Bytes) : Prop :=
  task.course.cancels = false ∧ task.answer false = .ok bytes

end Clauses

namespace Clauses.Batch

/-- What has become of a task in front of a round, as long as nobody has cancelled. -/
inductive Progress (round : Nat) (task : Task) : Slot → Prop where
  | waiting (h : round ≤ task.course.delay) : Progress round task (.waiting task)
  | done (h : task.course.delay < round) (quiet : task.course.cancels = false) :
    Progress round task (.ofAnswer (task.answer false))

/-! ## One turn -/

theorem turn_ofAnswer (round : Nat) (c : Bool) (answer : Except HookFault Bytes) :
    (Slot.ofAnswer answer).turn round c = (c, .ofAnswer answer) := by
  cases answer <;> rfl

/-- A turn of a call without a cancellation. -/
theorem Progress.turn {task : Task} {slot slot' : Slot} {round : Nat} {c : Bool}
    (hp : Progress round task slot) (h : slot.turn round c = (false, slot')) :
    c = false ∧ Progress (round + 1) task slot' := by
  cases hp with
  | waiting hw =>
    simp only [Slot.turn] at h
    split at h
    · next hlt =>
      cases h
      exact ⟨rfl, .waiting hlt⟩
    · next hge =>
      have hround : round = task.course.delay := Nat.le_antisymm hw (Nat.not_lt.mp hge)
      split at h
      · cases h
      · next hno =>
        cases h
        refine ⟨rfl, .done (Nat.lt_succ_of_le (Nat.le_of_eq hround.symm)) ?_⟩
        simpa [hround] using hno
  | done hd quiet =>
    rw [turn_ofAnswer] at h
    cases h
    exact ⟨rfl, .done (Nat.lt_succ_of_lt hd) quiet⟩

/-- A call that cancels goes on waiting. -/
theorem turn_cancels {slot slot' : Slot} {round : Nat} (h : slot.turn round false = (true, slot')) :
    ∃ task, slot' = .waiting task := by
  cases slot with
  | waiting task =>
    simp only [Slot.turn] at h
    split at h
    · cases h
    · split at h
      · cases h
        exact ⟨task, rfl⟩
      · cases h
  | finished bytes => cases h
  | failed fault => cases h

/-- A call that does not cancel leaves the flag as it is. -/
theorem Progress.turn_quiet {task : Task} {slot : Slot} {round : Nat}
    (hp : Progress round task slot)
    (quiet : task.course.cancels = false) (c : Bool) : (slot.turn round c).1 = c := by
  cases hp with
  | waiting h =>
    simp only [Slot.turn, quiet]
    split <;> rfl
  | done h quiet => rw [turn_ofAnswer]

/-! ## One round -/

theorem Progress.playForwards {tasks : List Task} {slots slots' : List Slot} {round : Nat}
    {c : Bool} (hp : List.Forall₂ (Progress round) tasks slots)
    (h : playForwards round c slots = (false, slots')) :
    c = false ∧ List.Forall₂ (Progress (round + 1)) tasks slots' := by
  induction hp generalizing c slots' with
  | nil =>
    cases h
    exact ⟨rfl, .nil⟩
  | @cons task slot tasks slots hp _ ih =>
    rw [Batch.playForwards] at h
    rcases ht : slot.turn round c with ⟨c₁, slot₁⟩
    rcases hr : Batch.playForwards round c₁ slots with ⟨c₂, slots₂⟩
    simp only [ht, hr] at h
    cases h
    obtain ⟨rfl, hps⟩ := ih hr
    obtain ⟨rfl, hp'⟩ := hp.turn ht
    exact ⟨rfl, .cons hp' hps⟩

theorem playForwards_cancels {slots slots' : List Slot} {round : Nat}
    (h : playForwards round false slots = (true, slots')) :
    ∃ task, .waiting task ∈ slots' := by
  induction slots generalizing slots' with
  | nil => cases h
  | cons slot slots ih =>
    rw [playForwards] at h
    rcases ht : slot.turn round false with ⟨c₁, slot₁⟩
    rcases hr : playForwards round c₁ slots with ⟨c₂, slots₂⟩
    simp only [ht, hr] at h
    cases h
    cases c₁ with
    | true =>
      obtain ⟨task, rfl⟩ := turn_cancels ht
      exact ⟨task, List.mem_cons_self⟩
    | false =>
      obtain ⟨task, hm⟩ := ih hr
      exact ⟨task, List.mem_cons_of_mem _ hm⟩

theorem Progress.playForwards_quiet {tasks : List Task} {slots : List Slot} {round : Nat}
    (hp : List.Forall₂ (Progress round) tasks slots)
    (quiet : ∀ task ∈ tasks, task.course.cancels = false) (c : Bool) :
    (Batch.playForwards round c slots).1 = c := by
  induction hp with
  | nil => rfl
  | cons hp _ ih =>
    rw [List.forall_mem_cons] at quiet
    simp only [Batch.playForwards, hp.turn_quiet quiet.1, ih quiet.2]

theorem Progress.playRound {tasks : List Task} {slots slots' : List Slot} {large : Bool}
    {round : Nat} (hp : List.Forall₂ (Progress round) tasks slots)
    (h : playRound large round slots = (false, slots')) :
    List.Forall₂ (Progress (round + 1)) tasks slots' := by
  unfold Batch.playRound at h
  split at h
  · unfold playBackwards at h
    rcases hr : Batch.playForwards round false slots.reverse with ⟨c₁, slots₁⟩
    simp only [hr] at h
    cases h
    -- The turns are taken from the last call to the first.
    have hp' := (Progress.playForwards (List.rel_reverse hp) hr).2
    rw [← List.reverse_reverse tasks]
    exact List.rel_reverse hp'
  · exact (Progress.playForwards hp h).2

theorem playRound_cancels {slots slots' : List Slot} {large : Bool} {round : Nat}
    (h : playRound large round slots = (true, slots')) : ∃ task, .waiting task ∈ slots' := by
  unfold playRound at h
  split at h
  · unfold playBackwards at h
    rcases hr : playForwards round false slots.reverse with ⟨c₁, slots₁⟩
    simp only [hr] at h
    cases h
    obtain ⟨task, hm⟩ := playForwards_cancels hr
    exact ⟨task, List.mem_reverse.mpr hm⟩
  · exact playForwards_cancels h

/-- A round of calls that do not cancel. -/
theorem Progress.playRound_quiet {tasks : List Task} {slots : List Slot} {round : Nat}
    (hp : List.Forall₂ (Progress round) tasks slots)
    (quiet : ∀ task ∈ tasks, task.course.cancels = false) (large : Bool) :
    ∃ slots', Batch.playRound large round slots = (false, slots') ∧
      List.Forall₂ (Progress (round + 1)) tasks slots' := by
  have hflag : (Batch.playRound large round slots).1 = false := by
    unfold Batch.playRound
    split
    · exact playForwards_quiet (List.rel_reverse hp) (by simpa using quiet) false
    · exact playForwards_quiet hp quiet false
  exact ⟨_, Prod.ext hflag rfl, playRound hp (Prod.ext hflag rfl)⟩

/-! ## Whole batches -/

theorem collect?_eq_none {slots : List Slot} {task : Task} (h : .waiting task ∈ slots) :
    collect? slots = none := by
  induction slots with
  | nil => cases h
  | cons slot slots ih =>
    cases h with
    | head => rfl
    | tail _ hm =>
      cases slot with
      | finished bytes => simp [collect?, ih hm]
      | failed fault => rfl
      | waiting task => rfl

theorem Progress.collect? {tasks : List Task} {slots : List Slot}
    {outputs : List Bytes} {round : Nat}
    (hp : List.Forall₂ (Progress round) tasks slots) (h : collect? slots = some outputs) :
    List.Forall₂ Task.Delivers tasks outputs := by
  induction hp generalizing outputs with
  | nil =>
    cases h
    exact .nil
  | @cons task slot tasks slots hp _ ih =>
    cases hp with
    | waiting => cases h
    | done hd quiet =>
      cases ha : task.answer false with
      | error fault =>
        rw [ha] at h
        cases h
      | ok bytes =>
        rw [ha, Slot.ofAnswer, Batch.collect?, Option.map_eq_some_iff] at h
        obtain ⟨rest, hr, rfl⟩ := h
        exact .cons ⟨quiet, ha⟩ (ih hr)

theorem playFrom_ok {tasks : List Task} {large : Bool} (left : Nat) :
    ∀ {round : Nat} {c : Bool} {slots : List Slot} {outputs : List Bytes},
      List.Forall₂ (Progress round) tasks slots →
      playFrom large round c slots left = .ok outputs →
      List.Forall₂ Task.Delivers tasks outputs := by
  induction left with
  | zero =>
    intro round c slots outputs _ h
    cases h
  | succ left ih =>
    intro round c slots outputs hp h
    rw [playFrom] at h
    split at h
    · cases h
    · rcases hr : playRound large round slots with ⟨c₁, slots₁⟩
      simp only [hr] at h
      cases c₁ with
      | false =>
        have hp' := Progress.playRound hp hr
        split at h
        · cases h
        · next hc =>
          cases h
          exact Progress.collect? hp' hc
        · exact ih hp' h
      | true =>
        -- In the round of a cancellation somebody is still waiting, and the next round is not
        -- played.
        obtain ⟨task, hm⟩ := playRound_cancels hr
        rw [collect?_eq_none hm] at h
        split at h
        · cases h
        · next hc => cases hc
        · cases left <;> cases h

theorem progress_start (tasks : List Task) :
    List.Forall₂ (Progress 0) tasks (tasks.map .waiting) := by
  rw [List.forall₂_map_right_iff]
  exact List.forall₂_same.mpr fun _ _ => .waiting (Nat.zero_le _)

/-- **A batch that succeeds delivers, in order, what its calls answer when nobody cancels.** -/
theorem run_ok {tasks : List Task} {c : Bool} {outputs : List Bytes}
    (h : run c tasks = .ok outputs) : List.Forall₂ Task.Delivers tasks outputs :=
  playFrom_ok _ (progress_start tasks) h

/-! ## Batches in which nobody cancels -/

theorem le_longestDelay {tasks : List Task} {task : Task} (h : task ∈ tasks) :
    task.course.delay ≤ longestDelay tasks := by
  have hm : task.course.delay ∈ tasks.map fun t => t.course.delay := List.mem_map_of_mem h
  rw [longestDelay, List.foldl_max]
  exact Nat.le_trans (List.le_max?_getD_of_mem hm) (Nat.le_max_right _ _)

/-- What the slots behind a round end the batch with, if they do. -/
inductive Decided (large : Bool) (slots : List Slot) : Except Fault (List Bytes) → Prop where
  | failed {fault : Fault} (h : failure? large 0 slots = some fault) :
    Decided large slots (.error fault)
  | delivered {outputs : List Bytes} (h : failure? large 0 slots = none)
    (hc : collect? slots = some outputs) : Decided large slots (.ok outputs)

/-- Some call has not had its round, and the slots do not end the batch. -/
def Undecided (large : Bool) (round : Nat) (tasks : List Task) (slots : List Slot) : Prop :=
  failure? large 0 slots = none ∧ collect? slots = none ∧ ∃ task ∈ tasks, round ≤ task.course.delay

/--
Where nobody cancels, and each round ends the batch in one way or not at all, the batch ends in that
way: by induction on the rounds that are left, which are enough.
-/
theorem playFrom_quiet {tasks : List Task} {large : Bool} {ending : Except Fault (List Bytes)}
    (quiet : ∀ task ∈ tasks, task.course.cancels = false)
    (hround : ∀ {round slots}, List.Forall₂ (Progress round) tasks slots →
      Decided large slots ending ∨ Undecided large round tasks slots) (left : Nat) :
    ∀ {round : Nat} {slots : List Slot}, List.Forall₂ (Progress round) tasks slots → 0 < left →
      (∀ task ∈ tasks, task.course.delay < round + left) →
      playFrom large round false slots left = ending := by
  induction left with
  | zero => exact fun _ h => absurd h (Nat.lt_irrefl 0)
  | succ left ih =>
    intro round slots hp _ hleft
    obtain ⟨slots', hr, hp'⟩ := Progress.playRound_quiet hp quiet large
    rw [playFrom, if_neg Bool.false_ne_true, hr]
    dsimp only
    rcases hround hp' with hd | ⟨hf, hc, task, hm, hlate⟩
    · cases hd with
      | failed h => rw [h]
      | delivered h hc => rw [h, hc]
    · rw [hf, hc]
      have hend := hleft task hm
      refine ih hp' (by omega) fun task hm => ?_
      have := hleft task hm
      omega

theorem run_quiet {tasks : List Task} {ending : Except Fault (List Bytes)}
    (quiet : ∀ task ∈ tasks, task.course.cancels = false)
    (hround : ∀ {round slots}, List.Forall₂ (Progress round) tasks slots →
      Decided (maxSmall < tasks.length) slots ending ∨
        Undecided (maxSmall < tasks.length) round tasks slots) :
    run false tasks = ending := by
  refine playFrom_quiet quiet hround _ (progress_start tasks) (Nat.succ_pos _) fun task hm => ?_
  rw [Nat.zero_add]
  exact Nat.lt_succ_of_le (le_longestDelay hm)

/-- Calls that answer with bytes do not end the batch before all of them are done. -/
theorem Progress.delivered_or {large : Bool} {round : Nat} {tasks : List Task} {slots : List Slot}
    {outputs : List Bytes} (hp : List.Forall₂ (Progress round) tasks slots)
    (hd : List.Forall₂ Task.Delivers tasks outputs) : (∀ place, failure? large place slots = none) ∧
      (Batch.collect? slots = some outputs ∨
        Batch.collect? slots = none ∧ ∃ task ∈ tasks, round ≤ task.course.delay) := by
  induction hp generalizing outputs with
  | nil =>
    cases hd
    exact ⟨fun _ => rfl, .inl rfl⟩
  | @cons task slot tasks slots hp _ ih =>
    cases hd with
    | @cons _ bytes _ outputs hd hrest =>
      obtain ⟨hf, hc⟩ := ih hrest
      cases hp with
      | waiting h =>
        refine ⟨fun place => ?_, .inr ⟨rfl, task, List.mem_cons_self, h⟩⟩
        rw [failure?, hf (place + 1)]
        exact ite_self none
      | done h quiet =>
        rw [hd.2, Slot.ofAnswer]
        refine ⟨fun place => hf (place + 1), ?_⟩
        rcases hc with hc | ⟨hc, task', hm, hlate⟩
        · exact .inl (by rw [Batch.collect?, hc]; rfl)
        · exact .inr ⟨by rw [Batch.collect?, hc]; rfl, task', List.mem_cons_of_mem _ hm, hlate⟩

/--
**A batch delivers exactly when none of its calls cancels and all of them answer with bytes.**
-/
theorem run_ok_iff {tasks : List Task} {outputs : List Bytes} :
    run false tasks = .ok outputs ↔ List.Forall₂ Task.Delivers tasks outputs := by
  refine ⟨run_ok, fun h => run_quiet ?_ fun hp => ?_⟩
  · exact ((List.forall₂_and_left _ _).mp h).1
  · obtain ⟨hf, hc⟩ := Progress.delivered_or hp h
    exact hc.imp (.delivered (hf 0)) fun ⟨hc, hlate⟩ => ⟨hf 0, hc, hlate⟩

/-! ### Failures in large batches -/

/-- A large batch does not look at a call before those in front of it are done. -/
theorem Progress.failed_or {round place : Nat} {front rest : List Task} {task : Task}
    {slots : List Slot} {fault : HookFault}
    (hp : List.Forall₂ (Progress round) (front ++ task :: rest) slots)
    (hfront : ∀ t ∈ front, ∃ bytes, t.Delivers bytes) (hfault : task.answer false = .error fault) :
    failure? true place slots = some (.failed (place + front.length) fault) ∨
      failure? true place slots = none ∧ Batch.collect? slots = none ∧
        ∃ t ∈ front ++ task :: rest, round ≤ t.course.delay := by
  induction front generalizing slots place with
  | nil =>
    cases hp with
    | cons hp _ =>
      cases hp with
      | waiting h => exact .inr ⟨rfl, rfl, task, List.mem_cons_self, h⟩
      | done h quiet =>
        rw [hfault]
        exact .inl rfl
  | cons first front ih =>
    obtain ⟨⟨bytes, -, hbytes⟩, hfront⟩ := List.forall_mem_cons.mp hfront
    cases hp with
    | cons hp hrest =>
      cases hp with
      | waiting h => exact .inr ⟨rfl, rfl, first, List.mem_cons_self, h⟩
      | done h quiet =>
        rw [hbytes, Slot.ofAnswer, List.length_cons, ← Nat.succ_add_eq_add_succ]
        refine (ih hrest hfront).imp id fun ⟨hf, hc, t, hm, hlate⟩ => ⟨hf, ?_, t, ?_, hlate⟩
        · rw [Batch.collect?, hc]
          rfl
        · exact List.mem_cons_of_mem _ hm

/--
**Where nobody cancels, a large batch ends with the failure that is first in order.** In which round
a call fails does not matter: it is not looked at before all calls in front of it have answered.
-/
theorem run_large_failed {front rest : List Task} {task : Task} {fault : HookFault}
    (hlarge : maxSmall < (front ++ task :: rest).length)
    (quiet : ∀ t ∈ front ++ task :: rest, t.course.cancels = false)
    (hfront : ∀ t ∈ front, ∃ bytes, t.answer false = .ok bytes)
    (hfault : task.answer false = .error fault) :
    run false (front ++ task :: rest) = .error (.failed front.length fault) := by
  have hdelivers : ∀ t ∈ front, ∃ bytes, t.Delivers bytes := fun t hm =>
    (hfront t hm).imp fun _ hbytes => ⟨quiet t (List.mem_append_left _ hm), hbytes⟩
  refine run_quiet quiet fun hp => ?_
  rw [decide_eq_true hlarge]
  refine (Progress.failed_or hp hdelivers hfault).imp (fun h => ?_) id
  rw [Nat.zero_add] at h
  exact .failed h

end Clauses.Batch
