import Clauses.Proofs.Completing
import Clauses.Proofs.Rollback

/-!
# How batches end

The calls of a batch can get in each other's way: a call fails while others are waiting, or it
cancels everything, itself included. Where the calls get their turns in order, what the batch ends
with can be told without playing its rounds.

* A call that cancels everything in a round ends the batch with the next one. Up to the end of its
  round other calls may still fail, those behind it with the cancellation in view.
* Of the calls that fail by then the one in the earliest round ends the batch, and of several in
  that round the first one.

* `Batch.FailsFirst` — the failure that ends a batch
* `Batch.runInOrder_ends` — how a batch ends whose calls get their turns in order
* `Draft.completes_iff` — when a clause is completed whose calls run side by side
* `Compiler.async_outcome` — what becomes of a clause whose calls run side by side
-/

namespace Clauses

/-- The call cancels everything in the round. -/
def Task.cancelsIn (task : Task) (round : Nat) : Bool :=
  task.course.cancels && task.course.delay == round

namespace Batch

/-! ## Ends -/

/--
The call at the place is done in the round, and fails. The flag tells whether everything has been
cancelled in front of the round; in the round a call in front of the place may have done so.
-/
def FailsIn (tasks : List Task) (round : Nat) (cancelled : Bool) (place : Nat) (fault : HookFault) :
    Prop :=
  ∃ task, tasks[place]? = some task ∧ task.course = ⟨round, false⟩ ∧
    task.answer (cancelled || (tasks.take place).any (·.cancelsIn round)) = .error fault

/-- The call at the place fails in the round, and no call cancels everything in an earlier one. -/
structure Fails (tasks : List Task) (round place : Nat) (fault : HookFault) : Prop where
  fails : FailsIn tasks round false place fault
  intact : ∀ task ∈ tasks, task.course.cancels = true → round ≤ task.course.delay

/-- No call fails in an earlier round, and none in this round in front of the place. -/
structure FailsFirst (tasks : List Task) (round place : Nat) (fault : HookFault) : Prop
    extends Fails tasks round place fault where
  first : ∀ {round' place' fault'}, Fails tasks round' place' fault' →
    round < round' ∨ round = round' ∧ place ≤ place'

/-- What a batch ends with. -/
inductive Ends (tasks : List Task) : Except Fault (List Bytes) → Prop where
  | failed {round place : Nat} {fault : HookFault} (h : FailsFirst tasks round place fault) :
    Ends tasks (.error (.failed place fault))
  | cancelled {task : Task} (hm : task ∈ tasks) (h : task.course.cancels = true)
    (hnone : ∀ round place fault, ¬Fails tasks round place fault) : Ends tasks (.error .cancelled)
  | delivered {outputs : List Bytes} (h : List.Forall₂ Task.Delivers tasks outputs) :
    Ends tasks (.ok outputs)

section FailsIn

variable {task : Task} {tasks : List Task} {round place : Nat} {c : Bool} {fault : HookFault}

theorem not_failsIn_nil : ¬FailsIn [] round c place fault := by
  rintro ⟨task, h, -⟩
  cases h

theorem failsIn_zero_iff : FailsIn (task :: tasks) round c 0 fault ↔
    task.course = ⟨round, false⟩ ∧ task.answer c = .error fault := by
  simp [FailsIn]

/--
A call behind the first one fails as it does in the rest, where the first one may have cancelled.
-/
theorem failsIn_succ_iff : FailsIn (task :: tasks) round c (place + 1) fault ↔
    FailsIn tasks round (c || task.cancelsIn round) place fault := by
  simp [FailsIn, Bool.or_assoc]

end FailsIn

/-! ## One turn -/

/-- What a round makes of a call; the flag is that in front of its turn. -/
inductive Turned (round : Nat) (c : Bool) (task : Task) : Slot → Prop where
  | waits (h : round < task.course.delay) : Turned round c task (.waiting task)
  | cancels (h : task.course = ⟨round, true⟩) : Turned round c task (.waiting task)
  | answers (h : task.course = ⟨round, false⟩) : Turned round c task (.ofAnswer (task.answer c))
  | done (h : task.course.delay < round) : Turned round c task (.ofAnswer (task.answer false))

section Turn

variable {task : Task} {slot : Slot} {round : Nat} {c : Bool}

theorem Progress.turned (h : Progress round task slot) (c : Bool) :
    ∃ slot', slot.turn round c = (c || task.cancelsIn round, slot') ∧
    Turned round c task slot' := by
  obtain ⟨⟨delay, cancels⟩, answer⟩ := task
  cases h with
  | waiting h =>
    rcases Nat.lt_or_eq_of_le h with hlt | rfl
    · refine ⟨_, ?_, .waits hlt⟩
      simp [Slot.turn, Task.cancelsIn, hlt, Nat.ne_of_gt hlt]
    · cases cancels with
      | true => exact ⟨_, by simp [Slot.turn, Task.cancelsIn], .cancels rfl⟩
      | false => exact ⟨_, by simp [Slot.turn, Task.cancelsIn], .answers rfl⟩
  | done h quiet =>
    refine ⟨_, ?_, .done h⟩
    simp [turn_ofAnswer, Task.cancelsIn, Nat.ne_of_lt h]

/-- The call has failed in its turn, or its slot does not end the batch. -/
theorem Turned.failed_or (h : Turned round c task slot)
    (hanswered : task.course.delay < round → ∃ bytes, task.answer false = .ok bytes) :
    (∃ fault, slot = .failed fault ∧ task.course = ⟨round, false⟩ ∧ task.answer c = .error fault) ∨
      (∀ fault, ¬(task.course = ⟨round, false⟩ ∧ task.answer c = .error fault)) ∧
        ∀ place slots, failure? false place (slot :: slots) = failure? false (place + 1) slots := by
  cases h with
  | waits h =>
    refine .inr ⟨fun fault hf => ?_, fun _ _ => rfl⟩
    rw [hf.1] at h
    exact Nat.lt_irrefl _ h
  | cancels h => exact .inr ⟨fun fault hf => (nomatch h.symm.trans hf.1), fun _ _ => rfl⟩
  | answers h =>
    cases ha : task.answer c with
    | ok bytes => exact .inr ⟨fun fault hf => (nomatch hf.2), fun _ _ => rfl⟩
    | error fault => exact .inl ⟨fault, rfl, h, rfl⟩
  | done h =>
    obtain ⟨bytes, ha⟩ := hanswered h
    rw [ha]
    refine .inr ⟨fun fault hf => ?_, fun _ _ => rfl⟩
    rw [hf.1] at h
    exact Nat.lt_irrefl _ h

end Turn

/-! ## One round -/

/-- What a round makes of all calls; the flag is that in front of the first turn. -/
inductive Played (round : Nat) : Bool → List Task → List Slot → Prop where
  | nil (c : Bool) : Played round c [] []
  | cons {c : Bool} {task : Task} {slot : Slot} {tasks : List Task} {slots : List Slot}
    (ht : Turned round c task slot) (h : Played round (c || task.cancelsIn round) tasks slots) :
    Played round c (task :: tasks) (slot :: slots)

/-- The calls that are done in front of the round have answered with bytes. -/
def Answered (round : Nat) (tasks : List Task) : Prop :=
  ∀ task ∈ tasks, task.course.delay < round → ∃ bytes, task.answer false = .ok bytes

section Round

variable {tasks : List Task} {slots : List Slot} {round : Nat}

theorem Progress.played (h : List.Forall₂ (Progress round) tasks slots) (c : Bool) :
    ∃ slots', Batch.playForwards round c slots = (c || tasks.any (·.cancelsIn round), slots') ∧
      Played round c tasks slots' := by
  induction h generalizing c with
  | nil => exact ⟨[], by simp [Batch.playForwards], .nil c⟩
  | @cons task slot tasks slots hs _ ih =>
    obtain ⟨slot', ht, hturned⟩ := hs.turned c
    obtain ⟨slots', hr, hplayed⟩ := ih (c || task.cancelsIn round)
    refine ⟨slot' :: slots', ?_, .cons hturned hplayed⟩
    simp only [Batch.playForwards, ht, hr, List.any_cons, Bool.or_assoc]

/-- The round ends the batch with the first call that fails in it, if there is one. -/
theorem Played.failure? {c : Bool} (h : Played round c tasks slots) (ha : Answered round tasks)
    (place : Nat) :
    (∃ i fault, Batch.failure? false place slots = some (.failed (place + i) fault) ∧
        FailsIn tasks round c i fault ∧ ∀ j fault', FailsIn tasks round c j fault' → i ≤ j) ∨
      Batch.failure? false place slots = none ∧ ∀ j fault, ¬FailsIn tasks round c j fault := by
  induction h generalizing place with
  | nil => exact .inr ⟨rfl, fun _ _ => not_failsIn_nil⟩
  | @cons c task slot tasks slots ht _ ih =>
    obtain ⟨hanswered, ha⟩ := List.forall_mem_cons.mp ha
    rcases ht.failed_or hanswered with ⟨fault, rfl, hf⟩ | ⟨hnone, hskip⟩
    · exact .inl ⟨0, fault, rfl, failsIn_zero_iff.mpr hf, fun _ _ _ => Nat.zero_le _⟩
    -- The first call does not fail, so a call that does is one of the rest.
    rw [hskip place slots]
    rcases ih ha (place + 1) with ⟨i, fault, hi, hf, hfirst⟩ | ⟨hi, hall⟩
    · refine .inl ⟨i + 1, fault, ?_, failsIn_succ_iff.mpr hf, fun j fault' hj => ?_⟩
      · rw [hi, Nat.add_right_comm, Nat.add_assoc]
      · cases j with
        | zero => exact absurd (failsIn_zero_iff.mp hj) (hnone fault')
        | succ j => exact Nat.succ_le_succ (hfirst j fault' (failsIn_succ_iff.mp hj))
    · refine .inr ⟨hi, fun j fault hj => ?_⟩
      cases j with
      | zero => exact hnone fault (failsIn_zero_iff.mp hj)
      | succ j => exact hall j fault (failsIn_succ_iff.mp hj)

/--
Behind a round in which nobody cancels and nobody fails, all calls of the round have answered.
-/
theorem Answered.succ (h : Answered round tasks) (hquiet : tasks.any (·.cancelsIn round) = false)
    (hnone : ∀ place fault, ¬FailsIn tasks round false place fault) :
    Answered (round + 1) tasks := by
  intro task hm hlt
  rcases Nat.lt_or_eq_of_le (Nat.le_of_lt_succ hlt) with hlt | hround
  · exact h task hm hlt
  rw [List.any_eq_false] at hquiet
  have hcancels : task.course.cancels = false := by
    simpa [Task.cancelsIn, hround] using hquiet task hm
  cases ha : task.answer false with
  | ok bytes => exact ⟨bytes, rfl⟩
  | error fault =>
    obtain ⟨place, hplace⟩ := List.getElem?_of_mem hm
    have hflag : (tasks.take place).any (·.cancelsIn round) = false :=
      List.any_eq_false.mpr fun t ht => hquiet t (List.mem_of_mem_take ht)
    refine absurd ⟨task, hplace, ?_, ?_⟩ (hnone place fault)
    · rw [← hround, ← hcancels]
    · rw [hflag]
      exact ha

/-- The bytes of all calls are there, unless one of them has not had its round. -/
theorem Progress.exists_late (h : List.Forall₂ (Progress round) tasks slots)
    (ha : Answered round tasks)
    (hc : Batch.collect? slots = none) : ∃ task ∈ tasks, round ≤ task.course.delay := by
  induction h with
  | nil => cases hc
  | @cons task slot tasks slots hp _ ih =>
    obtain ⟨hanswered, ha⟩ := List.forall_mem_cons.mp ha
    cases hp with
    | waiting h => exact ⟨task, List.mem_cons_self, h⟩
    | done h quiet =>
      obtain ⟨bytes, hbytes⟩ := hanswered h
      rw [hbytes, Slot.ofAnswer, Batch.collect?, Option.map_eq_none_iff] at hc
      obtain ⟨task', hm, hlate⟩ := ih ha hc
      exact ⟨task', List.mem_cons_of_mem _ hm, hlate⟩

/-- No call has cancelled everything. -/
theorem Progress.intact (h : List.Forall₂ (Progress round) tasks slots) :
    ∀ task ∈ tasks, task.course.cancels = true → round ≤ task.course.delay := by
  induction h with
  | nil => exact fun _ hm => absurd hm List.not_mem_nil
  | cons hp _ ih =>
    refine List.forall_mem_cons.mpr ⟨fun hcancels => ?_, ih⟩
    cases hp with
    | waiting h => exact h
    | done h quiet => exact absurd (quiet.symm.trans hcancels) Bool.false_ne_true

end Round

/-! ## Whole batches -/

/-- The rounds from one on end the batch as they should, by induction on those that are left. -/
theorem playFrom_ends {tasks : List Task} (left : Nat) : ∀ {round : Nat} {slots : List Slot},
    List.Forall₂ (Progress round) tasks slots → Answered round tasks →
    (∀ r place fault, Fails tasks r place fault → round ≤ r) →
    (∀ task ∈ tasks, task.course.delay < round + left) → 0 < left →
    Ends tasks (playFrom false round false slots left) := by
  induction left with
  | zero => exact fun _ _ _ _ h => absurd h (Nat.lt_irrefl 0)
  | succ left ih =>
    intro round slots hp ha hlater hleft _
    obtain ⟨slots', hplay, hplayed⟩ := Progress.played hp false
    have hround : playRound false round slots = (tasks.any (·.cancelsIn round), slots') := hplay
    rw [playFrom, if_neg Bool.false_ne_true, hround]
    dsimp only
    rcases hplayed.failure? ha 0 with ⟨place, fault, hf, hfails, hfirst⟩ | ⟨hf, hnone⟩
    · rw [hf, Nat.zero_add]
      refine .failed ⟨⟨hfails, Progress.intact hp⟩, fun h => ?_⟩
      rcases Nat.lt_or_eq_of_le (hlater _ _ _ h) with hlt | rfl
      · exact .inl hlt
      · exact .inr ⟨rfl, hfirst _ _ h.fails⟩
    rw [hf]
    cases hc : tasks.any (·.cancelsIn round) with
    | true =>
      -- In the round of a cancellation somebody is still waiting, and the next round is not played.
      obtain ⟨task, hm, hcancels⟩ := List.any_eq_true.mp hc
      obtain ⟨hcancels, hround⟩ : task.course.cancels = true ∧ task.course.delay = round := by
        simpa [Task.cancelsIn] using hcancels
      have hend : playFrom false (round + 1) true slots' left = .error .cancelled := by
        cases left <;> rfl
      rw [hc] at hplay
      obtain ⟨waiting, hw⟩ := playForwards_cancels hplay
      rw [collect?_eq_none hw]
      dsimp only
      rw [hend]
      refine .cancelled hm hcancels fun r place fault h => hnone place fault ?_
      have hr : r = round :=
        Nat.le_antisymm (hround ▸ h.intact task hm hcancels) (hlater _ _ _ h)
      exact hr ▸ h.fails
    | false =>
      rw [hc] at hplay
      have hp' := (Progress.playForwards hp hplay).2
      have ha' := ha.succ hc hnone
      cases hcollect : collect? slots' with
      | some outputs => exact .delivered (Progress.collect? hp' hcollect)
      | none =>
        obtain ⟨task, hm, hlate⟩ := Progress.exists_late hp' ha' hcollect
        have hend := hleft task hm
        refine ih hp' ha' (fun r place fault h => ?_) (fun task hm => ?_) (by omega)
        · have hr : r ≠ round := by
            rintro rfl
            exact hnone place fault h.fails
          exact Nat.lt_of_le_of_ne (hlater _ _ _ h) hr.symm
        · have := hleft task hm
          omega

/--
Runs calls side by side that get their turns in order in every round, and of which the first one
that fails ends the batch: as those of a small batch do, but however many they are.
-/
def runInOrder (tasks : List Task) : Except Fault (List Bytes) :=
  playFrom false 0 false (tasks.map .waiting) (longestDelay tasks + 1)

/-- **How a batch ends whose calls get their turns in order.** -/
theorem runInOrder_ends (tasks : List Task) : Ends tasks (runInOrder tasks) := by
  refine playFrom_ends _ (progress_start tasks) (fun _ _ h => absurd h (Nat.not_lt_zero _))
    (fun _ _ _ _ => Nat.zero_le _) (fun task hm => ?_) (Nat.succ_pos _)
  rw [Nat.zero_add]
  exact Nat.lt_succ_of_le (le_longestDelay hm)

/-- The batch is run as if its calls got their turns in order. -/
def PolledInOrder (tasks : List Task) : Prop := run false tasks = runInOrder tasks

theorem polledInOrder_of_small {tasks : List Task} (h : tasks.length ≤ maxSmall) :
    PolledInOrder tasks := by
  rw [PolledInOrder, run, decide_eq_false (Nat.not_lt.mpr h), runInOrder]

/-! ### Batches that deliver -/

/-- Each call has bytes of its own to answer with. -/
theorem exists_delivered_iff {tasks : List Task} :
    (∃ outputs, List.Forall₂ Task.Delivers tasks outputs) ↔
      ∀ task ∈ tasks, ∃ bytes, task.Delivers bytes := by
  induction tasks with
  | nil => exact ⟨fun _ _ hm => absurd hm List.not_mem_nil, fun _ => ⟨[], .nil⟩⟩
  | cons task tasks ih =>
    rw [List.forall_mem_cons, ← ih]
    constructor
    · rintro ⟨_, _ | ⟨h, hrest⟩⟩
      exact ⟨⟨_, h⟩, _, hrest⟩
    · rintro ⟨⟨bytes, h⟩, outputs, hrest⟩
      exact ⟨bytes :: outputs, .cons h hrest⟩

/-- Where no call cancels, a call that answers with bytes does so in its turn. -/
theorem not_fails_of_delivers {tasks : List Task} (h : ∀ task ∈ tasks, ∃ bytes, task.Delivers bytes)
    {round place : Nat} {fault : HookFault} : ¬Fails tasks round place fault := by
  rintro ⟨⟨task, hplace, -, hfault⟩, -⟩
  have hquiet : (tasks.take place).any (·.cancelsIn round) = false := by
    refine List.any_eq_false.mpr fun task hm => ?_
    obtain ⟨bytes, hc, -⟩ := h task (List.mem_of_mem_take hm)
    simp [Task.cancelsIn, hc]
  obtain ⟨bytes, -, ha⟩ := h task (List.mem_of_getElem? hplace)
  rw [hquiet, Bool.or_false, ha] at hfault
  cases hfault

namespace Ends

variable {tasks : List Task} {ending : Except Fault (List Bytes)}

/-- If some call fails in time, the batch ends with the first of them. -/
theorem failed_of_fails (h : Ends tasks ending) {round place : Nat} {fault : HookFault}
    (hf : Fails tasks round place fault) : ∃ round place fault, FailsFirst tasks round place fault ∧
      ending = .error (.failed place fault) := by
  cases h with
  | failed h => exact ⟨_, _, _, h, rfl⟩
  | cancelled hm hcancels hnone => exact absurd hf (hnone _ _ _)
  | delivered h => exact absurd hf (not_fails_of_delivers (exists_delivered_iff.mp ⟨_, h⟩))

/-- If none does, but some call cancels, the batch is cancelled. -/
theorem cancelled_of_cancels (h : Ends tasks ending) {task : Task} (hm : task ∈ tasks)
    (hcancels : task.course.cancels = true)
    (hnone : ∀ round place fault, ¬Fails tasks round place fault) :
    ending = .error .cancelled := by
  cases h with
  | failed h => exact absurd h.toFails (hnone _ _ _)
  | cancelled => rfl
  | delivered h =>
    obtain ⟨bytes, hquiet, -⟩ := exists_delivered_iff.mp ⟨_, h⟩ task hm
    exact absurd (hquiet.symm.trans hcancels) Bool.false_ne_true

end Ends

end Batch

/-! ## Clauses -/

namespace Draft

/-- The calls that a clause waits for. -/
def tasks (d : Draft) : List Task := (deferred d.bindings).map Deferred.task

variable {make : Drafting (List Char)} {s : Scope} {expression : List Char} {d : Draft}

/-- A clause whose calls run side by side ends as their batch does. -/
theorem complete_async (h : make (.on s) = .ok (expression, d)) :
    complete (.async false) make s = match Batch.run false d.tasks with
      | .ok outputs => .ok ⟨String.ofList expression, d.names, fill d.bindings outputs⟩
          (s.enter d.names (fill d.bindings outputs))
      | .error fault => .error (batchError (deferred d.bindings) fault) s := by
  rw [complete_made h, resolve_async, tasks]
  cases Batch.run false ((deferred d.bindings).map Deferred.task) <;> rfl

theorem completes_iff (h : make (.on s) = .ok (expression, d)) :
    (∃ clause s', complete (.async false) make s = .ok clause s') ↔
      ∀ task ∈ d.tasks, ∃ bytes, task.Delivers bytes := by
  rw [complete_async h, ← Batch.exists_delivered_iff]
  constructor
  · rintro ⟨clause, s', hc⟩
    cases hrun : Batch.run false d.tasks with
    | ok outputs => exact ⟨outputs, Batch.run_ok hrun⟩
    | error fault =>
      rw [hrun] at hc
      cases hc
  · rintro ⟨outputs, hd⟩
    rw [Batch.run_ok_iff.mpr hd]
    exact ⟨_, _, rfl⟩

/-- The failure that ends the batch is reported for the field of its call. -/
theorem complete_failed (h : make (.on s) = .ok (expression, d)) {place : Nat} {fault : HookFault}
    {task : Task} (hplace : d.tasks[place]? = some task)
    (hrun : Batch.run false d.tasks = .error (.failed place fault)) :
    ∃ call, (deferred d.bindings)[place]? = some call ∧
      complete (.async false) make s = .error (.hookFailed call.field fault) s := by
  obtain ⟨call, hcall, -⟩ : ∃ call, (deferred d.bindings)[place]? = some call ∧
      call.task = task := by
    simpa [tasks] using hplace
  refine ⟨call, hcall, ?_⟩
  simp only [complete_async h, hrun, batchError, hcall]

end Draft

namespace Compiler

/--
**What becomes of a clause whose calls run side by side.** The clause has been made,
and waits for its calls.

* If the caller has given up before, nothing else happens.
* Otherwise the clause is completed exactly when no call fails and none cancels.
* Let the calls get their turns in order. If a call fails and no call cancels in an
  earlier round, the clause fails with the first of these failures, in the order of the
  rounds and then of the places.
* If there is no such failure, but a call that cancels, the clause is cancelled.

If the clause is not completed, the scope is as before.
-/
theorem async_outcome (c : Compiler) {source : Source} {cancelled : Bool} {s : Scope}
    {expression : List Char} {d : Draft}
    (hasync : source.modeOf (.async cancelled) = .async cancelled)
    (hmade : c.draft (c.binder (.async cancelled) source) source (.on s) = .ok (expression, d)) :
    let result := c.translate (.async cancelled) source s
    (cancelled = true → result = .error .cancelled s) ∧
      (cancelled = false →
        ((∃ clause s', result = .ok clause s') ↔
          ∀ task ∈ d.tasks, ∃ bytes, task.Delivers bytes) ∧
        (Batch.PolledInOrder d.tasks →
          ((∃ round place fault, Batch.Fails d.tasks round place fault) →
            ∃ round place fault call, Batch.FailsFirst d.tasks round place fault ∧
              (Draft.deferred d.bindings)[place]? = some call ∧
              result = .error (.hookFailed call.field fault) s) ∧
          ((∀ round place fault, ¬Batch.Fails d.tasks round place fault) →
            (∃ task ∈ d.tasks, task.course.cancels = true) → result = .error .cancelled s))) ∧
      ∀ e s', result = .error e s' → s' = s := by
  intro result
  have hcomplete : result = Draft.complete (.async cancelled)
      (c.draft (c.binder (.async cancelled) source) source) s := by
    change Draft.complete (source.modeOf (.async cancelled))
      (c.draft (c.binder (source.modeOf (.async cancelled)) source) source) s = _
    rw [hasync]
  refine ⟨?_, ?_, fun e s' h => c.translate_restores _ _ h⟩
  · rintro rfl
    exact hcomplete.trans (Draft.complete_made hmade)
  rintro rfl
  rw [hcomplete]
  refine ⟨Draft.completes_iff hmade, fun hordered => ?_⟩
  have hends : Batch.Ends d.tasks (Batch.run false d.tasks) :=
    hordered ▸ Batch.runInOrder_ends d.tasks
  constructor
  · rintro ⟨_, _, _, hfails⟩
    obtain ⟨round, place, fault, hfirst, hrun⟩ := hends.failed_of_fails hfails
    obtain ⟨task, hplace, -⟩ := hfirst.fails
    obtain ⟨call, hcall, hresult⟩ := Draft.complete_failed hmade hplace hrun
    exact ⟨round, place, fault, call, hfirst, hcall, hresult⟩
  · rintro hnone ⟨task, hm, hcancels⟩
    rw [Draft.complete_async hmade, hends.cancelled_of_cancels hm hcancels hnone]
    rfl

/-! ### A failure in the round of a cancellation -/

/-- A hook that writes bytes backwards, but fails where everything is cancelled. -/
def wary : Hook :=
  ⟨fun context bytes => if context.cancelled then .error .cancelled else .ok bytes.reverse,
    fun _ bytes => .ok bytes.reverse⟩

/--
The more bytes there are, the longer a call takes; an exclamation mark among them cancels
everything.
-/
def waryCourse (_ : HookContext) (bytes : Bytes) : Course := ⟨bytes.length, bytes.contains 33⟩

/-- Visitors, whose rooms are written backwards. -/
def visitorSchema : Schema := ⟨"Visitor", [("Room", ⟨"Room", "room", none, some "wary"⟩)]⟩

/-- Visitors in one of four rooms, the second of which has a name that cancels everything. -/
def inSomeRoom : Source :=
  .predicate .filter visitorSchema (.compare (.property "Room") .among
    [.value (.text "A"), .value (.text "B!"), .value (.text "CC"), .value (.text "DDD")])

/-- The call for the name of a room. -/
def roomCall (name : String) : Deferred :=
  ⟨"wary", "room", .start wary.transform waryCourse ⟨"room", some "Visitor", false⟩
    (WireValue.text name).toJson.bytes⟩

theorem roomCall_fault {name : String} {cancelled : Bool} {fault : HookFault}
    (h : (roomCall name).task.answer cancelled = .error fault) : fault = .cancelled := by
  cases cancelled <;> cases h
  rfl

/--
The third call is done in the round in which the second one cancels everything, and behind it.
-/
theorem wary_call_fails :
    let c : Compiler := ⟨.standard, { hooks := [("wary", .async wary waryCourse)] }⟩
    c.translate (.async false) inSomeRoom c.scope
      = .error (.hookFailed "room" .cancelled) c.scope := by
  intro c
  let s := c.scope
  let d : Draft := ⟨s, [(s.nameToken 0, "room")], [(s.valueToken 0, .deferred (roomCall "A")),
    (s.valueToken 1, .deferred (roomCall "B!")), (s.valueToken 2, .deferred (roomCall "CC")),
    (s.valueToken 3, .deferred (roomCall "DDD"))]⟩
  obtain ⟨expression, hmade⟩ : ∃ expression,
      c.draft (c.binder (.async false) inSomeRoom) inSomeRoom (.on s) = .ok (expression, d) :=
    ⟨_, rfl⟩
  obtain ⟨-, h, -⟩ := c.async_outcome (show inSomeRoom.modeOf (.async false) = _ from rfl) hmade
  obtain ⟨h, -⟩ := (h rfl).2 (Batch.polledInOrder_of_small (by decide))
  have hfails : Batch.Fails d.tasks 10 2 .cancelled :=
    ⟨⟨(roomCall "CC").task, rfl, by decide +kernel, by decide +kernel⟩, by
      simp only [d, Draft.tasks, Draft.deferred]
      decide +kernel⟩
  obtain ⟨round, place, fault, call, hfirst, hcall, hresult⟩ := h ⟨10, 2, .cancelled, hfails⟩
  -- Whichever call it is, it is one for the name of a room.
  have hrooms : ∀ call ∈ Draft.deferred d.bindings, ∃ name, call = roomCall name := by
    simp [d, Draft.deferred]
  obtain ⟨name, rfl⟩ := hrooms call (List.mem_of_getElem? hcall)
  obtain ⟨task, hplace, -, hfault⟩ := hfirst.fails
  rw [Draft.tasks, List.getElem?_map, hcall, Option.map_some, Option.some_inj] at hplace
  rw [← hplace] at hfault
  rw [roomCall_fault hfault] at hresult
  exact hresult

end Compiler

end Clauses
