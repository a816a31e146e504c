import Reassembly.Proofs.Ingesting
import Reassembly.Proofs.ScriptGrammar

/-! Carrying out a script in place. Whatever has been done to a receiver in use stays done, also if
the work is given up; since all entries are read before the first step is taken, a script that is
refused leaves it as it was, and any other leaves what its operations one by one lead to. -/
namespace Reassembly

structure Workplace where
  receiver : Receiver
  events : List Event

/-- Work that may be given up. What has been done by then stays done. -/
abbrev Work := ExceptT Fault (StateM Workplace)

namespace Work

variable {α β : Type}

def runIn (work : Work α) (place : Workplace) : Except Fault α × Workplace := work.run.run place

def perform (op : Receiver.Op) : Work (Option Outcome) := do
  let place ← get
  let step := place.receiver.step op
  set (Workplace.mk step.receiver (place.events ++ step.events))
  return step.outcome

@[simp] theorem runIn_pure (a : α) (w : Workplace) : (pure a : Work α).runIn w = (.ok a,w) := rfl

theorem runIn_bind (work : Work α) (next : α → Work β) (w : Workplace) :
    (work >>= next).runIn w = match work.runIn w with
      | (.ok a,w') => (next a).runIn w'
      | (.error fault,w') => (.error fault,w') := by
  simp only [runIn,ExceptT.run_bind,StateT.run_bind]
  rcases work.run.run w with ⟨_ | _,w'⟩ <;> rfl

@[simp] theorem runIn_perform (op : Receiver.Op) (w : Workplace) :
    (perform op).runIn w = (.ok (w.receiver.step op).outcome,
      ⟨(w.receiver.step op).receiver,w.events ++ (w.receiver.step op).events⟩) := rfl

@[simp] theorem runIn_ofExcept (x : Except Fault α) (w : Workplace) :
    (MonadExcept.ofExcept x : Work α).runIn w = (x,w) := by
  cases x <;> rfl

end Work

def ScriptStep.op : ScriptStep → Receiver.Op
  | .segment seq payload => .ingest seq payload
  | .reset seq => .reset seq

namespace Script

open ScriptEntry

def carryOut : List ScriptStep → Work (List Outcome)
  | [] => return []
  | step::rest => do
    let outcome ← Work.perform step.op
    let outcomes ← carryOut rest
    return outcome.toList ++ outcomes

/-- Carries out a script in place. No step is taken before every entry has been read. -/
def applyIn (s : Script) : Work (List Outcome) := do
  let steps ← MonadExcept.ofExcept s.steps
  carryOut steps

variable {s : Script} {r : Receiver} {steps : List ScriptStep} {fault : Fault}

theorem perform_cons (r : Receiver) (step : ScriptStep) (rest : List ScriptStep) :
    perform r (step::rest) =
      ⟨(r.step step.op).outcome.toList ++ (perform (r.step step.op).receiver rest).outcomes,
        (perform (r.step step.op).receiver rest).receiver,
        (r.step step.op).events ++ (perform (r.step step.op).receiver rest).events⟩ := by
  cases step <;> rfl

/-- Performing the steps is the run of their operations, and the outcomes are those of its steps
that have one. -/
theorem perform_eq (r : Receiver) (steps : List ScriptStep) :
    perform r steps =
      ⟨(r.steps (steps.map ScriptStep.op)).filterMap (·.outcome),r.run (steps.map ScriptStep.op),
        r.trace (steps.map ScriptStep.op)⟩ := by
  induction steps generalizing r with
  | nil => rfl
  | cons step rest ih =>
    rw [perform_cons,ih,List.map_cons,Receiver.steps,Receiver.trace_cons,List.filterMap_cons]
    cases (r.step step.op).outcome <;> rfl

theorem carryOut_runIn (steps : List ScriptStep) (w : Workplace) :
    (carryOut steps).runIn w = (.ok (perform w.receiver steps).outcomes,
      ⟨(perform w.receiver steps).receiver,w.events ++ (perform w.receiver steps).events⟩) := by
  induction steps generalizing w with
  | nil => simp [carryOut,perform]
  | cons step rest ih =>
    rw [carryOut,Work.runIn_bind,Work.runIn_perform,perform_cons]
    simp only [Work.runIn_bind,ih,Work.runIn_pure,List.append_assoc]

theorem apply_eq_error_iff : s.apply r = .error fault ↔
    ∃ e index, FirstFailing Valid s.entries index e ∧ e.RefusedFor index fault := by
  have hsteps : s.steps = .error fault ↔
      ∃ e index, FirstFailing Valid s.entries index e ∧ e.RefusedFor index fault := by
    rw [steps,stepsFrom_eq_error_iff]
    simp
  rw [← hsteps,apply]
  cases s.steps <;> simp

theorem apply_fails_iff :
    (∃ fault, s.apply r = .error fault) ↔ ∃ e ∈ s.entries, ¬e.Valid := by
  rw [← exists_firstFailing_iff]
  simp only [apply_eq_error_iff]
  constructor
  · rintro ⟨_,e,index,hfirst,_⟩
    exact ⟨e,index,hfirst⟩
  · rintro ⟨e,index,hfirst⟩
    obtain ⟨fault,hrefused⟩ := (not_valid_iff_refused index).mp hfirst.fails
    exact ⟨fault,e,index,hfirst,hrefused⟩

theorem apply_eq_ok_iff {result : Result} : s.apply r = .ok result ↔
    ∃ steps, List.Forall₂ Asks s.entries steps ∧ result = perform r steps := by
  have hsteps : ∀ steps, s.steps = .ok steps ↔ List.Forall₂ Asks s.entries steps :=
    fun _ => stepsFrom_eq_ok_iff 0
  simp only [← hsteps,apply]
  cases s.steps <;> simp [eq_comm]

/-- In place, a script that is refused does nothing, and any other does what it leads to. -/
theorem applyIn_runIn (s : Script) (w : Workplace) :
    s.applyIn.runIn w = match s.apply w.receiver with
      | .error fault => (.error fault,w)
      | .ok result => (.ok result.outcomes,⟨result.receiver,w.events ++ result.events⟩) := by
  rw [applyIn,Work.runIn_bind,Work.runIn_ofExcept,apply]
  cases s.steps with
  | error fault => rfl
  | ok steps => exact carryOut_runIn steps w

theorem outcome_isSome {e : ScriptEntry} {step : ScriptStep} (h : e.Asks step) :
    (r.step step.op).outcome.isSome = e.reset.isNone := by
  cases h <;> rfl

theorem outcomes_isSome {es : List ScriptEntry} (h : List.Forall₂ Asks es steps) :
    (r.steps (steps.map ScriptStep.op)).map (·.outcome.isSome) = es.map (·.reset.isNone) := by
  induction h generalizing r with
  | nil => rfl
  | cons hasks _ ih => simp [Receiver.steps,outcome_isSome hasks,ih]

/-- A script is carried out as a whole or not at all. It is refused exactly if some entry is not
valid, for what is wrong with the first such entry, and then in place nothing has been done, however
many valid entries come before it. Otherwise there is an outcome for each entry that is no reset,
and the receiver and all that happens in it are those of the operations one by one. -/
theorem apply_all_or_nothing (s : Script) (r : Receiver) :
    ((∃ fault, s.apply r = .error fault) ↔ ∃ e ∈ s.entries, ¬e.Valid) ∧
      (∀ fault, s.apply r = .error fault →
        (∃ e index, FirstFailing Valid s.entries index e ∧ e.RefusedFor index fault ∧
          ∀ n reason, fault = .script n reason → n = index) ∧
        ∀ before, s.applyIn.runIn ⟨r,before⟩ = (.error fault,⟨r,before⟩)) ∧
      ∀ result, s.apply r = .ok result → ∃ steps, List.Forall₂ Asks s.entries steps ∧
        let ops := steps.map ScriptStep.op
        result.outcomes = (r.steps ops).filterMap (·.outcome) ∧
          (r.steps ops).map (·.outcome.isSome) = s.entries.map (·.reset.isNone) ∧
          result.receiver = r.run ops ∧ result.events = r.trace ops ∧
          ∀ before, s.applyIn.runIn ⟨r,before⟩ =
            (.ok result.outcomes,⟨r.run ops,before ++ r.trace ops⟩) := by
  refine ⟨apply_fails_iff,fun fault h => ⟨?_,fun before => ?_⟩,fun result h => ?_⟩
  · obtain ⟨e,index,hfirst,hrefused⟩ := apply_eq_error_iff.mp h
    refine ⟨e,index,hfirst,hrefused,?_⟩
    rintro n reason rfl
    exact hrefused.index_eq
  · rw [applyIn_runIn,h]
  · obtain ⟨steps,hasks,hresult⟩ := apply_eq_ok_iff.mp h
    rw [perform_eq] at hresult
    subst hresult
    exact ⟨steps,hasks,rfl,outcomes_isSome hasks,rfl,rfl,fun before => by rw [applyIn_runIn,h]⟩

/-- A mistake in the last entry is found before the first is carried out. -/
example : (Script.mk 7 [{seq := some 7, text := some "ab"},{reset := some 9},
    {seq := some 9, hex := some " 0g "}]).apply (.start 7 {}) = .error (.hex (.invalid 103 1)) := by
  decide +kernel

end Script
end Reassembly
