import ScriptHost.Exchange.Basic

/-! What a whole operation answers: how it ended, and the events on the way. -/

namespace ScriptHost.Live

open Script (State)
open Host (Error Fault)
open Exchange (Channel)

inductive Ending (α : Type) where
  | done (result : α)
  | failed (error : Error)
  | stopped (fault : Fault)
  /-- Calls nested too deep. -/
  | exhausted

namespace Ending

def map {α β : Type} (f : α → β) : Ending α → Ending β
  | .done a => .done (f a)
  | .failed e => .failed e
  | .stopped fault => .stopped fault
  | .exhausted => .exhausted

end Ending

/-- The oldest event comes first. -/
structure Report (α : Type) where
  ending : Ending α
  events : List Event := []

namespace Report

def map {α β : Type} (f : α → β) (r : Report α) : Report β := ⟨r.ending.map f, r.events⟩

/-- Puts events in front that came before. -/
def after {α : Type} (earlier : List Event) (r : Report α) : Report α := ⟨r.ending, earlier ++ r.events⟩

def before {α : Type} (r : Report α) (later : List Event) : Report α := ⟨r.ending, r.events ++ later⟩

end Report

/-- Runs an exchange on an empty stack. The events go into the report and leave the state. -/
def perform {α : Type} (c : Channel) (m : Exchange α) (s : State) : Report α × State :=
  match m c ⟨[], { s with log := [] }⟩ with
  | .done a f => (⟨.done a, f.state.log.reverse⟩, { f.state with log := [] })
  | .failed e f => (⟨.failed e, f.state.log.reverse⟩, { f.state with log := [] })
  | .stopped fault s => (⟨.stopped fault, s.log.reverse⟩, { s with log := [] })
  | .exhausted => (⟨.exhausted, []⟩, s)

end ScriptHost.Live
