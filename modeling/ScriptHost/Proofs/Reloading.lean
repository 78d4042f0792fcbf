import ScriptHost.Live.LoadedScript
import ScriptHost.Proofs.Exchanges

/-! What can happen to a loaded script, and what a reload does: with success it puts the state that the text of
the file makes in the place of the old one, and otherwise it changes nothing. -/

namespace ScriptHost.Live

open Script (State)
open Host (Error Fault Kind Library)
open Exchange

/-! ### Actions -/

/-- What can happen to a loaded script and to the files around it. -/
inductive Action where
  /-- The files change in any way. -/
  | edit (files : Files)
  | getGlobal (name : String) (kind : Kind)
  | setGlobal (name : String) (v : Host.Value)
  | runFunction (name : String) (args : List Host.Value) (kinds : List Kind)
  | registerFunction (space name : String) (f : HostFunction)
  | registerLibraries (ls : List Library)
  /-- Host code works on the state with a context of its own. -/
  | context (m : Exchange Unit)
  | setHotReload (on : Bool)
  | isStale
  | reload
  /-- The files are others by the time of the second read. -/
  | reloadIfChanged (now : Files)

def Action.run (c : Channel) : Action → Files → LoadedScript → Files × LoadedScript
  | .edit files, _, script => (files, script)
  | .getGlobal name kind, files, script => (files, (script.getGlobal c name kind).2)
  | .setGlobal name v, files, script => (files, (script.setGlobal c name v).2)
  | .runFunction name args kinds, files, script => (files, (script.runFunction c name args kinds).2)
  | .registerFunction space name f, files, script => (files, (script.registerFunction c space name f).2)
  | .registerLibraries ls, files, script => (files, (script.registerLibraries c ls).2)
  | .context m, files, script => (files, { script with state := (perform c m script.state).2 })
  | .setHotReload on, files, script => (files, script.setHotReload on)
  | .isStale, files, script => (files, script)
  | .reload, files, script => (files, (script.reload c files).2)
  | .reloadIfChanged now, files, script => (now, (script.reloadIfChanged c files now).2)

/-- One action after another. -/
def Action.runAll (c : Channel) : List Action → Files → LoadedScript → Files × LoadedScript
  | [], files, script => (files, script)
  | a :: as, files, script =>
    let (files, script) := a.run c files script
    runAll c as files script

/-! ### Reloading -/

/-- A text runs to its end in a new state, and changes of the host can be made after it. -/
def Rebuilds (c : Channel) (chunkName text : String) (changes : Changes) : Prop :=
  (perform c (LoadedScript.rebuild chunkName text changes) State.fresh).1.ending = .done ()

/-- The state that the text and the changes make. -/
def rebuilt (c : Channel) (chunkName text : String) (changes : Changes) : State :=
  (perform c (LoadedScript.rebuild chunkName text changes) State.fresh).2

section Reloading

variable (c : Channel) (files : Files) (script : LoadedScript)

/-- A reload succeeds with a state built from the text of the file, or it changes nothing. -/
theorem reload_cases :
    ((script.reload c files).1.ending ≠ .done () ∧ (script.reload c files).2 = script) ∨
      ∃ source events s, files.readText script.path = .ok source ∧
        perform c (LoadedScript.rebuild script.chunkName source script.changes) State.fresh = (⟨.done (), events⟩, s) ∧
        (script.reload c files).1.ending = .done () ∧
        (script.reload c files).2 = { script with state := s, fingerprint := Live.fingerprint source } := by
  unfold LoadedScript.reload
  cases hr : files.readText script.path with
  | error e => exact .inl ⟨by simp, rfl⟩
  | ok source =>
    simp only
    cases hp : perform c (LoadedScript.rebuild script.chunkName source script.changes) State.fresh with
    | mk report s =>
      obtain ⟨ending, events⟩ := report
      cases ending with
      | done u => exact .inr ⟨source, events, s, rfl, hp, rfl, rfl⟩
      | failed e => exact .inl ⟨by simp, rfl⟩
      | stopped fault => exact .inl ⟨by simp, rfl⟩
      | exhausted => exact .inl ⟨by simp, rfl⟩

theorem isStale_eq_ok_true (h : script.isStale files = .ok true) :
    ∃ source, files.readText script.path = .ok source ∧ Live.fingerprint source ≠ script.fingerprint := by
  unfold LoadedScript.isStale at h
  cases hr : files.readText script.path with
  | error e =>
    rw [hr] at h
    cases h
  | ok source =>
    rw [hr] at h
    exact ⟨source, rfl, by simpa using h⟩

/-- A conditional reload does what a reload at the second read does, for a script with hot reload
whose file has changed at the first; or it changes nothing. -/
theorem reloadIfChanged_cases (checked now : Files) :
    ((script.reloadIfChanged c checked now).1.ending ≠ .done true ∧
        (script.reloadIfChanged c checked now).2 = script) ∨
      script.hotReload = true ∧ script.isStale checked = .ok true ∧ (script.reload c now).1.ending = .done () ∧
        (script.reloadIfChanged c checked now).1.ending = .done true ∧
        (script.reloadIfChanged c checked now).2 = (script.reload c now).2 := by
  unfold LoadedScript.reloadIfChanged
  split
  next hot =>
    cases hs : script.isStale checked with
    | error e => exact .inl ⟨by simp, rfl⟩
    | ok stale =>
      cases stale with
      | false => exact .inl ⟨by simp, rfl⟩
      | true =>
        have hr := reload_cases c now script
        cases hp : script.reload c now with
        | mk report script' =>
          rw [hp] at hr
          obtain ⟨ending, events⟩ := report
          rcases hr with ⟨hne, hsame⟩ | ⟨_, _, _, -, -, hdone, -⟩
          · cases ending with
            | done u => exact absurd rfl hne
            | failed e => exact .inl ⟨by simp, hsame⟩
            | stopped fault => exact .inl ⟨by simp [Report.map, Ending.map], hsame⟩
            | exhausted => exact .inl ⟨by simp [Report.map, Ending.map], hsame⟩
          · obtain rfl : ending = .done () := hdone
            exact .inr ⟨hot, rfl, rfl, rfl, rfl⟩
  next => exact .inl ⟨by simp, rfl⟩

variable {c files script}

theorem reload_of_not_done (h : (script.reload c files).1.ending ≠ .done ()) : (script.reload c files).2 = script := by
  rcases reload_cases c files script with ⟨-, hsame⟩ | ⟨_, _, _, -, -, hdone, -⟩
  · exact hsame
  · exact absurd hdone h

/-- A reload that succeeds puts the state that the text of the file makes in the place of the old one. -/
theorem reload_of_done (h : (script.reload c files).1.ending = .done ()) :
    ∃ text, files.readText script.path = .ok text ∧ Rebuilds c script.chunkName text script.changes ∧
      (script.reload c files).2 = { script with
        state := rebuilt c script.chunkName text script.changes
        fingerprint := Live.fingerprint text } := by
  rcases reload_cases c files script with ⟨hne, -⟩ | ⟨text, events, s, hread, hp, -, hnew⟩
  · exact absurd h hne
  · refine ⟨text, hread, by rw [Rebuilds, hp], ?_⟩
    rw [hnew, rebuilt, hp]

theorem reloadIfChanged_of_not_done {checked now : Files}
    (h : (script.reloadIfChanged c checked now).1.ending ≠ .done true) :
    (script.reloadIfChanged c checked now).2 = script := by
  rcases reloadIfChanged_cases c script checked now with ⟨-, hsame⟩ | ⟨-, -, -, hdone, -⟩
  · exact hsame
  · exact absurd hdone h

/-- A conditional reload succeeds only on a text that is new, and does what a reload does at the second read. -/
theorem of_reloadIfChanged_done {checked now : Files}
    (h : (script.reloadIfChanged c checked now).1.ending = .done true) :
    script.hotReload = true ∧
      (∃ text, checked.readText script.path = .ok text ∧ Live.fingerprint text ≠ script.fingerprint) ∧
      (script.reload c now).1.ending = .done () ∧
      (script.reloadIfChanged c checked now).2 = (script.reload c now).2 := by
  rcases reloadIfChanged_cases c script checked now with ⟨hne, -⟩ | ⟨hot, hstale, hreload, -, hnew⟩
  · exact absurd h hne
  · exact ⟨hot, isStale_eq_ok_true checked script hstale, hreload, hnew⟩

/-- It does not succeed again while the file stays as it was read. -/
theorem reloadIfChanged_again {checked now : Files}
    (h : (script.reloadIfChanged c checked now).1.ending = .done true) (later later' : Files)
    (hlater : later.readText script.path = now.readText script.path) :
    (script.reloadIfChanged c checked now).2.reloadIfChanged c later later' =
      (⟨.done false, []⟩, (script.reloadIfChanged c checked now).2) := by
  rcases reloadIfChanged_cases c script checked now with ⟨hne, -⟩ | ⟨hot, -, hreload, -, hnew⟩
  · exact absurd h hne
  rcases reload_cases c now script with ⟨hne, -⟩ | ⟨source, _, s, hread, -, -, hs⟩
  · exact absurd hreload hne
  -- the new fingerprint is that of the text at the second read
  rw [hnew, hs]
  have hfresh : LoadedScript.isStale later
      { script with state := s, fingerprint := Live.fingerprint source } = .ok false := by
    simp [LoadedScript.isStale, hlater, hread]
  rw [LoadedScript.reloadIfChanged, if_pos hot, hfresh]

end Reloading

/-! ### Opening -/

section Opening

variable {c : Channel} {files : Files} {script : LoadedScript}

/-- A script that has just been opened. -/
theorem openFile_cases {path chunkName : String} {hotReload : Bool}
    {events : List Event} (h : LoadedScript.openFile c files path chunkName hotReload = ⟨.done script, events⟩) :
    ∃ source events' s, files.readText path = .ok source ∧
      perform c (LoadedScript.execute chunkName source) State.fresh = (⟨.done (), events'⟩, s) ∧
      script = { path, chunkName, hotReload, fingerprint := Live.fingerprint source, state := s } := by
  unfold LoadedScript.openFile at h
  cases hr : files.readText path with
  | error e =>
    rw [hr] at h
    cases h
  | ok source =>
    rw [hr] at h
    simp only at h
    cases hp : perform c (LoadedScript.execute chunkName source) State.fresh with
    | mk report s =>
      obtain ⟨ending, evs⟩ := report
      rw [hp] at h
      cases ending with
      | done u =>
        simp only [Report.mk.injEq, Ending.done.injEq] at h
        exact ⟨source, evs, s, rfl, hp, h.1.symm⟩
      | failed e => simp [Report.map, Ending.map] at h
      | stopped fault => simp [Report.map, Ending.map] at h
      | exhausted => simp [Report.map, Ending.map] at h

end Opening

/-! ### A file -/

/-- What an operation that came to its end answers. -/
def Ending.result? {α : Type} : Ending α → Option α
  | .done a => some a
  | _ => none

/-- A file `main.lua` with the given text. -/
def mainFile (text : String) : Files := ⟨[(["main.lua"], .file text.toUTF8)]⟩

end ScriptHost.Live
