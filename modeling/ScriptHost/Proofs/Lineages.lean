import ScriptHost.Proofs.Operations
import ScriptHost.Proofs.Reloading

/-! Where the state of a loaded script comes from. Whatever happens to the script and to its file, the state is
what the text that was read last by opening or by a reload that succeeded made in a new state, with the changes
that were made again after it, and then all that has been done since; and the fingerprint is that of this text. A
text that does not load leaves the script stale for as long as the file stays with it. -/

namespace ScriptHost.Live

open Script (State)
open Script.State (Later)
open Host (Kind Library)
open Exchange

/-! ### Lineages -/

/-- Exchanges on a state in turn, up to the first that does not come to its end; with how the last one ended. -/
def performAll (c : Channel) : List (Exchange Unit) → State → Ending Unit × State
  | [], s => (.done (), s)
  | m :: ms, s =>
    let (report, s) := perform c m s
    match report.ending with
    | .done () => performAll c ms s
    | ending => (ending, s)

/-- What an action does with the state at hand. -/
def Action.exchanges (chunkName : String) : Action → List (Exchange Unit)
  | .getGlobal name kind => [LoadedScript.settled chunkName (Operation.getGlobal name kind).run]
  | .setGlobal name v => [LoadedScript.settled chunkName (Operation.setGlobal name v).run]
  | .runFunction name args kinds => [LoadedScript.settled chunkName (Operation.runFunction name args kinds).run]
  | .registerFunction space name f => [LoadedScript.settled chunkName (Operation.registerFunction space name f).run]
  | .registerLibraries ls =>
    ls.flatMap fun l => l.functions.map fun f =>
      LoadedScript.settled chunkName (Operation.registerFunction l.name f.1 f.2).run
  | .context m => [m]
  | .edit _ | .setHotReload _ | .isStale | .reload | .reloadIfChanged _ => []

/-- The text that an action builds the state anew from: the one that a reload reads, if the reload succeeds. -/
def Action.text? (c : Channel) (files : Files) (script : LoadedScript) : Action → Option String
  | .reload =>
    match (script.reload c files).1.ending with
    | .done () => (files.readText script.path).toOption
    | _ => none
  | .reloadIfChanged now =>
    match (script.reloadIfChanged c files now).1.ending with
    | .done true => (now.readText script.path).toOption
    | _ => none
  | _ => none

/-- How a state came to be: the text that ran in a new state, the changes that were made again after it, and
the actions since. -/
structure Lineage where
  text : String
  changes : Changes := []
  since : List Action := []

namespace Lineage

/-- The state at the end. -/
def state (c : Channel) (chunkName : String) (l : Lineage) : State :=
  l.since.foldl (fun s a => (performAll c (a.exchanges chunkName) s).2) (rebuilt c chunkName l.text l.changes)

/-- A reload that succeeds starts anew, with the changes on record; everything else goes on. -/
def after (c : Channel) (files : Files) (script : LoadedScript) (a : Action) (l : Lineage) : Lineage :=
  match a.text? c files script with
  | some text => { text, changes := script.changes }
  | none => { l with since := l.since ++ [a] }

end Lineage

/-- The host code in a context reaches the state only through the parts of an exchange. -/
def Action.Lawful : Action → Prop
  | .context m => m.Lawful
  | _ => True

/-- The files and the script at some point after it was loaded, and the lineage of its state: what was read
and done, whatever the script says of itself. -/
inductive Session (c : Channel) : Files → LoadedScript → Lineage → Prop
  | opened {files : Files} {path chunkName text : String} {hotReload : Bool} {script : LoadedScript}
      {events : List Event} (hread : files.readText path = .ok text)
      (h : LoadedScript.openFile c files path chunkName hotReload = ⟨.done script, events⟩) :
      Session c files script { text }
  | step {files : Files} {script : LoadedScript} {lineage : Lineage} (h : Session c files script lineage)
      (a : Action) (ha : a.Lawful) :
      Session c (a.run c files script).1 (a.run c files script).2 (lineage.after c files script a)

/-! ### Exchanges in turn -/

section Performing

variable {c : Channel} {ms ms' : List (Exchange Unit)} {s : State}

theorem performAll_singleton (m : Exchange Unit) (s : State) :
    performAll c [m] s = ((perform c m s).1.ending, (perform c m s).2) := by
  simp only [performAll]
  split
  next h => rw [h]
  next => rfl

theorem performAll_append_of_done (h : (performAll c ms s).1 = .done ()) :
    performAll c (ms ++ ms') s = performAll c ms' (performAll c ms s).2 := by
  induction ms generalizing s with
  | nil => rfl
  | cons m ms ih =>
    simp only [performAll] at h
    simp only [List.cons_append, performAll]
    split at h
    · exact ih h
    next hne => exact absurd h hne

theorem performAll_append_of_ne (h : (performAll c ms s).1 ≠ .done ()) :
    performAll c (ms ++ ms') s = performAll c ms s := by
  induction ms generalizing s with
  | nil => exact absurd rfl h
  | cons m ms ih =>
    simp only [performAll] at h
    simp only [List.cons_append, performAll]
    split at h
    · exact ih h
    · rfl

/-- The answer of an operation does not matter to the state. -/
theorem perform_settled_map {α : Type} (chunkName : String) (m : Exchange α) (s : State) :
    (perform c (LoadedScript.settled chunkName ((fun _ => ()) <$> m)) s).2 =
      (perform c (LoadedScript.settled chunkName m) s).2 := by
  have hmap : ((fun _ => ()) <$> m : Exchange Unit) = m >>= fun _ => pure () := rfl
  rw [hmap, perform, perform, LoadedScript.settled, LoadedScript.settled, bind_run, bind_run, settle, settle, bind_run]
  cases m c ⟨[], { s with log := [] }⟩ with
  | done _ f =>
    by_cases h : f.stack.length = 0
    · simp only [pure_run, depth_bind, if_pos h]
      rfl
    · simp only [pure_run, depth_bind, if_neg h]
      rfl
  | failed _ f =>
    by_cases h : f.stack.length = 0
    · simp only [depth_bind, if_pos h]
      rfl
    · simp only [depth_bind, if_neg h]
      rfl
  | stopped fault t => rfl
  | exhausted => rfl

end Performing

/-- The second script is the first after exchanges on its state. -/
structure Continues (c : Channel) (ms : List (Exchange Unit)) (script script' : LoadedScript) : Prop where
  path : script'.path = script.path
  chunkName : script'.chunkName = script.chunkName
  fingerprint : script'.fingerprint = script.fingerprint
  state : script'.state = (performAll c ms script.state).2

/-- The same of an operation that ends as the exchanges do. -/
structure Performs (c : Channel) (ms : List (Exchange Unit)) (script : LoadedScript)
    (result : Report Unit × LoadedScript) : Prop extends Continues c ms script result.2 where
  ending : result.1.ending = (performAll c ms script.state).1

section Using

variable {c : Channel} {ms ms' : List (Exchange Unit)} {script script' : LoadedScript}
  {result result' : Report Unit × LoadedScript}

theorem Continues.refl (c : Channel) (script : LoadedScript) : Continues c [] script script := ⟨rfl, rfl, rfl, rfl⟩

theorem Performs.append_of_done (h : Performs c ms script result) (hdone : result.1.ending = .done ())
    (h' : Performs c ms' result.2 result') : Performs c (ms ++ ms') script result' where
  path := h'.path.trans h.path
  chunkName := h'.chunkName.trans h.chunkName
  fingerprint := h'.fingerprint.trans h.fingerprint
  state := by
    rw [performAll_append_of_done (h.ending ▸ hdone), ← h.state]
    exact h'.state
  ending := by
    rw [performAll_append_of_done (h.ending ▸ hdone), ← h.state]
    exact h'.ending

theorem Performs.append_of_ne (h : Performs c ms script result) (hne : result.1.ending ≠ .done ()) :
    Performs c (ms ++ ms') script result where
  toContinues := ⟨h.path, h.chunkName, h.fingerprint, by rw [performAll_append_of_ne (h.ending ▸ hne), h.state]⟩
  ending := by rw [performAll_append_of_ne (h.ending ▸ hne), h.ending]

theorem eq_of_done {r : Report Unit × LoadedScript} (h : r.1.ending = .done ()) :
    r = (⟨.done (), r.1.events⟩, r.2) := by
  rw [← h]

theorem withState_continues {α : Type} (m : Exchange α) (script : LoadedScript) :
    Continues c [LoadedScript.settled script.chunkName ((fun _ => ()) <$> m)] script (script.withState c m).2 where
  path := rfl
  chunkName := rfl
  fingerprint := rfl
  state := by
    rw [performAll_singleton, perform_settled_map]
    rfl

theorem changing_performs (m : Exchange Unit) (change : Change) (script : LoadedScript) :
    Performs c [LoadedScript.settled script.chunkName m] script (script.changing c m change) := by
  have h : Performs c [LoadedScript.settled script.chunkName m] script (script.withState c m) :=
    ⟨⟨rfl, rfl, rfl, by rw [performAll_singleton]; rfl⟩, by rw [performAll_singleton]; rfl⟩
  unfold LoadedScript.changing
  split
  next hw =>
    rw [hw] at h
    exact ⟨⟨h.path, h.chunkName, h.fingerprint, h.state⟩, h.ending⟩
  next => exact h

theorem registerAll_performs (space : String) (fs : List (String × HostFunction)) (script : LoadedScript) :
    Performs c (fs.map fun f => LoadedScript.settled script.chunkName (Operation.registerFunction space f.1 f.2).run)
      script (LoadedScript.registerAll c space fs script) := by
  induction fs generalizing script with
  | nil => exact ⟨.refl c script, rfl⟩
  | cons f fs ih =>
    have h : Performs c [LoadedScript.settled script.chunkName (Operation.registerFunction space f.1 f.2).run] script
        (script.registerFunction c space f.1 f.2) := changing_performs _ _ script
    unfold LoadedScript.registerAll
    split
    next script' hw =>
      rw [hw] at h
      have hrest := ih script'
      rw [h.chunkName] at hrest
      have hall := h.append_of_done rfl hrest
      exact ⟨hall.toContinues, hall.ending⟩
    next hne => exact h.append_of_ne fun hdone => hne _ _ (eq_of_done hdone)

theorem registerLibrary_performs (l : Library) (script : LoadedScript) :
    Performs c (l.functions.map fun f =>
        LoadedScript.settled script.chunkName (Operation.registerFunction l.name f.1 f.2).run)
      script (script.registerLibrary c l) := by
  have h := registerAll_performs (c := c) l.name l.functions script
  unfold LoadedScript.registerLibrary
  split
  next hw =>
    rw [hw] at h
    exact ⟨h.toContinues, h.ending⟩
  next => exact h

theorem registerLibraries_performs (ls : List Library) (script : LoadedScript) :
    Performs c ((Action.registerLibraries ls).exchanges script.chunkName) script (script.registerLibraries c ls) := by
  induction ls generalizing script with
  | nil => exact ⟨.refl c script, rfl⟩
  | cons l ls ih =>
    have h := registerLibrary_performs (c := c) l script
    unfold LoadedScript.registerLibraries
    split
    next script' hw =>
      rw [hw] at h
      have hrest := ih script'
      rw [h.chunkName] at hrest
      have hall := h.append_of_done rfl hrest
      exact ⟨hall.toContinues, hall.ending⟩
    next hne => exact h.append_of_ne fun hdone => hne _ _ (eq_of_done hdone)

end Using

/-! ### Steps of a session -/

section Steps

variable {c : Channel} {files : Files} {script : LoadedScript} {a : Action} {text : String}

theorem reload_of_text (hdone : (script.reload c files).1.ending = .done ())
    (h : (files.readText script.path).toOption = some text) :
    Rebuilds c script.chunkName text script.changes ∧
      (script.reload c files).2 = { script with
        state := rebuilt c script.chunkName text script.changes
        fingerprint := Live.fingerprint text } := by
  obtain ⟨text', hread, hnew⟩ := reload_of_done hdone
  rw [hread] at h
  obtain rfl : text' = text := Option.some.inj h
  exact hnew

/-- An action that builds the state anew does so from the text, with the changes on record. -/
theorem run_of_text? (h : a.text? c files script = some text) :
    Rebuilds c script.chunkName text script.changes ∧
      (a.run c files script).2 = { script with
        state := rebuilt c script.chunkName text script.changes
        fingerprint := Live.fingerprint text } := by
  cases a with
  | reload =>
    simp only [Action.text?] at h
    split at h
    next hdone => exact reload_of_text hdone h
    next => cases h
  | reloadIfChanged now =>
    simp only [Action.text?] at h
    split at h
    next hdone =>
      rcases reloadIfChanged_cases c script files now with ⟨hne, -⟩ | ⟨-, -, hreload, -, hnew⟩
      · exact absurd hdone hne
      · obtain ⟨hrebuilds, hnew'⟩ := reload_of_text hreload h
        exact ⟨hrebuilds, hnew.trans hnew'⟩
    next => cases h
  | _ => cases h

/-- Any other action goes on with the state at hand. -/
theorem run_of_text?_eq_none (h : a.text? c files script = none) :
    Continues c (a.exchanges script.chunkName) script (a.run c files script).2 := by
  cases a with
  | edit | isStale | setHotReload => exact ⟨rfl, rfl, rfl, rfl⟩
  | getGlobal name kind => exact withState_continues (Exchange.getGlobal name kind) script
  | setGlobal name v => exact (changing_performs (Exchange.setGlobal name v) _ script).toContinues
  | runFunction name args kinds => exact withState_continues (Exchange.runFunction name args kinds) script
  | registerFunction space name f =>
    exact (changing_performs (Exchange.registerFunction space name f) _ script).toContinues
  | registerLibraries ls => exact (registerLibraries_performs ls script).toContinues
  | context m => exact ⟨rfl, rfl, rfl, by rw [Action.exchanges, performAll_singleton]; rfl⟩
  | reload =>
    have hne : (script.reload c files).1.ending ≠ .done () := by
      intro hdone
      obtain ⟨text, hread, -⟩ := reload_of_done hdone
      simp only [Action.text?, hdone, hread] at h
      cases h
    have hsame : (script.reload c files).2 = script := reload_of_not_done hne
    exact (congrArg (Continues c [] script) hsame).mpr (.refl c script)
  | reloadIfChanged now =>
    have hne : (script.reloadIfChanged c files now).1.ending ≠ .done true := by
      intro hdone
      rcases reloadIfChanged_cases c script files now with ⟨hne, -⟩ | ⟨-, -, hreload, -, -⟩
      · exact hne hdone
      · obtain ⟨text, hread, -⟩ := reload_of_done hreload
        simp only [Action.text?, hdone, hread] at h
        cases h
    have hsame : (script.reloadIfChanged c files now).2 = script := reloadIfChanged_of_not_done hne
    exact (congrArg (Continues c [] script) hsame).mpr (.refl c script)

end Steps

/-! ### The lineage -/

/-- A relation that says nothing. -/
theorem steady_trivial : Steady fun _ _ => True where
  refl _ := trivial
  trans _ _ := trivial
  newTable _ := trivial
  newClosure _ _ _ _ _ := trivial
  newCell _ _ := trivial
  newThread _ := trivial
  setCell _ _ _ := trivial
  rawSet _ _ _ _ _ := trivial
  storePositional _ _ _ := trivial
  setMetatable _ _ _ := trivial
  wrap _ _ := trivial
  spend _ _ := trivial
  emit _ _ _ _ := trivial

theorem keeps_trivial (c : Channel) : c.call.Keeps fun _ _ => True := by
  intro r vs site s
  cases c.call r vs site s <;> trivial

/-- Running a text alone is rebuilding from it without changes. -/
theorem rebuild_of_execute {c : Channel} {chunkName text : String} {events : List Event} {s : State}
    (h : perform c (LoadedScript.execute chunkName text) State.fresh = (⟨.done (), events⟩, s)) :
    perform c (LoadedScript.rebuild chunkName text []) State.fresh = (⟨.done (), events⟩, s) := by
  have hneutral := execute_neutral steady_trivial (keeps_trivial c) chunkName text [] []
    { State.fresh with log := [] }
  rw [perform] at h ⊢
  cases hrun : LoadedScript.execute chunkName text c ⟨[], { State.fresh with log := [] }⟩ with
  | done u f =>
    rw [List.append_nil, hrun] at hneutral
    obtain ⟨-, ys, hstack, rfl⟩ := hneutral
    have hrebuild : LoadedScript.rebuild chunkName text [] c ⟨[], { State.fresh with log := [] }⟩ = .done () f := by
      rw [LoadedScript.rebuild, bind_done hrun, Changes.apply, bind_done (pure_run c f ()), depth_bind, hstack]
      rfl
    rw [hrun] at h
    rw [hrebuild]
    exact h
  | failed | stopped | exhausted =>
    rw [hrun] at h
    cases h

/-- The script is what the lineage of its state makes of it. -/
structure Faithful (c : Channel) (script : LoadedScript) (lineage : Lineage) : Prop where
  fingerprint : script.fingerprint = Live.fingerprint lineage.text
  rebuilds : Rebuilds c script.chunkName lineage.text lineage.changes
  state : script.state = lineage.state c script.chunkName
  lawful : ∀ a ∈ lineage.since, a.Lawful

section Invariant

variable {c : Channel} {files : Files} {script : LoadedScript} {lineage : Lineage}

theorem openFile_faithful {path chunkName text : String} {hotReload : Bool} {events : List Event}
    (hread : files.readText path = .ok text)
    (h : LoadedScript.openFile c files path chunkName hotReload = ⟨.done script, events⟩) :
    Faithful c script { text } := by
  obtain ⟨text', _, s, hread', hp, rfl⟩ := openFile_cases h
  obtain rfl : text = text' := Except.ok.inj (hread.symm.trans hread')
  have hrebuild := rebuild_of_execute hp
  exact ⟨rfl, by rw [Rebuilds, hrebuild], by rw [Lineage.state, rebuilt, hrebuild]; rfl, nofun⟩

/-- Every action keeps script and lineage in step. -/
theorem run_faithful (h : Faithful c script lineage) {a : Action} (ha : a.Lawful) :
    Faithful c (a.run c files script).2 (lineage.after c files script a) := by
  rw [Lineage.after]
  cases htext : a.text? c files script with
  | some text =>
    obtain ⟨hrebuilds, hnew⟩ := run_of_text? htext
    rw [hnew]
    exact ⟨rfl, hrebuilds, rfl, nofun⟩
  | none =>
    have hcontinues := run_of_text?_eq_none htext
    refine ⟨hcontinues.fingerprint.trans h.fingerprint, hcontinues.chunkName ▸ h.rebuilds, ?_, ?_⟩
    · rw [hcontinues.state, hcontinues.chunkName, Lineage.state, List.foldl_append, h.state]
      rfl
    · exact List.forall_mem_append.2 ⟨h.lawful, List.forall_mem_singleton.2 ha⟩

theorem Session.faithful (h : Session c files script lineage) : Faithful c script lineage := by
  induction h with
  | opened hread h => exact openFile_faithful hread h
  | step _ a ha ih => exact run_faithful ih ha

end Invariant

section Lawful

variable {catalog : Catalog} (hcat : catalog.Lawful) {c : Channel} (hc : c.Serves catalog)

theorem Action.Lawful.exchanges {a : Action} (ha : a.Lawful) (chunkName : String) :
    ∀ m ∈ a.exchanges chunkName, m.Lawful := by
  have hoperation (op : Operation) : (LoadedScript.settled chunkName op.run).Lawful :=
    (settled_composed chunkName op.composed).lawful
  cases a with
  | context m => exact List.forall_mem_singleton.2 ha
  | registerLibraries ls =>
    intro m hm
    obtain ⟨l, -, hm⟩ := List.mem_flatMap.1 hm
    obtain ⟨f, -, rfl⟩ := List.mem_map.1 hm
    exact hoperation _
  | getGlobal | setGlobal | runFunction | registerFunction => exact List.forall_mem_singleton.2 (hoperation _)
  | _ => exact nofun

include hcat hc

theorem perform_later {m : Exchange Unit} (hm : m.Lawful) (s : State) : s.Later (perform c m s).2 := by
  have hrelog (t : State) (log : List Event) : t.Later { t with log } := (State.Write.relog t log).later
  have h := later_of_lawful hcat hc hm ⟨[], { s with log := [] }⟩
  rw [perform]
  cases hrun : m c ⟨[], { s with log := [] }⟩ with
  | done _ f | failed _ f | stopped _ f =>
    rw [hrun] at h
    exact ((hrelog s []).trans h).trans (hrelog _ [])
  | exhausted => exact .refl

theorem performAll_later {ms : List (Exchange Unit)} (hms : ∀ m ∈ ms, m.Lawful) (s : State) :
    s.Later (performAll c ms s).2 := by
  induction ms generalizing s with
  | nil => exact .refl
  | cons m ms ih =>
    obtain ⟨hm, hms⟩ := List.forall_mem_cons.1 hms
    have hlater := perform_later hcat hc hm s
    simp only [performAll]
    split
    · exact hlater.trans (ih hms _)
    · exact hlater

/-- What has been done since a state was built are writes of scripts and of the host. -/
theorem Lineage.later {lineage : Lineage} (h : ∀ a ∈ lineage.since, a.Lawful) (chunkName : String) :
    (rebuilt c chunkName lineage.text lineage.changes).Later (lineage.state c chunkName) := by
  rw [Lineage.state]
  generalize rebuilt c chunkName lineage.text lineage.changes = s
  generalize lineage.since = as at h
  induction as generalizing s with
  | nil => exact .refl
  | cons a as ih =>
    obtain ⟨ha, has⟩ := List.forall_mem_cons.1 h
    exact (performAll_later hcat hc (ha.exchanges chunkName) s).trans (ih _ has)

end Lawful

/-! ### A text that does not load -/

/-- The text does not run to its end in a new state. -/
def FailsToLoad (c : Channel) (chunkName source : String) : Prop :=
  (perform c (LoadedScript.execute chunkName source) State.fresh).1.ending ≠ .done ()

/-- The action leaves the file at `path` with the text, for both reads of a conditional reload too. -/
def Action.LeavesText (path source : String) : Action → Prop
  | .edit files => files.readText path = .ok source
  | .reloadIfChanged now => now.readText path = .ok source
  | _ => True

section Failing

variable {c : Channel} {source : String}

theorem rebuild_fails {chunkName : String} (h : FailsToLoad c chunkName source) (changes : Changes) :
    (perform c (LoadedScript.rebuild chunkName source changes) State.fresh).1.ending ≠ .done () := by
  unfold FailsToLoad perform at h
  unfold perform
  rw [LoadedScript.rebuild, bind_run]
  cases hr : LoadedScript.execute chunkName source c ⟨[], { State.fresh with log := [] }⟩ with
  | done u f =>
    rw [hr] at h
    exact absurd rfl h
  | failed e f => simp
  | stopped fault s => simp
  | exhausted => simp

theorem reload_of_fails {files : Files} {script : LoadedScript} (hr : files.readText script.path = .ok source)
    (h : FailsToLoad c script.chunkName source) :
    (script.reload c files).1.ending ≠ .done () ∧ (script.reload c files).2 = script := by
  rcases reload_cases c files script with hc | ⟨source', events, s, hr', hp, -, -⟩
  · exact hc
  · obtain rfl : source = source' := Except.ok.inj (hr.symm.trans hr')
    exact absurd (by rw [hp]) (rebuild_fails h script.changes)

/-- What lasts while the file stays with a text that does not load. -/
structure Stuck (c : Channel) (source : String) (files : Files) (script : LoadedScript) : Prop where
  reads : files.readText script.path = .ok source
  differs : Live.fingerprint source ≠ script.fingerprint
  fails : FailsToLoad c script.chunkName source

theorem Stuck.isStale {files : Files} {script : LoadedScript} (h : Stuck c source files script) :
    script.isStale files = .ok true := by
  simp [LoadedScript.isStale, h.reads, h.differs]

theorem Stuck.reloadIfChanged {files now : Files} {script : LoadedScript} (h : Stuck c source files script)
    (hnow : now.readText script.path = .ok source) :
    (script.reloadIfChanged c files now).1.ending ≠ .done true ∧
      (script.hotReload = true → (script.reloadIfChanged c files now).1.ending ≠ .done false) ∧
      (script.reloadIfChanged c files now).2 = script := by
  have hfail := (reload_of_fails hnow h.fails).1
  have hne : (script.reloadIfChanged c files now).1.ending ≠ .done true := by
    rcases reloadIfChanged_cases c script files now with hc | ⟨-, -, hdone, -, -⟩
    · exact hc.1
    · exact absurd hdone hfail
  refine ⟨?_, fun hot => ?_, ?_⟩
  · exact hne
  · rw [LoadedScript.reloadIfChanged, if_pos hot, h.isStale]
    cases hp : script.reload c now with
    | mk report script' =>
      obtain ⟨ending, events⟩ := report
      rw [hp] at hfail
      cases ending with
      | done u => exact absurd rfl hfail
      | failed e => simp
      | stopped fault => simp [Report.map, Ending.map]
      | exhausted => simp [Report.map, Ending.map]
  · exact reloadIfChanged_of_not_done hne

/-- The state is not built anew from a text that does not load. -/
theorem Stuck.text? {files : Files} {script : LoadedScript} (h : Stuck c source files script) {a : Action}
    (ha : a.LeavesText script.path source) : a.text? c files script = none := by
  cases a with
  | reload =>
    simp only [Action.text?]
    split
    next hdone => exact absurd hdone (reload_of_fails h.reads h.fails).1
    next => rfl
  | reloadIfChanged now =>
    simp only [Action.text?]
    split
    next hdone => exact absurd hdone (h.reloadIfChanged ha).1
    next => rfl
  | _ => rfl

theorem Stuck.run {files : Files} {script : LoadedScript} (h : Stuck c source files script) (a : Action)
    (ha : a.LeavesText script.path source) :
    Stuck c source (a.run c files script).1 (a.run c files script).2 ∧
      (a.run c files script).2.path = script.path := by
  have hcontinues := run_of_text?_eq_none (h.text? ha)
  have hreads : (a.run c files script).1.readText script.path = .ok source := by
    cases a with
    | edit | reloadIfChanged => exact ha
    | _ => exact h.reads
  refine ⟨⟨?_, ?_, ?_⟩, hcontinues.path⟩
  · rw [hcontinues.path]
    exact hreads
  · rw [hcontinues.fingerprint]
    exact h.differs
  · rw [hcontinues.chunkName]
    exact h.fails

theorem Stuck.runAll {files : Files} {script : LoadedScript} (h : Stuck c source files script) (as : List Action)
    (ha : ∀ a ∈ as, a.LeavesText script.path source) :
    Stuck c source (Action.runAll c as files script).1 (Action.runAll c as files script).2 := by
  induction as generalizing files script with
  | nil => exact h
  | cons a as ih =>
    obtain ⟨ha', has⟩ := List.forall_mem_cons.1 ha
    obtain ⟨hs, hpath⟩ := h.run a ha'
    exact ih hs fun b hb => hpath ▸ has b hb

end Failing

/-! ### Whole sessions -/

/-- At every point of a session the state is exactly what its lineage makes: the text that was read last by
opening or by a reload that succeeded, run to its end in a new state, the changes made again after it, and what
has been done since, which are writes of scripts and of the host alone; and the fingerprint is that of this text.
A reload that does not succeed changes nothing, and one that does puts the state that the text of the file makes,
and the fingerprint of this text, in the place of the old ones, and changes nothing else. A conditional reload
succeeds only for a script with hot reload whose file had another text, does what a reload does at the second
read, and does not succeed again while the file stays as it was read. Through any further actions that leave the
file with a text that does not load, the script stays stale and every reload fails without a trace. -/
theorem session_reload_atomic (c : Channel) {files : Files} {script : LoadedScript} {lineage : Lineage}
    (h : Session c files script lineage) :
    (script.fingerprint = Live.fingerprint lineage.text ∧
      Rebuilds c script.chunkName lineage.text lineage.changes ∧
      script.state = lineage.state c script.chunkName ∧
      ∀ catalog : Catalog, catalog.Lawful → c.Serves catalog →
        (rebuilt c script.chunkName lineage.text lineage.changes).Later script.state) ∧
    (∀ now, (script.reload c now).1.ending ≠ .done () → (script.reload c now).2 = script) ∧
    (∀ now, (script.reload c now).1.ending = .done () →
      ∃ text, now.readText script.path = .ok text ∧ Rebuilds c script.chunkName text script.changes ∧
        (script.reload c now).2 = { script with
          state := rebuilt c script.chunkName text script.changes
          fingerprint := Live.fingerprint text }) ∧
    (∀ checked now, (script.reloadIfChanged c checked now).1.ending ≠ .done true →
      (script.reloadIfChanged c checked now).2 = script) ∧
    (∀ checked now, (script.reloadIfChanged c checked now).1.ending = .done true →
      script.hotReload = true ∧
      (∃ text, checked.readText script.path = .ok text ∧ Live.fingerprint text ≠ script.fingerprint) ∧
      (script.reload c now).1.ending = .done () ∧
      (script.reloadIfChanged c checked now).2 = (script.reload c now).2 ∧
      ∀ later later', later.readText script.path = now.readText script.path →
        (script.reloadIfChanged c checked now).2.reloadIfChanged c later later' =
          (⟨.done false, []⟩, (script.reloadIfChanged c checked now).2)) ∧
    ∀ source as, files.readText script.path = .ok source → Live.fingerprint source ≠ script.fingerprint →
      FailsToLoad c script.chunkName source → (∀ a ∈ as, a.LeavesText script.path source) →
      ∀ files' script', Action.runAll c as files script = (files', script') →
        script'.isStale files' = .ok true ∧
        (script'.reload c files').1.ending ≠ .done () ∧ (script'.reload c files').2 = script' ∧
        ∀ now, now.readText script'.path = .ok source →
          (script'.reloadIfChanged c files' now).1.ending ≠ .done true ∧
          (script'.hotReload = true → (script'.reloadIfChanged c files' now).1.ending ≠ .done false) ∧
          (script'.reloadIfChanged c files' now).2 = script' := by
  have hfaithful := h.faithful
  refine ⟨⟨hfaithful.fingerprint, hfaithful.rebuilds, hfaithful.state, ?_⟩, fun now hne => reload_of_not_done hne,
    fun now hdone => reload_of_done hdone, fun checked now hne => reloadIfChanged_of_not_done hne, ?_, ?_⟩
  · intro catalog hcat hc
    rw [hfaithful.state]
    exact Lineage.later hcat hc hfaithful.lawful script.chunkName
  · intro checked now hdone
    obtain ⟨hot, hchanged, hreload, hnew⟩ := of_reloadIfChanged_done hdone
    exact ⟨hot, hchanged, hreload, hnew, reloadIfChanged_again hdone⟩
  · intro source as hread hdiffers hfails has files' script' hrun
    have hstuck := Stuck.runAll ⟨hread, hdiffers, hfails⟩ as has
    rw [hrun] at hstuck
    exact ⟨hstuck.isStale, (reload_of_fails hstuck.reads hstuck.fails).1,
      (reload_of_fails hstuck.reads hstuck.fails).2, fun now hnow => hstuck.reloadIfChanged hnow⟩

theorem readText_mainFile (text : String) : (mainFile text).readText "main.lua" = .ok text := by
  have hplace : (mainFile text).place "main.lua" = .ok ["main.lua"] := by rfl
  have hnode : (mainFile text).node? ["main.lua"] = some (.file text.toUTF8) := by rfl
  have hbytes : (mainFile text).readBytes "main.lua" = .ok text.toUTF8 := by
    simp only [Files.readBytes, hplace, bind, Except.bind, hnode]
    rfl
  simp only [Files.readText, hbytes, bind, Except.bind, Host.fromUTF8?_toUTF8]

/-- A script has been loaded, and then its file is cut off in the middle of a statement. -/
theorem session_reload_atomic_broken_file :
    ∃ script, Session (outermost Samples.catalog) (mainFile "Version =") script
        ⟨"Version = 1", [], [.edit (mainFile "Version =")]⟩ ∧
      script.fingerprint = Live.fingerprint "Version = 1" ∧
      script.isStale (mainFile "Version =") = .ok true ∧
      (script.reload (outermost Samples.catalog) (mainFile "Version =")).2 = script := by
  have hload : (LoadedScript.openFile (outermost Samples.catalog) (mainFile "Version = 1") "main.lua"
      "main.lua" true).ending.result?.isSome = true := by decide +kernel
  have hfail : (perform (outermost Samples.catalog) (LoadedScript.execute "main.lua" "Version =")
      State.fresh).1.ending.result?.isNone = true := by decide +kernel
  cases hopen : LoadedScript.openFile (outermost Samples.catalog) (mainFile "Version = 1") "main.lua"
      "main.lua" true with
  | mk ending events =>
    rw [hopen] at hload
    cases ending with
    | failed | stopped | exhausted => cases hload
    | done script =>
      obtain ⟨_, _, _, -, -, rfl⟩ := openFile_cases hopen
      have h := (Session.opened (readText_mainFile _) hopen).step (.edit (mainFile "Version =")) trivial
      obtain ⟨⟨hfingerprint, -⟩, -, -, -, -, hbroken⟩ := session_reload_atomic _ h
      have hdiffers : Live.fingerprint "Version =" ≠ Live.fingerprint "Version = 1" := by decide +kernel
      have hfails : FailsToLoad (outermost Samples.catalog) "main.lua" "Version =" := by
        rw [FailsToLoad]
        intro hdone
        rw [hdone] at hfail
        cases hfail
      obtain ⟨hstale, -, hsame, -⟩ := hbroken "Version =" [] (readText_mainFile _)
        (fun heq => hdiffers (heq.trans hfingerprint)) hfails nofun _ _ rfl
      exact ⟨_, h, hfingerprint, hstale, hsame⟩

end ScriptHost.Live
