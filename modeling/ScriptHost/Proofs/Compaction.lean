import ScriptHost.Proofs.Pairings
import ScriptHost.Proofs.Reloading
import ScriptHost.Samples

/-! What recording loses. Of the changes to one global or one registered name a script keeps only the
last, and a reload makes those again. The state that comes out is the one that all the changes in
their order would make, up to the numbers of its objects and but for torn entries. -/

namespace ScriptHost.Live

open Script (State Value TableRef)
open Exchange

/-! ### All the changes of a session -/

namespace LoadedScript

/-- The registrations of `registerAll` that succeed. -/
def madeByAll (c : Channel) (space : String) : List (String × HostFunction) → LoadedScript → Changes
  | [], _ => []
  | (name, f) :: rest, script =>
    let (report, script) := script.registerFunction c space name f
    if report.ending.result?.isSome then .function space name f :: madeByAll c space rest script else []

def madeByLibraries (c : Channel) : List Host.Library → LoadedScript → Changes
  | [], _ => []
  | l :: rest, script =>
    let (report, script') := script.registerLibrary c l
    madeByAll c l.name l.functions script
      ++ if report.ending.result?.isSome then madeByLibraries c rest script' else []

end LoadedScript

/-- The changes that an action makes with success, oldest first. -/
def Action.made (c : Channel) : Action → LoadedScript → Changes
  | .setGlobal name v, script =>
    if (script.setGlobal c name v).1.ending.result?.isSome then [.global name v] else []
  | .registerFunction space name f, script => script.madeByAll c space [(name, f)]
  | .registerLibraries ls, script => script.madeByLibraries c ls
  | _, _ => []

/-- The changes of one action after another. -/
def Action.history (c : Channel) : List Action → Files → LoadedScript → Changes
  | [], _, _ => []
  | a :: as, files, script => a.made c script ++ history c as (a.run c files script).1 (a.run c files script).2

section History

variable {c : Channel}

/-- A success is recorded, and nothing else changes the record. -/
theorem changing_changes (m : Exchange Unit) (change : Change) (script : LoadedScript) :
    (script.changing c m change).2.changes =
      if (script.changing c m change).1.ending.result?.isSome then script.changes.record change
      else script.changes := by
  have hsame : (script.withState c m).2.changes = script.changes := rfl
  unfold LoadedScript.changing
  cases h : script.withState c m with
  | mk report script' =>
    rw [h] at hsame
    obtain ⟨ending, events⟩ := report
    cases ending with
    | done u =>
      change script'.changes.record change = script.changes.record change
      rw [hsame]
    | _ => exact hsame

theorem registerAll_changes (space : String) (fs : List (String × HostFunction)) (script : LoadedScript) :
    (LoadedScript.registerAll c space fs script).2.changes =
      (script.madeByAll c space fs).foldl Changes.record script.changes := by
  induction fs generalizing script with
  | nil => rfl
  | cons f fs ih =>
    have h : (script.registerFunction c space f.1 f.2).2.changes = _ := changing_changes _ _ script
    unfold LoadedScript.registerAll LoadedScript.madeByAll
    cases hr : script.registerFunction c space f.1 f.2 with
    | mk report script' =>
      change _ = if (script.registerFunction c space f.1 f.2).1.ending.result?.isSome then _ else _ at h
      rw [hr] at h
      obtain ⟨ending, events⟩ := report
      cases ending with
      | done u =>
        simp only [Ending.result?, Option.isSome_some, if_true, List.foldl_cons] at h ⊢
        rw [← h]
        exact ih script'
      | _ => exact h

theorem registerLibrary_changes (l : Host.Library) (script : LoadedScript) :
    (script.registerLibrary c l).2.changes =
      (script.madeByAll c l.name l.functions).foldl Changes.record script.changes := by
  rw [← registerAll_changes]
  unfold LoadedScript.registerLibrary
  cases hr : LoadedScript.registerAll c l.name l.functions script with
  | mk report script' =>
    obtain ⟨ending, events⟩ := report
    cases ending <;> rfl

theorem registerLibraries_changes (ls : List Host.Library) (script : LoadedScript) :
    (script.registerLibraries c ls).2.changes =
      (script.madeByLibraries c ls).foldl Changes.record script.changes := by
  induction ls generalizing script with
  | nil => rfl
  | cons l ls ih =>
    have h := registerLibrary_changes (c := c) l script
    unfold LoadedScript.registerLibraries LoadedScript.madeByLibraries
    cases hr : script.registerLibrary c l with
    | mk report script' =>
      rw [hr] at h
      obtain ⟨ending, events⟩ := report
      cases ending with
      | done u =>
        simp only [Ending.result?, Option.isSome_some, if_true, List.foldl_append]
        rw [← h]
        exact ih script'
      | _ =>
        rw [List.foldl_append, ← h]
        rfl

theorem reload_changes (files : Files) (script : LoadedScript) :
    (script.reload c files).2.changes = script.changes := by
  rcases reload_cases c files script with ⟨-, hsame⟩ | ⟨_, _, _, -, -, -, hnew⟩
  · rw [hsame]
  · rw [hnew]

theorem run_changes (a : Action) (files : Files) (script : LoadedScript) :
    (a.run c files script).2.changes = (a.made c script).foldl Changes.record script.changes := by
  cases a with
  | edit | getGlobal | runFunction | context | setHotReload | isStale => rfl
  | setGlobal name v =>
    have h : (script.setGlobal c name v).2.changes = _ := changing_changes _ _ script
    change _ = if (script.setGlobal c name v).1.ending.result?.isSome then _ else _ at h
    change (script.setGlobal c name v).2.changes = _
    rw [h, Action.made]
    split
    · rfl
    · rfl
  | registerFunction space name f =>
    rw [Action.made, ← registerAll_changes]
    change (script.registerFunction c space name f).2.changes = _
    unfold LoadedScript.registerAll
    cases hr : script.registerFunction c space name f with
    | mk report script' =>
      obtain ⟨ending, events⟩ := report
      cases ending <;> rfl
  | registerLibraries ls => exact registerLibraries_changes ls script
  | reload => exact reload_changes files script
  | reloadIfChanged now =>
    rcases reloadIfChanged_cases c script files now with ⟨-, hsame⟩ | ⟨-, -, -, -, hnew⟩
    · exact congrArg LoadedScript.changes hsame
    · exact (congrArg LoadedScript.changes hnew).trans (reload_changes now script)

/-- The record of a script is its history, recorded change by change. -/
theorem runAll_changes (as : List Action) (files : Files) (script : LoadedScript) :
    (Action.runAll c as files script).2.changes =
      (Action.history c as files script).foldl Changes.record script.changes := by
  induction as generalizing files script with
  | nil => rfl
  | cons a as ih =>
    rw [Action.history, List.foldl_append, ← run_changes a files script]
    exact ih (a.run c files script).1 (a.run c files script).2

/-- The changes that an action is to make. -/
def Action.requested : Action → Changes
  | .setGlobal name v => [.global name v]
  | .registerFunction space name f => [.function space name f]
  | .registerLibraries ls => ls.flatMap fun l => l.functions.map fun f => .function l.name f.1 f.2
  | _ => []

theorem madeByAll_subset (space : String) (fs : List (String × HostFunction)) (script : LoadedScript) :
    script.madeByAll c space fs ⊆ fs.map fun f => .function space f.1 f.2 := by
  induction fs generalizing script with
  | nil => exact List.Subset.refl _
  | cons f fs ih =>
    rw [LoadedScript.madeByAll]
    dsimp only
    split
    · exact List.cons_subset_cons _ (ih _)
    · exact List.nil_subset _

theorem madeByLibraries_subset (ls : List Host.Library) (script : LoadedScript) :
    script.madeByLibraries c ls ⊆ ls.flatMap fun l => l.functions.map fun f => .function l.name f.1 f.2 := by
  induction ls generalizing script with
  | nil => exact List.Subset.refl _
  | cons l ls ih =>
    rw [LoadedScript.madeByLibraries, List.flatMap_cons]
    dsimp only
    refine List.append_subset.2 ⟨List.subset_append_of_subset_left _ (madeByAll_subset _ _ _), ?_⟩
    split
    · exact List.subset_append_of_subset_right _ (ih _)
    · exact List.nil_subset _

theorem made_subset (a : Action) (script : LoadedScript) : a.made c script ⊆ a.requested := by
  cases a with
  | setGlobal name v =>
    rw [Action.made]
    split
    · exact List.Subset.refl _
    · exact List.nil_subset _
  | registerFunction space name f => exact madeByAll_subset space [(name, f)] script
  | registerLibraries ls => exact madeByLibraries_subset ls script
  | _ => exact List.nil_subset _

/-- A history holds nothing that no action was to do. -/
theorem history_subset (as : List Action) (files : Files) (script : LoadedScript) :
    Action.history c as files script ⊆ as.flatMap Action.requested := by
  induction as generalizing files script with
  | nil => exact List.Subset.refl _
  | cons a as ih =>
    rw [Action.history, List.flatMap_cons]
    exact List.append_subset.2 ⟨List.subset_append_of_subset_left _ (made_subset a script),
      List.subset_append_of_subset_right _ (ih _ _)⟩

end History

/-! ### Building a state from its history -/

/-- A reload with fitting changes succeeds, and its state is the one that their ledger describes on top
of what the text leaves by itself. -/
theorem rebuild_run {catalog : Catalog} {c : Channel} (hc : c.Serves catalog) {chunkName source : String}
    {events : List Event} {s₀ : State}
    (hexec : perform c (LoadedScript.execute chunkName source) State.fresh = (⟨.done (), events⟩, s₀))
    (hindex : (Value.table s₀.globals).handler s₀ "__index" = .nil)
    (hnewindex : (Value.table s₀.globals).handler s₀ "__newindex" = .nil) {cs : Changes} (hcs : Fitting s₀ cs) :
    Plain s₀ ∧ ∃ events' place t,
      perform c (LoadedScript.rebuild chunkName source cs) State.fresh = (⟨.done (), events'⟩, t) ∧
      Realizes s₀ (.ofChanges (held s₀) (cs.map (·.resolve (held s₀) s₀.globals))) place t := by
  have hfresh : ({ State.fresh with log := [] } : State) = State.fresh := rfl
  unfold perform at hexec
  rw [hfresh] at hexec
  cases hrun : LoadedScript.execute chunkName source c ⟨[], State.fresh⟩ with
  | failed | stopped | exhausted =>
    rw [hrun] at hexec
    cases hexec
  | done u f =>
    rw [hrun] at hexec
    obtain ⟨-, rfl⟩ := Prod.mk.inj hexec
    obtain ⟨hstack, hs⟩ := execute_secluded hc State.fresh_secluded hrun
    obtain ⟨st, s⟩ := f
    obtain rfl : st = [] := hstack
    have hp : Plain { s with log := [] } := ⟨hs.relog [], hindex, hnewindex⟩
    have hstart : Realizes { s with log := [] } .empty (fun _ => 0) s :=
      (Realizes.refl { s with log := [] } _).extend hp.lt (.relog _ s.log)
    obtain ⟨place, t, hchanges, ht⟩ := changes_run hp hcs (List.Subset.refl cs) (.empty _ _) hstart c []
    refine ⟨hp, t.log.reverse, place, { t with log := [] }, ?_, ht.extend hp.lt (.relog t [])⟩
    have hall : LoadedScript.rebuild chunkName source cs c ⟨[], State.fresh⟩ = .done () ⟨[], t⟩ := by
      rw [LoadedScript.rebuild, bind_done hrun, bind_done hchanges]
      rfl
    rw [perform, hfresh, hall]

/-- What a table of the script may hold under a torn name: what the script left there, or a function
that the host registered there. -/
def OwnOrRegistered (s₀ : State) (cs : Changes) (s : State) (r : TableRef) (k : Value) : Prop :=
  s.rawGet r k = s₀.rawGet r k ∨
    ∃ n m f, k.asKey = .ofString m ∧ held s₀ n = some r ∧ .function n m f ∈ cs ∧ Wraps s f (s.rawGet r k)

/-- The entries of tables of the script that recording may lose. -/
def TornEntry (s₀ : State) (cs : Changes) (r : TableRef) (k : Value) : Prop :=
  ∃ m, k.asKey = .ofString m ∧ Ledger.Torn (held s₀) (cs.map (·.resolve (held s₀) s₀.globals)) r m

theorem function_mem_of_resolve {held : String → Option TableRef} {globals : TableRef} {cs : Changes}
    {n k : String} {f : HostFunction} (h : .function n k f ∈ cs.map (·.resolve held globals)) :
    .function n k f ∈ cs ∧ held n ≠ some globals := by
  obtain ⟨c, hc, he⟩ := List.mem_map.1 h
  cases c with
  | global => cases he
  | function n' k' f' =>
    rw [Change.resolve] at he
    split at he
    · cases he
    next hn =>
      cases he
      exact ⟨hc, hn⟩

theorem Realizes.ownOrRegistered {s₀ s : State} {place : String → Nat} {cs all : Changes} (hp : Plain s₀)
    (h : Realizes s₀ (.ofChanges (held s₀) (cs.map (·.resolve (held s₀) s₀.globals))) place s) (hcs : cs ⊆ all)
    {r : TableRef} {k : Value} (ht : TornEntry s₀ all r k) : OwnOrRegistered s₀ all s r k := by
  obtain ⟨m, -, n, f, v, hr, hf, -⟩ := ht
  have hrg : r ≠ s₀.globals := by
    rintro rfl
    exact (function_mem_of_resolve hf).2 hr
  rcases h.rawGet_cases (held_lt hp.closed hr) hrg k with hown | ⟨m, g, hk, hg, hw⟩
  · exact .inl hown
  · obtain ⟨n', hn', hmem⟩ := (Ledger.sourced_ofChanges (List.Subset.refl _)).written r m g hg
    exact .inr ⟨n', m, g, hk, hn', hcs (function_mem_of_resolve hmem).1, hw⟩

/-! ### Reloading -/

/-- Whatever has happened to a script since it was opened, a reload does what its whole history would do
in its order. Say that the text of its file runs in a new state and leaves handlers of its own out of
the way of the changes in that history. Then the whole history can be made again after it, the reload
succeeds too, and both states are alike but for torn entries; under those, each of the two holds what
the text left there or a function that the host registered there. -/
theorem reload_replays_history (catalog : Catalog) {files₀ files : Files} {path chunkName source : String}
    {hotReload : Bool} {script₀ script : LoadedScript} {events events' : List Event} {as : List Action} {s₀ : State}
    (hopen : LoadedScript.openFile (outermost catalog) files₀ path chunkName hotReload = ⟨.done script₀, events⟩)
    (hrun : Action.runAll (outermost catalog) as files₀ script₀ = (files, script))
    (hread : files.readText script.path = .ok source)
    (hexec : perform (outermost catalog) (LoadedScript.execute script.chunkName source) State.fresh =
      (⟨.done (), events'⟩, s₀))
    (hindex : (Value.table s₀.globals).handler s₀ "__index" = .nil)
    (hnewindex : (Value.table s₀.globals).handler s₀ "__newindex" = .nil)
    (hfit : Fitting s₀ (Action.history (outermost catalog) as files₀ script₀)) :
    ∃ full t, perform (outermost catalog) (LoadedScript.rebuild script.chunkName source
        (Action.history (outermost catalog) as files₀ script₀)) State.fresh = (⟨.done (), full⟩, t) ∧
      (script.reload (outermost catalog) files).1.ending = .done () ∧
      (∃ p, Alike p (TornEntry s₀ (Action.history (outermost catalog) as files₀ script₀)) t
        (script.reload (outermost catalog) files).2.state) ∧
      ∀ r k, TornEntry s₀ (Action.history (outermost catalog) as files₀ script₀) r k →
        ∀ s ∈ [t, (script.reload (outermost catalog) files).2.state],
          OwnOrRegistered s₀ (Action.history (outermost catalog) as files₀ script₀) s r k := by
  have hserves := outermost_serves catalog
  have hnone : script₀.changes = [] := by
    obtain ⟨_, _, _, -, -, rfl⟩ := openFile_cases hopen
    rfl
  have hchanges := runAll_changes (c := outermost catalog) as files₀ script₀
  rw [hrun, hnone] at hchanges
  generalize Action.history (outermost catalog) as files₀ script₀ = history at hchanges hfit ⊢
  have hkept : script.changes ⊆ history := by
    rw [hchanges]
    exact Ledger.foldl_record_subset (List.nil_subset _) (List.Subset.refl _)
  obtain ⟨hp, full, place, t, hfull, ht⟩ := rebuild_run hserves hexec hindex hnewindex hfit
  obtain ⟨-, kept, place', t', hkeep, ht'⟩ := rebuild_run hserves hexec hindex hnewindex (hfit.subset hkept)
  have hreload : script.reload (outermost catalog) files =
      (⟨.done (), kept ++ [⟨.script, .info, script.reloadedMessage⟩]⟩,
        { script with state := t', fingerprint := Live.fingerprint source }) := by
    rw [LoadedScript.reload, hread]
    simp only [hkeep]
  have hagrees := Ledger.agrees_resolve (held s₀) history s₀.globals
  rw [← hchanges] at hagrees
  rw [hreload]
  refine ⟨full, t, hfull, rfl, ⟨_, alike_of_agrees hp ht ht' hagrees⟩, fun r k htorn s hs => ?_⟩
  rcases List.mem_pair.1 hs with rfl | rfl
  · exact ht.ownOrRegistered hp (List.Subset.refl _) htorn
  · exact ht'.ownOrRegistered hp hkept htorn

/-! ### A session -/

/-- The script that `main.lua` makes with the text, if that loads. -/
def mainScript (c : Channel) (text : String) : LoadedScript where
  path := "main.lua"
  chunkName := "main.lua"
  hotReload := false
  fingerprint := Live.fingerprint text
  state := (perform c (LoadedScript.execute "main.lua" text) State.fresh).2

theorem toOption_eq_some {ε α : Type} {x : Except ε α} {a : α} (h : x.toOption = some a) : x = .ok a := by
  cases x with
  | error e => cases h
  | ok b => exact congrArg _ (Option.some.inj h)

theorem result?_isSome {e : Ending Unit} (h : e.result?.isSome = true) : e = .done () := by
  cases e with
  | done u => rfl
  | _ => cases h

theorem openFile_mainScript {c : Channel} {text : String}
    (hload : (perform c (LoadedScript.execute "main.lua" text) State.fresh).1.ending.result?.isSome = true)
    (hread : ((mainFile text).readText "main.lua").toOption = some text) :
    ∃ events, LoadedScript.openFile c (mainFile text) "main.lua" "main.lua" false =
      ⟨.done (mainScript c text), events⟩ := by
  rw [LoadedScript.openFile, toOption_eq_some hread]
  simp only [mainScript]
  cases hexec : perform c (LoadedScript.execute "main.lua" text) State.fresh with
  | mk report s =>
    obtain ⟨ending, events⟩ := report
    rw [hexec] at hload
    obtain rfl := result?_isSome hload
    exact ⟨_, rfl⟩

/-- The host makes changes twice and thrice, and then the script has another text. -/
def sharedSession : List Action :=
  [.setGlobal "N" (.boolean true), .registerFunction "A" "f" ⟨"ping"⟩, .setGlobal "A" (.table []),
   .registerFunction "A" "f" ⟨"ping"⟩, .setGlobal "N" (.boolean false), .registerFunction "A" "g" ⟨"ping"⟩,
   .edit (mainFile "A = {}; B = A")]

/-- What the text leaves by itself. -/
def sharedState : State :=
  (perform (outermost Samples.catalog) (LoadedScript.execute "main.lua" "A = {}; B = A") State.fresh).2

theorem metatable?_sharedState (q : TableRef) : sharedState.metatable? q = none := by
  have hall : ∀ t ∈ sharedState.tables.toList, t.metatable = none := by decide +kernel
  rw [State.metatable?, State.table, Array.getD_eq_getD_getElem?]
  cases h : sharedState.tables[q]? with
  | none => rfl
  | some t => exact hall t (Array.mem_toList_iff.2 (Array.mem_of_getElem? h))

theorem sharedSession_fitting (files : Files) (script : LoadedScript) :
    Fitting sharedState (Action.history (outermost Samples.catalog) sharedSession files script) := by
  have hA : held sharedState "A" ≠ some sharedState.globals := by decide +kernel
  have hall : Fitting sharedState (sharedSession.flatMap Action.requested) := by
    refine fitting_of_no_metatable metatable?_sharedState ?_ ?_
    · intro n v hv
      simp [sharedSession, Action.requested] at hv
      rcases hv with ⟨-, rfl⟩ | ⟨-, rfl⟩ | ⟨-, rfl⟩
      · trivial
      · trivial
      · trivial
    · intro n k f hf
      simp [sharedSession, Action.requested] at hf
      rcases hf with ⟨rfl, -⟩ | ⟨rfl, -⟩
      · exact hA
      · exact hA
  exact hall.subset (history_subset sharedSession files script)

/-- The script shares its table `A` with `B`. The whole history registers `f` in it; the record has only
the second registration of `f`, which comes after the host has set `A`. -/
theorem reload_replays_history_shared_table :
    ∃ script₀ events files script full t p,
      LoadedScript.openFile (outermost Samples.catalog) (mainFile "Version = 1") "main.lua" "main.lua" false =
        ⟨.done script₀, events⟩ ∧
      Action.runAll (outermost Samples.catalog) sharedSession (mainFile "Version = 1") script₀ = (files, script) ∧
      perform (outermost Samples.catalog) (LoadedScript.rebuild script.chunkName "A = {}; B = A"
        (Action.history (outermost Samples.catalog) sharedSession (mainFile "Version = 1") script₀)) State.fresh =
        (⟨.done (), full⟩, t) ∧
      (script.reload (outermost Samples.catalog) files).1.ending = .done () ∧
      Alike p (TornEntry sharedState
          (Action.history (outermost Samples.catalog) sharedSession (mainFile "Version = 1") script₀)) t
        (script.reload (outermost Samples.catalog) files).2.state := by
  have hload : (perform (outermost Samples.catalog) (LoadedScript.execute "main.lua" "A = {}; B = A")
      State.fresh).1.ending.result?.isSome = true := by decide +kernel
  obtain ⟨events, hopen⟩ : ∃ events, LoadedScript.openFile (outermost Samples.catalog) (mainFile "Version = 1")
      "main.lua" "main.lua" false = ⟨.done (mainScript (outermost Samples.catalog) "Version = 1"), events⟩ :=
    openFile_mainScript (by decide +kernel) (by decide +kernel)
  cases hrun : Action.runAll (outermost Samples.catalog) sharedSession (mainFile "Version = 1")
      (mainScript (outermost Samples.catalog) "Version = 1") with
  | mk files script =>
    have hread : ((Action.runAll (outermost Samples.catalog) sharedSession (mainFile "Version = 1")
        (mainScript (outermost Samples.catalog) "Version = 1")).1.readText "main.lua").toOption =
          some "A = {}; B = A" := by decide +kernel
    have hname : (Action.runAll (outermost Samples.catalog) sharedSession (mainFile "Version = 1")
        (mainScript (outermost Samples.catalog) "Version = 1")).2.path = "main.lua" ∧
        (Action.runAll (outermost Samples.catalog) sharedSession (mainFile "Version = 1")
          (mainScript (outermost Samples.catalog) "Version = 1")).2.chunkName = "main.lua" := by decide +kernel
    rw [hrun] at hread hname
    obtain ⟨hpath, hchunk⟩ := hname
    cases hexec : perform (outermost Samples.catalog) (LoadedScript.execute "main.lua" "A = {}; B = A")
        State.fresh with
    | mk report s =>
      obtain ⟨ending, events'⟩ := report
      rw [hexec] at hload
      obtain rfl := result?_isSome hload
      obtain rfl : sharedState = s := by rw [sharedState, hexec]
      rw [← hchunk] at hexec
      obtain ⟨full, t, hfull, hdone, ⟨p, halike⟩, -⟩ := reload_replays_history Samples.catalog hopen hrun
        (hpath ▸ toOption_eq_some hread) hexec (State.handler_of_metatable? (metatable?_sharedState _) _)
        (State.handler_of_metatable? (metatable?_sharedState _) _) (sharedSession_fitting _ _)
      exact ⟨_, events, files, script, full, t, p, hopen, hrun, hfull, hdone, halike⟩

/-! ### Losses -/

/-- What recording would have to live up to in every session with one text. If the whole history can be
made again after the text, a reload succeeds with a state that is alike in every entry. -/
def LosesNothing (c : Channel) (text : String) (as : List Action) : Prop :=
  ∀ script₀ events files script full t,
    LoadedScript.openFile c (mainFile text) "main.lua" "main.lua" false = ⟨.done script₀, events⟩ →
    Action.runAll c as (mainFile text) script₀ = (files, script) →
    files.readText script.path = .ok text →
    perform c (LoadedScript.rebuild script.chunkName text (Action.history c as (mainFile text) script₀))
      State.fresh = (⟨.done (), full⟩, t) →
    (script.reload c files).1.ending = .done () ∧
      ∃ p, Alike p (fun _ _ => False) t (script.reload c files).2.state

/-- No pairing makes the values the same. -/
def differ : Value → Value → Bool
  | .table _, .table _ | .function _, .function _ => false
  | v, w => v != w

theorem not_values_of_differ {v w : Value} (h : differ v w = true) (p : Pairing) : ¬p.Values v w := by
  intro hvw
  unfold differ at h
  split at h
  · cases h
  · cases h
  next htables hfunctions =>
    rw [bne_iff_ne] at h
    rcases hvw.cases with ⟨he, -⟩ | ⟨hv, hw⟩
    · exact h he
    · cases v with
      | table r =>
        cases w with
        | table r' => exact htables r r' rfl rfl
        | _ => cases hvw
      | function r =>
        cases w with
        | function r' => exact hfunctions r r' rfl rfl
        | _ => cases hvw
      | _ => cases hv

/-- Runs a session on a text that loads and stays, and compares a reload with its whole history: the
reload fails, or the values at the end of a path differ. -/
def showsLoss (c : Channel) (text : String) (as : List Action) (path : List String) : Bool :=
  let (files, script) := Action.runAll c as (mainFile text) (mainScript c text)
  let history := Action.history c as (mainFile text) (mainScript c text)
  let (full, t) := perform c (LoadedScript.rebuild script.chunkName text history) State.fresh
  let (report, script') := script.reload c files
  (perform c (LoadedScript.execute "main.lua" text) State.fresh).1.ending.result?.isSome
    && ((mainFile text).readText "main.lua").toOption == some text
    && (files.readText script.path).toOption == some text
    && full.ending.result?.isSome
    && (report.ending.result?.isNone
      || differ (follow t (.table t.globals) path) (follow script'.state (.table script'.state.globals) path))

theorem not_losesNothing {c : Channel} {text : String} {as : List Action} (path : List String)
    (h : showsLoss c text as path = true) : ¬LosesNothing c text as := by
  intro hall
  simp only [showsLoss, Bool.and_eq_true, Bool.or_eq_true, beq_iff_eq] at h
  obtain ⟨⟨⟨⟨hload, hopen⟩, hread⟩, hfull⟩, hloss⟩ := h
  obtain ⟨events, hopened⟩ := openFile_mainScript hload hopen
  cases hreplay : perform c (LoadedScript.rebuild
      (Action.runAll c as (mainFile text) (mainScript c text)).2.chunkName text
      (Action.history c as (mainFile text) (mainScript c text))) State.fresh with
  | mk report t =>
    obtain ⟨ending, full⟩ := report
    rw [hreplay] at hfull hloss
    obtain rfl := result?_isSome hfull
    obtain ⟨hdone, p, halike⟩ := hall _ events _ _ full t hopened rfl (toOption_eq_some hread) hreplay
    rw [hdone] at hloss
    rcases hloss with hnone | hdiffer
    · cases hnone
    · exact not_values_of_differ hdiffer p (halike.follow path)

/-- Recording loses a registration that went into a table of the script. Where the script has handlers,
where the host makes one, or where it moves the table of globals, recording loses more, and even a
reload that fails. -/
theorem recording_loses :
    ¬LosesNothing (outermost Samples.catalog) "A = {}; B = A"
      [.setGlobal "A" (.table [("x", .boolean true)]), .registerFunction "A" "f" ⟨"ping"⟩,
       .setGlobal "A" (.table [("y", .boolean true)])] ∧
    ¬LosesNothing (outermost Samples.catalog) "N = 0; setmetatable(_G, {__newindex = function() N = N + 1 end})"
      [.setGlobal "X" (.boolean true), .setGlobal "X" (.boolean true)] ∧
    ¬LosesNothing (outermost Samples.catalog) "N = 0; setmetatable(_G, {__index = function() N = N + 1 end})"
      [.setGlobal "A" (.table []), .registerFunction "A" "f" ⟨"ping"⟩, .setGlobal "A" (.table [])] ∧
    ¬LosesNothing (outermost Samples.catalog)
      "N = 0; A = setmetatable({}, {__newindex = function() N = N + 1 end})"
      [.registerFunction "A" "f" ⟨"ping"⟩, .registerFunction "A" "f" ⟨"ping"⟩] ∧
    ¬LosesNothing (outermost Samples.catalog) "M = {}; setmetatable(_G, M)"
      [.setGlobal "X" (.boolean true), .registerFunction "M" "__newindex" ⟨"refuse"⟩,
       .setGlobal "X" (.boolean false)] ∧
    ¬LosesNothing (outermost Samples.catalog) "X = 1"
      [.setGlobal "_G" (.table []), .registerFunction "_G" "Y" ⟨"ping"⟩, .setGlobal "_G" (.boolean true)] :=
  ⟨not_losesNothing ["B", "f"] (by decide +kernel), not_losesNothing ["N"] (by decide +kernel),
    not_losesNothing ["N"] (by decide +kernel), not_losesNothing ["N"] (by decide +kernel),
    not_losesNothing [] (by decide +kernel), not_losesNothing ["Y"] (by decide +kernel)⟩

end ScriptHost.Live
