import ScriptHost.Logging.Basic

/-! Setting up the log, again and again. The first setup that can be made decides where records go and which
of them, for good. A setup that fails leaves the log as it was, and the files too, but for one: where there
is a subscriber already, the file that is named is made empty before that is noticed. -/

namespace ScriptHost

/-! ### Files that stay -/

namespace Files

/-- What files hold in the first tree they hold in the second, at all of these places. -/
def Keeps (among : List String → Prop) (fs gs : Files) : Prop :=
  ∀ place content, among place → fs.node? place = some (.file content) → gs.node? place = some (.file content)

variable {among : List String → Prop} {fs gs hs : Files}

theorem Keeps.refl (among : List String → Prop) (fs : Files) : Keeps among fs fs := fun _ _ _ h => h

theorem Keeps.trans (h : Keeps among fs gs) (h' : Keeps among gs hs) : Keeps among fs hs :=
  fun place content hp hf => h' place content hp (h place content hp hf)

theorem lookup_filter_of_ne {p q : List String} (h : q ≠ p) (nodes : List (List String × FileNode)) :
    (nodes.filter (·.1 != p)).lookup q = nodes.lookup q := by
  induction nodes with
  | nil => rfl
  | cons e nodes ih =>
    by_cases he : e.1 = p
    · have hq : (q == e.1) = false := beq_false_of_ne (he ▸ h)
      rw [List.filter_cons_of_neg (by simp [he]), ih, List.lookup_cons, hq]
    · rw [List.filter_cons_of_pos (by simp [he]), List.lookup_cons, List.lookup_cons, ih]

theorem node?_put (fs : Files) {p : List String} (hp : p ≠ []) (n : FileNode) (q : List String) :
    (fs.put p n).node? q = if q = p then some n else fs.node? q := by
  cases q with
  | nil => simp [node?, hp.symm]
  | cons step rest =>
    simp only [node?, put, List.isEmpty_cons, Bool.false_eq_true, if_false, List.lookup_cons]
    by_cases h : step :: rest = p
    · simp [h]
    · simp [h, beq_false_of_ne h, lookup_filter_of_ne h]

/-- A place without a file can be taken. -/
theorem keeps_put (fs : Files) {p : List String} (hp : p ≠ []) (n : FileNode)
    (h : ∀ content, among p → fs.node? p ≠ some (.file content)) : Keeps among fs (fs.put p n) := by
  intro q content hq hf
  rw [node?_put fs hp, if_neg]
  · exact hf
  · rintro rfl
    exact h content hq hf

theorem ne_nil_of_node? {p : List String} (h : fs.node? p ≠ some .directory) : p ≠ [] := by
  rintro rfl
  exact h rfl

theorem makeDirectory_keeps {steps : List String} (h : fs.makeDirectory steps = .ok gs) : Keeps among fs gs := by
  simp only [makeDirectory, bind, Except.bind] at h
  split at h
  · cases h
  next p hp =>
    cases hn : fs.node? p with
    | some n =>
      rw [hn] at h
      cases h
    | none =>
      rw [hn] at h
      cases h
      have hp : p ≠ [] := ne_nil_of_node? (by rw [hn]; exact nofun)
      exact keeps_put fs hp .directory fun content _ hc => by
        rw [hn] at hc
        cases hc

theorem makeUnlessThere_keeps (fs : Files) (steps : List String) : Keeps among fs (fs.makeUnlessThere steps).2 := by
  rw [makeUnlessThere]
  cases hmade : fs.makeDirectory steps with
  | ok gs => exact makeDirectory_keeps hmade
  | error e => exact .refl _ _

/-- The directories on the way to a path are made without loss, whether all of them can be made or not. -/
theorem makeDirectories_keeps (fs : Files) (fuel : Nat) (steps : List String) :
    Keeps among fs (fs.makeDirectories fuel steps).2 := by
  induction fuel generalizing steps with
  | zero => exact .refl _ _
  | succ fuel ih =>
    rw [makeDirectories]
    split
    · exact .refl _ _
    · split
      · -- the parents are made first
        have hparents := ih steps.dropLast
        split
        next hmade =>
          rw [hmade] at hparents
          exact hparents.trans (makeUnlessThere_keeps _ steps)
        next => exact hparents
      · exact makeUnlessThere_keeps fs steps

theorem makeParents_keeps (fs : Files) (path : String) : Keeps among fs (fs.makeParents path).2 := by
  simp only [makeParents]
  split
  · exact .refl _ _
  · exact makeDirectories_keeps _ _ _

/-- A file that is created is empty, and no other file has changed. -/
theorem create_keeps {path : String} {p : List String} (h : fs.create path = .ok (p, gs)) :
    gs.node? p = some (.file .empty) ∧ Keeps (· ≠ p) fs gs := by
  simp only [create, bind, Except.bind] at h
  split at h
  · cases h
  next q hq =>
    have hput (hdirectory : fs.node? q ≠ some .directory) :
        (fs.put q (.file .empty)).node? q = some (.file .empty) ∧
          Keeps (· ≠ q) fs (fs.put q (.file .empty)) := by
      have hne := ne_nil_of_node? hdirectory
      exact ⟨by rw [node?_put fs hne, if_pos rfl], keeps_put fs hne _ fun _ hc => absurd rfl hc⟩
    cases hn : fs.node? q with
    | none =>
      simp only [hn] at h
      split at h
      · cases h
      · cases h
        exact hput (by rw [hn]; exact nofun)
    | some n =>
      cases n with
      | directory =>
        simp only [hn] at h
        cases h
      | file content =>
        simp only [hn] at h
        split at h
        · cases h
        · cases h
          exact hput (by rw [hn]; exact nofun)

end Files

namespace Logging

open Host (Error)

variable {files : Files} {path : String}

/-! ### Opening a log file -/

/-- What cannot be opened leaves every file as it was. What is opened is empty then, and every other file is as
it was. -/
theorem openFile_cases (files : Files) (path : String) :
    (∃ e files', Log.openFile files path = (.error (.file e), files') ∧ files.Keeps (fun _ => True) files') ∨
      ∃ place files', Log.openFile files path = (.ok { place }, files') ∧
        files'.node? place = some (.file .empty) ∧ files.Keeps (· ≠ place) files' := by
  have hparents (among : List String → Prop) : files.Keeps among (files.makeParents path).2 :=
    Files.makeParents_keeps files path
  cases hmake : files.makeParents path with
  | mk result made =>
    rw [hmake] at hparents
    cases result with
    | error e => exact .inl ⟨e, made, by rw [Log.openFile, hmake], hparents _⟩
    | ok =>
      cases hcreate : made.create path with
      | error e => exact .inl ⟨e, made, by simp only [Log.openFile, hmake, hcreate], hparents _⟩
      | ok created =>
        obtain ⟨place, files'⟩ := created
        obtain ⟨hempty, hkeeps⟩ := Files.create_keeps hcreate
        exact .inr ⟨place, files', by simp only [Log.openFile, hmake, hcreate], hempty, (hparents _).trans hkeeps⟩

theorem openFile_error {e : Error} {files' : Files} (h : Log.openFile files path = (.error e, files')) :
    e.code = .io ∧ files.Keeps (fun _ => True) files' := by
  rcases openFile_cases files path with ⟨_, _, hopen, hkeeps⟩ | ⟨_, _, hopen, -⟩
  · cases hopen.symm.trans h
    exact ⟨rfl, hkeeps⟩
  · cases hopen.symm.trans h

theorem openFile_ok {file : LogFile} {files' : Files} (h : Log.openFile files path = (.ok file, files')) :
    files'.node? file.place = some (.file .empty) ∧ files.Keeps (· ≠ file.place) files' := by
  rcases openFile_cases files path with ⟨_, _, hopen, -⟩ | ⟨_, _, hopen, hcontents⟩
  · cases hopen.symm.trans h
  · cases hopen.symm.trans h
    exact hcontents

/-! ### The life of a log -/

/-- A call that sets a log up, or a record. -/
inductive Step where
  | init (directives : String) (settings : LogSettings)
  | console (directives level : String)
  | record (r : Record)

namespace Log

/-- The log after a step. -/
def step (l : Log) : Step → Log
  | .init directives settings => (l.start directives settings).2
  | .console directives level => l.startConsole directives level
  | .record r => l.record r

def run (l : Log) (steps : List Step) : Log := steps.foldl step l

/-- The subscriber that a step would give to a log without one. -/
def offered? (l : Log) : Step → Option Subscriber
  | .init directives settings =>
    (openFile l.files settings.file).1.toOption.map fun file => ⟨.ofSettings directives settings.level, some file⟩
  | .console directives level => some ⟨.ofSettings directives level, none⟩
  | .record _ => none

/-- The first subscriber that is offered along the steps. -/
def firstOffer? (l : Log) : List Step → Option Subscriber
  | [] => none
  | step :: rest => (l.offered? step).or (firstOffer? (l.step step) rest)

end Log

/-- The same filter and the same file, however far that has been written. -/
def Subscriber.Same (s t : Subscriber) : Prop := t.filter = s.filter ∧ t.file.map (·.place) = s.file.map (·.place)

theorem Subscriber.Same.refl (s : Subscriber) : s.Same s := ⟨rfl, rfl⟩

theorem Subscriber.Same.trans {s t u : Subscriber} (h : s.Same t) (h' : t.Same u) : s.Same u :=
  ⟨h'.1.trans h.1, h'.2.trans h.2⟩

section Steps

variable {l : Log} {s : Subscriber}

/-- A step leaves a log with a subscriber that subscriber. -/
theorem subscriber_step (hl : l.subscriber = some s) (step : Step) :
    ∃ t, (l.step step).subscriber = some t ∧ s.Same t := by
  cases step with
  | init directives settings =>
    refine ⟨s, ?_, .refl s⟩
    rw [Log.step, Log.start]
    split
    · exact hl
    · exact hl
    next hnone =>
      rw [hl] at hnone
      cases hnone
  | console directives level =>
    refine ⟨s, ?_, .refl s⟩
    rw [Log.step, Log.startConsole, hl]
    exact hl
  | record r =>
    rw [Log.step, Log.record, hl]
    by_cases hadmits : s.filter.admits r.target r.level
    · cases hfile : s.file with
      | none =>
        simp only [hadmits, if_true, hfile]
        exact ⟨s, rfl, .refl s⟩
      | some file =>
        simp only [hadmits, if_true, hfile]
        exact ⟨_, rfl, rfl, by rw [hfile]; rfl⟩
    · simp only [hadmits]
      exact ⟨s, hl, .refl s⟩

theorem subscriber_run (hl : l.subscriber = some s) (steps : List Step) :
    ∃ t, (l.run steps).subscriber = some t ∧ s.Same t := by
  induction steps generalizing l s with
  | nil => exact ⟨s, hl, .refl s⟩
  | cons step rest ih =>
    obtain ⟨t, ht, hst⟩ := subscriber_step hl step
    obtain ⟨u, hu, htu⟩ := ih ht
    exact ⟨u, hu, hst.trans htu⟩

/-- A log without a subscriber takes what a step offers. -/
theorem subscriber_step_of_none (hl : l.subscriber = none) (step : Step) :
    (l.step step).subscriber = l.offered? step := by
  cases step with
  | init directives settings =>
    rw [Log.step, Log.start, Log.offered?, hl]
    obtain ⟨opened, files'⟩ := Log.openFile l.files settings.file
    cases opened with
    | error e => rfl
    | ok file => rfl
  | console directives level => rw [Log.step, Log.startConsole, Log.offered?, hl]
  | record r =>
    rw [Log.step, Log.record, Log.offered?, hl]
    exact hl

/-- The subscriber of a log is the first that was offered. -/
theorem subscriber_run_of_none (hl : l.subscriber = none) (steps : List Step) :
    Option.Rel Subscriber.Same (l.firstOffer? steps) (l.run steps).subscriber := by
  induction steps generalizing l with
  | nil =>
    rw [Log.firstOffer?, Log.run, List.foldl_nil, hl]
    exact .none
  | cons step rest ih =>
    have hstep := subscriber_step_of_none hl step
    rw [Log.firstOffer?]
    change Option.Rel _ _ ((l.step step).run rest).subscriber
    cases hoffer : l.offered? step with
    | none =>
      rw [hoffer] at hstep
      exact ih hstep
    | some s =>
      rw [hoffer] at hstep
      obtain ⟨t, ht, hst⟩ := subscriber_run hstep rest
      rw [ht]
      exact .some hst

end Steps

/-! ### Any sequence of setups -/

/-- Setups and records in any order, from any files on. The subscriber is the first that was offered. After
that a setup to the console does nothing, and one to a file fails: with `io` if the file cannot be opened, and
then every file is kept, and with `config` if it can, and then that file is empty, the log's own or not, and
every other one is kept. No setup that fails changes the subscriber or what has been written to standard
output. One whose file cannot be opened may leave directories that it has made, whether there is a subscriber
or not. -/
theorem setups_in_any_order (files : Files) (steps : List Step) (directives level : String)
    (settings : LogSettings) :
    let before : Log := { files }
    let l := before.run steps
    Option.Rel Subscriber.Same (before.firstOffer? steps) l.subscriber ∧
    (l.subscriber ≠ none → l.startConsole directives level = l) ∧
    (∀ e files', Log.openFile l.files settings.file = (.error e, files') →
      l.start directives settings = (.error e, { l with files := files' }) ∧ e.code = .io ∧
        l.files.Keeps (fun _ => True) files') ∧
    ∀ file files', Log.openFile l.files settings.file = (.ok file, files') →
      (l.subscriber = none → l.start directives settings =
        (.ok (), { l with files := files', subscriber := some ⟨.ofSettings directives settings.level, some file⟩ })) ∧
      (l.subscriber ≠ none → l.start directives settings = (.error .loggingTaken, { l with files := files' })) ∧
      Error.loggingTaken.code = .config ∧
      files'.node? file.place = some (.file .empty) ∧ l.files.Keeps (· ≠ file.place) files' := by
  intro before l
  refine ⟨subscriber_run_of_none rfl steps, ?console, ?unopened, ?opened⟩
  case console =>
    intro hl
    rw [Log.startConsole]
    split
    · rfl
    next hnone => exact absurd hnone hl
  case unopened =>
    intro e files' h
    rw [Log.start, h]
    exact ⟨rfl, openFile_error h⟩
  case opened =>
    intro file files' h
    refine ⟨?_, ?_, rfl, openFile_ok h⟩
    · intro hl
      rw [Log.start, h, hl]
    · intro hl
      obtain ⟨s, hs⟩ := Option.ne_none_iff_exists'.mp hl
      rw [Log.start, h, hs]

/-- A second setup of a log that has been written to, with another file. -/
theorem setups_in_any_order_elsewhere :
    let steps : List Step := [.init "" { file := "sl.log" }, .record ⟨.warn, "host", "two"⟩]
    let l := ({} : Log).run steps
    let again := l.start "" { file := "other.log" }
    again.1 = .error .loggingTaken ∧
      again.2.files.node? ["sl.log"] = some (.file "WARN host: two\n".toUTF8) := by
  intro steps l again
  obtain ⟨-, -, -, hopened⟩ := setups_in_any_order {} steps "" "info" { file := "other.log" }
  obtain ⟨-, htaken, -, -, hkeeps⟩ := hopened ⟨["other.log"], 0⟩ again.2.files rfl
  have hfails : again = (.error .loggingTaken, { l with files := again.2.files }) := htaken nofun
  refine ⟨by rw [hfails], hkeeps ["sl.log"] _ (by decide) ?_⟩
  decide +kernel

/-- A second setup of a log that has been written to, with its own file. What has been written is gone, and the
next record stands behind as many zeros. -/
theorem setup_empties_log :
    let steps : List Step := [.init "" { file := "sl.log" }, .record ⟨.warn, "host", "two"⟩]
    let l := ({} : Log).run steps
    let again := l.start "" { file := "sl.log" }
    again.1 = .error .loggingTaken ∧
      l.files.node? ["sl.log"] = some (.file "WARN host: two\n".toUTF8) ∧
      again.2.files.node? ["sl.log"] = some (.file .empty) ∧
      (again.2.record ⟨.error, "host", "one"⟩).files.node? ["sl.log"] =
        some (.file (List.replicate 15 0 ++ "ERROR host: one\n".toUTF8.toList).toByteArray) := by
  refine ⟨rfl, ?_, ?_, ?_⟩
  · decide +kernel
  · decide +kernel
  · decide +kernel

end Logging

end ScriptHost
