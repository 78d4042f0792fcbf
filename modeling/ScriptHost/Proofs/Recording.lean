import ScriptHost.Proofs.Compaction

/-! What a script has on record. After any session the record is a summary of all the changes that
succeeded: one entry for each subject, its last change, in the order in which those were made. What
does not succeed leaves no trace, and a library that breaks off counts up to where it did. -/

namespace ScriptHost.Live

open Exchange

/-! ### Summaries -/

namespace Changes

/-- A change that is the last to its subject, and the changes after it. -/
def Last (history : Changes) (c : Change) (later : Changes) : Prop :=
  (∃ earlier, history = earlier ++ c :: later) ∧ ∀ d ∈ later, d.subject ≠ c.subject

/-- One entry for each subject of a history. -/
structure Summarizes (cs history : Changes) : Prop where
  nodup : (cs.map Change.subject).Nodup
  covers : ∀ d ∈ history, ∃ c ∈ cs, c.subject = d.subject
  mem_iff : ∀ c, c ∈ cs ↔ ∃ later, history.Last c later
  ordered : cs.Pairwise fun c d => ∃ between later, history.Last c (between ++ d :: later) ∧ history.Last d later

theorem last_concat_self (history : Changes) (c : Change) : Last (history ++ [c]) c [] :=
  ⟨⟨history, rfl⟩, by simp⟩

theorem Last.concat {history later : Changes} {d c : Change} (h : history.Last d later)
    (hc : d.subject ≠ c.subject) : Last (history ++ [c]) d (later ++ [c]) := by
  obtain ⟨⟨earlier, rfl⟩, hlast⟩ := h
  refine ⟨⟨earlier, by simp⟩, fun e he => ?_⟩
  rcases List.mem_append.1 he with he | he
  · exact hlast e he
  · rw [List.mem_singleton.1 he]
    exact hc.symm

theorem of_last_concat {history later : Changes} {d c : Change} (h : Last (history ++ [c]) d later) :
    d = c ∨ d.subject ≠ c.subject ∧ ∃ later', history.Last d later' := by
  obtain ⟨⟨earlier, he⟩, hlast⟩ := h
  rcases List.eq_nil_or_concat later with rfl | ⟨later', e, rfl⟩
  · obtain ⟨-, hc⟩ := List.append_inj' he rfl
    exact .inl (by simpa using hc.symm)
  · rw [List.concat_eq_append, ← List.cons_append, ← List.append_assoc] at he
    obtain ⟨hhistory, hc⟩ := List.append_inj' he rfl
    obtain rfl : c = e := by simpa using hc
    refine .inr ⟨(hlast c (by simp)).symm, later', ⟨earlier, hhistory⟩, fun d' hd' => hlast d' (by simp [hd'])⟩

/-- Recording a change keeps the record a summary. -/
theorem Summarizes.record {cs history : Changes} (h : cs.Summarizes history) (c : Change) :
    (cs.record c).Summarizes (history ++ [c]) := by
  rw [record_eq]
  have hkept {d : Change} : d ∈ cs.filter (·.subject != c.subject) ↔ d ∈ cs ∧ d.subject ≠ c.subject := by
    simp
  constructor
  case nodup =>
    rw [List.map_append, List.nodup_append]
    refine ⟨h.nodup.sublist (List.filter_sublist.map _), by simp, fun s hs t ht => ?_⟩
    obtain ⟨d, hd, rfl⟩ := List.mem_map.1 hs
    obtain rfl : t = c.subject := by simpa using ht
    exact (hkept.1 hd).2
  case covers =>
    intro d hd
    by_cases hs : d.subject = c.subject
    · exact ⟨c, by simp, hs.symm⟩
    · have hd' : d ∈ history := by
        rcases List.mem_append.1 hd with hd | hd
        · exact hd
        · exact absurd (congrArg Change.subject (List.mem_singleton.1 hd)) hs
      obtain ⟨e, he, heq⟩ := h.covers d hd'
      exact ⟨e, List.mem_append_left _ (hkept.2 ⟨he, heq ▸ hs⟩), heq⟩
  case mem_iff =>
    intro d
    rw [List.mem_append, hkept, List.mem_singleton, h.mem_iff]
    constructor
    · rintro (⟨⟨later, hlast⟩, hs⟩ | rfl)
      · exact ⟨_, hlast.concat hs⟩
      · exact ⟨[], last_concat_self history d⟩
    · rintro ⟨later, hlast⟩
      rcases of_last_concat hlast with rfl | ⟨hs, hlast'⟩
      · exact .inr rfl
      · exact .inl ⟨hlast', hs⟩
  case ordered =>
    rw [List.pairwise_append]
    refine ⟨?_, List.pairwise_singleton _ _, ?_⟩
    · refine (h.ordered.filter _).imp_of_mem fun {d e} hd he hde => ?_
      obtain ⟨between, later, hlast, hlast'⟩ := hde
      refine ⟨between, later ++ [c], ?_, hlast'.concat (hkept.1 he).2⟩
      rw [← List.cons_append, ← List.append_assoc]
      exact hlast.concat (hkept.1 hd).2
    · intro d hd e he
      obtain rfl := List.mem_singleton.1 he
      obtain ⟨later, hlast⟩ := (h.mem_iff d).1 (hkept.1 hd).1
      exact ⟨later, [], hlast.concat (hkept.1 hd).2, last_concat_self history e⟩

theorem summarizes_foldl_record (history : Changes) : (history.foldl Changes.record []).Summarizes history := by
  induction history using List.reverseRecOn with
  | nil => exact ⟨List.nodup_nil, by simp, by simp [Last], List.Pairwise.nil⟩
  | append_singleton history c ih =>
    rw [List.foldl_append]
    exact ih.record c

/-! ### Recording many changes -/

/-- What is recorded about other subjects stays in front. -/
theorem foldl_record_eq (es cs : Changes) :
    es.foldl Changes.record cs =
      cs.filter (fun d => d.subject ∉ es.map Change.subject) ++ es.foldl Changes.record [] := by
  induction es using List.reverseRecOn with
  | nil => simp
  | append_singleton es e ih =>
    simp only [List.foldl_append, List.foldl_cons, List.foldl_nil]
    rw [ih, record_eq, record_eq, List.filter_append, List.filter_filter, List.append_assoc]
    congr 2
    funext d
    simp [Bool.and_comm, not_or, bne, beq_eq_decide]

theorem foldl_record_of_nodup {es : Changes} (h : (es.map Change.subject).Nodup) :
    es.foldl Changes.record [] = es := by
  induction es using List.reverseRecOn with
  | nil => rfl
  | append_singleton es e ih =>
    rw [List.map_append, List.nodup_append] at h
    obtain ⟨hes, -, hne⟩ := h
    rw [List.foldl_append, ih hes, List.foldl_cons, List.foldl_nil, record_eq, List.filter_eq_self.2]
    intro d hd
    exact bne_iff_ne.2 (hne _ (List.mem_map_of_mem hd) _ (by simp))

/-- Changes that are made once more change nothing in the record. -/
theorem foldl_record_again (es cs : Changes) :
    es.foldl Changes.record (es.foldl Changes.record cs) = es.foldl Changes.record cs := by
  have hnone : (es.foldl Changes.record []).filter (fun d => d.subject ∉ es.map Change.subject) = [] := by
    rw [List.filter_eq_nil_iff]
    intro d hd
    obtain ⟨later, ⟨earlier, rfl⟩, -⟩ := ((summarizes_foldl_record es).mem_iff d).1 hd
    simp
  rw [foldl_record_eq es (es.foldl Changes.record cs), foldl_record_eq es cs, List.filter_append, hnone,
    List.filter_filter, List.append_nil]
  simp only [Bool.and_self]

end Changes

/-! ### Libraries -/

theorem subject_registrations (space : String) (fs : List (String × HostFunction)) :
    (registrations space fs).map Change.subject = fs.map fun f => (space, some f.1) := by
  rw [registrations, List.map_map]
  rfl

theorem nodup_registrations (space : String) {fs : List (String × HostFunction)} (h : (fs.map (·.1)).Nodup) :
    ((registrations space fs).map Change.subject).Nodup := by
  rw [subject_registrations, show (fun f : String × HostFunction => (space, some f.1)) =
    (fun k => (space, some k)) ∘ Prod.fst from rfl, ← List.map_map]
  refine h.map fun k k' hk => ?_
  simpa using hk

variable {c : Channel}

theorem registerAll_cons_done {space : String} {f : String × HostFunction} {script script' : LoadedScript}
    {events : List Event} (h : script.registerFunction c space f.1 f.2 = (⟨.done (), events⟩, script'))
    (fs : List (String × HostFunction)) :
    script.registerAll c space (f :: fs) =
        ((script'.registerAll c space fs).1.after events, (script'.registerAll c space fs).2) ∧
      script.madeByAll c space (f :: fs) = .function space f.1 f.2 :: script'.madeByAll c space fs := by
  rw [LoadedScript.registerAll, LoadedScript.madeByAll, h]
  exact ⟨rfl, rfl⟩

theorem registerAll_cons_not_done {space : String} {f : String × HostFunction} {script : LoadedScript}
    (h : (script.registerFunction c space f.1 f.2).1.ending ≠ .done ()) (fs : List (String × HostFunction)) :
    script.registerAll c space (f :: fs) = script.registerFunction c space f.1 f.2 ∧
      script.madeByAll c space (f :: fs) = [] := by
  rw [LoadedScript.registerAll, LoadedScript.madeByAll]
  cases hr : script.registerFunction c space f.1 f.2 with
  | mk report script' =>
    obtain ⟨ending, events⟩ := report
    cases ending with
    | done u =>
      rw [hr] at h
      exact absurd rfl h
    | _ => exact ⟨rfl, rfl⟩

/-- Functions register up to the end of the list, or up to the first that fails. -/
theorem registerAll_cases (space : String) (fs : List (String × HostFunction)) (script : LoadedScript) :
    ((script.registerAll c space fs).1.ending = .done () ∧ script.madeByAll c space fs = registrations space fs) ∨
      ∃ before f after, fs = before ++ f :: after ∧
        (script.registerAll c space before).1.ending = .done () ∧
        ((script.registerAll c space before).2.registerFunction c space f.1 f.2).1.ending ≠ .done () ∧
        (script.registerAll c space fs).1.ending =
          ((script.registerAll c space before).2.registerFunction c space f.1 f.2).1.ending ∧
        script.madeByAll c space fs = registrations space before := by
  induction fs generalizing script with
  | nil => exact .inl ⟨rfl, rfl⟩
  | cons f fs ih =>
    by_cases h : (script.registerFunction c space f.1 f.2).1.ending = .done ()
    · cases hr : script.registerFunction c space f.1 f.2 with
      | mk report script' =>
        obtain ⟨ending, events⟩ := report
        obtain rfl : ending = .done () := by rwa [hr] at h
        obtain ⟨hall, hmade⟩ := registerAll_cons_done hr fs
        rw [hall, hmade]
        rcases ih script' with ⟨hdone, hmade'⟩ | ⟨before, g, after, rfl, hbefore, hg, hending, hmade'⟩
        · exact .inl ⟨hdone, congrArg _ hmade'⟩
        · refine .inr ⟨f :: before, g, after, rfl, ?_⟩
          rw [(registerAll_cons_done hr before).1]
          exact ⟨hbefore, hg, hending, congrArg _ hmade'⟩
    · obtain ⟨hall, hmade⟩ := registerAll_cons_not_done h fs
      rw [hall, hmade]
      exact .inr ⟨[], f, fs, rfl, rfl, h, rfl, rfl⟩

theorem registerLibrary_ending (l : Host.Library) (script : LoadedScript) :
    (script.registerLibrary c l).1.ending = (script.registerAll c l.name l.functions).1.ending := by
  unfold LoadedScript.registerLibrary
  cases hr : LoadedScript.registerAll c l.name l.functions script with
  | mk report script' =>
    obtain ⟨ending, events⟩ := report
    cases ending <;> rfl

theorem madeByAll_of_done {l : Host.Library} {script : LoadedScript}
    (h : (script.registerLibrary c l).1.ending = .done ()) :
    script.madeByAll c l.name l.functions = registrations l.name l.functions := by
  rw [registerLibrary_ending] at h
  rcases registerAll_cases (c := c) l.name l.functions script with ⟨-, hmade⟩ | ⟨_, _, _, -, -, hf, hending, -⟩
  · exact hmade
  · exact absurd (hending.symm.trans h) hf

theorem madeByLibraries_of_done {ls : List Host.Library} {script : LoadedScript}
    (h : (script.registerLibraries c ls).1.ending = .done ()) :
    script.madeByLibraries c ls = ls.flatMap fun l => registrations l.name l.functions := by
  induction ls generalizing script with
  | nil => rfl
  | cons l ls ih =>
    unfold LoadedScript.registerLibraries at h
    unfold LoadedScript.madeByLibraries
    cases hr : script.registerLibrary c l with
    | mk report script' =>
      obtain ⟨ending, events⟩ := report
      rw [hr] at h
      cases ending with
      | done u =>
        have hl : (script.registerLibrary c l).1.ending = .done () := by rw [hr]
        rw [List.flatMap_cons, madeByAll_of_done hl]
        exact congrArg _ (ih h)
      | _ => cases h

/-! ### Sessions -/

/-- A script that has just been loaded, and the changes that were made to it on the way. -/
inductive Started (c : Channel) (files : Files) : LoadedScript → Changes → Prop
  | opened {path chunkName : String} {hotReload : Bool} {script : LoadedScript} {events : List Event}
      (h : LoadedScript.openFile c files path chunkName hotReload = ⟨.done script, events⟩) : Started c files script []
  | withLibraries {path : String} {ls : List Host.Library} {script : LoadedScript} {events : List Event}
      (h : LoadedScript.loadWith c files path ls = ⟨.done script, events⟩) :
      Started c files script (ls.flatMap fun l => registrations l.name l.functions)

theorem Started.changes_eq {files : Files} {script : LoadedScript} {made : Changes}
    (h : Started c files script made) : script.changes = made.foldl Changes.record [] := by
  cases h with
  | opened h =>
    obtain ⟨_, _, _, -, -, rfl⟩ := openFile_cases h
    rfl
  | @withLibraries path ls script events h =>
    unfold LoadedScript.loadWith at h
    cases hload : LoadedScript.load c files path with
    | mk ending events' =>
      rw [hload] at h
      cases ending with
      | done script₀ =>
        have hnone : script₀.changes = [] := by
          obtain ⟨_, _, _, -, -, rfl⟩ := openFile_cases hload
          rfl
        have hchanges := registerLibraries_changes (c := c) ls script₀
        rw [hnone] at hchanges
        cases hr : script₀.registerLibraries c ls with
        | mk report script' =>
          obtain ⟨ending, events''⟩ := report
          simp only [hr] at h
          cases ending with
          | done u =>
            obtain rfl : script' = script := by
              simpa [Report.map, Report.after, Ending.map] using congrArg Report.ending h
            rw [hr] at hchanges
            rw [hchanges, madeByLibraries_of_done (by rw [hr])]
          | _ => cases h
      | _ => cases h

theorem changing_of_not_done {m : Exchange Unit} {change : Change} {script : LoadedScript}
    (h : (script.changing c m change).1.ending ≠ .done ()) :
    (script.changing c m change).2.changes = script.changes := by
  rw [changing_changes, if_neg]
  exact fun hsome => h (result?_isSome hsome)

theorem run_changes_of_no_request {a : Action} (h : a.requested = []) (files : Files) (script : LoadedScript) :
    (a.run c files script).2.changes = script.changes := by
  have hmade : a.made c script = [] := List.subset_nil.1 (h ▸ made_subset a script)
  rw [run_changes, hmade]
  rfl

/-- At every point of a session the record summarizes the changes that succeeded. A change that fails
leaves it as it is, and so does, however it ends, whatever is to make no change; a library that fails
leaves the functions before the one that failed, last and in their order; and a library registered
twice in a row is on record as if registered once. -/
theorem changes_summarize_session (c : Channel) {files₀ files : Files} {script₀ script : LoadedScript}
    {made : Changes} {as : List Action} (hstart : Started c files₀ script₀ made)
    (hrun : Action.runAll c as files₀ script₀ = (files, script)) :
    script.changes.Summarizes (made ++ Action.history c as files₀ script₀) ∧
    (∀ name v, (script.setGlobal c name v).1.ending ≠ .done () →
      (script.setGlobal c name v).2.changes = script.changes) ∧
    (∀ space name f, (script.registerFunction c space name f).1.ending ≠ .done () →
      (script.registerFunction c space name f).2.changes = script.changes) ∧
    (∀ a : Action, a.requested = [] → (a.run c files script).2.changes = script.changes) ∧
    (∀ l : Host.Library, (l.functions.map (·.1)).Nodup → (script.registerLibrary c l).1.ending ≠ .done () →
      ∃ before f after, l.functions = before ++ f :: after ∧
        (script.registerAll c l.name before).1.ending = .done () ∧
        ((script.registerAll c l.name before).2.registerFunction c l.name f.1 f.2).1.ending =
          (script.registerLibrary c l).1.ending ∧
        (script.registerLibrary c l).2.changes =
          script.changes.filter (fun d => d.subject ∉ before.map fun g => (l.name, some g.1)) ++
            registrations l.name before) ∧
    ∀ l : Host.Library, (script.registerLibrary c l).1.ending = .done () →
      ((script.registerLibrary c l).2.registerLibrary c l).1.ending = .done () →
      ((script.registerLibrary c l).2.registerLibrary c l).2.changes = (script.registerLibrary c l).2.changes := by
  refine ⟨?summary, fun name v h => changing_of_not_done h, fun space name f h => changing_of_not_done h,
    fun a h => run_changes_of_no_request h files script, fun l hl h => ?broken, fun l h h' => ?twice⟩
  case summary =>
    have hchanges := runAll_changes (c := c) as files₀ script₀
    rw [hrun, hstart.changes_eq, ← List.foldl_append] at hchanges
    rw [hchanges]
    exact Changes.summarizes_foldl_record _
  case broken =>
    rw [registerLibrary_ending] at h
    rcases registerAll_cases (c := c) l.name l.functions script with
      ⟨hdone, -⟩ | ⟨before, f, after, hl', hbefore, -, hending, hmade⟩
    · exact absurd hdone h
    · have hnodup : (before.map (·.1)).Nodup := by
        rw [hl', List.map_append] at hl
        exact (List.nodup_append.1 hl).1
      refine ⟨before, f, after, hl', hbefore, hending.symm.trans (registerLibrary_ending l script).symm, ?_⟩
      rw [registerLibrary_changes, hmade, Changes.foldl_record_eq,
        Changes.foldl_record_of_nodup (nodup_registrations l.name hnodup), subject_registrations]
  case twice =>
    rw [registerLibrary_changes, registerLibrary_changes, madeByAll_of_done h, madeByAll_of_done h',
      Changes.foldl_record_again]

/-- A library for a namespace that takes everything but `b`. -/
def lockedLibrary : Host.Library := ⟨"L", [("a", ⟨"ping"⟩), ("b", ⟨"ping"⟩), ("c", ⟨"ping"⟩)]⟩

def lockedText : String :=
  "L = setmetatable(\x7b\x7d, \x7b__newindex = function(t, k, v) if k == 'b' then error('locked') end "
    ++ "rawset(t, k, v) end\x7d)"

/-- One library breaks off, and two subjects are changed twice. -/
def lockedSession : List Action :=
  [.setGlobal "N" (.boolean true), .registerLibraries [lockedLibrary], .registerFunction "M" "f" ⟨"ping"⟩,
   .setGlobal "N" (.boolean false), .registerFunction "L" "a" ⟨"double"⟩, .reload]

/-- Five changes leave three entries, and the library breaks off again after its first function. -/
theorem changes_summarize_session_locked :
    ∃ script₀ files script, Started (outermost Samples.catalog) (mainFile lockedText) script₀ [] ∧
      Action.runAll (outermost Samples.catalog) lockedSession (mainFile lockedText) script₀ = (files, script) ∧
      (Action.history (outermost Samples.catalog) lockedSession (mainFile lockedText) script₀).map Change.subject =
        [("N", none), ("L", some "a"), ("M", some "f"), ("N", none), ("L", some "a")] ∧
      script.changes.Summarizes
        (Action.history (outermost Samples.catalog) lockedSession (mainFile lockedText) script₀) ∧
      script.changes.map Change.subject = [("M", some "f"), ("N", none), ("L", some "a")] ∧
      (script.registerLibrary (outermost Samples.catalog) lockedLibrary).1.ending ≠ .done () ∧
      (script.registerLibrary (outermost Samples.catalog) lockedLibrary).2.changes.map Change.subject =
        [("M", some "f"), ("N", none), ("L", some "a")] := by
  obtain ⟨events, hopen⟩ : ∃ events, LoadedScript.openFile (outermost Samples.catalog) (mainFile lockedText)
      "main.lua" "main.lua" false = ⟨.done (mainScript (outermost Samples.catalog) lockedText), events⟩ :=
    openFile_mainScript (by decide +kernel) (by decide +kernel)
  obtain ⟨hhistory, hrecord, hlocked, hafter⟩ :
      (Action.history (outermost Samples.catalog) lockedSession (mainFile lockedText)
        (mainScript (outermost Samples.catalog) lockedText)).map Change.subject =
          [("N", none), ("L", some "a"), ("M", some "f"), ("N", none), ("L", some "a")] ∧
      (Action.runAll (outermost Samples.catalog) lockedSession (mainFile lockedText)
        (mainScript (outermost Samples.catalog) lockedText)).2.changes.map Change.subject =
          [("M", some "f"), ("N", none), ("L", some "a")] ∧
      ((Action.runAll (outermost Samples.catalog) lockedSession (mainFile lockedText)
        (mainScript (outermost Samples.catalog) lockedText)).2.registerLibrary (outermost Samples.catalog)
          lockedLibrary).1.ending.result?.isSome = false ∧
      ((Action.runAll (outermost Samples.catalog) lockedSession (mainFile lockedText)
        (mainScript (outermost Samples.catalog) lockedText)).2.registerLibrary (outermost Samples.catalog)
          lockedLibrary).2.changes.map Change.subject =
            [("M", some "f"), ("N", none), ("L", some "a")] := by decide +kernel
  cases hrun : Action.runAll (outermost Samples.catalog) lockedSession (mainFile lockedText)
      (mainScript (outermost Samples.catalog) lockedText) with
  | mk files script =>
    rw [hrun] at hrecord hlocked hafter
    have hsummary := (changes_summarize_session _ (.opened hopen) hrun).1
    refine ⟨_, files, script, .opened hopen, hrun, hhistory, hsummary, hrecord, fun hdone => ?_, hafter⟩
    rw [hdone] at hlocked
    cases hlocked

end ScriptHost.Live
