import ScriptHost.Live.LoadedScript
import ScriptHost.Proofs.Lawful
import ScriptHost.Proofs.Paths
import ScriptHost.Proofs.RoundTrip

/-! Tables cross between host and script by value. The tables of a copy are new and its own, so whatever
scripts do to one copy leaves every other one, and what a reload restores, as it was. -/

namespace ScriptHost.Exchange

open Script (State TableRef Value Turn Leads Reaches Apart Whole Spares Assigned)

variable {α β : Type} {s t : State}

/-! ### Draining elsewhere -/

/-- On their own states and any stacks, two exchanges end alike and change no table. What the first answers is
described. -/
def Mirrors (s t : State) (Q : α → Prop) (m n : Exchange α) : Prop :=
  ∀ c st log c' st' log',
    match m c ⟨st, { s with log }⟩ with
    | .done a f => Q a ∧ (∃ l, f = ⟨st, { s with log := l }⟩) ∧
        ∃ l, n c' ⟨st', { t with log := log' }⟩ = .done a ⟨st', { t with log := l }⟩
    | .failed _ _ => False
    | .stopped fault u => u.tables = s.tables ∧ ∃ u', n c' ⟨st', { t with log := log' }⟩ = .stopped fault u'
    | .exhausted => True

namespace Mirrors

theorem pure {Q : α → Prop} {a : α} (h : Q a) : Mirrors s t Q (pure a) (pure a) :=
  fun _ _ log _ _ log' => ⟨h, ⟨log, rfl⟩, log', rfl⟩

theorem emit (origin : Origin) (level : Level) (message : String) :
    Mirrors s t (fun _ => True) (emit origin level message) (emit origin level message) :=
  fun _ _ _ _ _ _ => ⟨trivial, ⟨_, rfl⟩, _, rfl⟩

theorem bind {Q : α → Prop} {Q' : β → Prop} {m n : Exchange α} {g k : α → Exchange β} (hm : Mirrors s t Q m n)
    (hg : ∀ a, Q a → Mirrors s t Q' (g a) (k a)) : Mirrors s t Q' (m >>= g) (n >>= k) := by
  intro c st log c' st' log'
  have h := hm c st log c' st' log'
  rw [bind_run]
  cases hrun : m c ⟨st, { s with log }⟩ with
  | done a f =>
    rw [hrun] at h
    obtain ⟨ha, ⟨l, rfl⟩, l', hn⟩ := h
    rw [bind_done hn]
    exact hg a ha c st l c' st' l'
  | failed e f =>
    rw [hrun] at h
    exact h
  | stopped fault u =>
    rw [hrun] at h
    obtain ⟨hu, u', hn⟩ := h
    exact ⟨hu, u', by rw [bind_run, hn]⟩
  | exhausted => trivial

end Mirrors

/-- Two states are the same to these values and all that lies in them. -/
structure Common (s t : State) (P : Value → Prop) : Prop where
  nil : P .nil
  table : ∀ r, P (.table r) → t.table r = s.table r
  entry : ∀ r, P (.table r) → ∀ e ∈ (s.table r).entries, P e.1 ∧ P e.2
  function : ∀ r, P (.function r) → t.hostFunction? r = s.hostFunction? r
  failure : ∀ r, P (.failure r) → t.failure r = s.failure r

theorem common_refl (s : State) : Common s s fun _ => True where
  nil := trivial
  table _ _ := rfl
  entry _ _ _ _ := ⟨trivial, trivial⟩
  function _ _ := rfl
  failure _ _ := rfl

/-- A state that spares a value is the same to all that is found in it. -/
theorem common_of_spares {v : Value} (hv : Whole s v) (h : Spares s t v) :
    Common s t fun w => w.Present s ∧ ∀ q, Reaches s w q → Reaches s v q where
  nil := ⟨trivial, fun _ ⟨_, hp⟩ => (by cases hp)⟩
  table r hr := h.table r (hr.2 r ⟨[], .here r⟩)
  entry r hr e he := by
    obtain ⟨hk, hw⟩ := hv.entry r (hr.2 r ⟨[], .here r⟩) e he
    exact ⟨⟨hk, fun q ⟨p, hp⟩ => hr.2 q ⟨_, .key he hp⟩⟩, hw, fun q ⟨p, hp⟩ => hr.2 q ⟨_, .under he hp⟩⟩
  function r hr := by
    have hlt : r < s.functions.size := hr.1
    have hfunction : s.function? r = some s.functions[r] := Array.getElem?_eq_getElem hlt
    rw [State.hostFunction?, State.hostFunction?, h.function r _ hfunction, hfunction]
  failure r hr := h.failure r hr.1

section Draining

variable {P : Value → Prop} (hP : Common s t P)
include hP

theorem receive_mirrors {v : Value} (hv : P v) : Mirrors s t P (receive v) (receive v) := by
  intro c st log c' st' log'
  cases v with
  | failure r =>
    have hs : State.failure { s with log } r = s.failure r := rfl
    have ht : State.failure { t with log := log' } r = s.failure r := hP.failure r hv
    simp only [receive, state_bind, hs, ht]
    cases s.failure r with
    | error text => exact ⟨hv, ⟨log, rfl⟩, log', rfl⟩
    | fatal message => exact ⟨rfl, _, rfl⟩
    | spent => exact ⟨hP.nil, ⟨log, rfl⟩, log', rfl⟩
  | _ => exact ⟨hv, ⟨log, rfl⟩, log', rfl⟩

theorem receivePairs_mirrors {ps : List (Value × Value)} (hps : ∀ p ∈ ps, P p.1 ∧ P p.2) :
    Mirrors s t (fun ps => ∀ p ∈ ps, P p.2) (receivePairs ps) (receivePairs ps) := by
  induction ps with
  | nil => exact .pure (by simp)
  | cons p ps ih =>
    obtain ⟨⟨hk, hv⟩, hps⟩ := List.forall_mem_cons.1 hps
    refine .bind (receive_mirrors hP hk) fun k _ => .bind (receive_mirrors hP hv) fun v hv => ?_
    exact .bind (ih hps) fun rest hrest => .pure (List.forall_mem_cons.2 ⟨hv, hrest⟩)

theorem entriesOf_mirrors {r : TableRef} (h : P (.table r)) :
    Mirrors s t (fun ps => ∀ p ∈ ps, P p.2) (entriesOf r) (entriesOf r) := by
  have hpairs : ∀ p ∈ (s.table r).pairs, P p.1 ∧ P p.2 := fun p hp => by
    obtain ⟨hslot, hv⟩ := List.mem_filter.1 hp
    exact hP.entry r h p (Script.Table.mem_of_mem_slots hslot (bne_iff_ne.1 hv))
  intro c st log c' st' log'
  have hs : entriesOf r c ⟨st, { s with log }⟩ = receivePairs (s.table r).pairs c ⟨st, { s with log }⟩ := rfl
  have ht : entriesOf r c' ⟨st', { t with log := log' }⟩ =
      receivePairs (s.table r).pairs c' ⟨st', { t with log := log' }⟩ := by
    rw [← hP.table r h]
    rfl
  rw [hs, ht]
  exact receivePairs_mirrors hP hpairs c st log c' st' log'

omit hP in
theorem keep_mirrors (T : Host.Table) (key : String) (v : Host.Value) :
    Mirrors s t (fun _ => True) (keep T key v) (keep T key v) := by
  unfold keep
  cases T.find? key with
  | none => exact .pure trivial
  | some previous => exact .bind (.emit _ _ _) fun _ _ => .pure trivial

variable {sub sub' : TableRef → Exchange Host.Table}

theorem convert?_mirrors {v : Value} (hv : P v)
    (hsub : ∀ r, v = .table r → Mirrors s t (fun _ => True) (sub r) (sub' r)) :
    Mirrors s t (fun _ => True) (convert? sub v) (convert? sub' v) := by
  cases v with
  | table r => exact .bind (hsub r rfl) fun _ _ => .pure trivial
  | function r =>
    intro c st log c' st' log'
    refine ⟨trivial, ⟨log, rfl⟩, log', ?_⟩
    have hr : State.hostFunction? { t with log := log' } r = State.hostFunction? { s with log } r := hP.function r hv
    simp only [convert?, state_bind, hr]
    rfl
  | _ => exact .pure trivial

theorem drainPairs_mirrors {ps : List (Value × Value)} (T : Host.Table) (hps : ∀ p ∈ ps, P p.2)
    (hsub : ∀ r, P (.table r) → Mirrors s t (fun _ => True) (sub r) (sub' r)) :
    Mirrors s t (fun _ => True) (drainPairs sub ps T) (drainPairs sub' ps T) := by
  induction ps generalizing T with
  | nil => exact .pure trivial
  | cons p ps ih =>
    obtain ⟨k, v⟩ := p
    obtain ⟨hv, hvs⟩ := List.forall_mem_cons.1 hps
    unfold drainPairs
    cases Host.keySpelling? k with
    | none => exact .bind (.emit _ _ _) fun _ _ => ih T hvs
    | some key =>
      refine .bind (convert?_mirrors hP hv fun r hr => hsub r (hr ▸ hv)) fun stored _ => ?_
      cases stored with
      | none => exact .bind (.emit _ _ _) fun _ _ => ih T hvs
      | some stored => exact .bind (keep_mirrors T key stored) fun T' _ => ih T' hvs

/-- Draining goes alike where everything is kept; more depth changes nothing. -/
theorem drainInto_mirrors {n n' : Nat} (hn : n ≤ n') {r : TableRef} (h : P (.table r)) (T : Host.Table) :
    Mirrors s t (fun _ => True) (drainInto n r T) (drainInto n' r T) := by
  induction n generalizing n' r T with
  | zero => exact fun _ _ _ _ _ _ => trivial
  | succ n ih =>
    obtain ⟨m, rfl⟩ := Nat.exists_eq_add_of_le' hn
    refine .bind (entriesOf_mirrors hP h) fun ps hps => ?_
    refine .bind (drainPairs_mirrors hP T hps fun r hr => ih (Nat.le_add_left n m) hr {}) fun T' _ => ?_
    exact .bind (.emit _ _ _) fun _ _ => .pure trivial

theorem drain_mirrors (hsize : s.tables.size ≤ t.tables.size) {r : TableRef} (h : P (.table r)) (T : Host.Table) :
    Mirrors s t (fun _ => True) (drain r T) (drain r T) :=
  drainInto_mirrors hP (Nat.succ_le_succ hsize) h T

end Draining

/-- The outcomes end alike. Draining tables that contain themselves comes to no end and says nothing. -/
def Outcome.SameEnding : Outcome α → Outcome α → Prop
  | .done a _, .done b _ => a = b
  | .failed e _, .failed e' _ => e = e'
  | .stopped fault _, .stopped fault' _ => fault = fault'
  | .exhausted, _ => True
  | _, _ => False

theorem drainTop_table (r : TableRef) (T : Host.Table) (c : Channel) (st : List Value) (s : State) :
    drainTop T c ⟨.table r :: st, s⟩ = (drain r T >>= fun T => do pop 1; pure T) c ⟨.table r :: st, s⟩ := by
  rw [drainTop, peek_bind]
  rfl

/-- Draining a spared value ends in the later state as in the earlier. -/
theorem drainTop_of_spares {v : Value} (hv : Whole s v) (h : Spares s t v) (T : Host.Table) (c c' : Channel)
    (st st' : List Value) : (drainTop T c ⟨v :: st, s⟩).SameEnding (drainTop T c' ⟨v :: st', t⟩) := by
  cases v with
  | table r =>
    have hr : Reaches s (.table r) r := ⟨[], .here r⟩
    have hmirrors := drain_mirrors (common_of_spares hv h) h.tables ⟨hv.table r hr, fun q hq => hq⟩ T c
      (.table r :: st) s.log c' (.table r :: st') t.log
    rw [drainTop_table, drainTop_table, bind_run]
    cases hrun : drain r T c ⟨.table r :: st, s⟩ with
    | done T' f =>
      rw [hrun] at hmirrors
      obtain ⟨-, ⟨l, rfl⟩, l', hrun'⟩ := hmirrors
      rw [bind_done hrun']
      rfl
    | failed e f =>
      rw [hrun] at hmirrors
      exact hmirrors.elim
    | stopped fault u =>
      rw [hrun] at hmirrors
      obtain ⟨-, u', hrun'⟩ := hmirrors
      rw [bind_run, hrun']
      rfl
    | exhausted => trivial
  | _ => rfl

/-- Draining changes no table. -/
theorem drainTop_tables {T : Host.Table} {c : Channel} {f : Frame} {u : State}
    (h : (drainTop T c f).state? = some u) : u.tables = f.state.tables := by
  obtain ⟨st, s⟩ := f
  cases st with
  | nil => cases h; rfl
  | cons v st =>
    cases v with
    | table r =>
      have hmirrors := drain_mirrors (common_refl s) (Nat.le_refl _) trivial T c (.table r :: st) s.log c []
        s.log (r := r)
      rw [drainTop_table, bind_run] at h
      cases hrun : drain r T c ⟨.table r :: st, s⟩ with
      | done T' f =>
        rw [hrun] at hmirrors h
        obtain ⟨-, ⟨l, rfl⟩, -⟩ := hmirrors
        cases h
        rfl
      | failed e f =>
        rw [hrun] at hmirrors
        exact hmirrors.elim
      | stopped fault u' =>
        rw [hrun] at hmirrors h
        cases h
        exact hmirrors.1
      | exhausted =>
        rw [hrun] at h
        cases h
    | _ => cases h; rfl

/-! ### Values beside each other -/

/-- What the value leads to, and how it reads and drains, is the same in the second state. -/
structure Undisturbed (s t : State) (v : Value) : Prop where
  whole : Whole t v
  leads : ∀ p q, Leads t v p q ↔ Leads s v p q
  table : ∀ q, Reaches s v q → t.table q = s.table q
  drains : ∀ T c st c' st', (drainTop T c ⟨v :: st, s⟩).SameEnding (drainTop T c' ⟨v :: st', t⟩)

theorem undisturbed_of_spares {v : Value} (hv : Whole s v) (h : Spares s t v) : Undisturbed s t v where
  whole := h.whole hv
  leads _ _ := h.leads_iff
  table := h.table
  drains T c st c' st' := drainTop_of_spares hv h T c c' st st'

/-- Assignments into the tables of one value, none of them a table of the other at the time. -/
theorem undisturbed_of_assigned {into : State → TableRef → Prop} {v : Value} (hv : Whole s v)
    (hinto : ∀ u q, Assigned into s u → Spares s u v → into u q → ¬ Reaches u v q) (h : Assigned into s t) :
    Undisturbed s t v :=
  undisturbed_of_spares hv (h.spares hv hinto)

end ScriptHost.Exchange

namespace ScriptHost.Live.LoadedScript

open Exchange (Channel)

/-! ### Reloading -/

/-- Reloading goes by the file and the changes of the host, whatever has become of the state. -/
theorem reload_of_state (c : Channel) (fs : Files) (script : LoadedScript) (u : Script.State) :
    ({ script with state := u }.reload c fs).1 = (script.reload c fs).1 ∧
      ((script.reload c fs).1.ending = .done () →
        ({ script with state := u }.reload c fs).2 = (script.reload c fs).2) := by
  unfold reload
  cases fs.readText script.path with
  | error e => exact ⟨rfl, fun h => by cases h⟩
  | ok source =>
    simp only
    cases perform c (rebuild script.chunkName source script.changes) Script.State.fresh with
    | mk report s =>
      obtain ⟨ending, events⟩ := report
      cases ending with
      | done => exact ⟨rfl, fun _ => rfl⟩
      | failed | stopped | exhausted => exact ⟨rfl, fun h => by cases h⟩

theorem withState_state {α : Type} (c : Channel) (m : Exchange α) (script : LoadedScript) :
    ∃ u, (script.withState c m).2 = { script with state := u } := ⟨_, rfl⟩

/-- The host keeps the table that it set, not the copy that the script has. -/
theorem setGlobal_changes {c : Channel} {name : String} {t : Host.Table} {script : LoadedScript}
    (h : (script.setGlobal c name (.ofTable t)).1.ending = .done ()) :
    (script.setGlobal c name (.ofTable t)).2.changes = script.changes.record (.global name (.ofTable t)) := by
  unfold setGlobal changing at h ⊢
  cases hrun : script.withState c (Exchange.setGlobal name (.ofTable t)) with
  | mk report script' =>
    obtain ⟨ending, events⟩ := report
    rw [hrun] at h
    cases ending with
    | done =>
      have hchanges : script'.changes = script.changes := congrArg (fun r => r.2.changes) hrun.symm
      rw [← hchanges]
    | failed | stopped | exhausted => cases h

end ScriptHost.Live.LoadedScript

namespace ScriptHost.Exchange

open Script (State TableRef Value Turn Leads Reaches Apart Whole Spares Assigned)
open Live (LoadedScript)

/-! ### By value -/

theorem Copy.drains {s : State} {t : Host.Table} {start : TableRef} {w : Value} (h : Copy s (.ofTable t) start w)
    (ht : t.Distinct) (c : Channel) (st : List Value) :
    ∃ t' s', takeTable c ⟨w :: st, s⟩ = .done t' ⟨st, s'⟩ ∧ t.Same t' := by
  obtain ⟨rfl, -, -, hes⟩ := h
  obtain ⟨t', log, htake, hsame, -⟩ := takeTable_run (hes.copied (Nat.le_refl _)) ht c st
  exact ⟨t', _, htake, hsame⟩

/-- Tables cross between host and script by value. A host table is pushed as script tables that are all new,
each reached by one path, and leaves the others as they are; the copy drains to the host table again. It shares
no table with anything that was there before, and neither do two occurrences within it with each other.
Assignments into the tables of one such value leave the other undisturbed, and go on to do so for as long as
they are not made into a table of the other, which takes a script that puts it there. Draining changes no
table, and what scripts do to the state of a loaded script does not change what a reload restores. -/
theorem tables_cross_by_value (s : State) (hs : s.Reachable) (t : Host.Table) (ht : t.Distinct) :
    (∃ r s', (∀ c st, pushTable t c ⟨st, s⟩ = .done () ⟨.table r :: st, s'⟩) ∧
      (∀ q, q < s.tables.size → s'.table q = s.table q) ∧
      (∀ p q, Leads s' (.table r) p q → s.tables.size ≤ q ∧ ∀ p', Leads s' (.table r) p' q → p' = p) ∧
      (∀ c st, ∃ t' s'', takeTable c ⟨.table r :: st, s'⟩ = .done t' ⟨st, s''⟩ ∧ t.Same t') ∧
      Whole s' (.table r) ∧
      (∀ v, Whole s v → Undisturbed s s' v ∧ Apart s' (.table r) v) ∧
      ∀ p q p' q', Leads s' (.table r) p q → Leads s' (.table r) p' q' → ¬ p <+: p' → ¬ p' <+: p →
        Whole s' (.table q) ∧ Apart s' (.table q) (.table q')) ∧
    (∀ u u' v w, Whole u w →
      (Apart u v w → Assigned (fun _ q => Reaches u v q) u u' → Undisturbed u u' w) ∧
      (Assigned (fun x q => Reaches x v q ∧ ¬ Reaches x w q) u u' → Undisturbed u u' w)) ∧
    (∀ T c f u, (drainTop T c f).state? = some u → u.tables = f.state.tables) ∧
    ∀ (script : LoadedScript) (c : Channel) (files : Files),
      (∀ name, (script.setGlobal c name (.ofTable t)).1.ending = .done () →
        (script.setGlobal c name (.ofTable t)).2.changes = script.changes.record (.global name (.ofTable t))) ∧
      (∀ (α : Type) (m : Exchange α), ∃ u, (script.withState c m).2 = { script with state := u }) ∧
      ∀ u, ({ script with state := u }.reload c files).1 = (script.reload c files).1 ∧
        ((script.reload c files).1.ending = .done () →
          ({ script with state := u }.reload c files).2 = (script.reload c files).2) := by
  refine ⟨?_, fun u u' v w hw => ⟨fun hapart h => ?_, fun h => ?_⟩, fun _ _ _ _ => drainTop_tables,
    fun script c files => ⟨fun _ => LoadedScript.setGlobal_changes, fun _ m => script.withState_state c m,
      script.reload_of_state c files⟩⟩
  · obtain ⟨w, s', hpush, hextends, -, hcopy⟩ := pushHost_run (.ofTable t) ht s hs.linked
    obtain ⟨r, rfl⟩ : ∃ r, w = .table r := ⟨_, hcopy.1⟩
    have hiscopy : IsCopy s' (.ofTable t) (.table r) := ⟨_, hcopy⟩
    refine ⟨r, s', hpush, fun q hq => hextends.table q hq (Option.some_ne_none q), fun p q hl => ?_, fun c st => ?_,
      hiscopy.whole, fun v hv => ?_, fun p q p' q' hl hl' hp hp' => ⟨?_, hcopy.apart hl hl' hp hp'⟩⟩
    · exact ⟨(hcopy.leads hl).1, fun p' hl' => hcopy.leads_unique hl' hl⟩
    · exact hcopy.drains ht c st
    · have hspares : Spares s s' v := spares_of_extends hextends hv
      refine ⟨undisturbed_of_spares hv hspares, fun q ⟨⟨p, hp⟩, hq⟩ => ?_⟩
      exact Nat.lt_irrefl q (Nat.lt_of_lt_of_le (hv.table q (hspares.reaches_iff.1 hq)) (hcopy.leads hp).1)
    · obtain ⟨es, hoccurrence⟩ := hiscopy.occurrence hl
      exact IsCopy.whole ⟨q, hoccurrence⟩
  · refine undisturbed_of_assigned hw (fun x q _ hspares hq hreaches => ?_) h
    exact hapart q ⟨hq, hspares.reaches_iff.1 hreaches⟩
  · exact undisturbed_of_assigned hw (fun _ _ _ _ hq => hq.2) h

/-- The awkward table crosses from a new engine, beside the tables of the language. -/
theorem tables_cross_by_value_awkward :
    State.fresh.Reachable ∧ awkwardTable.Distinct ∧
      ∃ r s', (∀ c st, pushTable awkwardTable c ⟨st, State.fresh⟩ = .done () ⟨.table r :: st, s'⟩) ∧
        s'.table 0 = State.fresh.table 0 ∧ Whole s' (.table r) ∧
        ∀ c st, ∃ t' s'', takeTable c ⟨.table r :: st, s'⟩ = .done t' ⟨st, s''⟩ ∧ awkwardTable.Same t' := by
  have hfresh : State.fresh.Reachable := Relation.ReflTransGen.refl
  have hdist : awkwardTable.Distinct := by
    simp [awkwardTable, Host.Table.Distinct, Host.Value.DistinctEntries, Host.Value.Distinct]
  obtain ⟨⟨r, s', hpush, hold, -, hdrains, hwhole, -⟩, -⟩ :=
    tables_cross_by_value State.fresh hfresh awkwardTable hdist
  exact ⟨hfresh, hdist, r, s', hpush, hold 0 (by decide), hwhole, hdrains⟩

/-! ### Linked copies -/

/-- A host table with one switch. -/
def switch (on : Bool) : Host.Table := ⟨[("v", .boolean on)]⟩

theorem switch_distinct (on : Bool) : (switch on).Distinct := ⟨by simp, trivial, trivial⟩

theorem not_same_switch {t : Host.Table} (h : (switch true).Same t) : ¬ (switch false).Same t := by
  intro h'
  obtain ⟨w, hw, hsame⟩ := (Host.Value.sameEntries_iff _ _).1 h.2 _ List.mem_cons_self
  obtain ⟨w', hw', hsame'⟩ := (Host.Value.sameEntries_iff _ _).1 h'.2 _ List.mem_cons_self
  obtain rfl : w = w' := Option.some.inj (hw.symm.trans hw')
  cases w with
  | boolean b => cases hsame.trans hsame'.symm
  | _ => exact hsame

theorem pushHost_later {s t : State} {v : Host.Value} {w : Value}
    (h : ∀ c st, pushHost v c ⟨st, s⟩ = .done () ⟨w :: st, t⟩) :
    State.Later s t := by
  let c : Channel := ⟨fun _ _ _ => Script.Eval.exhausted, Script.Site.host⟩
  have hkeeps := (pushHost_composed v).keeps steady_later c (fun _ _ _ _ => trivial) ⟨[], s⟩
  rw [h c []] at hkeeps
  exact hkeeps

/-- An assignment of a text key to a table. -/
theorem rawStore_text (site : Script.Site) (r : TableRef) (k : String) (v : Value) (s : State) :
    Script.Operators.rawStore site r (Host.scriptKey k) v s = .done () (s.rawSet r (Host.scriptKey k) v) := by
  rw [Script.Operators.rawStore, Host.badKey?_scriptKey]
  rfl

/-- A table that is stored in another is reached from it. -/
theorem reaches_of_rawSet {s : State} {r : TableRef} (hr : r < s.tables.size) (k : String) (q : TableRef) :
    Reaches (s.rawSet r (Host.scriptKey k) (.table q)) (.table r) q := by
  have hget : (s.rawSet r (Host.scriptKey k) (.table q)).rawGet r (Host.scriptKey k) = .table q := by
    rw [State.rawGet_rawSet_self hr, if_pos rfl]
  exact ⟨[.under _], .under (Script.Table.mem_of_find hget (by simp)) (.here q)⟩

/-- A script can put one copy into another, as in `A.x = B`. Then `A.x.v = false` is an assignment into a table
that is reached from the first copy, and the second drains to something else. -/
theorem linked_copy_disturbed :
    ∃ (s u : State) (a b : Value), s.Reachable ∧ IsCopy s (.ofTable (switch true)) a ∧
      IsCopy s (.ofTable (switch true)) b ∧ Apart s a b ∧ Assigned (fun x q => Reaches x a q) s u ∧
      (∀ c st, ∃ t s', takeTable c ⟨b :: st, s⟩ = .done t ⟨st, s'⟩ ∧ (switch true).Same t) ∧
      (∀ c st, ∃ t u', takeTable c ⟨b :: st, u⟩ = .done t ⟨st, u'⟩ ∧ (switch false).Same t) ∧
      ¬ Undisturbed s u b := by
  have hfresh : State.fresh.Reachable := Relation.ReflTransGen.refl
  obtain ⟨a, s₁, hpush₁, he₁, hsize, ha₁⟩ :=
    pushHost_run (.ofTable (switch true)) (switch_distinct true) State.fresh hfresh.linked
  obtain ⟨b, s, hpush₂, he₂, -, hb⟩ :=
    pushHost_run (.ofTable (switch true)) (switch_distinct true) s₁ (he₁.linked hfresh.linked)
  have ha : Copy s (.ofTable (switch true)) State.fresh.tables.size a :=
    ha₁.extend he₂ fun r _ _ => Option.some_ne_none r
  have hapart : Apart s a b := fun q ⟨⟨p, hp⟩, ⟨p', hp'⟩⟩ => by
    have hbelow := (ha.leads hp).2
    have habove := (hb.leads hp').1
    omega
  obtain ⟨ra, rfl⟩ : ∃ r, a = .table r := ⟨_, ha.1⟩
  obtain ⟨rb, rfl⟩ : ∃ r, b = .table r := ⟨_, hb.1⟩
  have hne : rb ≠ ra := fun h => hapart ra ⟨⟨[], .here ra⟩, [], h ▸ .here rb⟩
  let u₁ : State := s.rawSet ra (Host.scriptKey "x") (.table rb)
  let u : State := u₁.rawSet rb (Host.scriptKey "v") (.boolean false)
  have hassigned : Assigned (fun x q => Reaches x (.table ra) q) s u :=
    .assign (.assign .start ⟨[], .here ra⟩ (rawStore_text Script.Site.host ra "x" (.table rb) s))
      (reaches_of_rawSet (IsCopy.present ⟨_, ha⟩) "x" rb) (rawStore_text Script.Site.host rb "v" (.boolean false) u₁)
  have hoff : Copy u (.ofTable (switch false)) rb (.table rb) := by
    obtain ⟨hrb, hlt, hm, w, rest, hentries, rfl, rfl⟩ := hb
    obtain rfl : rb = s₁.tables.size := Value.table.inj hrb
    have hlt₁ : s₁.tables.size < u₁.tables.size := by rwa [State.size_rawSet]
    have htable : (u.table s₁.tables.size).entries = [(Host.scriptKey "v", .boolean false)] := by
      rw [State.table_rawSet_self hlt₁, State.table_rawSet_of_ne hne, Script.Table.set, hentries, Host.asKey_scriptKey,
        Script.Table.put, if_pos rfl]
    refine ⟨rfl, by rwa [State.size_rawSet], ?_, _, [], htable, rfl, rfl⟩
    rw [State.metatable?_rawSet, State.metatable?_rawSet]
    exact hm
  have hbefore := hb.drains (switch_distinct true)
  have hafter := hoff.drains (switch_distinct false)
  refine ⟨s, u, _, _, (hfresh.trans (pushHost_later hpush₁)).trans (pushHost_later hpush₂), ⟨_, ha⟩, ⟨_, hb⟩,
    hapart, hassigned, hbefore, hafter, fun hundisturbed => ?_⟩
  let c : Channel := ⟨fun _ _ _ => Script.Eval.exhausted, Script.Site.host⟩
  obtain ⟨t, s', htake, hsame⟩ := hbefore c []
  obtain ⟨t', u', htake', hsame'⟩ := hafter c []
  have hending : (takeTable c ⟨[.table rb], s⟩).SameEnding (takeTable c ⟨[.table rb], u⟩) :=
    hundisturbed.drains {} c [] c []
  rw [htake, htake'] at hending
  obtain rfl : t = t' := hending
  exact not_same_switch hsame hsame'

end ScriptHost.Exchange
