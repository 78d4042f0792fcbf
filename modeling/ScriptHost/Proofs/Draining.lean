import Mathlib.Data.Finset.Card
import Mathlib.Logic.Relation
import ScriptHost.Proofs.Exchanges

/-! What draining a script table gives, as a function of the state. Nothing but the log changes on the
way. The one thing that can come between is a fault that waits in an error object within the table; and
the depth is enough for every table without cycles. -/

namespace ScriptHost.Exchange

open Script (State TableRef Value)
open Host (Table)

variable {α β : Type} {s : State}

/-! ### Reading without effects -/

/-- On every stack and through every channel the exchange stops on one of the given faults or goes too
deep. -/
def Falters (s : State) (faulty : String → Prop) (deep : Prop) (ws : List Value) (m : Exchange α) (log : List Event) :
    Prop :=
  (∃ fault t, (∀ c st, m c ⟨ws ++ st, { s with log }⟩ = .stopped fault t) ∧ faulty fault.message) ∨
    (∀ c st, m c ⟨ws ++ st, { s with log }⟩ = .exhausted) ∧ deep

/-- The exchange works the same on every stack and through every channel. It takes the given values off
the stack, answers `a` and changes nothing but the log, unless it falters. -/
def Yields (s : State) (faulty : String → Prop) (deep : Prop) (ws : List Value) (m : Exchange α) (a : α) : Prop :=
  ∀ log, (∃ log', ∀ c st, m c ⟨ws ++ st, { s with log }⟩ = .done a ⟨st, { s with log := log' }⟩) ∨
    Falters s faulty deep ws m log

section Sequences

variable {faulty faulty' : String → Prop} {deep deep' : Prop} {ws ws' : List Value} {m : Exchange α} {a : α}

namespace Falters

variable {log : List Event}

theorem bind (hm : Falters s faulty deep ws m log) (g : α → Exchange β) : Falters s faulty deep ws (m >>= g) log := by
  rcases hm with ⟨fault, t, hstopped, hfault⟩ | ⟨hexhausted, hdeep⟩
  · exact .inl ⟨fault, t, fun c st => by rw [bind_run, hstopped], hfault⟩
  · exact .inr ⟨fun c st => by rw [bind_run, hexhausted], hdeep⟩

/-- More values under those that count change nothing. -/
theorem append (hm : Falters s faulty deep ws m log) (ws' : List Value) : Falters s faulty deep (ws ++ ws') m log := by
  simp only [Falters, List.append_assoc]
  rcases hm with ⟨fault, t, hstopped, hfault⟩ | ⟨hexhausted, hdeep⟩
  · exact .inl ⟨fault, t, fun c st => hstopped c _, hfault⟩
  · exact .inr ⟨fun c st => hexhausted c _, hdeep⟩

theorem mono (hm : Falters s faulty deep ws m log) (hf : ∀ message, faulty message → faulty' message)
    (hd : deep → deep') : Falters s faulty' deep' ws m log :=
  hm.imp (fun ⟨fault, t, hstopped, hfault⟩ => ⟨fault, t, hstopped, hf _ hfault⟩) (And.imp_right hd)

end Falters

namespace Yields

theorem pure (a : α) : Yields s faulty deep [] (pure a : Exchange α) a :=
  fun log => .inl ⟨log, fun _ _ => rfl⟩

theorem emit (origin : Origin) (level : Level) (message : String) :
    Yields s faulty deep [] (emit origin level message) () :=
  fun log => .inl ⟨⟨origin, level, message⟩ :: log, fun _ _ => rfl⟩

theorem bind (hm : Yields s faulty deep ws m a) {g : α → Exchange β} {b : β}
    (hg : Yields s faulty deep ws' (g a) b) : Yields s faulty deep (ws ++ ws') (m >>= g) b := by
  intro log
  rcases hm log with ⟨log', hdone⟩ | hfalters
  · simp only [Falters, List.append_assoc, fun c st => bind_done (hdone c (ws' ++ st)) g]
    exact hg log'
  · exact .inr ((hfalters.append ws').bind g)

/-- As `bind`, after an exchange that leaves the stack alone. -/
theorem seq (hm : Yields s faulty deep [] m a) {g : α → Exchange β} {b : β} (hg : Yields s faulty deep ws (g a) b) :
    Yields s faulty deep ws (m >>= g) b :=
  hm.bind hg

theorem map (hm : Yields s faulty deep ws m a) (g : α → β) :
    Yields s faulty deep ws (do let a ← m; Pure.pure (g a)) (g a) := by
  have hpure : Yields s faulty deep [] (Pure.pure (g a) : Exchange β) (g a) := .pure _
  simpa only [List.append_nil] using hm.bind (g := fun a => Pure.pure (g a)) hpure

/-- What runs alike over these values yields alike. -/
theorem congr {m' : Exchange α} (hm : Yields s faulty deep ws m a)
    (h : ∀ c st log, m' c ⟨ws ++ st, { s with log }⟩ = m c ⟨ws ++ st, { s with log }⟩) :
    Yields s faulty deep ws m' a := by
  intro log
  simpa only [Falters, h] using hm log

theorem mono (hm : Yields s faulty deep ws m a) (hf : ∀ message, faulty message → faulty' message)
    (hd : deep → deep') : Yields s faulty' deep' ws m a :=
  fun log => (hm log).imp_right (·.mono hf hd)

/-- Where nothing can come between, the exchange comes to its end. -/
theorem always (hm : Yields s (fun _ => False) False ws m a) (log : List Event) :
    ∃ log', ∀ c st, m c ⟨ws ++ st, { s with log }⟩ = .done a ⟨st, { s with log := log' }⟩ := by
  rcases hm log with hdone | ⟨_, _, -, hfault⟩ | ⟨-, hdeep⟩
  · exact hdone
  · exact hfault.elim
  · exact hdeep.elim

/-- An exchange that came to its end did not falter. -/
theorem eq_of_done (hm : Yields s faulty deep ws m a) {c : Channel} {st : List Value} {log : List Event} {b : α}
    {f : Frame} (h : m c ⟨ws ++ st, { s with log }⟩ = .done b f) : b = a := by
  rcases hm log with ⟨log', hdone⟩ | ⟨fault, t, hstopped, -⟩ | ⟨hexhausted, -⟩
  · exact (Outcome.done.inj (h.symm.trans (hdone c st))).1
  · cases h.symm.trans (hstopped c st)
  · cases h.symm.trans (hexhausted c st)

/-- An exchange that always comes to its end does so in the same way everywhere, and nothing comes between. -/
theorem of_runs (hm : Yields s faulty deep ws m a) {Q : α → Prop}
    (h : ∀ c st log, ∃ b f, m c ⟨ws ++ st, { s with log }⟩ = .done b f ∧ Q b) :
    Q a ∧ Yields s (fun _ => False) False ws m a := by
  let c : Channel := ⟨fun _ _ _ => Script.Eval.exhausted, Script.Site.host⟩
  have hdone (log : List Event) : Q a ∧
      ∃ log', ∀ c st, m c ⟨ws ++ st, { s with log }⟩ = .done a ⟨st, { s with log := log' }⟩ := by
    obtain ⟨b, f, hrun, hb⟩ := h c [] log
    rcases hm log with ⟨log', hdone⟩ | ⟨fault, t, hstopped, -⟩ | ⟨hexhausted, -⟩
    · obtain ⟨rfl, -⟩ := Outcome.done.inj (hrun.symm.trans (hdone c []))
      exact ⟨hb, log', hdone⟩
    · cases hrun.symm.trans (hstopped c [])
    · cases hrun.symm.trans (hexhausted c [])
  exact ⟨(hdone []).1, fun log => .inl (hdone log).2⟩

end Yields

end Sequences

/-! ### Waiting faults -/

/-- An error object of a fault that has not stopped the host yet. -/
def Waits (s : State) (message : String) (v : Value) : Prop := ∃ r, v = .failure r ∧ s.failure r = .fatal message

/-- What a value is to the host if no fault waits in it. -/
def received (s : State) : Value → Value
  | .failure r => if s.failure r = .spent then .nil else .failure r
  | v => v

theorem receive_yields (v : Value) : Yields s (Waits s · v) False [] (receive v) (received s v) := by
  intro log
  cases v with
  | failure r =>
    cases hr : s.failure r with
    | error text =>
      have hr' : State.failure { s with log } r = .error text := hr
      refine .inl ⟨log, fun c st => ?_⟩
      simp only [receive, state_bind, List.nil_append, hr', received, hr]
      rfl
    | fatal message =>
      have hr' : State.failure { s with log } r = .fatal message := hr
      refine .inr (.inl ⟨.carried message, { s.spend r with log }, fun c st => ?_, r, rfl, hr⟩)
      simp only [receive, state_bind, List.nil_append, hr']
      rfl
    | spent =>
      have hr' : State.failure { s with log } r = .spent := hr
      refine .inl ⟨log, fun c st => ?_⟩
      simp only [receive, state_bind, List.nil_append, hr', received, hr]
      rfl
  | _ => exact .inl ⟨log, fun _ _ => rfl⟩

/-- A list of values crosses with the faults of all of them. -/
theorem receiveAll_yields (vs : List Value) :
    Yields s (fun message => ∃ v ∈ vs, Waits s message v) False [] (receiveAll vs) (vs.map (received s)) := by
  induction vs with
  | nil => exact .pure _
  | cons v vs ih =>
    refine ((receive_yields v).mono ?_ id).seq ((ih.mono ?_ id).seq (.pure _))
    · exact fun message h => ⟨v, List.mem_cons_self, h⟩
    · exact fun message ⟨w, hw, h⟩ => ⟨w, List.mem_cons_of_mem _ hw, h⟩

/-- Faults in the keys and values of pairs. -/
def Laid (s : State) (ps : List (Value × Value)) (message : String) : Prop :=
  ∃ p ∈ ps, Waits s message p.1 ∨ Waits s message p.2

theorem receivePairs_yields (ps : List (Value × Value)) :
    Yields s (Laid s ps) False [] (receivePairs ps) (ps.map fun p => (received s p.1, received s p.2)) := by
  induction ps with
  | nil => exact .pure _
  | cons p ps ih =>
    refine ((receive_yields p.1).mono ?_ id).seq (((receive_yields p.2).mono ?_ id).seq ((ih.mono ?_ id).seq (.pure _)))
    · exact fun message h => ⟨p, List.mem_cons_self, .inl h⟩
    · exact fun message h => ⟨p, List.mem_cons_self, .inr h⟩
    · exact fun message ⟨q, hq, h⟩ => ⟨q, List.mem_cons_of_mem _ hq, h⟩

/-! ### Drained tables -/

/-- The host value for a script value, with the tables that tables drain to. -/
def stored? (s : State) (sub : TableRef → Table) : Value → Option Host.Value
  | .number n => some (.number n.toDouble)
  | .text b => (String.fromUTF8? b).map .text
  | .boolean b => some (.boolean b)
  | .pointer p => some (.pointer p)
  | .table r => some (.ofTable (sub r))
  | .function r => (s.hostFunction? r).map .function
  | .nil | .thread _ | .failure _ => none

/-- Adds the pairs that the host can store. -/
def gather (s : State) (sub : TableRef → Table) : List (Value × Value) → Table → Table
  | [], t => t
  | (k, v) :: rest, t =>
    match Host.keySpelling? k, stored? s sub v with
    | some key, some stored => gather s sub rest (t.set key stored)
    | _, _ => gather s sub rest t

/-- The host table for a script table, nested tables at most `n` deep. -/
def drained (s : State) : Nat → TableRef → Table
  | 0, _ => {}
  | n + 1, r => gather s (drained s n) (s.table r).pairs {}

theorem eq_table_of_received {v : Value} {r : TableRef} (h : received s v = .table r) : v = .table r := by
  cases v with
  | failure r' =>
    rw [received] at h
    split at h <;> cases h
  | _ => exact h

theorem keySpelling?_received (v : Value) : Host.keySpelling? (received s v) = Host.keySpelling? v := by
  cases v with
  | failure r =>
    rw [received]
    split <;> rfl
  | _ => rfl

theorem stored?_received (sub : TableRef → Table) (v : Value) : stored? s sub (received s v) = stored? s sub v := by
  cases v with
  | failure r =>
    rw [received]
    split <;> rfl
  | _ => rfl

theorem gather_received (sub : TableRef → Table) (ps : List (Value × Value)) (t : Table) :
    gather s sub (ps.map fun p => (received s p.1, received s p.2)) t = gather s sub ps t := by
  induction ps generalizing t with
  | nil => rfl
  | cons p ps ih =>
    simp only [List.map_cons, gather, keySpelling?_received, stored?_received, ih]

/-! ### Draining -/

section Draining

variable {faulty : String → Prop} {deep : Prop} {sub : TableRef → Exchange Table} {sub' : TableRef → Table}

theorem keep_yields (t : Table) (key : String) (v : Host.Value) :
    Yields s faulty deep [] (keep t key v) (t.set key v) := by
  unfold keep
  cases t.find? key with
  | none => exact .pure _
  | some previous => exact .seq (.emit _ _ _) (.pure _)

theorem convert?_yields {v : Value} (hsub : ∀ r, v = .table r → Yields s faulty deep [] (sub r) (sub' r)) :
    Yields s faulty deep [] (convert? sub v) (stored? s sub' v) := by
  cases v with
  | table r => exact .seq (hsub r rfl) (.pure _)
  | function r => exact fun log => .inl ⟨log, fun _ _ => rfl⟩
  | _ => exact .pure _

theorem drainPairs_yields {ps : List (Value × Value)} (t : Table)
    (hsub : ∀ p ∈ ps, ∀ r, p.2 = .table r → Yields s faulty deep [] (sub r) (sub' r)) :
    Yields s faulty deep [] (drainPairs sub ps t) (gather s sub' ps t) := by
  induction ps generalizing t with
  | nil => exact .pure _
  | cons p ps ih =>
    obtain ⟨k, v⟩ := p
    obtain ⟨hv, hps⟩ := List.forall_mem_cons.1 hsub
    unfold drainPairs gather
    cases Host.keySpelling? k with
    | none => exact .seq (.emit _ _ _) (ih t hps)
    | some key =>
      refine .seq (convert?_yields hv) ?_
      cases stored? s sub' v with
      | none => exact .seq (.emit _ _ _) (ih t hps)
      | some stored => exact .seq (keep_yields t key stored) (ih _ hps)

end Draining

/-- A table that iteration over another yields. -/
def Inner (s : State) (r r' : TableRef) : Prop := ∃ k, (k, .table r') ∈ (s.table r).pairs

/-- Faults in a table and in those within it. -/
def Laden (s : State) (r : TableRef) (message : String) : Prop :=
  ∃ r', Relation.ReflTransGen (Inner s) r r' ∧ Laid s (s.table r').pairs message

/-- There are tables within tables, `n` deep. -/
def Deep (s : State) : Nat → TableRef → Prop
  | 0, _ => True
  | n + 1, r => ∃ r', Inner s r r' ∧ Deep s n r'

theorem Laden.of_inner {r r' : TableRef} {message : String} (h : Laden s r' message) (hr : Inner s r r') :
    Laden s r message := by
  obtain ⟨r'', hr', hlaid⟩ := h
  exact ⟨r'', hr'.head hr, hlaid⟩

theorem entriesOf_yields (r : TableRef) :
    Yields s (Laid s (s.table r).pairs) False [] (entriesOf r)
      ((s.table r).pairs.map fun p => (received s p.1, received s p.2)) :=
  fun log => receivePairs_yields (s.table r).pairs log

/-- The outermost table goes over what the host has already. -/
theorem drainInto_succ_yields {n : Nat} {r : TableRef} (t : Table)
    (hsub : ∀ r', Yields s (Laden s r') (Deep s n r') [] (drainInto n r' {}) (drained s n r')) :
    Yields s (Laden s r) (Deep s (n + 1) r) [] (drainInto (n + 1) r t)
      (gather s (drained s n) (s.table r).pairs t) := by
  have hentries : Yields s (Laden s r) (Deep s (n + 1) r) [] (entriesOf r)
      ((s.table r).pairs.map fun p => (received s p.1, received s p.2)) :=
    (entriesOf_yields r).mono (fun message h => ⟨r, .refl, h⟩) False.elim
  have hpairs : Yields s (Laden s r) (Deep s (n + 1) r) [] (drainPairs (fun r => drainInto n r {})
      ((s.table r).pairs.map fun p => (received s p.1, received s p.2)) t)
      (gather s (drained s n) (s.table r).pairs t) := by
    rw [← gather_received]
    refine drainPairs_yields t fun p hp r' hr' => ?_
    obtain ⟨q, hq, rfl⟩ := List.mem_map.1 hp
    have hinner : Inner s r r' := ⟨q.1, eq_table_of_received hr' ▸ hq⟩
    exact (hsub r').mono (fun message h => h.of_inner hinner) fun h => ⟨r', hinner, h⟩
  unfold drainInto
  exact hentries.seq (hpairs.seq (.seq (.emit _ _ _) (.pure _)))

theorem drainInto_yields (n : Nat) (r : TableRef) :
    Yields s (Laden s r) (Deep s n r) [] (drainInto n r {}) (drained s n r) := by
  induction n generalizing r with
  | zero => exact fun log => .inr (.inr ⟨fun _ _ => rfl, trivial⟩)
  | succ n ih => exact drainInto_succ_yields {} ih

theorem drain_yields (r : TableRef) (t : Table) :
    Yields s (Laden s r) (Deep s (s.tables.size + 1) r) [] (drain r t)
      (gather s (drained s s.tables.size) (s.table r).pairs t) :=
  fun log => drainInto_succ_yields t (drainInto_yields s.tables.size) log

/-! ### Cycles -/

/-- No table within the table contains itself. -/
def Acyclic (s : State) (r : TableRef) : Prop :=
  ∀ r', Relation.ReflTransGen (Inner s) r r' → ¬Relation.TransGen (Inner s) r' r'

theorem Acyclic.of_inner {r r' : TableRef} (h : Acyclic s r) (hr : Inner s r r') : Acyclic s r' :=
  fun r'' hr'' => h r'' (hr''.head hr)

theorem Inner.lt {r r' : TableRef} (h : Inner s r r') : r < s.tables.size := by
  by_contra hr
  obtain ⟨k, hk⟩ := h
  rw [State.table, Array.getD_eq_getD_getElem?, Array.getElem?_eq_none (Nat.le_of_not_lt hr)] at hk
  cases hk

/-- The tables on the way down are all different, so there cannot be more of them than there are tables. -/
theorem Acyclic.not_deep_of_seen {n : Nat} {r : TableRef} (h : Acyclic s r) (seen : Finset Nat)
    (hseen : seen ⊆ Finset.range s.tables.size) (hway : ∀ q ∈ seen, Relation.TransGen (Inner s) q r)
    (hn : s.tables.size < seen.card + n) : ¬Deep s n r := by
  induction n generalizing r seen with
  | zero =>
    have hcard := Finset.card_le_card hseen
    rw [Finset.card_range] at hcard
    omega
  | succ n ih =>
    rintro ⟨r', hr, hdeep⟩
    have hnew : r ∉ seen := fun hc => h r .refl (hway r hc)
    refine ih (h.of_inner hr) (insert r seen) ?_ ?_ ?_ hdeep
    · exact Finset.insert_subset (Finset.mem_range.2 hr.lt) hseen
    · intro q hq
      rcases Finset.mem_insert.1 hq with rfl | hq
      · exact .single hr
      · exact (hway q hq).tail hr
    · rw [Finset.card_insert_of_notMem hnew]
      omega

theorem Acyclic.not_deep {r : TableRef} (h : Acyclic s r) : ¬Deep s (s.tables.size + 1) r :=
  h.not_deep_of_seen ∅ (Finset.empty_subset _) (by simp) (by simp)

end ScriptHost.Exchange
