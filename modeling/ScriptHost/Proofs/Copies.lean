import ScriptHost.Proofs.Exchanges
import ScriptHost.Proofs.HostValues

/-! Script copies of host values. Pushing a host value builds its copy from tables that are new in
the state, each before the ones within it, and leaves everything that was there as it was. -/

namespace ScriptHost

open Script (State TableRef)

/-! ### What stays -/

/-- The second state has the variables and functions of the first, and differs from it at most in
tables, wrappers and events. -/
structure Script.State.Retains (s s' : State) : Prop where
  globals : s'.globals = s.globals
  cells : s'.cells = s.cells
  failures : s'.failures = s.failures
  threads : s'.threads = s.threads
  size : s.tables.size ≤ s'.tables.size
  function : ∀ r g, s.function? r = some g → s'.function? r = some g
  linked : s.Linked → s'.Linked
  named : s.Named → s'.Named

namespace Script.State.Retains

variable {s s' s'' : State}

theorem refl (s : State) : s.Retains s where
  globals := rfl
  cells := rfl
  failures := rfl
  threads := rfl
  size := Nat.le_refl _
  function _ _ h := h
  linked h := h
  named h := h

theorem trans (h : s.Retains s') (h' : s'.Retains s'') : s.Retains s'' where
  globals := h'.globals.trans h.globals
  cells := h'.cells.trans h.cells
  failures := h'.failures.trans h.failures
  threads := h'.threads.trans h.threads
  size := Nat.le_trans h.size h'.size
  function r g hg := h'.function r g (h.function r g hg)
  linked hl := h'.linked (h.linked hl)
  named hn := h'.named (h.named hn)

/-- Nothing but tables and events has changed. -/
theorem of_tables (s : State) (tables : Array Script.Table) (log : List Event) (h : s.tables.size ≤ tables.size) :
    s.Retains { s with tables, log } :=
  { refl s with size := h }

theorem wrap (s : State) (f : HostFunction) : s.Retains (s.wrap f).2 where
  globals := by rcases s.wrap_cases f with ⟨_, -, he⟩ | ⟨-, _, he⟩ <;> rw [he]
  cells := by rcases s.wrap_cases f with ⟨_, -, he⟩ | ⟨-, _, he⟩ <;> rw [he]
  failures := s.failures_wrap f
  threads := by rcases s.wrap_cases f with ⟨_, -, he⟩ | ⟨-, _, he⟩ <;> rw [he]
  size := by simp
  function _ _ h := State.function?_wrap h f
  linked h := h.wrap f
  named h := h.wrap f

end Script.State.Retains

/-- As `Retains`, and the tables of the first state are in the second as they were, but for the table
`own`. -/
structure Script.State.Extends (own : Option TableRef) (s s' : State) : Prop extends s.Retains s' where
  table : ∀ r, r < s.tables.size → some r ≠ own → s'.table r = s.table r

namespace Script.State.Extends

variable {own : Option TableRef} {s s' s'' : State}

theorem refl (own : Option TableRef) (s : State) : s.Extends own s := ⟨.refl s, fun _ _ _ => rfl⟩

theorem trans (h : s.Extends own s') (h' : s'.Extends own s'') : s.Extends own s'' where
  toRetains := h.toRetains.trans h'.toRetains
  table r hr ho := (h'.table r (Nat.lt_of_lt_of_le hr h.size) ho).trans (h.table r hr ho)

theorem weaken (h : s.Extends none s') (own : Option TableRef) : s.Extends own s' :=
  ⟨h.toRetains, fun r hr _ => h.table r hr (Option.some_ne_none r)⟩

/-- A table that is new in between does not count. -/
theorem trans_new {r : TableRef} (h : s.Extends none s') (hr : s.tables.size ≤ r) (h' : s'.Extends (some r) s'') :
    s.Extends none s'' where
  toRetains := h.toRetains.trans h'.toRetains
  table r' hr' _ := by
    have hne : some r' ≠ some r := by
      intro hc
      have := Option.some.inj hc
      omega
    rw [h'.table r' (Nat.lt_of_lt_of_le hr' h.size) hne, h.table r' hr' (Option.some_ne_none r')]

theorem newTable (s : State) (t : Script.Table) : s.Extends none (s.newTable t).2 where
  toRetains := .of_tables s _ s.log (by simp)
  table r hr _ := by rw [State.table_newTable, if_neg (Nat.ne_of_lt hr)]

theorem rawSet (s : State) (r : TableRef) (k v : Script.Value) : s.Extends (some r) (s.rawSet r k v) where
  toRetains := .of_tables s _ s.log (Nat.le_of_eq (Array.size_modify ..).symm)
  table _ _ ho := State.table_rawSet_of_ne (fun h => ho (congrArg some h)) s k v

theorem relog (s : State) (log : List Event) : s.Extends none { s with log } :=
  ⟨.of_tables s _ log (Nat.le_refl _), fun _ _ _ => rfl⟩

theorem emit (s : State) (origin : Origin) (level : Level) (message : String) :
    s.Extends none (s.emit origin level message) :=
  .relog s _

theorem wrap (s : State) (f : HostFunction) : s.Extends none (s.wrap f).2 where
  toRetains := .wrap s f
  table r _ _ := by rw [State.table, State.table, State.tables_wrap]

end Script.State.Extends

namespace Exchange

open Script (Value)

/-! ### Copies -/

mutual

/-- How many tables a host value is made of. -/
def extent : Host.Value → Nat
  | .table es => 1 + extentEntries es
  | .number _ | .text _ | .boolean _ | .function _ | .pointer _ => 0

def extentEntries : List (String × Host.Value) → Nat
  | [] => 0
  | (_, v) :: es => extent v + extentEntries es

end

mutual

/-- A script value that is a copy of a host value in a state. Its tables have no handlers and lie one
after another from `start` on, each before the ones within it. -/
def Copy (s : State) : Host.Value → TableRef → Value → Prop
  | .number x, _, w => w = .number (.double x)
  | .text t, _, w => w = .ofString t
  | .boolean b, _, w => w = .boolean b
  | .function f, _, w => ∃ r, w = .function r ∧ s.hostFunction? r = some f
  | .table es, start, w => w = .table start ∧ start < s.tables.size ∧ s.metatable? start = none ∧
      CopyEntries s es (start + 1) (s.table start).entries
  | .pointer p, _, w => w = .pointer p

/-- The entries of a table, one by one and in order. -/
def CopyEntries (s : State) : List (String × Host.Value) → TableRef → List (Value × Value) → Prop
  | [], _, ws => ws = []
  | (k, v) :: es, start, ws =>
    ∃ w rest, ws = (Host.scriptKey k, w) :: rest ∧ Copy s v start w ∧ CopyEntries s es (start + extent v) rest

end

variable {s s' : State} {own : Option TableRef}

theorem Copy.not_nil {v : Host.Value} {start : TableRef} {w : Value} (h : Copy s v start w) : w ≠ .nil := by
  rintro rfl
  cases v with
  | function f =>
    obtain ⟨_, hw, -⟩ := h
    cases hw
  | table es => cases h.1
  | _ => cases h

theorem Copy.not_failure {v : Host.Value} {start : TableRef} {w : Value} (h : Copy s v start w) (r : Nat) :
    w ≠ .failure r := by
  rintro rfl
  cases v with
  | function f =>
    obtain ⟨_, hw, -⟩ := h
    cases hw
  | table es => cases h.1
  | _ => cases h

mutual

/-- Writes elsewhere leave a copy a copy. -/
theorem Copy.extend {v : Host.Value} {start : Nat} {w : Value} (h : Copy s v start w)
    (he : s.Extends own s') (ho : ∀ r : Nat, start ≤ r → r < start + extent v → some r ≠ own) : Copy s' v start w := by
  cases v with
  | function f =>
    obtain ⟨r, rfl, hf⟩ := h
    exact ⟨r, rfl, State.hostFunction?_eq_some.2 (he.function r _ (State.hostFunction?_eq_some.1 hf))⟩
  | table es =>
    obtain ⟨rfl, hsize, hm, hes⟩ := h
    simp only [extent] at ho
    have ht : s'.table start = s.table start := he.table start hsize (ho start (Nat.le_refl _) (by omega))
    refine ⟨rfl, Nat.lt_of_lt_of_le hsize he.size, ?_, ?_⟩
    · rwa [State.metatable?, ht]
    · rw [ht]
      exact hes.extend he fun r hr hlt => ho r (Nat.le_of_succ_le hr) (by omega)
  | _ => exact h

theorem CopyEntries.extend {es : List (String × Host.Value)} {start : Nat} {ws : List (Value × Value)}
    (h : CopyEntries s es start ws) (he : s.Extends own s')
    (ho : ∀ r : Nat, start ≤ r → r < start + extentEntries es → some r ≠ own) : CopyEntries s' es start ws := by
  cases es with
  | nil => exact h
  | cons e es =>
    obtain ⟨w, rest, rfl, hw, hrest⟩ := h
    simp only [extentEntries] at ho
    refine ⟨w, rest, rfl, hw.extend he fun r hr hlt => ho r hr (by omega), hrest.extend he fun r hr hlt => ?_⟩
    exact ho r (Nat.le_trans (Nat.le_add_right ..) hr) (by omega)

end

/-! ### Entries -/

/-- An entry that copies a host entry, its tables anywhere from `low` on. -/
def CopiedEntry (key : String → Value) (s : State) (low : Nat) (e : String × Host.Value) (p : Value × Value) : Prop :=
  p.1 = key e.1 ∧ ∃ start, low ≤ start ∧ Copy s e.2 start p.2

/-- Copies of entries, one by one and in order. -/
def CopiedEntries (key : String → Value) (s : State) (low : Nat) :
    List (String × Host.Value) → List (Value × Value) → Prop :=
  List.Forall₂ (CopiedEntry key s low)

theorem CopyEntries.copied {es : List (String × Host.Value)} {start low : Nat} {ws : List (Value × Value)}
    (h : CopyEntries s es start ws) (hlow : low ≤ start) : CopiedEntries Host.scriptKey s low es ws := by
  induction es generalizing start ws with
  | nil =>
    rw [show ws = [] from h]
    exact .nil
  | cons e es ih =>
    obtain ⟨w, rest, rfl, hw, hrest⟩ := h
    exact .cons ⟨rfl, start, hlow, hw⟩ (ih hrest (Nat.le_trans hlow (Nat.le_add_right ..)))

namespace CopiedEntries

variable {key : String → Value} {low : Nat} {es : List (String × Host.Value)} {ws : List (Value × Value)}

/-- The script keys are those of the host, each once. -/
theorem keys (h : CopiedEntries key s low es ws) : ws.map (·.1) = es.map fun e => key e.1 := by
  induction h with
  | nil => rfl
  | cons hep _ ih => rw [List.map_cons, List.map_cons, ih, hep.1]

theorem not_nil (h : CopiedEntries key s low es ws) : ∀ p ∈ ws, p.2 ≠ .nil := by
  induction h with
  | nil => simp
  | cons hep _ ih =>
    obtain ⟨-, _, -, hw⟩ := hep
    exact List.forall_mem_cons.2 ⟨hw.not_nil, ih⟩

/-- Writes to a table before their own leave copied entries as they are. -/
theorem extend (h : CopiedEntries key s low es ws) {r : Nat} (he : s.Extends (some r) s') (hr : r < low) :
    CopiedEntries key s' low es ws := by
  refine h.imp fun e p hep => ?_
  obtain ⟨hk, start, hstart, hw⟩ := hep
  refine ⟨hk, start, hstart, hw.extend he fun q hq _ hc => ?_⟩
  have hqr : q = r := Option.some.inj hc
  omega

/-- Storing the copy of a value is storing the value. -/
theorem put (h : CopiedEntries key s low es ws) (hkey : Function.Injective key) {k : String} {v : Host.Value}
    {start : Nat} {w : Value} (hw : Copy s v start w) (hstart : low ≤ start) :
    CopiedEntries key s low (Host.Table.insertEntry k v es) (Script.Table.put (key k) w ws) := by
  induction h with
  | nil =>
    rw [Script.Table.put, if_neg hw.not_nil]
    exact .cons ⟨rfl, start, hstart, hw⟩ .nil
  | @cons e p es ws hep hrest ih =>
    obtain ⟨k', x⟩ := p
    obtain rfl : k' = key e.1 := hep.1
    by_cases hk : k = e.1
    · simp only [Host.Table.insertEntry, Script.Table.put, if_pos hk, if_pos (congrArg key hk)]
      exact .cons ⟨rfl, start, hstart, hw⟩ hrest
    · simp only [Host.Table.insertEntry, Script.Table.put, if_neg hk, if_neg fun hc => hk (hkey hc)]
      exact .cons hep ih

end CopiedEntries

/-! ### Pushing -/

mutual

/-- Pushing a host value adds one value to any stack, a copy made of new tables. -/
theorem pushHost_run (v : Host.Value) (hv : v.Distinct) (s : State) (hs : s.Linked) :
    ∃ w s', (∀ c st, pushHost v c ⟨st, s⟩ = .done () ⟨w :: st, s'⟩) ∧ s.Extends none s' ∧
      s'.tables.size = s.tables.size + extent v ∧ Copy s' v s.tables.size w := by
  cases v with
  | number x => exact ⟨_, s, fun _ _ => rfl, .refl none s, rfl, rfl⟩
  | text t => exact ⟨_, s, fun _ _ => rfl, .refl none s, rfl, rfl⟩
  | boolean b => exact ⟨_, s, fun _ _ => rfl, .refl none s, rfl, rfl⟩
  | pointer p => exact ⟨_, s, fun _ _ => rfl, .refl none s, rfl, rfl⟩
  | function f => exact ⟨_, (s.wrap f).2, fun _ _ => rfl, .wrap s f, by simp [extent], _, rfl, hs.hostFunction?_wrap f⟩
  | table es =>
    -- the new table is the first that the copy takes, so the tables within it lie behind
    have hnew : (s.newTable {}).2.table s.tables.size = {} := by rw [State.table_newTable, if_pos rfl]
    obtain ⟨s', ws, hrun, he, hsize, ht, hes⟩ := pushEntries_run es hv (s.newTable {}).2 s.tables.size
      hs (by simp) (by rw [State.metatable?, hnew]) (by rw [hnew]; simp)
    rw [State.size_newTable] at hsize hes
    rw [hnew] at ht
    refine ⟨.table s.tables.size, s', ?_, (State.Extends.newTable s {}).trans_new (Nat.le_refl _) he, ?_,
      rfl, ?_, ?_, ?_⟩
    · intro c st
      unfold pushHost
      refine balanced_done ?_
      rw [newTable_bind]
      exact hrun c st
    · rw [hsize, extent, Nat.add_assoc]
    · rw [hsize]
      exact Nat.lt_of_lt_of_le (Nat.lt_succ_self _) (Nat.le_add_right ..)
    · rw [State.metatable?, ht]
    · rw [ht]
      exact hes

/-- Storing the rest of the entries in a table whose first ones have other keys. -/
theorem pushEntries_run (es : List (String × Host.Value)) (hes : Host.Value.DistinctEntries es) (s : State)
    (r : TableRef) (hs : s.Linked) (hr : r < s.tables.size) (hm : s.metatable? r = none)
    (hnew : ∀ k ∈ es.map (·.1), Host.scriptKey k ∉ (s.table r).entries.map (·.1)) :
    ∃ s' ws, (∀ c st, pushEntries es c ⟨.table r :: st, s⟩ = .done () ⟨.table r :: st, s'⟩) ∧
      s.Extends (some r) s' ∧
      s'.tables.size = s.tables.size + extentEntries es ∧
      s'.table r = { s.table r with entries := (s.table r).entries ++ ws } ∧
      CopyEntries s' es s.tables.size ws := by
  cases es with
  | nil => exact ⟨s, [], fun _ _ => rfl, .refl _ s, rfl, by simp, rfl⟩
  | cons e es =>
    obtain ⟨k, v⟩ := e
    obtain ⟨hk, hv, hes⟩ := hes
    obtain ⟨w, s₁, hrun, he, hsize₁, hw⟩ := pushHost_run v hv s hs
    have ht₁ : s₁.table r = s.table r := he.table r hr (Option.some_ne_none r)
    have hr₁ : r < s₁.tables.size := Nat.lt_of_lt_of_le hr he.size
    have hm₁ : s₁.metatable? r = none := by rwa [State.metatable?, ht₁]
    have ht₂ : (s₁.rawSet r (Host.scriptKey k) w).table r =
        { s.table r with entries := (s.table r).entries ++ [(Host.scriptKey k, w)] } := by
      rw [State.table_rawSet_self hr₁, ht₁, Script.Table.set, Host.asKey_scriptKey,
        Script.Table.put_of_not_mem hw.not_nil (hnew k (by simp))]
    have hnew₂ : ∀ k' ∈ es.map (·.1),
        Host.scriptKey k' ∉ ((s₁.rawSet r (Host.scriptKey k) w).table r).entries.map (·.1) := by
      intro k' hk'
      rw [ht₂, List.map_append, List.mem_append, not_or]
      refine ⟨hnew k' (List.mem_cons_of_mem _ hk'), ?_⟩
      simp only [List.map_cons, List.map_nil, List.mem_singleton]
      intro hc
      exact hk (Host.scriptKey_injective hc ▸ hk')
    obtain ⟨s', ws, hrun', he', hsize', ht', hes'⟩ := pushEntries_run es hes
      (s₁.rawSet r (Host.scriptKey k) w) r (he.linked hs) (by simpa using hr₁) (by simpa using hm₁) hnew₂
    rw [State.size_rawSet, hsize₁] at hsize' hes'
    have hset : s₁.Extends (some r) s' := (State.Extends.rawSet s₁ r (Host.scriptKey k) w).trans he'
    refine ⟨s', (Host.scriptKey k, w) :: ws, ?_, (he.weaken _).trans hset, ?_, ?_, w, ws, rfl, ?_, hes'⟩
    · intro c st
      unfold pushEntries
      rw [push_bind, bind_done (hrun c _), bind_done (setTable_run c (State.handler_of_metatable? hm₁ _) (by simp) _ w)]
      exact hrun' c st
    · rw [hsize', extentEntries, Nat.add_assoc]
    · rw [ht', ht₂]
      simp
    · apply hw.extend hset
      intro r' hr' _ hc
      exact Nat.lt_irrefl r (Nat.lt_of_lt_of_le hr (Option.some.inj hc ▸ hr'))

end

/-- A script value that is a copy of a host value, made of tables anywhere. -/
def IsCopy (s : State) (v : Host.Value) (w : Value) : Prop := ∃ start, Copy s v start w

/-- Pushing values one after another puts the copy of the last on top. -/
theorem pushAll_run (vs : List Host.Value) (hvs : ∀ v ∈ vs, v.Distinct) (s : State) (hs : s.Linked) :
    ∃ ws s', (∀ c st, pushAll vs c ⟨st, s⟩ = .done () ⟨ws.reverse ++ st, s'⟩) ∧ s.Extends none s' ∧
      List.Forall₂ (IsCopy s') vs ws := by
  induction vs generalizing s with
  | nil => exact ⟨[], s, fun _ _ => rfl, .refl none s, .nil⟩
  | cons v vs ih =>
    obtain ⟨hv, hvs⟩ := List.forall_mem_cons.1 hvs
    obtain ⟨w, s₁, hrun, he, -, hw⟩ := pushHost_run v hv s hs
    obtain ⟨ws, s', hruns, he', hws⟩ := ih hvs s₁ (he.linked hs)
    have hcopy : IsCopy s' v w := ⟨_, hw.extend he' fun r _ _ => Option.some_ne_none r⟩
    refine ⟨w :: ws, s', fun c st => ?_, he.trans he', .cons hcopy hws⟩
    rw [pushAll, bind_done (hrun c st), hruns]
    simp

end Exchange

end ScriptHost
