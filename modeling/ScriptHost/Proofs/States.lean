import Mathlib.Logic.Relation
import ScriptHost.Proofs.ScriptTables
import ScriptHost.Proofs.Steps
import ScriptHost.Script.Builtins

/-! States of the engine: what a write leaves as it was, the states that an engine can come to, and
the register of wrappers, which in such a state names the host function of every wrapper. -/

namespace ScriptHost.Script

/-- What a value refers to is there. -/
def Value.Valid (s : State) : Value → Prop
  | .table r => r < s.tables.size
  | .function r => r < s.functions.size
  | _ => True

theorem Value.valid_of_not_isReference {v : Value} (h : ¬v.IsReference) (s : State) : v.Valid s := by
  cases v with
  | table | function => exact absurd trivial h
  | _ => trivial

namespace State

/-- No table and no variable refers to a table or function that is not there. -/
structure Closed (s : State) : Prop where
  globals : s.globals < s.tables.size
  metatable : ∀ r m, s.metatable? r = some m → m < s.tables.size
  entry : ∀ r, ∀ e ∈ (s.table r).entries, e.1.Valid s ∧ e.2.Valid s
  cell : ∀ i, (s.cell i).Valid s

/-- What is read from a table is there. -/
theorem Closed.rawGet {s : State} (h : s.Closed) (r : TableRef) (k : Value) : (s.rawGet r k).Valid s := by
  by_cases hv : s.rawGet r k = .nil
  · rw [hv]
    trivial
  · exact (h.entry r _ (Table.mem_of_find rfl hv)).2

/-- A key under which a table holds something is there. -/
theorem Closed.key {s : State} (h : s.Closed) {r : TableRef} {k : Value} (hk : s.rawGet r k ≠ .nil) :
    k.asKey.Valid s :=
  (h.entry r _ (Table.mem_of_find rfl hk)).1

/-! ### Tables -/

theorem table_newTable (s : State) (t : Table) (r : TableRef) :
    (s.newTable t).2.table r = if r = s.tables.size then t else s.table r := by
  simp only [newTable, table, Array.getD_eq_getD_getElem?, Array.getElem?_push]
  split <;> rfl

@[simp] theorem size_newTable (s : State) (t : Table) : (s.newTable t).2.tables.size = s.tables.size + 1 :=
  Array.size_push ..

theorem table_modifyTable (s : State) (r r' : TableRef) (f : Table → Table) :
    (s.modifyTable r f).table r' = if r' = r ∧ r < s.tables.size then f (s.table r') else s.table r' := by
  simp only [modifyTable, table, Array.getD_eq_getD_getElem?, Array.getElem?_modify]
  by_cases h : r = r'
  · subst h
    by_cases hr : r < s.tables.size
    · simp [hr]
    · simp [hr]
  · simp [h, Ne.symm h]

@[simp] theorem size_modifyTable (s : State) (r : TableRef) (f : Table → Table) :
    (s.modifyTable r f).tables.size = s.tables.size :=
  Array.size_modify ..

theorem table_rawSet_self {s : State} {r : TableRef} (hr : r < s.tables.size) (k v : Value) :
    (s.rawSet r k v).table r = (s.table r).set k v := by
  rw [rawSet, table_modifyTable, if_pos ⟨rfl, hr⟩]

theorem table_rawSet_of_ne {r r' : TableRef} (h : r' ≠ r) (s : State) (k v : Value) :
    (s.rawSet r k v).table r' = s.table r' := by
  rw [rawSet, table_modifyTable, if_neg fun hc => h hc.1]

theorem rawGet_rawSet_self {s : State} {r : TableRef} (hr : r < s.tables.size) (k k' v : Value) :
    (s.rawSet r k v).rawGet r k' = if k'.asKey = k.asKey then v else s.rawGet r k' := by
  rw [rawGet, table_rawSet_self hr, Table.get_set]
  rfl

theorem rawGet_rawSet_of_ne {r r' : TableRef} (h : r' ≠ r) (s : State) (k k' v : Value) :
    (s.rawSet r k v).rawGet r' k' = s.rawGet r' k' := by
  rw [rawGet, rawGet, table_rawSet_of_ne h]

@[simp] theorem size_rawSet (s : State) (r : TableRef) (k v : Value) :
    (s.rawSet r k v).tables.size = s.tables.size :=
  size_modifyTable ..

@[simp] theorem metatable?_rawSet (s : State) (r r' : TableRef) (k v : Value) :
    (s.rawSet r k v).metatable? r' = s.metatable? r' := by
  simp only [metatable?, rawSet, table_modifyTable]
  split <;> rfl

/-- A table without a metatable has no handlers. -/
theorem handler_of_metatable? {s : State} {r : TableRef} (h : s.metatable? r = none) (event : String) :
    (Value.table r).handler s event = .nil := by
  rw [Value.handler, h]

/-! ### Functions -/

theorem function?_newFunction {s : State} {r : FunctionRef} {g : Function} (h : s.function? r = some g)
    (f : Function) : (s.newFunction f).2.function? r = some g := by
  obtain ⟨hr, rfl⟩ := Array.getElem?_eq_some_iff.1 h
  exact Array.getElem?_push_lt hr

theorem hostFunction?_eq_some {s : State} {r : FunctionRef} {f : HostFunction} :
    s.hostFunction? r = some f ↔ s.function? r = some (.host f) := by
  unfold hostFunction?
  split
  next g h =>
    rw [h]
    simp
  next h =>
    constructor
    · intro hc
      cases hc
    · intro hc
      exact absurd hc (h f)

/-! ### States to come -/

/-- The writes of an engine: those of scripts, and those of the host between them. -/
inductive Write : State → State → Prop
  | newTable (s : State) (t : Table) : Write s (s.newTable t).2
  | newClosure (s : State) (body : FunctionBody) (scope : Scope) (depth : Nat) (source : ByteArray) :
    Write s (s.newFunction (.closure body scope depth source)).2
  | newCell (s : State) (v : Value) : Write s (s.newCell v).2
  | newFailure (s : State) (f : Failure) : Write s (s.newFailure f).2
  | newThread (s : State) : Write s s.newThread.2
  | modifyTable (s : State) (r : TableRef) (f : Table → Table) : Write s (s.modifyTable r f)
  | setCell (s : State) (r : Nat) (v : Value) : Write s (s.setCell r v)
  | wrap (s : State) (f : HostFunction) : Write s (s.wrap f).2
  | spend (s : State) (r : FailureRef) : Write s (s.spend r)
  | relog (s : State) (log : List Event) : Write s { s with log }

/-- The second state can come after the first. -/
def Later : State → State → Prop := Relation.ReflTransGen Write

/-- A state that an engine can be in. -/
def Reachable (s : State) : Prop := Later fresh s

theorem Later.trans {s t u : State} (h : Later s t) (h' : Later t u) : Later s u :=
  Relation.ReflTransGen.trans h h'

theorem Write.later {s t : State} (h : Write s t) : Later s t := Relation.ReflTransGen.single h

theorem steady_later : Steady Later where
  refl _ := Relation.ReflTransGen.refl
  trans := Later.trans
  newTable s := (Write.newTable s {}).later
  newClosure s body scope depth source := (Write.newClosure s body scope depth source).later
  newCell s v := (Write.newCell s v).later
  newThread s := (Write.newThread s).later
  setCell s r v := (Write.setCell s r v).later
  rawSet s r k v _ := (Write.modifyTable s r (·.set k v)).later
  storePositional s r vs := (Write.modifyTable s r (Table.positional vs)).later
  setMetatable s r _ := (Write.modifyTable s r _).later

/-! ### Wrappers -/

/-- Every registered wrapper is the wrapper of its host function. -/
def Linked (s : State) : Prop :=
  ∀ f r, s.wrappers.lookup f = some r → s.hostFunction? r = some f

theorem wrap_cases (s : State) (f : HostFunction) :
    (∃ r, s.wrappers.lookup f = some r ∧ s.wrap f = (r, s)) ∨
      (s.wrappers.lookup f = none ∧ ∃ log, s.wrap f = (s.functions.size,
        { s with functions := s.functions.push (.host f), wrappers := (f, s.functions.size) :: s.wrappers, log })) := by
  unfold wrap
  cases h : s.wrappers.lookup f with
  | some r => exact .inl ⟨r, rfl, rfl⟩
  | none => exact .inr ⟨rfl, _, rfl⟩

theorem function?_wrap {s : State} {r : FunctionRef} {g : Function} (h : s.function? r = some g)
    (f : HostFunction) : (s.wrap f).2.function? r = some g := by
  rcases s.wrap_cases f with ⟨_, -, he⟩ | ⟨-, _, he⟩
  · rwa [he]
  · rw [he]
    exact function?_newFunction h (.host f)

@[simp] theorem tables_wrap (s : State) (f : HostFunction) : (s.wrap f).2.tables = s.tables := by
  rcases s.wrap_cases f with ⟨_, -, he⟩ | ⟨-, _, he⟩ <;> rw [he]

@[simp] theorem failures_wrap (s : State) (f : HostFunction) : (s.wrap f).2.failures = s.failures := by
  rcases s.wrap_cases f with ⟨_, -, he⟩ | ⟨-, _, he⟩ <;> rw [he]

/-- The wrapper of a host function stands for it. -/
theorem Linked.hostFunction?_wrap {s : State} (h : s.Linked) (f : HostFunction) :
    (s.wrap f).2.hostFunction? (s.wrap f).1 = some f := by
  rcases s.wrap_cases f with ⟨r, hr, he⟩ | ⟨-, _, he⟩
  · rw [he]
    exact h f r hr
  · rw [he]
    exact hostFunction?_eq_some.2 Array.getElem?_push_size

theorem Linked.wrap {s : State} (h : s.Linked) (f : HostFunction) : (s.wrap f).2.Linked := by
  rcases s.wrap_cases f with ⟨r, hr, he⟩ | ⟨hn, _, he⟩
  · rwa [he]
  · intro g r hg
    rw [he] at hg
    by_cases hgf : g = f
    · subst hgf
      have hr : s.functions.size = r := by simpa [List.lookup_cons] using hg
      rw [he, ← hr]
      exact hostFunction?_eq_some.2 Array.getElem?_push_size
    · have hg' : s.wrappers.lookup g = some r := by
        simpa [List.lookup_cons, beq_false_of_ne hgf] using hg
      exact hostFunction?_eq_some.2 (function?_wrap (hostFunction?_eq_some.1 (h g r hg')) f)

/-- No other script function stands for a host function than its registered wrapper. -/
def Named (s : State) : Prop :=
  ∀ f r, s.hostFunction? r = some f → s.wrappers.lookup f = some r

theorem Named.wrap {s : State} (h : s.Named) (f : HostFunction) : (s.wrap f).2.Named := by
  rcases s.wrap_cases f with ⟨r, hr, he⟩ | ⟨hn, _, he⟩
  · rwa [he]
  · intro g r hg
    rw [he] at hg ⊢
    rw [hostFunction?_eq_some] at hg
    have hlt : r < s.functions.size + 1 := by
      have hsize := (Array.getElem?_eq_some_iff.1 hg).1
      rwa [Array.size_push] at hsize
    by_cases hr : r = s.functions.size
    · subst hr
      have hfg : Function.host f = .host g := Option.some.inj (Array.getElem?_push_size.symm.trans hg)
      obtain rfl : g = f := Function.host.inj hfg.symm
      simp
    · have hold : s.function? r = some (.host g) := by
        have hlt' : r < s.functions.size := Nat.lt_of_le_of_ne (Nat.le_of_lt_succ hlt) hr
        rwa [function?, Array.getElem?_push_lt hlt', ← Array.getElem?_eq_getElem hlt'] at hg
      have hlookup := h g r (hostFunction?_eq_some.2 hold)
      have hne : g ≠ f := by
        rintro rfl
        rw [hn] at hlookup
        cases hlookup
      simpa [List.lookup_cons, beq_false_of_ne hne] using hlookup

/-- Functions stay what they are. -/
theorem Write.function? {s t : State} (h : Write s t) {r : FunctionRef} {g : Function}
    (hr : s.function? r = some g) : t.function? r = some g := by
  cases h with
  | newClosure body scope depth source => exact function?_newFunction hr _
  | wrap f => exact function?_wrap hr f
  | _ => exact hr

theorem Later.function? {s t : State} (h : Later s t) {r : FunctionRef} {g : Function}
    (hr : s.function? r = some g) : t.function? r = some g := by
  induction h with
  | refl => exact hr
  | tail _ hw ih => exact hw.function? ih

/-- Error objects are never removed. -/
theorem Later.failures_size_le {s t : State} (h : Later s t) : s.failures.size ≤ t.failures.size := by
  induction h with
  | refl => exact Nat.le_refl _
  | tail _ hw ih =>
    refine Nat.le_trans ih ?_
    cases hw with
    | newFailure f => simp [newFailure]
    | spend r => simp [spend]
    | wrap f => simp
    | _ => exact Nat.le_refl _

theorem Write.globals_lt {s t : State} (h : Write s t) (hs : s.globals < s.tables.size) :
    t.globals < t.tables.size := by
  cases h with
  | newTable u =>
    rw [size_newTable]
    exact Nat.lt_succ_of_lt hs
  | modifyTable r g =>
    rw [size_modifyTable]
    exact hs
  | wrap f => rcases s.wrap_cases f with ⟨_, -, he⟩ | ⟨-, _, he⟩ <;> rwa [he]
  | _ => exact hs

/-- The table of globals is there from the start. -/
theorem Reachable.globals_lt {s : State} (h : s.Reachable) : s.globals < s.tables.size := by
  induction h with
  | refl => decide
  | tail _ hw ih => exact hw.globals_lt ih

theorem Write.linked {s t : State} (h : Write s t) (hs : s.Linked) : t.Linked := by
  cases h with
  | newClosure body scope depth source =>
    exact fun f r hf => hostFunction?_eq_some.2 (function?_newFunction (hostFunction?_eq_some.1 (hs f r hf)) _)
  | wrap f => exact hs.wrap f
  | _ => exact hs

theorem Later.linked {s t : State} (h : Later s t) (hs : s.Linked) : t.Linked := by
  induction h with
  | refl => exact hs
  | tail _ hw ih => exact hw.linked ih

theorem Reachable.linked {s : State} (h : s.Reachable) : s.Linked :=
  Later.linked h (by rintro _ _ ⟨⟩)

/-- A function of a script is no wrapper. -/
theorem Write.named {s t : State} (h : Write s t) (hs : s.Named) : t.Named := by
  cases h with
  | newClosure body scope depth source =>
    intro f r hf
    have hr : (s.newFunction (.closure body scope depth source)).2.function? r = some (.host f) :=
      hostFunction?_eq_some.1 hf
    refine hs f r (hostFunction?_eq_some.2 ?_)
    rw [State.function?, newFunction, Array.getElem?_push] at hr
    split at hr
    · cases hr
    · exact hr
  | wrap f => exact hs.wrap f
  | _ => exact hs

theorem Later.named {s t : State} (h : Later s t) (hs : s.Named) : t.Named := by
  induction h with
  | refl => exact hs
  | tail _ hw ih => exact hw.named ih

/-- A new engine has the functions of the language alone. -/
theorem function?_fresh {r : FunctionRef} {g : Function} (h : fresh.function? r = some g) : ∃ b, g = .builtin b := by
  have hall : fresh.functions = (Builtin.all.map Function.builtin).toArray := rfl
  rw [State.function?, hall, List.getElem?_toArray] at h
  obtain ⟨b, -, hb⟩ := List.mem_map.1 (List.mem_of_getElem? h)
  exact ⟨b, hb.symm⟩

theorem Reachable.named {s : State} (h : s.Reachable) : s.Named := by
  refine Later.named h fun f r hf => ?_
  obtain ⟨b, hb⟩ := function?_fresh (hostFunction?_eq_some.1 hf)
  cases hb

end State

end ScriptHost.Script
