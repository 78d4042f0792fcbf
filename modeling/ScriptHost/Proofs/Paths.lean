import ScriptHost.Proofs.Copies

/-! What a script value leads to. Paths go down from a table to the values and keys that it holds and to its
metatable. The copy of a host value has one path to each of its tables; and assignments to tables that a value
does not lead to leave everything that it leads to as it was. -/

namespace ScriptHost.Script

/-- One step down from a table: to the value under a key, to a key, or to the metatable. -/
inductive Turn where
  | under (k : Value)
  | key (k : Value)
  | metatable

/-- The path leads from a value to a table. -/
inductive Leads (s : State) : Value → List Turn → TableRef → Prop
  | here (r : TableRef) : Leads s (.table r) [] r
  | under {r q : TableRef} {k v : Value} {p : List Turn} (he : (k, v) ∈ (s.table r).entries) (h : Leads s v p q) :
      Leads s (.table r) (.under k :: p) q
  | key {r q : TableRef} {k v : Value} {p : List Turn} (he : (k, v) ∈ (s.table r).entries) (h : Leads s k p q) :
      Leads s (.table r) (.key k :: p) q
  | metatable {r m q : TableRef} {p : List Turn} (hm : s.metatable? r = some m) (h : Leads s (.table m) p q) :
      Leads s (.table r) (.metatable :: p) q

/-- Some path leads from the value to the table. -/
def Reaches (s : State) (v : Value) (q : TableRef) : Prop := ∃ p, Leads s v p q

/-- No table is reached from both values. -/
def Apart (s : State) (v w : Value) : Prop := ∀ q, ¬ (Reaches s v q ∧ Reaches s w q)

variable {s t u : State} {v w : Value} {p p' : List Turn} {q r : TableRef}

theorem Leads.append (h : Leads s v p q) (h' : Leads s (.table q) p' r) : Leads s v (p ++ p') r := by
  induction h with
  | here => exact h'
  | under he _ ih => exact .under he (ih h')
  | key he _ ih => exact .key he (ih h')
  | metatable hm _ ih => exact .metatable hm (ih h')

/-- What a value leads to depends on no other tables. -/
theorem leads_iff_of_table (h : ∀ q, Reaches s v q → t.table q = s.table q) : Leads t v p q ↔ Leads s v p q := by
  constructor
  · intro hl
    induction hl with
    | here r => exact .here r
    | @under r q k v p he _ ih =>
      have he' : (k, v) ∈ (s.table r).entries := h r ⟨[], .here r⟩ ▸ he
      exact .under he' (ih fun q ⟨p, hp⟩ => h q ⟨_, .under he' hp⟩)
    | @key r q k v p he _ ih =>
      have he' : (k, v) ∈ (s.table r).entries := h r ⟨[], .here r⟩ ▸ he
      exact .key he' (ih fun q ⟨p, hp⟩ => h q ⟨_, .key he' hp⟩)
    | @metatable r m q p hm _ ih =>
      have hm' : s.metatable? r = some m := by
        rwa [State.metatable?, ← h r ⟨[], .here r⟩]
      exact .metatable hm' (ih fun q ⟨p, hp⟩ => h q ⟨_, .metatable hm' hp⟩)
  · intro hl
    induction hl with
    | here r => exact .here r
    | @under r q k v p he _ ih =>
      have he' : (k, v) ∈ (t.table r).entries := (h r ⟨[], .here r⟩).symm ▸ he
      exact .under he' (ih fun q ⟨p, hp⟩ => h q ⟨_, .under he hp⟩)
    | @key r q k v p he _ ih =>
      have he' : (k, v) ∈ (t.table r).entries := (h r ⟨[], .here r⟩).symm ▸ he
      exact .key he' (ih fun q ⟨p, hp⟩ => h q ⟨_, .key he hp⟩)
    | @metatable r m q p hm _ ih =>
      have hm' : t.metatable? r = some m := by
        rwa [State.metatable?, h r ⟨[], .here r⟩]
      exact .metatable hm' (ih fun q ⟨p, hp⟩ => h q ⟨_, .metatable hm hp⟩)

/-! ### Values that are there -/

/-- What the value refers to is there. -/
def Value.Present (s : State) : Value → Prop
  | .table r => r < s.tables.size
  | .function r => r < s.functions.size
  | .failure r => r < s.failures.size
  | _ => True

/-- Every table that the value leads to is there, with everything in it. -/
structure Whole (s : State) (v : Value) : Prop where
  table : ∀ q, Reaches s v q → q < s.tables.size
  entry : ∀ q, Reaches s v q → ∀ e ∈ (s.table q).entries, e.1.Present s ∧ e.2.Present s

/-- The second state has all that was there in the first, and the tables that the value leads to as they were. -/
structure Spares (s t : State) (v : Value) : Prop where
  tables : s.tables.size ≤ t.tables.size
  table : ∀ q, Reaches s v q → t.table q = s.table q
  function : ∀ r g, s.function? r = some g → t.function? r = some g
  failures : s.failures.size ≤ t.failures.size
  failure : ∀ r, r < s.failures.size → t.failure r = s.failure r

namespace Spares

theorem refl (s : State) (v : Value) : Spares s s v where
  tables := Nat.le_refl _
  table _ _ := rfl
  function _ _ h := h
  failures := Nat.le_refl _
  failure _ _ := rfl

theorem leads_iff (h : Spares s t v) : Leads t v p q ↔ Leads s v p q := leads_iff_of_table h.table

theorem reaches_iff (h : Spares s t v) : Reaches t v q ↔ Reaches s v q := exists_congr fun _ => h.leads_iff

theorem trans (h : Spares s t v) (h' : Spares t u v) : Spares s u v where
  tables := Nat.le_trans h.tables h'.tables
  table q hq := (h'.table q (h.reaches_iff.2 hq)).trans (h.table q hq)
  function r g hr := h'.function r g (h.function r g hr)
  failures := Nat.le_trans h.failures h'.failures
  failure r hr := (h'.failure r (Nat.lt_of_lt_of_le hr h.failures)).trans (h.failure r hr)

theorem present (h : Spares s t v) {w : Value} (hw : w.Present s) : w.Present t := by
  cases w with
  | table r => exact Nat.lt_of_lt_of_le hw h.tables
  | function r =>
    have hr : s.function? r = some s.functions[r] := Array.getElem?_eq_getElem hw
    exact (Array.getElem?_eq_some_iff.1 (h.function r _ hr)).1
  | failure r => exact Nat.lt_of_lt_of_le hw h.failures
  | _ => trivial

theorem whole (h : Spares s t v) (hw : Whole s v) : Whole t v where
  table q hq := Nat.lt_of_lt_of_le (hw.table q (h.reaches_iff.1 hq)) h.tables
  entry q hq e he := by
    have hq' : Reaches s v q := h.reaches_iff.1 hq
    obtain ⟨hk, hv⟩ := hw.entry q hq' e (h.table q hq' ▸ he)
    exact ⟨h.present hk, h.present hv⟩

end Spares

/-! ### Runs of assignments -/

/-- A write that leaves all tables and error objects as they are: it makes something new or sets a variable. -/
structure State.Builds (s t : State) : Prop where
  write : State.Write s t
  tables : s.tables.size ≤ t.tables.size
  table : ∀ r, r < s.tables.size → t.table r = s.table r
  failure : ∀ r, r < s.failures.size → t.failure r = s.failure r

/-- A run of script assignments into tables of a given kind, with what it takes to evaluate them. An assignment
ends in storing without handlers, here also in a change of the metatable. -/
inductive Assigned (into : State → TableRef → Prop) : State → State → Prop
  | start {s : State} : Assigned into s s
  | assign {s t u : State} (h : Assigned into s t) {r : TableRef} (hr : into t r) {site : Site} {k v : Value}
      (hstore : Operators.rawStore site r k v t = .done () u) : Assigned into s u
  | setMetatable {s t : State} (h : Assigned into s t) {r : TableRef} (hr : into t r) (m : Option TableRef) :
      Assigned into s (t.setMetatable r m)
  | build {s t u : State} (h : Assigned into s t) (hw : t.Builds u) : Assigned into s u

theorem rawStore_done {site : Site} {k v : Value} (h : Operators.rawStore site r k v s = .done () t) :
    t = s.rawSet r k v := by
  rw [Operators.rawStore] at h
  cases hk : k.badKey? with
  | none =>
    rw [hk] at h
    cases h
    rfl
  | some bad =>
    rw [hk] at h
    cases h

/-- A change of a table that the value does not lead to. -/
theorem spares_modifyTable (h : ¬ Reaches s v r) (f : Table → Table) : Spares s (s.modifyTable r f) v where
  tables := Nat.le_of_eq (State.size_modifyTable ..).symm
  table q hq := by
    have hne : q ≠ r := fun hc => h (hc ▸ hq)
    rw [State.table_modifyTable, if_neg fun hc => hne hc.1]
  function _ _ h := h
  failures := Nat.le_refl _
  failure _ _ := rfl

theorem State.Builds.spares (h : s.Builds t) (hv : Whole s v) : Spares s t v where
  tables := h.tables
  table q hq := h.table q (hv.table q hq)
  function _ _ hr := h.write.function? hr
  failures := h.write.later.failures_size_le
  failure := h.failure

/-- What a value leads to is not changed by assignments to other tables. -/
theorem Assigned.spares {into : State → TableRef → Prop} (h : Assigned into s t) (hv : Whole s v)
    (hinto : ∀ u r, Assigned into s u → Spares s u v → into u r → ¬ Reaches u v r) : Spares s t v := by
  induction h with
  | start => exact .refl _ v
  | assign h hr hstore ih =>
    rw [rawStore_done hstore]
    exact ih.trans (spares_modifyTable (hinto _ _ h ih hr) _)
  | setMetatable h hr m ih => exact ih.trans (spares_modifyTable (hinto _ _ h ih hr) _)
  | build h hw ih => exact ih.trans (hw.spares (ih.whole hv))

end ScriptHost.Script

namespace ScriptHost.Exchange

open Script (State TableRef Value Turn Leads Reaches Apart Whole Spares)

/-! ### Copies -/

variable {s : State}

theorem not_leads_scriptKey (k : String) (p : List Turn) (q : TableRef) : ¬ Leads s (Host.scriptKey k) p q := by
  intro h
  rcases Host.scriptKey_cases k with hk | ⟨i, -, -, hk⟩ <;> rw [hk] at h <;> cases h

/-- What lies in a copy is a copy of an entry. -/
theorem CopyEntries.exists_of_mem {es : List (String × Host.Value)} {start : TableRef} {ws : List (Value × Value)}
    (h : CopyEntries s es start ws) {k w : Value} (hm : (k, w) ∈ ws) :
    ∃ e ∈ es, k = Host.scriptKey e.1 ∧ IsCopy s e.2 w := by
  induction es generalizing start ws with
  | nil =>
    rw [show ws = [] from h] at hm
    cases hm
  | cons e es ih =>
    obtain ⟨w', rest, rfl, hw, hrest⟩ := h
    rcases List.mem_cons.1 hm with heq | hin
    · obtain ⟨rfl, rfl⟩ := Prod.mk.inj heq
      exact ⟨e, List.mem_cons_self, rfl, start, hw⟩
    · obtain ⟨e', he', hcopy⟩ := ih hrest hin
      exact ⟨e', List.mem_cons_of_mem _ he', hcopy⟩

/-- The keys of a copy lead nowhere. -/
theorem CopyEntries.not_leads_key {es : List (String × Host.Value)} {start : TableRef} {ws : List (Value × Value)}
    (h : CopyEntries s es start ws) {k w : Value} (hm : (k, w) ∈ ws) {p : List Turn} {q : TableRef} :
    ¬ Leads s k p q := by
  obtain ⟨e, -, rfl, -⟩ := h.exists_of_mem hm
  exact not_leads_scriptKey e.1 p q

mutual

/-- A copy leads only to tables of its own. -/
theorem Copy.leads {x : Host.Value} {start : Nat} {w : Value} (h : Copy s x start w) {p : List Turn} {q : Nat}
    (hl : Leads s w p q) : start ≤ q ∧ q < start + extent x := by
  cases x with
  | table es =>
    obtain ⟨rfl, -, hm, hes⟩ := h
    rw [extent]
    cases hl with
    | here => omega
    | under he hl =>
      have := hes.leads he hl
      omega
    | key he hl => exact absurd hl (hes.not_leads_key he)
    | metatable hm' => cases hm.symm.trans hm'
  | function f =>
    obtain ⟨r, rfl, -⟩ := h
    cases hl
  | number | text | boolean | pointer =>
    obtain rfl := h
    cases hl

theorem CopyEntries.leads {es : List (String × Host.Value)} {start : Nat} {ws : List (Value × Value)}
    (h : CopyEntries s es start ws) {k w : Value} (hm : (k, w) ∈ ws) {p : List Turn} {q : Nat}
    (hl : Leads s w p q) : start ≤ q ∧ q < start + extentEntries es := by
  cases es with
  | nil =>
    rw [show ws = [] from h] at hm
    cases hm
  | cons e es =>
    obtain ⟨w', rest, rfl, hw, hrest⟩ := h
    rw [extentEntries]
    rcases List.mem_cons.1 hm with heq | hm
    · obtain ⟨rfl, rfl⟩ := Prod.mk.inj heq
      have := hw.leads hl
      omega
    · have := hrest.leads hm hl
      omega

end

mutual

/-- Every table of a copy is reached by one path alone. -/
theorem Copy.leads_unique {x : Host.Value} {start : Nat} {w : Value} (h : Copy s x start w) {p p' : List Turn}
    {q : Nat} (hl : Leads s w p q) (hl' : Leads s w p' q) : p = p' := by
  cases x with
  | table es =>
    obtain ⟨rfl, -, hm, hes⟩ := h
    -- the table itself lies before those within it
    have hbelow {k w : Value} {p : List Turn} (he : (k, w) ∈ (s.table start).entries) : ¬ Leads s w p start := by
      intro hl
      have := hes.leads he hl
      omega
    cases hl with
    | here =>
      cases hl' with
      | here => rfl
      | under he hl => exact absurd hl (hbelow he)
      | key he hl => exact absurd hl (hes.not_leads_key he)
      | metatable hm' => cases hm.symm.trans hm'
    | under he hl =>
      cases hl' with
      | here => exact absurd hl (hbelow he)
      | under he' hl' =>
        obtain ⟨rfl, rfl⟩ := hes.leads_unique he hl he' hl'
        rfl
      | key he hl => exact absurd hl (hes.not_leads_key he)
      | metatable hm' => cases hm.symm.trans hm'
    | key he hl => exact absurd hl (hes.not_leads_key he)
    | metatable hm' => cases hm.symm.trans hm'
  | function f =>
    obtain ⟨r, rfl, -⟩ := h
    cases hl
  | number | text | boolean | pointer =>
    obtain rfl := h
    cases hl

theorem CopyEntries.leads_unique {es : List (String × Host.Value)} {start : Nat} {ws : List (Value × Value)}
    (h : CopyEntries s es start ws) {k k' w w' : Value} (hm : (k, w) ∈ ws) {p p' : List Turn} {q : Nat}
    (hl : Leads s w p q) (hm' : (k', w') ∈ ws) (hl' : Leads s w' p' q) : k = k' ∧ p = p' := by
  cases es with
  | nil =>
    rw [show ws = [] from h] at hm
    cases hm
  | cons e es =>
    obtain ⟨u, rest, rfl, hu, hrest⟩ := h
    -- the tables of different entries do not overlap
    rcases List.mem_cons.1 hm with heq | hin <;> rcases List.mem_cons.1 hm' with heq' | hin'
    · obtain ⟨rfl, rfl⟩ := Prod.mk.inj heq
      obtain ⟨rfl, rfl⟩ := Prod.mk.inj heq'
      exact ⟨rfl, hu.leads_unique hl hl'⟩
    · obtain ⟨rfl, rfl⟩ := Prod.mk.inj heq
      have := hu.leads hl
      have := hrest.leads hin' hl'
      omega
    · obtain ⟨rfl, rfl⟩ := Prod.mk.inj heq'
      have := hu.leads hl'
      have := hrest.leads hin hl
      omega
    · exact hrest.leads_unique hin hl hin' hl'

end

/-- Two occurrences within a copy, neither inside the other, share no table. -/
theorem Copy.apart {x : Host.Value} {start : Nat} {w : Value} (h : Copy s x start w) {p p' : List Turn}
    {q q' : TableRef} (hl : Leads s w p q) (hl' : Leads s w p' q') (hp : ¬ p <+: p') (hp' : ¬ p' <+: p) :
    Apart s (.table q) (.table q') := by
  rintro r ⟨⟨a, ha⟩, ⟨b, hb⟩⟩
  have heq : p ++ a = p' ++ b := h.leads_unique (hl.append ha) (hl'.append hb)
  rcases List.append_eq_append_iff.1 heq with ⟨c, rfl, -⟩ | ⟨c, rfl, -⟩
  · exact hp ⟨c, rfl⟩
  · exact hp' ⟨c, rfl⟩

theorem IsCopy.table {x : Host.Value} {r : TableRef} (h : IsCopy s x (.table r)) :
    ∃ es, Copy s (.table es) r (.table r) := by
  obtain ⟨start, h⟩ := h
  cases x with
  | table es =>
    obtain rfl : r = start := Value.table.inj h.1
    exact ⟨es, h⟩
  | function f =>
    obtain ⟨_, hw, -⟩ := h
    cases hw
  | number | text | boolean | pointer => cases h

/-- Every table that a copy leads to is itself one. -/
theorem IsCopy.occurrence {x : Host.Value} {w : Value} (h : IsCopy s x w) {p : List Turn} {q : TableRef}
    (hl : Leads s w p q) : ∃ es, Copy s (.table es) q (.table q) := by
  induction hl generalizing x with
  | here r => exact h.table
  | under he _ ih =>
    obtain ⟨es, -, -, -, hes⟩ := h.table
    obtain ⟨e, -, -, hw⟩ := hes.exists_of_mem he
    exact ih hw
  | key he hl =>
    obtain ⟨es, -, -, -, hes⟩ := h.table
    exact absurd hl (hes.not_leads_key he)
  | metatable hm =>
    obtain ⟨es, -, -, hnone, -⟩ := h.table
    cases hnone.symm.trans hm

theorem IsCopy.present {x : Host.Value} {w : Value} (h : IsCopy s x w) : w.Present s := by
  obtain ⟨start, h⟩ := h
  cases x with
  | table es =>
    obtain ⟨rfl, hsize, -⟩ := h
    exact hsize
  | function f =>
    obtain ⟨r, rfl, hf⟩ := h
    exact (Array.getElem?_eq_some_iff.1 (State.hostFunction?_eq_some.1 hf)).1
  | number | text | boolean | pointer =>
    obtain rfl := h
    trivial

theorem IsCopy.whole {x : Host.Value} {w : Value} (h : IsCopy s x w) : Whole s w where
  table q hq := by
    obtain ⟨p, hl⟩ := hq
    obtain ⟨es, -, hsize, -⟩ := h.occurrence hl
    exact hsize
  entry q hq e he := by
    obtain ⟨p, hl⟩ := hq
    obtain ⟨es, -, -, -, hes⟩ := h.occurrence hl
    obtain ⟨e', -, hk, hw⟩ := hes.exists_of_mem he
    refine ⟨?_, hw.present⟩
    rcases Host.scriptKey_cases e'.1 with hkey | ⟨i, -, -, hkey⟩ <;> rw [hk, hkey] <;> trivial

/-- What the host builds spares every value that was there. -/
theorem spares_of_extends {t : State} {v : Value} (h : s.Extends none t) (hv : Whole s v) : Spares s t v where
  tables := h.size
  table q hq := h.table q (hv.table q hq) (Option.some_ne_none q)
  function := h.function
  failures := Nat.le_of_eq (by rw [h.failures])
  failure r _ := by rw [State.failure, State.failure, h.failures]

end ScriptHost.Exchange
