import ScriptHost.Proofs.Accounts

/-! Merging host tables. A merge sets the entries of one table in another, in their order. It is associative
with the empty table as its unit, the order of keys included, and doing it again changes nothing. Draining a
script table over a host table is a merge too: of what the script table drains to by itself. -/

namespace ScriptHost.Host

/-! ### Writes that meet -/

namespace Value

theorem insertEntry_insertEntry (k : String) (v w : Value) (es : List (String × Value)) :
    Table.insertEntry k w (Table.insertEntry k v es) = Table.insertEntry k w es := by
  induction es with
  | nil => simp [Table.insertEntry]
  | cons e es ih =>
    by_cases hk : k = e.1
    · simp [Table.insertEntry, hk]
    · simp [Table.insertEntry, hk, ih]

/-- A key that is there keeps its place, so a write to it can wait for a write to another key. -/
theorem insertEntry_comm {k k' : String} (hne : k ≠ k') {es : List (String × Value)} (h : k ∈ es.map (·.1))
    (v w : Value) : Table.insertEntry k' w (Table.insertEntry k v es) =
      Table.insertEntry k v (Table.insertEntry k' w es) := by
  induction es with
  | nil => cases h
  | cons e es ih =>
    by_cases hk : k = e.1
    · have hk' : ¬k' = e.1 := fun hc => hne (hk.trans hc.symm)
      simp [Table.insertEntry, hk, hk']
    · have hmem : k ∈ es.map (·.1) := (List.mem_cons.1 h).resolve_left hk
      by_cases hk' : k' = e.1
      · simp [Table.insertEntry, hk, hk']
      · simp [Table.insertEntry, hk, hk', ih hmem]

/-- Setting a key to what it holds. -/
theorem insertEntry_of_find? {k : String} {v : Value} {es : List (String × Value)} (h : find? k es = some v) :
    Table.insertEntry k v es = es := by
  induction es with
  | nil => cases h
  | cons e es ih =>
    rw [find?] at h
    split at h
    next hk =>
      obtain rfl := Option.some.inj h
      rw [Table.insertEntry, if_pos hk]
    next hk => rw [Table.insertEntry, if_neg hk, ih h]

end Value

namespace Table

variable {k k' : String} {v w : Value} {es : List (String × Value)}

theorem set_set (t : Table) (k : String) (v w : Value) : (t.set k v).set k w = t.set k w :=
  congrArg Table.mk (Value.insertEntry_insertEntry k v w t.entries)

theorem set_comm {t : Table} (h : k ∈ t.keys) (hne : k ≠ k') (v w : Value) :
    (t.set k v).set k' w = (t.set k' w).set k v :=
  congrArg Table.mk (Value.insertEntry_comm hne h v w)

theorem set_of_find? {t : Table} (h : t.find? k = some v) : t.set k v = t :=
  congrArg Table.mk (Value.insertEntry_of_find? h)

theorem nodup_keys_set {t : Table} (h : t.keys.Nodup) (k : String) (v : Value) : (t.set k v).keys.Nodup := by
  by_cases hk : k ∈ t.keys
  · rwa [keys_set_of_mem hk]
  · rw [keys_set_of_not_mem hk, ← List.concat_eq_append]
    exact h.concat hk

theorem setAll_cons (t : Table) (e : String × Value) (es : List (String × Value)) :
    t.setAll (e :: es) = (t.set e.1 e.2).setAll es := rfl

/-- A write to a key that is there can wait for writes to other keys. -/
theorem setAll_set {t : Table} (h : k ∈ t.keys) (hes : k ∉ es.map (·.1)) (v : Value) :
    (t.set k v).setAll es = (t.setAll es).set k v := by
  induction es generalizing t with
  | nil => rfl
  | cons e es ih =>
    rw [List.map_cons, List.mem_cons, not_or] at hes
    have hmem : k ∈ (t.set e.1 e.2).keys := (Value.mem_keys_insertEntry e.1 e.2 t.entries k).2 (.inr h)
    rw [setAll_cons, setAll_cons, set_comm h hes.1, ih hmem hes.2]

theorem setAll_of_find? {t : Table} (h : ∀ e ∈ es, t.find? e.1 = some e.2) : t.setAll es = t := by
  induction es with
  | nil => rfl
  | cons e es ih =>
    obtain ⟨he, hes⟩ := List.forall_mem_cons.1 h
    rw [setAll_cons, set_of_find? he, ih hes]

/-! ### Merges -/

/-- Merging what an entry was set in is setting the entry after merging. -/
theorem superimpose_set (t : Table) {u : Table} (hu : u.keys.Nodup) (k : String) (v : Value) :
    t.superimpose (u.set k v) = (t.superimpose u).set k v := by
  obtain ⟨es⟩ := u
  change (es.map (·.1)).Nodup at hu
  change t.setAll (insertEntry k v es) = (t.setAll es).set k v
  induction es generalizing t with
  | nil => rfl
  | cons e es ih =>
    obtain ⟨he, hes⟩ := List.nodup_cons.1 hu
    by_cases hk : k = e.1
    · have hmem : e.1 ∈ (t.set e.1 e.2).keys := (Value.mem_keys_insertEntry ..).2 (.inl rfl)
      rw [insertEntry, if_pos hk, setAll_cons, setAll_cons, hk, ← setAll_set hmem he, set_set]
    · rw [insertEntry, if_neg hk, setAll_cons, setAll_cons, ih _ hes]

theorem superimpose_setAll (t : Table) {u : Table} (hu : u.keys.Nodup) (es : List (String × Value)) :
    t.superimpose (u.setAll es) = (t.superimpose u).setAll es := by
  induction es generalizing u with
  | nil => rfl
  | cons e es ih => rw [setAll_cons, setAll_cons, ih (nodup_keys_set hu _ _), superimpose_set t hu]

theorem superimpose_assoc (a : Table) {b : Table} (hb : b.keys.Nodup) (c : Table) :
    a.superimpose (b.superimpose c) = (a.superimpose b).superimpose c :=
  superimpose_setAll a hb c.entries

theorem superimpose_empty (a : Table) : a.superimpose empty = a := rfl

theorem empty_superimpose {a : Table} (ha : a.keys.Nodup) : empty.superimpose a = a :=
  setAll_of_disjoint (t := empty) ha

theorem superimpose_self {a : Table} (ha : a.keys.Nodup) : a.superimpose a = a :=
  setAll_of_find? fun e he => Value.find?_eq_some_of_mem ha (k := e.1) (v := e.2) he

theorem superimpose_again (a : Table) {b : Table} (hb : b.keys.Nodup) :
    (a.superimpose b).superimpose b = a.superimpose b := by
  rw [← superimpose_assoc a hb, superimpose_self hb]

end Table

end ScriptHost.Host

namespace ScriptHost.Exchange

open Script (State TableRef Value)
open Host (Fault Table)

variable {α β γ δ : Type} {s : State}

/-! ### Draining in any order -/

/-- An order in which an engine goes over the entries of each table, whatever it has logged. -/
structure Iteration where
  pairs : State → TableRef → List (Value × Value)
  perm : ∀ s r, (pairs s r).Perm (s.table r).pairs
  relog : ∀ s log r, pairs { s with log } r = pairs s r

namespace Iteration

/-- Sequences first, and the other keys as they came in. -/
def usual : Iteration where
  pairs s r := (s.table r).pairs
  perm _ _ := .refl _
  relog _ _ _ := rfl

def backwards : Iteration where
  pairs s r := (s.table r).pairs.reverse
  perm _ _ := List.reverse_perm _
  relog _ _ _ := rfl

variable (it : Iteration)

/-- Copies a script table into a host table, going over entries in this order at every depth. -/
def drainInto : Nat → TableRef → Table → Exchange Table
  | 0, _, _ => exhausted
  | n + 1, r, t => do
    let pairs ← receivePairs (it.pairs (← state) r)
    let t ← drainPairs (fun r => drainInto n r {}) pairs t
    emit .table .debug ("Drained script table into " ++ toString t.size ++ " entries")
    pure t

def drainTop (t : Table) : Exchange Table := do
  match ← peek with
  | some (.table r) =>
    let t ← it.drainInto ((← state).tables.size + 1) r t
    pop 1
    pure t
  | other => stop (.noTableToDrain (describe other))

theorem drainInto_usual (n : Nat) : usual.drainInto n = Exchange.drainInto n := by
  induction n with
  | zero => rfl
  | succ n ih =>
    funext r t
    rw [drainInto, ih]
    rfl

theorem drainTop_usual (t : Table) : usual.drainTop t = Exchange.drainTop t := by
  funext c f
  simp only [drainTop, drainInto_usual]
  rfl

end Iteration

/-! ### Two runs side by side -/

/-- How two runs end that work alike: with related answers, on the same waiting fault, or both too deep. Neither
changes the stack, or more of the state than the log. -/
inductive Outcome.Paired (s : State) (st : List Value) (faulty : String → Prop) (deep : Prop) (P : α → β → Prop) :
    Outcome α → Outcome β → Prop
  | done {a : α} {b : β} (h : P a b) (l l' : List Event) :
    Paired s st faulty deep P (.done a ⟨st, { s with log := l }⟩) (.done b ⟨st, { s with log := l' }⟩)
  | stopped {message : String} (h : faulty message) (u u' : State) :
    Paired s st faulty deep P (.stopped (.carried message) u) (.stopped (.carried message) u')
  | exhausted (h : deep) : Paired s st faulty deep P .exhausted .exhausted

/-- The exchanges work alike on any stack, and in states that differ in the log alone. -/
def Parallel (s : State) (faulty : String → Prop) (deep : Prop) (P : α → β → Prop) (m : Exchange α) (n : Exchange β) :
    Prop :=
  ∀ c st log log', (m c ⟨st, { s with log }⟩).Paired s st faulty deep P (n c ⟨st, { s with log := log' }⟩)

section Parallel

variable {faulty faulty' : String → Prop} {deep deep' : Prop} {P : α → β → Prop} {m : Exchange α} {n : Exchange β}

namespace Parallel

theorem bind {Q : γ → δ → Prop} (hm : Parallel s faulty deep P m n) {g : α → Exchange γ} {k : β → Exchange δ}
    (hg : ∀ a b, P a b → Parallel s faulty deep Q (g a) (k b)) : Parallel s faulty deep Q (m >>= g) (n >>= k) := by
  intro c st log log'
  have h := hm c st log log'
  rw [bind_run, bind_run]
  generalize m c ⟨st, { s with log }⟩ = x at h
  generalize n c ⟨st, { s with log := log' }⟩ = y at h
  cases h with
  | done hab l l' => exact hg _ _ hab c st l l'
  | stopped h u u' => exact .stopped h u u'
  | exhausted h => exact .exhausted h

theorem mono {Q : α → β → Prop} (hm : Parallel s faulty deep P m n) (hf : ∀ message, faulty message → faulty' message)
    (hd : deep → deep') (hQ : ∀ a b, P a b → Q a b) : Parallel s faulty' deep' Q m n := by
  intro c st log log'
  have h := hm c st log log'
  generalize m c ⟨st, { s with log }⟩ = x at h
  generalize n c ⟨st, { s with log := log' }⟩ = y at h
  cases h with
  | done hab l l' => exact .done (hQ _ _ hab) l l'
  | stopped h u u' => exact .stopped (hf _ h) u u'
  | exhausted h => exact .exhausted (hd h)

/-- Exchanges that always come to their end. -/
theorem of_yields {a : α} {b : β} (hm : Yields s (fun _ => False) False [] m a)
    (hn : Yields s (fun _ => False) False [] n b) (h : P a b) : Parallel s faulty deep P m n := by
  intro c st log log'
  obtain ⟨l, hm⟩ := hm.always log
  obtain ⟨l', hn⟩ := hn.always log'
  have hm := hm c st
  have hn := hn c st
  rw [List.nil_append] at hm hn
  rw [hm, hn]
  exact .done h l l'

theorem pure {a : α} {b : β} (h : P a b) : Parallel s faulty deep P (Pure.pure a) (Pure.pure b) :=
  of_yields (.pure a) (.pure b) h

theorem emit (origin : Origin) (level : Level) (message message' : String) :
    Parallel s faulty deep (fun _ _ => True) (emit origin level message) (emit origin level message') :=
  of_yields (Yields.emit origin level message) (Yields.emit origin level message') trivial

end Parallel

theorem receive_parallel (v : Value) : Parallel s (Waits s · v) deep (fun w w' => w = received s v ∧ w' = w)
    (receive v) (receive v) := by
  intro c st log log'
  cases v with
  | failure r =>
    have hr (l : List Event) : State.failure { s with log := l } r = s.failure r := rfl
    simp only [receive, state_bind, hr, received]
    cases hfailure : s.failure r with
    | error text => exact .done ⟨rfl, rfl⟩ log log'
    | fatal message => exact .stopped ⟨r, rfl, hfailure⟩ _ _
    | spent => exact .done ⟨rfl, rfl⟩ log log'
  | _ => exact .done ⟨rfl, rfl⟩ log log'

theorem receivePairs_parallel (ps : List (Value × Value)) : Parallel s (Laid s ps) deep
    (fun qs qs' => qs = ps.map (fun p => (received s p.1, received s p.2)) ∧ qs' = qs)
    (receivePairs ps) (receivePairs ps) := by
  induction ps with
  | nil => exact .pure ⟨rfl, rfl⟩
  | cons p ps ih =>
    have hk : ∀ message, Waits s message p.1 → Laid s (p :: ps) message :=
      fun message h => ⟨p, List.mem_cons_self, .inl h⟩
    have hv : ∀ message, Waits s message p.2 → Laid s (p :: ps) message :=
      fun message h => ⟨p, List.mem_cons_self, .inr h⟩
    have hps : ∀ message, Laid s ps message → Laid s (p :: ps) message :=
      fun message ⟨q, hq, h⟩ => ⟨q, List.mem_cons_of_mem _ hq, h⟩
    refine ((receive_parallel p.1).mono hk id fun _ _ => id).bind ?_
    rintro k _ ⟨rfl, rfl⟩
    refine ((receive_parallel p.2).mono hv id fun _ _ => id).bind ?_
    rintro v _ ⟨rfl, rfl⟩
    refine (ih.mono hps id fun _ _ => id).bind ?_
    rintro qs _ ⟨rfl, rfl⟩
    exact .pure ⟨rfl, rfl⟩

variable {sub : TableRef → Exchange Table}

theorem convert?_parallel {v : Value} (hsub : ∀ r, v = .table r → Parallel s faulty deep Eq (sub r) (sub r)) :
    Parallel s faulty deep Eq (convert? sub v) (convert? sub v) := by
  cases v with
  | table r =>
    refine (hsub r rfl).bind ?_
    rintro t _ rfl
    exact .pure rfl
  | _ =>
    have hyields {v : Value} (hv : ∀ r, v ≠ .table r) :
        Yields s (fun _ => False) False [] (convert? sub v) (stored? s (fun _ => {}) v) :=
      convert?_yields fun r hr => absurd hr (hv r)
    exact .of_yields (hyields nofun) (hyields nofun) rfl

/-- The first table is a fixed one with the second merged into it. -/
def Over (base t u : Table) : Prop := t = base.superimpose u ∧ u.keys.Nodup

theorem Over.set {base t u : Table} (h : Over base t u) (k : String) (v : Host.Value) :
    Over base (t.set k v) (u.set k v) := by
  obtain ⟨rfl, hu⟩ := h
  exact ⟨(Table.superimpose_set base hu k v).symm, Table.nodup_keys_set hu k v⟩

theorem drainPairs_parallel {base t u : Table} (h : Over base t u) {ps : List (Value × Value)}
    (hsub : ∀ p ∈ ps, ∀ r, p.2 = .table r → Parallel s faulty deep Eq (sub r) (sub r)) :
    Parallel s faulty deep (Over base) (drainPairs sub ps t) (drainPairs sub ps u) := by
  induction ps generalizing t u with
  | nil => exact .pure h
  | cons p ps ih =>
    obtain ⟨k, v⟩ := p
    obtain ⟨hv, hps⟩ := List.forall_mem_cons.1 hsub
    unfold drainPairs
    cases Host.keySpelling? k with
    | none => exact (Parallel.emit _ _ _ _).bind fun _ _ _ => ih h hps
    | some key =>
      refine (convert?_parallel hv).bind ?_
      rintro stored? _ rfl
      cases stored? with
      | none => exact (Parallel.emit _ _ _ _).bind fun _ _ _ => ih h hps
      | some stored =>
        refine (Parallel.of_yields (keep_yields t key stored) (keep_yields u key stored) (h.set key stored)).bind ?_
        exact fun t u h => ih h hps

end Parallel

namespace Iteration

variable (it : Iteration)

theorem inner_of_mem {r r' : TableRef} {k : Value} (h : (k, .table r') ∈ it.pairs s r) : Inner s r r' :=
  ⟨k, (it.perm s r).mem_iff.1 h⟩

theorem receivePairs_parallel (r : TableRef) : Parallel s (Laden s r) (Deep s n r)
    (fun qs qs' => qs = (it.pairs s r).map (fun p => (received s p.1, received s p.2)) ∧ qs' = qs)
    (do receivePairs (it.pairs (← state) r)) (do receivePairs (it.pairs (← state) r)) := by
  have hlaid : ∀ message, Laid s (it.pairs s r) message → Laden s r message :=
    fun message ⟨p, hp, h⟩ => ⟨r, .refl, p, (it.perm s r).mem_iff.1 hp, h⟩
  intro c st log log'
  simp only [state_bind, it.relog]
  exact (Exchange.receivePairs_parallel (it.pairs s r)).mono hlaid id (fun _ _ => id) c st log log'

/-- Tables within the table are drained from nothing on both sides; the entries of the table itself go over the
fixed one on the one side and into an empty one on the other. -/
theorem drainInto_parallel {n : Nat} {r : TableRef} {base t u : Table} (h : Over base t u) :
    Parallel s (Laden s r) (Deep s n r) (Over base) (it.drainInto n r t) (it.drainInto n r u) := by
  induction n generalizing r base t u with
  | zero => exact fun _ _ _ _ => .exhausted trivial
  | succ n ih =>
    have hsub (r' : TableRef) :
        Parallel s (Laden s r') (Deep s n r') Eq (it.drainInto n r' {}) (it.drainInto n r' {}) := by
      have hover : Over .empty .empty .empty := ⟨rfl, List.nodup_nil⟩
      refine (ih hover).mono (fun _ => id) id ?_
      rintro t u ⟨rfl, hu⟩
      exact Table.empty_superimpose hu
    unfold drainInto
    refine (it.receivePairs_parallel (s := s) (n := n + 1) r).bind ?_
    rintro qs _ ⟨rfl, rfl⟩
    refine (drainPairs_parallel h fun q hq r' hr' => ?_).bind fun t u htu => ?_
    · obtain ⟨p, hp, rfl⟩ := List.mem_map.1 hq
      have hinner : Inner s r r' := it.inner_of_mem (k := p.1) (eq_table_of_received hr' ▸ hp)
      exact (hsub r').mono (fun _ h => h.of_inner hinner) (fun hdeep => ⟨r', hinner, hdeep⟩) fun _ _ => id
    · exact (Parallel.emit _ _ _ _).bind fun _ _ _ => .pure htu

/-- A table without cycles that is on top of the stack goes over a host table as what it drains to by itself. -/
theorem drainTop_over {r : TableRef} (h : Acyclic s r) (t : Table) (c : Channel) (st : List Value) :
    (∃ u l l', it.drainTop {} c ⟨.table r :: st, s⟩ = .done u ⟨st, { s with log := l }⟩ ∧
      it.drainTop t c ⟨.table r :: st, s⟩ = .done (t.superimpose u) ⟨st, { s with log := l' }⟩) ∨
    ∃ message s₁ s₂, Laden s r message ∧
      it.drainTop {} c ⟨.table r :: st, s⟩ = .stopped (.carried message) s₁ ∧
      it.drainTop t c ⟨.table r :: st, s⟩ = .stopped (.carried message) s₂ := by
  have hover : Over t t {} := ⟨rfl, List.nodup_nil⟩
  have hdrain := it.drainInto_parallel (s := s) (n := s.tables.size + 1) (r := r) hover c (.table r :: st) s.log s.log
  have hrun (t : Table) : it.drainTop t c ⟨.table r :: st, s⟩ =
      (it.drainInto (s.tables.size + 1) r t >>= fun t => do pop 1; pure t) c ⟨.table r :: st, s⟩ := by
    rw [drainTop, peek_bind]
    rfl
  rw [hrun, hrun, bind_run, bind_run]
  generalize it.drainInto (s.tables.size + 1) r t c ⟨.table r :: st, s⟩ = x at hdrain
  generalize it.drainInto (s.tables.size + 1) r {} c ⟨.table r :: st, s⟩ = y at hdrain
  cases hdrain with
  | done hab l l' =>
    obtain ⟨rfl, -⟩ := hab
    exact .inl ⟨_, l', l, rfl, rfl⟩
  | stopped hladen u u' => exact .inr ⟨_, u', u, hladen, rfl, rfl⟩
  | exhausted hdeep => exact absurd hdeep h.not_deep

end Iteration

/-- Merging is associative with the empty table as its unit, and to merge a table in again, or into itself, changes
nothing; the order of the keys counts. In whatever order an engine goes over its entries, and however they
collide, a script table without cycles that is drained over a host table leaves there what it drains to by
itself, merged in, and the stack as it is left then; where a fault waits in an error object within, both stop
on the same one. -/
theorem merging_laws :
    (∀ a b c : Table, b.keys.Nodup → (a.superimpose b).superimpose c = a.superimpose (b.superimpose c)) ∧
    (∀ a : Table, a.superimpose .empty = a) ∧
    (∀ a : Table, a.keys.Nodup → Table.empty.superimpose a = a) ∧
    (∀ a b : Table, b.keys.Nodup → (a.superimpose b).superimpose b = a.superimpose b) ∧
    (∀ a : Table, a.keys.Nodup → a.superimpose a = a) ∧
    (∀ t : Table, Iteration.usual.drainTop t = drainTop t) ∧
    ∀ (it : Iteration) (s : State) (r : TableRef), Acyclic s r → ∀ (t : Table) (c : Channel) (st : List Value),
      (∃ u l l', it.drainTop {} c ⟨.table r :: st, s⟩ = .done u ⟨st, { s with log := l }⟩ ∧
        it.drainTop t c ⟨.table r :: st, s⟩ = .done (t.superimpose u) ⟨st, { s with log := l' }⟩) ∨
      ∃ message s₁ s₂, Laden s r message ∧
        it.drainTop {} c ⟨.table r :: st, s⟩ = .stopped (.carried message) s₁ ∧
        it.drainTop t c ⟨.table r :: st, s⟩ = .stopped (.carried message) s₂ :=
  ⟨fun a _ c hb => (a.superimpose_assoc hb c).symm, Table.superimpose_empty, fun _ => Table.empty_superimpose,
    fun a _ hb => a.superimpose_again hb, fun _ => Table.superimpose_self, Iteration.drainTop_usual,
    fun it _ _ h => it.drainTop_over h⟩

/-- A host table whose keys the script table 0 of `sharingState` has too, in another order. -/
def meetingTable : Table := .ofPairs [("b", .boolean true), ("z", .text "kept"), ("1", .boolean false)]

/-- Backwards, the number 1 has the last word on the key 1 and not the string. -/
theorem merging_laws_backwards :
    meetingTable.keys.Nodup ∧ Acyclic sharingState 0 ∧
    meetingTable.superimpose meetingTable = meetingTable ∧
    ∃ u l l', Iteration.backwards.drainTop {} Channel.idle ⟨[.table 0, .nil], sharingState⟩ =
        .done u ⟨[.nil], { sharingState with log := l }⟩ ∧
      u.keys = ["b", "a", "1"] ∧
      Iteration.backwards.drainTop meetingTable Channel.idle ⟨[.table 0, .nil], sharingState⟩ =
        .done (meetingTable.superimpose u) ⟨[.nil], { sharingState with log := l' }⟩ ∧
      (meetingTable.superimpose u).keys = ["b", "z", "1", "a"] := by
  have hnodup : meetingTable.keys.Nodup := by decide
  obtain ⟨-, -, -, -, hself, -, hdrain⟩ := merging_laws
  refine ⟨hnodup, sharingState_acyclic 0, hself _ hnodup, ?_⟩
  rcases hdrain .backwards sharingState 0 (sharingState_acyclic 0) meetingTable .idle [.nil] with
    ⟨u, l, l', hempty, hover⟩ | ⟨message, s₁, s₂, ⟨r, -, p, -, ⟨q, -, hq⟩ | ⟨q, -, hq⟩⟩, -⟩
  · have hkeys : u.keys = ["b", "a", "1"] ∧ (meetingTable.superimpose u).keys = ["b", "z", "1", "a"] := by
      obtain ⟨rfl, -⟩ := Outcome.done.inj (hempty.symm.trans rfl)
      decide +kernel
    exact ⟨u, l, l', hempty, hkeys.1, hover, hkeys.2⟩
  · cases hq
  · cases hq

end ScriptHost.Exchange
