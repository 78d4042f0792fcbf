import ScriptHost.Proofs.Copies

/-! Draining a copy gives the host value back, up to the order of keys. Iteration yields the entries
of a copy in some order, every entry has its own key again, and the tables of a copy nest no deeper
than there are tables. Nothing but the log changes on the way. -/

namespace ScriptHost.Exchange

open Script (State TableRef Value)

/-! ### Draining entries -/

/-- With inner tables drained at most `n` deep, a script value converts to a host value again. -/
def Reads (s : State) (n : Nat) (w : Value) (v : Host.Value) : Prop :=
  ∀ c st log, ∃ v' log', convert? (fun r => drainInto n r {}) w c ⟨st, { s with log }⟩ =
    .done (some v') ⟨st, { s with log := log' }⟩ ∧ v.Same v' ∧ v'.Distinct

/-- An entry of a script table under the key of the host entry that it converts to. -/
def ReadsEntry (s : State) (n : Nat) (p : Value × Value) (e : String × Host.Value) : Prop :=
  p.1 = Host.scriptKey e.1 ∧ Reads s n p.2 e.2

theorem drainPairs_run {s : State} {n : Nat} {ps : List (Value × Value)} {es : List (String × Host.Value)}
    (h : List.Forall₂ (ReadsEntry s n) ps es) (c : Channel) (st : List Value) (t : Host.Table)
    (hn : (t.keys ++ es.map (·.1)).Nodup) (log : List Event) :
    ∃ fs log', drainPairs (fun r => drainInto n r {}) ps t c ⟨st, { s with log }⟩ =
      .done ⟨t.entries ++ fs⟩ ⟨st, { s with log := log' }⟩ ∧ List.Forall₂ Host.Value.Matches es fs := by
  induction h generalizing t log with
  | nil => exact ⟨[], log, by simp [drainPairs], .nil⟩
  | @cons p e ps es hpe _ ih =>
    obtain ⟨k, w⟩ := p
    obtain ⟨hk, hr⟩ := hpe
    obtain rfl : k = Host.scriptKey e.1 := hk
    obtain ⟨v', log₁, hrun, hsame, hdist⟩ := hr c st log
    have hkey : e.1 ∉ t.keys := by
      intro hc
      rw [List.nodup_append] at hn
      exact hn.2.2 e.1 hc e.1 (by simp) rfl
    have hset : t.set e.1 v' = ⟨t.entries ++ [(e.1, v')]⟩ := Host.Table.set_of_not_mem hkey v'
    have hkeep : keep t e.1 v' c ⟨st, { s with log := log₁ }⟩ =
        .done ⟨t.entries ++ [(e.1, v')]⟩ ⟨st, { s with log := log₁ }⟩ := by
      have hnone : t.find? e.1 = none := (Host.Value.find?_eq_none_iff _ _).2 hkey
      rw [keep, hnone, ← hset]
      rfl
    have hn' : (Host.Table.keys ⟨t.entries ++ [(e.1, v')]⟩ ++ es.map (·.1)).Nodup := by
      simpa [Host.Table.keys] using hn
    obtain ⟨fs, log', hrest, hfs⟩ := ih ⟨t.entries ++ [(e.1, v')]⟩ hn' log₁
    refine ⟨(e.1, v') :: fs, log', ?_, .cons ⟨rfl, hsame, hdist⟩ hfs⟩
    unfold drainPairs
    simp only [Host.keySpelling?_scriptKey]
    rw [bind_done hrun]
    simp only
    rw [bind_done hkeep, hrest]
    simp

/-! ### Draining tables -/

variable {s : State}

namespace CopiedEntries

variable {low : Nat} {es : List (String × Host.Value)} {ws : List (Value × Value)}

theorem keyed {t : Script.Table} (h : CopiedEntries Host.scriptKey s low es t.entries) (hn : (es.map (·.1)).Nodup) :
    t.Keyed := by
  rw [Script.Table.Keyed, h.keys, show (fun e : String × Host.Value => Host.scriptKey e.1) =
    Host.scriptKey ∘ Prod.fst from rfl, ← List.map_map]
  exact hn.map Host.scriptKey_injective

/-- The place after the greatest 64-bit integer is empty, since no host key leads there. -/
theorem sequence_lt {t : Script.Table} (h : CopiedEntries Host.scriptKey s low es t.entries) :
    t.sequence.length < 2 ^ 63 := by
  refine t.sequence_length_lt (by omega) ?_
  by_contra hc
  have hm : Value.ofNat (2 ^ 63) ∈ t.entries.map (·.1) :=
    List.mem_map.2 ⟨_, Script.Table.mem_of_find rfl hc, rfl⟩
  rw [h.keys, List.mem_map] at hm
  obtain ⟨e, -, he⟩ := hm
  rcases Host.scriptKey_cases e.1 with hk | ⟨i, hi, -, hk⟩
  · rw [hk] at he
    cases he
  · rw [hk, Value.ofNat, Value.ofInt] at he
    simp only [Value.number.injEq, Script.Numeral.integer.injEq] at he
    rw [he] at hi
    exact absurd hi (by decide)

theorem not_failure (h : CopiedEntries Host.scriptKey s low es ws) :
    ∀ p ∈ ws, (∀ r, p.1 ≠ .failure r) ∧ ∀ r, p.2 ≠ .failure r := by
  induction h with
  | nil => simp
  | @cons e p es ws hep _ ih =>
    obtain ⟨hk, _, -, hw⟩ := hep
    refine List.forall_mem_cons.2 ⟨⟨fun r hc => ?_, hw.not_failure⟩, ih⟩
    rw [hk] at hc
    rcases Host.scriptKey_cases e.1 with hk | ⟨i, -, -, hk⟩ <;> rw [hk] at hc <;> cases hc

/-- Iteration over a copied table yields its entries. -/
theorem pairs_perm {t : Script.Table} (h : CopiedEntries Host.scriptKey s low es t.entries)
    (hn : (es.map (·.1)).Nodup) : t.pairs.Perm t.entries := by
  refine (Script.Table.pairs_perm (h.keyed hn) h.sequence_lt).trans ?_
  rw [List.filter_eq_self.2 fun p hp => bne_iff_ne.2 (h.not_nil p hp)]

end CopiedEntries

theorem entriesOf_run {low : Nat} {es : List (String × Host.Value)} {r : TableRef}
    (h : CopiedEntries Host.scriptKey s low es (s.table r).entries) (hn : (es.map (·.1)).Nodup) (c : Channel)
    (st : List Value) (log : List Event) :
    entriesOf r c ⟨st, { s with log }⟩ = .done (s.table r).pairs ⟨st, { s with log }⟩ := by
  rw [entriesOf, state_bind]
  exact receivePairs_run c _ fun p hp => h.not_failure p ((h.pairs_perm hn).mem_iff.1 hp)

theorem drainInto_run {low : Nat} {es : List (String × Host.Value)} {n : Nat} {r : TableRef}
    (h : CopiedEntries Host.scriptKey s low es (s.table r).entries) (hd : Host.Value.DistinctEntries es)
    (hr : List.Forall₂ (ReadsEntry s n) (s.table r).entries es) (c : Channel) (st : List Value) (log : List Event) :
    ∃ fs log', drainInto (n + 1) r {} c ⟨st, { s with log }⟩ = .done ⟨fs⟩ ⟨st, { s with log := log' }⟩ ∧
      (Host.Value.table es).Same (.table fs) ∧ Host.Value.DistinctEntries fs := by
  have hn := hd.nodup
  obtain ⟨es', hes', hperm⟩ := List.perm_comp_forall₂ (h.pairs_perm hn) hr
  have hn' : (es'.map (·.1)).Nodup := (hperm.map _).nodup_iff.2 hn
  obtain ⟨fs, log', hrun, hfs⟩ := drainPairs_run hes' c st {} (by simpa [Host.Table.keys] using hn') log
  let drained := "Drained script table into " ++ toString fs.length ++ " entries"
  refine ⟨fs, ⟨.table, .debug, drained⟩ :: log', ?_, Host.Value.same_table_of_matches hperm hn hfs,
    Host.Value.distinct_of_matches hn' hfs⟩
  unfold drainInto
  rw [bind_done (entriesOf_run h hn c st log), bind_done hrun]
  rfl

mutual

/-- A copy reads back as the host value, at a depth that its tables cannot exceed. -/
theorem Copy.reads {v : Host.Value} {start : Nat} {w : Value} (h : Copy s v start w) (hv : v.Distinct) {n : Nat}
    (hn : s.tables.size ≤ start + n) : Reads s n w v := by
  intro c st log
  cases v with
  | number x => exact ⟨.number x, log, by rw [show w = _ from h]; rfl, rfl, trivial⟩
  | text t =>
    refine ⟨.text t, log, ?_, rfl, trivial⟩
    rw [show w = .ofString t from h]
    simp only [convert?, Value.ofString, toText?, Host.fromUTF8?_toUTF8]
    rfl
  | boolean b => exact ⟨.boolean b, log, by rw [show w = _ from h]; rfl, rfl, trivial⟩
  | pointer p => exact ⟨.pointer p, log, by rw [show w = _ from h]; rfl, rfl, trivial⟩
  | function f =>
    obtain ⟨r, rfl, hf⟩ := h
    refine ⟨.function f, log, ?_, rfl, trivial⟩
    have hf' : State.hostFunction? { s with log } r = some f := hf
    simp only [convert?, state_bind, hf']
    rfl
  | table es =>
    obtain ⟨rfl, hsize, -, hes⟩ := h
    cases n with
    | zero => exact absurd (Nat.lt_of_lt_of_le hsize hn) (Nat.lt_irrefl _)
    | succ n =>
      have hin := hes.reads hv (n := n) (by omega)
      obtain ⟨fs, log', hrun, hsame, hdist⟩ := drainInto_run (hes.copied (Nat.le_refl _)) hv hin c st log
      refine ⟨.table fs, log', ?_, hsame, hdist⟩
      rw [convert?, bind_done hrun]
      rfl

theorem CopyEntries.reads {es : List (String × Host.Value)} {start : Nat} {ws : List (Value × Value)}
    (h : CopyEntries s es start ws) (hes : Host.Value.DistinctEntries es) {n : Nat}
    (hn : s.tables.size ≤ start + n) : List.Forall₂ (ReadsEntry s n) ws es := by
  cases es with
  | nil =>
    rw [show ws = [] from h]
    exact .nil
  | cons e es =>
    obtain ⟨w, rest, rfl, hw, hrest⟩ := h
    exact .cons ⟨rfl, hw.reads hes.2.1 hn⟩ (hrest.reads hes.2.2 (by omega))

end

/-! ### There and back -/

theorem CopiedEntries.reads {low : Nat} {es : List (String × Host.Value)} {ws : List (Value × Value)}
    (h : CopiedEntries Host.scriptKey s low es ws) (hes : Host.Value.DistinctEntries es) :
    List.Forall₂ (ReadsEntry s s.tables.size) ws es := by
  induction h with
  | nil => exact .nil
  | cons hep _ ih =>
    obtain ⟨hk, start, -, hw⟩ := hep
    exact .cons ⟨hk, hw.reads hes.2.1 (Nat.le_add_left ..)⟩ (ih hes.2.2)

/-- Taking a table of copied entries off the stack gives the host table, and only the log has changed. -/
theorem takeTable_run {low : Nat} {t : Host.Table} {r : TableRef}
    (h : CopiedEntries Host.scriptKey s low t.entries (s.table r).entries) (ht : t.Distinct) (c : Channel)
    (st : List Value) :
    ∃ t' log, takeTable c ⟨.table r :: st, s⟩ = .done t' ⟨st, { s with log }⟩ ∧ t.Same t' ∧ t'.Distinct := by
  obtain ⟨fs, log, hrun, hsame, hdist⟩ := drainInto_run h ht (h.reads ht) c (.table r :: st) s.log
  refine ⟨⟨fs⟩, log, ?_, hsame, hdist⟩
  rw [takeTable, drainTop, peek_bind]
  simp only [List.head?_cons, drain]
  rw [bind_done (m := state >>= fun s => drainInto (s.tables.size + 1) r {}) hrun]
  rfl

/-- The slot of a table is popped when the table is drained, and no other after it. -/
theorem take_table_run {c : Channel} {st : List Value} {w : Value} {s' : State} {t : Host.Table}
    (h : takeTable c ⟨w :: st, s⟩ = .done t ⟨st, s'⟩) : take .table c ⟨w :: st, s⟩ = .done (.ofTable t) ⟨st, s'⟩ := by
  have hconstruct : construct .table c ⟨w :: st, s⟩ = .done (.ofTable t) ⟨st, s'⟩ := by
    rw [construct, state_bind, peek_bind]
    exact bind_done h _
  have hdepth : ¬st.length = (w :: st).length := by simp
  rw [take, depth_bind, bind_done hconstruct, depth_bind, if_neg hdepth]
  rfl

/-- A host table survives the way to the script and back. Pushing it adds one value and taking it
restores the stack, with the same keys and, under each of them, the same value; two host keys never
share a script key, however the script spells it. -/
theorem pushTable_takeTable (c : Channel) (st : List Value) (s : State) (hs : s.Reachable) (t : Host.Table)
    (ht : t.Distinct) :
    (∃ w s', pushTable t c ⟨st, s⟩ = .done () ⟨w :: st, s'⟩ ∧
      ∃ t' s'', takeTable c ⟨w :: st, s'⟩ = .done t' ⟨st, s''⟩ ∧ t.Same t' ∧ t'.Distinct) ∧
    Function.Injective fun k => (Host.scriptKey k).asKey := by
  constructor
  · obtain ⟨w, s', hpush, -, -, hw⟩ := pushHost_run (.ofTable t) ht s hs.linked
    obtain ⟨rfl, -, -, hes⟩ := hw
    obtain ⟨t', log, htake, hsame, hdist⟩ := takeTable_run (hes.copied (Nat.le_refl _)) ht c st
    exact ⟨_, s', hpush c st, t', { s' with log }, htake, hsame, hdist⟩
  · simp only [Host.asKey_scriptKey]
    exact Host.scriptKey_injective

/-- Keys that a script may spell in more than one way, and a NaN inside a nested table. -/
def awkwardTable : Host.Table :=
  ⟨[("", .boolean true), ("0", .text "zero"), ("01", .text "one"), ("-1", .number (.ofNat 1)),
    ("1", .table [("1", .number .invalid), ("x", .function ⟨"ping"⟩)]),
    ("9223372036854775807", .pointer 7), ("9223372036854775808", .table [])]⟩

/-- The awkward table goes there and back from a new engine, over two values on the stack. -/
theorem pushTable_takeTable_awkward :
    State.fresh.Reachable ∧ awkwardTable.Distinct ∧
      ∃ w s' t' s'', pushTable awkwardTable ⟨fun _ _ _ => Script.Eval.exhausted, Script.Site.host⟩
          ⟨[.nil, .boolean true], State.fresh⟩ = .done () ⟨[w, .nil, .boolean true], s'⟩ ∧
        takeTable ⟨fun _ _ _ => Script.Eval.exhausted, Script.Site.host⟩ ⟨[w, .nil, .boolean true], s'⟩ =
          .done t' ⟨[.nil, .boolean true], s''⟩ ∧
        awkwardTable.Same t' := by
  have hfresh : State.fresh.Reachable := Relation.ReflTransGen.refl
  have hdist : awkwardTable.Distinct := by
    simp [awkwardTable, Host.Table.Distinct, Host.Value.DistinctEntries, Host.Value.Distinct]
  obtain ⟨⟨w, s', hpush, t', s'', htake, hsame, -⟩, -⟩ :=
    pushTable_takeTable ⟨fun _ _ _ => Script.Eval.exhausted, Script.Site.host⟩ [.nil, .boolean true]
      State.fresh hfresh awkwardTable hdist
  exact ⟨hfresh, hdist, w, s', t', s'', hpush, htake, hsame⟩

end ScriptHost.Exchange
