import ScriptHost.Proofs.Engine
import ScriptHost.Proofs.Evaluation
import ScriptHost.Proofs.Operations
import ScriptHost.Proofs.States

/-! States that no host has touched. A script by itself cannot make a reference to something that is not
there, a wrapper or an error object of the host; so a text that runs in a new state leaves none. -/

namespace ScriptHost.Script

/-! ### Values -/

section Growth

variable {s t : State}

/-- Nothing has been taken away. -/
def State.Grows (s t : State) : Prop := s.tables.size ≤ t.tables.size ∧ s.functions.size ≤ t.functions.size

theorem State.Grows.refl (s : State) : s.Grows s := ⟨Nat.le_refl _, Nat.le_refl _⟩

theorem State.Grows.trans {u : State} (h : s.Grows t) (h' : t.Grows u) : s.Grows u :=
  ⟨Nat.le_trans h.1 h'.1, Nat.le_trans h.2 h'.2⟩

instance (s : State) : (v : Value) → Decidable (v.Valid s)
  | .table r => inferInstanceAs (Decidable (r < s.tables.size))
  | .function r => inferInstanceAs (Decidable (r < s.functions.size))
  | .nil | .boolean _ | .number _ | .text _ | .pointer _ | .failure _ | .thread _ => isTrue trivial

theorem Value.Valid.mono {v : Value} (hv : v.Valid s) (h : s.Grows t) : v.Valid t := by
  cases v with
  | table r => exact Nat.lt_of_lt_of_le hv h.1
  | function r => exact Nat.lt_of_lt_of_le hv h.2
  | _ => trivial

theorem Value.Valid.asKey {v : Value} (hv : v.Valid s) : v.asKey.Valid s := by
  cases v with
  | number => trivial
  | _ => exact hv

end Growth

/-! ### Entries -/

namespace Table

theorem mem_put {k v : Value} {es : List (Value × Value)} {e : Value × Value} (h : e ∈ put k v es) :
    e = (k, v) ∨ e ∈ es := by
  induction es with
  | nil =>
    rw [put] at h
    split at h
    · cases h
    · exact .inl (List.mem_singleton.1 h)
  | cons e' es ih =>
    rw [put] at h
    split at h
    next hk =>
      rcases List.mem_cons.1 h with he | he
      · rw [← hk] at he
        exact .inl he
      · exact .inr (List.mem_cons_of_mem e' he)
    next =>
      rcases List.mem_cons.1 h with he | he
      · exact .inr (List.mem_cons.2 (.inl he))
      · exact (ih he).imp_right (List.mem_cons_of_mem e')

theorem mem_foldl_set {ps : List (Value × Nat)} {t : Table} {e : Value × Value}
    (h : e ∈ (ps.foldl (fun t (v, i) => t.set (.ofNat i) v) t).entries) :
    (∃ p ∈ ps, e = (.ofNat p.2, p.1)) ∨ e ∈ t.entries := by
  induction ps generalizing t with
  | nil => exact .inr h
  | cons p ps ih =>
    rcases ih h with ⟨q, hq, he⟩ | he
    · exact .inl ⟨q, List.mem_cons_of_mem p hq, he⟩
    · rcases mem_put he with he | he
      · exact .inl ⟨p, List.mem_cons_self, he⟩
      · exact .inr he

theorem metatable_positional (vs : List Value) (t : Table) : (t.positional vs).metatable = t.metatable := by
  have hfold (ps : List (Value × Nat)) (t : Table) :
      (ps.foldl (fun t (v, i) => t.set (.ofNat i) v) t).metatable = t.metatable := by
    induction ps generalizing t with
    | nil => rfl
    | cons p ps ih => exact ih _
  exact hfold _ t

theorem mem_positional {vs : List Value} {t : Table} {e : Value × Value} (h : e ∈ (t.positional vs).entries) :
    (∃ i, ∃ v ∈ vs, e = (.ofNat i, v)) ∨ e ∈ t.entries := by
  rcases mem_foldl_set h with ⟨p, hp, he⟩ | he
  · exact .inl ⟨p.2, p.1, List.fst_mem_of_mem_zipIdx hp, he⟩
  · exact .inr he

end Table

theorem Builtin.ref_lt (b : Builtin) : b.ref < Builtin.all.length := by
  rw [Builtin.ref, List.idxOf_lt_length_iff]
  cases b <;> decide

/-! ### Closed states -/

namespace State

section Closed

variable {s : State} (h : s.Closed)
include h

/-- Writes that only add objects or change other parts of a state. -/
theorem Closed.grow {t : State} (hst : s.Grows t) (hg : t.globals = s.globals) (ht : ∀ r, t.table r = s.table r)
    (hc : ∀ i, t.cell i = s.cell i) : t.Closed where
  globals := hg ▸ Nat.lt_of_lt_of_le h.globals hst.1
  metatable r m hm := by
    rw [metatable?, ht] at hm
    exact Nat.lt_of_lt_of_le (h.metatable r m hm) hst.1
  entry r e he := by
    rw [ht] at he
    exact ⟨(h.entry r e he).1.mono hst, (h.entry r e he).2.mono hst⟩
  cell i := by
    rw [hc]
    exact (h.cell i).mono hst

theorem Closed.newTable : (s.newTable {}).2.Closed where
  globals := by
    rw [size_newTable]
    exact Nat.lt_succ_of_lt h.globals
  metatable r m hm := by
    rw [metatable?, table_newTable] at hm
    rw [size_newTable]
    split at hm
    · cases hm
    · exact Nat.lt_succ_of_lt (h.metatable r m hm)
  entry r e he := by
    have hst : s.Grows (s.newTable {}).2 := ⟨by simp, Nat.le_refl _⟩
    rw [table_newTable] at he
    split at he
    · cases he
    · exact ⟨(h.entry r e he).1.mono hst, (h.entry r e he).2.mono hst⟩
  cell i := (h.cell i).mono ⟨by simp, Nat.le_refl _⟩

/-- A table changes, and keeps to what is there. -/
theorem Closed.modifyTable (r : TableRef) (f : Table → Table)
    (hm : ∀ t m, (f t).metatable = some m → t.metatable = some m ∨ m < s.tables.size)
    (he : ∀ t, ∀ e ∈ (f t).entries, e ∈ t.entries ∨ (e.1.Valid s ∧ e.2.Valid s)) : (s.modifyTable r f).Closed where
  globals := by
    rw [size_modifyTable]
    exact h.globals
  metatable r' m hrm := by
    rw [metatable?, table_modifyTable] at hrm
    rw [size_modifyTable]
    split at hrm
    · rcases hm _ m hrm with hrm | hlt
      · exact h.metatable r' m hrm
      · exact hlt
    · exact h.metatable r' m hrm
  entry r' e hre := by
    have hst : s.Grows (s.modifyTable r f) := ⟨Nat.le_of_eq (size_modifyTable ..).symm, Nat.le_refl _⟩
    have hv : e.1.Valid s ∧ e.2.Valid s := by
      rw [table_modifyTable] at hre
      split at hre
      · rcases he _ e hre with hre | hv
        · exact h.entry r' e hre
        · exact hv
      · exact h.entry r' e hre
    exact ⟨hv.1.mono hst, hv.2.mono hst⟩
  cell i := (h.cell i).mono ⟨Nat.le_of_eq (size_modifyTable ..).symm, Nat.le_refl _⟩

theorem Closed.rawSet {k v : Value} (hk : k.Valid s) (hv : v.Valid s) (r : TableRef) : (s.rawSet r k v).Closed := by
  refine h.modifyTable r _ (fun t m hm => .inl hm) fun t e he => ?_
  rcases Table.mem_put he with rfl | he
  · exact .inr ⟨hk.asKey, hv⟩
  · exact .inl he

theorem Closed.newCell {v : Value} (hv : v.Valid s) : (s.newCell v).2.Closed := by
  refine ⟨h.globals, h.metatable, h.entry, fun i => ?_⟩
  have hcell : (s.newCell v).2.cell i = v ∨ (s.newCell v).2.cell i = s.cell i := by
    simp only [State.newCell, State.cell, Array.getD_eq_getD_getElem?, Array.getElem?_push]
    split
    · exact .inl rfl
    · exact .inr rfl
  rcases hcell with hi | hi
  · rw [hi]
    exact hv
  · rw [hi]
    exact h.cell i

theorem Closed.setCell {v : Value} (hv : v.Valid s) (r : Nat) : (s.setCell r v).Closed := by
  refine ⟨h.globals, h.metatable, h.entry, fun i => ?_⟩
  have hcell : (s.setCell r v).cell i = v ∨ (s.setCell r v).cell i = s.cell i := by
    simp only [State.setCell, State.cell, Array.getD_eq_getD_getElem?, Array.getElem?_setIfInBounds]
    split
    · split
      · exact .inl rfl
      · right
        rw [Array.getElem?_eq_none (by omega)]
    · exact .inr rfl
  rcases hcell with hi | hi
  · rw [hi]
    exact hv
  · rw [hi]
    exact h.cell i

end Closed

/-! ### Secluded states -/

/-- The state is closed, and holds the builtins but nothing of a host. -/
structure Secluded (s : State) : Prop where
  closed : s.Closed
  builtins : Builtin.all.length ≤ s.functions.size
  failures : s.failures = #[]
  wrappers : s.wrappers = []
  hostless : ∀ r f, s.function? r ≠ some (.host f)

/-- Writes to tables and variables. -/
theorem Secluded.of_closed {s t : State} (h : s.Secluded) (hc : t.Closed) (hf : t.functions = s.functions)
    (hfail : t.failures = s.failures) (hw : t.wrappers = s.wrappers) : t.Secluded where
  closed := hc
  builtins := hf ▸ h.builtins
  failures := hfail.trans h.failures
  wrappers := hw.trans h.wrappers
  hostless r f := by
    rw [function?, hf]
    exact h.hostless r f

theorem Secluded.relog {s : State} (h : s.Secluded) (log : List Event) : ({ s with log } : State).Secluded :=
  h.of_closed (h.closed.grow (.refl s) rfl (fun _ => rfl) fun _ => rfl) rfl rfl rfl

theorem Secluded.newClosure {s : State} (h : s.Secluded) (body : FunctionBody) (scope : Scope) (depth : Nat)
    (source : ByteArray) : (s.newFunction (.closure body scope depth source)).2.Secluded where
  closed := h.closed.grow ⟨Nat.le_refl _, by simp [newFunction]⟩ rfl (fun _ => rfl) fun _ => rfl
  builtins := Nat.le_trans h.builtins (by simp [newFunction])
  failures := h.failures
  wrappers := h.wrappers
  hostless r f hr := by
    simp only [newFunction, function?, Array.getElem?_push] at hr
    split at hr
    · cases hr
    · exact h.hostless r f hr

/-- Scripts by themselves: states stay secluded, and every value at hand refers to what is there. -/
def seclusion : Regime where
  Inv := Secluded
  Fit := fun s v => v.Valid s
  Rel := Grows
  refl := .refl
  trans := .trans
  mono hst hv := hv.mono hst
  fit_of_not_isReference s h := Value.valid_of_not_isReference h s
  fit_builtin b h := Nat.lt_of_lt_of_le b.ref_lt h.builtins
  fit_globals h := h.closed.globals
  fit_entry h he := h.closed.entry _ _ he
  fit_metatable h hm := h.closed.metatable _ _ hm
  fit_cell i h := h.closed.cell i
  newTable h := by
    refine ⟨⟨by simp, Nat.le_refl _⟩, h.of_closed h.closed.newTable rfl rfl rfl, ?_⟩
    rw [Value.Valid, size_newTable]
    exact Nat.lt_succ_self _
  newClosure body scope depth source h :=
    ⟨⟨Nat.le_refl _, by simp [newFunction]⟩, h.newClosure body scope depth source, by simp [newFunction, Value.Valid]⟩
  newCell h hv := ⟨.refl _, h.of_closed (h.closed.newCell hv) rfl rfl rfl⟩
  newThread h := ⟨.refl _, h.of_closed (h.closed.grow (.refl _) rfl (fun _ => rfl) fun _ => rfl) rfl rfl rfl⟩
  setCell r h hv := ⟨.refl _, h.of_closed (h.closed.setCell hv r) rfl rfl rfl⟩
  rawSet r h _ hk hv :=
    ⟨⟨Nat.le_of_eq (size_rawSet ..).symm, Nat.le_refl _⟩, h.of_closed (h.closed.rawSet hk hv r) rfl rfl rfl⟩
  storePositional r h hvs := by
    refine ⟨⟨Nat.le_of_eq (size_modifyTable ..).symm, Nat.le_refl _⟩, h.of_closed ?_ rfl rfl rfl⟩
    refine h.closed.modifyTable r _ (fun t m hm => .inl ?_) fun t e he => ?_
    · rwa [Table.metatable_positional] at hm
    · rcases Table.mem_positional he with ⟨i, v, hv, rfl⟩ | he
      · exact .inr ⟨trivial, hvs v hv⟩
      · exact .inl he
  setMetatable r h hm := by
    refine ⟨⟨Nat.le_of_eq (size_modifyTable ..).symm, Nat.le_refl _⟩, h.of_closed ?_ rfl rfl rfl⟩
    exact h.closed.modifyTable r _ (fun t m' hm' => .inr (hm m' hm')) fun t e he => .inl he

/-- A new state holds nothing but the builtins. -/
theorem fresh_secluded : fresh.Secluded where
  closed := by
    have hentries : ∀ t ∈ fresh.tables.toList, ∀ e ∈ t.entries, e.1.Valid fresh ∧ e.2.Valid fresh := by
      decide
    have htable : ∀ r, fresh.table r = {} ∨ fresh.table r ∈ fresh.tables.toList := by
      intro r
      rw [table, Array.getD_eq_getD_getElem?]
      cases h : fresh.tables[r]? with
      | none => exact .inl rfl
      | some t => exact .inr (Array.mem_toList_iff.2 (Array.mem_of_getElem? h))
    refine ⟨by decide, fun r m hm => ?_, fun r e he => ?_, fun i => ?_⟩
    · have hnone : ∀ t ∈ fresh.tables.toList, t.metatable = none := by decide
      rw [metatable?] at hm
      rcases htable r with h | h
      · rw [h] at hm
        cases hm
      · rw [hnone _ h] at hm
        cases hm
    · rcases htable r with h | h
      · rw [h] at he
        cases he
      · exact hentries _ h e he
    · exact Value.valid_of_not_isReference id fresh
  builtins := by decide
  failures := rfl
  wrappers := rfl
  hostless r f h := by
    obtain ⟨b, hb⟩ := function?_fresh h
    cases hb

end State

end ScriptHost.Script

namespace ScriptHost.Exchange

open Script (State Value Eval Call Site)
open Script.State (seclusion)

/-- A secluded state holds no host function to call. -/
theorem Channel.Serves.secluded {catalog : Catalog} {c : Channel} (hc : c.Serves catalog) :
    seclusion.Calls c.call := by
  obtain ⟨n, hn⟩ := hc
  rw [hn]
  exact Script.Evaluation.callAt_calls (fun _ _ s r f hs hf => absurd hf (State.Secluded.hostless hs r f)) n

section Running

variable {c : Channel} {f f' : Frame} {α : Type} {P : State → α → Prop} {m : Call → Site → Eval α}
  (hm : seclusion.Ends f.state P (m c.call c.site))
include hm

/-- The script code of an attempt leaves a secluded state, and the stack is not its own. -/
theorem attempt_secluded {r : Except String α} (h : attempt m c f = .done r f') :
    f'.stack = f.stack ∧ f'.state.Secluded ∧ ∀ a, r = .ok a → P f'.state a := by
  unfold Script.Regime.Ends at hm
  unfold attempt at h
  cases hrun : m c.call c.site f.state with
  | done a s =>
    rw [hrun] at h hm
    cases h
    refine ⟨rfl, hm.2.1, fun b hb => ?_⟩
    cases hb
    exact hm.2.2
  | raised v s =>
    rw [hrun] at h hm
    have herror {message : String} (h : (.done (.error message) { f with state := s } : Outcome _) = .done r f') :
        f'.stack = f.stack ∧ f'.state.Secluded ∧ ∀ a, r = .ok a → P f'.state a := by
      cases h
      exact ⟨rfl, hm.2.1, fun b hb => by cases hb⟩
    simp only at h
    split at h
    · split at h
      · cases h
      · exact herror h
    · exact herror h
  | exhausted =>
    rw [hrun] at h
    cases h

theorem primitive_secluded {a : α} (h : primitive m c f = .done a f') :
    f'.stack = f.stack ∧ f'.state.Secluded ∧ P f'.state a := by
  obtain ⟨r, f₁, hr, ha⟩ := of_bind_done h
  obtain ⟨hst, hs, hP⟩ := attempt_secluded hm hr
  cases r with
  | ok =>
    cases ha
    exact ⟨hst, hs, hP a rfl⟩
  | error message => cases ha

end Running

/-- A text that runs in a secluded state leaves one. -/
theorem execute_secluded {catalog : Catalog} {c : Channel} (hc : c.Serves catalog) {name source : String}
    {f f' : Frame} (hs : f.state.Secluded) (h : Live.LoadedScript.execute name source c f = .done () f') :
    f'.stack = f.stack ∧ f'.state.Secluded := by
  obtain ⟨r, f₁, hrun, hdone⟩ := of_bind_done h
  have hsame : f' = f₁ := by
    cases r with
    | ok u =>
      cases hdone
      rfl
    | error e => cases hdone
  subst hsame
  unfold runChunk at hrun
  cases hzero : name.toUTF8.toList.idxOf? 0 with
  | some n =>
    simp only [hzero] at hrun
    cases hrun
    exact ⟨rfl, hs⟩
  | none =>
    cases hread : Script.Chunk.read source with
    | error fault =>
      simp only [hzero, hread] at hrun
      cases hrun
      exact ⟨rfl, hs⟩
    | ok body =>
      simp only [hzero, hread] at hrun
      obtain ⟨fn, f₂, hload, hcall⟩ := of_bind_done hrun
      have hnew : seclusion.Ends f.state (fun t r => Value.Valid t (.function r))
          (Script.Evaluation.loadChunk body (chunkTitle name)) :=
        Script.Regime.ends_act (seclusion.newClosure body [] 0 (chunkTitle name) hs)
      obtain ⟨hst₂, hs₂, -⟩ := primitive_secluded hnew hload
      obtain ⟨result, f₃, hattempt, hend⟩ := of_bind_done hcall
      obtain ⟨hst₃, hs₃, -⟩ := attempt_secluded
        (hc.secluded f₂.state fn [] _ hs₂ Script.Regime.fits_nil) hattempt
      cases result with
      | ok vs =>
        cases hend
        exact ⟨hst₃.trans hst₂, hs₃⟩
      | error message =>
        cases hend
        exact ⟨hst₃.trans hst₂, hs₃⟩

end ScriptHost.Exchange
