import Mathlib.Logic.Relator
import ScriptHost.Proofs.Replays
import ScriptHost.Proofs.RoundTrip

/-! Two states that are the same but for the numbers of their objects. A pairing says which tables and
functions stand for each other. Two states that the same ledger describes are alike under the pairing
that keeps what the script made, and lines up the tables of each global that the host made. -/

namespace ScriptHost.Live

open Script (State TableRef FunctionRef Value)
open Host (asKey_ofString)
open Exchange

/-! ### Pairings -/

/-- Which tables and functions of one state stand for which of another. -/
structure Pairing where
  tables : TableRef → TableRef → Prop
  functions : FunctionRef → FunctionRef → Prop

/-- The same value, with paired objects in the place of each other. -/
def Pairing.Values (p : Pairing) : Value → Value → Prop
  | .table r, .table r' => p.tables r r'
  | .function r, .function r' => p.functions r r'
  | v, w => v = w

/-- The states are the same up to a pairing: paired tables hold paired values under paired keys, but
for lost entries, and nothing under other keys. What one state can reach from its globals and
variables is therefore paired with what the other one can. -/
structure Alike (p : Pairing) (lost : TableRef → Value → Prop) (s t : State) : Prop where
  tables_unique : Relator.BiUnique p.tables
  functions_unique : Relator.BiUnique p.functions
  globals : p.tables s.globals t.globals
  metatable : ∀ r r', p.tables r r' → Option.Rel p.tables (s.metatable? r) (t.metatable? r')
  entry : ∀ r r' k k', p.tables r r' → p.Values k k' → lost r k ∨ p.Values (s.rawGet r k) (t.rawGet r' k')
  key_left : ∀ r r' k, p.tables r r' → s.rawGet r k ≠ .nil → ∃ k', p.Values k k'
  key_right : ∀ r r' k', p.tables r r' → t.rawGet r' k' ≠ .nil → ∃ k, p.Values k k'
  function : ∀ r r', p.functions r r' → s.function? r = t.function? r'
  cell : ∀ i, p.Values (s.cell i) (t.cell i)
  failures : s.failures = t.failures
  threads : s.threads = t.threads

theorem Alike.imp {p : Pairing} {lost lost' : TableRef → Value → Prop} {s t : State} (h : Alike p lost s t)
    (hl : ∀ r k, lost r k → lost' r k) : Alike p lost' s t :=
  { h with entry := fun r r' k k' hr hk => (h.entry r r' k k' hr hk).imp_left (hl r k) }

/-- What the state holds at the end of a path of names. -/
def follow (s : State) : Value → List String → Value
  | v, [] => v
  | .table r, n :: ns => follow s (s.rawGet r (.ofString n)) ns
  | _, _ :: _ => .nil

/-- Every path from the globals leads to paired values. -/
theorem Alike.follow {p : Pairing} {s t : State} (h : Alike p (fun _ _ => False) s t) (ns : List String) :
    p.Values (follow s (.table s.globals) ns) (follow t (.table t.globals) ns) := by
  suffices hpath : ∀ v w, p.Values v w → p.Values (Live.follow s v ns) (Live.follow t w ns) from
    hpath (.table s.globals) (.table t.globals) h.globals
  induction ns with
  | nil => exact fun _ _ hvw => hvw
  | cons n ns ih =>
    intro v w hvw
    cases v with
    | table r =>
      cases w with
      | table r' =>
        refine ih _ _ ?_
        rcases h.entry r r' (.ofString n) (.ofString n) hvw rfl with hlost | hentry
        · exact hlost.elim
        · exact hentry
      | _ => cases hvw
    | function r =>
      cases w with
      | function r' => rfl
      | _ => cases hvw
    | _ =>
      cases hvw
      rfl

/-! ### Copies of one value -/

section Copies

variable {s t : State} {p : Pairing}

/-- Copies of one value are paired when their tables are, one after another. -/
theorem values_of_copies {v : Host.Value} {a b : Nat} {x y : Value} (hx : Copy s v a x) (hy : Copy t v b y)
    (ht : ∀ i, i < extent v → p.tables (a + i) (b + i))
    (hf : ∀ r r' f, s.hostFunction? r = some f → t.hostFunction? r' = some f → p.functions r r') : p.Values x y := by
  cases v with
  | function f =>
    obtain ⟨r, rfl, hr⟩ := hx
    obtain ⟨r', rfl, hr'⟩ := hy
    exact hf r r' f hr hr'
  | table es =>
    obtain ⟨rfl, -⟩ := hx
    obtain ⟨rfl, -⟩ := hy
    exact ht 0 (by simp only [extent]; omega)
  | number | text | boolean | pointer =>
    rw [show x = _ from hx, show y = _ from hy]
    rfl

theorem values_of_copied_entries {es : List (String × Host.Value)} {a b : Nat} {xs ys : List (Value × Value)}
    (hx : CopyEntries s es a xs) (hy : CopyEntries t es b ys)
    (ht : ∀ i, i < extentEntries es → p.tables (a + i) (b + i))
    (hf : ∀ r r' f, s.hostFunction? r = some f → t.hostFunction? r' = some f → p.functions r r') (k : Value) :
    p.Values (Script.Table.find k xs) (Script.Table.find k ys) := by
  induction es generalizing a b xs ys with
  | nil =>
    rw [show xs = [] from hx, show ys = [] from hy]
    rfl
  | cons e es ih =>
    obtain ⟨x, xs, rfl, hx, hxs⟩ := hx
    obtain ⟨y, ys, rfl, hy, hys⟩ := hy
    simp only [extentEntries] at ht
    simp only [Script.Table.find]
    split
    · exact values_of_copies hx hy (fun i hi => ht i (by omega)) hf
    · apply ih hxs hys
      intro i hi
      have hti := ht (extent e.2 + i) (by omega)
      rwa [← Nat.add_assoc, ← Nat.add_assoc] at hti

mutual

/-- Each of the tables that a copy is made of is itself a copy, of the same value in every state. -/
theorem copy_at (v : Host.Value) (i : Nat) (hi : i < extent v) :
    ∃ es, i + extent (.table es) ≤ extent v ∧
      ∀ (s : State) (a : Nat) (w : Value), Copy s v a w → Copy s (.table es) (a + i) (.table (a + i)) := by
  cases v with
  | table es =>
    cases i with
    | zero =>
      refine ⟨es, by omega, fun s a w h => ?_⟩
      obtain ⟨rfl, hrest⟩ := h
      exact ⟨rfl, hrest⟩
    | succ i =>
      simp only [extent] at hi
      obtain ⟨es', hext, hcopy⟩ := copyEntries_at es i (by omega)
      refine ⟨es', by simp only [extent] at hext ⊢; omega, fun s a w h => ?_⟩
      obtain ⟨rfl, -, -, hes⟩ := h
      have hc := hcopy s (a + 1) _ hes
      rwa [show a + 1 + i = a + (i + 1) by omega] at hc
  | _ => simp [extent] at hi

theorem copyEntries_at (es : List (String × Host.Value)) (i : Nat) (hi : i < extentEntries es) :
    ∃ es', i + extent (.table es') ≤ extentEntries es ∧
      ∀ (s : State) (a : Nat) (ws : List (Value × Value)), CopyEntries s es a ws →
        Copy s (.table es') (a + i) (.table (a + i)) := by
  cases es with
  | nil => simp [extentEntries] at hi
  | cons e es =>
    simp only [extentEntries] at hi
    by_cases hlt : i < extent e.2
    · obtain ⟨es', hext, hcopy⟩ := copy_at e.2 i hlt
      refine ⟨es', by simp only [extentEntries]; omega, fun s a ws h => ?_⟩
      obtain ⟨w, rest, rfl, hw, -⟩ := h
      exact hcopy s a w hw
    · obtain ⟨es', hext, hcopy⟩ := copyEntries_at es (i - extent e.2) (by omega)
      refine ⟨es', by simp only [extentEntries]; omega, fun s a ws h => ?_⟩
      obtain ⟨w, rest, rfl, -, hrest⟩ := h
      have hc := hcopy s (a + extent e.2) rest hrest
      rwa [show a + extent e.2 + (i - extent e.2) = a + i by omega] at hc

end

end Copies

/-- Each of the tables of a global that the host made is made alike in every state. -/
theorem madeTable_at (m : Made) (i : Nat) (hi : i < extent m.value) :
    ∃ es fs, i + extent (.table es) ≤ extent m.value ∧
      ∀ (s : State) (a : Nat) (w : Value), Holds s m a w → MadeTable s es fs (a + i) := by
  obtain ⟨v, fs⟩ := m
  cases v with
  | table es =>
    cases i with
    | zero => exact ⟨es, fs, Nat.le_of_eq (Nat.zero_add _), fun s a w h => h.2⟩
    | succ i =>
      simp only [extent] at hi
      obtain ⟨es', hext, hcopy⟩ := copyEntries_at es i (by omega)
      refine ⟨es', fun _ => none, by simp only [extent] at hext ⊢; omega, fun s a w h => ?_⟩
      obtain ⟨rfl, -, ws, hws, -⟩ := h
      have hc := hcopy s (a + 1) ws hws
      rw [show a + 1 + i = a + (i + 1) by omega] at hc
      exact madeTable_of_copy hc
  | _ => simp [extent] at hi

/-! ### Keys -/

theorem registered_of_isReference {k : Value} (h : k.IsReference) (fs : String → Option HostFunction) :
    registered fs k.asKey = none := by
  cases k with
  | table | function => rfl
  | _ => cases h

theorem not_isReference_scriptKey (k : String) : ¬(Host.scriptKey k).IsReference := by
  rcases Host.scriptKey_cases k with h | ⟨i, -, -, h⟩
  · rw [h]
    exact id
  · rw [h]
    exact id

/-- Copies have no references among their keys. -/
theorem find_of_isReference {s : State} {es : List (String × Host.Value)} {a : Nat} {ws : List (Value × Value)}
    (h : CopyEntries s es a ws) {k : Value} (hk : k.IsReference) : Script.Table.find k.asKey ws = .nil := by
  by_contra hc
  have hm := List.mem_map_of_mem (f := Prod.fst) (Script.Table.mem_of_find rfl hc)
  rw [(h.copied (Nat.le_refl a)).keys, List.mem_map, hk.asKey] at hm
  obtain ⟨e, -, he⟩ := hm
  exact not_isReference_scriptKey e.1 (he ▸ hk)

theorem Pairing.Values.cases {p : Pairing} {k k' : Value} (h : p.Values k k') :
    (k = k' ∧ ¬k.IsReference) ∨ (k.IsReference ∧ k'.IsReference) := by
  cases k with
  | table r =>
    cases k' with
    | table r' => exact .inr ⟨trivial, trivial⟩
    | _ => cases h
  | function r =>
    cases k' with
    | function r' => exact .inr ⟨trivial, trivial⟩
    | _ => cases h
  | _ => exact .inl ⟨by cases k' <;> exact h, id⟩

theorem Pairing.Values.eq_of_text {p : Pairing} {k k' : Value} (h : p.Values k k') {n : String}
    (hn : k.asKey = .ofString n ∨ k'.asKey = .ofString n) : k = k' := by
  rcases h.cases with ⟨he, -⟩ | ⟨hr, hr'⟩
  · exact he
  · rcases hn with hn | hn
    · exact absurd hn (hr.asKey_ne n)
    · exact absurd hn (hr'.asKey_ne n)

/-! ### Two states of one ledger -/

/-- Objects of the script stand for themselves, wrappers for wrappers of the same host function, and the
tables of a global that the host made for those in the same order. -/
def pairing (s₀ : State) (l : Ledger) (place place' : String → Nat) (t t' : State) : Pairing where
  tables r r' := (r < s₀.tables.size ∧ r' = r) ∨
    ∃ n m i, l.made n = some m ∧ i < extent m.value ∧ r = place n + i ∧ r' = place' n + i
  functions r r' := (r < s₀.functions.size ∧ r' = r) ∨
    ∃ f, t.hostFunction? r = some f ∧ t'.hostFunction? r' = some f

/-- A table that the script made, or one of a global that the host made. -/
def Known (s₀ : State) (l : Ledger) (place : String → Nat) (r : Nat) : Prop :=
  r < s₀.tables.size ∨ ∃ n m i, l.made n = some m ∧ i < extent m.value ∧ r = place n + i

section One

variable {s₀ t : State} {l : Ledger} {place : String → Nat} (hc : s₀.Closed) (h : Describes s₀ l place t)
include h

theorem Describes.madeTable {n : String} {m : Made} (hm : l.made n = some m) {i : Nat} (hi : i < extent m.value) :
    ∃ es fs, i + extent (.table es) ≤ extent m.value ∧ MadeTable t es fs (place n + i) := by
  obtain ⟨es, fs, hext, hmade⟩ := madeTable_at m i hi
  exact ⟨es, fs, hext, hmade t _ _ (h.made n m hm).holds⟩

include hc in
/-- Only references that were there are keys. -/
theorem Describes.valid_key {r : Nat} (hr : Known s₀ l place r) {k : Value} (hk : t.rawGet r k ≠ .nil) :
    k.Valid s₀ := by
  by_cases href : k.IsReference
  · have hold : ∀ r, t.rawGet r k = s₀.rawGet r k → t.rawGet r k ≠ .nil → k.Valid s₀ := by
      intro r hget hne
      rw [hget] at hne
      have hv := hc.key hne
      rwa [href.asKey] at hv
    rcases hr with hr | ⟨n, m, i, hm, hi, rfl⟩
    · by_cases hg : r = s₀.globals
      · subst hg
        exact hold _ (h.global k fun n hn => absurd hn (href.asKey_ne n)) hk
      · exact hold r ((h.table r hr hg k).2 (registered_of_isReference href _)) hk
    · obtain ⟨es, fs, -, -, ws, hws, ht⟩ := h.madeTable hm hi
      have hget : t.rawGet (place n + i) k = Script.Table.find k.asKey ws :=
        (ht k).2 (registered_of_isReference href fs)
      rw [hget, find_of_isReference hws href] at hk
      exact absurd rfl hk
  · exact Script.Value.valid_of_not_isReference href s₀

theorem Describes.le_of_made {n : String} {m : Made} (hm : l.made n = some m) (i : Nat) :
    s₀.tables.size ≤ place n + i :=
  Nat.le_trans (h.made n m hm).behind (Nat.le_add_right ..)

/-- The tables of two globals of the host do not meet. -/
theorem Describes.eq_of_offset {n n' : String} {m m' : Made} {i i' : Nat} (hm : l.made n = some m)
    (hm' : l.made n' = some m') (hi : i < extent m.value) (hi' : i' < extent m'.value)
    (he : place n + i = place n' + i') : n = n' ∧ i = i' := by
  by_cases hn : n = n'
  · subst hn
    exact ⟨rfl, by omega⟩
  · rcases h.apart n m n' m' hn hm hm' with hap | hap <;> omega

end One

section Two

variable {s₀ t t' : State} {l l' : Ledger} {place place' : String → Nat} {lost : TableRef → String → Prop}
  (hc : s₀.Closed) (hn : s₀.Named) (h : Describes s₀ l place t) (h' : Describes s₀ l' place' t')
  (hl : l.Agrees lost l')

theorem values_of_valid {v : Value} (hv : v.Valid s₀) : (pairing s₀ l place place' t t').Values v v := by
  cases v with
  | table r => exact .inl ⟨hv, rfl⟩
  | function r => exact .inl ⟨hv, rfl⟩
  | _ => rfl

theorem values_of_wraps {f : HostFunction} {v w : Value} (hv : Wraps t f v) (hw : Wraps t' f w) :
    (pairing s₀ l place place' t t').Values v w := by
  obtain ⟨r, rfl, hr⟩ := hv
  obtain ⟨r', rfl, hr'⟩ := hw
  exact .inr ⟨f, hr, hr'⟩

theorem registered_of_values {p : Pairing} {k k' : Value} (hk : p.Values k k') (fs : String → Option HostFunction) :
    registered fs k.asKey = registered fs k'.asKey := by
  rcases hk.cases with ⟨rfl, -⟩ | ⟨hr, hr'⟩
  · rfl
  · rw [registered_of_isReference hr, registered_of_isReference hr']

/-- What tables hold in the two states, when the same functions are registered in them over values
that are paired. -/
theorem values_of_overlaid {fs fs' : String → Option HostFunction} {base base' : Value → Value}
    {u u' : Script.Table} (hu : Overlaid t fs base u) (hu' : Overlaid t' fs' base' u') {k k' : Value}
    (hreg : registered fs k.asKey = registered fs' k'.asKey)
    (hbase : (pairing s₀ l place place' t t').Values (base k) (base' k')) :
    (pairing s₀ l place place' t t').Values (u.get k) (u'.get k') := by
  cases hf : registered fs k.asKey with
  | some f => exact values_of_wraps ((hu k).1 f hf) ((hu' k').1 f (hreg.symm.trans hf))
  | none =>
    rw [(hu k).2 hf, (hu' k').2 (hreg.symm.trans hf)]
    exact hbase

/-- Paired tables of the host hold paired values. -/
theorem values_of_madeTable {es : List (String × Host.Value)} {fs : String → Option HostFunction} {r r' : Nat}
    (hr : MadeTable t es fs r) (hr' : MadeTable t' es fs r')
    (hin : ∀ i, i < extentEntries es → (pairing s₀ l place place' t t').tables (r + 1 + i) (r' + 1 + i))
    {k k' : Value} (hk : (pairing s₀ l place place' t t').Values k k') :
    (pairing s₀ l place place' t t').Values (t.rawGet r k) (t'.rawGet r' k') := by
  obtain ⟨-, ws, hws, hu⟩ := hr
  obtain ⟨-, ws', hws', hu'⟩ := hr'
  refine values_of_overlaid hu hu' (registered_of_values hk fs) ?_
  rcases hk.cases with ⟨rfl, -⟩ | ⟨href, href'⟩
  · exact values_of_copied_entries hws hws' hin (fun r r' f hf hf' => .inr ⟨f, hf, hf'⟩) k.asKey
  · rw [find_of_isReference hws href, find_of_isReference hws' href']
    rfl

include h h' hl

/-- Globals of the host hold paired values. -/
theorem values_of_made {n : String} {m : Made} (hm : l.made n = some m) :
    (pairing s₀ l place place' t t').Values (t.rawGet s₀.globals (.ofString n))
      (t'.rawGet s₀.globals (.ofString n)) := by
  have hm' : l'.made n = some m := by rw [← hl.made n, hm]
  have hv := (h.made n m hm).holds
  have hv' := (h'.made n m hm').holds
  have hin : ∀ i, i < extent m.value →
      (pairing s₀ l place place' t t').tables (place n + i) (place' n + i) :=
    fun i hi => .inr ⟨n, m, i, hm, hi, rfl, rfl⟩
  obtain ⟨v, fs⟩ := m
  cases v with
  | table es =>
    rw [hv.1, hv'.1]
    exact hin 0 (by simp only [extent]; omega)
  | _ => exact values_of_copies hv hv' hin fun r r' f hf hf' => .inr ⟨f, hf, hf'⟩

omit hl in
/-- What was a wrapper before is one of the same host function in both states. -/
theorem hostFunction?_of_lt {r : FunctionRef} (hr : r < s₀.functions.size) {f : HostFunction}
    (hf : t.hostFunction? r = some f) : t'.hostFunction? r = some f := by
  have hold : s₀.function? r = some s₀.functions[r] := Array.getElem?_eq_getElem hr
  rw [State.hostFunction?_eq_some, h.function r _ hold] at hf
  rw [State.hostFunction?_eq_some, h'.function r _ hold, hf]

include hn

omit hl in
/-- A wrapper that was there before is paired with itself alone. -/
theorem eq_of_lt {q q' : FunctionRef} (hq : q < s₀.functions.size) {f : HostFunction}
    (hf : t.hostFunction? q = some f) (hf' : t'.hostFunction? q' = some f) : q = q' := by
  have hn' := h'.named hn
  exact Option.some.inj ((hn' f q (hostFunction?_of_lt h h' hq hf)).symm.trans (hn' f q' hf'))

/-- Paired keys are one value, or objects of the host in both states. -/
theorem eq_or_not_valid {k k' : Value} (hk : (pairing s₀ l place place' t t').Values k k') :
    k = k' ∨ (¬k.Valid s₀ ∧ ¬k'.Valid s₀) := by
  rcases hk.cases with ⟨he, -⟩ | ⟨hr, hr'⟩
  · exact .inl he
  · cases k with
    | table q =>
      cases k' with
      | table q' =>
        rcases hk with ⟨-, rfl⟩ | ⟨n, m, i, hm, -, rfl, rfl⟩
        · exact .inl rfl
        · have hm' : l'.made n = some m := by rw [← hl.made n, hm]
          exact .inr ⟨Nat.not_lt_of_le (h.le_of_made hm i), Nat.not_lt_of_le (h'.le_of_made hm' i)⟩
      | _ => cases hk
    | function q =>
      cases k' with
      | function q' =>
        rcases hk with ⟨-, rfl⟩ | ⟨f, hf, hf'⟩
        · exact .inl rfl
        · by_cases he : q = q'
          · exact .inl (congrArg Value.function he)
          · exact .inr ⟨fun hq => he (eq_of_lt hn h h' hq hf hf'), fun hq => he (eq_of_lt hn h' h hq hf' hf).symm⟩
      | _ => cases hk
    | _ => cases hr

include hc

/-- What the script left under paired keys. -/
theorem values_base {k k' : Value} (hk : (pairing s₀ l place place' t t').Values k k') (r : TableRef) :
    (pairing s₀ l place place' t t').Values (s₀.rawGet r k) (s₀.rawGet r k') := by
  rcases eq_or_not_valid hn h h' hl hk with rfl | ⟨hn, hn'⟩
  · exact values_of_valid (hc.rawGet r k)
  · have hnil : ∀ k : Value, ¬k.Valid s₀ → s₀.rawGet r k = .nil := by
      intro k hn
      by_contra hne
      have href : k.IsReference := by
        by_contra hr
        exact hn (Script.Value.valid_of_not_isReference hr s₀)
      have hv := hc.key hne
      rw [href.asKey] at hv
      exact hn hv
    rw [hnil k hn, hnil k' hn']
    rfl

/-- The globals hold paired values under paired keys. -/
theorem values_of_globals {k k' : Value} (hk : (pairing s₀ l place place' t t').Values k k') :
    (pairing s₀ l place place' t t').Values (t.rawGet s₀.globals k) (t'.rawGet s₀.globals k') := by
  by_cases hmade : ∃ n m, k.asKey = .ofString n ∧ l.made n = some m
  · obtain ⟨n, m, hkn, hm⟩ := hmade
    obtain rfl := hk.eq_of_text (.inl hkn)
    have hget : ∀ u : State, u.rawGet s₀.globals k = u.rawGet s₀.globals (.ofString n) := fun u => by
      rw [State.rawGet, State.rawGet, Script.Table.get, Script.Table.get, hkn, asKey_ofString]
    rw [hget, hget]
    exact values_of_made h h' hl hm
  · have hnone : ∀ n, k.asKey = .ofString n → l.made n = none := fun n hn => by
      cases hm : l.made n with
      | none => rfl
      | some m => exact absurd ⟨n, m, hn, hm⟩ hmade
    have hnone' : ∀ n, k'.asKey = .ofString n → l'.made n = none := fun n hn => by
      rw [← hl.made n]
      apply hnone n
      rw [hk.eq_of_text (.inr hn)]
      exact hn
    rw [h.global k hnone, h'.global k' hnone']
    exact values_base hc hn h h' hl hk _

/-- Paired tables hold paired values under paired keys, but for lost functions. -/
theorem values_of_tables {r r' : TableRef} (hr : (pairing s₀ l place place' t t').tables r r') {k k' : Value}
    (hk : (pairing s₀ l place place' t t').Values k k') :
    (∃ n, k.asKey = .ofString n ∧ lost r n) ∨
      (pairing s₀ l place place' t t').Values (t.rawGet r k) (t'.rawGet r' k') := by
  rcases hr with ⟨hlt, rfl⟩ | ⟨n, m, i, hm, hi, rfl, rfl⟩
  · by_cases hg : r' = s₀.globals
    · rw [hg]
      exact .inr (values_of_globals hc hn h h' hl hk)
    · by_cases hlost : ∃ n, k.asKey = .ofString n ∧ lost r' n
      · exact .inl hlost
      · right
        have hreg : registered (l.written r') k.asKey = registered (l'.written r') k'.asKey := by
          rw [← registered_of_values hk]
          apply registered_congr
          intro n hn
          rcases hl.written r' n with hw | hw
          · exact absurd ⟨n, hn, hw⟩ hlost
          · exact hw
        exact values_of_overlaid (h.table r' hlt hg) (h'.table r' hlt hg) hreg (values_base hc hn h h' hl hk r')
  · right
    have hm' : l'.made n = some m := by rw [← hl.made n, hm]
    obtain ⟨es, fs, hext, hmade⟩ := madeTable_at m i hi
    rw [extent] at hext
    have hnext : ∀ a j : Nat, a + i + 1 + j = a + (i + 1 + j) := fun a j => by omega
    exact values_of_madeTable (hmade t _ _ (h.made n m hm).holds) (hmade t' _ _ (h'.made n m hm').holds)
      (fun j hj => .inr ⟨n, m, i + 1 + j, hm, by omega, hnext _ j, hnext _ j⟩) hk

omit hc hn h h' hl in
theorem known_of_tables {r r' : TableRef} (hr : (pairing s₀ l place place' t t').tables r r') :
    Known s₀ l place r := by
  rcases hr with ⟨hlt, -⟩ | ⟨n, m, i, hm, hi, he, -⟩
  · exact .inl hlt
  · exact .inr ⟨n, m, i, hm, hi, he⟩

omit hc hn h h' in
theorem tables_swap {r r' : TableRef} (hr : (pairing s₀ l place place' t t').tables r r') :
    (pairing s₀ l' place' place t' t).tables r' r := by
  rcases hr with ⟨hlt, rfl⟩ | ⟨n, m, i, hm, hi, hr, hr'⟩
  · exact .inl ⟨hlt, rfl⟩
  · exact .inr ⟨n, m, i, (hl.made n).symm.trans hm, hi, hr', hr⟩

omit hc hn h' hl in
theorem tables_right_unique : Relator.RightUnique (pairing s₀ l place place' t t').tables := by
  intro r q q' hr hr'
  rcases hr with ⟨hlt, rfl⟩ | ⟨n, m, i, hm, hi, rfl, rfl⟩
  · rcases hr' with ⟨-, he⟩ | ⟨n, m, i, hm, hi, rfl, rfl⟩
    · exact he.symm
    · exact absurd hlt (Nat.not_lt_of_le (h.le_of_made hm i))
  · rcases hr' with ⟨hlt, rfl⟩ | ⟨n₁, m₁, i₁, hm₁, hi₁, he, rfl⟩
    · exact absurd hlt (Nat.not_lt_of_le (h.le_of_made hm i))
    · obtain ⟨rfl, rfl⟩ := h.eq_of_offset hm hm₁ hi hi₁ he
      rfl

omit hc hn in
theorem tables_unique : Relator.BiUnique (pairing s₀ l place place' t t').tables := by
  constructor
  · intro r r' q hr hr'
    exact tables_right_unique h' (tables_swap hl hr) (tables_swap hl hr')
  · exact tables_right_unique h

omit hc hl in
/-- A host function has one wrapper at most. -/
theorem functions_right_unique : Relator.RightUnique (pairing s₀ l place place' t t').functions := by
  intro r q q' hr hr'
  rcases hr with ⟨hlt, rfl⟩ | ⟨f, hf, hf'⟩
  · rcases hr' with ⟨-, he⟩ | ⟨f, hf, hf'⟩
    · exact he.symm
    · exact eq_of_lt hn h h' hlt hf hf'
  · rcases hr' with ⟨hlt, rfl⟩ | ⟨g, hg, hg'⟩
    · exact (eq_of_lt hn h h' hlt hf hf').symm
    · obtain rfl : f = g := Option.some.inj (hf.symm.trans hg)
      have hn' := h'.named hn
      exact Option.some.inj ((hn' f q hf').symm.trans (hn' f q' hg'))

omit hc hl in
theorem functions_unique : Relator.BiUnique (pairing s₀ l place place' t t').functions := by
  have swap {r q : FunctionRef} (hr : (pairing s₀ l place place' t t').functions r q) :
      (pairing s₀ l' place' place t' t).functions q r := by
    rcases hr with ⟨hlt, rfl⟩ | ⟨f, hf, hf'⟩
    · exact .inl ⟨hlt, rfl⟩
    · exact .inr ⟨f, hf', hf⟩
  constructor
  · intro r r' q hr hr'
    exact functions_right_unique hn h' h (swap hr) (swap hr')
  · exact functions_right_unique hn h h'

/-- Two states that ledgers with the same globals describe are alike, but for the functions that one of
them has lost. -/
theorem alike_of_describes :
    Alike (pairing s₀ l place place' t t') (fun r k => ∃ n, k.asKey = .ofString n ∧ lost r n) t t' where
  tables_unique := tables_unique h h' hl
  functions_unique := functions_unique hn h h'
  globals := .inl ⟨by rw [h.globals]; exact hc.globals, by rw [h'.globals, h.globals]⟩
  metatable r r' hr := by
    rcases hr with ⟨hlt, rfl⟩ | ⟨n, m, i, hm, hi, rfl, rfl⟩
    · rw [h.metatable r' hlt, h'.metatable r' hlt]
      cases hmt : s₀.metatable? r' with
      | none => exact .none
      | some q => exact .some (.inl ⟨hc.metatable r' q hmt, rfl⟩)
    · have hm' : l'.made n = some m := by rw [← hl.made n, hm]
      obtain ⟨es, fs, -, hmade⟩ := madeTable_at m i hi
      rw [(hmade t _ _ (h.made n m hm).holds).1, (hmade t' _ _ (h'.made n m hm').holds).1]
      exact .none
  entry r r' k k' hr hk := values_of_tables hc hn h h' hl hr hk
  key_left r r' k hr hk := ⟨k, values_of_valid (h.valid_key hc (known_of_tables hr) hk)⟩
  key_right r r' k hr hk := ⟨k, values_of_valid (h'.valid_key hc (known_of_tables (tables_swap hl hr)) hk)⟩
  function r r' hr := by
    rcases hr with ⟨hlt, rfl⟩ | ⟨f, hf, hf'⟩
    · have hold : s₀.function? r' = some s₀.functions[r'] := Array.getElem?_eq_getElem hlt
      rw [h.function r' _ hold, h'.function r' _ hold]
    · rw [State.hostFunction?_eq_some.1 hf, State.hostFunction?_eq_some.1 hf']
  cell i := by
    rw [State.cell, State.cell, h.cells, h'.cells]
    exact values_of_valid (hc.cell i)
  failures := h.failures.trans h'.failures.symm
  threads := h.threads.trans h'.threads.symm

end Two

theorem alike_of_agrees {s₀ t t' : State} {l l' : Ledger} {place place' : String → Nat}
    {lost : TableRef → String → Prop} (hp : Plain s₀) (h : Realizes s₀ l place t) (h' : Realizes s₀ l' place' t')
    (hl : l.Agrees lost l') :
    Alike (pairing s₀ l place place' t t') (fun r k => ∃ n, k.asKey = .ofString n ∧ lost r n) t t' :=
  alike_of_describes hp.closed hp.named h.toDescribes h'.toDescribes hl

end ScriptHost.Live
