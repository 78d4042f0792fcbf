import Mathlib.Data.List.Nodup
import Mathlib.Data.Set.Card
import Mathlib.Logic.Function.Basic
import ScriptHost.Proofs.Reading

/-! A host table is a map in the order of insertion. Whatever edits made it, its contents are those of the
finite map that the writes give one after another, and its keys stand in the order of the writes that
made them present. -/

namespace ScriptHost.Host

/-! ### Histories of writes -/

/-- What an edit does to a map, one key at a time or to all keys. -/
inductive Write where
  | put (k : String) (v : Value)
  | drop (k : String)
  | clear

namespace Write

/-- A map of strings to values, after a write. -/
def apply (m : String → Option Value) : Write → String → Option Value
  | .put k v => Function.update m k (some v)
  | .drop k => Function.update m k none
  | .clear => fun _ => none

/-- The map that writes give from nothing, one after another. -/
def meaning (ws : List Write) : String → Option Value := ws.foldl apply fun _ => none

/-- Write number `i` made the key present, and it has been there ever since. -/
structure Born (ws : List Write) (k : String) (i : Nat) : Prop where
  lt : i < ws.length
  absent : meaning (ws.take i) k = none
  present : ∀ j, i < j → j ≤ ws.length → (meaning (ws.take j) k).isSome

/-- The first key was made present by an earlier write than the second. -/
def Before (ws : List Write) (k k' : String) : Prop := ∃ i j, i < j ∧ Born ws k i ∧ Born ws k' j

variable {ws : List Write} {w : Write} {k k' : String} {v : Value} {i j : Nat}

theorem meaning_append (ws : List Write) (w : Write) : meaning (ws ++ [w]) = apply (meaning ws) w := by
  rw [meaning, List.foldl_append]
  rfl

theorem put_mem_of_meaning (h : meaning ws k = some v) : .put k v ∈ ws := by
  induction ws using List.reverseRecOn with
  | nil => cases h
  | append_singleton ws w ih =>
    rw [meaning_append] at h
    have hold (hm : meaning ws k = some v) : .put k v ∈ ws ++ [w] := List.mem_append_left _ (ih hm)
    cases w with
    | put k' v' =>
      by_cases hk : k = k'
      · subst hk
        obtain rfl : v' = v := by simpa [apply] using h
        simp
      · exact hold (by simpa [apply, hk] using h)
    | drop k' =>
      by_cases hk : k = k'
      · simp [apply, hk] at h
      · exact hold (by simpa [apply, hk] using h)
    | clear => cases h

namespace Born

theorem append (h : Born ws k i) (hk : (meaning (ws ++ [w]) k).isSome) : Born (ws ++ [w]) k i := by
  refine ⟨by simpa using Nat.lt_succ_of_lt h.lt, ?_, fun j hij hj => ?_⟩
  · rw [List.take_append_of_le_length h.lt.le]
    exact h.absent
  · rcases Nat.lt_or_ge ws.length j with hlt | hle
    · rwa [List.take_of_length_le (by simpa using hlt)]
    · rw [List.take_append_of_le_length hle]
      exact h.present j hij hle

theorem last (h : meaning ws k = none) (hk : (meaning (ws ++ [w]) k).isSome) : Born (ws ++ [w]) k ws.length := by
  refine ⟨by simp, by rwa [List.take_left], fun j hj _ => ?_⟩
  rwa [List.take_of_length_le (by simpa using hj)]

theorem unique (h : Born ws k i) (h' : Born ws k j) : i = j := by
  -- the later of two would find the key present
  have hno {i j : Nat} (h : Born ws k i) (h' : Born ws k j) : ¬ i < j := fun hij => by
    simpa [h'.absent] using h.present j hij h'.lt.le
  exact Nat.le_antisymm (Nat.le_of_not_lt (hno h' h)) (Nat.le_of_not_lt (hno h h'))

end Born

theorem exists_born (h : (meaning ws k).isSome) : ∃ i, Born ws k i := by
  induction ws using List.reverseRecOn with
  | nil => cases h
  | append_singleton ws w ih =>
    cases hm : meaning ws k with
    | none => exact ⟨ws.length, .last hm h⟩
    | some v =>
      obtain ⟨i, hi⟩ := ih (by rw [hm]; rfl)
      exact ⟨i, hi.append h⟩

theorem Before.append (h : Before ws k k') (hk : (meaning (ws ++ [w]) k).isSome)
    (hk' : (meaning (ws ++ [w]) k').isSome) : Before (ws ++ [w]) k k' := by
  obtain ⟨i, j, hij, hi, hj⟩ := h
  exact ⟨i, j, hij, hi.append hk, hj.append hk'⟩

end Write

/-! ### Single writes -/

namespace Value

theorem find?_insertEntry (k : String) (v : Value) (es : List (String × Value)) (k' : String) :
    find? k' (Table.insertEntry k v es) = if k' = k then some v else find? k' es := by
  induction es with
  | nil => rfl
  | cons e es ih =>
    by_cases hk : k = e.1
    · rw [Table.insertEntry, if_pos hk, find?, find?, ← hk]
      split <;> rfl
    · rw [Table.insertEntry, if_neg hk, find?, find?, ih]
      by_cases he : k' = e.1
      · have hne : k' ≠ k := fun h => hk (h ▸ he)
        rw [if_pos he, if_neg hne, if_pos he]
      · simp [he]

theorem keys_insertEntry_of_mem {k : String} {es : List (String × Value)} (h : k ∈ es.map (·.1)) (v : Value) :
    (Table.insertEntry k v es).map (·.1) = es.map (·.1) := by
  induction es with
  | nil => cases h
  | cons e es ih =>
    by_cases hk : k = e.1
    · simp [Table.insertEntry, hk]
    · have hmem : k ∈ es.map (·.1) := (List.mem_cons.1 h).resolve_left hk
      simp [Table.insertEntry, hk, ih hmem]

theorem keys_removeEntry (k : String) (es : List (String × Value)) :
    (Table.removeEntry k es).map (·.1) = (es.map (·.1)).erase k := by
  induction es with
  | nil => rfl
  | cons e es ih =>
    by_cases hk : k = e.1
    · simp [Table.removeEntry, hk]
    · have hne : (e.1 == k) = false := beq_false_of_ne (Ne.symm hk)
      simp [Table.removeEntry, hk, hne, ih]

theorem find?_removeEntry {es : List (String × Value)} (h : (es.map (·.1)).Nodup) (k k' : String) :
    find? k' (Table.removeEntry k es) = if k' = k then none else find? k' es := by
  induction es with
  | nil => simp [Table.removeEntry, find?]
  | cons e es ih =>
    obtain ⟨he, hes⟩ := List.nodup_cons.1 h
    by_cases hk : k = e.1
    · rw [Table.removeEntry, if_pos hk, find?, hk]
      split
      next hk' => exact hk' ▸ (find?_eq_none_iff e.1 es).2 he
      · rfl
    · rw [Table.removeEntry, if_neg hk, find?, find?, ih hes]
      by_cases he : k' = e.1
      · have hne : k' ≠ k := fun h => hk (h ▸ he)
        rw [if_pos he, if_neg hne, if_pos he]
      · simp [he]

end Value

namespace Table

open Write (meaning Before Born)

theorem find?_set (t : Table) (k : String) (v : Value) (k' : String) :
    (t.set k v).find? k' = if k' = k then some v else t.find? k' :=
  Value.find?_insertEntry k v t.entries k'

theorem mem_keys_iff (t : Table) (k : String) : k ∈ t.keys ↔ (t.find? k).isSome := by
  rw [← not_iff_not, Option.not_isSome_iff_eq_none, find?, Value.find?_eq_none_iff]
  rfl

theorem keys_set_of_mem {t : Table} {k : String} (h : k ∈ t.keys) (v : Value) : (t.set k v).keys = t.keys :=
  Value.keys_insertEntry_of_mem h v

theorem keys_set_of_not_mem {t : Table} {k : String} (h : k ∉ t.keys) (v : Value) :
    (t.set k v).keys = t.keys ++ [k] := by
  rw [set_of_not_mem h, keys, List.map_append]
  rfl

theorem keys_remove {t : Table} (h : t.keys.Nodup) (k : String) :
    (t.remove k).2.keys = t.keys.filter (· != k) := by
  rw [← h.erase_eq_filter]
  exact Value.keys_removeEntry k t.entries

/-- The table after a write. -/
def write (t : Table) : Write → Table
  | .put k v => t.set k v
  | .drop k => (t.remove k).2
  | .clear => empty

def writeAll (t : Table) (ws : List Write) : Table := ws.foldl write t

/-- The table is what the writes made of nothing. -/
structure Records (t : Table) (ws : List Write) : Prop where
  nodup : t.keys.Nodup
  find? : ∀ k, t.find? k = meaning ws k
  ordered : t.keys.Pairwise (Before ws)

namespace Records

variable {t : Table} {ws : List Write}

theorem mem_keys_iff (h : Records t ws) (k : String) : k ∈ t.keys ↔ (meaning ws k).isSome := by
  rw [Table.mem_keys_iff, h.find?]

theorem empty : Records Table.empty [] := ⟨List.nodup_nil, fun _ => rfl, .nil⟩

/-- Keys that stay present stay in their order. -/
theorem ordered_sublist (h : Records t ws) (w : Write) {ks : List String} (hks : ks.Sublist t.keys)
    (hpresent : ∀ k ∈ ks, (meaning (ws ++ [w]) k).isSome) : ks.Pairwise (Before (ws ++ [w])) :=
  (h.ordered.sublist hks).imp_of_mem fun hk hk' hbefore => hbefore.append (hpresent _ hk) (hpresent _ hk')

theorem put (h : Records t ws) (k : String) (v : Value) : Records (t.set k v) (ws ++ [.put k v]) := by
  have hmeaning (k' : String) : meaning (ws ++ [.put k v]) k' = if k' = k then some v else meaning ws k' := by
    rw [Write.meaning_append, Write.apply, Function.update_apply]
  have hpresent : ∀ k' ∈ t.keys, (meaning (ws ++ [.put k v]) k').isSome := fun k' hk' => by
    rw [hmeaning]
    split
    · rfl
    · exact (h.mem_keys_iff k').1 hk'
  have hfind (k' : String) : (t.set k v).find? k' = meaning (ws ++ [.put k v]) k' := by
    rw [find?_set, hmeaning, h.find?]
  have hkept : t.keys.Pairwise (Before (ws ++ [.put k v])) := h.ordered_sublist _ (List.Sublist.refl _) hpresent
  by_cases hk : k ∈ t.keys
  · have hkeys : (t.set k v).keys = t.keys := keys_set_of_mem hk v
    exact ⟨hkeys ▸ h.nodup, hfind, hkeys ▸ hkept⟩
  · have hkeys : (t.set k v).keys = t.keys ++ [k] := keys_set_of_not_mem hk v
    have habsent : meaning ws k = none := by
      rw [← h.find?, ← Option.not_isSome_iff_eq_none, ← Table.mem_keys_iff]
      exact hk
    have hborn : Born (ws ++ [.put k v]) k ws.length := .last habsent (by simp [hmeaning])
    refine ⟨hkeys ▸ List.nodup_append.2 ⟨h.nodup, by simp, ?_⟩, hfind,
      hkeys ▸ List.pairwise_append.2 ⟨hkept, ?_, ?_⟩⟩
    · rintro k' hk' _ hmem rfl
      exact hk (List.mem_singleton.1 hmem ▸ hk')
    · exact List.pairwise_singleton _ _
    · intro k' hk' _ hmem
      obtain rfl := List.mem_singleton.1 hmem
      obtain ⟨i, hi⟩ := Write.exists_born ((h.mem_keys_iff k').1 hk')
      exact ⟨i, ws.length, hi.lt, hi.append (hpresent k' hk'), hborn⟩

theorem drop (h : Records t ws) (k : String) : Records (t.remove k).2 (ws ++ [.drop k]) := by
  have hmeaning (k' : String) : meaning (ws ++ [.drop k]) k' = if k' = k then none else meaning ws k' := by
    rw [Write.meaning_append, Write.apply, Function.update_apply]
  have hkeys : (t.remove k).2.keys = t.keys.filter (· != k) := keys_remove h.nodup k
  have hsublist : (t.remove k).2.keys.Sublist t.keys := hkeys ▸ List.filter_sublist
  refine ⟨h.nodup.sublist hsublist, fun k' => ?_, h.ordered_sublist _ hsublist fun k' hk' => ?_⟩
  · rw [hmeaning, ← h.find?]
    exact Value.find?_removeEntry h.nodup k k'
  · rw [hkeys, List.mem_filter, bne_iff_ne] at hk'
    rw [hmeaning, if_neg hk'.2]
    exact (h.mem_keys_iff k').1 hk'.1

theorem write (h : Records t ws) (w : Write) : Records (t.write w) (ws ++ [w]) := by
  cases w with
  | put k v => exact h.put k v
  | drop k => exact h.drop k
  | clear => exact ⟨List.nodup_nil, fun k => by rw [Write.meaning_append]; rfl, .nil⟩

theorem writeAll (h : Records t ws) (ws' : List Write) : Records (t.writeAll ws') (ws ++ ws') := by
  induction ws' generalizing t ws with
  | nil => rwa [List.append_nil]
  | cons w ws' ih =>
    rw [List.append_cons]
    exact ih (h.write w)

end Records

/-! ### Constructions -/

theorem setAll_eq (t : Table) (ps : List (String × Value)) :
    t.setAll ps = t.writeAll (ps.map fun p => .put p.1 p.2) := by
  rw [setAll, writeAll, List.foldl_map]
  rfl

/-- Setting entries that come after those there already. -/
theorem setAll_of_disjoint {t : Table} {es : List (String × Value)} (h : (t.keys ++ es.map (·.1)).Nodup) :
    t.setAll es = ⟨t.entries ++ es⟩ := by
  induction es generalizing t with
  | nil => rw [List.append_nil]; rfl
  | cons e es ih =>
    have hnew : e.1 ∉ t.keys := fun hmem => (List.nodup_append.1 h).2.2 _ hmem _ List.mem_cons_self rfl
    rw [List.map_cons, List.append_cons] at h
    have hset : t.set e.1 e.2 = ⟨t.entries ++ [e]⟩ := set_of_not_mem hnew e.2
    have hkeys : (t.set e.1 e.2).keys = t.keys ++ [e.1] := keys_set_of_not_mem hnew e.2
    change (t.set e.1 e.2).setAll es = _
    rw [ih (hkeys ▸ h), hset, List.append_assoc, List.singleton_append]

end Table

/-- A map of the host by itself: entries in their order, no key twice. -/
structure Map where
  entries : List (String × Value)
  distinct : (entries.map (·.1)).Nodup

namespace Map

/-- The table around a map. -/
def table (m : Map) : Table := ⟨m.entries⟩

theorem table_eq_ofPairs (m : Map) : m.table = Table.ofPairs m.entries :=
  (Table.setAll_of_disjoint (t := Table.empty) m.distinct).symm

end Map

/-- How a table begins: with pairs collected one after another, none for a new table, or around a map. -/
inductive Construction where
  | pairs (ps : List (String × Value))
  | map (m : Map)

namespace Construction

def pairsOf : Construction → List (String × Value)
  | .pairs ps => ps
  | .map m => m.entries

def table : Construction → Table
  | .pairs ps => Table.ofPairs ps
  | .map m => m.table

def writes (b : Construction) : List Write := b.pairsOf.map fun p => .put p.1 p.2

theorem table_eq_foldl (b : Construction) : b.table = b.pairsOf.foldl (fun t p => t.set p.1 p.2) Table.empty := by
  cases b with
  | pairs ps => rfl
  | map m => exact m.table_eq_ofPairs

theorem records (b : Construction) : b.table.Records b.writes := by
  have h := Table.Records.empty.writeAll b.writes
  rwa [writes, ← Table.setAll_eq, Table.setAll, ← table_eq_foldl, List.nil_append] at h

end Construction

/-! ### Traversals -/

namespace Table

theorem indexKey_injective : Function.Injective indexKey := by
  intro i j h
  have hdigits : Nat.toDigits 10 i = Nat.toDigits 10 j := String.ofList_injective h
  rw [← Nat.ofDigitChars_ten_toDigits (n := i), hdigits, Nat.ofDigitChars_ten_toDigits]

/-- What a traversal sees does not depend on the indices before it. -/
theorem eachFrom_congr {kind : Kind} {t t' : Table} {limit start : Nat}
    (h : ∀ i, start ≤ i → t'.find? (indexKey i) = t.find? (indexKey i)) :
    t'.eachFrom kind limit start = t.eachFrom kind limit start := by
  induction limit generalizing start with
  | zero => rfl
  | succ limit ih =>
    have hhas : t'.has (indexKey start) = t.has (indexKey start) := by rw [has, has, h start le_rfl]
    have hget : t'.getAs kind (indexKey start) = t.getAs kind (indexKey start) := by
      rw [getAs, getAs, get, get, h start le_rfl]
    rw [eachFrom, eachFrom, hhas, hget, ih fun i hi => h i (Nat.le_of_succ_le hi)]

/-- A write for every index that a traversal of the table sees before anything is changed. -/
def eachWrites (kind : Kind) (f : Nat → kind.Carrier → kind.Carrier) (seen : List (Nat × kind.Carrier)) :
    List Write :=
  seen.map fun p => .put (indexKey p.1) (kind.wrap (f p.1 p.2))

theorem modifyAs_eq (kind : Kind) (t : Table) (k : String) (f : kind.Carrier → kind.Carrier) :
    t.modifyAs kind k f = (fun c => t.set k (kind.wrap (f c))) <$> t.getAs kind k := by
  rw [modifyAs]
  cases t.getAs kind k <;> rfl

theorem eachModifyFrom_eq (kind : Kind) (f : Nat → kind.Carrier → kind.Carrier) (limit start : Nat) (t : Table) :
    (eachModifyFrom kind f limit start t).2 = t.writeAll (eachWrites kind f (t.eachFrom kind limit start).seen) := by
  induction limit generalizing start t with
  | zero => rfl
  | succ limit ih =>
    rw [eachModifyFrom, eachFrom, modifyAs_eq]
    split
    · cases t.getAs kind (indexKey start) with
      | error fault => rfl
      | ok c =>
        have hlater (i : Nat) (hi : start + 1 ≤ i) :
            (t.set (indexKey start) (kind.wrap (f start c))).find? (indexKey i) = t.find? (indexKey i) := by
          have hne : indexKey i ≠ indexKey start := fun h => by
            have := indexKey_injective h
            omega
          rw [find?_set, if_neg hne]
        exact (ih (start + 1) _).trans (by rw [eachFrom_congr hlater]; rfl)
    · rfl

end Table

/-! ### Draining over a table -/

end ScriptHost.Host

namespace ScriptHost.Exchange

open Script (State TableRef)
open Host (Table)

/-- The pairs of a script table that the host can store, with the tables that tables drain to. -/
def storable (s : State) (sub : TableRef → Table) (ps : List (Script.Value × Script.Value)) :
    List (String × Host.Value) :=
  ps.filterMap fun p => (Host.keySpelling? p.1).bind fun key => (stored? s sub p.2).map fun v => (key, v)

theorem gather_eq_setAll (s : State) (sub : TableRef → Table) (ps : List (Script.Value × Script.Value))
    (t : Table) :
    gather s sub ps t = t.setAll (storable s sub ps) := by
  induction ps generalizing t with
  | nil => rfl
  | cons p ps ih =>
    obtain ⟨k, v⟩ := p
    rw [gather, storable, List.filterMap_cons]
    cases Host.keySpelling? k with
    | none => exact ih t
    | some key =>
      cases stored? s sub v with
      | none => exact ih t
      | some stored => exact ih (t.set key stored)

/-- What draining the table on top of the stack sets in a host table, whatever that holds already. -/
def drainedPairs (f : Frame) : List (String × Host.Value) :=
  match f.stack with
  | .table r :: _ => storable f.state (drained f.state f.state.tables.size) (f.state.table r).pairs
  | _ => []

theorem drainTop_done {t t' : Table} {c : Channel} {f f' : Frame} (h : drainTop t c f = .done t' f') :
    t' = t.setAll (drainedPairs f) := by
  obtain ⟨st, s⟩ := f
  cases st with
  | nil => cases h
  | cons v st =>
    cases v with
    | table r => exact ((drainTop_yields r t).eq_of_done h).trans (gather_eq_setAll s _ _ t)
    | _ => cases h

end ScriptHost.Exchange

namespace ScriptHost.Host

open Exchange (Channel Frame drainTop drainedPairs)
open Write (meaning Before Born)

/-! ### Edits -/

/-- What the host does with a table. Draining is over the script table on top of a stack. -/
inductive Edit where
  | set (k : String) (v : Value)
  | remove (k : String)
  | modify (kind : Kind) (k : String) (f : kind.Carrier → kind.Carrier)
  | tryModify (kind : Kind) (k : String) (f : kind.Carrier → kind.Carrier)
  | eachModify (kind : Kind) (f : Nat → kind.Carrier → kind.Carrier)
  | superimpose (source : Table)
  | become (source : Map)
  | drain (c : Channel) (f : Frame)

namespace Edit

/-- The table after an edit. A fault leaves it as far as the edit had come; a drain that stops leaves none. -/
def apply (t : Table) : Edit → Option Table
  | .set k v => some (t.set k v)
  | .remove k => some (t.remove k).2
  | .modify kind k f =>
    match t.modifyAs kind k f with
    | .ok t' => some t'
    | .error _ => some t
  | .tryModify kind k f =>
    match t.tryModifyAs kind k f with
    | .ok (_, t') => some t'
    | .error _ => some t
  | .eachModify kind f => some (t.eachModify kind f).2
  | .superimpose source => some (t.superimpose source)
  | .become source => some source.table
  | .drain c f =>
    match drainTop t c f with
    | .done t' _ => some t'
    | _ => none

/-- What a change of the value under a key writes, if there is one of the kind. -/
def modified (kind : Kind) (k : String) (f : kind.Carrier → kind.Carrier) (old : Option Value) : List Write :=
  match old.bind kind.unwrap? with
  | some c => [.put k (kind.wrap (f c))]
  | none => []

/-- The writes of an edit, from the table as it was. -/
def writes (t : Table) : Edit → List Write
  | .set k v => [.put k v]
  | .remove k => [.drop k]
  | .modify kind k f | .tryModify kind k f => modified kind k f (t.find? k)
  | .eachModify kind f => Table.eachWrites kind f (t.each kind).seen
  | .superimpose source => source.entries.map fun p => .put p.1 p.2
  | .become source => .clear :: source.entries.map fun p => .put p.1 p.2
  | .drain _ f => (drainedPairs f).map fun p => .put p.1 p.2

theorem modify_eq (t : Table) (kind : Kind) (k : String) (f : kind.Carrier → kind.Carrier) :
    apply t (.modify kind k f) = some (t.writeAll (modified kind k f (t.find? k))) := by
  rw [apply, Table.modifyAs_eq, Table.getAs, Table.get, modified]
  cases t.find? k with
  | none => rfl
  | some v =>
    change _ = some (t.writeAll (match kind.unwrap? v with | some c => _ | none => _))
    cases h : kind.unwrap? v with
    | none => simp only [h, bind, Except.bind]; rfl
    | some c => simp only [h, bind, Except.bind]; rfl

theorem tryModify_eq (t : Table) (kind : Kind) (k : String) (f : kind.Carrier → kind.Carrier) :
    apply t (.tryModify kind k f) = apply t (.modify kind k f) := by
  rw [apply, apply, Table.tryModifyAs, Table.has]
  cases hk : t.find? k with
  | none =>
    have hmodify : t.modifyAs kind k f = .error (.missingKey k) := by
      rw [Table.modifyAs, Table.getAs, Table.get, hk]
      rfl
    rw [hmodify]
    rfl
  | some v =>
    rw [Option.isSome_some, if_pos rfl]
    cases t.modifyAs kind k f <;> rfl

theorem apply_eq {t t' : Table} {e : Edit} (h : e.apply t = some t') : t' = t.writeAll (e.writes t) := by
  cases e with
  | set k v => exact (Option.some.inj h).symm
  | remove k => exact (Option.some.inj h).symm
  | modify kind k f => exact Option.some.inj (h.symm.trans (modify_eq t kind k f))
  | tryModify kind k f =>
    exact Option.some.inj (h.symm.trans ((tryModify_eq t kind k f).trans (modify_eq t kind k f)))
  | eachModify kind f =>
    exact (Option.some.inj h).symm.trans (Table.eachModifyFrom_eq kind f (t.size + 1) 1 t)
  | superimpose source => exact (Option.some.inj h).symm.trans (Table.setAll_eq t source.entries)
  | become source =>
    have hset : source.table = Table.empty.setAll source.entries := source.table_eq_ofPairs
    exact (Option.some.inj h).symm.trans (hset.trans (Table.setAll_eq _ _))
  | drain c f =>
    rw [apply] at h
    split at h
    next hdone =>
      obtain rfl := Option.some.inj h
      rw [Exchange.drainTop_done hdone]
      exact Table.setAll_eq t _
    · cases h

end Edit

/-! ### Runs -/

/-- The table comes from a construction and any edits after it, which made these writes. -/
inductive Edited : Table → List Write → Prop
  | construct (b : Construction) : Edited b.table b.writes
  | edit {t t' : Table} {ws : List Write} (h : Edited t ws) (e : Edit) (happly : e.apply t = some t') :
      Edited t' (ws ++ e.writes t)

theorem Edited.records {t : Table} {ws : List Write} (h : Edited t ws) : t.Records ws := by
  induction h with
  | construct b => exact b.records
  | edit _ e happly ih => exact Edit.apply_eq happly ▸ ih.writeAll _

namespace Table.Records

variable {t : Table} {ws : List Write}

theorem size_eq (h : t.Records ws) : t.size = {k | (meaning ws k).isSome}.ncard := by
  have hkeys : {k | (meaning ws k).isSome} = (t.keys.toFinset : Set String) := by
    ext k
    simp [← h.mem_keys_iff]
  rw [hkeys, Set.ncard_coe_finset, List.toFinset_card_of_nodup h.nodup, size, keys, List.length_map]

/-- Tables within the table have no key twice if those that were written have none. -/
theorem distinct (h : t.Records ws) (hws : ∀ k v, .put k v ∈ ws → v.Distinct) : t.Distinct := by
  refine (Value.distinctEntries_iff t.entries).2 ⟨h.nodup, fun e he => hws e.1 e.2 ?_⟩
  have hfind : t.find? e.1 = some e.2 := Value.find?_eq_some_of_mem h.nodup he
  exact Write.put_mem_of_meaning (h.find? e.1 ▸ hfind)

end Table.Records

/-- A host table is an insertion-ordered map over whole runs. Its keys are those of the finite map that the
writes give, none twice, in the order of the writes that made each present; a later write to a key keeps
its place, removing one leaves the order of the others, and one that is set again comes last. However a
table is constructed, its pairs could have been set one by one. -/
theorem edits_ordered {t : Table} {ws : List Write} (h : Edited t ws) :
    t.keys.Nodup ∧ ((∀ k v, .put k v ∈ ws → v.Distinct) → t.Distinct) ∧
    (∀ k, t.find? k = meaning ws k) ∧ (∀ k, t.has k = (meaning ws k).isSome) ∧
    (∀ k, t.get k = match meaning ws k with
      | some v => .ok v
      | none => .error (.missingKey k)) ∧
    t.size = {k | (meaning ws k).isSome}.ncard ∧
    (∀ k, k ∈ t.keys ↔ (meaning ws k).isSome) ∧ (∀ k ∈ t.keys, ∃! i, Born ws k i) ∧
    t.keys.Pairwise (Before ws) ∧
    (∀ k v, k ∈ t.keys → (t.set k v).keys = t.keys) ∧
    (∀ k, (t.remove k).1 = meaning ws k ∧ (t.remove k).2.keys = t.keys.filter (· != k)) ∧
    (∀ k v, ((t.remove k).2.set k v).keys = t.keys.filter (· != k) ++ [k]) ∧
    ∀ b : Construction, b.table = b.pairsOf.foldl (fun t p => t.set p.1 p.2) Table.empty := by
  have hr : t.Records ws := h.records
  refine ⟨hr.nodup, hr.distinct, hr.find?, fun k => ?_, fun k => ?_, hr.size_eq, hr.mem_keys_iff, fun k hk => ?_,
    hr.ordered, fun k v hk => Table.keys_set_of_mem hk v, fun k => ⟨hr.find? k, Table.keys_remove hr.nodup k⟩,
    fun k v => ?_, Construction.table_eq_foldl⟩
  · rw [Table.has, hr.find?]
  · cases hm : meaning ws k with
    | none => simp only [Table.get, hr.find?, hm]
    | some v => simp only [Table.get, hr.find?, hm]
  · obtain ⟨i, hi⟩ := Write.exists_born ((hr.mem_keys_iff k).1 hk)
    exact ⟨i, hi, fun j hj => hj.unique hi⟩
  · have hgone : k ∉ (t.remove k).2.keys := by rw [Table.keys_remove hr.nodup]; simp
    rw [Table.keys_set_of_not_mem hgone, Table.keys_remove hr.nodup]

/-- Removed and set again, the first of two keys comes last. -/
theorem edits_ordered_again :
    Edited ⟨[("b", .boolean false), ("a", .boolean false)]⟩
      [.put "a" (.boolean true), .put "b" (.boolean false), .drop "a", .put "a" (.boolean false)] ∧
    Before [.put "a" (.boolean true), .put "b" (.boolean false), .drop "a", .put "a" (.boolean false)] "b" "a" := by
  let b : Construction := .pairs [("a", .boolean true), ("b", .boolean false)]
  have hrun : Edited ⟨[("b", .boolean false), ("a", .boolean false)]⟩
      [.put "a" (.boolean true), .put "b" (.boolean false), .drop "a", .put "a" (.boolean false)] :=
    ((Edited.construct b).edit (.remove "a") rfl).edit (.set "a" (.boolean false)) rfl
  obtain ⟨-, -, -, -, -, -, -, -, hordered, -⟩ := edits_ordered hrun
  exact ⟨hrun, List.rel_of_pairwise_cons hordered (List.mem_singleton_self "a")⟩

end ScriptHost.Host
