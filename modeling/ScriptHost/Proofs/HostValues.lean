import Mathlib.Data.List.Nodup
import ScriptHost.Host.Table

/-! Host values up to the order of keys. In a host table no key comes twice, at any depth, and
sameness goes by the bits of numbers, so that a NaN is the same as itself. -/

namespace ScriptHost.Host

namespace Value

/-! ### Distinct keys -/

mutual

/-- No table of a value has a key twice. -/
def Distinct : Value → Prop
  | .table es => DistinctEntries es
  | .number _ | .text _ | .boolean _ | .function _ | .pointer _ => True

def DistinctEntries : List (String × Value) → Prop
  | [] => True
  | (k, v) :: rest => k ∉ rest.map (·.1) ∧ Distinct v ∧ DistinctEntries rest

end

theorem DistinctEntries.nodup {es : List (String × Value)} (h : DistinctEntries es) : (es.map (·.1)).Nodup := by
  induction es with
  | nil => exact List.nodup_nil
  | cons e es ih => exact List.nodup_cons.2 ⟨h.1, ih h.2.2⟩

theorem distinctEntries_iff (es : List (String × Value)) :
    DistinctEntries es ↔ (es.map (·.1)).Nodup ∧ ∀ e ∈ es, e.2.Distinct := by
  induction es with
  | nil => simp [DistinctEntries]
  | cons e es ih =>
    rw [DistinctEntries, ih, List.map_cons, List.nodup_cons, List.forall_mem_cons]
    tauto

/-! ### Looking up -/

theorem find?_eq_some_of_mem {k : String} {v : Value} {es : List (String × Value)}
    (h : (es.map (·.1)).Nodup) (hm : (k, v) ∈ es) : find? k es = some v := by
  induction es with
  | nil => cases hm
  | cons e es ih =>
    rw [List.map_cons, List.nodup_cons] at h
    rcases List.mem_cons.1 hm with rfl | hm
    · simp [find?]
    · have hne : k ≠ e.1 := by
        rintro rfl
        exact h.1 (List.mem_map.2 ⟨_, hm, rfl⟩)
      simp [find?, hne, ih h.2 hm]

theorem find?_eq_none_iff (k : String) (es : List (String × Value)) :
    find? k es = none ↔ k ∉ es.map (·.1) := by
  induction es with
  | nil => simp [find?]
  | cons e es ih =>
    by_cases h : k = e.1
    · simp [find?, h]
    · simp [find?, h, ih]

/-! ### Sameness -/

mutual

/-- Equal numbers have equal bits, and tables agree as maps. -/
def Same : Value → Value → Prop
  | .number x, .number y => x = y
  | .text s, .text t => s = t
  | .boolean a, .boolean b => a = b
  | .function f, .function g => f = g
  | .table es, .table fs => (∀ k, k ∈ es.map (·.1) ↔ k ∈ fs.map (·.1)) ∧ SameEntries es fs
  | .pointer p, .pointer q => p = q
  | _, _ => False

/-- Every entry of the first list has the same value under its key in the second. -/
def SameEntries : List (String × Value) → List (String × Value) → Prop
  | [], _ => True
  | (k, v) :: rest, fs =>
    (match find? k fs with
      | some w => Same v w
      | none => False) ∧ SameEntries rest fs

end

theorem Same.kind_eq {v w : Value} (h : v.Same w) : w.kind = v.kind := by
  cases v <;> cases w <;> first | rfl | exact h.elim

theorem sameEntries_iff (es fs : List (String × Value)) :
    SameEntries es fs ↔ ∀ e ∈ es, ∃ w, find? e.1 fs = some w ∧ Same e.2 w := by
  induction es with
  | nil => simp [SameEntries]
  | cons e es ih =>
    rw [SameEntries, ih, List.forall_mem_cons]
    cases find? e.1 fs <;> simp

/-- Entries with one key and the same value, the second without double keys. -/
def Matches (e f : String × Value) : Prop := e.1 = f.1 ∧ Same e.2 f.2 ∧ f.2.Distinct

theorem map_fst_of_matches {es fs : List (String × Value)} (h : List.Forall₂ Matches es fs) :
    es.map (·.1) = fs.map (·.1) := by
  induction h with
  | nil => rfl
  | cons hef _ ih => rw [List.map_cons, List.map_cons, ih, hef.1]

theorem exists_match {es fs : List (String × Value)} (h : List.Forall₂ Matches es fs) {e : String × Value}
    (he : e ∈ es) : ∃ f ∈ fs, Matches e f := by
  induction h with
  | nil => cases he
  | cons hef _ ih =>
    rcases List.mem_cons.1 he with rfl | he
    · exact ⟨_, List.mem_cons_self, hef⟩
    · obtain ⟨f, hf, hm⟩ := ih he
      exact ⟨f, List.mem_cons_of_mem _ hf, hm⟩

/-- Entries that match one by one make the same table, whatever the order of the first ones. -/
theorem same_table_of_matches {es es' fs : List (String × Value)} (hp : es'.Perm es)
    (hn : (es.map (·.1)).Nodup) (h : List.Forall₂ Matches es' fs) : Same (.table es) (.table fs) := by
  have hkeys : es'.map (·.1) = fs.map (·.1) := map_fst_of_matches h
  have hperm : (fs.map (·.1)).Perm (es.map (·.1)) := hkeys ▸ hp.map _
  refine ⟨fun k => hperm.mem_iff.symm, (sameEntries_iff es fs).2 fun e he => ?_⟩
  obtain ⟨f, hf, hk, hs, -⟩ := exists_match h (hp.mem_iff.2 he)
  exact ⟨f.2, find?_eq_some_of_mem (hperm.nodup_iff.2 hn) (hk ▸ hf), hs⟩

theorem distinct_of_matches {es fs : List (String × Value)} (hn : (es.map (·.1)).Nodup)
    (h : List.Forall₂ Matches es fs) : DistinctEntries fs := by
  refine (distinctEntries_iff fs).2 ⟨map_fst_of_matches h ▸ hn, ?_⟩
  clear hn
  induction h with
  | nil => simp
  | cons hef _ ih => exact List.forall_mem_cons.2 ⟨hef.2.2, ih⟩

/-! ### Setting entries -/

theorem mem_keys_insertEntry (k : String) (v : Value) (es : List (String × Value)) (k' : String) :
    k' ∈ (Table.insertEntry k v es).map (·.1) ↔ k' = k ∨ k' ∈ es.map (·.1) := by
  induction es with
  | nil => simp [Table.insertEntry]
  | cons e es ih =>
    by_cases h : k = e.1
    · simp [Table.insertEntry, h]
    · simp only [Table.insertEntry, if_neg h, List.map_cons, List.mem_cons, ih]
      tauto

theorem DistinctEntries.insertEntry {es : List (String × Value)} (h : DistinctEntries es) (k : String) {v : Value}
    (hv : v.Distinct) : DistinctEntries (Table.insertEntry k v es) := by
  induction es with
  | nil => exact ⟨by simp, hv, trivial⟩
  | cons e es ih =>
    obtain ⟨he, hev, hes⟩ := h
    by_cases hk : k = e.1
    · simp only [Table.insertEntry, if_pos hk]
      exact ⟨he, hv, hes⟩
    · simp only [Table.insertEntry, if_neg hk]
      refine ⟨?_, hev, ih hes⟩
      rw [mem_keys_insertEntry, not_or]
      exact ⟨Ne.symm hk, he⟩

end Value

namespace Table

/-- No key comes twice in the table or in one within it. -/
def Distinct (t : Table) : Prop := Value.DistinctEntries t.entries

/-- The same keys, and the same value under each. -/
def Same (t t' : Table) : Prop := (Value.ofTable t).Same (Value.ofTable t')

/-- A new key goes behind the others. -/
theorem set_of_not_mem {t : Table} {k : String} (h : k ∉ t.keys) (v : Value) :
    t.set k v = ⟨t.entries ++ [(k, v)]⟩ := by
  obtain ⟨es⟩ := t
  simp only [set, mk.injEq]
  change k ∉ es.map (·.1) at h
  induction es with
  | nil => rfl
  | cons e es ih =>
    rw [List.map_cons, List.mem_cons, not_or] at h
    simp [insertEntry, h.1, ih h.2]

end Table

end ScriptHost.Host
