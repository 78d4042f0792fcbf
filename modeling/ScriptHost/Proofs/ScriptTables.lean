import Mathlib.Data.List.Nodup
import Mathlib.Data.List.Perm.Basic
import ScriptHost.Script.Table

/-! Entries of a script table. Reading after a write, and iteration: while no key occurs twice, the
pairs that iteration yields are a rearrangement of the entries that hold a value. -/

namespace ScriptHost.Script.Table

/-! ### Reading and writing -/

theorem find_put (k k' v : Value) (es : List (Value × Value)) :
    find k' (put k v es) = if k' = k then v else find k' es := by
  induction es with
  | nil =>
    by_cases hv : v = .nil
    · simp [put, hv, find]
    · simp [put, hv, find]
  | cons e es ih =>
    obtain ⟨k₀, v₀⟩ := e
    by_cases h : k = k₀
    · subst h
      by_cases h' : k' = k <;> simp [put, find, h']
    · by_cases h' : k' = k₀
      · subst h'
        simp [put, find, h, Ne.symm h]
      · simp [put, find, h, h', ih]

theorem get_set (t : Table) (k k' v : Value) :
    (t.set k v).get k' = if k'.asKey = k.asKey then v else t.get k' := find_put ..

/-- Storing what is there. -/
theorem put_of_find {k v : Value} {es : List (Value × Value)} (h : find k es = v) (hv : v ≠ .nil) :
    put k v es = es := by
  induction es with
  | nil => exact absurd h.symm hv
  | cons e es ih =>
    rw [find] at h
    split at h
    next hk => rw [put, if_pos hk, ← h]
    next hk => rw [put, if_neg hk, ih h]

/-- A key that is not there goes behind the others. -/
theorem put_of_not_mem {k v : Value} {es : List (Value × Value)} (hv : v ≠ .nil)
    (hk : k ∉ es.map (·.1)) : put k v es = es ++ [(k, v)] := by
  induction es with
  | nil => simp [put, hv]
  | cons e es ih =>
    rw [List.map_cons, List.mem_cons, not_or] at hk
    simp [put, hk.1, ih hk.2]

/-! ### Distinct keys -/

/-- No key has two entries. -/
def Keyed (t : Table) : Prop := (t.entries.map (·.1)).Nodup

theorem find_eq_of_mem {k v : Value} {es : List (Value × Value)} (h : (es.map (·.1)).Nodup)
    (hm : (k, v) ∈ es) : find k es = v := by
  induction es with
  | nil => cases hm
  | cons e es ih =>
    rw [List.map_cons, List.nodup_cons] at h
    rcases List.mem_cons.1 hm with rfl | hm
    · simp [find]
    · have hne : k ≠ e.1 := by
        rintro rfl
        exact h.1 (List.mem_map.2 ⟨_, hm, rfl⟩)
      simp [find, hne, ih h.2 hm]

theorem mem_of_find {k v : Value} {es : List (Value × Value)} (h : find k es = v) (hv : v ≠ .nil) :
    (k, v) ∈ es := by
  induction es with
  | nil => exact absurd h.symm hv
  | cons e es ih =>
    by_cases hk : k = e.1
    · simp only [find, hk, ↓reduceIte] at h
      rw [List.mem_cons]
      exact .inl (Prod.ext hk h.symm)
    · simp only [find, hk, ↓reduceIte] at h
      exact List.mem_cons_of_mem _ (ih h)

/-! ### Iteration -/

theorem ofNat_inj {i j : Nat} (hi : i < 2 ^ 63) (hj : j < 2 ^ 63) (h : Value.ofNat i = Value.ofNat j) : i = j := by
  simp only [Value.ofNat, Value.ofInt, Value.number.injEq, Numeral.integer.injEq] at h
  have hh := congrArg Int64.toInt h
  rw [Int64.toInt_ofInt_of_le (by omega) (by omega), Int64.toInt_ofInt_of_le (by omega) (by omega)] at hh
  omega

theorem mem_run (t : Table) (limit start i : Nat) (v : Value) :
    (v, i) ∈ (t.run limit start).zipIdx start ↔
      start ≤ i ∧ i < start + (t.run limit start).length ∧ v = t.getNat i ∧ v ≠ .nil := by
  induction limit generalizing start with
  | zero => simp [run]; omega
  | succ limit ih =>
    cases hv : t.getNat start with
    | nil => simp [run, hv]; omega
    | _ =>
      rw [run, hv, List.zipIdx_cons, List.mem_cons, ih, List.length_cons, Prod.mk.injEq]
      constructor
      · rintro (⟨rfl, rfl⟩ | ⟨h1, h2, h3, h4⟩)
        · exact ⟨Nat.le_refl _, by omega, hv.symm, by simp⟩
        · exact ⟨by omega, by omega, h3, h4⟩
      · rintro ⟨h1, h2, h3, h4⟩
        rcases Nat.eq_or_lt_of_le h1 with rfl | h
        · exact .inl ⟨h3.trans hv, rfl⟩
        · exact .inr ⟨by omega, by omega, h3, h4⟩

theorem getNat_of_lt_run (t : Table) (limit start i : Nat) (h1 : start ≤ i)
    (h2 : i < start + (t.run limit start).length) : t.getNat i ≠ .nil := by
  have hi : i - start < (t.run limit start).length := by omega
  have hm : ((t.run limit start)[i - start], i) ∈ (t.run limit start).zipIdx start :=
    List.mem_zipIdx_iff_le_and_getElem?_sub.2 ⟨h1, List.getElem?_eq_getElem hi⟩
  obtain ⟨-, -, hv, hne⟩ := (mem_run ..).1 hm
  exact hv ▸ hne

/-- The sequence cannot run past an empty slot. -/
theorem sequence_length_lt (t : Table) {n : Nat} (hn : 1 ≤ n) (h : t.getNat n = .nil) : t.sequence.length < n := by
  by_contra hc
  exact getNat_of_lt_run t t.entries.length 1 n hn (by unfold sequence at hc; omega) h

theorem inSequence_iff {n : Nat} (hn : n < 2 ^ 63) (k : Value) :
    inSequence n k = true ↔ ∃ i, 1 ≤ i ∧ i ≤ n ∧ k = Value.ofNat i := by
  unfold inSequence
  split
  next j =>
    rw [decide_eq_true_eq]
    constructor
    · rintro ⟨h1, h2⟩
      refine ⟨j.toInt.toNat, by omega, by omega, ?_⟩
      rw [Value.ofNat, Value.ofInt, Int.toNat_of_nonneg (by omega), Int64.ofInt_toInt]
    · rintro ⟨i, h1, h2, h⟩
      simp only [Value.ofNat, Value.ofInt, Value.number.injEq, Numeral.integer.injEq] at h
      rw [h, Int64.toInt_ofInt_of_le (by omega) (by omega)]
      omega
  next hk =>
    constructor
    · intro h
      cases h
    · rintro ⟨i, -, -, rfl⟩
      exact absurd rfl (hk _)

/-- What iteration comes upon is an entry of the table. -/
theorem mem_of_mem_slots {t : Table} {e : Value × Value} (h : e ∈ t.slots) (hv : e.2 ≠ .nil) :
    e ∈ t.entries := by
  rcases List.mem_append.1 h with h | h
  · obtain ⟨⟨v, i⟩, hm, rfl⟩ := List.mem_map.1 h
    obtain ⟨-, -, hget, -⟩ := (mem_run ..).1 hm
    exact mem_of_find hget.symm hv
  · exact (List.mem_filter.1 h).1

theorem mem_of_next? {t : Table} {k : Value} {e : Value × Value} (h : t.next? k = some (some e)) :
    e ∈ t.entries := by
  have live {l : List (Value × Value)} (hl : ∀ e ∈ l, e ∈ t.slots) (h : l.find? (·.2 != .nil) = some e) :
      e ∈ t.entries := by
    obtain ⟨hv, -⟩ := List.find?_eq_some_iff_append.1 h
    exact mem_of_mem_slots (hl e (List.mem_of_find?_eq_some h)) (bne_iff_ne.1 hv)
  unfold next? at h
  extract_lets liveIn at h
  split at h
  · exact live (fun _ he => he) (Option.some.inj h)
  · split at h
    · cases h
    next rest hd =>
      refine live (fun e' he => ?_) (Option.some.inj h)
      exact List.dropWhile_subset _ (hd ▸ List.mem_cons_of_mem _ he)

variable {t : Table} (ht : t.Keyed) (hs : t.sequence.length < 2 ^ 63)
include ht hs

theorem mem_pairs (k v : Value) : (k, v) ∈ t.pairs ↔ v ≠ .nil ∧ (k, v) ∈ t.entries := by
  simp only [pairs, slots, List.mem_filter, List.mem_append, List.mem_map, Prod.exists, Prod.mk.injEq,
    bne_iff_ne, Bool.not_eq_true', Bool.eq_false_iff, ne_eq, inSequence_iff hs]
  constructor
  · rintro ⟨⟨w, i, hm, rfl, rfl⟩ | ⟨hm, -⟩, hv⟩
    · obtain ⟨-, -, h, -⟩ := (mem_run ..).1 hm
      exact ⟨hv, mem_of_find h.symm hv⟩
    · exact ⟨hv, hm⟩
  · rintro ⟨hv, hm⟩
    refine ⟨?_, hv⟩
    by_cases hk : ∃ i, 1 ≤ i ∧ i ≤ t.sequence.length ∧ k = Value.ofNat i
    · obtain ⟨i, h1, h2, rfl⟩ := hk
      have hget : v = t.getNat i := (find_eq_of_mem ht hm).symm
      exact .inl ⟨v, i, (mem_run ..).2 ⟨h1, by unfold sequence at h2; omega, hget, hv⟩, rfl, rfl⟩
    · exact .inr ⟨hm, hk⟩

theorem nodup_pairs_keys : (t.pairs.map (·.1)).Nodup := by
  refine List.Nodup.sublist (List.Sublist.map _ List.filter_sublist) ?_
  rw [slots, List.map_append, List.map_map, List.nodup_append]
  refine ⟨?_, List.Nodup.sublist (List.Sublist.map _ List.filter_sublist) ht, ?_⟩
  · rw [show ((fun e : Value × Value => e.1) ∘ fun (x : Value × Nat) => (Value.ofNat x.2, x.1)) =
      Value.ofNat ∘ Prod.snd from rfl, ← List.map_map, List.zipIdx_map_snd]
    refine List.Nodup.map_on ?_ List.nodup_range'
    intro i hi j hj h
    rw [List.mem_range'_1] at hi hj
    exact ofNat_inj (by omega) (by omega) h
  · intro k hk k' hk' h
    subst h
    simp only [List.mem_map, Function.comp_apply, Prod.exists, List.mem_filter, Bool.not_eq_true',
      Bool.eq_false_iff, ne_eq, inSequence_iff hs] at hk hk'
    obtain ⟨w, i, hm, rfl⟩ := hk
    obtain ⟨_, _, ⟨-, hn⟩, rfl⟩ := hk'
    obtain ⟨h1, h2, -, -⟩ := (mem_run ..).1 hm
    exact hn ⟨i, h1, by unfold sequence; omega, rfl⟩

/-- Iteration yields every entry that holds a value once. -/
theorem pairs_perm : t.pairs.Perm (t.entries.filter fun e => e.2 != .nil) := by
  have h1 : t.pairs.Nodup := (nodup_pairs_keys ht hs).of_map _
  have h2 : (t.entries.filter fun e => e.2 != .nil).Nodup := (List.Nodup.of_map _ ht).filter _
  rw [List.perm_ext_iff_of_nodup h1 h2]
  rintro ⟨k, v⟩
  rw [mem_pairs ht hs, List.mem_filter, bne_iff_ne, and_comm]

end ScriptHost.Script.Table
