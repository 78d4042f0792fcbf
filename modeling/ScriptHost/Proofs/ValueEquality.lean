import Mathlib.Data.List.Perm.Subperm
import ScriptHost.Proofs.HostValues

/-! Equality of host values. The comparison of two tables looks at their sizes and then for every entry of
the left one in the right one. Since no key comes twice, this is the same from both sides: the tables have
the same keys and equal values under each. Numbers compare by IEEE rules, so equality falls short of an
equivalence by the NaNs alone. -/

namespace ScriptHost.Number.Double

/-- No NaN equals anything; other numbers are equal if they have the same bits or are both zero. -/
theorem equal_iff (x y : Double) :
    x.equal y = true ↔ x.isNaN = false ∧ (x = y ∨ x.isZero = true ∧ y.isZero = true) := by
  have hx : x.bits.toNat < 2 ^ 64 := x.bits.toNat_lt
  have hy : y.bits.toNat < 2 ^ 64 := y.bits.toNat_lt
  have heq : x = y ↔ x.bits.toNat = y.bits.toNat := by
    rw [UInt64.toNat_inj]
    exact ⟨congrArg bits, fun h => by cases x; cases y; exact congrArg mk h⟩
  have hrank : x.rank = y.rank ↔ x = y ∨ x.magnitude = 0 ∧ y.magnitude = 0 := by
    rw [heq]
    simp only [rank, negative, magnitude, decide_eq_true_eq]
    split <;> split <;> omega
  have hnan : x.rank = y.rank → x.isNaN = y.isNaN := fun h => by
    rcases hrank.1 h with rfl | ⟨h0, h0'⟩
    · rfl
    · rw [isNaN, isNaN, h0, h0']
  simp only [equal, isZero, Bool.and_eq_true, Bool.not_eq_true', beq_iff_eq, hrank]
  constructor
  · rintro ⟨⟨hx, -⟩, h⟩
    exact ⟨hx, h⟩
  · rintro ⟨hx, h⟩
    exact ⟨⟨hx, (hnan (hrank.2 h)).symm.trans hx⟩, h⟩

theorem equal_comm (x y : Double) : x.equal y = y.equal x := by
  rw [equal, equal, Bool.and_comm (!x.isNaN), BEq.comm]

theorem equal_trans {x y z : Double} (h : x.equal y = true) (h' : y.equal z = true) : x.equal z = true := by
  simp only [equal, Bool.and_eq_true, beq_iff_eq] at h h' ⊢
  exact ⟨⟨h.1.1, h'.1.2⟩, h.2.trans h'.2⟩

theorem equal_self (x : Double) : x.equal x = true ↔ x.isNaN = false := by
  simp [equal]

end ScriptHost.Number.Double

namespace ScriptHost.Host

open Number

namespace Value

/-- A table comes after the values in it. -/
@[elab_as_elim]
theorem induct {motive : Value → Prop} (plain : ∀ v, (∀ es, v ≠ .table es) → motive v)
    (table : ∀ es, (∀ e ∈ es, motive e.2) → motive (.table es)) : ∀ v, motive v
  | .table es => table es fun e he =>
    have hlt : sizeOf e.2 < sizeOf (Value.table es) := by
      have hmem := List.sizeOf_lt_of_mem he
      have hsnd : sizeOf e.2 < sizeOf e := by
        cases e
        simp only [Prod.mk.sizeOf_spec]
        omega
      simp only [Value.table.sizeOf_spec]
      omega
    induct plain table e.2
  | .number _ | .text _ | .boolean _ | .function _ | .pointer _ => plain _ nofun
termination_by v => sizeOf v
decreasing_by exact hlt

theorem mem_of_find? {k : String} {v : Value} {es : List (String × Value)} (h : find? k es = some v) :
    (k, v) ∈ es := by
  induction es with
  | nil => cases h
  | cons e es ih =>
    rw [find?] at h
    split at h
    next hk =>
      obtain rfl := Option.some.inj h
      exact hk ▸ List.mem_cons_self
    next => exact List.mem_cons_of_mem _ (ih h)

/-! ### Comparing tables -/

theorem within_iff (es fs : List (String × Value)) :
    within es fs = true ↔ ∀ e ∈ es, ∃ w, find? e.1 fs = some w ∧ e.2.equal w = true := by
  induction es with
  | nil => simp [within]
  | cons e es ih =>
    rw [within, Bool.and_eq_true, ih, List.forall_mem_cons]
    cases find? e.1 fs <;> simp

/-- Tables are equal if they have one size, and every entry of the left one is in the right one. -/
theorem equal_table (es fs : List (String × Value)) : (table es).equal (.table fs) = true ↔
    es.length = fs.length ∧ ∀ e ∈ es, ∃ w, find? e.1 fs = some w ∧ e.2.equal w = true := by
  rw [equal, Bool.and_eq_true, beq_iff_eq, within_iff]

/-- Without double keys, one inclusion and the sizes make the same keys. -/
theorem equal_table_iff {es fs : List (String × Value)} (hes : (es.map (·.1)).Nodup) (hfs : (fs.map (·.1)).Nodup) :
    (table es).equal (.table fs) = true ↔ (∀ k, k ∈ es.map (·.1) ↔ k ∈ fs.map (·.1)) ∧
      ∀ k v w, find? k es = some v → find? k fs = some w → v.equal w = true := by
  rw [equal_table]
  constructor
  · rintro ⟨hsize, hin⟩
    have hsubset : es.map (·.1) ⊆ fs.map (·.1) := by
      intro k hk
      obtain ⟨e, he, rfl⟩ := List.mem_map.1 hk
      obtain ⟨w, hw, -⟩ := hin e he
      exact List.mem_map.2 ⟨_, mem_of_find? hw, rfl⟩
    have hperm : (es.map (·.1)).Perm (fs.map (·.1)) :=
      (hes.subperm hsubset).perm_of_length_le (by simp [hsize])
    refine ⟨fun k => hperm.mem_iff, fun k v w hv hw => ?_⟩
    obtain ⟨w', hw', heq⟩ := hin (k, v) (mem_of_find? hv)
    obtain rfl : w' = w := Option.some.inj (hw'.symm.trans hw)
    exact heq
  · rintro ⟨hkeys, hvalues⟩
    have hperm : (es.map (·.1)).Perm (fs.map (·.1)) := (List.perm_ext_iff_of_nodup hes hfs).2 hkeys
    refine ⟨by simpa using hperm.length_eq, fun e he => ?_⟩
    have hmem : e.1 ∈ fs.map (·.1) := (hkeys e.1).1 (List.mem_map_of_mem he)
    obtain ⟨w, hw⟩ := Option.ne_none_iff_exists'.1 fun hnone => (find?_eq_none_iff e.1 fs).1 hnone hmem
    exact ⟨w, hw, hvalues e.1 e.2 w (find?_eq_some_of_mem hes he) hw⟩

/-- What is no table, and no number, equals itself alone. -/
theorem equal_plain_iff {v : Value} (hnumber : v.kind ≠ .number) (htable : v.kind ≠ .table) (w : Value) :
    v.equal w = true ↔ v = w := by
  cases v with
  | number => exact absurd rfl hnumber
  | table => exact absurd rfl htable
  | _ => cases w <;> simp [equal]

/-! ### Laws -/

theorem DistinctEntries.of_mem {es : List (String × Value)} (h : DistinctEntries es) {k : String} {v : Value}
    (hv : (k, v) ∈ es) : v.Distinct :=
  ((distinctEntries_iff es).1 h).2 _ hv

theorem equal_comm {v w : Value} (hv : v.Distinct) (hw : w.Distinct) : v.equal w = w.equal v := by
  induction v using induct generalizing w with
  | plain v hplain =>
    cases v with
    | table es => exact absurd rfl (hplain es)
    | number x => cases w <;> simp [equal, Double.equal_comm]
    | _ => cases w <;> simp [equal, BEq.comm]
  | table es ih =>
    cases w with
    | table fs =>
      have hes : DistinctEntries es := hv
      have hfs : DistinctEntries fs := hw
      rw [Bool.eq_iff_iff, equal_table_iff hes.nodup hfs.nodup, equal_table_iff hfs.nodup hes.nodup]
      have hvalues {k : String} {v w : Value} (hv : find? k es = some v) (hw : find? k fs = some w) :
          v.equal w = w.equal v :=
        ih (k, v) (mem_of_find? hv) (hes.of_mem (mem_of_find? hv)) (hfs.of_mem (mem_of_find? hw))
      constructor
      · rintro ⟨hkeys, heq⟩
        exact ⟨fun k => (hkeys k).symm, fun k w v hw hv => hvalues hv hw ▸ heq k v w hv hw⟩
      · rintro ⟨hkeys, heq⟩
        exact ⟨fun k => (hkeys k).symm, fun k v w hv hw => (hvalues hv hw).symm ▸ heq k w v hw hv⟩
    | _ => rfl

theorem equal_trans {v w x : Value} (h : v.equal w = true) (h' : w.equal x = true) : v.equal x = true := by
  induction v using induct generalizing w x with
  | plain v hplain =>
    cases v with
    | table es => exact absurd rfl (hplain es)
    | number a =>
      cases w with
      | number b =>
        cases x with
        | number c => exact Double.equal_trans h h'
        | _ => cases h'
      | _ => cases h
    | _ =>
      rw [equal_plain_iff (by simp [kind]) (by simp [kind])] at h
      exact h ▸ h'
  | table es ih =>
    cases w with
    | table fs =>
      cases x with
      | table gs =>
        rw [equal_table] at h h' ⊢
        refine ⟨h.1.trans h'.1, fun e he => ?_⟩
        obtain ⟨w, hw, heq⟩ := h.2 e he
        obtain ⟨x, hx, heq'⟩ := h'.2 _ (mem_of_find? hw)
        exact ⟨x, hx, ih e he heq heq'⟩
      | _ => cases h'
    | _ => cases h

/-- The number is somewhere in the value, at any depth. -/
inductive Occurs (x : Double) : Value → Prop
  | here : Occurs x (.number x)
  | within {k : String} {v : Value} {es : List (String × Value)} (hmem : (k, v) ∈ es) (h : Occurs x v) :
    Occurs x (.table es)

theorem equal_self_iff {v : Value} (hv : v.Distinct) :
    v.equal v = true ↔ ∀ x, Occurs x v → x.isNaN = false := by
  induction v using induct with
  | plain v hplain =>
    cases v with
    | table es => exact absurd rfl (hplain es)
    | number x =>
      rw [equal, Double.equal_self]
      constructor
      · rintro hx _ ⟨⟩
        exact hx
      · exact fun h => h x .here
    | _ => exact ⟨fun _ _ => nofun, fun _ => by simp [equal]⟩
  | table es ih =>
    have hes : DistinctEntries es := hv
    rw [equal_table]
    constructor
    · rintro ⟨-, hself⟩ x (_ | ⟨hmem, hx⟩)
      obtain ⟨w, hw, heq⟩ := hself _ hmem
      obtain rfl := Option.some.inj ((find?_eq_some_of_mem hes.nodup hmem).symm.trans hw)
      exact (ih _ hmem (hes.of_mem hmem)).1 heq x hx
    · refine fun h => ⟨rfl, fun e he => ⟨e.2, find?_eq_some_of_mem hes.nodup he, ?_⟩⟩
      exact (ih e he (hes.of_mem he)).2 fun x hx => h x (.within he hx)

/-! ### The order of keys -/

/-- The second value is the first with the entries of any tables in it, at any depth, in another order. -/
inductive Rearranged : Value → Value → Prop
  | refl (v : Value) : Rearranged v v
  | perm {es fs : List (String × Value)} (h : es.Perm fs) : Rearranged (.table es) (.table fs)
  | inner {k : String} {v w : Value} (es fs : List (String × Value)) (h : Rearranged v w) :
    Rearranged (.table (es ++ (k, v) :: fs)) (.table (es ++ (k, w) :: fs))
  | trans {v w x : Value} (h : Rearranged v w) (h' : Rearranged w x) : Rearranged v x

theorem Rearranged.distinct {v w : Value} (h : Rearranged v w) (hv : v.Distinct) : w.Distinct := by
  induction h with
  | refl v => exact hv
  | perm h =>
    obtain ⟨hkeys, hvalues⟩ := (distinctEntries_iff _).1 hv
    exact (distinctEntries_iff _).2 ⟨(h.map _).nodup_iff.1 hkeys, fun e he => hvalues e (h.mem_iff.2 he)⟩
  | @inner k v w es fs h ih =>
    obtain ⟨hkeys, hvalues⟩ := (distinctEntries_iff _).1 hv
    simp only [List.forall_mem_append, List.forall_mem_cons] at hvalues
    refine (distinctEntries_iff _).2 ⟨by simpa using hkeys, ?_⟩
    simp only [List.forall_mem_append, List.forall_mem_cons]
    exact ⟨hvalues.1, ih hvalues.2.1, hvalues.2.2⟩
  | trans _ _ ih ih' => exact ih' (ih hv)

/-- The left side of a comparison is gone over entry by entry, in whatever order. -/
theorem Rearranged.equal_left {v w : Value} (h : Rearranged v w) (x : Value) : w.equal x = v.equal x := by
  induction h generalizing x with
  | refl v => rfl
  | perm h =>
    cases x with
    | table gs =>
      rw [Bool.eq_iff_iff, equal_table, equal_table, h.length_eq]
      simp only [h.mem_iff]
    | _ => rfl
  | inner es fs h ih =>
    cases x with
    | table gs =>
      rw [Bool.eq_iff_iff, equal_table, equal_table]
      simp only [List.length_append, List.length_cons, List.forall_mem_append, List.forall_mem_cons, ih]
    | _ => rfl
  | trans _ _ ih ih' => exact (ih' x).trans (ih x)

end Value

open Value (Occurs Rearranged)

/-- Equality of host values is symmetric and transitive, disregards the order of keys at every depth, and holds
of a value and itself unless a NaN is somewhere in it. Two tables are equal exactly if they have the same keys
and equal values under each; two numbers, if they are no NaN and have the same bits or are both zero; and
other values, if they are the same. -/
theorem equality_laws :
    (∀ v w : Value, v.Distinct → w.Distinct → v.equal w = w.equal v) ∧
    (∀ v w x : Value, v.equal w = true → w.equal x = true → v.equal x = true) ∧
    (∀ v v' w : Value, v.Distinct → w.Distinct → Rearranged v v' →
      v'.equal w = v.equal w ∧ w.equal v' = w.equal v) ∧
    (∀ v : Value, v.Distinct → (v.equal v = true ↔ ∀ x, Occurs x v → x.isNaN = false)) ∧
    (∀ t u : Table, t.Distinct → u.Distinct → ((Value.ofTable t).equal (.ofTable u) = true ↔
      (∀ k, k ∈ t.keys ↔ k ∈ u.keys) ∧
        ∀ k v w, t.find? k = some v → u.find? k = some w → v.equal w = true)) ∧
    (∀ x y : Double, (Value.number x).equal (.number y) = true ↔
      x.isNaN = false ∧ (x = y ∨ x.isZero = true ∧ y.isZero = true)) ∧
    ∀ v w : Value, v.kind ≠ .number → v.kind ≠ .table → (v.equal w = true ↔ v = w) := by
  refine ⟨fun v w => Value.equal_comm, fun v w x => Value.equal_trans, fun v v' w hv hw h => ⟨h.equal_left w, ?_⟩,
    fun v => Value.equal_self_iff, fun t u ht hu => ?_, fun x y => ?_, fun v w hn ht => Value.equal_plain_iff hn ht w⟩
  · rw [Value.equal_comm hw (h.distinct hv), h.equal_left w, Value.equal_comm hv hw]
  · exact Value.equal_table_iff ht.nodup hu.nodup
  · rw [Value.equal, Double.equal_iff]

/-- A table with a zero, and another table in it. -/
def zeroed (zero : Double) : Value :=
  .table [("zero", .number zero), ("inner", .table [("a", .boolean true), ("b", .text "s")])]

/-- The same with the keys of both tables the other way round. -/
def zeroedBackwards (zero : Double) : Value :=
  .table [("inner", .table [("b", .text "s"), ("a", .boolean true)]), ("zero", .number zero)]

/-- The two zeros are equal in tables with their keys the other way round; a NaN in a table is not. -/
theorem equality_laws_zeros :
    (∀ x, (zeroed x).Distinct) ∧ (∀ x, Rearranged (zeroed x) (zeroedBackwards x)) ∧
      (zeroedBackwards .zero).equal (zeroed Double.zero.neg) = true ∧
      (zeroed Double.zero.neg).equal (zeroedBackwards .zero) = true ∧
      (zeroed .zero).equal (zeroed .zero) = true ∧ ¬(zeroed .invalid).equal (zeroed .invalid) = true := by
  have hdistinct (x : Double) : (zeroed x).Distinct := by
    simp [zeroed, Value.Distinct, Value.DistinctEntries]
  have hrearranged (x : Double) : Rearranged (zeroed x) (zeroedBackwards x) :=
    .trans (.inner [("zero", .number x)] [] (.perm (.swap ..))) (.perm (.swap ..))
  have hzeros : (zeroed .zero).equal (zeroed Double.zero.neg) = true := by decide +kernel
  obtain ⟨hcomm, htrans, horder, hself, -⟩ := equality_laws
  obtain ⟨hleft, hright⟩ :=
    horder (zeroed .zero) (zeroedBackwards .zero) (zeroed Double.zero.neg) (hdistinct _) (hdistinct _) (hrearranged _)
  have hzeros' : (zeroed Double.zero.neg).equal (zeroed .zero) = true := hcomm _ _ (hdistinct _) (hdistinct _) ▸ hzeros
  refine ⟨hdistinct, hrearranged, hleft.trans hzeros, hright.trans hzeros', htrans _ _ _ hzeros hzeros', fun h => ?_⟩
  have hnan := (hself _ (hdistinct _)).1 h .invalid (.within List.mem_cons_self .here)
  exact absurd hnan (by decide)

end ScriptHost.Host
