import Mathlib.Order.Lattice.Nat
import ScriptHost.Proofs.Merging
import ScriptHost.Proofs.Sequences

/-! Going over the sequence of a host table, in a loop that ends at the first missing index alone and counts in 32
bits. Indices have keys of their own, so the loop ends before the counter does. A callback may change the
values on the way: the keys that decide on the next round stay. -/

namespace ScriptHost.Host

namespace Table

variable {S σ : Type} {kind : Kind} {t : Table} {n : Nat}

/-! ### The loop -/

/-- Where a loop stands: before an index, at its end, perhaps by a fault, or past the last index it can count. -/
inductive Stage (S : Type) where
  | before (index : UInt32) (s : S)
  | over (fault : Option Fault) (s : S)
  | overflowed (s : S)

/-- One round of a loop over the table that `table` finds in what the rounds change. -/
def round (table : S → Table) (visit : Nat → S → Except Fault S) : Stage S → Stage S
  | .before index s =>
    if (table s).has (indexKey index.toNat) then
      match visit index.toNat s with
      | .ok s => if index.toNat + 1 < UInt32.size then .before (index + 1) s else .overflowed s
      | .error fault => .over (some fault) s
    else .over none s
  | stage => stage

/-- Shows a callback the value of an index. -/
def eachRound (t : Table) (f : Nat → kind.Carrier → StateM σ Unit) : Stage σ → Stage σ :=
  round (fun _ => t) fun i x => do
    let c ← t.getAs kind (indexKey i)
    .ok ((f i c).run x).2

/-- Has a callback change the value of an index. -/
def eachModifyRound (f : Nat → kind.Carrier → StateM σ kind.Carrier) : Stage (Table × σ) → Stage (Table × σ) :=
  round (·.1) fun i s => do
    let c ← s.1.getAs kind (indexKey i)
    let (c, x) := (f i c).run s.2
    .ok (s.1.set (indexKey i) (kind.wrap c), x)

section Rounds

variable {table : S → Table} {visit : Nat → S → Except Fault S} {index : UInt32} {s s' : S}

theorem round_missing (h : ¬(table s).has (indexKey index.toNat)) :
    round table visit (.before index s) = .over none s := by
  rw [round, if_neg h]

theorem round_fault {fault : Fault} (h : (table s).has (indexKey index.toNat))
    (hvisit : visit index.toNat s = .error fault) : round table visit (.before index s) = .over (some fault) s := by
  rw [round, if_pos h, hvisit]

theorem round_visit (h : (table s).has (indexKey index.toNat)) (hvisit : visit index.toNat s = .ok s')
    (hindex : index.toNat + 1 < UInt32.size) :
    round table visit (.before index s) = .before (index + 1) s' := by
  rw [round, if_pos h, hvisit]
  exact if_pos hindex

end Rounds

/-! ### Where the sequence ends -/

/-- The numbers up to which all indices are there. -/
def lengths (t : Table) : Set Nat := {m | ∀ i, 1 ≤ i → i ≤ m → t.has (indexKey i)}

/-- Indices have keys of their own, each with an entry. -/
theorem le_size_of_mem_lengths (h : n ∈ t.lengths) : n ≤ t.size := by
  have hnodup : ((List.range' 1 n).map indexKey).Nodup := List.Nodup.map indexKey_injective List.nodup_range'
  have hsubset : (List.range' 1 n).map indexKey ⊆ t.keys := by
    intro k hk
    obtain ⟨i, hi, rfl⟩ := List.mem_map.1 hk
    rw [List.mem_range'_1] at hi
    exact (mem_keys_iff t _).2 (h i (by omega) (by omega))
  simpa [keys, size] using (hnodup.subperm hsubset).length_le

theorem exists_isGreatest_lengths (t : Table) : ∃ n, IsGreatest t.lengths n := by
  have hzero : 0 ∈ t.lengths := fun i hi hi0 => by omega
  have hbound : BddAbove t.lengths := ⟨t.size, fun m hm => le_size_of_mem_lengths hm⟩
  exact ⟨_, Nat.sSup_mem ⟨0, hzero⟩ hbound, fun m hm => le_csSup hbound hm⟩

/-- The index after the last is missing. -/
theorem not_has_of_isGreatest (hn : IsGreatest t.lengths n) : ¬t.has (indexKey (n + 1)) := by
  intro hc
  have hmem : n + 1 ∈ t.lengths := by
    intro i hi hin
    rcases Nat.lt_or_eq_of_le hin with hlt | rfl
    · exact hn.1 i hi (by omega)
    · exact hc
  have hle : n + 1 ≤ n := hn.2 hmem
  omega

/-! ### What a traversal comes to -/

/-- What is at an index: nothing, a value of the kind, or one of another kind. -/
inductive Found (t : Table) (kind : Kind) (n i : Nat) : Prop
  | missing (hi : i = n + 1) (h : ¬t.has (indexKey i))
  | value (hi : i ≤ n) (h : t.has (indexKey i)) (c : kind.Carrier) (hfind : t.find? (indexKey i) = some (kind.wrap c))
    (hget : t.getAs kind (indexKey i) = .ok c)
  | other (hi : i ≤ n) (h : t.has (indexKey i)) (v : Value) (hfind : t.find? (indexKey i) = some v)
    (hkind : v.kind ≠ kind) (hget : t.getAs kind (indexKey i) = .error (.otherKind (indexKey i) v.kind kind))

theorem found (hn : IsGreatest t.lengths n) (kind : Kind) {i : Nat} (hi : 1 ≤ i) (hin : i ≤ n + 1) :
    t.Found kind n i := by
  rcases Nat.lt_or_eq_of_le hin with hlt | rfl
  · have hhas : t.has (indexKey i) := hn.1 i hi (by omega)
    obtain ⟨v, hv⟩ := Option.isSome_iff_exists.1 hhas
    have hfound : t.get (indexKey i) = .ok v := by rw [get, hv]
    cases hc : kind.unwrap? v with
    | none =>
      refine .other (by omega) hhas v hv (Exchange.kind_ne_of_unwrap? hc) ?_
      simp only [getAs, hfound, bind, Except.bind, hc]
    | some c =>
      refine .value (by omega) hhas c (Exchange.eq_wrap_of_unwrap? hc ▸ hv) ?_
      simp only [getAs, hfound, bind, Except.bind, hc]
  · exact .missing rfl (not_has_of_isGreatest hn)

/-- The calls of a traversal that begins at `start`, of a sequence of `n`: the indices in order with their values, all
that are left, or those before the first value of another kind, which is the fault. -/
structure Visits (t : Table) (kind : Kind) (n start : Nat) (calls : List (Nat × kind.Carrier)) (fault : Option Fault) :
    Prop where
  indices : calls.map (·.1) = List.range' start calls.length
  stored : ∀ p ∈ calls, t.find? (indexKey p.1) = some (kind.wrap p.2)
  ends : (start + calls.length = n + 1 ∧ fault = none) ∨
    (start + calls.length ≤ n ∧ ∃ v, t.find? (indexKey (start + calls.length)) = some v ∧ v.kind ≠ kind ∧
      fault = some (.otherKind (indexKey (start + calls.length)) v.kind kind))

theorem eachFrom_missing {limit i : Nat} (h : ¬t.has (indexKey i)) : t.eachFrom kind limit i = ⟨[], none⟩ := by
  cases limit with
  | zero => rfl
  | succ limit => rw [eachFrom, if_neg h]

theorem eachFrom_value {i : Nat} {c : kind.Carrier} (h : t.has (indexKey i))
    (hget : t.getAs kind (indexKey i) = .ok c) (limit : Nat) :
    t.eachFrom kind (limit + 1) i =
      ⟨(i, c) :: (t.eachFrom kind limit (i + 1)).seen, (t.eachFrom kind limit (i + 1)).fault⟩ := by
  rw [eachFrom, if_pos h, hget]

theorem eachFrom_other {i : Nat} {fault : Fault} (h : t.has (indexKey i))
    (hget : t.getAs kind (indexKey i) = .error fault) (limit : Nat) :
    t.eachFrom kind (limit + 1) i = ⟨[], some fault⟩ := by
  rw [eachFrom, if_pos h, hget]

theorem eachFrom_visits (hn : IsGreatest t.lengths n) (kind : Kind) {limit i : Nat} (hi : 1 ≤ i) (hin : i ≤ n + 1)
    (hlimit : n + 1 < i + limit) :
    t.Visits kind n i (t.eachFrom kind limit i).seen (t.eachFrom kind limit i).fault := by
  induction limit generalizing i with
  | zero => omega
  | succ limit ih =>
    cases found hn kind hi hin with
    | missing hi' h =>
      rw [eachFrom_missing h]
      exact ⟨rfl, nofun, .inl ⟨hi', rfl⟩⟩
    | value hi' h c hfind hget =>
      obtain ⟨hindices, hstored, hends⟩ := ih (i := i + 1) (by omega) (by omega) (by omega)
      rw [eachFrom_value h hget]
      refine ⟨?_, List.forall_mem_cons.2 ⟨hfind, hstored⟩, ?_⟩
      · rw [List.map_cons, hindices, List.length_cons, List.range'_succ]
      · rw [List.length_cons, Nat.add_comm _ 1, ← Nat.add_assoc]
        exact hends
    | other hi' h v hfind hkind hget =>
      rw [eachFrom_other h hget]
      exact ⟨rfl, nofun, .inr ⟨hi', v, hfind, hkind, rfl⟩⟩

/-! ### The rounds of a loop -/

/-- A loop whose rounds find in each state what the table has from the index of the round on. -/
structure Follows (t : Table) (kind : Kind) (table : S → Table) (visit : Nat → S → Except Fault S)
    (after : S → Nat × kind.Carrier → S) (Sees : Nat → S → Prop) : Prop where
  has {i s} (h : Sees i s) : (table s).has (indexKey i) = t.has (indexKey i)
  visit {i s} (h : Sees i s) : visit i s = (fun c => after s (i, c)) <$> t.getAs kind (indexKey i)
  next {i s} (h : Sees i s) (c : kind.Carrier) : Sees (i + 1) (after s (i, c))

theorem toNat_succ {index : UInt32} (h : index.toNat + 1 < UInt32.size) : (index + 1).toNat = index.toNat + 1 := by
  rw [UInt32.toNat_add]
  exact Nat.mod_eq_of_lt h

/-- Such a loop makes a round for each index of the traversal and one more. -/
theorem Follows.rounds {table : S → Table} {visit : Nat → S → Except Fault S} {after : S → Nat × kind.Carrier → S}
    {Sees : Nat → S → Prop} (h : Follows t kind table visit after Sees) (hn : IsGreatest t.lengths n)
    (hsize : n + 1 < UInt32.size) {limit : Nat} {index : UInt32} {s : S} (hindex : 1 ≤ index.toNat)
    (hin : index.toNat ≤ n + 1) (hlimit : n + 1 < index.toNat + limit) (hs : Sees index.toNat s) :
    (round table visit)^[(t.eachFrom kind limit index.toNat).seen.length + 1] (.before index s) =
      .over (t.eachFrom kind limit index.toNat).fault ((t.eachFrom kind limit index.toNat).seen.foldl after s) := by
  induction limit generalizing index s with
  | zero => omega
  | succ limit ih =>
    have hhas := h.has hs
    have hvisit := h.visit hs
    rw [Function.iterate_succ_apply]
    cases found hn kind hindex hin with
    | missing _ hmissing =>
      rw [eachFrom_missing hmissing, round_missing (hhas ▸ hmissing)]
      rfl
    | value hle hthere c _ hget =>
      have hsucc : (index + 1).toNat = index.toNat + 1 := toNat_succ (by omega)
      have hround : round table visit (.before index s) = .before (index + 1) (after s (index.toNat, c)) :=
        round_visit (hhas ▸ hthere) (by rw [hvisit, hget]; rfl) (by omega)
      have hnext : 1 ≤ (index + 1).toNat := by omega
      have hrest := ih hnext (by omega) (by omega) (hsucc ▸ h.next hs c)
      rw [hsucc] at hrest
      rw [eachFrom_value hthere hget, hround]
      exact hrest
    | other _ hthere v _ _ hget =>
      rw [eachFrom_other hthere hget, round_fault (hhas ▸ hthere) (by rw [hvisit, hget]; rfl)]
      rfl

/-! ### Callbacks that look -/

theorem foldl_forM (f : Nat → kind.Carrier → StateM σ Unit) (calls : List (Nat × kind.Carrier)) (x : σ) :
    calls.foldl (fun x p => ((f p.1 p.2).run x).2) x = ((calls.forM fun p => f p.1 p.2).run x).2 := by
  induction calls generalizing x with
  | nil => rfl
  | cons p calls ih => exact ih _

theorem eachRound_follows (t : Table) (f : Nat → kind.Carrier → StateM σ Unit) :
    Follows t kind (fun _ => t) (fun i x => do let c ← t.getAs kind (indexKey i); .ok ((f i c).run x).2)
      (fun x p => ((f p.1 p.2).run x).2) fun _ _ => True where
  has _ := rfl
  visit {i _} _ := by cases t.getAs kind (indexKey i) <;> rfl
  next _ _ := trivial

/-! ### Callbacks that write -/

/-- The entries that callbacks leave under the indices they were called with. -/
def left (calls : List (Nat × kind.Carrier)) (cs : List kind.Carrier) : List (String × Value) :=
  (calls.zip cs).map fun e => (indexKey e.1.1, kind.wrap e.2)

theorem mapM_cons_run (f : Nat → kind.Carrier → StateM σ kind.Carrier) (p : Nat × kind.Carrier)
    (calls : List (Nat × kind.Carrier)) (x : σ) : ((p :: calls).mapM fun p => f p.1 p.2).run x =
      (((f p.1 p.2).run x).1 :: ((calls.mapM fun p => f p.1 p.2).run ((f p.1 p.2).run x).2).1,
        ((calls.mapM fun p => f p.1 p.2).run ((f p.1 p.2).run x).2).2) := by
  rw [List.mapM_cons]
  rfl

theorem length_mapM (f : Nat → kind.Carrier → StateM σ kind.Carrier) (calls : List (Nat × kind.Carrier)) (x : σ) :
    ((calls.mapM fun p => f p.1 p.2).run x).1.length = calls.length := by
  induction calls generalizing x with
  | nil => rfl
  | cons p calls ih => rw [mapM_cons_run, List.length_cons, List.length_cons, ih]

theorem foldl_mapM (f : Nat → kind.Carrier → StateM σ kind.Carrier) (calls : List (Nat × kind.Carrier)) (t : Table)
    (x : σ) :
    calls.foldl (fun s p => (s.1.set (indexKey p.1) (kind.wrap ((f p.1 p.2).run s.2).1), ((f p.1 p.2).run s.2).2))
        (t, x) =
      (t.setAll (left calls ((calls.mapM fun p => f p.1 p.2).run x).1), ((calls.mapM fun p => f p.1 p.2).run x).2) := by
  induction calls generalizing t x with
  | nil => rfl
  | cons p calls ih => rw [List.foldl_cons, ih, mapM_cons_run]; rfl

/-- What a callback leaves under an index is not looked at again. -/
theorem eachModifyRound_follows (t : Table) (f : Nat → kind.Carrier → StateM σ kind.Carrier) :
    Follows t kind (·.1)
      (fun i s => do
        let c ← s.1.getAs kind (indexKey i)
        let (c, x) := (f i c).run s.2
        .ok (s.1.set (indexKey i) (kind.wrap c), x))
      (fun s p => (s.1.set (indexKey p.1) (kind.wrap ((f p.1 p.2).run s.2).1), ((f p.1 p.2).run s.2).2))
      fun i s => ∀ j, i ≤ j → s.1.find? (indexKey j) = t.find? (indexKey j) where
  has {i _} h := by rw [has, has, h i le_rfl]
  visit {i s} h := by
    have hget : s.1.getAs kind (indexKey i) = t.getAs kind (indexKey i) := by rw [getAs, getAs, get, get, h i le_rfl]
    rw [hget]
    cases t.getAs kind (indexKey i) <;> rfl
  next {i s} h c j hj := by
    have hne : indexKey j ≠ indexKey i := fun hc => by
      have := indexKey_injective hc
      omega
    rw [find?_set, if_neg hne, h j (by omega)]

theorem keys_setAll {es : List (String × Value)} (h : ∀ e ∈ es, e.1 ∈ t.keys) : (t.setAll es).keys = t.keys := by
  induction es generalizing t with
  | nil => rfl
  | cons e es ih =>
    obtain ⟨he, hes⟩ := List.forall_mem_cons.1 h
    have hkeys : (t.set e.1 e.2).keys = t.keys := keys_set_of_mem he e.2
    rw [setAll_cons, ih (fun e' he' => hkeys ▸ hes e' he'), hkeys]

theorem find?_setAll_of_ne {es : List (String × Value)} {k : String} (h : ∀ e ∈ es, k ≠ e.1) :
    (t.setAll es).find? k = t.find? k := by
  induction es generalizing t with
  | nil => rfl
  | cons e es ih =>
    obtain ⟨he, hes⟩ := List.forall_mem_cons.1 h
    rw [setAll_cons, ih hes, find?_set, if_neg he]

theorem find?_setAll_of_mem {es : List (String × Value)} (hes : (es.map (·.1)).Nodup) {e : String × Value}
    (h : e ∈ es) : (t.setAll es).find? e.1 = some e.2 := by
  induction es generalizing t with
  | nil => cases h
  | cons e' es ih =>
    obtain ⟨he', hes⟩ := List.nodup_cons.1 hes
    rw [setAll_cons]
    rcases List.mem_cons.1 h with rfl | h
    · have hne : ∀ e' ∈ es, e.1 ≠ e'.1 := fun e' hmem hc => he' (List.mem_map.2 ⟨e', hmem, hc.symm⟩)
      rw [find?_setAll_of_ne hne, find?_set, if_pos rfl]
    · exact ih hes h

theorem keys_left {calls : List (Nat × kind.Carrier)} {cs : List kind.Carrier} (h : cs.length = calls.length) :
    (left calls cs).map (·.1) = calls.map (indexKey ·.1) := by
  have hfst : (calls.zip cs).map (·.1) = calls := List.map_fst_zip h.ge
  conv_rhs => rw [← hfst, List.map_map]
  rw [left, List.map_map]
  rfl

/-- What is left under the indices of a traversal, each of which is called once, is there afterwards. Nothing else
changes. -/
theorem Visits.setAll_left {start : Nat} {calls : List (Nat × kind.Carrier)} {fault : Option Fault}
    (h : t.Visits kind n start calls fault) {cs : List kind.Carrier} (hcs : cs.length = calls.length) :
    List.Forall₂ (fun p c => (t.setAll (left calls cs)).find? (indexKey p.1) = some (kind.wrap c)) calls cs ∧
      (∀ k, (∀ p ∈ calls, k ≠ indexKey p.1) → (t.setAll (left calls cs)).find? k = t.find? k) ∧
      (t.setAll (left calls cs)).keys = t.keys := by
  have hnodup : ((left calls cs).map (·.1)).Nodup := by
    have hindices : calls.map (indexKey ·.1) = (calls.map (·.1)).map indexKey := by rw [List.map_map]; rfl
    rw [keys_left hcs, hindices, h.indices]
    exact List.Nodup.map indexKey_injective List.nodup_range'
  have hcalled : ∀ e ∈ left calls cs, ∃ p ∈ calls, indexKey p.1 = e.1 := by
    intro e he
    have hfst := List.mem_map_of_mem (f := (·.1)) he
    rwa [keys_left hcs, List.mem_map] at hfst
  refine ⟨List.forall₂_iff_zip.2 ⟨hcs.symm, fun {p c} hpc => ?_⟩, fun k hk => ?_, ?_⟩
  · exact find?_setAll_of_mem hnodup (e := (indexKey p.1, kind.wrap c)) (List.mem_map.2 ⟨(p, c), hpc, rfl⟩)
  · refine find?_setAll_of_ne fun e he hc => ?_
    obtain ⟨p, hp, hpe⟩ := hcalled e he
    exact hk p hp (hc.trans hpe.symm)
  · refine keys_setAll fun e he => ?_
    obtain ⟨p, hp, hpe⟩ := hcalled e he
    rw [← hpe, mem_keys_iff, h.stored p hp]
    rfl

/-- Callbacks without a state of their own leave what they answer. -/
theorem writes_left (f : Nat → kind.Carrier → kind.Carrier) (calls : List (Nat × kind.Carrier)) :
    (left calls ((calls.mapM fun p => (pure (f p.1 p.2) : StateM Unit kind.Carrier)).run ()).1).map
      (fun p => Write.put p.1 p.2) = eachWrites kind f calls := by
  have hmap : (calls.mapM fun p => (pure (f p.1 p.2) : StateM Unit kind.Carrier)) =
      pure (calls.map fun p => f p.1 p.2) := List.mapM_pure
  have hzip : calls.zip (calls.map fun p => f p.1 p.2) = calls.map fun p => (p, f p.1 p.2) :=
    List.map_prod_left_eq_zip.symm
  rw [hmap, left, StateT.run_pure]
  change ((calls.zip (calls.map fun p => f p.1 p.2)).map _).map _ = _
  rw [hzip, List.map_map, List.map_map]
  rfl

theorem eachModifyFrom_visited (f : Nat → kind.Carrier → kind.Carrier) (limit i : Nat) (t : Table) :
    (eachModifyFrom kind f limit i t).1 =
      ⟨(t.eachFrom kind limit i).seen.map (·.1), (t.eachFrom kind limit i).fault⟩ := by
  induction limit generalizing i t with
  | zero => rfl
  | succ limit ih =>
    rw [eachModifyFrom, eachFrom, modifyAs_eq]
    split
    · cases t.getAs kind (indexKey i) with
      | error fault => rfl
      | ok c =>
        let t' := t.set (indexKey i) (kind.wrap (f i c))
        have hlater : ∀ j, i + 1 ≤ j → t'.find? (indexKey j) = t.find? (indexKey j) :=
          (eachModifyRound_follows t fun i c => (pure (f i c) : StateM Unit kind.Carrier)).next (s := (t, ()))
            (fun _ _ => rfl) c
        have hrest : (eachModifyFrom kind f limit (i + 1) t').1 = _ := ih (i + 1) t'
        rw [eachFrom_congr hlater] at hrest
        change Visited.mk (i :: (eachModifyFrom kind f limit (i + 1) t').1.seen)
          (eachModifyFrom kind f limit (i + 1) t').1.fault = _
        rw [hrest]
        rfl
    · rfl

section Whole

variable (hn : IsGreatest t.lengths n)
include hn

theorem each_visits (kind : Kind) : t.Visits kind n 1 (t.each kind).seen (t.each kind).fault := by
  have hsize : n ≤ t.size := le_size_of_mem_lengths hn.1
  exact eachFrom_visits hn kind le_rfl (Nat.le_add_left 1 n) (by omega)

/-- From the first index on, with a table that the counter can count. -/
theorem Follows.run {table : S → Table} {visit : Nat → S → Except Fault S} {after : S → Nat × kind.Carrier → S}
    {Sees : Nat → S → Prop} (h : Follows t kind table visit after Sees) (ht : t.size < 2 ^ 32 - 1) {s : S}
    (hs : Sees 1 s) : (round table visit)^[(t.each kind).seen.length + 1] (.before 1 s) =
      .over (t.each kind).fault ((t.each kind).seen.foldl after s) := by
  have hsize : n ≤ t.size := le_size_of_mem_lengths hn.1
  have hone : (1 : UInt32).toNat = 1 := rfl
  have hword : UInt32.size = 2 ^ 32 := rfl
  have hindex : 1 ≤ (1 : UInt32).toNat := by omega
  have hlimit : n + 1 < (1 : UInt32).toNat + (t.size + 1) := by omega
  exact h.rounds hn (by omega) hindex (by omega) hlimit hs

theorem eachRound_run (ht : t.size < 2 ^ 32 - 1) (f : Nat → kind.Carrier → StateM σ Unit) (x : σ) :
    (eachRound t f)^[(t.each kind).seen.length + 1] (.before 1 x) =
      .over (t.each kind).fault (((t.each kind).seen.forM fun p => f p.1 p.2).run x).2 := by
  rw [← foldl_forM]
  exact (eachRound_follows t f).run hn ht trivial

theorem eachModifyRound_run (ht : t.size < 2 ^ 32 - 1) (f : Nat → kind.Carrier → StateM σ kind.Carrier) (x : σ) :
    (eachModifyRound f)^[(t.each kind).seen.length + 1] (.before 1 (t, x)) =
      .over (t.each kind).fault
        (t.setAll (left (t.each kind).seen (((t.each kind).seen.mapM fun p => f p.1 p.2).run x).1),
          (((t.each kind).seen.mapM fun p => f p.1 p.2).run x).2) := by
  rw [← foldl_mapM]
  exact (eachModifyRound_follows t f).run hn ht fun _ _ => rfl

end Whole

/-- Going over a table with fewer entries than the counter can hold ends. With `n` the length of its sequence, both
loops call their callbacks with the same indices in the same order, each with the value that the table had there:
all indices up to `n`, if each holds a value of the kind, and otherwise those before the first that does not, which
is the fault. Where callbacks write, what each leaves is under its index then; the keys stay as they are, and so
does what is under the others. -/
theorem traversals_visit (t : Table) (ht : t.size < 2 ^ 32 - 1) :
    ∃ n, IsGreatest t.lengths n ∧ n ≤ t.size ∧ ∀ kind : Kind, ∃ calls fault, t.Visits kind n 1 calls fault ∧
      t.each kind = ⟨calls, fault⟩ ∧
      (∀ (σ : Type) (f : Nat → kind.Carrier → StateM σ Unit) (x : σ),
        (eachRound t f)^[calls.length + 1] (.before 1 x) = .over fault ((calls.forM fun p => f p.1 p.2).run x).2) ∧
      (∀ (σ : Type) (f : Nat → kind.Carrier → StateM σ kind.Carrier) (x : σ), ∃ t',
        (eachModifyRound f)^[calls.length + 1] (.before 1 (t, x)) =
          .over fault (t', ((calls.mapM fun p => f p.1 p.2).run x).2) ∧
        List.Forall₂ (fun p c => t'.find? (indexKey p.1) = some (kind.wrap c)) calls
          ((calls.mapM fun p => f p.1 p.2).run x).1 ∧
        (∀ k, (∀ p ∈ calls, k ≠ indexKey p.1) → t'.find? k = t.find? k) ∧ t'.keys = t.keys) ∧
      ∀ f : Nat → kind.Carrier → kind.Carrier, ∃ t', t.eachModify kind f = (⟨calls.map (·.1), fault⟩, t') ∧
        (eachModifyRound fun i c => (pure (f i c) : StateM Unit kind.Carrier))^[calls.length + 1] (.before 1 (t, ())) =
          .over fault (t', ()) := by
  obtain ⟨n, hn⟩ := t.exists_isGreatest_lengths
  refine ⟨n, hn, le_size_of_mem_lengths hn.1, fun kind => ⟨_, _, each_visits hn kind, rfl, fun σ f x => ?_,
    fun σ f x => ⟨_, eachModifyRound_run hn ht f x, ?_⟩, fun f => ⟨_, ?_, eachModifyRound_run hn ht _ ()⟩⟩⟩
  · exact eachRound_run hn ht f x
  · exact (each_visits hn kind).setAll_left (length_mapM f _ x)
  · refine Prod.ext (eachModifyFrom_visited f _ 1 t) ?_
    rw [setAll_eq, writes_left]
    exact eachModifyFrom_eq kind f _ 1 t

/-- A sequence of three that came in out of order, the last of another kind than the others, and a key beside it. -/
def mixedTable : Table := .ofPairs [("2", .text "b"), ("x", .text "c"), ("3", .boolean true), ("1", .text "a")]

/-- As text, the loops come to the first two and stop at the third; what a callback leaves under those two is there
then. -/
theorem traversals_visit_mixed :
    mixedTable.size < 2 ^ 32 - 1 ∧ IsGreatest mixedTable.lengths 3 ∧
    (eachRound mixedTable fun i (c : Kind.text.Carrier) => modify (· ++ [(i, c)]))^[3] (.before 1 []) =
      .over (some (.otherKind "3" .boolean .text)) [(1, "a"), (2, "b")] ∧
    ∃ t', (eachModifyRound fun i (c : Kind.text.Carrier) => do modify (i :: ·); pure (String.append c "!"))^[3]
        (.before 1 (mixedTable, [])) = .over (some (.otherKind "3" .boolean .text)) (t', [2, 1]) ∧
      t'.find? "1" = some (.text "a!") ∧ t'.find? "2" = some (.text "b!") ∧ t'.find? "x" = some (.text "c") ∧
      t'.keys = ["2", "x", "3", "1"] := by
  have hsize : mixedTable.size < 2 ^ 32 - 1 := by decide
  obtain ⟨n, hn, hle, hall⟩ := traversals_visit mixedTable hsize
  obtain ⟨calls, fault, -, heach, hloop, hmodify, -⟩ := hall .text
  have hcalls : mixedTable.each .text = ⟨[(1, "a"), (2, "b")], some (.otherKind "3" .boolean .text)⟩ := rfl
  obtain ⟨rfl, rfl⟩ := Visited.mk.inj (heach.symm.trans hcalls)
  obtain ⟨t', hrun, hleft, hothers, hkeys⟩ :=
    hmodify (List Nat) (fun i c => do modify (i :: ·); pure (String.append c "!")) []
  obtain ⟨hone, hrest⟩ := List.forall₂_cons.1 hleft
  obtain ⟨htwo, -⟩ := List.forall₂_cons.1 hrest
  have hthree : IsGreatest mixedTable.lengths 3 := by
    have hmem : 3 ∈ mixedTable.lengths := by
      intro i hi hi3
      obtain rfl | rfl | rfl : i = 1 ∨ i = 2 ∨ i = 3 := by omega
      all_goals rfl
    have hfour : ¬4 ≤ n := fun h => absurd (hn.1 4 (by decide) h) (by decide)
    have hge : 3 ≤ n := hn.2 hmem
    obtain rfl : n = 3 := by omega
    exact hn
  refine ⟨hsize, hthree, hloop _ _ _, t', hrun, hone, htwo, ?_, hkeys⟩
  rw [hothers "x" (by decide)]
  rfl

end Table

end ScriptHost.Host
