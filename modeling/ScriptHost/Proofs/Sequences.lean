import ScriptHost.Proofs.Lawful
import ScriptHost.Proofs.Loops
import ScriptHost.Proofs.OrderedTables

/-! Sequences on both sides. Host and script count the entries of a sequence by different means, decimal
spellings and integers; the script table of a host table has each entry where the script looks for it, so
going over the one is going over the other. -/

namespace ScriptHost.Host

open Table (indexKey)

/-! ### Index keys -/

theorem head_toDigits {n : Nat} (hn : 0 < n) {c : Char} {cs : List Char} (h : Nat.toDigits 10 n = c :: cs) :
    c ≠ '0' := by
  induction n using Nat.strongRecOn generalizing c cs with
  | ind n ih =>
    rcases Nat.lt_or_ge n 10 with hlt | hge
    · rw [Nat.toDigits_of_lt_base hlt, List.cons.injEq] at h
      rw [← h.1, Ne, Nat.digitChar_eq_zero]
      omega
    · rw [Nat.toDigits_of_base_le (by omega) hge] at h
      obtain ⟨d, ds, hds⟩ := List.exists_cons_of_ne_nil (Nat.toDigits_ne_nil (n := n / 10) (b := 10))
      rw [hds, List.cons_append, List.cons.injEq] at h
      exact h.1 ▸ ih (n / 10) (by omega) (by omega) hds

/-- A key is the spelling of an index if and only if it becomes the integer. -/
theorem sequenceIndex?_indexKey {i : Nat} (hi : 1 ≤ i) (hlt : i < 2 ^ 63) :
    sequenceIndex? (indexKey i) = some (Int64.ofInt i) := by
  have hchars : (indexKey i).toList = Nat.toDigits 10 i := String.toList_ofList
  obtain ⟨c, cs, hcs⟩ := List.exists_cons_of_ne_nil (Nat.toDigits_ne_nil (n := i) (b := 10))
  have hhead : (c != '0') = true := bne_iff_ne.2 (head_toDigits hi hcs)
  have hdigits : (c :: cs).all Char.isDigit = true :=
    List.all_eq_true.2 fun d hd => Nat.isDigit_of_mem_toDigits (by omega) (by omega) (hcs ▸ hd)
  have hvalue : Nat.ofDigitChars 10 (c :: cs) 0 = i := hcs ▸ Nat.ofDigitChars_ten_toDigits
  rw [sequenceIndex?, hchars, hcs]
  simp only [hhead, hdigits, Bool.and_self, if_true]
  change (if Nat.ofDigitChars 10 (c :: cs) 0 < 2 ^ 63 then
    some (Int64.ofInt (Nat.ofDigitChars 10 (c :: cs) 0)) else none) = _
  rw [hvalue, if_pos hlt]

theorem scriptKey_indexKey {i : Nat} (hi : 1 ≤ i) (hlt : i < 2 ^ 63) :
    scriptKey (indexKey i) = Script.Value.ofNat i := by
  rw [scriptKey, sequenceIndex?_indexKey hi hlt]
  rfl

/-- The key is the decimal spelling of an integer from 1 to the greatest one. -/
def IsIndex (k : String) : Prop := ∃ i, 1 ≤ i ∧ i < 2 ^ 63 ∧ k = indexKey i

/-- Every other key stays the string that it is. -/
theorem scriptKey_of_not_isIndex {k : String} (h : ¬IsIndex k) : scriptKey k = .ofString k := by
  rcases scriptKey_cases k with hk | ⟨i, hi, hk, -⟩
  · exact hk
  · refine absurd ⟨i.toInt.toNat, by omega, ?_, ?_⟩ h
    · have := i.toInt_lt
      omega
    · have hneg : ¬i.toInt < 0 := by omega
      rw [hk, Script.Numeral.integerText, if_neg hneg, List.nil_append, indexKey]
      congr 2
      omega

end ScriptHost.Host

namespace ScriptHost.Exchange

open Script (Activation Eval Site State TableRef Value)
open Host (IsIndex Kind Table)
open Host.Table (indexKey)
open Script.Evaluation (HostCall callAt each_ipairs listValues statement visit Undisturbed)

variable {s : State}

/-! ### Script tables of host tables -/

/-- The script value shows the host value. Of a table, the entry under the spelling of an index from 1 to the
greatest 64-bit integer is in the slot of that index, which is empty if there is none; every other entry is
under the same string; there is nothing else, and no handler. So for the tables in it. -/
inductive Shows (s : State) : Host.Value → Value → Prop
  | number (x : Number.Double) : Shows s (.number x) (.number (.double x))
  | text (t : String) : Shows s (.text t) (.ofString t)
  | boolean (b : Bool) : Shows s (.boolean b) (.boolean b)
  | pointer (p : UInt64) : Shows s (.pointer p) (.pointer p)
  | function (f : HostFunction) (r : Script.FunctionRef) (h : s.hostFunction? r = some f) :
    Shows s (.function f) (.function r)
  | table (es : List (String × Host.Value)) (r : TableRef)
    (plain : s.metatable? r = none)
    (slot : ∀ i v, 1 ≤ i → i < 2 ^ 63 → Host.Value.find? (indexKey i) es = some v →
      Shows s v (s.rawGet r (.ofNat i)))
    (hole : ∀ i, 1 ≤ i → i < 2 ^ 63 →
      (s.rawGet r (.ofNat i) = .nil ↔ Host.Value.find? (indexKey i) es = none))
    (named : ∀ k v, ¬IsIndex k → Host.Value.find? k es = some v → Shows s v (s.rawGet r (.ofString k)))
    (only : ∀ p ∈ (s.table r).entries,
      (∃ i, 1 ≤ i ∧ i < 2 ^ 63 ∧ p.1 = .ofNat i ∧ indexKey i ∈ es.map (·.1)) ∨
        ∃ k, ¬IsIndex k ∧ p.1 = .ofString k ∧ k ∈ es.map (·.1)) :
    Shows s (.table es) (.table r)

theorem rawGet_scriptKey (r : TableRef) (k : String) :
    s.rawGet r (Host.scriptKey k) = Script.Table.find (Host.scriptKey k) (s.table r).entries := by
  rw [State.rawGet, Script.Table.get, Host.asKey_scriptKey]

/-- What is not a host key is not a script key. -/
theorem CopyEntries.find_eq_nil {es : List (String × Host.Value)} {start : TableRef} {ws : List (Value × Value)}
    (h : CopyEntries s es start ws) {k : String} :
    Script.Table.find (Host.scriptKey k) ws = .nil ↔ Host.Value.find? k es = none := by
  induction es generalizing start ws with
  | nil =>
    rw [show ws = [] from h]
    exact ⟨fun _ => rfl, fun _ => rfl⟩
  | cons e es ih =>
    obtain ⟨w, rest, rfl, hw, hrest⟩ := h
    rw [Script.Table.find, Host.Value.find?]
    by_cases hk : k = e.1
    · simp [hk, hw.not_nil]
    · rw [if_neg hk, if_neg fun hc => hk (Host.scriptKey_injective hc)]
      exact ih hrest

/-- The script keys are those of the host. -/
theorem CopyEntries.only {es : List (String × Host.Value)} {start : TableRef} {ws : List (Value × Value)}
    (h : CopyEntries s es start ws) : ∀ p ∈ ws,
      (∃ i, 1 ≤ i ∧ i < 2 ^ 63 ∧ p.1 = .ofNat i ∧ indexKey i ∈ es.map (·.1)) ∨
        ∃ k, ¬IsIndex k ∧ p.1 = .ofString k ∧ k ∈ es.map (·.1) := by
  intro p hp
  have hkey : p.1 ∈ ws.map (·.1) := List.mem_map.2 ⟨p, hp, rfl⟩
  rw [(h.copied (Nat.zero_le _)).keys] at hkey
  obtain ⟨e, he, hkey⟩ := List.mem_map.1 hkey
  have hmem : e.1 ∈ es.map (·.1) := List.mem_map.2 ⟨e, he, rfl⟩
  by_cases hindex : IsIndex e.1
  · obtain ⟨i, hi, hlt, hk⟩ := hindex
    rw [hk] at hkey hmem
    exact .inl ⟨i, hi, hlt, by rw [← hkey, Host.scriptKey_indexKey hi hlt], hmem⟩
  · exact .inr ⟨e.1, hindex, by rw [← hkey, Host.scriptKey_of_not_isIndex hindex], hmem⟩

mutual

theorem Copy.shows {v : Host.Value} {start : TableRef} {w : Value} (h : Copy s v start w) : Shows s v w := by
  cases v with
  | number x =>
    obtain rfl : w = .number (.double x) := h
    exact .number x
  | text t =>
    obtain rfl : w = .ofString t := h
    exact .text t
  | boolean b =>
    obtain rfl : w = .boolean b := h
    exact .boolean b
  | pointer p =>
    obtain rfl : w = .pointer p := h
    exact .pointer p
  | function f =>
    obtain ⟨r, rfl, hf⟩ := h
    exact .function f r hf
  | table es =>
    obtain ⟨rfl, -, hplain, hes⟩ := h
    refine .table es start hplain (fun i v hi hlt hv => ?_) (fun i hi hlt => ?_) (fun k v hk hv => ?_) hes.only
    · rw [← Host.scriptKey_indexKey hi hlt, rawGet_scriptKey]
      exact hes.shows hv
    · rw [← Host.scriptKey_indexKey hi hlt, rawGet_scriptKey]
      exact hes.find_eq_nil
    · rw [← Host.scriptKey_of_not_isIndex hk, rawGet_scriptKey]
      exact hes.shows hv

/-- Every entry is found under its script key. -/
theorem CopyEntries.shows {es : List (String × Host.Value)} {start : TableRef} {ws : List (Value × Value)}
    (h : CopyEntries s es start ws) {k : String} {v : Host.Value} (hv : Host.Value.find? k es = some v) :
    Shows s v (Script.Table.find (Host.scriptKey k) ws) := by
  cases es with
  | nil => cases hv
  | cons e es =>
    obtain ⟨k', x⟩ := e
    obtain ⟨w, rest, rfl, hw, hrest⟩ := h
    rw [Host.Value.find?] at hv
    rw [Script.Table.find]
    by_cases hk : k = k'
    · rw [if_pos hk] at hv
      rw [if_pos (congrArg Host.scriptKey hk)]
      obtain rfl := Option.some.inj hv
      exact hw.shows
    · rw [if_neg hk] at hv
      rw [if_neg fun hc => hk (Host.scriptKey_injective hc)]
      exact hrest.shows hv

end

/-! ### Traversals -/

theorem eq_wrap_of_unwrap? {kind : Kind} {v : Host.Value} {x : kind.Carrier} (h : kind.unwrap? v = some x) :
    v = kind.wrap x := by
  cases kind <;> cases v <;> cases h <;> rfl

theorem kind_ne_of_unwrap? {kind : Kind} {v : Host.Value} (h : kind.unwrap? v = none) : v.kind ≠ kind := by
  rintro rfl
  cases v <;> cases h

/-- Going over a host table as one of values of a kind comes to the same indices in the same order, with the values
that the script sees. It comes to all of them, unless one is of another kind. -/
def Accords (s : State) {kind : Kind} (seen : Table.Visited (Nat × kind.Carrier)) (visits : List (Nat × Value)) :
    Prop :=
  ∃ ps qs, visits = ps ++ qs ∧
    List.Forall₂ (fun e p => e.1 = p.1 ∧ Shows s (kind.wrap e.2) p.2) seen.seen ps ∧
    match seen.fault with
    | none => qs = []
    | some _ => ∃ p v rest, qs = p :: rest ∧ Shows s v p.2 ∧ v.kind ≠ kind

theorem eachFrom_accords {t : Table} {t' : Script.Table} (kind : Kind)
    (hslot : ∀ i v, 1 ≤ i → i < 2 ^ 63 → t.find? (indexKey i) = some v → Shows s v (t'.getNat i))
    (hhole : ∀ i, 1 ≤ i → i < 2 ^ 63 → (t'.getNat i = .nil ↔ t.find? (indexKey i) = none))
    {limit start : Nat} (hstart : 1 ≤ start) (hlimit : start + limit ≤ 2 ^ 63) :
    Accords s (t.eachFrom kind limit start) (t'.stretch limit start) := by
  induction limit generalizing start with
  | zero => exact ⟨[], [], rfl, .nil, rfl⟩
  | succ limit ih =>
    cases hv : t.find? (indexKey start) with
    | none =>
      have hhas : ¬t.has (indexKey start) = true := by simp [Table.has, hv]
      rw [Table.eachFrom, if_neg hhas, Script.Table.stretch_of_nil ((hhole start hstart (by omega)).2 hv)]
      exact ⟨[], [], rfl, .nil, rfl⟩
    | some v =>
      have hhas : t.has (indexKey start) = true := by simp [Table.has, hv]
      have hfound : t.get (indexKey start) = .ok v := by rw [Table.get, hv]
      have hshows : Shows s v (t'.getNat start) := hslot start v hstart (by omega) hv
      have hheld : t'.getNat start ≠ .nil := fun hnil => by
        rw [(hhole start hstart (by omega)).1 hnil] at hv
        cases hv
      rw [Table.eachFrom, if_pos hhas, Script.Table.stretch_of_ne_nil hheld]
      cases hx : kind.unwrap? v with
      | none =>
        have hget : t.getAs kind (indexKey start) = .error (.otherKind (indexKey start) v.kind kind) := by
          simp only [Table.getAs, hfound, bind, Except.bind, hx]
        rw [hget]
        exact ⟨[], _, rfl, .nil, _, v, _, rfl, hshows, kind_ne_of_unwrap? hx⟩
      | some x =>
        have hget : t.getAs kind (indexKey start) = .ok x := by
          simp only [Table.getAs, hfound, bind, Except.bind, hx]
        rw [hget]
        obtain ⟨ps, qs, hps, hall, hrest⟩ := ih (Nat.le_succ_of_le hstart) (by omega)
        refine ⟨(start, t'.getNat start) :: ps, qs, by rw [hps]; rfl, .cons ⟨rfl, ?_⟩ hall, hrest⟩
        exact eq_wrap_of_unwrap? hx ▸ hshows

/-! ### Sequences -/

/-- Any loop of a script over what `ipairs` answers for the table, now or later, runs its body for these indices
and values, one after another, as long as the table stays as it is. -/
def LoopsOver (s : State) (r : TableRef) (ps : List (Nat × Value)) : Prop :=
  ∀ host depth a names es body line scope s₀ s₁ site, s.Later s₁ → s₁.table r = s.table r →
    listValues (callAt host (depth + 1)) a es scope s₀ =
      callAt host (depth + 1) (Script.Builtin.ref .ipairs) [.table r] site s₁ →
    Undisturbed (callAt host (depth + 1)) a names body scope s₁.cells.size r ps (s₁.newCell (.ofNat 0)).2 →
    statement (callAt host (depth + 1)) a (.each names es body line) scope s₀ =
      visit (callAt host (depth + 1)) a names body scope s₁.cells.size ps (s₁.newCell (.ofNat 0)).2

/-- Sequences stay sequences. The script table that a host table is pushed as has each entry in its place, at every
depth and nothing else. So, for tables that an index of 32 bits can count, a loop over `ipairs` of the script
table comes to the same indices in the same order and with the same values as going over the host table. -/
theorem pushTable_sequences {s : State} (hs : s.Reachable) {t : Table} (ht : t.Distinct) :
    ∃ r s', (∀ c st, pushTable t c ⟨st, s⟩ = .done () ⟨.table r :: st, s'⟩) ∧ Shows s' (.ofTable t) (.table r) ∧
      (t.size < 2 ^ 32 - 1 →
        (∀ kind, Accords s' (t.each kind) (s'.table r).visits) ∧ LoopsOver s' r (s'.table r).visits) := by
  obtain ⟨w, s', hrun, he, -, hcopy⟩ := pushHost_run (.ofTable t) ht s hs.linked
  obtain ⟨rfl, -, hplain, hes⟩ := id hcopy
  have hlength : (s'.table s.tables.size).entries.length = t.size := by
    have hkeys := congrArg List.length (hes.copied (Nat.zero_le _)).keys
    simpa [Table.size] using hkeys
  refine ⟨_, s', hrun, hcopy.shows, fun hsize => ⟨fun kind => ?_, ?_⟩⟩
  · cases hcopy.shows with
    | table _ _ _ slot hole =>
      rw [Table.each, Script.Table.visits, hlength]
      exact eachFrom_accords kind slot hole (Nat.le_refl 1) (by omega)
  · intro host depth a names es body line scope s₀ s₁ site hlater htable hvalues hquiet
    have hbuiltins (b : Script.Builtin) : s₁.function? b.ref = some (.builtin b) :=
      State.Later.function? hlater (he.function _ _ (hs.function?_ref b))
    rw [← htable] at hlength hquiet ⊢
    refine each_ipairs hbuiltins hvalues ?_ (by omega) hquiet
    rw [State.metatable?, htable]
    exact hplain

/-- Two values in sequence, and one that is not. -/
def pairTable : Table := .ofPairs [("2", .text "b"), ("x", .boolean true), ("1", .text "a")]

/-- The state after the table has been pushed in a new engine. -/
def pairState : State := (pushTable pairTable Channel.idle ⟨[], State.fresh⟩).state?.getD State.fresh

/-- The loop `for i, v in ipairs(t) do end`, in a chunk by itself, comes to the two values in sequence, and going over
the host table does so too. -/
theorem pushTable_sequences_pair :
    State.fresh.Reachable ∧ pairTable.Distinct ∧
      (∀ c st, pushTable pairTable c ⟨st, State.fresh⟩ = .done () ⟨.table 2 :: st, pairState⟩) ∧
      Accords pairState (pairTable.each .text) [(1, .ofString "a"), (2, .ofString "b")] ∧
      statement (callAt (fun _ _ _ _ => Eval.exhausted) 1) ⟨ByteArray.empty, 0, [], []⟩
        (.each ["i", "v"] [.call (.variable "ipairs" 1) [.variable "t" 1] 1] [] 1) [⟨"t", 0, 0⟩]
        (pairState.newCell (.table 2)).2 =
      visit (callAt (fun _ _ _ _ => Eval.exhausted) 1) ⟨ByteArray.empty, 0, [], []⟩ ["i", "v"] [] [⟨"t", 0, 0⟩] 1
        [(1, .ofString "a"), (2, .ofString "b")] ((pairState.newCell (.table 2)).2.newCell (.ofNat 0)).2 := by
  have hfresh : State.fresh.Reachable := .refl
  have hdistinct : pairTable.Distinct := by
    simp [pairTable, Table.Distinct, Table.ofPairs, Table.setAll, Table.empty, Table.set, Table.insertEntry,
      Host.Value.DistinctEntries, Host.Value.Distinct]
  obtain ⟨r, s', hrun, -, hsequence⟩ := pushTable_sequences hfresh hdistinct
  have hpush : pushTable pairTable Channel.idle ⟨[], State.fresh⟩ =
      .done () ⟨[.table 2], pairState⟩ := rfl
  have hframe := (Outcome.done.inj ((hrun _ []).symm.trans hpush)).2
  cases hframe
  obtain ⟨haccords, hloop⟩ := hsequence (by decide)
  have hvisits : (pairState.table 2).visits = [(1, .ofString "a"), (2, .ofString "b")] := by decide +kernel
  rw [hvisits] at haccords hloop
  refine ⟨hfresh, hdistinct, hrun, haccords .text, ?_⟩
  -- the body does nothing, so each round changes the variables of the loop alone
  refine hloop _ 0 _ _ _ _ _ _ _ (pairState.newCell (.table 2)).2
    (Site.callSite ⟨some ⟨ByteArray.empty, 1⟩, []⟩ (some ⟨"global", "ipairs".toUTF8⟩))
    (State.Write.newCell _ _).later rfl rfl ?_
  intro e s₁ hbody _
  obtain ⟨-, rfl⟩ := Script.Flow.done.inj hbody
  refine ⟨rfl, rfl, rfl, fun e' s₂ hbody' _ => ?_⟩
  obtain ⟨-, rfl⟩ := Script.Flow.done.inj hbody'
  exact ⟨rfl, rfl, rfl, trivial⟩

end ScriptHost.Exchange
