import ScriptHost.Proofs.Draining
import ScriptHost.Proofs.RoundTrip

/-! Reading values off the stack by kind. Each value is read by itself, whatever lies above or under it,
and a run of kinds reads every value at its own position; the first that cannot be read from the top
downwards is a mismatch. Copies of host values read as what they are copies of. -/

namespace ScriptHost.Exchange

open Script (State TableRef Value)
open Host (Error Fault Kind Table)

variable {s : State}

/-! ### One value -/

/-- What a script value reads as by a kind, if it can be read. Numbers and strings stand in for each
other where they convert. -/
def reading? (s : State) : Kind → Value → Option Host.Value
  | .number, w => (toNumber? w).map .number
  | .text, w => (toText? w).map .text
  | .boolean, .boolean b => some (.boolean b)
  | .function, w => (toHostFunction? s w).map .function
  | .table, .table r => some (.ofTable (drained s (s.tables.size + 1) r))
  | .pointer, w => (toPointer? w).map .pointer
  | _, _ => none

theorem reading?_nil (kind : Kind) : reading? s kind .nil = none := by cases kind <;> rfl

theorem reading?_received (kind : Kind) (w : Value) : reading? s kind (received s w) = reading? s kind w := by
  cases w with
  | failure r =>
    rw [received]
    split <;> cases kind <;> rfl
  | _ => rfl

/-- Faults in the tables among some values. -/
def LadenAmong (s : State) (ws : List Value) (message : String) : Prop := ∃ r, .table r ∈ ws ∧ Laden s r message

/-- A table among some values nests deeper than there are tables. -/
def DeepAmong (s : State) (ws : List Value) : Prop := ∃ r, .table r ∈ ws ∧ Deep s (s.tables.size + 1) r

section Slots

variable {kind : Kind} {w : Value} {u : Host.Value}

theorem check_run (kind : Kind) (w : Value) (c : Channel) (st : List Value) (log : List Event) :
    check kind c ⟨w :: st, { s with log }⟩ = .done (reading? s kind w).isSome ⟨w :: st, { s with log }⟩ := by
  rw [check, state_bind, peek_bind]
  cases kind with
  | number | text | pointer => simp [reading?]
  | boolean | table => cases w <;> rfl
  | function =>
    simp only [reading?, Option.isSome_map]
    rfl

/-- All but tables stay where they are read. -/
theorem construct_run (h : reading? s kind w = some u) (hk : kind ≠ .table) (c : Channel) (st : List Value)
    (log : List Event) : construct kind c ⟨w :: st, { s with log }⟩ = .done u ⟨w :: st, { s with log }⟩ := by
  rw [construct, state_bind, peek_bind]
  cases kind with
  | number | text | pointer =>
    rw [reading?] at h
    simp only [List.head?_cons, Option.bind_some, h]
    rfl
  | boolean =>
    cases w with
    | boolean b =>
      cases h
      cases b <;> rfl
    | _ => cases h
  | function =>
    obtain ⟨f, hf, rfl⟩ := Option.map_eq_some_iff.1 h
    have hf' : toHostFunction? { s with log } w = some f := hf
    simp only [List.head?_cons, Option.bind_some, hf']
    rfl
  | table => exact absurd rfl hk

/-- They are popped when they have been read. -/
theorem take_run (h : reading? s kind w = some u) (hk : kind ≠ .table) (c : Channel) (st : List Value)
    (log : List Event) : take kind c ⟨w :: st, { s with log }⟩ = .done u ⟨st, { s with log }⟩ := by
  rw [take, depth_bind, bind_done (construct_run h hk c st log), depth_bind, if_pos rfl]
  rfl

/-- What can be read passes the check, as an argument and as a result. -/
theorem popSlot_run (mode : Extraction) (h : reading? s kind w = some u) (c : Channel) (st : List Value)
    (log : List Event) : popSlot mode kind c ⟨w :: st, { s with log }⟩ = take kind c ⟨w :: st, { s with log }⟩ := by
  have hcheck := check_run (s := s) kind w c st log
  rw [h] at hcheck
  have habsent : isAbsent (some w) = false := by
    cases w with
    | nil =>
      rw [reading?_nil] at h
      cases h
    | _ => rfl
  rw [popSlot, peek_bind]
  cases mode with
  | strict =>
    change (if isAbsent (some w) = true then _ else _ : Exchange Host.Value) c _ = _
    rw [habsent, if_neg Bool.false_ne_true]
    exact bind_done hcheck _
  | checked => exact bind_done hcheck _

theorem drainTop_yields (r : TableRef) (t : Table) :
    Yields s (Laden s r) (Deep s (s.tables.size + 1) r) [.table r] (drainTop t)
      (gather s (drained s s.tables.size) (s.table r).pairs t) := by
  have hpop (t : Table) : Yields s (Laden s r) (Deep s (s.tables.size + 1) r) [.table r] (do pop 1; pure t) t :=
    fun log => .inl ⟨log, fun _ _ => rfl⟩
  have hrun (c : Channel) (st : List Value) (log : List Event) : drainTop t c ⟨[.table r] ++ st, { s with log }⟩ =
      (drain r t >>= fun t => do pop 1; pure t) c ⟨[.table r] ++ st, { s with log }⟩ := by
    rw [drainTop, peek_bind]
    rfl
  exact ((drain_yields r t).seq (hpop _)).congr hrun

theorem takeTable_yields (r : TableRef) :
    Yields s (Laden s r) (Deep s (s.tables.size + 1) r) [.table r] takeTable (drained s (s.tables.size + 1) r) :=
  drainTop_yields r {}

section Yields

variable {faulty : String → Prop} {deep : Prop}

theorem take_table_yields {r : TableRef} {t : Table} (h : Yields s faulty deep [.table r] takeTable t) :
    Yields s faulty deep [.table r] (take .table) (.ofTable t) := by
  intro log
  have hconstruct (c : Channel) (f : Frame) :
      construct .table c f = (takeTable >>= fun t => pure (.ofTable t)) c f := rfl
  rcases h log with ⟨log', hdone⟩ | ⟨fault, t, hstopped, hfault⟩ | ⟨hexhausted, hdeep⟩
  · exact .inl ⟨log', fun c st => take_table_run (hdone c st)⟩
  · refine .inr (.inl ⟨fault, t, fun c st => ?_, hfault⟩)
    rw [take, depth_bind, bind_run, hconstruct, bind_run, hstopped]
  · refine .inr (.inr ⟨fun c st => ?_, hdeep⟩)
    rw [take, depth_bind, bind_run, hconstruct, bind_run, hexhausted]

theorem take_yields (h : reading? s kind w = some u) (hk : kind ≠ .table) :
    Yields s faulty deep [w] (take kind) u :=
  fun log => .inl ⟨log, fun c st => take_run h hk c st log⟩

theorem popSlot_of_take (mode : Extraction) (h : reading? s kind w = some u)
    (htake : Yields s faulty deep [w] (take kind) u) : Yields s faulty deep [w] (popSlot mode kind) u :=
  htake.congr fun c st log => popSlot_run mode h c st log

/-- Nothing can come between where no table is read. -/
theorem popSlot_plain (mode : Extraction) (h : reading? s kind w = some u) (hk : kind ≠ .table) :
    Yields s faulty deep [w] (popSlot mode kind) u :=
  popSlot_of_take mode h (take_yields h hk)

end Yields

theorem popSlot_yields (mode : Extraction) (h : reading? s kind w = some u) :
    Yields s (LadenAmong s [w]) (DeepAmong s [w]) [w] (popSlot mode kind) u := by
  by_cases hk : kind = .table
  · subst hk
    cases w with
    | table r =>
      cases h
      refine popSlot_of_take mode rfl (take_table_yields ((takeTable_yields r).mono ?_ ?_))
      · exact fun message h => ⟨r, List.mem_singleton.2 rfl, h⟩
      · exact fun h => ⟨r, List.mem_singleton.2 rfl, h⟩
    | _ => cases h
  · exact popSlot_plain mode h hk

/-- What cannot be read is a mismatch where it is checked. -/
theorem popSlot_mismatch (h : reading? s kind w = none) (c : Channel) (st : List Value) (log : List Event) :
    popSlot .checked kind c ⟨w :: st, { s with log }⟩ =
      .failed (.slotMismatch kind (found (some w))) ⟨w :: st, { s with log }⟩ := by
  have hcheck := check_run (s := s) kind w c st log
  rw [h] at hcheck
  rw [popSlot, peek_bind]
  exact bind_done hcheck _

end Slots

/-! ### Mismatches -/

/-- As `Yields`, with a mismatch in place of a result. Some values may be left above the stack then. -/
def Refuses {α : Type} (s : State) (faulty : String → Prop) (deep : Prop) (ws : List Value) (m : Exchange α) : Prop :=
  ∀ log, (∃ e rest log', e.code = .typeMismatch ∧
      ∀ c st, m c ⟨ws ++ st, { s with log }⟩ = .failed e ⟨rest ++ st, { s with log := log' }⟩) ∨
    Falters s faulty deep ws m log

section Refusals

variable {α β : Type} {faulty : String → Prop} {deep : Prop} {ws ws' : List Value} {m : Exchange α}

theorem Refuses.bind (hm : Refuses s faulty deep ws m) (g : α → Exchange β) : Refuses s faulty deep ws (m >>= g) := by
  intro log
  rcases hm log with ⟨e, rest, log', he, hfailed⟩ | hfalters
  · exact .inl ⟨e, rest, log', he, fun c st => by rw [bind_run, hfailed]⟩
  · exact .inr (hfalters.bind g)

theorem Yields.refuses {a : α} (hm : Yields s faulty deep ws m a) {g : α → Exchange β}
    (hg : Refuses s faulty deep ws' (g a)) : Refuses s faulty deep (ws ++ ws') (m >>= g) := by
  intro log
  rcases hm log with ⟨log', hdone⟩ | hfalters
  · simp only [Falters, List.append_assoc, fun c st => bind_done (hdone c (ws' ++ st)) g]
    exact hg log'
  · exact .inr ((hfalters.append ws').bind g)

end Refusals

/-! ### Many values -/

/-- The values read by the kinds, one by one from the first on; surplus values do not count. -/
def readings? (s : State) : List Kind → List Value → Option (List Host.Value)
  | [], _ => some []
  | _ :: _, [] => none
  | k :: ks, w :: ws => (reading? s k w).bind fun u => (readings? s ks ws).map (u :: ·)

/-- Each value is read at its own position, and there is one for each kind. -/
def ReadAs (s : State) (ks : List Kind) (ws : List Value) (us : List Host.Value) : Prop :=
  us.length = ks.length ∧ ∀ (i : Nat) (k : Kind), ks[i]? = some k →
    ∃ w u, ws[i]? = some w ∧ us[i]? = some u ∧ reading? s k w = some u

theorem readings?_eq_some {ks : List Kind} {ws : List Value} {us : List Host.Value} :
    readings? s ks ws = some us ↔ ReadAs s ks ws us := by
  induction ks generalizing ws us with
  | nil => simp [readings?, ReadAs, eq_comm]
  | cons k ks ih =>
    cases ws with
    | nil =>
      constructor
      · intro h
        cases h
      · intro h
        obtain ⟨w, -, hw, -⟩ := h.2 0 k rfl
        cases hw
    | cons w ws =>
      simp only [readings?, Option.bind_eq_some_iff, Option.map_eq_some_iff, ih]
      constructor
      · rintro ⟨u, hu, us', ⟨hlen, hall⟩, rfl⟩
        refine ⟨congrArg Nat.succ hlen, fun i k' hk' => ?_⟩
        cases i with
        | zero =>
          obtain rfl : k = k' := Option.some.inj hk'
          exact ⟨w, u, rfl, rfl, hu⟩
        | succ i => exact hall i k' hk'
      · rintro ⟨hlen, hall⟩
        obtain ⟨w', u, hw', hu, hread⟩ := hall 0 k rfl
        obtain rfl : w = w' := Option.some.inj hw'
        cases us with
        | nil => cases hu
        | cons u' us =>
          obtain rfl : u' = u := Option.some.inj hu
          exact ⟨u', hread, us, ⟨Nat.succ.inj hlen, fun i k' hk' => hall (i + 1) k' hk'⟩, rfl⟩

theorem readings?_received (ks : List Kind) (ws : List Value) :
    readings? s ks (ws.map (received s)) = readings? s ks ws := by
  induction ks generalizing ws with
  | nil => rfl
  | cons k ks ih =>
    cases ws with
    | nil => rfl
    | cons w ws => simp only [List.map_cons, readings?, reading?_received, ih]

/-- Filling up with nil makes no value readable, and surplus values were not read. -/
theorem readings?_fill (ks : List Kind) (ws : List Value) {n : Nat} (hn : ks.length ≤ n) :
    readings? s ks ((ws ++ List.replicate n Value.nil).take ks.length) = readings? s ks ws := by
  induction ks generalizing ws n with
  | nil => rfl
  | cons k ks ih =>
    cases ws with
    | nil =>
      obtain ⟨n, rfl⟩ := Nat.exists_eq_succ_of_ne_zero (Nat.ne_of_gt (Nat.lt_of_lt_of_le (Nat.succ_pos _) hn))
      simp [List.replicate_succ, readings?, reading?_nil]
    | cons w ws =>
      rw [List.cons_append, List.length_cons, List.take_succ_cons, readings?, ih ws (Nat.le_of_succ_le hn), readings?]

theorem readings?_append {ks : List Kind} {ws : List Value} (h : ws.length = ks.length) (ks' : List Kind)
    (ws' : List Value) : readings? s (ks ++ ks') (ws ++ ws') =
      (readings? s ks ws).bind fun us => (readings? s ks' ws').map (us ++ ·) := by
  induction ks generalizing ws with
  | nil =>
    obtain rfl := List.length_eq_zero_iff.1 h
    simp [readings?]
  | cons k ks ih =>
    obtain ⟨w, ws, rfl⟩ := List.exists_cons_of_length_eq_add_one h
    simp only [List.cons_append, readings?, ih (Nat.succ.inj h)]
    cases reading? s k w <;> cases readings? s ks ws <;> cases readings? s ks' ws' <;> rfl

theorem readings?_reverse {ks : List Kind} {ws : List Value} (h : ws.length = ks.length) :
    readings? s ks.reverse ws.reverse = (readings? s ks ws).map List.reverse := by
  induction ks generalizing ws with
  | nil =>
    obtain rfl := List.length_eq_zero_iff.1 h
    rfl
  | cons k ks ih =>
    obtain ⟨w, ws, rfl⟩ := List.exists_cons_of_length_eq_add_one h
    rw [List.reverse_cons, List.reverse_cons, readings?_append (by simpa using h), ih (Nat.succ.inj h)]
    simp only [readings?]
    cases reading? s k w <;> cases readings? s ks ws <;> simp

/-! ### Runs of slots -/

section Runs

variable {ks : List Kind} {ws ws' : List Value} {faulty faulty' : String → Prop} {deep deep' : Prop}
  {mode : Extraction}

/-- Whichever of the values can be read yields what it reads as. -/
def SlotsYield (s : State) (faulty : String → Prop) (deep : Prop) (mode : Extraction) (ws : List Value) : Prop :=
  ∀ w ∈ ws, ∀ k u, reading? s k w = some u → Yields s faulty deep [w] (popSlot mode k) u

theorem SlotsYield.mono (h : SlotsYield s faulty deep mode ws) (hf : ∀ message, faulty message → faulty' message)
    (hd : deep → deep') : SlotsYield s faulty' deep' mode ws :=
  fun w hw k u hu => (h w hw k u hu).mono hf hd

/-- What can come between is in the tables among the values. -/
theorem slotsYield_among (mode : Extraction) (ws : List Value) :
    SlotsYield s (LadenAmong s ws) (DeepAmong s ws) mode ws := by
  intro w hw k u hu
  refine (popSlot_yields mode hu).mono (fun message ⟨r, hr, h⟩ => ⟨r, ?_, h⟩) fun ⟨r, hr, h⟩ => ⟨r, ?_, h⟩
  · rwa [List.mem_singleton.1 hr]
  · rwa [List.mem_singleton.1 hr]

/-- The values are read one by one; what can come between any of them can come between the whole run. -/
theorem popDown_yields (hslots : SlotsYield s faulty deep mode ws) (hlen : ws.length = ks.length)
    {us : List Host.Value} (h : readings? s ks ws = some us) : Yields s faulty deep ws (popDown mode ks) us := by
  induction ks generalizing ws us with
  | nil =>
    obtain rfl := List.length_eq_zero_iff.1 hlen
    cases h
    exact .pure _
  | cons k ks ih =>
    obtain ⟨w, ws, rfl⟩ := List.exists_cons_of_length_eq_add_one hlen
    simp only [readings?, Option.bind_eq_some_iff, Option.map_eq_some_iff] at h
    obtain ⟨u, hu, us, hus, rfl⟩ := h
    obtain ⟨hw, hws⟩ := List.forall_mem_cons.1 hslots
    exact (hw k u hu).bind ((ih hws (Nat.succ.inj hlen) hus).map (u :: ·))

/-- The first value that cannot be read ends the run. -/
theorem popDown_refuses (hslots : SlotsYield s faulty deep .checked ws) (hlen : ws.length = ks.length)
    (h : readings? s ks ws = none) : Refuses s faulty deep ws (popDown .checked ks) := by
  induction ks generalizing ws with
  | nil => cases h
  | cons k ks ih =>
    obtain ⟨w, ws, rfl⟩ := List.exists_cons_of_length_eq_add_one hlen
    obtain ⟨hw, hws⟩ := List.forall_mem_cons.1 hslots
    cases hu : reading? s k w with
    | none =>
      -- the value in question and those under it stay where they are
      refine fun log => .inl ⟨.slotMismatch k (found (some w)), w :: ws, log, rfl, fun c st => ?_⟩
      rw [popDown, bind_run, List.cons_append, popSlot_mismatch hu]
    | some u =>
      have hus : readings? s ks ws = none := by simpa [readings?, hu] using h
      exact (hw k u hu).refuses ((ih hws (Nat.succ.inj hlen) hus).bind _)

theorem SlotsYield.reverse (h : SlotsYield s faulty deep mode ws) : SlotsYield s faulty deep mode ws.reverse :=
  fun w hw => h w (List.mem_reverse.1 hw)

/-- Values that lie on the stack one above the other are read in their order. -/
theorem popAll_yields (hslots : SlotsYield s faulty deep mode ws) (hlen : ws.length = ks.length)
    {us : List Host.Value} (h : readings? s ks ws = some us) :
    Yields s faulty deep ws.reverse (popAll mode ks) us := by
  have hreads : readings? s ks.reverse ws.reverse = some us.reverse := by
    rw [readings?_reverse hlen, h, Option.map_some]
  have hall := (popDown_yields hslots.reverse (by simpa using hlen) hreads).map List.reverse
  rwa [List.reverse_reverse] at hall

theorem popAll_refuses (hslots : SlotsYield s faulty deep .checked ws) (hlen : ws.length = ks.length)
    (h : readings? s ks ws = none) : Refuses s faulty deep ws.reverse (popAll .checked ks) := by
  have hreads : readings? s ks.reverse ws.reverse = none := by
    rw [readings?_reverse hlen, h, Option.map_none]
  exact (popDown_refuses hslots.reverse (by simpa using hlen) hreads).bind _

end Runs

/-! ### Copies -/

/-- A copy reads as what it is a copy of, and nothing comes between. -/
theorem Copy.reading {v : Host.Value} {start : TableRef} {w : Value} (h : Copy s v start w) (hv : v.Distinct) :
    (∃ v', reading? s v.kind w = some v' ∧ v.Same v' ∧ v'.Distinct) ∧
      ∀ mode, SlotsYield s (fun _ => False) False mode [w] := by
  have hplain (hw : Kind.of? w ≠ some .table) (mode : Extraction) : SlotsYield s (fun _ => False) False mode [w] := by
    intro x hx k u hu
    obtain rfl := List.mem_singleton.1 hx
    refine popSlot_plain mode hu ?_
    rintro rfl
    cases x with
    | table r => exact hw rfl
    | _ => cases hu
  cases v with
  | number x =>
    obtain rfl : w = .number (.double x) := h
    exact ⟨⟨.number x, rfl, rfl, trivial⟩, hplain (by simp [Kind.of?])⟩
  | text t =>
    obtain rfl : w = .ofString t := h
    refine ⟨⟨.text t, ?_, rfl, trivial⟩, hplain (by simp [Kind.of?, Value.ofString])⟩
    simp only [Host.Value.kind, reading?, Value.ofString, toText?, Host.fromUTF8?_toUTF8]
    rfl
  | boolean b =>
    obtain rfl : w = .boolean b := h
    exact ⟨⟨.boolean b, rfl, rfl, trivial⟩, hplain (by simp [Kind.of?])⟩
  | pointer p =>
    obtain rfl : w = .pointer p := h
    exact ⟨⟨.pointer p, rfl, rfl, trivial⟩, hplain (by simp [Kind.of?])⟩
  | function f =>
    obtain ⟨r, rfl, hf⟩ := h
    refine ⟨⟨.function f, ?_, rfl, trivial⟩, hplain (by simp [Kind.of?])⟩
    simp only [Host.Value.kind, reading?, toHostFunction?, hf]
    rfl
  | table es =>
    obtain ⟨rfl, -, -, hes⟩ := h
    have hrun (c : Channel) (st : List Value) (log : List Event) : ∃ t f,
        takeTable c ⟨[.table start] ++ st, { s with log }⟩ = .done t f ∧
          (⟨es⟩ : Table).Same t ∧ t.Distinct := by
      have hes' := hes.extend (.relog s log) fun r _ _ => Option.some_ne_none r
      obtain ⟨t, log', hrun, ht⟩ := takeTable_run (hes'.copied (Nat.le_refl _)) hv c st
      exact ⟨t, _, hrun, ht⟩
    obtain ⟨⟨hsame, hdist⟩, htake⟩ := (takeTable_yields start).of_runs hrun
    refine ⟨⟨_, rfl, hsame, hdist⟩, fun mode w hw k u hu => ?_⟩
    obtain rfl := List.mem_singleton.1 hw
    cases k with
    | table =>
      cases hu
      exact popSlot_of_take mode rfl (take_table_yields htake)
    | _ => cases hu

end ScriptHost.Exchange
