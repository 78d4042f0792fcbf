import ScriptHost.Proofs.Accounts

/-! Reading runs of values off the stack, told apart by how they end. The two ways to treat a value of the
wrong kind read the same values with the same effects; they part at the first value that does not pass its
check, where the one answers an error and the other stops. No value under those that are asked for counts. -/

namespace ScriptHost.Exchange

open Script (State TableRef Value)
open Host (Code Error Fault Kind Table)

variable {s : State}

/-! ### Values that can be read -/

/-- Faults in the tables among some values. -/
def Burdened (s : State) (ws : List Value) (message : String) : Prop := ∃ r, .table r ∈ ws ∧ Waiting s r message

theorem Burdened.mono {ws ws' : List Value} {message : String} (h : Burdened s ws message) (hws : ws ⊆ ws') :
    Burdened s ws' message := by
  obtain ⟨r, hr, hwaiting⟩ := h
  exact ⟨r, hws hr, hwaiting⟩

/-- What is said when a value is read. -/
def said (s : State) : Value → List Event
  | .table r => events (account s r)
  | _ => []

theorem burdened_table {r : TableRef} {message : String} : Burdened s [.table r] message ↔ Waiting s r message := by
  simp [Burdened]

theorem not_burdened {w : Value} (hw : ∀ r, w ≠ .table r) (message : String) : ¬Burdened s [w] message := by
  rintro ⟨r, hr, -⟩
  exact hw r (List.mem_singleton.1 hr).symm

theorem take_table_settles {waiting : String → Prop} {r : TableRef} {t : Table} {es : List Event}
    (h : Settles s waiting [.table r] takeTable t es) : Settles s waiting [.table r] (take .table) (.ofTable t) es where
  clear hclear log c st := take_table_run (h.clear hclear log c st)
  stops hwaiting log := by
    obtain ⟨message, t, hmessage, hstopped⟩ := h.stops hwaiting log
    have hconstruct (c : Channel) (f : Frame) :
        construct .table c f = (takeTable >>= fun t => pure (.ofTable t)) c f := rfl
    refine ⟨message, t, hmessage, fun c st => ?_⟩
    rw [take, depth_bind, bind_run, hconstruct, bind_run, hstopped]

theorem take_settles {k : Kind} {w : Value} {u : Host.Value} (h : reading? s k w = some u)
    (hw : ∀ r, w = .table r → Acyclic s r) : Settles s (Burdened s [w]) [w] (take k) u (said s w) := by
  by_cases hk : k = .table
  · subst hk
    cases w with
    | table r =>
      cases h
      exact (take_table_settles (takeTable_settles (hw r rfl))).congr (fun _ => burdened_table.symm) rfl
    | _ => cases h
  · have hplain : ∀ r, w ≠ .table r := by
      rintro r rfl
      cases k <;> first | exact hk rfl | cases h
    have hsaid : said s w = [] := by
      cases w with
      | table r => exact absurd rfl (hplain r)
      | _ => rfl
    rw [hsaid]
    refine (Settles.of_done fun log c st => take_run h hk c st log).congr (fun message => ?_) rfl
    exact ⟨False.elim, not_burdened hplain message⟩

/-- Reads values off the stack, with no check before. -/
def takeDown : List Kind → Exchange (List Host.Value)
  | [] => pure []
  | k :: ks => do
    let u ← take k
    let us ← takeDown ks
    pure (u :: us)

section Runs

variable {ks : List Kind} {ws : List Value} {us : List Host.Value}

theorem takeDown_settles (hlen : ws.length = ks.length) (h : readings? s ks ws = some us)
    (hws : ∀ r, .table r ∈ ws → Acyclic s r) :
    Settles s (Burdened s ws) ws (takeDown ks) us (ws.flatMap (said s)) := by
  induction ks generalizing ws us with
  | nil =>
    obtain rfl := List.length_eq_zero_iff.1 hlen
    cases h
    exact (Settles.pure _).congr (by simp [Burdened]) rfl
  | cons k ks ih =>
    obtain ⟨w, ws, rfl⟩ := List.exists_cons_of_length_eq_add_one hlen
    simp only [readings?, Option.bind_eq_some_iff, Option.map_eq_some_iff] at h
    obtain ⟨u, hu, us, hus, rfl⟩ := h
    have hfirst := take_settles hu fun r hr => hws r (hr ▸ List.mem_cons_self)
    have hrest := ih (Nat.succ.inj hlen) hus fun r hr => hws r (List.mem_cons_of_mem w hr)
    have hall : Settles s _ ([w] ++ (ws ++ [])) (takeDown (k :: ks)) (u :: us) _ :=
      hfirst.bind (hrest.bind (.pure (u :: us)))
    rw [List.append_nil] at hall
    refine hall.congr (fun message => ?_) (by simp)
    simp only [Burdened, List.mem_cons, or_false, or_and_right, exists_or, List.not_mem_nil]

/-- Where every value can be read the checks change nothing. -/
theorem popDown_eq_takeDown (hlen : ws.length = ks.length) (h : readings? s ks ws = some us)
    (hws : ∀ r, .table r ∈ ws → Acyclic s r) (mode : Extraction) (c : Channel) (st : List Value) (log : List Event) :
    popDown mode ks c ⟨ws ++ st, { s with log }⟩ = takeDown ks c ⟨ws ++ st, { s with log }⟩ := by
  induction ks generalizing ws us log with
  | nil => rfl
  | cons k ks ih =>
    obtain ⟨w, ws, rfl⟩ := List.exists_cons_of_length_eq_add_one hlen
    simp only [readings?, Option.bind_eq_some_iff, Option.map_eq_some_iff] at h
    obtain ⟨u, hu, us, hus, rfl⟩ := h
    have hpop : popSlot mode k c ⟨w :: ws ++ st, { s with log }⟩ = take k c ⟨w :: ws ++ st, { s with log }⟩ :=
      popSlot_run mode hu c (ws ++ st) log
    have hfirst := take_settles hu fun r hr => hws r (hr ▸ List.mem_cons_self)
    rw [popDown, takeDown, bind_run, hpop, bind_run]
    -- a fault in the first value stops both runs, whatever the others are
    by_cases hwaiting : ∃ message, Burdened s [w] message
    · obtain ⟨message, t, -, hstopped⟩ := hfirst.stops hwaiting log
      have hstop : take k c ⟨w :: ws ++ st, { s with log }⟩ = .stopped (.carried message) t := hstopped c (ws ++ st)
      rw [hstop]
    · have hdone : take k c ⟨w :: ws ++ st, { s with log }⟩ = .done u ⟨ws ++ st, _⟩ :=
        hfirst.clear (not_exists.1 hwaiting) log c (ws ++ st)
      have hrest := ih (Nat.succ.inj hlen) hus (fun r hr => hws r (List.mem_cons_of_mem w hr))
        ((said s w).reverse ++ log)
      simp only [hdone, bind_run, hrest]

theorem popDown_append (mode : Extraction) (ks ks' : List Kind) :
    popDown mode (ks ++ ks') = (do
      let us ← popDown mode ks
      let us' ← popDown mode ks'
      pure (us ++ us')) := by
  funext c f
  induction ks generalizing f with
  | nil =>
    simp only [List.nil_append, popDown, bind_run, pure_run]
    cases popDown mode ks' c f <;> rfl
  | cons k ks ih =>
    simp only [List.cons_append, popDown, bind_run, ih]
    cases popSlot mode k c f with
    | done u f =>
      simp only
      cases popDown mode ks c f with
      | done us f =>
        simp only [pure_run]
        cases popDown mode ks' c f <;> rfl
      | _ => rfl
    | _ => rfl

/-- A run of kinds goes through the values that can be read to what it finds under them, unless a fault waits in
one of those; that stops both ways to read in the same place. -/
theorem popDown_through (hlen : ws.length = ks.length) (h : readings? s ks ws = some us)
    (hws : ∀ r, .table r ∈ ws → Acyclic s r) :
    ((∃ message, Burdened s ws message) → ∃ message t, Burdened s ws message ∧
      ∀ mode ks' c st, popDown mode (ks ++ ks') c ⟨ws ++ st, s⟩ = .stopped (.carried message) t) ∧
    ((¬∃ message, Burdened s ws message) → ∃ log, ∀ mode ks' c st,
      popDown mode (ks ++ ks') c ⟨ws ++ st, s⟩ =
        (do let us' ← popDown mode ks'; pure (us ++ us') : Exchange _) c ⟨st, { s with log }⟩) := by
  have hsettles := takeDown_settles hlen h hws
  have htake (mode : Extraction) (c : Channel) (st : List Value) :
      popDown mode ks c ⟨ws ++ st, s⟩ = takeDown ks c ⟨ws ++ st, s⟩ :=
    popDown_eq_takeDown hlen h hws mode c st s.log
  constructor
  · intro hwaiting
    obtain ⟨message, t, hmessage, hstopped⟩ := hsettles.stops hwaiting s.log
    refine ⟨message, t, hmessage, fun mode ks' c st => ?_⟩
    have hstop : takeDown ks c ⟨ws ++ st, s⟩ = .stopped (.carried message) t := hstopped c st
    rw [popDown_append, bind_run, htake, hstop]
  · intro hclear
    refine ⟨(ws.flatMap (said s)).reverse ++ s.log, fun mode ks' c st => ?_⟩
    have hdone : takeDown ks c ⟨ws ++ st, s⟩ = .done us ⟨st, { s with log := _ }⟩ :=
      hsettles.clear (not_exists.1 hclear) s.log c st
    rw [popDown_append, bind_done ((htake mode c st).trans hdone)]

end Runs

/-! ### Checks -/

/-- The check of a kind accepts a value wherever it lies on top. -/
def Passes (s : State) (k : Kind) (w : Value) : Prop :=
  ∀ c st, check k c ⟨w :: st, s⟩ = .done true ⟨w :: st, s⟩

theorem passes_iff {k : Kind} {w : Value} : Passes s k w ↔ ∃ u, reading? s k w = some u := by
  have hrun (c : Channel) (st : List Value) := check_run (s := s) k w c st s.log
  constructor
  · intro h
    have hsome := (Outcome.done.inj ((hrun Channel.idle []).symm.trans
      (h _ _))).1
    exact Option.isSome_iff_exists.1 hsome
  · rintro ⟨u, hu⟩ c st
    have hdone := hrun c st
    rwa [hu] at hdone

/-- What a value of the wrong kind comes to, or an empty stack. -/
def mismatch {α : Type} (mode : Extraction) (k : Kind) (top : Option Value) : Exchange α :=
  match mode with
  | .checked => fail (.slotMismatch k (found top))
  | .strict => if isAbsent top then stop .nilArgument else stop (.argumentKind k (describe top))

theorem mismatch_strict {α : Type} (k : Kind) (top : Option Value) (c : Channel) (f : Frame) :
    ∃ fault t, (mismatch .strict k top c f : Outcome α) = .stopped fault t := by
  unfold mismatch
  cases isAbsent top <;> exact ⟨_, _, rfl⟩

/-- Nothing comes after a mismatch. -/
theorem bind_of_mismatch {α β : Type} {m : Exchange α} {mode : Extraction} {k : Kind} {top : Option Value}
    {c : Channel} {f f' : Frame} (h : m c f = mismatch mode k top c f') (g : α → Exchange β) :
    (m >>= g) c f = mismatch mode k top c f' := by
  rw [bind_run, h]
  cases mode with
  | checked => rfl
  | strict =>
    unfold mismatch
    cases isAbsent top <;> rfl

theorem popSlot_of_unreadable {k : Kind} {st : List Value} (h : ∀ w, st.head? = some w → ¬Passes s k w)
    (mode : Extraction) (c : Channel) (log : List Event) :
    popSlot mode k c ⟨st, { s with log }⟩ = mismatch mode k st.head? c ⟨st, { s with log }⟩ := by
  have hcheck : check k c ⟨st, { s with log }⟩ = .done false ⟨st, { s with log }⟩ := by
    cases st with
    | nil => cases k <;> rfl
    | cons w st =>
      have hnone : reading? s k w = none := by
        rw [← Option.not_isSome_iff_eq_none, Option.isSome_iff_exists, ← passes_iff]
        exact h w rfl
      rw [check_run, hnone]
      rfl
  rw [popSlot, peek_bind]
  cases mode with
  | checked => exact bind_done hcheck _
  | strict =>
    change (if isAbsent st.head? = true then _ else _ : Exchange Host.Value) c _ = _
    rw [mismatch]
    split
    · rfl
    · exact bind_done hcheck _

/-- The first `j` values pass the checks of the kinds one by one, and the next does not: it fails its check, or
there is none, or no kind is left. -/
structure Matches (s : State) (ks : List Kind) (st : List Value) (j : Nat) : Prop where
  le : j ≤ ks.length
  passes : ∀ i < j, ∃ k w, ks[i]? = some k ∧ st[i]? = some w ∧ Passes s k w
  ends : ∀ k w, ks[j]? = some k → st[j]? = some w → ¬Passes s k w

theorem exists_matches (s : State) (ks : List Kind) (st : List Value) : ∃ j, Matches s ks st j := by
  induction ks generalizing st with
  | nil => exact ⟨0, Nat.le_refl _, fun i hi => absurd hi (Nat.not_lt_zero i), fun k w hk => by cases hk⟩
  | cons k ks ih =>
    by_cases h : ∃ w st', st = w :: st' ∧ Passes s k w
    · obtain ⟨w, st', rfl, hw⟩ := h
      obtain ⟨j, hj⟩ := ih st'
      refine ⟨j + 1, Nat.succ_le_succ hj.le, fun i hi => ?_, hj.ends⟩
      cases i with
      | zero => exact ⟨k, w, rfl, rfl, hw⟩
      | succ i => exact hj.passes i (Nat.lt_of_succ_lt_succ hi)
    · refine ⟨0, Nat.zero_le _, fun i hi => absurd hi (Nat.not_lt_zero i), fun k' w hk hw hpasses => ?_⟩
      obtain rfl : k = k' := Option.some.inj hk
      obtain ⟨st', rfl⟩ := List.head?_eq_some_iff.1 ((List.head?_eq_getElem? ..).trans hw)
      exact h ⟨w, st', rfl, hpasses⟩

namespace Matches

variable {ks : List Kind} {st : List Value} {j : Nat}

theorem le_length (h : Matches s ks st j) : j ≤ st.length := by
  cases j with
  | zero => exact Nat.zero_le _
  | succ j =>
    obtain ⟨k, w, -, hw, -⟩ := h.passes j (Nat.lt_succ_self j)
    exact (List.getElem?_eq_some_iff.1 hw).1

/-- Until the next value all can be read. -/
theorem reads (h : Matches s ks st j) : ∃ us, readings? s (ks.take j) (st.take j) = some us := by
  induction j generalizing ks st with
  | zero => exact ⟨[], rfl⟩
  | succ j ih =>
    obtain ⟨k, w, hk, hw, hpasses⟩ := h.passes 0 (Nat.succ_pos j)
    obtain ⟨ks, rfl⟩ := List.head?_eq_some_iff.1 ((List.head?_eq_getElem? ..).trans hk)
    obtain ⟨st, rfl⟩ := List.head?_eq_some_iff.1 ((List.head?_eq_getElem? ..).trans hw)
    obtain ⟨u, hu⟩ := passes_iff.1 hpasses
    have hrest : Matches s ks st j :=
      ⟨Nat.le_of_succ_le_succ h.le, fun i hi => h.passes (i + 1) (Nat.succ_lt_succ hi), h.ends⟩
    obtain ⟨us, hus⟩ := ih hrest
    exact ⟨u :: us, by simp [readings?, hu, hus]⟩

/-- Tables among the values that are read have no cycles. -/
theorem acyclic_take (h : Matches s ks st j) (hst : ∀ r, .table r ∈ st.take ks.length → Acyclic s r) (r : TableRef)
    (hr : .table r ∈ st.take j) : Acyclic s r :=
  hst r (List.take_subset_take_left st h.le hr)

theorem length_take (h : Matches s ks st j) : (st.take j).length = (ks.take j).length := by
  rw [List.length_take_of_le h.le_length, List.length_take_of_le h.le]

/-- A fault that waits in one of the values read stops both ways in the same place, whatever is under them. -/
theorem stopped (h : Matches s ks st j) (hst : ∀ r, .table r ∈ st.take ks.length → Acyclic s r)
    (hwaiting : ∃ message, Burdened s (st.take j) message) :
    ∃ message t, Burdened s (st.take j) message ∧ ∀ mode c st', st'.take j = st.take j →
      popDown mode ks c ⟨st', s⟩ = .stopped (.carried message) t := by
  obtain ⟨us, hus⟩ := h.reads
  obtain ⟨message, t, hmessage, hstopped⟩ :=
    (popDown_through h.length_take hus (h.acyclic_take hst)).1 hwaiting
  refine ⟨message, t, hmessage, fun mode c st' htop => ?_⟩
  have hrun := hstopped mode (ks.drop j) c (st'.drop j)
  rwa [List.take_append_drop, ← htop, List.take_append_drop] at hrun

/-- Otherwise both read the same, and there is a value for each kind, or they come to a mismatch. -/
theorem ended (h : Matches s ks st j) (hst : ∀ r, .table r ∈ st.take ks.length → Acyclic s r)
    (hclear : ¬∃ message, Burdened s (st.take j) message) :
    ∃ log, (j = ks.length ∧ ∃ us, readings? s ks (st.take ks.length) = some us ∧
        ∀ mode c st', st'.take j = st.take j →
          popDown mode ks c ⟨st', s⟩ = .done us ⟨st'.drop j, { s with log }⟩) ∨
      ∃ k, ks[j]? = some k ∧ ∀ mode c st', st'.take j = st.take j → st'[j]? = st[j]? →
        popDown mode ks c ⟨st', s⟩ = mismatch mode k st[j]? c ⟨st'.drop j, { s with log }⟩ := by
  obtain ⟨us, hus⟩ := h.reads
  obtain ⟨log, hthrough⟩ := (popDown_through h.length_take hus (h.acyclic_take hst)).2 hclear
  have hrun (mode : Extraction) (c : Channel) (st' : List Value) (htop : st'.take j = st.take j) :
      popDown mode ks c ⟨st', s⟩ = (do let us' ← popDown mode (ks.drop j); pure (us ++ us') : Exchange _) c
        ⟨st'.drop j, { s with log }⟩ := by
    have hall := hthrough mode (ks.drop j) c (st'.drop j)
    rwa [List.take_append_drop, ← htop, List.take_append_drop] at hall
  refine ⟨log, ?_⟩
  cases hks : ks.drop j with
  | nil =>
    obtain rfl : j = ks.length := Nat.le_antisymm h.le (List.drop_eq_nil_iff.1 hks)
    refine .inl ⟨rfl, us, by rwa [List.take_length] at hus, fun mode c st' htop => ?_⟩
    have hnone : popDown mode [] c ⟨st'.drop ks.length, { s with log }⟩ = .done [] _ := rfl
    rw [hrun mode c st' htop, hks, bind_done hnone, List.append_nil]
    rfl
  | cons k ks' =>
    have hk : ks[j]? = some k := by rw [← List.head?_drop, hks]; rfl
    refine .inr ⟨k, hk, fun mode c st' htop hnext => ?_⟩
    have hhead : (st'.drop j).head? = st[j]? := by rw [List.head?_drop, hnext]
    have hslot : popSlot mode k c ⟨st'.drop j, { s with log }⟩ =
        mismatch mode k st[j]? c ⟨st'.drop j, { s with log }⟩ :=
      hhead ▸ popSlot_of_unreadable (fun w hw => h.ends k w hk (hhead ▸ hw)) mode c log
    rw [hrun mode c st' htop, hks, popDown]
    exact bind_of_mismatch (bind_of_mismatch hslot _) _

end Matches

/-! ### Values in declared order -/

/-- There is a value for each kind, that for the last on top, and every one passes its check. -/
def Fits (s : State) (kinds : List Kind) (st : List Value) : Prop :=
  kinds.length ≤ st.length ∧
    ∀ i k, kinds[i]? = some k → ∃ w, st[kinds.length - 1 - i]? = some w ∧ Passes s k w

section Declared

variable {kinds : List Kind} {st : List Value} {j : Nat}

theorem Matches.fits_iff (h : Matches s kinds.reverse st j) : Fits s kinds st ↔ j = kinds.length := by
  have hle : j ≤ kinds.length := by simpa using h.le
  constructor
  · rintro ⟨-, hall⟩
    refine Nat.le_antisymm hle (Nat.le_of_not_lt fun hj => ?_)
    obtain ⟨k, hk⟩ : ∃ k, kinds.reverse[j]? = some k := ⟨_, List.getElem?_eq_getElem (by simpa using hj)⟩
    rw [List.getElem?_reverse hj] at hk
    obtain ⟨w, hw, hpasses⟩ := hall _ k hk
    rw [show kinds.length - 1 - (kinds.length - 1 - j) = j by omega] at hw
    exact h.ends k w (by rwa [List.getElem?_reverse hj]) hw hpasses
  · rintro rfl
    refine ⟨h.le_length, fun i k hk => ?_⟩
    have hi : i < kinds.length := (List.getElem?_eq_some_iff.1 hk).1
    obtain ⟨k', w, hk', hw, hpasses⟩ := h.passes (kinds.length - 1 - i) (by omega)
    rw [List.getElem?_reverse (by omega), show kinds.length - 1 - (kinds.length - 1 - i) = i by omega, hk] at hk'
    obtain rfl := Option.some.inj hk'
    exact ⟨w, hw, hpasses⟩

theorem popAll_run {mode : Extraction} {c : Channel} {f f' : Frame} {us : List Host.Value}
    (h : popDown mode kinds.reverse c f = .done us f') : popAll mode kinds c f = .done us.reverse f' :=
  bind_done h _

theorem popAll_stopped {mode : Extraction} {c : Channel} {f : Frame} {fault : Fault} {t : State}
    (h : popDown mode kinds.reverse c f = .stopped fault t) : popAll mode kinds c f = .stopped fault t := by
  change (popDown mode kinds.reverse >>= fun us => pure us.reverse) c f = _
  rw [bind_run, h]

theorem popAll_mismatch {mode : Extraction} {k : Kind} {top : Option Value} {c : Channel} {f f' : Frame}
    (h : popDown mode kinds.reverse c f = mismatch mode k top c f') :
    popAll mode kinds c f = mismatch mode k top c f' :=
  bind_of_mismatch h _

/-- Reading from the top downwards gives the values in declared order. -/
theorem readAs_of_readings {us : List Host.Value} (hlen : kinds.length ≤ st.length)
    (h : readings? s kinds.reverse (st.take kinds.length) = some us) :
    ReadAs s kinds (st.take kinds.length).reverse us.reverse := by
  have hlength : (st.take kinds.length).reverse.length = kinds.length := by
    rw [List.length_reverse, List.length_take_of_le hlen]
  have hall := readings?_reverse (s := s) hlength
  rw [List.reverse_reverse, h] at hall
  obtain ⟨us', hus', hreverse⟩ := Option.map_eq_some_iff.1 hall.symm
  rw [← readings?_eq_some, hus', ← hreverse, List.reverse_reverse]

/-- How the extraction ends, for both ways to treat a mismatch, on every stack with the values that count on top. -/
inductive Ending (s : State) (kinds : List Kind) (st : List Value) (j : Nat) : Prop
  | resumes (message : String) (t : State) (hmessage : Burdened s (st.take j) message)
    (hrun : ∀ mode c st', st'.take j = st.take j → popAll mode kinds c ⟨st', s⟩ = .stopped (.carried message) t)
  | reads (us : List Host.Value) (log : List Event) (hclear : ¬∃ message, Burdened s (st.take j) message)
    (hj : j = kinds.length) (hus : ReadAs s kinds (st.take kinds.length).reverse us)
    (hrun : ∀ mode c st', st'.take j = st.take j →
      popAll mode kinds c ⟨st', s⟩ = .done us ⟨st'.drop j, { s with log }⟩)
  | refuses (k : Kind) (log : List Event) (hclear : ¬∃ message, Burdened s (st.take j) message)
    (hj : j < kinds.length) (hrun : ∀ mode c st', st'.take j = st.take j → st'[j]? = st[j]? →
      popAll mode kinds c ⟨st', s⟩ = mismatch mode k st[j]? c ⟨st'.drop j, { s with log }⟩)

theorem Matches.ending (h : Matches s kinds.reverse st j) (hst : ∀ r, .table r ∈ st.take kinds.length → Acyclic s r) :
    Ending s kinds st j := by
  have hst' : ∀ r, .table r ∈ st.take kinds.reverse.length → Acyclic s r := by rwa [List.length_reverse]
  by_cases hwaiting : ∃ message, Burdened s (st.take j) message
  · obtain ⟨message, t, hmessage, hrun⟩ := h.stopped hst' hwaiting
    exact .resumes message t hmessage fun mode c st' htop => popAll_stopped (hrun mode c st' htop)
  · obtain ⟨log, ⟨hj, us, hus, hrun⟩ | ⟨k, hk, hrun⟩⟩ := h.ended hst' hwaiting
    · rw [List.length_reverse] at hj hus
      have hlen : kinds.length ≤ st.length := hj ▸ h.le_length
      exact .reads us.reverse log hwaiting hj (readAs_of_readings hlen hus) fun mode c st' htop =>
        popAll_run (hrun mode c st' htop)
    · have hj : j < kinds.length := by simpa using (List.getElem?_eq_some_iff.1 hk).1
      exact .refuses k log hwaiting hj fun mode c st' htop hnext => popAll_mismatch (hrun mode c st' htop hnext)

/-- An outcome with more values under those that are left. -/
def Outcome.over {α : Type} (st : List Value) : Outcome α → Outcome α
  | .done a f => .done a { f with stack := f.stack ++ st }
  | .failed e f => .failed e { f with stack := f.stack ++ st }
  | .stopped fault t => .stopped fault t
  | .exhausted => .exhausted

theorem mismatch_over {α : Type} (mode : Extraction) (k : Kind) (top : Option Value) (c : Channel) (st st' : List Value)
    (t : State) : (mismatch mode k top c ⟨st ++ st', t⟩ : Outcome α) = (mismatch mode k top c ⟨st, t⟩).over st' := by
  cases mode with
  | checked => rfl
  | strict =>
    unfold mismatch
    cases isAbsent top <;> rfl

/-- Values under those that are asked for are neither read nor changed. -/
theorem popAll_over (hst : ∀ r, .table r ∈ st.take kinds.length → Acyclic s r)
    (mode : Extraction) (c : Channel) : popAll mode kinds c ⟨st, s⟩ =
      (popAll mode kinds c ⟨st.take kinds.length, s⟩).over (st.drop kinds.length) := by
  obtain ⟨j, hj⟩ := exists_matches s kinds.reverse st
  have hle : j ≤ kinds.length := by simpa using hj.le
  have htop : (st.take kinds.length).take j = st.take j := by rw [List.take_take, Nat.min_eq_left hle]
  have hrest : (st.take kinds.length).drop j ++ st.drop kinds.length = st.drop j := by
    have hlt : j ≤ (st.take kinds.length).length := by simpa using ⟨hle, hj.le_length⟩
    rw [← List.drop_append_of_le_length hlt, List.take_append_drop]
  cases hj.ending hst with
  | resumes message t _ hrun => rw [hrun mode c st rfl, hrun mode c _ htop, Outcome.over]
  | reads us log _ _ _ hrun => rw [hrun mode c st rfl, hrun mode c _ htop, Outcome.over, hrest]
  | refuses k log _ hlt hrun =>
    have hnext : (st.take kinds.length)[j]? = st[j]? := List.getElem?_take_of_lt hlt
    rw [hrun mode c st rfl rfl, hrun mode c _ htop hnext, ← mismatch_over, hrest]

/-- What passes its check can be constructed: a table is popped by it, all else stays. -/
theorem construct_of_passes {k : Kind} {w : Value} (h : Passes s k w) (hw : ∀ r, w = .table r → Acyclic s r)
    (hclear : ¬∃ message, Burdened s [w] message) (c : Channel) (st : List Value) :
    ∃ u log, reading? s k w = some u ∧
      construct k c ⟨w :: st, s⟩ = .done u ⟨if k = .table then st else w :: st, { s with log }⟩ := by
  obtain ⟨u, hu⟩ := passes_iff.1 h
  by_cases hk : k = .table
  · subst hk
    cases w with
    | table r =>
      have hclear' : ∀ message, ¬Waiting s r message := fun message hm =>
        hclear ⟨message, burdened_table.2 hm⟩
      have htake := (takeTable_settles (hw r rfl)).clear hclear' s.log c st
      exact ⟨_, _, rfl, bind_done htake _⟩
    | _ => cases hu
  · exact ⟨u, s.log, hu, by rw [if_neg hk]; exact construct_run hu hk c st s.log⟩

/-- Checked extraction succeeds if and only if there is a value for each kind and every one passes its check; it
answers what they read as in declared order and takes off just them. Otherwise it answers a mismatch and has
taken off the values before the first that does not pass. Only a fault that waits in a table it reads can
stop it. It neither reads nor changes a value under those that are asked for, and what passes a check can be
constructed. -/
theorem popAll_checked (hst : ∀ r, .table r ∈ st.take kinds.length → Acyclic s r) (c : Channel) :
    ∃ j, Matches s kinds.reverse st j ∧
      ((∃ message, Burdened s (st.take j) message) → ∃ message t, Burdened s (st.take j) message ∧
        popAll .checked kinds c ⟨st, s⟩ = .stopped (.carried message) t) ∧
      ((¬∃ message, Burdened s (st.take j) message) →
        (Fits s kinds st → ∃ us log, ReadAs s kinds (st.take kinds.length).reverse us ∧
          popAll .checked kinds c ⟨st, s⟩ = .done us ⟨st.drop kinds.length, { s with log }⟩) ∧
        (¬Fits s kinds st → ∃ e log, e.code = .typeMismatch ∧
          popAll .checked kinds c ⟨st, s⟩ = .failed e ⟨st.drop j, { s with log }⟩)) ∧
      popAll .checked kinds c ⟨st, s⟩ =
        (popAll .checked kinds c ⟨st.take kinds.length, s⟩).over (st.drop kinds.length) ∧
      ∀ k w st', Passes s k w → (∀ r, w = .table r → Acyclic s r) → (¬∃ message, Burdened s [w] message) →
        ∃ u log, reading? s k w = some u ∧
          construct k c ⟨w :: st', s⟩ = .done u ⟨if k = .table then st' else w :: st', { s with log }⟩ := by
  obtain ⟨j, hj⟩ := exists_matches s kinds.reverse st
  refine ⟨j, hj, fun hwaiting => ?_, fun hclear => ?_, popAll_over hst .checked c,
    fun k w st' h hw hclear => construct_of_passes h hw hclear c st'⟩
  · cases hj.ending hst with
    | resumes message t hmessage hrun => exact ⟨message, t, hmessage, hrun .checked c st rfl⟩
    | reads _ _ hclear | refuses _ _ hclear => exact absurd hwaiting hclear
  · cases hj.ending hst with
    | resumes message _ hmessage => exact absurd ⟨message, hmessage⟩ hclear
    | reads us log _ hn hus hrun =>
      exact ⟨fun _ => ⟨us, log, hus, hn ▸ hrun .checked c st rfl⟩, fun hfits => absurd (hj.fits_iff.2 hn) hfits⟩
    | refuses k log _ hlt hrun =>
      refine ⟨fun hfits => absurd (hj.fits_iff.1 hfits) (Nat.ne_of_lt hlt), fun _ => ?_⟩
      exact ⟨.slotMismatch k (found st[j]?), log, rfl, hrun .checked c st rfl rfl⟩

theorem sharingState_fits (st : List Value) :
    Fits sharingState [.number, .table] (.table 1 :: .ofString "7" :: st) := by
  refine ⟨by simp, fun i k hk => ?_⟩
  have hnumber : toNumber? (.ofString "7") = some (.ofNat 7) := by decide +kernel
  match i with
  | 0 =>
    cases hk
    refine ⟨.ofString "7", rfl, passes_iff.2 ⟨.number (.ofNat 7), ?_⟩⟩
    rw [reading?, hnumber]
    rfl
  | 1 =>
    cases hk
    exact ⟨.table 1, rfl, passes_iff.2 ⟨_, rfl⟩⟩

theorem sharingState_unburdened (ws : List Value) : ¬∃ message, Burdened sharingState ws message := by
  rintro ⟨message, r, -, hwaiting⟩
  exact sharingState_clear r message hwaiting

/-- A string that spells a number is read under a table, and the value under both stays. -/
theorem popAll_checked_sharing :
    (∀ r, .table r ∈ [Value.table 1, .ofString "7", .pointer 9].take [Kind.number, .table].length →
      Acyclic sharingState r) ∧
      ∃ us log, ReadAs sharingState [.number, .table] [.ofString "7", .table 1] us ∧
        popAll .checked [.number, .table] Channel.idle
          ⟨[.table 1, .ofString "7", .pointer 9], sharingState⟩ =
            .done us ⟨[.pointer 9], { sharingState with log }⟩ := by
  have hst : ∀ r, .table r ∈ [Value.table 1, .ofString "7", .pointer 9].take [Kind.number, .table].length →
      Acyclic sharingState r := fun r _ => sharingState_acyclic r
  obtain ⟨j, -, -, hclear, -⟩ := popAll_checked hst Channel.idle
  obtain ⟨us, log, hus, hrun⟩ := (hclear (sharingState_unburdened _)).1 (sharingState_fits [.pointer 9])
  exact ⟨hst, us, log, hus, hrun⟩

theorem holdingState_fits : Fits holdingState [.table] [.table 2] := by
  refine ⟨by decide, fun i k hk => ?_⟩
  match i with
  | 0 =>
    cases hk
    exact ⟨.table 2, rfl, passes_iff.2 ⟨_, rfl⟩⟩

/-- The one value on the stack passes its check, but a fault waits in it. -/
theorem popAll_checked_stops_on_kept_fault :
    holdingState.Reachable ∧ Acyclic holdingState 2 ∧ Fits holdingState [.table] [.table 2] ∧ ∃ t,
      popAll .checked [.table] Channel.idle ⟨[.table 2], holdingState⟩ =
        .stopped (.carried (Fault.wrongArity 0 1).message) t := by
  refine ⟨holdingState_reachable, holdingState_acyclic, holdingState_fits, _, rfl⟩

/-- The two ways to extract part at a mismatch alone. -/
theorem popAll_modes (hst : ∀ r, .table r ∈ st.take kinds.length → Acyclic s r) (c : Channel) :
    (∃ us f, popAll .strict kinds c ⟨st, s⟩ = .done us f ∧ popAll .checked kinds c ⟨st, s⟩ = .done us f) ∨
      (∃ e f fault t, e.code = .typeMismatch ∧ popAll .checked kinds c ⟨st, s⟩ = .failed e f ∧
        popAll .strict kinds c ⟨st, s⟩ = .stopped fault t) ∨
      ∃ message t, Burdened s (st.take kinds.length) message ∧
        popAll .strict kinds c ⟨st, s⟩ = .stopped (.carried message) t ∧
        popAll .checked kinds c ⟨st, s⟩ = .stopped (.carried message) t := by
  obtain ⟨j, hj⟩ := exists_matches s kinds.reverse st
  have hle : j ≤ kinds.length := by simpa using hj.le
  cases hj.ending hst with
  | resumes message t hmessage hrun =>
    have hall : Burdened s (st.take kinds.length) message := hmessage.mono (List.take_subset_take_left st hle)
    exact .inr (.inr ⟨message, t, hall, hrun .strict c st rfl, hrun .checked c st rfl⟩)
  | reads us log _ _ _ hrun => exact .inl ⟨us, _, hrun .strict c st rfl, hrun .checked c st rfl⟩
  | refuses k log _ _ hrun =>
    obtain ⟨fault, t, hstopped⟩ := mismatch_strict k st[j]? c ⟨st.drop j, { s with log }⟩
    exact .inr (.inl ⟨_, _, fault, t, rfl, hrun .checked c st rfl rfl, (hrun .strict c st rfl rfl).trans hstopped⟩)

/-- What the arguments of a call must be for the call to take them. -/
def Accepts (s : State) (kinds : List Kind) (st : List Value) : Prop :=
  st.length = kinds.length ∧ Fits s kinds st ∧ ¬∃ message, Burdened s st message

/-- Both ways to extract give the same values and leave the same stack and state, or the one answers a mismatch
where the other stops, or the same fault that waits in a table stops both. So the arguments of a call are taken
if the stack holds just one value for each of them and every one passes its check; they are what the values
read as, in declared order, and nothing is left. All else stops the call. -/
theorem popAll_strict (hst : ∀ r, .table r ∈ st.take kinds.length → Acyclic s r) (c : Channel) :
    ((∃ us f, popAll .strict kinds c ⟨st, s⟩ = .done us f ∧ popAll .checked kinds c ⟨st, s⟩ = .done us f) ∨
      (∃ e f fault t, e.code = .typeMismatch ∧ popAll .checked kinds c ⟨st, s⟩ = .failed e f ∧
        popAll .strict kinds c ⟨st, s⟩ = .stopped fault t) ∨
      ∃ message t, Burdened s (st.take kinds.length) message ∧
        popAll .strict kinds c ⟨st, s⟩ = .stopped (.carried message) t ∧
        popAll .checked kinds c ⟨st, s⟩ = .stopped (.carried message) t) ∧
    (Accepts s kinds st → ∃ us log, ReadAs s kinds st.reverse us ∧
      args kinds c ⟨st, s⟩ = .done us ⟨[], { s with log }⟩) ∧
    (¬Accepts s kinds st → ∃ fault t, args kinds c ⟨st, s⟩ = .stopped fault t) := by
  have hmodes := popAll_modes hst c
  refine ⟨hmodes, ?_⟩
  by_cases hlen : st.length = kinds.length
  · have hargs : args kinds c ⟨st, s⟩ = popAll .strict kinds c ⟨st, s⟩ := by
      rw [args, depth_bind, if_pos hlen]
    obtain ⟨j, hj⟩ := exists_matches s kinds.reverse st
    rw [hargs]
    cases hj.ending hst with
    | resumes message t hmessage hrun =>
      have hall : Burdened s st message := hmessage.mono (List.take_subset j st)
      exact ⟨fun haccepts => absurd ⟨message, hall⟩ haccepts.2.2, fun _ => ⟨_, t, hrun .strict c st rfl⟩⟩
    | reads us log hclear hn hus hrun =>
      have hdone := hrun .strict c st rfl
      rw [hn, ← hlen, List.take_length] at hclear
      rw [← hlen, List.take_length] at hus
      rw [hn, ← hlen, List.drop_length] at hdone
      exact ⟨fun _ => ⟨us, log, hus, hdone⟩, fun hrefused => absurd ⟨hlen, hj.fits_iff.2 hn, hclear⟩ hrefused⟩
    | refuses k log _ hlt hrun =>
      obtain ⟨fault, t, hstopped⟩ := mismatch_strict k st[j]? c ⟨st.drop j, { s with log }⟩
      refine ⟨fun haccepts => absurd (hj.fits_iff.1 haccepts.2.1) (Nat.ne_of_lt hlt), fun _ => ?_⟩
      exact ⟨fault, t, (hrun .strict c st rfl rfl).trans hstopped⟩
  · have hargs : ∃ fault t, args kinds c ⟨st, s⟩ = .stopped fault t := by
      rw [args, depth_bind, if_neg hlen]
      exact ⟨_, _, rfl⟩
    exact ⟨fun haccepts => absurd haccepts.1 hlen, fun _ => hargs⟩

/-- A call with a string that spells a number, and a table. -/
theorem popAll_strict_sharing :
    (∀ r, .table r ∈ [Value.table 1, .ofString "7"].take [Kind.number, .table].length → Acyclic sharingState r) ∧
      ∃ us log, ReadAs sharingState [.number, .table] [.ofString "7", .table 1] us ∧
        args [.number, .table] Channel.idle
          ⟨[.table 1, .ofString "7"], sharingState⟩ = .done us ⟨[], { sharingState with log }⟩ := by
  have hst : ∀ r, .table r ∈ [Value.table 1, .ofString "7"].take [Kind.number, .table].length →
      Acyclic sharingState r := fun r _ => sharingState_acyclic r
  obtain ⟨-, haccepted, -⟩ := popAll_strict hst Channel.idle
  obtain ⟨us, log, hus, hrun⟩ := haccepted ⟨rfl, sharingState_fits [], sharingState_unburdened _⟩
  exact ⟨hst, us, log, hus, hrun⟩

/-- A fault that waits stops both ways to extract, and the call whose one argument passes its check. -/
theorem args_stop_on_kept_fault :
    holdingState.Reachable ∧ Acyclic holdingState 2 ∧ Fits holdingState [.table] [.table 2] ∧
      (∀ mode, ∃ t, popAll mode [.table] Channel.idle
        ⟨[.table 2], holdingState⟩ = .stopped (.carried (Fault.wrongArity 0 1).message) t) ∧
      ∃ t, args [.table] Channel.idle ⟨[.table 2], holdingState⟩ =
        .stopped (.carried (Fault.wrongArity 0 1).message) t := by
  refine ⟨holdingState_reachable, holdingState_acyclic, holdingState_fits, fun mode => ?_, _, rfl⟩
  cases mode <;> exact ⟨_, rfl⟩

end Declared

end ScriptHost.Exchange
