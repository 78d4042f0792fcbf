import ScriptHost.Proofs.Operations
import ScriptHost.Proofs.Reading
import ScriptHost.Proofs.Samples

/-! Calls of global functions by the host, told apart by how they end. A global that is no function is
not called, an error of the function is reported, and the results are read one by one, each at its own
position. What can come between is a fault that a script has kept in an error object. -/

namespace ScriptHost.Exchange

open Script (State TableRef FunctionRef Value)
open Script.State (Reachable)
open Host (Code Error Fault Kind Table)

/-! ### The parts of a call -/

/-- What becomes of the outcome of the protected call. -/
def finish (kinds : List Kind) : Except String Unit → Exchange (List Host.Value)
  | .ok () => popAll .checked kinds
  | .error message => fail (.scriptFailed message)

/-- A call without the care for the stack around it. -/
def calling (name : String) (vs : List Host.Value) (kinds : List Kind) : Exchange (List Host.Value) := do
  pushGlobal name
  if (← topKind) = some .function then
    pushAll vs
    let outcome ← protectedCall vs.length kinds.length
    finish kinds outcome
  else
    let what := describe (← peek)
    pop 1
    fail (.notCallable name what)

theorem runFunction_eq (name : String) (vs : List Host.Value) (kinds : List Kind) :
    runFunction name vs kinds = (do
      let base ← depth
      let result ← settle (balanced (calling name vs kinds))
      let d ← depth
      if d = base then ofResult result else stop (.unbalancedCall name d base)) := rfl

variable {c : Channel} {st : List Value} {s t : State} {name : String} {vs : List Host.Value} {kinds : List Kind}

theorem runFunction_done {us : List Host.Value} (h : calling name vs kinds c ⟨st, s⟩ = .done us ⟨st, t⟩) :
    runFunction name vs kinds c ⟨st, s⟩ = .done us ⟨st, t⟩ := by
  have hsettle : settle (balanced (calling name vs kinds)) c ⟨st, s⟩ = .done (.ok us) ⟨st, t⟩ := by
    rw [settle, balanced_done h]
  rw [runFunction_eq, depth_bind, bind_done hsettle, depth_bind, if_pos rfl]
  rfl

/-- What a failed call has left above the stack is cut away. -/
theorem runFunction_failed {e : Error} (rest : List Value)
    (h : calling name vs kinds c ⟨st, s⟩ = .failed e ⟨rest ++ st, t⟩) :
    runFunction name vs kinds c ⟨st, s⟩ = .failed e ⟨st, t⟩ := by
  have hbalanced : balanced (calling name vs kinds) c ⟨st, s⟩ = .failed e ⟨st, t⟩ := by
    rw [balanced, h]
    simp
  have hsettle : settle (balanced (calling name vs kinds)) c ⟨st, s⟩ = .done (.error e) ⟨st, t⟩ := by
    rw [settle, hbalanced]
  rw [runFunction_eq, depth_bind, bind_done hsettle, depth_bind, if_pos rfl]
  rfl

theorem runFunction_stopped {fault : Fault} (h : calling name vs kinds c ⟨st, s⟩ = .stopped fault t) :
    runFunction name vs kinds c ⟨st, s⟩ = .stopped fault t := by
  rw [runFunction_eq, depth_bind, bind_run, settle, balanced, h]

theorem runFunction_exhausted (h : calling name vs kinds c ⟨st, s⟩ = .exhausted) :
    runFunction name vs kinds c ⟨st, s⟩ = .exhausted := by
  rw [runFunction_eq, depth_bind, bind_run, settle, balanced, h]

/-- A call that comes down to an exchange which falters does so too. -/
theorem runFunction_falters {faulty : String → Prop} {deep : Prop} {m : Exchange (List Host.Value)}
    (hcalling : calling name vs kinds c ⟨st, s⟩ = m c ⟨st, t⟩) (h : Falters t faulty deep [] m t.log) :
    (∃ fault t', faulty fault.message ∧ runFunction name vs kinds c ⟨st, s⟩ = .stopped fault t') ∨
      deep ∧ runFunction name vs kinds c ⟨st, s⟩ = .exhausted := by
  rcases h with ⟨fault, t', hstopped, hfault⟩ | ⟨hexhausted, hdeep⟩
  · exact .inl ⟨fault, t', hfault, runFunction_stopped (hcalling.trans (hstopped c st))⟩
  · exact .inr ⟨hdeep, runFunction_exhausted (hcalling.trans (hexhausted c st))⟩

/-! ### Reaching the function -/

theorem calling_of_not_function {v : Value} (h : pushGlobal name c ⟨st, s⟩ = .done () ⟨v :: st, t⟩)
    (hv : ∀ r, v ≠ .function r) :
    calling name vs kinds c ⟨st, s⟩ = .failed (.notCallable name v.description) ⟨st, t⟩ := by
  have hkind : ¬(v :: st).head?.bind Kind.of? = some .function := by
    cases v with
    | function r => exact absurd rfl (hv r)
    | _ => exact nofun
  rw [calling, bind_done h, topKind_bind, if_neg hkind]
  rfl

/-- The call of a global reaches a function, and these are the arguments that it is called with. -/
def Invokes (c : Channel) (st : List Value) (s : State) (name : String) (vs : List Host.Value) (r : FunctionRef)
    (xs : List Value) (s' : State) : Prop :=
  ∃ s₀, pushGlobal name c ⟨st, s⟩ = .done () ⟨.function r :: st, s₀⟩ ∧ xs.length = vs.length ∧
    pushAll vs c ⟨.function r :: st, s₀⟩ = .done () ⟨xs.reverse ++ .function r :: st, s'⟩

theorem Invokes.calling {r : FunctionRef} {xs : List Value} {s' : State} (h : Invokes c st s name vs r xs s') :
    calling name vs kinds c ⟨st, s⟩ =
      (attempt (fun call site => call r xs (site.callSite none)) >>= fun outcome =>
        deliver kinds.length outcome >>= finish kinds) c ⟨st, s'⟩ := by
  obtain ⟨s₀, hpush, hlen, hargs⟩ := h
  have hkind : (Value.function r :: st).head?.bind Kind.of? = some .function := rfl
  rw [Exchange.calling, bind_done hpush, topKind_bind, if_pos hkind, bind_done hargs, ← bind_bind, bind_run,
    ← hlen, ← xs.length_reverse, protectedCall_eq, List.reverse_reverse]
  rfl

/-! ### Reading the results -/

/-- The results of a call, cut short or filled up with nil. -/
def kept (n : Nat) (ws : List Value) : List Value := (ws ++ List.replicate n Value.nil).take n

theorem length_kept (n : Nat) (ws : List Value) : (kept n ws).length = n := by simp [kept]

/-- An exchange with values put on the stack beforehand. -/
def above {α : Type} (xs : List Value) (m : Exchange α) : Exchange α := fun c f => m c ⟨xs ++ f.stack, f.state⟩

/-- The results cross as they are, and are then read as far as they count. -/
theorem deliver_finish (ws : List Value) (kinds : List Kind) :
    deliver kinds.length (.ok ws) >>= finish kinds =
      receiveAll ws >>= fun ws => above (kept kinds.length ws).reverse (popAll .checked kinds) := by
  funext c f
  exact bind_bind ..

theorem readings?_kept (ws : List Value) :
    readings? s kinds (kept kinds.length (ws.map (received s))) = readings? s kinds ws := by
  rw [kept, readings?_fill _ _ (Nat.le_refl _), readings?_received]

section Results

variable {faulty : String → Prop} {deep : Prop} {ws : List Value}

/-- What is read of the results was among the first of them. -/
theorem SlotsYield.kept {n : Nat} (h : SlotsYield s faulty deep .checked (ws.take n)) :
    SlotsYield s faulty deep .checked (kept n (ws.map (received s))) := by
  intro w hw k u hu
  refine h w ?_ k u hu
  have hnil : w ≠ .nil := by
    rintro rfl
    rw [reading?_nil] at hu
    cases hu
  rw [Exchange.kept, List.take_append, List.mem_append, ← List.map_take] at hw
  rcases hw with hw | hw
  · obtain ⟨v, hv, rfl⟩ := List.mem_map.1 hw
    cases v with
    | failure r =>
      rw [reading?_received] at hu
      cases k <;> cases hu
    | _ => exact hv
  · exact absurd (List.eq_of_mem_replicate (List.mem_of_mem_take hw)) hnil

theorem receiveAll_faulty (deep : Prop) (hwaits : ∀ w ∈ ws, ∀ message, Waits s message w → faulty message) :
    Yields s faulty deep [] (receiveAll ws) (ws.map (received s)) :=
  (receiveAll_yields ws).mono (fun message ⟨w, hw, h⟩ => hwaits w hw message h) False.elim

theorem deliver_yields (hwaits : ∀ w ∈ ws, ∀ message, Waits s message w → faulty message)
    (hslots : SlotsYield s faulty deep .checked (ws.take kinds.length)) {us : List Host.Value}
    (h : readings? s kinds ws = some us) :
    Yields s faulty deep [] (deliver kinds.length (.ok ws) >>= finish kinds) us := by
  have hread := popAll_yields hslots.kept (length_kept _ _) ((readings?_kept ws).trans h)
  rw [deliver_finish]
  exact (receiveAll_faulty deep hwaits).seq (g := fun ws => above (kept kinds.length ws).reverse _) hread

theorem deliver_refuses (hwaits : ∀ w ∈ ws, ∀ message, Waits s message w → faulty message)
    (hslots : SlotsYield s faulty deep .checked (ws.take kinds.length)) (h : readings? s kinds ws = none) :
    Refuses s faulty deep [] (deliver kinds.length (.ok ws) >>= finish kinds) := by
  have hread := popAll_refuses hslots.kept (length_kept _ _) ((readings?_kept ws).trans h)
  rw [deliver_finish]
  exact (receiveAll_faulty deep hwaits).refuses (g := fun ws => above (kept kinds.length ws).reverse _) hread

end Results

/-! ### The call -/

section Call

variable {r : FunctionRef} {xs : List Value} {s' : State} (kinds)

theorem Invokes.returned (h : Invokes c st s name vs r xs s') {ws : List Value}
    (hcall : c.call r xs (c.site.callSite none) s' = .done ws t) :
    Exchange.calling name vs kinds c ⟨st, s⟩ = (deliver kinds.length (.ok ws) >>= finish kinds) c ⟨st, t⟩ := by
  have hattempt : attempt (fun call site => call r xs (site.callSite none)) c ⟨st, s'⟩ = .done (.ok ws) ⟨st, t⟩ := by
    rw [attempt, hcall]
  rw [h.calling, bind_done hattempt]

/-- An error of the function is reported by its message. -/
theorem Invokes.raised (h : Invokes c st s name vs r xs s') {v : Value}
    (hcall : c.call r xs (c.site.callSite none) s' = .raised v t) (hv : ¬∃ message, Waits t message v) :
    Exchange.calling name vs kinds c ⟨st, s⟩ = .failed (.scriptFailed (errorMessage t v))
      ⟨st, t.emit .stack .debug ("Protected call failed: " ++ errorMessage t v)⟩ := by
  have hattempt : attempt (fun call site => call r xs (site.callSite none)) c ⟨st, s'⟩ =
      .done (.error (errorMessage t v)) ⟨st, t⟩ := by
    rw [attempt, hcall]
    cases v with
    | failure q =>
      cases hq : t.failure q with
      | fatal message => exact absurd ⟨message, q, rfl, hq⟩ hv
      | _ => simp [hq]
    | _ => rfl
  rw [h.calling, bind_done hattempt]
  rfl

/-- A fault of a host function goes through to the host. -/
theorem Invokes.raised_waiting (h : Invokes c st s name vs r xs s') {v : Value}
    (hcall : c.call r xs (c.site.callSite none) s' = .raised v t) {message : String} (hv : Waits t message v) :
    ∃ t', Exchange.calling name vs kinds c ⟨st, s⟩ = .stopped (.carried message) t' := by
  obtain ⟨q, rfl, hq⟩ := hv
  have hattempt : attempt (fun call site => call r xs (site.callSite none)) c ⟨st, s'⟩ =
      .stopped (.carried message) (t.spend q) := by
    rw [attempt, hcall]
    simp only [hq]
  exact ⟨_, by rw [h.calling, bind_run, hattempt]⟩

/-- Faults that wait in the results of a call, the tables among the first of them included. -/
def Pending (s : State) (n : Nat) (ws : List Value) (message : String) : Prop :=
  (∃ w ∈ ws, Waits s message w) ∨ LadenAmong s (ws.take n) message

/-- The results are read one by one, unless a fault that waits in them comes between or a table among
them goes too deep. -/
theorem Invokes.read (h : Invokes c st s name vs r xs s') {ws : List Value}
    (hcall : c.call r xs (c.site.callSite none) s' = .done ws t) :
    (∃ us t', ReadAs t kinds ws us ∧ runFunction name vs kinds c ⟨st, s⟩ = .done us ⟨st, t'⟩) ∨
    ((¬∃ us, ReadAs t kinds ws us) ∧
      ∃ e t', e.code = .typeMismatch ∧ runFunction name vs kinds c ⟨st, s⟩ = .failed e ⟨st, t'⟩) ∨
    (∃ fault t', Pending t kinds.length ws fault.message ∧
      runFunction name vs kinds c ⟨st, s⟩ = .stopped fault t') ∨
    DeepAmong t (ws.take kinds.length) ∧ runFunction name vs kinds c ⟨st, s⟩ = .exhausted := by
  have hwaits : ∀ w ∈ ws, ∀ message, Waits t message w → Pending t kinds.length ws message :=
    fun w hw message h => .inl ⟨w, hw, h⟩
  have hslots := (slotsYield_among (s := t) .checked (ws.take kinds.length)).mono
    (fun message h => (Or.inr h : Pending t kinds.length ws message)) id
  have hcalling := h.returned kinds hcall
  cases hus : readings? t kinds ws with
  | some us =>
    rcases deliver_yields hwaits hslots hus t.log with ⟨log', hdone⟩ | hfalters
    · exact .inl ⟨us, _, readings?_eq_some.1 hus, runFunction_done (hcalling.trans (hdone c st))⟩
    · exact .inr (.inr (runFunction_falters hcalling hfalters))
  | none =>
    have hread : ¬∃ us, ReadAs t kinds ws us := by
      rintro ⟨us, hus'⟩
      rw [readings?_eq_some.2 hus'] at hus
      cases hus
    rcases deliver_refuses hwaits hslots hus t.log with ⟨e, rest, log', he, hfailed⟩ | hfalters
    · exact .inr (.inl ⟨hread, e, _, he, runFunction_failed rest (hcalling.trans (hfailed c st))⟩)
    · exact .inr (.inr (runFunction_falters hcalling hfalters))

end Call

/-! ### Failures -/

/-- An ending with an error of this code. -/
def Outcome.FailsWith {α : Type} (code : Code) : Outcome α → Prop
  | .failed e _ => e.code = code
  | .done .. | .stopped .. | .exhausted => False

theorem receive_not_failed (v : Value) {f f' : Frame} {e : Error} : receive v c f ≠ .failed e f' := by
  unfold receive
  split
  next r =>
    rw [state_bind]
    cases f.state.failure r <;> exact nofun
  next => exact nofun

theorem attempt_not_failed {α : Type} (m : Script.Call → Script.Site → Script.Eval α) {f f' : Frame} {e : Error} :
    attempt m c f ≠ .failed e f' := by
  unfold attempt
  split
  · exact nofun
  · split
    · split <;> exact nofun
    · exact nofun
  · exact nofun

theorem primitive_failed {α : Type} {m : Script.Call → Script.Site → Script.Eval α} {f f' : Frame} {e : Error}
    (h : primitive m c f = .failed e f') : e.code = .engine := by
  rcases of_bind_failed h with h | ⟨outcome, f₁, -, h⟩
  · exact absurd h (attempt_not_failed m)
  · cases outcome with
    | ok a => cases h
    | error message =>
      cases h
      rfl

/-- Only the engine itself can refuse to read a global. -/
theorem pushGlobal_failed {f f' : Frame} {e : Error} (h : pushGlobal name c f = .failed e f') : e.code = .engine := by
  rw [pushGlobal, state_bind] at h
  rcases of_bind_failed h with h | ⟨v, f₁, -, h⟩
  · rw [readFrom, state_bind] at h
    cases hm : f.state.metatable? f.state.globals with
    | none =>
      rw [hm] at h
      exact absurd h (receive_not_failed _)
    | some m =>
      rw [hm] at h
      rcases of_bind_failed h with h | ⟨v, f₁, -, h⟩
      · exact primitive_failed h
      · exact absurd h (receive_not_failed _)
  · cases h

variable {catalog : Catalog}

/-- Reading a global puts one value on the stack. -/
theorem pushGlobal_above (hcat : catalog.Lawful) (hc : c.Serves catalog) (st : List Value) (s : State)
    (name : String) :
    (pushGlobal name c ⟨st, s⟩).Above Script.State.Later s st fun _ ys => ∃ v, ys = [v] :=
  pushGlobal_works steady_later (serves_later hcat hc) name s

/-- Where the global is a function, its arguments are pushed as copies. -/
theorem invokes_of_function (hs : s.Reachable) (hcat : catalog.Lawful) (hc : c.Serves catalog) {r : FunctionRef}
    (hvs : ∀ v ∈ vs, v.Distinct) (h : pushGlobal name c ⟨st, s⟩ = .done () ⟨.function r :: st, t⟩) :
    ∃ xs s', Invokes c st s name vs r xs s' ∧ List.Forall₂ (IsCopy s') vs xs := by
  have hlater := pushGlobal_above hcat hc st s name
  rw [h] at hlater
  obtain ⟨xs, s', hpush, -, hcopies⟩ := pushAll_run vs hvs t (Script.State.Later.linked hlater.1 hs.linked)
  exact ⟨xs, s', ⟨t, h, hcopies.length_eq.symm, hpush c _⟩, hcopies⟩

/-! ### Calls told apart -/

/-- The global can be read and is no function. -/
def ReadsOther (c : Channel) (st : List Value) (s : State) (name : String) : Prop :=
  ∃ v t, pushGlobal name c ⟨st, s⟩ = .done () ⟨v :: st, t⟩ ∧ ∀ r, v ≠ .function r

/-- The function is called and raises an error, which is no fault that waits for the host. -/
def CallRaises (c : Channel) (st : List Value) (s : State) (name : String) (vs : List Host.Value) : Prop :=
  ∃ r xs s' v t, Invokes c st s name vs r xs s' ∧ c.call r xs (c.site.callSite none) s' = .raised v t ∧
    ¬∃ message, Waits t message v

theorem Outcome.failsWith_iff {α : Type} {code : Code} {o : Outcome α} :
    o.FailsWith code ↔ ∃ e f, o = .failed e f ∧ e.code = code := by
  cases o <;> simp [FailsWith]

theorem calling_failsWith {code : Code} (h : (runFunction name vs kinds c ⟨st, s⟩).FailsWith code) :
    (calling name vs kinds c ⟨st, s⟩).FailsWith code := by
  rw [runFunction_eq, depth_bind, bind_run, settle, balanced] at h
  cases hcalling : calling name vs kinds c ⟨st, s⟩ with
  | done us f =>
    rw [hcalling] at h
    simp only [depth_bind] at h
    split at h <;> exact h.elim
  | failed e f =>
    rw [hcalling] at h
    simp only [depth_bind] at h
    split at h
    · exact h
    · exact h.elim
  | stopped | exhausted =>
    rw [hcalling] at h
    exact h.elim

/-- Once the function is reached, an error is its own or a mismatch of its results. -/
theorem Invokes.failsWith {r : FunctionRef} {xs : List Value} {s' : State} (h : Invokes c st s name vs r xs s')
    {code : Code} (hfails : (runFunction name vs kinds c ⟨st, s⟩).FailsWith code) :
    (code = .functionError ∧ CallRaises c st s name vs) ∨ code = .typeMismatch := by
  cases hcall : c.call r xs (c.site.callSite none) s' with
  | done ws t =>
    rcases h.read kinds hcall with
      ⟨us, t', -, hrun⟩ | ⟨-, e, t', he, hrun⟩ | ⟨fault, t', -, hrun⟩ | ⟨-, hrun⟩ <;> rw [hrun] at hfails
    · exact hfails.elim
    · exact .inr (hfails.symm.trans he)
    · exact hfails.elim
    · exact hfails.elim
  | raised v t =>
    by_cases hv : ∃ message, Waits t message v
    · obtain ⟨message, hv⟩ := hv
      obtain ⟨t', hcalling⟩ := h.raised_waiting kinds hcall hv
      rw [runFunction_stopped hcalling] at hfails
      exact hfails.elim
    · rw [runFunction_failed [] (h.raised kinds hcall hv)] at hfails
      exact .inl ⟨hfails.symm, r, xs, s', v, t, h, hcall, hv⟩
  | exhausted =>
    have hattempt : attempt (fun call site => call r xs (site.callSite none)) c ⟨st, s'⟩ = .exhausted := by
      rw [attempt, hcall]
    have hcalling : Exchange.calling name vs kinds c ⟨st, s⟩ = .exhausted := by
      rw [h.calling, bind_run, hattempt]
    rw [runFunction_exhausted hcalling] at hfails
    exact hfails.elim

/-- Errors of a call, by where they come from. -/
theorem runFunction_failsWith (hs : s.Reachable) (hcat : catalog.Lawful) (hc : c.Serves catalog)
    (hvs : ∀ v ∈ vs, v.Distinct) {code : Code} (h : (runFunction name vs kinds c ⟨st, s⟩).FailsWith code) :
    (code = .notFunction ∧ ReadsOther c st s name) ∨ (code = .functionError ∧ CallRaises c st s name vs) ∨
      code = .typeMismatch ∨ code = .engine := by
  obtain ⟨e, f, hcalling, he⟩ := Outcome.failsWith_iff.1 (calling_failsWith h)
  rcases of_bind_failed hcalling with hpush | ⟨_, ⟨fs, t⟩, hpush, -⟩
  · exact .inr (.inr (.inr (he.symm.trans (pushGlobal_failed hpush))))
  · have hglobal := pushGlobal_above hcat hc st s name
    rw [hpush] at hglobal
    obtain ⟨-, ys, hys, v, rfl⟩ := hglobal
    obtain rfl : fs = v :: st := hys
    by_cases hv : ∃ r, v = .function r
    · obtain ⟨r, rfl⟩ := hv
      obtain ⟨xs, s', hinvokes, -⟩ := invokes_of_function hs hcat hc hvs hpush
      rcases hinvokes.failsWith h with hraises | hmismatch
      · exact .inr (.inl hraises)
      · exact .inr (.inr (.inl hmismatch))
    · have hv' : ∀ r, v ≠ .function r := fun r hr => hv ⟨r, hr⟩
      rw [runFunction_failed [] (calling_of_not_function hpush hv')] at h
      exact .inl ⟨h.symm, v, t, hpush, hv'⟩

/-- Values are read in one way only. -/
theorem ReadAs.unique {ws : List Value} {us us' : List Host.Value} (h : ReadAs s kinds ws us)
    (h' : ReadAs s kinds ws us') : us = us' :=
  Option.some.inj ((readings?_eq_some.2 h).symm.trans (readings?_eq_some.2 h'))

/-- With tables without cycles only a fault that waits can come between. -/
theorem Invokes.read_acyclic (kinds : List Kind) {r : FunctionRef} {xs : List Value} {s' : State}
    (h : Invokes c st s name vs r xs s') {ws : List Value} (hcall : c.call r xs (c.site.callSite none) s' = .done ws t)
    (hacyclic : ∀ q, .table q ∈ ws.take kinds.length → Acyclic t q) :
    (∃ us t', ReadAs t kinds ws us ∧ runFunction name vs kinds c ⟨st, s⟩ = .done us ⟨st, t'⟩) ∨
    ((¬∃ us, ReadAs t kinds ws us) ∧ (runFunction name vs kinds c ⟨st, s⟩).FailsWith .typeMismatch) ∨
    ∃ fault t', Pending t kinds.length ws fault.message ∧
      runFunction name vs kinds c ⟨st, s⟩ = .stopped fault t' := by
  rcases h.read kinds hcall with hdone | ⟨hread, e, t', he, hrun⟩ | hstopped | ⟨⟨q, hq, hdeep⟩, -⟩
  · exact .inl hdone
  · exact .inr (.inl ⟨hread, Outcome.failsWith_iff.2 ⟨e, _, hrun, he⟩⟩)
  · exact .inr (.inr hstopped)
  · exact absurd hdeep (hacyclic q hq).not_deep

/-- Every ending of a call is told apart. The global is no function just where the call is refused as
such. Where it is a function, copies of the arguments are passed to it, and its error is reported as one.
Of the values that it returns, the first are read each by the kind at its own position, and surplus values do
not count; what cannot be read, or is not there, is a mismatch. The one other ending is a fault that has
waited in the results. -/
theorem runFunction_classified (hcat : catalog.Lawful) (hc : c.Serves catalog) (hs : s.Reachable)
    (hvs : ∀ v ∈ vs, v.Distinct) (st : List Value) (name : String) (kinds : List Kind) :
    ((runFunction name vs kinds c ⟨st, s⟩).FailsWith .notFunction ↔ ReadsOther c st s name) ∧
    (∀ r t, pushGlobal name c ⟨st, s⟩ = .done () ⟨.function r :: st, t⟩ →
      ∃ xs s', Invokes c st s name vs r xs s' ∧ List.Forall₂ (IsCopy s') vs xs) ∧
    ((runFunction name vs kinds c ⟨st, s⟩).FailsWith .functionError ↔ CallRaises c st s name vs) ∧
    ∀ r xs s' ws t, Invokes c st s name vs r xs s' → c.call r xs (c.site.callSite none) s' = .done ws t →
      (∀ q, .table q ∈ ws.take kinds.length → Acyclic t q) →
      ((∃ us t', ReadAs t kinds ws us ∧ runFunction name vs kinds c ⟨st, s⟩ = .done us ⟨st, t'⟩) ∨
        ((¬∃ us, ReadAs t kinds ws us) ∧ (runFunction name vs kinds c ⟨st, s⟩).FailsWith .typeMismatch) ∨
        ∃ fault t', Pending t kinds.length ws fault.message ∧
          runFunction name vs kinds c ⟨st, s⟩ = .stopped fault t') ∧
      ((∀ message, ¬Pending t kinds.length ws message) →
        (∀ us, (∃ t', runFunction name vs kinds c ⟨st, s⟩ = .done us ⟨st, t'⟩) ↔ ReadAs t kinds ws us) ∧
        ((runFunction name vs kinds c ⟨st, s⟩).FailsWith .typeMismatch ↔ ¬∃ us, ReadAs t kinds ws us)) := by
  refine ⟨⟨fun h => ?_, ?_⟩, fun r t h => invokes_of_function hs hcat hc hvs h, ⟨fun h => ?_, ?_⟩, ?results⟩
  · rcases runFunction_failsWith hs hcat hc hvs h with ⟨-, hother⟩ | ⟨hcode, -⟩ | hcode | hcode
    · exact hother
    all_goals cases hcode
  · rintro ⟨v, t, hpush, hv⟩
    rw [runFunction_failed [] (calling_of_not_function hpush hv)]
    rfl
  · rcases runFunction_failsWith hs hcat hc hvs h with ⟨hcode, -⟩ | ⟨-, hraises⟩ | hcode | hcode
    · cases hcode
    · exact hraises
    all_goals cases hcode
  · rintro ⟨r, xs, s', v, t, hinvokes, hcall, hv⟩
    rw [runFunction_failed [] (hinvokes.raised kinds hcall hv)]
    rfl
  case results =>
    intro r xs s' ws t hinvokes hcall hacyclic
    have hread := hinvokes.read_acyclic kinds hcall hacyclic
    refine ⟨hread, fun hclear => ?_⟩
    rcases hread with ⟨us, t', hus, hrun⟩ | ⟨hnone, hfails⟩ | ⟨fault, t', hpending, -⟩
    · rw [hrun]
      refine ⟨fun us' => ⟨?_, fun hus' => ⟨t', by rw [hus.unique hus']⟩⟩, False.elim, fun hnone => hnone ⟨us, hus⟩⟩
      rintro ⟨t'', h⟩
      exact (Outcome.done.inj h).1 ▸ hus
    · refine ⟨fun us => ⟨?_, fun hus => absurd ⟨us, hus⟩ hnone⟩, fun _ => hnone, fun _ => hfails⟩
      rintro ⟨t', hrun⟩
      rw [hrun] at hfails
      exact hfails.elim
    · exact absurd hpending (hclear _)

/-- Of the two results of `assert` one counts, a string that spells a number. The caller has two values on its
stack. -/
theorem runFunction_classified_assert :
    Samples.catalog.Lawful ∧ (outermost Samples.catalog).Serves Samples.catalog ∧ State.fresh.Reachable ∧
      (∀ v ∈ [Host.Value.text "7", .boolean true], v.Distinct) ∧
      ∃ t', runFunction "assert" [.text "7", .boolean true] [.number] (outermost Samples.catalog)
        ⟨[.nil, .pointer 7], State.fresh⟩ = .done [.number (.ofNat 7)] ⟨[.nil, .pointer 7], t'⟩ := by
  have hfresh : State.fresh.Reachable := Relation.ReflTransGen.refl
  have hdistinct : ∀ v ∈ [Host.Value.text "7", .boolean true], v.Distinct := by simp [Host.Value.Distinct]
  obtain ⟨-, -, -, hresults⟩ := runFunction_classified Samples.catalog_lawful (outermost_serves _) hfresh hdistinct
    [.nil, .pointer 7] "assert" [.number]
  have hinvokes : Invokes (outermost Samples.catalog) [.nil, .pointer 7] State.fresh "assert"
      [.text "7", .boolean true] 0 [.ofString "7", .boolean true] State.fresh :=
    ⟨State.fresh, rfl, rfl, rfl⟩
  have hacyclic : ∀ q, .table q ∈ [Value.ofString "7", .boolean true].take 1 → Acyclic State.fresh q := by
    simp [Value.ofString]
  have hnumber : toNumber? (.ofString "7") = some (.ofNat 7) := by decide +kernel
  have hread : ReadAs State.fresh [.number] [.ofString "7", .boolean true] [.number (.ofNat 7)] := by
    rw [← readings?_eq_some, readings?, reading?, hnumber]
    rfl
  obtain ⟨-, hclear⟩ := hresults _ _ _ _ State.fresh hinvokes rfl hacyclic
  refine ⟨Samples.catalog_lawful, outermost_serves _, hfresh, hdistinct, ((hclear ?_).1 _).2 hread⟩
  rintro message (⟨w, hw, q, rfl, -⟩ | ⟨q, hq, -⟩)
  · simp [Value.ofString] at hw
  · simp [Value.ofString] at hq

/-- `pcall` catches the fault of a call with an argument too many, and returns its error object behind the
one value that counts. The value can be read, but the call stops. -/
theorem runFunction_stops_on_surplus_fault :
    State.fresh.Reachable ∧ ∃ s' t,
      Invokes (outermost Samples.catalog) [] State.fresh "pcall" [.function ⟨"ping"⟩, .number (.ofNat 1)] 7
        [.function 20, .number (.double (.ofNat 1))] s' ∧
      (outermost Samples.catalog).call 7 [.function 20, .number (.double (.ofNat 1))]
        (Script.Site.host.callSite none) s' = .done [.boolean false, .failure 0] t ∧
      (∀ q, .table q ∈ [Value.boolean false, .failure 0] → Acyclic t q) ∧
      ReadAs t [.boolean] [.boolean false, .failure 0] [.boolean false] ∧
      ∃ t', runFunction "pcall" [.function ⟨"ping"⟩, .number (.ofNat 1)] [.boolean] (outermost Samples.catalog)
        ⟨[], State.fresh⟩ = .stopped (.carried keptFault.message) t' := by
  refine ⟨.refl, _, _, ⟨State.fresh, rfl, rfl, rfl⟩, rfl, fun q hq => ?_, readings?_eq_some.1 rfl, _, rfl⟩
  simp at hq

end ScriptHost.Exchange
