import ScriptHost.Exchange.Engine
import ScriptHost.Proofs.Balance

/-! The whole engine over a catalog of lawful host functions. Scripts and host functions call each
other to any depth, so what holds across the writes of either holds across a run of both; the
error objects of host functions are the one write that comes from the engine itself. -/

namespace ScriptHost.Exchange

open Script (State Value Eval Call CallSite Site)
open Script.State (Later Reachable)
open Host (Error Fault)

/-- Every host function reaches the state only through the parts of an exchange. -/
def Catalog.Lawful (catalog : Catalog) : Prop := ∀ f, (catalog f).Lawful

/-- Every host function is put together from the parts of an exchange. -/
def Catalog.Composed (catalog : Catalog) : Prop := ∀ f, (catalog f).Composed

theorem Catalog.Composed.lawful {catalog : Catalog} (h : catalog.Composed) : catalog.Lawful := fun f => (h f).lawful

/-- The channel of code that an engine with these host functions runs, at any depth of calls. -/
def Channel.Serves (c : Channel) (catalog : Catalog) : Prop :=
  ∃ n, c.call = Script.Evaluation.callAt (hostCall catalog) n

theorem outermost_serves (catalog : Catalog) : (outermost catalog).Serves catalog := ⟨depthLimit, rfl⟩

/-- A host function at work on its own stack, and the check of the count that it answers. -/
def answer (body : Exchange Nat) : Exchange (List Value) := do
  let n ← body
  let d ← depth
  if n ≤ d then takeTop n else stop (.tooManyResults n d)

theorem resultsOf_eq (body : Exchange Nat) (args : List Value) :
    resultsOf body args = (do
      let vs ← receiveAll args
      setStack vs.reverse
      answer body) := rfl

/-- A call of some host function leads from the first state to the second and ends there on a fault
with this message. -/
def Raises (catalog : Catalog) (message : String) (s t : State) : Prop :=
  ∃ (n : Nat) (f : HostFunction) (st : List Value) (site : Site) (fault : Fault),
    answer (catalog f) ⟨Script.Evaluation.callAt (hostCall catalog) n, site⟩ ⟨st, s⟩ = .stopped fault t ∧
      fault.message = message

variable {R : State → State → Prop} {catalog : Catalog}

theorem hostCall_run (catalog : Catalog) (call : Call) (f : HostFunction) (args : List Value) (site : CallSite)
    (s : State) :
    hostCall catalog call f args site s =
      match resultsOf (catalog f) args ⟨call, ⟨none, site.callers⟩⟩ ⟨[], s⟩ with
      | .done vs frame => .done vs frame.state
      | .failed e frame => raiseFailure (.error e.text) frame.state
      | .stopped fault s => raiseFailure (.fatal fault.message) s
      | .exhausted => .exhausted := rfl

/-- The check of the count that a host function answers. -/
theorem counted_composed (n d : Nat) :
    (if n ≤ d then takeTop n else stop (.tooManyResults n d) : Exchange (List Value)).Composed := by
  split
  · exact takeTop_composed n
  · exact .stop _

theorem answer_keeps (hR : Steady R) {body : Exchange Nat} (hb : body.Keeps R) : (answer body).Keeps R :=
  Keeps.bind hR hb fun n => Composed.keeps hR (.bind depth_composed fun d => counted_composed n d)

/-- How a call of a host function can end. A fault has either come in with an argument or been raised
by the function itself. -/
theorem resultsOf_cases (hR : Steady R) (hcat : catalog.Lawful) {n : Nat}
    (hc : (Script.Evaluation.callAt (hostCall catalog) n).Keeps R) (f : HostFunction) (args : List Value)
    (site : Site) (s : State) :
    match resultsOf (catalog f) args ⟨Script.Evaluation.callAt (hostCall catalog) n, site⟩ ⟨[], s⟩ with
    | .done _ frame | .failed _ frame => R s frame.state
    | .stopped fault t =>
      (∃ u r, R s u ∧ u.failure r = .fatal fault.message ∧ t = u.spend r) ∨
        ∃ u, R s u ∧ R u t ∧ Raises catalog fault.message u t
    | .exhausted => True := by
  have hargs := receiveAll_neutral hR (c := ⟨Script.Evaluation.callAt (hostCall catalog) n, site⟩) args [] [] s
  rw [resultsOf_eq, bind_run]
  cases hr : receiveAll args ⟨Script.Evaluation.callAt (hostCall catalog) n, site⟩ ⟨[] ++ [], s⟩ with
  | done vs frame =>
    rw [hr] at hargs
    have hbody := answer_keeps hR (hcat f R hR) ⟨Script.Evaluation.callAt (hostCall catalog) n, site⟩ hc
      ⟨vs.reverse, frame.state⟩
    rw [List.append_nil] at hr
    simp only [hr, setStack_bind]
    cases ha : answer (catalog f) ⟨Script.Evaluation.callAt (hostCall catalog) n, site⟩
        ⟨vs.reverse, frame.state⟩ with
    | done ws frame' =>
      rw [ha] at hbody
      exact hR.trans hargs.1 hbody
    | failed e frame' =>
      rw [ha] at hbody
      exact hR.trans hargs.1 hbody
    | stopped fault t =>
      rw [ha] at hbody
      exact .inr ⟨frame.state, hargs.1, hbody, n, f, vs.reverse, site, fault, ha, rfl⟩
    | exhausted => trivial
  | failed e frame =>
    rw [hr] at hargs
    rw [List.append_nil] at hr
    simp only [hr]
    exact hargs.1
  | stopped fault t =>
    rw [hr] at hargs
    obtain ⟨message, u, r, rfl, hu, hur, ht⟩ := hargs
    rw [List.append_nil] at hr
    simp only [hr]
    exact .inl ⟨u, r, hu, hur, ht⟩
  | exhausted =>
    rw [List.append_nil] at hr
    simp only [hr]

/-- A relation holds across calls of any depth if it also allows the error objects of failed host
functions; a fault among them has been raised by a call that ends there, or passed on. -/
theorem serves_keeps (hR : Steady R) (hcat : catalog.Lawful)
    (herror : ∀ s text, R s (s.newFailure (.error text)).2)
    (hraised : ∀ s t message, R s t → Raises catalog message s t → R s (t.newFailure (.fatal message)).2)
    (hpassed : ∀ s r message, s.failure r = .fatal message → R s ((s.spend r).newFailure (.fatal message)).2)
    {c : Channel} (hc : c.Serves catalog) : c.call.Keeps R := by
  obtain ⟨n, hn⟩ := hc
  rw [hn]
  refine Script.Evaluation.callAt_keeps hR.toSteady (fun n ih s _ f _ args site => ?_) n
  have h := resultsOf_cases hR hcat ih f args ⟨none, site.callers⟩ s
  rw [hostCall_run]
  cases hrun : resultsOf (catalog f) args
      ⟨Script.Evaluation.callAt (hostCall catalog) n, ⟨none, site.callers⟩⟩ ⟨[], s⟩ with
  | done vs frame =>
    rw [hrun] at h
    exact h
  | failed e frame =>
    rw [hrun] at h
    exact hR.trans h (herror frame.state e.text)
  | stopped fault t =>
    rw [hrun] at h
    rcases h with ⟨u, r, hu, hur, rfl⟩ | ⟨u, hu, hut, hraise⟩
    · exact hR.trans hu (hpassed u r fault.message hur)
    · exact hR.trans hu (hraised u t fault.message hut hraise)
  | exhausted => trivial

/-! ### Reachable states -/

theorem serves_later (hcat : catalog.Lawful) {c : Channel} (hc : c.Serves catalog) : c.call.Keeps Later :=
  serves_keeps steady_later hcat (fun s _ => (State.Write.newFailure s _).later)
    (fun _ t _ h _ => h.trans (State.Write.newFailure t _).later)
    (fun s r _ _ => (steady_later.spend s r).trans (State.Write.newFailure _ _).later) hc

/-- Whatever lawful host code does with an engine, it leaves it in a state that comes after the one
it found. -/
theorem later_of_lawful (hcat : catalog.Lawful) {c : Channel} (hc : c.Serves catalog) {α : Type}
    {m : Exchange α} (hm : m.Lawful) (f : Frame) : (m c f).Within Later f.state :=
  hm Later steady_later c (serves_later hcat hc) f

/-! ### Faults on the way -/

/-- An error object holds this fault, which has not stopped the host yet. -/
def Carries (s : State) (message : String) : Prop := ∃ r, s.failure r = .fatal message

/-- Between two states a call of a host function raises a fault with this message, and its error
object is made. -/
def RaisedBetween (catalog : Catalog) (message : String) (s t : State) : Prop :=
  ∃ u v, Later s u ∧ Raises catalog message u v ∧ Later (v.newFailure (.fatal message)).2 t

theorem Raises.later (hcat : catalog.Lawful) {message : String} {s t : State} (h : Raises catalog message s t) :
    Later s t := by
  obtain ⟨n, f, st, site, fault, hrun, -⟩ := h
  have h := answer_keeps steady_later (hcat f Later steady_later)
    ⟨Script.Evaluation.callAt (hostCall catalog) n, site⟩ (serves_later hcat ⟨n, rfl⟩) ⟨st, s⟩
  rw [hrun] at h
  exact h

/-- A fault that is raised on the way leaves a new error object. -/
theorem RaisedBetween.failures_size_lt (hcat : catalog.Lawful) {message : String} {s t : State}
    (h : RaisedBetween catalog message s t) : s.failures.size < t.failures.size := by
  obtain ⟨u, v, hsu, huv, hvt⟩ := h
  have hsize : (v.newFailure (.fatal message)).2.failures.size = v.failures.size + 1 := Array.size_push ..
  have h₁ := hsu.failures_size_le
  have h₂ := (huv.later hcat).failures_size_le
  have h₃ := hvt.failures_size_le
  omega

/-- Every fault that an error object holds in the second state was there in the first or has been
raised in between. -/
def Accounted (catalog : Catalog) (s t : State) : Prop :=
  Later s t ∧ ∀ message, Carries t message → Carries s message ∨ RaisedBetween catalog message s t

theorem Carries.of_failures {s t : State} (h : t.failures = s.failures) {message : String}
    (ht : Carries t message) : Carries s message := by
  obtain ⟨r, hr⟩ := ht
  exact ⟨r, by rwa [State.failure, ← h]⟩

theorem Accounted.of_failures {s t : State} (hl : Later s t) (h : t.failures = s.failures) :
    Accounted catalog s t :=
  ⟨hl, fun _ ht => .inl (ht.of_failures h)⟩

theorem Accounted.trans {s t u : State} (h : Accounted catalog s t) (h' : Accounted catalog t u) :
    Accounted catalog s u := by
  refine ⟨h.1.trans h'.1, fun message hu => ?_⟩
  rcases h'.2 message hu with ht | ⟨v, w, htv, hv, hwu⟩
  · rcases h.2 message ht with hs | ⟨v, w, hsv, hv, hwt⟩
    · exact .inl hs
    · exact .inr ⟨v, w, hsv, hv, hwt.trans h'.1⟩
  · exact .inr ⟨v, w, h.1.trans htv, hv, hwu⟩

theorem failure_newFailure (s : State) (f : Script.Failure) (r : Nat) :
    (s.newFailure f).2.failure r = if r = s.failures.size then f else s.failure r := by
  simp only [State.newFailure, State.failure, Array.getD_eq_getD_getElem?, Array.getElem?_push]
  split <;> rfl

theorem failure_spend (s : State) (r q : Nat) :
    (s.spend r).failure q = if q = r then .spent else s.failure q := by
  simp only [State.spend, State.failure, Array.getD_eq_getD_getElem?, Array.getElem?_setIfInBounds]
  by_cases h : r = q
  · subst h
    by_cases hr : r < s.failures.size <;> simp [hr]
  · simp [h, Ne.symm h]

theorem Carries.of_spend {s : State} {r : Nat} {message : String} (h : Carries (s.spend r) message) :
    Carries s message := by
  obtain ⟨q, hq⟩ := h
  rw [failure_spend] at hq
  split at hq
  · cases hq
  · exact ⟨q, hq⟩

/-- Scripts by themselves make no error objects. -/
theorem steady_of_failures {R : State → State → Prop} (trans : ∀ {s t u : State}, R s t → R t u → R s u)
    (of_failures : ∀ {s t : State}, Later s t → t.failures = s.failures → R s t) : Script.Steady R where
  refl s := of_failures (steady_later.refl s) rfl
  trans := trans
  newTable s := of_failures (steady_later.newTable s) rfl
  newClosure s body scope depth source := of_failures (steady_later.newClosure s body scope depth source) rfl
  newCell s v := of_failures (steady_later.newCell s v) rfl
  newThread s := of_failures (steady_later.newThread s) rfl
  setCell s r v := of_failures (steady_later.setCell s r v) rfl
  rawSet s r k v hk := of_failures (steady_later.rawSet s r k v hk) rfl
  storePositional s r vs := of_failures (steady_later.storePositional s r vs) rfl
  setMetatable s r m := of_failures (steady_later.setMetatable s r m) rfl

theorem accounted_steady (catalog : Catalog) : Steady (Accounted catalog) where
  toSteady := steady_of_failures Accounted.trans Accounted.of_failures
  wrap s f := .of_failures (steady_later.wrap s f) (s.failures_wrap f)
  spend s r := ⟨steady_later.spend s r, fun _ h => .inl h.of_spend⟩
  emit s origin level message := .of_failures (steady_later.emit s origin level message) rfl

/-- Calls account for the faults that they leave behind. -/
theorem serves_accounted (hcat : catalog.Lawful) {c : Channel} (hc : c.Serves catalog) :
    c.call.Keeps (Accounted catalog) := by
  have hnew (s : State) (f : Script.Failure) : Later s (s.newFailure f).2 := (State.Write.newFailure s f).later
  refine serves_keeps (accounted_steady catalog) hcat ?herror ?hraised ?hpassed hc
  case herror =>
    refine fun s text => ⟨hnew s _, fun m ⟨r, hm⟩ => .inl ⟨r, ?_⟩⟩
    rw [failure_newFailure] at hm
    split at hm
    · cases hm
    · exact hm
  case hraised =>
    refine fun s t message hst hraise => ⟨hst.1.trans (hnew t _), fun m ⟨r, hm⟩ => ?_⟩
    rw [failure_newFailure] at hm
    split at hm
    · obtain rfl : message = m := by simpa using hm
      exact .inr ⟨s, t, steady_later.refl s, hraise, steady_later.refl _⟩
    · rcases hst.2 m ⟨r, hm⟩ with h | ⟨u, v, hsu, hu, hvt⟩
      · exact .inl h
      · exact .inr ⟨u, v, hsu, hu, hvt.trans (hnew t _)⟩
  case hpassed =>
    refine fun s r message hr => ⟨(steady_later.spend s r).trans (hnew _ _), fun m ⟨r', hm⟩ => .inl ?_⟩
    rw [failure_newFailure] at hm
    split at hm
    · obtain rfl : message = m := by simpa using hm
      exact ⟨r, hr⟩
    · exact Carries.of_spend ⟨r', hm⟩

end ScriptHost.Exchange
