import ScriptHost.Live.LoadedScript
import ScriptHost.Proofs.Operations
import ScriptHost.Proofs.TrackedCode

/-! Faults on their way out. A fault of a host function that a script has called travels as an error,
through scripts and through the host functions that they are called by, to the operation that started
all of them, and stops it. Only a protected call of a script can hold it up: an engine that gives up
there runs like the engine itself, and in it no fault is lost. -/

namespace ScriptHost.Script

/-- The error object of a fault that has been raised between the two states and has not stopped the
host yet. -/
def Value.isFaultSince (s t : State) : Value → Bool
  | .failure r => decide (s.failures.size ≤ r) && (t.failure r matches .fatal _)
  | _ => false

/-- Calls that give up where they end with a fault that was raised in them. -/
def Call.watched (call : Call) : Call := fun r args site s =>
  match call r args site s with
  | .raised e t => if e.isFaultSince s t then .exhausted else .raised e t
  | flow => flow

namespace Evaluation

/-- As `callWith`, but the code under a builtin that ends errors gives up on its faults. -/
def watchedWith (host : HostCall) (call : Call) : Call := fun r args site => do
  match (← Eval.get).function? r with
  | some (.closure body scope depth source) => enter call body scope depth source args site
  | some (.builtin b) => Builtins.run (if Builtins.protects b then call.watched else call) ⟨b, args, site⟩
  | some (.host f) => host call f args site
  | none => Site.host.typeError "call" .nil none

/-- As `callAt`, but a run gives up where a fault reaches a protected call of the script under which it
was raised. -/
def watchedAt (host : HostCall) : Nat → Call
  | 0 => fun _ _ _ => Eval.exhausted
  | n + 1 => watchedWith host (watchedAt host n)

end Evaluation

variable {R : State → State → Prop} {E : State → Value → State → Prop}

/-- Watched calls end with no error that leaves a run in its own way. -/
theorem Call.Tracks.watched {call call' : Call} (hE : ∀ s e t, E s e t → e.isFaultSince s t = true)
    (hc : call.Tracks R E call') : call.watched.Tracks R (fun _ _ _ => False) call' := by
  intro r args site s
  unfold Call.watched
  rcases hc r args site s with h | ⟨h, hs⟩
  · left
    rw [h]
  · rw [← h]
    cases hrun : call r args site s with
    | done vs t =>
      rw [hrun] at hs
      exact .inr ⟨rfl, hs⟩
    | raised e t =>
      rw [hrun] at hs
      dsimp only
      split
      next => exact .inl rfl
      next hnew => exact .inr ⟨rfl, .inl (hs.resolve_right fun he => hnew (hE s e t he))⟩
    | exhausted => exact .inl rfl

namespace Evaluation

end Evaluation

end ScriptHost.Script

namespace ScriptHost.Exchange

open Script (State Value Eval Call Site Passage)
open Script.State (Later)
open Script.Evaluation (callAt watchedAt)
open Host (Error Fault)

/-! ### Runs without a fault -/

/-- The error object of a fault, whether or not it has stopped the host since. -/
def Faulty (s : State) (r : Nat) : Prop := r < s.failures.size ∧ ∀ text, s.failure r ≠ .error text

/-- The second state comes after the first, and no fault has become an error object in between. -/
def Faultless (s t : State) : Prop := Later s t ∧ ∀ r, Faulty t r → Faulty s r

theorem Faultless.trans {s t u : State} (h : Faultless s t) (h' : Faultless t u) : Faultless s u :=
  ⟨h.1.trans h'.1, fun r hr => h.2 r (h'.2 r hr)⟩

theorem Faultless.of_failures {s t : State} (hl : Later s t) (h : t.failures = s.failures) : Faultless s t := by
  refine ⟨hl, fun r hr => ?_⟩
  unfold Faulty State.failure at hr ⊢
  rwa [h] at hr

/-- Stopping on a fault that has waited makes no new one. -/
theorem Faultless.spend {s : State} {r : Nat} {message : String} (h : s.failure r = .fatal message) :
    Faultless s (s.spend r) := by
  refine ⟨(State.Write.spend s r).later, fun q hq => ?_⟩
  have hsize : (s.spend r).failures.size = s.failures.size := Array.size_setIfInBounds ..
  refine ⟨hsize ▸ hq.1, fun text htext => ?_⟩
  by_cases hqr : q = r
  · subst hqr
    rw [h] at htext
    cases htext
  · apply hq.2 text
    rw [failure_spend, if_neg hqr, htext]

/-- A call of a host function that starts in the first state stops in the second, on a fault with this
message. -/
def Stops (catalog : Catalog) (message : String) (s t : State) : Prop :=
  ∃ (n : Nat) (f : HostFunction) (args : List Value) (site : Site) (fault : Fault),
    resultsOf (catalog f) args ⟨callAt (hostCall catalog) n, site⟩ ⟨[], s⟩ = .stopped fault t ∧
      fault.message = message

/-- Since the first state, a first call of a host function has stopped on a fault, and since then nothing
but error objects has changed. -/
def Struck (catalog : Catalog) (message : String) (s t : State) : Prop :=
  ∃ u v, Faultless s u ∧ Stops catalog message u v ∧ Faultless u v ∧
    Later v t ∧ t = { v with failures := t.failures }

/-- An error that carries the first fault, in an error object made since. -/
def Escapes (catalog : Catalog) (s : State) (e : Value) (t : State) : Prop :=
  ∃ r message, e = .failure r ∧ s.failures.size ≤ r ∧ t.failure r = .fatal message ∧ Struck catalog message s t

variable {catalog : Catalog} {α β : Type}

theorem Struck.before {message : String} {s t u : State} (hst : Faultless s t) (h : Struck catalog message t u) :
    Struck catalog message s u := by
  obtain ⟨v, w, htv, h⟩ := h
  exact ⟨v, w, hst.trans htv, h⟩

theorem Struck.later {message : String} {s t : State} (h : Struck catalog message s t) : Later s t := by
  obtain ⟨u, v, hsu, -, huv, hvt, -⟩ := h
  exact hsu.1.trans (huv.1.trans hvt)

/-- Error objects may change further. -/
theorem Struck.mark {message : String} {s t t' : State} (h : Struck catalog message s t) (hl : Later t t')
    (ht' : t' = { t with failures := t'.failures }) : Struck catalog message s t' := by
  obtain ⟨u, v, hsu, hstop, huv, hvt, ht⟩ := h
  refine ⟨u, v, hsu, hstop, huv, hvt.trans hl, ?_⟩
  rw [ht', ht]

theorem Escapes.isFaultSince {s t : State} {e : Value} (h : Escapes catalog s e t) :
    e.isFaultSince s t = true := by
  obtain ⟨r, message, rfl, hr, hm, -⟩ := h
  simp [Value.isFaultSince, hr, hm]

/-- A run of host code without a fault, one that stops by itself, or one that stops on the first fault of
a host function. -/
def Outcome.Passes (catalog : Catalog) (s : State) : Outcome α → Prop
  | .done _ f | .failed _ f => Faultless s f.state
  | .stopped fault t => Faultless s t ∨ ∃ message, fault = .carried message ∧ Struck catalog message s t
  | .exhausted => True

/-- Over the first channel the exchange gives up, or it runs as over the second. -/
def Follows (catalog : Catalog) (c c' : Channel) (m : Exchange α) : Prop :=
  ∀ f, m c f = .exhausted ∨ m c f = m c' f ∧ (m c f).Passes catalog f.state

section Following

variable {call call' : Call} {site : Site}

theorem Follows.bind {c c' : Channel} {m : Exchange α} {g : α → Exchange β} (hm : Follows catalog c c' m)
    (hg : ∀ a, Follows catalog c c' (g a)) : Follows catalog c c' (m >>= g) := by
  intro f
  rw [bind_run, bind_run]
  rcases hm f with h | ⟨h, hf⟩
  · left
    rw [h]
  · rw [← h]
    cases hmf : m c f with
    | done a f₁ =>
      rw [hmf] at hf
      refine (hg a f₁).imp_right fun ⟨he, hp⟩ => ⟨he, ?_⟩
      dsimp only
      cases hgf : g a c f₁ with
      | done b f₂ | failed b f₂ =>
        rw [hgf] at hp
        exact hf.trans hp
      | stopped fault t =>
        rw [hgf] at hp
        exact hp.imp hf.trans fun ⟨message, hfault, hs⟩ => ⟨message, hfault, hs.before hf⟩
      | exhausted => trivial
    | failed e f₁ | stopped e f₁ =>
      rw [hmf] at hf
      exact .inr ⟨rfl, hf⟩
    | exhausted => exact .inl rfl

theorem Follows.balanced {c c' : Channel} {m : Exchange α} (hm : Follows catalog c c' m) :
    Follows catalog c c' (balanced m) := by
  intro f
  unfold Exchange.balanced
  rcases hm f with h | ⟨h, hf⟩
  · left
    rw [h]
  · right
    rw [← h]
    refine ⟨rfl, ?_⟩
    cases hmf : m c f with
    | done a g | failed a g | stopped a g =>
      rw [hmf] at hf
      exact hf
    | exhausted => trivial

theorem Follows.settle {c c' : Channel} {m : Exchange α} (hm : Follows catalog c c' m) :
    Follows catalog c c' (settle m) := by
  intro f
  unfold Exchange.settle
  rcases hm f with h | ⟨h, hf⟩
  · left
    rw [h]
  · right
    rw [← h]
    refine ⟨rfl, ?_⟩
    cases hmf : m c f with
    | done a g | failed a g | stopped a g =>
      rw [hmf] at hf
      exact hf
    | exhausted => trivial

end Following

/-! ### Operations -/

/-- The channel of host code that no script has called, over watched calls. -/
def watched (catalog : Catalog) : Channel := ⟨watchedAt (hostCall catalog) depthLimit, Site.host⟩

theorem Faulty.later {s t : State} {r : Nat} (h : Later s t) (hr : Faulty s r) : Faulty t r := by
  induction h with
  | refl => exact hr
  | tail _ hw ih =>
    cases hw with
    | newFailure f =>
      refine ⟨Nat.lt_of_lt_of_le ih.1 (by simp [State.newFailure]), ?_⟩
      rw [failure_newFailure, if_neg (Nat.ne_of_lt ih.1)]
      exact ih.2
    | spend q =>
      refine ⟨by simpa [State.spend] using ih.1, fun text => ?_⟩
      rw [failure_spend]
      split
      · intro h
        cases h
      · exact ih.2 text
    | wrap f =>
      unfold Faulty State.failure
      rw [State.failures_wrap]
      exact ih
    | _ => exact ih

end ScriptHost.Exchange
