import ScriptHost.Live.LoadedScript
import ScriptHost.Proofs.Samples

/-! Operations of the host as a whole. However one ends for its caller, the stack is what it was
before, so that no check of the depth behind it can fail. What remains are the faults of host
functions: those raised on the way, and those that a script has kept in an error object. -/

namespace ScriptHost.Exchange

open Script (State Value TableRef Call Site Eval)
open Script.State (Later Reachable)
open Host (Error Fault Kind Table Library)

/-! ### Restored stacks -/

/-- The stack after an operation is the stack before it; a fault comes from an error object. -/
def Outcome.Restores {α : Type} (R : State → State → Prop) (s : State) (st : List Value) : Outcome α → Prop
  | .done _ f | .failed _ f => R s f.state ∧ f.stack = st
  | .stopped fault t => ∃ message u r, fault = .carried message ∧ R s u ∧ u.failure r = .fatal message ∧
      t = u.spend r
  | .exhausted => True

def Restores {α : Type} (R : State → State → Prop) (c : Channel) (st : List Value) (m : Exchange α) : Prop :=
  ∀ s, (m c ⟨st, s⟩).Restores R s st

section Restoring

variable {α β : Type} {R : State → State → Prop} (hR : Steady R) {c : Channel} {st : List Value}

theorem Works.restores {m : Exchange α} {Q : α → List Value → Prop} (hm : Works R c st [] m Q)
    (hQ : ∀ a ys, Q a ys → ys = []) : Restores R c st (Exchange.balanced m) := by
  intro s
  have hs := hm s
  rw [List.nil_append] at hs
  unfold Exchange.balanced
  cases h : m c ⟨st, s⟩ with
  | done a f =>
    rw [h] at hs
    obtain ⟨hst, ys, hys, ha⟩ := hs
    exact ⟨hst, by rw [hys, hQ a ys ha, List.nil_append]⟩
  | failed e f =>
    rw [h] at hs
    obtain ⟨hst, ys, hys⟩ := hs
    exact ⟨hst, by simp [hys]⟩
  | stopped fault t =>
    rw [h] at hs
    exact hs
  | exhausted => trivial

include hR

theorem restores_pure (a : α) : Restores R c st (pure a) := fun s => ⟨hR.refl s, rfl⟩

theorem restores_fail (e : Error) : Restores R c st (fail e : Exchange α) := fun s => ⟨hR.refl s, rfl⟩

theorem restores_ofResult (r : Except Error α) : Restores R c st (ofResult r) := by
  cases r with
  | ok a => exact restores_pure hR a
  | error e => exact restores_fail hR e

theorem Restores.bind {m : Exchange α} {g : α → Exchange β} (hm : Restores R c st m)
    (hg : ∀ a, Restores R c st (g a)) : Restores R c st (m >>= g) := by
  intro s
  have hs := hm s
  rw [bind_run]
  cases h : m c ⟨st, s⟩ with
  | done a f =>
    rw [h] at hs
    obtain ⟨hst, hf⟩ := hs
    obtain ⟨fs, t⟩ := f
    obtain rfl : fs = st := hf
    have ht := hg a t
    cases hr : g a c ⟨fs, t⟩ with
    | done b f' | failed b f' =>
      rw [hr] at ht
      simp only [hr]
      exact ⟨hR.trans hst ht.1, ht.2⟩
    | stopped fault t' =>
      rw [hr] at ht
      obtain ⟨message, u, r, hf, hu, hur, ht'⟩ := ht
      simp only [hr]
      exact ⟨message, u, r, hf, hR.trans hst hu, hur, ht'⟩
    | exhausted =>
      simp only [hr]
      trivial
  | failed e f =>
    rw [h] at hs
    exact hs
  | stopped fault t =>
    rw [h] at hs
    exact hs
  | exhausted => trivial

omit hR in
theorem Restores.settle {m : Exchange α} (hm : Restores R c st m) : Restores R c st (Exchange.settle m) := by
  intro s
  have hs := hm s
  unfold Exchange.settle
  cases h : m c ⟨st, s⟩ with
  | done a f | failed a f | stopped a f =>
    rw [h] at hs
    exact hs
  | exhausted => trivial

/-- The depth that a check behind an operation sees. -/
theorem Restores.checked {m : Exchange α} (hm : Restores R c st m) (fault : Nat → Fault) (d : Nat)
    (hd : st.length = d) :
    Restores R c st (do
      let result ← Exchange.settle m
      let d' ← depth
      if d' = d then ofResult result else stop (fault d')) := by
  apply hm.settle.bind hR
  intro result s
  rw [depth_bind, if_pos hd]
  exact restores_ofResult hR result s

/-! ### The operations -/

variable (hc : c.call.Keeps R)
include hc

theorem getGlobal_restores (name : String) (kind : Kind) : Restores R c st (getGlobal name kind) := by
  refine Works.restores (Q := fun _ ys => ys = []) ?_ fun _ _ h => h
  apply (pushGlobal_works hR hc name).bind hR
  intro _ ys hys s
  obtain ⟨v, rfl⟩ := hys
  change Outcome.Above R s st _ ((topKind >>= _) c ⟨v :: st, s⟩)
  rw [topKind_bind]
  split
  next h =>
    refine take_works hR kind v (fun hk => ?_) s
    subst hk
    cases v with
    | table r => exact ⟨r, rfl⟩
    | _ => cases h
  next => exact ⟨hR.refl s, [], rfl⟩

theorem setGlobal_restores (name : String) (v : Host.Value) : Restores R c st (setGlobal name v) := by
  refine Works.restores (Q := fun _ ys => ys = []) ?_ fun _ _ h => h
  apply (pushHost_works hR hc v st []).bind hR
  intro _ ys hys
  obtain ⟨w, rfl⟩ := hys
  exact popIntoGlobal_works hR hc name w

theorem runFunction_restores (name : String) (vs : List Host.Value) (kinds : List Kind) :
    Restores R c st (runFunction name vs kinds) := by
  intro s
  rw [runFunction, depth_bind]
  refine Restores.checked hR (Works.restores (Q := fun _ ys => ys = []) ?_ fun _ _ h => h)
    (fun d => .unbalancedCall name d st.length) st.length rfl s
  apply (pushGlobal_works hR hc name).bind hR
  intro _ ys hys s
  obtain ⟨v, rfl⟩ := hys
  change Outcome.Above R s st _ ((topKind >>= _) c ⟨v :: st, s⟩)
  rw [topKind_bind]
  split
  · have hargs : Works R c st [v] (pushAll vs) fun _ ys => ∃ ws, ws.length = vs.length ∧ ys = ws ++ [v] :=
      pushAll_works hR hc vs
    refine hargs.bind hR (fun _ ys ⟨ws, hlen, hys⟩ => ?_) s
    subst hys
    rw [← hlen]
    refine (protectedCall_works hR hc ws v kinds.length).bind hR fun outcome ys ⟨hok, herror⟩ => ?_
    cases outcome with
    | ok _ =>
      obtain ⟨rs, hrs, rfl⟩ := hok rfl
      rw [List.append_nil]
      exact popAll_works hR kinds hrs
    | error message => exact works_fail hR _
  · exact ⟨hR.refl s, [], rfl⟩

theorem registerOnTop_works (space name : String) (f : HostFunction) (v : Value) :
    Works R c st [v] (registerOnTop space name f) fun _ ys => ys = [] := by
  intro s
  change Outcome.Above R s st _ ((topKind >>= _) c ⟨v :: st, s⟩)
  rw [topKind_bind]
  split
  next h =>
    cases v with
    | table r =>
      have hpush : Works R c st [.table r] (do pushText name; pushFunction f) fun _ ys =>
          ∃ w, ys = [w, .ofString name, .table r] :=
        fun s => ⟨hR.wrap s f, [_, .ofString name, .table r], rfl, _, rfl⟩
      have hset : Works R c st [.table r] (do (do pushText name; pushFunction f); setTable) fun _ ys =>
          ys = [.table r] := by
        apply hpush.bind hR
        intro _ ys hys
        obtain ⟨w, rfl⟩ := hys
        exact setTable_works hR hc w _ r
      refine (hset.bind hR (g := fun _ => do
        pop 1
        emit .call .debug ("Registered host function " ++ space ++ "." ++ name)) fun _ ys hys s => ?_) s
      subst hys
      exact ⟨hR.emit s _ _ _, [], rfl, rfl⟩
    | _ => cases h
  next => exact ⟨hR.refl s, [], rfl⟩

theorem registerFunction_restores (space name : String) (f : HostFunction) :
    Restores R c st (registerFunction space name f) := by
  rw [registerFunction_eq]
  refine Works.restores (Q := fun _ ys => ys = []) ?_ fun _ _ h => h
  apply (pushGlobal_works hR hc space).bind hR
  intro _ ys hys s
  obtain ⟨v, rfl⟩ := hys
  change Outcome.Above R s st _ ((topKind >>= _) c ⟨v :: st, s⟩)
  rw [topKind_bind]
  split
  · exact registerOnTop_works hR hc space name f v s
  · have hnew : Works R c st [v] (do pop 1; newTable) fun _ ys => ∃ r, ys = [.table r] :=
      fun s => ⟨hR.newTable s, [_], rfl, _, rfl⟩
    refine (hnew.bind hR (g := fun _ => do popIntoGlobal space; pushGlobal space; registerOnTop space name f)
      fun _ ys hys => ?_) s
    obtain ⟨r, rfl⟩ := hys
    apply (popIntoGlobal_works hR hc space _).bind hR
    intro _ ys hys
    subst hys
    apply (pushGlobal_works hR hc space).bind hR
    intro _ ys hys
    obtain ⟨w, rfl⟩ := hys
    exact registerOnTop_works hR hc space name f w

theorem registerAll_restores (space : String) (fs : List (String × HostFunction)) :
    Restores R c st (registerAll space fs) := by
  induction fs with
  | nil => exact restores_pure hR _
  | cons f fs ih => exact (registerFunction_restores hR hc space f.1 f.2).bind hR fun _ => ih

/-! ### Reloading -/

omit hR hc in
theorem Restores.works {m : Exchange α} (hm : Restores R c st m) : Works R c st [] m fun _ ys => ys = [] := by
  intro s
  have hs := hm s
  rw [List.nil_append]
  cases h : m c ⟨st, s⟩ with
  | done a f | failed a f =>
    rw [h] at hs
    first
    | exact ⟨hs.1, [], hs.2, rfl⟩
    | exact ⟨hs.1, [], hs.2⟩
  | stopped fault t =>
    rw [h] at hs
    exact hs
  | exhausted => trivial

theorem runChunk_neutral (name source : String) : Neutral R c (runChunk name source) := by
  unfold runChunk
  split
  · exact neutral_pure hR _
  · exact neutral_pure hR _
  · rename_i body _ _
    have hload : Neutral R c (primitive fun _ _ => Script.Evaluation.loadChunk body (chunkTitle name)) :=
      primitive_neutral hR hc fun _ _ _ => Script.Evaluation.loadChunk_keeps hR.toSteady _ _
    apply hload.bind hR
    intro r
    apply (attempt_neutral hc fun _ _ h => h _ _ _).bind hR
    intro result
    cases result with
    | ok _ => exact neutral_pure hR _
    | error message => exact neutral_pure hR _

theorem execute_neutral (name source : String) : Neutral R c (Live.LoadedScript.execute name source) := by
  apply (runChunk_neutral hR hc name source).bind hR
  intro result
  cases result with
  | ok _ => exact neutral_pure hR _
  | error e => exact neutral_fail hR _

theorem applyChanges_works (changes : Live.Changes) : Works R c st [] changes.apply fun _ ys => ys = [] := by
  induction changes with
  | nil => exact works_pure hR rfl
  | cons change changes ih =>
    refine Works.bind hR (Q := fun _ ys => ys = []) ?_ fun _ ys hys => hys ▸ ih
    cases change with
    | function space name f => exact (registerFunction_restores hR hc space name f).works
    | global name v =>
      apply (pushHost_works hR hc v st []).bind hR
      intro _ ys hys
      obtain ⟨w, rfl⟩ := hys
      exact popIntoGlobal_works hR hc name w

/-- A reload ends with nothing on its stack, so its own check never fails. -/
theorem rebuild_works (chunkName source : String) (changes : Live.Changes) :
    Works R c [] [] (Live.LoadedScript.rebuild chunkName source changes) fun _ ys => ys = [] := by
  apply (execute_neutral hR hc chunkName source).then hR
  intro _
  apply (applyChanges_works hR hc changes).bind hR
  intro _ ys hys s
  subst hys
  exact ⟨hR.refl s, [], rfl, rfl⟩

end Restoring

/-! ### Faults that are left -/

/-- What host code does to a script from outside, results aside. -/
inductive Operation where
  | getGlobal (name : String) (kind : Kind)
  | setGlobal (name : String) (v : Host.Value)
  | runFunction (name : String) (args : List Host.Value) (kinds : List Kind)
  | registerFunction (space name : String) (f : HostFunction)
  | install (l : Library)

def Operation.run : Operation → Exchange Unit
  | .getGlobal name kind => (fun _ => ()) <$> Exchange.getGlobal name kind
  | .setGlobal name v => Exchange.setGlobal name v
  | .runFunction name args kinds => (fun _ => ()) <$> Exchange.runFunction name args kinds
  | .registerFunction space name f => Exchange.registerFunction space name f
  | .install l => Exchange.install l

theorem Operation.composed (op : Operation) : op.run.Composed := by
  cases op with
  | getGlobal name kind => exact (getGlobal_composed name kind).map _
  | setGlobal name v => exact setGlobal_composed name v
  | runFunction name args kinds => exact (runFunction_composed name args kinds).map _
  | registerFunction space name f => exact registerFunction_composed space name f
  | install l => exact install_composed l

theorem settled_composed {α : Type} (chunkName : String) {m : Exchange α} (hm : m.Composed) :
    (Live.LoadedScript.settled chunkName m).Composed := by
  refine .bind hm.settle fun result => .bind depth_composed fun d => ?_
  split
  · exact ofResult_composed result
  · exact .stop _

theorem Operation.restores {R : State → State → Prop} (hR : Steady R) {c : Channel} (hc : c.call.Keeps R)
    (st : List Value) (op : Operation) : Restores R c st op.run := by
  cases op with
  | getGlobal name kind => exact (getGlobal_restores hR hc name kind).bind hR fun _ => restores_pure hR ()
  | setGlobal name v => exact setGlobal_restores hR hc name v
  | runFunction name args kinds =>
    exact (runFunction_restores hR hc name args kinds).bind hR fun _ => restores_pure hR ()
  | registerFunction space name f => exact registerFunction_restores hR hc space name f
  | install l => exact registerAll_restores hR hc l.name l.functions

/-- A fault of a host function: raised between two states, or before and kept in an error object. -/
def FromHost (catalog : Catalog) (s t : State) (fault : Fault) : Prop :=
  ∃ message, fault = .carried message ∧ (Carries s message ∨ RaisedBetween catalog message s t)

variable {catalog : Catalog}

theorem FromHost.of_spend {s u : State} (h : Accounted catalog s u) {message : String} {r : Nat}
    (hr : u.failure r = .fatal message) : FromHost catalog s (u.spend r) (.carried message) := by
  refine ⟨message, rfl, ?_⟩
  rcases h.2 message ⟨r, hr⟩ with hs | ⟨v, w, hsv, hv, hwu⟩
  · exact .inl hs
  · exact .inr ⟨v, w, hsv, hv, hwu.trans (steady_later.spend u r)⟩

/-- An ending with the stack of the start, for results and errors alike, or on a fault of a host
function. -/
def Outcome.Balanced (catalog : Catalog) (s : State) (st : List Value) {α : Type} : Outcome α → Prop
  | .done _ f | .failed _ f => f.stack = st
  | .stopped fault t => FromHost catalog s t fault
  | .exhausted => True

theorem Outcome.Restores.balanced {s : State} {st : List Value} {α : Type} {o : Outcome α}
    (h : o.Restores (Accounted catalog) s st) : o.Balanced catalog s st := by
  cases o with
  | done a f => exact h.2
  | failed e f => exact h.2
  | stopped fault t =>
    obtain ⟨message, u, r, rfl, hu, hr, rfl⟩ := h
    exact .of_spend hu hr
  | exhausted => trivial

/-- Every operation restores the stack and stops only on a fault of a host function. The same holds
behind the check of an operation on a loaded script, and nothing else stops a reload either; so no
check of the depth ever fails. -/
theorem operation_balanced (hcat : catalog.Lawful) (c : Channel) (hc : c.Serves catalog) (op : Operation)
    (st : List Value) (s : State) :
    (op.run c ⟨st, s⟩).Balanced catalog s st ∧
    (∀ chunkName, (Live.LoadedScript.settled chunkName op.run c ⟨[], s⟩).Balanced catalog s []) ∧
    ∀ chunkName source changes fault t,
      Live.LoadedScript.rebuild chunkName source changes c ⟨[], s⟩ = .stopped fault t →
        FromHost catalog s t fault := by
  have hR := accounted_steady catalog
  have hcall := serves_accounted hcat hc
  refine ⟨(op.restores hR hcall st s).balanced, fun chunkName => ?_, ?_⟩
  · exact ((op.restores hR hcall []).checked hR (fun d => .unbalancedOperation chunkName d) 0 rfl s).balanced
  · intro chunkName source changes fault t hrun
    have h := rebuild_works hR hcall chunkName source changes s
    rw [List.append_nil, hrun] at h
    obtain ⟨message, u, r, rfl, hu, hr, rfl⟩ := h
    exact .of_spend hu hr

/-- The sample host functions are lawful, so an engine over them registers one over three values on
the stack in this way. -/
theorem operation_balanced_register :
    Samples.catalog.Lawful ∧ (outermost Samples.catalog).Serves Samples.catalog ∧
      ((Operation.registerFunction "Calc" "Double" ⟨"double"⟩).run (outermost Samples.catalog)
        ⟨[.nil, .boolean true, .pointer 7], State.fresh⟩).Balanced Samples.catalog State.fresh
          [.nil, .boolean true, .pointer 7] :=
  ⟨Samples.catalog_lawful, outermost_serves _,
    (operation_balanced Samples.catalog_lawful _ (outermost_serves _) _ _ _).1⟩

/-- What a call of `ping` with an argument raises. -/
def keptFault : Fault := .wrongArity 0 1

/-- A script has caught the fault and keeps its error object in the global `E`. -/
def keepingState : State :=
  ((State.fresh.newFailure (.fatal keptFault.message)).2).rawSet 0 (.ofString "E") (.failure 0)

/-- Reading the global stops although no host function has been called, and no call of one between
the two states could have made an error object. -/
theorem getGlobal_stops_on_kept_fault :
    keepingState.Reachable ∧ ∃ t,
      (Operation.getGlobal "E" .number).run ⟨fun _ _ _ => Eval.exhausted, Site.host⟩ ⟨[], keepingState⟩ =
        .stopped (.carried keptFault.message) t ∧
      ¬ RaisedBetween Samples.catalog keptFault.message keepingState t := by
  refine ⟨?_, _, rfl, ?_⟩
  · exact (State.Write.newFailure State.fresh _).later.trans (State.Write.modifyTable _ 0 _).later
  · intro h
    exact absurd (h.failures_size_lt Samples.catalog_lawful) (by decide)

end ScriptHost.Exchange
