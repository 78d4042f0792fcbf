import ScriptHost.Exchange.Operations
import ScriptHost.Proofs.Evaluation
import ScriptHost.Proofs.Exchanges

/-! What an exchange can do to the state of the engine. Host code reaches the state only through the
parts of an exchange, so a relation that allows their writes and those of scripts holds across any
sequence of them, whatever stack it works on. -/

namespace ScriptHost.Exchange

open Script (State Value TableRef Eval Call Site)
open Host (Error Fault Kind Table Library)

/-- A preorder on states that allows every write of a script and of the host. -/
structure Steady (R : State → State → Prop) : Prop extends Script.Steady R where
  wrap (s : State) (f : HostFunction) : R s (s.wrap f).2
  spend (s : State) (r : Script.FailureRef) : R s (s.spend r)
  emit (s : State) (origin : Origin) (level : Level) (message : String) : R s (s.emit origin level message)

theorem steady_later : Steady State.Later where
  toSteady := State.steady_later
  wrap s f := (State.Write.wrap s f).later
  spend s r := (State.Write.spend s r).later
  emit s _ _ _ := (State.Write.relog s _).later

/-- The state at the end is related to the one at the start. -/
def Outcome.Within {α : Type} (R : State → State → Prop) (s : State) : Outcome α → Prop
  | .done _ f | .failed _ f => R s f.state
  | .stopped _ t => R s t
  | .exhausted => True

/-- The state in which an exchange leaves the engine, however it ends. -/
def Outcome.state? {α : Type} : Outcome α → Option State
  | .done _ f | .failed _ f => some f.state
  | .stopped _ s => some s
  | .exhausted => none

theorem Outcome.Within.state? {α : Type} {R : State → State → Prop} {s t : State} {r : Outcome α} (h : r.Within R s)
    (ht : r.state? = some t) : R s t := by
  cases r with
  | done _ f | failed _ f =>
    obtain rfl := Option.some.inj ht
    exact h
  | stopped _ u =>
    obtain rfl := Option.some.inj ht
    exact h
  | exhausted => cases ht

variable {R : State → State → Prop} {α β : Type}

/-- The exchange keeps to a relation if the calls that it makes do. -/
def Keeps (R : State → State → Prop) (m : Exchange α) : Prop :=
  ∀ c : Channel, c.call.Keeps R → ∀ f, (m c f).Within R f.state

/-- Host code that reaches the state only through the parts of an exchange. -/
def Lawful (m : Exchange α) : Prop := ∀ R, Steady R → m.Keeps R

/-! ### Parts and sequences -/

section Parts

variable (hR : Steady R)
include hR

theorem keeps_pure (a : α) : (pure a : Exchange α).Keeps R := fun _ _ f => hR.refl f.state

theorem Keeps.bind {m : Exchange α} {g : α → Exchange β} (hm : m.Keeps R) (hg : ∀ a, (g a).Keeps R) :
    (m >>= g).Keeps R := by
  intro c hc f
  have hf := hm c hc f
  rw [bind_run]
  cases h : m c f with
  | done a f₁ =>
    rw [h] at hf
    have hf₁ := hg a c hc f₁
    cases hgf : g a c f₁ with
    | done b f₂ | failed b f₂ | stopped b f₂ =>
      rw [hgf] at hf₁
      simp only [hgf]
      exact hR.trans hf hf₁
    | exhausted =>
      simp only [hgf]
      trivial
  | failed e f₁ | stopped e f₁ =>
    rw [h] at hf
    exact hf
  | exhausted => trivial

theorem keeps_state : state.Keeps R := fun _ _ f => hR.refl f.state

theorem keeps_stop (fault : Fault) : (stop fault : Exchange α).Keeps R :=
  fun _ _ f => hR.emit f.state _ _ _

omit hR in
theorem Keeps.balanced {m : Exchange α} (hm : m.Keeps R) : (balanced m).Keeps R := by
  intro c hc f
  have hf := hm c hc f
  unfold Exchange.balanced
  split
  next e g h =>
    rw [h] at hf
    exact hf
  next => exact hf

omit hR in
theorem Keeps.settle {m : Exchange α} (hm : m.Keeps R) : (settle m).Keeps R := by
  intro c hc f
  have hf := hm c hc f
  unfold Exchange.settle
  cases h : m c f with
  | done a g | failed a g | stopped a g =>
    rw [h] at hf
    exact hf
  | exhausted => trivial

theorem receive_keeps (v : Value) : (receive v).Keeps R := by
  unfold receive
  split
  · apply Keeps.bind hR (keeps_state hR)
    intro s
    split
    · refine Keeps.bind hR (fun _ _ f => hR.spend f.state _) fun _ => fun _ _ f => hR.refl f.state
    · exact keeps_pure hR _
    · exact keeps_pure hR _
  · exact keeps_pure hR _

theorem attempt_keeps {m : Call → Site → Eval α} (hm : ∀ call site, call.Keeps R → (m call site).Keeps R) :
    (attempt m).Keeps R := by
  intro c hc f
  have hf := hm c.call c.site hc f.state
  unfold attempt
  cases h : m c.call c.site f.state with
  | done a s =>
    rw [h] at hf
    exact hf
  | raised v s =>
    rw [h] at hf
    simp only
    split
    · split
      · exact hR.trans hf (hR.spend s _)
      · exact hf
    · exact hf
  | exhausted => trivial

end Parts

/-! ### Host code -/

/-- Host code that is put together from the parts of an exchange. -/
inductive Composed : {α : Type} → Exchange α → Prop
  | pure {α : Type} (a : α) : Composed (pure a)
  | bind {α β : Type} {m : Exchange α} {g : α → Exchange β} : Composed m → (∀ a, Composed (g a)) → Composed (m >>= g)
  | state : Composed state
  | stack : Composed stack
  | setStack (vs : List Value) : Composed (setStack vs)
  | newTable : Composed (act (·.newTable {}))
  | wrap (f : HostFunction) : Composed (act (·.wrap f))
  | emit (origin : Origin) (level : Level) (message : String) : Composed (emit origin level message)
  | fail {α : Type} (e : Error) : Composed (fail e : Exchange α)
  | stop {α : Type} (fault : Fault) : Composed (stop fault : Exchange α)
  | exhausted {α : Type} : Composed (exhausted : Exchange α)
  | receive (v : Value) : Composed (receive v)
  | rawStore (r : TableRef) (k v : Value) :
    Composed (attempt fun _ _ => Script.Operators.rawStore Site.host r k v)
  | store (r : TableRef) (k v : Value) :
    Composed (attempt fun call site => Script.Operators.store call site none (.table r) k v)
  | index (r : TableRef) (k : Value) :
    Composed (attempt fun call site => Script.Operators.index call site none (.table r) k)
  | call (r : Script.FunctionRef) (vs : List Value) :
    Composed (attempt fun call site => call r vs (site.callSite none))
  | load (body : Script.FunctionBody) (title : ByteArray) :
    Composed (attempt fun _ _ => Script.Evaluation.loadChunk body title)
  | balanced {α : Type} {m : Exchange α} : Composed m → Composed (balanced m)
  | settle {α : Type} {m : Exchange α} : Composed m → Composed (settle m)

theorem Composed.map {m : Exchange α} (g : α → β) (hm : m.Composed) : (g <$> m).Composed :=
  .bind hm fun a => .pure (g a)

theorem Composed.keeps (hR : Steady R) {m : Exchange α} (h : m.Composed) : m.Keeps R := by
  induction h with
  | pure a => exact keeps_pure hR a
  | bind _ _ hm hg => exact Keeps.bind hR hm hg
  | state | stack | setStack | fail => exact fun _ _ f => hR.refl f.state
  | newTable => exact fun _ _ f => hR.newTable f.state
  | wrap h => exact fun _ _ f => hR.wrap f.state h
  | emit origin level message => exact fun _ _ f => hR.emit f.state origin level message
  | stop fault => exact keeps_stop hR fault
  | exhausted => exact fun _ _ _ => trivial
  | receive v => exact receive_keeps hR v
  | rawStore => exact attempt_keeps hR fun _ _ _ => Script.Operators.rawStore_keeps hR.toSteady _ _ _ _
  | store => exact attempt_keeps hR fun _ _ hc => Script.Operators.store_keeps hR.toSteady hc _ _ _ _ _
  | index => exact attempt_keeps hR fun _ _ hc => Script.Operators.index_keeps hR.toSteady hc _ _ _ _
  | call r vs => exact attempt_keeps hR fun _ _ hc => hc r vs _
  | load body title => exact attempt_keeps hR fun _ _ _ => Script.Evaluation.loadChunk_keeps hR.toSteady body title
  | balanced _ hm => exact hm.balanced
  | settle _ hm => exact hm.settle

theorem Composed.lawful {m : Exchange α} (h : m.Composed) : m.Lawful := fun _ hR => h.keeps hR

/-! ### The stack, tables and globals -/

theorem ofExcept_composed (r : Except Fault α) : (ofExcept r).Composed := by
  cases r with
  | ok a => exact .pure a
  | error fault => exact .stop fault

theorem ofResult_composed (r : Except Error α) : (ofResult r).Composed := by
  cases r with
  | ok a => exact .pure a
  | error e => exact .fail e

theorem receiveAll_composed (vs : List Value) : (receiveAll vs).Composed := by
  induction vs with
  | nil => exact .pure _
  | cons v vs ih =>
    apply Composed.bind (.receive v)
    intro w
    exact .bind ih fun ws => .pure _

theorem primitive_composed {m : Call → Site → Eval α} (hm : (attempt m).Composed) : (primitive m).Composed := by
  apply Composed.bind hm
  intro r
  cases r with
  | ok a => exact .pure a
  | error message => exact .fail _

theorem depth_composed : depth.Composed := .bind .stack fun _ => .pure _

theorem peek_composed : peek.Composed := .bind .stack fun _ => .pure _

theorem topKind_composed : topKind.Composed := .bind .stack fun _ => .pure _

theorem push_composed (v : Value) : (push v).Composed := .bind .stack fun _ => .setStack _

theorem pop_composed (n : Nat) : (pop n).Composed := by
  apply Composed.bind .stack
  intro vs
  split
  · exact .setStack _
  · exact .stop _

theorem popValue_composed : popValue.Composed := by
  apply Composed.bind .stack
  intro vs
  cases vs with
  | nil => exact .stop _
  | cons v vs => exact .bind (.setStack vs) fun _ => .pure v

theorem takeTop_composed (n : Nat) : (takeTop n).Composed := by
  apply Composed.bind .stack
  intro vs
  exact .bind (.setStack _) fun _ => .pure _

theorem pushFunction_composed (f : HostFunction) : (pushFunction f).Composed :=
  .bind (.wrap f) fun _ => push_composed _

theorem newTable_composed : newTable.Composed :=
  .bind .newTable fun _ => push_composed _

theorem storeIn_composed (r : TableRef) (k v : Value) : (storeIn r k v).Composed := by
  apply Composed.bind .state
  intro s
  split
  · exact primitive_composed (.rawStore r k v)
  · exact primitive_composed (.store r k v)

theorem readFrom_composed (r : TableRef) (k : Value) : (readFrom r k).Composed := by
  apply Composed.bind .state
  intro s
  split
  · exact .receive _
  · exact .bind (primitive_composed (.index r k)) fun v => .receive v

theorem setTable_composed : setTable.Composed := by
  apply Composed.bind depth_composed
  intro d
  split
  · exact .stop _
  · apply Composed.bind popValue_composed
    intro v
    apply Composed.bind popValue_composed
    intro k
    apply Composed.bind peek_composed
    intro top
    split
    · exact storeIn_composed _ _ _
    · exact .stop _

theorem receivePairs_composed (ps : List (Value × Value)) : (receivePairs ps).Composed := by
  induction ps with
  | nil => exact .pure _
  | cons p ps ih =>
    apply Composed.bind (Composed.receive p.1)
    intro k
    apply Composed.bind (Composed.receive p.2)
    intro v
    exact .bind ih fun rest => .pure _

theorem entriesOf_composed (r : TableRef) : (entriesOf r).Composed :=
  .bind .state fun _ => receivePairs_composed _

theorem pushGlobal_composed (name : String) : (pushGlobal name).Composed := by
  apply Composed.bind .state
  intro s
  exact .bind (readFrom_composed _ _) fun v => push_composed v

theorem popIntoGlobal_composed (name : String) : (popIntoGlobal name).Composed := by
  apply Composed.bind popValue_composed
  intro v
  exact .bind .state fun s => storeIn_composed _ _ _

theorem deliver_composed (results : Nat) (outcome : Except String (List Value)) :
    (deliver results outcome).Composed := by
  cases outcome with
  | ok all =>
    apply Composed.bind (receiveAll_composed all)
    intro ws
    apply Composed.bind .stack
    intro st
    exact .bind (.setStack _) fun _ => .pure _
  | error message => exact .bind (.emit _ _ _) fun _ => .pure _

theorem protectedCall_composed (args results : Nat) : (protectedCall args results).Composed := by
  apply Composed.bind depth_composed
  intro d
  split
  · apply Composed.bind (takeTop_composed args)
    intro vs
    apply Composed.bind popValue_composed
    intro callee
    cases callee with
    | function r => exact .bind (.call _ vs) (deliver_composed results)
    | _ => exact .bind (.pure _) (deliver_composed results)
  · exact .stop _

/-! ### Host values -/

mutual

theorem pushHost_composed (v : Host.Value) : (pushHost v).Composed := by
  cases v with
  | number | text | boolean | pointer =>
    unfold pushHost
    exact push_composed _
  | function f =>
    unfold pushHost
    exact pushFunction_composed f
  | table es =>
    unfold pushHost
    exact (Composed.bind newTable_composed fun _ => pushEntries_composed es).balanced

theorem pushEntries_composed (es : List (String × Host.Value)) : (pushEntries es).Composed := by
  cases es with
  | nil => exact .pure _
  | cons e es =>
    unfold pushEntries
    apply Composed.bind (push_composed _)
    intro _
    apply Composed.bind (pushHost_composed e.2)
    intro _
    exact .bind setTable_composed fun _ => pushEntries_composed es

end

theorem pushAll_composed (vs : List Host.Value) : (pushAll vs).Composed := by
  induction vs with
  | nil => exact .pure _
  | cons v vs ih => exact .bind (pushHost_composed v) fun _ => ih

theorem keep_composed (t : Table) (key : String) (v : Host.Value) : (keep t key v).Composed := by
  unfold keep
  split
  · exact .bind (.emit _ _ _) fun _ => .pure _
  · exact .bind (.pure _) fun _ => .pure _

section Draining

variable {sub : TableRef → Exchange Table} (hs : ∀ r, (sub r).Composed)
include hs

theorem convert?_composed (v : Value) : (convert? sub v).Composed := by
  cases v with
  | table r => exact .bind (hs r) fun t => .pure _
  | function r => exact .bind .state fun s => .pure _
  | _ => exact .pure _

theorem drainPairs_composed (ps : List (Value × Value)) (t : Table) : (drainPairs sub ps t).Composed := by
  induction ps generalizing t with
  | nil => exact .pure _
  | cons p ps ih =>
    unfold drainPairs
    split
    · exact .bind (.emit _ _ _) fun _ => ih t
    · apply Composed.bind (convert?_composed hs _)
      intro stored
      split
      · exact .bind (keep_composed _ _ _) fun t => ih t
      · exact .bind (.emit _ _ _) fun _ => ih t

end Draining

theorem drainInto_composed (n : Nat) (r : TableRef) (t : Table) : (drainInto n r t).Composed := by
  induction n generalizing r t with
  | zero => exact .exhausted
  | succ n ih =>
    apply Composed.bind (entriesOf_composed r)
    intro pairs
    apply Composed.bind (drainPairs_composed (fun r => ih r {}) pairs t)
    intro t
    exact .bind (.emit _ _ _) fun _ => .pure t

theorem drainTop_composed (t : Table) : (drainTop t).Composed := by
  apply Composed.bind peek_composed
  intro top
  split
  · apply Composed.bind (.bind .state fun s => drainInto_composed _ _ t)
    intro t
    exact .bind (pop_composed 1) fun _ => .pure t
  · exact .stop _

theorem takeTable_composed : takeTable.Composed := drainTop_composed {}

theorem check_composed (kind : Kind) : (check kind).Composed :=
  .bind .state fun _ => .bind peek_composed fun _ => .pure _

theorem orMismatch_composed (kind : Kind) (top : Option Value) (v : Option Host.Value) :
    (orMismatch kind top v).Composed := by
  cases v with
  | none => exact .fail _
  | some v => exact .pure v

theorem construct_composed (kind : Kind) : (construct kind).Composed := by
  apply Composed.bind .state
  intro s
  apply Composed.bind peek_composed
  intro top
  cases kind with
  | number | text | pointer => exact orMismatch_composed _ _ _
  | boolean => exact .pure _
  | function =>
    dsimp only
    split
    · exact .pure _
    · exact .fail _
  | table => exact .bind takeTable_composed fun t => .pure _

theorem take_composed (kind : Kind) : (take kind).Composed := by
  apply Composed.bind depth_composed
  intro before
  apply Composed.bind (construct_composed kind)
  intro v
  apply Composed.bind depth_composed
  intro d
  split
  · exact .bind (pop_composed 1) fun _ => .pure v
  · exact .pure v

theorem popSlot_composed (mode : Extraction) (kind : Kind) : (popSlot mode kind).Composed := by
  apply Composed.bind peek_composed
  intro top
  cases mode with
  | strict =>
    dsimp only
    split
    · exact .stop _
    · apply Composed.bind (check_composed kind)
      intro ok
      split
      · exact take_composed kind
      · exact .stop _
  | checked =>
    apply Composed.bind (check_composed kind)
    intro ok
    split
    · exact take_composed kind
    · exact .fail _

theorem popDown_composed (mode : Extraction) (kinds : List Kind) : (popDown mode kinds).Composed := by
  induction kinds with
  | nil => exact .pure _
  | cons k ks ih =>
    apply Composed.bind (popSlot_composed mode k)
    intro v
    exact .bind ih fun vs => .pure _

theorem popAll_composed (mode : Extraction) (kinds : List Kind) : (popAll mode kinds).Composed :=
  .map _ (popDown_composed mode kinds.reverse)

/-! ### Operations -/

theorem args_composed (kinds : List Kind) : (args kinds).Composed := by
  apply Composed.bind depth_composed
  intro d
  split
  · exact popAll_composed _ _
  · exact .stop _

theorem returns_composed (vs : List Host.Value) : (returns vs).Composed :=
  .bind (pushAll_composed vs) fun _ => .pure _

theorem getGlobal_composed (name : String) (kind : Kind) : (getGlobal name kind).Composed := by
  refine (Composed.bind (pushGlobal_composed name) fun _ => ?_).balanced
  apply Composed.bind topKind_composed
  intro top
  split
  · exact take_composed kind
  · apply Composed.bind peek_composed
    intro what
    exact .bind (pop_composed 1) fun _ => .fail _

theorem setGlobal_composed (name : String) (v : Host.Value) : (setGlobal name v).Composed :=
  (Composed.bind (pushHost_composed v) fun _ => popIntoGlobal_composed name).balanced

theorem runFunction_composed (name : String) (vs : List Host.Value) (kinds : List Kind) :
    (runFunction name vs kinds).Composed := by
  apply Composed.bind depth_composed
  intro base
  refine Composed.bind (Composed.bind (pushGlobal_composed name) fun _ => ?_).balanced.settle
    fun result => ?_
  · apply Composed.bind topKind_composed
    intro top
    split
    · apply Composed.bind (pushAll_composed vs)
      intro _
      apply Composed.bind (protectedCall_composed _ _)
      intro r
      cases r with
      | ok _ => exact popAll_composed _ _
      | error message => exact .fail _
    · apply Composed.bind peek_composed
      intro what
      exact .bind (pop_composed 1) fun _ => .fail _
  · apply Composed.bind depth_composed
    intro d
    split
    · exact ofResult_composed _
    · exact .stop _

theorem registerOnTop_composed (space name : String) (f : HostFunction) : (registerOnTop space name f).Composed := by
  apply Composed.bind topKind_composed
  intro top
  split
  · apply Composed.bind (push_composed _)
    intro _
    apply Composed.bind (pushFunction_composed f)
    intro _
    apply Composed.bind setTable_composed
    intro _
    exact .bind (pop_composed 1) fun _ => .emit _ _ _
  · exact .bind (pop_composed 1) fun _ => .fail _

theorem registerFunction_composed (space name : String) (f : HostFunction) :
    (registerFunction space name f).Composed := by
  rw [registerFunction_eq]
  refine (Composed.bind (pushGlobal_composed space) fun _ => ?_).balanced
  apply Composed.bind topKind_composed
  intro top
  split
  · exact registerOnTop_composed space name f
  · apply Composed.bind (pop_composed 1)
    intro _
    apply Composed.bind newTable_composed
    intro _
    apply Composed.bind (popIntoGlobal_composed space)
    intro _
    exact .bind (pushGlobal_composed space) fun _ => registerOnTop_composed space name f

theorem registerAll_composed (space : String) (fs : List (String × HostFunction)) :
    (registerAll space fs).Composed := by
  induction fs with
  | nil => exact .pure _
  | cons f fs ih => exact .bind (registerFunction_composed space f.1 f.2) fun _ => ih

theorem install_composed (l : Library) : (install l).Composed := registerAll_composed l.name l.functions

end ScriptHost.Exchange
