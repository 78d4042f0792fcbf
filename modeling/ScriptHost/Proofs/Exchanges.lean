import ScriptHost.Exchange.Operations
import ScriptHost.Proofs.Keys
import ScriptHost.Proofs.States

/-! Running exchanges step by step. Each part of an exchange that cannot fail is taken off the front
of a sequence with its effect on stack and state. -/

namespace ScriptHost.Exchange

open Script (Value State Eval Call Site)
open Host (Error Fault)

/-- A channel through which no call comes to an end. -/
def Channel.idle : Channel := ⟨fun _ _ _ => Eval.exhausted, Site.host⟩

variable {α β : Type} (c : Channel) (f : Frame)

/-! ### Sequences -/

@[simp] theorem pure_run (a : α) : (pure a : Exchange α) c f = .done a f := rfl

theorem bind_run (m : Exchange α) (g : α → Exchange β) :
    (m >>= g) c f = match m c f with
      | .done a f => g a c f
      | .failed e f => .failed e f
      | .stopped fault s => .stopped fault s
      | .exhausted => .exhausted := rfl

theorem bind_bind {γ : Type} (m : Exchange α) (g : α → Exchange β) (k : β → Exchange γ) :
    (m >>= g >>= k) c f = (m >>= fun a => g a >>= k) c f := by
  simp only [bind_run]
  cases m c f <;> rfl

variable {c f}

theorem bind_done {m : Exchange α} {a : α} {f' : Frame} (h : m c f = .done a f') (g : α → Exchange β) :
    (m >>= g) c f = g a c f' := by
  rw [bind_run, h]

theorem of_bind_done {m : Exchange α} {g : α → Exchange β} {b : β} {f'' : Frame}
    (h : (m >>= g) c f = .done b f'') : ∃ a f', m c f = .done a f' ∧ g a c f' = .done b f'' := by
  rw [bind_run] at h
  cases hm : m c f with
  | done a f' =>
    rw [hm] at h
    exact ⟨a, f', rfl, h⟩
  | failed | stopped | exhausted =>
    rw [hm] at h
    cases h

theorem of_bind_failed {m : Exchange α} {g : α → Exchange β} {e : Error} {f'' : Frame}
    (h : (m >>= g) c f = .failed e f'') :
    m c f = .failed e f'' ∨ ∃ a f', m c f = .done a f' ∧ g a c f' = .failed e f'' := by
  rw [bind_run] at h
  cases hm : m c f with
  | done a f' =>
    rw [hm] at h
    exact .inr ⟨a, f', rfl, h⟩
  | failed e' f' =>
    rw [hm] at h
    cases h
    exact .inl rfl
  | stopped | exhausted =>
    rw [hm] at h
    cases h

theorem balanced_done {m : Exchange α} {a : α} {f' : Frame} (h : m c f = .done a f') :
    (balanced m) c f = .done a f' := by
  rw [balanced, h]

variable (c f)

/-! ### Parts -/

@[simp] theorem state_bind (g : State → Exchange β) : (state >>= g) c f = g f.state c f := rfl

@[simp] theorem depth_bind (g : Nat → Exchange β) : (depth >>= g) c f = g f.stack.length c f := rfl

@[simp] theorem peek_bind (g : Option Value → Exchange β) : (peek >>= g) c f = g f.stack.head? c f := rfl

@[simp] theorem topKind_bind (g : Option Host.Kind → Exchange β) :
    (topKind >>= g) c f = g (f.stack.head?.bind Host.Kind.of?) c f := rfl

@[simp] theorem setStack_bind (vs : List Value) (g : Unit → Exchange β) :
    (setStack vs >>= g) c f = g () c { f with stack := vs } := rfl

/-! ### The stack -/

@[simp] theorem push_bind (v : Value) (g : Unit → Exchange β) :
    (push v >>= g) c f = g () c { f with stack := v :: f.stack } := rfl

@[simp] theorem popValue_bind (v : Value) (st : List Value) (s : State) (g : Value → Exchange β) :
    (popValue >>= g) c ⟨v :: st, s⟩ = g v c ⟨st, s⟩ := rfl

theorem takeTop_run (vs st : List Value) (s : State) :
    takeTop vs.length c ⟨vs ++ st, s⟩ = .done vs.reverse ⟨st, s⟩ := by
  change Outcome.done ((vs ++ st).take vs.length).reverse ⟨(vs ++ st).drop vs.length, s⟩ = _
  simp

/-! ### Script code -/

variable {c f}

theorem primitive_done {m : Call → Site → Eval α} {a : α} {s : State} (h : m c.call c.site f.state = .done a s) :
    primitive m c f = .done a { f with state := s } := by
  have hattempt : attempt m c f = .done (.ok a) { f with state := s } := by rw [attempt, h]
  rw [primitive, bind_done hattempt]
  rfl

/-- What a protected call does with the outcome of the call. -/
def deliver (results : Nat) : Except String (List Value) → Exchange (Except String Unit)
  | .ok all => do
    let all ← receiveAll all
    let kept := (all ++ List.replicate results Value.nil).take results
    setStack (kept.reverse ++ (← stack))
    pure (.ok ())
  | .error message => do
    emit .stack .debug ("Protected call failed: " ++ message)
    pure (.error message)

/-- How the call under a protected call ends. -/
def outcomeOf (callee : Value) (args : List Value) : Exchange (Except String (List Value)) :=
  match callee with
  | .function r => attempt fun call site => call r args (site.callSite none)
  | other => pure (.error ("attempt to call a " ++ other.description ++ " value"))

/-- The function and its arguments, the last on top, are taken off the stack before the call. -/
theorem protectedCall_eq (args : List Value) (callee : Value) (results : Nat) (c : Channel) (st : List Value)
    (s : State) :
    protectedCall args.length results c ⟨args ++ callee :: st, s⟩ =
      (outcomeOf callee args.reverse >>= deliver results) c ⟨st, s⟩ := by
  have hd : args.length < (args ++ callee :: st).length := by
    simp only [List.length_append, List.length_cons]
    omega
  rw [protectedCall, depth_bind, if_pos hd, bind_done (takeTop_run c args _ s), popValue_bind]
  cases callee <;> rfl

/-- What a registration does with the value of its namespace on top of the stack. -/
def registerOnTop (space name : String) (f : HostFunction) : Exchange Unit := do
  if (← topKind) = some .table then
    pushText name
    pushFunction f
    setTable
    pop 1
    emit .call .debug ("Registered host function " ++ space ++ "." ++ name)
  else
    pop 1
    fail (.namespaceMissing space)

/-- A namespace that is no table becomes a new one. -/
theorem registerFunction_eq (space name : String) (f : HostFunction) :
    registerFunction space name f = balanced (do
      pushGlobal space
      if (← topKind) = some .table then
        registerOnTop space name f
      else
        pop 1
        newTable
        popIntoGlobal space
        pushGlobal space
        registerOnTop space name f) := rfl

variable (c f)

/-! ### Tables without handlers -/

@[simp] theorem newTable_bind (st : List Value) (s : State) (g : Unit → Exchange β) :
    (newTable >>= g) c ⟨st, s⟩ = g () c ⟨.table s.tables.size :: st, (s.newTable {}).2⟩ := rfl

theorem storeIn_run {s : State} {r : Script.TableRef} {k : Value}
    (hr : (Value.table r).handler s "__newindex" = .nil) (hk : k.badKey? = none) (st : List Value) (v : Value) :
    storeIn r k v c ⟨st, s⟩ = .done () ⟨st, s.rawSet r k v⟩ := by
  have hraw (site : Site) : Script.Operators.rawStore site r k v s = .done () (s.rawSet r k v) := by
    simp only [Script.Operators.rawStore, hk]
    rfl
  have hstore : Script.Operators.store c.call c.site none (.table r) k v s = .done () (s.rawSet r k v) := by
    rw [Script.Operators.store, Script.Operators.chainLimit, Script.Operators.storeFrom, Script.Eval.get_bind_run, hr]
    cases s.rawGet r k <;> exact hraw c.site
  rw [storeIn, state_bind]
  cases hm : s.metatable? r with
  | none => exact primitive_done (hraw Site.host)
  | some m => exact primitive_done hstore

theorem setTable_run {s : State} {r : Script.TableRef} {k : Value}
    (hr : (Value.table r).handler s "__newindex" = .nil) (hk : k.badKey? = none) (st : List Value) (v : Value) :
    setTable c ⟨v :: k :: .table r :: st, s⟩ = .done () ⟨.table r :: st, s.rawSet r k v⟩ := by
  have hd : ¬ (v :: k :: Value.table r :: st).length < 3 := by
    simp only [List.length_cons]
    omega
  rw [setTable, depth_bind, if_neg hd]
  exact storeIn_run c hr hk _ v

/-- Indexing asks a handler only for what is not there. -/
theorem index_run {s : State} {r : Script.TableRef} {k : Value}
    (hr : s.rawGet r k = .nil → (Value.table r).handler s "__index" = .nil) (call : Call) (site : Site)
    (naming : Option Script.Naming) :
    Script.Operators.index call site naming (.table r) k s = .done (s.rawGet r k) s := by
  rw [Script.Operators.index, Script.Operators.chainLimit, Script.Operators.indexFrom, Script.Eval.get_bind_run]
  cases hv : s.rawGet r k with
  | nil =>
    simp only [hr hv]
    rfl
  | _ => rfl

theorem readFrom_run {s : State} {r : Script.TableRef} {k : Value}
    (hr : s.rawGet r k = .nil → (Value.table r).handler s "__index" = .nil) (st : List Value) :
    readFrom r k c ⟨st, s⟩ = receive (s.rawGet r k) c ⟨st, s⟩ := by
  rw [readFrom, state_bind]
  cases hm : s.metatable? r with
  | none => rfl
  | some m => exact bind_done (primitive_done (index_run hr c.call c.site none)) receive

/-! ### Crossing -/

/-- Only error objects are changed on their way to the host. -/
theorem receive_run {v : Value} (hv : ∀ r, v ≠ .failure r) : receive v c f = .done v f := by
  unfold receive
  split
  next r => exact absurd rfl (hv r)
  next => rfl

/-- A handler for globals is asked only for what is not there. -/
theorem pushGlobal_run {s : State} {n : String} {v : Value} (hget : s.rawGet s.globals (.ofString n) = v)
    (hi : v = .nil → (Value.table s.globals).handler s "__index" = .nil) (hv : ∀ r, v ≠ .failure r)
    (st : List Value) : pushGlobal n c ⟨st, s⟩ = .done () ⟨v :: st, s⟩ := by
  have hread : readFrom s.globals (.ofString n) c ⟨st, s⟩ = .done v ⟨st, s⟩ := by
    rw [readFrom_run c fun hnil => hi (hget.symm.trans hnil), hget, receive_run c _ hv]
  exact bind_done hread push

theorem receiveAll_run {vs : List Value} (h : ∀ v ∈ vs, ∀ r, v ≠ .failure r) : receiveAll vs c f = .done vs f := by
  induction vs with
  | nil => rfl
  | cons v vs ih =>
    obtain ⟨hv, hvs⟩ := List.forall_mem_cons.1 h
    unfold receiveAll
    rw [bind_done (receive_run c f hv), bind_done (ih hvs)]
    rfl

theorem receivePairs_run {ps : List (Value × Value)} (h : ∀ p ∈ ps, (∀ r, p.1 ≠ .failure r) ∧ ∀ r, p.2 ≠ .failure r) :
    receivePairs ps c f = .done ps f := by
  induction ps with
  | nil => rfl
  | cons p ps ih =>
    obtain ⟨h1, h2⟩ := h p List.mem_cons_self
    unfold receivePairs
    rw [bind_done (receive_run c f h1), bind_done (receive_run c f h2),
      bind_done (ih fun q hq => h q (List.mem_cons_of_mem _ hq))]
    rfl

end ScriptHost.Exchange
