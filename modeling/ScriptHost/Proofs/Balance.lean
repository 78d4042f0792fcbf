import ScriptHost.Proofs.Lawful

/-! The stack under the operations of the host. Each part of an operation works on the top of the
stack alone, which it leaves in a known shape, and stops only on a fault that an error object
brings along. -/

namespace ScriptHost.Exchange

open Script (State Value TableRef Call Site Eval)
open Host (Error Fault Kind Table Library)

variable {α β : Type} {R : State → State → Prop} {c : Channel} {st xs : List Value}

/-- The outcome of work above `st`. What lies on top is described after a success; a fault comes
from an error object that was there just before. -/
def Outcome.Above (R : State → State → Prop) (s : State) (st : List Value) (Q : α → List Value → Prop) :
    Outcome α → Prop
  | .done a f => R s f.state ∧ ∃ ys, f.stack = ys ++ st ∧ Q a ys
  | .failed _ f => R s f.state ∧ ∃ ys, f.stack = ys ++ st
  | .stopped fault t => ∃ message u r, fault = .carried message ∧ R s u ∧ u.failure r = .fatal message ∧
      t = u.spend r
  | .exhausted => True

/-- From `xs` above `st`, the exchange never reaches below and leaves what `Q` says. -/
def Works (R : State → State → Prop) (c : Channel) (st xs : List Value) (m : Exchange α)
    (Q : α → List Value → Prop) : Prop :=
  ∀ s, (m c ⟨xs ++ st, s⟩).Above R s st Q

/-- The exchange leaves the stack alone. -/
def Neutral (R : State → State → Prop) (c : Channel) (m : Exchange α) : Prop :=
  ∀ st xs, Works R c st xs m fun _ ys => ys = xs

/-! ### Sequences -/

theorem Outcome.Above.trans (hR : Steady R) {s t : State} {Q : α → List Value → Prop} (h : R s t) :
    ∀ {o : Outcome α}, o.Above R t st Q → o.Above R s st Q
  | .done _ _, h' => ⟨hR.trans h h'.1, h'.2⟩
  | .failed _ _, h' => ⟨hR.trans h h'.1, h'.2⟩
  | .stopped _ _, ⟨message, u, r, hf, hu, hr, ht⟩ => ⟨message, u, r, hf, hR.trans h hu, hr, ht⟩
  | .exhausted, _ => trivial

theorem works_pure (hR : Steady R) {Q : α → List Value → Prop} {a : α} (h : Q a xs) :
    Works R c st xs (pure a) Q :=
  fun s => ⟨hR.refl s, xs, rfl, h⟩

theorem works_fail (hR : Steady R) {Q : α → List Value → Prop} (e : Error) : Works R c st xs (fail e) Q :=
  fun s => ⟨hR.refl s, xs, rfl⟩

theorem Works.bind (hR : Steady R) {m : Exchange α} {g : α → Exchange β} {Q : α → List Value → Prop}
    {Q' : β → List Value → Prop} (hm : Works R c st xs m Q)
    (hg : ∀ a ys, Q a ys → Works R c st ys (g a) Q') : Works R c st xs (m >>= g) Q' := by
  intro s
  have hs := hm s
  rw [bind_run]
  cases h : m c ⟨xs ++ st, s⟩ with
  | done a f =>
    rw [h] at hs
    obtain ⟨hst, ys, hys, ha⟩ := hs
    obtain ⟨fs, t⟩ := f
    obtain rfl : fs = ys ++ st := hys
    exact (hg a ys ha t).trans hR hst
  | failed e f =>
    rw [h] at hs
    exact hs
  | stopped fault t =>
    rw [h] at hs
    exact hs
  | exhausted => trivial

theorem Works.imp {m : Exchange α} {Q Q' : α → List Value → Prop} (hm : Works R c st xs m Q)
    (h : ∀ a ys, Q a ys → Q' a ys) : Works R c st xs m Q' := by
  intro s
  have hs := hm s
  cases hr : m c ⟨xs ++ st, s⟩ with
  | done a f =>
    rw [hr] at hs
    obtain ⟨hst, ys, hys, ha⟩ := hs
    exact ⟨hst, ys, hys, h a ys ha⟩
  | failed e f =>
    rw [hr] at hs
    exact hs
  | stopped fault t =>
    rw [hr] at hs
    exact hs
  | exhausted => trivial

theorem Neutral.then (hR : Steady R) {m : Exchange α} {g : α → Exchange β} {Q : β → List Value → Prop}
    (hm : Neutral R c m) (hg : ∀ a, Works R c st xs (g a) Q) : Works R c st xs (m >>= g) Q :=
  (hm st xs).bind hR fun a _ h => h ▸ hg a

theorem Neutral.bind (hR : Steady R) {m : Exchange α} {g : α → Exchange β} (hm : Neutral R c m)
    (hg : ∀ a, Neutral R c (g a)) : Neutral R c (m >>= g) :=
  fun st xs => hm.then hR fun a => hg a st xs

theorem neutral_pure (hR : Steady R) (a : α) : Neutral R c (pure a) := fun _ _ => works_pure hR rfl

theorem neutral_fail (hR : Steady R) (e : Error) : Neutral R c (fail e : Exchange α) := fun _ _ => works_fail hR e

theorem neutral_state (hR : Steady R) : Neutral R c state := fun _ xs s => ⟨hR.refl s, xs, rfl, rfl⟩

theorem neutral_emit (hR : Steady R) (origin : Origin) (level : Level) (message : String) :
    Neutral R c (emit origin level message) :=
  fun _ xs s => ⟨hR.emit s origin level message, xs, rfl, rfl⟩

/-- What is cut away after a failure lies above the start. -/
theorem Works.balanced {m : Exchange α} {Q : α → List Value → Prop} (hm : Works R c (xs ++ st) [] m Q) :
    Works R c st xs (balanced m) fun a ys => ∃ zs, ys = zs ++ xs ∧ Q a zs := by
  intro s
  have hs := hm s
  rw [List.nil_append] at hs
  unfold Exchange.balanced
  cases hr : m c ⟨xs ++ st, s⟩ with
  | done a f =>
    rw [hr] at hs
    obtain ⟨hst, zs, hzs, ha⟩ := hs
    exact ⟨hst, zs ++ xs, by rw [hzs, List.append_assoc], zs, rfl, ha⟩
  | failed e f =>
    rw [hr] at hs
    obtain ⟨hst, zs, hzs⟩ := hs
    refine ⟨hst, xs, ?_⟩
    simp [hzs]
  | stopped fault t =>
    rw [hr] at hs
    exact hs
  | exhausted => trivial

/-! ### Script code and tables -/

section Parts

variable (hR : Steady R) (hc : c.call.Keeps R)
include hR

theorem receive_neutral (v : Value) : Neutral R c (receive v) := by
  intro st xs s
  unfold receive
  split
  next r =>
    rw [state_bind]
    cases h : s.failure r with
    | fatal message =>
      simp only
      exact ⟨message, s, r, rfl, hR.refl s, h, rfl⟩
    | spent =>
      simp only
      exact ⟨hR.refl s, xs, rfl, rfl⟩
    | error text =>
      simp only
      exact ⟨hR.refl s, xs, rfl, rfl⟩
  next => exact ⟨hR.refl s, xs, rfl, rfl⟩

theorem receiveAll_neutral (vs : List Value) : Neutral R c (receiveAll vs) := by
  induction vs with
  | nil => exact neutral_pure hR _
  | cons v vs ih =>
    apply (receive_neutral hR v).bind hR
    intro w
    exact ih.bind hR fun ws => neutral_pure hR _

theorem receivePairs_neutral (ps : List (Value × Value)) : Neutral R c (receivePairs ps) := by
  induction ps with
  | nil => exact neutral_pure hR _
  | cons p ps ih =>
    apply (receive_neutral hR p.1).bind hR
    intro k
    apply (receive_neutral hR p.2).bind hR
    intro v
    exact ih.bind hR fun rest => neutral_pure hR _

theorem entriesOf_neutral (r : TableRef) : Neutral R c (entriesOf r) :=
  (neutral_state hR).bind hR fun _ => receivePairs_neutral hR _

theorem keep_neutral (t : Table) (key : String) (v : Host.Value) : Neutral R c (keep t key v) := by
  unfold keep
  split
  · exact (neutral_emit hR _ _ _).bind hR fun _ => neutral_pure hR _
  · exact (neutral_pure hR ()).bind hR fun _ => neutral_pure hR _

theorem convert?_neutral {sub : TableRef → Exchange Table} (hs : ∀ r, Neutral R c (sub r)) (v : Value) :
    Neutral R c (convert? sub v) := by
  cases v with
  | table r => exact (hs r).bind hR fun t => neutral_pure hR _
  | function r => exact (neutral_state hR).bind hR fun s => neutral_pure hR _
  | _ => exact neutral_pure hR _

theorem drainPairs_neutral {sub : TableRef → Exchange Table} (hs : ∀ r, Neutral R c (sub r))
    (ps : List (Value × Value)) (t : Table) : Neutral R c (drainPairs sub ps t) := by
  induction ps generalizing t with
  | nil => exact neutral_pure hR _
  | cons p ps ih =>
    unfold drainPairs
    split
    · exact (neutral_emit hR _ _ _).bind hR fun _ => ih t
    · apply (convert?_neutral hR hs _).bind hR
      intro stored
      split
      · exact (keep_neutral hR _ _ _).bind hR fun t => ih t
      · exact (neutral_emit hR _ _ _).bind hR fun _ => ih t

theorem drainInto_neutral (n : Nat) (r : TableRef) (t : Table) : Neutral R c (drainInto n r t) := by
  induction n generalizing r t with
  | zero => exact fun _ _ _ => trivial
  | succ n ih =>
    apply (entriesOf_neutral hR r).bind hR
    intro pairs
    apply (drainPairs_neutral hR (fun r => ih r {}) pairs t).bind hR
    intro t
    exact (neutral_emit hR _ _ _).bind hR fun _ => neutral_pure hR t

include hc

omit hR in
theorem attempt_neutral {m : Call → Site → Eval α} (hm : ∀ call site, call.Keeps R → (m call site).Keeps R) :
    Neutral R c (attempt m) := by
  intro st xs s
  have hs := hm c.call c.site hc s
  unfold attempt
  cases h : m c.call c.site s with
  | done a t =>
    rw [h] at hs
    exact ⟨hs, xs, rfl, rfl⟩
  | raised v t =>
    rw [h] at hs
    simp only
    split
    next r =>
      split
      next message hr => exact ⟨message, t, r, rfl, hs, hr, rfl⟩
      next => exact ⟨hs, xs, rfl, rfl⟩
    next => exact ⟨hs, xs, rfl, rfl⟩
  | exhausted => trivial

theorem primitive_neutral {m : Call → Site → Eval α} (hm : ∀ call site, call.Keeps R → (m call site).Keeps R) :
    Neutral R c (primitive m) := by
  apply (attempt_neutral hc hm).bind hR
  intro r
  cases r with
  | ok a => exact neutral_pure hR a
  | error message => exact neutral_fail hR _

theorem storeIn_neutral (r : TableRef) (k v : Value) : Neutral R c (storeIn r k v) := by
  apply (neutral_state hR).bind hR
  intro s
  split
  · exact primitive_neutral hR hc fun _ _ _ => Script.Operators.rawStore_keeps hR.toSteady _ _ _ _
  · exact primitive_neutral hR hc fun _ _ h => Script.Operators.store_keeps hR.toSteady h _ _ _ _ _

theorem readFrom_neutral (r : TableRef) (k : Value) : Neutral R c (readFrom r k) := by
  apply (neutral_state hR).bind hR
  intro s
  split
  · exact receive_neutral hR _
  · refine (primitive_neutral hR hc fun _ _ h => ?_).bind hR fun v => receive_neutral hR v
    exact Script.Operators.index_keeps hR.toSteady h _ _ _ _

theorem setTable_works (v k : Value) (r : TableRef) :
    Works R c st (v :: k :: .table r :: xs) setTable fun _ ys => ys = .table r :: xs := by
  intro s
  have hd : ¬ (v :: k :: Value.table r :: (xs ++ st)).length < 3 := by
    simp only [List.length_cons]
    omega
  change Outcome.Above R s st _ (setTable c ⟨v :: k :: .table r :: (xs ++ st), s⟩)
  rw [setTable, depth_bind, if_neg hd]
  exact storeIn_neutral hR hc r k v st (.table r :: xs) s

theorem pushGlobal_works (name : String) :
    Works R c st xs (pushGlobal name) fun _ ys => ∃ v, ys = v :: xs := by
  apply (neutral_state hR).then hR
  intro s
  apply (readFrom_neutral hR hc _ _).then hR
  intro v s
  exact ⟨hR.refl s, v :: xs, rfl, v, rfl⟩

theorem popIntoGlobal_works (name : String) (v : Value) :
    Works R c st (v :: xs) (popIntoGlobal name) fun _ ys => ys = xs := by
  have hpop : Works R c st (v :: xs) popValue fun _ ys => ys = xs := fun s => ⟨hR.refl s, xs, rfl, rfl⟩
  apply hpop.bind hR
  intro w ys hys
  subst hys
  exact (neutral_state hR).then hR fun s => storeIn_neutral hR hc _ _ _ st ys

/-! ### Host values -/

set_option linter.unusedSectionVars false in
mutual

theorem pushHost_works (v : Host.Value) (st xs : List Value) :
    Works R c st xs (pushHost v) fun _ ys => ∃ w, ys = w :: xs := by
  cases v with
  | number x => exact fun s => ⟨hR.refl s, _ :: xs, rfl, _, rfl⟩
  | text t => exact fun s => ⟨hR.refl s, _ :: xs, rfl, _, rfl⟩
  | boolean b => exact fun s => ⟨hR.refl s, _ :: xs, rfl, _, rfl⟩
  | pointer p => exact fun s => ⟨hR.refl s, _ :: xs, rfl, _, rfl⟩
  | function f => exact fun s => ⟨hR.wrap s f, _ :: xs, rfl, _, rfl⟩
  | table es =>
    have hnew : Works R c (xs ++ st) [] newTable fun _ ys => ∃ r, ys = [.table r] :=
      fun s => ⟨hR.newTable s, [.table s.tables.size], rfl, _, rfl⟩
    have hfill : Works R c (xs ++ st) [] (do newTable; pushEntries es) fun _ ys => ∃ r, ys = [.table r] := by
      apply hnew.bind hR
      intro _ ys hys
      obtain ⟨r, rfl⟩ := hys
      exact (pushEntries_works es (xs ++ st) [] r).imp fun _ zs hzs => ⟨r, hzs⟩
    unfold pushHost
    refine hfill.balanced.imp fun _ ys ⟨zs, hys, r, hzs⟩ => ⟨.table r, ?_⟩
    rw [hys, hzs]
    rfl

theorem pushEntries_works (es : List (String × Host.Value)) (st xs : List Value) (r : TableRef) :
    Works R c st (.table r :: xs) (pushEntries es) fun _ ys => ys = .table r :: xs := by
  cases es with
  | nil => exact works_pure hR rfl
  | cons e es =>
    have hkey : Works R c st (.table r :: xs) (push (Host.scriptKey e.1)) fun _ ys =>
        ys = Host.scriptKey e.1 :: .table r :: xs :=
      fun s => ⟨hR.refl s, Host.scriptKey e.1 :: .table r :: xs, rfl, rfl⟩
    unfold pushEntries
    apply hkey.bind hR
    intro _ ys hys
    subst hys
    apply (pushHost_works e.2 st _).bind hR
    intro _ ys hys
    obtain ⟨w, rfl⟩ := hys
    apply (setTable_works hR hc w _ r).bind hR
    intro _ ys hys
    subst hys
    exact pushEntries_works es st xs r

end

theorem pushAll_works (vs : List Host.Value) :
    Works R c st xs (pushAll vs) fun _ ys => ∃ ws, ws.length = vs.length ∧ ys = ws ++ xs := by
  induction vs generalizing xs with
  | nil => exact works_pure hR ⟨[], rfl, rfl⟩
  | cons v vs ih =>
    apply (pushHost_works hR hc v st xs).bind hR
    intro _ ys hys
    obtain ⟨w, rfl⟩ := hys
    refine ih.imp fun _ zs ⟨ws, hlen, hzs⟩ => ⟨ws ++ [w], ?_, ?_⟩
    · simp [hlen]
    · simp [hzs]

omit hc in
theorem drainTop_works (r : TableRef) (t : Table) :
    Works R c st (.table r :: xs) (drainTop t) fun _ ys => ys = xs := by
  intro s
  change Outcome.Above R s st _ (drainTop t c ⟨.table r :: (xs ++ st), s⟩)
  rw [drainTop, peek_bind]
  have hdrain : Neutral R c (drain r t) := (neutral_state hR).bind hR fun s => drainInto_neutral hR _ r t
  have hpop (t : Table) : Works R c st (.table r :: xs) (do pop 1; pure t) fun _ ys => ys = xs :=
    fun s => ⟨hR.refl s, xs, rfl, rfl⟩
  exact hdrain.then hR hpop s

omit hc in
/-- Reading a table takes it off the stack, all else stays. -/
theorem construct_works (kind : Kind) (v : Value) (hv : kind = .table → ∃ r, v = .table r) :
    Works R c st (v :: xs) (construct kind) fun _ ys => ys = if kind = .table then xs else v :: xs := by
  have stays (o : Option Host.Value) :
      Works R c st (v :: xs) (orMismatch kind (some v) o) fun _ ys => ys = v :: xs := by
    cases o with
    | none => exact works_fail hR _
    | some w => exact works_pure hR rfl
  intro s
  change Outcome.Above R s st _ (construct kind c ⟨v :: (xs ++ st), s⟩)
  rw [construct, state_bind, peek_bind]
  cases kind with
  | number | text | pointer => exact stays _ s
  | boolean => exact ⟨hR.refl s, v :: xs, rfl, rfl⟩
  | function =>
    simp only [List.head?_cons, Option.bind_some]
    cases toHostFunction? s v with
    | some f => exact ⟨hR.refl s, v :: xs, rfl, rfl⟩
    | none => exact ⟨hR.refl s, v :: xs, rfl⟩
  | table =>
    obtain ⟨r, rfl⟩ := hv rfl
    exact (drainTop_works hR r {}).bind hR (fun t ys hys => works_pure hR hys) s

omit hc in
theorem take_works (kind : Kind) (v : Value) (hv : kind = .table → ∃ r, v = .table r) :
    Works R c st (v :: xs) (take kind) fun _ ys => ys = xs := by
  have hpop (w : Host.Value) : Works R c st (v :: xs) (do pop 1; pure w) fun _ ys => ys = xs :=
    fun s => ⟨hR.refl s, xs, rfl, rfl⟩
  intro s
  rw [take, depth_bind]
  refine (construct_works hR kind v hv).bind hR (fun w ys hys s => ?_) s
  rw [depth_bind]
  by_cases hk : kind = .table
  · rw [if_pos hk] at hys
    subst hys
    have hne : ¬ (ys ++ st).length = (v :: ys ++ st).length := by
      simp only [List.cons_append, List.length_cons]
      omega
    rw [if_neg hne]
    exact ⟨hR.refl s, ys, rfl, rfl⟩
  · rw [if_neg hk] at hys
    subst hys
    rw [if_pos rfl]
    exact hpop w s

omit hc in
/-- Only a table passes for one. -/
theorem check_works (kind : Kind) (v : Value) :
    Works R c st (v :: xs) (check kind) fun ok ys => ys = v :: xs ∧
      (ok = true → kind = .table → ∃ r, v = .table r) := by
  refine fun s => ⟨hR.refl s, v :: xs, rfl, rfl, ?_⟩
  rintro hok rfl
  cases v with
  | table r => exact ⟨r, rfl⟩
  | _ => cases hok

omit hc in
theorem popSlot_works (kind : Kind) (v : Value) :
    Works R c st (v :: xs) (popSlot .checked kind) fun _ ys => ys = xs := by
  intro s
  rw [popSlot, peek_bind]
  refine (check_works hR kind v).bind hR (fun ok ys ⟨hys, hok⟩ => ?_) s
  subst hys
  split
  next h => exact take_works hR kind v (hok h)
  next => exact works_fail hR _

omit hc in
theorem popDown_works (kinds : List Kind) (h : xs.length = kinds.length) :
    Works R c st xs (popDown .checked kinds) fun _ ys => ys = [] := by
  induction kinds generalizing xs with
  | nil => exact works_pure hR (List.length_eq_zero_iff.1 h)
  | cons k ks ih =>
    obtain ⟨v, ys, rfl⟩ := List.exists_cons_of_length_eq_add_one h
    apply (popSlot_works hR k v).bind hR
    intro w zs hzs
    subst hzs
    apply (ih (by simpa using h)).bind hR
    intro ws zs hzs
    exact works_pure hR hzs

omit hc in
theorem popAll_works (kinds : List Kind) (h : xs.length = kinds.length) :
    Works R c st xs (popAll .checked kinds) fun _ ys => ys = [] :=
  (popDown_works hR kinds.reverse (by simpa using h)).bind hR fun _ _ hys => works_pure hR hys

/-! ### Protected calls -/

omit hc in
/-- A success has put the results onto the stack, a failure nothing. -/
theorem deliver_works (results : Nat) (outcome : Except String (List Value)) :
    Works R c st xs (deliver results outcome) fun outcome ys =>
      (outcome = .ok () → ∃ ws, ws.length = results ∧ ys = ws ++ xs) ∧ ∀ m, outcome = .error m → ys = xs := by
  cases outcome with
  | ok all =>
    apply (receiveAll_neutral hR all).then hR
    intro ws s
    refine ⟨hR.refl s, ((ws ++ List.replicate results Value.nil).take results).reverse ++ xs, ?_, ?_, ?_⟩
    · exact (List.append_assoc ..).symm
    · exact fun _ => ⟨_, by simp, rfl⟩
    · intro m hm
      cases hm
  | error message =>
    refine (neutral_emit hR _ _ _).then hR fun _ => works_pure hR ⟨fun h => ?_, fun _ _ => rfl⟩
    cases h

/-- The function and its arguments are gone afterwards; a success has put the results in their place. -/
theorem protectedCall_works (vs : List Value) (callee : Value) (results : Nat) :
    Works R c st (vs ++ callee :: xs) (protectedCall vs.length results) fun outcome ys =>
      (outcome = .ok () → ∃ ws, ws.length = results ∧ ys = ws ++ xs) ∧ ∀ m, outcome = .error m → ys = xs := by
  intro s
  rw [List.append_assoc, List.cons_append, protectedCall_eq]
  cases callee with
  | function r => exact (attempt_neutral hc fun _ _ h => h _ _ _).then hR (deliver_works hR results) s
  | _ => exact (neutral_pure hR _).then hR (deliver_works hR results) s

end Parts

end ScriptHost.Exchange
