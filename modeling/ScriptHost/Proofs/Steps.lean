import ScriptHost.Proofs.ScriptTables
import ScriptHost.Script.Evaluation

/-! What script code can do to a state by itself. A regime says what holds of every state and of every
value at hand, and how a later state relates to an earlier one. What allows each of a few writes holds
across any piece of script, whatever it computes and however it ends, provided that it holds across
the calls of host functions. -/

namespace ScriptHost.Script

namespace Value

/-- A value that refers to a table or a function. -/
def IsReference : Value → Prop
  | .table _ | .function _ => True
  | _ => False

theorem IsReference.asKey {v : Value} (h : v.IsReference) : v.asKey = v := by
  cases v with
  | number => cases h
  | _ => rfl

theorem IsReference.asKey_ne {v : Value} (h : v.IsReference) (k : String) : v.asKey ≠ .ofString k := by
  rw [h.asKey]
  rintro rfl
  cases h

end Value

/-- The values of a table constructor, stored under `1`, `2`, … -/
def Table.positional (vs : List Value) (t : Table) : Table :=
  { (vs.zipIdx 1).foldl (fun t (v, i) => t.set (.ofNat i) v) t with reserved := vs.length }

theorem Eval.get_bind_run {α : Type} (f : State → Eval α) (s : State) : (Eval.get >>= f) s = f s s := rfl

/-! ### Regimes -/

structure Regime where
  /-- What holds of every state. -/
  Inv : State → Prop
  /-- What holds of every value at hand in a state. -/
  Fit : State → Value → Prop
  /-- How a later state relates to an earlier one. -/
  Rel : State → State → Prop
  refl (s : State) : Rel s s
  trans {s t u : State} : Rel s t → Rel t u → Rel s u
  mono {s t : State} {v : Value} : Rel s t → Fit s v → Fit t v
  fit_of_not_isReference {v : Value} (s : State) : ¬v.IsReference → Fit s v
  fit_builtin {s : State} (b : Builtin) : Inv s → Fit s (.function b.ref)
  fit_globals {s : State} : Inv s → Fit s (.table s.globals)
  fit_entry {s : State} {r : TableRef} {e : Value × Value} : Inv s → e ∈ (s.table r).entries → Fit s e.1 ∧ Fit s e.2
  fit_metatable {s : State} {r m : TableRef} : Inv s → s.metatable? r = some m → Fit s (.table m)
  fit_cell {s : State} (i : Nat) : Inv s → Fit s (s.cell i)
  newTable {s : State} : Inv s → Rel s (s.newTable {}).2 ∧ Inv (s.newTable {}).2 ∧
    Fit (s.newTable {}).2 (.table (s.newTable {}).1)
  newClosure {s : State} (body : FunctionBody) (scope : Scope) (depth : Nat) (source : ByteArray) : Inv s →
    Rel s (s.newFunction (.closure body scope depth source)).2 ∧
      Inv (s.newFunction (.closure body scope depth source)).2 ∧
      Fit (s.newFunction (.closure body scope depth source)).2
        (.function (s.newFunction (.closure body scope depth source)).1)
  newCell {s : State} {v : Value} : Inv s → Fit s v → Rel s (s.newCell v).2 ∧ Inv (s.newCell v).2
  newThread {s : State} : Inv s → Rel s s.newThread.2 ∧ Inv s.newThread.2
  setCell {s : State} {v : Value} (r : Nat) : Inv s → Fit s v → Rel s (s.setCell r v) ∧ Inv (s.setCell r v)
  rawSet {s : State} {k v : Value} (r : TableRef) : Inv s → k.badKey? = none → Fit s k → Fit s v →
    Rel s (s.rawSet r k v) ∧ Inv (s.rawSet r k v)
  storePositional {s : State} {vs : List Value} (r : TableRef) : Inv s → (∀ v ∈ vs, Fit s v) →
    Rel s (s.modifyTable r (Table.positional vs)) ∧ Inv (s.modifyTable r (Table.positional vs))
  setMetatable {s : State} {m : Option TableRef} (r : TableRef) : Inv s → (∀ q, m = some q → Fit s (.table q)) →
    Rel s (s.setMetatable r m) ∧ Inv (s.setMetatable r m)

namespace Regime

variable (G : Regime) {s t : State}

/-- All of some values fit. -/
def Fits (s : State) (vs : List Value) : Prop := ∀ v ∈ vs, G.Fit s v

/-- How a piece of script may have ended that started in the given state. -/
def After {α : Type} (s : State) (P : State → α → Prop) : Flow α → Prop
  | .done a t => G.Rel s t ∧ G.Inv t ∧ P t a
  | .raised e t => G.Rel s t ∧ G.Inv t ∧ G.Fit t e
  | .exhausted => True

/-- Whatever a piece of script computes from the given state, the regime holds at its end. -/
def Ends {α : Type} (s : State) (P : State → α → Prop) (m : Eval α) : Prop := G.After s P (m s)

variable {G}

theorem fits_nil : G.Fits s [] := by
  intro v hv
  cases hv

theorem Fits.cons {v : Value} {vs : List Value} (hv : G.Fit s v) (hvs : G.Fits s vs) : G.Fits s (v :: vs) :=
  List.forall_mem_cons.2 ⟨hv, hvs⟩

theorem fits_one {v : Value} (hv : G.Fit s v) : G.Fits s [v] := .cons hv fits_nil

theorem Fits.mono {vs : List Value} (h : G.Fits s vs) (hst : G.Rel s t) : G.Fits t vs :=
  fun v hv => G.mono hst (h v hv)

theorem Fits.drop {vs : List Value} (h : G.Fits s vs) (n : Nat) : G.Fits s (vs.drop n) :=
  fun v hv => h v (List.mem_of_mem_drop hv)

theorem Fits.first {vs : List Value} (h : G.Fits s vs) : G.Fit s (Value.first vs) := by
  cases vs with
  | nil => exact G.fit_of_not_isReference s id
  | cons v vs => exact h v List.mem_cons_self

theorem fit_find (hs : G.Inv s) (r : TableRef) (k : Value) : G.Fit s (Table.find k (s.table r).entries) := by
  by_cases hv : Table.find k (s.table r).entries = .nil
  · rw [hv]
    exact G.fit_of_not_isReference s id
  · exact (G.fit_entry hs (Table.mem_of_find rfl hv)).2

theorem fit_rawGet (hs : G.Inv s) (r : TableRef) (k : Value) : G.Fit s (s.rawGet r k) := fit_find hs r k.asKey

theorem fit_handler (hs : G.Inv s) (event : String) (v : Value) : G.Fit s (v.handler s event) := by
  unfold Value.handler
  split
  · split
    · exact fit_rawGet hs _ _
    · exact G.fit_of_not_isReference s id
  · exact G.fit_of_not_isReference s id

/-! ### Sequences -/

variable {α β : Type} {P : State → α → Prop} {Q : State → β → Prop}

theorem ends_pure {a : α} (hs : G.Inv s) (h : P s a) : G.Ends s P (pure a) := ⟨G.refl s, hs, h⟩

theorem ends_plain {v : Value} (hs : G.Inv s) (h : ¬v.IsReference) : G.Ends s G.Fit (pure v) :=
  ends_pure hs (G.fit_of_not_isReference s h)

theorem ends_raise {e : Value} (hs : G.Inv s) (h : G.Fit s e) : G.Ends s P (Eval.raise e) := ⟨G.refl s, hs, h⟩

theorem ends_exhausted : G.Ends s P Eval.exhausted := trivial

theorem ends_modify {f : State → State} (h : G.Rel s (f s) ∧ G.Inv (f s)) :
    G.Ends s (fun _ _ => True) (Eval.modify f) :=
  ⟨h.1, h.2, trivial⟩

theorem ends_act {f : State → α × State} (h : G.Rel s (f s).2 ∧ G.Inv (f s).2 ∧ P (f s).2 (f s).1) :
    G.Ends s P (Eval.act f) := h

theorem Ends.bind {m : Eval α} {f : α → Eval β} (hm : G.Ends s P m)
    (hf : ∀ a t, G.Rel s t → G.Inv t → P t a → G.Ends t Q (f a)) : G.Ends s Q (m >>= f) := by
  change G.After s Q (match m s with
    | .done a s => f a s
    | .raised e s => .raised e s
    | .exhausted => .exhausted)
  unfold Ends at hm
  cases h : m s with
  | done a t =>
    rw [h] at hm
    have ht := hf a t hm.1 hm.2.1 hm.2.2
    unfold Ends at ht
    cases hft : f a t with
    | done b u | raised b u =>
      rw [hft] at ht
      simp only [hft]
      exact ⟨G.trans hm.1 ht.1, ht.2⟩
    | exhausted =>
      simp only [hft]
      trivial
  | raised e t =>
    rw [h] at hm
    exact hm
  | exhausted => trivial

theorem Ends.map {m : Eval α} (g : α → β) (hm : G.Ends s P m) (hg : ∀ a t, G.Rel s t → P t a → Q t (g a)) :
    G.Ends s Q (g <$> m) :=
  hm.bind fun a t hst ht ha => ends_pure ht (hg a t hst ha)

/-- A computation that looks at the state first. -/
theorem ends_get {f : State → Eval β} (h : G.Ends s Q (f s)) : G.Ends s Q (Eval.get >>= f) := h

theorem Ends.ite {p : Prop} [Decidable p] {m n : Eval α} (hm : G.Ends s P m) (hn : G.Ends s P n) :
    G.Ends s P (if p then m else n) := by
  split
  · exact hm
  · exact hn

theorem Ends.attempt {m : Eval α} (h : G.Ends s P m) :
    G.Ends s (fun t r => (∀ a, r = .ok a → P t a) ∧ ∀ e, r = .error e → G.Fit t e) m.attempt := by
  unfold Ends at h
  unfold Ends Eval.attempt
  cases hm : m s with
  | done a t =>
    rw [hm] at h
    refine ⟨h.1, h.2.1, ?_, ?_⟩
    · rintro _ ⟨⟩
      exact h.2.2
    · rintro _ ⟨⟩
  | raised e t =>
    rw [hm] at h
    refine ⟨h.1, h.2.1, ?_, ?_⟩
    · rintro _ ⟨⟩
    · rintro _ ⟨⟩
      exact h.2.2
  | exhausted => trivial

/-- Calls under the regime. -/
def Calls (G : Regime) (call : Call) : Prop :=
  ∀ (s : State) (r : FunctionRef) (vs : List Value) (site : CallSite), G.Inv s → G.Fits s vs →
    G.Ends s G.Fits (call r vs site)

end Regime

/-! ### Errors -/

namespace Site

open Regime

variable {G : Regime} {s : State} (hs : G.Inv s) {α : Type} {P : State → α → Prop} (site : Site)
include hs

theorem failBytes_ends (message : ByteArray) : G.Ends s P (site.failBytes message) :=
  ends_raise hs (G.fit_of_not_isReference s id)

theorem fail_ends (message : String) : G.Ends s P (site.fail message) := site.failBytes_ends hs _

theorem typeError_ends (operation : String) (v : Value) (naming : Option Naming) :
    G.Ends s P (site.typeError operation v naming) := site.failBytes_ends hs _

end Site

/-! ### Operators -/

namespace Operators

open Regime

variable {G : Regime} {call : Call} (hc : G.Calls call) (site : Site) {s : State} (hs : G.Inv s)
include hs

theorem rawStore_ends (r : TableRef) {k v : Value} (hk : G.Fit s k) (hv : G.Fit s v) :
    G.Ends s (fun _ _ => True) (rawStore site r k v) := by
  unfold rawStore
  split
  · exact site.fail_ends hs _
  next h => exact ends_modify (G.rawSet r hs h hk hv)

include hc

theorem apply_ends (naming : Option Naming) (n : Nat) {f : Value} (hf : G.Fit s f) {args : List Value}
    (ha : G.Fits s args) : G.Ends s G.Fits (apply call site naming n f args) := by
  fun_induction apply call site naming n f args with
  | case1 => exact hc s _ _ _ hs ha
  | case2 => exact site.typeError_ends hs _ _ _
  | case3 n f args _ ih =>
    apply ends_get
    have hh := fit_handler hs "__call" f
    split
    · exact site.typeError_ends hs _ _ _
    · exact ih _ hh (ha.cons hf)

theorem invoke_ends (naming : Option Naming) {f : Value} (hf : G.Fit s f) {args : List Value}
    (ha : G.Fits s args) : G.Ends s G.Fits (invoke call site naming f args) :=
  apply_ends hc site hs naming _ hf ha

theorem invoke1_ends {f : Value} (hf : G.Fit s f) {args : List Value} (ha : G.Fits s args) :
    G.Ends s G.Fit (invoke1 call site f args) :=
  (invoke_ends hc site hs none hf ha).map _ fun _ _ _ h => h.first

theorem indexFrom_ends (n : Nat) (naming : Option Naming) {o k : Value} (ho : G.Fit s o) (hk : G.Fit s k) :
    G.Ends s G.Fit (indexFrom call site n naming o k) := by
  induction n generalizing naming o with
  | zero => exact site.fail_ends hs _
  | succ n ih =>
    cases o with
    | table r =>
      unfold indexFrom
      apply ends_get
      have hv := fit_rawGet hs r k
      have hh := fit_handler hs "__index" (.table r)
      split
      · split
        · exact ends_plain hs id
        · exact Ends.map _ (hc s _ _ _ hs ((fits_one hk).cons ho)) fun _ _ _ h => h.first
        · exact ih none hh
      · exact ends_pure hs hv
    | text b => exact ends_plain hs id
    | _ => exact site.typeError_ends hs _ _ _

theorem index_ends (naming : Option Naming) {o k : Value} (ho : G.Fit s o) (hk : G.Fit s k) :
    G.Ends s G.Fit (index call site naming o k) :=
  indexFrom_ends hc site hs _ naming ho hk

theorem storeFrom_ends (n : Nat) (naming : Option Naming) {o k v : Value} (ho : G.Fit s o) (hk : G.Fit s k)
    (hv : G.Fit s v) : G.Ends s (fun _ _ => True) (storeFrom call site n naming o k v) := by
  induction n generalizing naming o with
  | zero => exact site.fail_ends hs _
  | succ n ih =>
    cases o with
    | table r =>
      unfold storeFrom
      apply ends_get
      have hh := fit_handler hs "__newindex" (.table r)
      split
      · apply (hc s _ _ _ hs (((fits_one hv).cons hk).cons ho)).bind
        intro _ t _ ht _
        exact ends_pure ht trivial
      · exact rawStore_ends site hs r hk hv
      · exact ih none hh
      · exact rawStore_ends site hs r hk hv
    | _ => exact site.typeError_ends hs _ _ _

theorem store_ends (naming : Option Naming) {o k v : Value} (ho : G.Fit s o) (hk : G.Fit s k) (hv : G.Fit s v) :
    G.Ends s (fun _ _ => True) (store call site naming o k v) :=
  storeFrom_ends hc site hs _ naming ho hk hv

/-- A handler of two operands. -/
theorem invoke2_ends {f a b : Value} (hf : G.Fit s f) (ha : G.Fit s a) (hb : G.Fit s b) :
    G.Ends s G.Fit (invoke1 call site f [a, b]) :=
  invoke1_ends hc site hs hf ((fits_one hb).cons ha)

theorem arithmeticFallback_ends (op : Arithmetic) {a b : Value} (ha : G.Fit s a) (hb : G.Fit s b)
    (na nb : Option Naming) : G.Ends s G.Fit (arithmeticFallback call site op a b na nb) := by
  unfold arithmeticFallback
  apply ends_get
  extract_lets event viaStrings isText
  have hha := fit_handler hs event a
  have hhb := fit_handler hs event b
  have hv : G.Ends s G.Fit viaStrings := by
    unfold viaStrings
    split
    · split
      · exact ends_plain hs id
      · exact Site.host.fail_ends hs _
    · split
      · exact site.fail_ends hs _
      · exact invoke2_ends hc site hs hhb ha hb
  split
  · split
    · exact hv
    · split
      · split
        · exact hv
        · split
          · exact site.typeError_ends hs _ _ _
          · exact site.typeError_ends hs _ _ _
      · exact invoke2_ends hc site hs hhb ha hb
  · exact invoke2_ends hc site hs hha ha hb

theorem arithmetic_ends (op : Arithmetic) {a b : Value} (ha : G.Fit s a) (hb : G.Fit s b) (na nb : Option Naming) :
    G.Ends s G.Fit (arithmetic call site op a b na nb) := by
  unfold arithmetic
  split
  · split
    · exact ends_plain hs id
    · exact site.failBytes_ends hs _
    · exact site.fail_ends hs _
  · exact arithmeticFallback_ends hc site hs op ha hb na nb

theorem negate_ends {a : Value} (ha : G.Fit s a) (na : Option Naming) : G.Ends s G.Fit (negate call site a na) := by
  unfold negate
  split
  · exact ends_plain hs id
  · exact ends_plain hs id
  · apply ends_get
    have hh := fit_handler hs "__unm" a
    split
    · split
      · split
        · exact ends_plain hs id
        · exact ends_plain hs id
        · exact site.fail_ends hs _
      · exact site.typeError_ends hs _ _ _
    · exact invoke2_ends hc site hs hh ha ha

theorem bitNot_ends {a : Value} (ha : G.Fit s a) (na : Option Naming) : G.Ends s G.Fit (bitNot call site a na) := by
  unfold bitNot
  split
  · split
    · exact ends_plain hs id
    · exact site.failBytes_ends hs _
  · apply ends_get
    have hh := fit_handler hs "__bnot" a
    split
    · exact site.typeError_ends hs _ _ _
    · exact invoke2_ends hc site hs hh ha ha

theorem length_ends {a : Value} (ha : G.Fit s a) (na : Option Naming) : G.Ends s G.Fit (length call site a na) := by
  unfold length
  apply ends_get
  have hh := fit_handler hs "__len" a
  split
  · exact ends_plain hs id
  · split
    · exact ends_plain hs id
    · exact site.typeError_ends hs _ _ _
    · exact invoke1_ends hc site hs hh (fits_one ha)

theorem concat_ends {a b : Value} (ha : G.Fit s a) (hb : G.Fit s b) (na nb : Option Naming) :
    G.Ends s G.Fit (concat call site a b na nb) := by
  unfold concat
  split
  · exact ends_plain hs id
  · apply ends_get
    have hha := fit_handler hs "__concat" a
    have hhb := fit_handler hs "__concat" b
    split
    · split <;> exact site.typeError_ends hs _ _ _
    · exact invoke2_ends hc site hs hhb ha hb
    · exact invoke2_ends hc site hs hha ha hb

/-- Whether a comparison holds is no reference. -/
theorem equal_ends {a b : Value} (ha : G.Fit s a) (hb : G.Fit s b) :
    G.Ends s (fun _ _ => True) (equal call site a b) := by
  have hha := fit_handler hs "__eq" a
  have hhb := fit_handler hs "__eq" b
  unfold equal
  split
  · exact ends_pure hs trivial
  · split
    · apply ends_get
      split
      · exact ends_pure hs trivial
      · exact (invoke2_ends hc site hs hhb ha hb).map _ fun _ _ _ _ => trivial
      · exact (invoke2_ends hc site hs hha ha hb).map _ fun _ _ _ _ => trivial
    · exact ends_pure hs trivial

theorem order_ends (event : String) (numbers : Numeral → Numeral → Bool)
    (texts : List UInt8 → List UInt8 → Bool) {a b : Value} (ha : G.Fit s a) (hb : G.Fit s b) :
    G.Ends s (fun _ _ => True) (order call site event numbers texts a b) := by
  have hha := fit_handler hs event a
  have hhb := fit_handler hs event b
  unfold order
  split
  · exact ends_pure hs trivial
  · exact ends_pure hs trivial
  · apply ends_get
    split
    · split <;> exact site.fail_ends hs _
    · exact (invoke2_ends hc site hs hhb ha hb).map _ fun _ _ _ _ => trivial
    · exact (invoke2_ends hc site hs hha ha hb).map _ fun _ _ _ _ => trivial

theorem compare_ends (op : Comparison) {a b : Value} (ha : G.Fit s a) (hb : G.Fit s b) :
    G.Ends s G.Fit (compare call site op a b) := by
  unfold compare
  refine Ends.map (P := fun _ _ => True) _ ?_ fun _ t _ _ => G.fit_of_not_isReference t id
  cases op with
  | equal => exact equal_ends hc site hs ha hb
  | notEqual => exact (equal_ends hc site hs ha hb).map _ fun _ _ _ _ => trivial
  | less => exact order_ends hc site hs _ _ _ ha hb
  | lessEqual => exact order_ends hc site hs _ _ _ ha hb
  | greater => exact order_ends hc site hs _ _ _ hb ha
  | greaterEqual => exact order_ends hc site hs _ _ _ hb ha

theorem binary_ends (op : BinaryOp) {a b : Value} (ha : G.Fit s a) (hb : G.Fit s b) (na nb : Option Naming) :
    G.Ends s G.Fit (binary call site op a b na nb) := by
  cases op with
  | arithmetic op => exact arithmetic_ends hc site hs op ha hb na nb
  | compare op => exact compare_ends hc site hs op ha hb
  | concat => exact concat_ends hc site hs ha hb na nb

theorem unary_ends (op : UnaryOp) {a : Value} (ha : G.Fit s a) (na : Option Naming) :
    G.Ends s G.Fit (unary call site op a na) := by
  cases op with
  | negate => exact negate_ends hc site hs ha na
  | length => exact length_ends hc site hs ha na
  | not => exact ends_plain hs id
  | bitNot => exact bitNot_ends hc site hs ha na

theorem toText_ends {v : Value} (hv : G.Fit s v) : G.Ends s (fun _ _ => True) (toText call site v) := by
  have hh := fit_handler hs "__tostring" v
  unfold toText
  apply ends_get
  split
  · exact ends_pure hs trivial
  · apply (invoke1_ends hc site hs hh (fits_one hv)).bind
    intro w t _ ht _
    split
    · exact ends_pure ht trivial
    · exact ends_pure ht trivial
    · exact site.fail_ends ht _

end Operators

/-! ### Relations alone -/

/-- A preorder on states that allows every write of a script: new objects, and changes to tables and
variables. -/
structure Steady (R : State → State → Prop) : Prop where
  refl (s : State) : R s s
  trans {s t u : State} : R s t → R t u → R s u
  newTable (s : State) : R s (s.newTable {}).2
  newClosure (s : State) (body : FunctionBody) (scope : Scope) (depth : Nat) (source : ByteArray) :
    R s (s.newFunction (.closure body scope depth source)).2
  newCell (s : State) (v : Value) : R s (s.newCell v).2
  newThread (s : State) : R s s.newThread.2
  setCell (s : State) (r : Nat) (v : Value) : R s (s.setCell r v)
  rawSet (s : State) (r : TableRef) (k v : Value) : k.badKey? = none → R s (s.rawSet r k v)
  storePositional (s : State) (r : TableRef) (vs : List Value) : R s (s.modifyTable r (Table.positional vs))
  setMetatable (s : State) (r : TableRef) (m : Option TableRef) : R s (s.setMetatable r m)

/-- The regime that asks nothing of states and values. -/
def Steady.regime {R : State → State → Prop} (hR : Steady R) : Regime where
  Inv _ := True
  Fit _ _ := True
  Rel := R
  refl := hR.refl
  trans := hR.trans
  mono _ _ := trivial
  fit_of_not_isReference _ _ := trivial
  fit_builtin _ _ := trivial
  fit_globals _ := trivial
  fit_entry _ _ := ⟨trivial, trivial⟩
  fit_metatable _ _ := trivial
  fit_cell _ _ := trivial
  newTable _ := ⟨hR.newTable _, trivial, trivial⟩
  newClosure body scope depth source _ := ⟨hR.newClosure _ body scope depth source, trivial, trivial⟩
  newCell _ _ := ⟨hR.newCell _ _, trivial⟩
  newThread _ := ⟨hR.newThread _, trivial⟩
  setCell r _ _ := ⟨hR.setCell _ r _, trivial⟩
  rawSet r _ hk _ _ := ⟨hR.rawSet _ r _ _ hk, trivial⟩
  storePositional r _ _ := ⟨hR.storePositional _ r _, trivial⟩
  setMetatable r _ _ := ⟨hR.setMetatable _ r _, trivial⟩

/-- The state at the end is related to the one at the start. -/
def Flow.Within {α : Type} (R : State → State → Prop) (s : State) : Flow α → Prop
  | .done _ t | .raised _ t => R s t
  | .exhausted => True

def Eval.Keeps {α : Type} (R : State → State → Prop) (m : Eval α) : Prop := ∀ s, (m s).Within R s

/-- Calls that keep to a relation. -/
def Call.Keeps (R : State → State → Prop) (call : Call) : Prop := ∀ r vs site, (call r vs site).Keeps R

theorem Regime.Ends.within {G : Regime} {s : State} {α : Type} {P : State → α → Prop} {m : Eval α}
    (h : G.Ends s P m) : (m s).Within G.Rel s := by
  unfold Regime.Ends at h
  cases hm : m s with
  | done a t | raised e t =>
    rw [hm] at h
    exact h.1
  | exhausted => trivial

section Steady

variable {R : State → State → Prop} (hR : Steady R)

theorem Steady.ends {α : Type} {P : State → α → Prop} (hP : ∀ t a, P t a) {m : Eval α} {s : State}
    (h : (m s).Within R s) : hR.regime.Ends s P m := by
  unfold Regime.Ends
  cases hm : m s with
  | done a t =>
    rw [hm] at h
    exact ⟨h, trivial, hP t a⟩
  | raised e t =>
    rw [hm] at h
    exact ⟨h, trivial, trivial⟩
  | exhausted => trivial

theorem Steady.calls {call : Call} (hc : call.Keeps R) : hR.regime.Calls call :=
  fun s r vs site _ _ => hR.ends (fun _ _ _ _ => trivial) (hc r vs site s)

namespace Operators

variable {call : Call} (hc : call.Keeps R) (site : Site)
include hR

theorem rawStore_keeps (r : TableRef) (k v : Value) : (rawStore site r k v).Keeps R := fun s =>
  (rawStore_ends (G := hR.regime) site (s := s) trivial r trivial trivial).within

include hc

theorem index_keeps (naming : Option Naming) (o k : Value) : (index call site naming o k).Keeps R := fun s =>
  (index_ends (hR.calls hc) site (s := s) trivial naming trivial trivial).within

theorem store_keeps (naming : Option Naming) (o k v : Value) : (store call site naming o k v).Keeps R := fun s =>
  (store_ends (hR.calls hc) site (s := s) trivial naming trivial trivial trivial).within

end Operators

end Steady

end ScriptHost.Script
