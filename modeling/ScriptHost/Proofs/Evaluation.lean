import ScriptHost.Proofs.Steps

/-! Whole pieces of script under a regime: builtins, expressions and statements by recursion on the
tree, and calls by induction on their depth. -/

namespace ScriptHost.Script

open Regime

variable {G : Regime}

/-! ### Builtins -/

namespace Builtins

section Arguments

variable {s : State} (hs : G.Inv s)
include hs

namespace Frame

variable (f : Frame) {α : Type} {P : State → α → Prop}

theorem fail_ends (message : ByteArray) : G.Ends s P (f.fail message) :=
  ends_raise hs (G.fit_of_not_isReference s id)

theorem badArgument_ends (position : Nat) (complaint : String) : G.Ends s P (f.badArgument position complaint) := by
  unfold badArgument
  extract_lets called isMethod shown
  split
  · exact f.fail_ends hs _
  · exact f.fail_ends hs _

theorem wrongType_ends (position : Nat) (wanted : String) : G.Ends s P (f.wrongType position wanted) :=
  f.badArgument_ends hs _ _

theorem integer_ends (position : Nat) : G.Ends s (fun _ _ => True) (f.integer position) := by
  unfold integer
  split
  · split
    · exact ends_pure hs trivial
    · exact f.badArgument_ends hs _ _
  · exact f.wrongType_ends hs _ _

theorem integerOr_ends (position : Nat) (default : Int64) :
    G.Ends s (fun _ _ => True) (f.integerOr position default) := by
  unfold integerOr
  split
  · exact ends_pure hs trivial
  · exact f.integer_ends hs _

variable {f} (hf : G.Fits s f.args)
include hf

omit hs in
theorem fit_argument? {position : Nat} {v : Value} (h : f.argument? position = some v) : G.Fit s v :=
  hf v (List.mem_of_getElem? h)

omit hs in
theorem fit_argument (position : Nat) : G.Fit s (f.argument position) := by
  unfold argument
  cases h : f.argument? position with
  | none => exact G.fit_of_not_isReference s id
  | some v => exact fit_argument? hf h

theorem any_ends (position : Nat) : G.Ends s G.Fit (f.any position) := by
  unfold any
  split
  next h => exact ends_pure hs (fit_argument? hf h)
  next => exact f.badArgument_ends hs _ _

theorem table_ends (position : Nat) : G.Ends s (fun t r => G.Fit t (.table r)) (f.table position) := by
  unfold table
  split
  next h => exact ends_pure hs (h ▸ fit_argument hf position)
  next => exact f.wrongType_ends hs _ _

end Frame

theorem fit_visibleMetatable (v : Value) : G.Fit s (visibleMetatable s v) := by
  unfold visibleMetatable
  split
  · split
    · exact G.fit_of_not_isReference s id
    next m h =>
      have hm := fit_rawGet hs m (.ofString "__metatable")
      split
      · exact G.fit_metatable hs h
      · exact hm
  · exact G.fit_of_not_isReference s id

variable {f : Frame} (hf : G.Fits s f.args)
include hf

theorem toNumber_ends : G.Ends s G.Fit (toNumber f) := by
  have plain {α : Type} (o : Option α) (g : α → Numeral) {t : State} :
      G.Fit t (o.elim .nil fun a => .number (g a)) := by
    cases o <;> exact G.fit_of_not_isReference t id
  unfold toNumber
  split
  · split
    · exact ends_plain hs id
    · exact ends_pure hs (plain _ id)
    · exact (Frame.any_ends hs hf _).bind fun _ t _ ht _ => ends_plain ht id
  · apply (f.integer_ends hs _).bind
    intro base t _ ht _
    split
    · split
      · exact ends_pure ht (plain _ _)
      · exact f.badArgument_ends ht _ _
    · exact f.wrongType_ends ht _ _

theorem select_ends : G.Ends s G.Fits (select f) := by
  have byIndex : G.Ends s G.Fits (do
      let n := (← f.integer 1).toInt
      let count : Int := f.args.length
      if n < 0 then
        if count + n < 1 then f.badArgument 1 "index out of range"
        else pure (f.args.drop (count + n).toNat)
      else if n = 0 then f.badArgument 1 "index out of range"
      else pure (f.args.drop n.toNat)) := by
    apply (f.integer_ends hs _).bind
    intro i t hst ht _
    have hargs := hf.mono hst
    dsimp only
    split
    · split
      · exact f.badArgument_ends ht _ _
      · exact ends_pure ht (hargs.drop _)
    · split
      · exact f.badArgument_ends ht _ _
      · exact ends_pure ht (hargs.drop _)
  unfold select
  dsimp only
  split
  · split
    · exact ends_pure hs (fits_one (G.fit_of_not_isReference s id))
    · exact byIndex
  · exact byIndex

theorem raiseError_ends : G.Ends s G.Fits (raiseError f) := by
  unfold raiseError
  apply (f.integerOr_ends hs _ _).bind
  intro level t hst ht _
  have hv := Frame.fit_argument (hf.mono hst) 1
  split
  · split
    · exact ends_raise ht (G.fit_of_not_isReference t id)
    · exact ends_raise ht (G.fit_of_not_isReference t id)
  · exact ends_raise ht hv

theorem setMetatable_ends : G.Ends s G.Fits (setMetatable f) := by
  unfold setMetatable
  apply (Frame.table_ends hs hf _).bind
  intro r t hst ht hr
  extract_lets target
  have htarget : ∀ m, target = some m → ∀ q, m = some q → G.Fit t (.table q) := by
    intro m hm q hq
    subst hq
    unfold target at hm
    split at hm
    · cases hm
    next h =>
      cases hm
      exact Frame.fit_argument? (hf.mono hst) h
    · cases hm
  cases h : target with
  | none => exact f.wrongType_ends ht _ _
  | some m =>
    apply ends_get
    split
    · apply (ends_modify (G.setMetatable r ht (htarget m h))).bind
      intro _ u htu hu _
      exact ends_pure hu (fits_one (G.mono htu hr))
    · exact f.fail_ends ht _

end Arguments

theorem mapM_loop_ends {α β : Type} {g : α → Eval β} (xs : List α) (ys : List β) {s : State} (hs : G.Inv s)
    (hg : ∀ a ∈ xs, ∀ t, G.Rel s t → G.Inv t → G.Ends t (fun _ _ => True) (g a)) :
    G.Ends s (fun _ _ => True) (List.mapM.loop g xs ys) := by
  induction xs generalizing s ys with
  | nil => exact ends_pure hs trivial
  | cons x xs ih =>
    refine (hg x List.mem_cons_self s (G.refl s) hs).bind fun y t hst ht _ => ih _ ht ?_
    intro a ha u htu hu
    exact hg a (List.mem_cons_of_mem x ha) u (G.trans hst htu) hu

theorem handled_ends {call : Call} (hc : G.Calls call) (site : Site) {handler : FunctionRef} (n : Nat) {e : Value}
    {s : State} (hs : G.Inv s) (hh : G.Fit s (.function handler)) (he : G.Fit s e) :
    G.Ends s G.Fit (handled call site handler n e) := by
  induction n generalizing e s with
  | zero => exact ends_plain hs id
  | succ n ih =>
    unfold handled
    apply (hc s _ _ _ hs (fits_one he)).attempt.bind
    intro r t hst ht hr
    split
    · exact ends_pure ht (hr.1 _ rfl).first
    · exact ih ht (G.mono hst hh) (hr.2 _ rfl)

theorem run_ends {call : Call} (hc : G.Calls call) {f : Frame} {s : State} (hs : G.Inv s)
    (hf : G.Fits s f.args) : G.Ends s G.Fits (run call f) := by
  unfold run
  split
  · -- assert
    apply (Frame.any_ends hs hf _).bind
    intro v t hst ht _
    split
    · exact ends_pure ht (hf.mono hst)
    · split
      next h => exact ends_raise ht (Frame.fit_argument? (hf.mono hst) h)
      next => exact f.fail_ends ht _
  · exact raiseError_ends hs hf
  · -- getmetatable
    apply (Frame.any_ends hs hf _).bind
    intro v t _ ht _
    apply ends_get
    exact ends_pure ht (fits_one (fit_visibleMetatable ht v))
  · -- ipairs
    apply (Frame.any_ends hs hf _).bind
    intro v t _ ht hv
    have hzero := fits_one (G.fit_of_not_isReference t (v := .ofInt 0) id)
    exact ends_pure ht ((hzero.cons hv).cons (G.fit_builtin _ ht))
  · -- one step of `ipairs`
    apply (f.integer_ends hs _).bind
    intro i t hst ht _
    have hnext (u : State) : G.Fit u (.number (.integer (i + 1))) := G.fit_of_not_isReference u id
    have ho := Frame.fit_argument (hf.mono hst) 1
    apply (Operators.index_ends hc _ ht _ ho (hnext t)).bind
    intro v u _ hu hv
    split
    · exact ends_pure hu (fits_one hv)
    · exact ends_pure hu ((fits_one hv).cons (hnext u))
  · -- next
    apply (Frame.table_ends hs hf _).bind
    intro r t _ ht _
    apply ends_get
    split
    next k v h =>
      have he := G.fit_entry ht (Table.mem_of_next? h)
      exact ends_pure ht ((fits_one he.2).cons he.1)
    next => exact ends_pure ht (fits_one (G.fit_of_not_isReference t id))
    next => exact f.fail_ends ht _
  · -- pairs
    apply (Frame.any_ends hs hf _).bind
    intro v t _ ht hv
    apply ends_get
    have hh := fit_handler ht "__pairs" v
    split
    · have hnil := fits_one (G.fit_of_not_isReference t (v := .nil) id)
      exact ends_pure ht ((hnil.cons hv).cons (G.fit_builtin _ ht))
    · apply (Operators.invoke_ends hc _ ht _ hh (fits_one hv)).bind
      intro rs u _ hu hrs
      apply ends_pure hu
      intro w hw
      rcases List.mem_append.1 (List.mem_of_mem_take hw) with hw | hw
      · exact hrs w hw
      · rw [List.eq_of_mem_replicate hw]
        exact G.fit_of_not_isReference u id
  · -- pcall
    apply (Frame.any_ends hs hf _).bind
    intro v t hst ht hv
    have hargs := (hf.mono hst).drop 1
    apply (Operators.invoke_ends hc _ ht _ hv hargs).attempt.bind
    intro r u _ hu hr
    split
    · exact ends_pure hu ((hr.1 _ rfl).cons (G.fit_of_not_isReference u id))
    · exact ends_pure hu ((fits_one (hr.2 _ rfl)).cons (G.fit_of_not_isReference u id))
  · -- xpcall
    split
    next handler h =>
      have hh : G.Fit s (.function handler) := h ▸ Frame.fit_argument hf 2
      have hv := Frame.fit_argument hf 1
      apply (Operators.invoke_ends hc _ hs _ hv (hf.drop 2)).attempt.bind
      intro r t hst ht hr
      split
      · exact ends_pure ht ((hr.1 _ rfl).cons (G.fit_of_not_isReference t id))
      · apply (handled_ends hc _ _ ht (G.mono hst hh) (hr.2 _ rfl)).bind
        intro v u _ hu hv
        exact ends_pure hu ((fits_one hv).cons (G.fit_of_not_isReference u id))
    next => exact f.wrongType_ends hs _ _
  · -- print
    refine (mapM_loop_ends f.args [] hs fun v hv t hst ht => ?_).bind fun _ t _ ht _ => ends_pure ht fits_nil
    exact Operators.toText_ends hc _ ht (G.mono hst (hf v hv))
  · -- rawequal
    apply (Frame.any_ends hs hf _).bind
    intro a t hst ht _
    apply (Frame.any_ends ht (hf.mono hst) _).bind
    intro b u _ hu _
    exact ends_pure hu (fits_one (G.fit_of_not_isReference u id))
  · -- rawget
    apply (Frame.table_ends hs hf _).bind
    intro r t hst ht _
    apply (Frame.any_ends ht (hf.mono hst) _).bind
    intro k u _ hu _
    apply ends_get
    exact ends_pure hu (fits_one (fit_rawGet hu r k))
  · -- rawlen
    split
    · exact ends_get (ends_pure hs (fits_one (G.fit_of_not_isReference s id)))
    · exact ends_pure hs (fits_one (G.fit_of_not_isReference s id))
    · exact f.wrongType_ends hs _ _
  · -- rawset
    apply (Frame.table_ends hs hf _).bind
    intro r t hst ht hr
    apply (Frame.any_ends ht (hf.mono hst) _).bind
    intro k u htu hu hk
    apply (Frame.any_ends hu (hf.mono (G.trans hst htu)) _).bind
    intro v w huw hw hv
    apply (Operators.rawStore_ends _ hw r (G.mono huw hk) hv).bind
    intro _ x hwx hx _
    exact ends_pure hx (fits_one (G.mono (G.trans htu (G.trans huw hwx)) hr))
  · exact select_ends hs hf
  · exact setMetatable_ends hs hf
  · exact (toNumber_ends hs hf).map _ fun _ _ _ h => fits_one h
  · -- tostring
    apply (Frame.any_ends hs hf _).bind
    intro v t _ ht hv
    refine Ends.map (P := G.Fit) _ ?_ fun _ _ _ h => fits_one h
    exact (Operators.toText_ends hc _ ht hv).map _ fun _ u _ _ => G.fit_of_not_isReference u id
  · -- type
    apply (Frame.any_ends hs hf _).bind
    intro v t _ ht _
    exact ends_pure ht (fits_one (G.fit_of_not_isReference t id))
  · -- coroutine.create
    split
    · have hnew := G.newThread hs
      refine Ends.map (P := G.Fit) _ ?_ fun _ _ _ h => fits_one h
      exact (ends_act (P := fun _ _ => True) ⟨hnew.1, hnew.2, trivial⟩).map _ fun _ u _ _ =>
        G.fit_of_not_isReference u id
    · exact f.wrongType_ends hs _ _

end Builtins

/-! ### Expressions and statements -/

namespace Evaluation

/-- The values that a statement returns fit. -/
def FitsExit (G : Regime) (s : State) : Exit → Prop
  | .returned vs => G.Fits s vs
  | _ => True

/-- The parts of an assignment's target fit. -/
def FitsPlace (G : Regime) (s : State) : Place → Prop
  | .slot o k _ => G.Fit s o ∧ G.Fit s k
  | _ => True

theorem FitsPlace.mono {s t : State} {p : Place} (h : FitsPlace G s p) (hst : G.Rel s t) : FitsPlace G t p := by
  cases p with
  | slot o k naming => exact ⟨G.mono hst h.1, G.mono hst h.2⟩
  | _ => trivial

theorem FitsExit.afterBody {s : State} {e e' : Exit} {scope : Scope} (h : FitsExit G s e)
    (he : afterBody scope e = some e') : FitsExit G s e' := by
  cases e with
  | next => cases he
  | broke =>
    cases he
    trivial
  | returned vs =>
    cases he
    exact h

theorem declare_ends (depth : Nat) (xs : List String) {vs : List Value} (scope : Scope) {s : State}
    (hs : G.Inv s) (hvs : G.Fits s vs) : G.Ends s (fun _ _ => True) (declare depth xs vs scope) := by
  induction xs generalizing vs scope s with
  | nil => exact ends_pure hs trivial
  | cons x xs ih =>
    have hnew := G.newCell hs hvs.first
    have hcell : G.Ends s (fun _ _ => True) (Eval.act (·.newCell (Value.first vs))) :=
      ends_act ⟨hnew.1, hnew.2, trivial⟩
    exact hcell.bind fun cell t hst ht _ => ih _ ht ((hvs.mono hst).drop 1)

theorem rounds_ends {round : Eval (Option Exit)} (n : Nat) {s : State} (hs : G.Inv s)
    (h : ∀ t, G.Rel s t → G.Inv t → G.Ends t (fun u o => ∀ e, o = some e → FitsExit G u e) round) :
    G.Ends s (FitsExit G) (rounds n round) := by
  induction n generalizing s with
  | zero => exact ends_exhausted
  | succ n ih =>
    apply (h s (G.refl s) hs).bind
    intro e t hst ht he
    cases e with
    | none => exact ih ht fun u htu hu => h u (G.trans hst htu) hu
    | some e => exact ends_pure ht (he e rfl)

section Counting

variable (scope : Scope) {body : Value → Eval Exit} {s : State} (hs : G.Inv s)
  (hb : ∀ v t, G.Rel s t → G.Inv t → ¬v.IsReference → G.Ends t (FitsExit G) (body v))
include hs hb

theorem countInts_ends (step : Int64) (n : Nat) (i : Int64) :
    G.Ends s (FitsExit G) (countInts scope body step n i) := by
  induction n generalizing i s with
  | zero => exact ends_pure hs trivial
  | succ n ih =>
    apply (hb _ s (G.refl s) hs id).bind
    intro e t hst ht he
    split
    next h => exact ends_pure ht (he.afterBody h)
    next => exact ih ht (fun v u htu hu => hb v u (G.trans hst htu) hu) _

theorem countDoubles_ends (limit step : Number.Double) (n : Nat) (x : Number.Double) :
    G.Ends s (FitsExit G) (countDoubles scope body limit step n x) := by
  induction n generalizing x s with
  | zero => exact ends_exhausted
  | succ n ih =>
    unfold countDoubles
    refine Ends.ite ((hb _ s (G.refl s) hs id).bind fun e t hst ht he => ?_) (ends_pure hs trivial)
    split
    next h => exact ends_pure ht (he.afterBody h)
    next => exact ih ht (fun v u htu hu => hb v u (G.trans hst htu) hu) _

theorem countLoop_ends (site : Site) (start limit step : Value) :
    G.Ends s (FitsExit G) (countLoop site scope start limit step body) := by
  have badValue (what : String) (v : Value) : G.Ends s (FitsExit G) (countLoop.badValue site what v) :=
    site.fail_ends hs _
  unfold countLoop
  split
  · split
    · exact site.fail_ends hs _
    · split
      · dsimp only
        split
        · exact ends_pure hs trivial
        · exact countInts_ends scope hs hb _ _ _
      · exact badValue _ _
  · split
    · exact badValue _ _
    · exact badValue _ _
    · exact badValue _ _
    · split
      · exact site.fail_ends hs _
      · exact countDoubles_ends scope hs hb _ _ _ _

end Counting

theorem close_ends (a : Activation) (scope : Scope) (body : FunctionBody) {s : State} (hs : G.Inv s) :
    G.Ends s G.Fit (close a scope body) := by
  have hnew := G.newClosure body scope (a.depth + 1) a.source hs
  exact Ends.map (P := fun t r => G.Fit t (.function r)) _ (ends_act hnew) fun _ _ _ h => h

theorem storePositional_ends (r : TableRef) {vs : List Value} {s : State} (hs : G.Inv s) (hvs : G.Fits s vs) :
    G.Ends s (fun _ _ => True) (storePositional r vs) :=
  ends_modify (G.storePositional r hs hvs)

section Variables

variable {call : Call} (hc : G.Calls call) (a : Activation) (scope : Scope) {s : State} (hs : G.Inv s)
include hc hs

theorem readVariable_ends (x : String) (line : Nat) : G.Ends s G.Fit (readVariable call a scope x line) := by
  apply ends_get
  split
  · exact ends_pure hs (G.fit_cell _ hs)
  · exact Operators.index_ends hc _ hs _ (G.fit_globals hs) (G.fit_of_not_isReference s id)

theorem writeVariable_ends (x : String) (line : Nat) {v : Value} (hv : G.Fit s v) :
    G.Ends s (fun _ _ => True) (writeVariable call a scope x line v) := by
  apply ends_get
  split
  · exact ends_modify (G.setCell _ hs hv)
  · exact Operators.store_ends hc _ hs _ (G.fit_globals hs) (G.fit_of_not_isReference s id) hv

theorem assignTo_ends (line : Nat) {v : Value} (hv : G.Fit s v) {p : Place} (hp : FitsPlace G s p) :
    G.Ends s (fun _ _ => True) (assignTo call a scope line v p) := by
  cases p with
  | «variable» x => exact writeVariable_ends hc a scope hs x line hv
  | slot o k naming => exact Operators.store_ends hc _ hs _ hp.1 hp.2 hv

theorem assignAll_ends (line : Nat) {ps : List Place} {vs : List Value} (hps : ∀ p ∈ ps, FitsPlace G s p)
    (hvs : G.Fits s vs) : G.Ends s (fun _ _ => True) (assignAll call a scope line ps vs) := by
  induction ps generalizing vs with
  | nil => exact ends_pure hs trivial
  | cons p ps ih =>
    apply (ih (fun q hq => hps q (List.mem_cons_of_mem p hq)) (hvs.drop 1)).bind
    intro _ t hst ht _
    exact assignTo_ends hc a scope ht line (G.mono hst hvs.first) ((hps p List.mem_cons_self).mono hst)

theorem invokeLast_ends (line : Nat) (naming : Option Naming) {f : Value} (hf : G.Fit s f) {args : List Value}
    (hargs : G.Fits s args) : G.Ends s G.Fits (invokeLast call a line naming f args) := by
  unfold invokeLast
  split
  · apply ends_get
    split
    · exact hc _ _ _ _ hs hargs
    · exact hc _ _ _ _ hs hargs
  · exact Operators.invoke_ends hc _ hs _ hf hargs

end Variables

variable {call : Call} (hc : G.Calls call) (a : Activation)
include hc

set_option linter.unusedSectionVars false in
mutual

theorem values_ends (e : Expr) (scope : Scope) (last : Bool) {s : State} (hs : G.Inv s) (ha : G.Fits s a.rest) :
    G.Ends s G.Fits (values call a e scope last) := by
  cases e with
  | nil | boolean | number | text => exact ends_pure hs (fits_one (G.fit_of_not_isReference s id))
  | rest => exact ends_pure hs ha
  | function body => exact (close_ends a scope body hs).map _ fun _ _ _ h => fits_one h
  | «variable» x line => exact (readVariable_ends hc a scope hs x line).map _ fun _ _ _ h => fits_one h
  | index o k line =>
    unfold values
    apply (values_ends o scope false hs ha).bind
    intro os t hst ht hos
    apply (values_ends k scope false ht (ha.mono hst)).bind
    intro ks u htu hu hks
    refine Ends.map _ ?_ fun _ _ _ h => fits_one h
    exact Operators.index_ends hc _ hu _ (hos.mono htu).first hks.first
  | call f args line =>
    unfold values
    apply (values_ends f scope false hs ha).bind
    intro fs t hst ht hfs
    apply (listValues_ends args scope ht (ha.mono hst)).bind
    intro vs u htu hu hvs
    have hf := (hfs.mono htu).first
    extract_lets naming
    split
    · exact invokeLast_ends hc a hu _ _ hf hvs
    · exact Operators.invoke_ends hc _ hu _ hf hvs
  | method o name args line =>
    unfold values
    apply (values_ends o scope false hs ha).bind
    intro os t hst ht hos
    have hname : G.Fit t (.ofString name) := G.fit_of_not_isReference t id
    apply (Operators.index_ends hc _ ht _ hos.first hname).bind
    intro f u htu hu hf
    apply (listValues_ends args scope hu (ha.mono (G.trans hst htu))).bind
    intro vs w huw hw hvs
    have hargs := hvs.cons (hos.mono (G.trans htu huw)).first
    extract_lets naming
    split
    · exact invokeLast_ends hc a hw _ _ (G.mono huw hf) hargs
    · exact Operators.invoke_ends hc _ hw _ (G.mono huw hf) hargs
  | binary op l r line =>
    unfold values
    apply (values_ends l scope false hs ha).bind
    intro xs t hst ht hxs
    apply (values_ends r scope false ht (ha.mono hst)).bind
    intro ys u htu hu hys
    refine Ends.map _ ?_ fun _ _ _ h => fits_one h
    exact Operators.binary_ends hc _ hu op (hxs.mono htu).first hys.first _ _
  | unary op e line =>
    unfold values
    apply (values_ends e scope false hs ha).bind
    intro xs t hst ht hxs
    exact (Operators.unary_ends hc _ ht op hxs.first _).map _ fun _ _ _ h => fits_one h
  | and l r =>
    unfold values
    apply (values_ends l scope false hs ha).bind
    intro xs t hst ht hxs
    have hx := fits_one hxs.first
    extract_lets x
    split
    · apply (values_ends r scope false ht (ha.mono hst)).bind
      intro ys u _ hu hys
      exact ends_pure hu (fits_one hys.first)
    · exact ends_pure ht hx
  | or l r =>
    unfold values
    apply (values_ends l scope false hs ha).bind
    intro xs t hst ht hxs
    have hx := fits_one hxs.first
    extract_lets x
    split
    · exact ends_pure ht hx
    · apply (values_ends r scope false ht (ha.mono hst)).bind
      intro ys u _ hu hys
      exact ends_pure hu (fits_one hys.first)
  | single e =>
    unfold values
    exact (values_ends e scope false hs ha).bind fun vs t _ ht hvs => ends_pure ht (fits_one hvs.first)
  | table fields line =>
    unfold values
    have hnew : G.Ends s (fun t r => G.Fit t (.table r)) (Eval.act (·.newTable {})) := ends_act (G.newTable hs)
    apply hnew.bind
    intro r t hst ht hr
    apply (fieldValues_ends line r fields scope ht (ha.mono hst)).bind
    intro vs u htu hu hvs
    apply (storePositional_ends r hu hvs).bind
    intro _ w huw hw _
    exact ends_pure hw (fits_one (G.mono (G.trans htu huw) hr))

theorem listValues_ends (es : List Expr) (scope : Scope) {s : State} (hs : G.Inv s) (ha : G.Fits s a.rest) :
    G.Ends s G.Fits (listValues call a es scope) := by
  cases es with
  | nil => exact ends_pure hs fits_nil
  | cons e es =>
    unfold listValues
    apply (values_ends e scope false hs ha).bind
    intro vs t hst ht hvs
    split
    · exact ends_pure ht hvs
    · apply (listValues_ends es scope ht (ha.mono hst)).bind
      intro rest u htu hu hrest
      exact ends_pure hu (hrest.cons (hvs.mono htu).first)

theorem fieldValues_ends (line : Nat) (r : TableRef) (fs : List Field) (scope : Scope) {s : State} (hs : G.Inv s)
    (ha : G.Fits s a.rest) : G.Ends s G.Fits (fieldValues call a line r fs scope) := by
  cases fs with
  | nil => exact ends_pure hs fits_nil
  | cons field fs =>
    cases field with
    | positional e =>
      unfold fieldValues
      apply (values_ends e scope false hs ha).bind
      intro vs t hst ht hvs
      split
      · exact ends_pure ht hvs
      · apply (fieldValues_ends line r fs scope ht (ha.mono hst)).bind
        intro rest u htu hu hrest
        exact ends_pure hu (hrest.cons (hvs.mono htu).first)
    | keyed k v =>
      unfold fieldValues
      apply (values_ends k scope false hs ha).bind
      intro ks t hst ht hks
      apply (values_ends v scope false ht (ha.mono hst)).bind
      intro vs u htu hu hvs
      have hstore := Operators.rawStore_ends (a.site line) hu r (hks.mono htu).first hvs.first
      apply hstore.bind
      intro _ w huw hw _
      exact fieldValues_ends line r fs scope hw (ha.mono (G.trans hst (G.trans htu huw)))

theorem place_ends (e : Expr) (scope : Scope) {s : State} (hs : G.Inv s) (ha : G.Fits s a.rest) :
    G.Ends s (FitsPlace G) (place call a e scope) := by
  have nowhere : FitsPlace G s (.slot .nil .nil none) :=
    ⟨G.fit_of_not_isReference s id, G.fit_of_not_isReference s id⟩
  cases e with
  | index o k line =>
    unfold place
    apply (values_ends o scope false hs ha).bind
    intro os t hst ht hos
    apply (values_ends k scope false ht (ha.mono hst)).bind
    intro ks u htu hu hks
    exact ends_pure hu ⟨(hos.mono htu).first, hks.first⟩
  | «variable» x line => exact ends_pure hs trivial
  | _ => exact ends_pure hs nowhere

theorem places_ends (es : List Expr) (scope : Scope) {s : State} (hs : G.Inv s) (ha : G.Fits s a.rest) :
    G.Ends s (fun t ps => ∀ p ∈ ps, FitsPlace G t p) (places call a es scope) := by
  cases es with
  | nil => exact ends_pure hs (List.forall_mem_nil _)
  | cons e es =>
    unfold places
    apply (place_ends e scope hs ha).bind
    intro p t hst ht hp
    apply (places_ends es scope ht (ha.mono hst)).bind
    intro ps u htu hu hps
    exact ends_pure hu (List.forall_mem_cons.2 ⟨hp.mono htu, hps⟩)

theorem statement_ends (st : Stmt) (scope : Scope) {s : State} (hs : G.Inv s) (ha : G.Fits s a.rest) :
    G.Ends s (FitsExit G) (statement call a st scope) := by
  cases st with
  | declare names es =>
    unfold statement
    apply (listValues_ends es scope hs ha).bind
    intro vs t _ ht hvs
    exact (declare_ends _ _ _ ht hvs).bind fun inner u _ hu _ => ends_pure hu trivial
  | declareFunction name body =>
    unfold statement
    apply (declare_ends _ _ _ hs fits_nil).bind
    intro inner t _ ht _
    apply (close_ends a inner body ht).bind
    intro f u _ hu hf
    cases inner with
    | nil => exact ends_pure hu trivial
    | cons b bs => exact (ends_modify (G.setCell _ hu hf)).bind fun _ w _ hw _ => ends_pure hw trivial
  | assign targets es line =>
    unfold statement
    apply (places_ends targets scope hs ha).bind
    intro ps t hst ht hps
    apply (listValues_ends es scope ht (ha.mono hst)).bind
    intro vs u htu hu hvs
    have hps' : ∀ p ∈ ps, FitsPlace G u p := fun p hp => (hps p hp).mono htu
    exact (assignAll_ends hc a scope hu line hps' hvs).bind fun _ w _ hw _ => ends_pure hw trivial
  | call e =>
    unfold statement
    exact (values_ends e scope false hs ha).bind fun vs t _ ht _ => ends_pure ht trivial
  | block body =>
    unfold statement
    apply (block_ends body scope hs ha).bind
    intro e t _ ht he
    cases e with
    | next => exact ends_pure ht trivial
    | _ => exact ends_pure ht he
  | «while» c body =>
    unfold statement
    apply rounds_ends _ hs
    intro t hst ht
    apply (values_ends c scope false ht (ha.mono hst)).bind
    intro x u htu hu _
    extract_lets x
    split
    · apply (block_ends body scope hu (ha.mono (G.trans hst htu))).bind
      intro e w _ hw he
      exact ends_pure hw fun _ h => he.afterBody h
    · apply ends_pure hu
      intro e he
      cases he
      trivial
  | «repeat» body c =>
    unfold statement
    apply rounds_ends _ hs
    intro t hst ht
    apply (block_ends body scope ht (ha.mono hst)).bind
    intro e u htu hu he
    cases e with
    | next inner =>
      apply (values_ends c inner false hu (ha.mono (G.trans hst htu))).bind
      intro x w _ hw _
      apply ends_pure hw
      intro e he
      split at he
      · cases he
        trivial
      · cases he
    | _ => exact ends_pure hu fun _ h => he.afterBody h
  | branch c yes no =>
    unfold statement
    apply (values_ends c scope false hs ha).bind
    intro x t hst ht _
    have after (m : Eval Exit) (hm : G.Ends t (FitsExit G) m) : G.Ends t (FitsExit G) (do
        match ← m with
        | .next _ => pure (.next scope)
        | e => pure e) := by
      apply hm.bind
      intro e u _ hu he
      cases e with
      | next => exact ends_pure hu trivial
      | _ => exact ends_pure hu he
    by_cases hx : (Value.first x).truthy = true
    · simp only [hx, if_true]
      exact after _ (block_ends yes scope ht (ha.mono hst))
    · simp only [hx]
      exact after _ (block_ends no scope ht (ha.mono hst))
  | count name start limit step body line =>
    unfold statement
    apply (values_ends start scope false hs ha).bind
    intro i t hst ht _
    apply (values_ends limit scope false ht (ha.mono hst)).bind
    intro l u htu hu _
    have hau := ha.mono (G.trans hst htu)
    have loop (d : Value) (w : State) (huw : G.Rel u w) (hw : G.Inv w) : G.Ends w (FitsExit G)
        (countLoop (a.site line) scope (Value.first i) (Value.first l) d fun v => do
          let inner ← declare a.depth [name] [v] scope
          block call a body inner) := by
      refine countLoop_ends scope hw (fun v x hwx hx hv => ?_) _ _ _ _
      have hone : G.Fits x [v] := fits_one (G.fit_of_not_isReference x hv)
      apply (declare_ends _ _ _ hx hone).bind
      intro inner y hxy hy _
      exact block_ends body inner hy (hau.mono (G.trans huw (G.trans hwx hxy)))
    cases step with
    | none =>
      exact (ends_pure (P := fun _ _ => True) hu trivial).bind fun d w huw hw _ => loop d w huw hw
    | some e =>
      exact (values_ends e scope false hu hau).bind fun d w huw hw _ => loop _ w huw hw
  | each names es body line =>
    unfold statement
    apply (listValues_ends es scope hs ha).bind
    intro vs t hst ht hvs
    have hnew := G.newCell ht (hvs.drop 2).first
    have hcell : G.Ends t (fun _ _ => True) (Eval.act (·.newCell (Value.first (vs.drop 2)))) :=
      ends_act ⟨hnew.1, hnew.2, trivial⟩
    apply hcell.bind
    intro control u htu hu _
    apply rounds_ends _ hu
    intro w huw hw
    apply ends_get
    have hvw := hvs.mono (G.trans htu huw)
    have hargs := (fits_one (G.fit_cell control hw)).cons (hvw.drop 1).first
    apply (Operators.invoke_ends hc _ hw _ hvw.first hargs).bind
    intro results x hwx hx hresults
    split
    · apply ends_pure hx
      intro e he
      cases he
      trivial
    · apply (ends_modify (G.setCell control hx hresults.first)).bind
      intro _ y hxy hy _
      apply (declare_ends _ _ _ hy (hresults.mono hxy)).bind
      intro inner z hyz hz _
      have haz := ha.mono (G.trans hst (G.trans htu (G.trans huw (G.trans hwx (G.trans hxy hyz)))))
      exact (block_ends body inner hz haz).bind fun e v _ hv he => ends_pure hv fun _ h => he.afterBody h
  | «return» es =>
    unfold statement
    split
    · exact (values_ends _ scope true hs ha).map _ fun _ _ _ h => h
    · exact (listValues_ends _ scope hs ha).map _ fun _ _ _ h => h
  | «break» => exact ends_pure hs trivial

theorem block_ends (body : List Stmt) (scope : Scope) {s : State} (hs : G.Inv s) (ha : G.Fits s a.rest) :
    G.Ends s (FitsExit G) (block call a body scope) := by
  cases body with
  | nil => exact ends_pure hs trivial
  | cons st rest =>
    unfold block
    apply (statement_ends st scope hs ha).bind
    intro e t hst ht he
    cases e with
    | next inner => exact block_ends rest inner ht (ha.mono hst)
    | _ => exact ends_pure ht he

end

theorem enter_ends (body : FunctionBody) (scope : Scope) (depth : Nat) (source : ByteArray)
    {args : List Value} (site : CallSite) {s : State} (hs : G.Inv s) (hargs : G.Fits s args) :
    G.Ends s G.Fits (enter call body scope depth source args site) := by
  obtain ⟨parameters, variadic, statements⟩ := body
  unfold enter
  apply (declare_ends _ _ _ hs hargs).bind
  intro inner t hst ht _
  have hrest : G.Fits t (if variadic then args.drop parameters.length else []) := by
    split
    · exact (hargs.mono hst).drop _
    · exact fits_nil
  apply (block_ends hc ⟨source, depth, _, site.callers⟩ statements inner ht hrest).bind
  intro e u _ hu he
  cases e with
  | returned vs => exact ends_pure hu he
  | _ => exact ends_pure hu fits_nil

/-! ### Calls -/

omit hc in
/-- Host functions matter only where a state holds them, and at the depth that is left to them. -/
theorem callAt_calls {host : HostCall}
    (hh : ∀ n, G.Calls (callAt host n) → ∀ (s : State) (r : FunctionRef) (f : HostFunction), G.Inv s →
      s.function? r = some (.host f) → ∀ args, G.Fits s args → ∀ site,
        G.Ends s G.Fits (host (callAt host n) f args site))
    (n : Nat) : G.Calls (callAt host n) := by
  induction n with
  | zero => exact fun _ _ _ _ _ _ => ends_exhausted
  | succ n ih =>
    intro s r args site hs hargs
    apply ends_get
    cases h : s.function? r with
    | none => exact Site.host.typeError_ends hs _ _ _
    | some fn =>
      cases fn with
      | closure body scope depth source => exact enter_ends ih body scope depth source site hs hargs
      | builtin b => exact Builtins.run_ends ih hs hargs
      | host f => exact hh n ih s r f hs h args hargs site

end Evaluation

namespace Evaluation

variable {R : State → State → Prop} (hR : Steady R)
include hR

theorem callAt_keeps {host : HostCall}
    (hh : ∀ n, (callAt host n).Keeps R → ∀ (s : State) (r : FunctionRef) (f : HostFunction),
      s.function? r = some (.host f) → ∀ args site, (host (callAt host n) f args site s).Within R s)
    (n : Nat) : (callAt host n).Keeps R := by
  have hcalls : hR.regime.Calls (callAt host n) := by
    refine callAt_calls (fun n ih s r f _ hf args _ site => ?_) n
    refine hR.ends (fun _ _ _ _ => trivial) (hh n (fun r vs site s => ?_) s r f hf args site)
    exact (ih s r vs site trivial fun _ _ => trivial).within
  exact fun r vs site s => (hcalls s r vs site trivial fun _ _ => trivial).within

theorem loadChunk_keeps (body : FunctionBody) (source : ByteArray) : (loadChunk body source).Keeps R :=
  fun s => hR.newClosure s _ _ _ _

end Evaluation

end ScriptHost.Script
