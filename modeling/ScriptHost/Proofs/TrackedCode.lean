import ScriptHost.Proofs.Tracking

/-! Whole pieces of script over two ways to call functions: builtins, expressions and statements by
recursion on the tree. -/

namespace ScriptHost.Script

variable {R : State → State → Prop} {E : State → Value → State → Prop} {α β : Type}

/-! ### Builtins -/

namespace Builtins

open Operators

/-- The builtins under which errors of the code that they call come to an end. -/
def protects : Builtin → Bool
  | .pcall | .xpcall => true
  | _ => false

variable (hP : Passage R E) {call call' : Call} (hc : call.Tracks R E call')
include hP hc

end Builtins

/-! ### Expressions and statements -/

namespace Evaluation

open Operators

section Parts

variable (hP : Passage R E)
include hP

theorem declare_tracks (depth : Nat) (xs : List String) (vs : List Value) (scope : Scope) :
    (declare depth xs vs scope).Tracks R E (declare depth xs vs scope) :=
  hP.same fun _ => declare_ends depth xs scope trivial fun _ _ => trivial

theorem close_tracks (a : Activation) (scope : Scope) (body : FunctionBody) :
    (close a scope body).Tracks R E (close a scope body) :=
  hP.same fun _ => close_ends a scope body trivial

theorem setCell_tracks (r : Nat) (v : Value) :
    (Eval.modify (·.setCell r v)).Tracks R E (Eval.modify (·.setCell r v)) :=
  Passage.modify (hP.setCell · r v)

theorem rounds_tracks {round round' : Eval (Option Exit)} (h : round.Tracks R E round') (n : Nat) :
    (rounds n round).Tracks R E (rounds n round') := by
  induction n with
  | zero => exact fun _ => .inl rfl
  | succ n ih =>
    apply hP.bind h
    intro e
    cases e with
    | none => exact ih
    | some e => exact hP.pure e

variable {body body' : Value → Eval Exit} (hb : ∀ v, (body v).Tracks R E (body' v)) (scope : Scope)
include hb

theorem countInts_tracks (step : Int64) (n : Nat) (i : Int64) :
    (countInts scope body step n i).Tracks R E (countInts scope body' step n i) := by
  induction n generalizing i with
  | zero => exact hP.pure _
  | succ n ih =>
    apply hP.bind (hb _)
    intro e
    split
    · exact hP.pure _
    · exact ih _

theorem countDoubles_tracks (limit step : Number.Double) (n : Nat) (x : Number.Double) :
    (countDoubles scope body limit step n x).Tracks R E (countDoubles scope body' limit step n x) := by
  induction n generalizing x with
  | zero => exact fun _ => .inl rfl
  | succ n ih =>
    unfold countDoubles
    by_cases hx : (if Number.Double.zero.less step then x.lessEqual limit else limit.lessEqual x) = true
    · rw [if_pos hx, if_pos hx]
      apply hP.bind (hb _)
      intro e
      split
      · exact hP.pure _
      · exact ih _
    · rw [if_neg hx, if_neg hx]
      exact hP.pure _

theorem countLoop_tracks (site : Site) (start limit step : Value) :
    (countLoop site scope start limit step body).Tracks R E (countLoop site scope start limit step body') := by
  have badValue (what : String) (v : Value) :
      (countLoop.badValue site what v).Tracks R E (countLoop.badValue site what v) := fail_tracks hP site _
  unfold countLoop
  split
  · split
    · exact fail_tracks hP site _
    · split
      · dsimp only
        split
        · exact hP.pure _
        · exact countInts_tracks hP hb scope _ _ _
      · exact badValue _ _
  · split
    · exact badValue _ _
    · exact badValue _ _
    · exact badValue _ _
    · split
      · exact fail_tracks hP site _
      · exact countDoubles_tracks hP hb scope _ _ _ _

end Parts

variable (hP : Passage R E) {call call' : Call} (hc : call.Tracks R E call') (a : Activation)
include hP hc

theorem readVariable_tracks (scope : Scope) (x : String) (line : Nat) :
    (readVariable call a scope x line).Tracks R E (readVariable call' a scope x line) := by
  apply Eval.tracks_get
  intro s
  split
  · exact hP.pure _
  · exact index_tracks hP hc _ _ _ _

theorem writeVariable_tracks (scope : Scope) (x : String) (line : Nat) (v : Value) :
    (writeVariable call a scope x line v).Tracks R E (writeVariable call' a scope x line v) := by
  apply Eval.tracks_get
  intro s
  split
  · exact setCell_tracks hP _ _
  · exact store_tracks hP hc _ _ _ _ _

theorem assignTo_tracks (scope : Scope) (line : Nat) (v : Value) (p : Place) :
    (assignTo call a scope line v p).Tracks R E (assignTo call' a scope line v p) := by
  cases p with
  | «variable» x => exact writeVariable_tracks hP hc a scope x line v
  | slot o k naming => exact store_tracks hP hc _ _ _ _ _

theorem assignAll_tracks (scope : Scope) (line : Nat) (ps : List Place) (vs : List Value) :
    (assignAll call a scope line ps vs).Tracks R E (assignAll call' a scope line ps vs) := by
  induction ps generalizing vs with
  | nil => exact hP.pure _
  | cons p ps ih => exact hP.bind (ih _) fun _ => assignTo_tracks hP hc a scope line _ p

theorem invokeLast_tracks (line : Nat) (naming : Option Naming) (f : Value) (args : List Value) :
    (invokeLast call a line naming f args).Tracks R E (invokeLast call' a line naming f args) := by
  unfold invokeLast
  split
  · apply Eval.tracks_get
    intro s
    split <;> exact hc _ _ _
  · exact invoke_tracks hP hc _ _ _ _

set_option linter.unusedSectionVars false in
mutual

theorem values_tracks (e : Expr) (scope : Scope) (last : Bool) :
    (values call a e scope last).Tracks R E (values call' a e scope last) := by
  cases e with
  | nil | boolean | number | text | rest => exact hP.pure _
  | function body => exact hP.map _ (close_tracks hP a scope body)
  | «variable» x line => exact hP.map _ (readVariable_tracks hP hc a scope x line)
  | index o k line =>
    unfold values
    apply hP.bind (values_tracks o scope false)
    intro os
    apply hP.bind (values_tracks k scope false)
    intro ks
    exact hP.map _ (index_tracks hP hc _ _ _ _)
  | call f args line =>
    unfold values
    apply hP.bind (values_tracks f scope false)
    intro fs
    apply hP.bind (listValues_tracks args scope)
    intro vs
    dsimp only
    split
    · exact invokeLast_tracks hP hc a _ _ _ _
    · exact invoke_tracks hP hc _ _ _ _
  | method o name args line =>
    unfold values
    apply hP.bind (values_tracks o scope false)
    intro os
    apply hP.bind (index_tracks hP hc _ _ _ _)
    intro f
    apply hP.bind (listValues_tracks args scope)
    intro vs
    dsimp only
    split
    · exact invokeLast_tracks hP hc a _ _ _ _
    · exact invoke_tracks hP hc _ _ _ _
  | binary op l r line =>
    unfold values
    apply hP.bind (values_tracks l scope false)
    intro xs
    apply hP.bind (values_tracks r scope false)
    intro ys
    exact hP.map _ (binary_tracks hP hc _ op _ _ _ _)
  | unary op e line =>
    unfold values
    apply hP.bind (values_tracks e scope false)
    intro xs
    exact hP.map _ (unary_tracks hP hc _ op _ _)
  | and l r =>
    unfold values
    apply hP.bind (values_tracks l scope false)
    intro xs
    dsimp only
    split
    · exact hP.bind (values_tracks r scope false) fun _ => hP.pure _
    · exact hP.pure _
  | or l r =>
    unfold values
    apply hP.bind (values_tracks l scope false)
    intro xs
    dsimp only
    split
    · exact hP.pure _
    · exact hP.bind (values_tracks r scope false) fun _ => hP.pure _
  | single e =>
    unfold values
    exact hP.bind (values_tracks e scope false) fun _ => hP.pure _
  | table fields line =>
    unfold values
    apply hP.bind (Passage.act hP.newTable)
    intro r
    apply hP.bind (fieldValues_tracks line r fields scope)
    intro vs
    exact hP.bind (hP.same fun _ => storePositional_ends r trivial fun _ _ => trivial) fun _ => hP.pure _

theorem listValues_tracks (es : List Expr) (scope : Scope) :
    (listValues call a es scope).Tracks R E (listValues call' a es scope) := by
  cases es with
  | nil => exact hP.pure _
  | cons e es =>
    unfold listValues
    apply hP.bind (values_tracks e scope false)
    intro vs
    split
    · exact hP.pure _
    · exact hP.bind (listValues_tracks es scope) fun _ => hP.pure _

theorem fieldValues_tracks (line : Nat) (r : TableRef) (fs : List Field) (scope : Scope) :
    (fieldValues call a line r fs scope).Tracks R E (fieldValues call' a line r fs scope) := by
  cases fs with
  | nil => exact hP.pure _
  | cons field fs =>
    cases field with
    | positional e =>
      unfold fieldValues
      apply hP.bind (values_tracks e scope false)
      intro vs
      split
      · exact hP.pure _
      · exact hP.bind (fieldValues_tracks line r fs scope) fun _ => hP.pure _
    | keyed k v =>
      unfold fieldValues
      apply hP.bind (values_tracks k scope false)
      intro ks
      apply hP.bind (values_tracks v scope false)
      intro vs
      exact hP.bind (rawStore_tracks hP _ r _ _) fun _ => fieldValues_tracks line r fs scope

theorem place_tracks (e : Expr) (scope : Scope) :
    (place call a e scope).Tracks R E (place call' a e scope) := by
  cases e with
  | index o k line =>
    unfold place
    exact hP.bind (values_tracks o scope false) fun _ => hP.bind (values_tracks k scope false) fun _ => hP.pure _
  | _ => exact hP.pure _

theorem places_tracks (es : List Expr) (scope : Scope) :
    (places call a es scope).Tracks R E (places call' a es scope) := by
  cases es with
  | nil => exact hP.pure _
  | cons e es =>
    unfold places
    exact hP.bind (place_tracks e scope) fun _ => hP.bind (places_tracks es scope) fun _ => hP.pure _

theorem statement_tracks (st : Stmt) (scope : Scope) :
    (statement call a st scope).Tracks R E (statement call' a st scope) := by
  cases st with
  | declare names es =>
    unfold statement
    apply hP.bind (listValues_tracks es scope)
    intro vs
    exact hP.bind (declare_tracks hP _ _ _ _) fun _ => hP.pure _
  | declareFunction name body =>
    unfold statement
    apply hP.bind (declare_tracks hP _ _ _ _)
    intro inner
    apply hP.bind (close_tracks hP a inner body)
    intro f
    cases inner with
    | nil => exact hP.pure _
    | cons b bs => exact hP.bind (setCell_tracks hP _ _) fun _ => hP.pure _
  | assign targets es line =>
    unfold statement
    apply hP.bind (places_tracks targets scope)
    intro ps
    apply hP.bind (listValues_tracks es scope)
    intro vs
    exact hP.bind (assignAll_tracks hP hc a scope line ps vs) fun _ => hP.pure _
  | call e =>
    unfold statement
    exact hP.bind (values_tracks e scope false) fun _ => hP.pure _
  | block body =>
    unfold statement
    apply hP.bind (block_tracks body scope)
    intro e
    split <;> exact hP.pure _
  | «while» c body =>
    unfold statement
    apply rounds_tracks hP
    apply hP.bind (values_tracks c scope false)
    intro x
    dsimp only
    split
    · exact hP.bind (block_tracks body scope) fun _ => hP.pure _
    · exact hP.pure _
  | «repeat» body c =>
    unfold statement
    apply rounds_tracks hP
    apply hP.bind (block_tracks body scope)
    intro e
    split
    · exact hP.bind (values_tracks c _ false) fun _ => hP.pure _
    · exact hP.pure _
  | branch c yes no =>
    unfold statement
    apply hP.bind (values_tracks c scope false)
    intro x
    dsimp only
    split
    · apply hP.bind (block_tracks yes scope)
      intro e
      split <;> exact hP.pure _
    · apply hP.bind (block_tracks no scope)
      intro e
      split <;> exact hP.pure _
  | count name start limit step body line =>
    unfold statement
    apply hP.bind (values_tracks start scope false)
    intro i
    apply hP.bind (values_tracks limit scope false)
    intro l
    have hloop (d : Value) := countLoop_tracks hP
      (fun v => hP.bind (declare_tracks hP a.depth [name] [v] scope) fun inner => block_tracks body inner) scope
      (a.site line) (Value.first i) (Value.first l) d
    cases step with
    | none => exact hP.bind (hP.pure _) hloop
    | some e => exact hP.bind (values_tracks e scope false) fun d => hloop _
  | each names es body line =>
    unfold statement
    apply hP.bind (listValues_tracks es scope)
    intro vs
    apply hP.bind (Passage.act (hP.newCell · _))
    intro control
    apply rounds_tracks hP
    apply Eval.tracks_get
    intro s
    apply hP.bind (invoke_tracks hP hc _ _ _ _)
    intro results
    split
    · exact hP.pure _
    · apply hP.bind (setCell_tracks hP _ _)
      intro _
      apply hP.bind (declare_tracks hP _ _ _ _)
      intro inner
      exact hP.bind (block_tracks body inner) fun _ => hP.pure _
  | «return» es =>
    unfold statement
    split
    · exact hP.map _ (values_tracks _ scope true)
    · exact hP.map _ (listValues_tracks _ scope)
  | «break» => exact hP.pure _

theorem block_tracks (body : List Stmt) (scope : Scope) :
    (block call a body scope).Tracks R E (block call' a body scope) := by
  cases body with
  | nil => exact hP.pure _
  | cons st rest =>
    unfold block
    apply hP.bind (statement_tracks st scope)
    intro e
    split
    · exact block_tracks rest _
    · exact hP.pure _

end

end Evaluation

end ScriptHost.Script
