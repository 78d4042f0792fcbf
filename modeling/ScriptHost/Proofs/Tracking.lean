import ScriptHost.Proofs.Evaluation

/-! Two ways to call functions, the first of which gives up where the second may go on. Script code
runs the same over both unless it gives up over the first; and a relation that allows the writes of
scripts holds across such a run, except that an error may leave it in a way of its own. -/

namespace ScriptHost.Script

/-- Within the relation, or with an error that ends a run in its own way. -/
def Flow.Passes {α : Type} (R : State → State → Prop) (E : State → Value → State → Prop) (s : State) :
    Flow α → Prop
  | .done _ t => R s t
  | .raised e t => R s t ∨ E s e t
  | .exhausted => True

/-- The first computation gives up, or it is the second. -/
def Eval.Tracks {α : Type} (R : State → State → Prop) (E : State → Value → State → Prop) (m m' : Eval α) : Prop :=
  ∀ s, m s = .exhausted ∨ m s = m' s ∧ (m s).Passes R E s

def Call.Tracks (R : State → State → Prop) (E : State → Value → State → Prop) (call call' : Call) : Prop :=
  ∀ r vs site, (call r vs site).Tracks R E (call' r vs site)

/-- A relation for scripts, and the errors that end a run of one in a way of their own, whatever
has been run before. -/
structure Passage (R : State → State → Prop) (E : State → Value → State → Prop) : Prop extends Steady R where
  before {s t u : State} {e : Value} : R s t → E t e u → E s e u

variable {R : State → State → Prop} {E : State → Value → State → Prop} {α β : Type}

theorem Eval.Tracks.weaken {m m' : Eval α} (h : m.Tracks R (fun _ _ _ => False) m') : m.Tracks R E m' := by
  intro s
  refine (h s).imp_right fun ⟨he, hp⟩ => ⟨he, ?_⟩
  cases hm : m s with
  | raised e t =>
    rw [hm] at hp
    exact .inl (hp.resolve_right id)
  | done a t =>
    rw [hm] at hp
    exact hp
  | exhausted => trivial

/-! ### Sequences -/

theorem Eval.bind_run (m : Eval α) (f : α → Eval β) (s : State) :
    (m >>= f) s = match m s with
      | .done a t => f a t
      | .raised e t => .raised e t
      | .exhausted => .exhausted := rfl

theorem Eval.tracks_get {f f' : State → Eval β} (h : ∀ s, (f s).Tracks R E (f' s)) :
    (Eval.get >>= f).Tracks R E (Eval.get >>= f') :=
  fun s => h s s

namespace Passage

variable (hP : Passage R E)
include hP

/-- What does not call is one computation. -/
theorem same {P : State → α → Prop} {m : Eval α} (h : ∀ s, hP.regime.Ends s P m) : m.Tracks R E m := by
  intro s
  refine .inr ⟨rfl, ?_⟩
  have hs := (h s).within
  cases hm : m s with
  | done a t =>
    rw [hm] at hs
    exact hs
  | raised e t =>
    rw [hm] at hs
    exact .inl hs
  | exhausted => trivial

theorem pure (a : α) : (Pure.pure a : Eval α).Tracks R E (Pure.pure a) := fun s => .inr ⟨rfl, hP.refl s⟩

theorem raise (e : Value) : (Eval.raise e : Eval α).Tracks R E (Eval.raise e) :=
  fun s => .inr ⟨rfl, .inl (hP.refl s)⟩

omit hP in
theorem act {f : State → α × State} (h : ∀ s, R s (f s).2) : (Eval.act f).Tracks R E (Eval.act f) :=
  fun s => .inr ⟨rfl, h s⟩

omit hP in
theorem modify {f : State → State} (h : ∀ s, R s (f s)) : (Eval.modify f).Tracks R E (Eval.modify f) :=
  fun s => .inr ⟨rfl, h s⟩

theorem bind {m m' : Eval α} {f f' : α → Eval β} (hm : m.Tracks R E m')
    (hf : ∀ a, (f a).Tracks R E (f' a)) : (m >>= f).Tracks R E (m' >>= f') := by
  intro s
  rw [Eval.bind_run, Eval.bind_run]
  rcases hm s with h | ⟨h, hs⟩
  · left
    rw [h]
  · rw [← h]
    cases hms : m s with
    | done a t =>
      rw [hms] at hs
      refine (hf a t).imp_right fun ⟨he, ht⟩ => ⟨he, ?_⟩
      dsimp only
      cases hft : f a t with
      | done b u =>
        rw [hft] at ht
        exact hP.trans hs ht
      | raised e u =>
        -- what came before the error does not change how it leaves
        rw [hft] at ht
        exact ht.imp (hP.trans hs) (hP.before hs)
      | exhausted => trivial
    | raised e t =>
      rw [hms] at hs
      exact .inr ⟨rfl, hs⟩
    | exhausted => exact .inl rfl

theorem map {m m' : Eval α} (g : α → β) (hm : m.Tracks R E m') : (g <$> m).Tracks R E (g <$> m') :=
  hP.bind hm fun a => hP.pure (g a)

omit hP in
/-- Where no error ends a run in its own way, catching errors changes nothing. -/
theorem attempt {m m' : Eval α} (hE : ∀ s e t, ¬E s e t) (hm : m.Tracks R E m') :
    m.attempt.Tracks R E m'.attempt := by
  intro s
  unfold Eval.attempt
  rcases hm s with h | ⟨h, hs⟩
  · left
    rw [h]
  · right
    rw [← h]
    refine ⟨rfl, ?_⟩
    cases hms : m s with
    | done a t =>
      rw [hms] at hs
      exact hs
    | raised e t =>
      rw [hms] at hs
      exact hs.resolve_right (hE s e t)
    | exhausted => trivial

end Passage

/-! ### Operators -/

namespace Operators

open Passage

variable (hP : Passage R E) {call call' : Call} (hc : call.Tracks R E call') (site : Site)
include hP

theorem failBytes_tracks (message : ByteArray) :
    (site.failBytes message : Eval α).Tracks R E (site.failBytes message) :=
  hP.raise _

theorem fail_tracks (message : String) : (site.fail message : Eval α).Tracks R E (site.fail message) :=
  hP.raise _

theorem typeError_tracks (operation : String) (v : Value) (naming : Option Naming) :
    (site.typeError operation v naming : Eval α).Tracks R E (site.typeError operation v naming) :=
  hP.raise _

theorem rawStore_tracks (r : TableRef) (k v : Value) : (rawStore site r k v).Tracks R E (rawStore site r k v) :=
  hP.same fun _ => rawStore_ends site trivial r trivial trivial

include hc

theorem apply_tracks (naming : Option Naming) (n : Nat) (f : Value) (args : List Value) :
    (apply call site naming n f args).Tracks R E (apply call' site naming n f args) := by
  induction n generalizing f args with
  | zero =>
    cases f with
    | function r => exact hc r args _
    | _ => exact typeError_tracks hP site _ _ _
  | succ n ih =>
    cases f with
    | function r => exact hc r args _
    | _ =>
      apply Eval.tracks_get
      intro s
      split
      · exact typeError_tracks hP site _ _ _
      · exact ih _ _

theorem invoke_tracks (naming : Option Naming) (f : Value) (args : List Value) :
    (invoke call site naming f args).Tracks R E (invoke call' site naming f args) :=
  apply_tracks hP hc site naming _ f args

theorem invoke1_tracks (f : Value) (args : List Value) :
    (invoke1 call site f args).Tracks R E (invoke1 call' site f args) :=
  hP.map _ (invoke_tracks hP hc site none f args)

theorem index_tracks (naming : Option Naming) (o k : Value) :
    (index call site naming o k).Tracks R E (index call' site naming o k) := by
  unfold index
  generalize chainLimit = n
  induction n generalizing naming o with
  | zero => exact fail_tracks hP site _
  | succ n ih =>
    cases o with
    | table r =>
      apply Eval.tracks_get
      intro s
      split
      · split
        · exact hP.pure _
        · exact hP.map _ (hc _ _ _)
        · exact ih _ _
      · exact hP.pure _
    | text b => exact hP.pure _
    | _ => exact typeError_tracks hP site _ _ _

theorem store_tracks (naming : Option Naming) (o k v : Value) :
    (store call site naming o k v).Tracks R E (store call' site naming o k v) := by
  unfold store
  generalize chainLimit = n
  induction n generalizing naming o with
  | zero => exact fail_tracks hP site _
  | succ n ih =>
    cases o with
    | table r =>
      apply Eval.tracks_get
      intro s
      split
      · exact hP.bind (hc _ _ _) fun _ => hP.pure _
      · exact rawStore_tracks hP site r k v
      · exact ih _ _
      · exact rawStore_tracks hP site r k v
    | _ => exact typeError_tracks hP site _ _ _

theorem arithmeticFallback_tracks (op : Arithmetic) (a b : Value) (na nb : Option Naming) :
    (arithmeticFallback call site op a b na nb).Tracks R E (arithmeticFallback call' site op a b na nb) := by
  have handled (h : Value) := invoke1_tracks hP hc site h [a, b]
  unfold arithmeticFallback
  apply Eval.tracks_get
  intro s
  extract_lets _ viaStrings isText _ viaStrings'
  have hv : viaStrings.Tracks R E viaStrings' := by
    unfold viaStrings viaStrings'
    split
    · split
      · exact hP.pure _
      · exact fail_tracks hP _ _
    · split
      · exact fail_tracks hP _ _
      · exact handled _
  split
  · split
    · exact hv
    · split
      · split
        · exact hv
        · split <;> exact typeError_tracks hP site _ _ _
      · exact handled _
  · exact handled _

theorem arithmetic_tracks (op : Arithmetic) (a b : Value) (na nb : Option Naming) :
    (arithmetic call site op a b na nb).Tracks R E (arithmetic call' site op a b na nb) := by
  unfold arithmetic
  split
  · split
    · exact hP.pure _
    · exact failBytes_tracks hP site _
    · exact fail_tracks hP site _
  · exact arithmeticFallback_tracks hP hc site op _ _ na nb

theorem negate_tracks (a : Value) (na : Option Naming) :
    (negate call site a na).Tracks R E (negate call' site a na) := by
  unfold negate
  split
  · exact hP.pure _
  · exact hP.pure _
  · apply Eval.tracks_get
    intro s
    split
    · split
      · split
        · exact hP.pure _
        · exact hP.pure _
        · exact fail_tracks hP site _
      · exact typeError_tracks hP site _ _ _
    · exact invoke1_tracks hP hc site _ _

theorem bitNot_tracks (a : Value) (na : Option Naming) :
    (bitNot call site a na).Tracks R E (bitNot call' site a na) := by
  unfold bitNot
  split
  · split
    · exact hP.pure _
    · exact failBytes_tracks hP site _
  · apply Eval.tracks_get
    intro s
    split
    · exact typeError_tracks hP site _ _ _
    · exact invoke1_tracks hP hc site _ _

theorem length_tracks (a : Value) (na : Option Naming) :
    (length call site a na).Tracks R E (length call' site a na) := by
  unfold length
  apply Eval.tracks_get
  intro s
  split
  · exact hP.pure _
  · split
    · exact hP.pure _
    · exact typeError_tracks hP site _ _ _
    · exact invoke1_tracks hP hc site _ _

theorem concat_tracks (a b : Value) (na nb : Option Naming) :
    (concat call site a b na nb).Tracks R E (concat call' site a b na nb) := by
  unfold concat
  split
  · exact hP.pure _
  · apply Eval.tracks_get
    intro s
    split
    · split <;> exact typeError_tracks hP site _ _ _
    · exact invoke1_tracks hP hc site _ _
    · exact invoke1_tracks hP hc site _ _

theorem equal_tracks (a b : Value) : (equal call site a b).Tracks R E (equal call' site a b) := by
  unfold equal
  split
  · exact hP.pure _
  · split
    · apply Eval.tracks_get
      intro s
      split
      · exact hP.pure _
      · exact hP.map _ (invoke1_tracks hP hc site _ _)
      · exact hP.map _ (invoke1_tracks hP hc site _ _)
    · exact hP.pure _

theorem order_tracks (event : String) (numbers : Numeral → Numeral → Bool)
    (texts : List UInt8 → List UInt8 → Bool) (a b : Value) :
    (order call site event numbers texts a b).Tracks R E (order call' site event numbers texts a b) := by
  unfold order
  split
  · exact hP.pure _
  · exact hP.pure _
  · apply Eval.tracks_get
    intro s
    split
    · split <;> exact fail_tracks hP site _
    · exact hP.map _ (invoke1_tracks hP hc site _ _)
    · exact hP.map _ (invoke1_tracks hP hc site _ _)

theorem compare_tracks (op : Comparison) (a b : Value) :
    (compare call site op a b).Tracks R E (compare call' site op a b) := by
  unfold compare
  apply hP.map
  cases op with
  | equal => exact equal_tracks hP hc site a b
  | notEqual => exact hP.map _ (equal_tracks hP hc site a b)
  | less | lessEqual => exact order_tracks hP hc site _ _ _ a b
  | greater | greaterEqual => exact order_tracks hP hc site _ _ _ b a

theorem binary_tracks (op : BinaryOp) (a b : Value) (na nb : Option Naming) :
    (binary call site op a b na nb).Tracks R E (binary call' site op a b na nb) := by
  cases op with
  | arithmetic op => exact arithmetic_tracks hP hc site op a b na nb
  | compare op => exact compare_tracks hP hc site op a b
  | concat => exact concat_tracks hP hc site a b na nb

theorem unary_tracks (op : UnaryOp) (a : Value) (na : Option Naming) :
    (unary call site op a na).Tracks R E (unary call' site op a na) := by
  cases op with
  | negate => exact negate_tracks hP hc site a na
  | length => exact length_tracks hP hc site a na
  | not => exact hP.pure _
  | bitNot => exact bitNot_tracks hP hc site a na

end Operators

end ScriptHost.Script
