import Mathlib.Data.List.Induction
import Mathlib.Data.Sum.Basic
import Mathlib.Logic.Function.Basic
import ScriptHost.Live.Changes

/-! What a list of changes amounts to, on top of what a script left in its globals. Recording drops a
change when a later one has the same subject. The globals that the host made come out the same
without it; a table of the script may lack a function when the host also set its global. -/

namespace ScriptHost.Live

open Script (TableRef)

/-! ### Ledgers -/

/-- A value that the host put into a global, and the functions that it registered there since. -/
structure Made where
  value : Host.Value
  functions : String → Option HostFunction

namespace Made

def new (v : Host.Value) : Made := ⟨v, fun _ => none⟩

def register (m : Made) (k : String) (f : HostFunction) : Made :=
  { m with functions := Function.update m.functions k (some f) }

/-- What a registration finds: a new table takes the place of a value that is none. -/
def opened (m : Made) : Made :=
  match m.value with
  | .table _ => m
  | _ => .new (.table [])

theorem opened_of_table {m : Made} {es : List (String × Host.Value)} (h : m.value = .table es) : m.opened = m := by
  rw [opened, h]

theorem opened_value (m : Made) : ∃ es, m.opened.value = .table es := by
  unfold opened
  split
  next es h => exact ⟨es, h⟩
  next => exact ⟨[], rfl⟩

theorem opened_register {m : Made} (h : m.opened = m) (k : String) (f : HostFunction) :
    (m.register k f).opened = m.register k f := by
  obtain ⟨es, he⟩ := m.opened_value
  rw [h] at he
  exact opened_of_table he

/-- The same but for one function. -/
structure AgreesOff (k : String) (m m' : Made) : Prop where
  value : m.value = m'.value
  functions : ∀ k', k' ≠ k → m.functions k' = m'.functions k'

theorem AgreesOff.refl (k : String) (m : Made) : m.AgreesOff k m := ⟨rfl, fun _ _ => rfl⟩

variable {k : String} {m m' : Made}

theorem AgreesOff.register (h : m.AgreesOff k m') (k' : String) (f : HostFunction) :
    (m.register k' f).AgreesOff k (m'.register k' f) where
  value := h.value
  functions i hi := by
    simp only [Made.register, Function.update_apply]
    split
    · rfl
    · exact h.functions i hi

theorem AgreesOff.register_left (h : m.AgreesOff k m') (f : HostFunction) : (m.register k f).AgreesOff k m' where
  value := h.value
  functions i hi := by
    rw [← h.functions i hi]
    exact Function.update_of_ne hi _ _

/-- Registering the function again makes up for it. -/
theorem AgreesOff.register_eq (h : m.AgreesOff k m') (f : HostFunction) : m.register k f = m'.register k f := by
  have hf : Function.update m.functions k (some f) = Function.update m'.functions k (some f) := by
    funext i
    by_cases hi : i = k
    · rw [hi, Function.update_self, Function.update_self]
    · rw [Function.update_of_ne hi, Function.update_of_ne hi, h.functions i hi]
  rw [Made.register, Made.register, hf, h.value]

end Made

/-- What registering functions comes to when all goes well. -/
def registrations (space : String) (fs : List (String × HostFunction)) : Changes :=
  fs.map fun f => .function space f.1 f.2

/-- The global that a change concerns. -/
def Change.place : Change → String
  | .function space _ _ => space
  | .global name _ => name

/-- A registration in the table of globals sets a global. -/
def Change.resolve (held : String → Option TableRef) (globals : TableRef) : Change → Change
  | .global n v => .global n v
  | .function n k f => if held n = some globals then .global k (.function f) else .function n k f

/-- What a change concerns: a global, or a name under it. -/
def Change.subject : Change → String × Option String
  | .function n k _ => (n, some k)
  | .global n _ => (n, none)

theorem Change.sameSubject_eq (c d : Change) : c.sameSubject d = (c.subject == d.subject) := by
  cases c <;> cases d <;> simp [Change.sameSubject, Change.subject, Prod.mk.injEq, beq_eq_decide]

theorem Change.subject_resolve {held : String → Option TableRef} {globals : TableRef} {c d : Change}
    (h : c.subject = d.subject) : (c.resolve held globals).subject = (d.resolve held globals).subject := by
  cases c with
  | global n v =>
    cases d with
    | global n' v' => exact h
    | function n' k' f' => cases h
  | function n k f =>
    cases d with
    | global n' v' => cases h
    | function n' k' f' =>
      cases h
      simp only [resolve]
      split
      · rfl
      · rfl

namespace Changes

theorem record_eq (cs : Changes) (c : Change) : cs.record c = cs.filter (·.subject != c.subject) ++ [c] := by
  rw [record]
  simp only [Change.sameSubject_eq]
  rfl

theorem filter_record (cs : Changes) (c : Change) (s : String × Option String) :
    (cs.record c).filter (·.subject != s) =
      if c.subject = s then cs.filter (·.subject != s) else Changes.record (cs.filter (·.subject != s)) c := by
  rw [record_eq, List.filter_append, List.filter_filter]
  split
  next h => simp [h]
  next h =>
    rw [record_eq, List.filter_filter]
    simp [h, Bool.and_comm]

/-- What is recorded about other subjects does not depend on the changes to this one. -/
theorem filter_foldl_record (es cs : Changes) (s : String × Option String) :
    (es.foldl record cs).filter (·.subject != s) =
      (es.filter (·.subject != s)).foldl record (cs.filter (·.subject != s)) := by
  induction es generalizing cs with
  | nil => rfl
  | cons e es ih =>
    rw [List.foldl_cons, ih, filter_record, List.filter_cons]
    by_cases h : e.subject = s
    · simp [h]
    · simp [h]

/-- Recording by what changes lead to, after recording by what they are named, is recording by what
they lead to. -/
theorem foldl_record_map {φ : Change → Change} (hφ : ∀ c d, c.subject = d.subject → (φ c).subject = (φ d).subject)
    (cs : Changes) : ((cs.foldl record []).map φ).foldl record [] = (cs.map φ).foldl record [] := by
  induction cs using List.reverseRecOn with
  | nil => rfl
  | append_singleton cs c ih =>
    rw [List.foldl_append, List.foldl_cons, List.foldl_nil, List.map_append, List.foldl_append]
    generalize cs.foldl record [] = ds at ih ⊢
    -- the changes that only the one side has dropped yet have the same subject as `φ c`
    have hfilter : ((ds.filter (·.subject != c.subject)).map φ).filter (·.subject != (φ c).subject) =
        (ds.map φ).filter (·.subject != (φ c).subject) := by
      rw [List.filter_map, List.filter_map, List.filter_filter]
      congr 2
      funext d
      by_cases h : d.subject = c.subject
      · simp [hφ d c h]
      · simp [h]
    rw [record_eq ds, List.map_append, List.foldl_append, ← ih]
    simp only [List.map_cons, List.map_nil, List.foldl_cons, List.foldl_nil]
    rw [record_eq, record_eq, filter_foldl_record, filter_foldl_record, hfilter]

end Changes

/-- The globals that the host made, and the functions that it registered in tables of the script. -/
structure Ledger where
  made : String → Option Made
  written : TableRef → String → Option HostFunction

namespace Ledger

def empty : Ledger := ⟨fun _ => none, fun _ _ => none⟩

def set (l : Ledger) (n : String) (m : Made) : Ledger := { l with made := Function.update l.made n (some m) }

def write (l : Ledger) (r : TableRef) (k : String) (f : HostFunction) : Ledger :=
  { l with written := Function.update l.written r (Function.update (l.written r) k (some f)) }

variable (held : String → Option TableRef)

/-- Where a registration under a global goes: to a value of the host, or to the table that the script
left there. -/
def target (l : Ledger) (n : String) : Made ⊕ TableRef :=
  match l.made n, held n with
  | some m, _ => .inl m.opened
  | none, some r => .inr r
  | none, none => .inl (.new (.table []))

def step (l : Ledger) : Change → Ledger
  | .global n v => l.set n (.new v)
  | .function n k f =>
    match l.target held n with
    | .inl m => l.set n (m.register k f)
    | .inr r => l.write r k f

/-- What the changes amount to, made in turn. -/
def ofChanges (cs : Changes) : Ledger := cs.foldl (step held) empty

variable {held} {l l' : Ledger} {n : String}

theorem step_of_inl {m : Made} (h : l.target held n = .inl m) (k : String) (f : HostFunction) :
    l.step held (.function n k f) = l.set n (m.register k f) := by
  rw [step, h]

theorem step_of_inr {r : TableRef} (h : l.target held n = .inr r) (k : String) (f : HostFunction) :
    l.step held (.function n k f) = l.write r k f := by
  rw [step, h]

@[simp] theorem made_set_self (l : Ledger) (n : String) (m : Made) : (l.set n m).made n = some m :=
  Function.update_self ..

theorem made_set_of_ne {n' : String} (h : n' ≠ n) (l : Ledger) (m : Made) : (l.set n m).made n' = l.made n' :=
  Function.update_of_ne h ..

theorem of_made_set {i : String} {m m' : Made} (h : (l.set n m).made i = some m') :
    (i = n ∧ m' = m) ∨ (i ≠ n ∧ l.made i = some m') := by
  by_cases hin : i = n
  · subst hin
    rw [made_set_self] at h
    exact .inl ⟨rfl, (Option.some.inj h).symm⟩
  · rw [made_set_of_ne hin] at h
    exact .inr ⟨hin, h⟩

theorem of_made_set_eq_none {i : String} {m : Made} (h : (l.set n m).made i = none) : i ≠ n ∧ l.made i = none := by
  by_cases hin : i = n
  · rw [hin, made_set_self] at h
    cases h
  · rw [made_set_of_ne hin] at h
    exact ⟨hin, h⟩

theorem set_set (l : Ledger) (n : String) (m m' : Made) : (l.set n m).set n m' = l.set n m' := by
  simp [set]

@[simp] theorem written_write_self (l : Ledger) (r : TableRef) (k : String) (f : HostFunction) :
    (l.write r k f).written r = Function.update (l.written r) k (some f) :=
  Function.update_self ..

theorem written_write_of_ne {r r' : TableRef} (h : r' ≠ r) (l : Ledger) (k : String) (f : HostFunction) :
    (l.write r k f).written r' = l.written r' :=
  Function.update_of_ne h ..

theorem of_written_write {r r' : TableRef} {k k' : String} {f f' : HostFunction}
    (h : (l.write r k f).written r' k' = some f') : (r' = r ∧ k' = k ∧ f' = f) ∨ l.written r' k' = some f' := by
  by_cases hrr : r' = r
  · subst hrr
    rw [written_write_self] at h
    by_cases hkk : k' = k
    · rw [hkk, Function.update_self] at h
      exact .inl ⟨rfl, hkk, (Option.some.inj h).symm⟩
    · rw [Function.update_of_ne hkk] at h
      exact .inr h
  · rw [written_write_of_ne hrr] at h
    exact .inr h

theorem target_set_self (l : Ledger) (n : String) (m : Made) : (l.set n m).target held n = .inl m.opened := by
  simp [target, set]

theorem target_set_of_ne {n' : String} (h : n' ≠ n) (l : Ledger) (m : Made) :
    (l.set n m).target held n' = l.target held n' := by
  simp [target, set, Function.update_of_ne h]

theorem target_congr (h : l.made n = l'.made n) : l.target held n = l'.target held n := by
  rw [target, target, h]

/-- A value of the host that a registration goes to is a table. -/
theorem opened_of_target {m : Made} (h : l.target held n = .inl m) : m.opened = m := by
  have htable : ∃ es, m.value = .table es := by
    unfold target at h
    split at h
    · cases h
      exact Made.opened_value _
    · cases h
    · cases h
      exact ⟨[], rfl⟩
  obtain ⟨es, he⟩ := htable
  exact Made.opened_of_table he

theorem held_of_target {r : TableRef} (h : l.target held n = .inr r) : held n = some r := by
  unfold target at h
  split at h
  · cases h
  next hr =>
    cases h
    exact hr
  · cases h

theorem made_of_target {r : TableRef} (h : l.target held n = .inr r) : l.made n = none := by
  unfold target at h
  split at h
  · cases h
  · assumption
  · cases h

/-! ### Lost writes -/

/-- The same globals, and the same functions in tables of the script but for lost ones. -/
structure Agrees (lost : TableRef → String → Prop) (l l' : Ledger) : Prop where
  made : ∀ n, l.made n = l'.made n
  written : ∀ r k, lost r k ∨ l.written r k = l'.written r k

/-- As `Agrees`, but for one global. -/
structure AgreesOff (n : String) (lost : TableRef → String → Prop) (l l' : Ledger) : Prop where
  made : ∀ n', n' ≠ n → l.made n' = l'.made n'
  written : ∀ r k, lost r k ∨ l.written r k = l'.written r k

variable {lost : TableRef → String → Prop}

theorem Agrees.refl (lost : TableRef → String → Prop) (l : Ledger) : l.Agrees lost l :=
  ⟨fun _ => rfl, fun _ _ => .inr rfl⟩

theorem Agrees.trans {l'' : Ledger} (h : l.Agrees lost l') (h' : l'.Agrees lost l'') : l.Agrees lost l'' where
  made n := (h.made n).trans (h'.made n)
  written r k := by
    rcases h.written r k with hl | hl
    · exact .inl hl
    · rw [hl]
      exact h'.written r k

namespace AgreesOff

theorem symm (h : l.AgreesOff n lost l') : l'.AgreesOff n lost l :=
  ⟨fun n' hn => (h.made n' hn).symm, fun r k => (h.written r k).imp_right Eq.symm⟩

theorem trans {l'' : Ledger} (h : l.AgreesOff n lost l') (h' : l'.AgreesOff n lost l'') :
    l.AgreesOff n lost l'' where
  made n' hn := (h.made n' hn).trans (h'.made n' hn)
  written r k := by
    rcases h.written r k with hl | hl
    · exact .inl hl
    · rw [hl]
      exact h'.written r k

theorem set_self (l : Ledger) (n : String) (m : Made) : l.AgreesOff n lost (l.set n m) where
  made _ hn := (made_set_of_ne hn l m).symm
  written _ _ := .inr rfl

theorem write_lost {r : TableRef} {k : String} (hl : lost r k) (l : Ledger) (n : String) (f : HostFunction) :
    l.AgreesOff n lost (l.write r k f) where
  made _ _ := rfl
  written r' k' := by
    by_cases hr : r' = r
    · subst hr
      by_cases hk : k' = k
      · subst hk
        exact .inl hl
      · right
        simp [write, Function.update_of_ne hk]
    · right
      simp [write, Function.update_of_ne hr]

theorem set (h : l.AgreesOff n lost l') (n' : String) (m : Made) : (l.set n' m).AgreesOff n lost (l'.set n' m) where
  made i hi := by
    simp only [Ledger.set, Function.update_apply]
    split
    · rfl
    · exact h.made i hi
  written := h.written

theorem write (h : l.AgreesOff n lost l') (r : TableRef) (k : String) (f : HostFunction) :
    (l.write r k f).AgreesOff n lost (l'.write r k f) where
  made := h.made
  written r' k' := by
    simp only [Ledger.write, Function.update_apply]
    split
    next hr =>
      subst hr
      simp only [Function.update_apply]
      split
      · exact .inr rfl
      · exact h.written r' k'
    next => exact h.written r' k'

/-- A change that concerns another global finds the same in both ledgers. -/
theorem step (h : l.AgreesOff n lost l') {c : Change} (hc : c.place ≠ n) :
    (l.step held c).AgreesOff n lost (l'.step held c) := by
  cases c with
  | global => exact h.set _ _
  | function n' k f =>
    have ht : l.target held n' = l'.target held n' := target_congr (h.made n' hc)
    simp only [Ledger.step, ht]
    split
    · exact h.set n' _
    · exact h.write _ k f

end AgreesOff

/-! ### A global set again -/

/-- The function may be missing in a table of the script, or be an earlier one: the host registered one
under a global that held the table, and it also set that global. -/
def Torn (held : String → Option TableRef) (cs : Changes) (r : TableRef) (k : String) : Prop :=
  ∃ n f v, held n = some r ∧ .function n k f ∈ cs ∧ .global n v ∈ cs

variable {all : Changes}

/-- A change to a global that the host sets matters to that global alone, but for lost writes. -/
theorem step_agreesOff {v : Host.Value} (hv : .global n v ∈ all) {c : Change} (hc : c ∈ all) (hn : c.place = n)
    (l : Ledger) : l.AgreesOff n (Torn held all) (l.step held c) := by
  cases c with
  | global n' v' =>
    obtain rfl : n' = n := hn
    exact AgreesOff.set_self l n' _
  | function n' k f =>
    obtain rfl : n' = n := hn
    rw [step]
    cases h : l.target held n' with
    | inl m => exact AgreesOff.set_self l n' _
    | inr r => exact AgreesOff.write_lost ⟨n', f, v, held_of_target h, hc, hv⟩ l n' f

theorem AgreesOff.step_of_mem {v : Host.Value} (hv : .global n v ∈ all) {c : Change} (hc : c ∈ all)
    (h : l.AgreesOff n (Torn held all) l') : (l.step held c).AgreesOff n (Torn held all) (l'.step held c) := by
  by_cases hn : c.place = n
  · exact ((step_agreesOff hv hc hn l).symm.trans h).trans (step_agreesOff hv hc hn l')
  · exact h.step hn

theorem place_of_sameSubject {c d : Change} (h : d.sameSubject c = true) : d.place = c.place := by
  cases c <;> cases d <;> simp_all [Change.sameSubject, Change.place]

/-- Earlier settings of a global matter to that global alone, but for lost writes. -/
theorem AgreesOff.filter {v : Host.Value} (hv : .global n v ∈ all) {cs : Changes} (hcs : cs ⊆ all)
    (h : l.AgreesOff n (Torn held all) l') :
    (cs.foldl (Ledger.step held) l).AgreesOff n (Torn held all)
      ((cs.filter fun d => !d.sameSubject (.global n v)).foldl (Ledger.step held) l') := by
  induction cs generalizing l l' with
  | nil => exact h
  | cons d ds ih =>
    have hd : d ∈ all := hcs List.mem_cons_self
    have hds : ds ⊆ all := fun _ hm => hcs (List.mem_cons_of_mem _ hm)
    by_cases hs : d.sameSubject (.global n v) = true
    · have hn : d.place = n := place_of_sameSubject hs
      rw [List.filter_cons_of_neg (by simp [hs]), List.foldl_cons]
      exact ih hds ((step_agreesOff hv hd hn l).symm.trans h)
    · rw [List.filter_cons_of_pos (by simp [hs]), List.foldl_cons, List.foldl_cons]
      exact ih hds (h.step_of_mem hv hd)

theorem agrees_filter_global {v : Host.Value} (hv : .global n v ∈ all) {cs : Changes} (hcs : cs ⊆ all) :
    ((ofChanges held cs).step held (.global n v)).Agrees (Torn held all)
      ((ofChanges held (cs.filter fun d => !d.sameSubject (.global n v))).step held (.global n v)) := by
  have h : (ofChanges held cs).AgreesOff n (Torn held all)
      (ofChanges held (cs.filter fun d => !d.sameSubject (.global n v))) :=
    AgreesOff.filter hv hcs ⟨fun _ _ => rfl, fun _ _ => .inr rfl⟩
  refine ⟨fun i => ?_, h.written⟩
  simp only [step, set, Function.update_apply]
  split
  · rfl
  next hi => exact h.made i hi

/-! ### A function registered again -/

/-- The same but for one function under one global. -/
structure AgreesOffFunction (held : String → Option TableRef) (n k : String) (lost : TableRef → String → Prop)
    (l l' : Ledger) : Prop where
  off : l.AgreesOff n (fun r i => lost r i ∨ (held n = some r ∧ i = k)) l'
  target : Sum.LiftRel (Made.AgreesOff k) Eq (l.target held n) (l'.target held n)

theorem target_step_of_ne {c : Change} (hc : c.place ≠ n) (l : Ledger) :
    (l.step held c).target held n = l.target held n := by
  cases c with
  | global i v => exact target_set_of_ne (Ne.symm hc) l _
  | function i k f =>
    cases h : l.target held i with
    | inl m =>
      rw [step_of_inl h]
      exact target_set_of_ne (Ne.symm hc) l _
    | inr r =>
      rw [step_of_inr h]
      rfl

namespace AgreesOffFunction

variable {k : String}

theorem refl (lost : TableRef → String → Prop) (n k : String) (l : Ledger) :
    l.AgreesOffFunction held n k lost l where
  off := ⟨fun _ _ => rfl, fun _ _ => .inr rfl⟩
  target := by
    cases l.target held n with
    | inl m => exact .inl (.refl k m)
    | inr r => exact .inr rfl

theorem target_cases (h : l.AgreesOffFunction held n k lost l') :
    (∃ m m', l.target held n = .inl m ∧ l'.target held n = .inl m' ∧ m.AgreesOff k m') ∨
      ∃ r, l.target held n = .inr r ∧ l'.target held n = .inr r := by
  have ht := h.target
  cases hl : l.target held n with
  | inl m =>
    cases hl' : l'.target held n with
    | inl m' =>
      rw [hl, hl'] at ht
      exact .inl ⟨m, m', rfl, rfl, Sum.liftRel_inl_inl.1 ht⟩
    | inr r =>
      rw [hl, hl'] at ht
      cases ht
  | inr r =>
    cases hl' : l'.target held n with
    | inl m' =>
      rw [hl, hl'] at ht
      cases ht
    | inr r' =>
      rw [hl, hl'] at ht
      exact .inr ⟨r, rfl, by rw [Sum.liftRel_inr_inr.1 ht]⟩

theorem step (h : l.AgreesOffFunction held n k lost l') (c : Change) :
    (l.step held c).AgreesOffFunction held n k lost (l'.step held c) := by
  by_cases hc : c.place = n
  · cases c with
    | global i v =>
      obtain rfl : i = n := hc
      refine ⟨h.off.set i _, ?_⟩
      rw [Ledger.step, Ledger.step, target_set_self, target_set_self]
      exact .inl (.refl k _)
    | function i k' f =>
      obtain rfl : i = n := hc
      rcases h.target_cases with ⟨m, m', hl, hl', hm⟩ | ⟨r, hl, hl'⟩
      · rw [step_of_inl hl, step_of_inl hl']
        refine ⟨(AgreesOff.set_self l i _).symm.trans (h.off.trans (AgreesOff.set_self l' i _)), ?_⟩
        rw [target_set_self, target_set_self, Made.opened_register (opened_of_target hl),
          Made.opened_register (opened_of_target hl')]
        exact .inl (hm.register k' f)
      · rw [step_of_inr hl, step_of_inr hl']
        exact ⟨h.off.write r k' f, h.target⟩
  · refine ⟨h.off.step hc, ?_⟩
    rw [target_step_of_ne hc, target_step_of_ne hc]
    exact h.target

/-- An earlier registration may be left out. -/
theorem step_left (h : l.AgreesOffFunction held n k lost l') (f : HostFunction) :
    (l.step held (.function n k f)).AgreesOffFunction held n k lost l' := by
  rcases h.target_cases with ⟨m, m', hl, hl', hm⟩ | ⟨r, hl, hl'⟩
  · rw [step_of_inl hl]
    refine ⟨(AgreesOff.set_self l n _).symm.trans h.off, ?_⟩
    rw [target_set_self, Made.opened_register (opened_of_target hl), hl']
    exact .inl (hm.register_left f)
  · rw [step_of_inr hl]
    exact ⟨(AgreesOff.write_lost (.inr ⟨held_of_target hl, rfl⟩) l n f).symm.trans h.off, h.target⟩

theorem filter {f : HostFunction} {cs : Changes} (h : l.AgreesOffFunction held n k lost l') :
    (cs.foldl (Ledger.step held) l).AgreesOffFunction held n k lost
      ((cs.filter fun d => !d.sameSubject (.function n k f)).foldl (Ledger.step held) l') := by
  induction cs generalizing l l' with
  | nil => exact h
  | cons d ds ih =>
    by_cases hs : d.sameSubject (.function n k f) = true
    · rw [List.filter_cons_of_neg (by simp [hs]), List.foldl_cons]
      cases d with
      | global => cases hs
      | function n' k' f' =>
        simp only [Change.sameSubject, Bool.and_eq_true, beq_iff_eq] at hs
        obtain ⟨rfl, rfl⟩ := hs
        exact ih (h.step_left f')
    · rw [List.filter_cons_of_pos (by simp [hs]), List.foldl_cons, List.foldl_cons]
      exact ih (h.step d)

end AgreesOffFunction

/-- Where a ledger comes from: a global that the script left with a table is made by the host only where
the host sets it, and what is registered in a table of the script is registered through a global. -/
structure Sourced (held : String → Option TableRef) (all : Changes) (l : Ledger) : Prop where
  made : ∀ n m, l.made n = some m → held n = none ∨ ∃ v, .global n v ∈ all
  written : ∀ r k f, l.written r k = some f → ∃ n, held n = some r ∧ .function n k f ∈ all

namespace Sourced

theorem empty (held : String → Option TableRef) (all : Changes) : Ledger.empty.Sourced held all where
  made _ _ h := by cases h
  written _ _ _ h := by cases h

theorem set (h : l.Sourced held all) {m : Made} (hn : held n = none ∨ ∃ v, .global n v ∈ all) :
    (l.set n m).Sourced held all := by
  refine ⟨fun i m' hi => ?_, h.written⟩
  rcases of_made_set hi with ⟨rfl, -⟩ | ⟨-, hi⟩
  · exact hn
  · exact h.made i m' hi

theorem write (h : l.Sourced held all) {r : TableRef} (hr : held n = some r) {k : String} {f : HostFunction}
    (hf : .function n k f ∈ all) : (l.write r k f).Sourced held all := by
  refine ⟨h.made, fun r' k' f' hf' => ?_⟩
  rcases of_written_write hf' with ⟨rfl, rfl, rfl⟩ | hf'
  · exact ⟨n, hr, hf⟩
  · exact h.written r' k' f' hf'

theorem of_target (h : l.Sourced held all) {m : Made} (ht : l.target held n = .inl m) :
    held n = none ∨ ∃ v, .global n v ∈ all := by
  cases hm : l.made n with
  | some m' => exact h.made n m' hm
  | none =>
    cases hh : held n with
    | none => exact .inl rfl
    | some r =>
      rw [target, hm, hh] at ht
      cases ht

theorem step (h : l.Sourced held all) {c : Change} (hc : c ∈ all) : (l.step held c).Sourced held all := by
  cases c with
  | global n v => exact h.set (.inr ⟨v, hc⟩)
  | function n k f =>
    cases ht : l.target held n with
    | inl m =>
      rw [step_of_inl ht]
      exact h.set (h.of_target ht)
    | inr r =>
      rw [step_of_inr ht]
      exact h.write (held_of_target ht) hc

theorem foldl {cs : Changes} (hcs : cs ⊆ all) (h : l.Sourced held all) :
    (cs.foldl (Ledger.step held) l).Sourced held all := by
  induction cs generalizing l with
  | nil => exact h
  | cons c cs ih => exact ih (fun _ hm => hcs (List.mem_cons_of_mem _ hm)) (h.step (hcs List.mem_cons_self))

end Sourced

theorem sourced_ofChanges {cs : Changes} (hcs : cs ⊆ all) : (ofChanges held cs).Sourced held all :=
  Sourced.foldl hcs (.empty held all)

theorem agrees_filter_function {k : String} {f : HostFunction} (hf : .function n k f ∈ all) {cs : Changes}
    (hcs : cs ⊆ all) :
    ((ofChanges held cs).step held (.function n k f)).Agrees (Torn held all)
      ((ofChanges held (cs.filter fun d => !d.sameSubject (.function n k f))).step held (.function n k f)) := by
  have h : (ofChanges held cs).AgreesOffFunction held n k (Torn held all)
      (ofChanges held (cs.filter fun d => !d.sameSubject (.function n k f))) :=
    AgreesOffFunction.filter (AgreesOffFunction.refl (Torn held all) n k empty)
  rcases h.target_cases with ⟨m, m', hl, hl', hm⟩ | ⟨r, hl, hl'⟩
  · rw [step_of_inl hl, step_of_inl hl', hm.register_eq f]
    refine ⟨fun i => ?_, fun r i => ?_⟩
    · simp only [set, Function.update_apply]
      split
      · rfl
      next hi => exact h.off.made i hi
    · -- a table of the script under the global can only be out of reach because the host set the global
      rcases h.off.written r i with (hr | ⟨hr, rfl⟩) | hr
      · exact .inl hr
      · rcases (sourced_ofChanges hcs).of_target hl with hn | ⟨v, hv⟩
        · rw [hn] at hr
          cases hr
        · exact .inl ⟨n, f, v, hr, hf, hv⟩
      · exact .inr hr
  · rw [step_of_inr hl, step_of_inr hl']
    have hheld : held n = some r := held_of_target hl
    refine ⟨fun i => ?_, fun r' i => ?_⟩
    · by_cases hi : i = n
      · rw [hi]
        exact (made_of_target hl).trans (made_of_target hl').symm
      · exact h.off.made i hi
    · simp only [write, Function.update_apply]
      split
      next hr =>
        subst hr
        simp only [Function.update_apply]
        split
        · exact .inr rfl
        next hi =>
          rcases h.off.written r' i with (hr | ⟨-, hi'⟩) | hr
          · exact .inl hr
          · exact absurd hi' hi
          · exact .inr hr
      next hr =>
        rcases h.off.written r' i with (hr' | ⟨hr', -⟩) | hr'
        · exact .inl hr'
        · rw [hheld] at hr'
          exact absurd (Option.some.inj hr').symm hr
        · exact .inr hr'

/-! ### Compaction -/

theorem Agrees.step (h : l.Agrees lost l') (c : Change) : (l.step held c).Agrees lost (l'.step held c) := by
  cases c with
  | global n v =>
    refine ⟨fun i => ?_, h.written⟩
    simp only [Ledger.step, set, Function.update_apply, h.made i]
  | function n k f =>
    have ht : l.target held n = l'.target held n := target_congr (h.made n)
    cases hl : l'.target held n with
    | inl m =>
      rw [step_of_inl (ht.trans hl), step_of_inl hl]
      refine ⟨fun i => ?_, h.written⟩
      simp only [set, Function.update_apply, h.made i]
    | inr r =>
      rw [step_of_inr (ht.trans hl), step_of_inr hl]
      refine ⟨h.made, fun r' i => ?_⟩
      have hoff : l.AgreesOff n lost l' := ⟨fun i _ => h.made i, h.written⟩
      exact (hoff.write r k f).written r' i

theorem ofChanges_append (cs : Changes) (c : Change) :
    ofChanges held (cs ++ [c]) = (ofChanges held cs).step held c := by
  rw [ofChanges, List.foldl_append, List.foldl_cons, List.foldl_nil]
  rfl

theorem agrees_record {cs : Changes} {c : Change} (hcs : cs ⊆ all) (hc : c ∈ all) :
    ((ofChanges held cs).step held c).Agrees (Torn held all) (ofChanges held (cs.record c)) := by
  rw [Changes.record, ofChanges_append]
  cases c with
  | global n v => exact agrees_filter_global hc hcs
  | function n k f => exact agrees_filter_function hc hcs

theorem record_subset {cs : Changes} {c : Change} (hcs : cs ⊆ all) (hc : c ∈ all) : cs.record c ⊆ all := by
  intro d hd
  rcases List.mem_append.1 hd with hd | hd
  · exact hcs (List.mem_filter.1 hd).1
  · rw [List.mem_singleton.1 hd]
    exact hc

theorem foldl_record_subset {cs : Changes} (hcs : cs ⊆ all) {es : Changes} (hes : es ⊆ all) :
    es.foldl Changes.record cs ⊆ all := by
  induction es generalizing cs with
  | nil => exact hcs
  | cons e es ih => exact ih (record_subset hcs (hes List.mem_cons_self)) fun _ hm => hes (List.mem_cons_of_mem _ hm)

variable (held) in
/-- Recording one change after another makes the same globals as the changes themselves, and the same
functions in tables of the script but for torn ones. -/
theorem agrees_foldl_record (cs : Changes) :
    (ofChanges held cs).Agrees (Torn held cs) (ofChanges held (cs.foldl Changes.record [])) := by
  suffices h : ∀ es, es ⊆ cs → (ofChanges held es).Agrees (Torn held cs) (ofChanges held (es.foldl Changes.record [])) from
    h cs (List.Subset.refl cs)
  intro es
  induction es using List.reverseRecOn with
  | nil => exact fun _ => .refl _ _
  | append_singleton es e ih =>
    intro hes
    have hes' : es ⊆ cs := fun _ hm => hes (List.mem_append_left _ hm)
    have he : e ∈ cs := hes (List.mem_append_right _ (List.mem_singleton_self e))
    rw [ofChanges_append, List.foldl_append, List.foldl_cons, List.foldl_nil]
    exact ((ih hes').step e).trans (agrees_record (foldl_record_subset (List.nil_subset _) hes') he)

/-! ### Registrations in the table of globals -/

theorem Agrees.symm (h : l.Agrees lost l') : l'.Agrees lost l :=
  ⟨fun n => (h.made n).symm, fun r k => (h.written r k).imp_right Eq.symm⟩

theorem Agrees.mono {lost' : TableRef → String → Prop} (h : l.Agrees lost l') (hl : ∀ r k, lost r k → lost' r k) :
    l.Agrees lost' l' :=
  ⟨h.made, fun r k => (h.written r k).imp_left (hl r k)⟩

theorem Torn.mono {cs : Changes} (hcs : cs ⊆ all) {r : TableRef} {k : String} (h : Torn held cs r k) :
    Torn held all r k := by
  obtain ⟨n, f, v, hr, hf, hv⟩ := h
  exact ⟨n, f, v, hr, hcs hf, hcs hv⟩

variable (held) in
/-- Compaction works on changes as they are named. Where they lead in fact, the table of globals being
one of the tables that hold them, it drops less than it might; what it keeps still amounts to the
same. -/
theorem agrees_resolve (cs : Changes) (globals : TableRef) :
    (ofChanges held (cs.map (·.resolve held globals))).Agrees (Torn held (cs.map (·.resolve held globals)))
      (ofChanges held ((cs.foldl Changes.record []).map (·.resolve held globals))) := by
  have hsame : ((cs.foldl Changes.record []).map (·.resolve held globals)).foldl Changes.record [] =
      (cs.map (·.resolve held globals)).foldl Changes.record [] :=
    Changes.foldl_record_map (fun _ _ => Change.subject_resolve) cs
  have hkept := agrees_foldl_record held ((cs.foldl Changes.record []).map (·.resolve held globals))
  rw [hsame] at hkept
  have hsub : cs.foldl Changes.record [] ⊆ cs := foldl_record_subset (List.nil_subset _) (List.Subset.refl cs)
  exact (agrees_foldl_record held _).trans (hkept.mono fun _ _ => Torn.mono (List.map_subset _ hsub)).symm

end Ledger

end ScriptHost.Live
