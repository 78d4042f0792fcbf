import Mathlib.Data.List.Perm.Subperm
import ScriptHost.Proofs.Exchanges
import ScriptHost.Proofs.Tracking

/-! What a loop of a script over `ipairs` does. The iterator yields the indices of a table with their values
up to the first empty slot; so the loop runs its body for these one after another, as long as the body
lets the table be. -/

namespace ScriptHost.Script

/-! ### The indices in order -/

namespace Table

/-- The indices from `start` on with their values, up to the first empty slot, at most `limit` of them. -/
def stretch (t : Table) : Nat → Nat → List (Nat × Value)
  | 0, _ => []
  | limit + 1, start =>
    match t.getNat start with
    | .nil => []
    | v => (start, v) :: t.stretch limit (start + 1)

/-- The indices of a table with their values. There are no more of them than entries. -/
def visits (t : Table) : List (Nat × Value) := t.stretch (t.entries.length + 1) 1

variable {t : Table}

theorem stretch_of_nil {limit start : Nat} (h : t.getNat start = .nil) : t.stretch limit start = [] := by
  cases limit with
  | zero => rfl
  | succ limit => rw [stretch, h]

theorem stretch_of_ne_nil {start : Nat} (h : t.getNat start ≠ .nil) (limit : Nat) :
    t.stretch (limit + 1) start = (start, t.getNat start) :: t.stretch limit (start + 1) := by
  rw [stretch]
  split
  next hnil => exact absurd hnil h
  next => rfl

/-- Slots that hold something one after another are entries, each under a key of its own. -/
theorem length_le_of_held {n : Nat} (hn : n < 2 ^ 63) (h : ∀ i, 1 ≤ i → i ≤ n → t.getNat i ≠ .nil) :
    n ≤ t.entries.length := by
  have hnodup : ((List.range' 1 n).map Value.ofNat).Nodup := by
    refine List.Nodup.map_on (fun i hi j hj hij => ?_) List.nodup_range'
    rw [List.mem_range'_1] at hi hj
    exact ofNat_inj (by omega) (by omega) hij
  have hsubset : (List.range' 1 n).map Value.ofNat ⊆ t.entries.map (·.1) := by
    intro k hk
    obtain ⟨i, hi, rfl⟩ := List.mem_map.1 hk
    rw [List.mem_range'_1] at hi
    exact List.mem_map.2 ⟨_, mem_of_find rfl (h i (by omega) (by omega)), rfl⟩
  simpa using (hnodup.subperm hsubset).length_le

/-- The indices end at an empty slot. -/
theorem visits_end (h : t.entries.length + 1 < 2 ^ 63) : ∃ n, n ≤ t.entries.length ∧
    (∀ i, 1 ≤ i → i ≤ n → t.getNat i ≠ .nil) ∧ t.getNat (n + 1) = .nil := by
  by_contra hc
  have hheld : ∀ n, n ≤ t.entries.length + 1 → ∀ i, 1 ≤ i → i ≤ n → t.getNat i ≠ .nil := by
    intro n
    induction n with
    | zero => omega
    | succ n ih =>
      intro hn i hi hin hnil
      have hbefore := ih (by omega)
      rcases Nat.lt_or_ge i (n + 1) with hlt | hge
      · exact hbefore i hi (by omega) hnil
      · obtain rfl : i = n + 1 := by omega
        exact hc ⟨n, by omega, hbefore, hnil⟩
  have hle := length_le_of_held h (hheld _ (Nat.le_refl _))
  omega

end Table

/-! ### The iterator -/

/-- The builtins are where a new engine has them. -/
theorem State.Reachable.function?_ref {s : State} (h : s.Reachable) (b : Builtin) :
    s.function? b.ref = some (.builtin b) := by
  refine State.Later.function? h ?_
  cases b <;> rfl

namespace Evaluation

variable {host : HostCall} {depth : Nat} {s : State} {r : TableRef}

theorem callAt_builtin {b : Builtin} (h : s.function? b.ref = some (.builtin b)) (args : List Value) (site : CallSite) :
    callAt host (depth + 1) b.ref args site s = Builtins.run (callAt host depth) ⟨b, args, site⟩ s := by
  rw [callAt, callWith, Eval.get_bind_run, h]

/-- For a table, `ipairs` answers the iterator, the table and the index before the first. -/
theorem ipairs_run (h : s.function? (Builtin.ref .ipairs) = some (.builtin .ipairs)) (site : CallSite) :
    callAt host (depth + 1) (Builtin.ref .ipairs) [.table r] site s =
      .done [.function (Builtin.ref .ipairsStep), .table r, .ofNat 0] s := by
  rw [callAt_builtin h]
  rfl

/-- What the iterator answers: the index and its value, or nil at an empty slot. -/
def step (t : Table) (i : Nat) : List Value :=
  match t.getNat i with
  | .nil => [.nil]
  | v => [.ofNat i, v]

theorem ofNat_succ (i : Nat) : Value.number (.integer (Int64.ofInt i + 1)) = .ofNat (i + 1) := by
  rw [Value.ofNat, Value.ofInt, Int.natCast_add, Int64.ofInt_add]
  rfl

theorem invoke_step (hstep : s.function? (Builtin.ref .ipairsStep) = some (.builtin .ipairsStep))
    (hplain : s.metatable? r = none) (site : Site) (naming : Option Naming) (i : Nat) :
    Operators.invoke (callAt host (depth + 1)) site naming (.function (Builtin.ref .ipairsStep))
      [.table r, .ofNat i] s = .done (step (s.table r) (i + 1)) s := by
  have hindex (call : Call) (site : Site) : Operators.index call site none (.table r) (.ofNat (i + 1)) s =
      .done ((s.table r).getNat (i + 1)) s :=
    Exchange.index_run (fun _ => State.handler_of_metatable? hplain _) call site none
  have hrun (site : CallSite) : Builtins.run (callAt host depth) ⟨.ipairsStep, [.table r, .ofNat i], site⟩ s =
      .done (step (s.table r) (i + 1)) s := by
    have hinteger : (⟨.ipairsStep, [.table r, .ofNat i], site⟩ : Builtins.Frame).integer 2 = pure (Int64.ofInt i) := rfl
    rw [Builtins.run]
    simp only [hinteger]
    change (Operators.index (callAt host depth) _ none (.table r) (.number (.integer (Int64.ofInt i + 1))) >>= _) s = _
    rw [ofNat_succ, Eval.bind_run, hindex, step]
    cases (s.table r).getNat (i + 1) <;> rfl
  rw [Operators.invoke, Operators.callLimit, Operators.apply, callAt_builtin hstep]
  exact hrun _

/-! ### The loop -/

section Rounds

variable (call : Call) (a : Activation) (names : List String) (body : List Stmt) (line : Nat) (scope : Scope)
  (control : Nat)

/-- The body of a loop for an index and its value. The loop keeps the index in a variable of its own. -/
def bodyOn (p : Nat × Value) : Eval Exit := do
  Eval.modify (·.setCell control (.ofNat p.1))
  let inner ← declare a.depth names [.ofNat p.1, p.2] scope
  block call a body inner

/-- Runs the body for one index after another, until it leaves the loop. -/
def visit : List (Nat × Value) → Eval Exit
  | [] => pure (.next scope)
  | p :: ps => do
    match afterBody scope (← bodyOn call a names body scope control p) with
    | some e => pure e
    | none => visit ps

/-- As long as the loop goes on, its body lets the table be, and what the loop itself works with. -/
def Undisturbed (r : TableRef) : List (Nat × Value) → State → Prop
  | [], _ => True
  | p :: ps, s => ∀ e s', bodyOn call a names body scope control p s = .done e s' → afterBody scope e = none →
    s'.table r = s.table r ∧ s'.cell control = .ofNat p.1 ∧
      s'.function? (Builtin.ref .ipairsStep) = s.function? (Builtin.ref .ipairsStep) ∧ Undisturbed r ps s'

/-- One round of a loop over an iterator. -/
def eachRound (f state : Value) : Eval (Option Exit) := do
  let now := (← Eval.get).cell control
  let results ← Operators.invoke call (a.site line) (some ⟨"for iterator", "for iterator".toUTF8⟩) f [state, now]
  match Value.first results with
  | .nil => pure (some (.next scope))
  | v =>
    Eval.modify (·.setCell control v)
    let inner ← declare a.depth names results scope
    let e ← block call a body inner
    pure (afterBody scope e)

theorem statement_each (es : List Expr) : statement call a (.each names es body line) scope = (do
    let vs ← listValues call a es scope
    let control ← Eval.act (·.newCell (Value.first (vs.drop 2)))
    rounds loopLimit (eachRound call a names body line scope control (Value.first vs) (Value.first (vs.drop 1)))) := by
  rw [statement]
  rfl

end Rounds

section Visits

variable {a : Activation} {names : List String} {body : List Stmt} {line : Nat} {scope : Scope} {control i : Nat}
  (hstep : s.function? (Builtin.ref .ipairsStep) = some (.builtin .ipairsStep)) (hplain : s.metatable? r = none)
  (hcontrol : s.cell control = .ofNat i)
include hstep hplain hcontrol

/-- The loop ends at an empty slot. -/
theorem eachRound_end (hnil : (s.table r).getNat (i + 1) = .nil) :
    eachRound (callAt host (depth + 1)) a names body line scope control (.function (Builtin.ref .ipairsStep))
      (.table r) s = .done (some (.next scope)) s := by
  rw [eachRound, Eval.get_bind_run, hcontrol, Eval.bind_run, invoke_step hstep hplain, step, hnil]
  rfl

/-- Otherwise its body runs for the next index. -/
theorem eachRound_step (hheld : (s.table r).getNat (i + 1) ≠ .nil) :
    eachRound (callAt host (depth + 1)) a names body line scope control (.function (Builtin.ref .ipairsStep))
      (.table r) s =
      (do
        let e ← bodyOn (callAt host (depth + 1)) a names body scope control (i + 1, (s.table r).getNat (i + 1))
        pure (afterBody scope e) : Eval _) s := by
  have hyield : step (s.table r) (i + 1) = [.ofNat (i + 1), (s.table r).getNat (i + 1)] := by
    rw [step]
    split
    next h => exact absurd h hheld
    next => rfl
  rw [eachRound, Eval.get_bind_run, hcontrol, Eval.bind_run, invoke_step hstep hplain, hyield]
  change (Eval.modify (·.setCell control (.ofNat (i + 1))) >>= fun _ =>
    declare a.depth names [.ofNat (i + 1), (s.table r).getNat (i + 1)] scope >>= fun inner =>
      block (callAt host (depth + 1)) a body inner >>= fun e => pure (afterBody scope e)) s = _
  simp only [bodyOn, Eval.bind_run]
  cases Eval.modify (·.setCell control (.ofNat (i + 1))) s with
  | done _ s₁ =>
    simp only
    cases declare a.depth names [.ofNat (i + 1), (s.table r).getNat (i + 1)] scope s₁ <;> rfl
  | _ => rfl

omit hstep hplain hcontrol

/-- As long as the table is as it was the loop comes to its indices one after another, up to the first empty
slot. -/
theorem rounds_eq_visit {m limit : Nat} {s : State}
    (hstep : s.function? (Builtin.ref .ipairsStep) = some (.builtin .ipairsStep)) (hplain : s.metatable? r = none)
    (hcontrol : s.cell control = .ofNat i)
    (hend : ∃ n, i ≤ n ∧ n ≤ i + limit ∧ n < i + m ∧ (s.table r).getNat (n + 1) = .nil)
    (hquiet : Undisturbed (callAt host (depth + 1)) a names body scope control r
      ((s.table r).stretch limit (i + 1)) s) :
    rounds m (eachRound (callAt host (depth + 1)) a names body line scope control
      (.function (Builtin.ref .ipairsStep)) (.table r)) s =
      visit (callAt host (depth + 1)) a names body scope control ((s.table r).stretch limit (i + 1)) s := by
  -- what is left of the rounds and of the indices shrinks together; the first empty slot is before the end of both
  induction m generalizing i limit s with
  | zero => omega
  | succ m ih =>
    by_cases hnil : (s.table r).getNat (i + 1) = .nil
    · rw [Table.stretch_of_nil hnil, rounds, Eval.bind_run, eachRound_end hstep hplain hcontrol hnil]
      rfl
    · obtain ⟨n, hin, hn, hnm, hnnil⟩ := hend
      have hne : n ≠ i := fun h => hnil (h ▸ hnnil)
      obtain ⟨limit, rfl⟩ : ∃ l, limit = l + 1 := ⟨limit - 1, by omega⟩
      rw [Table.stretch_of_ne_nil hnil] at hquiet ⊢
      rw [rounds, Eval.bind_run, eachRound_step hstep hplain hcontrol hnil, visit, Eval.bind_run, Eval.bind_run]
      cases hbody : bodyOn (callAt host (depth + 1)) a names body scope control
          (i + 1, (s.table r).getNat (i + 1)) s with
      | done e s' =>
        change (match afterBody scope e with | some e => pure e | none => rounds m _ : Eval Exit) s' =
          (match afterBody scope e with | some e => pure e | none => visit _ a names body scope control _ : Eval Exit) s'
        cases hafter : afterBody scope e with
        | some e => rfl
        | none =>
          obtain ⟨htable, hcell, hfunction, hrest⟩ := hquiet e s' hbody hafter
          have hmeta : s'.metatable? r = none := by rw [State.metatable?, htable]; exact hplain
          rw [← htable] at hrest hnnil ⊢
          exact ih (hfunction.trans hstep) hmeta hcell ⟨n, by omega, by omega, by omega, hnnil⟩ hrest
      | raised => rfl
      | exhausted => rfl

/-- A loop over what `ipairs` answers for a table runs its body for the indices of the table and their values,
one after another. -/
theorem each_ipairs {s₀ s : State} {es : List Expr} {site : CallSite}
    (hs : ∀ b : Builtin, s.function? b.ref = some (.builtin b))
    (hes : listValues (callAt host (depth + 1)) a es scope s₀ =
      callAt host (depth + 1) (Builtin.ref .ipairs) [.table r] site s)
    (hplain : s.metatable? r = none) (hsize : (s.table r).entries.length < 2 ^ 32)
    (hquiet : Undisturbed (callAt host (depth + 1)) a names body scope s.cells.size r (s.table r).visits
      (s.newCell (.ofNat 0)).2) :
    statement (callAt host (depth + 1)) a (.each names es body line) scope s₀ =
      visit (callAt host (depth + 1)) a names body scope s.cells.size (s.table r).visits (s.newCell (.ofNat 0)).2 := by
  have hcell : (s.newCell (.ofNat 0)).2.cell s.cells.size = .ofNat 0 := by
    simp [State.newCell, State.cell]
  obtain ⟨n, hn, -, hnil⟩ := Table.visits_end (t := s.table r) (by omega)
  have hlimit : n < 0 + loopLimit := by
    have : 2 ^ 32 ≤ loopLimit := by decide
    omega
  rw [statement_each, Eval.bind_run, hes, ipairs_run (hs .ipairs)]
  exact rounds_eq_visit (s := (s.newCell (.ofNat 0)).2) (hs .ipairsStep) hplain hcell
    ⟨n, Nat.zero_le n, by omega, hlimit, hnil⟩ hquiet

end Visits

end Evaluation

end ScriptHost.Script
