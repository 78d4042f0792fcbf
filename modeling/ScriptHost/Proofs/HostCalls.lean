import ScriptHost.Proofs.Calls

/-! Typed host functions, called by the names of their globals. The arguments reach the function in order,
on a stack that holds nothing else, and its results come back in order; an error comes back as the text that
shows it. Nothing of the caller's stack is seen or changed on the way. -/

namespace ScriptHost.Exchange

open Script (State FunctionRef Value)
open Script.State (Reachable)
open Host (Error Kind)

/-! ### Typed functions -/

/-- Host values of these kinds, in order. -/
def OfKinds (kinds : List Kind) (vs : List Host.Value) : Prop :=
  vs.map (·.kind) = kinds ∧ ∀ v ∈ vs, v.Distinct

/-- A function on host values, by the kinds of its arguments and results. It may refuse its arguments. -/
structure TypedFunction (params results : List Kind) where
  body : List Host.Value → Except Error (List Host.Value)
  typed : ∀ vs ws, OfKinds params vs → body vs = .ok ws → OfKinds results ws

/-- Takes the arguments of the call, computes, and returns the results. -/
def TypedFunction.exchange {params results : List Kind} (g : TypedFunction params results) : Exchange Nat := do
  let vs ← args params
  let ws ← ofResult (g.body vs)
  returns ws

example (kind : Kind) :
    (⟨.ok, fun _ _ h hbody => by cases hbody; exact h⟩ : TypedFunction [kind] [kind]).exchange = Samples.echo kind :=
  rfl

variable {s : State} {params results kinds : List Kind}

/-! ### Copies of many values -/

theorem forall_not_failure {vs : List Host.Value} {xs : List Value} (h : List.Forall₂ (IsCopy s) vs xs) :
    ∀ x ∈ xs, ∀ r, x ≠ .failure r := by
  induction h with
  | nil => simp
  | cons hcopy _ ih =>
    obtain ⟨_, hcopy⟩ := hcopy
    exact List.forall_mem_cons.2 ⟨hcopy.not_failure, ih⟩

/-- Copies can be read one by one, and nothing comes between. -/
theorem slotsYield_copies {vs : List Host.Value} {xs : List Value} (h : List.Forall₂ (IsCopy s) vs xs)
    (hvs : ∀ v ∈ vs, v.Distinct) (mode : Extraction) : SlotsYield s (fun _ => False) False mode xs := by
  induction h with
  | nil => exact nofun
  | cons hcopy _ ih =>
    obtain ⟨_, hcopy⟩ := hcopy
    obtain ⟨hv, hvs⟩ := List.forall_mem_cons.1 hvs
    exact List.forall_mem_cons.2 ⟨(hcopy.reading hv).2 mode _ List.mem_cons_self, ih hvs⟩

/-- Copies of values read as the values. -/
theorem readings?_of_copies {vs : List Host.Value} {xs : List Value} (h : List.Forall₂ (IsCopy s) vs xs)
    (hvs : OfKinds kinds vs) :
    ∃ vs', readings? s kinds xs = some vs' ∧ List.Forall₂ Host.Value.Same vs vs' ∧ OfKinds kinds vs' := by
  obtain ⟨rfl, hvs⟩ := hvs
  induction h with
  | nil => exact ⟨[], rfl, .nil, rfl, by simp⟩
  | @cons v x vs xs hcopy _ ih =>
    obtain ⟨_, hcopy⟩ := hcopy
    obtain ⟨hv, hvs⟩ := List.forall_mem_cons.1 hvs
    obtain ⟨v', hread, hsame, hv'⟩ := (hcopy.reading hv).1
    obtain ⟨vs', hreads, hsames, hkinds, hvs'⟩ := ih hvs
    refine ⟨v' :: vs', ?_, .cons hsame hsames, ?_, List.forall_mem_cons.2 ⟨hv', hvs'⟩⟩
    · rw [List.map_cons, readings?, hread, Option.bind_some, hreads, Option.map_some]
    · rw [List.map_cons, List.map_cons, hsame.kind_eq, hkinds]

/-! ### The call of a typed function -/

/-- The arguments of a call, as the function takes them. -/
theorem args_run {vs : List Host.Value} {xs : List Value} (h : List.Forall₂ (IsCopy s) vs xs)
    (hvs : OfKinds params vs) : ∃ vs' log, List.Forall₂ Host.Value.Same vs vs' ∧ OfKinds params vs' ∧
      ∀ c, args params c ⟨xs.reverse, s⟩ = .done vs' ⟨[], { s with log }⟩ := by
  have hlen : xs.length = params.length := by
    rw [← h.length_eq, ← hvs.1, List.length_map]
  obtain ⟨vs', hreads, hsames, hkinds⟩ := readings?_of_copies h hvs
  obtain ⟨log, hdone⟩ := (popAll_yields (slotsYield_copies h hvs.2 .strict) hlen hreads).always s.log
  refine ⟨vs', log, hsames, hkinds, fun c => ?_⟩
  have hrun := hdone c []
  rw [List.append_nil] at hrun
  rw [args, depth_bind, if_pos (by simpa using hlen)]
  exact hrun

/-- The results of a call, as the caller reads them. -/
theorem results_run {ws : List Host.Value} {ys : List Value} (h : List.Forall₂ (IsCopy s) ws ys)
    (hws : OfKinds results ws) : ∃ ws' log, List.Forall₂ Host.Value.Same ws ws' ∧
      ∀ c st, (deliver results.length (.ok ys) >>= finish results) c ⟨st, s⟩ = .done ws' ⟨st, { s with log }⟩ := by
  obtain ⟨ws', hreads, hsames, -⟩ := readings?_of_copies h hws
  have hwaits : ∀ y ∈ ys, ∀ message, Waits s message y → False := by
    rintro y hy message ⟨r, rfl, -⟩
    exact forall_not_failure h _ hy r rfl
  have hslots : SlotsYield s (fun _ => False) False .checked (ys.take results.length) :=
    fun y hy => slotsYield_copies h hws.2 .checked y (List.mem_of_mem_take hy)
  obtain ⟨log, hdone⟩ := (deliver_yields hwaits hslots hreads).always s.log
  exact ⟨ws', log, hsames, hdone⟩

section Body

variable {g : TypedFunction params results} {vs vs' : List Host.Value} {xs : List Value} {log : List Event}
  {c : Channel}

/-- The function works on the arguments alone, and hands the copies of its results over. -/
theorem resultsOf_of_ok (hs : s.Linked) (hxs : ∀ x ∈ xs, ∀ r, x ≠ .failure r)
    (hargs : args params c ⟨xs.reverse, s⟩ = .done vs' ⟨[], { s with log }⟩) {ws : List Host.Value}
    (hbody : g.body vs' = .ok ws) (hws : ∀ w ∈ ws, w.Distinct) :
    ∃ ys s', resultsOf g.exchange xs c ⟨[], s⟩ = .done ys ⟨[], s'⟩ ∧ List.Forall₂ (IsCopy s') ws ys := by
  obtain ⟨ys, s', hpush, -, hcopies⟩ := pushAll_run ws hws { s with log } hs
  have hlen : ws.length = ys.reverse.length := by rw [List.length_reverse, hcopies.length_eq]
  have hexchange : g.exchange c ⟨xs.reverse, s⟩ = .done ws.length ⟨ys.reverse ++ [], s'⟩ := by
    rw [TypedFunction.exchange, bind_done hargs, hbody]
    exact bind_done (hpush c []) _
  have hdepth : ys.reverse.length ≤ (ys.reverse ++ []).length := by simp
  refine ⟨ys, s', ?_, hcopies⟩
  rw [resultsOf_eq, bind_done (receiveAll_run c _ hxs), setStack_bind, answer, bind_done hexchange, depth_bind, hlen,
    if_pos hdepth, takeTop_run, List.reverse_reverse]

theorem resultsOf_of_error (hxs : ∀ x ∈ xs, ∀ r, x ≠ .failure r)
    (hargs : args params c ⟨xs.reverse, s⟩ = .done vs' ⟨[], { s with log }⟩) {e : Error}
    (hbody : g.body vs' = .error e) :
    resultsOf g.exchange xs c ⟨[], s⟩ = .failed e ⟨[], { s with log }⟩ := by
  have hexchange : g.exchange c ⟨xs.reverse, s⟩ = .failed e ⟨[], { s with log }⟩ := by
    rw [TypedFunction.exchange, bind_done hargs, hbody]
    rfl
  rw [resultsOf_eq, bind_done (receiveAll_run c _ hxs), setStack_bind, answer, bind_run, hexchange]

end Body

/-! ### There and back -/

variable {catalog : Catalog} {f : HostFunction} {r : FunctionRef}

/-- Calling the wrapper of a host function is a host call one level deeper. -/
theorem call_wrapper (h : s.function? r = some (.host f)) (n : Nat) (xs : List Value) (site : Script.CallSite) :
    Script.Evaluation.callAt (hostCall catalog) (n + 1) r xs site s =
      hostCall catalog (Script.Evaluation.callAt (hostCall catalog) n) f xs site s := by
  rw [Script.Evaluation.callAt, Script.Evaluation.callWith, Script.Eval.get_bind_run, h]

/-- The error object of a host error shows the text of the error, and is no fault. -/
theorem raiseFailure_error (text : String) (s : State) :
    ∃ v t, (raiseFailure (.error text) s : Script.Flow (List Value)) = .raised v t ∧ errorMessage t v = text ∧
      ¬∃ message, Waits t message v := by
  have hfailure : (s.newFailure (.error text)).2.failure s.failures.size = .error text := by
    rw [failure_newFailure, if_pos rfl]
  refine ⟨.failure s.failures.size, (s.newFailure (.error text)).2, rfl, ?_, ?_⟩
  · rw [errorMessage, hfailure]
  · rintro ⟨message, q, hq, hw⟩
    cases hq
    rw [hfailure] at hw
    cases hw

/-- A call of a typed host function by the name of a global. The function gets the arguments of the
call, whatever it is; its results come back as they are, and an error as the text that shows it. The stack
of the caller has no part in any of this. -/
theorem runFunction_typed {s : State} (hs : s.Reachable) {name : String}
    (hglobal : s.rawGet s.globals (.ofString name) = .function r) (hf : s.hostFunction? r = some f)
    {vs : List Host.Value} (hvs : OfKinds params vs) (results : List Kind) :
    ∃ vs', List.Forall₂ Host.Value.Same vs vs' ∧ OfKinds params vs' ∧
      ∀ (catalog : Catalog) (g : TypedFunction params results), catalog f = g.exchange →
      ∀ (n : Nat) (site : Script.Site),
        (∀ ws, g.body vs' = .ok ws → ∃ ws' s', List.Forall₂ Host.Value.Same ws ws' ∧ ∀ st,
          runFunction name vs results ⟨Script.Evaluation.callAt (hostCall catalog) (n + 1), site⟩ ⟨st, s⟩ =
            .done ws' ⟨st, s'⟩) ∧
        ∀ e, g.body vs' = .error e → ∃ s', ∀ st,
          runFunction name vs results ⟨Script.Evaluation.callAt (hostCall catalog) (n + 1), site⟩ ⟨st, s⟩ =
            .failed (.scriptFailed e.text) ⟨st, s'⟩ := by
  have hpush (c : Channel) (st : List Value) : pushGlobal name c ⟨st, s⟩ = .done () ⟨.function r :: st, s⟩ :=
    pushGlobal_run c hglobal nofun (fun _ => nofun) st
  obtain ⟨xs, s₁, hargs, hext, hcopies⟩ := pushAll_run vs hvs.2 s hs.linked
  obtain ⟨vs', log, hsames, hkinds, htaken⟩ := args_run hcopies hvs
  -- the arguments are settled before the catalog and its function are, and before the stack is
  refine ⟨vs', hsames, hkinds, fun catalog g hg n site => ?_⟩
  have hxs := forall_not_failure hcopies
  have hwrapper := hext.function r _ (Script.State.hostFunction?_eq_some.1 hf)
  have hinvokes (st : List Value) :
      Invokes ⟨Script.Evaluation.callAt (hostCall catalog) (n + 1), site⟩ st s name vs r xs s₁ :=
    ⟨s, hpush _ st, hcopies.length_eq.symm, hargs _ _⟩
  have hcall : Script.Evaluation.callAt (hostCall catalog) (n + 1) r xs (site.callSite none) s₁ =
      hostCall catalog (Script.Evaluation.callAt (hostCall catalog) n) f xs (site.callSite none) s₁ :=
    call_wrapper hwrapper n xs _
  rw [hostCall_run, hg] at hcall
  refine ⟨fun ws hbody => ?_, fun e hbody => ?_⟩
  · have hws := g.typed vs' ws hkinds hbody
    obtain ⟨ys, s₂, hresults, hys⟩ := resultsOf_of_ok (hext.linked hs.linked) hxs (htaken _) hbody hws.2
    rw [hresults] at hcall
    obtain ⟨ws', log', hsames', hread⟩ := results_run hys hws
    exact ⟨ws', _, hsames', fun st => runFunction_done (((hinvokes st).returned results hcall).trans (hread _ st))⟩
  · obtain ⟨v, t, hraise, htext, hv⟩ := raiseFailure_error e.text { s₁ with log }
    rw [resultsOf_of_error hxs (htaken _) hbody] at hcall
    refine ⟨t.emit .stack .debug ("Protected call failed: " ++ e.text), fun st => ?_⟩
    rw [← htext]
    exact runFunction_failed [] ((hinvokes st).raised results (hcall.trans hraise) hv)

/-- Hands a flag and a table back in the other order, if the flag is set. -/
def guarded : TypedFunction [.boolean, .table] [.table, .boolean] where
  body
    | [.boolean true, t] => .ok [t, .boolean true]
    | _ => .error (.stated .config "refused")
  typed := by
    rintro vs ws ⟨hkinds, hdistinct⟩ hbody
    split at hbody
    next t =>
      cases hbody
      have hkind : t.kind = .table := (List.cons.inj (List.cons.inj hkinds).2).1
      exact ⟨congrArg (fun kind => [kind, Kind.boolean]) hkind, by simpa [and_comm] using hdistinct⟩
    next => cases hbody

/-- A new engine where the global `F` is the wrapper of a host function. -/
def guardedState : State :=
  ((State.fresh.wrap ⟨"guarded"⟩).2).rawSet 0 (.ofString "F") (.function (State.fresh.wrap ⟨"guarded"⟩).1)

/-- With the flag set the awkward table comes back, and otherwise the text of the error does, over a value on the
stack. -/
theorem runFunction_typed_guarded :
    guardedState.Reachable ∧
      guardedState.rawGet guardedState.globals (.ofString "F") = .function (State.fresh.wrap ⟨"guarded"⟩).1 ∧
      guardedState.hostFunction? (State.fresh.wrap ⟨"guarded"⟩).1 = some ⟨"guarded"⟩ ∧
      (∀ flag, OfKinds [.boolean, .table] [.boolean flag, .ofTable awkwardTable]) ∧
      (∃ t ws s', (Host.Value.ofTable awkwardTable).Same t ∧ List.Forall₂ Host.Value.Same [t, .boolean true] ws ∧
        runFunction "F" [.boolean true, .ofTable awkwardTable] [.table, .boolean]
          (outermost fun _ => guarded.exchange) ⟨[.nil], guardedState⟩ = .done ws ⟨[.nil], s'⟩) ∧
      ∃ s', runFunction "F" [.boolean false, .ofTable awkwardTable] [.table, .boolean]
        (outermost fun _ => guarded.exchange) ⟨[.nil], guardedState⟩ =
          .failed (.scriptFailed "configuration error: refused") ⟨[.nil], s'⟩ := by
  have hreachable : guardedState.Reachable :=
    (Script.State.Write.wrap State.fresh _).later.trans (Script.State.Write.modifyTable _ 0 _).later
  have hglobal : guardedState.rawGet guardedState.globals (.ofString "F") =
      .function (State.fresh.wrap ⟨"guarded"⟩).1 := rfl
  have hkinds (flag : Bool) : OfKinds [.boolean, .table] [.boolean flag, .ofTable awkwardTable] := by
    refine ⟨rfl, ?_⟩
    simp [awkwardTable, Host.Value.ofTable, Host.Value.DistinctEntries, Host.Value.Distinct]
  have hsplit {flag : Bool} {vs : List Host.Value}
      (h : List.Forall₂ Host.Value.Same [.boolean flag, .ofTable awkwardTable] vs) :
      ∃ t, vs = [.boolean flag, t] ∧ (Host.Value.ofTable awkwardTable).Same t := by
    obtain ⟨v, vs, hflag, hvs, rfl⟩ := List.forall₂_cons_left_iff.1 h
    obtain ⟨t, vs, ht, hnil, rfl⟩ := List.forall₂_cons_left_iff.1 hvs
    obtain rfl := List.forall₂_nil_left_iff.1 hnil
    cases v with
    | boolean b =>
      obtain rfl : flag = b := hflag
      exact ⟨t, rfl, ht⟩
    | _ => exact hflag.elim
  refine ⟨hreachable, hglobal, rfl, hkinds, ?_, ?_⟩
  · obtain ⟨vs', hsames, -, hrun⟩ := runFunction_typed hreachable hglobal rfl (hkinds true) [.table, .boolean]
    obtain ⟨t, rfl, ht⟩ := hsplit hsames
    obtain ⟨ws, s', hws, hdone⟩ := (hrun (fun _ => guarded.exchange) guarded rfl 11999 Script.Site.host).1 _ rfl
    exact ⟨t, ws, s', ht, hws, hdone [.nil]⟩
  · obtain ⟨vs', hsames, -, hrun⟩ := runFunction_typed hreachable hglobal rfl (hkinds false) [.table, .boolean]
    obtain ⟨t, rfl, -⟩ := hsplit hsames
    obtain ⟨s', hfailed⟩ := (hrun (fun _ => guarded.exchange) guarded rfl 11999 Script.Site.host).2 _ rfl
    exact ⟨s', hfailed [.nil]⟩

end ScriptHost.Exchange
