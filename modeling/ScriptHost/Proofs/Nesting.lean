import Mathlib.Logic.Function.Iterate
import ScriptHost.Proofs.HostCalls
import ScriptHost.Proofs.Tracking

/-! Errors on their way out of nested calls. Script and host call each other in turn; what fails at the
bottom is reported at every layer above, with the code of a failed call put in front once for each host
function that passes it on. Nothing else is put in front or lost, and every host function finds its stack as
it was. -/

namespace ScriptHost

namespace Script

/-- A computation that comes to another one with nothing around it that stops errors: the other is the first
part of a sequence, or comes after parts that are done. -/
inductive Eval.Meets {β : Type} (n : Eval β) (t : State) : {α : Type} → Eval α → State → Prop
  | here : Meets n t n t
  | first {α γ : Type} {m : Eval α} {s : State} (g : α → Eval γ) : Meets n t m s → Meets n t (m >>= g) s
  | after {α γ : Type} {m : Eval α} {g : α → Eval γ} {s s' : State} {a : α} :
    m s = .done a s' → Meets n t (g a) s' → Meets n t (m >>= g) s

/-- An error comes out as it was raised. -/
theorem Eval.Meets.raised {α β : Type} {n : Eval β} {t : State} {m : Eval α} {s : State} (h : n.Meets t m s)
    {v : Value} {u : State} (hn : n t = .raised v u) : m s = .raised v u := by
  induction h with
  | here => exact hn
  | first g _ ih => rw [Eval.bind_run, ih]
  | after hdone _ ih =>
    rw [Eval.bind_run, hdone]
    exact ih

namespace Evaluation

variable {host : HostCall} {β : Type} {k : Eval β} {t s s' : State}

/-! ### Ways to a call -/

/-- The body of a script function. -/
theorem callAt_meets {r : FunctionRef} {body : FunctionBody} {scope : Scope} {depth : Nat} {source : ByteArray}
    (hr : s.function? r = some (.closure body scope depth source)) {n : Nat} {xs : List Value} {site : CallSite}
    (h : k.Meets t (enter (callAt host n) body scope depth source xs site) s) :
    k.Meets t (callAt host (n + 1) r xs site) s := by
  refine .after (m := Eval.get) rfl ?_
  simp only [hr]
  exact h

variable {call : Call} {a : Activation} {scope : Scope}

/-- The first statement of a body without parameters. -/
theorem enter_meets {first : Stmt} {rest : List Stmt} {depth : Nat} {source : ByteArray} {xs : List Value}
    {site : CallSite} (h : k.Meets t (statement call ⟨source, depth, [], site.callers⟩ first scope) s) :
    k.Meets t (enter call (.mk [] false (first :: rest)) scope depth source xs site) s :=
  .after (m := pure scope) rfl (.first _ (.first _ h))

/-- The call of a wrapper as the value of a `return`. -/
theorem return_meets {x : String} {line : Nat} {args : List Expr} {r : FunctionRef} {f : HostFunction}
    (hx : readVariable call a scope x line s = .done (.function r) s) {vs : List Value}
    (hargs : listValues call a args scope s = .done vs s') (hr : s'.function? r = some (.host f)) :
    (call r vs ((a.site line).callSite (a.naming scope (.variable x line)))).Meets s'
      (statement call a (.return [.call (.variable x line) args line]) scope) s := by
  have hcallee : values call a (.variable x line) scope false s = .done [.function r] s := by
    change (List.singleton <$> readVariable call a scope x line) s = _
    change (readVariable call a scope x line >>= _) s = _
    rw [Eval.bind_run, hx]
    rfl
  refine .first (m := values call a (.call (.variable x line) args line) scope true) _ ?_
  refine .after hcallee (.after hargs ?_)
  refine .after (m := Eval.get) rfl ?_
  simp only [hr]
  exact .here

end Evaluation

end Script

namespace Exchange

open Script (State FunctionRef Value Site)
open Host (Error Kind)

/-- An exchange that comes to another one and passes its errors on: the other is the first part of a
sequence, or comes after parts that are done, or its stack is cut back. -/
inductive Meets {β : Type} (c : Channel) (n : Exchange β) (g : Frame) : {α : Type} → Exchange α → Frame → Prop
  | here : Meets c n g n g
  | first {α γ : Type} {m : Exchange α} {f : Frame} (k : α → Exchange γ) :
    Meets c n g m f → Meets c n g (m >>= k) f
  | after {α γ : Type} {m : Exchange α} {k : α → Exchange γ} {f f' : Frame} {a : α} :
    m c f = .done a f' → Meets c n g (k a) f' → Meets c n g (m >>= k) f
  | balanced {α : Type} {m : Exchange α} {f : Frame} : Meets c n g m f → Meets c n g (balanced m) f

theorem Meets.failed {α β : Type} {c : Channel} {n : Exchange β} {g : Frame} {m : Exchange α} {f : Frame}
    (h : Meets c n g m f) {e : Error} {g' : Frame} (hn : n c g = .failed e g') : ∃ f', m c f = .failed e f' := by
  induction h with
  | here => exact ⟨g', hn⟩
  | first k _ ih =>
    obtain ⟨f', hm⟩ := ih
    exact ⟨f', by rw [bind_run, hm]⟩
  | after hdone _ ih =>
    obtain ⟨f', hm⟩ := ih
    exact ⟨f', by rw [bind_done hdone, hm]⟩
  | balanced _ ih =>
    obtain ⟨f', hm⟩ := ih
    exact ⟨_, by rw [Exchange.balanced, hm]⟩

/-! ### Layers -/

/-- A host function, or the host at the outermost, about to call a script function by its name. -/
structure Layer where
  depth : Nat
  site : Site
  stack : List Value
  state : State
  name : String
  arguments : List Host.Value
  kinds : List Kind

variable {catalog : Catalog} {l l' : Layer} {x : String}

namespace Layer

/-- How code of the layer calls into the script. -/
def channel (catalog : Catalog) (l : Layer) : Channel :=
  ⟨Script.Evaluation.callAt (hostCall catalog) l.depth, l.site⟩

/-- The call that the layer makes. -/
def call (l : Layer) : Exchange (List Host.Value) := runFunction l.name l.arguments l.kinds

def frame (l : Layer) : Frame := ⟨l.stack, l.state⟩

/-- The function that the layer calls comes to call a host function, on these values and this channel, and
does not stop its errors. -/
def Comes (catalog : Catalog) (l : Layer) (f : HostFunction) (ys : List Value) (c : Channel) (s : State) : Prop :=
  ∃ r xs s₀ r' n site, Invokes (l.channel catalog) l.stack l.state l.name l.arguments r xs s₀ ∧
    (Script.Evaluation.callAt (hostCall catalog) (n + 1) r' ys site).Meets s
      ((l.channel catalog).call r xs (l.site.callSite none)) s₀ ∧
    s.function? r' = some (.host f) ∧
    c = ⟨Script.Evaluation.callAt (hostCall catalog) n, ⟨none, site.callers⟩⟩

/-- The function that the layer calls comes to call a host function, which comes to the next layer and passes
its errors on. -/
def Leads (catalog : Catalog) (l l' : Layer) : Prop :=
  ∃ f ys s, l.Comes catalog f ys (l'.channel catalog) s ∧
    Meets (l'.channel catalog) l'.call l'.frame (resultsOf (catalog f) ys) ⟨[], s⟩

/-- The function that the layer calls raises a script error with the text `x`, or comes to call a host
function that fails with an error shown as `x`. -/
def Fails (catalog : Catalog) (l : Layer) (x : String) : Prop :=
  (∃ r xs s₀ v t, Invokes (l.channel catalog) l.stack l.state l.name l.arguments r xs s₀ ∧
    (l.channel catalog).call r xs (l.site.callSite none) s₀ = .raised v t ∧ (¬∃ message, Waits t message v) ∧
    errorMessage t v = x) ∨
  ∃ f ys c s e g, l.Comes catalog f ys c s ∧ resultsOf (catalog f) ys c ⟨[], s⟩ = .failed e g ∧ e.text = x

/-- An error of a host function is the message of the call that it came from. -/
theorem Comes.failed {f : HostFunction} {ys : List Value} {c : Channel} {s : State} (h : l.Comes catalog f ys c s)
    {e : Error} {g : Frame} (hfailed : resultsOf (catalog f) ys c ⟨[], s⟩ = .failed e g) :
    ∃ t, l.call (l.channel catalog) l.frame = .failed (.scriptFailed e.text) ⟨l.stack, t⟩ := by
  obtain ⟨r, xs, s₀, r', n, site, hinvokes, hmeets, hhost, rfl⟩ := h
  obtain ⟨v, t, hraise, htext, hv⟩ := raiseFailure_error e.text g.state
  have hcall : Script.Evaluation.callAt (hostCall catalog) (n + 1) r' ys site s = .raised v t := by
    rw [call_wrapper hhost, hostCall_run, hfailed]
    exact hraise
  rw [← htext]
  exact ⟨_, runFunction_failed [] (hinvokes.raised l.kinds (hmeets.raised hcall) hv)⟩

/-- One layer up the code of the failed call is put in front. -/
theorem Leads.failed (h : l.Leads catalog l') {message : String} {g : Frame}
    (hfailed : l'.call (l'.channel catalog) l'.frame = .failed (.scriptFailed message) g) :
    ∃ t, l.call (l.channel catalog) l.frame = .failed (.scriptFailed ("function error: " ++ message)) ⟨l.stack, t⟩ := by
  obtain ⟨f, ys, s, hcomes, hmeets⟩ := h
  obtain ⟨g', hresults⟩ := hmeets.failed hfailed
  exact hcomes.failed hresults

theorem Fails.failed (h : l.Fails catalog x) :
    ∃ t, l.call (l.channel catalog) l.frame = .failed (.scriptFailed x) ⟨l.stack, t⟩ := by
  rcases h with ⟨r, xs, s₀, v, t, hinvokes, hcall, hv, rfl⟩ | ⟨f, ys, c, s, e, g, hcomes, hfailed, rfl⟩
  · exact ⟨_, runFunction_failed [] (hinvokes.raised l.kinds hcall hv)⟩
  · exact hcomes.failed hfailed

end Layer

/-- Where calls of script and host lead through any number of layers to one that fails, the call of every
layer fails with the text of the failure, behind the code of a failed call for each layer between, and leaves
the stack of the layer as it was. -/
theorem error_survives_nesting {layers : List Layer} (hchain : layers.IsChain (Layer.Leads catalog))
    (hlast : ∀ l ∈ layers.getLast?, l.Fails catalog x) {i : Nat} {l : Layer} (hl : layers[i]? = some l) :
    ∃ t, l.call (l.channel catalog) l.frame =
      .failed (.scriptFailed (("function error: " ++ ·)^[layers.length - 1 - i] x)) ⟨l.stack, t⟩ := by
  induction layers generalizing i l with
  | nil => cases hl
  | cons a layers ih =>
    cases layers with
    | nil =>
      cases i with
      | zero =>
        obtain rfl : a = l := Option.some.inj hl
        exact (hlast a rfl).failed
      | succ i => cases hl
    | cons b layers =>
      obtain ⟨hab, hchain⟩ := List.isChain_cons_cons.1 hchain
      have hrest (j : Nat) {k : Layer} (hk : (b :: layers)[j]? = some k) := ih hchain hlast hk
      cases i with
      | zero =>
        obtain rfl : a = l := Option.some.inj hl
        obtain ⟨t, hb⟩ := hrest 0 rfl
        obtain ⟨t', ha⟩ := hab.failed hb
        refine ⟨t', ha.trans ?_⟩
        rw [← Function.iterate_succ_apply' ("function error: " ++ ·)]
        rfl
      | succ i =>
        obtain ⟨t, hi⟩ := hrest i hl
        refine ⟨t, hi.trans ?_⟩
        have hlength : (a :: b :: layers).length - 1 - (i + 1) = (b :: layers).length - 1 - i := by
          simp only [List.length_cons]
          omega
        rw [hlength]

/-! ### A chain of callbacks -/

/-- A script function that hands what a callback of another global makes of one to its caller. -/
def relay (next : String) : Script.FunctionBody :=
  .mk [] false [.return [.call (.variable "Call" 1) [.text next.toUTF8, .number (.integer 1)] 1]]

/-- A script function that raises a text. -/
def raising (text : String) : Script.FunctionBody :=
  .mk [] false [.call (.call (.variable "error" 1) [.text text.toUTF8, .number (.integer 0)] 1)]

/-- The arguments that a relay passes are read as what they are. -/
theorem args_relayed (next : String) (c : Channel) (s : State) :
    args [.text, .number] c ⟨[.number (.integer 1), .ofString next], s⟩ =
      .done [.text next, .number (.ofNat 1)] ⟨[], s⟩ := by
  have htext : reading? s .text (.ofString next) = some (.text next) := by
    simp only [reading?, Value.ofString, toText?, Host.fromUTF8?_toUTF8]
    rfl
  have hnumber : reading? s .number (.number (.integer 1)) = some (.number (.ofNat 1)) := rfl
  have hslot {k : Kind} {w : Value} {u : Host.Value} (hw : reading? s k w = some u) (hk : k ≠ .table)
      (st : List Value) : popSlot .strict k c ⟨w :: st, s⟩ = .done u ⟨st, s⟩ :=
    (popSlot_run .strict hw c st s.log).trans (take_run hw hk c st s.log)
  have hdown : popDown .strict [.number, .text] c ⟨[.number (.integer 1), .ofString next], s⟩ =
      .done [.number (.ofNat 1), .text next] ⟨[], s⟩ := by
    rw [popDown, bind_done (hslot hnumber (by decide) _), popDown, bind_done (bind_done (hslot htext (by decide) _) _)]
    rfl
  exact bind_done hdown _

/-- Where the function that a layer calls is a relay, the next layer is that of the callback. -/
theorem relay_leads {s : State} {r r' : FunctionRef} {next : String} {depth n : Nat} {source : ByteArray}
    {xs : List Value} (hcall : s.rawGet s.globals (.ofString "Call") = .function r')
    (hhost : s.function? r' = some (.host ⟨"callback"⟩))
    (hr : s.function? r = some (.closure (relay next) [] depth source)) (hl : l.depth = n + 2)
    (h : Invokes (l.channel Samples.catalog) l.stack l.state l.name l.arguments r xs s) :
    l.Leads Samples.catalog ⟨n, ⟨none, some ⟨source, 1⟩ :: (l.site.callSite none).callers⟩, [], s, next,
      [.number (.ofNat 1)], [.number]⟩ := by
  let call := Script.Evaluation.callAt (hostCall Samples.catalog) (n + 1)
  let activation : Script.Activation := ⟨source, depth, [], (l.site.callSite none).callers⟩
  let site : Script.CallSite := (activation.site 1).callSite (some ⟨"global", "Call".toUTF8⟩)
  have hcallee : Script.Evaluation.readVariable call activation [] "Call" 1 s = .done (.function r') s := by
    rw [← hcall]
    exact index_run (fun hnil => absurd (hcall.symm.trans hnil) nofun) _ _ none
  have hpassed : Script.Evaluation.listValues call activation [.text next.toUTF8, .number (.integer 1)] [] s =
      .done [.ofString next, .number (.integer 1)] s := rfl
  refine ⟨⟨"callback"⟩, [.ofString next, .number (.integer 1)], s, ⟨r, xs, s, r', n, site, h, ?_, hhost, rfl⟩, ?_⟩
  · rw [Layer.channel, hl]
    apply Script.Evaluation.callAt_meets hr
    apply Script.Evaluation.enter_meets
    exact Script.Evaluation.return_meets hcallee hpassed hhost
  · refine .after (m := receiveAll _) (a := [.ofString next, .number (.integer 1)]) rfl ?_
    refine .after (m := setStack _) rfl ?_
    refine .first (m := Samples.callback) _ ?_
    exact .after (args_relayed next _ s) (.first _ .here)

/-- An engine where `F` calls `G` by way of a callback, which calls `H` so, which raises `boom`. -/
def relayState : State :=
  let s := (State.fresh.wrap ⟨"callback"⟩).2
  let s := (s.newFunction (.closure (relay "G") [] 0 "main".toUTF8)).2
  let s := (s.newFunction (.closure (relay "H") [] 0 "main".toUTF8)).2
  let s := (s.newFunction (.closure (raising "boom") [] 0 "main".toUTF8)).2
  (((s.rawSet 0 (.ofString "Call") (.function 20)).rawSet 0 (.ofString "F") (.function 21)).rawSet 0 (.ofString "G")
    (.function 22)).rawSet 0 (.ofString "H") (.function 23)

/-- The host calls `F`, and sees the text that `H` raises behind two codes. -/
theorem error_survives_nesting_relayed :
    ∃ t, runFunction "F" [] [.number] (outermost Samples.catalog) ⟨[.nil], relayState⟩ =
      .failed (.scriptFailed "function error: function error: boom") ⟨[.nil], t⟩ := by
  let here : Option Script.Position := some ⟨"main".toUTF8, 1⟩
  let one : List Value := [.number (.double (.ofNat 1))]
  let outer : Layer := ⟨12000, Site.host, [.nil], relayState, "F", [], [.number]⟩
  let middle : Layer := ⟨11998, ⟨none, [here, none]⟩, [], relayState, "G", [.number (.ofNat 1)], [.number]⟩
  let inner : Layer := ⟨11996, ⟨none, [here, none, here, none]⟩, [], relayState, "H", [.number (.ofNat 1)], [.number]⟩
  have hF : Invokes (outer.channel Samples.catalog) [.nil] relayState "F" [] 21 [] relayState :=
    ⟨relayState, rfl, rfl, rfl⟩
  have hG : Invokes (middle.channel Samples.catalog) [] relayState "G" [.number (.ofNat 1)] 22 one relayState :=
    ⟨relayState, rfl, rfl, rfl⟩
  have hH : Invokes (inner.channel Samples.catalog) [] relayState "H" [.number (.ofNat 1)] 23 one relayState :=
    ⟨relayState, rfl, rfl, rfl⟩
  have houter : outer.Leads Samples.catalog middle := relay_leads (l := outer) rfl rfl rfl rfl hF
  have hmiddle : middle.Leads Samples.catalog inner := relay_leads (l := middle) rfl rfl rfl rfl hG
  have hinner : inner.Fails Samples.catalog "boom" := by
    refine .inl ⟨23, one, relayState, .ofString "boom", relayState, hH, rfl, nofun, ?_⟩
    decide +kernel
  have hchain : [outer, middle, inner].IsChain (Layer.Leads Samples.catalog) := by simp [houter, hmiddle]
  have hlast : ∀ l ∈ [outer, middle, inner].getLast?, l.Fails Samples.catalog "boom" := by simpa using hinner
  exact error_survives_nesting hchain hlast (i := 0) (l := outer) rfl

end Exchange

end ScriptHost
