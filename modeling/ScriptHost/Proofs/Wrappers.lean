import ScriptHost.Proofs.Engine
import ScriptHost.Proofs.Samples

/-! Host functions keep their identity among scripts. An engine makes one script function for each host
function that crosses to it and knows it again ever after, in whatever frame it is pushed or met; no other
function is taken for one. -/

namespace ScriptHost.Script.State

/-! ### Registered wrappers -/

/-- The value that stands for a host function. -/
def IsWrapper (s : State) (f : HostFunction) (v : Value) : Prop :=
  ∃ r, v = .function r ∧ s.wrappers.lookup f = some r

variable {s t : State} {f g : HostFunction} {v w : Value}

theorem IsWrapper.unique (h : s.IsWrapper f v) (h' : s.IsWrapper f w) : v = w := by
  obtain ⟨r, rfl, hr⟩ := h
  obtain ⟨r', rfl, hr'⟩ := h'
  rw [Option.some.inj (hr.symm.trans hr')]

/-- The register and the functions are inverse to each other. -/
theorem isWrapper_iff (hl : s.Linked) (hn : s.Named) : s.IsWrapper f v ↔ Exchange.toHostFunction? s v = some f := by
  constructor
  · rintro ⟨r, rfl, hr⟩
    exact hl f r hr
  · intro h
    cases v with
    | function r => exact ⟨r, rfl, hn f r h⟩
    | _ => cases h

theorem IsWrapper.injective (hl : s.Linked) (hn : s.Named) (hf : s.IsWrapper f v) (hg : s.IsWrapper g v) : f = g := by
  rw [isWrapper_iff hl hn] at hf hg
  exact Option.some.inj (hf.symm.trans hg)

/-- A wrapper is one for good. -/
theorem IsWrapper.later (h : s.IsWrapper f v) (hs : s.Reachable) (hst : Later s t) : t.IsWrapper f v := by
  obtain ⟨r, rfl, hr⟩ := h
  have hfunction : s.function? r = some (.host f) := hostFunction?_eq_some.1 (hs.linked f r hr)
  have hnamed : t.Named := Reachable.named (Later.trans hs hst)
  exact ⟨r, rfl, hnamed f r (hostFunction?_eq_some.2 (hst.function? hfunction))⟩

theorem isWrapper_wrap (s : State) (f : HostFunction) : (s.wrap f).2.IsWrapper f (.function (s.wrap f).1) := by
  refine ⟨_, rfl, ?_⟩
  rcases s.wrap_cases f with ⟨r, hr, he⟩ | ⟨-, log, he⟩ <;> rw [he]
  · exact hr
  · exact List.lookup_cons_self

/-- Wrapping what is wrapped changes nothing. -/
theorem IsWrapper.wrap_eq (h : s.IsWrapper f v) : ∃ r, v = .function r ∧ s.wrap f = (r, s) := by
  obtain ⟨r, rfl, hr⟩ := h
  rw [wrap, hr]
  exact ⟨r, rfl, rfl⟩

end ScriptHost.Script.State

namespace ScriptHost.Exchange

open Script (State Value FunctionRef)
open Script.State (Later Reachable Write IsWrapper)

/-! ### Runs of an engine -/

/-- What an engine goes through from one moment to another. Host code works through any context, on its own
stack and at any depth of calls; between two moments within a run of script code there are the writes of the
script. -/
inductive Course (catalog : Catalog) : State → State → Prop
  | start {s : State} : Course catalog s s
  | host {s t u : State} (h : Course catalog s t) {α : Type} {m : Exchange α} (hm : m.Lawful) {c : Channel}
      (hc : c.Serves catalog) (st : List Value) (hrun : (m c ⟨st, t⟩).state? = some u) : Course catalog s u
  | script {s t u : State} (h : Course catalog s t) (hw : Write t u) : Course catalog s u

variable {catalog : Catalog} {s t : State}

theorem Course.later (hcat : catalog.Lawful) (h : Course catalog s t) : Later s t := by
  induction h with
  | start => exact steady_later.refl s
  | host _ hm hc st hrun ih => exact ih.trans ((later_of_lawful hcat hc hm _).state? hrun)
  | script _ hw ih => exact ih.trans hw.later

/-! ### Identity -/

/-- Pushing the host function puts this value on the stack, on any stack and in any context. -/
def Pushes (s : State) (f : HostFunction) (v : Value) (s' : State) : Prop :=
  ∀ c st, pushFunction f c ⟨st, s⟩ = .done () ⟨v :: st, s'⟩

theorem pushes_wrap (s : State) (f : HostFunction) : Pushes s f (.function (s.wrap f).1) (s.wrap f).2 :=
  fun _ _ => rfl

theorem Pushes.eq {f : HostFunction} {v : Value} {s' : State} (h : Pushes s f v s') :
    v = .function (s.wrap f).1 ∧ s' = (s.wrap f).2 := by
  let c : Channel := ⟨fun _ _ _ => Script.Eval.exhausted, Script.Site.host⟩
  obtain ⟨-, hframe⟩ := Outcome.done.inj ((h c []).symm.trans (pushes_wrap s f c []))
  obtain ⟨hstack, hstate⟩ := Frame.mk.inj hframe
  exact ⟨(List.cons.inj hstack).1, hstate⟩

theorem Pushes.isWrapper {f : HostFunction} {v : Value} {s' : State} (h : Pushes s f v s') : s'.IsWrapper f v := by
  obtain ⟨rfl, rfl⟩ := h.eq
  exact s.isWrapper_wrap f

theorem IsWrapper.pushes {f : HostFunction} {v : Value} (h : s.IsWrapper f v) : Pushes s f v s := by
  obtain ⟨r, rfl, he⟩ := h.wrap_eq
  exact fun c st => by rw [pushes_wrap, he]

/-- Host functions keep their identity over the whole course of an engine. A host function can be pushed at
any moment; it is the same script function each time, and that of no other. A value is known as a host
function exactly if it is the one that pushing this host function puts, already there. Functions of scripts
and of the language are never taken for host functions. -/
theorem host_functions_identified (hcat : catalog.Lawful) {s t : State} (hs : Course catalog State.fresh s)
    {f : HostFunction} {v : Value} {s' : State} (hpush : Pushes s f v s') (ht : Course catalog s' t) :
    (∀ g, ∃ w t', Pushes t g w t' ∧ (w = v ↔ g = f)) ∧ Pushes t f v t ∧ toHostFunction? t v = some f ∧
    (∀ w g, toHostFunction? t w = some g ↔ Pushes t g w t) ∧
    ∀ r g, t.function? r = some g → (∀ f, g ≠ .host f) →
      ∀ u, Course catalog t u → toHostFunction? u (.function r) = none := by
  have hs₀ : s.Reachable := hs.later hcat
  have hs' : s'.Reachable := hpush.eq.2 ▸ State.Later.trans hs₀ (Write.wrap s f).later
  have ht₀ : t.Reachable := State.Later.trans hs' (ht.later hcat)
  have hl : t.Linked := ht₀.linked
  have hn : t.Named := ht₀.named
  have hv : t.IsWrapper f v := hpush.isWrapper.later hs' (ht.later hcat)
  refine ⟨fun g => ⟨_, _, pushes_wrap t g, fun hw => ?_, ?_⟩, IsWrapper.pushes hv, (State.isWrapper_iff hl hn).1 hv,
    fun w g => ?_, fun r g hr hg u hu => ?_⟩
  · have hlater : Later t (t.wrap g).2 := (Write.wrap t g).later
    have hg : (t.wrap g).2.IsWrapper g v := hw ▸ t.isWrapper_wrap g
    have ht₁ : (t.wrap g).2.Reachable := State.Later.trans ht₀ hlater
    exact hg.injective ht₁.linked ht₁.named (hv.later ht₀ hlater)
  · rintro rfl
    exact (pushes_wrap t g).isWrapper.unique (hv.later ht₀ (Write.wrap t g).later)
  · rw [← State.isWrapper_iff hl hn]
    exact ⟨IsWrapper.pushes, Pushes.isWrapper⟩
  · have hu₀ : u.function? r = some g := (hu.later hcat).function? hr
    cases h : toHostFunction? u (.function r) with
    | none => rfl
    | some f' =>
      have hhost : u.function? r = some (.host f') := State.hostFunction?_eq_some.1 h
      exact absurd (Option.some.inj (hu₀.symm.trans hhost)) (hg f')

/-- A function that was pushed is known again after another has been pushed in a nested frame and a script
has made a function of its own. -/
theorem host_functions_identified_nested :
    ∃ s' t, Pushes State.fresh ⟨"ping"⟩ (.function 20) s' ∧ Course Samples.catalog s' t ∧
      toHostFunction? t (.function 20) = some ⟨"ping"⟩ ∧ Pushes t ⟨"swap"⟩ (.function 21) t ∧
      toHostFunction? t (.function 22) = none := by
  let s' : State := (State.fresh.wrap ⟨"ping"⟩).2
  let u : State := (s'.wrap ⟨"swap"⟩).2
  let t : State := (u.newFunction (.closure (.mk [] false []) [] 0 "script".toUTF8)).2
  let nested : Channel := ⟨Script.Evaluation.callAt (hostCall Samples.catalog) 3, Script.Site.host⟩
  have hpush : Pushes State.fresh ⟨"ping"⟩ (.function 20) s' := fun _ _ => rfl
  have hcourse : Course Samples.catalog s' t :=
    .script (.host .start (m := pushFunction ⟨"swap"⟩) (pushFunction_composed _).lawful (c := nested)
      ⟨3, rfl⟩ [] rfl) (.newClosure u _ _ _ _)
  obtain ⟨-, -, hping, hknown, hothers⟩ :=
    host_functions_identified Samples.catalog_lawful .start hpush hcourse
  exact ⟨s', t, hpush, hcourse, hping, (hknown _ _).1 rfl, hothers 22 _ rfl (fun _ h => by cases h) t .start⟩

end ScriptHost.Exchange
