import ScriptHost.Proofs.Namespaces
import ScriptHost.Proofs.Reading
import ScriptHost.Proofs.Separation

/-! Globals that the host sets and reads. A global holds a copy of the value that it was given last, and
is read by the kind of that value and by no other, also where the copy would convert. Names that were not
set keep what they had, and reading changes no global. -/

namespace ScriptHost.Exchange

open Script (State TableRef Value)
open Host (Kind ofString_injective)

/-- Sets globals one after another. -/
def setGlobals : List (String × Host.Value) → Exchange Unit
  | [] => pure ()
  | (name, v) :: rest => do
    setGlobal name v
    setGlobals rest

theorem setGlobals_append (xs ys : List (String × Host.Value)) (c : Channel) (f : Frame) :
    setGlobals (xs ++ ys) c f = (setGlobals xs >>= fun _ => setGlobals ys) c f := by
  induction xs generalizing f with
  | nil => rfl
  | cons x xs ih =>
    rw [List.cons_append, setGlobals, setGlobals, bind_bind, bind_run, bind_run]
    cases setGlobal x.1 x.2 c f with
    | done _ g => exact ih g
    | _ => rfl

/-! ### Setting -/

variable {s s' : State}

theorem setGlobals_sets (h : Settable s) {writes : List (String × Host.Value)} (hw : ∀ e ∈ writes, e.2.Distinct) :
    ∃ s', (∀ c st, setGlobals writes c ⟨st, s⟩ = .done () ⟨st, s'⟩) ∧ SetsOnly (writes.map (·.1)) s s' := by
  induction writes generalizing s with
  | nil => exact ⟨s, fun _ _ => rfl, ⟨.refl _ s, h, fun _ _ => rfl⟩⟩
  | cons e writes ih =>
    obtain ⟨he, hw⟩ := List.forall_mem_cons.1 hw
    obtain ⟨s₁, hset, hsets, -⟩ := setGlobal_sets h e.1 he
    obtain ⟨s', hrest, hsets'⟩ := ih hsets.settable hw
    refine ⟨s', fun c st => ?_, hsets.trans hsets'⟩
    rw [setGlobals, bind_done (hset c st), hrest]

/-- After a sequence of writes each name holds a copy of the value that it was given last. -/
theorem copy_of_setGlobals (h : Settable s) {earlier later : List (String × Host.Value)} {name : String}
    {v : Host.Value} (hw : ∀ e ∈ earlier ++ (name, v) :: later, e.2.Distinct) (hlast : name ∉ later.map (·.1))
    (hrun : ∀ c st, setGlobals (earlier ++ (name, v) :: later) c ⟨st, s⟩ = .done () ⟨st, s'⟩) :
    IsCopy s' v (s'.rawGet s'.globals (.ofString name)) := by
  obtain ⟨hearlier, hrest⟩ := List.forall_mem_append.1 hw
  obtain ⟨hv, hlater⟩ := List.forall_mem_cons.1 hrest
  obtain ⟨s₁, hrun₁, hsets₁⟩ := setGlobals_sets h hearlier
  obtain ⟨s₂, hrun₂, hsets₂, hcopy⟩ := setGlobal_sets hsets₁.settable name hv
  obtain ⟨s₃, hrun₃, hsets₃⟩ := setGlobals_sets hsets₂.settable hlater
  have hall := hrun Channel.idle []
  rw [setGlobals_append, bind_done (hrun₁ _ _), setGlobals, bind_done (hrun₂ _ _), hrun₃] at hall
  obtain rfl : s₃ = s' := congrArg Frame.state (Outcome.done.inj hall).2
  rw [hsets₃.kept (.ofString name) fun name' hname' hc => hlast (ofString_injective hc ▸ hname')]
  refine ⟨_, hcopy.extend hsets₃.toExtends fun q hq _ hc => ?_⟩
  have hqg : q = s₂.globals := Option.some.inj hc
  rw [hqg, hsets₂.globals] at hq
  exact Nat.not_lt.2 hq hsets₁.settable.lt

/-! ### Copies in globals -/

theorem Copy.kind_eq {v : Host.Value} {start : TableRef} {w : Value} (h : Copy s v start w) :
    Kind.of? w = some v.kind := by
  cases v with
  | function f =>
    obtain ⟨r, rfl, -⟩ := h
    rfl
  | table es =>
    obtain rfl := h.1
    rfl
  | _ =>
    cases h
    rfl

/-- A copy in a global is read by its own kind, and by no other. -/
theorem getGlobal_copy {name : String} {v : Host.Value} (hv : v.Distinct)
    (h : IsCopy s v (s.rawGet s.globals (.ofString name))) :
    (∃ v' log, v.Same v' ∧ ∀ c st, getGlobal name v.kind c ⟨st, s⟩ = .done v' ⟨st, { s with log }⟩) ∧
      ∀ kind, kind ≠ v.kind → ∀ c st, getGlobal name kind c ⟨st, s⟩ =
        .failed (.globalMismatch name (s.rawGet s.globals (.ofString name)).description kind) ⟨st, s⟩ := by
  obtain ⟨start, hcopy⟩ := h
  generalize hget : s.rawGet s.globals (.ofString name) = w at hcopy ⊢
  have hpush (c : Channel) (st : List Value) : pushGlobal name c ⟨st, s⟩ = .done () ⟨w :: st, s⟩ :=
    pushGlobal_run c hget (fun hnil => absurd hnil hcopy.not_nil) hcopy.not_failure st
  have hkind (st : List Value) : (w :: st).head?.bind Kind.of? = some v.kind := hcopy.kind_eq
  constructor
  · obtain ⟨⟨v', hread, hsame, -⟩, hslots⟩ := hcopy.reading hv
    have htake : Yields s (fun _ => False) False [w] (take v.kind) v' :=
      (hslots .checked w (List.mem_singleton.2 rfl) _ _ hread).congr fun c st log =>
        (popSlot_run .checked hread c st log).symm
    obtain ⟨log, hdone⟩ := htake.always s.log
    refine ⟨v', log, hsame, fun c st => ?_⟩
    apply balanced_done
    rw [bind_done (hpush c st), topKind_bind, if_pos (hkind st)]
    exact hdone c st
  · intro kind hne c st
    have hother : ¬(w :: st).head?.bind Kind.of? = some kind := by
      rw [hkind]
      exact fun hc => hne (Option.some.inj hc).symm
    have hfailed : (pushGlobal name >>= fun _ => do
        if (← topKind) = some kind then take kind
        else
          let what := describe (← peek)
          pop 1
          fail (.globalMismatch name what kind)) c ⟨st, s⟩ =
        .failed (.globalMismatch name w.description kind) ⟨st, s⟩ := by
      rw [bind_done (hpush c st), topKind_bind, if_neg hother]
      rfl
    rw [getGlobal, balanced, hfailed]
    simp

/-! ### Reading changes no table -/

/-- A later state with the same tables, that of the globals among them. -/
structure SameTables (s t : State) : Prop where
  tables : t.tables = s.tables
  globals : t.globals = s.globals
  later : s.Later t

theorem SameTables.refl (s : State) : SameTables s s := ⟨rfl, rfl, .refl⟩

theorem SameTables.trans {t u : State} (h : SameTables s t) (h' : SameTables t u) : SameTables s u :=
  ⟨h'.tables.trans h.tables, h'.globals.trans h.globals, h.later.trans h'.later⟩

theorem SameTables.emit (s : State) (origin : Origin) (level : Level) (message : String) :
    SameTables s (s.emit origin level message) :=
  ⟨rfl, rfl, (State.Write.relog s _).later⟩

theorem SameTables.spend (s : State) (r : Script.FailureRef) : SameTables s (s.spend r) :=
  ⟨rfl, rfl, (State.Write.spend s r).later⟩

theorem SameTables.rawGet {t : State} (h : SameTables s t) (k : Value) :
    t.rawGet t.globals k = s.rawGet s.globals k := by
  rw [State.rawGet, State.rawGet, State.table, State.table, h.tables, h.globals]

theorem SameTables.settable {t : State} (h : SameTables s t) (hs : Settable s) : Settable t where
  linked := h.later.linked hs.linked
  lt := by
    rw [h.tables, h.globals]
    exact hs.lt
  plain := by
    rw [State.metatable?, State.table, h.tables, h.globals]
    exact hs.plain

mutual

theorem Copy.same {t : State} {v : Host.Value} {start : TableRef} {w : Value} (h : Copy s v start w)
    (ht : SameTables s t) : Copy t v start w := by
  cases v with
  | function f =>
    obtain ⟨r, rfl, hf⟩ := h
    exact ⟨r, rfl, State.hostFunction?_eq_some.2 (ht.later.function? (State.hostFunction?_eq_some.1 hf))⟩
  | table es =>
    obtain ⟨rfl, hlt, hm, hes⟩ := h
    have htable : t.table start = s.table start := by rw [State.table, State.table, ht.tables]
    refine ⟨rfl, by rwa [ht.tables], ?_, ?_⟩
    · rwa [State.metatable?, htable]
    · rw [htable]
      exact hes.same ht
  | _ => exact h

theorem CopyEntries.same {t : State} {es : List (String × Host.Value)} {start : TableRef}
    {ws : List (Value × Value)} (h : CopyEntries s es start ws) (ht : SameTables s t) :
    CopyEntries t es start ws := by
  cases es with
  | nil => exact h
  | cons e es =>
    obtain ⟨w, rest, rfl, hw, hrest⟩ := h
    exact ⟨w, rest, rfl, hw.same ht, hrest.same ht⟩

end

/-- What yields the same everywhere does not depend on how functions are called. -/
theorem Yields.channel {α : Type} {faulty : String → Prop} {deep : Prop} {ws : List Value} {m : Exchange α} {a : α}
    (h : Yields s faulty deep ws m a) (c c' : Channel) (st : List Value) :
    m c ⟨ws ++ st, s⟩ = m c' ⟨ws ++ st, s⟩ := by
  rcases h s.log with ⟨_, hdone⟩ | ⟨_, _, hstopped, -⟩ | ⟨hexhausted, -⟩
  · exact (hdone c st).trans (hdone c' st).symm
  · exact (hstopped c st).trans (hstopped c' st).symm
  · exact (hexhausted c st).trans (hexhausted c' st).symm

/-- No write moves the globals to another table. -/
theorem globals_steady : Steady fun s t => t.globals = s.globals where
  refl _ := rfl
  trans h h' := h'.trans h
  newTable _ := rfl
  newClosure _ _ _ _ _ := rfl
  newCell _ _ := rfl
  newThread _ := rfl
  setCell _ _ _ := rfl
  rawSet _ _ _ _ _ := rfl
  storePositional _ _ _ := rfl
  setMetatable _ _ _ := rfl
  wrap s f := (State.Retains.wrap s f).globals
  spend _ _ := rfl
  emit _ _ _ _ := rfl

theorem Outcome.Within.of_state? {α : Type} {R : State → State → Prop} {o : Outcome α}
    (h : ∀ t, o.state? = some t → R s t) : o.Within R s := by
  cases o with
  | exhausted => trivial
  | _ => exact h _ rfl

theorem takeTable_sameTables (c : Channel) (f : Frame) : (takeTable c f).Within SameTables f.state := by
  have hidle : takeTable c f = takeTable Channel.idle f := by
    obtain ⟨_ | ⟨v, st⟩, t⟩ := f
    · rfl
    · cases v with
      | table r => exact (takeTable_yields r).channel c _ st
      | _ => rfl
  have hglobals := takeTable_composed.keeps globals_steady Channel.idle (fun _ _ _ _ => trivial) f
  have hlater := takeTable_composed.keeps steady_later Channel.idle (fun _ _ _ _ => trivial) f
  rw [← hidle] at hglobals hlater
  exact .of_state? fun t ht => ⟨drainTop_tables ht, hglobals.state? ht, hlater.state? ht⟩

section Keeping

variable {α β : Type} {c : Channel} {f : Frame}

theorem sameTables_bind {m : Exchange α} {g : α → Exchange β} (hm : (m c f).Within SameTables f.state)
    (hg : ∀ a f', (g a c f').Within SameTables f'.state) : ((m >>= g) c f).Within SameTables f.state := by
  rw [bind_run]
  cases hrun : m c f with
  | done a f' =>
    rw [hrun] at hm
    exact .of_state? fun t ht => SameTables.trans hm ((hg a f').state? ht)
  | exhausted => trivial
  | _ =>
    rw [hrun] at hm
    exact hm

theorem sameTables_balanced {m : Exchange α} (hm : (m c f).Within SameTables f.state) :
    (balanced m c f).Within SameTables f.state := by
  rw [balanced]
  split
  next e g hrun =>
    rw [hrun] at hm
    exact hm
  next => exact hm

theorem pop_sameTables (n : Nat) : (pop n c f).Within SameTables f.state := by
  change ((if n ≤ f.stack.length then setStack (f.stack.drop n) else stop _ : Exchange Unit) c f).Within _ _
  split
  · exact .refl _
  · exact .emit ..

theorem orMismatch_sameTables (kind : Kind) (top : Option Value) (v : Option Host.Value) :
    (orMismatch kind top v c f).Within SameTables f.state := by
  cases v <;> exact SameTables.refl _

theorem receive_sameTables (v : Value) : (receive v c f).Within SameTables f.state := by
  unfold receive
  split
  next r =>
    rw [state_bind]
    cases f.state.failure r with
    | fatal message => exact SameTables.spend ..
    | _ => exact SameTables.refl _
  next => exact SameTables.refl _

theorem construct_sameTables (kind : Kind) : (construct kind c f).Within SameTables f.state := by
  rw [construct, state_bind, peek_bind]
  cases kind with
  | number | text | pointer => exact orMismatch_sameTables ..
  | boolean => exact SameTables.refl _
  | function =>
    cases f.stack.head?.bind (toHostFunction? f.state) <;> exact SameTables.refl _
  | table => exact sameTables_bind (takeTable_sameTables c f) fun _ _ => SameTables.refl _

theorem take_sameTables (kind : Kind) : (take kind c f).Within SameTables f.state := by
  rw [take, depth_bind]
  refine sameTables_bind (construct_sameTables kind) fun v f' => ?_
  rw [depth_bind]
  split
  · exact sameTables_bind (pop_sameTables 1) fun _ _ => SameTables.refl _
  · exact SameTables.refl _

end Keeping

/-- Where no handler is asked, reading a global changes no table, whatever it holds. -/
theorem getGlobal_sameTables (hs : s.metatable? s.globals = none) (name : String) (kind : Kind) (c : Channel)
    (st : List Value) : (getGlobal name kind c ⟨st, s⟩).Within SameTables s := by
  apply sameTables_balanced
  refine sameTables_bind (f := ⟨st, s⟩) ?_ fun _ f => ?_
  · rw [pushGlobal, state_bind]
    refine sameTables_bind (f := ⟨st, s⟩) ?_ fun _ _ => SameTables.refl _
    rw [readFrom, state_bind]
    simp only [hs]
    exact receive_sameTables ..
  · rw [topKind_bind]
    split
    · exact take_sameTables kind
    · rw [peek_bind]
      exact sameTables_bind (pop_sameTables 1) fun _ _ => SameTables.refl _

/-! ### Writes and reads -/

/-- The second state is left by reading a global of the first. -/
def Read (s t : State) : Prop := ∃ name kind c st, (getGlobal name kind c ⟨st, s⟩).state? = some t

/-- Any number of globals can be read. -/
theorem sameTables_of_reads {t : State} (hs : Settable s) (h : Relation.ReflTransGen Read s t) : SameTables s t := by
  induction h with
  | refl => exact .refl s
  | tail _ hread ih =>
    obtain ⟨name, kind, c, st, hrun⟩ := hread
    exact ih.trans ((getGlobal_sameTables (ih.settable hs).plain name kind c st).state? hrun)

/-- Setting globals succeeds, with any names and values, as long as no handler is asked. However many
globals are read after that, each name has the value that it was given last, by the kind of that value; by
every other kind it is a mismatch, whether the value would convert or not. All other globals, and all
tables that the engine had, are what they were before. -/
theorem globals_keep_kind (hs : s.Reachable) (hm : s.metatable? s.globals = none)
    {writes : List (String × Host.Value)} (hw : ∀ e ∈ writes, e.2.Distinct) :
    ∃ s', (∀ c st, setGlobals writes c ⟨st, s⟩ = .done () ⟨st, s'⟩) ∧
      (∀ r < s.tables.size, r ≠ s.globals → s'.table r = s.table r) ∧
      ∀ t, Relation.ReflTransGen Read s' t →
        t.tables = s'.tables ∧ t.globals = s.globals ∧
        (∀ earlier name v later, writes = earlier ++ (name, v) :: later → name ∉ later.map (·.1) →
          (∃ v' log, v.Same v' ∧ ∀ c st, getGlobal name v.kind c ⟨st, t⟩ = .done v' ⟨st, { t with log }⟩) ∧
          ∀ kind ≠ v.kind, ∃ found, ∀ c st,
            getGlobal name kind c ⟨st, t⟩ = .failed (.globalMismatch name found kind) ⟨st, t⟩) ∧
        ∀ k : Value, (∀ name ∈ writes.map (·.1), k.asKey ≠ .ofString name) →
          t.rawGet t.globals k = s.rawGet s.globals k := by
  have hsettable : Settable s := ⟨hs.linked, hs.globals_lt, hm⟩
  obtain ⟨s', hrun, hsets⟩ := setGlobals_sets hsettable hw
  refine ⟨s', hrun, fun r hr hne => hsets.table r hr fun hc => hne (Option.some.inj hc), fun t hreads => ?_⟩
  have hsame := sameTables_of_reads hsets.settable hreads
  refine ⟨hsame.tables, hsame.globals.trans hsets.globals, ?_, fun k hk => (hsame.rawGet k).trans (hsets.kept k hk)⟩
  rintro earlier name v later rfl hlast
  obtain ⟨start, hcopy⟩ := copy_of_setGlobals hsettable hw hlast hrun
  have hcopy' : IsCopy t v (t.rawGet t.globals (.ofString name)) := ⟨start, hsame.rawGet _ ▸ hcopy.same hsame⟩
  obtain ⟨hread, hmismatch⟩ := getGlobal_copy (hw (name, v) (by simp)) hcopy'
  exact ⟨hread, fun kind hkind => ⟨_, hmismatch kind hkind⟩⟩

/-- A text that reads as a number where values convert is no number in a global. -/
theorem text_global_is_no_number :
    reading? State.fresh .number (.ofString "7") = some (.number (.ofNat 7)) ∧
      ∃ s', (∀ c st, setGlobals [("n", .boolean true), ("t", .table [("n", .number (.ofNat 7))]), ("n", .text "7")]
          c ⟨st, State.fresh⟩ = .done () ⟨st, s'⟩) ∧
        (∃ log, ∀ c st, getGlobal "n" .text c ⟨st, s'⟩ = .done (.text "7") ⟨st, { s' with log }⟩) ∧
        ∃ found, ∀ c st, getGlobal "n" .number c ⟨st, s'⟩ = .failed (.globalMismatch "n" found .number) ⟨st, s'⟩ := by
  have hseven : toNumber? (.ofString "7") = some (.ofNat 7) := by decide +kernel
  refine ⟨congrArg (Option.map Host.Value.number) hseven, ?_⟩
  have hdistinct : ∀ e ∈ [("n", Host.Value.boolean true), ("t", .table [("n", .number (.ofNat 7))]),
      ("n", .text "7")], e.2.Distinct := by
    simp [Host.Value.Distinct, Host.Value.DistinctEntries]
  obtain ⟨s', hrun, -, hreads⟩ := globals_keep_kind (s := State.fresh) .refl rfl hdistinct
  obtain ⟨-, -, hset, -⟩ := hreads s' .refl
  obtain ⟨⟨v', log, hsame, hread⟩, hmismatch⟩ :=
    hset [("n", .boolean true), ("t", .table [("n", .number (.ofNat 7))])] "n" (.text "7") [] rfl (by simp)
  refine ⟨s', hrun, ⟨log, ?_⟩, hmismatch .number (by decide)⟩
  cases v' with
  | text u =>
    cases hsame
    exact hread
  | _ => cases hsame

end ScriptHost.Exchange
