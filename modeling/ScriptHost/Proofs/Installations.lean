import Mathlib.Data.List.Perm.Basic
import ScriptHost.Proofs.Operations
import ScriptHost.Proofs.Pairings
import ScriptHost.Proofs.Wrappers

/-! What installing a library does to a state. The functions go into the table that the global holds, or into one
new table; everything else stays. To install again changes nothing, and libraries that do not get in each
other's way can be installed in either order. -/

namespace ScriptHost.Script.State

open Host (Library)

variable {s t : State} {f : HostFunction} {v : Value}

theorem IsWrapper.retain (h : s.IsWrapper f v) (hl : s.Linked) (hst : s.Retains t) (hn : t.Named) :
    t.IsWrapper f v := by
  obtain ⟨r, rfl, hr⟩ := h
  have hfunction : t.function? r = some (.host f) := hst.function r _ (hostFunction?_eq_some.1 (hl f r hr))
  exact ⟨r, rfl, hn f r (hostFunction?_eq_some.2 hfunction)⟩

theorem table_of_size_le {r : TableRef} (h : s.tables.size ≤ r) : s.table r = {} := by
  rw [table, Array.getD_eq_getD_getElem?, Array.getElem?_eq_none h]
  rfl

theorem rawGet_of_size_le {r : TableRef} (h : s.tables.size ≤ r) (k : Value) : s.rawGet r k = .nil := by
  rw [rawGet, table_of_size_le h]
  rfl

theorem metatable?_newTable (s : State) (r : TableRef) : (s.newTable {}).2.metatable? r = s.metatable? r := by
  rw [metatable?, table_newTable]
  split
  next h => rw [metatable?, table_of_size_le (Nat.le_of_eq h.symm)]
  next => rfl

/-- Storing what is there changes nothing. -/
theorem rawSet_of_rawGet {r : TableRef} {k : Value} (h : s.rawGet r k = v) (hv : v ≠ .nil) : s.rawSet r k v = s := by
  have hset : (s.table r).set k v = s.table r := by rw [Table.set, Table.put_of_find h hv]
  have htables : s.tables.modify r (·.set k v) = s.tables := by
    refine Array.ext (by simp) fun i hi hi' => ?_
    rw [Array.getElem_modify]
    split
    next hir =>
      subst hir
      rw [table, Array.getD_eq_getD_getElem?, Array.getElem?_eq_getElem hi'] at hset
      exact hset
    next => rfl
  rw [rawSet, modifyTable, htables]

end ScriptHost.Script.State

namespace ScriptHost.Host.Library

/-- No two functions have the same name. -/
def Distinct (l : Library) : Prop := (l.functions.map (·.1)).Nodup

theorem mem_names_insertFunction {k n : String} {f : HostFunction} {fs : List (String × HostFunction)} :
    n ∈ (insertFunction k f fs).map (·.1) ↔ n = k ∨ n ∈ fs.map (·.1) := by
  induction fs with
  | nil => simp [insertFunction]
  | cons p fs ih =>
    unfold insertFunction
    split
    next hk =>
      subst hk
      simp
    next =>
      simp only [List.map_cons, List.mem_cons, ih]
      tauto

theorem nodup_insertFunction {fs : List (String × HostFunction)} (h : (fs.map (·.1)).Nodup) (k : String)
    (f : HostFunction) : ((insertFunction k f fs).map (·.1)).Nodup := by
  induction fs with
  | nil => simp [insertFunction]
  | cons p fs ih =>
    obtain ⟨hp, hfs⟩ := List.nodup_cons.1 h
    unfold insertFunction
    split
    next => exact h
    next hk =>
      refine List.nodup_cons.2 ⟨fun hmem => ?_, ih hfs⟩
      rcases mem_names_insertFunction.1 hmem with hc | hc
      · exact hk hc.symm
      · exact hp hc

/-- Every library that can be built has distinct names. -/
theorem distinct_ofPairs (name : String) (pairs : List (String × HostFunction)) : (ofPairs name pairs).Distinct := by
  suffices h : ∀ l : Library, l.Distinct → (pairs.foldl (fun l p => l.add p.1 p.2) l).Distinct from
    h { name } List.nodup_nil
  induction pairs with
  | nil => exact fun _ hl => hl
  | cons p ps ih => exact fun l hl => ih _ (nodup_insertFunction hl p.1 p.2)

end ScriptHost.Host.Library

namespace ScriptHost.Live

open Script (State TableRef Value)
open Exchange
open Host (Library asKey_ofString ofString_injective)

/-! ### Registering as a function of the state -/

variable {s s' s'' : State} {space space' : String} {fs gs : List (String × HostFunction)}

/-- The table of a namespace: the one that the global holds, or else the next new one. -/
def home (s : State) (space : String) : TableRef := (held s space).getD s.tables.size

/-- The state with a function registered. -/
def withFunction (space name : String) (f : HostFunction) (s : State) : State :=
  match held s space with
  | some r => registeredIn r space name f s
  | none => registeredIn s.tables.size space name f (withNewTable space s)

/-- The state with functions registered one after another. -/
def withFunctions (space : String) (fs : List (String × HostFunction)) (s : State) : State :=
  fs.foldl (fun s p => withFunction space p.1 p.2 s) s

/-- Functions can be registered under the global: no handlers come between, the table is not that of the globals
itself, and no fault waits. -/
structure Receptive (s : State) (space : String) : Prop where
  plain : s.metatable? s.globals = none
  apart : ∀ r, held s space = some r → r ≠ s.globals ∧ s.metatable? r = none
  clear : ∀ r message, s.rawGet s.globals (.ofString space) = .failure r → s.failure r ≠ .fatal message

theorem Receptive.of_held {r : TableRef} (hm : s.metatable? s.globals = none) (hr : held s space = some r)
    (hne : r ≠ s.globals) (hplain : s.metatable? r = none) : Receptive s space where
  plain := hm
  apart r' hr' := by
    obtain rfl := Option.some.inj (hr.symm.trans hr')
    exact ⟨hne, hplain⟩
  clear r' _ hr' := by cases (held_eq_some.1 hr).symm.trans hr'

theorem Receptive.of_nil (hm : s.metatable? s.globals = none)
    (hv : s.rawGet s.globals (.ofString space) = .nil) : Receptive s space where
  plain := hm
  apart r hr := by cases hv.symm.trans (held_eq_some.1 hr)
  clear r _ hr := by cases hv.symm.trans hr

/-- Besides, the table that the global holds is there. -/
structure Ready (s : State) (space : String) : Prop extends Receptive s space where
  lt : ∀ r, held s space = some r → r < s.tables.size

theorem Receptive.ready (h : Receptive s space) (hc : s.Closed) : Ready s space := ⟨h, fun _ => held_lt hc⟩

section Tables

variable {r q : TableRef} {name : String} {f : HostFunction}

theorem retains_registeredIn (r : TableRef) (space name : String) (f : HostFunction) (s : State) :
    s.Retains (registeredIn r space name f s) :=
  ((State.Retains.wrap s f).trans (State.Extends.rawSet _ r _ _).toRetains).trans
    (State.Extends.emit _ _ _ _).toRetains

theorem table_registeredIn_of_ne (h : q ≠ r) : (registeredIn r space name f s).table q = s.table q := by
  refine (State.table_rawSet_of_ne h (s.wrap f).2 _ _).trans ?_
  rw [State.table, State.tables_wrap]
  rfl

theorem rawGet_registeredIn (hr : r < s.tables.size) (k : Value) : (registeredIn r space name f s).rawGet r k =
    if k.asKey = .ofString name then .function (s.wrap f).1 else s.rawGet r k := by
  have hr' : r < (s.wrap f).2.tables.size := by rwa [State.tables_wrap]
  refine (State.rawGet_rawSet_self hr' (.ofString name) k _).trans ?_
  rw [asKey_ofString, State.rawGet, State.table, State.tables_wrap]
  rfl

theorem metatable?_registeredIn (q : TableRef) : (registeredIn r space name f s).metatable? q = s.metatable? q := by
  refine (State.metatable?_rawSet (s.wrap f).2 r q _ _).trans ?_
  rw [State.metatable?, State.table, State.tables_wrap]
  rfl

theorem isWrapper_registeredIn (hr : r < s.tables.size) :
    (registeredIn r space name f s).IsWrapper f ((registeredIn r space name f s).rawGet r (.ofString name)) := by
  rw [rawGet_registeredIn hr, if_pos (asKey_ofString name)]
  exact s.isWrapper_wrap f

theorem table_withNewTable (hq : q ≠ s.globals) : (withNewTable space s).table q = s.table q := by
  rw [withNewTable, State.table_rawSet_of_ne hq, State.table_newTable]
  split
  next h => rw [State.table_of_size_le (Nat.le_of_eq h.symm)]
  next => rfl

theorem rawGet_globals_withNewTable (hg : s.globals < s.tables.size) (k : Value) :
    (withNewTable space s).rawGet s.globals k =
      if k.asKey = .ofString space then .table s.tables.size else s.rawGet s.globals k := by
  have hlt : s.globals < (s.newTable {}).2.tables.size := by
    rw [State.size_newTable]
    exact Nat.lt_succ_of_lt hg
  rw [withNewTable, State.rawGet_rawSet_self hlt, asKey_ofString, State.rawGet, State.table_newTable,
    if_neg (Nat.ne_of_lt hg)]
  rfl

theorem metatable?_withNewTable (q : TableRef) : (withNewTable space s).metatable? q = s.metatable? q := by
  rw [withNewTable, State.metatable?_rawSet, State.metatable?_newTable]

theorem retains_withNewTable (space : String) (s : State) : s.Retains (withNewTable space s) :=
  (State.Extends.newTable s {}).toRetains.trans (State.Extends.rawSet _ _ _ _).toRetains

end Tables

/-! ### What registering does -/

/-- The functions have been registered: each name stands for the wrapper of its function in the table of the
namespace, and nothing else has changed. -/
structure Furnishes (s : State) (space : String) (fs : List (String × HostFunction)) (s' : State) : Prop extends
    s.Retains s' where
  held : held s' space = some (home s space)
  lt : home s space < s'.tables.size
  wrapper : ∀ p ∈ fs, s'.IsWrapper p.2 (s'.rawGet (home s space) (.ofString p.1))
  slot : ∀ k : Value, (∀ p ∈ fs, k.asKey ≠ .ofString p.1) → s'.rawGet (home s space) k = s.rawGet (home s space) k
  global : ∀ k : Value, k.asKey ≠ .ofString space → s'.rawGet s.globals k = s.rawGet s.globals k
  table : ∀ q, q ≠ home s space → (Live.held s space = none → q ≠ s.globals) → s'.table q = s.table q
  metatable : ∀ q, s'.metatable? q = s.metatable? q

theorem home_of_held {r : TableRef} (h : held s space = some r) : home s space = r := by rw [home, h]; rfl

theorem home_of_not_held (h : held s space = none) : home s space = s.tables.size := by rw [home, h]; rfl

theorem Ready.home_ne (h : Ready s space) (hg : s.globals < s.tables.size) : home s space ≠ s.globals := by
  cases hheld : held s space with
  | some r => exact home_of_held hheld ▸ (h.apart r hheld).1
  | none => exact home_of_not_held hheld ▸ Nat.ne_of_gt hg

theorem Ready.metatable?_home (h : Ready s space) : s.metatable? (home s space) = none := by
  cases hheld : held s space with
  | some r => exact home_of_held hheld ▸ (h.apart r hheld).2
  | none => rw [home_of_not_held hheld, State.metatable?, State.table_of_size_le (Nat.le_refl _)]

namespace Furnishes

/-- A new table in the place of something else. -/
theorem withNewTable (hg : s.globals < s.tables.size) (hheld : Live.held s space = none) :
    Furnishes s space [] (withNewTable space s) where
  toRetains := retains_withNewTable space s
  held := by
    rw [home_of_not_held hheld, held_eq_some, (retains_withNewTable space s).globals]
    exact rawGet_withNewTable hg space
  lt := by
    rw [home_of_not_held hheld, Live.withNewTable, State.size_rawSet, State.size_newTable]
    exact Nat.lt_succ_self _
  wrapper := nofun
  slot k _ := by
    rw [home_of_not_held hheld, State.rawGet, table_withNewTable (Nat.ne_of_gt hg)]
    rfl
  global k hk := by rw [rawGet_globals_withNewTable hg, if_neg hk]
  table q _ hq := table_withNewTable (hq hheld)
  metatable := metatable?_withNewTable

theorem registeredIn {r : TableRef} (hr : Live.held s space = some r) (hlt : r < s.tables.size) (hne : r ≠ s.globals)
    (name : String) (f : HostFunction) : Furnishes s space [(name, f)] (registeredIn r space name f s) := by
  have hglobals (k : Value) : (Live.registeredIn r space name f s).rawGet s.globals k = s.rawGet s.globals k := by
    rw [State.rawGet, table_registeredIn_of_ne hne.symm]
    rfl
  have hretains := retains_registeredIn r space name f s
  constructor
  case toRetains => exact hretains
  case held =>
    rw [home_of_held hr, held_eq_some, hretains.globals, hglobals]
    exact held_eq_some.1 hr
  case lt =>
    rw [home_of_held hr]
    exact Nat.lt_of_lt_of_le hlt hretains.size
  case wrapper =>
    intro p hp
    rw [home_of_held hr, List.mem_singleton.1 hp]
    exact isWrapper_registeredIn hlt
  case slot =>
    intro k hk
    rw [home_of_held hr, rawGet_registeredIn hlt, if_neg (hk _ (List.mem_singleton_self _))]
  case global => exact fun k _ => hglobals k
  case table => exact fun q hq _ => table_registeredIn_of_ne (home_of_held hr ▸ hq)
  case metatable => exact metatable?_registeredIn

theorem home_eq (h : Furnishes s space fs s') : home s' space = home s space := home_of_held h.held

theorem trans (h : Furnishes s space fs s') (h' : Furnishes s' space gs s'') (hl : s.Linked) (hn : s.Named)
    (hne : ∀ p ∈ fs, ∀ q ∈ gs, p.1 ≠ q.1) : Furnishes s space (fs ++ gs) s'' := by
  have hhome := h.home_eq
  constructor
  case toRetains => exact h.toRetains.trans h'.toRetains
  case held => rw [h'.held, hhome]
  case lt => exact hhome ▸ h'.lt
  case wrapper =>
    intro p hp
    rcases List.mem_append.1 hp with hp | hp
    · have hkeep : s''.rawGet (home s space) (.ofString p.1) = s'.rawGet (home s space) (.ofString p.1) := by
        rw [← hhome]
        exact h'.slot _ fun q hq hc => hne p hp q hq (ofString_injective hc)
      rw [hkeep]
      exact (h.wrapper p hp).retain (h.linked hl) h'.toRetains (h'.named (h.named hn))
    · rw [← hhome]
      exact h'.wrapper p hp
  case slot =>
    intro k hk
    have hfirst := h.slot k fun p hp => hk p (List.mem_append_left gs hp)
    have hsecond := h'.slot k fun p hp => hk p (List.mem_append_right fs hp)
    rw [hhome] at hsecond
    exact hsecond.trans hfirst
  case global =>
    intro k hk
    have hsecond := h'.global k hk
    rw [h.globals] at hsecond
    exact hsecond.trans (h.global k hk)
  case table =>
    intro q hq hq'
    have hheld : Live.held s' space ≠ none := by simp [h.held]
    exact (h'.table q (hhome ▸ hq) fun hc => absurd hc hheld).trans (h.table q hq hq')
  case metatable => exact fun q => (h'.metatable q).trans (h.metatable q)

/-- What is under other globals than that of the namespace is there still. -/
theorem held_of_ne (h : Furnishes s space fs s') (hne : space' ≠ space) : Live.held s' space' = Live.held s space' := by
  have hget := h.global (.ofString space') fun hc => hne (ofString_injective hc)
  rw [Live.held, Live.held, h.globals, hget]

theorem globals_lt (h : Furnishes s space fs s') (hg : s.globals < s.tables.size) : s'.globals < s'.tables.size := by
  rw [h.globals]
  exact Nat.lt_of_lt_of_le hg h.size

/-- Registering does not get in the way of registering. -/
theorem ready (h : Furnishes s space fs s') (hg : s.globals < s.tables.size) (hs : Ready s space)
    (hs' : Ready s space') : Ready s' space' where
  plain := by rw [h.globals, h.metatable, hs.plain]
  apart r hr := by
    rw [h.globals, h.metatable]
    by_cases hspace : space' = space
    · subst hspace
      obtain rfl := Option.some.inj (h.held.symm.trans hr)
      exact ⟨hs.home_ne hg, hs.metatable?_home⟩
    · rw [h.held_of_ne hspace] at hr
      exact hs'.apart r hr
  lt r hr := by
    by_cases hspace : space' = space
    · subst hspace
      obtain rfl := Option.some.inj (h.held.symm.trans hr)
      exact h.lt
    · rw [h.held_of_ne hspace] at hr
      exact Nat.lt_of_lt_of_le (hs'.lt r hr) h.size
  clear r message hr := by
    rw [State.failure, h.failures]
    by_cases hspace : space' = space
    · subst hspace
      rw [held_eq_some.1 h.held] at hr
      cases hr
    · rw [h.globals, h.global (.ofString space') fun hc => hspace (ofString_injective hc)] at hr
      exact hs'.clear r message hr

end Furnishes

section Registering

variable (h : Ready s space) (hg : s.globals < s.tables.size)
include h hg

theorem furnishes_withFunction (hl : s.Linked) (hn : s.Named) (name : String) (f : HostFunction) :
    Furnishes s space [(name, f)] (withFunction space name f s) := by
  unfold withFunction
  cases hheld : held s space with
  | some r => exact .registeredIn hheld (h.lt r hheld) (h.apart r hheld).1 name f
  | none =>
    have hnew := Furnishes.withNewTable hg hheld
    have hhome := home_of_not_held hheld
    have hne : s.tables.size ≠ (withNewTable space s).globals := by
      rw [hnew.globals]
      exact Nat.ne_of_gt hg
    have hreg := Furnishes.registeredIn (hhome ▸ hnew.held) (hhome ▸ hnew.lt) hne name f
    exact hnew.trans hreg hl hn nofun

theorem furnishes_withFunctions (hl : s.Linked) (hn : s.Named) (hfs : fs ≠ []) (hnodup : (fs.map (·.1)).Nodup) :
    Furnishes s space fs (withFunctions space fs s) := by
  induction fs generalizing s with
  | nil => exact absurd rfl hfs
  | cons p fs ih =>
    obtain ⟨hp, hnodup⟩ := List.nodup_cons.1 hnodup
    have hfirst := furnishes_withFunction h hg hl hn p.1 p.2
    change Furnishes s space (p :: fs) (withFunctions space fs (withFunction space p.1 p.2 s))
    -- from the first function on, the global holds the table
    cases fs with
    | nil => exact hfirst
    | cons q fs =>
      have hrest := ih (hfirst.ready hg h h) (hfirst.globals_lt hg) (hfirst.linked hl) (hfirst.named hn)
        (List.cons_ne_nil q fs) hnodup
      refine hfirst.trans hrest hl hn fun p' hp' q' hq' hc => hp ?_
      rw [List.mem_singleton.1 hp'] at hc
      exact List.mem_map.2 ⟨q', hq', hc.symm⟩

/-- Registering comes to its end in this state. -/
theorem registerFunction_done (name : String) (f : HostFunction) (c : Channel) (st : List Value) :
    registerFunction space name f c ⟨st, s⟩ = .done () ⟨st, withFunction space name f s⟩ := by
  unfold withFunction
  cases hheld : held s space with
  | some r =>
    have hplain := (h.apart r hheld).2
    exact registerFunction_of_table c (held_eq_some.1 hheld) (State.handler_of_metatable? hplain _) name f st
  | none =>
    obtain ⟨w, hpush, hw⟩ := pushGlobal_of_clear c (State.handler_of_metatable? h.plain _) h.clear st
    have hkind : Host.Kind.of? w ≠ some .table := by
      intro hc
      cases w with
      | table r => cases hheld.symm.trans (held_eq_some.2 ((hw r).1 rfl))
      | _ => cases hc
    have hplain : (s.newTable {}).2.metatable? s.globals = none := (State.metatable?_newTable ..).trans h.plain
    exact registerFunction_of_no_table c hpush hkind hg (State.handler_of_metatable? hplain _) name f

theorem registerAll_done (hl : s.Linked) (hn : s.Named) (fs : List (String × HostFunction)) (c : Channel)
    (st : List Value) : registerAll space fs c ⟨st, s⟩ = .done () ⟨st, withFunctions space fs s⟩ := by
  induction fs generalizing s with
  | nil => rfl
  | cons p fs ih =>
    have hfirst := furnishes_withFunction h hg hl hn p.1 p.2
    rw [registerAll, bind_done (registerFunction_done h hg p.1 p.2 c st)]
    exact ih (hfirst.ready hg h h) (hfirst.globals_lt hg) (hfirst.linked hl) (hfirst.named hn)

end Registering

/-! ### Registering again -/

theorem withFunction_of_isWrapper {r : TableRef} {name : String} {f : HostFunction} (hheld : held s space = some r)
    (hw : s.IsWrapper f (s.rawGet r (.ofString name))) :
    ∃ log, withFunction space name f s = { s with log } := by
  obtain ⟨w, hv, hwrap⟩ := hw.wrap_eq
  refine ⟨(s.emit .call .debug ("Registered host function " ++ space ++ "." ++ name)).log, ?_⟩
  rw [withFunction, hheld]
  change registeredIn r space name f s = _
  rw [registeredIn, hwrap, State.rawSet_of_rawGet hv (by simp)]
  rfl

/-- Registering what is registered changes the log alone. -/
theorem withFunctions_of_isWrapper {r : TableRef} (hheld : held s space = some r)
    (hw : ∀ p ∈ fs, s.IsWrapper p.2 (s.rawGet r (.ofString p.1))) :
    ∃ log, withFunctions space fs s = { s with log } := by
  induction fs generalizing s with
  | nil => exact ⟨s.log, rfl⟩
  | cons p fs ih =>
    obtain ⟨hp, hfs⟩ := List.forall_mem_cons.1 hw
    obtain ⟨log, hfirst⟩ := withFunction_of_isWrapper hheld hp
    obtain ⟨log', hrest⟩ := ih (s := { s with log }) hheld hfs
    refine ⟨log', ?_⟩
    change withFunctions space fs (withFunction space p.1 p.2 s) = _
    rw [hfirst, hrest]

/-! ### Registering in either order -/

namespace Ledger

variable {held : String → Option TableRef} {l : Ledger} {n n' : String}

theorem set_comm (h : n ≠ n') (l : Ledger) (m m' : Made) : (l.set n m).set n' m' = (l.set n' m').set n m := by
  rw [set, set, set, set, Function.update_comm h.symm]

theorem write_comm {r r' : TableRef} {k k' : String} (h : r ≠ r' ∨ k ≠ k') (l : Ledger) (f f' : HostFunction) :
    (l.write r k f).write r' k' f' = (l.write r' k' f').write r k f := by
  by_cases hr : r = r'
  · subst hr
    have hk : k ≠ k' := h.resolve_left (absurd rfl)
    simp only [write, Function.update_self, Function.update_idem]
    rw [Function.update_comm hk.symm]
  · simp only [write, Function.update_of_ne hr, Function.update_of_ne (Ne.symm hr)]
    rw [Function.update_comm (Ne.symm hr)]

theorem register_comm {k k' : String} (h : k ≠ k') (m : Made) (f f' : HostFunction) :
    (m.register k f).register k' f' = (m.register k' f').register k f := by
  rw [Made.register, Made.register, Made.register, Made.register, Function.update_comm h.symm]

theorem step_of_made {m : Made} (h : l.made n = some m) (k : String) (f : HostFunction) :
    l.step held (.function n k f) = l.set n (m.opened.register k f) := by
  simp only [step, target, h]

theorem step_of_held {r : TableRef} (h : l.made n = none) (hr : held n = some r) (k : String) (f : HostFunction) :
    l.step held (.function n k f) = l.write r k f := by
  simp only [step, target, h, hr]

theorem step_of_not_held (h : l.made n = none) (hr : held n = none) (k : String) (f : HostFunction) :
    l.step held (.function n k f) = l.set n ((Made.new (.table [])).register k f) := by
  simp only [step, target, h, hr]

/-- Registrations of different names under one global. -/
theorem step_comm_self {k k' : String} (h : k ≠ k') (l : Ledger) (f f' : HostFunction) :
    (l.step held (.function n k f)).step held (.function n k' f') =
      (l.step held (.function n k' f')).step held (.function n k f) := by
  cases htarget : l.target held n with
  | inl m =>
    have hopened (k : String) (f : HostFunction) :
        (l.set n (m.register k f)).target held n = .inl (m.register k f) := by
      rw [target_set_self, Made.opened_register (opened_of_target htarget)]
    rw [step_of_inl htarget, step_of_inl htarget, step_of_inl (hopened k f), step_of_inl (hopened k' f'), set_set,
      set_set, register_comm h]
  | inr r =>
    have hsame (k : String) (f : HostFunction) : (l.write r k f).target held n = .inr r := htarget
    rw [step_of_inr htarget, step_of_inr htarget, step_of_inr (hsame k f), step_of_inr (hsame k' f'),
      write_comm (.inr h)]

/-- Registrations under different globals, which may hold the same table. -/
theorem step_comm_of_ne {k k' : String} (hn : n ≠ n') (h : k ≠ k' ∨ ∀ r, held n = some r → held n' ≠ some r)
    (l : Ledger) (f f' : HostFunction) : (l.step held (.function n k f)).step held (.function n' k' f') =
      (l.step held (.function n' k' f')).step held (.function n k f) := by
  have hfirst : (l.step held (.function n k f)).target held n' = l.target held n' :=
    target_step_of_ne (c := .function n k f) hn l
  have hsecond : (l.step held (.function n' k' f')).target held n = l.target held n :=
    target_step_of_ne (c := .function n' k' f') hn.symm l
  -- neither moves the target of the other, so what is left are the writes to the two targets
  cases htarget : l.target held n with
  | inl m =>
    rw [htarget] at hsecond
    rw [step_of_inl hsecond]
    rw [step_of_inl htarget] at hfirst ⊢
    cases htarget' : l.target held n' with
    | inl m' =>
      rw [htarget'] at hfirst
      rw [step_of_inl hfirst, step_of_inl htarget', set_comm hn]
    | inr r' =>
      rw [htarget'] at hfirst
      rw [step_of_inr hfirst, step_of_inr htarget']
      rfl
  | inr r =>
    rw [htarget] at hsecond
    rw [step_of_inr hsecond]
    rw [step_of_inr htarget] at hfirst ⊢
    cases htarget' : l.target held n' with
    | inl m' =>
      rw [htarget'] at hfirst
      rw [step_of_inl hfirst, step_of_inl htarget']
      rfl
    | inr r' =>
      rw [htarget'] at hfirst
      have hne : r ≠ r' ∨ k ≠ k' := by
        refine h.symm.imp_left fun hapart hr => ?_
        exact hapart r (held_of_target htarget) (hr ▸ held_of_target htarget')
      rw [step_of_inr hfirst, step_of_inr htarget', write_comm hne]

/-- Registrations of different names, or in different tables, can be exchanged. -/
theorem step_comm {k k' : String} (h : k ≠ k' ∨ (n ≠ n' ∧ ∀ r, held n = some r → held n' ≠ some r)) (l : Ledger)
    (f f' : HostFunction) : (l.step held (.function n k f)).step held (.function n' k' f') =
      (l.step held (.function n' k' f')).step held (.function n k f) := by
  by_cases hn : n = n'
  · subst hn
    exact step_comm_self (h.resolve_right fun hc => hc.1 rfl) l f f'
  · exact step_comm_of_ne hn (h.imp_right And.right) l f f'

end Ledger

/-- The changes that installing a library makes. -/
def additions (l : Library) : Changes := registrations l.name l.functions

/-- Libraries that do not get in each other's way: their namespaces are different and are not the same table, or they
have no name in common. -/
def Separate (s : State) (a b : Library) : Prop :=
  (a.name ≠ b.name ∧ ∀ r, held s a.name = some r → held s b.name ≠ some r) ∨
    ∀ p ∈ a.functions, ∀ q ∈ b.functions, p.1 ≠ q.1

theorem Separate.symm {a b : Library} (h : Separate s a b) : Separate s b a :=
  h.imp (fun hab => ⟨hab.1.symm, fun r hr hr' => hab.2 r hr' hr⟩) fun hab p hp q hq hpq => hab q hq p hp hpq.symm

/-- The order within a library does not matter. -/
theorem step_comm_of_mem {a : Library} (ha : a.Distinct) {c c' : Change} (hc : c ∈ additions a) (hc' : c' ∈ additions a)
    (l : Ledger) : (l.step (held s) c).step (held s) c' = (l.step (held s) c').step (held s) c := by
  obtain ⟨p, hp, rfl⟩ := List.mem_map.1 hc
  obtain ⟨q, hq, rfl⟩ := List.mem_map.1 hc'
  by_cases hpq : p.1 = q.1
  · rw [List.inj_on_of_nodup_map ha hp hq hpq]
  · exact Ledger.step_comm (.inl hpq) l p.2 q.2

theorem Separate.step_comm {a b : Library} (h : Separate s a b) {c c' : Change} (hc : c ∈ additions a)
    (hc' : c' ∈ additions b) (l : Ledger) :
    (l.step (held s) c).step (held s) c' = (l.step (held s) c').step (held s) c := by
  obtain ⟨p, hp, rfl⟩ := List.mem_map.1 hc
  obtain ⟨q, hq, rfl⟩ := List.mem_map.1 hc'
  exact Ledger.step_comm (h.elim .inr fun hne => .inl (hne p hp q hq)) l p.2 q.2

/-- Their ledger is the same in both orders. -/
theorem Separate.ledger_eq {a b : Library} (h : Separate s a b) (ha : a.Distinct) (hb : b.Distinct) (l : Ledger) :
    (additions b).foldl (Ledger.step (held s)) ((additions a).foldl (Ledger.step (held s)) l) =
      (additions a).foldl (Ledger.step (held s)) ((additions b).foldl (Ledger.step (held s)) l) := by
  rw [← List.foldl_append, ← List.foldl_append]
  refine List.perm_append_comm.foldl_eq' (fun c hc c' hc' l => ?_) l
  rcases List.mem_append.1 hc with hc | hc <;> rcases List.mem_append.1 hc' with hc' | hc'
  · exact step_comm_of_mem ha hc hc' l
  · exact h.step_comm hc hc' l
  · exact h.symm.step_comm hc hc' l
  · exact step_comm_of_mem hb hc hc' l

/-! ### Ledgers of namespaces -/

/-- Every global of the ledger is a namespace that began empty. -/
def Ledger.Bare (l : Ledger) : Prop := ∀ n m, l.made n = some m → m.value = .table []

theorem Ledger.Bare.step {l : Ledger} (h : l.Bare) (hd : String → Option TableRef) (n k : String) (f : HostFunction) :
    (l.step hd (.function n k f)).Bare := by
  intro i m hm
  cases hmade : l.made n with
  | some m₀ =>
    rw [Ledger.step_of_made hmade, Made.opened_of_table (h n m₀ hmade)] at hm
    rcases Ledger.of_made_set hm with ⟨-, rfl⟩ | ⟨-, hm⟩
    · exact h n m₀ hmade
    · exact h i m hm
  | none =>
    cases hr : hd n with
    | some r =>
      rw [Ledger.step_of_held hmade hr] at hm
      exact h i m hm
    | none =>
      rw [Ledger.step_of_not_held hmade hr] at hm
      rcases Ledger.of_made_set hm with ⟨-, rfl⟩ | ⟨-, hm⟩
      · rfl
      · exact h i m hm

theorem Ledger.Bare.registrations {l : Ledger} (h : l.Bare) (hd : String → Option TableRef) (space : String)
    (fs : List (String × HostFunction)) : ((registrations space fs).foldl (Ledger.step hd) l).Bare := by
  induction fs generalizing l with
  | nil => exact h
  | cons p fs ih => exact ih (h.step hd space p.1 p.2)

theorem Describes.withFunction {s₀ : State} {l : Ledger} {place : String → Nat} (h : Describes s₀ l place s)
    (hbare : l.Bare) (hs₀ : Ready s₀ space) (hg : s₀.globals < s₀.tables.size) (hl : s₀.Linked) (k : String)
    (f : HostFunction) : ∃ place', Describes s₀ (l.step (Live.held s₀) (.function space k f)) place'
      (withFunction space k f s) := by
  unfold Live.withFunction
  -- the namespace is one that the ledger has, or a table that was there, or a new table
  cases hmade : l.made space with
  | some m =>
    have hvalue : m.value = .table [] := hbare space m hmade
    have hheld : Live.held s space = some (place space) := by
      have hholds := (h.made space m hmade).holds
      rw [Holds, hvalue] at hholds
      rw [held_eq_some, h.globals]
      exact hholds.1
    rw [Ledger.step_of_made hmade, Made.opened_of_table hvalue, hheld]
    exact ⟨place, h.registeredIn hg hl hmade hvalue space k f⟩
  | none =>
    have hsame : Live.held s space = Live.held s₀ space := by
      have hget : s.rawGet s₀.globals (.ofString space) = s₀.rawGet s₀.globals (.ofString space) :=
        h.global _ fun n hn => ofString_injective hn ▸ hmade
      rw [Live.held, Live.held, h.globals, hget]
    rw [hsame]
    cases hheld : Live.held s₀ space with
    | some r =>
      rw [Ledger.step_of_held hmade hheld]
      exact ⟨place, h.writtenIn hg hl (hs₀.lt r hheld) (hs₀.apart r hheld).1 space k f⟩
    | none =>
      have hreg := (h.withNewTable hg space).registeredIn hg hl (Ledger.made_set_self ..) rfl space k f
      rw [Ledger.set_set, Function.update_self] at hreg
      rw [Ledger.step_of_not_held hmade hheld]
      exact ⟨_, hreg⟩

theorem Describes.withFunctions {s₀ : State} {l : Ledger} {place : String → Nat} (h : Describes s₀ l place s)
    (hbare : l.Bare) (hs₀ : Ready s₀ space) (hg : s₀.globals < s₀.tables.size) (hl : s₀.Linked)
    (fs : List (String × HostFunction)) :
    ∃ place', Describes s₀ ((registrations space fs).foldl (Ledger.step (Live.held s₀)) l) place'
      (withFunctions space fs s) := by
  induction fs generalizing s l place with
  | nil => exact ⟨place, h⟩
  | cons p fs ih =>
    obtain ⟨place₁, h₁⟩ := h.withFunction hbare hs₀ hg hl p.1 p.2
    exact ih h₁ (hbare.step _ space p.1 p.2)

/-! ### Installing -/

/-- The state with a library installed. -/
def withLibrary (l : Library) : State → State := withFunctions l.name l.functions

section Installing

variable {a b l : Library} (hc : s.Closed) (hl : s.Linked) (hn : s.Named)
include hc hl hn

theorem Receptive.furnishes (h : Receptive s l.name) (hd : l.Distinct) (hne : l.functions ≠ []) :
    Furnishes s l.name l.functions (withLibrary l s) :=
  furnishes_withFunctions (h.ready hc) hc.globals hl hn hne hd

/-- Another library can still be installed. -/
theorem Receptive.ready_withLibrary (h : Receptive s l.name) (hd : l.Distinct) (hs : Receptive s space) :
    Ready (withLibrary l s) space := by
  by_cases hne : l.functions = []
  · rw [withLibrary, hne]
    exact hs.ready hc
  · exact (h.furnishes hc hl hn hd hne).ready hc.globals (h.ready hc) (hs.ready hc)

omit hn in
theorem describes_withLibraries (ha : Receptive s a.name) (hb : Receptive s b.name) :
    ∃ place, Describes s ((additions b).foldl (Ledger.step (held s))
      ((additions a).foldl (Ledger.step (held s)) .empty)) place (withLibrary b (withLibrary a s)) := by
  have hbare : Ledger.empty.Bare := nofun
  obtain ⟨place, hfirst⟩ :=
    (Describes.refl s fun _ => 0).withFunctions hbare (ha.ready hc) hc.globals hl a.functions
  exact hfirst.withFunctions (hbare.registrations _ _ _) (hb.ready hc) hc.globals hl b.functions

/-- Separate libraries make the same state in either order, but for the numbers of new tables and wrappers. -/
theorem Separate.alike (h : Separate s a b) (ha : Receptive s a.name) (hda : a.Distinct) (hb : Receptive s b.name)
    (hdb : b.Distinct) : ∃ p, Alike p (fun _ _ => False) (withLibrary b (withLibrary a s))
      (withLibrary a (withLibrary b s)) ∧ ∀ v, v.Valid s → p.Values v v := by
  obtain ⟨place, hab⟩ := describes_withLibraries hc hl ha hb
  obtain ⟨place', hba⟩ := describes_withLibraries hc hl hb ha
  rw [← h.ledger_eq hda hdb] at hba
  have halike := alike_of_describes hc hn hab hba (.refl (fun _ _ => False) _)
  exact ⟨_, halike.imp fun _ _ ⟨_, _, hlost⟩ => hlost, fun _ hv => values_of_valid hv⟩

theorem install_done (h : Receptive s l.name) (c : Channel) (st : List Value) :
    install l c ⟨st, s⟩ = .done () ⟨st, withLibrary l s⟩ :=
  registerAll_done (h.ready hc) hc.globals hl hn l.functions c st

theorem install_install_done (ha : Receptive s a.name) (hd : a.Distinct) (hb : Receptive s b.name) (c : Channel)
    (st : List Value) : install b c ⟨st, withLibrary a s⟩ = .done () ⟨st, withLibrary b (withLibrary a s)⟩ := by
  have hready := ha.ready_withLibrary hc hl hn hd hb
  by_cases hne : a.functions = []
  · rw [withLibrary, withLibrary, hne]
    exact install_done hc hl hn hb c st
  · have hfirst := ha.furnishes hc hl hn hd hne
    exact registerAll_done hready (hfirst.globals_lt hc.globals) (hfirst.linked hl) (hfirst.named hn) b.functions c st

/-- A library that is installed is there to stay: installing it again changes the log alone. -/
theorem install_again (h : Receptive s l.name) (hd : l.Distinct) (hne : l.functions ≠ []) (c : Channel)
    (st : List Value) : ∃ log, install l c ⟨st, withLibrary l s⟩ = .done () ⟨st, { withLibrary l s with log }⟩ := by
  have hfurnishes := h.furnishes hc hl hn hd hne
  obtain ⟨log, hsame⟩ := withFunctions_of_isWrapper hfurnishes.held hfurnishes.wrapper
  refine ⟨log, ?_⟩
  rw [install_install_done hc hl hn h hd h c st]
  exact congrArg _ (congrArg _ hsame)

end Installing

/-- Reading the global resumes a fault that waits there. -/
theorem install_stops {l : Library} {r : Script.FailureRef} {m : String} (hplain : s.metatable? s.globals = none)
    (hl : l.functions ≠ []) (hv : s.rawGet s.globals (.ofString l.name) = .failure r)
    (hf : s.failure r = .fatal m) (c : Channel) (st : List Value) :
    install l c ⟨st, s⟩ = .stopped (.carried m) (s.spend r) := by
  have hread : readFrom s.globals (.ofString l.name) c ⟨st, s⟩ = .stopped (.carried m) (s.spend r) := by
    rw [readFrom_run c fun _ => State.handler_of_metatable? hplain _, hv]
    simp only [receive, state_bind, hf]
    rfl
  obtain ⟨p, fs, hfs⟩ := List.exists_cons_of_ne_nil hl
  rw [install, hfs, registerAll, bind_run, registerFunction, balanced, bind_run, pushGlobal, state_bind, bind_run,
    hread]

/-- Installing a library succeeds. An empty one changes nothing. Any other makes its functions the
wrappers in the table of its namespace, which is the one that the global holds, or else a new one with
nothing else in it; no other global, no other table and no other part of the state changes, and to install it again
changes the log alone. Two separate libraries can be installed in either order: the states are alike,
and what was there before stands for itself in both. Only a fault that waits in the global of a namespace stops
an installation. -/
theorem install_laws (hs : s.Reachable) (hc : s.Closed) {l : Library} (hd : l.Distinct) (hr : Receptive s l.name)
    (c : Channel) (st : List Value) :
    (l.functions = [] → install l c ⟨st, s⟩ = .done () ⟨st, s⟩) ∧
    (l.functions ≠ [] → ∃ s', install l c ⟨st, s⟩ = .done () ⟨st, s'⟩ ∧ Furnishes s l.name l.functions s' ∧
      (held s l.name = none → ∀ k : Value, (∀ p ∈ l.functions, k.asKey ≠ .ofString p.1) →
        s'.rawGet (home s l.name) k = .nil) ∧
      ∃ log, install l c ⟨st, s'⟩ = .done () ⟨st, { s' with log }⟩) ∧
    (∀ l' : Library, l'.Distinct → Receptive s l'.name → Separate s l l' → ∃ s₁ s₂ t₁ t₂ p,
      install l c ⟨st, s⟩ = .done () ⟨st, s₁⟩ ∧ install l' c ⟨st, s₁⟩ = .done () ⟨st, t₁⟩ ∧
      install l' c ⟨st, s⟩ = .done () ⟨st, s₂⟩ ∧ install l c ⟨st, s₂⟩ = .done () ⟨st, t₂⟩ ∧
      Alike p (fun _ _ => False) t₁ t₂ ∧ ∀ v, v.Valid s → p.Values v v) ∧
    ∀ (l' : Library) r message, l'.functions ≠ [] → s.rawGet s.globals (.ofString l'.name) = .failure r →
      s.failure r = .fatal message → install l' c ⟨st, s⟩ = .stopped (.carried message) (s.spend r) := by
  have hl := hs.linked
  have hn := hs.named
  have hdone := install_done hc hl hn hr c st
  refine ⟨fun he => ?empty, fun hne => ?nonempty, fun l' hd' hr' hsep => ?separate, fun l' r message => ?waiting⟩
  case empty => rw [install, he, registerAll]; rfl
  case nonempty =>
    have hfurnishes := hr.furnishes hc hl hn hd hne
    refine ⟨_, hdone, hfurnishes, fun hheld k hk => ?_, install_again hc hl hn hr hd hne c st⟩
    rw [hfurnishes.slot k hk, home_of_not_held hheld]
    exact State.rawGet_of_size_le (Nat.le_refl _) k
  case separate =>
    obtain ⟨p, halike, hvalues⟩ := hsep.alike hc hl hn hr hd hr' hd'
    exact ⟨_, _, _, _, p, hdone, install_install_done hc hl hn hr hd hr' c st, install_done hc hl hn hr' c st,
      install_install_done hc hl hn hr' hd' hr c st, halike, hvalues⟩
  case waiting => exact fun hne hv hf => install_stops hr.plain hne hv hf c st

theorem keepingState_reachable : keepingState.Reachable :=
  (State.Write.newFailure State.fresh _).later.trans (State.Write.modifyTable _ 0 _).later

theorem keepingState_closed : keepingState.Closed := by
  have hfailure : (State.fresh.newFailure (.fatal keptFault.message)).2.Closed :=
    State.fresh_secluded.closed.grow (.refl _) rfl (fun _ => rfl) fun _ => rfl
  exact hfailure.rawSet (k := .ofString "E") (v := .failure 0) trivial trivial 0

/-- Two libraries, one of which goes into a table that is there, where a fault waits in the global `E`. -/
theorem install_laws_coroutine :
    let l : Library := .ofPairs "coroutine" [("f", ⟨"ping"⟩), ("g", ⟨"double"⟩)]
    let l' : Library := .ofPairs "L" [("f", ⟨"double"⟩)]
    let c := outermost Samples.catalog
    (∃ s', install l c ⟨[], keepingState⟩ = .done () ⟨[], s'⟩ ∧ Furnishes keepingState "coroutine" l.functions s') ∧
    (∃ s₁ s₂ t₁ t₂ p,
      install l c ⟨[], keepingState⟩ = .done () ⟨[], s₁⟩ ∧ install l' c ⟨[], s₁⟩ = .done () ⟨[], t₁⟩ ∧
      install l' c ⟨[], keepingState⟩ = .done () ⟨[], s₂⟩ ∧ install l c ⟨[], s₂⟩ = .done () ⟨[], t₂⟩ ∧
      Alike p (fun _ _ => False) t₁ t₂) ∧
    install ⟨"E", l.functions⟩ c ⟨[], keepingState⟩ = .stopped (.carried keptFault.message) (keepingState.spend 0) := by
  intro l l' c
  have hr : Receptive keepingState "coroutine" := .of_held (r := 1) (by decide) (by decide) (by decide) (by decide)
  have hr' : Receptive keepingState "L" := .of_nil (by decide) (by decide)
  have hnone : held keepingState "L" = none := by decide
  have hsep : Separate keepingState l l' := .inl ⟨by decide, fun r _ hr => nomatch hnone.symm.trans hr⟩
  obtain ⟨-, hnonempty, hseparate, hwaiting⟩ :=
    install_laws keepingState_reachable keepingState_closed (l := l) (Library.distinct_ofPairs ..) hr c []
  obtain ⟨s', hdone, hfurnishes, -, -⟩ := hnonempty (by decide)
  obtain ⟨s₁, s₂, t₁, t₂, p, h₁, h₂, h₃, h₄, halike, -⟩ := hseparate l' (Library.distinct_ofPairs ..) hr' hsep
  exact ⟨⟨s', hdone, hfurnishes⟩, ⟨s₁, s₂, t₁, t₂, p, h₁, h₂, h₃, h₄, halike⟩,
    hwaiting ⟨"E", l.functions⟩ 0 keptFault.message (by decide) (by decide) (by decide)⟩

/-- Installing stops where a script keeps the error object of a fault in the global, although the table of
globals has no handlers and the global holds no table. -/
theorem install_stops_on_kept_fault :
    keepingState.Reachable ∧ keepingState.Closed ∧ keepingState.metatable? keepingState.globals = none ∧
      held keepingState "E" = none ∧
      ∀ c, ∃ t, install ⟨"E", [("f", ⟨"ping"⟩)]⟩ c ⟨[], keepingState⟩ = .stopped (.carried keptFault.message) t := by
  have hstops (c : Channel) := install_stops (s := keepingState) (l := ⟨"E", [("f", ⟨"ping"⟩)]⟩) (r := 0)
    (m := keptFault.message) (by decide) (by simp) (by decide) rfl c []
  exact ⟨keepingState_reachable, keepingState_closed, by decide, by decide, fun c => ⟨_, hstops c⟩⟩

end ScriptHost.Live
