import ScriptHost.Proofs.Replays
import ScriptHost.Proofs.RoundTrip
import ScriptHost.Samples

/-! Where the functions of a namespace live. Registering stores a function under its name as text, and
pushing a table stores it under the script key of its name. The two make the same table where no name
spells a positive integer; where one does, they do not. -/

namespace ScriptHost.Exchange

open Script (State TableRef Value Call Site)
open Host (Table Library asKey_ofString ofString_injective)
open Live (registeredIn registerOnTop_run registerFunction_of_table registerFunction_of_no_table withNewTable
  rawGet_withNewTable)

/-! ### Tables with the same contents -/

/-- Values of two states with the same contents, as far as paired tables have: the same plain value, or
wrappers of the same host function. -/
def Agree (p : TableRef → TableRef → Prop) (s t : State) : Value → Value → Prop
  | .table r, .table r' => p r r'
  | .function r, .function r' => ∃ f, s.hostFunction? r = some f ∧ t.hostFunction? r' = some f
  | v, w => v = w

/-- Tables of two states without handlers, with the same keys in the same order, and with the same
contents under each key, all the way down. -/
def SameContents (s t : State) (r r' : TableRef) : Prop :=
  ∃ p : TableRef → TableRef → Prop, p r r' ∧ ∀ a b, p a b →
    s.metatable? a = none ∧ t.metatable? b = none ∧
      List.Forall₂ (fun e e' => e.1 = e'.1 ∧ Agree p s t e.2 e'.2) (s.table a).entries (t.table b).entries

theorem SameContents.keys {s t : State} {r r' : TableRef} (h : SameContents s t r r') :
    (s.table r).entries.map (·.1) = (t.table r').entries.map (·.1) := by
  obtain ⟨p, hp, hstep⟩ := h
  obtain ⟨-, -, hes⟩ := hstep r r' hp
  generalize (s.table r).entries = es at hes
  generalize (t.table r').entries = fs at hes
  induction hes with
  | nil => rfl
  | cons h _ ih => rw [List.map_cons, List.map_cons, ih, h.1]

/-- A table without handlers, filled with copies of host entries. -/
structure CopiedTable (key : String → Value) (s : State) (es : List (String × Host.Value)) (r : TableRef) : Prop where
  lt : r < s.tables.size
  metatable : s.metatable? r = none
  entries : CopiedEntries key s (r + 1) es (s.table r).entries

section Copies

variable {s t : State} {key key' : String → Value} {es : List (String × Host.Value)}

/-- The tables are copies of one host value. -/
def CopiesOfOne (s t : State) (a b : TableRef) : Prop :=
  ∃ es, Copy s (.table es) a (.table a) ∧ Copy t (.table es) b (.table b)

theorem agree_of_copies {p : TableRef → TableRef → Prop} (hp : ∀ a b, CopiesOfOne s t a b → p a b) {v : Host.Value}
    {a b : Nat} {x y : Value} (hx : Copy s v a x) (hy : Copy t v b y) : Agree p s t x y := by
  cases v with
  | function f =>
    obtain ⟨r, rfl, hr⟩ := hx
    obtain ⟨r', rfl, hr'⟩ := hy
    exact ⟨f, hr, hr'⟩
  | table es =>
    obtain rfl := hx.1
    obtain rfl := hy.1
    exact hp a b ⟨es, hx, hy⟩
  | number | text | boolean | pointer =>
    rw [show x = _ from hx, show y = _ from hy]
    rfl

theorem agree_of_copied_entries {p : TableRef → TableRef → Prop} (hp : ∀ a b, CopiesOfOne s t a b → p a b)
    {low low' : Nat} {xs ys : List (Value × Value)} (hx : CopiedEntries key s low es xs)
    (hy : CopiedEntries key' t low' es ys) (hkey : ∀ e ∈ es, key e.1 = key' e.1) :
    List.Forall₂ (fun e e' => e.1 = e'.1 ∧ Agree p s t e.2 e'.2) xs ys := by
  induction hx generalizing ys with
  | nil =>
    cases hy
    exact .nil
  | cons hex _ ih =>
    cases hy with
    | cons hey hys =>
      obtain ⟨hk, _, -, hx⟩ := hex
      obtain ⟨hk', _, -, hy⟩ := hey
      obtain ⟨he, hes⟩ := List.forall_mem_cons.1 hkey
      exact .cons ⟨hk.trans (he.trans hk'.symm), agree_of_copies hp hx hy⟩ (ih hys hes)

/-- Copies of the same entries have the same contents if they spell the keys alike. -/
theorem sameContents_iff {r r' : TableRef} (h : CopiedTable key s es r) (h' : CopiedTable key' t es r') :
    SameContents s t r r' ↔ ∀ e ∈ es, key e.1 = key' e.1 := by
  constructor
  · intro hsame
    have hkeys := hsame.keys
    rw [h.entries.keys, h'.entries.keys] at hkeys
    exact List.map_inj_left.1 hkeys
  · intro hkey
    let p (a b : TableRef) : Prop := (a = r ∧ b = r') ∨ CopiesOfOne s t a b
    have hp : ∀ a b, CopiesOfOne s t a b → p a b := fun a b hab => .inr hab
    refine ⟨p, .inl ⟨rfl, rfl⟩, fun a b hab => ?_⟩
    rcases hab with ⟨rfl, rfl⟩ | ⟨fs, ha, hb⟩
    · exact ⟨h.metatable, h'.metatable, agree_of_copied_entries hp h.entries h'.entries hkey⟩
    · obtain ⟨-, -, hma, hfs⟩ := ha
      obtain ⟨-, -, hmb, hfs'⟩ := hb
      exact ⟨hma, hmb, agree_of_copied_entries hp (hfs.copied (Nat.le_refl _)) (hfs'.copied (Nat.le_refl _))
        fun _ _ => rfl⟩

end Copies

/-! ### Setting a global -/

section Setting

variable {s s' : State}

/-- The host can set globals past handlers. -/
structure Settable (s : State) : Prop where
  linked : s.Linked
  lt : s.globals < s.tables.size
  plain : s.metatable? s.globals = none

/-- What setting globals with these names leaves of the state. -/
structure SetsOnly (names : List String) (s s' : State) : Prop extends s.Extends (some s.globals) s' where
  settable : Settable s'
  kept : ∀ k : Value, (∀ name ∈ names, k.asKey ≠ .ofString name) → s'.rawGet s'.globals k = s.rawGet s.globals k

theorem SetsOnly.trans {names names' : List String} {s'' : State} (h : SetsOnly names s s')
    (h' : SetsOnly names' s' s'') : SetsOnly (names ++ names') s s'' where
  toExtends := h.toExtends.trans (h.globals ▸ h'.toExtends)
  settable := h'.settable
  kept k hk := by
    rw [h'.kept k fun name hname => hk name (List.mem_append_right _ hname),
      h.kept k fun name hname => hk name (List.mem_append_left _ hname)]

/-- A global that is set holds a copy of its value, in tables that are new. -/
theorem setGlobal_sets (h : Settable s) (name : String) {v : Host.Value} (hv : v.Distinct) :
    ∃ s', (∀ c st, setGlobal name v c ⟨st, s⟩ = .done () ⟨st, s'⟩) ∧ SetsOnly [name] s s' ∧
      Copy s' v s.tables.size (s'.rawGet s'.globals (.ofString name)) := by
  obtain ⟨w, s₁, hpush, he, -, hw⟩ := pushHost_run v hv s h.linked
  have hlt : s₁.globals < s₁.tables.size := he.globals ▸ Nat.lt_of_lt_of_le h.lt he.size
  have htable : s₁.table s₁.globals = s.table s.globals := by
    rw [he.globals, he.table _ h.lt (Option.some_ne_none _)]
  have hplain : s₁.metatable? s₁.globals = none := by
    rw [State.metatable?, htable]
    exact h.plain
  have hset := State.Extends.rawSet s₁ s₁.globals (.ofString name) w
  have hextends : s.Extends (some s.globals) (s₁.rawSet s₁.globals (.ofString name) w) :=
    (he.weaken _).trans (he.globals ▸ hset)
  have hget (k : Value) : (s₁.rawSet s₁.globals (.ofString name) w).rawGet s₁.globals k =
      if k.asKey = .ofString name then w else s₁.rawGet s₁.globals k := State.rawGet_rawSet_self hlt ..
  refine ⟨_, fun c st => ?_, ⟨hextends, ⟨hextends.linked h.linked, ?_, ?_⟩, fun k hk => ?_⟩, ?_⟩
  · apply balanced_done
    rw [bind_done (hpush c st)]
    exact storeIn_run c (State.handler_of_metatable? hplain _) rfl st _
  · rw [State.size_rawSet]
    exact hlt
  · exact (State.metatable?_rawSet ..).trans hplain
  · refine (hget k).trans ?_
    rw [if_neg (hk name (by simp)), State.rawGet, State.rawGet, htable]
  · -- the globals are older than the tables of the copy
    have hcopy := hw.extend hset fun q hq _ hc => by
      have hqg : q = s₁.globals := Option.some.inj hc
      rw [hqg, he.globals] at hq
      exact Nat.not_lt.2 hq h.lt
    have hheld : (s₁.rawSet s₁.globals (.ofString name) w).rawGet s₁.globals (.ofString name) = w := by
      rw [hget, if_pos (asKey_ofString name)]
    exact hheld.symm ▸ hcopy

end Setting

/-! ### Namespaces -/

/-- A global of a state without handlers for globals holds a table of copied entries. -/
structure Namespace (key : String → Value) (s : State) (space : String) (es : List (String × Host.Value))
    (r : TableRef) : Prop extends CopiedTable key s es r where
  linked : s.Linked
  plain : s.metatable? s.globals = none
  apart : r ≠ s.globals
  held : s.rawGet s.globals (.ofString space) = .table r

variable (c : Channel) (st : List Value) {s : State} {key : String → Value} {space k : String}
  {es : List (String × Host.Value)} {r : TableRef} {f : HostFunction}

/-- Setting a global to a table makes it a namespace. -/
theorem setGlobal_run (hs : s.Linked) (hg : s.globals < s.tables.size) (hm : s.metatable? s.globals = none)
    (space : String) {t : Table} (ht : t.Distinct) :
    ∃ s', setGlobal space (.ofTable t) c ⟨st, s⟩ = .done () ⟨st, s'⟩ ∧
      Namespace Host.scriptKey s' space t.entries s.tables.size := by
  obtain ⟨s', hset, hsets, hheld, hlt, hmt, hes⟩ := setGlobal_sets ⟨hs, hg, hm⟩ space (v := .ofTable t) ht
  have hentries := hes.copied (Nat.le_refl _)
  have hapart : s.tables.size ≠ s'.globals := hsets.globals ▸ Ne.symm (Nat.ne_of_lt hg)
  exact ⟨s', hset c st, ⟨hlt, hmt, hentries⟩, hsets.settable.linked, hsets.settable.plain, hapart, hheld⟩

namespace Namespace

variable (h : Namespace key s space es r)
include h

theorem register_run (k : String) (f : HostFunction) :
    registerFunction space k f c ⟨st, s⟩ = .done () ⟨st, registeredIn r space k f s⟩ :=
  registerFunction_of_table c h.held (State.handler_of_metatable? h.metatable _) k f st

theorem entries_registeredIn (k : String) (f : HostFunction) :
    ((registeredIn r space k f s).table r).entries =
      Script.Table.put (.ofString k) (.function (s.wrap f).1) (s.table r).entries := by
  have hlt : r < (s.wrap f).2.tables.size := by
    rw [State.tables_wrap]
    exact h.lt
  change (((s.wrap f).2.rawSet r (.ofString k) (.function (s.wrap f).1)).table r).entries = _
  rw [State.table_rawSet_self hlt, State.table, State.tables_wrap]
  rfl

theorem held_registeredIn (k : String) (f : HostFunction) :
    (registeredIn r space k f s).rawGet (registeredIn r space k f s).globals (.ofString space) = .table r := by
  have hglobals : (registeredIn r space k f s).globals = s.globals := (State.Retains.wrap s f).globals
  rw [hglobals]
  refine (State.rawGet_rawSet_of_ne h.apart.symm (s.wrap f).2 _ _ _).trans ?_
  rw [State.rawGet, State.table, State.tables_wrap]
  exact h.held

theorem rawGet_registeredIn (k : String) (f : HostFunction) (k' : Value) :
    (registeredIn r space k f s).rawGet r k' =
      if k'.asKey = .ofString k then .function (s.wrap f).1 else s.rawGet r k' := by
  rw [State.rawGet, Script.Table.get, h.entries_registeredIn, Script.Table.find_put]
  rfl

/-- A script that indexes the namespace by the name finds the function. -/
theorem index_registeredIn (k : String) (f : HostFunction) (call : Call) (site : Site)
    (naming : Option Script.Naming) :
    Script.Operators.index call site naming (.table r) (.ofString k) (registeredIn r space k f s) =
      .done (.function (s.wrap f).1) (registeredIn r space k f s) := by
  have hget := h.rawGet_registeredIn k f (.ofString k)
  rw [if_pos (asKey_ofString k)] at hget
  rw [index_run (fun hnil => absurd (hget.symm.trans hnil) (by simp)), hget]

/-- A registered function is an entry of the namespace if its name as text is the key for it. -/
theorem registeredIn (hkey : Function.Injective key) (hk : key k = .ofString k) (f : HostFunction) :
    Namespace key (registeredIn r space k f s) space (Table.insertEntry k (.function f) es) r := by
  have he : s.Extends (some r) (Live.registeredIn r space k f s) :=
    (((State.Extends.wrap s f).weaken _).trans (.rawSet _ r _ _)).trans ((State.Extends.emit _ _ _ _).weaken _)
  have hmetatable (q : TableRef) : (Live.registeredIn r space k f s).metatable? q = s.metatable? q := by
    refine (State.metatable?_rawSet (s.wrap f).2 r q _ _).trans ?_
    rw [State.metatable?, State.table, State.tables_wrap]
    rfl
  have hcopy : Copy (Live.registeredIn r space k f s) (.function f) (r + 1) (.function (s.wrap f).1) :=
    ⟨_, rfl, h.linked.hostFunction?_wrap f⟩
  constructor
  case toCopiedTable =>
    refine ⟨Nat.lt_of_lt_of_le h.lt he.size, (hmetatable r).trans h.metatable, ?_⟩
    rw [h.entries_registeredIn, ← hk]
    exact (h.entries.extend he (Nat.lt_succ_self r)).put hkey hcopy (Nat.le_refl _)
  case linked => exact he.linked h.linked
  case plain => rw [hmetatable, he.globals, h.plain]
  case apart => rw [he.globals]; exact h.apart
  case held => exact h.held_registeredIn k f

/-- Functions registered one after another become entries. -/
theorem registerAll_run (hkey : Function.Injective key) (fs : List (String × HostFunction))
    (hfs : ∀ f ∈ fs, key f.1 = .ofString f.1) :
    ∃ s', registerAll space fs c ⟨st, s⟩ = .done () ⟨st, s'⟩ ∧
      Namespace key s' space (fs.foldl (fun es f => Table.insertEntry f.1 (.function f.2) es) es) r := by
  induction fs generalizing s es with
  | nil => exact ⟨s, rfl, h⟩
  | cons f fs ih =>
    obtain ⟨hf, hfs⟩ := List.forall_mem_cons.1 hfs
    obtain ⟨s', hrun, h'⟩ := ih (h.registeredIn hkey hf f.2) hfs
    refine ⟨s', ?_, h'⟩
    rw [registerAll, bind_done (h.register_run c st f.1 f.2)]
    exact hrun

/-- Reading the table of a namespace back. -/
theorem getGlobal_run (hkey : key = Host.scriptKey) (hes : Host.Value.DistinctEntries es) :
    ∃ t' s', getGlobal space .table c ⟨st, s⟩ = .done (.ofTable t') ⟨st, s'⟩ ∧ Table.Same ⟨es⟩ t' := by
  subst hkey
  obtain ⟨t', log, htake, hsame, -⟩ := takeTable_run (t := ⟨es⟩) h.entries hes c st
  refine ⟨t', { s with log }, ?_, hsame⟩
  apply balanced_done
  rw [bind_done (pushGlobal_run c h.held (by simp) (by simp) st), topKind_bind]
  exact take_table_run htake

/-- One entry of the table has the spelling of a key. -/
theorem countP_spelling (hkey : key = Host.scriptKey) (hes : (es.map (·.1)).Nodup) (hk : k ∈ es.map (·.1)) :
    (s.table r).entries.countP (fun p => Host.keySpelling? p.1 = some k) = 1 := by
  subst hkey
  have hcount : ((s.table r).entries.map (·.1)).countP (fun x => Host.keySpelling? x = some k) = 1 := by
    rw [h.entries.keys, List.countP_map, ← List.count_eq_one_of_mem hes hk, List.count, List.countP_map]
    congr 1
    funext e
    simp [beq_eq_decide]
  rwa [List.countP_map] at hcount

end Namespace

/-! ### Registering and pushing -/

/-- A table with a function registered in it, beside the table pushed with the function in it. -/
theorem registered_sameContents_iff {s s' : State} {t : Table} {r r' : TableRef}
    (h : Namespace Host.scriptKey s space t.entries r)
    (h' : Namespace Host.scriptKey s' space (t.set k (.function f)).entries r') :
    SameContents (registeredIn r space k f s) s' r r' ↔ Host.sequenceIndex? k = none := by
  constructor
  · intro hsame
    -- the text is a key of the one table, and only script keys are keys of the other
    have hmem : .ofString k ∈ (((registeredIn r space k f s).table r).entries.map (·.1)) := by
      rw [h.entries_registeredIn]
      refine List.mem_map.2 ⟨_, Script.Table.mem_of_find (k := .ofString k) (v := .function (s.wrap f).1) ?_ (by simp),
        rfl⟩
      rw [Script.Table.find_put, if_pos rfl]
    rw [hsame.keys, h'.entries.keys, List.mem_map] at hmem
    obtain ⟨e, -, he⟩ := hmem
    have hspelling := congrArg Host.keySpelling? he
    rw [Host.keySpelling?_scriptKey, Value.ofString] at hspelling
    obtain rfl : e.1 = k := Option.some.inj (hspelling.trans (Host.fromUTF8?_toUTF8 k))
    exact (Host.scriptKey_eq_ofString _).1 he
  · intro hk
    have hreg := h.registeredIn Host.scriptKey_injective ((Host.scriptKey_eq_ofString k).2 hk) f
    exact (sameContents_iff hreg.toCopiedTable h'.toCopiedTable).2 fun _ _ => rfl

theorem ofPairs_entries (fs : List (String × Host.Value)) :
    (Table.ofPairs fs).entries = fs.foldl (fun es f => Table.insertEntry f.1 f.2 es) [] := by
  suffices h : ∀ t : Table, (t.setAll fs).entries = fs.foldl (fun es f => Table.insertEntry f.1 f.2 es) t.entries from
    h .empty
  intro t
  rw [Table.setAll]
  induction fs generalizing t with
  | nil => rfl
  | cons f fs ih => exact ih _

theorem asTable_entries (l : Library) :
    l.asTable.entries = l.functions.foldl (fun es f => Table.insertEntry f.1 (.function f.2) es) [] := by
  rw [Library.asTable, ofPairs_entries, List.foldl_map]

theorem asTable_distinct (l : Library) : l.asTable.Distinct := by
  rw [Table.Distinct, asTable_entries]
  suffices h : ∀ (fs : List (String × HostFunction)) es, Host.Value.DistinctEntries es →
      Host.Value.DistinctEntries (fs.foldl (fun es f => Table.insertEntry f.1 (.function f.2) es) es) from
    h l.functions [] trivial
  intro fs
  induction fs with
  | nil => exact fun _ h => h
  | cons f fs ih => exact fun es h => ih _ (h.insertEntry f.1 trivial)

theorem mem_keys_asTable (l : Library) (k : String) :
    k ∈ l.asTable.entries.map (·.1) ↔ k ∈ l.functions.map (·.1) := by
  rw [asTable_entries]
  suffices h : ∀ (fs : List (String × HostFunction)) (es : List (String × Host.Value)),
      k ∈ (fs.foldl (fun es f => Table.insertEntry f.1 (.function f.2) es) es).map (·.1) ↔
        k ∈ es.map (·.1) ∨ k ∈ fs.map (·.1) by
    simpa using h l.functions []
  intro fs
  induction fs with
  | nil => simp
  | cons f fs ih =>
    intro es
    rw [List.foldl_cons, ih, Host.Value.mem_keys_insertEntry, List.map_cons, List.mem_cons]
    tauto

/-- A namespace for the first function of a library. -/
theorem namespace_withNewTable {s : State} (hs : s.Linked) (hg : s.globals < s.tables.size)
    (hm : s.metatable? s.globals = none) (space : String) :
    Namespace Value.ofString (withNewTable space s) space [] s.tables.size := by
  have hset := (State.Extends.newTable s {}).weaken (some s.globals)
  have htable : (withNewTable space s).table s.tables.size = {} := by
    rw [withNewTable, State.table_rawSet_of_ne (Nat.ne_of_gt hg), State.table_newTable, if_pos rfl]
  have hglobals : (s.newTable {}).2.metatable? s.globals = none := by
    rw [State.metatable?, State.table_newTable, if_neg (Nat.ne_of_lt hg)]
    exact hm
  constructor
  case toCopiedTable =>
    refine ⟨?_, ?_, ?_⟩
    · rw [withNewTable, State.size_rawSet, State.size_newTable]
      exact Nat.lt_succ_self _
    · rw [State.metatable?, htable]
    · rw [htable]
      exact .nil
  case linked => exact hs
  case plain => exact (State.metatable?_rawSet ..).trans hglobals
  case apart => exact Nat.ne_of_gt hg
  case held => exact rawGet_withNewTable hg space

/-- Installing a library under a global that is not set makes its functions the entries of a new table. -/
theorem install_run {s : State} (hs : s.Linked) (hg : s.globals < s.tables.size) (hm : s.metatable? s.globals = none)
    {l : Library} (hl : l.functions ≠ []) (hnil : s.rawGet s.globals (.ofString l.name) = .nil) :
    ∃ s', install l c ⟨st, s⟩ = .done () ⟨st, s'⟩ ∧
      Namespace Value.ofString s' l.name l.asTable.entries s.tables.size := by
  rw [install, asTable_entries]
  cases hfs : l.functions with
  | nil => exact absurd hfs hl
  | cons f fs =>
    have hnew := namespace_withNewTable hs hg hm l.name
    have hnewtable : (s.newTable {}).2.metatable? s.globals = none := by
      rw [State.metatable?, State.table_newTable, if_neg (Nat.ne_of_lt hg)]
      exact hm
    have hfirst := registerFunction_of_no_table c
      (pushGlobal_run c hnil (fun _ => State.handler_of_metatable? hm _) (by simp) st) (by simp [Host.Kind.of?]) hg
      (State.handler_of_metatable? hnewtable _) f.1 f.2
    obtain ⟨s', hrun, h'⟩ := (hnew.registeredIn ofString_injective rfl f.2).registerAll_run c st ofString_injective fs
      fun _ _ => rfl
    refine ⟨s', ?_, h'⟩
    rw [registerAll, bind_done hfirst]
    exact hrun

/-- Registering a function in a table of the host makes the same table as pushing the table with the
function in it if the name spells no positive integer, and only then. A script finds the function under
the text of the name; where that is the key, no other entry has the spelling, and the table reads back with
the function in it. Installing a library where there is nothing makes the same table as pushing it if none of its names
spells a positive integer, and only then. -/
theorem register_agrees_with_push {s : State} (hs : s.Reachable) (hm : s.metatable? s.globals = none) :
    (∀ (space k : String) (t : Table) (f : HostFunction), t.Distinct →
      ∃ s₀ s₁ s₂ r₁ r₂,
        setGlobal space (.ofTable t) c ⟨st, s⟩ = .done () ⟨st, s₀⟩ ∧
        registerFunction space k f c ⟨st, s₀⟩ = .done () ⟨st, s₁⟩ ∧
        setGlobal space (.ofTable (t.set k (.function f))) c ⟨st, s⟩ = .done () ⟨st, s₂⟩ ∧
        s₁.rawGet s₁.globals (.ofString space) = .table r₁ ∧
        s₂.rawGet s₂.globals (.ofString space) = .table r₂ ∧
        (SameContents s₁ s₂ r₁ r₂ ↔ Host.sequenceIndex? k = none) ∧
        (∃ w, s₁.hostFunction? w = some f ∧ ∀ call site naming,
          Script.Operators.index call site naming (.table r₁) (.ofString k) s₁ = .done (.function w) s₁) ∧
        (Host.sequenceIndex? k = none →
          Host.scriptKey k = .ofString k ∧
          (s₁.table r₁).entries.countP (fun p => Host.keySpelling? p.1 = some k) = 1 ∧
          ∃ t' s', getGlobal space .table c ⟨st, s₁⟩ = .done (.ofTable t') ⟨st, s'⟩ ∧
            (t.set k (.function f)).Same t')) ∧
    ∀ l : Library, l.functions ≠ [] → s.rawGet s.globals (.ofString l.name) = .nil →
      ∃ s₁ s₂ r₁ r₂,
        install l c ⟨st, s⟩ = .done () ⟨st, s₁⟩ ∧
        setGlobal l.name (.ofTable l.asTable) c ⟨st, s⟩ = .done () ⟨st, s₂⟩ ∧
        s₁.rawGet s₁.globals (.ofString l.name) = .table r₁ ∧
        s₂.rawGet s₂.globals (.ofString l.name) = .table r₂ ∧
        (SameContents s₁ s₂ r₁ r₂ ↔ ∀ f ∈ l.functions, Host.sequenceIndex? f.1 = none) := by
  have hg := hs.globals_lt
  constructor
  · intro space k t f ht
    have ht' : (t.set k (.function f)).Distinct := Host.Value.DistinctEntries.insertEntry ht k trivial
    obtain ⟨s₀, hset, h₀⟩ := setGlobal_run c st hs.linked hg hm space ht
    obtain ⟨s₂, hpush, h₂⟩ := setGlobal_run c st hs.linked hg hm space ht'
    refine ⟨s₀, registeredIn s.tables.size space k f s₀, s₂, _, _, hset, h₀.register_run c st k f, hpush,
      h₀.held_registeredIn k f, h₂.held, registered_sameContents_iff h₀ h₂,
      ⟨_, h₀.linked.hostFunction?_wrap f, h₀.index_registeredIn k f⟩, fun hk => ?_⟩
    have hscript := (Host.scriptKey_eq_ofString k).2 hk
    have hreg := h₀.registeredIn Host.scriptKey_injective hscript f
    have hmem : k ∈ (t.set k (.function f)).entries.map (·.1) := (Host.Value.mem_keys_insertEntry ..).2 (.inl rfl)
    exact ⟨hscript, hreg.countP_spelling rfl ht'.nodup hmem, hreg.getGlobal_run c st rfl ht'⟩
  · intro l hl hnil
    obtain ⟨s₁, hinstall, h₁⟩ := install_run c st hs.linked hg hm hl hnil
    obtain ⟨s₂, hpush, h₂⟩ := setGlobal_run c st hs.linked hg hm l.name (asTable_distinct l)
    refine ⟨s₁, s₂, _, _, hinstall, hpush, h₁.held, h₂.held, ?_⟩
    have hkeys : (∀ k ∈ l.asTable.entries.map (·.1), .ofString k = Host.scriptKey k) ↔
        ∀ k ∈ l.functions.map (·.1), Host.sequenceIndex? k = none := by
      refine forall_congr' fun k => imp_congr (mem_keys_asTable l k) ?_
      rw [eq_comm, Host.scriptKey_eq_ofString]
    rw [sameContents_iff h₁.toCopiedTable h₂.toCopiedTable]
    rwa [List.forall_mem_map, List.forall_mem_map] at hkeys

/-- In a new engine, a function with a plain name and a library of two. -/
theorem register_agrees_with_push_fresh :
    State.fresh.Reachable ∧ State.fresh.metatable? State.fresh.globals = none ∧
      (∃ s₀ s₁ s₂ r₁ r₂,
        setGlobal "N" (.table []) (outermost Samples.catalog) ⟨[], State.fresh⟩ = .done () ⟨[], s₀⟩ ∧
        registerFunction "N" "f" ⟨"ping"⟩ (outermost Samples.catalog) ⟨[], s₀⟩ = .done () ⟨[], s₁⟩ ∧
        setGlobal "N" (.table [("f", .function ⟨"ping"⟩)]) (outermost Samples.catalog) ⟨[], State.fresh⟩ =
          .done () ⟨[], s₂⟩ ∧
        SameContents s₁ s₂ r₁ r₂) ∧
      ∃ s₁ s₂ r₁ r₂,
        install ⟨"L", [("f", ⟨"ping"⟩), ("g", ⟨"double"⟩)]⟩ (outermost Samples.catalog) ⟨[], State.fresh⟩ =
          .done () ⟨[], s₁⟩ ∧
        setGlobal "L" (.table [("f", .function ⟨"ping"⟩), ("g", .function ⟨"double"⟩)])
          (outermost Samples.catalog) ⟨[], State.fresh⟩ = .done () ⟨[], s₂⟩ ∧
        SameContents s₁ s₂ r₁ r₂ := by
  have hfresh : State.fresh.Reachable := Relation.ReflTransGen.refl
  have hplain : State.fresh.metatable? State.fresh.globals = none := by decide
  obtain ⟨hregister, hinstall⟩ := register_agrees_with_push (outermost Samples.catalog) [] hfresh hplain
  obtain ⟨s₀, s₁, s₂, r₁, r₂, hset, hreg, hpush, -, -, hsame, -, -⟩ :=
    hregister "N" "f" ⟨[]⟩ ⟨"ping"⟩ trivial
  obtain ⟨s₃, s₄, r₃, r₄, hins, hpush', -, -, hsame'⟩ :=
    hinstall ⟨"L", [("f", ⟨"ping"⟩), ("g", ⟨"double"⟩)]⟩ (by simp) (by decide)
  exact ⟨hfresh, hplain, ⟨s₀, s₁, s₂, r₁, r₂, hset, hreg, hpush, hsame.2 (by decide)⟩,
    s₃, s₄, r₃, r₄, hins, hpush', hsame'.2 (by decide)⟩

/-- A function that is registered under `1` is not where a script, or a table that the host pushes, has the
first of a sequence. -/
theorem register_disagrees_with_push_at_one :
    ∃ s₀ s₁ s₂ r₁ r₂,
      setGlobal "N" (.table []) (outermost Samples.catalog) ⟨[], State.fresh⟩ = .done () ⟨[], s₀⟩ ∧
      registerFunction "N" "1" ⟨"ping"⟩ (outermost Samples.catalog) ⟨[], s₀⟩ = .done () ⟨[], s₁⟩ ∧
      setGlobal "N" (.table [("1", .function ⟨"ping"⟩)]) (outermost Samples.catalog) ⟨[], State.fresh⟩ =
        .done () ⟨[], s₂⟩ ∧
      s₁.rawGet s₁.globals (.ofString "N") = .table r₁ ∧ s₂.rawGet s₂.globals (.ofString "N") = .table r₂ ∧
      ¬SameContents s₁ s₂ r₁ r₂ ∧ s₁.rawGet r₁ (.ofNat 1) = .nil ∧ s₂.rawGet r₂ (.ofNat 1) ≠ .nil := by
  have hlinked : State.fresh.Linked := State.Reachable.linked Relation.ReflTransGen.refl
  obtain ⟨s₀, hset, h₀⟩ := setGlobal_run (outermost Samples.catalog) [] hlinked (by decide) (by decide) "N"
    (t := ⟨[]⟩) trivial
  obtain ⟨s₂, hpush, h₂⟩ := setGlobal_run (outermost Samples.catalog) [] hlinked (by decide) (by decide) "N"
    (t := Table.set ⟨[]⟩ "1" (.function ⟨"ping"⟩)) ⟨by simp, trivial, trivial⟩
  refine ⟨s₀, _, s₂, _, _, hset, h₀.register_run _ [] "1" ⟨"ping"⟩, hpush, h₀.held_registeredIn "1" ⟨"ping"⟩, h₂.held,
    fun hsame => ?_, ?_, ?_⟩
  · exact absurd ((registered_sameContents_iff h₀ h₂).1 hsame) (by decide)
  · have hnone : (s₀.table State.fresh.tables.size).entries = [] := List.forall₂_nil_left_iff.1 h₀.entries
    rw [h₀.rawGet_registeredIn, if_neg (by decide), State.rawGet, Script.Table.get, hnone]
    rfl
  · obtain ⟨⟨k, w⟩, ws, ⟨hk, _, -, hw⟩, -, hws⟩ := List.forall₂_cons_left_iff.1 h₂.entries
    obtain rfl : k = .ofNat 1 := hk.trans (by decide)
    rw [State.rawGet, Script.Table.get, hws]
    exact hw.not_nil

end ScriptHost.Exchange
