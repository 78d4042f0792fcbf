import ScriptHost.Proofs.Copies
import ScriptHost.Proofs.Ledgers
import ScriptHost.Proofs.Seclusion

/-! Making the changes of a list again on the state that a script left. Every change runs to its end,
and the state afterwards is the one that the ledger of the list describes: each global that the host
made holds a copy of its value with the functions registered in it, in tables of its own, and the
tables of the script differ by the functions written into them. -/

namespace ScriptHost.Live

open Script (State TableRef Value)
open Host (asKey_ofString ofString_injective ofString_of_fromUTF8?)
open Exchange

/-! ### Tables with registered functions -/

/-- The function that is registered under a script key. -/
def registered (fs : String → Option HostFunction) : Value → Option HostFunction
  | .text b => (String.fromUTF8? b).bind fs
  | _ => none

variable {fs : String → Option HostFunction} {k : String} {f : HostFunction}

theorem registered_ofString (fs : String → Option HostFunction) (k : String) :
    registered fs (.ofString k) = fs k := by
  change (String.fromUTF8? k.toUTF8).bind fs = fs k
  rw [Host.fromUTF8?_toUTF8]
  rfl

theorem registered_eq_some {v : Value} (h : registered fs v = some f) : ∃ k, v = .ofString k ∧ fs k = some f := by
  unfold registered at h
  split at h
  next b =>
    obtain ⟨k, hk, hf⟩ := Option.bind_eq_some_iff.1 h
    exact ⟨k, ofString_of_fromUTF8? hk, hf⟩
  next => cases h

theorem registered_none (v : Value) : registered (fun _ => none) v = none := by
  unfold registered
  split
  next b => cases String.fromUTF8? b <;> rfl
  next => rfl

theorem registered_congr {fs fs' : String → Option HostFunction} {v : Value}
    (h : ∀ k, v = .ofString k → fs k = fs' k) : registered fs v = registered fs' v := by
  unfold registered
  split
  next b =>
    cases hb : String.fromUTF8? b with
    | none => rfl
    | some k => exact h k (ofString_of_fromUTF8? hb)
  next => rfl

theorem registered_update (fs : String → Option HostFunction) (k : String) (f : HostFunction) (v : Value) :
    registered (Function.update fs k (some f)) v = if v = .ofString k then some f else registered fs v := by
  split
  next h => rw [h, registered_ofString, Function.update_self]
  next h =>
    unfold registered
    split
    next b =>
      cases hb : String.fromUTF8? b with
      | none => rfl
      | some i =>
        have hi : i ≠ k := by
          rintro rfl
          exact h (ofString_of_fromUTF8? hb)
        simp [Function.update_of_ne hi]
    next => rfl

/-- A script function that stands for a host function. -/
def Wraps (s : State) (f : HostFunction) (w : Value) : Prop := ∃ r, w = .function r ∧ s.hostFunction? r = some f

/-- A table with functions registered in it; the other keys have the given values. -/
def Overlaid (s : State) (fs : String → Option HostFunction) (base : Value → Value) (t : Script.Table) : Prop :=
  ∀ k : Value, (∀ f, registered fs k.asKey = some f → Wraps s f (t.get k)) ∧
    (registered fs k.asKey = none → t.get k = base k)

variable {s s' : State} {base : Value → Value} {t : Script.Table}

theorem Wraps.retain {w : Value} (h : Wraps s f w) (hs : s.Retains s') : Wraps s' f w := by
  obtain ⟨r, rfl, hr⟩ := h
  exact ⟨r, rfl, State.hostFunction?_eq_some.2 (hs.function r _ (State.hostFunction?_eq_some.1 hr))⟩

namespace Overlaid

theorem new (s : State) (t : Script.Table) : Overlaid s (fun _ => none) t.get t := by
  intro k
  rw [registered_none]
  constructor
  · intro f h
    cases h
  · exact fun _ => rfl

theorem retain (h : Overlaid s fs base t) (hs : s.Retains s') : Overlaid s' fs base t :=
  fun k => ⟨fun f hf => ((h k).1 f hf).retain hs, (h k).2⟩

theorem register (h : Overlaid s fs base t) {w : Value} (hw : Wraps s f w) (k : String) :
    Overlaid s (Function.update fs k (some f)) base (t.set (.ofString k) w) := by
  intro i
  rw [registered_update, Script.Table.get_set]
  rw [asKey_ofString]
  split
  · refine ⟨fun g hg => ?_, fun hn => ?_⟩
    · cases hg
      exact hw
    · cases hn
  · exact h i

end Overlaid

/-! ### Globals of the host -/

/-- A copy of a table of the host, with functions registered in it; the tables within it follow. -/
def MadeTable (s : State) (es : List (String × Host.Value)) (fs : String → Option HostFunction) (r : Nat) : Prop :=
  s.metatable? r = none ∧ ∃ ws, CopyEntries s es (r + 1) ws ∧
    Overlaid s fs (fun k => Script.Table.find k.asKey ws) (s.table r)

/-- The value is a copy of what the host put into a global, with the functions registered since. -/
def Holds (s : State) (m : Made) (start : Nat) (w : Value) : Prop :=
  match m.value with
  | .table es => w = .table start ∧ MadeTable s es m.functions start
  | v => Copy s v start w

theorem madeTable_of_copy {es : List (String × Host.Value)} {r : Nat} {w : Value} (h : Copy s (.table es) r w) :
    MadeTable s es (fun _ => none) r := by
  obtain ⟨rfl, -, hm, hes⟩ := h
  exact ⟨hm, _, hes, .new s _⟩

theorem holds_new {v : Host.Value} {start : Nat} {w : Value} (h : Copy s v start w) : Holds s (.new v) start w := by
  cases v with
  | table es => exact ⟨h.1, madeTable_of_copy h⟩
  | _ => exact h

/-- Writes elsewhere do not matter. -/
theorem Holds.extend {own : Option TableRef} {m : Made} {start : Nat} {w : Value} (h : Holds s m start w)
    (he : s.Extends own s') (hsize : start + extent m.value ≤ s.tables.size)
    (ho : ∀ r : Nat, start ≤ r → r < start + extent m.value → some r ≠ own) : Holds s' m start w := by
  obtain ⟨v, fs⟩ := m
  cases v with
  | table es =>
    obtain ⟨rfl, hm, ws, hws, ht⟩ := h
    simp only [extent] at hsize ho
    have hstart : s'.table start = s.table start := he.table start (by omega) (ho start (Nat.le_refl _) (by omega))
    refine ⟨rfl, ?_, ws, hws.extend he fun r hr hlt => ho r (by omega) (by omega), ?_⟩
    · rwa [State.metatable?, hstart]
    · rw [hstart]
      exact ht.retain he.toRetains
  | _ => exact Copy.extend h he ho

/-- Storing a wrapper in a table of the host. -/
theorem Holds.register {m : Made} {es : List (String × Host.Value)} (hes : m.value = .table es) {start : Nat}
    {w w' : Value} (h : Holds s m start w) (hsize : start < s.tables.size) (hw : Wraps s f w') (k : String) :
    Holds (s.rawSet start (.ofString k) w') (m.register k f) start w := by
  obtain ⟨v, fs⟩ := m
  obtain rfl : v = .table es := hes
  obtain ⟨rfl, hm, ws, hws, ht⟩ := h
  have he : s.Extends (some start) (s.rawSet start (.ofString k) w') := .rawSet s start _ w'
  refine ⟨rfl, ?_, ws, hws.extend he fun r hr _ hc => ?_, ?_⟩
  · rwa [State.metatable?_rawSet]
  · obtain rfl := Option.some.inj hc
    omega
  · rw [State.table_rawSet_self hsize]
    exact (ht.register hw k).retain he.toRetains

/-- The tables of a global that the host made lie together, behind those of the script. -/
structure Placed (s₀ s : State) (m : Made) (start : Nat) (w : Value) : Prop where
  behind : s₀.tables.size ≤ start
  fits : start + extent m.value ≤ s.tables.size
  holds : Holds s m start w

theorem Placed.extend {s₀ : State} {own : Option TableRef} {m : Made} {start : Nat} {w : Value}
    (h : Placed s₀ s m start w) (he : s.Extends own s')
    (ho : ∀ r : Nat, start ≤ r → r < start + extent m.value → some r ≠ own) : Placed s₀ s' m start w :=
  ⟨h.behind, Nat.le_trans h.fits he.size, h.holds.extend he h.fits ho⟩

/-! ### States that a ledger describes -/

/-- A value under this name in this table is no handler for reading or writing. -/
def Quiet (s₀ : State) (r : TableRef) (k : String) : Prop :=
  ∀ q, s₀.metatable? q = some r → k ≠ "__index" ∧ k ≠ "__newindex"

/-- The state is another one with what the ledger describes; the tables of each global that the host made begin at
its place. -/
structure Describes (s₀ : State) (l : Ledger) (place : String → Nat) (s : State) : Prop extends
    s₀.Retains s where
  metatable : ∀ r, r < s₀.tables.size → s.metatable? r = s₀.metatable? r
  table : ∀ r, r < s₀.tables.size → r ≠ s₀.globals → Overlaid s (l.written r) (s₀.rawGet r) (s.table r)
  global : ∀ k : Value, (∀ n, k.asKey = .ofString n → l.made n = none) →
    s.rawGet s₀.globals k = s₀.rawGet s₀.globals k
  made : ∀ n m, l.made n = some m → Placed s₀ s m (place n) (s.rawGet s₀.globals (.ofString n))
  apart : ∀ n m n' m', n ≠ n' → l.made n = some m → l.made n' = some m' →
    place n + extent m.value ≤ place n' ∨ place n' + extent m'.value ≤ place n

/-- The state is the one that a script left, with what the ledger describes, which is no handler. -/
structure Realizes (s₀ : State) (l : Ledger) (place : String → Nat) (s : State) : Prop extends
    Describes s₀ l place s where
  quiet_made : ∀ n m, l.made n = some m → Quiet s₀ s₀.globals n
  quiet_written : ∀ r k f, l.written r k = some f → Quiet s₀ r k

namespace Describes

variable {s₀ : State} {l : Ledger} {place : String → Nat}

theorem refl (s₀ : State) (place : String → Nat) : Describes s₀ .empty place s₀ where
  toRetains := .refl s₀
  metatable _ _ := rfl
  table r _ _ := .new s₀ (s₀.table r)
  global _ _ := rfl
  made _ _ h := by cases h
  apart _ _ _ _ _ h := by cases h

variable (h : Describes s₀ l place s) (hg : s₀.globals < s₀.tables.size)
include h hg

theorem extend (he : s.Extends none s') : Describes s₀ l place s' := by
  have ht : ∀ r, r < s₀.tables.size → s'.table r = s.table r := by
    intro r hr
    exact he.table r (Nat.lt_of_lt_of_le hr h.size) (Option.some_ne_none r)
  have hget : ∀ k, s'.rawGet s₀.globals k = s.rawGet s₀.globals k := fun k => by
    rw [State.rawGet, State.rawGet, ht _ hg]
  refine ⟨h.toRetains.trans he.toRetains, fun r hr => ?_, fun r hr hne => ?_, fun k hk => ?_, fun n m hm => ?_,
    h.apart⟩
  · rw [State.metatable?, ht r hr]
    exact h.metatable r hr
  · rw [ht r hr]
    exact (h.table r hr hne).retain he.toRetains
  · rw [hget]
    exact h.global k hk
  · rw [hget]
    exact (h.made n m hm).extend he fun r _ _ => Option.some_ne_none r

/-- A copy in new tables goes into a global. -/
theorem set {v : Host.Value} {start : Nat} {w : Value} (hw : Copy s v start w) (hstart : s₀.tables.size ≤ start)
    (hfits : start + extent v ≤ s.tables.size)
    (hnew : ∀ n m, l.made n = some m → place n + extent m.value ≤ start) (n : String) :
    Describes s₀ (l.set n (.new v)) (Function.update place n start) (s.rawSet s₀.globals (.ofString n) w) := by
  have he : s.Extends (some s₀.globals) (s.rawSet s₀.globals (.ofString n) w) := .rawSet s _ _ w
  have hbehind : ∀ r : Nat, s₀.tables.size ≤ r → some r ≠ some s₀.globals := by
    intro r hr hc
    obtain rfl := Option.some.inj hc
    exact Nat.not_lt_of_le hr hg
  have hget := State.rawGet_rawSet_self (Nat.lt_of_lt_of_le hg h.size) (.ofString n) (v := w)
  have hother {i : String} (hin : i ≠ n) : (Value.ofString i).asKey ≠ (Value.ofString n).asKey :=
    fun hc => hin (ofString_injective hc)
  refine ⟨h.toRetains.trans he.toRetains, fun r hr => ?_, fun r hr hr' => ?_, fun k hk => ?_, fun i m hm => ?_,
    fun i m i' m' hii hm hm' => ?_⟩
  · rw [State.metatable?_rawSet]
    exact h.metatable r hr
  · rw [State.table_rawSet_of_ne hr']
    exact (h.table r hr hr').retain he.toRetains
  · have hkn : k.asKey ≠ .ofString n := fun hc => (Ledger.of_made_set_eq_none (hk n hc)).1 rfl
    rw [hget, asKey_ofString, if_neg hkn]
    apply h.global k
    intro i hi
    exact (Ledger.of_made_set_eq_none (hk i hi)).2
  · rcases Ledger.of_made_set hm with ⟨rfl, rfl⟩ | ⟨hin, hm⟩
    · rw [hget, if_pos rfl, Function.update_self]
      exact ⟨hstart, Nat.le_trans hfits he.size,
        holds_new (hw.extend he fun r hr _ => hbehind r (Nat.le_trans hstart hr))⟩
    · rw [hget, if_neg (hother hin), Function.update_of_ne hin]
      have hplaced := h.made i m hm
      exact hplaced.extend he fun r hr _ => hbehind r (Nat.le_trans hplaced.behind hr)
  · rcases Ledger.of_made_set hm with ⟨rfl, rfl⟩ | ⟨hin, hi⟩
    · rcases Ledger.of_made_set hm' with ⟨rfl, -⟩ | ⟨hin', hi'⟩
      · exact absurd rfl hii
      · rw [Function.update_self, Function.update_of_ne hin']
        exact .inr (hnew i' m' hi')
    · rw [Function.update_of_ne hin]
      rcases Ledger.of_made_set hm' with ⟨rfl, rfl⟩ | ⟨hin', hi'⟩
      · rw [Function.update_self]
        exact .inl (hnew i m hi)
      · rw [Function.update_of_ne hin']
        exact h.apart i m i' m' hii hi hi'

/-- A function goes into a table of the host. -/
theorem register {n : String} {m : Made} (hm : l.made n = some m) {es : List (String × Host.Value)}
    (hes : m.value = .table es) {w : Value} (hw : Wraps s f w) (k : String) :
    Describes s₀ (l.set n (m.register k f)) place (s.rawSet (place n) (.ofString k) w) := by
  have hn := h.made n m hm
  have hlt : place n < s.tables.size := by
    have hfits := hn.fits
    rw [hes, extent] at hfits
    omega
  have he : s.Extends (some (place n)) (s.rawSet (place n) (.ofString k) w) := .rawSet s _ _ w
  have hbefore : ∀ r : Nat, r < s₀.tables.size → r ≠ place n := by
    have hbehind := hn.behind
    intro r hr
    omega
  have hget := fun i => State.rawGet_rawSet_of_ne (hbefore _ hg) s (.ofString k) i w
  have hold {i : String} {m' : Made} (hm' : (l.set n (m.register k f)).made i = some m') :
      ∃ m₀, l.made i = some m₀ ∧ m₀.value = m'.value := by
    rcases Ledger.of_made_set hm' with ⟨rfl, rfl⟩ | ⟨-, hm'⟩
    · exact ⟨m, hm, rfl⟩
    · exact ⟨m', hm', rfl⟩
  refine ⟨h.toRetains.trans he.toRetains, fun r hr => ?_, fun r hr hr' => ?_, fun i hi => ?_, fun i m' hm' => ?_,
    fun i m' i' m'' hii hm' hm'' => ?_⟩
  · rw [State.metatable?_rawSet]
    exact h.metatable r hr
  · rw [State.table_rawSet_of_ne (hbefore r hr)]
    exact (h.table r hr hr').retain he.toRetains
  · rw [hget]
    apply h.global i
    intro n' hn'
    exact (Ledger.of_made_set_eq_none (hi n' hn')).2
  · rw [hget]
    rcases Ledger.of_made_set hm' with ⟨rfl, rfl⟩ | ⟨hin, hm'⟩
    · exact ⟨hn.behind, Nat.le_trans hn.fits he.size, hn.holds.register hes hlt hw k⟩
    · apply (h.made i m' hm').extend he
      intro r hr hr' hc
      -- the tables of another global lie apart from the first one of this global
      rcases h.apart i m' n m hin hm' hm with hap | hap
      · have := Option.some.inj hc
        omega
      · have := Option.some.inj hc
        rw [hes, extent] at hap
        omega
  · obtain ⟨m₁, h₁, hv₁⟩ := hold hm'
    obtain ⟨m₂, h₂, hv₂⟩ := hold hm''
    rw [← hv₁, ← hv₂]
    exact h.apart i m₁ i' m₂ hii h₁ h₂

omit hg in
/-- A function goes into a table of the script. -/
theorem write {r : TableRef} (hr : r < s₀.tables.size) (hrg : r ≠ s₀.globals) {w : Value} (hw : Wraps s f w)
    (k : String) : Describes s₀ (l.write r k f) place (s.rawSet r (.ofString k) w) := by
  have he : s.Extends (some r) (s.rawSet r (.ofString k) w) := .rawSet s _ _ w
  have hget := fun i => State.rawGet_rawSet_of_ne (Ne.symm hrg) s (.ofString k) i w
  refine ⟨h.toRetains.trans he.toRetains, fun r' hr' => ?_, fun r' hr' hrg' => ?_, fun i hi => ?_, fun i m hm => ?_,
    h.apart⟩
  · rw [State.metatable?_rawSet]
    exact h.metatable r' hr'
  · by_cases hrr : r' = r
    · subst hrr
      rw [State.table_rawSet_self (Nat.lt_of_lt_of_le hr h.size), Ledger.written_write_self]
      exact ((h.table r' hr' hrg').register hw k).retain he.toRetains
    · rw [State.table_rawSet_of_ne hrr, Ledger.written_write_of_ne hrr]
      exact (h.table r' hr' hrg').retain he.toRetains
  · rw [hget]
    exact h.global i hi
  · rw [hget]
    have hplaced := h.made i m hm
    apply hplaced.extend he
    intro r' hr' _ hc
    obtain rfl := Option.some.inj hc
    exact Nat.not_lt_of_le (Nat.le_trans hplaced.behind hr') hr

omit hg in
/-- What a table of the script holds: what the script left there, or a registered function. -/
theorem rawGet_cases {r : TableRef} (hr : r < s₀.tables.size) (hrg : r ≠ s₀.globals) (k : Value) :
    s.rawGet r k = s₀.rawGet r k ∨
      ∃ n f, k.asKey = .ofString n ∧ l.written r n = some f ∧ Wraps s f (s.rawGet r k) := by
  cases hf : registered (l.written r) k.asKey with
  | none => exact .inl ((h.table r hr hrg k).2 hf)
  | some f =>
    obtain ⟨n, hn, hw⟩ := registered_eq_some hf
    exact .inr ⟨n, f, hn, hw, (h.table r hr hrg k).1 f hf⟩

end Describes

namespace Realizes

variable {s₀ : State} {l : Ledger} {place : String → Nat}

theorem refl (s₀ : State) (place : String → Nat) : Realizes s₀ .empty place s₀ where
  toDescribes := .refl s₀ place
  quiet_made _ _ h := by cases h
  quiet_written _ _ _ h := by cases h

variable (h : Realizes s₀ l place s) (hg : s₀.globals < s₀.tables.size)
include h hg

theorem extend (he : s.Extends none s') : Realizes s₀ l place s' where
  toDescribes := h.toDescribes.extend hg he
  quiet_made := h.quiet_made
  quiet_written := h.quiet_written

theorem set {v : Host.Value} {start : Nat} {w : Value} (hw : Copy s v start w) (hstart : s₀.tables.size ≤ start)
    (hfits : start + extent v ≤ s.tables.size)
    (hnew : ∀ n m, l.made n = some m → place n + extent m.value ≤ start) {n : String}
    (hn : Quiet s₀ s₀.globals n) :
    Realizes s₀ (l.set n (.new v)) (Function.update place n start) (s.rawSet s₀.globals (.ofString n) w) where
  toDescribes := h.toDescribes.set hg hw hstart hfits hnew n
  quiet_made i m hm := by
    rcases Ledger.of_made_set hm with ⟨rfl, -⟩ | ⟨-, hm⟩
    · exact hn
    · exact h.quiet_made i m hm
  quiet_written := h.quiet_written

theorem register {n : String} {m : Made} (hm : l.made n = some m) {es : List (String × Host.Value)}
    (hes : m.value = .table es) {w : Value} (hw : Wraps s f w) (k : String) :
    Realizes s₀ (l.set n (m.register k f)) place (s.rawSet (place n) (.ofString k) w) where
  toDescribes := h.toDescribes.register hg hm hes hw k
  quiet_made i m' hm' := by
    rcases Ledger.of_made_set hm' with ⟨rfl, -⟩ | ⟨-, hm'⟩
    · exact h.quiet_made i m hm
    · exact h.quiet_made i m' hm'
  quiet_written := h.quiet_written

omit hg in
theorem write {r : TableRef} (hr : r < s₀.tables.size) (hrg : r ≠ s₀.globals) {w : Value} (hw : Wraps s f w)
    {k : String} (hk : Quiet s₀ r k) : Realizes s₀ (l.write r k f) place (s.rawSet r (.ofString k) w) where
  toDescribes := h.toDescribes.write hr hrg hw k
  quiet_made := h.quiet_made
  quiet_written r' k' f' hf' := by
    rcases Ledger.of_written_write hf' with ⟨rfl, rfl, -⟩ | hf'
    · exact hk
    · exact h.quiet_written r' k' f' hf'

omit hg in
/-- The host makes no handler for reading or writing, and takes none away. -/
theorem handler {r : TableRef} (hr : r < s₀.tables.size) (hclosed : s₀.Closed) {event : String}
    (he : event = "__index" ∨ event = "__newindex") :
    (Value.table r).handler s event = (Value.table r).handler s₀ event := by
  have hloud {q : TableRef} (hq : s₀.metatable? r = some q) : ¬Quiet s₀ q event := by
    intro hquiet
    obtain ⟨hindex, hnewindex⟩ := hquiet r hq
    exact he.elim hindex hnewindex
  simp only [Value.handler, h.metatable r hr]
  cases hq : s₀.metatable? r with
  | none => rfl
  | some q =>
    by_cases hqg : q = s₀.globals
    · subst hqg
      apply h.global _
      intro n hn
      obtain rfl := ofString_injective hn
      cases hm : l.made event with
      | none => rfl
      | some m => exact absurd (h.quiet_made event m hm) (hloud hq)
    · refine (h.table q (hclosed.metatable r q hq) hqg _).2 ?_
      rw [asKey_ofString, registered_ofString]
      cases hf : l.written q event with
      | none => rfl
      | some f => exact absurd (h.quiet_written q event f hf) (hloud hq)

end Realizes

/-! ### Making changes -/

section Running

variable (c : Channel)

/-- A global whose value is no error object with a waiting fault can be read. -/
theorem pushGlobal_of_clear {s : State} (hi : (Value.table s.globals).handler s "__index" = .nil) {n : String}
    (hf : ∀ r message, s.rawGet s.globals (.ofString n) = .failure r → s.failure r ≠ .fatal message)
    (st : List Value) : ∃ w, pushGlobal n c ⟨st, s⟩ = .done () ⟨w :: st, s⟩ ∧
      ∀ r, w = .table r ↔ s.rawGet s.globals (.ofString n) = .table r := by
  by_cases hv : ∃ r, s.rawGet s.globals (.ofString n) = .failure r
  · obtain ⟨r, hv⟩ := hv
    have hread : readFrom s.globals (.ofString n) c ⟨st, s⟩ = receive (.failure r) c ⟨st, s⟩ := by
      rw [readFrom_run c fun _ => hi, hv]
    cases hr : s.failure r with
    | error text =>
      have hdone : readFrom s.globals (.ofString n) c ⟨st, s⟩ = .done (.failure r) ⟨st, s⟩ := by
        simp only [hread, receive, state_bind, hr]
        rfl
      exact ⟨.failure r, bind_done hdone push, fun r' => by simp [hv]⟩
    | fatal message => exact absurd hr (hf r message hv)
    | spent =>
      have hdone : readFrom s.globals (.ofString n) c ⟨st, s⟩ = .done .nil ⟨st, s⟩ := by
        simp only [hread, receive, state_bind, hr]
        rfl
      exact ⟨.nil, bind_done hdone push, fun r' => by simp [hv]⟩
  · exact ⟨_, pushGlobal_run c rfl (fun _ => hi) (fun r hr => hv ⟨r, hr⟩) st, fun r' => Iff.rfl⟩

/-- The state after a registration in a table. -/
def registeredIn (r : TableRef) (space name : String) (f : HostFunction) (s : State) : State :=
  ((s.wrap f).2.rawSet r (.ofString name) (.function (s.wrap f).1)).emit .call .debug
    ("Registered host function " ++ space ++ "." ++ name)

theorem registerOnTop_run {s : State} {r : TableRef} (hr : (Value.table r).handler s "__newindex" = .nil)
    (space name : String) (f : HostFunction) (st : List Value) :
    registerOnTop space name f c ⟨.table r :: st, s⟩ = .done () ⟨st, registeredIn r space name f s⟩ := by
  have hr' : (Value.table r).handler (s.wrap f).2 "__newindex" = .nil := by
    simpa only [Value.handler, State.metatable?, State.rawGet, State.table, State.tables_wrap] using hr
  have hset := setTable_run c hr' (k := .ofString name) rfl st (.function (s.wrap f).1)
  change (setTable >>= _) c ⟨.function (s.wrap f).1 :: .ofString name :: .table r :: st, (s.wrap f).2⟩ = _
  rw [bind_done hset]
  rfl

theorem registerFunction_of_table {s : State} {space : String} {r : TableRef}
    (hv : s.rawGet s.globals (.ofString space) = .table r)
    (hr : (Value.table r).handler s "__newindex" = .nil) (name : String) (f : HostFunction) (st : List Value) :
    registerFunction space name f c ⟨st, s⟩ = .done () ⟨st, registeredIn r space name f s⟩ := by
  rw [registerFunction_eq]
  apply balanced_done
  rw [bind_done (pushGlobal_run c hv (by simp) (by simp) st)]
  exact registerOnTop_run c hr space name f st

/-- The state after a global gets a new table. -/
def withNewTable (n : String) (s : State) : State :=
  (s.newTable {}).2.rawSet s.globals (.ofString n) (.table s.tables.size)

theorem rawGet_withNewTable {s : State} (hg : s.globals < s.tables.size) (n : String) :
    (withNewTable n s).rawGet s.globals (.ofString n) = .table s.tables.size := by
  have hlt : s.globals < (s.newTable {}).2.tables.size := by
    rw [State.size_newTable]
    exact Nat.lt_succ_of_lt hg
  rw [withNewTable, State.rawGet_rawSet_self hlt, if_pos rfl]

/-- A global without a table gets a new one first. -/
theorem registerFunction_of_no_table {s : State} {space : String} {st : List Value} {w : Value}
    (hpush : pushGlobal space c ⟨st, s⟩ = .done () ⟨w :: st, s⟩) (hkind : Host.Kind.of? w ≠ some .table)
    (hg : s.globals < s.tables.size) (hn : (Value.table s.globals).handler (s.newTable {}).2 "__newindex" = .nil)
    (name : String) (f : HostFunction) :
    registerFunction space name f c ⟨st, s⟩ =
      .done () ⟨st, registeredIn s.tables.size space name f (withNewTable space s)⟩ := by
  have hstore : popIntoGlobal space c ⟨.table s.tables.size :: st, (s.newTable {}).2⟩ =
      .done () ⟨st, withNewTable space s⟩ :=
    storeIn_run c hn (k := .ofString space) rfl st (.table s.tables.size)
  have hpush' := pushGlobal_run (s := withNewTable space s) c (rawGet_withNewTable hg space) (by simp) (by simp) st
  have hr : (withNewTable space s).metatable? s.tables.size = none := by
    rw [withNewTable, State.metatable?_rawSet, State.metatable?, State.table_newTable, if_pos rfl]
  rw [registerFunction_eq]
  apply balanced_done
  rw [bind_done hpush, topKind_bind]
  change (if Host.Kind.of? w = some .table then _ else _ : Exchange Unit) c ⟨w :: st, s⟩ = _
  rw [if_neg hkind]
  change (popIntoGlobal space >>= _) c ⟨.table s.tables.size :: st, (s.newTable {}).2⟩ = _
  rw [bind_done hstore, bind_done hpush']
  exact registerOnTop_run c (State.handler_of_metatable? hr _) space name f st

end Running

/-- The table that the script left in a global. -/
def held (s₀ : State) (n : String) : Option TableRef :=
  match s₀.rawGet s₀.globals (.ofString n) with
  | .table r => some r
  | _ => none

theorem held_eq_some {s₀ : State} {n : String} {r : TableRef} :
    held s₀ n = some r ↔ s₀.rawGet s₀.globals (.ofString n) = .table r := by
  unfold held
  split
  next r' h => simp [h]
  next h =>
    constructor
    · intro hc
      cases hc
    · intro hc
      exact absurd hc (h r)

theorem held_lt {s₀ : State} (h : s₀.Closed) {n : String} {r : TableRef} (hr : held s₀ n = some r) :
    r < s₀.tables.size := by
  have hv := h.rawGet s₀.globals (.ofString n)
  rw [held_eq_some.1 hr] at hv
  exact hv

theorem copy_newTable (s : State) : Copy (s.newTable {}).2 (.table []) s.tables.size (.table s.tables.size) := by
  have hnew : (s.newTable {}).2.table s.tables.size = {} := by rw [State.table_newTable, if_pos rfl]
  refine ⟨rfl, by simp, ?_, ?_⟩
  · rw [State.metatable?, hnew]
  · rw [hnew]
    rfl

namespace Describes

variable {s₀ : State} {l : Ledger} {place : String → Nat} (h : Describes s₀ l place s)
  (hg : s₀.globals < s₀.tables.size)
include h hg

theorem withNewTable (n : String) :
    Describes s₀ (l.set n (.new (.table []))) (Function.update place n s.tables.size) (withNewTable n s) := by
  have hset := (h.extend hg (.newTable s {})).set hg (copy_newTable s) h.size (by simp [extent, extentEntries])
    (fun n m hm => (h.made n m hm).fits) n
  rwa [← h.globals] at hset

variable (hl : s₀.Linked)
include hl

omit hg in
theorem wraps (f : HostFunction) : Wraps (s.wrap f).2 f (.function (s.wrap f).1) :=
  ⟨_, rfl, (h.linked hl).hostFunction?_wrap f⟩

theorem registeredIn {n : String} {m : Made} (hm : l.made n = some m) {es : List (String × Host.Value)}
    (hes : m.value = .table es) (space k : String) (f : HostFunction) :
    Describes s₀ (l.set n (m.register k f)) place (registeredIn (place n) space k f s) :=
  ((h.extend hg (.wrap s f)).register hg hm hes (h.wraps hl f) k).extend hg (.emit _ _ _ _)

theorem writtenIn {r : TableRef} (hr : r < s₀.tables.size) (hrg : r ≠ s₀.globals) (space k : String)
    (f : HostFunction) : Describes s₀ (l.write r k f) place (Live.registeredIn r space k f s) :=
  ((h.extend hg (.wrap s f)).write hr hrg (h.wraps hl f) k).extend hg (.emit _ _ _ _)

end Describes

/-- A state that no host has touched, whose globals can be read and written past handlers. -/
structure Plain (s₀ : State) : Prop extends s₀.Secluded where
  index : (Value.table s₀.globals).handler s₀ "__index" = .nil
  newindex : (Value.table s₀.globals).handler s₀ "__newindex" = .nil

theorem Plain.lt {s₀ : State} (h : Plain s₀) : s₀.globals < s₀.tables.size := h.closed.globals

theorem Plain.linked {s₀ : State} (h : Plain s₀) : s₀.Linked := by
  intro f r hr
  rw [h.wrappers] at hr
  cases hr

theorem Plain.named {s₀ : State} (h : Plain s₀) : s₀.Named :=
  fun f r hr => absurd (State.hostFunction?_eq_some.1 hr) (h.hostless r f)

/-- The host puts proper values into globals, writes into tables without a handler for that, and makes
no handlers. -/
def Change.Fits (s₀ : State) : Change → Prop
  | .global n v => v.Distinct ∧ Quiet s₀ s₀.globals n
  | .function n k _ =>
    match held s₀ n with
    | some r => (Value.table r).handler s₀ "__newindex" = .nil ∧ Quiet s₀ r k
    | none => Quiet s₀ s₀.globals n

section Steps

variable {s₀ : State} {l : Ledger} {place : String → Nat} (hp : Plain s₀) (h : Realizes s₀ l place s)
include hp h

theorem Realizes.index : (Value.table s.globals).handler s "__index" = .nil := by
  rw [h.globals, h.handler hp.lt hp.closed (.inl rfl), hp.index]

theorem Realizes.newindex : (Value.table s.globals).handler s "__newindex" = .nil := by
  rw [h.globals, h.handler hp.lt hp.closed (.inr rfl), hp.newindex]

theorem Realizes.withNewTable {n : String} (hn : Quiet s₀ s₀.globals n) :
    Realizes s₀ (l.set n (.new (.table []))) (Function.update place n s.tables.size) (withNewTable n s) := by
  have hset := (h.extend hp.lt (.newTable s {})).set hp.lt (copy_newTable s) h.size (by simp [extent, extentEntries])
    (fun n m hm => (h.made n m hm).fits) hn
  rwa [← h.globals] at hset

theorem Realizes.registeredIn {n : String} {m : Made} (hm : l.made n = some m) {es : List (String × Host.Value)}
    (hes : m.value = .table es) (space k : String) (f : HostFunction) :
    Realizes s₀ (l.set n (m.register k f)) place (registeredIn (place n) space k f s) :=
  ((h.extend hp.lt (.wrap s f)).register hp.lt hm hes (h.wraps hp.linked f) k).extend hp.lt (.emit _ _ _ _)

/-- A registration under a global whose value is no table. -/
theorem registerFunction_run_new {n : String} (hn : Quiet s₀ s₀.globals n)
    (hv : ∀ r, s.rawGet s.globals (.ofString n) ≠ .table r) (k : String) (f : HostFunction) (c : Channel)
    (st : List Value) : ∃ place' s', registerFunction n k f c ⟨st, s⟩ = .done () ⟨st, s'⟩ ∧
      Realizes s₀ (l.set n ((Made.new (.table [])).register k f)) place' s' := by
  have hlt : s.globals < s.tables.size := by
    rw [h.globals]
    exact Nat.lt_of_lt_of_le hp.lt h.size
  have hclear (r : Nat) (message : String) (_ : s.rawGet s.globals (.ofString n) = .failure r) :
      s.failure r ≠ .fatal message := by
    rw [State.failure, h.failures, hp.failures]
    simp
  obtain ⟨w, hpush, hw⟩ := pushGlobal_of_clear c (h.index hp) hclear st
  have hkind : Host.Kind.of? w ≠ some .table := by
    intro hc
    cases w with
    | table r => exact hv r ((hw r).1 rfl)
    | _ => cases hc
  have hnew := h.withNewTable hp hn
  have hrun := registerFunction_of_no_table c hpush hkind hlt
    ((h.extend hp.lt (.newTable s {})).newindex hp) k f
  have hreg := hnew.registeredIn hp (Ledger.made_set_self ..) rfl n k f
  rw [Ledger.set_set, Function.update_self] at hreg
  exact ⟨_, _, hrun, hreg⟩

/-- A registration under a global that still holds a table of the script. -/
theorem registerFunction_run_held {n : String} {r : TableRef} (hmade : l.made n = none) (hheld : held s₀ n = some r)
    (hr : (Value.table r).handler s₀ "__newindex" = .nil) (k : String) (f : HostFunction) (c : Channel)
    (st : List Value) : registerFunction n k f c ⟨st, s⟩ = .done () ⟨st, registeredIn r n k f s⟩ := by
  have hget : s.rawGet s.globals (.ofString n) = .table r := by
    rw [h.globals, ← held_eq_some.1 hheld]
    apply h.global _
    intro n' hn'
    rw [← ofString_injective hn', hmade]
  have hnewindex := (h.handler (held_lt hp.closed hheld) hp.closed (.inr rfl)).trans hr
  exact registerFunction_of_table c hget hnewindex k f st

/-- A registration in the table of globals sets a global. -/
theorem registerFunction_run_global {n k : String} {f : HostFunction} (hc : (Change.function n k f).Fits s₀)
    (hmade : l.made n = none) (hheld : held s₀ n = some s₀.globals) (c : Channel) (st : List Value) :
    ∃ place' s', registerFunction n k f c ⟨st, s⟩ = .done () ⟨st, s'⟩ ∧
      Realizes s₀ (l.set k (.new (.function f))) place' s' := by
  simp only [Change.Fits, hheld] at hc
  have hrun := registerFunction_run_held hp h hmade hheld hc.1 k f c st
  have hset := (h.extend hp.lt (.wrap s f)).set hp.lt (v := .function f) (h.wraps hp.linked f) h.size
    (by simp [extent]) (fun n m hm => (h.made n m hm).fits) hc.2
  exact ⟨_, _, hrun, hset.extend hp.lt (.emit _ _ _ _)⟩

/-- A registration under a global that the host made. -/
theorem registerFunction_run_made {n : String} {m : Made} (hmade : l.made n = some m) (k : String) (f : HostFunction)
    (c : Channel) (st : List Value) : ∃ place' s', registerFunction n k f c ⟨st, s⟩ = .done () ⟨st, s'⟩ ∧
      Realizes s₀ (l.set n (m.opened.register k f)) place' s' := by
  have hholds := (h.made n m hmade).holds
  rw [← h.globals] at hholds
  by_cases hes : ∃ es, m.value = .table es
  · obtain ⟨es, hes⟩ := hes
    rw [Holds, hes] at hholds
    obtain ⟨hv, hmt, -⟩ := hholds
    have hrun := registerFunction_of_table c hv
      (State.handler_of_metatable? hmt _) k f st
    rw [Made.opened_of_table hes]
    exact ⟨place, _, hrun, h.registeredIn hp hmade hes n k f⟩
  · have hv : ∀ r, s.rawGet s.globals (.ofString n) ≠ .table r := by
      intro r hr
      obtain ⟨v, fs⟩ := m
      rw [hr] at hholds
      cases v with
      | table es => exact hes ⟨es, rfl⟩
      | function g =>
        obtain ⟨r', hr', -⟩ := hholds
        cases hr'
      | _ => cases hholds
    have hopened : m.opened = .new (.table []) := by
      unfold Made.opened
      split
      next es he => exact absurd ⟨es, he⟩ hes
      next => rfl
    rw [hopened]
    exact registerFunction_run_new hp h (h.quiet_made n m hmade) hv k f c st

/-- A registration under a global in which the script left no table. -/
theorem registerFunction_run_unheld {n : String} (hmade : l.made n = none) (hheld : held s₀ n = none)
    (hn : Quiet s₀ s₀.globals n) (k : String) (f : HostFunction) (c : Channel) (st : List Value) :
    ∃ place' s', registerFunction n k f c ⟨st, s⟩ = .done () ⟨st, s'⟩ ∧
      Realizes s₀ (l.set n ((Made.new (.table [])).register k f)) place' s' := by
  have hget : s.rawGet s.globals (.ofString n) = s₀.rawGet s₀.globals (.ofString n) := by
    rw [h.globals]
    apply h.global _
    intro n' hn'
    rw [← ofString_injective hn', hmade]
  refine registerFunction_run_new hp h hn (fun r hr => ?_) k f c st
  rw [held_eq_some.2 (hget.symm.trans hr)] at hheld
  cases hheld

/-- A registration follows the ledger: it goes into the table that the host made, else into the one
that the script left, else into a new one. -/
theorem registerFunction_run {n k : String} {f : HostFunction} (hc : (Change.function n k f).Fits s₀)
    (hg : held s₀ n ≠ some s₀.globals) (c : Channel) (st : List Value) :
    ∃ place' s', registerFunction n k f c ⟨st, s⟩ = .done () ⟨st, s'⟩ ∧
      Realizes s₀ (l.step (held s₀) (.function n k f)) place' s' := by
  cases hmade : l.made n with
  | some m =>
    simp only [Ledger.step, Ledger.target, hmade]
    exact registerFunction_run_made hp h hmade k f c st
  | none =>
    cases hheld : held s₀ n with
    | some r =>
      simp only [Change.Fits, hheld] at hc
      have hrg : r ≠ s₀.globals := by
        rintro rfl
        exact hg hheld
      have hwrite := (h.extend hp.lt (.wrap s f)).write (held_lt hp.closed hheld) hrg (h.wraps hp.linked f) hc.2
      simp only [Ledger.step, Ledger.target, hmade, hheld]
      exact ⟨place, _, registerFunction_run_held hp h hmade hheld hc.1 k f c st, hwrite.extend hp.lt (.emit _ _ _ _)⟩
    | none =>
      simp only [Change.Fits, hheld] at hc
      simp only [Ledger.step, Ledger.target, hmade, hheld]
      exact registerFunction_run_unheld hp h hmade hheld hc k f c st

/-- A change runs to its end and does what the ledger says. -/
theorem change_run {ch : Change} (hc : ch.Fits s₀)
    (hg : ∀ n k f, ch = .function n k f → held s₀ n = some s₀.globals → l.made n = none) (c : Channel)
    (st : List Value) : ∃ place' s', ch.apply c ⟨st, s⟩ = .done () ⟨st, s'⟩ ∧
      Realizes s₀ (l.step (held s₀) (ch.resolve (held s₀) s₀.globals)) place' s' := by
  cases ch with
  | function n k f =>
    by_cases hheld : held s₀ n = some s₀.globals
    · rw [Change.resolve, if_pos hheld]
      exact registerFunction_run_global hp h hc (hg n k f rfl hheld) hheld c st
    · rw [Change.resolve, if_neg hheld]
      exact registerFunction_run hp h hc hheld c st
  | global n v =>
    obtain ⟨w, s₁, hrun, he, hsize, hw⟩ := pushHost_run v hc.1 s (h.linked hp.linked)
    have h₁ := h.extend hp.lt he
    have hstore : popIntoGlobal n c ⟨w :: st, s₁⟩ = .done () ⟨st, s₁.rawSet s₁.globals (.ofString n) w⟩ :=
      storeIn_run c (h₁.newindex hp) (k := .ofString n) rfl st w
    have hset := h₁.set hp.lt hw h.size (Nat.le_of_eq hsize.symm) (fun n m hm => (h.made n m hm).fits) hc.2
    refine ⟨_, _, ?_, hset⟩
    rw [Change.apply, bind_done (hrun c st), hstore, h₁.globals]

end Steps

/-- Changes that the host can make on the state that a script left, past all handlers. A global that
held the table of globals, and through which the host registers functions there, stays as it is. -/
structure Fitting (s₀ : State) (cs : Changes) : Prop where
  fits : ∀ ch ∈ cs, ch.Fits s₀
  stays : ∀ n k f, .function n k f ∈ cs → held s₀ n = some s₀.globals →
    ∀ v, .global n v ∉ cs.map (·.resolve (held s₀) s₀.globals)

theorem Fitting.subset {s₀ : State} {cs ds : Changes} (h : Fitting s₀ cs) (hs : ds ⊆ cs) : Fitting s₀ ds where
  fits ch hch := h.fits ch (hs hch)
  stays n k f hf hn v hv := h.stays n k f (hs hf) hn v (List.map_subset _ hs hv)

/-- Without metatables it is enough that the host registers nothing in the table of globals. -/
theorem fitting_of_no_metatable {s₀ : State} (hm : ∀ q, s₀.metatable? q = none) {cs : Changes}
    (hv : ∀ n v, .global n v ∈ cs → v.Distinct)
    (hg : ∀ n k f, .function n k f ∈ cs → held s₀ n ≠ some s₀.globals) : Fitting s₀ cs where
  fits ch hch := by
    have hquiet (r : TableRef) (k : String) : Quiet s₀ r k := by
      intro q hq
      rw [hm] at hq
      cases hq
    cases ch with
    | global n v => exact ⟨hv n v hch, hquiet _ n⟩
    | function n k f =>
      rw [Change.Fits]
      split
      · exact ⟨State.handler_of_metatable? (hm _) _, hquiet _ k⟩
      · exact hquiet _ n
  stays n k f hf hn := absurd hn (hg n k f hf)

/-- A list of changes runs to its end, and the state is the one that its ledger describes. -/
theorem changes_run {s₀ : State} (hp : Plain s₀) {all cs : Changes} (hall : Fitting s₀ all) (hcs : cs ⊆ all)
    {l : Ledger} (hl : l.Sourced (held s₀) (all.map (·.resolve (held s₀) s₀.globals))) {place : String → Nat}
    (h : Realizes s₀ l place s) (c : Channel) (st : List Value) :
    ∃ place' s', cs.apply c ⟨st, s⟩ = .done () ⟨st, s'⟩ ∧
      Realizes s₀ ((cs.map (·.resolve (held s₀) s₀.globals)).foldl (Ledger.step (held s₀)) l) place' s' := by
  induction cs generalizing l place s with
  | nil => exact ⟨place, s, rfl, h⟩
  | cons ch cs ih =>
    have hch : ch ∈ all := hcs List.mem_cons_self
    have hg : ∀ n k f, ch = .function n k f → held s₀ n = some s₀.globals → l.made n = none := by
      rintro n k f rfl hheld
      cases hm : l.made n with
      | none => rfl
      | some m =>
        rcases hl.made n m hm with hn | ⟨v, hv⟩
        · rw [hheld] at hn
          cases hn
        · exact absurd hv (hall.stays n k f hch hheld v)
    obtain ⟨place₁, s₁, hrun, h₁⟩ := change_run hp h (hall.fits ch hch) hg c st
    have hl₁ := hl.step (List.mem_map_of_mem (f := (·.resolve (held s₀) s₀.globals)) hch)
    obtain ⟨place', s', hruns, h'⟩ := ih (fun d hd => hcs (List.mem_cons_of_mem _ hd)) hl₁ h₁
    refine ⟨place', s', ?_, h'⟩
    rw [Changes.apply, bind_done hrun, hruns]

end ScriptHost.Live
