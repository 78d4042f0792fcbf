import Mathlib.Data.List.Count
import ScriptHost.Proofs.OrderedTables

/-! The account of a drain. Unless a fault waits in an error object on the way, the host table holds the last
storable entry of every spelling, and each entry of a drained table is either in the host table for it or
the reason of one warning among those for that table. -/

namespace ScriptHost.Exchange

open Script (State TableRef Value)
open Host (Table)

variable {α β : Type} {s : State}

/-! ### Runs to the last event -/

/-- On every stack and through every channel the exchange takes the given values off the stack, answers `a`
and changes nothing but the log, to which it adds the events. A fault that waits stops it instead. -/
structure Settles (s : State) (waiting : String → Prop) (ws : List Value) (m : Exchange α) (a : α)
    (es : List Event) : Prop where
  clear (h : ∀ message, ¬waiting message) (log : List Event) (c : Channel) (st : List Value) :
    m c ⟨ws ++ st, { s with log }⟩ = .done a ⟨st, { s with log := es.reverse ++ log }⟩
  stops (h : ∃ message, waiting message) (log : List Event) :
    ∃ message t, waiting message ∧ ∀ c st, m c ⟨ws ++ st, { s with log }⟩ = .stopped (.carried message) t

namespace Settles

variable {waiting waiting' : String → Prop} {ws ws' : List Value} {m : Exchange α} {a : α} {es es' : List Event}

theorem of_done (h : ∀ log c st, m c ⟨ws ++ st, { s with log }⟩ = .done a ⟨st, { s with log := es.reverse ++ log }⟩) :
    Settles s (fun _ => False) ws m a es where
  clear _ := h
  stops hwaiting := hwaiting.elim fun _ => False.elim

theorem pure (a : α) : Settles s (fun _ => False) [] (pure a : Exchange α) a [] := .of_done fun _ _ _ => rfl

theorem emit (origin : Origin) (level : Level) (message : String) :
    Settles s (fun _ => False) [] (emit origin level message) () [⟨origin, level, message⟩] :=
  .of_done fun _ _ _ => rfl

theorem congr (hm : Settles s waiting ws m a es) (h : ∀ message, waiting message ↔ waiting' message)
    (hes : es = es') : Settles s waiting' ws m a es' := by
  obtain rfl : waiting = waiting' := funext fun message => propext (h message)
  exact hes ▸ hm

/-- What runs alike over these values settles alike. -/
theorem alike (hm : Settles s waiting ws m a es) {m' : Exchange α}
    (h : ∀ c st log, m' c ⟨ws ++ st, { s with log }⟩ = m c ⟨ws ++ st, { s with log }⟩) :
    Settles s waiting ws m' a es where
  clear hclear log c st := (h c st log).trans (hm.clear hclear log c st)
  stops hwaiting log := by
    obtain ⟨message, t, hmessage, hstopped⟩ := hm.stops hwaiting log
    exact ⟨message, t, hmessage, fun c st => (h c st log).trans (hstopped c st)⟩

theorem bind (hm : Settles s waiting ws m a es) {g : α → Exchange β} {b : β}
    (hg : Settles s waiting' ws' (g a) b es') :
    Settles s (fun message => waiting message ∨ waiting' message) (ws ++ ws') (m >>= g) b (es ++ es') where
  clear h log c st := by
    have hfirst := hm.clear (fun message hw => h message (.inl hw)) log c (ws' ++ st)
    rw [List.append_assoc, bind_done hfirst, hg.clear (fun message hw => h message (.inr hw)), List.reverse_append,
      List.append_assoc]
  stops h log := by
    by_cases hw : ∃ message, waiting message
    · obtain ⟨message, t, hwaiting, hstopped⟩ := hm.stops hw log
      exact ⟨message, t, .inl hwaiting, fun c st => by rw [bind_run, List.append_assoc, hstopped]⟩
    · have hclear : ∀ message, ¬waiting message := not_exists.1 hw
      obtain ⟨message, t, hwaiting, hstopped⟩ :=
        hg.stops (h.imp fun message hor => hor.resolve_left (hclear message)) (es.reverse ++ log)
      refine ⟨message, t, .inr hwaiting, fun c st => ?_⟩
      rw [List.append_assoc, bind_done (hm.clear hclear log c (ws' ++ st)), hstopped]

/-- After an exchange in which nothing can wait. -/
theorem after (hm : Settles s (fun _ => False) [] m a es) {g : α → Exchange β} {b : β}
    (hg : Settles s waiting ws (g a) b es') : Settles s waiting ws (m >>= g) b (es ++ es') :=
  (hm.bind hg).congr (fun _ => iff_of_eq (false_or _)) rfl

end Settles

/-! ### Crossing -/

theorem receive_clear {v : Value} (h : ∀ message, ¬Waits s message v) (c : Channel) (st : List Value)
    (log : List Event) : receive v c ⟨st, { s with log }⟩ = .done (received s v) ⟨st, { s with log }⟩ := by
  cases v with
  | failure r =>
    cases hr : s.failure r with
    | fatal message => exact absurd ⟨r, rfl, hr⟩ (h message)
    | error | spent =>
      have hr' : State.failure { s with log } r = s.failure r := rfl
      simp only [receive, state_bind, hr', hr, received]
      rfl
  | _ => rfl

theorem receive_settles (v : Value) : Settles s (Waits s · v) [] (receive v) (received s v) [] where
  clear h log c st := receive_clear h c st log
  stops := by
    rintro ⟨message, r, rfl, hr⟩ log
    refine ⟨message, { s.spend r with log }, ⟨r, rfl, hr⟩, fun c st => ?_⟩
    have hr' : State.failure { s with log } r = .fatal message := hr
    simp only [receive, state_bind, List.nil_append, hr']
    rfl

/-- The pairs of a table as the host receives them. -/
def crossed (s : State) (ps : List (Value × Value)) : List (Value × Value) :=
  ps.map fun p => (received s p.1, received s p.2)

theorem receivePairs_settles (ps : List (Value × Value)) :
    Settles s (Laid s ps) [] (receivePairs ps) (crossed s ps) [] := by
  induction ps with
  | nil => exact (Settles.pure _).congr (by simp [Laid]) rfl
  | cons p ps ih =>
    refine .congr (.bind (receive_settles p.1) (.bind (receive_settles p.2) (.bind ih (.pure _))))
      (fun message => ?_) rfl
    simp only [Laid, List.exists_mem_cons_iff, or_assoc, or_false]

theorem entriesOf_settles (r : TableRef) :
    Settles s (Laid s (s.table r).pairs) [] (entriesOf r) (crossed s (s.table r).pairs) [] :=
  (receivePairs_settles (s.table r).pairs).alike fun _ _ _ => rfl

/-! ### What is said about a table -/

/-- An event of a drain, and where it comes from: the positions of the entries that lead to the table. -/
abbrev Note := List Nat × Event

/-- What a drain says about the table it began with. -/
def remark (level : Level) (message : String) : Note := ([], ⟨.table, level, message⟩)

/-- The warning about an entry that comes over what is in the host table already. -/
def warning? (s : State) (sub : TableRef → Table) (t : Table) (p : Value × Value) : Option String :=
  match Host.keySpelling? p.1 with
  | none => some ("Skipping table entry with unsupported " ++ p.1.description ++ " key")
  | some key =>
    match stored? s sub p.2 with
    | none => some ("Skipping value of key \"" ++ key ++ "\" the host cannot store")
    | some _ => (t.find? key).map fun previous =>
      "Script keys collide on \"" ++ key ++ "\", dropping earlier " ++ previous.kind.name ++ " value"

/-- What is said about the table under an entry, if it is drained. -/
def within (inner : TableRef → List Note) (p : Value × Value) : List Note :=
  match Host.keySpelling? p.1, p.2 with
  | some _, .table r => inner r
  | _, _ => []

/-- The notes of a table, seen from one that has it at position `i`. -/
def under (i : Nat) (ns : List Note) : List Note := ns.map fun n => (i :: n.1, n.2)

/-- What is said about entries from position `i` on. -/
def notes (s : State) (sub : TableRef → Table) (inner : TableRef → List Note) :
    Nat → List (Value × Value) → Table → List Note
  | _, [], _ => []
  | i, p :: ps, t =>
    under i (within inner p) ++ (warning? s sub t p).toList.map (remark .warn) ++
      notes s sub inner (i + 1) ps (gather s sub [p] t)

/-- All that is said when a table is drained, nested tables at most `n` deep. -/
def ledger (s : State) : Nat → TableRef → List Note
  | 0, _ => []
  | n + 1, r =>
    notes s (drained s n) (ledger s n) 0 (crossed s (s.table r).pairs) {} ++
      [remark .debug ("Drained script table into " ++ toString (drained s (n + 1) r).size ++ " entries")]

theorem gather_cons (sub : TableRef → Table) (p : Value × Value) (ps : List (Value × Value)) (t : Table) :
    gather s sub (p :: ps) t = gather s sub ps (gather s sub [p] t) := by
  obtain ⟨k, v⟩ := p
  simp only [gather]
  split <;> rfl

/-! ### Drains -/

/-- The second table lies in the first under a key that the host can spell. -/
def Drains (s : State) (r r' : TableRef) : Prop :=
  ∃ p ∈ (s.table r).pairs, (Host.keySpelling? p.1).isSome ∧ p.2 = .table r'

/-- Faults in the tables that a drain goes over. -/
def Waiting (s : State) (r : TableRef) (message : String) : Prop :=
  ∃ r', Relation.ReflTransGen (Drains s) r r' ∧ Laid s (s.table r').pairs message

theorem Drains.inner {r r' : TableRef} (h : Drains s r r') : Inner s r r' := by
  obtain ⟨⟨k, v⟩, hp, -, rfl⟩ := h
  exact ⟨k, hp⟩

/-- A fault waits in the table itself or in one of those that are drained for its entries. -/
theorem waiting_iff {r : TableRef} {message : String} :
    Waiting s r message ↔ Laid s (s.table r).pairs message ∨
      ∃ p ∈ crossed s (s.table r).pairs, (Host.keySpelling? p.1).isSome ∧
        ∃ r', p.2 = .table r' ∧ Waiting s r' message := by
  constructor
  · rintro ⟨r', hway, hlaid⟩
    rcases Relation.ReflTransGen.cases_head hway with rfl | ⟨q, ⟨p, hp, hk, hq⟩, hway⟩
    · exact .inl hlaid
    · refine .inr ⟨_, List.mem_map.2 ⟨p, hp, rfl⟩, ?_, q, ?_, r', hway, hlaid⟩
      · rwa [keySpelling?_received]
      · rw [hq]
        rfl
  · rintro (hlaid | ⟨_, hp, hk, q, hq, r', hway, hlaid⟩)
    · exact ⟨r, .refl, hlaid⟩
    · obtain ⟨p, hmem, rfl⟩ := List.mem_map.1 hp
      rw [keySpelling?_received] at hk
      exact ⟨r', hway.head ⟨p, hmem, hk, eq_table_of_received hq⟩, hlaid⟩

section Draining

variable {sub : TableRef → Exchange Table} {sub' : TableRef → Table} {inner : TableRef → List Note}
  {waiting : TableRef → String → Prop}

theorem keep_settles (t : Table) (key : String) (v : Host.Value) :
    Settles s (fun _ => False) [] (keep t key v) (t.set key v)
      (((t.find? key).map fun previous => "Script keys collide on \"" ++ key ++ "\", dropping earlier " ++
        previous.kind.name ++ " value").toList.map fun message => ⟨.table, .warn, message⟩) := by
  unfold keep
  cases t.find? key with
  | none => exact .pure _
  | some previous => exact .after (.emit _ _ _) (.pure _)

/-- The events without their places. -/
def events (ns : List Note) : List Event := ns.map (·.2)

@[simp] theorem events_append (ns ns' : List Note) : events (ns ++ ns') = events ns ++ events ns' :=
  List.map_append

@[simp] theorem events_under (i : Nat) (ns : List Note) : events (under i ns) = events ns := by
  simp [events, under]

@[simp] theorem events_remarks (level : Level) (ms : List String) :
    events (ms.map (remark level)) = ms.map fun message => ⟨.table, level, message⟩ := by
  simp [events, remark, Function.comp_def]

theorem events_notes_cons (i : Nat) (p : Value × Value) (ps : List (Value × Value)) (t : Table) :
    events (notes s sub' inner i (p :: ps) t) =
      events (within inner p) ++ (warning? s sub' t p).toList.map (fun message => ⟨.table, .warn, message⟩) ++
        events (notes s sub' inner (i + 1) ps (gather s sub' [p] t)) := by
  rw [notes, events_append, events_append, events_under, events_remarks]

theorem convert?_settles {k v : Value} (hk : (Host.keySpelling? k).isSome)
    (hsub : ∀ r, v = .table r → Settles s (waiting r) [] (sub r) (sub' r) (events (inner r))) :
    Settles s (fun message => ∃ r, v = .table r ∧ waiting r message) [] (convert? sub v) (stored? s sub' v)
      (events (within inner (k, v))) := by
  obtain ⟨key, hkey⟩ := Option.isSome_iff_exists.1 hk
  cases v with
  | table r =>
    refine .congr (.bind (hsub r rfl) (.pure _)) (fun message => ?_) ?_
    · simp
    · simp [within, hkey, events]
  | function r =>
    have hfunction : Settles s (fun _ => False) [] (convert? sub (.function r)) (stored? s sub' (.function r)) [] :=
      .of_done fun _ _ _ => rfl
    refine hfunction.congr (fun message => ?_) ?_
    · simp
    · simp [within, hkey, events]
  | _ =>
    refine .congr (.pure _) (fun message => ?_) ?_
    · simp
    · simp [within, hkey, events]

theorem drainPairs_settles (i : Nat) (ps : List (Value × Value)) (t : Table)
    (hsub : ∀ p ∈ ps, ∀ r, p.2 = .table r → Settles s (waiting r) [] (sub r) (sub' r) (events (inner r))) :
    Settles s (fun message => ∃ p ∈ ps, (Host.keySpelling? p.1).isSome ∧ ∃ r, p.2 = .table r ∧ waiting r message) []
      (drainPairs sub ps t) (gather s sub' ps t) (events (notes s sub' inner i ps t)) := by
  induction ps generalizing i t with
  | nil => exact (Settles.pure _).congr (by simp) rfl
  | cons p ps ih =>
    obtain ⟨k, v⟩ := p
    obtain ⟨hv, hps⟩ := List.forall_mem_cons.1 hsub
    have hrest := ih (i + 1) (gather s sub' [(k, v)] t) hps
    rw [gather_cons, events_notes_cons]
    simp only [List.exists_mem_cons_iff]
    unfold drainPairs
    -- an entry is skipped for its key, skipped for its value, or kept, perhaps over an earlier one
    cases hk : Host.keySpelling? k with
    | none =>
      have hsame : gather s sub' [(k, v)] t = t := by simp [gather, hk]
      rw [hsame] at hrest ⊢
      refine .congr (.after (.emit _ _ _) hrest) (fun message => ?_) ?_
      · simp
      · simp [within, warning?, hk, events]
    | some key =>
      have hconvert := convert?_settles (v := v) (hk ▸ rfl : (Host.keySpelling? k).isSome) hv
      cases hstored : stored? s sub' v with
      | none =>
        have hsame : gather s sub' [(k, v)] t = t := by simp [gather, hk, hstored]
        rw [hsame] at hrest ⊢
        rw [hstored] at hconvert
        refine .congr (.bind hconvert (.after (.emit _ _ _) hrest)) (fun message => ?_) ?_
        · simp
        · simp [warning?, hk, hstored]
      | some stored =>
        have hset : gather s sub' [(k, v)] t = t.set key stored := by simp [gather, hk, hstored]
        rw [hset] at hrest ⊢
        rw [hstored] at hconvert
        refine .congr (.bind hconvert (.after (keep_settles t key stored) hrest)) (fun message => ?_) ?_
        · simp
        · simp [warning?, hk, hstored]

end Draining

theorem crossed_gather (sub : TableRef → Table) (r : TableRef) :
    gather s sub (crossed s (s.table r).pairs) {} = gather s sub (s.table r).pairs {} :=
  gather_received sub _ {}

theorem drainInto_settles {n : Nat} {r : TableRef} (h : ¬Deep s n r) :
    Settles s (Waiting s r) [] (drainInto n r {}) (drained s n r) (events (ledger s n r)) := by
  induction n generalizing r with
  | zero => exact absurd trivial h
  | succ n ih =>
    have hsub : ∀ p ∈ crossed s (s.table r).pairs, ∀ r', p.2 = .table r' →
        Settles s (Waiting s r') [] (drainInto n r' {}) (drained s n r') (events (ledger s n r')) := by
      intro p hp r' hr'
      obtain ⟨q, hq, rfl⟩ := List.mem_map.1 hp
      exact ih fun hdeep => h ⟨r', ⟨q.1, eq_table_of_received hr' ▸ hq⟩, hdeep⟩
    have hpairs : Settles s _ [] (drainPairs (fun r => drainInto n r {}) _ {}) _ _ :=
      drainPairs_settles 0 (crossed s (s.table r).pairs) {} hsub
    rw [crossed_gather] at hpairs
    refine .congr (.bind (entriesOf_settles r) (.bind hpairs (.after (.emit _ _ _) (.pure _)))) (fun message => ?_) ?_
    · rw [waiting_iff, or_false]
    · simp [ledger, drained, events, remark]

/-- The host table for a script table without cycles. -/
def hostTable (s : State) (r : TableRef) : Table := drained s (s.tables.size + 1) r

/-- What is said when a table without cycles is drained. -/
def account (s : State) (r : TableRef) : List Note := ledger s (s.tables.size + 1) r

theorem takeTable_settles {r : TableRef} (h : Acyclic s r) :
    Settles s (Waiting s r) [.table r] takeTable (hostTable s r) (events (account s r)) := by
  have hdrain : Settles s (Waiting s r) [] (drain r {}) (hostTable s r) (events (account s r)) :=
    (drainInto_settles h.not_deep).alike fun _ _ _ => rfl
  have hpop (t : Table) : Settles s (fun _ => False) [.table r] (do pop 1; pure t) t [] := .of_done fun _ _ _ => rfl
  have hall : Settles s _ [.table r] (drain r {} >>= fun t => do pop 1; pure t) _ _ := hdrain.bind (hpop _)
  refine (hall.congr (fun _ => by simp) (List.append_nil _)).alike fun c st log => ?_
  rw [takeTable, drainTop, peek_bind]
  rfl

/-! ### Every entry accounted for -/

/-- Where a drain of the first table comes to the second: the positions of the entries on the way. -/
inductive Way (s : State) : TableRef → List Nat → TableRef → Prop
  | here (r : TableRef) : Way s r [] r
  | into {r r' r'' : TableRef} {i : Nat} {k : Value} {way : List Nat}
    (hentry : (s.table r).pairs[i]? = some (k, .table r')) (hk : (Host.keySpelling? k).isSome)
    (h : Way s r' way r'') : Way s r (i :: way) r''

/-- How many warnings there are for a table. -/
def warnings (way : List Nat) (ns : List Note) : Nat := ns.countP fun n => n.1 = way ∧ n.2.level = .warn

@[simp] theorem warnings_append (way : List Nat) (ns ns' : List Note) :
    warnings way (ns ++ ns') = warnings way ns + warnings way ns' :=
  List.countP_append

section Warnings

variable {sub : TableRef → Table} {inner : TableRef → List Note} {i j : Nat} {way : List Nat}

theorem warnings_remarks (way : List Nat) (ms : List String) :
    warnings way (ms.map (remark .warn)) = if way = [] then ms.length else 0 := by
  induction ms with
  | nil => simp [warnings]
  | cons m ms ih =>
    rw [warnings] at ih ⊢
    rw [List.map_cons, List.countP_cons, ih]
    by_cases hway : way = [] <;> simp [remark, hway, eq_comm]

@[simp] theorem warnings_under_nil (i : Nat) (ns : List Note) : warnings [] (under i ns) = 0 := by
  simp [warnings, under]

@[simp] theorem warnings_under_cons (i j : Nat) (way : List Nat) (ns : List Note) :
    warnings (j :: way) (under i ns) = if i = j then warnings way ns else 0 := by
  rw [warnings, under, List.countP_map]
  by_cases hij : i = j <;> simp [hij, Function.comp_def, warnings]

theorem size_set (t : Table) (k : String) (v : Host.Value) :
    (t.set k v).size = if (t.find? k).isSome then t.size else t.size + 1 := by
  have hsize (t : Table) : t.size = t.keys.length := by rw [Table.size, Table.keys, List.length_map]
  rw [hsize, hsize]
  by_cases hk : k ∈ t.keys
  · rw [Table.keys_set_of_mem hk, if_pos ((t.mem_keys_iff k).1 hk)]
  · rw [Table.keys_set_of_not_mem hk, if_neg (mt (t.mem_keys_iff k).2 hk), List.length_append, List.length_singleton]

/-- An entry makes the table greater, or there is one warning. -/
theorem warning?_account (sub : TableRef → Table) (t : Table) (p : Value × Value) :
    (warning? s sub t p).toList.length + (gather s sub [p] t).size = t.size + 1 := by
  obtain ⟨k, v⟩ := p
  simp only [warning?, gather]
  cases Host.keySpelling? k with
  | none => exact Nat.add_comm 1 _
  | some key =>
    cases stored? s sub v with
    | none => exact Nat.add_comm 1 _
    | some stored =>
      simp only [size_set]
      cases t.find? key with
      | none => exact Nat.zero_add _
      | some previous => exact Nat.add_comm 1 _

theorem notes_account (sub : TableRef → Table) (inner : TableRef → List Note) (i : Nat) (ps : List (Value × Value))
    (t : Table) : warnings [] (notes s sub inner i ps t) + (gather s sub ps t).size = ps.length + t.size := by
  induction ps generalizing i t with
  | nil => simp [notes, gather, warnings]
  | cons p ps ih =>
    have hrest := ih (i + 1) (gather s sub [p] t)
    have hentry := warning?_account (s := s) sub t p
    rw [notes, warnings_append, warnings_append, warnings_under_nil, warnings_remarks, if_pos rfl,
      gather_cons sub p ps t, List.length_cons]
    omega

/-- Nothing is said about entries before those in question. -/
theorem warnings_notes_of_lt (hj : j < i) (way : List Nat) (ps : List (Value × Value)) (t : Table) :
    warnings (j :: way) (notes s sub inner i ps t) = 0 := by
  induction ps generalizing i t with
  | nil => rfl
  | cons p ps ih =>
    rw [notes, warnings_append, warnings_append, warnings_under_cons, if_neg (Nat.ne_of_gt hj), warnings_remarks,
      if_neg (List.cons_ne_nil j way), ih (Nat.lt_succ_of_lt hj)]

theorem warnings_notes_within (sub : TableRef → Table) (inner : TableRef → List Note) {ps : List (Value × Value)}
    {p : Value × Value} (hp : ps[j]? = some p) (i : Nat) (way : List Nat) (t : Table) :
    warnings ((i + j) :: way) (notes s sub inner i ps t) = warnings way (within inner p) := by
  induction ps generalizing i j t with
  | nil => cases hp
  | cons q ps ih =>
    rw [notes, warnings_append, warnings_append, warnings_under_cons, warnings_remarks,
      if_neg (List.cons_ne_nil _ way)]
    cases j with
    | zero =>
      obtain rfl : q = p := Option.some.inj hp
      rw [if_pos (Nat.add_zero i).symm, warnings_notes_of_lt (by omega), Nat.add_zero]
    | succ j =>
      have hrest := ih (j := j) hp (i + 1) (gather s sub [q] t)
      rw [if_neg (by omega), show i + (j + 1) = i + 1 + j by omega, hrest, Nat.zero_add]

end Warnings

theorem gather_congr {sub sub' : TableRef → Table} {ps : List (Value × Value)}
    (h : ∀ p ∈ ps, ∀ r, p.2 = .table r → sub r = sub' r) (t : Table) : gather s sub ps t = gather s sub' ps t := by
  induction ps generalizing t with
  | nil => rfl
  | cons p ps ih =>
    obtain ⟨k, v⟩ := p
    obtain ⟨hv, hps⟩ := List.forall_mem_cons.1 h
    have hstored : stored? s sub v = stored? s sub' v := by
      cases v with
      | table r => rw [stored?, stored?, hv r rfl]
      | _ => rfl
    simp only [gather, hstored, ih hps]

/-- Where nothing lies deeper, the depth that is allowed does not matter. -/
theorem drained_congr {n m : Nat} {r : TableRef} (hn : ¬Deep s n r) (hm : ¬Deep s m r) :
    drained s n r = drained s m r := by
  induction n generalizing m r with
  | zero => exact absurd trivial hn
  | succ n ih =>
    cases m with
    | zero => exact absurd trivial hm
    | succ m =>
      refine gather_congr (fun p hp r' hr' => ?_) {}
      have hinner : Inner s r r' := ⟨p.1, hr' ▸ hp⟩
      exact ih (fun h => hn ⟨r', hinner, h⟩) fun h => hm ⟨r', hinner, h⟩

theorem hostTable_eq {r : TableRef} (h : Acyclic s r) :
    hostTable s r = gather s (hostTable s) (s.table r).pairs {} := by
  refine gather_congr (fun p hp r' hr' => ?_) {}
  have hinner : Inner s r r' := ⟨p.1, hr' ▸ hp⟩
  exact drained_congr (fun hdeep => h.not_deep ⟨r', hinner, hdeep⟩) (h.of_inner hinner).not_deep

namespace Way

variable {r r' : TableRef} {way : List Nat}

theorem acyclic (h : Way s r way r') (hr : Acyclic s r) : Acyclic s r' := by
  induction h with
  | here r => exact hr
  | into hentry _ _ ih => exact ih (hr.of_inner ⟨_, List.mem_of_getElem? hentry⟩)

/-- Of the entries of a table on the way, each is in its host table or the reason of one warning. -/
theorem account (h : Way s r way r') {n m : Nat} (hn : ¬Deep s n r) (hm : ¬Deep s m r') :
    (s.table r').pairs.length = (drained s m r').size + warnings way (ledger s n r) := by
  induction h generalizing n with
  | here r =>
    cases n with
    | zero => exact absurd trivial hn
    | succ n =>
      have hall := notes_account (s := s) (drained s n) (ledger s n) 0 (crossed s (s.table r).pairs) {}
      have hquiet (message : String) : warnings [] [remark .debug message] = 0 := rfl
      have hempty : Table.size {} = 0 := rfl
      rw [crossed_gather, crossed, List.length_map, hempty] at hall
      rw [drained_congr hm hn, ledger, warnings_append, hquiet, drained, crossed]
      omega
  | @into r r' r'' i k way hentry hk hway ih =>
    cases n with
    | zero => exact absurd trivial hn
    | succ n =>
      have hinner : Inner s r r' := ⟨k, List.mem_of_getElem? hentry⟩
      have hcrossed : (crossed s (s.table r).pairs)[i]? = some (received s k, .table r') := by
        rw [crossed, List.getElem?_map, hentry]
        rfl
      have hwithin : within (ledger s n) (received s k, .table r') = ledger s n r' := by
        obtain ⟨key, hkey⟩ := Option.isSome_iff_exists.1 hk
        simp [within, keySpelling?_received, hkey]
      have hnotes := warnings_notes_within (s := s) (drained s n) (ledger s n) hcrossed 0 way {}
      have hquiet (message : String) : warnings (i :: way) [remark .debug message] = 0 := rfl
      rw [Nat.zero_add, hwithin] at hnotes
      rw [ledger, warnings_append, hquiet, hnotes]
      exact ih (fun hdeep => hn ⟨r', hinner, hdeep⟩) hm

end Way

theorem mem_notes {sub : TableRef → Table} {inner : TableRef → List Note} {i : Nat} {ps : List (Value × Value)}
    {t : Table} {n : Note} (h : n ∈ notes s sub inner i ps t) :
    n.1 = [] ∨ ∃ j p way, ps[j]? = some p ∧ n.1 = (i + j) :: way ∧ (way, n.2) ∈ within inner p := by
  induction ps generalizing i t with
  | nil => cases h
  | cons p ps ih =>
    rw [notes, List.mem_append, List.mem_append, under, List.mem_map, List.mem_map] at h
    rcases h with (⟨m, hm, rfl⟩ | ⟨message, -, rfl⟩) | h
    · exact .inr ⟨0, p, m.1, rfl, rfl, hm⟩
    · exact .inl rfl
    · refine (ih h).imp_right fun ⟨j, q, way, hq, hn, hwithin⟩ => ⟨j + 1, q, way, hq, ?_, hwithin⟩
      rw [hn, Nat.add_right_comm, Nat.add_assoc]

/-- Everything that is said is said about a table on some way. -/
theorem way_of_mem_ledger {k : Nat} {r : TableRef} {n : Note} (h : n ∈ ledger s k r) : ∃ r', Way s r n.1 r' := by
  induction k generalizing r n with
  | zero => cases h
  | succ k ih =>
    rcases List.mem_append.1 h with h | h
    · rcases mem_notes h with hn | ⟨j, p, way, hp, hn, hwithin⟩
      · exact ⟨r, hn ▸ .here r⟩
      · rw [crossed, List.getElem?_map, Option.map_eq_some_iff] at hp
        obtain ⟨⟨k', v⟩, hentry, rfl⟩ := hp
        simp only [within, keySpelling?_received] at hwithin
        split at hwithin
        next key r' hkey hv =>
          obtain rfl := eq_table_of_received hv
          obtain ⟨r'', hway⟩ := ih hwithin
          rw [hn, Nat.zero_add]
          exact ⟨r'', .into hentry (hkey ▸ rfl) hway⟩
        · cases hwithin
    · obtain rfl := List.mem_singleton.1 h
      exact ⟨r, .here r⟩

/-! ### Complete tables -/

/-- Values that the host can store. -/
def Storable (s : State) : Value → Prop
  | .number _ | .boolean _ | .pointer _ | .table _ => True
  | .text b => (String.fromUTF8? b).isSome
  | .function r => (s.hostFunction? r).isSome
  | .nil | .thread _ | .failure _ => False

theorem isSome_stored? (sub : TableRef → Table) (v : Value) : (stored? s sub v).isSome ↔ Storable s v := by
  cases v <;> simp [stored?, Storable]

/-- What an entry puts under a key. -/
def entryAt (s : State) (sub : TableRef → Table) (key : String) (p : Value × Value) : Option Host.Value :=
  if Host.keySpelling? p.1 = some key then stored? s sub p.2 else none

theorem entryAt_eq_some {sub : TableRef → Table} {key : String} {p : Value × Value} {v : Host.Value} :
    entryAt s sub key p = some v ↔ Host.keySpelling? p.1 = some key ∧ stored? s sub p.2 = some v := by
  unfold entryAt
  split <;> simp_all

theorem entryAt_eq_none {sub : TableRef → Table} {key : String} {p : Value × Value} :
    entryAt s sub key p = none ↔ (Host.keySpelling? p.1 = some key → ¬Storable s p.2) := by
  rw [← isSome_stored? sub, Option.not_isSome_iff_eq_none]
  unfold entryAt
  split <;> simp_all

/-- The last entry for a key counts, and over none what was there before. -/
theorem find?_gather (sub : TableRef → Table) (ps : List (Value × Value)) (t : Table) (key : String) :
    (gather s sub ps t).find? key = (ps.reverse.findSome? (entryAt s sub key)).or (t.find? key) := by
  induction ps generalizing t with
  | nil => rfl
  | cons p ps ih =>
    have hentry : (gather s sub [p] t).find? key = (entryAt s sub key p).or (t.find? key) := by
      obtain ⟨k, v⟩ := p
      simp only [gather, entryAt]
      cases Host.keySpelling? k with
      | none => simp
      | some key' =>
        cases stored? s sub v with
        | none => simp
        | some stored =>
          simp only [Table.find?_set, Option.some.injEq, eq_comm (a := key)]
          split <;> rfl
    rw [gather_cons, ih, hentry, List.reverse_cons, List.findSome?_append, Option.or_assoc]
    simp

/-- The host table has what the script table has: a key for every spelling of an entry that the host can
store, and under it what the last such entry, in the order of iteration, converts to. -/
structure Complete (s : State) (r : TableRef) (t : Table) : Prop where
  nodup : t.keys.Nodup
  has_iff (key : String) : t.has key ↔ ∃ p ∈ (s.table r).pairs, Host.keySpelling? p.1 = some key ∧ Storable s p.2
  find?_iff (key : String) (v : Host.Value) : t.find? key = some v ↔
    ∃ before p after, (s.table r).pairs = before ++ p :: after ∧ Host.keySpelling? p.1 = some key ∧
      stored? s (hostTable s) p.2 = some v ∧ ∀ q ∈ after, Host.keySpelling? q.1 = some key → ¬Storable s q.2

theorem hostTable_complete {r : TableRef} (h : Acyclic s r) : Complete s r (hostTable s r) := by
  have hfind (key : String) :
      (hostTable s r).find? key = (s.table r).pairs.reverse.findSome? (entryAt s (hostTable s) key) := by
    rw [hostTable_eq h, find?_gather]
    exact Option.or_none
  refine ⟨?_, fun key => ?_, fun key v => ?_⟩
  · rw [hostTable_eq h, gather_eq_setAll, Table.setAll_eq]
    exact (Table.Records.empty.writeAll _).nodup
  · rw [Table.has, hfind, List.findSome?_isSome_iff]
    simp only [List.mem_reverse, Option.isSome_iff_exists, entryAt_eq_some]
    simp only [← isSome_stored? (hostTable s), Option.isSome_iff_exists, exists_and_left]
  · rw [hfind, List.findSome?_eq_some_iff]
    simp only [entryAt_eq_some, entryAt_eq_none]
    constructor
    · rintro ⟨after, p, before, hps, ⟨hkey, hv⟩, hafter⟩
      refine ⟨before.reverse, p, after.reverse, ?_, hkey, hv, by simpa using hafter⟩
      simpa using congrArg List.reverse hps
    · rintro ⟨before, p, after, hps, hkey, hv, hafter⟩
      exact ⟨after.reverse, p, before.reverse, by simp [hps], ⟨hkey, hv⟩, by simpa using hafter⟩

/-! ### The account -/

/-- Taking a script table without cycles off the stack leaves the values under it and the script tables as they
are. It stops if and only if a fault waits in an error object on the way. Otherwise it gives the host table,
which is complete at every depth; and for each table that is drained, as often as it is drained, the number
of its entries is that of the entries of its host table and of the warnings about it together. There are no
other warnings. -/
theorem takeTable_accounts {r : TableRef} (h : Acyclic s r) (c : Channel) (st : List Value) :
    ((∃ message, Waiting s r message) →
      ∃ message t, Waiting s r message ∧ takeTable c ⟨.table r :: st, s⟩ = .stopped (.carried message) t) ∧
    ((¬∃ message, Waiting s r message) →
      takeTable c ⟨.table r :: st, s⟩ =
        .done (hostTable s r) ⟨st, { s with log := (events (account s r)).reverse ++ s.log }⟩) ∧
    (∀ way r', Way s r way r' → Complete s r' (hostTable s r') ∧
      (s.table r').pairs.length = (hostTable s r').size + warnings way (account s r)) ∧
    ∀ n ∈ account s r, ∃ r', Way s r n.1 r' := by
  have hsettles : Settles s (Waiting s r) [.table r] takeTable (hostTable s r) (events (account s r)) :=
    takeTable_settles h
  refine ⟨fun hwaiting => ?_, fun hclear => ?_, fun way r' hway => ?_, fun n => way_of_mem_ledger⟩
  · obtain ⟨message, t, hmessage, hstopped⟩ := hsettles.stops hwaiting s.log
    exact ⟨message, t, hmessage, hstopped c st⟩
  · exact hsettles.clear (not_exists.1 hclear) s.log c st
  · have hacyclic : Acyclic s r' := hway.acyclic h
    exact ⟨hostTable_complete hacyclic, hway.account h.not_deep hacyclic.not_deep⟩

/-- Where tables have later tables alone there is no cycle. -/
theorem Acyclic.of_lt (h : ∀ r r', Inner s r r' → r < r') (r : TableRef) : Acyclic s r := by
  have hlt {q q' : TableRef} (hway : Relation.TransGen (Inner s) q q') : q < q' := by
    induction hway with
    | single hr => exact h _ _ hr
    | tail _ hr ih => exact Nat.lt_trans ih (h _ _ hr)
  exact fun r' _ hcycle => Nat.lt_irrefl r' (hlt hcycle)

/-- A table within another is the value of an entry. -/
theorem Inner.exists_entry {r r' : TableRef} (h : Inner s r r') : ∃ k, (k, .table r') ∈ (s.table r).entries := by
  obtain ⟨k, hk⟩ := h
  exact ⟨k, Script.Table.mem_of_mem_slots (List.mem_filter.1 hk).1 (by simp)⟩

/-- A table whose entries cannot all be stored, with another table under two keys. -/
def sharingState : State where
  tables := #[
    { entries := [(.ofNat 1, .ofNat 10), (.ofString "1", .boolean true), (.boolean true, .ofNat 3),
      (.ofString "t", .thread 0), (.ofString "a", .table 1), (.ofString "b", .table 1)] },
    { entries := [(.ofString "k", .boolean false), (.text ⟨#[255]⟩, .boolean true)] }]

theorem sharingState_acyclic (r : TableRef) : Acyclic sharingState r := by
  refine .of_lt (fun q q' hinner => ?_) r
  have hq : q < 2 := hinner.lt
  obtain ⟨k, hk⟩ := hinner.exists_entry
  match q with
  | 0 =>
    have hq' : q' = 1 := by
      simp [sharingState, State.table, Value.ofNat, Value.ofInt, Value.ofString] at hk
      tauto
    simp [hq']
  | 1 => simp [sharingState, State.table, Value.ofString] at hk

/-- No error object holds a fault. -/
theorem sharingState_clear (r : TableRef) (message : String) : ¬Waiting sharingState r message := by
  rintro ⟨r', -, p, -, ⟨q, -, hq⟩ | ⟨q, -, hq⟩⟩
  · cases hq
  · cases hq

/-- Of six entries three are lost, each with its warning: two have the same spelling, one has no spelling and one
cannot be stored. The table under the last key is drained by itself. -/
theorem takeTable_accounts_sharing :
    Acyclic sharingState 0 ∧ (¬∃ message, Waiting sharingState 0 message) ∧ Way sharingState 0 [5] 1 ∧
      (∃ t, takeTable Channel.idle ⟨[.table 0, .nil], sharingState⟩ =
        .done (hostTable sharingState 0) ⟨[.nil], t⟩) ∧
      (hostTable sharingState 0).keys = ["1", "a", "b"] ∧ warnings [] (account sharingState 0) = 3 ∧
      (hostTable sharingState 1).keys = ["k"] ∧ warnings [5] (account sharingState 0) = 1 := by
  have hclear : ¬∃ message, Waiting sharingState 0 message := not_exists.2 (sharingState_clear 0)
  have hway : Way sharingState 0 [5] 1 := .into (k := .ofString "b") (by decide +kernel) (by decide +kernel) (.here 1)
  obtain ⟨-, hdone, hall, -⟩ := takeTable_accounts (sharingState_acyclic 0) .idle [.nil]
  refine ⟨sharingState_acyclic 0, hclear, hway, ⟨_, hdone hclear⟩, by decide +kernel, ?_, by decide +kernel, ?_⟩
  · have hpairs : (sharingState.table 0).pairs.length = 6 := by decide +kernel
    have hsize : (hostTable sharingState 0).size = 3 := by decide +kernel
    have hsum := (hall [] 0 (.here 0)).2
    omega
  · have hpairs : (sharingState.table 1).pairs.length = 2 := by decide +kernel
    have hsize : (hostTable sharingState 1).size = 1 := by decide +kernel
    have hsum := (hall [5] 1 hway).2
    omega

/-- A script has caught a fault and keeps its error object in a table. -/
def holdingState : State :=
  ((State.fresh.newFailure (.fatal (Host.Fault.wrongArity 0 1).message)).2.newTable
    { entries := [(.ofNat 1, .failure 0)] }).2

theorem holdingState_reachable : holdingState.Reachable :=
  (State.Write.newFailure State.fresh _).later.trans (State.Write.newTable _ _).later

theorem holdingState_acyclic : Acyclic holdingState 2 := by
  intro r hway hcycle
  have hnone (q : TableRef) : ¬Inner holdingState 2 q := fun h => by
    obtain ⟨k, hk⟩ := h.exists_entry
    cases List.mem_singleton.1 hk
  rcases Relation.ReflTransGen.cases_head hway with rfl | ⟨q, hq, -⟩
  · obtain ⟨q, hq, -⟩ := Relation.TransGen.head'_iff.1 hcycle
    exact hnone q hq
  · exact hnone q hq

/-- Taking that table off the stack stops, although it has no cycle. -/
theorem takeTable_stops_on_kept_fault :
    holdingState.Reachable ∧ Acyclic holdingState 2 ∧ ∃ t,
      takeTable Channel.idle ⟨[.table 2], holdingState⟩ =
        .stopped (.carried (Host.Fault.wrongArity 0 1).message) t :=
  ⟨holdingState_reachable, holdingState_acyclic, _, rfl⟩

end ScriptHost.Exchange
