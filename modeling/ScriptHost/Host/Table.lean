import ScriptHost.Host.Fault
import ScriptHost.Host.Value

/-! Tables of the host: maps from strings to values that keep the order in which keys came in. A
later write to a key keeps its place; a key that was removed and set again comes last. -/

namespace ScriptHost.Host

open Number

namespace Table

def empty : Table := {}

/-! ### Reading -/

def find? (t : Table) (k : String) : Option Value := Value.find? k t.entries

def has (t : Table) (k : String) : Bool := (t.find? k).isSome

def keys (t : Table) : List String := t.entries.map (·.1)

def size (t : Table) : Nat := t.entries.length

def isEmpty (t : Table) : Bool := t.entries.isEmpty

/-- The value under a key that the caller promises to be there. -/
def get (t : Table) (k : String) : Except Fault Value :=
  match t.find? k with
  | some v => .ok v
  | none => .error (.missingKey k)

/-- As `get`, the value promised to be of a kind. -/
def getAs (kind : Kind) (t : Table) (k : String) : Except Fault kind.Carrier := do
  let v ← t.get k
  match kind.unwrap? v with
  | some c => .ok c
  | none => .error (.otherKind k v.kind kind)

/-- As `getAs`, but a missing key is no fault. -/
def tryGetAs (kind : Kind) (t : Table) (k : String) : Except Fault (Option kind.Carrier) :=
  if t.has k then some <$> t.getAs kind k else .ok none

/-! ### Writing -/

/-- Replaces the value under a key in place, or appends. -/
def insertEntry (k : String) (v : Value) : List (String × Value) → List (String × Value)
  | [] => [(k, v)]
  | (k', v') :: rest => if k = k' then (k', v) :: rest else (k', v') :: insertEntry k v rest

def set (t : Table) (k : String) (v : Value) : Table := ⟨insertEntry k v t.entries⟩

def removeEntry (k : String) : List (String × Value) → List (String × Value)
  | [] => []
  | (k', v') :: rest => if k = k' then rest else (k', v') :: removeEntry k rest

/-- The removed value, if there was one, and the other entries in their order. -/
def remove (t : Table) (k : String) : Option Value × Table := (t.find? k, ⟨removeEntry k t.entries⟩)

/-- Changes the value under a key that the caller promises to be there with a kind. -/
def modifyAs (kind : Kind) (t : Table) (k : String) (f : kind.Carrier → kind.Carrier) : Except Fault Table := do
  let c ← t.getAs kind k
  .ok (t.set k (kind.wrap (f c)))

/-- As `modifyAs`, but a missing key is no fault; answers whether the key was there. -/
def tryModifyAs (kind : Kind) (t : Table) (k : String) (f : kind.Carrier → kind.Carrier) :
    Except Fault (Bool × Table) :=
  if t.has k then (fun t' => (true, t')) <$> t.modifyAs kind k f else .ok (false, t)

/-- Writes in the table at the end of a path of tables. -/
def modifyAlong : List String → (Table → Table) → Table → Except Fault Table
  | [], f, t => .ok (f t)
  | k :: path, f, t => do
    let inner ← t.getAs .table k
    let inner ← modifyAlong path f inner
    t.modifyAs .table k fun _ => inner

/-! ### Merging -/

/-- Sets pairs one after another. -/
def setAll (t : Table) (pairs : List (String × Value)) : Table :=
  pairs.foldl (fun t (k, v) => t.set k v) t

def ofPairs (pairs : List (String × Value)) : Table := empty.setAll pairs

/-- The entries of `source` over those of `t`. -/
def superimpose (t source : Table) : Table := t.setAll source.entries

/-! ### Sequences -/

/-- The key of a sequence index. -/
def indexKey (i : Nat) : String := String.ofList (Decimal.digitChars i)

/-- What a traversal visited before it ended, and the fault that ended it, if one did. -/
structure Visited (α : Type) where
  seen : List α
  fault : Option Fault

/-- Visits at most `limit` indices from `start` on. -/
def eachFrom (kind : Kind) (t : Table) : Nat → Nat → Visited (Nat × kind.Carrier)
  | 0, _ => ⟨[], none⟩
  | limit + 1, start =>
    if t.has (indexKey start) then
      match t.getAs kind (indexKey start) with
      | .ok c =>
        let rest := eachFrom kind t limit (start + 1)
        ⟨(start, c) :: rest.seen, rest.fault⟩
      | .error fault => ⟨[], some fault⟩
    else ⟨[], none⟩

/-- Visits the keys `1`, `2`, … up to the first that is missing; there are no more of them than
entries. A value of another kind is a fault. -/
def each (kind : Kind) (t : Table) : Visited (Nat × kind.Carrier) := t.eachFrom kind (t.size + 1) 1

def eachModifyFrom (kind : Kind) (f : Nat → kind.Carrier → kind.Carrier) :
    Nat → Nat → Table → Visited Nat × Table
  | 0, _, t => (⟨[], none⟩, t)
  | limit + 1, start, t =>
    if t.has (indexKey start) then
      match t.modifyAs kind (indexKey start) (f start) with
      | .ok t =>
        let (rest, t) := eachModifyFrom kind f limit (start + 1) t
        (⟨start :: rest.seen, rest.fault⟩, t)
      | .error fault => (⟨[], some fault⟩, t)
    else (⟨[], none⟩, t)

/-- As `each`, changing every visited value. -/
def eachModify (kind : Kind) (f : Nat → kind.Carrier → kind.Carrier) (t : Table) : Visited Nat × Table :=
  eachModifyFrom kind f (t.size + 1) 1 t

end Table

end ScriptHost.Host
