import ScriptHost.Script.Value

/-! Tables of the script language: a list of entries with keys in the spelling of `Value.asKey`.
A key keeps its place for good; storing nil empties its entry. Iteration visits `1`, `2`, … first
and the other keys in the order of their first assignment. -/

namespace ScriptHost.Script

structure Table where
  entries : List (Value × Value) := []
  metatable : Option TableRef := none
  /-- How many positional values the table was built with. -/
  reserved : Nat := 0
deriving Inhabited

namespace Table

/-- The value under a key in normal spelling. -/
def find (k : Value) : List (Value × Value) → Value
  | [] => .nil
  | (k', v) :: rest => if k = k' then v else find k rest

/-- Replaces in place, or appends. A missing key is not added for nil. -/
def put (k v : Value) : List (Value × Value) → List (Value × Value)
  | [] => if v = .nil then [] else [(k, v)]
  | (k', v') :: rest => if k = k' then (k', v) :: rest else (k', v') :: put k v rest

def get (t : Table) (k : Value) : Value := find k.asKey t.entries

def set (t : Table) (k v : Value) : Table := { t with entries := put k.asKey v t.entries }

def getNat (t : Table) (n : Nat) : Value := find (Value.ofNat n) t.entries

/-! ### Iteration -/

/-- The values at `start`, `start + 1`, … up to the first empty slot, at most `limit` of them. -/
def run (t : Table) : Nat → Nat → List Value
  | 0, _ => []
  | limit + 1, start =>
    match t.getNat start with
    | .nil => []
    | v => v :: t.run limit (start + 1)

def sequence (t : Table) : List Value := t.run t.entries.length 1

/-- Whether a key is one of the first `n` positive integers. -/
def inSequence (n : Nat) : Value → Bool
  | .number (.integer i) => decide (1 ≤ i.toInt ∧ i.toInt ≤ n)
  | _ => false

/-- All entries in order, emptied ones included. -/
def slots (t : Table) : List (Value × Value) :=
  let s := t.sequence
  (s.zipIdx 1).map (fun (v, i) => (Value.ofNat i, v))
    ++ t.entries.filter fun (k, _) => !inSequence s.length k

/-- The entries that hold a value. -/
def pairs (t : Table) : List (Value × Value) := t.slots.filter fun (_, v) => v != .nil

/-- The entry after a key, from the start for nil; `none` if the key was never in the table, and
an inner `none` at the end. -/
def next? (t : Table) (k : Value) : Option (Option (Value × Value)) :=
  let live (l : List (Value × Value)) : Option (Value × Value) := l.find? fun (_, v) => v != .nil
  match k with
  | .nil => some (live t.slots)
  | k =>
    match t.slots.dropWhile fun (k', _) => k' != k.asKey with
    | [] => none
    | _ :: rest => some (live rest)

/-! ### Length -/

/-- Between a filled slot (or 0) and an empty one above it, some filled slot before an empty one. -/
def bisect (t : Table) : Nat → Nat → Nat → Nat
  | 0, low, _ => low
  | steps + 1, low, high =>
    if high - low ≤ 1 then low
    else
      let middle := (low + high) / 2
      match t.getNat middle with
      | .nil => t.bisect steps low middle
      | _ => t.bisect steps middle high

/-- Doubles the upper end until it is empty, then bisects. Slots are numbered by 64-bit integers, so
64 doublings are enough. -/
def gallop (t : Table) : Nat → Nat → Nat
  | 0, low => low
  | steps + 1, low =>
    match t.getNat (2 * low) with
    | .nil => t.bisect 64 low (2 * low)
    | _ => t.gallop steps (2 * low)

/-- A border: zero, or a filled slot with an empty one behind it. Positional slots are looked at
first, from their end. -/
def length (t : Table) : Nat :=
  let r := t.reserved
  let emptyAt (n : Nat) : Bool := t.getNat n == .nil
  if 0 < r && emptyAt r then
    if 2 ≤ r && !emptyAt (r - 1) then r - 1 else t.bisect 64 0 r
  else if emptyAt (r + 1) then r
  else t.gallop 64 (max r 1)

end Table

end ScriptHost.Script
