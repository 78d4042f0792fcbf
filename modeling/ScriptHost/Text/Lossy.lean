/-! Bytes as text. Bytes that are not UTF-8 are read with a replacement character for every
longest run that could still have started a character. -/

namespace ScriptHost.Text.Lossy

def isTail (b : UInt8) : Bool := 0x80 ≤ b && b ≤ 0xBF

/-- What may follow a leading byte: how many bytes, and the range of the first of them. -/
def expects? (b : UInt8) : Option (Nat × UInt8 × UInt8) :=
  if 0xC2 ≤ b && b ≤ 0xDF then some (1, 0x80, 0xBF)
  else if b == 0xE0 then some (2, 0xA0, 0xBF)
  else if b == 0xED then some (2, 0x80, 0x9F)
  else if 0xE1 ≤ b && b ≤ 0xEF then some (2, 0x80, 0xBF)
  else if b == 0xF0 then some (3, 0x90, 0xBF)
  else if b == 0xF4 then some (3, 0x80, 0x8F)
  else if 0xF1 ≤ b && b ≤ 0xF3 then some (3, 0x80, 0xBF)
  else none

/-- The bytes at the front that continue a character. -/
def tailOf (count : Nat) (low high : UInt8) : List UInt8 → List UInt8
  | [] => []
  | b :: rest =>
    if low ≤ b && b ≤ high then b :: (rest.take (count - 1)).takeWhile isTail else []

/-- The code point of a leading byte and its tail. -/
def point (lead : UInt8) (tail : List UInt8) : Nat :=
  let high := match tail.length with
    | 1 => lead.toNat % 32
    | 2 => lead.toNat % 16
    | _ => lead.toNat % 8
  tail.foldl (fun n b => n * 64 + b.toNat % 64) high

def replacement : Char := '\ufffd'

/-- Every step takes a byte at least. -/
def decode : Nat → List UInt8 → List Char
  | 0, _ | _, [] => []
  | fuel + 1, b :: rest =>
    if b < 0x80 then Char.ofNat b.toNat :: decode fuel rest
    else
      match expects? b with
      | none => replacement :: decode fuel rest
      | some (count, low, high) =>
        let tail := tailOf count low high rest
        let c := if tail.length = count then Char.ofNat (point b tail) else replacement
        c :: decode fuel (rest.drop tail.length)

def ofBytes (bytes : ByteArray) : String :=
  match String.fromUTF8? bytes with
  | some s => s
  | none => String.ofList (decode bytes.size bytes.toList)

end ScriptHost.Text.Lossy
