/-! Fingerprints of texts: a keyed 64-bit hash with one mixing round for each word and three at the
end, under the zero key. A text is hashed with one byte behind it that no text contains, so that
no text continues another. -/

namespace ScriptHost.Live

/-- The four words of the hash. -/
structure Mix where
  a : UInt64
  b : UInt64
  c : UInt64
  d : UInt64

namespace Mix

def rotate (x : UInt64) (n : UInt64) : UInt64 := (x <<< n) ||| (x >>> (64 - n))

def start : Mix := ⟨0x736f6d6570736575, 0x646f72616e646f6d, 0x6c7967656e657261, 0x7465646279746573⟩

def round (m : Mix) : Mix :=
  let a := m.a + m.b
  let b := rotate m.b 13 ^^^ a
  let a := rotate a 32
  let c := m.c + m.d
  let d := rotate m.d 16 ^^^ c
  let a := a + d
  let d := rotate d 21 ^^^ a
  let c := c + b
  let b := rotate b 17 ^^^ c
  let c := rotate c 32
  ⟨a, b, c, d⟩

def absorb (m : Mix) (word : UInt64) : Mix :=
  let n := round { m with d := m.d ^^^ word }
  { n with a := n.a ^^^ word }

def finish (m : Mix) : UInt64 :=
  let n := round (round (round { m with c := m.c ^^^ 0xff }))
  n.a ^^^ n.b ^^^ n.c ^^^ n.d

end Mix

/-- Up to eight bytes as a word, the first one lowest. -/
def word (bytes : List UInt8) : UInt64 :=
  bytes.foldr (fun b w => (w <<< 8) ||| b.toUInt64) 0

/-- Takes whole words; the last word holds what is left and the length in its highest byte. Every
step takes eight bytes, so the number of bytes is enough fuel. -/
def absorbAll (length : Nat) : Nat → List UInt8 → Mix → Mix
  | 0, _, m => m
  | fuel + 1, bytes, m =>
    if bytes.length < 8 then
      m.absorb (word bytes ||| ((UInt64.ofNat length) <<< 56))
    else absorbAll length fuel (bytes.drop 8) (m.absorb (word (bytes.take 8)))

def hashBytes (bytes : List UInt8) : UInt64 :=
  (absorbAll bytes.length (bytes.length + 1) bytes Mix.start).finish

def fingerprint (text : String) : UInt64 := hashBytes (text.toUTF8.toList ++ [0xff])

end ScriptHost.Live
