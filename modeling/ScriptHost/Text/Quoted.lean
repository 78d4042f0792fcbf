import ScriptHost.Text.Printable

/-! Text in double quotes. The quote and the backslash are escaped, as are the characters that do
not print; single quotes are not. -/

namespace ScriptHost.Text.Quoted

open Printable

def hex (n : Nat) : String := String.ofList (Nat.toDigits 16 n)

def escape (c : Char) : String :=
  if c = '\x00' then "\\0"
  else if c = '\t' then "\\t"
  else if c = '\r' then "\\r"
  else if c = '\n' then "\\n"
  else if c = '"' then "\\\""
  else if c = '\\' then "\\\\"
  else if isPrinted c then String.singleton c
  else "\\u\x7b" ++ hex c.toNat ++ "\x7d"

def quoted (s : String) : String := "\"" ++ String.join (s.toList.map escape) ++ "\""

end ScriptHost.Text.Quoted
