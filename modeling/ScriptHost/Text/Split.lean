/-! Splitting texts at a character. There is one piece more than there are such characters, and the
pieces may be empty. -/

namespace ScriptHost.Text.Split

/-- The characters before the first separator, and the pieces behind it. -/
def cut (separator : Char) : List Char → List Char × List (List Char)
  | [] => ([], [])
  | c :: cs =>
    let (first, rest) := cut separator cs
    if c = separator then ([], first :: rest) else (c :: first, rest)

def pieces (separator : Char) (s : String) : List String :=
  let (first, rest) := cut separator s.toList
  (first :: rest).map String.ofList

end ScriptHost.Text.Split
