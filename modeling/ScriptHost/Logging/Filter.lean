import ScriptHost.Event
import ScriptHost.Text.Blank
import ScriptHost.Text.Split

/-! Which events are logged. A filter is a list of directives, each of which gives a threshold to
the events of some targets. For an event the most specific directive that covers it decides: the one
with the longest target, and of two with the same target the one that names a field. -/

namespace ScriptHost.Logging

/-- The least severe level that passes; nothing at all passes `none`. -/
abbrev Threshold := Option Level

namespace Threshold

def admits (t : Threshold) (l : Level) : Bool :=
  match t with
  | none => false
  | some most => l.verbosity ≤ most.verbosity

def ofNumber? : Nat → Option Threshold
  | 0 => some none
  | 1 => some (some .error)
  | 2 => some (some .warn)
  | 3 => some (some .info)
  | 4 => some (some .debug)
  | 5 => some (some .trace)
  | _ => none

/-- A decimal number, which may have a plus sign and zeros in front. -/
def number? (s : String) : Option Nat :=
  let ds := match s.toList with
    | '+' :: ds => ds
    | ds => ds
  if ds.isEmpty || !ds.all Char.isDigit then none
  else some (ds.foldl (fun n d => n * 10 + (d.toNat - '0'.toNat)) 0)

/-- A text with its capitals A to Z made small. -/
def lowered (s : String) : String := String.ofList (s.toList.map Char.toLower)

/-- A threshold by name, in capitals or not, or by number from 0 for nothing to 5 for everything. -/
def ofText? (s : String) : Option Threshold :=
  (number? s >>= ofNumber?) <|>
    match lowered s with
    | "off" => some none
    | "error" => some (some .error)
    | "warn" => some (some .warn)
    | "info" => some (some .info)
    | "debug" => some (some .debug)
    | "trace" => some (some .trace)
    | _ => none

/-- The threshold that a configured level means. What is no name means `info`. -/
def configured (s : String) : Threshold :=
  match lowered s with
  | "off" => none
  | "error" => some .error
  | "warn" | "warning" => some .warn
  | "debug" => some .debug
  | "trace" => some .trace
  | _ => some .info

end Threshold

/-- Covers the events whose target starts with `target`, and with a field given only those that
have it. -/
structure Directive where
  target : Option String := none
  field : Option String := none
  threshold : Threshold
deriving DecidableEq

namespace Directive

def sameSubject (d e : Directive) : Bool := d.target == e.target && d.field == e.field

/-- Every event has a message and no other field. -/
def eventField : String := "message"

def covers (d : Directive) (target : String) : Bool :=
  (match d.target with
    | none => true
    | some t => t.toList.isPrefixOf target.toList) &&
  (match d.field with
    | none => true
    | some f => f == eventField)

/-- Length of the target plus one if there is any, then whether a field is named. -/
def specificity (d : Directive) : Nat × Nat :=
  ((d.target.map (·.utf8ByteSize + 1)).getD 0, if d.field.isSome then 1 else 0)

def moreSpecific (d e : Directive) : Bool :=
  let (a, b) := d.specificity
  let (a', b') := e.specificity
  decide (a' < a) || (a == a' && decide (b' < b))

/-! ### Reading -/

/-- What stands behind an equals sign; nothing lets everything pass. -/
def thresholdAfter (cs : List Char) : Option Threshold :=
  if cs.isEmpty then some (some .trace) else Threshold.ofText? (String.ofList cs)

/-- Letters, digits and a few marks may start a directive. -/
def startsName (c : Char) : Bool := c.isAlphanum || 0x80 ≤ c.toNat || c == '-' || c == ':' || c == '_'

/-- A bracket in a directive names a span or a field. Directives on spans and on values of fields
cover no event, so they are none here; what is left names one field in braces. -/
def readBracket (target : Option String) (cs : List Char) : Option Directive := do
  match cs with
  | '\x7b' :: cs =>
    let name := cs.takeWhile (· != '\x7d')
    if name.isEmpty || name.contains '=' then none
    else
      match cs.drop name.length with
      | '\x7d' :: ']' :: rest =>
        let threshold ← match rest with
          | '=' :: level => thresholdAfter level
          | rest => if rest.all Text.Blank.isBlank then some (some .trace) else none
        pure { target, field := some (String.ofList name), threshold }
      | _ => none
  | _ => none

/-- One directive: `target=level`, a target alone, which lets everything pass, or a level alone. -/
def read? (s : String) : Option Directive := do
  match s.toList with
  | '[' :: cs => readBracket none cs
  | [] => none
  | c :: cs =>
    if startsName c then
      let name := c :: cs.takeWhile fun c => c != '=' && c != '['
      let target := String.ofList name
      match (c :: cs).drop name.length with
      | '=' :: level => pure { target := some target, threshold := ← thresholdAfter level }
      | '[' :: cs => readBracket (some target) cs
      | _ =>
        match Threshold.ofText? target with
        | some threshold => pure { threshold }
        | none => pure { target := some target, threshold := some .trace }
    else none

end Directive

abbrev Filter := List Directive

namespace Filter

/-- A later directive takes the place of an earlier one on the same subject. -/
def add (f : Filter) (d : Directive) : Filter := d :: f.filter (!·.sameSubject d)

/-- Directives with commas between them; those that cannot be read are left out. -/
def ofDirectives (s : String) : Filter := ((Text.Split.pieces ',' s).filterMap Directive.read?).foldl add []

/-- Directives over a configured level, which is the threshold for all other events. -/
def ofSettings (directives level : String) : Filter :=
  (ofDirectives directives).add { threshold := Threshold.configured level }

/-- The directive that decides for a target. -/
def decider? (f : Filter) (target : String) : Option Directive :=
  (f.filter (·.covers target)).foldl
    (fun best d =>
      match best with
      | none => some d
      | some b => if d.moreSpecific b then some d else some b) none

def admits (f : Filter) (target : String) (l : Level) : Bool :=
  match f.decider? target with
  | none => false
  | some d => d.threshold.admits l

end Filter

end ScriptHost.Logging
