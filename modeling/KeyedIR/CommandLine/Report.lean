import KeyedIR.Log
/-! # Reports

Events as lines for people to read: level, source and message. The characters that terminals act on
are written out, line ends apart, so that no stored text can control a terminal.
-/

namespace KeyedIR.CommandLine

set_option autoImplicit false

/-- A character of a message as it is reported: the controls that terminals act on are written by
their code points. -/
def reportedChar (c : Char) : List Char :=
  match c with
  | '\x07' => ['\\', 'x', '0', '7']
  | '\x08' => ['\\', 'x', '0', '8']
  | '\x0c' => ['\\', 'x', '0', 'c']
  | '\x1b' => ['\\', 'x', '1', 'b']
  | '\x7f' => ['\\', 'x', '7', 'f']
  | c =>
    if 0x80 ≤ c.toNat && c.toNat ≤ 0x9F then
      '\\' :: 'u' :: '\x7b' :: (Nat.toDigits 16 c.toNat ++ ['\x7d'])
    else [c]

/-- The text of an event in a report, which has more than one line if its message has. -/
def reportEvent (e : Event) : List Char :=
  (e.level.name ++ " " ++ e.source ++ ": ").toList ++
    (e.message.toList.flatMap reportedChar ++ ['\n'])

def report (events : List Event) : String := String.ofList (events.flatMap reportEvent)

end KeyedIR.CommandLine
