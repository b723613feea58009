import KeyedIR.Forest.Basic
import KeyedIR.Text.Lines
/-! # Reading forests

A text is read line by line. Blank lines and lines that start with `#` are skipped. Every other
line names a key, at most one level deeper than the line before, and perhaps gives it a value. A
key that was there before is the same entry again: a new value replaces its value, and more
children join its children.
-/

namespace KeyedIR

set_option autoImplicit false

inductive LineFault where
  | unevenIndentation
  | tooDeep
  | noColon
  | invalidKey (key : String)
  | badValue (fault : ValueFault)
  deriving DecidableEq

def LineFault.message : LineFault → String
  | unevenIndentation => "indentation must be a multiple of two spaces"
  | tooDeep => "entry is indented deeper than its parent"
  | noColon => "expected `key:` or `key: value`"
  | invalidKey key => s!"invalid key `{key}`"
  | badValue fault => fault.message

/-- The first line that is wrong, counted from 1, and what is wrong with it. -/
structure SyntaxError where
  line : Nat
  fault : LineFault
  deriving DecidableEq

def SyntaxError.message (e : SyntaxError) : String := s!"line {e.line}: {e.fault.message}"

namespace Forest

/-- A text can be a key: it is not empty and has no dot, quote, number sign or white space. -/
def isKey (key : List Char) : Bool :=
  !key.isEmpty && !key.any fun c => c == '.' || c == '"' || c == '#' || Text.isBlank c

/-- The key of a line without its indentation, and the value if the line gives one. -/
def readLine (text : List Char) : Except LineFault (String × Option Value) :=
  let key := text.takeWhile (· != ':')
  match text.dropWhile (· != ':') with
  | [] => .error .noColon
  | _ :: rest =>
    if !isKey key then .error (.invalidKey (String.ofList key))
    else
      let rest := Text.trim rest
      if rest.isEmpty then .ok (String.ofList key, none)
      else
        match Value.read rest with
        | .ok value => .ok (String.ofList key, some value)
        | .error fault => .error (.badValue fault)

/-- What has been read of a text: the forest so far and the path of the last line. -/
structure Draft where
  forest : Forest := .nil
  last : Path := []

namespace Draft

/-- Takes one more line. Its depth cuts the path of the last line to that of its parent. -/
def addLine (d : Draft) (line : List Char) : Except LineFault Draft :=
  let text := line.dropWhile (· == ' ')
  let indentation := line.length - text.length
  let depth := indentation / 2
  if text.all Text.isBlank || text.head? == some '#' then .ok d
  else if text.head? == some '\t' || indentation % 2 != 0 then .error .unevenIndentation
  else if d.last.length < depth then .error .tooDeep
  else
    match readLine text with
    | .error fault => .error fault
    | .ok (key, value) =>
      let path := d.last.take depth ++ [key]
      .ok ⟨d.forest.put path value, path⟩

/-- Takes lines, the first of which has the number `line`, up to the first that is wrong. -/
def addLines : Draft → Nat → List (List Char) → Except SyntaxError Draft
  | d, _, [] => .ok d
  | d, line, text :: rest =>
    match d.addLine text with
    | .error fault => .error ⟨line, fault⟩
    | .ok d => d.addLines (line + 1) rest

end Draft

def ofText (text : String) : Except SyntaxError Forest :=
  (Draft.addLines {} 1 (Text.lines text.toList)).map Draft.forest

end Forest

end KeyedIR
