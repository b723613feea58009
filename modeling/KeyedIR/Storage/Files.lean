/-! # Files

What a program that keeps its data in files needs of a file system: reading a whole file and
writing a whole file, either of which can fail.
-/

namespace KeyedIR

set_option autoImplicit false

inductive FileError where
  | notFound
  | isDirectory
  | notDirectory
  | nameTooLong
  /-- The name holds the character that ends a name for the system. -/
  | nameEnds
  | notText
  | other (reason : String)
  deriving DecidableEq

def FileError.message : FileError → String
  | notFound => "No such file or directory (os error 2)"
  | isDirectory => "Is a directory (os error 21)"
  | notDirectory => "Not a directory (os error 20)"
  | nameTooLong => "File name too long (os error 36)"
  | nameEnds => "file name contained an unexpected NUL byte"
  | notText => "stream did not contain valid UTF-8"
  | other reason => reason

class FileStore (m : Type → Type) where
  readBytes : String → m (Except FileError ByteArray)
  /-- Makes some bytes the whole content of a file, which is created if it does not exist. -/
  writeBytes : String → ByteArray → m (Except FileError Unit)

def FileError.decode (bytes : ByteArray) : Except FileError String :=
  match String.fromUTF8? bytes with
  | some s => .ok s
  | none => .error .notText

end KeyedIR
