import KeyedIR.Forest.Printer
import KeyedIR.Forest.Reader
import KeyedIR.Record.Load
import KeyedIR.Record.Save
import KeyedIR.Storage.Files
/-! # Modules in files

A forest is kept in a file as its text, and a module as the forest that holds it. Reading or
writing a file is logged before it is tried.
-/

namespace KeyedIR

set_option autoImplicit false

inductive StorageError where
  | file (fault : FileError)
  | text (fault : SyntaxError)
  | record (fault : RecordFault)
  deriving DecidableEq

def StorageError.message : StorageError → String
  | file fault => fault.message
  | text fault => fault.message
  | record fault => fault.message

def Forest.ofBytes (bytes : ByteArray) : Except StorageError Forest :=
  match FileError.decode bytes with
  | .error e => .error (.file e)
  | .ok s =>
    match Forest.ofText s with
    | .error e => .error (.text e)
    | .ok t => .ok t

section

variable {m : Type → Type} [Monad m] [FileStore m]

def Forest.ofFile (file : String) : m (Logged StorageError Forest) := do
  let bytes ← FileStore.readBytes file
  return do
    Logged.note (.loadingFile file)
    match bytes with
    | .ok bytes => Logged.ofExcept (Forest.ofBytes bytes)
    | .error e => Logged.fail (.file e)

def Forest.toFile (t : Forest) (file : String) : m (Logged StorageError Unit) := do
  let written ← FileStore.writeBytes file t.text.toUTF8
  return do
    Logged.note (.savingFile file)
    Logged.ofExcept (written.mapError .file)

def Module.ofFile (file : String) : m (Logged StorageError Module) := do
  let forest ← Forest.ofFile file
  return forest >>= fun t => (Module.load t).mapError .record

/-- Writes a module to a file, alone in a forest. -/
def Module.toFile (p : Module) (file : String) : m (Logged StorageError Unit) := do
  let written ← (p.save .nil).toFile file
  return ⟨p.saveEvents ++ written.events, written.result⟩

end

end KeyedIR
