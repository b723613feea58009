import KeyedIR.Proofs.Logged
import KeyedIR.Proofs.Storage.FileTree
import KeyedIR.Storage.ModuleFile
/-! # File systems

What commands rely on when they use files: reading changes no file, a write that fails changes none
either, and a write that succeeds makes some bytes the whole content of one file. In a lasting file
system these bytes are read again under the name that they were written under. The file system in
memory is of both kinds.
-/

namespace KeyedIR

set_option autoImplicit false

open Logged

section

variable {σ : Type} [FileStore (StateM σ)]

def readIn (s : σ) (name : String) : Except FileError ByteArray × σ :=
  (FileStore.readBytes name : StateM σ (Except FileError ByteArray)).run s

def writeIn (s : σ) (name : String) (bytes : ByteArray) : Except FileError Unit × σ :=
  (FileStore.writeBytes name bytes : StateM σ (Except FileError Unit)).run s

end

/-- Which file a name is written to and what each file holds, in each state of the files. -/
structure FileSystem (σ : Type) [FileStore (StateM σ)] where
  File : Type
  target : σ → String → Option File
  content : σ → File → Option ByteArray
  target_read : ∀ s name, target (readIn s name).2 = target s
  content_read : ∀ s name, content (readIn s name).2 = content s
  content_failed : ∀ s name bytes e, (writeIn s name bytes).1 = .error e →
    content (writeIn s name bytes).2 = content s
  content_written : ∀ s name bytes, (writeIn s name bytes).1 = .ok () →
    ∃ file, target s name = some file ∧ content (writeIn s name bytes).2 file = some bytes ∧
      ∀ other, other ≠ file → content (writeIn s name bytes).2 other = content s other

/-- Files in memory. -/
def FileTree.system : FileSystem FileTree where
  File := List String
  target t name := (t.resolveTarget name).toOption
  content := FileTree.content
  target_read _ _ := rfl
  content_read _ _ := rfl
  content_failed _ _ _ _ h := congrArg FileTree.content (write_of_error h)
  content_written t name bytes h := by
    obtain ⟨place, htarget, hcontent, hother⟩ := content_write h
    exact ⟨place, by rw [htarget]; rfl, hcontent, hother⟩

/-- File systems in which a file that was written can be read and written again under its name. -/
structure LastingFileSystem (σ : Type) [FileStore (StateM σ)] extends FileSystem σ where
  read_written : ∀ (s : σ) name bytes, (writeIn s name bytes).1 = .ok () →
    (readIn (writeIn s name bytes).2 name).1 = .ok bytes
  write_again : ∀ (s : σ) name bytes, (writeIn s name bytes).1 = .ok () →
    (writeIn (readIn (writeIn s name bytes).2 name).2 name bytes).1 = .ok ()

def FileTree.lastingSystem : LastingFileSystem FileTree where
  toFileSystem := system
  read_written _ _ bytes h := (read_write ((write_ok_iff bytes).1 h) bytes).2
  write_again _ _ bytes h :=
    (write_ok_iff bytes).2 (writable_write ((write_ok_iff bytes).1 h) bytes)

/-! ## Files of modules -/

/-- Loads a module from what reading its file came to. -/
def Module.ofRead (file : String) (bytes : Except FileError ByteArray) :
    Logged StorageError Module := (do
  note (.loadingFile file)
  match bytes with
  | .ok bytes => ofExcept (Forest.ofBytes bytes)
  | .error e => fail (.file e)) >>= fun t => (Module.load t).mapError .record

theorem Module.ofRead_ok_iff {file : String} {read : Except FileError ByteArray} {m : Module} :
    (ofRead file read).result = .ok m ↔ ∃ bytes t, read = .ok bytes ∧
      Forest.ofBytes bytes = .ok t ∧ (load t).result = .ok m := by
  unfold ofRead
  rw [bind_ok_iff]
  constructor
  · rintro ⟨t, hread, hload⟩
    obtain ⟨-, -, hread⟩ := bind_ok_iff.1 hread
    cases read with
    | error e => cases hread
    | ok bytes =>
      refine ⟨bytes, t, rfl, hread, ?_⟩
      cases hmodule : (load t).result with
      | error e => rw [mapError, hmodule] at hload; cases hload
      | ok m' => rw [mapError, hmodule] at hload; cases hload; rfl
  · rintro ⟨bytes, t, rfl, hforest, hload⟩
    refine ⟨t, bind_ok_iff.2 ⟨(), rfl, hforest⟩, ?_⟩
    rw [mapError, hload]
    rfl

section

variable {σ : Type} [FileStore (StateM σ)] {s : σ} {file : String} {m : Module}

/-- The file can be read, and its bytes are the text of a forest that holds the module. -/
def Module.IsStored (m : Module) (s : σ) (file : String) : Prop :=
  ∃ bytes t, (readIn s file).1 = .ok bytes ∧ Forest.ofBytes bytes = .ok t ∧
    (load t).result = .ok m

theorem Module.isStored_iff :
    m.IsStored s file ↔ (ofRead file (readIn s file).1).result = .ok m := ofRead_ok_iff.symm

theorem Module.IsStored.unique {m' : Module} (h : m.IsStored s file) (h' : m'.IsStored s file) :
    m = m' := by
  rw [isStored_iff] at h h'
  exact Except.ok.inj (h.symm.trans h')

theorem Module.IsStored.of_text {text : String} {t : Forest}
    (hread : (readIn s file).1 = .ok text.toUTF8) (htext : Forest.ofText text = .ok t)
    (hmodule : (load t).result = .ok m) : m.IsStored s file := by
  refine ⟨_, t, hread, ?_, hmodule⟩
  rw [Forest.ofBytes, FileError.decode_toUTF8]
  dsimp only
  rw [htext]

theorem Module.run_ofFile (file : String) (s : σ) :
    (ofFile file : StateM σ (Logged StorageError Module)).run s =
      (ofRead file (readIn s file).1, (readIn s file).2) := rfl

end

end KeyedIR
