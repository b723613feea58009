import KeyedIR.CommandLine.Run
import KeyedIR.Proofs.Record.Resave
import KeyedIR.Proofs.Storage.FileSystem
/-! # Relabelling is a normal form

A file from which a module can be loaded is rewritten to a text that depends on the module alone.
The text loads as the same module, so on a lasting file system rewriting it again gives the same
text, and it is shown as the first file is.
-/

namespace KeyedIR

set_option autoImplicit false

open Logged CommandLine

namespace Module

variable {σ : Type} [FileStore (StateM σ)] {s : σ} {file : String} {m : Module}

def fileText (m : Module) : String := (m.save .nil).text

/-- What is written for a module is a text that holds that module, if the module was loaded. -/
theorem IsStored.of_fileText (hstored : m.IsStored s file) {s' : σ} {file' : String}
    (hread : (readIn s' file').1 = .ok m.fileText.toUTF8) : m.IsStored s' file' := by
  obtain ⟨bytes, t, -, -, hmodule⟩ := hstored
  have htext : Forest.ofText m.fileText = .ok (m.save .nil) :=
    Forest.ofText_text m.tidy_save_nil.distinct m.tidy_save_nil.plain
  have hsound := sound_of_load hmodule
  have hagain := (quiet_load_save (fun _ _ => hsound.of_occurs) .nil).1
  rw [hsound.plain] at hagain
  exact .of_text hread htext hagain

end Module

/-! ## Runs -/

namespace CommandLine

section

variable {σ : Type} [FileStore (StateM σ)] {s : σ} {m : Module} {flags : Flags}
  {arguments : List String} (colors : Bool)

/-- Nothing keeps the command from being carried out: its module is stored, and the text of the
module can be written. -/
def Command.Feasible (s : σ) : Command → Prop
  | .listing file => ∃ m : Module, m.IsStored s file
  | .relabel source target => ∃ m : Module, m.IsStored s source ∧
      (writeIn (readIn s source).2 target (m.save .nil).text.toUTF8).1 = .ok ()

/-- A command is run with the flags that its arguments set. -/
theorem run_of_parse (s : σ) {command : Command}
    (hparse : parse arguments = .ok (.run flags command)) :
    (run colors arguments : StateM σ Outcome).run s =
      let done := (command.run (colors && !flags.noColor) :
        StateM σ (Logged StorageError String)).run s
      (.ofLogged flags done.1, done.2) := by
  rw [run, hparse]
  rfl

theorem ofLogged_ok {done : Logged StorageError String} {output : String}
    (h : done.result = .ok output) :
    (Outcome.ofLogged flags done).code = 0 ∧ (Outcome.ofLogged flags done).output = output := by
  rw [Outcome.ofLogged, h]
  exact ⟨rfl, rfl⟩

/-- What rewriting a module that could be loaded comes to. -/
theorem run_relabel {source target : String}
    (hload : (Module.ofRead source (readIn s source).1).result = .ok m) :
    (Command.run colors (.relabel source target) :
        StateM σ (Logged StorageError String)).run s =
      let written := writeIn (readIn s source).2 target m.fileText.toUTF8
      (⟨(Module.ofRead source (readIn s source).1).events, .ok ()⟩ >>= fun _ =>
        ⟨m.saveEvents ++ [.savingFile target], written.1.mapError .file⟩ >>= fun _ => do
        note (.relabelled m.name source target)
        return "", written.2) := by
  rw [Command.run, StateT.run_bind, Module.run_ofFile]
  dsimp only [bind]
  rw [hload]
  rfl

/-- A stored module is shown as its listing. -/
theorem run_listing_of_stored {file : String} (hstored : m.IsStored s file)
    (hparse : parse arguments = .ok (.run flags (.listing file))) :
    let shown := (run colors arguments : StateM σ Outcome).run s
    shown.1.code = 0 ∧ shown.1.output = m.listing.text (colors && !flags.noColor) := by
  rw [run_of_parse colors s hparse]
  refine ofLogged_ok ?_
  show (Module.ofRead file (readIn s file).1 >>= _).result = _
  rw [bind_ok_iff]
  exact ⟨m, Module.isStored_iff.1 hstored, rfl⟩

/-- A stored module is rewritten to its text. -/
theorem run_relabel_of_stored {source target : String} (hstored : m.IsStored s source)
    (hwritten : (writeIn (readIn s source).2 target m.fileText.toUTF8).1 = .ok ())
    (hparse : parse arguments = .ok (.run flags (.relabel source target))) :
    let rewritten := (run colors arguments : StateM σ Outcome).run s
    rewritten.1.code = 0 ∧
      rewritten.2 = (writeIn (readIn s source).2 target m.fileText.toUTF8).2 := by
  rw [run_of_parse colors s hparse, run_relabel _ (Module.isStored_iff.1 hstored)]
  refine ⟨(@ofLogged_ok _ _ "" ?_).1, rfl⟩
  dsimp only
  rw [hwritten]
  rfl

/-- Rewriting is a normal form on every lasting file system. If a module can be loaded from a file
and its text can be written under another name, the module is rewritten to a text that loads as
well. Rewriting that text, to whatever file, writes the same text again; and the text is shown as
the first file is, with colours and without. -/
theorem relabel_normalizes (files : LastingFileSystem σ) {source target : String}
    (hstored : m.IsStored s source)
    (hwritten : (writeIn (readIn s source).2 target m.fileText.toUTF8).1 = .ok ())
    (hparse : parse arguments = .ok (.run flags (.relabel source target))) :
    let rewritten := (run colors arguments : StateM σ Outcome).run s
    rewritten.1.code = 0 ∧ ∃ text : String, (readIn rewritten.2 target).1 = .ok text.toUTF8 ∧
      m.IsStored rewritten.2 target ∧ (Command.relabel target target).Feasible rewritten.2 ∧
      (∀ (colors' : Bool) (flags' : Flags) (arguments' : List String) (target' : String),
        parse arguments' = .ok (.run flags' (.relabel target target')) →
        (Command.relabel target target').Feasible rewritten.2 →
        let again := (run colors' arguments' : StateM σ Outcome).run rewritten.2
        again.1.code = 0 ∧ (readIn again.2 target').1 = .ok text.toUTF8) ∧
      ∀ (colors' : Bool) (first second : Flags) (showFirst showSecond : List String),
        parse showFirst = .ok (.run first (.listing source)) →
        parse showSecond = .ok (.run second (.listing target)) →
        first.noColor = second.noColor →
        let shownFirst := (run colors' showFirst : StateM σ Outcome).run s
        let shownSecond := (run colors' showSecond : StateM σ Outcome).run rewritten.2
        shownFirst.1.code = 0 ∧ shownSecond.1.code = 0 ∧
          shownFirst.1.output = shownSecond.1.output := by
  intro rewritten
  obtain ⟨hcode, hfiles⟩ := run_relabel_of_stored colors hstored hwritten hparse
  have hread : (readIn rewritten.2 target).1 = .ok m.fileText.toUTF8 :=
    hfiles ▸ files.read_written _ _ _ hwritten
  have hagain : m.IsStored rewritten.2 target := hstored.of_fileText hread
  have hwritable : (writeIn (readIn rewritten.2 target).2 target m.fileText.toUTF8).1 = .ok () :=
    hfiles ▸ files.write_again _ _ _ hwritten
  refine ⟨hcode, m.fileText, hread, hagain, ⟨m, hagain, hwritable⟩, ?_, ?_⟩
  · rintro colors' flags' arguments' target' hparse' ⟨m', hm', hwritten'⟩ again
    obtain rfl := hagain.unique hm'
    obtain ⟨hcode', hfiles'⟩ := run_relabel_of_stored colors' hagain hwritten' hparse'
    exact ⟨hcode', hfiles' ▸ files.read_written _ _ _ hwritten'⟩
  · intro colors' first second showFirst showSecond hfirst hsecond hcolor shownFirst shownSecond
    obtain ⟨hcodeFirst, hshownFirst⟩ := run_listing_of_stored colors' hstored hfirst
    obtain ⟨hcodeSecond, hshownSecond⟩ := run_listing_of_stored colors' hagain hsecond
    exact ⟨hcodeFirst, hcodeSecond, by rw [hshownFirst, hshownSecond, hcolor]⟩

end

theorem ofText_repeated : Forest.ofText
    "# by hand\nmodule:\n  name: \"m\"\n  typedefs:\n    x:\n      name: \"T\"\n  name: \"n\"\n" =
      .ok (.cons "module" none (.cons "name" (some (.string "n")) .nil (.branch "typedefs"
        (.branch "x" (.string "name" "T")))) .nil) := by
  cbv

/-- Such a text is rewritten to another file, and that file then in place. -/
theorem relabel_normalizes_repeated :
    let runOn (fs : FileTree) (arguments : List String) : Outcome × FileTree :=
      (run true arguments : StateM FileTree Outcome).run fs
    let fs : FileTree := { nodes := [(["", "a"], .file (String.toUTF8
      "# by hand\nmodule:\n  name: \"m\"\n  typedefs:\n    x:\n      name: \"T\"\n  name: \"n\"\n"))] }
    (runOn fs ["rewrite", "a", "b"]).1.code = 0 ∧ ∃ text : String,
      (runOn fs ["rewrite", "a", "b"]).2.read "b" = .ok text.toUTF8 ∧
      (runOn (runOn fs ["rewrite", "a", "b"]).2 ["rewrite", "b", "b"]).2.read "b" =
        .ok text.toUTF8 ∧
      (runOn fs ["show", "a"]).1.output =
        (runOn (runOn fs ["rewrite", "a", "b"]).2 ["show", "b"]).1.output := by
  intro runOn fs
  have hread (bytes : ByteArray) :
      FileTree.read { nodes := [(["", "a"], .file bytes)] } "a" = .ok bytes := by cbv
  have hwritable (bytes : ByteArray) :
      FileTree.Writable { nodes := [(["", "a"], .file bytes)] } "b" := by
    refine ⟨["", "b"], by cbv, ?_⟩
    cbv
    intro h
    cases h
  have hmodule : (Module.load (.cons "module" none
      (.cons "name" (some (.string "n")) .nil (.branch "typedefs" (.branch "x"
        (.string "name" "T")))) .nil)).result =
      .ok { name := "n", types := ⟨#[{ name := "T" }]⟩ } := by cbv
  have hstored : Module.IsStored { name := "n", types := ⟨#[{ name := "T" }]⟩ } fs "a" :=
    .of_text (hread _) ofText_repeated hmodule
  have hwritable : fs.Writable "b" := hwritable _
  clear_value fs
  have hrewrite : parse ["rewrite", "a", "b"] = .ok (.run {} (.relabel "a" "b")) := rfl
  have hrepeat : parse ["rewrite", "b", "b"] = .ok (.run {} (.relabel "b" "b")) := rfl
  have hfirst : parse ["show", "a"] = .ok (.run {} (.listing "a")) := rfl
  have hsecond : parse ["show", "b"] = .ok (.run {} (.listing "b")) := rfl
  obtain ⟨hcode, text, htext, -, hagain, hidempotent, hshown⟩ :=
    relabel_normalizes true FileTree.lastingSystem hstored
      (FileTree.read_write hwritable _).1 hrewrite
  refine ⟨hcode, text, htext, ?_, ?_⟩
  · exact (hidempotent true {} _ "b" hrepeat hagain).2
  · exact (hshown true {} {} _ _ hfirst hsecond rfl).2.2

end CommandLine

end KeyedIR
