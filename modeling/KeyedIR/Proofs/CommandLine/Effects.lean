import KeyedIR.Proofs.CommandLine.Relabel
/-! # A command is carried out as a whole or not at all

A module is loaded before anything is written, and what is printed or written is known in full by
then. So on every file system a run that fails leaves every file as it was and prints nothing, and
a run that succeeds prints the listing of the module or writes one file, and does nothing else
(`CommandLine.run_all_or_nothing`).
-/

namespace KeyedIR

set_option autoImplicit false

open Logged

section

variable {σ : Type} [FileStore (StateM σ)]

/-- The second state of the files is the first one after some bytes were written under a name. -/
def FileSystem.OnlyWrites (files : FileSystem σ) (s : σ) (name : String) (bytes : ByteArray)
    (s' : σ) : Prop :=
  ∃ file, files.target s name = some file ∧ files.content s' file = some bytes ∧
    ∀ other, other ≠ file → files.content s' other = files.content s other

namespace CommandLine

variable (files : FileSystem σ) (colors : Bool)

/-- What a command that is carried out prints, and what it does to the files. -/
def Command.Effect (s : σ) (output : String) (s' : σ) : Command → Prop
  | .listing file => ∃ m : Module, m.IsStored s file ∧ output = m.listing.text colors ∧
      files.content s' = files.content s
  | .relabel source target => ∃ m : Module, m.IsStored s source ∧ output = "" ∧
      files.OnlyWrites s target (m.save .nil).text.toUTF8 s'

/-- A command has its effect, or it fails and every file is as it was. -/
inductive Command.Ends (s : σ) (command : Command) (ended : Logged StorageError String × σ) : Prop
  | effect (hfeasible : command.Feasible s) {output : String}
      (hresult : ended.1.result = .ok output)
      (heffect : command.Effect files colors s output ended.2)
  | failure (hinfeasible : ¬ command.Feasible s) {e : StorageError}
      (hresult : ended.1.result = .error e) (hcontent : files.content ended.2 = files.content s)

theorem ofLogged_error {flags : Flags} {done : Logged StorageError String} {e : StorageError}
    (h : done.result = .error e) :
    (Outcome.ofLogged flags done).code = 1 ∧ (Outcome.ofLogged flags done).output = "" := by
  rw [Outcome.ofLogged, h]
  exact ⟨rfl, rfl⟩

variable {s : σ}

theorem ends_listing (file : String) :
    (Command.listing file).Ends files colors s ((Command.run colors (.listing file) :
      StateM σ (Logged StorageError String)).run s) := by
  have hrun : (Command.run colors (.listing file) :
      StateM σ (Logged StorageError String)).run s =
        (Module.ofRead file (readIn s file).1 >>= fun m => pure (m.listing.text colors),
          (readIn s file).2) := rfl
  rw [hrun]
  cases hload : (Module.ofRead file (readIn s file).1).result with
  | ok m =>
    have hstored : m.IsStored s file := Module.isStored_iff.2 hload
    exact .effect ⟨m, hstored⟩ (bind_of_ok hload) ⟨m, hstored, rfl, files.content_read s file⟩
  | error e =>
    refine .failure ?_ (bind_of_error hload) (files.content_read s file)
    rintro ⟨m, hm⟩
    rw [Module.isStored_iff, hload] at hm
    cases hm

theorem ends_relabel (source target : String) :
    (Command.relabel source target).Ends files colors s ((Command.run colors
      (.relabel source target) : StateM σ (Logged StorageError String)).run s) := by
  cases hload : (Module.ofRead source (readIn s source).1).result with
  | error e =>
    have hrun : (Command.run colors (.relabel source target) :
        StateM σ (Logged StorageError String)).run s =
          (⟨(Module.ofRead source (readIn s source).1).events, .error e⟩,
            (readIn s source).2) := by
      rw [Command.run, StateT.run_bind, Module.run_ofFile]
      dsimp only [bind]
      rw [hload]
      rfl
    rw [hrun]
    refine .failure ?_ rfl (files.content_read s source)
    rintro ⟨m, hm, -⟩
    rw [Module.isStored_iff, hload] at hm
    cases hm
  | ok m =>
    have hstored : m.IsStored s source := Module.isStored_iff.2 hload
    rw [run_relabel _ hload]
    cases hwritten : (writeIn (readIn s source).2 target m.fileText.toUTF8).1 with
    | ok =>
      obtain ⟨file, htarget, hcontent, hothers⟩ := files.content_written _ _ _ hwritten
      rw [files.target_read] at htarget
      rw [files.content_read] at hothers
      refine .effect ⟨m, hstored, hwritten⟩ ?_
        ⟨m, hstored, rfl, file, htarget, hcontent, hothers⟩
      dsimp only
      rw [hwritten]
      rfl
    | error e =>
      refine .failure ?_ (e := .file e) ?_ ?_
      · rintro ⟨m', hm', hok⟩
        rw [Module.isStored_iff, hload] at hm'
        cases hm'
        cases hwritten.symm.trans hok
      · dsimp only
        rw [hwritten]
        rfl
      · exact (files.content_failed _ _ _ _ hwritten).trans (files.content_read s source)

/-- On every file system each command ends with exit code 0 or 1, and with 0 exactly if nothing
keeps it from being carried out. With 1 nothing is printed and every file is as it was. With 0 the
listing of the module is printed and every file is as it was; or nothing is printed and the target,
which may be the source, holds the text of the module, and every other file is as it was. -/
theorem run_all_or_nothing {arguments : List String} {flags : Flags} {command : Command}
    (hparse : parse arguments = .ok (.run flags command)) :
    let ended := (run colors arguments : StateM σ Outcome).run s
    (ended.1.code = 0 ∨ ended.1.code = 1) ∧ (ended.1.code = 0 ↔ command.Feasible s) ∧
      (ended.1.code = 1 → ended.1.output = "" ∧ files.content ended.2 = files.content s) ∧
      (ended.1.code = 0 →
        command.Effect files (colors && !flags.noColor) s ended.1.output ended.2) := by
  have hends : command.Ends files (colors && !flags.noColor) s
      ((command.run (colors && !flags.noColor) :
        StateM σ (Logged StorageError String)).run s) := by
    cases command with
    | listing file => exact ends_listing files _ file
    | relabel source target => exact ends_relabel files _ source target
  rw [run_of_parse colors s hparse]
  cases hends with
  | effect hfeasible hresult heffect =>
    obtain ⟨hcode, houtput⟩ := @ofLogged_ok flags _ _ hresult
    dsimp only
    rw [hcode, houtput]
    exact ⟨.inl rfl, iff_of_true rfl hfeasible, nofun, fun _ => heffect⟩
  | failure hinfeasible hresult hcontent =>
    obtain ⟨hcode, houtput⟩ := @ofLogged_error flags _ _ hresult
    dsimp only
    rw [hcode, houtput]
    exact ⟨.inr rfl, iff_of_false nofun hinfeasible, fun _ => ⟨rfl, hcontent⟩, nofun⟩

end CommandLine

end

namespace CommandLine

/-- A file is rewritten in place, and a file that is not there is shown. -/
theorem run_all_or_nothing_in_place :
    let fs : FileTree := { nodes := [(["", "a"], .file (String.toUTF8
      "# by hand\nmodule:\n  name: \"m\"\n  typedefs:\n    x:\n      name: \"T\"\n  name: \"n\"\n"))] }
    let m : Module := { name := "n", types := ⟨#[{ name := "T" }]⟩ }
    ((run true ["rewrite", "a", "a"] : StateM FileTree Outcome).run fs).1.output = "" ∧
      FileTree.system.OnlyWrites fs "a" (m.save .nil).text.toUTF8
        ((run true ["rewrite", "a", "a"] : StateM FileTree Outcome).run fs).2 ∧
      ((run true ["show", "b"] : StateM FileTree Outcome).run fs).1.code = 1 ∧
      FileTree.content ((run true ["show", "b"] : StateM FileTree Outcome).run fs).2 =
        FileTree.content fs := by
  intro fs m
  have hread (bytes : ByteArray) :
      FileTree.read { nodes := [(["", "a"], .file bytes)] } "a" = .ok bytes := by cbv
  have hmissing (bytes : ByteArray) :
      FileTree.read { nodes := [(["", "a"], .file bytes)] } "b" = .error .notFound := by cbv
  have hwritable (bytes : ByteArray) :
      FileTree.Writable { nodes := [(["", "a"], .file bytes)] } "a" := by
    refine ⟨["", "a"], by cbv, ?_⟩
    cbv
    intro h
    cases h
  have hmodule : (Module.load (.cons "module" none
      (.cons "name" (some (.string "n")) .nil (.branch "typedefs" (.branch "x"
        (.string "name" "T")))) .nil)).result = .ok m := by cbv
  have hstored : m.IsStored fs "a" :=
    .of_text (hread _) ofText_repeated hmodule
  have hmissing : fs.read "b" = .error .notFound := hmissing _
  have hwritable : fs.Writable "a" := hwritable _
  clear_value fs m
  have hrewrite : parse ["rewrite", "a", "a"] = .ok (.run {} (.relabel "a" "a")) := rfl
  have hshow : parse ["show", "b"] = .ok (.run {} (.listing "b")) := rfl
  obtain ⟨-, hdone, -, heffect⟩ := run_all_or_nothing FileTree.system true (s := fs) hrewrite
  obtain ⟨hcode, hnot, hfailure, -⟩ := run_all_or_nothing FileTree.system true (s := fs) hshow
  obtain ⟨m', hm', houtput, hfiles⟩ :=
    heffect (hdone.2 ⟨m, hstored, (FileTree.read_write hwritable _).1⟩)
  rw [Module.isStored_iff, Module.isStored_iff.1 hstored] at hm'
  cases hm'
  have hfailed : ((run true ["show", "b"] : StateM FileTree Outcome).run fs).1.code = 1 := by
    refine hcode.resolve_left fun hok => ?_
    obtain ⟨m', bytes, t, hbytes, -⟩ := hnot.1 hok
    cases hmissing.symm.trans hbytes
  exact ⟨houtput, hfiles, hfailed, (hfailure hfailed).2⟩

end CommandLine

end KeyedIR
