import KeyedIR.Program.Syntax
/-! # Labelling

Gives every declaration of a module its label: its class and its position in the list that owns
it. Labels from before are replaced. The types that declarations mention by name keep theirs.
-/

namespace KeyedIR

set_option autoImplicit false

def Function.labelled (f : Function) : Function :=
  { f with
    parameters := f.parameters.mapIdx fun i p => { p with label := some ⟨.parameter, i⟩ }
    locals := f.locals.mapIdx fun i v => { v with label := some ⟨.localVar, i⟩ } }

def Module.labelled (m : Module) : Module :=
  { m with
    types := m.types.mapIdx fun i t => { t with label := some ⟨.type, i⟩ }
    globals := m.globals.mapIdx fun i v => { v with label := some ⟨.global, i⟩ }
    functions := m.functions.mapIdx fun i f =>
      { f.labelled with label := some ⟨.function, i⟩ } }

end KeyedIR
