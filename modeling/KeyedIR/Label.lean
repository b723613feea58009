/-! # Declaration classes and labels

Every declaration belongs to one of five classes. Its label is the letter of its class and its
position in the list that owns it, in decimal. Different labels have different texts.
-/

namespace KeyedIR

set_option autoImplicit false

inductive DeclClass where
  | type
  | global
  | function
  | parameter
  | localVar
  deriving DecidableEq

namespace DeclClass

def letter : DeclClass → Char
  | type => 't'
  | global => 'g'
  | function => 'f'
  | parameter => 'p'
  | localVar => 'l'

def ofLetter? : Char → Option DeclClass
  | 't' => some type
  | 'g' => some global
  | 'f' => some function
  | 'p' => some parameter
  | 'l' => some localVar
  | _ => none

/-- What a declaration of the class is called in a message. -/
def noun : DeclClass → String
  | type => "type declaration"
  | global => "global"
  | function => "function"
  | parameter => "parameter"
  | localVar => "local"

/-- The labels of a class belong to the whole module; those of parameters and locals belong to
one function. -/
def isModuleWide : DeclClass → Bool
  | type | global | function => true
  | parameter | localVar => false

theorem ofLetter?_eq_some_iff {c : Char} {cls : DeclClass} :
    ofLetter? c = some cls ↔ c = cls.letter := by
  constructor
  · intro h
    unfold ofLetter? at h
    split at h <;> cases h <;> rfl
  · rintro rfl
    cases cls <;> rfl

end DeclClass

/-- A generated name: the class of a declaration and its position among its kind. -/
structure Label where
  cls : DeclClass
  ordinal : Nat
  deriving DecidableEq

def Label.text (l : Label) : String := String.ofList (l.cls.letter :: Nat.toDigits 10 l.ordinal)

theorem Label.text_injective {l l' : Label} (h : l.text = l'.text) : l = l' := by
  obtain ⟨cls, n⟩ := l
  obtain ⟨cls', n'⟩ := l'
  have h' := congrArg String.toList h
  simp only [Label.text, String.toList_ofList, List.cons.injEq] at h'
  have hc : cls = cls' := by
    have := DeclClass.ofLetter?_eq_some_iff.2 h'.1
    rw [DeclClass.ofLetter?_eq_some_iff.2 rfl] at this
    exact Option.some.inj this
  have hn := congrArg (Nat.ofDigitChars 10 · 0) h'.2
  simp only [Nat.ofDigitChars_toDigits (b := 10) (by decide) (by decide)] at hn
  rw [hc, hn]

end KeyedIR
