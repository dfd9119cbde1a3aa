set_option autoImplicit false

namespace Replan

structure Term where
  name : String
  kind : Option String
deriving DecidableEq, Inhabited

abbrev Substitution := List (String × String)

namespace Substitution

def lookup? (σ : Substitution) (name : String) : Option String :=
  (σ.find? fun pair => pair.1 == name).map Prod.snd

def insert : Substitution → String → String → Substitution
  | [], name, value => [(name, value)]
  | pair :: rest, name, value =>
      if pair.1 = name then (name, value) :: rest else pair :: insert rest name value

def ofPairs (pairs : List (String × String)) : Substitution :=
  pairs.foldl (fun σ pair => σ.insert pair.1 pair.2) []

def shadow (vars : List Term) (σ : Substitution) : Substitution :=
  σ.filter fun pair => !vars.any fun v => v.name == pair.1

end Substitution

namespace Term

def untyped (name : String) : Term := ⟨name, none⟩

def same (a b : Term) : Bool := a.name == b.name

def sameList (ts us : List Term) : Bool := ts.map Term.name == us.map Term.name

def isVariable (t : Term) : Bool := t.name.toList.head? == some '?'

def isGround (t : Term) : Bool := !t.isVariable

def stripType (t : Term) : Term := untyped t.name

def bind (σ : Substitution) (t : Term) : Term := { t with name := (σ.lookup? t.name).getD t.name }

def runs : List Term → List (Option String × List String)
  | [] => []
  | t :: ts =>
      match runs ts with
      | [] => [(t.kind, [t.name])]
      | (kind, names) :: rest =>
          if kind = t.kind then (kind, t.name :: names) :: rest
          else (t.kind, [t.name]) :: (kind, names) :: rest

/-- One run as `a b - kind`. In a list where some term has a type, the untyped ones are written as
objects, so that they do not fall under the type that follows. -/
def runText (anyTyped : Bool) (run : Option String × List String) : String :=
  let names := " ".intercalate run.2
  match run.1 with
  | some kind => names ++ " - " ++ kind
  | none => if anyTyped then names ++ " - object" else names

def listText (terms : List Term) : String :=
  let anyTyped := terms.any fun t => t.kind.isSome
  " ".intercalate ((runs terms).map (runText anyTyped))

end Term

structure Ground where
  name : String
  args : List String
deriving DecidableEq, Inhabited, Hashable

namespace Ground

def text (g : Ground) : String := "(" ++ " ".intercalate (g.name :: g.args) ++ ")"

instance : LT Ground := ⟨fun a b => a.name < b.name ∨ a.name = b.name ∧ a.args < b.args⟩

instance (a b : Ground) : Decidable (a < b) :=
  inferInstanceAs (Decidable (a.name < b.name ∨ a.name = b.name ∧ a.args < b.args))

end Ground

structure Atom where
  name : String
  args : List Term
deriving DecidableEq, Inhabited

namespace Atom

def arity (a : Atom) : Nat := a.args.length

def isGround (a : Atom) : Bool := a.args.all Term.isGround

def signature (a : Atom) : String × Nat := (a.name, a.arity)

def stripTypes (a : Atom) : Atom := { a with args := a.args.map Term.stripType }

def bind (σ : Substitution) (a : Atom) : Atom := { a with args := a.args.map (Term.bind σ) }

def bindAll (σs : List Substitution) (a : Atom) : Atom := σs.foldl (fun a σ => a.bind σ) a

def ground (a : Atom) : Ground := ⟨a.name, a.args.map Term.name⟩

def same (a b : Atom) : Bool := a.ground == b.ground

def text (a : Atom) : String := a.ground.text

def declaration (a : Atom) : String :=
  if a.args.isEmpty then "(" ++ a.name ++ ")"
  else "(" ++ a.name ++ " " ++ Term.listText a.args ++ ")"

end Atom

def Ground.atom (g : Ground) : Atom := ⟨g.name, g.args.map Term.untyped⟩

end Replan
