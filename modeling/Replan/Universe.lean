import Replan.Hierarchy

set_option autoImplicit false

namespace Replan

structure Universe where
  objects : List Term
  types : Hierarchy
deriving DecidableEq, Inhabited

namespace Universe

def empty : Universe := ⟨[], Hierarchy.empty⟩

def distinct (objects : List Term) : List Term :=
  objects.foldl (fun kept o => if kept.any (Term.same o) then kept else kept ++ [o]) []

def ofObjects (objects : List Term) (types : Hierarchy) : Universe := ⟨distinct objects, types⟩

def belongs (u : Universe) (kind : String) (o : Term) : Bool :=
  match o.kind with
  | none => false
  | some declared => (u.types.ancestors declared).contains kind

/-- Objects usable for a parameter of the given type. Untyped parameters and those of type `object`
range over everything. -/
def objectsOf (u : Universe) : Option String → List Term
  | none => u.objects
  | some kind => if kind = "object" then u.objects else u.objects.filter (u.belongs kind)

def bindings (u : Universe) (params : List Term) : List Substitution :=
  params.foldl
    (fun partials param =>
      let candidates := u.objectsOf param.kind
      partials.flatMap fun σ => candidates.map fun o => σ.insert param.name o.name)
    [[]]

end Universe

end Replan
