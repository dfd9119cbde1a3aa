import Replan.Term

set_option autoImplicit false

namespace Replan

structure Hierarchy where
  parents : Substitution
deriving DecidableEq, Inhabited

namespace Hierarchy

def empty : Hierarchy := ⟨[]⟩

def insert (h : Hierarchy) (child parent : String) : Hierarchy := ⟨h.parents.insert child parent⟩

def ofPairs (pairs : List (String × String)) : Hierarchy :=
  pairs.foldl (fun h pair => h.insert pair.1 pair.2) empty

def parent? (h : Hierarchy) (kind : String) : Option String := h.parents.lookup? kind

def contains (h : Hierarchy) (kind : String) : Bool := kind == "object" || (h.parent? kind).isSome

def isEmpty (h : Hierarchy) : Bool := h.parents.isEmpty

def climb (h : Hierarchy) (seen : List String) (kind : String) : Nat → List String
  | 0 => seen
  | steps + 1 =>
      match h.parent? kind with
      | none => seen
      | some parent => if parent ∈ seen then seen else climb h (seen ++ [parent]) parent steps

/-- The type itself followed by its ancestors, nearest first. A step leaves a declared type that no
step has left before, so there are at most as many as declared types. -/
def ancestors (h : Hierarchy) (kind : String) : List String :=
  h.climb [kind] kind h.parents.length

def isSubtype (h : Hierarchy) (kind ancestor : String) : Bool :=
  ancestor == "object" || (h.ancestors kind).contains ancestor

def declarations (h : Hierarchy) : List Term :=
  h.parents.map fun pair => ⟨pair.1, some pair.2⟩

def text (h : Hierarchy) : String := Term.listText h.declarations

def same (a b : Hierarchy) : Bool :=
  a.parents.length == b.parents.length &&
    a.parents.all fun pair => b.parent? pair.1 == some pair.2

end Hierarchy

end Replan
