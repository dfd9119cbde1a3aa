import Replan.State

set_option autoImplicit false

namespace Replan

inductive ArithmeticOp where
  | add | sub | mul | div
deriving DecidableEq, Inhabited

namespace ArithmeticOp

def apply {R : Type} [Number R] (op : ArithmeticOp) (a b : R) : R :=
  match op with
  | add => a + b
  | sub => a - b
  | mul => a * b
  | div => a / b

def symbol : ArithmeticOp → String
  | add => "+"
  | sub => "-"
  | mul => "*"
  | div => "/"

end ArithmeticOp

inductive Comparison where
  | less | greater | atMost | equal | atLeast
deriving DecidableEq, Inhabited

namespace Comparison

def apply {R : Type} [Number R] (op : Comparison) (a b : R) : Bool :=
  match op with
  | less => Number.lt a b
  | greater => Number.lt b a
  | atMost => Number.le a b
  | equal => Number.eq a b
  | atLeast => Number.le b a

def symbol : Comparison → String
  | less => "<"
  | greater => ">"
  | atMost => "<="
  | equal => "="
  | atLeast => ">="

end Comparison

inductive Value (R : Type) where
  | truth (b : Bool)
  | number (x : R)
deriving DecidableEq

namespace Value

variable {R : Type} [Number R]

def asBool : Value R → Bool
  | truth b => b
  | number x => !Number.isZero x

def asNumber : Value R → R
  | truth true => Number.one
  | truth false => Number.zero
  | number x => x

end Value

/-- A query over the facts and fluents of a state. `always` is the trivially true query, and the
empty disjunction the trivially false one. -/
inductive Query (R : Type) where
  | always
  | fact (a : Atom)
  | fluent (a : Atom)
  | constant (x : R)
  | arithmetic (op : ArithmeticOp) (left right : Query R)
  | comparison (op : Comparison) (left right : Query R)
  | conj (parts : List (Query R))
  | disj (parts : List (Query R))
  | neg (body : Query R)
  | imply (premise conclusion : Query R)
  | forAll (vars : List Term) (body : Query R)
  | forSome (vars : List Term) (body : Query R)
deriving Inhabited

namespace Query

variable {R : Type}

def falsity : Query R := disj []

def isFalse : Query R → Bool
  | disj [] => true
  | _ => false

def isAlways : Query R → Bool
  | always => true
  | _ => false

mutual
def bind (σ : Substitution) : Query R → Query R
  | always => always
  | fact a => fact (a.bind σ)
  | fluent a => fluent (a.bind σ)
  | constant x => constant x
  | arithmetic op left right => arithmetic op (bind σ left) (bind σ right)
  | comparison op left right => comparison op (bind σ left) (bind σ right)
  | conj parts => conj (bindList σ parts)
  | disj parts => disj (bindList σ parts)
  | neg body => neg (bind σ body)
  | imply premise conclusion => imply (bind σ premise) (bind σ conclusion)
  | forAll vars body => forAll vars (bind (σ.shadow vars) body)
  | forSome vars body => forSome vars (bind (σ.shadow vars) body)

def bindList (σ : Substitution) : List (Query R) → List (Query R)
  | [] => []
  | q :: qs => bind σ q :: bindList σ qs
end

variable [Number R]

mutual
/-- The value of the query after the given substitutions have been carried out, first to last.
Under a quantifier they lose the quantified variables, and an assignment to these comes last. -/
def evalUnder (s : State R) (σs : List Substitution) : Query R → Value R
  | always => .truth true
  | fact a => .truth (s.holds (a.bindAll σs).ground)
  | fluent a => .number (s.value (a.bindAll σs).ground)
  | constant x => .number x
  | arithmetic op left right =>
      .number (op.apply (evalUnder s σs left).asNumber (evalUnder s σs right).asNumber)
  | comparison op left right =>
      .truth (op.apply (evalUnder s σs left).asNumber (evalUnder s σs right).asNumber)
  | conj parts => .truth (allUnder s σs parts)
  | disj parts => .truth (anyUnder s σs parts)
  | neg body => .truth (!(evalUnder s σs body).asBool)
  | imply premise conclusion =>
      .truth (!(evalUnder s σs premise).asBool || (evalUnder s σs conclusion).asBool)
  | forAll vars body =>
      .truth ((s.world.bindings vars).all fun β =>
        (evalUnder s (σs.map (·.shadow vars) ++ [β]) body).asBool)
  | forSome vars body =>
      .truth ((s.world.bindings vars).any fun β =>
        (evalUnder s (σs.map (·.shadow vars) ++ [β]) body).asBool)

def allUnder (s : State R) (σs : List Substitution) : List (Query R) → Bool
  | [] => true
  | q :: qs => (evalUnder s σs q).asBool && allUnder s σs qs

def anyUnder (s : State R) (σs : List Substitution) : List (Query R) → Bool
  | [] => false
  | q :: qs => (evalUnder s σs q).asBool || anyUnder s σs qs
end

def eval (s : State R) (q : Query R) : Value R := q.evalUnder s []

def holds (s : State R) (q : Query R) : Bool := (q.eval s).asBool

mutual
def same : Query R → Query R → Bool
  | always, always => true
  | fact a, fact b => a.same b
  | fluent a, fluent b => a.same b
  | constant x, constant y => Number.eq x y
  | arithmetic op a b, arithmetic op' a' b' => op == op' && same a a' && same b b'
  | comparison op a b, comparison op' a' b' => op == op' && same a a' && same b b'
  | conj qs, conj qs' => sameList qs qs'
  | disj qs, disj qs' => sameList qs qs'
  | neg q, neg q' => same q q'
  | imply a b, imply a' b' => same a a' && same b b'
  | forAll vs q, forAll vs' q' => Term.sameList vs vs' && same q q'
  | forSome vs q, forSome vs' q' => Term.sameList vs vs' && same q q'
  | _, _ => false

def sameList : List (Query R) → List (Query R) → Bool
  | [], [] => true
  | q :: qs, q' :: qs' => same q q' && sameList qs qs'
  | _, _ => false
end

end Query

end Replan
