set_option autoImplicit false

namespace Replan.Toml

inductive Value where
  | string (s : String)
  | integer (n : Int)
  | float (x : Float)
  | boolean (b : Bool)
  | moment
  | array (items : List Value)
  | table (fields : List (String × Value))
deriving Inhabited

inductive Origin where
  | explicit | implied | dotted
deriving DecidableEq, Inhabited

/-- What stands under a key while a document is read: a finished value, a table, or the tables of
an array, the one that is being filled last. -/
inductive Entry where
  | value (v : Value)
  | table (origin : Origin) (fields : List (String × Entry))
  | tables (filled : List (List (String × Entry))) (last : List (String × Entry))
deriving Inhabited

abbrev Fields := List (String × Entry)

abbrev Edit := Origin → Fields → Option (Origin × Fields)

def find? (key : String) (fields : Fields) : Option Entry :=
  (fields.find? fun field => field.1 == key).map Prod.snd

def put (key : String) (entry : Entry) : Fields → Fields
  | [] => [(key, entry)]
  | field :: rest => if field.1 = key then (key, entry) :: rest else field :: put key entry rest

/-- Follows a path of keys through tables, which are made where they are missing, and edits the one
at its end. Dotted keys do not lead into tables opened by a header. -/
def descend (dotted : Bool) (edit : Edit) : List String → Edit
  | [], origin, fields => edit origin fields
  | key :: path, origin, fields =>
      match find? key fields with
      | none => do
          let (how, inner) ←
            descend dotted edit path (if dotted then .dotted else .implied) []
          pure (origin, put key (.table how inner) fields)
      | some (.value _) => none
      | some (.tables filled last) => do
          let (_, inner) ← descend dotted edit path .explicit last
          pure (origin, put key (.tables filled inner) fields)
      | some (.table how inner) =>
          if dotted && how == .explicit then none
          else do
            let (how, inner) ← descend dotted edit path how inner
            pure (origin, put key (.table how inner) fields)

def define (dotted : Bool) (key : String) (v : Value) : Edit := fun origin fields =>
  if (origin == .dotted) != dotted || (find? key fields).isSome then none
  else some (origin, put key (.value v) fields)

def assign (path : List String) (key : String) (v : Value) : Edit :=
  descend true (define (!path.isEmpty) key v) path

def openTable (key : String) : Edit := fun origin fields =>
  match find? key fields with
  | none => some (origin, put key (.table .explicit []) fields)
  | some (.table .implied inner) => some (origin, put key (.table .explicit inner) fields)
  | some _ => none

def openElement (key : String) : Edit := fun origin fields =>
  match find? key fields with
  | none => some (origin, put key (.tables [] []) fields)
  | some (.tables filled last) => some (origin, put key (.tables (filled ++ [last]) []) fields)
  | some _ => none

mutual
def Entry.finish : Entry → Value
  | .value v => v
  | .table _ fields => .table (finishFields fields)
  | .tables filled last => .array (finishTables filled ++ [.table (finishFields last)])

def finishFields : List (String × Entry) → List (String × Value)
  | [] => []
  | (key, entry) :: rest => (key, entry.finish) :: finishFields rest

def finishTables : List (List (String × Entry)) → List Value
  | [] => []
  | fields :: rest => .table (finishFields fields) :: finishTables rest
end

end Replan.Toml
