set_option autoImplicit false

namespace Replan.Sorted

variable {α : Type} {β : Type} [LT α] [DecidableLT α] [DecidableEq α]

def insert (x : α) : List α → List α
  | [] => [x]
  | y :: ys => if x = y then y :: ys else if x < y then x :: y :: ys else y :: insert x ys

def ofList (xs : List α) : List α := xs.foldl (fun set x => insert x set) []

def erase (x : α) (set : List α) : List α := set.filter fun y => !(x = y)

def put (key : α) (value : β) : List (α × β) → List (α × β)
  | [] => [(key, value)]
  | entry :: rest =>
      if key = entry.1 then (key, value) :: rest
      else if key < entry.1 then (key, value) :: entry :: rest
      else entry :: put key value rest

def get? (key : α) (entries : List (α × β)) : Option β :=
  (entries.find? fun entry => entry.1 = key).map Prod.snd

def drop (key : α) (entries : List (α × β)) : List (α × β) :=
  entries.filter fun entry => !(entry.1 = key)

def ofEntries (entries : List (α × β)) : List (α × β) :=
  entries.foldl (fun map entry => put entry.1 entry.2 map) []

end Replan.Sorted
