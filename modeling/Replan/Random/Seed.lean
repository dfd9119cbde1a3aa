import Replan.Random.ChaCha

set_option autoImplicit false

namespace Replan.Seed

def next (s : UInt64) : UInt64 := s * 6364136223846793005 + 11634580027462260723

def output (s : UInt64) : UInt32 :=
  let x := (((s >>> 18) ^^^ s) >>> 27).toUInt32
  let n := (s >>> 59).toUInt32
  if n = 0 then x else (x >>> n) ||| (x <<< (32 - n))

def states (seed : UInt64) : Nat → UInt64
  | 0 => next seed
  | n + 1 => next (states seed n)

def key (seed : UInt64) : Vector UInt32 8 := Vector.ofFn fun i => output (states seed i)

end Replan.Seed
