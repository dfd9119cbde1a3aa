set_option autoImplicit false

namespace Replan.ChaCha

abbrev Block := Vector UInt32 16

def rotate (x : UInt32) (n : UInt32) : UInt32 := (x <<< n) ||| (x >>> (32 - n))

def mix (i j k : Fin 16) (n : UInt32) (b : Block) : Block :=
  let b := b.set i (b[i] + b[j])
  b.set k (rotate (b[k] ^^^ b[i]) n)

def quarterRound (i j k l : Fin 16) (b : Block) : Block :=
  mix k l j 7 (mix i j l 8 (mix k l j 12 (mix i j l 16 b)))

def doubleRound (b : Block) : Block :=
  let b := quarterRound 3 7 11 15 (quarterRound 2 6 10 14 (quarterRound 1 5 9 13
    (quarterRound 0 4 8 12 b)))
  quarterRound 3 4 9 14 (quarterRound 2 7 8 13 (quarterRound 1 6 11 12
    (quarterRound 0 5 10 15 b)))

def rounds : Nat → Block → Block
  | 0, b => b
  | n + 1, b => rounds n (doubleRound b)

def initial (key : Vector UInt32 8) (counter : UInt64) : Block :=
  #v[0x61707865, 0x3320646e, 0x79622d32, 0x6b206574,
    key[0], key[1], key[2], key[3], key[4], key[5], key[6], key[7],
    counter.toUInt32, (counter >>> 32).toUInt32, 0, 0]

def block (key : Vector UInt32 8) (counter : UInt64) : Block :=
  let start := initial key counter
  Vector.zipWith (· + ·) (rounds 6 start) start

def word (key : Vector UInt32 8) (position : Nat) : UInt32 :=
  (block key (UInt64.ofNat (position / 16))).get ⟨position % 16, Nat.mod_lt _ (by decide)⟩

end Replan.ChaCha
