/-!
# The ChaCha stream

The stream cipher ChaCha with twelve rounds, as a source of words: the block of a
given number is a scrambled form of four constants, the key, the number of the
block and a nonce of zero.
-/

namespace HatCircle.ChaCha

abbrev Key := Vector UInt32 8

/-- The state of the cipher, and its output: sixteen words. -/
abbrev Block := Vector UInt32 16

def rotate (word : UInt32) (bits : UInt32) : UInt32 :=
  (word <<< bits) ||| (word >>> (32 - bits))

def quarterRound (a b c d : Fin 16) (s : Block) : Block :=
  let s := s.set a (s[a] + s[b])
  let s := s.set d (rotate (s[d] ^^^ s[a]) 16)
  let s := s.set c (s[c] + s[d])
  let s := s.set b (rotate (s[b] ^^^ s[c]) 12)
  let s := s.set a (s[a] + s[b])
  let s := s.set d (rotate (s[d] ^^^ s[a]) 8)
  let s := s.set c (s[c] + s[d])
  s.set b (rotate (s[b] ^^^ s[c]) 7)

/-- Scrambles the columns of the state and then its diagonals. -/
def doubleRound (s : Block) : Block :=
  let s := quarterRound 0 4 8 12 s
  let s := quarterRound 1 5 9 13 s
  let s := quarterRound 2 6 10 14 s
  let s := quarterRound 3 7 11 15 s
  let s := quarterRound 0 5 10 15 s
  let s := quarterRound 1 6 11 12 s
  let s := quarterRound 2 7 8 13 s
  quarterRound 3 4 9 14 s

def start (key : Key) (number : UInt64) : Block :=
  #v[0x61707865, 0x3320646e, 0x79622d32, 0x6b206574,
    key[0], key[1], key[2], key[3], key[4], key[5], key[6], key[7],
    number.toUInt32, (number >>> 32).toUInt32, 0, 0]

/-- The block of a given number: the start scrambled six times over and added to
itself. -/
def block (key : Key) (number : UInt64) : Block :=
  let initial := start key number
  let scrambled := Nat.repeat doubleRound 6 initial
  Vector.zipWith (· + ·) scrambled initial

end HatCircle.ChaCha
