/-!
# Seeds of independent runs

Each run of a batch has a seed of its own, made from the seed of the batch and the
number of the run by the keyed hash SipHash with one round per word and three at
the end, under a key of zero. The hashed message is the two numbers, eight bytes
each, the lowest byte first.
-/

namespace HatCircle.SipHash

structure State where
  v0 : UInt64
  v1 : UInt64
  v2 : UInt64
  v3 : UInt64
deriving DecidableEq, Repr

def rotate (word : UInt64) (bits : UInt64) : UInt64 :=
  (word <<< bits) ||| (word >>> (64 - bits))

def initial : State :=
  ⟨0x736f6d6570736575, 0x646f72616e646f6d, 0x6c7967656e657261, 0x7465646279746573⟩

def round (s : State) : State :=
  let v0 := s.v0 + s.v1
  let v1 := rotate s.v1 13 ^^^ v0
  let v0 := rotate v0 32
  let v2 := s.v2 + s.v3
  let v3 := rotate s.v3 16 ^^^ v2
  let v0 := v0 + v3
  let v3 := rotate v3 21 ^^^ v0
  let v2 := v2 + v1
  let v1 := rotate v1 17 ^^^ v2
  let v2 := rotate v2 32
  ⟨v0, v1, v2, v3⟩

def absorb (s : State) (word : UInt64) : State :=
  let s := round { s with v3 := s.v3 ^^^ word }
  { s with v0 := s.v0 ^^^ word }

/-- The hash that a state yields at the end of the message. -/
def finish (s : State) : UInt64 :=
  let s := Nat.repeat round 3 { s with v2 := s.v2 ^^^ 0xff }
  s.v0 ^^^ s.v1 ^^^ s.v2 ^^^ s.v3

/-- The hash of a message of whole words: its words, then its length in bytes in
the upper byte of a last word. -/
def hashWords (message : List UInt64) : UInt64 :=
  let length := UInt64.ofNat (8 * message.length)
  finish (absorb (message.foldl absorb initial) (length <<< 56))

/-- The seed of run number `run` of the batch with seed `master`. -/
def substreamSeed (master run : UInt64) : UInt64 :=
  hashWords [master, run]

end HatCircle.SipHash
