import HatCircle.Random.ChaCha
import HatCircle.Random.Source

/-!
# The generator

A reproducible source of random words. A seed of 64 bits is stretched to the key of
a ChaCha stream, and the words of the blocks are handed out in order. Numbers of 64
bits take two words, the lower one first. Bytes take whole words, the lowest byte
first; what is left of the last word is thrown away.
-/

namespace HatCircle

structure Generator where
  key : ChaCha.Key
  nextBlock : UInt64
  block : ChaCha.Block
  used : Nat
deriving DecidableEq, Repr

namespace Generator

/-- One step of the sequence from which keys are made. -/
def advanceSeed (state : UInt64) : UInt64 :=
  state * 6364136223846793005 + 11634580027462260723

def seedWord (state : UInt64) : UInt32 :=
  let x := (((state >>> 18) ^^^ state) >>> 27).toUInt32
  let bits := (state >>> 59).toUInt32
  (x >>> bits) ||| (x <<< ((32 - bits) % 32))

/-- The key of a seed: the words of the eight states after it. -/
def keyOfSeed (seed : UInt64) : ChaCha.Key :=
  Vector.ofFn fun i => seedWord (Nat.repeat advanceSeed (i.val + 1) seed)

/-- The generator of a seed, at the start of its stream. -/
def ofSeed (seed : UInt64) : Generator :=
  let key := keyOfSeed seed
  ⟨key, 1, ChaCha.block key 0, 0⟩

def nextWord (g : Generator) : UInt32 × Generator :=
  if h : g.used < 16 then (g.block[g.used], { g with used := g.used + 1 })
  else
    let block := ChaCha.block g.key g.nextBlock
    (block[0], { g with nextBlock := g.nextBlock + 1, block := block, used := 1 })

instance : WordSource Generator := ⟨nextWord⟩

def nextLong (g : Generator) : UInt64 × Generator :=
  let (low, g) := g.nextWord
  let (high, g) := g.nextWord
  ((high.toUInt64 <<< 32) ||| low.toUInt64, g)

def wordBytes (word : UInt32) : List UInt8 :=
  [word.toUInt8, (word >>> 8).toUInt8, (word >>> 16).toUInt8, (word >>> 24).toUInt8]

def nextWords : Nat → Generator → List UInt8 × Generator
  | 0, g => ([], g)
  | count + 1, g =>
    let (word, g) := g.nextWord
    let (bytes, g) := nextWords count g
    (wordBytes word ++ bytes, g)

def nextBytes (count : Nat) (g : Generator) : List UInt8 × Generator :=
  let (bytes, g) := nextWords ((count + 3) / 4) g
  (bytes.take count, g)

end Generator

end HatCircle
