import HatCircle.Random.SipHash
import HatCircle.Search.Run

/-!
# Batches

A batch repeats a search with independent seeds, all made from one master seed, and
counts the outcomes. `Batch.add` takes one outcome into the count.
-/

namespace HatCircle

structure Batch where
  masterSeed : UInt64
  runs : Nat
  counterexamples : Nat
  clean : Nat
  firstCounterexample : Option Assignment
deriving DecidableEq, Repr

def Batch.start (masterSeed : UInt64) (runs : Nat) : Batch :=
  ⟨masterSeed, runs, 0, 0, none⟩

def Batch.add (batch : Batch) : Outcome → Batch
  | .counterexample assignment =>
    { batch with
      counterexamples := batch.counterexamples + 1
      firstCounterexample := batch.firstCounterexample.or (some assignment) }
  | .noCounterexampleFound _ => { batch with clean := batch.clean + 1 }

namespace Formula

def runSeed (masterSeed : UInt64) (run : Nat) : UInt64 :=
  SipHash.substreamSeed masterSeed (UInt64.ofNat run)

/-- Makes `remaining` more runs from run number `run` on. Each run has its own clock. -/
def batchFrom (formula : Formula) (bounds : Bounds) (cap : Option Nat)
    (clock : Nat → Nat → Bool) : (remaining run : Nat) → Batch → Option Batch
  | 0, _, batch => some batch
  | remaining + 1, run, batch => do
    let report ← formula.searchSeeded bounds cap (clock run) (runSeed batch.masterSeed run)
    formula.batchFrom bounds cap clock remaining (run + 1) (batch.add report.outcome)

/-- Makes `runs` runs; `fresh` is the master seed where the options have none. -/
def batch (formula : Formula) (bounds : Bounds) (options : Options) (clock : Nat → Nat → Bool)
    (fresh : UInt64) (runs : Nat) : Option Batch :=
  formula.batchFrom bounds options.maxTrials clock runs 0
    (.start (options.seed.getD fresh) runs)

end Formula

end HatCircle
