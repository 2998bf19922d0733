import HatCircle.Error

/-!
# Search options

How long a search goes on and from which seed. A cap of no trials at all is
refused. Options are settled in layers: the defaults, then a file, then what the
caller asks for, each layer only replacing what it mentions.
-/

namespace HatCircle

structure Options where
  budgetMs : Nat := 1000
  seed : Option UInt64 := none
  /-- The number of trials after which sampling stops, time or not. -/
  maxTrials : Option Nat := none
deriving DecidableEq, Repr

inductive OptionsError where
  | zeroTrials
  | document
  | unreadable (path reason : String)
deriving DecidableEq, Repr

def OptionsError.toError : OptionsError → Error
  | .zeroTrials =>
    ⟨.config, (ErrorInfo.new "max-trials" "max_trials must be at least 1").withHint
      "omit max_trials to rely on the time budget alone"⟩
  | .document =>
    ⟨.format, .new "search-options-yaml" "the document does not describe search options"⟩
  | .unreadable path reason =>
    ⟨.config, (ErrorInfo.new "search-options-read" reason).withContext "path" path⟩

structure Overrides where
  budgetMs : Option Nat := none
  seed : Option UInt64 := none
  maxTrials : Option Nat := none
deriving DecidableEq, Repr

namespace Options

def seeded (seed : UInt64) : Options :=
  { seed := some seed }

def validate (options : Options) : Except OptionsError Options :=
  if options.maxTrials = some 0 then .error .zeroTrials else .ok options

/-- The options with what the caller asks for in place. -/
def override (options : Options) (overrides : Overrides) : Options where
  budgetMs := overrides.budgetMs.getD options.budgetMs
  seed := overrides.seed.or options.seed
  maxTrials := overrides.maxTrials.or options.maxTrials

end Options

end HatCircle
