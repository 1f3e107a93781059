-- SUMMARY: What an optimizer and a rolling state report while they work, with level and text.
import Rebalancing.Trade

/-!
# Events

Work reports what it does as a list of events. The words are chosen here and
nowhere else.
-/

namespace Rebalancing

/-- How much an event matters. -/
inductive Level where
  | warn
  | info
  | debug
  deriving DecidableEq, Repr

def Level.name : Level → String
  | warn => "WARN"
  | info => "INFO"
  | debug => "DEBUG"

/-- One of the two columns of a trade. -/
inductive Side where
  | delta
  | lam
  deriving DecidableEq, Repr

def Side.name : Side → String
  | delta => "delta"
  | lam => "lam"

/-- Something that happened. -/
inductive Event (F : Type) where
  | refused (e : InputError F)
  /-- A program was built. -/
  | built (assets auxiliaries rows : Nat)
  | solverFailed (e : SolverError)
  /-- An entry of the solver's trade is too far below zero. -/
  | entryRefused (side : Side) (index : Nat) (value : F)
  /-- An entry of the solver's trade is below zero by noise, and became zero. -/
  | entryClipped (side : Side) (index : Nat) (value : F)
  /-- The growth proxy of an asset would not stay above zero. -/
  | growthRefused (index : Nat) (value : F)
  /-- The geometric mean of the growth proxy would fall. -/
  | growthFell (before after : F)
  | decided (assets : Nat) (status : Status) (objective : F)
  /-- A rolling state came to a new period. -/
  | advanced (period : Nat)

namespace Event

variable {F : Type}

def level : Event F → Level
  | refused _ | solverFailed _ | entryRefused .. | growthRefused .. | growthFell .. => .warn
  | decided .. => .info
  | built .. | entryClipped .. | advanced _ => .debug

def text : Event Float → String
  | refused e => "rejected: " ++ e.message
  | built assets auxiliaries rows =>
    s!"rebalance: n {assets}, auxiliaries {auxiliaries}, cone rows {rows}"
  | solverFailed e => "solver: " ++ e.message
  | entryRefused side index value =>
    s!"{side.name}[{index}] = " ++ Numeral.message value ++ " below zero beyond tolerance"
  | entryClipped side index value =>
    s!"{side.name}[{index}] = " ++ Numeral.message value ++ " clipped"
  | growthRefused index value =>
    s!"new growth[{index}] = " ++ Numeral.message value ++ " not positive"
  | growthFell before after =>
    "geometric mean of growth decreased: " ++ Numeral.message before ++ " -> "
      ++ Numeral.message after
  | decided assets status objective =>
    s!"rebalance of {assets} assets: {status.text}, objective " ++ Numeral.message objective
  | advanced period => s!"period {period} advanced"

end Event

end Rebalancing
