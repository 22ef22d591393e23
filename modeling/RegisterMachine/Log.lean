/-!
# Log levels

Messages carry a level. Those below a threshold are dropped; each step of verbosity lowers the
threshold by one level, down to the lowest.
-/

namespace RegisterMachine

/-- Levels of a message, from the lowest to the highest. -/
inductive Level where
  | debug
  | info
  | warn
  | error
  deriving DecidableEq, Repr

namespace Level

def all : List Level :=
  [debug, info, warn, error]

def name : Level → String
  | debug => "DEBUG"
  | info => "INFO"
  | warn => "WARN"
  | error => "ERROR"

def rank : Level → Nat
  | debug => 0
  | info => 1
  | warn => 2
  | error => 3

/-- The lowest level that is shown at a verbosity. -/
def threshold : (verbosity : Nat) → Level
  | 0 => warn
  | 1 => info
  | _ + 2 => debug

/-- Whether messages of the level are shown at a verbosity. -/
def isShown (verbosity : Nat) (l : Level) : Bool :=
  (threshold verbosity).rank ≤ l.rank

end Level

end RegisterMachine
