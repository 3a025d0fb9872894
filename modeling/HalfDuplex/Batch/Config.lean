import HalfDuplex.Durations.Source
import HalfDuplex.Durations.Span

/-!
# Settings of a batch
-/

namespace HalfDuplex.Batch

structure Config where
  maxTasks : Nat := 200
  tick : Span := Span.ofNanos 1000000
  /-- Every transfer lasts fewer ticks than this. -/
  maxTransferTicks : Nat := 244
  seed : Nat := 123456789
deriving DecidableEq

namespace Config

inductive Defect where
  | zeroMaxTasks
  | zeroMaxTransferTicks
deriving DecidableEq

def Defect.message : Defect → String
  | .zeroMaxTasks => "max_tasks must be > 0"
  | .zeroMaxTransferTicks => "max_transfer_ticks must be > 0"

def validate (c : Config) : Except Defect Unit :=
  if c.maxTasks = 0 then .error .zeroMaxTasks
  else if c.maxTransferTicks = 0 then .error .zeroMaxTransferTicks
  else .ok ()

/-- More ticks than this last no longer. -/
def longestTicks : Nat := UInt32.size - 1

def transferTime (c : Config) (ticks : Nat) : Span := c.tick.times (min ticks longestTicks)

def source (c : Config) : Durations.Source := Durations.Source.ofSeed c.seed

end Config

end HalfDuplex.Batch
