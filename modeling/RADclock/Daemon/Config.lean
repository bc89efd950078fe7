import RADclock.Sync.State

/-!
# The configuration (`config_mgr.c`)

The defaults of `config_init` that the synchronization algorithm reads.
-/

namespace RADclock

open Lib

variable {D : Type} [Arith D]

/-- The metaparameters of `config_init`, of a good environment. -/
def defaultMetaparam : Metaparam D where
  TSLIMIT := 0.000015
  SKM_SCALE := 1024.0
  RateErrBOUND := 5e-7
  BestSKMrate := 2e-7
  offsetRatio := 10
  plocalQuality := 8e-7
  pathScale := Arith.ofNat (5 * 3600)
  relasymBoundGlobal := 0.2

/-- `config_init`, with another polling period than the default of 16 seconds. -/
def configInit (pollPeriod : Nat) (minPoll : 1 ≤ pollPeriod) (maxPoll : pollPeriod ≤ 1024) :
    Config D where
  mask := UPDMASK_NOUPD
  pollPeriod := pollPeriod
  metaparam := defaultMetaparam
  phatInit := 1e-9
  asymHost := 0
  asymNet := 0
  minPoll := minPoll
  maxPoll := maxPoll

/-- The same, with a polling period of `2 ^ k` seconds, and no longer than the longest. -/
def pollEvery (k : Nat) : Config D :=
  configInit (2 ^ min k 10) Nat.one_le_two_pow
    (Nat.pow_le_pow_right (by decide) (Nat.min_le_right k 10))

/-- The same, just after that period has been set. -/
def pollSet (k : Nat) : Config D := { pollEvery k with mask := UPDMASK_POLLPERIOD }

/-- The defaults of the configuration. -/
def defaults : Config Float := pollEvery 4

end RADclock
