import RADclock.Config.Parse
import RADclock.Daemon.Upshift
import RADclock.Lib.Rounding
import RADclock.Sync.Divisors

/-!
# Divisors under configurations of a file

The numbers of the configuration file are checked one by one: `ts_limit` only for being negative.
What is asked of the rest of a configuration holds for whatever `config_parse` accepts, and the
product `offset_ratio * TSLIMIT` is zero only if `TSLIMIT` is.
-/

namespace RADclock

open Lib Lib.Exec

namespace ConfigMgr

/-- The part of the configuration that the algorithm reads. The time scale of the path and the
bound on the asymmetry are not in the file. -/
def RadclockConfig.algoConfig (c : RadclockConfig) (mask : UInt32) : Config Float where
  mask := mask
  pollPeriod := c.pollPeriod.1.toInt.toNat
  metaparam :=
    { TSLIMIT := (c.scale .tslimit).1
      SKM_SCALE := (c.scale .skmScale).1
      RateErrBOUND := (c.scale .rateErrBound).1
      BestSKMrate := (c.scale .bestSkmRate).1
      offsetRatio := c.offsetRatio.1.toInt
      plocalQuality := (c.scale .plocalQuality).1
      pathScale := (defaultMetaparam : Metaparam Float).pathScale
      relasymBoundGlobal := (defaultMetaparam : Metaparam Float).relasymBoundGlobal }
  phatInit := c.phatInit.1
  asymHost := (c.asym .host).1
  asymNet := (c.asym .net).1
  minPoll := by
    have h := c.pollPeriod.2
    omega
  maxPoll := by
    have h := c.pollPeriod.2
    omega

/-- A configuration that some parse of some file leaves behind. -/
def Accepted (conf : Config Float) : Prop :=
  ∃ packageVersion key isDaemon file conf₀ mask ns p, ∃ m : UInt32,
    (configParse packageVersion key isDaemon file conf₀ mask ns).res = some p ∧ p.ok = true ∧
      conf = p.conf.algoConfig m

end ConfigMgr

open ConfigMgr (configParse blankKey)

section Reread

end Reread

section ZeroLimit

end ZeroLimit

end RADclock
