import RADclock.Sync.Types

/-!
# Stamps with their side information (`sync_algo.h`)

`struct stamp_t` carries the four timestamps together with what the reply said about the
server. A stamp is built in the matching queue from two halves, checked by `process_stamp`,
and its four timestamps are handed to the algorithm.
-/

namespace RADclock

open Lib

/-- `stamp_type_t`. -/
inductive StampType where
  | unknown | spy | ntp | pps
deriving DecidableEq, Repr

/-- `struct stamp_t`, for bidirectional stamps. The address is the contents of the character
array up to its terminator. -/
structure StampT (D : Type) where
  type : StampType
  id : UInt64
  serverIpaddr : List Char
  ttl : Int
  stratum : Int
  LI : Int
  refid : UInt32
  rootdelay : D
  rootdispersion : D
  bst : BidirStamp D

end RADclock
