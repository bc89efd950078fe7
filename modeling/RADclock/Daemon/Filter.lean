import RADclock.Stamp.Types
import RADclock.Sync.Clock

/-!
# The sanity filter (`pthread_dataproc.c`)

`insane_bidir_stamp` compares a stamp with the last one received from the same server. It
asks for increasing `Ta`; about the order of the `Tf` of different stamps it says nothing.
-/

namespace RADclock

open Lib Arith

variable {D : Type} [Arith D]

/-- `memcmp` of two stamps, as a test of equality. -/
def sameStampT (a b : StampT D) : Bool :=
  a.type == b.type && a.id == b.id && a.serverIpaddr == b.serverIpaddr && a.ttl == b.ttl &&
    a.stratum == b.stratum && a.LI == b.LI && a.refid == b.refid &&
    bitEq a.rootdelay b.rootdelay && bitEq a.rootdispersion b.rootdispersion &&
    sameStamp a.bst b.bst

/-- At least one timestamp is missing. -/
def missingTimestamp (st : BidirStamp D) : Bool :=
  st.Ta == 0 || st.Tb == 0 || st.Te == 0 || st.Tf == 0

/-- `insane_bidir_stamp`. -/
def insaneBidirStamp (stamp laststamp : StampT D) : Bool :=
  if stamp.type ≠ laststamp.type then true
  else if sameStampT stamp laststamp then true
  else if missingTimestamp stamp.bst then true
  else if stamp.bst.Ta ≤ laststamp.bst.Ta then true
  else if stamp.bst.Tf < stamp.bst.Ta then true
  else if stamp.bst.Te < stamp.bst.Tb then true
  else if stamp.type = .ntp ∧ stamp.bst.Tf - stamp.bst.Ta < 120 then true
  else false

/-- What a stamp that passes the filter satisfies by itself. -/
structure Sane (stamp : StampT D) : Prop where
  present : missingTimestamp stamp.bst = false
  raw : stamp.bst.Ta ≤ stamp.bst.Tf
  server : ¬ stamp.bst.Te < stamp.bst.Tb
  rtt : stamp.type = .ntp → 120 ≤ stamp.bst.Tf - stamp.bst.Ta

/-- The filter passes exactly the sane stamps with a later `Ta`, of the type of the last. -/
theorem insaneBidirStamp_eq_false {stamp laststamp : StampT D} :
    insaneBidirStamp stamp laststamp = false ↔
      stamp.type = laststamp.type ∧ sameStampT stamp laststamp = false ∧ Sane stamp ∧
        laststamp.bst.Ta < stamp.bst.Ta := by
  unfold insaneBidirStamp
  constructor
  · intro h
    split at h
    · cases h
    next htype =>
    split at h
    · cases h
    next hsame =>
    split at h
    · cases h
    next hmiss =>
    split at h
    · cases h
    next hTa =>
    split at h
    · cases h
    next hraw =>
    split at h
    · cases h
    next hserver =>
    split at h
    · cases h
    next hrtt =>
    exact ⟨Decidable.not_not.mp htype, Bool.eq_false_iff.mpr hsame,
      ⟨Bool.eq_false_iff.mpr hmiss, UInt64.not_lt.mp hraw, hserver,
        fun ht => UInt64.not_lt.mp fun hlt => hrtt ⟨ht, hlt⟩⟩, UInt64.not_le.mp hTa⟩
  · rintro ⟨htype, hsame, hsane, hTa⟩
    rw [if_neg (not_not_intro htype), if_neg (Bool.eq_false_iff.mp hsame),
      if_neg (Bool.eq_false_iff.mp hsane.present), if_neg (UInt64.not_le.mpr hTa),
      if_neg (UInt64.not_lt.mpr hsane.raw), if_neg hsane.server]
    exact if_neg fun h => absurd h.2 (UInt64.not_lt.mpr (hsane.rtt h.1))

end RADclock
