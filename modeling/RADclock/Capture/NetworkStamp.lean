import RADclock.Capture.Payload
import RADclock.Capture.StampQueue
import RADclock.Daemon.ServerId
import RADclock.Ntp.Server

/-!
# Packets and the stamp queue (`create_stamp.c`)

A packet is checked, and the half of a stamp that it carries is pushed into the stamp queue. The
return code tells whether that made a full stamp, and a caller that has one takes it out at once.

- `updateStampQueue`, `getNetworkStamp`: the code.
- `pushOf`: the half that a packet carries.
- `updateStampQueue_of_push`, `updateStampQueue_of_none`: a call is a push of that half, or no
  change.
- `reports_iff`: the packets whose return code tells what it should.
-/

namespace RADclock.Capture

open Lib Ntp

/-! ## The code -/

/-- `MODE_BROADCAST` -/
def modeBroadcast : Int := 5

/-- `STRATUM_UNSPEC` -/
def stratumUnspec : UInt8 := 16

/-- `PKT_LEAP` -/
def pktLeap (liVnMode : UInt8) : UInt8 := (liVnMode >>> 6) &&& 0x3

/-- `struct timeref_stats`, of which these are counted here. -/
structure TimerefStats where
  refCount : Nat
  badqualCount : Nat
deriving DecidableEq, Repr

/-- A packet, and what the locals of `update_stamp_queue` hold before they are set. -/
structure NetPacket where
  packet : RadpcapPacket
  ssIf : SockAddr
  udph : Nat
  ssSrc : SockAddr
  ssDst : SockAddr
  ttl : Int

/-- The header that `ntp` points to. -/
def loadNtpPkt (big : Bool) (mem : Nat → UInt8) (ntp : Nat) : NtpPkt where
  liVnMode := mem ntp
  stratum := mem (ntp + 1)
  ppoll := mem (ntp + 2)
  precision := (mem (ntp + 3)).toInt8
  rootdelay := .ofNat (load big (bytesAt mem (ntp + 4) 4))
  rootdispersion := .ofNat (load big (bytesAt mem (ntp + 8) 4))
  refid := .ofNat (load big (bytesAt mem (ntp + 12) 4))
  reftime := loadLFp big mem (ntp + 16)
  org := loadLFp big mem (ntp + 24)
  recTs := loadLFp big mem (ntp + 32)
  xmt := loadLFp big mem (ntp + 40)

/-- `compare_sockaddr_storage` -/
def compareSockaddrStorage : SockAddr → SockAddr → Int
  | .inet first, .inet second => if first = second then 0 else 1
  | .inet6 first, .inet6 second => if first = second then 0 else 1
  | _, _ => 1

/-- `is_loopback_sockaddr_storage` -/
def isLoopbackSockaddrStorage : SockAddr → Bool
  | .inet addr => addr = [127, 0, 0, 1]
  | .inet6 addr => addr = List.replicate 15 0 ++ [1]

/-- `bad_packet_client` -/
def badPacketClient (ssIf ssDst : SockAddr) : Bool :=
  compareSockaddrStorage ssIf ssDst = 0 ∧ ¬ isLoopbackSockaddrStorage ssDst

/-- `bad_packet_server` -/
def badPacketServer (ntp : NtpPkt) (ssIf ssSrc : SockAddr) (stats : TimerefStats) :
    Bool × TimerefStats :=
  if compareSockaddrStorage ssIf ssSrc = 0 ∧ ¬ isLoopbackSockaddrStorage ssSrc then (true, stats)
  -- If the server is unsynchronised we skip this packet
  else if pktLeap ntp.liVnMode = LEAP_NOTINSYNC then
    (true, { stats with badqualCount := stats.badqualCount + 1 })
  else if ntp.stratum = stratumUnspec then (true, stats)
  else (false, stats)

/-- A stamp id from a timestamp of a packet. -/
def stampId (big : Bool) (ts : LFp) : UInt64 :=
  (htonl big ts.lInt).toUInt64 <<< 32 ||| (htonl big ts.lFra).toUInt64

section

variable {D : Type} [Arith D] (host : Host) (inetNtop : SockAddr → Text)
  (scrub : Nat → Cell (StampT D) → Cell (StampT D))

/-- The stamp of `push_client_halfstamp`. What is not set is not read. -/
def clientHalfstamp (ntp : NtpPkt) (vcount : VCounter) (ssDst : SockAddr) : StampT D :=
  { (blankStamp (stampId host.wordsBigendian ntp.xmt) : StampT D) with
    serverIpaddr := inetNtop ssDst
    bst := { (0 : BidirStamp D) with Ta := vcount } }

/-- The stamp of `push_server_halfstamp`. -/
def serverHalfstamp (ntp : NtpPkt) (vcount : VCounter) (ttl : Int) : StampT D :=
  let big := host.wordsBigendian
  { (blankStamp (stampId big ntp.org) : StampT D) with
    ttl := ttl
    refid := htonl big ntp.refid
    stratum := ntp.stratum.toNat
    LI := (pktLeap ntp.liVnMode).toNat
    rootdelay := Arith.ofNat (htonl big ntp.rootdelay).toNat / 65536.0
    rootdispersion := Arith.ofNat (htonl big ntp.rootdispersion).toNat / 65536.0
    bst :=
      { (0 : BidirStamp D) with
        Tb := ntptimeToUtcld big ntp.recTs
        Te := ntptimeToUtcld big ntp.xmt
        Tf := vcount } }

/-- The header behind the payload that was found. -/
def NetPacket.ntp (p : NetPacket) (payload : Payload) : NtpPkt :=
  loadNtpPkt host.wordsBigendian p.packet.payload payload.ntp

/-- `PKT_MODE(ntp->li_vn_mode)` -/
def ntpMode (ntp : NtpPkt) : Int := (pktMode ntp.liVnMode).toNat

/-- `update_stamp_queue` -/
def updateStampQueue (q : DList) (h : Heap (StampT D)) (p : NetPacket) (stats : TimerefStats) :
    Option (Int × TimerefStats × DList × Heap (StampT D)) :=
  match getVcount host p.packet with
  | none => some (-1, stats, q, h)
  | some vcount =>
    match getValidNtpPayload host p.udph p.packet with
    | none => some (1, stats, q, h)
    | some payload =>
      let ntp := p.ntp host payload
      let ssSrc := payload.ssSrc.getD p.ssSrc
      let ssDst := payload.ssDst.getD p.ssDst
      let ttl := payload.ttl.elim p.ttl fun ttl => ttl.toNat
      -- Silent discard; `err` is still 0.
      if ntpMode ntp = modeBroadcast then some (0, stats, q, h)
      else if ntpMode ntp = modeClient then
        if badPacketClient p.ssIf ssDst then some (1, stats, q, h)
        else
          (insertandmatchHalfstamp scrub q h (clientHalfstamp host inetNtop ntp vcount ssDst)
            modeClient).map fun r => (r.1, stats, r.2)
      else if ntpMode ntp = modeServer then
        let (err, stats) := badPacketServer ntp p.ssIf ssSrc stats
        if err then some (1, stats, q, h)
        else
          (insertandmatchHalfstamp scrub q h (serverHalfstamp host ntp vcount ttl)
            modeServer).map fun r => (r.1, stats, r.2)
      else some (1, stats, q, h)

end

/-! ## The half in a packet -/

section Push

variable {D : Type} [Arith D] (host : Host) (inetNtop : SockAddr → Text)

/-- The half that a packet carries past all checks, with its mode. -/
def pushOf (p : NetPacket) : Option (Int × StampT D) := do
  let vcount ← getVcount host p.packet
  let payload ← getValidNtpPayload host p.udph p.packet
  let ntp := p.ntp host payload
  let ssSrc := payload.ssSrc.getD p.ssSrc
  let ssDst := payload.ssDst.getD p.ssDst
  let ttl := payload.ttl.elim p.ttl fun ttl => ttl.toNat
  if ntpMode ntp = modeClient ∧ ¬ badPacketClient p.ssIf ssDst then
    some (modeClient, clientHalfstamp host inetNtop ntp vcount ssDst)
  else if ntpMode ntp = modeServer ∧ ¬ (badPacketServer ntp p.ssIf ssSrc ⟨0, 0⟩).1 then
    some (modeServer, serverHalfstamp host ntp vcount ttl)
  else none

/-- A broadcast of NTP with a counter value. -/
def Broadcast (p : NetPacket) : Prop :=
  (getVcount host p.packet).isSome ∧
    ∃ payload ∈ getValidNtpPayload host p.udph p.packet,
      ntpMode (p.ntp host payload) = modeBroadcast

variable {host inetNtop} (scrub : Nat → Cell (StampT D) → Cell (StampT D)) {p : NetPacket}
  {mode : Int} {new : StampT D}

theorem badPacketServer_fst (ntp : NtpPkt) (ssIf ssSrc : SockAddr) (stats stats' : TimerefStats) :
    (badPacketServer ntp ssIf ssSrc stats).1 = (badPacketServer ntp ssIf ssSrc stats').1 := by
  unfold badPacketServer
  split_ifs <;> rfl

theorem updateStampQueue_of_push (hp : pushOf host inetNtop p = some (mode, new)) (q : DList)
    (h : Heap (StampT D)) (stats : TimerefStats) :
    ∃ stats', updateStampQueue host inetNtop scrub q h p stats =
      (insertandmatchHalfstamp scrub q h new mode).map fun r => (r.1, stats', r.2) := by
  simp only [pushOf, Option.bind_eq_bind, Option.bind_eq_some_iff] at hp
  obtain ⟨vcount, hvcount, payload, hpayload, hp⟩ := hp
  unfold updateStampQueue
  simp only [hvcount, hpayload]
  split_ifs at hp with hclient hserver
  · obtain ⟨rfl, rfl⟩ := Prod.mk.inj (Option.some.inj hp)
    have hne : ¬ modeClient = modeBroadcast := by decide
    refine ⟨stats, ?_⟩
    rw [hclient.1, if_neg hne, if_pos rfl, if_neg hclient.2]
  · obtain ⟨rfl, rfl⟩ := Prod.mk.inj (Option.some.inj hp)
    have hne : ¬ modeServer = modeBroadcast := by decide
    have hne' : ¬ modeServer = modeClient := by decide
    have hgood := hserver.2
    rw [badPacketServer_fst _ _ _ _ stats] at hgood
    refine ⟨(badPacketServer (p.ntp host payload) p.ssIf (payload.ssSrc.getD p.ssSrc) stats).2, ?_⟩
    rw [hserver.1, if_neg hne, if_neg hne', if_pos rfl, if_neg hgood]

theorem updateStampQueue_of_none (hp : pushOf (D := D) host inetNtop p = none) (q : DList)
    (h : Heap (StampT D)) (stats : TimerefStats) :
    ∃ r stats', updateStampQueue host inetNtop scrub q h p stats = some (r, stats', q, h) ∧
      (r = -1 ↔ getVcount host p.packet = none) ∧ (r = 0 ↔ Broadcast host p) ∧
      (r = -1 ∨ r = 0 ∨ r = 1) := by
  unfold updateStampQueue Broadcast
  -- each way a packet can come to nothing, in the order of the tests
  cases hvcount : getVcount host p.packet with
  | none => exact ⟨-1, stats, rfl, by simp, by simp, by simp⟩
  | some vcount =>
    cases hpayload : getValidNtpPayload host p.udph p.packet with
    | none => exact ⟨1, stats, rfl, by simp, by simp, by simp⟩
    | some payload =>
      simp only [pushOf, hvcount, hpayload, Option.bind_eq_bind, Option.bind_some] at hp
      split_ifs at hp with hclient hserver
      dsimp only
      by_cases hbroadcast : ntpMode (p.ntp host payload) = modeBroadcast
      · exact ⟨0, stats, if_pos hbroadcast, by simp, by simp [hbroadcast], by simp⟩
      have hother : (1 : Int) = 0 ↔ (some vcount).isSome ∧
          ∃ pl ∈ some payload, ntpMode (p.ntp host pl) = modeBroadcast := by
        simp [hbroadcast]
      rw [if_neg hbroadcast]
      by_cases hc : ntpMode (p.ntp host payload) = modeClient
      · refine ⟨1, stats, ?_, by simp, hother, by simp⟩
        rw [if_pos hc, if_pos (by simpa [hc] using hclient)]
      rw [if_neg hc]
      by_cases hs : ntpMode (p.ntp host payload) = modeServer
      · rw [badPacketServer_fst _ _ _ _ stats] at hserver
        refine ⟨1, (badPacketServer (p.ntp host payload) p.ssIf
          (payload.ssSrc.getD p.ssSrc) stats).2, ?_, by simp, hother, by simp⟩
        rw [if_pos hs, if_pos (by simpa [hs] using hserver)]
      · exact ⟨1, stats, if_neg hs, by simp, hother, by simp⟩

/-- A half is of one of the two modes, and carries the counter value. -/
theorem pushOf_some (hp : pushOf host inetNtop p = some (mode, new)) :
    ∃ vcount, getVcount host p.packet = some vcount ∧
      (mode = modeClient ∧ new.bst.Ta = vcount ∨ mode = modeServer ∧ new.bst.Tf = vcount) := by
  simp only [pushOf, Option.bind_eq_bind, Option.bind_eq_some_iff] at hp
  obtain ⟨vcount, hvcount, payload, -, hp⟩ := hp
  refine ⟨vcount, hvcount, ?_⟩
  split_ifs at hp with hclient hserver
  · obtain ⟨rfl, rfl⟩ := Prod.mk.inj (Option.some.inj hp)
    exact Or.inl ⟨rfl, rfl⟩
  · obtain ⟨rfl, rfl⟩ := Prod.mk.inj (Option.some.inj hp)
    exact Or.inr ⟨rfl, rfl⟩

theorem not_broadcast (hp : pushOf host inetNtop p = some (mode, new)) : ¬ Broadcast host p := by
  rintro ⟨-, payload, hpayload, hmode⟩
  simp only [pushOf, Option.bind_eq_bind, Option.bind_eq_some_iff] at hp
  obtain ⟨vcount, -, payload', hpayload', hp⟩ := hp
  obtain rfl : payload' = payload := Option.some.inj (hpayload'.symm.trans hpayload)
  have hne : ¬ modeBroadcast = modeClient := by decide
  have hne' : ¬ modeBroadcast = modeServer := by decide
  rw [hmode, if_neg fun hc => hne hc.1, if_neg fun hs => hne' hs.1] at hp
  cases hp

end Push

/-! ## What a push completes -/

section Completed

variable {D : Type} {mode r : Int} {new stamp stamp' : StampT D} {us ws s s' : List (StampT D)}

/-- The queue holds one more full stamp than before. -/
def Completed (q q' : List (StampT D)) : Prop :=
  q'.countP (fun stamp => StampFull stamp) = q.countP (fun stamp => StampFull stamp) + 1

theorem not_completed_self : ¬ Completed s s := Nat.ne_of_lt (Nat.lt_succ_self _)

theorem completed_at (hstamp : ¬ StampFull stamp) :
    Completed (us ++ stamp :: ws) (us ++ stamp' :: ws) ↔ StampFull stamp' := by
  have hbefore : (stamp :: ws).countP (fun stamp => StampFull stamp) =
      ws.countP (fun stamp => StampFull stamp) :=
    List.countP_cons_of_neg (by simpa using hstamp)
  unfold Completed
  rw [List.countP_append, List.countP_append, hbefore]
  by_cases hfull : StampFull stamp'
  · rw [List.countP_cons_of_pos (by simpa using hfull)]
    exact iff_of_true rfl hfull
  · rw [List.countP_cons_of_neg (by simpa using hfull)]
    exact iff_of_false (Nat.ne_of_lt (Nat.lt_succ_self _)) hfull

theorem find_split (hus : ∀ u ∈ us, u.id ≠ new.id) (hid : stamp.id = new.id) :
    (us ++ stamp :: ws).find? (fun stamp => stamp.id = new.id) = some stamp := by
  refine List.find?_eq_some_iff_append.mpr ⟨decide_eq_true hid, us, ws, rfl, fun u hu => ?_⟩
  simpa using hus u hu

/-- The push is of a half that has a counter value. -/
def Valued (mode : Int) (new : StampT D) : Prop :=
  mode = modeClient ∧ new.bst.Ta ≠ 0 ∨ mode = modeServer ∧ new.bst.Tf ≠ 0

theorem fillHalf_client (new stamp : StampT D) :
    (fillHalf modeClient new stamp).bst = { stamp.bst with Ta := new.bst.Ta } := rfl

theorem fillHalf_server (new stamp : StampT D) :
    (fillHalf modeServer new stamp).bst =
      { stamp.bst with Tb := new.bst.Tb, Te := new.bst.Te, Tf := new.bst.Tf } := rfl

/-- A stamp is full when its second half comes in. -/
theorem Valued.full_fillHalf (hv : Valued mode new) (hhalf : ¬ HasHalf mode stamp) :
    StampFull (fillHalf mode new stamp) ↔ ¬ (stamp.bst.Ta = 0 ∧ stamp.bst.Tf = 0) := by
  unfold HasHalf at hhalf
  rcases hv with ⟨rfl, hv⟩ | ⟨rfl, hv⟩
  · have hTa : stamp.bst.Ta = 0 := by simpa using fun h' => hhalf (Or.inl ⟨rfl, h'⟩)
    simp [StampFull, fillHalf_client, hv, hTa]
  · have hTf : stamp.bst.Tf = 0 := by simpa using fun h' => hhalf (Or.inr ⟨rfl, h'⟩)
    simp [StampFull, fillHalf_server, hv, hTf]

theorem Valued.hasHalf_of_full (hv : Valued mode new) (hfull : StampFull stamp) :
    HasHalf mode stamp := by
  rcases hv with ⟨hm, -⟩ | ⟨hm, -⟩
  · exact Or.inl ⟨hm, hfull.1⟩
  · exact Or.inr ⟨hm, hfull.2⟩

variable [Zero D]

theorem Valued.not_full_pushed (hv : Valued mode new) (id : UInt64) :
    ¬ StampFull (fillHalf mode new (blankStamp id)) := by
  rcases hv with ⟨rfl, -⟩ | ⟨rfl, -⟩
  · exact fun hfull => hfull.2 rfl
  · exact fun hfull => hfull.1 rfl

/-- A push reports what it should unless it meets an element without halves. -/
theorem Inserted.reports (hi : Inserted mode new s r s') (hv : Valued mode new) :
    (r = 0 ∨ r = 1) ∧ ((r = 0 ↔ Completed s s') ↔
      ∀ stamp, s.find? (fun stamp => stamp.id = new.id) = some stamp →
        ¬ (stamp.bst.Ta = 0 ∧ stamp.bst.Tf = 0)) := by
  cases hi with
  | unsupported hbad =>
    rcases hv with ⟨hm, -⟩ | ⟨hm, -⟩
    · exact absurd hm hbad.1
    · exact absurd hm hbad.2
  | duplicate _ hus hid hhalf =>
    refine ⟨Or.inr rfl, iff_of_true (iff_of_false (by decide) not_completed_self) ?_⟩
    intro stamp hfind
    obtain rfl := Option.some.inj ((find_split hus hid).symm.trans hfind)
    rintro ⟨hTa, hTf⟩
    rcases hhalf with ⟨-, hne⟩ | ⟨-, hne⟩
    · exact hne hTa
    · exact hne hTf
  | filled _ hus hid hhalf =>
    refine ⟨Or.inl rfl, ?_⟩
    rw [completed_at fun hfull => hhalf (hv.hasHalf_of_full hfull), hv.full_fillHalf hhalf,
      find_split hus hid]
    simp
  | pushed _ hq =>
    have hnone : s.find? (fun stamp => stamp.id = new.id) = none := by simpa using hq
    refine ⟨Or.inr rfl, iff_of_true (iff_of_false (by decide) ?_) (by simp [hnone])⟩
    have hle := (trimmed_sublist s).countP_le (p := fun stamp => (StampFull stamp : Bool))
    unfold Completed
    rw [List.countP_cons_of_neg (by simpa using hv.not_full_pushed new.id)]
    omega

end Completed

/-! ## The return code -/

section Reports

variable {D : Type} [Arith D] (host : Host) (inetNtop : SockAddr → Text)
  (scrub : Nat → Cell (StampT D) → Cell (StampT D))

/-- The return code is `0` exactly for a full stamp completed, and `-1` at most for a counter that
is not read. -/
def Reports (q : DList) (h : Heap (StampT D)) (xs : List (Nat × StampT D)) (p : NetPacket)
    (stats : TimerefStats) : Prop :=
  ∃ r stats' q' h' xs', updateStampQueue host inetNtop scrub q h p stats =
    some (r, stats', q', h') ∧
    IsList q' h' xs' ∧ (r = 0 ↔ Completed (xs.map Prod.snd) (xs'.map Prod.snd)) ∧
    (r = -1 → getVcount host p.packet = none) ∧ (r = -1 ∨ r = 0 ∨ r = 1)

/-- The element of the queue that the packet is matched with has neither half. -/
def MeetsBlank (q : List (StampT D)) (p : NetPacket) : Prop :=
  ∃ (mode : Int) (new stamp : StampT D), pushOf host inetNtop p = some (mode, new) ∧
    q.find? (fun stamp => stamp.id = new.id) = some stamp ∧ stamp.bst.Ta = 0 ∧ stamp.bst.Tf = 0

variable {host inetNtop scrub} {q : DList} {h : Heap (StampT D)} {xs : List (Nat × StampT D)}
  {p : NetPacket} {stats : TimerefStats} {mode : Int} {new : StampT D}

theorem pushOf_valued (hv : getVcount host p.packet ≠ some 0)
    (hp : pushOf host inetNtop p = some (mode, new)) : Valued mode new := by
  obtain ⟨vcount, hvcount, ⟨hmode, rfl⟩ | ⟨hmode, rfl⟩⟩ := pushOf_some hp
  · exact Or.inl ⟨hmode, fun h0 => hv (h0 ▸ hvcount)⟩
  · exact Or.inr ⟨hmode, fun h0 => hv (h0 ▸ hvcount)⟩

/-- The return code of a broadcast tells of a stamp that there is not. -/
theorem Reports.not_broadcast (hr : Reports host inetNtop scrub q h xs p stats)
    (hl : IsList q h xs) : ¬ Broadcast host p := by
  intro hb
  cases hpush : pushOf (D := D) host inetNtop p with
  | some push => exact Capture.not_broadcast hpush hb
  | none =>
    obtain ⟨r, stats', hcode, -, hbroadcast, -⟩ := updateStampQueue_of_none scrub hpush q h stats
    obtain ⟨r₁, stats₁, q₁, h₁, xs₁, hcode₁, hl₁, hzero, -, -⟩ := hr
    cases hcode.symm.trans hcode₁
    rw [hl₁.unique hl] at hzero
    exact not_completed_self (hzero.mp (hbroadcast.mpr hb))

/-- For a packet with a counter value, the return code tells what it should exactly if the packet
is not a broadcast, and not matched with an element that has neither half. -/
theorem reports_iff (hl : IsList q h xs) (hv : getVcount host p.packet ≠ some 0) :
    Reports host inetNtop scrub q h xs p stats ↔
      ¬ Broadcast host p ∧ ¬ MeetsBlank host inetNtop (xs.map Prod.snd) p := by
  cases hpush : pushOf (D := D) host inetNtop p with
  -- the packet pushes nothing
  | none =>
    have hblank : ¬ MeetsBlank host inetNtop (xs.map Prod.snd) p := by
      rintro ⟨mode, new, stamp, hp, -⟩
      exact nomatch hpush.symm.trans hp
    refine ⟨fun hr => ⟨hr.not_broadcast hl, hblank⟩, ?_⟩
    rintro ⟨hb, -⟩
    obtain ⟨r, stats', hcode, hfail, hbroadcast, hr⟩ :=
      updateStampQueue_of_none scrub hpush q h stats
    refine ⟨r, stats', q, h, xs, hcode, hl, ?_, hfail.mp, hr⟩
    exact iff_of_false (fun h0 => hb (hbroadcast.mp h0)) not_completed_self
  | some push =>
    obtain ⟨mode, new⟩ := push
    have hvalued := pushOf_valued hv hpush
    obtain ⟨r, q', h', xs', hcode, hl', hi⟩ := insertandmatchHalfstamp_spec scrub hl new mode
    obtain ⟨stats', hupdate⟩ := updateStampQueue_of_push scrub hpush q h stats
    rw [hcode, Option.map_some] at hupdate
    obtain ⟨hr, hiff⟩ := hi.reports hvalued
    -- the code tests the stamp found by an address of zeros
    have hblank : ¬ MeetsBlank host inetNtop (xs.map Prod.snd) p ↔
        ∀ stamp, (xs.map Prod.snd).find? (fun stamp => stamp.id = new.id) = some stamp →
          ¬ (stamp.bst.Ta = 0 ∧ stamp.bst.Tf = 0) := by
      constructor
      · intro hnot stamp hfind hzero
        exact hnot ⟨mode, new, stamp, hpush, hfind, hzero⟩
      · rintro hall ⟨mode₁, new₁, stamp, hp, hfind, hzero⟩
        cases hpush.symm.trans hp
        exact hall stamp hfind hzero
    rw [and_iff_right (Capture.not_broadcast hpush), hblank, ← hiff]
    constructor
    · rintro ⟨r₁, stats₁, q₁, h₁, xs₁, hcode₁, hl₁, hzero, -, -⟩
      cases hupdate.symm.trans hcode₁
      rwa [hl₁.unique hl'] at hzero
    · intro hzero
      refine ⟨r, stats', q', h', xs', hupdate, hl', hzero, fun hr' => ?_, Or.inr hr⟩
      rcases hr with rfl | rfl <;> cases hr'

end Reports

/-- `inet_ntop` for IPv4: a dotted quad. -/
def inetNtop4 : SockAddr → Text
  | .inet addr => List.intercalate ['.'] (addr.map fun byte => printUnsigned byte.toNat)
  | .inet6 _ => []

/-- IPv4 and UDP in an SLL header with the counter value 1. -/
def ntpFrame (liVnMode : UInt8) : NetPacket where
  packet :=
    { header := { tvSec := 0, tvUsec := 0, caplen := 92, len := 92 }
      payload i :=
        if i = 3 ∨ i = 13 then 0x01 else if i = 14 then 0x08
        else if i = 16 then 0x45 else if i = 24 then 64 else if i = 25 then 17
        else if i = 44 then liVnMode else 0
      size := 116
      type := .linuxSll }
  ssIf := .inet [10, 0, 0, 1]
  udph := 0
  ssSrc := .inet []
  ssDst := .inet []
  ttl := 0

/-- A broadcast that arrives at an empty queue. -/
theorem not_reports :
    ¬ ∀ (host : Host) (inetNtop : SockAddr → Text)
      (scrub : Nat → Cell (StampT Float) → Cell (StampT Float)) (q : DList)
      (h : Heap (StampT Float)) (xs : List (Nat × StampT Float)) (p : NetPacket)
      (stats : TimerefStats), IsList q h xs → getVcount host p.packet ≠ some 0 →
        Reports host inetNtop scrub q h xs p stats := by
  intro hall
  have hr := hall littleEndianHost inetNtop4 (fun _ c => c) _ _ _ (ntpFrame 0x25) ⟨0, 0⟩
    isList_empty (by decide)
  exact hr.not_broadcast isList_empty ⟨by decide,
    ⟨44, some (.inet [0, 0, 0, 0]), some (.inet [0, 0, 0, 0]), some 64⟩, by decide, by decide⟩

/-- A request that waits for its reply. -/
def waitingRequest : StampT Float :=
  { blankStamp 0 with serverIpaddr := "0.0.0.0".toList, bst := ⟨1, 0, 0, 0⟩ }

/-- The reply that completes the request in the queue. -/
theorem reports_reply :
    Reports littleEndianHost inetNtop4 (fun _ c => c) ⟨some 0, some 0, 1⟩
        ⟨fun _ => some ⟨waitingRequest, none, none⟩, 1⟩ [(0, waitingRequest)]
          (ntpFrame 0x24) ⟨0, 0⟩ ∧
      (updateStampQueue littleEndianHost inetNtop4 (fun _ c => c) ⟨some 0, some 0, 1⟩
        ⟨fun _ => some ⟨waitingRequest, none, none⟩, 1⟩ (ntpFrame 0x24) ⟨0, 0⟩).map
          (fun out => out.1) = some 0 := by
  have hl : IsList ⟨some 0, some 0, 1⟩ ⟨fun _ => some ⟨waitingRequest, none, none⟩, 1⟩
      [(0, waitingRequest)] := ⟨rfl, rfl, rfl, ⟨rfl, True.intro⟩, by decide, by simp⟩
  refine ⟨(reports_iff hl (by decide)).mpr ⟨?_, ?_⟩, by decide +kernel⟩
  · rintro ⟨-, payload, hpayload, hmode⟩
    have h44 : payload.ntp = 44 := by
      rw [← Option.some.inj hpayload]
      rfl
    rw [NetPacket.ntp, h44] at hmode
    exact absurd hmode (by decide)
  · rintro ⟨mode, new, stamp, -, hfind, hTa, -⟩
    have hwaiting : stamp = waitingRequest :=
      List.mem_singleton.mp (List.mem_of_find?_eq_some hfind)
    rw [hwaiting] at hTa
    exact absurd hTa (by decide)

end RADclock.Capture
