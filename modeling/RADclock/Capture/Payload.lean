import RADclock.Capture.Livepcap

/-!
# The NTP payload of a frame (`create_stamp.c`)

`get_valid_ntp_payload` finds the NTP header behind the link, IP and UDP headers of three historical
formats: Ethernet (1), Ethernet within an SLL header (2) and IP within an SLL header (3). It keeps
the number of bytes that remain in a signed `int`, which is compared with signed and unsigned sizes.

For formats 1 and 2 the pointer to the UDP header is never set. In format 3 the size of an IPv4
header without options is taken off, whatever its length field says, and 12 bytes are enough for a
header of which 48 are read.

- `checkIpv4`, `checkIpv6`, `getValidNtpPayload`: the code.
- `ValidPayload`: what a payload should be.
- `getValidNtpPayload_valid_iff`: the frames whose payload is.
-/

namespace RADclock.Capture

open Lib

variable (h : Host)

/-! ## The code -/

/-- The length field of an IPv4 header, in words. -/
def ipHl (payload : Nat → UInt8) (iph : Nat) : Nat := (payload iph).toNat % 16

def ipV (payload : Nat → UInt8) (iph : Nat) : Nat := (payload iph).toNat / 16

/-- `check_ipv4`. -/
def checkIpv4 (payload : Nat → UInt8) (iph : Nat) (remaining : Int32) : Nat :=
  if ipV payload iph ≠ 4 then 1
  else if load h.wordsBigendian (bytesAt payload (iph + 6) 2) &&& 0xff1f ≠ 0 then 1
  else if payload (iph + 9) ≠ 17 then 1
  -- The signed number is converted.
  else if remaining.toUInt32 < .ofNat (ipHl payload iph * 4) then 1
  else 0

/-- `check_ipv6`. -/
def checkIpv6 (payload : Nat → UInt8) (ip6h : Nat) (remaining : Int32) : Nat :=
  if payload (ip6h + 6) ≠ 17 then 1
  else if remaining < 40 then 1
  else 0

/-- The part of a `struct sockaddr_storage` that is set. -/
inductive SockAddr where
  | inet (addr : List UInt8)
  | inet6 (addr : List UInt8)
deriving DecidableEq, Repr

/-- What the link and IP headers say. An address or a hop limit that is not set is `none`. -/
structure Headers where
  udph : Nat
  ssSrc : Option SockAddr
  ssDst : Option SockAddr
  ttl : Option UInt8
  remaining : Int32

/-- `sllh->hatype`. -/
def sllHatype (packet : RadpcapPacket) : Nat :=
  ntoh h.wordsBigendian 2 (load h.wordsBigendian (bytesAt packet.payload 2 2))

/-- `sllh->protocol`. -/
def sllProtocol (packet : RadpcapPacket) : Nat :=
  ntoh h.wordsBigendian 2 (load h.wordsBigendian (bytesAt packet.payload 14 2))

/-- The captured bytes, less some. -/
def remainingAfter (packet : RadpcapPacket) (n : Int32) : Int32 :=
  packet.header.caplen.toInt32 - n

/-- The `switch` of `get_valid_ntp_payload`; `udph` is what the pointer holds before it is set. -/
def parseHeaders (udph : Nat) (packet : RadpcapPacket) : Option Headers :=
  match packet.type with
  -- format 1
  | .en10mb => some ⟨udph, none, none, none, remainingAfter packet 14⟩
  | .linuxSll =>
    -- format 2
    if sllHatype h packet ≠ 0x0001 then some ⟨udph, none, none, none, remainingAfter packet 14⟩
    -- format 3
    else if sllProtocol h packet = ethertypeIp then
      if checkIpv4 h packet.payload 16 (remainingAfter packet 16) ≠ 0 then none
      else
        some
          { udph := 16 + ipHl packet.payload 16 * 4
            ssSrc := some (.inet (bytesAt packet.payload (16 + 12) 4))
            ssDst := some (.inet (bytesAt packet.payload (16 + 16) 4))
            ttl := some (packet.payload (16 + 8))
            remaining := remainingAfter packet 16 - 20 }
    else if sllProtocol h packet = ethertypeIpv6 then
      if checkIpv6 packet.payload 16 (remainingAfter packet 16) ≠ 0 then none
      else
        some
          { udph := 16 + 40
            ssSrc := some (.inet6 (bytesAt packet.payload (16 + 8) 16))
            ssDst := some (.inet6 (bytesAt packet.payload (16 + 24) 16))
            ttl := some (packet.payload (16 + 7))
            remaining := remainingAfter packet 16 - 40 }
    else none
  | _ => none

/-- What `get_valid_ntp_payload` hands back when it returns `0`. -/
structure Payload where
  ntp : Nat
  ssSrc : Option SockAddr
  ssDst : Option SockAddr
  ttl : Option UInt8
deriving DecidableEq

/-- The two tests of what remains behind the IP header. The first one compares unsigned. -/
def TooShort (remaining : Int32) : Prop :=
  remaining.toInt64.toUInt64 < 8 ∨ remaining - 8 < 12

instance (remaining : Int32) : Decidable (TooShort remaining) := inferInstanceAs (Decidable (_ ∨ _))

/-- `get_valid_ntp_payload`; `none` is the return value `1`. -/
def getValidNtpPayload (udph : Nat) (packet : RadpcapPacket) : Option Payload :=
  match parseHeaders h udph packet with
  | none => none
  | some hd =>
    if TooShort hd.remaining then none
    else some ⟨hd.udph + 8, hd.ssSrc, hd.ssDst, hd.ttl⟩

/-! ## Valid payloads -/

/-- The protocol and the offset of the IP header, by the format of the frame. -/
def ipHeader (packet : RadpcapPacket) : Option (NetProtocol × Nat) :=
  match packet.type with
  | .en10mb => some (.ipv4, 14)
  | .linuxSll =>
    if sllHatype h packet ≠ 0x0001 then some (.ipv4, 16 + 14)
    else if sllProtocol h packet = ethertypeIp then some (.ipv4, 16)
    else if sllProtocol h packet = ethertypeIpv6 then some (.ipv6, 16)
    else none
  | _ => none

/-- The length of an IP header, as it states it. -/
def ipLen (payload : Nat → UInt8) : NetProtocol → Nat → Nat
  | .ipv4, off => ipHl payload off * 4
  | .ipv6, _ => 40

def srcAddr (payload : Nat → UInt8) : NetProtocol → Nat → SockAddr
  | .ipv4, off => .inet (bytesAt payload (off + 12) 4)
  | .ipv6, off => .inet6 (bytesAt payload (off + 8) 16)

def dstAddr (payload : Nat → UInt8) : NetProtocol → Nat → SockAddr
  | .ipv4, off => .inet (bytesAt payload (off + 16) 4)
  | .ipv6, off => .inet6 (bytesAt payload (off + 24) 16)

def hopLimit (payload : Nat → UInt8) : NetProtocol → Nat → UInt8
  | .ipv4, off => payload (off + 8)
  | .ipv6, off => payload (off + 7)

/-- `p` is the payload behind the IP header of `proto` at `off`. -/
structure Behind (packet : RadpcapPacket) (proto : NetProtocol) (off : Nat) (p : Payload) :
    Prop where
  ntp : p.ntp = off + ipLen packet.payload proto off + 8
  minLen : 20 ≤ ipLen packet.payload proto off
  maxLen : ipLen packet.payload proto off ≤ 60
  ssSrc : p.ssSrc = some (srcAddr packet.payload proto off)
  ssDst : p.ssDst = some (dstAddr packet.payload proto off)
  ttl : p.ttl = some (hopLimit packet.payload proto off)
  /-- The 48 bytes of the NTP header are captured. -/
  captured : p.ntp + 48 ≤ packet.header.caplen.toNat

def ValidPayload (packet : RadpcapPacket) (p : Payload) : Prop :=
  ∃ proto off, ipHeader h packet = some (proto, off) ∧ Behind packet proto off p

/-- No return value `0`. -/
def Rejected (packet : RadpcapPacket) : Prop :=
  match packet.type with
  | .en10mb => TooShort (remainingAfter packet 14)
  | .linuxSll =>
    if sllHatype h packet ≠ 0x0001 then TooShort (remainingAfter packet 14)
    else if sllProtocol h packet = ethertypeIp then
      checkIpv4 h packet.payload 16 (remainingAfter packet 16) ≠ 0 ∨
        TooShort (remainingAfter packet 16 - 20)
    else if sllProtocol h packet = ethertypeIpv6 then
      checkIpv6 packet.payload 16 (remainingAfter packet 16) ≠ 0 ∨
        TooShort (remainingAfter packet 16 - 40)
    else True
  | _ => True

/-- A frame of format 3, with an IP header of a possible length and a whole NTP header. -/
structure Complete (packet : RadpcapPacket) : Prop where
  type : packet.type = .linuxSll
  hatype : sllHatype h packet = 0x0001
  protocol : (sllProtocol h packet = ethertypeIp ∧ 5 ≤ ipHl packet.payload 16 ∧
      16 + ipHl packet.payload 16 * 4 + 8 + 48 ≤ packet.header.caplen.toNat) ∨
    (sllProtocol h packet = ethertypeIpv6 ∧ 16 + 40 + 8 + 48 ≤ packet.header.caplen.toNat)

section

variable {h} {udph : Nat} {packet : RadpcapPacket} {p : Payload}

theorem getValidNtpPayload_eq_none_iff :
    getValidNtpPayload h udph packet = none ↔ Rejected h packet := by
  unfold getValidNtpPayload parseHeaders Rejected
  cases packet.type with
  | en10mb => simp
  | linuxSll =>
    dsimp only
    split_ifs <;> simp [*]
  | _ => simp

/-- Addresses are set in format 3 only. -/
theorem parseHeaders_cases {hd : Headers} (hhd : parseHeaders h udph packet = some hd) :
    (¬ (packet.type = .linuxSll ∧ sllHatype h packet = 0x0001) ∧ hd.ssSrc = none) ∨
    (packet.type = .linuxSll ∧ sllHatype h packet = 0x0001 ∧ sllProtocol h packet = ethertypeIp ∧
      hd = ⟨16 + ipLen packet.payload .ipv4 16, some (srcAddr packet.payload .ipv4 16),
        some (dstAddr packet.payload .ipv4 16), some (hopLimit packet.payload .ipv4 16),
        remainingAfter packet 16 - 20⟩) ∨
    (packet.type = .linuxSll ∧ sllHatype h packet = 0x0001 ∧ sllProtocol h packet = ethertypeIpv6 ∧
      hd = ⟨16 + ipLen packet.payload .ipv6 16, some (srcAddr packet.payload .ipv6 16),
        some (dstAddr packet.payload .ipv6 16), some (hopLimit packet.payload .ipv6 16),
        remainingAfter packet 16 - 40⟩) := by
  unfold parseHeaders at hhd
  cases htype : packet.type with
  | en10mb =>
    rw [htype] at hhd
    exact .inl ⟨fun hsll => (nomatch hsll.1), by rw [← Option.some.inj hhd]⟩
  | linuxSll =>
    simp only [htype] at hhd
    split_ifs at hhd with hhatype hip hcheck hipv6 hcheck
    · exact .inl ⟨fun hsll => hhatype hsll.2, by rw [← Option.some.inj hhd]⟩
    · exact .inr (.inl ⟨rfl, of_not_not hhatype, hip, (Option.some.inj hhd).symm⟩)
    · exact .inr (.inr ⟨rfl, of_not_not hhatype, hipv6, (Option.some.inj hhd).symm⟩)
  | _ =>
    rw [htype] at hhd
    cases hhd

theorem getValidNtpPayload_some (hp : getValidNtpPayload h udph packet = some p) :
    ∃ hd, parseHeaders h udph packet = some hd ∧ p = ⟨hd.udph + 8, hd.ssSrc, hd.ssDst, hd.ttl⟩ := by
  unfold getValidNtpPayload at hp
  cases hhd : parseHeaders h udph packet with
  | none => simp [hhd] at hp
  | some hd =>
    simp only [hhd] at hp
    split at hp
    · cases hp
    · exact ⟨hd, rfl, (Option.some.inj hp).symm⟩

theorem not_validPayload (hnone : p.ssSrc = none) : ¬ ValidPayload h packet p := by
  rintro ⟨proto, off, -, hbehind⟩
  cases hnone.symm.trans hbehind.ssSrc

theorem ipHeader_ipv4 (htype : packet.type = .linuxSll) (hhatype : sllHatype h packet = 0x0001)
    (hip : sllProtocol h packet = ethertypeIp) : ipHeader h packet = some (.ipv4, 16) := by
  simp [ipHeader, htype, hhatype, hip]

theorem ipHeader_ipv6 (htype : packet.type = .linuxSll) (hhatype : sllHatype h packet = 0x0001)
    (hipv6 : sllProtocol h packet = ethertypeIpv6) : ipHeader h packet = some (.ipv6, 16) := by
  simp [ipHeader, htype, hhatype, hipv6, ethertypeIp, ethertypeIpv6]

theorem ipHl_lt (payload : Nat → UInt8) (off : Nat) : ipHl payload off < 16 :=
  Nat.mod_lt _ (by decide)

/-- An accepted payload of a complete frame is valid. -/
theorem Complete.validPayload (hc : Complete h packet)
    (hp : getValidNtpPayload h udph packet = some p) : ValidPayload h packet p := by
  have hlt := ipHl_lt packet.payload 16
  obtain ⟨hd, hhd, rfl⟩ := getValidNtpPayload_some hp
  rcases parseHeaders_cases hhd with ⟨hnot, -⟩ | ⟨htype, hhatype, hip, rfl⟩ |
    ⟨htype, hhatype, hipv6, rfl⟩
  · exact absurd ⟨hc.type, hc.hatype⟩ hnot
  · refine ⟨_, _, ipHeader_ipv4 htype hhatype hip, rfl, ?_, ?_, rfl, rfl, rfl, ?_⟩
    all_goals rcases hc.protocol with ⟨-, hmin, hcap⟩ | ⟨hipv6, -⟩
    all_goals try exact absurd (hip.symm.trans hipv6) (by decide)
    · show 20 ≤ ipHl packet.payload 16 * 4
      omega
    · show ipHl packet.payload 16 * 4 ≤ 60
      omega
    · exact hcap
  · refine ⟨_, _, ipHeader_ipv6 htype hhatype hipv6, rfl, ?_, ?_, rfl, rfl, rfl, ?_⟩
    · show 20 ≤ 40
      omega
    · show 40 ≤ 60
      omega
    · rcases hc.protocol with ⟨hip, -⟩ | ⟨-, hcap⟩
      · exact absurd (hip.symm.trans hipv6) (by decide)
      · exact hcap

/-- A valid payload is that of a complete frame. -/
theorem complete_of_valid (hp : getValidNtpPayload h udph packet = some p)
    (hvalid : ValidPayload h packet p) : Complete h packet := by
  obtain ⟨hd, hhd, rfl⟩ := getValidNtpPayload_some hp
  rcases parseHeaders_cases hhd with ⟨-, hnone⟩ | ⟨htype, hhatype, hip, rfl⟩ |
    ⟨htype, hhatype, hipv6, rfl⟩
  · exact absurd hvalid (not_validPayload hnone)
  · obtain ⟨proto, off, hheader, hbehind⟩ := hvalid
    cases (ipHeader_ipv4 htype hhatype hip).symm.trans hheader
    have hmin : 20 ≤ ipHl packet.payload 16 * 4 := hbehind.minLen
    exact ⟨htype, hhatype, .inl ⟨hip, by omega, hbehind.captured⟩⟩
  · obtain ⟨proto, off, hheader, hbehind⟩ := hvalid
    cases (ipHeader_ipv6 htype hhatype hipv6).symm.trans hheader
    exact ⟨htype, hhatype, .inr ⟨hipv6, hbehind.captured⟩⟩

end

/-- What is accepted is valid exactly for complete frames. -/
theorem getValidNtpPayload_valid_iff (udph : Nat) (packet : RadpcapPacket) :
    (∀ p, getValidNtpPayload h udph packet = some p → ValidPayload h packet p) ↔
      Rejected h packet ∨ Complete h packet := by
  constructor
  · intro hvalid
    cases hp : getValidNtpPayload h udph packet with
    | none => exact .inl (getValidNtpPayload_eq_none_iff.mp hp)
    | some p => exact .inr (complete_of_valid hp (hvalid p hp))
  · rintro (hr | hc) p hp
    · cases (getValidNtpPayload_eq_none_iff.mpr hr).symm.trans hp
    · exact hc.validPayload hp

/-- Format 3 with an NTP header of 12 bytes, from a client. -/
def shortFrame : RadpcapPacket where
  header := { tvSec := 0, tvUsec := 0, caplen := 56, len := 56 }
  payload i :=
    if i = 3 then 0x01 else if i = 14 then 0x08
    else if i = 16 then 0x45 else if i = 24 then 64 else if i = 25 then 17
    else if i = 44 then 0x23 else 0
  size := 0
  type := .linuxSll

/-- 48 bytes are read of which 12 are captured. -/
theorem not_getValidNtpPayload_valid :
    ¬ ∀ (h : Host) (udph : Nat) (packet : RadpcapPacket) (p : Payload),
      getValidNtpPayload h udph packet = some p →
      ValidPayload h packet p := by
  intro hvalid
  have hc : Complete littleEndianHost shortFrame :=
    @complete_of_valid _ 0 _ _ rfl (hvalid littleEndianHost 0 shortFrame _ rfl)
  rcases hc.protocol with ⟨-, -, hcap⟩ | ⟨hipv6, -⟩
  · exact absurd hcap (by decide)
  · exact absurd hipv6 (by decide)

end RADclock.Capture
