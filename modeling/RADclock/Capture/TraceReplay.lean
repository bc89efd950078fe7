import RADclock.Capture.Halves
import Mathlib.Data.List.Forall2

/-!
# Traces and their replay (`stampinput-livepcap.c`, `stampinput-tracefile.c`)

The live input writes each packet to a trace once the counter value is in its SLL header, and a
replay reads the trace again. What a replay gets is not the same: every packet is of the link type
of the trace, it is cut at the snapshot length, what lies behind it in memory is anything, and the
interface address is one that should never match.

Nothing is assumed of the capture library but that it reads back what it wrote, up to the snapshot
length. That the two runs deliver the same stamps is not so for traffic of the host itself, which
only the live input drops, and for NTP headers that are not captured whole.

- `getPacketTracefile`, `replay`: the code.
- `Saved`, `Replayed`: a packet of the live input, and the one read from its trace.
- `getValidNtpPayload_saved`, `Replayed.pushOf_eq_iff`: what the code finds in both.
- `replay_stamps`: the replay of a trace delivers the stamps of the live run.
-/

namespace RADclock.Capture

open Lib Ntp

/-! ## The code -/

/-- `BPF_PACKET_SIZE`, which is the snapshot length of the captures and of the traces. -/
def bpfPacketSize : Nat := 236

/-- What `pcap_next_ex` returns: the header, and the memory that the packet is in. -/
structure PcapNext where
  header : PcapPkthdr
  payload : Nat → UInt8

/-- `get_packet_tracefile`, for a packet that has been read. -/
def getPacketTracefile (dataLink : Dlt) (next : PcapNext) : RadpcapPacket where
  header := next.header
  payload := next.payload
  size := next.header.caplen.toUInt64 + .ofNat sizeofPcapPkthdr
  type := dataLink

/-- The interface address of `tracefilestamp_init`. -/
def tracefileSsIf : SockAddr := .inet [255, 255, 255, 255]

/-- A replay of a trace to its end. The last call finds nothing. -/
def replay {D : Type} [Arith D] (host : Host) (inetNtop : SockAddr → Text)
    (scrub : Nat → Cell (StampT D) → Cell (StampT D)) (trace : List NetPacket) :
    Option (List (StampT D) × List NetPacket × StampInput D) :=
  stampRun host inetNtop scrub .dead (trace :: List.replicate trace.length []) [] StampInput.init

/-! ## What is read back -/

/-- What has been written is read back, up to the snapshot length. -/
structure Saved (packet : RadpcapPacket) (next : PcapNext) : Prop where
  caplen : next.header.caplen.toNat = min packet.header.caplen.toNat bpfPacketSize
  payload : ∀ i < next.header.caplen.toNat, next.payload i = packet.payload i

variable (h : Host)

/-- A packet that `get_packet_livepcap` has returned. -/
def Live (packet : RadpcapPacket) : Prop :=
  ∃ (f : CapturedFrame) (tmpbuffer : Nat → UInt8)
    (readRADabsUTC : Option (UInt64 → UInt64 × UInt64)) (vcount : UInt64),
    getPacketLivepcap h tmpbuffer readRADabsUTC f.toRadpcapPacket vcount = some packet

/-- `r` is what a replay finds in the trace for the packet `p` of the live input. -/
structure Replayed (p r : NetPacket) : Prop where
  live : Live h p.packet
  packet : ∃ next, Saved p.packet next ∧ r.packet = getPacketTracefile .linuxSll next
  ssIf : r.ssIf = tracefileSsIf

variable {h} {packet : RadpcapPacket} {next : PcapNext}

/-! ## Live packets -/

/-- A live packet has an SLL header, or it is Ethernet that has kept its own. -/
structure Shaped (packet : RadpcapPacket) : Prop where
  size : packet.size.toNat = packet.header.caplen.toNat + sizeofPcapPkthdr
  short : packet.header.caplen.toNat < 2 ^ 17
  type : packet.type = .linuxSll ∧ sizeofLinuxSllHeader ≤ packet.header.caplen.toNat ∨
    packet.type = .en10mb

/-- A frame that was given an SLL header and a counter value is a live packet in shape. -/
theorem shaped_insert (f : CapturedFrame) (tmpbuffer : Nat → UInt8) {vcount : UInt64}
    (hread : getVcount h (setVcountInSll h (insertSllHeader h tmpbuffer f.toRadpcapPacket).2
      vcount) = some vcount) :
    Shaped (insertSllHeader h tmpbuffer f.toRadpcapPacket).2 := by
  have hsize := f.size_eq
  have hlt := caplen_lt f
  cases hl : linkLayer h f.toRadpcapPacket with
  | unsupported =>
    simp only [insertSllHeader, hl] at hread ⊢
    exact ⟨hsize, by omega, .inr ((getVcount_unsupported hl vcount).mp hread).1⟩
  | sll =>
    have htype := type_of_linkLayer_sll hl
    have hcap := f.caplen_ge
    simp only [linkHeaderLen, htype] at hcap
    simp only [insertSllHeader, hl]
    exact ⟨hsize, by omega, .inl ⟨htype, hcap⟩⟩
  | replace ethertype etherlen =>
    have hle := etherlen_le hl
    have hsize' : (replaceLinkHeader h tmpbuffer f.toRadpcapPacket ethertype etherlen).size.toNat +
        etherlen = f.size.toNat + sizeofLinuxSllHeader := size_replaceLinkHeader hl
    have hcap' : (replaceLinkHeader h tmpbuffer f.toRadpcapPacket ethertype
        etherlen).header.caplen.toNat + etherlen =
          f.header.caplen.toNat + sizeofLinuxSllHeader :=
      toNat_add_sub_uint32 hle (by rw [sizeofLinuxSllHeader]; omega)
    simp only [insertSllHeader, hl]
    rw [sizeofLinuxSllHeader] at hsize' hcap'
    exact ⟨by omega, by omega, .inl ⟨rfl, by rw [sizeofLinuxSllHeader]; omega⟩⟩

/-- So is every packet of a live capture. -/
theorem Live.shaped (hlive : Live h packet) : Shaped packet := by
  obtain ⟨f, tmpbuffer, readRADabsUTC, vcount, hpacket⟩ := hlive
  unfold getPacketLivepcap at hpacket
  simp only at hpacket
  split at hpacket
  · next hread =>
    obtain ⟨hsize, hshort, htype⟩ := shaped_insert f tmpbuffer hread
    -- The counter value changes nothing but the payload, a generated timestamp nothing but that.
    cases readRADabsUTC with
    | none =>
      cases hpacket
      exact ⟨hsize, hshort, htype⟩
    | some time =>
      cases hpacket
      exact ⟨hsize, hshort, htype⟩
  · cases hpacket

/-! ## What remains of a packet -/

/-- What remains of a short packet does not overflow. -/
theorem toInt_remainingAfter (hshort : packet.header.caplen.toNat < 2 ^ 17) {n : Int32}
    (hn : 0 ≤ n.toInt ∧ n.toInt ≤ 100) :
    (remainingAfter packet n).toInt = packet.header.caplen.toNat - n.toInt := by
  have hcap : packet.header.caplen.toInt32.toInt = packet.header.caplen.toNat :=
    BitVec.toInt_eq_toNat_of_lt (show 2 * packet.header.caplen.toNat < 2 ^ 32 by omega)
  rw [remainingAfter, Int32.toInt_sub, hcap]
  exact Int.bmod_eq_of_le (by omega) (by omega)

/-- Both tests together: at least 20 bytes are to remain. -/
theorem tooShort_iff {remaining : Int32} (hlow : -100 ≤ remaining.toInt) :
    TooShort remaining ↔ remaining.toInt < 20 := by
  have hhigh := remaining.toInt_lt
  have hsub : (remaining - 8).toInt = remaining.toInt - 8 := by
    rw [Int32.toInt_sub]
    exact Int.bmod_eq_of_le (by show _ ≤ remaining.toInt - 8; omega)
      (by show remaining.toInt - 8 < _; omega)
  have hsecond : remaining - 8 < 12 ↔ remaining.toInt < 20 := by
    rw [Int32.lt_iff_toInt_lt, hsub]
    show remaining.toInt - 8 < 12 ↔ _
    omega
  rw [TooShort, hsecond, or_iff_right_iff_imp]
  -- A negative number is a large one without its sign.
  intro hfirst
  by_contra hlarge
  have hnonneg : (0 : Int64) ≤ remaining.toInt64 := by
    rw [Int64.le_iff_toInt_le, Int32.toInt_toInt64]
    show 0 ≤ remaining.toInt
    omega
  rw [UInt64.lt_iff_toNat_lt, Int64.toNat_toUInt64_of_le hnonneg, Int64.toNatClampNeg,
    Int32.toInt_toInt64] at hfirst
  change remaining.toInt.toNat < 8 at hfirst
  omega

/-- A number that is not negative is compared as it is. -/
theorem toUInt32_lt_iff (remaining : Int32) (hnonneg : 0 ≤ remaining.toInt) {n : Nat}
    (hn : n < 2 ^ 32) : remaining.toUInt32 < .ofNat n ↔ remaining.toInt < n := by
  have hle : (0 : Int32) ≤ remaining := by
    rw [Int32.le_iff_toInt_le]
    exact hnonneg
  rw [UInt32.lt_iff_toNat_lt, Int32.toNat_toUInt32_of_le hle, Int32.toNatClampNeg,
    UInt32.toNat_ofNat', Nat.mod_eq_of_lt hn]
  omega

/-! ## What is found in a packet -/

/-- What `get_valid_ntp_payload` asks of the bytes behind an SLL header of `proto`. Options of an
IPv4 header are to be captured, but they are not taken off what remains. -/
def WellFormed (h : Host) (packet : RadpcapPacket) : NetProtocol → Prop
  | .ipv4 =>
    16 + 20 + 20 ≤ packet.header.caplen.toNat ∧ ipV packet.payload 16 = 4 ∧
      load h.wordsBigendian (bytesAt packet.payload (16 + 6) 2) &&& 0xff1f = 0 ∧
      packet.payload (16 + 9) = 17 ∧ 16 + ipHl packet.payload 16 * 4 ≤ packet.header.caplen.toNat
  | .ipv6 => 16 + 40 + 20 ≤ packet.header.caplen.toNat ∧ packet.payload (16 + 6) = 17

/-- The payload behind an SLL header. -/
def payloadOf (payload : Nat → UInt8) (proto : NetProtocol) : Payload :=
  ⟨16 + ipLen payload proto 16 + 8, some (srcAddr payload proto 16),
    some (dstAddr payload proto 16), some (hopLimit payload proto 16)⟩

section Parse

variable (udph : Nat) {hd : Headers}

/-- An Ethernet frame with IPv4 is checked by the rules of IPv4. -/
theorem parseHeaders_ipv4 (htype : packet.type = .linuxSll) (hhatype : sllHatype h packet = 0x0001)
    (hip : sllProtocol h packet = ethertypeIp) :
    parseHeaders h udph packet =
      if checkIpv4 h packet.payload 16 (remainingAfter packet 16) ≠ 0 then none
      else
        some ⟨16 + ipLen packet.payload .ipv4 16, some (srcAddr packet.payload .ipv4 16),
          some (dstAddr packet.payload .ipv4 16), some (hopLimit packet.payload .ipv4 16),
          remainingAfter packet 16 - 20⟩ := by
  simp only [parseHeaders, htype, hhatype, hip, ne_eq, not_true_eq_false, if_false, if_true]
  rfl

/-- And one with IPv6 by those of IPv6. -/
theorem parseHeaders_ipv6 (htype : packet.type = .linuxSll) (hhatype : sllHatype h packet = 0x0001)
    (hipv6 : sllProtocol h packet = ethertypeIpv6) :
    parseHeaders h udph packet =
      if checkIpv6 packet.payload 16 (remainingAfter packet 16) ≠ 0 then none
      else
        some ⟨16 + ipLen packet.payload .ipv6 16, some (srcAddr packet.payload .ipv6 16),
          some (dstAddr packet.payload .ipv6 16), some (hopLimit packet.payload .ipv6 16),
          remainingAfter packet 16 - 40⟩ := by
  have hne : ¬ ethertypeIpv6 = ethertypeIp := by decide
  simp only [parseHeaders, htype, hhatype, hipv6, hne, ne_eq, not_true_eq_false, if_false, if_true]
  rfl

/-- What passes the check of its header, and the two tests behind it. -/
theorem getValidNtpPayload_of_check {check : Nat}
    (hparse : parseHeaders h udph packet = if check ≠ 0 then none else some hd) {p : Payload} :
    getValidNtpPayload h udph packet = some p ↔
      (check = 0 ∧ ¬ TooShort hd.remaining) ∧
        ⟨hd.udph + 8, hd.ssSrc, hd.ssDst, hd.ttl⟩ = p := by
  unfold getValidNtpPayload
  rw [hparse]
  by_cases hcheck : check = 0
  · rw [if_neg (not_not.mpr hcheck)]
    by_cases htoo : TooShort hd.remaining <;> simp [hcheck, htoo]
  · rw [if_pos hcheck]
    simp [hcheck]

end Parse

section Format3

variable {udph : Nat} {proto : NetProtocol} (hshort : packet.header.caplen.toNat < 2 ^ 17)
include hshort

/-- At least 20 bytes are to remain, with the UDP header. -/
theorem tooShort_remainingAfter {n : Int32} (hn : 0 ≤ n.toInt ∧ n.toInt ≤ 100) :
    TooShort (remainingAfter packet n) ↔ (packet.header.caplen.toNat : Int) < n.toInt + 20 := by
  have hrem := toInt_remainingAfter hshort hn
  rw [tooShort_iff (by omega), hrem]
  omega

/-- A packet is too short if 20 bytes do not fit after the headers. -/
theorem tooShort_after {n : Int32} (hn : 0 ≤ n.toInt ∧ n.toInt ≤ 60) :
    TooShort (remainingAfter packet 16 - n) ↔
      (packet.header.caplen.toNat : Int) < 16 + n.toInt + 20 := by
  have hrem := toInt_remainingAfter (n := 16) hshort (by decide)
  change _ = (packet.header.caplen.toNat : Int) - 16 at hrem
  have hsub : (remainingAfter packet 16 - n).toInt = packet.header.caplen.toNat - 16 - n.toInt := by
    rw [Int32.toInt_sub, hrem]
    exact Int.bmod_eq_of_le (by omega) (by omega)
  rw [tooShort_iff (by omega), hsub]
  omega

variable (hcap : 16 ≤ packet.header.caplen.toNat)
include hcap

/-- What the test of an IPv4 header asks for. -/
theorem checkIpv4_iff :
    checkIpv4 h packet.payload 16 (remainingAfter packet 16) = 0 ↔
      ipV packet.payload 16 = 4 ∧
      load h.wordsBigendian (bytesAt packet.payload (16 + 6) 2) &&& 0xff1f = 0 ∧
      packet.payload (16 + 9) = 17 ∧
      16 + ipHl packet.payload 16 * 4 ≤ packet.header.caplen.toNat := by
  have hrem := toInt_remainingAfter (n := 16) hshort (by decide)
  have hlt := ipHl_lt packet.payload 16
  change _ = (packet.header.caplen.toNat : Int) - 16 at hrem
  have hless := toUInt32_lt_iff (remainingAfter packet 16) (by omega)
    (show ipHl packet.payload 16 * 4 < 2 ^ 32 by omega)
  unfold checkIpv4
  split_ifs with hv hfrag hproto hlen
  · simp [hv]
  · simp [hfrag]
  · simp [hproto]
  · rw [hless, hrem] at hlen
    simp only [false_iff, not_and, not_le]
    omega
  · rw [hless, hrem] at hlen
    simp only [true_iff]
    exact ⟨not_not.mp hv, not_not.mp hfrag, not_not.mp hproto, by omega⟩

/-- What the test of an IPv6 header asks for. -/
theorem checkIpv6_iff :
    checkIpv6 packet.payload 16 (remainingAfter packet 16) = 0 ↔
      packet.payload (16 + 6) = 17 ∧ 16 + 40 ≤ packet.header.caplen.toNat := by
  have hrem := toInt_remainingAfter (n := 16) hshort (by decide)
  change _ = (packet.header.caplen.toNat : Int) - 16 at hrem
  have hless : remainingAfter packet 16 < 40 ↔ packet.header.caplen.toNat < 16 + 40 := by
    rw [Int32.lt_iff_toInt_lt, hrem]
    show _ < (40 : Int) ↔ _
    omega
  unfold checkIpv6
  split_ifs with hproto hlen
  · simp [hproto]
  · rw [hless] at hlen
    simp only [false_iff, not_and]
    omega
  · rw [hless] at hlen
    simp only [true_iff]
    exact ⟨not_not.mp hproto, by omega⟩

/-- With an SLL header, the payload depends on bytes that are captured. -/
theorem getValidNtpPayload_eq_some_iff (htype : packet.type = .linuxSll)
    (hhatype : sllHatype h packet = 0x0001) (hproto : sllProtocol h packet = proto.ethertype)
    (p : Payload) :
    getValidNtpPayload h udph packet = some p ↔
      WellFormed h packet proto ∧ payloadOf packet.payload proto = p := by
  cases proto with
  | ipv4 =>
    have hparse := parseHeaders_ipv4 udph htype hhatype hproto
    have hroom := tooShort_after hshort (n := 20) (by decide)
    change _ ↔ (packet.header.caplen.toNat : Int) < 16 + 20 + 20 at hroom
    rw [getValidNtpPayload_of_check udph hparse, checkIpv4_iff hshort hcap, hroom, WellFormed]
    refine and_congr_left fun _ => ?_
    rw [and_comm]
    exact and_congr_left fun _ => by omega
  | ipv6 =>
    have hparse := parseHeaders_ipv6 udph htype hhatype hproto
    have hroom := tooShort_after hshort (n := 40) (by decide)
    change _ ↔ (packet.header.caplen.toNat : Int) < 16 + 40 + 20 at hroom
    rw [getValidNtpPayload_of_check udph hparse, checkIpv6_iff hshort hcap, hroom, WellFormed]
    refine and_congr_left fun _ => ?_
    constructor
    · rintro ⟨⟨hudp, -⟩, hlen⟩
      exact ⟨by omega, hudp⟩
    · rintro ⟨hlen, hudp⟩
      exact ⟨⟨hudp, by omega⟩, by omega⟩

end Format3

/-! ## What a replay finds -/

section Replay

variable {udph udph' : Nat} {proto : NetProtocol}

/-- The bytes within the saved length are those of the packet. -/
theorem Saved.bytesAt_eq (hs : Saved packet next) {off n : Nat}
    (hle : off + n ≤ next.header.caplen.toNat) :
    bytesAt next.payload off n = bytesAt packet.payload off n :=
  bytesAt_congr fun _ _ => hs.payload _ (by omega)

/-- The headers are within the snapshot length. -/
theorem Saved.wellFormed_iff (hs : Saved packet next) :
    WellFormed h (getPacketTracefile .linuxSll next) proto ↔ WellFormed h packet proto := by
  have hcap := hs.caplen
  rw [bpfPacketSize] at hcap
  have hlt := ipHl_lt packet.payload 16
  have hcaplen : (getPacketTracefile .linuxSll next).header.caplen = next.header.caplen := rfl
  have hpayload : (getPacketTracefile .linuxSll next).payload = next.payload := rfl
  cases proto with
  | ipv4 =>
    rw [WellFormed, WellFormed, hcaplen, hpayload]
    by_cases hlen : 16 + 20 + 20 ≤ packet.header.caplen.toNat
    · have hsaved : 16 + 20 + 20 ≤ next.header.caplen.toNat := by omega
      have hoptions : 16 + ipHl packet.payload 16 * 4 ≤ next.header.caplen.toNat ↔
          16 + ipHl packet.payload 16 * 4 ≤ packet.header.caplen.toNat := by omega
      rw [ipV, ipHl, hs.payload 16 (by omega), hs.bytesAt_eq (by omega),
        hs.payload (16 + 9) (by omega), ← ipV, ← ipHl, hoptions]
      simp only [hlen, hsaved, true_and]
    · exact iff_of_false (fun hw => hlen (by have := hw.1; omega)) fun hw => hlen hw.1
  | ipv6 =>
    rw [WellFormed, WellFormed, hcaplen, hpayload]
    by_cases hlen : 16 + 40 + 20 ≤ packet.header.caplen.toNat
    · have hsaved : 16 + 40 + 20 ≤ next.header.caplen.toNat := by omega
      rw [hs.payload (16 + 6) (by omega)]
      simp only [hlen, hsaved, true_and]
    · exact iff_of_false (fun hw => hlen (by have := hw.1; omega)) fun hw => hlen hw.1

/-- So the NTP packet is found where it was. -/
theorem Saved.payloadOf_eq (hs : Saved packet next) (hw : WellFormed h packet proto) :
    payloadOf next.payload proto = payloadOf packet.payload proto := by
  have hcap := hs.caplen
  rw [bpfPacketSize] at hcap
  cases proto with
  | ipv4 =>
    have hlen := hw.1
    simp only [payloadOf, ipLen, ipHl, srcAddr, dstAddr, hopLimit]
    rw [hs.payload 16 (by omega), hs.bytesAt_eq (by omega), hs.bytesAt_eq (by omega),
      hs.payload (16 + 8) (by omega)]
  | ipv6 =>
    have hlen := hw.1
    simp only [payloadOf, ipLen, srcAddr, dstAddr, hopLimit]
    rw [hs.bytesAt_eq (by omega), hs.bytesAt_eq (by omega), hs.payload (16 + 7) (by omega)]

/-- The hardware type is among them. -/
theorem Saved.sllHatype_eq (hs : Saved packet next) (hcap : 16 ≤ packet.header.caplen.toNat) :
    sllHatype h (getPacketTracefile .linuxSll next) = sllHatype h packet := by
  have hcaplen := hs.caplen
  rw [bpfPacketSize] at hcaplen
  unfold sllHatype
  rw [← hs.bytesAt_eq (by omega)]
  rfl

/-- So is the protocol. -/
theorem Saved.sllProtocol_eq (hs : Saved packet next) (hcap : 16 ≤ packet.header.caplen.toNat) :
    sllProtocol h (getPacketTracefile .linuxSll next) = sllProtocol h packet := by
  have hcaplen := hs.caplen
  rw [bpfPacketSize] at hcaplen
  unfold sllProtocol
  rw [← hs.bytesAt_eq (by omega)]
  rfl

/-- Frames of format 3 that carry neither protocol. -/
theorem getValidNtpPayload_other (htype : packet.type = .linuxSll)
    (hhatype : sllHatype h packet = 0x0001)
    (hother : ∀ proto : NetProtocol, sllProtocol h packet ≠ proto.ethertype) :
    getValidNtpPayload h udph packet = none := by
  rw [getValidNtpPayload_eq_none_iff, Rejected]
  simp only [htype, hhatype, ne_eq, not_true_eq_false, if_false]
  rw [if_neg (show sllProtocol h packet ≠ ethertypeIp from hother .ipv4),
    if_neg (show sllProtocol h packet ≠ ethertypeIpv6 from hother .ipv6)]
  trivial

/-- Too short for anything behind its headers. -/
theorem getValidNtpPayload_short (udph : Nat) (htype : packet.type = .linuxSll)
    (hlen : packet.header.caplen.toNat < 34) : getValidNtpPayload h udph packet = none := by
  have hshort : packet.header.caplen.toNat < 2 ^ 17 := by omega
  rw [getValidNtpPayload_eq_none_iff, Rejected]
  simp only [htype]
  split_ifs
  · rw [tooShort_remainingAfter hshort (by decide)]
    show _ < (14 + 20 : Int)
    omega
  · right
    rw [tooShort_after hshort (by decide)]
    show _ < (16 + 20 + 20 : Int)
    omega
  · right
    rw [tooShort_after hshort (by decide)]
    show _ < (16 + 40 + 20 : Int)
    omega

/-- The code finds the same payload in both packets, unless the live one is accepted without the
whole of what is read. -/
theorem getValidNtpPayload_saved (hshaped : Shaped packet) (hs : Saved packet next)
    (hwhole : Rejected h packet ∨ Complete h packet) :
    getValidNtpPayload h udph' (getPacketTracefile .linuxSll next) =
      getValidNtpPayload h udph packet := by
  have hcaplen := hs.caplen
  rw [bpfPacketSize] at hcaplen
  have hshort := hshaped.short
  rcases hshaped.type with ⟨htype, hcap⟩ | htype
  · rw [sizeofLinuxSllHeader] at hcap
    by_cases hhatype : sllHatype h packet = 0x0001
    · have hhatype' := (hs.sllHatype_eq hcap).trans hhatype
      by_cases hproto : ∃ proto : NetProtocol, sllProtocol h packet = proto.ethertype
      · obtain ⟨proto, hproto⟩ := hproto
        refine Option.ext fun p => ?_
        rw [getValidNtpPayload_eq_some_iff hshort hcap htype hhatype hproto,
          getValidNtpPayload_eq_some_iff (show next.header.caplen.toNat < 2 ^ 17 by omega)
            (show 16 ≤ next.header.caplen.toNat by omega) rfl hhatype'
            ((hs.sllProtocol_eq hcap).trans hproto), hs.wellFormed_iff]
        exact and_congr_right fun hw => Eq.congr_left (hs.payloadOf_eq hw)
      · have hother := not_exists.mp hproto
        rw [getValidNtpPayload_other htype hhatype hother,
          getValidNtpPayload_other rfl hhatype' fun proto heq =>
            hother proto ((hs.sllProtocol_eq hcap).symm.trans heq)]
    · -- format 2 with nothing behind it
      have hrejected := hwhole.resolve_right fun hc => hhatype hc.hatype
      rw [getValidNtpPayload_eq_none_iff.mpr hrejected, getValidNtpPayload_eq_none_iff]
      simp only [Rejected, htype, ne_eq, hhatype, not_false_eq_true, if_true] at hrejected
      rw [tooShort_remainingAfter hshort (by decide)] at hrejected
      change _ < (14 + 20 : Int) at hrejected
      exact getValidNtpPayload_eq_none_iff.mp
        (getValidNtpPayload_short udph' rfl (show next.header.caplen.toNat < 34 by omega))
  · -- format 1 with nothing behind it
    have hrejected := hwhole.resolve_right fun hc =>
      absurd (hc.type.symm.trans htype) (by decide)
    rw [getValidNtpPayload_eq_none_iff.mpr hrejected]
    simp only [Rejected, htype] at hrejected
    rw [tooShort_remainingAfter hshort (by decide)] at hrejected
    change _ < (14 + 20 : Int) at hrejected
    exact getValidNtpPayload_short udph' rfl (show next.header.caplen.toNat < 34 by omega)

end Replay

/-! ## The halves in both -/

section Halves

variable {D : Type} [Arith D] (host : Host) (inetNtop : SockAddr → Text)

/-- A request to `addr`, or a reply from it. -/
def Own (addr : SockAddr) (p : NetPacket) : Prop :=
  ∃ payload ∈ getValidNtpPayload host p.udph p.packet,
    ntpMode (p.ntp host payload) = modeClient ∧ badPacketClient addr (payload.ssDst.getD p.ssDst) ∨
    ntpMode (p.ntp host payload) = modeServer ∧ badPacketClient addr (payload.ssSrc.getD p.ssSrc)

/-- The half that a packet carries, whoever it is from or for. -/
def halfOf (p : NetPacket) : Option (Int × StampT D) := do
  let vcount ← getVcount host p.packet
  let payload ← getValidNtpPayload host p.udph p.packet
  let ntp := p.ntp host payload
  if ntpMode ntp = modeClient then
    some (modeClient, clientHalfstamp host inetNtop ntp vcount (payload.ssDst.getD p.ssDst))
  else if ntpMode ntp = modeServer ∧ pktLeap ntp.liVnMode ≠ LEAP_NOTINSYNC ∧
      ntp.stratum ≠ stratumUnspec then
    some (modeServer,
      serverHalfstamp host ntp vcount (payload.ttl.elim p.ttl fun ttl => ttl.toNat))
  else none

variable {host inetNtop} {p r : NetPacket} {payload : Payload}

/-- The tests of a reply that reject it. -/
theorem badPacketServer_iff (ntp : NtpPkt) (ssIf ssSrc : SockAddr) (stats : TimerefStats) :
    (badPacketServer ntp ssIf ssSrc stats).1 = true ↔
      badPacketClient ssIf ssSrc = true ∨ pktLeap ntp.liVnMode = LEAP_NOTINSYNC ∨
        ntp.stratum = stratumUnspec := by
  unfold badPacketServer badPacketClient
  split_ifs with hown hleap hstratum
  · simp [hown]
  · simp [hleap]
  · simp [hstratum]
  · simp only [decide_eq_true_eq, hleap, hstratum, or_false, false_iff]
    exact hown

/-- A packet of the daemon's own is not pushed. -/
theorem pushOf_own (hown : Own host p.ssIf p) : pushOf (D := D) host inetNtop p = none := by
  obtain ⟨payload, hpayload, hown⟩ := hown
  unfold pushOf
  cases getVcount host p.packet with
  | none => rfl
  | some vcount =>
    rw [Option.mem_def.mp hpayload]
    simp only [Option.bind_eq_bind, Option.bind_some]
    rcases hown with ⟨hmode, hbad⟩ | ⟨hmode, hbad⟩
    · have hne : ¬ modeClient = modeServer := by decide
      rw [if_neg fun hc => hc.2 hbad, if_neg fun hs => hne (hmode.symm.trans hs.1)]
    · have hne : ¬ modeServer = modeClient := by decide
      rw [if_neg fun hc => hne (hmode.symm.trans hc.1),
        if_neg fun hs => hs.2 ((badPacketServer_iff _ _ _ _).mpr (.inl hbad))]

/-- Any other packet is pushed as its half. -/
theorem pushOf_foreign (hforeign : ¬ Own host p.ssIf p) :
    pushOf (D := D) host inetNtop p = halfOf host inetNtop p := by
  unfold pushOf halfOf
  cases getVcount host p.packet with
  | none => rfl
  | some vcount =>
    cases hpayload : getValidNtpPayload host p.udph p.packet with
    | none => rfl
    | some payload =>
      simp only [Option.bind_eq_bind, Option.bind_some]
      by_cases hc : ntpMode (p.ntp host payload) = modeClient
      · have hgood : ¬ badPacketClient p.ssIf (payload.ssDst.getD p.ssDst) = true :=
          fun hbad => hforeign ⟨payload, hpayload, .inl ⟨hc, hbad⟩⟩
        rw [if_pos ⟨hc, hgood⟩, if_pos hc]
      · rw [if_neg fun hand => hc hand.1, if_neg hc]
        by_cases hs : ntpMode (p.ntp host payload) = modeServer
        · have hgood : ¬ badPacketClient p.ssIf (payload.ssSrc.getD p.ssSrc) = true :=
            fun hbad => hforeign ⟨payload, hpayload, .inr ⟨hs, hbad⟩⟩
          simp only [badPacketServer_iff, hgood, hs, Bool.false_eq_true, false_or,
            not_or, ne_eq, true_and]
        · rw [if_neg fun hand => hs hand.1, if_neg fun hand => hs hand.1]

/-- The whole NTP header is within the snapshot length. -/
theorem Complete.ntp_le (hc : Complete host packet) {udph : Nat}
    (hp : getValidNtpPayload host udph packet = some payload) :
    payload.ntp + 48 ≤ min packet.header.caplen.toNat bpfPacketSize ∧
      payload.ssSrc.isSome ∧ payload.ssDst.isSome ∧ payload.ttl.isSome := by
  obtain ⟨proto, off, hheader, hbehind⟩ := hc.validPayload hp
  have hoff : off = 16 := by
    simp only [ipHeader, hc.type, hc.hatype, ne_eq, not_true_eq_false, if_false] at hheader
    split_ifs at hheader
    · exact (Prod.mk.inj (Option.some.inj hheader)).2.symm
    · exact (Prod.mk.inj (Option.some.inj hheader)).2.symm
  have hntp := hbehind.ntp
  have hmax := hbehind.maxLen
  have hcaptured := hbehind.captured
  rw [bpfPacketSize]
  refine ⟨by omega, ?_, ?_, ?_⟩
  · rw [hbehind.ssSrc]
    rfl
  · rw [hbehind.ssDst]
    rfl
  · rw [hbehind.ttl]
    rfl

/-- The NTP packet that is read back is the same. -/
theorem Saved.loadNtpPkt_eq {next : PcapNext} (hs : Saved packet next) {big : Bool} {ntp : Nat}
    (hle : ntp + 48 ≤ next.header.caplen.toNat) :
    loadNtpPkt big next.payload ntp = loadNtpPkt big packet.payload ntp := by
  unfold loadNtpPkt loadLFp
  rw [hs.payload ntp (by omega), hs.payload (ntp + 1) (by omega), hs.payload (ntp + 2) (by omega),
    hs.payload (ntp + 3) (by omega)]
  repeat rw [hs.bytesAt_eq (by omega)]

/-- The counter value is read back, since it is in the header. -/
theorem Saved.getVcount_eq {next : PcapNext} (hs : Saved packet next) (hshaped : Shaped packet)
    (htype : packet.type = .linuxSll) :
    getVcount host (getPacketTracefile .linuxSll next) = getVcount host packet := by
  have hcaplen := hs.caplen
  have hsize := hshaped.size
  have hcap : 16 ≤ packet.header.caplen.toNat := by
    rcases hshaped.type with ⟨-, hcap⟩ | hen
    · exact hcap
    · exact nomatch hen.symm.trans htype
  have hsize' : (getPacketTracefile .linuxSll next).size.toNat =
      next.header.caplen.toNat + sizeofPcapPkthdr := by
    have hlt := next.header.caplen.toNat_lt
    simp only [getPacketTracefile, UInt64.toNat_add, UInt32.toNat_toUInt64, UInt64.toNat_ofNat',
      sizeofPcapPkthdr]
    omega
  rw [bpfPacketSize] at hcaplen
  have haddr : bytesAt (getPacketTracefile .linuxSll next).payload 6 8 =
    bytesAt packet.payload 6 8 :=
    hs.bytesAt_eq (by omega)
  have hsll : (getPacketTracefile .linuxSll next).type = .linuxSll := rfl
  rw [getVcount, getVcount, hsll, htype]
  simp only [getVcountFromSll, haddr, hsize', hsize, sizeofLinuxSllHeader]
  rw [if_neg (by omega), if_neg (by omega)]

section Packet

variable (hr : Replayed host p r) (hwhole : Rejected host p.packet ∨ Complete host p.packet)
include hr hwhole

/-- The same payload is found. -/
theorem Replayed.payload_eq :
    getValidNtpPayload host r.udph r.packet = getValidNtpPayload host p.udph p.packet := by
  obtain ⟨next, hs, hpacket⟩ := hr.packet
  rw [hpacket]
  exact getValidNtpPayload_saved hr.live.shaped hs hwhole

/-- Behind what is accepted, both have the same counter value and the same NTP header. -/
theorem Replayed.found (hp : getValidNtpPayload host p.udph p.packet = some payload) :
    getVcount host r.packet = getVcount host p.packet ∧ r.ntp host payload = p.ntp host payload ∧
      payload.ssSrc.isSome ∧ payload.ssDst.isSome ∧ payload.ttl.isSome := by
  have hc := hwhole.resolve_left fun hrej =>
    nomatch hp.symm.trans (getValidNtpPayload_eq_none_iff.mpr hrej)
  obtain ⟨hle, hset⟩ := hc.ntp_le hp
  obtain ⟨next, hs, hpacket⟩ := hr.packet
  rw [← hs.caplen] at hle
  rw [NetPacket.ntp, NetPacket.ntp, hpacket]
  exact ⟨hs.getVcount_eq hr.live.shaped hc.type, hs.loadNtpPkt_eq hle, hset⟩

/-- The same packets are the daemon's own. -/
theorem Replayed.own_iff (addr : SockAddr) : Own host addr r ↔ Own host addr p := by
  unfold Own
  rw [hr.payload_eq hwhole]
  refine exists_congr fun payload => and_congr_right fun hp => ?_
  obtain ⟨-, hntp, hsrc, hdst, -⟩ := hr.found hwhole hp
  obtain ⟨src, hsrc⟩ := Option.isSome_iff_exists.mp hsrc
  obtain ⟨dst, hdst⟩ := Option.isSome_iff_exists.mp hdst
  rw [hntp, hsrc, hdst]
  rfl

/-- The same half is made of it. -/
theorem Replayed.halfOf_eq :
    (halfOf host inetNtop r : Option (Int × StampT D)) = halfOf host inetNtop p := by
  unfold halfOf
  rw [hr.payload_eq hwhole]
  cases hp : getValidNtpPayload host p.udph p.packet with
  | none =>
    simp only [Option.bind_eq_bind, Option.bind_none, Option.bind_fun_none]
  | some payload =>
    obtain ⟨hvcount, hntp, -, hdst, httl⟩ := hr.found hwhole hp
    obtain ⟨dst, hdst⟩ := Option.isSome_iff_exists.mp hdst
    obtain ⟨ttl, httl⟩ := Option.isSome_iff_exists.mp httl
    rw [hvcount]
    simp only [Option.bind_eq_bind, Option.bind_some, hntp, hdst, httl]
    rfl

/-- A packet carries the same half in a replay, unless it carries one that only one of the two
runs drops. -/
theorem Replayed.pushOf_eq_iff :
    (pushOf host inetNtop r : Option (Int × StampT D)) = pushOf host inetNtop p ↔
      (halfOf host inetNtop p : Option (Int × StampT D)) = none ∨
        (Own host p.ssIf p ↔ Own host tracefileSsIf p) := by
  have hreplay : Own host r.ssIf r ↔ Own host tracefileSsIf p := by
    rw [hr.ssIf, hr.own_iff hwhole]
  by_cases hlive : Own host p.ssIf p
  · rw [pushOf_own hlive]
    by_cases htrace : Own host tracefileSsIf p
    · exact iff_of_true (pushOf_own (hreplay.mpr htrace)) (.inr (iff_of_true hlive htrace))
    · rw [pushOf_foreign fun hown => htrace (hreplay.mp hown), hr.halfOf_eq hwhole]
      simp [hlive, htrace]
  · rw [pushOf_foreign hlive]
    by_cases htrace : Own host tracefileSsIf p
    · rw [pushOf_own (hreplay.mpr htrace), eq_comm]
      simp [hlive, htrace]
    · rw [pushOf_foreign fun hown => htrace (hreplay.mp hown)]
      exact iff_of_true (hr.halfOf_eq hwhole) (.inr (iff_of_false hlive htrace))

end Packet

end Halves

/-! ## Runs -/

section Run

variable {D : Type} [Arith D] {host : Host} (inetNtop : SockAddr → Text)
  {scrub scrub' : Nat → Cell (StampT D) → Cell (StampT D)}

/-- A call of a replay takes one packet, if there is one. -/
theorem getNetworkStamp_dead {packets packets' : List NetPacket} {s s' : StampInput D} {ret : Int}
    {o : Option (StampT D)}
    (hcall : getNetworkStamp host inetNtop scrub .dead packets s = some (ret, o, packets', s')) :
    packets' = packets.tail := by
  unfold getNetworkStamp at hcall
  obtain ⟨⟨err, left, mid⟩, hread, hrest⟩ := Option.bind_eq_some_iff.mp hcall
  have hleft : left = packets.tail := by
    unfold readPackets at hread
    cases packets with
    | nil => cases hread; rfl
    | cons p packets =>
      obtain ⟨r, -, heq⟩ := Option.map_eq_some_iff.mp hread
      cases heq
      rfl
  rw [← hleft]
  simp only at hrest
  split_ifs at hrest
  · cases hrest; rfl
  · cases hrest; rfl
  · obtain ⟨r, -, heq⟩ := Option.map_eq_some_iff.mp hrest
    cases heq
    rfl

/-- As many calls as there are packets leave none. -/
theorem stampRun_dead {n : Nat} {packets left : List NetPacket} {s s' : StampInput D}
    {stamps : List (StampT D)} (hle : packets.length ≤ n)
    (hrun : stampRun host inetNtop scrub .dead (List.replicate n []) packets s =
      some (stamps, left, s')) : left = [] := by
  induction n generalizing packets s stamps with
  | zero =>
    rw [List.replicate_zero, stampRun] at hrun
    cases hrun
    exact List.length_eq_zero_iff.mp (Nat.le_zero.mp hle)
  | succ n ih =>
    rw [List.replicate_succ, stampRun, List.append_nil] at hrun
    obtain ⟨⟨ret, o, packets', mid⟩, hcall, hrest⟩ := Option.bind_eq_some_iff.mp hrun
    obtain ⟨⟨stamps', left', s''⟩, htail, heq⟩ := Option.map_eq_some_iff.mp hrest
    cases heq
    refine ih ?_ htail
    rw [getNetworkStamp_dead inetNtop hcall, List.length_tail]
    omega

/-- A replay reads the trace to its end. -/
theorem replay_left {trace left : List NetPacket} {s : StampInput D} {stamps : List (StampT D)}
    (hrun : replay host inetNtop scrub trace = some (stamps, left, s)) : left = [] := by
  rw [replay, stampRun, List.nil_append] at hrun
  obtain ⟨⟨ret, o, packets', mid⟩, hcall, hrest⟩ := Option.bind_eq_some_iff.mp hrun
  obtain ⟨⟨stamps', left', s''⟩, htail, heq⟩ := Option.map_eq_some_iff.mp hrest
  cases heq
  refine stampRun_dead inetNtop ?_ htail
  rw [getNetworkStamp_dead inetNtop hcall, List.length_tail]
  omega

/-- The trace has the halves that were captured. -/
theorem halvesOf_replayed {ps trace : List NetPacket}
    (htrace : List.Forall₂ (Replayed host) ps trace)
    (hwhole : ∀ p ∈ ps, Rejected host p.packet ∨ Complete host p.packet)
    (hown : ∀ p ∈ ps, Own host p.ssIf p ↔ Own host tracefileSsIf p) :
    (halvesOf host inetNtop trace : List (Int × StampT D)) = halvesOf host inetNtop ps := by
  induction htrace with
  | nil => rfl
  | @cons p r ps trace hr _ ih =>
    obtain ⟨hwholep, hwhole⟩ := List.forall_mem_cons.mp hwhole
    obtain ⟨hownp, hown⟩ := List.forall_mem_cons.mp hown
    rw [halvesOf, halvesOf, List.filterMap_cons, List.filterMap_cons,
      (hr.pushOf_eq_iff hwholep).mpr (.inr hownp)]
    have htail := ih hwhole hown
    rw [halvesOf, halvesOf] at htail
    rw [htail]

/-- A replay of the trace of a live run delivers the stamps of the run, and those of the packets
that the run has left, whatever the calls were given and whatever lay behind the packets. -/
theorem replay_stamps (hkeeps : Keeps scrub) (hkeeps' : Keeps scrub')
    {arrivals : List (List NetPacket)} {trace : List NetPacket}
    (htrace : List.Forall₂ (Replayed host) arrivals.flatten trace)
    (hwhole : ∀ p ∈ arrivals.flatten, Rejected host p.packet ∨ Complete host p.packet)
    (hown : ∀ p ∈ arrivals.flatten, Own host p.ssIf p ↔ Own host tracefileSsIf p)
    (hv : ∀ p ∈ arrivals.flatten ++ trace, getVcount host p.packet ≠ some 0) :
    ∃ stamps left s stamps' s',
      stampRun host inetNtop scrub .live arrivals [] StampInput.init = some (stamps, left, s) ∧
      replay host inetNtop scrub' trace = some (stamps', [], s') ∧
      stamps <+: stamps' ∧ (left = [] → stamps = stamps') := by
  obtain ⟨stamps, left, s, ps, hlive, hsplit, hhalves⟩ :=
    stampRun_halves inetNtop hkeeps .live arrivals fun p hp => hv p (List.mem_append_left _ hp)
  have hflat : (trace :: List.replicate trace.length []).flatten = trace := by simp
  obtain ⟨stamps', left', s', ps', hreplay, hsplit', hhalves'⟩ :=
    stampRun_halves inetNtop hkeeps' .dead (trace :: List.replicate trace.length []) fun p hp =>
      hv p (List.mem_append_right _ (hflat ▸ hp))
  obtain rfl : left' = [] := replay_left inetNtop hreplay
  rw [hflat, List.append_nil] at hsplit'
  rw [← hsplit', halvesOf_replayed inetNtop htrace hwhole hown, hsplit, halvesOf_append,
    matchHalves_append, hhalves] at hhalves'
  obtain ⟨hstamps, -⟩ := Prod.mk.inj hhalves'
  refine ⟨stamps, left, s, stamps', s', hlive, hreplay, ?_, ?_⟩
  · rw [← hstamps]
    exact List.prefix_append _ _
  · rintro rfl
    rw [← hstamps]
    exact (List.append_nil _).symm

end Run

/-! ## A trace -/

/-- The packet that is handed on for a frame of the link type SLL. -/
def livePacket (liVnMode : UInt8) : NetPacket :=
  { ntpFrame liVnMode with packet := setVcountInSll littleEndianHost (ntpFrame liVnMode).packet 1 }

/-- The one read from the trace, with other bytes behind it. -/
def savedPacket (liVnMode : UInt8) : NetPacket :=
  { livePacket liVnMode with
    packet := getPacketTracefile .linuxSll
      { header := (livePacket liVnMode).packet.header
        payload := fun i => if i < 92 then (livePacket liVnMode).packet.payload i else 0xff }
    ssIf := tracefileSsIf }

/-- A live packet and the packet saved of it. -/
theorem replayed_savedPacket (liVnMode : UInt8) :
    Replayed littleEndianHost (livePacket liVnMode) (savedPacket liVnMode) where
  live := by
    let f : CapturedFrame :=
      { toRadpcapPacket := (ntpFrame liVnMode).packet
        size_eq := rfl
        caplen_ge := by show 16 ≤ 92; decide
        fits := by show 24 + 16 + 92 ≤ 65535; decide }
    have hread : getVcount littleEndianHost (setVcountInSll littleEndianHost f.toRadpcapPacket 1) =
        some 1 := getVcount_setVcountInSll 1 rfl (by show 24 + 16 ≤ 116; decide)
    exact ⟨f, fun _ => 0, none, 1, if_pos hread⟩
  packet := ⟨_, ⟨rfl, fun i hi => if_pos hi⟩, rfl⟩
  ssIf := rfl

/-- It has all its headers. -/
theorem complete_livePacket {liVnMode : UInt8} (hm : liVnMode = 0x23 ∨ liVnMode = 0x24) :
    Complete littleEndianHost (livePacket liVnMode).packet := by
  rcases hm with rfl | rfl
  · exact ⟨rfl, by decide, .inl ⟨by decide, by decide, by decide⟩⟩
  · exact ⟨rfl, by decide, .inl ⟨by decide, by decide, by decide⟩⟩

/-- Both addresses are zero. -/
theorem not_own_livePacket {liVnMode : UInt8} (hm : liVnMode = 0x23 ∨ liVnMode = 0x24)
    {addr : SockAddr} (haddr : badPacketClient addr (.inet [0, 0, 0, 0]) = false) :
    ¬ Own littleEndianHost addr (livePacket liVnMode) := by
  have hpayload : getValidNtpPayload littleEndianHost 0 (livePacket liVnMode).packet =
      some ⟨44, some (.inet [0, 0, 0, 0]), some (.inet [0, 0, 0, 0]), some 64⟩ := by
    rcases hm with rfl | rfl <;> decide
  rintro ⟨payload, hp, hown⟩
  obtain rfl := Option.some.inj (hpayload.symm.trans hp)
  rcases hown with ⟨-, hown⟩ | ⟨-, hown⟩
  · exact absurd (haddr.symm.trans hown) (by decide)
  · exact absurd (haddr.symm.trans hown) (by decide)

/-- A request and its reply, which a live call gets together and a replay one after the other. -/
theorem replay_stamps_reply :
    ∃ stamps left s stamps' s',
      stampRun littleEndianHost inetNtop4 (fun _ c => c) .live
        [[livePacket 0x23, livePacket 0x24]] [] (StampInput.init : StampInput Float) =
          some (stamps, left, s) ∧
      replay littleEndianHost inetNtop4 (fun _ c => c) [savedPacket 0x23, savedPacket 0x24] =
        some (stamps', [], s') ∧
      stamps <+: stamps' ∧ (left = [] → stamps = stamps') := by
  refine replay_stamps inetNtop4 (fun _ _ => ⟨rfl, rfl⟩) (fun _ _ => ⟨rfl, rfl⟩)
    (.cons (replayed_savedPacket _) (.cons (replayed_savedPacket _) .nil)) ?_ ?_ ?_
  · intro p hp
    simp only [List.flatten_cons, List.flatten_nil, List.append_nil, List.mem_cons,
      List.not_mem_nil, or_false] at hp
    rcases hp with rfl | rfl
    · exact .inr (complete_livePacket (.inl rfl))
    · exact .inr (complete_livePacket (.inr rfl))
  · intro p hp
    simp only [List.flatten_cons, List.flatten_nil, List.append_nil, List.mem_cons,
      List.not_mem_nil, or_false] at hp
    rcases hp with rfl | rfl
    · exact iff_of_false (not_own_livePacket (.inl rfl) (by decide))
        (not_own_livePacket (.inl rfl) (by decide))
    · exact iff_of_false (not_own_livePacket (.inr rfl) (by decide))
        (not_own_livePacket (.inr rfl) (by decide))
  · intro p hp
    simp only [List.flatten_cons, List.flatten_nil, List.append_nil, List.cons_append,
      List.nil_append, List.mem_cons, List.not_mem_nil, or_false] at hp
    rcases hp with rfl | rfl | rfl | rfl <;> decide

end RADclock.Capture
