import RADclock.Lib.Memory

/-!
# Live packets (`stampinput-livepcap.c`)

A captured frame is given a Linux SLL header in place of its own link header, and the counter value
taken at its capture is hidden in the address field of that header. `get_packet_livepcap` reads the
value back at once, and asserts that it is the one stored.

A frame that `insert_sll_header` refuses keeps its type, and the caller only logs the failure. The
counter is then looked for where it was not stored. The type inside a VLAN tag is compared without
`ntohs`, so on a little-endian host the tagged frames are among those.

- `insertSllHeader`, `setVcountInSll`, `getVcount`, `getPacketLivepcap`: the code.
- `Encapsulates`, `Converted`: the frames of IP, and what is to become of them.
- `getPacketLivepcap_right_iff`: the frames that are treated as they should be.
-/

namespace RADclock.Capture

open Lib

/-! ## Packets -/

/-- The host. -/
structure Host where
  /-- `WORDS_BIGENDIAN` -/
  wordsBigendian : Bool
  /-- `AF_INET6`, which differs between systems. -/
  afInet6 : Nat
  /-- Two cases of one `switch`. -/
  afInet6_ne : afInet6 ≠ 2

def afInet : Nat := 2

/-- The link types that the code names. -/
inductive Dlt where
  | null
  | linuxSll
  | ieee80211
  | en10mb
  | other (type : UInt32)
deriving DecidableEq, Repr

/-- `struct pcap_pkthdr`. -/
structure PcapPkthdr where
  tvSec : UInt64
  tvUsec : UInt64
  caplen : UInt32
  len : UInt32
deriving DecidableEq, Repr

/-- `sizeof(struct pcap_pkthdr)` -/
def sizeofPcapPkthdr : Nat := 24

/-- `sizeof(linux_sll_header_t)`: `pkttype`, `hatype`, `halen`, `addr` and `protocol`. -/
def sizeofLinuxSllHeader : Nat := 16

def radpcapPacketBufsize : Nat := 65535

def ethertypeIp : Nat := 0x0800
def ethertypeIpv6 : Nat := 0x86DD
def ethertypeVlan : Nat := 0x8100

/-- IEEE 1588 over Ethernet. -/
def ethertypePtp : Nat := 0x88F7

/-- `radpcap_packet_t`. The payload is the memory of the buffer behind the pcap header. -/
structure RadpcapPacket where
  header : PcapPkthdr
  payload : Nat → UInt8
  size : UInt64
  type : Dlt

variable (h : Host)

/-! ## The code -/

/-- What `insert_sll_header` makes of the link header. -/
inductive LinkLayer where
  /-- It is a Linux SLL header. -/
  | sll
  /-- It is to be replaced. -/
  | replace (ethertype etherlen : Nat)
  | unsupported
deriving DecidableEq, Repr

/-- The `switch` at the head of `insert_sll_header`. -/
def linkLayer (packet : RadpcapPacket) : LinkLayer :=
  match packet.type with
  | .null =>
    -- The address family is in the byte order of the host.
    let family := load h.wordsBigendian (bytesAt packet.payload 0 4)
    if family = afInet then .replace ethertypeIp 4
    else if family = h.afInet6 then .replace ethertypeIpv6 4
    else .unsupported
  | .linuxSll => .sll
  | .ieee80211 | .en10mb =>
    let ethertype := ntoh h.wordsBigendian 2 (load h.wordsBigendian (bytesAt packet.payload 12 2))
    if ethertype < 0x0600 then .unsupported
    else
      let (ethertype, etherlen) :=
        if ethertype = ethertypeVlan then
          -- There is no `ntohs` here.
          (load h.wordsBigendian (bytesAt packet.payload 16 2), 18)
        else (ethertype, 14)
      if ethertype = ethertypeIp ∨ ethertype = ethertypeIpv6 ∨ ethertype = ethertypePtp then
        .replace ethertype etherlen
      else .unsupported
  | .other _ => .unsupported

/-- The new frame, in fresh memory. -/
def replaceLinkHeader (tmpbuffer : Nat → UInt8) (packet : RadpcapPacket)
    (ethertype etherlen : Nat) : RadpcapPacket :=
  let htons := ntoh h.wordsBigendian 2
  let sllh := memcpy tmpbuffer 0 (store h.wordsBigendian 2 (htons 3))
  let sllh := memcpy sllh 2 (store h.wordsBigendian 2 (htons 1))
  let sllh := memcpy sllh 14 (store h.wordsBigendian 2 (htons ethertype))
  let header := packet.header
  { header :=
      { header with
        caplen := header.caplen + .ofNat sizeofLinuxSllHeader - .ofNat etherlen
        len := header.len + .ofNat sizeofLinuxSllHeader - .ofNat etherlen }
    payload := memcpy sllh sizeofLinuxSllHeader
      (bytesAt packet.payload etherlen (header.caplen.toNat - etherlen))
    size := packet.size + .ofNat sizeofLinuxSllHeader - .ofNat etherlen
    type := .linuxSll }

/-- `insert_sll_header`, with what `malloc` returns. -/
def insertSllHeader (tmpbuffer : Nat → UInt8) (packet : RadpcapPacket) : Nat × RadpcapPacket :=
  match linkLayer h packet with
  | .sll => (0, packet)
  | .replace ethertype etherlen => (0, replaceLinkHeader h tmpbuffer packet ethertype etherlen)
  | .unsupported => (1, packet)

/-- `ntohll` and `htonll`, the two halves each with `ntohl`. -/
def ntohll (x : Nat) : Nat :=
  if h.wordsBigendian then x
  else (ntoh false 4 (x % 2 ^ 32)) <<< 32 ||| ntoh false 4 (x >>> 32)

/-- `set_vcount_in_sll`. -/
def setVcountInSll (packet : RadpcapPacket) (vcount : UInt64) : RadpcapPacket :=
  let payload := memcpy packet.payload 6 (store h.wordsBigendian 8 (ntohll h vcount.toNat))
  let payload := memcpy payload 4 (store h.wordsBigendian 2 (ntoh h.wordsBigendian 2 8))
  { packet with payload }

/-- The counter value in the timestamp of a pcap header. -/
def PcapPkthdr.vcount (header : PcapPkthdr) : UInt64 :=
  (header.tvSec <<< 32) + header.tvUsec.toUInt32.toUInt64

/-- `get_vcount_from_etherframe`. -/
def getVcountFromEtherframe (packet : RadpcapPacket) : Option UInt64 :=
  if packet.size.toNat < sizeofPcapPkthdr then none
  else some packet.header.vcount

/-- `get_vcount_from_sll`. -/
def getVcountFromSll (packet : RadpcapPacket) : Option UInt64 :=
  if packet.size.toNat < sizeofPcapPkthdr + sizeofLinuxSllHeader then none
  else
    let alignedVcount := load h.wordsBigendian (bytesAt packet.payload 6 8)
    some (.ofNat (ntohll h alignedVcount))

/-- `get_vcount`. -/
def getVcount (packet : RadpcapPacket) : Option UInt64 :=
  match packet.type with
  | .en10mb => getVcountFromEtherframe packet
  | .linuxSll => getVcountFromSll h packet
  | _ => none

/-- `get_packet_livepcap`, for a packet that has been delivered; `none` is a failed assertion. The
timestamp is generated by the radclock, or left as it is. -/
def getPacketLivepcap (tmpbuffer : Nat → UInt8) (readRADabsUTC : Option (UInt64 → UInt64 × UInt64))
    (radpkt : RadpcapPacket) (vcount : UInt64) : Option RadpcapPacket :=
  -- A failure of `insert_sll_header` is logged, and ignored.
  let radpkt := setVcountInSll h (insertSllHeader h tmpbuffer radpkt).2 vcount
  if getVcount h radpkt = some vcount then
    match readRADabsUTC with
    | none => some radpkt
    | some time =>
      let (tvSec, tvUsec) := time vcount
      some { radpkt with header := { radpkt.header with tvSec, tvUsec } }
  else none

/-! ## Captured frames -/

/-- The type field of an Ethernet frame. -/
def etherType (packet : RadpcapPacket) : Nat := load true (bytesAt packet.payload 12 2)

/-- The type field behind a VLAN tag. -/
def vlanType (packet : RadpcapPacket) : Nat := load true (bytesAt packet.payload 16 2)

/-- The link types with an Ethernet header. -/
def Dlt.ethernet : Dlt → Bool
  | .ieee80211 | .en10mb => true
  | _ => false

def linkHeaderLen (packet : RadpcapPacket) : Nat :=
  match packet.type with
  | .null => 4
  | .linuxSll => sizeofLinuxSllHeader
  | .ieee80211 | .en10mb => if etherType packet = ethertypeVlan then 18 else 14
  | .other _ => 0

/-- A packet as `deliver_rawdata_pcap` delivers it. -/
structure CapturedFrame extends RadpcapPacket where
  size_eq : size.toNat = header.caplen.toNat + sizeofPcapPkthdr
  caplen_ge : linkHeaderLen toRadpcapPacket ≤ header.caplen.toNat
  /-- The buffers are larger than any frame captured. -/
  fits : sizeofPcapPkthdr + sizeofLinuxSllHeader + header.caplen.toNat ≤ radpcapPacketBufsize

/-! ## The frames of IP -/

inductive NetProtocol where
  | ipv4
  | ipv6
deriving DecidableEq, Repr

def NetProtocol.ethertype : NetProtocol → Nat
  | .ipv4 => 0x0800
  | .ipv6 => 0x86DD

def NetProtocol.family : NetProtocol → Nat
  | .ipv4 => 2
  | .ipv6 => h.afInet6

inductive Encapsulation where
  | ethernet
  | vlan
  | loopback
deriving DecidableEq, Repr

/-- The size of the link header. -/
def Encapsulation.headerLen : Encapsulation → Nat
  | .ethernet => 14
  | .vlan => 18
  | .loopback => 4

/-- A frame that carries a packet of `proto`. -/
def Encapsulates (packet : RadpcapPacket) (proto : NetProtocol) : Encapsulation → Prop
  | .ethernet => packet.type.ethernet ∧ etherType packet = proto.ethertype
  | .vlan => packet.type.ethernet ∧ etherType packet = ethertypeVlan ∧
      vlanType packet = proto.ethertype
  | .loopback => packet.type = .null ∧
      load h.wordsBigendian (bytesAt packet.payload 0 4) = proto.family h

instance decidableEncapsulates (packet : RadpcapPacket) (proto : NetProtocol) (e : Encapsulation) :
    Decidable (Encapsulates h packet proto e) :=
  match e with
  | .ethernet => inferInstanceAs (Decidable (_ ∧ _))
  | .vlan => inferInstanceAs (Decidable (_ ∧ _))
  | .loopback => inferInstanceAs (Decidable (_ ∧ _))

/-- The frame with an SLL header in place of a link header of `etherlen` bytes. -/
structure Converted (etherlen : Nat) (proto : NetProtocol) (packet packet' : RadpcapPacket) :
    Prop where
  type : packet'.type = .linuxSll
  protocol : load true (bytesAt packet'.payload 14 2) = proto.ethertype
  network : bytesAt packet'.payload sizeofLinuxSllHeader (packet.header.caplen.toNat - etherlen) =
    bytesAt packet.payload etherlen (packet.header.caplen.toNat - etherlen)
  caplen : packet'.header.caplen.toNat + etherlen =
    packet.header.caplen.toNat + sizeofLinuxSllHeader
  -- The length on the wire is not bounded by the code, so it is compared in 32 bits.
  len : packet'.header.len + .ofNat etherlen = packet.header.len + .ofNat sizeofLinuxSllHeader
  size : packet'.size.toNat + etherlen = packet.size.toNat + sizeofLinuxSllHeader

/-- The protocols that are accepted on Ethernet. -/
def etherProtocols : List Nat := [0x0800, 0x86DD, 0x88F7]

/-- The frames whose link header can be replaced, or is an SLL header. -/
def Supported (packet : RadpcapPacket) : Prop :=
  packet.type = .linuxSll ∨
  (packet.type = .null ∧ ∃ proto : NetProtocol,
    load h.wordsBigendian (bytesAt packet.payload 0 4) = proto.family h) ∨
  (packet.type.ethernet ∧
    (etherType packet ∈ etherProtocols ∨
      etherType packet = ethertypeVlan ∧
        load h.wordsBigendian (bytesAt packet.payload 16 2) ∈ etherProtocols))

/-! ## The counter value in the address field -/

variable {h}

/-- The two halves make up one number of eight bytes. -/
theorem ntohll_eq (x : Nat) : ntohll h x = ntoh h.wordsBigendian 8 x := by
  unfold ntohll
  cases h.wordsBigendian with
  | true => rfl
  | false =>
    have hlow : swapBytes 4 (x % 2 ^ 32) = swapBytes 4 x := swapBytes_mod 4 x
    have hhigh : swapBytes 4 (x >>> 32) < 2 ^ 32 := swapBytes_lt 4 _
    have hswap : swapBytes 8 x = swapBytes 4 (x / 2 ^ 32) + 2 ^ 32 * swapBytes 4 x :=
      swapBytes_add 4 4 x
    simp only [ntoh, Bool.false_eq_true, if_false]
    rw [hlow, ← Nat.shiftLeft_add_eq_or_of_lt hhigh, hswap, Nat.shiftLeft_eq,
      Nat.shiftRight_eq_div_pow, Nat.mul_comm, Nat.add_comm]

/-- The value stored is read back, if there is an SLL header. -/
theorem getVcountFromSll_setVcountInSll (packet : RadpcapPacket) (vcount : UInt64)
    (hsize : sizeofPcapPkthdr + sizeofLinuxSllHeader ≤ packet.size.toNat) :
    getVcountFromSll h (setVcountInSll h packet vcount) = some vcount := by
  have haddr : bytesAt (setVcountInSll h packet vcount).payload 6 8 =
    store true 8 vcount.toNat := by
    rw [setVcountInSll, bytesAt_memcpy_of_disjoint _ (by simp), bytesAt_memcpy _ _ (by simp),
      ntohll_eq, store_ntoh]
  have hread : ntohll h (load h.wordsBigendian (store true 8 vcount.toNat)) = vcount.toNat := by
    rw [ntohll_eq, ntoh_load _ (length_store ..), load_store]
    exact Nat.mod_eq_of_lt vcount.toNat_lt
  have hbig : ¬(setVcountInSll h packet vcount).size.toNat <
      sizeofPcapPkthdr + sizeofLinuxSllHeader := Nat.not_lt.mpr hsize
  simp only [getVcountFromSll, if_neg hbig, haddr, hread, UInt64.ofNat_toNat]

/-! ## The link layer -/

/-- The type field of an Ethernet frame is read in network order. -/
theorem linkLayer_ethernet {packet : RadpcapPacket} (ht : packet.type.ethernet) :
    linkLayer h packet =
      if etherType packet = ethertypeVlan then
        if load h.wordsBigendian (bytesAt packet.payload 16 2) ∈ etherProtocols then
          .replace (load h.wordsBigendian (bytesAt packet.payload 16 2)) 18
        else .unsupported
      else if etherType packet ∈ etherProtocols then .replace (etherType packet) 14
      else .unsupported := by
  have htype : ntoh h.wordsBigendian 2 (load h.wordsBigendian (bytesAt packet.payload 12 2)) =
      etherType packet := ntoh_load _ (length_bytesAt ..)
  have hlayer : linkLayer h packet =
      if etherType packet < 0x0600 then .unsupported
      else
        let (ethertype, etherlen) :=
          if etherType packet = ethertypeVlan then
            (load h.wordsBigendian (bytesAt packet.payload 16 2), 18)
          else (etherType packet, 14)
        if ethertype = ethertypeIp ∨ ethertype = ethertypeIpv6 ∨ ethertype = ethertypePtp then
          .replace ethertype etherlen
        else .unsupported := by
    rw [← htype, linkLayer]
    cases hp : packet.type <;> simp_all [Dlt.ethernet]
  rw [hlayer]
  -- by the type field: VLAN, an 802.3 length, or a protocol
  by_cases hvlan : etherType packet = ethertypeVlan
  · have hlarge : ¬etherType packet < 0x0600 := by
      rw [hvlan]
      decide
    simp only [if_neg hlarge, if_pos hvlan, etherProtocols, List.mem_cons, List.not_mem_nil,
      or_false, ethertypeIp, ethertypeIpv6, ethertypePtp]
  · simp only [if_neg hvlan, etherProtocols, List.mem_cons, List.not_mem_nil, or_false,
      ethertypeIp, ethertypeIpv6, ethertypePtp]
    by_cases hsmall : etherType packet < 0x0600
    · rw [if_pos hsmall, if_neg (by omega)]
    · rw [if_neg hsmall]

theorem linkLayer_null {packet : RadpcapPacket} (ht : packet.type = .null) :
    linkLayer h packet =
      if load h.wordsBigendian (bytesAt packet.payload 0 4) = afInet then .replace ethertypeIp 4
      else if load h.wordsBigendian (bytesAt packet.payload 0 4) = h.afInet6 then
        .replace ethertypeIpv6 4
      else .unsupported := by
  simp only [linkLayer, ht]

theorem supported_ethernet_iff {packet : RadpcapPacket} (ht : packet.type.ethernet) :
    linkLayer h packet ≠ .unsupported ↔ Supported h packet := by
  have hsll : packet.type ≠ .linuxSll := fun heq => by simp [heq, Dlt.ethernet] at ht
  have hnull : packet.type ≠ .null := fun heq => by simp [heq, Dlt.ethernet] at ht
  have hvlan : ethertypeVlan ∉ etherProtocols := by decide
  rw [linkLayer_ethernet ht]
  simp only [Supported, hsll, hnull, ht, false_and, false_or, true_and]
  split
  · next htag =>
    rw [htag]
    simp [hvlan]
  · next htag => simp [htag]

theorem supported_null_iff {packet : RadpcapPacket} (ht : packet.type = .null) :
    linkLayer h packet ≠ .unsupported ↔ Supported h packet := by
  rw [linkLayer_null ht]
  simp only [Supported, ht, Dlt.ethernet, reduceCtorEq, Bool.false_eq_true, false_and, or_false,
    true_and, false_or]
  split
  · next hfamily => exact ⟨fun _ => ⟨.ipv4, hfamily⟩, fun _ => by simp⟩
  · next hne =>
    split
    · next hfamily => exact ⟨fun _ => ⟨.ipv6, hfamily⟩, fun _ => by simp⟩
    · next hne6 =>
      simp only [ne_eq, not_true_eq_false, false_iff]
      rintro ⟨_ | _, hfamily⟩
      · exact hne hfamily
      · exact hne6 hfamily

theorem linkLayer_ne_unsupported_iff (packet : RadpcapPacket) :
    linkLayer h packet ≠ .unsupported ↔ Supported h packet := by
  cases ht : packet.type with
  | null => exact supported_null_iff ht
  | linuxSll => simp [linkLayer, Supported, ht]
  | ieee80211 => exact supported_ethernet_iff (by rw [ht]; rfl)
  | en10mb => exact supported_ethernet_iff (by rw [ht]; rfl)
  | other type => simp [linkLayer, Supported, ht, Dlt.ethernet]

theorem linkHeaderLen_ethernet {packet : RadpcapPacket} (ht : packet.type.ethernet) :
    linkHeaderLen packet = if etherType packet = ethertypeVlan then 18 else 14 := by
  rw [linkHeaderLen]
  cases hp : packet.type <;> simp_all [Dlt.ethernet]

theorem etherlen_ethernet {packet : RadpcapPacket} {ethertype etherlen : Nat}
    (ht : packet.type.ethernet) (hl : linkLayer h packet = .replace ethertype etherlen) :
    etherlen = linkHeaderLen packet := by
  rw [linkLayer_ethernet ht] at hl
  rw [linkHeaderLen_ethernet ht]
  split at hl <;> split at hl <;> simp_all

/-- The bytes that are cut off are those of the link header. -/
theorem linkLayer_etherlen {packet : RadpcapPacket} {ethertype etherlen : Nat}
    (hl : linkLayer h packet = .replace ethertype etherlen) : etherlen = linkHeaderLen packet := by
  cases ht : packet.type with
  | null =>
    rw [linkLayer_null ht] at hl
    rw [linkHeaderLen, ht]
    split at hl
    · simp_all
    · split at hl <;> simp_all
  | linuxSll => simp [linkLayer, ht] at hl
  | ieee80211 => exact etherlen_ethernet (by rw [ht]; rfl) hl
  | en10mb => exact etherlen_ethernet (by rw [ht]; rfl) hl
  | other type => simp [linkLayer, ht] at hl

theorem type_of_linkLayer_sll {packet : RadpcapPacket} (hl : linkLayer h packet = .sll) :
    packet.type = .linuxSll := by
  have hether : ¬packet.type.ethernet := by
    intro ht
    rw [linkLayer_ethernet ht] at hl
    split at hl <;> split at hl <;> simp at hl
  cases ht : packet.type with
  | null =>
    rw [linkLayer_null ht] at hl
    split at hl
    · simp at hl
    · split at hl <;> simp at hl
  | linuxSll => rfl
  | ieee80211 => simp [ht, Dlt.ethernet] at hether
  | en10mb => simp [ht, Dlt.ethernet] at hether
  | other type => simp [linkLayer, ht] at hl

/-! ## The frames of IP are converted -/

theorem NetProtocol.ethertype_mem (proto : NetProtocol) : proto.ethertype ∈ etherProtocols := by
  cases proto <;> decide

/-- A type field read in the wrong byte order is not one of the protocols. -/
theorem NetProtocol.swapBytes_notMem (proto : NetProtocol) :
    swapBytes 2 proto.ethertype ∉ etherProtocols := by
  cases proto <;> decide

/-- A frame of IP is taken for what it is, but for a tagged one on a little-endian host. -/
theorem linkLayer_of_encapsulates {packet : RadpcapPacket} {proto : NetProtocol} {e : Encapsulation}
    (he : Encapsulates h packet proto e) (hvlan : e = .vlan → h.wordsBigendian = true) :
    linkLayer h packet = .replace proto.ethertype e.headerLen := by
  cases e with
  | ethernet =>
    obtain ⟨ht, htype⟩ := he
    have hne : proto.ethertype ≠ ethertypeVlan := by cases proto <;> decide
    rw [linkLayer_ethernet ht, htype, if_neg hne, if_pos proto.ethertype_mem]
    rfl
  | vlan =>
    obtain ⟨ht, htag, htype⟩ := he
    rw [vlanType] at htype
    rw [linkLayer_ethernet ht, if_pos htag, hvlan rfl, htype, if_pos proto.ethertype_mem]
    rfl
  | loopback =>
    obtain ⟨ht, hfamily⟩ := he
    rw [linkLayer_null ht, hfamily]
    cases proto with
    | ipv4 => rfl
    | ipv6 =>
      have hne : NetProtocol.family h .ipv6 ≠ afInet := h.afInet6_ne
      rw [if_neg hne]
      exact if_pos rfl

theorem linkLayer_vlan_littleEndian {packet : RadpcapPacket} {proto : NetProtocol}
    (he : Encapsulates h packet proto .vlan) (hlittle : h.wordsBigendian = false) :
    linkLayer h packet = .unsupported := by
  obtain ⟨ht, htag, htype⟩ := he
  have hread : load false (bytesAt packet.payload 16 2) = swapBytes 2 proto.ethertype := by
    have hlen : (bytesAt packet.payload 16 2).reverse.length = 2 := by simp
    have hswap := swapBytes_ofBytes hlen
    rw [List.reverse_reverse] at hswap
    rw [← htype]
    exact hswap.symm
  rw [linkLayer_ethernet ht, if_pos htag, hlittle, hread, if_neg proto.swapBytes_notMem]

theorem toNat_add_sub_uint32 {n : UInt32} {a b : Nat} (hb : b ≤ n.toNat)
    (hn : n.toNat + a < 2 ^ 32) :
    (n + .ofNat a - .ofNat b).toNat + b = n.toNat + a := by
  rw [UInt32.toNat_sub, UInt32.toNat_add, UInt32.toNat_ofNat', UInt32.toNat_ofNat']
  omega

theorem toNat_add_sub_uint64 {n : UInt64} {a b : Nat} (hb : b ≤ n.toNat)
    (hn : n.toNat + a < 2 ^ 64) :
    (n + .ofNat a - .ofNat b).toNat + b = n.toNat + a := by
  rw [UInt64.toNat_sub, UInt64.toNat_add, UInt64.toNat_ofNat', UInt64.toNat_ofNat']
  omega

section Frames

variable {f : CapturedFrame} {tmpbuffer : Nat → UInt8} {ethertype etherlen : Nat}

/-- There is room in the numbers for the new header. -/
theorem etherlen_le (hl : linkLayer h f.toRadpcapPacket = .replace ethertype etherlen) :
    etherlen ≤ f.header.caplen.toNat := by
  rw [linkLayer_etherlen hl]
  exact f.caplen_ge

theorem caplen_lt (f : CapturedFrame) : f.header.caplen.toNat < 65535 := by
  have := f.fits
  simp only [sizeofPcapPkthdr, sizeofLinuxSllHeader, radpcapPacketBufsize] at this
  omega

theorem size_replaceLinkHeader (hl : linkLayer h f.toRadpcapPacket = .replace ethertype etherlen) :
    (replaceLinkHeader h tmpbuffer f.toRadpcapPacket ethertype etherlen).size.toNat + etherlen =
      f.size.toNat + sizeofLinuxSllHeader := by
  have hle := etherlen_le hl
  have hlt := caplen_lt f
  have hsize := f.size_eq
  simp only [sizeofPcapPkthdr] at hsize
  exact toNat_add_sub_uint64 (by omega) (by rw [sizeofLinuxSllHeader]; omega)

/-- A frame whose link header is replaced. -/
theorem converted_replaceLinkHeader {proto : NetProtocol}
    (hl : linkLayer h f.toRadpcapPacket = .replace proto.ethertype etherlen) :
    Converted etherlen proto f.toRadpcapPacket
      (replaceLinkHeader h tmpbuffer f.toRadpcapPacket proto.ethertype etherlen) where
  type := rfl
  protocol := by
    -- The protocol field lies between the fields before it and the network layer.
    rw [replaceLinkHeader, bytesAt_memcpy_of_disjoint _ (by simp [sizeofLinuxSllHeader]),
      bytesAt_memcpy _ _ (by simp), store_ntoh, load_store]
    cases proto <;> rfl
  network := bytesAt_memcpy _ _ (length_bytesAt ..)
  caplen := by
    have hle := etherlen_le hl
    have hlt := caplen_lt f
    exact toNat_add_sub_uint32 hle (by rw [sizeofLinuxSllHeader]; omega)
  len := UInt32.sub_add_cancel _ _
  size := size_replaceLinkHeader hl

/-! ## The assertions -/

/-- The packet has an SLL header. -/
theorem getVcount_setVcountInSll {packet : RadpcapPacket} (vcount : UInt64)
    (ht : packet.type = .linuxSll)
    (hsize : sizeofPcapPkthdr + sizeofLinuxSllHeader ≤ packet.size.toNat) :
    getVcount h (setVcountInSll h packet vcount) = some vcount := by
  have hsll : (setVcountInSll h packet vcount).type = .linuxSll := ht
  rw [getVcount, hsll]
  exact getVcountFromSll_setVcountInSll packet vcount hsize

/-- The frame is left as it was, and the counter is looked for in its timestamp, or nowhere. -/
theorem getVcount_unsupported (hl : linkLayer h f.toRadpcapPacket = .unsupported)
    (vcount : UInt64) :
    getVcount h (setVcountInSll h f.toRadpcapPacket vcount) = some vcount ↔
      f.type = .en10mb ∧ f.header.vcount = vcount := by
  have hsize : ¬(setVcountInSll h f.toRadpcapPacket vcount).size.toNat < sizeofPcapPkthdr := by
    have hsame : (setVcountInSll h f.toRadpcapPacket vcount).size = f.size := rfl
    rw [hsame, f.size_eq]
    omega
  have htype : (setVcountInSll h f.toRadpcapPacket vcount).type = f.type := rfl
  rw [getVcount, htype]
  cases ht : f.type with
  | linuxSll => simp [linkLayer, ht] at hl
  | en10mb =>
    simp only [getVcountFromEtherframe, if_neg hsize, Option.some.injEq, true_and]
    rfl
  | null => simp
  | ieee80211 => simp
  | other type => simp

/-- When the counter stored is the one found. -/
theorem getVcount_iff (f : CapturedFrame) (tmpbuffer : Nat → UInt8) (vcount : UInt64) :
    getVcount h (setVcountInSll h (insertSllHeader h tmpbuffer f.toRadpcapPacket).2 vcount) =
        some vcount ↔
      Supported h f.toRadpcapPacket ∨ f.type = .en10mb ∧ f.header.vcount = vcount := by
  rw [← linkLayer_ne_unsupported_iff]
  cases hl : linkLayer h f.toRadpcapPacket with
  | unsupported =>
    simp only [insertSllHeader, hl, ne_eq, not_true_eq_false, false_or]
    exact getVcount_unsupported hl vcount
  | sll =>
    have ht := type_of_linkLayer_sll hl
    have hsize := f.size_eq
    have hcap := f.caplen_ge
    simp only [linkHeaderLen, ht] at hcap
    simp only [insertSllHeader, hl, ne_eq, reduceCtorEq, not_false_eq_true, true_or, iff_true]
    exact getVcount_setVcountInSll vcount ht (by omega)
  | replace ethertype etherlen =>
    have hsize : (replaceLinkHeader h tmpbuffer f.toRadpcapPacket ethertype etherlen).size.toNat +
        etherlen = f.size.toNat + sizeofLinuxSllHeader := size_replaceLinkHeader hl
    have hle := etherlen_le hl
    have hold := f.size_eq
    simp only [insertSllHeader, hl, ne_eq, reduceCtorEq, not_false_eq_true, true_or, iff_true]
    exact getVcount_setVcountInSll vcount rfl (by omega)

end Frames

/-- The assertions of `get_packet_livepcap` hold. -/
theorem getPacketLivepcap_isSome_iff (f : CapturedFrame) (tmpbuffer : Nat → UInt8)
    (readRADabsUTC : Option (UInt64 → UInt64 × UInt64)) (vcount : UInt64) :
    (getPacketLivepcap h tmpbuffer readRADabsUTC f.toRadpcapPacket vcount).isSome ↔
      Supported h f.toRadpcapPacket ∨ f.type = .en10mb ∧ f.header.vcount = vcount := by
  rw [← getVcount_iff f tmpbuffer vcount]
  unfold getPacketLivepcap
  by_cases heq : getVcount h
      (setVcountInSll h (insertSllHeader h tmpbuffer f.toRadpcapPacket).2 vcount) = some vcount
  · cases readRADabsUTC <;> simp [heq]
  · simp [heq]

/-- The frames of IP are converted, but for the tagged ones on a little-endian host. -/
theorem converted_iff (f : CapturedFrame) (tmpbuffer : Nat → UInt8) :
    (∀ proto e, Encapsulates h f.toRadpcapPacket proto e →
        Converted e.headerLen proto f.toRadpcapPacket
          (insertSllHeader h tmpbuffer f.toRadpcapPacket).2) ↔
      ((∃ proto, Encapsulates h f.toRadpcapPacket proto .vlan) → h.wordsBigendian = true) := by
  constructor
  · rintro hconv ⟨proto, he⟩
    by_contra hlittle
    have hl := linkLayer_vlan_littleEndian he (by simpa using hlittle)
    -- A frame that is left as it was is not two bytes shorter.
    have hcap := (hconv proto .vlan he).caplen
    simp only [insertSllHeader, hl, Encapsulation.headerLen, sizeofLinuxSllHeader] at hcap
    omega
  · intro hbig proto e he
    have hl := linkLayer_of_encapsulates he fun hvlan => hbig ⟨proto, hvlan ▸ he⟩
    simp only [insertSllHeader, hl]
    exact converted_replaceLinkHeader hl

/-- **A captured frame is treated as it should be** exactly when its link header can be replaced, or
it is Ethernet with a timestamp that happens to spell the counter, and it is not a tagged frame of
IP on a little-endian host. -/
theorem getPacketLivepcap_right_iff (h : Host) (f : CapturedFrame) (tmpbuffer : Nat → UInt8)
    (readRADabsUTC : Option (UInt64 → UInt64 × UInt64)) (vcount : UInt64) :
    ((getPacketLivepcap h tmpbuffer readRADabsUTC f.toRadpcapPacket vcount).isSome ∧
      ∀ proto e, Encapsulates h f.toRadpcapPacket proto e →
        Converted e.headerLen proto f.toRadpcapPacket
          (insertSllHeader h tmpbuffer f.toRadpcapPacket).2) ↔
      (Supported h f.toRadpcapPacket ∨ f.type = .en10mb ∧ f.header.vcount = vcount) ∧
        ((∃ proto, Encapsulates h f.toRadpcapPacket proto .vlan) → h.wordsBigendian = true) :=
  and_congr (getPacketLivepcap_isSome_iff f tmpbuffer readRADabsUTC vcount)
    (converted_iff f tmpbuffer)

/-- An ARP frame, captured on Ethernet. -/
def arpFrame : CapturedFrame where
  header := { tvSec := 1700000000, tvUsec := 0, caplen := 42, len := 42 }
  payload := fun i => [0, 0, 0, 0, 0, 0, 0, 0, 0, 0, 0, 0, 0x08, 0x06].getD i 0
  size := 66
  type := .en10mb
  size_eq := by decide
  caplen_ge := by decide
  fits := by decide

/-- A frame of IPv4 with a VLAN tag. -/
def taggedFrame : CapturedFrame where
  header := { tvSec := 1700000000, tvUsec := 0, caplen := 94, len := 94 }
  payload := fun i =>
    [0, 0, 0, 0, 0, 0, 0, 0, 0, 0, 0, 0, 0x81, 0x00, 0x00, 0x01, 0x08, 0x00, 0x45].getD i 0
  size := 118
  type := .en10mb
  size_eq := by decide
  caplen_ge := by decide
  fits := by decide

/-- A little-endian host. -/
def littleEndianHost : Host := ⟨false, 10, by decide⟩

/-- The assertions fail on the ARP frame, and the tagged frame is not converted. -/
theorem not_getPacketLivepcap_right :
    ¬(getPacketLivepcap littleEndianHost (fun _ => 0) none arpFrame.toRadpcapPacket 12345).isSome ∧
    Encapsulates littleEndianHost taggedFrame.toRadpcapPacket .ipv4 .vlan ∧
    ¬Converted Encapsulation.vlan.headerLen .ipv4 taggedFrame.toRadpcapPacket
      (insertSllHeader littleEndianHost (fun _ => 0) taggedFrame.toRadpcapPacket).2 := by
  refine ⟨by decide, by decide, ?_⟩
  intro hconv
  exact absurd hconv.caplen (by decide)

end RADclock.Capture
