import RADclock.Capture.BpfHeader
import RADclock.Capture.Tsmode
import RADclock.Lib.Records

/-!
# From the kernel's buffer to the application (`bpf.c`, `bpf.4`, `pcap-fbsd.c`)

Packets are caught one after another into the store buffer, each at the next aligned offset, while
the application may ask for another timestamping mode between any two of them. Who reads the buffer
goes from header to header by the lengths in them, and finds counter and timestamp behind each
packet.

- `readBuffer`: the reader, as the manual has it, with `extractVcountStampV3`.
- `CaptureOp`, `captureStep`: requests and packets, in any order.
- `delivered`: what is to be read, each packet with the clock in force when it came.
- `read_as_asked`: it is what is read.
-/

namespace RADclock.Capture

open Lib Kernel

/-! ## The reader -/

/-- A packet that is handed on: its bytes, its length, and what is extracted. -/
structure Received where
  data : List UInt8
  len : Nat
  stamp : VcountStamp
deriving DecidableEq, Repr

variable (abi : Abi) (hlen : Nat)

/-- `bh_hdrlen` -/
def bhHdrlen (mem : Nat → UInt8) (p : Nat) : Nat :=
  load abi.bigEndian (bytesAt mem (p + (2 * abi.word + 8)) 2)

/-- `bh_caplen` -/
def bhCaplen (mem : Nat → UInt8) (p : Nat) : Nat :=
  load abi.bigEndian (bytesAt mem (p + 2 * abi.word) 4)

/-- `bh_datalen` -/
def bhDatalen (mem : Nat → UInt8) (p : Nat) : Nat :=
  load abi.bigEndian (bytesAt mem (p + (2 * abi.word + 4)) 4)

/-- The packet behind a header, with what the capture library has for its timestamp. -/
def receive (pcapTs : (Nat → UInt8) → Nat → List UInt8) (mem : Nat → UInt8) (p : Nat) : Received :=
  let packet := p + bhHdrlen abi mem p
  { data := bytesAt mem packet (bhCaplen abi mem p)
    len := bhDatalen abi mem p
    stamp := extractVcountStampV3 abi hlen mem packet (pcapTs mem p) }

/-- `BPF_WORDALIGN(p->bh_hdrlen + p->bh_caplen)` -/
def advance (mem : Nat → UInt8) (p : Nat) : Nat :=
  bpfWordalign abi (bhHdrlen abi mem p + bhCaplen abi mem p)

/-- All packets of a buffer. -/
def readBuffer (pcapTs : (Nat → UInt8) → Nat → List UInt8) (b : StoreBuffer) : List Received :=
  walk (receive abi hlen pcapTs) (advance abi) b.sbuf b.slen b.slen 0

/-! ## Requests and packets -/

/-- What can happen to an open handle. -/
inductive CaptureOp where
  /-- `pktcap_set_tsmode` -/
  | request (mode : PktcapTsmode) (custom : BitVec 32)
  /-- A packet that the filter accepts, at a state of the clocks. -/
  | packet (t : SnapState) (pkt : List UInt8) (snaplen : Nat) (pktlen_lt : pkt.length < 2 ^ 32)

/-- One operation; nothing is returned where the store buffer has no room. -/
def captureStep (s : PcapHandle × StoreBuffer) : CaptureOp → Option (PcapHandle × StoreBuffer)
  | .request mode custom => some ((pktcapSetTsmode kv3 mode custom s.1).2, s.2)
  | .packet t pkt snaplen pktlen_lt =>
    (tapBintime t.ff.sysclockActive t.thBoottime t.snap s.1.bdTstamp).bind fun bt =>
      (catchpacket abi hlen s.2 ⟨s.1.bdTstamp, bt, t.snap.ffcount, pkt, snaplen, pktlen_lt⟩).map
        (s.1, ·)

/-- What is to be read: each packet with the time that the request in force asks for, and as much
of it as the filter lets through and the buffer can hold. -/
def delivered (bufsize : Nat) : PktcapTsmode × BitVec 32 → List CaptureOp → List Received
  | _, [] => []
  | inForce, .request mode custom :: ops =>
    delivered bufsize (if acceptable (mode, custom) then (mode, custom) else inForce) ops
  | inForce, .packet t pkt snaplen _ :: ops =>
    let time := asked t inForce.1 inForce.2
    { data := pkt.take (min snaplen (bufsize - bpfHdrlenV3 abi hlen))
      len := pkt.length
      stamp := ⟨time.bhFfcounter.toNat, tsBytes abi time.bhTstamp⟩ } ::
        delivered bufsize inForce ops

/-- The clocks can be read from the snapshot of each packet, and a word of the application's own
leaves the header that the capture library knows. -/
def Ready : CaptureOp → Prop
  | .request mode custom => mode = .custom →
      abi.word = 8 ∨ bpfTFormat custom = BPF_T_MICROTIME ∨ custom = BPF_T_NONE
  | .packet t _ _ _ => Legible t

/-! ## One packet in the buffer -/

/-- The bytes of a packet that are kept. -/
def keptBytes (bufsize : Nat) (c : Catch) : Nat :=
  min (min c.snaplen c.pkt.length) (bufsize - bpfHdrlenV3 abi hlen)

/-- A packet is at an offset of the buffer. -/
structure Stored (bufsize : Nat) (mem : Nat → UInt8) (p : Nat) (c : Catch) : Prop where
  aligned : abi.word ∣ p
  hdr : bytesAt mem p (sizeofBpfHdr abi abi.word) =
    bpfHdr abi abi.word c.time (keptBytes abi hlen bufsize c) c.pkt.length (bpfHdrlenV3 abi hlen)
  body : bytesAt mem (p + bpfHdrlenV3 abi hlen) (keptBytes abi hlen bufsize c) =
    c.pkt.take (keptBytes abi hlen bufsize c)

/-- The room a packet takes up, with its header. -/
def room (bufsize : Nat) (c : Catch) : Nat := bpfHdrlenV3 abi hlen + keptBytes abi hlen bufsize c

/-- The packets in a buffer. -/
def Holds (bufsize : Nat) (b : StoreBuffer) (cs : List Catch) : Prop :=
  Laid (Stored abi hlen bufsize) (room abi hlen bufsize)
    (fun c => bpfWordalign abi (room abi hlen bufsize c)) b.sbuf b.slen 0 cs
      (bpfWordalign abi b.slen)

variable {abi hlen}

theorem sizeof_le_hdrlen : sizeofBpfHdr abi abi.word ≤ bpfHdrlenV3 abi hlen := by
  have hle := le_roundup2 (sizeofBpfHdr abi abi.word + hlen) abi.word_pos
  rw [bpfHdrlenV3, bpfWordalign]
  omega

theorem room_pos (bufsize : Nat) (c : Catch) : 0 < room abi hlen bufsize c := by
  have hle : sizeofBpfHdr abi abi.word ≤ bpfHdrlenV3 abi hlen := sizeof_le_hdrlen
  rw [sizeofBpfHdr] at hle
  rw [room]
  omega

/-- A packet is where its bytes are. -/
theorem Stored.congr {bufsize : Nat} {mem mem' : Nat → UInt8} (p : Nat) (c : Catch)
    (hsame : ∀ i, p ≤ i → i < p + room abi hlen bufsize c → mem' i = mem i)
    (h : Stored abi hlen bufsize mem p c) : Stored abi hlen bufsize mem' p c := by
  have hle : sizeofBpfHdr abi abi.word ≤ bpfHdrlenV3 abi hlen := sizeof_le_hdrlen
  have hroom : room abi hlen bufsize c = bpfHdrlenV3 abi hlen + keptBytes abi hlen bufsize c := rfl
  exact
    { aligned := h.aligned
      hdr := (bytesAt_congr fun i hi => hsame _ (by omega) (by omega)).trans h.hdr
      body := (bytesAt_congr fun i hi => hsame _ (by omega) (by omega)).trans h.body }

theorem bpfHdrlen_of_half {tstamp : BitVec 32} (hhalf : hdrlenHalf abi tstamp = abi.word) :
    bpfHdrlen abi hlen tstamp = bpfHdrlenV3 abi hlen := by
  rw [bpfHdrlen_eq, hhalf, Nat.sub_self, Nat.mul_zero, Nat.add_zero]

theorem bytesAt_getD (bs : List UInt8) {n : Nat} (h : n ≤ bs.length) :
    bytesAt (fun i => bs.getD i 0) 0 n = bs.take n := by
  apply List.ext_getElem
  · rw [length_bytesAt, List.length_take, Nat.min_eq_left h]
  · intro i hi hi'
    rw [length_bytesAt] at hi
    simp only [bytesAt, List.getElem_map, List.getElem_range, Nat.zero_add, List.getElem_take]
    exact List.getD_eq_getElem _ _ (by omega)

/-- A packet that is caught is in the buffer, and those before it still are. -/
theorem Holds.catch {b b' : StoreBuffer} {c : Catch} {cs : List Catch}
    (hhalf : hdrlenHalf abi c.tstamp = abi.word) (hfit : bpfHdrlenV3 abi hlen ≤ b.bufsize)
    (h : Holds abi hlen b.bufsize b cs)
    (hcatch : catchpacket abi hlen b c = some b') : Holds abi hlen b.bufsize b' (cs ++ [c]) := by
  have hcaught := caught hcatch
  have hlen' : bpfHdrlen abi hlen c.tstamp = bpfHdrlenV3 abi hlen := bpfHdrlen_of_half hhalf
  -- what the code reserves is what the header and the kept bytes need
  have htotlen : totlen abi hlen b.bufsize c = room abi hlen b.bufsize c := by
    rw [totlen, room, keptBytes, hlen']
    omega
  have hcaplen : (caplen abi hlen b.bufsize c).toNat = keptBytes abi hlen b.bufsize c := by
    rw [toNat_caplen (by rwa [hlen']), htotlen, room, hlen', Nat.add_sub_cancel_left]
  have hkept : keptBytes abi hlen b.bufsize c ≤ c.pkt.length := by
    rw [keptBytes]
    omega
  -- every record starts on a word
  have haligned : abi.word ∣ bpfWordalign abi b.slen := dvd_roundup2 _ _
  have hstored : Stored abi hlen b.bufsize b'.sbuf (bpfWordalign abi b.slen) c :=
    { aligned := haligned
      hdr := by
        have hhdr := hcaught.hdr
        rwa [catchHalf_of_half hhalf, hcaplen, hlen'] at hhdr
      body := by
        have hbody := hcaught.body
        rwa [hcaplen, hlen', bytesAt_getD _ hkept] at hbody }
  -- the next one starts after this one, padded
  have hslen : b'.slen = bpfWordalign abi b.slen + room abi hlen b.bufsize c := by
    rw [hcaught.slen, htotlen]
  have hnext : bpfWordalign abi b'.slen =
      bpfWordalign abi b.slen + bpfWordalign abi (room abi hlen b.bufsize c) := by
    rw [hslen]
    exact roundup2_add_of_dvd abi.word_pos haligned _
  have hcurlen := slen_le_curlen abi b
  rw [Holds, hnext]
  refine h.append (fun p c => Stored.congr p c) hcaught.before hstored (by omega) (by omega) ?_
  rw [← hnext]
  exact slen_le_curlen abi b'

/-! ## Reading it -/

variable {bufsize : Nat} {mem : Nat → UInt8} {p : Nat} {c : Catch}

theorem keptBytes_lt (bufsize : Nat) (c : Catch) : keptBytes abi hlen bufsize c < 256 ^ 4 := by
  have hlt := c.pktlen_lt
  have hpow : 256 ^ 4 = 2 ^ 32 := rfl
  rw [keptBytes]
  omega

theorem hdrlen_lt : bpfHdrlenV3 abi hlen < 256 ^ 2 := by
  have heq := bpfHdrlen_eq abi hlen BPF_T_NONE
  have hlt := bpfHdrlen_lt abi hlen BPF_T_NONE
  omega

theorem Stored.bhHdrlen_eq (h : Stored abi hlen bufsize mem p c) :
    bhHdrlen abi mem p = bpfHdrlenV3 abi hlen := by
  rw [bhHdrlen, hdr_hdrlen h.hdr, load_store, Nat.mod_eq_of_lt hdrlen_lt]

theorem Stored.bhCaplen_eq (h : Stored abi hlen bufsize mem p c) :
    bhCaplen abi mem p = keptBytes abi hlen bufsize c := by
  rw [bhCaplen, hdr_caplen h.hdr, load_store, Nat.mod_eq_of_lt (keptBytes_lt bufsize c)]

theorem Stored.bhDatalen_eq (h : Stored abi hlen bufsize mem p c) :
    bhDatalen abi mem p = c.pkt.length := by
  rw [bhDatalen, hdr_datalen h.hdr, load_store]
  exact Nat.mod_eq_of_lt c.pktlen_lt

theorem Stored.advance_eq (h : Stored abi hlen bufsize mem p c) :
    advance abi mem p = bpfWordalign abi (room abi hlen bufsize c) := by
  rw [advance, h.bhHdrlen_eq, h.bhCaplen_eq, room]

/-- What is read of a packet. -/
def seen (abi : Abi) (hlen bufsize : Nat) (c : Catch) : Received :=
  { data := c.pkt.take (keptBytes abi hlen bufsize c)
    len := c.pkt.length
    stamp := ⟨c.time.bhFfcounter.toNat, tsBytes abi c.time.bhTstamp⟩ }

theorem Stored.receive_eq (h : Stored abi hlen bufsize mem p c)
    (pcapTs : (Nat → UInt8) → Nat → List UInt8) :
    receive abi hlen pcapTs mem p = seen abi hlen bufsize c := by
  have hvcount : (extractVcountStampV3 abi hlen mem (p + bpfHdrlenV3 abi hlen)
      (pcapTs mem p)).vcount = c.time.bhFfcounter.toNat := by
    rw [extractVcountStampV3, Nat.add_sub_cancel]
    show load _ _ = _
    rw [hdr_vcount h.hdr, load_store]
    exact Nat.mod_eq_of_lt c.time.bhFfcounter.isLt
  have hts : (extractVcountStampV3 abi hlen mem (p + bpfHdrlenV3 abi hlen)
      (pcapTs mem p)).ts = tsBytes abi c.time.bhTstamp := by
    rw [extract_ts, Nat.add_sub_cancel, hdr_ts h.hdr, tsBytes]
  rw [receive, h.bhHdrlen_eq, h.bhCaplen_eq, h.bhDatalen_eq, h.body, seen, ← hvcount, ← hts]

theorem readBuffer_of_holds {b : StoreBuffer} {cs : List Catch}
    (h : Holds abi hlen bufsize b cs) (pcapTs : (Nat → UInt8) → Nat → List UInt8) :
    readBuffer abi hlen pcapTs b = cs.map (seen abi hlen bufsize) := by
  have hstride : ∀ c, room abi hlen bufsize c ≤ bpfWordalign abi (room abi hlen bufsize c) :=
    fun _ => le_roundup2 _ abi.word_pos
  exact walk_laid (fun _ _ hc => hc.receive_eq pcapTs) (fun _ _ hc => hc.advance_eq)
    (room_pos bufsize) h (h.length_le (room_pos bufsize) hstride)

/-! ## Any order of requests and packets -/

/-- A request is in force on a handle, and the packets of the buffer are known. -/
structure Open (abi : Abi) (hlen bufsize : Nat) (s : PcapHandle × StoreBuffer)
    (inForce : PktcapTsmode × BitVec 32) (cs : List Catch) : Prop where
  word : s.1.bdTstamp = word inForce.1 inForce.2
  valid : bpfTValid s.1.bdTstamp = true
  half : hdrlenHalf abi s.1.bdTstamp = abi.word
  size : s.2.bufsize = bufsize
  holds : Holds abi hlen bufsize s.2 cs

/-- A packet is seen with what is asked for. -/
theorem seen_eq {t : SnapState} {bt : Bintime} {s : PcapHandle × StoreBuffer}
    {inForce : PktcapTsmode × BitVec 32} {cs : List Catch} (h : Open abi hlen bufsize s inForce cs)
    (hlegible : Legible t) (pkt : List UInt8) (snaplen : Nat) (pktlen_lt : pkt.length < 2 ^ 32)
    (hbt : tapBintime t.ff.sysclockActive t.thBoottime t.snap s.1.bdTstamp = some bt) :
    seen abi hlen bufsize ⟨s.1.bdTstamp, bt, t.snap.ffcount, pkt, snaplen, pktlen_lt⟩ =
      { data := pkt.take (min snaplen (bufsize - bpfHdrlenV3 abi hlen))
        len := pkt.length
        stamp := ⟨(asked t inForce.1 inForce.2).bhFfcounter.toNat,
          tsBytes abi (asked t inForce.1 inForce.2).bhTstamp⟩ } := by
  have htap := hlegible.tap_eq h.valid
  rw [SnapState.tap, bpfTap, hbt, Option.map_some, h.word, wanted_word] at htap
  have htime : Catch.time ⟨s.1.bdTstamp, bt, t.snap.ffcount, pkt, snaplen, pktlen_lt⟩ =
      asked t inForce.1 inForce.2 := by
    rw [Catch.time, h.word]
    exact Option.some.inj htap
  have htake : pkt.take (keptBytes abi hlen bufsize ⟨s.1.bdTstamp, bt, t.snap.ffcount, pkt, snaplen,
      pktlen_lt⟩) = pkt.take (min snaplen (bufsize - bpfHdrlenV3 abi hlen)) := by
    show pkt.take (min (min snaplen pkt.length) _) = _
    rw [Nat.min_right_comm, ← List.take_eq_take_min]
  rw [seen, htime, htake]

/-- A preset leaves the header that the capture library knows. -/
theorem half_word {mode : PktcapTsmode} {custom : BitVec 32}
    (h : Ready abi (.request mode custom)) :
    hdrlenHalf abi (word mode custom) = abi.word := by
  rw [hdrlenHalf_eq_iff]
  cases mode with
  | custom => exact h rfl
  | _ => exact .inr (.inl (by simp only [word]; rfl))

/-- Requests and packets add to the buffer what is to be delivered. -/
theorem run_delivered (hfit : bpfHdrlenV3 abi hlen ≤ bufsize) {ops : List CaptureOp}
    {s s' : PcapHandle × StoreBuffer} (hrun : Steps (captureStep abi hlen) s ops s') :
    ∀ {inForce : PktcapTsmode × BitVec 32} {cs : List Catch}, (∀ op ∈ ops, Ready abi op) →
      Open abi hlen bufsize s inForce cs →
        ∃ cs', Holds abi hlen bufsize s'.2 (cs ++ cs') ∧
          cs'.map (seen abi hlen bufsize) = delivered abi hlen bufsize inForce ops := by
  -- on the run; the buffer always holds the packets stored since the last rotation
  induction hrun with
  | nil s =>
    intro inForce cs _ h
    exact ⟨[], by rw [List.append_nil]; exact h.holds, rfl⟩
  | @cons s s' s'' op ops head _ ih =>
    intro inForce cs hready h
    have hop : Ready abi op := hready _ List.mem_cons_self
    have htail : ∀ op ∈ ops, Ready abi op := fun op hop => hready op (List.mem_cons_of_mem _ hop)
    cases op with
    | request mode custom =>
      obtain rfl := Option.some.inj head
      rw [delivered]
      refine ih htail ?_
      show Open abi hlen bufsize ((pktcapSetTsmode kv3 mode custom s.1).2, s.2) _ cs
      rw [set_kv3]
      -- a request changes the tap, not what is stored
      by_cases haccept : acceptable (mode, custom) = true
      · rw [if_pos haccept, if_pos haccept]
        exact ⟨rfl, valid_word haccept, half_word hop, h.size, h.holds⟩
      · rw [if_neg haccept, if_neg haccept]
        exact h
    | packet t pkt snaplen pktlen_lt =>
      -- a packet is stamped by the tap in force and appended
      obtain ⟨bt, hbt, hcatch⟩ := Option.bind_eq_some_iff.mp head
      obtain ⟨b', hb', rfl⟩ := Option.map_eq_some_iff.mp hcatch
      have hholds := h.holds
      rw [← h.size] at hfit hholds
      have hnext := hholds.catch h.half hfit hb'
      rw [h.size] at hnext
      obtain ⟨cs', hcs', hmap⟩ := ih htail
        (⟨h.word, h.valid, h.half, (caught hb').bufsize.trans h.size, hnext⟩ :
          Open abi hlen bufsize (s.1, b') inForce _)
      rw [List.append_assoc] at hcs'
      refine ⟨_, hcs', ?_⟩
      rw [List.singleton_append, List.map_cons, hmap, delivered, seen_eq h hop _ _ _ hbt]

/-- Whatever requests are made between whatever packets: if the buffer has had room for all of
them, then each packet is read once, in order, with its bytes, the counter value, and the time of
the clock that the request in force asked for when it came. -/
theorem read_as_asked {ops : List CaptureOp} {b : StoreBuffer} {s : PcapHandle × StoreBuffer}
    (hempty : b.slen = 0) (hfit : bpfHdrlenV3 abi hlen ≤ b.bufsize)
    (hready : ∀ op ∈ ops, Ready abi op)
    (hrun : Steps (captureStep abi hlen) (⟨.nomode, 0⟩, b) ops s)
    (pcapTs : (Nat → UInt8) → Nat → List UInt8) :
    readBuffer abi hlen pcapTs s.2 = delivered abi hlen b.bufsize (.custom, 0) ops := by
  have hzero : bpfWordalign abi b.slen = 0 := by
    rw [bpfWordalign, hempty]
    rcases abi.ok with ⟨h, -⟩ | ⟨h, -⟩ <;> rw [h] <;> rfl
  have hstart : Holds abi hlen b.bufsize b [] := by
    rw [Holds, hzero]
    exact .nil hempty.le
  have hvalid : bpfTValid 0 = true := rfl
  have hhalf : hdrlenHalf abi 0 = abi.word := if_pos (.inr rfl)
  obtain ⟨cs, hcs, hmap⟩ := run_delivered hfit hrun hready
    (⟨rfl, hvalid, hhalf, rfl, hstart⟩ : Open abi hlen b.bufsize (⟨.nomode, 0⟩, b) (.custom, 0) [])
  rw [readBuffer_of_holds hcs, List.nil_append, hmap]

/-- A 64 bit machine. -/
def lp64 : Abi := ⟨false, 8, 8, .inl ⟨rfl, rfl⟩⟩

/-- Five cycles after a tick. -/
def fiveCycles : SnapState := { missedTicks with tcDelta := 5 }

/-- A packet before any request, one with the radclock, and one after a request is refused. -/
def threePackets : List CaptureOp :=
  [.packet fiveCycles [1, 2, 3] 2 (by decide), .request .radclock 0,
    .packet fiveCycles [4] 96 (by decide), .request .custom 0x8000,
    .packet fiveCycles [] 96 (by decide)]

theorem legible_fiveCycles : Legible fiveCycles :=
  ⟨⟨by decide, by decide, by decide, by decide⟩, by decide⟩

theorem ready_threePackets : ∀ op ∈ threePackets, Ready lp64 op := by
  intro op hop
  simp only [threePackets, List.mem_cons, List.not_mem_nil, or_false] at hop
  rcases hop with rfl | rfl | rfl | rfl | rfl <;>
    first | exact legible_fiveCycles | exact fun _ => .inl rfl

theorem read_as_asked_threePackets :
    ∃ s, Steps (captureStep lp64 14) (⟨.nomode, 0⟩, ⟨fun _ => 0, 0, 4096⟩) threePackets s ∧
      readBuffer lp64 14 (fun _ _ => []) s.2 =
        delivered lp64 14 4096 (.custom, 0) threePackets := by
  have hsteps : ∃ s, Steps (captureStep lp64 14) (⟨.nomode, 0⟩, ⟨fun _ => 0, 0, 4096⟩)
      threePackets s :=
    ⟨_, .cons rfl (.cons rfl (.cons rfl (.cons rfl (.cons rfl (.nil _)))))⟩
  obtain ⟨s, hrun⟩ := hsteps
  exact ⟨s, hrun, read_as_asked rfl (by decide) ready_threePackets hrun _⟩

end RADclock.Capture
