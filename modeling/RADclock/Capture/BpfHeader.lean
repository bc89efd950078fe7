import RADclock.Kernel.Bpf
import RADclock.Lib.Memory

/-!
# The header of a captured packet (`bpf.c`, `pcap-fbsd.c`)

`catchpacket` puts a header with the timestamp and the counter value in front of each packet, and
pads it so that the network header behind the link header is aligned. The capture library knows
nothing of the counter: `extract_vcount_stamp_v3` finds it by going back from the packet by the
length that the kernel must have given the header.

The kernel has two headers, and decides between them twice, not by the same test. On a machine with
a `timeval` of 16 bytes they are the same.

- `Abi`: the sizes that the layout depends on.
- `bpfHdrlen`, `catchpacket`, `extractVcountStampV3`: the code.
- `writes_within_iff`: when a packet stays within the buffer.
- `counter_iff`, `stamp_iff`: when the counter and the timestamp are found again.
-/

namespace RADclock.Capture

open Lib Kernel

/-! ## Layout -/

/-- What the layout of a header depends on. -/
structure Abi where
  bigEndian : Bool
  /-- `sizeof(long)`, and of the two members of a `timeval`. -/
  word : Nat
  /-- The alignment of a `uint64_t`. -/
  align : Nat
  ok : (word = 8 ∧ align = 8) ∨ (word = 4 ∧ (align = 4 ∨ align = 8))

/-- `roundup2` -/
def roundup2 (x y : Nat) : Nat := (x + (y - 1)) / y * y

variable (abi : Abi)

/-- `BPF_WORDALIGN` -/
def bpfWordalign (x : Nat) : Nat := roundup2 x abi.word

/-- `offsetof(type, bh_ffcounter)`, for a timestamp of two members of `w` bytes each. -/
def vcountOffset (w : Nat) : Nat := roundup2 (2 * w + 10) abi.align

/-- `SIZEOF_BPF_HDR`; a header has no padding at its end. -/
def sizeofBpfHdr (w : Nat) : Nat := vcountOffset abi w + 8

/-- A header as the machine stores it. -/
def bpfHdr (w : Nat) (time : PacketTime) (caplen datalen hdrlen : Nat) : List UInt8 :=
  store abi.bigEndian w time.bhTstamp.btSec.toNat ++
    (store abi.bigEndian w time.bhTstamp.btFrac.toNat ++
      (store abi.bigEndian 4 caplen ++
        (store abi.bigEndian 4 datalen ++
          (store abi.bigEndian 2 hdrlen ++
            (List.replicate (vcountOffset abi w - (2 * w + 10)) 0 ++
              store abi.bigEndian 8 time.bhFfcounter.toNat)))))

/-! ## The code -/

/-- The timestamp of a descriptor's headers in `bpf_hdrlen`: that of `bpf_hdr` or `bpf_xhdr`. -/
def hdrlenHalf (bdTstamp : BitVec 32) : Nat :=
  if bdTstamp = BPF_T_NONE ∨ bpfTFormat bdTstamp = BPF_T_MICROTIME then abi.word else 8

/-- The timestamp of the header that `catchpacket` writes. -/
def catchHalf (tstype : BitVec 32) : Nat :=
  if bpfTFormat tstype = BPF_T_NONE ∨ bpfTFormat tstype = BPF_T_MICROTIME then abi.word else 8

/-- `bpf_hdrlen` -/
def bpfHdrlen (bifHdrlen : Nat) (bdTstamp : BitVec 32) : Nat :=
  bpfWordalign abi (bifHdrlen + sizeofBpfHdr abi (hdrlenHalf abi bdTstamp)) - bifHdrlen

/-- A packet that a descriptor's filter has accepted, with its time and the counter value. -/
structure Catch where
  tstamp : BitVec 32
  bt : Bintime
  ffcount : BitVec 64
  pkt : List UInt8
  snaplen : Nat
  pktlen_lt : pkt.length < 2 ^ 32

/-- What the header says about the time. -/
def Catch.time (c : Catch) : PacketTime := packetTime c.bt c.ffcount c.tstamp

/-- The store buffer of a descriptor. -/
structure StoreBuffer where
  sbuf : Nat → UInt8
  slen : Nat
  bufsize : Nat

/-- The bytes that `catchpacket` wants, as many as the buffer has. -/
def totlen (bifHdrlen bufsize : Nat) (c : Catch) : Nat :=
  min (bpfHdrlen abi bifHdrlen c.tstamp + min c.snaplen c.pkt.length) bufsize

/-- `caplen`, an `int` that is handed on as an `u_int`. -/
def caplen (bifHdrlen bufsize : Nat) (c : Catch) : BitVec 32 :=
  .ofInt 32 ((totlen abi bifHdrlen bufsize c : Int) - bpfHdrlen abi bifHdrlen c.tstamp)

/-- What `catchpacket` writes, and where: padding, the header and the packet. -/
def catchWrites (bifHdrlen : Nat) (b : StoreBuffer) (c : Catch) : List (Nat × List UInt8) :=
  let hdrlen := bpfHdrlen abi bifHdrlen c.tstamp
  let curlen := bpfWordalign abi b.slen
  let caplen := caplen abi bifHdrlen b.bufsize c
  [(b.slen, List.replicate (curlen - b.slen) 0),
    (curlen, bpfHdr abi (catchHalf abi c.tstamp) c.time caplen.toNat c.pkt.length hdrlen),
    (curlen + hdrlen, bytesAt (fun i => c.pkt.getD i 0) 0 caplen.toNat)]

/-- `catchpacket`, where there is room in the store buffer. -/
def catchpacket (bifHdrlen : Nat) (b : StoreBuffer) (c : Catch) : Option StoreBuffer :=
  let curlen := bpfWordalign abi b.slen
  let totlen := totlen abi bifHdrlen b.bufsize c
  if b.bufsize < curlen + totlen then none
  else some
    { b with
      sbuf := (catchWrites abi bifHdrlen b c).foldl (fun mem w => memcpy mem w.1 w.2) b.sbuf
      slen := curlen + totlen }

/-- `BPF_HDRLEN_V3` -/
def bpfHdrlenV3 (length : Nat) : Nat :=
  bpfWordalign abi (sizeofBpfHdr abi abi.word + length) - length

/-- What `extract_vcount_stamp_v3` hands on: the counter value, and the bytes of the timestamp. -/
structure VcountStamp where
  vcount : Nat
  ts : List UInt8
deriving DecidableEq, Repr

/-- `extract_vcount_stamp_v3`, for a packet in the buffer, with the bytes of the timestamp that the
capture library made. The length of the link header is that of `dlt_header_size`. -/
def extractVcountStampV3 (hlen : Nat) (mem : Nat → UInt8) (packet : Nat) (headerTs : List UInt8) :
    VcountStamp :=
  let h := packet - bpfHdrlenV3 abi hlen
  let bhTstamp := bytesAt mem h (2 * abi.word)
  { vcount := load abi.bigEndian (bytesAt mem (h + vcountOffset abi abi.word) 8)
    ts := if bhTstamp ≠ headerTs then bhTstamp else headerTs }

/-! ## Sizes -/

/-- Rounding up does not go down. -/
theorem le_roundup2 (x : Nat) {y : Nat} (hy : 0 < y) : x ≤ roundup2 x y := by
  have hdiv := Nat.div_add_mod (x + (y - 1)) y
  have hmod := Nat.mod_lt (x + (y - 1)) hy
  rw [roundup2, Nat.mul_comm]
  omega

/-- It stays below one unit more. -/
theorem roundup2_lt (x : Nat) {y : Nat} (hy : 0 < y) : roundup2 x y < x + y := by
  have hdiv := Nat.div_add_mod (x + (y - 1)) y
  rw [roundup2, Nat.mul_comm]
  omega

/-- It gives a multiple of the unit. -/
theorem dvd_roundup2 (x y : Nat) : y ∣ roundup2 x y := Nat.dvd_mul_left _ _

/-- What is aligned moves out of a rounding. -/
theorem roundup2_add_of_dvd {k y : Nat} (hy : 0 < y) (h : y ∣ k) (x : Nat) :
    roundup2 (k + x) y = k + roundup2 x y := by
  obtain ⟨c, rfl⟩ := h
  rw [roundup2, roundup2, Nat.add_assoc, Nat.mul_add_div hy, Nat.add_mul, Nat.mul_comm c y]

variable {abi}

/-- A word has four or eight bytes. -/
theorem Abi.word_pos (abi : Abi) : 0 < abi.word := by
  rcases abi.ok with ⟨h, -⟩ | ⟨h, -⟩ <;> omega

/-- So has the alignment of a counter value. -/
theorem Abi.align_pos (abi : Abi) : 0 < abi.align := by
  rcases abi.ok with ⟨-, h⟩ | ⟨-, h | h⟩ <;> omega

/-- The two headers differ by a length that keeps every alignment. -/
theorem vcountOffset_eight : vcountOffset abi 8 = vcountOffset abi 4 + 8 := by
  have hdvd : abi.align ∣ 8 := by
    rcases abi.ok with ⟨-, h⟩ | ⟨-, h | h⟩ <;> simp [h]
  rw [vcountOffset, vcountOffset, Nat.add_comm (roundup2 _ _) 8,
    ← roundup2_add_of_dvd abi.align_pos hdvd]

/-- The counter value comes after the fields before it. -/
theorem le_vcountOffset (abi : Abi) (w : Nat) : 2 * w + 10 ≤ vcountOffset abi w :=
  le_roundup2 _ abi.align_pos

/-- The bytes of a header. -/
@[simp] theorem length_bpfHdr (w : Nat) (time : PacketTime) (caplen datalen hdrlen : Nat) :
    (bpfHdr abi w time caplen datalen hdrlen).length = sizeofBpfHdr abi w := by
  have hle := le_vcountOffset abi w
  simp only [bpfHdr, sizeofBpfHdr, List.length_append, length_store, List.length_replicate]
  omega

/-- The half of the timestamp that is stored is no wider than the one that is left room for. -/
theorem catchHalf_le (abi : Abi) (tstamp : BitVec 32) :
    catchHalf abi tstamp ≤ hdrlenHalf abi tstamp := by
  have hword : abi.word ≤ 8 := by
    rcases abi.ok with ⟨h, -⟩ | ⟨h, -⟩ <;> omega
  unfold catchHalf hdrlenHalf
  by_cases hmicro : bpfTFormat tstamp = BPF_T_MICROTIME
  · rw [if_pos (.inr hmicro), if_pos (.inr hmicro)]
  · by_cases hnone : tstamp = BPF_T_NONE
    · subst hnone
      rw [if_pos (.inl rfl), if_pos (.inl rfl)]
    · rw [if_neg (by simp [hnone, hmicro] : ¬ (tstamp = BPF_T_NONE ∨ _))]
      split <;> omega

/-- What is long enough is the shorter header. -/
theorem catchHalf_of_half {tstamp : BitVec 32} (hhalf : hdrlenHalf abi tstamp = abi.word) :
    catchHalf abi tstamp = abi.word := by
  have hle := catchHalf_le abi tstamp
  unfold catchHalf at hle ⊢
  rcases abi.ok with ⟨hw, -⟩ | ⟨hw, -⟩ <;> split_ifs at hle ⊢ <;> omega

/-- Both are a word or eight bytes. -/
theorem half_cases (abi : Abi) (tstamp : BitVec 32) :
    (hdrlenHalf abi tstamp = abi.word ∨ hdrlenHalf abi tstamp = 8) ∧
      (catchHalf abi tstamp = abi.word ∨ catchHalf abi tstamp = 8) := by
  unfold catchHalf hdrlenHalf
  constructor <;> split <;> simp

/-- A wider half, a longer header. -/
theorem sizeofBpfHdr_mono {w w' : Nat} (h : w ≤ w') : sizeofBpfHdr abi w ≤ sizeofBpfHdr abi w' := by
  have hmul : vcountOffset abi w ≤ vcountOffset abi w' :=
    Nat.mul_le_mul_right _ (Nat.div_le_div_right (by omega))
  rw [sizeofBpfHdr, sizeofBpfHdr]
  omega

/-- The header that is stored fits into the room left for it. -/
theorem sizeofBpfHdr_le (abi : Abi) (bifHdrlen : Nat) (tstamp : BitVec 32) :
    sizeofBpfHdr abi (hdrlenHalf abi tstamp) ≤ bpfHdrlen abi bifHdrlen tstamp := by
  have hle := le_roundup2 (bifHdrlen + sizeofBpfHdr abi (hdrlenHalf abi tstamp))
    abi.word_pos
  rw [bpfHdrlen, bpfWordalign]
  omega

/-- The header that is written fits into the room that is left for it. -/
theorem catchHdr_le (abi : Abi) (bifHdrlen : Nat) (tstamp : BitVec 32) :
    sizeofBpfHdr abi (catchHalf abi tstamp) ≤ bpfHdrlen abi bifHdrlen tstamp :=
  (sizeofBpfHdr_mono (catchHalf_le abi tstamp)).trans (sizeofBpfHdr_le abi bifHdrlen tstamp)

/-- A header is short. -/
theorem bpfHdrlen_lt (abi : Abi) (bifHdrlen : Nat) (tstamp : BitVec 32) :
    bpfHdrlen abi bifHdrlen tstamp < 64 := by
  have hlt := roundup2_lt (bifHdrlen + sizeofBpfHdr abi (hdrlenHalf abi tstamp))
    abi.word_pos
  have hsize : sizeofBpfHdr abi (hdrlenHalf abi tstamp) ≤ 40 := by
    have hword : hdrlenHalf abi tstamp ≤ 8 := by
      rcases abi.ok with ⟨h, -⟩ | ⟨h, -⟩ <;>
        rcases (half_cases abi tstamp).1 with hh | hh <;> omega
    refine (sizeofBpfHdr_mono hword).trans ?_
    rw [sizeofBpfHdr, vcountOffset]
    rcases abi.ok with ⟨-, h⟩ | ⟨-, h | h⟩ <;> rw [h] <;> decide
  have hword : abi.word ≤ 8 := by
    rcases abi.ok with ⟨h, -⟩ | ⟨h, -⟩ <;> omega
  rw [bpfHdrlen, bpfWordalign]
  omega

/-! ## The buffer -/

variable {bifHdrlen : Nat} {b b' : StoreBuffer} {c : Catch}

/-- A packet starts after the bytes stored so far. -/
theorem slen_le_curlen (abi : Abi) (b : StoreBuffer) : b.slen ≤ bpfWordalign abi b.slen :=
  le_roundup2 _ abi.word_pos

/-- As many bytes are captured as the buffer has room for. -/
theorem toNat_caplen (hfit : bpfHdrlen abi bifHdrlen c.tstamp ≤ b.bufsize) :
    (caplen abi bifHdrlen b.bufsize c).toNat = totlen abi bifHdrlen b.bufsize c -
      bpfHdrlen abi bifHdrlen c.tstamp := by
  have hpkt := c.pktlen_lt
  have hle : bpfHdrlen abi bifHdrlen c.tstamp ≤ totlen abi bifHdrlen b.bufsize c := by
    unfold totlen
    omega
  have hlt : totlen abi bifHdrlen b.bufsize c - bpfHdrlen abi bifHdrlen c.tstamp < 2 ^ 32 := by
    unfold totlen
    omega
  rw [caplen, ← Int.ofNat_sub hle, BitVec.ofInt_natCast, BitVec.toNat_ofNat,
    Nat.mod_eq_of_lt hlt]

/-- Every write is within the buffer, where a header is. -/
theorem writes_within (hfit : bpfHdrlen abi bifHdrlen c.tstamp ≤ b.bufsize)
    (h : catchpacket abi bifHdrlen b c = some b') :
    ∀ w ∈ catchWrites abi bifHdrlen b c, w.1 + w.2.length ≤ b.bufsize := by
  have hroom : bpfWordalign abi b.slen + totlen abi bifHdrlen b.bufsize c ≤ b.bufsize := by
    unfold catchpacket at h
    by_contra hfull
    rw [if_pos (by omega)] at h
    cases h
  have hle : bpfHdrlen abi bifHdrlen c.tstamp ≤ totlen abi bifHdrlen b.bufsize c := by
    unfold totlen
    omega
  have hslen := slen_le_curlen abi b
  have hhdr := catchHdr_le abi bifHdrlen c.tstamp
  have hcaplen := toNat_caplen hfit
  intro w hw
  simp only [catchWrites, List.mem_cons, List.not_mem_nil, or_false] at hw
  rcases hw with rfl | rfl | rfl
  · rw [List.length_replicate]
    omega
  · rw [length_bpfHdr]
    omega
  · rw [length_bytesAt]
    omega

/-- A packet stays within the buffer, whatever it is, exactly if the buffer has room for a header;
the smallest buffer that can be asked for has 32 bytes. -/
theorem writes_within_iff (abi : Abi) (bifHdrlen bufsize : Nat) (tstamp : BitVec 32) :
    (∀ b c b', b.bufsize = bufsize → c.tstamp = tstamp →
      catchpacket abi bifHdrlen b c = some b' →
        ∀ w ∈ catchWrites abi bifHdrlen b c, w.1 + w.2.length ≤ bufsize) ↔
      bpfHdrlen abi bifHdrlen tstamp ≤ bufsize := by
  constructor
  · intro h
    by_contra hshort
    -- the first packet fills the buffer, and what is left for its bytes is negative
    let b : StoreBuffer := ⟨fun _ => 0, 0, bufsize⟩
    let c : Catch := ⟨tstamp, .clear, 0, [], 0, by decide⟩
    have htotlen : totlen abi bifHdrlen bufsize c = bufsize := Nat.min_eq_right (by
      show bufsize ≤ bpfHdrlen abi bifHdrlen tstamp + _
      omega)
    have hcurlen : bpfWordalign abi b.slen = 0 := by
      have hlt : bpfWordalign abi b.slen < 0 + abi.word := roundup2_lt 0 abi.word_pos
      exact Nat.eq_zero_of_dvd_of_lt (dvd_roundup2 0 abi.word) (by rwa [Nat.zero_add] at hlt)
    have hcatch : ∃ b', catchpacket abi bifHdrlen b c = some b' := by
      unfold catchpacket
      rw [if_neg (by rw [hcurlen, htotlen]; show ¬ bufsize < 0 + bufsize; omega)]
      exact ⟨_, rfl⟩
    obtain ⟨b', hb'⟩ := hcatch
    have hbody := h b c b' rfl rfl hb'
      (bpfWordalign abi b.slen + bpfHdrlen abi bifHdrlen tstamp,
        bytesAt (fun i => c.pkt.getD i 0) 0 (caplen abi bifHdrlen bufsize c).toNat)
      (List.mem_cons_of_mem _ (List.mem_cons_of_mem _ List.mem_cons_self))
    rw [length_bytesAt] at hbody
    have hle := (Nat.le_add_left _ _).trans ((Nat.le_add_right _ _).trans hbody)
    exact hshort hle
  · rintro hfit b c b' rfl rfl hcatch
    exact writes_within hfit hcatch

/-- What a packet leaves in the buffer. -/
structure Caught (abi : Abi) (bifHdrlen : Nat) (b : StoreBuffer) (c : Catch) (b' : StoreBuffer) :
    Prop where
  bufsize : b'.bufsize = b.bufsize
  slen : b'.slen = bpfWordalign abi b.slen + totlen abi bifHdrlen b.bufsize c
  fits : b'.slen ≤ b.bufsize
  hdr : bytesAt b'.sbuf (bpfWordalign abi b.slen) (sizeofBpfHdr abi (catchHalf abi c.tstamp)) =
    bpfHdr abi (catchHalf abi c.tstamp) c.time (caplen abi bifHdrlen b.bufsize c).toNat
      c.pkt.length (bpfHdrlen abi bifHdrlen c.tstamp)
  body : bytesAt b'.sbuf (bpfWordalign abi b.slen + bpfHdrlen abi bifHdrlen c.tstamp)
      (caplen abi bifHdrlen b.bufsize c).toNat =
    bytesAt (fun i => c.pkt.getD i 0) 0 (caplen abi bifHdrlen b.bufsize c).toNat
  before : ∀ i < b.slen, b'.sbuf i = b.sbuf i
  /-- Between the header and the packet nothing is written. -/
  gap : ∀ i, bpfWordalign abi b.slen + sizeofBpfHdr abi (catchHalf abi c.tstamp) ≤ i →
    i < bpfWordalign abi b.slen + bpfHdrlen abi bifHdrlen c.tstamp → b'.sbuf i = b.sbuf i

/-- What storing a packet leaves in the buffer. -/
theorem caught (h : catchpacket abi bifHdrlen b c = some b') : Caught abi bifHdrlen b c b' := by
  have hslen := slen_le_curlen abi b
  have hhdr := catchHdr_le abi bifHdrlen c.tstamp
  unfold catchpacket at h
  by_cases hfull : b.bufsize < bpfWordalign abi b.slen + totlen abi bifHdrlen b.bufsize c
  · rw [if_pos hfull] at h
    cases h
  rw [if_neg hfull] at h
  obtain rfl := Option.some.inj h
  simp only [catchWrites, List.foldl_cons, List.foldl_nil]
  refine ⟨rfl, rfl, Nat.not_lt.mp hfull, ?_, ?_, ?_, ?_⟩
  · show bytesAt (memcpy _ _ _) _ _ = _
    rw [bytesAt_memcpy_of_disjoint _ (.inl (Nat.add_le_add_left hhdr _))]
    exact bytesAt_memcpy _ _ (length_bpfHdr ..)
  · exact bytesAt_memcpy _ _ (length_bytesAt ..)
  · intro i hi
    show memcpy _ _ _ _ = _
    rw [memcpy_of_disjoint _ (.inl (by omega)), memcpy_of_disjoint _ (.inl (by omega)),
      memcpy_of_disjoint _ (.inl hi)]
  · intro i hle hlt
    show memcpy _ _ _ _ = _
    rw [memcpy_of_disjoint _ (.inl hlt),
      memcpy_of_disjoint _ (.inr (by rw [length_bpfHdr]; exact hle)),
      memcpy_of_disjoint _ (.inr (by rw [List.length_replicate]; omega))]

/-! ## The fields of a header -/

section

variable {mem : Nat → UInt8} {p w cap datalen hdrlen : Nat} {time : PacketTime}

/-- The timestamp is at the start of the header. -/
theorem hdr_ts (h : bytesAt mem p (sizeofBpfHdr abi w) = bpfHdr abi w time cap datalen hdrlen) :
    bytesAt mem p (2 * w) = store abi.bigEndian w time.bhTstamp.btSec.toNat ++
      store abi.bigEndian w time.bhTstamp.btFrac.toNat := by
  have hfield := bytesAt_field [] (store abi.bigEndian w time.bhTstamp.btSec.toNat ++
    store abi.bigEndian w time.bhTstamp.btFrac.toNat) (h.trans (List.append_assoc _ _ _).symm)
  rwa [List.length_append, length_store, length_store, ← Nat.two_mul] at hfield

/-- The captured length comes after it. -/
theorem hdr_caplen (h : bytesAt mem p (sizeofBpfHdr abi w) = bpfHdr abi w time cap datalen hdrlen) :
    bytesAt mem (p + 2 * w) 4 = store abi.bigEndian 4 cap := by
  have hfield := bytesAt_field _ (store abi.bigEndian 4 cap)
    (h.trans (List.append_assoc _ _ _).symm)
  rwa [List.length_append, length_store, length_store, length_store, ← Nat.two_mul] at hfield

/-- Then the length of the packet. -/
theorem hdr_datalen
    (h : bytesAt mem p (sizeofBpfHdr abi w) = bpfHdr abi w time cap datalen hdrlen) :
    bytesAt mem (p + (2 * w + 4)) 4 = store abi.bigEndian 4 datalen := by
  have hfield := bytesAt_field _ (store abi.bigEndian 4 datalen)
    (h.trans ((List.append_assoc _ _ _).symm.trans (List.append_assoc _ _ _).symm))
  rwa [List.length_append, List.length_append, length_store, length_store, length_store,
    length_store, ← Nat.two_mul] at hfield

/-- Then the length of the header. -/
theorem hdr_hdrlen (h : bytesAt mem p (sizeofBpfHdr abi w) = bpfHdr abi w time cap datalen hdrlen) :
    bytesAt mem (p + (2 * w + 8)) 2 = store abi.bigEndian 2 hdrlen := by
  have hfield := bytesAt_field _ (store abi.bigEndian 2 hdrlen)
    (h.trans ((List.append_assoc _ _ _).symm.trans
      ((List.append_assoc _ _ _).symm.trans (List.append_assoc _ _ _).symm)))
  simp only [List.length_append, length_store] at hfield
  rwa [show w + w + 4 + 4 = 2 * w + 8 by omega] at hfield

/-- The counter value is at its own offset. -/
theorem hdr_vcount (h : bytesAt mem p (sizeofBpfHdr abi w) = bpfHdr abi w time cap datalen hdrlen) :
    bytesAt mem (p + vcountOffset abi w) 8 = store abi.bigEndian 8 time.bhFfcounter.toNat := by
  have hle := le_vcountOffset abi w
  rw [bytesAt_part mem p (Nat.le_refl (sizeofBpfHdr abi w)), h]
  simp only [bpfHdr, ← List.append_assoc]
  rw [List.drop_left', List.take_of_length_le (by rw [length_store])]
  simp only [List.length_append, length_store, List.length_replicate]
  omega

end

/-! ## The packet seen from behind -/

/-- The headers that the kernel has differ by what their timestamps do. -/
theorem vcountOffset_half {w : Nat} (h : w = abi.word ∨ w = 8) :
    vcountOffset abi w = vcountOffset abi abi.word + 2 * (w - abi.word) := by
  rcases h with rfl | rfl
  · rw [Nat.sub_self, Nat.mul_zero, Nat.add_zero]
  · rcases abi.ok with ⟨h, -⟩ | ⟨h, -⟩
    · rw [h, Nat.sub_self, Nat.mul_zero, Nat.add_zero]
    · rw [h, vcountOffset_eight]

/-- The length of version 3, and what a wider half adds to it. -/
theorem bpfHdrlen_eq (abi : Abi) (bifHdrlen : Nat) (tstamp : BitVec 32) :
    bpfHdrlen abi bifHdrlen tstamp =
      bpfHdrlenV3 abi bifHdrlen + 2 * (hdrlenHalf abi tstamp - abi.word) := by
  have hdvd : abi.word ∣ 2 * (hdrlenHalf abi tstamp - abi.word) := by
    rcases abi.ok with ⟨h, -⟩ | ⟨h, -⟩ <;>
      rcases (half_cases abi tstamp).1 with hh | hh <;> rw [hh, h] <;> decide
  have hsum : bifHdrlen + sizeofBpfHdr abi (hdrlenHalf abi tstamp) =
      2 * (hdrlenHalf abi tstamp - abi.word) + (sizeofBpfHdr abi abi.word + bifHdrlen) := by
    rw [sizeofBpfHdr, sizeofBpfHdr, vcountOffset_half (half_cases abi tstamp).1]
    omega
  have hle := le_roundup2 (sizeofBpfHdr abi abi.word + bifHdrlen) abi.word_pos
  rw [bpfHdrlen, bpfHdrlenV3, bpfWordalign, bpfWordalign, hsum,
    roundup2_add_of_dvd abi.word_pos hdvd]
  omega

/-- Going back from the packet leads into the header, past what is more in the longer one. -/
theorem back_eq (abi : Abi) (bifHdrlen : Nat) (tstamp : BitVec 32) (curlen : Nat) :
    curlen + bpfHdrlen abi bifHdrlen tstamp - bpfHdrlenV3 abi bifHdrlen =
      curlen + 2 * (hdrlenHalf abi tstamp - abi.word) := by
  rw [bpfHdrlen_eq]
  omega

/-- Both decisions are for one header. -/
theorem half_eq_iff (abi : Abi) (tstamp : BitVec 32) :
    catchHalf abi tstamp = hdrlenHalf abi tstamp ↔
      abi.word = 8 ∨ bpfTFormat tstamp ≠ BPF_T_NONE ∨ tstamp = BPF_T_NONE := by
  unfold catchHalf hdrlenHalf
  by_cases hnone : tstamp = BPF_T_NONE
  · subst hnone
    simp only [true_or, if_true, or_true, iff_true]
    rw [if_pos (.inl rfl)]
  · have hne : BPF_T_NONE ≠ BPF_T_MICROTIME := by decide
    by_cases hformat : bpfTFormat tstamp = BPF_T_NONE
    · simp [hformat, hnone, hne]
    · simp [hformat, hnone]

/-- When the half has the width of a word. -/
theorem hdrlenHalf_eq_iff (abi : Abi) (tstamp : BitVec 32) :
    hdrlenHalf abi tstamp = abi.word ↔
      abi.word = 8 ∨ bpfTFormat tstamp = BPF_T_MICROTIME ∨ tstamp = BPF_T_NONE := by
  unfold hdrlenHalf
  by_cases hold : tstamp = BPF_T_NONE ∨ bpfTFormat tstamp = BPF_T_MICROTIME
  · rw [if_pos hold]
    exact iff_of_true rfl (.inr hold.symm)
  · rw [if_neg hold, or_iff_left (fun h => hold h.symm)]
    exact eq_comm

/-- What is extracted for a packet that has just been caught. -/
def extracted (abi : Abi) (bifHdrlen : Nat) (b : StoreBuffer) (c : Catch) (b' : StoreBuffer)
    (headerTs : List UInt8) : VcountStamp :=
  extractVcountStampV3 abi bifHdrlen b'.sbuf
    (bpfWordalign abi b.slen + bpfHdrlen abi bifHdrlen c.tstamp) headerTs

/-- The timestamp is that of the kernel's header, whatever the capture library made of it. -/
theorem extract_ts (hlen : Nat) (mem : Nat → UInt8) (packet : Nat) (headerTs : List UInt8) :
    (extractVcountStampV3 abi hlen mem packet headerTs).ts =
      bytesAt mem (packet - bpfHdrlenV3 abi hlen) (2 * abi.word) := by
  unfold extractVcountStampV3
  simp only
  split
  · rfl
  · rename_i h
    exact (not_not.mp h).symm

/-- The counter value is read at the offset that a word leads to. -/
theorem extracted_vcount (abi : Abi) (bifHdrlen : Nat) (b : StoreBuffer) (c : Catch)
    (b' : StoreBuffer) (headerTs : List UInt8) :
    (extracted abi bifHdrlen b c b' headerTs).vcount =
      load abi.bigEndian (bytesAt b'.sbuf
        (bpfWordalign abi b.slen + vcountOffset abi (hdrlenHalf abi c.tstamp)) 8) := by
  rw [extracted, extractVcountStampV3, back_eq, Nat.add_assoc, Nat.add_comm (2 * _),
    ← vcountOffset_half (half_cases abi c.tstamp).1]

/-- The counter value is the kernel's, where both decisions are for one header. -/
theorem vcount_eq (h : Caught abi bifHdrlen b c b')
    (hhalf : catchHalf abi c.tstamp = hdrlenHalf abi c.tstamp) (headerTs : List UInt8) :
    (extracted abi bifHdrlen b c b' headerTs).vcount = c.time.bhFfcounter.toNat := by
  rw [extracted_vcount, ← hhalf, hdr_vcount h.hdr, load_store]
  exact Nat.mod_eq_of_lt c.time.bhFfcounter.isLt

/-- The bytes of a timestamp in the header of the capture library. -/
def tsBytes (abi : Abi) (ts : BpfTs) : List UInt8 :=
  store abi.bigEndian abi.word ts.btSec.toNat ++ store abi.bigEndian abi.word ts.btFrac.toNat

/-- The timestamp is read back if its half has the width of a word. -/
theorem ts_eq (h : Caught abi bifHdrlen b c b') (hhalf : hdrlenHalf abi c.tstamp = abi.word)
    (headerTs : List UInt8) :
    (extracted abi bifHdrlen b c b' headerTs).ts = tsBytes abi c.time.bhTstamp := by
  rw [extracted, extract_ts, back_eq, hhalf, Nat.sub_self, Nat.mul_zero, Nat.add_zero, tsBytes]
  have hts := hdr_ts h.hdr
  rwa [catchHalf_of_half hhalf] at hts

/-! ## When it is found -/

/-- A buffer that has been used before. -/
def usedBuffer : StoreBuffer := ⟨fun _ => 1, 0, 4096⟩

/-- A packet of one byte, one second after the start, at the counter value 0. -/
def oneByte (tstamp : BitVec 32) : Catch := ⟨tstamp, ⟨1, 0⟩, 0, [0], 1, by decide⟩

/-- The time of the small packet. -/
theorem time_oneByte (tstamp : BitVec 32) : (oneByte tstamp).time =
    ⟨if bpfTFormat tstamp = BPF_T_NONE then ⟨0, 0⟩ else ⟨1, 0⟩, 0⟩ := by
  have hts : bpfBintime2ts ⟨1, 0⟩ tstamp =
      if bpfTFormat tstamp = BPF_T_NONE then ⟨0, 0⟩ else ⟨1, 0⟩ := by
    unfold bpfBintime2ts
    rcases format_cases tstamp with h | h | h | h <;> rw [h] <;> rfl
  rw [Catch.time, packetTime]
  exact congr (congrArg PacketTime.mk hts) (ite_self 0)

/-- It is stored at the start of the buffer. -/
theorem curlen_usedBuffer (abi : Abi) : bpfWordalign abi usedBuffer.slen = 0 := by
  rcases abi.ok with ⟨h, -⟩ | ⟨h, -⟩ <;> rw [bpfWordalign, h] <;> rfl

/-- With its header it has one byte more than that. -/
theorem totlen_oneByte (abi : Abi) (bifHdrlen : Nat) (tstamp : BitVec 32) :
    totlen abi bifHdrlen usedBuffer.bufsize (oneByte tstamp) =
      bpfHdrlen abi bifHdrlen tstamp + 1 := by
  have hlt := bpfHdrlen_lt abi bifHdrlen tstamp
  have hbufsize : usedBuffer.bufsize = 4096 := rfl
  have hmin : min (oneByte tstamp).snaplen (oneByte tstamp).pkt.length = 1 := rfl
  rw [totlen, hmin]
  show min (bpfHdrlen abi bifHdrlen tstamp + 1) _ = _
  omega

/-- The whole of it is captured. -/
theorem caplen_oneByte (abi : Abi) (bifHdrlen : Nat) (tstamp : BitVec 32) :
    (caplen abi bifHdrlen usedBuffer.bufsize (oneByte tstamp)).toNat = 1 := by
  have hlt := bpfHdrlen_lt abi bifHdrlen tstamp
  have hfit : bpfHdrlen abi bifHdrlen (oneByte tstamp).tstamp ≤ usedBuffer.bufsize := by
    show bpfHdrlen abi bifHdrlen tstamp ≤ 4096
    omega
  rw [toNat_caplen hfit, totlen_oneByte]
  exact Nat.add_sub_cancel_left ..

/-- It fits. -/
theorem catch_oneByte (abi : Abi) (bifHdrlen : Nat) (tstamp : BitVec 32) :
    ∃ b', catchpacket abi bifHdrlen usedBuffer (oneByte tstamp) = some b' := by
  have hlt := bpfHdrlen_lt abi bifHdrlen tstamp
  have hbufsize : usedBuffer.bufsize = 4096 := rfl
  unfold catchpacket
  simp only [curlen_usedBuffer, totlen_oneByte]
  rw [if_neg (by omega)]
  exact ⟨_, rfl⟩

/-- The counter value is found behind any packet exactly if both of the kernel's decisions are for
one header: only without a format, and not with the plain word for that, do they part, and then
only where a `timeval` is shorter than 16 bytes. -/
theorem counter_iff (abi : Abi) (bifHdrlen : Nat) (tstamp : BitVec 32) :
    (∀ b c b' headerTs, c.tstamp = tstamp → catchpacket abi bifHdrlen b c = some b' →
      (extracted abi bifHdrlen b c b' headerTs).vcount = c.time.bhFfcounter.toNat) ↔
      abi.word = 8 ∨ bpfTFormat tstamp ≠ BPF_T_NONE ∨ tstamp = BPF_T_NONE := by
  rw [← half_eq_iff]
  constructor
  · intro h
    by_contra hne
    have hle := catchHalf_le abi tstamp
    have hword : catchHalf abi tstamp = 4 ∧ hdrlenHalf abi tstamp = 8 := by
      rcases (half_cases abi tstamp).1 with hh | hh <;>
        rcases (half_cases abi tstamp).2 with hc | hc <;>
          rcases abi.ok with ⟨hw, -⟩ | ⟨hw, -⟩ <;> omega
    obtain ⟨b', hb'⟩ := catch_oneByte abi bifHdrlen tstamp
    have hcaught := caught hb'
    have hvcount := h usedBuffer (oneByte tstamp) b' [] rfl hb'
    have hsize := sizeofBpfHdr_le abi bifHdrlen tstamp
    rw [hword.2, sizeofBpfHdr, vcountOffset_eight] at hsize
    -- the bytes that are looked at lie in the gap
    have hgap : bytesAt b'.sbuf (vcountOffset abi (hdrlenHalf abi tstamp)) 8 =
        bytesAt usedBuffer.sbuf 0 8 := by
      apply bytesAt_congr
      intro i hi
      have hlow : bpfWordalign abi usedBuffer.slen + sizeofBpfHdr abi (catchHalf abi tstamp) ≤
          vcountOffset abi (hdrlenHalf abi tstamp) + i := by
        rw [curlen_usedBuffer, hword.1, hword.2, sizeofBpfHdr, vcountOffset_eight]
        omega
      have hhigh : vcountOffset abi (hdrlenHalf abi tstamp) + i <
          bpfWordalign abi usedBuffer.slen + bpfHdrlen abi bifHdrlen tstamp := by
        rw [curlen_usedBuffer, hword.2, vcountOffset_eight]
        omega
      exact hcaught.gap _ hlow hhigh
    rw [extracted_vcount, curlen_usedBuffer, Nat.zero_add, time_oneByte] at hvcount
    have hzero : load abi.bigEndian (bytesAt usedBuffer.sbuf 0 8) = 0 := by
      rw [← hgap]
      exact hvcount
    revert hzero
    cases abi.bigEndian <;> decide
  · rintro hhalf b c b' headerTs rfl hcatch
    exact vcount_eq (caught hcatch) hhalf headerTs

/-- The timestamp is found exactly if the header is one for the `timeval` of the capture
library. -/
theorem stamp_iff (abi : Abi) (bifHdrlen : Nat) (tstamp : BitVec 32) :
    (∀ b c b' headerTs, c.tstamp = tstamp → catchpacket abi bifHdrlen b c = some b' →
      (extracted abi bifHdrlen b c b' headerTs).ts = tsBytes abi c.time.bhTstamp) ↔
      abi.word = 8 ∨ bpfTFormat tstamp = BPF_T_MICROTIME ∨ tstamp = BPF_T_NONE := by
  rw [← hdrlenHalf_eq_iff]
  constructor
  · intro h
    by_contra hne
    have hword : abi.word = 4 ∧ hdrlenHalf abi tstamp = 8 := by
      rcases (half_cases abi tstamp).1 with hh | hh <;>
        rcases abi.ok with ⟨hw, -⟩ | ⟨hw, -⟩ <;> omega
    obtain ⟨b', hb'⟩ := catch_oneByte abi bifHdrlen tstamp
    have hcaught := caught hb'
    have hts := h usedBuffer (oneByte tstamp) b' [] rfl hb'
    have hback := back_eq abi bifHdrlen tstamp 0
    rw [Nat.zero_add, Nat.zero_add, hword.1, hword.2] at hback
    have hhdr := hcaught.hdr
    rw [curlen_usedBuffer, caplen_oneByte] at hhdr
    rw [extracted, extract_ts, curlen_usedBuffer, Nat.zero_add] at hts
    simp only [show (oneByte tstamp).tstamp = tstamp from rfl, hback, hword.1, tsBytes] at hts hhdr
    by_cases hnone : bpfTFormat tstamp = BPF_T_NONE
    · -- the lengths are taken for a time
      have hcatch : catchHalf abi tstamp = 4 := by
        rw [catchHalf, if_pos (.inl hnone), hword.1]
      have hlens := bytesAt_part b'.sbuf 8 (k := 0) (m := 4) (n := 8) (by decide)
      rw [hcatch] at hhdr
      have hcap := hdr_caplen hhdr
      rw [show bytesAt b'.sbuf (0 + 2 * 4) 4 =
        bytesAt b'.sbuf (8 + 0) 4 from rfl, hlens, hts] at hcap
      simp only [time_oneByte, if_pos hnone] at hcap
      revert hcap
      cases abi.bigEndian <;> decide
    · -- the fraction is taken for a time
      have hmicro : bpfTFormat tstamp ≠ BPF_T_MICROTIME := by
        intro hmicro
        rw [hdrlenHalf, if_pos (.inr hmicro), hword.1] at hword
        omega
      have hcatch : catchHalf abi tstamp = 8 := by
        rw [catchHalf, if_neg (by simp [hnone, hmicro])]
      rw [hcatch] at hhdr
      have hboth := hdr_ts hhdr
      have hfrac := bytesAt_field _
        (store abi.bigEndian 8 (oneByte tstamp).time.bhTstamp.btFrac.toNat)
        (hboth.trans (by rw [← List.append_assoc, List.append_nil]))
      rw [length_store, length_store, Nat.zero_add] at hfrac
      rw [hfrac] at hts
      simp only [time_oneByte, if_neg hnone] at hts
      revert hts
      cases abi.bigEndian <;> decide
  · rintro hhalf b c b' headerTs rfl hcatch
    exact ts_eq (caught hcatch) hhalf headerTs

end RADclock.Capture
