import RADclock.Lib.Runs
import RADclock.Ntp.Timestamps
import RADclock.Sync.Types

/-!
# The NTP server thread (`pthread_ntpserver.c`)

A request is received into a buffer that all requests share, and the reply is put together from the
bytes of the buffer and the state of the clock. How many bytes were received is not looked at.

- `readRADabsUTC`, `reply`, `serve`: the code.
- `Isolated`: a reply does not depend on the datagrams before.
- `isolated_iff`: the datagrams whose reply does not.
-/

namespace RADclock.Ntp

open Lib

/-! ## The code -/

def NTP_PKT_MAX_LEN : Nat := 324

def NTP_VERSION : UInt8 := 4

def MODE_CLIENT : UInt8 := 3
def MODE_SERVER : UInt8 := 4

def LEAP_NOWARNING : UInt8 := 0
def LEAP_NOTINSYNC : UInt8 := 3

def STARAD_UNSYNC : UInt32 := 0x0001

/-- `PKT_MODE`. -/
def pktMode (liVnMode : UInt8) : UInt8 := liVnMode &&& 0x7

/-- `PKT_LI_VN_MODE`. -/
def pktLiVnMode (li vn md : UInt8) : UInt8 :=
  ((li <<< (6 : UInt8)) &&& 0xc0) ||| ((vn <<< (3 : UInt8)) &&& 0x38) ||| (md &&& 0x7)

/-- `struct ntp_pkt` without extension. -/
structure NtpPkt where
  liVnMode : UInt8
  stratum : UInt8
  ppoll : UInt8
  precision : Int8
  rootdelay : UInt32
  rootdispersion : UInt32
  refid : UInt32
  reftime : LFp
  org : LFp
  recTs : LFp
  xmt : LFp
deriving DecidableEq

/-- The fields of `struct radclock_data` that make a time. -/
structure RadclockData (D : Type) where
  phat : D
  phatLocal : D
  ca : D
  status : UInt32
  lastChanged : VCounter
  leapsecExpected : VCounter
  leapsecTotal : Int
  leapsecNext : Int

/-- What the thread reads of the daemon: the clock, its error, the server it follows. -/
structure ServerView (D : Type) where
  radData : RadclockData D
  errorBoundAvg : D
  stratum : UInt32
  minRTT : D
  rootdelay : D
  rootdispersion : D
  sTo : UInt32

variable {D : Type} [Arith D]

/-- `read_RADabs_UTC`. -/
def readRADabsUTC (radData : RadclockData D) (vcount : VCounter) (useplocal : Bool) : D :=
  let time := Arith.ofNat vcount.toNat * radData.phat + radData.ca
  let time :=
    if useplocal ∧ ¬ (radData.phat == radData.phatLocal) then
      time + (Arith.ofNat vcount.toNat - Arith.ofNat radData.lastChanged.toNat) *
        (radData.phatLocal - radData.phat)
    else time
  -- subtracting means including leaps
  let time := time - Arith.ofInt radData.leapsecTotal
  if radData.leapsecExpected ≠ 0 ∧ radData.leapsecExpected < vcount then
    time - Arith.ofInt radData.leapsecNext
  else time

/-- `PLOCAL_ACTIVE` -/
def plocalActive : Bool := false

/-- The two words of a timestamp in a packet. -/
def loadLFp (big : Bool) (pkt : Nat → UInt8) (off : Nat) : LFp :=
  ⟨.ofNat (load big (bytesAt pkt off 4)), .ofNat (load big (bytesAt pkt (off + 4) 4))⟩

/-- The reply to the request in the buffer. -/
def reply (big : Bool) (pktIn : Nat → UInt8) (view : ServerView D) (vcountRec vcountXmt :
    VCounter) :
    NtpPkt :=
  let rdata := view.radData
  let rootdispersion := view.rootdispersion + view.errorBoundAvg + rdata.phat +
    Arith.ofNat (vcountRec - rdata.lastChanged).toNat * rdata.phatLocal * 15e-6
  let rootdelay := view.rootdelay + view.minRTT
  let unsync := rdata.status &&& STARAD_UNSYNC = STARAD_UNSYNC
  let time := readRADabsUTC rdata vcountRec plocalActive
  -- difference clock
  let xmtTime := time + rdata.phat * Arith.ofNat (vcountXmt - vcountRec).toNat
  { liVnMode :=
      if unsync then pktLiVnMode LEAP_NOTINSYNC NTP_VERSION MODE_SERVER
      else pktLiVnMode LEAP_NOWARNING NTP_VERSION MODE_SERVER
    stratum := if unsync then 0 else (view.stratum + 1).toUInt8
    ppoll := pktIn 2
    precision := -18
    rootdelay := htonl big (toUint32 (rootdelay * 65536.0 + 0.5))
    rootdispersion := htonl big (toUint32 (rootdispersion * 65536.0 + 0.5))
    -- an address, in network order already
    refid := view.sTo
    reftime := (utcldToNtptime (readRADabsUTC rdata rdata.lastChanged plocalActive)).hton big
    org := loadLFp big pktIn 40
    recTs := (utcldToNtptime time).hton big
    xmt := (utcldToNtptime xmtTime).hton big }

/-- What an iteration of the loop meets: a datagram or a timeout, the readings of the counter where
they succeed, and the daemon. -/
structure Arrival (D : Type) where
  recv : Option (List UInt8)
  vcountRec : Option VCounter
  view : ServerView D
  vcountXmt : Option VCounter

/-- The buffer after `recvfrom`. -/
def received (pktIn : Nat → UInt8) (a : Arrival D) : Nat → UInt8 :=
  match a.recv with
  | none => pktIn
  | some bytes => memcpy pktIn 0 (bytes.take NTP_PKT_MAX_LEN)

/-- One iteration of `thread_ntp_server`: the buffer, and the reply if one is sent. -/
def serve (big : Bool) (pktIn : Nat → UInt8) (a : Arrival D) : (Nat → UInt8) × Option NtpPkt :=
  let pktIn := received pktIn a
  (pktIn,
    match a.recv, a.vcountRec with
    | none, _ | _, none => none
    | some _, some vcountRec =>
      if pktMode (pktIn 0) ≠ MODE_CLIENT then none
      else a.vcountXmt.map (reply big pktIn a.view vcountRec))

/-- The reply to an arrival after others. -/
def replyAfter (big : Bool) (mem : Nat → UInt8) (before : List (Arrival D)) (a : Arrival D) :
    Option NtpPkt :=
  (serve big (runOut (serve big) mem before).1 a).2

/-! ## Isolation -/

/-- Whatever came before, on memory with whatever contents, the reply is the same. -/
def Isolated (big : Bool) (a : Arrival D) : Prop :=
  ∀ mem mem' before before', replyAfter big mem before a = replyAfter big mem' before' a

/-- The reply is made from bytes of the datagram, or there is none. -/
def Covered (a : Arrival D) : Prop :=
  match a.recv with
  | none => True
  | some bytes =>
    a.vcountRec = none ∨ a.vcountXmt = none ∨ 48 ≤ bytes.length ∨
      ∃ liVnMode ∈ bytes.head?, pktMode liVnMode ≠ MODE_CLIENT

section

variable {big : Bool} {a : Arrival D}

/-! ## What a reply is made from -/

theorem reply_congr {mem mem' : Nat → UInt8} (h2 : mem 2 = mem' 2)
    (h40 : ∀ i < 8, mem (40 + i) = mem' (40 + i)) (view : ServerView D)
    (vcountRec vcountXmt : VCounter) :
    reply big mem view vcountRec vcountXmt = reply big mem' view vcountRec vcountXmt := by
  have horg : loadLFp big mem 40 = loadLFp big mem' 40 := by
    have hint : bytesAt mem 40 4 = bytesAt mem' 40 4 := bytesAt_congr fun i hi => h40 i (by omega)
    have hfra : bytesAt mem (40 + 4) 4 = bytesAt mem' (40 + 4) 4 := bytesAt_congr fun i hi => by
      rw [Nat.add_assoc]
      exact h40 (4 + i) (by omega)
    rw [loadLFp, hint, hfra, loadLFp]
  unfold reply
  simp only [h2, horg]

/-- The words of a timestamp are all of its bytes. -/
theorem loadLFp_inj {mem mem' : Nat → UInt8} {off : Nat}
    (h : loadLFp big mem off = loadLFp big mem' off) {i : Nat} (hi : i < 4) :
    mem (off + 4 + i) = mem' (off + 4 + i) := by
  have hlt : ∀ mem : Nat → UInt8, load big (bytesAt mem (off + 4) 4) < 2 ^ 32 := fun mem => by
    have hlt := load_lt big (bytesAt mem (off + 4) 4)
    rwa [length_bytesAt] at hlt
  have hfra : load big (bytesAt mem (off + 4) 4) = load big (bytesAt mem' (off + 4) 4) := by
    have hnat := congrArg (fun ts : LFp => ts.lFra.toNat) h
    simp only [loadLFp, UInt32.toNat_ofNat'] at hnat
    rwa [Nat.mod_eq_of_lt (hlt mem), Nat.mod_eq_of_lt (hlt mem')] at hnat
  have hbytes := load_inj big (by rw [length_bytesAt, length_bytesAt]) hfra
  have hget := congrArg (fun bs => bs.getD i 0) hbytes
  simpa [bytesAt, List.getD_eq_getElem, hi] using hget

omit [Arith D] in
theorem received_some {bytes : List UInt8} (hrecv : a.recv = some bytes) (mem : Nat → UInt8) :
    received mem a = memcpy mem 0 (bytes.take NTP_PKT_MAX_LEN) := by
  rw [received, hrecv]

omit [Arith D] in
/-- Received bytes take the place of those before. -/
theorem received_eq {bytes : List UInt8} (hrecv : a.recv = some bytes) {i : Nat}
    (hi : i < bytes.length) (hmax : i < NTP_PKT_MAX_LEN) (mem : Nat → UInt8) :
    received mem a i = bytes.getD i 0 := by
  have hlen : i < (bytes.take NTP_PKT_MAX_LEN).length := by
    rw [List.length_take]
    omega
  have hcopy : memcpy mem 0 (bytes.take NTP_PKT_MAX_LEN) (0 + i) = _ := memcpy_of_mem mem hlen
  rw [Nat.zero_add] at hcopy
  rw [received_some hrecv, hcopy, List.getD_eq_getElem _ _ hlen, List.getElem_take,
    List.getD_eq_getElem _ _ hi]

omit [Arith D] in
/-- The other bytes stay. -/
theorem received_of_le {bytes : List UInt8} (hrecv : a.recv = some bytes) {i : Nat}
    (hi : bytes.length ≤ i) (mem : Nat → UInt8) : received mem a i = mem i := by
  rw [received_some hrecv]
  refine memcpy_of_disjoint mem (.inr ?_)
  rw [List.length_take]
  omega

omit [Arith D] in
theorem received_head {bytes : List UInt8} (hrecv : a.recv = some bytes) {liVnMode : UInt8}
    (hhead : bytes.head? = some liVnMode) (mem : Nat → UInt8) : received mem a 0 = liVnMode := by
  cases bytes with
  | nil => cases hhead
  | cons b bs =>
    rw [received_eq hrecv (by simp) (by decide) mem]
    exact Option.some.inj hhead

/-! ## Datagrams that cover what is read -/

/-- The reply of an iteration on a buffer. -/
theorem serve_snd {bytes : List UInt8} (hrecv : a.recv = some bytes) {vcountRec : VCounter}
    (hrec : a.vcountRec = some vcountRec) (mem : Nat → UInt8) :
    (serve big mem a).2 =
      if pktMode (received mem a 0) ≠ MODE_CLIENT then none
      else a.vcountXmt.map (reply big (received mem a) a.view vcountRec) := by
  simp only [serve, hrecv, hrec]

theorem serve_snd_of_none (h : a.recv = none ∨ a.vcountRec = none) (mem : Nat → UInt8) :
    (serve big mem a).2 = none := by
  rcases h with h | h
  · simp only [serve, h]
  · simp only [serve, h]
    cases a.recv <;> rfl

/-- Covered replies are the same from all buffers. -/
theorem Covered.serve_eq (h : Covered a) (mem mem' : Nat → UInt8) :
    (serve big mem a).2 = (serve big mem' a).2 := by
  cases hrecv : a.recv with
  | none => rw [serve_snd_of_none (.inl hrecv), serve_snd_of_none (.inl hrecv)]
  | some bytes =>
    cases hrec : a.vcountRec with
    | none => rw [serve_snd_of_none (.inr hrec), serve_snd_of_none (.inr hrec)]
    | some vcountRec =>
      rw [serve_snd hrecv hrec, serve_snd hrecv hrec]
      unfold Covered at h
      simp only [hrecv] at h
      rcases h with hnone | hxmt | hlen | ⟨liVnMode, hhead, hmode⟩
      · cases hrec.symm.trans hnone
      · simp only [hxmt, Option.map_none, ite_self]
      · have hsame : ∀ i < 48, received mem a i = received mem' a i := fun i hi => by
          have hmax : i < NTP_PKT_MAX_LEN := hi.trans (by decide)
          rw [received_eq hrecv (by omega) hmax, received_eq hrecv (by omega) hmax]
        rw [hsame 0 (by decide)]
        congr 2
        funext vcountXmt
        exact reply_congr (hsame 2 (by decide)) (fun i hi => hsame _ (by omega)) _ _ _
      · rw [received_head hrecv hhead, received_head hrecv hhead, if_pos hmode, if_pos hmode]

/-! ## Datagrams that do not -/

/-- A datagram of 48 equal bytes, to which no reply is sent. -/
def filler (view : ServerView D) (b : UInt8) : Arrival D :=
  ⟨some (List.replicate 48 b), none, view, none⟩

theorem replyAfter_filler (mem : Nat → UInt8) (b : UInt8) :
    replyAfter big mem [filler a.view b] a = (serve big (received mem (filler a.view b)) a).2 := rfl

omit [Arith D] in
theorem received_filler (view : ServerView D) (b : UInt8) (mem : Nat → UInt8) {i : Nat}
    (hi : i < 48) : received mem (filler view b) i = b := by
  have hrecv : (filler view b).recv = some (List.replicate 48 b) := rfl
  have hlen : i < (List.replicate 48 b).length := by rwa [List.length_replicate]
  rw [received_eq hrecv hlen (hi.trans (by decide)), List.getD_eq_getElem _ _ hlen,
    List.getElem_replicate]

/-- Two datagrams before it make the reply to a short one differ. -/
theorem exists_ne_of_not_covered (h : ¬ Covered a) (mem : Nat → UInt8) :
    ∃ b b', replyAfter big mem [filler a.view b] a ≠ replyAfter big mem [filler a.view b'] a := by
  unfold Covered at h
  cases hrecv : a.recv with
  | none => simp only [hrecv, not_true_eq_false] at h
  | some bytes =>
    simp only [hrecv, not_or] at h
    obtain ⟨hrec, hxmt, hlen, hhead⟩ := h
    obtain ⟨vcountRec, hrec⟩ := Option.ne_none_iff_exists'.mp hrec
    obtain ⟨vcountXmt, hxmt⟩ := Option.ne_none_iff_exists'.mp hxmt
    simp only [replyAfter_filler, serve_snd hrecv hrec, hxmt, Option.map_some]
    cases hbytes : bytes with
    | nil =>
      -- the mode is what the datagram before left
      subst hbytes
      refine ⟨3, 4, ?_⟩
      rw [received_of_le hrecv (Nat.zero_le 0), received_of_le hrecv (Nat.zero_le 0),
        received_filler _ _ _ (by decide), received_filler _ _ _ (by decide)]
      rw [if_neg (by decide), if_pos (by decide)]
      exact Option.some_ne_none _
    | cons liVnMode rest =>
      -- the last byte of the origin timestamp is
      have hmode : pktMode liVnMode = MODE_CLIENT := by
        by_contra hne
        exact hhead ⟨liVnMode, by rw [hbytes]; rfl, hne⟩
      refine ⟨0, 1, ?_⟩
      have hhead : bytes.head? = some liVnMode := by rw [hbytes]; rfl
      rw [received_head hrecv hhead, received_head hrecv hhead, if_neg (not_not.mpr hmode),
        if_neg (not_not.mpr hmode)]
      intro heq
      have horg := congrArg NtpPkt.org (Option.some.inj heq)
      have hlast := loadLFp_inj horg (i := 3) (by decide)
      rw [received_of_le hrecv (by omega), received_of_le hrecv (by omega),
        received_filler _ _ _ (by decide), received_filler _ _ _ (by decide)] at hlast
      exact absurd hlast (by decide)

end

/-- A reply depends on earlier datagrams exactly if the request is not covered: if it is shorter
than a header, in client mode as far as its bytes tell, and the counter can be read. -/
theorem isolated_iff (big : Bool) (a : Arrival D) : Isolated big a ↔ Covered a := by
  constructor
  · intro h
    by_contra hnot
    obtain ⟨b, b', hne⟩ := exists_ne_of_not_covered hnot fun _ => 0
    exact hne (h _ _ _ _)
  · exact fun h _ _ _ _ => h.serve_eq _ _

/-- A request of one byte. -/
def shortRequest : Arrival Float where
  recv := some [0x23]
  vcountRec := some 2000000000
  view :=
    { radData := ⟨1e-9, 1e-9, 1.0, 0, 1000000000, 0, 0, 0⟩
      errorBoundAvg := 0.0
      stratum := 1
      minRTT := 0.0
      rootdelay := 0.0
      rootdispersion := 0.0
      sTo := 0 }
  vcountXmt := some 2000000100

/-- It is sent the transmit timestamp of the client before. -/
theorem not_isolated : ¬ ∀ (big : Bool) (a : Arrival Float), Isolated big a := by
  intro h
  have hnot : ¬ Covered shortRequest := by
    simp [Covered, shortRequest]
    decide
  obtain ⟨b, b', hne⟩ := exists_ne_of_not_covered hnot fun _ => 0
  exact hne (h false _ _ _ _ _)

end RADclock.Ntp
