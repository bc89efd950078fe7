import RADclock.Capture.TraceReplay
import RADclock.Ntp.Client

/-!
# An exchange from end to end (`client_ntp.c`, `pthread_ntpserver.c`, `create_stamp.c`)

The client sends the memory that its request is in, and the server that of its reply. Both packets
are captured, and their halves are to meet in the stamp queue. The three machines may differ in
their byte orders.

A request that waits can be lost in two ways: too many halves come after it, or a later request to
the same server is answered before it is. The requests of one grid point may overlap, where there
are retries; so none of them is lost as long as the replies come in order.

Nothing is assumed of how long the packets take, nor of the clocks.

- `Passing`: the halves that do not part a request from its reply.
- `storeNtpPkt`, `networkOrder_loadNtpPkt`: a packet from one machine to another.
- `Exchange`: what the two sides have read, and the packets as they are captured.
- `Exchange.delivered`: the stamp of an exchange is delivered, in any run.
-/

namespace RADclock.Capture

open Lib Ntp

/-! ## A half that waits -/

section Waiting

variable {D : Type}

/-- A reply in `halves` has this id. -/
def Answered (halves : List (Int × StampT D)) (id : UInt64) : Prop :=
  ∃ half ∈ halves, half.1 = modeServer ∧ half.2.id = id

/-- A stamp that leaves the request `u` in the queue, should it be completed. -/
def Harmless (u stamp : StampT D) : Prop :=
  stamp.serverIpaddr = u.serverIpaddr → stamp.bst.Ta ≤ u.bst.Ta

/-- No half has the id of `u`, and no request to its server that is later has been answered. -/
structure Passing (halves : List (Int × StampT D)) (u : StampT D) : Prop where
  id : ∀ half ∈ halves, half.2.id ≠ u.id
  request : ∀ half ∈ halves, half.1 = modeClient → Answered halves half.2.id →
    half.2.serverIpaddr.take 16 = u.serverIpaddr → half.2.bst.Ta ≤ u.bst.Ta

/-- What is known of a stamp that waits beside `u`. -/
structure Beside (halves : List (Int × StampT D)) (u stamp : StampT D) : Prop where
  harmless : Answered halves stamp.id → Harmless u stamp
  request : ¬ Answered halves stamp.id → stamp.bst.Tf = 0

/-- The request `u` waits behind at most `k` others. -/
structure WaitsBehind (halves : List (Int × StampT D)) (u : StampT D) (k : Nat)
    (q : List (StampT D)) : Prop where
  halved : Halved q
  beside : ∀ stamp ∈ q, Beside halves u stamp
  place : ∃ us ws, q = us ++ u :: ws ∧ us.length ≤ k

variable {halves : List (Int × StampT D)} {q us ws : List (StampT D)} {mode : Int} {k : Nat}
  {new stamp u : StampT D}

/-- What completes a stamp leaves `u` where it is. -/
theorem Beside.not_dangerous (hb : Beside halves u stamp) (hp : Passing halves u)
    (hmem : (mode, new) ∈ halves) (hid : stamp.id = new.id) (hv : Valued mode new)
    (hnot : ¬ HasHalf mode stamp) (hstamp : ClientHalf stamp ∨ ServerHalf stamp)
    (hu : u.bst.Tf = 0) :
    ¬ Dangerous (fillHalf mode new stamp).bst.Ta (fillHalf mode new stamp) u := by
  have hharmless : Harmless u (fillHalf mode new stamp) := by
    rcases hv with ⟨rfl, -⟩ | ⟨rfl, -⟩
    · -- The stamp has its reply, which is one of the halves.
      have hTa : stamp.bst.Ta = 0 := by
        by_contra hTa
        exact hnot (.inl ⟨rfl, hTa⟩)
      have hTf : stamp.bst.Tf ≠ 0 := hstamp.elim (fun hc => absurd hTa hc.1) And.right
      have hans : Answered halves new.id := hid ▸ by_contra fun hans => hTf (hb.request hans)
      exact hp.request _ hmem rfl hans
    · exact hb.harmless ⟨_, hmem, rfl, hid.symm⟩
  rintro (⟨hserver, -⟩ | ⟨⟨-, hlt⟩, haddr⟩)
  · exact hserver.2 hu
  · exact absurd hlt (UInt64.not_lt.mpr (hharmless haddr.symm))

variable [Arith D]

theorem Halved.push (hq : Halved q) (hv : Valued mode new) (hnew : ∀ v ∈ q, v.id ≠ new.id) :
    Halved (fillHalf mode new (blankStamp new.id) :: trimmed q) where
  half := List.forall_mem_cons.mpr
    ⟨hv.half_pushed new.id, (hq.sublist (trimmed_sublist q)).half⟩
  queued := (Inserted.pushed (hv.imp And.left And.left) hnew).queued hq.queued

/-- What a half does to the queue. -/
theorem Halved.matchHalf (hq : Halved q) (hv : Valued mode new) :
    Halved (matchHalf q mode new).2 := by
  unfold Capture.matchHalf
  split
  · next hfind => exact hq.push hv (by simpa using hfind)
  · split
    · exact hq
    · exact hq.sublist (List.filter_sublist.trans List.filter_sublist)

/-- The stamps in the queue are those of before, or the one pushed. -/
theorem mem_matchHalf (hmem : stamp ∈ (matchHalf q mode new).2) :
    stamp ∈ q ∨ stamp = fillHalf mode new (blankStamp new.id) := by
  unfold matchHalf at hmem
  split at hmem
  · rcases List.mem_cons.mp hmem with heq | hmem
    · exact .inr heq
    · exact .inl ((trimmed_sublist q).subset hmem)
  · split at hmem
    · exact .inl hmem
    · exact .inl ((List.filter_sublist.trans List.filter_sublist).subset hmem)

theorem Passing.beside_push (hp : Passing halves u) (hmem : (mode, new) ∈ halves)
    (hv : Valued mode new) : Beside halves u (fillHalf mode new (blankStamp new.id)) := by
  rcases hv with ⟨rfl, -⟩ | ⟨rfl, -⟩
  · exact ⟨hp.request _ hmem rfl, fun _ => rfl⟩
  · refine ⟨fun _ _ => ?_, fun hans => absurd ⟨_, hmem, rfl, rfl⟩ hans⟩
    show (0 : UInt64) ≤ _
    exact UInt64.zero_le

omit [Arith D] in
/-- The last place of a full queue is not that of `u`. -/
theorem exists_trimmed (hlen : (us.length : Int) + 1 < maxStqSize) :
    ∃ ws', trimmed (us ++ u :: ws) = us ++ u :: ws' := by
  unfold trimmed
  split_ifs with hfull
  · cases ws with
    | nil =>
      rw [List.length_append, List.length_singleton, Nat.cast_add] at hfull
      exact absurd hfull hlen.ne
    | cons w ws =>
      refine ⟨(w :: ws).dropLast, ?_⟩
      rw [List.dropLast_append_of_ne_nil (List.cons_ne_nil _ _),
        List.dropLast_cons_of_ne_nil (List.cons_ne_nil _ _)]
  · exact ⟨ws, rfl⟩

/-- A half that passes. -/
theorem WaitsBehind.matchHalf (h : WaitsBehind halves u k q) (hp : Passing halves u)
    (hu : u.bst.Tf = 0) (hmem : (mode, new) ∈ halves) (hv : Valued mode new)
    (hk : (k : Int) + 1 < maxStqSize) :
    WaitsBehind halves u (k + 1) (matchHalf q mode new).2 where
  halved := h.halved.matchHalf hv
  beside stamp hstamp := by
    rcases mem_matchHalf hstamp with hstamp | rfl
    · exact h.beside stamp hstamp
    · exact hp.beside_push hmem hv
  place := by
    obtain ⟨us, ws, rfl, hlen⟩ := h.place
    unfold Capture.matchHalf
    split
    · -- The half goes to the front, and only the last of a full queue is dropped.
      have hlt : (us.length : Int) + 1 < maxStqSize := by omega
      obtain ⟨ws', htrim⟩ := @exists_trimmed D us ws u hlt
      rw [htrim]
      exact ⟨_ :: us, ws', rfl, Nat.succ_le_succ hlen⟩
    · next stamp hfind =>
      split
      · exact ⟨us, ws, rfl, Nat.le_succ_of_le hlen⟩
      · next hnot =>
        -- The stamp is taken out, and with it what is dangerous.
        have hstamp := List.mem_of_find?_eq_some hfind
        have hid : stamp.id = new.id := by simpa using List.find?_some hfind
        have hsafe := (h.beside stamp hstamp).not_dangerous hp hmem hid hv hnot
          (h.halved.half stamp hstamp) hu
        have hne : u.id ≠ new.id := fun heq => hp.id _ hmem heq.symm
        dsimp only
        rw [List.filter_append, List.filter_cons_of_pos (by simpa using hne), kept,
          List.filter_append, List.filter_cons_of_pos (by simpa using hsafe)]
        refine ⟨_, _, rfl, ?_⟩
        calc _ ≤ us.length := (List.length_filter_le _ _).trans (List.length_filter_le _ _)
          _ ≤ k + 1 := Nat.le_succ_of_le hlen

variable {hs : List (Int × StampT D)}

theorem WaitsBehind.matchHalves (h : WaitsBehind halves u k q) (hp : Passing halves u)
    (hu : u.bst.Tf = 0) (hsub : ∀ half ∈ hs, half ∈ halves)
    (hv : ∀ half ∈ hs, Valued half.1 half.2) (hroom : (k : Int) + hs.length < maxStqSize) :
    WaitsBehind halves u (k + hs.length) (matchHalves hs q).2 := by
  induction hs generalizing k q with
  | nil => exact h
  | cons half hs ih =>
    obtain ⟨hmem, hsub⟩ := List.forall_mem_cons.mp hsub
    obtain ⟨hvh, hv⟩ := List.forall_mem_cons.mp hv
    rw [List.length_cons, Nat.cast_add, Nat.cast_one] at hroom
    have hstep := ih (h.matchHalf hp hu hmem hvh (by omega)) hsub hv (by omega)
    rw [List.length_cons, Nat.add_comm hs.length, ← Nat.add_assoc]
    exact hstep

theorem Halved.matchHalves (hq : Halved q) (hv : ∀ half ∈ hs, Valued half.1 half.2) :
    Halved (matchHalves hs q).2 := by
  induction hs generalizing q with
  | nil => exact hq
  | cons half hs ih =>
    obtain ⟨hvh, hv⟩ := List.forall_mem_cons.mp hv
    exact ih (hq.matchHalf hvh) hv

/-- What waits has been pushed, and is as it was pushed. -/
theorem mem_matchHalves (hmem : stamp ∈ (matchHalves hs q).2) :
    stamp ∈ q ∨ ∃ half ∈ hs, stamp = fillHalf half.1 half.2 (blankStamp half.2.id) := by
  induction hs generalizing q with
  | nil => exact .inl hmem
  | cons half hs ih =>
    rcases ih hmem with hmem | ⟨half', hhalf, heq⟩
    · rcases mem_matchHalf hmem with hmem | heq
      · exact .inl hmem
      · exact .inr ⟨half, List.mem_cons_self, heq⟩
    · exact .inr ⟨half', List.mem_cons_of_mem _ hhalf, heq⟩

/-- The request comes, and waits. -/
theorem waitsBehind_request (hp : Passing halves (fillHalf modeClient new (blankStamp new.id)))
    (hsub : ∀ half ∈ hs, half ∈ halves) (hv : ∀ half ∈ halves, Valued half.1 half.2)
    (hc : Valued modeClient new) :
    matchHalf (matchHalves hs []).2 modeClient new =
        (none, fillHalf modeClient new (blankStamp new.id) :: trimmed (matchHalves hs []).2) ∧
      WaitsBehind halves (fillHalf modeClient new (blankStamp new.id)) 0
        (fillHalf modeClient new (blankStamp new.id) :: trimmed (matchHalves hs []).2) := by
  have hpushed : ∀ stamp ∈ (matchHalves hs []).2, ∃ half ∈ hs,
      stamp = fillHalf half.1 half.2 (blankStamp half.2.id) :=
    fun stamp hmem => (mem_matchHalves hmem).resolve_left List.not_mem_nil
  have hnew : ∀ stamp ∈ (matchHalves hs []).2, stamp.id ≠ new.id := by
    intro stamp hmem
    obtain ⟨half, hhalf, rfl⟩ := hpushed stamp hmem
    rw [fillHalf_id]
    have hid := hp.id half (hsub half hhalf)
    rwa [fillHalf_id] at hid
  refine ⟨matchHalf_pushed hnew, ?_, ?_, ?_⟩
  · exact (halved_nil.matchHalves fun half hhalf => hv half (hsub half hhalf)).push hc hnew
  · intro stamp hmem
    rcases List.mem_cons.mp hmem with rfl | hmem
    · exact ⟨fun _ _ => UInt64.le_refl _, fun _ => rfl⟩
    · obtain ⟨half, hhalf, rfl⟩ := hpushed stamp ((trimmed_sublist _).subset hmem)
      exact hp.beside_push (hsub half hhalf) (hv half (hsub half hhalf))
  · exact ⟨[], _, rfl, Nat.le_refl 0⟩

/-- A request and its reply meet. -/
theorem matchHalves_exchange {before between : List (Int × StampT D)}
    (after : List (Int × StampT D)) {c s : StampT D} (hid : s.id = c.id) (hc : Valued modeClient c)
    (hp : Passing (before ++ between) (fillHalf modeClient c (blankStamp c.id)))
    (hv : ∀ half ∈ before ++ between, Valued half.1 half.2)
    (hroom : (between.length : Int) < maxStqSize) :
    fillHalf modeServer s (fillHalf modeClient c (blankStamp c.id)) ∈
      (matchHalves (before ++ (modeClient, c) :: (between ++ (modeServer, s) :: after)) []).1 := by
  obtain ⟨hpush, hwaits⟩ :=
    waitsBehind_request hp (fun half hhalf => List.mem_append_left _ hhalf) hv hc
  have hsub : ∀ half ∈ between, half ∈ before ++ between :=
    fun half hhalf => List.mem_append_right _ hhalf
  obtain ⟨hhalved, -, us, ws, hq, -⟩ :=
    hwaits.matchHalves hp rfl hsub (fun half hhalf => hv half (hsub half hhalf)) (by omega)
  have hsame : (fillHalf modeClient c (blankStamp c.id)).id = s.id := by
    rw [fillHalf_id, hid]
    rfl
  have hnot : ¬ HasHalf modeServer (fillHalf modeClient c (blankStamp c.id)) := by
    rintro (⟨hmode, -⟩ | ⟨-, hTf⟩)
    · exact absurd hmode (by decide)
    · exact hTf rfl
  have hfilled := matchHalf_filled (hq ▸ hhalved.queued) hsame hnot
  simp only [matchHalves_append, Capture.matchHalves, hpush, hq, hfilled]
  simp

end Waiting

/-! ## From one machine to another -/

/-- The words of a packet, behind its first four bytes. -/
def wordsOf (pkt : NtpPkt) : List UInt32 :=
  [pkt.rootdelay, pkt.rootdispersion, pkt.refid, pkt.reftime.lInt, pkt.reftime.lFra, pkt.org.lInt,
    pkt.org.lFra, pkt.recTs.lInt, pkt.recTs.lFra, pkt.xmt.lInt, pkt.xmt.lFra]

/-- `LEN_PKT_NOMAC` -/
def LEN_PKT_NOMAC : Nat := 12 * 4

/-- The memory that a packet is in, which is what `sendto` sends. -/
def storeNtpPkt (big : Bool) (pkt : NtpPkt) : List UInt8 :=
  [pkt.liVnMode, pkt.stratum, pkt.ppoll, pkt.precision.toUInt8] ++
    (wordsOf pkt).flatMap fun v => store big 4 v.toNat

/-- A packet with all words in the byte order of the network. -/
def networkOrder (big : Bool) (pkt : NtpPkt) : NtpPkt :=
  { pkt with
    rootdelay := htonl big pkt.rootdelay
    rootdispersion := htonl big pkt.rootdispersion
    refid := htonl big pkt.refid
    reftime := pkt.reftime.hton big
    org := pkt.org.hton big
    recTs := pkt.recTs.hton big
    xmt := pkt.xmt.hton big }

section Wire

variable {big : Bool} (big' : Bool) {mem : Nat → UInt8} {off : Nat} {pkt : NtpPkt}

theorem length_storeNtpPkt : (storeNtpPkt big pkt).length = LEN_PKT_NOMAC := by
  simp [storeNtpPkt, wordsOf, LEN_PKT_NOMAC]

/-- A word that has been stored on one machine and is loaded on another. -/
theorem htonl_word (h : bytesAt mem off LEN_PKT_NOMAC = storeNtpPkt big pkt) {i : Nat}
    (hi : i < (wordsOf pkt).length) :
    htonl big' (.ofNat (load big' (bytesAt mem (off + 4 + 4 * i) 4))) =
      htonl big (wordsOf pkt)[i] := by
  have hwords : bytesAt mem (off + 4) 44 = (wordsOf pkt).flatMap fun v => store big 4 v.toNat := by
    rw [bytesAt_part mem off (show 4 + 44 ≤ LEN_PKT_NOMAC by decide), h]
    show List.take 44 ((wordsOf pkt).flatMap fun v => store big 4 v.toNat) = _
    exact List.take_of_length_le (by simp [wordsOf])
  have hload := load_lt big' (store big 4 (wordsOf pkt)[i].toNat)
  rw [length_store] at hload
  change _ < 2 ^ 32 at hload
  rw [bytesAt_flatMap (fun v => length_store big 4 v.toNat) hwords hi, ← UInt32.toNat_inj,
    toNat_htonl, toNat_htonl, UInt32.toNat_ofNat', Nat.mod_eq_of_lt hload]
  exact ntoh_load_store big big' (wordsOf pkt)[i].toNat_lt

/-- The words go through, and the bytes too. -/
theorem networkOrder_loadNtpPkt (h : bytesAt mem off LEN_PKT_NOMAC = storeNtpPkt big pkt) :
    networkOrder big' (loadNtpPkt big' mem off) = networkOrder big pkt := by
  have hword := fun i (hi : i < 11) => htonl_word big' h (i := i) hi
  have hbyte : ∀ i < 4, mem (off + i) = (storeNtpPkt big pkt).getD i 0 := by
    intro i hi
    rw [← h]
    simp [bytesAt, List.getD_eq_getElem?_getD, LEN_PKT_NOMAC, show i < 48 by omega]
  have hprecision : (mem (off + 3)).toInt8 = pkt.precision := by
    rw [hbyte 3 (by decide)]
    rfl
  simp only [networkOrder, loadNtpPkt, loadLFp, LFp.hton, NtpPkt.mk.injEq, LFp.mk.injEq]
  exact ⟨hbyte 0 (by decide), hbyte 1 (by decide), hbyte 2 (by decide), hprecision,
    hword 0 (by decide), hword 1 (by decide), hword 2 (by decide),
    ⟨hword 3 (by decide), hword 4 (by decide)⟩, ⟨hword 5 (by decide), hword 6 (by decide)⟩,
    ⟨hword 7 (by decide), hword 8 (by decide)⟩, ⟨hword 9 (by decide), hword 10 (by decide)⟩⟩

theorem htonl_true (v : UInt32) : htonl true v = v := UInt32.ofNat_toNat

/-- What is made of a packet depends on its words in the byte order of the network. -/
theorem stampId_hton (ts : LFp) : stampId big ts = stampId true (ts.hton big) := by
  simp only [stampId, htonl_true, LFp.hton]

theorem ntptimeToUtcld_hton_true {D : Type} [Arith D] (ts : LFp) :
    (ntptimeToUtcld big ts : D) = ntptimeToUtcld true (ts.hton big) := by
  simp only [ntptimeToUtcld, htonl_true, LFp.hton]

end Wire

/-! ## Exchanges -/

/-- What has been sent is found in the packet `p`, which has the counter value `vcount`, and is not
dropped as one of the host to itself. -/
structure Captured (host : Host) (sent : List UInt8) (p : NetPacket) (payload : Payload)
    (vcount : VCounter) : Prop where
  vcount_eq : getVcount host p.packet = some vcount
  payload_eq : getValidNtpPayload host p.udph p.packet = some payload
  bytes_eq : bytesAt p.packet.payload payload.ntp LEN_PKT_NOMAC = sent
  foreign : ¬ Own host p.ssIf p

/-- A request, the reply of a server in synchrony, and the packets that they are captured in. -/
structure Exchange (D : Type) [Arith D] (host : Host) where
  -- on the client
  bigClient : Bool
  lastXmt : LFp
  view : RequestView D
  spkt : NtpPkt
  tv : Timeval
  created : (createNtpRequest bigClient lastXmt view).2 = some (spkt, tv)
  -- on the server, where the datagram may be longer than the request
  bigServer : Bool
  pktIn : Nat → UInt8
  arrival : Arrival D
  trailer : List UInt8
  recv : arrival.recv = some (storeNtpPkt bigClient spkt ++ trailer)
  vcountRec : VCounter
  vcountXmt : VCounter
  readRec : arrival.vcountRec = some vcountRec
  readXmt : arrival.vcountXmt = some vcountXmt
  pktOut : NtpPkt
  served : (serve bigServer pktIn arrival).2 = some pktOut
  synchronised : arrival.view.radData.status &&& STARAD_UNSYNC ≠ STARAD_UNSYNC
  stratum : (arrival.view.stratum + 1).toUInt8 ≠ stratumUnspec
  -- on the host that captures
  request : NetPacket
  requestPayload : Payload
  Ta : VCounter
  requestCaptured : Captured host (storeNtpPkt bigClient spkt) request requestPayload Ta
  reply : NetPacket
  replyPayload : Payload
  Tf : VCounter
  replyCaptured : Captured host (storeNtpPkt bigServer pktOut) reply replyPayload Tf

section Exchange

variable {D : Type} [Arith D] {host : Host} (inetNtop : SockAddr → Text) (e : Exchange D host)

/-- The times that the server reads. -/
def Exchange.recTime : D := readRADabsUTC e.arrival.view.radData e.vcountRec plocalActive

def Exchange.xmtTime : D :=
  e.recTime + e.arrival.view.radData.phat * Arith.ofNat (e.vcountXmt - e.vcountRec).toNat

/-- The stamp of the exchange. -/
def Exchange.stamp : StampT D where
  type := .ntp
  id := stampId true (createNtpRequest e.bigClient e.lastXmt e.view).1
  serverIpaddr := (inetNtop (e.requestPayload.ssDst.getD e.request.ssDst)).take 16
  ttl := e.replyPayload.ttl.elim e.reply.ttl fun ttl => ttl.toNat
  stratum := (e.arrival.view.stratum + 1).toUInt8.toNat
  LI := LEAP_NOWARNING.toNat
  refid := htonl e.bigServer e.arrival.view.sTo
  rootdelay := Arith.ofNat (htonl e.bigServer e.pktOut.rootdelay).toNat / 65536.0
  rootdispersion := Arith.ofNat (htonl e.bigServer e.pktOut.rootdispersion).toNat / 65536.0
  bst :=
    { Ta := e.Ta
      Tb := ntptimeToUtcld true (utcldToNtptime e.recTime)
      Te := ntptimeToUtcld true (utcldToNtptime e.xmtTime)
      Tf := e.Tf }

/-- The request, as it waits for the reply. -/
def Exchange.waiting : StampT D :=
  { (blankStamp (e.stamp inetNtop).id : StampT D) with
    serverIpaddr := (e.stamp inetNtop).serverIpaddr
    bst := { (0 : BidirStamp D) with Ta := e.Ta } }

variable {inetNtop e}

/-- What the client has written into the request. -/
theorem Exchange.spkt_spec :
    e.spkt.liVnMode = pktLiVnMode LEAP_NOTINSYNC NTP_VERSION MODE_CLIENT ∧
      e.spkt.xmt.hton e.bigClient = (createNtpRequest e.bigClient e.lastXmt e.view).1 := by
  have hcreated := e.created
  cases hvcount : e.view.vcount with
  | none =>
    rw [createNtpRequest_none hvcount] at hcreated
    cases hcreated
  | some vcount =>
    simp only [createNtpRequest, hvcount, Option.some.injEq, Prod.mk.injEq] at hcreated ⊢
    rw [← hcreated.1]
    exact ⟨rfl, hton_hton _ _⟩

/-- The request is at the beginning of the buffer of the server. -/
theorem Exchange.bytesAt_received :
    bytesAt (received e.pktIn e.arrival) 0 LEN_PKT_NOMAC = storeNtpPkt e.bigClient e.spkt := by
  have hlen : (storeNtpPkt e.bigClient e.spkt).length = LEN_PKT_NOMAC := length_storeNtpPkt
  refine List.ext_getElem (by rw [length_bytesAt, hlen]) fun i hi hi' => ?_
  rw [length_bytesAt] at hi
  have hmax : i < NTP_PKT_MAX_LEN := hi.trans (by decide)
  simp only [bytesAt, List.getElem_map, List.getElem_range, Nat.zero_add]
  rw [received_eq e.recv (by rw [List.length_append]; omega) hmax, List.getD_append _ _ _ _ hi',
    List.getD_eq_getElem _ _ hi']

/-- What the server has written into the reply. -/
theorem Exchange.pktOut_eq :
    e.pktOut = Ntp.reply e.bigServer (received e.pktIn e.arrival) e.arrival.view e.vcountRec
      e.vcountXmt := by
  have hserved := e.served
  have hmode : received e.pktIn e.arrival 0 = e.spkt.liVnMode := by
    have hhead := congrArg (fun bs => bs.getD 0 0) e.bytesAt_received
    exact hhead
  rw [serve_snd e.recv e.readRec, hmode, e.spkt_spec.1, e.readXmt, if_neg (by decide)] at hserved
  exact (Option.some.inj hserved).symm

/-- The reply carries the transmit timestamp of the request. -/
theorem Exchange.org_eq :
    e.pktOut.org.hton e.bigServer = (createNtpRequest e.bigClient e.lastXmt e.view).1 := by
  have hxmt := congrArg NtpPkt.xmt (networkOrder_loadNtpPkt e.bigServer e.bytesAt_received)
  rw [e.pktOut_eq, ← e.spkt_spec.2]
  exact hxmt

theorem Captured.networkOrder_eq {big : Bool} {pkt : NtpPkt} {p : NetPacket} {payload : Payload}
    {vcount : VCounter} (hc : Captured host (storeNtpPkt big pkt) p payload vcount) :
    networkOrder host.wordsBigendian (p.ntp host payload) = networkOrder big pkt :=
  networkOrder_loadNtpPkt host.wordsBigendian hc.bytes_eq

theorem ntpMode_of_liVnMode {ntp : NtpPkt} {li md : UInt8} (hli : li = 0 ∨ li = 3)
    (hmd : md = 3 ∨ md = 4) (h : ntp.liVnMode = pktLiVnMode li NTP_VERSION md) :
    ntpMode ntp = md.toNat ∧ pktLeap ntp.liVnMode = li := by
  rw [ntpMode, h]
  rcases hli with rfl | rfl <;> rcases hmd with rfl | rfl <;> decide

variable (inetNtop e) in
/-- The half in the packet of the request, as it is pushed. -/
theorem Exchange.pushOf_request :
    ∃ c : StampT D, pushOf host inetNtop e.request = some (modeClient, c) ∧
      c.id = (e.stamp inetNtop).id ∧
      fillHalf modeClient c (blankStamp c.id) = e.waiting inetNtop := by
  have hc := e.requestCaptured
  have hnet := hc.networkOrder_eq
  have hli : (e.request.ntp host e.requestPayload).liVnMode =
      pktLiVnMode LEAP_NOTINSYNC NTP_VERSION MODE_CLIENT :=
    (congrArg NtpPkt.liVnMode hnet).trans e.spkt_spec.1
  have hmode : ntpMode (e.request.ntp host e.requestPayload) = modeClient :=
    (ntpMode_of_liVnMode (.inr rfl) (.inl rfl) hli).1
  have hid : stampId host.wordsBigendian (e.request.ntp host e.requestPayload).xmt =
      (e.stamp inetNtop).id := by
    rw [stampId_hton]
    exact congrArg (stampId true) ((congrArg NtpPkt.xmt hnet).trans e.spkt_spec.2)
  refine ⟨clientHalfstamp host inetNtop (e.request.ntp host e.requestPayload) e.Ta
    (e.requestPayload.ssDst.getD e.request.ssDst), ?_, hid, ?_⟩
  · rw [pushOf_foreign hc.foreign, halfOf, hc.vcount_eq, hc.payload_eq]
    simp only [Option.bind_eq_bind, Option.bind_some]
    rw [if_pos hmode]
  · rw [Exchange.waiting, ← hid]
    rfl

variable (inetNtop e) in
/-- The half in the packet of the reply, which makes the stamp of the waiting request. -/
theorem Exchange.pushOf_reply :
    ∃ s : StampT D, pushOf host inetNtop e.reply = some (modeServer, s) ∧
      s.id = (e.stamp inetNtop).id ∧
      fillHalf modeServer s (e.waiting inetNtop) = e.stamp inetNtop := by
  have hc := e.replyCaptured
  have hnet := hc.networkOrder_eq
  have hout := e.pktOut_eq
  -- what the capture reads, field by field, is what the server wrote
  have hli : (e.reply.ntp host e.replyPayload).liVnMode =
      pktLiVnMode LEAP_NOWARNING NTP_VERSION MODE_SERVER := by
    refine (congrArg NtpPkt.liVnMode hnet).trans ?_
    rw [hout]
    exact if_neg e.synchronised
  have hstratum : (e.reply.ntp host e.replyPayload).stratum =
      (e.arrival.view.stratum + 1).toUInt8 := by
    refine (congrArg NtpPkt.stratum hnet).trans ?_
    rw [hout]
    exact if_neg e.synchronised
  obtain ⟨hmode, hleap⟩ := ntpMode_of_liVnMode (.inl rfl) (.inr rfl) hli
  change ntpMode _ = modeServer at hmode
  change pktLeap _ = LEAP_NOWARNING at hleap
  -- the origin time of the reply is the transmit time of the request
  have hid : stampId host.wordsBigendian (e.reply.ntp host e.replyPayload).org =
      (e.stamp inetNtop).id := by
    rw [stampId_hton]
    exact congrArg (stampId true) ((congrArg NtpPkt.org hnet).trans e.org_eq)
  refine ⟨serverHalfstamp host (e.reply.ntp host e.replyPayload) e.Tf
    (e.replyPayload.ttl.elim e.reply.ttl fun ttl => ttl.toNat), ?_, hid, ?_⟩
  · -- it is taken as a server half, and accepted
    have hne : ¬ modeServer = modeClient := by decide
    have hgood : pktLeap (e.reply.ntp host e.replyPayload).liVnMode ≠ LEAP_NOTINSYNC := by
      rw [hleap]
      decide
    rw [pushOf_foreign hc.foreign, halfOf, hc.vcount_eq, hc.payload_eq]
    simp only [Option.bind_eq_bind, Option.bind_some]
    rw [if_neg fun hclient => hne (hmode.symm.trans hclient),
      if_pos ⟨hmode, hgood, hstratum.trans_ne e.stratum⟩]
  · -- the values of that half
    have hTb : (ntptimeToUtcld host.wordsBigendian (e.reply.ntp host e.replyPayload).recTs : D) =
        ntptimeToUtcld true (utcldToNtptime e.recTime) := by
      rw [ntptimeToUtcld_hton_true]
      refine congrArg (ntptimeToUtcld true) ((congrArg NtpPkt.recTs hnet).trans ?_)
      rw [hout]
      exact hton_hton _ _
    have hTe : (ntptimeToUtcld host.wordsBigendian (e.reply.ntp host e.replyPayload).xmt : D) =
        ntptimeToUtcld true (utcldToNtptime e.xmtTime) := by
      rw [ntptimeToUtcld_hton_true]
      refine congrArg (ntptimeToUtcld true) ((congrArg NtpPkt.xmt hnet).trans ?_)
      rw [hout]
      exact hton_hton _ _
    have hrefid : htonl host.wordsBigendian (e.reply.ntp host e.replyPayload).refid =
        htonl e.bigServer e.arrival.view.sTo := by
      refine (congrArg NtpPkt.refid hnet).trans ?_
      rw [hout]
      rfl
    have hrootdelay := congrArg NtpPkt.rootdelay hnet
    have hrootdispersion := congrArg NtpPkt.rootdispersion hnet
    dsimp only [networkOrder] at hrootdelay hrootdispersion
    rw [fillHalf, if_neg (by decide), if_pos rfl]
    simp only [serverHalfstamp, Exchange.stamp, Exchange.waiting, hrefid, hstratum, hleap,
      hrootdelay, hrootdispersion, hTb, hTe]
    rfl

/-- In any run that comes to the reply, the stamp of the exchange is delivered, with the times that
the server has read, as NTP carries them: if fewer halves come in between than the queue has room
for, and none that part the request from its reply. -/
theorem Exchange.delivered {scrub : Nat → Cell (StampT D) → Cell (StampT D)} (hkeeps : Keeps scrub)
    (runMode : RunMode) {arrivals : List (List NetPacket)} {before between after : List NetPacket}
    (harrivals : arrivals.flatten = before ++ e.request :: (between ++ e.reply :: after))
    (hv : ∀ p ∈ arrivals.flatten, getVcount host p.packet ≠ some 0)
    (hpassing : Passing (halvesOf host inetNtop (before ++ between)) (e.waiting inetNtop))
    (hroom : ((halvesOf host inetNtop between : List (Int × StampT D)).length : Int) <
      maxStqSize) :
    ∃ stamps left s,
      stampRun host inetNtop scrub runMode arrivals [] StampInput.init = some (stamps, left, s) ∧
      (left.length ≤ after.length → e.stamp inetNtop ∈ stamps) := by
  obtain ⟨stamps, left, s, ps, hrun, hsplit, hhalves⟩ :=
    stampRun_halves inetNtop hkeeps runMode arrivals hv
  refine ⟨stamps, left, s, hrun, fun hleft => ?_⟩
  -- What has been handled goes beyond the reply.
  have hprefix : before ++ e.request :: (between ++ [e.reply]) <+: ps := by
    have hreply : before ++ e.request :: (between ++ [e.reply]) <+: arrivals.flatten :=
      ⟨after, by rw [harrivals]; simp⟩
    refine List.prefix_of_prefix_length_le hreply ⟨left, hsplit.symm⟩ ?_
    have hlen := congrArg List.length (harrivals.symm.trans hsplit)
    simp only [List.length_append, List.length_cons, List.length_nil] at hlen ⊢
    omega
  obtain ⟨after', rfl⟩ := hprefix
  obtain ⟨c, hc, hcid, hwaiting⟩ := e.pushOf_request inetNtop
  obtain ⟨r, hr, hrid, hstamp⟩ := e.pushOf_reply inetNtop
  have hvalued : ∀ half ∈ (halvesOf host inetNtop (before ++ between) : List (Int × StampT D)),
      Valued half.1 half.2 := by
    intro half hhalf
    obtain ⟨p, hp, hpush⟩ := List.mem_filterMap.mp hhalf
    refine pushOf_valued (hv p ?_) hpush
    rw [harrivals]
    rcases List.mem_append.mp hp with hp | hp <;> simp [hp]
  have hreq : Valued modeClient c := pushOf_valued (hv e.request (by simp [harrivals])) hc
  rw [halvesOf_append] at hpassing hvalued
  rw [← hwaiting] at hpassing
  have hmeet := matchHalves_exchange (halvesOf host inetNtop after') (hrid.trans hcid.symm) hreq
    hpassing hvalued hroom
  have hlist : (halvesOf host inetNtop
      (before ++ e.request :: (between ++ [e.reply]) ++ after') : List (Int × StampT D)) =
        halvesOf host inetNtop before ++ (modeClient, c) :: (halvesOf host inetNtop between ++
          (modeServer, r) :: halvesOf host inetNtop after') := by
    simp only [halvesOf, List.filterMap_append, List.filterMap_cons, hc, hr, List.filterMap_nil]
    simp
  rw [hlist] at hhalves
  rw [hwaiting, hstamp, hhalves] at hmeet
  exact hmeet

end Exchange

/-! ## A request and its reply -/

/-- A frame with what has been sent behind its headers. -/
def sentFrame (sent : List UInt8) : NetPacket :=
  { ntpFrame 0 with
    packet :=
      { (ntpFrame 0).packet with payload := memcpy (ntpFrame 0).packet.payload 44 sent } }

theorem bytesAt_sentFrame (sent : List UInt8) {off n : Nat} (h : off + n ≤ 44) :
    bytesAt (sentFrame sent).packet.payload off n = bytesAt (ntpFrame 0).packet.payload off n :=
  bytesAt_memcpy_of_disjoint _ (.inl h)

/-- The headers are the ones of the frame that is not filled. -/
theorem getValidNtpPayload_sentFrame (sent : List UInt8) :
    getValidNtpPayload littleEndianHost 0 (sentFrame sent).packet =
      some ⟨44, some (.inet [0, 0, 0, 0]), some (.inet [0, 0, 0, 0]), some 64⟩ := by
  have hbyte : ∀ i < 44, (sentFrame sent).packet.payload i = (ntpFrame 0).packet.payload i :=
    fun i hi => memcpy_of_disjoint _ (.inl hi)
  have hcaplen : (sentFrame sent).packet.header.caplen.toNat = 92 := rfl
  have hhatype : sllHatype littleEndianHost (sentFrame sent).packet = 0x0001 := by
    rw [sllHatype, bytesAt_sentFrame sent (by decide)]
    decide
  have hproto : sllProtocol littleEndianHost (sentFrame sent).packet =
      NetProtocol.ipv4.ethertype := by
    rw [sllProtocol, bytesAt_sentFrame sent (by decide)]
    decide
  rw [getValidNtpPayload_eq_some_iff (by omega) (by omega) rfl hhatype hproto]
  constructor
  · rw [WellFormed, hcaplen, ipV, ipHl, hbyte 16 (by decide), hbyte (16 + 9) (by decide),
      bytesAt_sentFrame sent (by decide)]
    decide
  · rw [payloadOf, ipLen, ipHl, srcAddr, dstAddr, hopLimit, hbyte 16 (by decide),
      hbyte (16 + 8) (by decide), bytesAt_sentFrame sent (by decide),
      bytesAt_sentFrame sent (by decide)]
    decide

theorem captured_sentFrame {sent : List UInt8} (hlen : sent.length = LEN_PKT_NOMAC) :
    Captured littleEndianHost sent (sentFrame sent)
      ⟨44, some (.inet [0, 0, 0, 0]), some (.inet [0, 0, 0, 0]), some 64⟩ 1 where
  vcount_eq := by
    show getVcountFromSll littleEndianHost (sentFrame sent).packet = some 1
    rw [getVcountFromSll, bytesAt_sentFrame sent (by decide)]
    rfl
  payload_eq := getValidNtpPayload_sentFrame sent
  bytes_eq := bytesAt_memcpy _ 44 hlen
  foreign := by
    rintro ⟨payload, hp, hown⟩
    obtain rfl := Option.some.inj ((getValidNtpPayload_sentFrame sent).symm.trans hp)
    have hbad : badPacketClient (.inet [10, 0, 0, 1]) (.inet [0, 0, 0, 0]) = false := by decide
    rcases hown with ⟨-, hown⟩ | ⟨-, hown⟩
    · exact absurd (hbad.symm.trans hown) (by decide)
    · exact absurd (hbad.symm.trans hown) (by decide)

/-- The request of a little-endian client whose counter stands still. -/
def stillRequest : NtpPkt × Timeval := (createNtpRequest false ⟨0, 0⟩ stillView).2.get rfl

/-- It arrives at a server. -/
def stillArrival : Arrival Float :=
  { shortRequest with recv := some (storeNtpPkt false stillRequest.1 ++ []) }

/-- The reply of the server, which is big-endian. -/
def stillReply : NtpPkt :=
  Ntp.reply true (received (fun _ => 0) stillArrival) stillArrival.view 2000000000 2000000100

def stillExchange : Exchange Float littleEndianHost where
  bigClient := false
  lastXmt := ⟨0, 0⟩
  view := stillView
  spkt := stillRequest.1
  tv := stillRequest.2
  created := rfl
  bigServer := true
  pktIn _ := 0
  arrival := stillArrival
  trailer := []
  recv := rfl
  vcountRec := 2000000000
  vcountXmt := 2000000100
  readRec := rfl
  readXmt := rfl
  pktOut := stillReply
  served := rfl
  synchronised := by decide
  stratum := by decide
  request := sentFrame (storeNtpPkt false stillRequest.1)
  requestPayload := ⟨44, some (.inet [0, 0, 0, 0]), some (.inet [0, 0, 0, 0]), some 64⟩
  Ta := 1
  requestCaptured := captured_sentFrame length_storeNtpPkt
  reply := sentFrame (storeNtpPkt true stillReply)
  replyPayload := ⟨44, some (.inet [0, 0, 0, 0]), some (.inet [0, 0, 0, 0]), some 64⟩
  Tf := 1
  replyCaptured := captured_sentFrame length_storeNtpPkt

theorem delivered_stillExchange :
    ∃ stamps left s,
      stampRun littleEndianHost inetNtop4 (fun _ c => c) .live
        [[stillExchange.request, stillExchange.reply]] [] StampInput.init =
          some (stamps, left, s) ∧
      (left.length ≤ 0 → stillExchange.stamp inetNtop4 ∈ stamps) := by
  have hpassing : Passing (halvesOf littleEndianHost inetNtop4 ([] ++ []))
      (stillExchange.waiting inetNtop4) :=
    ⟨fun _ hhalf => absurd hhalf List.not_mem_nil, fun _ hhalf => absurd hhalf List.not_mem_nil⟩
  have harrivals : [[stillExchange.request, stillExchange.reply]].flatten =
      [] ++ stillExchange.request :: ([] ++ stillExchange.reply :: []) := rfl
  refine Exchange.delivered (fun _ _ => ⟨rfl, rfl⟩) .live harrivals ?_ hpassing (by decide)
  intro p hp
  simp only [List.flatten_cons, List.flatten_nil, List.append_nil, List.mem_cons,
    List.not_mem_nil, or_false] at hp
  rcases hp with rfl | rfl
  · rw [stillExchange.requestCaptured.vcount_eq]
    decide
  · rw [stillExchange.replyCaptured.vcount_eq]
    decide

end RADclock.Capture
