import RADclock.Lib.Rounding
import RADclock.Ntp.Server

/-!
# The NTP client (`client_ntp.c`)

A request carries the time of its transmission, which the reply is matched by. Where the clock reads
the same time twice, the second request carries the next timestamp; only the request before is
compared with. A grid point of a server is a few requests, each but the last followed by a wait of
the timeout of the socket.

- `createNtpRequest`, `retryLoop`, `ntpClient`: the code.
- `xmts_nodup`: the runs whose transmit timestamps are distinct.
- `ntpClient_timeout`: the timeout after a call, and the waits that fit into the period.
-/

namespace RADclock.Ntp

open Lib Float.Model

/-! ## The code -/

/-- The capacity of the stamp queue. -/
def MAX_STQ_SIZE : Nat := 20

def NTP_MINPOLL : UInt8 := 4

/-- `FP_SECOND` -/
def fpSecond : UInt32 := 0x10000

variable {D : Type} [Arith D]

/-- What `create_ntp_request` reads: the preferred clock, its server, and the counter, where the
reading succeeds. -/
structure RequestView (D : Type) where
  radData : RadclockData D
  stratum : UInt32
  sTo : UInt32
  vcount : Option VCounter

/-- The timestamp that follows. -/
def advance (xmt : LFp) : LFp :=
  let lFra := xmt.lFra + 1
  -- if overflowed, advance second
  ⟨if lFra = 0 then xmt.lInt + 1 else xmt.lInt, lFra⟩

/-- `create_ntp_request`, from the timestamp it made last. -/
def createNtpRequest (big : Bool) (lastXmt : LFp) (view : RequestView D) :
    LFp × Option (NtpPkt × Timeval) :=
  match view.vcount with
  | none => (lastXmt, none)
  | some vcount =>
    let time := readRADabsUTC view.radData vcount plocalActive
    let xmt := utcldToNtptime time
    let xmt := if xmt = lastXmt then advance xmt else xmt
    let reftime := readRADabsUTC view.radData view.radData.lastChanged plocalActive
    let pkt : NtpPkt :=
      { liVnMode := pktLiVnMode LEAP_NOTINSYNC NTP_VERSION MODE_CLIENT
        stratum := (view.stratum + 1).toUInt8
        ppoll := NTP_MINPOLL
        precision := -6
        rootdelay := htonl big fpSecond
        rootdispersion := htonl big fpSecond
        refid := view.sTo
        reftime := (utcldToNtptime reftime).hton big
        org := ⟨0, 0⟩
        recTs := ⟨0, 0⟩
        xmt := xmt.hton big }
    (xmt, some (pkt, utcldToTimeval time))

/-- The transmit timestamps of the requests that calls one after the other create. -/
def xmts (big : Bool) (lastXmt : LFp) (calls : List (RequestView D)) : List LFp :=
  (runOut (createNtpRequest big) lastXmt calls).2.filterMap fun out => out.map fun req => req.1.xmt

/-! ## Distinct timestamps -/

/-- A timestamp in its units. -/
def LFp.toNat (ts : LFp) : Nat := ts.lInt.toNat * 2 ^ 32 + ts.lFra.toNat

/-- The reading, if there is one, is past the timestamp made last, or equal to it and not the last
one of the era. -/
def Past (lastXmt : LFp) (view : RequestView D) : Prop :=
  ∀ vcount ∈ view.vcount,
    let xmt := utcldToNtptime (readRADabsUTC view.radData vcount plocalActive)
    lastXmt.toNat < xmt.toNat ∨ lastXmt = xmt ∧ lastXmt.toNat + 1 < 2 ^ 64

instance (lastXmt : LFp) (view : RequestView D) : Decidable (Past lastXmt view) :=
  Option.decidableForallMem view.vcount

section

variable {big : Bool} {lastXmt : LFp} {view : RequestView D} {calls : List (RequestView D)}

theorem toNat_advance {xmt : LFp} (h : xmt.toNat + 1 < 2 ^ 64) :
    (advance xmt).toNat = xmt.toNat + 1 := by
  have hint := xmt.lInt.toNat_lt
  have hfra := xmt.lFra.toNat_lt
  unfold advance LFp.toNat at *
  by_cases hzero : xmt.lFra + 1 = 0
  · have hcarry : (xmt.lFra.toNat + 1) % 2 ^ 32 = 0 := by
      rw [← UInt32.toNat_inj, UInt32.toNat_add] at hzero
      exact hzero
    simp only [hzero, if_true, UInt32.toNat_add, UInt32.toNat_one, UInt32.toNat_zero]
    omega
  · have hne : (xmt.lFra.toNat + 1) % 2 ^ 32 ≠ 0 := by
      rw [← UInt32.toNat_inj, UInt32.toNat_add] at hzero
      exact hzero
    simp only [hzero, if_false, UInt32.toNat_add, UInt32.toNat_one]
    omega

/-- A call that creates a request writes the timestamp it goes on from. -/
theorem createNtpRequest_some {vcount : VCounter} (h : view.vcount = some vcount) :
    ∃ pkt tv, (createNtpRequest big lastXmt view).2 = some (pkt, tv) ∧
      pkt.xmt = (createNtpRequest big lastXmt view).1.hton big := by
  unfold createNtpRequest
  rw [h]
  exact ⟨_, _, rfl, rfl⟩

theorem createNtpRequest_none (h : view.vcount = none) :
    createNtpRequest big lastXmt view = (lastXmt, none) := by
  unfold createNtpRequest
  rw [h]

theorem xmts_cons_of_none (h : view.vcount = none) :
    xmts big lastXmt (view :: calls) = xmts big lastXmt calls := by
  simp only [xmts, runOut, createNtpRequest_none h, List.filterMap_cons, Option.map_none]

theorem xmts_cons_of_some {vcount : VCounter} (h : view.vcount = some vcount) :
    xmts big lastXmt (view :: calls) = (createNtpRequest big lastXmt view).1.hton big ::
      xmts big (createNtpRequest big lastXmt view).1 calls := by
  obtain ⟨pkt, tv, hout, hxmt⟩ := @createNtpRequest_some D _ big lastXmt view vcount h
  simp only [xmts, runOut, hout, List.filterMap_cons, Option.map_some, hxmt]

/-- A step from a reading that is past goes up. -/
theorem Past.toNat_lt {vcount : VCounter} (hpast : Past lastXmt view)
    (h : view.vcount = some vcount) :
    lastXmt.toNat < (createNtpRequest big lastXmt view).1.toNat := by
  unfold createNtpRequest
  simp only [h]
  rcases hpast vcount h with hlt | ⟨heq, hroom⟩
  · rwa [if_neg (by rintro rfl; exact Nat.lt_irrefl _ hlt)]
  · rw [if_pos heq.symm, ← heq, toNat_advance hroom]
    exact Nat.lt_succ_self _

/-- All timestamps of a run are past the one before it, in order. -/
theorem xmts_increase : ∀ {lastXmt : LFp} (calls : List (RequestView D)),
    StepsMeet Past (fun s a => (createNtpRequest big s a).1) lastXmt calls →
      ((xmts big lastXmt calls).map (·.hton big)).Pairwise (fun x y => x.toNat < y.toNat) ∧
        ∀ x ∈ xmts big lastXmt calls, lastXmt.toNat < (x.hton big).toNat := by
  intro lastXmt calls
  induction calls generalizing lastXmt with
  | nil => exact fun _ => ⟨.nil, fun x hx => nomatch hx⟩
  | cons view calls ih =>
    rintro ⟨hpast, hmeet⟩
    obtain ⟨hpair, hlow⟩ := ih hmeet
    dsimp only at hpair hlow
    cases hvcount : view.vcount with
    | none =>
      rw [createNtpRequest_none hvcount] at hpair hlow
      rw [xmts_cons_of_none hvcount]
      exact ⟨hpair, hlow⟩
    | some vcount =>
      have hstep : lastXmt.toNat < (createNtpRequest big lastXmt view).1.toNat :=
        hpast.toNat_lt hvcount
      rw [xmts_cons_of_some hvcount]
      refine ⟨List.pairwise_cons.mpr ⟨?_, hpair⟩, ?_⟩
      · intro y hy
        obtain ⟨x, hx, rfl⟩ := List.mem_map.mp hy
        show (LFp.hton big (LFp.hton big _)).toNat < _
        rw [hton_hton]
        exact hlow x hx
      · intro x hx
        rcases List.mem_cons.mp hx with rfl | hx
        · rwa [hton_hton]
        · exact hstep.trans (hlow x hx)

end

/-- Where every reading is past the timestamp made last, no timestamp is made twice. -/
theorem xmts_nodup (big : Bool) (calls : List (RequestView D))
    (h : StepsMeet Past (fun s a => (createNtpRequest big s a).1) ⟨0, 0⟩ calls) (k : Nat) :
    (((xmts big ⟨0, 0⟩ calls).drop k).take MAX_STQ_SIZE).Nodup := by
  have hpair := (xmts_increase calls h).1
  have hnodup : (xmts big ⟨0, 0⟩ calls).Nodup := by
    refine List.Nodup.of_map (LFp.hton big) (hpair.imp ?_)
    rintro x _ hlt rfl
    exact Nat.lt_irrefl _ hlt
  exact hnodup.sublist ((List.take_sublist _ _).trans (List.drop_sublist _ _))

/-- A counter that stands still at one second. -/
def stillView : RequestView Float where
  radData := ⟨0.0, 0.0, 1.0, 0, 0, 0, 0, 0⟩
  stratum := 1
  sTo := 0
  vcount := some 1000

/-- It gives two requests their timestamps. -/
theorem xmts_nodup_twice :
    (((xmts true ⟨0, 0⟩ [stillView, stillView]).drop 0).take MAX_STQ_SIZE).Nodup :=
  xmts_nodup true [stillView, stillView] (by decide +kernel) 0

/-- Of three equal readings the third is not past the second, and repeats the first. -/
theorem xmts_thrice (big : Bool) {view : RequestView D} {vcount : VCounter}
    (h : view.vcount = some vcount)
    (hne : utcldToNtptime (readRADabsUTC view.radData vcount plocalActive) ≠ ⟨0, 0⟩) :
    ∃ x y, xmts big ⟨0, 0⟩ [view, view, view] = [x, y, x] := by
  generalize hread : utcldToNtptime (readRADabsUTC view.radData vcount plocalActive) = xmt at hne
  have hstep : ∀ lastXmt, (createNtpRequest big lastXmt view).1 =
      if xmt = lastXmt then advance xmt else xmt := by
    intro lastXmt
    unfold createNtpRequest
    rw [h, ← hread]
  have hadvance : xmt ≠ advance xmt := by
    intro heq
    have hfra := congrArg (fun ts => ts.lFra.toNat) heq
    simp only [advance, UInt32.toNat_add, UInt32.toNat_one] at hfra
    have := xmt.lFra.toNat_lt
    omega
  refine ⟨xmt.hton big, (advance xmt).hton big, ?_⟩
  rw [xmts_cons_of_some h, xmts_cons_of_some h, xmts_cons_of_some h, hstep, if_neg hne, hstep,
    if_pos rfl, hstep, if_neg hadvance]
  rfl

theorem not_xmts_nodup : ¬ ∀ (big : Bool) (calls : List (RequestView Float)),
    (calls.filterMap (·.vcount)).Pairwise (· ≤ ·) →
      ∀ k, (((xmts big ⟨0, 0⟩ calls).drop k).take MAX_STQ_SIZE).Nodup := by
  intro h
  obtain ⟨x, y, hxmts⟩ := @xmts_thrice Float _ true stillView _ rfl (by decide +kernel)
  have hnodup := h true [stillView, stillView, stillView] (by decide) 0
  rw [hxmts] at hnodup
  simp [MAX_STQ_SIZE] at hnodup

/-! ## The code of a grid point -/

/-- The units are microseconds. -/
def NTP_MIN_SO_TIMEOUT : Nat := 5000

def BURST_DELAY : Nat := 2

/-- `unmatched_ntp_pair`, of the timestamps that are compared. -/
def unmatchedNtpPair (xmt org : LFp) : Bool := xmt ≠ org

/-- What an attempt meets: whether `sendto` succeeds, and the origin timestamp in the buffer if the
blocking `recvfrom` receives something. -/
structure Attempt (D : Type) where
  request : RequestView D
  sendto : Bool
  org : Option LFp

/-- What the retries of a grid point leave: the timestamp made last, the requests that were sent,
the blocking waits, and the value to return if not zero. -/
structure Retries where
  lastXmt : LFp
  sent : List NtpPkt
  waits : Nat
  ret : Nat

/-- The retry loop, which has not ended if there is no attempt left. -/
def retryLoop (big : Bool) : LFp → Nat → List (Attempt D) → Option Retries
  | lastXmt, 0, _ => some ⟨lastXmt, [], 0, 0⟩
  | _, _ + 1, [] => none
  | lastXmt, retry + 1, a :: attempts =>
    match createNtpRequest big lastXmt a.request with
    -- retry never decremented
    | (lastXmt, none) => retryLoop big lastXmt (retry + 1) attempts
    | (lastXmt, some (spkt, _)) =>
      if ¬ a.sendto then some ⟨lastXmt, [], 0, 1⟩
      else if 1 < retry + 1 ∧ a.org.any (! unmatchedNtpPair spkt.xmt ·) then
        some ⟨lastXmt, [spkt], 1, 0⟩
      else
        (retryLoop big lastXmt retry attempts).map fun r =>
          { r with
            sent := spkt :: r.sent
            waits := r.waits + if 1 < retry + 1 then 1 else 0 }

/-- What persists of a server between its grid points, and the timestamp that all servers share. -/
structure ClientState (D : Type) where
  lastXmt : LFp
  burst : Int
  ntpclientPeriod : D
  ntpclientTimeout : D

/-- What a grid point reads of the daemon. -/
structure GridView (D : Type) where
  pollPeriod : Int
  nservers : Int
  minRTT : D
  /-- `state->stamp_i`, if there is `algodata`. -/
  stampI : Option UInt64

/-- The period that the timers use. -/
def adjustedPeriod (burst : Int) (pollPeriod : D) : D :=
  if 0 < burst then Arith.cmin (Arith.ofNat BURST_DELAY) pollPeriod
  else
    let starveRatio : D := 1.0
    pollPeriod / starveRatio

/-- The number of attempts. -/
def maxattempts (adjustedPeriod gridgap timeout : D) : Nat :=
  if adjustedPeriod < Arith.ofNat 4 ∨ gridgap < Arith.ofNat 3 then 1
  -- -1 provides a buffer
  else if adjustedPeriod / timeout - Arith.ofNat 1 < Arith.ofNat 3 then
    max 1 (Arith.toNat (adjustedPeriod / timeout) - 1)
  else 3

/-- The timeout that the round trip times ask for. -/
def newtimeout (minRTT adjustedPeriod : D) : D :=
  let newtimeout := Arith.cmin (Arith.ofNat 1) (Arith.ofNat 2 * minRTT)
  let newtimeout :=
    if newtimeout * 1e6 < Arith.ofNat NTP_MIN_SO_TIMEOUT then Arith.ofNat NTP_MIN_SO_TIMEOUT * 1e-6
    else newtimeout
  if adjustedPeriod * 0.7 < newtimeout then adjustedPeriod * 0.7 else newtimeout

/-- `ntp_client`, once the server of the grid point is known. -/
def ntpClient (big : Bool) (st : ClientState D) (view : GridView D) (attempts : List (Attempt D)) :
    Option (ClientState D × Retries) :=
  let pollPeriod : D := Arith.ofInt view.pollPeriod
  -- in single precision, which does not change how it compares with 3
  let gridgap := pollPeriod / Arith.ofInt view.nservers
  let period := adjustedPeriod st.burst pollPeriod
  let attemptsMax := maxattempts period gridgap st.ntpclientTimeout
  (retryLoop big st.lastXmt attemptsMax attempts).map fun r =>
    let burst :=
      if 0 < st.burst then
        -- since next firing locked in
        if st.burst - 1 = 1 then 0 else st.burst - 1
      else st.burst
    let timeout :=
      -- the index is unsigned
      if r.ret = 0 ∧ 1 < attemptsMax ∧ view.stampI.any fun i => decide (-1 < i) then
        let newtimeout := newtimeout view.minRTT period
        if 4e-3 < Arith.fabs (newtimeout - st.ntpclientTimeout) then newtimeout
        else st.ntpclientTimeout
      else st.ntpclientTimeout
    ({ lastXmt := r.lastXmt
       burst := burst
       ntpclientPeriod := if period == st.ntpclientPeriod then st.ntpclientPeriod else period
       ntpclientTimeout := timeout }, r)

/-! ## Attempts and waits -/

/-- The number that a float stands for. -/
def secs (x : Float) : ℚ := value x.toModel.unpack

/-- The timeout is within 4 ms of what the round trip times and the period ask for. -/
def Calibrated (timeout minRTT adjustedPeriod : Float) : Prop :=
  |secs timeout - min (max (min 1 (2 * secs minRTT)) (NTP_MIN_SO_TIMEOUT / 10 ^ 6))
    (7 / 10 * secs adjustedPeriod)| ≤ 4 / 1000

theorem rep_secs {x : Float} (h : secs x ≠ 0) : Rep x (secs x) := by
  refine ⟨?_, rfl⟩
  unfold secs at h
  cases hu : x.toModel.unpack with
  | notANumber =>
    rw [hu] at h
    exact absurd rfl h
  | infinity s =>
    rw [hu] at h
    exact absurd rfl h
  | zero s => rfl
  | finite s m e hm => rfl

section

variable {p gridgap t : Float}

/-- A period of two timeouts leaves no room for a retry. -/
theorem maxattempts_eq_one (hp : 0 < secs p) (ht : 0 < secs t) (h : secs p ≤ 2 * secs t) :
    maxattempts p gridgap t = 1 := by
  have hquot : 0 ≤ secs p / secs t := (div_pos hp ht).le
  have htwo : secs p / secs t ≤ 2 := (div_le_iff₀ ht).mpr h
  obtain ⟨q, hq, hnear⟩ := (rep_secs hp.ne').div (rep_secs ht.ne') ht.ne'
    (abs_le_top (by rw [abs_of_nonneg hquot]; exact htwo.trans (by norm_num)))
  have h0 : 0 ≤ q := by
    have hle := hnear.ge_of_ge (onGrid_natCast (n := 0) (by norm_num)) (by exact_mod_cast hquot)
    exact_mod_cast hle
  have h2 : q ≤ 2 := by
    have hle := hnear.le_of_le (onGrid_natCast (n := 2) (by norm_num)) (by exact_mod_cast htwo)
    exact_mod_cast hle
  have htrunc : (p / t).toUInt64.toNat ≤ 2 := by
    rw [hq.toUInt64 h0 (h2.trans_lt (by norm_num))]
    exact Nat.floor_le_of_le h2
  have hone : max 1 ((p / t).toUInt64.toNat - 1) = 1 := by omega
  have hbuffer : p / t - Arith.ofNat 1 < (Arith.ofNat 3 : Float) := by
    obtain ⟨d, hd, hnear⟩ := hq.sub (Rep.ofNat (n := 1) (by norm_num))
      (abs_le_top (by rw [abs_le]; constructor <;> push_cast <;> linarith))
    have h1 : d ≤ ((1 : ℕ) : ℚ) :=
      hnear.le_of_le (onGrid_natCast (by norm_num)) (by push_cast; linarith)
    refine (hd.lt_iff (Rep.ofNat (n := 3) (by norm_num))).mpr (h1.trans_lt (by norm_num))
  unfold maxattempts
  split_ifs
  · rfl
  · exact hone

theorem maxattempts_le (hp : 0 < secs p) (ht : 0 < secs t) : maxattempts p gridgap t ≤ 3 := by
  have hquot : 0 ≤ secs p / secs t := (div_pos hp ht).le
  have hround : RoundsTo (secs p / secs t)
      (UnpackedFloat.div Format.binary64 p.toModel.unpack t.toModel.unpack) :=
    div_roundsTo (canonical_unpack _) (rep_secs hp.ne').finite (canonical_unpack _)
      (rep_secs ht.ne').finite ht.ne'
  have hone : Rep (Arith.ofNat 1 : Float) (1 : ℕ) := Rep.ofNat (by norm_num)
  have hthree : Rep (Arith.ofNat 3 : Float) (3 : ℕ) := Rep.ofNat (by norm_num)
  have htrunc : p / t - Arith.ofNat 1 < (Arith.ofNat 3 : Float) → (p / t).toUInt64.toNat ≤ 4 := by
    intro hbuffer
    rcases hround.rep_or_infinity hquot with ⟨q, hq, hnear⟩ | hinf
    · have hq : Rep (p / t) q := hq
      have h0 : 0 ≤ q := by
        have hle := hnear.ge_of_ge (onGrid_natCast (n := 0) (by norm_num)) (by exact_mod_cast hquot)
        exact_mod_cast hle
      have h4 : q ≤ 4 := by
        by_contra hlt
        have hsub := sub_roundsTo (canonical_unpack _) hq.finite (canonical_unpack _) hone.finite
        rw [hq.value, hone.value] at hsub
        exact hsub.not_lt_of_le hthree (by norm_num) (by push_cast; linarith) hbuffer
      rw [hq.toUInt64 h0 (h4.trans_lt (by norm_num))]
      exact Nat.floor_le_of_le h4
    · exact absurd hbuffer (not_lt_of_infinity (infinity_sub hinf hone.finite) _)
  unfold maxattempts
  split_ifs with hdense hbuffer
  · decide
  · have htrunc := htrunc hbuffer
    show max 1 ((p / t).toUInt64.toNat - 1) ≤ 3
    omega
  · decide

/-- The waits that are left after the first attempt end before the period does. -/
theorem maxattempts_mul_lt (hp : 0 < secs p) :
    ((maxattempts p gridgap t - 1 : ℕ) : ℚ) * secs t < secs p := by
  rcases le_or_gt (secs t) 0 with ht | ht
  · exact (mul_nonpos_of_nonneg_of_nonpos (Nat.cast_nonneg _) ht).trans_lt hp
  · rcases le_or_gt (secs p) (2 * secs t) with h | h
    · rw [maxattempts_eq_one hp ht h]
      simpa using hp
    · have hle : ((maxattempts p gridgap t - 1 : ℕ) : ℚ) ≤ 2 := by
        have hmax : maxattempts p gridgap t ≤ 3 := maxattempts_le hp ht
        exact_mod_cast (show maxattempts p gridgap t - 1 ≤ 2 by omega)
      exact (mul_le_mul_of_nonneg_right hle ht.le).trans_lt h

end

/-- A wait follows every attempt but the last. -/
theorem retryLoop_waits (big : Bool) (attempts : List (Attempt D)) :
    ∀ {lastXmt : LFp} {retry : Nat} {r : Retries},
      retryLoop big lastXmt retry attempts = some r → r.waits ≤ retry - 1 := by
  induction attempts with
  | nil =>
    intro lastXmt retry r h
    cases retry with
    | zero =>
      cases h
      exact le_rfl
    | succ retry => cases h
  | cons a attempts ih =>
    intro lastXmt retry r h
    cases retry with
    | zero =>
      cases h
      exact le_rfl
    | succ retry =>
      rw [retryLoop] at h
      split at h
      · exact ih h
      · split at h
        · cases h
          exact Nat.zero_le _
        · split at h
          · rename_i hwait
            cases h
            show 1 ≤ retry + 1 - 1
            omega
          · obtain ⟨r', hr', rfl⟩ := Option.map_eq_some_iff.mp h
            have hle := ih hr'
            show (r'.waits + if 1 < retry + 1 then 1 else 0) ≤ retry + 1 - 1
            split_ifs with hretry <;> omega

/-- An index is never past the largest one. -/
theorem any_index (stampI : Option UInt64) : (stampI.any fun i => decide (-1 < i)) = false := by
  cases stampI with
  | none => rfl
  | some i =>
    have hle : ¬ (-1 : UInt64) < i := by
      rw [UInt64.lt_iff_toNat_lt]
      have := i.toNat_lt
      have hmax : (-1 : UInt64).toNat = 2 ^ 64 - 1 := rfl
      omega
    exact decide_eq_false hle

/-- A call leaves the timeout as it is, and its waits are those of the retries. -/
theorem ntpClient_spec {big : Bool} {st st' : ClientState D} {view : GridView D}
    {attempts : List (Attempt D)} {r : Retries}
    (h : ntpClient big st view attempts = some (st', r)) :
    st'.ntpclientTimeout = st.ntpclientTimeout ∧
      r.waits ≤ maxattempts (adjustedPeriod st.burst (Arith.ofInt view.pollPeriod))
        (Arith.ofInt view.pollPeriod / Arith.ofInt view.nservers) st.ntpclientTimeout - 1 := by
  unfold ntpClient at h
  simp only [any_index, Bool.false_eq_true, and_false, if_false] at h
  obtain ⟨r', hr', heq⟩ := Option.map_eq_some_iff.mp h
  cases heq
  exact ⟨rfl, retryLoop_waits big attempts hr'⟩

/-- The timeout is never adjusted: it is what the round trip times ask for after a call
exactly if it
was before. The waits of a call end before the period does, and so do those of every choice of the
number of attempts. -/
theorem ntpClient_timeout (big : Bool) (st st' : ClientState Float) (view : GridView Float)
    (attempts : List (Attempt Float)) (r : Retries)
    (h : ntpClient big st view attempts = some (st', r)) :
    let period := adjustedPeriod st.burst (Arith.ofInt view.pollPeriod)
    let gridgap := Arith.ofInt view.pollPeriod / Arith.ofInt view.nservers
    (1 < maxattempts period gridgap st.ntpclientTimeout → (∃ i ∈ view.stampI, i ≠ -1) →
      (Calibrated st'.ntpclientTimeout view.minRTT period ↔
        Calibrated st.ntpclientTimeout view.minRTT period)) ∧
    (0 < secs period → r.waits * secs st.ntpclientTimeout < secs period) ∧
    ∀ p gridgap t : Float, 0 < secs p →
      ((maxattempts p gridgap t - 1 : ℕ) : ℚ) * secs t < secs p := by
  refine ⟨fun _ _ => ?_, fun hp => ?_, fun p gridgap t hp => maxattempts_mul_lt hp⟩
  · rw [(ntpClient_spec h).1]
  · rcases le_or_gt (secs st.ntpclientTimeout) 0 with ht | ht
    · exact (mul_nonpos_of_nonneg_of_nonpos (Nat.cast_nonneg _) ht).trans_lt hp
    · have hle := (Nat.cast_le (α := ℚ)).mpr (ntpClient_spec h).2
      exact (mul_le_mul_of_nonneg_right hle ht.le).trans_lt (maxattempts_mul_lt hp)

/-- The timeout that the socket is given at first. -/
def initialState : ClientState Float where
  lastXmt := ⟨0, 0⟩
  burst := 0
  ntpclientPeriod := 16.0
  ntpclientTimeout := 0.0 + 1e-6 * 900000.0

/-- A server at a distance of 10 ms, polled every 16 seconds. -/
def nearServer : GridView Float where
  pollPeriod := 16
  nservers := 1
  minRTT := 0.01
  stampI := some 100

/-- Three requests that are not answered. -/
def lostAttempts : List (Attempt Float) := List.replicate 3 ⟨stillView, true, none⟩

/-- The period of its grid points. -/
def nearPeriod : Float := adjustedPeriod initialState.burst (Arith.ofInt nearServer.pollPeriod)

theorem initial_maxattempts : 1 < maxattempts nearPeriod
    (Arith.ofInt nearServer.pollPeriod / Arith.ofInt nearServer.nservers)
    initialState.ntpclientTimeout := by decide

theorem secs_nearPeriod : secs nearPeriod = 16 := by
  have hbits : nearPeriod = Float.ofBits 0x4030000000000000 := by decide
  rw [hbits]
  show ((2 ^ 52 : ℕ) : ℚ) * 2 ^ (-48 : ℤ) = 16
  norm_num

theorem exists_call : ∃ st' r,
    ntpClient true initialState nearServer lostAttempts = some (st', r) := by
  have hsome : (ntpClient true initialState nearServer lostAttempts).isSome = true := by
    decide
  obtain ⟨⟨st', r⟩, h⟩ := Option.isSome_iff_exists.mp hsome
  exact ⟨st', r, h⟩

theorem ntpClient_timeout_lost :
    ∃ st' r, ntpClient true initialState nearServer lostAttempts = some (st', r) ∧
      (Calibrated st'.ntpclientTimeout nearServer.minRTT nearPeriod ↔
        Calibrated initialState.ntpclientTimeout nearServer.minRTT nearPeriod) ∧
      r.waits * secs initialState.ntpclientTimeout < secs nearPeriod := by
  obtain ⟨st', r, h⟩ := exists_call
  have hcall := ntpClient_timeout _ _ _ _ _ _ h
  have hpos : 0 < secs nearPeriod := by
    rw [secs_nearPeriod]
    norm_num
  exact ⟨st', r, h, hcall.1 initial_maxattempts ⟨100, rfl, by decide⟩, hcall.2.1 hpos⟩

/-- The timeout stays at 900 ms, though 20 ms are asked for. -/
theorem not_ntpClient_timeout : ¬ ∀ (big : Bool) (st st' : ClientState Float)
    (view : GridView Float) (attempts : List (Attempt Float)) (r : Retries),
    ntpClient big st view attempts = some (st', r) →
      let period := adjustedPeriod st.burst (Arith.ofInt view.pollPeriod)
      let gridgap := Arith.ofInt view.pollPeriod / Arith.ofInt view.nservers
      1 < maxattempts period gridgap st.ntpclientTimeout → (∃ i ∈ view.stampI, i ≠ -1) →
        Calibrated st'.ntpclientTimeout view.minRTT period := by
  intro h
  obtain ⟨st', r, hcall⟩ := exists_call
  have hcal : Calibrated st'.ntpclientTimeout nearServer.minRTT nearPeriod :=
    h _ _ _ _ _ _ hcall initial_maxattempts ⟨100, rfl, by decide⟩
  have htimeout : secs initialState.ntpclientTimeout =
      ((8106479329266892 : ℕ) : ℚ) * 2 ^ (-53 : ℤ) := by
    have hbits : initialState.ntpclientTimeout = Float.ofBits 0x3FECCCCCCCCCCCCC := by
      decide
    rw [hbits]
    rfl
  have hminRTT : secs nearServer.minRTT = ((5764607523034235 : ℕ) : ℚ) * 2 ^ (-59 : ℤ) := by
    have hbits : nearServer.minRTT = Float.ofBits 0x3F847AE147AE147B := by decide
    rw [hbits]
    rfl
  rw [(ntpClient_spec hcall).1] at hcal
  unfold Calibrated NTP_MIN_SO_TIMEOUT at hcal
  rw [htimeout, hminRTT, secs_nearPeriod] at hcal
  norm_num [abs_le] at hcal

end RADclock.Ntp
