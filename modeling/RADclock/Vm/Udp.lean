import RADclock.Lib.Layout
import RADclock.Lib.Runs

/-!
# Clock data over UDP (`virtual_machine.c`, `radclock_daemon.h`)

A master sends its clock data to the guests on its host, on its own account
(`push_data_vm_udp`) and on request (`thread_vm_udp_server`); a guest takes what it receives
with `receive_vm_udp`. Both sides are compiled for the same machine, so a structure is sent as
the bytes it has in memory: offsets and sizes are those of x86-64, with `long double` of 10
bytes in 16. Doubles are kept as their bits.

- `Master`: the data with the two buffers of the server thread, which live on its stack and
  are never initialised.
- `receiveVmUdp`: what a guest does with one datagram.
- `Delivers`: the message brings its sender's data to any guest.
-/

namespace RADclock

open Lib

/-- `struct radclock_data`. -/
structure RadclockData where
  phat : UInt64
  phatErr : UInt64
  phatLocal : UInt64
  phatLocalErr : UInt64
  ca : BitVec 80
  caErr : UInt64
  status : UInt32
  lastChanged : UInt64
  nextExpected : UInt64
  leapsecExpected : UInt64
  leapsecTotal : UInt32
  leapsecNext : UInt32
deriving DecidableEq

/-- `struct radclock_error`. -/
structure RadclockError where
  errorBound : UInt64
  errorBoundAvg : UInt64
  errorBoundStd : UInt64
  minRTT : UInt64
deriving DecidableEq

/-- The bytes of a `radclock_data` that belong to no field: after `ca` and after `status`. -/
structure Gaps where
  ca : BitVec 48
  status : UInt32
deriving DecidableEq

def RadclockData.fields (d : RadclockData) (gaps : Gaps) : List (Nat × Nat) :=
  [(8, d.phat.toNat), (8, d.phatErr.toNat), (8, d.phatLocal.toNat), (8, d.phatLocalErr.toNat),
    (10, d.ca.toNat), (6, gaps.ca.toNat), (8, d.caErr.toNat), (4, d.status.toNat),
    (4, gaps.status.toNat), (8, d.lastChanged.toNat), (8, d.nextExpected.toNat),
    (8, d.leapsecExpected.toNat), (4, d.leapsecTotal.toNat), (4, d.leapsecNext.toNat)]

def RadclockData.widths : List Nat := [8, 8, 8, 8, 10, 6, 8, 4, 4, 8, 8, 8, 4, 4]

def RadclockData.bytes (d : RadclockData) (gaps : Gaps) : List UInt8 := packed (d.fields gaps)

/-- The fields of a `radclock_data` in memory. -/
def RadclockData.ofBytes (bs : List UInt8) : RadclockData :=
  let word := (unpacked RadclockData.widths bs).getD
  { phat := .ofNat (word 0 0), phatErr := .ofNat (word 1 0), phatLocal := .ofNat (word 2 0),
    phatLocalErr := .ofNat (word 3 0), ca := .ofNat 80 (word 4 0), caErr := .ofNat (word 6 0),
    status := .ofNat (word 7 0), lastChanged := .ofNat (word 9 0),
    nextExpected := .ofNat (word 10 0), leapsecExpected := .ofNat (word 11 0),
    leapsecTotal := .ofNat (word 12 0), leapsecNext := .ofNat (word 13 0) }

def RadclockError.bytes (e : RadclockError) : List UInt8 :=
  packed [(8, e.errorBound.toNat), (8, e.errorBoundAvg.toNat), (8, e.errorBoundStd.toNat),
    (8, e.minRTT.toNat)]

@[simp] theorem RadclockData.length_bytes (d : RadclockData) (gaps : Gaps) :
    (d.bytes gaps).length = 96 := by
  simp [RadclockData.bytes, RadclockData.fields]

@[simp] theorem RadclockError.length_bytes (e : RadclockError) : e.bytes.length = 32 := by
  simp [RadclockError.bytes]

/-- Reading back what was stored, whatever follows it in memory. -/
theorem RadclockData.ofBytes_bytes (d : RadclockData) (gaps : Gaps) (rest : List UInt8) :
    RadclockData.ofBytes (d.bytes gaps ++ rest) = d := by
  have hfields := unpacked_packed (d.fields gaps) rest
  have hwidths : (d.fields gaps).map Prod.fst = RadclockData.widths := rfl
  rw [hwidths] at hfields
  unfold RadclockData.ofBytes RadclockData.bytes
  rw [hfields]
  have hca : BitVec.ofNat 80 (d.ca.toNat % 256 ^ 10) = d.ca := by
    rw [Nat.mod_eq_of_lt (by have := d.ca.isLt; omega), BitVec.ofNat_toNat, BitVec.setWidth_eq]
  simp only [Nat.reducePow] at hca
  simp [RadclockData.fields, hca]

def VM_MAGIC_NUMBER : UInt32 := 31051978
def VM_REQ_RAD_DATA : UInt32 := 1
def VM_REQ_RAD_ERROR : UInt32 := 2

/-- `struct vm_reply`, with the four bytes before the union and the bytes of the union. -/
structure VmReply where
  magicNumber : UInt32
  version : UInt32
  replyType : UInt32
  gap : UInt32
  body : List UInt8
  size : body.length = 96

def sizeofVmReply : Nat := 112
def sizeofVmRequest : Nat := 12

def VmReply.bytes (r : VmReply) : List UInt8 :=
  packed [(4, r.magicNumber.toNat), (4, r.version.toNat), (4, r.replyType.toNat),
    (4, r.gap.toNat)] ++ r.body

/-- A member at the front of a structure, as its `i`-th `unsigned int`. -/
def word (bs : List UInt8) (i : Nat) : UInt32 := .ofNat ((unpacked [4, 4, 4, 4] bs).getD i 0)

/-- The union of a `vm_reply` in memory, as clock data. -/
def replyData (bs : List UInt8) : RadclockData := .ofBytes (bs.drop 16)

@[simp] theorem VmReply.length_bytes (r : VmReply) : r.bytes.length = sizeofVmReply := by
  simp [VmReply.bytes, sizeofVmReply, r.size]

theorem VmReply.unpacked_bytes (r : VmReply) : unpacked [4, 4, 4, 4] r.bytes =
    [r.magicNumber.toNat, r.version.toNat, r.replyType.toNat, r.gap.toNat] := by
  have h := unpacked_packed [(4, r.magicNumber.toNat), (4, r.version.toNat), (4, r.replyType.toNat),
    (4, r.gap.toNat)] r.body
  refine h.trans ?_
  simp

theorem VmReply.magic_bytes (r : VmReply) : word r.bytes 0 = r.magicNumber := by
  simp [word, r.unpacked_bytes]

theorem VmReply.type_bytes (r : VmReply) : word r.bytes 2 = r.replyType := by
  simp [word, r.unpacked_bytes]

theorem VmReply.data_bytes (r : VmReply) : replyData r.bytes = .ofBytes r.body := by
  unfold replyData VmReply.bytes
  rw [List.drop_left' (by simp)]

/-! ## The guest -/

/-- What `receive_vm_udp` made of a call. -/
inductive Received where
  | timedOut | wrongLength | weird | radData | radError | unknown
deriving DecidableEq, Repr

/-- `receive_vm_udp`. `recvfrom` gives as much of a datagram as fits and drops the rest; `none`
is its failure, a time-out included. -/
def receiveVmUdp (data : RadclockData) : Option (List UInt8) → Received × RadclockData
  | none => (.wrongLength, data)
  | some dgram =>
    let reply := dgram.take sizeofVmReply
    if reply.length = 0 then (.timedOut, data)
    else if reply.length ≠ sizeofVmReply then (.wrongLength, data)
    else if word reply 0 ≠ VM_MAGIC_NUMBER then (.weird, data)
    else if word reply 2 = VM_REQ_RAD_DATA then
      (.radData, if data.lastChanged ≠ (replyData reply).lastChanged then replyData reply else data)
    else if word reply 2 = VM_REQ_RAD_ERROR then (.radError, data)
    else (.unknown, data)

/-- The message is accepted by any guest as clock data, and makes `data` its own if it was
changed at another time. -/
def Delivers (data : RadclockData) (msg : List UInt8) : Prop :=
  ∀ guest, (receiveVmUdp guest (some msg)).1 = .radData ∧
    (guest.lastChanged ≠ data.lastChanged → (receiveVmUdp guest (some msg)).2 = data)

/-! ## The master -/

inductive Sender where
  | pushDataVmUdp | answerData | answerError
deriving DecidableEq, Repr

/-- A message, with the clock data it was sent for. -/
structure Sent where
  sender : Sender
  data : RadclockData
  msg : List UInt8

structure Master where
  data : RadclockData
  error : RadclockError
  /-- `request` and `reply` of `thread_vm_udp_server`. -/
  request : List UInt8
  reply : VmReply
  sent : List Sent

inductive MasterEvent where
  /-- New clock data. -/
  | update (data : RadclockData) (error : RadclockError)
  /-- A call of `push_data_vm_udp`. -/
  | push (gaps : Gaps)
  /-- A datagram at the server thread. -/
  | request (dgram : List UInt8) (gaps : Gaps)

/-- Store clock data into the union. -/
def VmReply.setData (r : VmReply) (d : RadclockData) (gaps : Gaps) : VmReply :=
  { r with replyType := VM_REQ_RAD_DATA, body := d.bytes gaps, size := by simp }

def VmReply.setError (r : VmReply) (e : RadclockError) : VmReply :=
  { r with
    replyType := VM_REQ_RAD_ERROR
    body := e.bytes ++ r.body.drop 32
    size := by simp [r.size] }

/-- `push_data_vm_udp`: the data alone. -/
def pushDataVmUdp (m : Master) (gaps : Gaps) : Master :=
  { m with sent := ⟨.pushDataVmUdp, m.data, m.data.bytes gaps⟩ :: m.sent }

/-- The loop body of `thread_vm_udp_server`, on a datagram. The number of bytes received is not
looked at, and of the header of the reply only the type is set. -/
def threadVmUdpServer (m : Master) (dgram : List UInt8) (gaps : Gaps) : Master :=
  let request := overwrite m.request dgram
  if word request 0 ≠ VM_MAGIC_NUMBER then { m with request := request }
  else if word request 2 = VM_REQ_RAD_DATA then
    let reply := m.reply.setData m.data gaps
    { m with
      request := request
      reply := reply
      sent := ⟨.answerData, m.data, reply.bytes⟩ :: m.sent }
  else if word request 2 = VM_REQ_RAD_ERROR then
    let reply := m.reply.setError m.error
    { m with
      request := request
      reply := reply
      sent := ⟨.answerError, m.data, reply.bytes⟩ :: m.sent }
  else { m with request := request }

def masterStep (m : Master) : MasterEvent → Master
  | .update data error => { m with data := data, error := error }
  | .push gaps => pushDataVmUdp m gaps
  | .request dgram gaps => threadVmUdpServer m dgram gaps

/-! ## What a guest accepts -/

theorem word_take (dgram : List UInt8) (i : Nat) :
    word (dgram.take sizeofVmReply) i = word dgram i := by
  unfold word
  rw [unpacked_take _ _ (by decide)]

theorem replyData_take (dgram : List UInt8) :
    replyData (dgram.take sizeofVmReply) = replyData dgram := by
  unfold replyData RadclockData.ofBytes
  have hdrop : (dgram.take sizeofVmReply).drop 16 = (dgram.drop 16).take 96 := List.drop_take ..
  rw [hdrop, unpacked_take _ _ (by decide)]

/-- Datagrams shorter than a reply are not looked into. -/
theorem receiveVmUdp_short (guest : RadclockData) {dgram : List UInt8}
    (h : dgram.length < sizeofVmReply) :
    (receiveVmUdp guest (some dgram)).1 ≠ .radData ∧
      (receiveVmUdp guest (some dgram)).2 = guest := by
  have hlen : (dgram.take sizeofVmReply).length = dgram.length := by
    rw [List.length_take, Nat.min_eq_right (Nat.le_of_lt h)]
  unfold receiveVmUdp
  by_cases h0 : dgram.length = 0
  · simp [hlen, h0]
  · simp [hlen, h0, Nat.ne_of_lt h]

/-- Of longer ones, the front. -/
theorem receiveVmUdp_long (guest : RadclockData) {dgram : List UInt8}
    (h : sizeofVmReply ≤ dgram.length) :
    receiveVmUdp guest (some dgram) =
      if word dgram 0 ≠ VM_MAGIC_NUMBER then (.weird, guest)
      else if word dgram 2 = VM_REQ_RAD_DATA then
        (.radData,
          if guest.lastChanged ≠ (replyData dgram).lastChanged then replyData dgram else guest)
      else if word dgram 2 = VM_REQ_RAD_ERROR then (.radError, guest)
      else (.unknown, guest) := by
  have hlen : (dgram.take sizeofVmReply).length = sizeofVmReply := by
    rw [List.length_take, Nat.min_eq_left h]
  have hpos : sizeofVmReply ≠ 0 := by decide
  simp only [receiveVmUdp, hlen, hpos, if_false, ne_eq, not_true_eq_false, word_take,
    replyData_take]

/-- A datagram too long for a reply, whose front is a reply with other clock data. -/
def OverlongReply (guest : RadclockData) (dgram : List UInt8) : Prop :=
  sizeofVmReply < dgram.length ∧ word dgram 0 = VM_MAGIC_NUMBER ∧
    word dgram 2 = VM_REQ_RAD_DATA ∧ guest.lastChanged ≠ (replyData dgram).lastChanged

/-- The datagrams of another length or magic number that change nothing. -/
theorem foreign_unchanged_iff (guest : RadclockData) {dgram : List UInt8}
    (h : dgram.length ≠ sizeofVmReply ∨ word dgram 0 ≠ VM_MAGIC_NUMBER) :
    (receiveVmUdp guest (some dgram)).2 = guest ↔ ¬ OverlongReply guest dgram := by
  by_cases hshort : dgram.length < sizeofVmReply
  · have hno : ¬ OverlongReply guest dgram := fun ho => by
      have := ho.1
      omega
    simp [(receiveVmUdp_short guest hshort).2, hno]
  · rw [receiveVmUdp_long guest (by omega)]
    by_cases hmagic : word dgram 0 = VM_MAGIC_NUMBER
    · have hlong : sizeofVmReply < dgram.length := by
        have := h.resolve_right (fun hne => hne hmagic)
        omega
      by_cases htype : word dgram 2 = VM_REQ_RAD_DATA
      · by_cases hlast : guest.lastChanged = (replyData dgram).lastChanged
        · simp [OverlongReply, hmagic, htype, hlast]
        · have hne : replyData dgram ≠ guest := fun heq => hlast (by rw [heq])
          simp [OverlongReply, hlong, hmagic, htype, hlast, hne]
      · have hother : (if word dgram 2 = VM_REQ_RAD_ERROR then (Received.radError, guest)
            else (.unknown, guest)).2 = guest := by split <;> rfl
        simp [OverlongReply, hmagic, htype, hother]
    · simp [OverlongReply, hmagic]

theorem not_delivers_of_short (data : RadclockData) {msg : List UInt8}
    (h : msg.length < sizeofVmReply) : ¬ Delivers data msg :=
  fun hd => (receiveVmUdp_short data h).1 (hd data).1

theorem delivers_reply_iff {data : RadclockData} {r : VmReply}
    (htype : r.replyType = VM_REQ_RAD_DATA) (hdata : .ofBytes r.body = data) :
    Delivers data r.bytes ↔ r.magicNumber = VM_MAGIC_NUMBER := by
  have hget := fun guest => receiveVmUdp_long guest (Nat.le_of_eq r.length_bytes.symm)
  simp only [r.magic_bytes, r.type_bytes, r.data_bytes, htype, hdata] at hget
  constructor
  · intro h
    by_contra hne
    have := (h data).1
    simp [hget, hne] at this
  · intro hmagic guest
    rw [hget]
    by_cases hlast : guest.lastChanged = data.lastChanged <;> simp [hmagic, hlast]

/-! ## Runs of the master -/

/-- What a message is, by its sender. `magic` is what the stack held. -/
def Sent.Framed (magic : UInt32) (s : Sent) : Prop :=
  match s.sender with
  | .pushDataVmUdp => ∃ gaps, s.msg = s.data.bytes gaps
  | .answerData => ∃ r : VmReply, s.msg = r.bytes ∧ r.magicNumber = magic ∧
      r.replyType = VM_REQ_RAD_DATA ∧ .ofBytes r.body = s.data
  | .answerError => True

structure MasterInv (magic : UInt32) (m : Master) : Prop where
  /-- No step writes the magic number. -/
  kept : m.reply.magicNumber = magic
  framed : ∀ s ∈ m.sent, s.Framed magic

theorem masterInv_step {magic : UInt32} (m : Master) (e : MasterEvent) (h : MasterInv magic m) :
    MasterInv magic (masterStep m e) := by
  cases e with
  | update data error => exact ⟨h.kept, h.framed⟩
  -- a push is the data alone
  | push gaps =>
    refine ⟨h.kept, fun s hs => ?_⟩
    rcases List.mem_cons.mp hs with rfl | hs
    · exact ⟨gaps, rfl⟩
    · exact h.framed s hs
  -- an answer goes out in the reply the thread keeps, whose magic number is never written
  | request dgram gaps =>
    simp only [masterStep, threadVmUdpServer]
    split
    · exact ⟨h.kept, h.framed⟩
    · split
      · refine ⟨h.kept, fun s hs => ?_⟩
        rcases List.mem_cons.mp hs with rfl | hs
        · have hbody := m.data.ofBytes_bytes gaps []
          rw [List.append_nil] at hbody
          exact ⟨m.reply.setData m.data gaps, rfl, h.kept, rfl, hbody⟩
        · exact h.framed s hs
      · split
        · refine ⟨h.kept, fun s hs => ?_⟩
          rcases List.mem_cons.mp hs with rfl | hs
          · trivial
          · exact h.framed s hs
        · exact ⟨h.kept, h.framed⟩

/-- In every run of the master, a message with clock data reaches a guest if and only if it is
an answer of the server thread, and the stack of that thread happened to hold the magic number
where it keeps its replies. Datagrams of another length or magic number change nothing, unless
the front of a longer one is a reply. -/
theorem delivers_iff_magic (m : Master) (hm : m.sent = []) (es : List MasterEvent) :
    (∀ s ∈ (runSteps masterStep m es).sent, s.sender ≠ .answerError →
      (Delivers s.data s.msg ↔
        s.sender = .answerData ∧ m.reply.magicNumber = VM_MAGIC_NUMBER)) ∧
    ∀ guest dgram, dgram.length ≠ sizeofVmReply ∨ word dgram 0 ≠ VM_MAGIC_NUMBER →
      ((receiveVmUdp guest (some dgram)).2 = guest ↔ ¬ OverlongReply guest dgram) := by
  refine ⟨fun s hs hdata => ?_, fun guest dgram h => foreign_unchanged_iff guest h⟩
  have hinit : MasterInv m.reply.magicNumber m := ⟨rfl, by simp [hm]⟩
  have hinv : MasterInv m.reply.magicNumber (runSteps masterStep m es) := by
    refine runSteps_inv (C := fun _ _ => True) (fun m e h _ => masterInv_step m e h) es m hinit ?_
    exact stepsMeet_true es m
  have hframed := hinv.framed s hs
  unfold Sent.Framed at hframed
  cases hsender : s.sender with
  -- a push is shorter than a reply, which the guest waits for
  | pushDataVmUdp =>
    rw [hsender] at hframed
    obtain ⟨gaps, hmsg⟩ := hframed
    have hno : ¬ Delivers s.data s.msg := by
      rw [hmsg]
      exact not_delivers_of_short _ (by simp [sizeofVmReply])
    simp [hno]
  | answerData =>
    rw [hsender] at hframed
    obtain ⟨r, hmsg, hmagic, htype, hbody⟩ := hframed
    rw [hmsg, delivers_reply_iff htype hbody, hmagic]
    simp
  | answerError => exact absurd hsender hdata

/-- A master that starts with `data`, and its stack filled with zeros. -/
def freshMaster (data : RadclockData) : Master where
  data := data
  error := ⟨0, 0, 0, 0⟩
  request := List.replicate sizeofVmRequest 0
  reply := ⟨0, 0, 0, 0, List.replicate 96 0, List.length_replicate⟩
  sent := []

/-- The data of a clock that has seen a stamp at `lastChanged`. -/
def dataAt (lastChanged : UInt64) : RadclockData where
  phat := 0
  phatErr := 0
  phatLocal := 0
  phatLocalErr := 0
  ca := 0
  caErr := 0
  status := 0
  lastChanged := lastChanged
  nextExpected := 0
  leapsecExpected := 0
  leapsecTotal := 0
  leapsecNext := 0

/-- A request for clock data. -/
def dataRequest : List UInt8 :=
  packed [(4, VM_MAGIC_NUMBER.toNat), (4, 0), (4, VM_REQ_RAD_DATA.toNat)]

/-- One push and one request. -/
def pushAndAnswer : List MasterEvent :=
  [.push ⟨0, 0⟩, .request dataRequest ⟨0, 0⟩]

theorem delivers_luckyStack :
    let m := { freshMaster (dataAt 1) with
      reply := ⟨VM_MAGIC_NUMBER, 0, 0, 0, List.replicate 96 0, by simp⟩ }
    ∀ s ∈ (runSteps masterStep m pushAndAnswer).sent, s.sender ≠ .answerError →
      (Delivers s.data s.msg ↔
        s.sender = .answerData ∧ m.reply.magicNumber = VM_MAGIC_NUMBER) :=
  (delivers_iff_magic _ rfl pushAndAnswer).1

/-- Neither the push nor the answer reaches any guest. -/
theorem not_delivers_pushAndAnswer :
    (runSteps masterStep (freshMaster (dataAt 1)) pushAndAnswer).sent.length = 2 ∧
      ∀ s ∈ (runSteps masterStep (freshMaster (dataAt 1)) pushAndAnswer).sent,
        ¬ Delivers s.data s.msg := by
  refine ⟨by decide, fun s hs h => ?_⟩
  have hnone : ∀ s ∈ (runSteps masterStep (freshMaster (dataAt 1)) pushAndAnswer).sent,
      (receiveVmUdp (dataAt 0) (some s.msg)).1 ≠ .radData := by decide
  exact hnone s hs (h (dataAt 0)).1

end RADclock
