import RADclock.Capture.Delivery
import Mathlib.Data.List.Forall2

/-!
# Where the halves of a stamp come from (`create_stamp.c`)

A stamp that is delivered is put together from the halves in two packets. The address of the server
is copied with room for 16 characters, which is enough for IPv4.

- `ClientFrom`, `ServerFrom`: the packet that a half comes from.
- `Tagged`, `Traced`: the queue with the origins of its halves, none of which is used twice.
- `stampRun_matched`: the stamps of any run with addresses of at most 16 characters.
-/

namespace RADclock.Capture

open Lib Ntp

section Matching

variable {D : Type} [Arith D] (host : Host) (inetNtop : SockAddr → Text)

/-- The `Ta` and the address of the stamp are those of the request in the packet `i`. -/
def ClientFrom (ps : List NetPacket) (i : Nat) (stamp : StampT D) : Prop :=
  ∃ (p : NetPacket) (new : StampT D), ps[i]? = some p ∧ pushOf host inetNtop p =
    some (modeClient, new) ∧
    new.id = stamp.id ∧ new.bst.Ta = stamp.bst.Ta ∧ new.serverIpaddr = stamp.serverIpaddr

/-- What the server has said in the stamp is in the reply in the packet `i`. -/
def ServerFrom (ps : List NetPacket) (i : Nat) (stamp : StampT D) : Prop :=
  ∃ (p : NetPacket) (new : StampT D), ps[i]? = some p ∧ pushOf host inetNtop p =
    some (modeServer, new) ∧
    new.id = stamp.id ∧ new.bst.Tb = stamp.bst.Tb ∧ new.bst.Te = stamp.bst.Te ∧
    new.bst.Tf = stamp.bst.Tf ∧ new.ttl = stamp.ttl ∧ new.LI = stamp.LI ∧
    new.stratum = stamp.stratum ∧ new.refid = stamp.refid ∧
    new.rootdelay = stamp.rootdelay ∧ new.rootdispersion = stamp.rootdispersion

/-- The addresses of the requests have at most 16 characters. -/
def ShortAddresses (D : Type) [Arith D] (host : Host) (inetNtop : SockAddr → Text)
    (ps : List NetPacket) : Prop :=
  ∀ p ∈ ps, ∀ new : StampT D, pushOf host inetNtop p = some (modeClient, new) →
    new.serverIpaddr.length ≤ 16

/-- An element of the queue, and the packets that its halves come from. -/
structure Tagged (D : Type) where
  stamp : StampT D
  client : Option Nat
  server : Option Nat

/-- The halves of the element are there exactly if there is an origin, and come from it. -/
structure Tagged.Sound (ps : List NetPacket) (g : Tagged D) : Prop where
  client : ∀ i ∈ g.client, ClientFrom host inetNtop ps i g.stamp
  server : ∀ i ∈ g.server, ServerFrom host inetNtop ps i g.stamp
  no_client : g.client = none ↔ g.stamp.bst.Ta = 0
  no_server : g.server = none ↔ g.stamp.bst.Tf = 0

/-- Indices before `k`, all different. -/
def Before (k : Nat) (is : List Nat) : Prop := is.Nodup ∧ ∀ i ∈ is, i < k

/-- The queue `q` after the first `k` packets, and the origins `used` of the stamps delivered. -/
structure Traced (ps : List NetPacket) (k : Nat) (used : List (Nat × Nat)) (q : List (StampT D))
    (gs : List (Tagged D)) : Prop where
  stamps : gs.map Tagged.stamp = q
  sound : ∀ g ∈ gs, g.Sound host inetNtop ps
  client : Before k (used.map Prod.fst ++ gs.filterMap Tagged.client)
  server : Before k (used.map Prod.snd ++ gs.filterMap Tagged.server)

variable {host inetNtop} {ps : List NetPacket} {k : Nat} {p : NetPacket} {mode : Int}
  {new stamp : StampT D} {is js ks : List Nat} {used : List (Nat × Nat)} {q q' : List (StampT D)}
  {gs gs' : List (Tagged D)} {g : Tagged D}

theorem Before.mono (h : Before k is) : Before (k + 1) is :=
  ⟨h.1, fun i hi => Nat.lt_succ_of_lt (h.2 i hi)⟩

theorem Before.sublist (h : Before k is) (hsub : js.Sublist is) : Before k js :=
  ⟨h.1.sublist hsub, fun i hi => h.2 i (hsub.subset hi)⟩

/-- The index of the packet is new. -/
theorem Before.insert (h : Before k (is ++ js)) : Before (k + 1) (is ++ k :: js) := by
  refine ⟨?_, fun i hi => ?_⟩
  · rw [List.nodup_middle, List.nodup_cons]
    exact ⟨fun hk => Nat.lt_irrefl k (h.2 k hk), h.1⟩
  · rcases List.mem_append.mp hi with hi | hi
    · exact Nat.lt_succ_of_lt (h.2 i (List.mem_append_left _ hi))
    · rcases List.mem_cons.mp hi with rfl | hi
      · exact Nat.lt_succ_self _
      · exact Nat.lt_succ_of_lt (h.2 i (List.mem_append_right _ hi))

/-- An index is moved to the front. -/
theorem Before.move {i : Nat} (h : Before k (is ++ (js ++ i :: ks))) :
    Before k ((is ++ [i]) ++ (js ++ ks)) := by
  have hperm : (is ++ (js ++ i :: ks)).Perm ((is ++ [i]) ++ (js ++ ks)) := by
    rw [List.append_assoc, List.singleton_append]
    exact List.Perm.append_left is List.perm_middle
  exact ⟨hperm.nodup_iff.mp h.1, fun j hj => h.2 j (hperm.mem_iff.mpr hj)⟩

/-! ## One packet -/

/-- A client half with the address as it is stored. -/
theorem clientFrom_fill (hk : ps[k]? = some p) (hp : pushOf host inetNtop p =
    some (modeClient, new))
    (hshort : ShortAddresses D host inetNtop ps) (hid : stamp.id = new.id) :
    ClientFrom host inetNtop ps k (fillHalf modeClient new stamp) := by
  have hlen := hshort p (List.mem_of_getElem? hk) new hp
  refine ⟨p, new, hk, hp, ?_, rfl, ?_⟩
  · rw [fillHalf_id, hid]
  · exact (List.take_of_length_le hlen).symm

theorem serverFrom_fill (hk : ps[k]? = some p) (hp : pushOf host inetNtop p =
    some (modeServer, new))
    (hid : stamp.id = new.id) : ServerFrom host inetNtop ps k (fillHalf modeServer new stamp) := by
  refine ⟨p, new, hk, hp, ?_, rfl, rfl, rfl, rfl, rfl, rfl, rfl, rfl, rfl⟩
  rw [fillHalf_id, hid]

/-- A reply leaves what the request has brought. -/
theorem ClientFrom.fill {i : Nat} (h : ClientFrom host inetNtop ps i stamp) (new : StampT D) :
    ClientFrom host inetNtop ps i (fillHalf modeServer new stamp) := by
  obtain ⟨p, old, hi, hp, hid, hrest⟩ := h
  exact ⟨p, old, hi, hp, hid.trans (fillHalf_id _ _ _).symm, hrest⟩

/-- A request leaves what the reply has brought. -/
theorem ServerFrom.fill {i : Nat} (h : ServerFrom host inetNtop ps i stamp) (new : StampT D) :
    ServerFrom host inetNtop ps i (fillHalf modeClient new stamp) := by
  obtain ⟨p, old, hi, hp, hid, hrest⟩ := h
  exact ⟨p, old, hi, hp, hid.trans (fillHalf_id _ _ _).symm, hrest⟩

theorem Traced.mono (h : Traced host inetNtop ps k used q gs) :
    Traced host inetNtop ps (k + 1) used q gs :=
  ⟨h.stamps, h.sound, h.client.mono, h.server.mono⟩

/-- Elements that stay keep their origins. -/
theorem Traced.sublist (h : Traced host inetNtop ps k used q gs) (hsub : q'.Sublist q) :
    ∃ gs', gs'.Sublist gs ∧ Traced host inetNtop ps k used q' gs' := by
  rw [← h.stamps] at hsub
  obtain ⟨gs', hsub', rfl⟩ := List.sublist_map_iff.mp hsub
  exact ⟨gs', hsub', rfl, fun g hg => h.sound g (hsub'.subset hg),
    h.client.sublist ((List.Sublist.refl _).append (hsub'.filterMap _)),
    h.server.sublist ((List.Sublist.refl _).append (hsub'.filterMap _))⟩


/-- A half that is pushed comes from the packet, and has no other half. -/
theorem Tagged.sound_pushed (hk : ps[k]? = some p) (hp : pushOf host inetNtop p = some (mode, new))
    (hv : Valued mode new) (hshort : ShortAddresses D host inetNtop ps) :
    ∃ g : Tagged D, g.stamp = fillHalf mode new (blankStamp new.id) ∧
      g.Sound host inetNtop ps ∧
      (g.client = some k ∧ g.server = none ∨ g.client = none ∧ g.server = some k) := by
  rcases hv with ⟨rfl, hTa⟩ | ⟨rfl, hTf⟩
  · refine ⟨⟨_, some k, none⟩, rfl, ⟨?_, ?_, ?_, ?_⟩, Or.inl ⟨rfl, rfl⟩⟩
    · rintro _ ⟨⟩
      exact clientFrom_fill hk hp hshort rfl
    · exact fun _ hi => (nomatch hi)
    · exact ⟨fun h => (nomatch h), fun h => absurd h hTa⟩
    · exact ⟨fun _ => rfl, fun _ => rfl⟩
  · refine ⟨⟨_, none, some k⟩, rfl, ⟨?_, ?_, ?_, ?_⟩, Or.inr ⟨rfl, rfl⟩⟩
    · exact fun _ hi => (nomatch hi)
    · rintro _ ⟨⟩
      exact serverFrom_fill hk hp rfl
    · exact ⟨fun _ => rfl, fun _ => rfl⟩
    · exact ⟨fun h => (nomatch h), fun h => absurd h hTf⟩

/-- A packet fills the missing half of an element whose other half has an origin. -/
theorem Tagged.Sound.full (hg : g.Sound host inetNtop ps) (hk : ps[k]? = some p)
    (hp : pushOf host inetNtop p = some (mode, new)) (hv : Valued mode new)
    (hshort : ShortAddresses D host inetNtop ps) (hid : g.stamp.id = new.id)
    (hhalf : ClientHalf g.stamp ∨ ServerHalf g.stamp) (hnot : ¬ HasHalf mode g.stamp) :
    ∃ i, (g.client = none ∧ g.server = some i ∧
        ClientFrom host inetNtop ps k (fillHalf mode new g.stamp) ∧
        ServerFrom host inetNtop ps i (fillHalf mode new g.stamp)) ∨
      (g.client = some i ∧ g.server = none ∧
        ClientFrom host inetNtop ps i (fillHalf mode new g.stamp) ∧
        ServerFrom host inetNtop ps k (fillHalf mode new g.stamp)) := by
  rcases hv with ⟨rfl, -⟩ | ⟨rfl, -⟩
  · -- a request, for an element with a reply
    have hTa : g.stamp.bst.Ta = 0 := by
      by_contra hTa
      exact hnot (Or.inl ⟨rfl, hTa⟩)
    have hTf : g.stamp.bst.Tf ≠ 0 := hhalf.elim (fun hc => absurd hTa hc.1) And.right
    obtain ⟨i, hi⟩ := Option.ne_none_iff_exists'.mp (mt hg.no_server.mp hTf)
    exact ⟨i, Or.inl ⟨hg.no_client.mpr hTa, hi, clientFrom_fill hk hp hshort hid,
      (hg.server i hi).fill new⟩⟩
  · -- a reply, for an element with a request
    have hTf : g.stamp.bst.Tf = 0 := by
      by_contra hTf
      exact hnot (Or.inr ⟨rfl, hTf⟩)
    have hTa : g.stamp.bst.Ta ≠ 0 := hhalf.elim And.left fun hs => absurd hTf hs.2
    obtain ⟨i, hi⟩ := Option.ne_none_iff_exists'.mp (mt hg.no_client.mp hTa)
    exact ⟨i, Or.inr ⟨hi, hg.no_server.mpr hTf, (hg.client i hi).fill new,
      serverFrom_fill hk hp hid⟩⟩

variable (host inetNtop ps) in
/-- The halves of the stamp come from the packets with these indices. -/
def From (stamp : StampT D) (origin : Nat × Nat) : Prop :=
  ClientFrom host inetNtop ps origin.1 stamp ∧ ServerFrom host inetNtop ps origin.2 stamp

/-- A stamp that is completed takes its origins along. -/
theorem Traced.deliver {us ws : List (StampT D)} {full : StampT D}
    (h : Traced host inetNtop ps k used (us ++ stamp :: ws) gs)
    (hc : Completes host inetNtop p stamp full) (hk : ps[k]? = some p)
    (hv : getVcount host p.packet ≠ some 0) (hshort : ShortAddresses D host inetNtop ps)
    (hq : Halved (us ++ stamp :: ws)) :
    ∃ origin gs', From host inetNtop ps full origin ∧
      Traced host inetNtop ps (k + 1) (used ++ [origin]) (us ++ ws) gs' := by
  obtain ⟨hstamps, hsound, hclient, hserver⟩ := h
  obtain ⟨gu, _, rfl, rfl, hrest⟩ := List.map_eq_append_iff.mp hstamps
  obtain ⟨g, gw, rfl, rfl, rfl⟩ := List.map_eq_cons_iff.mp hrest
  have hsub : (gu ++ gw).Sublist (gu ++ g :: gw) :=
    (List.Sublist.refl _).append (List.sublist_cons_self _ _)
  cases hc with
  | filled hp hid hnot =>
    -- the half that waited came from packet i, this one is packet k
    obtain ⟨i, hi⟩ := (hsound g (by simp)).full hk hp (pushOf_valued hv hp) hshort hid
      (hq.half _ (by simp)) hnot
    rw [List.filterMap_append] at hclient hserver
    -- packet k is the request, or the reply
    rcases hi with ⟨hnone, hsome, hfrom⟩ | ⟨hsome, hnone, hfrom⟩
    · rw [List.filterMap_cons_none hnone] at hclient
      rw [List.filterMap_cons_some hsome] at hserver
      refine ⟨(k, i), gu ++ gw, hfrom, List.map_append, fun g hg =>
        hsound g (hsub.subset hg), ?_, ?_⟩
      · rw [List.map_append, List.append_assoc, List.filterMap_append]
        exact hclient.insert
      · rw [List.map_append, List.filterMap_append]
        exact hserver.move.mono
    · rw [List.filterMap_cons_some hsome] at hclient
      rw [List.filterMap_cons_none hnone] at hserver
      refine ⟨(i, k), gu ++ gw, hfrom, List.map_append, fun g hg =>
        hsound g (hsub.subset hg), ?_, ?_⟩
      · rw [List.map_append, List.filterMap_append]
        exact hclient.move.mono
      · rw [List.map_append, List.append_assoc, List.filterMap_append]
        exact hserver.insert

theorem Traced.push (h : Traced host inetNtop ps k used q gs) (hk : ps[k]? = some p)
    (hp : pushOf host inetNtop p = some (mode, new)) (hv : Valued mode new)
    (hshort : ShortAddresses D host inetNtop ps) :
    ∃ gs', Traced host inetNtop ps (k + 1) used (fillHalf mode new (blankStamp new.id) :: q)
      gs' := by
  obtain ⟨g, hstamp, hsound, hone⟩ := Tagged.sound_pushed hk hp hv hshort
  refine ⟨g :: gs, ?_, List.forall_mem_cons.mpr ⟨hsound, h.sound⟩, ?_, ?_⟩
  · rw [List.map_cons, hstamp, h.stamps]
  · rcases hone with ⟨hc, -⟩ | ⟨hc, -⟩
    · rw [List.filterMap_cons_some hc]
      exact h.client.insert
    · rw [List.filterMap_cons_none hc]
      exact h.client.mono
  · rcases hone with ⟨-, hs⟩ | ⟨-, hs⟩
    · rw [List.filterMap_cons_none hs]
      exact h.server.mono
    · rw [List.filterMap_cons_some hs]
      exact h.server.insert

variable {scrub : Nat → Cell (StampT D) → Cell (StampT D)} {o : Option (StampT D)}

/-- One packet. -/
theorem Handled.traced (hh : Handled host inetNtop scrub p q o q')
    (h : Traced host inetNtop ps k used q gs) (hk : ps[k]? = some p)
    (hv : getVcount host p.packet ≠ some 0) (hshort : ShortAddresses D host inetNtop ps)
    (hq : Halved q) :
    ∃ origins gs', List.Forall₂ (From host inetNtop ps) o.toList origins ∧
      Traced host inetNtop ps (k + 1) (used ++ origins) q' gs' := by
  cases hh with
  | waits hw =>
    have hgs : ∃ gs', Traced host inetNtop ps (k + 1) used q' gs' := by
      cases hw with
      | ignored => exact ⟨gs, h.mono⟩
      | duplicate => exact ⟨gs, h.mono⟩
      | pushed hp =>
        obtain ⟨gs', -, h'⟩ := h.sublist (trimmed_sublist q)
        exact h'.push hk hp (pushOf_valued hv hp) hshort
    obtain ⟨gs', h'⟩ := hgs
    exact ⟨[], gs', .nil, by rwa [List.append_nil]⟩
  | delivers hc =>
    obtain ⟨origin, gs', hfrom, h'⟩ := h.deliver hc hk hv hshort hq
    obtain ⟨gs', -, h'⟩ := h'.sublist (List.filter_sublist.append List.filter_sublist)
    exact ⟨[origin], gs', .cons hfrom .nil, h'⟩

/-! ## Runs -/

/-- The packets `ps'` of a run, after the packets `before`. -/
theorem HandledRun.traced {ps' after : List NetPacket} {stamps : List (StampT D)}
    (hrun : HandledRun host inetNtop scrub q ps' stamps q') (before : List NetPacket)
    (hps : ps = before ++ (ps' ++ after)) (h : Traced host inetNtop ps before.length used q gs)
    (hv : ∀ p ∈ ps', getVcount host p.packet ≠ some 0) (hshort : ShortAddresses D host inetNtop ps)
    (hq : Halved q) :
    ∃ origins gs', List.Forall₂ (From host inetNtop ps) stamps origins ∧
      Traced host inetNtop ps (before.length + ps'.length) (used ++ origins) q' gs' := by
  induction hrun generalizing before used gs with
  | nil q => exact ⟨[], gs, .nil, by rwa [List.append_nil]⟩
  | @cons _ _ _ p ps' o stamps hp _ ih =>
    obtain ⟨hvp, hv⟩ := List.forall_mem_cons.mp hv
    have hk : ps[before.length]? = some p := by
      rw [hps, List.getElem?_append_right (Nat.le_refl _), Nat.sub_self]
      rfl
    obtain ⟨origins₁, gs₁, hfrom₁, h₁⟩ := hp.traced h hk hvp hshort hq
    have hnext : before.length + 1 = (before ++ [p]).length := by rw [List.length_append]; rfl
    rw [hnext] at h₁
    obtain ⟨origins, gs', hfrom, h'⟩ := ih (before ++ [p]) (by simp [hps]) h₁ hv (hp.halved hvp hq)
    have hlen : (before ++ [p]).length + ps'.length = before.length + (p :: ps').length := by
      simp only [List.length_append, List.length_cons, List.length_nil]
      omega
    rw [hlen, List.append_assoc] at h'
    exact ⟨origins₁ ++ origins, gs', List.rel_append hfrom₁ hfrom, h'⟩

theorem traced_nil : Traced host inetNtop ps 0 [] ([] : List (StampT D)) [] where
  stamps := rfl
  sound _ hg := nomatch hg
  client := ⟨List.nodup_nil, fun _ hi => (nomatch hi)⟩
  server := ⟨List.nodup_nil, fun _ hi => (nomatch hi)⟩

theorem Waits.eq_of_mem (hw : Waits host inetNtop p q q')
    (hp : pushOf host inetNtop p = some (mode, new)) (hmem : stamp ∈ q)
    (hid : stamp.id = new.id) : q' = q := by
  cases hw with
  | ignored => rfl
  | duplicate => rfl
  | pushed hp' hnew =>
    obtain ⟨rfl, rfl⟩ := Prod.mk.inj (Option.some.inj (hp.symm.trans hp'))
    exact absurd hid (hnew stamp hmem)

/-- A half that is there already is not overwritten. -/
theorem takePacket_duplicate {s : StampInput D} (hs : Waiting s)
    (hv : getVcount host p.packet ≠ some 0) (hp : pushOf host inetNtop p = some (mode, new))
    (hmem : stamp ∈ s.contents) (hid : stamp.id = new.id) (hhalf : HasHalf mode stamp) :
    ∃ err s', takePacket host inetNtop scrub s p = some (err, s') ∧ s'.contents = s.contents := by
  obtain ⟨err, s', htake, hcase⟩ := takePacket_spec inetNtop scrub hs hv
  refine ⟨err, s', htake, ?_⟩
  rcases hcase with ⟨hw, -⟩ | ⟨-, us, stamp', full, ws, xs, hq, hc, -⟩
  · exact hw.eq_of_mem hp hmem hid
  · cases hc with
    | filled hp' hid' hnot =>
      obtain ⟨rfl, rfl⟩ := Prod.mk.inj (Option.some.inj (hp.symm.trans hp'))
      have hmem' : stamp' ∈ s.contents := by
        rw [hq]
        exact List.mem_append_right _ List.mem_cons_self
      have hsame : stamp = stamp' :=
        List.inj_on_of_nodup_map hs.halved.queued.nodup hmem hmem' (hid.trans hid'.symm)
      exact absurd (hsame ▸ hhalf) hnot

theorem pushOf_serverIpaddr (hp : pushOf host inetNtop p = some (modeClient, new)) :
    ∃ ssDst, new.serverIpaddr = inetNtop ssDst := by
  simp only [pushOf, Option.bind_eq_bind, Option.bind_eq_some_iff] at hp
  obtain ⟨vcount, -, payload, -, hp⟩ := hp
  split_ifs at hp with hclient hserver
  · obtain ⟨-, rfl⟩ := Prod.mk.inj (Option.some.inj hp)
    exact ⟨_, rfl⟩
  · exact absurd (Prod.mk.inj (Option.some.inj hp)).1 (by decide)

variable (inetNtop scrub)

/-- The halves of each stamp come from a request and a reply, and no packet is used twice. A half
that is there already is not overwritten. -/
theorem stampRun_matched (runMode : RunMode) (arrivals : List (List NetPacket))
    (hv : ∀ p ∈ arrivals.flatten, getVcount host p.packet ≠ some 0)
    (hshort : ShortAddresses D host inetNtop arrivals.flatten) :
    ∃ (stamps : List (StampT D)) (packets : List NetPacket) (s : StampInput D)
      (origins : List (Nat × Nat)),
      stampRun host inetNtop scrub runMode arrivals [] StampInput.init =
        some (stamps, packets, s) ∧
      List.Forall₂ (From host inetNtop arrivals.flatten) stamps origins ∧
      (origins.map Prod.fst).Nodup ∧ (origins.map Prod.snd).Nodup ∧
      ∀ (p : NetPacket) (mode : Int) (new stamp : StampT D),
        getVcount host p.packet ≠ some 0 → pushOf host inetNtop p = some (mode, new) →
        stamp ∈ s.contents → stamp.id = new.id → HasHalf mode stamp →
        ∃ err s', takePacket host inetNtop scrub s p = some (err, s') ∧
          s'.contents = s.contents := by
  obtain ⟨stamps, packets, s, ps', hrun, hsplit, hhandled, hs⟩ :=
    stampRun_init (D := D) inetNtop scrub runMode arrivals hv
  obtain ⟨origins, gs, hfrom, htraced⟩ := hhandled.traced [] hsplit traced_nil
    (fun p hp => hv p (hsplit ▸ List.mem_append_left _ hp)) hshort halved_nil
  refine ⟨stamps, packets, s, origins, hrun, hfrom, ?_, ?_, ?_⟩
  · exact (List.nodup_append.mp htraced.client.1).1
  · exact (List.nodup_append.mp htraced.server.1).1
  · exact fun p mode new stamp hv' hp hmem hid hhalf =>
      takePacket_duplicate hs hv' hp hmem hid hhalf

end Matching

/-- A request and its reply. -/
theorem stampRun_matched_reply :
    ∃ (stamps : List (StampT Float)) (packets : List NetPacket) (s : StampInput Float)
      (origins : List (Nat × Nat)),
      stampRun littleEndianHost inetNtop4 (fun _ c => c) .live
        [[ntpFrame 0x23], [ntpFrame 0x24]] [] StampInput.init = some (stamps, packets, s) ∧
      List.Forall₂ (From littleEndianHost inetNtop4 [ntpFrame 0x23, ntpFrame 0x24]) stamps
        origins ∧
      (origins.map Prod.fst).Nodup ∧ (origins.map Prod.snd).Nodup ∧
      ∀ (p : NetPacket) (mode : Int) (new stamp : StampT Float),
        getVcount littleEndianHost p.packet ≠ some 0 →
        pushOf littleEndianHost inetNtop4 p = some (mode, new) →
        stamp ∈ s.contents → stamp.id = new.id → HasHalf mode stamp →
        ∃ err s', takePacket littleEndianHost inetNtop4 (fun _ c => c) s p = some (err, s') ∧
          s'.contents = s.contents := by
  refine stampRun_matched inetNtop4 (fun _ c => c) .live [[ntpFrame 0x23], [ntpFrame 0x24]]
    ?_ ?_
  · have hrequest : getVcount littleEndianHost (ntpFrame 0x23).packet ≠ some 0 := by decide
    have hreply : getVcount littleEndianHost (ntpFrame 0x24).packet ≠ some 0 := by decide
    simpa using ⟨hrequest, hreply⟩
  · intro p hp new hpush
    have haddr : (pushOf littleEndianHost inetNtop4 p).map (fun push : Int × StampT Float =>
        decide (push.1 = modeClient → push.2.serverIpaddr = "0.0.0.0".toList)) = some true := by
      simp only [List.flatten_cons, List.flatten_nil, List.cons_append, List.nil_append,
        List.mem_cons, List.not_mem_nil, or_false] at hp
      rcases hp with rfl | rfl <;> decide +kernel
    rw [hpush, Option.map_some] at haddr
    rw [of_decide_eq_true (Option.some.inj haddr) rfl]
    decide

/-- IPv6 and UDP in an SLL header, with the counter value 1. Each address repeats one byte. -/
def ntpFrame6 (liVnMode src dst : UInt8) : NetPacket where
  packet :=
    { header := { tvSec := 0, tvUsec := 0, caplen := 112, len := 112 }
      payload i :=
        if i = 3 ∨ i = 13 then 0x01 else if i = 14 then 0x86 else if i = 15 then 0xdd
        else if i = 16 then 0x60 else if i = 22 then 17 else if i = 23 then 64
        else if 24 ≤ i ∧ i < 40 then src else if 40 ≤ i ∧ i < 56 then dst
        else if i = 64 then liVnMode else 0
      size := 136
      type := .linuxSll }
  ssIf := .inet6 (List.replicate 16 0x22)
  udph := 0
  ssSrc := .inet []
  ssDst := .inet []
  ttl := 0

/-- The text of the address of the server. -/
def inetNtop6 (ss : SockAddr) : Text :=
  if ss = .inet6 (List.replicate 16 0x11) then "1111:1111:1111:1111:1111:1111:1111:1111".toList
  else []

/-- The stamp of an exchange over IPv6 has an address cut off after 16 characters. -/
theorem not_matched :
    ¬ ∀ (host : Host) (inetNtop : SockAddr → Text)
      (scrub : Nat → Cell (StampT Float) → Cell (StampT Float)) (runMode : RunMode)
      (arrivals : List (List NetPacket)),
      (∀ p ∈ arrivals.flatten, getVcount host p.packet ≠ some 0) →
        ∃ (stamps : List (StampT Float)) (packets : List NetPacket) (s : StampInput Float)
          (origins : List (Nat × Nat)),
          stampRun host inetNtop scrub runMode arrivals [] StampInput.init =
            some (stamps, packets, s) ∧
          List.Forall₂ (From host inetNtop arrivals.flatten) stamps origins := by
  intro hall
  have hrequest : getVcount littleEndianHost (ntpFrame6 0x23 0x22 0x11).packet ≠ some 0 := by
    decide
  have hreply : getVcount littleEndianHost (ntpFrame6 0x24 0x11 0x22).packet ≠ some 0 := by decide
  obtain ⟨stamps, packets, s, origins, hrun, hfrom⟩ :=
    hall littleEndianHost inetNtop6 (fun _ c => c) .live
      [[ntpFrame6 0x23 0x22 0x11], [ntpFrame6 0x24 0x11 0x22]] (by simpa using ⟨hrequest, hreply⟩)
  have haddrs : (stampRun littleEndianHost inetNtop6 (fun _ c => c) .live
      [[ntpFrame6 0x23 0x22 0x11], [ntpFrame6 0x24 0x11 0x22]] []
      (StampInput.init : StampInput Float)).map (fun r => r.1.map StampT.serverIpaddr) =
        some ["1111:1111:1111:1".toList] := by decide +kernel
  rw [hrun] at haddrs
  obtain ⟨stamp, rest, rfl, haddr, -⟩ := List.map_eq_cons_iff.mp (Option.some.inj haddrs)
  cases hfrom with
  | cons hhead _ =>
    obtain ⟨p, new, -, hp, -, -, hsame⟩ := hhead.1
    obtain ⟨ssDst, htext⟩ := pushOf_serverIpaddr hp
    rw [haddr, htext, inetNtop6] at hsame
    split_ifs at hsame <;> exact absurd hsame (by decide)

end RADclock.Capture
