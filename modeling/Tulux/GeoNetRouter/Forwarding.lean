import Tulux.GeoNetRouter.OwnPackets
import Tulux.GeoNetRouter.Runs

/-! Which algorithm decides about a packet, and which one the configuration asks for. A case that
goes on into the next one loses what its own algorithm has decided. -/
namespace Tulux.GeoNetRouter
open QCoder SortedMap GuardedRun

/-- What a forwarding algorithm returns and leaves in `NextAddr`. -/
structure Decision where
  ret : ℤ
  nextAddr : List UInt8

section Algorithms
variable (cfg : GnConfig) (geometry : Geometry) (readings : Readings) (mem : Memory) (buf : ℕ)
  (pktType : PacketType) (epv : Epv) (table : Table) (nextAddr : List UInt8)

/-! ### The next hop -/

/-- The neighbour that is nearest to the target of a packet, when it is nearer than this station. -/
def nearer : Option LocTableEntry :=
  let (latitude, longitude) := packetTarget mem buf pktType
  let mfr := geometry.geoDistance latitude longitude epv.latitude epv.longitude
  let (locTe, shortest) := findShortestLocTe geometry latitude longitude table
  locTe.filter fun _ => shortest < mfr

/-- What `NAF_GF` leaves in `NextAddr`. -/
def nafGfNext : List UInt8 :=
  if pktType ≠ .geounicast ∧ pktType ≠ .geoanycast then nextAddr
  else
    match nearer geometry mem buf pktType epv table with
    | some locTe => midBytes locTe.gnAddr.mid
    | none => if tcScf (packetTc mem buf) then nextAddr else llBc

/-- What `AF_CBF` leaves there, and `NAF_CBF` for the types that it takes. -/
def afCbfNext : List UInt8 :=
  if gnAddrMatch (readAddr mem (buf + 16)) cfg.localAddr then llBc else nextAddr

def nafCbfNext : List UInt8 :=
  if pktType ≠ .geounicast ∧ pktType ≠ .geoanycast ∧ pktType ≠ .geobroadcast then nextAddr
  else afCbfNext cfg mem buf nextAddr

def forwardAlgorithmSelectNext (r : Router) : List UInt8 :=
  let ht := (mem (buf + 5)).toNat / 16
  if ht ≠ PacketType.geoanycast.toNat ∧ ht ≠ PacketType.geobroadcast.toNat then nextAddr
  else
    let pktType := PacketType.ofHt ht
    let epv := readings.epv 1
    -- in the area every case comes to the broadcast address
    if 0 ≤ areaPosition geometry mem buf epv.latitude epv.longitude then llBc
    else
      let soAddr := readAddr mem (buf + 16)
      let locTe := r.found cfg (readings.clock 3) soAddr.mid
      let r := r.perform cfg (.find (readings.clock 3) soAddr.mid)
      match locTe with
      | some locTe =>
        let f := areaPosition geometry mem buf (s32 locTe.lpv.latitude) (s32 locTe.lpv.longitude)
        if locTe.lpv.pai = 1 ∧ 0 ≤ f then nextAddr
        else
          match cfg.nonAreaForwardingAlgorithm with
          | .cbf =>
            let nextAddr := nafCbfNext cfg mem buf pktType nextAddr
            let r := (nafCbf cfg geometry mem buf pktType (readings.clock 4) (readings.epv 2) r).2
            nafGfNext geometry mem buf pktType (readings.epv 3) r.core.locTable nextAddr
          | _ => nafGfNext geometry mem buf pktType (readings.epv 2) r.core.locTable nextAddr
      | none => llBc

/-- The types that `ForwardAlgorithmSelect` passes to greedy forwarding. -/
def greedyTypes (r : Router) : List PacketType :=
  let ht := (mem (buf + 5)).toNat / 16
  if ht ≠ PacketType.geoanycast.toNat ∧ ht ≠ PacketType.geobroadcast.toNat then []
  else if 0 ≤ areaPosition geometry mem buf (readings.epv 1).latitude (readings.epv 1).longitude
    then []
  else
    match r.found cfg (readings.clock 3) (readAddr mem (buf + 16)).mid with
    | some locTe =>
      let f := areaPosition geometry mem buf (s32 locTe.lpv.latitude) (s32 locTe.lpv.longitude)
      if locTe.lpv.pai = 1 ∧ 0 ≤ f then [] else [.ofHt ht]
    | none => []

/-! ### The configuration -/

def greedy : Decision :=
  ⟨nafGf geometry mem buf pktType epv table,
    nafGfNext geometry mem buf pktType epv table nextAddr⟩

def contention (now : ℕ) (r : Router) : Decision :=
  ⟨(nafCbf cfg geometry mem buf pktType now epv r).1, nafCbfNext cfg mem buf pktType nextAddr⟩

def areaContention (now : ℕ) (r : Router) : Decision :=
  ⟨(afCbf cfg mem buf now r).1, afCbfNext cfg mem buf nextAddr⟩

/-- The simple broadcast. -/
def broadcast : Decision := ⟨1, llBc⟩

def discard : Decision := ⟨-1, nextAddr⟩

/-- What `ForwardAlgorithmSelect` decides. -/
def selected (r : Router) : Decision :=
  ⟨(forwardAlgorithmSelect cfg geometry readings mem buf r).1,
    forwardAlgorithmSelectNext cfg geometry readings mem buf nextAddr r⟩

/-- The algorithm that is configured for packets from outside their area. -/
def nonAreaConfigured (r : Router) : Decision :=
  if cfg.nonAreaForwardingAlgorithm = .cbf then
    contention cfg geometry mem buf pktType (readings.epv 2) nextAddr (readings.clock 4) r
  else greedy geometry mem buf pktType (readings.epv 2) r.core.locTable nextAddr

instance : Decidable (InArea geometry readings mem buf) := inferInstanceAs (Decidable (0 ≤ _))

instance (e : LocTableEntry) : Decidable (EntryInArea geometry mem buf e) :=
  inferInstanceAs (Decidable (_ ∧ _))

/-- What the configuration asks for: in the area its area algorithm, and outside the one for packets
from outside, unless the sender's position is accurate and inside. -/
def configured (r : Router) : Decision :=
  let ht := (mem (buf + 5)).toNat / 16
  let soMid := (readAddr mem (buf + 16)).mid
  if ht ≠ PacketType.geoanycast.toNat ∧ ht ≠ PacketType.geobroadcast.toNat then discard nextAddr
  else if InArea geometry readings mem buf then
    if cfg.areaForwardingAlgorithm = .cbf then
      areaContention cfg mem buf nextAddr (readings.clock 3) r
    else broadcast
  else if (r.found cfg (readings.clock 3) soMid).any (EntryInArea geometry mem buf ·) then
    discard nextAddr
  else nonAreaConfigured cfg geometry readings mem buf (.ofHt ht) nextAddr
    (r.perform cfg (.find (readings.clock 3) soMid))

/-- Greedy forwarding takes packets of a type. -/
def GreedyAccepts : Prop :=
  ∀ geometry mem buf epv table, nafGf geometry mem buf pktType epv table ≠ -1

structure FollowsConfiguration (r : Router) : Prop where
  decision : selected cfg geometry readings mem buf nextAddr r =
    configured cfg geometry readings mem buf nextAddr r
  accepted : ∀ pktType ∈ greedyTypes cfg geometry readings mem buf r, GreedyAccepts pktType

/-! ### When the configuration is followed -/

/-- Greedy forwarding broadcasts a packet: there is no next hop and it cannot wait, or the next hop
has the broadcast address. -/
def GreedyBroadcasts : Prop :=
  match nearer geometry mem buf pktType epv table with
  | some locTe => midBytes locTe.gnAddr.mid = llBc
  | none => ¬ tcScf (packetTc mem buf)

/-- Greedy forwarding lets a packet wait. -/
def GreedyWaits : Prop :=
  nearer geometry mem buf pktType epv table = none ∧ tcScf (packetTc mem buf)

/-- The sender that is found has no accurate position, or it is further from the target. -/
def ContentionWaits (found : Option LocTableEntry) : Prop :=
  ∀ locTe, found = some locTe → locTe.lpv.pai = 1 →
    let (latitude, longitude) := packetTarget mem buf pktType
    geometry.geoDistance latitude longitude epv.latitude epv.longitude <
      geometry.geoDistance latitude longitude (s32 locTe.lpv.latitude) (s32 locTe.lpv.longitude)

/-- A packet from outside the area, of a sender that is known, is decided about by greedy
forwarding. -/
def GreedyAsConfigured (r : Router) : Prop :=
  let soAddr := readAddr mem (buf + 16)
  let again := r.perform cfg (.find (readings.clock 4) soAddr.mid)
  cfg.nonAreaForwardingAlgorithm = .cbf →
    if gnAddrMatch soAddr cfg.localAddr then
      GreedyBroadcasts geometry mem buf .geoanycast (readings.epv 3) r.core.locTable
    else ContentionWaits geometry mem buf .geoanycast (readings.epv 2)
        (r.found cfg (readings.clock 4) soAddr.mid) ∧
      GreedyWaits geometry mem buf .geoanycast (readings.epv 3) again.core.locTable

/-- A packet from outside the area, of a sender that is not known, is broadcast. -/
def BroadcastAsConfigured (r : Router) : Prop :=
  if cfg.nonAreaForwardingAlgorithm = .cbf then
    (gnAddrMatch (readAddr mem (buf + 16)) cfg.localAddr : Prop)
  else (mem (buf + 5)).toNat / 16 = PacketType.geoanycast.toNat ∧
    GreedyBroadcasts geometry mem buf .geoanycast (readings.epv 2) r.core.locTable

/-- What is done is what is configured. -/
def DoesAsConfigured (r : Router) : Prop :=
  let ht := (mem (buf + 5)).toNat / 16
  let soAddr := readAddr mem (buf + 16)
  let looked := r.perform cfg (.find (readings.clock 3) soAddr.mid)
  ht = PacketType.geoanycast.toNat ∨ ht = PacketType.geobroadcast.toNat →
    if InArea geometry readings mem buf then
      cfg.areaForwardingAlgorithm = .cbf → gnAddrMatch soAddr cfg.localAddr
    else
      match r.found cfg (readings.clock 3) soAddr.mid with
      | some locTe => EntryInArea geometry mem buf locTe ∨
          (ht = PacketType.geoanycast.toNat ∧
            GreedyAsConfigured cfg geometry readings mem buf looked)
      | none => BroadcastAsConfigured cfg geometry readings mem buf looked

end Algorithms

section Algorithms
variable {cfg : GnConfig} {geometry : Geometry} {readings : Readings} {mem : Memory} {buf : ℕ}
  {pktType : PacketType} {epv : Epv} {table : Table} {nextAddr : List UInt8} {now : ℕ} {r : Router}

/-! ### Greedy forwarding -/

theorem greedy_geobroadcast :
    greedy geometry mem buf .geobroadcast epv table nextAddr = discard nextAddr := by
  unfold greedy
  rw [nafGf_geobroadcast]
  rfl

theorem nafGf_geoanycast : nafGf geometry mem buf .geoanycast epv table =
    if (nearer geometry mem buf .geoanycast epv table).isSome then 1
    else if tcScf (packetTc mem buf) then 0 else 1 := by
  have htype : ¬ (PacketType.geoanycast ≠ .geounicast ∧ PacketType.geoanycast ≠ .geoanycast) := by
    decide
  unfold nafGf nearer
  rw [if_neg htype]
  rcases packetTarget mem buf .geoanycast with ⟨latitude, longitude⟩
  cases hbest : findShortestLocTe geometry latitude longitude table with
  | mk locTe shortest =>
    simp only [hbest]
    cases locTe <;> simp

theorem greedy_geoanycast : greedy geometry mem buf .geoanycast epv table nextAddr =
    match nearer geometry mem buf .geoanycast epv table with
    | some locTe => ⟨1, midBytes locTe.gnAddr.mid⟩
    | none => if tcScf (packetTc mem buf) then ⟨0, nextAddr⟩ else broadcast := by
  unfold greedy nafGfNext broadcast
  rw [nafGf_geoanycast]
  cases nearer geometry mem buf .geoanycast epv table with
  | some locTe => simp
  | none => cases tcScf (packetTc mem buf) <;> simp

theorem greedy_eq_broadcast_iff :
    greedy geometry mem buf .geoanycast epv table nextAddr = broadcast ↔
      GreedyBroadcasts geometry mem buf .geoanycast epv table := by
  rw [greedy_geoanycast]
  unfold GreedyBroadcasts broadcast
  cases nearer geometry mem buf .geoanycast epv table with
  | some locTe => simp
  | none => cases tcScf (packetTc mem buf) <;> simp

theorem greedy_eq_waits_iff :
    greedy geometry mem buf .geoanycast epv table nextAddr = ⟨0, nextAddr⟩ ↔
      GreedyWaits geometry mem buf .geoanycast epv table := by
  rw [greedy_geoanycast]
  unfold GreedyWaits broadcast
  cases nearer geometry mem buf .geoanycast epv table with
  | some locTe => simp
  | none => cases tcScf (packetTc mem buf) <;> simp

/-- Greedy forwarding of a GAC never discards it. -/
theorem greedy_ne_discard {next : List UInt8} :
    greedy geometry mem buf .geoanycast epv table nextAddr ≠ discard next := by
  intro h
  have hret : nafGf geometry mem buf .geoanycast epv table = -1 := congrArg Decision.ret h
  rcases nafGf_cases geometry mem buf (.inr rfl) epv table with hnaf | hnaf
  · exact absurd (hnaf.symm.trans hret) (by decide)
  · exact absurd (hnaf.symm.trans hret) (by decide)

theorem greedyAccepts_iff :
    GreedyAccepts pktType ↔ pktType = .geounicast ∨ pktType = .geoanycast := by
  constructor
  · intro h
    by_contra hother
    exact h ⟨fun _ _ _ _ => 0, fun _ _ _ _ _ _ _ _ => 0⟩ (fun _ => 0) 0 ⟨0, 0, 0, 0, 0, 0⟩ []
      (if_pos (not_or.mp hother))
  · intro h geometry mem buf epv table
    rcases nafGf_cases geometry mem buf h epv table with hnaf | hnaf
    · rw [hnaf]; decide
    · rw [hnaf]; decide

/-! ### Contention based forwarding -/

theorem contention_takes (harea : pktType = .geoanycast ∨ pktType = .geobroadcast) :
    ¬ (pktType ≠ .geounicast ∧ pktType ≠ .geoanycast ∧ pktType ≠ .geobroadcast) := by
  rcases harea with rfl | rfl <;> decide

theorem contention_own (harea : pktType = .geoanycast ∨ pktType = .geobroadcast)
    (hown : gnAddrMatch (readAddr mem (buf + 16)) cfg.localAddr) :
    contention cfg geometry mem buf pktType epv nextAddr now r = broadcast := by
  unfold contention nafCbf nafCbfNext afCbfNext broadcast
  rcases harea with rfl | rfl <;> simp [hown]

/-- A packet of another station waits or is discarded. -/
theorem contention_other (geometry : Geometry) (epv : Epv) (nextAddr : List UInt8) (now : ℕ)
    (r : Router) (harea : pktType = .geoanycast ∨ pktType = .geobroadcast)
    (hother : ¬ gnAddrMatch (readAddr mem (buf + 16)) cfg.localAddr) :
    let found := r.found cfg now (readAddr mem (buf + 16)).mid
    (ContentionWaits geometry mem buf pktType epv found ∧
      contention cfg geometry mem buf pktType epv nextAddr now r = ⟨0, nextAddr⟩) ∨
    (¬ ContentionWaits geometry mem buf pktType epv found ∧
      contention cfg geometry mem buf pktType epv nextAddr now r = discard nextAddr) := by
  unfold contention nafCbf nafCbfNext afCbfNext ContentionWaits discard
  dsimp only
  rw [if_neg (contention_takes harea), if_neg (contention_takes harea), if_neg hother,
    if_neg hother]
  cases r.found cfg now (readAddr mem (buf + 16)).mid with
  | none => simp
  | some locTe =>
    dsimp only
    split_ifs with hpai hnearer
    · refine .inl ⟨?_, rfl⟩
      rintro _ ⟨⟩ -
      omega
    · refine .inr ⟨fun h => ?_, rfl⟩
      have hnear := h locTe rfl hpai
      omega
    · refine .inl ⟨?_, rfl⟩
      rintro _ ⟨⟩ hone
      exact absurd hone hpai

/-- The sender of such a packet is looked up. -/
theorem snd_nafCbf_other (harea : pktType = .geoanycast ∨ pktType = .geobroadcast)
    (hother : ¬ gnAddrMatch (readAddr mem (buf + 16)) cfg.localAddr) :
    (nafCbf cfg geometry mem buf pktType now epv r).2 =
      r.perform cfg (.find now (readAddr mem (buf + 16)).mid) := by
  unfold nafCbf
  dsimp only
  rw [if_neg (contention_takes harea), if_neg hother]
  cases r.found cfg now (readAddr mem (buf + 16)).mid with
  | none => rfl
  | some locTe =>
    dsimp only
    split_ifs <;> rfl

theorem contention_ne_broadcast (harea : pktType = .geoanycast ∨ pktType = .geobroadcast)
    (hother : ¬ gnAddrMatch (readAddr mem (buf + 16)) cfg.localAddr) :
    contention cfg geometry mem buf pktType epv nextAddr now r ≠ broadcast := by
  intro h
  rcases contention_other geometry epv nextAddr now r harea hother with
    ⟨-, hwaits⟩ | ⟨-, hdiscards⟩
  · exact absurd (congrArg Decision.ret (hwaits.symm.trans h)) (show (0 : ℤ) ≠ 1 by decide)
  · exact absurd (congrArg Decision.ret (hdiscards.symm.trans h)) (show (-1 : ℤ) ≠ 1 by decide)

theorem areaContention_eq_broadcast_iff :
    areaContention cfg mem buf nextAddr now r = broadcast ↔
      gnAddrMatch (readAddr mem (buf + 16)) cfg.localAddr := by
  unfold areaContention afCbf afCbfNext broadcast
  dsimp only
  split_ifs with hown <;> simp [hown]

/-! ### The selection -/

/-- A packet of a type that is forwarded in an area. -/
structure AreaPacket (mem : Memory) (buf : ℕ) (pktType : PacketType) : Prop where
  headerType : (mem (buf + 5)).toNat / 16 = pktType.toNat
  area : pktType = .geoanycast ∨ pktType = .geobroadcast

theorem AreaPacket.handled (h : AreaPacket mem buf pktType) :
    ¬ ((mem (buf + 5)).toNat / 16 ≠ PacketType.geoanycast.toNat ∧
      (mem (buf + 5)).toNat / 16 ≠ PacketType.geobroadcast.toNat) := by
  rw [h.headerType]
  rcases h.area with rfl | rfl <;> decide

theorem AreaPacket.ofHt (h : AreaPacket mem buf pktType) :
    PacketType.ofHt ((mem (buf + 5)).toNat / 16) = pktType := by
  rw [h.headerType, PacketType.ofHt_toNat]

/-- A packet of another type is discarded, which is what is configured. -/
theorem followsConfiguration_of_other
    (h : (mem (buf + 5)).toNat / 16 ≠ PacketType.geoanycast.toNat ∧
      (mem (buf + 5)).toNat / 16 ≠ PacketType.geobroadcast.toNat) :
    FollowsConfiguration cfg geometry readings mem buf nextAddr r := by
  constructor
  · unfold selected forwardAlgorithmSelect forwardAlgorithmSelectNext configured discard
    simp only [if_pos h]
  · unfold greedyTypes
    simp [h]

theorem selected_inside (h : AreaPacket mem buf pktType)
    (hin : InArea geometry readings mem buf) :
    selected cfg geometry readings mem buf nextAddr r = broadcast := by
  unfold InArea at hin
  unfold selected forwardAlgorithmSelect forwardAlgorithmSelectNext broadcast
  simp only [if_neg h.handled, if_pos hin]
  cases cfg.areaForwardingAlgorithm <;> rfl

theorem configured_inside (h : AreaPacket mem buf pktType)
    (hin : InArea geometry readings mem buf) :
    configured cfg geometry readings mem buf nextAddr r =
      if cfg.areaForwardingAlgorithm = .cbf then
        areaContention cfg mem buf nextAddr (readings.clock 3) r
      else broadcast := by
  unfold configured
  simp only [if_neg h.handled, if_pos hin]

theorem greedyTypes_inside (h : AreaPacket mem buf pktType)
    (hin : InArea geometry readings mem buf) :
    greedyTypes cfg geometry readings mem buf r = [] := by
  unfold InArea at hin
  unfold greedyTypes
  simp only [if_neg h.handled, if_pos hin]

/-- What is done with a packet from outside its area, by what is known of the sender. -/
theorem selected_outside (h : AreaPacket mem buf pktType)
    (hout : ¬ InArea geometry readings mem buf) :
    let soMid := (readAddr mem (buf + 16)).mid
    let looked := r.perform cfg (.find (readings.clock 3) soMid)
    selected cfg geometry readings mem buf nextAddr r =
      match r.found cfg (readings.clock 3) soMid with
      | some locTe =>
        if EntryInArea geometry mem buf locTe then discard nextAddr
        else if cfg.nonAreaForwardingAlgorithm = .cbf then
          greedy geometry mem buf pktType (readings.epv 3)
            (nafCbf cfg geometry mem buf pktType (readings.clock 4) (readings.epv 2)
              looked).2.core.locTable (nafCbfNext cfg mem buf pktType nextAddr)
        else greedy geometry mem buf pktType (readings.epv 2) looked.core.locTable nextAddr
      | none => broadcast := by
  unfold InArea at hout
  unfold selected forwardAlgorithmSelect forwardAlgorithmSelectNext
  simp only [if_neg h.handled, if_neg hout, h.ofHt]
  cases r.found cfg (readings.clock 3) (readAddr mem (buf + 16)).mid with
  | none => rfl
  | some locTe =>
    dsimp only
    by_cases hinside : EntryInArea geometry mem buf locTe
    · rw [if_pos hinside]
      unfold EntryInArea at hinside
      simp only [if_pos hinside]
      rfl
    · rw [if_neg hinside]
      unfold EntryInArea at hinside
      simp only [if_neg hinside]
      cases cfg.nonAreaForwardingAlgorithm <;> rfl

theorem configured_outside (h : AreaPacket mem buf pktType)
    (hout : ¬ InArea geometry readings mem buf) :
    let soMid := (readAddr mem (buf + 16)).mid
    let looked := r.perform cfg (.find (readings.clock 3) soMid)
    configured cfg geometry readings mem buf nextAddr r =
      if (r.found cfg (readings.clock 3) soMid).any (EntryInArea geometry mem buf ·) then
        discard nextAddr
      else nonAreaConfigured cfg geometry readings mem buf pktType nextAddr looked := by
  unfold configured
  simp only [if_neg h.handled, if_neg hout, h.ofHt]

theorem greedyTypes_outside (h : AreaPacket mem buf pktType)
    (hout : ¬ InArea geometry readings mem buf) :
    greedyTypes cfg geometry readings mem buf r =
      match r.found cfg (readings.clock 3) (readAddr mem (buf + 16)).mid with
      | some locTe => if EntryInArea geometry mem buf locTe then [] else [pktType]
      | none => [] := by
  unfold InArea at hout
  unfold greedyTypes EntryInArea
  simp only [if_neg h.handled, if_neg hout, h.ofHt]
  rfl

/-! ### When the configuration is followed -/

theorem followsConfiguration_inside_iff (h : AreaPacket mem buf pktType)
    (hin : InArea geometry readings mem buf) :
    FollowsConfiguration cfg geometry readings mem buf nextAddr r ↔
      (cfg.areaForwardingAlgorithm = .cbf →
        gnAddrMatch (readAddr mem (buf + 16)) cfg.localAddr) := by
  have hdecision : selected cfg geometry readings mem buf nextAddr r =
      configured cfg geometry readings mem buf nextAddr r ↔
      (cfg.areaForwardingAlgorithm = .cbf →
        gnAddrMatch (readAddr mem (buf + 16)) cfg.localAddr) := by
    rw [selected_inside h hin, configured_inside h hin]
    split_ifs with hcbf
    · rw [eq_comm, areaContention_eq_broadcast_iff, forall_prop_of_true hcbf]
    · exact iff_of_true rfl fun hcbf' => absurd hcbf' hcbf
  rw [← hdecision]
  refine ⟨fun hfollows => hfollows.decision, fun hsame => ⟨hsame, ?_⟩⟩
  rw [greedyTypes_inside h hin]
  simp

/-- A broadcast to everybody is what is configured for a sender that is not known. -/
theorem broadcast_eq_nonAreaConfigured_iff (h : AreaPacket mem buf pktType) :
    broadcast = nonAreaConfigured cfg geometry readings mem buf pktType nextAddr r ↔
      BroadcastAsConfigured cfg geometry readings mem buf r := by
  unfold nonAreaConfigured BroadcastAsConfigured
  split_ifs with hcbf
  · by_cases hown : gnAddrMatch (readAddr mem (buf + 16)) cfg.localAddr
    · rw [contention_own h.area hown]
      exact iff_of_true rfl hown
    · exact iff_of_false (contention_ne_broadcast h.area hown).symm hown
  · rw [h.headerType]
    rcases h.area with rfl | rfl
    · rw [eq_comm, greedy_eq_broadcast_iff, and_iff_right rfl]
    · rw [greedy_geobroadcast]
      exact iff_of_false (fun heq => absurd (congrArg Decision.ret heq)
        (show (1 : ℤ) ≠ -1 by decide)) fun hgac => absurd hgac.1 (by decide)

/-- What greedy forwarding decides is what is configured for a GAC. -/
theorem greedy_eq_nonAreaConfigured_iff :
    (if cfg.nonAreaForwardingAlgorithm = .cbf then
        greedy geometry mem buf .geoanycast (readings.epv 3)
          (nafCbf cfg geometry mem buf .geoanycast (readings.clock 4) (readings.epv 2)
            r).2.core.locTable (nafCbfNext cfg mem buf .geoanycast nextAddr)
      else greedy geometry mem buf .geoanycast (readings.epv 2) r.core.locTable nextAddr) =
        nonAreaConfigured cfg geometry readings mem buf .geoanycast nextAddr r ↔
      GreedyAsConfigured cfg geometry readings mem buf r := by
  unfold nonAreaConfigured GreedyAsConfigured
  dsimp only
  by_cases hcbf : cfg.nonAreaForwardingAlgorithm = .cbf
  · rw [if_pos hcbf, if_pos hcbf, forall_prop_of_true hcbf]
    by_cases hown : gnAddrMatch (readAddr mem (buf + 16)) cfg.localAddr
    · rw [if_pos hown, contention_own (.inl rfl) hown, snd_nafCbf hown, greedy_eq_broadcast_iff]
    · have hnext : nafCbfNext cfg mem buf .geoanycast nextAddr = nextAddr := by
        simp [nafCbfNext, afCbfNext, hown]
      rw [if_neg hown, hnext, snd_nafCbf_other (.inl rfl) hown]
      rcases contention_other geometry (readings.epv 2) nextAddr (readings.clock 4) r
        (.inl rfl) hown with
        ⟨hwaits, hdecision⟩ | ⟨hnot, hdecision⟩
      · rw [hdecision, greedy_eq_waits_iff, and_iff_right hwaits]
      · rw [hdecision]
        exact iff_of_false greedy_ne_discard fun hboth => hnot hboth.1
  · rw [if_neg hcbf, if_neg hcbf]
    exact iff_of_true rfl fun hcbf' => absurd hcbf' hcbf

/-- A packet of any type is decided about as it is configured exactly when the algorithm that
decides in the end comes to the same. -/
theorem followsConfiguration_iff (cfg : GnConfig) (geometry : Geometry) (readings : Readings)
    (mem : Memory) (buf : ℕ) (nextAddr : List UInt8) (r : Router) :
    FollowsConfiguration cfg geometry readings mem buf nextAddr r ↔
      DoesAsConfigured cfg geometry readings mem buf r := by
  by_cases htype : (mem (buf + 5)).toNat / 16 = PacketType.geoanycast.toNat ∨
      (mem (buf + 5)).toNat / 16 = PacketType.geobroadcast.toNat
  swap
  · exact iff_of_true (followsConfiguration_of_other (not_or.mp htype)) fun h => absurd h htype
  obtain ⟨pktType, h⟩ : ∃ pktType, AreaPacket mem buf pktType := by
    rcases htype with htype | htype
    · exact ⟨_, htype, .inl rfl⟩
    · exact ⟨_, htype, .inr rfl⟩
  unfold DoesAsConfigured
  dsimp only
  rw [forall_prop_of_true htype]
  split_ifs with hin
  · exact followsConfiguration_inside_iff h hin
  · have hgac : (mem (buf + 5)).toNat / 16 = PacketType.geoanycast.toNat ↔
        GreedyAccepts pktType := by
      rw [h.headerType, greedyAccepts_iff]
      rcases h.area with rfl | rfl <;> decide
    have hfollows : FollowsConfiguration cfg geometry readings mem buf nextAddr r ↔ _ ∧ _ :=
      ⟨fun h => ⟨h.decision, h.accepted⟩, fun h => ⟨h.1, h.2⟩⟩
    rw [hfollows, selected_outside h hin, configured_outside h hin, greedyTypes_outside h hin]
    cases r.found cfg (readings.clock 3) (readAddr mem (buf + 16)).mid with
    | none => simpa using broadcast_eq_nonAreaConfigured_iff h
    | some locTe =>
      by_cases hinside : EntryInArea geometry mem buf locTe
      · simp [hinside]
      · simp only [hinside, if_false, Option.any_some, decide_false, Bool.false_eq_true, false_or,
          List.mem_singleton, forall_eq]
        rw [hgac, and_comm]
        refine and_congr_right fun haccepts => ?_
        obtain rfl : pktType = .geoanycast := by
          rcases h.area with rfl | rfl
          · rfl
          · exact absurd (greedyAccepts_iff.mp haccepts) (by decide)
        exact greedy_eq_nonAreaConfigured_iff

/-- A GBC of another station that is in its area, where contention based forwarding is configured,
is broadcast at once. -/
theorem not_followsConfiguration :
    ¬ FollowsConfiguration (initDefaultConfig ⟨0, 0⟩) plane still
      (loaded [0x01, 0, 0, 1, 0x10, 0x40, 0, 0, 0, 0, 1, 0, 0, 0, 0, 0, 0, 0, 0, 0, 0, 0, 0, 1]) 0
      [0, 0, 0, 0, 0, 0] (.init fun _ => 0) := fun h =>
  absurd (congrArg Decision.ret h.decision) (by decide)

end Algorithms

end Tulux.GeoNetRouter
