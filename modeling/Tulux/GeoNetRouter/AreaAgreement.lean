import Tulux.GeoNetRouter.Receive
import Tulux.GeoNetRouter.RelativePosition

/-! The byte order of the numbers with which the router computes places and distances. -/
namespace Tulux.GeoNetRouter
open QCoder SortedMap GuardedRun

/-! ### Places in an area -/

/-- The numbers that the place of a station in the area of a packet is computed from. -/
structure AreaReading where
  latitude : ℤ
  longitude : ℤ
  gpLatitude : ℤ
  gpLongitude : ℤ
  angle : ℕ
  distA : ℕ
  distB : ℕ
  areaType : GeoAreaType

/-- The place that comes out of them. -/
def AreaReading.position (geometry : Geometry) (area : AreaReading) : ℤ :=
  geometry.geoRelativePosition area.latitude area.longitude area.gpLatitude area.gpLongitude
    area.angle area.distA area.distB area.areaType

/-- The distances and the coordinates on the globe. -/
structure Globe where
  geoDistance : ℤ → ℤ → ℤ → ℤ → ℤ
  cartesianTransform : ℤ → ℤ → ℤ → ℤ → ℕ → ℤ × ℤ

/-- The place of a station is that of its coordinates around the middle of the area; an overflow
leaves what the machine makes of it. -/
def Globe.geometry (globe : Globe) (overflowed : ℤ → ℤ → ℕ → ℕ → GeoAreaType → ℤ) : Geometry where
  geoDistance := globe.geoDistance
  geoRelativePosition latitude longitude gpLatitude gpLongitude angle distA distB areaType :=
    let (x, y) := globe.cartesianTransform latitude longitude gpLatitude gpLongitude angle
    (geoRelativePosition x y distA distB areaType).getD (overflowed x y distA distB areaType)

section Readings
variable (mem : Memory) (buf : ℕ)

/-- The numbers that `ForwardAlgorithmSelect` takes. -/
def selectedArea (latitude longitude : ℤ) : AreaReading where
  latitude := latitude
  longitude := longitude
  gpLatitude := s32 (read32 mem (buf + 40))
  gpLongitude := s32 (read32 mem (buf + 44))
  angle := read16 mem (buf + 52)
  distA := read16 mem (buf + 48)
  distB := read16 mem (buf + 50)
  areaType := .ofHst ((mem (buf + 5)).toNat % 16)

/-- The numbers that `ReceiveGBCGAC` takes. -/
def receivedArea (latitude longitude : ℤ) : AreaReading where
  latitude := latitude
  longitude := longitude
  gpLatitude := s32 (ntohl (read32 mem (buf + 40)))
  gpLongitude := s32 (ntohl (read32 mem (buf + 44)))
  angle := ntohs (read16 mem (buf + 52))
  distA := ntohs (read16 mem (buf + 48))
  distB := ntohs (read16 mem (buf + 50))
  areaType := .ofHst ((mem (buf + 5)).toNat % 16)

theorem areaPosition_eq (geometry : Geometry) (latitude longitude : ℤ) :
    areaPosition geometry mem buf latitude longitude =
      (selectedArea mem buf latitude longitude).position geometry := by
  simp only [areaPosition, AreaReading.position, selectedArea]

theorem receivedAreaPosition_eq (geometry : Geometry) (epv : Epv) :
    receivedAreaPosition geometry buf mem epv =
      (receivedArea mem buf epv.latitude epv.longitude).position geometry := by
  simp only [receivedAreaPosition, AreaReading.position, receivedArea]

end Readings

/-! ### Distances -/

/-- The arguments of a call of `GeoDistance`. -/
structure DistanceCall where
  latA : ℤ
  longA : ℤ
  latB : ℤ
  longB : ℤ

def DistanceCall.distance (geometry : Geometry) (call : DistanceCall) : ℤ :=
  geometry.geoDistance call.latA call.longA call.latB call.longB

/-- What `AF_CBF` computes its timeout from. -/
structure CbfConfig where
  minTime : ℤ
  maxTime : ℤ
  defaultMaxCommunicationRange : ℤ

section Calls
variable (cfg : GnConfig) (mem : Memory) (buf : ℕ) (pktType : PacketType) (now : ℕ) (epv : Epv)
  (r : Router)

/-- The numbers of a packet and of the table are taken as they are, or in another byte order. -/
abbrev ByteOrder := ℕ → ℕ

variable (order : ByteOrder)

/-- Where a packet goes to. -/
def targetIn : ℤ × ℤ :=
  if pktType = .geounicast then
    (s32 (order (read32 mem (buf + 52))), s32 (order (read32 mem (buf + 56))))
  else (s32 (order (read32 mem (buf + 40))), s32 (order (read32 mem (buf + 44))))

/-- From the target of a packet to a place. -/
def fromTarget (latitude longitude : ℤ) : DistanceCall :=
  ⟨(targetIn mem buf pktType order).1, (targetIn mem buf pktType order).2, latitude, longitude⟩

/-- The calls of `NAF_GF`, with those of `FindShortestLocTe`. -/
def nafGfCalls (table : Table) : List DistanceCall :=
  if pktType ≠ .geounicast ∧ pktType ≠ .geoanycast then []
  else
    fromTarget mem buf pktType order epv.latitude epv.longitude ::
      (table.filter fun e => e.2.isNeighbor).map fun e =>
        fromTarget mem buf pktType order (s32 (ntohl e.2.lpv.latitude))
          (s32 (ntohl e.2.lpv.longitude))

/-- The entry of the sender of a packet whose vector is precise, when it is another station. -/
def measuredSender : Option LocTableEntry :=
  if gnAddrMatch (readAddr mem (buf + 16)) cfg.localAddr then none
  else (r.found cfg now (readAddr mem (buf + 16)).mid).filter fun e => e.lpv.pai = 1

def nafCbfCalls : List DistanceCall :=
  if pktType ≠ .geounicast ∧ pktType ≠ .geoanycast ∧ pktType ≠ .geobroadcast then []
  else
    match measuredSender cfg mem buf now r with
    | none => []
    | some e =>
      [fromTarget mem buf pktType order epv.latitude epv.longitude,
        fromTarget mem buf pktType order (s32 (order e.lpv.latitude))
          (s32 (order e.lpv.longitude))]

def afCbfCalls : List DistanceCall :=
  match measuredSender cfg mem buf now r with
  | none => []
  | some e =>
    [⟨s32 (order e.lpv.latitude), s32 (order e.lpv.longitude), epv.latitude, epv.longitude⟩]

/-- The timeout of `AF_CBF`. -/
def afCbfTimeout (cbf : CbfConfig) (geometry : Geometry) : ℤ :=
  match measuredSender cfg mem buf now r with
  | none => cbf.minTime
  | some e =>
    let dist := geometry.geoDistance (s32 e.lpv.latitude) (s32 e.lpv.longitude) epv.latitude
      epv.longitude
    if dist ≤ cbf.defaultMaxCommunicationRange then
      cbf.maxTime + ((cbf.minTime - cbf.maxTime) * dist).tdiv cbf.defaultMaxCommunicationRange
    else cbf.minTime

end Calls

/-! ### The calls are all that matters -/

section Congruence
variable {cfg : GnConfig} {mem : Memory} {buf : ℕ} {pktType : PacketType} {now : ℕ} {epv : Epv}
  {r : Router} {table : Table} {geometry geometry' : Geometry}

theorem targetIn_id (mem : Memory) (buf : ℕ) (pktType : PacketType) :
    targetIn mem buf pktType id = packetTarget mem buf pktType := by
  unfold targetIn packetTarget
  split_ifs
  · rw [id, id]
  · rw [id, id]

theorem findShortestLocTe_congr {targetLat targetLong : ℤ}
    (h : ∀ e ∈ table, e.2.isNeighbor = true →
      geometry.geoDistance targetLat targetLong (s32 (ntohl e.2.lpv.latitude))
          (s32 (ntohl e.2.lpv.longitude)) =
        geometry'.geoDistance targetLat targetLong (s32 (ntohl e.2.lpv.latitude))
          (s32 (ntohl e.2.lpv.longitude))) :
    findShortestLocTe geometry targetLat targetLong table =
      findShortestLocTe geometry' targetLat targetLong table := by
  unfold findShortestLocTe
  refine List.foldl_ext _ _ _ fun best e he => ?_
  by_cases hneighbor : e.2.isNeighbor = true
  · rw [if_pos hneighbor, if_pos hneighbor, h e he hneighbor]
  · rw [if_neg hneighbor, if_neg hneighbor]

theorem nafGf_congr (h : ∀ call ∈ nafGfCalls mem buf pktType epv id table,
      call.distance geometry = call.distance geometry') :
    nafGf geometry mem buf pktType epv table = nafGf geometry' mem buf pktType epv table := by
  unfold nafGf
  unfold nafGfCalls at h
  by_cases htype : pktType ≠ .geounicast ∧ pktType ≠ .geoanycast
  · rw [if_pos htype, if_pos htype]
  · rw [if_neg htype, List.forall_mem_cons, List.forall_mem_map] at h
    simp only [fromTarget, targetIn_id, DistanceCall.distance] at h
    have hshortest := findShortestLocTe_congr fun e he hneighbor =>
      h.2 e (List.mem_filter.mpr ⟨he, hneighbor⟩)
    rw [if_neg htype, if_neg htype]
    dsimp only
    rw [h.1, hshortest]

theorem nafCbf_congr (h : ∀ call ∈ nafCbfCalls cfg mem buf pktType now epv r id,
      call.distance geometry = call.distance geometry') :
    nafCbf cfg geometry mem buf pktType now epv r =
      nafCbf cfg geometry' mem buf pktType now epv r := by
  unfold nafCbf
  unfold nafCbfCalls measuredSender at h
  by_cases htype : pktType ≠ .geounicast ∧ pktType ≠ .geoanycast ∧ pktType ≠ .geobroadcast
  · rw [if_pos htype, if_pos htype]
  rw [if_neg htype] at h ⊢
  rw [if_neg htype]
  dsimp only
  by_cases hown : gnAddrMatch (readAddr mem (buf + 16)) cfg.localAddr = true
  · rw [if_pos hown, if_pos hown]
  rw [if_neg hown] at h ⊢
  rw [if_neg hown]
  cases hfound : r.found cfg now (readAddr mem (buf + 16)).mid with
  | none => rfl
  | some e =>
    dsimp only
    by_cases hpai : e.lpv.pai = 1
    · rw [hfound, Option.filter_some, if_pos (by simpa using hpai)] at h
      simp only [List.forall_mem_cons, fromTarget, targetIn_id, DistanceCall.distance, id_eq] at h
      rw [if_pos hpai, if_pos hpai, h.1, h.2.1]
    · rw [if_neg hpai, if_neg hpai]

theorem afCbfTimeout_congr (cbf : CbfConfig) (h : ∀ call ∈ afCbfCalls cfg mem buf now epv r id,
      call.distance geometry = call.distance geometry') :
    afCbfTimeout cfg mem buf now epv r cbf geometry =
      afCbfTimeout cfg mem buf now epv r cbf geometry' := by
  unfold afCbfTimeout
  unfold afCbfCalls at h
  cases hsender : measuredSender cfg mem buf now r with
  | none => rfl
  | some e =>
    rw [hsender, List.forall_mem_singleton] at h
    simp only [DistanceCall.distance, id_eq] at h
    dsimp only
    rw [h]

end Congruence

/-! ### Both byte orders -/

/-- A word that is the same number in both byte orders. -/
def SameWord (n : ℕ) : Prop := ntohl n = n % 2 ^ 32

/-- The area of a packet is the same in both byte orders. -/
structure SameArea (mem : Memory) (buf : ℕ) : Prop where
  latitude : SameWord (read32 mem (buf + 40))
  longitude : SameWord (read32 mem (buf + 44))
  angle : ntohs (read16 mem (buf + 52)) = read16 mem (buf + 52)
  distA : ntohs (read16 mem (buf + 48)) = read16 mem (buf + 48)
  distB : ntohs (read16 mem (buf + 50)) = read16 mem (buf + 50)

/-- Where a packet goes to is the same in both byte orders. -/
def SameTarget (mem : Memory) (buf : ℕ) (pktType : PacketType) : Prop :=
  if pktType = .geounicast then
    SameWord (read32 mem (buf + 52)) ∧ SameWord (read32 mem (buf + 56))
  else SameWord (read32 mem (buf + 40)) ∧ SameWord (read32 mem (buf + 44))

def SamePlace (e : LocTableEntry) : Prop :=
  SameWord e.lpv.latitude ∧ SameWord e.lpv.longitude

section Iff
variable {cfg : GnConfig} {mem : Memory} {buf : ℕ} {pktType : PacketType} {now : ℕ} {epv : Epv}
  {r : Router} {table : Table}

theorem s32_eq_iff {x y : ℤ} : s32 x = s32 y ↔ x % 2 ^ 32 = y % 2 ^ 32 := by
  rw [s32, s32, Int.bmod, Int.bmod]
  split_ifs <;> omega

theorem s32_ntohl_iff (n : ℕ) : s32 n = s32 (ntohl n) ↔ SameWord n := by
  have hlt := ntohl_lt n
  rw [s32_eq_iff, SameWord]
  omega

theorem sameTarget_iff : targetIn mem buf pktType id = targetIn mem buf pktType ntohl ↔
    SameTarget mem buf pktType := by
  unfold targetIn SameTarget
  split_ifs
  · rw [Prod.mk.injEq, id, id, s32_ntohl_iff, s32_ntohl_iff]
  · rw [Prod.mk.injEq, id, id, s32_ntohl_iff, s32_ntohl_iff]

theorem selectedArea_iff {latitude longitude : ℤ} :
    selectedArea mem buf latitude longitude = receivedArea mem buf latitude longitude ↔
      SameArea mem buf := by
  simp only [selectedArea, receivedArea, AreaReading.mk.injEq, s32_ntohl_iff, true_and, and_true]
  constructor
  · rintro ⟨hlat, hlong, hangle, hdistA, hdistB⟩
    exact ⟨hlat, hlong, hangle.symm, hdistA.symm, hdistB.symm⟩
  · intro h
    exact ⟨h.latitude, h.longitude, h.angle.symm, h.distA.symm, h.distB.symm⟩

theorem fromTarget_iff {order order' : ByteOrder} {latitude longitude : ℤ} :
    fromTarget mem buf pktType order latitude longitude =
        fromTarget mem buf pktType order' latitude longitude ↔
      targetIn mem buf pktType order = targetIn mem buf pktType order' := by
  simp [fromTarget, Prod.ext_iff]

theorem nafGfCalls_iff :
    nafGfCalls mem buf pktType epv id table = nafGfCalls mem buf pktType epv ntohl table ↔
      (pktType = .geounicast ∨ pktType = .geoanycast → SameTarget mem buf pktType) := by
  unfold nafGfCalls
  split_ifs with htype
  · exact iff_of_true rfl fun h => absurd h (by tauto)
  · rw [imp_iff_right (by tauto), ← sameTarget_iff]
    constructor
    · intro h
      exact fromTarget_iff.mp (List.cons.inj h).1
    · intro h
      simp only [fromTarget, h]

theorem nafCbfCalls_iff : nafCbfCalls cfg mem buf pktType now epv r id =
      nafCbfCalls cfg mem buf pktType now epv r ntohl ↔
    (pktType = .geounicast ∨ pktType = .geoanycast ∨ pktType = .geobroadcast →
      ∀ e, measuredSender cfg mem buf now r = some e →
        SameTarget mem buf pktType ∧ SamePlace e) := by
  unfold nafCbfCalls
  split_ifs with htype
  · exact iff_of_true rfl fun h => absurd h (by tauto)
  · rw [imp_iff_right (by tauto)]
    cases measuredSender cfg mem buf now r with
    | none => simp
    | some e =>
      simp only [Option.some_inj, forall_eq', ← sameTarget_iff, SamePlace, ← s32_ntohl_iff]
      constructor
      · intro h
        obtain ⟨htarget, hrest⟩ := List.cons.inj h
        have hsender := (List.cons.inj hrest).1
        simp only [fromTarget, DistanceCall.mk.injEq, id_eq] at hsender
        exact ⟨fromTarget_iff.mp htarget, hsender.2.2⟩
      · rintro ⟨htarget, hlat, hlong⟩
        simp only [fromTarget, htarget, id_eq, hlat, hlong]

theorem afCbfCalls_iff :
    afCbfCalls cfg mem buf now epv r id = afCbfCalls cfg mem buf now epv r ntohl ↔
      ∀ e, measuredSender cfg mem buf now r = some e → SamePlace e := by
  unfold afCbfCalls
  cases measuredSender cfg mem buf now r with
  | none => simp
  | some e => simp [SamePlace, s32_ntohl_iff]

end Iff

/-! ### The functions together -/

/-- The packet has an area. -/
def HasArea (pktType : PacketType) : Prop := pktType = .geoanycast ∨ pktType = .geobroadcast

section Together
variable (cfg : GnConfig) (mem : Memory) (buf : ℕ) (pktType : PacketType) (now : ℕ) (epv : Epv)
  (r : Router)

/-- The receiver of a packet with an area and its forwarding take the same numbers, and so have the
same place of the station; and all distances are those between numbers in host byte order. -/
structure HostOrder : Prop where
  area : HasArea pktType → selectedArea mem buf epv.latitude epv.longitude =
    receivedArea mem buf epv.latitude epv.longitude
  agree : HasArea pktType → ∀ (globe : Globe) overflowed,
    areaPosition (globe.geometry overflowed) mem buf epv.latitude epv.longitude =
      receivedAreaPosition (globe.geometry overflowed) buf mem epv
  nafGf : nafGfCalls mem buf pktType epv id r.core.locTable =
    nafGfCalls mem buf pktType epv ntohl r.core.locTable
  nafCbf : nafCbfCalls cfg mem buf pktType now epv r id =
    nafCbfCalls cfg mem buf pktType now epv r ntohl
  afCbf : afCbfCalls cfg mem buf now epv r id = afCbfCalls cfg mem buf now epv r ntohl

/-- The numbers that are not converted are the same in both byte orders. -/
structure SameNumbers : Prop where
  area : HasArea pktType → SameArea mem buf
  target : pktType = .geounicast → SameTarget mem buf .geounicast
  sender : ∀ e, measuredSender cfg mem buf now r = some e → SamePlace e

end Together

/-- A globe that is flat, with a unit of a thousand. -/
def flatGlobe : Globe where
  geoDistance latA longA latB longB := max |latA - latB| |longA - longB|
  cartesianTransform latitude longitude gpLatitude gpLongitude _ :=
    ((latitude - gpLatitude) / 1000, (longitude - gpLongitude) / 1000)

/-- A GBC to a circle of 257 around the latitude 1. -/
def circlePacket : Memory := fun a =>
  if a = 5 then 0x40 else if a = 43 ∨ a = 48 ∨ a = 49 ∨ a = 50 ∨ a = 51 then 1 else 0

end Tulux.GeoNetRouter
