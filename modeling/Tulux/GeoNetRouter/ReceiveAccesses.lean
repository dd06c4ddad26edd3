import Tulux.GeoNetRouter.Receive
import Tulux.Lib.Access

/-! The memory that the router reads for a received packet: the packet, the copy it makes to pass the
packet on, and the tables of names for its log. -/
namespace Tulux.GeoNetRouter
open QCoder SortedMap GuardedRun

/-! ### What the functions look at -/

/-- How many bytes of the addresses `GnAddrMatch` compares behind the station types. -/
def midCompared (addr₁ addr₂ : GnAddr) : ℕ :=
  if addr₁.st = addr₂.st then
    ((List.range 6).takeWhile fun i =>
      addr₁.mid.val / 2 ^ (8 * (6 - i)) = addr₂.mid.val / 2 ^ (8 * (6 - i))).length
  else 0

/-- Where the destination of a packet is. -/
def targetAt (pktType : PacketType) : ℕ := if pktType = .geounicast then 52 else 40

section Accesses
variable (cfg : GnConfig) (geometry : Geometry) (readings : Readings) (logLevel : ℤ)
  (buf size bufLen : ℕ)

namespace Router

/-- Whether the number of the packet is on the list of its source. -/
def duplicate (r : Router) : Bool :=
  (r.found cfg (readings.clock 0) (r.soMid buf)).any
    fun e => e.isDuplicated (packetSn r.core.mem buf)

/-- The router behind the check for duplicates. -/
def checked (r : Router) : Router :=
  (r.checkDuplicate cfg (readings.clock 0) (r.soMid buf) (packetSn r.core.mem buf)).2

/-- Whether `Update` copies the position vector. -/
def storesVector (now soPv : ℕ) (r : Router) : Bool :=
  match r.found cfg now (r.core.view (soPv + 2)) with
  | some e => LocTableEntry.moves (ntohl (read32 r.core.mem (soPv + 8))) (ntohl e.lpv.tst)
  | none => true

/-- Where the part of a position vector ends that `Update` reads. -/
def vectorEnd (now start : ℕ) (r : Router) : ℕ :=
  if r.storesVector cfg now (buf + start) then start + 24 else start + 12

/-- Whether a packet for another station is not passed on. -/
def gucEnds (r : Router) : Bool :=
  (cfg.nonAreaForwardingAlgorithm ≠ .cbf ∧ r.duplicate cfg readings buf) ∨
    r.core.mem (buf + 3) = 0 ∨ (r.core.neighborCount = 0 ∧ tcScf (packetTc r.core.mem buf))

/-- Whether `ReceiveGUC` comes to a `return`. -/
def gucReturns (r : Router) : Bool :=
  if gnAddrMatch (readAddr r.core.mem (buf + 40)) cfg.localAddr then r.duplicate cfg readings buf
  else r.gucEnds cfg readings buf

end Router

/-! ### Accesses

They are given by their offsets in the packet, of which `size` bytes were received, and `bufLen` is
the length that the functions are told. -/

def gnAddrMatchAccesses (start : ℕ) (addr₁ addr₂ : GnAddr) : List Access :=
  [⟨size, start, 2⟩, ⟨size, start + 2, midCompared addr₁ addr₂⟩]

def updateAccesses (now start : ℕ) (r : Router) : List Access :=
  ⟨size, start + 2, 6⟩ ::
    if r.storesVector cfg now (buf + start) then [⟨size, start, 24⟩] else [⟨size, start + 8, 4⟩]

def processSourceAccesses (r : Router) : List Access :=
  ⟨size, 18, 6⟩ ::
    (if (r.found cfg (readings.clock 0) (r.soMid buf)).isSome then [⟨size, 12, 2⟩] else []) ++
    if r.duplicate cfg readings buf then []
    else updateAccesses cfg buf size (readings.clock 1) 16 (r.checked cfg readings buf)

def receiveBeaconOrShbAccesses (shb : Bool) (r : Router) : List Access :=
  -- the position vector is printed
  (if shb ∧ 2 < logLevel then [⟨size, 12, 24⟩] else []) ++
    updateAccesses cfg buf size (readings.clock 0) 12 r

def nafGfAccesses (pktType : PacketType) : List Access :=
  if pktType ≠ .geounicast ∧ pktType ≠ .geoanycast then []
  else [⟨size, targetAt pktType, 8⟩, ⟨size, 6, 1⟩]

/-- The source is looked up unless it is this station. -/
def afCbfAccesses (mem : Memory) : List Access :=
  let soAddr := readAddr mem (buf + 16)
  gnAddrMatchAccesses size 16 soAddr cfg.localAddr ++
    if gnAddrMatch soAddr cfg.localAddr then [] else [⟨size, 18, 6⟩]

def nafCbfAccesses (pktType : PacketType) (mem : Memory) : List Access :=
  ⟨size, targetAt pktType, 8⟩ :: afCbfAccesses cfg buf size mem

def receiveGucAccesses (r : Router) : List Access :=
  let mem := r.core.mem
  let deAddr := readAddr mem (buf + 40)
  gnAddrMatchAccesses size 40 deAddr cfg.localAddr ++
    if gnAddrMatch deAddr cfg.localAddr then
      ⟨size, 12, 2⟩ :: processSourceAccesses cfg readings buf size r
    else
      (if cfg.nonAreaForwardingAlgorithm ≠ .cbf then
        ⟨size, 12, 2⟩ :: processSourceAccesses cfg readings buf size r
      else updateAccesses cfg buf size (readings.clock 1) 16 r) ++
      if r.gucEnds cfg readings buf then []
      else if cfg.nonAreaForwardingAlgorithm = .cbf then
        nafCbfAccesses cfg buf size .geounicast mem
      else nafGfAccesses size .geounicast

/-- `size` is that of the object that the packet is read from. -/
def forwardAlgorithmSelectAccesses (r : Router) : List Access :=
  let mem := r.core.mem
  let ht := (mem (buf + 5)).toNat / 16
  let soAddr := readAddr mem (buf + 16)
  let epv := readings.epv 1
  ⟨size, 5, 1⟩ ::
    if ht ≠ PacketType.geoanycast.toNat ∧ ht ≠ PacketType.geobroadcast.toNat then []
    else [⟨size, 40, 8⟩, ⟨size, 48, 6⟩] ++
      if 0 ≤ areaPosition geometry mem buf epv.latitude epv.longitude then
        match cfg.areaForwardingAlgorithm with
        | .cbf => afCbfAccesses cfg buf size mem
        | _ => []
      else ⟨size, 18, 6⟩ ::
        match r.found cfg (readings.clock 3) soAddr.mid with
        | some locTe => ⟨size, 40, 14⟩ ::
            let f := areaPosition geometry mem buf (s32 locTe.lpv.latitude)
              (s32 locTe.lpv.longitude)
            if locTe.lpv.pai = 1 ∧ 0 ≤ f then []
            else
              match cfg.nonAreaForwardingAlgorithm with
              | .cbf => nafCbfAccesses cfg buf size (.ofHt ht) mem ++ nafGfAccesses size (.ofHt ht)
              | _ => nafGfAccesses size (.ofHt ht)
        | none => []

/-- Inside the area the packet is copied, and the copy is freed before it is used. -/
def receiveGbcGacAccesses (r : Router) : List Access :=
  let inArea : Bool := 0 ≤ receivedAreaPosition geometry buf r.core.mem (readings.epv 0)
  let passed := (r.processSource cfg readings buf).2
  let object := if inArea then 0 else size
  [⟨size, 40, 8⟩, ⟨size, 48, 6⟩] ++ processSourceAccesses cfg readings buf size r ++
    if r.duplicate cfg readings buf then []
    else
      (if inArea then [⟨size, 0, bufLen⟩] else []) ++
      if 0 < (r.core.mem (buf + 3)).toNat then
        if r.core.neighborCount = 0 then [⟨object, 0, bufLen⟩]
        else
          forwardAlgorithmSelectAccesses cfg geometry readings buf object passed ++
          if (forwardAlgorithmSelect cfg geometry readings r.core.mem buf passed).1 = 0 then
            [⟨object, 0, bufLen⟩]
          else []
      else []

def receiveLocationServiceAccesses (hst : ℕ) (r : Router) : List Access :=
  let addr := readAddr r.core.mem (buf + 40)
  gnAddrMatchAccesses size 40 addr cfg.localAddr ++
    if gnAddrMatch addr cfg.localAddr then processSourceAccesses cfg readings buf size r
    else if hst = 0 then []
    else receiveGucAccesses cfg readings buf size r

/-- The copy has one byte. -/
def receiveTsbAccesses (r : Router) : List Access :=
  processSourceAccesses cfg readings buf size r ++
    if r.duplicate cfg readings buf then []
    else if 0 < (r.core.mem (buf + 3)).toNat then
      ⟨size, 0, bufLen⟩ ::
        if r.core.neighborCount = 0 ∧ tcScf (packetTc r.core.mem buf) then [⟨1, 0, bufLen⟩] else []
    else []

/-- The names of the next header, the type and the subtype, and the rest of the common header. -/
def commonHeaderNames (mem : Memory) : List Access :=
  let ht := (mem (buf + 5)).toNat / 16
  let names := if ht = PacketType.tsb.toNat ∨ ht = PacketType.ls.toNat then 2 else 3
  [⟨4, (mem (buf + 4)).toNat / 16, 1⟩, ⟨7, ht, 1⟩, ⟨names, (mem (buf + 5)).toNat % 16, 1⟩,
    ⟨size, 6, 5⟩]

def dispatchAccesses (r : Router) : List Access :=
  let hst := (r.core.mem (buf + 5)).toNat % 16
  match PacketType.ofHt ((r.core.mem (buf + 5)).toNat / 16) with
  | .any => []
  | .beacon => receiveBeaconOrShbAccesses cfg readings logLevel buf size false r
  | .geounicast => receiveGucAccesses cfg readings buf size r
  | .geoanycast | .geobroadcast =>
    receiveGbcGacAccesses cfg geometry readings buf size bufLen r
  | .tsb =>
    if hst = 0 then receiveBeaconOrShbAccesses cfg readings logLevel buf size true r
    else receiveTsbAccesses cfg readings buf size bufLen r
  | .ls => receiveLocationServiceAccesses cfg readings buf size hst r

/-- The first ten bytes are printed whatever the length is. -/
def receiveAccesses (data : GnData) (r : Router) : List Access :=
  ⟨size, 0, 10⟩ ::
    if !basicHeaderOk r.core.mem buf then []
    else
      (if 2 < logLevel then [⟨3, (r.core.mem buf).toNat % 16, 1⟩] else []) ++
      let r := r.perform cfg (.write (decrementRhl r.core.mem buf))
      if !commonHeaderOk r.core.mem buf then []
      else
        ⟨size, 10, 1⟩ ::
          if (r.core.mem (buf + 10)).toNat < (r.core.mem (buf + 3)).toNat then []
          else
            (if 2 < logLevel then commonHeaderNames buf size r.core.mem else []) ++
            let r := r.perform cfg (.write (writeBytes r.core.mem data.dAddr llBc))
            dispatchAccesses cfg geometry readings logLevel buf size bufLen r

end Accesses

/-! ### When they lie inside -/

section Bounds
open Access
variable {cfg : GnConfig} {geometry : Geometry} {readings : Readings} {logLevel : ℤ}
  {buf size bufLen now start hst : ℕ} {addr₁ addr₂ : GnAddr} {mem : Memory} {data : GnData}
  {r : Router}

theorem midCompared_le (addr₁ addr₂ : GnAddr) : midCompared addr₁ addr₂ ≤ 6 := by
  unfold midCompared
  split_ifs
  · refine (List.takeWhile_sublist _).length_le.trans ?_
    simp
  · exact Nat.zero_le 6

theorem gnAddrMatchAccesses_inside_iff : AllInside (gnAddrMatchAccesses size start addr₁ addr₂) ↔
    start + 2 + midCompared addr₁ addr₂ ≤ size := by
  simp [gnAddrMatchAccesses]
  omega

theorem vectorEnd_le : r.vectorEnd cfg buf now start ≤ start + 24 := by
  unfold Router.vectorEnd
  split_ifs
  · exact le_rfl
  · omega

theorem updateAccesses_inside_iff : AllInside (updateAccesses cfg buf size now start r) ↔
    r.vectorEnd cfg buf now start ≤ size := by
  unfold updateAccesses Router.vectorEnd
  split_ifs
  · simp
    omega
  · simp
    omega

theorem updateAccesses_inside (h : start + 24 ≤ size) :
    AllInside (updateAccesses cfg buf size now start r) :=
  updateAccesses_inside_iff.mpr (vectorEnd_le.trans h)

theorem processSourceAccesses_inside_iff :
    AllInside (processSourceAccesses cfg readings buf size r) ↔ 24 ≤ size ∧
      (r.duplicate cfg readings buf = false →
        (r.checked cfg readings buf).vectorEnd cfg buf (readings.clock 1) 16 ≤ size) := by
  have hsn : 24 ≤ size → AllInside (if (r.found cfg (readings.clock 0) (r.soMid buf)).isSome then
      [⟨size, 12, 2⟩] else []) := by
    intro hsize
    split_ifs
    · simp
      omega
    · exact allInside_nil
  unfold processSourceAccesses
  cases hdup : r.duplicate cfg readings buf with
  | true => simpa using hsn
  | false =>
    simp [updateAccesses_inside_iff]
    tauto

theorem processSourceAccesses_inside (h : 40 ≤ size) :
    AllInside (processSourceAccesses cfg readings buf size r) :=
  processSourceAccesses_inside_iff.mpr ⟨by omega, fun _ => vectorEnd_le.trans h⟩

theorem receiveBeaconOrShbAccesses_inside_iff {shb : Bool} :
    AllInside (receiveBeaconOrShbAccesses cfg readings logLevel buf size shb r) ↔
      (if shb ∧ 2 < logLevel then 36 else r.vectorEnd cfg buf (readings.clock 0) 12) ≤ size := by
  have hend : r.vectorEnd cfg buf (readings.clock 0) 12 ≤ 36 := vectorEnd_le
  unfold receiveBeaconOrShbAccesses
  split_ifs
  · simp [updateAccesses_inside_iff]
    omega
  · simp [updateAccesses_inside_iff]

theorem ofHt_geounicast {ht : ℕ} (h : PacketType.ofHt ht = .geounicast) : ht = 2 := by
  unfold PacketType.ofHt at h
  split at h <;> simp_all

theorem afCbfAccesses_inside (h : 24 ≤ size) : AllInside (afCbfAccesses cfg buf size mem) := by
  have hcompared := midCompared_le (readAddr mem (buf + 16)) cfg.localAddr
  unfold afCbfAccesses
  rw [allInside_append, gnAddrMatchAccesses_inside_iff]
  refine ⟨by omega, ?_⟩
  split_ifs
  · exact allInside_nil
  · simp
    omega

theorem nafCbfAccesses_inside (h : 54 ≤ size) {pktType : PacketType}
    (hguc : pktType ≠ .geounicast) : AllInside (nafCbfAccesses cfg buf size pktType mem) := by
  have hcbf : AllInside (afCbfAccesses cfg buf size mem) := afCbfAccesses_inside (by omega)
  simp [nafCbfAccesses, targetAt, hguc, hcbf]
  omega

theorem nafGfAccesses_inside (h : 54 ≤ size) {pktType : PacketType}
    (hguc : pktType ≠ .geounicast) : AllInside (nafGfAccesses size pktType) := by
  unfold nafGfAccesses
  split_ifs
  · exact allInside_nil
  · simp [targetAt, hguc]
    omega

theorem forwardAlgorithmSelectAccesses_freed :
    ¬ AllInside (forwardAlgorithmSelectAccesses cfg geometry readings buf 0 r) := by
  simp [forwardAlgorithmSelectAccesses]

theorem forwardAlgorithmSelectAccesses_inside (h : 54 ≤ size) :
    AllInside (forwardAlgorithmSelectAccesses cfg geometry readings buf size r) := by
  have hcbf : AllInside (afCbfAccesses cfg buf size r.core.mem) := afCbfAccesses_inside (by omega)
  unfold forwardAlgorithmSelectAccesses
  refine (allInside_cons _ _).mpr ⟨by simp; omega, ?_⟩
  by_cases hother : (r.core.mem (buf + 5)).toNat / 16 ≠ PacketType.geoanycast.toNat ∧
      (r.core.mem (buf + 5)).toNat / 16 ≠ PacketType.geobroadcast.toNat
  · rw [if_pos hother]
    exact allInside_nil
  rw [if_neg hother]
  have hguc : PacketType.ofHt ((r.core.mem (buf + 5)).toNat / 16) ≠ .geounicast := by
    intro hguc
    simp [ofHt_geounicast hguc, PacketType.toNat] at hother
  have hnaf : AllInside (nafCbfAccesses cfg buf size (.ofHt ((r.core.mem (buf + 5)).toNat / 16))
      r.core.mem) := nafCbfAccesses_inside h hguc
  have hgf : AllInside (nafGfAccesses size (.ofHt ((r.core.mem (buf + 5)).toNat / 16))) :=
    nafGfAccesses_inside h hguc
  refine (allInside_append _ _).mpr ⟨by simp; omega, ?_⟩
  split_ifs
  · split
    · exact hcbf
    · exact allInside_nil
  · refine (allInside_cons _ _).mpr ⟨by simp; omega, ?_⟩
    split
    · refine (allInside_cons _ _).mpr ⟨by simp; omega, ?_⟩
      dsimp only
      split_ifs
      · exact allInside_nil
      · split
        · exact (allInside_append _ _).mpr ⟨hnaf, hgf⟩
        · exact hgf
    · exact allInside_nil

theorem toNat_pos {byte : UInt8} : 0 < byte.toNat ↔ byte ≠ 0 := by
  rw [Nat.pos_iff_ne_zero, ne_eq, ne_eq, ← UInt8.toNat_inj]
  rfl

theorem receiveGbcGacAccesses_inside_iff (hlen : bufLen = size) :
    AllInside (receiveGbcGacAccesses cfg geometry readings buf size bufLen r) ↔
      54 ≤ size ∧ (r.duplicate cfg readings buf ∨ r.core.mem (buf + 3) = 0 ∨
        receivedAreaPosition geometry buf r.core.mem (readings.epv 0) < 0) := by
  have hheader : AllInside [⟨size, 40, 8⟩, ⟨size, 48, 6⟩] ↔ 54 ≤ size := by
    simp
    omega
  unfold receiveGbcGacAccesses
  rw [allInside_append, allInside_append, hheader, and_assoc]
  refine and_congr_right fun hsize => ?_
  have hsource : AllInside (processSourceAccesses cfg readings buf size r) :=
    processSourceAccesses_inside (by omega)
  rw [and_iff_right hsource]
  cases hdup : r.duplicate cfg readings buf with
  | true => simp
  | false =>
    have hforward : AllInside (forwardAlgorithmSelectAccesses cfg geometry readings buf size
        (r.processSource cfg readings buf).2) := forwardAlgorithmSelectAccesses_inside hsize
    subst hlen
    by_cases harea : receivedAreaPosition geometry buf r.core.mem (readings.epv 0) < 0
    · have hout : ¬ 0 ≤ receivedAreaPosition geometry buf r.core.mem (readings.epv 0) := by omega
      simp only [harea, hout, decide_false, Bool.false_eq_true, if_false, List.nil_append, or_true,
        iff_true]
      split_ifs <;> simp [hforward]
    · have hin : 0 ≤ receivedAreaPosition geometry buf r.core.mem (readings.epv 0) := by omega
      simp only [harea, hin, decide_true, if_true, Bool.false_eq_true, if_false, false_or, or_false]
      by_cases hhops : r.core.mem (buf + 3) = 0
      · simp [hhops]
      · rw [if_pos (toNat_pos.mpr hhops)]
        refine iff_of_false (fun hall => ?_) hhops
        have hcopied := ((allInside_append _ _).mp hall).2
        split_ifs at hcopied
        · simp at hcopied
          omega
        · have hselected := ((allInside_append _ _).mp hcopied).1
          exact forwardAlgorithmSelectAccesses_freed hselected
        · have hselected := ((allInside_append _ _).mp hcopied).1
          exact forwardAlgorithmSelectAccesses_freed hselected

theorem receiveTsbAccesses_inside_iff (hlen : bufLen = size) :
    AllInside (receiveTsbAccesses cfg readings buf size bufLen r) ↔
      if r.duplicate cfg readings buf then 24 ≤ size
      else (r.checked cfg readings buf).vectorEnd cfg buf (readings.clock 1) 16 ≤ size ∧
        (r.core.mem (buf + 3) = 0 ∨ r.core.neighborCount ≠ 0 ∨
          !tcScf (packetTc r.core.mem buf)) := by
  have hend : 28 ≤ (r.checked cfg readings buf).vectorEnd cfg buf (readings.clock 1) 16 := by
    unfold Router.vectorEnd
    split_ifs
    · omega
    · omega
  subst hlen
  unfold receiveTsbAccesses
  rw [allInside_append, processSourceAccesses_inside_iff]
  cases hdup : r.duplicate cfg readings buf with
  | true => simp
  | false =>
    simp only [Bool.false_eq_true, if_false, true_imp_iff]
    by_cases hhops : r.core.mem (buf + 3) = 0
    · simp [hhops]
      omega
    · rw [if_pos (toNat_pos.mpr hhops)]
      by_cases hqueued : r.core.neighborCount = 0 ∧ tcScf (packetTc r.core.mem buf)
      · simp [hhops, hqueued]
        omega
      · have hkept : r.core.neighborCount ≠ 0 ∨ !tcScf (packetTc r.core.mem buf) := by
          rw [Bool.not_eq_true']
          by_contra hnone
          rw [not_or, not_not, Bool.not_eq_false] at hnone
          exact hqueued hnone
        rw [if_neg hqueued, or_iff_right hhops, and_iff_left hkept]
        simp
        omega

theorem receiveGucAccesses_inside_iff (hreturns : r.gucReturns cfg readings buf = true) :
    AllInside (receiveGucAccesses cfg readings buf size r) ↔
      42 + midCompared (readAddr r.core.mem (buf + 40)) cfg.localAddr ≤ size := by
  unfold receiveGucAccesses
  rw [allInside_append, gnAddrMatchAccesses_inside_iff]
  refine and_iff_left_of_imp fun hsize => ?_
  have hsource : AllInside (processSourceAccesses cfg readings buf size r) :=
    processSourceAccesses_inside (by omega)
  have hupdate : AllInside (updateAccesses cfg buf size (readings.clock 1) 16 r) :=
    updateAccesses_inside (by omega)
  unfold Router.gucReturns at hreturns
  by_cases hmatch : gnAddrMatch (readAddr r.core.mem (buf + 40)) cfg.localAddr
  · rw [if_pos hmatch]
    exact (allInside_cons _ _).mpr ⟨by simp; omega, hsource⟩
  · rw [if_neg hmatch] at hreturns ⊢
    rw [if_pos hreturns, List.append_nil]
    split_ifs
    · exact (allInside_cons _ _).mpr ⟨by simp; omega, hsource⟩
    · exact hupdate

theorem receiveLocationServiceAccesses_inside_iff
    (hreturns : hst = 0 ∨ gnAddrMatch (readAddr r.core.mem (buf + 40)) cfg.localAddr ∨
      r.gucReturns cfg readings buf) :
    AllInside (receiveLocationServiceAccesses cfg readings buf size hst r) ↔
      42 + midCompared (readAddr r.core.mem (buf + 40)) cfg.localAddr ≤ size := by
  unfold receiveLocationServiceAccesses
  rw [allInside_append, gnAddrMatchAccesses_inside_iff]
  refine and_iff_left_of_imp fun hsize => ?_
  split_ifs with hmatch hrequest
  · exact processSourceAccesses_inside (by omega)
  · exact allInside_nil
  · exact (receiveGucAccesses_inside_iff ((hreturns.resolve_left hrequest).resolve_left hmatch)).mpr
      hsize

end Bounds

end Tulux.GeoNetRouter
