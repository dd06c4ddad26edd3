import Tulux.GeoNetRouter.ReceiveAccesses
import Tulux.GeoNetRouter.RoundTrip

/-! When receiving a packet stays inside the received bytes and returns a value that was set. -/
namespace Tulux.GeoNetRouter
open QCoder SortedMap GuardedRun

section Fits
variable (cfg : GnConfig) (geometry : Geometry) (readings : Readings) (logLevel : ℤ) (buf size : ℕ)

/-- The packet is long enough for what is read of its header, the function for its type comes to a
`return`, and no copy of the packet is read. -/
def KindFits (r : Router) : Prop :=
  let mem := r.core.mem
  let hst := (mem (buf + 5)).toNat % 16
  let addressEnd := 42 + midCompared (readAddr mem (buf + 40)) cfg.localAddr
  match PacketType.ofHt ((mem (buf + 5)).toNat / 16) with
  | .any => True
  | .beacon => r.vectorEnd cfg buf (readings.clock 0) 12 ≤ size
  | .geounicast => addressEnd ≤ size ∧ r.gucReturns cfg readings buf
  | .geoanycast | .geobroadcast => 54 ≤ size ∧ (r.duplicate cfg readings buf ∨
      mem (buf + 3) = 0 ∨ receivedAreaPosition geometry buf mem (readings.epv 0) < 0)
  | .tsb =>
    if hst = 0 then
      (if 2 < logLevel then 36 else r.vectorEnd cfg buf (readings.clock 0) 12) ≤ size
    else if r.duplicate cfg readings buf then 24 ≤ size
    else
      (r.checked cfg readings buf).vectorEnd cfg buf (readings.clock 1) 16 ≤ size ∧
        (mem (buf + 3) = 0 ∨ r.core.neighborCount ≠ 0 ∨ !tcScf (packetTc mem buf))
  | .ls => addressEnd ≤ size ∧ (hst = 0 ∨ gnAddrMatch (readAddr mem (buf + 40)) cfg.localAddr ∨
      r.gucReturns cfg readings buf)

/-- A packet that passes the checks of its headers fits, and its subtype has a name when it is
printed. -/
def Fits (data : GnData) (r : Router) : Prop :=
  let mem := decrementRhl r.core.mem buf
  10 ≤ size ∧ (basicHeaderOk r.core.mem buf → commonHeaderOk mem buf →
    11 ≤ size ∧ ((mem (buf + 3)).toNat ≤ (mem (buf + 10)).toNat →
      (2 < logLevel → (mem (buf + 5)).toNat % 16 ≤ 2) ∧
        KindFits cfg geometry readings logLevel buf size (r.headersRead cfg buf data.dAddr)))

end Fits

section Bounds
open Access
variable {cfg : GnConfig} {geometry : Geometry} {readings : Readings} {logLevel : ℤ}
  {buf size bufLen hst : ℕ} {mem : Memory} {data : GnData} {r : Router}

/-! ### Returned values -/

theorem fst_checkDuplicate : (r.checkDuplicate cfg (readings.clock 0) (r.soMid buf)
    (packetSn r.core.mem buf)).1 = r.duplicate cfg readings buf := by
  unfold Router.checkDuplicate Router.duplicate
  dsimp only
  cases r.found cfg (readings.clock 0) (r.soMid buf) <;> rfl

theorem fst_processSource_eq :
    (r.processSource cfg readings buf).1 = r.duplicate cfg readings buf := by
  unfold Router.processSource
  dsimp only
  rw [fst_checkDuplicate]
  cases r.duplicate cfg readings buf <;> rfl

theorem neighborCount_processSource :
    (r.processSource cfg readings buf).2.core.neighborCount = r.core.neighborCount := by
  have hchecked (now addr sn : ℕ) :
      (r.checkDuplicate cfg now addr sn).2.core.neighborCount = r.core.neighborCount := by
    unfold Router.checkDuplicate
    dsimp only
    split <;> rfl
  unfold Router.processSource
  dsimp only
  split_ifs
  · exact hchecked _ _ _
  · exact hchecked _ _ _

/-- What `ReceiveGUC` returns. -/
theorem fst_receiveGuc : (receiveGuc cfg geometry readings buf r).1 =
    if r.gucReturns cfg readings buf then
      if gnAddrMatch (readAddr r.core.mem (buf + 40)) cfg.localAddr ∨
          (cfg.nonAreaForwardingAlgorithm ≠ .cbf ∧ r.duplicate cfg readings buf) ∨
          r.core.mem (buf + 3) = 0 then -1
      else 1
    else readings.junkReturn := by
  unfold receiveGuc Router.gucReturns Router.gucEnds
  dsimp only
  by_cases hmatch : gnAddrMatch (readAddr r.core.mem (buf + 40)) cfg.localAddr
  · rw [if_pos hmatch, fst_processSource_eq]
    cases r.duplicate cfg readings buf <;> simp [hmatch]
  · rw [if_neg hmatch, if_neg hmatch]
    have hstays : (r.processSource cfg readings buf).2.core.neighborCount = r.core.neighborCount :=
      neighborCount_processSource
    have hupdated : (r.update cfg readings (readings.clock 1) (soPvAt buf)).core.neighborCount =
      r.core.neighborCount := rfl
    by_cases hcbf : cfg.nonAreaForwardingAlgorithm = .cbf
    · by_cases hhops : r.core.mem (buf + 3) = 0
      · simp [hcbf, hmatch, hhops]
      · by_cases hqueued : r.core.neighborCount = 0 ∧ tcScf (packetTc r.core.mem buf)
        · simp [hcbf, hmatch, hhops, hqueued, hupdated]
        · simp [hcbf, hhops, hqueued, hupdated]
    · cases hdup : r.duplicate cfg readings buf with
      | true => simp [hcbf, hmatch, fst_processSource_eq, hdup]
      | false =>
        by_cases hhops : r.core.mem (buf + 3) = 0
        · simp [hcbf, hmatch, fst_processSource_eq, hdup, hhops]
        · by_cases hqueued : r.core.neighborCount = 0 ∧ tcScf (packetTc r.core.mem buf)
          · simp [hcbf, hmatch, fst_processSource_eq, hdup, hhops, hqueued, hstays]
          · simp [hcbf, fst_processSource_eq, hdup, hhops, hqueued, hstays]

/-- What is found where a result was not set. -/
def Readings.withJunk (readings : Readings) (junk : ℤ) : Readings :=
  { readings with junkReturn := junk }

/-- The function for the type of the packet comes to a `return`. -/
def KindReturns (cfg : GnConfig) (readings : Readings) (buf : ℕ) (r : Router) : Prop :=
  match PacketType.ofHt ((r.core.mem (buf + 5)).toNat / 16) with
  | .geounicast => r.gucReturns cfg readings buf
  | .ls => (r.core.mem (buf + 5)).toNat % 16 = 0 ∨
      gnAddrMatch (readAddr r.core.mem (buf + 40)) cfg.localAddr ∨ r.gucReturns cfg readings buf
  | _ => True

theorem receiveGuc_defined_iff :
    (∀ junk, (receiveGuc cfg geometry (readings.withJunk junk) buf r).1 =
      (receiveGuc cfg geometry readings buf r).1) ↔ r.gucReturns cfg readings buf = true := by
  have hsame (junk : ℤ) :
      r.gucReturns cfg (readings.withJunk junk) buf = r.gucReturns cfg readings buf := rfl
  constructor
  · intro h
    by_contra hnot
    have hjunk := h (readings.junkReturn + 1)
    rw [fst_receiveGuc, fst_receiveGuc, hsame, if_neg hnot, if_neg hnot] at hjunk
    simp [Readings.withJunk] at hjunk
  · intro h junk
    rw [fst_receiveGuc, fst_receiveGuc, hsame, if_pos h, if_pos h]
    rfl

theorem receiveLocationService_defined_iff :
    (∀ junk, (receiveLocationService cfg geometry (readings.withJunk junk) buf hst r).1 =
      (receiveLocationService cfg geometry readings buf hst r).1) ↔
      hst = 0 ∨ gnAddrMatch (readAddr r.core.mem (buf + 40)) cfg.localAddr ∨
        r.gucReturns cfg readings buf := by
  by_cases hrequest : hst = 0
  · refine iff_of_true (fun junk => ?_) (Or.inl hrequest)
    unfold receiveLocationService
    rw [if_pos hrequest, if_pos hrequest]
    rfl
  · by_cases hmatch : gnAddrMatch (readAddr r.core.mem (buf + 40)) cfg.localAddr
    · refine iff_of_true (fun junk => ?_) (Or.inr (Or.inl hmatch))
      unfold receiveLocationService
      simp only [if_neg hrequest, if_pos hmatch]
      rfl
    · rw [or_iff_right hrequest, or_iff_right hmatch]
      unfold receiveLocationService
      simp only [if_neg hrequest, if_neg hmatch]
      exact receiveGuc_defined_iff

theorem dispatch_defined_iff : (∀ junk,
      (dispatch cfg geometry (readings.withJunk junk) buf bufLen data r).1 =
        (dispatch cfg geometry readings buf bufLen data r).1) ↔ KindReturns cfg readings buf r := by
  unfold dispatch KindReturns
  dsimp only
  cases PacketType.ofHt ((r.core.mem (buf + 5)).toNat / 16) with
  | any => simp
  | beacon => exact iff_of_true (fun _ => rfl) trivial
  | geounicast => exact receiveGuc_defined_iff
  | geoanycast => exact iff_of_true (fun _ => rfl) trivial
  | geobroadcast => exact iff_of_true (fun _ => rfl) trivial
  | tsb => exact iff_of_true (fun _ => rfl) trivial
  | ls => exact receiveLocationService_defined_iff

/-! ### The contract of `Receive` -/

/-- Only the received bytes of the packet are read, and what is returned was set. -/
structure Contained (cfg : GnConfig) (geometry : Geometry) (readings : Readings) (logLevel : ℤ)
    (buf size bufLen : ℕ) (data : GnData) (r : Router) : Prop where
  inside : AllInside (receiveAccesses cfg geometry readings logLevel buf size bufLen data r)
  defined : ∀ junk, (receive cfg geometry (readings.withJunk junk) buf bufLen data r).1 =
    (receive cfg geometry readings buf bufLen data r).1

theorem dispatch_fits_iff (hlen : bufLen = size) :
    AllInside (dispatchAccesses cfg geometry readings logLevel buf size bufLen r) ∧
      KindReturns cfg readings buf r ↔
    KindFits cfg geometry readings logLevel buf size r := by
  unfold dispatchAccesses KindReturns KindFits
  dsimp only
  cases PacketType.ofHt ((r.core.mem (buf + 5)).toNat / 16) with
  | any => simp
  | beacon => simp [receiveBeaconOrShbAccesses_inside_iff]
  | geounicast => exact and_congr_left fun hreturns => receiveGucAccesses_inside_iff hreturns
  | geoanycast => simpa using receiveGbcGacAccesses_inside_iff hlen
  | geobroadcast => simpa using receiveGbcGacAccesses_inside_iff hlen
  | tsb =>
    rw [and_true]
    by_cases hsingle : (r.core.mem (buf + 5)).toNat % 16 = 0
    · rw [if_pos hsingle, if_pos hsingle, receiveBeaconOrShbAccesses_inside_iff]
      simp
    · rw [if_neg hsingle, if_neg hsingle, receiveTsbAccesses_inside_iff hlen]
  | ls =>
    exact and_congr_left fun hreturns => receiveLocationServiceAccesses_inside_iff hreturns

/-- Only a subtype may have no name. -/
theorem commonHeaderNames_inside_iff (h : commonHeaderOk mem buf = true) (hsize : 11 ≤ size) :
    AllInside (commonHeaderNames buf size mem) ↔ (mem (buf + 5)).toNat % 16 ≤ 2 := by
  simp only [commonHeaderOk, decide_eq_true_eq] at h
  obtain ⟨hnh, hht, -, hsubtype⟩ := h
  unfold commonHeaderNames
  dsimp only
  split_ifs with hnames
  · have hone := hsubtype (Or.symm hnames)
    simp
    omega
  · simp
    omega

/-- The packet passes the checks of its headers. -/
structure HeadersChecked (buf : ℕ) (r : Router) : Prop where
  basic : basicHeaderOk r.core.mem buf = true
  common : commonHeaderOk (decrementRhl r.core.mem buf) buf = true
  hops : (decrementRhl r.core.mem buf (buf + 3)).toNat ≤
    (decrementRhl r.core.mem buf (buf + 10)).toNat

theorem receive_of_checked (h : HeadersChecked buf r) : receive cfg geometry readings buf bufLen data r =
    dispatch cfg geometry readings buf bufLen
      (readHeader cfg buf (r.headersRead cfg buf data.dAddr).core.mem data)
      (r.headersRead cfg buf data.dAddr) := by
  unfold receive
  rw [h.basic, if_neg (by decide)]
  refine if_neg (not_or.mpr ⟨?_, not_lt.mpr h.hops⟩)
  rw [Bool.not_eq_true', Bool.not_eq_false]
  exact h.common

theorem receive_of_not_checked (h : ¬ HeadersChecked buf r) :
    ∃ r', receive cfg geometry readings buf bufLen data r = (-1, data, r') := by
  unfold receive
  cases hbasic : basicHeaderOk r.core.mem buf with
  | false => exact ⟨r, rfl⟩
  | true =>
    rw [Bool.not_true, if_neg Bool.false_ne_true]
    refine ⟨r.perform cfg (.write (decrementRhl r.core.mem buf)), if_pos ?_⟩
    by_contra hpass
    obtain ⟨hcommon, hhops⟩ := not_or.mp hpass
    rw [Bool.not_eq_true', Bool.not_eq_false] at hcommon
    exact h ⟨hbasic, hcommon, not_lt.mp hhops⟩

/-- A packet that is not passed to the function for its type is refused whatever is found. -/
theorem defined_of_not_checked (h : ¬ HeadersChecked buf r) (junk : ℤ) :
    (receive cfg geometry (readings.withJunk junk) buf bufLen data r).1 =
      (receive cfg geometry readings buf bufLen data r).1 := by
  have hrefused (readings : Readings) :
      ∃ r', receive cfg geometry readings buf bufLen data r = (-1, data, r') :=
    receive_of_not_checked h
  obtain ⟨r₁, hjunk⟩ := hrefused (readings.withJunk junk)
  obtain ⟨r₂, hsame⟩ := hrefused readings
  rw [hjunk, hsame]

theorem defined_iff_of_checked (h : HeadersChecked buf r) : (∀ junk,
      (receive cfg geometry (readings.withJunk junk) buf bufLen data r).1 =
        (receive cfg geometry readings buf bufLen data r).1) ↔
    KindReturns cfg readings buf (r.headersRead cfg buf data.dAddr) := by
  simp only [receive_of_checked h]
  exact dispatch_defined_iff

/-- The accesses behind the checks of the headers. -/
theorem receiveAccesses_inside_iff :
    AllInside (receiveAccesses cfg geometry readings logLevel buf size bufLen data r) ↔
      10 ≤ size ∧ (basicHeaderOk r.core.mem buf →
        commonHeaderOk (decrementRhl r.core.mem buf) buf → 11 ≤ size ∧ (HeadersChecked buf r →
          (2 < logLevel → (decrementRhl r.core.mem buf (buf + 5)).toNat % 16 ≤ 2) ∧
            AllInside (dispatchAccesses cfg geometry readings logLevel buf size bufLen
              (r.headersRead cfg buf data.dAddr)))) := by
  have hten : (Access.mk size 0 10).Inside ↔ 10 ≤ size := by simp
  have heleven : (Access.mk size 10 1).Inside ↔ 11 ≤ size := by simp
  unfold receiveAccesses
  rw [allInside_cons, hten]
  refine and_congr_right fun hsize => ?_
  cases hbasic : basicHeaderOk r.core.mem buf with
  | false => simp
  | true =>
    have hname : AllInside
        (if 2 < logLevel then [⟨3, (r.core.mem buf).toNat % 16, 1⟩] else []) := by
      simp only [basicHeaderOk, decide_eq_true_eq] at hbasic
      split_ifs
      · simp
        omega
      · exact allInside_nil
    have hmem : (r.perform cfg (.write (decrementRhl r.core.mem buf))).core.mem =
      decrementRhl r.core.mem buf := rfl
    rw [Bool.not_true, if_neg Bool.false_ne_true, allInside_append, and_iff_right hname,
      forall_prop_of_true rfl]
    dsimp only
    rw [hmem]
    cases hcommon : commonHeaderOk (decrementRhl r.core.mem buf) buf with
    | false => simp
    | true =>
      rw [Bool.not_true, if_neg Bool.false_ne_true, allInside_cons, heleven,
        forall_prop_of_true rfl]
      refine and_congr_right fun hsize' => ?_
      by_cases hhops : (decrementRhl r.core.mem buf (buf + 10)).toNat <
          (decrementRhl r.core.mem buf (buf + 3)).toNat
      · have hnot : ¬ HeadersChecked buf r := fun h => not_lt.mpr h.hops hhops
        simp [hhops, hnot]
      · have hchecked : HeadersChecked buf r := ⟨hbasic, hcommon, not_lt.mp hhops⟩
        rw [if_neg hhops, allInside_append, forall_prop_of_true hchecked]
        refine and_congr_left fun _ => ?_
        split_ifs with hlog
        · rw [commonHeaderNames_inside_iff hcommon hsize', forall_prop_of_true hlog]
        · simp [hlog]

theorem contained_iff (hlen : 10 ≤ size → bufLen = size) :
    Contained cfg geometry readings logLevel buf size bufLen data r ↔
      Fits cfg geometry readings logLevel buf size data r := by
  have hkind (hsize : 10 ≤ size) :
      AllInside (dispatchAccesses cfg geometry readings logLevel buf size bufLen
          (r.headersRead cfg buf data.dAddr)) ∧
        KindReturns cfg readings buf (r.headersRead cfg buf data.dAddr) ↔
      KindFits cfg geometry readings logLevel buf size (r.headersRead cfg buf data.dAddr) :=
    dispatch_fits_iff (hlen hsize)
  constructor
  · intro h
    obtain ⟨hsize, hheaders⟩ := receiveAccesses_inside_iff.mp h.inside
    refine ⟨hsize, fun hbasic hcommon => ?_⟩
    obtain ⟨hsize', hrest⟩ := hheaders hbasic hcommon
    refine ⟨hsize', fun hhops => ?_⟩
    have hchecked : HeadersChecked buf r := ⟨hbasic, hcommon, hhops⟩
    obtain ⟨hname, hinside⟩ := hrest hchecked
    exact ⟨hname, (hkind hsize).mp ⟨hinside, (defined_iff_of_checked hchecked).mp h.defined⟩⟩
  · rintro ⟨hsize, hheaders⟩
    constructor
    · refine receiveAccesses_inside_iff.mpr ⟨hsize, fun hbasic hcommon => ?_⟩
      obtain ⟨hsize', hrest⟩ := hheaders hbasic hcommon
      refine ⟨hsize', fun hchecked => ?_⟩
      obtain ⟨hname, hfits⟩ := hrest hchecked.hops
      exact ⟨hname, ((hkind hsize).mpr hfits).1⟩
    · by_cases hchecked : HeadersChecked buf r
      · have hfits := ((hheaders hchecked.basic hchecked.common).2 hchecked.hops).2
        exact (defined_iff_of_checked hchecked).mpr ((hkind hsize).mpr hfits).2
      · exact defined_of_not_checked hchecked

end Bounds

end Tulux.GeoNetRouter
