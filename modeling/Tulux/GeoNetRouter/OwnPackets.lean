import Tulux.GeoNetRouter.Transmit

/-! Packets of this station in memory, and what the forwarding algorithms do with them. -/
namespace Tulux.GeoNetRouter
open QCoder SortedMap GuardedRun

/-! ### Headers in memory -/

section Headers
variable {cfg : GnConfig} {readings : Readings} {data : GnData} {mem : Memory} {buf sn : ℕ}
  {epv : Epv}

theorem put_put (r : Router) (a : ℕ) (x : UInt8) (xs : List UInt8) :
    ((r.put cfg a [x]).put cfg (a + 1) xs).core =
      { r.core with mem := writeBytes r.core.mem a (x :: xs) } := by
  have hmem : writeBytes (writeBytes r.core.mem a [x]) (a + 1) xs =
      writeBytes r.core.mem a (x :: xs) := writeBytes_append r.core.mem a [x] xs
  exact congrArg (fun mem => ({ r.core with mem := mem } : Core)) hmem

theorem gnAddrMatch_of_bytes (hbits : readBytes mem buf 2 = bytes16 cfg.localAddr.bits)
    (hmid : readBytes mem (buf + 2) 6 = midBytes cfg.localAddr.mid) :
    gnAddrMatch (readAddr mem buf) cfg.localAddr := by
  have hst : (readAddr mem buf).st = cfg.localAddr.st := by
    unfold GnAddr.st readAddr
    dsimp only
    rw [read16_of_bytes hbits]
    omega
  have hmid' : (readAddr mem buf).mid = cfg.localAddr.mid := by
    apply Fin.ext
    change midAt mem (buf + 2) = cfg.localAddr.mid
    rw [midAt_of_bytes hmid, Nat.mod_eq_of_lt cfg.localAddr.mid.isLt]
  exact decide_eq_true ⟨hst, hmid'⟩

/-- The source of a packet whose header was written is this station. -/
theorem source_tsbHeader (h : readBytes mem buf 40 = tsbHeader cfg readings data epv sn) :
    gnAddrMatch (readAddr mem (buf + 16)) cfg.localAddr :=
  gnAddrMatch_of_bytes (readBytes_part h (by decide)) (readBytes_part (k := 18) h (by decide))

theorem headerSubtype_lt (data : GnData) : headerSubtype data < 2 ^ 4 := by
  unfold headerSubtype GeoAreaType.toNat
  cases data.pktType <;> cases data.isShb <;> cases data.dArea.areaType <;> decide

theorem pktType_lt (pktType : PacketType) : pktType.toNat < 2 ^ 4 := by
  cases pktType <;> decide

/-- The types in the common header. -/
theorem types_initBhCh {n : ℕ} {rest : List UInt8}
    (h : readBytes mem buf n = initBhCh cfg readings data ++ rest) :
    (mem (buf + 5)).toNat = headerSubtype data + data.pktType.toNat * 2 ^ 4 := by
  obtain ⟨-, hbytes⟩ := readBytes_eq_iff.mp h
  have hlt := headerSubtype_lt data
  have hlt' := pktType_lt data.pktType
  rw [hbytes 5 (by rw [List.length_append, length_initBhCh]; omega)]
  change (UInt8.ofNat (headerSubtype data + data.pktType.toNat * 2 ^ 4)).toNat = _
  rw [UInt8.toNat_ofNat', Nat.mod_eq_of_lt (by omega)]

theorem tsbHeader_of_gbcGacHeader
    (h : readBytes mem buf 56 = gbcGacHeader cfg readings data epv sn) :
    readBytes mem buf 40 = tsbHeader cfg readings data epv sn := readBytes_part (k := 0) h (by decide)

end Headers

/-! ### Forwarding -/

/-- A packet of this station for an area. -/
structure OwnPacket (cfg : GnConfig) (mem : Memory) (buf : ℕ) (pktType : PacketType) : Prop where
  source : gnAddrMatch (readAddr mem (buf + 16)) cfg.localAddr
  headerType : (mem (buf + 5)).toNat / 16 = pktType.toNat
  area : pktType = .geoanycast ∨ pktType = .geobroadcast

section Forwarding
variable (cfg : GnConfig) (geometry : Geometry) (readings : Readings) (mem : Memory) (buf : ℕ)
  (pktType : PacketType) (table : Table)

/-- The position that greedy forwarding is done with. -/
def greedyEpv : Epv := readings.epv (if cfg.nonAreaForwardingAlgorithm = .cbf then 3 else 2)

/-- The entry that the station has for itself. -/
def ownEntry : Option LocTableEntry :=
  table.found (midAt mem) cfg.lifetimeLocTE (readings.clock 3) cfg.localAddr.mid

/-- The station is in the area. -/
def InArea : Prop :=
  0 ≤ areaPosition geometry mem buf (readings.epv 1).latitude (readings.epv 1).longitude

/-- An entry has a good position that is in the area. -/
def EntryInArea (e : LocTableEntry) : Prop :=
  e.lpv.pai = 1 ∧
    0 ≤ areaPosition geometry mem buf (s32 e.lpv.latitude) (s32 e.lpv.longitude)

/-- A packet from outside the area is not passed on when the station's own entry is inside, and a
GBC is not when there is an entry at all. -/
def Discarded : Prop :=
  ¬ InArea geometry readings mem buf ∧ ∃ e, ownEntry cfg readings mem table = some e ∧
    (EntryInArea geometry mem buf e ∨ pktType = .geobroadcast)

/-- A packet is passed on in the area, without an entry of its own, and as a GAC when greedy
forwarding has a next hop. -/
def Forwarded : Prop :=
  InArea geometry readings mem buf ∨ ownEntry cfg readings mem table = none ∨
    ∃ e, ownEntry cfg readings mem table = some e ∧ ¬ EntryInArea geometry mem buf e ∧
      pktType = .geoanycast ∧ nafGf geometry mem buf .geoanycast
        (greedyEpv cfg readings) table = 1

end Forwarding

/-- Only the table changes. -/
def Looks (r r' : Router) : Prop := ∃ table, r'.core = { r.core with locTable := table }

section Forwarding
variable {cfg : GnConfig} {geometry : Geometry} {readings : Readings} {r r' : Router} {mem : Memory}
  {buf : ℕ} {pktType : PacketType}

theorem ownPacket_gbcGacHeader {data : GnData} {epv : Epv} {sn : ℕ}
    (h : readBytes mem buf 56 = gbcGacHeader cfg readings data epv sn)
    (harea : data.pktType = .geoanycast ∨ data.pktType = .geobroadcast) :
    OwnPacket cfg mem buf data.pktType := by
  have htsb := tsbHeader_of_gbcGacHeader h
  refine ⟨source_tsbHeader htsb, ?_, harea⟩
  have hsplit : readBytes mem buf 40 =
      initBhCh cfg readings data ++ (bytes16 sn ++ [0, 0] ++ initSourceLpv cfg epv) := by
    rw [htsb, tsbHeader, List.append_assoc, List.append_assoc, List.append_assoc]
  have hlt := headerSubtype_lt data
  rw [types_initBhCh hsplit]
  omega

theorem Looks.refl (r : Router) : Looks r r := ⟨r.core.locTable, rfl⟩

theorem Looks.trans {r'' : Router} (h : Looks r r') (h' : Looks r' r'') : Looks r r'' := by
  obtain ⟨table, hcore⟩ := h
  obtain ⟨table', hcore'⟩ := h'
  exact ⟨table', by rw [hcore', hcore]⟩

theorem looks_find (cfg : GnConfig) (r : Router) (now addr : ℕ) :
    Looks r (r.perform cfg (.find now addr)) := ⟨_, rfl⟩

theorem snd_nafCbf (hsource : gnAddrMatch (readAddr mem (buf + 16)) cfg.localAddr)
    (now : ℕ) (epv : Epv) (r : Router) :
    (nafCbf cfg geometry mem buf pktType now epv r).2 = r := by
  unfold nafCbf
  dsimp only
  rw [if_pos hsource]
  split_ifs <;> rfl

theorem nafCbf_geounicast (hsource : gnAddrMatch (readAddr mem (buf + 16)) cfg.localAddr)
    (now : ℕ) (epv : Epv) (r : Router) :
    nafCbf cfg geometry mem buf .geounicast now epv r = (1, r) := by
  unfold nafCbf
  dsimp only
  rw [if_neg (by decide), if_pos hsource]

theorem looks_forwardAlgorithmSelect (hsource : gnAddrMatch (readAddr mem (buf + 16)) cfg.localAddr)
    (r : Router) : Looks r (forwardAlgorithmSelect cfg geometry readings mem buf r).2 := by
  have hafCbf (now : ℕ) : (afCbf cfg mem buf now r).2 = r := by
    unfold afCbf
    dsimp only
    rw [if_pos hsource]
  unfold forwardAlgorithmSelect
  dsimp only
  split_ifs
  · exact .refl r
  · cases cfg.areaForwardingAlgorithm
    · exact .refl r
    · exact .refl r
    · dsimp only
      rw [hafCbf]
      exact .refl r
    · exact .refl r
  · split
    · split_ifs
      · exact looks_find _ _ _ _
      · split
        · dsimp only
          rw [snd_nafCbf hsource]
          exact looks_find _ _ _ _
        · exact looks_find _ _ _ _
    · exact looks_find _ _ _ _

theorem nafGf_cases (geometry : Geometry) (mem : Memory) (buf : ℕ) {pktType : PacketType}
    (h : pktType = .geounicast ∨ pktType = .geoanycast) (epv : Epv) (table : Table) :
    nafGf geometry mem buf pktType epv table = 1 ∨ nafGf geometry mem buf pktType epv table = 0 := by
  unfold nafGf
  rw [if_neg (by rcases h with rfl | rfl <;> decide)]
  dsimp only
  split_ifs <;> simp

theorem nafGf_geobroadcast (geometry : Geometry) (mem : Memory) (buf : ℕ) (epv : Epv)
    (table : Table) : nafGf geometry mem buf .geobroadcast epv table = -1 := if_pos (by decide)

/-- The value that `ForwardAlgorithmSelect` has for an own packet. -/
theorem forwardAlgorithmSelect_own (h : OwnPacket cfg mem buf pktType) (hmem : r.core.mem = mem) :
    (forwardAlgorithmSelect cfg geometry readings mem buf r).1 = (
      if 0 ≤ areaPosition geometry mem buf (readings.epv 1).latitude (readings.epv 1).longitude then 1
      else match ownEntry cfg readings mem r.core.locTable with
        | none => 1
        | some e =>
          if e.lpv.pai = 1 ∧
              0 ≤ areaPosition geometry mem buf (s32 e.lpv.latitude) (s32 e.lpv.longitude) then -1
          else nafGf geometry mem buf pktType
            (greedyEpv cfg readings) r.core.locTable) := by
  obtain ⟨hsource, htype, harea⟩ := h
  have hmid : (readAddr mem (buf + 16)).mid = cfg.localAddr.mid :=
    (of_decide_eq_true hsource).2
  have hkind : ¬ (pktType.toNat ≠ PacketType.geoanycast.toNat ∧
      pktType.toNat ≠ PacketType.geobroadcast.toNat) := by
    rcases harea with rfl | rfl <;> decide
  have hfound : r.found cfg (readings.clock 3) cfg.localAddr.mid =
      ownEntry cfg readings mem r.core.locTable := by
    rw [← hmem]
    rfl
  unfold forwardAlgorithmSelect
  dsimp only
  rw [htype, if_neg hkind, PacketType.ofHt_toNat, hmid, hfound]
  by_cases hin : 0 ≤ areaPosition geometry mem buf (readings.epv 1).latitude (readings.epv 1).longitude
  · rw [if_pos hin, if_pos hin]
    cases cfg.areaForwardingAlgorithm <;> rfl
  · rw [if_neg hin, if_neg hin]
    cases hown : ownEntry cfg readings mem r.core.locTable with
    | none => rfl
    | some e =>
      dsimp only
      by_cases hentry : e.lpv.pai = 1 ∧
          0 ≤ areaPosition geometry mem buf (s32 e.lpv.latitude) (s32 e.lpv.longitude)
      · rw [if_pos hentry, if_pos hentry]
      · rw [if_neg hentry, if_neg hentry]
        have htable : (r.perform cfg (.find (readings.clock 3) cfg.localAddr.mid)).core.locTable =
            r.core.locTable := find_of_found (hfound.trans hown)
        cases hnaf : cfg.nonAreaForwardingAlgorithm with
        | cbf =>
          dsimp only
          rw [snd_nafCbf hsource, htable, greedyEpv, if_pos hnaf]
        | _ =>
          dsimp only
          rw [htable, greedyEpv, if_neg (by rw [hnaf]; decide)]

/-- An own packet is discarded, forwarded or to be queued. -/
theorem forwardAlgorithmSelect_neg_iff (h : OwnPacket cfg mem buf pktType)
    (hmem : r.core.mem = mem) : (forwardAlgorithmSelect cfg geometry readings mem buf r).1 < 0 ↔
      Discarded cfg geometry readings mem buf pktType r.core.locTable := by
  rw [forwardAlgorithmSelect_own h hmem]
  unfold Discarded InArea EntryInArea
  split_ifs with hin
  · simp [hin]
  · rw [and_iff_right hin]
    cases hown : ownEntry cfg readings mem r.core.locTable with
    | none => simp
    | some e =>
      dsimp only
      split_ifs with hentry
      · exact iff_of_true (by decide) ⟨e, rfl, .inl hentry⟩
      · rcases h.area with rfl | rfl
        · refine iff_of_false ?_ ?_
          · rcases nafGf_cases geometry mem buf (.inr rfl) (greedyEpv cfg readings)
              r.core.locTable with hnaf | hnaf
            · rw [hnaf]; decide
            · rw [hnaf]; decide
          · rintro ⟨e', he', hinside | htype⟩
            · obtain rfl := Option.some.inj he'
              exact hentry hinside
            · exact absurd htype (by decide)
        · rw [nafGf_geobroadcast]
          exact iff_of_true (by decide) ⟨e, rfl, .inr rfl⟩

theorem forwardAlgorithmSelect_one_iff (h : OwnPacket cfg mem buf pktType)
    (hmem : r.core.mem = mem) : (forwardAlgorithmSelect cfg geometry readings mem buf r).1 = 1 ↔
      Forwarded cfg geometry readings mem buf pktType r.core.locTable := by
  rw [forwardAlgorithmSelect_own h hmem]
  unfold Forwarded InArea EntryInArea
  split_ifs with hin
  · exact iff_of_true rfl (.inl hin)
  · rw [or_iff_right hin]
    cases hown : ownEntry cfg readings mem r.core.locTable with
    | none => simp
    | some e =>
      dsimp only
      split_ifs with hentry
      · refine iff_of_false (by decide) ?_
        rintro (hnone | ⟨e', he', hout, -⟩)
        · cases hnone
        · obtain rfl := Option.some.inj he'
          exact hout hentry
      · rcases h.area with rfl | rfl
        · constructor
          · exact fun hnaf => .inr ⟨e, rfl, hentry, rfl, hnaf⟩
          · rintro (hnone | ⟨e', -, -, -, hnaf⟩)
            · cases hnone
            · exact hnaf
        · rw [nafGf_geobroadcast]
          refine iff_of_false (by decide) ?_
          rintro (hnone | ⟨e', -, -, htype, -⟩)
          · cases hnone
          · exact absurd htype (by decide)

end Forwarding

end Tulux.GeoNetRouter
