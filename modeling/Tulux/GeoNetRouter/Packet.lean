import Tulux.QCoder.J2735

/-! The packets of the GeoNetworking router as bytes in memory, read and written by a little endian
host, and the parameters that come with them. -/
namespace Tulux.GeoNetRouter
open QCoder

abbrev Memory := ℕ → UInt8

/-! ### Bytes -/

def read16 (mem : Memory) (a : ℕ) : ℕ := (mem a).toNat + (mem (a + 1)).toNat * 2 ^ 8

def read32 (mem : Memory) (a : ℕ) : ℕ := read16 mem a + read16 mem (a + 2) * 2 ^ 16

/-- `ntohs`, which is `htons` too. -/
def ntohs (n : ℕ) : ℕ := n % 2 ^ 8 * 2 ^ 8 + n / 2 ^ 8 % 2 ^ 8

/-- `ntohl`, which is `htonl` too. -/
def ntohl (n : ℕ) : ℕ := ntohs n * 2 ^ 16 + ntohs (n / 2 ^ 16)

/-- The six bytes of an address, as `memcmp` compares them. -/
def midAt (mem : Memory) (a : ℕ) : ℕ :=
  (List.range 6).foldl (fun n i => n * 2 ^ 8 + (mem (a + i)).toNat) 0

theorem midAt_lt (mem : Memory) (a : ℕ) : midAt mem a < 2 ^ 48 := by
  simp only [midAt, List.range_succ, List.range_zero, List.nil_append, List.foldl_append,
    List.foldl_cons, List.foldl_nil]
  have h0 := (mem (a + 0)).toNat_lt
  have h1 := (mem (a + 1)).toNat_lt
  have h2 := (mem (a + 2)).toNat_lt
  have h3 := (mem (a + 3)).toNat_lt
  have h4 := (mem (a + 4)).toNat_lt
  have h5 := (mem (a + 5)).toNat_lt
  omega

def bytes16 (n : ℕ) : List UInt8 := [.ofNat n, .ofNat (n / 2 ^ 8)]

def bytes32 (n : ℕ) : List UInt8 := bytes16 n ++ bytes16 (n / 2 ^ 16)

def midBytes (mid : ℕ) : List UInt8 :=
  (List.range 6).map fun i => .ofNat (mid / 2 ^ (8 * (5 - i)))

def writeBytes (mem : Memory) (a : ℕ) (bytes : List UInt8) : Memory :=
  fun i => if a ≤ i ∧ i < a + bytes.length then bytes.getD (i - a) 0 else mem i

def readBytes (mem : Memory) (a n : ℕ) : List UInt8 := (List.range n).map fun i => mem (a + i)

/-! ### Addresses and position vectors -/

/-- `gn_addr_t`, with its bit fields in one number. -/
structure GnAddr where
  bits : ℕ
  mid : Fin (2 ^ 48)

/-- The station type. -/
def GnAddr.st (addr : GnAddr) : ℕ := addr.bits / 2 ^ 10 % 2 ^ 5

def gnAddrMatch (addr₁ addr₂ : GnAddr) : Bool := addr₁.st = addr₂.st ∧ addr₁.mid = addr₂.mid

/-- `gn_lpv_t` without speed and heading. The numbers are in network byte order. -/
structure Lpv where
  gnAddr : GnAddr
  tst : ℕ
  latitude : ℕ
  longitude : ℕ
  pai : ℕ

/-- `gn_spv_t`. -/
structure Spv where
  gnAddr : GnAddr
  tst : ℕ
  latitude : ℕ
  longitude : ℕ

def readAddr (mem : Memory) (a : ℕ) : GnAddr := ⟨read16 mem a, midAt mem (a + 2), midAt_lt mem _⟩

def readLpv (mem : Memory) (a : ℕ) : Lpv where
  gnAddr := readAddr mem a
  tst := read32 mem (a + 8)
  latitude := read32 mem (a + 12)
  longitude := read32 mem (a + 16)
  pai := read16 mem (a + 20) / 2 ^ 15

def readSpv (mem : Memory) (a : ℕ) : Spv where
  gnAddr := readAddr mem a
  tst := read32 mem (a + 8)
  latitude := read32 mem (a + 12)
  longitude := read32 mem (a + 16)

/-- `gn_epv_t`. -/
structure Epv where
  tst : ℕ
  latitude : ℤ
  longitude : ℤ
  s : ℤ
  h : ℕ
  pai : ℕ

/-! ### Parameters -/

inductive UpperProtocol where
  | any
  | btpA
  | btpB
  | gn6
  deriving DecidableEq

/-- A single-hop broadcast has the type of a topologically-scoped one. -/
inductive PacketType where
  | any
  | beacon
  | geounicast
  | geoanycast
  | geobroadcast
  | tsb
  | ls
  deriving DecidableEq

inductive GeoAreaType where
  | circle
  | rect
  | elip
  deriving DecidableEq

inductive DestinationType where
  | geoArea
  | gnAddr
  deriving DecidableEq

inductive AfAlgorithm where
  | unspecified
  | simple
  | cbf
  | af
  deriving DecidableEq

inductive NafAlgorithm where
  | unspecified
  | greedy
  | cbf
  deriving DecidableEq

def UpperProtocol.toNat : UpperProtocol → ℕ
  | .any => 0
  | .btpA => 1
  | .btpB => 2
  | .gn6 => 3

def UpperProtocol.ofNh : ℕ → UpperProtocol
  | 1 => .btpA
  | 2 => .btpB
  | 3 => .gn6
  | _ => .any

def PacketType.toNat : PacketType → ℕ
  | .any => 0
  | .beacon => 1
  | .geounicast => 2
  | .geoanycast => 3
  | .geobroadcast => 4
  | .tsb => 5
  | .ls => 6

def PacketType.ofHt : ℕ → PacketType
  | 1 => .beacon
  | 2 => .geounicast
  | 3 => .geoanycast
  | 4 => .geobroadcast
  | 5 => .tsb
  | 6 => .ls
  | _ => .any

def GeoAreaType.toNat : GeoAreaType → ℕ
  | .circle => 0
  | .rect => 1
  | .elip => 2

/-- Every header subtype that is not a circle or a rectangle is taken for an ellipse. -/
def GeoAreaType.ofHst : ℕ → GeoAreaType
  | 0 => .circle
  | 1 => .rect
  | _ => .elip

/-- `GeoArea_t`. -/
structure GeoArea where
  gpLatitude : ℤ
  gpLongitude : ℤ
  distA : ℕ
  distB : ℕ
  angle : ℕ
  areaType : GeoAreaType

/-- `GnData_t`. The destination address is given by where it is in memory. -/
structure GnData where
  upperProt : UpperProtocol
  pktType : PacketType
  isShb : Bool
  payloadLen : ℤ
  dType : DestinationType
  dAddr : ℕ
  dArea : GeoArea
  maxLt : ℤ
  repetitionInterval : ℤ
  maxHl : ℤ
  tc : ℤ

/-- What the router reads of `GnConfig_t`, and the local address that it makes of it. -/
structure GnConfig where
  localAddr : GnAddr
  protocolVersion : ℤ
  isMobile : Bool
  lifetimeLocTE : ℤ
  maxPacketLifetime : ℤ
  defaultPacketLifetime : ℤ
  minPacketRepetitionInterval : ℤ
  nonAreaForwardingAlgorithm : NafAlgorithm
  areaForwardingAlgorithm : AfAlgorithm
  ucForwardingPacketBufferSize : ℤ
  bcForwardingPacketBufferSize : ℤ

def initDefaultConfig (localAddr : GnAddr) : GnConfig where
  localAddr := localAddr
  protocolVersion := 0
  isMobile := true
  lifetimeLocTE := 20
  maxPacketLifetime := 600
  defaultPacketLifetime := 60
  minPacketRepetitionInterval := 100
  nonAreaForwardingAlgorithm := .greedy
  areaForwardingAlgorithm := .cbf
  ucForwardingPacketBufferSize := 256
  bcForwardingPacketBufferSize := 1024

/-- The store-carry-forward bit of a traffic class. -/
def tcScf (tc : ℤ) : Bool := tc % 2 ≠ 0

@[simp] theorem UpperProtocol.ofNh_toNat (p : UpperProtocol) : ofNh p.toNat = p := by
  cases p <;> rfl

@[simp] theorem PacketType.ofHt_toNat (p : PacketType) : ofHt p.toNat = p := by
  cases p <;> rfl

theorem ntohs_lt (n : ℕ) : ntohs n < 2 ^ 16 := by
  unfold ntohs
  omega

theorem ntohl_lt (n : ℕ) : ntohl n < 2 ^ 32 := by
  have hlo := ntohs_lt n
  have hhi := ntohs_lt (n / 2 ^ 16)
  unfold ntohl
  omega

theorem ntohs_ntohs {n : ℕ} (h : n < 2 ^ 16) : ntohs (ntohs n) = n := by
  obtain ⟨lo, hi, hlo, hhi, rfl⟩ : ∃ lo hi, lo < 256 ∧ hi < 256 ∧ n = hi * 256 + lo :=
    ⟨n % 256, n / 256, by omega, by omega, by omega⟩
  have hswap : ntohs (hi * 256 + lo) = lo * 256 + hi := by
    simp only [ntohs, Nat.reducePow]
    omega
  rw [hswap]
  simp only [ntohs, Nat.reducePow]
  omega

/-! ### Reading what was written -/

section ReadWrite
variable {mem : Memory} {a b n : ℕ} {xs ys : List UInt8}

@[simp] theorem length_readBytes (mem : Memory) (a n : ℕ) : (readBytes mem a n).length = n := by
  simp [readBytes]

theorem getElem_readBytes {i : ℕ} (h : i < (readBytes mem a n).length) :
    (readBytes mem a n)[i] = mem (a + i) := by
  simp [readBytes]

theorem readBytes_eq_iff : readBytes mem a n = xs ↔
    xs.length = n ∧ ∀ i (h : i < xs.length), mem (a + i) = xs[i] := by
  constructor
  · rintro rfl
    exact ⟨length_readBytes _ _ _, fun i h => (getElem_readBytes h).symm⟩
  · rintro ⟨hlength, hbytes⟩
    refine List.ext_getElem (by rw [length_readBytes, hlength]) fun i h h' => ?_
    rw [getElem_readBytes, hbytes i h']

theorem readBytes_append (mem : Memory) (a m n : ℕ) :
    readBytes mem a (m + n) = readBytes mem a m ++ readBytes mem (a + m) n := by
  unfold readBytes
  rw [List.range_add, List.map_append, List.map_map]
  simp only [Function.comp_def, Nat.add_assoc]

theorem writeBytes_inside {i : ℕ} (mem : Memory) (a : ℕ) (h : i < xs.length) :
    writeBytes mem a xs (a + i) = xs[i] := by
  unfold writeBytes
  rw [if_pos ⟨Nat.le_add_right _ _, Nat.add_lt_add_left h a⟩, Nat.add_sub_cancel_left,
    List.getD_eq_getElem?_getD, List.getElem?_eq_getElem h, Option.getD_some]

theorem writeBytes_outside {i : ℕ} (mem : Memory) (h : i < a ∨ a + xs.length ≤ i) :
    writeBytes mem a xs i = mem i := if_neg (by omega)

theorem writeBytes_append (mem : Memory) (a : ℕ) (xs ys : List UInt8) :
    writeBytes (writeBytes mem a xs) (a + xs.length) ys = writeBytes mem a (xs ++ ys) := by
  funext i
  by_cases hleft : i < a
  · rw [writeBytes_outside _ (.inl (by omega)), writeBytes_outside _ (.inl hleft),
      writeBytes_outside _ (.inl hleft)]
  obtain ⟨j, rfl⟩ := Nat.exists_eq_add_of_le (not_lt.mp hleft)
  by_cases hxs : j < xs.length
  · rw [writeBytes_outside _ (.inl (by omega)), writeBytes_inside mem a hxs,
      writeBytes_inside mem a (show j < (xs ++ ys).length by rw [List.length_append]; omega),
      List.getElem_append_left hxs]
  obtain ⟨k, rfl⟩ := Nat.exists_eq_add_of_le (not_lt.mp hxs)
  by_cases hys : k < ys.length
  · rw [← Nat.add_assoc, writeBytes_inside _ _ hys, Nat.add_assoc,
      writeBytes_inside mem a
        (show xs.length + k < (xs ++ ys).length by rw [List.length_append]; omega),
      List.getElem_append_right (by omega)]
    congr 1
    omega
  · rw [writeBytes_outside _ (.inr (by omega)), writeBytes_outside _ (.inr (by omega)),
      writeBytes_outside _ (.inr (by rw [List.length_append]; omega))]

theorem readBytes_writeBytes (mem : Memory) (a : ℕ) (xs : List UInt8) :
    readBytes (writeBytes mem a xs) a xs.length = xs :=
  readBytes_eq_iff.mpr ⟨rfl, fun _ h => writeBytes_inside mem a h⟩

theorem readBytes_writeBytes_of_disjoint (mem : Memory) (h : b + n ≤ a ∨ a + xs.length ≤ b) :
    readBytes (writeBytes mem a xs) b n = readBytes mem b n :=
  List.map_congr_left fun i hi =>
    writeBytes_outside mem (by have := List.mem_range.mp hi; omega)

theorem readBytes_writeBytes_add (mem : Memory) (a : ℕ) (xs : List UInt8) (n : ℕ) :
    readBytes (writeBytes mem a xs) a (xs.length + n) = xs ++ readBytes mem (a + xs.length) n := by
  rw [readBytes_append, readBytes_writeBytes, readBytes_writeBytes_of_disjoint _ (.inr le_rfl)]

theorem readBytes_inj {m : ℕ} : readBytes mem a m = readBytes mem a n ↔ m = n := by
  constructor
  · intro h
    have hlength := congrArg List.length h
    rwa [length_readBytes, length_readBytes] at hlength
  · rintro rfl
    rfl

/-- A part of what is in memory. -/
theorem readBytes_part {k : ℕ} (h : readBytes mem a n = xs) (hk : k + b ≤ n) :
    readBytes mem (a + k) b = (xs.drop k).take b := by
  subst h
  refine readBytes_eq_iff.mpr ⟨by simp; omega, fun i hi => ?_⟩
  rw [List.getElem_take, List.getElem_drop, getElem_readBytes, Nat.add_assoc]

theorem read16_of_bytes (h : readBytes mem a 2 = bytes16 n) : read16 mem a = n % 2 ^ 16 := by
  obtain ⟨-, hbytes⟩ := readBytes_eq_iff.mp h
  have hlo := hbytes 0 Nat.zero_lt_two
  have hhi := hbytes 1 Nat.one_lt_two
  unfold read16
  rw [Nat.add_zero] at hlo
  rw [hlo, hhi]
  simp only [bytes16, List.getElem_cons_zero, List.getElem_cons_succ, UInt8.toNat_ofNat']
  omega

theorem midAt_of_bytes (h : readBytes mem a 6 = midBytes n) : midAt mem a = n % 2 ^ 48 := by
  obtain ⟨-, hbytes⟩ := readBytes_eq_iff.mp h
  have hbyte (i : ℕ) (hi : i < 6) : mem (a + i) = .ofNat (n / 2 ^ (8 * (5 - i))) := by
    rw [hbytes i (by simpa [midBytes] using hi)]
    simp [midBytes]
  simp only [midAt, List.range_succ, List.range_zero, List.nil_append, List.foldl_append,
    List.foldl_cons, List.foldl_nil]
  rw [hbyte 0 (by decide), hbyte 1 (by decide), hbyte 2 (by decide), hbyte 3 (by decide),
    hbyte 4 (by decide), hbyte 5 (by decide)]
  simp only [UInt8.toNat_ofNat']
  omega

end ReadWrite

end Tulux.GeoNetRouter
