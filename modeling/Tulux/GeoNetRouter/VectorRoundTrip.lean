import Tulux.GeoNetRouter.Transmit

/-! The own position vector in a packet, and what is read of it with the conversions of the router.
Speed and accuracy share a word: the speed is converted to network byte order as a word of 16 bits
and then cut to the 15 bits of its field. -/
namespace Tulux.GeoNetRouter
open QCoder

/-- The fields of a long position vector as `DumpLPV` prints them. -/
def dumpLpv (mem : Memory) (a : ℕ) : Epv where
  tst := ntohl (read32 mem (a + 8))
  latitude := s32 (ntohl (read32 mem (a + 12)))
  longitude := s32 (ntohl (read32 mem (a + 16)))
  s := ntohs (read16 mem (a + 20) % 2 ^ 15)
  h := ntohs (read16 mem (a + 22))
  pai := read16 mem (a + 20) / 2 ^ 15

/-- A `uint16_t` stored in an `int16_t`. -/
def s16 (x : ℤ) : ℤ := Int.bmod x (2 ^ 16)

/-- The values of the types of `gn_epv_t`, with an accuracy of one bit. -/
structure EpvFits (epv : Epv) : Prop where
  tst : epv.tst < 2 ^ 32
  latitude : -2 ^ 31 ≤ epv.latitude ∧ epv.latitude < 2 ^ 31
  longitude : -2 ^ 31 ≤ epv.longitude ∧ epv.longitude < 2 ^ 31
  s : -2 ^ 15 ≤ epv.s ∧ epv.s < 2 ^ 15
  h : epv.h < 2 ^ 16
  pai : epv.pai ≤ 1

/-- The bit of the speed that is the highest one in network byte order. -/
def speedBit (s : ℤ) : ℤ := s / 2 ^ 7 % 2

/-! ### Words -/

section Words
variable {mem : Memory} {a n : ℕ}

theorem read32_of_bytes (h : readBytes mem a 4 = bytes32 n) : read32 mem a = n % 2 ^ 32 := by
  have hlo : read16 mem a = n % 2 ^ 16 := read16_of_bytes (readBytes_part (k := 0) h (by omega))
  have hhi : read16 mem (a + 2) = n / 2 ^ 16 % 2 ^ 16 := read16_of_bytes (readBytes_part h (by omega))
  rw [read32, hlo, hhi]
  omega

theorem ntohl_ntohl (h : n < 2 ^ 32) : ntohl (ntohl n) = n := by
  have hlo := ntohs_lt n
  have hhi := ntohs_lt (n / 2 ^ 16)
  have hswap (k : ℕ) : ntohs (k % 2 ^ 16) = ntohs k := by
    unfold ntohs
    omega
  have hfirst : ntohs (ntohl n) = n / 2 ^ 16 := by
    rw [← hswap, ntohl, show (ntohs n * 2 ^ 16 + ntohs (n / 2 ^ 16)) % 2 ^ 16 =
      ntohs (n / 2 ^ 16) by omega, ntohs_ntohs (by omega)]
  have hsecond : ntohs (ntohl n / 2 ^ 16) = n % 2 ^ 16 := by
    rw [ntohl, show (ntohs n * 2 ^ 16 + ntohs (n / 2 ^ 16)) / 2 ^ 16 = ntohs n by omega, ← hswap n,
      ntohs_ntohs (by omega)]
  rw [ntohl, hfirst, hsecond]
  omega

theorem read32_ntohl (h : readBytes mem a 4 = bytes32 (ntohl n)) (hn : n < 2 ^ 32) :
    ntohl (read32 mem a) = n := by
  rw [read32_of_bytes h, Nat.mod_eq_of_lt (ntohl_lt n), ntohl_ntohl hn]

theorem s32_u32 {x : ℤ} (h : -2 ^ 31 ≤ x ∧ x < 2 ^ 31) : s32 (u32 x) = x := by
  have hcast : ((u32 x : ℕ) : ℤ) = x % 2 ^ 32 := by
    rw [u32]
    omega
  rw [hcast, s32, Int.bmod]
  split_ifs <;> omega

theorem u32_lt (x : ℤ) : u32 x < 2 ^ 32 := by
  rw [u32]
  omega

/-- Both conversions of a speed lose its bit 7. -/
theorem ntohs_cut (u : ℕ) : ntohs (ntohs u % 2 ^ 15) = u % 2 ^ 16 - u / 2 ^ 7 % 2 * 2 ^ 7 := by
  have hlow : u % 2 ^ 8 = u / 2 ^ 7 % 2 * 2 ^ 7 + u % 2 ^ 7 := by omega
  have hword : u % 2 ^ 16 = u / 2 ^ 8 % 2 ^ 8 * 2 ^ 8 + u % 2 ^ 8 := by omega
  have hcut : ntohs u % 2 ^ 15 = u % 2 ^ 7 * 2 ^ 8 + u / 2 ^ 8 % 2 ^ 8 := by
    rw [ntohs, hlow]
    omega
  have hfirst : (u % 2 ^ 7 * 2 ^ 8 + u / 2 ^ 8 % 2 ^ 8) % 2 ^ 8 = u / 2 ^ 8 % 2 ^ 8 := by omega
  have hsecond : (u % 2 ^ 7 * 2 ^ 8 + u / 2 ^ 8 % 2 ^ 8) / 2 ^ 8 % 2 ^ 8 = u % 2 ^ 7 := by omega
  rw [hcut, ntohs, hfirst, hsecond, hword, hlow]
  omega

end Words

/-! ### The round trip -/

section RoundTrip
variable {cfg : GnConfig} {mem : Memory} {a : ℕ} {epv : Epv}

/-- The fields of a vector that was written. -/
theorem dumpLpv_initSourceLpv (h : EpvFits epv) :
    dumpLpv (writeBytes mem a (initSourceLpv cfg epv)) a =
      { epv with s := (u32 epv.s % 2 ^ 16 - u32 epv.s / 2 ^ 7 % 2 * 2 ^ 7 : ℕ) } := by
  obtain ⟨mem', hmem⟩ : ∃ mem', mem' = writeBytes mem a (initSourceLpv cfg epv) := ⟨_, rfl⟩
  have hbytes : readBytes mem' a 24 = initSourceLpv cfg epv := by
    rw [hmem]
    exact readBytes_writeBytes mem a (initSourceLpv cfg epv)
  have htst : ntohl (read32 mem' (a + 8)) = epv.tst :=
    read32_ntohl (readBytes_part hbytes (by omega)) h.tst
  have hlat : ntohl (read32 mem' (a + 12)) = u32 epv.latitude :=
    read32_ntohl (readBytes_part hbytes (by omega)) (u32_lt _)
  have hlong : ntohl (read32 mem' (a + 16)) = u32 epv.longitude :=
    read32_ntohl (readBytes_part hbytes (by omega)) (u32_lt _)
  have hword : read16 mem' (a + 20) =
      (ntohs (u32 epv.s) % 2 ^ 15 + epv.pai % 2 * 2 ^ 15) % 2 ^ 16 :=
    read16_of_bytes (readBytes_part hbytes (by omega))
  have hheading : read16 mem' (a + 22) = ntohs epv.h % 2 ^ 16 :=
    read16_of_bytes (readBytes_part hbytes (by omega))
  have hpai := h.pai
  have hspeed : read16 mem' (a + 20) % 2 ^ 15 = ntohs (u32 epv.s) % 2 ^ 15 := by
    rw [hword]
    omega
  have haccuracy : read16 mem' (a + 20) / 2 ^ 15 = epv.pai := by
    rw [hword]
    omega
  rw [← hmem, dumpLpv, htst, hlat, hlong, hspeed, haccuracy, hheading,
    Nat.mod_eq_of_lt (ntohs_lt _), ntohs_ntohs h.h, s32_u32 h.latitude, s32_u32 h.longitude,
    ntohs_cut]

/-- The vector is the same exactly when its speed is not negative and bit 7 of the speed is not set;
when the speed that is read is taken for a signed one, exactly when this bit is not set. -/
theorem vectorRoundTrip_iff (h : EpvFits epv) :
    let read := dumpLpv (writeBytes mem a (initSourceLpv cfg epv)) a
    (read = epv ↔ 0 ≤ epv.s ∧ speedBit epv.s = 0) ∧
      ({ read with s := s16 read.s } = epv ↔ speedBit epv.s = 0) := by
  dsimp only
  rw [dumpLpv_initSourceLpv h]
  obtain ⟨hlower, hupper⟩ := h.s
  obtain ⟨tst, latitude, longitude, s, heading, pai⟩ := epv
  simp only [Epv.mk.injEq, true_and, and_true]
  have hu : (u32 s : ℤ) = s % 2 ^ 32 := by
    rw [u32]
    omega
  dsimp only at hlower hupper
  unfold speedBit
  constructor
  · omega
  · rw [s16, Int.bmod]
    split_ifs <;> omega

/-- A speed of 1 m/s. -/
theorem vectorRoundTrip_one : dumpLpv (writeBytes (fun _ => 0) 0
    (initSourceLpv (initDefaultConfig ⟨0, 0⟩) ⟨1, -2, 3, 100, 900, 1⟩)) 0 =
      ⟨1, -2, 3, 100, 900, 1⟩ := by
  have hfits : EpvFits ⟨1, -2, 3, 100, 900, 1⟩ := by
    constructor <;> norm_num
  exact (vectorRoundTrip_iff hfits).1.mpr ⟨by norm_num, by decide⟩

/-- A speed of 1.28 m/s is read as one of 0, and one of -2 m/s as one of 653.36 m/s. -/
theorem not_vectorRoundTrip :
    (dumpLpv (writeBytes (fun _ => 0) 0
      (initSourceLpv (initDefaultConfig ⟨0, 0⟩) ⟨0, 0, 0, 128, 0, 1⟩)) 0).s = 0 ∧
    (dumpLpv (writeBytes (fun _ => 0) 0
      (initSourceLpv (initDefaultConfig ⟨0, 0⟩) ⟨0, 0, 0, -200, 0, 1⟩)) 0).s = 65336 := by
  constructor
  · decide +kernel
  · decide +kernel

end RoundTrip

end Tulux.GeoNetRouter
