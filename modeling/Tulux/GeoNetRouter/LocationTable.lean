import Tulux.GeoNetRouter.Packet
import Tulux.Lib.SortedMap

/-! The location table. Its keys are pointers to addresses, which are compared by the bytes that
they point to. -/
namespace Tulux.GeoNetRouter
open QCoder SortedMap

/-- `MAX_DPL_LEN`. -/
def maxDplLen : ℕ := 20

/-- An element of the duplicated packet list. -/
structure DplElement where
  sn : ℕ
  counter : ℕ

structure LocTableEntry where
  gnAddr : GnAddr
  lpv : Lpv
  locationServicePending : Bool
  isNeighbor : Bool
  updated : Bool
  dpl : List DplElement

namespace LocTableEntry

/-- The constructors do not set the neighbour flag; it is what is found in memory. -/
def ofLpv (src : Lpv) (isNeighbor : Bool) : LocTableEntry where
  gnAddr := src.gnAddr
  lpv := src
  locationServicePending := false
  isNeighbor := isNeighbor
  updated := false
  dpl := []

def ofSpv (dst : Spv) (isNeighbor : Bool) : LocTableEntry :=
  ofLpv ⟨dst.gnAddr, dst.tst, dst.latitude, dst.longitude, 0⟩ isNeighbor

/-- Whether the number is on the duplicated packet list. -/
def isDuplicated (e : LocTableEntry) (sn : ℕ) : Bool := e.dpl.any fun n => n.sn = sn

/-- Counts a number that is on the list. -/
def countAgain (sn : ℕ) : List DplElement → List DplElement
  | [] => []
  | n :: ns => if n.sn = sn then { n with counter := n.counter + 1 } :: ns else n :: countAgain sn ns

/-- A new number goes to the end of the list; from a full list the oldest one is taken. -/
def record (e : LocTableEntry) (sn : ℕ) : LocTableEntry :=
  if e.isDuplicated sn then { e with dpl := countAgain sn e.dpl }
  else { e with dpl := (if maxDplLen ≤ e.dpl.length then e.dpl.tail else e.dpl) ++ [⟨sn, 0⟩] }

/-- The comparison of two timestamps, which holds either way round. -/
def moves (tst tst' : ℕ) : Bool :=
  (tst' < tst ∧ tst - tst' ≤ (2 ^ 32 - 1) / 2) ∨ (tst < tst' ∧ tst' - tst ≤ (2 ^ 32 - 1) / 2)

def updateLpv (e : LocTableEntry) (soPv : Lpv) : LocTableEntry :=
  { e with
    lpv := if moves (ntohl soPv.tst) (ntohl e.lpv.tst) then soPv else e.lpv
    updated := true }

def updateSpv (e : LocTableEntry) (dePv : Spv) : LocTableEntry :=
  { e with
    lpv := if e.isNeighbor then e.lpv
      else { e.lpv with
        latitude := dePv.latitude, longitude := dePv.longitude, tst := dePv.tst }
    updated := true }

/-- The age of an entry in milliseconds. -/
def age (e : LocTableEntry) (now : ℕ) : ℕ := u32 (now - ntohl e.lpv.tst)

/-- The test of `Find`. -/
def expired (e : LocTableEntry) (lifeTime : ℤ) (now : ℕ) : Bool :=
  u32 (lifeTime * 1000000) < e.age now

/-- The test of `RefreshTask`. -/
def outdated (e : LocTableEntry) (lifeTime : ℤ) (now : ℕ) : Bool :=
  u32 (lifeTime * 1000) < e.age now

variable {e : LocTableEntry}

@[simp] theorem gnAddr_updateLpv (soPv : Lpv) : (e.updateLpv soPv).gnAddr = e.gnAddr := by
  unfold updateLpv
  rfl

@[simp] theorem isNeighbor_updateLpv (soPv : Lpv) :
    (e.updateLpv soPv).isNeighbor = e.isNeighbor := by
  unfold updateLpv
  rfl

@[simp] theorem dpl_updateLpv (soPv : Lpv) : (e.updateLpv soPv).dpl = e.dpl := by
  unfold updateLpv
  rfl

@[simp] theorem gnAddr_updateSpv (dePv : Spv) : (e.updateSpv dePv).gnAddr = e.gnAddr := rfl

@[simp] theorem isNeighbor_updateSpv (dePv : Spv) :
    (e.updateSpv dePv).isNeighbor = e.isNeighbor := rfl

@[simp] theorem dpl_updateSpv (dePv : Spv) : (e.updateSpv dePv).dpl = e.dpl := rfl

@[simp] theorem gnAddr_record (sn : ℕ) : (e.record sn).gnAddr = e.gnAddr := by
  unfold record
  split_ifs <;> rfl

@[simp] theorem isNeighbor_record (sn : ℕ) : (e.record sn).isNeighbor = e.isNeighbor := by
  unfold record
  split_ifs <;> rfl

end LocTableEntry

/-! ### The table -/

abbrev Table := List (ℕ × LocTableEntry)

namespace Table
variable (f : ℕ → ℕ) (lifeTime : ℤ)

/-- What `Find` returns. -/
def found (now addr : ℕ) (table : Table) : Option LocTableEntry :=
  (lookup f addr table).filter fun e => !e.expired lifeTime now

/-- `Find` takes an entry away that has expired. -/
def find (now addr : ℕ) (table : Table) : Table :=
  match lookup f addr table with
  | some e => if e.expired lifeTime now then erase f addr table else table
  | none => table

/-- What `Update` does behind its `Find`. The key of a new entry is where the address of the packet
is. -/
def update (key : ℕ) (soPv : Lpv) (isNeighbor : Bool) (table : Table) : Table :=
  match lookup f (f key) table with
  | some _ => modify f (f key) (fun e => e.updateLpv soPv) table
  | none => insert f key (.ofLpv soPv isNeighbor) table

def updateSpv (key : ℕ) (dePv : Spv) (isNeighbor : Bool) (table : Table) : Table :=
  match lookup f (f key) table with
  | some _ => modify f (f key) (fun e => e.updateSpv dePv) table
  | none => insert f key (.ofSpv dePv isNeighbor) table

def refresh (now : ℕ) (table : Table) : Table :=
  table.filter fun e => !e.2.outdated lifeTime now

end Table

/-- `Find` keeps the table when it finds an entry. -/
theorem find_of_found {f : ℕ → ℕ} {lifeTime : ℤ} {now a : ℕ} {table : Table} {e : LocTableEntry}
    (h : table.found f lifeTime now a = some e) : table.find f lifeTime now a = table := by
  obtain ⟨hlookup, hlives⟩ := Option.filter_eq_some_iff.mp h
  unfold Table.find
  rw [hlookup]
  exact if_neg (by simpa using hlives)

/-- The distances on the globe and the place of a point in an area, which are computed with floating
point numbers. -/
structure Geometry where
  geoDistance : ℤ → ℤ → ℤ → ℤ → ℤ
  geoRelativePosition : ℤ → ℤ → ℤ → ℤ → ℕ → ℕ → ℕ → GeoAreaType → ℤ

/-- The neighbour that is nearest to a place, and its distance. -/
def findShortestLocTe (geometry : Geometry) (targetLat targetLong : ℤ) (table : Table) :
    Option LocTableEntry × ℤ :=
  table.foldl (fun best entry =>
    if entry.2.isNeighbor then
      let d := geometry.geoDistance targetLat targetLong (s32 (ntohl entry.2.lpv.latitude))
        (s32 (ntohl entry.2.lpv.longitude))
      if d < best.2 then (some entry.2, d) else best
    else best) (none, 2 ^ 31 - 1)

end Tulux.GeoNetRouter
