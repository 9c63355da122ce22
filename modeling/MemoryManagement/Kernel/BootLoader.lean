import MemoryManagement.Library.ByteMemory

/-!
# The boot loader's segment reader

`bootReadseg` reads whole sectors from the sector boundary below `dst` on, until it is past the file
part, and then clears what follows the file part. The reads add up to one copy from the disk
(`readSectors_eq`), so that every byte of memory afterwards is known (`boot_readseg_loads`).
-/

set_option autoImplicit false

namespace MemoryManagement.Kernel

open Library.ByteMemory

def SECTORSIZE : Nat := 512

/-! ## The reader -/

/-- The bytes from `off` on of the disk, `len` of them, copied to `dst`. -/
def diskCopy (disk : Nat → UInt8) (m : Mem) (dst off len : Nat) : Mem :=
  fun x => if InRange dst len x then disk (off + (x - dst)) else m x

/-- `boot_readsect(dst, src_sect)`. -/
def bootReadsect (disk : Nat → UInt8) (m : Mem) (dst srcSect : Nat) : Mem :=
  diskCopy disk m dst (SECTORSIZE * srcSect) SECTORSIZE

/-- The loop that reads sectors while `ptr < end_ptr`. With `ptr` at the top of the address space it
would start again at 0; `fuel` bounds the rounds. -/
def readSectors (disk : Nat → UInt8) (endPtr : Nat) : Nat → Mem → Nat → Nat → Option Mem
  | 0, _, _, _ => none
  | fuel + 1, m, ptr, srcSect =>
      if ptr < endPtr then
        readSectors disk endPtr fuel (bootReadsect disk m ptr srcSect) ((ptr + SECTORSIZE) % 2 ^ 64)
          ((srcSect + 1) % 2 ^ 32)
      else some m

/-- `boot_readseg(ptr, src_sect, filesz, memsz)`. -/
def bootReadseg (disk : Nat → UInt8) (fuel : Nat) (m : Mem) (ptr srcSect filesz memsz : Nat) :
    Option Mem :=
  let endPtr := (ptr + filesz) % 2 ^ 64
  let memsz := (memsz + ptr) % 2 ^ 64
  -- round down to sector boundary
  let ptr := ptr - ptr % SECTORSIZE
  match readSectors disk endPtr fuel m ptr srcSect with
  | none => none
  -- clear bss segment
  | some m => some (memset m endPtr 0 (memsz - endPtr))

/-! ## The sectors as one copy -/

section Copy

variable {disk : Nat → UInt8} {m : Mem} {dst off len x : Nat}

theorem diskCopy_of_inRange (h : InRange dst len x) : diskCopy disk m dst off len x = disk (off + (x - dst)) :=
  if_pos h

theorem diskCopy_of_not_inRange (h : ¬ InRange dst len x) : diskCopy disk m dst off len x = m x :=
  if_neg h

theorem diskCopy_zero : diskCopy disk m dst off 0 = m := by
  funext x
  apply diskCopy_of_not_inRange
  intro hx
  exact absurd hx.2 (Nat.not_lt.2 hx.1)

/-- Two copies in a row are one. -/
theorem diskCopy_diskCopy (k l : Nat) :
    diskCopy disk (diskCopy disk m dst off k) (dst + k) (off + k) l = diskCopy disk m dst off (k + l) := by
  funext x
  by_cases hsecond : InRange (dst + k) l x
  · have hindex : off + k + (x - (dst + k)) = off + (x - dst) := by omega
    rw [diskCopy_of_inRange hsecond, diskCopy_of_inRange (by omega), hindex]
  · rw [diskCopy_of_not_inRange hsecond]
    by_cases hfirst : InRange dst k x
    · rw [diskCopy_of_inRange hfirst, diskCopy_of_inRange (by omega)]
    · rw [diskCopy_of_not_inRange hfirst, diskCopy_of_not_inRange (by omega)]

end Copy

section Sectors

variable {disk : Nat → UInt8} {m : Mem} {endPtr ptr srcSect n fuel : Nat}

/-- `n` rounds get `ptr` to the end or past it, and no fewer do. -/
structure Rounds (ptr endPtr n : Nat) : Prop where
  enough : endPtr ≤ ptr + SECTORSIZE * n
  needed : ∀ k, k < n → ptr + SECTORSIZE * k < endPtr

theorem Rounds.tail (h : Rounds ptr endPtr (n + 1)) : Rounds (ptr + SECTORSIZE) endPtr n := by
  refine ⟨?_, fun k hk => ?_⟩
  · have henough := h.enough
    rw [Nat.mul_succ] at henough
    omega
  · have hneeded := h.needed (k + 1) (Nat.succ_lt_succ hk)
    rw [Nat.mul_succ] at hneeded
    omega

/-- The loop copies `n` sectors. -/
theorem readSectors_eq (h : Rounds ptr endPtr n) (haddr : ptr + SECTORSIZE * n < 2 ^ 64)
    (hsect : srcSect + n ≤ 2 ^ 32) (hfuel : n < fuel) :
    readSectors disk endPtr fuel m ptr srcSect
      = some (diskCopy disk m ptr (SECTORSIZE * srcSect) (SECTORSIZE * n)) := by
  induction n generalizing m ptr srcSect fuel with
  | zero =>
      obtain ⟨k, rfl⟩ : ∃ k, fuel = k + 1 := ⟨fuel - 1, by omega⟩
      have hend : ¬ ptr < endPtr := Nat.not_lt.2 h.enough
      rw [readSectors, if_neg hend, Nat.mul_zero, diskCopy_zero]
  | succ n ih =>
      obtain ⟨k, rfl⟩ : ∃ k, fuel = k + 1 := ⟨fuel - 1, by omega⟩
      have hmore : ptr < endPtr := h.needed 0 (Nat.succ_pos n)
      rw [Nat.mul_succ] at haddr
      have hptr : (ptr + SECTORSIZE) % 2 ^ 64 = ptr + SECTORSIZE := Nat.mod_eq_of_lt (by omega)
      have hrest : (SECTORSIZE : Nat) + SECTORSIZE * n = SECTORSIZE * (n + 1) := by
        rw [Nat.mul_succ, Nat.add_comm]
      rw [readSectors, if_pos hmore, hptr]
      cases n with
      | zero =>
          -- the sector number may have wrapped, but it is not used any more
          obtain ⟨l, rfl⟩ : ∃ l, k = l + 1 := ⟨k - 1, by omega⟩
          have hend : ¬ ptr + SECTORSIZE < endPtr := Nat.not_lt.2 h.enough
          rw [readSectors, if_neg hend, bootReadsect, Nat.zero_add, Nat.mul_one]
      | succ n =>
          have hnext : (srcSect + 1) % 2 ^ 32 = srcSect + 1 := Nat.mod_eq_of_lt (by omega)
          have hcopy := ih (m := bootReadsect disk m ptr srcSect) h.tail (by omega)
            (by omega : srcSect + 1 + (n + 1) ≤ 2 ^ 32) (by omega : n + 1 < k)
          rw [Nat.mul_succ SECTORSIZE srcSect] at hcopy
          rw [hnext, hcopy, bootReadsect, diskCopy_diskCopy, hrest]

end Sectors

/-! ## A segment -/

/-- `ROUNDDOWN(a, SECTORSIZE)`. -/
def sectorDown (a : Nat) : Nat := a - a % SECTORSIZE

/-- `ROUNDUP(a, SECTORSIZE)`, for an address that does not overflow. -/
def sectorUp (a : Nat) : Nat := sectorDown (a + (SECTORSIZE - 1))

/-- How many sectors a segment's file part at `dst` meets; an empty one in the middle of a sector is
read as well. -/
def sectorCount (dst filesz : Nat) : Nat := (sectorUp (dst + filesz) - sectorDown dst) / SECTORSIZE

/-- What memory holds after a segment has been read: the file part, zeros behind it, and what it held
before outside the sectors and the zeros. -/
structure SegmentRead (disk : Nat → UInt8) (dst srcSect filesz memsz : Nat) (before after : Mem) : Prop where
  file : ∀ k, k < filesz → after (dst + k) = disk (SECTORSIZE * srcSect + (dst % SECTORSIZE + k))
  bss : ∀ x, dst + filesz ≤ x → x < dst + memsz → after x = 0
  frame : ∀ x, x < sectorDown dst ∨ max (sectorUp (dst + filesz)) (dst + memsz) ≤ x → after x = before x

section Segment

variable {disk : Nat → UInt8} {m : Mem} {dst srcSect filesz memsz fuel : Nat}

theorem sectorUp_eq (dst filesz : Nat) :
    sectorUp (dst + filesz) = sectorDown dst + SECTORSIZE * sectorCount dst filesz := by
  simp only [sectorCount, sectorUp, sectorDown, SECTORSIZE]
  omega

theorem rounds_sectorCount (dst filesz : Nat) :
    Rounds (sectorDown dst) (dst + filesz) (sectorCount dst filesz) := by
  refine ⟨?_, fun k hk => ?_⟩
  · rw [← sectorUp_eq]
    simp only [sectorUp, sectorDown, SECTORSIZE]
    omega
  · simp only [sectorCount, sectorUp, sectorDown, SECTORSIZE] at hk ⊢
    omega

/-- The whole sectors hold the file part; clearing the rest does not meet it. -/
theorem segmentRead_of_copy (hsize : filesz ≤ memsz) : SegmentRead disk dst srcSect filesz memsz m
    (memset (diskCopy disk m (sectorDown dst) (SECTORSIZE * srcSect) (SECTORSIZE * sectorCount dst filesz))
      (dst + filesz) 0 (memsz - filesz)) := by
  have hup := sectorUp_eq dst filesz
  have hdown : sectorDown dst + dst % SECTORSIZE = dst := Nat.sub_add_cancel (Nat.mod_le dst SECTORSIZE)
  have hcover : dst + filesz ≤ sectorUp (dst + filesz) := by
    rw [hup]
    exact (rounds_sectorCount dst filesz).enough
  refine ⟨fun k hk => ?_, fun x hlow hhigh => ?_, fun x hout => ?_⟩
  · have hindex : dst + k - sectorDown dst = dst % SECTORSIZE + k := by omega
    rw [memset_of_not_inRange (by omega), diskCopy_of_inRange (by omega), hindex]
  · exact memset_of_inRange ⟨hlow, by omega⟩
  · rw [memset_of_not_inRange (by omega), diskCopy_of_not_inRange (by omega)]

/-- `boot_readseg` ends, and the segment is in its place. -/
theorem boot_readseg_loads (disk : Nat → UInt8) (m : Mem) (hsize : filesz ≤ memsz)
    (haddr : sectorUp (dst + filesz) < 2 ^ 64) (hmem : dst + memsz < 2 ^ 64)
    (hsect : srcSect + sectorCount dst filesz ≤ 2 ^ 32) (hfuel : sectorCount dst filesz < fuel) :
    ∃ m', bootReadseg disk fuel m dst srcSect filesz memsz = some m' ∧
      SegmentRead disk dst srcSect filesz memsz m m' := by
  have hend : (dst + filesz) % 2 ^ 64 = dst + filesz := Nat.mod_eq_of_lt (by omega)
  have hlast : (memsz + dst) % 2 ^ 64 = dst + memsz := by
    rw [Nat.add_comm]
    exact Nat.mod_eq_of_lt hmem
  have hsectors : readSectors disk (dst + filesz) fuel m (sectorDown dst) srcSect = some (diskCopy disk m
      (sectorDown dst) (SECTORSIZE * srcSect) (SECTORSIZE * sectorCount dst filesz)) := by
    apply readSectors_eq (rounds_sectorCount dst filesz) _ hsect hfuel
    rw [← sectorUp_eq]
    exact haddr
  have hzeros : dst + memsz - (dst + filesz) = memsz - filesz := by omega
  refine ⟨_, ?_, segmentRead_of_copy hsize⟩
  unfold bootReadseg
  simp only [hend, hlast, hzeros]
  rw [sectorDown] at hsectors
  rw [hsectors]
  rfl

/-- A segment that starts and ends inside a sector. -/
theorem boot_readseg_loads_unaligned :
    ∃ m', bootReadseg (fun i => UInt8.ofNat i) 4 (fun _ => 7) 0x40100 9 0x300 0x500 = some m' ∧
      SegmentRead (fun i => UInt8.ofNat i) 0x40100 9 0x300 0x500 (fun _ => 7) m' :=
  boot_readseg_loads (fun i => UInt8.ofNat i) (fun _ => 7) (by decide) (by decide) (by decide) (by decide)
    (by decide)

end Segment

end MemoryManagement.Kernel
