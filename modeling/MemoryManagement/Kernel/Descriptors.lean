import MemoryManagement.Library.BitFields
import Mathlib.Algebra.Group.Nat.Defs

/-!
# Segment and gate descriptors

`setGate` and `setSysSegment` pack an address, a size, a type and a privilege level into the two words of
a descriptor. The processor reads the fields back from fixed bit positions (`GateDescriptor.offset`,
`SysSegment.base`, and so on). A gate always reads back as it was encoded. A system segment has its high
limit bits shifted out of the word, so that its limit reads back exactly when the size is at most `2^16`.
-/

set_option autoImplicit false

namespace MemoryManagement.Kernel

open Library.BitFields

/-! ## The encoders -/

/-- `X86SEG_P`: segment present. -/
def X86SEG_P : BitVec 64 := 1#64 <<< 47

def X86SEG_TSS : BitVec 64 := 0x9#64 <<< 40

def X86GATE_INTERRUPT : BitVec 64 := 0xE#64 <<< 40

/-- Kernel code segment, an `int` constant. -/
def SEGSEL_KERN_CODE : BitVec 32 := 0x8#32

/-- `x86_64_gatedescriptor`. -/
structure GateDescriptor where
  gdLow : BitVec 64
  gdHigh : BitVec 64
  deriving DecidableEq

/-- The two words at `segment`. -/
structure SysSegment where
  word0 : BitVec 64
  word1 : BitVec 64
  deriving DecidableEq

/-- `set_gate(gate, type, dpl, function)`. -/
def setGate (type : BitVec 64) (dpl : BitVec 32) (function : BitVec 64) : GateDescriptor where
  gdLow := (function &&& 0x000000000000FFFF#64)
    ||| (SEGSEL_KERN_CODE <<< 16).signExtend 64
    ||| type
    ||| (dpl.signExtend 64 <<< 45)
    ||| X86SEG_P
    ||| ((function &&& 0x00000000FFFF0000#64) <<< 32)
  gdHigh := function >>> 32

/-- `set_sys_segment(segment, type, dpl, addr, size)`. -/
def setSysSegment (type : BitVec 64) (dpl : BitVec 32) (addr size : BitVec 64) : SysSegment where
  word0 := ((addr &&& 0x0000000000FFFFFF#64) <<< 16)
    ||| ((addr &&& 0x00000000FF000000#64) <<< 32)
    ||| ((size - 1) &&& 0x0FFFF#64)
    -- bits 16 to 19 would have to go to 48 to 51, a shift by 32
    ||| (((size - 1) &&& 0xF0000#64) <<< 48)
    ||| type
    ||| (dpl.signExtend 64 <<< 45)
    ||| X86SEG_P
  word1 := addr >>> 32

/-! ## The layouts -/

/-- The type of a descriptor, bits 40 to 43 of its first word. -/
def typeField (w : BitVec 64) : BitVec 4 := w.extractLsb' 40 4

/-- The privilege level, bits 45 and 46. -/
def dplField (w : BitVec 64) : BitVec 2 := w.extractLsb' 45 2

/-- The present bit. -/
def presentField (w : BitVec 64) : BitVec 1 := w.extractLsb' 47 1

namespace GateDescriptor

/-- The address of the handler: bits 0 to 15 and 48 to 63 of the low word, bits 0 to 31 of the high. -/
def offset (g : GateDescriptor) : BitVec 64 :=
  g.gdHigh.extractLsb' 0 32 ++ (g.gdLow.extractLsb' 48 16 ++ g.gdLow.extractLsb' 0 16)

def selector (g : GateDescriptor) : BitVec 16 := g.gdLow.extractLsb' 16 16

end GateDescriptor

namespace SysSegment

/-- Bits 16 to 39 and 56 to 63 of the first word, bits 0 to 31 of the second. -/
def base (d : SysSegment) : BitVec 64 :=
  d.word1.extractLsb' 0 32 ++ (d.word0.extractLsb' 56 8 ++ d.word0.extractLsb' 16 24)

/-- Bits 0 to 15 and 48 to 51 of the first word. -/
def limit (d : SysSegment) : BitVec 20 := d.word0.extractLsb' 48 4 ++ d.word0.extractLsb' 0 16

end SysSegment

/-- The type bits as the constants have them. -/
def typeBits (t : BitVec 4) : BitVec 64 := t.setWidth 64 <<< 40

example : typeBits 0x9#4 = X86SEG_TSS ∧ typeBits 0xE#4 = X86GATE_INTERRUPT := by decide

/-- The first word of a descriptor has the type, the level and the present bit. -/
structure AccessKept (t : BitVec 4) (dpl : BitVec 32) (w : BitVec 64) : Prop where
  type : typeField w = t
  dpl : (dplField w).setWidth 32 = dpl
  present : presentField w = 1#1

/-- A gate reads back as it was encoded. -/
structure GateKept (t : BitVec 4) (dpl : BitVec 32) (function : BitVec 64) : Prop where
  offset : (setGate (typeBits t) dpl function).offset = function
  selector : (setGate (typeBits t) dpl function).selector.setWidth 32 = SEGSEL_KERN_CODE
  access : AccessKept t dpl (setGate (typeBits t) dpl function).gdLow

/-- A system segment reads back as it was encoded. -/
structure SysSegmentKept (t : BitVec 4) (dpl : BitVec 32) (addr size : BitVec 64) : Prop where
  base : (setSysSegment (typeBits t) dpl addr size).base = addr
  limit : (setSysSegment (typeBits t) dpl addr size).limit.setWidth 64 = size - 1
  access : AccessKept t dpl (setSysSegment (typeBits t) dpl addr size).word0

/-! ## Masks and parts -/

section Masks

theorem mask_offsetLow : Mask 0x000000000000FFFF#64 0 16 := mask_of_fin (by decide) (by decide)

theorem mask_offsetMiddle : Mask 0x00000000FFFF0000#64 16 32 := mask_of_fin (by decide) (by decide)

theorem mask_baseLow : Mask 0x0000000000FFFFFF#64 0 24 := mask_of_fin (by decide) (by decide)

theorem mask_baseMiddle : Mask 0x00000000FF000000#64 24 32 := mask_of_fin (by decide) (by decide)

theorem mask_limitHigh : Mask 0xF0000#64 16 20 := mask_of_fin (by decide) (by decide)

end Masks

section Parts

/-- The conversion of a level from 0 to 3 to 64 bits adds zeros. -/
theorem signExtend_dpl {dpl : BitVec 32} (hdpl : dpl.toNat ≤ 3) : dpl.signExtend 64 = dpl.setWidth 64 := by
  apply BitVec.signExtend_eq_setWidth_of_msb_false
  rw [BitVec.msb_eq_false_iff_two_mul_lt]
  omega

/-- A level from 0 to 3 has two bits. -/
theorem within_dpl {dpl : BitVec 32} (hdpl : dpl.toNat ≤ 3) : Within (dpl.signExtend 64) 0 2 := by
  intro i hset
  rw [signExtend_dpl hdpl, BitVec.getLsbD_setWidth, Bool.and_eq_true] at hset
  refine ⟨Nat.zero_le i, ?_⟩
  by_contra hi
  have hpow : 2 ^ 2 ≤ 2 ^ i := Nat.pow_le_pow_right (by decide) (by omega)
  have hclear : dpl.toNat.testBit i = false := Nat.testBit_lt_two_pow (by omega)
  rw [BitVec.getLsbD, hclear] at hset
  cases hset.2

def typePart (t : BitVec 4) : Part 64 where
  bits := typeBits t
  lo := 40
  len := 4
  within := (within_setWidth t).shiftLeft

def dplPart (dpl : BitVec 32) (hdpl : dpl.toNat ≤ 3) : Part 64 where
  bits := dpl.signExtend 64 <<< 45
  lo := 45
  len := 2
  within := (within_dpl hdpl).shiftLeft

def presentPart : Part 64 where
  bits := X86SEG_P
  lo := 47
  len := 1
  within := within_of_fin (by decide)

variable {t : BitVec 4} {dpl : BitVec 32} {hdpl : dpl.toNat ≤ 3}

/-- What is read from the bits that all descriptors share. -/
theorem accessKept_of_parts {w : BitVec 64} {parts : List (Part 64)} (hw : w = pack parts)
    (hapart : (parts.map Part.range).Pairwise Apart) (htype : typePart t ∈ parts) (hlevel : dplPart dpl hdpl ∈ parts)
    (hpresent : presentPart ∈ parts) : AccessKept t dpl w := by
  subst hw
  refine ⟨?_, ?_, ?_⟩
  · have hread := extract_pack hapart htype
    have hmoved : (typeBits t).extractLsb' (0 + 40) 4 = (t.setWidth 64).extractLsb' 0 4 :=
      extract_shiftLeft (by decide)
    calc typeField (pack parts) = (typeBits t).extractLsb' 40 4 := hread
      _ = (t.setWidth 64).extractLsb' 0 4 := hmoved
      _ = t := by
          apply BitVec.eq_of_getLsbD_eq
          intro i hi
          simp [hi, show i < 64 by omega]
  · have hread := extract_pack hapart hlevel
    have hmoved : (dpl.signExtend 64 <<< 45).extractLsb' (0 + 45) 2 = (dpl.signExtend 64).extractLsb' 0 2 :=
      extract_shiftLeft (by decide)
    have hfield : dplField (pack parts) = (dpl.signExtend 64).extractLsb' 0 2 := hread.trans hmoved
    apply BitVec.eq_of_toNat_eq
    rw [hfield, signExtend_dpl hdpl, BitVec.toNat_setWidth, BitVec.extractLsb'_toNat, BitVec.toNat_setWidth]
    omega
  · have hread := extract_pack hapart hpresent
    calc presentField (pack parts) = X86SEG_P.extractLsb' 47 1 := hread
      _ = 1#1 := by decide

end Parts

/-- The pieces that an address is cut into give the address. -/
theorem extract_pieces (w : BitVec 64) :
    w.extractLsb' 32 32 ++ (w.extractLsb' 16 16 ++ w.extractLsb' 0 16) = w := by
  have hlow : w.extractLsb' 16 16 ++ w.extractLsb' 0 16 = w.extractLsb' 0 (16 + 16) :=
    extract_append_extract rfl
  have hall : w.extractLsb' 32 32 ++ w.extractLsb' 0 (16 + 16) = w.extractLsb' 0 (32 + (16 + 16)) :=
    extract_append_extract rfl
  rw [hlow, hall]
  exact BitVec.extractLsb'_eq_self

/-! ## Gates -/

section Gate

variable {t : BitVec 4} {dpl : BitVec 32}

def offsetLowPart (function : BitVec 64) : Part 64 where
  bits := function &&& 0x000000000000FFFF#64
  lo := 0
  len := 16
  within := mask_offsetLow.within_and

def selectorPart : Part 64 where
  bits := (SEGSEL_KERN_CODE <<< 16).signExtend 64
  lo := 16
  len := 16
  within := within_of_fin (by decide)

def offsetMiddlePart (function : BitVec 64) : Part 64 where
  bits := (function &&& 0x00000000FFFF0000#64) <<< 32
  lo := 48
  len := 16
  within := mask_offsetMiddle.within_and.shiftLeft

/-- The parts of the low word. -/
def gateParts (t : BitVec 4) (dpl : BitVec 32) (hdpl : dpl.toNat ≤ 3) (function : BitVec 64) :
    List (Part 64) :=
  [offsetLowPart function, selectorPart, typePart t, dplPart dpl hdpl, presentPart,
    offsetMiddlePart function]

theorem gateParts_apart (hdpl : dpl.toNat ≤ 3) (function : BitVec 64) :
    ((gateParts t dpl hdpl function).map Part.range).Pairwise Apart := by
  have hranges : [(0, 16), (16, 16), (40, 4), (45, 2), (47, 1), (48, 16)].Pairwise Apart := by decide
  exact hranges

theorem setGate_gdLow (hdpl : dpl.toNat ≤ 3) (function : BitVec 64) :
    (setGate (typeBits t) dpl function).gdLow = pack (gateParts t dpl hdpl function) := by
  have hassoc : ∀ a b c d e f : BitVec 64,
      a ||| b ||| c ||| d ||| e ||| f = a ||| (b ||| (c ||| (d ||| (e ||| (f ||| 0#64))))) := by
    intro a b c d e f
    simp only [BitVec.or_assoc, BitVec.or_zero]
  exact hassoc _ _ _ _ _ _

/-- Reading a gate gives back what was encoded. -/
theorem gateKept (hdpl : dpl.toNat ≤ 3) (function : BitVec 64) : GateKept t dpl function := by
  have hparts := gateParts_apart (t := t) hdpl function
  have hpack := setGate_gdLow (t := t) hdpl function
  have hlow : (setGate (typeBits t) dpl function).gdLow.extractLsb' 0 16 = function.extractLsb' 0 16 := by
    have hread := extract_pack hparts (p := offsetLowPart function) (by simp [gateParts])
    rw [hpack]
    exact hread.trans (mask_offsetLow.extract_and (Nat.le_refl _) (Nat.le_refl _))
  have hmiddle : (setGate (typeBits t) dpl function).gdLow.extractLsb' 48 16 = function.extractLsb' 16 16 := by
    have hread := extract_pack hparts (p := offsetMiddlePart function) (by simp [gateParts])
    have hmoved : ((function &&& 0x00000000FFFF0000#64) <<< 32).extractLsb' (16 + 32) 16
        = (function &&& 0x00000000FFFF0000#64).extractLsb' 16 16 := extract_shiftLeft (by decide)
    rw [hpack]
    exact (hread.trans hmoved).trans (mask_offsetMiddle.extract_and (Nat.le_refl _) (Nat.le_refl _))
  have hhigh : (setGate (typeBits t) dpl function).gdHigh.extractLsb' 0 32 = function.extractLsb' 32 32 :=
    extract_ushiftRight
  refine ⟨?_, ?_, ?_⟩
  · rw [GateDescriptor.offset, hlow, hmiddle, hhigh]
    exact extract_pieces function
  · have hread := extract_pack hparts (p := selectorPart) (by simp [gateParts])
    have hselector : (setGate (typeBits t) dpl function).selector
        = ((SEGSEL_KERN_CODE <<< 16).signExtend 64).extractLsb' 16 16 := by
      rw [GateDescriptor.selector, hpack]
      exact hread
    rw [hselector]
    decide
  · exact @accessKept_of_parts _ _ hdpl _ _ hpack hparts (by simp [gateParts]) (by simp [gateParts])
      (by simp [gateParts])

end Gate

/-! ## System segments -/

section Segment

variable {t : BitVec 4} {dpl : BitVec 32}

def limitLowPart (size : BitVec 64) : Part 64 where
  bits := (size - 1) &&& 0x0FFFF#64
  lo := 0
  len := 16
  within := mask_offsetLow.within_and

def baseLowPart (addr : BitVec 64) : Part 64 where
  bits := (addr &&& 0x0000000000FFFFFF#64) <<< 16
  lo := 16
  len := 24
  within := mask_baseLow.within_and.shiftLeft

def baseMiddlePart (addr : BitVec 64) : Part 64 where
  bits := (addr &&& 0x00000000FF000000#64) <<< 32
  lo := 56
  len := 8
  within := mask_baseMiddle.within_and.shiftLeft

/-- The high limit bits, above the end of the word. -/
def limitHighPart (size : BitVec 64) : Part 64 where
  bits := ((size - 1) &&& 0xF0000#64) <<< 48
  lo := 64
  len := 4
  within := mask_limitHigh.within_and.shiftLeft

/-- The parts of the first word. -/
def segmentParts (t : BitVec 4) (dpl : BitVec 32) (hdpl : dpl.toNat ≤ 3) (addr size : BitVec 64) :
    List (Part 64) :=
  [baseLowPart addr, baseMiddlePart addr, limitLowPart size, limitHighPart size, typePart t,
    dplPart dpl hdpl, presentPart]

theorem segmentParts_apart (hdpl : dpl.toNat ≤ 3) (addr size : BitVec 64) :
    ((segmentParts t dpl hdpl addr size).map Part.range).Pairwise Apart := by
  have hranges : [(16, 24), (56, 8), (0, 16), (64, 4), (40, 4), (45, 2), (47, 1)].Pairwise Apart := by
    decide
  exact hranges

theorem setSysSegment_word0 (hdpl : dpl.toNat ≤ 3) (addr size : BitVec 64) :
    (setSysSegment (typeBits t) dpl addr size).word0 = pack (segmentParts t dpl hdpl addr size) := by
  have hassoc : ∀ a b c d e f g : BitVec 64,
      a ||| b ||| c ||| d ||| e ||| f ||| g
        = a ||| (b ||| (c ||| (d ||| (e ||| (f ||| (g ||| 0#64)))))) := by
    intro a b c d e f g
    simp only [BitVec.or_assoc, BitVec.or_zero]
  exact hassoc _ _ _ _ _ _ _

theorem setSysSegment_base (hdpl : dpl.toNat ≤ 3) (addr size : BitVec 64) :
    (setSysSegment (typeBits t) dpl addr size).base = addr := by
  have hparts := segmentParts_apart (t := t) hdpl addr size
  have hpack := setSysSegment_word0 (t := t) hdpl addr size
  have hlow : (setSysSegment (typeBits t) dpl addr size).word0.extractLsb' 16 24
      = addr.extractLsb' 0 24 := by
    have hread := extract_pack hparts (p := baseLowPart addr) (by simp [segmentParts])
    have hmoved : ((addr &&& 0x0000000000FFFFFF#64) <<< 16).extractLsb' (0 + 16) 24
        = (addr &&& 0x0000000000FFFFFF#64).extractLsb' 0 24 := extract_shiftLeft (by decide)
    rw [hpack]
    exact (hread.trans hmoved).trans (mask_baseLow.extract_and (Nat.le_refl _) (Nat.le_refl _))
  have hmiddle : (setSysSegment (typeBits t) dpl addr size).word0.extractLsb' 56 8
      = addr.extractLsb' 24 8 := by
    have hread := extract_pack hparts (p := baseMiddlePart addr) (by simp [segmentParts])
    have hmoved : ((addr &&& 0x00000000FF000000#64) <<< 32).extractLsb' (24 + 32) 8
        = (addr &&& 0x00000000FF000000#64).extractLsb' 24 8 := extract_shiftLeft (by decide)
    rw [hpack]
    exact (hread.trans hmoved).trans (mask_baseMiddle.extract_and (Nat.le_refl _) (Nat.le_refl _))
  have hhigh : (setSysSegment (typeBits t) dpl addr size).word1.extractLsb' 0 32
      = addr.extractLsb' 32 32 := extract_ushiftRight
  have hbelow : addr.extractLsb' 24 8 ++ addr.extractLsb' 0 24 = addr.extractLsb' 0 (8 + 24) :=
    extract_append_extract rfl
  have hall : addr.extractLsb' 32 32 ++ addr.extractLsb' 0 (8 + 24) = addr.extractLsb' 0 (32 + (8 + 24)) :=
    extract_append_extract rfl
  rw [SysSegment.base, hlow, hmiddle, hhigh, hbelow, hall]
  exact BitVec.extractLsb'_eq_self

/-- The limit that is read has the low 16 bits of `size - 1` only. -/
theorem setSysSegment_limit (hdpl : dpl.toNat ≤ 3) (addr size : BitVec 64) :
    (setSysSegment (typeBits t) dpl addr size).limit.toNat = (size - 1).toNat % 2 ^ 16 := by
  have hparts := segmentParts_apart (t := t) hdpl addr size
  have hpack := setSysSegment_word0 (t := t) hdpl addr size
  have hlow : (setSysSegment (typeBits t) dpl addr size).word0.extractLsb' 0 16
      = (size - 1).extractLsb' 0 16 := by
    have hread := extract_pack hparts (p := limitLowPart size) (by simp [segmentParts])
    rw [hpack]
    exact hread.trans (mask_offsetLow.extract_and (Nat.le_refl _) (Nat.le_refl _))
  have hhigh : (setSysSegment (typeBits t) dpl addr size).word0.extractLsb' 48 4 = 0#4 := by
    -- no part has bits 48 to 51
    have hnone : ∀ r ∈ [(16, 24), (56, 8), (0, 16), (64, 4), (40, 4), (45, 2), (47, 1)],
        Apart r (48, 4) := by decide
    rw [hpack]
    exact extract_pack_eq_zero hnone
  rw [SysSegment.limit, hlow, hhigh, BitVec.toNat_append, BitVec.extractLsb'_toNat]
  simp

/-- Base, type, level and present bit always read back, the limit when the size is at most `2^16`. -/
theorem sysSegmentKept_iff (hdpl : dpl.toNat ≤ 3) (addr : BitVec 64) {size : BitVec 64}
    (hsize : 1 ≤ size.toNat) : SysSegmentKept t dpl addr size ↔ size.toNat ≤ 2 ^ 16 := by
  have hlimit := setSysSegment_limit (t := t) hdpl addr size
  have hpred : (size - 1).toNat = size.toNat - 1 := by
    rw [BitVec.toNat_sub]
    have hlt := size.isLt
    simp
    omega
  constructor
  · intro hkept
    have hread := congrArg BitVec.toNat hkept.limit
    rw [BitVec.toNat_setWidth, hlimit, hpred] at hread
    omega
  · intro hle
    refine ⟨setSysSegment_base hdpl addr size, ?_, ?_⟩
    · apply BitVec.eq_of_toNat_eq
      rw [BitVec.toNat_setWidth, hlimit, hpred]
      omega
    · exact @accessKept_of_parts _ _ hdpl _ _ (setSysSegment_word0 hdpl addr size)
        (segmentParts_apart hdpl addr size) (by simp [segmentParts]) (by simp [segmentParts])
        (by simp [segmentParts])

end Segment

/-! ## Exactness -/

/-- The encoders lose no bits, but for the limit of a system segment of more than `2^16` bytes. -/
theorem descriptors_exact_iff (t : BitVec 4) (dpl : BitVec 32) (hdpl : dpl.toNat ≤ 3) :
    (∀ function, GateKept t dpl function) ∧
      ∀ addr size : BitVec 64, 1 ≤ size.toNat → size.toNat ≤ 2 ^ 20 →
        (SysSegmentKept t dpl addr size ↔ size.toNat ≤ 2 ^ 16) :=
  ⟨gateKept hdpl, fun addr _ hlow _ => sysSegmentKept_iff hdpl addr hlow⟩

/-- A task state segment, and the same with one byte too many. -/
theorem descriptors_exact_iff_taskstate :
    GateKept 0xE#4 3#32 0x40000#64 ∧
      (SysSegmentKept 0x9#4 0#32 0x8003A040#64 104#64 ↔ (104#64).toNat ≤ 2 ^ 16) ∧
      (SysSegmentKept 0x9#4 0#32 0x8003A040#64 0x10001#64 ↔ (0x10001#64).toNat ≤ 2 ^ 16) :=
  ⟨(descriptors_exact_iff 0xE#4 3#32 (by decide)).1 0x40000#64,
    (descriptors_exact_iff 0x9#4 0#32 (by decide)).2 0x8003A040#64 104#64 (by decide) (by decide),
    (descriptors_exact_iff 0x9#4 0#32 (by decide)).2 0x8003A040#64 0x10001#64 (by decide) (by decide)⟩

/-- The limit of a segment of `2^16 + 1` bytes reads as zero. -/
theorem setSysSegment_drops_limit :
    1 ≤ (0x10001#64).toNat ∧ (0x10001#64).toNat ≤ 2 ^ 20 ∧
      (setSysSegment X86SEG_TSS 0#32 0x8003A040#64 0x10001#64).limit = 0#20 ∧
      ¬ ∀ addr size : BitVec 64, 1 ≤ size.toNat → size.toNat ≤ 2 ^ 20 →
        SysSegmentKept 0x9#4 0#32 addr size := by
  refine ⟨by decide, by decide, by decide, fun hall => ?_⟩
  have hread := (hall 0x8003A040#64 0x10001#64 (by decide) (by decide)).limit
  revert hread
  decide

end MemoryManagement.Kernel
