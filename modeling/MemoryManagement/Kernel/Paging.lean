import MemoryManagement.Library.ByteMemory
import Mathlib.Data.Nat.Bitwise

/-!
# Page tables

Translation of the page-table code of `kernel/vm.c` and of the macros of `shared/x86-64.h` it uses.
A page table is a page of 512 little-endian 64-bit entries in physical memory; four levels of them
translate a 48-bit virtual address.

Addresses, entries and sizes are naturals below `2 ^ 64`, `perm` is a natural because a negative `int`
fails its assertion at once. A failed assertion, a call of `kernel_panic` and a loop that never ends
are the three ways in which kernel code can fail to return (`Halt`).
-/

set_option autoImplicit false

namespace MemoryManagement.Kernel

open MemoryManagement.Library.ByteMemory

/-! ## Outcomes -/

/-- Why kernel code does not return. -/
inductive Halt where
  | assertion
  | panic
  | endless
  deriving DecidableEq, Repr

/-- The result of kernel code. -/
abbrev Outcome (α : Type) := Except Halt α

theorem bind_eq_ok {α β : Type} {x : Outcome α} {f : α → Outcome β} {r : β} :
    (x >>= f) = .ok r ↔ ∃ a, x = .ok a ∧ f a = .ok r := by
  cases x with
  | error e => simp [bind, Except.bind]
  | ok a => simp [bind, Except.bind]

theorem ok_pair {α β : Type} {a a' : α} {b b' : β} :
    (Except.ok (a, b) : Outcome (α × β)) = .ok (a', b') ↔ a = a' ∧ b = b' := by
  rw [Except.ok.injEq, Prod.mk.injEq]

/-- `assert(x)`. -/
def assert (p : Prop) [Decidable p] : Outcome Unit :=
  if p then .ok () else .error .assertion

theorem assert_bind_eq_ok {α : Type} {p : Prop} [Decidable p] {f : Unit → Outcome α} {r : α} :
    (assert p >>= f) = .ok r ↔ p ∧ f () = .ok r := by
  by_cases h : p
  · rw [assert, if_pos h]
    exact ⟨fun e => ⟨h, e⟩, fun e => e.2⟩
  · rw [assert, if_neg h]
    constructor
    · intro e
      cases e
    · intro e
      exact absurd e.1 h

theorem assert_bind_of {α : Type} {p : Prop} [Decidable p] {f : Unit → Outcome α} (h : p) :
    (assert p >>= f) = f () := by
  rw [assert, if_pos h]
  rfl

/-! ## Constants and address arithmetic -/

abbrev NULL : Nat := 0

abbrev PAGESIZE : Nat := 4096

abbrev MEMSIZE_PHYSICAL : Nat := 0x200000

/-- Entry is present. -/
abbrev PTE_P : Nat := 1

/-- Entry is writeable. -/
abbrev PTE_W : Nat := 2

/-- Entry is user-accessible. -/
abbrev PTE_U : Nat := 4

/-- Conversion to a 32-bit `int`. -/
def toInt32 (a : Nat) : Int := Int.bmod a (2 ^ 32)

/-- `~x` on 64 bits. -/
def not64 (x : Nat) : Nat := 2 ^ 64 - (x + 1)

/-- `PTE_ADDR(pe)`. -/
def pteAddr (pe : Nat) : Nat := pe &&& not64 0xFFF

/-- `PTE_FLAGS(pe)`. -/
def pteFlags (pe : Nat) : Nat := pe &&& 0xFFF

/-- `PAGENUMBER(ptr)`. -/
def pageNumber (ptr : Nat) : Int := toInt32 (ptr >>> 12)

/-- `pageindex(addr, level)`. -/
def pageindex (addr level : Nat) : Nat := (addr >>> (12 + (3 - level) * 9)) &&& 0x1FF

/-- `PAGEOFFSET(addr)`. -/
def pageOffset (addr : Nat) : Nat := addr &&& 0xFFF

/-! ## Page tables in memory -/

/-- `pt->entry[i]`. -/
def entry (m : Mem) (pt i : Nat) : Nat := loadLE m (pt + 8 * i) 8

/-- `pt->entry[i] = v`. -/
def setEntry (m : Mem) (pt i v : Nat) : Mem := storeLE m (pt + 8 * i) 8 v

/-- `vamapping`. -/
structure Vamapping where
  pn : Int
  pa : Nat
  perm : Nat
  deriving DecidableEq, Repr

/-- The result of `virtual_memory_lookup` for an address that is not mapped. -/
def Vamapping.unmapped : Vamapping := ⟨-1, 2 ^ 64 - 1, 0⟩

/-- The loop of `virtual_memory_lookup` over the levels that are left. -/
def lookupLevels (m : Mem) (va : Nat) : List Nat → Nat → Nat → Nat
  | [], _, pe => pe
  | i :: levels, pt, pe =>
      if pe &&& PTE_P ≠ 0 then
        let pe := entry m pt (pageindex va i) &&& not64 (pe &&& (PTE_W ||| PTE_U))
        lookupLevels m va levels (pteAddr pe) pe
      else pe

/-- `virtual_memory_lookup(pagetable, va)`. -/
def virtualMemoryLookup (m : Mem) (pagetable va : Nat) : Vamapping :=
  let pe := lookupLevels m va [0, 1, 2, 3] pagetable (PTE_W ||| PTE_U ||| PTE_P)
  if pe &&& PTE_P ≠ 0 then ⟨pageNumber pe, pteAddr pe + pageOffset va, pteFlags pe⟩
  else Vamapping.unmapped

/-- The loop of `lookup_l4pagetable` over the levels that are left. -/
def l4Levels (m : Mem) (va perm : Nat) : List Nat → Nat → Outcome Nat
  | [], pt => .ok pt
  | i :: levels, pt =>
      let pe := entry m pt (pageindex va i)
      if pe &&& PTE_P = 0 then .ok NULL
      else do
        assert (pteAddr pe < MEMSIZE_PHYSICAL)
        if perm &&& PTE_W ≠ 0 then assert (pe &&& PTE_W ≠ 0)
        if perm &&& PTE_U ≠ 0 then assert (pe &&& PTE_U ≠ 0)
        l4Levels m va perm levels (pteAddr pe)

/-- `lookup_l4pagetable(pagetable, va, perm)`. -/
def lookupL4pagetable (m : Mem) (pagetable va perm : Nat) : Outcome Nat :=
  l4Levels m va perm [0, 1, 2] pagetable

/-- The loop of `virtual_memory_map`, with the number of pages that are left, `last_index123` and
`l4pagetable`. -/
def mapPages (pagetable perm : Nat) : Nat → Mem → Nat → Nat → Int → Nat → Outcome (Mem × Int)
  | 0, m, _, _, _, _ => .ok (m, 0)
  | n + 1, m, va, pa, lastIndex123, l4pagetable => do
      let curIndex123 := toInt32 (va >>> 21)
      let l4pagetable ←
        if curIndex123 ≠ lastIndex123 then lookupL4pagetable m pagetable va perm
        else .ok l4pagetable
      let va' := (va + PAGESIZE) % 2 ^ 64
      let pa' := (pa + PAGESIZE) % 2 ^ 64
      if perm &&& PTE_P ≠ 0 ∧ l4pagetable ≠ NULL then
        let m := setEntry m l4pagetable (pageindex va 3) (pa ||| perm)
        mapPages pagetable perm n m va' pa' curIndex123 l4pagetable
      else if l4pagetable ≠ NULL then
        let m := setEntry m l4pagetable (pageindex va 3) perm
        mapPages pagetable perm n m va' pa' curIndex123 l4pagetable
      else if perm &&& PTE_P ≠ 0 then .ok (m, -1)
      else mapPages pagetable perm n m va' pa' curIndex123 l4pagetable

/-- `virtual_memory_map(pagetable, va, pa, sz, perm)`: the new memory and the return value. -/
def virtualMemoryMap (m : Mem) (pagetable va pa sz perm : Nat) : Outcome (Mem × Int) := do
  assert (va % PAGESIZE = 0)
  assert (sz % PAGESIZE = 0)
  assert (va ≤ (va + sz) % 2 ^ 64 ∨ (va + sz) % 2 ^ 64 = 0)
  if perm &&& PTE_P ≠ 0 then
    assert (pa % PAGESIZE = 0)
    assert (pa ≤ (pa + sz) % 2 ^ 64)
    assert ((pa + sz) % 2 ^ 64 ≤ MEMSIZE_PHYSICAL)
  assert (perm < 0x1000)
  assert (pagetable % PAGESIZE = 0)
  mapPages pagetable perm (sz / PAGESIZE) m va pa (-1) NULL

/-! ## Bits of entries -/

theorem testBit_not64 {x : Nat} (h : x < 2 ^ 64) (i : Nat) :
    (not64 x).testBit i = (decide (i < 64) && !x.testBit i) :=
  Nat.testBit_two_pow_sub_succ h i

theorem and_two_pow_ne_zero (x i : Nat) : x &&& 2 ^ i ≠ 0 ↔ x.testBit i = true := by
  rw [Nat.and_two_pow]
  cases x.testBit i <;> simp

theorem pteFlags_eq (pe : Nat) : pteFlags pe = pe % 4096 := Nat.and_two_pow_sub_one_eq_mod pe 12

theorem pageOffset_eq (va : Nat) : pageOffset va = va % 4096 := Nat.and_two_pow_sub_one_eq_mod va 12

theorem pageindex_eq (va level : Nat) :
    pageindex va level = va / 2 ^ (12 + (3 - level) * 9) % 512 := by
  rw [pageindex, Nat.shiftRight_eq_div_pow]
  exact Nat.and_two_pow_sub_one_eq_mod _ 9

theorem pageindex_lt (va level : Nat) : pageindex va level < 512 := by
  rw [pageindex_eq]
  exact Nat.mod_lt _ (by decide)

theorem testBit_pteAddr (pe i : Nat) :
    (pteAddr pe).testBit i = (pe.testBit i && decide (12 ≤ i ∧ i < 64)) := by
  have h : Nat.testBit 0xFFF i = decide (i < 12) := Nat.testBit_two_pow_sub_one 12 i
  rw [pteAddr, Nat.testBit_and, testBit_not64 (by decide), h]
  by_cases h1 : i < 64 <;> by_cases h2 : i < 12 <;> simp [h1, h2]
  all_goals omega

theorem pteAddr_eq {pe : Nat} (h : pe < 2 ^ 64) : pteAddr pe = pe / 4096 * 4096 := by
  apply Nat.eq_of_testBit_eq
  intro i
  have hmul : (pe / 4096 * 4096).testBit i = (decide (12 ≤ i) && pe.testBit i) := by
    rw [show (4096 : Nat) = 2 ^ 12 from rfl, Nat.testBit_mul_two_pow, Nat.testBit_div_two_pow]
    by_cases h1 : 12 ≤ i
    · rw [Nat.sub_add_cancel h1]
    · simp [h1]
  rw [testBit_pteAddr, hmul]
  by_cases h1 : 12 ≤ i <;> by_cases h2 : i < 64 <;> simp [h1, h2]
  exact Nat.testBit_lt_two_pow (Nat.lt_of_lt_of_le h (Nat.pow_le_pow_right (by decide) (by omega)))

theorem pteAddr_mod (pe : Nat) : pteAddr pe % 4096 = 0 := by
  apply Nat.eq_of_testBit_eq
  intro i
  rw [show (4096 : Nat) = 2 ^ 12 from rfl, Nat.testBit_mod_two_pow, testBit_pteAddr]
  by_cases h : i < 12 <;> simp [h]

theorem toInt32_of_lt {a : Nat} (h : a < 2 ^ 31) : toInt32 a = a := by
  have hlt : (a : Int) < 2 ^ 31 := by exact_mod_cast h
  apply Int.bmod_eq_of_le
  · have hlow : (-((2 ^ 32 : Nat) : Int) / 2 : Int) ≤ 0 := by decide
    exact le_trans hlow (Int.natCast_nonneg a)
  · have hhigh : (((2 ^ 32 : Nat) : Int) + 1) / 2 = 2 ^ 31 := by decide
    rw [hhigh]
    exact hlt

theorem mod_eq_of_toInt32_eq {a b : Nat} (h : toInt32 a = toInt32 b) :
    a % 2 ^ 32 = b % 2 ^ 32 := by
  unfold toInt32 at h
  generalize 2 ^ 32 = n at h ⊢
  have hmod : (a : Int) % (n : Int) = (b : Int) % (n : Int) := by
    rw [← Int.bmod_emod, h, Int.bmod_emod]
  exact_mod_cast hmod

/-! ## Frames of entries -/

theorem entry_lt (m : Mem) (pt i : Nat) : entry m pt i < 2 ^ 64 := loadLE_lt m _ 8

/-- Entries of page-aligned tables are independent words. -/
theorem entry_setEntry {m : Mem} {t t' i j v : Nat} (ht : t % 4096 = 0) (ht' : t' % 4096 = 0)
    (hi : i < 512) (hj : j < 512) (hv : v < 2 ^ 64) :
    entry (setEntry m t j v) t' i = if t' = t ∧ i = j then v else entry m t' i := by
  split
  · rename_i h
    obtain ⟨rfl, rfl⟩ := h
    rw [entry, setEntry, loadLE_storeLE_same]
    exact Nat.mod_eq_of_lt hv
  · rename_i h
    rw [entry, setEntry, loadLE_storeLE_disjoint, entry]
    by_cases e : t' = t
    · have hne : i ≠ j := fun e' => h ⟨e, e'⟩
      omega
    · omega

/-- An entry is determined by the bytes of its page. -/
theorem entry_congr {m m' : Mem} {pt i : Nat} (hi : i < 512)
    (h : ∀ x, InRange pt 4096 x → m' x = m x) : entry m' pt i = entry m pt i := by
  apply loadLE_congr
  intro x hx
  exact h x ⟨by omega, by omega⟩

theorem setEntry_of_not_inRange {m : Mem} {pt i v x : Nat} (hi : i < 512)
    (h : ¬ InRange pt 4096 x) : setEntry m pt i v x = m x := by
  apply storeLE_of_not_inRange
  intro hx
  exact h ⟨by omega, by omega⟩

end MemoryManagement.Kernel
