import MemoryManagement.Kernel.Creation

/-!
# Fresh pages

Address spaces grow in one way: `palloc` finds a free page, the kernel writes to it, and
`virtual_memory_map` maps it in the user part of a process. `Accounted.supply` says what this does;
heap faults, `fork`, `sys_page_alloc` and the loader all use it. While pages are taken and none is given
back, `palloc` does not fail early (`FreeFrom`).
-/

set_option autoImplicit false

namespace MemoryManagement.Kernel

open MemoryManagement.Library.ByteMemory
open MemoryManagement.Library.RefCount

/-- The fresh page `pn` has been mapped at page `i` of a process; nothing else has changed. -/
structure Supplied (s s' : State) (A : Finset Nat) (T : Nat → Tables) (pid i pn : Nat) : Prop where
  ordinary : Ordinary pn
  wasFree : s.pageinfo pn = ⟨PO_FREE, 0⟩
  only : OnlyPages s s'
  info : s'.pageinfo = Function.update s.pageinfo pn ⟨pid, 1⟩
  accounted : Accounted s' A T ∅
  lookup : ∀ a, virtualMemoryLookup s'.mem (T pid).l1 a =
    if page48 a = i then ⟨(pn : Nat), PAGESIZE * pn + a % PAGESIZE, 7⟩
    else virtualMemoryLookup s.mem (T pid).l1 a
  others : ∀ j ∈ A, j ≠ pid → ∀ a,
    virtualMemoryLookup s'.mem (T j).l1 a = virtualMemoryLookup s.mem (T j).l1 a
  bytes : ∀ x, ¬ InRange (PAGESIZE * pn) PAGESIZE x → (∀ t ∈ (T pid).pages, ¬ InRange t PAGESIZE x) →
    s'.mem x = s.mem x

namespace Supplied

variable {s s' : State} {A : Finset Nat} {T : Nat → Tables} {pid i pn : Nat}

theorem mapped_iff (h : Supplied s s' A T pid i pn) (a : Nat) :
    Mapped s'.mem (T pid).l1 a ↔ page48 a = i ∨ Mapped s.mem (T pid).l1 a := by
  rw [Mapped, Mapped, h.lookup]
  by_cases ha : page48 a = i
  · rw [if_pos ha]
    simp only [ha, true_or, iff_true]
    intro e
    exact absurd (congrArg Vamapping.perm e) (by decide : (7 : Nat) ≠ 0)
  · rw [if_neg ha]
    simp only [ha, false_or]

/-- The others refer to the same pages as before. -/
theorem uses_other (h : Supplied s s' A T pid i pn) {j : Nat} (hj : j ∈ A) (hne : j ≠ pid) (q : Nat) :
    uses s'.mem (T j) q = uses s.mem (T j) q := by
  rw [uses, uses, references_congr fun va _ => h.others j hj hne va]

end Supplied

namespace Accounted

variable {s s₁ : State} {A : Finset Nat} {T : Nat → Tables}

/-- A page that has just been allocated is mapped at an address that was not mapped. -/
theorem supply (h : Accounted s A T ∅) {pid i pn : Nat} (hpid : pid ∈ A) (hi : 256 ≤ i) (hi' : i < 768)
    (hunmapped : ¬ Mapped s.mem (T pid).l1 (PAGESIZE * i)) (halloc : Allocated s s₁ pid pn) {m₁ : Mem}
    (hwrite : ∀ x, ¬ InRange (PAGESIZE * pn) PAGESIZE x → m₁ x = s₁.mem x) :
    ∃ m', virtualMemoryMap m₁ (T pid).l1 (PAGESIZE * i) (PAGESIZE * pn) PAGESIZE 7 = .ok (m', 0) ∧
      Supplied s { s₁ with mem := m' } A T pid i pn ∧
      ∀ x, InRange (PAGESIZE * pn) PAGESIZE x → m' x = m₁ x := by
  have hord := halloc.ordinary
  obtain ⟨hunused, -⟩ := h.unused hord (by rw [halloc.wasFree])
  have hframe : ∀ j ∈ A, PAGESIZE * pn ∉ (T j).pages := fun j hj => (uses_eq_zero.1 (hunused j hj)).2
  obtain ⟨-, hacc₁⟩ := h.allocated (h.pids pid hpid).1 halloc
  have hacc₂ := hacc₁.of_frame hord hframe hwrite
  have hspace := hacc₂.space pid hpid
  -- the page tables are as they were
  have hlookup : ∀ j ∈ A, ∀ a,
      virtualMemoryLookup m₁ (T j).l1 a = virtualMemoryLookup s.mem (T j).l1 a := by
    intro j hj a
    apply h.lookup_of_frame hframe _ hj
    intro x hx
    rw [hwrite x hx]
    exact halloc.bytes x hx
  have hfresh : ¬ Mapped m₁ (T pid).l1 (PAGESIZE * i) := by
    rw [Mapped, hlookup pid hpid]
    exact hunmapped
  have hlt := hord.lt
  obtain ⟨m', hcode, hmaps⟩ := hspace.linked.map_pages hspace.tables (i := i) (n := 1)
    (by omega) (by decide : 7 < 4096) (by decide) (Nat.mul_mod_right PAGESIZE pn)
    (by simp only [PAGESIZE]; omega)
  have hbytes := hmaps.bytes
  have hmem : (insert pn (∅ : Finset Nat)).erase pn = ∅ := Finset.erase_insert (Finset.notMem_empty pn)
  have hacc₃ := hacc₂.mapAside hpid hi hi' (Finset.mem_insert_self pn ∅) (Or.inl rfl) hmaps hfresh
  rw [hmem] at hacc₃
  refine ⟨m', hcode, ?_, fun x hx => ?_⟩
  · constructor
    · exact hord
    · exact halloc.wasFree
    · exact halloc.only.trans (OnlyPages.of_update s₁ m' s₁.pageinfo)
    · exact halloc.info
    · exact hacc₃
    · intro a
      have hself := Space.lookup_mapPage (Or.inl rfl) hmaps a
      rw [hlookup pid hpid] at hself
      exact hself
    · intro j hj hne a
      rw [← hlookup j hj]
      exact hacc₂.lookup_of_leaves hpid hbytes hj hne a
    · intro x hx htable
      have hl4a : (T pid).l4a ∈ (T pid).pages := (T pid).l4a_mem
      have hl4b : (T pid).l4b ∈ (T pid).pages := (T pid).l4b_mem
      rw [← halloc.bytes x hx, ← hwrite x hx]
      exact hbytes x (htable _ hl4a) (htable _ hl4b)
  · apply hbytes
    · intro hx'
      apply hframe pid hpid
      have hl4a : (T pid).l4a ∈ (T pid).pages := (T pid).l4a_mem
      have hsame := page_eq_of_inRange (hspace.tables.aligned _ hl4a) (Nat.mul_mod_right PAGESIZE pn) hx' hx
      rw [← hsame]
      exact hl4a
    · intro hx'
      apply hframe pid hpid
      have hl4b : (T pid).l4b ∈ (T pid).pages := (T pid).l4b_mem
      have hsame := page_eq_of_inRange (hspace.tables.aligned _ hl4b) (Nat.mul_mod_right PAGESIZE pn) hx' hx
      rw [← hsame]
      exact hl4b

end Accounted

/-! ## Pages that are left -/

/-- The ordinary pages from `k` on are free. -/
def FreeFrom (k : Nat) (info : Nat → PageInfo) : Prop :=
  ∀ pn, k ≤ pn → Ordinary pn → info pn = ⟨PO_FREE, 0⟩

theorem FreeFrom.mono {k k' : Nat} {info : Nat → PageInfo} (h : FreeFrom k info) (hk : k ≤ k') :
    FreeFrom k' info :=
  fun pn hpn => h pn (Nat.le_trans hk hpn)

theorem FreeFrom.update {k pn : Nat} {info : Nat → PageInfo} {i : PageInfo} (h : FreeFrom k info)
    (hpn : pn ≤ k) : FreeFrom (k + 1) (Function.update info pn i) := by
  intro q hq hord
  rw [Function.update_of_ne (by omega)]
  exact h q (by omega) hord

/-- The page that is found is not beyond the first one that is known to be free. -/
theorem findFreePage_le {k : Nat} {info : Nat → PageInfo} (hk : Ordinary k)
    (hfree : info k = ⟨PO_FREE, 0⟩) : ∃ pn, findFreePage info = some pn ∧ pn ≤ k := by
  have hpos := hk.pos
  have hlt := hk.lt
  cases hfind : findFreePage info with
  | none =>
      have hnone := List.find?_eq_none.1 hfind k (List.mem_range'_1.2 ⟨by omega, by omega⟩)
      rw [hfree] at hnone
      exact absurd hnone (by decide)
  | some pn =>
      refine ⟨pn, rfl, ?_⟩
      by_contra hgt
      obtain ⟨-, -, hbefore⟩ := List.find?_range'_eq_some.1 hfind
      have := hbefore k (by omega) (by omega)
      rw [hfree] at this
      exact absurd this (by decide)

theorem FreeFrom.findFreePage_ne_none {k : Nat} {info : Nat → PageInfo} (h : FreeFrom k info)
    (hk : Ordinary k) : findFreePage info ≠ none := by
  obtain ⟨pn, hfind, -⟩ := findFreePage_le hk (h k (Nat.le_refl k) hk)
  rw [hfind]
  exact Option.some_ne_none pn

/-- The pages behind the first one that is known to be free stay free. -/
theorem FreeFrom.taken {k pn : Nat} {info : Nat → PageInfo} {i : PageInfo} (h : FreeFrom k info)
    (hk : Ordinary k) (hfind : findFreePage info = some pn) :
    FreeFrom (k + 1) (Function.update info pn i) := by
  obtain ⟨pn', hfind', hle⟩ := findFreePage_le hk (h k (Nat.le_refl k) hk)
  obtain rfl : pn = pn' := Option.some.inj (hfind.symm.trans hfind')
  exact h.update hle

namespace Accounted

variable {s : State} {A : Finset Nat} {T : Nat → Tables} {P : Finset Nat}

/-- With a free page there, `palloc` succeeds. -/
theorem palloc_succeeds (h : Accounted s A T P) {pid k : Nat} (hpid : pid < NPROC) (hk : Ordinary k)
    (hfree : FreeFrom k s.pageinfo) :
    ∃ pn s', pn ≤ k ∧ Kernel.palloc s pid = (s', PAGESIZE * pn) ∧ Allocated s s' pid pn ∧
      FreeFrom (k + 1) s'.pageinfo := by
  obtain ⟨pn, hfind, hle⟩ := findFreePage_le hk (hfree k (Nat.le_refl k) hk)
  rcases h.palloc hpid with ⟨hnone, -⟩ | ⟨pn', s', hfind', hcode, halloc⟩
  · rw [hfind] at hnone
    cases hnone
  · obtain rfl : pn = pn' := Option.some.inj (hfind.symm.trans hfind')
    have hinfo := halloc.info
    refine ⟨pn, s', hle, hcode, halloc, ?_⟩
    rw [hinfo]
    exact hfree.update hle

theorem pallocs_succeed (h : Accounted s A T P) {pid k n : Nat} (hpid : 0 < pid ∧ pid < NPROC)
    (hk : 0 < k) (hkn : k + n ≤ 0x40) (hfree : FreeFrom k s.pageinfo) :
    NULL ∉ (Kernel.pallocs pid n s).2 ∧ FreeFrom (k + n) (Kernel.pallocs pid n s).1.pageinfo := by
  induction n generalizing s P k with
  | zero => exact ⟨List.not_mem_nil, hfree⟩
  | succ n ih =>
      have hord : Ordinary k := ordinary_of_lt hk (by omega)
      obtain ⟨pn, s₁, hle, hcode, halloc, hfree₁⟩ := h.palloc_succeeds hpid.2 hord hfree
      obtain ⟨hnull, hfree₂⟩ := ih (h.allocated hpid.1 halloc).2 (by omega) (by omega) hfree₁
      have hpos := halloc.ordinary.pos
      rw [Kernel.pallocs, hcode]
      constructor
      · intro hmem
        rcases List.mem_cons.1 hmem with hzero | hmem
        · simp only [NULL, PAGESIZE] at hzero
          omega
        · exact hnull hmem
      · rw [show k + (n + 1) = k + 1 + n by omega]
        exact hfree₂

end Accounted

end MemoryManagement.Kernel
