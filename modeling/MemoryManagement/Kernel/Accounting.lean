import MemoryManagement.Kernel.Spaces
import MemoryManagement.Library.RefCount

/-!
# Page accounting

The invariant of the kernel's page tables and page counts (`Accounted`): the processes of a set `A` have
address spaces of their own, and the reference count of an ordinary page is the number of their
references to it, with one more for each page that has been allocated and is not in use yet. Each way in
which the kernel changes a page table or a page count has a lemma that says how the invariant moves.
-/

set_option autoImplicit false

namespace MemoryManagement.Kernel

open MemoryManagement.Library.ByteMemory
open MemoryManagement.Library.RefCount

/-- The references to an ordinary page. -/
def refs (m : Mem) (A : Finset Nat) (T : Nat → Tables) (P : Finset Nat) (pn : Nat) : Nat :=
  count A (fun pid => uses m (T pid)) P pn

section Refs

variable {m m' : Mem} {A : Finset Nat} {T : Nat → Tables} {P : Finset Nat} {pid q : Nat}

theorem uses_le_refs (hpid : pid ∈ A) : uses m (T pid) q ≤ refs m A T P q := by
  rw [refs]
  exact uses_le_count (u := fun pid => uses m (T pid)) hpid

/-- The page table of one process changes. -/
theorem refs_change (hpid : pid ∈ A)
    (h : ∀ j ∈ A, j ≠ pid → uses m' (T j) q = uses m (T j) q) :
    refs m' A T P q + uses m (T pid) q = refs m A T P q + uses m' (T pid) q := by
  rw [refs, refs]
  exact count_change hpid h

theorem refs_leave (hpid : pid ∈ A) :
    refs m (A.erase pid) T P q + uses m (T pid) q = refs m A T P q := by
  rw [refs, refs]
  exact count_leave (u := fun pid => uses m (T pid)) hpid

end Refs

/-- The processes `A` have the page tables `T`, the pages `P` are allocated and not in use yet, and the
page counts are right. -/
structure Accounted (s : State) (A : Finset Nat) (T : Nat → Tables) (P : Finset Nat) : Prop where
  kernel : KernelSpace s.mem
  pids : ∀ pid ∈ A, 0 < pid ∧ pid < NPROC
  root : ∀ pid ∈ A, (s.processes pid).pagetable = (T pid).l1
  space : ∀ pid ∈ A, Space s.mem (T pid)
  aside : ∀ pn ∈ P, Ordinary pn ∧ ∀ pid ∈ A, uses s.mem (T pid) pn = 0
  counted : ∀ pn, Ordinary pn → (s.pageinfo pn).refcount = (refs s.mem A T P pn : Nat)
  free : ∀ pn, Ordinary pn → ((s.pageinfo pn).owner = PO_FREE ↔ (s.pageinfo pn).refcount = 0)
  tables : ∀ pid ∈ A, ∀ t ∈ (T pid).pages, s.pageinfo (t / PAGESIZE) = ⟨pid, 1⟩
  -- reserved pages and pages of the kernel keep what `pageinfo_init` gave them
  fixed : ∀ pn, pn < 512 → ¬ Ordinary pn → s.pageinfo pn = pageinfoInit pn

section Use

variable {m : Mem} {T : Tables}

theorem page_mul_div {t : Nat} (ht : t % 4096 = 0) : PAGESIZE * (t / PAGESIZE) = t := by
  simp only [PAGESIZE]
  omega

/-- A page of the page table is in use. -/
theorem Space.uses_table (h : Space m T) {t : Nat} (ht : t ∈ T.pages) :
    uses m T (t / PAGESIZE) = references m T.l1 userPages (t / PAGESIZE) + 1 := by
  rw [uses, page_mul_div (h.tables.aligned t ht), if_pos ht]

theorem uses_eq_zero {pn : Nat} :
    uses m T pn = 0 ↔ references m T.l1 userPages pn = 0 ∧ PAGESIZE * pn ∉ T.pages := by
  rw [uses]
  split
  · rename_i h
    simp [h]
  · rename_i h
    simp [h]

/-- Only ordinary pages are in use. -/
theorem Space.ordinary_of_uses (h : Space m T) {pn : Nat} (hpos : 0 < uses m T pn) : Ordinary pn := by
  rw [uses] at hpos
  by_cases hmem : PAGESIZE * pn ∈ T.pages
  · have := h.ordinary _ hmem
    rwa [Nat.mul_div_cancel_left pn (by decide : 0 < PAGESIZE)] at this
  · rw [if_neg hmem, Nat.add_zero] at hpos
    exact h.ordinary_of_references hpos

end Use

/-- Two aligned pages that meet are the same. -/
theorem page_eq_of_inRange {t t' x : Nat} (ht : t % 4096 = 0) (ht' : t' % 4096 = 0)
    (hx : InRange t 4096 x) (hx' : InRange t' 4096 x) : t = t' := by
  omega

/-- A page of the kernel's page table is no ordinary page. -/
theorem not_ordinary_kernelTables {t : Nat} (ht : t ∈ kernelTables.pages) : ¬ Ordinary (t / PAGESIZE) := by
  revert t
  decide

namespace Accounted

variable {s : State} {A : Finset Nat} {T : Nat → Tables} {P : Finset Nat}

section Consequences

variable (h : Accounted s A T P)
include h

/-- A page of a page table belongs to that page table alone. -/
theorem table_alone {pid t : Nat} (hpid : pid ∈ A) (ht : t ∈ (T pid).pages) :
    references s.mem (T pid).l1 userPages (t / PAGESIZE) = 0 ∧
    (∀ j ∈ A, j ≠ pid → uses s.mem (T j) (t / PAGESIZE) = 0) ∧ t / PAGESIZE ∉ P := by
  have hspace := h.space pid hpid
  have hcount := h.counted (t / PAGESIZE) (hspace.ordinary t ht)
  rw [h.tables pid hpid t ht] at hcount
  have hone : refs s.mem A T P (t / PAGESIZE) = 1 := by
    have : ((1 : Int)) = (refs s.mem A T P (t / PAGESIZE) : Nat) := hcount
    omega
  have huse := hspace.uses_table ht
  have hle : uses s.mem (T pid) (t / PAGESIZE) ≤ refs s.mem A T P (t / PAGESIZE) := uses_le_refs hpid
  refine ⟨by omega, ?_⟩
  exact alone (u := fun pid => uses s.mem (T pid)) hpid (by
    show refs s.mem A T P (t / PAGESIZE) ≤ uses s.mem (T pid) (t / PAGESIZE)
    omega)

/-- Different processes have different page tables. -/
theorem tables_ne {pid j t t' : Nat} (hpid : pid ∈ A) (hj : j ∈ A) (hne : j ≠ pid)
    (ht : t ∈ (T pid).pages) (ht' : t' ∈ (T j).pages) : t ≠ t' := by
  rintro rfl
  have hzero := (h.table_alone hpid ht).2.1 j hj hne
  have huse := (h.space j hj).uses_table ht'
  omega

theorem tableOk {pid : Nat} (hpid : pid ∈ A) : TableOk s.mem (T pid).l1 :=
  (h.space pid hpid).tableOk fun _ ht => (h.table_alone hpid ht).1

/-- A page without references is used by nobody. -/
theorem unused {pn : Nat} (hpn : Ordinary pn) (hzero : (s.pageinfo pn).refcount = 0) :
    (∀ pid ∈ A, uses s.mem (T pid) pn = 0) ∧ pn ∉ P := by
  have hcount := h.counted pn hpn
  rw [hzero] at hcount
  exact idle (u := fun pid => uses s.mem (T pid)) (by
    show refs s.mem A T P pn = 0
    omega)

theorem refs_le (pn : Nat) : refs s.mem A T P pn ≤ 33 := by
  have hcard : A.card ≤ 16 := by
    have hsub : A ⊆ Finset.range 16 := fun pid hpid => Finset.mem_range.2 (h.pids pid hpid).2
    have := Finset.card_le_card hsub
    rwa [Finset.card_range] at this
  have hle := count_le (u := fun pid => uses s.mem (T pid)) (H := A) (P := P) (a := pn)
    fun pid hpid => (h.space pid hpid).uses_le_two pn
  have : refs s.mem A T P pn ≤ A.card * 2 + 1 := hle
  omega

/-- Bytes outside the last-level tables of a process: the page table of every other process. -/
theorem leaves_apart {pid : Nat} (hpid : pid ∈ A) {m' : Mem}
    (hbytes : ∀ x, ¬ InRange (T pid).l4a PAGESIZE x → ¬ InRange (T pid).l4b PAGESIZE x →
      m' x = s.mem x) {t : Nat} (ht : t % 4096 = 0) (hne : ∀ t' ∈ (T pid).pages, t ≠ t') {x : Nat}
    (hx : InRange t 4096 x) : m' x = s.mem x := by
  have hspace := h.space pid hpid
  have hl4a : (T pid).l4a ∈ (T pid).pages := (T pid).l4a_mem
  have hl4b : (T pid).l4b ∈ (T pid).pages := (T pid).l4b_mem
  apply hbytes
  · intro hx'
    exact hne _ hl4a (page_eq_of_inRange ht (hspace.tables.aligned _ hl4a) hx hx')
  · intro hx'
    exact hne _ hl4b (page_eq_of_inRange ht (hspace.tables.aligned _ hl4b) hx hx')

theorem others_apart {pid : Nat} (hpid : pid ∈ A) {m' : Mem}
    (hbytes : ∀ x, ¬ InRange (T pid).l4a PAGESIZE x → ¬ InRange (T pid).l4b PAGESIZE x →
      m' x = s.mem x) {j : Nat} (hj : j ∈ A) (hne : j ≠ pid) :
    ∀ t ∈ (T j).pages, ∀ x, InRange t 4096 x → m' x = s.mem x := by
  intro t ht x hx
  apply h.leaves_apart hpid hbytes ((h.space j hj).tables.aligned t ht) _ hx
  intro t' ht'
  exact (h.tables_ne hpid hj hne ht' ht).symm

/-- Bytes outside the last-level tables of a process matter to nobody else's address space. -/
theorem of_leaves {pid : Nat} (hpid : pid ∈ A) {m' : Mem}
    (hbytes : ∀ x, ¬ InRange (T pid).l4a PAGESIZE x → ¬ InRange (T pid).l4b PAGESIZE x →
      m' x = s.mem x) :
    KernelSpace m' ∧ ∀ j ∈ A, j ≠ pid → Space m' (T j) ∧ ∀ q, uses m' (T j) q = uses s.mem (T j) q := by
  constructor
  · apply h.kernel.congr
    intro t ht x hx
    apply h.leaves_apart hpid hbytes (kernelTables_ok.aligned t ht) _ hx
    rintro t' ht' rfl
    exact not_ordinary_kernelTables ht ((h.space pid hpid).ordinary t ht')
  · intro j hj hne
    have hsame := h.others_apart hpid hbytes hj hne
    exact ⟨(h.space j hj).congr hsame, fun q => (h.space j hj).uses_congr hsame q⟩

/-- Bytes outside the last-level tables of a process matter to nobody else's translations. -/
theorem lookup_of_leaves {pid : Nat} (hpid : pid ∈ A) {m' : Mem}
    (hbytes : ∀ x, ¬ InRange (T pid).l4a PAGESIZE x → ¬ InRange (T pid).l4b PAGESIZE x →
      m' x = s.mem x) {j : Nat} (hj : j ∈ A) (hne : j ≠ pid) (va : Nat) :
    virtualMemoryLookup m' (T j).l1 va = virtualMemoryLookup s.mem (T j).l1 va :=
  (h.space j hj).linked.lookup_congr (h.space j hj).tables (h.others_apart hpid hbytes hj hne) va

/-- Bytes of pages that are no pages of page tables matter to no translation. -/
theorem lookup_of_frames (frames : Nat → Prop)
    (hframes : ∀ q, frames q → ∀ pid ∈ A, PAGESIZE * q ∉ (T pid).pages) {m' : Mem}
    (hbytes : ∀ x, (∀ q, frames q → ¬ InRange (PAGESIZE * q) PAGESIZE x) → m' x = s.mem x) {pid : Nat}
    (hpid : pid ∈ A) (va : Nat) :
    virtualMemoryLookup m' (T pid).l1 va = virtualMemoryLookup s.mem (T pid).l1 va := by
  apply (h.space pid hpid).linked.lookup_congr (h.space pid hpid).tables
  intro t ht x hx
  apply hbytes
  intro q hq hx'
  apply hframes q hq pid hpid
  have halign := (h.space pid hpid).tables.aligned t ht
  rw [← page_eq_of_inRange halign (Nat.mul_mod_right PAGESIZE q) hx hx']
  exact ht

/-- The same for one page. -/
theorem lookup_of_frame {pn : Nat} (hframe : ∀ pid ∈ A, PAGESIZE * pn ∉ (T pid).pages) {m' : Mem}
    (hbytes : ∀ x, ¬ InRange (PAGESIZE * pn) PAGESIZE x → m' x = s.mem x) {pid : Nat} (hpid : pid ∈ A)
    (va : Nat) : virtualMemoryLookup m' (T pid).l1 va = virtualMemoryLookup s.mem (T pid).l1 va := by
  apply h.lookup_of_frames (fun q => q = pn) _ _ hpid
  · rintro q rfl
    exact hframe
  · exact fun x hx => hbytes x (hx pn rfl)

end Consequences

/-- The invariant depends on the bytes of page tables, on the page counts and on the roots only. -/
theorem congr (h : Accounted s A T P) {s' : State}
    (hkernel : ∀ t ∈ kernelTables.pages, ∀ x, InRange t 4096 x → s'.mem x = s.mem x)
    (hbytes : ∀ pid ∈ A, ∀ t ∈ (T pid).pages, ∀ x, InRange t 4096 x → s'.mem x = s.mem x)
    (hinfo : s'.pageinfo = s.pageinfo)
    (hroot : ∀ pid ∈ A, (s'.processes pid).pagetable = (s.processes pid).pagetable) :
    Accounted s' A T P := by
  -- all counts are read from the page tables
  have huses : ∀ pid ∈ A, ∀ pn, uses s'.mem (T pid) pn = uses s.mem (T pid) pn :=
    fun pid hpid pn => (h.space pid hpid).uses_congr (hbytes pid hpid) pn
  constructor
  · exact h.kernel.congr hkernel
  · exact h.pids
  · intro pid hpid
    rw [hroot pid hpid]
    exact h.root pid hpid
  · intro pid hpid
    exact (h.space pid hpid).congr (hbytes pid hpid)
  · intro pn hpn
    refine ⟨(h.aside pn hpn).1, fun pid hpid => ?_⟩
    rw [huses pid hpid]
    exact (h.aside pn hpn).2 pid hpid
  · intro pn hpn
    have hsame : refs s'.mem A T P pn = refs s.mem A T P pn :=
      count_congr fun pid hpid => huses pid hpid pn
    rw [hinfo, hsame]
    exact h.counted pn hpn
  · rw [hinfo]
    exact h.free
  · rw [hinfo]
    exact h.tables
  · rw [hinfo]
    exact h.fixed

/-- Fields of the state other than memory, page counts and page tables do not matter. -/
theorem of_eq (h : Accounted s A T P) {s' : State} (hmem : s'.mem = s.mem)
    (hinfo : s'.pageinfo = s.pageinfo)
    (hroot : ∀ pid ∈ A, (s'.processes pid).pagetable = (s.processes pid).pagetable) :
    Accounted s' A T P := by
  refine h.congr ?_ ?_ hinfo hroot
  · intro _ _ x _
    rw [hmem]
  · intro _ _ _ _ x _
    rw [hmem]

/-- Bytes of ordinary pages that are no page-table pages do not matter. -/
theorem of_frames (h : Accounted s A T P) (frames : Nat → Prop)
    (hframes : ∀ q, frames q → Ordinary q ∧ ∀ pid ∈ A, PAGESIZE * q ∉ (T pid).pages) {m' : Mem}
    (hbytes : ∀ x, (∀ q, frames q → ¬ InRange (PAGESIZE * q) PAGESIZE x) → m' x = s.mem x) :
    Accounted { s with mem := m' } A T P := by
  have hkept : ∀ t, t % 4096 = 0 → (∀ q, frames q → t ≠ PAGESIZE * q) → ∀ x, InRange t 4096 x →
      m' x = s.mem x := by
    intro t ht hne x hx
    apply hbytes
    intro q hq hx'
    exact hne q hq (page_eq_of_inRange ht (Nat.mul_mod_right ..) hx hx')
  refine h.congr ?_ ?_ rfl fun _ _ => rfl
  · intro t ht
    apply hkept t (kernelTables_ok.aligned t ht)
    rintro q hq rfl
    have hbad := not_ordinary_kernelTables ht
    rw [Nat.mul_div_cancel_left q (by decide : 0 < PAGESIZE)] at hbad
    exact hbad (hframes q hq).1
  · intro pid hpid t ht
    apply hkept t ((h.space pid hpid).tables.aligned t ht)
    rintro q hq rfl
    exact (hframes q hq).2 pid hpid ht

/-- The same for one page. -/
theorem of_frame (h : Accounted s A T P) {pn : Nat} (hpn : Ordinary pn)
    (hframe : ∀ pid ∈ A, PAGESIZE * pn ∉ (T pid).pages) {m' : Mem}
    (hbytes : ∀ x, ¬ InRange (PAGESIZE * pn) PAGESIZE x → m' x = s.mem x) :
    Accounted { s with mem := m' } A T P := by
  apply h.of_frames fun q => q = pn
  · rintro q rfl
    exact ⟨hpn, hframe⟩
  · exact fun x hx => hbytes x (hx pn rfl)

end Accounted

/-! ## Allocating a page -/

theorem findFreePage_some {info : Nat → PageInfo} {pn : Nat} (h : findFreePage info = some pn) :
    1 ≤ pn ∧ pn < 512 ∧ (info pn).owner = 0 ∧ (info pn).refcount = 0 := by
  have hmem := List.mem_of_find?_eq_some h
  have hfree := List.find?_some h
  rw [List.mem_range'_1] at hmem
  rw [decide_eq_true_iff] at hfree
  omega

/-- Nothing but memory and page counts differs. -/
structure OnlyPages (s s' : State) : Prop where
  processes : s'.processes = s.processes
  current : s'.current = s.current
  ticks : s'.ticks = s.ticks
  dispGlobal : s'.dispGlobal = s.dispGlobal
  lastTicks : s'.lastTicks = s.lastTicks
  showing : s'.showing = s.showing

theorem OnlyPages.refl (s : State) : OnlyPages s s := ⟨rfl, rfl, rfl, rfl, rfl, rfl⟩

theorem OnlyPages.of_update (s : State) (m : Mem) (info : Nat → PageInfo) :
    OnlyPages s { s with mem := m, pageinfo := info } := ⟨rfl, rfl, rfl, rfl, rfl, rfl⟩

theorem OnlyPages.trans {s s' s'' : State} (h : OnlyPages s s') (h' : OnlyPages s' s'') :
    OnlyPages s s'' :=
  ⟨h'.processes.trans h.processes, h'.current.trans h.current, h'.ticks.trans h.ticks,
    h'.dispGlobal.trans h.dispGlobal, h'.lastTicks.trans h.lastTicks, h'.showing.trans h.showing⟩

/-- Nothing but memory, page counts and processes differs. -/
structure SameMachine (s s' : State) : Prop where
  current : s'.current = s.current
  ticks : s'.ticks = s.ticks
  dispGlobal : s'.dispGlobal = s.dispGlobal
  lastTicks : s'.lastTicks = s.lastTicks
  showing : s'.showing = s.showing

theorem OnlyPages.machine {s s' : State} (h : OnlyPages s s') : SameMachine s s' :=
  ⟨h.current, h.ticks, h.dispGlobal, h.lastTicks, h.showing⟩

theorem SameMachine.trans {s s' s'' : State} (h : SameMachine s s') (h' : SameMachine s' s'') :
    SameMachine s s'' :=
  ⟨h'.current.trans h.current, h'.ticks.trans h.ticks, h'.dispGlobal.trans h.dispGlobal,
    h'.lastTicks.trans h.lastTicks, h'.showing.trans h.showing⟩

theorem SameMachine.setProc (s : State) (pid : Nat) (p : Proc) : SameMachine s (s.setProc pid p) :=
  ⟨rfl, rfl, rfl, rfl, rfl⟩

/-- `palloc(pid)` has found the page `pn`: it belongs to the process and is filled, and all else is as it
was. -/
structure Allocated (s s' : State) (pid pn : Nat) : Prop where
  ordinary : Ordinary pn
  wasFree : s.pageinfo pn = ⟨PO_FREE, 0⟩
  only : OnlyPages s s'
  info : s'.pageinfo = Function.update s.pageinfo pn ⟨pid, 1⟩
  bytes : ∀ x, ¬ InRange (PAGESIZE * pn) PAGESIZE x → s'.mem x = s.mem x
  filled : ∀ x, InRange (PAGESIZE * pn) PAGESIZE x → s'.mem x = 0xCC

/-- While pages that are not ordinary have owners, `palloc` finds an ordinary page or none. -/
theorem palloc_cases {s : State} {pid : Nat} (hpid : pid < NPROC)
    (howned : ∀ pn, pn < 512 → ¬ Ordinary pn → (s.pageinfo pn).owner ≠ PO_FREE) :
    (findFreePage s.pageinfo = none ∧ palloc s pid = (s, NULL)) ∨
    ∃ pn s', findFreePage s.pageinfo = some pn ∧ palloc s pid = (s', PAGESIZE * pn) ∧
      Allocated s s' pid pn := by
  cases hfind : findFreePage s.pageinfo with
  | none =>
      left
      refine ⟨rfl, ?_⟩
      rw [palloc, hfind]
  | some pn =>
      right
      obtain ⟨h1, h512, howner, hcount⟩ := findFreePage_some hfind
      -- pages that are not ordinary have an owner, so the search passes them
      have hpn : Ordinary pn := by
        by_contra hnot
        exact howned pn h512 hnot howner
      obtain ⟨filled, hfilled⟩ : ∃ m, m = memset s.mem (pn * PAGESIZE) 0xCC PAGESIZE := ⟨_, rfl⟩
      have hcode : palloc s pid = ({ s with
          pageinfo := Function.update s.pageinfo pn ⟨toInt8 pid, toInt8 ((s.pageinfo pn).refcount + 1)⟩
          mem := filled }, pn * PAGESIZE) := by
        rw [palloc, hfind, hfilled]
      refine ⟨pn, _, rfl, hcode.trans (Prod.ext rfl (Nat.mul_comm ..)), ?_⟩
      · constructor
        · exact hpn
        · calc s.pageinfo pn = ⟨(s.pageinfo pn).owner, (s.pageinfo pn).refcount⟩ := rfl
            _ = ⟨PO_FREE, 0⟩ := by rw [howner, hcount]
        · exact OnlyPages.of_update s _ _
        · -- neither number is changed by the conversion to a byte
          have hpid8 : toInt8 (pid : Int) = pid := toInt8_of_nonneg (by omega) (by
            simp only [NPROC] at hpid
            omega)
          have hcount8 : toInt8 ((s.pageinfo pn).refcount + 1) = 1 := by
            rw [hcount]
            rfl
          show Function.update s.pageinfo pn _ = _
          rw [hpid8, hcount8]
        · intro x hx
          rw [Nat.mul_comm PAGESIZE pn] at hx
          show filled x = s.mem x
          rw [hfilled]
          exact memset_of_not_inRange hx
        · intro x hx
          rw [Nat.mul_comm PAGESIZE pn] at hx
          show filled x = 0xCC
          rw [hfilled]
          exact memset_of_inRange hx

namespace Accounted

variable {s : State} {A : Finset Nat} {T : Nat → Tables} {P : Finset Nat}

/-- A page that is not ordinary has an owner. -/
theorem owned (h : Accounted s A T P) {pn : Nat} (hlt : pn < 512) (hnot : ¬ Ordinary pn) :
    (s.pageinfo pn).owner ≠ PO_FREE := by
  intro howner
  rw [h.fixed pn hlt hnot] at howner
  exact hnot ⟨hlt, howner⟩

theorem palloc (h : Accounted s A T P) {pid : Nat} (hpid : pid < NPROC) :
    (findFreePage s.pageinfo = none ∧ palloc s pid = (s, NULL)) ∨
    ∃ pn s', findFreePage s.pageinfo = some pn ∧ Kernel.palloc s pid = (s', PAGESIZE * pn) ∧
      Allocated s s' pid pn :=
  palloc_cases hpid fun _ hlt hnot => h.owned hlt hnot

/-- An allocated page is set aside. -/
theorem allocated (h : Accounted s A T P) {pid : Nat} (hpid0 : 0 < pid) {pn : Nat} {s' : State}
    (ha : Allocated s s' pid pn) : pn ∉ P ∧ Accounted s' A T (insert pn P) := by
  obtain ⟨hunused, hnew⟩ := h.unused ha.ordinary (by rw [ha.wasFree])
  have hframe : ∀ j ∈ A, PAGESIZE * pn ∉ (T j).pages :=
    fun j hj => (uses_eq_zero.1 (hunused j hj)).2
  have hmem : Accounted { s with mem := s'.mem } A T P := h.of_frame ha.ordinary hframe ha.bytes
  have hinfo := ha.info
  -- the page is in no page table, so that filling it changes no translation
  have huses : ∀ j ∈ A, ∀ q, uses s'.mem (T j) q = uses s.mem (T j) q := by
    intro j hj q
    apply (h.space j hj).uses_congr
    intro t ht x hx
    apply ha.bytes
    intro hx'
    have := page_eq_of_inRange ((h.space j hj).tables.aligned t ht) (Nat.mul_mod_right ..) hx hx'
    exact hframe j hj (this ▸ ht)
  refine ⟨hnew, ?_⟩
  constructor
  · exact hmem.kernel
  · exact h.pids
  · intro j hj
    rw [ha.only.processes]
    exact h.root j hj
  · exact hmem.space
  · intro q hq
    rcases Finset.mem_insert.1 hq with rfl | hq
    · refine ⟨ha.ordinary, fun j hj => ?_⟩
      rw [huses j hj]
      exact hunused j hj
    · exact hmem.aside q hq
  · intro q hq
    have hcount : refs s'.mem A T (insert pn P) q =
        refs s'.mem A T P q + if q = pn then 1 else 0 := count_setAside hnew q
    have hold := hmem.counted q hq
    rw [hcount, hinfo]
    by_cases hqn : q = pn
    · subst hqn
      rw [Function.update_self, if_pos rfl]
      show (1 : Int) = _
      -- the page was free, so the one reference is that of the set aside pages
      have hwas : (s.pageinfo q).refcount = 0 := by rw [ha.wasFree]
      have : ((refs s'.mem A T P q : Nat) : Int) = 0 := by
        rw [← hwas]
        exact hold.symm
      omega
    · rw [Function.update_of_ne hqn, if_neg hqn, Nat.add_zero]
      exact hold
  · intro q hq
    rw [hinfo]
    by_cases hqn : q = pn
    · subst hqn
      rw [Function.update_self]
      simp only [PO_FREE]
      omega
    · rw [Function.update_of_ne hqn]
      exact h.free q hq
  · intro j hj t ht
    rw [hinfo, Function.update_of_ne]
    · exact h.tables j hj t ht
    · intro e
      apply hframe j hj
      rw [← e, page_mul_div ((h.space j hj).tables.aligned t ht)]
      exact ht
  · intro q hlt hq
    rw [hinfo, Function.update_of_ne]
    · exact h.fixed q hlt hq
    · rintro rfl
      exact hq ha.ordinary

end Accounted

end MemoryManagement.Kernel
