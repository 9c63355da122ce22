import MemoryManagement.Kernel.Isolation
import MemoryManagement.Kernel.Startup

/-!
# Page faults

A page fault of a process in its heap maps a fresh page there and the process goes on; any other fault
of a process ends it, all its pages are free again, and another process runs if there is one
(`page_fault_exact`).
-/

set_option autoImplicit false

namespace MemoryManagement.Kernel

open MemoryManagement.Library.ByteMemory
open MemoryManagement.Library.RefCount

/-! ## The fault and its outcomes -/

/-- The current process has faulted at `addr` in user mode. The processor's error code says whether the
page is present. -/
structure UserFault (s : State) (reg : Registers) (addr : Nat) : Prop where
  current : s.current < NPROC
  running : (s.processes s.current).state = .runnable
  intno : reg .intno = INT_PAGEFAULT
  user : reg .err &&& PFERR_USER ≠ 0
  present : reg .err &&& PFERR_PRESENT = 0 ↔ ¬ s.HasPage s.current addr

/-- A heap address without a page, and a page to put there. -/
structure HeapFault (s : State) (addr : Nat) : Prop where
  missing : ¬ s.HasPage s.current addr
  low : (s.processes s.current).originalBreak ≤ addr
  high : addr < (s.processes s.current).programBreak
  free : ∃ q, q < 512 ∧ s.pageinfo q = ⟨PO_FREE, 0⟩

/-- The page of `addr` is mapped to a page that was free, and the process goes on with the registers
that it trapped with. -/
structure HeapPageMapped (s s' : State) (reg : Registers) (addr : Nat) : Prop where
  page : ∃ pn, s.pageinfo pn = ⟨PO_FREE, 0⟩ ∧ s'.pageinfo pn = ⟨s.current, 1⟩ ∧
    ∀ va, page48 va = page48 addr → s'.lookup s.current va =
      ⟨(pn : Nat), PAGESIZE * pn + va % PAGESIZE, PTE_P ||| PTE_W ||| PTE_U⟩
  own : ∀ va, page48 va ≠ page48 addr → s'.lookup s.current va = s.lookup s.current va
  others : ∀ pid ∈ live s, pid ≠ s.current → ∀ va, s'.lookup pid va = s.lookup pid va
  processes : s'.processes = Function.update s.processes s.current
    { s.processes s.current with registers := reg }
  current : s'.current = s.current

/-- The current process is gone and its pages are free; the others are as they were. -/
structure CurrentEnded (s s' : State) (T : Nat → Tables) : Prop where
  ended : (s'.processes s.current).state = .free
  pages : ∀ va, UserPart va → s.HasPage s.current va →
    s'.pageinfo (s.lookup s.current va).pn.toNat = ⟨PO_FREE, 0⟩
  tables : ∀ t ∈ (T s.current).pages, s'.pageinfo (t / PAGESIZE) = ⟨PO_FREE, 0⟩
  others : ∀ pid ∈ live s, pid ≠ s.current → ∀ va, s'.lookup pid va = s.lookup pid va
  processes : ∀ pid, pid ≠ s.current → s'.processes pid = s.processes pid

/-- Another process runs next, if one is runnable. -/
def AnotherRuns (s s' : State) (next : Option Nat) : Prop :=
  (∃ pid, pid < NPROC ∧ pid ≠ s.current ∧ (s.processes pid).state = .runnable ∧ next = some pid ∧
    s'.current = pid) ∨
  ((∀ pid, pid < NPROC → pid ≠ s.current → (s.processes pid).state ≠ .runnable) ∧ next = none)

/-! ## The handler -/

section Handler

variable {s : State} {T : Nat → Tables} {reg : Registers} {addr : Nat}

/-- What the current process holds besides its page table does not matter. -/
theorem Isolated.touched {s' : State} (h : Isolated s T) (ht : Touched s s')
    (hbreaks : BreakBounds (s.processes s.current) → BreakBounds (s'.processes s.current)) :
    Isolated s' T := by
  apply h.of_processes ht.mem ht.pageinfo (fun pid _ => ht.states pid) ht.roots
  intro pid hpid
  have hb := h.breaks pid hpid
  by_cases hpc : pid = s.current
  · subst hpc
    exact hbreaks hb
  · rw [ht.other pid hpc]
    exact hb

/-- Saving the registers keeps the accounting. -/
theorem Isolated.entered {s' : State} (h : Isolated s T) (he : Entered s s' reg) : Isolated s' T := by
  apply h.touched he.touched
  intro hb
  rw [he.process_self]
  exact ⟨hb.start, hb.ordered, hb.limit⟩

theorem CurrentEnded.of_touched {s₁ s' : State} (ht : Touched s s₁) (h : CurrentEnded s₁ s' T) :
    CurrentEnded s s' T := by
  have hcur := ht.current
  constructor
  · rw [← hcur]
    exact h.ended
  · intro va huser hm
    rw [← hcur, ← ht.hasPage] at hm
    have hfree := h.pages va huser hm
    rw [ht.lookup, hcur] at hfree
    exact hfree
  · rw [← hcur]
    exact h.tables
  · intro pid hpid hne va
    rw [← ht.lookup]
    apply h.others pid
    · rw [ht.live]
      exact hpid
    · rw [hcur]
      exact hne
  · intro pid hne
    rw [← ht.other pid hne]
    apply h.processes
    rw [hcur]
    exact hne

theorem HeapFault.entered {s' : State} (he : Entered s s' reg) :
    HeapFault s' addr ↔ HeapFault s addr := by
  have hself := he.process_self
  constructor
  · intro hf
    have hlow := hf.low
    have hhigh := hf.high
    have hfree := hf.free
    have hmissing := hf.missing
    rw [he.current, hself] at hlow hhigh
    rw [he.pageinfo] at hfree
    rw [he.current, he.touched.hasPage] at hmissing
    exact ⟨hmissing, hlow, hhigh, hfree⟩
  · intro hf
    constructor
    · rw [he.current, he.touched.hasPage]
      exact hf.missing
    · rw [he.current, hself]
      exact hf.low
    · rw [he.current, hself]
      exact hf.high
    · rw [he.pageinfo]
      exact hf.free

/-- A page is free and `palloc` finds one. -/
theorem Accounted.palloc_of_free {A : Finset Nat} {P : Finset Nat} (h : Accounted s A T P) {pid : Nat}
    (hpid : pid < NPROC) (hfree : ∃ q, q < 512 ∧ s.pageinfo q = ⟨PO_FREE, 0⟩) :
    ∃ pn s', Kernel.palloc s pid = (s', PAGESIZE * pn) ∧ Allocated s s' pid pn := by
  rcases h.palloc hpid with ⟨hnone, -⟩ | ⟨pn, s', -, hcode, halloc⟩
  · obtain ⟨q, hq, hinfo⟩ := hfree
    exfalso
    by_cases hzero : q = 0
    · -- page 0 is reserved
      subst hzero
      have hfixed := h.fixed 0 hq (by decide)
      rw [hinfo] at hfixed
      exact absurd hfixed (by decide)
    · have hskip := List.find?_eq_none.1 hnone q (List.mem_range'_1.2 ⟨by omega, by omega⟩)
      rw [hinfo] at hskip
      exact absurd hskip (by decide)
  · exact ⟨pn, s', hcode, halloc⟩

/-- Without a free page `palloc` changes nothing. -/
theorem Accounted.palloc_of_full {A : Finset Nat} {P : Finset Nat} (h : Accounted s A T P) {pid : Nat}
    (hpid : pid < NPROC) (hfull : ¬ ∃ q, q < 512 ∧ s.pageinfo q = ⟨PO_FREE, 0⟩) :
    Kernel.palloc s pid = (s, NULL) := by
  rcases h.palloc hpid with ⟨-, hcode⟩ | ⟨pn, s', -, -, halloc⟩
  · exact hcode
  · exact absurd ⟨pn, halloc.ordinary.lt, halloc.wasFree⟩ hfull

/-- A missing page below the stack page is in the user part. -/
theorem Accounted.userPart_of_missing (h : Accounted s (live s) T ∅) (hcurrent : s.current ∈ live s)
    (hmissing : ¬ s.HasPage s.current addr) (hlimit : addr < MEMSIZE_VIRTUAL) : UserPart addr := by
  refine ⟨?_, hlimit⟩
  by_contra hlow
  apply hmissing
  rw [State.HasPage, h.root _ hcurrent, Mapped, (h.space _ hcurrent).low addr (Nat.not_le.1 hlow),
    lowMapping]
  intro e
  have hperm := congrArg Vamapping.perm e
  simp only at hperm
  split at hperm
  · exact absurd hperm (by decide : (7 : Nat) ≠ 0)
  · exact absurd hperm (by decide : (3 : Nat) ≠ 0)

/-- A fault in the heap. -/
theorem Accounted.pageFault_heap (h : Accounted s (live s) T ∅) (hcurrent : s.current ∈ live s)
    (hlimit : (s.processes s.current).programBreak < MEMSIZE_VIRTUAL)
    (herr : reg .err &&& PFERR_PRESENT = 0) (hf : HeapFault s addr) :
    ∃ s' pn, pageFault s reg addr = .ok s' ∧
      Supplied s s' (live s) T s.current (page48 addr) pn := by
  have hroot := h.root _ hcurrent
  obtain ⟨hlow, hhigh⟩ := h.userPart_of_missing hcurrent hf.missing (Nat.lt_trans hf.high hlimit)
  simp only [PROC_START_ADDR, MEMSIZE_VIRTUAL] at hlow hhigh
  obtain ⟨i, hi⟩ : ∃ i, i = page48 addr := ⟨_, rfl⟩
  have hpage : roundDownPage addr = PAGESIZE * i := by
    rw [hi, roundDownPage_eq, page48]
    simp only [PAGESIZE]
    omega
  have hrange : 256 ≤ i ∧ i < 768 := by
    rw [hi, page48]
    omega
  -- the page is mapped if and only if the address is
  have hunmapped : ¬ Mapped s.mem (T s.current).l1 (PAGESIZE * i) := by
    intro hm
    apply hf.missing
    rw [State.HasPage, hroot]
    apply (Mapped.of_page48 _).1 hm
    rw [hi, page48, page48]
    simp only [PAGESIZE]
    omega
  obtain ⟨pn, s₁, hcode, halloc⟩ := h.palloc_of_free (mem_live.1 hcurrent).1 hf.free
  obtain ⟨m', hmap, hsupplied, -⟩ :=
    h.supply hcurrent hrange.1 hrange.2 hunmapped halloc fun _ _ => rfl
  rw [hi] at hsupplied
  refine ⟨_, pn, ?_, hsupplied⟩
  have hnull : PAGESIZE * pn ≠ NULL := halloc.ordinary.page_ne_null
  unfold pageFault
  rw [if_pos ⟨herr, hf.high, hf.low⟩, hcode]
  simp only
  rw [if_neg hnull, hpage, hroot]
  have hperm : PTE_W ||| PTE_P ||| PTE_U = 7 := by decide
  rw [hperm, hmap]
  rfl

theorem Isolated.pageFault_heap (h : Isolated s T) (hcurrent : s.current ∈ live s)
    (herr : reg .err &&& PFERR_PRESENT = 0) (hf : HeapFault s addr) :
    ∃ s' pn, pageFault s reg addr = .ok s' ∧
      Supplied s s' (live s) T s.current (page48 addr) pn :=
  h.accounted.pageFault_heap hcurrent
    (Nat.lt_of_lt_of_le (h.breaks _ hcurrent).limit (Nat.sub_le _ _)) herr hf

/-- Any other fault ends the process. -/
theorem Accounted.pageFault_other {A P : Finset Nat} (h : Accounted s A T P) (hcurrent : s.current < NPROC)
    (hpresent : reg .err &&& PFERR_PRESENT = 0 ↔ ¬ s.HasPage s.current addr)
    (huser : reg .err &&& PFERR_USER ≠ 0) (hf : ¬ HeapFault s addr) :
    pageFault s reg addr = killCurrent s := by
  unfold pageFault
  by_cases hheap : reg .err &&& PFERR_PRESENT = 0 ∧ addr < (s.processes s.current).programBreak ∧
      (s.processes s.current).originalBreak ≤ addr
  · -- the address is right, so there is no page left
    have hfull : ¬ ∃ q, q < 512 ∧ s.pageinfo q = ⟨PO_FREE, 0⟩ :=
      fun hfree => hf ⟨hpresent.1 hheap.1, hheap.2.2, hheap.2.1, hfree⟩
    rw [if_pos hheap, h.palloc_of_full hcurrent hfull]
    exact if_pos rfl
  · rw [if_neg hheap, if_neg huser]

/-- The process is marked broken first, which nobody sees. -/
theorem Accounted.killCurrent_eq {A P : Finset Nat} (h : Accounted s A T P) (hcurrent : s.current ∈ A) :
    killCurrent s = processFree s s.current := by
  obtain ⟨s₁, hs₁⟩ : ∃ s₁ : State, s₁ =
      s.setProc s.current { s.processes s.current with state := .broken } := ⟨_, rfl⟩
  have hself : s₁.processes s.current = { s.processes s.current with state := .broken } := by
    rw [hs₁, State.setProc_self]
  have h₁ : Accounted s₁ A T P := by
    apply h.of_eq
    · rw [hs₁, State.setProc_mem]
    · rw [hs₁, State.setProc_pageinfo]
    · intro pid _
      by_cases hpid : pid = s.current
      · rw [hpid, hself]
      · rw [hs₁, State.setProc_other s _ hpid]
  rw [killCurrent, ← hs₁, h₁.processFree_eq hcurrent, h.processFree_eq hcurrent]
  congr 1
  -- the state of the slot is overwritten
  have hslot : s₁.setProc s.current { s₁.processes s.current with state := .free } =
      s.setProc s.current { s.processes s.current with state := .free } := by
    rw [hself, hs₁]
    simp only [State.setProc, Function.update_idem]
  have hinfo : releasedInfo s₁ (T s.current) = releasedInfo s (T s.current) := by
    rw [hs₁]
    rfl
  rw [released, released, hslot, hinfo]

/-- The process that has faulted, or has asked to, is released. -/
theorem Isolated.processFree_ends (h : Isolated s T) (hcurrent : s.current ∈ live s) :
    ∃ s', processFree s s.current = .ok s' ∧ Isolated s' T ∧ CurrentEnded s s' T ∧
      s'.current = s.current ∧ s'.mem = s.mem := by
  have hroot := h.accounted.root _ hcurrent
  have hspace := h.accounted.space _ hcurrent
  have hother : ∀ pid, pid ≠ s.current →
      (released s (T s.current) s.current).processes pid = s.processes pid :=
    fun pid hpid => State.setProc_other s _ hpid
  refine ⟨_, h.accounted.processFree_eq hcurrent, h.exit hcurrent, ?_, rfl, rfl⟩
  constructor
  · show ((s.setProc s.current _).processes s.current).state = .free
    rw [State.setProc_self]
  · intro va huser hm
    show releasedInfo s (T s.current) _ = _
    rw [State.lookup, State.HasPage, hroot] at *
    -- the process had the one reference to the page
    have hpos : 0 < references s.mem (T s.current).l1 userPages
        (virtualMemoryLookup s.mem (T s.current).l1 va).pn.toNat :=
      references_pos.2 ⟨va, huser, hm, rfl⟩
    rw [h.releasedInfo_eq hcurrent, if_pos]
    rw [uses]
    omega
  · intro t ht
    show releasedInfo s (T s.current) _ = _
    have huses := hspace.uses_table ht
    rw [h.releasedInfo_eq hcurrent, if_pos]
    omega
  · intro pid _ hpid va
    rw [State.lookup, hother pid hpid]
    rfl
  · exact hother

theorem Isolated.killCurrent_ends (h : Isolated s T) (hcurrent : s.current ∈ live s) :
    ∃ s', killCurrent s = .ok s' ∧ Isolated s' T ∧ CurrentEnded s s' T ∧ s'.current = s.current ∧
      s'.mem = s.mem := by
  rw [h.accounted.killCurrent_eq hcurrent]
  exact h.processFree_ends hcurrent

/-- After the current process has ended, `exception` picks another one. -/
theorem Isolated.resume_another {s' : State} (h : Isolated s' T) (hended : CurrentEnded s s' T)
    (hcurrent : s'.current = s.current) (after : After) :
    ∃ s'' next, resume s' after = .ok (s'', next) ∧ Isolated s'' T ∧ CurrentEnded s s'' T ∧
      AnotherRuns s s'' next := by
  have hschedule : resume s' after = schedule s' := by
    rw [resume, if_neg]
    rintro ⟨-, hrunnable⟩
    rw [hcurrent, hended.ended] at hrunnable
    cases hrunnable
  rw [hschedule]
  rcases h.accounted.schedule_ok with ⟨pid, hlt, hrun, hcode⟩ | ⟨hnone, hcode⟩
  · have hne : pid ≠ s.current := by
      rintro rfl
      rw [hended.ended] at hrun
      cases hrun
    refine ⟨_, _, hcode, ?_, ?_, Or.inl ⟨pid, hlt, hne, ?_, rfl, rfl⟩⟩
    · exact h.of_processes rfl rfl (fun _ _ => Iff.rfl) (fun _ => rfl) h.breaks
    · exact ⟨hended.ended, hended.pages, hended.tables, hended.others, hended.processes⟩
    · rw [← hended.processes pid hne]
      exact hrun
  · refine ⟨_, _, hcode, h, hended, Or.inr ⟨fun pid hlt hne hrun => ?_, rfl⟩⟩
    apply hnone pid hlt
    rw [hended.processes pid hne]
    exact hrun

end Handler

/-! ## Demand paging -/

section Exact

variable {s : State} {T : Nat → Tables} {reg : Registers} {addr : Nat}

/-- What the fresh page looks like from the state before the registers were saved. -/
theorem heapPageMapped_of_supplied {s₁ s' : State} {pn : Nat} (h : Isolated s T)
    (hcurrent : s.current ∈ live s) (he : Entered s s₁ reg)
    (hs : Supplied s₁ s' (live s₁) T s₁.current (page48 addr) pn) : HeapPageMapped s s' reg addr := by
  have hcur := he.current
  have htouched := he.touched
  have h₁ := h.entered he
  have hprocesses := hs.only.processes
  -- entering the kernel and the fault itself leave every page table at its root
  have hlookup : ∀ pid ∈ live s, ∀ va,
      s'.lookup pid va = virtualMemoryLookup s'.mem (T pid).l1 va ∧
      s.lookup pid va = virtualMemoryLookup s₁.mem (T pid).l1 va := by
    intro pid hpid va
    have hroot₁ : (s₁.processes pid).pagetable = (T pid).l1 := by
      apply h₁.accounted.root
      rw [htouched.live]
      exact hpid
    rw [← htouched.lookup, State.lookup, State.lookup, hprocesses, hroot₁]
    exact ⟨rfl, rfl⟩
  have hmapped := hs.lookup
  rw [hcur] at hmapped
  constructor
  · refine ⟨pn, ?_, ?_, fun va hva => ?_⟩
    · rw [← he.pageinfo]
      exact hs.wasFree
    · rw [hs.info, Function.update_self, hcur]
    · rw [(hlookup _ hcurrent va).1, hmapped, if_pos hva]
      rfl
  · intro va hva
    rw [(hlookup _ hcurrent va).1, (hlookup _ hcurrent va).2, hmapped, if_neg hva]
  · intro pid hpid hne va
    rw [(hlookup pid hpid va).1, (hlookup pid hpid va).2]
    apply hs.others pid
    · rw [htouched.live]
      exact hpid
    · rw [hcur]
      exact hne
  · rw [hprocesses]
    exact he.processes
  · exact hs.only.current.trans hcur

/-- A user page fault at a heap address without a page maps a fresh page and the process goes on; any
other one ends the process, and another one runs. Either way the page accounting stays right. -/
theorem page_fault_exact (h : Isolated s T) (hf : UserFault s reg addr) :
    (HeapFault s addr → ∃ s', exception s reg addr = .ok (s', some s.current) ∧
      HeapPageMapped s s' reg addr ∧ Isolated s' T) ∧
    (¬ HeapFault s addr → ∃ s' next, exception s reg addr = .ok (s', next) ∧
      CurrentEnded s s' T ∧ AnotherRuns s s' next ∧ Isolated s' T) := by
  have hcurrent := mem_live_of_runnable hf.current hf.running
  obtain ⟨s₁, he, hcode⟩ := h.accounted.exception_enters h.ownersLive reg addr
  have h₁ := h.entered he
  have htouched := he.touched
  have hcur := he.current
  have hcurrent₁ : s₁.current ∈ live s₁ := by
    rw [hcur, htouched.live]
    exact hcurrent
  rw [hcode, dispatch_pageFault hf.intno]
  constructor
  · intro hheap
    -- the page is supplied, and the process is resumed
    obtain ⟨s', pn, hfault, hs⟩ :=
      h₁.pageFault_heap hcurrent₁ (hf.present.2 hheap.missing) ((HeapFault.entered he).2 hheap)
    have hmapped := heapPageMapped_of_supplied h hcurrent he hs
    have hiso := h₁.supplied hcurrent₁ hs
    have hrunning : (s'.processes s'.current).state = .runnable := by
      rw [hmapped.current, hmapped.processes, Function.update_self]
      exact hf.running
    have hlt : s'.current < NPROC := by
      rw [hmapped.current]
      exact hf.current
    have hrun := hiso.accounted.run_ok hlt hrunning
    refine ⟨s', ?_, hmapped, hiso⟩
    rw [hfault]
    simp only [bind, Except.bind]
    rw [resume, if_pos ⟨rfl, hrunning⟩, hrun, hmapped.current]
    congr 2
    rw [← hmapped.current]
  · intro hother
    -- the process is killed, and another one runs if there is one
    have hkill : pageFault s₁ reg addr = killCurrent s₁ := by
      apply h₁.accounted.pageFault_other (mem_live.1 hcurrent₁).1 _ hf.user fun hheap =>
        hother ((HeapFault.entered he).1 hheap)
      rw [hcur, htouched.hasPage]
      exact hf.present
    obtain ⟨s₂, hkilled, hiso, hended, hcur₂, -⟩ := h₁.killCurrent_ends hcurrent₁
    obtain ⟨s', next, hresume, hiso', hended', hnext⟩ :=
      hiso.resume_another (hended.of_touched htouched) (hcur₂.trans hcur) .back
    refine ⟨s', next, ?_, hended', hnext, hiso'⟩
    rw [hkill, hkilled]
    exact hresume

end Exact

/-- The pages in use by a single process that maps none are those of its page table, and its own. -/
theorem Accounted.owner_of_empty {s : State} {T : Nat → Tables} {pid q : Nat} (h : Accounted s {pid} T ∅)
    (hempty : ∀ va, UserPart va → ¬ Mapped s.mem (T pid).l1 va) (hq : Ordinary q)
    (hcount : (s.pageinfo q).refcount ≠ 0) :
    (s.pageinfo q).owner = pid := by
  have hcounted := h.counted q hq
  have hrefs : refs s.mem {pid} T ∅ q = uses s.mem (T pid) q := by
    apply count_of_alone (u := fun pid => uses s.mem (T pid)) (Finset.mem_singleton_self pid)
    · exact fun j hj hne => absurd (Finset.mem_singleton.1 hj) hne
    · exact Finset.notMem_empty q
  have hunused : references s.mem (T pid).l1 userPages q = 0 :=
    references_eq_zero.2 fun va hva hm => absurd hm (hempty va hva)
  have htable : PAGESIZE * q ∈ (T pid).pages := by
    by_contra hnot
    rw [uses, hunused, if_neg hnot] at hrefs
    apply hcount
    rw [hcounted]
    exact congrArg Nat.cast hrefs
  have howner := h.tables pid (Finset.mem_singleton_self pid) _ htable
  rw [Nat.mul_div_cancel_left q (by decide : 0 < PAGESIZE)] at howner
  rw [howner]

/-- A first process, with an empty address space and a heap of one page. -/
theorem exists_isolated : ∃ s T, Isolated s T ∧ s.current = 1 ∧ (s.processes 1).state = .runnable ∧
    HeapFault s 0x101000 := by
  obtain ⟨s₀, T, hacc₀, hempty, hfree, honly⟩ := exists_firstProcess fun _ => 0
  obtain ⟨s, hs⟩ : ∃ s : State, s = { s₀.setProc 1
      ⟨0x102000, 0x101000, fun _ => 0, .runnable, (T 1).l1, false⟩ with current := 1 } := ⟨_, rfl⟩
  have hmem : s.mem = s₀.mem := by rw [hs]; rfl
  have hinfo : s.pageinfo = s₀.pageinfo := by rw [hs]; rfl
  have hcurrent : s.current = 1 := by rw [hs]
  have hself : s.processes 1 = ⟨0x102000, 0x101000, fun _ => 0, .runnable, (T 1).l1, false⟩ := by
    rw [hs]
    exact s₀.setProc_self 1 _
  have hslots : ∀ pid, pid ≠ 1 → (s.processes pid).state = .free := by
    intro pid hne
    rw [hs]
    show ((s₀.setProc 1 _).processes pid).state = .free
    rw [State.setProc_other s₀ _ hne, honly.processes, State.setProc_other _ _ hne]
    rfl
  have hlive : live s = {1} := by
    ext pid
    rw [mem_live, Finset.mem_singleton]
    constructor
    · rintro ⟨-, hactive⟩
      by_contra hne
      exact hactive (hslots pid hne)
    · rintro rfl
      rw [hself]
      exact ⟨by decide, fun hfree => by cases hfree⟩
  have hacc : Accounted s {1} T ∅ := by
    apply hacc₀.of_eq hmem hinfo
    intro pid hpid
    rw [Finset.mem_singleton.1 hpid, hself, hacc₀.root 1 (Finset.mem_singleton_self 1)]
  -- the page table takes the pages 1 to 5
  have hfirst : Ordinary 6 := ordinary_of_lt (by decide) (by decide)
  refine ⟨s, T, ⟨?_, ?_, ?_⟩, hcurrent, ?_, ⟨?_, ?_, ?_, 6, by decide, ?_⟩⟩
  · rw [hlive]
    exact hacc
  · intro q hq hcount
    rw [hlive]
    exact ⟨1, Finset.mem_singleton_self 1, hacc.owner_of_empty (hmem ▸ hempty) hq hcount,
      fun k hk hne => absurd (Finset.mem_singleton.1 hk) hne⟩
  · intro pid hpid
    rw [hlive, Finset.mem_singleton] at hpid
    rw [hpid, hself]
    constructor
    · show PROC_START_ADDR ≤ 0x101000
      decide
    · show 0x101000 ≤ 0x102000
      decide
    · show 0x102000 < MEMSIZE_VIRTUAL - PAGESIZE
      decide
  · rw [hself]
  · rw [hcurrent, State.HasPage, hself, hmem]
    exact hempty 0x101000 ⟨by decide, by decide⟩
  · rw [hcurrent, hself]
  · rw [hcurrent, hself]
    show 0x101000 < 0x102000
    decide
  · rw [hinfo]
    exact hfree 6 (Nat.le_refl 6) hfirst

/-- The first process touches its heap. -/
theorem page_fault_exact_heap : ∃ s s' T reg addr, Isolated s T ∧ UserFault s reg addr ∧
    HeapFault s addr ∧ exception s reg addr = .ok (s', some s.current) ∧
    HeapPageMapped s s' reg addr ∧ Isolated s' T := by
  obtain ⟨s, T, hiso, hcurrent, hrunning, hheap⟩ := exists_isolated
  obtain ⟨reg, hreg⟩ : ∃ reg : Registers,
      reg = fun r => if r = .intno then INT_PAGEFAULT else if r = .err then PFERR_USER else 0 := ⟨_, rfl⟩
  have herr : reg .err = PFERR_USER := by
    rw [hreg]
    rfl
  have hfault : UserFault s reg 0x101000 := by
    constructor
    · rw [hcurrent]
      decide
    · rw [hcurrent]
      exact hrunning
    · rw [hreg]
      rfl
    · rw [herr]
      decide
    · rw [herr]
      exact ⟨fun _ => hheap.missing, fun _ => rfl⟩
  obtain ⟨s', hcode, hmapped, hiso'⟩ := (page_fault_exact hiso hfault).1 hheap
  exact ⟨s, s', T, reg, 0x101000, hiso, hfault, hheap, hcode, hmapped, hiso'⟩

end MemoryManagement.Kernel
