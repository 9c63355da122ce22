import MemoryManagement.Kernel.BreakSafety

/-!
# System calls of a family of processes

All system calls but `panic`, in the states that a family of processes reaches. A call that `exception` has
a case for comes back to user mode, or to the scheduler, in every run whose traps are contained:
no break below the user part, no orphaned page, no page requested where it would get lost, and no mapping
copied out of its page. A number without a case ends in a panic (`system_calls_return`).
-/

set_option autoImplicit false

namespace MemoryManagement.Kernel

open MemoryManagement.Library.ByteMemory
open MemoryManagement.Library.RefCount

/-! ## The calls -/

/-- A page is requested where it does not get lost: the request is refused, or the address is one of the
user part, aligned and not mapped yet. -/
def PageRequest (s : State) (addr : Nat) : Prop :=
  addr < PROC_START_ADDR ∨ findFreePage s.pageinfo = none ∨
    addr % PAGESIZE = 0 ∧ UserPart addr ∧ ¬ s.HasPage s.current addr

section Calls

variable {s s' : State} {T : Nat → Tables} {reg : Registers} {addr : Nat}

theorem dispatch_mapping (hintno : reg .intno = INT_SYS_MAPPING) :
    dispatch s reg addr = (do
      let p := s.processes s.current
      let mem ← syscallMapping s.mem p.pagetable (p.registers .rdi) (p.registers .rsi)
      .ok ({ s with mem := mem }, .back)) := by
  unfold dispatch
  simp only [hintno]
  rfl

theorem dispatch_memTog (hintno : reg .intno = INT_SYS_MEM_TOG) :
    dispatch s reg addr = .ok (syscallMemTog s s.current, .back) := by
  unfold dispatch
  simp only [hintno]
  rfl

/-- `sys_page_alloc` of a page that does not get lost. -/
theorem Family.processPageAlloc_kept (h : Family s T) (hpid : s.current ∈ live s)
    (hrequest : PageRequest s addr) :
    ∃ s' r, processPageAlloc s s.current addr = .ok (s', r) ∧ Family s' T ∧
      (OwnersLive s → OwnersLive s') ∧ s'.current = s.current := by
  rw [processPageAlloc]
  by_cases hlow : addr < PROC_START_ADDR
  · rw [if_pos hlow]
    exact ⟨s, -1, rfl, h, id, rfl⟩
  · rw [if_neg hlow]
    rcases h.accounted.palloc (mem_live.1 hpid).1 with ⟨-, hcode⟩ | ⟨pn, s₁, hfind, hcode, halloc⟩
    · rw [hcode]
      exact ⟨s, -1, rfl, h, id, rfl⟩
    · -- the address has been let in and a page is there, so only the last case of a request is left
      obtain ⟨halign, huser, hmissing⟩ : addr % PAGESIZE = 0 ∧ UserPart addr ∧ ¬ s.HasPage s.current addr := by
        rcases hrequest with hrefused | hnone | hfits
        · exact absurd hrefused hlow
        · rw [hfind] at hnone
          cases hnone
        · exact hfits
      have hroot := h.accounted.root _ hpid
      obtain ⟨i, hi⟩ : ∃ i, i = addr / 4096 := ⟨_, rfl⟩
      have haddr : addr = PAGESIZE * i := by
        simp only [PAGESIZE] at halign ⊢
        omega
      have hrange : 256 ≤ i ∧ i < 768 := by
        simp only [UserPart, PROC_START_ADDR, MEMSIZE_VIRTUAL] at huser
        omega
      rw [State.HasPage, hroot, haddr] at hmissing
      obtain ⟨m', hmap, hsupplied, -⟩ :=
        h.accounted.supply hpid hrange.1 hrange.2 hmissing halloc fun _ _ => rfl
      obtain ⟨hfamily, howners⟩ := h.supplied hsupplied hpid
      have hnull : PAGESIZE * pn ≠ NULL := halloc.ordinary.page_ne_null
      have hroot₁ : (s₁.processes s.current).pagetable = (T s.current).l1 := by
        rw [halloc.only.processes]
        exact hroot
      have hperm : PTE_P ||| PTE_W ||| PTE_U = 7 := by decide
      refine ⟨_, 0, ?_, hfamily, howners, hsupplied.only.current⟩
      rw [hcode]
      simp only
      rw [if_neg hnull, hroot₁, hperm, haddr, hmap]
      rfl

/-- `sys_mapping` that keeps to its contract. -/
theorem Family.syscallMapping_kept {ptr : Nat} (h : Family s T) (hpid : s.current ∈ live s)
    (hptr : ptr < 2 ^ 64) (hfits : MappingFits s.mem (s.processes s.current).pagetable ptr addr) :
    ∃ m', syscallMapping s.mem (s.processes s.current).pagetable ptr addr = .ok m' ∧
      Family { s with mem := m' } T := by
  have hroot := h.accounted.root _ hpid
  rw [hroot] at hfits ⊢
  obtain ⟨m', hcode, -, hchanges⟩ := (h.accounted.tableOk hpid).mappingSafe_of_fits hptr hfits
  exact ⟨m', hcode, h.userChanges hpid hchanges⟩

/-- `sys_mem_tog` changes what is shown only. -/
theorem Alike.syscallMemTog (s : State) (pid : Nat) : Alike s (syscallMemTog s pid) := by
  rw [Kernel.syscallMemTog]
  split
  · exact Alike.of_processes rfl rfl rfl
  · split
    · exact Alike.of_processes rfl rfl rfl
    · exact Alike.setProc s Iff.rfl rfl rfl

end Calls

/-! ## Traps -/

/-- The numbers that `exception` has a case for. -/
def HasCase (intno : Nat) : Prop :=
  intno ∈ [INT_SYS_PANIC, INT_SYS_GETPID, INT_SYS_YIELD, INT_SYS_PAGE_ALLOC, INT_SYS_FORK, INT_SYS_EXIT,
    INT_SYS_MAPPING, INT_SYS_MEM_TOG, INT_SYS_BRK, INT_SYS_SBRK, INT_TIMER, INT_PAGEFAULT]

instance (intno : Nat) : Decidable (HasCase intno) := inferInstanceAs (Decidable (_ ∈ _))

/-- A software interrupt of a gate that is open to user programs, other than `panic`. -/
structure SoftwareInterrupt (s : State) (reg : Registers) : Prop where
  current : s.current < NPROC
  running : (s.processes s.current).state = .runnable
  words : ∀ r, reg r < 2 ^ 64
  low : INT_SYS ≤ reg .intno
  high : reg .intno < INT_SYS + 16
  other : reg .intno ≠ INT_SYS_PANIC

/-- What takes a user program into the kernel: a software interrupt, the timer or a fault of its own. -/
def UserTrap (s : State) (reg : Registers) (addr : Nat) : Prop :=
  SoftwareInterrupt s reg ∨ FamilyTrap s reg addr

/-- The trap moves no break below the user part, orphans and loses no page, and copies no mapping out of its
page. -/
structure Contained (s : State) (reg : Registers) (addr : Nat) : Prop where
  high : KeepsHigh s reg
  leaving : Leaving s reg addr → NoneShared s
  page : reg .intno = INT_SYS_PAGE_ALLOC → PageRequest s (reg .rdi)
  mapping : reg .intno = INT_SYS_MAPPING →
    MappingFits s.mem (s.processes s.current).pagetable (reg .rdi) (reg .rsi)

section Traps

variable {s s₁ s' : State} {T : Nat → Tables} {reg : Registers} {addr : Nat}

theorem PageRequest.entered {a : Nat} (h : PageRequest s a) (he : Entered s s₁ reg) : PageRequest s₁ a := by
  rw [PageRequest, he.pageinfo, he.current, he.touched.hasPage]
  exact h

/-- A software interrupt that `exception` has a case for is one of the family's, or one of three more. -/
theorem SoftwareInterrupt.cases (h : SoftwareInterrupt s reg) (hcase : HasCase (reg .intno)) :
    FamilyTrap s reg addr ∨ reg .intno = INT_SYS_PAGE_ALLOC ∨ reg .intno = INT_SYS_MAPPING ∨
      reg .intno = INT_SYS_MEM_TOG := by
  have hfamily : ∀ n, reg .intno = n → n ∈ [INT_SYS_FORK, INT_SYS_BRK, INT_SYS_SBRK, INT_SYS_EXIT,
      INT_SYS_YIELD, INT_SYS_GETPID, INT_TIMER] → FamilyTrap s reg addr := by
    rintro n rfl hmem
    exact ⟨h.current, h.running, h.words, Or.inl hmem⟩
  simp only [HasCase, List.mem_cons, List.not_mem_nil, or_false] at hcase
  rcases hcase with hpanic | hintno | hintno | hintno | hintno | hintno | hintno | hintno | hintno | hintno |
    htimer | hfault
  · exact absurd hpanic h.other
  · exact Or.inl (hfamily _ hintno (by decide))
  · exact Or.inl (hfamily _ hintno (by decide))
  · exact Or.inr (Or.inl hintno)
  · exact Or.inl (hfamily _ hintno (by decide))
  · exact Or.inl (hfamily _ hintno (by decide))
  · exact Or.inr (Or.inr (Or.inl hintno))
  · exact Or.inr (Or.inr (Or.inr hintno))
  · exact Or.inl (hfamily _ hintno (by decide))
  · exact Or.inl (hfamily _ hintno (by decide))
  · exact Or.inl (hfamily _ htimer (by decide))
  · have hlow := h.low
    rw [hfault] at hlow
    exact absurd hlow (by decide)

/-- The case of the switch for a contained software interrupt. -/
theorem SoftwareInterrupt.dispatch_follows (h : SoftwareInterrupt s reg) (hcase : HasCase (reg .intno))
    (hfamily : Family s T) (hcontained : Contained s reg addr) (he : Entered s s₁ reg) :
    ∃ s₂ after, dispatch s₁ reg addr = .ok (s₂, after) ∧
      Follows s₁ s₂ (Leaving s reg addr ∧ ¬ NoneShared s) ∧ s₂.current = s₁.current := by
  have hfamily₁ := (Alike.of_entered he).family hfamily
  have hlive : s₁.current ∈ live s₁ := by
    rw [he.current, (Alike.of_entered he).live]
    exact mem_live_of_runnable h.current h.running
  have hsaved : (s₁.processes s₁.current).registers = reg := by
    rw [he.current, he.process_self]
  have hroot : (s₁.processes s₁.current).pagetable = (s.processes s.current).pagetable := by
    rw [he.current, he.process_self]
  -- only an exit or a fault makes a process leave
  have hstays : ∀ n, reg .intno = n → n ≠ INT_SYS_EXIT → n ≠ INT_PAGEFAULT →
      ¬ (Leaving s reg addr ∧ ¬ NoneShared s) := by
    rintro n rfl hexit hfault ⟨hleaving, -⟩
    exact not_leaving hexit hfault hleaving
  -- a trap of a family, `sys_page_alloc`, `sys_mapping` or `sys_mem_tog`
  rcases h.cases hcase with htrap | hintno | hintno | hintno
  · exact htrap.dispatch_follows hfamily hcontained.high he
  · have hrequest := (hcontained.page hintno).entered he
    obtain ⟨s₂, r, hcode, hfamily₂, howners, hcurrent⟩ := hfamily₁.processPageAlloc_kept hlive hrequest
    refine ⟨s₂, .back, ?_, Follows.of_kept hfamily₂ howners (hstays _ hintno (by decide) (by decide)), hcurrent⟩
    rw [dispatch_pageAlloc hintno, hcode]
    rfl
  · have hfits := hcontained.mapping hintno
    rw [← he.mem, ← hroot] at hfits
    obtain ⟨m', hcode, hfamily₂⟩ := hfamily₁.syscallMapping_kept hlive (h.words .rdi) hfits
    refine ⟨{ s₁ with mem := m' }, .back, ?_,
      Follows.of_kept hfamily₂ (fun howners => howners) (hstays _ hintno (by decide) (by decide)), rfl⟩
    rw [dispatch_mapping hintno]
    simp only [hsaved]
    rw [hcode]
    rfl
  · have hsame := Alike.syscallMemTog s₁ s₁.current
    refine ⟨syscallMemTog s₁ s₁.current, .back, dispatch_memTog hintno, ?_, ?_⟩
    · exact Follows.of_kept (hsame.family hfamily₁) hsame.ownersLive.2 (hstays _ hintno (by decide) (by decide))
    · rw [syscallMemTog]
      split
      · rfl
      · split
        · rfl
        · rfl

/-- With the owners right, a contained trap is handled. -/
theorem UserTrap.exception_follows (h : UserTrap s reg addr) (hcase : HasCase (reg .intno))
    (hfamily : Family s T) (howners : OwnersLive s) (hcontained : Contained s reg addr) :
    ∃ s' next, exception s reg addr = .ok (s', next) ∧
      Follows s s' (Leaving s reg addr ∧ ¬ NoneShared s) := by
  rcases h with hcall | htrap
  · exact hfamily.exception_follows howners hcall.current
      fun _ he => hcall.dispatch_follows hcase hfamily hcontained he
  · exact hfamily.exception_follows howners htrap.current
      fun _ he => htrap.dispatch_follows hfamily hcontained.high he

/-- The default case. -/
theorem dispatch_default (hcase : ¬ HasCase (reg .intno)) : dispatch s reg addr = .error .panic := by
  simp only [HasCase, List.mem_cons, List.not_mem_nil, or_false, not_or] at hcase
  obtain ⟨hpanic, hgetpid, hyield, hpage, hfork, hexit, hmapping, htog, hbrk, hsbrk, htimer, hfault⟩ := hcase
  rw [dispatch, if_neg hpanic, if_neg hgetpid, if_neg hfork, if_neg hmapping, if_neg hexit, if_neg hyield,
    if_neg hbrk, if_neg hsbrk, if_neg hpage, if_neg htog, if_neg htimer, if_neg hfault]

theorem hasCase_of_ok {next : Option Nat} (hcode : exception s reg addr = .ok (s', next)) :
    HasCase (reg .intno) := by
  by_contra hcase
  obtain ⟨s₁, s₂, after, -, hdispatch, -⟩ := exception_eq_ok hcode
  rw [dispatch_default hcase] at hdispatch
  cases hdispatch

end Traps

/-! ## Runs -/

/-- One step of the machine: user code changes bytes that it may write, or there is a contained trap. -/
inductive SystemStep (s : State) : State → Prop where
  | changes {m : Mem} (h : CurrentChanges s m) : SystemStep s { s with mem := m }
  | trap {reg : Registers} {addr : Nat} {s' : State} {next : Option Nat} (h : UserTrap s reg addr)
      (hcontained : Contained s reg addr) (hcode : exception s reg addr = .ok (s', next)) : SystemStep s s'

section Runs

variable {s s' : State} {T : Nat → Tables}

theorem Family.system_step (h : Family s T) (howners : OwnersLive s) (hstep : SystemStep s s') :
    (∃ T', Family s' T') ∧ OwnersLive s' := by
  cases hstep with
  | changes hchanges => exact ⟨⟨T, h.currentChanges hchanges⟩, howners⟩
  | trap htrap hcontained hcode =>
      obtain ⟨s₁, next₁, hcode₁, hfollows⟩ :=
        htrap.exception_follows (hasCase_of_ok hcode) h howners hcontained
      rw [hcode₁] at hcode
      obtain ⟨rfl, -⟩ := ok_pair.1 hcode
      refine ⟨hfollows.family, hfollows.owners howners ?_⟩
      rintro ⟨hleaving, hshared⟩
      exact hshared (hcontained.leaving hleaving)

theorem Family.system_run (h : Family s T) (howners : OwnersLive s)
    (hrun : Relation.ReflTransGen SystemStep s s') : (∃ T', Family s' T') ∧ OwnersLive s' := by
  induction hrun with
  | refl => exact ⟨⟨T, h⟩, howners⟩
  | tail _ hstep ih =>
      obtain ⟨⟨T₁, h₁⟩, howners₁⟩ := ih
      exact h₁.system_step howners₁ hstep

end Runs

/-- In every state of a contained run, a software interrupt without a case ends in a panic. Any other but
`panic` comes back to user mode or to the scheduler, if it is contained. -/
theorem system_calls_return {bytes : Nat → Nat → UInt8} {m : Mem} {command : Option String}
    {next : Option Nat} {s s' : State} (hboot : kernel bytes m command = .ok (s, next))
    (hrun : Relation.ReflTransGen SystemStep s s') {reg : Registers} (h : SoftwareInterrupt s' reg)
    (addr : Nat) :
    (¬ HasCase (reg .intno) → exception s' reg addr = .error .panic) ∧
    (HasCase (reg .intno) → Contained s' reg addr →
      ∃ s'' next', exception s' reg addr = .ok (s'', next')) := by
  obtain ⟨T, hbooted⟩ := booted_of_kernel hboot
  obtain ⟨⟨T', hfamily⟩, howners⟩ := hbooted.family.system_run hbooted.isolated.ownersLive hrun
  constructor
  · intro hcase
    obtain ⟨s₁, -, hcode⟩ := hfamily.accounted.exception_enters howners reg addr
    rw [hcode, dispatch_default hcase]
    rfl
  · intro hcase hcontained
    obtain ⟨s'', next', hcode, -⟩ := UserTrap.exception_follows (Or.inl h) hcase hfamily howners hcontained
    exact ⟨s'', next', hcode⟩

theorem softwareInterrupt_of_current {s : State} {intno : Nat} (hcurrent : s.current = 1)
    (hrunning : (s.processes 1).state = .runnable) (hlow : INT_SYS < intno) (hhigh : intno < INT_SYS + 16) :
    SoftwareInterrupt s (callRegisters intno) := by
  refine ⟨?_, ?_, callRegisters_lt (Nat.lt_trans hhigh (by decide)), Nat.le_of_lt hlow, hhigh,
    Nat.ne_of_gt hlow⟩
  · rw [hcurrent]
    decide
  · rw [hcurrent]
    exact hrunning

/-- The first process asks for its number. -/
theorem system_calls_return_getpid : ∃ s, kernel (fun _ _ => 0) (fun _ => 0) none = .ok (s, some 1) ∧
    ∃ s'' next', exception s (callRegisters INT_SYS_GETPID) 0 = .ok (s'', next') := by
  obtain ⟨s, T, hkernel, hfresh, -, -⟩ := kernel_one
  have hcall : SoftwareInterrupt s (callRegisters INT_SYS_GETPID) := softwareInterrupt_of_current
    hfresh.booted.current (hfresh.booted.runnable 1 hfresh.booted.first) (by decide) (by decide)
  refine ⟨s, hkernel, (system_calls_return hkernel Relation.ReflTransGen.refl hcall 0).2 (by decide) ?_⟩
  constructor
  · exact KeepsHigh.of_other (by decide) (by decide)
  · exact fun hleaving => absurd hleaving (not_leaving (by decide) (by decide))
  · exact fun hintno => absurd hintno (by decide)
  · exact fun hintno => absurd hintno (by decide)

/-- The first process raises the interrupt after `INT_SYS_MAPPING`, which nothing handles. -/
theorem unused_interrupt_panics : ∃ s, kernel (fun _ _ => 0) (fun _ => 0) none = .ok (s, some 1) ∧
    SoftwareInterrupt s (callRegisters (INT_SYS + 7)) ∧
    exception s (callRegisters (INT_SYS + 7)) 0 = .error .panic := by
  obtain ⟨s, T, hkernel, hfresh, -, -⟩ := kernel_one
  have hiso := hfresh.booted.isolated
  obtain ⟨s₁, -, hcode⟩ := hiso.accounted.exception_enters hiso.ownersLive (callRegisters (INT_SYS + 7)) 0
  refine ⟨s, hkernel, ?_, ?_⟩
  · exact softwareInterrupt_of_current hfresh.booted.current
      (hfresh.booted.runnable 1 hfresh.booted.first) (by decide) (by decide)
  · rw [hcode, dispatch_default (by decide)]
    rfl

end MemoryManagement.Kernel
