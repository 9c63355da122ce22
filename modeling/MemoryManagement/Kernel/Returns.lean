import MemoryManagement.Kernel.Frames
import MemoryManagement.Kernel.Interleaving
import MemoryManagement.Kernel.SegmentContents

/-!
# Results of system calls

The calls that return a value come back to their caller at once, with the value in `rax` and every other
register as it was. `sys_page_alloc` is the exception: its result is dropped, and `rax` keeps what it held
(`results_delivered_iff`).
-/

set_option autoImplicit false

namespace MemoryManagement.Kernel

open MemoryManagement.Library.ByteMemory

/-! ## Documented results -/

/-- The process gets a page at the address: the address is none of the kernel's, the page table reaches it,
and a page is free. -/
def PageServed (s : State) (addr : Nat) : Prop :=
  PROC_START_ADDR ≤ addr ∧ page48 addr < 1024 ∧ findFreePage s.pageinfo ≠ none

instance (s : State) (addr : Nat) : Decidable (PageServed s addr) := inferInstanceAs (Decidable (_ ∧ _ ∧ _))

/-- `sys_page_alloc(addr)`: 0 if a fresh page is mapped there now, for the user to write, and -1
otherwise. -/
structure PageAllocAnswer (s s' : State) (addr : Nat) (d : Int) : Prop where
  value : d = if PageServed s addr then 0 else -1
  mapped : PageServed s addr → ∃ pn, s.pageinfo pn = ⟨PO_FREE, 0⟩ ∧
    s'.lookup s.current addr = ⟨(pn : Nat), PAGESIZE * pn, PTE_P ||| PTE_W ||| PTE_U⟩

/-- `fork()`: the child's process number, or -1 if there is no child. -/
def ForkAnswer (s s' : State) (d : Int) : Prop :=
  (∃ child : Nat, d = child ∧ (s.processes child).state = .free ∧ (s'.processes child).state = .runnable) ∨
  d = -1 ∧ ∀ j, (s'.processes j).state = (s.processes j).state

/-- `brk(address)`: 0 if the break is moved, and -1 otherwise. -/
structure BrkAnswer (s s' : State) (address : Nat) (d : Int) : Prop where
  value : d = if BreakAccepted (s.processes s.current) (breakDistance (s.processes s.current) address) then 0
    else -1
  moved : BreakAccepted (s.processes s.current) (breakDistance (s.processes s.current) address) →
    (s'.processes s.current).programBreak = address

/-- `sbrk(difference)`: the break before the call if the break is moved, and -1 otherwise. -/
structure SbrkAnswer (s s' : State) (difference : Nat) (d : Int) : Prop where
  value : d = if BreakAccepted (s.processes s.current) difference then
    ((s.processes s.current).programBreak : Int) else -1
  moved : BreakAccepted (s.processes s.current) difference →
    (s'.processes s.current).programBreak = newBreak (s.processes s.current) difference

/-- The documented result of a call that returns a value. -/
inductive Documented (s s' : State) (reg : Registers) (d : Int) : Prop where
  | getpid (hintno : reg .intno = INT_SYS_GETPID) (h : d = s.current)
  | fork (hintno : reg .intno = INT_SYS_FORK) (h : ForkAnswer s s' d)
  | pageAlloc (hintno : reg .intno = INT_SYS_PAGE_ALLOC) (h : PageAllocAnswer s s' (reg .rdi) d)
  | brk (hintno : reg .intno = INT_SYS_BRK) (h : BrkAnswer s s' (reg .rdi) d)
  | sbrk (hintno : reg .intno = INT_SYS_SBRK) (h : SbrkAnswer s s' (reg .rdi) d)

/-- The caller has its result, and no other register has changed. -/
structure Delivered (s s' : State) (reg : Registers) : Prop where
  rax : ∃ d, Documented s s' reg d ∧ (s'.processes s.current).registers .rax = signExtend d
  kept : ∀ r, r ≠ .rax → (s'.processes s.current).registers r = reg r

/-! ## Allocating a page -/

section PageAlloc

variable {s s' : State} {pid : Nat} {U : Tables}

theorem LoadSpace.of_eq (h : LoadSpace s pid U) (hmem : s'.mem = s.mem) (hinfo : s'.pageinfo = s.pageinfo)
    (hroot : (s'.processes pid).pagetable = (s.processes pid).pagetable) : LoadSpace s' pid U := by
  constructor
  · exact h.pid_pos
  · exact h.pid_lt
  · rw [hroot]
    exact h.root
  · exact h.tables
  · rw [hmem]
    exact h.linked
  · rw [hinfo]
    exact h.taken
  · rw [hinfo]
    exact h.owned
  · rw [hmem, hinfo]
    exact h.frames
  · rw [hmem]
    exact h.once

/-- For a page with a last-level table, which is below 4 MB, the loop has that table at hand. -/
theorem Linked.tableAtHand_ne {m : Mem} (h : Linked m U) (hU : U.Ok) (va : Nat) :
    tableAtHand m U.l1 va va ≠ NULL ↔ page48 va < 1024 := by
  have hindex : page48 va < 1024 → toInt32 (va >>> 21) ≠ -1 := by
    -- the index is -1 only if its low 27 bits are all set
    intro hlow hmark
    have hones : toInt32 (2 ^ 32 - 1) = -1 := by decide
    have hmod := mod_eq_of_toInt32_eq (hmark.trans hones.symm)
    rw [Nat.shiftRight_eq_div_pow] at hmod
    rw [page48] at hlow
    omega
  rw [tableAtHand, h.tableAt_indices hU]
  constructor
  · intro hhand
    by_contra hhigh
    have hnone : U.leafTable (page48 va) = none := by
      rw [Tables.leafTable, if_neg (by omega), if_neg hhigh]
    rw [hnone] at hhand
    split at hhand
    · exact hhand rfl
    · exact hhand rfl
  · intro hlow
    obtain ⟨t, ht⟩ := Tables.leafTable_of_lt (T := U) hlow
    rw [if_neg fun e => hindex hlow e.1, ht]
    exact hU.nonnull t (Tables.leafTable_pages ht)

/-- `process_page_alloc` that has returned. -/
theorem LoadSpace.processPageAlloc_answer (h : LoadSpace s pid U) {addr : Nat} {d : Int}
    (haddr : addr < 2 ^ 64) (hcode : processPageAlloc s pid addr = .ok (s', d)) :
    (d = if PageServed s addr then 0 else -1) ∧
    (PageServed s addr → ∃ pn, s.pageinfo pn = ⟨PO_FREE, 0⟩ ∧
      s'.lookup pid addr = ⟨(pn : Nat), PAGESIZE * pn, 7⟩) := by
  rw [processPageAlloc] at hcode
  by_cases hlow : addr < PROC_START_ADDR
  · rw [if_pos hlow] at hcode
    have hrefused : ¬ PageServed s addr := fun hserved => absurd hserved.1 (Nat.not_le.2 hlow)
    rw [if_neg hrefused]
    exact ⟨(ok_pair.1 hcode).2.symm, fun hserved => absurd hserved hrefused⟩
  · rw [if_neg hlow] at hcode
    rcases palloc_cases h.pid_lt h.owned with ⟨hnone, hpalloc⟩ | ⟨pn, s₁, hfind, hpalloc, halloc⟩
    · have hrefused : ¬ PageServed s addr := fun hserved => hserved.2.2 hnone
      rw [hpalloc] at hcode
      rw [if_neg hrefused]
      exact ⟨(ok_pair.1 hcode).2.symm, fun hserved => absurd hserved hrefused⟩
    · have hpos := halloc.ordinary.pos
      have hlt := halloc.ordinary.lt
      have hnull : PAGESIZE * pn ≠ NULL := halloc.ordinary.page_ne_null
      have hroot : (s₁.processes pid).pagetable = U.l1 := by
        rw [halloc.only.processes]
        exact h.root
      have hperm : PTE_P ||| PTE_W ||| PTE_U = 7 := by decide
      have htable := (h.table_allocated halloc).2
      have hlinked : Linked s₁.mem U := h.linked.congr fun t ht => htable t (U.upper_subset t ht)
      rw [hpalloc] at hcode
      simp only [if_neg hnull, hroot, hperm] at hcode
      obtain ⟨⟨m', r⟩, hmap, hcode⟩ := bind_eq_ok.1 hcode
      obtain ⟨rfl, rfl⟩ := ok_pair.1 hcode
      have hpa : PAGESIZE * pn < 2 ^ 64 := by
        simp only [PAGESIZE]
        omega
      obtain ⟨haligned, -, -, k, heffect⟩ := virtualMemoryMap_effect haddr hpa (by decide)
        (hlinked.walkOk h.tables).tree hmap
      have hle := heffect.le
      have hresult := heffect.result
      simp only [PAGESIZE, Nat.div_self (by decide : 0 < 4096)] at hle hresult
      -- the one page is mapped if and only if the page table reaches the address
      have hserved : PageServed s addr ↔ k = 1 := by
        constructor
        · intro hserved
          have hhand := (hlinked.tableAtHand_ne h.tables addr).2 hserved.2.1
          by_contra hk
          have hzero : k = 0 := by omega
          subst hzero
          exact hhand (heffect.stop (by decide)).2
        · rintro rfl
          have hhand := heffect.table (by decide) 0 (by decide)
          rw [Nat.mul_zero, Nat.add_zero, hlinked.tableAtHand_ne h.tables] at hhand
          refine ⟨Nat.not_lt.1 hlow, hhand, ?_⟩
          rw [hfind]
          exact Option.some_ne_none pn
      constructor
      · rw [hresult]
        exact if_congr hserved.symm rfl rfl
      · intro hs
        obtain rfl := hserved.1 hs
        obtain rfl : r = 0 := hresult
        have hmapped := (map_lookup_agree haddr hpa (by decide) (hlinked.walkOk h.tables).tree (by decide)
          hmap).1 0 (by decide)
        refine ⟨pn, halloc.wasFree, ?_⟩
        have hpn : (PAGESIZE * pn + 0) / 4096 = pn := by
          simp only [PAGESIZE]
          omega
        show virtualMemoryLookup m' (s₁.processes pid).pagetable addr = _
        rw [Nat.add_zero, hpn, Nat.add_zero] at hmapped
        rw [hroot, hmapped]

end PageAlloc

/-! ## The way back -/

/-- The calls that return a value. -/
def ValueCall (reg : Registers) : Prop :=
  reg .intno ∈ [INT_SYS_GETPID, INT_SYS_FORK, INT_SYS_PAGE_ALLOC, INT_SYS_BRK, INT_SYS_SBRK]

instance (reg : Registers) : Decidable (ValueCall reg) := inferInstanceAs (Decidable (_ ∈ _))

/-- The caller of a system call: the running process, with a page table of its own and a break in the address
space. -/
structure Caller (s : State) (U : Tables) : Prop where
  running : (s.processes s.current).state = .runnable
  space : LoadSpace s s.current U
  break_lt : (s.processes s.current).programBreak < MEMSIZE_VIRTUAL

section Return

variable {s s₁ s₂ s' : State} {reg : Registers} {next : Option Nat} {d : Int}

/-- The caller is resumed with `p` in its slot. -/
structure ResumedAs (s s' : State) (next : Option Nat) (p : Proc) : Prop where
  next : next = some s.current
  current : s'.current = s.current
  slot : s'.processes s.current = p

/-- A result is stored and the caller resumed. -/
theorem resume_setRax (hcurrent : s₂.current = s.current) {p : Proc} (hslot : s₂.processes s.current = p)
    (hrunning : p.state = .runnable) (h : resume (setRax s₂ d) .back = .ok (s', next)) :
    ResumedAs s s' next { p with registers := Function.update p.registers .rax (signExtend d) } ∧
    (∀ j, j ≠ s.current → s'.processes j = s₂.processes j) ∧ s'.mem = s₂.mem := by
  have hself : (setRax s₂ d).processes s.current =
      { p with registers := Function.update p.registers .rax (signExtend d) } := by
    rw [setRax, hcurrent, State.setProc_self, hslot]
  have hcur : (setRax s₂ d).current = s.current := hcurrent
  obtain ⟨hnext, hs'⟩ := resume_back (by rw [hcur, hself]; exact hrunning) h
  have hprocs : s'.processes = (setRax s₂ d).processes := by rw [hs']
  refine ⟨⟨by rw [hnext, hcur], by rw [hs', hcur], by rw [hprocs, hself]⟩, fun j hj => ?_, by rw [hs']; rfl⟩
  rw [hprocs, setRax, hcurrent, State.setProc_other s₂ _ hj]

end Return

/-- The caller is resumed with the documented result in `rax`. -/
structure ReturnedWith (s s' : State) (reg : Registers) (next : Option Nat) (d : Int) : Prop where
  next : next = some s.current
  current : s'.current = s.current
  documented : Documented s s' reg d
  registers : (s'.processes s.current).registers = Function.update reg .rax (signExtend d)

theorem ResumedAs.returnedWith {s s' : State} {reg : Registers} {next : Option Nat} {d : Int} {p : Proc}
    (h : ResumedAs s s' next { p with registers := Function.update p.registers .rax (signExtend d) })
    (hreg : p.registers = reg) (hdoc : Documented s s' reg d) : ReturnedWith s s' reg next d := by
  refine ⟨h.next, h.current, hdoc, ?_⟩
  rw [h.slot, hreg]

namespace Caller

section Calls

variable {s s₁ s₂ s' : State} {U : Tables} {reg : Registers} {cr2 : Nat} {after : After} {next : Option Nat}
  (h : Caller s U) (he : Entered s s₁ reg) (hdispatch : dispatch s₁ reg cr2 = .ok (s₂, after))
  (hresume : resume s₂ after = .ok (s', next))

include h he

theorem active : (s₁.processes s₁.current).state ≠ .free := by
  rw [he.current, he.process_self]
  show (s.processes s.current).state ≠ .free
  rw [h.running]
  exact fun e => by cases e

theorem break_entered : (s₁.processes s₁.current).programBreak < 2 ^ 31 := by
  have hbreak := h.break_lt
  rw [he.current, he.process_self]
  exact Nat.lt_trans hbreak (by decide)

include hdispatch hresume

theorem getpid_returns (hintno : reg .intno = INT_SYS_GETPID) : ∃ d, ReturnedWith s s' reg next d := by
  rw [dispatch_getpid hintno] at hdispatch
  obtain ⟨rfl, rfl⟩ := ok_pair.1 hdispatch
  obtain ⟨hback, -, -⟩ := resume_setRax he.current he.process_self h.running hresume
  exact ⟨s₁.current, hback.returnedWith rfl (Documented.getpid hintno (by rw [he.current]))⟩

theorem fork_returns (hintno : reg .intno = INT_SYS_FORK) : ∃ d, ReturnedWith s s' reg next d := by
  have hcur := he.current
  have hself := he.process_self
  have hrunning := h.running
  have hactive := h.active he
  have hother : ∀ j, j ≠ s.current → s₁.processes j = s.processes j := he.touched.other
  rw [dispatch_fork hintno] at hdispatch
  obtain ⟨⟨s₃, r⟩, hfork, hdispatch⟩ := bind_eq_ok.1 hdispatch
  obtain ⟨rfl, rfl⟩ := ok_pair.1 hdispatch
  rcases processFork_cases hactive hfork with ⟨child, rfl, hmade⟩ | ⟨rfl, hno⟩
  · obtain ⟨root, hslot⟩ := hmade.slot
    -- the slot of the child was free, so it is not that of the caller
    have hne : child ≠ s.current := by
      rintro rfl
      rw [hcur] at hactive
      exact hactive hmade.free
    have hparent : s₃.processes s.current = { s.processes s.current with registers := reg } := by
      rw [hslot.other (Ne.symm hne), hself]
    obtain ⟨hback, hothers, -⟩ := resume_setRax (hslot.machine.current.trans hcur) hparent hrunning hresume
    refine ⟨child, hback.returnedWith rfl (Documented.fork hintno (Or.inl ⟨child, rfl, ?_, ?_⟩))⟩
    · rw [← hother child hne]
      exact hmade.free
    · rw [hothers child hne, hslot.self]
  · have hparent : s₃.processes s.current = { s.processes s.current with registers := reg } := by
      rw [← hself, ← hcur]
      exact hno.others _ hactive
    obtain ⟨hback, hothers, -⟩ := resume_setRax (hno.machine.current.trans hcur) hparent hrunning hresume
    refine ⟨-1, hback.returnedWith rfl (Documented.fork hintno (Or.inr ⟨rfl, fun j => ?_⟩))⟩
    by_cases hj : j = s.current
    · rw [hj, hback.slot]
    · rw [hothers j hj, hno.states, hother j hj]

/-- `sys_page_alloc` leaves `rax` as it was. -/
theorem pageAlloc_returns (hwords : ∀ r, reg r < 2 ^ 64) (hintno : reg .intno = INT_SYS_PAGE_ALLOC) :
    next = some s.current ∧ s'.current = s.current ∧ (s'.processes s.current).registers = reg ∧
      ∃ d, Documented s s' reg d := by
  have hcur := he.current
  have hself := he.process_self
  rw [dispatch_pageAlloc hintno] at hdispatch
  obtain ⟨⟨s₃, r⟩, halloc, hdispatch⟩ := bind_eq_ok.1 hdispatch
  obtain ⟨rfl, rfl⟩ := ok_pair.1 hdispatch
  have honly := processPageAlloc_only halloc
  have hspace : LoadSpace s₁ s.current U := h.space.of_eq he.mem he.pageinfo (he.touched.roots _)
  rw [hcur] at halloc
  obtain ⟨hvalue, hmapped⟩ := hspace.processPageAlloc_answer (hwords .rdi) halloc
  have hserved : PageServed s₁ (reg .rdi) ↔ PageServed s (reg .rdi) := by
    rw [PageServed, PageServed, he.pageinfo]
  have hrunning : (s₃.processes s₃.current).state = .runnable := by
    rw [honly.current, honly.processes, hcur, hself]
    exact h.running
  obtain ⟨hnext, hs'⟩ := resume_back hrunning hresume
  have hcur₃ : s₃.current = s.current := honly.current.trans hcur
  have hprocs : s'.processes = s₃.processes := by rw [hs']
  refine ⟨?_, ?_, ?_, r, Documented.pageAlloc hintno ⟨?_, fun hs => ?_⟩⟩
  · rw [hnext, hcur₃]
  · rw [hs', hcur₃]
  · rw [hprocs, honly.processes, hself]
  · rw [hvalue]
    exact if_congr hserved rfl rfl
  · obtain ⟨pn, hfree, hlookup⟩ := hmapped (hserved.2 hs)
    refine ⟨pn, by rw [← he.pageinfo]; exact hfree, ?_⟩
    rw [hs']
    exact hlookup

theorem brk_returns (hwords : ∀ r, reg r < 2 ^ 64) (hintno : reg .intno = INT_SYS_BRK) :
    ∃ d, ReturnedWith s s' reg next d := by
  have hcur := he.current
  have hself := he.process_self
  have hreg : (s₁.processes s₁.current).registers .rdi = reg .rdi := by rw [hcur, hself]
  rw [dispatch_brk hintno, hreg] at hdispatch
  obtain ⟨⟨s₃, r⟩, hbrk, hdispatch⟩ := bind_eq_ok.1 hdispatch
  obtain ⟨rfl, rfl⟩ := ok_pair.1 hdispatch
  have hanswer := brk_cases (h.break_entered he) (hwords .rdi) hbrk
  rw [hcur, hself] at hanswer
  rcases hanswer with ⟨hacc, rfl, hslot⟩ | ⟨hacc, rfl, rfl⟩
  · obtain ⟨hback, -, -⟩ := resume_setRax (hslot.machine.current.trans hcur) hslot.self h.running hresume
    refine ⟨0, hback.returnedWith rfl (Documented.brk hintno ⟨(if_pos hacc).symm, fun _ => ?_⟩)⟩
    rw [hback.slot]
  · obtain ⟨hback, -, -⟩ := resume_setRax hcur hself h.running hresume
    exact ⟨-1, hback.returnedWith rfl
      (Documented.brk hintno ⟨(if_neg hacc).symm, fun hacc' => absurd hacc' hacc⟩)⟩

theorem sbrk_returns (hintno : reg .intno = INT_SYS_SBRK) : ∃ d, ReturnedWith s s' reg next d := by
  have hcur := he.current
  have hself := he.process_self
  have hreg : (s₁.processes s₁.current).registers .rdi = reg .rdi := by rw [hcur, hself]
  rw [dispatch_sbrk hintno, hreg] at hdispatch
  obtain ⟨⟨s₃, r⟩, hsbrk, hdispatch⟩ := bind_eq_ok.1 hdispatch
  obtain ⟨rfl, rfl⟩ := ok_pair.1 hdispatch
  have hanswer := sbrk_cases (h.break_entered he) hsbrk
  rw [hcur, hself] at hanswer
  rcases hanswer with ⟨hacc, rfl, hslot⟩ | ⟨hacc, rfl, rfl⟩
  · obtain ⟨hback, -, -⟩ := resume_setRax (hslot.machine.current.trans hcur) hslot.self h.running hresume
    refine ⟨((s.processes s.current).programBreak : Int), hback.returnedWith rfl
      (Documented.sbrk hintno ⟨(if_pos hacc).symm, fun _ => ?_⟩)⟩
    rw [hback.slot]
    rfl
  · obtain ⟨hback, -, -⟩ := resume_setRax hcur hself h.running hresume
    exact ⟨-1, hback.returnedWith rfl
      (Documented.sbrk hintno ⟨(if_neg hacc).symm, fun hacc' => absurd hacc' hacc⟩)⟩

end Calls

end Caller

section Answer

variable {s s' : State} {U : Tables} {reg : Registers} {cr2 : Nat} {next : Option Nat}

/-- Every call that returns a value comes back to its caller at once. All but `sys_page_alloc` put the
documented result into `rax`. -/
theorem Caller.answered (h : Caller s U) (hwords : ∀ r, reg r < 2 ^ 64) (hcall : ValueCall reg)
    (hcode : exception s reg cr2 = .ok (s', next)) :
    next = some s.current ∧ s'.current = s.current ∧ ∃ d, Documented s s' reg d ∧
      (s'.processes s.current).registers =
        if reg .intno = INT_SYS_PAGE_ALLOC then reg else Function.update reg .rax (signExtend d) := by
  obtain ⟨s₁, s₂, after, he, hdispatch, hresume⟩ := exception_eq_ok hcode
  by_cases hpage : reg .intno = INT_SYS_PAGE_ALLOC
  · obtain ⟨hnext, hcurrent, hregisters, d, hdoc⟩ := h.pageAlloc_returns he hdispatch hresume hwords hpage
    refine ⟨hnext, hcurrent, d, hdoc, ?_⟩
    rw [hregisters, if_pos hpage]
  · have hreturned : ∃ d, ReturnedWith s s' reg next d := by
      simp only [ValueCall, List.mem_cons, List.not_mem_nil, or_false] at hcall
      rcases hcall with hintno | hintno | hintno | hintno | hintno
      · exact h.getpid_returns he hdispatch hresume hintno
      · exact h.fork_returns he hdispatch hresume hintno
      · exact absurd hintno hpage
      · exact h.brk_returns he hdispatch hresume hwords hintno
      · exact h.sbrk_returns he hdispatch hresume hintno
    obtain ⟨d, hd⟩ := hreturned
    refine ⟨hd.next, hd.current, d, hd.documented, ?_⟩
    rw [hd.registers, if_neg hpage]

theorem Documented.of_pageAlloc {d : Int} (h : Documented s s' reg d)
    (hintno : reg .intno = INT_SYS_PAGE_ALLOC) : d = if PageServed s (reg .rdi) then 0 else -1 := by
  cases h with
  | pageAlloc _ h => exact h.value
  | getpid h => exact absurd (hintno.symm.trans h) (by decide)
  | fork h => exact absurd (hintno.symm.trans h) (by decide)
  | brk h => exact absurd (hintno.symm.trans h) (by decide)
  | sbrk h => exact absurd (hintno.symm.trans h) (by decide)

theorem signExtend_answer {p : Prop} [Decidable p] :
    signExtend (if p then 0 else -1) = if p then 0 else 2 ^ 64 - 1 := by
  split
  · rfl
  · rfl

/-- The caller of a call that returns a value is resumed at once. It has its result if and only if the call
was another one than `sys_page_alloc`, or `rax` already held the result. -/
theorem results_delivered_iff (h : Caller s U) (hwords : ∀ r, reg r < 2 ^ 64) (hcall : ValueCall reg)
    (hcode : exception s reg cr2 = .ok (s', next)) :
    next = some s.current ∧ s'.current = s.current ∧ (Delivered s s' reg ↔
      (reg .intno = INT_SYS_PAGE_ALLOC →
        reg .rax = if PageServed s (reg .rdi) then 0 else 2 ^ 64 - 1)) := by
  obtain ⟨hnext, hcurrent, d, hdoc, hregisters⟩ := h.answered hwords hcall hcode
  refine ⟨hnext, hcurrent, ?_⟩
  constructor
  · rintro ⟨⟨d', hdoc', hrax⟩, -⟩ hintno
    rw [hregisters, if_pos hintno, hdoc'.of_pageAlloc hintno, signExtend_answer] at hrax
    exact hrax
  · intro hheld
    by_cases hintno : reg .intno = INT_SYS_PAGE_ALLOC
    · -- the registers are those of the trap
      rw [if_pos hintno] at hregisters
      refine ⟨⟨d, hdoc, ?_⟩, fun r _ => by rw [hregisters]⟩
      rw [hregisters, hheld hintno, hdoc.of_pageAlloc hintno, signExtend_answer]
    · rw [if_neg hintno] at hregisters
      refine ⟨⟨d, hdoc, ?_⟩, fun r hr => ?_⟩
      · rw [hregisters, Function.update_self]
      · rw [hregisters, Function.update_of_ne hr]

end Answer

/-- The first process after booting calls, with 7 in `rax`. -/
def callRegisters (intno : Nat) : Registers :=
  fun r => if r = .intno then intno else if r = .rax then 7 else 0

theorem callRegisters_lt {intno : Nat} (h : intno < 2 ^ 64) (r : Reg) : callRegisters intno r < 2 ^ 64 := by
  rw [callRegisters]
  split
  · exact h
  · split
    · decide
    · decide

theorem Booted.caller {s : State} {T : Nat → Tables} (h : Booted s T) : Caller s (T s.current) := by
  have hlive : s.current ∈ live s := by
    rw [h.current]
    exact h.first
  constructor
  · exact h.runnable _ hlive
  · exact h.isolated.accounted.loadSpace hlive
  · exact Nat.lt_of_lt_of_le (h.isolated.breaks _ hlive).limit (Nat.sub_le _ _)

/-- `getpid` of the first process. -/
theorem results_delivered_iff_getpid : ∃ s s' next,
    exception s (callRegisters INT_SYS_GETPID) 0 = .ok (s', next) ∧ next = some s.current ∧
    Delivered s s' (callRegisters INT_SYS_GETPID) := by
  obtain ⟨s, T, -, hboot, -⟩ := kernel_spec (fun _ _ => 0) (fun _ => 0) none
  have hcaller := hboot.caller
  have hwords : ∀ r, callRegisters INT_SYS_GETPID r < 2 ^ 64 := callRegisters_lt (by decide)
  have htrap : Trap s (callRegisters INT_SYS_GETPID) 0 :=
    ⟨hcaller.space.pid_lt, hcaller.running, hwords, Or.inl (by decide)⟩
  obtain ⟨s', next, hcode, -⟩ := htrap.exception_kept hboot.isolated
  obtain ⟨hnext, -, hiff⟩ := results_delivered_iff hcaller hwords (by decide) hcode
  exact ⟨s, s', next, hcode, hnext, hiff.2 fun e => absurd e (by decide)⟩

/-- `sys_page_alloc(0)` is refused, and the caller finds 7 in `rax`. -/
theorem page_alloc_drops_result : ∃ s T s' next, Booted s T ∧
    exception s (callRegisters INT_SYS_PAGE_ALLOC) 0 = .ok (s', next) ∧ next = some s.current ∧
    (s'.processes s.current).registers .rax = 7 ∧
    ¬ Delivered s s' (callRegisters INT_SYS_PAGE_ALLOC) := by
  obtain ⟨s, T, -, hboot, -⟩ := kernel_spec (fun _ _ => 0) (fun _ => 0) none
  have hcaller := hboot.caller
  have hwords : ∀ r, callRegisters INT_SYS_PAGE_ALLOC r < 2 ^ 64 := callRegisters_lt (by decide)
  obtain ⟨s₁, he, hcode⟩ := hboot.isolated.accounted.exception_enters hboot.isolated.ownersLive
    (callRegisters INT_SYS_PAGE_ALLOC) 0
  -- an address of the kernel is refused
  have hrefused : processPageAlloc s₁ s₁.current 0 = .ok (s₁, -1) := by
    rw [processPageAlloc, if_pos (by decide)]
  have hrunning : (s₁.processes s₁.current).state = .runnable := by
    rw [he.current, he.process_self]
    exact hcaller.running
  have hlt : s₁.current < NPROC := by
    rw [he.current]
    exact hcaller.space.pid_lt
  rw [dispatch_pageAlloc rfl] at hcode
  have hcall : exception s (callRegisters INT_SYS_PAGE_ALLOC) 0 = .ok (s₁, some s₁.current) := by
    rw [hcode]
    show (do
      let result ← processPageAlloc s₁ s₁.current 0
      resume result.1 .back) = _
    rw [hrefused]
    show resume s₁ .back = _
    rw [resume, if_pos ⟨rfl, hrunning⟩]
    exact (hboot.isolated.entered he).accounted.run_ok hlt hrunning
  obtain ⟨hnext, -, hiff⟩ := results_delivered_iff hcaller hwords (by decide) hcall
  refine ⟨s, T, s₁, some s₁.current, hboot, hcall, hnext, ?_, ?_⟩
  · rw [he.process_self]
    rfl
  · rw [hiff]
    intro hheld
    exact absurd (hheld rfl) (by rw [if_neg fun hserved => absurd hserved.1 (by decide)]; decide)

end MemoryManagement.Kernel
