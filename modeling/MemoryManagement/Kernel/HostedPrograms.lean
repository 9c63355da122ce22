import MemoryManagement.Kernel.Hosting
import MemoryManagement.Kernel.Returns

/-!
# The kernel serves the programs in its processes

From boot on, a program in a process computes what it computes on a memory of its own (`program_hosted`). While
a page is left, a heap access that faults is let through when the fault has been handled, and `sbrk` comes back at
once (`hosted_program_served`), so that only the scheduler can keep a program from its result.
-/

set_option autoImplicit false

namespace MemoryManagement.Kernel

open MemoryManagement.Library.ByteMemory
open MemoryManagement.Library.Accesses (Program Within)

section Served

variable {α : Type} {s s' : State} {T : Nat → Tables} {pid lo : Nat} {p : Program α} {r : Option (α × Mem × Nat)}

/-- The registers of a process that faults where no page is. -/
def faultRegisters : Registers := fun r => if r = .intno then INT_PAGEFAULT else if r = .err then PFERR_USER else 0

theorem faultRegisters_lt (r : Reg) : faultRegisters r < 2 ^ 64 := by
  rw [faultRegisters]
  split
  · decide
  · split
    · decide
    · decide

/-- A process may fault wherever no page is. -/
theorem userFault_missing (hcurrent : s.current = pid) (hlt : pid < NPROC)
    (hrunning : (s.processes pid).state = .runnable) {a : Nat} (hmissing : ¬ s.HasPage pid a) :
    UserFault s faultRegisters a := by
  constructor
  · rw [hcurrent]
    exact hlt
  · rw [hcurrent]
    exact hrunning
  · rfl
  · decide
  · rw [hcurrent]
    exact ⟨fun _ => hmissing, fun _ => rfl⟩

/-- Only where a page is missing an access to the heap is denied. -/
theorem Agrees.missing (h : Agrees s pid lo p r) (hsep : Separate s T) (hlo : PROC_START_ADDR ≤ lo) {a : Nat}
    (hdenied : Denied s pid p a) : ¬ s.HasPage pid a := by
  obtain ⟨m, b, hholds, hwithin, -⟩ := h
  obtain ⟨hroom, huser⟩ := hholds.room hsep hlo (hdenied.heapPart hwithin)
  exact cells_eq_none.1 (hholds.denied hsep hroom hdenied) huser

/-- A fault where a page is missing, as long as one is left. -/
theorem Agrees.heapFault (h : Agrees s pid lo p r) (hsep : Separate s T) (hlo : PROC_START_ADDR ≤ lo)
    (hcurrent : s.current = pid) {a : Nat} (hdenied : Denied s pid p a) (hfull : s.full = false) : HeapFault s a := by
  have hmissing := h.missing hsep hlo hdenied
  subst hcurrent
  obtain ⟨m, b, hholds, hwithin, -⟩ := h
  obtain ⟨hlow, hhigh⟩ := hdenied.heapPart hwithin
  obtain ⟨-, hbreak, hstart⟩ := hholds.cells
  refine ⟨hmissing, ?_, ?_, ?_⟩
  · rw [hstart]
    exact hlow
  · rw [hbreak]
    exact hhigh
  · by_contra hnot
    rw [hsep.family.accounted.full_iff.2 hnot] at hfull
    cases hfull

/-- The page of `a` has come in to the process, and was free before. -/
structure PageSupplied (s s' : State) (pid a : Nat) : Prop where
  running : (s'.processes pid).state = .runnable
  current : s'.current = pid
  info : ∃ pn, pn < 512 ∧ s.pageinfo pn = ⟨PO_FREE, 0⟩ ∧ s'.pageinfo = Function.update s.pageinfo pn ⟨pid, 1⟩
  pages : ∀ x, s'.HasPage pid x ↔ page48 x = page48 a ∨ s.HasPage pid x
  perm : (s'.lookup pid a).perm = 7

/-- The handler of a fault in the heap supplies the page. -/
theorem heapFault_supplied (hfamily : Family s T) (howners : OwnersLive s) {a : Nat} {reg : Registers}
    (hfault : UserFault s reg a) (hheap : HeapFault s a) :
    ∃ s', exception s reg a = .ok (s', some s.current) ∧ PageSupplied s s' s.current a := by
  have hacc := hfamily.accounted
  have hpid := mem_live_of_runnable hfault.current hfault.running
  obtain ⟨s₁, he, hcode⟩ := hacc.exception_enters howners reg a
  have hsame := Alike.of_entered he
  have hcur := he.current
  have hfamily₁ := hsame.family hfamily
  have hcurrent₁ : s₁.current ∈ live s₁ := by
    rw [hcur, hsame.live]
    exact hpid
  have hlimit := Nat.lt_of_lt_of_le (hfamily₁.limit s₁.current) (Nat.sub_le MEMSIZE_VIRTUAL PAGESIZE)
  obtain ⟨s', pn, hpage, hs⟩ := hfamily₁.accounted.pageFault_heap hcurrent₁ hlimit
    (hfault.present.2 hheap.missing) ((HeapFault.entered he).2 hheap)
  have hprocs : s'.processes s.current = { s.processes s.current with registers := reg } := by
    rw [hs.only.processes, he.process_self]
  have hcur' : s'.current = s.current := hs.only.current.trans hcur
  have hrunning : (s'.processes s'.current).state = .runnable := by
    rw [hcur', hprocs]
    exact hfault.running
  have hlt : s'.current < NPROC := by
    rw [hcur']
    exact hfault.current
  have hroot : (s'.processes s.current).pagetable = (T s.current).l1 := by
    rw [hprocs]
    exact hacc.root _ hpid
  obtain ⟨hfamily', -⟩ := hfamily₁.supplied hs hcurrent₁
  have hinfo := hs.info
  have hfree := hs.wasFree
  have hmapped := hs.mapped_iff
  have hlookup := hs.lookup a
  rw [hcur, he.pageinfo] at hinfo
  rw [he.pageinfo] at hfree
  rw [if_pos rfl, hcur] at hlookup
  rw [hcur, he.mem] at hmapped
  refine ⟨s', ?_, hcur' ▸ hrunning, hcur', ⟨pn, hs.ordinary.lt, hfree, hinfo⟩, fun x => ?_, ?_⟩
  · rw [hcode, dispatch_pageFault hfault.intno, hpage]
    simp only [bind, Except.bind]
    rw [resume, if_pos ⟨rfl, hrunning⟩, hfamily'.accounted.run_ok hlt hrunning, hcur']
    congr 2
    rw [← hcur']
  · rw [State.HasPage, State.HasPage, hroot, hacc.root _ hpid]
    exact hmapped x
  · rw [State.lookup, hroot, hlookup]

/-- A page that has come in lets every access through. -/
theorem PageSupplied.not_denied {a : Nat} (h : PageSupplied s s' pid a) (hdenied : Denied s pid p a) (x : Nat) :
    ¬ Denied s' pid p x := by
  have hperm := h.perm
  rw [State.lookup] at hperm
  intro hdenied'
  cases p with
  | load y next =>
      obtain ⟨rfl, -⟩ := hdenied
      obtain ⟨rfl, hnot⟩ := hdenied'
      apply hnot
      rw [UserReadable, hperm]
      exact (by decide : (7 : Nat) &&& (PTE_P ||| PTE_U) = PTE_P ||| PTE_U)
  | store y v next =>
      obtain ⟨rfl, -⟩ := hdenied
      obtain ⟨rfl, hnot⟩ := hdenied'
      apply hnot
      rw [UserWritable, hperm]
      exact (by decide : (7 : Nat) &&& (PTE_P ||| PTE_W ||| PTE_U) = PTE_P ||| PTE_W ||| PTE_U)
  | done _ => exact hdenied'
  | stuck => exact hdenied'
  | ask _ _ => exact hdenied'

/-- The handler supplies the page, and the access is let through. -/
theorem Agrees.served (h : Agrees s pid lo p r) (hsep : Separate s T) (howners : OwnersLive s)
    (hlo : PROC_START_ADDR ≤ lo) (hcurrent : s.current = pid) {a : Nat} (hdenied : Denied s pid p a)
    (hfull : s.full = false) {reg : Registers} (hfault : UserFault s reg a) (hwords : ∀ r, reg r < 2 ^ 64) :
    ∃ s', exception s reg a = .ok (s', some pid) ∧ HostStep pid lo (s, .running p) (s', .running p) ∧
      PageSupplied s s' pid a ∧ ∀ x, ¬ Denied s' pid p x := by
  have hheap := h.heapFault hsep hlo hcurrent hdenied hfull
  subst hcurrent
  obtain ⟨s', hcode, hsupplied⟩ := heapFault_supplied hsep.family howners hfault hheap
  have htrap : UserTrap s reg a := Or.inr ⟨hfault.current, hfault.running, hwords, Or.inr hfault⟩
  have hother : ∀ n, n ≠ INT_PAGEFAULT → reg .intno ≠ n := fun n hn hintno => hn (hintno.symm.trans hfault.intno)
  have hcontained : Contained s reg a := by
    refine ⟨KeepsHigh.of_other (hother _ (by decide)) (hother _ (by decide)), ?_,
      fun hintno => absurd hintno (hother _ (by decide)), fun hintno => absurd hintno (hother _ (by decide))⟩
    rintro (hintno | ⟨-, hnot⟩)
    · exact absurd hintno (hother _ (by decide))
    · exact absurd hheap hnot
  have hlive := mem_live_of_runnable hfault.current hsupplied.running
  exact ⟨s', hcode, HostStep.supplied rfl hdenied htrap hfault.intno hcontained hcode hlive, hsupplied,
    hsupplied.not_denied hdenied⟩

/-- Moving the break up changes no page and takes none. -/
theorem sbrk_keeps {d pid : Nat} {r : Int} (hlimit : (s.processes pid).programBreak < MEMSIZE_VIRTUAL - PAGESIZE)
    (hrising : Rising d) (hcode : sbrk s pid d = .ok (s', r)) :
    s'.pageinfo = s.pageinfo ∧ ∀ j x, s'.HasPage j x ↔ s.HasPage j x := by
  by_cases hacc : BreakAccepted (s.processes pid) d
  · rw [sbrk_grow hlimit hacc hrising] at hcode
    obtain ⟨rfl, -⟩ := ok_pair.1 hcode
    refine ⟨State.setProc_pageinfo .., fun j x => ?_⟩
    rw [State.HasPage, State.HasPage, State.setProc_mem, State.setProc_pagetable s (by rfl) j]
  · rw [sbrk_refused hacc] at hcode
    obtain ⟨rfl, -⟩ := ok_pair.1 hcode
    exact ⟨rfl, fun _ _ => Iff.rfl⟩

theorem sbrk_exception_keeps {reg : Registers} {addr : Nat} {next : Option Nat} (hfamily : Family s T)
    (hintno : reg .intno = INT_SYS_SBRK) (hrising : Rising (reg .rdi)) (hcode : exception s reg addr = .ok (s', next)) :
    s'.pageinfo = s.pageinfo ∧ ∀ j x, s'.HasPage j x ↔ s.HasPage j x := by
  obtain ⟨s₁, s₃, after, he, hdispatch, hresume⟩ := exception_eq_ok hcode
  have hentered := Alike.of_entered he
  have hreg : (s₁.processes s₁.current).registers .rdi = reg .rdi := by rw [he.current, he.process_self]
  rw [dispatch_sbrk hintno, hreg] at hdispatch
  obtain ⟨⟨s₂, r⟩, hsbrk, hdispatch⟩ := bind_eq_ok.1 hdispatch
  obtain ⟨rfl, rfl⟩ := ok_pair.1 hdispatch
  obtain ⟨hinfo, hpages⟩ := sbrk_keeps ((hentered.family hfamily).limit s₁.current) hrising hsbrk
  have hrax := Alike.setRax s₂ r
  have hpicked : Alike (setRax s₂ r) s' := by
    rw [(resume_only hresume).1]
    exact Alike.of_processes rfl rfl rfl
  refine ⟨?_, fun j x => ?_⟩
  · rw [hpicked.pageinfo, hrax.pageinfo, hinfo, hentered.pageinfo]
  · rw [hpicked.hasPage, hrax.hasPage, hpages, hentered.hasPage]

/-- `sbrk` comes back to the program with its result. -/
theorem Agrees.asked {n : Nat} {next : Nat → Program α} (h : Agrees s pid lo (.ask n next) r) (hsep : Separate s T)
    (howners : OwnersLive s) (hcurrent : s.current = pid) {reg : Registers} (hcall : SoftwareInterrupt s reg)
    (hintno : reg .intno = INT_SYS_SBRK) (hrdi : reg .rdi = n) (addr : Nat) :
    ∃ s', exception s reg addr = .ok (s', some pid) ∧
      HostStep pid lo (s, .running (.ask n next)) (s', .running (next ((s'.processes pid).registers .rax))) := by
  subst hcurrent
  have hpid := h.live
  obtain ⟨-, -, -, ⟨hrising, -⟩, -⟩ := h
  have hcontained : Contained s reg addr := by
    apply contained_of_number
    · rw [hintno]
      decide
    · intro _
      rw [hrdi]
      exact hrising
  have htrap : UserTrap s reg addr := Or.inl hcall
  obtain ⟨s', back, hcode, -⟩ := htrap.exception_follows (by rw [hintno]; decide) hsep.family howners hcontained
  have hcaller : Caller s (T s.current) := by
    refine ⟨hcall.running, hsep.family.accounted.loadSpace hpid, ?_⟩
    exact Nat.lt_of_lt_of_le (hsep.family.limit s.current) (Nat.sub_le MEMSIZE_VIRTUAL PAGESIZE)
  obtain ⟨hback, -, -⟩ := hcaller.answered hcall.words (by rw [ValueCall, hintno]; decide) hcode
  rw [hback] at hcode
  exact ⟨s', hcode, HostStep.sbrk rfl htrap hintno hrdi hcode⟩

end Served

/-! ## Programs from boot on -/

section Boot

variable {bytes : Nat → Nat → UInt8} {m : Mem} {command : Option String} {next : Option Nat} {s s' : State}
  {pid lo : Nat} {α : Type} {p : Program α} {st : Standing α}

/-- What holds at each point of a run that `kernel` has started. -/
theorem hosted_run (hboot : kernel bytes m command = .ok (s, next)) (hpid : pid ∈ live s)
    (hlo : lo = (s.processes pid).originalBreak) (hwithin : Within grow (HeapPart lo) Rising p freshBytes lo)
    (hrun : Relation.ReflTransGen (HostStep pid lo) (s, .running p) (s', st)) :
    PROC_START_ADDR ≤ lo ∧ (∃ T, Separate s' T) ∧ OwnersLive s' ∧
      st.Sound s' pid lo (Library.Accesses.run grow p freshBytes lo) := by
  obtain ⟨T, hbooted⟩ := booted_of_kernel hboot
  have hempty := kernel_heap hboot pid hpid
  have hholds := hempty.holds hpid
  have hstart := hempty.start
  rw [← hlo] at hholds hstart
  have hagrees : Agrees s pid lo p (Library.Accesses.run grow p freshBytes lo) :=
    ⟨freshBytes, lo, hholds, hwithin, rfl⟩
  obtain ⟨hsystem, hsound⟩ := HostStep.run_sound hrun hbooted.separate hstart hagrees
  have howners := (hbooted.family.system_run hbooted.isolated.ownersLive hsystem).2
  exact ⟨hstart, (system_simulated.run ⟨T, hbooted.separate⟩ hsystem).1, howners, hsound⟩

/-- A program that keeps to its heap and moves its break up only, in a process that `kernel` has set up: whatever
contained steps the other processes make, whenever the process is interrupted and whenever its pages come in, it holds a
memory on which the rest of the program comes to what the whole program comes to on a memory of its own. A fault kills
the process only when no page is left. -/
theorem program_hosted (hboot : kernel bytes m command = .ok (s, next)) (hpid : pid ∈ live s)
    (hlo : lo = (s.processes pid).originalBreak) (hwithin : Within grow (HeapPart lo) Rising p freshBytes lo)
    (hrun : Relation.ReflTransGen (HostStep pid lo) (s, .running p) (s', st)) :
    (∀ q, st = .running q → ∃ m' b, (s'.slot pid).Holds lo b m' ∧ Within grow (HeapPart lo) Rising q m' b ∧
      Library.Accesses.run grow q m' b = Library.Accesses.run grow p freshBytes lo) ∧
    ∀ s'', HostStep pid lo (s', st) (s'', .killed) → s'.full = true := by
  obtain ⟨hstart, ⟨T, hsep⟩, -, hsound⟩ := hosted_run hboot hpid hlo hwithin hrun
  constructor
  · rintro q rfl
    exact hsound
  · exact fun s'' hstep => hstep.killed_full hsep hstart hsound

/-- In such a run, while a page is left, a heap access that faults is let through once the fault has been handled, and
the program goes on at once, as it does after each `sbrk`. -/
theorem hosted_program_served (hboot : kernel bytes m command = .ok (s, next)) (hpid : pid ∈ live s)
    (hlo : lo = (s.processes pid).originalBreak) (hwithin : Within grow (HeapPart lo) Rising p freshBytes lo)
    {q : Program α} (hrun : Relation.ReflTransGen (HostStep pid lo) (s, .running p) (s', .running q))
    (hcurrent : s'.current = pid) :
    (∀ a reg, Denied s' pid q a → s'.full = false → UserFault s' reg a → (∀ r, reg r < 2 ^ 64) →
      ∃ s'', exception s' reg a = .ok (s'', some pid) ∧
        HostStep pid lo (s', .running q) (s'', .running q) ∧ ∀ x, ¬ Denied s'' pid q x) ∧
    ∀ n k reg addr, q = .ask n k → SoftwareInterrupt s' reg → reg .intno = INT_SYS_SBRK →
      reg .rdi = n → ∃ s'', exception s' reg addr = .ok (s'', some pid) ∧
        HostStep pid lo (s', .running q) (s'', .running (k ((s''.processes pid).registers .rax))) := by
  obtain ⟨hstart, ⟨T, hsep⟩, howners, hsound⟩ := hosted_run hboot hpid hlo hwithin hrun
  constructor
  · intro a reg hdenied hfull hfault hwords
    obtain ⟨s'', hcode, hstep, -, hpermitted⟩ :=
      Agrees.served hsound hsep howners hstart hcurrent hdenied hfull hfault hwords
    exact ⟨s'', hcode, hstep, hpermitted⟩
  · rintro n k reg addr rfl hcall hintno hrdi
    exact Agrees.asked hsound hsep howners hcurrent hcall hintno hrdi addr

end Boot

/-- A program that takes eight bytes and, if it gets them, stores one there and loads it again. -/
def oneByte : Program (Option UInt8) :=
  .ask 8 fun r => if r = 2 ^ 64 - 1 then .done none else .store r 7 (.load r fun v => .done (some v))

theorem within_oneByte {lo : Nat} (hlo : lo < MEMSIZE_VIRTUAL - PAGESIZE) :
    Within grow (HeapPart lo) Rising oneByte freshBytes lo := by
  have height : Rising 8 := (by decide : ¬ Negative 8)
  refine ⟨height, ?_⟩
  simp only [MEMSIZE_VIRTUAL, PAGESIZE] at hlo
  by_cases hfits : lo + 8 < MEMSIZE_VIRTUAL - PAGESIZE
  · rw [grow, if_pos hfits]
    show Within _ _ _ (if lo = 2 ^ 64 - 1 then _ else _) _ _
    rw [if_neg (by omega)]
    exact ⟨⟨Nat.le_refl lo, by simp only; omega⟩, ⟨Nat.le_refl lo, by simp only; omega⟩, trivial⟩
  · rw [grow, if_neg hfits]
    show Within _ _ _ (if (2 ^ 64 - 1 : Nat) = 2 ^ 64 - 1 then _ else _) _ _
    rw [if_pos rfl]
    trivial

/-- A page-aligned break leaves room for eight bytes. -/
theorem fits_of_aligned {lo : Nat} (haligned : lo % PAGESIZE = 0) (hlimit : lo < MEMSIZE_VIRTUAL - PAGESIZE) :
    lo + 8 < MEMSIZE_VIRTUAL - PAGESIZE := by
  simp only [MEMSIZE_VIRTUAL, PAGESIZE] at hlimit haligned ⊢
  omega

theorem run_oneByte {lo : Nat} (hfits : lo + 8 < MEMSIZE_VIRTUAL - PAGESIZE) :
    Library.Accesses.run grow oneByte freshBytes lo = some (some 7, Function.update freshBytes lo 7, lo + 8) := by
  have hne : lo ≠ 2 ^ 64 - 1 := by
    simp only [MEMSIZE_VIRTUAL, PAGESIZE] at hfits
    omega
  rw [oneByte, Library.Accesses.run, grow, if_pos hfits]
  simp only [if_neg hne, Library.Accesses.run, Function.update_self]

/-- A process may call `sbrk` at any time. -/
theorem sbrk_interrupt {s : State} {n : Nat} (hlt : s.current < NPROC)
    (hrunning : (s.processes s.current).state = .runnable) (hn : n < 2 ^ 64) :
    SoftwareInterrupt s (sbrkRegisters n) := by
  refine ⟨hlt, hrunning, fun r => ?_, (by decide : INT_SYS ≤ INT_SYS_SBRK), (by decide : INT_SYS_SBRK < INT_SYS + 16),
    (by decide : INT_SYS_SBRK ≠ INT_SYS_PANIC)⟩
  rw [sbrkRegisters]
  split
  · decide
  · split
    · exact hn
    · decide

theorem sbrk_of_first {s : State} {T : Nat → Tables} (h : Booted s T) : SoftwareInterrupt s (sbrkRegisters 8) := by
  apply sbrk_interrupt
  · rw [h.current]
    decide
  · rw [h.current]
    exact h.runnable 1 h.first
  · decide

/-- The first process has called `sbrk`. -/
theorem program_hosted_first : ∃ s s' lo q m b, kernel (fun _ _ => 0) (fun _ => 0) none = .ok (s, some 1) ∧
    lo < MEMSIZE_VIRTUAL - PAGESIZE ∧ HostStep 1 lo (s, .running oneByte) (s', .running q) ∧
    (s'.slot 1).Holds lo b m ∧
    Library.Accesses.run grow q m b = Library.Accesses.run grow oneByte freshBytes lo := by
  obtain ⟨s, T, hkernel, hfresh, hone, -⟩ := kernel_one
  have hpid : 1 ∈ live s := hfresh.booted.first
  have hbreaks := hfresh.booted.isolated.breaks 1 hpid
  have hlo := Nat.lt_of_le_of_lt hbreaks.ordered hbreaks.limit
  have hwithin := within_oneByte hlo
  obtain ⟨-, ⟨T', hsep⟩, howners, hsound⟩ := hosted_run hkernel hpid rfl hwithin Relation.ReflTransGen.refl
  obtain ⟨s', -, hstep⟩ :=
    Agrees.asked hsound hsep howners hfresh.booted.current (sbrk_of_first hfresh.booted) rfl rfl 0
  obtain ⟨hrest, -⟩ := program_hosted hkernel hpid rfl hwithin (Relation.ReflTransGen.single hstep)
  obtain ⟨m, b, hholds, -, hrun⟩ := hrest _ rfl
  exact ⟨s, s', _, _, m, b, hkernel, hlo, hstep, hholds, hrun⟩

/-- The first process calls `sbrk` and comes back. Its store then faults, and is let through when the fault has been
handled. -/
theorem hosted_program_served_first : ∃ s s' s'' lo a next,
    kernel (fun _ _ => 0) (fun _ => 0) none = .ok (s, some 1) ∧
    exception s (sbrkRegisters 8) 0 = .ok (s', some 1) ∧
    HostStep 1 lo (s, .running oneByte) (s', .running (.store a 7 next)) ∧
    Denied s' 1 (.store a 7 next) a ∧ exception s' faultRegisters a = .ok (s'', some 1) ∧
    HostStep 1 lo (s', .running (.store a 7 next)) (s'', .running (.store a 7 next)) ∧
    UserWritable s''.mem (s''.processes 1).pagetable a := by
  obtain ⟨s, T, hkernel, hfresh, hone, -⟩ := kernel_one
  have hpid : 1 ∈ live s := hfresh.booted.first
  have hempty := kernel_heap hkernel 1 hpid
  have hbreaks := hfresh.booted.isolated.breaks 1 hpid
  have hlimit := Nat.lt_of_le_of_lt hbreaks.ordered hbreaks.limit
  have hwithin := within_oneByte hlimit
  obtain ⟨-, hasked⟩ := hosted_program_served hkernel hpid rfl hwithin Relation.ReflTransGen.refl
    hfresh.booted.current
  obtain ⟨s', hcode, hstep⟩ := hasked 8 _ (sbrkRegisters 8) 0 rfl (sbrk_of_first hfresh.booted) rfl rfl
  obtain ⟨-, ⟨T', hsep⟩, -, -⟩ := hosted_run hkernel hpid rfl hwithin (Relation.ReflTransGen.single hstep)
  -- what `sbrk` has returned is an address of the heap
  obtain ⟨hrest, -⟩ := program_hosted hkernel hpid rfl hwithin (Relation.ReflTransGen.single hstep)
  obtain ⟨m, b, hholds, hkept, hrun⟩ := hrest _ rfl
  rw [run_oneByte (fits_of_aligned hempty.aligned hlimit)] at hrun
  generalize hrax : (s'.processes 1).registers .rax = a at *
  by_cases hrefused : a = 2 ^ 64 - 1
  · rw [if_pos hrefused] at hrun
    have hnone := congrArg Prod.fst (Option.some.inj hrun)
    exact absurd hnone (by simp only; decide)
  rw [if_neg hrefused] at hstep hkept
  obtain ⟨hpart, -⟩ := hkept
  -- its page has not come in
  obtain ⟨hinfo, hpages⟩ := sbrk_exception_keeps hfresh.booted.family rfl (by decide : ¬ Negative (sbrkRegisters 8 .rdi)) hcode
  have hmissing : ¬ s'.HasPage 1 a := by
    rw [hpages]
    exact hempty.unmapped a (hholds.room hsep hempty.start hpart).1
  have hdenied : Denied s' 1 (.store a 7 (.load a fun v => .done (some v))) a :=
    ⟨rfl, fun hwritable => hmissing hwritable.mapped⟩
  have hfree : s'.pageinfo 19 = ⟨PO_FREE, 0⟩ := by
    rw [hinfo]
    exact hfresh.free 19 (by decide) (ordinary_of_lt (by decide) (by decide))
  have hfull : s'.full = false := by
    rw [Bool.eq_false_iff]
    exact fun hfull => hsep.family.accounted.full_iff.1 hfull ⟨19, by decide, hfree⟩
  obtain ⟨hcurrent, hrunning⟩ := exception_resumed hcode
  obtain ⟨hfaulted, -⟩ := hosted_program_served hkernel hpid rfl hwithin (Relation.ReflTransGen.single hstep) hcurrent
  obtain ⟨s'', hcode', hstep', hpermitted⟩ := hfaulted a faultRegisters hdenied hfull
    (userFault_missing hcurrent (by decide) hrunning hmissing) faultRegisters_lt
  exact ⟨s, s', s'', _, a, _, hkernel, hcode, hstep, hdenied, hcode', hstep',
    not_not.1 fun hnot => hpermitted a ⟨rfl, hnot⟩⟩

end MemoryManagement.Kernel
