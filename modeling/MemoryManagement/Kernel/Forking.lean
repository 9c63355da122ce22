import MemoryManagement.Kernel.Refinement

/-!
# Forks in whole runs

What the machine with private memories says about runs of the kernel: a process that does not run keeps its
registers, its breaks and its memory (`processes_isolated`), and a fork makes a process with a copy of the
memory of its parent or changes nothing but the result (`fork_duplicates`).
-/

set_option autoImplicit false

namespace MemoryManagement.Kernel

open MemoryManagement.Library.ByteMemory
open MemoryManagement.Library.RefCount
open MemoryManagement.Library.Simulation

/-! ## Processes that do not run -/

section Isolated

variable {s s' : State} {T : Nat → Tables} {j : Nat}

/-- A step of another process. -/
def OtherStep (j : Nat) (s s' : State) : Prop := j ≠ s.current ∧ SystemStep s s'

/-- Steps of other processes are steps of other processes in the machine. -/
theorem others_simulated (j : Nat) : Simulated (fun s => ∃ T, Separate s T) State.world (OtherStep j)
    fun w w' => j ≠ w.current ∧ World.Next w w' := by
  constructor
  · exact fun s s' hsep hstep => system_simulated.keeps s s' hsep hstep.2
  · exact fun s s' hsep hstep => ⟨hstep.1, system_simulated.agrees s s' hsep hstep.2⟩

theorem Separate.step_kept (h : Separate s T) (hstep : SystemStep s s') : LiveKept s s' s.current := by
  cases hstep with
  | changes hchanges => exact (h.stores_refine hchanges).2.2
  | trap htrap hcontained hcode => exact (h.exception_refines htrap hcontained hcode).2.2

/-- A page that a process can write is mapped by no other process. -/
theorem Separate.pages_apart (h : Separate s T) (hj : j ∈ live s) {k va w : Nat} (hk : k ∈ live s) (hne : j ≠ k)
    (huser : UserPart va) (hm : s.HasPage j va) (hwritable : (s.lookup j va).perm &&& PTE_W ≠ 0)
    (huser' : UserPart w) (hm' : s.HasPage k w) : (s.lookup j va).pn ≠ (s.lookup k w).pn := by
  have hacc := h.family.accounted
  rw [State.HasPage, hacc.root j hj] at hm
  rw [State.HasPage, hacc.root k hk] at hm'
  rw [State.lookup, hacc.root j hj] at hwritable ⊢
  rw [State.lookup, hacc.root k hk]
  have hperm : (virtualMemoryLookup s.mem (T j).l1 va).perm = 7 := by
    obtain ⟨pn, perm, -, hperm, heq⟩ := (hacc.space j hj).user va huser hm
    rw [heq] at hwritable ⊢
    rcases hperm with rfl | rfl
    · rfl
    · exact absurd (by decide : (5 : Nat) &&& PTE_W = 0) hwritable
  intro hsame
  have hzero := h.alone j hj va huser hperm k hk hne.symm
  have hrefs := references_pos.2 ⟨w, huser', hm', rfl⟩
  rw [hsame, uses] at hzero
  omega

end Isolated

/-- Isolation of processes that fork, in the user part of their memory, from `PROC_START_ADDR` to
`MEMSIZE_VIRTUAL`; the page of the console, which all of them may write, is not in it. In every state of a
contained run no process maps a page there that another one can write there, a step leaves the slots, the
translations and the bytes there of all other processes alone, and while a process does not run, its registers,
its breaks and its memory there stay as they are. -/
theorem processes_isolated {bytes : Nat → Nat → UInt8} {m : Mem} {command : Option String} {next : Option Nat}
    {s s' : State} (hboot : kernel bytes m command = .ok (s, next))
    (hrun : Relation.ReflTransGen SystemStep s s') :
    (∀ j ∈ live s', ∀ k ∈ live s', j ≠ k → ∀ va w, UserPart va → s'.HasPage j va →
      (s'.lookup j va).perm &&& PTE_W ≠ 0 → UserPart w → s'.HasPage k w →
      (s'.lookup j va).pn ≠ (s'.lookup k w).pn) ∧
    (∀ s'', SystemStep s' s'' → LiveKept s' s'' s'.current) ∧
    ∀ j ∈ live s', ∀ s'', Relation.ReflTransGen (OtherStep j) s' s'' → s''.slot j = s'.slot j := by
  obtain ⟨T, hbooted⟩ := booted_of_kernel hboot
  obtain ⟨⟨T', hsep⟩, -⟩ := system_simulated.run ⟨T, hbooted.separate⟩ hrun
  refine ⟨?_, fun s'' hstep => hsep.step_kept hstep, fun j hj s'' hothers => ?_⟩
  · intro j hj k hk hne va w huser hm hwritable huser' hm'
    exact hsep.pages_apart hj hk hne huser hm hwritable huser' hm'
  · have hworld := ((others_simulated j).run ⟨T', hsep⟩ hothers).2
    have halive : (s'.world.slots j).alive = true := slot_alive.2 hj
    exact World.unnoticed halive hworld

/-- The first process and its child. -/
theorem processes_isolated_fork : ∃ s s' child, kernel (fun _ _ => 0) (fun _ => 0) none = .ok (s, some 1) ∧
    SystemStep s s' ∧ 1 ∈ live s' ∧ child ∈ live s' ∧ child ≠ 1 ∧
    ∀ va w, UserPart va → s'.HasPage child va → (s'.lookup child va).perm &&& PTE_W ≠ 0 → UserPart w →
      s'.HasPage 1 w → (s'.lookup child va).pn ≠ (s'.lookup 1 w).pn := by
  obtain ⟨s, s', child, hkernel, -, hstep, -, -, -, hlive, hne⟩ := fork_step
  have hchild : child ∈ live s' := by
    rw [hlive]
    exact Finset.mem_insert_self ..
  have hfirst : 1 ∈ live s' := by
    rw [hlive]
    exact Finset.mem_insert_of_mem (Finset.mem_singleton_self 1)
  exact ⟨s, s', child, hkernel, hstep, hfirst, hchild, hne,
    (processes_isolated hkernel (Relation.ReflTransGen.single hstep)).1 child hchild 1 hfirst hne⟩

/-! ## Forks -/

section Forks

variable {pid addr : Nat} {full : Bool} {slots slots' : Nat → Slot} {p p' : Slot}

/-- A fork that makes no process returns -1. -/
theorem Call.fork_cases (h : Call pid full addr p p') (hintno : p.registers .intno = INT_SYS_FORK) :
    p' = p.returning (-1) := by
  have hother : ∀ n, n ≠ INT_SYS_FORK → ¬ p.registers .intno = n := by
    rintro n hne he
    exact hne (he.symm.trans hintno)
  cases h with
  | getpid hn => exact absurd hn (hother _ (by decide))
  | back hn =>
      rw [hintno] at hn
      exact absurd hn (by decide)
  | refused _ => rfl
  | exit hn => exact absurd hn (hother _ (by decide))
  | kept _ _ => rfl
  | moved hn _ =>
      rw [hintno] at hn
      exact absurd hn (by decide)
  | supplied hn _ => exact absurd hn (hother _ (by decide))
  | killed hn _ => exact absurd hn (hother _ (by decide))
  | denied hn _ => exact absurd hn (hother _ (by decide))
  | granted hn _ => exact absurd hn (hother _ (by decide))
  | mapping hn _ => exact absurd hn (hother _ (by decide))

/-- What a fork does in the machine. -/
theorem Effect.fork_cases (h : Effect pid full addr slots slots')
    (hintno : (slots pid).registers .intno = INT_SYS_FORK) :
    slots' = Function.update slots pid ((slots pid).returning (-1)) ∨
    ∃ child, (slots child).alive = false ∧
      slots' = Function.update (Function.update slots pid ((slots pid).returning child)) child
        { slots child with
          alive := true
          registers := Function.update (slots pid).registers .rax 0
          memory := (slots pid).memory } := by
  cases h with
  | own hcall =>
      rw [hcall.fork_cases hintno]
      exact Or.inl rfl
  | @child child _ hfree => exact Or.inr ⟨child, hfree, rfl⟩

end Forks

/-- The child shares the pages that its parent may only read, and has pages of its own, which were free, where
the parent may write. -/
def PagesCopied (s s' : State) (parent child : Nat) : Prop :=
  ∀ va, UserPart va → s.HasPage parent va →
    if (s.lookup parent va).perm &&& PTE_W = 0 then s'.lookup child va = s.lookup parent va
    else s.pageinfo (s'.lookup child va).pn.toNat = ⟨PO_FREE, 0⟩

section Pages

variable {s s' : State} {T : Nat → Tables} {pid child : Nat} {U : Tables}

/-- A fork that makes a process, seen from before the registers were saved and after their result was. -/
theorem PagesCopied.around {s₁ s₂ : State} (h : PagesCopied s₁ s₂ pid child) (hsame : Alike s s₁)
    (hsame' : Alike s₂ s') : PagesCopied s s' pid child := by
  intro va huser hm
  have hcopied := h va huser ((hsame.hasPage pid va).2 hm)
  rw [hsame.lookup, hsame.pageinfo] at hcopied
  rw [hsame'.lookup]
  exact hcopied

/-- Translations that agree at one address agree on its page. -/
theorem Mapped.lookup_eq {m m' : Mem} {root root' a va : Nat} (h : Mapped m root va) (hpage : page48 a = page48 va)
    (hsame : virtualMemoryLookup m' root' a = virtualMemoryLookup m root a) :
    virtualMemoryLookup m' root' va = virtualMemoryLookup m root va := by
  have h' : Mapped m' root' va := by
    rw [← Mapped.of_page48 hpage, Mapped, hsame]
    exact (Mapped.of_page48 hpage).2 h
  obtain ⟨hpn, hpa, -, hperm⟩ := h.same_page hpage
  obtain ⟨hpn', hpa', -, hperm'⟩ := h'.same_page hpage
  obtain ⟨-, -, hoff, -⟩ := h.same_page rfl
  obtain ⟨-, -, hoff', -⟩ := h'.same_page rfl
  rw [hsame] at hpn' hpa' hperm'
  have hfields : ∀ x y : Vamapping, x.pn = y.pn → x.pa = y.pa → x.perm = y.perm → x = y := by
    rintro ⟨_, _, _⟩ ⟨_, _, _⟩ rfl rfl rfl
    rfl
  apply hfields
  · rw [← hpn', hpn]
  · omega
  · rw [← hperm', hperm]

theorem Separate.pages_copied (h : Separate s T) (hpid : pid ∈ live s) (hf : Forked s s' (live s) T pid child U)
    (hd : Duplicated s s' T pid U) : PagesCopied s s' pid child := by
  intro va huser hm
  have hacc := h.family.accounted
  have hroot : (s'.processes child).pagetable = U.l1 := by rw [hf.made]
  rw [State.HasPage, hacc.root pid hpid] at hm
  rw [State.lookup, State.lookup, hroot, hacc.root pid hpid]
  obtain ⟨pn, perm, -, hperm, heq⟩ := (hacc.space pid hpid).user va huser hm
  have hcases : (virtualMemoryLookup s.mem (T pid).l1 va).perm = 7 ∨
      (virtualMemoryLookup s.mem (T pid).l1 va).perm = 5 := by
    rw [heq]
    exact hperm
  rcases hcases with h7 | h5
  · rw [h7, if_neg (by decide)]
    exact hd.taken va huser h7
  · rw [h5, if_pos (by decide)]
    -- the page of the address is shared
    obtain ⟨hpage, hsame⟩ := huser.page
    apply hm.lookup_eq hsame
    apply hf.shared _ hpage
    rw [(hm.same_page hsame).2.2.2, h5]
    decide

end Pages

/-- A fork that has been handled: the registers were saved, `process_fork` has returned `r`, and the process goes
on with it. -/
structure ForkHandled (s s₁ s₂ s' : State) (reg : Registers) (r : Int) : Prop where
  entered : Entered s s₁ reg
  code : processFork s₁ s₁.current = .ok (s₂, r)
  result : s' = setRax s₂ r
  current : s₂.current = s.current

/-- The call comes back to the process that has made it. -/
theorem Separate.fork_handled {s : State} {T : Nat → Tables} {reg : Registers} (h : Separate s T)
    (howners : OwnersLive s) (hcall : SoftwareInterrupt s reg) (hintno : reg .intno = INT_SYS_FORK)
    (addr : Nat) : ∃ s₁ s₂ s' r, exception s reg addr = .ok (s', some s.current) ∧ ForkHandled s s₁ s₂ s' reg r := by
  have htrap : UserTrap s reg addr := Or.inl hcall
  have hcase : HasCase (reg .intno) := by
    rw [hintno]
    decide
  obtain ⟨s', next, hcode, -⟩ := htrap.exception_follows hcase h.family howners (contained_fork hintno)
  obtain ⟨s₁, s₂, after, he, hdispatch, hresume⟩ := exception_eq_ok hcode
  have hsame := Alike.of_entered he
  have hpid₁ : s₁.current ∈ live s₁ := by
    rw [he.current, hsame.live]
    exact htrap.running
  rw [dispatch_fork hintno] at hdispatch
  obtain ⟨⟨s₃, r⟩, hfork, hpure⟩ := bind_eq_ok.1 hdispatch
  obtain ⟨rfl, rfl⟩ := ok_pair.1 hpure
  -- `process_fork` leaves the slot of its caller alone
  have hkept : s₃.current = s.current ∧ s₃.processes s.current = s₁.processes s.current := by
    rw [← he.current]
    obtain ⟨-, ⟨-, hno⟩ | ⟨child, U, -, hf, -⟩⟩ :=
      processFork_contents (h.alike hsame).family.accounted (fun j hj => (mem_live.1 hj).2) hpid₁ hfork
    · exact ⟨hno.machine.current, hno.processes _ (mem_live.1 hpid₁).2⟩
    · refine ⟨hf.machine.current, hf.processes _ ?_⟩
      intro hchild
      exact (mem_live.1 hpid₁).2 (hchild ▸ hf.slot.1)
  have hrunning : ((setRax s₃ r).processes (setRax s₃ r).current).state = .runnable := by
    show ((setRax s₃ r).processes s₃.current).state = .runnable
    rw [setRax, State.setProc_self, hkept.1, hkept.2, he.process_self]
    exact hcall.running
  obtain ⟨hnext, hs'⟩ := resume_back hrunning hresume
  have hback : next = some s.current := by
    rw [hnext]
    exact congrArg some hkept.1
  rw [hback] at hcode
  exact ⟨s₁, s₃, s', r, hcode, he, hfork, hs', hkept.1⟩

/-- `fork` in every state of a contained run: the call comes back to the process that has made it, and in the
machine it either does nothing but return -1, or it starts a process in a free slot, with the registers of the
caller but 0 as its result, the memory of the caller in the user part, and pages of its own where the caller may
write there. -/
theorem fork_duplicates {bytes : Nat → Nat → UInt8} {m : Mem} {command : Option String} {next : Option Nat}
    {s s' : State} (hboot : kernel bytes m command = .ok (s, next))
    (hrun : Relation.ReflTransGen SystemStep s s') {reg : Registers} (h : SoftwareInterrupt s' reg)
    (hintno : reg .intno = INT_SYS_FORK) (addr : Nat) {p : Slot}
    (hp : p = { s'.slot s'.current with registers := reg }) :
    ∃ s'', exception s' reg addr = .ok (s'', some s'.current) ∧ s''.current = s'.current ∧
      (s''.slot = Function.update s'.slot s'.current (p.returning (-1)) ∨
        ∃ child, 0 < child ∧ child < NPROC ∧ child ∉ live s' ∧ PagesCopied s' s'' s'.current child ∧
          s''.slot = Function.update (Function.update s'.slot s'.current (p.returning child)) child
            { s'.slot child with
              alive := true
              registers := Function.update reg .rax 0
              memory := p.memory }) := by
  obtain ⟨T, hbooted⟩ := booted_of_kernel hboot
  obtain ⟨-, howners⟩ := hbooted.family.system_run hbooted.isolated.ownersLive hrun
  obtain ⟨⟨T', hsep⟩, -⟩ := system_simulated.run ⟨T, hbooted.separate⟩ hrun
  have htrap : UserTrap s' reg addr := Or.inl h
  have hpid := htrap.running
  obtain ⟨s₁, s₂, s'', r, hcode, hfork⟩ := hsep.fork_handled howners h hintno addr
  obtain ⟨-, hstep, -⟩ := hsep.exception_refines htrap (contained_fork hintno) hcode
  -- what the kernel has done with pages
  have hsame := Alike.of_entered hfork.entered
  have hsep₁ := hsep.alike hsame
  have hpid₁ : s₁.current ∈ live s₁ := by
    rw [hfork.entered.current, hsame.live]
    exact hpid
  obtain ⟨hframe, hcases⟩ :=
    processFork_contents hsep₁.family.accounted (fun j hj => (mem_live.1 hj).2) hpid₁ hfork.code
  have hpicked : Alike s₂ s'' := by
    rw [hfork.result]
    exact Alike.setRax s₂ r
  have hcurrent : s''.current = s'.current := by
    rw [hfork.result]
    exact hfork.current
  refine ⟨s'', hcode, hcurrent, ?_⟩
  -- what the machine has done with slots
  have hp' : s'.world.saved reg s'.world.current = p := by
    rw [hp]
    exact Function.update_self ..
  have heffect := hstep.trap_effect.fork_cases (by rw [hp', hp]; exact hintno)
  rw [hp'] at heffect
  rcases heffect with hslots | ⟨child, hidle, hslots⟩
  · left
    show s''.world.slots = _
    rw [hslots, World.saved, Function.update_idem]
    rfl
  · right
    have hne : child ≠ s'.current := by
      rintro rfl
      rw [show s'.world.saved reg s'.current = p from hp', hp, slot_of_live hpid] at hidle
      cases hidle
    have hold : s'.world.saved reg child = s'.slot child := World.saved_other reg hne
    rw [hold] at hidle hslots
    have hfree : child ∉ live s' := by
      rw [← slot_alive, hidle]
      exact Bool.noConfusion
    have hmade : child ∈ live s'' := by
      rw [← slot_alive]
      show (s''.world.slots child).alive = true
      rw [hslots, Function.update_self]
    have hall : s''.slot = Function.update (Function.update s'.slot s'.current (p.returning child)) child
        { s'.slot child with
          alive := true
          registers := Function.update reg .rax 0
          memory := p.memory } := by
      show s''.world.slots = _
      rw [hslots, World.saved, Function.update_idem, hp]
      rfl
    rw [hpicked.live] at hmade
    rcases hcases with ⟨-, hno⟩ | ⟨child', U, -, hf, hd⟩
    · rw [(hsep₁.notForked hframe hno).2, hsame.live] at hmade
      exact absurd hmade hfree
    · rw [hf.live_eq, hsame.live] at hmade
      obtain rfl := (Finset.mem_insert.1 hmade).resolve_right hfree
      have hcopied := (hsep₁.pages_copied hpid₁ hf hd).around hsame hpicked
      rw [hfork.entered.current] at hcopied
      exact ⟨child, hf.slot.2.1, hf.slot.2.2, hfree, hcopied, hall⟩

/-- The first call of the first process is a fork. The child has the memory of its parent, and 0 as its result. -/
theorem fork_duplicates_first : ∃ s s' child, kernel (fun _ _ => 0) (fun _ => 0) none = .ok (s, some 1) ∧
    exception s (callRegisters INT_SYS_FORK) 0 = .ok (s', some 1) ∧
    (s'.slot 1).memory = (s.slot 1).memory ∧ child ∉ live s ∧ (s'.slot child).alive = true ∧
    (s'.slot child).registers .rax = 0 ∧ (s'.slot child).memory = (s.slot 1).memory ∧
    PagesCopied s s' 1 child := by
  obtain ⟨s, T, hkernel, hfresh, hone, htrap⟩ := kernel_one
  have hcurrent := hfresh.booted.current
  have hcall : SoftwareInterrupt s (callRegisters INT_SYS_FORK) :=
    softwareInterrupt_of_current hcurrent (hfresh.booted.runnable 1 hfresh.booted.first) (by decide) (by decide)
  obtain ⟨s', hcode, -, hcases⟩ := fork_duplicates hkernel Relation.ReflTransGen.refl hcall rfl 0 rfl
  rw [hcurrent] at hcode hcases
  rcases hcases with hslots | ⟨child, -, -, hfree, hpages, hslots⟩
  · -- there is room for a child, and it would be alive
    obtain ⟨s₁, s₂, s₃, child, U, hfork, hdone, -⟩ := hfresh.fork_done hone htrap rfl
    obtain ⟨rfl, -⟩ := ok_pair.1 (hcode.symm.trans hfork)
    obtain ⟨hidle, -, hlt⟩ := hdone.forked.slot
    have hfree : child ∉ live s := by
      rw [← (Alike.of_entered hdone.entered).live]
      exact fun hmem => (mem_live.1 hmem).2 hidle
    have hne : child ≠ 1 := by
      rintro rfl
      exact hfree hfresh.booted.first
    have hmade : child ∈ live s' := by
      rw [hdone.alike.live]
      apply mem_live_of_runnable hlt
      rw [hdone.forked.made]
    rw [← slot_alive, hslots, Function.update_of_ne hne, slot_alive] at hmade
    exact absurd hmade hfree
  · have hne : 1 ≠ child := by
      rintro rfl
      exact hfree hfresh.booted.first
    refine ⟨s, s', child, hkernel, hcode, ?_, hfree, ?_, ?_, ?_, hpages⟩
    · rw [hslots, Function.update_of_ne hne, Function.update_self]
      rfl
    · rw [hslots, Function.update_self]
    · rw [hslots, Function.update_self]
      rfl
    · rw [hslots, Function.update_self]

end MemoryManagement.Kernel
