import MemoryManagement.Kernel.Families
import MemoryManagement.Kernel.Returns

/-!
# The owners of shared pages

A page that a family of processes shares has one owner, the process that it was allocated for. When the
owner leaves first, the page keeps an owner that is free, and the last check of `check_virtual_memory`
panics over it at the next exception. `owners_active_iff` says that this is the only way: in a run in which
no process leaves a page of its behind, the check holds in every state, and whether it holds after the next
trap is decided by whether that trap leaves one.
-/

set_option autoImplicit false

namespace MemoryManagement.Kernel

open MemoryManagement.Library.ByteMemory

/-- The trap moves no break below the user part, and if it ends the running process, nobody else maps a
page of that process. -/
def Orderly (s : State) (reg : Registers) (addr : Nat) : Prop :=
  KeepsHigh s reg ∧ (Leaving s reg addr → NoneShared s)

/-- The trap is `fork` or `exit`. -/
def ForksOrExits (_ : State) (reg : Registers) (_ : Nat) : Prop :=
  reg .intno = INT_SYS_FORK ∨ reg .intno = INT_SYS_EXIT

/-! ## Orderly runs -/

section Runs

variable {s s' : State} {T : Nat → Tables} {reg : Registers} {addr : Nat}

/-- The check holds after a trap if and only if the trap has left no page behind. -/
theorem FamilyTrap.ownersActive_iff (h : FamilyTrap s reg addr) (hfamily : Family s T)
    (howners : OwnersLive s) (hhigh : KeepsHigh s reg) :
    ∃ s' next, exception s reg addr = .ok (s', next) ∧
      (OwnersActive s' ↔ (Leaving s reg addr → NoneShared s)) := by
  obtain ⟨s', next, hcode⟩ := h.exception_ok hfamily howners hhigh
  have hfollows := h.exception_kept hfamily hhigh hcode
  refine ⟨s', next, hcode, fun hactive hleaving => ?_, fun hnone => ?_⟩
  · by_contra hshared
    exact hfollows.active howners hactive ⟨hleaving, hshared⟩
  · obtain ⟨T', hfamily'⟩ := hfollows.family
    apply hfamily'.accounted.ownersActive
    apply hfollows.owners howners
    rintro ⟨hleaving, hshared⟩
    exact hshared (hnone hleaving)

/-- The owners are right after an orderly step. -/
theorem Family.orderly_step (h : Family s T) (howners : OwnersLive s) (hstep : FamilyStep Orderly s s') :
    (∃ T', Family s' T') ∧ OwnersLive s' := by
  cases hstep with
  | changes hchanges => exact ⟨⟨T, h.currentChanges hchanges⟩, howners⟩
  | trap htrap hcareful hcode =>
      have hfollows := htrap.exception_kept h hcareful.1 hcode
      refine ⟨hfollows.family, hfollows.owners howners ?_⟩
      rintro ⟨hleaving, hshared⟩
      exact hshared (hcareful.2 hleaving)

theorem Family.orderly_run (h : Family s T) (howners : OwnersLive s)
    (hrun : Relation.ReflTransGen (FamilyStep Orderly) s s') : (∃ T', Family s' T') ∧ OwnersLive s' := by
  induction hrun with
  | refl => exact ⟨⟨T, h⟩, howners⟩
  | tail _ hstep ih =>
      obtain ⟨⟨T₁, h₁⟩, howners₁⟩ := ih
      exact h₁.orderly_step howners₁ hstep

end Runs

/-! ## A child that outlives its parent -/

section Forked

variable {s s' : State} {T : Nat → Tables} {parent child : Nat} {U : Tables}

/-- The child maps the read-only pages that its parent owns. -/
theorem Forked.shares (h : Forked s s' (live s) T parent child U) (hparent : parent ∈ live s)
    (hcurrent : s'.current = parent) {va : Nat} (hva : va ∈ userPages)
    (hperm : (virtualMemoryLookup s.mem (T parent).l1 va).perm = 5)
    (hused : 0 < uses s.mem (T parent) (virtualMemoryLookup s.mem (T parent).l1 va).pn.toNat)
    (howner : (s.pageinfo (virtualMemoryLookup s.mem (T parent).l1 va).pn.toNat).owner = parent) :
    ¬ NoneShared s' := by
  intro hnone
  have huser := (mem_userPages.1 hva).2
  have hlookup := h.shared va hva (by rw [hperm]; decide)
  have hroot : (s'.processes child).pagetable = U.l1 := by rw [h.made]
  have hidle : child ∉ live s := fun hmem => (mem_live.1 hmem).2 h.slot.1
  have hchild : child ∈ live s' := by
    rw [h.live_eq]
    exact Finset.mem_insert_self ..
  have hne : child ≠ s'.current := by
    rintro rfl
    rw [hcurrent] at hidle
    exact hidle hparent
  have hmapped : Mapped s'.mem U.l1 va := by
    intro hunmapped
    rw [hlookup] at hunmapped
    rw [hunmapped] at hperm
    exact absurd hperm (by decide)
  obtain ⟨q, hq⟩ : ∃ q, q = (virtualMemoryLookup s.mem (T parent).l1 va).pn.toNat := ⟨_, rfl⟩
  rw [← hq] at hused howner
  -- the page is in use, by the child as well
  have hT : Function.update T child U child = U := Function.update_self ..
  have hord : Ordinary q := by
    have hspace := h.accounted.space child (Finset.mem_insert_self ..)
    rw [hT] at hspace
    rw [hq, ← hlookup]
    exact (hspace.user va huser hmapped).pn.1
  have hcount : (s'.pageinfo q).refcount ≠ 0 := by
    have hpos : 0 < references s'.mem U.l1 userPages q := by
      apply references_pos.2
      refine ⟨va, huser, hmapped, ?_⟩
      rw [hlookup, hq]
    have hle : uses s'.mem (Function.update T child U child) q ≤
        refs s'.mem (insert child (live s)) (Function.update T child U) ∅ q :=
      uses_le_refs (Finset.mem_insert_self ..)
    have hcounted := h.accounted.counted q hord
    rw [hT, uses] at hle
    omega
  have hown : (s'.pageinfo q).owner = parent := by
    rcases h.owners q hord hcount with ⟨-, hsame⟩ | ⟨-, hunused⟩
    · rw [hsame]
      exact howner
    · have hparentUse := hunused parent hparent fun e => hidle (e ▸ hparent)
      omega
  apply hnone child hchild hne va huser
  · rw [State.HasPage, hroot]
    exact hmapped
  · rw [State.lookup, hroot, hlookup, ← hq, hown, hcurrent]

end Forked

/-- A process maps no more pages of its user part than there are pages in use. -/
theorem Accounted.mapped_le {s : State} {A : Finset Nat} {T : Nat → Tables} {pid k : Nat}
    (h : Accounted s A T ∅) (hpid : pid ∈ A) (hfree : FreeFrom k s.pageinfo) :
    userPages.countP (fun va => Mapped s.mem (T pid).l1 va) ≤ k := by
  have hspace := h.space pid hpid
  obtain ⟨mapped, hmapped⟩ : ∃ mapped, mapped = userPages.filter
      fun va => decide (Mapped s.mem (T pid).l1 va) := ⟨_, rfl⟩
  have hmem : ∀ va ∈ mapped, va ∈ userPages ∧ Mapped s.mem (T pid).l1 va := by
    intro va hva
    rw [hmapped, List.mem_filter, decide_eq_true_iff] at hva
    exact hva
  have hnodup : (mapped.map fun va => (virtualMemoryLookup s.mem (T pid).l1 va).pn.toNat).Nodup := by
    apply List.Nodup.map_on
    · intro a ha b hb hpn
      obtain ⟨ha, hma⟩ := hmem a ha
      obtain ⟨hb, hmb⟩ := hmem b hb
      exact hspace.page_inj ha hb hma hmb hpn
    · rw [hmapped]
      exact nodup_userPages.filter _
  have hsub : (mapped.map fun va => (virtualMemoryLookup s.mem (T pid).l1 va).pn.toNat) ⊆ List.range k := by
    intro q hq
    obtain ⟨va, hva, rfl⟩ := List.mem_map.1 hq
    obtain ⟨hva, hm⟩ := hmem va hva
    have huser := (mem_userPages.1 hva).2
    have hord := (hspace.user va huser hm).pn.1
    rw [List.mem_range]
    by_contra hge
    -- a page from `k` on is not used
    have hinfo := hfree _ (Nat.le_of_not_lt hge) hord
    have hunused := (uses_eq_zero.1 ((h.unused hord (by rw [hinfo])).1 pid hpid)).1
    have hpos := references_pos.2 ⟨va, huser, hm, rfl⟩
    omega
  have hle := (List.subperm_of_subset hnodup hsub).length_le
  rw [List.length_map, List.length_range] at hle
  rw [List.countP_eq_length_filter, ← hmapped]
  exact hle

/-- `fork` has come back to its caller: the registers were saved in `s₁`, and the child was made in `s₂`. -/
structure ForkDone (s s₁ s₂ s' : State) (T : Nat → Tables) (reg : Registers) (child : Nat) (U : Tables) :
    Prop where
  entered : Entered s s₁ reg
  forked : Forked s₁ s₂ (live s₁) T s.current child U
  alike : Alike s₂ s'
  current : s'.current = s.current
  running : (s'.processes s.current).state = .runnable
  others : ∀ j, j ≠ s.current → s'.processes j = s₂.processes j

/-- With room for a child, `fork` makes one. -/
theorem FamilyTrap.fork_done {s : State} {T : Nat → Tables} {reg : Registers} {addr k : Nat}
    (h : FamilyTrap s reg addr) (hintno : reg .intno = INT_SYS_FORK) (hfamily : Family s T)
    (howners : OwnersLive s) (hk : 0 < k) (hle : 2 * k + 5 < 0x40) (hfree : FreeFrom k s.pageinfo)
    (hslot : findFreePid s ≠ none) :
    ∃ s₁ s₂ s' child U, exception s reg addr = .ok (s', some s.current) ∧
      ForkDone s s₁ s₂ s' T reg child U ∧ (∃ T', Family s' T') ∧ OwnersLive s' := by
  have hhigh : KeepsHigh s reg := by
    apply KeepsHigh.of_other
    · rw [hintno]
      decide
    · rw [hintno]
      decide
  have hstays : ¬ Leaving s reg addr := by
    apply not_leaving
    · rw [hintno]
      decide
    · rw [hintno]
      decide
  obtain ⟨s', next, hcode⟩ := h.exception_ok hfamily howners hhigh
  have hfollows := h.exception_kept hfamily hhigh hcode
  obtain ⟨s₁, s₃, after, he, hdispatch, hresume⟩ := exception_eq_ok hcode
  have hsame := Alike.of_entered he
  have hfamily₁ := hsame.family hfamily
  have hparent : s.current ∈ Kernel.live s₁ := by
    rw [hsame.live]
    exact h.live
  have hfree₁ : FreeFrom k s₁.pageinfo := by
    rw [hsame.pageinfo]
    exact hfree
  have hslot₁ : findFreePid s₁ ≠ none := by
    intro hnone
    apply hslot
    apply List.find?_eq_none.2
    intro pid hpid hidle
    rw [decide_eq_true_iff] at hidle
    have hbusy := List.find?_eq_none.1 hnone pid hpid
    rw [decide_eq_true_iff] at hbusy
    exact hbusy ((hsame.free pid).2 hidle)
  obtain ⟨hcases, hroom⟩ := processFork_spec hfamily₁.accounted (fun j hj => (mem_live.1 hj).2) hparent
  have hcount := hfamily₁.accounted.mapped_le hparent hfree₁
  obtain ⟨s₂, child, hfork⟩ := hroom k hk (by omega) hfree₁ hslot₁
  obtain ⟨U, hforked⟩ : ∃ U, Forked s₁ s₂ (Kernel.live s₁) T s.current child U := by
    rcases hcases with ⟨s₃, hfailed, -⟩ | ⟨s₃, child₃, U, hmade, hforked⟩
    · rw [hfork] at hfailed
      have hneg := (ok_pair.1 hfailed).2
      omega
    · rw [hfork] at hmade
      obtain ⟨rfl, hchild⟩ := ok_pair.1 hmade
      obtain rfl := Int.natCast_inj.1 hchild
      exact ⟨U, hforked⟩
  have hcurrent₂ : s₂.current = s.current := hforked.machine.current.trans he.current
  -- the parent comes back
  rw [dispatch_fork hintno, he.current, hfork] at hdispatch
  obtain ⟨rfl, rfl⟩ := ok_pair.1 hdispatch
  have hne : s.current ≠ child := by
    intro e
    have hidle := hforked.slot.1
    rw [← e, he.process_self, h.running] at hidle
    cases hidle
  have hself : (setRax s₂ child).processes s₂.current = _ := State.setProc_self ..
  have hrunning₃ : ((setRax s₂ child).processes s₂.current).state = .runnable := by
    rw [hself, hcurrent₂, hforked.processes s.current hne, he.process_self]
    exact h.running
  obtain ⟨rfl, rfl⟩ := resume_back hrunning₃ hresume
  refine ⟨s₁, s₂, _, child, U, ?_, ?_, hfollows.family,
    hfollows.owners howners fun horphans => hstays horphans.1⟩
  · rw [hcode]
    exact congrArg (fun pid => Except.ok (_, some pid)) hcurrent₂
  · refine ⟨he, hforked, ?_, hcurrent₂, ?_, fun j hj => ?_⟩
    · exact Alike.setProc s₂ Iff.rfl rfl rfl
    · rw [← hcurrent₂]
      exact hrunning₃
    · exact State.setProc_other s₂ _ (by rw [hcurrent₂]; exact hj)

/-- A process that owns a read-only page shares it by `fork`. -/
theorem ForkDone.shares {s s₁ s₂ s' : State} {T : Nat → Tables} {reg : Registers} {child va : Nat}
    {U : Tables} (h : ForkDone s s₁ s₂ s' T reg child U) (hparent : s.current ∈ live s)
    (hva : va ∈ userPages) (hperm : (virtualMemoryLookup s.mem (T s.current).l1 va).perm = 5)
    (howner : (s.pageinfo (virtualMemoryLookup s.mem (T s.current).l1 va).pn.toNat).owner = s.current) :
    ¬ NoneShared s' := by
  have hsame := Alike.of_entered h.entered
  have hcurrent₂ : s₂.current = s.current := h.forked.machine.current.trans h.entered.current
  rw [h.alike.noneShared (h.current.trans hcurrent₂.symm)]
  rw [← hsame.mem] at hperm howner
  rw [← hsame.pageinfo] at howner
  rw [← hsame.live] at hparent
  have hm : Mapped s₁.mem (T s.current).l1 va := by
    intro hunmapped
    rw [hunmapped] at hperm
    exact absurd hperm (by decide)
  have hpos := references_pos.2 ⟨va, (mem_userPages.1 hva).2, hm, rfl⟩
  apply h.forked.shares hparent hcurrent₂ hva hperm _ howner
  rw [uses]
  exact Nat.lt_of_lt_of_le hpos (Nat.le_add_right _ _)

/-! ## The first process forks and exits -/

section Failing

variable {s s' : State} {T : Nat → Tables}

theorem familyTrap_of_current {intno : Nat} (hcurrent : s.current = 1)
    (hrunning : (s.processes 1).state = .runnable) (hwords : intno < 2 ^ 64)
    (hevent : intno ∈ [INT_SYS_FORK, INT_SYS_BRK, INT_SYS_SBRK, INT_SYS_EXIT, INT_SYS_YIELD,
      INT_SYS_GETPID, INT_TIMER]) : FamilyTrap s (callRegisters intno) 0 := by
  refine ⟨?_, ?_, callRegisters_lt hwords, Or.inl hevent⟩
  · rw [hcurrent]
    decide
  · rw [hcurrent]
    exact hrunning

/-- The first process has room to fork, and its child shares its read-only pages. -/
theorem Fresh.fork_done (h : Fresh s T) (hlive : live s = {1}) {reg : Registers} {addr : Nat}
    (htrap : FamilyTrap s reg addr) (hintno : reg .intno = INT_SYS_FORK) :
    ∃ s₁ s₂ s' child U, exception s reg addr = .ok (s', some 1) ∧
      ForkDone s s₁ s₂ s' T reg child U ∧ (∃ T', Family s' T') ∧ OwnersLive s' ∧ ¬ NoneShared s' := by
  have hiso := h.booted.isolated
  have hcurrent := h.booted.current
  have hslot : findFreePid s ≠ none := by
    intro hnone
    have htwo := List.find?_eq_none.1 hnone 2 (by decide)
    rw [decide_eq_true_iff] at htwo
    apply htwo
    rw [h.booted.unused 2 (by rw [hlive]; decide)]
    rfl
  -- the text page of process 1 is its own, so that the child has a page of somebody else
  obtain ⟨va, hva, hperm⟩ := h.readOnly 1 h.booted.first
  have hm : Mapped s.mem (T 1).l1 va := by
    intro hunmapped
    rw [hunmapped] at hperm
    exact absurd hperm (by decide)
  have hpos := references_pos.2 ⟨va, (mem_userPages.1 hva).2, hm, rfl⟩
  have howner := hiso.info_of_uses h.booted.first (Nat.lt_of_lt_of_le hpos (Nat.le_add_right _ _))
  obtain ⟨s₁, s₂, s', child, U, hcode, hdone, hfamily, howners⟩ := htrap.fork_done hintno h.booted.family
    hiso.ownersLive (by decide : 0 < 19) (by decide) h.free hslot
  rw [hcurrent] at hcode
  refine ⟨s₁, s₂, s', child, U, hcode, hdone, hfamily, howners, ?_⟩
  rw [← hcurrent] at hperm howner
  exact hdone.shares htrap.live hva hperm (by rw [howner])

/-- The kernel starts one process unless it is told otherwise. -/
theorem kernel_one : ∃ s T, kernel (fun _ _ => 0) (fun _ => 0) none = .ok (s, some 1) ∧ Fresh s T ∧
    live s = {1} ∧ FamilyTrap s (callRegisters INT_SYS_FORK) 0 := by
  obtain ⟨s, T, hkernel, hfresh, hlive⟩ := kernel_fresh (fun _ _ => 0) (fun _ => 0) none
  refine ⟨s, T, hkernel, hfresh, ?_, ?_⟩
  · ext pid
    rw [hlive, Finset.mem_singleton]
    exact List.mem_singleton
  · exact familyTrap_of_current hfresh.booted.current (hfresh.booted.runnable 1 hfresh.booted.first)
      (by decide) (by decide)

/-- With an orphaned page there, the kernel panics at the next exception that is not a fault of its own. -/
theorem Family.orphan_panics {reg : Registers} (h : Family s T) (horphan : ¬ OwnersActive s)
    (hchecked : reg .intno ≠ INT_PAGEFAULT ∧ reg .intno ≠ INT_GPF) (cr2 : Nat) :
    exception s reg cr2 = .error .assertion := by
  obtain ⟨s₁, hs₁⟩ : ∃ s₁ : State, s₁ =
      s.setProc s.current { s.processes s.current with registers := reg } := ⟨_, rfl⟩
  have hsame : Alike s s₁ := by
    rw [hs₁]
    exact Alike.setProc s Iff.rfl rfl rfl
  have hkernel : KernelSpace s₁.mem := (hsame.family h).accounted.kernel
  have hbad : ¬ VirtualMemoryOk s₁ := fun hok => horphan (hsame.ownersActive.1 hok.2.2.2.2)
  have hchecks : checks s₁ reg = .error .assertion := by
    rw [checks, if_pos (Or.inl hchecked), checkVirtualMemory, assert, if_neg hbad]
    rfl
  rw [exception, ← hs₁]
  show (setPagetable s₁.mem kernelPagetable >>= fun _ => checks s₁ reg >>= _) = _
  rw [hkernel.setPagetable_ok, hchecks]
  rfl

end Failing

/-! ## The check of the owners -/

/-- In every state of an orderly run the last check of `check_virtual_memory` holds, and the next trap is
handled. After it the check holds if and only if the trap was orderly, too. -/
theorem owners_active_iff {bytes : Nat → Nat → UInt8} {m : Mem} {command : Option String}
    {next : Option Nat} {s s' : State} (hboot : kernel bytes m command = .ok (s, next))
    (hrun : Relation.ReflTransGen (FamilyStep Orderly) s s') :
    OwnersActive s' ∧ ∀ reg addr, FamilyTrap s' reg addr → KeepsHigh s' reg →
      ∃ s'' next', exception s' reg addr = .ok (s'', next') ∧
        (OwnersActive s'' ↔ (Leaving s' reg addr → NoneShared s')) := by
  obtain ⟨T, hbooted⟩ := booted_of_kernel hboot
  obtain ⟨⟨T', hfamily⟩, howners⟩ := hbooted.family.orderly_run hbooted.isolated.ownersLive hrun
  refine ⟨hfamily.accounted.ownersActive howners, fun reg addr htrap hhigh => ?_⟩
  exact htrap.ownersActive_iff hfamily howners hhigh

/-- The first process forks. -/
theorem owners_active_iff_fork : ∃ s s', kernel (fun _ _ => 0) (fun _ => 0) none = .ok (s, some 1) ∧
    Relation.ReflTransGen (FamilyStep Orderly) s s' ∧ ¬ NoneShared s' ∧ OwnersActive s' ∧
    ∀ reg addr, FamilyTrap s' reg addr → KeepsHigh s' reg →
      ∃ s'' next', exception s' reg addr = .ok (s'', next') ∧
        (OwnersActive s'' ↔ (Leaving s' reg addr → NoneShared s')) := by
  obtain ⟨s, T, hkernel, hfresh, hone, htrap⟩ := kernel_one
  obtain ⟨-, -, s', -, -, hcode, -, -, -, hshared⟩ := hfresh.fork_done hone htrap rfl
  have horderly : Orderly s (callRegisters INT_SYS_FORK) 0 := by
    refine ⟨KeepsHigh.of_other (by decide) (by decide), fun hleaving => ?_⟩
    exact absurd hleaving (not_leaving (by decide) (by decide))
  have hrun : Relation.ReflTransGen (FamilyStep Orderly) s s' :=
    Relation.ReflTransGen.single (FamilyStep.trap htrap horderly hcode)
  exact ⟨s, s', hkernel, hrun, hshared, owners_active_iff hkernel hrun⟩

/-- The first process forks and exits: the child still maps a page that belongs to nobody, and the next
exception panics. -/
theorem parent_leaves_first : ∃ s s', kernel (fun _ _ => 0) (fun _ => 0) none = .ok (s, some 1) ∧
    Relation.ReflTransGen (FamilyStep ForksOrExits) s s' ∧ ¬ OwnersActive s' ∧
    ∀ reg cr2, reg .intno ≠ INT_PAGEFAULT ∧ reg .intno ≠ INT_GPF → exception s' reg cr2 = .error .assertion := by
  obtain ⟨s, T, hkernel, hfresh, hone, htrap⟩ := kernel_one
  obtain ⟨r₁, r₂, s₁, child, U, hfork, hdone, ⟨T₁, hfamily₁⟩, howners₁, hshared⟩ := hfresh.fork_done hone htrap rfl
  have hcurrent₁ : s₁.current = 1 := hdone.current.trans hfresh.booted.current
  have hrunning₁ : (s₁.processes 1).state = .runnable := by
    rw [← hfresh.booted.current]
    exact hdone.running
  have htrap₁ : FamilyTrap s₁ (callRegisters INT_SYS_EXIT) 0 :=
    familyTrap_of_current hcurrent₁ hrunning₁ (by decide) (by decide)
  have hhigh₁ : KeepsHigh s₁ (callRegisters INT_SYS_EXIT) := KeepsHigh.of_other (by decide) (by decide)
  obtain ⟨s', next, hexit, hiff⟩ := htrap₁.ownersActive_iff hfamily₁ howners₁ hhigh₁
  have horphan : ¬ OwnersActive s' := fun hactive => hshared (hiff.1 hactive (Or.inl rfl))
  obtain ⟨T', hfamily'⟩ := (htrap₁.exception_kept hfamily₁ hhigh₁ hexit).family
  refine ⟨s, s', hkernel, ?_, horphan, fun reg cr2 hchecked => hfamily'.orphan_panics horphan hchecked cr2⟩
  have hfirst : FamilyStep ForksOrExits s s₁ := FamilyStep.trap htrap (Or.inl rfl) hfork
  exact (Relation.ReflTransGen.single hfirst).tail (FamilyStep.trap htrap₁ (Or.inr rfl) hexit)

end MemoryManagement.Kernel
