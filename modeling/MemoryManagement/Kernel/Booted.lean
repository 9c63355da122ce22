import MemoryManagement.Kernel.Fork
import MemoryManagement.Kernel.Isolation
import MemoryManagement.Kernel.Segments

/-!
# The state after booting

`kernel` reaches user mode, whatever the memory held and whatever the bytes of the images are, and the
processes that it has set up are isolated from each other (`kernel_spec`). Each `process_setup` adds a
process to the isolated ones (`Starting.processSetup_spec`).
-/

set_option autoImplicit false

namespace MemoryManagement.Kernel

open MemoryManagement.Library.ByteMemory
open MemoryManagement.Library.RefCount

/-! ## A process joins -/

/-- A process that has taken its pages from the free ones joins the isolated ones. -/
theorem Isolated.joined {s s' : State} {T : Nat → Tables} {pid : Nat} {U : Tables} (h : Isolated s T)
    (hnew : pid ∉ live s) (hlive : live s' = insert pid (live s))
    (hacc : Accounted s' (live s') (Function.update T pid U) ∅) (htaking : Taking s s' pid)
    (hothers : ∀ j ∈ live s, ∀ va,
      virtualMemoryLookup s'.mem (T j).l1 va = virtualMemoryLookup s.mem (T j).l1 va)
    (hbreaks : ∀ j ∈ live s', BreakBounds (s'.processes j)) : Isolated s' (Function.update T pid U) := by
  have hpid : pid ∈ live s' := by
    rw [hlive]
    exact Finset.mem_insert_self pid _
  -- the address spaces that there were have not changed
  have hold : ∀ j ∈ live s, j ≠ pid ∧ ∀ q, uses s'.mem (Function.update T pid U j) q = uses s.mem (T j) q := by
    intro j hj
    have hne : j ≠ pid := fun e => hnew (e ▸ hj)
    refine ⟨hne, fun q => ?_⟩
    rw [Function.update_of_ne hne, uses, uses, references_congr fun va _ => hothers j hj va]
  have hsplit : ∀ j ∈ live s', j ≠ pid → j ∈ live s := by
    intro j hj hne
    rw [hlive, Finset.mem_insert] at hj
    exact hj.resolve_left hne
  refine ⟨hacc, fun q hq hcount => ?_, hbreaks⟩
  rcases htaking q with hsame | ⟨hfree, htaken⟩
  · -- the page belongs to the same process as before, and the new process does not use it
    rw [hsame] at hcount ⊢
    obtain ⟨j, hj, howner, hrefs, halone⟩ := h.refcount_eq hq hcount
    obtain ⟨hne, huses⟩ := hold j hj
    have hj' : j ∈ live s' := by
      rw [hlive]
      exact Finset.mem_insert_of_mem hj
    have hunused : uses s'.mem (Function.update T pid U pid) q = 0 := by
      have hcounted := hacc.counted q hq
      rw [hsame, hrefs, ← huses q] at hcounted
      have hleave := refs_leave (m := s'.mem) (T := Function.update T pid U) (P := ∅) (q := q) hpid
      have hle : uses s'.mem (Function.update T pid U j) q ≤
          refs s'.mem ((live s').erase pid) (Function.update T pid U) ∅ q :=
        uses_le_refs (Finset.mem_erase.2 ⟨hne, hj'⟩)
      omega
    refine ⟨j, hj', howner, fun i hi hij => ?_⟩
    by_cases hip : i = pid
    · rw [hip]
      exact hunused
    · have hi' := hsplit i hi hip
      rw [(hold i hi').2]
      exact halone i hi' hij
  · -- the page was free: only the new process uses it
    rw [htaken]
    refine ⟨pid, hpid, rfl, fun i hi hip => ?_⟩
    have hi' := hsplit i hi hip
    rw [(hold i hi').2]
    exact (h.accounted.unused hq (by rw [hfree])).1 i hi'

/-! ## Setting up processes -/

/-- The kernel is setting up processes: those that there are are isolated and runnable, the other slots are
as at the start, and the pages from page `k` on are free. -/
structure Starting (s : State) (T : Nat → Tables) (k : Nat) : Prop where
  isolated : Isolated s T
  runnable : ∀ pid ∈ live s, (s.processes pid).state = .runnable
  unused : ∀ pid, pid ∉ live s → s.processes pid = zeroProc
  free : FreeFrom k s.pageinfo

theorem starting_bootState {m : Mem} (h : KernelSpace m) (T : Nat → Tables) :
    Starting (bootState m) T 1 := by
  have hlive : live (bootState m) = ∅ := by
    rw [Finset.eq_empty_iff_forall_notMem]
    intro pid hpid
    exact (mem_live.1 hpid).2 rfl
  constructor
  · constructor
    · rw [hlive]
      exact accounted_bootState h T
    · intro q hq hcount
      exfalso
      apply hcount
      show (pageinfoInit q).refcount = 0
      rw [pageinfoInit_of_ordinary hq]
    · rw [hlive]
      exact fun pid hpid => absurd hpid (Finset.notMem_empty pid)
  · rw [hlive]
    exact fun pid hpid => absurd hpid (Finset.notMem_empty pid)
  · exact fun _ _ => rfl
  · exact freeFrom_pageinfoInit 1

namespace Accounted

variable {s : State} {A : Finset Nat} {T : Nat → Tables} {pid k : Nat}

/-- The stack of a new process: a fresh page at the end of its address space. -/
theorem processSetupStack_spec (h : Accounted s A T ∅) (hpid : pid ∈ A)
    (hunmapped : ¬ Mapped s.mem (T pid).l1 (MEMSIZE_VIRTUAL - PAGESIZE)) (hk : 0 < k) (hle : k + 1 ≤ 0x40)
    (hfree : FreeFrom k s.pageinfo) :
    ∃ s' pn, processSetupStack s pid = .ok (s'.setProc pid { s'.processes pid with
        registers := Function.update (s'.processes pid).registers .rsp MEMSIZE_VIRTUAL }) ∧
      Supplied s s' A T pid 767 pn ∧ FreeFrom (k + 1) s'.pageinfo := by
  have hord : Ordinary k := ordinary_of_lt hk (by omega)
  obtain ⟨pn, s₁, -, hcode, halloc, hfree₁⟩ := h.palloc_succeeds (h.pids pid hpid).2 hord hfree
  have hroot : (s₁.processes pid).pagetable = (T pid).l1 := by
    rw [halloc.only.processes]
    exact h.root pid hpid
  obtain ⟨m', hmap, hsupplied, -⟩ := h.supply (i := 767) hpid (by decide) (by decide) hunmapped halloc
    fun _ _ => rfl
  refine ⟨{ s₁ with mem := m' }, pn, ?_, hsupplied, hfree₁⟩
  have hperm : PTE_P ||| PTE_W ||| PTE_U = 7 := by decide
  have hcall : virtualMemoryMap s₁.mem (s₁.processes pid).pagetable (MEMSIZE_VIRTUAL - PAGESIZE)
      (PAGESIZE * pn) PAGESIZE (PTE_P ||| PTE_W ||| PTE_U) = .ok (m', 0) := by
    rw [hroot, hperm]
    exact hmap
  unfold processSetupStack
  simp only [hcode]
  rw [hcall]
  rfl

end Accounted

theorem ramimages_magic (bytes : Nat → Nat → UInt8) (n : Nat) : (ramimages bytes n).eMagic = ELF_MAGIC := by
  match n with
  | 0 => rfl
  | 1 => rfl
  | 2 => rfl
  | _ + 3 => rfl

/-- A page of the user part may be read but not written. -/
def HasReadOnly (m : Mem) (U : Tables) : Prop :=
  ∃ va ∈ userPages, (virtualMemoryLookup m U.l1 va).perm = 5

theorem HasReadOnly.congr {m m' : Mem} {U : Tables} (h : HasReadOnly m U)
    (hsame : ∀ va, virtualMemoryLookup m' U.l1 va = virtualMemoryLookup m U.l1 va) : HasReadOnly m' U := by
  obtain ⟨va, hva, hperm⟩ := h
  refine ⟨va, hva, ?_⟩
  rw [hsame]
  exact hperm

/-- A writable page that is supplied where none was leaves the read-only pages as they are. -/
theorem HasReadOnly.supplied {s s' : State} {A : Finset Nat} {T : Nat → Tables} {pid i pn : Nat}
    (h : HasReadOnly s.mem (T pid)) (hs : Supplied s s' A T pid i pn)
    (hnew : ∀ va ∈ userPages, page48 va = i → ¬ Mapped s.mem (T pid).l1 va) : HasReadOnly s'.mem (T pid) := by
  obtain ⟨va, hva, hperm⟩ := h
  refine ⟨va, hva, ?_⟩
  rw [hs.lookup, if_neg]
  · exact hperm
  · intro hpage
    apply hnew va hva hpage
    intro hunmapped
    rw [hunmapped] at hperm
    exact absurd hperm (by decide)

/-- A program has been loaded into an empty address space. -/
structure ProgramLoaded (s s' : State) (A : Finset Nat) (T : Nat → Tables) (pid : Nat) : Prop where
  accounted : Accounted s' A T ∅
  stack : ¬ Mapped s'.mem (T pid).l1 (MEMSIZE_VIRTUAL - PAGESIZE)
  taking : Taking s s' pid
  others : ∀ j ∈ A, j ≠ pid → ∀ va,
    virtualMemoryLookup s'.mem (T j).l1 va = virtualMemoryLookup s.mem (T j).l1 va
  processes : ∀ j, j ≠ pid → s'.processes j = s.processes j
  breaks : BreakBounds (s'.processes pid)
  machine : SameMachine s s'

/-- The images of the kernel fit: each takes three pages. -/
theorem Accounted.processLoad_spec {s : State} {A : Finset Nat} {T : Nat → Tables} {pid k : Nat}
    (h : Accounted s A T ∅) (hpid : pid ∈ A) (bytes : Nat → Nat → UInt8) (programNumber : Nat)
    (hempty : ∀ va, UserPart va → ¬ Mapped s.mem (T pid).l1 va) (hk : 0 < k) (hle : k + 3 ≤ 0x40)
    (hfree : FreeFrom k s.pageinfo) :
    ∃ s', processLoad s pid (ramimages bytes programNumber) = .ok (s', true) ∧
      ProgramLoaded s s' A T pid ∧ FreeFrom (k + 3) s'.pageinfo ∧ HasReadOnly s'.mem (T pid) := by
  have hfit := ramimages_fit bytes programNumber
  have hpages := pagesOf_ramimages bytes programNumber
  obtain ⟨s', hcode, hloaded, hfree'⟩ := h.loadSegments_spec hpid (ramimages bytes programNumber) hfit
    (ramimages_apart bytes programNumber)
    (fun ph hph i hlow hhigh => by
      have hle := (hfit ph hph).pages_le
      apply hempty
      simp only [UserPart, PROC_START_ADDR, MEMSIZE_VIRTUAL, PAGESIZE]
      omega)
    hk (by omega) hfree
  rw [hpages] at hfree'
  obtain ⟨hothers, hself⟩ := loadSegments_break hcode
  -- behind the segments `process_load` only sets the entry point
  obtain ⟨s₁, hs₁⟩ : ∃ s₁, s₁ = s'.setProc pid { s'.processes pid with
      registers := Function.update (s'.processes pid).registers .rip
        (ramimages bytes programNumber).eEntry } := ⟨_, rfl⟩
  have hmem₁ : s₁.mem = s'.mem := by rw [hs₁, State.setProc_mem]
  have hinfo₁ : s₁.pageinfo = s'.pageinfo := by rw [hs₁, State.setProc_pageinfo]
  refine ⟨s₁, processLoad_eq_ok.2 ⟨ramimages_magic bytes programNumber, s', hcode, hs₁⟩, ?_, ?_, ?_⟩
  · constructor
    · apply hloaded.accounted.of_eq hmem₁ hinfo₁
      intro j _
      rw [hs₁]
      exact State.setProc_pagetable s' (by rfl) j
    · -- no segment reaches the page of the stack
      rw [hmem₁, Mapped, hloaded.outside _ (ramimages_stack bytes programNumber)]
      exact hempty _ ⟨by decide, by decide⟩
    · rw [Taking, hinfo₁]
      exact hloaded.taking
    · rw [hmem₁]
      exact hloaded.others
    · intro j hj
      rw [hs₁, State.setProc_other s' _ hj]
      exact hothers j hj
    · -- the break is behind the data segment
      obtain ⟨text, data, hloads, htext, -, -, horder, hbelow, -⟩ := ramimages_ordered bytes programNumber
      rw [hloads] at hself
      have hlow := Nat.le_trans htext.start (Nat.le_add_right text.pVa text.pMemsz)
      have hstart := Nat.le_trans hlow (Nat.le_trans htext.le_breakAfter horder)
      rw [hs₁, State.setProc_self, hself]
      exact ⟨hstart, Nat.le_refl data.breakAfter, hbelow⟩
    · exact hloaded.machine.trans (hs₁ ▸ SameMachine.setProc ..)
  · rw [hinfo₁]
    exact hfree'
  · obtain ⟨ph, hph, hperm, hlow, hhigh, hcount⟩ := ramimages_text bytes programNumber
    have hpage : page48 (PAGESIZE * ph.firstPage) = ph.firstPage := page48_page (by omega)
    rw [hmem₁]
    refine ⟨PAGESIZE * ph.firstPage, mem_userPages.2 ⟨Nat.mul_mod_right PAGESIZE _, ?_⟩, ?_⟩
    · simp only [UserPart, PROC_START_ADDR, MEMSIZE_VIRTUAL, PAGESIZE]
      omega
    · rw [hloaded.inside ph hph _ ⟨by omega, by omega⟩]
      exact hperm

namespace Starting

variable {s : State} {T : Nat → Tables} {pid k : Nat}

/-- A process that has been set up joins those that there are. -/
theorem joined {s' : State} {U : Tables} {k' : Nat} (h : Starting s T k) (hnew : pid ∉ live s)
    (hlt : pid < NPROC) (hmade : (s'.processes pid).state = .runnable) (hbreaks : BreakBounds (s'.processes pid))
    (hother : ∀ j, j ≠ pid → s'.processes j = s.processes j)
    (hacc : Accounted s' (insert pid (live s)) (Function.update T pid U) ∅) (htaking : Taking s s' pid)
    (hothers : ∀ j ∈ live s, ∀ va,
      virtualMemoryLookup s'.mem (T j).l1 va = virtualMemoryLookup s.mem (T j).l1 va)
    (hfree : FreeFrom k' s'.pageinfo) :
    live s' = insert pid (live s) ∧ Starting s' (Function.update T pid U) k' := by
  have hlive : live s' = insert pid (live s) := by
    ext j
    rw [mem_live, Finset.mem_insert, mem_live]
    by_cases hj : j = pid
    · rw [hj, hmade]
      exact ⟨fun _ => Or.inl rfl, fun _ => ⟨hlt, fun e => by cases e⟩⟩
    · rw [hother j hj]
      exact ⟨Or.inr, fun e => e.resolve_left hj⟩
  have hold : ∀ j ∈ live s', j ≠ pid → j ∈ live s := by
    intro j hj hne
    rw [hlive, Finset.mem_insert] at hj
    exact hj.resolve_left hne
  refine ⟨hlive, ⟨?_, ?_, ?_, hfree⟩⟩
  · rw [← hlive] at hacc
    apply h.isolated.joined hnew hlive hacc htaking hothers
    intro j hj
    by_cases hjp : j = pid
    · rw [hjp]
      exact hbreaks
    · rw [hother j hjp]
      exact h.isolated.breaks j (hold j hj hjp)
  · intro j hj
    by_cases hjp : j = pid
    · rw [hjp]
      exact hmade
    · rw [hother j hjp]
      exact h.runnable j (hold j hj hjp)
  · intro j hj
    rw [hlive, Finset.mem_insert, not_or] at hj
    rw [hother j hj.1]
    exact h.unused j hj.2

/-- `process_setup` of a slot that is still free. -/
theorem processSetup_spec (h : Starting s T k) (hnew : pid ∉ live s) (hpid : 0 < pid ∧ pid < NPROC)
    (bytes : Nat → Nat → UInt8) (programNumber : Nat) (hk : 0 < k) (hle : k + 9 ≤ 0x40) :
    ∃ s' U, processSetup bytes s pid programNumber = .ok s' ∧
      Starting s' (Function.update T pid U) (k + 9) ∧ live s' = insert pid (live s) ∧
      HasReadOnly s'.mem U ∧ ∀ j ∈ live s, HasReadOnly s.mem (T j) → HasReadOnly s'.mem (T j) := by
  have hacc := h.isolated.accounted
  have hslot : (s.processes pid).state = .free := by
    rw [h.unused pid hnew]
    rfl
  -- five pages for the page table, three for the program and one for the stack
  obtain ⟨s₁, U, hconfig, hconf, hfree₁⟩ := (hacc.processInit hnew).configured_of_free hnew hpid hk
    (by omega) h.free
  have hprep := hconf.prepared hnew ⟨hslot, hpid⟩
  have hmem : pid ∈ insert pid (live s) := Finset.mem_insert_self pid _
  have hself : Function.update T pid U pid = U := Function.update_self ..
  have holds : ∀ j ∈ live s, Function.update T pid U j = T j := by
    intro j hj
    have hne : j ≠ pid := fun e => hnew (e ▸ hj)
    exact Function.update_of_ne hne ..
  obtain ⟨s₂, hload, hloaded, hfree₂, htext⟩ := hprep.accounted.processLoad_spec hmem bytes programNumber
    (by rw [hself]; exact hprep.empty) (by omega) (by omega) hfree₁
  obtain ⟨s₃, pn, hstack, hsupplied, hfree₃⟩ := hloaded.accounted.processSetupStack_spec hmem hloaded.stack
    (by omega) (by omega) hfree₂
  obtain ⟨s₄, hs₄⟩ : ∃ s₄, s₄ = s₃.setProc pid { s₃.processes pid with
      registers := Function.update (s₃.processes pid).registers .rsp MEMSIZE_VIRTUAL } := ⟨_, rfl⟩
  obtain ⟨s₅, hs₅⟩ : ∃ s₅, s₅ = s₄.setProc pid { s₄.processes pid with state := .runnable } := ⟨_, rfl⟩
  rw [← hs₄] at hstack
  have hproc₃ := hsupplied.only.processes
  have hmem₅ : s₅.mem = s₃.mem := by rw [hs₅, hs₄, State.setProc_mem, State.setProc_mem]
  have hinfo₅ : s₅.pageinfo = s₃.pageinfo := by rw [hs₅, hs₄, State.setProc_pageinfo, State.setProc_pageinfo]
  have hmade : s₅.processes pid = { s₂.processes pid with
      registers := Function.update (s₂.processes pid).registers .rsp MEMSIZE_VIRTUAL
      state := .runnable } := by
    rw [hs₅, State.setProc_self, hs₄, State.setProc_self, hproc₃]
  have hother₅ : ∀ j, j ≠ pid → s₅.processes j = s.processes j := by
    intro j hj
    rw [hs₅, State.setProc_other s₄ _ hj, hs₄, State.setProc_other s₃ _ hj, hproc₃,
      hloaded.processes j hj, hprep.processes j hj]
  have hacc₅ : Accounted s₅ (insert pid (live s)) (Function.update T pid U) ∅ := by
    apply hsupplied.accounted.of_eq hmem₅ hinfo₅
    intro j _
    rw [hs₅, State.setProc_pagetable s₄ (by rfl) j, hs₄, State.setProc_pagetable s₃ (by rfl) j]
  have hfirst : Taking s s₁ pid := hprep.info
  have htaking : Taking s s₅ pid := by
    rw [Taking, hinfo₅]
    exact (hfirst.trans hloaded.taking).trans hsupplied.taking
  -- none of the three steps touches the address space of another process
  have hothers : ∀ j ∈ live s, ∀ va,
      virtualMemoryLookup s₅.mem (T j).l1 va = virtualMemoryLookup s.mem (T j).l1 va := by
    intro j hj va
    have hne : j ≠ pid := fun e => hnew (e ▸ hj)
    have hj' : j ∈ insert pid (live s) := Finset.mem_insert_of_mem hj
    have hlast := hsupplied.others j hj' hne va
    have hmiddle := hloaded.others j hj' hne va
    rw [holds j hj] at hlast hmiddle
    rw [hmem₅, hlast, hmiddle, hprep.others j hj va]
  have hbreaks : BreakBounds (s₅.processes pid) := by
    have hb := hloaded.breaks
    rw [hmade]
    exact ⟨hb.start, hb.ordered, hb.limit⟩
  obtain ⟨hlive, hstart⟩ := h.joined hnew hpid.2 (by rw [hmade]) hbreaks hother₅ hacc₅ htaking hothers
    (hinfo₅ ▸ hfree₃)
  -- the stack goes to a page of its own, so that the text stays read-only
  have hreadOnly : HasReadOnly s₅.mem U := by
    rw [hmem₅, ← hself]
    apply htext.supplied hsupplied
    intro va hva hpage hmapped
    apply hloaded.stack
    have hstack : va = MEMSIZE_VIRTUAL - PAGESIZE := by
      rw [← (page48_userPages hva).1, hpage]
      rfl
    exact hstack ▸ hmapped
  refine ⟨s₅, U, ?_, hstart, hlive, hreadOnly, fun j hj hold => hold.congr (hothers j hj)⟩
  unfold processSetup
  refine bind_eq_ok.2 ⟨(s₁, 0), hconfig, assert_bind_eq_ok.2 ⟨rfl, ?_⟩⟩
  refine bind_eq_ok.2 ⟨(s₂, true), hload, assert_bind_eq_ok.2 ⟨rfl, ?_⟩⟩
  refine bind_eq_ok.2 ⟨s₄, hstack, ?_⟩
  rw [hs₅]

/-- The loop over the programs of a command. -/
theorem setupAll_spec (h : Starting s T k) (bytes : Nat → Nat → UInt8) {programs : List (Nat × Nat)}
    (hnew : ∀ p ∈ programs, p.1 ∉ live s ∧ 0 < p.1 ∧ p.1 < NPROC) (hnodup : (programs.map Prod.fst).Nodup)
    (hreadOnly : ∀ j ∈ live s, HasReadOnly s.mem (T j)) (hk : 0 < k) (hle : k + 9 * programs.length ≤ 0x40) :
    ∃ s' T', setupAll bytes programs s = .ok s' ∧ Starting s' T' (k + 9 * programs.length) ∧
      (∀ j ∈ live s', HasReadOnly s'.mem (T' j)) ∧
      ∀ j, j ∈ live s' ↔ j ∈ live s ∨ j ∈ programs.map Prod.fst := by
  induction programs generalizing s T k with
  | nil =>
      refine ⟨s, T, rfl, h, hreadOnly, fun j => ?_⟩
      rw [List.map_nil]
      exact (or_iff_left List.not_mem_nil).symm
  | cons p rest ih =>
      obtain ⟨pid, programNumber⟩ := p
      obtain ⟨hfresh, hpid⟩ := hnew (pid, programNumber) List.mem_cons_self
      rw [List.length_cons] at hle
      rw [List.map_cons, List.nodup_cons] at hnodup
      obtain ⟨s₁, U, hcode, hstart, hlive, hnewOnly, hkept⟩ :=
        h.processSetup_spec hfresh hpid bytes programNumber hk (by omega)
      -- the slots of the other programs are still free
      have hrest : ∀ p ∈ rest, p.1 ∉ live s₁ ∧ 0 < p.1 ∧ p.1 < NPROC := by
        intro p hp
        obtain ⟨hp₁, hp₂⟩ := hnew p (List.mem_cons_of_mem _ hp)
        refine ⟨?_, hp₂⟩
        rw [hlive, Finset.mem_insert, not_or]
        refine ⟨?_, hp₁⟩
        intro e
        apply hnodup.1
        rw [← e]
        exact List.mem_map_of_mem hp
      have honly : ∀ j ∈ live s₁, HasReadOnly s₁.mem (Function.update T pid U j) := by
        intro j hj
        rw [hlive, Finset.mem_insert] at hj
        by_cases hjp : j = pid
        · rw [hjp, Function.update_self]
          exact hnewOnly
        · rw [Function.update_of_ne hjp]
          have hj' := hj.resolve_left hjp
          exact hkept j hj' (hreadOnly j hj')
      obtain ⟨s', T', hrun, hfinal, honly', hlive'⟩ := ih hstart hrest hnodup.2 honly (by omega) (by omega)
      rw [List.length_cons, show k + 9 * (rest.length + 1) = k + 9 + 9 * rest.length by omega]
      refine ⟨s', T', bind_eq_ok.2 ⟨s₁, hcode, hrun⟩, hfinal, honly', fun j => ?_⟩
      rw [hlive', hlive, Finset.mem_insert, List.map_cons, List.mem_cons]
      exact or_assoc.trans or_left_comm

end Starting

/-! ## User mode -/

/-- The kernel has started its first process: the processes that there are are isolated and runnable, and
the other slots are unused. -/
structure Booted (s : State) (T : Nat → Tables) : Prop where
  isolated : Isolated s T
  current : s.current = 1
  first : 1 ∈ live s
  runnable : ∀ pid ∈ live s, (s.processes pid).state = .runnable
  unused : ∀ pid, pid ∉ live s → s.processes pid = zeroProc

/-- After the first processes have been set up, most pages are free, and each process has a read-only
page. -/
structure Fresh (s : State) (T : Nat → Tables) : Prop where
  booted : Booted s T
  free : FreeFrom 19 s.pageinfo
  readOnly : ∀ pid ∈ live s, HasReadOnly s.mem (T pid)

theorem kernel_fresh (bytes : Nat → Nat → UInt8) (m : Mem) (command : Option String) :
    ∃ s T, kernel bytes m command = .ok (s, some 1) ∧ Fresh s T ∧
      ∀ pid, pid ∈ live s ↔ pid ∈ (initialPrograms command).map Prod.fst := by
  obtain ⟨m₀, hinit, hkernel⟩ := virtualMemoryInit_spec m
  have hstart := starting_bootState hkernel fun _ => kernelTables
  have hnone : ∀ pid, pid ∉ live (bootState m₀) := fun pid hpid => (mem_live.1 hpid).2 rfl
  -- one program for each command but the one that starts two
  have hprograms : (∀ p ∈ initialPrograms command, 0 < p.1 ∧ p.1 < NPROC) ∧
      ((initialPrograms command).map Prod.fst).Nodup ∧ (initialPrograms command).length ≤ 2 ∧
      1 ∈ (initialPrograms command).map Prod.fst := by
    unfold initialPrograms
    split_ifs <;> decide
  obtain ⟨hpids, hnodup, hlength, hone⟩ := hprograms
  obtain ⟨s, T, hsetup, hfinal, hreadOnly, hlive⟩ := hstart.setupAll_spec bytes
    (fun p hp => ⟨hnone p.1, hpids p hp⟩) hnodup (fun pid hpid => absurd hpid (hnone pid)) Nat.one_pos
    (by omega)
  have hlive' : ∀ pid, pid ∈ live s ↔ pid ∈ (initialPrograms command).map Prod.fst := by
    intro pid
    rw [hlive]
    exact or_iff_right (hnone pid)
  have hfirst : 1 ∈ live s := (hlive' 1).2 hone
  have hrun := hfinal.isolated.accounted.run_ok (by decide : 1 < NPROC) (hfinal.runnable 1 hfirst)
  refine ⟨{ s with current := 1 }, T, ?_, ⟨?_, hfinal.free.mono (by omega), hreadOnly⟩, hlive'⟩
  · unfold kernel
    exact bind_eq_ok.2 ⟨m₀, hinit, bind_eq_ok.2 ⟨s, hsetup, hrun⟩⟩
  · constructor
    · exact hfinal.isolated.of_processes rfl rfl (fun _ _ => Iff.rfl) (fun _ => rfl) hfinal.isolated.breaks
    · rfl
    · exact hfirst
    · exact hfinal.runnable
    · exact hfinal.unused

/-- Whatever the memory held, whatever the bytes of the images and whatever the command, the kernel starts
its first process. -/
theorem kernel_spec (bytes : Nat → Nat → UInt8) (m : Mem) (command : Option String) :
    ∃ s T, kernel bytes m command = .ok (s, some 1) ∧ Booted s T ∧
      ∀ pid, pid ∈ live s ↔ pid ∈ (initialPrograms command).map Prod.fst := by
  obtain ⟨s, T, hkernel, hfresh, hlive⟩ := kernel_fresh bytes m command
  exact ⟨s, T, hkernel, hfresh.booted, hlive⟩

end MemoryManagement.Kernel
