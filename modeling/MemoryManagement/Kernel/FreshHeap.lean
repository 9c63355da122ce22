import MemoryManagement.Kernel.HeapAccess

/-!
# The heaps of the first processes

A process that `kernel` has set up has an empty heap behind its data segment, and no page anywhere between its
break and its stack (`kernel_heap`): the segments end below the break, and the stack is one page at the end.
-/

set_option autoImplicit false

namespace MemoryManagement.Kernel

open MemoryManagement.Library.ByteMemory

/-- The heap of a process is empty, and so is what it may grow into. -/
structure HeapEmpty (s : State) (pid : Nat) : Prop where
  ends : (s.processes pid).programBreak = (s.processes pid).originalBreak
  start : PROC_START_ADDR ≤ (s.processes pid).originalBreak
  aligned : (s.processes pid).originalBreak % PAGESIZE = 0
  unmapped : ∀ x, HeapRoom (s.processes pid).originalBreak x → ¬ s.HasPage pid x

section Setup

variable {s s' : State} {T : Nat → Tables} {pid k : Nat}

theorem HeapEmpty.congr (h : HeapEmpty s pid) (hproc : s'.processes pid = s.processes pid)
    (hsame : ∀ x, s'.HasPage pid x ↔ s.HasPage pid x) : HeapEmpty s' pid := by
  constructor
  · rw [hproc]
    exact h.ends
  · rw [hproc]
    exact h.start
  · rw [hproc]
    exact h.aligned
  · rw [hproc]
    exact fun x hx hm => h.unmapped x hx ((hsame x).1 hm)

/-- No segment of an image reaches behind the break. -/
theorem ramimages_below (bytes : Nat → Nat → UInt8) (n x : Nat) {data : ElfProgram}
    (hlast : (loads (ramimages bytes n).programs).getLast? = some data) (hx : HeapRoom data.breakAfter x) :
    ∀ ph ∈ loads (ramimages bytes n).programs, ¬ ph.Covers x := by
  rintro ph hph ⟨-, hhigh⟩
  have hend := (ramimages_fit bytes n ph hph).le_breakAfter
  obtain ⟨text, data', hloads, -, -, -, horder, -, -⟩ := ramimages_ordered bytes n
  rw [hloads] at hph hlast
  obtain rfl : data' = data := Option.some.inj hlast
  have hle : ph.breakAfter ≤ data'.breakAfter := by
    rcases List.mem_cons.1 hph with rfl | hph
    · exact horder
    · rw [List.mem_singleton.1 hph]
  have hround := roundUpPage_mod ph.endMem
  obtain ⟨hlow, hbelow⟩ := hx
  rw [ElfProgram.pageCount] at hhigh
  rw [ElfProgram.breakAfter] at hend hle
  simp only [ElfProgram.firstPage, page48, PAGESIZE, MEMSIZE_VIRTUAL] at hhigh hround hbelow
  omega

/-- `process_load` leaves no page behind the break. -/
theorem Accounted.processLoad_heap {A : Finset Nat} (h : Accounted s A T ∅) (hpid : pid ∈ A)
    (bytes : Nat → Nat → UInt8) (programNumber : Nat) (hempty : ∀ va, UserPart va → ¬ Mapped s.mem (T pid).l1 va)
    (hk : 0 < k) (hle : k + 3 ≤ 0x40) (hfree : FreeFrom k s.pageinfo)
    (hcode : processLoad s pid (ramimages bytes programNumber) = .ok (s', true)) :
    (s'.processes pid).programBreak = (s'.processes pid).originalBreak ∧
      PROC_START_ADDR ≤ (s'.processes pid).originalBreak ∧ (s'.processes pid).originalBreak % PAGESIZE = 0 ∧
      ∀ x, HeapRoom (s'.processes pid).originalBreak x → ¬ Mapped s'.mem (T pid).l1 x := by
  have hfit := ramimages_fit bytes programNumber
  have hpages := pagesOf_ramimages bytes programNumber
  obtain ⟨s₁, hload, hloaded, -⟩ := h.loadSegments_spec hpid (ramimages bytes programNumber) hfit
    (ramimages_apart bytes programNumber)
    (fun ph hph i hlow hhigh => by
      have hle := (hfit ph hph).pages_le
      apply hempty
      simp only [UserPart, PROC_START_ADDR, MEMSIZE_VIRTUAL, PAGESIZE]
      omega)
    hk (by omega) hfree
  obtain ⟨-, hself⟩ := loadSegments_break hload
  obtain ⟨-, s₂, hload₂, rfl⟩ := processLoad_eq_ok.1 hcode
  rw [hload] at hload₂
  obtain ⟨rfl, -⟩ := ok_pair.1 hload₂
  obtain ⟨text, data, hloads, htext, -, -, horder, -⟩ := ramimages_ordered bytes programNumber
  have hlast : (loads (ramimages bytes programNumber).programs).getLast? = some data := by
    rw [hloads]
    rfl
  rw [hlast] at hself
  rw [State.setProc_self, State.setProc_mem, hself]
  have hstart := Nat.le_trans htext.start (Nat.le_add_right text.pVa text.pMemsz)
  refine ⟨rfl, Nat.le_trans hstart (Nat.le_trans htext.le_breakAfter horder), roundUpPage_mod data.endMem,
    fun x hx => ?_⟩
  have huser : UserPart x :=
    ⟨Nat.le_trans (Nat.le_trans hstart (Nat.le_trans htext.le_breakAfter horder)) hx.1,
      Nat.lt_of_lt_of_le hx.2 (Nat.sub_le ..)⟩
  rw [Mapped, hloaded.outside x (ramimages_below bytes programNumber x hlast hx)]
  exact hempty x huser

namespace Starting

/-- `process_setup` leaves the heap of its process empty, and touches no other. -/
theorem processSetup_heap (h : Starting s T k) (hnew : pid ∉ live s) (hpid : 0 < pid ∧ pid < NPROC)
    (bytes : Nat → Nat → UInt8) (programNumber : Nat) (hk : 0 < k) (hle : k + 9 ≤ 0x40)
    (hcode : processSetup bytes s pid programNumber = .ok s') :
    HeapEmpty s' pid ∧ ∀ j ∈ live s, HeapEmpty s j → HeapEmpty s' j := by
  have hacc := h.isolated.accounted
  have hslot : (s.processes pid).state = .free := by
    rw [h.unused pid hnew]
    rfl
  obtain ⟨s₁, U, hconfig, hconf, hfree₁⟩ := (hacc.processInit hnew).configured_of_free hnew hpid hk
    (by omega) h.free
  have hprep := hconf.prepared hnew ⟨hslot, hpid⟩
  have hmem : pid ∈ insert pid (live s) := Finset.mem_insert_self pid _
  have hself : Function.update T pid U pid = U := Function.update_self ..
  have hempty : ∀ va, UserPart va → ¬ Mapped s₁.mem (Function.update T pid U pid).l1 va := by
    rw [hself]
    exact hprep.empty
  obtain ⟨s₂, hload, hloaded, hfree₂, -⟩ := hprep.accounted.processLoad_spec hmem bytes programNumber hempty
    (by omega) (by omega) hfree₁
  obtain ⟨hends, hstart, haligned, hunmapped⟩ := hprep.accounted.processLoad_heap hmem bytes programNumber hempty
    (by omega) (by omega) hfree₁ hload
  obtain ⟨s₃, pn, hstack, hsupplied, -⟩ := hloaded.accounted.processSetupStack_spec hmem hloaded.stack
    (by omega) (by omega) hfree₂
  -- this is the run that there was
  obtain ⟨⟨s₁', r⟩, hconfig', hcode⟩ := bind_eq_ok.1 hcode
  rw [hconfig] at hconfig'
  obtain ⟨rfl, rfl⟩ := ok_pair.1 hconfig'
  obtain ⟨-, hcode⟩ := assert_bind_eq_ok.1 hcode
  obtain ⟨⟨s₂', b⟩, hload', hcode⟩ := bind_eq_ok.1 hcode
  rw [hload] at hload'
  obtain ⟨rfl, rfl⟩ := ok_pair.1 hload'
  obtain ⟨-, hcode⟩ := assert_bind_eq_ok.1 hcode
  obtain ⟨s₄, hstack', hcode⟩ := bind_eq_ok.1 hcode
  rw [hstack] at hstack'
  obtain rfl := Except.ok.inj hstack'
  obtain rfl := Except.ok.inj hcode
  obtain ⟨s', hs'⟩ : ∃ s', s' = (s₃.setProc pid { s₃.processes pid with
      registers := Function.update (s₃.processes pid).registers .rsp MEMSIZE_VIRTUAL }).setProc pid
        { (s₃.setProc pid { s₃.processes pid with
          registers := Function.update (s₃.processes pid).registers .rsp MEMSIZE_VIRTUAL }).processes pid with
          state := .runnable } := ⟨_, rfl⟩
  rw [← hs']
  have hproc₃ : s₃.processes = s₂.processes := hsupplied.only.processes
  have hmem' : s'.mem = s₃.mem := by rw [hs', State.setProc_mem, State.setProc_mem]
  have hmade : s'.processes pid = { s₂.processes pid with
      registers := Function.update (s₂.processes pid).registers .rsp MEMSIZE_VIRTUAL
      state := .runnable } := by
    rw [hs', State.setProc_self, State.setProc_self, hproc₃]
  have hroot : (s₂.processes pid).pagetable = (Function.update T pid U pid).l1 := hloaded.accounted.root pid hmem
  constructor
  · constructor
    · rw [hmade]
      exact hends
    · rw [hmade]
      exact hstart
    · rw [hmade]
      exact haligned
    · intro x hx hm
      rw [hmade] at hx
      rw [State.HasPage, hmade, hmem'] at hm
      have hm : Mapped s₃.mem (s₂.processes pid).pagetable x := hm
      rw [hroot] at hm
      rcases (hsupplied.mapped_iff x).1 hm with hstackPage | hm
      · have hbelow := hx.2
        simp only [page48, MEMSIZE_VIRTUAL, PAGESIZE] at hstackPage hbelow
        omega
      · exact hunmapped x hx hm
  · intro j hj hold
    have hne : j ≠ pid := fun e => hnew (e ▸ hj)
    have hj' : j ∈ insert pid (live s) := Finset.mem_insert_of_mem hj
    have htables : Function.update T pid U j = T j := Function.update_of_ne hne ..
    have hsame : s'.processes j = s.processes j := by
      rw [hs', State.setProc_other _ _ hne, State.setProc_other _ _ hne, hproc₃, hloaded.processes j hne,
        hprep.processes j hne]
    refine hold.congr hsame fun x => ?_
    have hlast := hsupplied.others j hj' hne x
    have hmiddle := hloaded.others j hj' hne x
    rw [htables] at hlast hmiddle
    rw [State.HasPage, State.HasPage, hsame, hacc.root j hj, hmem', Mapped, Mapped, hlast, hmiddle,
      hprep.others j hj x]

theorem setupAll_heap (h : Starting s T k) (bytes : Nat → Nat → UInt8) {programs : List (Nat × Nat)}
    (hnew : ∀ p ∈ programs, p.1 ∉ live s ∧ 0 < p.1 ∧ p.1 < NPROC) (hnodup : (programs.map Prod.fst).Nodup)
    (hempty : ∀ j ∈ live s, HeapEmpty s j) (hk : 0 < k) (hle : k + 9 * programs.length ≤ 0x40)
    (hcode : setupAll bytes programs s = .ok s') : ∀ j ∈ live s', HeapEmpty s' j := by
  induction programs generalizing s T k with
  | nil =>
      obtain rfl := Except.ok.inj hcode
      exact hempty
  | cons p rest ih =>
      obtain ⟨pid, programNumber⟩ := p
      obtain ⟨hfresh, hpid⟩ := hnew (pid, programNumber) List.mem_cons_self
      rw [List.length_cons] at hle
      rw [List.map_cons, List.nodup_cons] at hnodup
      obtain ⟨s₁, U, hsetup, hstart, hlive, -, -⟩ :=
        h.processSetup_spec hfresh hpid bytes programNumber hk (by omega)
      obtain ⟨hfirst, hkept⟩ := h.processSetup_heap hfresh hpid bytes programNumber hk (by omega) hsetup
      obtain ⟨s₁', hsetup', hcode⟩ := bind_eq_ok.1 hcode
      rw [hsetup] at hsetup'
      obtain rfl := Except.ok.inj hsetup'
      -- the slots of the other programs are still free
      have hrest : ∀ p ∈ rest, p.1 ∉ live s₁ ∧ 0 < p.1 ∧ p.1 < NPROC := by
        intro p hp
        obtain ⟨hp₁, hp₂⟩ := hnew p (List.mem_cons_of_mem _ hp)
        refine ⟨?_, hp₂⟩
        rw [hlive, Finset.mem_insert, not_or]
        refine ⟨?_, hp₁⟩
        intro e
        apply hnodup.1
        rw [← e]
        exact List.mem_map_of_mem hp
      refine ih hstart hrest hnodup.2 (fun j hj => ?_) (by omega) (by omega) hcode
      rw [hlive, Finset.mem_insert] at hj
      rcases hj with rfl | hj
      · exact hfirst
      · exact hkept j hj (hempty j hj)

end Starting

end Setup

/-- Each process that `kernel` has set up starts with an empty heap. -/
theorem kernel_heap {bytes : Nat → Nat → UInt8} {m : Mem} {command : Option String} {s : State} {next : Option Nat}
    (hboot : kernel bytes m command = .ok (s, next)) : ∀ pid ∈ live s, HeapEmpty s pid := by
  obtain ⟨m₀, hinit, hkernel⟩ := virtualMemoryInit_spec m
  have hstart := starting_bootState hkernel fun _ => kernelTables
  have hnone : ∀ pid, pid ∉ live (bootState m₀) := fun pid hpid => (mem_live.1 hpid).2 rfl
  have hprograms : (∀ p ∈ initialPrograms command, 0 < p.1 ∧ p.1 < NPROC) ∧
      ((initialPrograms command).map Prod.fst).Nodup ∧ (initialPrograms command).length ≤ 2 := by
    unfold initialPrograms
    split_ifs <;> decide
  obtain ⟨hpids, hnodup, hlength⟩ := hprograms
  unfold kernel at hboot
  obtain ⟨m₁, hinit', hboot⟩ := bind_eq_ok.1 hboot
  rw [hinit] at hinit'
  obtain rfl := Except.ok.inj hinit'
  obtain ⟨s₁, hsetup, hrun⟩ := bind_eq_ok.1 hboot
  have hempty := hstart.setupAll_heap bytes (fun p hp => ⟨hnone p.1, hpids p hp⟩) hnodup
    (fun pid hpid => absurd hpid (hnone pid)) Nat.one_pos (by omega) hsetup
  obtain ⟨-, -, rfl⟩ := run_eq_ok hrun
  exact fun pid hpid => (hempty pid hpid).congr rfl fun _ => Iff.rfl

/-- An empty heap holds what an own memory holds at the start. -/
theorem HeapEmpty.holds {s : State} {pid : Nat} (h : HeapEmpty s pid) (hpid : pid ∈ live s) :
    (s.slot pid).Holds (s.processes pid).originalBreak (s.processes pid).originalBreak freshBytes := by
  rw [slot_of_live hpid]
  refine ⟨rfl, rfl, h.ends, Nat.le_refl _, fun x hx => ?_⟩
  have hnone : s.cells pid x = none := cells_eq_none.2 fun _ => h.unmapped x hx
  show (s.cells pid x).getD ⟨true, 0xCC⟩ = _
  rw [hnone]
  rfl

end MemoryManagement.Kernel
