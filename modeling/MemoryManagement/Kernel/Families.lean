import MemoryManagement.Kernel.Frames
import MemoryManagement.Kernel.Interleaving
import MemoryManagement.Kernel.MappingCall

/-!
# Processes that fork

A forked process shares the read-only pages of its parent. Whatever the processes of such a family do, the
page counts stay right, as long as no break is moved down below the user part (`Family.exception_kept`).
The owners of the pages stay right as long as no process leaves before one that shares a page of its.
-/

set_option autoImplicit false

namespace MemoryManagement.Kernel

open MemoryManagement.Library.ByteMemory
open MemoryManagement.Library.RefCount

/-- The page counts are right, and no break is above the stack page, not even one that a free slot has
kept. -/
structure Family (s : State) (T : Nat → Tables) : Prop where
  accounted : Accounted s (live s) T ∅
  limit : ∀ pid, (s.processes pid).programBreak < MEMSIZE_VIRTUAL - PAGESIZE

/-- No other process maps a page that the running process owns. -/
def NoneShared (s : State) : Prop :=
  ∀ j ∈ live s, j ≠ s.current → ∀ va, UserPart va → s.HasPage j va →
    (s.pageinfo (s.lookup j va).pn.toNat).owner ≠ s.current

/-- The running process does not survive the trap. -/
def Leaving (s : State) (reg : Registers) (addr : Nat) : Prop :=
  reg .intno = INT_SYS_EXIT ∨ reg .intno = INT_PAGEFAULT ∧ ¬ HeapFault s addr

/-- A break that is moved down stays in the user part. -/
def StaysHigh (p : Proc) (d : Nat) : Prop :=
  BreakAccepted p d → Negative d → PROC_START_ADDR ≤ newBreak p d

/-! ## States alike -/

/-- Memory and page counts are the same, and all that matters of the slots. -/
structure Alike (s s' : State) : Prop where
  mem : s'.mem = s.mem
  pageinfo : s'.pageinfo = s.pageinfo
  free : ∀ pid, (s'.processes pid).state = .free ↔ (s.processes pid).state = .free
  root : ∀ pid, (s'.processes pid).pagetable = (s.processes pid).pagetable
  break_eq : ∀ pid, (s'.processes pid).programBreak = (s.processes pid).programBreak

section Alike

variable {s s' : State} {T : Nat → Tables}

theorem Alike.of_processes (hmem : s'.mem = s.mem) (hinfo : s'.pageinfo = s.pageinfo)
    (hprocs : s'.processes = s.processes) : Alike s s' := by
  refine ⟨hmem, hinfo, fun pid => ?_, fun pid => ?_, fun pid => ?_⟩
  · rw [hprocs]
  · rw [hprocs]
  · rw [hprocs]

theorem Alike.of_entered {reg : Registers} (he : Entered s s' reg) : Alike s s' := by
  refine ⟨he.mem, he.pageinfo, he.touched.states, he.touched.roots, fun pid => ?_⟩
  by_cases hpid : pid = s.current
  · rw [hpid, he.process_self]
  · rw [he.touched.other pid hpid]

theorem Alike.setProc (s : State) {pid : Nat} {p : Proc}
    (hfree : p.state = .free ↔ (s.processes pid).state = .free)
    (hroot : p.pagetable = (s.processes pid).pagetable)
    (hbreak : p.programBreak = (s.processes pid).programBreak) : Alike s (s.setProc pid p) := by
  refine ⟨State.setProc_mem .., State.setProc_pageinfo .., fun j => ?_, State.setProc_pagetable s hroot,
    fun j => ?_⟩
  · by_cases hj : j = pid
    · rw [hj, State.setProc_self]
      exact hfree
    · rw [State.setProc_other s _ hj]
  · by_cases hj : j = pid
    · rw [hj, State.setProc_self]
      exact hbreak
    · rw [State.setProc_other s _ hj]

theorem Alike.setRax (s : State) (r : Int) : Alike s (setRax s r) :=
  Alike.setProc s Iff.rfl rfl rfl

theorem Alike.live (h : Alike s s') : Kernel.live s' = Kernel.live s := live_congr fun pid _ => h.free pid

theorem Alike.family (h : Alike s s') (hf : Family s T) : Family s' T := by
  constructor
  · rw [h.live]
    exact hf.accounted.of_eq h.mem h.pageinfo fun pid _ => h.root pid
  · intro pid
    rw [h.break_eq]
    exact hf.limit pid

theorem Alike.ownersLive (h : Alike s s') : OwnersLive s' ↔ OwnersLive s := by
  rw [OwnersLive, OwnersLive, h.live, h.pageinfo]

theorem Alike.ownersActive (h : Alike s s') : OwnersActive s' ↔ OwnersActive s := by
  rw [OwnersActive, OwnersActive, h.pageinfo]
  exact forall₄_congr fun pn _ _ _ => not_congr (h.free _)

theorem Alike.lookup (h : Alike s s') (pid va : Nat) : s'.lookup pid va = s.lookup pid va := by
  rw [State.lookup, State.lookup, h.mem, h.root]

theorem Alike.hasPage (h : Alike s s') (pid va : Nat) : s'.HasPage pid va ↔ s.HasPage pid va := by
  rw [State.HasPage, State.HasPage, h.mem, h.root]

theorem Alike.noneShared (h : Alike s s') (hcurrent : s'.current = s.current) :
    NoneShared s' ↔ NoneShared s := by
  rw [NoneShared, NoneShared, h.live, hcurrent, h.pageinfo]
  refine forall₅_congr fun j _ _ va _ => ?_
  rw [h.hasPage, h.lookup]

end Alike

/-! ## Events -/

/-- The page counts are right after a step, and the owners are, too, if they were before and the step has
left no orphaned page. -/
structure Follows (s s' : State) (orphans : Prop) : Prop where
  family : ∃ T, Family s' T
  owners : OwnersLive s → ¬ orphans → OwnersLive s'
  active : OwnersLive s → OwnersActive s' → ¬ orphans

namespace Follows

variable {s s₁ s' : State} {orphans : Prop}

theorem alike (h : Follows s s₁ orphans) (hsame : Alike s₁ s') : Follows s s' orphans := by
  obtain ⟨T, hfamily⟩ := h.family
  refine ⟨⟨T, hsame.family hfamily⟩, fun howners hnone => ?_, fun howners hactive => ?_⟩
  · exact hsame.ownersLive.2 (h.owners howners hnone)
  · exact h.active howners (hsame.ownersActive.1 hactive)

theorem from_alike (h : Follows s₁ s' orphans) (hsame : Alike s s₁) : Follows s s' orphans :=
  ⟨h.family, fun howners => h.owners (hsame.ownersLive.2 howners),
    fun howners => h.active (hsame.ownersLive.2 howners)⟩

/-- The process goes on. -/
theorem of_kept {T : Nat → Tables} (hfamily : Family s' T) (howners : OwnersLive s → OwnersLive s')
    (hnone : ¬ orphans) : Follows s s' orphans :=
  ⟨⟨T, hfamily⟩, fun h _ => howners h, fun _ _ => hnone⟩

end Follows

/-- A fork that makes a child adds it to the processes. -/
theorem Forked.live_eq {s s' : State} {T : Nat → Tables} {parent child : Nat} {U : Tables}
    (h : Forked s s' (live s) T parent child U) : live s' = insert child (live s) := by
  ext j
  rw [mem_live, Finset.mem_insert, mem_live]
  by_cases hj : j = child
  · rw [hj, h.made]
    exact ⟨fun _ => Or.inl rfl, fun _ => ⟨h.slot.2.2, fun e => by cases e⟩⟩
  · rw [h.processes j hj]
    exact ⟨Or.inr, fun e => e.resolve_left hj⟩

namespace Family

variable {s s' : State} {T : Nat → Tables} {pid : Nat}

/-- What owners are after pages have been given up. -/
theorem owner_dropped {info : Nat → PageInfo} (h : Family s T) (hpid : pid ∈ live s) {q : Nat} (hq : Ordinary q)
    (hchange : info q = s.pageinfo q ∨ 0 < uses s.mem (T pid) q ∧ info q = (s.pageinfo q).drop)
    (hcount : (info q).refcount ≠ 0) :
    (s.pageinfo q).refcount ≠ 0 ∧ (info q).owner = (s.pageinfo q).owner := by
  rcases hchange with hsame | ⟨hused, hdrop⟩
  · rw [hsame] at hcount ⊢
    exact ⟨hcount, rfl⟩
  · rw [hdrop] at hcount ⊢
    refine ⟨fun hzero => ?_, PageInfo.drop_owner hcount⟩
    have hunused := (h.accounted.unused hq hzero).1 pid hpid
    omega

/-- The running process is released. The pages that it owned and that others map are orphaned. -/
theorem released (h : Family s T) (hcurrent : s.current ∈ live s) :
    Follows s (released s (T s.current) s.current) (¬ NoneShared s) := by
  obtain ⟨s', hs'⟩ : ∃ s', s' = Kernel.released s (T s.current) s.current := ⟨_, rfl⟩
  have hlive : live s' = (live s).erase s.current := by
    rw [hs']
    exact Isolated.live_released (T s.current)
  have hself : (s'.processes s.current).state = .free := by
    rw [hs']
    show ((s.setProc s.current _).processes s.current).state = .free
    rw [State.setProc_self]
  have hacc : Accounted s' (live s') T ∅ := by
    rw [hlive, hs']
    exact h.accounted.leave hcurrent
  have hmem : s'.mem = s.mem := by
    rw [hs']
    rfl
  have howner : ∀ q, Ordinary q → (s'.pageinfo q).refcount ≠ 0 →
      (s.pageinfo q).refcount ≠ 0 ∧ (s'.pageinfo q).owner = (s.pageinfo q).owner := by
    intro q hq hcount
    apply h.owner_dropped hcurrent hq _ hcount
    rw [hs'] at hcount ⊢
    replace hcount : (releasedInfo s (T s.current) q).refcount ≠ 0 := hcount
    show releasedInfo s (T s.current) q = _ ∨ _ ∧ releasedInfo s (T s.current) q = _
    rw [releasedInfo] at hcount ⊢
    split at hcount
    · exact absurd rfl hcount
    · rename_i htable
      rw [if_neg htable]
      split
      · rename_i hpos
        refine Or.inr ⟨?_, rfl⟩
        rw [uses]
        omega
      · exact Or.inl rfl
  rw [← hs']
  constructor
  · refine ⟨T, hacc, fun pid => ?_⟩
    have hbreak : (s'.processes pid).programBreak = (s.processes pid).programBreak := by
      rw [hs']
      show ((s.setProc s.current _).processes pid).programBreak = _
      by_cases hpid : pid = s.current
      · rw [hpid, State.setProc_self]
      · rw [State.setProc_other s _ hpid]
    rw [hbreak]
    exact h.limit pid
  · intro howners hnone q hq hcount
    obtain ⟨hcount₀, hsame⟩ := howner q hq hcount
    obtain ⟨j, hj, hown⟩ := howners q hq hcount₀
    refine ⟨j, ?_, hsame.trans hown⟩
    rw [hlive, Finset.mem_erase]
    refine ⟨?_, hj⟩
    rintro rfl
    -- another process still uses the page
    have hcounted := hacc.counted q hq
    obtain ⟨i, hi, hpos⟩ : ∃ i ∈ live s', 0 < uses s'.mem (T i) q := by
      by_contra hnot
      have hzero : refs s'.mem (live s') T ∅ q = 0 := by
        refine count_eq_zero (fun i hi => ?_) (Finset.notMem_empty q)
        by_contra hne
        exact hnot ⟨i, hi, Nat.pos_of_ne_zero hne⟩
      rw [hzero] at hcounted
      exact hcount hcounted
    rw [hlive] at hi
    obtain ⟨hne, hi⟩ := Finset.mem_erase.1 hi
    rw [hmem] at hpos
    apply hnone
    intro hshared
    by_cases htable : PAGESIZE * q ∈ (T i).pages
    · have hinfo := h.accounted.tables i hi _ htable
      rw [Nat.mul_div_cancel_left q (by decide : 0 < PAGESIZE)] at hinfo
      rw [hinfo] at hown
      have hsame := Int.natCast_inj.1 hown
      exact hne hsame
    · rw [uses, if_neg htable, Nat.add_zero] at hpos
      obtain ⟨va, huser, hm, hpn⟩ := references_pos.1 hpos
      have hroot := h.accounted.root i hi
      apply hshared i hi hne va huser
      · rw [State.HasPage, hroot]
        exact hm
      · rw [State.lookup, hroot, hpn]
        exact hown
  · intro _ hactive hshared
    apply hshared
    intro j hj hne va huser hm hown
    have hroot := h.accounted.root j hj
    have hspace := h.accounted.space j hj
    rw [State.HasPage, hroot] at hm
    rw [State.lookup, hroot] at hown
    obtain ⟨q, hq⟩ : ∃ q, q = (virtualMemoryLookup s.mem (T j).l1 va).pn.toNat := ⟨_, rfl⟩
    have hpos : 0 < uses s.mem (T j) q := by
      have hrefs := references_pos.2 ⟨va, huser, hm, hq.symm⟩
      rw [uses]
      omega
    have hord := hspace.ordinary_of_uses hpos
    have hj' : j ∈ live s' := by
      rw [hlive]
      exact Finset.mem_erase.2 ⟨hne, hj⟩
    have hle : uses s'.mem (T j) q ≤ refs s'.mem (live s') T ∅ q := uses_le_refs hj'
    have hcounted := hacc.counted q hord
    rw [hmem] at hle hcounted
    obtain ⟨-, hsame⟩ := howner q hord (by omega)
    rw [← hq] at hown
    rw [hown] at hsame
    apply hactive q (List.mem_range.2 hord.lt) (by omega)
    · rw [hsame]
      exact Int.natCast_nonneg _
    · rw [hsame, Int.toNat_natCast]
      exact hself

/-- A fresh page for a process. -/
theorem supplied {i pn : Nat} (h : Family s T) (hs : Supplied s s' (live s) T pid i pn)
    (hpid : pid ∈ live s) : Family s' T ∧ (OwnersLive s → OwnersLive s') := by
  have hprocesses := hs.only.processes
  have hlive : live s' = live s := live_congr fun j _ => by rw [hprocesses]
  constructor
  · constructor
    · rw [hlive]
      exact hs.accounted
    · rw [hprocesses]
      exact h.limit
  · intro howners q hq hcount
    rw [hlive]
    rw [hs.info] at hcount ⊢
    by_cases hqn : q = pn
    · rw [hqn, Function.update_self]
      exact ⟨pid, hpid, rfl⟩
    · rw [Function.update_of_ne hqn] at hcount ⊢
      exact howners q hq hcount

/-- `fork`, with a child or without. -/
theorem processFork_kept (h : Family s T) (hpid : pid ∈ live s) :
    ∃ s' r T', processFork s pid = .ok (s', r) ∧ Family s' T' ∧ (OwnersLive s → OwnersLive s') ∧
      s'.current = s.current := by
  have hactive : ∀ j ∈ live s, (s.processes j).state ≠ .free := fun j hj => (mem_live.1 hj).2
  -- without a child the slots and the owners are as before
  rcases (processFork_spec h.accounted hactive hpid).1 with ⟨s', hcode, hno⟩ | ⟨s', child, U, hcode, hmade⟩
  · have hlive : live s' = live s := by
      apply live_congr
      intro j _
      constructor
      · intro hfree
        by_contra hne
        rw [hno.processes j hne] at hfree
        exact hne hfree
      · exact hno.idle j
    refine ⟨s', -1, T, hcode, ?_, fun howners q hq hcount => ?_, hno.machine.current⟩
    · constructor
      · rw [hlive]
        exact hno.accounted
      · intro j
        rw [(hno.breaks j).1]
        exact h.limit j
    · obtain ⟨hcount₀, hsame⟩ := hno.owners q hq hcount
      rw [hlive, hsame]
      exact howners q hq hcount₀
  · have hchild : s'.processes child = _ := hmade.made
    have hlive := hmade.live_eq
    refine ⟨s', child, Function.update T child U, hcode, ?_, fun howners q hq hcount => ?_,
      hmade.machine.current⟩
    · constructor
      · rw [hlive]
        exact hmade.accounted
      · intro j
        by_cases hj : j = child
        · rw [hj, hchild]
          exact h.limit child
        · rw [hmade.processes j hj]
          exact h.limit j
    · rw [hlive]
      rcases hmade.owners q hq hcount with ⟨hcount₀, hsame⟩ | ⟨hnew, -⟩
      · -- the page has the owner that it had
        obtain ⟨j, hj, hown⟩ := howners q hq hcount₀
        exact ⟨j, Finset.mem_insert_of_mem hj, hsame.trans hown⟩
      · -- the page is a new one of the child
        exact ⟨child, Finset.mem_insert_self child _, hnew⟩

/-- `sbrk` that keeps out of the kernel's part: the processes have the page tables that they had. -/
theorem sbrk_kept (h : Family s T) (hpid : pid ∈ live s) {d : Nat} (hd : d < 2 ^ 64)
    (hhigh : StaysHigh (s.processes pid) d) :
    ∃ s' r, sbrk s pid d = .ok (s', r) ∧ Family s' T ∧ (OwnersLive s → OwnersLive s') ∧
      live s' = live s ∧ s'.current = s.current := by
  by_cases hacc : BreakAccepted (s.processes pid) d
  · have hlimit := h.limit pid
    -- the slot has the new break
    have hmoved : ∀ s' : State, (∀ j, j ≠ pid → s'.processes j = s.processes j) →
        s'.processes pid = { s.processes pid with programBreak := newBreak (s.processes pid) d } →
        live s' = live s ∧ (∀ j, (s'.processes j).pagetable = (s.processes j).pagetable) ∧
        ∀ j, (s'.processes j).programBreak < MEMSIZE_VIRTUAL - PAGESIZE := by
      intro s' hother hself
      refine ⟨live_congr fun j _ => ?_, fun j => ?_, fun j => ?_⟩
      · by_cases hj : j = pid
        · rw [hj, hself]
        · rw [hother j hj]
      · by_cases hj : j = pid
        · rw [hj, hself]
        · rw [hother j hj]
      · by_cases hj : j = pid
        · rw [hj, hself]
          exact hacc.1
        · rw [hother j hj]
          exact h.limit j
    by_cases hneg : Negative d
    · have hlow := hhigh hacc hneg
      have hroot := h.accounted.root pid hpid
      have htable : TableOk s.mem (s.processes pid).pagetable := by
        rw [hroot]
        exact h.accounted.tableOk hpid
      have hsub := givenUp_user hlimit hacc hlow
      have hhide := h.accounted.hide hpid (nodup_pagesDown _ _) hsub
      have hcode := sbrk_lower hlimit hd htable hacc hneg (Nat.le_trans (by decide) hlow)
      obtain ⟨s', hs'⟩ : ∃ s', s' = shrunk s pid d := ⟨_, rfl⟩
      have hmem : s'.mem = hidePages s.mem (T pid).l1 (givenUp (s.processes pid) d) := by
        rw [hs', ← hroot]
        rfl
      have hinfo : s'.pageinfo = freePages s.mem (T pid).l1 (givenUp (s.processes pid) d) s.pageinfo := by
        rw [hs', ← hroot]
        rfl
      obtain ⟨hlive, hroots, hlimits⟩ := hmoved s'
        (fun j hj => by rw [hs']; exact State.setProc_other s _ hj)
        (by rw [hs']; exact State.setProc_self ..)
      rw [← hs'] at hcode
      refine ⟨s', _, hcode, ⟨?_, hlimits⟩, fun howners q hq hcount => ?_, hlive, ?_⟩
      · rw [hlive]
        exact hhide.of_eq hmem hinfo fun j _ => hroots j
      · rw [hlive]
        have hchange : s'.pageinfo q = s.pageinfo q ∨
            0 < uses s.mem (T pid) q ∧ s'.pageinfo q = (s.pageinfo q).drop := by
          have hhides := (h.accounted.tableOk hpid).hidePages (givenUp (s.processes pid) d)
          have hrefs := references_hidePages hhides hsub (nodup_pagesDown _ _) q
          have hone := (h.accounted.space pid hpid).references_le_one q
          rw [hinfo, freePages_apply]
          by_cases hzero : references s.mem (T pid).l1 (givenUp (s.processes pid) d) q = 0
          · rw [hzero]
            exact Or.inl rfl
          · have hsingle : references s.mem (T pid).l1 (givenUp (s.processes pid) d) q = 1 := by omega
            rw [hsingle]
            refine Or.inr ⟨?_, rfl⟩
            rw [uses]
            omega
        obtain ⟨hcount₀, hsame⟩ := h.owner_dropped hpid hq hchange hcount
        rw [hsame]
        exact howners q hq hcount₀
      · rw [hs']
        rfl
    · obtain ⟨s', hs'⟩ : ∃ s', s' = s.setProc pid { s.processes pid with
          programBreak := newBreak (s.processes pid) d } := ⟨_, rfl⟩
      obtain ⟨hlive, hroots, hlimits⟩ := hmoved s'
        (fun j hj => by rw [hs', State.setProc_other s _ hj])
        (by rw [hs', State.setProc_self])
      have hcode := sbrk_grow hlimit hacc hneg
      rw [← hs'] at hcode
      refine ⟨s', _, hcode, ⟨?_, hlimits⟩, fun howners q hq hcount => ?_, hlive, ?_⟩
      · rw [hlive]
        exact h.accounted.of_eq (by rw [hs', State.setProc_mem]) (by rw [hs', State.setProc_pageinfo])
          fun j _ => hroots j
      · rw [hlive]
        have hinfo : s'.pageinfo = s.pageinfo := by rw [hs', State.setProc_pageinfo]
        rw [hinfo] at hcount ⊢
        exact howners q hq hcount
      · rw [hs']
        rfl
  · exact ⟨s, -1, sbrk_refused hacc, h, id, rfl, rfl⟩

theorem brk_kept (h : Family s T) (hpid : pid ∈ live s) {a : Nat}
    (hhigh : StaysHigh (s.processes pid) (breakDistance (s.processes pid) a)) :
    ∃ s' r, brk s pid a = .ok (s', r) ∧ Family s' T ∧ (OwnersLive s → OwnersLive s') ∧
      live s' = live s ∧ s'.current = s.current := by
  have hd : breakDistance (s.processes pid) a < 2 ^ 64 := Nat.mod_lt _ (by decide)
  obtain ⟨s', r, hcode, hkept⟩ := h.sbrk_kept hpid hd hhigh
  refine ⟨s', if r = -1 then -1 else 0, ?_, hkept⟩
  unfold brk
  exact bind_eq_ok.2 ⟨(s', r), hcode, rfl⟩

end Family

/-! ## Traps -/

/-- The running process makes a call about itself, forks, faults or is interrupted. -/
structure FamilyTrap (s : State) (reg : Registers) (addr : Nat) : Prop where
  current : s.current < NPROC
  running : (s.processes s.current).state = .runnable
  words : ∀ r, reg r < 2 ^ 64
  event : reg .intno ∈ [INT_SYS_FORK, INT_SYS_BRK, INT_SYS_SBRK, INT_SYS_EXIT, INT_SYS_YIELD,
    INT_SYS_GETPID, INT_TIMER] ∨ UserFault s reg addr

/-- If the trap is a break call, it does not move the break below the user part. -/
structure KeepsHigh (s : State) (reg : Registers) : Prop where
  sbrk : reg .intno = INT_SYS_SBRK → StaysHigh (s.processes s.current) (reg .rdi)
  brk : reg .intno = INT_SYS_BRK → StaysHigh (s.processes s.current)
    (breakDistance (s.processes s.current) (reg .rdi))

/-- What stays as it was when the registers are saved. -/
theorem KeepsHigh.entered {s s' : State} {reg : Registers} (h : KeepsHigh s reg) (he : Entered s s' reg) :
    KeepsHigh s' reg := by
  constructor
  · intro hintno
    rw [he.current, he.process_self]
    exact h.sbrk hintno
  · intro hintno
    rw [he.current, he.process_self]
    exact h.brk hintno

/-- Only break calls move the break. -/
theorem KeepsHigh.of_other {s : State} {reg : Registers} (hsbrk : reg .intno ≠ INT_SYS_SBRK)
    (hbrk : reg .intno ≠ INT_SYS_BRK) : KeepsHigh s reg :=
  ⟨fun e => absurd e hsbrk, fun e => absurd e hbrk⟩

/-- Only `exit` and faults end a process. -/
theorem not_leaving {s : State} {reg : Registers} {addr : Nat} (hexit : reg .intno ≠ INT_SYS_EXIT)
    (hfault : reg .intno ≠ INT_PAGEFAULT) : ¬ Leaving s reg addr := by
  rintro (hleaving | ⟨hleaving, -⟩)
  · exact hexit hleaving
  · exact hfault hleaving

theorem Leaving.entered {s s' : State} {reg : Registers} {addr : Nat} (he : Entered s s' reg) :
    Leaving s' reg addr ↔ Leaving s reg addr := by
  rw [Leaving, Leaving, HeapFault.entered he]

/-- With the owners right, a trap is handled when its case of the switch returns. -/
theorem Family.exception_follows {s : State} {T : Nat → Tables} {reg : Registers} {addr : Nat}
    {orphans : Prop} (h : Family s T) (howners : OwnersLive s) (hcurrent : s.current < NPROC)
    (hdispatch : ∀ s₁, Entered s s₁ reg → ∃ s₂ after, dispatch s₁ reg addr = .ok (s₂, after) ∧
      Follows s₁ s₂ orphans ∧ s₂.current = s₁.current) :
    ∃ s' next, exception s reg addr = .ok (s', next) ∧ Follows s s' orphans := by
  obtain ⟨s₁, he, hcode⟩ := h.accounted.exception_enters howners reg addr
  obtain ⟨s₂, after, hcase, hfollows, hcur⟩ := hdispatch s₁ he
  have hfrom := hfollows.from_alike (Alike.of_entered he)
  obtain ⟨T₂, hfamily₂⟩ := hfollows.family
  have hlt : s₂.current < NPROC := by
    rw [hcur, he.current]
    exact hcurrent
  rw [hcode, hcase]
  rcases hfamily₂.accounted.resume_ok hlt after with ⟨pid, -, -, hresume⟩ | ⟨-, hresume⟩
  · exact ⟨_, _, hresume, hfrom.alike (Alike.of_processes rfl rfl rfl)⟩
  · exact ⟨_, _, hresume, hfrom⟩

namespace FamilyTrap

variable {s s' : State} {T : Nat → Tables} {reg : Registers} {addr : Nat}

theorem live (h : FamilyTrap s reg addr) : s.current ∈ Kernel.live s :=
  mem_live_of_runnable h.current h.running

theorem entered (h : FamilyTrap s reg addr) (he : Entered s s' reg) : FamilyTrap s' reg addr := by
  have hrunning : (s'.processes s'.current).state = .runnable := by
    rw [he.current, he.process_self]
    exact h.running
  refine ⟨he.current ▸ h.current, hrunning, h.words, h.event.imp_right fun hf => ?_⟩
  refine ⟨he.current ▸ hf.current, hrunning, hf.intno, hf.user, ?_⟩
  rw [he.current, he.touched.hasPage]
  exact hf.present

/-- A process that asks to leave, or has to, is released. -/
theorem processFree_kept (h : FamilyTrap s reg addr) (hfamily : Family s T)
    (hleaving : Leaving s reg addr) : ∃ s', processFree s s.current = .ok s' ∧
      Follows s s' (Leaving s reg addr ∧ ¬ NoneShared s) ∧ s'.current = s.current := by
  have hreleased := hfamily.released h.live
  refine ⟨_, hfamily.accounted.processFree_eq h.live, ⟨hreleased.family, fun howners hnone => ?_,
    fun howners hactive horphans => ?_⟩, rfl⟩
  · exact hreleased.owners howners fun hshared => hnone ⟨hleaving, hshared⟩
  · exact hreleased.active howners hactive horphans.2

/-- The handler for each of the traps. -/
theorem dispatch_kept (h : FamilyTrap s reg addr) (hfamily : Family s T) (hhigh : KeepsHigh s reg)
    (hsaved : (s.processes s.current).registers = reg) :
    ∃ s' after, dispatch s reg addr = .ok (s', after) ∧
      Follows s s' (Leaving s reg addr ∧ ¬ NoneShared s) ∧ s'.current = s.current := by
  have hlive := h.live
  -- a process that stays orphans nothing
  have hstays : ∀ s₁ T₁, Family s₁ T₁ → (OwnersLive s → OwnersLive s₁) → ¬ Leaving s reg addr →
      Follows s s₁ (Leaving s reg addr ∧ ¬ NoneShared s) :=
    fun s₁ T₁ hfamily₁ howners hstays => Follows.of_kept hfamily₁ howners fun hleaving => hstays hleaving.1
  have hcall : ∀ n, reg .intno = n → n ≠ INT_SYS_EXIT → n ≠ INT_PAGEFAULT → ¬ Leaving s reg addr := by
    rintro n hintno hexit hfault
    exact not_leaving (hintno ▸ hexit) (hintno ▸ hfault)
  rcases h.event with hevent | hfault
  · simp only [List.mem_cons, List.not_mem_nil, or_false] at hevent
    rcases hevent with hintno | hintno | hintno | hintno | hintno | hintno | hintno
    · obtain ⟨s₁, r, T₁, hcode, hfamily₁, howners, hcur⟩ := hfamily.processFork_kept hlive
      have hfollows := hstays s₁ T₁ hfamily₁ howners (hcall _ hintno (by decide) (by decide))
      refine ⟨setRax s₁ r, .back, ?_, hfollows.alike (Alike.setRax s₁ r), hcur⟩
      rw [dispatch_fork hintno, hcode]
      rfl
    · obtain ⟨s₁, r, hcode, hfamily₁, howners, -, hcur⟩ := hfamily.brk_kept hlive (hhigh.brk hintno)
      have hfollows := hstays s₁ T hfamily₁ howners (hcall _ hintno (by decide) (by decide))
      refine ⟨setRax s₁ r, .back, ?_, hfollows.alike (Alike.setRax s₁ r), hcur⟩
      rw [dispatch_brk hintno, hsaved, hcode]
      rfl
    · obtain ⟨s₁, r, hcode, hfamily₁, howners, -, hcur⟩ :=
        hfamily.sbrk_kept hlive (h.words .rdi) (hhigh.sbrk hintno)
      have hfollows := hstays s₁ T hfamily₁ howners (hcall _ hintno (by decide) (by decide))
      refine ⟨setRax s₁ r, .back, ?_, hfollows.alike (Alike.setRax s₁ r), hcur⟩
      rw [dispatch_sbrk hintno, hsaved, hcode]
      rfl
    · obtain ⟨s₁, hcode, hfollows, hcur⟩ := h.processFree_kept hfamily (Or.inl hintno)
      refine ⟨s₁, .reschedule, ?_, hfollows, hcur⟩
      rw [dispatch_exit hintno, hcode]
      rfl
    · have hfollows := hstays s T hfamily id (hcall _ hintno (by decide) (by decide))
      exact ⟨s, .reschedule, dispatch_yield hintno, hfollows, rfl⟩
    · have hfollows := hstays s T hfamily id (hcall _ hintno (by decide) (by decide))
      exact ⟨setRax s s.current, .back, dispatch_getpid hintno, hfollows.alike (Alike.setRax s _), rfl⟩
    · have hfollows := hstays s T hfamily id (hcall _ hintno (by decide) (by decide))
      exact ⟨_, .reschedule, dispatch_timer hintno, hfollows.alike (Alike.of_processes rfl rfl rfl), rfl⟩
  · rw [dispatch_pageFault hfault.intno]
    by_cases hheap : HeapFault s addr
    · have hlimit := Nat.lt_of_lt_of_le (hfamily.limit s.current) (Nat.sub_le _ _)
      obtain ⟨s₁, pn, hcode, hs⟩ := hfamily.accounted.pageFault_heap hlive hlimit
        (hfault.present.2 hheap.missing) hheap
      obtain ⟨hfamily₁, howners⟩ := hfamily.supplied hs hlive
      have hgoes : ¬ Leaving s reg addr := by
        rintro (hexit | ⟨-, hother⟩)
        · exact absurd (hexit.symm.trans hfault.intno) (by decide)
        · exact hother hheap
      refine ⟨s₁, .back, ?_, hstays s₁ T hfamily₁ howners hgoes, hs.only.current⟩
      rw [hcode]
      rfl
    · obtain ⟨s₁, hcode, hfollows, hcur⟩ := h.processFree_kept hfamily (Or.inr ⟨hfault.intno, hheap⟩)
      refine ⟨s₁, .back, ?_, hfollows, hcur⟩
      rw [hfamily.accounted.pageFault_other hfault.current hfault.present hfault.user hheap,
        hfamily.accounted.killCurrent_eq hlive, hcode]
      rfl

/-- The handler, once the registers are saved. -/
theorem dispatch_follows {s₁ : State} (h : FamilyTrap s reg addr) (hfamily : Family s T)
    (hhigh : KeepsHigh s reg) (he : Entered s s₁ reg) :
    ∃ s₂ after, dispatch s₁ reg addr = .ok (s₂, after) ∧
      Follows s₁ s₂ (Leaving s reg addr ∧ ¬ NoneShared s) ∧ s₂.current = s₁.current := by
  have hsame := Alike.of_entered he
  have hsaved : (s₁.processes s₁.current).registers = reg := by
    rw [he.current, he.process_self]
  obtain ⟨s₂, after, hdispatch, hfollows, hcurrent⟩ :=
    (h.entered he).dispatch_kept (hsame.family hfamily) (hhigh.entered he) hsaved
  rw [Leaving.entered he, hsame.noneShared he.current] at hfollows
  exact ⟨s₂, after, hdispatch, hfollows, hcurrent⟩

/-- A trap that has been handled. -/
theorem exception_kept (h : FamilyTrap s reg addr) (hfamily : Family s T) (hhigh : KeepsHigh s reg)
    {next : Option Nat} (hcode : exception s reg addr = .ok (s', next)) :
    Follows s s' (Leaving s reg addr ∧ ¬ NoneShared s) := by
  obtain ⟨s₁, s₂, after, he, hdispatch, hresume⟩ := exception_eq_ok hcode
  obtain ⟨s₃, after₃, hdispatch₃, hfollows, -⟩ := h.dispatch_follows hfamily hhigh he
  rw [hdispatch₃] at hdispatch
  obtain ⟨rfl, rfl⟩ := ok_pair.1 hdispatch
  have hpicked : Alike s₃ s' := by
    rw [(resume_only hresume).1]
    exact Alike.of_processes rfl rfl rfl
  exact (hfollows.from_alike (Alike.of_entered he)).alike hpicked

/-- With the owners right, the trap is handled. -/
theorem exception_ok (h : FamilyTrap s reg addr) (hfamily : Family s T) (howners : OwnersLive s)
    (hhigh : KeepsHigh s reg) : ∃ s' next, exception s reg addr = .ok (s', next) := by
  obtain ⟨s', next, hcode, -⟩ := hfamily.exception_follows howners h.current
    fun _ he => h.dispatch_follows hfamily hhigh he
  exact ⟨s', next, hcode⟩

end FamilyTrap

/-! ## Bytes that user code may change -/

/-- Only bytes on pages that the process may write differ. -/
def UserChanges (m m' : Mem) (root : Nat) : Prop :=
  ∀ x, m' x ≠ m x → ∃ va, UserWritable m root va ∧
    x / PAGESIZE = (virtualMemoryLookup m root va).pa / PAGESIZE

/-- The running process has changed bytes that it may write. -/
structure CurrentChanges (s : State) (m : Mem) : Prop where
  current : s.current < NPROC
  running : (s.processes s.current).state = .runnable
  bytes : UserChanges s.mem m (s.processes s.current).pagetable

namespace Family

variable {s s' : State} {T : Nat → Tables} {pid : Nat}

/-- A process may write its own pages and the console. -/
theorem writable_page (h : Family s T) (hpid : pid ∈ live s) {va : Nat}
    (hw : UserWritable s.mem (T pid).l1 va) :
    (virtualMemoryLookup s.mem (T pid).l1 va).pa / PAGESIZE = CONSOLE_ADDR / PAGESIZE ∨
    0 < references s.mem (T pid).l1 userPages ((virtualMemoryLookup s.mem (T pid).l1 va).pa / PAGESIZE) := by
  rcases (h.accounted.space pid hpid).mapped_cases hw.mapped with ⟨-, hlookup⟩ | ⟨huser, hmap⟩
  · left
    rw [UserWritable, hlookup] at hw
    rw [hlookup]
    by_contra hne
    have hother : va % 2 ^ 48 / PAGESIZE ≠ CONSOLE_ADDR / PAGESIZE := hne
    rw [lowMapping_other hother] at hw
    exact absurd hw (by decide : ¬ (3 : Nat) &&& 7 = 7)
  · right
    apply references_pos.2
    refine ⟨va % 2 ^ 48, huser, ?_, ?_⟩
    · rw [Mapped, lookup_mod]
      exact hw.mapped
    · rw [lookup_mod, hmap.pn.2.2]
      simp only [PAGESIZE]
      omega

/-- Such bytes concern neither the page tables nor the page counts. -/
theorem userChanges (h : Family s T) (hpid : pid ∈ live s) {m' : Mem}
    (hchanges : UserChanges s.mem m' (T pid).l1) : Family { s with mem := m' } T := by
  -- a page with a byte that differs is the console or a page of the process
  have hpage : ∀ t, t % 4096 = 0 → ∀ x, InRange t 4096 x → m' x ≠ s.mem x →
      t / PAGESIZE = CONSOLE_ADDR / PAGESIZE ∨ Ordinary (t / PAGESIZE) ∧ ∀ j ∈ live s, t ∉ (T j).pages := by
    intro t ht x hx hne
    obtain ⟨va, hw, hsame⟩ := hchanges x hne
    have htx : x / PAGESIZE = t / PAGESIZE := by
      obtain ⟨hlow, hhigh⟩ := hx
      simp only [PAGESIZE]
      omega
    rcases h.writable_page hpid hw with hconsole | hpos
    · left
      rw [← htx, hsame]
      exact hconsole
    · right
      rw [← hsame, htx] at hpos
      obtain ⟨hord, hapart⟩ := h.accounted.frames_apart hpid hpos
      rw [page_mul_div ht] at hapart
      exact ⟨hord, hapart⟩
  refine ⟨h.accounted.congr (fun t ht x hx => ?_) (fun j hj t ht x hx => ?_) rfl fun _ _ => rfl, h.limit⟩
  · by_contra hne
    rcases hpage t (kernelTables_ok.aligned t ht) x hx hne with hconsole | ⟨hord, -⟩
    · have hnone : ∀ t ∈ kernelTables.pages, t / PAGESIZE ≠ CONSOLE_ADDR / PAGESIZE := by decide
      exact hnone t ht hconsole
    · exact not_ordinary_kernelTables ht hord
  · by_contra hne
    have hspace := h.accounted.space j hj
    rcases hpage t (hspace.tables.aligned t ht) x hx hne with hconsole | ⟨-, hapart⟩
    · have hord := hspace.ordinary t ht
      rw [hconsole] at hord
      exact absurd hord (by decide)
    · exact hapart j hj ht

theorem currentChanges (h : Family s T) {m : Mem} (hchanges : CurrentChanges s m) :
    Family { s with mem := m } T := by
  have hlive := mem_live_of_runnable hchanges.current hchanges.running
  apply h.userChanges hlive
  rw [← h.accounted.root _ hlive]
  exact hchanges.bytes

end Family

/-! ## Runs -/

/-- One step of the machine: the running process changes bytes that it may write, or makes a trap that is
`careful`. -/
inductive FamilyStep (careful : State → Registers → Nat → Prop) (s : State) : State → Prop where
  | changes {m : Mem} (h : CurrentChanges s m) : FamilyStep careful s { s with mem := m }
  | trap {reg : Registers} {addr : Nat} {s' : State} {next : Option Nat} (h : FamilyTrap s reg addr)
      (hcareful : careful s reg addr) (hcode : exception s reg addr = .ok (s', next)) :
      FamilyStep careful s s'

section Runs

variable {careful : State → Registers → Nat → Prop} {s s' : State} {T : Nat → Tables}

theorem Family.step (h : Family s T) (hhigh : ∀ s reg addr, careful s reg addr → KeepsHigh s reg)
    (hstep : FamilyStep careful s s') : ∃ T', Family s' T' := by
  cases hstep with
  | changes hchanges => exact ⟨T, h.currentChanges hchanges⟩
  | trap htrap hcareful hcode =>
      exact (htrap.exception_kept h (hhigh _ _ _ hcareful) hcode).family

theorem Family.run (h : Family s T) (hhigh : ∀ s reg addr, careful s reg addr → KeepsHigh s reg)
    (hrun : Relation.ReflTransGen (FamilyStep careful) s s') : ∃ T', Family s' T' := by
  induction hrun with
  | refl => exact ⟨T, h⟩
  | tail _ hstep ih =>
      obtain ⟨T₁, h₁⟩ := ih
      exact h₁.step hhigh hstep

/-- The first processes. -/
theorem Booted.family (h : Booted s T) : Family s T := by
  refine ⟨h.isolated.accounted, fun pid => ?_⟩
  by_cases hpid : pid ∈ live s
  · exact (h.isolated.breaks pid hpid).limit
  · rw [h.unused pid hpid]
    decide

/-- Whatever boots has booted in the way that `kernel_spec` says. -/
theorem booted_of_kernel {bytes : Nat → Nat → UInt8} {m : Mem} {command : Option String} {next : Option Nat}
    (h : kernel bytes m command = .ok (s, next)) : ∃ T, Booted s T := by
  obtain ⟨s₁, T, hkernel, hboot, -⟩ := kernel_spec bytes m command
  rw [hkernel] at h
  rw [← (ok_pair.1 h).1]
  exact ⟨T, hboot⟩

end Runs

end MemoryManagement.Kernel
