import MemoryManagement.Kernel.ForkContents
import MemoryManagement.Kernel.PrivateMemory
import MemoryManagement.Kernel.SystemCalls

/-!
# Processes that share no writable page

After a `fork` two processes map the same read-only pages, but no page that a process can write is mapped by
another one (`Separate`). Each operation of the kernel keeps this, leaves what the others have alone
(`OthersKept`), and changes the cells of its own process in a way that is said here.
-/

set_option autoImplicit false

namespace MemoryManagement.Kernel

open MemoryManagement.Library.ByteMemory
open MemoryManagement.Library.RefCount

/-- A family of processes in which a writable page has one user. -/
structure Separate (s : State) (T : Nat → Tables) : Prop where
  family : Family s T
  alone : ∀ j ∈ live s, ∀ va, UserPart va → (virtualMemoryLookup s.mem (T j).l1 va).perm = 7 →
    ∀ k ∈ live s, k ≠ j → uses s.mem (T k) (virtualMemoryLookup s.mem (T j).l1 va).pn.toNat = 0

/-- What a process reads in the user part. -/
def State.cells (s : State) (pid : Nat) : Memory := fun va =>
  if PROC_START_ADDR ≤ va ∧ va < MEMSIZE_VIRTUAL ∧ s.HasPage pid va then
    some ⟨decide ((s.lookup pid va).perm &&& PTE_W ≠ 0), s.byteAt pid va⟩
  else none

section Cells

variable {s s' : State} {T : Nat → Tables} {pid j va : Nat}

theorem cells_of_page (huser : UserPart va) (hm : s.HasPage pid va) :
    s.cells pid va = some ⟨decide ((s.lookup pid va).perm &&& PTE_W ≠ 0), s.byteAt pid va⟩ :=
  if_pos ⟨huser.1, huser.2, hm⟩

theorem cells_eq_none : s.cells pid va = none ↔ (UserPart va → ¬ s.HasPage pid va) := by
  constructor
  · intro hnone huser hm
    rw [cells_of_page huser hm] at hnone
    cases hnone
  · intro hnot
    exact if_neg fun h => hnot ⟨h.1, h.2.1⟩ h.2.2

/-- Cells are the same where translations and bytes are. -/
theorem cells_congr (hlookup : s'.lookup pid va = s.lookup pid va)
    (hbyte : UserPart va → s.HasPage pid va → s'.mem (s.lookup pid va).pa = s.mem (s.lookup pid va).pa) :
    s'.cells pid va = s.cells pid va := by
  have hpage : s'.HasPage pid va ↔ s.HasPage pid va := by
    rw [State.lookup, State.lookup] at hlookup
    rw [State.HasPage, State.HasPage, Mapped, Mapped, hlookup]
  by_cases h : UserPart va ∧ s.HasPage pid va
  · rw [cells_of_page h.1 h.2, cells_of_page h.1 (hpage.2 h.2), State.byteAt, State.byteAt, hlookup,
      hbyte h.1 h.2]
  · have hnone : s.cells pid va = none := cells_eq_none.2 fun huser hm => h ⟨huser, hm⟩
    rw [hnone, cells_eq_none]
    exact fun huser hm => h ⟨huser, hpage.1 hm⟩

theorem OthersKept.cells (h : OthersKept s s' pid) (hj : j ∈ live s) (hne : j ≠ pid) :
    s'.cells j = s.cells j := by
  funext va
  apply cells_congr (h.lookup j hj hne va)
  intro huser hm
  have hbyte := h.bytes j hj hne va huser hm
  rw [State.byteAt, State.byteAt, h.lookup j hj hne va] at hbyte
  exact hbyte

/-- The others have what they had, when no byte of a page of theirs has changed. -/
theorem Accounted.othersKept (h : Accounted s (live s) T ∅)
    (hprocs : ∀ j, j ≠ pid → s'.processes j = s.processes j)
    (hlookup : ∀ j ∈ live s, j ≠ pid → ∀ va,
      virtualMemoryLookup s'.mem (T j).l1 va = virtualMemoryLookup s.mem (T j).l1 va)
    (hbytes : ∀ j ∈ live s, j ≠ pid → ∀ va, UserPart va → Mapped s.mem (T j).l1 va →
      s'.mem (virtualMemoryLookup s.mem (T j).l1 va).pa = s.mem (virtualMemoryLookup s.mem (T j).l1 va).pa) :
    OthersKept s s' pid := by
  have hsame : ∀ j ∈ live s, j ≠ pid → ∀ va, s'.lookup j va = s.lookup j va := by
    intro j hj hne va
    rw [State.lookup, State.lookup, hprocs j hne, h.root j hj]
    exact hlookup j hj hne va
  refine ⟨hprocs, hsame, fun j hj hne va huser hm => ?_⟩
  rw [State.byteAt, State.byteAt, hsame j hj hne, State.lookup, h.root j hj]
  rw [State.HasPage, h.root j hj] at hm
  exact hbytes j hj hne va huser hm

/-- Bytes of free pages and of a process's own page table do not matter to any page. -/
theorem Accounted.byte_kept (h : Accounted s (live s) T ∅) (hpid : pid ∈ live s)
    (hframe : ∀ x, s'.mem x ≠ s.mem x → OnFreePage s x ∨ OnTable (T pid) x) (hj : j ∈ live s)
    (huser : UserPart va) (hm : Mapped s.mem (T j).l1 va) :
    s'.mem (virtualMemoryLookup s.mem (T j).l1 va).pa = s.mem (virtualMemoryLookup s.mem (T j).l1 va).pa := by
  obtain ⟨hfree, htable⟩ := h.user_address hj huser hm
  by_contra hne
  rcases hframe _ hne with hon | hon
  · exact hfree hon
  · exact htable pid hpid hon

end Cells

section Writable

variable {m : Mem} {U : Tables} {map : Vamapping} {va : Nat}

theorem UserMapping.page_pa (h : UserMapping map va) : map.pa / PAGESIZE = map.pn.toNat := by
  rw [h.pn.2.2]
  simp only [PAGESIZE]
  omega

/-- A process may write to the console and to its writable pages. -/
theorem Space.writable_cases (h : Space m U) (hw : UserWritable m U.l1 va) :
    (virtualMemoryLookup m U.l1 va).pa / PAGESIZE = CONSOLE_ADDR / PAGESIZE ∨
    ∃ w, UserPart w ∧ Mapped m U.l1 w ∧ (virtualMemoryLookup m U.l1 w).perm = 7 ∧
      (virtualMemoryLookup m U.l1 w).pn.toNat = (virtualMemoryLookup m U.l1 va).pa / PAGESIZE := by
  rcases h.mapped_cases hw.mapped with ⟨-, hlookup⟩ | ⟨huser, hmap⟩
  · left
    rw [UserWritable, hlookup] at hw
    rw [hlookup]
    by_contra hne
    have hother : va % 2 ^ 48 / PAGESIZE ≠ CONSOLE_ADDR / PAGESIZE := hne
    rw [lowMapping_other hother] at hw
    exact absurd hw (by decide : ¬ (3 : Nat) &&& 7 = 7)
  · right
    refine ⟨va % 2 ^ 48, huser, ?_, ?_, ?_⟩
    · rw [Mapped, lookup_mod]
      exact hw.mapped
    · obtain ⟨pn, perm, -, hperm, heq⟩ := hmap
      rw [UserWritable, heq] at hw
      rw [lookup_mod, heq]
      rcases hperm with rfl | rfl
      · rfl
      · exact absurd hw (by decide : ¬ (5 : Nat) &&& 7 = 7)
    · rw [lookup_mod, hmap.page_pa]

end Writable

namespace Separate

variable {s s' : State} {T : Nat → Tables} {pid : Nat}

theorem alike (h : Separate s T) (hsame : Alike s s') : Separate s' T := by
  refine ⟨hsame.family h.family, ?_⟩
  rw [hsame.live, hsame.mem]
  exact h.alone

/-! ## Stores -/

/-- No page table of a process has a byte that a process may write. -/
theorem lookup_userChanges (h : Separate s T) (hpid : pid ∈ live s) {m' : Mem}
    (hchanges : UserChanges s.mem m' (T pid).l1) {j : Nat} (hj : j ∈ live s) (va : Nat) :
    virtualMemoryLookup m' (T j).l1 va = virtualMemoryLookup s.mem (T j).l1 va := by
  have hacc := h.family.accounted
  have hspace := hacc.space j hj
  apply hspace.linked.lookup_congr hspace.tables
  intro t ht x hx
  by_contra hne
  obtain ⟨w, hw, hsame⟩ := hchanges x hne
  have halign := hspace.tables.aligned t ht
  have htx : x / PAGESIZE = t / PAGESIZE := by
    obtain ⟨hlow, hhigh⟩ := hx
    simp only [PAGESIZE]
    omega
  rcases h.family.writable_page hpid hw with hconsole | hpos
  · have hord := hspace.ordinary t ht
    rw [← htx, hsame, hconsole] at hord
    exact absurd hord (by decide)
  · rw [← hsame, htx] at hpos
    have hapart := (hacc.frames_apart hpid hpos).2 j hj
    rw [page_mul_div halign] at hapart
    exact hapart ht

/-- A byte that has changed is one that nobody else maps, and it is writable where it is mapped. -/
theorem changed_byte (h : Separate s T) (hpid : pid ∈ live s) {m' : Mem}
    (hchanges : UserChanges s.mem m' (T pid).l1) {j va : Nat} (hj : j ∈ live s) (huser : UserPart va)
    (hm : Mapped s.mem (T j).l1 va)
    (hne : m' (virtualMemoryLookup s.mem (T j).l1 va).pa ≠ s.mem (virtualMemoryLookup s.mem (T j).l1 va).pa) :
    j = pid ∧ (virtualMemoryLookup s.mem (T j).l1 va).perm = 7 := by
  have hacc := h.family.accounted
  have hmap := (hacc.space j hj).user va huser hm
  obtain ⟨w, hw, hsame⟩ := hchanges _ hne
  rw [hmap.page_pa] at hsame
  rcases (hacc.space pid hpid).writable_cases hw with hconsole | ⟨w', huser', hm', hperm, hpn⟩
  · -- the console is no ordinary page
    have hord := hmap.pn.1
    rw [hsame, hconsole] at hord
    exact absurd hord (by decide)
  · rw [← hsame] at hpn
    by_cases hjp : j = pid
    · subst hjp
      have hmap' := (hacc.space j hj).user w' huser' hm'
      have hpage : page48 va = page48 w' := by
        apply (hacc.space j hj).once va w' huser huser' hm hm'
        rw [hmap.pn.2.1, hmap'.pn.2.1, hpn]
      refine ⟨rfl, ?_⟩
      rw [(hm'.same_page hpage).2.2.2, hperm]
    · -- a page of two processes is not writable
      have hzero := h.alone pid hpid w' huser' hperm j hj hjp
      have hrefs := references_pos.2 ⟨va, huser, hm, rfl⟩
      rw [hpn, uses] at hzero
      omega

/-- Bytes that a process may write are its own. -/
theorem userChanges (h : Separate s T) (hpid : pid ∈ live s) {m' : Mem}
    (hchanges : UserChanges s.mem m' (T pid).l1) {s' : State} (hs' : s' = { s with mem := m' }) :
    Separate s' T ∧ OthersKept s s' pid ∧ Stored (s.cells pid) (s'.cells pid) := by
  have hacc := h.family.accounted
  have hroot := hacc.root pid hpid
  have hfamily : Family s' T := by
    rw [hs']
    exact h.family.userChanges hpid hchanges
  have hmem : s'.mem = m' := by rw [hs']
  have hprocs : s'.processes = s.processes := by rw [hs']
  have hlive : live s' = live s := live_congr fun j _ => by rw [hprocs]
  have hlookup : ∀ j ∈ live s, ∀ va,
      virtualMemoryLookup s'.mem (T j).l1 va = virtualMemoryLookup s.mem (T j).l1 va := by
    intro j hj va
    rw [hmem]
    exact h.lookup_userChanges hpid hchanges hj va
  have hsame : ∀ va, s'.lookup pid va = s.lookup pid va := by
    intro va
    rw [State.lookup, State.lookup, hprocs, hroot]
    exact hlookup pid hpid va
  refine ⟨⟨hfamily, ?_⟩, ?_, fun va => ?_⟩
  · rw [hlive]
    intro j hj va huser hperm k hk hne
    rw [hlookup j hj] at hperm ⊢
    rw [uses, references_congr fun va _ => hlookup k hk va, ← uses]
    exact h.alone j hj va huser hperm k hk hne
  · apply hacc.othersKept
    · intro j _
      rw [hprocs]
    · exact fun j hj _ => hlookup j hj
    · intro j hj hne va huser hm
      rw [hmem]
      by_contra hdiff
      exact hne (h.changed_byte hpid hchanges hj huser hm hdiff).1
  · -- a cell differs in its byte at most, and only if it is writable
    by_cases hbyte : UserPart va → s.HasPage pid va → s'.mem (s.lookup pid va).pa = s.mem (s.lookup pid va).pa
    · have hcell := cells_congr (hsame va) hbyte
      rw [hcell]
      exact ⟨rfl, fun _ => rfl⟩
    · obtain ⟨huser, hbyte⟩ := Classical.not_imp.1 hbyte
      obtain ⟨hm, hbyte⟩ := Classical.not_imp.1 hbyte
      have hm' : s'.HasPage pid va := by
        have hcopy := hsame va
        rw [State.lookup, State.lookup] at hcopy
        rw [State.HasPage, Mapped, hcopy]
        exact hm
      rw [State.HasPage, hroot] at hm
      rw [State.lookup, hroot, hmem] at hbyte
      have hperm := (h.changed_byte hpid hchanges hpid huser hm hbyte).2
      rw [← hroot] at hm hperm
      rw [cells_of_page huser hm', cells_of_page huser hm, hsame]
      refine ⟨rfl, fun hnot => absurd ?_ hnot⟩
      show some (decide ((s.lookup pid va).perm &&& PTE_W ≠ 0)) = some true
      rw [State.lookup, hperm]
      rfl

/-! ## Exits -/

/-- A process that is released takes nothing from the others. -/
theorem released (h : Separate s T) (hpid : s.current ∈ live s) :
    Separate (Kernel.released s (T s.current) s.current) T ∧
      OthersKept s (Kernel.released s (T s.current) s.current) s.current := by
  obtain ⟨s', hs'⟩ : ∃ s', s' = Kernel.released s (T s.current) s.current := ⟨_, rfl⟩
  have hlive : live s' = (live s).erase s.current := by
    rw [hs']
    exact Isolated.live_released (T s.current)
  have hother : ∀ j, j ≠ s.current → s'.processes j = s.processes j := by
    intro j hj
    rw [hs']
    exact State.setProc_other s _ hj
  have hmem : s'.mem = s.mem := by rw [hs']; rfl
  have hfamily : Family s' T := by
    constructor
    · rw [hlive, hs']
      exact h.family.accounted.leave hpid
    · intro j
      by_cases hj : j = s.current
      · have hself : s'.processes s.current = { s.processes s.current with state := .free } := by
          rw [hs']
          exact State.setProc_self ..
        rw [hj, hself]
        exact h.family.limit s.current
      · rw [hother j hj]
        exact h.family.limit j
  rw [← hs']
  refine ⟨⟨hfamily, ?_⟩, OthersKept.of_mem hmem hother⟩
  rw [hlive, hmem]
  intro j hj va huser hperm k hk hne
  exact h.alone j (Finset.mem_erase.1 hj).2 va huser hperm k (Finset.mem_erase.1 hk).2 hne

/-! ## Fresh pages -/

/-- A page that has just been allocated is mapped. -/
theorem supplied {i pn : Nat} (h : Separate s T) (hpid : pid ∈ live s)
    (hs : Supplied s s' (live s) T pid i pn) : Separate s' T ∧ OthersKept s s' pid := by
  have hacc := h.family.accounted
  have hprocs := hs.only.processes
  have hlive : live s' = live s := live_congr fun j _ => by rw [hprocs]
  have hfamily := (h.family.supplied hs hpid).1
  have hfresh := hacc.unused hs.ordinary (by rw [hs.wasFree])
  refine ⟨⟨hfamily, ?_⟩, ?_⟩
  · rw [hlive]
    intro j hj va huser hperm k hk hne
    by_cases hnew : j = pid ∧ page48 va = i
    · -- the new page was free
      obtain ⟨rfl, hpage⟩ := hnew
      rw [hs.lookup, if_pos hpage, Int.toNat_natCast, hs.uses_other hk hne]
      exact hfresh.1 k hk
    · have hsame : virtualMemoryLookup s'.mem (T j).l1 va = virtualMemoryLookup s.mem (T j).l1 va := by
        by_cases hj' : j = pid
        · rw [hj', hs.lookup, if_neg fun e => hnew ⟨hj', e⟩]
        · exact hs.others j hj hj' va
      rw [hsame] at hperm ⊢
      have hzero := h.alone j hj va huser hperm k hk hne
      by_cases hk' : k = pid
      · have hm : Mapped s.mem (T j).l1 va := by
          rw [mapped_iff_perm, hperm]
          decide
        have hrefs := references_pos.2 ⟨va, huser, hm, rfl⟩
        have huse := hfresh.1 j hj
        rw [hk'] at hzero ⊢
        rw [hs.uses_same hacc hpid ((hacc.space j hj).ordinary_of_references hrefs), hzero]
        rintro e
        rw [← e, uses] at huse
        omega
      · rw [hs.uses_other hk hk', hzero]
  · apply hacc.othersKept
    · intro j _
      rw [hprocs]
    · exact hs.others
    · intro j hj _ va huser hm
      apply hacc.byte_kept hpid _ hj huser hm
      intro x hx
      by_cases hin : InRange (PAGESIZE * pn) PAGESIZE x
      · exact Or.inl ⟨pn, hs.ordinary, hs.wasFree, hin⟩
      · right
        by_contra hnot
        exact hx (hs.bytes x hin fun t ht hxt => hnot ⟨t, ht, hxt⟩)

/-- The process has one page more, with fresh bytes in it. -/
theorem supplied_cells {i pn : Nat} (h : Separate s T) (hpid : pid ∈ live s)
    (hs : Supplied s s' (live s) T pid i pn) (hi : 256 ≤ i) (hi' : i < 768)
    (hfilled : ∀ x, InRange (PAGESIZE * pn) PAGESIZE x → s'.mem x = 0xCC) :
    s'.cells pid = (s.cells pid).fill i := by
  have hacc := h.family.accounted
  have hroot := hacc.root pid hpid
  have hroot' : (s'.processes pid).pagetable = (T pid).l1 := by
    rw [hs.only.processes, hroot]
  funext va
  rw [Memory.fill]
  by_cases hva : va / PAGESIZE = i
  · have huser : UserPart va := by
      simp only [PAGESIZE] at hva
      simp only [UserPart, PROC_START_ADDR, MEMSIZE_VIRTUAL]
      omega
    have hpage : page48 va = i := huser.page48_eq.trans hva
    have hlookup := hs.lookup va
    rw [if_pos hpage] at hlookup
    have hm : s'.HasPage pid va := by
      rw [State.HasPage, hroot', hs.mapped_iff]
      exact Or.inl hpage
    rw [if_pos hva, cells_of_page huser hm, State.byteAt, State.lookup, hroot', hlookup]
    have hbyte : s'.mem (PAGESIZE * pn + va % PAGESIZE) = 0xCC :=
      hfilled _ ⟨Nat.le_add_right _ _, Nat.add_lt_add_left (Nat.mod_lt _ (by decide)) _⟩
    rw [hbyte]
    have hwritable : decide ((7 : Nat) &&& PTE_W ≠ 0) = true := by decide
    exact congrArg (fun b => some (Cell.mk b 0xCC)) hwritable
  · rw [if_neg hva]
    by_cases huser : UserPart va
    · have hlookup := hs.lookup va
      rw [if_neg fun e => hva (huser.page48_eq.symm.trans e)] at hlookup
      apply cells_congr
      · rw [State.lookup, State.lookup, hroot, hroot', hlookup]
      · intro _ hm
        rw [State.HasPage, hroot] at hm
        rw [State.lookup, hroot]
        apply hacc.byte_kept hpid _ hpid huser hm
        intro x hx
        by_cases hin : InRange (PAGESIZE * pn) PAGESIZE x
        · exact Or.inl ⟨pn, hs.ordinary, hs.wasFree, hin⟩
        · right
          by_contra hnot
          exact hx (hs.bytes x hin fun t ht hxt => hnot ⟨t, ht, hxt⟩)
    · rw [cells_eq_none.2 fun e => absurd e huser, cells_eq_none.2 fun e => absurd e huser]

/-! ## Breaks -/

/-- Pages of the user part are given up, and the break of the process is set. -/
theorem lowered {d : Nat} (h : Separate s T) (hpid : pid ∈ live s) (hd : d < 2 ^ 64)
    (hacc : BreakAccepted (s.processes pid) d) (hneg : Negative d)
    (hlow : PROC_START_ADDR ≤ newBreak (s.processes pid) d) (hs' : s' = shrunk s pid d) :
    Separate s' T ∧ OthersKept s s' pid ∧
      s'.cells pid = (s.cells pid).drop (newBreak (s.processes pid) d / PAGESIZE)
        (((s.processes pid).programBreak + PAGESIZE - 1) / PAGESIZE) := by
  have haccounted := h.family.accounted
  have hspace := haccounted.space pid hpid
  have hroot := haccounted.root pid hpid
  have hlimit := h.family.limit pid
  obtain ⟨pages, hpages⟩ : ∃ pages, pages = givenUp (s.processes pid) d := ⟨_, rfl⟩
  have hsub : ∀ va ∈ pages, va ∈ userPages := by
    rw [hpages]
    exact givenUp_user hlimit hacc hlow
  have hhides := (haccounted.tableOk hpid).hidePages pages
  obtain ⟨-, hbytes⟩ := hspace.linked.hidePages hspace.tables pages
  have hmem : s'.mem = hidePages s.mem (T pid).l1 pages := by
    rw [hs', hpages, ← hroot]
    rfl
  have hself : s'.processes pid = { s.processes pid with programBreak := newBreak (s.processes pid) d } := by
    rw [hs']
    exact State.setProc_self ..
  have hother : ∀ j, j ≠ pid → s'.processes j = s.processes j := by
    intro j hj
    rw [hs']
    exact State.setProc_other s _ hj
  have hlive : live s' = live s := by
    apply live_congr
    intro j _
    by_cases hj : j = pid
    · rw [hj, hself]
    · rw [hother j hj]
  have hroots : ∀ j, (s'.processes j).pagetable = (s.processes j).pagetable := by
    intro j
    by_cases hj : j = pid
    · rw [hj, hself]
    · rw [hother j hj]
  -- only the last-level tables of the process have been written to
  have hframe : ∀ x, s'.mem x ≠ s.mem x → OnTable (T pid) x := by
    intro x hx
    by_contra hnot
    apply hx
    rw [hmem]
    exact hbytes x (fun hxa => hnot ⟨_, (T pid).l4a_mem, hxa⟩) fun hxb => hnot ⟨_, (T pid).l4b_mem, hxb⟩
  have hothers : ∀ j ∈ live s, j ≠ pid → ∀ va,
      virtualMemoryLookup s'.mem (T j).l1 va = virtualMemoryLookup s.mem (T j).l1 va := by
    intro j hj hne va
    rw [hmem]
    exact haccounted.lookup_of_leaves hpid hbytes hj hne va
  -- what is left was there before
  have hkept : ∀ j ∈ live s, ∀ va, Mapped s'.mem (T j).l1 va → Mapped s.mem (T j).l1 va ∧
      virtualMemoryLookup s'.mem (T j).l1 va = virtualMemoryLookup s.mem (T j).l1 va := by
    intro j hj va hm
    by_cases hj' : j = pid
    · rw [hj', hmem] at hm ⊢
      exact lookup_hidePages hhides hm
    · rw [Mapped, hothers j hj hj'] at hm
      exact ⟨hm, hothers j hj hj' va⟩
  have hfewer : ∀ k ∈ live s, ∀ q, uses s.mem (T k) q = 0 → uses s'.mem (T k) q = 0 := by
    intro k hk q hzero
    rw [uses_eq_zero] at hzero ⊢
    refine ⟨references_eq_zero.2 fun va huser hm hpn => ?_, hzero.2⟩
    obtain ⟨hm', hsame⟩ := hkept k hk va hm
    rw [hsame] at hpn
    exact references_eq_zero.1 hzero.1 va huser hm' hpn
  refine ⟨⟨?_, ?_⟩, ?_, ?_⟩
  · have hhide := haccounted.hide hpid (nodup_pagesDown _ _) (hpages ▸ hsub)
    constructor
    · rw [hlive]
      refine hhide.of_eq ?_ ?_ fun j _ => hroots j
      · rw [hmem, hpages]
        rfl
      · rw [hs', ← hroot]
        rfl
    · intro j
      by_cases hj : j = pid
      · rw [hj, hself]
        exact hacc.1
      · rw [hother j hj]
        exact h.family.limit j
  · rw [hlive]
    intro j hj va huser hperm k hk hne
    have hm : Mapped s'.mem (T j).l1 va := by
      rw [mapped_iff_perm, hperm]
      decide
    rw [(hkept j hj va hm).2] at hperm ⊢
    exact hfewer k hk _ (h.alone j hj va huser hperm k hk hne)
  · apply haccounted.othersKept hother hothers
    intro j hj _ va huser hm
    exact haccounted.byte_kept hpid (fun x hx => Or.inr (hframe x hx)) hj huser hm
  · funext va
    have hlt := newBreak_lt hlimit hd hneg hacc
    rw [Memory.drop]
    -- the pages given up are those from the page of the new break to the page of the old one, rounded up
    have hin : UserPart va → ((newBreak (s.processes pid) d / PAGESIZE ≤ va / PAGESIZE ∧
        va / PAGESIZE ≤ ((s.processes pid).programBreak + PAGESIZE - 1) / PAGESIZE) ↔
        ∃ w ∈ pages, page48 va = page48 w) := by
      intro huser
      rw [hpages, givenUp, huser.page48_eq]
      simp only [mem_pagesDown, PAGESIZE]
      simp only [UserPart, PROC_START_ADDR, MEMSIZE_VIRTUAL, PAGESIZE] at huser hlimit hlow
      constructor
      · rintro ⟨h1, h2⟩
        refine ⟨4096 * (va / 4096), ⟨va / 4096 - newBreak (s.processes pid) d / 4096, by omega, by omega⟩, ?_⟩
        rw [page48]
        omega
      · rintro ⟨w, ⟨i, hi, rfl⟩, hpage⟩
        rw [page48] at hpage
        omega
    by_cases huser : UserPart va
    · by_cases hgone : newBreak (s.processes pid) d / PAGESIZE ≤ va / PAGESIZE ∧
          va / PAGESIZE ≤ ((s.processes pid).programBreak + PAGESIZE - 1) / PAGESIZE
      · rw [if_pos hgone, cells_eq_none]
        intro _ hm
        rw [State.HasPage, hroots, hroot, hmem] at hm
        exact hhides.gone va ((hin huser).1 hgone) hm
      · rw [if_neg hgone]
        apply cells_congr
        · rw [State.lookup, State.lookup, hroots, hroot, hmem]
          exact hhides.kept va fun w hw hpage => hgone ((hin huser).2 ⟨w, hw, hpage⟩)
        · intro _ hm
          rw [State.HasPage, hroot] at hm
          rw [State.lookup, hroot]
          exact haccounted.byte_kept hpid (fun x hx => Or.inr (hframe x hx)) hpid huser hm
    · rw [cells_eq_none.2 fun e => absurd e huser]
      split
      · rfl
      · exact (cells_eq_none.2 fun e => absurd e huser).symm

/-! ## Forks -/

end Separate

section Frame

variable {s s' : State} {T : Nat → Tables} {j : Nat}

/-- Bytes of free pages are in no page table. -/
theorem Accounted.lookup_of_free (h : Accounted s (live s) T ∅)
    (hframe : ∀ x, s'.mem x ≠ s.mem x → OnFreePage s x) (hj : j ∈ live s) (va : Nat) :
    virtualMemoryLookup s'.mem (T j).l1 va = virtualMemoryLookup s.mem (T j).l1 va := by
  have hspace := h.space j hj
  apply hspace.linked.lookup_congr hspace.tables
  intro t ht x hx
  by_contra hne
  obtain ⟨q, hq, hfree, hin⟩ := hframe x hne
  have halign := hspace.tables.aligned t ht
  have hsame := page_eq_of_inRange halign (Nat.mul_mod_right PAGESIZE q) hx hin
  refine h.not_free hj ?_ hfree
  rw [uses, ← hsame, if_pos ht]
  omega

/-- Nor are they bytes that a process can read. -/
theorem Accounted.cells_of_free (h : Accounted s (live s) T ∅)
    (hframe : ∀ x, s'.mem x ≠ s.mem x → OnFreePage s x) (hj : j ∈ live s)
    (hroot : (s'.processes j).pagetable = (s.processes j).pagetable) : s'.cells j = s.cells j := by
  funext va
  apply cells_congr
  · rw [State.lookup, State.lookup, hroot, h.root j hj]
    exact h.lookup_of_free hframe hj va
  · intro huser hm
    rw [State.HasPage, h.root j hj] at hm
    rw [State.lookup, h.root j hj]
    exact h.byte_kept hj (fun x hx => Or.inl (hframe x hx)) hj huser hm

end Frame

namespace Separate

variable {s s' : State} {T : Nat → Tables} {pid child : Nat} {U : Tables}

/-- A fork without a child. -/
theorem notForked (h : Separate s T) (hframe : ∀ x, s'.mem x ≠ s.mem x → OnFreePage s x)
    (hno : NotForked s s' (live s) T) : Separate s' T ∧ live s' = live s := by
  have hacc := h.family.accounted
  have hlive : live s' = live s := by
    apply live_congr
    intro j _
    constructor
    · intro hfree
      by_contra hne
      rw [hno.processes j hne] at hfree
      exact hne hfree
    · exact hno.idle j
  refine ⟨⟨⟨?_, fun j => ?_⟩, ?_⟩, hlive⟩
  · rw [hlive]
    exact hno.accounted
  · rw [(hno.breaks j).1]
    exact h.family.limit j
  · rw [hlive]
    intro j hj va huser hperm k hk hne
    rw [hacc.lookup_of_free hframe hj] at hperm ⊢
    rw [uses, references_congr fun va _ => hacc.lookup_of_free hframe hk va, ← uses]
    exact h.alone j hj va huser hperm k hk hne

/-- The child has no page that another process can write, and none that it can write is another's. -/
theorem child_alone (h : Separate s T) (hpid : pid ∈ live s) (hf : Forked s s' (live s) T pid child U)
    (hd : Duplicated s s' T pid U) {j va : Nat} (hj : j ∈ live s) (huser : UserPart va)
    (hperm : (virtualMemoryLookup s.mem (T j).l1 va).perm = 7) :
    uses s'.mem U (virtualMemoryLookup s.mem (T j).l1 va).pn.toNat = 0 := by
  have hacc := h.family.accounted
  have hm : Mapped s.mem (T j).l1 va := by
    rw [mapped_iff_perm, hperm]
    decide
  obtain ⟨q, hq⟩ : ∃ q, q = (virtualMemoryLookup s.mem (T j).l1 va).pn.toNat := ⟨_, rfl⟩
  have hrefs : 0 < references s.mem (T j).l1 userPages q := references_pos.2 ⟨va, huser, hm, hq.symm⟩
  have hused : 0 < uses s.mem (T j) q := Nat.lt_of_lt_of_le hrefs (Nat.le_add_right _ _)
  have hchildIn : child ∈ insert child (live s) := Finset.mem_insert_self ..
  have hself : Function.update T child U child = U := Function.update_self ..
  have hjc : j ≠ child := by
    rintro rfl
    exact (mem_live.1 hj).2 hf.slot.1
  rw [← hq, uses_eq_zero]
  constructor
  · rw [references_eq_zero]
    intro w hwuser hwm hwpn
    by_cases hw7 : (virtualMemoryLookup s.mem (T pid).l1 w).perm = 7
    · -- the child's page was free
      have hfree := hd.taken w hwuser hw7
      rw [hwpn] at hfree
      exact hacc.not_free hj hused hfree
    · -- a read-only page of the parent is writable for nobody
      obtain ⟨hpage, hsame⟩ := hwuser.page
      have hw7' : (virtualMemoryLookup s.mem (T pid).l1 (4096 * page48 w)).perm ≠ 7 := by
        by_cases hwm' : Mapped s.mem (T pid).l1 w
        · rw [(hwm'.same_page hsame).2.2.2]
          exact hw7
        · rw [not_mapped.1 fun e => hwm' ((Mapped.of_page48 hsame).1 e)]
          exact (by decide : (0 : Nat) ≠ 7)
      have hshared := hf.shared _ hpage hw7'
      have hwmc : Mapped s.mem (T pid).l1 (4096 * page48 w) := by
        rw [Mapped, ← hshared]
        exact (Mapped.of_page48 hsame).2 hwm
      have hwpn' : (virtualMemoryLookup s.mem (T pid).l1 (4096 * page48 w)).pn.toNat = q := by
        rw [← hshared, (hwm.same_page hsame).1]
        exact hwpn
      have hwpart := (mem_userPages.1 hpage).2
      by_cases hjp : j = pid
      · subst hjp
        have hone : page48 va = page48 (4096 * page48 w) := by
          apply (hacc.space j hj).once va _ huser hwpart hm hwmc
          rw [((hacc.space j hj).user va huser hm).pn.2.1,
            ((hacc.space j hj).user _ hwpart hwmc).pn.2.1, hwpn', hq]
        apply hw7'
        rw [← (hwmc.same_page hone).2.2.2, hperm]
      · have hzero := h.alone j hj va huser hperm pid hpid fun e => hjp e.symm
        rw [← hq, uses] at hzero
        have hpos := references_pos.2 ⟨_, hwpart, hwmc, hwpn'⟩
        omega
  · -- the pages of the child's page table are its own
    intro htable
    have halone := hf.accounted.table_alone hchildIn (t := PAGESIZE * q) (by rw [hself]; exact htable)
    have hzero := halone.2.1 j (Finset.mem_insert_of_mem hj) hjc
    rw [Nat.mul_div_cancel_left q (by decide : 0 < PAGESIZE), Function.update_of_ne hjc, uses,
      references_congr fun va _ => hf.others j hj va] at hzero
    omega

/-- A fork that makes a child. -/
theorem forked (h : Separate s T) (hpid : pid ∈ live s) (hf : Forked s s' (live s) T pid child U)
    (hd : Duplicated s s' T pid U) :
    Separate s' (Function.update T child U) ∧ s'.cells child = s.cells pid := by
  have hacc := h.family.accounted
  have hlive := hf.live_eq
  have hself : Function.update T child U child = U := Function.update_self ..
  have hchild : child ∉ live s := fun hmem => (mem_live.1 hmem).2 hf.slot.1
  have hother : ∀ j ∈ live s, Function.update T child U j = T j := by
    intro j hj
    apply Function.update_of_ne
    rintro rfl
    exact hchild hj
  have hsame : ∀ k ∈ live s, ∀ q, uses s'.mem (T k) q = uses s.mem (T k) q := by
    intro k hk q
    rw [uses, references_congr fun va _ => hf.others k hk va, ← uses]
  have hroot : (s'.processes child).pagetable = U.l1 := by rw [hf.made]
  refine ⟨⟨⟨?_, fun j => ?_⟩, ?_⟩, ?_⟩
  · rw [hlive]
    exact hf.accounted
  · by_cases hj : j = child
    · rw [hj, hf.made]
      exact h.family.limit child
    · rw [hf.processes j hj]
      exact h.family.limit j
  · rw [hlive]
    intro j hj va huser hperm k hk hne
    rcases Finset.mem_insert.1 hj with hjc | hj'
    · -- a page that the child can write was free
      have hk' := (Finset.mem_insert.1 hk).resolve_left (hjc ▸ hne)
      rw [hjc, hself] at hperm ⊢
      rw [hother k hk', hsame k hk']
      rw [hd.perm va huser] at hperm
      have hfree := hd.taken va huser hperm
      by_contra hpos
      exact hacc.not_free hk' (Nat.pos_of_ne_zero hpos) hfree
    · rw [hother j hj', hf.others j hj'] at hperm ⊢
      rcases Finset.mem_insert.1 hk with hkc | hk'
      · rw [hkc, hself]
        exact h.child_alone hpid hf hd hj' huser hperm
      · rw [hother k hk', hsame k hk']
        exact h.alone j hj' va huser hperm k hk' hne
  · funext va
    have hpage : UserPart va → (s'.HasPage child va ↔ s.HasPage pid va) := by
      intro huser
      rw [State.HasPage, State.HasPage, hroot, hacc.root pid hpid, mapped_iff_perm, mapped_iff_perm,
        hd.perm va huser]
    by_cases hm : UserPart va ∧ s.HasPage pid va
    · obtain ⟨huser, hm⟩ := hm
      have hm' := (hpage huser).2 hm
      rw [cells_of_page huser hm, cells_of_page huser hm', State.byteAt, State.byteAt, State.lookup,
        State.lookup, hroot, hacc.root pid hpid, hd.perm va huser, hd.bytes va huser]
      rw [State.HasPage, hacc.root pid hpid] at hm
      exact hm
    · rw [cells_eq_none.2 fun huser hp => hm ⟨huser, hp⟩]
      exact cells_eq_none.2 fun huser hp => hm ⟨huser, (hpage huser).1 hp⟩

end Separate

end MemoryManagement.Kernel
