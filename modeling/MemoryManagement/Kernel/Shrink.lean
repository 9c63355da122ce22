import MemoryManagement.Kernel.BreakCalls
import MemoryManagement.Kernel.Exception
import MemoryManagement.Kernel.ProcessTables

/-!
# What shrinking the break does to an address space

A shrinking call of `sbrk` hides the pages of `givenUp`: both the page of the rounded-down new break and
the page of the rounded-up old one are among them. It therefore releases everything above the new break
(`shrink_releases`), but keeps the heap below the new break only when that is page-aligned or its page
was never touched (`shrink_keeps_heap_iff`), and stays inside the heap only when the page after the old
break is not mapped (`shrink_confined_iff`).
-/

set_option autoImplicit false

namespace MemoryManagement.Kernel

open MemoryManagement.Library.ByteMemory

/-- What the process's page table says about an address. -/
def State.lookup (s : State) (pid va : Nat) : Vamapping :=
  virtualMemoryLookup s.mem (s.processes pid).pagetable va

/-- The byte at a virtual address of a process. -/
def State.byteAt (s : State) (pid va : Nat) : UInt8 := s.mem (s.lookup pid va).pa

/-- The process has a page at the address. -/
def State.HasPage (s : State) (pid va : Nat) : Prop := Mapped s.mem (s.processes pid).pagetable va

instance (s : State) (pid va : Nat) : Decidable (s.HasPage pid va) :=
  inferInstanceAs (Decidable (Mapped _ _ _))

/-- The page table of the process is well formed. -/
def State.TableOk (s : State) (pid : Nat) : Prop := Kernel.TableOk s.mem (s.processes pid).pagetable

/-- The address of the stack page. -/
abbrev stackPage : Nat := MEMSIZE_VIRTUAL - PAGESIZE

/-- A machine whose processes all have the breaks given and the page table at `0x1000`. -/
def sampleState (m : Mem) (originalBreak programBreak : Nat) : State :=
  ⟨m, fun _ => ⟨PO_FREE, 0⟩,
    fun _ => ⟨programBreak, originalBreak, fun _ => 0, .runnable, 0x1000, true⟩, 1, 0, false, 0, 0⟩

theorem Sample.tableOk {m : Mem} (h : Sample m) (originalBreak programBreak : Nat) :
    (sampleState m originalBreak programBreak).TableOk 1 :=
  h.ok

theorem lookup_sampleState (m : Mem) (originalBreak programBreak va : Nat) :
    (sampleState m originalBreak programBreak).lookup 1 va = virtualMemoryLookup m 0x1000 va := rfl

theorem hasPage_sampleState (m : Mem) (originalBreak programBreak va : Nat) :
    (sampleState m originalBreak programBreak).HasPage 1 va ↔ Mapped m 0x1000 va :=
  Iff.rfl

/-! ## The pages taken away -/

section Shrunk

variable {s : State} {pid d : Nat}

theorem shrunk_pagetable :
    ((shrunk s pid d).processes pid).pagetable = (s.processes pid).pagetable := by
  have hproc : (shrunk s pid d).processes pid =
      { s.processes pid with programBreak := newBreak (s.processes pid) d } :=
    State.setProc_self s pid _
  rw [hproc]

/-- The pages of `givenUp` are those from the page of the new break to the page of the rounded-up old
break. -/
theorem mem_givenUp_page (hb : BreakBounds (s.processes pid)) (hd : d < 2 ^ 64) (hneg : Negative d)
    (hacc : BreakAccepted (s.processes pid) d) (a : Nat) :
    (∃ va ∈ givenUp (s.processes pid) d, page48 a = page48 va) ↔
      newBreak (s.processes pid) d / 4096 ≤ page48 a ∧
        page48 a ≤ ((s.processes pid).programBreak + 4095) / 4096 := by
  have hlt := newBreak_lt hb.limit hd hneg hacc
  have hlimit := hb.limit
  simp only [MEMSIZE_VIRTUAL, PAGESIZE] at hlimit
  simp only [givenUp, mem_pagesDown]
  constructor
  · rintro ⟨va, ⟨i, hi, rfl⟩, ha⟩
    rw [page48] at ha ⊢
    rw [page48] at ha
    omega
  · rintro ⟨h1, h2⟩
    refine ⟨4096 * page48 a, ⟨page48 a - newBreak (s.processes pid) d / 4096, by omega, by omega⟩, ?_⟩
    rw [page48, page48]
    omega

theorem shrunk_hides (htable : s.TableOk pid) :
    Hides s.mem (shrunk s pid d).mem (s.processes pid).pagetable (givenUp (s.processes pid) d) :=
  htable.hidePages _

/-- Translations after the break has moved down. -/
theorem shrunk_lookup (hb : BreakBounds (s.processes pid)) (htable : s.TableOk pid) (hd : d < 2 ^ 64)
    (hneg : Negative d) (hacc : BreakAccepted (s.processes pid) d) (a : Nat) :
    (shrunk s pid d).lookup pid a =
      if newBreak (s.processes pid) d / 4096 ≤ page48 a ∧
        page48 a ≤ ((s.processes pid).programBreak + 4095) / 4096 then Vamapping.unmapped
      else s.lookup pid a := by
  have hhides := shrunk_hides (d := d) htable
  have hmem := mem_givenUp_page hb hd hneg hacc a
  rw [State.lookup, State.lookup, shrunk_pagetable]
  split
  · rename_i hin
    exact not_mapped.1 (hhides.gone a (hmem.2 hin))
  · rename_i hout
    apply hhides.kept
    intro va hva hpage
    exact hout (hmem.1 ⟨va, hva, hpage⟩)

end Shrunk

/-! ## The heap below the new break -/

/-- Every address below the break `new` is translated as before, and the bytes that the process can
reach there are the same. -/
structure HeapKept (s s' : State) (pid new : Nat) : Prop where
  mapping : ∀ va, va < new → s'.lookup pid va = s.lookup pid va
  bytes : ∀ va, va < new → s.HasPage pid va → UserPart va ∨ (s.lookup pid va).perm &&& PTE_U ≠ 0 →
    s'.mem (s.lookup pid va).pa = s.mem (s.lookup pid va).pa

/-- The break `new` is page-aligned, or its page was never touched. -/
def BreakPageClear (s : State) (pid new : Nat) : Prop :=
  new % PAGESIZE = 0 ∨ ¬ s.HasPage pid (roundDownPage new)

section Heap

variable {s : State} {pid d : Nat}

theorem heapKept_iff (hb : BreakBounds (s.processes pid)) (htable : s.TableOk pid) (hd : d < 2 ^ 64)
    (hneg : Negative d) (hacc : BreakAccepted (s.processes pid) d) :
    HeapKept s (shrunk s pid d) pid (newBreak (s.processes pid) d) ↔
      BreakPageClear s pid (newBreak (s.processes pid) d) := by
  have hlookup := shrunk_lookup hb htable hd hneg hacc
  have hlt := newBreak_lt hb.limit hd hneg hacc
  have hlimit := hb.limit
  have hdown : roundDownPage (newBreak (s.processes pid) d) =
      4096 * (newBreak (s.processes pid) d / 4096) := by
    simp only [roundDownPage, PAGESIZE]
    omega
  simp only [MEMSIZE_VIRTUAL, PAGESIZE] at hlimit
  rw [BreakPageClear, hdown]
  generalize newBreak (s.processes pid) d = new at *
  constructor
  · intro hkept
    by_contra hnot
    obtain ⟨hodd, hpage⟩ := not_or.1 hnot
    simp only [PAGESIZE] at hodd
    have hpage' := not_not.1 hpage
    -- the bytes of the last page below the new break are gone
    have hsame := hkept.mapping (4096 * (new / 4096)) (by omega)
    rw [hlookup, if_pos (by rw [page48]; omega)] at hsame
    exact hpage' hsame.symm
  · intro hclear
    constructor
    · intro va hva
      rw [hlookup]
      split
      · rename_i hin
        rw [page48] at hin
        -- such an address lies on the page of the new break
        have hsame : page48 va = page48 (4096 * (new / 4096)) := by
          rw [page48, page48]
          omega
        have hunmapped : ¬ s.HasPage pid va := by
          rw [State.HasPage, Mapped.of_page48 hsame]
          apply hclear.resolve_left
          simp only [PAGESIZE]
          omega
        exact (not_mapped.1 hunmapped).symm
      · rfl
    · intro va _ hm huser
      exact (shrunk_hides htable).bytes _ (htable.apart va hm huser)

end Heap

/-- A shrinking call keeps the heap below the new break exactly when that is page-aligned or its page
is not mapped. -/
theorem shrink_keeps_heap_iff {s : State} {pid : Nat} (hb : BreakBounds (s.processes pid))
    (htable : s.TableOk pid) :
    (∀ d, d < 2 ^ 64 → Negative d → BreakAccepted (s.processes pid) d →
      ∃ s', sbrk s pid d = .ok (s', (s.processes pid).programBreak) ∧
        (HeapKept s s' pid (newBreak (s.processes pid) d) ↔
          BreakPageClear s pid (newBreak (s.processes pid) d))) ∧
    ∀ a, (s.processes pid).originalBreak ≤ a → a < (s.processes pid).programBreak →
      ∃ s', brk s pid a = .ok (s', 0) ∧ (HeapKept s s' pid a ↔ BreakPageClear s pid a) := by
  constructor
  · intro d hd hneg hacc
    exact ⟨_, sbrk_shrink hb hd htable hacc hneg, heapKept_iff hb htable hd hneg hacc⟩
  · intro a hlow hhigh
    have hlimit := hb.limit
    simp only [MEMSIZE_VIRTUAL, PAGESIZE] at hlimit
    -- `brk` is `sbrk` by the difference, modulo 2 ^ 64
    have hnew := newBreak_brk (s.processes pid) (by omega : a < 2 ^ 64) (by omega)
    generalize hdiff : (a + 2 ^ 64 - (s.processes pid).programBreak) % 2 ^ 64 = d at hnew
    have hd : d < 2 ^ 64 := by omega
    have hneg : Negative d := by
      simp only [Negative]
      omega
    have hacc : BreakAccepted (s.processes pid) d := by
      rw [BreakAccepted, hnew]
      simp only [MEMSIZE_VIRTUAL, PAGESIZE]
      omega
    refine ⟨shrunk s pid d, ?_, ?_⟩
    · rw [brk, hdiff, sbrk_shrink hb hd htable hacc hneg]
      have hvalue : ((s.processes pid).programBreak : Int) ≠ -1 := by omega
      simp only [bind, Except.bind, if_neg hvalue]
    · have key := heapKept_iff hb htable hd hneg hacc
      rwa [hnew] at key

/-- A heap with one touched page. -/
def touchedHeap : Mem := userPage emptySpace 0x101000 0x10000

theorem sample_touchedHeap : Sample touchedHeap ∧ ∀ a, virtualMemoryLookup touchedHeap 0x1000 a =
    if page48 a = page48 0x101000 then ⟨(0x10000 / 4096 : Nat), 0x10000 + a % 4096, 7⟩
    else virtualMemoryLookup emptySpace 0x1000 a :=
  sample_emptySpace.userPage (by decide) (by decide) (by decide)

/-- A break that goes down by a whole page. The touched page below it stays where it was. -/
theorem shrink_keeps_heap_iff_example :
    ∃ s', sbrk (sampleState touchedHeap 0x101000 0x103000) 1 (signExtend (-0x1000)) =
        .ok (s', 0x103000) ∧
      HeapKept (sampleState touchedHeap 0x101000 0x103000) s' 1 0x102000 ∧
      (s'.lookup 1 0x101000).pa = 0x10000 ∧ s'.HasPage 1 0x101000 := by
  obtain ⟨hsample, hlookup⟩ := sample_touchedHeap
  have hnew : newBreak ((sampleState touchedHeap 0x101000 0x103000).processes 1)
      (signExtend (-0x1000)) = 0x102000 := by decide
  obtain ⟨s', hcode, hiff⟩ := (shrink_keeps_heap_iff
    (⟨by decide, by decide, by decide⟩ : BreakBounds
      ((sampleState touchedHeap 0x101000 0x103000).processes 1)) (hsample.tableOk _ _)).1
    (signExtend (-0x1000)) (by decide) (by decide) ⟨by decide, by decide⟩
  rw [hnew] at hiff
  have hkept := hiff.2 (Or.inl (by decide))
  -- the page that was mapped before the call
  have hpage : s'.lookup 1 0x101000 = ⟨(0x10000 / 4096 : Nat), 0x10000 + 0x101000 % 4096, 7⟩ := by
    rw [hkept.mapping 0x101000 (by decide)]
    rw [lookup_sampleState, hlookup, if_pos (by decide)]
  have hmapped : s'.HasPage 1 0x101000 := by
    intro hnone
    have hperm := congrArg Vamapping.perm (hpage.symm.trans hnone)
    exact absurd hperm (by decide)
  exact ⟨s', hcode, hkept, congrArg Vamapping.pa hpage, hmapped⟩

/-- The break goes down into the touched page, and the bytes below it are lost. -/
theorem shrink_loses_heap :
    ∃ s', sbrk (sampleState touchedHeap 0x101000 0x103000) 1 (signExtend (-0x1800)) =
        .ok (s', 0x103000) ∧
      ¬ HeapKept (sampleState touchedHeap 0x101000 0x103000) s' 1 0x101800 := by
  have hb : BreakBounds ((sampleState touchedHeap 0x101000 0x103000).processes 1) :=
    ⟨by decide, by decide, by decide⟩
  obtain ⟨hsample, hlookup⟩ := sample_touchedHeap
  have htable := hsample.tableOk 0x101000 0x103000
  have hnew : newBreak ((sampleState touchedHeap 0x101000 0x103000).processes 1)
      (signExtend (-0x1800)) = 0x101800 := by decide
  have hd : signExtend (-0x1800) < 2 ^ 64 := signExtend_lt _
  have hneg : Negative (signExtend (-0x1800)) := by decide
  have hacc : BreakAccepted ((sampleState touchedHeap 0x101000 0x103000).processes 1)
      (signExtend (-0x1800)) := ⟨by decide, by decide⟩
  refine ⟨_, sbrk_shrink hb hd htable hacc hneg, fun hkept => ?_⟩
  have hiff := heapKept_iff hb htable hd hneg hacc
  rw [hnew] at hiff
  rcases hiff.1 hkept with hbad | hbad
  · exact absurd hbad (by decide)
  · apply hbad
    rw [hasPage_sampleState, Mapped, hlookup, if_pos (by decide)]
    exact fun e => absurd (congrArg Vamapping.perm e) (by decide : (7 : Nat) ≠ 0)

/-! ## The pages that are released -/

/-- How many mappings of the physical page `pn` the step from `s` to `s'` has removed. -/
def removedMappings (s s' : State) (pid pn : Nat) : Nat :=
  virtualPages.countP fun va =>
    (s.HasPage pid va ∧ (s.lookup pid va).pn.toNat = pn) ∧ ¬ s'.HasPage pid va

/-- The pages between the rounded new and old breaks are no longer mapped, and each physical page has
lost one reference for each mapping removed: in 8-bit arithmetic in general, and exactly when the count
covers the mappings. It is free once its count has come to 0. -/
structure PagesReleased (s s' : State) (pid new : Nat) : Prop where
  unmapped : ∀ va, roundUpPage new ≤ va → va < roundUpPage (s.processes pid).programBreak →
    ¬ s'.HasPage pid va
  untouched : ∀ pn, removedMappings s s' pid pn = 0 → s'.pageinfo pn = s.pageinfo pn
  dropped : ∀ pn, 0 < removedMappings s s' pid pn →
    (s'.pageinfo pn).refcount = toInt8 ((s.pageinfo pn).refcount - removedMappings s s' pid pn) ∧
    (s'.pageinfo pn).owner =
      if ∃ j, j < removedMappings s s' pid pn ∧ toInt8 ((s.pageinfo pn).refcount - (j + 1 : Nat)) = 0
      then PO_FREE else (s.pageinfo pn).owner
  exact : ∀ pn, 0 < removedMappings s s' pid pn →
    removedMappings s s' pid pn ≤ (s.pageinfo pn).refcount → (s.pageinfo pn).refcount < 128 →
    (s'.pageinfo pn).refcount = (s.pageinfo pn).refcount - removedMappings s s' pid pn ∧
    (s'.pageinfo pn).owner =
      if (s'.pageinfo pn).refcount = 0 then PO_FREE else (s.pageinfo pn).owner

section Release

theorem nodup_pagesDown (lo n : Nat) : (pagesDown lo n).Nodup := by
  induction n with
  | zero => exact List.nodup_singleton _
  | succ n ih =>
      rw [pagesDown, List.nodup_cons]
      refine ⟨fun hmem => ?_, ih⟩
      obtain ⟨i, hi, he⟩ := mem_pagesDown.1 hmem
      omega

theorem nodup_virtualPages : virtualPages.Nodup := by
  apply List.nodup_range.map
  intro i j hij
  simp only [PAGESIZE] at hij
  omega

theorem mem_virtualPages {va : Nat} : va ∈ virtualPages ↔ ∃ i, i < 768 ∧ va = 4096 * i := by
  simp only [virtualPages, List.mem_map, List.mem_range, PAGESIZE]
  constructor
  · rintro ⟨i, hi, rfl⟩
    exact ⟨i, hi, rfl⟩
  · rintro ⟨i, hi, rfl⟩
    exact ⟨i, hi, rfl⟩

/-- Counting the elements of a sublist inside a larger list. -/
theorem countP_mem_and {α : Type} [DecidableEq α] {l l' : List α} (hl : l.Nodup) (hl' : l'.Nodup)
    (hsub : ∀ x ∈ l', x ∈ l) (p : α → Bool) :
    l.countP (fun x => decide (x ∈ l') && p x) = l'.countP p := by
  have hperm : (l.filter fun x => decide (x ∈ l')).Perm l' := by
    rw [List.perm_ext_iff_of_nodup (hl.filter _) hl']
    intro x
    rw [List.mem_filter, decide_eq_true_iff]
    exact ⟨fun h => h.2, fun h => ⟨hsub x h, h⟩⟩
  rw [← hperm.countP_eq, List.countP_filter]
  apply List.countP_congr
  intro x _
  rw [Bool.and_comm]

variable {s : State} {pid d : Nat}

/-- The references that the loop gives up are the mappings that it removes. -/
theorem references_givenUp (hb : BreakBounds (s.processes pid)) (htable : s.TableOk pid)
    (hd : d < 2 ^ 64) (hneg : Negative d) (hacc : BreakAccepted (s.processes pid) d) (pn : Nat) :
    references s.mem (s.processes pid).pagetable (givenUp (s.processes pid) d) pn =
      removedMappings s (shrunk s pid d) pid pn := by
  have hlimit := hb.limit
  have hlt := newBreak_lt hb.limit hd hneg hacc
  simp only [MEMSIZE_VIRTUAL, PAGESIZE] at hlimit
  have hsub : ∀ va ∈ givenUp (s.processes pid) d, va ∈ virtualPages := by
    intro va hva
    obtain ⟨i, hi, rfl⟩ := mem_pagesDown.1 hva
    exact mem_virtualPages.2 ⟨_, by omega, rfl⟩
  have hnodup : (givenUp (s.processes pid) d).Nodup := nodup_pagesDown _ _
  rw [references, ← countP_mem_and nodup_virtualPages hnodup hsub, removedMappings]
  apply List.countP_congr
  intro va hva
  obtain ⟨i, hi, rfl⟩ := mem_virtualPages.1 hva
  simp only [Bool.and_eq_true, decide_eq_true_iff]
  -- the pages of the loop are those between the two breaks
  have hgone : 4096 * i ∈ givenUp (s.processes pid) d ↔
      (newBreak (s.processes pid) d / 4096 ≤ page48 (4096 * i) ∧
        page48 (4096 * i) ≤ ((s.processes pid).programBreak + 4095) / 4096) := by
    rw [← mem_givenUp_page hb hd hneg hacc]
    constructor
    · intro h
      exact ⟨_, h, rfl⟩
    · rintro ⟨va, hva, hpage⟩
      obtain ⟨j, hj, rfl⟩ := mem_pagesDown.1 hva
      rw [page48, page48] at hpage
      have : 4096 * i = 4096 * (newBreak (s.processes pid) d / 4096 + j) := by omega
      rw [this]
      exact hva
  have hlookup := shrunk_lookup hb htable hd hneg hacc (4096 * i)
  constructor
  · rintro ⟨hin, hm⟩
    refine ⟨hm, ?_⟩
    rw [if_pos (hgone.1 hin)] at hlookup
    exact not_mapped.2 hlookup
  · rintro ⟨hm, hnot⟩
    refine ⟨?_, hm⟩
    by_contra hout
    rw [if_neg fun h => hout (hgone.2 h)] at hlookup
    apply hnot
    rw [State.HasPage, Mapped]
    rw [State.lookup, State.lookup] at hlookup
    rw [hlookup]
    exact hm.1

theorem pagesReleased (hb : BreakBounds (s.processes pid)) (htable : s.TableOk pid) (hd : d < 2 ^ 64)
    (hneg : Negative d) (hacc : BreakAccepted (s.processes pid) d) :
    PagesReleased s (shrunk s pid d) pid (newBreak (s.processes pid) d) := by
  have hinfo : ∀ pn, (shrunk s pid d).pageinfo pn =
      PageInfo.drop^[removedMappings s (shrunk s pid d) pid pn] (s.pageinfo pn) := by
    intro pn
    rw [← references_givenUp hb htable hd hneg hacc pn]
    exact freePages_apply s.mem (s.processes pid).pagetable _ s.pageinfo pn
  have hdropped : ∀ pn, 0 < removedMappings s (shrunk s pid d) pid pn →
      ((shrunk s pid d).pageinfo pn).refcount =
        toInt8 ((s.pageinfo pn).refcount - removedMappings s (shrunk s pid d) pid pn) ∧
      ((shrunk s pid d).pageinfo pn).owner =
        if ∃ j, j < removedMappings s (shrunk s pid d) pid pn ∧
          toInt8 ((s.pageinfo pn).refcount - (j + 1 : Nat)) = 0
        then PO_FREE else (s.pageinfo pn).owner := by
    intro pn hpos
    obtain ⟨k, hk⟩ := Nat.exists_eq_succ_of_ne_zero (Nat.ne_of_gt hpos)
    rw [hinfo pn, hk]
    exact drop_iterate _ k
  constructor
  · intro va hlow hhigh
    have hlimit := hb.limit
    simp only [roundUpPage, roundDownPage, MEMSIZE_VIRTUAL, PAGESIZE] at hlow hhigh hlimit
    have hlt := newBreak_lt hb.limit hd hneg hacc
    rw [State.HasPage, not_mapped]
    refine (shrunk_lookup hb htable hd hneg hacc va).trans (if_pos ?_)
    rw [page48]
    omega
  · intro pn hnone
    rw [hinfo pn, hnone]
    rfl
  · exact hdropped
  · intro pn hpos hle hint8
    obtain ⟨hcount, howner⟩ := hdropped pn hpos
    rw [toInt8_of_nonneg (by omega) (by omega)] at hcount
    refine ⟨hcount, ?_⟩
    rw [howner, hcount]
    -- the count comes to 0 with the last mapping or not at all
    congr 1
    apply propext
    constructor
    · rintro ⟨j, hj, hzero⟩
      rw [toInt8_of_nonneg (by omega) (by omega)] at hzero
      omega
    · intro hzero
      refine ⟨removedMappings s (shrunk s pid d) pid pn - 1, by omega, ?_⟩
      rw [toInt8_of_nonneg (by omega) (by omega)]
      omega

end Release

/-- Every accepted shrinking call releases the pages between the new and the old break, one reference
for each mapping removed. -/
theorem shrink_releases {s : State} {pid d : Nat} (hb : BreakBounds (s.processes pid))
    (htable : s.TableOk pid) (hd : d < 2 ^ 64) (hneg : Negative d)
    (hacc : BreakAccepted (s.processes pid) d) :
    ∃ s', sbrk s pid d = .ok (s', (s.processes pid).programBreak) ∧
      PagesReleased s s' pid (newBreak (s.processes pid) d) :=
  ⟨_, sbrk_shrink hb hd htable hacc hneg, pagesReleased hb htable hd hneg hacc⟩

/-- The touched page is released. -/
theorem shrink_releases_example :
    ∃ s', sbrk (sampleState touchedHeap 0x101000 0x103000) 1 (signExtend (-0x2000)) =
        .ok (s', 0x103000) ∧
      PagesReleased (sampleState touchedHeap 0x101000 0x103000) s' 1 0x101000 := by
  have hnew : newBreak ((sampleState touchedHeap 0x101000 0x103000).processes 1)
      (signExtend (-0x2000)) = 0x101000 := by decide
  obtain ⟨s', hcode, hreleased⟩ := shrink_releases (⟨by decide, by decide, by decide⟩ : BreakBounds
    ((sampleState touchedHeap 0x101000 0x103000).processes 1)) (sample_touchedHeap.1.tableOk _ _)
    (signExtend_lt (-0x2000)) (by decide) ⟨by decide, by decide⟩
  rw [hnew] at hreleased
  exact ⟨s', hcode, hreleased⟩

/-! ## The pages outside the heap -/

/-- Each physical page backs at most one page of the user part. -/
def State.OwnFrames (s : State) (pid : Nat) : Prop :=
  ∀ va va', UserPart va → UserPart va' → s.HasPage pid va → s.HasPage pid va' →
    (s.lookup pid va).pa / PAGESIZE = (s.lookup pid va').pa / PAGESIZE → page48 va = page48 va'

/-- Addresses from the rounded-up old break on and addresses below the original break are translated as
before, and the stack page keeps its mapping and its page count. -/
structure HeapConfined (s s' : State) (pid : Nat) : Prop where
  above : ∀ va, roundUpPage (s.processes pid).programBreak ≤ va % 2 ^ 48 →
    s'.lookup pid va = s.lookup pid va
  below : ∀ va, va < (s.processes pid).originalBreak → s'.lookup pid va = s.lookup pid va
  stack : s.HasPage pid stackPage → s'.HasPage pid stackPage ∧
    s'.pageinfo (s.lookup pid stackPage).pn.toNat = s.pageinfo (s.lookup pid stackPage).pn.toNat

/-- The page after the old break is not mapped, and neither is the page of the new break if the
original break lies inside it. -/
def NeighboursClear (s : State) (pid new : Nat) : Prop :=
  ¬ s.HasPage pid (roundUpPage (s.processes pid).programBreak) ∧
  ((s.processes pid).originalBreak ≤ roundDownPage new ∨ ¬ s.HasPage pid (roundDownPage new))

theorem userPart_stackPage : UserPart stackPage := ⟨by decide, by decide⟩

section Confined

variable {s : State} {pid d : Nat}

theorem roundUpPage_eq {a : Nat} (h : a < MEMSIZE_VIRTUAL) :
    roundUpPage a = 4096 * ((a + 4095) / 4096) := by
  simp only [MEMSIZE_VIRTUAL] at h
  simp only [roundUpPage, roundDownPage, PAGESIZE]
  omega

theorem roundDownPage_eq (a : Nat) : roundDownPage a = 4096 * (a / 4096) := by
  simp only [roundDownPage, PAGESIZE]
  omega

theorem heapConfined_iff (hb : BreakBounds (s.processes pid)) (htable : s.TableOk pid)
    (hown : s.OwnFrames pid) (hd : d < 2 ^ 64) (hneg : Negative d)
    (hacc : BreakAccepted (s.processes pid) d) :
    HeapConfined s (shrunk s pid d) pid ↔ NeighboursClear s pid (newBreak (s.processes pid) d) := by
  have hlookup := shrunk_lookup hb htable hd hneg hacc
  have hlt := newBreak_lt hb.limit hd hneg hacc
  have hreleased := pagesReleased hb htable hd hneg hacc
  have hlow := Nat.le_trans hb.start hacc.2
  have hacc2 := hacc.2
  have hlimit := hb.limit
  simp only [MEMSIZE_VIRTUAL, PAGESIZE, PROC_START_ADDR] at hlimit hlow
  have hup := roundUpPage_eq (by simp only [MEMSIZE_VIRTUAL]; omega :
    (s.processes pid).programBreak < MEMSIZE_VIRTUAL)
  rw [NeighboursClear, roundDownPage_eq, hup]
  generalize hnew : newBreak (s.processes pid) d = new at *
  generalize hold : (s.processes pid).programBreak = old at *
  constructor
  · intro hconf
    constructor
    · intro hm
      -- the page after the old break is the first that the loop visits
      have hsame := hconf.above (4096 * ((old + 4095) / 4096)) (by rw [hold, hup]; omega)
      rw [hlookup, if_pos (by rw [page48]; omega)] at hsame
      exact hm hsame.symm
    · by_contra hnot
      obtain ⟨hbelow, hm⟩ := not_or.1 hnot
      have hsame := hconf.below (4096 * (new / 4096)) (by omega)
      rw [hlookup, if_pos (by rw [page48]; omega)] at hsame
      exact not_not.1 hm hsame.symm
  · rintro ⟨hnext, hfirst⟩
    have habove : ∀ va, 4096 * ((old + 4095) / 4096) ≤ va % 2 ^ 48 →
        (shrunk s pid d).lookup pid va = s.lookup pid va := by
      intro va hva
      rw [hlookup]
      split
      · rename_i hin
        rw [page48] at hin
        have hpage : page48 va = page48 (4096 * ((old + 4095) / 4096)) := by
          rw [page48, page48]
          omega
        have hunmapped : ¬ s.HasPage pid va := by
          rw [State.HasPage, Mapped.of_page48 hpage]
          exact hnext
        exact (not_mapped.1 hunmapped).symm
      · rfl
    constructor
    · intro va hva
      rw [hold, hup] at hva
      exact habove va hva
    · intro va hva
      rw [hlookup]
      split
      · rename_i hin
        rw [page48] at hin
        have hpage : page48 va = page48 (4096 * (new / 4096)) := by
          rw [page48, page48]
          omega
        have hunmapped : ¬ s.HasPage pid va := by
          rw [State.HasPage, Mapped.of_page48 hpage]
          apply hfirst.resolve_left
          omega
        exact (not_mapped.1 hunmapped).symm
      · rfl
    · intro hm
      have hstack := habove stackPage (by simp only [stackPage, MEMSIZE_VIRTUAL, PAGESIZE]; omega)
      have hm' : (shrunk s pid d).HasPage pid stackPage := by
        rw [State.HasPage, Mapped]
        exact fun e => hm (hstack.symm.trans e)
      refine ⟨hm', hreleased.untouched _ ?_⟩
      -- a page that the loop has hidden is no second mapping of the stack page
      rw [removedMappings, List.countP_eq_zero]
      intro va hva
      obtain ⟨i, hi, rfl⟩ := mem_virtualPages.1 hva
      rw [decide_eq_true_iff]
      rintro ⟨⟨hmva, hpn⟩, hgone⟩
      have hrange : new / 4096 ≤ page48 (4096 * i) ∧ page48 (4096 * i) ≤ (old + 4095) / 4096 := by
        by_contra hout
        have hkept := hlookup (4096 * i)
        rw [if_neg hout] at hkept
        exact hmva (hkept.symm.trans (not_mapped.1 hgone))
      rw [page48] at hrange
      have huser : UserPart (4096 * i) := by
        simp only [UserPart, PROC_START_ADDR, MEMSIZE_VIRTUAL]
        omega
      have hframe : (s.lookup pid (4096 * i)).pa / PAGESIZE = (s.lookup pid stackPage).pa / PAGESIZE := by
        rw [State.lookup, State.lookup, htable.pn_eq hmva, htable.pn_eq hm] at hpn
        exact_mod_cast hpn
      have hpage := hown _ _ huser userPart_stackPage hmva hm hframe
      have hsame : 4096 * i = stackPage := by
        simp only [page48, stackPage, MEMSIZE_VIRTUAL, PAGESIZE] at hpage ⊢
        omega
      rw [hsame] at hgone
      exact hgone hm'

end Confined

/-- A shrinking call stays inside the heap exactly when the pages at its two ends that it does not own
are not mapped. -/
theorem shrink_confined_iff {s : State} {pid d : Nat} (hb : BreakBounds (s.processes pid))
    (htable : s.TableOk pid) (hown : s.OwnFrames pid) (hd : d < 2 ^ 64) (hneg : Negative d)
    (hacc : BreakAccepted (s.processes pid) d) :
    ∃ s', sbrk s pid d = .ok (s', (s.processes pid).programBreak) ∧
      (HeapConfined s s' pid ↔ NeighboursClear s pid (newBreak (s.processes pid) d)) :=
  ⟨_, sbrk_shrink hb hd htable hacc hneg, heapConfined_iff hb htable hown hd hneg hacc⟩

/-- An address space with a stack page only. -/
def stackOnly : Mem := userPage emptySpace stackPage 0x10000

theorem sample_stackOnly : Sample stackOnly ∧ ∀ a, virtualMemoryLookup stackOnly 0x1000 a =
    if page48 a = page48 stackPage then ⟨(0x10000 / 4096 : Nat), 0x10000 + a % 4096, 7⟩
    else virtualMemoryLookup emptySpace 0x1000 a :=
  sample_emptySpace.userPage (by decide) (by decide) (by decide)

theorem hasPage_stackOnly {originalBreak programBreak va : Nat} :
    (sampleState stackOnly originalBreak programBreak).HasPage 1 va ↔ page48 va = page48 stackPage := by
  rw [hasPage_sampleState, Mapped, sample_stackOnly.2]
  split
  · rename_i h
    exact ⟨fun _ => h, fun _ e => absurd (congrArg Vamapping.perm e) (by decide : (7 : Nat) ≠ 0)⟩
  · rename_i h
    exact ⟨fun hm => absurd hm (not_mapped_emptySpace va), fun e => absurd e h⟩

theorem ownFrames_stackOnly (originalBreak programBreak : Nat) :
    (sampleState stackOnly originalBreak programBreak).OwnFrames 1 := by
  intro va va' _ _ h h' _
  exact (hasPage_stackOnly.1 h).trans (hasPage_stackOnly.1 h').symm

/-- A small heap that shrinks far below the stack. -/
theorem shrink_confined_iff_example :
    ∃ s', sbrk (sampleState stackOnly 0x101000 0x103000) 1 (signExtend (-0x1000)) =
        .ok (s', 0x103000) ∧
      HeapConfined (sampleState stackOnly 0x101000 0x103000) s' 1 := by
  obtain ⟨s', hcode, hiff⟩ := shrink_confined_iff
    (⟨by decide, by decide, by decide⟩ : BreakBounds
      ((sampleState stackOnly 0x101000 0x103000).processes 1)) (sample_stackOnly.1.tableOk _ _)
    (ownFrames_stackOnly _ _) (signExtend_lt (-0x1000)) (by decide) ⟨by decide, by decide⟩
  refine ⟨s', hcode, hiff.2 ⟨fun h => ?_, Or.inl (by decide)⟩⟩
  exact absurd (hasPage_stackOnly.1 h) (by decide)

/-- A break inside the last page below the stack: rounded up it is the stack page, which the loop takes
away. -/
theorem shrink_takes_stack :
    ∃ s', sbrk (sampleState stackOnly 0x101000 0x2FE800) 1 (signExtend (-0x800)) =
        .ok (s', 0x2FE800) ∧
      ¬ HeapConfined (sampleState stackOnly 0x101000 0x2FE800) s' 1 := by
  have hb : BreakBounds ((sampleState stackOnly 0x101000 0x2FE800).processes 1) :=
    ⟨by decide, by decide, by decide⟩
  have htable := sample_stackOnly.1.tableOk 0x101000 0x2FE800
  have hd : signExtend (-0x800) < 2 ^ 64 := signExtend_lt _
  have hneg : Negative (signExtend (-0x800)) := by decide
  have hacc : BreakAccepted ((sampleState stackOnly 0x101000 0x2FE800).processes 1)
      (signExtend (-0x800)) := ⟨by decide, by decide⟩
  refine ⟨_, sbrk_shrink hb hd htable hacc hneg, fun hconf => ?_⟩
  have hclear := (heapConfined_iff hb htable (ownFrames_stackOnly _ _) hd hneg hacc).1 hconf
  exact hclear.1 (hasPage_stackOnly.2 (by decide))

end MemoryManagement.Kernel
