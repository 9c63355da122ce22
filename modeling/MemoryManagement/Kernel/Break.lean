import MemoryManagement.Kernel.AddressSpace

/-!
# The loop of `sbrk`

On a well-formed page table the loop of `sbrk` hides every page from the rounded-up old break down to
the rounded-down new one and gives up one reference for each that was mapped (`sbrkLoop_eq`). The
translations and the page counts that a shrinking call leaves behind follow from that.
-/

set_option autoImplicit false

namespace MemoryManagement.Kernel

open MemoryManagement.Library.ByteMemory

/-! ## References to physical pages -/

/-- A physical page that has lost a reference. -/
def PageInfo.drop (i : PageInfo) : PageInfo :=
  let count := toInt8 (i.refcount - 1)
  ⟨if count = 0 then PO_FREE else i.owner, count⟩

/-- A page that is still in use has kept its owner. -/
theorem PageInfo.drop_owner {i : PageInfo} (h : i.drop.refcount ≠ 0) : i.drop.owner = i.owner :=
  if_neg h

/-- How many of the pages are mapped to the physical page `pn`. -/
def references (m : Mem) (root : Nat) (pages : List Nat) (pn : Nat) : Nat :=
  pages.countP fun va => Mapped m root va ∧ (virtualMemoryLookup m root va).pn.toNat = pn

theorem freePages_apply (m : Mem) (root : Nat) (pages : List Nat) (info : Nat → PageInfo) (pn : Nat) :
    freePages m root pages info pn = PageInfo.drop^[references m root pages pn] (info pn) := by
  induction pages generalizing info with
  | nil => rfl
  | cons va pages ih =>
      rw [freePages, ih, references, references, List.countP_cons]
      by_cases hm : Mapped m root va
      · rw [if_pos (mapped_iff_perm.1 hm)]
        by_cases hpn : (virtualMemoryLookup m root va).pn.toNat = pn
        · rw [if_pos (by simpa using ⟨hm, hpn⟩), Function.iterate_add_apply, ← hpn]
          congr 1
          exact Function.update_self ..
        · rw [if_neg (by simpa using fun _ => hpn)]
          congr 1
          exact Function.update_of_ne (Ne.symm hpn) ..
      · rw [if_neg fun h => hm (mapped_iff_perm.2 h), if_neg (by simpa using fun h => absurd h hm)]
        rfl

theorem toInt8_of_nonneg {x : Int} (h0 : 0 ≤ x) (h1 : x < 128) : toInt8 x = x := by
  apply Int.bmod_eq_of_le
  · have : (-((256 : Nat) : Int) / 2 : Int) ≤ 0 := by decide
    omega
  · have : (((256 : Nat) : Int) + 1) / 2 = 128 := by decide
    omega

theorem toInt8_toInt8_sub (x y : Int) : toInt8 (toInt8 x - y) = toInt8 (x - y) :=
  Int.bmod_sub_bmod

/-- `k` references less: the count wraps to 8 bits, and the page is free once the count has been 0. -/
theorem drop_iterate (i : PageInfo) (k : Nat) :
    (PageInfo.drop^[k + 1] i).refcount = toInt8 (i.refcount - (k + 1 : Nat)) ∧
    (PageInfo.drop^[k + 1] i).owner =
      if ∃ j, j < k + 1 ∧ toInt8 (i.refcount - (j + 1 : Nat)) = 0 then PO_FREE else i.owner := by
  induction k with
  | zero =>
      refine ⟨rfl, ?_⟩
      show (if toInt8 (i.refcount - 1) = 0 then PO_FREE else i.owner) = _
      congr 1
      apply propext
      constructor
      · intro h
        exact ⟨0, Nat.one_pos, h⟩
      · rintro ⟨j, hj, h⟩
        obtain rfl : j = 0 := by omega
        exact h
  | succ k ih =>
      rw [Function.iterate_succ_apply']
      obtain ⟨hcount, howner⟩ := ih
      have hnext : toInt8 ((PageInfo.drop^[k + 1] i).refcount - 1) =
          toInt8 (i.refcount - (k + 1 + 1 : Nat)) := by
        rw [hcount, toInt8_toInt8_sub]
        congr 1
        push_cast
        ring
      refine ⟨hnext, ?_⟩
      show (if toInt8 ((PageInfo.drop^[k + 1] i).refcount - 1) = 0 then PO_FREE
        else (PageInfo.drop^[k + 1] i).owner) = _
      rw [hnext, howner]
      by_cases hzero : toInt8 (i.refcount - (k + 1 + 1 : Nat)) = 0
      · rw [if_pos hzero, if_pos ⟨k + 1, Nat.lt_succ_self _, hzero⟩]
      · rw [if_neg hzero]
        congr 1
        apply propext
        constructor
        · rintro ⟨j, hj, h⟩
          exact ⟨j, by omega, h⟩
        · rintro ⟨j, hj, h⟩
          refine ⟨j, ?_, h⟩
          rcases Nat.lt_succ_iff_lt_or_eq.1 hj with hlt | rfl
          · exact hlt
          · exact absurd h hzero

/-! ## Hiding pages -/

/-- The page of `va` is no longer mapped. -/
def hidePage (m : Mem) (root va : Nat) : Mem :=
  if Mapped m root va then
    setEntry m ((tableAt m root (indices va)).getD NULL) (pageindex va 3) (PTE_W ||| PTE_U)
  else m

/-- The pages are no longer mapped. -/
def hidePages (m : Mem) (root : Nat) : List Nat → Mem
  | [] => m
  | va :: rest => hidePages (hidePage m root va) root rest

section Hide

variable {m : Mem} {root : Nat}

/-- What hiding pages does to a page table: it stays well formed, with the same tables, and the bytes
outside the tables are as they were. -/
structure Hides (m m' : Mem) (root : Nat) (pages : List Nat) : Prop where
  ok : TableOk m' root
  tables : ∀ t, IsTable m' root t ↔ IsTable m root t
  gone : ∀ a, (∃ va ∈ pages, page48 a = page48 va) → ¬ Mapped m' root a
  kept : ∀ a, (∀ va ∈ pages, page48 a ≠ page48 va) →
    virtualMemoryLookup m' root a = virtualMemoryLookup m root a
  bytes : ∀ x, (∀ t, IsTable m root t → ¬ InRange t PAGESIZE x) → m' x = m x

theorem TableOk.hidePage (h : TableOk m root) (va : Nat) : Hides m (hidePage m root va) root [va] := by
  by_cases hm : Mapped m root va
  · obtain ⟨t, ht⟩ := hm.table
    have hleaf : (PTE_W ||| PTE_U) = leafValue 0 (PTE_W ||| PTE_U) := by decide
    have habsent : ¬ (PTE_W ||| PTE_U) &&& PTE_P ≠ 0 := by decide
    have hlookup : ∀ a, virtualMemoryLookup
        (setEntry m t (pageindex va 3) (leafValue 0 (PTE_W ||| PTE_U))) root a =
        if page48 a = page48 va then mappedTo 0 (PTE_W ||| PTE_U) 0 a
        else virtualMemoryLookup m root a :=
      h.lookup_setLeaf ht (by decide) fun hp => absurd hp habsent
    rw [Kernel.hidePage, if_pos hm, ht, Option.getD_some, hleaf]
    constructor
    · exact h.setLeaf ht (by decide) (fun hp => absurd hp habsent) (fun hp => absurd hp habsent)
    · intro x
      exact h.isTable_setLeaf ht (by decide)
    · rintro a ⟨va', hva', ha⟩
      rw [List.mem_singleton.1 hva'] at ha
      rw [not_mapped, hlookup, if_pos ha]
      rfl
    · intro a ha
      rw [hlookup, if_neg (ha va (List.mem_singleton_self va))]
    · intro x hx
      exact TableOk.setLeaf_byte ht hx
  · rw [Kernel.hidePage, if_neg hm]
    refine ⟨h, fun _ => Iff.rfl, ?_, fun _ _ => rfl, fun _ _ => rfl⟩
    rintro a ⟨va', hva', ha⟩
    rw [List.mem_singleton.1 hva'] at ha
    rwa [Mapped.of_page48 ha]

theorem TableOk.hidePages (h : TableOk m root) (pages : List Nat) :
    Hides m (hidePages m root pages) root pages := by
  induction pages generalizing m with
  | nil =>
      refine ⟨h, fun _ => Iff.rfl, ?_, fun _ _ => rfl, fun _ _ => rfl⟩
      rintro a ⟨va, hva, -⟩
      cases hva
  | cons va pages ih =>
      have h1 := h.hidePage va
      have h2 := ih h1.ok
      constructor
      · exact h2.ok
      · intro t
        exact (h2.tables t).trans (h1.tables t)
      · rintro a ⟨va', hva', ha⟩
        -- an address of a later page is gone after the later calls, another one after the first
        by_cases hin : ∃ w ∈ pages, page48 a = page48 w
        · exact h2.gone a hin
        · rcases List.mem_cons.1 hva' with rfl | hva'
          · rw [not_mapped, Kernel.hidePages, h2.kept a fun w hw e => hin ⟨w, hw, e⟩, ← not_mapped]
            exact h1.gone a ⟨_, List.mem_singleton_self _, ha⟩
          · exact absurd ⟨va', hva', ha⟩ hin
      · intro a ha
        rw [Kernel.hidePages, h2.kept a fun w hw => ha w (List.mem_cons_of_mem _ hw)]
        apply h1.kept
        intro w hw
        rw [List.mem_singleton.1 hw]
        exact ha va (List.mem_cons_self ..)
      · intro x hx
        rw [Kernel.hidePages, h2.bytes x fun t ht => hx t ((h1.tables t).1 ht)]
        exact h1.bytes x hx

theorem references_congr {m' : Mem} {pages : List Nat}
    (h : ∀ va ∈ pages, virtualMemoryLookup m' root va = virtualMemoryLookup m root va) (pn : Nat) :
    references m' root pages pn = references m root pages pn := by
  apply List.countP_congr
  intro va hva
  rw [decide_eq_true_iff, decide_eq_true_iff, Mapped, Mapped, h va hva]

theorem freePages_congr {m' : Mem} {pages : List Nat}
    (h : ∀ va ∈ pages, virtualMemoryLookup m' root va = virtualMemoryLookup m root va)
    (info : Nat → PageInfo) : freePages m' root pages info = freePages m root pages info := by
  funext pn
  rw [freePages_apply, freePages_apply, references_congr h]

end Hide

/-! ## The loop -/

/-- The page addresses from page `lo + n` down to page `lo`. -/
def pagesDown (lo : Nat) : Nat → List Nat
  | 0 => [4096 * lo]
  | n + 1 => 4096 * (lo + (n + 1)) :: pagesDown lo n

theorem mem_pagesDown {lo n va : Nat} :
    va ∈ pagesDown lo n ↔ ∃ i, i ≤ n ∧ va = 4096 * (lo + i) := by
  induction n with
  | zero =>
      rw [pagesDown, List.mem_singleton]
      constructor
      · rintro rfl
        exact ⟨0, Nat.le_refl 0, rfl⟩
      · rintro ⟨i, hi, rfl⟩
        rw [Nat.le_zero.1 hi, Nat.add_zero]
  | succ n ih =>
      rw [pagesDown, List.mem_cons, ih]
      constructor
      · rintro (rfl | ⟨i, hi, rfl⟩)
        · exact ⟨n + 1, Nat.le_refl _, rfl⟩
        · exact ⟨i, by omega, rfl⟩
      · rintro ⟨i, hi, rfl⟩
        rcases Nat.le_succ_iff.1 hi with hi | rfl
        · exact Or.inr ⟨i, hi, rfl⟩
        · exact Or.inl rfl

section Loop

variable {s : State} {pid root : Nat}

theorem sbrkPage_eq (h : TableOk s.mem root) (hroot : (s.processes pid).pagetable = root) {i : Nat}
    (hi : i % 4096 = 0) (hlt : i < 2 ^ 48) :
    sbrkPage pid s i = .ok { s with
      mem := hidePage s.mem root i, pageinfo := freePages s.mem root [i] s.pageinfo } := by
  rw [sbrkPage, hroot]
  by_cases hm : Mapped s.mem root i
  · obtain ⟨t, ht⟩ := hm.table
    have habsent : ¬ (PTE_W ||| PTE_U) &&& PTE_P ≠ 0 := by decide
    have hmap := h.map_page hi hlt (by decide : PTE_W ||| PTE_U < 4096)
      (fun hp => absurd hp habsent :
        (PTE_W ||| PTE_U) &&& PTE_P ≠ 0 → (virtualMemoryLookup s.mem root i).pa % 4096 = 0 ∧
          (virtualMemoryLookup s.mem root i).pa + 4096 ≤ 0x200000)
    rw [ht] at hmap
    simp only [if_pos (h.pn_ne_iff.2 hm), hmap, bind, Except.bind]
    rw [hidePage, if_pos hm, ht, Option.getD_some, freePages, if_pos (mapped_iff_perm.1 hm), freePages,
      leafValue, if_neg habsent]
  · have hpn : ¬ (virtualMemoryLookup s.mem root i).pn ≠ -1 := fun e => hm (h.pn_ne_iff.1 e)
    simp only [if_neg hpn]
    rw [hidePage, if_neg hm, freePages, if_neg fun e => hm (mapped_iff_perm.2 e), freePages]

/-- The loop of `sbrk` from page `lo + n` down to page `lo`. -/
theorem sbrkLoop_eq {lo n fuel : Nat} (h : TableOk s.mem root)
    (hroot : (s.processes pid).pagetable = root) (hlo : 0 < lo) (htop : 4096 * (lo + n) < 2 ^ 48)
    (hfuel : n + 1 < fuel) :
    sbrkLoop pid (4096 * lo) fuel s (4096 * (lo + n)) = .ok { s with
      mem := hidePages s.mem root (pagesDown lo n),
      pageinfo := freePages s.mem root (pagesDown lo n) s.pageinfo } := by
  induction n generalizing s fuel with
  | zero =>
      obtain ⟨k, rfl⟩ : ∃ k, fuel = k + 1 + 1 := ⟨fuel - 2, by omega⟩
      rw [sbrkLoop, if_pos (by omega), sbrkPage_eq h hroot (by omega) htop]
      -- the next page is below the new break
      have hnext : ¬ 4096 * lo ≤ (4096 * (lo + 0) + 2 ^ 64 - PAGESIZE) % 2 ^ 64 := by
        simp only [PAGESIZE]
        omega
      simp only [bind, Except.bind]
      rw [sbrkLoop, if_neg hnext]
      rfl
  | succ n ih =>
      obtain ⟨k, rfl⟩ : ∃ k, fuel = k + 1 := ⟨fuel - 1, by omega⟩
      have hpage := sbrkPage_eq h hroot (i := 4096 * (lo + (n + 1))) (by omega) htop
      have hhide := h.hidePage (4096 * (lo + (n + 1)))
      have hnext : (4096 * (lo + (n + 1)) + 2 ^ 64 - PAGESIZE) % 2 ^ 64 = 4096 * (lo + n) := by
        simp only [PAGESIZE]
        omega
      -- the pages below are as they were before this one was hidden
      have hbelow : ∀ va ∈ pagesDown lo n,
          virtualMemoryLookup (hidePage s.mem root (4096 * (lo + (n + 1)))) root va =
            virtualMemoryLookup s.mem root va := by
        intro va hva
        obtain ⟨i, hi, rfl⟩ := mem_pagesDown.1 hva
        apply hhide.kept
        intro w hw
        rw [List.mem_singleton.1 hw, page48, page48]
        omega
      rw [sbrkLoop, if_pos (by omega), hpage]
      simp only [bind, Except.bind]
      rw [hnext]
      have hrest := ih (s := { s with
        mem := hidePage s.mem root (4096 * (lo + (n + 1)))
        pageinfo := freePages s.mem root [4096 * (lo + (n + 1))] s.pageinfo })
        hhide.ok hroot (by omega) (by omega : n + 1 < k)
      rw [hrest]
      simp only
      rw [freePages_congr hbelow, pagesDown, hidePages, freePages, freePages]
      rfl

/-- Whatever the page table looks like, the loop changes memory and page counts only. -/
theorem sbrkPage_frame {s' : State} {i : Nat} (h : sbrkPage pid s i = .ok s') :
    s' = { s with mem := s'.mem, pageinfo := s'.pageinfo } := by
  rw [sbrkPage] at h
  by_cases hpn : (virtualMemoryLookup s.mem (s.processes pid).pagetable i).pn ≠ -1
  · rw [if_pos hpn] at h
    cases hmap : virtualMemoryMap s.mem (s.processes pid).pagetable i
        (virtualMemoryLookup s.mem (s.processes pid).pagetable i).pa PAGESIZE (PTE_W ||| PTE_U) with
    | error e =>
        rw [hmap] at h
        cases h
    | ok map =>
        rw [hmap] at h
        rw [← Except.ok.inj h]
  · rw [if_neg hpn] at h
    rw [← Except.ok.inj h]

theorem sbrkLoop_frame {s' : State} {low fuel i : Nat} (h : sbrkLoop pid low fuel s i = .ok s') :
    s' = { s with mem := s'.mem, pageinfo := s'.pageinfo } := by
  induction fuel generalizing s i with
  | zero => cases h
  | succ fuel ih =>
      rw [sbrkLoop] at h
      split at h
      · cases hpage : sbrkPage pid s i with
        | error e =>
            rw [hpage] at h
            cases h
        | ok s₁ =>
            rw [hpage] at h
            have h2 := ih h
            have h1 := sbrkPage_frame hpage
            rw [h1] at h2
            exact h2
      · rw [← Except.ok.inj h]

end Loop

/-! ## Break calls -/

/-- The breaks of a process: in order, at or above the start of the user part, below the stack page. -/
structure BreakBounds (p : Proc) : Prop where
  start : PROC_START_ADDR ≤ p.originalBreak
  ordered : p.originalBreak ≤ p.programBreak
  limit : p.programBreak < MEMSIZE_VIRTUAL - PAGESIZE

/-- The pages that `sbrk(p, difference)` takes away: from the rounded-up old break down to the
rounded-down new one, both included. -/
def givenUp (p : Proc) (difference : Nat) : List Nat :=
  pagesDown (newBreak p difference / 4096)
    ((p.programBreak + 4095) / 4096 - newBreak p difference / 4096)

/-- The state after `sbrk(p, difference)` has moved the break down. -/
def shrunk (s : State) (pid difference : Nat) : State :=
  let p := s.processes pid
  { s.setProc pid { p with programBreak := newBreak p difference } with
    mem := hidePages s.mem p.pagetable (givenUp p difference)
    pageinfo := freePages s.mem p.pagetable (givenUp p difference) s.pageinfo }

section Calls

variable {s : State} {pid d : Nat}

theorem newBreak_lt (hlimit : (s.processes pid).programBreak < MEMSIZE_VIRTUAL - PAGESIZE)
    (hd : d < 2 ^ 64) (hneg : Negative d) (hacc : BreakAccepted (s.processes pid) d) :
    newBreak (s.processes pid) d < (s.processes pid).programBreak := by
  have hnew := hacc.1
  simp only [newBreak, MEMSIZE_VIRTUAL, PAGESIZE] at hlimit hnew ⊢
  simp only [Negative] at hneg
  omega

theorem toInt32_break (hlimit : (s.processes pid).programBreak < MEMSIZE_VIRTUAL - PAGESIZE) :
    toInt32 (s.processes pid).programBreak = (s.processes pid).programBreak := by
  apply toInt32_of_lt
  simp only [MEMSIZE_VIRTUAL, PAGESIZE] at hlimit
  omega

theorem sbrk_refused (hacc : ¬ BreakAccepted (s.processes pid) d) : sbrk s pid d = .ok (s, -1) := by
  rw [sbrk]
  exact if_neg hacc

/-- Moving the break up leaves memory and page counts alone. -/
theorem sbrk_grow (hlimit : (s.processes pid).programBreak < MEMSIZE_VIRTUAL - PAGESIZE)
    (hacc : BreakAccepted (s.processes pid) d) (hneg : ¬ Negative d) :
    sbrk s pid d = .ok (s.setProc pid { s.processes pid with
      programBreak := newBreak (s.processes pid) d }, (s.processes pid).programBreak) := by
  rw [sbrk, if_pos hacc, if_neg hneg, toInt32_break hlimit]
  rfl

/-- Moving the break down, but not to the first page, on a well-formed page table. -/
theorem sbrk_lower (hlimit : (s.processes pid).programBreak < MEMSIZE_VIRTUAL - PAGESIZE)
    (hd : d < 2 ^ 64) (h : TableOk s.mem (s.processes pid).pagetable)
    (hacc : BreakAccepted (s.processes pid) d) (hneg : Negative d)
    (hlow : PAGESIZE ≤ newBreak (s.processes pid) d) :
    sbrk s pid d = .ok (shrunk s pid d, (s.processes pid).programBreak) := by
  have hlt := newBreak_lt hlimit hd hneg hacc
  have hint := toInt32_break hlimit
  simp only [MEMSIZE_VIRTUAL, PAGESIZE] at hlimit hlow
  generalize hnew : newBreak (s.processes pid) d = new at *
  have hdown : roundDownPage new = 4096 * (new / 4096) := by
    simp only [roundDownPage, PAGESIZE]
    omega
  have hup : roundUpPage (s.processes pid).programBreak =
      4096 * (new / 4096 + (((s.processes pid).programBreak + 4095) / 4096 - new / 4096)) := by
    simp only [roundUpPage, roundDownPage, PAGESIZE]
    omega
  rw [sbrk, if_pos hacc, if_pos hneg, hint, hnew, hdown, hup,
    sbrkLoop_eq h rfl (by omega) (by omega) (by omega), shrunk, givenUp, hnew]
  rfl

theorem sbrk_shrink (hb : BreakBounds (s.processes pid)) (hd : d < 2 ^ 64)
    (h : TableOk s.mem (s.processes pid).pagetable) (hacc : BreakAccepted (s.processes pid) d)
    (hneg : Negative d) :
    sbrk s pid d = .ok (shrunk s pid d, (s.processes pid).programBreak) :=
  sbrk_lower hb.limit hd h hacc hneg
    (Nat.le_trans (by decide : PAGESIZE ≤ PROC_START_ADDR) (Nat.le_trans hb.start hacc.2))

/-- Without a look at the page table: a call that is accepted and returns has set the break. -/
theorem sbrk_accepted (hb : BreakBounds (s.processes pid)) (hacc : BreakAccepted (s.processes pid) d)
    {r : State × Int} (h : sbrk s pid d = .ok r) :
    r.2 = (s.processes pid).programBreak ∧
    r.1.processes = Function.update s.processes pid { s.processes pid with
      programBreak := newBreak (s.processes pid) d } := by
  by_cases hneg : Negative d
  · rw [sbrk, if_pos hacc, if_pos hneg, toInt32_break hb.limit] at h
    cases hloop : sbrkLoop pid (roundDownPage (newBreak (s.processes pid) d)) (2 ^ 64) s
        (roundUpPage (s.processes pid).programBreak) with
    | error e =>
        rw [hloop] at h
        cases h
    | ok s₁ =>
        rw [hloop] at h
        have hframe := sbrkLoop_frame hloop
        have hproc : s₁.processes = s.processes := by
          rw [hframe]
        rw [← Except.ok.inj h]
        refine ⟨rfl, ?_⟩
        simp only [State.setProc, hproc]
  · rw [sbrk_grow hb.limit hacc hneg] at h
    rw [← Except.ok.inj h]
    exact ⟨rfl, rfl⟩

end Calls

end MemoryManagement.Kernel
