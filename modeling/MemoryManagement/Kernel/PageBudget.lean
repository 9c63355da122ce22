import MemoryManagement.Kernel.Forking
import MemoryManagement.Kernel.FreePages
import Mathlib.Algebra.BigOperators.Group.Finset.Basic

/-!
# The page budget

In every state of a contained run, each page that is neither reserved nor the kernel's is left for `palloc`, in
the page table of one process, writable for one process, or read-only (`page_budget`). No page leaks, whatever
order of forks, faults, breaks and exits the processes choose, and `fork` fails only when the budget is too small
(`fork_room`).
-/

set_option autoImplicit false

namespace MemoryManagement.Kernel

open MemoryManagement.Library.ByteMemory
open MemoryManagement.Library.RefCount

/-! ## Who has which page -/

/-- The pages that `pageinfo_init` leaves to processes. -/
def ordinaryPages : Finset Nat := (Finset.range 512).filter Ordinary

theorem card_ordinaryPages : ordinaryPages.card = 389 := by decide +kernel

/-- How many pages a process may write. -/
def State.writablePages (s : State) (pid : Nat) : Nat :=
  copiedPages s.mem (s.processes pid).pagetable userPages

/-- The pages that are mapped read-only, by one process or by several. -/
def readOnlyPages (s : State) : Finset Nat :=
  (Finset.range 512).filter fun q =>
    ∃ j ∈ live s, ∃ va ∈ userPages, (s.lookup j va).perm = 5 ∧ (s.lookup j va).pn = q

/-- The pages of a page table. -/
def tableFrames (U : Tables) : Finset Nat := (U.pages.map (· / PAGESIZE)).toFinset

/-- The physical pages that are writable. -/
def writableFrames (m : Mem) (root : Nat) : Finset Nat :=
  ((userPages.filter fun va => (virtualMemoryLookup m root va).perm = 7).map fun va =>
    (virtualMemoryLookup m root va).pn.toNat).toFinset

section Frames

variable {m : Mem} {U : Tables} {q : Nat}

theorem mem_tableFrames (h : U.Ok) : q ∈ tableFrames U ↔ PAGESIZE * q ∈ U.pages := by
  rw [tableFrames, List.mem_toFinset, List.mem_map]
  constructor
  · rintro ⟨t, ht, rfl⟩
    rw [page_mul_div (h.aligned t ht)]
    exact ht
  · exact fun ht => ⟨_, ht, Nat.mul_div_cancel_left q (by decide)⟩

theorem mem_writableFrames {root : Nat} : q ∈ writableFrames m root ↔
    ∃ va ∈ userPages, (virtualMemoryLookup m root va).perm = 7 ∧ (virtualMemoryLookup m root va).pn.toNat = q := by
  rw [writableFrames, List.mem_toFinset, List.mem_map]
  constructor
  · rintro ⟨va, hva, rfl⟩
    obtain ⟨huser, hperm⟩ := List.mem_filter.1 hva
    exact ⟨va, huser, decide_eq_true_iff.1 hperm, rfl⟩
  · rintro ⟨va, huser, hperm, hpn⟩
    exact ⟨va, List.mem_filter.2 ⟨huser, decide_eq_true_iff.2 hperm⟩, hpn⟩

theorem card_tableFrames (h : U.Ok) : (tableFrames U).card = 5 := by
  rw [tableFrames, List.toFinset_card_of_nodup, List.length_map]
  · rfl
  · apply List.Nodup.map_on _ h.nodup
    intro t ht t' ht' hsame
    rw [← page_mul_div (h.aligned t ht), ← page_mul_div (h.aligned t' ht'), hsame]

theorem mapped_of_perm {root va : Nat} (h : (virtualMemoryLookup m root va).perm = 7) : Mapped m root va := by
  rw [mapped_iff_perm, h]
  decide

theorem card_writableFrames (h : Space m U) : (writableFrames m U.l1).card = copiedPages m U.l1 userPages := by
  rw [writableFrames, List.toFinset_card_of_nodup, List.length_map, copiedPages, List.countP_eq_length_filter]
  apply List.Nodup.map_on _ (nodup_userPages.filter _)
  intro va hva w hw hsame
  obtain ⟨huser, hperm⟩ := List.mem_filter.1 hva
  obtain ⟨huser', hperm'⟩ := List.mem_filter.1 hw
  exact h.page_inj huser huser' (mapped_of_perm (decide_eq_true_iff.1 hperm))
    (mapped_of_perm (decide_eq_true_iff.1 hperm')) hsame

/-- A writable page has a reference. -/
theorem references_of_writable {root : Nat} (h : q ∈ writableFrames m root) : 0 < references m root userPages q := by
  obtain ⟨va, hva, hperm, hpn⟩ := mem_writableFrames.1 h
  exact references_pos.2 ⟨va, (mem_userPages.1 hva).2, mapped_of_perm hperm, hpn⟩

end Frames

/-! ## The budget -/

/-- The pages that belong to one process alone. -/
def heldFrames (s : State) (T : Nat → Tables) (pid : Nat) : Finset Nat :=
  tableFrames (T pid) ∪ writableFrames s.mem (T pid).l1

namespace Separate

variable {s : State} {T : Nat → Tables} {j k q : Nat}

theorem held_uses (h : Separate s T) (hj : j ∈ live s) (hq : q ∈ heldFrames s T j) : 0 < uses s.mem (T j) q := by
  have hspace := h.family.accounted.space j hj
  rw [uses]
  rcases Finset.mem_union.1 hq with htable | hwritable
  · rw [if_pos ((mem_tableFrames hspace.tables).1 htable)]
    omega
  · exact Nat.lt_of_lt_of_le (references_of_writable hwritable) (Nat.le_add_right _ _)

/-- A page that a process refers to is in no page table. -/
theorem not_table (h : Separate s T) (hj : j ∈ live s) (hpos : 0 < references s.mem (T j).l1 userPages q)
    (hk : k ∈ live s) : q ∉ tableFrames (T k) := by
  rw [mem_tableFrames (h.family.accounted.space k hk).tables]
  exact (h.family.accounted.frames_apart hj hpos).2 k hk

theorem held_card (h : Separate s T) (hj : j ∈ live s) : (heldFrames s T j).card = 5 + s.writablePages j := by
  have hspace := h.family.accounted.space j hj
  rw [heldFrames, Finset.card_union_of_disjoint, card_tableFrames hspace.tables, card_writableFrames hspace,
    State.writablePages, h.family.accounted.root j hj]
  rw [Finset.disjoint_left]
  exact fun q htable hwritable => h.not_table hj (references_of_writable hwritable) hj htable

/-- What a process holds, no other process uses. -/
theorem held_alone (h : Separate s T) (hj : j ∈ live s) (hk : k ∈ live s) (hne : k ≠ j)
    (hq : q ∈ heldFrames s T j) : uses s.mem (T k) q = 0 := by
  have hspace := h.family.accounted.space j hj
  rcases Finset.mem_union.1 hq with htable | hwritable
  · have halone := (h.family.accounted.table_alone hj ((mem_tableFrames hspace.tables).1 htable)).2.1 k hk hne
    rw [Nat.mul_div_cancel_left q (by decide : 0 < PAGESIZE)] at halone
    exact halone
  · obtain ⟨va, hva, hperm, rfl⟩ := mem_writableFrames.1 hwritable
    exact h.alone j hj va (mem_userPages.1 hva).2 hperm k hk hne

theorem mem_readOnly (h : Separate s T) : q ∈ readOnlyPages s ↔ ∃ j ∈ live s, ∃ va ∈ userPages,
    (virtualMemoryLookup s.mem (T j).l1 va).perm = 5 ∧ (virtualMemoryLookup s.mem (T j).l1 va).pn.toNat = q := by
  rw [readOnlyPages, Finset.mem_filter, Finset.mem_range]
  have hroot := h.family.accounted.root
  have hmapped : ∀ j va, (virtualMemoryLookup s.mem (T j).l1 va).perm = 5 → Mapped s.mem (T j).l1 va := by
    intro j va hperm
    rw [mapped_iff_perm, hperm]
    decide
  constructor
  · rintro ⟨-, j, hj, va, hva, hperm, hpn⟩
    rw [State.lookup, hroot j hj] at hperm hpn
    exact ⟨j, hj, va, hva, hperm, by rw [hpn, Int.toNat_natCast]⟩
  · rintro ⟨j, hj, va, hva, hperm, hpn⟩
    have hmap := (h.family.accounted.space j hj).user va (mem_userPages.1 hva).2 (hmapped j va hperm)
    have hlt := hmap.pn.1.lt
    rw [hpn] at hlt
    refine ⟨hlt, j, hj, va, hva, ?_⟩
    rw [State.lookup, hroot j hj]
    exact ⟨hperm, by rw [hmap.pn.2.1, hpn]⟩

/-- A read-only page is none that a process holds. -/
theorem readOnly_apart (h : Separate s T) (hq : q ∈ readOnlyPages s) (hk : k ∈ live s) :
    q ∉ heldFrames s T k := by
  obtain ⟨j, hj, va, hva, hperm, hpn⟩ := h.mem_readOnly.1 hq
  have huser := (mem_userPages.1 hva).2
  have hm : Mapped s.mem (T j).l1 va := by
    rw [mapped_iff_perm, hperm]
    decide
  have hpos := references_pos.2 ⟨va, huser, hm, hpn⟩
  intro hheld
  by_cases hjk : j = k
  · subst hjk
    rcases Finset.mem_union.1 hheld with htable | hwritable
    · exact h.not_table hj hpos hj htable
    · -- one address cannot have both permissions
      obtain ⟨w, hw, hperm', hpn'⟩ := mem_writableFrames.1 hwritable
      have hsame := (h.family.accounted.space j hj).page_inj hva hw hm (mapped_of_perm hperm')
        (hpn.trans hpn'.symm)
      rw [hsame, hperm'] at hperm
      exact absurd hperm (by decide)
  · have hzero := h.held_alone hk hj hjk hheld
    rw [uses] at hzero
    omega

/-- Each page is left, held by one process or read-only. -/
theorem ordinary_cases (h : Separate s T) : q ∈ ordinaryPages ↔
    q ∈ pagesLeft s.pageinfo ∨ (∃ j ∈ live s, q ∈ heldFrames s T j) ∨ q ∈ readOnlyPages s := by
  have hacc := h.family.accounted
  rw [ordinaryPages, Finset.mem_filter, Finset.mem_range]
  constructor
  · rintro ⟨-, hord⟩
    by_cases hused : ∀ j ∈ live s, uses s.mem (T j) q = 0
    · exact Or.inl (hacc.mem_left.2 ⟨hord, hused⟩)
    · right
      obtain ⟨j, hj, hpos⟩ : ∃ j ∈ live s, uses s.mem (T j) q ≠ 0 := by
        by_contra hnone
        apply hused
        intro j hj
        by_contra hpos
        exact hnone ⟨j, hj, hpos⟩
      have hspace := hacc.space j hj
      by_cases htable : PAGESIZE * q ∈ (T j).pages
      · exact Or.inl ⟨j, hj, Finset.mem_union_left _ ((mem_tableFrames hspace.tables).2 htable)⟩
      · rw [uses, if_neg htable, Nat.add_zero] at hpos
        obtain ⟨va, huser, hm, hpn⟩ := references_pos.1 (Nat.pos_of_ne_zero hpos)
        -- the start of the page is mapped to it
        obtain ⟨hpage, hsame⟩ := huser.page
        have hm' := (Mapped.of_page48 hsame).2 hm
        have hpn' : (virtualMemoryLookup s.mem (T j).l1 (4096 * page48 va)).pn.toNat = q := by
          rw [(hm.same_page hsame).1]
          exact hpn
        obtain ⟨pn, perm, -, hperm, hmap⟩ := hspace.page_cases hpage hm'
        rcases hperm with rfl | rfl
        · refine Or.inl ⟨j, hj, Finset.mem_union_right _ (mem_writableFrames.2 ⟨_, hpage, ?_, hpn'⟩)⟩
          rw [hmap]
        · refine Or.inr (h.mem_readOnly.2 ⟨j, hj, _, hpage, ?_, hpn'⟩)
          rw [hmap]
  · have hord : Ordinary q → q < 512 ∧ Ordinary q := fun hord => ⟨hord.lt, hord⟩
    rintro (hleft | ⟨j, hj, hheld⟩ | hread)
    · exact hord (hacc.ordinary_left hleft)
    · exact hord ((hacc.space j hj).ordinary_of_uses (h.held_uses hj hheld))
    · obtain ⟨j, hj, va, hva, hperm, rfl⟩ := h.mem_readOnly.1 hread
      have hm : Mapped s.mem (T j).l1 va := by
        rw [mapped_iff_perm, hperm]
        decide
      exact hord ((hacc.space j hj).user va (mem_userPages.1 hva).2 hm).pn.1

theorem budget (h : Separate s T) :
    (pagesLeft s.pageinfo).card + ∑ j ∈ live s, (5 + s.writablePages j) + (readOnlyPages s).card =
      ordinaryPages.card := by
  have hacc := h.family.accounted
  obtain ⟨held, hheld⟩ : ∃ held, held = (live s).biUnion (heldFrames s T) := ⟨_, rfl⟩
  have hmem : ∀ q, q ∈ held ↔ ∃ j ∈ live s, q ∈ heldFrames s T j := by
    intro q
    rw [hheld, Finset.mem_biUnion]
  have hcard : held.card = ∑ j ∈ live s, (5 + s.writablePages j) := by
    rw [hheld, Finset.card_biUnion]
    · exact Finset.sum_congr rfl fun j hj => h.held_card hj
    · intro j hj k hk hne
      show Disjoint (heldFrames s T j) (heldFrames s T k)
      rw [Finset.disjoint_left]
      intro q hq hq'
      have hzero := h.held_alone hj hk hne.symm hq
      have hpos := h.held_uses hk hq'
      omega
  have hall : ordinaryPages = pagesLeft s.pageinfo ∪ held ∪ readOnlyPages s := by
    ext q
    rw [h.ordinary_cases, Finset.mem_union, Finset.mem_union, hmem, or_assoc]
  rw [hall, Finset.card_union_of_disjoint, Finset.card_union_of_disjoint, hcard]
  · rw [Finset.disjoint_left]
    intro q hq hq'
    obtain ⟨j, hj, hin⟩ := (hmem q).1 hq'
    have hpos := h.held_uses hj hin
    rw [(hacc.mem_left.1 hq).2 j hj] at hpos
    omega
  · rw [Finset.disjoint_left]
    intro q hq hread
    rcases Finset.mem_union.1 hq with hleft | hin
    · obtain ⟨j, hj, va, hva, hperm, rfl⟩ := h.mem_readOnly.1 hread
      have hm : Mapped s.mem (T j).l1 va := by
        rw [mapped_iff_perm, hperm]
        decide
      have hpos := references_pos.2 ⟨va, (mem_userPages.1 hva).2, hm, rfl⟩
      have hzero := (hacc.mem_left.1 hleft).2 j hj
      rw [uses] at hzero
      omega
    · obtain ⟨j, hj, hin⟩ := (hmem q).1 hin
      exact h.readOnly_apart hread hj hin

end Separate

/-- No page leaks: in every state of a contained run the pages that are left, five pages and the writable ones for
each process, and the read-only ones are all the pages that there are. The pages of a process are those of the
user part, so that the page of the console does not count. `palloc` fails only when none is left, and when all
processes have ended they all are. -/
theorem page_budget {bytes : Nat → Nat → UInt8} {m : Mem} {command : Option String} {next : Option Nat}
    {s s' : State} (hboot : kernel bytes m command = .ok (s, next))
    (hrun : Relation.ReflTransGen SystemStep s s') :
    (pagesLeft s'.pageinfo).card + ∑ j ∈ live s', (5 + s'.writablePages j) + (readOnlyPages s').card = 389 ∧
    (∀ pid, pid < NPROC → ((palloc s' pid).2 = NULL ↔ (pagesLeft s'.pageinfo).card = 0)) ∧
    (live s' = ∅ → pagesLeft s'.pageinfo = ordinaryPages) := by
  obtain ⟨T, hbooted⟩ := booted_of_kernel hboot
  obtain ⟨⟨T', hsep⟩, -⟩ := system_simulated.run ⟨T, hbooted.separate⟩ hrun
  have hacc := hsep.family.accounted
  refine ⟨hsep.budget.trans card_ordinaryPages, fun pid hpid => ?_, fun hnobody => ?_⟩
  · rcases hacc.palloc_left hpid with ⟨hzero, hcode, -⟩ | ⟨pn, s₁, hcode, halloc, -, hleft⟩
    · rw [hcode]
      exact ⟨fun _ => hzero, fun _ => rfl⟩
    · rw [hcode]
      refine ⟨fun hnull => absurd hnull halloc.ordinary.page_ne_null, fun hzero => ?_⟩
      omega
  · ext q
    rw [hacc.mem_left, ordinaryPages, Finset.mem_filter, Finset.mem_range, hnobody]
    constructor
    · exact fun hq => ⟨hq.1.lt, hq.1⟩
    · exact fun hq => ⟨hq.2, fun j hj => absurd hj (Finset.notMem_empty j)⟩

/-- The first process has forked. -/
theorem page_budget_fork : ∃ s s', kernel (fun _ _ => 0) (fun _ => 0) none = .ok (s, some 1) ∧ SystemStep s s' ∧
    (pagesLeft s'.pageinfo).card + ∑ j ∈ live s', (5 + s'.writablePages j) + (readOnlyPages s').card = 389 := by
  obtain ⟨s, s', child, hkernel, -, hstep, -⟩ := fork_step
  exact ⟨s, s', hkernel, hstep, (page_budget hkernel (Relation.ReflTransGen.single hstep)).1⟩

/-! ## What a fork needs -/

/-- A slot for a child, a page for each of its page tables and for each page that it gets a copy of. -/
structure HasRoom (s : State) (pid : Nat) : Prop where
  slot : ∃ j, 0 < j ∧ j < NPROC ∧ (s.processes j).state = .free
  pages : 5 + s.writablePages pid ≤ (pagesLeft s.pageinfo).card

theorem findFreePid_ne_none {s : State} :
    findFreePid s ≠ none ↔ ∃ j, 0 < j ∧ j < NPROC ∧ (s.processes j).state = .free := by
  constructor
  · intro hsome
    obtain ⟨child, hfind⟩ := Option.ne_none_iff_exists'.1 hsome
    obtain ⟨hfree, hpos, hlt⟩ := findFreePid_some hfind
    exact ⟨child, hpos, hlt, hfree⟩
  · rintro ⟨j, hpos, hlt, hfree⟩ hnone
    simp only [NPROC] at hlt
    have hbusy := List.find?_eq_none.1 hnone j (List.mem_range'_1.2 ⟨hpos, by omega⟩)
    rw [decide_eq_true_iff] at hbusy
    exact hbusy hfree

/-- `fork` makes a child if and only if there is room for it, and then takes exactly the pages that the child
needs: five, and one for each page of the user part that the caller may write. If there is no room it takes none. -/
theorem fork_room {bytes : Nat → Nat → UInt8} {m : Mem} {command : Option String} {next : Option Nat}
    {s s' : State} (hboot : kernel bytes m command = .ok (s, next))
    (hrun : Relation.ReflTransGen SystemStep s s') {reg : Registers} (h : SoftwareInterrupt s' reg)
    (hintno : reg .intno = INT_SYS_FORK) (addr : Nat) :
    ∃ s'', exception s' reg addr = .ok (s'', some s'.current) ∧
      (HasRoom s' s'.current → ∃ child, child ∉ live s' ∧ live s'' = insert child (live s') ∧
        (s''.processes s'.current).registers .rax = child ∧
        (pagesLeft s''.pageinfo).card + (5 + s'.writablePages s'.current) = (pagesLeft s'.pageinfo).card) ∧
      (¬ HasRoom s' s'.current → live s'' = live s' ∧
        (s''.processes s'.current).registers .rax = signExtend (-1) ∧
        pagesLeft s''.pageinfo = pagesLeft s'.pageinfo) := by
  obtain ⟨T, hbooted⟩ := booted_of_kernel hboot
  obtain ⟨-, howners⟩ := hbooted.family.system_run hbooted.isolated.ownersLive hrun
  obtain ⟨⟨T', hsep⟩, -⟩ := system_simulated.run ⟨T, hbooted.separate⟩ hrun
  obtain ⟨s₁, s₂, s'', r, hcode, hfork⟩ := hsep.fork_handled howners h hintno addr
  have hsame := Alike.of_entered hfork.entered
  have hsep₁ := hsep.alike hsame
  have hpid := mem_live_of_runnable h.current h.running
  have hpid₁ : s₁.current ∈ live s₁ := by
    rw [hfork.entered.current, hsame.live]
    exact hpid
  have hwritable : copiedPages s₁.mem (T' s₁.current).l1 userPages = s'.writablePages s'.current := by
    rw [State.writablePages, hfork.entered.current, hsep.family.accounted.root _ hpid, hsame.mem]
  obtain ⟨hnone, hroom, htaken⟩ := processFork_left hsep₁.family.accounted hpid₁ hfork.code
  rw [hwritable, hsame.pageinfo] at hroom
  rw [hwritable, hsame.pageinfo] at htaken
  rw [hsame.pageinfo] at hnone
  -- room is the same before and after the registers have been saved
  have hroom' : r ≠ -1 ↔ HasRoom s' s'.current := by
    rw [hroom, findFreePid_ne_none]
    constructor
    · rintro ⟨⟨j, hpos, hlt, hfree⟩, hpages⟩
      exact ⟨⟨j, hpos, hlt, (hsame.free j).1 hfree⟩, hpages⟩
    · rintro ⟨⟨j, hpos, hlt, hfree⟩, hpages⟩
      exact ⟨⟨j, hpos, hlt, (hsame.free j).2 hfree⟩, hpages⟩
  have hresult : (s''.processes s'.current).registers .rax = signExtend r := by
    rw [hfork.result, ← hfork.current, setRax, State.setProc_self]
    show Function.update (s₂.processes s₂.current).registers .rax (signExtend r) .rax = _
    rw [Function.update_self]
  have hpicked : Alike s₂ s'' := by
    rw [hfork.result]
    exact Alike.setRax s₂ r
  rw [← hpicked.pageinfo] at hnone htaken
  obtain ⟨hframe, hcases⟩ :=
    processFork_contents hsep₁.family.accounted (fun j hj => (mem_live.1 hj).2) hpid₁ hfork.code
  refine ⟨s'', hcode, fun hyes => ?_, fun hno => ?_⟩
  · have hmade := hroom'.2 hyes
    rcases hcases with ⟨rfl, -⟩ | ⟨child, U, rfl, hf, -⟩
    · exact absurd rfl hmade
    · refine ⟨child, ?_, ?_, ?_, htaken hmade⟩
      · intro hmem
        rw [← hsame.live] at hmem
        exact (mem_live.1 hmem).2 hf.slot.1
      · rw [hpicked.live, hf.live_eq, hsame.live]
      · rw [hresult]
        have hlt := hf.slot.2.2
        simp only [NPROC] at hlt
        rw [signExtend]
        omega
  · have hfailed : r = -1 := by
      by_contra hne
      exact hno (hroom'.1 hne)
    rw [hfailed] at hresult
    rcases hcases with ⟨-, hnot⟩ | ⟨child, U, hr, -⟩
    · refine ⟨?_, hresult, hnone hfailed⟩
      rw [hpicked.live, (hsep₁.notForked hframe hnot).2, hsame.live]
    · omega

/-- The first process has room for a child. -/
theorem fork_room_first : ∃ s s', kernel (fun _ _ => 0) (fun _ => 0) none = .ok (s, some 1) ∧
    exception s (callRegisters INT_SYS_FORK) 0 = .ok (s', some 1) ∧ HasRoom s 1 ∧
    (pagesLeft s'.pageinfo).card + (5 + s.writablePages 1) = (pagesLeft s.pageinfo).card := by
  obtain ⟨s, s', child, hkernel, hcall, -, hcode, hcurrent, hlive, hlive', hne⟩ := fork_step
  obtain ⟨s'', hcode', hyes, hno⟩ := fork_room hkernel Relation.ReflTransGen.refl hcall rfl 0
  rw [hcode] at hcode'
  obtain ⟨rfl, -⟩ := ok_pair.1 hcode'
  rw [hcurrent] at hyes hno
  have hroom : HasRoom s 1 := by
    by_contra hfull
    have hchild : child ∈ live s' := by
      rw [hlive']
      exact Finset.mem_insert_self ..
    rw [(hno hfull).1, hlive, Finset.mem_singleton] at hchild
    exact hne hchild
  obtain ⟨-, -, -, -, hpages⟩ := hyes hroom
  exact ⟨s, s', hkernel, hcode, hroom, hpages⟩

end MemoryManagement.Kernel
