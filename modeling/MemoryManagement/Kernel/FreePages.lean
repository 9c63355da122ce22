import MemoryManagement.Kernel.Separation

/-!
# Pages that are left

How many pages `palloc` can still hand out (`pagesLeft`), and what `process_fork` makes of them: five for the
page table of the child and one for each page that the parent may write. With fewer it fails, and gives all of
them back (`processFork_left`).
-/

set_option autoImplicit false

namespace MemoryManagement.Kernel

open MemoryManagement.Library.ByteMemory
open MemoryManagement.Library.RefCount

/-- The pages without owner and references. -/
def pagesLeft (info : Nat → PageInfo) : Finset Nat :=
  (Finset.range 512).filter fun pn => info pn = ⟨PO_FREE, 0⟩

/-- The pages that a process may write, and that `process_fork` copies. -/
def copiedPages (m : Mem) (root : Nat) (pages : List Nat) : Nat :=
  pages.countP fun va => (virtualMemoryLookup m root va).perm = 7

section Left

variable {s s₁ s' : State} {A : Finset Nat} {T : Nat → Tables} {P : Finset Nat} {pid pn q : Nat}
  {info info' : Nat → PageInfo}

theorem mem_pagesLeft : q ∈ pagesLeft info ↔ q < 512 ∧ info q = ⟨PO_FREE, 0⟩ := by
  rw [pagesLeft, Finset.mem_filter, Finset.mem_range]

theorem pagesLeft_congr (h : ∀ q, q < 512 → (info' q = ⟨PO_FREE, 0⟩ ↔ info q = ⟨PO_FREE, 0⟩)) :
    pagesLeft info' = pagesLeft info := by
  apply Finset.filter_congr
  intro q hq
  exact h q (Finset.mem_range.1 hq)

/-- A page that is free is ordinary. -/
theorem Accounted.ordinary_left (h : Accounted s A T P) (hq : q ∈ pagesLeft s.pageinfo) : Ordinary q := by
  obtain ⟨hlt, hfree⟩ := mem_pagesLeft.1 hq
  by_contra hnot
  have hfixed := h.fixed q hlt hnot
  have howner : initialOwner (q * PAGESIZE) ≠ PO_FREE := fun e => hnot ⟨hlt, e⟩
  rw [hfree] at hfixed
  exact howner (congrArg PageInfo.owner hfixed).symm

/-- The pages that are left are those that no process uses. -/
theorem Accounted.mem_left (h : Accounted s A T ∅) :
    q ∈ pagesLeft s.pageinfo ↔ Ordinary q ∧ ∀ j ∈ A, uses s.mem (T j) q = 0 := by
  constructor
  · intro hq
    refine ⟨h.ordinary_left hq, fun j hj => ?_⟩
    by_contra hpos
    exact h.not_free hj (Nat.pos_of_ne_zero hpos) (mem_pagesLeft.1 hq).2
  · rintro ⟨hord, hunused⟩
    exact mem_pagesLeft.2 ⟨hord.lt, h.free_of_unused hord hunused⟩

/-- One page less. -/
theorem pagesLeft_taken (hlt : pn < 512) (hfree : info pn = ⟨PO_FREE, 0⟩)
    (hinfo : info' = Function.update info pn ⟨pid, 1⟩) : (pagesLeft info').card + 1 = (pagesLeft info).card := by
  have hmem : pn ∈ pagesLeft info := mem_pagesLeft.2 ⟨hlt, hfree⟩
  have hrest : pagesLeft info' = (pagesLeft info).erase pn := by
    ext q
    rw [Finset.mem_erase, mem_pagesLeft, mem_pagesLeft, hinfo]
    by_cases hq : q = pn
    · rw [hq, Function.update_self]
      constructor
      · rintro ⟨-, hfree⟩
        exact absurd (congrArg PageInfo.refcount hfree) (by decide : (1 : Int) ≠ 0)
      · rintro ⟨hne, -⟩
        exact absurd rfl hne
    · rw [Function.update_of_ne hq]
      exact ⟨fun hfree => ⟨hq, hfree⟩, fun hfree => hfree.2⟩
  rw [hrest, Finset.card_erase_of_mem hmem]
  have hpos := Finset.card_pos.2 ⟨pn, hmem⟩
  omega

theorem Allocated.left (h : Allocated s s' pid pn) :
    (pagesLeft s'.pageinfo).card + 1 = (pagesLeft s.pageinfo).card :=
  pagesLeft_taken h.ordinary.lt h.wasFree h.info

/-- `palloc` fails when no page is left, and otherwise takes one. -/
theorem Accounted.palloc_left (h : Accounted s A T P) (hpid : pid < NPROC) :
    ((pagesLeft s.pageinfo).card = 0 ∧ Kernel.palloc s pid = (s, NULL) ∧ findFreePage s.pageinfo = none) ∨
    ∃ pn s', Kernel.palloc s pid = (s', PAGESIZE * pn) ∧ Allocated s s' pid pn ∧ findFreePage s.pageinfo = some pn ∧
      (pagesLeft s'.pageinfo).card + 1 = (pagesLeft s.pageinfo).card := by
  rcases h.palloc hpid with ⟨hnone, hcode⟩ | ⟨pn, s', hfind, hcode, halloc⟩
  · refine Or.inl ⟨?_, hcode, hnone⟩
    rw [Finset.card_eq_zero, Finset.eq_empty_iff_forall_notMem]
    intro q hq
    obtain ⟨hlt, hfree⟩ := mem_pagesLeft.1 hq
    obtain ⟨pn, s', hcode', halloc⟩ := h.palloc_of_free hpid ⟨q, hlt, hfree⟩
    rw [hcode] at hcode'
    exact halloc.ordinary.page_ne_null (Prod.ext_iff.1 hcode').2.symm
  · exact Or.inr ⟨pn, s', hcode, halloc, hfind, halloc.left⟩

/-- `n` pages are there if and only if as many are left. -/
theorem Accounted.pallocs_left (h : Accounted s A T P) (hpid : 0 < pid ∧ pid < NPROC) (n : Nat) :
    (NULL ∈ (Kernel.pallocs pid n s).2 ↔ (pagesLeft s.pageinfo).card < n) ∧
    (n ≤ (pagesLeft s.pageinfo).card →
      (pagesLeft (Kernel.pallocs pid n s).1.pageinfo).card + n = (pagesLeft s.pageinfo).card) := by
  induction n generalizing s P with
  | zero =>
      refine ⟨⟨fun hmem => ?_, fun hlt => ?_⟩, fun _ => Nat.add_zero _⟩
      · cases hmem
      · exact absurd hlt (Nat.not_lt_zero _)
  | succ n ih =>
      rcases h.palloc_left hpid.2 with ⟨hzero, hcode, -⟩ | ⟨pn, s₁, hcode, halloc, -, hleft⟩
      · rw [Kernel.pallocs, hcode]
        refine ⟨⟨fun _ => by omega, fun _ => List.mem_cons_self ..⟩, fun hle => ?_⟩
        omega
      · obtain ⟨hnull, htaken⟩ := ih (h.allocated hpid.1 halloc).2
        have hnonnull : NULL ≠ PAGESIZE * pn := fun e => halloc.ordinary.page_ne_null e.symm
        rw [Kernel.pallocs, hcode]
        refine ⟨?_, fun hle => ?_⟩
        · rw [List.mem_cons, hnull]
          constructor
          · rintro (hfirst | hlt)
            · exact absurd hfirst hnonnull
            · omega
          · exact fun hlt => Or.inr (by omega)
        · have hrest := htaken (by omega)
          show (pagesLeft (Kernel.pallocs pid n s₁).1.pageinfo).card + (n + 1) = _
          omega

end Left

/-! ## The loop of `process_fork` -/

section Loop

variable {s₀ s s' : State} {A : Finset Nat} {T : Nat → Tables} {parent child va : Nat} {rest : List Nat}
  {done : Bool}

/-- One page: a page that the parent may write takes one that is left, or there is none. -/
theorem Forking.page_left (h : Forking s₀ s A T parent child (va :: rest)) (hparent : parent ∈ A)
    (hchild : child ∈ A) (hne : parent ≠ child) (hva : va ∈ userPages) (hnew : va ∉ rest)
    (hsub : ∀ w ∈ rest, w ∈ userPages) (hcode : forkPage parent child s va = .ok (s', done)) :
    (done = true → (pagesLeft s'.pageinfo).card +
      (if (virtualMemoryLookup s₀.mem (T parent).l1 va).perm = 7 then 1 else 0) = (pagesLeft s.pageinfo).card) ∧
    (done = false → (virtualMemoryLookup s₀.mem (T parent).l1 va).perm = 7 ∧
      (pagesLeft s.pageinfo).card = 0) := by
  have hacc := h.accounted
  have hsame := h.others parent hparent hne va
  have hroot := hacc.root parent hparent
  have hpage := h.page hparent hchild hne hva hnew hsub
  rw [hcode] at hpage
  rw [← hsame]
  by_cases h7 : (virtualMemoryLookup s.mem (T parent).l1 va).perm = 7
  · rw [if_pos h7]
    rcases hacc.palloc_left (hacc.pids child hchild).2 with
      ⟨hzero, hnull, hnone⟩ | ⟨pn, s₁, hpalloc, halloc, hfind, hleft⟩
    · -- the code stops before it maps anything
      have hstop : forkPage parent child s va = .ok (s, false) := by
        simp only [forkPage, hroot, h7, hnull]
        rfl
      rw [hstop] at hcode
      obtain ⟨rfl, rfl⟩ := ok_pair.1 hcode
      exact ⟨fun e => Bool.noConfusion e, fun _ => ⟨h7, hzero⟩⟩
    · rcases hpage with ⟨-, hnone⟩ | ⟨s₂, hok, -⟩
      · rw [hfind] at hnone
        cases hnone
      · obtain ⟨rfl, rfl⟩ := ok_pair.1 hok
        have hnonnull : PAGESIZE * pn ≠ NULL := halloc.ordinary.page_ne_null
        have htaken : s'.pageinfo = s₁.pageinfo := by
          simp only [forkPage, hroot, h7, hpalloc, if_neg hnonnull] at hcode
          obtain ⟨map, -, hcode⟩ := bind_eq_ok.1 hcode
          rw [← (ok_pair.1 hcode).1]
        rw [htaken]
        exact ⟨fun _ => hleft, fun e => Bool.noConfusion e⟩
  · rw [if_neg h7]
    -- nothing is taken: the page is shared, or it is not mapped
    have hkept : done = true ∧ pagesLeft s'.pageinfo = pagesLeft s.pageinfo := by
      by_cases hm : Mapped s.mem (T parent).l1 va
      · obtain ⟨pn, perm, hord, hperm, hmap⟩ := (hacc.space parent hparent).page_cases hva hm
        have h5 : perm = 5 := by
          rw [hmap] at h7
          exact hperm.resolve_left h7
        have hlt := hord.lt
        obtain ⟨hva48, hrange⟩ := page48_userPages hva
        have hspace' := hacc.space child hchild
        obtain ⟨m', hmapped, -⟩ := hspace'.linked.map_pages hspace'.tables (i := page48 va) (n := 1)
          (by omega) (by decide : 5 < 4096) (by decide) (Nat.mul_mod_right PAGESIZE pn)
          (by simp only [PAGESIZE]; omega)
        replace hmapped : virtualMemoryMap s.mem (T child).l1 va (PAGESIZE * pn) PAGESIZE 5 = .ok (m', 0) := by
          rw [← hva48]
          exact hmapped
        have hindex : pageinfoIndex (PAGESIZE * pn) = pn := by
          rw [pageinfoIndex_eq, Nat.mul_div_cancel_left pn (by decide : 0 < PAGESIZE)]
          simp only [PAGESIZE, MEMSIZE_PHYSICAL]
          omega
        have hok : forkPage parent child s va =
            .ok ({ s with mem := m', pageinfo := addReference s.pageinfo pn }, true) := by
          simp only [forkPage, hroot, hmap, h5, hacc.root child hchild, show PTE_P ||| PTE_U = 5 from rfl,
            hmapped, hindex]
          rfl
        rw [hok] at hcode
        obtain ⟨hs', rfl⟩ := ok_pair.1 hcode
        refine ⟨rfl, pagesLeft_congr fun q _ => ?_⟩
        by_cases hq : q = pn
        · -- the parent uses the page, before and after
          have huse : 0 < uses s₀.mem (T parent) q := by
            have hrefs : 0 < references s.mem (T parent).l1 userPages q :=
              references_pos.2 ⟨va, (mem_userPages.1 hva).2, hm, by rw [hmap, hq, Int.toNat_natCast]⟩
            rw [← h.uses_other hparent hne, uses]
            omega
          rcases hpage with ⟨hfalse, -⟩ | ⟨s₂, htrue, hnext, -⟩
          · exact Bool.noConfusion (ok_pair.1 hfalse).2
          · obtain ⟨rfl, -⟩ := ok_pair.1 htrue
            have hbefore := hacc.not_free hparent (by rw [h.uses_other hparent hne]; exact huse)
            have hafter := hnext.accounted.not_free hparent (by rw [hnext.uses_other hparent hne]; exact huse)
            exact ⟨fun e => absurd e hafter, fun e => absurd e hbefore⟩
        · have hsameInfo : s'.pageinfo q = s.pageinfo q := by
            rw [← hs']
            exact Function.update_of_ne hq ..
          rw [hsameInfo]
      · have hok : forkPage parent child s va = .ok (s, true) := by
          simp only [forkPage, hroot, not_mapped.1 hm]
          rfl
        rw [hok] at hcode
        obtain ⟨rfl, rfl⟩ := ok_pair.1 hcode
        exact ⟨rfl, rfl⟩
    rw [hkept.1, hkept.2]
    exact ⟨fun _ => Nat.add_zero _, fun e => Bool.noConfusion e⟩

/-- The loop gets through if and only if there is a page for each one that the parent may write. -/
theorem Forking.pages_left (h : Forking s₀ s A T parent child rest) (hparent : parent ∈ A)
    (hchild : child ∈ A) (hne : parent ≠ child) (hsub : ∀ w ∈ rest, w ∈ userPages) (hnodup : rest.Nodup)
    (hcode : forkPages parent child rest s = .ok (s', done)) :
    (done = true ↔ copiedPages s₀.mem (T parent).l1 rest ≤ (pagesLeft s.pageinfo).card) ∧
    (done = true → (pagesLeft s'.pageinfo).card + copiedPages s₀.mem (T parent).l1 rest =
      (pagesLeft s.pageinfo).card) := by
  induction rest generalizing s with
  | nil =>
      obtain ⟨rfl, rfl⟩ := ok_pair.1 hcode
      exact ⟨⟨fun _ => Nat.zero_le _, fun _ => rfl⟩, fun _ => Nat.add_zero _⟩
  | cons va rest ih =>
      obtain ⟨hnew, hnodup'⟩ := List.nodup_cons.1 hnodup
      have hsub' : ∀ w ∈ rest, w ∈ userPages := fun w hw => hsub w (List.mem_cons_of_mem _ hw)
      have hva := hsub va (List.mem_cons_self ..)
      have hcount : copiedPages s₀.mem (T parent).l1 (va :: rest) = copiedPages s₀.mem (T parent).l1 rest +
          (if (virtualMemoryLookup s₀.mem (T parent).l1 va).perm = 7 then 1 else 0) := by
        rw [copiedPages, copiedPages, List.countP_cons]
        congr 1
        simp only [decide_eq_true_iff]
      rw [forkPages] at hcode
      obtain ⟨⟨s₁, done₁⟩, hpage, hcode⟩ := bind_eq_ok.1 hcode
      obtain ⟨hleft, hstop⟩ := h.page_left hparent hchild hne hva hnew hsub' hpage
      cases done₁ with
      | true =>
          rcases h.page hparent hchild hne hva hnew hsub' with ⟨hfalse, -⟩ | ⟨s₂, htrue, hnext, -⟩
          · rw [hpage] at hfalse
            exact Bool.noConfusion (ok_pair.1 hfalse).2
          · rw [hpage] at htrue
            obtain ⟨rfl, -⟩ := ok_pair.1 htrue
            obtain ⟨hiff, hrest⟩ := ih hnext hsub' hnodup' hcode
            have htaken := hleft rfl
            rw [hcount, hiff]
            refine ⟨?_, fun hdone => ?_⟩
            · omega
            · have hend := hrest (hiff.2 hdone)
              omega
      | false =>
          -- the page was the first one too many
          obtain ⟨h7, hzero⟩ := hstop rfl
          obtain ⟨s₂, -, hcode⟩ := bind_eq_ok.1 hcode
          obtain ⟨-, rfl⟩ := ok_pair.1 hcode
          rw [hcount, if_pos h7, hzero]
          exact ⟨⟨fun e => Bool.noConfusion e, fun hle => by omega⟩, fun e => Bool.noConfusion e⟩

end Loop

/-! ## The call -/

section Call

variable {s s' : State} {T : Nat → Tables} {parent : Nat} {r : Int}

theorem processConfigTables_missing {child : Nat} (h : NULL ∈ (pallocs child 5 s).2) :
    ∃ s', processConfigTables s child = .ok (s', -1) :=
  ⟨_, if_pos h⟩

/-- A fork that fails gives back what it has taken. -/
theorem Accounted.left_of_notForked (h : Accounted s (live s) T ∅)
    (hframe : ∀ x, s'.mem x ≠ s.mem x → OnFreePage s x) (hno : NotForked s s' (live s) T) :
    pagesLeft s'.pageinfo = pagesLeft s.pageinfo := by
  ext q
  rw [h.mem_left, hno.accounted.mem_left]
  refine and_congr_right fun _ => forall₂_congr fun j hj => ?_
  rw [uses, references_congr fun va _ => h.lookup_of_free hframe hj va, ← uses]

/-- `process_fork` makes a child if and only if there is a slot, five pages for the page table and one for each
page of the parent that is copied. -/
theorem processFork_left (h : Accounted s (live s) T ∅) (hparent : parent ∈ live s)
    (hcode : processFork s parent = .ok (s', r)) :
    (r = -1 → pagesLeft s'.pageinfo = pagesLeft s.pageinfo) ∧
    (r ≠ -1 ↔ findFreePid s ≠ none ∧
      5 + copiedPages s.mem (T parent).l1 userPages ≤ (pagesLeft s.pageinfo).card) ∧
    (r ≠ -1 → (pagesLeft s'.pageinfo).card + (5 + copiedPages s.mem (T parent).l1 userPages) =
      (pagesLeft s.pageinfo).card) := by
  have hactive : ∀ j ∈ live s, (s.processes j).state ≠ .free := fun j hj => (mem_live.1 hj).2
  constructor
  · rintro rfl
    obtain ⟨hframe, ⟨-, hno⟩ | ⟨child, U, hr, -⟩⟩ := processFork_contents h hactive hparent hcode
    · exact h.left_of_notForked hframe hno
    · omega
  · cases hfind : findFreePid s with
    | none =>
        rw [processFork, hfind] at hcode
        obtain ⟨-, rfl⟩ := ok_pair.1 hcode
        exact ⟨⟨fun hne => absurd rfl hne, fun hroom => absurd rfl hroom.1⟩, fun hne => absurd rfl hne⟩
    | some child =>
        have hslot := findFreePid_some hfind
        have hchild : child ∉ live s := fun hmem => hactive child hmem hslot.1
        have hne : parent ≠ child := fun e => hchild (e ▸ hparent)
        have hpid : 0 < child ∧ child < NPROC := ⟨hslot.2.1, hslot.2.2⟩
        have hinit := h.processInit hchild
        obtain ⟨hnull, htaken⟩ := hinit.pallocs_left hpid 5
        have hinfo : (processInit s child).pageinfo = s.pageinfo := State.setProc_pageinfo ..
        rw [hinfo] at hnull htaken
        rw [processFork, hfind] at hcode
        rcases processConfigTables_spec hinit hchild hpid with ⟨s₁, hconfig, hno⟩ | ⟨s₁, U, hconfig, hconf⟩
        · -- no page table
          have hfew := hnull.1 hno.missing
          simp only [hconfig, bind, Except.bind, if_true] at hcode
          obtain ⟨-, rfl⟩ := ok_pair.1 hcode
          refine ⟨⟨fun hne => absurd rfl hne, fun hroom => ?_⟩, fun hne => absurd rfl hne⟩
          omega
        · have hprep := hconf.prepared hchild hslot
          simp only [hconfig] at hcode
          have henough : 5 ≤ (pagesLeft s.pageinfo).card := by
            by_contra hfew
            obtain ⟨s₂, hfailed⟩ := processConfigTables_missing (hnull.2 (by omega))
            rw [hconfig] at hfailed
            exact absurd (ok_pair.1 hfailed).2 (by decide)
          have hleft := htaken henough
          rw [← hconf.taken] at hleft
          obtain ⟨⟨config, flag⟩, hpure, hcode⟩ := bind_eq_ok.1 hcode
          obtain ⟨rfl, rfl⟩ := ok_pair.1 hpure
          rw [if_neg (show ¬ (0 : Int) = -1 by decide)] at hcode
          obtain ⟨⟨s₂, done⟩, hpages, hcode⟩ := bind_eq_ok.1 hcode
          obtain ⟨hiff, hrest⟩ := (hprep.forking parent).pages_left (Finset.mem_insert_of_mem hparent)
            (Finset.mem_insert_self ..) hne (fun _ hw => hw) nodup_userPages hpages
          -- the new page table has not changed what the parent maps
          have hsame : copiedPages s₁.mem (Function.update T child U parent).l1 userPages =
              copiedPages s.mem (T parent).l1 userPages := by
            apply List.countP_congr
            intro va _
            rw [decide_eq_true_iff, decide_eq_true_iff, hprep.table hparent, hprep.others parent hparent]
          rw [hsame] at hiff hrest
          cases done with
          | true =>
              simp only [if_true] at hcode
              obtain ⟨rfl, rfl⟩ := ok_pair.1 hcode
              have hle := hiff.1 rfl
              have hend := hrest rfl
              refine ⟨⟨fun _ => ⟨Option.some_ne_none child, by omega⟩, fun _ => by omega⟩, fun _ => ?_⟩
              show (pagesLeft s₂.pageinfo).card + _ = _
              omega
          | false =>
              simp only [Bool.false_eq_true, if_false] at hcode
              obtain ⟨-, rfl⟩ := ok_pair.1 hcode
              refine ⟨⟨fun hne => absurd rfl hne, fun hroom => ?_⟩, fun hne => absurd rfl hne⟩
              have hdone := hiff.2 (by omega)
              cases hdone

end Call

end MemoryManagement.Kernel
