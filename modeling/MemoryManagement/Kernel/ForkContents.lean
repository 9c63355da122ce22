import MemoryManagement.Kernel.Fork
import MemoryManagement.Kernel.Loading

/-!
# What a forked process finds in its memory

`process_fork` writes to free pages only: to the five pages of the new page table and to the copies of the
parent's writable pages. Each address of the child's user part therefore reads as it read in the parent,
and nothing that any process had is changed (`processFork_contents`).
-/

set_option autoImplicit false

namespace MemoryManagement.Kernel

open MemoryManagement.Library.ByteMemory
open MemoryManagement.Library.RefCount

/-- The byte lies on a page that `palloc` may hand out. -/
def OnFreePage (s : State) (x : Nat) : Prop :=
  ∃ q, Ordinary q ∧ s.pageinfo q = ⟨PO_FREE, 0⟩ ∧ InRange (PAGESIZE * q) PAGESIZE x

/-- The byte lies in a page table. -/
def OnTable (U : Tables) (x : Nat) : Prop := ∃ t ∈ U.pages, InRange t PAGESIZE x

section Used

variable {s : State} {A : Finset Nat} {T : Nat → Tables} {P : Finset Nat} {j q : Nat}

/-- A page that a process uses is not free. -/
theorem Accounted.not_free (h : Accounted s A T P) (hj : j ∈ A) (huse : 0 < uses s.mem (T j) q) :
    s.pageinfo q ≠ ⟨PO_FREE, 0⟩ := by
  intro hfree
  have hord := (h.space j hj).ordinary_of_uses huse
  have hzero := (h.unused hord (by rw [hfree])).1 j hj
  omega

/-- A page that nobody uses is free. -/
theorem Accounted.free_of_unused (h : Accounted s A T ∅) (hq : Ordinary q)
    (hunused : ∀ j ∈ A, uses s.mem (T j) q = 0) : s.pageinfo q = ⟨PO_FREE, 0⟩ := by
  have hcount := h.counted q hq
  have hnone : refs s.mem A T ∅ q = 0 := count_eq_zero hunused (Finset.notMem_empty q)
  rw [hnone] at hcount
  have howner := (h.free q hq).2 hcount
  calc s.pageinfo q = ⟨(s.pageinfo q).owner, (s.pageinfo q).refcount⟩ := rfl
    _ = ⟨PO_FREE, 0⟩ := by rw [howner, hcount]; rfl

/-- A byte of a page that a process maps is on no free page and in no page table. -/
theorem Accounted.page_byte (h : Accounted s A T P) (hj : j ∈ A)
    (hpos : 0 < references s.mem (T j).l1 userPages q) {x : Nat} (hx : InRange (PAGESIZE * q) PAGESIZE x) :
    ¬ OnFreePage s x ∧ ∀ i ∈ A, ¬ OnTable (T i) x := by
  constructor
  · rintro ⟨q', -, hfree, hx'⟩
    have hsame := page_eq_of_inRange (Nat.mul_mod_right PAGESIZE q') (Nat.mul_mod_right PAGESIZE q) hx' hx
    have hq : q' = q := Nat.eq_of_mul_eq_mul_left (by decide : 0 < PAGESIZE) hsame
    rw [hq] at hfree
    refine h.not_free hj ?_ hfree
    rw [uses]
    omega
  · rintro i hi ⟨t, ht, hx'⟩
    have halign := (h.space i hi).tables.aligned t ht
    apply (h.frames_apart hj hpos).2 i hi
    rw [← page_eq_of_inRange halign (Nat.mul_mod_right PAGESIZE q) hx' hx]
    exact ht

/-- The same, address by address. -/
theorem Accounted.user_address (h : Accounted s A T P) (hj : j ∈ A) {va : Nat} (huser : UserPart va)
    (hm : Mapped s.mem (T j).l1 va) : ¬ OnFreePage s (virtualMemoryLookup s.mem (T j).l1 va).pa ∧
    ∀ i ∈ A, ¬ OnTable (T i) (virtualMemoryLookup s.mem (T j).l1 va).pa := by
  obtain ⟨pn, perm, -, -, hmap⟩ := (h.space j hj).user va huser hm
  have hpos : 0 < references s.mem (T j).l1 userPages pn :=
    references_pos.2 ⟨va, huser, hm, by rw [hmap, Int.toNat_natCast]⟩
  apply h.page_byte hj hpos
  rw [hmap]
  exact ⟨Nat.le_add_right _ _, Nat.add_lt_add_left (Nat.mod_lt _ (by decide)) _⟩

/-- The same, byte by byte of a page. -/
theorem Accounted.user_byte (h : Accounted s A T P) (hj : j ∈ A) {va k : Nat} (hva : va ∈ userPages)
    (hm : Mapped s.mem (T j).l1 va) (hk : k < PAGESIZE) :
    ¬ OnFreePage s ((virtualMemoryLookup s.mem (T j).l1 va).pa + k) ∧
    ∀ i ∈ A, ¬ OnTable (T i) ((virtualMemoryLookup s.mem (T j).l1 va).pa + k) := by
  obtain ⟨pn, perm, -, -, hmap⟩ := (h.space j hj).page_cases hva hm
  have hpos : 0 < references s.mem (T j).l1 userPages pn :=
    references_pos.2 ⟨va, (mem_userPages.1 hva).2, hm, by rw [hmap, Int.toNat_natCast]⟩
  apply h.page_byte hj hpos
  rw [hmap]
  exact ⟨Nat.le_add_right _ _, Nat.add_lt_add_left hk _⟩

end Used

/-! ## The copying loop -/

/-- `process_fork` has copied the pages of the user part other than `rest`: the child reads there what the
parent read at first, and has its own pages where it may write. -/
structure Copying (s₀ s : State) (A : Finset Nat) (T : Nat → Tables) (parent child : Nat)
    (rest : List Nat) : Prop where
  forking : Forking s₀ s A T parent child rest
  bytes : ∀ x, s.mem x ≠ s₀.mem x → OnFreePage s₀ x ∨ OnTable (T child) x
  free : ∀ q, s.pageinfo q = ⟨PO_FREE, 0⟩ → s₀.pageinfo q = ⟨PO_FREE, 0⟩
  copied : ∀ va ∈ userPages, va ∉ rest → Mapped s₀.mem (T parent).l1 va → ∀ k, k < PAGESIZE →
    s.mem ((virtualMemoryLookup s.mem (T child).l1 va).pa + k) =
      s₀.mem ((virtualMemoryLookup s₀.mem (T parent).l1 va).pa + k)
  taken : ∀ va ∈ userPages, va ∉ rest → (virtualMemoryLookup s₀.mem (T parent).l1 va).perm = 7 →
    s₀.pageinfo (virtualMemoryLookup s.mem (T child).l1 va).pn.toNat = ⟨PO_FREE, 0⟩

section Loop

variable {s₀ s s' : State} {A : Finset Nat} {T : Nat → Tables} {parent child va : Nat} {rest : List Nat}

namespace Copying

theorem start (h : Forking s s A T parent child userPages) : Copying s s A T parent child userPages := by
  constructor
  · exact h
  · exact fun x hx => absurd rfl hx
  · exact fun q hq => hq
  · exact fun va hva hout => absurd hva hout
  · exact fun va hva hout => absurd hva hout

/-- The child's page at a copied address is one that it maps. -/
theorem mapped (h : Copying s₀ s A T parent child rest) {w : Nat} (hw : w ∈ userPages) (hout : w ∉ rest)
    (hm : Mapped s₀.mem (T parent).l1 w) : Mapped s.mem (T child).l1 w := by
  rw [mapped_iff_perm, h.forking.perm w hw hout]
  exact mapped_iff_perm.1 hm

/-- What the parent has is as it was. -/
theorem parent_byte (h : Copying s₀ s A T parent child rest) (hacc₀ : Accounted s₀ A T ∅) (hparent : parent ∈ A)
    (hchild : child ∈ A) {w k : Nat} (hw : w ∈ userPages) (hm : Mapped s₀.mem (T parent).l1 w)
    (hk : k < PAGESIZE) : s.mem ((virtualMemoryLookup s₀.mem (T parent).l1 w).pa + k) =
      s₀.mem ((virtualMemoryLookup s₀.mem (T parent).l1 w).pa + k) := by
  obtain ⟨hused, hapart⟩ := hacc₀.user_byte hparent hw hm hk
  by_contra hne
  rcases h.bytes _ hne with hfree | htable
  · exact hused hfree
  · exact hapart child hchild htable

/-- One page more: only free pages and the child's page table have been written to. -/
theorem next (h : Copying s₀ s A T parent child (va :: rest)) (hchild : child ∈ A)
    (hforking : Forking s₀ s' A T parent child rest)
    (hbytes : ∀ x, s'.mem x ≠ s.mem x → OnFreePage s x ∨ OnTable (T child) x)
    (hfree : ∀ q, s'.pageinfo q = ⟨PO_FREE, 0⟩ → s.pageinfo q = ⟨PO_FREE, 0⟩)
    (hkept : ∀ w ∈ userPages, w ≠ va →
      virtualMemoryLookup s'.mem (T child).l1 w = virtualMemoryLookup s.mem (T child).l1 w)
    (hcopied : Mapped s₀.mem (T parent).l1 va → ∀ k, k < PAGESIZE →
      s'.mem ((virtualMemoryLookup s'.mem (T child).l1 va).pa + k) =
        s₀.mem ((virtualMemoryLookup s₀.mem (T parent).l1 va).pa + k))
    (htaken : (virtualMemoryLookup s₀.mem (T parent).l1 va).perm = 7 →
      s₀.pageinfo (virtualMemoryLookup s'.mem (T child).l1 va).pn.toNat = ⟨PO_FREE, 0⟩) :
    Copying s₀ s' A T parent child rest := by
  have hbefore : ∀ w, w ∉ rest → w ≠ va → w ∉ va :: rest := by
    intro w hout hwv hmem
    exact hout ((List.mem_cons.1 hmem).resolve_left hwv)
  constructor
  · exact hforking
  · intro x hx
    by_cases hstep : s'.mem x = s.mem x
    · rw [hstep] at hx
      exact h.bytes x hx
    · rcases hbytes x hstep with ⟨q, hq, hqfree, hqx⟩ | htable
      · exact Or.inl ⟨q, hq, h.free q hqfree, hqx⟩
      · exact Or.inr htable
  · exact fun q hq => h.free q (hfree q hq)
  · intro w hw hout hm k hk
    by_cases hwv : w = va
    · rw [hwv] at hm ⊢
      exact hcopied hm k hk
    · -- the page was in use, so that it has not been written to
      have hin := hbefore w hout hwv
      obtain ⟨hused, hapart⟩ := h.forking.accounted.user_byte hchild hw (h.mapped hw hin hm) hk
      rw [hkept w hw hwv, ← h.copied w hw hin hm k hk]
      by_contra hne
      rcases hbytes _ hne with hon | htable
      · exact hused hon
      · exact hapart child hchild htable
  · intro w hw hout hperm
    by_cases hwv : w = va
    · rw [hwv] at hperm ⊢
      exact htaken hperm
    · rw [hkept w hw hwv]
      exact h.taken w hw (hbefore w hout hwv) hperm

end Copying

/-- One page of the loop. -/
theorem Copying.page (h : Copying s₀ s A T parent child (va :: rest)) (hacc₀ : Accounted s₀ A T ∅)
    (hparent : parent ∈ A) (hchild : child ∈ A) (hne : parent ≠ child) (hva : va ∈ userPages)
    (hnew : va ∉ rest) (hsub : ∀ w ∈ rest, w ∈ userPages) :
    forkPage parent child s va = .ok (s, false) ∨
    ∃ s', forkPage parent child s va = .ok (s', true) ∧ Copying s₀ s' A T parent child rest := by
  have hf := h.forking
  have hsame := hf.others parent hparent hne va
  have hroot := hf.accounted.root parent hparent
  have hroot' := hf.accounted.root child hchild
  have hspace' := hf.accounted.space child hchild
  obtain ⟨hva48, hrange⟩ := page48_userPages hva
  have hleft := hf.left va (List.mem_cons_self ..)
  have hunmapped : ¬ Mapped s.mem (T child).l1 (PAGESIZE * page48 va) := by
    rw [hva48]
    exact hleft
  by_cases hm : Mapped s₀.mem (T parent).l1 va
  · have hms : Mapped s.mem (T parent).l1 va := by
      rw [Mapped, hsame]
      exact hm
    obtain ⟨pn, perm, hord, hperm, hmap⟩ := (hf.accounted.space parent hparent).page_cases hva hms
    have hmap₀ : virtualMemoryLookup s₀.mem (T parent).l1 va = ⟨(pn : Nat), PAGESIZE * pn, perm⟩ := by
      rw [← hsame, hmap]
    have hsource : ∀ k, k < PAGESIZE → s.mem (PAGESIZE * pn + k) = s₀.mem (PAGESIZE * pn + k) := by
      intro k hk
      have hkept := h.parent_byte hacc₀ hparent hchild hva hm hk
      rw [hmap₀] at hkept
      exact hkept
    have hused : 0 < uses s.mem (T parent) pn := by
      have hrefs := references_pos.2 ⟨va, (mem_userPages.1 hva).2, hms, rfl⟩
      rw [hmap, Int.toNat_natCast] at hrefs
      rw [uses]
      omega
    rcases hperm with rfl | rfl
    · -- a writable page is copied, if there is a page for the copy
      rcases hf.accounted.palloc (hf.accounted.pids child hchild).2 with
        ⟨hnone, hcode⟩ | ⟨new, s₁, hfind, hcode, halloc⟩
      · left
        simp only [forkPage, hroot, hmap, hcode]
        rfl
      · right
        obtain ⟨copied, hcopied⟩ : ∃ m, m = memcpy s₁.mem (PAGESIZE * new) (PAGESIZE * pn) PAGESIZE :=
          ⟨_, rfl⟩
        have hwrite : ∀ x, ¬ InRange (PAGESIZE * new) PAGESIZE x → copied x = s₁.mem x := by
          intro x hx
          rw [hcopied]
          exact memcpy_of_not_inRange hx
        obtain ⟨m', hmapped, hs, hpage⟩ :=
          hf.accounted.supply hchild hrange.1 hrange.2 hunmapped halloc hwrite
        have hnonnull : PAGESIZE * new ≠ NULL := halloc.ordinary.page_ne_null
        have hroot₁ : (s.processes child).pagetable = (T child).l1 := hroot'
        rw [hva48] at hmapped
        -- the new page is not the page that is copied
        have hother : ∀ k, k < PAGESIZE → ¬ InRange (PAGESIZE * new) PAGESIZE (PAGESIZE * pn + k) := by
          intro k hk hx
          have hsame := page_eq_of_inRange (Nat.mul_mod_right PAGESIZE new) (Nat.mul_mod_right PAGESIZE pn)
            hx ⟨Nat.le_add_right _ _, Nat.add_lt_add_left hk _⟩
          have hnew : new = pn := Nat.eq_of_mul_eq_mul_left (by decide : 0 < PAGESIZE) hsame
          exact hf.accounted.not_free hparent hused (hnew ▸ halloc.wasFree)
        have hself := hs.lookup va
        rw [if_pos rfl, (mem_userPages.1 hva).1] at hself
        have hinfo := hs.info
        refine ⟨{ s₁ with mem := m' }, ?_, h.next hchild
          (hf.copy hparent hne hva hnew hsub (by rw [hmap₀]) hs) (fun x hx => ?_) (fun q hq => ?_) ?_
          (fun _ k hk => ?_) fun _ => ?_⟩
        · simp only [forkPage, hroot, hmap, hcode, hroot₁, if_neg hnonnull, ← hcopied,
            show PTE_P ||| PTE_W ||| PTE_U = 7 from rfl, hmapped]
          rfl
        · by_cases hfresh : InRange (PAGESIZE * new) PAGESIZE x
          · exact Or.inl ⟨new, halloc.ordinary, halloc.wasFree, hfresh⟩
          · right
            by_contra hnot
            exact hx (hs.bytes x hfresh fun t ht hxt => hnot ⟨t, ht, hxt⟩)
        · rw [hinfo] at hq
          by_cases hqn : q = new
          · rw [hqn, Function.update_self] at hq
            exact absurd (congrArg PageInfo.refcount hq) (by decide : (1 : Int) ≠ 0)
          · rw [Function.update_of_ne hqn] at hq
            exact hq
        · intro w hw hwv
          rw [hs.lookup, if_neg fun e => hwv (page48_inj hva hw e)]
        · rw [hself, hmap₀]
          show m' (PAGESIZE * new + 0 + k) = s₀.mem (PAGESIZE * pn + k)
          rw [Nat.add_zero, hpage _ ⟨Nat.le_add_right _ _, Nat.add_lt_add_left hk _⟩, hcopied,
            memcpy_of_lt hk (hother k hk), halloc.bytes _ (hother k hk), hsource k hk]
        · rw [hself]
          exact h.free new halloc.wasFree
    · -- a read-only page is shared
      right
      have hlt := hord.lt
      obtain ⟨m', hmapped, hmaps⟩ := hspace'.linked.map_pages hspace'.tables (i := page48 va) (n := 1)
        (by omega) (by decide : 5 < 4096) (by decide) (Nat.mul_mod_right PAGESIZE pn)
        (by simp only [PAGESIZE]; omega)
      replace hmapped : virtualMemoryMap s.mem (T child).l1 va (PAGESIZE * pn) PAGESIZE 5 =
          .ok (m', 0) := by
        rw [← hva48]
        exact hmapped
      have hindex : pageinfoIndex (PAGESIZE * pn) = pn := by
        rw [pageinfoIndex_eq, Nat.mul_div_cancel_left pn (by decide : 0 < PAGESIZE)]
        simp only [PAGESIZE, MEMSIZE_PHYSICAL]
        omega
      have hforking := hf.share hparent hchild hne hva hnew hsub hmap₀ hmaps
      have hlookup := Space.lookup_mapPage (Or.inr rfl) hmaps
      have hself := hlookup va
      rw [if_pos rfl, (mem_userPages.1 hva).1] at hself
      have hleaves : ∀ x, m' x ≠ s.mem x → OnTable (T child) x := by
        intro x hx
        by_contra hnot
        apply hx
        apply hmaps.bytes
        · exact fun hxa => hnot ⟨_, (T child).l4a_mem, hxa⟩
        · exact fun hxb => hnot ⟨_, (T child).l4b_mem, hxb⟩
      refine ⟨_, ?_, h.next hchild hforking (fun x hx => Or.inr (hleaves x hx)) (fun q hq => ?_) ?_
        (fun _ k hk => ?_) fun hperm => ?_⟩
      · simp only [forkPage, hroot, hmap, hroot', show PTE_P ||| PTE_U = 5 from rfl, hmapped, hindex]
        rfl
      · by_cases hqn : q = pn
        · -- the page is in use by the parent still
          exfalso
          refine hforking.accounted.not_free hparent ?_ hq
          rw [hforking.uses_other hparent hne, ← hf.uses_other hparent hne, hqn]
          exact hused
        · have hkeep : addReference s.pageinfo pn q = s.pageinfo q := Function.update_of_ne hqn ..
          rw [← hkeep]
          exact hq
      · intro w hw hwv
        show virtualMemoryLookup m' (T child).l1 w = _
        rw [hlookup, if_neg fun e => hwv (page48_inj hva hw e)]
      · show m' ((virtualMemoryLookup m' (T child).l1 va).pa + k) = _
        rw [hself, hmap₀]
        show m' (PAGESIZE * pn + 0 + k) = s₀.mem (PAGESIZE * pn + k)
        rw [Nat.add_zero, ← hsource k hk]
        by_contra hdiff
        have hapart := (hf.accounted.user_byte hparent hva hms hk).2 child hchild
        rw [hmap] at hapart
        exact hapart (hleaves _ hdiff)
      · rw [hmap₀] at hperm
        exact absurd hperm (by decide : (5 : Nat) ≠ 7)
  · -- a page that the parent has not got
    right
    have hmap := not_mapped.1 hm
    refine ⟨s, ?_, h.next hchild (hf.skip hnew hsub hm) (fun x hx => absurd rfl hx) (fun q hq => hq)
      (fun _ _ _ => rfl) (fun hmapped => absurd hmapped hm) fun hperm => ?_⟩
    · simp only [forkPage, hroot, hsame, hmap]
      rfl
    · rw [hmap] at hperm
      exact absurd hperm (by decide : (0 : Nat) ≠ 7)

/-- The whole loop. -/
theorem Copying.pages (h : Copying s₀ s A T parent child rest) (hacc₀ : Accounted s₀ A T ∅)
    (hparent : parent ∈ A) (hchild : child ∈ A) (hne : parent ≠ child) (hsub : ∀ w ∈ rest, w ∈ userPages)
    (hnodup : rest.Nodup) :
    (∃ s', forkPages parent child rest s = .ok (s', true) ∧ Copying s₀ s' A T parent child []) ∨
      ∃ s₁ rest', forkPages parent child rest s = .ok (released s₁ (T child) child, false) ∧
        Copying s₀ s₁ A T parent child rest' := by
  induction rest generalizing s with
  | nil => exact Or.inl ⟨s, rfl, h⟩
  | cons va rest ih =>
      obtain ⟨hnew, hnodup'⟩ := List.nodup_cons.1 hnodup
      have hsub' : ∀ w ∈ rest, w ∈ userPages := fun w hw => hsub w (List.mem_cons_of_mem _ hw)
      rcases h.page hacc₀ hparent hchild hne (hsub va (List.mem_cons_self ..)) hnew hsub' with
        hcode | ⟨s₁, hcode, hnext⟩
      · refine Or.inr ⟨s, va :: rest, ?_, h⟩
        rw [forkPages, hcode]
        simp only [bind, Except.bind, Bool.false_eq_true, if_false, h.forking.accounted.processFree_eq hchild]
      · have hstep : forkPages parent child (va :: rest) s = forkPages parent child rest s₁ := by
          rw [forkPages, hcode]
          rfl
        rw [hstep]
        exact ih hnext hsub' hnodup'

end Loop

/-! ## The page table of the child -/

section Call

variable {s s' : State} {A : Finset Nat} {T : Nat → Tables} {parent child : Nat} {r : Int}

/-- `process_config_tables` writes to pages that were free. -/
theorem processConfigTables_bytes (h : Accounted s A T ∅) (hchild : 0 < child ∧ child < NPROC)
    (hcode : processConfigTables s child = .ok (s', r)) {x : Nat} (hx : s'.mem x ≠ s.mem x) :
    OnFreePage s x := by
  obtain ⟨held, -, htaken, hacc⟩ := h.pallocs hchild 5
  rw [Finset.empty_union] at hacc
  obtain ⟨U, hU⟩ : ∃ U : Tables, (pallocs child 5 s).2 = U.pages :=
    ⟨⟨(palloc s child).2, (palloc (palloc s child).1 child).2,
      (palloc (palloc (palloc s child).1 child).1 child).2,
      (palloc (palloc (palloc (palloc s child).1 child).1 child).1 child).2,
      (palloc (palloc (palloc (palloc (palloc s child).1 child).1 child).1 child).1 child).2⟩, rfl⟩
  obtain ⟨s₁, hs₁⟩ : ∃ s₁, (pallocs child 5 s).1 = s₁ := ⟨_, rfl⟩
  have hof := processConfigTables_of (Prod.ext hs₁ hU : pallocs child 5 s = (s₁, U.pages))
  rw [hs₁] at hacc
  rw [hs₁, hU] at htaken
  rw [hof] at hcode
  -- a byte outside the pages that were taken is as before
  by_contra hnot
  have hout : ∀ q ∈ held, ¬ InRange (PAGESIZE * q) PAGESIZE x := by
    intro q hq hin
    exact hnot ⟨q, (hacc.aside q hq).1, htaken.wasFree q hq, hin⟩
  have hkept : s₁.mem x = s.mem x := htaken.bytes x hout
  by_cases hnull : NULL ∈ U.pages
  · rw [if_pos hnull] at hcode
    rw [← (ok_pair.1 hcode).1] at hx
    exact hx hkept
  · rw [if_neg hnull] at hcode
    have hpage : ∀ t ∈ U.pages, t / PAGESIZE ∈ held ∧ PAGESIZE * (t / PAGESIZE) = t := by
      intro t ht
      have halign := htaken.aligned t ht
      refine ⟨?_, page_mul_div halign⟩
      rw [htaken.held_iff, page_mul_div halign]
      refine ⟨?_, ht⟩
      have h0 : t ≠ NULL := fun e => hnull (e ▸ ht)
      simp only [PAGESIZE, NULL] at h0 ⊢
      omega
    have hnonnull : ∀ t ∈ U.pages, t ≠ NULL := fun t ht e => hnull (e ▸ ht)
    have hUok : U.Ok := by
      refine ⟨htaken.aligned, hnonnull, fun t ht => ?_, ?_⟩
      · have hlt := (hacc.aside _ (hpage t ht).1).1.lt
        simp only [PAGESIZE, MEMSIZE_PHYSICAL] at hlt ⊢
        omega
      · have hdistinct := htaken.distinct
        rwa [List.filter_eq_self.2 fun t ht => by simpa using hnonnull t ht] at hdistinct
    obtain ⟨low, console, hlow, hconsole, -, -, hbytes⟩ := emptySpace_built (m := s₁.mem) hUok
      fun t ht => (hacc.aside _ (hpage t ht).1).1
    rw [hlow] at hcode
    simp only [bind, Except.bind, ne_eq, not_true_eq_false, if_false, hconsole] at hcode
    rw [← (ok_pair.1 hcode).1] at hx
    apply hx
    show console x = s.mem x
    rw [hbytes x, hkept]
    intro t ht hin
    apply hout _ (hpage t ht).1
    rw [(hpage t ht).2]
    exact hin

/-- The pages of the new page table were free. -/
theorem Prepared.tables_free {s₁ : State} {U : Tables} (h : Prepared s s₁ A T child U)
    (hacc : Accounted s A T ∅) {t : Nat} (ht : t ∈ U.pages) : s.pageinfo (t / PAGESIZE) = ⟨PO_FREE, 0⟩ := by
  have hself : Function.update T child U child = U := Function.update_self ..
  have hchild : child ∈ insert child A := Finset.mem_insert_self ..
  have hord := (h.accounted.space child hchild).ordinary
  rw [hself] at hord
  apply hacc.free_of_unused (hord t ht)
  intro j hj
  rw [← h.uses_eq hj]
  have halone := h.accounted.table_alone hchild (by rw [hself]; exact ht)
  exact halone.2.1 j (Finset.mem_insert_of_mem hj) (h.ne hj)

/-- A page that is free when the child has its page table was free before. -/
theorem Prepared.was_free {s₁ : State} {U : Tables} (h : Prepared s s₁ A T child U) {q : Nat}
    (hfree : s₁.pageinfo q = ⟨PO_FREE, 0⟩) : s.pageinfo q = ⟨PO_FREE, 0⟩ := by
  rcases h.info q with hsame | ⟨hwas, -⟩
  · rw [← hsame]
    exact hfree
  · exact hwas

/-! ## The call -/

/-- The child reads what the parent reads, and where it may write it has pages of its own. -/
structure Duplicated (s s' : State) (T : Nat → Tables) (parent : Nat) (U : Tables) : Prop where
  bytes : ∀ va, UserPart va → Mapped s.mem (T parent).l1 va →
    s'.mem (virtualMemoryLookup s'.mem U.l1 va).pa = s.mem (virtualMemoryLookup s.mem (T parent).l1 va).pa
  perm : ∀ va, UserPart va →
    (virtualMemoryLookup s'.mem U.l1 va).perm = (virtualMemoryLookup s.mem (T parent).l1 va).perm
  taken : ∀ va, UserPart va → (virtualMemoryLookup s.mem (T parent).l1 va).perm = 7 →
    s.pageinfo (virtualMemoryLookup s'.mem U.l1 va).pn.toNat = ⟨PO_FREE, 0⟩

/-- Contents that agree page by page agree address by address. -/
theorem Duplicated.of_pages {U : Tables}
    (hperm : ∀ va ∈ userPages, (virtualMemoryLookup s'.mem U.l1 va).perm =
      (virtualMemoryLookup s.mem (T parent).l1 va).perm)
    (hbytes : ∀ va ∈ userPages, Mapped s.mem (T parent).l1 va → ∀ k, k < PAGESIZE →
      s'.mem ((virtualMemoryLookup s'.mem U.l1 va).pa + k) =
        s.mem ((virtualMemoryLookup s.mem (T parent).l1 va).pa + k))
    (htaken : ∀ va ∈ userPages, (virtualMemoryLookup s.mem (T parent).l1 va).perm = 7 →
      s.pageinfo (virtualMemoryLookup s'.mem U.l1 va).pn.toNat = ⟨PO_FREE, 0⟩) :
    Duplicated s s' T parent U := by
  -- the start of the page, and what it says about the address
  have hpage : ∀ va, UserPart va → ∃ w ∈ userPages, page48 va = page48 w :=
    fun va huser => ⟨_, huser.page.1, huser.page.2.symm⟩
  have hsame : ∀ va w, w ∈ userPages → page48 va = page48 w →
      (Mapped s'.mem U.l1 w ↔ Mapped s.mem (T parent).l1 w) := by
    intro va w hw _
    rw [mapped_iff_perm, mapped_iff_perm, hperm w hw]
  constructor
  · intro va huser hm
    obtain ⟨w, hw, hpg⟩ := hpage va huser
    have hmw := (Mapped.of_page48 hpg).1 hm
    have hmw' := (hsame va w hw hpg).2 hmw
    have hoff : ∀ (m : Mem) (root : Nat), Mapped m root w → (virtualMemoryLookup m root va).pa =
        (virtualMemoryLookup m root w).pa + va % PAGESIZE := by
      intro m root hmapped
      obtain ⟨-, hdiv, hmod, -⟩ := hmapped.same_page hpg
      obtain ⟨-, -, hmod', -⟩ := hmapped.same_page rfl
      have hw0 := (mem_userPages.1 hw).1
      simp only [PAGESIZE]
      omega
    rw [hoff _ _ hmw, hoff _ _ hmw']
    exact hbytes w hw hmw _ (Nat.mod_lt _ (by decide))
  · intro va huser
    obtain ⟨w, hw, hpg⟩ := hpage va huser
    by_cases hm : Mapped s.mem (T parent).l1 w
    · have hm' := (hsame va w hw hpg).2 hm
      rw [(hm.same_page hpg).2.2.2, (hm'.same_page hpg).2.2.2, hperm w hw]
    · have hm' : ¬ Mapped s'.mem U.l1 w := fun e => hm ((hsame va w hw hpg).1 e)
      have hva : ¬ Mapped s.mem (T parent).l1 va := fun e => hm ((Mapped.of_page48 hpg).1 e)
      have hva' : ¬ Mapped s'.mem U.l1 va := fun e => hm' ((Mapped.of_page48 hpg).1 e)
      rw [not_mapped.1 hva, not_mapped.1 hva']
  · intro va huser hw7
    obtain ⟨w, hw, hpg⟩ := hpage va huser
    have hm : Mapped s.mem (T parent).l1 w := by
      rw [← Mapped.of_page48 hpg, mapped_iff_perm, hw7]
      decide
    rw [(((hsame va w hw hpg).2 hm).same_page hpg).1]
    apply htaken w hw
    rw [← (hm.same_page hpg).2.2.2, hw7]

/-- `process_fork` changes bytes of free pages only. If it makes a child, the child's memory is the parent's. -/
theorem processFork_contents (h : Accounted s A T ∅) (hactive : ∀ j ∈ A, (s.processes j).state ≠ .free)
    (hparent : parent ∈ A) (hcode : processFork s parent = .ok (s', r)) :
    (∀ x, s'.mem x ≠ s.mem x → OnFreePage s x) ∧
    (r = -1 ∧ NotForked s s' A T ∨
      ∃ child U, r = (child : Nat) ∧ Forked s s' A T parent child U ∧ Duplicated s s' T parent U) := by
  cases hfind : findFreePid s with
  | none =>
      rw [processFork, hfind] at hcode
      obtain ⟨rfl, rfl⟩ := ok_pair.1 hcode
      refine ⟨fun x hx => absurd rfl hx, Or.inl ⟨rfl, h, fun _ _ => rfl, fun _ hj => hj,
        fun _ => ⟨rfl, rfl⟩, (OnlyPages.refl s).machine, fun _ _ hq => ⟨hq, rfl⟩⟩⟩
  | some child =>
      have hslot := findFreePid_some hfind
      have hchild : child ∉ A := fun hmem => hactive child hmem hslot.1
      have hne : parent ≠ child := fun e => hchild (e ▸ hparent)
      have hinit := h.processInit hchild
      have hpid : 0 < child ∧ child < NPROC := ⟨hslot.2.1, hslot.2.2⟩
      rcases processConfigTables_spec hinit hchild hpid with ⟨s₁, hconfig, hno⟩ | ⟨s₁, U, hconfig, hconf⟩
      · rw [processFork, hfind] at hcode
        simp only [hconfig, bind, Except.bind, if_true] at hcode
        obtain ⟨rfl, rfl⟩ := ok_pair.1 hcode
        exact ⟨fun x hx => processConfigTables_bytes hinit hpid hconfig hx,
          Or.inl ⟨rfl, hno.notForked hslot.1⟩⟩
      · have hprep := hconf.prepared hchild hslot
        have hchildA : child ∈ insert child A := Finset.mem_insert_self ..
        have hT : Function.update T child U child = U := Function.update_self ..
        have hfrom : processFork s parent = (do
            let copy ← forkPages parent child userPages s₁
            let s := copy.1
            if copy.2 then
              .ok (s.setProc child { s.processes child with
                registers := Function.update (s.processes parent).registers .rax 0
                state := .runnable }, child)
            else .ok (s, -1)) := by
          rw [processFork, hfind]
          simp only [hconfig, bind, Except.bind]
          exact if_neg (by decide)
        -- all bytes that have changed so far are on pages that were free at the call
        have hframe : ∀ (s₂ : State) (rest : List Nat),
            Copying s₁ s₂ (insert child A) (Function.update T child U) parent child rest →
            ∀ x, s₂.mem x ≠ s.mem x → OnFreePage s x := by
          intro s₂ rest hcopy x hx
          by_cases hstep : s₂.mem x = s₁.mem x
          · rw [hstep] at hx
            exact processConfigTables_bytes hinit hpid hconfig hx
          · rcases hcopy.bytes x hstep with ⟨q, hq, hfree, hin⟩ | ⟨t, ht, hin⟩
            · exact ⟨q, hq, hprep.was_free hfree, hin⟩
            · have hspace := hprep.accounted.space child hchildA
              rw [hT] at ht hspace
              refine ⟨t / PAGESIZE, hspace.ordinary t ht, hprep.tables_free h ht, ?_⟩
              rw [page_mul_div (hspace.tables.aligned t ht)]
              exact hin
        rcases (Copying.start (hprep.forking parent)).pages hprep.accounted (Finset.mem_insert_of_mem hparent)
          hchildA hne (fun _ hw => hw) nodup_userPages with ⟨s₂, hpages, hdone⟩ | ⟨s₂, rest, hpages, hcopy⟩
        · rw [hfrom, hpages] at hcode
          obtain ⟨rfl, rfl⟩ := ok_pair.1 hcode
          refine ⟨hframe s₂ [] hdone, Or.inr ⟨child, U, rfl, hprep.forked h hparent hdone.forking, ?_⟩⟩
          have hlookup := hprep.others parent hparent
          have hsame := hprep.table hparent
          apply Duplicated.of_pages
          · intro va hva
            have hperm := hdone.forking.perm va hva List.not_mem_nil
            rw [hT, hsame, hlookup] at hperm
            exact hperm
          · intro va hva hm k hk
            have hcopied := hdone.copied va hva List.not_mem_nil
            rw [hT, hsame, Mapped, hlookup] at hcopied
            refine (hcopied hm k hk).trans ?_
            by_contra hdiff
            exact (h.user_byte hparent hva hm hk).1 (processConfigTables_bytes hinit hpid hconfig hdiff)
          · intro va hva hperm
            have htaken := hdone.taken va hva List.not_mem_nil
            rw [hT, hsame, hlookup] at htaken
            exact hprep.was_free (htaken hperm)
        · rw [hfrom, hpages] at hcode
          obtain ⟨rfl, rfl⟩ := ok_pair.1 hcode
          exact ⟨hframe s₂ rest hcopy, Or.inl ⟨rfl, hprep.notForked h hcopy.forking⟩⟩

end Call

end MemoryManagement.Kernel
