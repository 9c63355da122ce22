import MemoryManagement.Kernel.Supply

/-!
# Forking

`process_fork` gives a free slot an empty address space and copies the user part of the parent page by
page: a writable page is copied to a fresh page, a read-only one is shared. When no page is left the
child is freed again. Either way the page counts stay right, and each page in use keeps its owner or
belongs to the child alone (`processFork_spec`).
-/

set_option autoImplicit false

namespace MemoryManagement.Kernel

open MemoryManagement.Library.ByteMemory
open MemoryManagement.Library.RefCount

/-- An ordinary page in use has the owner that it had before, or it belongs to the new process and
nobody of `A` used it before. -/
def OwnersKept (s s' : State) (A : Finset Nat) (T : Nat → Tables) (child : Nat) : Prop :=
  ∀ q, Ordinary q → (s'.pageinfo q).refcount ≠ 0 →
    (s.pageinfo q).refcount ≠ 0 ∧ (s'.pageinfo q).owner = (s.pageinfo q).owner ∨
    (s'.pageinfo q).owner = child ∧ ∀ j ∈ A, j ≠ child → uses s.mem (T j) q = 0

/-- `process_fork` has copied the pages of the user part other than `rest`. -/
structure Forking (s₀ s : State) (A : Finset Nat) (T : Nat → Tables) (parent child : Nat)
    (rest : List Nat) : Prop where
  accounted : Accounted s A T ∅
  only : OnlyPages s₀ s
  others : ∀ j ∈ A, j ≠ child → ∀ va,
    virtualMemoryLookup s.mem (T j).l1 va = virtualMemoryLookup s₀.mem (T j).l1 va
  left : ∀ va ∈ rest, ¬ Mapped s.mem (T child).l1 va
  perm : ∀ va ∈ userPages, va ∉ rest →
    (virtualMemoryLookup s.mem (T child).l1 va).perm = (virtualMemoryLookup s₀.mem (T parent).l1 va).perm
  shared : ∀ va ∈ userPages, va ∉ rest → (virtualMemoryLookup s₀.mem (T parent).l1 va).perm ≠ 7 →
    virtualMemoryLookup s.mem (T child).l1 va = virtualMemoryLookup s₀.mem (T parent).l1 va
  -- a writable page of the child is none of the parent
  fresh : ∀ va ∈ userPages, va ∉ rest → (virtualMemoryLookup s₀.mem (T parent).l1 va).perm = 7 →
    references s₀.mem (T parent).l1 userPages (virtualMemoryLookup s.mem (T child).l1 va).pn.toNat = 0
  owners : OwnersKept s₀ s A T child

section Loop

variable {s₀ s : State} {A : Finset Nat} {T : Nat → Tables} {parent child va : Nat} {rest : List Nat}

namespace Forking

variable (parent child) in
theorem start (h : Accounted s A T ∅) (hempty : ∀ va, UserPart va → ¬ Mapped s.mem (T child).l1 va) :
    Forking s s A T parent child userPages := by
  constructor
  · exact h
  · exact OnlyPages.refl s
  · exact fun _ _ _ _ => rfl
  · exact fun va hva => hempty va (mem_userPages.1 hva).2
  · exact fun va hva hout => absurd hva hout
  · exact fun va hva hout => absurd hva hout
  · exact fun va hva hout => absurd hva hout
  · exact fun q _ hq => Or.inl ⟨hq, rfl⟩

theorem uses_other (h : Forking s₀ s A T parent child rest) {j : Nat} (hj : j ∈ A) (hne : j ≠ child)
    (q : Nat) : uses s.mem (T j) q = uses s₀.mem (T j) q := by
  rw [uses, uses, references_congr fun va _ => h.others j hj hne va]

/-- The page `va` is done, and the other pages are as they were. -/
theorem done (h : Forking s₀ s A T parent child (va :: rest)) (hnew : va ∉ rest)
    (hsub : ∀ w ∈ rest, w ∈ userPages) {s' : State} (hacc : Accounted s' A T ∅) (honly : OnlyPages s s')
    (hothers : ∀ j ∈ A, j ≠ child → ∀ w,
      virtualMemoryLookup s'.mem (T j).l1 w = virtualMemoryLookup s.mem (T j).l1 w)
    (hkept : ∀ w ∈ userPages, w ≠ va →
      virtualMemoryLookup s'.mem (T child).l1 w = virtualMemoryLookup s.mem (T child).l1 w)
    (hperm : (virtualMemoryLookup s'.mem (T child).l1 va).perm =
      (virtualMemoryLookup s₀.mem (T parent).l1 va).perm)
    (hshared : (virtualMemoryLookup s₀.mem (T parent).l1 va).perm ≠ 7 →
      virtualMemoryLookup s'.mem (T child).l1 va = virtualMemoryLookup s₀.mem (T parent).l1 va)
    (hfresh : (virtualMemoryLookup s₀.mem (T parent).l1 va).perm = 7 →
      references s₀.mem (T parent).l1 userPages (virtualMemoryLookup s'.mem (T child).l1 va).pn.toNat = 0)
    (howners : OwnersKept s₀ s' A T child) : Forking s₀ s' A T parent child rest := by
  have hbefore : ∀ w, w ∉ rest → w ≠ va → w ∉ va :: rest := by
    intro w hout hwv hmem
    exact hout ((List.mem_cons.1 hmem).resolve_left hwv)
  constructor
  · exact hacc
  · exact h.only.trans honly
  · intro j hj hjc w
    rw [hothers j hj hjc, h.others j hj hjc]
  · intro w hw
    have hwv : w ≠ va := fun e => hnew (e ▸ hw)
    rw [Mapped, hkept w (hsub w hw) hwv]
    exact h.left w (List.mem_cons_of_mem _ hw)
  · intro w hw hout
    by_cases hwv : w = va
    · rw [hwv, hperm]
    · rw [hkept w hw hwv]
      exact h.perm w hw (hbefore w hout hwv)
  · intro w hw hout
    by_cases hwv : w = va
    · rw [hwv]
      exact hshared
    · rw [hkept w hw hwv]
      exact h.shared w hw (hbefore w hout hwv)
  · intro w hw hout
    by_cases hwv : w = va
    · rw [hwv]
      exact hfresh
    · rw [hkept w hw hwv]
      exact h.fresh w hw (hbefore w hout hwv)
  · exact howners

/-- A page that the parent does not map is left out. -/
theorem skip (h : Forking s₀ s A T parent child (va :: rest)) (hnew : va ∉ rest)
    (hsub : ∀ w ∈ rest, w ∈ userPages) (hunmapped : ¬ Mapped s₀.mem (T parent).l1 va) :
    Forking s₀ s A T parent child rest := by
  have hchild := not_mapped.1 (h.left va (List.mem_cons_self ..))
  have hparent := not_mapped.1 hunmapped
  apply h.done hnew hsub h.accounted (OnlyPages.refl s) (fun _ _ _ _ => rfl) (fun _ _ _ => rfl)
  · rw [hchild, hparent]
  · rw [hchild, hparent]
    exact fun _ => rfl
  · intro hperm
    rw [hparent] at hperm
    exact absurd hperm (by decide : (0 : Nat) ≠ 7)
  · exact h.owners

/-- A writable page is copied to a fresh one. -/
theorem copy (h : Forking s₀ s A T parent child (va :: rest)) (hparent : parent ∈ A)
    (hne : parent ≠ child) (hva : va ∈ userPages) (hnew : va ∉ rest)
    (hsub : ∀ w ∈ rest, w ∈ userPages)
    (hperm : (virtualMemoryLookup s₀.mem (T parent).l1 va).perm = 7) {s' : State} {pn : Nat}
    (hs : Supplied s s' A T child (page48 va) pn) : Forking s₀ s' A T parent child rest := by
  have hself := hs.lookup va
  rw [if_pos rfl] at hself
  obtain ⟨hunused, -⟩ := h.accounted.unused hs.ordinary (by rw [hs.wasFree])
  have hinfo := hs.info
  apply h.done hnew hsub hs.accounted hs.only hs.others
  · intro w hw hwv
    rw [hs.lookup, if_neg fun e => hwv (page48_inj hva hw e)]
  · rw [hself, hperm]
  · exact fun hperm' => absurd hperm hperm'
  · -- the page was free, so the parent does not refer to it
    intro _
    rw [hself, Int.toNat_natCast, ← references_congr fun w _ => h.others parent hparent hne w]
    exact (uses_eq_zero.1 (hunused parent hparent)).1
  · intro q hq hcount
    rw [hinfo] at hcount ⊢
    by_cases hqn : q = pn
    · -- the fresh page belongs to the child, and nobody used it before
      right
      rw [hqn, Function.update_self]
      refine ⟨rfl, fun j hj hjc => ?_⟩
      rw [← h.uses_other hj hjc]
      exact hunused j hj
    · rw [Function.update_of_ne hqn] at hcount ⊢
      exact h.owners q hq hcount

/-- The child does not refer to a page that the parent maps and that is still to be copied. -/
theorem unshared (h : Forking s₀ s A T parent child (va :: rest)) (hparent : parent ∈ A)
    (hne : parent ≠ child) (hva : va ∈ userPages) {pn : Nat} (hm : Mapped s₀.mem (T parent).l1 va)
    (hpn : (virtualMemoryLookup s₀.mem (T parent).l1 va).pn = (pn : Nat)) :
    references s.mem (T child).l1 userPages pn = 0 := by
  have hspace := h.accounted.space parent hparent
  have hsame := h.others parent hparent hne
  have hmapped : ∀ w, Mapped s.mem (T parent).l1 w ↔ Mapped s₀.mem (T parent).l1 w := by
    intro w
    rw [Mapped, Mapped, hsame]
  have huser := (mem_userPages.1 hva).2
  by_contra hpos
  obtain ⟨w₀, hw₀, hm₀, hpn₀⟩ := references_pos.1 (Nat.pos_of_ne_zero hpos)
  -- the start of the page is mapped to the same physical page
  obtain ⟨hw, hpage⟩ := hw₀.page
  obtain ⟨w, hwdef⟩ : ∃ w, w = 4096 * page48 w₀ := ⟨_, rfl⟩
  rw [← hwdef] at hw hpage
  have hmw := (Mapped.of_page48 hpage).2 hm₀
  have hpnw : (virtualMemoryLookup s.mem (T child).l1 w).pn.toNat = pn := by
    rw [(hm₀.same_page hpage).1]
    exact hpn₀
  by_cases hin : w ∈ va :: rest
  · exact h.left w hin hmw
  · by_cases hperm : (virtualMemoryLookup s₀.mem (T parent).l1 w).perm = 7
    · have hzero := h.fresh w hw hin hperm
      rw [hpnw] at hzero
      apply references_eq_zero.1 hzero va huser hm
      rw [hpn, Int.toNat_natCast]
    · have hshared := h.shared w hw hin hperm
      have hmp : Mapped s₀.mem (T parent).l1 w := by
        rw [Mapped, ← hshared]
        exact hmw
      have hone : w = va := hspace.page_inj hw hva ((hmapped w).2 hmp) ((hmapped va).2 hm) (by
        rw [hsame, hsame, ← hshared, hpnw, hpn, Int.toNat_natCast])
      apply hin
      rw [hone]
      exact List.mem_cons_self ..

/-- A read-only page is shared. -/
theorem share (h : Forking s₀ s A T parent child (va :: rest)) (hparent : parent ∈ A)
    (hchild : child ∈ A) (hne : parent ≠ child) (hva : va ∈ userPages) (hnew : va ∉ rest)
    (hsub : ∀ w ∈ rest, w ∈ userPages) {pn : Nat}
    (hmap : virtualMemoryLookup s₀.mem (T parent).l1 va = ⟨(pn : Nat), PAGESIZE * pn, 5⟩) {m' : Mem}
    (hmaps : MapsPages s.mem m' (T child) (page48 va) (PAGESIZE * pn) 5 1) :
    Forking s₀ { s with mem := m', pageinfo := addReference s.pageinfo pn } A T parent child rest := by
  obtain ⟨h0, huser⟩ := mem_userPages.1 hva
  obtain ⟨hva48, hrange⟩ := page48_userPages hva
  have hm : Mapped s₀.mem (T parent).l1 va := by
    rw [Mapped, hmap]
    intro e
    exact absurd (congrArg Vamapping.perm e) (by decide : (5 : Nat) ≠ 0)
  -- the child has no reference to the page yet, and the parent has one
  have hfresh := h.unshared hparent hne hva hm (by rw [hmap])
  have hunmapped : ¬ Mapped s.mem (T child).l1 (PAGESIZE * page48 va) := by
    rw [hva48]
    exact h.left va (List.mem_cons_self ..)
  have hshared : 0 < references s.mem (T parent).l1 userPages pn := by
    rw [references_congr fun w _ => h.others parent hparent hne w, references_pos]
    exact ⟨va, huser, hm, by rw [hmap, Int.toNat_natCast]⟩
  have hacc := h.accounted.share hchild hparent hrange.1 hrange.2 (Or.inr rfl) hmaps hunmapped hfresh
    hshared
  have hlookup := Space.lookup_mapPage (Or.inr rfl) hmaps
  have hself := hlookup va
  rw [if_pos rfl] at hself
  have hself' : virtualMemoryLookup m' (T child).l1 va = virtualMemoryLookup s₀.mem (T parent).l1 va := by
    rw [hself, hmap]
    simp only [PAGESIZE, h0, Nat.add_zero]
  apply h.done hnew hsub hacc (OnlyPages.of_update s m' _)
  · intro j hj hjc w
    exact h.accounted.lookup_of_leaves hchild hmaps.bytes hj hjc w
  · intro w hw hwv
    show virtualMemoryLookup m' (T child).l1 w = _
    rw [hlookup, if_neg fun e => hwv (page48_inj hva hw e)]
  · exact congrArg Vamapping.perm hself'
  · exact fun _ => hself'
  · intro hperm
    rw [hmap] at hperm
    exact absurd hperm (by decide : (5 : Nat) ≠ 7)
  · intro q hq hcount
    by_cases hqn : q = pn
    · -- the page keeps its owner, and it was in use by the parent
      have hpos : (s.pageinfo q).refcount ≠ 0 := by
        intro hzero
        have := (uses_eq_zero.1 ((h.accounted.unused hq hzero).1 parent hparent)).1
        rw [hqn] at this
        omega
      have howner : (addReference s.pageinfo pn q).owner = (s.pageinfo q).owner := by
        rw [hqn, addReference, Function.update_self]
      show (s₀.pageinfo q).refcount ≠ 0 ∧ (addReference s.pageinfo pn q).owner = _ ∨
        (addReference s.pageinfo pn q).owner = _ ∧ _
      rw [howner]
      exact h.owners q hq hpos
    · have hsame : addReference s.pageinfo pn q = s.pageinfo q := Function.update_of_ne hqn ..
      show (s₀.pageinfo q).refcount ≠ 0 ∧ (addReference s.pageinfo pn q).owner = _ ∨
        (addReference s.pageinfo pn q).owner = _ ∧ _
      replace hcount : (addReference s.pageinfo pn q).refcount ≠ 0 := hcount
      rw [hsame] at hcount ⊢
      exact h.owners q hq hcount

end Forking

/-- One page: it is done, or there is no free page for the copy. At most one page is taken. -/
theorem Forking.page (h : Forking s₀ s A T parent child (va :: rest)) (hparent : parent ∈ A)
    (hchild : child ∈ A) (hne : parent ≠ child) (hva : va ∈ userPages) (hnew : va ∉ rest)
    (hsub : ∀ w ∈ rest, w ∈ userPages) :
    (forkPage parent child s va = .ok (s, false) ∧ findFreePage s.pageinfo = none) ∨
    ∃ s', forkPage parent child s va = .ok (s', true) ∧ Forking s₀ s' A T parent child rest ∧
      ∀ k, Ordinary k → FreeFrom k s.pageinfo →
        FreeFrom (if Mapped s₀.mem (T parent).l1 va then k + 1 else k) s'.pageinfo := by
  have hsame := h.others parent hparent hne va
  have hspace := h.accounted.space parent hparent
  have hspace' := h.accounted.space child hchild
  have hroot := h.accounted.root parent hparent
  have hroot' := h.accounted.root child hchild
  obtain ⟨h0, huser⟩ := mem_userPages.1 hva
  obtain ⟨hva48, hrange⟩ := page48_userPages hva
  have hunmapped : ¬ Mapped s.mem (T child).l1 (PAGESIZE * page48 va) := by
    rw [hva48]
    exact h.left va (List.mem_cons_self ..)
  by_cases hm : Mapped s₀.mem (T parent).l1 va
  · have hms : Mapped s.mem (T parent).l1 va := by
      rw [Mapped, hsame]
      exact hm
    obtain ⟨pn, perm, hord, hperm, hmap⟩ := hspace.page_cases hva hms
    rcases hperm with rfl | rfl
    · rcases h.accounted.palloc (h.accounted.pids child hchild).2 with
        ⟨hnone, hcode⟩ | ⟨new, s₁, hfind, hcode, halloc⟩
      · left
        refine ⟨?_, hnone⟩
        simp only [forkPage, hroot, hmap, hcode]
        rfl
      · right
        obtain ⟨copied, hcopied⟩ : ∃ m, m = memcpy s₁.mem (PAGESIZE * new) (PAGESIZE * pn) PAGESIZE :=
          ⟨_, rfl⟩
        have hwrite : ∀ x, ¬ InRange (PAGESIZE * new) PAGESIZE x → copied x = s₁.mem x := by
          intro x hx
          rw [hcopied]
          exact memcpy_of_not_inRange hx
        obtain ⟨m', hmapped, hs, -⟩ :=
          h.accounted.supply hchild hrange.1 hrange.2 hunmapped halloc hwrite
        have hnonnull : PAGESIZE * new ≠ NULL := halloc.ordinary.page_ne_null
        have hroot₁ : (s.processes child).pagetable = (T child).l1 := hroot'
        rw [hva48] at hmapped
        refine ⟨_, ?_, h.copy hparent hne hva hnew hsub (by rw [← hsame, hmap]) hs, ?_⟩
        · simp only [forkPage, hroot, hmap, hcode, hroot₁, if_neg hnonnull, ← hcopied,
            show PTE_P ||| PTE_W ||| PTE_U = 7 from rfl, hmapped]
          rfl
        · intro k hk hfree
          have hinfo := hs.info
          rw [if_pos hm, hinfo]
          exact hfree.taken hk hfind
    · right
      have hlt := hord.lt
      obtain ⟨m', hmapped, hmaps⟩ := hspace'.linked.map_pages hspace'.tables (i := page48 va) (n := 1)
        (by omega) (by decide : 5 < 4096) (by decide) (Nat.mul_mod_right PAGESIZE pn)
        (by simp only [PAGESIZE]; omega)
      replace hmapped : virtualMemoryMap s.mem (T child).l1 va (PAGESIZE * pn) PAGESIZE 5 =
          .ok (m', 0) := by
        rw [← hva48]
        exact hmapped
      have hindex : pageinfoIndex (PAGESIZE * pn) = pn := by
        rw [pageinfoIndex_eq, Nat.mul_div_cancel_left pn (by decide : 0 < PAGESIZE)]
        simp only [PAGESIZE, MEMSIZE_PHYSICAL]
        omega
      refine ⟨_, ?_, h.share hparent hchild hne hva hnew hsub (hsame ▸ hmap) hmaps, ?_⟩
      · simp only [forkPage, hroot, hmap, hroot', show PTE_P ||| PTE_U = 5 from rfl, hmapped, hindex]
        rfl
      · intro k hk hfree
        rw [if_pos hm]
        intro q hq hq'
        -- a free page is not the one that is shared
        have hqn : q ≠ pn := by
          rintro rfl
          have hzero := (h.accounted.unused hq' (by rw [hfree q (by omega) hq'])).1 parent hparent
          apply references_eq_zero.1 (uses_eq_zero.1 hzero).1 va huser hms
          rw [hmap, Int.toNat_natCast]
        show addReference s.pageinfo pn q = _
        rw [addReference, Function.update_of_ne hqn]
        exact hfree q (by omega) hq'
  · right
    have hmap := not_mapped.1 hm
    refine ⟨s, ?_, h.skip hnew hsub hm, fun k _ hfree => ?_⟩
    · simp only [forkPage, hroot, hsame, hmap]
      rfl
    · rw [if_neg hm]
      exact hfree

/-- The loop: every page is done, or the child is freed again. With enough free pages it is the former. -/
theorem Forking.pages (h : Forking s₀ s A T parent child rest) (hparent : parent ∈ A)
    (hchild : child ∈ A) (hne : parent ≠ child) (hsub : ∀ w ∈ rest, w ∈ userPages)
    (hnodup : rest.Nodup) :
    ((∃ s', forkPages parent child rest s = .ok (s', true) ∧ Forking s₀ s' A T parent child []) ∨
      ∃ s₁ rest', forkPages parent child rest s = .ok (released s₁ (T child) child, false) ∧
        Forking s₀ s₁ A T parent child rest') ∧
    ∀ k, 0 < k → k + rest.countP (fun va => Mapped s₀.mem (T parent).l1 va) < 0x40 →
      FreeFrom k s.pageinfo → ∃ s', forkPages parent child rest s = .ok (s', true) := by
  induction rest generalizing s with
  | nil => exact ⟨Or.inl ⟨s, rfl, h⟩, fun _ _ _ _ => ⟨s, rfl⟩⟩
  | cons va rest ih =>
      obtain ⟨hnew, hnodup'⟩ := List.nodup_cons.1 hnodup
      have hsub' : ∀ w ∈ rest, w ∈ userPages := fun w hw => hsub w (List.mem_cons_of_mem _ hw)
      rcases h.page hparent hchild hne (hsub va (List.mem_cons_self ..)) hnew hsub' with
        ⟨hcode, hnone⟩ | ⟨s₁, hcode, hnext, hfree₁⟩
      · -- no page was left for the copy: the child is freed with what it has
        have hleave := h.accounted.processFree_eq hchild
        refine ⟨Or.inr ⟨s, va :: rest, ?_, h⟩, fun k hk hle hfree => ?_⟩
        · rw [forkPages, hcode]
          simp only [bind, Except.bind, Bool.false_eq_true, if_false, hleave]
        · exact absurd hnone (hfree.findFreePage_ne_none (ordinary_of_lt hk (by omega)))
      · have hstep : forkPages parent child (va :: rest) s = forkPages parent child rest s₁ := by
          rw [forkPages, hcode]
          rfl
        obtain ⟨hrun, hsucceeds⟩ := ih hnext hsub' hnodup'
        rw [hstep]
        refine ⟨hrun, fun k hk hle hfree => ?_⟩
        rw [List.countP_cons] at hle
        have hord : Ordinary k := ordinary_of_lt hk (by omega)
        have hfree' := hfree₁ k hord hfree
        -- only a page that the parent maps may take one of the free pages
        by_cases hm : Mapped s₀.mem (T parent).l1 va
        · rw [if_pos (by simpa using hm)] at hle
          rw [if_pos hm] at hfree'
          exact hsucceeds (k + 1) (by omega) (by omega) hfree'
        · rw [if_neg (by simpa using hm)] at hle
          rw [if_neg hm] at hfree'
          exact hsucceeds k hk hle hfree'

/-- When the child is freed again, the pages in use have the owners that they had before. -/
theorem Forking.owners_released (h : Forking s₀ s A T parent child rest) (hchild : child ∈ A) {q : Nat}
    (hq : Ordinary q) (hcount : ((released s (T child) child).pageinfo q).refcount ≠ 0) :
    (s₀.pageinfo q).refcount ≠ 0 ∧
      ((released s (T child) child).pageinfo q).owner = (s₀.pageinfo q).owner := by
  have hleave := h.accounted.leave hchild
  have hrefs := hleave.counted q hq
  -- a page that is still in use was no page table of the child, and lost at most one reference
  have hkept : (s.pageinfo q).refcount ≠ 0 ∧
      ((released s (T child) child).pageinfo q).owner = (s.pageinfo q).owner := by
    have hold := h.accounted.counted q hq
    have hle := h.accounted.refs_le q
    replace hcount : (releasedInfo s (T child) q).refcount ≠ 0 := hcount
    show _ ∧ (releasedInfo s (T child) q).owner = _
    rw [releasedInfo] at hcount ⊢
    split at hcount
    · exact absurd rfl hcount
    · rename_i htable
      rw [if_neg htable]
      split at hcount
      · rename_i hpos
        have huse : uses s.mem (T child) q ≤ refs s.mem A T ∅ q := uses_le_refs hchild
        rw [uses, if_neg htable] at huse
        rw [if_pos hpos, drop_of_pos (by omega) (by omega)]
        rw [drop_of_pos (by omega) (by omega)] at hcount
        simp only at hcount ⊢
        rw [if_neg (by omega)]
        exact ⟨by omega, rfl⟩
      · rename_i hzero
        rw [if_neg hzero]
        exact ⟨hcount, rfl⟩
  rcases h.owners q hq hkept.1 with ⟨hpos, howner⟩ | ⟨-, hzero⟩
  · exact ⟨hpos, hkept.2.trans howner⟩
  · -- a page of the child alone has no reference left
    exfalso
    have hnone : refs (released s (T child) child).mem (A.erase child) T ∅ q = 0 := by
      refine count_eq_zero (fun j hj => ?_) (Finset.notMem_empty q)
      obtain ⟨hjc, hj'⟩ := Finset.mem_erase.1 hj
      exact (h.uses_other hj' hjc q).trans (hzero j hj' hjc)
    rw [hnone] at hrefs
    exact hcount hrefs

end Loop

/-! ## The call -/

/-- `process_fork` has made the process `child`, with the page table `U`. -/
structure Forked (s s' : State) (A : Finset Nat) (T : Nat → Tables) (parent child : Nat) (U : Tables) :
    Prop where
  slot : (s.processes child).state = .free ∧ 0 < child ∧ child < NPROC
  accounted : Accounted s' (insert child A) (Function.update T child U) ∅
  made : s'.processes child = { s.processes child with
    registers := Function.update (s.processes parent).registers .rax 0
    state := .runnable, pagetable := U.l1, displayStatus := true }
  processes : ∀ j, j ≠ child → s'.processes j = s.processes j
  machine : SameMachine s s'
  others : ∀ j ∈ A, ∀ va, virtualMemoryLookup s'.mem (T j).l1 va = virtualMemoryLookup s.mem (T j).l1 va
  perm : ∀ va ∈ userPages, (virtualMemoryLookup s'.mem U.l1 va).perm =
    (virtualMemoryLookup s.mem (T parent).l1 va).perm
  shared : ∀ va ∈ userPages, (virtualMemoryLookup s.mem (T parent).l1 va).perm ≠ 7 →
    virtualMemoryLookup s'.mem U.l1 va = virtualMemoryLookup s.mem (T parent).l1 va
  owners : OwnersKept s s' A T child

/-- `process_fork` has failed: no process and no page count has changed that matters. -/
structure NotForked (s s' : State) (A : Finset Nat) (T : Nat → Tables) : Prop where
  accounted : Accounted s' A T ∅
  processes : ∀ j, (s.processes j).state ≠ .free → s'.processes j = s.processes j
  idle : ∀ j, (s.processes j).state = .free → (s'.processes j).state = .free
  breaks : ∀ j, (s'.processes j).programBreak = (s.processes j).programBreak ∧
    (s'.processes j).originalBreak = (s.processes j).originalBreak
  machine : SameMachine s s'
  owners : ∀ q, Ordinary q → (s'.pageinfo q).refcount ≠ 0 →
    (s.pageinfo q).refcount ≠ 0 ∧ (s'.pageinfo q).owner = (s.pageinfo q).owner

theorem findFreePid_some {s : State} {child : Nat} (h : findFreePid s = some child) :
    (s.processes child).state = .free ∧ 0 < child ∧ child < NPROC := by
  have hmem := List.mem_of_find?_eq_some h
  have hfree := List.find?_some h
  rw [List.mem_range'_1] at hmem
  rw [decide_eq_true_iff] at hfree
  simp only [NPROC]
  exact ⟨hfree, by omega, by omega⟩

section Call

variable {s : State} {A : Finset Nat} {T : Nat → Tables} {parent child : Nat}

/-- A slot that no process uses is initialised. -/
theorem Accounted.processInit (h : Accounted s A T ∅) (hchild : child ∉ A) :
    Accounted (processInit s child) A T ∅ := by
  refine h.of_eq rfl rfl fun j hj => ?_
  have hne : j ≠ child := fun e => hchild (e ▸ hj)
  rw [Kernel.processInit, State.setProc_other s _ hne]

/-- Page tables of processes that do not count do not matter. -/
theorem Accounted.congr_tables {P : Finset Nat} {T' : Nat → Tables} (h : Accounted s A T' P)
    (hT : ∀ j ∈ A, T' j = T j) : Accounted s A T P := by
  have huses : ∀ j ∈ A, ∀ q, uses s.mem (T j) q = uses s.mem (T' j) q := by
    intro j hj q
    rw [hT j hj]
  constructor
  · exact h.kernel
  · exact h.pids
  · intro j hj
    rw [← hT j hj]
    exact h.root j hj
  · intro j hj
    rw [← hT j hj]
    exact h.space j hj
  · intro q hq
    refine ⟨(h.aside q hq).1, fun j hj => ?_⟩
    rw [huses j hj]
    exact (h.aside q hq).2 j hj
  · intro q hq
    have hsame : refs s.mem A T P q = refs s.mem A T' P q := count_congr fun j hj => huses j hj q
    rw [hsame]
    exact h.counted q hq
  · exact h.free
  · intro j hj
    rw [← hT j hj]
    exact h.tables j hj
  · exact h.fixed

/-- The state in which the child `child` has an empty address space and the copying starts. -/
structure Prepared (s s₁ : State) (A : Finset Nat) (T : Nat → Tables) (child : Nat) (U : Tables) : Prop where
  slot : (s.processes child).state = .free ∧ 0 < child ∧ child < NPROC
  idle : child ∉ A
  accounted : Accounted s₁ (insert child A) (Function.update T child U) ∅
  empty : ∀ va, UserPart va → ¬ Mapped s₁.mem U.l1 va
  made : s₁.processes child = { s.processes child with
    registers := initialRegisters, displayStatus := true, pagetable := U.l1 }
  processes : ∀ j, j ≠ child → s₁.processes j = s.processes j
  machine : SameMachine s s₁
  info : ∀ q, s₁.pageinfo q = s.pageinfo q ∨
    s.pageinfo q = ⟨PO_FREE, 0⟩ ∧ s₁.pageinfo q = ⟨child, 1⟩
  others : ∀ j ∈ A, ∀ va, virtualMemoryLookup s₁.mem (T j).l1 va = virtualMemoryLookup s.mem (T j).l1 va

theorem processInit_self : (processInit s child).processes child =
    { s.processes child with registers := initialRegisters, displayStatus := true } :=
  State.setProc_self ..

theorem processInit_other {j : Nat} (hj : j ≠ child) :
    (processInit s child).processes j = s.processes j :=
  State.setProc_other s _ hj

theorem Configured.prepared {s₁ : State} {U : Tables}
    (h : Configured (processInit s child) s₁ A T child U) (hchild : child ∉ A)
    (hslot : (s.processes child).state = .free ∧ 0 < child ∧ child < NPROC) :
    Prepared s s₁ A T child U := by
  have hproc : s₁.processes = Function.update (processInit s child).processes child
      { (processInit s child).processes child with pagetable := U.l1 } := h.only.processes
  constructor
  · exact hslot
  · exact hchild
  · exact h.accounted
  · exact h.empty
  · rw [hproc, Function.update_self, processInit_self]
  · intro j hj
    rw [hproc, Function.update_of_ne hj, processInit_other hj]
  · have hinit : SameMachine s (processInit s child) := SameMachine.setProc ..
    exact (hinit.trans (SameMachine.setProc ..)).trans h.only.machine
  · exact h.info
  · exact h.others

namespace Prepared

variable {s₁ s₂ : State} {U : Tables} (h : Prepared s s₁ A T child U)

include h

theorem ne {j : Nat} (hj : j ∈ A) : j ≠ child := fun e => h.idle (e ▸ hj)

theorem table {j : Nat} (hj : j ∈ A) : Function.update T child U j = T j :=
  Function.update_of_ne (h.ne hj) ..

theorem uses_eq {j : Nat} (hj : j ∈ A) (q : Nat) :
    uses s₁.mem (Function.update T child U j) q = uses s.mem (T j) q := by
  rw [h.table hj, uses, uses, references_congr fun va _ => h.others j hj va]

theorem forking (parent : Nat) :
    Forking s₁ s₁ (insert child A) (Function.update T child U) parent child userPages := by
  apply Forking.start parent child h.accounted
  rw [Function.update_self]
  exact h.empty

/-- All pages are copied, and the child is made runnable. -/
theorem forked (hacc : Accounted s A T ∅) (hparent : parent ∈ A)
    (hdone : Forking s₁ s₂ (insert child A) (Function.update T child U) parent child []) :
    Forked s (s₂.setProc child { s₂.processes child with
      registers := Function.update (s₂.processes parent).registers .rax 0
      state := .runnable }) A T parent child U := by
  have hproc₂ := hdone.only.processes
  have hT : Function.update T child U child = U := Function.update_self ..
  constructor
  · exact h.slot
  · exact hdone.accounted.of_eq rfl rfl fun j _ => State.setProc_pagetable s₂ (by rfl) j
  · rw [State.setProc_self, hproc₂, h.made, h.processes parent (h.ne hparent)]
  · intro j hj
    rw [State.setProc_other s₂ _ hj, hproc₂, h.processes j hj]
  · exact (h.machine.trans hdone.only.machine).trans (SameMachine.setProc ..)
  · intro j hj va
    have hkept := hdone.others j (Finset.mem_insert_of_mem hj) (h.ne hj) va
    rw [h.table hj, h.others j hj] at hkept
    exact hkept
  · intro va hva
    have hperm := hdone.perm va hva List.not_mem_nil
    rw [hT, h.table hparent, h.others parent hparent] at hperm
    exact hperm
  · intro va hva hperm
    have hshared := hdone.shared va hva List.not_mem_nil
    rw [hT, h.table hparent, h.others parent hparent] at hshared
    exact hshared hperm
  · intro q hq hcount
    rcases hdone.owners q hq hcount with ⟨hpos, howner⟩ | ⟨howner, hzero⟩
    · -- a page is as before, or it was taken for the page table of the child
      rcases h.info q with hsame | ⟨hfree, hnew⟩
      · rw [hsame] at hpos howner
        exact Or.inl ⟨hpos, howner⟩
      · rw [hnew] at howner
        exact Or.inr ⟨howner, fun j hj _ => (hacc.unused hq (by rw [hfree])).1 j hj⟩
    · refine Or.inr ⟨howner, fun j hj hjc => ?_⟩
      rw [← h.uses_eq hj]
      exact hzero j (Finset.mem_insert_of_mem hj) hjc

/-- The child is freed again. -/
theorem notForked (hacc : Accounted s A T ∅) {rest : List Nat}
    (hfork : Forking s₁ s₂ (insert child A) (Function.update T child U) parent child rest) :
    NotForked s (released s₂ (Function.update T child U child) child) A T := by
  have hchildA : child ∈ insert child A := Finset.mem_insert_self ..
  have hleave := hfork.accounted.leave hchildA
  rw [Finset.erase_insert h.idle] at hleave
  have hself : (released s₂ (Function.update T child U child) child).processes child =
      { s₂.processes child with state := .free } := State.setProc_self ..
  -- only the slot of the child has been written
  have hother : ∀ j, j ≠ child →
      (released s₂ (Function.update T child U child) child).processes j = s.processes j := by
    intro j hj
    refine Eq.trans (State.setProc_other s₂ _ hj) ?_
    rw [hfork.only.processes, h.processes j hj]
  constructor
  · exact hleave.congr_tables fun j hj => h.table hj
  · intro j hj
    exact hother j fun e => hj (e ▸ h.slot.1)
  · intro j hj
    by_cases hjc : j = child
    · rw [hjc, hself]
    · rw [hother j hjc]
      exact hj
  · intro j
    by_cases hjc : j = child
    · rw [hjc, hself, hfork.only.processes, h.made]
      exact ⟨rfl, rfl⟩
    · rw [hother j hjc]
      exact ⟨rfl, rfl⟩
  · exact (h.machine.trans hfork.only.machine).trans ⟨rfl, rfl, rfl, rfl, rfl⟩
  · intro q hq hcount
    have hrefs := hleave.counted q hq
    obtain ⟨hpos, howner⟩ := hfork.owners_released hchildA hq hcount
    rcases h.info q with hsame | ⟨hfree, -⟩
    · rw [hsame] at hpos howner
      exact ⟨hpos, howner⟩
    · -- a page that was free before has no reference left
      exfalso
      have hnone : refs (released s₂ (Function.update T child U child) child).mem A
          (Function.update T child U) ∅ q = 0 := by
        refine count_eq_zero (fun j hj => ?_) (Finset.notMem_empty q)
        have hsame := hfork.uses_other (Finset.mem_insert_of_mem hj) (h.ne hj) q
        rw [h.uses_eq hj, (hacc.unused hq (by rw [hfree])).1 j hj] at hsame
        exact hsame
      rw [hnone] at hrefs
      exact hcount hrefs

end Prepared

/-- Without a page table for the child nothing has happened to the processes. -/
theorem NotConfigured.notForked {s₁ : State} (h : NotConfigured (processInit s child) s₁ A T child)
    (hslot : (s.processes child).state = .free) : NotForked s s₁ A T := by
  have hproc := h.only.processes
  have hinit : SameMachine s (processInit s child) := SameMachine.setProc ..
  constructor
  · exact h.accounted
  · intro j hj
    have hjc : j ≠ child := fun e => hj (e ▸ hslot)
    rw [hproc, processInit_other hjc]
  · intro j hj
    rw [hproc]
    by_cases hjc : j = child
    · rw [hjc, processInit_self]
      exact hslot
    · rw [processInit_other hjc]
      exact hj
  · intro j
    rw [hproc]
    by_cases hjc : j = child
    · rw [hjc, processInit_self]
      exact ⟨rfl, rfl⟩
    · rw [processInit_other hjc]
      exact ⟨rfl, rfl⟩
  · exact hinit.trans h.only.machine
  · intro q _ hcount
    rw [h.info] at hcount ⊢
    exact ⟨hcount, rfl⟩

/-- `process_fork` makes a child or fails without a trace; with a free slot and enough free pages it
makes a child. -/
theorem processFork_spec (h : Accounted s A T ∅) (hactive : ∀ j ∈ A, (s.processes j).state ≠ .free)
    (hparent : parent ∈ A) :
    ((∃ s', processFork s parent = .ok (s', -1) ∧ NotForked s s' A T) ∨
      ∃ s' child U, processFork s parent = .ok (s', (child : Nat)) ∧ Forked s s' A T parent child U) ∧
    ∀ k, 0 < k → k + 5 + userPages.countP (fun va => Mapped s.mem (T parent).l1 va) < 0x40 →
      FreeFrom k s.pageinfo → findFreePid s ≠ none →
        ∃ s' child, processFork s parent = .ok (s', ((child : Nat) : Int)) := by
  cases hfind : findFreePid s with
  | none =>
      refine ⟨Or.inl ⟨s, by rw [processFork, hfind], h, fun _ _ => rfl, fun _ hj => hj,
        fun _ => ⟨rfl, rfl⟩, (OnlyPages.refl s).machine, fun _ _ hq => ⟨hq, rfl⟩⟩, ?_⟩
      exact fun _ _ _ _ hsome => absurd rfl hsome
  | some child =>
      have hslot := findFreePid_some hfind
      have hchild : child ∉ A := fun hmem => hactive child hmem hslot.1
      have hne : parent ≠ child := fun e => hchild (e ▸ hparent)
      have hinit := h.processInit hchild
      rcases processConfigTables_spec hinit hchild ⟨hslot.2.1, hslot.2.2⟩ with
        ⟨s₁, hcode, hno⟩ | ⟨s₁, U, hcode, hconf⟩
      · refine ⟨Or.inl ⟨s₁, ?_, hno.notForked hslot.1⟩, fun k hk hle hfree _ => ?_⟩
        · rw [processFork, hfind]
          simp only [hcode]
          rfl
        · exact absurd hno.missing (hinit.pallocs_succeed (n := 5) ⟨hslot.2.1, hslot.2.2⟩ hk (by omega) hfree).1
      · have hprep := hconf.prepared hchild hslot
        obtain ⟨hrun, hsucceeds⟩ := (hprep.forking parent).pages (Finset.mem_insert_of_mem hparent)
          (Finset.mem_insert_self ..) hne (fun _ hw => hw) nodup_userPages
        -- with a page table made, the loop over the pages decides
        have hcode' : processFork s parent = (do
            let copy ← forkPages parent child userPages s₁
            let s := copy.1
            if copy.2 then
              .ok (s.setProc child { s.processes child with
                registers := Function.update (s.processes parent).registers .rax 0
                state := .runnable }, child)
            else .ok (s, -1)) := by
          rw [processFork, hfind]
          simp only [hcode, bind, Except.bind]
          exact if_neg (by decide)
        constructor
        · rcases hrun with ⟨s₂, hpages, hdone⟩ | ⟨s₂, rest, hpages, hfork⟩
          · refine Or.inr ⟨_, child, U, ?_, hprep.forked h hparent hdone⟩
            rw [hcode', hpages]
            rfl
          · refine Or.inl ⟨_, ?_, hprep.notForked h hfork⟩
            rw [hcode', hpages]
            rfl
        · intro k hk hle hfree _
          have hfree₁ := (hinit.pallocs_succeed (n := 5) ⟨hslot.2.1, hslot.2.2⟩ hk (by omega) hfree).2
          rw [← hconf.taken] at hfree₁
          -- the page table of the child maps nothing, so that the parent has as many pages as before
          have hcount : userPages.countP (fun va =>
              Mapped s₁.mem (Function.update T child U parent).l1 va) =
              userPages.countP (fun va => Mapped s.mem (T parent).l1 va) := by
            apply List.countP_congr
            intro va _
            rw [decide_eq_true_iff, decide_eq_true_iff, hprep.table hparent, Mapped, Mapped,
              hprep.others parent hparent]
          obtain ⟨s₂, hpages⟩ := hsucceeds (k + 5) (by omega) (by rw [hcount]; exact hle) hfree₁
          refine ⟨s₂.setProc child { s₂.processes child with
            registers := Function.update (s₂.processes parent).registers .rax 0
            state := .runnable }, child, ?_⟩
          rw [hcode', hpages]
          rfl

end Call

end MemoryManagement.Kernel
