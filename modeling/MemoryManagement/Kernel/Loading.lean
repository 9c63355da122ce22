import MemoryManagement.Kernel.Checks
import MemoryManagement.Kernel.Supply

/-!
# Loading a program

What the loader does to page accounting and to the address space that it fills: `loadPages` maps fresh
pages, the bytes it writes go to pages of the process, and `protectPages` makes pages read-only.
`programLoadSegment_spec` puts them together.
-/

set_option autoImplicit false

namespace MemoryManagement.Kernel

open MemoryManagement.Library.ByteMemory
open MemoryManagement.Library.RefCount

/-! ## Bytes of user pages -/

/-- Only bytes of pages that the process maps in its user part differ. -/
def UserBytes (m m' : Mem) (U : Tables) : Prop :=
  ∀ x, (∀ q, 0 < references m U.l1 userPages q → ¬ InRange (PAGESIZE * q) PAGESIZE x) → m' x = m x

theorem UserBytes.refl (m : Mem) (U : Tables) : UserBytes m m U := fun _ _ => rfl

namespace Accounted

variable {s : State} {A : Finset Nat} {T : Nat → Tables} {P : Finset Nat}

/-- The pages that a process maps are pages of no page table. -/
theorem frames_apart (h : Accounted s A T P) {pid : Nat} (hpid : pid ∈ A) {q : Nat}
    (hq : 0 < references s.mem (T pid).l1 userPages q) :
    Ordinary q ∧ ∀ j ∈ A, PAGESIZE * q ∉ (T j).pages := by
  refine ⟨(h.space pid hpid).ordinary_of_references hq, fun j hj htable => ?_⟩
  have halone := h.table_alone hj htable
  rw [Nat.mul_div_cancel_left q (by decide : 0 < PAGESIZE)] at halone
  by_cases hjp : j = pid
  · rw [hjp] at halone
    omega
  · have hzero := (uses_eq_zero.1 (halone.2.1 pid hpid (Ne.symm hjp))).1
    omega

/-- Bytes that a process may write matter to no page table. -/
theorem userBytes (h : Accounted s A T P) {pid : Nat} (hpid : pid ∈ A) {m' : Mem}
    (hbytes : UserBytes s.mem m' (T pid)) : Accounted { s with mem := m' } A T P ∧
      ∀ j ∈ A, ∀ va, virtualMemoryLookup m' (T j).l1 va = virtualMemoryLookup s.mem (T j).l1 va := by
  constructor
  · exact h.of_frames (fun q => 0 < references s.mem (T pid).l1 userPages q)
      (fun q hq => h.frames_apart hpid hq) hbytes
  · intro j hj
    exact h.lookup_of_frames (fun q => 0 < references s.mem (T pid).l1 userPages q)
      (fun q hq => (h.frames_apart hpid hq).2) hbytes hj

/-- The kernel writes bytes at writable addresses of a process. -/
theorem storeBytes_spec (h : Accounted s A T P) {pid : Nat} (hpid : pid ∈ A) (src : Nat → UInt8)
    {m : Mem} (n va k : Nat) (hrange : ∀ a, va ≤ a → a < va + n → UserPart a ∧
      (virtualMemoryLookup s.mem (T pid).l1 a).perm = 7) (hm : UserBytes s.mem m (T pid)) :
    ∃ m', storeBytes (T pid).l1 src n m va k = .ok m' ∧ UserBytes s.mem m' (T pid) := by
  induction n generalizing m va k with
  | zero => exact ⟨m, rfl, hm⟩
  | succ n ih =>
      obtain ⟨huser, hperm⟩ := hrange va (Nat.le_refl va) (by omega)
      have hlookup := (h.userBytes hpid hm).2 pid hpid va
      -- a writable address is mapped
      have hmapped : Mapped s.mem (T pid).l1 va := by
        intro e
        rw [e] at hperm
        exact absurd hperm (by decide : (0 : Nat) ≠ 7)
      have hmap := (h.space pid hpid).user va huser hmapped
      have hpa := (h.space pid hpid).physical hmapped
      have hstore : storeByte m (T pid).l1 va (src k) =
          .ok (Function.update m (virtualMemoryLookup s.mem (T pid).l1 va).pa (src k)) := by
        rw [storeByte, hlookup]
        refine if_pos ⟨?_, hpa⟩
        rw [hperm]
        decide
      have hnext : (va + 1) % 2 ^ 64 = va + 1 := by
        have := huser.2
        simp only [MEMSIZE_VIRTUAL] at this
        omega
      have hrange' : ∀ a, va + 1 ≤ a → a < va + 1 + n → UserPart a ∧
          (virtualMemoryLookup s.mem (T pid).l1 a).perm = 7 :=
        fun a h1 h2 => hrange a (by omega) (by omega)
      -- the byte is in a page that the process maps
      have hbytes : UserBytes s.mem
          (Function.update m (virtualMemoryLookup s.mem (T pid).l1 va).pa (src k)) (T pid) := by
        intro x hx
        rw [Function.update_of_ne]
        · exact hm x hx
        · rintro rfl
          apply hx (virtualMemoryLookup s.mem (T pid).l1 va).pn.toNat
          · exact references_pos.2 ⟨va, huser, hmapped, rfl⟩
          · rw [hmap.pn.2.2]
            simp only [PAGESIZE]
            omega
      obtain ⟨m', hcode, hm'⟩ := ih (va + 1) (k + 1) hrange' hbytes
      refine ⟨m', ?_, hm'⟩
      rw [storeBytes, hstore]
      simp only [bind, Except.bind, hnext]
      exact hcode

/-! ## Changing permissions -/

/-- The page table of a process changes, but not what the process uses. -/
theorem of_uses (h : Accounted s A T P) {pid : Nat} (hpid : pid ∈ A) {m' : Mem}
    (hbytes : ∀ x, ¬ InRange (T pid).l4a PAGESIZE x → ¬ InRange (T pid).l4b PAGESIZE x → m' x = s.mem x)
    (hspace : Space m' (T pid)) (huses : ∀ q, uses m' (T pid) q = uses s.mem (T pid) q) :
    Accounted { s with mem := m' } A T P := by
  obtain ⟨hkernel, hothers⟩ := h.of_leaves hpid hbytes
  have hspaces : ∀ j ∈ A, Space m' (T j) ∧ ∀ q, uses m' (T j) q = uses s.mem (T j) q := by
    intro j hj
    by_cases hjp : j = pid
    · rw [hjp]
      exact ⟨hspace, huses⟩
    · exact hothers j hj hjp
  constructor
  · exact hkernel
  · exact h.pids
  · exact h.root
  · exact fun j hj => (hspaces j hj).1
  · intro q hq
    refine ⟨(h.aside q hq).1, fun j hj => ?_⟩
    rw [(hspaces j hj).2]
    exact (h.aside q hq).2 j hj
  · intro q hq
    have hcount : refs m' A T P q = refs s.mem A T P q := count_congr fun j hj => (hspaces j hj).2 q
    rw [hcount]
    exact h.counted q hq
  · exact h.free
  · exact h.tables
  · exact h.fixed

end Accounted

/-- The same physical page, for the user to read only. -/
def Vamapping.readOnly (map : Vamapping) : Vamapping := ⟨map.pn, map.pa, 5⟩

/-- One page becomes read-only; its addresses keep their physical page. -/
theorem lookup_protectPage {m m₁ : Mem} {U : Tables} {i pn perm : Nat} (hi : i < 1024)
    (hmap : virtualMemoryLookup m U.l1 (PAGESIZE * i) = ⟨(pn : Nat), PAGESIZE * pn, perm⟩)
    (hmaps : MapsPages m m₁ U i (PAGESIZE * pn) 5 1) (a : Nat) :
    virtualMemoryLookup m₁ U.l1 a =
      if page48 a = i then (virtualMemoryLookup m U.l1 a).readOnly else virtualMemoryLookup m U.l1 a := by
  rw [Space.lookup_mapPage (Or.inr rfl) hmaps]
  by_cases ha : page48 a = i
  · have hm : Mapped m U.l1 (PAGESIZE * i) := by
      rw [Mapped, hmap]
      intro e
      have hneg : ((pn : Nat) : Int) = -1 := congrArg Vamapping.pn e
      omega
    have hpage : page48 (PAGESIZE * i) = i := page48_page (by omega)
    obtain ⟨hpn, hframe, hoffset, -⟩ := hm.same_page (ha.trans hpage.symm)
    rw [hmap] at hpn hframe
    have hpa : (virtualMemoryLookup m U.l1 a).pa = PAGESIZE * pn + a % PAGESIZE := by
      simp only [PAGESIZE] at hframe ⊢
      omega
    rw [if_pos ha, if_pos ha, Vamapping.readOnly, hpn, hpa]
  · rw [if_neg ha, if_neg ha]

/-- The loop of the loader that makes pages read-only. -/
theorem Linked.protectPages {m : Mem} {U : Tables} (hlinked : Linked m U) (hU : U.Ok)
    {lo n endMem fuel : Nat} (hlo : 256 ≤ lo) (hhi : lo + n ≤ 1024) (hn : n = (endMem + 4095) / 4096 - lo)
    (hfuel : n < fuel) (hmapped : ∀ i, lo ≤ i → i < lo + n → ∃ pn perm, Ordinary pn ∧
      virtualMemoryLookup m U.l1 (PAGESIZE * i) = ⟨(pn : Nat), PAGESIZE * pn, perm⟩) :
    ∃ m', protectPages U.l1 endMem fuel m (PAGESIZE * lo) = .ok m' ∧ Linked m' U ∧
      (∀ a, virtualMemoryLookup m' U.l1 a =
        if lo ≤ page48 a ∧ page48 a < lo + n then (virtualMemoryLookup m U.l1 a).readOnly
        else virtualMemoryLookup m U.l1 a) ∧
      ∀ x, ¬ InRange U.l4a PAGESIZE x → ¬ InRange U.l4b PAGESIZE x → m' x = m x := by
  induction n generalizing m lo fuel with
  | zero =>
      obtain ⟨fuel, rfl⟩ : ∃ f, fuel = f + 1 := ⟨fuel - 1, by omega⟩
      have hstop : ¬ PAGESIZE * lo < endMem := by
        simp only [PAGESIZE]
        omega
      refine ⟨m, by rw [Kernel.protectPages, if_neg hstop], hlinked, fun a => ?_, fun _ _ _ => rfl⟩
      rw [if_neg (by omega)]
  | succ n ih =>
      obtain ⟨fuel, rfl⟩ : ∃ f, fuel = f + 1 := ⟨fuel - 1, by omega⟩
      have hgo : PAGESIZE * lo < endMem := by
        simp only [PAGESIZE]
        omega
      -- the page is mapped again, to the page that it has
      obtain ⟨pn, perm, hord, hmap⟩ := hmapped lo (Nat.le_refl lo) (by omega)
      have hlt := hord.lt
      obtain ⟨m₁, hcode, hmaps⟩ := hlinked.map_pages hU (i := lo) (n := 1) (by omega)
        (by decide : 5 < 4096) (by decide) (Nat.mul_mod_right PAGESIZE pn) (by simp only [PAGESIZE]; omega)
      have hlookup₁ := lookup_protectPage (by omega) hmap hmaps
      -- the pages that are left are as before
      have hmapped₁ : ∀ i, lo + 1 ≤ i → i < lo + 1 + n → ∃ pn perm, Ordinary pn ∧
          virtualMemoryLookup m₁ U.l1 (PAGESIZE * i) = ⟨(pn : Nat), PAGESIZE * pn, perm⟩ := by
        intro i h1 h2
        rw [hlookup₁, page48_page (by omega), if_neg (by omega)]
        exact hmapped i (by omega) (by omega)
      obtain ⟨m', hrun, hlinked', hlookup, hbytes⟩ := ih hmaps.linked (by omega) (by omega) (by omega)
        (by omega : n < fuel) hmapped₁
      have hnext : (PAGESIZE * lo + PAGESIZE) % 2 ^ 64 = PAGESIZE * (lo + 1) := by
        simp only [PAGESIZE]
        omega
      have hperm : PTE_P ||| PTE_U = 5 := by decide
      have hcode' : virtualMemoryMap m U.l1 (PAGESIZE * lo) (PAGESIZE * pn) PAGESIZE 5 = .ok (m₁, 0) := hcode
      refine ⟨m', ?_, hlinked', fun a => ?_, fun x hx hx' => ?_⟩
      · rw [Kernel.protectPages, if_pos hgo, hmap]
        simp only [hperm, hnext]
        rw [hcode']
        exact hrun
      · rw [hlookup, hlookup₁]
        by_cases hself : page48 a = lo
        · rw [if_neg (by omega), if_pos hself, if_pos (by omega)]
        · rw [if_neg hself]
          by_cases hin : lo + 1 ≤ page48 a ∧ page48 a < lo + 1 + n
          · rw [if_pos hin, if_pos (by omega)]
          · rw [if_neg hin, if_neg (by omega)]
      · rw [hbytes x hx hx', hmaps.bytes x hx hx']

/-- Pages of the user part that become read-only stay mapped to the same physical pages. -/
theorem Space.madeReadOnly {m m' : Mem} {U : Tables} (h : Space m U) {lo n : Nat} (hlinked : Linked m' U)
    (hlo : 256 ≤ lo) (hhi : lo + n ≤ 768)
    (hmapped : ∀ i, lo ≤ i → i < lo + n → Mapped m U.l1 (PAGESIZE * i))
    (hlookup : ∀ a, virtualMemoryLookup m' U.l1 a =
      if lo ≤ page48 a ∧ page48 a < lo + n then (virtualMemoryLookup m U.l1 a).readOnly
      else virtualMemoryLookup m U.l1 a) :
    Space m' U ∧ ∀ q, uses m' U q = uses m U q := by
  -- only permissions change, so that every clause follows from the one before
  have hpn : ∀ a, (virtualMemoryLookup m' U.l1 a).pn = (virtualMemoryLookup m U.l1 a).pn := by
    intro a
    rw [hlookup]
    split_ifs with ha
    · rfl
    · rfl
  have hkept : ∀ a, Mapped m' U.l1 a ↔ Mapped m U.l1 a := by
    intro a
    rw [Mapped, hlookup]
    split_ifs with ha
    · refine ⟨fun _ => ?_, fun _ e => ?_⟩
      · -- an address of the range is on a page that was mapped
        have hpage : page48 (PAGESIZE * page48 a) = page48 a := page48_page (by omega)
        exact (Mapped.of_page48 hpage).1 (hmapped (page48 a) ha.1 ha.2)
      · exact absurd (congrArg Vamapping.perm e) (by decide : (5 : Nat) ≠ 0)
    · exact Iff.rfl
  refine ⟨⟨h.tables, hlinked, h.ordinary, ?_, ?_, ?_, ?_⟩, fun q => ?_⟩
  · intro va hva
    rw [hlookup, if_neg]
    · exact h.low va hva
    · simp only [PROC_START_ADDR] at hva
      rw [page48]
      omega
  · intro va hva hm
    obtain ⟨pn, perm, hord, hperm, hmap⟩ := h.user va hva ((hkept va).1 hm)
    rw [hlookup, hmap]
    split_ifs
    · exact ⟨pn, 5, hord, Or.inr rfl, rfl⟩
    · exact ⟨pn, perm, hord, hperm, rfl⟩
  · intro va hva hlt hm
    exact h.high va hva hlt ((hkept va).1 hm)
  · intro va va' hva hva' hm hm' heq
    rw [hpn, hpn] at heq
    exact h.once va va' hva hva' ((hkept va).1 hm) ((hkept va').1 hm') heq
  · rw [uses, uses, references_congr_pn (fun va _ => hkept va) fun va _ _ => hpn va]

namespace Accounted

variable {s : State} {A : Finset Nat} {T : Nat → Tables} {P : Finset Nat}

/-- The loop makes pages read-only and changes no page count. -/
theorem protectPages_spec (h : Accounted s A T P) {pid lo n endMem fuel : Nat} (hpid : pid ∈ A)
    (hlo : 256 ≤ lo) (hhi : lo + n ≤ 768) (hn : n = (endMem + 4095) / 4096 - lo) (hfuel : n < fuel)
    (hmapped : ∀ i, lo ≤ i → i < lo + n → Mapped s.mem (T pid).l1 (PAGESIZE * i)) :
    ∃ m', protectPages (T pid).l1 endMem fuel s.mem (PAGESIZE * lo) = .ok m' ∧
      Accounted { s with mem := m' } A T P ∧
      (∀ a, virtualMemoryLookup m' (T pid).l1 a =
        if lo ≤ page48 a ∧ page48 a < lo + n then
          (virtualMemoryLookup s.mem (T pid).l1 a).readOnly
        else virtualMemoryLookup s.mem (T pid).l1 a) ∧
      ∀ j ∈ A, j ≠ pid → ∀ a,
        virtualMemoryLookup m' (T j).l1 a = virtualMemoryLookup s.mem (T j).l1 a := by
  have hspace := h.space pid hpid
  have hframes : ∀ i, lo ≤ i → i < lo + n → ∃ pn perm, Ordinary pn ∧
      virtualMemoryLookup s.mem (T pid).l1 (PAGESIZE * i) = ⟨(pn : Nat), PAGESIZE * pn, perm⟩ := by
    intro i hlow hhigh
    have hmem : PAGESIZE * i ∈ userPages := by
      rw [mem_userPages]
      simp only [UserPart, PROC_START_ADDR, MEMSIZE_VIRTUAL, PAGESIZE]
      omega
    obtain ⟨pn, perm, hord, -, hmap⟩ := hspace.page_cases hmem (hmapped i hlow hhigh)
    exact ⟨pn, perm, hord, hmap⟩
  obtain ⟨m', hrun, hlinked, hlookup, hbytes⟩ := hspace.linked.protectPages hspace.tables hlo (by omega) hn
    hfuel hframes
  obtain ⟨hspace', huses⟩ := hspace.madeReadOnly hlinked hlo hhi hmapped hlookup
  exact ⟨m', hrun, h.of_uses hpid hbytes hspace' huses, hlookup,
    fun j hj hne a => h.lookup_of_leaves hpid hbytes hj hne a⟩

end Accounted

/-! ## Allocating the pages of a segment -/

/-- Page counts after pages have been allocated for a process. -/
def Taking (s s' : State) (pid : Nat) : Prop :=
  ∀ q, s'.pageinfo q = s.pageinfo q ∨ s.pageinfo q = ⟨PO_FREE, 0⟩ ∧ s'.pageinfo q = ⟨pid, 1⟩

theorem Taking.trans {s s' s'' : State} {pid : Nat} (h : Taking s s' pid) (h' : Taking s' s'' pid) :
    Taking s s'' pid := by
  intro q
  rcases h' q with hsame | ⟨hfree, hnew⟩
  · rw [hsame]
    exact h q
  · rcases h q with hsame' | ⟨hfree', -⟩
    · rw [hsame'] at hfree
      exact Or.inr ⟨hfree, hnew⟩
    · exact Or.inr ⟨hfree', hnew⟩

/-- The pages from page `lo` to page `lo + n` have been mapped to fresh pages. -/
structure PagesLoaded (s s' : State) (A : Finset Nat) (T : Nat → Tables) (pid lo n : Nat) : Prop where
  accounted : Accounted s' A T ∅
  only : OnlyPages s s'
  inside : ∀ a, lo ≤ page48 a → page48 a < lo + n →
    (virtualMemoryLookup s'.mem (T pid).l1 a).perm = 7
  outside : ∀ a, ¬ (lo ≤ page48 a ∧ page48 a < lo + n) →
    virtualMemoryLookup s'.mem (T pid).l1 a = virtualMemoryLookup s.mem (T pid).l1 a
  others : ∀ j ∈ A, j ≠ pid → ∀ a,
    virtualMemoryLookup s'.mem (T j).l1 a = virtualMemoryLookup s.mem (T j).l1 a
  taking : Taking s s' pid

theorem Supplied.taking {s s' : State} {A : Finset Nat} {T : Nat → Tables} {pid i pn : Nat}
    (h : Supplied s s' A T pid i pn) : Taking s s' pid := by
  intro q
  rw [h.info]
  by_cases hq : q = pn
  · rw [hq, Function.update_self]
    exact Or.inr ⟨h.wasFree, rfl⟩
  · exact Or.inl (Function.update_of_ne hq ..)

namespace PagesLoaded

variable {s s₁ s' : State} {A : Finset Nat} {T : Nat → Tables} {pid lo n pn : Nat}

theorem none (h : Accounted s A T ∅) : PagesLoaded s s A T pid lo 0 := by
  constructor
  · exact h
  · exact OnlyPages.refl s
  · intro a h1 h2
    omega
  · exact fun _ _ => rfl
  · exact fun _ _ _ _ => rfl
  · exact fun _ => Or.inl rfl

/-- A page, and then the pages behind it. -/
theorem cons (hs : Supplied s s₁ A T pid lo pn) (h : PagesLoaded s₁ s' A T pid (lo + 1) n) :
    PagesLoaded s s' A T pid lo (n + 1) := by
  constructor
  · exact h.accounted
  · exact hs.only.trans h.only
  · intro a h1 h2
    by_cases hin : lo + 1 ≤ page48 a
    · exact h.inside a hin (by omega)
    · rw [h.outside a (by omega), hs.lookup, if_pos (by omega)]
  · intro a hout
    rw [h.outside a (by omega), hs.lookup, if_neg (by omega)]
  · intro j hj hne a
    rw [h.others j hj hne, hs.others j hj hne]
  · exact hs.taking.trans h.taking

end PagesLoaded

namespace Accounted

variable {s : State} {A : Finset Nat} {T : Nat → Tables}

/-- The loop: it stops at the end of the segment or when no page is left. With enough free pages it is
the former. -/
theorem loadPages_spec (h : Accounted s A T ∅) {pid lo n endMem fuel : Nat} (hpid : pid ∈ A)
    (hlo : 256 ≤ lo) (hhi : lo + n ≤ 768) (hn : n = (endMem + 4095) / 4096 - lo) (hfuel : n < fuel)
    (hunmapped : ∀ i, lo ≤ i → i < lo + n → ¬ Mapped s.mem (T pid).l1 (PAGESIZE * i)) :
    ∃ s' b n', loadPages pid endMem fuel s (PAGESIZE * lo) = .ok (s', b) ∧ n' ≤ n ∧
      PagesLoaded s s' A T pid lo n' ∧ (b = true → n' = n) ∧
      ∀ k, 0 < k → k + n ≤ 0x40 → FreeFrom k s.pageinfo →
        b = true ∧ FreeFrom (k + n) s'.pageinfo := by
  induction n generalizing s lo fuel with
  | zero =>
      obtain ⟨fuel, rfl⟩ : ∃ f, fuel = f + 1 := ⟨fuel - 1, by omega⟩
      have hstop : ¬ PAGESIZE * lo < endMem := by
        simp only [PAGESIZE]
        omega
      refine ⟨s, true, 0, ?_, Nat.le_refl 0, PagesLoaded.none h, fun _ => rfl, fun _ _ _ hfree => ⟨rfl, hfree⟩⟩
      rw [loadPages, if_neg hstop]
  | succ n ih =>
      obtain ⟨fuel, rfl⟩ : ∃ f, fuel = f + 1 := ⟨fuel - 1, by omega⟩
      have hgo : PAGESIZE * lo < endMem := by
        simp only [PAGESIZE]
        omega
      rcases h.palloc (h.pids pid hpid).2 with ⟨hnone, hcode⟩ | ⟨pn, s₁, hfind, hcode, halloc⟩
      · refine ⟨s, false, 0, ?_, Nat.zero_le _, PagesLoaded.none h, fun e => absurd e (by decide),
          fun k hk hle hfree => ?_⟩
        · rw [loadPages, if_pos hgo]
          simp only [hcode, if_true]
        · exact absurd hnone (hfree.findFreePage_ne_none (ordinary_of_lt hk (by omega)))
      · have hroot : (s₁.processes pid).pagetable = (T pid).l1 := by
          rw [halloc.only.processes]
          exact h.root pid hpid
        obtain ⟨m', hmap, hs, -⟩ := h.supply hpid hlo (by omega)
          (hunmapped lo (Nat.le_refl lo) (by omega)) halloc fun _ _ => rfl
        obtain ⟨s₂, hs₂⟩ : ∃ s₂ : State, s₂ = { s₁ with mem := m' } := ⟨_, rfl⟩
        rw [← hs₂] at hs
        have hnonnull : PAGESIZE * pn ≠ NULL := halloc.ordinary.page_ne_null
        have hnext : (PAGESIZE * lo + PAGESIZE) % 2 ^ 64 = PAGESIZE * (lo + 1) := by
          simp only [PAGESIZE]
          omega
        have hstep : loadPages pid endMem (fuel + 1) s (PAGESIZE * lo) =
            loadPages pid endMem fuel s₂ (PAGESIZE * (lo + 1)) := by
          rw [loadPages, if_pos hgo]
          simp only [hcode, if_neg hnonnull, hroot, show PTE_W ||| PTE_P ||| PTE_U = 7 from rfl, hmap,
            bind, Except.bind, hnext, hs₂]
          exact if_neg (by decide)
        -- the fresh page is not one of those that are left
        have hleft : ∀ i, lo + 1 ≤ i → i < lo + 1 + n → ¬ Mapped s₂.mem (T pid).l1 (PAGESIZE * i) := by
          intro i h1 h2
          rw [hs.mapped_iff, page48_page (by omega)]
          rintro (rfl | hm)
          · omega
          · exact hunmapped i (by omega) (by omega) hm
        obtain ⟨s', b, n', hrun, hle, hloaded, hb, hfree'⟩ :=
          ih hs.accounted (by omega) (by omega) (by omega) (by omega : n < fuel) hleft
        refine ⟨s', b, n' + 1, hstep.trans hrun, by omega, PagesLoaded.cons hs hloaded, fun e => ?_,
          fun k hk hle' hfree => ?_⟩
        · rw [hb e]
        · have hnew : FreeFrom (k + 1) s₂.pageinfo := by
            rw [hs.info]
            exact hfree.taken (ordinary_of_lt hk (by omega)) hfind
          obtain ⟨hbtrue, hfin⟩ := hfree' (k + 1) (by omega) (by omega) hnew
          refine ⟨hbtrue, ?_⟩
          rw [show k + (n + 1) = k + 1 + n by omega]
          exact hfin

end Accounted

/-! ## Loading a segment -/

/-- `end_file`. -/
def ElfProgram.endFile (ph : ElfProgram) : Nat := (ph.pVa + ph.pFilesz) % 2 ^ 64

/-- `end_mem`. -/
def ElfProgram.endMem (ph : ElfProgram) : Nat := (ph.pVa + ph.pMemsz) % 2 ^ 64

/-- The break of a process is set behind a segment. -/
def breakSet (s : State) (pid : Nat) (ph : ElfProgram) (mem : Mem) : State :=
  { s.setProc pid { s.processes pid with
      originalBreak := roundUpPage ph.endMem
      programBreak := roundUpPage ph.endMem } with mem := mem }

/-- A run of `program_load_segment` that returns 0: the pages are there (`s₁`), the file part has been
copied, the rest is filled with zeros, and the permissions are set. -/
structure SegmentRun (s s₁ : State) (pid : Nat) (ph : ElfProgram) (src : Nat → UInt8)
    (copied filled mem : Mem) : Prop where
  pages : loadPages pid ph.endMem (2 ^ 64) s (roundDownPage ph.pVa) = .ok (s₁, true)
  active : setPagetable s₁.mem (s₁.processes pid).pagetable = .ok ()
  copy : storeBytes (s₁.processes pid).pagetable src
    ((ph.endFile + 2 ^ 64 - roundDownPage ph.pVa) % 2 ^ 64) s₁.mem (roundDownPage ph.pVa) 0 = .ok copied
  fill : storeBytes (s₁.processes pid).pagetable (fun _ => 0)
    ((ph.endMem + 2 ^ 64 - ph.endFile) % 2 ^ 64) copied ph.endFile 0 = .ok filled
  back : setPagetable filled kernelPagetable = .ok ()
  protect : (if ph.pFlags &&& ELF_PFLAG_WRITE = 0 then
      protectPages (s₁.processes pid).pagetable ph.endMem (2 ^ 64) filled (roundDownPage ph.pVa)
    else .ok filled) = .ok mem

theorem programLoadSegment_eq_ok {s s' : State} {pid : Nat} {ph : ElfProgram} {src : Nat → UInt8} :
    programLoadSegment s pid ph src = .ok (s', true) ↔ ∃ s₁ copied filled mem,
      SegmentRun s s₁ pid ph src copied filled mem ∧ s' = breakSet s₁ pid ph mem := by
  unfold programLoadSegment
  rw [bind_eq_ok]
  constructor
  · rintro ⟨⟨s₁, b⟩, hpages, h⟩
    cases b with
    | false =>
        cases (ok_pair.1 h).2
    | true =>
        simp only [if_true] at h
        obtain ⟨⟨⟩, hactive, h⟩ := bind_eq_ok.1 h
        obtain ⟨copied, hcopy, h⟩ := bind_eq_ok.1 h
        obtain ⟨filled, hfill, h⟩ := bind_eq_ok.1 h
        obtain ⟨⟨⟩, hback, h⟩ := bind_eq_ok.1 h
        by_cases hflag : ph.pFlags &&& ELF_PFLAG_WRITE = 0
        · rw [if_pos hflag] at h
          obtain ⟨mem, hprotect, h⟩ := bind_eq_ok.1 h
          refine ⟨s₁, copied, filled, mem, ⟨hpages, hactive, hcopy, hfill, hback, ?_⟩, ?_⟩
          · rw [if_pos hflag]
            exact hprotect
          · exact (ok_pair.1 h).1.symm
        · rw [if_neg hflag] at h
          refine ⟨s₁, copied, filled, filled, ⟨hpages, hactive, hcopy, hfill, hback, ?_⟩, ?_⟩
          · rw [if_neg hflag]
          · exact (ok_pair.1 h).1.symm
  · rintro ⟨s₁, copied, filled, mem, hrun, rfl⟩
    refine ⟨(s₁, true), hrun.pages, ?_⟩
    simp only [if_true]
    rw [bind_eq_ok]
    refine ⟨(), hrun.active, ?_⟩
    rw [bind_eq_ok]
    refine ⟨copied, hrun.copy, ?_⟩
    rw [bind_eq_ok]
    refine ⟨filled, hrun.fill, ?_⟩
    rw [bind_eq_ok]
    refine ⟨(), hrun.back, ?_⟩
    have hprotect := hrun.protect
    by_cases hflag : ph.pFlags &&& ELF_PFLAG_WRITE = 0
    · rw [if_pos hflag] at hprotect ⊢
      rw [bind_eq_ok]
      exact ⟨mem, hprotect, rfl⟩
    · rw [if_neg hflag] at hprotect ⊢
      rw [Except.ok.inj hprotect]
      rfl
theorem programLoadSegment_failed {s s' : State} {pid : Nat} {ph : ElfProgram} {src : Nat → UInt8}
    (h : loadPages pid ph.endMem (2 ^ 64) s (roundDownPage ph.pVa) = .ok (s', false)) :
    programLoadSegment s pid ph src = .ok (s', false) := by
  unfold programLoadSegment
  rw [bind_eq_ok]
  exact ⟨(s', false), h, rfl⟩

/-- The permissions that the pages of a segment get. -/
def ElfProgram.perm (ph : ElfProgram) : Nat := if ph.pFlags &&& ELF_PFLAG_WRITE = 0 then 5 else 7

/-- The first page of a segment. -/
def ElfProgram.firstPage (ph : ElfProgram) : Nat := ph.pVa / 4096

/-- The number of pages of a segment. -/
def ElfProgram.pageCount (ph : ElfProgram) : Nat :=
  (ph.pVa + ph.pMemsz + 4095) / 4096 - ph.firstPage

/-- A segment that fits into the user part. -/
structure ElfProgram.Fits (ph : ElfProgram) : Prop where
  start : PROC_START_ADDR ≤ ph.pVa
  size : ph.pFilesz ≤ ph.pMemsz
  limit : ph.pVa + ph.pMemsz ≤ MEMSIZE_VIRTUAL

instance (ph : ElfProgram) : Decidable ph.Fits :=
  decidable_of_iff (PROC_START_ADDR ≤ ph.pVa ∧ ph.pFilesz ≤ ph.pMemsz ∧ ph.pVa + ph.pMemsz ≤ MEMSIZE_VIRTUAL)
    ⟨fun h => ⟨h.1, h.2.1, h.2.2⟩, fun h => ⟨h.start, h.size, h.limit⟩⟩

/-- A segment has been loaded: its pages are mapped to fresh pages, and the break is behind it. -/
structure SegmentLoaded (s s' : State) (A : Finset Nat) (T : Nat → Tables) (pid : Nat) (ph : ElfProgram) :
    Prop where
  accounted : Accounted s' A T ∅
  processes : s'.processes = Function.update s.processes pid { s.processes pid with
    originalBreak := roundUpPage (ph.pVa + ph.pMemsz), programBreak := roundUpPage (ph.pVa + ph.pMemsz) }
  machine : SameMachine s s'
  inside : ∀ a, ph.firstPage ≤ page48 a → page48 a < ph.firstPage + ph.pageCount →
    (virtualMemoryLookup s'.mem (T pid).l1 a).perm = ph.perm
  outside : ∀ a, ¬ (ph.firstPage ≤ page48 a ∧ page48 a < ph.firstPage + ph.pageCount) →
    virtualMemoryLookup s'.mem (T pid).l1 a = virtualMemoryLookup s.mem (T pid).l1 a
  others : ∀ j ∈ A, j ≠ pid → ∀ a,
    virtualMemoryLookup s'.mem (T j).l1 a = virtualMemoryLookup s.mem (T j).l1 a
  taking : Taking s s' pid

namespace ElfProgram

variable {ph : ElfProgram}

theorem firstPage_eq (ph : ElfProgram) : roundDownPage ph.pVa = PAGESIZE * ph.firstPage := by
  simp only [roundDownPage, PAGESIZE, firstPage]
  omega

namespace Fits

variable (h : ph.Fits)
include h

theorem endFile_eq : ph.endFile = ph.pVa + ph.pFilesz := by
  have hlimit := h.limit
  have hsize := h.size
  simp only [MEMSIZE_VIRTUAL] at hlimit
  rw [endFile]
  omega

theorem endMem_eq : ph.endMem = ph.pVa + ph.pMemsz := by
  have hlimit := h.limit
  simp only [MEMSIZE_VIRTUAL] at hlimit
  rw [endMem]
  omega

theorem pages_le : 256 ≤ ph.firstPage ∧ ph.firstPage + ph.pageCount ≤ 768 := by
  have hstart := h.start
  have hlimit := h.limit
  simp only [PROC_START_ADDR, MEMSIZE_VIRTUAL] at hstart hlimit
  rw [pageCount, firstPage]
  omega

/-- Addresses of the segment's pages that are below its end. -/
theorem mem_pages {a : Nat} (hlow : PAGESIZE * ph.firstPage ≤ a) (hhigh : a < ph.pVa + ph.pMemsz) :
    UserPart a ∧ ph.firstPage ≤ page48 a ∧ page48 a < ph.firstPage + ph.pageCount := by
  have hstart := h.start
  have hlimit := h.limit
  simp only [PROC_START_ADDR, MEMSIZE_VIRTUAL] at hstart hlimit
  have hpage : page48 a = a / 4096 := by
    rw [page48]
    omega
  simp only [PAGESIZE, firstPage] at hlow
  rw [hpage, pageCount, firstPage]
  simp only [UserPart, PROC_START_ADDR, MEMSIZE_VIRTUAL]
  omega

end Fits

end ElfProgram

namespace Accounted

variable {s : State} {A : Finset Nat} {T : Nat → Tables}

/-- The file part is copied and the rest is filled with zeros: all of it goes to fresh pages. -/
theorem storeSegment (h : Accounted s A T ∅) {pid : Nat} {ph : ElfProgram} (hfit : ph.Fits) (hpid : pid ∈ A)
    (src : Nat → UInt8) (hinside : ∀ a, ph.firstPage ≤ page48 a → page48 a < ph.firstPage + ph.pageCount →
      (virtualMemoryLookup s.mem (T pid).l1 a).perm = 7) :
    ∃ copied filled,
      storeBytes (T pid).l1 src ((ph.endFile + 2 ^ 64 - roundDownPage ph.pVa) % 2 ^ 64) s.mem
        (roundDownPage ph.pVa) 0 = .ok copied ∧
      storeBytes (T pid).l1 (fun _ => 0) ((ph.endMem + 2 ^ 64 - ph.endFile) % 2 ^ 64) copied ph.endFile 0 =
        .ok filled ∧
      UserBytes s.mem filled (T pid) := by
  have hsize := hfit.size
  have hlimit := hfit.limit
  simp only [MEMSIZE_VIRTUAL] at hlimit
  have hfirst := ElfProgram.firstPage_eq ph
  have hbelow : PAGESIZE * ph.firstPage ≤ ph.pVa := by
    rw [← hfirst]
    exact Nat.sub_le _ _
  have hrange : ∀ a, PAGESIZE * ph.firstPage ≤ a → a < ph.pVa + ph.pMemsz → UserPart a ∧
      (virtualMemoryLookup s.mem (T pid).l1 a).perm = 7 := by
    intro a hlow hhigh
    obtain ⟨huser, hin, hin'⟩ := hfit.mem_pages hlow hhigh
    exact ⟨huser, hinside a hin hin'⟩
  obtain ⟨copied, hcopy, hbytes⟩ := h.storeBytes_spec hpid src
    (ph.pVa + ph.pFilesz - PAGESIZE * ph.firstPage) (PAGESIZE * ph.firstPage) 0
    (fun a hlow hhigh => hrange a hlow (by omega)) (UserBytes.refl s.mem (T pid))
  obtain ⟨filled, hfill, hbytes'⟩ := h.storeBytes_spec hpid (fun _ => 0)
    (ph.pMemsz - ph.pFilesz) (ph.pVa + ph.pFilesz) 0
    (fun a hlow hhigh => hrange a (by omega) (by omega)) hbytes
  have hcount : (ph.endFile + 2 ^ 64 - roundDownPage ph.pVa) % 2 ^ 64 =
      ph.pVa + ph.pFilesz - PAGESIZE * ph.firstPage := by
    rw [hfit.endFile_eq, hfirst]
    omega
  have hrest : (ph.endMem + 2 ^ 64 - ph.endFile) % 2 ^ 64 = ph.pMemsz - ph.pFilesz := by
    rw [hfit.endFile_eq, hfit.endMem_eq]
    omega
  refine ⟨copied, filled, ?_, ?_, hbytes'⟩
  · rw [hcount, hfirst]
    exact hcopy
  · rw [hrest, hfit.endFile_eq]
    exact hfill

/-- Once the pages are there, nothing fails any more. -/
theorem segmentRun {s₁ : State} {pid : Nat} {ph : ElfProgram} (hfit : ph.Fits) (hpid : pid ∈ A)
    (src : Nat → UInt8) (hcode : loadPages pid ph.endMem (2 ^ 64) s (roundDownPage ph.pVa) = .ok (s₁, true))
    (hloaded : PagesLoaded s s₁ A T pid ph.firstPage ph.pageCount) :
    ∃ copied filled mem, SegmentRun s s₁ pid ph src copied filled mem ∧
      Accounted { s₁ with mem := mem } A T ∅ ∧
      (∀ a, virtualMemoryLookup mem (T pid).l1 a =
        if ph.pFlags &&& ELF_PFLAG_WRITE = 0 ∧ ph.firstPage ≤ page48 a ∧
            page48 a < ph.firstPage + ph.pageCount then
          (virtualMemoryLookup s₁.mem (T pid).l1 a).readOnly
        else virtualMemoryLookup s₁.mem (T pid).l1 a) ∧
      ∀ j ∈ A, j ≠ pid → ∀ a,
        virtualMemoryLookup mem (T j).l1 a = virtualMemoryLookup s₁.mem (T j).l1 a := by
  have hpages := hfit.pages_le
  have hacc₁ := hloaded.accounted
  have hroot : (s₁.processes pid).pagetable = (T pid).l1 := hacc₁.root pid hpid
  obtain ⟨copied, filled, hcopy, hfill, hbytes⟩ := hacc₁.storeSegment hfit hpid src hloaded.inside
  rw [← hroot] at hcopy hfill
  obtain ⟨hacc₂, hlookup₂⟩ := hacc₁.userBytes hpid hbytes
  have hactive : setPagetable s₁.mem (s₁.processes pid).pagetable = .ok () := by
    rw [hroot]
    exact Space.setPagetable_ok hacc₁.kernel (hacc₁.space pid hpid)
  have hback : setPagetable filled kernelPagetable = .ok () := hacc₂.kernel.setPagetable_ok
  by_cases hflag : ph.pFlags &&& ELF_PFLAG_WRITE = 0
  · -- the pages of the segment are mapped still, for the stores have changed no translation
    have hmapped : ∀ i, ph.firstPage ≤ i → i < ph.firstPage + ph.pageCount →
        Mapped filled (T pid).l1 (PAGESIZE * i) := by
      intro i hlow hhigh
      have hpage : page48 (PAGESIZE * i) = i := page48_page (by omega)
      have hperm := hloaded.inside (PAGESIZE * i) (by rw [hpage]; exact hlow) (by rw [hpage]; exact hhigh)
      rw [Mapped, hlookup₂ pid hpid]
      intro e
      rw [e] at hperm
      exact absurd hperm (by decide : (0 : Nat) ≠ 7)
    obtain ⟨mem, hprotect, hacc₃, hlookup₃, hothers₃⟩ := hacc₂.protectPages_spec hpid hpages.1 hpages.2
      (show ph.pageCount = (ph.pVa + ph.pMemsz + 4095) / 4096 - ph.firstPage from rfl)
      (by omega : ph.pageCount < 2 ^ 64) hmapped
    refine ⟨copied, filled, mem, ⟨hcode, hactive, hcopy, hfill, hback, ?_⟩, hacc₃, fun a => ?_,
      fun j hj hne a => (hothers₃ j hj hne a).trans (hlookup₂ j hj a)⟩
    · rw [if_pos hflag, hroot, hfit.endMem_eq, ElfProgram.firstPage_eq ph]
      exact hprotect
    · rw [hlookup₃, hlookup₂ pid hpid]
      simp only [hflag, true_and]
  · refine ⟨copied, filled, filled, ⟨hcode, hactive, hcopy, hfill, hback, ?_⟩, hacc₂, fun a => ?_,
      fun j hj _ a => hlookup₂ j hj a⟩
    · rw [if_neg hflag]
    · rw [hlookup₂ pid hpid, if_neg fun e => hflag e.1]

/-- A segment is loaded, unless the pages run out; with enough free pages it is loaded. -/
theorem programLoadSegment_spec (h : Accounted s A T ∅) {pid : Nat} (hpid : pid ∈ A) {ph : ElfProgram}
    (hfit : ph.Fits) (src : Nat → UInt8)
    (hunmapped : ∀ i, ph.firstPage ≤ i → i < ph.firstPage + ph.pageCount →
      ¬ Mapped s.mem (T pid).l1 (PAGESIZE * i)) :
    ∃ s' b, programLoadSegment s pid ph src = .ok (s', b) ∧
      (b = true → SegmentLoaded s s' A T pid ph) ∧
      ∀ k, 0 < k → k + ph.pageCount ≤ 0x40 → FreeFrom k s.pageinfo →
        b = true ∧ FreeFrom (k + ph.pageCount) s'.pageinfo := by
  have hpages := hfit.pages_le
  have hendMem := hfit.endMem_eq
  have hfirst := ElfProgram.firstPage_eq ph
  obtain ⟨s₁, b, n, hcode, -, hloaded, hb, hfree⟩ := h.loadPages_spec hpid hpages.1 hpages.2
    (show ph.pageCount = (ph.pVa + ph.pMemsz + 4095) / 4096 - ph.firstPage from rfl)
    (by omega : ph.pageCount < 2 ^ 64) hunmapped
  rw [← hendMem, ← hfirst] at hcode
  cases b with
  | false =>
      refine ⟨s₁, false, programLoadSegment_failed hcode, fun e => absurd e (by decide), ?_⟩
      intro k hk hle hf
      exact absurd (hfree k hk hle hf).1 (by decide)
  | true =>
      -- the pages did not run out: the rest cannot fail
      obtain rfl := hb rfl
      obtain ⟨copied, filled, mem, hrun, hacc, hlookup, hothers⟩ := segmentRun hfit hpid src hcode hloaded
      have hproc := hloaded.only.processes
      refine ⟨breakSet s₁ pid ph mem, true, ?_, fun _ => ?_, hfree⟩
      · exact programLoadSegment_eq_ok.2 ⟨s₁, copied, filled, mem, hrun, rfl⟩
      · constructor
        · exact Accounted.of_eq hacc rfl rfl fun j _ => State.setProc_pagetable s₁ (by rfl) j
        · show Function.update s₁.processes pid _ = _
          rw [hproc, hendMem]
        · exact hloaded.only.machine.trans ⟨rfl, rfl, rfl, rfl, rfl⟩
        · intro a hlow hhigh
          show (virtualMemoryLookup mem (T pid).l1 a).perm = ph.perm
          rw [hlookup, ElfProgram.perm]
          by_cases hflag : ph.pFlags &&& ELF_PFLAG_WRITE = 0
          · rw [if_pos ⟨hflag, hlow, hhigh⟩, if_pos hflag, Vamapping.readOnly]
          · rw [if_neg fun e => hflag e.1, if_neg hflag]
            exact hloaded.inside a hlow hhigh
        · intro a hout
          show virtualMemoryLookup mem (T pid).l1 a = _
          rw [hlookup, if_neg fun e => hout e.2]
          exact hloaded.outside a hout
        · intro j hj hne a
          exact (hothers j hj hne a).trans (hloaded.others j hj hne a)
        · exact hloaded.taking

end Accounted

end MemoryManagement.Kernel
