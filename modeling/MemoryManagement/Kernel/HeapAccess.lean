import MemoryManagement.Kernel.Forking
import MemoryManagement.Library.Accesses

/-!
# Heap bytes of a process

What a process finds in its heap when it is to find the bytes of a memory `m` there (`Holds`): a page that has
come in has the bytes of `m` and can be written, and where no page has come in yet, `m` has the bytes that
`palloc` fills pages with. That way a process cannot tell when its pages come in. A store, a page that comes in
and a break that moves up are described on what the process `Holds`.
-/

set_option autoImplicit false

namespace MemoryManagement.Kernel

open MemoryManagement.Library.ByteMemory

/-! ## Cells -/

section Cells

variable {s : State} {T : Nat → Tables} {pid x : Nat}

/-- Where there is a page, there is a cell. -/
theorem hasPage_of_cell {c : Cell} (h : s.cells pid x = some c) : UserPart x ∧ s.HasPage pid x := by
  by_contra hnot
  have hnone : s.cells pid x = none := cells_eq_none.2 fun huser hm => hnot ⟨huser, hm⟩
  rw [hnone] at h
  cases h

/-- Pages come in as a whole. -/
theorem cells_page {y : Nat} (hx : UserPart x) (hy : UserPart y) (hpage : x / PAGESIZE = y / PAGESIZE)
    (h : s.cells pid x = none) : s.cells pid y = none := by
  rw [cells_eq_none] at h ⊢
  have hsame : page48 y = page48 x := by
    rw [hx.page48_eq, hy.page48_eq]
    exact hpage.symm
  exact fun _ hm => h hx ((Mapped.of_page48 hsame).1 hm)

namespace Separate

/-- A page of the user part may be read, and written if its cells say so. -/
theorem perm_of_cell (h : Separate s T) (hpid : pid ∈ live s) {c : Cell} (hc : s.cells pid x = some c)
    (hw : c.writable = true) : (virtualMemoryLookup s.mem (T pid).l1 x).perm = 7 := by
  have hroot := h.family.accounted.root pid hpid
  obtain ⟨huser, hm⟩ := hasPage_of_cell hc
  rw [cells_of_page huser hm, State.lookup, hroot] at hc
  rw [State.HasPage, hroot] at hm
  have hbit := congrArg Cell.writable (Option.some.inj hc)
  rw [hw] at hbit
  obtain ⟨pn, perm, -, hperm, heq⟩ := (h.family.accounted.space pid hpid).user x huser hm
  rw [heq] at hbit ⊢
  rcases hperm with rfl | rfl
  · rfl
  · exact absurd (of_decide_eq_true hbit) (by decide : ¬ (5 : Nat) &&& PTE_W ≠ 0)

theorem readable_of_cell (h : Separate s T) (hpid : pid ∈ live s) {c : Cell} (hc : s.cells pid x = some c)
    (hw : c.writable = true) : UserReadable s.mem (s.processes pid).pagetable x := by
  rw [UserReadable, h.family.accounted.root pid hpid, h.perm_of_cell hpid hc hw]
  rfl

theorem writable_of_cell (h : Separate s T) (hpid : pid ∈ live s) {c : Cell} (hc : s.cells pid x = some c)
    (hw : c.writable = true) : UserWritable s.mem (s.processes pid).pagetable x := by
  rw [UserWritable, h.family.accounted.root pid hpid, h.perm_of_cell hpid hc hw]
  rfl

/-- A store changes no translation. -/
theorem lookup_changes (h : Separate s T) (hpid : pid ∈ live s) {m : Mem}
    (hchanges : UserChanges s.mem m (s.processes pid).pagetable) (va : Nat) :
    ({ s with mem := m } : State).lookup pid va = s.lookup pid va := by
  have hroot := h.family.accounted.root pid hpid
  rw [hroot] at hchanges
  have hlookup := h.lookup_userChanges hpid hchanges hpid va
  rw [State.lookup, State.lookup, hroot]
  exact hlookup

theorem hasPage_changes (h : Separate s T) (hpid : pid ∈ live s) {m : Mem}
    (hchanges : UserChanges s.mem m (s.processes pid).pagetable) (va : Nat) :
    ({ s with mem := m } : State).HasPage pid va ↔ s.HasPage pid va := by
  have hlookup := h.lookup_changes hpid hchanges va
  rw [State.lookup, State.lookup] at hlookup
  rw [State.HasPage, State.HasPage, Mapped, Mapped, hlookup]

/-- A store to a page that the process may write changes one cell. -/
theorem store_cells (h : Separate s T) (hpid : pid ∈ live s) {v : UInt8} (huser : UserPart x)
    (hw : UserWritable s.mem (s.processes pid).pagetable x) {m : Mem}
    (hm : m = Function.update s.mem (s.lookup pid x).pa v) :
    UserChanges s.mem m (s.processes pid).pagetable ∧
      ({ s with mem := m } : State).cells pid = Function.update (s.cells pid) x (some ⟨true, v⟩) := by
  have hacc := h.family.accounted
  have hspace := hacc.space pid hpid
  have hroot := hacc.root pid hpid
  have hchanges : UserChanges s.mem m (s.processes pid).pagetable := by
    intro a hne
    refine ⟨x, hw, ?_⟩
    by_contra hother
    apply hne
    rw [hm, Function.update_of_ne]
    rintro rfl
    exact hother rfl
  refine ⟨hchanges, ?_⟩
  have hsame := h.lookup_changes hpid hchanges
  have hpages := h.hasPage_changes hpid hchanges
  rw [hroot] at hw
  have hpage : s.HasPage pid x := by
    rw [State.HasPage, hroot]
    exact hw.mapped
  obtain ⟨s', hs'⟩ : ∃ s' : State, s' = { s with mem := m } := ⟨_, rfl⟩
  have hmem : s'.mem = m := by rw [hs']
  rw [← hs'] at hsame hpages
  rw [← hs']
  funext va
  by_cases hva : va = x
  · subst hva
    have hwritable : decide ((s.lookup pid va).perm &&& PTE_W ≠ 0) = true := by
      rw [UserWritable] at hw
      rw [State.lookup, hroot, decide_eq_true_iff]
      obtain ⟨pn, perm, -, hperm, heq⟩ := hspace.user va huser (hroot ▸ hpage)
      rw [heq] at hw ⊢
      rcases hperm with rfl | rfl
      · exact (by decide : (7 : Nat) &&& PTE_W ≠ 0)
      · exact absurd hw (by decide : ¬ (5 : Nat) &&& 7 = 7)
    rw [Function.update_self, cells_of_page huser ((hpages va).2 hpage), hsame, State.byteAt, hsame, hmem, hm,
      Function.update_self, hwritable]
  · rw [Function.update_of_ne hva]
    apply cells_congr (hsame va)
    intro huser' hpage'
    rw [hmem, hm, Function.update_of_ne]
    -- two addresses with one physical address are on one page, and at one offset
    intro hpa
    rw [State.HasPage, hroot] at hpage hpage'
    rw [State.lookup, State.lookup, hroot] at hpa
    have hmap := hspace.user x huser hpage
    have hmap' := hspace.user va huser' hpage'
    have hpn : page48 va = page48 x := by
      apply hspace.once va x huser' huser hpage' hpage
      rw [hmap.pn.2.1, hmap'.pn.2.1, ← hmap.page_pa, ← hmap'.page_pa, hpa]
    rw [huser'.page48_eq, huser.page48_eq] at hpn
    rw [hmap.pn.2.2, hmap'.pn.2.2] at hpa
    simp only [PAGESIZE] at hpa
    omega

end Separate

end Cells

/-! ## What a process holds -/

/-- The addresses of the heap and those that it may grow to. The last page is the stack's. -/
def HeapRoom (lo x : Nat) : Prop := lo ≤ x ∧ x < MEMSIZE_VIRTUAL - PAGESIZE

/-- A heap before anything was stored there. -/
def freshBytes : Mem := fun _ => 0xCC

/-- The heap reaches from `lo` to `b`, and the process finds the bytes of `m` there. -/
structure Slot.Holds (p : Slot) (lo b : Nat) (m : Mem) : Prop where
  alive : p.alive = true
  low : p.low = lo
  high : p.high = b
  ordered : lo ≤ b
  -- where no page has come in yet, a page of fresh bytes will
  bytes : ∀ x, HeapRoom lo x → (p.memory x).getD ⟨true, 0xCC⟩ = ⟨true, m x⟩

namespace Slot.Holds

variable {p q : Slot} {lo b x : Nat} {m : Mem}

theorem cell (h : p.Holds lo b m) (hx : HeapRoom lo x) {c : Cell} (hc : p.memory x = some c) : c = ⟨true, m x⟩ := by
  have hbytes := h.bytes x hx
  rw [hc] at hbytes
  exact hbytes

/-- Registers do not matter. -/
theorem congr (h : p.Holds lo b m) (halive : q.alive = p.alive) (hlow : q.low = p.low) (hhigh : q.high = p.high)
    (hmemory : ∀ x, HeapRoom lo x → q.memory x = p.memory x) : q.Holds lo b m :=
  ⟨halive.trans h.alive, hlow.trans h.low, hhigh.trans h.high, h.ordered, fun x hx => by
    rw [hmemory x hx, h.bytes x hx]⟩

theorem returning (h : p.Holds lo b m) (r : Int) : (p.returning r).Holds lo b m :=
  h.congr rfl rfl rfl fun _ _ => rfl

/-- A page has come in where none was. -/
theorem filled (h : p.Holds lo b m) {page : Nat}
    (hnone : ∀ x, HeapRoom lo x → x / PAGESIZE = page → p.memory x = none) :
    Slot.Holds { p with memory := p.memory.fill page } lo b m := by
  refine ⟨h.alive, h.low, h.high, h.ordered, fun x hx => ?_⟩
  show (p.memory.fill page x).getD ⟨true, 0xCC⟩ = _
  rw [Memory.fill]
  split
  · rename_i hpage
    have hbytes := h.bytes x hx
    rw [hnone x hx hpage] at hbytes
    exact hbytes
  · exact h.bytes x hx

/-- A byte has been stored. -/
theorem stored (h : p.Holds lo b m) (v : UInt8) :
    Slot.Holds { p with memory := Function.update p.memory x (some ⟨true, v⟩) } lo b (Function.update m x v) := by
  refine ⟨h.alive, h.low, h.high, h.ordered, fun y hy => ?_⟩
  show (Function.update p.memory x (some ⟨true, v⟩) y).getD ⟨true, 0xCC⟩ = _
  by_cases hyx : y = x
  · rw [hyx, Function.update_self, Function.update_self]
    rfl
  · rw [Function.update_of_ne hyx, Function.update_of_ne hyx]
    exact h.bytes y hy

end Slot.Holds

/-! ## System calls -/

section Calls

variable {pid addr : Nat} {full : Bool} {p p' : Slot}

/-- The numbers of the traps that leave the memory of their process alone. -/
def Quiet (intno : Nat) : Prop :=
  intno ∈ [INT_SYS_GETPID, INT_SYS_YIELD, INT_SYS_FORK, INT_SYS_MEM_TOG, INT_TIMER]

instance (intno : Nat) : Decidable (Quiet intno) := inferInstanceAs (Decidable (_ ∈ _))

theorem Call.quiet (h : Call pid full addr p p') (hquiet : Quiet (p.registers .intno)) :
    p'.alive = p.alive ∧ p'.low = p.low ∧ p'.high = p.high ∧ p'.memory = p.memory := by
  have hother : ∀ n, ¬ Quiet n → ¬ p.registers .intno = n := fun n hn he => hn (he ▸ hquiet)
  cases h with
  | getpid _ => exact ⟨rfl, rfl, rfl, rfl⟩
  | back _ => exact ⟨rfl, rfl, rfl, rfl⟩
  | refused _ => exact ⟨rfl, rfl, rfl, rfl⟩
  | exit hn => exact absurd hn (hother _ (by decide))
  | kept _ _ => exact ⟨rfl, rfl, rfl, rfl⟩
  | moved hn _ =>
      rcases List.mem_cons.1 hn with hn | hn
      · exact absurd hn (hother _ (by decide))
      · exact absurd (List.mem_singleton.1 hn) (hother _ (by decide))
  | supplied hn _ => exact absurd hn (hother _ (by decide))
  | killed hn _ => exact absurd hn (hother _ (by decide))
  | denied _ _ => exact ⟨rfl, rfl, rfl, rfl⟩
  | granted hn _ => exact absurd hn (hother _ (by decide))
  | mapping hn _ => exact absurd hn (hother _ (by decide))

/-- A call of `sbrk` is refused, or moves the break. -/
theorem Call.sbrk_cases (h : Call pid full addr p p') (hintno : p.registers .intno = INT_SYS_SBRK) :
    (¬ p.Accepts ∧ p' = p.returning (-1)) ∨ (p.Accepts ∧ p' = p.moved.returning p.high) := by
  have hother : ∀ n, n ≠ INT_SYS_SBRK → ¬ p.registers .intno = n := fun n hn he => hn (he.symm.trans hintno)
  cases h with
  | getpid hn => exact absurd hn (hother _ (by decide))
  | back hn =>
      rw [hintno] at hn
      exact absurd hn (by decide)
  | refused hn => exact absurd hn (hother _ (by decide))
  | exit hn => exact absurd hn (hother _ (by decide))
  | kept _ hnot => exact Or.inl ⟨hnot, rfl⟩
  | moved _ haccepts =>
      have hold : p.oldBreak = p.high := if_pos hintno
      rw [hold]
      exact Or.inr ⟨haccepts, rfl⟩
  | supplied hn _ => exact absurd hn (hother _ (by decide))
  | killed hn _ => exact absurd hn (hother _ (by decide))
  | denied hn _ => exact absurd hn (hother _ (by decide))
  | granted hn _ => exact absurd hn (hother _ (by decide))
  | mapping hn _ => exact absurd hn (hother _ (by decide))

/-- A page fault brings a page in, or ends the process. -/
theorem Call.fault_cases (h : Call pid full addr p p') (hintno : p.registers .intno = INT_PAGEFAULT) :
    p' = { p with memory := p.memory.fill (addr / PAGESIZE) } ∨ (p' = p.ended ∧ (p.Missing addr → full = true)) := by
  have hother : ∀ n, n ≠ INT_PAGEFAULT → ¬ p.registers .intno = n := fun n hn he => hn (he.symm.trans hintno)
  cases h with
  | getpid hn => exact absurd hn (hother _ (by decide))
  | back hn =>
      rw [hintno] at hn
      exact absurd hn (by decide)
  | refused hn => exact absurd hn (hother _ (by decide))
  | exit hn => exact absurd hn (hother _ (by decide))
  | kept hn _ =>
      rw [hintno] at hn
      exact absurd hn (by decide)
  | moved hn _ =>
      rw [hintno] at hn
      exact absurd hn (by decide)
  | supplied _ _ => exact Or.inl rfl
  | killed _ hwhy => exact Or.inr ⟨rfl, hwhy⟩
  | denied hn _ => exact absurd hn (hother _ (by decide))
  | granted hn _ => exact absurd hn (hother _ (by decide))
  | mapping hn _ => exact absurd hn (hother _ (by decide))

variable {slots slots' : Nat → Slot}

/-- What is no fork concerns the process alone. -/
theorem Effect.call (h : Effect pid full addr slots slots') (hintno : (slots pid).registers .intno ≠ INT_SYS_FORK) :
    Call pid full addr (slots pid) (slots' pid) := by
  cases h with
  | own hcall =>
      rw [Function.update_self]
      exact hcall
  | child hfork _ => exact absurd hfork hintno

/-- A fork leaves the memory of its caller alone, too. -/
theorem Effect.quiet (h : Effect pid full addr slots slots') (halive : (slots pid).alive = true)
    (hquiet : Quiet ((slots pid).registers .intno)) :
    (slots' pid).alive = true ∧ (slots' pid).low = (slots pid).low ∧ (slots' pid).high = (slots pid).high ∧
      (slots' pid).memory = (slots pid).memory := by
  cases h with
  | own hcall =>
      obtain ⟨hsame, hlow, hhigh, hmemory⟩ := hcall.quiet hquiet
      rw [Function.update_self]
      exact ⟨hsame.trans halive, hlow, hhigh, hmemory⟩
  | @child child _ hfree =>
      have hne : pid ≠ child := by
        rintro rfl
        rw [hfree] at halive
        cases halive
      rw [Function.update_of_ne hne, Function.update_self]
      exact ⟨halive, rfl, rfl, rfl⟩

end Calls

end MemoryManagement.Kernel
