import MemoryManagement.Malloc.Requests
import MemoryManagement.Malloc.Correctness
import Mathlib.Order.Bounds.Basic

/-!
# Where `malloc` places a block

`malloc` takes the lowest free block that has room and cuts it; it asks `sbrk` only when no free block
has room, once, for the smallest multiple of four pages that is large enough (`malloc_first_fit`). That
the first block found is the lowest one is the order of the free list.
-/

set_option autoImplicit false

namespace MemoryManagement.Malloc

open MemoryManagement.Library.Tiling

/-- What is left of the free block `c` when `n` bytes are allocated in it: one block, if that has room
for a header. -/
def remainder (c : Span) (n : Nat) : List Span :=
  if required n + HEADER ≤ c.len then [⟨c.start + required n, c.len - required n⟩] else []

/-- The lowest of the blocks `bs` that have room for `n` bytes. -/
structure LowestFit (bs : List Span) (n : Nat) (c : Span) : Prop where
  mem : c ∈ bs
  fits : required n ≤ c.len
  lowest : ∀ b ∈ bs, required n ≤ b.len → c.start ≤ b.start

/-- The growth of the heap for `n` bytes is the smallest multiple of four pages that has room. -/
theorem chunk_isLeast {n : Nat} (hn : n < 2 ^ 62) :
    IsLeast {k | 4 * PAGESIZE ∣ k ∧ required n ≤ k} (chunk n) := by
  have hsized := sized_of_lt hn
  have hgrow := growable_of_lt hn
  have heq := chunk_eq hsized hgrow.1
  constructor
  · refine ⟨⟨(required n + 16383) / 16384, ?_⟩, (chunk_bounds hsized hgrow).2⟩
    rw [heq, Nat.mul_comm]
    rfl
  · rintro k ⟨⟨j, rfl⟩, hroom⟩
    rw [heq]
    simp only [PAGESIZE] at hroom ⊢
    omega

section Layouts

variable {b0 : Nat} {a : Layout}

/-- Cutting a free block leaves the remainder and the other free blocks. -/
theorem Layout.carve_free (a : Layout) (c : Span) (n : Nat) :
    (a.carve c n).free.Perm (remainder c n ++ a.free.erase c) := by
  rw [Layout.carve, remainder]
  split
  · exact insertFree_perm _ _
  · exact List.Perm.refl _

/-- The first block that fits is the lowest one. -/
theorem Layout.Inv.firstFit_lowest (h : a.Inv b0) {n : Nat} {c : Span} (hfit : a.firstFit n = some c) :
    LowestFit a.free n c := by
  obtain ⟨hmem, hlen⟩ := Layout.firstFit_mem hfit
  refine ⟨hmem, hlen, fun b hb hroom => ?_⟩
  obtain ⟨-, u, v, hsplit, hbefore⟩ := List.find?_eq_some_iff_append.1 hfit
  have hsorted := h.freeSorted
  rw [hsplit] at hb hsorted
  rcases List.mem_append.1 hb with hu | hv
  · -- the blocks in front of it have no room
    have hno := hbefore b hu
    rw [decide_eq_true hroom] at hno
    cases hno
  · rcases List.mem_cons.1 hv with rfl | hv
    · exact Nat.le_refl _
    · have htail := (List.pairwise_append.1 hsorted).2.1
      exact Nat.le_of_lt ((List.pairwise_cons.1 htail).1 b hv)

/-- `malloc` on the layout, when a block fits. -/
theorem Layout.malloc_fit {n : Nat} (hn : n ≠ 0) {c : Span} (hfit : a.firstFit n = some c) :
    a.malloc n = (a.carve c n, c.start + HEADER) := by
  rw [Layout.malloc, if_neg hn, hfit]

/-- `malloc` on the layout, when no block fits. -/
theorem Layout.malloc_grow {n : Nat} (hn : n ≠ 0) (hfit : a.firstFit n = none) :
    a.malloc n = if (sbrk a.brk (chunk n)).2 = minusOne then
        ({ a with brk := (sbrk a.brk (chunk n)).1 }, NULL)
      else ((a.grow n).carve ⟨a.brk.current, chunk n⟩ n, a.brk.current + HEADER) := by
  rw [Layout.malloc, if_neg hn, hfit]

/-- A chunk that joins the free blocks and is cut leaves its remainder. -/
theorem Layout.grow_carve_free (a : Layout) (n : Nat) :
    ((a.grow n).carve ⟨a.brk.current, chunk n⟩ n).free.Perm
      (remainder ⟨a.brk.current, chunk n⟩ n ++ a.free) := by
  have hjoin : (a.grow n).free.Perm (⟨a.brk.current, chunk n⟩ :: a.free) := insertFree_perm _ _
  have herase : ((a.grow n).free.erase ⟨a.brk.current, chunk n⟩).Perm a.free := by
    have := hjoin.erase ⟨a.brk.current, chunk n⟩
    rwa [List.erase_cons_head] at this
  exact (Layout.carve_free _ _ _).trans (herase.append_left _)

theorem Layout.carve_brk (a : Layout) (c : Span) (n : Nat) : (a.carve c n).brk = a.brk := by
  rw [Layout.carve]
  split <;> rfl

end Layouts

/-- `malloc(n)` has led from `s`, with free blocks `bs`, to `s'`, with free blocks `bs'`, because the
free block `c` has room. -/
structure PlacedIn (s s' : Heap) (bs bs' : List Span) (n p : Nat) (c : Span) : Prop where
  lowest : LowestFit bs n c
  result : p = c.start + HEADER
  brk : s'.brk = s.brk
  free : bs'.Perm (remainder c n ++ bs.erase c)

/-- `malloc(n)` has led from `s`, with free blocks `bs`, to `s'`, with free blocks `bs'`, where no free
block had room. -/
structure Grown (s s' : Heap) (bs bs' : List Span) (n p : Nat) : Prop where
  least : IsLeast {k | 4 * PAGESIZE ∣ k ∧ required n ≤ k} (chunk n)
  once : s'.brk.requests = chunk n :: s.brk.requests
  brk : s'.brk = (sbrk s.brk (chunk n)).1
  refused : p = NULL ↔ (sbrk s.brk (chunk n)).2 = minusOne
  failed : p = NULL → bs' = bs
  result : p ≠ NULL → p = s.brk.current + HEADER
  free : p ≠ NULL → bs'.Perm (remainder ⟨s.brk.current, chunk n⟩ n ++ bs)

/-- In every reachable state `malloc` takes the lowest free block with room; if there is none it grows the
heap, once and by no more than needed. -/
theorem malloc_first_fit {brk : Break} (hbrk : HeapStart brk) {st : Session} (h : Reachable brk st)
    {n : Nat} (hpos : 0 < n) (hn : n < 2 ^ 62) :
    ∃ s' p bs bs', malloc st.heap n = some (s', p) ∧ FreeBlocks st.heap bs ∧ FreeBlocks s' bs' ∧
      ((∃ b ∈ bs, required n ≤ b.len) → ∃ c, PlacedIn st.heap s' bs bs' n p c) ∧
      ((∀ b ∈ bs, b.len < required n) → Grown st.heap s' bs bs' n p) := by
  obtain ⟨a, ha⟩ := h.inv hbrk
  obtain ⟨s', hcode, hrep, -⟩ := ha.rep.malloc ha.inv (a.servable_of_lt hn)
  refine ⟨s', _, a.free, _, hcode, ha.rep.freeBlocks, hrep.freeBlocks, ?_, ?_⟩
  · rintro ⟨b, hb, hroom⟩
    cases hfit : a.firstFit n with
    | none =>
        have hno := List.find?_eq_none.1 hfit b hb
        exact absurd (decide_eq_true hroom) hno
    | some c =>
        have hmalloc := Layout.malloc_fit (Nat.ne_of_gt hpos) hfit
        refine ⟨c, ha.inv.firstFit_lowest hfit, ?_, ?_, ?_⟩
        · rw [hmalloc]
        · rw [hrep.brk, hmalloc, ha.rep.brk]
          exact Layout.carve_brk a c n
        · rw [hmalloc]
          exact Layout.carve_free a c n
  · intro hsmall
    have hfit : a.firstFit n = none := by
      apply List.find?_eq_none.2
      intro b hb
      rw [decide_eq_true_iff]
      exact Nat.not_le_of_lt (hsmall b hb)
    have hmalloc := Layout.malloc_grow (Nat.ne_of_gt hpos) hfit
    have hsbrk : s'.brk = (sbrk st.heap.brk (chunk n)).1 := by
      rw [hrep.brk, hmalloc, ha.rep.brk]
      split
      · rfl
      · exact Layout.carve_brk (a.grow n) _ n
    rw [ha.rep.brk] at hsbrk
    -- whether `sbrk` refuses decides if there is a chunk to carve
    cases hanswer : decide ((sbrk a.brk (chunk n)).2 = minusOne) with
    | true =>
        have hrefused := of_decide_eq_true hanswer
        rw [if_pos hrefused] at hmalloc
        rw [hmalloc]
        constructor
        · exact chunk_isLeast hn
        · rw [hsbrk, ha.rep.brk, sbrk_requests]
        · rw [hsbrk, ha.rep.brk]
        · rw [ha.rep.brk]
          exact ⟨fun _ => hrefused, fun _ => rfl⟩
        · exact fun _ => rfl
        · exact fun hne => absurd rfl hne
        · exact fun hne => absurd rfl hne
    | false =>
        have hgranted := of_decide_eq_false hanswer
        rw [if_neg hgranted] at hmalloc
        rw [hmalloc]
        constructor
        · exact chunk_isLeast hn
        · rw [hsbrk, ha.rep.brk, sbrk_requests]
        · rw [hsbrk, ha.rep.brk]
        · rw [ha.rep.brk]
          exact ⟨fun e => absurd e (Nat.succ_ne_zero _), fun e => absurd e hgranted⟩
        · exact fun e => absurd e (Nat.succ_ne_zero _)
        · intro _
          rw [ha.rep.brk]
        · intro _
          rw [ha.rep.brk]
          exact Layout.grow_carve_free a n

theorem malloc_first_fit_example :
    ∃ st s' p bs bs', (Session.start (fun _ => 0) (grantAll 0x103000)).run [.malloc 24, .defrag] = some st ∧
      malloc st.heap 100 = some (s', p) ∧ FreeBlocks st.heap bs ∧ FreeBlocks s' bs' ∧
      ((∃ b ∈ bs, required 100 ≤ b.len) → ∃ c, PlacedIn st.heap s' bs bs' 100 p c) ∧
      ((∀ b ∈ bs, b.len < required 100) → Grown st.heap s' bs bs' 100 p) := by
  have hbrk : HeapStart (grantAll 0x103000) := ⟨by decide, by decide, by decide⟩
  obtain ⟨st, hrun, hreach⟩ := (Reachable.start (fun _ => 0)).run hbrk [.malloc 24, .defrag]
    ⟨(by decide : 24 < 2 ^ 62), fun _ _ => ⟨trivial, fun _ _ => trivial⟩⟩
  obtain ⟨s', p, bs, bs', hrest⟩ := malloc_first_fit hbrk hreach (by decide : 0 < 100) (by decide)
  exact ⟨st, s', p, bs, bs', hrun, hrest⟩

end MemoryManagement.Malloc
