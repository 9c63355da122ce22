import MemoryManagement.Malloc.Model
import MemoryManagement.Library.Tiling

/-!
# The heap as two collections of blocks

The abstract view of the allocator: a sequence of free blocks, a sequence of allocated blocks with
the sizes their owners asked for, and the program break. `Layout.malloc`, `Layout.release` and
`Layout.defrag` state what the operations do to these sequences, without memory or links.

`Layout.Inv b0` is the invariant of the allocator. The blocks tile the heap from its start `b0` to the
break, starts and sizes are multiples of 8, every block has room for a header, every allocated block
is as large as asked for and wastes less than a header, the free blocks ascend in address and the
allocated blocks descend in requested size. Every operation keeps it.
-/

set_option autoImplicit false

namespace MemoryManagement.Malloc

open MemoryManagement.Library.Tiling

/-! ## Sizes -/

/-- Block size for a request of `n` bytes: `ROUNDUP(HEADER + n, 8)`. -/
@[irreducible]
def required (n : Nat) : Nat := roundUp (add64 HEADER n) 8

/-- Amount by which the heap grows for a request of `n` bytes. -/
@[irreducible]
def chunk (n : Nat) : Nat := roundUp (required n) (PAGESIZE * 4)

/-- The block size for a request of `n` bytes fits 64 bits. -/
def Sized (n : Nat) : Prop := n + 40 ≤ 2 ^ 64

/-- The heap can grow for a request of `n` bytes: the increment is positive as a signed number. -/
def Growable (n : Nat) : Prop := 0 < chunk n ∧ chunk n < 2 ^ 63

theorem required_eq {n : Nat} (h : Sized n) : required n = (n + 39) / 8 * 8 := by
  simp only [Sized] at h
  simp only [required, roundUp, roundDown, add64, HEADER]
  omega

/-- The bounds of a block size that fits `n` bytes and its header. -/
theorem required_bounds {n : Nat} (h : Sized n) :
    required n % 8 = 0 ∧ 32 + n ≤ required n ∧ required n < 40 + n := by
  rw [required_eq h]
  omega

/-- A rounded size that wraps around is 0. -/
theorem chunk_eq {n : Nat} (h : Sized n) (hpos : 0 < chunk n) :
    chunk n = (required n + 16383) / 16384 * 16384 := by
  have := required_bounds h
  simp only [Sized] at h
  simp only [chunk, roundUp, roundDown, PAGESIZE] at hpos ⊢
  omega

theorem chunk_bounds {n : Nat} (h : Sized n) (hgrow : Growable n) :
    (chunk n % 8 = 0 ∧ 32 ≤ chunk n ∧ chunk n < 2 ^ 63) ∧ required n ≤ chunk n := by
  have heq := chunk_eq h hgrow.1
  have hreq := required_bounds h
  refine ⟨⟨?_, ?_, hgrow.2⟩, ?_⟩
  · omega
  · omega
  · omega

theorem sized_of_lt {n : Nat} (h : n < 2 ^ 62) : Sized n := by
  unfold Sized
  omega

theorem growable_of_lt {n : Nat} (h : n < 2 ^ 62) : Growable n := by
  have hreq := required_bounds (sized_of_lt h)
  have heq : chunk n = (required n + 16383) / 16384 * 16384 := by
    simp only [chunk, roundUp, roundDown, PAGESIZE]
    omega
  unfold Growable
  omega

/-! ## The program break -/

/-- A positive increment is refused, or moves the break up and returns the old one. -/
theorem sbrk_cases (b : Break) {k : Nat} (hk : 0 < k) (hk' : k < 2 ^ 63) :
    ((sbrk b k).2 = minusOne ∧ (sbrk b k).1.current = b.current) ∨
      ((sbrk b k).2 = b.current ∧ (sbrk b k).1.current = b.current + k ∧
        b.current + k < 2 ^ 64) := by
  have hsigned : toInt64 k = k := if_pos hk'
  simp only [sbrk, hsigned]
  split
  · rename_i h
    refine Or.inr ⟨rfl, ?_, by omega⟩
    simp only
    omega
  · exact Or.inl ⟨rfl, rfl⟩

/-! ## Layouts -/

/-- An allocated block: its header address, its size, and the size asked for. -/
structure Alloc where
  addr : Nat
  size : Nat
  bytes : Nat
  deriving DecidableEq, Repr

/-- The addresses the block takes up. -/
def Alloc.span (b : Alloc) : Span := ⟨b.addr, b.size⟩

/-- The free blocks, the allocated blocks and the program break. -/
structure Layout where
  free : List Span
  alloc : List Alloc
  brk : Break

/-- All blocks. -/
def Layout.spans (a : Layout) : List Span := a.free ++ a.alloc.map Alloc.span

/-- Insertion into the free blocks, ordered by address. -/
def insertFree (b : Span) (l : List Span) : List Span :=
  l.orderedInsert (fun b c => b.start < c.start) b

/-- Insertion into the allocated blocks, ordered by descending requested size. -/
def insertAlloc (b : Alloc) (l : List Alloc) : List Alloc :=
  l.orderedInsert (fun b c => c.bytes < b.bytes) b

namespace Layout

/-- Allocate `n` bytes in the free block `b`, cutting off the rest when it has room for a header. -/
def carve (a : Layout) (b : Span) (n : Nat) : Layout :=
  if required n + HEADER ≤ b.len then
    { a with
      free := insertFree ⟨b.start + required n, b.len - required n⟩ (a.free.erase b)
      alloc := insertAlloc ⟨b.start, required n, n⟩ a.alloc }
  else
    { a with
      free := a.free.erase b
      alloc := insertAlloc ⟨b.start, b.len, n⟩ a.alloc }

/-- The first free block with room for `n` bytes. -/
def firstFit (a : Layout) (n : Nat) : Option Span := a.free.find? fun b => required n ≤ b.len

/-- Add a chunk for `n` bytes that starts at the old break. -/
def grow (a : Layout) (n : Nat) : Layout :=
  { a with
    free := insertFree ⟨a.brk.current, chunk n⟩ a.free
    brk := (sbrk a.brk (chunk n)).1 }

/-- Allocation: first fit, else in a fresh chunk, else failure. The second component is the payload
pointer. -/
def malloc (a : Layout) (n : Nat) : Layout × Nat :=
  if n = 0 then (a, NULL)
  else
    match a.firstFit n with
    | some b => (a.carve b n, b.start + HEADER)
    | none =>
        if (sbrk a.brk (chunk n)).2 = minusOne then
          ({ a with brk := (sbrk a.brk (chunk n)).1 }, NULL)
        else ((a.grow n).carve ⟨a.brk.current, chunk n⟩ n, a.brk.current + HEADER)

/-- Move an allocated block to the free blocks. -/
def release (a : Layout) (b : Alloc) : Layout :=
  { a with free := insertFree b.span a.free, alloc := a.alloc.erase b }

/-- Join neighbouring free blocks. -/
def defrag (a : Layout) : Layout := { a with free := coalesce a.free }

end Layout

/-- The invariant of the allocator for a heap that starts at `b0`. -/
structure Layout.Inv (b0 : Nat) (a : Layout) : Prop where
  base_pos : 0 < b0
  base_aligned : b0 % 8 = 0
  brk_lt : a.brk.current < 2 ^ 64
  tiled : TiledBy b0 a.brk.current a.spans
  block : ∀ b ∈ a.spans, b.start % 8 = 0 ∧ b.len % 8 = 0 ∧ 32 ≤ b.len
  fits : ∀ b ∈ a.alloc, HEADER + b.bytes ≤ b.size ∧ b.size < required b.bytes + HEADER
  freeSorted : a.free.Pairwise fun b c => b.start < c.start
  allocSorted : a.alloc.Pairwise fun b c => c.bytes ≤ b.bytes

/-! ## Sorted insertion -/

section OrderedInsert

universe u

variable {α : Type u} {r R : α → α → Prop} [DecidableRel r]

/-- Insertion by `r` keeps a transitive order `R` that `r` decides for the new element. -/
theorem pairwise_orderedInsert {a : α} {l : List α} (hl : l.Pairwise R)
    (htrans : ∀ x y z, R x y → R y z → R x z) (hbefore : ∀ x ∈ l, r a x → R a x)
    (hafter : ∀ x ∈ l, ¬ r a x → R x a) : (l.orderedInsert r a).Pairwise R := by
  induction l with
  | nil => simp
  | cons b l ih =>
      obtain ⟨hb, hl'⟩ := List.pairwise_cons.1 hl
      rw [List.orderedInsert]
      split
      · rename_i hab
        have hRab := hbefore b (by simp) hab
        refine List.pairwise_cons.2 ⟨fun x hx => ?_, hl⟩
        rcases List.mem_cons.1 hx with rfl | hx'
        · exact hRab
        · exact htrans _ _ _ hRab (hb x hx')
      · rename_i hab
        have hrest := ih hl' (fun x hx => hbefore x (by simp [hx])) fun x hx => hafter x (by simp [hx])
        refine List.pairwise_cons.2 ⟨fun x hx => ?_, hrest⟩
        rcases List.mem_cons.1 ((List.perm_orderedInsert r a l).mem_iff.1 hx) with rfl | hx'
        · exact hafter b (by simp) hab
        · exact hb x hx'

end OrderedInsert

theorem insertFree_perm (b : Span) (l : List Span) : (insertFree b l).Perm (b :: l) :=
  List.perm_orderedInsert _ b l

theorem insertAlloc_perm (b : Alloc) (l : List Alloc) : (insertAlloc b l).Perm (b :: l) :=
  List.perm_orderedInsert _ b l

theorem insertFree_sorted {b : Span} {l : List Span} (hl : l.Pairwise fun b c => b.start < c.start)
    (hne : ∀ c ∈ l, c.start ≠ b.start) :
    (insertFree b l).Pairwise fun b c => b.start < c.start := by
  refine pairwise_orderedInsert hl (fun x y z h1 h2 => Nat.lt_trans h1 h2) (fun x _ h => h) ?_
  intro x hx h
  have := hne x hx
  omega

theorem insertAlloc_sorted {b : Alloc} {l : List Alloc}
    (hl : l.Pairwise fun b c => c.bytes ≤ b.bytes) :
    (insertAlloc b l).Pairwise fun b c => c.bytes ≤ b.bytes :=
  pairwise_orderedInsert hl (fun _ _ _ h1 h2 => Nat.le_trans h2 h1) (fun _ _ h => Nat.le_of_lt h)
    fun _ _ h => Nat.le_of_not_lt h

/-! ## The operations keep the invariant -/

namespace Layout

theorem spans_perm_erase_free {a : Layout} {b : Span} (hb : b ∈ a.free) :
    a.spans.Perm (b :: (a.free.erase b ++ a.alloc.map Alloc.span)) :=
  (List.perm_cons_erase hb).append_right _

theorem spans_perm_erase_alloc {a : Layout} {b : Alloc} (hb : b ∈ a.alloc) :
    a.spans.Perm (b.span :: (a.free ++ (a.alloc.erase b).map Alloc.span)) :=
  (((List.perm_cons_erase hb).map _).append_left _).trans List.perm_middle

theorem perm_insertFree (b : Span) (l ms : List Span) :
    (insertFree b l ++ ms).Perm (b :: (l ++ ms)) :=
  (insertFree_perm b l).append_right ms

theorem perm_insertAlloc (b : Alloc) (l : List Alloc) (ms : List Span) :
    (ms ++ (insertAlloc b l).map Alloc.span).Perm (b.span :: (ms ++ l.map Alloc.span)) :=
  (((insertAlloc_perm b l).map _).append_left ms).trans List.perm_middle

/-- The blocks after an allocation that cuts the free block `b`. -/
theorem carve_spans_split (a : Layout) {b : Span} {n : Nat} (hfit : required n + HEADER ≤ b.len) :
    (a.carve b n).spans.Perm (⟨b.start, required n⟩ ::
      ⟨b.start + required n, b.len - required n⟩ :: (a.free.erase b ++ a.alloc.map Alloc.span)) := by
  rw [carve, if_pos hfit]
  exact (perm_insertAlloc _ _ _).trans ((perm_insertFree _ _ _).cons _)

/-- The blocks after an allocation that takes the free block `b` whole. -/
theorem carve_spans_whole (a : Layout) {b : Span} {n : Nat} (hfit : ¬ required n + HEADER ≤ b.len) :
    (a.carve b n).spans.Perm (b :: (a.free.erase b ++ a.alloc.map Alloc.span)) := by
  rw [carve, if_neg hfit]
  exact perm_insertAlloc _ _ _

namespace Inv

variable {b0 : Nat} {a : Layout}

theorem apart (h : a.Inv b0) : a.spans.Pairwise Span.Apart := h.tiled.pairwise_apart

theorem mem_free {b : Span} (hb : b ∈ a.free) : b ∈ a.spans := List.mem_append_left _ hb

theorem mem_alloc {b : Alloc} (hb : b ∈ a.alloc) : b.span ∈ a.spans :=
  List.mem_append_right _ (List.mem_map_of_mem hb)

/-- Every block lies inside the heap and above the null pointer. -/
theorem bounds (h : a.Inv b0) {b : Span} (hb : b ∈ a.spans) :
    0 < b.start ∧ b.start + b.len ≤ a.brk.current ∧ b.start + b.len < 2 ^ 64 := by
  have h1 := h.tiled.bounds hb
  have h2 := h.base_pos
  have h3 := h.brk_lt
  omega

/-- Removing one block from a permutation of the blocks, what is left is apart from it. -/
theorem apart_of_perm (h : a.Inv b0) {b : Span} {ms : List Span} (hp : a.spans.Perm (b :: ms)) :
    ∀ c ∈ ms, b.Apart c := by
  have := (hp.pairwise_iff fun h => Span.Apart.symm h).1 h.apart
  exact (List.pairwise_cons.1 this).1

theorem init {brk : Break} (hpos : 0 < brk.current) (hal : brk.current % 8 = 0)
    (hlt : brk.current < 2 ^ 64) : Inv brk.current ⟨[], [], brk⟩ where
  base_pos := hpos
  base_aligned := hal
  brk_lt := hlt
  tiled := TiledBy.nil _
  block := by simp [spans]
  fits := by simp
  freeSorted := List.Pairwise.nil
  allocSorted := List.Pairwise.nil

/-- A layout whose blocks are those of an invariant layout, one of them cut or not, keeps the
geometric half of the invariant. -/
theorem carve (h : a.Inv b0) {b : Span} {n : Nat} (hb : b ∈ a.free) (hn : Sized n)
    (hfit : required n ≤ b.len) : (a.carve b n).Inv b0 := by
  have hperm := spans_perm_erase_free hb
  have hblock := h.block b (mem_free hb)
  have hreq := required_bounds hn
  have hfree : (a.free.erase b).Pairwise fun b c => b.start < c.start :=
    h.freeSorted.sublist (List.erase_sublist)
  have hrest : ∀ c ∈ a.free.erase b ++ a.alloc.map Alloc.span,
      c.start % 8 = 0 ∧ c.len % 8 = 0 ∧ 32 ≤ c.len := fun c hc =>
    h.block c (hperm.mem_iff.2 (List.mem_cons_of_mem _ hc))
  by_cases hsplit : required n + HEADER ≤ b.len
  · have hspans := carve_spans_split a hsplit
    simp only [HEADER] at hsplit
    have hlen : b.len = required n + (b.len - required n) := by omega
    refine ⟨h.base_pos, h.base_aligned, ?_, ?_, ?_, ?_, ?_, ?_⟩
    · rw [Layout.carve, if_pos hsplit]
      exact h.brk_lt
    · have hcut : TiledBy b0 a.brk.current (⟨b.start, required n + (b.len - required n)⟩ ::
          (a.free.erase b ++ a.alloc.map Alloc.span)) := by
        rw [← hlen]
        exact h.tiled.perm hperm
      have := hcut.split.perm hspans.symm
      rw [Layout.carve, if_pos hsplit] at this ⊢
      exact this
    · intro c hc
      rcases List.mem_cons.1 (hspans.mem_iff.1 hc) with rfl | hc'
      · simp only
        omega
      · rcases List.mem_cons.1 hc' with rfl | hc''
        · simp only
          omega
        · exact hrest c hc''
    · rw [Layout.carve, if_pos hsplit]
      intro c hc
      rcases List.mem_cons.1 ((insertAlloc_perm _ _).mem_iff.1 hc) with rfl | hc'
      · simp only [HEADER]
        omega
      · exact h.fits c hc'
    · rw [Layout.carve, if_pos hsplit]
      refine insertFree_sorted hfree fun c hc => ?_
      -- the rest of `b` starts inside `b`, no other block does
      have hap := h.apart_of_perm hperm c (List.mem_append_left _ hc)
      have hc' := hrest c (List.mem_append_left _ hc)
      simp only [Span.Apart] at hap
      simp only
      omega
    · rw [Layout.carve, if_pos hsplit]
      exact insertAlloc_sorted h.allocSorted
  · have hspans := carve_spans_whole a hsplit
    have heq : (a.carve b n).brk = a.brk := by rw [Layout.carve, if_neg hsplit]
    refine ⟨h.base_pos, h.base_aligned, by rw [heq]; exact h.brk_lt, ?_, ?_, ?_, ?_, ?_⟩
    · rw [heq]
      exact h.tiled.perm (hperm.trans hspans.symm)
    · intro c hc
      exact h.block c (hperm.mem_iff.2 (hspans.mem_iff.1 hc))
    · rw [Layout.carve, if_neg hsplit]
      intro c hc
      rcases List.mem_cons.1 ((insertAlloc_perm _ _).mem_iff.1 hc) with rfl | hc'
      · simp only [HEADER] at hsplit ⊢
        omega
      · exact h.fits c hc'
    · rw [Layout.carve, if_neg hsplit]
      exact hfree
    · rw [Layout.carve, if_neg hsplit]
      exact insertAlloc_sorted h.allocSorted

/-- The break is aligned: it is the start of the heap or the end of its last block. -/
theorem brk_aligned (h : a.Inv b0) : a.brk.current % 8 = 0 := by
  by_cases hempty : b0 = a.brk.current
  · rw [← hempty]
    exact h.base_aligned
  · have hle := h.tiled.le
    obtain ⟨c, hc, hcx⟩ := h.tiled.covers (x := a.brk.current - 1) (by omega) (by omega)
    have h1 := h.block c hc
    have h2 := (h.tiled.bounds hc).2
    have h3 := hcx.2
    omega

/-- A refused `sbrk` leaves the break where it is; the old break is aligned, so it is not the error
value. -/
theorem brk_of_refused (h : a.Inv b0) {k : Nat} (hk : (sbrk a.brk k).2 = minusOne) :
    (sbrk a.brk k).1.current = a.brk.current := by
  have halign := h.brk_aligned
  simp only [sbrk] at hk ⊢
  split at hk
  · simp only [minusOne] at hk
    omega
  · rename_i hno
    rw [if_neg hno]

/-- An accepted `sbrk` adds one free block at the old break. -/
theorem grow (h : a.Inv b0) {n : Nat} (hchunk : chunk n % 8 = 0 ∧ 32 ≤ chunk n ∧ chunk n < 2 ^ 63)
    (hok : (sbrk a.brk (chunk n)).2 ≠ minusOne) : (a.grow n).Inv b0 := by
  obtain ⟨-, hbrk, hlt⟩ : _ ∧ _ ∧ _ :=
    (sbrk_cases a.brk (by omega) hchunk.2.2).resolve_left fun h => hok h.1
  have hperm : (a.grow n).spans.Perm (⟨a.brk.current, chunk n⟩ :: a.spans) := perm_insertFree _ _ _
  have hcur : (a.grow n).brk.current = a.brk.current + chunk n := hbrk
  have hend := h.brk_aligned
  refine ⟨h.base_pos, h.base_aligned, by rw [hcur]; exact hlt, ?_, ?_, h.fits, ?_, h.allocSorted⟩
  · rw [hcur]
    exact (h.tiled.grow (chunk n)).perm hperm.symm
  · intro c hc
    rcases List.mem_cons.1 (hperm.mem_iff.1 hc) with rfl | hc'
    · simp only
      omega
    · exact h.block c hc'
  · refine insertFree_sorted h.freeSorted fun c hc => ?_
    have h1 := (h.tiled.bounds (mem_free hc)).2
    have h2 := h.block c (mem_free hc)
    simp only
    omega

theorem release (h : a.Inv b0) {b : Alloc} (hb : b ∈ a.alloc) : (a.release b).Inv b0 := by
  have hperm := spans_perm_erase_alloc hb
  have hspans : (a.release b).spans.Perm a.spans := (perm_insertFree _ _ _).trans hperm.symm
  refine ⟨h.base_pos, h.base_aligned, h.brk_lt, h.tiled.perm hspans.symm,
    fun c hc => h.block c (hspans.mem_iff.1 hc), fun c hc => h.fits c (List.mem_of_mem_erase hc),
    ?_, h.allocSorted.sublist List.erase_sublist⟩
  refine insertFree_sorted h.freeSorted fun c hc => ?_
  have hap := h.apart_of_perm hperm c (List.mem_append_left _ hc)
  have h1 := h.block c (mem_free hc)
  have h2 := h.block b.span (mem_alloc hb)
  simp only [Span.Apart] at hap
  omega

/-- Free blocks ascend without overlap. -/
theorem ascending (h : a.Inv b0) : Ascending a.free := by
  have hap : a.free.Pairwise Span.Apart := (List.pairwise_append.1 h.apart).1
  have hpos : ∀ b ∈ a.free, 0 < b.len := fun b hb => by
    have := h.block b (mem_free hb)
    omega
  refine ⟨hpos, (h.freeSorted.and hap).imp_of_mem fun hb hc hbc => ?_⟩
  obtain ⟨hlt, hapart⟩ := hbc
  simp only [Span.Apart] at hapart
  omega

/-- Blocks joined from aligned blocks are aligned. -/
theorem coalesceFrom_block {b : Span} {bs : List Span}
    (h : ∀ c ∈ b :: bs, c.start % 8 = 0 ∧ c.len % 8 = 0 ∧ 32 ≤ c.len) :
    ∀ c ∈ coalesceFrom b bs, c.start % 8 = 0 ∧ c.len % 8 = 0 ∧ 32 ≤ c.len := by
  induction bs generalizing b with
  | nil => exact h
  | cons d ds ih =>
      rw [coalesceFrom]
      split
      · refine ih fun c hc => ?_
        rcases List.mem_cons.1 hc with rfl | hc'
        · have h1 := h b (by simp)
          have h2 := h d (by simp)
          simp only
          omega
        · exact h c (by simp [hc'])
      · intro c hc
        rcases List.mem_cons.1 hc with rfl | hc'
        · exact h c (by simp)
        · exact ih (fun e he => h e (List.mem_cons_of_mem _ he)) c hc'

theorem defrag (h : a.Inv b0) : a.defrag.Inv b0 := by
  have hpos : ∀ c ∈ a.spans, 0 < c.len := fun c hc => by
    have := h.block c hc
    omega
  have hfree : ∀ c ∈ coalesce a.free, c.start % 8 = 0 ∧ c.len % 8 = 0 ∧ 32 ≤ c.len := by
    cases hf : a.free with
    | nil => simp [coalesce]
    | cons b bs =>
        refine coalesceFrom_block fun c hc => h.block c (mem_free ?_)
        rw [hf]
        exact hc
  refine ⟨h.base_pos, h.base_aligned, h.brk_lt, h.tiled.coalesce hpos, ?_, h.fits, ?_,
    h.allocSorted⟩
  · intro c hc
    rcases List.mem_append.1 hc with hc' | hc'
    · exact hfree c hc'
    · exact h.block c (List.mem_append_right _ hc')
  · have hsep := separated_coalesce h.ascending
    refine hsep.sorted.imp fun hbc => ?_
    omega

end Inv

end Layout

end MemoryManagement.Malloc
