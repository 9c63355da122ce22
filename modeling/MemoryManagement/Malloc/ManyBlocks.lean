import MemoryManagement.Malloc.Session

/-!
# Heaps of many blocks

The two list sizes and the counts of `heap_info` are `int`s, and nothing in `malloc.c` keeps the number of blocks
below `2 ^ 31`. A program that asks for 16312 bytes again and again gets a chunk of four pages each time and leaves
a rest of 40 bytes in it, so after `k` requests both lists have `k` nodes (`Chunked.run`). With `2 ^ 31` allocated
blocks `heap_info` takes their number for negative, asks `sbrk` to lower the break and writes the header of a free
block below the break (`Rep.heapInfo_negative`).
-/

set_option autoImplicit false

namespace MemoryManagement.Malloc

open MemoryManagement.Library.ByteMemory
open MemoryManagement.Library.Tiling

/-! ## One chunk after the other -/

/-- What `k` requests for 16312 bytes leave free above `b0`. -/
def rests (b0 k : Nat) : List Span := (List.range k).map fun i => ⟨b0 + 16384 * i + 16344, 40⟩

/-- The state after `k` requests for 16312 bytes, all of them granted, over a heap that starts at `b0`. -/
structure Chunked (b0 k : Nat) (grants : Nat → Bool) (st : Session) (a : Layout) : Prop where
  inv : st.Inv b0 a
  free : a.free = rests b0 k
  count : a.alloc.length = k
  blocks : ∀ i, i < k → (⟨b0 + 16384 * i, 16344, 16312⟩ : Alloc) ∈ a.alloc
  live : ∀ i, i < k → (b0 + 16384 * i + HEADER, 16312) ∈ st.live
  current : a.brk.current = b0 + 16384 * k
  answers : a.brk.grants = grants
  asked : a.brk.requests.length = k

theorem rests_succ (b0 k : Nat) : rests b0 (k + 1) = rests b0 k ++ [⟨b0 + 16384 * k + 16344, 40⟩] := by
  rw [rests, List.range_succ, List.map_append]
  rfl

theorem mem_rests {b0 k : Nat} {b : Span} (hb : b ∈ rests b0 k) : b.start + b.len ≤ b0 + 16384 * k ∧ b.len = 40 := by
  obtain ⟨i, hi, rfl⟩ := List.mem_map.1 hb
  have hlt := List.mem_range.1 hi
  refine ⟨?_, rfl⟩
  simp only
  omega

/-- The rests are apart by the blocks between them. -/
theorem separated_rests (b0 k : Nat) : Separated (rests b0 k) := by
  constructor
  · intro b hb
    rw [(mem_rests hb).2]
    decide
  · induction k with
    | zero => exact List.Pairwise.nil
    | succ k ih =>
        rw [rests_succ, List.pairwise_append]
        refine ⟨ih, List.pairwise_singleton _ _, fun b hb c hc => ?_⟩
        rw [List.mem_singleton.1 hc]
        have hend := (mem_rests hb).1
        simp only
        omega

/-- A block behind all others goes to the end. -/
theorem insertFree_last {b : Span} {l : List Span} (h : ∀ c ∈ l, c.start ≤ b.start) : insertFree b l = l ++ [b] := by
  induction l with
  | nil => rfl
  | cons c l ih =>
      have hc := h c (by simp)
      have hrest := ih fun d hd => h d (List.mem_cons_of_mem _ hd)
      rw [insertFree, List.orderedInsert, if_neg (by omega)]
      exact congrArg (c :: ·) hrest

section Chunks

variable {b0 k : Nat} {g : Nat → Bool} {st : Session} {a : Layout}

/-- The layout after one more request. -/
theorem Chunked.layout (h : Chunked b0 k g st a) (hgrant : g k = true) (hlt : b0 + 16384 * (k + 1) < 2 ^ 64) :
    ∃ b : Break, b.current = a.brk.current + 16384 ∧ b.grants = g ∧ b.requests.length = k + 1 ∧
      a.malloc 16312 = (⟨rests b0 (k + 1), insertAlloc ⟨a.brk.current, 16344, 16312⟩ a.alloc, b⟩,
        a.brk.current + HEADER) := by
  have hrequired : required 16312 = 16344 := by decide +kernel
  have hchunk : chunk 16312 = 16384 := by decide +kernel
  have hcurrent := h.current
  have hfit : a.firstFit 16312 = none := by
    rw [Layout.firstFit, List.find?_eq_none, h.free]
    intro b hb
    rw [hrequired, (mem_rests hb).2]
    decide
  have hgranted : sbrk a.brk 16384 =
      (⟨a.brk.current + 16384, g, 16384 :: a.brk.requests⟩, a.brk.current) := by
    have hroom : (0 : Int) ≤ a.brk.current + 16384 ∧ (a.brk.current + 16384 : Int) < 2 ^ 64 := by omega
    have hsigned : toInt64 16384 = 16384 := by decide
    rw [sbrk, hsigned, h.answers, h.asked]
    exact if_pos ⟨hgrant, hroom⟩
  have hne : a.brk.current ≠ minusOne := by
    simp only [minusOne]
    omega
  have hrests : ∀ b ∈ a.free, b.start + 40 ≤ a.brk.current := by
    intro b hb
    rw [h.free] at hb
    have hend := mem_rests hb
    omega
  refine ⟨⟨a.brk.current + 16384, g, 16384 :: a.brk.requests⟩, rfl, rfl, by simp [h.asked], ?_⟩
  have hnew : (⟨a.brk.current, 16384⟩ : Span) ∉ a.free := fun hb => by
    have hend : a.brk.current + 40 ≤ a.brk.current := hrests _ hb
    omega
  have herase : (insertFree ⟨a.brk.current, 16384⟩ a.free).erase ⟨a.brk.current, 16384⟩ = a.free :=
    List.erase_orderedInsert_of_notMem hnew
  have hbehind : ∀ b ∈ a.free, b.start ≤ a.brk.current + 16344 := fun b hb => by
    have hend := hrests b hb
    omega
  have hlast : insertFree ⟨a.brk.current + 16344, 40⟩ a.free = rests b0 (k + 1) := by
    rw [insertFree_last hbehind, rests_succ, h.free, hcurrent]
  have hsplit : 16344 + HEADER ≤ 16384 := by decide
  rw [Layout.malloc, if_neg (by decide), hfit, hchunk, hgranted]
  simp only [if_neg hne, Layout.grow, hchunk, hgranted, Layout.carve, hrequired, herase]
  rw [if_pos hsplit, hlast]

/-- One request more. -/
theorem Chunked.step (h : Chunked b0 k g st a) (hgrant : g k = true) (hlt : b0 + 16384 * (k + 1) < 2 ^ 64) :
    ∃ st' a', st.step (.malloc 16312) = some st' ∧ Chunked b0 (k + 1) g st' a' := by
  obtain ⟨b, hcurrent, hanswers, hasked, hlayout⟩ := h.layout hgrant hlt
  have hsmall : 16312 < 2 ^ 62 := by decide
  obtain ⟨s', fresh, hcode, hret, e⟩ := h.inv.rep.malloc_effect h.inv.inv (a.servable_of_lt hsmall)
  have hinv := h.inv.of_returned e hret
  rw [hlayout] at hcode hinv
  have hperm := insertAlloc_perm ⟨a.brk.current, 16344, 16312⟩ a.alloc
  have hlive : handOut (a.brk.current + HEADER) 16312 st.live = (a.brk.current + HEADER, 16312) :: st.live :=
    if_neg (Nat.succ_ne_zero _)
  have hsplit : ∀ i, i < k + 1 → i < k ∨ b0 + 16384 * i = a.brk.current := by
    intro i hi
    have hcurrent := h.current
    rcases Nat.lt_or_eq_of_le (Nat.le_of_lt_succ hi) with hlt | rfl
    · exact Or.inl hlt
    · exact Or.inr hcurrent.symm
  refine ⟨_, _, ?_, hinv, rfl, ?_, fun i hi => ?_, fun i hi => ?_, ?_, hanswers, hasked⟩
  · rw [Session.step, hcode]
    rfl
  · exact hperm.length_eq.trans (congrArg (· + 1) h.count)
  · refine hperm.mem_iff.2 ?_
    rcases hsplit i hi with hlt | heq
    · exact List.mem_cons_of_mem _ (h.blocks i hlt)
    · rw [heq]
      exact List.mem_cons_self
  · simp only [hlive]
    rcases hsplit i hi with hlt | heq
    · exact List.mem_cons_of_mem _ (h.live i hlt)
    · rw [heq]
      exact List.mem_cons_self
  · rw [hcurrent, h.current, Nat.add_assoc, Nat.mul_succ]

/-- Any number of requests. -/
theorem Chunked.run {brk : Break} (h : Chunked b0 k g st a) (hreach : Reachable brk st) (n : Nat)
    (hgrant : ∀ i, i < k + n → g i = true) (hlt : b0 + 16384 * (k + n) < 2 ^ 64) :
    ∃ st' a', Chunked b0 (k + n) g st' a' ∧ Reachable brk st' := by
  induction n with
  | zero => exact ⟨st, a, h, hreach⟩
  | succ n ih =>
      obtain ⟨st₁, a₁, h₁, hreach₁⟩ := ih (fun i hi => hgrant i (by omega)) (by omega)
      obtain ⟨st', a', hstep, h'⟩ := h₁.step (hgrant _ (by omega)) (by omega)
      have hlegal : st₁.Legal (.malloc 16312) := (by decide : 16312 < 2 ^ 62)
      exact ⟨st', a', h', hreach₁.step hlegal hstep⟩

end Chunks

/-- After any number of requests that are granted, both lists have that many nodes. -/
theorem exists_chunked {b0 : Nat} {g : Nat → Bool} (hbrk : HeapStart ⟨b0, g, []⟩) (m : Mem) (k : Nat)
    (hgrant : ∀ i, i < k → g i = true) (hlt : b0 + 16384 * k < 2 ^ 64) :
    ∃ st a, Chunked b0 k g st a ∧ Reachable ⟨b0, g, []⟩ st := by
  have hstart : Chunked b0 0 g (Session.start m ⟨b0, g, []⟩) ⟨[], [], ⟨b0, g, []⟩⟩ :=
    ⟨Session.Inv.init hbrk m, rfl, rfl, fun _ hi => absurd hi (Nat.not_lt_zero _),
      fun _ hi => absurd hi (Nat.not_lt_zero _), rfl, rfl, rfl⟩
  have hrun := hstart.run (Reachable.start m) k
  rw [Nat.zero_add] at hrun
  exact hrun hgrant hlt

/-! ## A negative count -/

theorem Separate.cons {p : Nat} {xs : List Nat} (h : Separate xs) (hpos : 0 < p) (hlt : p < 2 ^ 64)
    (hap : ∀ x ∈ xs, p + 32 ≤ x ∨ x + 32 ≤ p) (hlen : (p :: xs).length < loopBound) : Separate (p :: xs) := by
  refine ⟨List.pairwise_cons.2 ⟨hap, h.apart⟩, fun x hx => ?_, fun x hx => ?_, hlen⟩
  · rcases List.mem_cons.1 hx with rfl | hx
    · exact hpos
    · exact h.pos x hx
  · rcases List.mem_cons.1 hx with rfl | hx
    · exact hlt
    · exact h.lt x hx

/-- The address at which the rest of a negative chunk goes. -/
def restAt (a : Layout) : Nat := a.brk.current - (2 ^ 34 - 32)

theorem restAt_add {a : Layout} (hlow : 2 ^ 34 ≤ a.brk.current) : restAt a + (2 ^ 34 - 32) = a.brk.current := by
  unfold restAt
  omega

/-- What `heap_info` asks for when it counts `2 ^ 31` blocks. -/
abbrev negativeSize : Nat := 2 ^ 64 - 2 ^ 34

section Negative

variable {b0 : Nat} {s : Heap} {a : Layout} {c : Alloc}

/-- The headers of the chunk and of its rest are apart from the others, although the rest lies in the payload of `c`. -/
theorem Layout.Inv.separate_rest (hinv : a.Inv b0) (hlow : 2 ^ 34 ≤ a.brk.current) (hhigh : a.brk.current < 2 ^ 63)
    (hc : c ∈ a.alloc) (hin : c.addr + 32 ≤ restAt a ∧ restAt a + 32 ≤ c.addr + c.size) :
    Separate (a.brk.current :: restAt a :: a.nodes) := by
  have hlength := hinv.tiled.length_mul_le (d := 32) fun b hb => (hinv.block b hb).2.2
  have hrest := restAt_add hlow
  have hnodes : a.nodes.length = a.spans.length := List.length_map ..
  have hbelow : ∀ x ∈ a.nodes, x + 32 ≤ a.brk.current := by
    intro x hx
    obtain ⟨b, hb, rfl⟩ := List.mem_map.1 hx
    have hend := (hinv.bounds hb).2.1
    have hlen := (hinv.block b hb).2.2
    omega
  have hpayload : ∀ x ∈ a.nodes, restAt a + 32 ≤ x ∨ x + 32 ≤ restAt a := by
    intro x hx
    have hcm := Layout.Inv.mem_alloc hc
    have hfirst := hinv.payload_outside (x := restAt a) hcm hin.1 (by simp only [Alloc.span]; omega) x hx
    have hlast := hinv.payload_outside (x := restAt a + 31) hcm (by simp only [Alloc.span]; omega)
      (by simp only [Alloc.span]; omega) x hx
    omega
  have hcount : a.nodes.length + 2 < loopBound := by
    unfold loopBound
    omega
  have hpos := hinv.base_pos
  have hrestPos : 0 < restAt a := by omega
  have hrestLt : restAt a < 2 ^ 64 := by omega
  have hone : Separate (restAt a :: a.nodes) := by
    refine hinv.separate.cons hrestPos hrestLt hpayload ?_
    simp only [List.length_cons]
    omega
  refine hone.cons (by omega) hinv.brk_lt (fun x hx => ?_) ?_
  · rcases List.mem_cons.1 hx with hx | hx
    · rw [hx]
      omega
    · exact Or.inr (hbelow x hx)
  · simp only [List.length_cons]
    omega

/-- A request of `2 ^ 64 - 2 ^ 34` bytes that `sbrk` grants: the break goes down, and the block that is returned starts
at the old one. The rest of it lies below. -/
theorem Rep.malloc_negative (h : Rep s a) (hinv : a.Inv b0) (hlow : 2 ^ 34 ≤ a.brk.current)
    (hhigh : a.brk.current < 2 ^ 63) (hc : c ∈ a.alloc)
    (hin : c.addr + 32 ≤ restAt a ∧ restAt a + 32 ≤ c.addr + c.size)
    (hgrant : a.brk.grants a.brk.requests.length = true) :
    ∃ s' b, b.grants = a.brk.grants ∧ b.requests.length = a.brk.requests.length + 1 ∧
      Malloc.malloc s negativeSize = some (s', a.brk.current + HEADER) ∧
      Rep s' ⟨Malloc.insertFree ⟨restAt a, 16352⟩ a.free,
        Malloc.insertAlloc ⟨a.brk.current, negativeSize + 32, negativeSize⟩ a.alloc, b⟩ := by
  have hrequired : required negativeSize = negativeSize + 32 := by decide +kernel
  have hchunk : chunk negativeSize = negativeSize + 16384 := by decide +kernel
  have hsep := hinv.separate_rest hlow hhigh hc hin
  have hsmall : ∀ b ∈ a.free, b.len < 2 ^ 63 := by
    intro b hb
    have hend := (hinv.bounds (Layout.Inv.mem_free hb)).2.1
    omega
  obtain ⟨b, hb⟩ : ∃ b, b = (⟨a.brk.current - (2 ^ 34 - 16384), a.brk.grants,
    (negativeSize + 16384) :: a.brk.requests⟩ : Break) := ⟨_, rfl⟩
  have hgranted : sbrk a.brk (negativeSize + 16384) = (b, a.brk.current) := by
    have hsigned : toInt64 (negativeSize + 16384) = -(2 ^ 34 - 16384) := by decide
    have hroom : (0 : Int) ≤ a.brk.current + -(2 ^ 34 - 16384) ∧
        (a.brk.current + -(2 ^ 34 - 16384) : Int) < 2 ^ 64 := by omega
    have hdown : (a.brk.current + -(2 ^ 34 - 16384) : Int).toNat = a.brk.current - (2 ^ 34 - 16384) := by omega
    rw [sbrk, hsigned, hb, ← hdown]
    exact if_pos ⟨hgrant, hroom⟩
  have hne : a.brk.current ≠ minusOne := by
    simp only [minusOne]
    omega
  -- nothing that is free is as large
  have hnone : (a.free.find? fun c => negativeSize + 32 ≤ c.len) = none := by
    rw [List.find?_eq_none]
    intro c hc
    have hlen := hsmall c hc
    rw [decide_eq_true_iff]
    simp only [negativeSize]
    omega
  obtain ⟨s₀, hs₀⟩ : ∃ s₀, s₀ = { s with brk := b } := ⟨_, rfl⟩
  have hrep₀ : Rep s₀ { a with brk := b } := by
    rw [hs₀]
    exact ⟨h.freeList, h.allocList, h.freeSize, h.allocSize, h.allocBytes, rfl⟩
  have hsepChunk : Separate (a.brk.current :: a.nodes) := hsep.sublist ((List.sublist_cons_self _ _).cons_cons _)
  obtain ⟨s₁, hcode₁, hrep₁, -⟩ := hrep₀.insertFree a.brk.current (negativeSize + 16384) hsepChunk (by decide)
  have hnodes₁ := (Layout.perm_insertFree ⟨a.brk.current, negativeSize + 16384⟩ a.free (a.alloc.map Alloc.span)).map
    Span.start
  have hsep₁ := hsepChunk.perm hnodes₁.symm
  have hchunkMem : (⟨a.brk.current, negativeSize + 16384⟩ : Span) ∈
      Malloc.insertFree ⟨a.brk.current, negativeSize + 16384⟩ a.free := (insertFree_perm _ _).mem_iff.2 (by simp)
  have hlen₁ : (Malloc.insertFree ⟨a.brk.current, negativeSize + 16384⟩ a.free).length < loopBound := by
    have hlength := hsep₁.length_lt
    rw [List.length_map, List.length_append] at hlength
    omega
  have hsearch : Malloc.searchFree s₁ (negativeSize + 32) = some a.brk.current := by
    rw [hrep₁.searchFree hlen₁]
    have hfirst : ((Malloc.insertFree ⟨a.brk.current, negativeSize + 16384⟩ a.free).find? fun c =>
        negativeSize + 32 ≤ c.len) = some ⟨a.brk.current, negativeSize + 16384⟩ :=
      find?_orderedInsert (decide_eq_true (by decide : negativeSize + 32 ≤ negativeSize + 16384)) hnone
    rw [hfirst]
    rfl
  have herase : (Malloc.insertFree ⟨a.brk.current, negativeSize + 16384⟩ a.free).erase
      ⟨a.brk.current, negativeSize + 16384⟩ = a.free := by
    refine List.erase_orderedInsert_of_notMem fun hmem => ?_
    have hlen := hsmall _ hmem
    simp only [negativeSize] at hlen
    omega
  -- the chunk leaves the free list, its rest joins it, and the chunk goes to the alloc list
  obtain ⟨hrep₂, -⟩ := hrep₁.removeFree hsep₁ hchunkMem
  rw [herase] at hrep₂
  obtain ⟨s₃, hcode₃, hrep₃, -⟩ := hrep₂.insertFree (restAt a) 16352 (hsep.sublist (List.sublist_cons_self _ _))
    (by decide)
  have hnodes₃ := (Layout.perm_insertFree ⟨restAt a, 16352⟩ a.free (a.alloc.map Alloc.span)).map Span.start
  obtain ⟨s₄, hcode₄, hrep₄, -⟩ := hrep₃.insertAlloc a.brk.current (negativeSize + 32) negativeSize
    (hsep.perm (hnodes₃.symm.cons _)) (by decide) (by decide)
  have hsize : field s₁.mem a.brk.current .size = negativeSize + 16384 := hrep₁.freeSize _ hchunkMem
  have hrestSize : sub64 (negativeSize + 16384) (negativeSize + 32) = 16352 := by decide +kernel
  have hrestAt : add64 a.brk.current (negativeSize + 32) = restAt a := by
    have hrest := restAt_add hlow
    simp only [add64, negativeSize]
    omega
  have hpayload : add64 a.brk.current HEADER = a.brk.current + HEADER :=
    add64_of_lt (by simp only [HEADER]; omega)
  have hcarve : Malloc.carve s₁ a.brk.current (negativeSize + 32) negativeSize = some (s₄, a.brk.current + HEADER) := by
    rw [← hpayload]
    refine carve_of_split ?_ ?_ hcode₄
    · rw [hsize, hrestSize]
      decide
    · rw [hsize, hrestSize, hrestAt]
      exact hcode₃
  have hfirst : Malloc.searchFree s (negativeSize + 32) = some NULL := by
    rw [h.searchFree (Layout.free_length_lt hinv), hnone]
    rfl
  refine ⟨s₄, b, by rw [hb], by rw [hb]; rfl, ?_, hrep₄⟩
  rw [malloc_eq, if_neg (by decide), hrequired, hchunk, hfirst, h.brk, hgranted]
  simp only [if_true, if_neg hne]
  rw [← hs₀, hcode₁]
  simp only [hsearch]
  rw [hcarve]

/-- A `heap_info` over `2 ^ 31` allocated blocks whose first array is granted and whose second one is refused: the
rest of the first array has joined the free list, and lies in the payload of `c`. -/
theorem Rep.heapInfo_negative (h : Rep s a) (hinv : a.Inv b0) (hcount : a.alloc.length = 2 ^ 31)
    (hlow : 2 ^ 34 ≤ a.brk.current) (hhigh : a.brk.current < 2 ^ 63) (hc : c ∈ a.alloc)
    (hin : c.addr + 32 ≤ restAt a ∧ restAt a + 32 ≤ c.addr + c.size)
    (hgrant : a.brk.grants a.brk.requests.length = true)
    (hrefuse : a.brk.grants (a.brk.requests.length + 1) = false) (info : HeapInfoStruct) :
    ∃ s' info' b, heapInfo s info = some (s', info', -1) ∧
      Rep s' ⟨Malloc.insertFree ⟨restAt a, 16352⟩ a.free,
        Malloc.insertAlloc ⟨a.brk.current, negativeSize + 32, negativeSize⟩ a.alloc, b⟩ := by
  obtain ⟨s₁, b, hanswers, hasked, hcode, hrep⟩ := h.malloc_negative hinv hlow hhigh hc hin hgrant
  have hrequired : required negativeSize = negativeSize + 32 := by decide +kernel
  have hstats := freeStats_spec 0 0 h.freeList.segment h.freeList.nonnull h.freeSize (Layout.free_length_lt hinv)
  rw [← h.freeList.head] at hstats
  have hnum : s.allocList.size = -(2 ^ 31) := by
    rw [h.allocList.size, List.length_map, hcount]
    decide
  have hbytes : arraySize (-(2 ^ 31)) = negativeSize := by decide +kernel
  have hperm := insertFree_perm ⟨restAt a, 16352⟩ a.free
  have hlength : (Malloc.insertFree ⟨restAt a, 16352⟩ a.free).length < loopBound := by
    have hsep := (hinv.separate_rest hlow hhigh hc hin).length_lt
    rw [Layout.nodes, Layout.spans] at hsep
    simp only [List.length_cons, List.length_map, List.length_append] at hsep
    rw [hperm.length_eq, List.length_cons]
    omega
  -- nothing has room for the second array, and `sbrk` refuses
  have hsearch : Malloc.searchFree s₁ (negativeSize + 32) = some NULL := by
    rw [hrep.searchFree hlength, List.find?_eq_none.2]
    · rfl
    intro d hd
    rw [decide_eq_true_iff]
    rcases List.mem_cons.1 (hperm.mem_iff.1 hd) with hd | hd
    · have hlen : d.len = 16352 := by rw [hd]
      rw [hlen]
      decide
    · simp only [negativeSize]
      have hend := (hinv.bounds (Layout.Inv.mem_free hd)).2.1
      omega
  have hrefused : ∀ n, (sbrk b n).2 = minusOne := by
    intro n
    rw [sbrk, hanswers, hasked, hrefuse]
    rfl
  have hcode₂ : Malloc.malloc s₁ negativeSize = some ({ s₁ with brk := (sbrk b (chunk negativeSize)).1 }, NULL) := by
    rw [malloc_eq, if_neg (by decide), hrequired, hsearch]
    simp only [if_true, hrep.brk, hrefused]
  have hne : a.brk.current + HEADER ≠ NULL := Nat.succ_ne_zero _
  obtain ⟨s₂, hs₂⟩ : ∃ s₂, s₂ = { s₁ with brk := (sbrk b (chunk negativeSize)).1 } := ⟨_, rfl⟩
  have hrep₂ : Rep s₂ ⟨Malloc.insertFree ⟨restAt a, 16352⟩ a.free,
      Malloc.insertAlloc ⟨a.brk.current, negativeSize + 32, negativeSize⟩ a.alloc, s₂.brk⟩ := by
    rw [hs₂]
    exact ⟨hrep.freeList, hrep.allocList, hrep.freeSize, hrep.allocSize, hrep.allocBytes, rfl⟩
  have hrun : (heapInfo s info).map (fun r => (r.1, r.2.2)) = some (s₂, -1) := by
    rw [heapInfo]
    simp only [hstats, hnum, hbytes]
    rw [if_neg (by decide), hcode]
    simp only [if_neg hne, hcode₂, if_true, Option.map_some, hs₂]
  obtain ⟨⟨s', info', r⟩, hcode', hpair⟩ := Option.map_eq_some_iff.1 hrun
  obtain ⟨rfl, rfl⟩ := Prod.mk.inj hpair
  exact ⟨s', info', _, hcode', hrep₂⟩

/-- A reachable heap of `2 ^ 31` allocated blocks and an allocation in it, where the program has stored `v` at its
start. There `heap_info` puts a free block. -/
theorem exists_negative (v : UInt8) : ∃ (brk : Break) (st : Session) (a : Layout) (i : Nat), HeapStart brk ∧
    Reachable brk st ∧ (i + HEADER, 16312) ∈ st.live ∧ ⟨i, 16344, 16312⟩ ∈ a.alloc ∧
    st.heap.mem (i + HEADER) = v ∧ ∀ info, ∃ s' info' b, heapInfo st.heap info = some (s', info', -1) ∧
      Rep s' ⟨Malloc.insertFree ⟨i + HEADER, 16352⟩ a.free,
        Malloc.insertAlloc ⟨a.brk.current, negativeSize + 32, negativeSize⟩ a.alloc, b⟩ := by
  have hbrk : HeapStart ⟨0x103000, fun i => i < 2 ^ 31 + 1, []⟩ := ⟨by decide, by decide, by decide⟩
  obtain ⟨st, a, h, hreach⟩ := exists_chunked hbrk (fun _ => 0) (2 ^ 31)
    (fun i hi => decide_eq_true (Nat.lt_succ_of_lt hi)) (by decide)
  obtain ⟨i, hi⟩ : ∃ i, i = 2 ^ 31 - 2 ^ 20 := ⟨_, rfl⟩
  have hcurrent := h.current
  have hrest := restAt_add (a := a) (by omega)
  have hlive := h.live i (by omega)
  have hblock := h.blocks i (by omega)
  have hat : restAt a = 0x103000 + 16384 * i + HEADER := by
    simp only [HEADER]
    omega
  have hin : 0x103000 + 16384 * i + 32 ≤ restAt a ∧ restAt a + 32 ≤ 0x103000 + 16384 * i + 16344 := by
    simp only [HEADER] at hat
    omega
  have hwritable : ∃ e ∈ st.live, InRange e.1 e.2 (0x103000 + 16384 * i + HEADER) :=
    ⟨_, hlive, Nat.le_refl _, Nat.lt_add_of_pos_right (Nat.succ_pos 16311)⟩
  obtain ⟨hinv, -⟩ := h.inv.write hwritable v
  have hlegal : st.Legal (.write (0x103000 + 16384 * i + HEADER) v) := hwritable
  refine ⟨_, _, a, 0x103000 + 16384 * i, hbrk, hreach.step hlegal rfl, hlive, hblock, Function.update_self .., ?_⟩
  intro info
  obtain ⟨s', info', b, hcode, hrep⟩ := hinv.rep.heapInfo_negative hinv.inv h.count (by omega) (by omega) hblock hin
    (by rw [h.answers, h.asked]; decide) (by rw [h.answers, h.asked]; decide) info
  simp only [hat] at hrep
  exact ⟨s', info', b, hcode, hrep⟩

end Negative

end MemoryManagement.Malloc
