import MemoryManagement.Malloc.Refine

/-!
# The allocator calls refine the layout

One theorem for each entry point of `malloc.c`. From a state that holds an invariant layout the call
ends, the new state holds the layout that the abstract operation gives, the returned pointer is the
abstract one, and the memory outside the headers of the new layout is untouched, except for the
payload bytes the call is asked to write.
-/

set_option autoImplicit false

namespace MemoryManagement.Malloc

open MemoryManagement.Library.ByteMemory
open MemoryManagement.Library.DoublyLinked
open MemoryManagement.Library.Tiling

/-! ## Machine arithmetic without overflow -/

theorem add64_of_lt {a b : Nat} (h : a + b < 2 ^ 64) : add64 a b = a + b := by
  rw [add64, Nat.mod_eq_of_lt h]

theorem sub64_of_le {a b : Nat} (h : b ≤ a) (ha : a < 2 ^ 64) : sub64 a b = a - b := by
  simp only [sub64]
  omega

/-! ## First fit -/

theorem searchFreeFrom_spec {m : Mem} {size : Nat} {p : Nat} {bs : List Span} {fuel : Nat}
    (hseg : Segment (field m · .prev) (field m · .next) p (bs.map Span.start) NULL)
    (hnull : NULL ∉ bs.map Span.start) (hsize : ∀ b ∈ bs, field m b.start .size = b.len)
    (hfuel : bs.length < fuel) :
    searchFreeFrom m size fuel ((bs.map Span.start).headD NULL) =
      some (((bs.find? fun b => size ≤ b.len).map Span.start).getD NULL) := by
  induction bs generalizing p fuel with
  | nil =>
      obtain ⟨k, rfl⟩ : ∃ k, fuel = k + 1 := ⟨fuel - 1, by simp at hfuel; omega⟩
      rfl
  | cons b bs ih =>
      obtain ⟨k, rfl⟩ : ∃ k, fuel = k + 1 := ⟨fuel - 1, by simp at hfuel; omega⟩
      obtain ⟨-, hnext, hseg'⟩ := hseg
      have hb : b.start ≠ NULL := fun e => hnull (by simp [e])
      rw [List.map_cons, List.headD_cons, searchFreeFrom, if_neg hb, hsize b (by simp), List.find?_cons]
      by_cases hfit : size ≤ b.len
      · simp [hfit]
      · have hk : bs.length < k := by
          simp at hfuel
          omega
        have key := ih hseg' (fun e => hnull (by simp only [List.map_cons, List.mem_cons]; exact Or.inr e))
          (fun c hc => hsize c (by simp [hc])) hk
        simp only [hfit, if_false, decide_false, hnext]
        exact key

/-- `search_free` is first fit. -/
theorem Rep.searchFree {s : Heap} {a : Layout} (h : Rep s a) (hlen : a.free.length < loopBound)
    (size : Nat) :
    searchFree s size = some (((a.free.find? fun b => size ≤ b.len).map Span.start).getD NULL) := by
  rw [Malloc.searchFree, h.freeList.head]
  exact searchFreeFrom_spec h.freeList.segment h.freeList.nonnull h.freeSize hlen

/-- A block that fits, inserted where nothing fits, is the first fit. -/
theorem find?_orderedInsert {α : Type} {r : α → α → Prop} [DecidableRel r] {p : α → Bool} {c : α}
    {l : List α} (hc : p c = true) (hl : l.find? p = none) :
    (l.orderedInsert r c).find? p = some c := by
  induction l with
  | nil => simp [hc]
  | cons b l ih =>
      obtain ⟨hb, hl'⟩ : p b = false ∧ l.find? p = none := by
        rw [List.find?_cons] at hl
        cases hpb : p b with
        | true => simp [hpb] at hl
        | false => exact ⟨rfl, by simpa [hpb] using hl⟩
      rw [List.orderedInsert]
      split
      · simp [hc]
      · rw [List.find?_cons, hb]
        exact ih hl'

namespace Layout

theorem free_length_lt {b0 : Nat} {a : Layout} (h : a.Inv b0) : a.free.length < loopBound := by
  have h1 := h.separate.length_lt
  rw [nodes_eq, List.length_append, List.length_map] at h1
  omega

theorem alloc_length_lt {b0 : Nat} {a : Layout} (h : a.Inv b0) : a.alloc.length < loopBound := by
  have h1 := h.separate.length_lt
  rw [nodes_eq, List.length_append, List.length_map, List.length_map] at h1
  omega

end Layout

section Calls

variable {b0 : Nat} {s : Heap} {a : Layout}

/-! ## `malloc` -/

theorem carve_of_split {s s₁ s₂ : Heap} {p r n : Nat}
    (hroom : HEADER ≤ sub64 (field s.mem p .size) r)
    (hfree : appendListOrdered (removeList s p true) (add64 p r) (sub64 (field s.mem p .size) r) 0 true =
      some s₁)
    (halloc : appendListOrdered s₁ p r n false = some s₂) :
    carve s p r n = some (s₂, add64 p HEADER) := by
  simp only [Malloc.carve, if_pos hroom]
  rw [hfree]
  simp only
  rw [halloc]

theorem carve_of_whole {s s₁ : Heap} {p r n : Nat}
    (hroom : ¬ HEADER ≤ sub64 (field s.mem p .size) r)
    (halloc : appendListOrdered (removeList s p true) p (field s.mem p .size) n false = some s₁) :
    carve s p r n = some (s₁, add64 p HEADER) := by
  simp only [Malloc.carve, if_neg hroom]
  rw [halloc]

/-- The headers of a layout after an allocation that cuts a block. -/
theorem Layout.carve_nodes_split (a : Layout) {b : Span} {n : Nat}
    (hfit : required n + HEADER ≤ b.len) :
    (a.carve b n).nodes.Perm
      (b.start :: (b.start + required n) :: (a.free.erase b ++ a.alloc.map Alloc.span).map Span.start) :=
  (a.carve_spans_split hfit).map Span.start

theorem Layout.carve_nodes_whole (a : Layout) {b : Span} {n : Nat}
    (hfit : ¬ required n + HEADER ≤ b.len) :
    (a.carve b n).nodes.Perm (b.start :: (a.free.erase b ++ a.alloc.map Alloc.span).map Span.start) :=
  (a.carve_spans_whole hfit).map Span.start

/-- Allocation never drops a header. -/
theorem Layout.mem_nodes_carve {b : Span} (hb : b ∈ a.free) {n p : Nat} (hp : p ∈ a.nodes) :
    p ∈ (a.carve b n).nodes := by
  have hp' := ((Layout.spans_perm_erase_free hb).map Span.start).mem_iff.1 hp
  rw [List.map_cons] at hp'
  by_cases hfit : required n + HEADER ≤ b.len
  · refine (a.carve_nodes_split hfit).mem_iff.2 ?_
    rcases List.mem_cons.1 hp' with h | h
    · exact List.mem_cons.2 (Or.inl h)
    · exact List.mem_cons_of_mem _ (List.mem_cons_of_mem _ h)
  · exact (a.carve_nodes_whole hfit).mem_iff.2 hp'

theorem Rep.carve (h : Rep s a) (hinv : a.Inv b0) {b : Span} {n : Nat} (hb : b ∈ a.free)
    (hn : Sized n) (hfit : required n ≤ b.len) :
    ∃ s', carve s b.start (required n) n = some (s', b.start + HEADER) ∧ Rep s' (a.carve b n) ∧
      HeadersOnly s.mem s'.mem (a.carve b n).nodes := by
  have hinv' := hinv.carve hb hn hfit
  have hbounds := hinv.bounds (Layout.Inv.mem_free hb)
  have hreq := required_bounds hn
  obtain ⟨hrem, hlinks⟩ := h.removeFree hinv.separate hb
  have hsize : field s.mem b.start .size = b.len := h.freeSize b hb
  have hsub : sub64 b.len (required n) = b.len - required n := sub64_of_le hfit (by omega)
  have hpay : add64 b.start HEADER = b.start + HEADER := by
    exact add64_of_lt (by simp only [HEADER]; omega)
  have hold : HeadersOnly s.mem (removeList s b.start true).mem (a.carve b n).nodes :=
    hlinks.headersOnly.mono fun p hp => Layout.mem_nodes_carve hb (Layout.mem_nodes_free hp)
  -- the rest of the block is split off only if a header fits into it
  by_cases hsplit : required n + HEADER ≤ b.len
  · have hperm := a.carve_nodes_split hsplit
    have hsep := hinv'.separate.perm hperm
    have hpart : add64 b.start (required n) = b.start + required n := add64_of_lt (by omega)
    have hroom : HEADER ≤ b.len - required n := by omega
    obtain ⟨s₁, hcode₁, hrep₁, hhead₁⟩ := hrem.insertFree _ (b.len - required n)
      (hsep.sublist (List.sublist_cons_self _ _)) (by omega)
    have hperm₂ := (Layout.perm_insertFree ⟨b.start + required n, b.len - required n⟩
      (a.free.erase b) (a.alloc.map Alloc.span)).map Span.start
    have hsep₂ := hsep.perm (hperm₂.symm.cons b.start)
    obtain ⟨s₂, hcode₂, hrep₂, hhead₂⟩ := hrep₁.insertAlloc _ (required n) n hsep₂
      (by omega) (by omega)
    refine ⟨s₂, ?_, ?_, ?_⟩
    · rw [← hpay]
      refine carve_of_split ?_ ?_ hcode₂
      · rw [hsize, hsub]
        exact hroom
      · rw [hsize, hsub, hpart]
        exact hcode₁
    · rw [Layout.carve, if_pos hsplit]
      exact hrep₂
    · refine (hold.trans (hhead₁.mono fun p hp => ?_)).trans (hhead₂.mono fun p hp => ?_)
      · exact hperm.mem_iff.2 (List.mem_cons_of_mem _ hp)
      · exact hperm.mem_iff.2 ((hperm₂.cons b.start).mem_iff.1 hp)
  · have hperm := a.carve_nodes_whole hsplit
    have hsep := hinv'.separate.perm hperm
    -- the block is handed out whole, so it keeps its old size
    have hroom : ¬ HEADER ≤ b.len - required n := by omega
    obtain ⟨s₁, hcode₁, hrep₁, hhead₁⟩ := hrem.insertAlloc _ b.len n hsep (by omega)
      (by omega)
    refine ⟨s₁, ?_, ?_, ?_⟩
    · rw [← hpay]
      refine carve_of_whole ?_ ?_
      · rw [hsize, hsub]
        exact hroom
      · rw [hsize]
        exact hcode₁
    · rw [Layout.carve, if_neg hsplit]
      exact hrep₁
    · exact hold.trans (hhead₁.mono fun p hp => hperm.mem_iff.2 hp)

/-- `malloc` with its sizes named. -/
theorem malloc_eq (s : Heap) (n : Nat) :
    malloc s n =
      if n = 0 then some (s, NULL)
      else
        match searchFree s (required n) with
        | none => none
        | some p =>
            if p = NULL then
              if (sbrk s.brk (chunk n)).2 = minusOne then
                some ({ s with brk := (sbrk s.brk (chunk n)).1 }, NULL)
              else
                match appendListOrdered { s with brk := (sbrk s.brk (chunk n)).1 }
                    (sbrk s.brk (chunk n)).2 (chunk n) 0 true with
                | none => none
                | some s =>
                    match searchFree s (required n) with
                    | none => none
                    | some p => carve s p (required n) n
            else carve s p (required n) n := by
  unfold malloc chunk required
  rfl

/-- The first free block with room, as the search loop finds it. -/
theorem Layout.firstFit_mem {b : Span} {n : Nat} (h : a.firstFit n = some b) :
    b ∈ a.free ∧ required n ≤ b.len := by
  have h1 := List.find?_some h
  exact ⟨List.mem_of_find?_eq_some h, by simpa using h1⟩

theorem Layout.grow_firstFit {n : Nat} (hchunk : required n ≤ chunk n) (h : a.firstFit n = none) :
    (a.grow n).firstFit n = some ⟨a.brk.current, chunk n⟩ := by
  refine find?_orderedInsert ?_ h
  simpa using hchunk

/-- A request that `malloc` can handle: its size fits 64 bits, and so does the increment if the heap
has to grow; or it is refused. -/
def Layout.Servable (a : Layout) (n : Nat) : Prop :=
  (a.firstFit n = none ∧ (sbrk a.brk (chunk n)).2 = minusOne) ∨
  (Sized n ∧ (a.firstFit n = none → Growable n))

theorem Layout.servable_of_lt (a : Layout) {n : Nat} (h : n < 2 ^ 62) : a.Servable n :=
  Or.inr ⟨sized_of_lt h, fun _ => growable_of_lt h⟩

theorem Layout.Servable.of_fit {n : Nat} {b : Span} (h : a.Servable n) (hfit : a.firstFit n = some b) :
    Sized n := by
  rcases h with ⟨hnone, -⟩ | ⟨hn, -⟩
  · rw [hfit] at hnone
    cases hnone
  · exact hn

theorem Layout.Servable.of_grow {n : Nat} (h : a.Servable n) (hfit : a.firstFit n = none)
    (hok : (sbrk a.brk (chunk n)).2 ≠ minusOne) : Sized n ∧ Growable n := by
  rcases h with ⟨-, hrefused⟩ | ⟨hn, hg⟩
  · exact absurd hrefused hok
  · exact ⟨hn, hg hfit⟩

theorem Layout.Inv.malloc (hinv : a.Inv b0) {n : Nat} (hn : a.Servable n) :
    (a.malloc n).1.Inv b0 := by
  rw [Layout.malloc]
  split
  · exact hinv
  · cases hfit : a.firstFit n with
    | some b =>
        obtain ⟨hb, hlen⟩ := Layout.firstFit_mem hfit
        exact hinv.carve hb (hn.of_fit hfit) hlen
    | none =>
        by_cases hok : (sbrk a.brk (chunk n)).2 = minusOne
        · simp only [if_pos hok]
          have hcur := hinv.brk_of_refused hok
          exact ⟨hinv.base_pos, hinv.base_aligned, by rw [hcur]; exact hinv.brk_lt,
            by rw [hcur]; exact hinv.tiled, hinv.block, hinv.fits, hinv.freeSorted, hinv.allocSorted⟩
        · simp only [if_neg hok]
          obtain ⟨hsized, hgrow⟩ := hn.of_grow hfit hok
          obtain ⟨hchunk, hroom⟩ := chunk_bounds hsized hgrow
          obtain ⟨hb, hlen⟩ := Layout.firstFit_mem (Layout.grow_firstFit hroom hfit)
          exact (hinv.grow hchunk hok).carve hb hsized hlen

/-- A granted chunk joins the free list. -/
theorem Rep.append_chunk (h : Rep s a) (hinv : a.Inv b0) {n : Nat}
    (hchunk : chunk n % 8 = 0 ∧ 32 ≤ chunk n ∧ chunk n < 2 ^ 63)
    (hok : (sbrk a.brk (chunk n)).2 ≠ minusOne) :
    (sbrk a.brk (chunk n)).2 = a.brk.current ∧
    ∃ s₁, appendListOrdered { s with brk := (sbrk a.brk (chunk n)).1 } a.brk.current (chunk n) 0 true =
        some s₁ ∧ Rep s₁ (a.grow n) ∧ HeadersOnly s.mem s₁.mem (a.grow n).nodes := by
  have hret : (sbrk a.brk (chunk n)).2 = a.brk.current :=
    ((sbrk_cases a.brk (by omega) hchunk.2.2).resolve_left fun h => hok h.1).1
  have hgrow := hinv.grow hchunk hok
  have hperm : (a.grow n).nodes.Perm (a.brk.current :: a.nodes) :=
    (Layout.perm_insertFree _ _ _).map Span.start
  have hrep : Rep { s with brk := (sbrk a.brk (chunk n)).1 }
      { a with brk := (sbrk a.brk (chunk n)).1 } :=
    ⟨h.freeList, h.allocList, h.freeSize, h.allocSize, h.allocBytes, rfl⟩
  obtain ⟨s₁, hcode₁, hrep₁, hhead₁⟩ := hrep.insertFree a.brk.current (chunk n)
    (hgrow.separate.perm hperm) (by omega)
  exact ⟨hret, s₁, hcode₁, hrep₁, hhead₁.mono fun p hp => hperm.mem_iff.2 hp⟩

/-- `malloc` allocates as the layout does. -/
theorem Rep.malloc (h : Rep s a) (hinv : a.Inv b0) {n : Nat} (hn : a.Servable n) :
    ∃ s', malloc s n = some (s', (a.malloc n).2) ∧ Rep s' (a.malloc n).1 ∧
      HeadersOnly s.mem s'.mem (a.malloc n).1.nodes := by
  rw [malloc_eq, Layout.malloc]
  by_cases hn0 : n = 0
  · exact ⟨s, by simp only [if_pos hn0], by simpa only [if_pos hn0] using h, fun _ _ => rfl⟩
  simp only [if_neg hn0]
  rw [h.searchFree (Layout.free_length_lt hinv)]
  have hfirst : (a.free.find? fun b => required n ≤ b.len) = a.firstFit n := rfl
  rw [hfirst]
  cases hfit : a.firstFit n with
  | some b =>
      obtain ⟨hb, hlen⟩ := Layout.firstFit_mem hfit
      have hb0 : b.start ≠ NULL := Nat.ne_of_gt (hinv.bounds (Layout.Inv.mem_free hb)).1
      simp only [Option.map_some, Option.getD_some, if_neg hb0]
      exact h.carve hinv hb (hn.of_fit hfit) hlen
  | none =>
      simp only [Option.map_none, Option.getD_none, if_true]
      rw [h.brk]
      by_cases hok : (sbrk a.brk (chunk n)).2 = minusOne
      · simp only [if_pos hok]
        exact ⟨_, rfl, ⟨h.freeList, h.allocList, h.freeSize, h.allocSize, h.allocBytes, rfl⟩,
          fun _ _ => rfl⟩
      · simp only [if_neg hok]
        obtain ⟨hsized, hg⟩ := hn.of_grow hfit hok
        obtain ⟨hchunk, hroom⟩ := chunk_bounds hsized hg
        obtain ⟨hret, s₁, hcode₁, hrep₁, hhead₁⟩ := h.append_chunk hinv hchunk hok
        have hgrow := hinv.grow hchunk hok
        have hfit' := Layout.grow_firstFit hroom hfit
        obtain ⟨hb, hlen⟩ := Layout.firstFit_mem hfit'
        obtain ⟨s₂, hcode₂, hrep₂, hhead₂⟩ := hrep₁.carve hgrow hb hsized hlen
        refine ⟨s₂, ?_, hrep₂, (hhead₁.mono fun p hp => ?_).trans hhead₂⟩
        · rw [hret, hcode₁]
          simp only
          -- the second search of the list starts over
          rw [hrep₁.searchFree (Layout.free_length_lt hgrow)]
          have hfirst' : ((a.grow n).free.find? fun b => required n ≤ b.len) = (a.grow n).firstFit n :=
            rfl
          rw [hfirst', hfit']
          exact hcode₂
        · exact Layout.mem_nodes_carve hb hp

/-! ## Effects of a call -/

/-- The payload bytes of an allocated block. -/
def Alloc.Payload (b : Alloc) (x : Nat) : Prop := b.addr + HEADER ≤ x ∧ x < b.addr + b.size

/-- A call has led from `s`, which holds `a`, to `s'`, which holds the invariant layout `a'`. The
blocks `dead` have left the alloc list, the blocks `fresh` have joined it, and the payloads of all
blocks that stay are as they were. -/
structure Effect (b0 : Nat) (s : Heap) (a : Layout) (s' : Heap) (a' : Layout)
    (dead fresh : List Alloc) : Prop where
  rep : Rep s' a'
  inv : a'.Inv b0
  alloc : (fresh ++ a.alloc).Perm (dead ++ a'.alloc)
  frame : ∀ b ∈ a.alloc, b ∉ dead → ∀ x, b.Payload x → s'.mem x = s.mem x

theorem Layout.Inv.alloc_apart (hinv : a.Inv b0) {b c : Alloc} (hb : b ∈ a.alloc)
    (hc : c ∈ a.alloc) (hne : b ≠ c) : b.span.Apart c.span := by
  have hpair := (List.pairwise_append.1 hinv.apart).2.1
  exact (List.pairwise_map.1 hpair).forall hb hc hne

/-- Blocks at the same address are the same block. -/
theorem Layout.Inv.eq_of_addr (hinv : a.Inv b0) {b c : Alloc} (hb : b ∈ a.alloc)
    (hc : c ∈ a.alloc) (h : b.addr = c.addr) : b = c := by
  by_contra hne
  have hap := hinv.alloc_apart hb hc hne
  have h1 := (hinv.block b.span (Layout.Inv.mem_alloc hb)).2.2
  have h2 := (hinv.block c.span (Layout.Inv.mem_alloc hc)).2.2
  simp only [Span.Apart, Alloc.span] at hap h1 h2
  omega

theorem Layout.Inv.alloc_nodup (hinv : a.Inv b0) : a.alloc.Nodup := by
  have hpair := List.pairwise_map.1 (List.pairwise_append.1 hinv.apart).2.1
  refine hpair.imp_of_mem fun {b c} hb _ hbc e => ?_
  have h1 := (hinv.block b.span (Layout.Inv.mem_alloc hb)).2.2
  subst e
  simp only [Span.Apart] at hbc
  omega

namespace Effect

variable {s' s'' : Heap} {a' a'' : Layout} {dead dead' fresh fresh' : List Alloc}

theorem refl (h : Rep s a) (hinv : a.Inv b0) : Effect b0 s a s a [] [] :=
  ⟨h, hinv, List.Perm.refl _, fun _ _ _ _ _ => rfl⟩

/-- A block that does not die is still allocated. -/
theorem mem_alloc (e : Effect b0 s a s' a' dead fresh) {b : Alloc} (hb : b ∈ a.alloc)
    (hd : b ∉ dead) : b ∈ a'.alloc := by
  have h1 := e.alloc.mem_iff.1 (List.mem_append_right fresh hb)
  exact (List.mem_append.1 h1).resolve_left hd

/-- When no block dies, the fresh blocks are allocated afterwards. -/
theorem fresh_mem (e : Effect b0 s a s' a' [] fresh) : ∀ c ∈ fresh, c ∈ a'.alloc := fun _ hc =>
  e.alloc.mem_iff.1 (List.mem_append_left _ hc)

/-- A fresh block is none of the blocks that stay. -/
theorem fresh_ne (e : Effect b0 s a s' a' dead fresh) {b c : Alloc} (hb : b ∈ a.alloc)
    (hd : b ∉ dead) (hc : c ∈ fresh) : c ≠ b := by
  rintro rfl
  have hcount := e.alloc.count_eq c
  rw [List.count_append, List.count_append, List.count_eq_zero_of_not_mem hd] at hcount
  have h1 := List.count_pos_iff.2 hc
  have h2 := List.count_pos_iff.2 hb
  have h3 := List.nodup_iff_count_le_one.1 e.inv.alloc_nodup c
  omega

theorem trans (e : Effect b0 s a s' a' dead fresh) (e' : Effect b0 s' a' s'' a'' dead' fresh') :
    Effect b0 s a s'' a'' (dead ++ dead') (fresh' ++ fresh) := by
  refine ⟨e'.rep, e'.inv, ?_, fun b hb hd x hx => ?_⟩
  · rw [List.append_assoc, List.append_assoc]
    have h1 := e.alloc.append_left fresh'
    have h2 := e'.alloc.append_left dead
    exact h1.trans ((List.perm_append_comm_assoc _ _ _).trans h2)
  · have hd1 : b ∉ dead := fun h => hd (List.mem_append_left _ h)
    have hd2 : b ∉ dead' := fun h => hd (List.mem_append_right _ h)
    rw [e'.frame b (e.mem_alloc hb hd1) hd2 x hx]
    exact e.frame b hb hd1 x hx

/-- Bytes of fresh payloads may be written freely. -/
theorem write (e : Effect b0 s a s' a' dead fresh) {m : Mem}
    (hsub : ∀ c ∈ fresh, c ∈ a'.alloc)
    (hm : ∀ x, (∀ c ∈ fresh, ¬ c.Payload x) → m x = s'.mem x) :
    Effect b0 s a { s' with mem := m } a' dead fresh := by
  refine ⟨e.rep.congr fun p hp x hx => hm x fun c hc hcx => ?_, e.inv, e.alloc,
    fun b hb hd x hx => ?_⟩
  · exact e.inv.payload_outside (Layout.Inv.mem_alloc (hsub c hc)) hcx.1 hcx.2 p hp hx
  · rw [← e.frame b hb hd x hx]
    refine hm x fun c hc hcx => ?_
    have hap := e.inv.alloc_apart (hsub c hc) (e.mem_alloc hb hd) (e.fresh_ne hb hd hc)
    simp only [Span.Apart, Alloc.span, Alloc.Payload] at *
    omega

end Effect

/-- A layout that keeps its allocated blocks or gains one, with writes inside headers only. -/
theorem Rep.effect_of_headersOnly {s' : Heap} {a' : Layout} {fresh : List Alloc} (h : Rep s' a')
    (hinv : a'.Inv b0) (halloc : (fresh ++ a.alloc).Perm a'.alloc)
    (hm : HeadersOnly s.mem s'.mem a'.nodes) : Effect b0 s a s' a' [] fresh := by
  refine ⟨h, hinv, halloc, fun b hb _ x hx => hm x ?_⟩
  have hb' : b ∈ a'.alloc := halloc.mem_iff.1 (List.mem_append_right _ hb)
  exact hinv.payload_outside (Layout.Inv.mem_alloc hb') hx.1 hx.2

/-- What an allocation call hands out: nothing, or the payload of a fresh block for `n` bytes. -/
def Returned (n p : Nat) (fresh : List Alloc) : Prop :=
  (p = NULL ∧ fresh = []) ∨ ∃ c : Alloc, fresh = [c] ∧ p = c.addr + HEADER ∧ c.bytes = n

theorem Layout.carve_alloc (a : Layout) (b : Span) (n : Nat) :
    ∃ size, (a.carve b n).alloc = insertAlloc ⟨b.start, size, n⟩ a.alloc := by
  by_cases hfit : required n + HEADER ≤ b.len
  · exact ⟨_, by rw [Layout.carve, if_pos hfit]⟩
  · exact ⟨_, by rw [Layout.carve, if_neg hfit]⟩

/-- Allocation adds one block to the allocated blocks, or fails. -/
theorem Layout.malloc_returned (a : Layout) (n : Nat) :
    ∃ fresh, Returned n (a.malloc n).2 fresh ∧ (fresh ++ a.alloc).Perm (a.malloc n).1.alloc := by
  have hcarve : ∀ (a' : Layout) (b : Span), a'.alloc = a.alloc →
      ∃ fresh, Returned n (b.start + HEADER) fresh ∧ (fresh ++ a.alloc).Perm (a'.carve b n).alloc := by
    intro a' b ha
    obtain ⟨size, hsize⟩ := a'.carve_alloc b n
    refine ⟨[⟨b.start, size, n⟩], Or.inr ⟨_, rfl, rfl, rfl⟩, ?_⟩
    rw [hsize, ha]
    exact (insertAlloc_perm _ _).symm
  rw [Layout.malloc]
  split
  · exact ⟨[], Or.inl ⟨rfl, rfl⟩, List.Perm.refl _⟩
  · split
    · exact hcarve _ _ rfl
    · split
      · exact ⟨[], Or.inl ⟨rfl, rfl⟩, List.Perm.refl _⟩
      · exact hcarve (a.grow n) ⟨a.brk.current, chunk n⟩ rfl

/-- `malloc(n)` ends; it fails or returns the payload of a fresh block. -/
theorem Rep.malloc_effect (h : Rep s a) (hinv : a.Inv b0) {n : Nat} (hn : a.Servable n) :
    ∃ s' fresh, Malloc.malloc s n = some (s', (a.malloc n).2) ∧ Returned n (a.malloc n).2 fresh ∧
      Effect b0 s a s' (a.malloc n).1 [] fresh := by
  obtain ⟨s', hcode, hrep, hm⟩ := h.malloc hinv hn
  obtain ⟨fresh, hret, hperm⟩ := a.malloc_returned n
  exact ⟨s', fresh, hcode, hret, hrep.effect_of_headersOnly (hinv.malloc hn) hperm hm⟩

/-! ## `free` -/

/-- `free` of an allocated block moves it to the free blocks. -/
theorem Rep.free_effect (h : Rep s a) (hinv : a.Inv b0) {b : Alloc} (hb : b ∈ a.alloc) :
    ∃ s', Malloc.free s (b.addr + HEADER) = some s' ∧ Effect b0 s a s' (a.release b) [b] [] := by
  have hinv' := hinv.release hb
  have hbounds := hinv.bounds (Layout.Inv.mem_alloc hb)
  have hblock := hinv.block b.span (Layout.Inv.mem_alloc hb)
  simp only [Alloc.span] at hbounds hblock
  obtain ⟨hrem, hlinks⟩ := h.removeAlloc hinv.separate hb
  have hperm : a.nodes.Perm (b.addr :: Layout.nodes { a with alloc := a.alloc.erase b }) :=
    (Layout.spans_perm_erase_alloc hb).map Span.start
  obtain ⟨s', hcode, hrep, hm⟩ := hrem.insertFree b.addr b.size (hinv.separate.perm hperm) (by omega)
  have hentire : sub64 (b.addr + HEADER) HEADER = b.addr := by
    rw [sub64_of_le (by omega) (by simp only [HEADER]; omega), Nat.add_sub_cancel]
  have hsize : field (removeList s b.addr false).mem b.addr .size = b.size := by
    rw [hlinks.size_eq fun y hy => ?_, h.allocSize b hb]
    exact hinv.separate.apart_mem y (Layout.mem_nodes_alloc hy) b.addr
      (Layout.mem_nodes_alloc (List.mem_map_of_mem hb))
  refine ⟨s', ?_, hrep, hinv', List.perm_cons_erase hb, fun c hc _ x hx => ?_⟩
  · have hne : b.addr + HEADER ≠ NULL := Nat.succ_ne_zero _
    rw [Malloc.free, if_neg hne, hentire]
    simp only [hsize]
    exact hcode
  · have hout := hinv.payload_outside (Layout.Inv.mem_alloc hc) hx.1 hx.2
    rw [hm x fun y hy => hout y (hperm.mem_iff.2 hy)]
    exact hlinks.headersOnly x fun y hy => hout y (Layout.mem_nodes_alloc hy)

/-! ## `calloc` and `realloc` -/

/-- Writes into the payload just handed out leave the effect of an allocation as it is. -/
theorem Effect.fill {s' : Heap} {a' : Layout} {n p : Nat} {fresh : List Alloc} {m : Mem}
    (e : Effect b0 s a s' a' [] fresh) (hret : Returned n p fresh) (hp : p ≠ NULL)
    (hm : ∀ x, ¬ InRange p n x → m x = s'.mem x) :
    Effect b0 s a { s' with mem := m } a' [] fresh := by
  obtain ⟨hp', -⟩ | ⟨c, rfl, rfl, rfl⟩ := hret
  · exact absurd hp' hp
  have hc : c ∈ a'.alloc := e.alloc.mem_iff.1 (by simp)
  have hfits := (e.inv.fits c hc).1
  refine e.write (by simpa using hc) fun x hx => hm x fun hin => hx c (by simp) ⟨hin.1, ?_⟩
  omega

/-- `calloc(num, sz)` ends; it fails or returns the payload of a fresh block, filled with zeros. -/
theorem Rep.calloc_effect (h : Rep s a) (hinv : a.Inv b0) {num sz : Nat}
    (hreq : a.Servable (num * sz) ∨ 2 ^ 64 ≤ num * sz) :
    ∃ s' a' p fresh, calloc s num sz = some (s', p) ∧ Returned (num * sz) p fresh ∧
      Effect b0 s a s' a' [] fresh ∧ (p ≠ NULL → ∀ x, InRange p (num * sz) x → s'.mem x = 0) := by
  rw [calloc]
  by_cases hzero : num = 0 ∨ sz = 0
  · rw [if_pos hzero]
    exact ⟨s, a, NULL, [], rfl, Or.inl ⟨rfl, rfl⟩, Effect.refl h hinv, fun hne => absurd rfl hne⟩
  rw [if_neg hzero]
  have hnum : 0 < num := by omega
  by_cases hover : minusOne / num < sz
  · rw [if_pos hover]
    exact ⟨s, a, NULL, [], rfl, Or.inl ⟨rfl, rfl⟩, Effect.refl h hinv, fun hne => absurd rfl hne⟩
  rw [if_neg hover]
  have hmul : num * sz ≤ minusOne := by
    have := (Nat.le_div_iff_mul_le hnum).1 (Nat.le_of_not_lt hover)
    rwa [Nat.mul_comm] at this
  simp only [minusOne] at hmul
  have hserve : a.Servable (num * sz) := hreq.resolve_right (by omega)
  have hmul64 : mul64 num sz = num * sz := by
    rw [mul64, Nat.mod_eq_of_lt (by omega)]
  obtain ⟨s', fresh, hcode, hret, e⟩ := h.malloc_effect hinv hserve
  simp only [hmul64, hcode]
  by_cases hp : (a.malloc (num * sz)).2 = NULL
  · simp only [if_pos hp]
    rw [hp] at hret
    exact ⟨s', _, NULL, fresh, rfl, hret, e, fun hne => absurd rfl hne⟩
  · simp only [if_neg hp]
    refine ⟨_, _, _, fresh, rfl, hret, e.fill hret hp fun x hx => memset_of_not_inRange hx, ?_⟩
    intro _ x hx
    exact memset_of_inRange hx

/-- `realloc` after a successful allocation: the old block is freed, and the fresh one starts with the
bytes of the old payload that fit. -/
theorem Rep.realloc_success (h : Rep s a) (hinv : a.Inv b0) {b : Alloc} (hb : b ∈ a.alloc) {sz : Nat}
    (hsz : a.Servable sz) (hzero : sz ≠ 0) (hp : (a.malloc sz).2 ≠ NULL) :
    ∃ s' c, realloc s (b.addr + HEADER) sz = some (s', c.addr + HEADER) ∧
      (a.malloc sz).2 = c.addr + HEADER ∧ c.bytes = sz ∧
      c ∈ ((a.malloc sz).1.release b).alloc ∧
      Effect b0 s a s' ((a.malloc sz).1.release b) [b] [c] ∧
      ∀ i, i < sz → HEADER + i < b.size →
        s'.mem (c.addr + HEADER + i) = s.mem (b.addr + HEADER + i) := by
  have hne : b.addr + HEADER ≠ NULL := Nat.succ_ne_zero _
  obtain ⟨s₁, fresh, hcode, hret, e⟩ := h.malloc_effect hinv hsz
  obtain ⟨hnull, -⟩ | ⟨c, rfl, hc, rfl⟩ := id hret
  · exact absurd hnull hp
  have hmem := e.fresh_mem c (List.mem_singleton_self c)
  have hstay := e.mem_alloc hb List.not_mem_nil
  have hcb : c ≠ b := e.fresh_ne hb List.not_mem_nil (List.mem_singleton_self c)
  -- the copy is cut off at the new size, so it stays inside the new payload
  have hcopied : ∀ k x, ¬ InRange (a.malloc c.bytes).2 c.bytes x →
      memcpy s₁.mem (a.malloc c.bytes).2 (b.addr + HEADER) (if k < c.bytes then k else c.bytes) x =
        s₁.mem x := by
    intro k x hx
    refine memcpy_of_not_inRange fun hin => hx ⟨hin.1, ?_⟩
    have := hin.2
    split at this <;> omega
  have hcopy := e.fill hret hp (hcopied (field s₁.mem (sub64 (b.addr + HEADER) HEADER) .size))
  obtain ⟨s₂, hcode₂, e₂⟩ := hcopy.rep.free_effect hcopy.inv hstay
  refine ⟨s₂, c, ?_, hc, rfl, ?_, hcopy.trans e₂, fun i hi hsrc => ?_⟩
  · rw [realloc, if_neg hne, if_neg hzero, hcode]
    simp only [if_neg hp]
    rw [hcode₂, hc]
  · exact (List.mem_erase_of_ne hcb).2 hmem
  · -- the two blocks do not meet, so every byte is copied before it is overwritten
    have hfits := (e.inv.fits c hmem).1
    have hap := e.inv.alloc_apart hstay hmem hcb.symm
    have hbounds := e.inv.bounds (Layout.Inv.mem_alloc hstay)
    have hblock := (e.inv.block b.span (Layout.Inv.mem_alloc hstay)).2.2
    simp only [Span.Apart, Alloc.span] at hap hbounds hblock
    have hsize : field s₁.mem (sub64 (b.addr + HEADER) HEADER) .size = b.size := by
      rw [sub64_of_le (Nat.le_add_left _ _) (by simp only [HEADER]; omega), Nat.add_sub_cancel,
        e.rep.allocSize b hstay]
    have hpay : c.Payload (c.addr + HEADER + i) := ⟨Nat.le_add_right _ _, by omega⟩
    rw [e₂.frame c hmem (fun hd => hcb (List.mem_singleton.1 hd)) _ hpay]
    have hlen : i < if b.size < c.bytes then b.size else c.bytes := by split <;> omega
    have hkept : ¬ InRange (c.addr + HEADER) (if b.size < c.bytes then b.size else c.bytes)
        (b.addr + HEADER + i) := by
      rintro ⟨h1, h2⟩
      simp only [HEADER] at h1 h2 hsrc hfits
      split at h2 <;> omega
    simp only [hsize, hc]
    rw [memcpy_of_lt hlen hkept]
    exact e.frame b hb List.not_mem_nil _ ⟨Nat.le_add_right _ _, by omega⟩

/-- `realloc` of an allocated block ends. Size 0 frees the block; otherwise the call fails, with the
block still allocated, or returns the payload of a fresh block and frees the old one. -/
theorem Rep.realloc_effect (h : Rep s a) (hinv : a.Inv b0) {b : Alloc} (hb : b ∈ a.alloc) {sz : Nat}
    (hsz : a.Servable sz) :
    ∃ s' a' p fresh, realloc s (b.addr + HEADER) sz = some (s', p) ∧ Returned sz p fresh ∧
      (∀ c ∈ fresh, c ∈ a'.alloc) ∧
      Effect b0 s a s' a' (if sz ≠ 0 ∧ p = NULL then [] else [b]) fresh := by
  have hne : b.addr + HEADER ≠ NULL := Nat.succ_ne_zero _
  by_cases hzero : sz = 0
  · obtain ⟨s', hcode, e⟩ := h.free_effect hinv hb
    rw [realloc, if_neg hne, if_pos hzero, hcode]
    refine ⟨s', a.release b, NULL, [], rfl, Or.inl ⟨rfl, rfl⟩, by simp, ?_⟩
    rw [if_neg fun h => h.1 hzero]
    exact e
  by_cases hp : (a.malloc sz).2 = NULL
  · obtain ⟨s₁, fresh, hcode, hret, e⟩ := h.malloc_effect hinv hsz
    rw [realloc, if_neg hne, if_neg hzero, hcode]
    simp only [if_pos hp]
    rw [hp] at hret
    refine ⟨s₁, (a.malloc sz).1, NULL, fresh, rfl, hret, e.fresh_mem, ?_⟩
    rw [if_pos ⟨hzero, rfl⟩]
    exact e
  · obtain ⟨s', c, hcode, -, hbytes, hmem, e, -⟩ := h.realloc_success hinv hb hsz hzero hp
    refine ⟨s', _, _, [c], hcode, Or.inr ⟨c, rfl, rfl, hbytes⟩, by simpa using hmem, ?_⟩
    rw [if_neg fun h => Nat.succ_ne_zero _ h.2]
    exact e

/-- A `malloc` that fails leaves the memory, the lists and the break alone. -/
theorem Rep.malloc_null (h : Rep s a) (hinv : a.Inv b0) {n : Nat} (hnull : (a.malloc n).2 = NULL) :
    ∃ b, Malloc.malloc s n = some ({ s with brk := b }, NULL) ∧ b.current = s.brk.current := by
  rw [malloc_eq]
  rw [Layout.malloc] at hnull
  by_cases hzero : n = 0
  · exact ⟨s.brk, by rw [if_pos hzero], rfl⟩
  rw [if_neg hzero] at hnull ⊢
  rw [h.searchFree (Layout.free_length_lt hinv)]
  have hfirst : (a.free.find? fun b => required n ≤ b.len) = a.firstFit n := rfl
  rw [hfirst]
  cases hfit : a.firstFit n with
  | some b =>
      rw [hfit] at hnull
      exact absurd hnull (Nat.succ_ne_zero _)
  | none =>
      rw [hfit] at hnull
      simp only [Option.map_none, Option.getD_none, if_true]
      rw [h.brk]
      by_cases hok : (sbrk a.brk (chunk n)).2 = minusOne
      · exact ⟨_, by rw [if_pos hok], hinv.brk_of_refused hok⟩
      · simp only [if_neg hok] at hnull
        exact absurd hnull (Nat.succ_ne_zero _)

end Calls

end MemoryManagement.Malloc
