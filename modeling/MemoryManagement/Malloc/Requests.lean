import MemoryManagement.Malloc.Session

/-!
# Request sizes over the whole 64-bit range

A request of `n` bytes passes through `HEADER + n`, a rounding to 8, a rounding to four pages and a
conversion to a signed increment, and each of them can wrap around. `RequestOk` describes the requests
that survive: they are at most `2 ^ 64 - 40`, and a free block has room or they are at most
`2 ^ 63 - 16416`; or they are among the last 31 sizes, nothing is free and `sbrk` refuses.

From every state that calls within `RequestOk` reach, a call is safe (`SafeRequest`) exactly when its
request is within `RequestOk` (`request_sizes_iff`).
-/

set_option autoImplicit false

namespace MemoryManagement.Malloc

open MemoryManagement.Library.ByteMemory
open MemoryManagement.Library.Tiling

/-! ## Safe requests -/

/-- A request of `n` bytes that the size arithmetic of `malloc` handles in the state `s`: nothing is asked
for; or the rounded size fits 64 bits, and a free block has room or the increment is positive; or the size
wraps around to a positive one, and that is refused. -/
def RequestOk (s : Heap) (n : Nat) : Prop :=
  n = 0 ∨
  (n ≤ 2 ^ 64 - 40 ∧ (searchFree s (required n) ≠ some NULL ∨ n ≤ 2 ^ 63 - 16416)) ∨
  (2 ^ 64 - 32 < n ∧ n < 2 ^ 64 ∧ searchFree s (required n) = some NULL ∧ (sbrk s.brk 16384).2 = minusOne)

/-- What a call for `n` bytes from the state `s` must respect: a block it returns has room for header
and request, `sbrk` is only asked for positive increments, the break is not lowered, and a request whose
rounded size does not fit 64 bits is refused. -/
structure SafeRequest (s : Heap) (n : Nat) (r : Heap × Nat) : Prop where
  room : r.2 ≠ NULL → HEADER + n ≤ field r.1.mem (r.2 - HEADER) .size
  increments : ∃ new, r.1.brk.requests = new ++ s.brk.requests ∧ ∀ k ∈ new, 0 < k ∧ k < 2 ^ 63
  break_le : s.brk.current ≤ r.1.brk.current
  refused : 2 ^ 64 ≤ (HEADER + n + 7) / 8 * 8 → r.2 = NULL

theorem not_sized_iff {n : Nat} : ¬ Sized n ↔ 2 ^ 64 ≤ (HEADER + n + 7) / 8 * 8 := by
  simp only [Sized, HEADER]
  omega

theorem sized_iff {n : Nat} : Sized n ↔ n ≤ 2 ^ 64 - 40 := by
  unfold Sized
  omega

/-- The increment for a size that fits is positive up to `2 ^ 63 - 16416`; from there on it is negative, and
at the end it is 0. -/
theorem growable_iff {n : Nat} (h : Sized n) : Growable n ↔ n ≤ 2 ^ 63 - 16416 := by
  rw [Growable, chunk, required_eq h]
  simp only [Sized] at h
  simp only [roundUp, roundDown, PAGESIZE]
  omega

/-- A request that does not fit wraps around to at most one header. -/
theorem required_of_not_sized {n : Nat} (h : ¬ Sized n) (hn : n < 2 ^ 64) : required n ≤ 32 := by
  simp only [Sized] at h
  simp only [required, roundUp, roundDown, add64, HEADER]
  omega

/-- It asks for one chunk of four pages, or for none. -/
theorem chunk_of_not_sized {n : Nat} (h : ¬ Sized n) (hn : n < 2 ^ 64) :
    chunk n = if 2 ^ 64 - 32 < n then 16384 else 0 := by
  simp only [Sized] at h
  simp only [chunk, required, roundUp, roundDown, add64, HEADER, PAGESIZE]
  split <;> omega

/-! ## What the operations do to the break -/

theorem appendListOrdered_brk {s s' : Heap} {node size bytes : Nat} {free : Bool}
    (h : appendListOrdered s node size bytes free = some s') : s'.brk = s.brk := by
  unfold appendListOrdered at h
  cases free with
  | true =>
      simp only [if_true] at h
      split at h
      · cases h
      · obtain rfl := Option.some.inj h
        rfl
  | false =>
      simp only [Bool.false_eq_true, if_false] at h
      split at h
      · cases h
      · obtain rfl := Option.some.inj h
        rfl

theorem removeList_brk (s : Heap) (node : Nat) (free : Bool) : (removeList s node free).brk = s.brk := by
  unfold removeList
  cases free <;> rfl

theorem free_brk {s s' : Heap} {p : Nat} (h : free s p = some s') : s'.brk = s.brk := by
  unfold free at h
  split at h
  · obtain rfl := Option.some.inj h
    rfl
  · rw [appendListOrdered_brk h, removeList_brk]

/-- `carve` returns the payload of the block it is given. -/
theorem carve_result {s : Heap} {p r n : Nat} {t : Heap × Nat} (h : carve s p r n = some t) :
    t.2 = add64 p HEADER ∧ t.1.brk = s.brk := by
  unfold carve at h
  simp only at h
  split at h
  · split at h
    · cases h
    · rename_i s₁ hfree
      split at h
      · cases h
      · rename_i s₂ halloc
        obtain rfl := Option.some.inj h
        refine ⟨rfl, ?_⟩
        simp only
        rw [appendListOrdered_brk halloc, appendListOrdered_brk hfree, removeList_brk]
  · split at h
    · cases h
    · rename_i s₁ halloc
      obtain rfl := Option.some.inj h
      refine ⟨rfl, ?_⟩
      simp only
      rw [appendListOrdered_brk halloc, removeList_brk]

/-- `sbrk` records every increment it is asked for. -/
theorem sbrk_requests (b : Break) (k : Nat) : (sbrk b k).1.requests = k :: b.requests := by
  unfold sbrk
  simp only
  split <;> rfl

/-- The growth path of `malloc` asks `sbrk` once, for the chunk. -/
theorem malloc_requests {s : Heap} {n : Nat} (hn : n ≠ 0) (hsearch : searchFree s (required n) = some NULL)
    {r : Heap × Nat} (h : malloc s n = some r) : r.1.brk = (sbrk s.brk (chunk n)).1 := by
  rw [malloc_eq, if_neg hn, hsearch] at h
  simp only [if_true] at h
  split at h
  · obtain rfl := Option.some.inj h
    rfl
  · split at h
    · cases h
    · rename_i s₁ happend
      split at h
      · cases h
      · rw [(carve_result h).2, appendListOrdered_brk happend]

section Calls

variable {b0 : Nat} {s : Heap} {a : Layout}

theorem Rep.searchFree_null_iff (h : Rep s a) (hinv : a.Inv b0) (n : Nat) :
    Malloc.searchFree s (required n) = some NULL ↔ a.firstFit n = none := by
  rw [h.searchFree (Layout.free_length_lt hinv)]
  have hfirst : (a.free.find? fun b => required n ≤ b.len) = a.firstFit n := rfl
  rw [hfirst]
  cases hfit : a.firstFit n with
  | none => exact ⟨fun _ => rfl, fun _ => rfl⟩
  | some b =>
      have hpos := (hinv.bounds (Layout.Inv.mem_free (Layout.firstFit_mem hfit).1)).1
      constructor
      · intro e
        exact absurd (Option.some.inj e) (Nat.ne_of_gt hpos)
      · intro e
        cases e

/-- A request within `RequestOk` is one that the layout can serve. -/
theorem Rep.servable (h : Rep s a) (hinv : a.Inv b0) {n : Nat} (hok : RequestOk s n) : a.Servable n := by
  rcases hok with rfl | ⟨hn, hfit⟩ | ⟨hwrap, hn, hsearch, hrefused⟩
  · exact a.servable_of_lt (by decide)
  · have hsized := sized_iff.2 hn
    refine Or.inr ⟨hsized, fun hnone => (growable_iff hsized).2 (hfit.resolve_left ?_)⟩
    exact not_not.2 ((h.searchFree_null_iff hinv n).2 hnone)
  · refine Or.inl ⟨(h.searchFree_null_iff hinv n).1 hsearch, ?_⟩
    have hsized : ¬ Sized n := by
      rw [sized_iff]
      omega
    rw [← h.brk, chunk_of_not_sized hsized hn, if_pos hwrap]
    exact hrefused

/-- The break after a request within `RequestOk`. -/
theorem Rep.malloc_break (h : Rep s a) (hinv : a.Inv b0) {n : Nat} (hn : n < 2 ^ 64)
    (hok : RequestOk s n) :
    (∃ new, (a.malloc n).1.brk.requests = new ++ s.brk.requests ∧ ∀ k ∈ new, 0 < k ∧ k < 2 ^ 63) ∧
    s.brk.current ≤ (a.malloc n).1.brk.current ∧ (¬ Sized n → (a.malloc n).2 = NULL) := by
  rw [h.brk, Layout.malloc]
  by_cases hzero : n = 0
  · simp only [if_pos hzero]
    exact ⟨⟨[], rfl, List.forall_mem_nil _⟩, Nat.le_refl _, fun _ => trivial⟩
  simp only [if_neg hzero]
  cases hfit : a.firstFit n with
  | some b =>
      have hbrk : (a.carve b n).brk = a.brk := by
        unfold Layout.carve
        split <;> rfl
      refine ⟨⟨[], ?_, List.forall_mem_nil _⟩, ?_, fun hsized => ?_⟩
      · simp only [hbrk, List.nil_append]
      · simp only [hbrk, Nat.le_refl]
      · exact absurd ((h.servable hinv hok).of_fit hfit) hsized
  | none =>
      have hsearch := (h.searchFree_null_iff hinv n).2 hfit
      -- the one increment asked for is positive
      have hgrow : Growable n := by
        rcases hok with hz | ⟨hsized, hroom⟩ | ⟨hwrap, -, -, -⟩
        · exact absurd hz hzero
        · exact (growable_iff (sized_iff.2 hsized)).2 (hroom.resolve_left (not_not.2 hsearch))
        · have hsized : ¬ Sized n := by
            rw [sized_iff]
            omega
          rw [Growable, chunk_of_not_sized hsized hn, if_pos hwrap]
          decide
      have hnew : ∀ b : Break, (sbrk b (chunk n)).1.requests = [chunk n] ++ b.requests :=
        fun b => sbrk_requests b (chunk n)
      have hpos : ∀ k ∈ [chunk n], 0 < k ∧ k < 2 ^ 63 := by
        intro k hk
        rw [List.mem_singleton.1 hk]
        exact hgrow
      by_cases hrefused : (sbrk a.brk (chunk n)).2 = minusOne
      · simp only [if_pos hrefused]
        refine ⟨⟨_, hnew a.brk, hpos⟩, ?_, fun _ => trivial⟩
        rw [hinv.brk_of_refused hrefused]
      · simp only [if_neg hrefused]
        have hbrk : ((a.grow n).carve ⟨a.brk.current, chunk n⟩ n).brk = (sbrk a.brk (chunk n)).1 := by
          unfold Layout.carve
          split <;> rfl
        refine ⟨⟨_, by rw [hbrk]; exact hnew a.brk, hpos⟩, ?_, fun hsized => ?_⟩
        · rw [hbrk]
          rcases sbrk_cases a.brk hgrow.1 hgrow.2 with hcase | hcase
          · exact absurd hcase.1 hrefused
          · omega
        · exact absurd ((h.servable hinv hok).of_grow hfit hrefused).1 hsized

/-- A `malloc` that keeps to positive increments and refuses what does not fit has been asked for a
request within `RequestOk`. -/
theorem Rep.requestOk_of_malloc (h : Rep s a) (hinv : a.Inv b0) {n : Nat} (hn : n < 2 ^ 64)
    {r : Heap × Nat} (hcode : Malloc.malloc s n = some r)
    (hinc : ∃ new, r.1.brk.requests = new ++ s.brk.requests ∧ ∀ k ∈ new, 0 < k ∧ k < 2 ^ 63)
    (hrefused : ¬ Sized n → r.2 = NULL) : RequestOk s n := by
  by_cases hzero : n = 0
  · exact Or.inl hzero
  refine Or.inr ?_
  by_cases hsearch : Malloc.searchFree s (required n) = some NULL
  · -- the heap has to grow, and the increment is the one that was asked for
    have hgrow : Growable n := by
      obtain ⟨new, hnew, hpos⟩ := hinc
      rw [malloc_requests hzero hsearch hcode, sbrk_requests] at hnew
      have hsingle : [chunk n] ++ s.brk.requests = new ++ s.brk.requests := hnew
      rw [← List.append_cancel_right hsingle] at hpos
      exact hpos _ (List.mem_singleton_self _)
    by_cases hsized : Sized n
    · exact Or.inl ⟨sized_iff.1 hsized, Or.inr ((growable_iff hsized).1 hgrow)⟩
    · have hwrap : 2 ^ 64 - 32 < n := by
        have hpos := hgrow.1
        rw [chunk_of_not_sized hsized hn] at hpos
        by_contra hsmall
        rw [if_neg hsmall] at hpos
        exact absurd hpos (Nat.lt_irrefl 0)
      have hchunk : chunk n = 16384 := by
        rw [chunk_of_not_sized hsized hn, if_pos hwrap]
      refine Or.inr ⟨hwrap, hn, hsearch, ?_⟩
      rw [← hchunk]
      by_contra hok
      -- a granted chunk would be handed out
      have hreq := required_of_not_sized hsized hn
      have hfit := (h.searchFree_null_iff hinv n).1 hsearch
      rw [h.brk] at hok
      have hbounds : chunk n % 8 = 0 ∧ 32 ≤ chunk n ∧ chunk n < 2 ^ 63 := by
        rw [hchunk]
        decide
      obtain ⟨hret, s₁, hcode₁, hrep₁, -⟩ := h.append_chunk hinv hbounds hok
      have hfit' := Layout.grow_firstFit (by omega) hfit
      have hgrown := hinv.grow hbounds hok
      rw [malloc_eq, if_neg hzero, hsearch] at hcode
      simp only [if_true] at hcode
      rw [h.brk, if_neg hok, hret, hcode₁] at hcode
      simp only at hcode
      rw [hrep₁.searchFree (Layout.free_length_lt hgrown)] at hcode
      have hfirst : ((a.grow n).free.find? fun b => required n ≤ b.len) = (a.grow n).firstFit n := rfl
      rw [hfirst, hfit'] at hcode
      have hpayload := (carve_result hcode).1
      rw [hrefused hsized] at hpayload
      simp only [Option.map_some, Option.getD_some, add64, HEADER, NULL] at hpayload
      have hend := (hgrown.bounds (Layout.Inv.mem_free (Layout.firstFit_mem hfit').1)).2.2
      simp only [hchunk] at hend
      omega
  · by_cases hsized : Sized n
    · exact Or.inl ⟨sized_iff.1 hsized, Or.inl hsearch⟩
    · -- a free block would be handed out
      exfalso
      cases hfit : a.firstFit n with
      | none => exact hsearch ((h.searchFree_null_iff hinv n).2 hfit)
      | some b =>
          have hmem := (Layout.firstFit_mem hfit).1
          have hblock := hinv.bounds (Layout.Inv.mem_free hmem)
          have hlen := (hinv.block b (Layout.Inv.mem_free hmem)).2.2
          have hb0 : b.start ≠ NULL := Nat.ne_of_gt hblock.1
          rw [malloc_eq, if_neg hzero, h.searchFree (Layout.free_length_lt hinv)] at hcode
          have hfirst : (a.free.find? fun b => required n ≤ b.len) = a.firstFit n := rfl
          rw [hfirst, hfit] at hcode
          simp only [Option.map_some, Option.getD_some, if_neg hb0] at hcode
          have hpayload := (carve_result hcode).1
          rw [hrefused hsized] at hpayload
          simp only [add64, HEADER, NULL] at hpayload
          omega

theorem required_le_of_fit {n p : Nat} {fresh : List Alloc} {s' : Heap} {a' : Layout}
    {dead : List Alloc} (e : Effect b0 s a s' a' dead fresh) (hmem : ∀ c ∈ fresh, c ∈ a'.alloc)
    (hret : Returned n p fresh) (hp : p ≠ NULL) : HEADER + n ≤ field s'.mem (p - HEADER) .size := by
  rcases hret with ⟨hnull, -⟩ | ⟨c, rfl, rfl, rfl⟩
  · exact absurd hnull hp
  · have hc := hmem c (List.mem_singleton_self c)
    rw [Nat.add_sub_cancel, e.rep.allocSize c hc]
    exact (e.inv.fits c hc).1

theorem Rep.malloc_safe_iff (h : Rep s a) (hinv : a.Inv b0) {n : Nat} (hn : n < 2 ^ 64) :
    (∃ r, Malloc.malloc s n = some r ∧ SafeRequest s n r) ↔ RequestOk s n := by
  constructor
  · rintro ⟨r, hcode, hsafe⟩
    exact h.requestOk_of_malloc hinv hn hcode hsafe.increments fun hsized =>
      hsafe.refused (not_sized_iff.1 hsized)
  · intro hok
    obtain ⟨s', fresh, hcode, hret, e⟩ := h.malloc_effect hinv (h.servable hinv hok)
    obtain ⟨hinc, hle, hrefused⟩ := h.malloc_break hinv hn hok
    refine ⟨_, hcode, ?_, ?_, ?_, fun hover => hrefused (not_sized_iff.2 hover)⟩
    · exact required_le_of_fit e e.fresh_mem hret
    · rw [e.rep.brk]
      exact hinc
    · rw [e.rep.brk]
      exact hle

/-- `calloc` of a product that fits moves the break as `malloc` does, and fails when it does. -/
theorem calloc_malloc {num sz : Nat} (hnum : num ≠ 0) (hsz : sz ≠ 0) (hfit : num * sz < 2 ^ 64)
    {r : Heap × Nat} (h : calloc s num sz = some r) :
    ∃ t, malloc s (num * sz) = some t ∧ r.1.brk = t.1.brk ∧ r.2 = t.2 := by
  have hover : ¬ minusOne / num < sz := by
    rw [Nat.not_lt, Nat.le_div_iff_mul_le (Nat.pos_of_ne_zero hnum), Nat.mul_comm, minusOne]
    omega
  have hmul64 : mul64 num sz = num * sz := by
    rw [mul64, Nat.mod_eq_of_lt hfit]
  rw [calloc, if_neg (by omega), if_neg hover, hmul64] at h
  split at h
  · cases h
  · rename_i s₁ p hmalloc
    split at h
    · rename_i hnull
      obtain rfl := Option.some.inj h
      exact ⟨_, hmalloc, rfl, hnull.symm⟩
    · obtain rfl := Option.some.inj h
      exact ⟨_, hmalloc, rfl, rfl⟩

theorem Rep.calloc_safe_iff (h : Rep s a) (hinv : a.Inv b0) {num sz : Nat} :
    (∃ r, Malloc.calloc s num sz = some r ∧ SafeRequest s (num * sz) r) ↔
      (2 ^ 64 ≤ num * sz ∨ RequestOk s (num * sz)) := by
  by_cases hzero : num = 0 ∨ sz = 0
  · -- nothing is asked for
    have hprod : num * sz = 0 := Nat.mul_eq_zero.2 hzero
    refine ⟨fun _ => Or.inr (Or.inl hprod), fun _ => ⟨(s, NULL), by rw [Malloc.calloc, if_pos hzero], ?_⟩⟩
    exact ⟨fun e => absurd rfl e, ⟨[], rfl, List.forall_mem_nil _⟩, Nat.le_refl _, fun _ => rfl⟩
  by_cases hover : 2 ^ 64 ≤ num * sz
  · refine ⟨fun _ => Or.inl hover, fun _ => ⟨(s, NULL), ?_, ?_⟩⟩
    · have hdiv : minusOne / num < sz := by
        rw [Nat.div_lt_iff_lt_mul (by omega), Nat.mul_comm, minusOne]
        omega
      rw [Malloc.calloc, if_neg hzero, if_pos hdiv]
    · exact ⟨fun e => absurd rfl e, ⟨[], rfl, List.forall_mem_nil _⟩, Nat.le_refl _, fun _ => rfl⟩
  have hfit : num * sz < 2 ^ 64 := Nat.lt_of_not_le hover
  have hmalloc := fun r => calloc_malloc (s := s) (r := r) (by omega : num ≠ 0) (by omega) hfit
  constructor
  · rintro ⟨r, hcode, hsafe⟩
    obtain ⟨t, hcode', hbrk, hp⟩ := hmalloc r hcode
    refine Or.inr (h.requestOk_of_malloc hinv hfit hcode' ?_ fun hsized => ?_)
    · rw [← hbrk]
      exact hsafe.increments
    · rw [← hp]
      exact hsafe.refused (not_sized_iff.1 hsized)
  · intro hok
    have hok' := hok.resolve_left hover
    obtain ⟨s', a', p, fresh, hcode, hret, e, -⟩ := h.calloc_effect hinv
      (Or.inl (h.servable hinv hok') : a.Servable (num * sz) ∨ _)
    obtain ⟨t, hcode', hbrk, hp⟩ := hmalloc _ hcode
    obtain ⟨t', ht', hsafe⟩ := (h.malloc_safe_iff hinv hfit).2 hok'
    obtain rfl : t' = t := Option.some.inj (ht'.symm.trans hcode')
    refine ⟨_, hcode, required_le_of_fit e e.fresh_mem hret, ?_, ?_, fun hlarge => ?_⟩
    · rw [hbrk]
      exact hsafe.increments
    · rw [hbrk]
      exact hsafe.break_le
    · rw [hp]
      exact hsafe.refused hlarge

/-- `realloc` moves the break as `malloc` does, and fails when it does. -/
theorem realloc_malloc {p sz : Nat} (hp : p ≠ NULL) (hsz : sz ≠ 0) {r : Heap × Nat}
    (h : realloc s p sz = some r) :
    ∃ t, malloc s sz = some t ∧ r.1.brk = t.1.brk ∧ r.2 = t.2 := by
  rw [realloc, if_neg hp, if_neg hsz] at h
  split at h
  · cases h
  · rename_i s₁ q hmalloc
    split at h
    · rename_i hnull
      obtain rfl := Option.some.inj h
      exact ⟨_, hmalloc, rfl, hnull.symm⟩
    · simp only at h
      split at h
      · cases h
      · rename_i s₂ hfree
        obtain rfl := Option.some.inj h
        have hbrk := free_brk hfree
        exact ⟨_, hmalloc, hbrk, rfl⟩

theorem Rep.realloc_safe_iff (h : Rep s a) (hinv : a.Inv b0) {b : Alloc} (hb : b ∈ a.alloc) {sz : Nat}
    (hn : sz < 2 ^ 64) :
    (∃ r, Malloc.realloc s (b.addr + HEADER) sz = some r ∧ SafeRequest s sz r) ↔ RequestOk s sz := by
  have hp : b.addr + HEADER ≠ NULL := Nat.succ_ne_zero _
  by_cases hzero : sz = 0
  · -- the block is freed
    refine ⟨fun _ => Or.inl hzero, fun _ => ?_⟩
    obtain ⟨s', hcode, e⟩ := h.free_effect hinv hb
    refine ⟨(s', NULL), ?_, fun e => absurd rfl e, ⟨[], ?_, List.forall_mem_nil _⟩, ?_, fun _ => rfl⟩
    · rw [Malloc.realloc, if_neg hp, if_pos hzero, hcode]
    · rw [free_brk hcode]
      rfl
    · rw [free_brk hcode]
  constructor
  · rintro ⟨r, hcode, hsafe⟩
    obtain ⟨t, hcode', hbrk, hq⟩ := realloc_malloc hp hzero hcode
    refine h.requestOk_of_malloc hinv hn hcode' ?_ fun hsized => ?_
    · rw [← hbrk]
      exact hsafe.increments
    · rw [← hq]
      exact hsafe.refused (not_sized_iff.1 hsized)
  · intro hok
    obtain ⟨s', a', q, fresh, hcode, hret, hmem, e⟩ := h.realloc_effect hinv hb (h.servable hinv hok)
    obtain ⟨t, hcode', hbrk, hq⟩ := realloc_malloc hp hzero hcode
    obtain ⟨t', ht', hsafe⟩ := (h.malloc_safe_iff hinv hn).2 hok
    obtain rfl : t' = t := Option.some.inj (ht'.symm.trans hcode')
    refine ⟨_, hcode, required_le_of_fit e hmem hret, ?_, ?_, fun hlarge => ?_⟩
    · rw [hbrk]
      exact hsafe.increments
    · rw [hbrk]
      exact hsafe.break_le
    · rw [hq]
      exact hsafe.refused hlarge

end Calls

/-! ## Runs within the limits -/

/-- A call whose request is within `RequestOk`, on null or live pointers, a `heap_info` whose count fits its
`int`, or a write into a live payload. -/
def Session.Permitted (st : Session) : Call → Prop
  | .malloc numbytes => RequestOk st.heap numbytes
  | .calloc num sz => 2 ^ 64 ≤ num * sz ∨ RequestOk st.heap (num * sz)
  | .realloc ptr sz => RequestOk st.heap sz ∧ (ptr = NULL ∨ ∃ n, (ptr, n) ∈ st.live)
  | .free ptr => ptr = NULL ∨ ∃ n, (ptr, n) ∈ st.live
  | .defrag => True
  | .heapInfo _ => CountFits st.heap
  | .write x _ => ∃ e ∈ st.live, InRange e.1 e.2 x

/-- States that permitted calls reach from an empty allocator with break `brk`. -/
inductive PermittedReach (brk : Break) : Session → Prop where
  | start (m : Mem) : PermittedReach brk (Session.start m brk)
  | step {st st' : Session} {c : Call} :
      PermittedReach brk st → st.Permitted c → st.step c = some st' → PermittedReach brk st'

theorem Session.Inv.served {b0 : Nat} {st : Session} {a : Layout} (h : st.Inv b0 a) {c : Call}
    (hc : st.Permitted c) : st.Served a c := by
  cases c with
  | malloc n => exact h.rep.servable h.inv hc
  | calloc num sz => exact hc.symm.imp_left (h.rep.servable h.inv)
  | realloc ptr sz => exact ⟨h.rep.servable h.inv hc.1, hc.2⟩
  | free ptr => exact hc
  | defrag => trivial
  | heapInfo info => exact h.rep.countFits_iff.1 hc
  | write x v => exact hc

theorem PermittedReach.inv {brk : Break} (hbrk : HeapStart brk) {st : Session}
    (h : PermittedReach brk st) : ∃ a, st.Inv brk.current a := by
  induction h with
  | start m => exact ⟨_, Session.Inv.init hbrk m⟩
  | step _ hc hstep ih =>
      obtain ⟨a, ha⟩ := ih
      obtain ⟨st', hstep', hafter⟩ := ha.serve (ha.served hc)
      obtain rfl : _ = st' := Option.some.inj (hstep.symm.trans hstep')
      exact hafter.inv

/-- From every state that permitted calls reach, `malloc`, `realloc` and `calloc` are safe exactly for
the requests within `RequestOk`. -/
theorem request_sizes_iff {brk : Break} (hbrk : HeapStart brk) {st : Session}
    (h : PermittedReach brk st) :
    (∀ n, n < 2 ^ 64 →
      ((∃ r, malloc st.heap n = some r ∧ SafeRequest st.heap n r) ↔ RequestOk st.heap n)) ∧
    (∀ p n, n < 2 ^ 64 → (p = NULL ∨ ∃ m, (p, m) ∈ st.live) →
      ((∃ r, realloc st.heap p n = some r ∧ SafeRequest st.heap n r) ↔ RequestOk st.heap n)) ∧
    (∀ num sz, num < 2 ^ 64 → sz < 2 ^ 64 →
      ((∃ r, calloc st.heap num sz = some r ∧ SafeRequest st.heap (num * sz) r) ↔
        (2 ^ 64 ≤ num * sz ∨ RequestOk st.heap (num * sz)))) := by
  obtain ⟨a, ha⟩ := h.inv hbrk
  refine ⟨?_, ?_, ?_⟩
  · intro n hn
    exact ha.rep.malloc_safe_iff ha.inv hn
  · rintro p n hn (rfl | ⟨m, hlive⟩)
    · have hcode : realloc st.heap NULL n = malloc st.heap n := by
        rw [realloc, if_pos rfl]
      rw [hcode]
      exact ha.rep.malloc_safe_iff ha.inv hn
    · obtain ⟨b, hb, rfl, -⟩ := ha.block_of_live hlive
      exact ha.rep.realloc_safe_iff ha.inv hb hn
  · intro num sz _ _
    exact ha.rep.calloc_safe_iff ha.inv

/-- A fresh heap that is asked for 24 bytes. -/
theorem request_sizes_iff_example :
    ∃ r, malloc (Session.start (fun _ => 0) ⟨0x103000, fun _ => true, []⟩).heap 24 = some r ∧
      SafeRequest (Session.start (fun _ => 0) ⟨0x103000, fun _ => true, []⟩).heap 24 r := by
  have hbrk : HeapStart ⟨0x103000, fun _ => true, []⟩ := ⟨by decide, by decide, by decide⟩
  refine ((request_sizes_iff hbrk (PermittedReach.start fun _ => 0)).1 24 (by decide)).2 ?_
  exact Or.inr (Or.inl ⟨by decide, Or.inr (by decide)⟩)

/-- The first request of a program, for all but the last 32 bytes of the address space: header and
request wrap around to 0, `sbrk` is asked for 0 bytes, and the pointer returned heads no room. -/
theorem malloc_wraps :
    ¬ ∃ r, malloc (Session.start (fun _ => 0) ⟨0x103000, fun _ => true, []⟩).heap (2 ^ 64 - 32) = some r ∧
      SafeRequest (Session.start (fun _ => 0) ⟨0x103000, fun _ => true, []⟩).heap (2 ^ 64 - 32) r := by
  rintro ⟨r, hcode, hsafe⟩
  have hrun : (malloc (Session.start (fun _ => 0) ⟨0x103000, fun _ => true, []⟩).heap
      (2 ^ 64 - 32)).map Prod.snd = some 0x103020 := by
    decide +kernel
  rw [hcode] at hrun
  have hnull := hsafe.refused (by decide)
  rw [Option.map_some, hnull] at hrun
  cases hrun

end MemoryManagement.Malloc
