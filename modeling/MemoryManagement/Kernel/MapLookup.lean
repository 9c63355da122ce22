import MemoryManagement.Kernel.Walk

/-!
# Mapping and lookup agree

`virtual_memory_map` keeps the last-level table it found while the upper index stays the same;
`virtual_memory_lookup` walks all four levels. Over page tables that form a tree both see the same
leaves: after a successful map every address of the range is found with its physical address and
exactly the permissions asked for, and no other page changes (`map_lookup_agree`).

A call that fails, or that hides pages, does what the comment on `virtual_memory_map` says exactly when
the loop has the tables of its pages at hand (`map_contract_iff`). It has not when the index of the
first page is the mark -1 of an empty cache, or when a table lies at the address `NULL`.
-/

set_option autoImplicit false

namespace MemoryManagement.Kernel

open MemoryManagement.Library.ByteMemory

section Pages

variable {m : Mem} {root t : Nat}

/-! ## One page -/

/-- A leaf `pa | perm` keeps address and flags apart. -/
theorem leaf_eq {pa perm : Nat} (hpa : pa % 4096 = 0) (hperm : perm < 4096) :
    pa ||| perm = pa + perm := by
  have h := Nat.two_pow_add_eq_or_of_lt (i := 12) hperm (pa / 4096)
  have hdiv : 2 ^ 12 * (pa / 4096) = pa := by omega
  rw [hdiv] at h
  exact h.symm

theorem leaf_testBit {pa : Nat} (hpa : pa % 4096 = 0) (perm : Nat) {k : Nat} (hk : k < 12) :
    (pa ||| perm).testBit k = perm.testBit k := by
  have hpow : (pa / 4096 * 2 ^ 12).testBit k = false := by
    rw [Nat.testBit_mul_two_pow]
    simp [Nat.not_le.2 hk]
  rw [show pa / 4096 * 2 ^ 12 = pa by omega] at hpow
  rw [Nat.testBit_or, hpow, Bool.false_or]

theorem pageNumber_leaf {pa perm : Nat} (hpa : pa % 4096 = 0) (hlt : pa + 4096 ≤ 0x200000)
    (hperm : perm < 4096) : pageNumber (pa + perm) = (pa / 4096 : Nat) := by
  have hshift : (pa + perm) >>> 12 = pa / 4096 := by
    rw [Nat.shiftRight_eq_div_pow]
    omega
  have hsmall : pa / 4096 < 2 ^ 31 := by
    omega
  rw [pageNumber, hshift, toInt32_of_lt hsmall]

/-- The walk sees only the page of the address. -/
theorem lookupLevels_of_page48 {a va pt pe : Nat} (h : page48 a = page48 va) :
    lookupLevels m a [0, 1, 2, 3] pt pe = lookupLevels m va [0, 1, 2, 3] pt pe := by
  obtain ⟨hidx, hidx3⟩ := (page48_eq_iff a va).1 h
  simp only [indices, List.cons.injEq, and_true] at hidx
  obtain ⟨h0, h1, h2⟩ := hidx
  simp only [lookupLevels, h0, h1, h2, hidx3]

/-- Clearing the permission bits that the level before still carries changes nothing when every entry
above grants the permissions of the leaf. -/
theorem lookupLevels_granted {va perm leaf : Nat} (ht : tableAt m root (indices va) = some t)
    (hbits : Grants m root va perm) (hleaf : entry m t (pageindex va 3) = leaf)
    (hsame : ∀ k, k = 1 ∨ k = 2 → leaf.testBit k = perm.testBit k) :
    lookupLevels m va [0, 1, 2, 3] root (PTE_W ||| PTE_U ||| PTE_P) = leaf := by
  obtain ⟨hp0, ht0⟩ := tableAt_cons_eq_some ht
  obtain ⟨hp1, ht1⟩ := tableAt_cons_eq_some ht0
  obtain ⟨hp2, ht2⟩ := tableAt_cons_eq_some ht1
  have hb0 := hbits [] 0 [1, 2] rfl _ rfl
  have hb1 := hbits [0] 1 [2] rfl _ (by rw [List.map_cons, tableAt, if_pos hp0]; rfl)
  have hb2 := hbits [0, 1] 2 [] rfl _ (by
    rw [List.map_cons, tableAt, if_pos hp0, List.map_cons, tableAt, if_pos hp1]
    rfl)
  have h0 := entry_lt m root (pageindex va 0)
  have h1 := entry_lt m (pteAddr (entry m root (pageindex va 0))) (pageindex va 1)
  have h2 := entry_lt m
    (pteAddr (entry m (pteAddr (entry m root (pageindex va 0))) (pageindex va 1))) (pageindex va 2)
  have h3 := entry_lt m t (pageindex va 3)
  rw [lookupLevels_cons (by decide), lookupLevels_cons ((present_masked h0 _).2 hp0),
    lookupLevels_cons ((present_masked h1 _).2 hp1), lookupLevels_cons ((present_masked h2 _).2 hp2),
    Option.some.inj ht2, hleaf, lookupLevels]
  rw [hleaf] at h3
  apply Nat.eq_of_testBit_eq
  intro k
  rw [testBit_masked h3, testBit_masked h2, testBit_masked h1, testBit_masked h0]
  by_cases hk : k = 1 ∨ k = 2
  · cases hperm : perm.testBit k with
    | false => rw [hsame k hk, hperm, Bool.false_and]
    | true =>
        -- the bit is cleared at the first level, kept at the second, cleared at the third
        have hstart : (PTE_W ||| PTE_U ||| PTE_P).testBit k = true := by
          rcases hk with rfl | rfl <;> decide
        rw [hb0 k hk hperm, hb1 k hk hperm, hb2 k hk hperm, hstart]
        rcases hk with rfl | rfl <;> simp
  · have hk1 : ¬ k = 1 := fun e => hk (Or.inl e)
    have hk2 : ¬ k = 2 := fun e => hk (Or.inr e)
    simp [hk1, hk2]

/-- A write to the last-level table of `va` is seen by no other entry of a walk. -/
theorem Tree.entry_setEntry_other (htree : Tree m root) (hroot : root % 4096 = 0) {va a v : Nat}
    (ht : tableAt m root (indices va) = some t) (hv : v < 2 ^ 64) {done rest : List Nat} {i s : Nat}
    (hsplit : [0, 1, 2, 3] = done ++ i :: rest)
    (hs : tableAt m root (done.map (pageindex a)) = some s)
    (hother : done ≠ [0, 1, 2] ∨ page48 a ≠ page48 va) :
    entry (Kernel.setEntry m t (pageindex va 3) v) s (pageindex a i) =
      entry m s (pageindex a i) := by
  have hlen : done.length ≤ 3 := by
    have := congrArg List.length hsplit
    simp only [List.length_append, List.length_cons, List.length_nil] at this
    omega
  have hpath : IndexPath (done.map (pageindex a)) := by
    refine ⟨by rw [List.length_map]; exact hlen, fun j hj => ?_⟩
    obtain ⟨l, -, rfl⟩ := List.mem_map.1 hj
    exact pageindex_lt a l
  rw [entry_setEntry (tableAt_aligned hroot ht) (tableAt_aligned hroot hs) (pageindex_lt a i)
    (pageindex_lt va 3) hv, if_neg]
  rintro ⟨rfl, hi⟩
  -- the same table is reached by the same indices only
  have hsame := htree _ _ _ hpath (indexPath_indices va) hs ht
  have hthree : done = [0, 1, 2] ∧ i = 3 := by
    have h3 : done.length = 3 := by
      have := congrArg List.length hsame
      rwa [List.length_map] at this
    match done, h3, hsplit with
    | [x, y, z], _, hsplit =>
        simp only [List.cons_append, List.nil_append, List.cons.injEq] at hsplit
        obtain ⟨rfl, rfl, rfl, rfl, -⟩ := hsplit
        exact ⟨rfl, rfl⟩
  obtain ⟨rfl, rfl⟩ := hthree
  rcases hother with h | h
  · exact h rfl
  · exact h ((page48_eq_iff a va).2 ⟨hsame, hi⟩)

/-- Pages other than the one written are found as before. -/
theorem Tree.lookup_setEntry_other (htree : Tree m root) (hroot : root % 4096 = 0) {va a v : Nat}
    (ht : tableAt m root (indices va) = some t) (hv : v < 2 ^ 64) (ha : page48 a ≠ page48 va) :
    virtualMemoryLookup (Kernel.setEntry m t (pageindex va 3) v) root a =
      virtualMemoryLookup m root a := by
  rw [virtualMemoryLookup, virtualMemoryLookup, lookupLevels_congr]
  intro done i rest hsplit s hs
  exact htree.entry_setEntry_other hroot ht hv hsplit hs (Or.inr ha)

theorem Tree.grants_setEntry (htree : Tree m root) (hroot : root % 4096 = 0) {va perm v : Nat}
    (ht : tableAt m root (indices va) = some t) (hbits : Grants m root va perm) (hv : v < 2 ^ 64) :
    Grants (Kernel.setEntry m t (pageindex va 3) v) root va perm := by
  intro done i rest hsplit s hs k hk hk'
  have hsplit' : [0, 1, 2, 3] = done ++ i :: (rest ++ [3]) := by
    rw [← List.cons_append, ← List.append_assoc, ← hsplit]
    rfl
  have hne : done ≠ [0, 1, 2] := by
    rintro rfl
    simp at hsplit
  have hpath : IndexPath (done.map (pageindex va)) := by
    have hlen := congrArg List.length hsplit
    simp only [List.length_append, List.length_cons, List.length_nil] at hlen
    refine ⟨by rw [List.length_map]; omega, fun j hj => ?_⟩
    obtain ⟨l, -, rfl⟩ := List.mem_map.1 hj
    exact pageindex_lt va l
  rw [htree.tableAt_setEntry hroot (indexPath_indices va) rfl ht (pageindex_lt va 3) hv hpath] at hs
  rw [htree.entry_setEntry_other hroot ht hv hsplit' hs (Or.inl hne)]
  exact hbits done i rest hsplit s hs k hk hk'

/-- After a leaf has been written, its page is found with the address and permissions of the leaf. -/
theorem Tree.lookup_setEntry_same (htree : Tree m root) (hroot : root % 4096 = 0) {va pa perm : Nat}
    (ht : tableAt m root (indices va) = some t)
    (hbits : Grants m root va perm) (hpa : pa % 4096 = 0) (hlt : pa + 4096 ≤ 0x200000) (hperm : perm < 4096)
    (hpresent : perm &&& PTE_P ≠ 0) {a : Nat} (ha : page48 a = page48 va) :
    virtualMemoryLookup (Kernel.setEntry m t (pageindex va 3) (pa ||| perm)) root a =
      ⟨(pa / 4096 : Nat), pa + a % 4096, perm⟩ := by
  obtain ⟨hidx, hidx3⟩ := (page48_eq_iff a va).1 ha
  have hleaf : pa ||| perm = pa + perm := leaf_eq hpa hperm
  have hv : pa ||| perm < 2 ^ 64 := by
    rw [hleaf]
    omega
  have halign := tableAt_aligned hroot ht
  -- a last-level entry is on no path to a table
  have hwalk : ∀ {q : List Nat}, IndexPath q →
      tableAt (Kernel.setEntry m t (pageindex va 3) (pa ||| perm)) root q = tableAt m root q :=
    fun hq => htree.tableAt_setEntry hroot (indexPath_indices va) rfl ht (pageindex_lt va 3) hv hq
  have hlevels : lookupLevels (Kernel.setEntry m t (pageindex va 3) (pa ||| perm)) va [0, 1, 2, 3] root
      (PTE_W ||| PTE_U ||| PTE_P) = pa ||| perm := by
    apply lookupLevels_granted
    · rw [hwalk (indexPath_indices va)]
      exact ht
    · exact htree.grants_setEntry hroot ht hbits hv
    · rw [entry_setEntry halign halign (pageindex_lt va 3) (pageindex_lt va 3) hv,
        if_pos ⟨rfl, rfl⟩]
    · intro k hk
      exact leaf_testBit hpa perm (by omega)
  have hsame : lookupLevels (Kernel.setEntry m t (pageindex va 3) (pa ||| perm)) a [0, 1, 2, 3] root
      (PTE_W ||| PTE_U ||| PTE_P) = pa ||| perm :=
    (lookupLevels_of_page48 ha).trans hlevels
  have hpres : (pa ||| perm) &&& PTE_P ≠ 0 := by
    rw [present_iff, leaf_testBit hpa perm (by decide)]
    exact (present_iff perm).1 hpresent
  rw [virtualMemoryLookup]
  simp only [hsame]
  rw [if_pos hpres, pteAddr_eq hv, pteFlags_eq, pageOffset_eq, hleaf]
  have h1 : (pa + perm) / 4096 * 4096 = pa := by omega
  have h2 : (pa + perm) % 4096 = perm := by omega
  rw [h1, h2, pageNumber_leaf hpa hlt hperm]

/-! ## Whole ranges -/

theorem indices_of_div {a b : Nat} (h : a / 2 ^ 21 = b / 2 ^ 21) : indices a = indices b := by
  have h0 : ∀ i, i ≤ 2 → pageindex a i = pageindex b i := by
    intro i hi
    rw [pageindex_eq, pageindex_eq]
    have hpow : 2 ^ (12 + (3 - i) * 9) = 2 ^ 21 * 2 ^ ((2 - i) * 9) := by
      rw [← Nat.pow_add]
      congr 1
      omega
    rw [hpow, ← Nat.div_div_eq_div_mul, ← Nat.div_div_eq_div_mul, h]
  simp only [indices, h0 0 (by decide), h0 1 (by decide), h0 2 (by decide)]

theorem Grants.of_indices {a b perm : Nat} (h : indices a = indices b) (hg : Grants m root b perm) :
    Grants m root a perm := by
  simp only [indices, List.cons.injEq, and_true] at h
  intro done i rest hsplit s hs
  have hidx : ∀ j ∈ [0, 1, 2], pageindex a j = pageindex b j := by
    intro j hj
    simp only [List.mem_cons, List.not_mem_nil, or_false] at hj
    rcases hj with rfl | rfl | rfl
    · exact h.1
    · exact h.2.1
    · exact h.2.2
  have hmap : done.map (pageindex a) = done.map (pageindex b) := by
    apply List.map_congr_left
    intro j hj
    exact hidx j (by rw [hsplit]; exact List.mem_append_left _ hj)
  rw [hidx i (by rw [hsplit]; simp)]
  rw [hmap] at hs
  exact hg done i rest hsplit s hs

/-- The upper indices of neighbouring pages differ by at most one, so comparing them as `int`s is
comparing them. -/
theorem div_eq_of_toInt32_eq {va prev : Nat} (hva : va = prev + 4096)
    (h : toInt32 (va >>> 21) = toInt32 (prev >>> 21)) : va / 2 ^ 21 = prev / 2 ^ 21 := by
  have hmod := mod_eq_of_toInt32_eq h
  rw [Nat.shiftRight_eq_div_pow, Nat.shiftRight_eq_div_pow] at hmod
  omega

theorem tableAt_indices_eq {va : Nat} (hroot : root % 4096 = 0) (ht : tableAt m root (indices va) = some t)
    (htree : Tree m root) {v : Nat} (hv : v < 2 ^ 64) (a : Nat) :
    tableAt (Kernel.setEntry m t (pageindex va 3) v) root (indices a) = tableAt m root (indices a) :=
  htree.tableAt_setEntry hroot (indexPath_indices va) rfl ht (pageindex_lt va 3) hv
    (indexPath_indices a)

/-- The table that the loop of `virtual_memory_map`, started at `start`, has at hand for `va`. The mark
-1 of `last_index123` is an index too: a loop that starts there takes the first two megabytes for
visited and never walks to their table. -/
def tableAtHand (m : Mem) (root start va : Nat) : Nat :=
  if toInt32 (start >>> 21) = -1 ∧ va / 2 ^ 21 = start / 2 ^ 21 then NULL
  else (tableAt m root (indices va)).getD NULL

theorem tableAt_of_tableAtHand {start va : Nat} (h : tableAtHand m root start va ≠ NULL) :
    tableAt m root (indices va) = some (tableAtHand m root start va) := by
  unfold tableAtHand at h ⊢
  split at h
  · exact absurd rfl h
  · rename_i hstart
    rw [if_neg hstart]
    cases htable : tableAt m root (indices va) with
    | none =>
        rw [htable] at h
        exact absurd rfl h
    | some t => rfl

theorem tableAtHand_congr {m' : Mem} {start va : Nat}
    (h : tableAt m' root (indices va) = tableAt m root (indices va)) :
    tableAtHand m' root start va = tableAtHand m root start va := by
  rw [tableAtHand, tableAtHand, h]

theorem tableAtHand_of_div {start a b : Nat} (h : a / 2 ^ 21 = b / 2 ^ 21) :
    tableAtHand m root start a = tableAtHand m root start b := by
  rw [tableAtHand, tableAtHand, h, indices_of_div h]

/-- What `last_index123` and `l4pagetable` hold when the loop comes to `va`. -/
def Cached (m : Mem) (root perm start va : Nat) (last : Int) (l4 : Nat) : Prop :=
  (va = start ∧ last = -1 ∧ l4 = NULL) ∨
  ∃ prev, va = prev + 4096 ∧ start ≤ prev ∧ last = toInt32 (prev >>> 21) ∧
    l4 = tableAtHand m root start prev ∧ (l4 ≠ NULL → Grants m root prev perm)

theorem Cached.start_le {perm start va l4 : Nat} {last : Int}
    (h : Cached m root perm start va last l4) : start ≤ va := by
  rcases h with ⟨rfl, -⟩ | ⟨prev, rfl, hle, -⟩
  · exact Nat.le_refl va
  · omega

/-- The table that a round of the loop works on, found by a new walk or kept from the round before. -/
theorem Cached.table {perm start va l4 l4' : Nat} {last : Int}
    (h : Cached m root perm start va last l4)
    (hround : (if toInt32 (va >>> 21) ≠ last then lookupL4pagetable m root va perm else .ok l4) =
      .ok l4') :
    l4' = tableAtHand m root start va ∧ (l4' ≠ NULL → Grants m root va perm) := by
  -- the table is looked up again, or it is the one of the page before
  by_cases hcur : toInt32 (va >>> 21) ≠ last
  · rw [if_pos hcur] at hround
    refine ⟨?_, fun ht => (l4Levels_ok hround ht).2⟩
    rw [lookupL4pagetable_eq hround, tableAtHand, if_neg]
    rintro ⟨hstart, hdiv⟩
    rcases h with ⟨hva, hlast, -⟩ | ⟨prev, hva, hle, hlast, -⟩
    · rw [hva, hlast] at hcur
      exact hcur hstart
    · -- the walk has left the region it started in
      apply hcur
      have hprev : va / 2 ^ 21 = prev / 2 ^ 21 := by
        omega
      rw [hlast, Nat.shiftRight_eq_div_pow, Nat.shiftRight_eq_div_pow, hprev]
  · rw [if_neg hcur] at hround
    have hsame := not_not.1 hcur
    obtain rfl := Except.ok.inj hround
    rcases h with ⟨hva, hlast, hl4⟩ | ⟨prev, hva, hle, hlast, hl4, hgrants⟩
    · refine ⟨?_, fun ht => absurd hl4 ht⟩
      rw [hva, hlast] at hsame
      rw [tableAtHand, hva, if_pos ⟨hsame, rfl⟩, hl4]
    · rw [hlast] at hsame
      have hdiv := div_eq_of_toInt32_eq hva hsame
      refine ⟨?_, fun ht => (hgrants ht).of_indices (indices_of_div hdiv)⟩
      rw [hl4, tableAtHand_of_div hdiv]

/-- The entry that `virtual_memory_map` writes for a page. -/
def leafValue (pa perm : Nat) : Nat := if perm &&& PTE_P ≠ 0 then pa ||| perm else perm

/-- One round of the loop of `virtual_memory_map`. -/
theorem mapPages_round {n start va pa perm l4 : Nat} {last r : Int} {m' : Mem}
    (hcache : Cached m root perm start va last l4)
    (h : mapPages root perm (n + 1) m va pa last l4 = .ok (m', r)) :
    (tableAtHand m root start va ≠ NULL ∧ Grants m root va perm ∧
      mapPages root perm n
        (Kernel.setEntry m (tableAtHand m root start va) (pageindex va 3) (leafValue pa perm))
        ((va + PAGESIZE) % 2 ^ 64) ((pa + PAGESIZE) % 2 ^ 64) (toInt32 (va >>> 21))
        (tableAtHand m root start va) = .ok (m', r)) ∨
    (tableAtHand m root start va = NULL ∧ perm &&& PTE_P ≠ 0 ∧ m' = m ∧ r = -1) ∨
    (tableAtHand m root start va = NULL ∧ ¬ perm &&& PTE_P ≠ 0 ∧
      mapPages root perm n m ((va + PAGESIZE) % 2 ^ 64) ((pa + PAGESIZE) % 2 ^ 64)
        (toInt32 (va >>> 21)) NULL = .ok (m', r)) := by
  rw [mapPages] at h
  simp only [bind, Except.bind] at h
  -- the table of this round, and the code that works on it
  obtain ⟨l4', hround, hrest⟩ : ∃ l4', (if toInt32 (va >>> 21) ≠ last then
        lookupL4pagetable m root va perm else .ok l4) = .ok l4' ∧
      (if perm &&& PTE_P ≠ 0 ∧ l4' ≠ NULL then
        mapPages root perm n (Kernel.setEntry m l4' (pageindex va 3) (pa ||| perm))
          ((va + PAGESIZE) % 2 ^ 64) ((pa + PAGESIZE) % 2 ^ 64) (toInt32 (va >>> 21)) l4'
      else if l4' ≠ NULL then
        mapPages root perm n (Kernel.setEntry m l4' (pageindex va 3) perm)
          ((va + PAGESIZE) % 2 ^ 64) ((pa + PAGESIZE) % 2 ^ 64) (toInt32 (va >>> 21)) l4'
      else if perm &&& PTE_P ≠ 0 then .ok (m, -1)
      else mapPages root perm n m ((va + PAGESIZE) % 2 ^ 64) ((pa + PAGESIZE) % 2 ^ 64)
        (toInt32 (va >>> 21)) l4') = .ok (m', r) := by
    by_cases hcur : toInt32 (va >>> 21) ≠ last
    · rw [if_pos hcur] at h ⊢
      cases hl4 : lookupL4pagetable m root va perm with
      | error e =>
          rw [hl4] at h
          cases h
      | ok t =>
          rw [hl4] at h
          exact ⟨t, rfl, h⟩
    · rw [if_neg hcur] at h ⊢
      exact ⟨l4, rfl, h⟩
  obtain ⟨htable, hgrants⟩ := hcache.table hround
  rw [← htable]
  by_cases hnull : l4' = NULL
  · rw [if_neg fun e => e.2 hnull, if_neg fun e => e hnull] at hrest
    by_cases hpresent : perm &&& PTE_P ≠ 0
    · rw [if_pos hpresent] at hrest
      simp only [Except.ok.injEq, Prod.mk.injEq] at hrest
      exact Or.inr (Or.inl ⟨hnull, hpresent, hrest.1.symm, hrest.2.symm⟩)
    · rw [if_neg hpresent, hnull] at hrest
      exact Or.inr (Or.inr ⟨hnull, hpresent, hrest⟩)
  · refine Or.inl ⟨hnull, hgrants hnull, ?_⟩
    by_cases hpresent : perm &&& PTE_P ≠ 0
    · rw [if_pos ⟨hpresent, hnull⟩] at hrest
      rw [leafValue, if_pos hpresent]
      exact hrest
    · rw [if_neg fun e => hpresent e.1, if_pos hnull] at hrest
      rw [leafValue, if_neg hpresent]
      exact hrest

/-- What the lookup reports for the address `a` once `virtual_memory_map` has written its page, the
`j`-th of the range. -/
def mappedTo (pa perm j a : Nat) : Vamapping :=
  if perm &&& PTE_P ≠ 0 then ⟨(pa / 4096 + j : Nat), pa + 4096 * j + a % 4096, perm⟩
  else Vamapping.unmapped

/-- A leaf that is not present hides its page. -/
theorem Tree.lookup_setEntry_absent (htree : Tree m root) (hroot : root % 4096 = 0) {va v : Nat}
    (ht : tableAt m root (indices va) = some t) (hv : v < 2 ^ 64) (habsent : ¬ v &&& PTE_P ≠ 0)
    {a : Nat} (ha : page48 a = page48 va) :
    virtualMemoryLookup (Kernel.setEntry m t (pageindex va 3) v) root a = Vamapping.unmapped := by
  have halign := tableAt_aligned hroot ht
  have hpath : tableAt (Kernel.setEntry m t (pageindex va 3) v) root
      ([0, 1, 2, 3].map (pageindex va)) =
      if lookupLevels (Kernel.setEntry m t (pageindex va 3) v) va [0, 1, 2, 3] root
        (PTE_W ||| PTE_U ||| PTE_P) &&& PTE_P ≠ 0 then
        some (pteAddr (lookupLevels (Kernel.setEntry m t (pageindex va 3) v) va [0, 1, 2, 3] root
          (PTE_W ||| PTE_U ||| PTE_P))) else none :=
    tableAt_levels va (by decide) (by simp)
  have hnone : tableAt (Kernel.setEntry m t (pageindex va 3) v) root
      ([0, 1, 2, 3].map (pageindex va)) = none := by
    show tableAt _ root (indices va ++ [pageindex va 3]) = none
    rw [tableAt_append, tableAt_indices_eq hroot ht htree hv, ht]
    show tableAt _ t [pageindex va 3] = none
    have hentry : entry (Kernel.setEntry m t (pageindex va 3) v) t (pageindex va 3) = v := by
      rw [entry_setEntry halign halign (pageindex_lt va 3) (pageindex_lt va 3) hv,
        if_pos ⟨rfl, rfl⟩]
    rw [tableAt, hentry, if_neg habsent]
  rw [hnone] at hpath
  rw [virtualMemoryLookup, lookupLevels_of_page48 ha]
  apply if_neg
  intro hpresent
  rw [if_pos hpresent] at hpath
  cases hpath

/-- One page that `virtual_memory_map` writes. -/
theorem Tree.lookup_leafValue (htree : Tree m root) (hroot : root % 4096 = 0) {va pa perm : Nat}
    (ht : tableAt m root (indices va) = some t) (hgrants : Grants m root va perm)
    (hperm : perm < 4096) (hpa : perm &&& PTE_P ≠ 0 → pa % 4096 = 0 ∧ pa + 4096 ≤ 0x200000) {a : Nat}
    (ha : page48 a = page48 va) :
    virtualMemoryLookup (Kernel.setEntry m t (pageindex va 3) (leafValue pa perm)) root a =
      mappedTo pa perm 0 a := by
  by_cases hpresent : perm &&& PTE_P ≠ 0
  · obtain ⟨hpa0, hlt⟩ := hpa hpresent
    rw [leafValue, if_pos hpresent, mappedTo, if_pos hpresent,
      htree.lookup_setEntry_same hroot ht hgrants hpa0 hlt hperm hpresent ha]
    rfl
  · rw [leafValue, if_neg hpresent, mappedTo, if_neg hpresent]
    exact htree.lookup_setEntry_absent hroot ht (by omega) hpresent ha

theorem leafValue_lt {pa perm : Nat} (hperm : perm < 4096)
    (hpa : perm &&& PTE_P ≠ 0 → pa % 4096 = 0 ∧ pa + 4096 ≤ 0x200000) :
    leafValue pa perm < 2 ^ 64 := by
  unfold leafValue
  split
  · rename_i hpresent
    obtain ⟨hpa0, hlt⟩ := hpa hpresent
    rw [leaf_eq hpa0 hperm]
    omega
  · omega

/-- The bounds that the assertions of `virtual_memory_map` leave for a range of `n` pages. -/
structure MapBounds (root va pa perm n : Nat) : Prop where
  aligned : root % 4096 = 0
  flags : perm < 4096
  range : va + 4096 * n ≤ 2 ^ 64
  frames : perm &&& PTE_P ≠ 0 → pa % 4096 = 0 ∧ pa + 4096 * n ≤ 0x200000

/-- The effect of the loop of `virtual_memory_map` on `n` pages from `va`: it works on the first `k` of
them, and stops early only at a present page without a table at hand. -/
structure MapEffect (m m' : Mem) (root start va pa perm n : Nat) (r : Int) (k : Nat) : Prop where
  le : k ≤ n
  result : r = if k = n then 0 else -1
  table : perm &&& PTE_P ≠ 0 → ∀ j, j < k → tableAtHand m root start (va + 4096 * j) ≠ NULL
  stop : k < n → perm &&& PTE_P ≠ 0 ∧ tableAtHand m root start (va + 4096 * k) = NULL
  inside : ∀ j, j < k → tableAtHand m root start (va + 4096 * j) ≠ NULL →
    ∀ a, page48 a = page48 (va + 4096 * j) → virtualMemoryLookup m' root a = mappedTo pa perm j a
  outside : ∀ a, (∀ j, j < k → tableAtHand m root start (va + 4096 * j) ≠ NULL →
    page48 a ≠ page48 (va + 4096 * j)) → virtualMemoryLookup m' root a = virtualMemoryLookup m root a

theorem mappedTo_succ (pa perm j a : Nat) : mappedTo (pa + 4096) perm j a = mappedTo pa perm (j + 1) a := by
  have hpn : (pa + 4096) / 4096 + j = pa / 4096 + (j + 1) := by omega
  have hpa : pa + 4096 + 4096 * j = pa + 4096 * (j + 1) := by
    rw [Nat.mul_succ, ← Nat.add_assoc, Nat.add_right_comm]
  rw [mappedTo, mappedTo, hpn, hpa]

theorem add_page_succ (va j : Nat) : va + 4096 + 4096 * j = va + 4096 * (j + 1) := by
  rw [Nat.mul_succ, ← Nat.add_assoc, Nat.add_right_comm]

/-- A page that is skipped, followed by the effect on the pages after it. -/
theorem MapEffect.skip {m' : Mem} {start va pa pa' perm n k : Nat} {r : Int}
    (hpresent : ¬ perm &&& PTE_P ≠ 0) (htable : tableAtHand m root start va = NULL)
    (h : MapEffect m m' root start (va + 4096) pa' perm n r k) :
    MapEffect m m' root start va pa perm (n + 1) r (k + 1) where
  le := Nat.succ_le_succ h.le
  result := by
    rw [h.result]
    simp only [Nat.add_right_cancel_iff]
  table := fun hp => absurd hp hpresent
  stop := fun hlt => absurd (h.stop (Nat.lt_of_succ_lt_succ hlt)).1 hpresent
  inside := by
    intro j hj hhand a ha
    cases j with
    | zero => exact absurd htable hhand
    | succ j =>
        rw [← add_page_succ] at hhand ha
        rw [h.inside j (Nat.lt_of_succ_lt_succ hj) hhand a ha, mappedTo, mappedTo, if_neg hpresent,
          if_neg hpresent]
  outside := by
    intro a ha
    apply h.outside
    intro j hj hhand
    rw [add_page_succ] at hhand ⊢
    exact ha (j + 1) (Nat.succ_lt_succ hj) hhand

/-- A page that is written, followed by the effect on the pages after it. -/
theorem MapEffect.write {m' : Mem} {start va pa perm n k : Nat} {r : Int} (htree : Tree m root)
    (hb : MapBounds root va pa perm (n + 1)) (hhand : tableAtHand m root start va ≠ NULL)
    (hgrants : Grants m root va perm)
    (h : MapEffect (Kernel.setEntry m (tableAtHand m root start va) (pageindex va 3)
      (leafValue pa perm)) m' root start (va + 4096) (pa + 4096) perm n r k) :
    MapEffect m m' root start va pa perm (n + 1) r (k + 1) := by
  have ht := tableAt_of_tableAtHand hhand
  have hva := hb.range
  rw [Nat.mul_succ, ← Nat.add_assoc] at hva
  have hpa : perm &&& PTE_P ≠ 0 → pa % 4096 = 0 ∧ pa + 4096 ≤ 0x200000 := by
    intro hp
    obtain ⟨h0, h1⟩ := hb.frames hp
    rw [Nat.mul_succ, ← Nat.add_assoc] at h1
    exact ⟨h0, by omega⟩
  have hv := leafValue_lt hb.flags hpa
  have hsame : ∀ a, tableAtHand (Kernel.setEntry m (tableAtHand m root start va) (pageindex va 3)
      (leafValue pa perm)) root start a = tableAtHand m root start a :=
    fun a => tableAtHand_congr (tableAt_indices_eq hb.aligned ht htree hv a)
  have hfirst := fun a => htree.lookup_leafValue (a := a) hb.aligned ht hgrants hb.flags hpa
  refine ⟨Nat.succ_le_succ h.le, ?_, ?_, ?_, ?_, ?_⟩
  · rw [h.result]
    simp only [Nat.add_right_cancel_iff]
  · intro hp j hj
    cases j with
    | zero => exact hhand
    | succ j =>
        have := h.table hp j (Nat.lt_of_succ_lt_succ hj)
        rw [hsame, add_page_succ] at this
        exact this
  · intro hlt
    have := h.stop (Nat.lt_of_succ_lt_succ hlt)
    rw [hsame, add_page_succ] at this
    exact this
  · intro j hj hhandj a ha
    cases j with
    | succ j =>
        rw [← add_page_succ] at hhandj ha
        rw [h.inside j (Nat.lt_of_succ_lt_succ hj) (by rw [hsame]; exact hhandj) a ha, mappedTo_succ]
    | zero =>
        -- a later round may come to the same page again only when it hides it again
        by_cases hlater : ∃ j, j < k ∧ tableAtHand m root start (va + 4096 + 4096 * j) ≠ NULL ∧
            page48 a = page48 (va + 4096 + 4096 * j)
        · obtain ⟨j, hjk, hhandj', ha'⟩ := hlater
          rw [h.inside j hjk (by rw [hsame]; exact hhandj') a ha']
          by_cases hp : perm &&& PTE_P ≠ 0
          · exfalso
            have hle := h.le
            obtain ⟨-, hmem⟩ := hb.frames hp
            rw [ha'] at ha
            simp only [page48] at ha
            omega
          · rw [mappedTo, mappedTo, if_neg hp, if_neg hp]
        · rw [h.outside a fun j hjk hhandj' e => hlater ⟨j, hjk, by rw [← hsame]; exact hhandj', e⟩,
            hfirst a ha]
  · intro a ha
    rw [h.outside a fun j hj hhandj => ?_]
    · exact htree.lookup_setEntry_other hb.aligned ht hv (ha 0 (Nat.succ_pos k) hhand)
    · rw [hsame, add_page_succ] at hhandj
      rw [add_page_succ]
      exact ha (j + 1) (Nat.succ_lt_succ hj) hhandj

theorem MapEffect.nil (m : Mem) (root start va pa perm : Nat) :
    MapEffect m m root start va pa perm 0 0 0 where
  le := Nat.le_refl 0
  result := rfl
  table := fun _ j hj => absurd hj (Nat.not_lt_zero j)
  stop := fun h => absurd h (Nat.lt_irrefl 0)
  inside := fun j hj => absurd hj (Nat.not_lt_zero j)
  outside := fun _ _ => rfl

/-- The loop of `virtual_memory_map`, page by page. -/
theorem mapPages_effect {n start va pa perm l4 : Nat} {last r : Int} {m' : Mem} (htree : Tree m root)
    (hb : MapBounds root va pa perm n) (hcache : Cached m root perm start va last l4)
    (h : mapPages root perm n m va pa last l4 = .ok (m', r)) :
    ∃ k, MapEffect m m' root start va pa perm n r k := by
  induction n generalizing m va pa last l4 with
  | zero =>
      rw [mapPages] at h
      simp only [Except.ok.injEq, Prod.mk.injEq] at h
      obtain ⟨rfl, rfl⟩ := h
      exact ⟨0, MapEffect.nil m root start va pa perm⟩
  | succ n ih =>
      have hva := hb.range
      rw [Nat.mul_succ, ← Nat.add_assoc] at hva
      -- the pages after the first one, from a memory with the same tables at hand
      have hrest : ∀ m₁ : Mem, ∀ pa' l4', Tree m₁ root →
          (perm &&& PTE_P ≠ 0 → pa' % 4096 = 0 ∧ pa' + 4096 * n ≤ 0x200000) →
          tableAtHand m₁ root start va = l4' → (l4' ≠ NULL → Grants m₁ root va perm) →
          mapPages root perm n m₁ ((va + PAGESIZE) % 2 ^ 64) pa' (toInt32 (va >>> 21)) l4' =
            .ok (m', r) → ∃ k, MapEffect m₁ m' root start (va + 4096) pa' perm n r k := by
        intro m₁ pa' l4' htree₁ hpa₁ htable hgrants hcode
        cases n with
        | zero =>
            rw [mapPages] at hcode
            simp only [Except.ok.injEq, Prod.mk.injEq] at hcode
            obtain ⟨rfl, rfl⟩ := hcode
            exact ⟨0, MapEffect.nil m₁ root start (va + 4096) pa' perm⟩
        | succ n =>
            have hnext : (va + PAGESIZE) % 2 ^ 64 = va + 4096 := by
              simp only [PAGESIZE]
              omega
            rw [hnext] at hcode
            rw [Nat.add_right_comm] at hva
            exact ih htree₁ ⟨hb.aligned, hb.flags, hva, hpa₁⟩
              (Or.inr ⟨va, rfl, hcache.start_le, rfl, htable.symm, hgrants⟩) hcode
      rcases mapPages_round hcache h with ⟨hhand, hgrants, hcode⟩ | ⟨hnull, hp, rfl, rfl⟩ |
          ⟨hnull, hp, hcode⟩
      · have ht := tableAt_of_tableAtHand hhand
        have hpa : perm &&& PTE_P ≠ 0 → pa % 4096 = 0 ∧ pa + 4096 + 4096 * n ≤ 0x200000 := by
          intro hp
          obtain ⟨h0, h1⟩ := hb.frames hp
          rw [Nat.mul_succ, ← Nat.add_assoc, Nat.add_right_comm] at h1
          exact ⟨h0, h1⟩
        have hv := leafValue_lt hb.flags fun hp => ⟨(hpa hp).1, Nat.le_trans (Nat.le_add_right _ _) (hpa hp).2⟩
        have hmod : perm &&& PTE_P ≠ 0 → (pa + PAGESIZE) % 2 ^ 64 = pa + 4096 := by
          intro hp
          simp only [PAGESIZE]
          omega
        obtain ⟨k, hk⟩ := hrest _ ((pa + PAGESIZE) % 2 ^ 64) _
          (htree.setEntry hb.aligned (indexPath_indices va) rfl ht (pageindex_lt va 3) hv)
          (fun hp => by
            rw [hmod hp]
            exact ⟨by have := (hpa hp).1; omega, (hpa hp).2⟩)
          (tableAtHand_congr (tableAt_indices_eq hb.aligned ht htree hv va))
          (fun _ => htree.grants_setEntry hb.aligned ht hgrants hv) hcode
        refine ⟨k + 1, MapEffect.write htree hb hhand hgrants ?_⟩
        by_cases hp : perm &&& PTE_P ≠ 0
        · rw [hmod hp] at hk
          exact hk
        · -- the physical address of a page that is hidden does not matter
          refine ⟨hk.le, hk.result, hk.table, hk.stop, fun j hj hh a ha => ?_, hk.outside⟩
          rw [hk.inside j hj hh a ha, mappedTo, mappedTo, if_neg hp, if_neg hp]
      · exact ⟨0, Nat.zero_le _, rfl, fun _ j hj => absurd hj (Nat.not_lt_zero j), fun _ => ⟨hp, hnull⟩,
          fun j hj => absurd hj (Nat.not_lt_zero j), fun _ _ => rfl⟩
      · obtain ⟨k, hk⟩ := hrest m _ NULL htree (fun h => absurd h hp) hnull
          (fun e => absurd rfl e) hcode
        exact ⟨k + 1, hk.skip hp hnull⟩

end Pages

/-! ## A chain of tables -/

/-- Four tables at `0x1000`, `0x2000`, `0x3000` and `0x4000`, each the entry `i` of the one before. -/
def tableChain (i : Nat) : Mem :=
  setEntry (setEntry (setEntry (fun _ => 0) 0x1000 i 0x2007) 0x2000 i 0x3007) 0x3000 i 0x4007

theorem entry_tableChain {i t j : Nat} (hi : i < 512) (ht : t % 4096 = 0) (hj : j < 512) :
    entry (tableChain i) t j =
      if j = i ∧ (t = 0x1000 ∨ t = 0x2000 ∨ t = 0x3000) then t + 0x1007 else 0 := by
  have hzero : entry (fun _ => 0) t j = 0 := by
    simp [entry, loadLE]
  rw [tableChain, entry_setEntry (by decide) ht hj hi (by decide),
    entry_setEntry (by decide) ht hj hi (by decide),
    entry_setEntry (by decide) ht hj hi (by decide), hzero]
  by_cases h0 : j = i
  · by_cases h1 : t = 0x1000
    · simp [h0, h1]
    · by_cases h2 : t = 0x2000
      · simp [h0, h2]
      · by_cases h3 : t = 0x3000 <;> simp [h0, h1, h2, h3]
  · simp [h0]

/-- A walk over the chain takes the entries `i` only and moves one page each time. -/
theorem tableAt_tableChain {i : Nat} (hi : i < 512) {path : List Nat} (hpath : ∀ j ∈ path, j < 512)
    {n t : Nat} (h : tableAt (tableChain i) (0x1000 * (n + 1)) path = some t) :
    path = List.replicate path.length i ∧ t = 0x1000 * (n + 1 + path.length) := by
  induction path generalizing n with
  | nil => exact ⟨rfl, (Option.some.inj h).symm⟩
  | cons j path ih =>
      obtain ⟨hpresent, hrest⟩ := tableAt_cons_eq_some h
      rw [entry_tableChain hi (by omega) (hpath j (by simp))] at hpresent hrest
      by_cases hchain : j = i ∧ (0x1000 * (n + 1) = 0x1000 ∨ 0x1000 * (n + 1) = 0x2000 ∨
          0x1000 * (n + 1) = 0x3000)
      · rw [if_pos hchain, pteAddr_eq (by omega)] at hrest
        have hnext : (0x1000 * (n + 1) + 0x1007) / 4096 * 4096 = 0x1000 * (n + 1 + 1) := by omega
        rw [hnext] at hrest
        obtain ⟨hsame, ht⟩ := ih (fun l hl => hpath l (List.mem_cons_of_mem j hl)) hrest
        refine ⟨?_, ?_⟩
        · rw [List.length_cons, List.replicate_succ, ← hsame, hchain.1]
        · rw [ht, List.length_cons]
          omega
      · rw [if_neg hchain] at hpresent
        exact absurd rfl hpresent

theorem tree_tableChain {i : Nat} (hi : i < 512) : Tree (tableChain i) 0x1000 := by
  intro p q t hp hq h1 h2
  obtain ⟨hsame, ht⟩ := tableAt_tableChain hi hp.2 (n := 0) h1
  obtain ⟨hsame', ht'⟩ := tableAt_tableChain hi hq.2 (n := 0) h2
  have hlen : p.length = q.length := by omega
  rw [hsame, hsame', hlen]

/-! ## Map then lookup -/

/-- What a call of `virtual_memory_map` that passes its assertions has checked, and its effect. -/
theorem virtualMemoryMap_effect {m m' : Mem} {pagetable va pa sz perm : Nat} {r : Int}
    (hva : va < 2 ^ 64) (hpa : pa < 2 ^ 64) (hsz : sz < 2 ^ 64) (htree : Tree m pagetable)
    (h : virtualMemoryMap m pagetable va pa sz perm = .ok (m', r)) :
    va % 4096 = 0 ∧ sz = 4096 * (sz / 4096) ∧ MapBounds pagetable va pa perm (sz / 4096) ∧
      ∃ k, MapEffect m m' pagetable va va pa perm (sz / 4096) r k := by
  rw [virtualMemoryMap] at h
  obtain ⟨hva0, h1⟩ := assert_bind_eq_ok.1 h
  obtain ⟨hsz0, h2⟩ := assert_bind_eq_ok.1 h1
  obtain ⟨hwrap, h3⟩ := assert_bind_eq_ok.1 h2
  simp only [PAGESIZE] at hva0 hsz0
  have hn : sz = 4096 * (sz / 4096) := by omega
  have hrange : va + 4096 * (sz / 4096) ≤ 2 ^ 64 := by omega
  obtain ⟨hframes, hperm, hroot, hcode⟩ : (perm &&& PTE_P ≠ 0 → pa % 4096 = 0 ∧
      pa + 4096 * (sz / 4096) ≤ 0x200000) ∧ perm < 0x1000 ∧ pagetable % PAGESIZE = 0 ∧
      mapPages pagetable perm (sz / PAGESIZE) m va pa (-1) NULL = .ok (m', r) := by
    -- the physical range is checked for a present mapping only
    by_cases hpresent : perm &&& PTE_P ≠ 0
    · rw [if_pos hpresent] at h3
      obtain ⟨hpa0, h4⟩ := assert_bind_eq_ok.1 h3
      obtain ⟨hpawrap, h5⟩ := assert_bind_eq_ok.1 h4
      obtain ⟨hmem, h6⟩ := assert_bind_eq_ok.1 h5
      obtain ⟨hperm, h7⟩ := assert_bind_eq_ok.1 h6
      obtain ⟨hroot, h8⟩ := assert_bind_eq_ok.1 h7
      simp only [PAGESIZE, MEMSIZE_PHYSICAL] at hpa0 hmem
      exact ⟨fun _ => ⟨hpa0, by omega⟩, hperm, hroot, h8⟩
    · rw [if_neg hpresent] at h3
      obtain ⟨hperm, h7⟩ := assert_bind_eq_ok.1 h3
      obtain ⟨hroot, h8⟩ := assert_bind_eq_ok.1 h7
      exact ⟨fun e => absurd e hpresent, hperm, hroot, h8⟩
  have hb : MapBounds pagetable va pa perm (sz / 4096) := ⟨hroot, hperm, hrange, hframes⟩
  exact ⟨hva0, hn, hb, mapPages_effect htree hb (Or.inl ⟨rfl, rfl, rfl⟩) hcode⟩

/-- The address `va + x` lies on page `x / 4096` of the range. -/
theorem page48_offset {va : Nat} (hva : va % 4096 = 0) (x : Nat) :
    page48 (va + x) = page48 (va + 4096 * (x / 4096)) := by
  rw [page48, page48]
  omega

theorem mappedTo_offset {va pa : Nat} (hva : va % 4096 = 0) (hpa : pa % 4096 = 0) {perm : Nat}
    (hpresent : perm &&& PTE_P ≠ 0) (x : Nat) :
    mappedTo pa perm (x / 4096) (va + x) = ⟨((pa + x) / 4096 : Nat), pa + x, perm⟩ := by
  have hpn : pa / 4096 + x / 4096 = (pa + x) / 4096 := by omega
  have hoff : pa + 4096 * (x / 4096) + (va + x) % 4096 = pa + x := by omega
  rw [mappedTo, if_pos hpresent, hpn, hoff]

/-- After a successful map of present pages, every address of the range is found at its physical
address with exactly the permissions asked for, and every other page is found as before. -/
theorem map_lookup_agree {m m' : Mem} {pagetable va pa sz perm : Nat} (hva : va < 2 ^ 64)
    (hpa : pa < 2 ^ 64) (hsz : sz < 2 ^ 64) (htree : Tree m pagetable)
    (hpresent : perm &&& PTE_P ≠ 0)
    (h : virtualMemoryMap m pagetable va pa sz perm = .ok (m', 0)) :
    (∀ x, x < sz → virtualMemoryLookup m' pagetable (va + x) =
      ⟨((pa + x) / 4096 : Nat), pa + x, perm⟩) ∧
    ∀ a, (∀ x, x < sz → page48 a ≠ page48 (va + x)) →
      virtualMemoryLookup m' pagetable a = virtualMemoryLookup m pagetable a := by
  obtain ⟨hva0, hn, hb, k, heffect⟩ := virtualMemoryMap_effect hva hpa hsz htree h
  -- the loop has gone through
  have hk : k = sz / 4096 := by
    by_contra hne
    have := heffect.result
    rw [if_neg hne] at this
    cases this
  constructor
  · intro x hx
    have hj : x / 4096 < k := by omega
    rw [heffect.inside (x / 4096) hj (heffect.table hpresent _ hj) (va + x) (page48_offset hva0 x)]
    exact mappedTo_offset hva0 (hb.frames hpresent).1 hpresent x
  · intro a ha
    apply heffect.outside
    intro j hj _
    exact ha (4096 * j) (by omega)

/-- Two pages mapped in the chain, user-writable. -/
theorem map_lookup_agree_tableChain :
    ∃ m', virtualMemoryMap (tableChain 0) 0x1000 0x3000 0x8000 0x2000 7 = .ok (m', 0) ∧
      virtualMemoryLookup m' 0x1000 0x4123 = ⟨9, 0x9123, 7⟩ ∧
      virtualMemoryLookup m' 0x1000 0x5000 = virtualMemoryLookup (tableChain 0) 0x1000 0x5000 := by
  have hrun : ∃ m', virtualMemoryMap (tableChain 0) 0x1000 0x3000 0x8000 0x2000 7 = .ok (m', 0) :=
    ⟨_, rfl⟩
  obtain ⟨m', h⟩ := hrun
  obtain ⟨hin, hout⟩ := map_lookup_agree (by decide) (by decide) (by decide)
    (tree_tableChain (by decide)) (by decide) h
  refine ⟨m', h, hin 0x1123 (by decide), hout 0x5000 fun x hx => ?_⟩
  rw [page48, page48]
  omega

/-! ## Failure and unmapping -/

/-- One of the first three entries of the page is not present. -/
def TableMissing (m : Mem) (pagetable va : Nat) : Prop := tableAt m pagetable (indices va) = none

/-- The promise of `virtual_memory_map`. With `PTE_P` it returns -1 exactly when some page of the range
lacks a table, and has then mapped exactly the pages before the first such page; without `PTE_P` it
returns 0 and hides every page of the range. -/
def MapContract (m m' : Mem) (pagetable va pa sz perm : Nat) (r : Int) : Prop :=
  (perm &&& PTE_P ≠ 0 →
    (r = -1 ↔ ∃ j, j < sz / 4096 ∧ TableMissing m pagetable (va + 4096 * j)) ∧
    ∀ j, j < sz / 4096 → TableMissing m pagetable (va + 4096 * j) →
      (∀ i, i < j → ¬ TableMissing m pagetable (va + 4096 * i)) →
        (∀ x, x < 4096 * j → virtualMemoryLookup m' pagetable (va + x) =
          ⟨((pa + x) / 4096 : Nat), pa + x, perm⟩) ∧
        ∀ a, (∀ x, x < 4096 * j → page48 a ≠ page48 (va + x)) →
          virtualMemoryLookup m' pagetable a = virtualMemoryLookup m pagetable a) ∧
  (¬ perm &&& PTE_P ≠ 0 →
    r = 0 ∧ (∀ x, x < sz → virtualMemoryLookup m' pagetable (va + x) = Vamapping.unmapped) ∧
      ∀ a, (∀ x, x < sz → page48 a ≠ page48 (va + x)) →
        virtualMemoryLookup m' pagetable a = virtualMemoryLookup m pagetable a)

/-- The loop has a table at hand for every page that it should write, or the pages it cannot write
already look as they should. -/
def TablesAtHand (m : Mem) (pagetable va pa sz perm : Nat) : Prop :=
  (perm &&& PTE_P ≠ 0 →
    (∀ j, j < sz / 4096 → tableAtHand m pagetable va (va + 4096 * j) ≠ NULL) ∨
    ∃ j, j < sz / 4096 ∧ TableMissing m pagetable (va + 4096 * j) ∧
      (∀ i, i < j → ¬ TableMissing m pagetable (va + 4096 * i)) ∧
      ∀ x, x < 4096 * j →
        (∀ i, i ≤ x / 4096 → tableAtHand m pagetable va (va + 4096 * i) ≠ NULL) ∨
        virtualMemoryLookup m pagetable (va + x) = ⟨((pa + x) / 4096 : Nat), pa + x, perm⟩) ∧
  (¬ perm &&& PTE_P ≠ 0 → ∀ x, x < sz →
    (∃ j, j < sz / 4096 ∧ tableAtHand m pagetable va (va + 4096 * j) ≠ NULL ∧
      page48 (va + x) = page48 (va + 4096 * j)) ∨
    virtualMemoryLookup m pagetable (va + x) = Vamapping.unmapped)

theorem not_tableMissing {m : Mem} {pagetable start va : Nat}
    (h : tableAtHand m pagetable start va ≠ NULL) : ¬ TableMissing m pagetable va := by
  intro hmissing
  have := tableAt_of_tableAtHand h
  rw [TableMissing] at hmissing
  rw [hmissing] at this
  cases this

section Contract

variable {m m' : Mem} {pagetable va pa sz perm k : Nat} {r : Int}

/-- A page after the ones that have been written is found as before. -/
theorem MapEffect.untouched (hb : MapBounds pagetable va pa perm (sz / 4096))
    (hpresent : perm &&& PTE_P ≠ 0)
    (heffect : MapEffect m m' pagetable va va pa perm (sz / 4096) r k) {x : Nat}
    (hx : x < 4096 * (sz / 4096)) (hk : k ≤ x / 4096) :
    virtualMemoryLookup m' pagetable (va + x) = virtualMemoryLookup m pagetable (va + x) := by
  apply heffect.outside
  intro j hj _ hpage
  -- a range of present pages is too short to come back to the same page
  have hmem := (hb.frames hpresent).2
  rw [page48, page48] at hpage
  omega

theorem MapEffect.contract_present (hva0 : va % 4096 = 0)
    (hb : MapBounds pagetable va pa perm (sz / 4096)) (hpresent : perm &&& PTE_P ≠ 0)
    (heffect : MapEffect m m' pagetable va va pa perm (sz / 4096) r k) :
    MapContract m m' pagetable va pa sz perm r ↔ TablesAtHand m pagetable va pa sz perm := by
  have hpa0 := (hb.frames hpresent).1
  have hinside : ∀ x, x / 4096 < k → virtualMemoryLookup m' pagetable (va + x) =
      ⟨((pa + x) / 4096 : Nat), pa + x, perm⟩ := by
    intro x hx
    rw [heffect.inside _ hx (heffect.table hpresent _ hx) (va + x) (page48_offset hva0 x)]
    exact mappedTo_offset hva0 hpa0 hpresent x
  have hle := heffect.le
  constructor
  · rintro ⟨hcontract, -⟩
    refine ⟨fun _ => ?_, fun e => absurd hpresent e⟩
    obtain ⟨hfails, hpages⟩ := hcontract hpresent
    by_cases hk : k = sz / 4096
    · exact Or.inl fun j hj => heffect.table hpresent j (by omega)
    · -- the call has failed, so some page lacks a table: take the first one
      have hr : r = -1 := by
        rw [heffect.result, if_neg hk]
      classical
      have hsome := hfails.1 hr
      have hfirst := Nat.find_spec hsome
      have hmin : ∀ i, i < Nat.find hsome → ¬ TableMissing m pagetable (va + 4096 * i) := by
        intro i hi hmissing
        exact Nat.find_min hsome hi ⟨by omega, hmissing⟩
      refine Or.inr ⟨Nat.find hsome, hfirst.1, hfirst.2, hmin, fun x hx => ?_⟩
      by_cases hxk : x / 4096 < k
      · exact Or.inl fun i hi => heffect.table hpresent i (by omega)
      · refine Or.inr ?_
        rw [← heffect.untouched hb hpresent (by omega) (by omega)]
        exact (hpages _ hfirst.1 hfirst.2 hmin).1 x hx
  · rintro ⟨hhand, -⟩
    refine ⟨fun _ => ?_, fun e => absurd hpresent e⟩
    rcases hhand hpresent with hall | ⟨j, hj, hmissing, hmin, hpages⟩
    · have hk : k = sz / 4096 := by
        by_contra hne
        have hlt : k < sz / 4096 := by omega
        exact hall k hlt (heffect.stop hlt).2
      refine ⟨⟨fun hr => ?_, fun ⟨j, hj, hmissing⟩ => ?_⟩, fun j hj hmissing => ?_⟩
      · rw [heffect.result, if_pos hk] at hr
        cases hr
      · exact absurd hmissing (not_tableMissing (hall j hj))
      · exact absurd hmissing (not_tableMissing (hall j hj))
    · -- the run cannot have passed the first missing table
      have hkj : k ≤ j := by
        by_contra hlt
        exact not_tableMissing (heffect.table hpresent j (by omega)) hmissing
      have hr : r = -1 := by
        rw [heffect.result, if_neg (by omega)]
      refine ⟨⟨fun _ => ⟨j, hj, hmissing⟩, fun _ => hr⟩, fun j' hj' hmissing' hmin' => ?_⟩
      obtain rfl : j' = j := by
        rcases Nat.lt_trichotomy j' j with hlt | heq | hlt
        · exact absurd hmissing' (hmin j' hlt)
        · exact heq
        · exact absurd hmissing (hmin' j hlt)
      constructor
      · intro x hx
        by_cases hxk : x / 4096 < k
        · exact hinside x hxk
        · rw [heffect.untouched hb hpresent (by omega) (by omega)]
          rcases hpages x hx with hhand' | hsame
          · exact absurd (heffect.stop (by omega)).2 (hhand' k (by omega))
          · exact hsame
      · intro a ha
        apply heffect.outside
        intro i hi _
        exact ha (4096 * i) (by omega)

theorem MapEffect.contract_absent (hn : sz = 4096 * (sz / 4096))
    (habsent : ¬ perm &&& PTE_P ≠ 0)
    (heffect : MapEffect m m' pagetable va va pa perm (sz / 4096) r k) :
    MapContract m m' pagetable va pa sz perm r ↔ TablesAtHand m pagetable va pa sz perm := by
  have hle := heffect.le
  -- without the present bit no table is needed, so that the run never stops early
  have hk : k = sz / 4096 := by
    by_contra hne
    exact habsent (heffect.stop (by omega)).1
  have hr : r = 0 := by
    rw [heffect.result, if_pos hk]
  constructor
  · rintro ⟨-, hcontract⟩
    refine ⟨fun e => absurd e habsent, fun _ x hx => ?_⟩
    obtain ⟨-, hhidden, -⟩ := hcontract habsent
    -- the page has been written, or another one with the same table entry
    by_cases hwritten : ∃ j, j < sz / 4096 ∧ tableAtHand m pagetable va (va + 4096 * j) ≠ NULL ∧
        page48 (va + x) = page48 (va + 4096 * j)
    · exact Or.inl hwritten
    · refine Or.inr ?_
      rw [← hhidden x hx]
      refine (heffect.outside (va + x) fun j hj hhand hpage => ?_).symm
      exact hwritten ⟨j, by omega, hhand, hpage⟩
  · rintro ⟨-, hhand⟩
    refine ⟨fun e => absurd e habsent, fun _ => ⟨hr, fun x hx => ?_, fun a ha => ?_⟩⟩
    · by_cases hwritten : ∃ j, j < sz / 4096 ∧ tableAtHand m pagetable va (va + 4096 * j) ≠ NULL ∧
          page48 (va + x) = page48 (va + 4096 * j)
      · obtain ⟨j, hj, hhand', hpage⟩ := hwritten
        rw [heffect.inside j (by omega) hhand' _ hpage, mappedTo, if_neg habsent]
      · rw [heffect.outside (va + x) fun j hj hhand' hpage => hwritten ⟨j, by omega, hhand', hpage⟩]
        exact (hhand habsent x hx).resolve_left hwritten
    · apply heffect.outside
      intro j hj _
      exact ha (4096 * j) (by omega)

end Contract

/-- A call that passes its assertions keeps the promise of `virtual_memory_map` exactly when the loop
has the tables at hand. -/
theorem map_contract_iff {m m' : Mem} {pagetable va pa sz perm : Nat} {r : Int} (hva : va < 2 ^ 64)
    (hpa : pa < 2 ^ 64) (hsz : sz < 2 ^ 64) (htree : Tree m pagetable)
    (h : virtualMemoryMap m pagetable va pa sz perm = .ok (m', r)) :
    MapContract m m' pagetable va pa sz perm r ↔ TablesAtHand m pagetable va pa sz perm := by
  obtain ⟨hva0, hn, hb, k, heffect⟩ := virtualMemoryMap_effect hva hpa hsz htree h
  by_cases hpresent : perm &&& PTE_P ≠ 0
  · exact heffect.contract_present hva0 hb hpresent
  · exact heffect.contract_absent hn hpresent

/-- The chain has the table of both pages at hand. -/
theorem map_contract_iff_tableChain :
    ∃ m' r, virtualMemoryMap (tableChain 0) 0x1000 0x3000 0x8000 0x2000 7 = .ok (m', r) ∧
      MapContract (tableChain 0) m' 0x1000 0x3000 0x8000 0x2000 7 r := by
  have hrun : ∃ m' r, virtualMemoryMap (tableChain 0) 0x1000 0x3000 0x8000 0x2000 7 = .ok (m', r) :=
    ⟨_, _, rfl⟩
  obtain ⟨m', r, h⟩ := hrun
  refine ⟨m', r, h, (map_contract_iff (by decide) (by decide) (by decide)
    (tree_tableChain (by decide)) h).2 ⟨fun _ => Or.inl ?_, fun e => absurd (by decide) e⟩⟩
  decide

/-- At the top of the address space the first index is the mark -1: the call fails although all tables
are there. -/
theorem map_contract_top :
    Tree (tableChain 511) 0x1000 ∧
    virtualMemoryMap (tableChain 511) 0x1000 0xFFFFFFFFFFE00000 0x8000 0x1000 7 =
      .ok (tableChain 511, -1) ∧
    ¬ MapContract (tableChain 511) (tableChain 511) 0x1000 0xFFFFFFFFFFE00000 0x8000 0x1000 7 (-1) := by
  refine ⟨tree_tableChain (by decide), rfl, ?_⟩
  rintro ⟨hcontract, -⟩
  obtain ⟨j, hj, hmissing⟩ := (hcontract (by decide)).1.1 rfl
  obtain rfl : j = 0 := by omega
  have htable : tableAt (tableChain 511) 0x1000 (indices (0xFFFFFFFFFFE00000 + 4096 * 0)) =
      some 0x4000 := by decide
  rw [TableMissing, htable] at hmissing
  cases hmissing

end MemoryManagement.Kernel
