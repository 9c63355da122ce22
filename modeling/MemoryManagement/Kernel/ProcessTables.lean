import MemoryManagement.Kernel.AddressSpace
import Mathlib.Data.List.Nodup

/-!
# The five-page tables of a process

`process_config_tables` builds every page table of a process from five pages: one table on each of the
first three levels and two on the last, which cover the first 4 MB of the address space. A lookup in
such a table reads one entry of the two last-level pages (`Linked.lookup`).
-/

set_option autoImplicit false

namespace MemoryManagement.Kernel

open MemoryManagement.Library.ByteMemory

/-- The pages of a process's page table, from the first level down. -/
structure Tables where
  l1 : Nat
  l2 : Nat
  l3 : Nat
  l4a : Nat
  l4b : Nat
  deriving DecidableEq

/-- All five pages. -/
def Tables.pages (T : Tables) : List Nat := [T.l1, T.l2, T.l3, T.l4a, T.l4b]

@[simp] theorem Tables.l1_mem (T : Tables) : T.l1 ∈ T.pages := by
  simp [Tables.pages]

@[simp] theorem Tables.l2_mem (T : Tables) : T.l2 ∈ T.pages := by
  simp [Tables.pages]

@[simp] theorem Tables.l3_mem (T : Tables) : T.l3 ∈ T.pages := by
  simp [Tables.pages]

@[simp] theorem Tables.l4a_mem (T : Tables) : T.l4a ∈ T.pages := by
  simp [Tables.pages]

@[simp] theorem Tables.l4b_mem (T : Tables) : T.l4b ∈ T.pages := by
  simp [Tables.pages]

/-- Five different physical pages, none at address 0. -/
structure Tables.Ok (T : Tables) : Prop where
  aligned : ∀ t ∈ T.pages, t % 4096 = 0
  nonnull : ∀ t ∈ T.pages, t ≠ NULL
  physical : ∀ t ∈ T.pages, t < MEMSIZE_PHYSICAL
  nodup : T.pages.Nodup

/-- The index path of each page. -/
def Tables.paths (T : Tables) : List (List Nat × Nat) :=
  [([], T.l1), ([0], T.l2), ([0, 0], T.l3), ([0, 0, 0], T.l4a), ([0, 0, 1], T.l4b)]

/-- The last-level table of a page number. -/
def Tables.leafTable (T : Tables) (page : Nat) : Option Nat :=
  if page < 512 then some T.l4a else if page < 1024 then some T.l4b else none

/-- The three upper pages hold the links to the others and nothing else. -/
structure Linked (m : Mem) (T : Tables) : Prop where
  first : ∀ i, i < 512 → entry m T.l1 i = if i = 0 then T.l2 ||| 7 else 0
  second : ∀ i, i < 512 → entry m T.l2 i = if i = 0 then T.l3 ||| 7 else 0
  third : ∀ i, i < 512 → entry m T.l3 i =
    if i = 0 then T.l4a ||| 7 else if i = 1 then T.l4b ||| 7 else 0

/-- A link to an aligned page. -/
theorem pteAddr_link {t : Nat} (ht : t % 4096 = 0) (hlt : t < MEMSIZE_PHYSICAL) :
    pteAddr (t ||| 7) = t := by
  simp only [MEMSIZE_PHYSICAL] at hlt
  rw [leaf_eq ht (by decide), pteAddr_eq (by omega)]
  omega

theorem link_and {t k : Nat} (ht : t % 4096 = 0) (hk : k = PTE_P ∨ k = PTE_W ∨ k = PTE_U) :
    (t ||| 7) &&& k ≠ 0 := by
  have hbit : ∀ i, i < 3 → (t ||| 7).testBit i = true := by
    intro i hi
    rw [leaf_testBit ht 7 (by omega)]
    match i, hi with
    | 0, _ => rfl
    | 1, _ => rfl
    | 2, _ => rfl
  rcases hk with rfl | rfl | rfl
  · exact (and_two_pow_ne_zero _ 0).2 (hbit 0 (by decide))
  · exact (and_two_pow_ne_zero _ 1).2 (hbit 1 (by decide))
  · exact (and_two_pow_ne_zero _ 2).2 (hbit 2 (by decide))

section Five

variable {m : Mem} {T : Tables}

/-- A step of a walk over a link. -/
theorem tableAt_link {s t i : Nat} (ht : t % 4096 = 0) (hlt : t < MEMSIZE_PHYSICAL)
    (h : entry m s i = t ||| 7) (path : List Nat) : tableAt m s (i :: path) = tableAt m t path := by
  rw [tableAt, h, if_pos (link_and ht (Or.inl rfl)), pteAddr_link ht hlt]

theorem tableAt_nil_iff {s t : Nat} : tableAt m s [] = some t ↔ t = s := by
  rw [tableAt, Option.some_inj]
  exact eq_comm

theorem tableAt_noLink {s i : Nat} (h : entry m s i = 0) (path : List Nat) :
    tableAt m s (i :: path) = none := by
  rw [tableAt, h]
  rfl

namespace Linked

variable (h : Linked m T) (hT : T.Ok)
include h hT

theorem tableAt_first {i : Nat} (hi : i < 512) (path : List Nat) :
    tableAt m T.l1 (i :: path) = if i = 0 then tableAt m T.l2 path else none := by
  have hmem : T.l2 ∈ T.pages := T.l2_mem
  have hentry := h.first i hi
  split at hentry
  · rename_i h0
    rw [if_pos h0, tableAt_link (hT.aligned _ hmem) (hT.physical _ hmem) hentry]
  · rename_i h0
    rw [if_neg h0, tableAt_noLink hentry]

theorem tableAt_second {i : Nat} (hi : i < 512) (path : List Nat) :
    tableAt m T.l2 (i :: path) = if i = 0 then tableAt m T.l3 path else none := by
  have hmem : T.l3 ∈ T.pages := T.l3_mem
  have hentry := h.second i hi
  split at hentry
  · rename_i h0
    rw [if_pos h0, tableAt_link (hT.aligned _ hmem) (hT.physical _ hmem) hentry]
  · rename_i h0
    rw [if_neg h0, tableAt_noLink hentry]

theorem tableAt_third {i : Nat} (hi : i < 512) (path : List Nat) :
    tableAt m T.l3 (i :: path) =
      if i = 0 then tableAt m T.l4a path else if i = 1 then tableAt m T.l4b path else none := by
  have hmema : T.l4a ∈ T.pages := T.l4a_mem
  have hmemb : T.l4b ∈ T.pages := T.l4b_mem
  have hentry := h.third i hi
  split at hentry
  · rename_i h0
    rw [if_pos h0, tableAt_link (hT.aligned _ hmema) (hT.physical _ hmema) hentry]
  · rename_i h0
    split at hentry
    · rename_i h1
      rw [if_neg h0, if_pos h1, tableAt_link (hT.aligned _ hmemb) (hT.physical _ hmemb) hentry]
    · rename_i h1
      rw [if_neg h0, if_neg h1, tableAt_noLink hentry]

/-- The tables that can be reached, each by its own path. -/
theorem tableAt_iff {path : List Nat} (hpath : IndexPath path) {t : Nat} :
    tableAt m T.l1 path = some t ↔ (path, t) ∈ T.paths := by
  obtain ⟨hlen, hlt⟩ := hpath
  simp only [Tables.paths, List.mem_cons, List.not_mem_nil, or_false, Prod.mk.injEq]
  -- at each level only the entries that are linked lead on
  match path, hlen, hlt with
  | [], _, _ =>
      rw [tableAt_nil_iff]
      simp
  | [i], _, hlt =>
      rw [h.tableAt_first hT (hlt i (by simp))]
      by_cases hi : i = 0
      · rw [if_pos hi, tableAt_nil_iff]
        simp [hi]
      · simp [hi]
  | [i, j], _, hlt =>
      rw [h.tableAt_first hT (hlt i (by simp)), h.tableAt_second hT (hlt j (by simp))]
      by_cases hi : i = 0
      · by_cases hj : j = 0
        · rw [if_pos hi, if_pos hj, tableAt_nil_iff]
          simp [hi, hj]
        · simp [hi, hj]
      · simp [hi]
  | [i, j, k], _, hlt =>
      rw [h.tableAt_first hT (hlt i (by simp)), h.tableAt_second hT (hlt j (by simp)),
        h.tableAt_third hT (hlt k (by simp))]
      by_cases hi : i = 0
      · by_cases hj : j = 0
        · by_cases hk : k = 0
          · rw [if_pos hi, if_pos hj, if_pos hk, tableAt_nil_iff]
            simp [hi, hj, hk]
          · by_cases hk1 : k = 1
            · rw [if_pos hi, if_pos hj, if_neg hk, if_pos hk1, tableAt_nil_iff]
              simp [hi, hj, hk1]
            · simp [hi, hj, hk, hk1]
        · simp [hi, hj]
      · simp [hi]

theorem isTable_iff {t : Nat} : IsTable m T.l1 t ↔ t ∈ T.pages := by
  constructor
  · rintro ⟨path, hpath, ht⟩
    have hmem := List.mem_map_of_mem (f := Prod.snd) ((h.tableAt_iff hT hpath).1 ht)
    exact hmem
  · intro ht
    obtain ⟨⟨path, t'⟩, hmem, rfl⟩ : ∃ e ∈ T.paths, e.2 = t := by
      have : t ∈ T.paths.map Prod.snd := ht
      exact List.mem_map.1 this
    have hpath : IndexPath path := by
      simp only [Tables.paths, List.mem_cons, List.not_mem_nil, or_false, Prod.mk.injEq] at hmem
      rcases hmem with ⟨rfl, -⟩ | ⟨rfl, -⟩ | ⟨rfl, -⟩ | ⟨rfl, -⟩ | ⟨rfl, -⟩ <;>
        exact ⟨by decide, by decide⟩
    exact ⟨path, hpath, (h.tableAt_iff hT hpath).2 hmem⟩

/-- Five linked pages are a page table with its upper levels in order. -/
theorem walkOk : WalkOk m T.l1 := by
  constructor
  · exact hT.aligned _ (by simp)
  · intro p q t hp hq h1 h2
    have hp' := (h.tableAt_iff hT hp).1 h1
    have hq' := (h.tableAt_iff hT hq).1 h2
    -- the pages are different, so a page has one path
    have hnodup : (T.paths.map Prod.snd).Nodup := hT.nodup
    have hsame := List.inj_on_of_nodup_map hnodup hp' hq' rfl
    exact congrArg Prod.fst hsame
  · intro path i s hpath hs hpresent
    have hnext : tableAt m T.l1 (path ++ [i]) = some (pteAddr (entry m s i)) := by
      rw [tableAt_append, hs, Option.bind_some, tableAt, if_pos hpresent]
      rfl
    have hlink : ∃ t ∈ T.pages, entry m s i = t ||| 7 := by
      have hprefix : IndexPath path := by
        have hlen := hpath.1
        rw [List.length_append] at hlen
        exact ⟨by omega, fun j hj => hpath.2 j (List.mem_append_left _ hj)⟩
      have hi : i < 512 := hpath.2 i (by simp)
      have hlen := hpath.1
      have hpos := (h.tableAt_iff hT hprefix).1 hs
      simp only [Tables.paths, List.mem_cons, List.not_mem_nil, or_false, Prod.mk.injEq] at hpos
      rcases hpos with ⟨rfl, rfl⟩ | ⟨rfl, rfl⟩ | ⟨rfl, rfl⟩ | ⟨rfl, rfl⟩ | ⟨rfl, rfl⟩
      · have hentry := h.first i hi
        split at hentry
        · exact ⟨_, by simp, hentry⟩
        · exact absurd (by rw [hentry]; rfl) hpresent
      · have hentry := h.second i hi
        split at hentry
        · exact ⟨_, by simp, hentry⟩
        · exact absurd (by rw [hentry]; rfl) hpresent
      · have hentry := h.third i hi
        split at hentry
        · exact ⟨_, by simp, hentry⟩
        · split at hentry
          · exact ⟨_, by simp, hentry⟩
          · exact absurd (by rw [hentry]; rfl) hpresent
      · exact absurd hlen (by simp)
      · exact absurd hlen (by simp)
    obtain ⟨t, ht, hentry⟩ := hlink
    have halign := hT.aligned t ht
    have hphys := hT.physical t ht
    rw [hentry]
    constructor
    · exact link_and halign (Or.inr (Or.inl rfl))
    · exact link_and halign (Or.inr (Or.inr rfl))
    · rw [pteAddr_link halign hphys]
      exact hT.nonnull t ht
    · rw [pteAddr_link halign hphys]
      exact hphys

/-- The last-level table of an address. -/
theorem tableAt_indices (va : Nat) : tableAt m T.l1 (indices va) = T.leafTable (page48 va) := by
  have hpage := page48_eq va
  have h0 := pageindex_lt va 0
  have h1 := pageindex_lt va 1
  have h2 := pageindex_lt va 2
  have h3 := pageindex_lt va 3
  rw [indices, h.tableAt_first hT h0, h.tableAt_second hT h1, h.tableAt_third hT h2, Tables.leafTable,
    tableAt, tableAt]
  split
  · split
    · split
      · rw [if_pos (by omega)]
      · split
        · rw [if_neg (by omega), if_pos (by omega)]
        · rw [if_neg (by omega), if_neg (by omega)]
    · rw [if_neg (by omega), if_neg (by omega)]
  · rw [if_neg (by omega), if_neg (by omega)]

theorem lookup (va : Nat) :
    virtualMemoryLookup m T.l1 va =
      match T.leafTable (page48 va) with
      | some t => translation (entry m t (page48 va % 512)) va
      | none => Vamapping.unmapped := by
  have hpage := page48_eq va
  have h3 := pageindex_lt va 3
  have hindex : pageindex va 3 = page48 va % 512 := by omega
  have hwalk := (h.walkOk hT).lookup_eq va
  rw [h.tableAt_indices hT, hindex] at hwalk
  refine hwalk.trans ?_
  cases T.leafTable (page48 va) <;> rfl

end Linked

end Five

/-! ## New tables -/

/-- The links that `process_config_tables` writes into cleared pages. -/
theorem linked_linkTables {m : Mem} {T : Tables} (hT : T.Ok)
    (hzero : ∀ t ∈ [T.l1, T.l2, T.l3], ∀ i, i < 512 → entry m t i = 0) :
    Linked (linkTables m T.l1 T.l2 T.l3 T.l4a T.l4b) T := by
  have halign : ∀ t ∈ T.pages, t % 4096 = 0 := hT.aligned
  have hlink : ∀ t ∈ T.pages, t ||| 7 < 2 ^ 64 := by
    intro t ht
    have hphys := hT.physical t ht
    simp only [MEMSIZE_PHYSICAL] at hphys
    rw [leaf_eq (halign t ht) (by decide)]
    omega
  have hnodup := hT.nodup
  simp only [Tables.pages, List.mem_cons, List.not_mem_nil, or_false, forall_eq_or_imp, forall_eq,
    List.nodup_cons, not_or, List.nodup_nil, and_true, not_false_eq_true] at halign hlink hnodup hzero
  obtain ⟨ha1, ha2, ha3, -, -⟩ := halign
  obtain ⟨-, hl2, hl3, hl4a, hl4b⟩ := hlink
  obtain ⟨⟨h12, h13, -, -⟩, ⟨h23, -, -⟩, -, -⟩ := hnodup
  obtain ⟨hz1, hz2, hz3⟩ := hzero
  have h0 : (0 : Nat) < 512 := by decide
  have h1 : (1 : Nat) < 512 := by decide
  -- each entry is read back through the four writes, of which at most one is to its page
  have h21 : ¬ T.l2 = T.l1 := Ne.symm h12
  rw [linkTables]
  constructor
  · intro i hi
    rw [entry_setEntry ha3 ha1 hi h1 hl4b, entry_setEntry ha3 ha1 hi h0 hl4a,
      entry_setEntry ha2 ha1 hi h0 hl3, entry_setEntry ha1 ha1 hi h0 hl2, hz1 i hi]
    simp [h12, h13]
  · intro i hi
    rw [entry_setEntry ha3 ha2 hi h1 hl4b, entry_setEntry ha3 ha2 hi h0 hl4a,
      entry_setEntry ha2 ha2 hi h0 hl3, entry_setEntry ha1 ha2 hi h0 hl2, hz2 i hi]
    simp [h21, h23]
  · intro i hi
    rw [entry_setEntry ha3 ha3 hi h1 hl4b, entry_setEntry ha3 ha3 hi h0 hl4a,
      entry_setEntry ha2 ha3 hi h0 hl3, entry_setEntry ha1 ha3 hi h0 hl2, hz3 i hi]
    by_cases hi0 : i = 0
    · simp [hi0]
    · simp [hi0]

/-- The links leave every other page alone. -/
theorem linkTables_other {m : Mem} {T : Tables} {x : Nat}
    (hx : ∀ t ∈ [T.l1, T.l2, T.l3], ¬ InRange t 4096 x) :
    linkTables m T.l1 T.l2 T.l3 T.l4a T.l4b x = m x := by
  simp only [List.mem_cons, List.not_mem_nil, or_false, forall_eq_or_imp, forall_eq] at hx
  obtain ⟨hx1, hx2, hx3⟩ := hx
  rw [linkTables, setEntry_of_not_inRange (by decide) hx3, setEntry_of_not_inRange (by decide) hx3,
    setEntry_of_not_inRange (by decide) hx2, setEntry_of_not_inRange (by decide) hx1]

/-- A page table at `0x1000` to `0x5000` in an otherwise empty memory. -/
def emptyTables : Tables := ⟨0x1000, 0x2000, 0x3000, 0x4000, 0x5000⟩

/-- The memory that holds it. -/
def emptySpace : Mem := linkTables (fun _ => 0) 0x1000 0x2000 0x3000 0x4000 0x5000

theorem emptyTables_ok : emptyTables.Ok := by
  constructor <;> decide

theorem entry_zero (t i : Nat) : entry (fun _ => 0) t i = 0 := by
  simp [entry, loadLE]

theorem linked_emptySpace : Linked emptySpace emptyTables :=
  linked_linkTables emptyTables_ok fun t _ i _ => entry_zero t i

/-- Nothing is mapped in it. -/
theorem not_mapped_emptySpace (va : Nat) : ¬ Mapped emptySpace 0x1000 va := by
  rw [not_mapped]
  refine (linked_emptySpace.lookup emptyTables_ok va).trans ?_
  split
  · rename_i t ht
    have hentry : entry emptySpace t (page48 va % 512) = 0 := by
      have hmem : t = 0x4000 ∨ t = 0x5000 := by
        rw [Tables.leafTable] at ht
        split at ht
        · exact Or.inl (Option.some.inj ht).symm
        · split at ht
          · exact Or.inr (Option.some.inj ht).symm
          · cases ht
      rw [← entry_zero t (page48 va % 512)]
      apply entry_congr (Nat.mod_lt _ (by decide))
      intro x hx
      apply linkTables_other (T := emptyTables)
      intro s hs
      simp only [emptyTables, List.mem_cons, List.not_mem_nil, or_false] at hs
      omega
    rw [hentry]
    rfl
  · rfl

/-- An address space over these tables. -/
structure Sample (m : Mem) : Prop where
  ok : TableOk m 0x1000
  table : ∀ va, tableAt m 0x1000 (indices va) = emptyTables.leafTable (page48 va)
  tables : ∀ t, IsTable m 0x1000 t ↔ t ∈ emptyTables.pages

theorem sample_emptySpace : Sample emptySpace := by
  constructor
  · constructor
    · exact linked_emptySpace.walkOk emptyTables_ok
    · intro va hva
      exact absurd hva (not_mapped_emptySpace va)
    · intro va hva
      exact absurd hva (not_mapped_emptySpace va)
  · exact linked_emptySpace.tableAt_indices emptyTables_ok
  · intro t
    exact linked_emptySpace.isTable_iff emptyTables_ok

/-- The page of `va` mapped to the physical page `pa`, for the user to read and write. -/
def userPage (m : Mem) (va pa : Nat) : Mem :=
  setEntry m ((emptyTables.leafTable (page48 va)).getD NULL) (pageindex va 3) (leafValue pa 7)

theorem Sample.userPage {m : Mem} (h : Sample m) {va pa : Nat} (hva : page48 va < 1024)
    (hpa : pa % 4096 = 0 ∧ pa + 4096 ≤ 0x200000) (hframe : pa ∉ emptyTables.pages) :
    Sample (userPage m va pa) ∧ ∀ a, virtualMemoryLookup (userPage m va pa) 0x1000 a =
      if page48 a = page48 va then ⟨(pa / 4096 : Nat), pa + a % 4096, 7⟩
      else virtualMemoryLookup m 0x1000 a := by
  obtain ⟨t, ht⟩ : ∃ t, emptyTables.leafTable (page48 va) = some t := by
    rw [Tables.leafTable, if_pos hva]
    split
    · exact ⟨_, rfl⟩
    · exact ⟨_, rfl⟩
  have htable := (h.table va).trans ht
  have hseven : (7 : Nat) < 4096 := by decide
  have hv := leafValue_lt hseven fun _ => hpa
  rw [Kernel.userPage, ht, Option.getD_some]
  refine ⟨⟨?_, ?_, ?_⟩, ?_⟩
  · exact h.ok.setLeaf htable hseven (fun _ => hpa) fun _ hbad => hframe ((h.tables pa).1 hbad)
  · intro a
    rw [h.ok.tableAt_setLeaf htable hv (indexPath_indices a)]
    exact h.table a
  · intro x
    exact (h.ok.isTable_setLeaf htable hv).trans (h.tables x)
  · intro a
    rw [h.ok.lookup_setLeaf htable hseven (fun _ => hpa)]
    rfl

end MemoryManagement.Kernel
