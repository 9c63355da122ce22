import MemoryManagement.Kernel.Segments

/-!
# The contents of a segment

What `program_load_segment` leaves in memory, for any segment that starts in the user part. The copy
starts at the page boundary below the segment, with the first byte of the file part, so that the
contents are those of the header exactly when the segment starts at a page boundary
(`segment_exact_iff`). `LoadSpace` is the part of the page accounting that this needs.
-/

set_option autoImplicit false

namespace MemoryManagement.Kernel

open MemoryManagement.Library.ByteMemory
open MemoryManagement.Library.RefCount

/-- The loader may find the page. -/
def FreePage (info : Nat → PageInfo) (pn : Nat) : Prop :=
  (info pn).owner = PO_FREE ∧ (info pn).refcount = 0

/-- A process with a page table of its own: above the kernel's memory each of its pages has a physical
page of its own, which is not free and not in the page table. -/
structure LoadSpace (s : State) (pid : Nat) (U : Tables) : Prop where
  pid_pos : 0 < pid
  pid_lt : pid < NPROC
  root : (s.processes pid).pagetable = U.l1
  tables : U.Ok
  linked : Linked s.mem U
  taken : ∀ t ∈ U.pages, ¬ FreePage s.pageinfo (t / PAGESIZE)
  owned : ∀ pn, pn < 512 → ¬ Ordinary pn → (s.pageinfo pn).owner ≠ PO_FREE
  frames : ∀ va, PROC_START_ADDR ≤ va → va < 2 ^ 48 → Mapped s.mem U.l1 va → ∃ pn perm,
    (perm = 7 ∨ perm = 5) ∧ Ordinary pn ∧ ¬ FreePage s.pageinfo pn ∧ PAGESIZE * pn ∉ U.pages ∧
    virtualMemoryLookup s.mem U.l1 va = ⟨(pn : Nat), PAGESIZE * pn + va % PAGESIZE, perm⟩
  once : ∀ va va', PROC_START_ADDR ≤ va → va < 2 ^ 48 → PROC_START_ADDR ≤ va' → va' < 2 ^ 48 →
    Mapped s.mem U.l1 va → Mapped s.mem U.l1 va' →
    (virtualMemoryLookup s.mem U.l1 va).pn = (virtualMemoryLookup s.mem U.l1 va').pn →
    page48 va = page48 va'

theorem page48_of_lt {va : Nat} (h : va < 2 ^ 48) : page48 va = va / 4096 := by
  rw [page48]
  omega

/-- The page accounting gives every process such a page table. -/
theorem Accounted.loadSpace {s : State} {A : Finset Nat} {T : Nat → Tables} {P : Finset Nat}
    (h : Accounted s A T P) {pid : Nat} (hpid : pid ∈ A) : LoadSpace s pid (T pid) := by
  have hspace := h.space pid hpid
  -- above the user part nothing is mapped
  have huser : ∀ va, PROC_START_ADDR ≤ va → va < 2 ^ 48 → Mapped s.mem (T pid).l1 va → UserPart va := by
    intro va hlow hlt hm
    refine ⟨hlow, ?_⟩
    by_contra hhigh
    exact hspace.high va (Nat.not_lt.1 hhigh) hlt hm
  constructor
  · exact (h.pids pid hpid).1
  · exact (h.pids pid hpid).2
  · exact h.root pid hpid
  · exact hspace.tables
  · exact hspace.linked
  · intro t ht hfree
    rw [FreePage, h.tables pid hpid t ht] at hfree
    exact absurd hfree.2 (by decide : (1 : Int) ≠ 0)
  · exact fun pn hlt hnot => h.owned hlt hnot
  · intro va hlow hlt hm
    have hva := huser va hlow hlt hm
    obtain ⟨pn, perm, hord, hperm, hmap⟩ := hspace.user va hva hm
    have hpos : 0 < references s.mem (T pid).l1 userPages pn := by
      refine references_pos.2 ⟨va, hva, hm, ?_⟩
      rw [hmap, Int.toNat_natCast]
    refine ⟨pn, perm, hperm, hord, ?_, (h.frames_apart hpid hpos).2 pid hpid, hmap⟩
    rintro ⟨-, hzero⟩
    have hunused := (h.unused hord hzero).1 pid hpid
    rw [uses] at hunused
    omega
  · intro va va' hlow hlt hlow' hlt' hm hm' hpn
    exact hspace.once va va' (huser va hlow hlt hm) (huser va' hlow' hlt' hm') hm hm' hpn

namespace LoadSpace

variable {s : State} {pid : Nat} {U : Tables}

/-- Only the first 4 MB have last-level tables. -/
theorem mapped_lt (h : LoadSpace s pid U) {m : Mem} (hlinked : Linked m U) {va : Nat} (hva : va < 2 ^ 48)
    (hm : Mapped m U.l1 va) : va < 0x400000 := by
  by_contra hhigh
  apply hm
  have hpage := page48_of_lt hva
  rw [hlinked.lookup h.tables, Tables.leafTable, if_neg (by omega), if_neg (by omega)]

/-- Filling a fresh page does not change the page table. -/
theorem table_allocated (h : LoadSpace s pid U) {s₁ : State} {pn : Nat} (halloc : Allocated s s₁ pid pn) :
    PAGESIZE * pn ∉ U.pages ∧ ∀ t ∈ U.pages, ∀ x, InRange t 4096 x → s₁.mem x = s.mem x := by
  have hframe : PAGESIZE * pn ∉ U.pages := by
    intro hmem
    apply h.taken _ hmem
    rw [Nat.mul_div_cancel_left pn (by decide : 0 < PAGESIZE), FreePage, halloc.wasFree]
    exact ⟨rfl, rfl⟩
  refine ⟨hframe, fun t ht x hx => ?_⟩
  apply halloc.bytes
  intro hx'
  apply hframe
  rw [← page_eq_of_inRange (h.tables.aligned t ht) (Nat.mul_mod_right PAGESIZE pn) hx hx']
  exact ht

/-- A page that the loader has just allocated is mapped at page `i`, mapped before or not. -/
theorem mapFresh (h : LoadSpace s pid U) {s₁ : State} {pn i : Nat} (halloc : Allocated s s₁ pid pn)
    (hi : 256 ≤ i) (hi' : i < 1024) :
    ∃ m', virtualMemoryMap s₁.mem U.l1 (PAGESIZE * i) (PAGESIZE * pn) PAGESIZE 7 = .ok (m', 0) ∧
      LoadSpace { s₁ with mem := m' } pid U ∧
      ∀ a, virtualMemoryLookup m' U.l1 a =
        if page48 a = i then ⟨(pn : Nat), PAGESIZE * pn + a % PAGESIZE, 7⟩
        else virtualMemoryLookup s.mem U.l1 a := by
  have hord := halloc.ordinary
  have hlt := hord.lt
  have hwas : FreePage s.pageinfo pn := by
    rw [FreePage, halloc.wasFree]
    exact ⟨rfl, rfl⟩
  have hinfo := halloc.info
  -- a page that was taken is another one, and still taken
  have hkept : ∀ q, ¬ FreePage s.pageinfo q → q ≠ pn ∧ ¬ FreePage s₁.pageinfo q := by
    intro q hq
    have hne : q ≠ pn := fun e => hq (e ▸ hwas)
    refine ⟨hne, ?_⟩
    rw [FreePage, hinfo, Function.update_of_ne hne]
    exact hq
  obtain ⟨hframe, htable⟩ := h.table_allocated halloc
  have hlinked₁ : Linked s₁.mem U := h.linked.congr fun t ht => htable t (U.upper_subset t ht)
  have hlookup₁ := h.linked.lookup_congr h.tables htable
  obtain ⟨m', hcode, hmaps⟩ := hlinked₁.map_pages h.tables (i := i) (n := 1) (by omega)
    (by decide : 7 < 4096) (by decide) (Nat.mul_mod_right PAGESIZE pn) (by simp only [PAGESIZE]; omega)
  have hlookup : ∀ a, virtualMemoryLookup m' U.l1 a =
      if page48 a = i then ⟨(pn : Nat), PAGESIZE * pn + a % PAGESIZE, 7⟩
      else virtualMemoryLookup s.mem U.l1 a := by
    intro a
    rw [Space.lookup_mapPage (Or.inl rfl) hmaps, hlookup₁]
  have hmapped : ∀ a, page48 a ≠ i → Mapped m' U.l1 a → Mapped s.mem U.l1 a := by
    intro a ha hm
    rw [Mapped, hlookup, if_neg ha] at hm
    exact hm
  refine ⟨m', hcode, ?_, hlookup⟩
  constructor
  · exact h.pid_pos
  · exact h.pid_lt
  · show (s₁.processes pid).pagetable = U.l1
    rw [halloc.only.processes]
    exact h.root
  · exact h.tables
  · exact hmaps.linked
  · exact fun t ht => (hkept _ (h.taken t ht)).2
  · intro q hq hnot
    have hne : q ≠ pn := fun e => hnot (e ▸ hord)
    show (s₁.pageinfo q).owner ≠ PO_FREE
    rw [hinfo, Function.update_of_ne hne]
    exact h.owned q hq hnot
  · intro va hlow hva hm
    by_cases hpage : page48 va = i
    · refine ⟨pn, 7, Or.inl rfl, hord, ?_, hframe, ?_⟩
      · show ¬ FreePage s₁.pageinfo pn
        rw [FreePage, hinfo, Function.update_self]
        rintro ⟨-, hzero⟩
        exact absurd hzero (by decide : (1 : Int) ≠ 0)
      · show virtualMemoryLookup m' U.l1 va = _
        rw [hlookup, if_pos hpage]
    · obtain ⟨q, perm, hperm, hq, hbusy, hapart, hmap⟩ := h.frames va hlow hva (hmapped va hpage hm)
      refine ⟨q, perm, hperm, hq, (hkept q hbusy).2, hapart, ?_⟩
      show virtualMemoryLookup m' U.l1 va = _
      rw [hlookup, if_neg hpage, hmap]
  · -- the fresh page was mapped nowhere
    have hother : ∀ a, PROC_START_ADDR ≤ a → a < 2 ^ 48 → page48 a ≠ i → Mapped m' U.l1 a →
        (virtualMemoryLookup s.mem U.l1 a).pn ≠ (pn : Nat) := by
      intro a hlow ha hpage hm hpn
      obtain ⟨q, perm, -, -, hbusy, -, hmap⟩ := h.frames a hlow ha (hmapped a hpage hm)
      rw [hmap] at hpn
      have hq : q = pn := Int.ofNat.inj hpn
      exact hbusy (hq ▸ hwas)
    intro va va' hlow hva hlow' hva' hm hm' hpn
    replace hpn : (virtualMemoryLookup m' U.l1 va).pn = (virtualMemoryLookup m' U.l1 va').pn := hpn
    by_cases hpage : page48 va = i
    · by_cases hpage' : page48 va' = i
      · rw [hpage, hpage']
      · rw [hlookup, hlookup, if_pos hpage, if_neg hpage'] at hpn
        exact absurd hpn.symm (hother va' hlow' hva' hpage' hm')
    · by_cases hpage' : page48 va' = i
      · rw [hlookup, hlookup, if_neg hpage, if_pos hpage'] at hpn
        exact absurd hpn (hother va hlow hva hpage hm)
      · rw [hlookup, hlookup, if_neg hpage, if_neg hpage'] at hpn
        exact h.once va va' hlow hva hlow' hva' (hmapped va hpage hm) (hmapped va' hpage' hm') hpn

/-! ## The pages -/

/-- Behind the first 4 MB there is no last-level table, and mapping fails. -/
theorem map_beyond (h : LoadSpace s pid U) {m : Mem} (hlinked : Linked m U) {pa : Nat} {r : Mem × Int}
    (hmap : virtualMemoryMap m U.l1 (PAGESIZE * 1024) pa PAGESIZE 7 = .ok r) : r.2 = -1 := by
  have hnone : lookupL4pagetable m U.l1 (PAGESIZE * 1024) 7 = .ok NULL := by
    rw [hlinked.lookupL4pagetable_eq h.tables]
    rfl
  have hpresent : (7 : Nat) &&& PTE_P ≠ 0 := by decide
  rw [virtualMemoryMap] at hmap
  obtain ⟨-, hmap⟩ := assert_bind_eq_ok.1 hmap
  obtain ⟨-, hmap⟩ := assert_bind_eq_ok.1 hmap
  obtain ⟨-, hmap⟩ := assert_bind_eq_ok.1 hmap
  rw [if_pos hpresent] at hmap
  obtain ⟨-, hmap⟩ := assert_bind_eq_ok.1 hmap
  obtain ⟨-, hmap⟩ := assert_bind_eq_ok.1 hmap
  obtain ⟨-, hmap⟩ := assert_bind_eq_ok.1 hmap
  obtain ⟨-, hmap⟩ := assert_bind_eq_ok.1 hmap
  obtain ⟨-, hmap⟩ := assert_bind_eq_ok.1 hmap
  have hone : PAGESIZE / PAGESIZE = 1 := by decide
  have hindex : toInt32 ((PAGESIZE * 1024) >>> 21) ≠ -1 := by decide
  rw [hone, mapPages, if_pos hindex, hnone] at hmap
  have hnull : ¬ ((7 : Nat) &&& PTE_P ≠ 0 ∧ NULL ≠ NULL) := fun e => e.2 rfl
  have hresult : (Except.ok (m, -1) : Outcome (Mem × Int)) = .ok r := by
    rw [← hmap]
    simp only [bind, Except.bind]
    rw [if_neg hnull, if_neg (fun e => e rfl), if_pos hpresent]
  rw [← Except.ok.inj hresult]

/-- The pages of a segment whose allocation has succeeded. -/
theorem loadPages_of_ok (h : LoadSpace s pid U) {s' : State} {i endMem fuel : Nat} (hi : 256 ≤ i)
    (hi' : i ≤ 1024) (hrun : loadPages pid endMem fuel s (PAGESIZE * i) = .ok (s', true)) :
    LoadSpace s' pid U ∧ (PAGESIZE * i < endMem → endMem ≤ 0x400000) ∧
    (∀ a, PAGESIZE * i ≤ a → a < endMem → (virtualMemoryLookup s'.mem U.l1 a).perm = 7) ∧
    ∀ a, page48 a < i → virtualMemoryLookup s'.mem U.l1 a = virtualMemoryLookup s.mem U.l1 a := by
  induction fuel generalizing s i with
  | zero => cases hrun
  | succ fuel ih =>
      by_cases hgo : PAGESIZE * i < endMem
      · rw [loadPages, if_pos hgo] at hrun
        rcases palloc_cases h.pid_lt h.owned with ⟨-, hcode⟩ | ⟨pn, s₁, -, hcode, halloc⟩
        · rw [hcode] at hrun
          simp only [if_true] at hrun
          cases (ok_pair.1 hrun).2
        · have hpos := halloc.ordinary.pos
          have hnull : PAGESIZE * pn ≠ NULL := halloc.ordinary.page_ne_null
          have hroot : (s₁.processes pid).pagetable = U.l1 := by
            rw [halloc.only.processes]
            exact h.root
          have hperm : PTE_W ||| PTE_P ||| PTE_U = 7 := by decide
          rw [hcode] at hrun
          simp only [if_neg hnull, hroot, hperm] at hrun
          obtain ⟨map, hmap, hrun⟩ := bind_eq_ok.1 hrun
          by_cases hlast : i = 1024
          · -- the page does not exist, so that the call would not have succeeded
            subst hlast
            have htable := (h.table_allocated halloc).2
            have hlinked : Linked s₁.mem U := h.linked.congr fun t ht => htable t (U.upper_subset t ht)
            have hfail := h.map_beyond hlinked hmap
            rw [hfail, if_pos (by decide)] at hrun
            cases (ok_pair.1 hrun).2
          · obtain ⟨m', hcode', hspace, hlookup⟩ := h.mapFresh halloc hi (by omega)
            rw [hcode'] at hmap
            obtain rfl := Except.ok.inj hmap
            have hdone : ¬ (m', (0 : Int)).2 < 0 := Int.lt_irrefl 0
            rw [if_neg hdone] at hrun
            have hnext : (PAGESIZE * i + PAGESIZE) % 2 ^ 64 = PAGESIZE * (i + 1) := by
              simp only [PAGESIZE]
              omega
            rw [hnext] at hrun
            obtain ⟨hspace', hend, hinside, hbelow⟩ := ih hspace (by omega) (by omega) hrun
            refine ⟨hspace', fun _ => ?_, fun a hlow hhigh => ?_, fun a ha => ?_⟩
            · -- the recursion bounds the end, and the last round does
              by_cases hmore : PAGESIZE * (i + 1) < endMem
              · exact hend hmore
              · simp only [PAGESIZE] at hmore
                omega
            · by_cases hpage : a < PAGESIZE * (i + 1)
              · have hself : page48 a = i := by
                  simp only [PAGESIZE] at hlow hpage
                  rw [page48]
                  omega
                rw [hbelow a (by omega), hlookup, if_pos hself]
              · exact hinside a (Nat.not_lt.1 hpage) hhigh
            · rw [hbelow a (by omega), hlookup, if_neg (by omega)]
      · rw [loadPages, if_neg hgo] at hrun
        rw [← (ok_pair.1 hrun).1]
        refine ⟨h, fun e => absurd e hgo, fun a hlow hhigh => ?_, fun _ _ => rfl⟩
        omega

/-! ## The bytes -/

/-- Different addresses of a process have different bytes of physical memory. -/
theorem pa_inj (h : LoadSpace s pid U) {a b : Nat} (ha : PROC_START_ADDR ≤ a) (hb : PROC_START_ADDR ≤ b)
    (halt : a < 2 ^ 48) (hblt : b < 2 ^ 48) (hma : Mapped s.mem U.l1 a) (hmb : Mapped s.mem U.l1 b)
    (hpa : (virtualMemoryLookup s.mem U.l1 a).pa = (virtualMemoryLookup s.mem U.l1 b).pa) : a = b := by
  obtain ⟨pn, perm, -, -, -, -, hmap⟩ := h.frames a ha halt hma
  obtain ⟨pn', perm', -, -, -, -, hmap'⟩ := h.frames b hb hblt hmb
  rw [hmap, hmap'] at hpa
  simp only [PAGESIZE] at hpa
  have hsame : pn = pn' := by omega
  have hpage := h.once a b ha halt hb hblt hma hmb (by rw [hmap, hmap', hsame])
  rw [page48_of_lt halt, page48_of_lt hblt] at hpage
  omega

/-- Bytes have been written through the page table of a process. -/
structure Stored (s : State) (U : Tables) (src : Nat → UInt8) (m m' : Mem) (va n k : Nat) : Prop where
  bound : n = 0 ∨ va + n ≤ 0x400000
  mapped : ∀ a, va ≤ a → a < va + n → Mapped s.mem U.l1 a
  table : ∀ t ∈ U.pages, ∀ x, InRange t 4096 x → m' x = s.mem x
  bytes : ∀ a, va ≤ a → a < va + n → m' (virtualMemoryLookup s.mem U.l1 a).pa = src (k + (a - va))
  others : ∀ x, (∀ a, va ≤ a → a < va + n → x ≠ (virtualMemoryLookup s.mem U.l1 a).pa) → m' x = m x

/-- Stores that have succeeded went to pages of the process. -/
theorem storeBytes_of_ok (h : LoadSpace s pid U) {src : Nat → UInt8} {m m' : Mem} {n va k : Nat}
    (hm : ∀ t ∈ U.pages, ∀ x, InRange t 4096 x → m x = s.mem x) (hva : PROC_START_ADDR ≤ va)
    (hlt : va ≤ 0x400000) (hrun : storeBytes U.l1 src n m va k = .ok m') :
    Stored s U src m m' va n k := by
  induction n generalizing m va k with
  | zero =>
      rw [← Except.ok.inj hrun]
      refine ⟨Or.inl rfl, fun a hlow hhigh => ?_, hm, fun a hlow hhigh => ?_, fun _ _ => rfl⟩
      · omega
      · omega
  | succ n ih =>
      rw [storeBytes] at hrun
      obtain ⟨m₁, hstore, hrun⟩ := bind_eq_ok.1 hrun
      have hva48 : va < 2 ^ 48 := by omega
      have hlookup := h.linked.lookup_congr h.tables hm va
      rw [storeByte, hlookup] at hstore
      split at hstore
      · rename_i hwritable
        have hmapped : Mapped s.mem U.l1 va := by
          intro e
          rw [e] at hwritable
          exact absurd hwritable.1 (by decide)
        -- a store that has succeeded was below the first 4 MB
        have hlow := h.mapped_lt h.linked hva48 hmapped
        obtain ⟨pn, perm, -, hord, -, hframe, hmap⟩ := h.frames va hva hva48 hmapped
        have hm₁ := Except.ok.inj hstore
        have htable : ∀ t ∈ U.pages, ∀ x, InRange t 4096 x → m₁ x = s.mem x := by
          intro t ht x hx
          rw [← hm₁, Function.update_of_ne]
          · exact hm t ht x hx
          · -- the byte is in a page of the process, which is no page of the page table
            rintro rfl
            apply hframe
            have hin : InRange (PAGESIZE * pn) 4096 (virtualMemoryLookup s.mem U.l1 va).pa := by
              rw [hmap]
              simp only [PAGESIZE]
              omega
            rw [← page_eq_of_inRange (h.tables.aligned t ht) (Nat.mul_mod_right PAGESIZE pn) hx hin]
            exact ht
        have hnext : (va + 1) % 2 ^ 64 = va + 1 := by omega
        rw [hnext] at hrun
        have hrest := ih htable (Nat.le_succ_of_le hva) (by omega) hrun
        have hbound := hrest.bound
        constructor
        · right
          omega
        · intro a hlow' hhigh
          by_cases ha : a = va
          · rw [ha]
            exact hmapped
          · exact hrest.mapped a (by omega) (by omega)
        · exact hrest.table
        · intro a hlow' hhigh
          by_cases ha : a = va
          · subst ha
            rw [hrest.others, ← hm₁, Function.update_self, Nat.sub_self, Nat.add_zero]
            intro b hb hb' hpa
            -- a later store goes to another byte of memory
            have hmb := hrest.mapped b hb hb'
            have := h.pa_inj hva (by omega) hva48 (by omega) hmapped hmb hpa
            omega
          · rw [hrest.bytes a (by omega) (by omega)]
            congr 1
            omega
        · intro x hx
          rw [hrest.others x fun a hlow' hhigh => hx a (by omega) (by omega), ← hm₁,
            Function.update_of_ne (hx va (Nat.le_refl va) (by omega))]
      · cases hstore

end LoadSpace

/-! ## A segment -/

/-- What a call that has returned 0 has left, in terms of the end addresses as the code computes them: the
first byte of the source is at the page boundary below the segment. -/
structure SegmentLeft (s' : State) (pid : Nat) (ph : ElfProgram) (src : Nat → UInt8) : Prop where
  start_le : PAGESIZE * ph.firstPage ≤ ph.endFile
  file_le : ph.endFile ≤ ph.endMem
  limit : ph.endMem ≤ 0x400000
  file : ∀ a, PAGESIZE * ph.firstPage ≤ a → a < ph.endFile →
    s'.byteAt pid a = src (a - PAGESIZE * ph.firstPage)
  bss : ∀ a, ph.endFile ≤ a → a < ph.endMem → s'.byteAt pid a = 0
  pages : ∀ a, PAGESIZE * ph.firstPage ≤ a → a < ph.endMem → (s'.lookup pid a).perm = ph.perm
  beyond : s'.lookup pid 0x400000 = Vamapping.unmapped

namespace LoadSpace

variable {s s₁ s' : State} {pid : Nat} {U : Tables} {ph : ElfProgram} {src : Nat → UInt8}

/-- An end address that stores from `va` on have reached. -/
theorem Stored.end_eq {m m' : Mem} {va e k : Nat} (he : e < 2 ^ 64) (hva : va ≤ 0x400000)
    (h : Stored s U src m m' va ((e + 2 ^ 64 - va) % 2 ^ 64) k) :
    va ≤ e ∧ e ≤ 0x400000 ∧ (e + 2 ^ 64 - va) % 2 ^ 64 = e - va := by
  have hbound := h.bound
  omega

/-- The permissions of the segment's pages are set; no page moves, and no byte of a page changes. -/
theorem protect_of_run (h₁ : LoadSpace s₁ pid U) {copied filled mem : Mem}
    (hrun : SegmentRun s s₁ pid ph src copied filled mem) (hlo : 256 ≤ ph.firstPage)
    (hend : ph.endMem ≤ 0x400000) (hstart : PAGESIZE * ph.firstPage ≤ ph.endMem)
    (hfilled : ∀ t ∈ U.pages, ∀ x, InRange t 4096 x → filled x = s₁.mem x)
    (hinside : ∀ a, PAGESIZE * ph.firstPage ≤ a → a < ph.endMem →
      (virtualMemoryLookup s₁.mem U.l1 a).perm = 7) :
    (∀ a, a < 2 ^ 48 → virtualMemoryLookup mem U.l1 a =
      if ph.pFlags &&& ELF_PFLAG_WRITE = 0 ∧ ph.firstPage ≤ a / 4096 ∧ a / 4096 < (ph.endMem + 4095) / 4096 then
        (virtualMemoryLookup s₁.mem U.l1 a).readOnly
      else virtualMemoryLookup s₁.mem U.l1 a) ∧
    ∀ x, (∀ t ∈ U.pages, ¬ InRange t PAGESIZE x) → mem x = filled x := by
  have hlookup := h₁.linked.lookup_congr h₁.tables hfilled
  have hprotect := hrun.protect
  by_cases hflag : ph.pFlags &&& ELF_PFLAG_WRITE = 0
  · rw [if_pos hflag, h₁.root, ElfProgram.firstPage_eq] at hprotect
    have hlinked : Linked filled U := h₁.linked.congr fun t ht => hfilled t (U.upper_subset t ht)
    obtain ⟨n, hn⟩ : ∃ n, n = (ph.endMem + 4095) / 4096 - ph.firstPage := ⟨_, rfl⟩
    simp only [PAGESIZE] at hstart
    have hmapped : ∀ i, ph.firstPage ≤ i → i < ph.firstPage + n → ∃ pn perm, Ordinary pn ∧
        virtualMemoryLookup filled U.l1 (PAGESIZE * i) = ⟨(pn : Nat), PAGESIZE * pn, perm⟩ := by
      intro i hlow hhigh
      have hperm := hinside (PAGESIZE * i) (Nat.mul_le_mul_left _ hlow) (by
        simp only [PAGESIZE]
        omega)
      have hm : Mapped s₁.mem U.l1 (PAGESIZE * i) := by
        intro e
        rw [e] at hperm
        exact absurd hperm (by decide : (0 : Nat) ≠ 7)
      obtain ⟨pn, perm, -, hord, -, -, hmap⟩ := h₁.frames (PAGESIZE * i) (by
          simp only [PROC_START_ADDR, PAGESIZE]
          omega) (by
          simp only [PAGESIZE]
          omega) hm
      refine ⟨pn, perm, hord, ?_⟩
      rw [hlookup, hmap, Nat.mul_mod_right, Nat.add_zero]
    obtain ⟨m', hcode, -, hperms, hbytes⟩ := hlinked.protectPages h₁.tables hlo (by omega) hn
      (by omega : n < 2 ^ 64) hmapped
    rw [hcode] at hprotect
    obtain rfl := Except.ok.inj hprotect
    have hl4a : U.l4a ∈ U.pages := U.l4a_mem
    have hl4b : U.l4b ∈ U.pages := U.l4b_mem
    refine ⟨fun a ha => ?_, fun x hx => hbytes x (hx _ hl4a) (hx _ hl4b)⟩
    -- for a 48-bit address the page number is the address over the page size
    have hrange : (ph.firstPage ≤ page48 a ∧ page48 a < ph.firstPage + n) ↔
        (ph.firstPage ≤ a / 4096 ∧ a / 4096 < (ph.endMem + 4095) / 4096) := by
      rw [page48_of_lt ha]
      omega
    rw [hperms, hlookup]
    simp only [hrange, hflag, true_and]
  · rw [if_neg hflag] at hprotect
    rw [← Except.ok.inj hprotect]
    refine ⟨fun a _ => ?_, fun _ _ => rfl⟩
    rw [hlookup, if_neg fun e => hflag e.1]

/-- What `program_load_segment` has done when it returns 0. -/
theorem segmentLeft (h : LoadSpace s pid U) (hva : UserPart ph.pVa)
    (hcall : programLoadSegment s pid ph src = .ok (s', true)) : SegmentLeft s' pid ph src := by
  obtain ⟨s₁, copied, filled, mem, hrun, rfl⟩ := programLoadSegment_eq_ok.1 hcall
  have hfirst := ElfProgram.firstPage_eq ph
  obtain ⟨hlow, hhigh⟩ := hva
  simp only [PROC_START_ADDR, MEMSIZE_VIRTUAL] at hlow hhigh
  have hfp : 256 ≤ ph.firstPage ∧ ph.firstPage < 768 := by
    rw [ElfProgram.firstPage]
    omega
  have hva4 : PAGESIZE * ph.firstPage ≤ 0x400000 := by
    simp only [PAGESIZE]
    omega
  have hstart : PROC_START_ADDR ≤ PAGESIZE * ph.firstPage := by
    simp only [PROC_START_ADDR, PAGESIZE]
    omega
  have hendFile : ph.endFile < 2 ^ 64 := Nat.mod_lt _ (by decide)
  have hendMem : ph.endMem < 2 ^ 64 := Nat.mod_lt _ (by decide)
  have hpages := hrun.pages
  rw [hfirst] at hpages
  obtain ⟨h₁, -, hinside, -⟩ := h.loadPages_of_ok hfp.1 (by omega) hpages
  have hcopy := hrun.copy
  have hfill := hrun.fill
  rw [h₁.root, hfirst] at hcopy
  rw [h₁.root] at hfill
  have hcopied := h₁.storeBytes_of_ok (fun _ _ _ _ => rfl) hstart hva4 hcopy
  obtain ⟨hle, hlimit, hcount⟩ := Stored.end_eq hendFile hva4 hcopied
  rw [hcount] at hcopied
  have hzeros := h₁.storeBytes_of_ok hcopied.table (Nat.le_trans hstart hle) hlimit hfill
  obtain ⟨hle', hlimit', hcount'⟩ := Stored.end_eq hendMem hlimit hzeros
  rw [hcount'] at hzeros
  obtain ⟨hperms, hbytes⟩ := h₁.protect_of_run hrun hfp.1 hlimit' (Nat.le_trans hle hle') hzeros.table hinside
  have hlookup : ∀ a, (breakSet s₁ pid ph mem).lookup pid a = virtualMemoryLookup mem U.l1 a := by
    intro a
    show virtualMemoryLookup mem ((s₁.setProc pid _).processes pid).pagetable a = _
    rw [State.setProc_self, ← h₁.root]
  have hmapped : ∀ a, PAGESIZE * ph.firstPage ≤ a → a < ph.endMem → Mapped s₁.mem U.l1 a := by
    intro a ha ha' e
    have hperm := hinside a ha ha'
    rw [e] at hperm
    exact absurd hperm (by decide : (0 : Nat) ≠ 7)
  -- changing permissions has moved no byte
  have hbyte : ∀ a, PAGESIZE * ph.firstPage ≤ a → a < ph.endMem →
      (breakSet s₁ pid ph mem).byteAt pid a = filled (virtualMemoryLookup s₁.mem U.l1 a).pa := by
    intro a ha ha'
    have hpa : (virtualMemoryLookup mem U.l1 a).pa = (virtualMemoryLookup s₁.mem U.l1 a).pa := by
      rw [hperms a (by omega)]
      split
      · rfl
      · rfl
    obtain ⟨pn, perm, -, -, -, hframe, hmap⟩ := h₁.frames a (Nat.le_trans hstart ha) (by omega)
      (hmapped a ha ha')
    show mem _ = _
    rw [hlookup, hpa]
    apply hbytes
    intro t ht hx
    apply hframe
    have hin : InRange (PAGESIZE * pn) 4096 (virtualMemoryLookup s₁.mem U.l1 a).pa := by
      rw [hmap]
      simp only [PAGESIZE]
      omega
    rw [← page_eq_of_inRange (h₁.tables.aligned t ht) (Nat.mul_mod_right PAGESIZE pn) hx hin]
    exact ht
  constructor
  · exact hle
  · exact hle'
  · exact hlimit'
  · intro a ha ha'
    rw [hbyte a ha (by omega), hzeros.others]
    · rw [hcopied.bytes a ha (by omega), Nat.zero_add]
    · intro b hb hb' hpa
      have := h₁.pa_inj (Nat.le_trans hstart ha) (by omega) (by omega) (by omega) (hmapped a ha (by omega))
        (hmapped b (by omega) (by omega)) hpa
      omega
  · intro a ha ha'
    rw [hbyte a (Nat.le_trans hle ha) ha', hzeros.bytes a ha (by omega)]
  · intro a ha ha'
    have hpage : ph.firstPage ≤ a / 4096 ∧ a / 4096 < (ph.endMem + 4095) / 4096 := by
      simp only [PAGESIZE] at ha
      omega
    rw [hlookup, hperms a (by omega), ElfProgram.perm]
    by_cases hflag : ph.pFlags &&& ELF_PFLAG_WRITE = 0
    · rw [if_pos ⟨hflag, hpage⟩, if_pos hflag, Vamapping.readOnly]
    · rw [if_neg fun e => hflag e.1, if_neg hflag]
      exact hinside a ha ha'
  · have hnone : ¬ Mapped s₁.mem U.l1 0x400000 :=
      fun hm => absurd (h₁.mapped_lt h₁.linked (by decide) hm) (by decide)
    rw [hlookup, hperms _ (by decide), if_neg (by omega)]
    exact not_mapped.1 hnone

end LoadSpace

/-! ## The contents that the header describes -/

/-- `s'`, which `program_load_segment` has left with a result of 0, holds the segment of the header: the
file part, zeros behind it, permissions as the flags say, and nothing that depends on bytes of the source
behind the file part. -/
structure LoadedExactly (s s' : State) (pid : Nat) (ph : ElfProgram) (src : Nat → UInt8) : Prop where
  file : ∀ k, k < ph.pFilesz → s'.byteAt pid (ph.pVa + k) = src k
  bss : ∀ a, ph.pVa + ph.pFilesz ≤ a → a < ph.pVa + ph.pMemsz → s'.byteAt pid a = 0
  copied : ∀ src' : Nat → UInt8, (∀ k, k < ph.pFilesz → src' k = src k) →
    programLoadSegment s pid ph src' = .ok (s', true)
  pages : ∀ a b, ph.pVa ≤ b → b < ph.pVa + ph.pMemsz → a / PAGESIZE = b / PAGESIZE →
    (s'.lookup pid a).perm &&& PTE_P ≠ 0 ∧ (s'.lookup pid a).perm &&& PTE_U ≠ 0 ∧
    ((s'.lookup pid a).perm &&& PTE_W ≠ 0 ↔ ph.pFlags &&& ELF_PFLAG_WRITE ≠ 0)

/-- Copying `n` bytes reads `n` bytes of the source. -/
theorem storeBytes_congr {l1 : Nat} {src src' : Nat → UInt8} {n va k : Nat} {m : Mem}
    (h : ∀ j, j < n → src' (k + j) = src (k + j)) :
    storeBytes l1 src' n m va k = storeBytes l1 src n m va k := by
  induction n generalizing m va k with
  | zero => rfl
  | succ n ih =>
      have hfirst : src' k = src k := h 0 (Nat.succ_pos n)
      have hrest : ∀ j, j < n → src' (k + 1 + j) = src (k + 1 + j) := by
        intro j hj
        have hnext := h (j + 1) (Nat.succ_lt_succ hj)
        rw [Nat.add_comm j 1, ← Nat.add_assoc] at hnext
        exact hnext
      rw [storeBytes, storeBytes, hfirst]
      exact congrArg _ (funext fun m₁ => ih hrest)

/-- A call that differs in source bytes that are not copied does the same. -/
theorem programLoadSegment_congr {s s' : State} {pid : Nat} {ph : ElfProgram} {src src' : Nat → UInt8}
    (hcall : programLoadSegment s pid ph src = .ok (s', true))
    (hsrc : ∀ k, k < (ph.endFile + 2 ^ 64 - roundDownPage ph.pVa) % 2 ^ 64 → src' k = src k) :
    programLoadSegment s pid ph src' = .ok (s', true) := by
  obtain ⟨s₁, copied, filled, mem, hrun, rfl⟩ := programLoadSegment_eq_ok.1 hcall
  have hcopy : storeBytes (s₁.processes pid).pagetable src'
      ((ph.endFile + 2 ^ 64 - roundDownPage ph.pVa) % 2 ^ 64) s₁.mem (roundDownPage ph.pVa) 0 =
        .ok copied := by
    rw [← hrun.copy]
    apply storeBytes_congr
    intro j hj
    rw [Nat.zero_add]
    exact hsrc j hj
  refine programLoadSegment_eq_ok.2 ⟨s₁, copied, filled, mem, ?_, rfl⟩
  exact ⟨hrun.pages, hrun.active, hcopy, hrun.fill, hrun.back, hrun.protect⟩

theorem ElfProgram.perm_bits (ph : ElfProgram) : ph.perm &&& PTE_P ≠ 0 ∧ ph.perm &&& PTE_U ≠ 0 ∧
    (ph.perm &&& PTE_W ≠ 0 ↔ ph.pFlags &&& ELF_PFLAG_WRITE ≠ 0) := by
  rw [ElfProgram.perm]
  by_cases hflag : ph.pFlags &&& ELF_PFLAG_WRITE = 0
  · rw [if_pos hflag, hflag]
    decide
  · rw [if_neg hflag]
    exact ⟨by decide, by decide, fun _ => hflag, fun _ => by decide⟩

namespace SegmentLeft

variable {s s' : State} {pid : Nat} {ph : ElfProgram} {src : Nat → UInt8}

/-- All addresses of a page of the segment have the permissions of the segment. -/
theorem perm_of_page (h : SegmentLeft s' pid ph src) {a b : Nat} (hb : PAGESIZE * ph.firstPage ≤ b)
    (hb' : b < ph.endMem) (hab : a / PAGESIZE = b / PAGESIZE) : (s'.lookup pid a).perm = ph.perm := by
  have hperm := h.pages b hb hb'
  have hm : Mapped s'.mem (s'.processes pid).pagetable b := by
    intro e
    rw [State.lookup, e] at hperm
    have hpresent := ph.perm_bits.1
    rw [← hperm] at hpresent
    exact hpresent rfl
  have hpage : page48 a = page48 b := by
    simp only [PAGESIZE] at hab
    simp only [page48, hab]
  rw [← hperm]
  exact (hm.same_page hpage).2.2.2

/-- A segment that starts at a page boundary. -/
theorem exact_of_aligned (h : SegmentLeft s' pid ph src) (hsize : ph.pFilesz ≤ ph.pMemsz)
    (hwidth : ph.pMemsz < 2 ^ 64) (hva : UserPart ph.pVa)
    (hrun : programLoadSegment s pid ph src = .ok (s', true)) (halign : ph.pVa % PAGESIZE = 0) :
    LoadedExactly s s' pid ph src := by
  obtain ⟨-, hhigh⟩ := hva
  simp only [MEMSIZE_VIRTUAL] at hhigh
  have hstart : PAGESIZE * ph.firstPage = ph.pVa := by
    simp only [PAGESIZE] at halign
    simp only [PAGESIZE, ElfProgram.firstPage]
    omega
  have hround : roundDownPage ph.pVa = ph.pVa := by
    rw [ElfProgram.firstPage_eq, hstart]
  have hle := h.start_le
  have hle' := h.file_le
  rw [hstart] at hle
  -- an end address that had wrapped around would be below the start
  have hendMem : ph.endMem = ph.pVa + ph.pMemsz := by
    have hmod : ph.endMem = (ph.pVa + ph.pMemsz) % 2 ^ 64 := rfl
    omega
  have hendFile : ph.endFile = ph.pVa + ph.pFilesz := by
    have hmod : ph.endFile = (ph.pVa + ph.pFilesz) % 2 ^ 64 := rfl
    omega
  constructor
  · intro k hk
    rw [h.file (ph.pVa + k) (by omega) (by omega), hstart, Nat.add_sub_cancel_left]
  · intro a ha ha'
    exact h.bss a (by omega) (by omega)
  · intro src' hsrc
    apply programLoadSegment_congr hrun
    intro k hk
    apply hsrc
    rw [hendFile, hround] at hk
    omega
  · intro a b hb hb' hab
    rw [h.perm_of_page (by omega) (by omega) hab]
    exact ph.perm_bits

end SegmentLeft

namespace LoadSpace

variable {s s' : State} {pid : Nat} {U : Tables} {ph : ElfProgram} {src : Nat → UInt8}

/-- A segment that starts inside a page: the copy goes on behind the file part of the source. -/
theorem aligned_of_exact (h : LoadSpace s pid U) (hsize : ph.pFilesz ≤ ph.pMemsz) (hva : UserPart ph.pVa)
    (hrun : programLoadSegment s pid ph src = .ok (s', true)) (hexact : LoadedExactly s s' pid ph src) :
    ph.pVa % PAGESIZE = 0 := by
  by_contra halign
  have hleft := h.segmentLeft hva hrun
  have hhigh := hva.2
  simp only [MEMSIZE_VIRTUAL] at hhigh
  -- no page is mapped at the end of the last-level tables, so that the segment ends before it
  have hinside : ph.pVa + ph.pMemsz ≤ 0x400000 := by
    by_contra hlong
    have hpresent := (hexact.pages 0x400000 0x400000 (by omega) (by omega) rfl).1
    rw [hleft.beyond] at hpresent
    exact hpresent rfl
  have hendFile : ph.endFile = ph.pVa + ph.pFilesz := by
    have hmod : ph.endFile = (ph.pVa + ph.pFilesz) % 2 ^ 64 := rfl
    omega
  obtain ⟨k, hk⟩ : ∃ k, k = ph.pFilesz + ph.pVa % PAGESIZE - 1 := ⟨_, rfl⟩
  simp only [PAGESIZE] at halign hk
  have hlast : ph.endFile - 1 - PAGESIZE * ph.firstPage = k := by
    rw [hendFile]
    simp only [PAGESIZE, ElfProgram.firstPage]
    omega
  have hbounds : PAGESIZE * ph.firstPage ≤ ph.endFile - 1 ∧ ph.endFile - 1 < ph.endFile := by
    rw [hendFile]
    simp only [PAGESIZE, ElfProgram.firstPage]
    omega
  obtain ⟨src', hsrc'⟩ : ∃ src', src' = Function.update src k (src k + 1) := ⟨_, rfl⟩
  have hsame : ∀ j, j < ph.pFilesz → src' j = src j := by
    intro j hj
    rw [hsrc', Function.update_of_ne (by omega)]
  have hleft' := h.segmentLeft hva (hexact.copied src' hsame)
  have hbyte := hleft.file (ph.endFile - 1) hbounds.1 hbounds.2
  have hbyte' := hleft'.file (ph.endFile - 1) hbounds.1 hbounds.2
  rw [hlast] at hbyte hbyte'
  rw [hbyte, hsrc', Function.update_self] at hbyte'
  grind

end LoadSpace

/-- `program_load_segment` leaves what the header says if and only if the segment starts at a page
boundary. -/
theorem segment_exact_iff {s s' : State} {pid : Nat} {U : Tables} {ph : ElfProgram} {src : Nat → UInt8}
    (h : LoadSpace s pid U) (hsize : ph.pFilesz ≤ ph.pMemsz) (hwidth : ph.pMemsz < 2 ^ 64)
    (hva : UserPart ph.pVa) (hrun : programLoadSegment s pid ph src = .ok (s', true)) :
    LoadedExactly s s' pid ph src ↔ ph.pVa % PAGESIZE = 0 := by
  constructor
  · exact h.aligned_of_exact hsize hva hrun
  · exact (h.segmentLeft hva hrun).exact_of_aligned hsize hwidth hva hrun

/-- A segment that fits can be loaded into the first process. -/
theorem exists_segmentLoaded (ph : ElfProgram) (hfit : ph.Fits) (hpages : 6 + ph.pageCount ≤ 0x40)
    (src : Nat → UInt8) : ∃ s s' U, LoadSpace s 1 U ∧ programLoadSegment s 1 ph src = .ok (s', true) := by
  obtain ⟨s, T, hacc, hempty, hfree, -⟩ := exists_firstProcess fun _ => 0
  have hunmapped : ∀ i, ph.firstPage ≤ i → i < ph.firstPage + ph.pageCount →
      ¬ Mapped s.mem (T 1).l1 (PAGESIZE * i) := by
    intro i hlow hhigh
    have hle := hfit.pages_le
    apply hempty
    simp only [UserPart, PROC_START_ADDR, MEMSIZE_VIRTUAL, PAGESIZE]
    omega
  obtain ⟨s', b, hcode, -, henough⟩ :=
    hacc.programLoadSegment_spec (Finset.mem_singleton_self 1) hfit src hunmapped
  obtain ⟨rfl, -⟩ := henough 6 (by decide) hpages hfree
  exact ⟨s, s', T 1, hacc.loadSpace (Finset.mem_singleton_self 1), hcode⟩

/-- A read-only segment at the start of a page holds what its header says. -/
theorem segment_exact_iff_text : ∃ s s', programLoadSegment s 1
    ⟨ELF_PTYPE_LOAD, 5, 0x1000, 0x100000, 0x20, 0x40⟩ UInt8.ofNat = .ok (s', true) ∧
      LoadedExactly s s' 1 ⟨ELF_PTYPE_LOAD, 5, 0x1000, 0x100000, 0x20, 0x40⟩ UInt8.ofNat := by
  obtain ⟨s, s', U, hspace, hcode⟩ := exists_segmentLoaded
    ⟨ELF_PTYPE_LOAD, 5, 0x1000, 0x100000, 0x20, 0x40⟩ (by decide) (by decide) UInt8.ofNat
  refine ⟨s, s', hcode, ?_⟩
  exact (segment_exact_iff hspace (by decide) (by decide) ⟨by decide, by decide⟩ hcode).2 (by decide)

/-- A segment that starts inside a page is not where its header says: its first
byte is that of the source 16 bytes further on. -/
theorem segment_shifted : ∃ s s' U, LoadSpace s 1 U ∧ programLoadSegment s 1
    ⟨ELF_PTYPE_LOAD, 6, 0x1010, 0x100010, 0x20, 0x40⟩ UInt8.ofNat = .ok (s', true) ∧
      s'.byteAt 1 0x100010 = 0x10 ∧
      ¬ LoadedExactly s s' 1 ⟨ELF_PTYPE_LOAD, 6, 0x1010, 0x100010, 0x20, 0x40⟩ UInt8.ofNat := by
  obtain ⟨s, s', U, hspace, hcode⟩ := exists_segmentLoaded
    ⟨ELF_PTYPE_LOAD, 6, 0x1010, 0x100010, 0x20, 0x40⟩ (by decide) (by decide) UInt8.ofNat
  have hbyte : s'.byteAt 1 0x100010 = 0x10 := (hspace.segmentLeft ⟨by decide, by decide⟩ hcode).file
    0x100010 (by decide) (by decide)
  refine ⟨s, s', U, hspace, hcode, hbyte, fun hexact => ?_⟩
  have hfirst : s'.byteAt 1 0x100010 = 0 := hexact.file 0 (by decide)
  rw [hbyte] at hfirst
  exact absurd hfirst (by decide)

end MemoryManagement.Kernel
