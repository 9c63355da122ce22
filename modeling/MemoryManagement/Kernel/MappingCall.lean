import MemoryManagement.Kernel.Exception
import MemoryManagement.Kernel.ProcessTables

/-!
# The mapping system call

`syscall_mapping` translates the user's pointer once and copies the 24 bytes of a `vamapping` to
consecutive physical addresses. `mapping_contract_iff` says when that is what the caller may expect: the
struct lies within one page, or the page of its last byte is writable and follows the first one in
physical memory as well. Otherwise the copy runs into an unrelated physical page.
-/

set_option autoImplicit false

namespace MemoryManagement.Kernel

open MemoryManagement.Library.ByteMemory

/-! ## The struct in memory -/

/-- The `i`-th byte of a `vamapping`. -/
def vamappingByte (v : Vamapping) (i : Nat) : UInt8 :=
  if i < 8 then UInt8.ofNat ((v.pn % 2 ^ 32).toNat / 256 ^ i)
  else if i < 16 then UInt8.ofNat (v.pa / 256 ^ (i - 8))
  else UInt8.ofNat (v.perm / 256 ^ (i - 16))

theorem storeVamapping_byte (m : Mem) (a : Nat) (v : Vamapping) {i : Nat} (hi : i < vamappingSize) :
    storeVamapping m a v (a + i) = vamappingByte v i := by
  simp only [vamappingSize] at hi
  rw [storeVamapping, vamappingByte]
  by_cases h16 : 16 ≤ i
  · rw [storeLE_of_inRange ⟨by omega, by omega⟩, if_neg (by omega), if_neg (by omega),
      Nat.add_sub_add_left]
  · rw [storeLE_of_not_inRange (by omega)]
    by_cases h8 : 8 ≤ i
    · rw [storeLE_of_inRange ⟨by omega, by omega⟩, if_neg (by omega), if_pos (by omega),
        Nat.add_sub_add_left]
    · rw [storeLE_of_not_inRange (by omega), storeLE_of_inRange ⟨by omega, by omega⟩,
        if_pos (by omega), Nat.add_sub_cancel_left]

theorem storeVamapping_other (m : Mem) {a x : Nat} (v : Vamapping) (hx : ¬ InRange a vamappingSize x) :
    storeVamapping m a v x = m x := by
  simp only [InRange, vamappingSize] at hx
  rw [storeVamapping, storeLE_of_not_inRange (by omega), storeLE_of_not_inRange (by omega),
    storeLE_of_not_inRange (by omega)]

/-! ## What the call may do -/

/-- The process may write at the address. -/
def UserWritable (m : Mem) (root va : Nat) : Prop :=
  (virtualMemoryLookup m root va).perm &&& (PTE_P ||| PTE_W ||| PTE_U) = PTE_P ||| PTE_W ||| PTE_U

/-- The process may read at the address. -/
def UserReadable (m : Mem) (root va : Nat) : Prop :=
  (virtualMemoryLookup m root va).perm &&& (PTE_P ||| PTE_U) = PTE_P ||| PTE_U

/-- The address of the `i`-th byte of the struct at `ptr`. -/
def byteAddr (ptr i : Nat) : Nat := (ptr + i) % 2 ^ 64

/-- The memory is as it was; or every byte that is different is a byte of the struct that the process
may write, and the process reads the translation of `addr` back from its pointer. -/
def MappingContract (m m' : Mem) (root ptr addr : Nat) : Prop :=
  m' = m ∨
  ((∀ x, m' x ≠ m x → ∃ i, i < vamappingSize ∧ UserWritable m root (byteAddr ptr i) ∧
      x = (virtualMemoryLookup m root (byteAddr ptr i)).pa) ∧
    ∀ i, i < vamappingSize → UserReadable m' root (byteAddr ptr i) ∧
      m' (virtualMemoryLookup m' root (byteAddr ptr i)).pa =
        vamappingByte (virtualMemoryLookup m' root addr) i)

/-- The call returns, keeps to its contract, and changes only physical pages that the process may
write. -/
def MappingSafe (m : Mem) (root ptr addr : Nat) : Prop :=
  ∃ m', syscallMapping m root ptr addr = .ok m' ∧ MappingContract m m' root ptr addr ∧
    ∀ x, m' x ≠ m x → ∃ va, UserWritable m root va ∧
      x / PAGESIZE = (virtualMemoryLookup m root va).pa / PAGESIZE

/-- The checks that `syscall_mapping` makes of the pointer. -/
def MappingAccepted (m : Mem) (root ptr addr : Nat) : Prop :=
  (virtualMemoryLookup m root ptr).perm &&& (PTE_W ||| PTE_U) = PTE_W ||| PTE_U ∧
  (pageNumber (byteAddr ptr 23) = pageNumber addr ∨
    (virtualMemoryLookup m root (byteAddr ptr 23)).perm &&& (PTE_W ||| PTE_P) = PTE_W ||| PTE_P)

/-- The last byte of the struct may be written by the process and lies where the copy puts it. -/
def LastByteInPlace (m : Mem) (root ptr : Nat) : Prop :=
  UserWritable m root (byteAddr ptr 23) ∧
  (virtualMemoryLookup m root (byteAddr ptr 23)).pa = (virtualMemoryLookup m root ptr).pa + 23

/-- All bytes that the copy writes are there already, or those past the first page are, and the process
finds the same bytes where it reads them. -/
def AlreadyThere (m : Mem) (root ptr addr : Nat) : Prop :=
  (virtualMemoryLookup m root ptr).pa + vamappingSize ≤ MEMSIZE_PHYSICAL ∧
  ((∀ i, i < vamappingSize → m ((virtualMemoryLookup m root ptr).pa + i) =
      vamappingByte (virtualMemoryLookup m root addr) i) ∨
    ∀ i, i < vamappingSize → PAGESIZE ≤ ptr % PAGESIZE + i →
      m ((virtualMemoryLookup m root ptr).pa + i) =
        vamappingByte (virtualMemoryLookup m root addr) i ∧
      UserReadable m root (byteAddr ptr i) ∧
      m (virtualMemoryLookup m root (byteAddr ptr i)).pa =
        vamappingByte (virtualMemoryLookup m root addr) i)

/-- When the call is safe. -/
def MappingFits (m : Mem) (root ptr addr : Nat) : Prop :=
  ¬ MappingAccepted m root ptr addr ∨ LastByteInPlace m root ptr ∨ AlreadyThere m root ptr addr

section Call

variable {m : Mem} {root ptr addr : Nat}

theorem syscallMapping_refused (h : ¬ MappingAccepted m root ptr addr) :
    syscallMapping m root ptr addr = .ok m := by
  rw [syscallMapping]
  by_cases h1 : (virtualMemoryLookup m root ptr).perm &&& (PTE_W ||| PTE_U) = PTE_W ||| PTE_U
  · simp only [if_neg (not_not.2 h1)]
    apply if_pos
    obtain ⟨hpage, hperm⟩ := not_or.1 fun h2 => h ⟨h1, h2⟩
    exact ⟨hpage, hperm⟩
  · simp only [if_pos h1]

theorem syscallMapping_accepted (h : MappingAccepted m root ptr addr) :
    syscallMapping m root ptr addr =
      if MEMSIZE_PHYSICAL < (virtualMemoryLookup m root ptr).pa + vamappingSize then .error .panic
      else .ok (storeVamapping m (virtualMemoryLookup m root ptr).pa
        (virtualMemoryLookup m root addr)) := by
  obtain ⟨h1, h2⟩ := h
  have hchecks : ¬ (pageNumber ((ptr + vamappingSize - 1) % 2 ^ 64) ≠ pageNumber addr ∧
      (virtualMemoryLookup m root ((ptr + vamappingSize - 1) % 2 ^ 64)).perm &&& (PTE_W ||| PTE_P) ≠
        PTE_W ||| PTE_P) := by
    rintro ⟨hpage, hperm⟩
    rcases h2 with h2 | h2
    · exact hpage h2
    · exact hperm h2
  rw [syscallMapping]
  simp only [if_neg (not_not.2 h1), if_neg hchecks]

/-! ## Translating the struct -/

theorem UserWritable.mapped {va : Nat} (h : UserWritable m root va) : Mapped m root va := by
  intro hnone
  rw [UserWritable, hnone] at h
  exact absurd h (by decide)

theorem UserWritable.user {va : Nat} (h : UserWritable m root va) :
    (virtualMemoryLookup m root va).perm &&& PTE_U ≠ 0 := by
  rw [UserWritable] at h
  have hsub : (virtualMemoryLookup m root va).perm &&& (PTE_P ||| PTE_W ||| PTE_U) &&& PTE_U =
      (virtualMemoryLookup m root va).perm &&& PTE_U := by
    rw [Nat.and_assoc]
    rfl
  rw [← hsub, h]
  decide

theorem UserWritable.readable {va : Nat} (h : UserWritable m root va) : UserReadable m root va := by
  rw [UserWritable] at h
  have hsub : (virtualMemoryLookup m root va).perm &&& (PTE_P ||| PTE_W ||| PTE_U) &&&
      (PTE_P ||| PTE_U) = (virtualMemoryLookup m root va).perm &&& (PTE_P ||| PTE_U) := by
    rw [Nat.and_assoc]
    rfl
  rw [UserReadable, ← hsub, h]
  rfl

theorem UserWritable.same_page {a va : Nat} (h : UserWritable m root va) (ha : page48 a = page48 va) :
    UserWritable m root a := by
  rw [UserWritable, (h.mapped.same_page ha).2.2.2]
  exact h

/-- Flags that a translation has, since it has the present flag too. -/
theorem MappingAccepted.writable (h : MappingAccepted m root ptr addr) : UserWritable m root ptr := by
  have hflags := h.1
  have hm : Mapped m root ptr := by
    intro hnone
    rw [hnone] at hflags
    exact absurd hflags (by decide)
  have hpresent := mapped_iff_perm.1 hm
  rw [Nat.and_one_is_mod] at hpresent
  rw [UserWritable, show PTE_P ||| PTE_W ||| PTE_U = (PTE_W ||| PTE_U) ||| PTE_P from rfl,
    Nat.and_or_distrib_left, hflags, Nat.and_one_is_mod, Nat.mod_two_ne_zero.1 hpresent]

/-- Bytes of the struct on the page of its first byte. -/
theorem byteAddr_near (hptr : ptr < 2 ^ 64) {i : Nat} (hi : ptr % 4096 + i < 4096) :
    page48 (byteAddr ptr i) = page48 ptr ∧ byteAddr ptr i % 4096 = ptr % 4096 + i := by
  have hsum : byteAddr ptr i = ptr + i := by
    rw [byteAddr]
    omega
  rw [hsum, page48, page48]
  omega

/-- Bytes of the struct on the page of its last byte. -/
theorem byteAddr_far {i : Nat} (hi : i < 24) (hfar : 4096 ≤ ptr % 4096 + i) :
    page48 (byteAddr ptr i) = page48 (byteAddr ptr 23) ∧
      byteAddr ptr i % 4096 = ptr % 4096 + i - 4096 ∧
      byteAddr ptr 23 % 4096 = ptr % 4096 + 23 - 4096 := by
  simp only [byteAddr, page48]
  omega

theorem translate_near (hptr : ptr < 2 ^ 64) (hm : Mapped m root ptr) {i : Nat}
    (hi : ptr % 4096 + i < 4096) :
    (virtualMemoryLookup m root (byteAddr ptr i)).pa = (virtualMemoryLookup m root ptr).pa + i := by
  obtain ⟨hpage, hoff⟩ := byteAddr_near hptr hi
  obtain ⟨-, hframe, hrem, -⟩ := hm.same_page hpage
  have hself := (hm.same_page rfl).2.2.1
  omega

/-- A byte past the first page, when it is translated to the page that the copy runs into. -/
theorem translate_far (hm : Mapped m root ptr) {i : Nat} (hi : i < 24) (hfar : 4096 ≤ ptr % 4096 + i)
    (hend : Mapped m root (byteAddr ptr 23)) :
    (virtualMemoryLookup m root (byteAddr ptr i)).pa / 4096 =
        (virtualMemoryLookup m root (byteAddr ptr 23)).pa / 4096 ∧
      (virtualMemoryLookup m root (byteAddr ptr i)).pa % 4096 =
        ((virtualMemoryLookup m root ptr).pa + i) % 4096 ∧
      (virtualMemoryLookup m root (byteAddr ptr 23)).pa % 4096 =
        ((virtualMemoryLookup m root ptr).pa + 23) % 4096 := by
  obtain ⟨hpage, hoff, hoff'⟩ := byteAddr_far hi hfar
  obtain ⟨-, hframe, hrem, -⟩ := hend.same_page hpage
  have hself := (hm.same_page rfl).2.2.1
  have hself' := (hend.same_page rfl).2.2.1
  omega

/-- Writes to pages that the process may write leave every translation alone. -/
theorem TableOk.lookup_of_writes (h : TableOk m root) {m' : Mem}
    (hw : ∀ x, m' x ≠ m x → ∃ va, UserWritable m root va ∧ x = (virtualMemoryLookup m root va).pa)
    (a : Nat) : virtualMemoryLookup m' root a = virtualMemoryLookup m root a := by
  apply lookup_congr
  intro t x ht hx
  by_contra hne
  obtain ⟨va, hva, rfl⟩ := hw x hne
  exact h.apart va hva.mapped (Or.inr hva.user) t ht hx

/-! ## The contract -/

/-- The copy is safe when every byte that it changes is the translation of a byte of the struct, and
every other byte of the struct already holds its value. -/
theorem TableOk.mappingSafe (h : TableOk m root) (hacc : MappingAccepted m root ptr addr)
    (hphys : (virtualMemoryLookup m root ptr).pa + vamappingSize ≤ MEMSIZE_PHYSICAL)
    (hw : ∀ i, i < vamappingSize → m ((virtualMemoryLookup m root ptr).pa + i) ≠
        vamappingByte (virtualMemoryLookup m root addr) i →
      UserWritable m root (byteAddr ptr i) ∧ (virtualMemoryLookup m root (byteAddr ptr i)).pa =
        (virtualMemoryLookup m root ptr).pa + i)
    (hr : ∀ i, i < vamappingSize → UserReadable m root (byteAddr ptr i) ∧
      ((virtualMemoryLookup m root (byteAddr ptr i)).pa = (virtualMemoryLookup m root ptr).pa + i ∨
        (¬ InRange (virtualMemoryLookup m root ptr).pa vamappingSize
            (virtualMemoryLookup m root (byteAddr ptr i)).pa ∧
          m (virtualMemoryLookup m root (byteAddr ptr i)).pa =
            vamappingByte (virtualMemoryLookup m root addr) i))) :
    MappingSafe m root ptr addr := by
  -- a byte that the copy changes is a byte of the struct
  have hchanged : ∀ x, storeVamapping m (virtualMemoryLookup m root ptr).pa
      (virtualMemoryLookup m root addr) x ≠ m x → ∃ i, i < vamappingSize ∧
        UserWritable m root (byteAddr ptr i) ∧
        x = (virtualMemoryLookup m root (byteAddr ptr i)).pa := by
    intro x hx
    have hin : InRange (virtualMemoryLookup m root ptr).pa vamappingSize x := by
      by_contra hout
      exact hx (storeVamapping_other m _ hout)
    obtain ⟨i, rfl⟩ := Nat.exists_eq_add_of_le hin.1
    have hi : i < vamappingSize := by
      omega
    rw [storeVamapping_byte m _ _ hi] at hx
    obtain ⟨hwrite, hpa⟩ := hw i hi hx.symm
    exact ⟨i, hi, hwrite, hpa.symm⟩
  have hlookup := h.lookup_of_writes fun x hx => by
    obtain ⟨i, -, hwrite, hpa⟩ := hchanged x hx
    exact ⟨_, hwrite, hpa⟩
  refine ⟨_, ?_, Or.inr ⟨hchanged, fun i hi => ?_⟩, fun x hx => ?_⟩
  · rw [syscallMapping_accepted hacc, if_neg (Nat.not_lt.2 hphys)]
  · obtain ⟨hread, hbyte⟩ := hr i hi
    rw [UserReadable, hlookup, hlookup]
    refine ⟨hread, ?_⟩
    rcases hbyte with hpa | ⟨hout, hbyte⟩
    · rw [hpa, storeVamapping_byte m _ _ hi]
    · rw [storeVamapping_other m _ hout, hbyte]
  · obtain ⟨i, -, hwrite, rfl⟩ := hchanged x hx
    exact ⟨_, hwrite, rfl⟩

theorem TableOk.mappingSafe_of_fits (h : TableOk m root) (hptr : ptr < 2 ^ 64)
    (hfits : MappingFits m root ptr addr) : MappingSafe m root ptr addr := by
  by_cases hacc : MappingAccepted m root ptr addr
  · have hwrite := hacc.writable
    have hm := hwrite.mapped
    -- bytes on the first page are always in place
    have hnear : ∀ i, ptr % 4096 + i < 4096 → UserWritable m root (byteAddr ptr i) ∧
        (virtualMemoryLookup m root (byteAddr ptr i)).pa =
          (virtualMemoryLookup m root ptr).pa + i := fun i hi =>
      ⟨hwrite.same_page (byteAddr_near hptr hi).1, translate_near hptr hm hi⟩
    rcases hfits with hbad | ⟨hend, hpa⟩ | ⟨hphys, hthere | hfar⟩
    · exact absurd hacc hbad
    · have hall : ∀ i, i < vamappingSize → UserWritable m root (byteAddr ptr i) ∧
          (virtualMemoryLookup m root (byteAddr ptr i)).pa =
            (virtualMemoryLookup m root ptr).pa + i := by
        intro i hi
        by_cases hpage : ptr % 4096 + i < 4096
        · exact hnear i hpage
        · have hfar := Nat.le_of_not_lt hpage
          refine ⟨hend.same_page (byteAddr_far hi hfar).1, ?_⟩
          obtain ⟨hframe, hrem, -⟩ := translate_far hm hi hfar hend.mapped
          have hself := (hm.same_page rfl).2.2.1
          simp only [vamappingSize] at hi
          omega
      refine h.mappingSafe hacc ?_ (fun i hi _ => hall i hi) fun i hi =>
        ⟨(hall i hi).1.readable, Or.inl (hall i hi).2⟩
      have hlast := h.physical _ hend.mapped
      simp only [vamappingSize]
      omega
    · -- nothing changes at all
      refine ⟨_, (syscallMapping_accepted hacc).trans (if_neg (Nat.not_lt.2 hphys)), Or.inl ?_, ?_⟩
      · funext x
        by_cases hin : InRange (virtualMemoryLookup m root ptr).pa vamappingSize x
        · obtain ⟨i, rfl⟩ := Nat.exists_eq_add_of_le hin.1
          have hi : i < vamappingSize := by
            omega
          rw [storeVamapping_byte m _ _ hi, hthere i hi]
        · exact storeVamapping_other m _ hin
      · intro x hx
        exfalso
        apply hx
        by_cases hin : InRange (virtualMemoryLookup m root ptr).pa vamappingSize x
        · obtain ⟨i, rfl⟩ := Nat.exists_eq_add_of_le hin.1
          have hi : i < vamappingSize := by
            omega
          rw [storeVamapping_byte m _ _ hi, hthere i hi]
        · exact storeVamapping_other m _ hin
    · apply h.mappingSafe hacc hphys
      · intro i hi hne
        by_cases hpage : ptr % 4096 + i < 4096
        · exact hnear i hpage
        · exact absurd (hfar i hi (Nat.le_of_not_lt hpage)).1 hne
      · intro i hi
        by_cases hpage : ptr % 4096 + i < 4096
        · exact ⟨(hnear i hpage).1.readable, Or.inl (hnear i hpage).2⟩
        · have hge := Nat.le_of_not_lt hpage
          obtain ⟨-, hread, hbyte⟩ := hfar i hi hge
          refine ⟨hread, ?_⟩
          by_cases hin : InRange (virtualMemoryLookup m root ptr).pa vamappingSize
              (virtualMemoryLookup m root (byteAddr ptr i)).pa
          · -- the offset in the page says which byte of the copy it is
            have hread' : Mapped m root (byteAddr ptr i) := by
              intro hnone
              rw [UserReadable, hnone] at hread
              exact absurd hread (by decide)
            have hoff := (byteAddr_far hi hge).2.1
            have hrem := (hread'.same_page rfl).2.2.1
            have hself := (hm.same_page rfl).2.2.1
            obtain ⟨hlow, hhigh⟩ := hin
            simp only [vamappingSize] at hi hhigh
            exact Or.inl (by omega)
          · exact Or.inr ⟨hin, hbyte⟩
  · exact ⟨m, syscallMapping_refused hacc, Or.inl rfl, fun x hx => absurd rfl hx⟩

theorem TableOk.fits_of_mappingSafe (h : TableOk m root) (hptr : ptr < 2 ^ 64)
    (hsafe : MappingSafe m root ptr addr) : MappingFits m root ptr addr := by
  by_cases hacc : MappingAccepted m root ptr addr
  · have hm := hacc.writable.mapped
    have hself := (hm.same_page rfl).2.2.1
    obtain ⟨m', hcode, hcontract, -⟩ := hsafe
    rw [syscallMapping_accepted hacc] at hcode
    split at hcode
    · cases hcode
    rename_i hroom
    have hphys := Nat.le_of_not_lt hroom
    obtain rfl := (Except.ok.inj hcode).symm
    by_cases hend : LastByteInPlace m root ptr
    · exact Or.inr (Or.inl hend)
    refine Or.inr (Or.inr ⟨hphys, ?_⟩)
    rcases hcontract with hsame | ⟨hchanged, hread⟩
    · apply Or.inl
      intro i hi
      rw [← storeVamapping_byte m _ _ hi, hsame]
    · apply Or.inr
      intro i hi hfar
      have hfar' : 4096 ≤ ptr % 4096 + i := hfar
      -- a change past the first page would be a change where the last byte belongs
      have hstay : m ((virtualMemoryLookup m root ptr).pa + i) =
          vamappingByte (virtualMemoryLookup m root addr) i := by
        by_contra hne
        have hdiff := hchanged ((virtualMemoryLookup m root ptr).pa + i) (by
          rw [storeVamapping_byte m _ _ hi]
          exact Ne.symm hne)
        obtain ⟨j, hj, hwrite, hpa⟩ := hdiff
        have hrem := (hwrite.mapped.same_page rfl).2.2.1
        by_cases hpage : ptr % 4096 + j < 4096
        · rw [translate_near hptr hm hpage] at hpa
          omega
        · have hge := Nat.le_of_not_lt hpage
          have hpages := (byteAddr_far hj hge).1
          have hlast := hwrite.same_page hpages.symm
          obtain ⟨hframe, -, hrem'⟩ := translate_far hm hj hge hlast.mapped
          apply hend
          refine ⟨hlast, ?_⟩
          simp only [vamappingSize] at hi hj
          omega
      have hlookup := h.lookup_of_writes fun x hx => by
        obtain ⟨j, -, hwrite, hpa⟩ := hchanged x hx
        exact ⟨_, hwrite, hpa⟩
      obtain ⟨hreadable, hbyte⟩ := hread i hi
      rw [UserReadable, hlookup] at hreadable
      rw [hlookup, hlookup] at hbyte
      refine ⟨hstay, hreadable, ?_⟩
      by_cases hin : InRange (virtualMemoryLookup m root ptr).pa vamappingSize
          (virtualMemoryLookup m root (byteAddr ptr i)).pa
      · have hmi : Mapped m root (byteAddr ptr i) := by
          intro hnone
          rw [hnone] at hreadable
          exact absurd hreadable (by decide)
        have hoff := (byteAddr_far hi hfar').2.1
        have hrem := (hmi.same_page rfl).2.2.1
        obtain ⟨hlow, hhigh⟩ := hin
        have hplace : (virtualMemoryLookup m root (byteAddr ptr i)).pa =
            (virtualMemoryLookup m root ptr).pa + i := by
          simp only [vamappingSize] at hi hhigh
          omega
        rw [hplace]
        exact hstay
      · rw [storeVamapping_other m _ hin] at hbyte
        exact hbyte
  · exact Or.inl hacc

end Call

/-- On a well-formed page table the mapping call keeps to its contract exactly when it refuses the
pointer, or the last byte of the struct lies where the copy puts it, or the bytes that the copy puts
elsewhere are there already. -/
theorem mapping_contract_iff {m : Mem} {root : Nat} (h : TableOk m root) {ptr addr : Nat}
    (hptr : ptr < 2 ^ 64) : MappingSafe m root ptr addr ↔ MappingFits m root ptr addr :=
  ⟨h.fits_of_mappingSafe hptr, h.mappingSafe_of_fits hptr⟩

/-- Two user pages whose physical pages do not follow each other. -/
def scatteredPages : Mem := userPage (userPage emptySpace 0x101000 0x10000) 0x102000 0x20000

theorem sample_scatteredPages : Sample scatteredPages ∧ ∀ a,
    virtualMemoryLookup scatteredPages 0x1000 a =
      if page48 a = page48 0x102000 then ⟨(0x20000 / 4096 : Nat), 0x20000 + a % 4096, 7⟩
      else if page48 a = page48 0x101000 then ⟨(0x10000 / 4096 : Nat), 0x10000 + a % 4096, 7⟩
      else Vamapping.unmapped := by
  obtain ⟨h1, hlookup1⟩ := sample_emptySpace.userPage (by decide : page48 0x101000 < 1024)
    (by decide : 0x10000 % 4096 = 0 ∧ 0x10000 + 4096 ≤ 0x200000) (by decide)
  obtain ⟨h2, hlookup2⟩ := h1.userPage (by decide : page48 0x102000 < 1024)
    (by decide : 0x20000 % 4096 = 0 ∧ 0x20000 + 4096 ≤ 0x200000) (by decide)
  refine ⟨h2, fun a => ?_⟩
  rw [scatteredPages, hlookup2, hlookup1, not_mapped.1 (not_mapped_emptySpace a)]

/-- A struct inside one page. -/
theorem mapping_contract_iff_example : MappingSafe scatteredPages 0x1000 0x101000 0x102000 := by
  obtain ⟨hsample, hlookup⟩ := sample_scatteredPages
  refine (mapping_contract_iff hsample.ok (by decide)).2 (Or.inr (Or.inl ⟨?_, ?_⟩))
  · rw [UserWritable, hlookup, if_neg (by decide), if_pos (by decide)]
    rfl
  · rw [hlookup, hlookup, if_neg (by decide), if_pos (by decide), if_neg (by decide),
      if_pos (by decide)]
    rfl

/-- A struct across the two pages: its second half goes to the physical page after the first one, which
is not the caller's. -/
theorem mapping_runs_over : ¬ MappingSafe scatteredPages 0x1000 0x101FF8 0x101000 := by
  obtain ⟨hsample, hlookup⟩ := sample_scatteredPages
  have hptr : virtualMemoryLookup scatteredPages 0x1000 0x101FF8 = ⟨0x10, 0x10FF8, 7⟩ := by
    rw [hlookup, if_neg (by decide), if_pos (by decide)]
    rfl
  have hend : virtualMemoryLookup scatteredPages 0x1000 (byteAddr 0x101FF8 23) =
      ⟨0x20, 0x2000F, 7⟩ := by
    rw [hlookup, if_pos (by decide)]
    rfl
  have haddr : virtualMemoryLookup scatteredPages 0x1000 0x101000 = ⟨0x10, 0x10000, 7⟩ := by
    rw [hlookup, if_neg (by decide), if_pos (by decide)]
    rfl
  -- the tenth byte lies past the first page, and 1 is to be written there
  have hzero : scatteredPages 0x11002 = 0 := by decide +kernel
  have hone : vamappingByte ⟨0x10, 0x10000, 7⟩ 10 = 1 := by decide
  intro hsafe
  rcases hsample.ok.fits_of_mappingSafe (by decide) hsafe with hacc | ⟨-, hplace⟩ | ⟨-, hthere⟩
  · apply hacc
    refine ⟨?_, Or.inr ?_⟩
    · rw [hptr]
      rfl
    · rw [hend]
      rfl
  · rw [hend, hptr] at hplace
    exact absurd hplace (by decide)
  · rw [hptr, haddr] at hthere
    have hbyte : scatteredPages 0x11002 = 1 := by
      rw [← hone]
      rcases hthere with hall | hfar
      · exact hall 10 (by decide)
      · exact (hfar 10 (by decide) (by decide)).1
    rw [hzero] at hbyte
    exact absurd hbyte (by decide)

end MemoryManagement.Kernel
