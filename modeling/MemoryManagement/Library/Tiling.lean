import Mathlib.Data.List.Perm.Basic
import Mathlib.Data.List.Pairwise
import Mathlib.Data.List.Sort
import Mathlib.Algebra.Ring.Nat

/-!
# Tilings of an address range

A span is a half-open range `[start, start + len)`. `Tiles lo bs hi` says that the spans `bs`, in
order, fill `[lo, hi)` without gap or overlap. `TiledBy lo hi ms` forgets the order: some arrangement
of the spans `ms` tiles the range. The arrangement is what an owner of the spans changes when it cuts
one span in two (`TiledBy.split`), joins two neighbours (`TiledBy.merge`), appends a span
(`TiledBy.grow`) or only moves spans from one of its collections to another (`TiledBy.perm`).

`coalesce` joins neighbouring spans of a sorted list until no span ends where the next one starts. It
keeps the covered addresses (`covered_coalesce`), and a sorted list without neighbours is determined
by what it covers (`Separated.unique`), so coalescing is a canonical form.
-/

set_option autoImplicit false

namespace MemoryManagement.Library.Tiling

/-- The half-open range `[start, start + len)`. -/
structure Span where
  start : Nat
  len : Nat
  deriving DecidableEq, Repr

namespace Span

/-- First address after the span. -/
def stop (b : Span) : Nat := b.start + b.len

/-- The address `x` lies in the span. -/
def Has (b : Span) (x : Nat) : Prop := b.start ≤ x ∧ x < b.start + b.len

instance (b : Span) (x : Nat) : Decidable (b.Has x) := inferInstanceAs (Decidable (_ ∧ _))

/-- The two spans share no address. -/
def Apart (b c : Span) : Prop := b.start + b.len ≤ c.start ∨ c.start + c.len ≤ b.start

theorem Apart.symm {b c : Span} (h : b.Apart c) : c.Apart b := Or.symm h

instance : Std.Symm Apart := ⟨fun _ _ h => h.symm⟩

theorem Apart.not_has {b c : Span} (h : b.Apart c) {x : Nat} (hb : b.Has x) : ¬ c.Has x := by
  unfold Apart Has at *
  omega

end Span

/-- The spans, in order, fill `[lo, hi)` exactly. -/
def Tiles : Nat → List Span → Nat → Prop
  | lo, [], hi => lo = hi
  | lo, b :: bs, hi => b.start = lo ∧ Tiles (lo + b.len) bs hi

/-- Some arrangement of the spans fills `[lo, hi)` exactly. -/
def TiledBy (lo hi : Nat) (ms : List Span) : Prop := ∃ bs, bs.Perm ms ∧ Tiles lo bs hi

/-! ## Ordered tilings -/

theorem tiles_append {lo hi : Nat} {xs ys : List Span} :
    Tiles lo (xs ++ ys) hi ↔ ∃ mid, Tiles lo xs mid ∧ Tiles mid ys hi := by
  induction xs generalizing lo with
  | nil => simp [Tiles]
  | cons b xs ih =>
      simp only [List.cons_append, Tiles, ih]
      constructor
      · rintro ⟨h1, mid, h2, h3⟩
        exact ⟨mid, ⟨h1, h2⟩, h3⟩
      · rintro ⟨mid, ⟨h1, h2⟩, h3⟩
        exact ⟨h1, mid, h2, h3⟩

theorem Tiles.le {lo hi : Nat} {bs : List Span} (h : Tiles lo bs hi) : lo ≤ hi := by
  induction bs generalizing lo with
  | nil => exact Nat.le_of_eq h
  | cons b bs ih =>
      have := ih h.2
      omega

theorem Tiles.bounds {lo hi : Nat} {bs : List Span} (h : Tiles lo bs hi) {b : Span}
    (hb : b ∈ bs) : lo ≤ b.start ∧ b.start + b.len ≤ hi := by
  obtain ⟨u, v, rfl⟩ := List.append_of_mem hb
  obtain ⟨mid, hu, hstart, hv⟩ := tiles_append.1 h
  have h1 := hu.le
  have h2 := hv.le
  omega

theorem Tiles.pairwise {lo hi : Nat} {bs : List Span} (h : Tiles lo bs hi) :
    bs.Pairwise fun b c => b.start + b.len ≤ c.start := by
  induction bs generalizing lo with
  | nil => exact List.Pairwise.nil
  | cons b bs ih =>
      obtain ⟨h1, h2⟩ := h
      refine List.pairwise_cons.2 ⟨fun c hc => ?_, ih h2⟩
      have := (h2.bounds hc).1
      omega

theorem Tiles.covers {lo hi : Nat} {bs : List Span} (h : Tiles lo bs hi) {x : Nat}
    (hlo : lo ≤ x) (hhi : x < hi) : ∃ b ∈ bs, b.Has x := by
  induction bs generalizing lo with
  | nil =>
      have : lo = hi := h
      omega
  | cons b bs ih =>
      obtain ⟨h1, h2⟩ := h
      by_cases hx : x < lo + b.len
      · exact ⟨b, by simp, by unfold Span.Has; omega⟩
      · obtain ⟨c, hc, hcx⟩ := ih h2 (by omega)
        exact ⟨c, by simp [hc], hcx⟩

/-- Spans of positive length that tile an empty range are no spans. -/
theorem Tiles.eq_nil {lo : Nat} {bs : List Span} (h : Tiles lo bs lo)
    (hpos : ∀ b ∈ bs, 0 < b.len) : bs = [] := by
  cases bs with
  | nil => rfl
  | cons b bs =>
      have h1 := h.2.le
      have h2 := hpos b (by simp)
      omega

/-! ## Unordered tilings -/

section TiledBy

variable {lo hi : Nat} {ms ns : List Span}

theorem TiledBy.perm (h : TiledBy lo hi ms) (hp : ms.Perm ns) : TiledBy lo hi ns := by
  obtain ⟨bs, hbs, ht⟩ := h
  exact ⟨bs, hbs.trans hp, ht⟩

theorem TiledBy.le (h : TiledBy lo hi ms) : lo ≤ hi := by
  obtain ⟨bs, -, ht⟩ := h
  exact ht.le

theorem TiledBy.bounds (h : TiledBy lo hi ms) {b : Span} (hb : b ∈ ms) :
    lo ≤ b.start ∧ b.start + b.len ≤ hi := by
  obtain ⟨bs, hbs, ht⟩ := h
  exact ht.bounds (hbs.mem_iff.2 hb)

theorem TiledBy.covers (h : TiledBy lo hi ms) {x : Nat} (hlo : lo ≤ x) (hhi : x < hi) :
    ∃ b ∈ ms, b.Has x := by
  obtain ⟨bs, hbs, ht⟩ := h
  obtain ⟨b, hb, hx⟩ := ht.covers hlo hhi
  exact ⟨b, hbs.mem_iff.1 hb, hx⟩

theorem TiledBy.pairwise_apart (h : TiledBy lo hi ms) : ms.Pairwise Span.Apart := by
  obtain ⟨bs, hbs, ht⟩ := h
  have hbs' : bs.Pairwise Span.Apart := ht.pairwise.imp fun h => Or.inl h
  exact (hbs.pairwise_iff fun h => h.symm).1 hbs'

theorem TiledBy.nil (lo : Nat) : TiledBy lo lo [] := ⟨[], List.Perm.refl _, rfl⟩

/-- One more span at the end of the range. -/
theorem TiledBy.grow (h : TiledBy lo hi ms) (k : Nat) :
    TiledBy lo (hi + k) (⟨hi, k⟩ :: ms) := by
  obtain ⟨bs, hbs, ht⟩ := h
  refine ⟨bs ++ [⟨hi, k⟩], ?_, tiles_append.2 ⟨hi, ht, ?_⟩⟩
  · exact List.perm_append_comm.trans (hbs.cons _)
  · exact ⟨rfl, rfl⟩

/-- Cutting one span in two. -/
theorem TiledBy.split {a j k : Nat} (h : TiledBy lo hi (⟨a, j + k⟩ :: ms)) :
    TiledBy lo hi (⟨a, j⟩ :: ⟨a + j, k⟩ :: ms) := by
  obtain ⟨bs, hbs, ht⟩ := h
  obtain ⟨u, v, rfl⟩ := List.append_of_mem (hbs.mem_iff.2 (List.mem_cons_self))
  have huv : (u ++ v).Perm ms :=
    ((List.perm_middle (a := (⟨a, j + k⟩ : Span))).symm.trans hbs).cons_inv
  obtain ⟨mid, hu, hstart, hv⟩ := tiles_append.1 ht
  refine ⟨u ++ ⟨a, j⟩ :: ⟨a + j, k⟩ :: v, ?_, ?_⟩
  · exact List.perm_middle.trans ((List.perm_middle.trans (huv.cons _)).cons _)
  · refine tiles_append.2 ⟨mid, hu, hstart, ?_, ?_⟩
    · simp only at hstart ⊢
      omega
    · rw [Nat.add_assoc]
      exact hv

/-- Joining a span with the one that starts where it ends. -/
theorem TiledBy.merge {a j k : Nat} (h : TiledBy lo hi (⟨a, j⟩ :: ⟨a + j, k⟩ :: ms))
    (hpos : ∀ b ∈ ms, 0 < b.len) (hj : 0 < j) (hk : 0 < k) :
    TiledBy lo hi (⟨a, j + k⟩ :: ms) := by
  obtain ⟨bs, hbs, ht⟩ := h
  have hpos' : ∀ b ∈ bs, 0 < b.len := by
    intro b hb
    have := hbs.mem_iff.1 hb
    simp only [List.mem_cons] at this
    rcases this with rfl | rfl | hb'
    · exact hj
    · exact hk
    · exact hpos b hb'
  obtain ⟨u, v, rfl⟩ := List.append_of_mem (hbs.mem_iff.2 (List.mem_cons_self))
  have huv : (u ++ v).Perm (⟨a + j, k⟩ :: ms) :=
    ((List.perm_middle (a := (⟨a, j⟩ : Span))).symm.trans hbs).cons_inv
  obtain ⟨mid, hu, hstart, hv⟩ := tiles_append.1 ht
  simp only at hstart hv
  -- the second span cannot lie before the first one, so it heads the rest of the arrangement
  have hmem : (⟨a + j, k⟩ : Span) ∈ v := by
    have h1 := huv.mem_iff.2 (List.mem_cons_self (a := (⟨a + j, k⟩ : Span)) (l := ms))
    rcases List.mem_append.1 h1 with h2 | h2
    · have := (hu.bounds h2).2
      simp only at this
      omega
    · exact h2
  obtain ⟨w, z, rfl⟩ := List.append_of_mem hmem
  obtain ⟨mid', hw, hstart', hz⟩ := tiles_append.1 hv
  simp only at hstart' hz
  have hmid : mid' = mid + j := by omega
  subst hmid
  have hwnil : w = [] := hw.eq_nil fun b hb => hpos' b (by simp [hb])
  subst hwnil
  refine ⟨u ++ ⟨a, j + k⟩ :: z, ?_, tiles_append.2 ⟨mid, hu, hstart, ?_⟩⟩
  · have huz : (u ++ z).Perm ms :=
      ((List.perm_middle (a := (⟨a + j, k⟩ : Span))).symm.trans huv).cons_inv
    exact List.perm_middle.trans (huz.cons _)
  · show Tiles (mid + (j + k)) z hi
    rw [← Nat.add_assoc]
    exact hz

/-- Spans of length at least `d` that tile a range number at most its length over `d`. -/
theorem TiledBy.length_mul_le {d : Nat} (h : TiledBy lo hi ms) (hd : ∀ b ∈ ms, d ≤ b.len) :
    lo + d * ms.length ≤ hi := by
  obtain ⟨bs, hbs, ht⟩ := h
  rw [← hbs.length_eq]
  replace hd : ∀ b ∈ bs, d ≤ b.len := fun b hb => hd b (hbs.mem_iff.1 hb)
  clear hbs
  induction bs generalizing lo with
  | nil => exact Nat.le_of_eq (by simpa [Tiles] using ht)
  | cons b bs ih =>
      have h1 := ih ht.2 fun c hc => hd c (by simp [hc])
      have h2 := hd b (by simp)
      rw [List.length_cons, Nat.mul_succ]
      omega

end TiledBy

/-! ## Coalescing -/

/-- The address `x` lies in one of the spans. -/
def Covered (bs : List Span) (x : Nat) : Prop := ∃ b ∈ bs, b.Has x

/-- Nonempty spans in increasing order. -/
structure Ascending (bs : List Span) : Prop where
  pos : ∀ b ∈ bs, 0 < b.len
  sorted : bs.Pairwise fun b c => b.start + b.len ≤ c.start

/-- Nonempty spans in increasing order, with a gap between any two of them. -/
structure Separated (bs : List Span) : Prop where
  pos : ∀ b ∈ bs, 0 < b.len
  sorted : bs.Pairwise fun b c => b.start + b.len < c.start

/-- Join `b` with the spans that follow it as long as they start where it ends. -/
def coalesceFrom (b : Span) : List Span → List Span
  | [] => [b]
  | c :: cs =>
      if b.start + b.len = c.start then coalesceFrom ⟨b.start, b.len + c.len⟩ cs
      else b :: coalesceFrom c cs

/-- Join every span with the neighbours that follow it. -/
def coalesce : List Span → List Span
  | [] => []
  | b :: bs => coalesceFrom b bs

theorem Ascending.tail {b : Span} {bs : List Span} (h : Ascending (b :: bs)) : Ascending bs :=
  ⟨fun c hc => h.pos c (by simp [hc]), (List.pairwise_cons.1 h.sorted).2⟩

theorem Ascending.join {b c : Span} {cs : List Span} (h : Ascending (b :: c :: cs))
    (hbc : b.start + b.len = c.start) : Ascending (⟨b.start, b.len + c.len⟩ :: cs) := by
  obtain ⟨hb, htail⟩ := List.pairwise_cons.1 h.sorted
  obtain ⟨hc, hcs⟩ := List.pairwise_cons.1 htail
  have hpos := h.pos b (by simp)
  refine ⟨fun d hd => ?_, List.pairwise_cons.2 ⟨fun d hd => ?_, hcs⟩⟩
  · rcases List.mem_cons.1 hd with rfl | hd'
    · simp only
      omega
    · exact h.pos d (by simp [hd'])
  · have := hc d hd
    simp only
    omega

theorem covered_cons {b : Span} {bs : List Span} {x : Nat} :
    Covered (b :: bs) x ↔ b.Has x ∨ Covered bs x := by
  simp [Covered]

theorem covered_coalesceFrom (b : Span) (bs : List Span) (x : Nat) :
    Covered (coalesceFrom b bs) x ↔ Covered (b :: bs) x := by
  induction bs generalizing b with
  | nil => rfl
  | cons c cs ih =>
      rw [coalesceFrom]
      split
      · rename_i hbc
        rw [ih, covered_cons, covered_cons, covered_cons, ← or_assoc]
        refine or_congr ?_ Iff.rfl
        simp only [Span.Has]
        omega
      · rw [covered_cons, ih, covered_cons, covered_cons, covered_cons]

theorem covered_coalesce (bs : List Span) (x : Nat) :
    Covered (coalesce bs) x ↔ Covered bs x := by
  cases bs with
  | nil => rfl
  | cons b bs => exact covered_coalesceFrom b bs x

/-- The first span keeps its start and the rest starts no earlier. -/
theorem le_start_of_mem_coalesceFrom {b : Span} {bs : List Span} (h : Ascending (b :: bs))
    {d : Span} (hd : d ∈ coalesceFrom b bs) : b.start ≤ d.start := by
  induction bs generalizing b with
  | nil =>
      have : d = b := by simpa [coalesceFrom] using hd
      rw [this]
  | cons c cs ih =>
      rw [coalesceFrom] at hd
      split at hd
      · rename_i hbc
        exact ih (b := ⟨b.start, b.len + c.len⟩) (h.join hbc) hd
      · rcases List.mem_cons.1 hd with rfl | hd'
        · exact Nat.le_refl _
        · have h1 := ih h.tail hd'
          have h2 := (List.pairwise_cons.1 h.sorted).1 c (by simp)
          omega

theorem separated_coalesceFrom {b : Span} {bs : List Span} (h : Ascending (b :: bs)) :
    Separated (coalesceFrom b bs) := by
  induction bs generalizing b with
  | nil => exact ⟨h.pos, List.pairwise_singleton _ _⟩
  | cons c cs ih =>
      rw [coalesceFrom]
      split
      · rename_i hbc
        exact ih (h.join hbc)
      · rename_i hbc
        have hrest := ih h.tail
        have hle := (List.pairwise_cons.1 h.sorted).1 c (by simp)
        refine ⟨fun d hd => ?_, List.pairwise_cons.2 ⟨fun d hd => ?_, hrest.sorted⟩⟩
        · rcases List.mem_cons.1 hd with rfl | hd'
          · exact h.pos d (by simp)
          · exact hrest.pos d hd'
        · have := le_start_of_mem_coalesceFrom h.tail hd
          omega

theorem separated_coalesce {bs : List Span} (h : Ascending bs) : Separated (coalesce bs) := by
  cases bs with
  | nil => exact ⟨by simp [coalesce], List.Pairwise.nil⟩
  | cons b bs => exact separated_coalesceFrom h

/-- Coalescing part of a tiling leaves a tiling. -/
theorem TiledBy.coalesceFrom {lo hi : Nat} {b : Span} {bs ms : List Span}
    (h : TiledBy lo hi (b :: bs ++ ms)) (hpos : ∀ c ∈ b :: bs ++ ms, 0 < c.len) :
    TiledBy lo hi (coalesceFrom b bs ++ ms) := by
  induction bs generalizing b ms with
  | nil => exact h
  | cons c cs ih =>
      rw [Tiling.coalesceFrom]
      split
      · rename_i hbc
        refine ih (b := ⟨b.start, b.len + c.len⟩) ?_ ?_
        · have hadj : TiledBy lo hi (⟨b.start, b.len⟩ :: ⟨b.start + b.len, c.len⟩ :: (cs ++ ms)) := by
            rw [hbc]
            exact h
          refine hadj.merge (fun d hd => hpos d ?_) (hpos b (by simp)) (hpos c (by simp))
          exact List.mem_cons_of_mem _ (List.mem_cons_of_mem _ hd)
        · intro d hd
          rcases List.mem_cons.1 hd with rfl | hd'
          · have := hpos b (by simp)
            simp only
            omega
          · exact hpos d (List.mem_cons_of_mem _ (List.mem_cons_of_mem _ hd'))
      · have hswap : (b :: c :: cs ++ ms).Perm (c :: cs ++ b :: ms) := by
          exact (@List.perm_middle _ b (c :: cs) ms).symm
        have hmem : ∀ d ∈ c :: cs ++ b :: ms, 0 < d.len := fun d hd =>
          hpos d (hswap.mem_iff.2 hd)
        exact (ih (h.perm hswap) hmem).perm List.perm_middle

theorem TiledBy.coalesce {lo hi : Nat} {bs ms : List Span} (h : TiledBy lo hi (bs ++ ms))
    (hpos : ∀ c ∈ bs ++ ms, 0 < c.len) : TiledBy lo hi (coalesce bs ++ ms) := by
  cases bs with
  | nil => exact h
  | cons b bs => exact h.coalesceFrom hpos

theorem Separated.tail {b : Span} {bs : List Span} (h : Separated (b :: bs)) : Separated bs :=
  ⟨fun c hc => h.pos c (by simp [hc]), (List.pairwise_cons.1 h.sorted).2⟩

/-- Everything a separated list covers past its first span lies beyond a gap. -/
theorem Separated.covered_tail {b : Span} {bs : List Span} (h : Separated (b :: bs)) {x : Nat}
    (hx : Covered bs x) : b.start + b.len < x := by
  obtain ⟨c, hc, hcx⟩ := hx
  have h1 := (List.pairwise_cons.1 h.sorted).1 c hc
  have h2 := hcx.1
  omega

/-- The first span of a separated list is the first maximal run of covered addresses. -/
theorem Separated.head_eq {b c : Span} {bs cs : List Span} (hb : Separated (b :: bs))
    (hc : Separated (c :: cs)) (h : ∀ x, Covered (b :: bs) x ↔ Covered (c :: cs) x) : b = c := by
  have hbpos := hb.pos b (by simp)
  have hcpos := hc.pos c (by simp)
  have hb1 : ∀ x, Covered (b :: bs) x → b.start ≤ x := fun x hx => by
    rcases covered_cons.1 hx with hx | hx
    · exact hx.1
    · have := hb.covered_tail hx
      omega
  have hc1 : ∀ x, Covered (c :: cs) x → c.start ≤ x := fun x hx => by
    rcases covered_cons.1 hx with hx | hx
    · exact hx.1
    · have := hc.covered_tail hx
      omega
  have hbx : ∀ x, b.Has x → Covered (b :: bs) x := fun x hx => covered_cons.2 (Or.inl hx)
  have hcx : ∀ x, c.Has x → Covered (c :: cs) x := fun x hx => covered_cons.2 (Or.inl hx)
  have hstart : b.start = c.start := by
    have h1 := hc1 _ ((h _).1 (hbx b.start ⟨Nat.le_refl _, by omega⟩))
    have h2 := hb1 _ ((h _).2 (hcx c.start ⟨Nat.le_refl _, by omega⟩))
    omega
  -- the first address after either span is not covered, so neither span is longer
  have hbend : ¬ Covered (b :: bs) (b.start + b.len) := fun hx => by
    rcases covered_cons.1 hx with hx | hx
    · exact absurd hx.2 (Nat.lt_irrefl _)
    · exact absurd (hb.covered_tail hx) (Nat.lt_irrefl _)
  have hcend : ¬ Covered (c :: cs) (c.start + c.len) := fun hx => by
    rcases covered_cons.1 hx with hx | hx
    · exact absurd hx.2 (Nat.lt_irrefl _)
    · exact absurd (hc.covered_tail hx) (Nat.lt_irrefl _)
  have hlen : b.len = c.len := by
    by_contra hne
    rcases Nat.lt_or_gt_of_ne hne with hlt | hgt
    · exact hbend ((h _).2 (hcx _ ⟨by omega, by omega⟩))
    · exact hcend ((h _).1 (hbx _ ⟨by omega, by omega⟩))
  cases b
  cases c
  simp_all

/-- A separated list is determined by the addresses it covers. -/
theorem Separated.unique {bs cs : List Span} (hb : Separated bs) (hc : Separated cs)
    (h : ∀ x, Covered bs x ↔ Covered cs x) : bs = cs := by
  induction bs generalizing cs with
  | nil =>
      cases cs with
      | nil => rfl
      | cons c cs =>
          have hpos := hc.pos c (by simp)
          have := (h c.start).2 (covered_cons.2 (Or.inl ⟨Nat.le_refl _, by omega⟩))
          simp [Covered] at this
  | cons b bs ih =>
      cases cs with
      | nil =>
          have hpos := hb.pos b (by simp)
          have := (h b.start).1 (covered_cons.2 (Or.inl ⟨Nat.le_refl _, by omega⟩))
          simp [Covered] at this
      | cons c cs =>
          have hhead := hb.head_eq hc h
          subst hhead
          refine congrArg (b :: ·) (ih hb.tail hc.tail fun x => ?_)
          have key : ∀ ds : List Span, Separated (b :: ds) →
              (Covered ds x ↔ Covered (b :: ds) x ∧ b.start + b.len < x) := by
            intro ds hds
            rw [covered_cons]
            constructor
            · exact fun hx => ⟨Or.inr hx, hds.covered_tail hx⟩
            · rintro ⟨hx | hx, hlt⟩
              · have := hx.2
                omega
              · exact hx
          rw [key bs hb, key cs hc, h]

/-- No span ends where another one starts. -/
theorem Separated.stop_ne {bs : List Span} (h : Separated bs) {b c : Span} (hb : b ∈ bs) (hc : c ∈ bs) :
    b.stop ≠ c.start := by
  intro e
  simp only [Span.stop] at e
  have hcpos := h.pos c hc
  obtain ⟨u, v, rfl⟩ := List.append_of_mem hb
  obtain ⟨-, hbv, huv⟩ := List.pairwise_append.1 h.sorted
  rcases List.mem_append.1 hc with hcu | hcv
  · have := huv c hcu b (by simp)
    omega
  · rcases List.mem_cons.1 hcv with rfl | hcv
    · omega
    · have := (List.pairwise_cons.1 hbv).1 c hcv
      omega

/-! ## Totals and maxima -/

/-- The sum of the lengths. -/
def total (bs : List Span) : Nat := (bs.map Span.len).sum

/-- The length of the largest span, 0 if there is none. -/
def largest (bs : List Span) : Nat := (bs.map Span.len).foldr max 0

@[simp] theorem total_nil : total [] = 0 := rfl

@[simp] theorem total_cons (b : Span) (bs : List Span) : total (b :: bs) = b.len + total bs := rfl

@[simp] theorem largest_nil : largest [] = 0 := rfl

@[simp] theorem largest_cons (b : Span) (bs : List Span) :
    largest (b :: bs) = max b.len (largest bs) := rfl

theorem total_append (xs ys : List Span) : total (xs ++ ys) = total xs + total ys := by
  rw [total, List.map_append, List.sum_append]
  rfl

theorem Tiles.total_eq {lo hi : Nat} {bs : List Span} (h : Tiles lo bs hi) : lo + total bs = hi := by
  induction bs generalizing lo with
  | nil => exact h
  | cons b bs ih =>
      rw [total_cons, ← Nat.add_assoc]
      exact ih h.2

/-- The lengths of the spans of a tiling add up to the length of the range. -/
theorem TiledBy.total_eq {lo hi : Nat} {ms : List Span} (h : TiledBy lo hi ms) : lo + total ms = hi := by
  obtain ⟨bs, hbs, ht⟩ := h
  rw [total, ← (hbs.map Span.len).sum_nat]
  exact ht.total_eq

theorem total_coalesceFrom (b : Span) (bs : List Span) : total (coalesceFrom b bs) = total (b :: bs) := by
  induction bs generalizing b with
  | nil => rfl
  | cons c cs ih =>
      rw [coalesceFrom]
      split
      · rw [ih, total_cons, total_cons, total_cons, Nat.add_assoc]
      · rw [total_cons, ih, total_cons, total_cons, total_cons]

/-- Coalescing keeps the total length. -/
theorem total_coalesce (bs : List Span) : total (coalesce bs) = total bs := by
  cases bs with
  | nil => rfl
  | cons b bs => exact total_coalesceFrom b bs

theorem largest_coalesceFrom (b : Span) (bs : List Span) :
    largest (b :: bs) ≤ largest (coalesceFrom b bs) := by
  induction bs generalizing b with
  | nil => exact Nat.le_refl _
  | cons c cs ih =>
      rw [coalesceFrom]
      split
      · -- the joined span is longer than each of the two
        apply Nat.le_trans _ (ih _)
        simp only [largest_cons]
        omega
      · have := ih c
        simp only [largest_cons] at this ⊢
        omega

/-- Coalescing does not shorten the largest span. -/
theorem largest_coalesce (bs : List Span) : largest bs ≤ largest (coalesce bs) := by
  cases bs with
  | nil => exact Nat.le_refl _
  | cons b bs => exact largest_coalesceFrom b bs

theorem tiles_of_mem_coalesceFrom {b d : Span} {run bs : List Span} (hrun : Tiles b.start run b.stop)
    (hd : d ∈ coalesceFrom b bs) : ∃ run', run' <:+: run ++ bs ∧ Tiles d.start run' d.stop := by
  induction bs generalizing b run with
  | nil =>
      obtain rfl := List.mem_singleton.1 hd
      exact ⟨run, ⟨[], [], by simp⟩, hrun⟩
  | cons c cs ih =>
      rw [coalesceFrom] at hd
      split at hd
      · rename_i hbc
        have hlong : Tiles b.start (run ++ [c]) (b.start + (b.len + c.len)) :=
          tiles_append.2 ⟨b.stop, hrun, hbc.symm, Nat.add_assoc ..⟩
        obtain ⟨run', hinfix, htiles⟩ := ih (b := ⟨b.start, b.len + c.len⟩) hlong hd
        rw [List.append_assoc, List.singleton_append] at hinfix
        exact ⟨run', hinfix, htiles⟩
      · rcases List.mem_cons.1 hd with rfl | hd
        · exact ⟨run, ⟨[], c :: cs, rfl⟩, hrun⟩
        · have hone : Tiles c.start [c] c.stop := ⟨rfl, rfl⟩
          obtain ⟨run', hinfix, htiles⟩ := ih hone hd
          exact ⟨run', hinfix.trans (List.suffix_append run (c :: cs)).isInfix, htiles⟩

/-- Every span of a coalesced list is made of consecutive spans of the list. -/
theorem tiles_of_mem_coalesce {d : Span} {bs : List Span} (hd : d ∈ coalesce bs) :
    ∃ run, run <:+: bs ∧ Tiles d.start run d.stop := by
  cases bs with
  | nil => cases hd
  | cons b bs =>
      have hone : Tiles b.start [b] b.stop := ⟨rfl, rfl⟩
      exact tiles_of_mem_coalesceFrom hone hd

end MemoryManagement.Library.Tiling
