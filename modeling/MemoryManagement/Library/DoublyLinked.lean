import Mathlib.Data.List.Sort
import Mathlib.Data.List.Nodup
import Mathlib.Data.List.Induction

/-!
# Doubly linked lists

A list segment is described by its two link functions `prev next : α → α`. `Segment prev next p xs q`
says that the nodes `xs` are linked both ways, that the first of them points back to `p` and that the
last of them points forward to `q`. A whole list with null pointer `null` is
`Segment prev next null xs null`; its head is `xs.headD null` and its tail `xs.getLastD null`.

Segments concatenate (`segment_append`) and read only the links of their own nodes
(`Segment.congr`). The two edits of the data structure are stated pointwise on the links:
`Segment.insert` links a node in between two parts, `Segment.erase` links a node out. `Chain` is the
one-directional view, what following a link function from a start pointer visits
(`Segment.chain_next`, `Segment.chain_prev`).
-/

set_option autoImplicit false

namespace MemoryManagement.Library.DoublyLinked

universe u

variable {α : Type u}

/-- The nodes `xs` are linked both ways between the outer pointers `p` and `q`. -/
def Segment (prev next : α → α) : α → List α → α → Prop
  | _, [], _ => True
  | p, x :: xs, q => prev x = p ∧ next x = xs.headD q ∧ Segment prev next x xs q

/-- Following `next` from `p` visits exactly `xs` and stops at `null`. -/
def Chain (null : α) (next : α → α) : α → List α → Prop
  | p, [] => p = null
  | p, x :: xs => p = x ∧ x ≠ null ∧ Chain null next (next x) xs

section Links

variable {prev next prev' next' : α → α} {null p q x node : α} {l r xs ys : List α}

theorem headD_append (l r : List α) (q : α) : (l ++ r).headD q = l.headD (r.headD q) := by
  cases l with
  | nil => rfl
  | cons a l => rfl

theorem getLastD_append (l r : List α) (p : α) :
    (l ++ r).getLastD p = r.getLastD (l.getLastD p) := by
  induction l generalizing p with
  | nil => rfl
  | cons a l ih => simpa only [List.cons_append, List.getLastD_cons] using ih a

/-- Concatenation: each part points at the boundary node of the other. -/
theorem segment_append :
    Segment prev next p (l ++ r) q ↔
      Segment prev next p l (r.headD q) ∧ Segment prev next (l.getLastD p) r q := by
  induction l generalizing p with
  | nil => simp [Segment]
  | cons a l ih =>
      simp only [List.cons_append, Segment, ih, headD_append, List.getLastD_cons]
      tauto

/-- A segment depends only on the links of its own nodes. -/
theorem Segment.congr (h : Segment prev next p xs q)
    (hprev : ∀ x ∈ xs, prev' x = prev x) (hnext : ∀ x ∈ xs, next' x = next x) :
    Segment prev' next' p xs q := by
  induction xs generalizing p with
  | nil => trivial
  | cons a xs ih =>
      obtain ⟨h1, h2, h3⟩ := h
      refine ⟨?_, ?_, ih h3 (fun x hx => hprev x (by simp [hx])) fun x hx => hnext x (by simp [hx])⟩
      · rw [hprev a (by simp), h1]
      · rw [hnext a (by simp), h2]

/-- The links inside a segment are determined by its nodes and its outer pointers. -/
theorem Segment.links_eq (h : Segment prev next p xs q) (h' : Segment prev' next' p xs q) :
    ∀ x ∈ xs, prev' x = prev x ∧ next' x = next x := by
  induction xs generalizing p with
  | nil => exact List.forall_mem_nil _
  | cons a xs ih =>
      obtain ⟨h1, h2, h3⟩ := h
      obtain ⟨h1', h2', h3'⟩ := h'
      intro x hx
      rcases List.mem_cons.1 hx with rfl | hx
      · exact ⟨h1'.trans h1.symm, h2'.trans h2.symm⟩
      · exact ih h3 h3' x hx

/-! ## The two edits -/

section Edits

variable [DecidableEq α]

/-- Redirecting the forward link of the last node moves the outer pointer of a segment. -/
theorem Segment.retarget_next (h : Segment prev next p l q) (hnodup : l.Nodup)
    (hprev : ∀ x ∈ l, prev' x = prev x)
    (hnext : ∀ x ∈ l, next' x = if l.getLast? = some x then node else next x) :
    Segment prev' next' p l node := by
  induction l generalizing p with
  | nil => trivial
  | cons a l ih =>
      obtain ⟨h1, h2, h3⟩ := h
      have hal : a ∉ l := (List.nodup_cons.1 hnodup).1
      have ha := hnext a (by simp)
      refine ⟨by rw [hprev a (by simp), h1], ?_, ?_⟩
      · cases l with
        | nil => simpa using ha
        | cons b l =>
            have hne : (b :: l).getLast? ≠ some a := fun hlast =>
              hal (List.mem_of_getLast? hlast)
            rw [ha, List.getLast?_cons_cons, if_neg hne, h2]
            rfl
      · refine ih h3 (List.nodup_cons.1 hnodup).2 (fun x hx => hprev x (by simp [hx])) fun x hx => ?_
        rw [hnext x (by simp [hx])]
        cases l with
        | nil => simp at hx
        | cons b l => rw [List.getLast?_cons_cons]

/-- Redirecting the backward link of the first node moves the outer pointer of a segment. -/
theorem Segment.retarget_prev (h : Segment prev next p r q) (hnodup : r.Nodup)
    (hprev : ∀ x ∈ r, prev' x = if r.head? = some x then node else prev x)
    (hnext : ∀ x ∈ r, next' x = next x) : Segment prev' next' node r q := by
  cases r with
  | nil => trivial
  | cons b r =>
      obtain ⟨-, h2, h3⟩ := h
      have hb : b ∉ r := (List.nodup_cons.1 hnodup).1
      refine ⟨?_, ?_, h3.congr (fun x hx => ?_) fun x hx => hnext x (by simp [hx])⟩
      · rw [hprev b (by simp), List.head?_cons, if_pos rfl]
      · rw [hnext b (by simp), h2]
      · have hne : b ≠ x := fun h => hb (h ▸ hx)
        rw [hprev x (by simp [hx]), List.head?_cons, if_neg (by simpa using hne)]

/-- Linking `node` in between the parts `l` and `r`. -/
theorem Segment.insert (h : Segment prev next p (l ++ r) q) (hnodup : (l ++ r).Nodup)
    (hprev : ∀ x ∈ l ++ r, prev' x = if r.head? = some x then node else prev x)
    (hnext : ∀ x ∈ l ++ r, next' x = if l.getLast? = some x then node else next x)
    (hnodePrev : prev' node = l.getLastD p) (hnodeNext : next' node = r.headD q) :
    Segment prev' next' p (l ++ node :: r) q := by
  obtain ⟨hl, hr⟩ := segment_append.1 h
  obtain ⟨hnl, hnr, hdisj⟩ := List.nodup_append.1 hnodup
  refine segment_append.2 ⟨hl.retarget_next hnl ?_ ?_, hnodePrev, hnodeNext, hr.retarget_prev hnr ?_ ?_⟩
  · intro x hx
    have hne : r.head? ≠ some x := fun hh => hdisj x hx x (List.mem_of_mem_head? hh) rfl
    rw [hprev x (by simp [hx]), if_neg hne]
  · exact fun x hx => hnext x (by simp [hx])
  · exact fun x hx => hprev x (by simp [hx])
  · intro x hx
    have hne : l.getLast? ≠ some x := fun hh => hdisj x (List.mem_of_getLast? hh) x hx rfl
    rw [hnext x (by simp [hx]), if_neg hne]

/-- Linking `node` out of a list. -/
theorem Segment.erase (h : Segment prev next p (l ++ node :: r) q) (hnodup : (l ++ r).Nodup)
    (hprev : ∀ x ∈ l ++ r, prev' x = if r.head? = some x then l.getLastD p else prev x)
    (hnext : ∀ x ∈ l ++ r, next' x = if l.getLast? = some x then r.headD q else next x) :
    Segment prev' next' p (l ++ r) q := by
  obtain ⟨hl, -, -, hr⟩ := segment_append.1 h
  obtain ⟨hnl, hnr, hdisj⟩ := List.nodup_append.1 hnodup
  refine segment_append.2 ⟨hl.retarget_next hnl ?_ ?_, hr.retarget_prev hnr ?_ ?_⟩
  · intro x hx
    have hne : r.head? ≠ some x := fun hh => hdisj x hx x (List.mem_of_mem_head? hh) rfl
    rw [hprev x (by simp [hx]), if_neg hne]
  · exact fun x hx => hnext x (by simp [hx])
  · exact fun x hx => hprev x (by simp [hx])
  · intro x hx
    have hne : l.getLast? ≠ some x := fun hh => hdisj x (List.mem_of_getLast? hh) x hx rfl
    rw [hnext x (by simp [hx]), if_neg hne]

end Edits

/-- The links of a node inside a segment. -/
theorem Segment.links (h : Segment prev next p (l ++ x :: r) q) :
    prev x = l.getLastD p ∧ next x = r.headD q := by
  obtain ⟨-, hprev, hnext, -⟩ := segment_append.1 h
  exact ⟨hprev, hnext⟩

/-! ## Following one direction -/

theorem Segment.chain_next (h : Segment prev next p xs null) (hnull : null ∉ xs) :
    Chain null next (xs.headD null) xs := by
  induction xs generalizing p with
  | nil => rfl
  | cons a xs ih =>
      obtain ⟨-, h2, h3⟩ := h
      refine ⟨rfl, fun h => hnull (by simp [h]), ?_⟩
      rw [h2]
      exact ih h3 fun h => hnull (by simp [h])

theorem Segment.chain_prev (h : Segment prev next null xs q) (hnull : null ∉ xs) :
    Chain null prev (xs.getLastD null) xs.reverse := by
  induction xs using List.reverseRec generalizing q with
  | nil => rfl
  | append_singleton xs a ih =>
      obtain ⟨h1, h2, -, -⟩ := segment_append.1 h
      have ha : a ≠ null := fun h => hnull (by simp [h])
      rw [List.reverse_append, getLastD_append]
      refine ⟨rfl, ha, ?_⟩
      show Chain null prev (prev a) xs.reverse
      rw [h2]
      exact ih h1 fun h => hnull (by simp [h])

/-- A chain is determined by its start. -/
theorem Chain.unique (hx : Chain null next p xs) (hy : Chain null next p ys) : xs = ys := by
  induction xs generalizing p ys with
  | nil =>
      cases ys with
      | nil => rfl
      | cons b ys =>
          obtain ⟨h1, h2, -⟩ := hy
          exact absurd (h1.symm.trans hx) h2
  | cons a xs ih =>
      obtain ⟨h1, h2, h3⟩ := hx
      cases ys with
      | nil => exact absurd (h1.symm.trans hy) h2
      | cons b ys =>
          obtain ⟨h4, -, h5⟩ := hy
          have hab : a = b := h1.symm.trans h4
          subst hab
          rw [ih h3 h5]

theorem Chain.start_eq (h : Chain null next p xs) : p = xs.headD null := by
  cases xs with
  | nil => exact h
  | cons a xs => exact h.1

theorem Chain.next_eq (h : Chain null next p (l ++ x :: r)) : next x = r.headD null := by
  induction l generalizing p with
  | nil => exact h.2.2.start_eq
  | cons a l ih => exact ih h.2.2

theorem Chain.not_mem (h : Chain null next p xs) : null ∉ xs := by
  induction xs generalizing p with
  | nil => simp
  | cons a xs ih =>
      intro hmem
      rcases List.mem_cons.1 hmem with e | e
      · exact h.2.1 e.symm
      · exact ih h.2.2 e

/-- Links that are right at every position make a segment. -/
theorem segment_of_links
    (h : ∀ l x r, xs = l ++ x :: r → prev x = l.getLastD p ∧ next x = r.headD q) :
    Segment prev next p xs q := by
  induction xs generalizing p with
  | nil => trivial
  | cons a xs ih =>
      obtain ⟨h1, h2⟩ := h [] a xs rfl
      refine ⟨h1, h2, ih fun l x r e => ?_⟩
      have h3 := h (a :: l) x r (by rw [e]; rfl)
      rw [List.getLastD_cons] at h3
      exact h3

/-- Two chains that visit the same nodes in opposite orders make a segment. -/
theorem Chain.segment {h t : α} (hnext : Chain null next h xs)
    (hprev : Chain null prev t xs.reverse) : Segment prev next null xs null := by
  apply segment_of_links
  intro l x r e
  subst e
  refine ⟨?_, hnext.next_eq⟩
  rw [List.reverse_append, List.reverse_cons, List.append_assoc, List.singleton_append] at hprev
  rw [hprev.next_eq, List.headD_eq_head?_getD, List.head?_reverse, List.getLastD_eq_getLast?]

end Links

end MemoryManagement.Library.DoublyLinked
