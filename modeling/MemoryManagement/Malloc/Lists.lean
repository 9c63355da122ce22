import MemoryManagement.Malloc.Model
import MemoryManagement.Library.DoublyLinked

/-!
# The linked lists of the allocator

`ListRep m l xs` says that the globals `l` and the links stored in `m` form a doubly linked list with
the nodes `xs`. The headers of the nodes are 32 bytes long and do not overlap (`Apart`), so a write to
one field of one header is invisible in every other field (`field_setField`).

`insertNode` and `removeNode` are shown to be list insertion and deletion
(`insertNode_spec`, `removeNode_spec`), and to change nothing but the link words of the nodes of the
list (`LinksOnly`).
-/

set_option autoImplicit false

namespace MemoryManagement.Malloc

open MemoryManagement.Library.ByteMemory
open MemoryManagement.Library.DoublyLinked

/-! ## Header fields -/

/-- Two header addresses that are equal or whose 32-byte headers do not overlap. -/
def Apart (p q : Nat) : Prop := p = q ∨ p + 32 ≤ q ∨ q + 32 ≤ p

/-- The memories differ at most in the link words (`prev`, `next`) of the headers `xs`. -/
def LinksOnly (m m' : Mem) (xs : List Nat) : Prop :=
  ∀ x, (∀ y ∈ xs, ¬ InRange (y + 16) 16 x) → m' x = m x

/-- A field is determined by the 32 bytes of its header. -/
theorem field_congr {m m' : Mem} {p : Nat} (f : Field)
    (h : ∀ x, InRange p 32 x → m' x = m x) : field m' p f = field m p f := by
  rw [field, field]
  refine loadLE_congr fun x hx => h x ?_
  cases f <;> simp only [Field.offset] at hx <;> omega

/-- Reading a field after writing a field of an equal or separate header. -/
theorem field_setField {m : Mem} {p q v : Nat} {f g : Field} (h : Apart p q) (hv : v < 2 ^ 64) :
    field (setField m p f v) q g = if p = q ∧ f = g then v else field m q g := by
  split
  · rename_i heq
    obtain ⟨rfl, rfl⟩ := heq
    rw [field, setField, loadLE_storeLE_same]
    exact Nat.mod_eq_of_lt hv
  · rename_i hne
    rw [field, field, setField]
    refine loadLE_storeLE_disjoint ?_
    rcases h with rfl | h
    · have hfg : f ≠ g := fun e => hne ⟨rfl, e⟩
      cases f <;> cases g <;> simp only [Field.offset] <;> first | omega | exact absurd rfl hfg
    · cases f <;> cases g <;> simp only [Field.offset] <;> omega

theorem setField_of_not_inRange {m : Mem} {p v x : Nat} {f : Field}
    (h : ¬ InRange (p + f.offset) 8 x) : setField m p f v x = m x := by
  rw [setField]
  exact storeLE_of_not_inRange h

theorem LinksOnly.refl (m : Mem) (xs : List Nat) : LinksOnly m m xs := fun _ _ => rfl

theorem LinksOnly.trans {m m' m'' : Mem} {xs : List Nat} (h : LinksOnly m m' xs)
    (h' : LinksOnly m' m'' xs) : LinksOnly m m'' xs :=
  fun x hx => (h' x hx).trans (h x hx)

theorem LinksOnly.mono {m m' : Mem} {xs ys : List Nat} (h : LinksOnly m m' xs)
    (hsub : ∀ y ∈ xs, y ∈ ys) : LinksOnly m m' ys :=
  fun x hx => h x fun y hy => hx y (hsub y hy)

theorem linksOnly_setPrev {m : Mem} {p v : Nat} {xs : List Nat} (hp : p ∈ xs) :
    LinksOnly m (setField m p .prev v) xs := by
  intro x hx
  have := hx p hp
  exact setField_of_not_inRange fun h => this (by simp only [Field.offset] at h; omega)

theorem linksOnly_setNext {m : Mem} {p v : Nat} {xs : List Nat} (hp : p ∈ xs) :
    LinksOnly m (setField m p .next v) xs := by
  intro x hx
  have := hx p hp
  exact setField_of_not_inRange fun h => this (by simp only [Field.offset] at h; omega)

/-- Link writes leave the sizes alone. -/
theorem LinksOnly.size_eq {m m' : Mem} {xs : List Nat} (h : LinksOnly m m' xs) {p : Nat}
    (hp : ∀ y ∈ xs, Apart y p) : field m' p .size = field m p .size := by
  rw [field, field]
  refine loadLE_congr fun x hx => h x fun y hy => ?_
  have := hp y hy
  simp only [Field.offset, Apart] at *
  omega

theorem LinksOnly.allocBytes_eq {m m' : Mem} {xs : List Nat} (h : LinksOnly m m' xs) {p : Nat}
    (hp : ∀ y ∈ xs, Apart y p) : field m' p .allocBytes = field m p .allocBytes := by
  rw [field, field]
  refine loadLE_congr fun x hx => h x fun y hy => ?_
  have := hp y hy
  simp only [Field.offset, Apart] at *
  omega

/-- Link writes in some headers leave every field of the other headers alone. -/
theorem LinksOnly.field_eq {m m' : Mem} {xs : List Nat} (h : LinksOnly m m' xs) {p : Nat}
    (hp : ∀ y ∈ xs, Apart y p) (hne : p ∉ xs) (f : Field) : field m' p f = field m p f := by
  refine field_congr f fun x hx => h x fun y hy => ?_
  have := hp y hy
  have hyp : y ≠ p := fun e => hne (e ▸ hy)
  simp only [Apart] at this
  omega

/-! ## Counters -/

theorem toInt32_add (x k : Int) : toInt32 (toInt32 x + k) = toInt32 (x + k) := Int.bmod_add_bmod

theorem toInt32_add_one (n : Nat) : toInt32 (toInt32 n + 1) = toInt32 (n + 1 : Nat) := by
  rw [toInt32_add, Int.natCast_add]
  rfl

theorem toInt32_sub_one (n : Nat) : toInt32 (toInt32 (n + 1 : Nat) - 1) = toInt32 n := by
  rw [toInt32, toInt32, Int.bmod_sub_bmod, Int.natCast_add, Int.natCast_one, Int.add_sub_cancel]
  rfl

theorem toInt32_of_small {n : Nat} (h : n < 2 ^ 31) : toInt32 n = n := by
  rw [toInt32, Int.bmod_eq_of_le (by omega) (by omega)]

theorem toInt32_succ {i : Nat} (h : i + 1 < 2 ^ 31) : toInt32 (i + 1) = (i + 1 : Nat) := toInt32_of_small h

/-! ## Representation of a list -/

/-- The globals `l` and the links in `m` form a doubly linked list with the nodes `xs`; the size is the
number of nodes as an `int`. -/
structure ListRep (m : Mem) (l : EltList) (xs : List Nat) : Prop where
  segment : Segment (field m · .prev) (field m · .next) NULL xs NULL
  head : l.head = xs.headD NULL
  tail : l.tail = xs.getLastD NULL
  size : l.size = toInt32 xs.length
  nonnull : NULL ∉ xs
  nodup : xs.Nodup

/-- A list does not notice writes outside the headers of its nodes. -/
theorem ListRep.congr {m m' : Mem} {l : EltList} {xs : List Nat} (h : ListRep m l xs)
    (hm : ∀ p ∈ xs, ∀ f, field m' p f = field m p f) : ListRep m' l xs :=
  { h with segment := h.segment.congr (fun x hx => hm x hx .prev) fun x hx => hm x hx .next }

/-- The globals and the links of a list are determined by its nodes. -/
theorem ListRep.unique {m m' : Mem} {l l' : EltList} {xs : List Nat} (h : ListRep m l xs)
    (h' : ListRep m' l' xs) :
    l' = l ∧ ∀ p ∈ xs, field m' p .prev = field m p .prev ∧ field m' p .next = field m p .next := by
  refine ⟨?_, h.segment.links_eq h'.segment⟩
  cases l
  cases l'
  rw [EltList.mk.injEq]
  exact ⟨h'.head.trans h.head.symm, h'.tail.trans h.tail.symm, h'.size.trans h.size.symm⟩

theorem listRep_nil (m : Mem) : ListRep m ⟨NULL, NULL, 0⟩ [] :=
  ⟨trivial, rfl, rfl, rfl, by simp, List.nodup_nil⟩

/-! ## Insertion -/

/-- The search loop stops at the last node the new one does not go before. -/
theorem findSlot_spec {m : Mem} {before : Nat → Bool} {p a : Nat} {rest : List Nat} {fuel : Nat}
    (hseg : Segment (field m · .prev) (field m · .next) p (a :: rest) NULL)
    (hnull : NULL ∉ rest) (ha : before a = false) (hfuel : rest.length < fuel) :
    findSlot m before fuel a (rest.headD NULL) =
      some ((rest.takeWhile (!before ·)).getLastD a, (rest.dropWhile (!before ·)).headD NULL) := by
  induction rest generalizing a p fuel with
  | nil =>
      obtain ⟨k, rfl⟩ : ∃ k, fuel = k + 1 := ⟨fuel - 1, by simp at hfuel; omega⟩
      simp [findSlot]
  | cons b rest ih =>
      obtain ⟨k, rfl⟩ : ∃ k, fuel = k + 1 := ⟨fuel - 1, by simp at hfuel; omega⟩
      obtain ⟨-, -, hseg'⟩ := hseg
      have hb : b ≠ NULL := fun h => hnull (by simp [h])
      rw [List.headD_cons, findSlot, if_neg hb, ha]
      cases hbb : before b with
      | true => simp [hbb]
      | false =>
          have hnext : field m b .next = rest.headD NULL := hseg'.2.1
          have hk : rest.length < k := by
            simp at hfuel
            omega
          have key := ih hseg' (fun h => hnull (by simp [h])) hbb hk
          simp only [hbb, Bool.not_false, Bool.and_false, Bool.false_eq_true, if_false, hnext,
            List.takeWhile_cons, List.dropWhile_cons, if_true, List.getLastD_cons]
          exact key

section Edits

variable {m : Mem} {l : EltList} {xs : List Nat} {node : Nat}

/-- New links and globals that put `node` between the two parts of a list. -/
theorem ListRep.insert {m' : Mem} {l' : EltList} {a r : List Nat} (h : ListRep m l (a ++ r))
    (hnode : node ∉ a ++ r) (hnull : node ≠ NULL)
    (hprev : ∀ x ∈ a ++ r, field m' x .prev = if r.head? = some x then node else field m x .prev)
    (hnext : ∀ x ∈ a ++ r,
      field m' x .next = if a.getLast? = some x then node else field m x .next)
    (hnodePrev : field m' node .prev = a.getLastD NULL)
    (hnodeNext : field m' node .next = r.headD NULL)
    (hhead : l'.head = a.headD node) (htail : l'.tail = r.getLastD node)
    (hsize : l'.size = toInt32 (l.size + 1)) : ListRep m' l' (a ++ node :: r) where
  segment := h.segment.insert h.nodup hprev hnext hnodePrev hnodeNext
  head := by rw [headD_append, hhead, List.headD_cons]
  tail := by rw [getLastD_append, htail, List.getLastD_cons]
  size := by
    rw [hsize, h.size, toInt32_add_one]
    simp only [List.length_append, List.length_cons, Nat.add_assoc]
  nonnull := fun hmem => by
    rcases List.mem_cons.1 (List.perm_middle.mem_iff.1 hmem) with e | hmem'
    · exact hnull e.symm
    · exact h.nonnull hmem'
  nodup := List.perm_middle.nodup_iff.2 (List.nodup_cons.2 ⟨hnode, h.nodup⟩)

/-- The writes for an empty list. -/
theorem ListRep.link_only (h : ListRep m l []) (hnull : node ≠ NULL) :
    ListRep (setField (setField m node .prev NULL) node .next NULL) ⟨node, node, toInt32 (l.size + 1)⟩
      [node] := by
  have hself : Apart node node := Or.inl rfl
  refine ListRep.insert (a := []) (r := []) h (by simp) hnull (by simp) (by simp) ?_ ?_ rfl rfl rfl
  · rw [field_setField hself (by decide), field_setField hself (by decide)]
    simp
  · rw [field_setField hself (by decide)]
    simp

/-- The writes that put a node in front of the head `b`. -/
theorem ListRep.link_front {b : Nat} (h : ListRep m l (b :: xs)) (hnode : node ∉ b :: xs)
    (hnull : node ≠ NULL) (hlt : ∀ x ∈ node :: b :: xs, x < 2 ^ 64)
    (hap : ∀ x ∈ node :: b :: xs, ∀ y ∈ node :: b :: xs, Apart x y) :
    ListRep (setField (setField (setField m node .prev NULL) node .next b) b .prev node)
      ⟨node, l.tail, toInt32 (l.size + 1)⟩ (node :: b :: xs) := by
  have hn : node ∈ node :: b :: xs := by simp
  have hb : b ∈ node :: b :: xs := by simp
  have hne : ∀ x ∈ b :: xs, node ≠ x := fun x hx e => hnode (e ▸ hx)
  -- the three writes, read back at any node
  have hread : ∀ x ∈ node :: b :: xs, ∀ g,
      field (setField (setField (setField m node .prev NULL) node .next b) b .prev node) x g =
        if b = x ∧ .prev = g then node else if node = x ∧ .next = g then b
        else if node = x ∧ .prev = g then NULL else field m x g := by
    intro x hx g
    rw [field_setField (hap _ hb _ hx) (hlt _ hn), field_setField (hap _ hn _ hx) (hlt _ hb),
      field_setField (hap _ hn _ hx) (by decide)]
  refine ListRep.insert (a := []) h hnode hnull ?_ ?_ ?_ ?_ rfl ?_ rfl
  · intro x hx
    rw [hread x (List.mem_cons_of_mem _ hx)]
    simp [hne x hx]
  · intro x hx
    rw [hread x (List.mem_cons_of_mem _ hx)]
    simp [hne x hx]
  · rw [hread node hn]
    simp [(hne b (by simp)).symm]
  · rw [hread node hn]
    simp
  · exact h.tail.trans (by rw [List.getLastD_cons, List.getLastD_cons])

/-- The writes that put a node behind the last node `p`. -/
theorem ListRep.link_back {p : Nat} (h : ListRep m l xs) (hlast : xs.getLast? = some p)
    (hnode : node ∉ xs) (hnull : node ≠ NULL) (hlt : ∀ x ∈ node :: xs, x < 2 ^ 64)
    (hap : ∀ x ∈ node :: xs, ∀ y ∈ node :: xs, Apart x y) :
    ListRep (setField (setField (setField m p .next node) node .prev p) node .next NULL)
      ⟨l.head, node, toInt32 (l.size + 1)⟩ (xs ++ [node]) := by
  have hn : node ∈ node :: xs := by simp
  have hp : p ∈ node :: xs := List.mem_cons_of_mem _ (List.mem_of_getLast? hlast)
  have hne : ∀ x ∈ xs, node ≠ x := fun x hx e => hnode (e ▸ hx)
  have happ : xs ++ [] = xs := List.append_nil xs
  -- the three writes, read back at any node
  have hread : ∀ x ∈ node :: xs, ∀ g,
      field (setField (setField (setField m p .next node) node .prev p) node .next NULL) x g =
        if node = x ∧ .next = g then NULL else if node = x ∧ .prev = g then p
        else if p = x ∧ .next = g then node else field m x g := by
    intro x hx g
    rw [field_setField (hap _ hn _ hx) (by decide), field_setField (hap _ hn _ hx) (hlt _ hp),
      field_setField (hap _ hp _ hx) (hlt _ hn)]
  refine ListRep.insert (a := xs) (r := []) (happ.symm ▸ h) (happ.symm ▸ hnode) hnull ?_ ?_ ?_ ?_ ?_
    rfl rfl
  · intro x hx
    rw [happ] at hx
    rw [hread x (List.mem_cons_of_mem _ hx)]
    simp [hne x hx]
  · intro x hx
    rw [happ] at hx
    rw [hread x (List.mem_cons_of_mem _ hx), hlast]
    simp [hne x hx]
  · rw [hread node hn, List.getLastD_eq_getLast?, hlast]
    simp
  · rw [hread node hn]
    simp
  · cases xs with
    | nil => simp at hlast
    | cons b xs => exact h.head

/-- The writes that put a node between its neighbours `p` and `c`. -/
theorem ListRep.link_between {p c : Nat} {r : List Nat} (h : ListRep m l (xs ++ c :: r))
    (hlast : xs.getLast? = some p) (hnode : node ∉ xs ++ c :: r) (hnull : node ≠ NULL)
    (hlt : ∀ x ∈ node :: (xs ++ c :: r), x < 2 ^ 64)
    (hap : ∀ x ∈ node :: (xs ++ c :: r), ∀ y ∈ node :: (xs ++ c :: r), Apart x y) :
    ListRep (setField (setField (setField (setField m node .prev p) node .next c) p .next node)
        c .prev node) ⟨l.head, l.tail, toInt32 (l.size + 1)⟩ (xs ++ node :: c :: r) := by
  have hn : node ∈ node :: (xs ++ c :: r) := by simp
  have hp' : p ∈ xs ++ c :: r := List.mem_append_left _ (List.mem_of_getLast? hlast)
  have hp : p ∈ node :: (xs ++ c :: r) := List.mem_cons_of_mem _ hp'
  have hc : c ∈ node :: (xs ++ c :: r) := by simp
  have hne : ∀ x ∈ xs ++ c :: r, node ≠ x := fun x hx e => hnode (e ▸ hx)
  have hcn : c ≠ node := (hne c (by simp)).symm
  have hpn : p ≠ node := (hne p hp').symm
  -- the four writes, read back at any node
  have hread : ∀ x ∈ node :: (xs ++ c :: r), ∀ g,
      field (setField (setField (setField (setField m node .prev p) node .next c) p .next node)
        c .prev node) x g =
        if c = x ∧ .prev = g then node else if p = x ∧ .next = g then node
        else if node = x ∧ .next = g then c else if node = x ∧ .prev = g then p else field m x g := by
    intro x hx g
    rw [field_setField (hap _ hc _ hx) (hlt _ hn), field_setField (hap _ hp _ hx) (hlt _ hn),
      field_setField (hap _ hn _ hx) (hlt _ hc), field_setField (hap _ hn _ hx) (hlt _ hp)]
  refine ListRep.insert h hnode hnull ?_ ?_ ?_ ?_ ?_ ?_ rfl
  · intro x hx
    rw [hread x (List.mem_cons_of_mem _ hx)]
    simp [hne x hx]
  · intro x hx
    rw [hread x (List.mem_cons_of_mem _ hx), hlast]
    simp [hne x hx]
  · rw [hread node hn, List.getLastD_eq_getLast?, hlast]
    simp [hcn]
  · rw [hread node hn]
    simp [hpn]
  · cases xs with
    | nil => simp at hlast
    | cons b xs => exact h.head
  · exact h.tail.trans (by rw [getLastD_append, List.getLastD_cons, List.getLastD_cons])

/-- `insertNode` inserts in front of the first node that `before` accepts. -/
theorem insertNode_spec (before : Nat → Bool) (h : ListRep m l xs) (hnode : node ∉ xs)
    (hnull : node ≠ NULL) (hlt : ∀ x ∈ node :: xs, x < 2 ^ 64)
    (hap : ∀ x ∈ node :: xs, ∀ y ∈ node :: xs, Apart x y) (hlen : xs.length < loopBound) :
    ∃ m' l', insertNode m l node before = some (m', l') ∧
      ListRep m' l' (xs.takeWhile (!before ·) ++ node :: xs.dropWhile (!before ·)) ∧
      LinksOnly m m' (node :: xs) := by
  have hn : node ∈ node :: xs := by simp
  cases xs with
  | nil =>
      have hhead : l.head = NULL := h.head
      refine ⟨_, _, by rw [insertNode]; exact if_pos hhead, h.link_only hnull, ?_⟩
      exact (linksOnly_setPrev hn).trans (linksOnly_setNext hn)
  | cons b rest =>
      have hhead : l.head = b := h.head
      have hb : b ≠ NULL := fun e => h.nonnull (by simp [e])
      have hbm : b ∈ node :: b :: rest := by simp
      cases hbb : before b with
      | true =>
          refine ⟨_, _, by rw [insertNode, hhead]; simp only [if_neg hb, hbb, if_true]; rfl, ?_, ?_⟩
          · rw [List.takeWhile_cons_of_neg (by simp [hbb]), List.dropWhile_cons_of_neg (by simp [hbb])]
            exact h.link_front hnode hnull hlt hap
          · exact ((linksOnly_setPrev hn).trans (linksOnly_setNext hn)).trans (linksOnly_setPrev hbm)
      | false =>
          have hslot : findSlot m before loopBound b (field m b .next) =
              some ((rest.takeWhile (!before ·)).getLastD b,
                (rest.dropWhile (!before ·)).headD NULL) := by
            rw [show field m b .next = rest.headD NULL from h.segment.2.1]
            refine findSlot_spec h.segment (fun e => h.nonnull (by simp [e])) hbb ?_
            simp only [List.length_cons] at hlen
            omega
          rw [List.takeWhile_cons_of_pos (by simp [hbb]), List.dropWhile_cons_of_pos (by simp [hbb])]
          have hsplit : b :: rest = b :: rest.takeWhile (!before ·) ++ rest.dropWhile (!before ·) := by
            rw [List.cons_append, List.takeWhile_append_dropWhile]
          -- from here only the two parts of the list matter, not how the loop found them
          generalize rest.takeWhile (!before ·) = w at hslot hsplit ⊢
          generalize rest.dropWhile (!before ·) = r at hslot hsplit ⊢
          have hlast : (b :: w).getLast? = some (w.getLastD b) := by
            rw [List.getLast?_cons, List.getLastD_eq_getLast?]
          have hpm : w.getLastD b ∈ node :: b :: rest := by
            rw [hsplit]
            exact List.mem_cons_of_mem _ (List.mem_append_left _ (List.mem_of_getLast? hlast))
          rw [hsplit] at h hnode hlt hap
          cases r with
          | nil =>
              refine ⟨_, _, by
                rw [insertNode, hhead]
                simp only [if_neg hb, hbb, Bool.false_eq_true, if_false, hslot, List.headD_nil,
                  if_true]
                rfl, ?_, ?_⟩
              · rw [List.append_nil] at h hnode hlt hap
                exact hhead ▸ h.link_back hlast hnode hnull hlt hap
              · exact ((linksOnly_setNext hpm).trans (linksOnly_setPrev hn)).trans
                  (linksOnly_setNext hn)
          | cons c r =>
              have hc : c ∈ node :: b :: rest := by
                rw [hsplit]
                simp
              have hc0 : c ≠ NULL := fun e => h.nonnull (by simp [e])
              refine ⟨_, _, by
                rw [insertNode, hhead]
                simp only [if_neg hb, hbb, Bool.false_eq_true, if_false, hslot, List.headD_cons,
                  if_neg hc0]
                rfl, ?_, ?_⟩
              · exact hhead ▸ h.link_between hlast hnode hnull hlt hap
              · exact (((linksOnly_setPrev hn).trans (linksOnly_setNext hn)).trans
                  (linksOnly_setNext hpm)).trans (linksOnly_setPrev hc)

/-! ## Removal -/

/-- A write of a link through a pointer that may be `NULL`, as `if(p) { p->f = v; }`. -/
theorem field_setField_of_ne_null {ys : List Nat} {o : Option Nat} {v x : Nat} {f g : Field}
    (ho : ∀ p, o = some p → p ∈ ys) (hnull : NULL ∉ ys) (hap : ∀ x ∈ ys, ∀ y ∈ ys, Apart x y)
    (hv : v < 2 ^ 64) (hx : x ∈ ys) :
    field (if o.getD NULL ≠ NULL then setField m (o.getD NULL) f v else m) x g =
      if o = some x ∧ f = g then v else field m x g := by
  cases o with
  | none => simp
  | some p =>
      have hp := ho p rfl
      have hp0 : p ≠ NULL := fun e => hnull (e ▸ hp)
      rw [Option.getD_some, if_pos hp0, field_setField (hap _ hp _ hx) hv]
      simp only [Option.some.injEq]

theorem linksOnly_setField_of_ne_null {ys : List Nat} {o : Option Nat} {v : Nat} {f : Field}
    (hf : f = .next ∨ f = .prev) (ho : ∀ p, o = some p → p ∈ ys) :
    LinksOnly m (if o.getD NULL ≠ NULL then setField m (o.getD NULL) f v else m) ys := by
  cases o with
  | none => exact LinksOnly.refl m ys
  | some p =>
      rw [Option.getD_some]
      split_ifs
      · rcases hf with rfl | rfl
        · exact linksOnly_setNext (ho p rfl)
        · exact linksOnly_setPrev (ho p rfl)
      · exact LinksOnly.refl m ys

/-- The first node that is left, as the test against the head finds it. -/
theorem headD_erase {r : List Nat} (hnode : node ∉ xs) :
    (if node = (xs ++ node :: r).headD NULL then r.head?.getD NULL else (xs ++ node :: r).headD NULL) =
      (xs ++ r).headD NULL := by
  cases xs with
  | nil => simp
  | cons b xs =>
      have hne : node ≠ b := List.ne_of_not_mem_cons hnode
      simp [hne]

/-- The last node that is left, as the test against the tail finds it. -/
theorem getLastD_erase {r : List Nat} (hnode : node ∉ r) :
    (if node = (xs ++ node :: r).getLastD NULL then xs.getLast?.getD NULL
      else (xs ++ node :: r).getLastD NULL) = (xs ++ r).getLastD NULL := by
  rw [getLastD_append, getLastD_append, List.getLastD_cons]
  cases r with
  | nil =>
      rw [List.getLastD_nil, if_pos rfl, List.getLastD_nil, List.getLastD_eq_getLast?]
  | cons c r =>
      have hne : node ≠ r.getLastD c := by
        intro e
        apply hnode
        rw [e]
        exact List.mem_of_getLast? (by rw [List.getLast?_cons, List.getLastD_eq_getLast?])
      rw [List.getLastD_cons, List.getLastD_cons, if_neg hne]

/-- `removeNode` deletes the node. -/
theorem removeNode_spec {r : List Nat} (h : ListRep m l (xs ++ node :: r))
    (hlt : ∀ x ∈ xs ++ node :: r, x < 2 ^ 64)
    (hap : ∀ x ∈ xs ++ node :: r, ∀ y ∈ xs ++ node :: r, Apart x y) :
    ListRep (removeNode m l node).1 (removeNode m l node).2 (xs ++ r) ∧
      LinksOnly m (removeNode m l node).1 (xs ++ r) := by
  obtain ⟨hprev, hnext⟩ := h.segment.links
  have hnodup : (xs ++ r).Nodup ∧ node ∉ xs ++ r := by
    have := (List.perm_middle.nodup_iff).1 h.nodup
    exact ⟨(List.nodup_cons.1 this).2, (List.nodup_cons.1 this).1⟩
  have hsub : ∀ x ∈ xs ++ r, x ∈ xs ++ node :: r := fun x hx =>
    List.perm_middle.mem_iff.2 (List.mem_cons_of_mem _ hx)
  have hnull : NULL ∉ xs ++ r := fun hx => h.nonnull (hsub _ hx)
  have hap' : ∀ x ∈ xs ++ r, ∀ y ∈ xs ++ r, Apart x y := fun x hx y hy =>
    hap x (hsub x hx) y (hsub y hy)
  have hlast : ∀ p, xs.getLast? = some p → p ∈ xs ++ r := fun p hp =>
    List.mem_append_left _ (List.mem_of_getLast? hp)
  have hfirst : ∀ p, r.head? = some p → p ∈ xs ++ r := fun p hp =>
    List.mem_append_right _ (List.mem_of_mem_head? hp)
  have hprevlt : xs.getLast?.getD NULL < 2 ^ 64 := by
    cases e : xs.getLast? with
    | none => simp
    | some p => exact hlt p (hsub p (hlast p e))
  have hnextlt : r.head?.getD NULL < 2 ^ 64 := by
    cases e : r.head? with
    | none => simp
    | some p => exact hlt p (hsub p (hfirst p e))
  rw [List.getLastD_eq_getLast?] at hprev
  rw [List.headD_eq_head?_getD] at hnext
  -- `removeNode` reads both links once, so its two writes can be spelled out
  have hval : removeNode m l node =
      (if r.head?.getD NULL ≠ NULL then
          setField (if xs.getLast?.getD NULL ≠ NULL then
            setField m (xs.getLast?.getD NULL) .next (r.head?.getD NULL) else m)
            (r.head?.getD NULL) .prev (xs.getLast?.getD NULL)
        else if xs.getLast?.getD NULL ≠ NULL then
          setField m (xs.getLast?.getD NULL) .next (r.head?.getD NULL) else m,
        ⟨if node = l.head then r.head?.getD NULL else l.head,
          if node = l.tail then xs.getLast?.getD NULL else l.tail, toInt32 (l.size - 1)⟩) := by
    simp only [removeNode, hprev, hnext]
  rw [hval]
  refine ⟨⟨?_, ?_, ?_, ?_, hnull, hnodup.1⟩, ?_⟩
  · refine h.segment.erase hnodup.1 (fun x hx => ?_) fun x hx => ?_
    · rw [field_setField_of_ne_null hfirst hnull hap' hprevlt hx,
        field_setField_of_ne_null hlast hnull hap' hnextlt hx, List.getLastD_eq_getLast?]
      simp
    · rw [field_setField_of_ne_null hfirst hnull hap' hprevlt hx,
        field_setField_of_ne_null hlast hnull hap' hnextlt hx, List.headD_eq_head?_getD]
      simp
  · -- the head and the tail move only if they were the node
    show (if node = l.head then _ else l.head) = _
    rw [h.head]
    exact headD_erase fun hmem => hnodup.2 (List.mem_append_left r hmem)
  · show (if node = l.tail then _ else l.tail) = _
    rw [h.tail]
    exact getLastD_erase fun hmem => hnodup.2 (List.mem_append_right xs hmem)
  · show toInt32 (l.size - 1) = _
    rw [h.size]
    simp only [List.length_append, List.length_cons]
    exact toInt32_sub_one _
  · exact (linksOnly_setField_of_ne_null (Or.inl rfl) hlast).trans
      (linksOnly_setField_of_ne_null (Or.inr rfl) hfirst)

end Edits

end MemoryManagement.Malloc
