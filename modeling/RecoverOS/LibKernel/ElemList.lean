import Mathlib.Data.List.Chain
import Mathlib.Data.List.Nodup
import Mathlib.Logic.Function.Basic

set_option autoImplicit false

/-! # Intrusive lists (`lib/kernel/list.c`)

`list_elem`s lie in the objects that are listed, and a `list` has one at each end that belongs to no object. The
operations below are on the memory of all elements, of all lists. Interrupts are off while they change it, so that
each is one step. -/

namespace RecoverOS

namespace ElemList

variable {α : Type} [DecidableEq α]

/-- The `struct list_elem`s by address; a null pointer is `none`. -/
structure Heap (α : Type) where
  prev : α → Option α
  next : α → Option α

/-- The addresses of `head` and `tail` of a `struct list`. -/
structure Header (α : Type) where
  head : α
  tail : α

namespace Heap

def setPrev (h : Heap α) (a : α) (p : Option α) : Heap α := { h with prev := Function.update h.prev a p }

def setNext (h : Heap α) (a : α) (p : Option α) : Heap α := { h with next := Function.update h.next a p }

variable (h : Heap α) {a b : α} (p : Option α)

@[simp] theorem setPrev_next : (h.setPrev a p).next = h.next := rfl

@[simp] theorem setNext_prev : (h.setNext a p).prev = h.prev := rfl

@[simp] theorem setPrev_prev_self : (h.setPrev a p).prev a = p := Function.update_self _ _ _

@[simp] theorem setNext_next_self : (h.setNext a p).next a = p := Function.update_self _ _ _

theorem setPrev_prev_of_ne (hne : b ≠ a) : (h.setPrev a p).prev b = h.prev b := Function.update_of_ne hne _ _

theorem setNext_next_of_ne (hne : b ≠ a) : (h.setNext a p).next b = h.next b := Function.update_of_ne hne _ _

end Heap

/-! ## The code

`none` when a null pointer is followed. -/

/-- `list_init` -/
def listInit (h : Heap α) (l : Header α) : Heap α :=
  (((h.setPrev l.head none).setNext l.head (some l.tail)).setPrev l.tail (some l.head)).setNext l.tail none

/-- `list_insert` -/
def listInsert (h : Heap α) (before elem : α) : Option (Heap α) := do
  let h := h.setPrev elem (h.prev before)
  let h := h.setNext elem (some before)
  let p ← h.prev elem
  let h := h.setNext p (some elem)
  return h.setPrev before (some elem)

/-- `list_remove` -/
def listRemove (h : Heap α) (elem : α) : Option (Heap α) := do
  let p ← h.prev elem
  let h := h.setNext p (h.next elem)
  let n ← h.next elem
  return h.setPrev n (h.prev elem)

/-- `list_push` -/
def listPush (h : Heap α) (l : Header α) (elem : α) : Option (Heap α) := do
  listInsert h (← h.next l.head) elem

/-- `list_append` -/
def listAppend (h : Heap α) (l : Header α) (elem : α) : Option (Heap α) := listInsert h l.tail elem

/-- `list_pop` -/
def listPop (h : Heap α) (l : Header α) : Option (α × Heap α) := do
  let elem ← h.next l.head
  return (elem, ← listRemove h elem)

/-- `list_empty` -/
def listEmpty (h : Heap α) (l : Header α) : Bool := h.next l.head == some l.tail

/-- The loop of `list_traversal` with `elem` as its variable, for so many turns at most. -/
def traversalFrom (h : Heap α) (tail : α) (func : α → Bool) : Nat → Option α → Option (Option α)
  | 0, _ => none
  | fuel + 1, elem =>
      if elem = some tail then some none
      else elem.bind fun a => if func a then some (some a) else traversalFrom h tail func fuel (h.next a)

/-- `list_traversal`; a null pointer is returned when no element is found. -/
def listTraversal (fuel : Nat) (h : Heap α) (l : Header α) (func : α → Bool) : Option (Option α) :=
  traversalFrom h l.tail func fuel (h.next l.head)

/-- The loop of `elem_find`. -/
def findFrom (h : Heap α) (tail pelem : α) : Nat → Option α → Option Bool
  | 0, _ => none
  | fuel + 1, elem =>
      if elem = some tail then some false
      else if elem = some pelem then some true
      else elem.bind fun a => findFrom h tail pelem fuel (h.next a)

/-- `elem_find` -/
def elemFind (fuel : Nat) (h : Heap α) (l : Header α) (pelem : α) : Option Bool :=
  findFrom h l.tail pelem fuel (h.next l.head)

/-- The loop of `list_len`. -/
def lenFrom (h : Heap α) (tail : α) (len : Nat) : Nat → Option α → Option Nat
  | 0, _ => none
  | fuel + 1, elem =>
      if elem = some tail then some len
      else elem.bind fun a => lenFrom h tail (len + 1) fuel (h.next a)

/-- `list_len` -/
def listLen (fuel : Nat) (h : Heap α) (l : Header α) : Option Nat := lenFrom h l.tail 0 fuel (h.next l.head)

/-! ## Sequences -/

/-- `a` is followed by `b`, and `b` preceded by `a`. -/
def Linked (h : Heap α) (a b : α) : Prop := h.next a = some b ∧ h.prev b = some a

/-- The elements from `head` to `tail`, of a list with the sequence `xs`. -/
def nodes (l : Header α) (xs : List α) : List α := l.head :: xs ++ [l.tail]

/-- A list is well formed and has the sequence `xs`. -/
structure Represents (h : Heap α) (l : Header α) (xs : List α) : Prop where
  linked : (nodes l xs).IsChain (Linked h)
  nodup : (nodes l xs).Nodup

/-- Several lists that have no element in common. -/
structure Represent {ι : Type} (h : Heap α) (l : ι → Header α) (xs : ι → List α) : Prop where
  each : ∀ i, Represents h (l i) (xs i)
  disjoint : ∀ i j, i ≠ j → List.Disjoint (nodes (l i) (xs i)) (nodes (l j) (xs j))

/-- The rest of a list from one of its elements on. -/
def Ahead (h : Heap α) (tail : α) : List α → Option α → Prop
  | [], elem => elem = some tail
  | x :: xs, elem => elem = some x ∧ x ≠ tail ∧ Ahead h tail xs (h.next x)

section Surgery

variable {h h' : Heap α} {ns as bs : List α} {a b c e : α}

omit [DecidableEq α] in
/-- Links depend on the `next` of all elements but the last, and the `prev` of all but the first. -/
theorem linked_congr (hns : ns.IsChain (Linked h)) (hnext : ∀ a ∈ ns.dropLast, h'.next a = h.next a)
    (hprev : ∀ a ∈ ns.tail, h'.prev a = h.prev a) : ns.IsChain (Linked h') := by
  induction ns with
  | nil => exact .nil
  | cons a ns ih =>
      cases ns with
      | nil => exact .singleton a
      | cons b ns =>
          rw [List.isChain_cons_cons] at hns ⊢
          refine ⟨⟨?_, ?_⟩, ih hns.2 (fun x hx => hnext x ?_) fun x hx => hprev x ?_⟩
          · rw [hnext a List.mem_cons_self]
            exact hns.1.1
          · rw [hprev b List.mem_cons_self]
            exact hns.1.2
          · exact List.mem_cons_of_mem _ hx
          · exact List.mem_cons_of_mem _ hx

/-- What `list_insert` does to neighbours `a` and `b`. -/
theorem listInsert_linked (hab : Linked h a b) (hb : e ≠ b) (ha : e ≠ a) :
    ∃ h', listInsert h b e = some h' ∧ Linked h' a e ∧ Linked h' e b ∧
      (∀ x, x ≠ a → x ≠ e → h'.next x = h.next x) ∧ ∀ x, x ≠ e → x ≠ b → h'.prev x = h.prev x := by
  refine ⟨((((h.setPrev e (h.prev b)).setNext e (some b)).setNext a (some e)).setPrev b (some e)), ?_, ?_⟩
  · simp [listInsert, hab.2]
  · refine ⟨⟨?_, ?_⟩, ⟨?_, ?_⟩, fun x hx he => ?_, fun x he hx => ?_⟩
    · simp
    · rw [Heap.setPrev_prev_of_ne _ _ hb]
      simp [hab.2]
    · rw [Heap.setPrev_next, Heap.setNext_next_of_ne _ _ ha]
      simp
    · simp
    · rw [Heap.setPrev_next, Heap.setNext_next_of_ne _ _ hx, Heap.setNext_next_of_ne _ _ he]
      simp
    · rw [Heap.setPrev_prev_of_ne _ _ hx]
      simp [Heap.setPrev_prev_of_ne _ _ he]

/-- What `list_remove` does to an element `b` and its neighbours. -/
theorem listRemove_linked (hab : Linked h a b) (hbc : Linked h b c) (hne : a ≠ b) :
    ∃ h', listRemove h b = some h' ∧ Linked h' a c ∧
      (∀ x, x ≠ a → h'.next x = h.next x) ∧ ∀ x, x ≠ c → h'.prev x = h.prev x := by
  refine ⟨(h.setNext a (some c)).setPrev c (some a), ?_, ⟨?_, ?_⟩, fun x hx => ?_, fun x hx => ?_⟩
  · simp [listRemove, hab.2, hbc.1, Heap.setNext_next_of_ne _ _ hne.symm]
  · simp
  · simp
  · rw [Heap.setPrev_next, Heap.setNext_next_of_ne _ _ hx]
  · rw [Heap.setPrev_prev_of_ne _ _ hx, Heap.setNext_prev]

/-- A new element between two neighbours; elements elsewhere stay linked. -/
theorem listInsert_chain (hns : (as ++ a :: b :: bs).IsChain (Linked h)) (hnodup : (as ++ a :: b :: bs).Nodup)
    (he : e ∉ as ++ a :: b :: bs) :
    ∃ h', listInsert h b e = some h' ∧ (as ++ a :: e :: b :: bs).IsChain (Linked h') ∧
      ∀ ms : List α, ms.IsChain (Linked h) → (∀ x ∈ ms, x ≠ e ∧ x ∉ as ++ a :: b :: bs) →
        ms.IsChain (Linked h') := by
  obtain ⟨hfront, hab, hback⟩ := List.isChain_append_cons_cons.1 hns
  simp only [List.mem_append, List.mem_cons, not_or] at he
  obtain ⟨heas, hea, heb, hebs⟩ := he
  simp only [List.nodup_append, List.nodup_cons, List.mem_cons, not_or] at hnodup
  obtain ⟨-, ⟨⟨hab', habs⟩, hbbs, -⟩, hdisj⟩ := hnodup
  obtain ⟨h', hcall, hae, heb', hnext, hprev⟩ := listInsert_linked hab heb hea
  refine ⟨h', hcall, ?_, fun ms hms hother => ?_⟩
  · rw [List.isChain_append_cons_cons, List.isChain_cons_cons]
    -- up to `a` no `prev` has changed, and from `b` on no `next`
    refine ⟨linked_congr hfront (fun x hx => ?_) fun x hx => ?_, hae, heb', linked_congr hback (fun x hx => ?_)
      fun x hx => ?_⟩
    · rw [List.dropLast_concat] at hx
      exact hnext x (hdisj x hx a (.inl rfl)) fun heq => heas (heq ▸ hx)
    · have hmem : x ∈ as ∨ x = a := by simpa using List.mem_of_mem_tail hx
      obtain hx | rfl := hmem
      · exact hprev x (fun heq => heas (heq ▸ hx)) (hdisj x hx b (.inr (.inl rfl)))
      · exact hprev x (Ne.symm hea) hab'
    · obtain rfl | hx := List.mem_cons.1 (List.dropLast_subset _ hx)
      · exact hnext x (Ne.symm hab') (Ne.symm heb)
      · exact hnext x (fun heq => habs (heq ▸ hx)) fun heq => hebs (heq ▸ hx)
    · exact hprev x (fun heq => hebs (heq ▸ hx)) fun heq => hbbs (heq ▸ hx)
  · refine linked_congr hms (fun x hx => ?_) fun x hx => ?_
    · obtain ⟨hne, hnot⟩ := hother x (List.dropLast_subset _ hx)
      exact hnext x (fun heq => hnot (by simp [heq])) hne
    · obtain ⟨hne, hnot⟩ := hother x (List.mem_of_mem_tail hx)
      exact hprev x hne fun heq => hnot (by simp [heq])

/-- An element taken from between its neighbours; elements elsewhere stay linked. -/
theorem listRemove_chain (hns : (as ++ a :: b :: c :: bs).IsChain (Linked h))
    (hnodup : (as ++ a :: b :: c :: bs).Nodup) :
    ∃ h', listRemove h b = some h' ∧ (as ++ a :: c :: bs).IsChain (Linked h') ∧
      ∀ ms : List α, ms.IsChain (Linked h) → (∀ x ∈ ms, x ∉ as ++ a :: b :: c :: bs) →
        ms.IsChain (Linked h') := by
  obtain ⟨hfront, hab, hrest⟩ := List.isChain_append_cons_cons.1 hns
  obtain ⟨hbc, hback⟩ := List.isChain_cons_cons.1 hrest
  simp only [List.nodup_append, List.nodup_cons, List.mem_cons, not_or] at hnodup
  obtain ⟨-, ⟨⟨hab', hac, habs⟩, -, ⟨hcbs, -⟩⟩, hdisj⟩ := hnodup
  obtain ⟨h', hcall, hac', hnext, hprev⟩ := listRemove_linked hab hbc hab'
  refine ⟨h', hcall, ?_, fun ms hms hother => ?_⟩
  · rw [List.isChain_append_cons_cons]
    -- up to `a` no `prev` has changed, and from `c` on no `next`
    refine ⟨linked_congr hfront (fun x hx => ?_) fun x hx => ?_, hac', linked_congr hback (fun x hx => ?_)
      fun x hx => ?_⟩
    · rw [List.dropLast_concat] at hx
      exact hnext x (hdisj x hx a (.inl rfl))
    · have hmem : x ∈ as ∨ x = a := by simpa using List.mem_of_mem_tail hx
      obtain hx | rfl := hmem
      · exact hprev x (hdisj x hx c (.inr (.inr (.inl rfl))))
      · exact hprev x hac
    · obtain rfl | hx := List.mem_cons.1 (List.dropLast_subset _ hx)
      · exact hnext x (Ne.symm hac)
      · exact hnext x fun heq => habs (heq ▸ hx)
    · exact hprev x fun heq => hcbs (heq ▸ hx)
  · refine linked_congr hms (fun x hx => ?_) fun x hx => ?_
    · have hnot := hother x (List.dropLast_subset _ hx)
      exact hnext x fun heq => hnot (by simp [heq])
    · have hnot := hother x (List.mem_of_mem_tail hx)
      exact hprev x fun heq => hnot (by simp [heq])

end Surgery

section Lists

variable {ι : Type} [DecidableEq ι] {h h' : Heap α} {l : ι → Header α} {xs : ι → List α} {i : ι}
  {ys : List α} {b e : α}

omit [DecidableEq α] in
/-- One of the lists has changed, to a list of the elements it had and of such that were in no list. -/
theorem Represent.update (hl : Represent h l xs) (hi : Represents h' (l i) ys)
    (hother : ∀ j ≠ i, (nodes (l j) (xs j)).IsChain (Linked h'))
    (hmem : ∀ x ∈ nodes (l i) ys, x ∈ nodes (l i) (xs i) ∨ ∀ j, x ∉ nodes (l j) (xs j)) :
    Represent h' l (Function.update xs i ys) := by
  have hapart : ∀ j ≠ i, List.Disjoint (nodes (l i) ys) (nodes (l j) (xs j)) := by
    intro j hj x hx hxj
    obtain hx | hx := hmem x hx
    · exact hl.disjoint i j hj.symm hx hxj
    · exact hx j hxj
  refine ⟨fun j => ?_, fun j k hjk => ?_⟩
  · by_cases hj : j = i
    · subst hj
      rw [Function.update_self]
      exact hi
    · rw [Function.update_of_ne hj]
      exact ⟨hother j hj, (hl.each j).nodup⟩
  · by_cases hj : j = i
    · subst hj
      rw [Function.update_self, Function.update_of_ne hjk.symm]
      exact hapart k hjk.symm
    · rw [Function.update_of_ne hj]
      by_cases hk : k = i
      · subst hk
        rw [Function.update_self]
        exact List.disjoint_symm (hapart j hj)
      · rw [Function.update_of_ne hk]
        exact hl.disjoint j k hjk

/-- `list_insert` before `b`, which `a` stands before. -/
theorem Represent.insert (hl : Represent h l xs) (as : List α) (a : α) (bs : List α)
    (hi : nodes (l i) (xs i) = as ++ a :: b :: bs)
    (hnew : nodes (l i) ys = as ++ a :: e :: b :: bs) (he : ∀ j, e ∉ nodes (l j) (xs j)) :
    ∃ h', listInsert h b e = some h' ∧ Represent h' l (Function.update xs i ys) := by
  have hrep := hl.each i
  have hei := he i
  rw [hi] at hei
  obtain ⟨h', hcall, hchain, hframe⟩ := listInsert_chain (hi ▸ hrep.linked) (hi ▸ hrep.nodup) hei
  refine ⟨h', hcall, hl.update ⟨hnew ▸ hchain, ?_⟩ (fun j hj => ?_) fun x hx => ?_⟩
  · rw [hnew]
    have hperm : (as ++ a :: e :: b :: bs).Perm (e :: (as ++ a :: b :: bs)) := by
      have hmiddle : ((as ++ [a]) ++ e :: (b :: bs)).Perm (e :: ((as ++ [a]) ++ (b :: bs))) := List.perm_middle
      simpa using hmiddle
    rw [hperm.nodup_iff, List.nodup_cons]
    exact ⟨hei, hi ▸ hrep.nodup⟩
  · refine hframe _ (hl.each j).linked fun x hx => ⟨fun heq => he j (heq ▸ hx), fun hxi => ?_⟩
    exact hl.disjoint j i hj hx (hi ▸ hxi)
  · rw [hnew] at hx
    rw [hi]
    by_cases hxe : x = e
    · exact .inr (hxe ▸ he)
    · left
      simp only [List.mem_append, List.mem_cons] at hx ⊢
      tauto

/-- `list_remove` of `b`, which stands between `a` and `c`. -/
theorem Represent.remove (hl : Represent h l xs) (as : List α) (a c : α) (bs : List α)
    (hi : nodes (l i) (xs i) = as ++ a :: b :: c :: bs)
    (hnew : nodes (l i) ys = as ++ a :: c :: bs) :
    ∃ h', listRemove h b = some h' ∧ Represent h' l (Function.update xs i ys) := by
  have hrep := hl.each i
  obtain ⟨h', hcall, hchain, hframe⟩ := listRemove_chain (hi ▸ hrep.linked) (hi ▸ hrep.nodup)
  have hsub : (as ++ a :: c :: bs).Sublist (as ++ a :: b :: c :: bs) :=
    List.Sublist.append_left ((List.sublist_cons_self b (c :: bs)).cons_cons a) as
  refine ⟨h', hcall, hl.update ⟨hnew ▸ hchain, ?_⟩ (fun j hj => ?_) fun x hx => .inl ?_⟩
  · rw [hnew]
    exact (hi ▸ hrep.nodup).sublist hsub
  · exact hframe _ (hl.each j).linked fun x hx hxi => hl.disjoint j i hj hx (hi ▸ hxi)
  · rw [hi]
    exact hsub.subset (hnew ▸ hx)

end Lists

/-! ## An empty list -/

section Init

variable {h : Heap α} {l : Header α} {ms : List α}

theorem listInit_represents (h : Heap α) (hne : l.head ≠ l.tail) : Represents (listInit h l) l [] where
  linked := by
    refine .cons_cons ⟨?_, ?_⟩ (.singleton _)
    · rw [listInit, Heap.setNext_next_of_ne _ _ hne, Heap.setPrev_next, Heap.setNext_next_self]
    · rw [listInit, Heap.setNext_prev, Heap.setPrev_prev_self]
  nodup := List.nodup_cons.2 ⟨fun hmem => hne (List.mem_singleton.1 hmem), List.nodup_singleton _⟩

/-- Elements elsewhere stay linked. -/
theorem listInit_linked (hms : ms.IsChain (Linked h)) (hhead : l.head ∉ ms) (htail : l.tail ∉ ms) :
    ms.IsChain (Linked (listInit h l)) := by
  have hapart : ∀ x ∈ ms, x ≠ l.head ∧ x ≠ l.tail := fun x hx =>
    ⟨fun heq => hhead (heq ▸ hx), fun heq => htail (heq ▸ hx)⟩
  refine linked_congr hms (fun x hx => ?_) fun x hx => ?_
  · have hne := hapart x (List.dropLast_subset _ hx)
    rw [listInit, Heap.setNext_next_of_ne _ _ hne.2, Heap.setPrev_next, Heap.setNext_next_of_ne _ _ hne.1,
      Heap.setPrev_next]
  · have hne := hapart x (List.mem_of_mem_tail hx)
    rw [listInit, Heap.setNext_prev, Heap.setPrev_prev_of_ne _ _ hne.2, Heap.setNext_prev,
      Heap.setPrev_prev_of_ne _ _ hne.1]

end Init

/-! ## The loops -/

section Loops

omit [DecidableEq α]

variable {h : Heap α} {l : Header α} {xs : List α} {fuel : Nat}

theorem ahead_of_chain {p tail : α} (hchain : (p :: xs ++ [tail]).IsChain (Linked h))
    (hnot : tail ∉ xs) : Ahead h tail xs (h.next p) := by
  induction xs generalizing p with
  | nil => exact (List.isChain_cons_cons.1 hchain).1.1
  | cons x xs ih =>
      obtain ⟨hpx, hrest⟩ := List.isChain_cons_cons.1 hchain
      rw [List.mem_cons, not_or] at hnot
      exact ⟨hpx.1, Ne.symm hnot.1, ih hrest hnot.2⟩

theorem Represents.ahead (hl : Represents h l xs) : Ahead h l.tail xs (h.next l.head) := by
  refine ahead_of_chain hl.linked fun hmem => ?_
  have hnodup := hl.nodup
  rw [nodes, List.nodup_append] at hnodup
  exact hnodup.2.2 l.tail (List.mem_cons_of_mem _ hmem) l.tail List.mem_cons_self rfl

variable {tail : α} {elem : Option α}

variable [DecidableEq α]

theorem Ahead.traversal (ha : Ahead h tail xs elem) (func : α → Bool) (hfuel : xs.length < fuel) :
    traversalFrom h tail func fuel elem = some (xs.find? func) := by
  induction xs generalizing fuel elem with
  | nil =>
      obtain ⟨fuel, rfl⟩ := Nat.exists_eq_succ_of_ne_zero (Nat.ne_of_gt hfuel)
      exact if_pos ha
  | cons x xs ih =>
      obtain ⟨fuel, rfl⟩ := Nat.exists_eq_succ_of_ne_zero (Nat.ne_of_gt (Nat.zero_lt_of_lt hfuel))
      obtain ⟨rfl, hne, hrest⟩ := ha
      rw [traversalFrom, if_neg (fun heq => hne (Option.some.inj heq)), Option.bind_some, List.find?_cons]
      cases hfunc : func x with
      | true => rfl
      | false => exact ih hrest (Nat.lt_of_succ_lt_succ hfuel)

theorem Ahead.find (ha : Ahead h tail xs elem) (pelem : α) (hfuel : xs.length < fuel) :
    findFrom h tail pelem fuel elem = some (decide (pelem ∈ xs)) := by
  induction xs generalizing fuel elem with
  | nil =>
      obtain ⟨fuel, rfl⟩ := Nat.exists_eq_succ_of_ne_zero (Nat.ne_of_gt hfuel)
      have hend : elem = some tail := ha
      rw [findFrom, if_pos hend, decide_eq_false List.not_mem_nil]
  | cons x xs ih =>
      obtain ⟨fuel, rfl⟩ := Nat.exists_eq_succ_of_ne_zero (Nat.ne_of_gt (Nat.zero_lt_of_lt hfuel))
      obtain ⟨rfl, hne, hrest⟩ := ha
      rw [findFrom, if_neg (fun heq => hne (Option.some.inj heq))]
      by_cases hx : x = pelem
      · rw [if_pos (congrArg some hx), hx, decide_eq_true List.mem_cons_self]
      · rw [if_neg (fun heq => hx (Option.some.inj heq)), Option.bind_some, ih hrest (Nat.lt_of_succ_lt_succ hfuel)]
        simp [Ne.symm hx]

theorem Ahead.len (ha : Ahead h tail xs elem) (len : Nat) (hfuel : xs.length < fuel) :
    lenFrom h tail len fuel elem = some (len + xs.length) := by
  induction xs generalizing fuel elem len with
  | nil =>
      obtain ⟨fuel, rfl⟩ := Nat.exists_eq_succ_of_ne_zero (Nat.ne_of_gt hfuel)
      exact if_pos ha
  | cons x xs ih =>
      obtain ⟨fuel, rfl⟩ := Nat.exists_eq_succ_of_ne_zero (Nat.ne_of_gt (Nat.zero_lt_of_lt hfuel))
      obtain ⟨rfl, hne, hrest⟩ := ha
      rw [lenFrom, if_neg (fun heq => hne (Option.some.inj heq)), Option.bind_some,
        ih hrest (len + 1) (Nat.lt_of_succ_lt_succ hfuel), List.length_cons, Nat.add_right_comm, Nat.add_assoc]

end Loops

/-! ## The operations -/

section Operations

variable {ι : Type} [DecidableEq ι] {h : Heap α} {l : ι → Header α} {xs : ι → List α} {i : ι}
  {zs : List α} {b e x : α}

theorem Represent.listAppend (hl : Represent h l xs) (i : ι) (he : ∀ j, e ∉ nodes (l j) (xs j)) :
    ∃ h', listAppend h (l i) e = some h' ∧ Represent h' l (Function.update xs i (xs i ++ [e])) := by
  obtain ⟨as, a, hlast⟩ : ∃ as a, (l i).head :: xs i = as ++ [a] :=
    ⟨_, _, (List.dropLast_append_getLast (List.cons_ne_nil _ _)).symm⟩
  refine hl.insert as a [] ?_ ?_ he
  · rw [nodes, hlast, List.append_assoc]
    rfl
  · rw [nodes, ← List.cons_append, hlast]
    simp

theorem Represent.listInsert (hl : Represent h l xs) (ys : List α) (hi : xs i = ys ++ b :: zs)
    (he : ∀ j, e ∉ nodes (l j) (xs j)) :
    ∃ h', listInsert h b e = some h' ∧ Represent h' l (Function.update xs i (ys ++ e :: b :: zs)) := by
  obtain ⟨as, a, hlast⟩ : ∃ as a, (l i).head :: ys = as ++ [a] :=
    ⟨_, _, (List.dropLast_append_getLast (List.cons_ne_nil _ _)).symm⟩
  refine hl.insert as a (zs ++ [(l i).tail]) ?_ ?_ he
  · rw [nodes, hi, ← List.cons_append, hlast]
    simp
  · rw [nodes, ← List.cons_append, hlast]
    simp

theorem Represent.listPush (hl : Represent h l xs) (i : ι) (he : ∀ j, e ∉ nodes (l j) (xs j)) :
    ∃ h', listPush h (l i) e = some h' ∧ Represent h' l (Function.update xs i (e :: xs i)) := by
  have hahead := (hl.each i).ahead
  cases hxs : xs i with
  | nil =>
      rw [hxs] at hahead
      have hnext : h.next (l i).head = some (l i).tail := hahead
      rw [ElemList.listPush, hnext]
      exact hl.insert [] (l i).head [] (by rw [hxs]; rfl) rfl he
  | cons x zs =>
      rw [hxs] at hahead
      rw [ElemList.listPush, hahead.1]
      exact hl.listInsert [] hxs he

theorem Represent.listRemove (hl : Represent h l xs) (ys : List α) (hi : xs i = ys ++ b :: zs) :
    ∃ h', listRemove h b = some h' ∧ Represent h' l (Function.update xs i (ys ++ zs)) := by
  obtain ⟨as, a, hlast⟩ : ∃ as a, (l i).head :: ys = as ++ [a] :=
    ⟨_, _, (List.dropLast_append_getLast (List.cons_ne_nil _ _)).symm⟩
  obtain ⟨c, bs, hfirst⟩ : ∃ c bs, zs ++ [(l i).tail] = c :: bs :=
    List.exists_cons_of_ne_nil (List.append_ne_nil_of_right_ne_nil _ (List.cons_ne_nil _ _))
  refine hl.remove as a c bs ?_ ?_
  · rw [nodes, hi, ← List.cons_append, hlast, ← hfirst]
    simp
  · rw [nodes, ← List.cons_append, hlast, ← hfirst]
    simp

theorem Represent.listPop (hl : Represent h l xs) (hi : xs i = x :: zs) :
    ∃ h', listPop h (l i) = some (x, h') ∧ Represent h' l (Function.update xs i zs) := by
  have hahead := (hl.each i).ahead
  rw [hi] at hahead
  obtain ⟨h', hcall, hl'⟩ := hl.listRemove [] hi
  refine ⟨h', ?_, hl'⟩
  rw [ElemList.listPop, hahead.1, Option.bind_eq_bind, Option.bind_some, hcall]
  rfl

omit [DecidableEq ι] in
theorem Represent.listEmpty (hl : Represent h l xs) (i : ι) : listEmpty h (l i) = (xs i).isEmpty := by
  have hahead := (hl.each i).ahead
  cases hxs : xs i with
  | nil =>
      rw [hxs] at hahead
      exact beq_iff_eq.2 hahead
  | cons y ys =>
      rw [hxs] at hahead
      rw [ElemList.listEmpty, hahead.1]
      exact beq_eq_false_iff_ne.2 fun heq => hahead.2.1 (Option.some.inj heq)

/-- The operations on lists are those on sequences, and leave the other lists alone; the loops end after a turn for
    each element. -/
theorem lists_are_sequences (hl : Represent h l xs) (i : ι) :
    (∀ e, (∀ j, e ∉ nodes (l j) (xs j)) →
      (∃ h', ElemList.listAppend h (l i) e = some h' ∧ Represent h' l (Function.update xs i (xs i ++ [e]))) ∧
      (∃ h', ElemList.listPush h (l i) e = some h' ∧ Represent h' l (Function.update xs i (e :: xs i))) ∧
      ∀ ys b zs, xs i = ys ++ b :: zs →
        ∃ h', ElemList.listInsert h b e = some h' ∧
          Represent h' l (Function.update xs i (ys ++ e :: b :: zs))) ∧
    (∀ ys b zs, xs i = ys ++ b :: zs →
      ∃ h', ElemList.listRemove h b = some h' ∧ Represent h' l (Function.update xs i (ys ++ zs))) ∧
    (∀ x zs, xs i = x :: zs →
      ∃ h', ElemList.listPop h (l i) = some (x, h') ∧ Represent h' l (Function.update xs i zs)) ∧
    ElemList.listEmpty h (l i) = (xs i).isEmpty ∧
    ∀ fuel, (xs i).length < fuel →
      (∀ e, elemFind fuel h (l i) e = some (decide (e ∈ xs i))) ∧
      listLen fuel h (l i) = some (xs i).length ∧
      ∀ func, listTraversal fuel h (l i) func = some ((xs i).find? func) := by
  have hahead := (hl.each i).ahead
  refine ⟨fun e he => ⟨hl.listAppend i he, hl.listPush i he, fun ys b zs hi => hl.listInsert ys hi he⟩,
    fun ys b zs hi => hl.listRemove ys hi, fun x zs hi => hl.listPop hi, hl.listEmpty i,
    fun fuel hfuel => ⟨fun e => hahead.find e hfuel, ?_, fun func => hahead.traversal func hfuel⟩⟩
  rw [listLen, hahead.len 0 hfuel, Nat.zero_add]

end Operations

/-- Two lists that have been initialised, at the addresses 0 and 2. -/
def twoHeaders (i : Bool) : Header Nat := if i then ⟨0, 1⟩ else ⟨2, 3⟩

def twoLists : Heap Nat :=
  listInit (listInit ⟨fun _ => none, fun _ => none⟩ (twoHeaders true)) (twoHeaders false)

theorem twoLists_represent : Represent twoLists twoHeaders fun _ => [] where
  each := by
    rintro (_ | _)
    · exact listInit_represents _ (by decide)
    · have hfirst := listInit_represents ⟨fun _ => none, fun _ => none⟩ (l := twoHeaders true) (by decide)
      exact ⟨listInit_linked hfirst.linked (by decide) (by decide), hfirst.nodup⟩
  disjoint := by
    rintro (_ | _) (_ | _) hij
    · exact absurd rfl hij
    · exact List.disjoint_left.2 (by decide)
    · exact List.disjoint_left.2 (by decide)
    · exact absurd rfl hij

/-- With two elements in one of the lists, one of them is removed. -/
theorem lists_are_sequences_two : ∃ h h' : Heap Nat,
    Represent h twoHeaders (Function.update (fun _ => []) true [4, 5]) ∧ listRemove h 4 = some h' ∧
    Represent h' twoHeaders (Function.update (fun _ => []) true [5]) ∧
    listLen 3 h (twoHeaders true) = some 2 ∧ elemFind 3 h (twoHeaders true) 5 = some true := by
  obtain ⟨h1, -, hl1⟩ := twoLists_represent.listAppend true (e := 4) (by decide)
  obtain ⟨h2, -, hl2⟩ := hl1.listAppend true (e := 5) (by decide)
  rw [Function.update_self, Function.update_idem] at hl2
  obtain ⟨-, hremove, -, -, hloops⟩ := lists_are_sequences hl2 true
  obtain ⟨h3, hrun, hl3⟩ := hremove [] 4 [5] (Function.update_self ..)
  rw [Function.update_idem] at hl3
  obtain ⟨hfind, hlen, -⟩ := hloops 3 (by rw [Function.update_self]; decide)
  have hfind5 := hfind 5
  rw [Function.update_self] at hlen hfind5
  exact ⟨h2, h3, hl2, hrun, hl3, hlen, hfind5⟩

end ElemList

end RecoverOS
