import Mathlib.Data.Nat.Bitwise
import Mathlib.Logic.Function.Basic
import Mathlib.Tactic.NormNum

set_option autoImplicit false

/-! # The four-level page walk

What the processor does with a virtual address: four tables of 512 words each, the root in `cr3`, nine
bits of the address choosing the entry at each level. Physical memory is read a word at a time, by
frame and index. A table may be reached by several addresses, and the root may be one of its own
tables; the lemmas here say what becomes of every walk when one absent entry is filled. -/

namespace RecoverOS

/-- Physical memory, as frames of 512 words. -/
abbrev Phys := Nat → Nat → Nat

namespace Paging

/-- The frame an entry of a level-`k` table refers to: the entry is present, and above the last level
    it is not a large page. -/
def leads (k e : Nat) : Option Nat :=
  if e % 2 = 1 ∧ (k < 3 → e / 128 % 2 = 0) then some (e / 4096 % 2 ^ 40) else none

/-- The nine bits of `v` that choose the entry at level `k`. -/
def index (v k : Nat) : Nat := v / 2 ^ (39 - 9 * k) % 512

/-- The table that the walk of `v` reads at level `k`; at level 4, the page itself. -/
def table (w : Phys) (root v : Nat) : Nat → Option Nat
  | 0 => some root
  | k + 1 => (table w root v k).bind fun f => leads k (w f (index v k))

/-- The entry that the walk of `v` reads at level `k`. -/
def entry (w : Phys) (root v k : Nat) : Option Nat :=
  (table w root v k).map fun f => w f (index v k)

/-- Bits 47 to 63 of the address are all equal. -/
def Canonical (v : Nat) : Prop := v < 2 ^ 47 ∨ (2 ^ 64 - 2 ^ 47 ≤ v ∧ v < 2 ^ 64)

instance (v : Nat) : Decidable (Canonical v) := by unfold Canonical; infer_instance

/-- The physical address of `v`, when it is mapped by a page of 4 KiB. -/
def translate (w : Phys) (root v : Nat) : Option Nat :=
  if Canonical v then (table w root v 4).map fun f => 4096 * f + v % 4096 else none

/-- Write one word. -/
def setWord (w : Phys) (f i e : Nat) : Phys := Function.update w f (Function.update (w f) i e)

/-- Write zero to a whole frame. -/
def zeroFrame (w : Phys) (g : Nat) : Phys := Function.update w g fun _ => 0

theorem setWord_apply (w : Phys) (f i e t j : Nat) :
    setWord w f i e t j = if t = f ∧ j = i then e else w t j := by
  by_cases ht : t = f
  · subst ht
    simp [setWord, Function.update_apply]
  · simp [setWord, ht]

theorem zeroFrame_apply (w : Phys) (g t j : Nat) :
    zeroFrame w g t j = if t = g then 0 else w t j := by
  by_cases ht : t = g <;> simp [zeroFrame, ht]

theorem leads_eq_some {k e g : Nat} : leads k e = some g ↔
    e % 2 = 1 ∧ (k < 3 → e / 128 % 2 = 0) ∧ e / 4096 % 2 ^ 40 = g := by
  unfold leads
  split <;> simp_all

theorem leads_absent {e : Nat} (h : e % 2 = 0) (k : Nat) : leads k e = none := by
  unfold leads
  rw [if_neg]
  omega

/-- An entry good at one level is good at any later one. -/
theorem leads_mono {j k e g : Nat} (h : leads k e = some g) (hkj : k ≤ j) : leads j e = some g := by
  rw [leads_eq_some] at h ⊢
  exact ⟨h.1, fun hj => h.2.1 (by omega), h.2.2⟩

/-! ## Walks -/

section Walk

variable {w w' : Phys} {root v a k n f g : Nat}

theorem table_succ : table w root v (k + 1) = some g ↔
    ∃ f, table w root v k = some f ∧ leads k (w f (index v k)) = some g := by
  simp [table, Option.bind_eq_some_iff]

/-- A walk that reaches a level has passed every level before it. -/
theorem table_of_le (h : table w root v n = some g) (hk : k ≤ n) : ∃ f, table w root v k = some f := by
  induction n generalizing g with
  | zero =>
      obtain rfl : k = 0 := by omega
      exact ⟨g, h⟩
  | succ n ih =>
      by_cases hkn : k = n + 1
      · subst hkn
        exact ⟨g, h⟩
      · obtain ⟨f, hf, -⟩ := table_succ.1 h
        exact ih hf (by omega)

/-- The entries a walk has passed are present. -/
theorem present_of_lt (h : table w root v n = some g) (hk : k < n) (hf : table w root v k = some f) :
    w f (index v k) % 2 = 1 := by
  obtain ⟨t, ht⟩ := table_of_le h (Nat.succ_le_of_lt hk)
  obtain ⟨f', hf', hlead⟩ := table_succ.1 ht
  rw [hf] at hf'
  cases hf'
  exact (leads_eq_some.1 hlead).1

/-- A walk depends on nothing but the entries it reads. -/
theorem table_congr (h : ∀ j < n, ∀ f, table w root v j = some f → w' f (index v j) = w f (index v j)) :
    ∀ j ≤ n, table w' root v j = table w root v j := by
  intro j
  induction j with
  | zero => intro _; rfl
  | succ j ih =>
      intro hj
      have hprev := ih (by omega)
      simp only [table, hprev]
      cases hf : table w root v j with
      | none => rfl
      | some f => simp [h j (by omega) f hf]

/-! ## The root as one of its own tables -/

/-- Entry 511 of the root refers to the root. -/
def SelfMapped (w : Phys) (root : Nat) : Prop := leads 0 (w root 511) = some root

/-- Every leading index of 511 stays in the root. -/
theorem table_window (hself : SelfMapped w root) (h : ∀ j < n, index a j = 511) :
    table w root a n = some root := by
  induction n with
  | zero => rfl
  | succ n ih =>
      have hprev := ih fun j hj => h j (by omega)
      refine table_succ.2 ⟨root, hprev, ?_⟩
      rw [h n (by omega)]
      exact leads_mono hself (Nat.zero_le n)

/-- An address that starts with `n` indices of 511 and goes on with those of `v` reads the tables of
    `v`, `n` levels later. -/
theorem table_shift (hself : SelfMapped w root) (h511 : ∀ j < n, index a j = 511)
    (hidx : ∀ j < k, index a (n + j) = index v j) (h : table w root v k = some f) :
    table w root a (n + k) = some f := by
  induction k generalizing f with
  | zero =>
      cases h
      exact table_window hself h511
  | succ k ih =>
      obtain ⟨t, ht, hlead⟩ := table_succ.1 h
      have hprev := ih (fun j hj => hidx j (by omega)) ht
      refine table_succ.2 ⟨t, hprev, ?_⟩
      show leads (n + k) (w t (index a (n + k))) = some f
      rw [hidx k (by omega)]
      exact leads_mono hlead (by omega)

end Walk

/-! ## Filling an absent entry

`v` is the address whose walk ends at table `f` of level `s`, its entry there absent. -/

/-- No walk reads `g` as a table. -/
def Fresh (w : Phys) (root g : Nat) : Prop := ∀ a, ∀ j ≤ 3, table w root a j ≠ some g

/-- The walk of `a` meets the level-`s` entry of `v` along the path of `v`, or not at all. -/
def Follows (w : Phys) (root v s a : Nat) : Prop :=
  ∀ f, table w root v s = some f → ∀ j ≤ 3, table w root a j = some f → index a j = index v s →
    j = s ∧ ∀ i ≤ s, index a i = index v i

section Fill

variable {w : Phys} {root v s f g e a j t : Nat}

theorem setWord_ne {i i' : Nat} (h : ¬ (t = f ∧ i' = i)) : setWord w f i e t i' = w t i' := by
  rw [setWord_apply, if_neg h]

/-- The walk of `v` up to the absent entry does not read it. -/
theorem table_setWord_self (htab : table w root v s = some f) (habs : w f (index v s) % 2 = 0) :
    ∀ j ≤ s, table (setWord w f (index v s) e) root v j = table w root v j := by
  refine table_congr fun j hj t ht => setWord_ne ?_
  rintro ⟨rfl, hi⟩
  have hpres := present_of_lt htab hj ht
  rw [hi] at hpres
  omega

theorem table_setWord_next (htab : table w root v s = some f) (habs : w f (index v s) % 2 = 0)
    (he : leads s e = some g) : table (setWord w f (index v s) e) root v (s + 1) = some g := by
  refine table_succ.2 ⟨f, ?_, ?_⟩
  · rw [table_setWord_self htab habs s (Nat.le_refl s), htab]
  · rw [setWord_apply, if_pos ⟨rfl, rfl⟩, he]

/-- A walk that does not read the entry is not changed. -/
theorem table_setWord_of_ne {i : Nat} (h : ∀ j ≤ 3, table w root a j = some f → index a j ≠ i) :
    ∀ j ≤ 4, table (setWord w f i e) root a j = table w root a j := by
  refine table_congr fun j hj t ht => setWord_ne ?_
  rintro ⟨rfl, hi⟩
  exact h j (by omega) ht hi

theorem selfMapped_setWord {i : Nat} (hself : SelfMapped w root) (habs : w f i % 2 = 0) :
    SelfMapped (setWord w f i e) root := by
  have hne : ¬ (root = f ∧ 511 = i) := by
    rintro ⟨rfl, rfl⟩
    have hpres := (leads_eq_some.1 hself).1
    omega
  unfold SelfMapped
  rw [setWord_ne hne]
  exact hself

/-- The memory after a table in frame `g` is linked in at level `s` of `v` and cleared. -/
def link (w : Phys) (f i e g : Nat) : Phys := zeroFrame (setWord w f i e) g

theorem link_apply (i j : Nat) : link w f i e g t j =
    if t = g then 0 else if t = f ∧ j = i then e else w t j := by
  rw [link, zeroFrame_apply, setWord_apply]

theorem Fresh.ne_root (hg : Fresh w root g) : g ≠ root := fun h => hg 0 0 (by omega) (by rw [h]; rfl)

theorem Fresh.ne_table (hg : Fresh w root g) (hs : s ≤ 3) (htab : table w root v s = some f) : f ≠ g :=
  fun h => hg v s hs (h ▸ htab)

/-- Below the last level, linking `g` adds no table but `g`. -/
theorem table_link {i : Nat} (h : table (link w f i e g) root a j = some t) (he : leads s e = some g) :
    t = g ∨ table w root a j = some t := by
  induction j generalizing t with
  | zero => exact Or.inr h
  | succ j ih =>
      obtain ⟨t', ht', hlead⟩ := table_succ.1 h
      rw [link_apply] at hlead
      by_cases hg : t' = g
      · rw [if_pos hg, leads_absent (by omega)] at hlead
        cases hlead
      · rw [if_neg hg] at hlead
        have hprev := (ih ht').resolve_left hg
        by_cases hfi : t' = f ∧ index a j = i
        · rw [if_pos hfi] at hlead
          have h1 := leads_eq_some.1 hlead
          have h2 := leads_eq_some.1 he
          exact Or.inl (h1.2.2.symm.trans h2.2.2)
        · rw [if_neg hfi] at hlead
          exact Or.inr (table_succ.2 ⟨t', hprev, hlead⟩)

theorem Fresh.link {i g' : Nat} (hg' : Fresh w root g') (hne : g' ≠ g) (he : leads s e = some g) :
    Fresh (link w f i e g) root g' :=
  fun a j hj h => (table_link h he).elim hne (hg' a j hj)

theorem selfMapped_link {i : Nat} (hself : SelfMapped w root) (habs : w f i % 2 = 0)
    (hg : Fresh w root g) : SelfMapped (link w f i e g) root := by
  unfold SelfMapped
  rw [link, zeroFrame_apply, if_neg (Ne.symm hg.ne_root)]
  exact selfMapped_setWord hself habs

/-- Up to the level where it meets the filled entry, a walk is as it was. -/
theorem table_link_of_ne {i n : Nat} (hg : Fresh w root g) (hn : n ≤ 4)
    (h : ∀ j < n, table w root a j = some f → index a j ≠ i) :
    ∀ j ≤ n, table (link w f i e g) root a j = table w root a j := by
  refine table_congr fun j hj t ht => ?_
  have htg : t ≠ g := fun htg => hg a j (by omega) (htg ▸ ht)
  rw [link_apply, if_neg htg, if_neg]
  rintro ⟨rfl, hi⟩
  exact h j hj ht hi

variable (hs : s < 3) (htab : table w root v s = some f) (habs : w f (index v s) % 2 = 0)
  (hg : Fresh w root g)

include htab habs in
/-- Before its absent entry, the walk of `v` does not meet that entry. -/
theorem ne_of_lt : ∀ j < s, table w root v j = some f → index v j ≠ index v s := by
  intro j hj hf hi
  have hpres := present_of_lt htab hj hf
  rw [hi] at hpres
  omega

include hs htab habs hg in
theorem table_link_self : ∀ j ≤ s, table (link w f (index v s) e g) root v j = table w root v j :=
  table_link_of_ne hg (by omega) (ne_of_lt htab habs)

include hs htab habs hg in
/-- After the link, the walk of `v` goes one level further, to an empty table. -/
theorem table_link_next (he : leads s e = some g) :
    table (link w f (index v s) e g) root v (s + 1) = some g := by
  refine table_succ.2 ⟨f, ?_, ?_⟩
  · rw [table_link_self hs htab habs hg s (Nat.le_refl s), htab]
  · rw [link_apply, if_neg (hg.ne_table (by omega) htab), if_pos ⟨rfl, rfl⟩, he]

include hs htab habs hg in
/-- The entries of `v` above the link are as they were, and the link itself is in place. -/
theorem entry_link_self :
    (∀ k < s, entry (link w f (index v s) e g) root v k = entry w root v k) ∧
      entry (link w f (index v s) e g) root v s = some e := by
  constructor
  · intro k hk
    obtain ⟨t, ht⟩ := table_of_le htab (Nat.le_of_lt hk)
    have htg : t ≠ g := hg.ne_table (by omega) ht
    have hne : ¬ (t = f ∧ index v k = index v s) := fun h =>
      ne_of_lt htab habs k hk (h.1 ▸ ht) h.2
    rw [entry, entry, table_link_self hs htab habs hg k (Nat.le_of_lt hk), ht, Option.map_some,
      Option.map_some, link_apply, if_neg htg, if_neg hne]
  · rw [entry, table_link_self hs htab habs hg s (Nat.le_refl s), htab, Option.map_some, link_apply,
      if_neg (hg.ne_table (by omega) htab), if_pos ⟨rfl, rfl⟩]

include hs htab habs hg in
/-- The link seen by a walk that meets the filled entry along the path of `v` or not at all: it is as it
    was, or it was cut short at that entry and is now cut short in the new table, which is empty. -/
theorem walk_link (he : leads s e = some g) (h : Follows w root v s a) :
    (∀ j ≤ 4, table (link w f (index v s) e g) root a j = table w root a j) ∨
      ((∀ j ≤ s, table (link w f (index v s) e g) root a j = table w root a j) ∧
        (∀ i ≤ s, index a i = index v i) ∧
        table (link w f (index v s) e g) root a (s + 1) = some g ∧
        (∀ n, s < n → table w root a n = none) ∧
        ∀ n, s + 1 < n → table (link w f (index v s) e g) root a n = none) := by
  by_cases hhit : ∃ j ≤ 3, table w root a j = some f ∧ index a j = index v s
  · right
    obtain ⟨j, hj, hf, hi⟩ := hhit
    obtain ⟨rfl, hpath⟩ := h f htab j hj hf hi
    have hbefore : ∀ j' < j, table w root a j' = some f → index a j' ≠ index v j := by
      intro j' hj' hf' hi'
      have := (h f htab j' (by omega) hf' hi').1
      omega
    have hsame := table_link_of_ne (e := e) hg (by omega) hbefore
    have hat : table (link w f (index v j) e g) root a (j + 1) = some g := by
      refine table_succ.2 ⟨f, ?_, ?_⟩
      · rw [hsame j (Nat.le_refl j), hf]
      · rw [link_apply, if_neg (hg.ne_table (by omega) htab), if_pos ⟨rfl, hi⟩, he]
    refine ⟨hsame, hpath, hat, fun n hn => ?_, fun n hn => ?_⟩
    · cases hn' : table w root a n with
      | none => rfl
      | some x =>
          have hpres := present_of_lt hn' hn hf
          rw [hi] at hpres
          omega
    · cases hn' : table (link w f (index v j) e g) root a n with
      | none => rfl
      | some x =>
          have hpres := present_of_lt hn' hn hat
          rw [link_apply, if_pos rfl] at hpres
          omega
  · exact Or.inl (table_link_of_ne hg (Nat.le_refl 4) fun j hj hf hi => hhit ⟨j, by omega, hf, hi⟩)

include hs htab habs hg in
/-- Such a walk reads the new table only along the path of `v`. -/
theorem table_link_new (he : leads s e = some g) (h : Follows w root v s a) (hj : j ≤ 3)
    (hread : table (link w f (index v s) e g) root a j = some g) :
    j = s + 1 ∧ ∀ i ≤ s, index a i = index v i := by
  obtain hsame | ⟨hsame, hpath, -, -, hcut⟩ := walk_link hs htab habs hg he h
  · rw [hsame j (by omega)] at hread
    exact absurd hread (hg a j hj)
  · refine ⟨?_, hpath⟩
    by_cases hle : j ≤ s
    · rw [hsame j hle] at hread
      exact absurd hread (hg a j hj)
    · by_contra hne
      rw [hcut j (by omega)] at hread
      cases hread

include hs htab habs hg in
/-- What such a walk read before the link, it still reads. -/
theorem table_link_mono (he : leads s e = some g) (h : Follows w root v s a) (hj : j ≤ 4)
    (hread : table w root a j = some t) : table (link w f (index v s) e g) root a j = some t := by
  obtain hsame | ⟨hsame, -, -, hnone, -⟩ := walk_link hs htab habs hg he h
  · rw [hsame j hj, hread]
  · by_cases hle : j ≤ s
    · rw [hsame j hle, hread]
    · rw [hnone j (by omega)] at hread
      cases hread

include hs htab habs hg in
/-- It ends where it ended, and meets the next entry of `v` only along the path of `v`. -/
theorem follows_link (he : leads s e = some g) (h : Follows w root v s a) :
    table (link w f (index v s) e g) root a 4 = table w root a 4 ∧
      Follows (link w f (index v s) e g) root v (s + 1) a := by
  constructor
  · obtain hsame | ⟨-, -, -, hnone, hcut⟩ := walk_link hs htab habs hg he h
    · exact hsame 4 (Nat.le_refl 4)
    · rw [hnone 4 (by omega), hcut 4 (by omega)]
  · intro f' hf' j hj hread hi
    rw [table_link_next hs htab habs hg he] at hf'
    cases hf'
    obtain ⟨rfl, hpath⟩ := table_link_new hs htab habs hg he h hj hread
    refine ⟨rfl, fun i hle => ?_⟩
    by_cases his : i = s + 1
    · rw [his, hi]
    · exact hpath i (by omega)

end Fill

end Paging

end RecoverOS
