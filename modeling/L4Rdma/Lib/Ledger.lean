import Mathlib

/-!
# Ledgers

A ledger says who holds what: each place of it is free, or has an owner and a content. The account of
an owner lists the places that it holds, with what is in them. An owner that changes free places and
its own ones only leaves the accounts of the others as they are (`Frame`, `Account.frame`).
-/

namespace L4Rdma.Lib

variable {ι ω α : Type}

/-- For each place its owner and its content, if it is not free. -/
abbrev Ledger (ι ω α : Type) : Type := ι → Option (ω × α)

namespace Ledger

section Operations

variable [DecidableEq ι]

/-- The place `p` is held by `w` from now on, and contains `x`. -/
def put (t : Ledger ι ω α) (p : ι) (w : ω) (x : α) : Ledger ι ω α :=
  Function.update t p (some (w, x))

/-- The place `p` is free from now on. -/
def drop (t : Ledger ι ω α) (p : ι) : Ledger ι ω α := Function.update t p none

end Operations

/-- The places that `w` holds are those of the list, each once, with their contents. -/
structure Account (t : Ledger ι ω α) (w : ω) (l : List (ι × α)) : Prop where
  nodup : (l.map Prod.fst).Nodup
  holds : ∀ p x, t p = some (w, x) ↔ (p, x) ∈ l

/-- What the others hold is not changed by `w`. -/
def Frame (w : ω) (t t' : Ledger ι ω α) : Prop :=
  ∀ o, o ≠ w → ∀ p x, t' p = some (o, x) ↔ t p = some (o, x)

variable {t t' t'' : Ledger ι ω α} {p : ι} {w o : ω} {x y : α} {l : List (ι × α)}

/-! ## What the others hold -/

/-- Nothing has changed. -/
theorem Frame.refl (w : ω) (t : Ledger ι ω α) : Frame w t t := fun _ _ _ _ => Iff.rfl

/-- Two changes that only concern one owner. -/
theorem Frame.trans (h : Frame w t t') (h' : Frame w t' t'') : Frame w t t'' :=
  fun o ho p x => (h' o ho p x).trans (h o ho p x)

/-- The account of another owner stays as it is. -/
theorem Account.frame (h : Account t o l) (ho : o ≠ w) (hframe : Frame w t t') : Account t' o l :=
  ⟨h.nodup, fun p x => (hframe o ho p x).trans (h.holds p x)⟩

/-- An owner without an account holds nothing. -/
theorem account_nil : Account t w [] ↔ ∀ p x, t p ≠ some (w, x) := by
  constructor
  · intro h p x hp
    exact absurd ((h.holds p x).mp hp) List.not_mem_nil
  · intro h
    exact ⟨List.nodup_nil, fun p x => ⟨fun hp => absurd hp (h p x), fun hp => absurd hp List.not_mem_nil⟩⟩

/-! ## What an owner holds -/

/-- The first place of an account belongs to its owner. -/
theorem Account.head (h : Account t w ((p, x) :: l)) : t p = some (w, x) :=
  (h.holds p x).mpr List.mem_cons_self

/-- So the owner may change it. -/
theorem Account.own (h : Account t w ((p, x) :: l)) : ∀ o y, t p = some (o, y) → o = w := by
  intro o y hp
  rw [h.head] at hp
  cases hp
  rfl

/-- The rest of an account says nothing about its first place. -/
theorem Account.not_mem_tail (h : Account t w ((p, x) :: l)) : (p, y) ∉ l := by
  intro hmem
  have hnodup := h.nodup
  rw [List.map_cons, List.nodup_cons] at hnodup
  exact hnodup.1 (List.mem_map.mpr ⟨(p, y), hmem, rfl⟩)

/-! ## What the operations do -/

section Operations

variable [DecidableEq ι]

/-- The place that has been taken. -/
theorem put_self : t.put p w x p = some (w, x) := Function.update_self ..

/-- The other places stay as they are. -/
theorem put_of_ne {q : ι} (h : q ≠ p) : t.put p w x q = t q := Function.update_of_ne h ..

/-- The place that has been given up. -/
theorem drop_self : t.drop p p = none := Function.update_self ..

/-- The others stay as they are then as well. -/
theorem drop_of_ne {q : ι} (h : q ≠ p) : t.drop p q = t q := Function.update_of_ne h ..

/-- An owner takes a place that is free or its own. -/
theorem Frame.put (h : ∀ o y, t p = some (o, y) → o = w) : Frame w t (t.put p w x) := by
  intro o ho q y
  by_cases hq : q = p
  · subst hq
    rw [put_self]
    constructor
    · intro heq
      cases heq
      exact absurd rfl ho
    · exact fun heq => absurd (h o y heq) ho
  · rw [put_of_ne hq]

/-- An owner gives a place of its own back. -/
theorem Frame.drop (h : ∀ o y, t p = some (o, y) → o = w) : Frame w t (t.drop p) := by
  intro o ho q y
  by_cases hq : q = p
  · subst hq
    rw [drop_self]
    exact ⟨nofun, fun heq => absurd (h o y heq) ho⟩
  · rw [drop_of_ne hq]

/-- A free place is added to the account of the owner that takes it. -/
theorem Account.put_free (h : Account t w l) (hp : t p = none) :
    Account (t.put p w x) w ((p, x) :: l) := by
  constructor
  · rw [List.map_cons, List.nodup_cons]
    refine ⟨fun hmem => ?_, h.nodup⟩
    obtain ⟨⟨q, y⟩, hq, rfl⟩ := List.mem_map.mp hmem
    have hheld : t q = some (w, y) := (h.holds q y).mpr hq
    rw [hp] at hheld
    cases hheld
  · intro q y
    rw [List.mem_cons]
    by_cases hq : q = p
    · subst hq
      rw [put_self]
      have hnot : (q, y) ∉ l := fun hmem => by
        have hheld := (h.holds q y).mpr hmem
        rw [hp] at hheld
        cases hheld
      simp only [hnot, or_false, Option.some.injEq, Prod.mk.injEq, true_and]
      exact eq_comm
    · rw [put_of_ne hq, h.holds q y]
      simp only [Prod.mk.injEq, hq, false_and, false_or]

/-- The content of the first place of an account is changed. -/
theorem Account.put_head (h : Account t w ((p, y) :: l)) : Account (t.put p w x) w ((p, x) :: l) := by
  refine ⟨h.nodup, fun q z => ?_⟩
  rw [List.mem_cons]
  by_cases hq : q = p
  · subst hq
    rw [put_self]
    simp only [h.not_mem_tail, or_false, Option.some.injEq, Prod.mk.injEq, true_and]
    exact eq_comm
  · rw [put_of_ne hq, h.holds q z, List.mem_cons]
    simp only [Prod.mk.injEq, hq, false_and, false_or]

/-- The first place of an account is given back. -/
theorem Account.drop_head (h : Account t w ((p, y) :: l)) : Account (t.drop p) w l := by
  refine ⟨?_, fun q z => ?_⟩
  · have hnodup := h.nodup
    rw [List.map_cons, List.nodup_cons] at hnodup
    exact hnodup.2
  · by_cases hq : q = p
    · subst hq
      rw [drop_self]
      exact ⟨nofun, fun hmem => absurd hmem h.not_mem_tail⟩
    · rw [drop_of_ne hq, h.holds q z, List.mem_cons]
      simp only [Prod.mk.injEq, hq, false_and, false_or]

end Operations

end Ledger

end L4Rdma.Lib
