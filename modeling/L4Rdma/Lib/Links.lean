import Mathlib

/-!
# Doubly linked lists

The links of a set of nodes are two functions, `nx` for the node after a node and `pv` for the node
before it. `Seg nx pv pre cur l post` says that the nodes met from `cur` on are those of `l`, that
each points back to the one before it (the first one to `pre`), and that the last one points
forward to `post`. A whole list is a segment that ends in `none`. The edits are local: a segment
survives every change outside of it (`Seg.congr`), a node is linked in at the end (`Seg.link_last`)
and unlinked in the middle or at the end (`Seg.unlink_mid`, `Seg.unlink_last`). The nodes of a list
that ends are pairwise different (`Seg.nodup`), and the forward links determine them (`Seg.det`).

`Visits next z a l` is about a chain with forward links only, which ends at the value `z`.
-/

namespace L4Rdma.Lib

variable {α : Type} {nx pv nx' pv' : α → Option α}

/-- The nodes met from `cur` on are `l`, linked both ways, between `pre` and `post`. -/
def Seg (nx pv : α → Option α) : Option α → Option α → List α → Option α → Prop
  | _, cur, [], post => cur = post
  | pre, cur, a :: l, post => cur = some a ∧ pv a = pre ∧ Seg nx pv (some a) (nx a) l post

/-- The last node of a list, or the one before it when it is empty. -/
def lastOr (pre : Option α) : List α → Option α
  | [] => pre
  | a :: l => lastOr (some a) l

/-- An empty segment ends where it starts. -/
@[simp] theorem seg_nil {pre cur post : Option α} : Seg nx pv pre cur [] post ↔ cur = post :=
  Iff.rfl

/-- A segment begins with its first node. -/
@[simp] theorem seg_cons {pre cur post : Option α} {a : α} {l : List α} :
    Seg nx pv pre cur (a :: l) post ↔
      cur = some a ∧ pv a = pre ∧ Seg nx pv (some a) (nx a) l post :=
  Iff.rfl

/-- The node before the end of an empty segment is the one before the segment. -/
@[simp] theorem lastOr_nil {pre : Option α} : lastOr pre ([] : List α) = pre := rfl

/-- The last node of a segment that is not empty. -/
@[simp] theorem lastOr_append {pre : Option α} {l : List α} {a : α} :
    lastOr pre (l ++ [a]) = some a := by
  induction l generalizing pre with
  | nil => rfl
  | cons b l ih => exact ih

/-- The first node of a segment is where it starts. -/
theorem Seg.head {pre cur : Option α} {l : List α} (h : Seg nx pv pre cur l none) :
    cur = l.head? := by
  cases l with
  | nil => exact h
  | cons a l => exact h.1

/-- A segment over a concatenation is a segment over each part, which meet in the middle. -/
theorem seg_append {post : Option α} {l₁ l₂ : List α} :
    ∀ {pre cur : Option α}, Seg nx pv pre cur (l₁ ++ l₂) post ↔
      ∃ mid, Seg nx pv pre cur l₁ mid ∧ Seg nx pv (lastOr pre l₁) mid l₂ post := by
  induction l₁ with
  | nil => intro pre cur; simp
  | cons a l₁ ih =>
    intro pre cur
    simp only [List.cons_append, seg_cons, lastOr]
    constructor
    · rintro ⟨hc, hp, h⟩
      obtain ⟨mid, h₁, h₂⟩ := ih.mp h
      exact ⟨mid, ⟨hc, hp, h₁⟩, h₂⟩
    · rintro ⟨mid, ⟨hc, hp, h₁⟩, h₂⟩
      exact ⟨hc, hp, ih.mpr ⟨mid, h₁, h₂⟩⟩

/-- A segment reads only the links of its own nodes. -/
theorem Seg.congr {post : Option α} {l : List α} :
    ∀ {pre cur : Option α}, Seg nx pv pre cur l post →
      (∀ a ∈ l, nx' a = nx a ∧ pv' a = pv a) → Seg nx' pv' pre cur l post := by
  induction l with
  | nil => exact fun h _ => h
  | cons a l ih =>
    rintro pre cur ⟨hc, hp, h⟩ hag
    obtain ⟨hn, hv⟩ := hag a List.mem_cons_self
    refine ⟨hc, hv.trans hp, ?_⟩
    rw [hn]
    exact ih h fun b hb => hag b (List.mem_cons_of_mem _ hb)

/-- Two lists met from the same node on, both to their end, are the same. -/
theorem Seg.det {l l' : List α} :
    ∀ {pre pre' cur : Option α}, Seg nx pv pre cur l none → Seg nx pv' pre' cur l' none → l = l' := by
  induction l generalizing l' with
  | nil =>
    intro pre pre' cur h h'
    cases l' with
    | nil => rfl
    | cons a l' => cases h.symm.trans h'.1
  | cons a l ih =>
    rintro pre pre' cur ⟨hc, -, h⟩ h'
    cases l' with
    | nil => cases hc.symm.trans h'
    | cons b l' =>
      obtain ⟨hc', -, h'⟩ := h'
      obtain rfl : a = b := Option.some.inj (hc.symm.trans hc')
      rw [ih h h']

/-- The nodes of a list that ends are pairwise different. -/
theorem Seg.nodup {l : List α} : ∀ {pre cur : Option α}, Seg nx pv pre cur l none → l.Nodup := by
  induction l with
  | nil => exact fun _ => List.nodup_nil
  | cons a l ih =>
    rintro pre cur h
    obtain ⟨hc, hp, ht⟩ := h
    refine List.nodup_cons.mpr ⟨fun ha => ?_, ih ht⟩
    -- Met again, `a` would be followed by all of `l` once more, inside of `l`.
    obtain ⟨l₁, l₂, rfl⟩ := List.append_of_mem ha
    obtain ⟨mid, -, hmid⟩ := seg_append.mp ht
    obtain ⟨rfl, -, hrest⟩ := hmid
    have := congrArg List.length (hrest.det ht)
    simp at this
    omega

variable {pre cur : Option α} {l l₁ l₂ : List α} {p b n : α}

/-- Links a new last node `b` in after the old last node `p`. -/
theorem Seg.link_last (h : Seg nx pv pre cur (l ++ [p]) none)
    (hag : ∀ a ∈ l, nx' a = nx a ∧ pv' a = pv a) (hp : pv' p = pv p) (hpn : nx' p = some b)
    (hb : pv' b = some p) (hbn : nx' b = none) : Seg nx' pv' pre cur (l ++ [p] ++ [b]) none := by
  obtain ⟨mid, hl, hlast⟩ := seg_append.mp h
  obtain ⟨rfl, hpv, -⟩ := hlast
  rw [List.append_assoc]
  exact seg_append.mpr ⟨_, hl.congr hag, rfl, hp.trans hpv, by simp [hpn, hb, hbn]⟩

/-- Unlinks the node `b` between `p` and `n`. -/
theorem Seg.unlink_mid (h : Seg nx pv pre cur (l₁ ++ p :: b :: n :: l₂) none)
    (hag₁ : ∀ a ∈ l₁, nx' a = nx a ∧ pv' a = pv a) (hag₂ : ∀ a ∈ l₂, nx' a = nx a ∧ pv' a = pv a)
    (hp : pv' p = pv p) (hpn : nx' p = some n) (hn : pv' n = some p) (hnn : nx' n = nx n) :
    Seg nx' pv' pre cur (l₁ ++ p :: n :: l₂) none := by
  obtain ⟨mid, hl, rfl, hpv, -, -, -, -, hrest⟩ := seg_append.mp h
  refine seg_append.mpr ⟨_, hl.congr hag₁, rfl, hp.trans hpv, hpn, hn, ?_⟩
  rw [hnn]
  exact hrest.congr hag₂

/-- Unlinks the last node `b` after `p`. -/
theorem Seg.unlink_last (h : Seg nx pv pre cur (l₁ ++ [p, b]) none)
    (hag₁ : ∀ a ∈ l₁, nx' a = nx a ∧ pv' a = pv a) (hp : pv' p = pv p) (hpn : nx' p = none) :
    Seg nx' pv' pre cur (l₁ ++ [p]) none := by
  obtain ⟨mid, hl, rfl, hpv, -⟩ := seg_append.mp h
  exact seg_append.mpr ⟨_, hl.congr hag₁, rfl, hp.trans hpv, hpn⟩

/-! ## Chains -/

/-- Following `next` from `a` until it is `z` visits the nodes of the list, in this order. -/
def Visits (next : α → α) (z : α) : α → List α → Prop
  | _, [] => False
  | a, [b] => b = a ∧ next b = z
  | a, b :: c :: l => b = a ∧ next b ≠ z ∧ Visits next z (next b) (c :: l)

/-- A chain whose nodes are numbered. -/
theorem visits_range {next : α → α} {z : α} {n : ℕ} {node : ℕ → α}
    (hnext : ∀ k, k < n → next (node k) = node (k + 1)) (hne : ∀ k, k < n → node (k + 1) ≠ z)
    (hlast : next (node n) = z) : Visits next z (node 0) ((List.range (n + 1)).map node) := by
  induction n generalizing node with
  | zero => exact ⟨rfl, hlast⟩
  | succ n ih =>
    have hrest := @ih (fun k => node (k + 1)) (fun k hk => hnext (k + 1) (by omega))
      (fun k hk => hne (k + 1) (by omega)) hlast
    have hfirst : next (node 0) = node 1 := hnext 0 (Nat.succ_pos n)
    rw [List.range_succ_eq_map, List.map_cons, List.map_map]
    rw [List.range_succ_eq_map, List.map_cons] at hrest ⊢
    refine ⟨rfl, ?_, ?_⟩
    · rw [hfirst]
      exact hne 0 (Nat.succ_pos n)
    · rw [hfirst]
      exact hrest

end L4Rdma.Lib
