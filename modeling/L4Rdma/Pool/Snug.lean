import L4Rdma.Pool.Stock

/-!
# How calls for memory pages stop

When a block is taken off the list of a pool and another one follows it, the next one keeps a link to it.
Giving back the last page of the next one is then an access to freed memory. A pool that has never had
more than one block has no such link (`Snug`), and stays so as long as its pages fit in one block.
`Stock.allocPage_stops` and `Stock.freePage_stops` say in which ways the calls for memory pages can stop.
-/

namespace L4Rdma

open Lib

namespace PA

variable {W PD BD ED : Type} {k : Kind W PD BD ED} {s s' : State W PD BD ED}
  {pre : Option BlockPtr} {l l' : List BlockPtr} {e : ElementPtr}

/-- There is at most one block, and it does not point back to another one. -/
structure Snug (s : State W PD BD ED) : Prop where
  one : s.pool.block_count ≤ 1
  head : ∀ b, s.pool.start = some b → s.heap.pv b = none

/-- For a pool with a list of blocks this is about the length of the list. -/
theorem Linked.snug_iff (h : Linked s pre l) : Snug s ↔ pre = none ∧ l.length ≤ 1 := by
  have hstart := h.start_eq
  constructor
  · intro hsnug
    refine ⟨?_, h.block_count ▸ hsnug.one⟩
    cases l with
    | nil => exact h.pre_nil rfl
    | cons b l => exact h.seg.2.1.symm.trans (hsnug.head b hstart)
  · rintro ⟨rfl, hle⟩
    refine ⟨h.block_count ▸ hle, fun b hb => ?_⟩
    cases l with
    | nil => exact absurd (hb.symm.trans hstart) (Option.some_ne_none b)
    | cons c l =>
      obtain rfl : b = c := Option.some.inj (hb.symm.trans hstart)
      exact h.seg.2.1

/-- Another block is only had when all pages of the first one are used. -/
theorem Taken.snug (ht : Taken k s s' pre l l' e) (h : Rep s pre l) (hsnug : Snug s)
    (hlt : s.pool.size < s.pool.block_size) : Snug s' := by
  obtain ⟨hpre, hle⟩ := h.snug_iff.mp hsnug
  refine ht.rep.snug_iff.mpr ⟨hpre, ?_⟩
  rcases ht.blocks with ⟨rfl, -⟩ | ⟨rfl, -, hfull, -⟩
  · exact hle
  · cases l with
    | nil => exact Nat.le_refl 1
    | cons b l =>
      obtain ⟨blk, hblk, hnot⟩ := hfull b List.mem_cons_self
      have hcount := h.count_le_size (List.mem_cons_self (a := b) (l := l))
      rw [Heap.count_of_block hblk] at hcount
      omega

/-- A call that gives an element back returns or throws, and the pool stays snug, or it accesses a block
that has been destroyed. -/
theorem freePage_stops (h : Rep s pre l) (he : UsedAt s l e) :
    Ends (freePage k e) s (fun _ s' => s'.pool.max = s.pool.max ∧
        s'.pool.block_size = s.pool.block_size ∧ (Snug s → Snug s'))
      fun err _ => (∃ what, err = .thrown what) ∨ err = .undefined .use_after_free ∧ ¬ Snug s := by
  obtain ⟨blk, hblk⟩ := h.exist e.block he.1
  have hout := freePage_cases (k := k) h he hblk
  cases hres : freePage k e s with
  | ok u s' =>
    rw [hres] at hout
    apply ends_of_ok hres
    cases hout with
    | keep hcount =>
      obtain ⟨hg, hrep⟩ := given_keep h he hblk hcount
      exact ⟨hg.max, hg.block_size, fun hsnug => hrep.snug_iff.mpr (h.snug_iff.mp hsnug)⟩
    | drop hcount l₁ l₂ s₁ p hl hpre hp hrelease hgone hdrop hrep =>
      subst hl
      have hg := given_drop h he hblk hcount hdrop
      refine ⟨hg.max, hg.block_size, fun hsnug => ?_⟩
      -- It was the only block, and none is left.
      obtain ⟨rfl, hle⟩ := h.snug_iff.mp hsnug
      rw [List.length_append, List.length_cons] at hle
      obtain rfl : l₁ = [] := List.eq_nil_of_length_eq_zero (by omega)
      obtain rfl : l₂ = [] := List.eq_nil_of_length_eq_zero (by omega)
      exact hrep.snug_iff.mpr ⟨rfl, Nat.zero_le 1⟩
  | error err s' =>
    rw [hres] at hout
    apply ends_of_error hres
    cases hout with
    | stale hcount q l₂ s₁ hpre hl =>
      refine .inr ⟨rfl, fun hsnug => ?_⟩
      rw [(h.snug_iff.mp hsnug).1] at hpre
      cases hpre
    | throws hcount l₁ l₂ s₁ m p w hl hpre hp hrelease hdrop hrep => exact .inl ⟨m, rfl⟩

end PA

namespace MEM

open PA (ElementPtr BlockPtr Rep UsedAt Snug)

variable {s s' : State} {pre : Option BlockPtr} {l : List BlockPtr} {rest : List Region} {H : Finset ℕ}
  {p : ℕ}

/-- The index has no share in the links of the blocks. -/
theorem snug_withIndex {index : ℕ → Option ElementPtr} : Snug (withIndex s index) ↔ Snug s :=
  ⟨fun h => ⟨h.one, h.head⟩, fun h => ⟨h.one, h.head⟩⟩

/-- What a call for memory pages keeps when it returns. -/
structure KeepsBounds (s s' : State) : Prop where
  max : s'.pool.max = s.pool.max
  block_size : s'.pool.block_size = s.pool.block_size

/-- `alloc_page` stops when the kernel gives no memory, or when the pool is used up. -/
theorem Stock.allocPage_stops (h : Stock s pre l rest) :
    Ends MEM.allocPage s
      (fun _ s' => KeepsBounds s s' ∧ (Snug s → s.pool.size < s.pool.block_size → Snug s'))
      fun err s' => (∃ what, err = .thrown what) ∨
        err = .undefined .null_deref ∧ s'.pool.size = s.pool.max := by
  rcases PA.allocPage_spec kind h.toRep h.block_size_pos with
    ⟨hmax, hfull⟩ | ⟨-, e, s', l', hres, ht⟩ | ⟨-, what, s', hres, -⟩
  · have herror : MEM.allocPage s = .error (.undefined .null_deref) s := bind_of_ok hfull
    exact ends_of_error herror (.inr ⟨rfl, hmax⟩)
  · have hin : InPool s' l' e := inPool_of_usedAt ((ht.used e).mpr (.inr rfl))
    obtain ⟨p, hp⟩ := exists_physAt ht.rep hin
    refine ends_of_ok (allocPage_of_taken hres hp) ⟨⟨ht.max, ht.block_size⟩, fun hsnug hlt => ?_⟩
    exact snug_withIndex.mpr (ht.snug h.toRep hsnug hlt)
  · have herror : MEM.allocPage s = .error (.thrown what) s' := bind_of_error hres
    exact ends_of_error herror (.inl ⟨what, rfl⟩)

/-- `free_page` of a page that is used stops when the kernel does not unmap the memory of its block, or at
a link to a block that has been destroyed. -/
theorem Stock.freePage_stops (h : Stock s pre l rest) (hp : s.pool.data.index p ≠ none) :
    Ends (MEM.freePage p) s (fun _ s' => KeepsBounds s s' ∧ (Snug s → Snug s'))
      fun err _ => (∃ what, err = .thrown what) ∨ err = .undefined .use_after_free ∧ ¬ Snug s := by
  obtain ⟨e, hindex⟩ := Option.ne_none_iff_exists'.mp hp
  obtain ⟨hused, -⟩ := (h.indexed p e).mp hindex
  refine Ends.congr (freePage_of_index hindex) ?_
  have hrep := Rep.withIndex h.toRep (Function.update s.pool.data.index p none)
  refine (PA.freePage_stops (k := kind) hrep hused).mono ?_ ?_
  · rintro _ s' ⟨hmax, hsize, hsnug⟩
    exact ⟨⟨hmax, hsize⟩, fun h' => hsnug (snug_withIndex.mpr h')⟩
  · rintro err s' (hthrown | ⟨hfreed, hnot⟩)
    · exact .inl hthrown
    · exact .inr ⟨hfreed, fun h' => hnot (snug_withIndex.mpr h')⟩

end MEM

end L4Rdma
