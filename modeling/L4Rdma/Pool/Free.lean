import L4Rdma.Pool.Alloc

/-!
# Freeing an element

`freePage` gives an element up. When it was the last used one of its block, the block is taken off
the list and destroyed. `removeBlockFromPool` unlinks a block in the middle or at the end of the
list correctly. When it removes the first block and another one follows, it leaves the `prev` of
the new first block pointing to the removed one (`headPrev`), and when that block is removed in its
turn, it writes through this pointer.
-/

namespace L4Rdma.PA

open Lib

variable {W PD BD ED : Type} {k : Kind W PD BD ED} {s : State W PD BD ED}
  {pre : Option BlockPtr} {l l₁ l₂ : List BlockPtr} {b q : BlockPtr} {blk : Block BD ED}

/-- What the first block points back to once `b` is taken out between `l₁` and `l₂`. -/
def headPrev (pre : Option BlockPtr) (b : BlockPtr) (l₁ l₂ : List BlockPtr) : Option BlockPtr :=
  if l₁ = [] then if l₂ = [] then none else some b else pre

/-- Removing the first block of a list. -/
theorem removeBlockFromPool_first (h : Linked s none (b :: l₂)) :
    ∃ s₁, removeBlockFromPool b s = .ok () s₁ ∧ Linked s₁ (headPrev none b [] l₂) l₂ ∧
      s₁.world = s.world ∧ s₁.pool.Same s.pool ∧ s₁.heap = s.heap := by
  obtain ⟨blk, hblk⟩ := h.exist b (by simp)
  obtain ⟨-, hpv, hseg⟩ := h.seg
  rw [Heap.pv_of_block hblk] at hpv
  rw [Heap.nx_of_block hblk] at hseg
  refine ⟨{ s with pool := { s.pool with
      start := blk.next, block_count := s.pool.block_count - 1 } }, ?_, ⟨?_, ?_, ?_, ?_, ?_, ?_⟩,
    rfl, ⟨rfl, rfl, rfl, rfl⟩, rfl⟩
  · rw [removeBlockFromPool, bind_of_ok (deref_of_block hblk)]
    simp only [hpv]
    cases hn : blk.next <;> rfl
  · cases l₂ with
    | nil => exact hseg
    | cons n l₂ => exact hseg
  · intro c hc
    refine h.last c ?_
    cases l₂ with
    | nil => cases hc
    | cons n l₂ => exact hc
  · simp [h.block_count]
  · exact fun c hc => h.exist c (List.mem_cons_of_mem _ hc)
  · exact h.unborn
  · intro hnil
    simp [headPrev, hnil]

/-- Removing the last block, after another one: `p` becomes the last one. -/
theorem removeBlockFromPool_last {p : BlockPtr} (h : Linked s pre (l₁ ++ [p, b])) :
    ∃ s₁, removeBlockFromPool b s = .ok () s₁ ∧ Linked s₁ pre (l₁ ++ [p]) ∧
      s₁.world = s.world ∧ s₁.pool.Same s.pool ∧ s₁.heap.fresh = s.heap.fresh ∧
      ∀ c, s₁.heap.body c = s.heap.body c := by
  obtain ⟨blk, hblk⟩ := h.exist b (by simp)
  obtain ⟨blkp, hp⟩ := h.exist p (by simp)
  obtain ⟨mid, -, -, -, -, hbp, hn⟩ := seg_append.mp h.seg
  rw [Heap.pv_of_block hblk] at hbp
  rw [Heap.nx_of_block hblk] at hn
  -- Being the last one, the block has `p` before it and nothing after it.
  have hn : blk.next = none := hn
  have hnodup := h.nodup
  -- The blocks before `p` are other blocks, so writing to `p` leaves them.
  have hl₁ : ∀ a ∈ l₁, a ≠ p := fun a ha he => by
    rw [he] at ha
    simp [List.nodup_append] at hnodup
    exact (hnodup.2.2 p ha).1 rfl
  have hbody : ∀ c, (s.heap.set p (some { blkp with next := none })).body c = s.heap.body c :=
    fun c => Heap.body_set_links hp rfl
  refine ⟨{ s with
      pool := { s.pool with «end» := some p, block_count := s.pool.block_count - 1 },
      heap := s.heap.set p (some { blkp with next := none }) }, ?_, ⟨?_, ?_, ?_, ?_, ?_, ?_⟩,
    rfl, ⟨rfl, rfl, rfl, rfl⟩, rfl, hbody⟩
  · -- The source writes to the block before, and to `end`.
    rw [removeBlockFromPool, bind_of_ok (deref_of_block hblk)]
    simp only [hbp, hn]
    rw [bind_of_ok (store_of_block hp)]
    rfl
  · -- What is left ends in `p`.
    refine h.seg.unlink_last (fun a ha => Heap.links_set_of_ne (hl₁ a ha)) ?_ ?_
    · rw [Heap.pv_of_block Heap.set_block_same, Heap.pv_of_block hp]
    · rw [Heap.nx_of_block Heap.set_block_same]
  · intro c hc
    simpa using hc
  · simp [h.block_count]
  · intro c hc
    apply (Heap.exists_block_iff (hbody c)).mpr
    exact h.exist c (by simp at hc ⊢; tauto)
  · exact fun c hc => (Heap.block_none_iff (hbody c)).mpr (h.unborn c hc)
  · exact fun hnil => absurd hnil (by simp)

/-- Removing a block between two others, `p` and `n`: they are linked to each other. -/
theorem removeBlockFromPool_between {p n : BlockPtr} (h : Linked s pre (l₁ ++ p :: b :: n :: l₂)) :
    ∃ s₁, removeBlockFromPool b s = .ok () s₁ ∧ Linked s₁ pre (l₁ ++ p :: n :: l₂) ∧
      s₁.world = s.world ∧ s₁.pool.Same s.pool ∧ s₁.heap.fresh = s.heap.fresh ∧
      ∀ c, s₁.heap.body c = s.heap.body c := by
  obtain ⟨blk, hblk⟩ := h.exist b (by simp)
  obtain ⟨blkp, hp⟩ := h.exist p (by simp)
  obtain ⟨blkn, hblkn⟩ := h.exist n (by simp)
  obtain ⟨mid, -, -, -, -, hbp, hrest⟩ := seg_append.mp h.seg
  rw [Heap.pv_of_block hblk] at hbp
  rw [Heap.nx_of_block hblk] at hrest
  -- Both neighbours are there, and they are different from all other blocks.
  have hn : blk.next = some n := hrest.1
  have hnodup := h.nodup
  simp only [List.nodup_append, List.nodup_cons, List.mem_cons, not_or] at hnodup
  obtain ⟨-, ⟨⟨-, hpn, hpl₂⟩, -, hnl₂, -⟩, hl₁⟩ := hnodup
  have hnp : n ≠ p := fun he => hpn he.symm
  have hblkn' : (s.heap.set p (some { blkp with next := some n })).block n = some blkn := by
    rw [Heap.set_block_of_ne hnp, hblkn]
  generalize hh : (s.heap.set p (some { blkp with next := some n })).set n
    (some { blkn with prev := some p }) = heap
  have hheapp : heap.block p = some { blkp with next := some n } := by
    rw [← hh, Heap.set_block_of_ne hnp.symm, Heap.set_block_same]
  have hheapn : heap.block n = some { blkn with prev := some p } := by
    rw [← hh, Heap.set_block_same]
  -- Writing to the neighbours leaves the links of the others, and all contents.
  have hlinks : ∀ c, c ≠ n → c ≠ p → heap.nx c = s.heap.nx c ∧ heap.pv c = s.heap.pv c :=
    fun c hcn hcp => by
      rw [← hh]
      simp [Heap.nx, Heap.pv, Heap.set_block_of_ne hcn, Heap.set_block_of_ne hcp]
  have hfresh : heap.fresh = s.heap.fresh := by rw [← hh]; rfl
  have hbody : ∀ c, heap.body c = s.heap.body c := fun c => by
    rw [← hh, Heap.body_set_links hblkn' (by rfl), Heap.body_set_links hp (by rfl)]
  refine ⟨{ s with
      pool := { s.pool with block_count := s.pool.block_count - 1 }, heap := heap },
    ?_, ⟨?_, ?_, ?_, ?_, ?_, ?_⟩, rfl, ⟨rfl, rfl, rfl, rfl⟩, hfresh, hbody⟩
  · -- The source writes to the block before, and then to the block after.
    rw [removeBlockFromPool, bind_of_ok (deref_of_block hblk)]
    simp only [hbp, hn]
    rw [bind_of_ok (store_of_block hp), bind_of_ok (store_of_block (by exact hblkn'))]
    simp [hh]
  · -- What is left is linked across the place where the block was.
    refine h.seg.unlink_mid
      (fun a ha => hlinks a (hl₁ a ha n (by simp)) (hl₁ a ha p (by simp)))
      (fun a ha => hlinks a (fun he => hnl₂ (he ▸ ha)) fun he => hpl₂ (he ▸ ha)) ?_ ?_ ?_ ?_
    · rw [Heap.pv_of_block hheapp, Heap.pv_of_block hp]
    · rw [Heap.nx_of_block hheapp]
    · rw [Heap.pv_of_block hheapn]
    · rw [Heap.nx_of_block hheapn, Heap.nx_of_block hblkn]
  · intro c hc
    exact h.last c (by simpa using hc)
  · simp [h.block_count]
  · intro c hc
    apply (Heap.exists_block_iff (hbody c)).mpr
    exact h.exist c (by simp at hc ⊢; tauto)
  · exact fun c hc => (Heap.block_none_iff (hbody c)).mpr (h.unborn c (hfresh ▸ hc))
  · exact fun hnil => absurd hnil (by simp)

/-- Removing a block that is not the first one. -/
theorem removeBlockFromPool_later {p : BlockPtr} (h : Linked s pre (l₁ ++ p :: b :: l₂)) :
    ∃ s₁, removeBlockFromPool b s = .ok () s₁ ∧ Linked s₁ pre (l₁ ++ p :: l₂) ∧
      s₁.world = s.world ∧ s₁.pool.Same s.pool ∧ s₁.heap.fresh = s.heap.fresh ∧
      ∀ c, s₁.heap.body c = s.heap.body c := by
  cases l₂ with
  | nil => exact removeBlockFromPool_last h
  | cons n l₂ => exact removeBlockFromPool_between h

/-- Removing a block from a well-formed list, unless it is the first one and points back to a
destroyed block. -/
theorem removeBlockFromPool_spec (h : Linked s pre (l₁ ++ b :: l₂)) (hpre : l₁ = [] → pre = none) :
    ∃ s₁, removeBlockFromPool b s = .ok () s₁ ∧
      Linked s₁ (headPrev pre b l₁ l₂) (l₁ ++ l₂) ∧ s₁.world = s.world ∧
      s₁.pool.Same s.pool ∧ s₁.heap.fresh = s.heap.fresh ∧
      ∀ c, s₁.heap.body c = s.heap.body c := by
  rcases List.eq_nil_or_concat l₁ with rfl | ⟨l₁, p, rfl⟩
  · obtain rfl := hpre rfl
    obtain ⟨s₁, hr, hl, hw, hs, hh⟩ := removeBlockFromPool_first h
    exact ⟨s₁, hr, hl, hw, hs, by rw [hh], fun c => by rw [hh]⟩
  · rw [List.concat_eq_append, List.append_assoc] at h ⊢
    obtain ⟨s₁, hr, hl, hw, hs, hf, hb⟩ := removeBlockFromPool_later h
    refine ⟨s₁, hr, ?_, hw, hs, hf, hb⟩
    rw [headPrev, if_neg (by simp)]
    exact hl

/-- Removing a first block that points back to a destroyed block writes to the destroyed block. -/
theorem removeBlockFromPool_stale (h : Linked s (some q) (b :: l₂)) (hq : s.heap.block q = none) :
    removeBlockFromPool b s = .error (.undefined .use_after_free) s := by
  obtain ⟨blk, hblk⟩ := h.exist b (by simp)
  obtain ⟨-, hpv, -⟩ := h.seg
  rw [Heap.pv_of_block hblk] at hpv
  rw [removeBlockFromPool, bind_of_ok (deref_of_block hblk)]
  simp only [hpv]
  cases blk.next with
  | none => exact bind_of_error (store_of_destroyed hq)
  | some n => exact bind_of_error (store_of_destroyed hq)

/-! ## `freeBlock` -/

/-- What is left when the block `b`, between `l₁` and `l₂`, is taken off the list: the other blocks,
as they were. -/
structure Dropped (s s₁ : State W PD BD ED) (pre : Option BlockPtr) (b : BlockPtr)
    (l₁ l₂ : List BlockPtr) : Prop where
  linked : Linked s₁ (headPrev pre b l₁ l₂) (l₁ ++ l₂)
  same : s₁.pool.Same s.pool
  fresh : s₁.heap.fresh = s.heap.fresh
  body : ∀ c, c ≠ b → s₁.heap.body c = s.heap.body c

/-- The block taken out of a list is not one of the others. -/
theorem Linked.ne_of_mem (h : Linked s pre (l₁ ++ b :: l₂)) {c : BlockPtr} (hc : c ∈ l₁ ++ l₂) :
    c ≠ b := fun he => by
  have hnodup := h.nodup
  rw [List.nodup_middle, List.nodup_cons] at hnodup
  exact hnodup.1 (he ▸ hc)

/-- The blocks pointed back to stay destroyed. -/
theorem Dropped.stale {s₁ : State W PD BD ED} (h : Rep s pre (l₁ ++ b :: l₂))
    (hd : Dropped s s₁ pre b l₁ l₂) (hq : pre = some q) : s₁.heap.block q = none := by
  obtain ⟨blk, hblk⟩ := h.exist b (by simp)
  have hne : q ≠ b := fun he => by
    rw [← he, (h.stale q hq).2] at hblk
    cases hblk
  have hbody := hd.body q hne
  rw [Heap.body, Heap.body, (h.stale q hq).2] at hbody
  simpa using hbody

/-- What is left is well formed, if the block had no used elements, and if it is destroyed where
the new first block points back to it. -/
theorem Dropped.rep {s₁ : State W PD BD ED} (h : Rep s pre (l₁ ++ b :: l₂))
    (hcount : s.heap.count b = 0) (hd : Dropped s s₁ pre b l₁ l₂)
    (hgone : (l₁ = [] → l₂ = []) ∨ s₁.heap.block b = none) :
    Rep s₁ (headPrev pre b l₁ l₂) (l₁ ++ l₂) := by
  have hmem : ∀ c ∈ l₁ ++ l₂, c ∈ l₁ ++ b :: l₂ := fun c hc => by
    rw [List.mem_append] at hc
    simp only [List.mem_append, List.mem_cons]
    tauto
  refine ⟨hd.linked, ?_, ?_, ?_, ?_⟩
  · intro c hc n d a hb
    rw [hd.body c (h.toLinked.ne_of_mem hc)] at hb
    rw [hd.same.block_size]
    exact h.ok c (hmem c hc) n d a hb
  · have hsum : (l₁ ++ l₂).map s₁.heap.count = (l₁ ++ l₂).map s.heap.count :=
      List.map_congr_left fun c hc => Heap.count_of_body (hd.body c (h.toLinked.ne_of_mem hc))
    rw [hsum, hd.same.size, h.size_eq]
    simp [hcount]
  · rw [hd.same.size, hd.same.max]
    exact h.size_le
  · intro q hq
    rw [hd.fresh]
    unfold headPrev at hq
    split_ifs at hq with hl₁ hl₂
    · cases hq
      exact ⟨h.lt_fresh (by simp), hgone.resolve_left fun hlast => hl₂ (hlast hl₁)⟩
    · exact ⟨(h.stale q hq).1, hd.stale h hq⟩

/-- Destroying the block that has been taken out leaves the list. -/
theorem Dropped.destroy {s₁ : State W PD BD ED} (hd : Dropped s s₁ pre b l₁ l₂)
    (hb : b ∉ l₁ ++ l₂) (w : W) :
    Dropped s { s₁ with world := w, heap := s₁.heap.set b none } pre b l₁ l₂ := by
  have hset : ∀ c, c ≠ b → (s₁.heap.set b none).block c = s₁.heap.block c := fun c hc =>
    Heap.set_block_of_ne hc
  have hne : ∀ c ∈ l₁ ++ l₂, c ≠ b := fun c hc he => hb (he ▸ hc)
  have hlinked := hd.linked
  refine ⟨⟨?_, hlinked.last, hlinked.block_count, ?_, ?_, hlinked.pre_nil⟩, hd.same, hd.fresh,
    fun c hc => ?_⟩
  · exact hlinked.seg.congr fun a ha => by simp [Heap.nx, Heap.pv, hset a (hne a ha)]
  · intro c hc
    show ∃ blk, (s₁.heap.set b none).block c = some blk
    rw [hset c (hne c hc)]
    exact hlinked.exist c hc
  · intro c hc
    show (s₁.heap.set b none).block c = none
    by_cases hcb : c = b
    · rw [hcb]
      exact Heap.set_block_same
    · rw [hset c hcb]
      exact hlinked.unborn c hc
  · rw [← hd.body c hc, Heap.body, Heap.body]
    exact congrArg _ (hset c hc)

/-- The list does not depend on the world. -/
theorem Dropped.withWorld {s₁ : State W PD BD ED} (hd : Dropped s s₁ pre b l₁ l₂) (w : W) :
    Dropped s { s₁ with world := w } pre b l₁ l₂ :=
  ⟨⟨hd.linked.seg, hd.linked.last, hd.linked.block_count, hd.linked.exist, hd.linked.unborn,
    hd.linked.pre_nil⟩, hd.same, hd.fresh, hd.body⟩

/-- `freeBlock` after the block has been taken off the list: its content is given back, and then it is
destroyed. -/
theorem freeBlock_of_removed {s₁ : State W PD BD ED} (hrm : removeBlockFromPool b s = .ok () s₁)
    (hblk : s₁.heap.block b = some blk) :
    (∀ w, k.release s₁.pool blk.data s₁.world = .ok () w →
      freeBlock k b s = .ok () { s₁ with world := w, heap := s₁.heap.set b none }) ∧
    ∀ err w, k.release s₁.pool blk.data s₁.world = .error err w →
      freeBlock k b s = .error err { s₁ with world := w } := by
  refine ⟨fun w hrel => ?_, fun err w hrel => ?_⟩
  · have hzoom : worldLens.zoom (k.release s₁.pool blk.data) s₁ =
        .ok () ({ s₁ with world := w } : State W PD BD ED) := Lens.zoom_of_ok hrel
    rw [freeBlock, bind_of_ok hrm, bind_of_ok (deref_of_block hblk)]
    simp only [get_bind]
    rw [bind_of_ok hzoom, destroyBlock, bind_of_ok (deref_of_block (by exact hblk))]
    rfl
  · have hzoom : worldLens.zoom (k.release s₁.pool blk.data) s₁ =
        .error err ({ s₁ with world := w } : State W PD BD ED) := Lens.zoom_of_error hrel
    rw [freeBlock, bind_of_ok hrm, bind_of_ok (deref_of_block hblk)]
    simp only [get_bind]
    exact bind_of_error hzoom

/-- Freeing a block takes it off the list and then gives its content back, which may throw. -/
theorem freeBlock_spec (h : Rep s pre (l₁ ++ b :: l₂)) (hpre : l₁ = [] → pre = none)
    (hblk : s.heap.block b = some blk) :
    ∃ p : Pool PD, p.Same s.pool ∧
      ((∃ s₁ w, k.release p blk.data s.world = .ok () w ∧ freeBlock k b s = .ok () s₁ ∧
          s₁.world = w ∧ s₁.heap.block b = none ∧ Dropped s s₁ pre b l₁ l₂) ∨
        ∃ m s₁ w, k.release p blk.data s.world = .error (.thrown m) w ∧
          freeBlock k b s = .error (.thrown m) s₁ ∧ Dropped s s₁ pre b l₁ l₂) := by
  obtain ⟨s₁, hrm, hlinked, hw, hsame, hfresh, hbody⟩ :=
    removeBlockFromPool_spec h.toLinked hpre
  have hdropped : Dropped s s₁ pre b l₁ l₂ := ⟨hlinked, hsame, hfresh, fun c _ => hbody c⟩
  -- The block is still there, with its content.
  obtain ⟨blk₁, hblk₁, hdata⟩ : ∃ blk₁, s₁.heap.block b = some blk₁ ∧ blk₁.data = blk.data := by
    have hb := hbody b
    rw [Heap.body, Heap.body, hblk] at hb
    cases hx : s₁.heap.block b with
    | none => simp [hx] at hb
    | some x =>
      simp only [hx, Option.map_some, Option.some.injEq, Prod.mk.injEq] at hb
      exact ⟨x, rfl, hb.2.1⟩
  obtain ⟨hok, herror⟩ := freeBlock_of_removed (k := k) hrm hblk₁
  rw [hdata, hw] at hok herror
  refine ⟨s₁.pool, hsame, ?_⟩
  cases hrel : k.release s₁.pool blk.data s.world with
  | ok u w =>
    have hgone : (s₁.heap.set b none).block b = none := Heap.set_block_same
    exact .inl ⟨_, w, rfl, hok w hrel, rfl, hgone,
      hdropped.destroy (fun hb => h.toLinked.ne_of_mem hb rfl) w⟩
  | error err w =>
    obtain ⟨m, rfl⟩ : ∃ m, err = .thrown m := by
      have := k.release_avoids s₁.pool blk.data s.world err w hrel
      push Not at this
      exact this
    exact .inr ⟨m, _, w, rfl, herror _ w hrel, hdropped.withWorld w⟩

/-! ## `freePage` -/

/-- The state in which `freePage` looks whether the block is still in use. -/
def State.give (s : State W PD BD ED) (e : ElementPtr) (blk : Block BD ED) : State W PD BD ED :=
  s.put e.block (blk.give e.index) (s.pool.size - 1)

/-- The outcomes of `freePage` on a well-formed pool, at a used element. -/
inductive FreeOutcome (k : Kind W PD BD ED) (s : State W PD BD ED) (pre : Option BlockPtr)
    (l : List BlockPtr) (e : ElementPtr) (blk : Block BD ED) :
    EStateM.Result Stop (State W PD BD ED) Unit → Prop
  /-- Other elements of the block are used. -/
  | keep (hcount : blk.element_count ≠ 1) : FreeOutcome k s pre l e blk (.ok () (s.give e blk))
  /-- It was the last used element of the first block, which points back to a destroyed block. -/
  | stale (hcount : blk.element_count = 1) (q : BlockPtr) (l₂ : List BlockPtr)
    (s₁ : State W PD BD ED) (hpre : pre = some q) (hl : l = e.block :: l₂) :
    FreeOutcome k s pre l e blk (.error (.undefined .use_after_free) s₁)
  /-- It was the last used element of its block, which is destroyed. -/
  | drop (hcount : blk.element_count = 1) (l₁ l₂ : List BlockPtr) (s₁ : State W PD BD ED)
    (p : Pool PD) (hl : l = l₁ ++ e.block :: l₂) (hpre : l₁ = [] → pre = none)
    (hp : p.Same (s.give e blk).pool) (hrel : k.release p blk.data s.world = .ok () s₁.world)
    (hgone : s₁.heap.block e.block = none) (hdrop : Dropped (s.give e blk) s₁ pre e.block l₁ l₂)
    (hrep : Rep s₁ (headPrev pre e.block l₁ l₂) (l₁ ++ l₂)) :
    FreeOutcome k s pre l e blk (.ok () s₁)
  /-- It was the last used element of its block, which is taken off the list, but whose content
  cannot be given back. -/
  | throws (hcount : blk.element_count = 1) (l₁ l₂ : List BlockPtr) (s₁ : State W PD BD ED)
    (m : String) (p : Pool PD) (w : W) (hl : l = l₁ ++ e.block :: l₂) (hpre : l₁ = [] → pre = none)
    (hp : p.Same (s.give e blk).pool) (hrel : k.release p blk.data s.world = .error (.thrown m) w)
    (hdrop : Dropped (s.give e blk) s₁ pre e.block l₁ l₂)
    (hrep : (l₁ = [] → l₂ = []) → Rep s₁ (headPrev pre e.block l₁ l₂) (l₁ ++ l₂)) :
    FreeOutcome k s pre l e blk (.error (.thrown m) s₁)

/-- `freePage` gives the element up, and then frees its block if no element of it is used. -/
theorem freePage_eq (h : Rep s pre l) {e : ElementPtr} (he : e.block ∈ l)
    (hi : e.index < s.pool.block_size) (hblk : s.heap.block e.block = some blk) :
    freePage k e s = (if blk.element_count - 1 = 0 then freeBlock k e.block else pure ())
      (s.give e blk) := by
  have howner : (blk.start e.index).block = e.block := (h.blockOk he hblk).owner _ hi
  rw [freePage, bind_of_ok (deref_of_block hblk)]
  simp only [howner, modifyPool_bind]
  rw [bind_of_ok (store_of_block (by exact hblk)),
    bind_of_ok (store_of_block Heap.set_block_same),
    bind_of_ok (deref_of_block Heap.set_block_same)]
  simp only [State.give, State.put, Block.give, Heap.set, Function.update_idem]
  rfl

/-- `freePage` on a well-formed pool, at a used element. -/
theorem freePage_cases (h : Rep s pre l) {e : ElementPtr} (he : UsedAt s l e)
    (hblk : s.heap.block e.block = some blk) : FreeOutcome k s pre l e blk (freePage k e s) := by
  obtain ⟨hmem, hi, blk', hblk', hu⟩ := he
  obtain rfl : blk = blk' := Option.some.inj (hblk.symm.trans hblk')
  have hpos := (h.blockOk hmem hblk).count_pos hi hu
  have hgive : Rep (s.give e blk) pre l := h.give hmem hblk hi hu
  have hblkg : (s.give e blk).heap.block e.block = some (blk.give e.index) := Heap.set_block_same
  rw [freePage_eq h hmem hi hblk]
  -- The block is freed exactly when this was its last used element.
  by_cases hcount : blk.element_count = 1
  · have hcount' : (s.give e blk).heap.count e.block = 0 := by
      rw [Heap.count_of_block hblkg]
      show blk.element_count - 1 = 0
      omega
    rw [if_pos (by omega)]
    obtain ⟨l₁, l₂, rfl⟩ := List.append_of_mem hmem
    -- It can be taken off the list, unless it is the first one and points back to a block that is gone.
    by_cases hpre : l₁ = [] → pre = none
    · obtain ⟨p, hp, ⟨s₁, w, hrel, hfree, rfl, hgone, hdrop⟩ | ⟨m, s₁, w, hrel, hfree, hdrop⟩⟩ :=
        freeBlock_spec (k := k) hgive hpre hblkg
      · rw [hfree]
        exact .drop hcount l₁ l₂ s₁ p rfl hpre hp hrel hgone hdrop
          (hdrop.rep hgive hcount' (.inr hgone))
      · rw [hfree]
        exact .throws hcount l₁ l₂ s₁ m p w rfl hpre hp hrel hdrop fun hlast =>
          hdrop.rep hgive hcount' (.inl hlast)
    · -- The first block points back to a destroyed one.
      rw [Classical.not_imp] at hpre
      obtain ⟨rfl, hpre⟩ := hpre
      obtain ⟨q, rfl⟩ := Option.ne_none_iff_exists'.mp hpre
      have hfree : freeBlock k e.block (s.give e blk) =
          .error (.undefined .use_after_free) (s.give e blk) := by
        rw [freeBlock, bind_of_error
          (removeBlockFromPool_stale hgive.toLinked (hgive.stale q rfl).2)]
      rw [hfree]
      exact .stale hcount q l₂ _ rfl rfl
  · rw [if_neg (by omega)]
    exact .keep hcount

end L4Rdma.PA
