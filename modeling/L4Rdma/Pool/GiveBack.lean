import L4Rdma.Pool.Pages

/-!
# Giving back many elements

Whether a sequence of calls of `freePage` is in order depends only on the blocks that the elements
are in. `Tally` keeps what matters of a pool: the blocks of its list with their numbers of used
elements, and whether the first block points back to a destroyed one. Giving an element of a block
back is a step of a tally (`Tally.give`), and the step that has no result is the one in which
`removeBlockFromPool` writes to the destroyed block (`freePage_tally`). `Released` says what a
number of calls of `MEM::free_page` do to the pages and to the index.
-/

namespace L4Rdma.PA

open Lib

/-! ## Tallies -/

/-- The blocks of a pool, their numbers of used elements, and whether the first one points back to a
destroyed block. -/
structure Tally where
  stale : Bool
  blocks : List BlockPtr
  count : BlockPtr → ℕ

/-- An element of the block `b` is given back. -/
def Tally.give (t : Tally) (b : BlockPtr) : Option Tally :=
  if t.count b = 1 then
    if t.blocks.head? = some b then
      if t.stale then none
      else some { t with stale := !(t.blocks.erase b).isEmpty, blocks := t.blocks.erase b }
    else some { t with blocks := t.blocks.erase b }
  else some { t with count := Function.update t.count b (t.count b - 1) }

/-- Elements of the blocks `bs` can be given back one after the other. -/
def Tally.Safe (t : Tally) (bs : List BlockPtr) : Prop := (bs.foldlM Tally.give t).isSome

/-- Whether elements can be given back in an order can be evaluated. -/
instance (t : Tally) (bs : List BlockPtr) : Decidable (t.Safe bs) :=
  inferInstanceAs (Decidable ((bs.foldlM Tally.give t).isSome = true))

variable {W PD BD ED : Type} {k : Kind W PD BD ED} {s s' : State W PD BD ED}
  {pre pre' : Option BlockPtr} {l l' : List BlockPtr} {e : ElementPtr} {t t' : Tally}

/-- The tally of a pool. -/
def tally (s : State W PD BD ED) (pre : Option BlockPtr) (l : List BlockPtr) : Tally where
  stale := pre.isSome
  blocks := l
  count := s.heap.count

/-- The tally says what matters of a pool. -/
structure Tallies (t : Tally) (s : State W PD BD ED) (pre : Option BlockPtr)
    (l : List BlockPtr) : Prop where
  stale : t.stale = pre.isSome
  blocks : t.blocks = l
  count : ∀ b ∈ l, t.count b = s.heap.count b

/-- The tally of a pool is one for it. -/
theorem tallies_tally : Tallies (tally s pre l) s pre l := ⟨rfl, rfl, fun _ _ => rfl⟩

/-- Taking a block out of a list without repetitions. -/
theorem erase_middle {l₁ l₂ : List BlockPtr} {b : BlockPtr} (h : (l₁ ++ b :: l₂).Nodup) :
    (l₁ ++ b :: l₂).erase b = l₁ ++ l₂ := by
  have hnot : b ∉ l₁ := fun hb => by
    rw [List.nodup_middle, List.nodup_cons] at h
    exact h.1 (List.mem_append_left _ hb)
  rw [List.erase_append_right _ hnot, List.erase_cons_head]

/-- Giving up an element takes one from the count of its block. -/
theorem Tallies.keep {blk : Block BD ED} (h : Tallies t s pre l) (he : e.block ∈ l)
    (hblk : s.heap.block e.block = some blk) (hcount : blk.element_count ≠ 1) :
    ∃ t', t.give e.block = some t' ∧ Tallies t' (s.give e blk) pre l := by
  have heq : t.count e.block = blk.element_count :=
    (h.count e.block he).trans (Heap.count_of_block hblk)
  refine ⟨_, if_neg (by rwa [heq]), h.stale, h.blocks, fun b hb => ?_⟩
  by_cases hbe : b = e.block
  · subst hbe
    have hset : (s.give e blk).heap.block e.block = some (blk.give e.index) := Heap.set_block_same
    rw [Heap.count_of_block hset]
    show Function.update t.count e.block (t.count e.block - 1) e.block = _
    rw [Function.update_self, heq]
    rfl
  · show Function.update t.count e.block (t.count e.block - 1) b = _
    rw [Function.update_of_ne hbe, h.count b hb]
    exact (Heap.count_set_of_ne hbe).symm

/-- The last used element of a block takes the block off the list. -/
theorem Tallies.drop {blk : Block BD ED} {l₁ l₂ : List BlockPtr} {s₁ : State W PD BD ED}
    (hrep : Rep s pre (l₁ ++ e.block :: l₂)) (h : Tallies t s pre (l₁ ++ e.block :: l₂))
    (hblk : s.heap.block e.block = some blk) (hcount : blk.element_count = 1)
    (hpre : l₁ = [] → pre = none) (hdrop : Dropped (s.give e blk) s₁ pre e.block l₁ l₂) :
    ∃ t', t.give e.block = some t' ∧
      Tallies t' s₁ (headPrev pre e.block l₁ l₂) (l₁ ++ l₂) := by
  have heq : t.count e.block = 1 := by
    rw [h.count e.block (by simp), Heap.count_of_block hblk, hcount]
  have herase : t.blocks.erase e.block = l₁ ++ l₂ := by
    rw [h.blocks, erase_middle hrep.nodup]
  -- The blocks that stay have the counts of before.
  have hcounts : ∀ c ∈ l₁ ++ l₂, t.count c = s₁.heap.count c := fun c hc => by
    have hne : c ≠ e.block := hrep.toLinked.ne_of_mem hc
    have hmem : c ∈ l₁ ++ e.block :: l₂ := by
      rw [List.mem_append] at hc
      rw [List.mem_append, List.mem_cons]
      tauto
    rw [h.count c hmem, Heap.count_of_body (hdrop.body c hne)]
    exact (Heap.count_set_of_ne hne).symm
  unfold Tally.give
  rw [if_pos heq, herase]
  -- Taking off the first block leaves the next one with a pointer to it, which the tally notes.
  cases l₁ with
  | nil =>
    obtain rfl := hpre rfl
    have hstale : t.stale = false := h.stale
    rw [if_pos (by rw [h.blocks]; rfl), hstale]
    refine ⟨_, rfl, ?_, rfl, hcounts⟩
    unfold headPrev
    cases l₂ <;> rfl
  | cons a l₁ =>
    have hne : a ≠ e.block := hrep.toLinked.ne_of_mem (by simp)
    have hhead : t.blocks.head? ≠ some e.block := by
      rw [h.blocks]
      exact fun heq => hne (Option.some.inj heq)
    rw [if_neg hhead]
    exact ⟨_, rfl, h.stale, rfl, hcounts⟩

/-- Giving back the last used element of a first block that points back to a destroyed block is not
a step of the tally. -/
theorem Tallies.stale_head {blk : Block BD ED} {q : BlockPtr} {l₂ : List BlockPtr}
    (h : Tallies t s (some q) (e.block :: l₂)) (hblk : s.heap.block e.block = some blk)
    (hcount : blk.element_count = 1) : t.give e.block = none := by
  have heq : t.count e.block = 1 := by
    rw [h.count e.block List.mem_cons_self, Heap.count_of_block hblk, hcount]
  have hstale : t.stale = true := h.stale
  unfold Tally.give
  rw [if_pos heq, if_pos (by rw [h.blocks]; rfl), hstale]
  rfl

/-- `freePage` does to a pool what giving an element of the block back does to its tally, when the
content of a block can be given back. -/
theorem freePage_tally (k : Kind W PD BD ED) (h : Rep s pre l) (ht : Tallies t s pre l)
    (he : UsedAt s l e) (hrel : ∀ p bd err w, k.release p bd s.world ≠ .error err w) :
    (∃ t' s' pre' l', t.give e.block = some t' ∧ freePage k e s = .ok () s' ∧ Rep s' pre' l' ∧
      Tallies t' s' pre' l' ∧ Given s s' l l' e ∧
      (s'.world = s.world ∨ ∃ p bd, k.release p bd s.world = .ok () s'.world)) ∨
    (t.give e.block = none ∧
      ∃ s', freePage k e s = .error (.undefined .use_after_free) s') := by
  obtain ⟨blk, hblk⟩ := h.exist e.block he.1
  have hout := freePage_cases (k := k) h he hblk
  cases hres : freePage k e s with
  | ok u s' =>
    rw [hres] at hout
    refine .inl ?_
    -- The pool and its tally go through the same cases.
    cases hout with
    | keep hcount =>
      obtain ⟨hgiven, hrep⟩ := given_keep h he hblk hcount
      obtain ⟨t', hgive, ht'⟩ := ht.keep he.1 hblk hcount
      exact ⟨t', _, pre, l, hgive, rfl, hrep, ht', hgiven, .inl rfl⟩
    | drop hcount l₁ l₂ s₁ p hl hpre hp hrel' hgone hdrop hrep =>
      subst hl
      obtain ⟨t', hgive, ht'⟩ := ht.drop h hblk hcount hpre hdrop
      exact ⟨t', _, _, _, hgive, rfl, hrep, ht', given_drop h he hblk hcount hdrop,
        .inr ⟨p, blk.data, hrel'⟩⟩
  | error err s' =>
    rw [hres] at hout
    cases hout with
    | stale hcount q l₂ s₁ hpre hl =>
      subst hpre
      subst hl
      exact .inr ⟨ht.stale_head hblk hcount, _, rfl⟩
    | throws hcount l₁ l₂ s₁ m p w hl hpre hp hrel' hdrop hrep =>
      exact absurd hrel' (hrel p blk.data _ w)

end L4Rdma.PA

namespace L4Rdma.MEM

open Lib PA

variable {s s' s₀ : State} {pre pre' : Option BlockPtr} {l l' l₀ : List BlockPtr}
  {e e' : ElementPtr} {ps qs : List ℕ} {p q : ℕ} {t t' : Tally}

/-! ## Freeing pages -/

/-- The kernel unmaps every region. -/
def Unmaps (r : L4Re) : Prop := ∀ n g, r.unmap n g = true

/-- The page at an address is used, and in the index. -/
def Holds (s : State) (l : List BlockPtr) (p : ℕ) : Prop :=
  ∃ e, s.pool.data.index p = some e ∧ UsedAt s l e ∧ physAt s e = some p

/-- The block of the page that the index has for an address. -/
def blockOf (s : State) (p : ℕ) : BlockPtr := ((s.pool.data.index p).map ElementPtr.block).getD 0

/-- The pages with the addresses `ps` have been given back between `s₀` and `s`. -/
structure Released (s₀ s : State) (l₀ l : List BlockPtr) (ps : List ℕ) : Prop where
  used : ∀ e, UsedAt s l e ↔ UsedAt s₀ l₀ e ∧ ∀ p ∈ ps, s₀.pool.data.index p ≠ some e
  index : ∀ q, s.pool.data.index q = if q ∈ ps then none else s₀.pool.data.index q
  size : s.pool.size + ps.length = s₀.pool.size
  services : s.world.services = s₀.world.services

/-- Nothing has been given back yet. -/
theorem released_nil : Released s s l l [] where
  used e := by simp
  index q := by simp
  size := rfl
  services := rfl

/-- `free_dma_mem` returns when the kernel unmaps the region, and leaves the kernel's services. -/
theorem freeDmaMem_unmaps {d : Dma} (h : Unmaps d.services) (size : ℕ) (m : DmaMem) :
    ∃ d', freeDmaMem size m d = .ok () d' ∧ d'.services = d.services ∧
      d'.mapped = d.mapped.flatMap fun r => r.minus ⟨m.phys, size⟩ := by
  have hunmap : ¬ (!d.services.unmap d.requests ⟨m.phys, size⟩) = true := by
    rw [h]
    exact Bool.false_ne_true
  unfold freeDmaMem
  rw [get_bind, modify_bind, if_neg hunmap]
  exact ⟨_, rfl, rfl, rfl⟩

/-- `free_page` at an address in the index takes the address out, and gives the page back. -/
theorem freePage_of_index (h : s.pool.data.index p = some e) :
    MEM.freePage p s =
      PA.freePage kind e (withIndex s (Function.update s.pool.data.index p none)) := by
  unfold MEM.freePage
  rw [get_bind, h]
  rfl

/-- One more page has been given back. -/
theorem Released.given {s' : State} {l' : List BlockPtr} {e : ElementPtr} (h : Released s₀ s l₀ l qs)
    (hindex : s₀.pool.data.index p = some e)
    (hgiven : Given (withIndex s (Function.update s.pool.data.index p none)) s' l l' e)
    (hservices : s'.world.services = s.world.services) : Released s₀ s' l₀ l' (qs ++ [p]) := by
  refine ⟨fun e' => ?_, fun q => ?_, ?_, hservices.trans h.services⟩
  · have hstep : UsedAt s' l' e' ↔ UsedAt s l e' ∧ e' ≠ e := hgiven.used e'
    rw [hstep, h.used]
    constructor
    · rintro ⟨⟨hu, hall⟩, hne⟩
      refine ⟨hu, fun q hq heq => ?_⟩
      rcases List.mem_append.mp hq with hq | hq
      · exact hall q hq heq
      · obtain rfl := List.mem_singleton.mp hq
        exact hne (Option.some.inj (heq.symm.trans hindex))
    · rintro ⟨hu, hall⟩
      refine ⟨⟨hu, fun q hq => hall q (List.mem_append_left _ hq)⟩, fun heq => ?_⟩
      exact hall p (List.mem_append_right _ List.mem_cons_self) (heq ▸ hindex)
  · rw [hgiven.pool_data]
    show Function.update s.pool.data.index p none q = _
    by_cases hqp : q = p
    · subst hqp
      rw [Function.update_self, if_pos (List.mem_append_right _ List.mem_cons_self)]
    · rw [Function.update_of_ne hqp, h.index]
      simp [hqp]
  · have hsize : s'.pool.size + 1 = s.pool.size := hgiven.size
    have htotal := h.size
    rw [List.length_append, List.length_singleton]
    omega

/-- `free_page` at the address of a page that has not been given back yet. -/
theorem Released.freePage (h : Released s₀ s l₀ l qs) (hrep : Rep s pre l)
    (ht : Tallies t s pre l) (hunmaps : Unmaps s.world.services) (hp : Holds s₀ l₀ p)
    (hnew : p ∉ qs) (hqs : ∀ q ∈ qs, Holds s₀ l₀ q) :
    (∃ t' s' pre' l', t.give (blockOf s₀ p) = some t' ∧ MEM.freePage p s = .ok () s' ∧
      Rep s' pre' l' ∧ Tallies t' s' pre' l' ∧ Released s₀ s' l₀ l' (qs ++ [p])) ∨
    (t.give (blockOf s₀ p) = none ∧
      ∃ s', MEM.freePage p s = .error (.undefined .use_after_free) s') := by
  obtain ⟨e, hindex, hused₀, hphys⟩ := hp
  -- No page that has been given back is at this place.
  have hdiff : ∀ q ∈ qs, s₀.pool.data.index q ≠ some e := fun q hq heq => by
    obtain ⟨e', hindex', -, hphys'⟩ := hqs q hq
    obtain rfl : e = e' := Option.some.inj (heq.symm.trans hindex')
    obtain rfl : p = q := Option.some.inj (hphys.symm.trans hphys')
    exact hnew hq
  have hused : UsedAt s l e := (h.used e).mpr ⟨hused₀, hdiff⟩
  have hindex' : s.pool.data.index p = some e := by rw [h.index, if_neg hnew, hindex]
  have hblock : blockOf s₀ p = e.block := by
    rw [blockOf, hindex]
    rfl
  -- The page is taken out of the index first.
  let s₁ : State := withIndex s (Function.update s.pool.data.index p none)
  have hfree : MEM.freePage p s = PA.freePage kind e s₁ := freePage_of_index hindex'
  have hrel : ∀ pool bd err w, kind.release pool bd s₁.world ≠ .error err w := by
    intro pool bd err w herr
    obtain ⟨d', hok, -⟩ := freeDmaMem_unmaps hunmaps (blockBytes pool) bd
    have herr' : freeDmaMem (blockBytes pool) bd s.world = .error err w := herr
    rw [hok] at herr'
    cases herr'
  rw [hblock, hfree]
  rcases freePage_tally kind (s := s₁) (Rep.withIndex hrep _) ⟨ht.stale, ht.blocks, ht.count⟩ hused
    hrel with ⟨t', s', pre', l', hgive, hok, hrep', ht', hgiven, hworld⟩ | ⟨hgive, s', herr⟩
  · have hservices : s'.world.services = s.world.services := by
      rcases hworld with hworld | ⟨pool, bd, hok'⟩
      · rw [hworld]
        rfl
      · obtain ⟨d', hd, hservices, -⟩ := freeDmaMem_unmaps hunmaps (blockBytes pool) bd
        have hd' : freeDmaMem (blockBytes pool) bd s.world = .ok () s'.world := hok'
        rw [hd] at hd'
        cases hd'
        exact hservices
    exact .inl ⟨t', s', pre', l', hgive, hok, hrep', ht', h.given hindex hgiven hservices⟩
  · exact .inr ⟨hgive, s', herr⟩

/-- `free_page` for one address after the other. -/
def freePages : List ℕ → Exec State Unit
  | [] => pure ()
  | p :: ps => do
    MEM.freePage p
    freePages ps

/-- Pages of the pool are given back one after the other if the tally allows it, and otherwise an
access to a destroyed block is made. -/
theorem Released.freePages (h : Released s₀ s l₀ l qs) (hrep : Rep s pre l)
    (ht : Tallies t s pre l) (hunmaps : Unmaps s.world.services)
    (hps : ∀ p ∈ ps, Holds s₀ l₀ p) (hnodup : (qs ++ ps).Nodup)
    (hqs : ∀ q ∈ qs, Holds s₀ l₀ q) :
    (∃ t' s' pre' l', (ps.map (blockOf s₀)).foldlM Tally.give t = some t' ∧
      freePages ps s = .ok () s' ∧ Rep s' pre' l' ∧ Tallies t' s' pre' l' ∧
      Released s₀ s' l₀ l' (qs ++ ps)) ∨
    ((ps.map (blockOf s₀)).foldlM Tally.give t = none ∧
      ∃ s', freePages ps s = .error (.undefined .use_after_free) s') := by
  -- The induction is on the pages that are left, with those that have been given back in `qs`.
  induction ps generalizing s pre l qs t with
  | nil =>
    rw [List.append_nil]
    exact .inl ⟨t, s, pre, l, rfl, rfl, hrep, ht, h⟩
  | cons p ps ih =>
    have hnew : p ∉ qs := fun hp => by
      rw [List.nodup_append] at hnodup
      exact hnodup.2.2 p hp p List.mem_cons_self rfl
    have hp := hps p List.mem_cons_self
    rw [List.map_cons, List.foldlM_cons]
    rcases h.freePage hrep ht hunmaps hp hnew hqs with
      ⟨t', s', pre', l', hgive, hok, hrep', ht', h'⟩ | ⟨hgive, s', herr⟩
    · -- The kernel is the same one after the page.
      have hunmaps' : Unmaps s'.world.services := by
        rw [h'.services, ← h.services]
        exact hunmaps
      have hqs' : ∀ q ∈ qs ++ [p], Holds s₀ l₀ q := fun q hq => by
        rcases List.mem_append.mp hq with hq | hq
        · exact hqs q hq
        · exact List.mem_singleton.mp hq ▸ hp
      have hnext := ih h' hrep' ht' hunmaps' (fun q hq => hps q (List.mem_cons_of_mem _ hq))
        (by rwa [List.append_assoc]) hqs'
      rw [List.append_assoc] at hnext
      rw [hgive]
      -- What the rest does, the whole does.
      rcases hnext with ⟨t'', s'', pre'', l'', hfold, hok', hrest⟩ | ⟨hfold, s'', herr⟩
      · exact .inl ⟨t'', s'', pre'', l'', hfold, (bind_of_ok hok).trans hok', hrest⟩
      · exact .inr ⟨hfold, s'', (bind_of_ok hok).trans herr⟩
    · rw [hgive]
      exact .inr ⟨rfl, s', bind_of_error herr⟩

end L4Rdma.MEM
