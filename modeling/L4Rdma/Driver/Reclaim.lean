import L4Rdma.Driver.Handler
import L4Rdma.Pool.GiveBack

/-!
# Reclaiming all pages

`reclaim_all_pages` asks the device for pages until it has none left. The device chooses how many of
its pages it gives back in a round, and in which order. What it gives back over all rounds is
`givenBack`. The pages are freed in that order, which is in order exactly when the tally of the pool
allows it (`Tally.Safe`), and the number of pages is returned as a signed one. So all pages are
reclaimed exactly when the order is safe and the number of pages fits (`reclaimsAll_iff`).
-/

namespace L4Rdma.Driver

open Lib Device PA

variable {δ : Type} {ctx ctx' ctx₀ : MLX5_Context δ} {held : δ → Finset ℕ} {D : CMD.HCA δ}
  {pre pre' : Option BlockPtr} {l l' l₀ : List BlockPtr} {d : δ} {t t' : Tally} {ps : List ℕ}
  {fuel : ℕ}

/-! ## The device -/

/-- The address of page `i` in the words of a reply. -/
def pageAt (word : ℕ → Word) (i : ℕ) : ℕ := address (word (2 + i * 2)) (word (2 + i * 2 + 1))

/-- The addresses of the pages that a reply names. -/
def named (r : CMD.Reply) : List ℕ := (List.range (r.output 0).toNat).map (pageAt r.output)

/-- The device answers each request for pages with the addresses of different pages that it holds,
of at least one as long as it holds any, and does not hold them any more. -/
structure GivesBack (D : CMD.HCA δ) (held : δ → Finset ℕ) : Prop where
  ok : ∀ d n, (D.exec d (reclaimCommand n)).2.Ok
  distinct : ∀ d n, (named (D.exec d (reclaimCommand n)).2).Nodup
  holds : ∀ d n, ∀ p ∈ named (D.exec d (reclaimCommand n)).2, p ∈ held d
  le : ∀ d n, 0 < n → ((D.exec d (reclaimCommand n)).2.output 0).toNat ≤ n
  progress : ∀ d n, 0 < n → (held d).Nonempty → named (D.exec d (reclaimCommand n)).2 ≠ []
  rest : ∀ d n, held (D.exec d (reclaimCommand n)).1 =
    held d \ (named (D.exec d (reclaimCommand n)).2).toFinset

/-- The addresses that the device names in a number of rounds of `reclaim_all_pages`. -/
def givenBack (D : CMD.HCA δ) : ℕ → δ → List ℕ
  | 0, _ => []
  | fuel + 1, d =>
    named (D.exec d (reclaimCommand 3200)).2 ++
      givenBack D fuel (D.exec d (reclaimCommand 3200)).1

/-- A reply names as many pages as it says. -/
theorem length_named (r : CMD.Reply) : (named r).length = (r.output 0).toNat := by
  rw [named, List.length_map, List.length_range]

/-- A round leaves fewer pages with the device, by the number of those that it names. -/
theorem GivesBack.card_rest (h : GivesBack D held) (d : δ) (n : ℤ) :
    (held (D.exec d (reclaimCommand n)).1).card + (named (D.exec d (reclaimCommand n)).2).length =
      (held d).card := by
  have hsub : (named (D.exec d (reclaimCommand n)).2).toFinset ⊆ held d := fun p hp =>
    h.holds d n p (List.mem_toFinset.mp hp)
  rw [h.rest, ← List.toFinset_card_of_nodup (h.distinct d n)]
  exact Finset.card_sdiff_add_card_eq_card hsub

/-- A device that holds no pages names none. -/
theorem GivesBack.named_nil (h : GivesBack D held) {n : ℤ} (hempty : held d = ∅) :
    named (D.exec d (reclaimCommand n)).2 = [] := by
  refine List.eq_nil_iff_forall_not_mem.mpr fun p hp => ?_
  have hmem := h.holds d n p hp
  rw [hempty] at hmem
  exact Finset.notMem_empty p hmem

/-- So it gives none back, however often it is asked. -/
theorem GivesBack.givenBack_nil (h : GivesBack D held) (hempty : held d = ∅) :
    givenBack D fuel d = [] := by
  induction fuel generalizing d with
  | zero => rfl
  | succ fuel ih =>
    have hrest : held (D.exec d (reclaimCommand 3200)).1 = ∅ := by
      rw [h.rest, hempty, Finset.empty_sdiff]
    rw [givenBack, h.named_nil hempty, ih hrest, List.append_nil]

/-- As many rounds as the device holds pages are enough for all of them to be named. -/
theorem GivesBack.givenBack_eq (h : GivesBack D held) {n : ℕ} (hn : (held d).card ≤ n)
    (hfuel : n ≤ fuel) : givenBack D fuel d = givenBack D n d := by
  induction n generalizing d fuel with
  | zero =>
    have hempty : held d = ∅ := Finset.card_eq_zero.mp (Nat.le_zero.mp hn)
    rw [h.givenBack_nil hempty, h.givenBack_nil hempty]
  | succ n ih =>
    rcases (held d).eq_empty_or_nonempty with hempty | hne
    · rw [h.givenBack_nil hempty, h.givenBack_nil hempty]
    · obtain ⟨fuel, rfl⟩ := Nat.exists_eq_succ_of_ne_zero (Nat.ne_of_gt (Nat.lt_of_lt_of_le
        (Nat.succ_pos n) hfuel))
      have hcard := h.card_rest d 3200
      have hpos := List.length_pos_of_ne_nil (h.progress d 3200 (by norm_num) hne)
      rw [givenBack, givenBack, ih (by omega) (Nat.le_of_succ_le_succ hfuel)]

/-- All pages that the device holds are named, each of them once. -/
theorem GivesBack.givenBack_perm (h : GivesBack D held) (hfuel : (held d).card ≤ fuel) :
    (givenBack D fuel d).Nodup ∧ ∀ p, p ∈ givenBack D fuel d ↔ p ∈ held d := by
  induction fuel generalizing d with
  | zero =>
    -- Without a round the device must hold no page.
    have hempty : held d = ∅ := Finset.card_eq_zero.mp (Nat.le_zero.mp hfuel)
    rw [givenBack, hempty]
    exact ⟨List.nodup_nil, fun p => by simp⟩
  | succ fuel ih =>
    rcases (held d).eq_empty_or_nonempty with hempty | hne
    · rw [h.givenBack_nil hempty, hempty]
      exact ⟨List.nodup_nil, fun p => by simp⟩
    · -- The first reply names some pages, and the device does not hold them any more.
      have hcard := h.card_rest d 3200
      have hpos := List.length_pos_of_ne_nil (h.progress d 3200 (by norm_num) hne)
      obtain ⟨hnodup, hmem⟩ := ih (d := (D.exec d (reclaimCommand 3200)).1) (by omega)
      have hrest : ∀ p, p ∈ givenBack D fuel (D.exec d (reclaimCommand 3200)).1 ↔
          p ∈ held d ∧ p ∉ named (D.exec d (reclaimCommand 3200)).2 := fun p => by
        rw [hmem, h.rest, Finset.mem_sdiff, List.mem_toFinset]
      rw [givenBack]
      refine ⟨List.nodup_append.mpr ⟨h.distinct d 3200, hnodup, ?_⟩, fun p => ?_⟩
      · intro p hp q hq heq
        exact ((hrest q).mp hq).2 (heq ▸ hp)
      · rw [List.mem_append, hrest]
        constructor
        · rintro (hp | hp)
          · exact h.holds d 3200 p hp
          · exact hp.1
        · intro hp
          -- A page that it holds is named now, or it is held after that.
          by_cases hnamed : p ∈ named (D.exec d (reclaimCommand 3200)).2
          · exact .inl hnamed
          · exact .inr ⟨hp, hnamed⟩

/-! ## One round -/

/-- The pool of memory pages is a part of the context. -/
theorem memLens_lawful : (memLens (δ := δ)).Lawful := ⟨fun _ _ => rfl, fun _ _ _ => rfl, fun _ => rfl⟩

/-- The loop of `reclaim_pages` frees the pages whose addresses are in the output. -/
theorem forFrom_reclaimPage {output : Buf} (hsize : output.size = CMD.OMB_MAX_DATA + 2) (k : ℕ) :
    ∀ (i : ℕ) (u : Unit) (ctx : MLX5_Context δ), i + k ≤ 3200 →
      forFrom (reclaimPage output) i k u ctx =
        memLens.zoom (MEM.freePages ((List.range' i k).map (pageAt output.word))) ctx := by
  have hsize' : output.size = 128 * 50 + 2 := hsize
  induction k with
  | zero => exact fun i u ctx _ => (memLens_lawful.zoom_pure () ctx).symm
  | succ k ih =>
    intro i u ctx hi
    have hround : reclaimPage output i u ctx = memLens.zoom (MEM.freePage (pageAt output.word i)) ctx :=
      (bind_of_ok (Buf.read_of_lt (by omega) ctx)).trans
        (bind_of_ok (Buf.read_of_lt (by omega) ctx))
    rw [List.range'_succ, List.map_cons, MEM.freePages, memLens_lawful.zoom_bind, forFrom]
    cases hfree : memLens.zoom (MEM.freePage (pageAt output.word i)) ctx with
    | ok u' ctx' =>
      rw [bind_of_ok (hround.trans hfree), bind_of_ok hfree]
      exact ih (i + 1) u' ctx' (by omega)
    | error e ctx' => rw [bind_of_error (hround.trans hfree), bind_of_error hfree]

/-- A call of `reclaim_pages` frees the pages that the device names, if they are not too many. -/
theorem reclaimPages_eq (hrok : (D.exec ctx.hca.dev (reclaimCommand 3200)).2.Ok)
    (hle : ((D.exec ctx.hca.dev (reclaimCommand 3200)).2.output 0).toNat ≤ 3200)
    (hidle : CMD.Idle ctx.hca.args) :
    ∃ w, w.dev = (D.exec ctx.hca.dev (reclaimCommand 3200)).1 ∧ CMD.Idle w.args ∧
      reclaimPages D 3200 ctx =
        (memLens.zoom (MEM.freePages (named (D.exec ctx.hca.dev (reclaimCommand 3200)).2)) >>=
          fun _ => pure ((D.exec ctx.hca.dev (reclaimCommand 3200)).2.output 0))
            { ctx with hca := w } := by
  have hlength := reclaimOutputLength_ok (n := 3200) (by norm_num) (by norm_num) ctx
  obtain ⟨w, hdev, -, hidle', -, hanswered, hissue⟩ :=
    CMD.issue_cases D hidle (fits_reclaim (n := 3200) (by norm_num)) .MANAGE_PAGES 0x2
  rw [command_reclaim] at hdev hanswered hissue
  have hok := hissue.resolve_right fun hbad => hbad.1 hrok
  generalize hr : (D.exec ctx.hca.dev (reclaimCommand 3200)).2 = r at hanswered hle
  have hcount : ioread32be ((w.args.cqe ctx.hca.args.cq.head).cod.output 0) = r.output 0 :=
    hanswered.inline 0 (by decide)
  -- The output fits into its array.
  have hroom : 2 + 2 * (3200 : ℤ).toNat ≤ Buf.size ⟨CMD.OMB_MAX_DATA + 2, ctx.uninit⟩ :=
    show 2 + 2 * (3200 : ℤ).toNat ≤ CMD.OMB_MAX_DATA + 2 by decide
  obtain ⟨output, hget, hsize, hwords⟩ := CMD.getCmdOutput_ok hanswered (by decide) hroom
  -- The pages in the output are those that the reply names.
  have hpages : (List.range' 0 (r.output 0).toNat).map (pageAt output.word) = named r := by
    rw [named, List.range_eq_range']
    refine List.map_congr_left fun i hi => ?_
    rw [List.mem_range'_1] at hi
    have hlt : 2 + i * 2 + 1 < 2 + 2 * (3200 : ℤ).toNat := by omega
    rw [pageAt, pageAt, hwords _ (Nat.lt_of_succ_lt hlt), hwords _ hlt]
  have hint : (r.output 0).toInt.toNat = (r.output 0).toNat := by
    rw [BitVec.toInt_eq_toNat_of_lt (by omega)]
    exact Int.toNat_natCast _
  -- So the loop frees just these pages.
  have hloop := forFrom_reclaimPage (δ := δ) hsize (r.output 0).toNat 0 () { ctx with hca := w }
    (by omega)
  rw [hpages] at hloop
  refine ⟨w, hdev, hidle', ?_⟩
  unfold reclaimPages
  refine (bind_of_ok hlength).trans ((bind_of_ok (get_apply ctx)).trans ?_)
  have hissued := Lens.zoom_of_ok (l := hcaLens) (t := ctx) hok
  refine (bind_of_ok hissued).trans ((bind_of_ok (get_apply _)).trans ?_)
  refine (bind_of_ok (Lens.zoom_of_ok (by exact hget))).trans ?_
  have hcount' : ioread32be (((hcaLens.set w ctx).hca.args.cqe ctx.hca.args.cq.head).cod.output 0) =
      r.output 0 := hcount
  rw [hcount', hint]
  exact bind_of_eq hloop

/-! ## All rounds -/

/-- The state of the loop: the pages `ps` have been given back since `ctx₀`, and the device holds the
rest of `H`. -/
structure Reclaiming (held : δ → Finset ℕ) (ctx₀ ctx : MLX5_Context δ) (H : Finset ℕ) (t : Tally)
    (pre : Option BlockPtr) (l₀ l : List BlockPtr) (ps : List ℕ) : Prop where
  idle : CMD.Idle ctx.hca.args
  rep : Rep ctx.mem_page_pool pre l
  tallies : Tallies t ctx.mem_page_pool pre l
  released : MEM.Released ctx₀.mem_page_pool ctx.mem_page_pool l₀ l ps
  unmaps : MEM.Unmaps ctx.mem_page_pool.world.services
  pages : ∀ p ∈ H, MEM.Holds ctx₀.mem_page_pool l₀ p
  nodup : ps.Nodup
  sub : ∀ p ∈ ps, p ∈ H
  held : held ctx.hca.dev = H \ ps.toFinset

variable {H : Finset ℕ}

/-- The blocks of the pages with the addresses `ps`. -/
def blocksOf (ctx : MLX5_Context δ) (ps : List ℕ) : List BlockPtr :=
  ps.map (MEM.blockOf ctx.mem_page_pool)

/-- One round gives back the pages that the device names, if the tally allows it. -/
theorem Reclaiming.round (hD : GivesBack D held) (h : Reclaiming held ctx₀ ctx H t pre l₀ l ps) :
    let r := (D.exec ctx.hca.dev (reclaimCommand 3200)).2
    (∃ t' ctx' pre' l', (blocksOf ctx₀ (named r)).foldlM Tally.give t = some t' ∧
      reclaimPages D 3200 ctx = .ok (r.output 0) ctx' ∧
      ctx'.hca.dev = (D.exec ctx.hca.dev (reclaimCommand 3200)).1 ∧
      Reclaiming held ctx₀ ctx' H t' pre' l₀ l' (ps ++ named r)) ∨
    ((blocksOf ctx₀ (named r)).foldlM Tally.give t = none ∧
      ∃ e ctx', reclaimPages D 3200 ctx = .error e ctx') := by
  intro r
  have hle : ((D.exec ctx.hca.dev (reclaimCommand 3200)).2.output 0).toNat ≤ 3200 := by
    exact_mod_cast hD.le ctx.hca.dev 3200 (by norm_num)
  obtain ⟨w, hdev, hidle, heq⟩ := reclaimPages_eq (hD.ok _ _) hle h.idle
  -- They are pages that the device holds, so they have not been given back before.
  have hnamed : ∀ p ∈ named r, p ∈ H ∧ p ∉ ps := fun p hp => by
    have hmem := hD.holds ctx.hca.dev 3200 p hp
    rw [h.held, Finset.mem_sdiff, List.mem_toFinset] at hmem
    exact hmem
  have hnodup : (ps ++ named r).Nodup :=
    List.nodup_append.mpr ⟨h.nodup, hD.distinct _ _, fun p hp q hq hpq =>
      (hnamed q hq).2 (hpq ▸ hp)⟩
  -- The pool frees them if the tally allows it.
  rcases h.released.freePages h.rep h.tallies h.unmaps (fun p hp => h.pages p (hnamed p hp).1) hnodup
    (fun q hq => h.pages q (h.sub q hq)) with
    ⟨t', s', pre', l', hfold, hok, hrep, htallies, hreleased⟩ | ⟨hfold, s', herr⟩
  · have hzoom : memLens.zoom (MEM.freePages (named r)) { ctx with hca := w } =
        .ok () { ctx with hca := w, mem_page_pool := s' } := Lens.zoom_of_ok hok
    refine .inl ⟨t', { ctx with hca := w, mem_page_pool := s' }, pre', l', hfold,
      heq.trans (bind_of_ok hzoom), hdev, hidle, hrep, htallies, hreleased, ?_, h.pages, hnodup,
      fun p hp => ?_, ?_⟩
    · show MEM.Unmaps s'.world.services
      rw [hreleased.services, ← h.released.services]
      exact h.unmaps
    · rcases List.mem_append.mp hp with hp | hp
      · exact h.sub p hp
      · exact (hnamed p hp).1
    · -- The device holds the others.
      show held w.dev = _
      rw [hdev, hD.rest, h.held, List.toFinset_append, sdiff_sdiff_left]
      rfl
  · have hzoom : memLens.zoom (MEM.freePages (named r)) { ctx with hca := w } =
        .error (.undefined .use_after_free) { ctx with hca := w, mem_page_pool := s' } :=
      Lens.zoom_of_error herr
    exact .inr ⟨hfold, _, _, heq.trans (bind_of_error hzoom)⟩

/-- The pages that have not been given back yet are those that the device holds. -/
theorem Reclaiming.card_eq (h : Reclaiming held ctx₀ ctx H t pre l₀ l ps) :
    ps.length + (held ctx.hca.dev).card = H.card := by
  have hsub : ps.toFinset ⊆ H := fun p hp => h.sub p (List.mem_toFinset.mp hp)
  rw [h.held, ← List.toFinset_card_of_nodup h.nodup, Nat.add_comm]
  exact Finset.card_sdiff_add_card_eq_card hsub

/-- The number in a reply is the number of the pages that it names. -/
theorem GivesBack.toInt_output (h : GivesBack D held) (d : δ) :
    ((D.exec d (reclaimCommand 3200)).2.output 0).toInt =
      (named (D.exec d (reclaimCommand 3200)).2).length := by
  have hle := h.le d 3200 (by norm_num)
  rw [length_named]
  exact BitVec.toInt_eq_toNat_of_lt (by omega)

/-- A reply names no pages exactly when its number is zero. -/
theorem named_eq_nil {r : CMD.Reply} : named r = [] ↔ r.output 0 = 0 := by
  rw [← List.length_eq_zero_iff, length_named]
  exact ⟨fun h => BitVec.eq_of_toNat_eq h, fun h => by rw [h]; rfl⟩

/-- A number of pages that fits in 32 bits with a sign. -/
theorem int32_ok {σ : Type} {n : ℕ} (h : n < 2 ^ 31) (s : σ) : int32 (n : ℤ) s = .ok (n : ℤ) s := by
  unfold int32
  rw [if_pos ⟨by omega, by omega⟩]
  rfl

/-- A number that does not. -/
theorem int32_error {σ : Type} {n : ℕ} (h : ¬ n < 2 ^ 31) (s : σ) :
    int32 (n : ℤ) s = .error (.undefined .signed_overflow) s := by
  unfold int32
  rw [if_neg fun hn => h (by omega)]
  rfl

/-- The last round, in which the device has no pages left. -/
theorem Reclaiming.last (hD : GivesBack D held) (hempty : held ctx.hca.dev = ∅)
    (h : Reclaiming held ctx₀ ctx H t pre l₀ l ps) (hlt : ps.length < 2 ^ 31) (n : ℕ) :
    ps.length = H.card ∧ ∃ ctx' t' pre' l', reclaimRounds D (n + 1) ps.length ctx =
        .ok (H.card : ℤ) ctx' ∧
      Reclaiming held ctx₀ ctx' H t' pre' l₀ l' ps ∧ held ctx'.hca.dev = ∅ := by
  have hnil : named (D.exec ctx.hca.dev (reclaimCommand 3200)).2 = [] := hD.named_nil hempty
  have hcard : ps.length = H.card := by
    have hsum := h.card_eq
    rwa [hempty, Finset.card_empty, Nat.add_zero] at hsum
  have hzero := named_eq_nil.mp hnil
  rcases h.round hD with ⟨t', ctx', pre', l', -, hok, hdev, h'⟩ | ⟨hfold, -⟩
  · rw [hnil, List.append_nil] at h'
    have hrest : held ctx'.hca.dev = ∅ := by
      rw [hdev, hD.rest, hempty, Finset.empty_sdiff]
    refine ⟨hcard, ctx', t', pre', l', ?_, h', hrest⟩
    have hint : int32 ((ps.length : ℤ) + ((D.exec ctx.hca.dev (reclaimCommand 3200)).2.output 0).toInt)
        ctx' = .ok (H.card : ℤ) ctx' := by
      rw [hD.toInt_output, hnil, List.length_nil, Nat.cast_zero, Int.add_zero, ← hcard]
      exact int32_ok hlt ctx'
    unfold reclaimRounds
    refine (bind_of_ok hok).trans ((bind_of_ok hint).trans ?_)
    rw [if_pos hzero]
    rfl
  · rw [hnil] at hfold
    cases hfold

/-- The rounds give back all pages that the device holds, if the tally allows the order in which it
names them, and if the number of all pages is a signed one. Otherwise they stop. -/
theorem Reclaiming.rounds (hD : GivesBack D held) {n : ℕ} (hn : (held ctx.hca.dev).card ≤ n)
    (h : Reclaiming held ctx₀ ctx H t pre l₀ l ps) (hlt : ps.length < 2 ^ 31) :
    (t.Safe (blocksOf ctx₀ (givenBack D n ctx.hca.dev)) ∧ H.card < 2 ^ 31 ∧
      ∃ ctx' t' pre' l' qs, reclaimRounds D (n + 1) ps.length ctx = .ok (H.card : ℤ) ctx' ∧
        Reclaiming held ctx₀ ctx' H t' pre' l₀ l' qs ∧ held ctx'.hca.dev = ∅) ∨
    (¬ (t.Safe (blocksOf ctx₀ (givenBack D n ctx.hca.dev)) ∧ H.card < 2 ^ 31) ∧
      ∃ e ctx', reclaimRounds D (n + 1) ps.length ctx = .error e ctx') := by
  -- By induction on the number of pages that are left.
  induction n generalizing ctx t pre l ps with
  | zero =>
    have hempty : held ctx.hca.dev = ∅ := Finset.card_eq_zero.mp (Nat.le_zero.mp hn)
    -- The device holds no page, and this round is the last one.
    obtain ⟨hcard, ctx', t', pre', l', hlast⟩ := h.last hD hempty hlt 0
    exact .inl ⟨rfl, hcard ▸ hlt, ctx', t', pre', l', ps, hlast⟩
  | succ n ih =>
    rcases (held ctx.hca.dev).eq_empty_or_nonempty with hempty | hne
    · obtain ⟨hcard, ctx', t', pre', l', hlast⟩ := h.last hD hempty hlt (n + 1)
      rw [hD.givenBack_nil hempty]
      exact .inl ⟨rfl, hcard ▸ hlt, ctx', t', pre', l', ps, hlast⟩
    · -- The device names some of its pages.
      have hsome := hD.progress ctx.hca.dev 3200 (by norm_num) hne
      have hsum := h.card_eq
      have hleft := hD.card_rest ctx.hca.dev 3200
      have hpos := List.length_pos_of_ne_nil hsome
      have hnum := hD.toInt_output ctx.hca.dev
      have hnonzero : (D.exec ctx.hca.dev (reclaimCommand 3200)).2.output 0 ≠ 0 := fun h0 =>
        hsome (named_eq_nil.mpr h0)
      rw [givenBack, blocksOf, List.map_append, Tally.Safe, List.foldlM_append]
      rcases h.round hD with ⟨t', ctx', pre', l', hfold, hok, hdev, h'⟩ | ⟨hfold, e, ctx', herr⟩
      · -- The pool has freed the pages of this round.
        rw [blocksOf] at hfold
        rw [hfold]
        have hlength := @List.length_append _ ps (named (D.exec ctx.hca.dev (reclaimCommand 3200)).2)
        -- The number of all pages so far, as the loop adds it up.
        have hcast : (ps.length : ℤ) + ((D.exec ctx.hca.dev (reclaimCommand 3200)).2.output 0).toInt =
            ((ps ++ named (D.exec ctx.hca.dev (reclaimCommand 3200)).2).length : ℕ) := by
          rw [hnum, hlength, Nat.cast_add]
        -- Is it a signed number of 32 bits?
        by_cases hfit : (ps ++ named (D.exec ctx.hca.dev (reclaimCommand 3200)).2).length < 2 ^ 31
        · have hround : reclaimRounds D (n + 1 + 1) ps.length ctx = reclaimRounds D (n + 1)
              (ps ++ named (D.exec ctx.hca.dev (reclaimCommand 3200)).2).length ctx' := by
            have hint := int32_ok hfit ctx'
            rw [reclaimRounds]
            refine (bind_of_ok hok).trans ?_
            rw [hcast]
            refine (bind_of_ok hint).trans ?_
            rw [if_neg hnonzero]
          rw [hround, ← hdev]
          exact ih (by rw [hdev]; omega) h' hfit
        · refine .inr ⟨fun hboth => hfit (by omega), .undefined .signed_overflow, ctx', ?_⟩
          rw [reclaimRounds]
          refine (bind_of_ok hok).trans ?_
          rw [hcast]
          exact bind_of_error (int32_error hfit ctx')
      · -- The pool cannot free the pages of this round, and so not all of them.
        rw [blocksOf] at hfold
        rw [hfold]
        exact .inr ⟨fun hboth => Bool.false_ne_true hboth.1, e, ctx', bind_of_error herr⟩

/-! ## Reclaiming all pages -/

/-- The pages with the addresses in `H` have been given back between two contexts, and nothing else
has changed about the pages and the index. -/
structure Reclaimed (ctx ctx' : MLX5_Context δ) (l l' : List BlockPtr) (H : Finset ℕ) : Prop where
  used : ∀ e, UsedAt ctx'.mem_page_pool l' e ↔
    UsedAt ctx.mem_page_pool l e ∧ ∀ p ∈ H, ctx.mem_page_pool.pool.data.index p ≠ some e
  index : ∀ p, ctx'.mem_page_pool.pool.data.index p =
    if p ∈ H then none else ctx.mem_page_pool.pool.data.index p
  size : ctx'.mem_page_pool.pool.size + H.card = ctx.mem_page_pool.pool.size

/-- `reclaim_all_pages` returns, in as many rounds as it takes for `H`, with the number of the pages
in `H`, and has given back these pages. -/
def ReclaimsAll (D : CMD.HCA δ) (ctx : MLX5_Context δ) (l : List BlockPtr) (H : Finset ℕ) : Prop :=
  ∀ fuel, H.card < fuel → ∃ n ctx' pre' l', reclaimAllPages D fuel ctx = .ok n ctx' ∧
    n.toNat = H.card ∧ Rep ctx'.mem_page_pool pre' l' ∧ Reclaimed ctx ctx' l l' H

/-- What the loop has given back in the end. -/
theorem Reclaiming.reclaimed (h : Reclaiming held ctx₀ ctx H t pre l₀ l ps)
    (hempty : held ctx.hca.dev = ∅) : Reclaimed ctx₀ ctx l₀ l H := by
  have hmem : ∀ p, p ∈ ps ↔ p ∈ H := fun p => by
    refine ⟨h.sub p, fun hp => ?_⟩
    have hrest := h.held
    rw [hempty, eq_comm, Finset.sdiff_eq_empty_iff_subset] at hrest
    exact List.mem_toFinset.mp (hrest hp)
  have hcard := h.card_eq
  rw [hempty, Finset.card_empty, Nat.add_zero] at hcard
  refine ⟨fun e => ?_, fun p => ?_, ?_⟩
  · rw [h.released.used]
    simp only [hmem]
  · rw [h.released.index]
    simp only [hmem]
  · rw [← hcard]
    exact h.released.size

/-- `reclaim_all_pages` gives back all pages that the device holds, or it stops. -/
theorem reclaimAllPages_cases (hD : GivesBack D held) (hrep : Rep ctx.mem_page_pool pre l)
    (hidle : CMD.Idle ctx.hca.args) (hunmaps : MEM.Unmaps ctx.mem_page_pool.world.services)
    (hpages : ∀ p ∈ held ctx.hca.dev, MEM.Holds ctx.mem_page_pool l p)
    (hfuel : (held ctx.hca.dev).card < fuel) :
    ((tally ctx.mem_page_pool pre l).Safe
        (blocksOf ctx (givenBack D (held ctx.hca.dev).card ctx.hca.dev)) ∧
      (held ctx.hca.dev).card < 2 ^ 31 ∧
      ∃ n ctx' pre' l', reclaimAllPages D fuel ctx = .ok n ctx' ∧
        n.toNat = (held ctx.hca.dev).card ∧ Rep ctx'.mem_page_pool pre' l' ∧
        Reclaimed ctx ctx' l l' (held ctx.hca.dev)) ∨
    (¬ ((tally ctx.mem_page_pool pre l).Safe
        (blocksOf ctx (givenBack D (held ctx.hca.dev).card ctx.hca.dev)) ∧
      (held ctx.hca.dev).card < 2 ^ 31) ∧
      ∃ e ctx', reclaimAllPages D fuel ctx = .error e ctx') := by
  have hstart : Reclaiming held ctx ctx (held ctx.hca.dev) (tally ctx.mem_page_pool pre l) pre l l
      [] :=
    ⟨hidle, hrep, tallies_tally, MEM.released_nil, hunmaps, hpages, List.nodup_nil,
      fun _ hp => absurd hp List.not_mem_nil, by rw [List.toFinset_nil, Finset.sdiff_empty]⟩
  obtain ⟨n, rfl⟩ := Nat.exists_eq_succ_of_ne_zero (Nat.ne_of_gt (Nat.zero_lt_of_lt hfuel))
  have hn := Nat.le_of_lt_succ hfuel
  rw [← hD.givenBack_eq (Nat.le_refl _) hn]
  rcases hstart.rounds hD hn (by norm_num) with
    ⟨hsafe, hfit, ctx', t', pre', l', qs, hok, hend, hempty⟩ | ⟨hbad, e, ctx', herr⟩
  · refine .inl ⟨hsafe, hfit, _, ctx', pre', l', bind_of_ok hok, ?_, hend.rep, hend.reclaimed hempty⟩
    rw [BitVec.ofInt_natCast, BitVec.toNat_ofNat]
    exact Nat.mod_eq_of_lt (by omega)
  · exact .inr ⟨hbad, e, ctx', bind_of_error herr⟩

/-- All pages that the device holds are reclaimed exactly when the tally of the pool allows the order
in which the device names them, and there are fewer of them than a signed number can count. -/
theorem reclaimsAll_iff (D : CMD.HCA δ) (held : δ → Finset ℕ) (hD : GivesBack D held)
    (ctx : MLX5_Context δ) (pre : Option BlockPtr) (l : List BlockPtr)
    (hrep : Rep ctx.mem_page_pool pre l) (hidle : CMD.Idle ctx.hca.args)
    (hunmaps : MEM.Unmaps ctx.mem_page_pool.world.services)
    (hpages : ∀ p ∈ held ctx.hca.dev, MEM.Holds ctx.mem_page_pool l p) :
    ReclaimsAll D ctx l (held ctx.hca.dev) ↔
      (tally ctx.mem_page_pool pre l).Safe
        (blocksOf ctx (givenBack D (held ctx.hca.dev).card ctx.hca.dev)) ∧
      (held ctx.hca.dev).card < 2 ^ 31 := by
  constructor
  · intro hall
    obtain ⟨n, ctx', pre', l', hok, -⟩ := hall _ (Nat.lt_succ_self _)
    rcases reclaimAllPages_cases hD hrep hidle hunmaps hpages (Nat.lt_succ_self _) with
      ⟨hsafe, hfit, -⟩ | ⟨-, e, ctx'', herr⟩
    · exact ⟨hsafe, hfit⟩
    · rw [herr] at hok
      cases hok
  · intro hsafe fuel hfuel
    rcases reclaimAllPages_cases hD hrep hidle hunmaps hpages hfuel with
      ⟨-, -, hall⟩ | ⟨hbad, -⟩
    · exact hall
    · exact absurd hsafe hbad

/-! ## Two blocks of one page -/

/-- The answer of a device that has named `d` pages and names one more, or has none left. -/
def nameOne (d : ℕ) : Option ℕ → ℕ × CMD.Reply
  | none => (d, ⟨0, 0, fun _ => 0⟩)
  | some p => (d + 1, ⟨0, 0, (Buf.ofList [1, 0, msb p, lsb p]).word⟩)

/-- A device that names the pages of a list one by one. -/
def lister (pages : List ℕ) : CMD.HCA ℕ where
  exec d _ := nameOne d pages[d]?

/-- Such a device gives back what it holds. -/
theorem lister_givesBack {pages : List ℕ} (hnodup : pages.Nodup) (hlt : ∀ p ∈ pages, p < 2 ^ 64) :
    GivesBack (lister pages) fun d => (pages.drop d).toFinset := by
  -- A request finds the list empty, or it gets the first page that is left.
  have hcases : ∀ d n, (pages.drop d = [] ∧
        (lister pages).exec d (reclaimCommand n) = nameOne d none) ∨
      ∃ p, pages.drop d = p :: pages.drop (d + 1) ∧ p ∉ pages.drop (d + 1) ∧
        (lister pages).exec d (reclaimCommand n) = nameOne d (some p) ∧
        named (nameOne d (some p)).2 = [p] := by
    intro d n
    rcases Nat.lt_or_ge d pages.length with hd | hd
    · have hdrop := List.drop_eq_getElem_cons hd
      have hsome := List.getElem?_eq_getElem hd
      refine .inr ⟨pages[d], hdrop, ?_, congrArg (nameOne d) hsome, ?_⟩
      · have hnodup' := (List.drop_sublist d pages).nodup hnodup
        rw [hdrop] at hnodup'
        exact (List.nodup_cons.mp hnodup').1
      · show [address (msb pages[d]) (lsb pages[d])] = _
        rw [address_msb_lsb (hlt _ (List.getElem_mem hd))]
    · exact .inl ⟨List.drop_eq_nil_of_le hd, congrArg (nameOne d) (List.getElem?_eq_none hd)⟩
  have hnone : ∀ d, named (nameOne d none).2 = [] := fun d => rfl
  refine ⟨fun d n => ?_, fun d n => ?_, fun d n p hp => ?_, fun d n hn => ?_, fun d n _ hne => ?_,
    fun d n => ?_⟩
  · -- The reply is in order.
    rcases hcases d n with ⟨-, h⟩ | ⟨q, -, -, h, -⟩
    · exact h ▸ ⟨rfl, rfl⟩
    · exact h ▸ ⟨rfl, rfl⟩
  · -- The pages that it names are different.
    rcases hcases d n with ⟨-, h⟩ | ⟨q, -, -, h, hnamed⟩
    · rw [h, hnone]
      exact List.nodup_nil
    · rw [h, hnamed]
      exact List.nodup_singleton q
  · -- The device holds them.
    rcases hcases d n with ⟨-, h⟩ | ⟨q, hdrop, -, h, hnamed⟩
    · rw [h, hnone] at hp
      cases hp
    · rw [h, hnamed] at hp
      rw [List.mem_toFinset, hdrop, List.mem_singleton.mp hp]
      exact List.mem_cons_self
  · -- They are not more than it is asked for.
    rcases hcases d n with ⟨-, h⟩ | ⟨q, -, -, h, -⟩
    · rw [h]
      exact hn.le
    · rw [h]
      exact hn
  · -- There is one as long as the device holds some.
    rcases hcases d n with ⟨hdrop, -⟩ | ⟨q, -, -, h, hnamed⟩
    · rw [hdrop] at hne
      exact absurd hne (by decide)
    · rw [h, hnamed]
      exact List.cons_ne_nil q []
  · -- Those that are left are the others.
    rcases hcases d n with ⟨hdrop, h⟩ | ⟨q, hdrop, hq, h, hnamed⟩
    · rw [h, hnone, hdrop]
      show (pages.drop d).toFinset = _
      rw [hdrop]
      rfl
    · rw [h, hnamed, hdrop]
      show (pages.drop (d + 1)).toFinset = _
      have hq' : q ∉ (pages.drop (d + 1)).toFinset := fun hmem => hq (List.mem_toFinset.mp hmem)
      rw [List.toFinset_cons, List.toFinset_cons, List.toFinset_nil, insert_empty_eq,
        Finset.insert_sdiff_of_mem _ (Finset.mem_singleton_self q),
        Finset.sdiff_singleton_eq_erase, Finset.erase_eq_of_notMem hq']

/-- A block of one page, which is used. -/
def onePage (b : BlockPtr) (next prev : Option BlockPtr) : Block MEM.DmaMem MEM.ED where
  element_count := 1
  next := next
  prev := prev
  data := ⟨4096 * b, 4096 * b⟩
  start _ := ⟨true, ⟨4096 * b, 4096 * b⟩, b⟩

/-- A pool of two blocks of one page. -/
def twoPages : MEM.State where
  world := { services := MEM.roomy, requests := 2, mapped := [⟨0, 4096⟩, ⟨4096, 4096⟩] }
  pool := {
    max := 65536, size := 2, block_size := 1, block_count := 2,
    data := ⟨fun p => if p = 0 then some ⟨0, 0⟩ else if p = 4096 then some ⟨1, 0⟩ else none⟩,
    start := some 0, «end» := some 1 }
  heap := {
    block := fun b =>
      if b = 0 then some (onePage 0 (some 1) none)
      else if b = 1 then some (onePage 1 none (some 0)) else none,
    fresh := 2,
    uninit := fun b => onePage b none none }

/-- A block with one used page is in order. -/
theorem onePage_ok (b : BlockPtr) (next prev : Option BlockPtr) :
    BlockOk 1 b 1 (onePage b next prev).start := ⟨rfl, fun _ _ => rfl⟩

/-- This pool is well formed. -/
theorem twoPages_rep : Rep twoPages none [0, 1] where
  seg := ⟨rfl, rfl, rfl, rfl, rfl⟩
  last b hb := hb
  block_count := rfl
  exist b hb := by
    rcases List.mem_pair.mp hb with rfl | rfl
    · exact ⟨_, rfl⟩
    · exact ⟨_, rfl⟩
  unborn b hb := by
    have hzero : b ≠ 0 := Nat.ne_of_gt (Nat.lt_of_lt_of_le Nat.zero_lt_two hb)
    have hone : b ≠ 1 := Nat.ne_of_gt (Nat.lt_of_lt_of_le Nat.one_lt_two hb)
    simp [twoPages, hzero, hone]
  pre_nil _ := rfl
  ok b hb n d a h := by
    rcases List.mem_pair.mp hb with rfl | rfl
    · cases h
      exact onePage_ok 0 (some 1) none
    · cases h
      exact onePage_ok 1 none (some 0)
  size_eq := rfl
  size_le := by decide
  stale q hq := by cases hq

/-- The context with these pages, in front of a device that names them in some order. -/
def twoPagesContext : MLX5_Context ℕ := { initContext 0 with mem_page_pool := twoPages }

/-- The pool has both pages. -/
theorem twoPages_holds : ∀ p ∈ ({0, 4096} : Finset ℕ), MEM.Holds twoPages [0, 1] p := by
  intro p hp
  rcases Finset.mem_insert.mp hp with rfl | hp
  · exact ⟨⟨0, 0⟩, rfl, ⟨List.mem_cons_self, Nat.one_pos, _, rfl, rfl⟩, rfl⟩
  · obtain rfl := Finset.mem_singleton.mp hp
    exact ⟨⟨1, 0⟩, rfl, ⟨List.mem_cons_of_mem _ List.mem_cons_self, Nat.one_pos, _, rfl, rfl⟩, rfl⟩

/-- The pages that a device that names `p` and then `q` holds at the start. -/
theorem lister_held (p q : ℕ) :
    (([p, q] : List ℕ).drop twoPagesContext.hca.dev).toFinset = {p, q} := by
  show [p, q].toFinset = _
  rw [List.toFinset_cons, List.toFinset_cons, List.toFinset_nil, insert_empty_eq]

/-- When the page of the first block is named first, the block behind it becomes the first one and
points back to a destroyed block, so its page cannot be given back. -/
theorem twoPages_not_reclaimsAll :
    GivesBack (lister [0, 4096]) (fun d => ([0, 4096].drop d).toFinset) ∧
      Rep twoPagesContext.mem_page_pool none [0, 1] ∧
      (∀ p ∈ ({0, 4096} : Finset ℕ), MEM.Holds twoPagesContext.mem_page_pool [0, 1] p) ∧
      ¬ ReclaimsAll (lister [0, 4096]) twoPagesContext [0, 1] {0, 4096} := by
  have hD : GivesBack (lister [0, 4096]) (fun d => ([0, 4096].drop d).toFinset) :=
    lister_givesBack (by decide) (by decide)
  refine ⟨hD, twoPages_rep, twoPages_holds, fun hall => ?_⟩
  obtain ⟨n, ctx', pre', l', hok, -⟩ := hall _ (Nat.lt_succ_self _)
  have hrep : Rep twoPagesContext.mem_page_pool none [0, 1] := twoPages_rep
  have hidle : CMD.Idle twoPagesContext.hca.args := initContext_idle 0
  have hcases := fun hpages => reclaimAllPages_cases (l := [0, 1]) hD hrep hidle (fun _ _ => rfl)
    hpages (Nat.lt_succ_self _)
  simp only [lister_held] at hcases
  rcases hcases twoPages_holds with ⟨hsafe, -⟩ | ⟨-, e, ctx'', herr⟩
  · exact absurd hsafe (by decide +kernel)
  · rw [herr] at hok
    cases hok

/-- In the other order both pages can be given back. -/
theorem twoPages_reclaimsAll :
    ReclaimsAll (lister [4096, 0]) twoPagesContext [0, 1] {4096, 0} := by
  have hiff := reclaimsAll_iff (lister [4096, 0]) (fun d => ([4096, 0].drop d).toFinset)
    (lister_givesBack (by decide) (by decide)) twoPagesContext none [0, 1] twoPages_rep
    (initContext_idle 0) (fun _ _ => rfl) (by
      rw [lister_held, Finset.pair_comm]
      exact twoPages_holds)
  simp only [lister_held] at hiff
  exact hiff.mpr ⟨by decide +kernel, by decide⟩

end L4Rdma.Driver
