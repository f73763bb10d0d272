import L4Rdma.Driver.Ledger

/-!
# The whole program

`main` starts with a context in which nothing is set up. It has memory mapped for the command queue and for
the two mailboxes, and sets up the pool of memory pages (`setUp`). If the kernel maps whole pages to
addresses at which nothing else is mapped, then the command arguments are ready for the first command,
and the pool of memory pages is one without memory (`setUp_sets`). So what has been shown for `main`
from `init_hca` on holds for all of it, without any assumption about the driver. At the end there is a
device that borrows pages, with which the program gets through.
-/

namespace L4Rdma.Driver

open Lib Device

variable {δ : Type} {D : CMD.HCA δ} {ctx ctx' : MLX5_Context δ} {r : MEM.L4Re} {ps : List ℕ}

/-! ## The start -/

/-- The kernel maps memory to a region of whole pages in which nothing else is mapped. A superpage is not
larger than a block of memory pages. -/
structure MapsPages (r : MEM.L4Re) : Prop extends r.Maps where
  aligned : ∀ n mapped size phys, r.map n mapped size = some phys → phys % HCA_PAGE_SIZE = 0
  shift_le : r.superpageShift ≤ 22

/-- The context as it is declared, and a DMA space in which nothing is mapped. -/
structure Declared (ctx : MLX5_Context δ) : Prop where
  head : ctx.hca.args.cq.head = 0
  rung : ctx.hca.args.rung = []
  index : ∀ p, ctx.mem_page_pool.pool.data.index p = none
  heap : ∀ b, ctx.mem_page_pool.heap.block b = none
  mapped : ctx.mem_page_pool.world.mapped = []

/-- What the driver and the device have exchanged. -/
def exchanged (ctx : MLX5_Context δ) : δ × List CMD.Command × List (ℕ × ℤ) :=
  (ctx.hca.dev, ctx.hca.seen, ctx.requests)

/-- It does not depend on the command arguments. -/
theorem said_nil_of_exchanged (h : exchanged ctx' = exchanged ctx) : (talk D).said ctx [] ctx' := by
  obtain ⟨hdev, hrest⟩ := Prod.mk.inj h
  obtain ⟨hseen, hrequests⟩ := Prod.mk.inj hrest
  exact ⟨⟨hseen.trans (List.append_nil _).symm, hdev⟩, hrequests.trans (List.append_nil _).symm⟩

/-- `setUp` tells the device nothing. -/
theorem leaves_setUp : Leaves (exchanged (δ := δ)) setUp := by
  have hdma : ∀ {α : Type} (x : Exec MEM.Dma α), Leaves (exchanged (δ := δ)) (dmaLens.zoom x) :=
    leaves_zoom fun _ _ => rfl
  have hargs : ∀ {α : Type} (x : Exec CMD.CMD_Args α), Leaves (exchanged (δ := δ)) (argsLens.zoom x) :=
    leaves_zoom fun _ _ => rfl
  unfold setUp
  refine (hdma _).bind fun _ => (hargs _).bind fun _ => (hdma _).bind fun _ => (hargs _).bind fun _ => ?_
  refine (hdma _).bind fun _ => (hargs _).bind fun _ => Leaves.bind ?_ fun _ => hargs _
  exact leaves_zoom (fun _ _ => rfl) _

/-- One more region is mapped. -/
theorem ends_mapMemory (size : ℕ) (ctx : MLX5_Context δ) :
    Ends (dmaLens.zoom (MEM.allocDmaMem size)) ctx (fun m ctx' => ∃ d : MEM.Dma,
      ctx' = dmaLens.set d ctx ∧
      ctx.mem_page_pool.world.services.map ctx.mem_page_pool.world.requests ctx.mem_page_pool.world.mapped
        (ctx.mem_page_pool.world.services.superpages size) = some m.phys ∧
      d.services = ctx.mem_page_pool.world.services ∧
      d.mapped = ⟨m.phys, ctx.mem_page_pool.world.services.superpages size⟩ ::
        ctx.mem_page_pool.world.mapped)
      fun err _ => ∃ what, err = .thrown what := by
  have halloc : Ends (MEM.allocDmaMem size) (dmaLens.view ctx) (fun m d =>
      (dmaLens.view ctx).services.map (dmaLens.view ctx).requests (dmaLens.view ctx).mapped
        ((dmaLens.view ctx).services.superpages size) = some m.phys ∧
      d.services = (dmaLens.view ctx).services ∧
      d.mapped = ⟨m.phys, (dmaLens.view ctx).services.superpages size⟩ :: (dmaLens.view ctx).mapped)
      fun err _ => ∃ what, err = .thrown what :=
    ⟨fun _ _ h => MEM.allocDmaMem_ok h, fun _ _ h => Q.allocDmaMem_error h⟩
  exact halloc.zoom.mono (fun m ctx' h => h) fun _ _ ⟨_, _, h⟩ => h

/-- A mailbox in memory that the kernel has mapped for it. -/
theorem mailboxOk_of_map (hr : MapsPages r) {n : ℕ} {mapped : List MEM.Region} {m : MEM.DmaMem}
    (hmap : r.map n mapped (r.superpages (HCA_PAGE_SIZE * CMD.MBB_MAX_COUNT)) = some m.phys) :
    CMD.MailboxOk m where
  aligned := hr.aligned _ _ _ _ hmap
  fits := by
    have hle : HCA_PAGE_SIZE * CMD.MBB_MAX_COUNT ≤ r.superpages (HCA_PAGE_SIZE * CMD.MBB_MAX_COUNT) :=
      MEM.le_superpages (by norm_num) (hr.shift_le.trans (by norm_num))
    have hfits := hr.fits _ _ _ _ hmap
    exact Nat.le_trans (Nat.add_le_add_left hle _) hfits

/-- A pool of memory pages as `main` sets it up, when others have memory mapped. -/
theorem unused_of_setUp {s : MEM.State} (hempty : PA.Empty s) (hmax : s.pool.max = 65536)
    (hblock : s.pool.block_size = 1024) (hindex : ∀ p, s.pool.data.index p = none)
    (hr : MapsPages s.world.services)
    (hapart : (MEM.solid s.world.mapped).Pairwise MEM.Region.Apart) : Unused s where
  stocked := by
    have hshift : 2 ^ s.world.services.superpageShift ∣ HCA_PAGE_SIZE * s.pool.block_size := by
      rw [hblock]
      exact pow_dvd_pow 2 hr.shift_le
    have hbytes : HCA_PAGE_SIZE * s.pool.block_size ≤ 2 ^ 62 := by
      rw [hblock]
      norm_num
    exact ⟨_, MEM.stocked_empty hempty hr.toMaps hbytes (hr.shift_le.trans (by norm_num)) hshift hindex hapart⟩
  max := hmax
  block_size := hblock
  snug := hempty.rep.snug_iff.mpr ⟨rfl, Nat.zero_le 1⟩

/-- Three regions that are mapped one after the other have nothing in common. -/
theorem regions_apart {rs : List MEM.Region} (hr : r.Maps) (hapart : rs.Pairwise MEM.Region.Apart)
    {n size phys : ℕ} (hmap : r.map n rs size = some phys) :
    ((⟨phys, size⟩ : MEM.Region) :: rs).Pairwise MEM.Region.Apart :=
  List.pairwise_cons.mpr ⟨fun g hg => hr.apart n rs size phys hmap g hg, hapart⟩

/-- When `main` has set up the context, the command arguments are ready for a command, and the pool of memory
pages has none. -/
theorem setUp_sets (hdeclared : Declared ctx) (hr : MapsPages ctx.mem_page_pool.world.services) :
    Ends setUp ctx (fun _ ctx' => CMD.Idle ctx'.hca.args ∧ Unused ctx'.mem_page_pool)
      fun err _ => ∃ what, err = .thrown what := by
  unfold setUp
  -- Memory for the ring, for the input mailbox and for the output mailbox is mapped.
  refine (ends_mapMemory HCA_PAGE_SIZE ctx).bind ?_
  rintro m₁ _ ⟨d₁, rfl, hmap₁, hservices₁, hmapped₁⟩
  refine Ends.bind_of_ok (Lens.zoom_of_ok (modify_apply _ _)) ?_
  refine (ends_mapMemory (HCA_PAGE_SIZE * CMD.MBB_MAX_COUNT) _).bind ?_
  rintro m₂ _ ⟨d₂, rfl, hmap₂, hservices₂, hmapped₂⟩
  refine Ends.bind_of_ok (Lens.zoom_of_ok (modify_apply _ _)) ?_
  refine (ends_mapMemory (HCA_PAGE_SIZE * CMD.MBB_MAX_COUNT) _).bind ?_
  rintro m₃ _ ⟨d₃, rfl, hmap₃, hservices₃, hmapped₃⟩
  refine Ends.bind_of_ok (Lens.zoom_of_ok (modify_apply _ _)) ?_
  refine Ends.bind_of_ok (Lens.zoom_of_ok (modify_apply _ _)) ?_
  generalize hservices : ctx.mem_page_pool.world.services = r at hr hmap₁ hmapped₁ hservices₁
  -- The kernel is the same all the time.
  change d₁.services.map d₁.requests d₁.mapped (d₁.services.superpages _) = some m₂.phys at hmap₂
  change d₂.services = d₁.services at hservices₂
  change d₂.mapped = ⟨m₂.phys, d₁.services.superpages _⟩ :: d₁.mapped at hmapped₂
  change d₂.services.map d₂.requests d₂.mapped (d₂.services.superpages _) = some m₃.phys at hmap₃
  change d₃.services = d₂.services at hservices₃
  change d₃.mapped = ⟨m₃.phys, d₂.services.superpages _⟩ :: d₂.mapped at hmapped₃
  rw [hservices₁] at hmap₂ hmapped₂ hservices₂
  rw [hservices₂] at hmap₃ hmapped₃ hservices₃
  rw [hdeclared.mapped] at hmap₁ hmapped₁
  -- Both mailboxes are whole pages below 2^64.
  have himb : CMD.MailboxOk m₂ := mailboxOk_of_map hr hmap₂
  have homb : CMD.MailboxOk m₃ := mailboxOk_of_map hr hmap₃
  have hapart₁ : d₁.mapped.Pairwise MEM.Region.Apart :=
    hmapped₁ ▸ regions_apart hr.toMaps List.Pairwise.nil hmap₁
  have hapart₂ : d₂.mapped.Pairwise MEM.Region.Apart :=
    hmapped₂ ▸ regions_apart hr.toMaps hapart₁ hmap₂
  have hapart₃ : d₃.mapped.Pairwise MEM.Region.Apart :=
    hmapped₃ ▸ regions_apart hr.toMaps hapart₂ hmap₃
  -- They do not overlap, since the first one was mapped already when the second one was.
  have hmailboxes : CMD.Disjoint m₂ m₃ := by
    have hle : HCA_PAGE_SIZE * CMD.MBB_MAX_COUNT ≤ r.superpages (HCA_PAGE_SIZE * CMD.MBB_MAX_COUNT) :=
      MEM.le_superpages (by norm_num) (hr.shift_le.trans (by norm_num))
    have hfirst : MEM.Region.mk m₂.phys (r.superpages (HCA_PAGE_SIZE * CMD.MBB_MAX_COUNT)) ∈ d₂.mapped := by
      rw [hmapped₂]
      exact List.mem_cons_self
    rcases hr.apart _ _ _ _ hmap₃ _ hfirst with h | h
    · exact .inr (Nat.le_trans (Nat.add_le_add_left hle _) h)
    · exact .inl (Nat.le_trans (Nat.add_le_add_left hle _) h)
  refine ends_of_ok (Lens.zoom_of_ok (modify_apply _ _)) ⟨?_, ?_⟩
  · refine ⟨⟨Nat.le_add_left 1 31, Nat.le_refl 32, ?_, himb, homb, hmailboxes⟩, hdeclared.rung⟩
    -- The ring has 32 entries, and its head is where it was declared.
    show ctx.hca.args.cq.head < 32
    rw [hdeclared.head]
    norm_num
  · refine unused_of_setUp ⟨rfl, rfl, rfl, Nat.zero_lt_succ _, hdeclared.heap⟩ rfl rfl hdeclared.index ?_ ?_
    · -- The pool has no pages, and what is mapped is apart.
      show MapsPages d₃.services
      rw [hservices₃]
      exact hr
    · exact List.Pairwise.sublist List.filter_sublist hapart₃

/-- What `setUp` obeys: it says nothing, and then everything is ready. -/
theorem setUp_obeys {P : Type} (next : P → Message → Option P) (p : P) (hdeclared : Declared ctx)
    (hr : MapsPages ctx.mem_page_pool.world.services) :
    Obeys (talk D) next setUp ctx p (fun _ ctx' p' => p' = p ∧ CMD.Idle ctx'.hca.args ∧
      Unused ctx'.mem_page_pool) fun err _ _ => ∃ what, err = .thrown what := by
  refine obeys_of_silent (((setUp_sets hdeclared hr).and (leaves_setUp ctx)).mono ?_ ?_)
  · rintro _ ctx' ⟨h, heq⟩
    exact ⟨said_nil_of_exchanged heq, rfl, h⟩
  · rintro _ ctx' ⟨hthrown, heq⟩
    exact ⟨said_nil_of_exchanged heq, hthrown⟩

/-! ## The whole life -/

/-- A kernel that maps memory from the first page on behind everything that is mapped already. -/
def paged : MEM.L4Re where
  superpageShift := 21
  makeSharedCap _ := true
  memAlloc _ _ := true
  attach _ size := some size
  map _ mapped size :=
    let phys := (MEM.firstFree mapped + 4095) / HCA_PAGE_SIZE * HCA_PAGE_SIZE
    if phys + size ≤ 2 ^ 64 then some phys else none
  unmap _ _ := true

/-- It does what is expected of it. -/
theorem paged_mapsPages : MapsPages paged where
  fits n mapped size phys h := by
    obtain ⟨hle, heq⟩ := Option.ite_none_right_eq_some.mp h
    cases heq
    exact hle
  apart n mapped size phys h g hg := by
    obtain ⟨-, heq⟩ := Option.ite_none_right_eq_some.mp h
    cases heq
    have hfree := MEM.le_firstFree hg
    have hround : MEM.firstFree mapped ≤ (MEM.firstFree mapped + 4095) / 4096 * 4096 := by omega
    exact .inr (hfree.trans hround)
  aligned n mapped size phys h := by
    obtain ⟨-, heq⟩ := Option.ite_none_right_eq_some.mp h
    cases heq
    exact Nat.mul_mod_left _ _
  shift_le := by decide

/-- A reply that names pages. -/
def naming (ps : List ℕ) : CMD.Reply :=
  ⟨0, 0, fun i => if i = 0 then BitVec.ofNat 32 ps.length else (ps.flatMap halves).getD (i - 2) 0⟩

/-- A device that keeps a list of the pages that it holds. It needs three pages to boot and three more to
initialize, and gives back as many as it is asked for, the oldest ones first. It supports a version of the
interface, and accepts all commands. -/
def borrowing : CMD.HCA (List ℕ) where
  exec pages c :=
    if Manages c 1 then (pages ++ given c, naming [])
    else if Manages c 2 then
      (pages.drop (min (pagesOf c) pages.length), naming (pages.take (min (pagesOf c) pages.length)))
    else (pages, ⟨0, 0, fun _ =>
      if c.opcode = CMD.OPCODE.QUERY_PAGES.value then 3
      else if c.opcode = CMD.OPCODE.QUERY_ISSI.value then 1 else 0⟩)

/-- The device accepts every command. -/
theorem borrowing_accepts (pages : List ℕ) (c : CMD.Command) : (borrowing.exec pages c).2.Ok := by
  unfold borrowing
  dsimp only
  by_cases hprovides : Manages c 1
  · rw [if_pos hprovides]
    exact ⟨rfl, rfl⟩
  by_cases hreclaims : Manages c 2
  · rw [if_neg hprovides, if_pos hreclaims]
    exact ⟨rfl, rfl⟩
  · rw [if_neg hprovides, if_neg hreclaims]
    exact ⟨rfl, rfl⟩

/-- The pages that the reply names. -/
theorem named_naming (hlength : ps.length < 2 ^ 32) (hlt : ∀ p ∈ ps, p < 2 ^ 64) :
    named (naming ps) = ps := by
  have hnumber : ((naming ps).output 0).toNat = ps.length := by
    show (BitVec.ofNat 32 ps.length).toNat = ps.length
    rw [BitVec.toNat_ofNat, Nat.mod_eq_of_lt hlength]
  unfold named
  rw [hnumber]
  refine List.ext_getElem (by rw [List.length_map, List.length_range]) fun i _ hi => ?_
  obtain ⟨hmsb, hlsb⟩ := getD_halves ps hi
  have hfirst : (naming ps).output (2 + i * 2) = msb ps[i] := by
    show (if 2 + i * 2 = 0 then BitVec.ofNat 32 ps.length else (ps.flatMap halves).getD (2 + i * 2 - 2) 0) = _
    rw [if_neg (by omega), Nat.add_sub_cancel_left]
    exact hmsb
  have hsecond : (naming ps).output (2 + i * 2 + 1) = lsb ps[i] := by
    show (if 2 + i * 2 + 1 = 0 then BitVec.ofNat 32 ps.length else
      (ps.flatMap halves).getD (2 + i * 2 + 1 - 2) 0) = _
    rw [if_neg (by omega), show 2 + i * 2 + 1 - 2 = i * 2 + 1 by omega]
    exact hlsb
  rw [List.getElem_map, List.getElem_range]
  calc pageAt (naming ps).output i
      = address (msb ps[i]) (lsb ps[i]) := congrArg₂ address hfirst hsecond
    _ = ps[i] := address_msb_lsb (hlt _ (List.getElem_mem hi))

/-- The account of such a device has the pages that are on its list, each of them once. -/
structure OnAccount (pages : List ℕ) (acc : Account) : Prop where
  nodup : pages.Nodup
  lt : ∀ p ∈ pages, p < 2 ^ 64
  holds : ∃ crowded, acc = .holds pages.toFinset crowded false

/-- A command keeps the account, which knows nothing of what the device withholds. -/
theorem OnAccount.exchange {pages : List ℕ} {acc acc' : Account} {c : CMD.Command} (h : OnAccount pages acc)
    (hsettle : settle acc (.exchange (c, (borrowing.exec pages c).2)) = some acc') :
    OnAccount (borrowing.exec pages c).1 acc' := by
  obtain ⟨hnodup, hlt, crowded, rfl⟩ := h
  -- This device accepts every command.
  have haccepted : (borrowing.exec pages c).2.Accepted := (borrowing_accepts pages c).accepted
  unfold settle at hsettle
  simp only [if_pos haccepted] at hsettle
  by_cases hprovides : Manages c 1
  · -- New pages go to the end of the list.
    have hexec : borrowing.exec pages c = (pages ++ given c, naming []) := if_pos hprovides
    rw [if_pos hprovides] at hsettle
    obtain ⟨⟨hgiven, hnew⟩, hacc⟩ := Option.ite_none_right_eq_some.mp hsettle
    rw [hexec]
    have hlent : lend pages.toFinset crowded false (given c) = acc' := Option.some.inj hacc
    rw [lend, ← List.toFinset_append] at hlent
    -- They are new and different, since the account has allowed it.
    refine ⟨List.nodup_append.mpr ⟨hnodup, hgiven, ?_⟩, fun p hp => ?_, ⟨_, hlent.symm⟩⟩
    · rintro p hp q hq rfl
      exact hnew p hq (List.mem_toFinset.mpr hp)
    · rcases List.mem_append.mp hp with hp | hp
      · exact hlt p hp
      · obtain ⟨i, -, rfl⟩ := List.mem_map.mp hp
        exact address_lt _ _
  rw [if_neg hprovides] at hsettle
  by_cases hreclaims : Manages c 2
  · -- Some pages are taken from its front.
    have hexec : borrowing.exec pages c = (pages.drop (min (pagesOf c) pages.length),
        naming (pages.take (min (pagesOf c) pages.length))) := (if_neg hprovides).trans (if_pos hreclaims)
    rw [if_pos hreclaims, hexec] at hsettle
    rw [hexec]
    have hpages : pagesOf c < 2 ^ 32 := (c.payload.getD 1 0).isLt
    -- It gives back as many as it is asked for, or all that it has.
    generalize hn : min (pagesOf c) pages.length = n at hsettle ⊢
    have hlength : (pages.take n).length = n := by
      rw [List.length_take]
      omega
    have hnamed : named (naming (pages.take n)) = pages.take n :=
      named_naming (by omega) fun p hp => hlt p (List.mem_of_mem_take hp)
    -- So what it names is what it has held, without doubles.
    have hhonest : Honest pages.toFinset c (naming (pages.take n)) := by
      refine ⟨?_, fun p hp => ?_, ?_⟩
      · rw [hnamed]
        exact hnodup.sublist (List.take_sublist n pages)
      · rw [hnamed] at hp
        exact List.mem_toFinset.mpr (List.mem_of_mem_take hp)
      · rw [hnamed, hlength]
        omega
    -- If it holds a page and is asked for one, it names one, so it withholds nothing.
    have hgives : ¬ Withholds pages.toFinset c (naming (pages.take n)) := by
      rintro ⟨hpos, ⟨p, hp⟩, hnil⟩
      have hsome : 0 < pages.length := List.length_pos_of_mem (List.mem_toFinset.mp hp)
      rw [hnamed] at hnil
      rw [hnil, List.length_nil] at hlength
      omega
    -- What the account is left with is what the device is left with.
    have hrest : pages.toFinset \ (pages.take n).toFinset = (pages.drop n).toFinset := by
      have hsplit := hnodup
      rw [← List.take_append_drop n pages, List.nodup_append] at hsplit
      ext p
      rw [Finset.mem_sdiff, List.mem_toFinset, List.mem_toFinset, List.mem_toFinset]
      constructor
      · rintro ⟨hp, hnot⟩
        rw [← List.take_append_drop n pages] at hp
        exact (List.mem_append.mp hp).resolve_left hnot
      · exact fun hp => ⟨List.mem_of_mem_drop hp, fun hq => hsplit.2.2 p hq p hp rfl⟩
    rw [if_pos hhonest, hnamed, hrest, decide_eq_false hgives] at hsettle
    exact ⟨hnodup.sublist (List.drop_sublist n pages), fun p hp => hlt p (List.mem_of_mem_drop hp),
      crowded, (Option.some.inj hsettle).symm⟩
  · -- Other commands are not about pages.
    have hexec : (borrowing.exec pages c).1 = pages := by
      unfold borrowing
      dsimp only
      rw [if_neg hprovides, if_neg hreclaims]
    rw [if_neg hreclaims] at hsettle
    rw [hexec]
    exact ⟨hnodup, hlt, crowded, (Option.some.inj hsettle).symm⟩

/-- So do any messages. -/
theorem OnAccount.messages {ms : List Message} {pages pages' : List ℕ} {acc acc' : Account}
    (h : OnAccount pages acc) (hreplies : CMD.Replies borrowing pages (exchanges ms) pages')
    (hrun : phaseAfter settle acc ms = some acc') : OnAccount pages' acc' := by
  induction ms generalizing pages acc with
  | nil =>
    obtain rfl : pages' = pages := hreplies
    obtain rfl := Option.some.inj hrun
    exact h
  | cons m ms ih =>
    have hsplit : (settle acc m).bind (fun acc₁ => phaseAfter settle acc₁ ms) = some acc' := hrun
    obtain ⟨acc₁, hfirst, hrest⟩ := Option.bind_eq_some_iff.mp hsplit
    cases m with
    | exchange e =>
      obtain ⟨c, r⟩ := e
      obtain ⟨rfl, hreplies'⟩ := hreplies
      exact ih (h.exchange hfirst) hreplies' hrest
    | request n =>
      obtain ⟨crowded, hacc⟩ := h.holds
      have hsame : acc₁ = acc := by
        subst hacc
        exact (Option.some.inj hfirst).symm
      exact ih (hsame ▸ h) hreplies hrest

/-! ## A run of the program -/

/-- The device has posted page requests with these numbers of pages. -/
def requesting (ns : List Word) : Act := .post fun _ i =>
  { data := fun j => if j = 1 then iowrite32be (ns.getD i 0) else 0
    ctrl := if i < ns.length then 0 else iowrite32be Event.EQC_OWNERSHIP_MASK }

/-- Three page requests while the device is used: for two pages, for one to be taken back, and for two more.
They are read before, between and after the calls for the work queue. -/
def threeRequests : Meanwhile where
  beforeArm := [.round]
  afterArm := [requesting [2], .round, .round]
  beforeWork := []
  inWork := [requesting [2, -1], .round]
  serving := [requesting [2, -1, 2], .round, .round]

/-- A declared context in front of a device that holds no page and is never initializing. -/
def borrowBoot : Boot (List ℕ) where
  ctx := { initContext [] with mem_page_pool := { MEM.initPool with world := ⟨paged, 0, []⟩ } }
  init_seg := ⟨0, 0⟩
  initializing := ⟨fun _ => 0, fun _ => 1, 0, 0⟩

/-- This context is as it is declared. -/
theorem borrowBoot_declared : Declared borrowBoot.ctx where
  head := rfl
  rung := rfl
  index _ := rfl
  heap _ := rfl
  mapped := rfl

/-- The program until the device has been torn down. -/
def untilTorn : Exec (Boot (List ℕ)) Unit := do
  ctxLens.zoom setUp
  initHca borrowing 0
  ctxLens.zoom do
    let eq_number ← setupEventQueue borrowing threeRequests.beforeArm threeRequests.afterArm
    await borrowing eq_number threeRequests.beforeWork
    setupWorkQueue borrowing eq_number threeRequests.inWork
    await borrowing eq_number threeRequests.serving
    teardownEqs borrowing
    deallocUar borrowing
    let _ ← hcaLens.zoom
      (CMD.issue borrowing .TEARDOWN_HCA 0x0 (Buf.ofList []) 0 TEARDOWN_HCA_OUTPUT_LENGTH)

/-- The rest of the program. -/
def drain : Exec (MLX5_Context (List ℕ)) Unit := do
  let _ ← reclaimAllPages borrowing 2
  let _ ← hcaLens.zoom (CMD.issue borrowing .DISABLE_HCA 0x0 (Buf.ofList []) 0 DISABLE_HCA_OUTPUT_LENGTH)
  return ()

/-- These are the two parts of the program. -/
theorem program_eq_drain : program borrowing 0 threeRequests 2 = (do
    untilTorn
    ctxLens.zoom drain) := by
  have hzoom : ∀ {α β : Type} (x : Exec (MLX5_Context (List ℕ)) α) (f : α → Exec (MLX5_Context (List ℕ)) β),
      (ctxLens.zoom x >>= fun a => ctxLens.zoom (f a)) = ctxLens.zoom (x >>= f) :=
    fun x f => funext fun boot => (ctxLens_lawful.zoom_bind x f boot).symm
  unfold program main untilTorn drain serveAndShutDown teardownHca
  simp only [bind_assoc, hzoom, pure_bind]

/-- What is left to do when the device has been torn down: it has some pages, but not too many to give them back
at once, and the pool takes them. -/
structure TornDown (ctx : MLX5_Context (List ℕ)) : Prop where
  idle : CMD.Idle ctx.hca.args
  pos : 1 ≤ ctx.hca.dev.length
  few : ctx.hca.dev.length ≤ 3200
  lt : ∀ p ∈ ctx.hca.dev, p < 2 ^ 64
  free : Returns (MEM.freePages ctx.hca.dev) ctx.mem_page_pool fun _ => True
  requests : ctx.requests.map Prod.snd = [2, -1, 2]

/-- Whether this is so can be evaluated. -/
instance (ctx : MLX5_Context (List ℕ)) : Decidable (TornDown ctx) :=
  decidable_of_iff (CMD.Idle ctx.hca.args ∧
      (1 ≤ ctx.hca.dev.length ∧ ctx.hca.dev.length ≤ 3200 ∧ ∀ p ∈ ctx.hca.dev, p < 2 ^ 64) ∧
      Returns (MEM.freePages ctx.hca.dev) ctx.mem_page_pool (fun _ => True) ∧
      ctx.requests.map Prod.snd = [2, -1, 2])
    ⟨fun ⟨hidle, ⟨hpos, hfew, hlt⟩, hfree, hrequests⟩ => ⟨hidle, hpos, hfew, hlt, hfree, hrequests⟩,
      fun h => ⟨h.idle, ⟨h.pos, h.few, h.lt⟩, h.free, h.requests⟩⟩

/-- The first part of the program can be evaluated. -/
theorem untilTorn_returns : Returns untilTorn borrowBoot fun boot => TornDown boot.ctx := by
  decide +kernel

/-- All pages that the device has are taken back with one command. -/
theorem reclaimPages_borrowing (ctx : MLX5_Context (List ℕ)) {s : MEM.State} (hidle : CMD.Idle ctx.hca.args)
    (hfew : ctx.hca.dev.length ≤ 3200) (hlt : ∀ p ∈ ctx.hca.dev, p < 2 ^ 64)
    (hfree : MEM.freePages ctx.hca.dev ctx.mem_page_pool = .ok () s) :
    ∃ w, w.dev = [] ∧ CMD.Idle w.args ∧ reclaimPages borrowing 3200 ctx =
      .ok (BitVec.ofNat 32 ctx.hca.dev.length) { ctx with hca := w, mem_page_pool := s } := by
  have hexec : borrowing.exec ctx.hca.dev (reclaimCommand 3200) = ([], naming ctx.hca.dev) := by
    have hall : min (pagesOf (reclaimCommand 3200)) ctx.hca.dev.length = ctx.hca.dev.length :=
      Nat.min_eq_right hfew
    calc borrowing.exec ctx.hca.dev (reclaimCommand 3200)
        = (ctx.hca.dev.drop (min (pagesOf (reclaimCommand 3200)) ctx.hca.dev.length),
            naming (ctx.hca.dev.take (min (pagesOf (reclaimCommand 3200)) ctx.hca.dev.length))) := rfl
      _ = ([], naming ctx.hca.dev) := by rw [hall, List.drop_length, List.take_length]
  have hnumber : ((naming ctx.hca.dev).output 0).toNat = ctx.hca.dev.length := by
    show (BitVec.ofNat 32 ctx.hca.dev.length).toNat = ctx.hca.dev.length
    rw [BitVec.toNat_ofNat, Nat.mod_eq_of_lt (by omega)]
  have hround := reclaimPages_eq (D := borrowing) (borrowing_accepts _ _)
    (by rw [hexec, hnumber]; exact hfew) hidle
  rw [hexec, named_naming (by omega) hlt] at hround
  obtain ⟨w, hdev, hidle', heq⟩ := hround
  exact ⟨w, hdev, hidle', heq.trans (bind_of_ok (Lens.zoom_of_ok (t := { ctx with hca := w }) hfree))⟩

/-- A second command finds none, and then the device is disabled. -/
theorem drain_returns {ctx : MLX5_Context (List ℕ)} (h : TornDown ctx) :
    Returns drain ctx fun ctx' => ctx'.requests.map Prod.snd = [2, -1, 2] := by
  obtain ⟨⟨⟩, s, hfree, ⟨⟩⟩ := h.free
  obtain ⟨w₁, hdev₁, hidle₁, hround₁⟩ := reclaimPages_borrowing ctx h.idle h.few h.lt hfree
  obtain ⟨w₂, -, hidle₂, hround₂⟩ := reclaimPages_borrowing
    { ctx with hca := w₁, mem_page_pool := s } (s := s) hidle₁
    (by rw [hdev₁]; exact Nat.zero_le _) (by rw [hdev₁]; exact fun _ hp => absurd hp List.not_mem_nil)
    (by rw [hdev₁]; rfl)
  have hfew := h.few
  have hpos := h.pos
  -- The numbers in the replies are those of the pages.
  have hnat : (BitVec.ofNat 32 ctx.hca.dev.length).toNat = ctx.hca.dev.length := by
    rw [BitVec.toNat_ofNat]
    exact Nat.mod_eq_of_lt (by omega)
  have hint : (BitVec.ofNat 32 ctx.hca.dev.length).toInt = ctx.hca.dev.length := by
    rw [BitVec.toInt_eq_toNat_of_lt (by omega), hnat]
  have hsome : BitVec.ofNat 32 ctx.hca.dev.length ≠ 0 := fun hzero => by
    rw [hzero] at hnat
    have hlength : 0 = ctx.hca.dev.length := hnat
    omega
  -- The second round ends the loop.
  have hsecond : reclaimRounds borrowing 1 ctx.hca.dev.length { ctx with hca := w₁, mem_page_pool := s } =
      .ok (ctx.hca.dev.length : ℤ) { ctx with hca := w₂, mem_page_pool := s } := by
    rw [hdev₁] at hround₂
    rw [reclaimRounds]
    refine (bind_of_ok hround₂).trans ?_
    refine (bind_of_ok (int32_ok (n := ctx.hca.dev.length) (by omega) _)).trans ?_
    exact congrFun (if_pos rfl) _
  have hrounds : reclaimRounds borrowing 2 0 ctx =
      .ok (ctx.hca.dev.length : ℤ) { ctx with hca := w₂, mem_page_pool := s } := by
    rw [reclaimRounds]
    refine (bind_of_ok hround₁).trans ?_
    rw [hint, Int.zero_add]
    refine (bind_of_ok (int32_ok (by omega) _)).trans ?_
    exact (congrFun (if_neg hsome) _).trans hsecond
  -- The last command is accepted as well.
  obtain ⟨w₃, -, -, -, -, -, hissue⟩ := CMD.issue_cases borrowing hidle₂
    (fits_nil (n := DISABLE_HCA_OUTPUT_LENGTH) (by decide)) .DISABLE_HCA 0x0
  have hdisable := hissue.resolve_right fun hbad => hbad.1 (borrowing_accepts _ _)
  have hall : reclaimAllPages borrowing 2 ctx =
      .ok (BitVec.ofInt 32 ctx.hca.dev.length) { ctx with hca := w₂, mem_page_pool := s } :=
    bind_of_ok hrounds
  refine ⟨(), { ctx with hca := w₃, mem_page_pool := s }, ?_, h.requests⟩
  exact (bind_of_ok hall).trans (bind_of_ok (Lens.zoom_of_ok (l := hcaLens)
    (t := { ctx with hca := w₂, mem_page_pool := s }) hdisable))

/-- The program gets through. -/
theorem program_returns : Returns (program borrowing 0 threeRequests 2) borrowBoot fun boot =>
    boot.ctx.requests.map Prod.snd = [2, -1, 2] := by
  obtain ⟨⟨⟩, boot, htorn, h⟩ := untilTorn_returns
  obtain ⟨⟨⟩, ctx, hdrain, hrequests⟩ := drain_returns h
  rw [program_eq_drain]
  exact ⟨(), { boot with ctx := ctx }, (bind_of_ok htorn).trans (Lens.zoom_of_ok hdrain), hrequests⟩

end L4Rdma.Driver
