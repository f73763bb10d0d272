import L4Rdma.Driver.Serving
import L4Rdma.Pool.Snug

/-!
# Whose pages these are

The driver lends memory pages to the device. `Account` is the set of pages that the device holds, as far
as the commands and the replies say. A command may provide a page only if the device does not hold it,
and an honest device gives back pages that it holds (`settle`). On the other side of the account stands
the pool: its used pages are those that the device holds, and those that the driver uses itself
(`Holding`). Page requests of any number of pages, events and failures in any order keep this balance, as
long as the device is honest. When `main` returns, the pages that the device still holds are those that it
has withheld when it was asked for pages last, and the driver still uses one page, the one of the work
queue's doorbell record, which nothing gives back (`main_settles`). The account also says in which ways
the functions for pages can stop (`MayStop`).
-/

namespace L4Rdma

open Lib Device

namespace MEM

open PA (Snug)

variable {s : State} {rest : List Region} {K : Finset ℕ}

/-- `alloc_page` and the ways in which it stops. -/
theorem Stocked.allocPage_ends (h : Stocked s rest K) :
    Ends MEM.allocPage s
      (fun e s' => (∃ p, p ∉ K ∧ p < 2 ^ 64 ∧ physAt s' e = some p ∧ Stocked s' rest (insert p K)) ∧
        KeepsBounds s s' ∧ (Snug s → K.card < s.pool.block_size → Snug s'))
      fun err s' => (∃ what, err = .thrown what) ∨
        err = .undefined .null_deref ∧ s'.pool.size = s.pool.max := by
  obtain ⟨pre, l, hstock⟩ := h.stock
  refine (h.allocPage.and hstock.allocPage_stops).mono ?_ fun _ _ h' => h'.2
  rintro e s' ⟨htook, hbounds, hsnug⟩
  exact ⟨htook, hbounds, fun h₀ hlt => hsnug h₀ (h.card ▸ hlt)⟩

/-- Giving back one used page after the other. It stops when the kernel does not unmap memory, and where the
pool is not snug. -/
theorem Stocked.freePages (ps : List ℕ) (h : Stocked s rest K) (hnodup : ps.Nodup)
    (hps : ∀ p ∈ ps, p ∈ K) :
    Ends (MEM.freePages ps) s (fun _ s' => Stocked s' rest (K \ ps.toFinset) ∧ KeepsBounds s s' ∧
        (Snug s → Snug s'))
      fun err _ => (∃ what, err = .thrown what) ∨ err = .undefined .use_after_free ∧ ¬ Snug s := by
  induction ps generalizing s K with
  | nil =>
    refine ends_pure ⟨?_, ⟨rfl, rfl⟩, id⟩
    rwa [List.toFinset_nil, Finset.sdiff_empty]
  | cons p ps ih =>
    obtain ⟨pre, l, hstock⟩ := h.stock
    obtain ⟨hnew, hnodup⟩ := List.nodup_cons.mp hnodup
    have hused : s.pool.data.index p ≠ none := (h.index p).mp (hps p List.mem_cons_self)
    refine Ends.bind (((h.freePage p).and (hstock.freePage_stops hused)).mono (fun _ _ h' => h')
      fun _ _ h' => h'.2) ?_
    rintro _ s₁ ⟨⟨-, h₁⟩, hbounds₁, hsnug₁⟩
    have hrest : ∀ q ∈ ps, q ∈ K.erase p := fun q hq =>
      Finset.mem_erase.mpr ⟨fun heq => hnew (heq ▸ hq), hps q (List.mem_cons_of_mem p hq)⟩
    have hsets : K.erase p \ ps.toFinset = K \ (p :: ps).toFinset := by
      rw [List.toFinset_cons, Finset.sdiff_insert, Finset.erase_sdiff_comm]
    refine (ih h₁ hnodup hrest).mono ?_ ?_
    · rintro _ s' ⟨h', hbounds, hsnug⟩
      exact ⟨hsets ▸ h', ⟨hbounds.max.trans hbounds₁.max, hbounds.block_size.trans hbounds₁.block_size⟩,
        fun h₀ => hsnug (hsnug₁ h₀)⟩
    · rintro err s' (hthrown | ⟨hfreed, hnot⟩)
      · exact .inl hthrown
      · exact .inr ⟨hfreed, fun h₀ => hnot (hsnug₁ h₀)⟩

end MEM

namespace Driver

/-! ## The account -/

/-- What is known about the pages that the device holds. -/
inductive Account
  /-- It holds these pages. Whether it has ever held more than 1023 of them, and whether it has withheld
  pages when it was asked for some last. -/
  | holds (H : Finset ℕ) (crowded withheld : Bool)
  /-- It has not accepted a command. -/
  | refused
  /-- It has given back other pages than those that it held. -/
  | dishonest

variable {δ : Type} {D : CMD.HCA δ} {ctx ctx' : MLX5_Context δ} {own H : Finset ℕ} {ps qs : List ℕ}
  {acc acc' : Account} {crowded withheld : Bool} {b : Buf} {count i j : ℕ}

/-- The addresses of the pages that a command provides. -/
def given (c : CMD.Command) : List ℕ := (List.range (pagesOf c)).map (pageAt fun i => c.payload.getD i 0)

/-- The device gives back pages that it holds, each of them once, and no more than it is asked for. -/
structure Honest (H : Finset ℕ) (c : CMD.Command) (r : CMD.Reply) : Prop where
  nodup : (named r).Nodup
  held : ∀ p ∈ named r, p ∈ H
  le : (named r).length ≤ pagesOf c

/-- Whether a reply is honest can be evaluated. -/
instance (H : Finset ℕ) (c : CMD.Command) (r : CMD.Reply) : Decidable (Honest H c r) :=
  decidable_of_iff ((named r).Nodup ∧ (∀ p ∈ named r, p ∈ H) ∧ (named r).length ≤ pagesOf c)
    ⟨fun ⟨h₁, h₂, h₃⟩ => ⟨h₁, h₂, h₃⟩, fun h => ⟨h.nodup, h.held, h.le⟩⟩

/-- The device holds pages, is asked for some, and gives none of them back. -/
def Withholds (H : Finset ℕ) (c : CMD.Command) (r : CMD.Reply) : Prop :=
  0 < pagesOf c ∧ H.Nonempty ∧ named r = []

/-- So can whether it withholds pages. -/
instance (H : Finset ℕ) (c : CMD.Command) (r : CMD.Reply) : Decidable (Withholds H c r) :=
  inferInstanceAs (Decidable (_ ∧ _ ∧ _))

/-- A MANAGE_PAGES command with this `op_mod`. -/
def Manages (c : CMD.Command) (op_mod : Word) : Prop :=
  c.opcode = CMD.OPCODE.MANAGE_PAGES.value ∧ c.op_mod = op_mod

/-- So can what a command is about. -/
instance (c : CMD.Command) (op_mod : Word) : Decidable (Manages c op_mod) :=
  inferInstanceAs (Decidable (_ ∧ _))

/-- The account after pages have been given to a device that holds those of `H`. -/
def lend (H : Finset ℕ) (crowded withheld : Bool) (ps : List ℕ) : Account :=
  .holds (H ∪ ps.toFinset) (crowded || decide (1023 < (H ∪ ps.toFinset).card)) withheld

/-- The account after a message. There is none if a command provides a page twice, or one that the device
holds, or comes after one that the device has not accepted. -/
def settle : Account → Message → Option Account
  | .holds H crowded withheld, .exchange (c, r) =>
    if Manages c 1 then
      if (given c).Nodup ∧ ∀ p ∈ given c, p ∉ H then
        some (if r.Accepted then lend H crowded withheld (given c) else .refused)
      else none
    else if Manages c 2 then
      some (if r.Accepted then
        if Honest H c r then .holds (H \ (named r).toFinset) crowded (Withholds H c r) else .dishonest
      else .refused)
    else some (if r.Accepted then .holds H crowded withheld else .refused)
  | .holds H crowded withheld, .request _ => some (.holds H crowded withheld)
  | .refused, _ => none
  | .dishonest, _ => some .dishonest

/-- After other pages than those that it held, a device may give back anything. -/
theorem absorbing_dishonest : Absorbing settle .dishonest := fun _ _ h => (Option.some.inj h).symm

/-! ## The balance -/

/-- The used pages of the pool are those that the device holds, and those that the driver uses itself. There
is only one block of pages as long as they fit in it. -/
structure Holding (own H : Finset ℕ) (crowded : Bool) (ctx : MLX5_Context δ) : Prop where
  idle : CMD.Idle ctx.hca.args
  disjoint : Disjoint H own
  stocked : ∃ rest, MEM.Stocked ctx.mem_page_pool rest (H ∪ own)
  max : ctx.mem_page_pool.pool.max = 65536
  block_size : ctx.mem_page_pool.pool.block_size = 1024
  snug : crowded = false → (H ∪ own).card ≤ 1024 → PA.Snug ctx.mem_page_pool

/-- The balance, with these pages that the driver uses itself, as long as the account is known. -/
def Ledger (own : Finset ℕ) (ctx : MLX5_Context δ) : Account → Prop
  | .holds H crowded _ => (crowded = false → H.card ≤ 1023) ∧ Holding own H crowded ctx
  | .refused => False
  | .dishonest => CMD.Idle ctx.hca.args

/-- In balance, the driver can issue a command. -/
theorem Ledger.idle (h : Ledger own ctx acc) : CMD.Idle ctx.hca.args := by
  cases acc with
  | holds H crowded withheld => exact h.2.idle
  | refused => exact h.elim
  | dishonest => exact h

/-- The ways in which the driver can stop: it throws, or the device has been dishonest, or all memory pages
are used, or the device has held more pages than fit in a block. -/
inductive MayStop (ctx : MLX5_Context δ) : Account → Stop → Prop
  | thrown {acc : Account} (what : String) : MayStop ctx acc (.thrown what)
  | dishonest (err : Stop) : MayStop ctx .dishonest err
  /-- An access through the null pointer that `alloc_page` returns. -/
  | exhausted {acc : Account} (hsize : ctx.mem_page_pool.pool.size = 65536) :
    MayStop ctx acc (.undefined .null_deref)
  /-- An access to a block that has been destroyed, through the head of the list of blocks. -/
  | crowded (H : Finset ℕ) (withheld : Bool) : MayStop ctx (.holds H true withheld) (.undefined .use_after_free)

/-- A program that only provides pages that the device does not hold, and stops in no other way, with a
postcondition for the case that it returns. -/
abbrev Settles {α : Type} (D : CMD.HCA δ) (x : Exec (MLX5_Context δ) α) (ctx : MLX5_Context δ)
    (acc : Account) (R : α → MLX5_Context δ → Account → Prop) : Prop :=
  Obeys (talk D) settle x ctx acc R fun err ctx' acc' => MayStop ctx' acc' err

/-- A command within the limits, after which the device has accepted it, or the driver throws. -/
theorem settles_issue {payload : Buf} {payload_length output_length : ℕ} (hidle : CMD.Idle ctx.hca.args)
    (hfits : CMD.Fits payload payload_length output_length) (opcode : CMD.OPCODE) (op_mod : Word)
    (hnext : let c := CMD.command opcode op_mod payload payload_length output_length
      settle acc (.exchange (c, ctx.hca.reply D c)) =
        some (if (ctx.hca.reply D c).Accepted then acc' else .refused)) :
    Settles D (hcaLens.zoom (CMD.issue D opcode op_mod payload payload_length output_length)) ctx acc
      fun slot ctx' acc'' => acc'' = acc' ∧ ctx' = { ctx with hca := ctx'.hca } ∧
        CMD.Issued slot output_length (ctx.hca.reply D
          (CMD.command opcode op_mod payload payload_length output_length)) ctx'.hca := by
  have hobeys := obeys_hca settle (CMD.obeys_issue D hidle hfits opcode op_mod hnext)
  refine Obeys.mono hobeys ?_ ?_
  · rintro slot ctx' acc'' ⟨hctx, hacc, hissued⟩
    exact ⟨hacc, hctx, hissued⟩
  · rintro err ctx' acc'' ⟨⟨what, rfl⟩, -⟩
    exact .thrown what

/-- A page that the driver takes was neither the device's nor its own before. -/
theorem Holding.allocPage (h : Holding own H crowded ctx) :
    Ends (memLens.zoom MEM.allocPage) ctx
      (fun e ctx' => ∃ p, p ∉ own ∧ p < 2 ^ 64 ∧ MEM.physAt ctx'.mem_page_pool e = some p ∧
        spoken ctx' = spoken ctx ∧ Holding (insert p own) H crowded ctx')
      fun err ctx' => spoken ctx' = spoken ctx ∧ ∀ acc, MayStop ctx' acc err := by
  obtain ⟨rest, hstocked⟩ := h.stocked
  refine (hstocked.allocPage_ends (s := memLens.view ctx)).zoom.mono ?_ ?_
  · rintro e ctx' ⟨s, rfl, ⟨p, hnew, hlt, hphys, hstocked'⟩, hbounds, hsnug⟩
    obtain ⟨hH, hown⟩ := Finset.notMem_union.mp hnew
    refine ⟨p, hown, hlt, hphys, rfl, h.idle, ?_, ⟨rest, ?_⟩, ?_, ?_, fun hcrowded hcard => ?_⟩
    · exact Finset.disjoint_insert_right.mpr ⟨hH, h.disjoint⟩
    · rw [Finset.union_insert]
      exact hstocked'
    · exact hbounds.max.trans h.max
    · exact hbounds.block_size.trans h.block_size
    · -- The page before it was not the last one of the block.
      rw [Finset.union_insert, Finset.card_insert_of_notMem hnew] at hcard
      have hsize : (memLens.view ctx).pool.block_size = 1024 := h.block_size
      exact hsnug (h.snug hcrowded (by omega)) (by omega)
  · rintro err ctx' ⟨s, rfl, ⟨what, rfl⟩ | ⟨rfl, hfull⟩⟩
    · exact ⟨rfl, fun acc => .thrown what⟩
    · exact ⟨rfl, fun acc => .exhausted (hfull.trans h.max)⟩

/-- The device gives back pages that it holds. -/
theorem Holding.freePages (h : Holding own H crowded ctx) (hcard : crowded = false → (H ∪ own).card ≤ 1024)
    (hnodup : ps.Nodup) (hps : ∀ p ∈ ps, p ∈ H) :
    Ends (memLens.zoom (MEM.freePages ps)) ctx
      (fun _ ctx' => spoken ctx' = spoken ctx ∧ Holding own (H \ ps.toFinset) crowded ctx')
      fun err ctx' => spoken ctx' = spoken ctx ∧
        ∀ H' withheld, MayStop ctx' (.holds H' crowded withheld) err := by
  obtain ⟨rest, hstocked⟩ := h.stocked
  have hown : own \ ps.toFinset = own := by
    refine Finset.sdiff_eq_self_of_disjoint (Finset.disjoint_left.mpr fun p hp hps' => ?_)
    exact Finset.disjoint_left.mp h.disjoint (hps p (List.mem_toFinset.mp hps')) hp
  have hmem : ∀ p ∈ ps, p ∈ H ∪ own := fun p hp => Finset.mem_union_left own (hps p hp)
  refine (hstocked.freePages (s := memLens.view ctx) ps hnodup hmem).zoom.mono ?_ ?_
  · rintro _ ctx' ⟨s, rfl, hstocked', hbounds, hsnug⟩
    rw [Finset.union_sdiff_distrib, hown] at hstocked'
    exact ⟨rfl, h.idle, Finset.disjoint_of_subset_left Finset.sdiff_subset h.disjoint, ⟨rest, hstocked'⟩,
      hbounds.max.trans h.max, hbounds.block_size.trans h.block_size,
      fun hcrowded _ => hsnug (h.snug hcrowded (hcard hcrowded))⟩
  · rintro err ctx' ⟨s, rfl, ⟨what, rfl⟩ | ⟨rfl, hnot⟩⟩
    · exact ⟨rfl, fun H' withheld => .thrown what⟩
    · refine ⟨rfl, fun H' withheld => ?_⟩
      cases crowded with
      | true => exact .crowded H' withheld
      | false => exact absurd (h.snug rfl (hcard rfl)) hnot

/-- The driver gives pages of its own to the device. -/
theorem Holding.give (h : Holding (own ∪ qs.toFinset) H crowded ctx) (hqs : ∀ p ∈ qs, p ∉ own)
    {w : CMD.World δ} (hidle : CMD.Idle w.args) (more : Bool) :
    Holding own (H ∪ qs.toFinset) (crowded || more) { ctx with hca := w } := by
  have hsets : H ∪ qs.toFinset ∪ own = H ∪ (own ∪ qs.toFinset) := by
    rw [Finset.union_assoc, Finset.union_comm qs.toFinset own]
  refine ⟨hidle, ?_, hsets ▸ h.stocked, h.max, h.block_size, ?_⟩
  · refine Finset.disjoint_union_left.mpr ⟨?_, Finset.disjoint_left.mpr fun p hp => ?_⟩
    · exact (Finset.disjoint_union_right.mp h.disjoint).1
    · exact hqs p (List.mem_toFinset.mp hp)
  · rw [hsets]
    exact fun hcrowded => h.snug (Bool.or_eq_false_iff.mp hcrowded).1

/-! ## Providing pages -/

/-- The halves of the addresses, one after the other. -/
theorem getD_halves (ps : List ℕ) (hi : i < ps.length) :
    (ps.flatMap halves).getD (i * 2) 0 = msb ps[i] ∧ (ps.flatMap halves).getD (i * 2 + 1) 0 = lsb ps[i] := by
  induction ps generalizing i with
  | nil => exact absurd hi (Nat.not_lt_zero i)
  | cons p ps ih =>
    cases i with
    | zero => exact ⟨rfl, rfl⟩
    | succ i =>
      have hnext := ih (Nat.lt_of_succ_lt_succ hi)
      have hindex : (i + 1) * 2 = i * 2 + 1 + 1 := by omega
      rw [hindex]
      exact hnext

/-- The number of pages that the command of `provide_pages` provides. -/
theorem pagesOf_provideCommand (hlength : ps.length ≤ 3200) : pagesOf (provideCommand ps) = ps.length := by
  show (BitVec.ofNat 32 ps.length).toNat = ps.length
  rw [BitVec.toNat_ofNat, Nat.mod_eq_of_lt (by omega)]

/-- The device reads the addresses that the driver has written. -/
theorem given_provideCommand (hlength : ps.length ≤ 3200) (hlt : ∀ p ∈ ps, p < 2 ^ 64) :
    given (provideCommand ps) = ps := by
  unfold given
  rw [pagesOf_provideCommand hlength]
  refine List.ext_getElem (by rw [List.length_map, List.length_range]) fun i _ hi => ?_
  obtain ⟨hmsb, hlsb⟩ := getD_halves ps hi
  have hfirst : (pageWords ps.length ps).getD (2 + i * 2) 0 = msb ps[i] := by
    rw [Nat.add_comm]
    exact hmsb
  have hsecond : (pageWords ps.length ps).getD (2 + i * 2 + 1) 0 = lsb ps[i] := by
    rw [show 2 + i * 2 + 1 = i * 2 + 1 + 2 by omega]
    exact hlsb
  rw [List.getElem_map, List.getElem_range]
  calc pageAt (fun i => (pageWords ps.length ps).getD i 0) i
      = address (msb ps[i]) (lsb ps[i]) := congrArg₂ address hfirst hsecond
    _ = ps[i] := address_msb_lsb (hlt _ (List.getElem_mem hi))

/-- A command with the words of `ps` is the one that provides these pages. -/
theorem command_provide (hfilled : Filled count ps b) (hlength : ps.length = count) :
    CMD.command .MANAGE_PAGES 0x1 b (2 + count * 2) 2 = provideCommand ps := by
  have hwords := hfilled.words
  rw [hlength] at hwords
  rw [CMD.command, hwords, provideCommand, hlength]
  rfl

/-- The account after pages have been provided that the device does not hold. -/
theorem settle_provide (hnodup : ps.Nodup) (hnew : ∀ p ∈ ps, p ∉ H) (hlength : ps.length ≤ 3200)
    (hlt : ∀ p ∈ ps, p < 2 ^ 64) (r : CMD.Reply) :
    settle (.holds H crowded withheld) (.exchange (provideCommand ps, r)) =
      some (if r.Accepted then lend H crowded withheld ps else .refused) := by
  have hmanages : Manages (provideCommand ps) 1 := ⟨rfl, rfl⟩
  have hgiven := given_provideCommand hlength hlt
  unfold settle
  simp only [if_pos hmanages, hgiven]
  exact if_pos ⟨hnodup, hnew⟩

/-- The pages with the addresses `qs` have been taken for a command. They are the driver's own until it is
issued. -/
structure Gathered (own H : Finset ℕ) (crowded : Bool) (ctx₀ : MLX5_Context δ) (count : ℕ) (qs : List ℕ)
    (b : Buf) (ctx : MLX5_Context δ) : Prop where
  filled : Filled count qs b
  nodup : qs.Nodup
  new : ∀ p ∈ qs, p ∉ own
  lt : ∀ p ∈ qs, p < 2 ^ 64
  spoken_eq : spoken ctx = spoken ctx₀
  holding : Holding (own ∪ qs.toFinset) H crowded ctx

/-- One more page. -/
theorem Gathered.providePage {ctx₀ : MLX5_Context δ} (h : Gathered own H crowded ctx₀ count qs b ctx)
    (hlength : qs.length = j) (hj : j < 3200) :
    Ends (providePage j b) ctx (fun b' ctx' => ∃ p, Gathered own H crowded ctx₀ count (qs ++ [p]) b' ctx')
      fun err ctx' => spoken ctx' = spoken ctx₀ ∧ ∀ acc, MayStop ctx' acc err := by
  have hsize : b.size = 2 + 128 * 50 := h.filled.size
  unfold Driver.providePage
  refine Ends.bind (h.holding.allocPage.mono (fun _ _ h' => h') fun _ _ h' => ⟨h'.1.trans h.spoken_eq, h'.2⟩) ?_
  -- The page that is taken is neither the device's nor one of those taken before.
  rintro e ctx₁ ⟨p, hnew, hlt, hphys, hspoken, hholding⟩
  obtain ⟨blk, hblk, rfl⟩ := MEM.exists_block_of_physAt hphys
  have hderef : memLens.zoom (PA.deref (some e.block)) ctx₁ = .ok blk ctx₁ :=
    Lens.zoom_of_ok (PA.deref_of_block hblk)
  obtain ⟨hown, hqs⟩ := Finset.notMem_union.mp hnew
  -- Its address goes to the payload after the others.
  have hfilled := h.filled.concat (blk.start e.index).data.phys
  rw [hlength] at hfilled
  have hlarge : 2 + j * 2 + 1 < b.size := by omega
  refine Ends.bind_of_ok hderef (Ends.bind_of_ok (Buf.write_of_lt (by omega) _ ctx₁) ?_)
  refine ends_of_ok (Buf.write_of_lt (by exact hlarge) _ ctx₁)
    ⟨(blk.start e.index).data.phys, hfilled, ?_, fun q hq => ?_, fun q hq => ?_, hspoken.trans h.spoken_eq, ?_⟩
  · refine List.nodup_append.mpr ⟨h.nodup, List.nodup_singleton _, fun q hq q' hq' heq => ?_⟩
    rw [heq, List.mem_singleton.mp hq'] at hq
    exact hqs (List.mem_toFinset.mpr hq)
  · rcases List.mem_append.mp hq with hq | hq
    · exact h.new q hq
    · exact List.mem_singleton.mp hq ▸ hown
  · rcases List.mem_append.mp hq with hq | hq
    · exact h.lt q hq
    · exact List.mem_singleton.mp hq ▸ hlt
  · -- It is one of the driver's own now.
    have hsets : own ∪ (qs ++ [(blk.start e.index).data.phys]).toFinset =
        insert (blk.start e.index).data.phys (own ∪ qs.toFinset) := by
      ext q
      simp [or_comm]
    rwa [hsets]

/-- The pages of one command. -/
theorem pageLoop_gathers (hcount : count ≤ 3200) (h : Gathered own H crowded ctx count [] b ctx) :
    Ends (forRange count b Driver.providePage) ctx
      (fun b' ctx' => ∃ qs : List ℕ, qs.length = count ∧ Gathered own H crowded ctx count qs b' ctx')
      fun err ctx' => spoken ctx' = spoken ctx ∧ ∀ acc, MayStop ctx' acc err := by
  refine ends_forRange
    (fun j b' ctx' => ∃ qs : List ℕ, qs.length = j ∧ Gathered own H crowded ctx count qs b' ctx')
    ⟨[], rfl, h⟩ ?_
  rintro j b' ctx' hj ⟨qs, hlength, hgathered⟩
  refine (hgathered.providePage hlength (by omega)).mono ?_ fun _ _ h' => h'
  rintro b'' ctx'' ⟨p, h'⟩
  exact ⟨qs ++ [p], by rw [List.length_append, hlength, List.length_singleton], h'⟩

/-- What one round of `provide_pages` keeps. -/
def Lending (own : Finset ℕ) (b : Buf) (ctx : MLX5_Context δ) (acc : Account) : Prop :=
  b.size = IMB_MAX_PAGE_PAYLOAD ∧ acc ≠ .dishonest ∧ Ledger own ctx acc

/-- The balance after pages of the driver have been given to the device. -/
theorem Holding.lend (h : Holding (own ∪ qs.toFinset) H crowded ctx) (hqs : ∀ p ∈ qs, p ∉ own)
    {w : CMD.World δ} (hidle : CMD.Idle w.args) :
    Ledger own { ctx with hca := w } (lend H crowded withheld qs) := by
  refine ⟨fun hcrowded => ?_, h.give hqs hidle _⟩
  obtain ⟨-, hfew⟩ := Bool.or_eq_false_iff.mp hcrowded
  exact Nat.le_of_not_lt (of_decide_eq_false hfew)

/-- A command of `provide_pages` gives pages to the device that have just been taken. -/
theorem provideBatch_settles (page_count : ℕ) (h : Lending own b ctx acc) :
    Settles D (provideBatch D page_count i b) ctx acc (Lending own) := by
  obtain ⟨hsize, hhonest, hledger⟩ := h
  cases acc with
  | refused => exact hledger.elim
  | dishonest => exact absurd rfl hhonest
  | holds H crowded withheld =>
    obtain ⟨-, hholding⟩ := hledger
    have hle := payloadPageCount_le page_count i
    unfold provideBatch
    generalize payloadPageCount page_count i = count at hle
    -- The payload starts with the number of pages.
    have hlarge : 1 < b.size := by
      rw [hsize]
      norm_num
    refine Obeys.bind_of_ok (Buf.write_of_lt (Nat.lt_of_succ_lt hlarge) _ ctx) ?_
    refine Obeys.bind_of_ok (Buf.write_of_lt (by exact hlarge) _ ctx) ?_
    have hstart := filled_nil count hsize
    generalize (⟨b.size, Function.update _ 1 (BitVec.ofNat 32 count)⟩ : Buf) = b₁ at hstart ⊢
    -- The pages are taken, and are the driver's own.
    have hloop := pageLoop_gathers hle (show Gathered own H crowded ctx count [] b₁ ctx from
      ⟨hstart, List.nodup_nil, fun _ hp => absurd hp List.not_mem_nil,
        fun _ hp => absurd hp List.not_mem_nil, rfl, by rwa [List.toFinset_nil, Finset.union_empty]⟩)
    have hgather : Settles D (forRange count b₁ Driver.providePage) ctx (.holds H crowded withheld)
        fun b' ctx' acc' => acc' = .holds H crowded withheld ∧
          ∃ qs : List ℕ, qs.length = count ∧ Gathered own H crowded ctx count qs b' ctx' := by
      refine obeys_of_silent (hloop.mono ?_ fun _ ctx' h' => ⟨said_nil h'.1, h'.2 _⟩)
      rintro b' ctx' ⟨qs, hlength, hgathered⟩
      exact ⟨said_nil hgathered.spoken_eq, rfl, qs, hlength, hgathered⟩
    refine hgather.bind ?_
    rintro b' ctx₁ _ ⟨rfl, qs, hlength, hgathered⟩
    have hfits : CMD.Fits b' (2 + count * 2) 2 := by
      have hsize' : b'.size = 2 + 128 * 50 := hgathered.filled.size
      refine ⟨?_, ?_, ?_⟩
      · unfold CMD.IMB_MAX_DATA CMD.MBB_MAX_COUNT
        omega
      · omega
      · norm_num
    -- The command provides them, and the device does not hold any of them.
    have hcommand := command_provide hgathered.filled hlength
    have hapart := (Finset.disjoint_union_right.mp hgathered.holding.disjoint).2
    have hnew : ∀ p ∈ qs, p ∉ H := fun p hp hH =>
      Finset.disjoint_left.mp hapart hH (List.mem_toFinset.mpr hp)
    have hnext : ∀ r, settle (.holds H crowded withheld) (.exchange (provideCommand qs, r)) =
        some (if r.Accepted then lend H crowded withheld qs else .refused) :=
      settle_provide hgathered.nodup hnew (by omega) hgathered.lt
    -- If the device accepts the command, they are its own from now on.
    rw [← hcommand] at hnext
    refine Obeys.bind (settles_issue hgathered.holding.idle hfits .MANAGE_PAGES 0x1 (hnext _)) ?_
    rintro slot ctx₂ acc' ⟨rfl, hctx, hissued⟩
    refine obeys_pure ⟨hgathered.filled.size, fun hdishonest => (nomatch hdishonest), ?_⟩
    rw [hctx]
    exact hgathered.holding.lend hgathered.new hissued.idle

/-! ## Without an account -/

/-- Nothing is known of the pages that the device holds. -/
def Unknown (ctx : MLX5_Context δ) (acc : Account) : Prop := CMD.Idle ctx.hca.args ∧ acc = .dishonest

/-- This is the balance after a dishonest reply. -/
theorem Unknown.ledger (h : Unknown ctx acc) : Ledger own ctx acc := by
  obtain ⟨hidle, rfl⟩ := h
  exact hidle

/-- It does not depend on anything else. -/
theorem unknown_lasting : Lasting (Unknown (δ := δ)) where
  idle _ _ h := h.1
  quiet _ _ _ h hquiet := ⟨hquiet.hca ▸ h.1, h.2⟩

/-- Any command may come. -/
theorem unknown_allows (opcode : CMD.OPCODE) : Allows settle (Unknown (δ := δ)) Unknown opcode := by
  rintro ctx acc ⟨-, rfl⟩ c r -
  exact ⟨.dishonest, rfl, fun _ w hidle => ⟨hidle, rfl⟩⟩

/-- The memory pages have no share in it. -/
theorem unknown_mem {α : Type} (x : Exec MEM.State α) :
    Passes D settle Unknown Unknown (memLens.zoom x) := fun _ _ h =>
  obeys_of_leaves said_nil (leaves_zoom (fun _ _ => rfl) x)
    (fun _ ctx' heq => ⟨show CMD.Idle ctx'.hca.args from (Prod.mk.inj heq).1 ▸ h.1, h.2⟩)
    fun _ _ _ => trivial

/-- Without an account the program may stop in any way. -/
theorem Settles.of_unknown {α : Type} {x : Exec (MLX5_Context δ) α} (hx : Passes D settle Unknown Unknown x)
    (hidle : CMD.Idle ctx.hca.args) :
    Settles D x ctx .dishonest fun _ ctx' acc' => CMD.Idle ctx'.hca.args ∧ acc' = .dishonest := by
  refine Obeys.mono (Obeys.absorbed absorbing_dishonest (hx ctx .dishonest ⟨hidle, rfl⟩)) ?_ ?_
  · rintro _ ctx' acc' ⟨-, h⟩
    exact h
  · rintro err ctx' acc' ⟨rfl, -⟩
    exact .dishonest err

/-- `provide_pages` keeps the balance, for any number of pages. -/
theorem providePages_settles (page_count : ℕ) (h : Ledger own ctx acc) :
    Settles D (providePages D page_count) ctx acc fun _ => Ledger own := by
  by_cases hhonest : acc = .dishonest
  · subst hhonest
    have hpasses := unknown_lasting.passes_providePages (D := D) (unknown_allows _) unknown_mem page_count
    exact (Settles.of_unknown hpasses h.idle).mono (fun _ _ _ h' => Unknown.ledger h') fun _ _ _ h' => h'
  · have hstart : Lending own ⟨IMB_MAX_PAGE_PAYLOAD, ctx.uninit⟩ ctx acc := ⟨rfl, hhonest, h⟩
    unfold providePages
    refine Obeys.bind_of_ok (get_apply ctx) ?_
    refine (obeys_forRange (fun _ => Lending own) hstart fun i b ctx' acc' _ h' =>
      provideBatch_settles page_count h').bind ?_
    rintro b ctx' acc' ⟨-, -, h'⟩
    exact obeys_pure h'

/-- `provide_pages` keeps the balance. -/
theorem passes_providePages (page_count : ℕ) :
    Passes D settle (Ledger own) (Ledger own) (providePages D page_count) := fun _ _ h =>
  (providePages_settles page_count h).mono (fun _ _ _ h' => h') fun _ _ _ _ => trivial

/-! ## Reclaiming pages -/

/-- The number of pages that the command of `reclaim_pages` asks for. -/
theorem pagesOf_reclaimCommand {n : ℤ} (hpos : 0 ≤ n) (hn : n ≤ 3200) :
    pagesOf (reclaimCommand n) = n.toNat := by
  show (BitVec.ofInt 32 n).toNat = n.toNat
  rw [BitVec.toNat_ofInt]
  omega

/-- The account after the device has been asked for pages. -/
theorem settle_reclaim (k : ℤ) (r : CMD.Reply) :
    settle (.holds H crowded withheld) (.exchange (reclaimCommand k, r)) = some (if r.Accepted then
      if Honest H (reclaimCommand k) r then
        .holds (H \ (named r).toFinset) crowded (Withholds H (reclaimCommand k) r)
      else .dishonest
    else .refused) := by
  have hother : ¬ (2 : Word) = 1 := by decide
  have hprovides : ¬ Manages (reclaimCommand k) 1 := fun h => hother h.2
  have hreclaims : Manages (reclaimCommand k) 2 := ⟨rfl, rfl⟩
  unfold settle
  simp only [if_neg hprovides, if_pos hreclaims]

/-- The output has the addresses that the reply names, and the loop frees these pages. -/
theorem takeNamed_ok {k : ℤ} (hk : k ≤ 3200) {slot : ℕ} {r : CMD.Reply}
    (hanswered : CMD.Answered ctx.hca.args slot (2 + 2 * k.toNat) r)
    (hle : (r.output 0).toNat ≤ k.toNat) (uninit : ℕ → Word) :
    ∃ output, argsLens.zoom (CMD.getCmdOutput slot ⟨CMD.OMB_MAX_DATA + 2, uninit⟩ (2 + 2 * k.toNat)) ctx =
        .ok output ctx ∧
      forRange (r.output 0).toInt.toNat () (reclaimPage output) ctx =
        memLens.zoom (MEM.freePages (named r)) ctx := by
  have hroom : 2 + 2 * k.toNat ≤ Buf.size ⟨CMD.OMB_MAX_DATA + 2, uninit⟩ := by
    show 2 + 2 * k.toNat ≤ 128 * 50 + 2
    omega
  have hlength : 2 + 2 * k.toNat ≤ 2 + CMD.OMB_MAX_DATA := by
    show 2 + 2 * k.toNat ≤ 2 + 128 * 50
    omega
  obtain ⟨output, hget, hsize, hwords⟩ := CMD.getCmdOutput_ok hanswered hlength hroom
  have hpages : (List.range' 0 (r.output 0).toNat).map (pageAt output.word) = named r := by
    rw [named, List.range_eq_range']
    refine List.map_congr_left fun i hi => ?_
    rw [List.mem_range'_1] at hi
    rw [pageAt, pageAt, hwords _ (by omega), hwords _ (by omega)]
  have hint : (r.output 0).toInt.toNat = (r.output 0).toNat := by
    rw [BitVec.toInt_eq_toNat_of_lt (by omega)]
    exact Int.toNat_natCast _
  have hloop := forFrom_reclaimPage (δ := δ) hsize (r.output 0).toNat 0 () ctx (by omega)
  refine ⟨output, Lens.zoom_of_ok hget, ?_⟩
  rw [hint, ← hpages]
  exact hloop

/-- What a call for pages makes of the account. What it returns is the number of pages that an honest device
has given back. If there are none, the device holds none, or it withholds some. -/
def GaveBack (k : ℤ) (count : Word) (acc acc' : Account) : Prop :=
  acc' = .dishonest ∨ ∃ H H' crowded withheld withheld', acc = .holds H crowded withheld ∧
    acc' = .holds H' crowded withheld' ∧ H' ⊆ H ∧ count.toInt = H.card - H'.card ∧
    (0 < k → count = 0 → withheld' = false → H' = ∅)

/-- The number of pages that an honest device names. -/
theorem Honest.number {k : ℤ} {r : CMD.Reply} (h : Honest H (reclaimCommand k) r) (hpos : 0 ≤ k)
    (hk : k ≤ 3200) :
    (r.output 0).toNat ≤ k.toNat ∧ (r.output 0).toInt = H.card - (H \ (named r).toFinset).card := by
  have hle : (r.output 0).toNat ≤ k.toNat := by
    rw [← length_named, ← pagesOf_reclaimCommand hpos hk]
    exact h.le
  have hsub : (named r).toFinset ⊆ H := fun p hp => h.held p (List.mem_toFinset.mp hp)
  have hcard : (named r).toFinset.card = (r.output 0).toNat := by
    rw [List.toFinset_card_of_nodup h.nodup, length_named]
  have hsplit := Finset.card_sdiff_add_card_eq_card hsub
  refine ⟨hle, ?_⟩
  rw [BitVec.toInt_eq_toNat_of_lt (by omega)]
  omega

/-- A device that names no page and withholds none holds none. -/
theorem empty_of_not_withholds {k : ℤ} {r : CMD.Reply} (hpos : 0 < k) (hk : k ≤ 3200)
    (hzero : r.output 0 = 0) (hnot : ¬ Withholds H (reclaimCommand k) r) :
    H \ (named r).toFinset = ∅ := by
  have hnil : named r = [] := named_eq_nil.mpr hzero
  by_contra hne
  rw [hnil, List.toFinset_nil, Finset.sdiff_empty] at hne
  refine hnot ⟨?_, Finset.nonempty_iff_ne_empty.mpr hne, hnil⟩
  rw [pagesOf_reclaimCommand (Int.le_of_lt hpos) hk]
  omega

/-- A call for pages that fit into the buffer. -/
theorem reclaimPages_settles {k : ℤ} (hown : own.card ≤ 1) (hpos : 0 ≤ k) (hk : k ≤ 3200)
    (h : Ledger own ctx acc) :
    Settles D (reclaimPages D k) ctx acc fun count ctx' acc' =>
      Ledger own ctx' acc' ∧ GaveBack k count acc acc' := by
  cases acc with
  | refused => exact h.elim
  | dishonest =>
    -- After a dishonest reply nothing matters.
    have hpasses := unknown_lasting.passes_reclaimPages (D := D) (unknown_allows _) unknown_mem k
    refine (Settles.of_unknown hpasses h).mono ?_ fun _ _ _ h' => h'
    rintro _ ctx' acc' ⟨hidle, rfl⟩
    exact ⟨hidle, .inl rfl⟩
  | holds H crowded withheld =>
    obtain ⟨hfew, hholding⟩ := h
    unfold reclaimPages
    refine Obeys.bind_of_ok (reclaimOutputLength_ok hpos (by omega) ctx) ?_
    refine Obeys.bind_of_ok (get_apply ctx) ?_
    -- The command may come, and the account after it depends on the reply.
    have hnext := @settle_reclaim H crowded withheld k
    rw [← command_reclaim] at hnext
    refine Obeys.bind (settles_issue hholding.idle (fits_reclaim hk) .MANAGE_PAGES 0x2 (hnext _)) ?_
    rintro slot ctx₁ _ ⟨rfl, hctx, hissued⟩
    rw [command_reclaim] at hissued ⊢
    generalize (ctx.hca.reply D (reclaimCommand k)) = r at hissued ⊢
    have hcount : ioread32be ((ctx₁.hca.args.cqe slot).cod.output 0) = r.output 0 :=
      hissued.answered.inline 0 (Nat.lt_of_lt_of_le Nat.zero_lt_two (Nat.le_add_right 2 _))
    refine Obeys.bind_of_ok (get_apply ctx₁) ?_
    rw [hcount]
    -- The loop frees what the device names. Are these pages that it holds?
    by_cases hhonest : Honest H (reclaimCommand k) r
    swap
    · -- The account is closed, and whatever is freed does not matter.
      rw [if_neg hhonest]
      have hrest := fun output => leaves_freeNamed (δ := δ) output (r.output 0)
      refine obeys_of_leaves said_nil ((leaves_takeOutput _ slot _ _).bind hrest) (fun _ ctx' heq => ?_)
        fun err _ _ => .dishonest err
      have hhca : ctx'.hca = ctx₁.hca := congrArg Prod.fst heq
      exact ⟨show CMD.Idle ctx'.hca.args from hhca ▸ hissued.idle, .inl rfl⟩
    rw [if_pos hhonest]
    -- The output has room for the addresses that an honest device names.
    obtain ⟨hle, hnumber⟩ := hhonest.number hpos hk
    obtain ⟨output, hget, hloop⟩ := takeNamed_ok hk hissued.answered hle ctx.uninit
    refine Obeys.bind_of_ok hget ?_
    have hholding₁ : Holding own H crowded ctx₁ := by
      rw [hctx]
      exact ⟨hissued.idle, hholding.disjoint, hholding.stocked, hholding.max, hholding.block_size,
        hholding.snug⟩
    -- They are used pages of the pool, and can be freed in any order as long as there is one block.
    have hroom : crowded = false → (H ∪ own).card ≤ 1024 := fun hcrowded => by
      have hunion := Finset.card_union_le H own
      have hfew' := hfew hcrowded
      omega
    -- So the loop gives all of them back to the pool.
    have hfree : Settles D (forRange (r.output 0).toInt.toNat () (reclaimPage output)) ctx₁
        (.holds (H \ (named r).toFinset) crowded (Withholds H (reclaimCommand k) r)) fun _ ctx' acc' =>
          acc' = .holds (H \ (named r).toFinset) crowded (Withholds H (reclaimCommand k) r) ∧
            Holding own (H \ (named r).toFinset) crowded ctx' := by
      refine obeys_of_silent (Ends.congr hloop
        ((hholding₁.freePages hroom hhonest.nodup hhonest.held).mono ?_ ?_))
      · exact fun _ ctx' h' => ⟨said_nil h'.1, rfl, h'.2⟩
      · exact fun _ ctx' h' => ⟨said_nil h'.1, h'.2 _ _⟩
    refine hfree.bind ?_
    rintro _ ctx₂ _ ⟨rfl, hholding₂⟩
    have hsub : H \ (named r).toFinset ⊆ H := Finset.sdiff_subset
    -- A device that names none and withholds none holds none.
    have hempty : 0 < k → r.output 0 = 0 → decide (Withholds H (reclaimCommand k) r) = false →
        H \ (named r).toFinset = ∅ := fun hlt hzero hnot =>
      empty_of_not_withholds hlt hk hzero (of_decide_eq_false hnot)
    refine obeys_pure ⟨⟨fun hcrowded => ?_, hholding₂⟩,
      .inr ⟨H, _, crowded, withheld, _, rfl, rfl, hsub, hnumber, hempty⟩⟩
    exact (Finset.card_le_card hsub).trans (hfew hcrowded)

/-- A call for more pages does not return. -/
theorem reclaimPages_settlesLong {k : ℤ} (hk : 3200 < k) (h : Ledger own ctx acc) :
    Obeys (talk D) settle (reclaimPages D k) ctx acc (fun _ _ _ => False) fun _ _ _ => True := by
  refine reclaimPages_long hk h.idle ?_
  rintro c r ⟨hopcode, hmod, -, -⟩
  cases acc with
  | refused => exact h.elim
  | dishonest => exact ⟨.dishonest, rfl⟩
  | holds H crowded withheld =>
    have hother : ¬ (2 : Word) = 1 := by decide
    have hprovides : ¬ Manages c 1 := fun h => hother (hmod.symm.trans h.2)
    have hreclaims : Manages c 2 := ⟨hopcode, hmod⟩
    unfold settle
    simp only [if_neg hprovides, if_pos hreclaims]
    exact ⟨_, rfl⟩

/-- `reclaim_pages` keeps the balance, for any number of pages. -/
theorem passes_reclaimPages {k : ℤ} (hown : own.card ≤ 1) (hpos : 0 ≤ k) :
    Passes D settle (Ledger own) (Ledger own) (reclaimPages D k) := by
  intro ctx acc h
  by_cases hk : k ≤ 3200
  · exact (reclaimPages_settles hown hpos hk h).mono (fun _ _ _ h' => h'.1) fun _ _ _ _ => trivial
  · exact (reclaimPages_settlesLong (by omega) h).mono (fun _ _ _ hfalse => hfalse.elim)
      fun _ _ _ _ => trivial

/-- There are enough rounds for the pages that the device holds, and what has been counted does not overflow
with them. -/
def Enough (fuel : ℕ) (result : ℤ) (acc : Account) : Prop :=
  ∀ H crowded withheld, acc = .holds H crowded withheld →
    H.card < fuel ∧ 0 ≤ result ∧ result + H.card ≤ 65536

/-- The balance when the device holds no page, or has withheld some when it was asked for them last. -/
def Settled (own : Finset ℕ) (ctx : MLX5_Context δ) (acc : Account) : Prop :=
  Ledger own ctx acc ∧ (acc = .dishonest ∨
    ∃ H crowded withheld, acc = .holds H crowded withheld ∧ (withheld = false → H = ∅))

/-- Each round but the last one takes some pages of an honest device. -/
theorem Enough.next {fuel : ℕ} {result k : ℤ} {count : Word} (h : Enough (fuel + 1) result acc)
    (hgave : GaveBack k count acc acc') (hcount : count ≠ 0) : Enough fuel (result + count.toInt) acc' := by
  rintro H' crowded withheld' rfl
  rcases hgave with hdishonest | ⟨H, _, _, withheld, _, rfl, heq, hsub, hnumber, -⟩
  · cases hdishonest
  cases heq
  obtain ⟨hlt, hpos, hle⟩ := h H crowded withheld rfl
  have hcard := Finset.card_le_card hsub
  have hsome : count.toInt ≠ 0 := fun hzero => hcount (BitVec.eq_of_toInt_eq hzero)
  exact ⟨by omega, by omega, by omega⟩

/-- The sum does not overflow. -/
theorem Enough.int32 {fuel : ℕ} {result k : ℤ} {count : Word} {err : Stop} (h : Enough fuel result acc)
    (hgave : GaveBack k count acc acc')
    (hover : ¬ (-2 ^ 31 ≤ result + count.toInt ∧ result + count.toInt < 2 ^ 31)) :
    MayStop ctx acc' err := by
  rcases hgave with rfl | ⟨H, H', crowded, withheld, withheld', rfl, rfl, hsub, hnumber, -⟩
  · exact .dishonest err
  · obtain ⟨-, hpos, hle⟩ := h H crowded withheld rfl
    have hcard := Finset.card_le_card hsub
    exact absurd ⟨by omega, by omega⟩ hover

/-- The loop of `reclaim_all_pages` goes on until the device holds no page, or withholds some. -/
theorem reclaimRounds_settles (fuel : ℕ) {result : ℤ} (hown : own.card ≤ 1) (h : Ledger own ctx acc) :
    Obeys (talk D) settle (reclaimRounds D fuel result) ctx acc (fun _ => Settled own)
      fun err ctx' acc' => Enough fuel result acc → MayStop ctx' acc' err := by
  induction fuel generalizing ctx acc result with
  | zero =>
    -- The rounds are never used up before the device holds no page.
    refine obeys_throw fun henough => ?_
    cases acc with
    | holds H crowded withheld => exact absurd (henough H crowded withheld rfl).1 (Nat.not_lt_zero _)
    | refused => exact h.elim
    | dishonest => exact .dishonest _
  | succ fuel ih =>
    unfold reclaimRounds
    refine Obeys.bind ((reclaimPages_settles (k := 64 * CMD.MBB_MAX_COUNT) hown (by norm_num) (by norm_num)
      h).mono (fun _ _ _ h' => h') fun _ _ _ h' _ => h') ?_
    rintro count ctx₁ acc₁ ⟨h₁, hgave⟩
    by_cases hrange : -2 ^ 31 ≤ result + count.toInt ∧ result + count.toInt < 2 ^ 31
    swap
    · -- The sum is too large only if the device has given back more pages than there are addresses.
      have hover : (int32 (result + count.toInt) : Exec (MLX5_Context δ) ℤ) ctx₁ =
          .error (.undefined .signed_overflow) ctx₁ := congrFun (if_neg hrange) ctx₁
      refine ends_of_error (bind_of_error hover) ⟨acc₁, Dialogue.leads_refl _ _, fun henough => ?_⟩
      exact henough.int32 hgave hrange
    have hsum : (int32 (result + count.toInt) : Exec (MLX5_Context δ) ℤ) ctx₁ =
        .ok (result + count.toInt) ctx₁ := congrFun (if_pos hrange) ctx₁
    refine Obeys.bind_of_ok hsum ?_
    -- The loop ends with the first reply that names no page.
    by_cases hcount : count = 0
    · rw [if_pos hcount]
      refine obeys_pure ⟨h₁, ?_⟩
      rcases hgave with hdishonest | ⟨H, H', crowded, withheld, withheld', -, rfl, -, -, hempty⟩
      · exact .inl hdishonest
      · exact .inr ⟨H', crowded, withheld', rfl, hempty (by norm_num) hcount⟩
    · rw [if_neg hcount]
      exact (ih h₁).mono (fun _ _ _ h' => h') fun _ _ _ h' henough => h' (henough.next hgave hcount)

/-! ## What has no share in the balance -/

/-- The balance is about the memory pages, and not about what the commands leave in their memory. -/
theorem Ledger.congr (h : Ledger own ctx acc) (hidle : CMD.Idle ctx'.hca.args)
    (hmem : ctx'.mem_page_pool = ctx.mem_page_pool) : Ledger own ctx' acc := by
  cases acc with
  | refused => exact h.elim
  | dishonest => exact hidle
  | holds H crowded withheld =>
    obtain ⟨hfew, hholding⟩ := h
    exact ⟨hfew, hidle, hholding.disjoint, hmem ▸ hholding.stocked, hmem ▸ hholding.max,
      hmem ▸ hholding.block_size, hmem ▸ hholding.snug⟩

/-- What leaves the pages and says nothing keeps the balance. -/
theorem passes_of_leaves {α : Type} {x : Exec (MLX5_Context δ) α}
    (hx : Leaves (fun ctx => (spoken ctx, ctx.mem_page_pool)) x) :
    Passes D settle (Ledger own) (Ledger own) x := by
  intro ctx acc h
  refine obeys_of_leaves (fun heq => said_nil (Prod.mk.inj heq).1) hx (fun _ ctx' heq => ?_)
    fun _ _ _ => trivial
  obtain ⟨hspoken, hmem⟩ := Prod.mk.inj heq
  have hhca : ctx'.hca = ctx.hca := congrArg Prod.fst hspoken
  exact h.congr (hhca ▸ h.idle) hmem

/-- The balance depends only on the commands and the memory pages. -/
theorem ledger_lasting (own : Finset ℕ) : Lasting (Ledger (δ := δ) own) where
  idle _ _ h := h.idle
  quiet ctx ctx' acc h hquiet := by
    have hidle : CMD.Idle ctx'.hca.args := hquiet.hca ▸ h.idle
    cases acc with
    | refused => exact h.elim
    | dishonest => exact hidle
    | holds H crowded withheld =>
      obtain ⟨hfew, hholding⟩ := h
      obtain ⟨rest, hstocked⟩ := hholding.stocked
      obtain ⟨rest', hstocked'⟩ := hstocked.grows hquiet.grows
      have hmem : ctx'.mem_page_pool =
          ⟨ctx'.mem_page_pool.world, ctx.mem_page_pool.pool, ctx.mem_page_pool.heap⟩ := by
        rw [← hquiet.pool, ← hquiet.heap]
      have hsnug : PA.Snug ctx.mem_page_pool → PA.Snug ctx'.mem_page_pool := fun h₀ => by
        rw [hmem]
        exact ⟨h₀.one, h₀.head⟩
      refine ⟨hfew, hidle, hholding.disjoint, ⟨rest', hmem ▸ hstocked'⟩, ?_, ?_, ?_⟩
      · rw [hquiet.pool]
        exact hholding.max
      · rw [hquiet.pool]
        exact hholding.block_size
      · exact fun hcrowded hle => hsnug (hholding.snug hcrowded hle)

/-- The commands that are not about pages. -/
theorem allows_other {I : MLX5_Context δ → Account → Prop} {opcode : CMD.OPCODE}
    (hI : ∀ ctx acc (w : CMD.World δ), I ctx acc → CMD.Idle w.args → I { ctx with hca := w } acc)
    (hrefused : ∀ ctx, ¬ I ctx .refused) (hother : opcode.value ≠ CMD.OPCODE.MANAGE_PAGES.value) :
    Allows settle I I opcode := by
  intro ctx acc h c r hopcode
  have hmanages : ∀ op_mod, ¬ Manages c op_mod := fun _ hc => hother (hopcode.symm.trans hc.1)
  cases acc with
  | refused => exact absurd h (hrefused ctx)
  | dishonest => exact ⟨.dishonest, rfl, fun _ w hidle => hI ctx .dishonest w h hidle⟩
  | holds H crowded withheld =>
    have hsettle : settle (.holds H crowded withheld) (.exchange (c, r)) =
        some (if r.Accepted then .holds H crowded withheld else .refused) := by
      unfold settle
      simp only [if_neg (hmanages _)]
    refine ⟨_, hsettle, fun hr w hidle => ?_⟩
    rw [if_pos hr]
    exact hI ctx _ w h hidle

/-- Commands that are not about pages keep it. -/
theorem ledger_allows {opcode : CMD.OPCODE} (hother : opcode.value ≠ CMD.OPCODE.MANAGE_PAGES.value) :
    Allows settle (Ledger (δ := δ) own) (Ledger own) opcode :=
  allows_other (fun _ _ _ h hidle => h.congr hidle rfl) (fun _ h => h) hother

/-- The functions for queues keep the balance. -/
theorem ledger_upheld (own : Finset ℕ) : Upheld settle (Ledger (δ := δ) own) where
  toLasting := ledger_lasting own
  may opcode hmem := by
    have hothers : ∀ opcode ∈ forQueues, opcode.value ≠ CMD.OPCODE.MANAGE_PAGES.value := by decide
    exact ledger_allows (hothers opcode hmem)

/-- So does a page request, whatever number it has. That it has been read is not on the account. -/
theorem passes_pageRequest (hown : own.card ≤ 1) (payload : Event.Payload) :
    Passes D settle (Ledger own) (Ledger own) (do
      recordRequest payload
      handlePageRequest D payload) := by
  have hread : Passes D settle (Ledger own) (Ledger own) (recordRequest payload) := by
    intro ctx acc h
    have hnext : settle acc (.request (payload 1).toInt) = some acc := by
      cases acc with
      | refused => exact h.elim
      | dishonest => rfl
      | holds H crowded withheld => rfl
    exact obeys_recordRequest hnext fun _ => h.congr h.idle rfl
  exact hread.bind fun _ =>
    passes_handlePageRequest passes_providePages (fun _ hpos => passes_reclaimPages hown hpos) payload

/-- Taking a page for the driver itself. -/
theorem takePage_settles (h : Ledger own ctx acc) :
    Settles D (do
      let mp ← memLens.zoom MEM.allocPage
      memLens.zoom (PA.derefElement (some mp))) ctx acc fun el ctx' acc' =>
        acc' = acc ∧ Ledger (insert el.data.phys own) ctx' acc' := by
  cases acc with
  | refused => exact h.elim
  | dishonest =>
    have hpasses : Passes D settle Unknown Unknown (do
        let mp ← memLens.zoom MEM.allocPage
        memLens.zoom (PA.derefElement (some mp))) := (unknown_mem _).bind fun mp => unknown_mem _
    refine (Settles.of_unknown hpasses h).mono ?_ fun _ _ _ h' => h'
    rintro _ ctx' acc' ⟨hidle, rfl⟩
    exact ⟨rfl, hidle⟩
  | holds H crowded withheld =>
    obtain ⟨hfew, hholding⟩ := h
    refine Obeys.bind (obeys_of_silent (R := fun e ctx' acc' => acc' = .holds H crowded withheld ∧
      ∃ p, MEM.physAt ctx'.mem_page_pool e = some p ∧ Holding (insert p own) H crowded ctx')
      (hholding.allocPage.mono ?_ fun _ ctx' h' => ⟨said_nil h'.1, h'.2 _⟩)) ?_
    · rintro e ctx' ⟨p, -, -, hphys, hspoken, hholding'⟩
      exact ⟨said_nil hspoken, rfl, p, hphys, hholding'⟩
    rintro e ctx' _ ⟨rfl, p, hphys, hholding'⟩
    -- The element is there, and has the address of the page.
    obtain ⟨blk, hblk, rfl⟩ := MEM.exists_block_of_physAt hphys
    have hderef : memLens.zoom (PA.derefElement (some e)) ctx' = .ok (blk.start e.index) ctx' :=
      Lens.zoom_of_ok (PA.derefElement_ok (PA.Heap.elem_of_block hblk))
    exact ends_of_ok hderef ⟨_, Dialogue.leads_refl _ _, rfl, hfew, hholding'⟩

/-! ## Initialization -/

/-- The device is given the pages that it asks for. -/
theorem passes_provideQueriedPages (op_mod : Word) :
    Passes D settle (Ledger own) (Ledger own) (provideQueriedPages D op_mod) := by
  unfold provideQueriedPages getNumberOfPages
  refine ((ledger_lasting own).passes_issue (ledger_allows (by decide)) _ _ _ _).bind fun slot => ?_
  refine Passes.bind (J := Ledger own) (passes_get.bind fun ctx => ?_) fun page_count => ?_
  · exact (passes_of_leaves (leaves_takeOutput _ slot _ _)).bind fun b =>
      (passes_of_leaves (leaves_read b 1)).bind fun w => passes_pure _
  · refine passes_ite (Passes.bind (J := Ledger own) (passes_throw _) fun _ => ?_) ?_
    all_goals exact (passes_providePages _).bind fun _ => passes_pure _

/-- The commands of `init_hca` keep the balance. -/
theorem passes_initSequence (bar0 : ℕ) :
    Passes D settle (Ledger own) (Ledger own) (initSequence D bar0) := by
  -- Commands that are not about pages keep the balance, and so do the functions with such commands only.
  have hissue : ∀ {opcode : CMD.OPCODE}, opcode.value ≠ CMD.OPCODE.MANAGE_PAGES.value →
      ∀ op_mod payload k m, Passes D settle (Ledger own) (Ledger own)
        (hcaLens.zoom (CMD.issue D opcode op_mod payload k m)) := fun hother op_mod payload k m =>
    (ledger_lasting own).passes_issue (ledger_allows hother) op_mod payload k m
  have hissi : Passes D settle (Ledger own) (Ledger own) (configureIssi D) := by
    unfold configureIssi
    refine (hissue (by decide) _ _ _ _).bind fun slot =>
      (passes_of_leaves (leaves_getIssiSupport _ slot)).bind fun issi => ?_
    refine passes_ite (Passes.bind (J := Ledger own) (passes_throw _) fun _ => ?_) ?_
    all_goals exact (hissue (by decide) _ _ _ _).bind fun _ => passes_pure _
  -- Fields of the capabilities are set in a local array.
  have hfield : ∀ (b : Buf) i offset mask value,
      Passes D settle (Ledger own) (Ledger own) (configureField b i offset mask value) := by
    intro b i offset mask value
    unfold configureField
    refine (passes_of_leaves (leaves_read b i)).bind fun w => passes_ite ?_ (passes_pure _)
    exact passes_ite (passes_pure _) (passes_throw _)
  have hcap : Passes D settle (Ledger own) (Ledger own) (configureHcaCap D) := by
    unfold configureHcaCap configureFields
    refine (hissue (by decide) _ _ _ _).bind fun slot => passes_get.bind fun ctx => ?_
    refine (passes_of_leaves (leaves_takeOutput _ slot _ _)).bind fun b =>
      Passes.bind (J := Ledger own) ?_ fun b => (passes_of_leaves (leaves_read b _)).bind fun w => ?_
    · exact (hfield _ _ _ _ _).bind fun b => (hfield _ _ _ _ _).bind fun b => hfield _ _ _ _ _
    · exact (hissue (by decide) _ _ _ _).bind fun _ => passes_pure _
  have hversion : Passes D settle (Ledger own) (Ledger own) (setDriverVersion D) := by
    unfold setDriverVersion
    exact passes_get.bind fun ctx => (hissue (by decide) _ _ _ _).bind fun _ => passes_pure _
  have huar : Passes D settle (Ledger own) (Ledger own) (allocUar D bar0) := by
    unfold allocUar
    refine ((ledger_lasting own).passes_create (ledger_allows (by decide)) _ _).bind fun index => ?_
    exact passes_of_leaves fun ctx => ends_of_ok (modify_apply _ ctx) rfl
  -- The pages for booting and for initializing are provided between them.
  unfold initSequence
  refine (hissue (by decide) _ _ _ _).bind fun _ => hissi.bind fun _ => ?_
  refine (passes_provideQueriedPages 0x1).bind fun _ => hcap.bind fun set_driver => ?_
  refine (passes_provideQueriedPages 0x2).bind fun _ => (hissue (by decide) _ _ _ _).bind fun _ => ?_
  refine (passes_ite hversion (passes_pure ())).bind fun _ => huar.bind fun _ => ?_
  exact passes_of_leaves fun ctx => ends_of_ok (modify_apply _ ctx) rfl

/-! ## Shutting down -/

/-- The balance at the end depends on the same. -/
theorem settled_lasting (own : Finset ℕ) : Lasting (Settled (δ := δ) own) where
  idle _ _ h := h.1.idle
  quiet ctx ctx' acc h hquiet := ⟨(ledger_lasting own).quiet ctx ctx' acc h.1 hquiet, h.2⟩

/-- Disabling the device keeps it. -/
theorem settled_allows : Allows settle (Settled (δ := δ) own) (Settled own) .DISABLE_HCA :=
  allows_other (fun _ _ _ h hidle => ⟨h.1.congr hidle rfl, h.2⟩) (fun _ h => h.1) (by decide)

/-- After `teardown_hca` the device holds no page, or has withheld some. -/
theorem passes_teardownHca (hown : own.card ≤ 1) (fuel : ℕ) :
    Passes D settle (Ledger own) (Settled own) (teardownHca D fuel) := by
  have hreclaim : Passes D settle (Ledger own) (Settled own) (reclaimAllPages D fuel) := by
    intro ctx acc h
    unfold reclaimAllPages
    refine Obeys.bind ((reclaimRounds_settles fuel hown h).mono (fun _ _ _ h' => h') fun _ _ _ _ => trivial) ?_
    exact fun _ _ _ h' => obeys_pure h'
  unfold teardownHca deallocUar
  refine ((ledger_lasting own).passes_teardownEqs (ledger_allows (by decide))).bind fun _ => ?_
  refine Passes.bind (J := Ledger own) (passes_get.bind fun ctx => ?_) fun _ => ?_
  · exact ((ledger_lasting own).passes_issue (ledger_allows (by decide)) _ _ _ _).bind fun _ => passes_pure _
  refine ((ledger_lasting own).passes_issue (ledger_allows (by decide)) _ _ _ _).bind fun _ => ?_
  refine hreclaim.bind fun _ => ?_
  exact ((settled_lasting own).passes_issue settled_allows _ _ _ _).bind fun _ => passes_pure _

/-! ## The whole life -/

/-- The pool of memory pages before `init_hca`, of which no page is used. -/
structure Unused (s : MEM.State) : Prop where
  stocked : ∃ rest, MEM.Stocked s rest ∅
  max : s.pool.max = 65536
  block_size : s.pool.block_size = 1024
  snug : PA.Snug s

/-- Then the driver and the device have no pages. -/
theorem Unused.ledger (h : Unused ctx.mem_page_pool) (hidle : CMD.Idle ctx.hca.args) :
    Ledger ∅ ctx (.holds ∅ false false) :=
  ⟨fun _ => Nat.zero_le _, hidle, Finset.disjoint_empty_right _,
    by rw [Finset.union_empty]; exact h.stocked, h.max, h.block_size, fun _ _ => h.snug⟩

/-- What the main thread waits for has no share in the work queues. -/
theorem leaves_await (D : CMD.HCA δ) (eq_number : Word) (acts : List Act) :
    Leaves MLX5_Context.work_queue_pool (await D eq_number acts) := by
  have hround : Leaves MLX5_Context.work_queue_pool (handlerRound D eq_number) := by
    unfold handlerRound
    refine leaves_get.bind fun ctx => ?_
    cases ctx.event_queue_pool.pool.data.index eq_number.toNat with
    | none => exact leaves_throw _
    | some eq =>
      refine (leaves_zoom (fun _ _ => rfl) _).bind fun el => leaves_get.bind fun ctx => ?_
      refine leaves_ite (leaves_pure _) ((leaves_zoom (fun _ _ => rfl) _).bind fun payload => ?_)
      refine (leaves_zoom (fun _ _ => rfl) _).bind fun _ => Leaves.bind ?_ fun _ => ?_
      · exact fun ctx => ends_of_ok (modify_apply _ ctx) rfl
      · exact leaves_handlePageRequest (fun _ _ => rfl) (fun _ _ => rfl) (fun _ _ => rfl) payload
  induction acts with
  | nil => exact leaves_pure ()
  | cons act acts ih =>
    cases act with
    | post eqe => exact Leaves.bind (fun ctx => ends_of_ok (modify_apply _ ctx) rfl) fun _ => ih
    | round => exact hround.bind fun _ => ih

/-- Neither has `teardown_hca`. -/
theorem leaves_teardownHca (D : CMD.HCA δ) (fuel : ℕ) :
    Leaves MLX5_Context.work_queue_pool (teardownHca D fuel) := by
  have hissue : ∀ opcode op_mod payload n m, Leaves MLX5_Context.work_queue_pool
      (hcaLens.zoom (CMD.issue D opcode op_mod payload n m)) := fun _ _ _ _ _ =>
    leaves_zoom (fun _ _ => rfl) _
  have hderef : ∀ b, Leaves MLX5_Context.work_queue_pool (eqLens.zoom (PA.deref b) : Exec (MLX5_Context δ) _) :=
    fun _ => leaves_zoom (fun _ _ => rfl) _
  have hint : ∀ n, Leaves MLX5_Context.work_queue_pool (int32 n : Exec (MLX5_Context δ) ℤ) := fun n =>
    leaves_ite (leaves_pure _) (leaves_throw _)
  -- Pages are freed in the pool of memory pages.
  have hreclaim : ∀ k, Leaves MLX5_Context.work_queue_pool (reclaimPages D k) := by
    intro k
    unfold reclaimPages reclaimOutputLength reclaimPage
    refine ((hint _).bind fun _ => (hint _).bind fun _ => leaves_pure _).bind fun length => ?_
    refine leaves_get.bind fun ctx => (hissue _ _ _ _ _).bind fun slot => leaves_get.bind fun ctx => ?_
    refine (leaves_zoom (fun _ _ => rfl) _).bind fun output =>
      (leaves_forRange fun i _ => ?_).bind fun _ => leaves_pure _
    exact (leaves_read _ _).bind fun _ => (leaves_read _ _).bind fun _ => leaves_zoom (fun _ _ => rfl) _
  have hrounds : ∀ fuel result, Leaves MLX5_Context.work_queue_pool (reclaimRounds D fuel result) := by
    intro fuel
    induction fuel with
    | zero => exact fun _ => leaves_throw _
    | succ fuel ih =>
      intro result
      unfold reclaimRounds
      refine (hreclaim _).bind fun count => (hint _).bind fun result' => ?_
      exact leaves_ite (leaves_pure _) (ih _)
  -- Event queues are read, and destroyed by the device.
  have heqs : Leaves MLX5_Context.work_queue_pool (teardownEqs D) := by
    unfold teardownEqs teardownBlock teardownElement startAt destroyEq
    refine leaves_get.bind fun ctx => leaves_forRange fun i _ => leaves_get.bind fun ctx => ?_
    refine leaves_forRange fun j _ => Leaves.bind ?_ fun blk => leaves_ite ?_ (leaves_pure _)
    · refine leaves_get.bind fun ctx => (hderef _).bind fun blk => ?_
      exact leaves_ite (leaves_pure _) (leaves_throw _)
    · refine leaves_get.bind fun ctx => ?_
      split
      · exact leaves_throw _
      · exact (hderef _).bind fun blk => (hissue _ _ _ _ _).bind fun _ => leaves_pure _
  unfold teardownHca deallocUar reclaimAllPages
  refine heqs.bind fun _ => Leaves.bind ?_ fun _ => (hissue _ _ _ _ _).bind fun _ => Leaves.bind ?_ fun _ => ?_
  · exact leaves_get.bind fun ctx => (hissue _ _ _ _ _).bind fun _ => leaves_pure _
  · exact (hrounds _ _).bind fun _ => leaves_pure _
  · exact (hissue _ _ _ _ _).bind fun _ => leaves_pure _

/-- The balance after `create_wqc`. The page with the doorbell record is the only one that the driver uses
itself. -/
def Parked (wq_number : Word) (J : Finset ℕ → MLX5_Context δ → Account → Prop) (ctx : MLX5_Context δ)
    (acc : Account) : Prop :=
  ∃ page, J {page} ctx acc ∧ DoorbellAt ctx wq_number page

/-- What leaves the work queues leaves the doorbell record where it is. -/
theorem passes_parked {α : Type} {x : Exec (MLX5_Context δ) α} {wq_number : Word}
    {J K : Finset ℕ → MLX5_Context δ → Account → Prop}
    (hx : ∀ own : Finset ℕ, own.card ≤ 1 → Passes D settle (J own) (K own) x)
    (hleaves : Leaves MLX5_Context.work_queue_pool x) :
    Passes D settle (Parked wq_number J) (Parked wq_number K) x := by
  refine passes_exists fun page => ?_
  have hcard : ({page} : Finset ℕ).card ≤ 1 := Nat.le_of_eq (Finset.card_singleton page)
  exact (hx {page} hcard).and_leaves hleaves fun wqs => ∃ wq d,
    wqs.pool.data.index wq_number.toNat = some wq ∧ wqs.heap.dataAt wq = some d ∧
      d.q_ctx.wqc.dbr = pair (msb page) (lsb page)

/-- What there is when the program has got through, if the device has been honest: it holds the pages that it
has withheld when it was asked for pages last, and none if it has not withheld any. Apart from these just
one page of the pool is used, the one with the doorbell record of the work queue. -/
structure Drained (ctx : MLX5_Context δ) (H : Finset ℕ) (withheld : Bool) (page : ℕ) : Prop where
  doorbell : DoorbellAt ctx 0 page
  apart : page ∉ H
  used : ∃ rest, MEM.Accounted ctx.mem_page_pool rest (insert page H)
  empty : withheld = false → H = ∅

/-- The balance at the end. -/
theorem Parked.drained (h : Parked 0 Settled ctx acc) : acc = .dishonest ∨
    ∃ H crowded withheld page, acc = .holds H crowded withheld ∧ Drained ctx H withheld page := by
  obtain ⟨page, ⟨hledger, hsettled⟩, hdoorbell⟩ := h
  rcases hsettled with hdishonest | ⟨H, crowded, withheld, rfl, hempty⟩
  · exact .inl hdishonest
  · obtain ⟨-, hholding⟩ := hledger
    obtain ⟨rest, hstocked⟩ := hholding.stocked
    have hsets : H ∪ {page} = insert page H := by
      rw [Finset.union_comm, Finset.singleton_union]
    rw [hsets] at hstocked
    exact .inr ⟨H, crowded, withheld, page, rfl, hdoorbell,
      Finset.disjoint_singleton_right.mp hholding.disjoint, ⟨rest, hstocked.accounted⟩, hempty⟩

/-- Whatever the device replies, whatever events it posts, however many rounds the second thread makes
between the calls of the main thread, and whatever the kernel does: the driver never gives the device a page
that it holds already, as long as the device has only given back pages that it held. If `main` gets through
then, the device holds no page, unless it has withheld some when it was asked for pages last, and just one
other memory page is used, the one with the doorbell record of the work queue. -/
theorem main_settles (D : CMD.HCA δ) (bar0 : ℕ) (m : Meanwhile) (fuel : ℕ) (boot : Boot δ)
    (hidle : CMD.Idle boot.ctx.hca.args) (hunused : Unused boot.ctx.mem_page_pool) :
    Obeys (bootTalk D) settle (main D bar0 m fuel) boot (.holds ∅ false false)
      (fun _ boot' acc => acc = .dishonest ∨ ∃ H crowded withheld page, acc = .holds H crowded withheld ∧
        Drained boot'.ctx H withheld page)
      fun _ _ _ => True := by
  have hnone : (∅ : Finset ℕ).card ≤ 1 := Nat.zero_le 1
  -- `create_wqc` keeps the page with the doorbell record for the driver.
  have hcreate : Passes D settle (Ledger ∅) (Parked 0 Ledger) (createWqc D 2 0) :=
    passes_createWqc (ledger_upheld ∅) (fun page => ledger_upheld {page}) (fun ctx acc h =>
      (takePage_settles h).mono (fun el ctx' acc' h' => by simpa using h'.2) fun _ _ _ _ => trivial) 2 0
  -- The second thread only handles page requests, and the page is not among those of the device.
  have hwait : ∀ eq_number acts, Passes D settle (Parked 0 Ledger) (Parked 0 Ledger) (await D eq_number acts) :=
    fun eq_number acts => passes_parked (fun own hown =>
      (ledger_upheld own).passes_await (passes_pageRequest hown) eq_number acts) (leaves_await D eq_number acts)
  have hdestroy : ∀ n, Passes D settle (Parked 0 Ledger) (Parked 0 Ledger) (destroyWqc D n) := fun n =>
    passes_parked (fun own _ => (ledger_upheld own).passes_destroyWqc n) (leaves_destroyWqc D n)
  -- `teardown_hca` ends with the balance at which the device holds no page that it has not withheld.
  have hteardown : Passes D settle (Parked 0 Ledger) (Parked 0 Settled) (teardownHca D fuel) :=
    passes_parked (fun own hown => passes_teardownHca hown fuel) (leaves_teardownHca D fuel)
  -- Before `create_wqc` the driver has no page of its own.
  have hserve : Passes D settle (Ledger ∅) (Parked 0 Settled) (serveAndShutDown D m fuel) := by
    unfold serveAndShutDown setupWorkQueue
    refine ((ledger_upheld ∅).passes_setupEventQueue (passes_pageRequest hnone) _ _).bind fun eq_number => ?_
    refine ((ledger_upheld ∅).passes_await (passes_pageRequest hnone) eq_number _).bind fun _ => ?_
    refine Passes.bind (J := Parked 0 Ledger) ?_ fun _ => (hwait eq_number _).bind fun _ => hteardown
    exact hcreate.bind fun wq_number => (hwait eq_number _).bind fun _ => hdestroy wq_number
  unfold main
  refine (obeys_initHca bar0 (passes_initSequence bar0 _ _ (hunused.ledger hidle))).bind ?_
  intro _ boot₁ acc₁ h₁
  refine (Obeys.zoom ctxLens_lawful (hserve _ _ h₁)).mono ?_ fun _ _ _ _ => trivial
  rintro _ boot₂ acc₂ ⟨-, hparked⟩
  exact hparked.drained

end Driver

end L4Rdma
