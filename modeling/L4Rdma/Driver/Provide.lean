import L4Rdma.Driver.Model

/-!
# Providing pages

`provide_pages` gives the device `page_count` pages in commands of at most `IMB_MAX_DATA / 2` pages
each. Its counting works with words: the number of commands is a quotient, and the last command has
the remainder, or is as long as the others when there is none. What the counting comes to is
`payloadPageCount_eq`. An invariant of each of the two loops carries the pages taken so far
(`MEM.Grabbed`) and the words in the payload, up to `providePages_spec`.
-/

namespace L4Rdma.Driver

open Lib Device

variable {δ : Type} {page_count i j : ℕ}

/-! ## Counting -/

/-- The number of pages in a full command. -/
theorem half_imb_max_data : CMD.IMB_MAX_DATA / 2 = 3200 := rfl

/-- The number of commands is that of the started groups of 3200 pages. -/
theorem cmdCount_eq (hP : page_count < 2 ^ 31) : cmdCount page_count = (page_count + 3199) / 3200 := by
  unfold cmdCount
  simp only [CMD.IMB_MAX_DATA, CMD.MBB_MAX_COUNT]
  rw [Nat.mod_eq_of_lt (show page_count * 2 < 2 ^ 32 by omega)]
  split_ifs <;> omega

/-- Each command has as many pages as are left, but no more than fit. -/
theorem payloadPageCount_eq (hP : page_count < 2 ^ 31) (hi : i < cmdCount page_count) :
    payloadPageCount page_count i = min 3200 (page_count - i * 3200) := by
  have hcount := cmdCount_eq hP
  unfold payloadPageCount
  simp only [CMD.IMB_MAX_DATA, CMD.MBB_MAX_COUNT]
  rw [Nat.mod_eq_of_lt (show page_count * 2 < 2 ^ 32 by omega)]
  split_ifs <;> omega

/-- No command has more pages than fit, whatever is asked for. -/
theorem payloadPageCount_le (page_count i : ℕ) : payloadPageCount page_count i ≤ 3200 := by
  unfold payloadPageCount
  simp only [CMD.IMB_MAX_DATA, CMD.MBB_MAX_COUNT]
  split_ifs <;> omega

/-- The pages of the commands up to one are those of the commands before it and its own. -/
theorem min_add_payloadPageCount (hP : page_count < 2 ^ 31) (hi : i < cmdCount page_count) :
    min (i * 3200) page_count + payloadPageCount page_count i =
      min ((i + 1) * 3200) page_count := by
  rw [payloadPageCount_eq hP hi]
  omega

/-- No command is empty. -/
theorem payloadPageCount_pos (hP : page_count < 2 ^ 31) (hi : i < cmdCount page_count) :
    1 ≤ payloadPageCount page_count i := by
  rw [payloadPageCount_eq hP hi]
  rw [cmdCount_eq hP] at hi
  omega

/-- All commands together have all pages. -/
theorem min_cmdCount (hP : page_count < 2 ^ 31) :
    min (cmdCount page_count * 3200) page_count = page_count := by
  rw [cmdCount_eq hP]
  omega

/-! ## Payloads -/

/-- The halves of an address, as they are in a payload. -/
def halves (p : ℕ) : List Word := [msb p, lsb p]

/-- The payload of a command for a number of pages, with the addresses `ps` so far. -/
def pageWords (count : ℕ) (ps : List ℕ) : List Word := 0 :: BitVec.ofNat 32 count :: ps.flatMap halves

/-- The command that provides the pages with the addresses `ps`. -/
def provideCommand (ps : List ℕ) : CMD.Command where
  opcode := CMD.OPCODE.MANAGE_PAGES.value
  op_mod := 1
  payload := pageWords ps.length ps
  output_length := 2

/-- Writing the word after the first `n` ones. -/
theorem words_update (b : Buf) (n : ℕ) (w : Word) :
    CMD.Buf.words { b with word := Function.update b.word n w } (n + 1) =
      CMD.Buf.words b n ++ [w] := by
  have hbefore : (List.range n).map (Function.update b.word n w) = (List.range n).map b.word :=
    List.map_congr_left fun i hi =>
      Function.update_of_ne (Nat.ne_of_lt (List.mem_range.mp hi)) w b.word
  have hlast : Function.update b.word n w n = w := Function.update_self n w b.word
  unfold CMD.Buf.words
  simp only [List.range_succ, List.map_append, hbefore, List.map_singleton, hlast]

/-- Writing two words after the first `n` ones. -/
theorem words_update_update (b : Buf) (n : ℕ) (w w' : Word) :
    CMD.Buf.words { b with word := Function.update (Function.update b.word n w) (n + 1) w' }
      (n + 1 + 1) = CMD.Buf.words b n ++ [w, w'] := by
  have hsecond := words_update { b with word := Function.update b.word n w } (n + 1) w'
  rw [words_update b n w, List.append_assoc] at hsecond
  exact hsecond

/-- The page payload in the round of the loop in which `ps` has been written. -/
structure Filled (count : ℕ) (ps : List ℕ) (b : Buf) : Prop where
  size : b.size = IMB_MAX_PAGE_PAYLOAD
  words : CMD.Buf.words b (2 + ps.length * 2) = pageWords count ps

/-- The first two words of a payload. -/
theorem filled_nil (count : ℕ) {b : Buf} (hsize : b.size = IMB_MAX_PAGE_PAYLOAD) :
    Filled count [] { b with
      word := Function.update (Function.update b.word 0 0) 1 (BitVec.ofNat 32 count) } where
  size := hsize
  words := words_update_update b 0 0 (BitVec.ofNat 32 count)

/-- The halves of one more address. -/
theorem Filled.concat {count : ℕ} {ps : List ℕ} {b : Buf} (h : Filled count ps b) (p : ℕ) :
    Filled count (ps ++ [p]) { b with
      word := Function.update (Function.update b.word (2 + ps.length * 2) (msb p))
        (2 + ps.length * 2 + 1) (lsb p) } where
  size := h.size
  words := by
    have hlength : 2 + (ps ++ [p]).length * 2 = 2 + ps.length * 2 + 1 + 1 := by
      rw [List.length_append, List.length_singleton]
      omega
    rw [hlength, words_update_update, h.words, pageWords, pageWords, List.flatMap_append]
    rfl

/-! ## The inner loop -/

variable {ctx₀ ctx ctx' : MLX5_Context δ} {pre : Option PA.BlockPtr} {l₀ l : List PA.BlockPtr}
  {es : List PA.ElementPtr} {ps : List ℕ} {count : ℕ} {b : Buf}

/-- Between `ctx₀` and `ctx`, the pages with the addresses `ps` have been taken. -/
def Took (ctx₀ ctx : MLX5_Context δ) (pre : Option PA.BlockPtr) (l₀ : List PA.BlockPtr)
    (ps : List ℕ) : Prop :=
  ∃ es l, MEM.Pages ctx.mem_page_pool pre l ∧
    MEM.Grabbed ctx₀.mem_page_pool ctx.mem_page_pool l₀ l es ps

/-- A page could not be taken: the pages with the addresses `ps` have been, with one request to the kernel for
each new block, then all blocks of the pool were full, and the kernel refused the next request, which was for
another block. -/
def Lacks (ctx₀ : MLX5_Context δ) (l₀ : List PA.BlockPtr) (ps : List ℕ) (e : Stop)
    (ctx' : MLX5_Context δ) : Prop :=
  ∃ s es l, MEM.Grabbed ctx₀.mem_page_pool s l₀ l es ps ∧ MEM.Refused s l e ctx'.mem_page_pool

/-- One round takes one more page and puts its address into the payload. -/
theorem providePage_spec (htook : Took ctx₀ ctx pre l₀ ps)
    (hmaps : ctx₀.mem_page_pool.world.services.Maps)
    (hroom : ps.length + ctx₀.mem_page_pool.pool.size < ctx₀.mem_page_pool.pool.max)
    {qs : List ℕ} (hlength : qs.length = j) (hj : j < 3200) (hfilled : Filled count qs b) :
    Ends (providePage j b) ctx
      (fun b' ctx' => ∃ p, ctx'.hca = ctx.hca ∧ Took ctx₀ ctx' pre l₀ (ps ++ [p]) ∧
        Filled count (qs ++ [p]) b')
      fun e ctx' => ctx'.hca = ctx.hca ∧ Lacks ctx₀ l₀ ps e ctx' := by
  obtain ⟨es, l, hpages, hgrabbed⟩ := htook
  have hservices := hgrabbed.services
  -- The pool is not full yet.
  have hlt : ctx.mem_page_pool.pool.size < ctx.mem_page_pool.pool.max := by
    rw [hgrabbed.size, hgrabbed.max, ← hgrabbed.length_eq]
    omega
  have hnext := (hgrabbed.next hpages (hservices ▸ hmaps) hlt).zoom (l := memLens (δ := δ))
  unfold providePage
  refine Ends.bind (hnext.mono (fun e ctx' h => h) fun e ctx' h => ?_) ?_
  · -- The kernel has refused memory for a new block in this round.
    obtain ⟨s, rfl, hrefused⟩ := h
    exact ⟨rfl, ctx.mem_page_pool, es, l, hgrabbed, hrefused⟩
  rintro e ctx' ⟨s, rfl, l', p, hpages', hgrabbed', hp⟩
  obtain ⟨blk, hblk, rfl⟩ := MEM.exists_block_of_physAt hp
  have hsize : b.size = 2 + 128 * 50 := hfilled.size
  have hderef : memLens.zoom (PA.deref (some e.block)) (memLens.set s ctx) =
      .ok blk (memLens.set s ctx) :=
    Lens.zoom_of_ok (PA.deref_of_block hblk)
  -- The address of the new page goes behind those of the others.
  have hfilled' := hfilled.concat (blk.start e.index).data.phys
  rw [hlength] at hfilled'
  refine ends_of_ok ((bind_of_ok hderef).trans ((bind_of_ok (Buf.write_of_lt ?_ _ _)).trans
    (Buf.write_of_lt ?_ _ _))) ⟨_, rfl, ⟨_, l', hpages', hgrabbed'⟩, hfilled'⟩
  · omega
  · show 2 + j * 2 + 1 < b.size
    omega

/-- The inner loop takes as many pages as the command has. -/
theorem providePage_loop (htook : Took ctx₀ ctx pre l₀ ps)
    (hmaps : ctx₀.mem_page_pool.world.services.Maps) (hcount : count ≤ 3200)
    (hroom : ps.length + count + ctx₀.mem_page_pool.pool.size ≤ ctx₀.mem_page_pool.pool.max)
    (hfilled : Filled count [] b) :
    Ends (forRange count b providePage) ctx
      (fun b' ctx' => ∃ qs, qs.length = count ∧ ctx'.hca = ctx.hca ∧
        Took ctx₀ ctx' pre l₀ (ps ++ qs) ∧ Filled count qs b')
      fun e ctx' => ∃ qs, qs.length < count ∧ ctx'.hca = ctx.hca ∧ Lacks ctx₀ l₀ (ps ++ qs) e ctx' := by
  refine ends_forRange (fun j b' ctx' => ∃ qs : List ℕ, qs.length = j ∧ ctx'.hca = ctx.hca ∧
    Took ctx₀ ctx' pre l₀ (ps ++ qs) ∧ Filled count qs b')
    ⟨[], rfl, rfl, by rwa [List.append_nil], hfilled⟩ ?_
  rintro j b' ctx' hj ⟨qs, hlength, hhca, htook', hfilled'⟩
  have hroom' : (ps ++ qs).length + ctx₀.mem_page_pool.pool.size <
      ctx₀.mem_page_pool.pool.max := by
    rw [List.length_append]
    omega
  refine (providePage_spec htook' hmaps hroom' hlength (by omega) hfilled').mono ?_ ?_
  · rintro b'' ctx'' ⟨p, hhca', htook'', hfilled''⟩
    refine ⟨qs ++ [p], ?_, hhca'.trans hhca, ?_, hfilled''⟩
    · rw [List.length_append, hlength]
      rfl
    · rwa [← List.append_assoc]
  · -- The pages of the rounds before have been taken for nothing.
    rintro e ctx'' ⟨hhca', hlacks⟩
    exact ⟨qs, hlength ▸ hj, hhca'.trans hhca, hlacks⟩

/-! ## The outer loop -/

/-- The device has been given the pages with the addresses in `chunks`, one command for each. -/
structure Sent (ctx₀ ctx : MLX5_Context δ) (chunks : List (List ℕ)) : Prop where
  seen : ctx.hca.seen = ctx₀.hca.seen ++ chunks.map provideCommand
  bounds : ∀ ps ∈ chunks, 1 ≤ ps.length ∧ ps.length ≤ CMD.IMB_MAX_DATA / 2

/-- The invariant of the outer loop before round `i`. All commands so far were full. -/
def Providing (ctx₀ : MLX5_Context δ) (pre : Option PA.BlockPtr) (l₀ : List PA.BlockPtr)
    (page_count i : ℕ) (b : Buf) (ctx : MLX5_Context δ) : Prop :=
  ∃ chunks : List (List ℕ), chunks.flatten.length = min (i * 3200) page_count ∧
    CMD.Idle ctx.hca.args ∧ Sent ctx₀ ctx chunks ∧ Took ctx₀ ctx pre l₀ chunks.flatten ∧
    b.size = IMB_MAX_PAGE_PAYLOAD

/-- How `provide_pages` can come to stop: the pages in `chunks` have been given to the device, one command
for each, and those in `qs` have been taken for the next command. These are not all pages, and for another
one the kernel refused the memory. -/
structure Lacking (ctx₀ : MLX5_Context δ) (l₀ : List PA.BlockPtr) (page_count : ℕ)
    (chunks : List (List ℕ)) (qs : List ℕ) (e : Stop) (ctx' : MLX5_Context δ) : Prop
    extends Sent ctx₀ ctx' chunks where
  few : (chunks.flatten ++ qs).length < page_count
  lacks : Lacks ctx₀ l₀ (chunks.flatten ++ qs) e ctx'

/-- The kernel refused memory to `provide_pages`. -/
def NoMemory (ctx₀ : MLX5_Context δ) (l₀ : List PA.BlockPtr) (page_count : ℕ) (e : Stop)
    (ctx' : MLX5_Context δ) : Prop :=
  ∃ chunks qs, Lacking ctx₀ l₀ page_count chunks qs e ctx'

/-- One round sends one command, with the pages that it has taken. -/
theorem provideBatch_spec (D : CMD.HCA δ) (hD : ∀ d c, (D.exec d c).2.Ok)
    (hP : page_count < 2 ^ 31) (hmaps : ctx₀.mem_page_pool.world.services.Maps)
    (hroom : page_count + ctx₀.mem_page_pool.pool.size ≤ ctx₀.mem_page_pool.pool.max)
    (hi : i < cmdCount page_count) (h : Providing ctx₀ pre l₀ page_count i b ctx) :
    Ends (provideBatch D page_count i b) ctx (Providing ctx₀ pre l₀ page_count (i + 1))
      fun e ctx' => NoMemory ctx₀ l₀ page_count e ctx' := by
  obtain ⟨chunks, hlength, hidle, hsent, htook, hsize⟩ := h
  have hle := payloadPageCount_le page_count i
  have hpos := payloadPageCount_pos hP hi
  have hsum := min_add_payloadPageCount hP hi
  unfold provideBatch
  generalize payloadPageCount page_count i = count at hle hpos hsum
  -- There is room for the pages of this round besides those of the rounds before.
  have hroom' : chunks.flatten.length + count + ctx₀.mem_page_pool.pool.size ≤
      ctx₀.mem_page_pool.pool.max := by omega
  have hloop := providePage_loop htook hmaps hle hroom' (filled_nil count hsize)
  have hlarge : 1 < b.size := by
    rw [hsize]
    norm_num
  refine Ends.bind_of_ok (Buf.write_of_lt (Nat.lt_of_succ_lt hlarge) _ ctx) ?_
  refine Ends.bind_of_ok (Buf.write_of_lt (by exact hlarge) _ ctx) ?_
  refine Ends.bind (hloop.mono (fun _ _ h => h) fun e ctx' h => ?_) ?_
  · -- The command of this round is not sent.
    obtain ⟨qs, hqs, hhca, hlacks⟩ := h
    refine ⟨chunks, qs, ⟨?_, hsent.bounds⟩, ?_, hlacks⟩
    · rw [hhca]
      exact hsent.seen
    · rw [List.length_append]
      omega
  rintro b' ctx' ⟨ps, hps, hhca, htook', hfilled⟩
  have hfits : CMD.Fits b' (2 + count * 2) 2 := by
    have hsize' : b'.size = 2 + 128 * 50 := hfilled.size
    refine ⟨?_, ?_, ?_⟩
    · unfold CMD.IMB_MAX_DATA CMD.MBB_MAX_COUNT
      omega
    · omega
    · norm_num
  obtain ⟨w, -, hseen, hidle', -, -, hissue⟩ :=
    CMD.issue_cases D (hhca ▸ hidle) hfits .MANAGE_PAGES 0x1
  have hok := hissue.resolve_right fun h => h.1 (hD _ _)
  -- The command has just these pages.
  have hcommand : CMD.command .MANAGE_PAGES 0x1 b' (2 + count * 2) 2 = provideCommand ps := by
    have hwords := hfilled.words
    rw [hps] at hwords
    rw [CMD.command, hwords, provideCommand, hps]
    rfl
  refine ends_of_ok (bind_of_ok (Lens.zoom_of_ok hok))
    ⟨chunks ++ [ps], ?_, hidle', ⟨?_, fun qs hqs => ?_⟩, ?_, hfilled.size⟩
  · rw [List.flatten_append, List.flatten_singleton, List.length_append, hlength, hps, hsum]
  · show w.seen = _
    rw [hseen, hcommand, hhca, hsent.seen, List.map_append, List.append_assoc]
    rfl
  · rcases List.mem_append.mp hqs with hqs | hqs
    · exact hsent.bounds qs hqs
    · obtain rfl := List.mem_singleton.mp hqs
      rw [half_imb_max_data]
      omega
  · rw [List.flatten_append, List.flatten_singleton]
    exact htook'

/-- What `provide_pages` does when it returns: it has sent commands with pages that were not used
before, and has used and indexed these pages, `page_count` of them, and no others. -/
structure Provided (ctx ctx' : MLX5_Context δ) (l : List PA.BlockPtr) (page_count : ℕ)
    (chunks : List (List ℕ)) : Prop extends Sent ctx ctx' chunks where
  total : (chunks.map List.length).sum = page_count
  distinct : chunks.flatten.Nodup
  fit : ∀ p ∈ chunks.flatten, p < 2 ^ 64
  grabbed : ∃ es l', MEM.Grabbed ctx.mem_page_pool ctx'.mem_page_pool l l' es chunks.flatten
  size : ctx'.mem_page_pool.pool.size = ctx.mem_page_pool.pool.size + page_count

/-- `provide_pages`, when no command fails, gives the device `page_count` unused pages, in commands
none of which is empty or has more pages than fit. It stops only at a page for which a block is needed,
when the kernel refuses the memory for it. Until then it has done the same with fewer pages. -/
theorem providePages_spec (D : CMD.HCA δ) (hD : ∀ d c, (D.exec d c).2.Ok) (page_count : ℕ)
    (hP : page_count < 2 ^ 31) (ctx : MLX5_Context δ) (pre : Option PA.BlockPtr)
    (l : List PA.BlockPtr) (hpages : MEM.Pages ctx.mem_page_pool pre l)
    (hroom : page_count + ctx.mem_page_pool.pool.size ≤ ctx.mem_page_pool.pool.max)
    (hidle : CMD.Idle ctx.hca.args) (hmaps : ctx.mem_page_pool.world.services.Maps) :
    Ends (providePages D page_count) ctx
      (fun _ ctx' => ∃ chunks, Provided ctx ctx' l page_count chunks)
      fun e ctx' => NoMemory ctx l page_count e ctx' := by
  have hstart : Providing ctx pre l page_count 0 ⟨IMB_MAX_PAGE_PAYLOAD, ctx.uninit⟩ ctx := by
    refine ⟨[], ?_, hidle, ⟨?_, fun ps hps => by cases hps⟩,
      ⟨[], l, hpages, MEM.grabbed_nil⟩, rfl⟩
    · rw [Nat.zero_mul, Nat.zero_min]
      rfl
    · exact (List.append_nil _).symm
  have hloop := ends_forRange (Providing ctx pre l page_count) hstart fun i b ctx' hi h =>
    provideBatch_spec D hD hP hmaps hroom hi h
  refine Ends.bind_of_ok (get_apply ctx) (Ends.bind hloop ?_)
  rintro b ctx' ⟨chunks, hlength, -, hsent, ⟨es, l', hpages', hgrabbed⟩, -⟩
  rw [min_cmdCount hP] at hlength
  refine ends_pure ⟨chunks, hsent, ?_, hgrabbed.nodup_phys hpages', fun p hp => ?_,
    ⟨es, l', hgrabbed⟩, ?_⟩
  · rw [← List.length_flatten, hlength]
  · obtain ⟨e, he, hphys⟩ := hgrabbed.mem_iff.mp hp
    exact hpages'.phys_lt (MEM.inPool_of_usedAt ((hgrabbed.used e).mpr (.inr he))) hphys
  · rw [hgrabbed.size, ← hgrabbed.length_eq, hlength]

/-- Three pages for a device that has none yet. -/
theorem providePages_three : ∃ ctx' chunks,
    providePages CMD.counter 3 (initContext 0) = .ok () ctx' ∧
      Provided (initContext 0) ctx' [] 3 chunks := by
  have hidle : CMD.Idle (initContext 0).hca.args := CMD.freshArgs_idle (by norm_num) (by norm_num)
  have hroom : 3 + (initContext 0).mem_page_pool.pool.size ≤
      (initContext 0).mem_page_pool.pool.max := by decide
  have hends := providePages_spec CMD.counter (fun _ _ => ⟨rfl, rfl⟩) 3 (by norm_num)
    (initContext 0) none [] MEM.initPool_pages hroom hidle MEM.roomy_maps
  obtain ⟨_, ctx', hok, chunks, hprovided⟩ := hends.of_returned (by decide +kernel)
  exact ⟨ctx', chunks, hok, hprovided⟩

end L4Rdma.Driver
