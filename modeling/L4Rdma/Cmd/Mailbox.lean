import L4Rdma.Cmd.Model

/-!
# The mailboxes

What `tieMailTogether`, `packMail` and `unpackMail` do to the blocks of a mailbox. Word `j` of a
mailbox is word `j % 128` of block `j / 128`. `Tied` says that the blocks are a list in the order of
their addresses, `Packed` that words have been written to their places. Neither changes what the
other is about: tying blocks together leaves their data, and packing words leaves their headers.
-/

namespace L4Rdma.CMD

open Lib Device

variable {m : MEM.DmaMem} {mbb mbb' mbb'' : ℕ → MBB} {n : ℕ}

/-- A mailbox whose blocks are pages of the address space. -/
structure MailboxOk (m : MEM.DmaMem) : Prop where
  aligned : m.phys % MAILBOX_ALIGN_SIZE = 0
  fits : m.phys + MAILBOX_ALIGN_SIZE * MBB_MAX_COUNT ≤ 2 ^ 64

/-- Whether a mailbox is in order can be evaluated. -/
instance (m : MEM.DmaMem) : Decidable (MailboxOk m) :=
  decidable_of_iff (m.phys % MAILBOX_ALIGN_SIZE = 0 ∧ m.phys + MAILBOX_ALIGN_SIZE * MBB_MAX_COUNT ≤ 2 ^ 64)
    ⟨fun ⟨haligned, hfits⟩ => ⟨haligned, hfits⟩, fun h => ⟨h.aligned, h.fits⟩⟩

/-- Two mailboxes without a common block. -/
def Disjoint (m m' : MEM.DmaMem) : Prop :=
  m.phys + MAILBOX_ALIGN_SIZE * MBB_MAX_COUNT ≤ m'.phys ∨
    m'.phys + MAILBOX_ALIGN_SIZE * MBB_MAX_COUNT ≤ m.phys

/-- So can whether two of them have a common block. -/
instance (m m' : MEM.DmaMem) : Decidable (Disjoint m m') := inferInstanceAs (Decidable (_ ∨ _))

/-- It does not matter which one comes first. -/
theorem Disjoint.symm {m' : MEM.DmaMem} (h : Disjoint m m') : Disjoint m' m := Or.symm h

/-- Different blocks of a mailbox have different addresses. -/
theorem blockAddr_inj {i j : ℕ} : blockAddr m i = blockAddr m j ↔ i = j := by
  unfold blockAddr MAILBOX_ALIGN_SIZE
  omega

/-- The addresses of the first blocks of a mailbox. -/
def firstBlocks (m : MEM.DmaMem) (count : ℕ) : List ℕ := (List.range count).map (blockAddr m)

/-- The address of one of the first blocks. -/
theorem mem_firstBlocks {b count : ℕ} :
    b ∈ firstBlocks m count ↔ ∃ k, k < count ∧ blockAddr m k = b := by
  unfold firstBlocks
  rw [List.mem_map]
  simp only [List.mem_range]

/-- So do blocks of disjoint mailboxes. -/
theorem Disjoint.blockAddr_ne {m' : MEM.DmaMem} (h : Disjoint m m') {i j : ℕ}
    (hi : i < MBB_MAX_COUNT) (hj : j < MBB_MAX_COUNT) : blockAddr m i ≠ blockAddr m' j := by
  unfold Disjoint MAILBOX_ALIGN_SIZE at h
  unfold MBB_MAX_COUNT at h hi hj
  unfold blockAddr MAILBOX_ALIGN_SIZE
  omega

/-- The address of a block fits into 64 bits. -/
theorem MailboxOk.blockAddr_lt (h : MailboxOk m) {i : ℕ} (hi : i < MBB_MAX_COUNT) :
    blockAddr m i < 2 ^ 64 := by
  have hfits := h.fits
  unfold MAILBOX_ALIGN_SIZE at hfits
  unfold MBB_MAX_COUNT at hfits hi
  unfold blockAddr MAILBOX_ALIGN_SIZE
  omega

/-- The block after a block, as `tieMailTogether` computes its address. -/
theorem MailboxOk.blockAddr_succ (h : MailboxOk m) {i : ℕ} (hi : i + 1 < MBB_MAX_COUNT) :
    (blockAddr m i + MAILBOX_ALIGN_SIZE) % 2 ^ 64 = blockAddr m (i + 1) := by
  have hlt := h.blockAddr_lt hi
  have hsucc : blockAddr m i + MAILBOX_ALIGN_SIZE = blockAddr m (i + 1) := by
    rw [blockAddr, blockAddr, Nat.mul_succ, Nat.add_assoc]
  rw [hsucc, Nat.mod_eq_of_lt hlt]

/-- What a block has besides its data. -/
def MBB.header (b : MBB) : Word × Word × Word × Word :=
  (b.next_pointer_msb, b.next_pointer_lsb, b.block_number, b.ctrl)

/-- The next pointer of a block. -/
def MBB.next (b : MBB) : ℕ :=
  address (ioread32be b.next_pointer_msb) (ioread32be b.next_pointer_lsb)

/-- Blocks with the same header have the same next pointer. -/
theorem MBB.next_of_header {b b' : MBB} (h : b'.header = b.header) : b'.next = b.next := by
  unfold MBB.header at h
  simp only [Prod.mk.injEq] at h
  rw [MBB.next, h.1, h.2.1, MBB.next]

/-- `prepare_mbb` leaves the data of the block. -/
@[simp] theorem prepareMbb_data (phys_addr number : ℕ) (b : MBB) :
    (prepareMbb phys_addr number b).mailbox_data = b.mailbox_data := rfl

/-- A prepared block has the next pointer and the number it was given. -/
theorem prepareMbb_next {phys_addr number : ℕ} (b : MBB) (h : phys_addr < 2 ^ 64) :
    (prepareMbb phys_addr number b).next = phys_addr := by
  rw [MBB.next, prepareMbb]
  simp only [ioread32be, iowrite32be, swapEndian_swapEndian]
  exact address_msb_lsb h

/-- A block of the mailbox can be written. -/
theorem writeBlock_of_lt {i : ℕ} (hi : i < MBB_MAX_COUNT) (f : MBB → MBB) (a : CMD_Args) :
    writeBlock m i f a = .ok () { a with
      mbb := Function.update a.mbb (blockAddr m i) (f (a.mbb (blockAddr m i))) } := by
  rw [writeBlock, if_pos hi]
  rfl

/-- A block after the last one cannot. -/
theorem writeBlock_of_ge {i : ℕ} (hi : MBB_MAX_COUNT ≤ i) (f : MBB → MBB) (a : CMD_Args) :
    writeBlock m i f a = .error (.undefined .out_of_bounds) a := by
  rw [writeBlock, if_neg (Nat.not_lt_of_le hi)]
  rfl

/-! ## Tying blocks together -/

/-- The first `n` blocks of the mailbox are linked to the blocks after them. -/
def Chain (m : MEM.DmaMem) (n : ℕ) (mbb : ℕ → MBB) : Prop :=
  ∀ k, k < n → (mbb (blockAddr m k)).next = blockAddr m (k + 1)

/-- The blocks up to number `n` are tied together to a list, and nothing else is changed. -/
structure Tied (m : MEM.DmaMem) (n : ℕ) (mbb mbb' : ℕ → MBB) : Prop where
  chain : Chain m n mbb'
  last : (mbb' (blockAddr m n)).next = 0
  number : ∀ k, k ≤ n → ioread32be (mbb' (blockAddr m k)).block_number = BitVec.ofNat 32 k
  ctrl : ∀ k, k ≤ n → (mbb' (blockAddr m k)).ctrl = 0
  data : ∀ a, (mbb' a).mailbox_data = (mbb a).mailbox_data
  other : ∀ a, (∀ k, k ≤ n → a ≠ blockAddr m k) → mbb' a = mbb a

/-- The invariant of the loop of `tieMailTogether`. -/
structure TiedUpTo (m : MEM.DmaMem) (n : ℕ) (mbb mbb' : ℕ → MBB) : Prop where
  chain : Chain m n mbb'
  number : ∀ k, k < n → ioread32be (mbb' (blockAddr m k)).block_number = BitVec.ofNat 32 k
  ctrl : ∀ k, k < n → (mbb' (blockAddr m k)).ctrl = 0
  data : ∀ a, (mbb' a).mailbox_data = (mbb a).mailbox_data
  other : ∀ a, (∀ k, k < n → a ≠ blockAddr m k) → mbb' a = mbb a

/-- No block has been tied yet. -/
theorem tiedUpTo_zero : TiedUpTo m 0 mbb mbb where
  chain k hk := absurd hk (Nat.not_lt_zero k)
  number k hk := absurd hk (Nat.not_lt_zero k)
  ctrl k hk := absurd hk (Nat.not_lt_zero k)
  data _ := rfl
  other _ _ := rfl

/-- Preparing the next block. -/
theorem TiedUpTo.step (h : TiedUpTo m n mbb mbb') {phys_addr : ℕ} (hphys : phys_addr < 2 ^ 64) :
    let b := prepareMbb phys_addr n (mbb' (blockAddr m n))
    let mbb'' := Function.update mbb' (blockAddr m n) b
    (mbb'' (blockAddr m n)).next = phys_addr ∧ Chain m n mbb'' ∧
      (∀ k, k ≤ n → ioread32be (mbb'' (blockAddr m k)).block_number = BitVec.ofNat 32 k) ∧
      (∀ k, k ≤ n → (mbb'' (blockAddr m k)).ctrl = 0) ∧
      (∀ a, (mbb'' a).mailbox_data = (mbb a).mailbox_data) ∧
      ∀ a, (∀ k, k ≤ n → a ≠ blockAddr m k) → mbb'' a = mbb a := by
  intro b mbb''
  -- Block `n` is the new one, and the blocks before it are those of before.
  have hself : mbb'' (blockAddr m n) = b := Function.update_self _ _ _
  have hne : ∀ a, a ≠ blockAddr m n → mbb'' a = mbb' a := fun a ha => Function.update_of_ne ha _ _
  have hold : ∀ k, k < n → mbb'' (blockAddr m k) = mbb' (blockAddr m k) := fun k hk =>
    hne _ fun he => absurd (blockAddr_inj.mp he) (Nat.ne_of_lt hk)
  refine ⟨by rw [hself]; exact prepareMbb_next _ hphys, fun k hk => ?_, fun k hk => ?_,
    fun k hk => ?_, fun a => ?_, fun a ha => ?_⟩
  · rw [hold k hk]
    exact h.chain k hk
  · rcases Nat.lt_or_eq_of_le hk with hlt | rfl
    · rw [hold k hlt]
      exact h.number k hlt
    · rw [hself]
      exact swapEndian_swapEndian _
  · rcases Nat.lt_or_eq_of_le hk with hlt | rfl
    · rw [hold k hlt]
      exact h.ctrl k hlt
    · rw [hself]
      exact swapEndian_zero
  · by_cases ha : a = blockAddr m n
    · rw [ha, hself]
      exact h.data _
    · rw [hne a ha]
      exact h.data a
  · rw [hne a (ha n (Nat.le_refl n))]
    exact h.other a fun k hk => ha k (Nat.le_of_lt hk)

/-- One round of the loop of `tieMailTogether`. -/
theorem tieBlock_step (hm : MailboxOk m) {i : ℕ} (hi : i + 1 < MBB_MAX_COUNT) {a a' : CMD_Args}
    (h : a' = { a with mbb := a'.mbb } ∧ TiedUpTo m i a.mbb a'.mbb) :
    ∃ u a'', tieBlock m i () a' = .ok u a'' ∧ a'' = { a with mbb := a''.mbb } ∧
      TiedUpTo m (i + 1) a.mbb a''.mbb := by
  obtain ⟨heq, hup⟩ := h
  obtain ⟨hself, hchain, hnumber, hctrl, hdata, hother⟩ := hup.step (hm.blockAddr_lt hi)
  refine ⟨(), _, writeBlock_of_lt (by omega) _ _, by rw [heq], ?_⟩
  rw [hm.blockAddr_succ hi]
  refine ⟨fun k hk => ?_, fun k hk => hnumber k (by omega), fun k hk => hctrl k (by omega), hdata,
    fun a ha => hother a fun k hk => ha k (by omega)⟩
  rcases Nat.lt_or_eq_of_le (Nat.le_of_lt_succ hk) with hlt | rfl
  · exact hchain k hlt
  · exact hself

/-- `tieMailTogether` ties the blocks together. -/
theorem tieMailTogether_ok (hm : MailboxOk m) (hn : n < MBB_MAX_COUNT) (a : CMD_Args) :
    ∃ mbb', tieMailTogether m n a = .ok () { a with mbb := mbb' } ∧ Tied m n a.mbb mbb' := by
  have hrounds : ∃ u a', forRange n () (tieBlock m) a = .ok u a' ∧
      (a' = { a with mbb := a'.mbb } ∧ TiedUpTo m n a.mbb a'.mbb) :=
    forRange_ok (fun i (_ : Unit) (a' : CMD_Args) =>
        a' = { a with mbb := a'.mbb } ∧ TiedUpTo m i a.mbb a'.mbb)
      ⟨rfl, tiedUpTo_zero⟩ fun i _ a' hi hinv =>
        tieBlock_step hm (Nat.lt_of_le_of_lt (Nat.succ_le_of_lt hi) hn) hinv
  obtain ⟨u, a', hloop, heq, hup⟩ := hrounds
  obtain ⟨hself, hchain, hnumber, hctrl, hdata, hother⟩ := hup.step (show 0 < 2 ^ 64 by decide)
  refine ⟨_, ?_, hchain, hself, hnumber, hctrl, hdata, hother⟩
  rw [tieMailTogether, bind_of_ok hloop, writeBlock_of_lt hn, heq]

/-- `tieMailTogether` goes outside of the mailbox when it is given too many blocks. -/
theorem tieMailTogether_error (hn : MBB_MAX_COUNT ≤ n) (a : CMD_Args) :
    ∃ a', tieMailTogether m n a = .error (.undefined .out_of_bounds) a' := by
  have hround : ∀ i u a', i < MBB_MAX_COUNT → ∃ u' a'', tieBlock m i u a' = .ok u' a'' ∧ True :=
    fun i u a' hi => ⟨_, _, writeBlock_of_lt hi _ a', trivial⟩
  rcases Nat.lt_or_eq_of_le hn with hlt | heq
  · have hrounds : ∃ a', forRange n () (tieBlock m) a = .error (.undefined .out_of_bounds) a' :=
      forRange_error (fun _ _ _ => True) trivial hlt (fun i u a' hi _ => hround i u a' hi)
        fun _ a' _ => ⟨_, writeBlock_of_ge (Nat.le_refl _) _ a'⟩
    obtain ⟨a', hloop⟩ := hrounds
    exact ⟨a', bind_of_error hloop⟩
  · have hrounds : ∃ u a', forRange n () (tieBlock m) a = .ok u a' ∧ True :=
      forRange_ok (fun _ _ _ => True) trivial fun i u a' hi _ => hround i u a' (by omega)
    obtain ⟨u, a', hloop, -⟩ := hrounds
    refine ⟨a', ?_⟩
    rw [tieMailTogether, bind_of_ok hloop, writeBlock_of_ge hn]

/-! ## Packing and unpacking words -/

/-- The words `word 0` to `word (n - 1)` have been written to their places, and nothing else is
changed. -/
structure Packed (m : MEM.DmaMem) (word : ℕ → Word) (n : ℕ) (mbb mbb' : ℕ → MBB) : Prop where
  data : ∀ j, j < n → ioread32be ((mbb' (blockAddr m (j / 128))).mailbox_data (j % 128)) = word j
  other : ∀ a d, (∀ j, j < n → a = blockAddr m (j / 128) → d ≠ j % 128) →
    (mbb' a).mailbox_data d = (mbb a).mailbox_data d
  header : ∀ a, (mbb' a).header = (mbb a).header

/-- No word has been packed yet. -/
theorem packed_zero {word : ℕ → Word} : Packed m word 0 mbb mbb where
  data j hj := absurd hj (Nat.not_lt_zero j)
  other _ _ _ := rfl
  header _ := rfl

/-- Writing the next word. -/
theorem Packed.step {word : ℕ → Word} (h : Packed m word n mbb mbb') :
    Packed m word (n + 1) mbb (Function.update mbb' (blockAddr m (n / 128))
      { mbb' (blockAddr m (n / 128)) with
        mailbox_data := Function.update (mbb' (blockAddr m (n / 128))).mailbox_data (n % 128)
          (iowrite32be (word n)) }) := by
  refine ⟨fun j hj => ?_, fun a d hd => ?_, fun a => ?_⟩
  · -- Word `j` is in the block that is written to, or in another one.
    by_cases hblock : j / 128 = n / 128
    · rw [hblock, Function.update_self]
      -- In that block it is the new word or one of those before it.
      by_cases hword : j % 128 = n % 128
      · obtain rfl : j = n := by omega
        simp
      · have hlt : j < n := by omega
        have hold := h.data j hlt
        rw [hblock] at hold
        simp only [Function.update_of_ne hword]
        exact hold
    · have hne : blockAddr m (j / 128) ≠ blockAddr m (n / 128) := fun he =>
        hblock (blockAddr_inj.mp he)
      rw [Function.update_of_ne hne]
      have hjn : j ≠ n := fun he => hblock (by rw [he])
      exact h.data j (by omega)
  · -- A place that no word of the payload goes to.
    have hold := h.other a d fun j hj => hd j (by omega)
    -- Is it in the block that is written to?
    by_cases ha : a = blockAddr m (n / 128)
    · have hne := hd n (Nat.lt_succ_self n) ha
      subst ha
      simpa [Function.update_of_ne hne] using hold
    · rw [Function.update_of_ne ha, hold]
  · by_cases ha : a = blockAddr m (n / 128)
    · subst ha
      rw [Function.update_self]
      exact h.header _
    · rw [Function.update_of_ne ha]
      exact h.header a

/-- Packing leaves the links of the blocks. -/
theorem Packed.next {word : ℕ → Word} (h : Packed m word n mbb mbb') (a : ℕ) :
    (mbb' a).next = (mbb a).next :=
  MBB.next_of_header (h.header a)

/-- The counters before word `i`. -/
def AtWord (i : ℕ) (c : ℕ × ℕ) : Prop := 128 * c.2 + c.1 = i ∧ c.1 ≤ 128 ∧ (c.1 = 0 → i = 0)

/-- The counters before the first word. -/
theorem atWord_zero : AtWord 0 (0, 0) := ⟨rfl, by decide, fun _ => rfl⟩

/-- The next word goes to its place. -/
theorem AtWord.nextPlace {i : ℕ} {c : ℕ × ℕ} (h : AtWord i c) :
    nextPlace c = (i % 128, i / 128) := by
  obtain ⟨heq, hle, hzero⟩ := h
  unfold CMD.nextPlace
  split_ifs with hc <;> refine Prod.ext ?_ ?_ <;> simp only <;> omega

/-- The counters after a word. -/
theorem atWord_succ (i : ℕ) : AtWord (i + 1) (i % 128 + 1, i / 128) :=
  ⟨by show 128 * (i / 128) + (i % 128 + 1) = i + 1; omega, by show i % 128 + 1 ≤ 128; omega,
    fun h => by simp at h⟩

/-- After the last word the mailbox counter is the number of its block. -/
theorem AtWord.block {c : ℕ × ℕ} (h : AtWord n c) (hn : 0 < n) : c.2 = (n - 1) / 128 := by
  obtain ⟨heq, hle, hzero⟩ := h
  omega

/-- The blocks of the words that fit into a mailbox are in the mailbox. -/
theorem block_lt {i : ℕ} (h : i < IMB_MAX_DATA) : i / 128 < MBB_MAX_COUNT := by
  unfold IMB_MAX_DATA at h
  omega

/-- One round of the loop of `packMail`. -/
theorem packWord_step {payload : Buf} {start i : ℕ} {c : ℕ × ℕ} {a a' : CMD_Args}
    (hi : i < IMB_MAX_DATA) (hbuf : start + i < payload.size)
    (h : a' = { a with mbb := a'.mbb } ∧ AtWord i c ∧
      Packed m (fun j => payload.word (start + j)) i a.mbb a'.mbb) :
    ∃ c' a'', packWord m payload start i c a' = .ok c' a'' ∧ a'' = { a with mbb := a''.mbb } ∧
      AtWord (i + 1) c' ∧ Packed m (fun j => payload.word (start + j)) (i + 1) a.mbb a''.mbb := by
  obtain ⟨heq, hc, hp⟩ := h
  refine ⟨_, { a' with mbb := _ }, ?_, by rw [heq], atWord_succ i, hp.step⟩
  unfold packWord
  simp only [hc.nextPlace]
  rw [bind_of_ok (Buf.read_of_lt hbuf a'), bind_of_ok (writeBlock_of_lt (block_lt hi) _ a')]
  rfl

/-- `packMail` writes the words to their places and ties their blocks together. -/
theorem packMail_ok (hm : MailboxOk m) {payload : Buf} {start : ℕ} (hpos : 0 < n)
    (hn : n ≤ IMB_MAX_DATA) (hbuf : start + n ≤ payload.size) (a : CMD_Args) :
    ∃ mbb₁ mbb', packMail m payload start n a = .ok () { a with mbb := mbb' } ∧
      Packed m (fun j => payload.word (start + j)) n a.mbb mbb₁ ∧
      Tied m ((n - 1) / 128) mbb₁ mbb' := by
  have hrounds : ∃ c a', forRange n (0, 0) (packWord m payload start) a = .ok c a' ∧
      (a' = { a with mbb := a'.mbb } ∧ AtWord n c ∧
        Packed m (fun j => payload.word (start + j)) n a.mbb a'.mbb) :=
    forRange_ok (fun i c (a' : CMD_Args) => a' = { a with mbb := a'.mbb } ∧ AtWord i c ∧
        Packed m (fun j => payload.word (start + j)) i a.mbb a'.mbb)
      ⟨rfl, atWord_zero, packed_zero⟩ fun i c a' hi hinv =>
        packWord_step (Nat.lt_of_lt_of_le hi hn) (by omega) hinv
  obtain ⟨c, a', hloop, heq, hc, hp⟩ := hrounds
  obtain ⟨mbb', htie, htied⟩ := tieMailTogether_ok hm
    (show (n - 1) / 128 < MBB_MAX_COUNT from block_lt (by omega)) a'
  refine ⟨a'.mbb, mbb', ?_, hp, htied⟩
  rw [packMail, bind_of_ok hloop]
  show tieMailTogether m c.2 a' = _
  rw [hc.block hpos, htie, heq]

/-- `packMail` reads beyond a payload that has fewer words than it is to pack. -/
theorem packMail_overread {payload : Buf} {start : ℕ} (hstart : start ≤ payload.size)
    (hover : payload.size < start + n) (hn : n ≤ IMB_MAX_DATA) (a : CMD_Args) :
    ∃ a', packMail m payload start n a = .error (.undefined .out_of_bounds) a' := by
  have hrounds : ∃ a', forRange n (0, 0) (packWord m payload start) a =
      .error (.undefined .out_of_bounds) a' :=
    forRange_error (m := payload.size - start)
      (fun i c (a' : CMD_Args) => a' = { a with mbb := a'.mbb } ∧ AtWord i c ∧
        Packed m (fun j => payload.word (start + j)) i a.mbb a'.mbb)
      ⟨rfl, atWord_zero, packed_zero⟩ (by omega)
      (fun i c a' hi hinv => packWord_step (by omega) (by omega) hinv)
      fun c a' _ => ⟨_, bind_of_error (Buf.read_of_ge (by omega) _)⟩
  obtain ⟨a', hloop⟩ := hrounds
  exact ⟨a', bind_of_error hloop⟩

/-- The output buffer while words are unpacked into it: those before word `n` are the mailbox's. -/
structure Unpacked (word : ℕ → Word) (start n : ℕ) (b b' : Buf) : Prop where
  size : b'.size = b.size
  words : ∀ j, j < n → b'.word (start + j) = word j
  before : ∀ j, j < start → b'.word j = b.word j

/-- Word `j` of a mailbox. -/
def mailWord (m : MEM.DmaMem) (mbb : ℕ → MBB) (j : ℕ) : Word :=
  ioread32be ((mbb (blockAddr m (j / 128))).mailbox_data (j % 128))

/-- One round of the loop of `unpackMail`. -/
theorem unpackWord_step {b : Buf} {start i : ℕ} {c : (ℕ × ℕ) × Buf} {a : CMD_Args}
    (hi : i < OMB_MAX_DATA) (hbuf : start + i < b.size)
    (h : AtWord i c.1 ∧ Unpacked (mailWord m a.mbb) start i b c.2) :
    ∃ c', unpackWord m start i c a = .ok c' a ∧ AtWord (i + 1) c'.1 ∧
      Unpacked (mailWord m a.mbb) start (i + 1) b c'.2 := by
  obtain ⟨hc, hu⟩ := h
  have hwrite := Buf.write_of_lt (show start + i < c.2.size by rw [hu.size]; exact hbuf)
    (mailWord m a.mbb i) a
  refine ⟨((i % 128 + 1, i / 128), { c.2 with
    word := Function.update c.2.word (start + i) (mailWord m a.mbb i) }), ?_, atWord_succ i,
    hu.size, fun j hj => ?_, fun j hj => ?_⟩
  · unfold unpackWord
    simp only [hc.nextPlace, get_bind, if_pos (block_lt hi)]
    exact bind_of_ok hwrite
  · by_cases hji : j = i
    · subst hji
      exact Function.update_self _ _ _
    · exact (Function.update_of_ne (by omega) _ _).trans (hu.words j (by omega))
  · exact (Function.update_of_ne (by omega) _ _).trans (hu.before j hj)

/-- Notes that a block is read, if it is not the one that was read before. -/
def noteBlock (b : ℕ) (blocks : List ℕ) : List ℕ :=
  if blocks.getLast? = some b then blocks else blocks ++ [b]

/-- `unpack_mail` returns a payload, and has read the blocks in this order. Each round of its loop notes
the block that it has read a word of. -/
def Reads (mailbox : MEM.DmaMem) (payload : Buf) (start length : ℕ) (a : CMD_Args)
    (blocks : List ℕ) (payload' : Buf) : Prop :=
  ∃ c a', forRange length (((0, 0), payload), [])
    (noted (fun c => noteBlock (blockAddr mailbox c.1.2)) (unpackWord mailbox start)) a =
      .ok ((c, payload'), blocks) a'

/-- A block is noted with its first word, and not with the others. -/
theorem noteBlock_firstBlocks (i : ℕ) :
    noteBlock (blockAddr m (i / 128)) (firstBlocks m ((i + 127) / 128)) =
      firstBlocks m ((i + 1 + 127) / 128) := by
  have hlast : ∀ k, (firstBlocks m (k + 1)).getLast? = some (blockAddr m k) := fun k => by
    rw [firstBlocks, List.range_succ, List.map_append, List.map_singleton, List.getLast?_concat]
  have hnext : ∀ k, firstBlocks m k ++ [blockAddr m k] = firstBlocks m (k + 1) := fun k => by
    rw [firstBlocks, firstBlocks, List.range_succ, List.map_append, List.map_singleton]
  unfold noteBlock
  by_cases hfirst : i % 128 = 0
  · have hbefore : (i + 127) / 128 = i / 128 := by omega
    have hafter : (i + 1 + 127) / 128 = i / 128 + 1 := by omega
    rw [hbefore, hafter, hnext]
    refine if_neg fun hlast' => ?_
    -- The block before is another one.
    rcases hk : i / 128 with - | k
    · rw [hk] at hlast'
      cases hlast'
    · rw [hk, hlast] at hlast'
      exact absurd (blockAddr_inj.mp (Option.some.inj hlast')) (Nat.ne_of_lt (Nat.lt_succ_self k))
  · have hbefore : (i + 127) / 128 = i / 128 + 1 := by omega
    have hafter : (i + 1 + 127) / 128 = i / 128 + 1 := by omega
    rw [hbefore, hafter, hlast, if_pos rfl]

/-- A round of the loop of `unpack_mail` writes one word of the payload. -/
theorem unpackWord_other {start i : ℕ} {c c' : (ℕ × ℕ) × Buf} (h : unpackWord m start i c a = .ok c' a')
    {j : ℕ} (hj : j ≠ start + i) : c'.2.word j = c.2.word j := by
  unfold unpackWord at h
  simp only [get_bind] at h
  split_ifs at h with hblock
  · obtain ⟨b, a₁, hwrite, hret⟩ := bind_eq_ok_iff.mp h
    cases hret
    unfold Buf.write at hwrite
    split_ifs at hwrite with hsize
    · cases hwrite
      exact Function.update_of_ne hj _ _
    · cases hwrite
  · cases h

/-- `unpack_mail` reads the blocks of the words one after the other, and writes only the words of the
payload that it is to write. -/
theorem unpackMail_reads {b : Buf} {start : ℕ} (hn : n ≤ OMB_MAX_DATA) (hbuf : start + n ≤ b.size)
    (a : CMD_Args) :
    ∃ b', unpackMail m b start n a = .ok b' a ∧
      Reads m b start n a (firstBlocks m ((n + 127) / 128)) b' ∧
      Unpacked (mailWord m a.mbb) start n b b' ∧ ∀ j, start + n ≤ j → b'.word j = b.word j := by
  have hrounds : ∃ c a', forRange n (((0, 0), b), [])
      (noted (fun c => noteBlock (blockAddr m c.1.2)) (unpackWord m start)) a = .ok c a' ∧
      (a' = a ∧ AtWord n c.1.1 ∧ Unpacked (mailWord m a.mbb) start n b c.1.2 ∧
        c.2 = firstBlocks m ((n + 127) / 128) ∧ ∀ j, start + n ≤ j → c.1.2.word j = b.word j) :=
    forRange_ok (fun i (c : ((ℕ × ℕ) × Buf) × List ℕ) a' =>
        a' = a ∧ AtWord i c.1.1 ∧ Unpacked (mailWord m a.mbb) start i b c.1.2 ∧
          c.2 = firstBlocks m ((i + 127) / 128) ∧ ∀ j, start + i ≤ j → c.1.2.word j = b.word j)
      ⟨rfl, atWord_zero, ⟨rfl, fun j hj => absurd hj (Nat.not_lt_zero j), fun _ _ => rfl⟩, rfl,
        fun _ _ => rfl⟩
      fun i c a' hi hinv => by
        obtain ⟨rfl, hc, hu, hblocks, hafter⟩ := hinv
        obtain ⟨c', hround, hc', hu'⟩ :=
          unpackWord_step (Nat.lt_of_lt_of_le hi hn) (by omega) ⟨hc, hu⟩
        refine ⟨_, a', bind_of_ok hround, rfl, hc', hu', ?_, fun j hj => ?_⟩
        · show noteBlock (blockAddr m c'.1.2) c.2 = _
          rw [hc'.block (Nat.succ_pos i), hblocks]
          exact noteBlock_firstBlocks i
        · exact (unpackWord_other hround (by omega)).trans (hafter j (by omega))
  obtain ⟨⟨⟨c, b'⟩, blocks⟩, a', hloop, rfl, hc, hu, rfl, hafter⟩ := hrounds
  exact ⟨b', bind_of_ok (forRange_noted hloop), ⟨c, a', hloop⟩, hu, hafter⟩

end L4Rdma.CMD
