import L4Rdma.Driver.Model

/-!
# The interface version and the capabilities

`configure_issi` and `configure_hca_cap` of `server/src/driver.cc` ask the device what it supports
and tell it what to use.

The versions come as a mask of 640 bits in twenty words, the last of which has the lowest bits.
`get_issi_support` returns one more than the lowest version, and 640 when there is none
(`getIssiSupport_ok`), which is never 0. So `configure_issi` chooses version 1 whatever the mask is,
and it does what its check is for exactly when version 1 is supported (`choosesIssi_iff`).

The capabilities are 406 words. `configure_hca_cap` sends them back with three fields set, and sets a
field by assigning to the whole word. The device is told the capabilities that it has reported, apart
from the three fields, exactly when each word that is assigned to has no other bit set
(`setsCaps_iff`).
-/

namespace L4Rdma.Driver

open Lib Device

variable {δ : Type}

/-! ## The interface version -/

/-- The number of words of output of QUERY_ISSI. -/
abbrev QUERY_ISSI_OUTPUT_LENGTH : ℕ := 26

/-- The number of words of output of SET_ISSI. -/
abbrev SET_ISSI_OUTPUT_LENGTH : ℕ := 0

/-- `ffs`: the place of the lowest bit that is set, counted from 1, or 0. -/
def ffs (w : Word) : Word :=
  match (List.range 32).find? fun i => w.getLsbD i with
  | some i => BitVec.ofNat 32 (i + 1)
  | none => 0

/-- The loop of `get_issi_support`, from word `5 + k` down to word 6: the last `pos`, and the
`count` of the words without a bit. -/
def issiLoop {σ : Type} (issi_out : Buf) : ℕ → Word → Exec σ (Word × Word)
  | 0, count => pure (0, count)
  | k + 1, count => do
    let w ← issi_out.read (6 + k)
    if ffs w ≠ 0 then return (ffs w, count)
    issiLoop issi_out k (count + 1)

/-- `get_issi_support`. -/
def getIssiSupport (slot : ℕ) : Exec (MLX5_Context δ) Word := do
  let ctx ← get
  let issi_out : Buf := ⟨QUERY_ISSI_OUTPUT_LENGTH, ctx.uninit⟩
  let issi_out ← argsLens.zoom (CMD.getCmdOutput slot issi_out QUERY_ISSI_OUTPUT_LENGTH)
  let (pos, count) ← issiLoop issi_out (QUERY_ISSI_OUTPUT_LENGTH - 6) 0
  return count * 32 + pos

/-- `configure_issi`. -/
def configureIssi (D : CMD.HCA δ) : Exec (MLX5_Context δ) Word := do
  let slot ← hcaLens.zoom
    (CMD.issue D .QUERY_ISSI 0x0 (Buf.ofList []) 0 QUERY_ISSI_OUTPUT_LENGTH)
  -- Setting ISSI to version 1 if supported or else 0.
  let issi ← getIssiSupport slot
  if issi = 0 then throw (.thrown "ISSI version 1 not supported by Hardware")
  let _ ← hcaLens.zoom (CMD.issue D .SET_ISSI 0x0 (Buf.ofList [1]) 1 SET_ISSI_OUTPUT_LENGTH)
  return 1

/-! ## The capabilities -/

/-- The number of words of output of QUERY_HCA_CAP. -/
abbrev QUERY_HCA_CAP_OUTPUT_LENGTH : ℕ := 406

/-- The number of words of output of SET_HCA_CAP. -/
abbrev SET_HCA_CAP_OUTPUT_LENGTH : ℕ := 2

/-- Sets a field of a word, if the device has reported one that is not 0. The whole word is assigned
to. -/
def configureField {σ : Type} (hca_cap : Buf) (i offset : ℕ) (mask : Word) (value : Word → Word) :
    Exec σ Buf := do
  let w ← hca_cap.read i
  let field := w >>> offset &&& mask
  if field ≠ 0 then hca_cap.write i (value field) else return hca_cap

/-- The assignments of `configure_hca_cap`. -/
def configureFields {σ : Type} (hca_cap : Buf) : Exec σ Buf := do
  -- 0x1 = 128 byte Cache line size supported
  let hca_cap ← configureField hca_cap (0x2c / 4 + 2) 27 0x1 fun _ => (1 : Word) <<< 27
  -- 0x1 = enable cmd signature generation by hw for output
  let hca_cap ← configureField hca_cap (0x40 / 4 + 2) 14 0x3 fun _ => (1 : Word) <<< 14
  -- base log2 max number of sq (0 = setting not supported)
  configureField hca_cap (0x6c / 4 + 2) 16 0x1f fun log_max_sq => log_max_sq <<< 16

/-- `configure_hca_cap`. -/
def configureHcaCap (D : CMD.HCA δ) : Exec (MLX5_Context δ) Bool := do
  let slot ← hcaLens.zoom
    (CMD.issue D .QUERY_HCA_CAP 0x0 (Buf.ofList [0]) 1 QUERY_HCA_CAP_OUTPUT_LENGTH)
  let ctx ← get
  let hca_cap : Buf := ⟨QUERY_HCA_CAP_OUTPUT_LENGTH, ctx.uninit⟩
  let hca_cap ← argsLens.zoom (CMD.getCmdOutput slot hca_cap QUERY_HCA_CAP_OUTPUT_LENGTH)
  let hca_cap ← configureFields hca_cap
  let w ← hca_cap.read (0x4c / 4 + 2)
  let driver_version := w >>> 30 &&& 0x1
  let _ ← hcaLens.zoom (CMD.issue D .SET_HCA_CAP 0x0 hca_cap QUERY_HCA_CAP_OUTPUT_LENGTH
    SET_HCA_CAP_OUTPUT_LENGTH)
  return driver_version ≠ 0

/-! ## Asking the device -/

/-- A command whose output is taken. -/
theorem query_ok (D : CMD.HCA δ) {ctx : MLX5_Context δ} (hidle : CMD.Idle ctx.hca.args)
    {payload : Buf} {payload_length output_length : ℕ}
    (hfits : CMD.Fits payload payload_length output_length) (opcode : CMD.OPCODE)
    (hr : (D.exec ctx.hca.dev
      (CMD.command opcode 0x0 payload payload_length output_length)).2.Ok) :
    let c := CMD.command opcode 0x0 payload payload_length output_length
    ∃ (slot : ℕ) (w : CMD.World δ) (output : Buf), w.dev = (D.exec ctx.hca.dev c).1 ∧
      w.seen = ctx.hca.seen ++ [c] ∧ CMD.Idle w.args ∧
      CMD.Answered w.args slot output_length (D.exec ctx.hca.dev c).2 ∧
      hcaLens.zoom (CMD.issue D opcode 0x0 payload payload_length output_length) ctx =
        .ok slot { ctx with hca := w } ∧
      argsLens.zoom (CMD.getCmdOutput slot ⟨output_length, ctx.uninit⟩ output_length)
        { ctx with hca := w } = .ok output { ctx with hca := w } ∧
      output.size = output_length ∧
      ∀ i < output_length, output.word i = (D.exec ctx.hca.dev c).2.output i := by
  intro c
  obtain ⟨w, hdev, hseen, hidle', -, hanswered, hissue⟩ :=
    CMD.issue_cases D hidle hfits opcode 0x0
  have hok := hissue.resolve_right fun h => h.1 hr
  have hroom : output_length ≤ (⟨output_length, ctx.uninit⟩ : Buf).size := Nat.le_refl _
  obtain ⟨output, hget, hsize, hwords⟩ := CMD.getCmdOutput_ok hanswered hfits.output_le hroom
  exact ⟨_, w, output, hdev, hseen, hidle', hanswered, Lens.zoom_of_ok hok, Lens.zoom_of_ok hget,
    hsize, hwords⟩

/-- A command that is issued is seen by the device, however the command ends. -/
theorem ends_issue (D : CMD.HCA δ) {ctx : MLX5_Context δ} (hidle : CMD.Idle ctx.hca.args)
    {payload : Buf} {payload_length output_length : ℕ}
    (hfits : CMD.Fits payload payload_length output_length) (opcode : CMD.OPCODE) :
    let c := CMD.command opcode 0x0 payload payload_length output_length
    Ends (hcaLens.zoom (CMD.issue D opcode 0x0 payload payload_length output_length)) ctx
      (fun _ ctx' => ctx'.hca.seen = ctx.hca.seen ++ [c])
      fun _ ctx' => ctx'.hca.seen = ctx.hca.seen ++ [c] := by
  intro c
  obtain ⟨w, -, hseen, -, -, -, hissue⟩ := CMD.issue_cases D hidle hfits opcode 0x0
  rcases hissue with hok | ⟨-, what, herr⟩
  · exact ends_of_ok (Lens.zoom_of_ok hok) hseen
  · exact ends_of_error (Lens.zoom_of_error herr) hseen

/-! ## The versions in the mask -/

/-- Version `v` is supported: the lowest bits are in word 25, and the highest in word 6. -/
def Supports (out : ℕ → Word) (v : ℕ) : Prop :=
  v < 640 ∧ (out (25 - v / 32)).getLsbD (v % 32) = true

/-- Whether a version is supported can be evaluated. -/
instance (out : ℕ → Word) : DecidablePred (Supports out) :=
  fun _ => inferInstanceAs (Decidable (_ ∧ _))

/-- `ffs` finds the lowest bit that is set. -/
theorem ffs_of_lowest {w : Word} {i : ℕ} (hi : i < 32) (h : w.getLsbD i = true)
    (hlow : ∀ j < i, w.getLsbD j = false) : ffs w = BitVec.ofNat 32 (i + 1) := by
  have hfind : (List.range 32).find? (fun i => w.getLsbD i) = some i := by
    rw [List.find?_range_eq_some]
    exact ⟨h, List.mem_range.mpr hi, fun j hj => by rw [hlow j hj]; rfl⟩
  unfold ffs
  rw [hfind]

/-- Without such a bit it is 0. -/
theorem ffs_of_zero {w : Word} (h : ∀ j < 32, w.getLsbD j = false) : ffs w = 0 := by
  have hfind : (List.range 32).find? (fun i => w.getLsbD i) = none := by
    rw [List.find?_eq_none]
    intro i hi
    rw [h i (List.mem_range.mp hi)]
    exact Bool.false_ne_true
  unfold ffs
  rw [hfind]

/-- A word with a bit has a lowest one. -/
theorem exists_lowest {w : Word} (h : ∃ j < 32, w.getLsbD j = true) :
    ∃ i < 32, w.getLsbD i = true ∧ ∀ j < i, w.getLsbD j = false := by
  classical
  have hspec := Nat.find_spec h
  refine ⟨Nat.find h, hspec.1, hspec.2, fun j hj => ?_⟩
  have hmin := Nat.find_min h hj
  by_contra hset
  exact hmin ⟨by omega, by simpa using hset⟩

/-- The word that a round of the loop looks at has the versions from `32 * (20 - (k + 1))` on. -/
theorem supports_iff_bit {out : ℕ → Word} {k u : ℕ} (hk : k + 1 ≤ 20) (hu : u / 32 = 20 - (k + 1)) :
    Supports out u ↔ (out (6 + k)).getLsbD (u % 32) = true := by
  have hword : 25 - u / 32 = 6 + k := by omega
  unfold Supports
  rw [hword]
  exact and_iff_right (by omega)

/-- A round of the loop that finds a bit is the last one. -/
theorem issiLoop_found {σ : Type} {issi_out : Buf} (hsize : 26 ≤ issi_out.size) {k : ℕ}
    (hk : k + 1 ≤ 20) (s : σ) (hbit : ∃ j < 32, (issi_out.word (6 + k)).getLsbD j = true) :
    ∃ v, Supports issi_out.word v ∧
      (∀ u < v, 20 - (k + 1) ≤ u / 32 → ¬ Supports issi_out.word u) ∧
      issiLoop issi_out (k + 1) (BitVec.ofNat 32 (20 - (k + 1))) s =
        .ok (BitVec.ofNat 32 (v % 32 + 1), BitVec.ofNat 32 (v / 32)) s := by
  have hread : issi_out.read (6 + k) s = .ok (issi_out.word (6 + k)) s :=
    Buf.read_of_lt (by omega) s
  obtain ⟨i, hi, hset, hlow⟩ := exists_lowest hbit
  have hffs := ffs_of_lowest hi hset hlow
  have hne : ffs (issi_out.word (6 + k)) ≠ 0 := by
    rw [hffs]
    intro hzero
    have hnat := congrArg BitVec.toNat hzero
    rw [BitVec.toNat_ofNat, Nat.mod_eq_of_lt (by omega)] at hnat
    cases hnat
  have hv : (32 * (20 - (k + 1)) + i) / 32 = 20 - (k + 1) := by omega
  have hv' : (32 * (20 - (k + 1)) + i) % 32 = i := by omega
  refine ⟨32 * (20 - (k + 1)) + i, ?_, fun u hu hge hsup => ?_, ?_⟩
  · rw [supports_iff_bit hk hv, hv']
    exact hset
  · have hclear := hlow (u % 32) (by omega)
    rw [supports_iff_bit hk (by omega), hclear] at hsup
    cases hsup
  · unfold issiLoop
    rw [bind_of_ok hread, if_pos hne, hffs, hv, hv']
    rfl

/-- A round that finds none goes on with the next higher versions. -/
theorem issiLoop_none {σ : Type} {issi_out : Buf} (hsize : 26 ≤ issi_out.size) {k : ℕ}
    (hk : k + 1 ≤ 20) (s : σ) (hclear : ∀ j < 32, (issi_out.word (6 + k)).getLsbD j = false) :
    issiLoop issi_out (k + 1) (BitVec.ofNat 32 (20 - (k + 1))) s =
      issiLoop issi_out k (BitVec.ofNat 32 (20 - k)) s := by
  have hread : issi_out.read (6 + k) s = .ok (issi_out.word (6 + k)) s :=
    Buf.read_of_lt (by omega) s
  have hcount : BitVec.ofNat 32 (20 - (k + 1)) + 1 = BitVec.ofNat 32 (20 - k) := by
    rw [show 20 - k = 20 - (k + 1) + 1 by omega]
    exact (BitVec.ofNat_add ..).symm
  rw [issiLoop, bind_of_ok hread, if_neg (not_not.mpr (ffs_of_zero hclear)), hcount]

/-- The loop finds the lowest version in the words that it goes through, or none. -/
theorem issiLoop_ok {σ : Type} {issi_out : Buf} (hsize : 26 ≤ issi_out.size) {k : ℕ} (hk : k ≤ 20)
    (s : σ) :
    (∃ v, Supports issi_out.word v ∧ (∀ u < v, 20 - k ≤ u / 32 → ¬ Supports issi_out.word u) ∧
      issiLoop issi_out k (BitVec.ofNat 32 (20 - k)) s =
        .ok (BitVec.ofNat 32 (v % 32 + 1), BitVec.ofNat 32 (v / 32)) s) ∨
    ((∀ u, 20 - k ≤ u / 32 → ¬ Supports issi_out.word u) ∧
      issiLoop issi_out k (BitVec.ofNat 32 (20 - k)) s = .ok (0, 20) s) := by
  induction k with
  | zero =>
    -- There is no word left, and versions end with the last one.
    refine .inr ⟨fun u hu hsup => ?_, rfl⟩
    have hlt := hsup.1
    omega
  | succ k ih =>
    by_cases hbit : ∃ j < 32, (issi_out.word (6 + k)).getLsbD j = true
    · exact .inl (issiLoop_found hsize hk s hbit)
    · have hclear : ∀ j < 32, (issi_out.word (6 + k)).getLsbD j = false := fun j hj => by
        by_contra hset
        exact hbit ⟨j, hj, by simpa using hset⟩
      -- So the word has no version, and those that are left are above it.
      have hnone : ∀ u, u / 32 = 20 - (k + 1) → ¬ Supports issi_out.word u := fun u hu hsup => by
        rw [supports_iff_bit hk hu, hclear _ (Nat.mod_lt u (by norm_num))] at hsup
        cases hsup
      rw [issiLoop_none hsize hk s hclear]
      -- The rest of the words has the lowest version or none.
      rcases ih (by omega) with ⟨v, hsup, hbefore, hloop⟩ | ⟨hnever, hloop⟩
      · refine .inl ⟨v, hsup, fun u hu hge hsup' => ?_, hloop⟩
        rcases Nat.lt_or_ge (u / 32) (20 - k) with hlt | hge'
        · exact hnone u (by omega) hsup'
        · exact hbefore u hu hge' hsup'
      · refine .inr ⟨fun u hge hsup' => ?_, hloop⟩
        rcases Nat.lt_or_ge (u / 32) (20 - k) with hlt | hge'
        · exact hnone u (by omega) hsup'
        · exact hnever u hge' hsup'

/-- `get_issi_support` returns one more than the lowest version, or 640 when there is none. -/
theorem getIssiSupport_ok {ctx : MLX5_Context δ} {slot : ℕ} {r : CMD.Reply}
    (h : CMD.Answered ctx.hca.args slot QUERY_ISSI_OUTPUT_LENGTH r) :
    (∃ v, Supports r.output v ∧ (∀ u < v, ¬ Supports r.output u) ∧
      getIssiSupport slot ctx = .ok (BitVec.ofNat 32 (v + 1)) ctx) ∨
    ((∀ u, ¬ Supports r.output u) ∧ getIssiSupport slot ctx = .ok 640 ctx) := by
  have hroom : QUERY_ISSI_OUTPUT_LENGTH ≤ (⟨QUERY_ISSI_OUTPUT_LENGTH, ctx.uninit⟩ : Buf).size :=
    Nat.le_refl _
  obtain ⟨issi_out, hget, hsize, hwords⟩ := CMD.getCmdOutput_ok h (by norm_num) hroom
  have hget' : argsLens.zoom (CMD.getCmdOutput slot ⟨QUERY_ISSI_OUTPUT_LENGTH, ctx.uninit⟩
      QUERY_ISSI_OUTPUT_LENGTH) ctx = .ok issi_out ctx := Lens.zoom_of_ok hget
  -- The words that it goes through are those of the reply.
  have hsup : ∀ u, Supports issi_out.word u ↔ Supports r.output u := fun u => by
    have hlt : 25 - u / 32 < QUERY_ISSI_OUTPUT_LENGTH := by
      show 25 - u / 32 < 26
      omega
    unfold Supports
    rw [hwords (25 - u / 32) hlt]
  have hlength : QUERY_ISSI_OUTPUT_LENGTH - 6 = 20 := rfl
  have hstart : BitVec.ofNat 32 (20 - 20) = 0 := rfl
  -- The result is made of the place in the word and of the number of words before it.
  have hrun : ∀ {pos count : Word}, issiLoop issi_out 20 (BitVec.ofNat 32 (20 - 20)) ctx =
      .ok (pos, count) ctx → getIssiSupport slot ctx = .ok (count * 32 + pos) ctx := by
    intro pos count hloop
    rw [hstart] at hloop
    unfold getIssiSupport
    rw [get_bind, bind_of_ok hget', hlength, bind_of_ok hloop]
    rfl
  have hle : 26 ≤ issi_out.size := by rw [hsize]
  rcases issiLoop_ok hle (Nat.le_refl 20) ctx with
    ⟨v, hv, hbefore, hloop⟩ | ⟨hnever, hloop⟩
  · refine .inl ⟨v, (hsup v).mp hv, fun u hu h => hbefore u hu (by omega) ((hsup u).mpr h), ?_⟩
    -- So it is one more than the version.
    have hsum : BitVec.ofNat 32 (v / 32) * 32 + BitVec.ofNat 32 (v % 32 + 1) =
        BitVec.ofNat 32 (v + 1) := by
      have hnat : v + 1 = v / 32 * 32 + (v % 32 + 1) := by omega
      calc BitVec.ofNat 32 (v / 32) * 32 + BitVec.ofNat 32 (v % 32 + 1)
          = BitVec.ofNat 32 (v / 32 * 32 + (v % 32 + 1)) := by
            rw [BitVec.ofNat_add (v / 32 * 32), BitVec.ofNat_mul]
            rfl
        _ = BitVec.ofNat 32 (v + 1) := by rw [hnat]
    rw [hrun hloop, hsum]
  · exact .inr ⟨fun u h => hnever u (by omega) ((hsup u).mpr h), hrun hloop⟩

/-- Its result is not 0. -/
theorem getIssiSupport_ne_zero {ctx : MLX5_Context δ} {slot : ℕ} {r : CMD.Reply}
    (h : CMD.Answered ctx.hca.args slot QUERY_ISSI_OUTPUT_LENGTH r) :
    ∃ issi, issi ≠ 0 ∧ getIssiSupport slot ctx = .ok issi ctx := by
  rcases getIssiSupport_ok h with ⟨v, hv, -, hrun⟩ | ⟨-, hrun⟩
  · refine ⟨_, fun hzero => ?_, hrun⟩
    have hlt := hv.1
    have hnat := congrArg BitVec.toNat hzero
    rw [BitVec.toNat_ofNat, Nat.mod_eq_of_lt (by omega)] at hnat
    cases hnat
  · exact ⟨640, by decide, hrun⟩

/-! ## The choice of the version -/

/-- The command that asks for the versions. -/
def queryIssi : CMD.Command :=
  CMD.command .QUERY_ISSI 0x0 (Buf.ofList []) 0 QUERY_ISSI_OUTPUT_LENGTH

/-- The command that sets version 1. -/
def setIssi1 : CMD.Command := CMD.command .SET_ISSI 0x0 (Buf.ofList [1]) 1 SET_ISSI_OUTPUT_LENGTH

/-- The commands that the device has seen after it was in the context `ctx`. -/
def seenAfter (ctx ctx' : MLX5_Context δ) : List CMD.Command :=
  ctx'.hca.seen.drop ctx.hca.seen.length

/-- What the functions are to make of the output of the query. -/
structure ChoosesIssi (D : CMD.HCA δ) (ctx : MLX5_Context δ) (r : CMD.Reply) : Prop where
  /-- `get_issi_support` returns 0 when no version is supported. -/
  none : (∀ v, ¬ Supports r.output v) → ∀ (ctx' : MLX5_Context δ) slot,
    CMD.Answered ctx'.hca.args slot QUERY_ISSI_OUTPUT_LENGTH r →
      Ends (getIssiSupport slot) ctx' (fun issi _ => issi = 0) fun _ _ => False
  /-- `configure_issi` sets version 1 only if it is supported. -/
  only : Ends (configureIssi D) ctx
    (fun _ ctx' => setIssi1 ∈ seenAfter ctx ctx' → Supports r.output 1)
    fun _ ctx' => setIssi1 ∈ seenAfter ctx ctx' → Supports r.output 1
  /-- When no version other than 0 is supported, it throws and does not set version 1. -/
  refuses : (∀ v, Supports r.output v → v = 0) → Ends (configureIssi D) ctx (fun _ _ => False)
    fun e ctx' => e = .thrown "ISSI version 1 not supported by Hardware" ∧
      setIssi1 ∉ seenAfter ctx ctx'

/-- Whatever the device supports, it is told to use version 1. -/
theorem configureIssi_sets (D : CMD.HCA δ) {ctx : MLX5_Context δ} (hidle : CMD.Idle ctx.hca.args)
    (hr : (D.exec ctx.hca.dev queryIssi).2.Ok) :
    Ends (configureIssi D) ctx (fun _ ctx' => setIssi1 ∈ seenAfter ctx ctx')
      fun _ ctx' => setIssi1 ∈ seenAfter ctx ctx' := by
  have hfits : CMD.Fits (Buf.ofList []) 0 QUERY_ISSI_OUTPUT_LENGTH :=
    ⟨by norm_num, Nat.le_refl 0, by norm_num⟩
  have hfits' : CMD.Fits (Buf.ofList [1]) 1 SET_ISSI_OUTPUT_LENGTH :=
    ⟨by norm_num, Nat.le_refl 1, by norm_num⟩
  obtain ⟨slot, w, output, -, hseen, hidle', hanswered, hissue, -⟩ :=
    query_ok D hidle hfits .QUERY_ISSI hr
  let ctx₁ : MLX5_Context δ := { ctx with hca := w }
  have hanswered₁ : CMD.Answered ctx₁.hca.args slot QUERY_ISSI_OUTPUT_LENGTH _ := hanswered
  obtain ⟨issi, hne, hsupport⟩ := getIssiSupport_ne_zero hanswered₁
  have hafter : ∀ ctx' : MLX5_Context δ, ctx'.hca.seen = w.seen ++ [setIssi1] →
      setIssi1 ∈ seenAfter ctx ctx' := by
    intro ctx' hseen'
    unfold seenAfter
    rw [hseen', hseen, List.append_assoc, List.drop_left]
    simp
  unfold configureIssi
  refine Ends.bind_of_ok hissue (Ends.bind_of_ok hsupport ?_)
  rw [if_neg hne]
  have hidle₁ : CMD.Idle ctx₁.hca.args := hidle'
  have hset := ends_issue D hidle₁ hfits' .SET_ISSI
  exact Ends.bind (hset.mono (fun _ ctx' => hafter ctx') fun _ ctx' => hafter ctx')
    fun _ _ h => ends_pure h

/-- The output of the query is made of what it says exactly when version 1 is supported. -/
theorem choosesIssi_iff (D : CMD.HCA δ) (ctx : MLX5_Context δ) (hidle : CMD.Idle ctx.hca.args)
    (hr : (D.exec ctx.hca.dev queryIssi).2.Ok) :
    ChoosesIssi D ctx (D.exec ctx.hca.dev queryIssi).2 ↔
      Supports (D.exec ctx.hca.dev queryIssi).2.output 1 := by
  have hsets := configureIssi_sets D hidle hr
  constructor
  · intro h
    rcases hsets.cases with ⟨issi, ctx', hrun, hset⟩ | ⟨e, ctx', hrun, hset⟩
    · exact h.only.1 _ _ hrun hset
    · exact h.only.2 _ _ hrun hset
  · intro hone
    refine ⟨fun hnone => absurd hone (hnone 1), ?_, fun hzero => ?_⟩
    · exact hsets.mono (fun _ _ _ _ => hone) fun _ _ _ _ => hone
    · exact absurd (hzero 1 hone) Nat.one_ne_zero

/-- A device that reports the versions 0 and 1 in every word. -/
def twoVersions : CMD.HCA Unit where
  exec _ _ := ((), ⟨0, 0, fun _ => 0b11⟩)

/-- This device supports version 1. -/
theorem choosesIssi_twoVersions : ChoosesIssi twoVersions (initContext ()) ⟨0, 0, fun _ => 0b11⟩ :=
  (choosesIssi_iff twoVersions (initContext ()) (initContext_idle ()) ⟨rfl, rfl⟩).mpr (by decide)

/-- The driver tells a device that reports no version to use version 1. -/
theorem not_choosesIssi_quiet : ¬ ∀ (D : CMD.HCA Unit) (ctx : MLX5_Context Unit),
    CMD.Idle ctx.hca.args → (D.exec ctx.hca.dev queryIssi).2.Ok →
      ChoosesIssi D ctx (D.exec ctx.hca.dev queryIssi).2 := by
  intro hall
  have hchooses := hall CMD.quiet (initContext ()) (initContext_idle ()) ⟨rfl, rfl⟩
  have hsets := configureIssi_sets CMD.quiet (initContext_idle ()) ⟨rfl, rfl⟩
  have hnot : ¬ Supports (CMD.quiet.exec (initContext ()).hca.dev queryIssi).2.output 1 := by
    decide
  rcases hsets.cases with ⟨issi, ctx', hrun, hset⟩ | ⟨e, ctx', hrun, hset⟩
  · exact hnot (hchooses.only.1 _ _ hrun hset)
  · exact hnot (hchooses.only.2 _ _ hrun hset)

/-! ## The words of the capabilities -/

/-- The word with a field that has been set. -/
def fieldWord (w : Word) (offset : ℕ) (mask : Word) (value : Word → Word) : Word :=
  if w >>> offset &&& mask ≠ 0 then value (w >>> offset &&& mask) else w

/-- Setting a field writes its word and leaves the others. -/
theorem configureField_ok {σ : Type} {hca_cap : Buf} {i : ℕ} (h : i < hca_cap.size) (offset : ℕ)
    (mask : Word) (value : Word → Word) (s : σ) :
    ∃ hca_cap', configureField hca_cap i offset mask value s = .ok hca_cap' s ∧
      hca_cap'.size = hca_cap.size ∧ ∀ j, hca_cap'.word j =
        if j = i then fieldWord (hca_cap.word i) offset mask value else hca_cap.word j := by
  unfold configureField fieldWord
  rw [bind_of_ok (Buf.read_of_lt h s)]
  split_ifs with hfield
  · exact ⟨_, Buf.write_of_lt h _ s, rfl, fun j => Function.update_apply ..⟩
  · refine ⟨hca_cap, rfl, rfl, fun j => ?_⟩
    split_ifs with hj
    · rw [hj]
    · rfl

/-- The other bits of a word stay exactly when the field is 0 or there are none. -/
theorem fieldWord_and_iff {w : Word} {offset : ℕ} {mask : Word} {value : Word → Word}
    (hvalue : value (w >>> offset &&& mask) &&& ~~~(mask <<< offset) = 0) :
    fieldWord w offset mask value &&& ~~~(mask <<< offset) = w &&& ~~~(mask <<< offset) ↔
      w >>> offset &&& mask = 0 ∨ w &&& ~~~(mask <<< offset) = 0 := by
  unfold fieldWord
  split_ifs with hfield
  · rw [hvalue]
    exact ⟨fun h => .inr h.symm, fun h => (h.resolve_left hfield).symm⟩
  · exact iff_of_true rfl (.inl (not_not.mp hfield))

/-- The bits of the fields that `configure_hca_cap` sets in word `i`. -/
def fieldMask (i : ℕ) : Word :=
  if i = 0x2c / 4 + 2 then (0x1 : Word) <<< 27
  else if i = 0x40 / 4 + 2 then (0x3 : Word) <<< 14
  else if i = 0x6c / 4 + 2 then (0x1f : Word) <<< 16
  else 0

/-- The words that `configure_hca_cap` sends. -/
def capWord (out : ℕ → Word) (i : ℕ) : Word :=
  if i = 0x2c / 4 + 2 then fieldWord (out i) 27 0x1 fun _ => (1 : Word) <<< 27
  else if i = 0x40 / 4 + 2 then fieldWord (out i) 14 0x3 fun _ => (1 : Word) <<< 14
  else if i = 0x6c / 4 + 2 then fieldWord (out i) 16 0x1f fun log_max_sq => log_max_sq <<< 16
  else out i

/-- All fields of the capabilities are set. -/
theorem configureFields_ok {σ : Type} {hca_cap : Buf}
    (hsize : hca_cap.size = QUERY_HCA_CAP_OUTPUT_LENGTH) (s : σ) :
    ∃ hca_cap', configureFields hca_cap s = .ok hca_cap' s ∧
      hca_cap'.size = QUERY_HCA_CAP_OUTPUT_LENGTH ∧
      ∀ i, hca_cap'.word i = capWord hca_cap.word i := by
  have hlength : QUERY_HCA_CAP_OUTPUT_LENGTH = 406 := rfl
  obtain ⟨b₁, hrun₁, hsize₁, hword₁⟩ := configureField_ok (i := 0x2c / 4 + 2)
    (show 13 < hca_cap.size by omega) 27 0x1 (fun _ => (1 : Word) <<< 27) s
  obtain ⟨b₂, hrun₂, hsize₂, hword₂⟩ := configureField_ok (i := 0x40 / 4 + 2)
    (show 18 < b₁.size by omega) 14 0x3 (fun _ => (1 : Word) <<< 14) s
  obtain ⟨b₃, hrun₃, hsize₃, hword₃⟩ := configureField_ok (i := 0x6c / 4 + 2)
    (show 29 < b₂.size by omega) 16 0x1f (fun log_max_sq => log_max_sq <<< 16) s
  refine ⟨b₃, (bind_of_ok hrun₁).trans ((bind_of_ok hrun₂).trans hrun₃), by omega, fun i => ?_⟩
  unfold capWord
  rw [hword₃, hword₂, hword₁, hword₂, hword₁, hword₁]
  norm_num
  split_ifs <;> simp_all

/-- What the driver sends agrees with what the device has reported in the other bits of a word. -/
def Agrees (out : ℕ → Word) (i : ℕ) (w : Word) : Prop := w &&& ~~~fieldMask i = out i &&& ~~~fieldMask i

/-- The words that are assigned to, where a field is set, have no other bits. -/
structure NoOtherBits (out : ℕ → Word) : Prop where
  cache_line_128byte : out 13 >>> 27 &&& 0x1 = 0 ∨ out 13 &&& ~~~((0x1 : Word) <<< 27) = 0
  cmdif_checksum : out 18 >>> 14 &&& 0x3 = 0 ∨ out 18 &&& ~~~((0x3 : Word) <<< 14) = 0
  log_max_sq : out 29 >>> 16 &&& 0x1f = 0 ∨ out 29 &&& ~~~((0x1f : Word) <<< 16) = 0

/-- The words agree in the other bits exactly when the words that are assigned to have none. -/
theorem agrees_iff (out : ℕ → Word) :
    (∀ i < QUERY_HCA_CAP_OUTPUT_LENGTH, Agrees out i (capWord out i)) ↔ NoOtherBits out := by
  -- The first two fields get a constant. That agrees unless the field is set next to other bits.
  have hcache : Agrees out 13 (capWord out 13) ↔
      out 13 >>> 27 &&& 0x1 = 0 ∨ out 13 &&& ~~~((0x1 : Word) <<< 27) = 0 :=
    @fieldWord_and_iff (out 13) 27 0x1 (fun _ => (1 : Word) <<< 27) (by decide)
  have hchecksum : Agrees out 18 (capWord out 18) ↔
      out 18 >>> 14 &&& 0x3 = 0 ∨ out 18 &&& ~~~((0x3 : Word) <<< 14) = 0 :=
    @fieldWord_and_iff (out 18) 14 0x3 (fun _ => (1 : Word) <<< 14) (by decide)
  -- The third field gets its own value.
  have hinside : (out 29 >>> 16 &&& (0x1f : Word)) <<< 16 &&& ~~~((0x1f : Word) <<< 16) = 0 := by
    rw [BitVec.shiftLeft_and_distrib, BitVec.and_assoc, BitVec.and_not_self]
    exact BitVec.and_zero
  have hmaxSq : Agrees out 29 (capWord out 29) ↔
      out 29 >>> 16 &&& 0x1f = 0 ∨ out 29 &&& ~~~((0x1f : Word) <<< 16) = 0 :=
    @fieldWord_and_iff (out 29) 16 0x1f (fun log_max_sq => log_max_sq <<< 16) hinside
  have hlength : QUERY_HCA_CAP_OUTPUT_LENGTH = 406 := rfl
  constructor
  · intro h
    exact ⟨hcache.mp (h 13 (by omega)), hchecksum.mp (h 18 (by omega)),
      hmaxSq.mp (h 29 (by omega))⟩
  · intro h i _
    by_cases hthree : i = 13 ∨ i = 18 ∨ i = 29
    · rcases hthree with rfl | rfl | rfl
      · exact hcache.mpr h.cache_line_128byte
      · exact hchecksum.mpr h.cmdif_checksum
      · exact hmaxSq.mpr h.log_max_sq
    · -- The other words are sent as they are.
      have hsame : capWord out i = out i := by
        unfold capWord
        rw [if_neg (by omega), if_neg (by omega), if_neg (by omega)]
      unfold Agrees
      rw [hsame]

/-! ## The command that sets the capabilities -/

/-- The command that asks for the capabilities. -/
def queryHcaCap : CMD.Command :=
  CMD.command .QUERY_HCA_CAP 0x0 (Buf.ofList [0]) 1 QUERY_HCA_CAP_OUTPUT_LENGTH

/-- After the query the device has seen a command that sets the capabilities to the ones in its
reply, apart from the three fields. -/
def CapsSet (ctx : MLX5_Context δ) (out : ℕ → Word) (ctx' : MLX5_Context δ) : Prop :=
  ∃ c, seenAfter ctx ctx' = [queryHcaCap, c] ∧ c.opcode = CMD.OPCODE.SET_HCA_CAP.value ∧
    c.payload.length = QUERY_HCA_CAP_OUTPUT_LENGTH ∧
    ∀ i < QUERY_HCA_CAP_OUTPUT_LENGTH, Agrees out i (c.payload.getD i 0)

/-- However `configure_hca_cap` ends, the capabilities have been set. -/
def SetsCaps (D : CMD.HCA δ) (ctx : MLX5_Context δ) : Prop :=
  let out := (D.exec ctx.hca.dev queryHcaCap).2.output
  Ends (configureHcaCap D) ctx (fun _ ctx' => CapsSet ctx out ctx') fun _ ctx' => CapsSet ctx out ctx'

/-- The words that are sent. -/
theorem configureHcaCap_sends (D : CMD.HCA δ) {ctx : MLX5_Context δ}
    (hidle : CMD.Idle ctx.hca.args) (hr : (D.exec ctx.hca.dev queryHcaCap).2.Ok) :
    let out := (D.exec ctx.hca.dev queryHcaCap).2.output
    ∃ c : CMD.Command, c.opcode = CMD.OPCODE.SET_HCA_CAP.value ∧
      c.payload.length = QUERY_HCA_CAP_OUTPUT_LENGTH ∧
      (∀ i < QUERY_HCA_CAP_OUTPUT_LENGTH, c.payload.getD i 0 = capWord out i) ∧
      Ends (configureHcaCap D) ctx (fun _ ctx' => seenAfter ctx ctx' = [queryHcaCap, c])
        fun _ ctx' => seenAfter ctx ctx' = [queryHcaCap, c] := by
  intro out
  have hlength : QUERY_HCA_CAP_OUTPUT_LENGTH = 406 := rfl
  have hfits : CMD.Fits (Buf.ofList [0]) 1 QUERY_HCA_CAP_OUTPUT_LENGTH :=
    ⟨by norm_num, Nat.le_refl 1, by norm_num⟩
  obtain ⟨slot, w, output, -, hseen, hidle', -, hissue, hget, hsize, hwords⟩ :=
    query_ok D hidle hfits .QUERY_HCA_CAP hr
  -- The fields are set in a copy of the reply.
  obtain ⟨hca_cap, hfields, hsize', hcap⟩ := configureFields_ok hsize { ctx with hca := w }
  have hfits' : CMD.Fits hca_cap QUERY_HCA_CAP_OUTPUT_LENGTH SET_HCA_CAP_OUTPUT_LENGTH :=
    ⟨by norm_num, Nat.le_of_eq hsize'.symm, by norm_num⟩
  have hidle₁ : CMD.Idle ({ ctx with hca := w } : MLX5_Context δ).hca.args := hidle'
  have hset := ends_issue D hidle₁ hfits' .SET_HCA_CAP
  refine ⟨CMD.command .SET_HCA_CAP 0x0 hca_cap QUERY_HCA_CAP_OUTPUT_LENGTH
    SET_HCA_CAP_OUTPUT_LENGTH, rfl, ?_, fun i hi => ?_, ?_⟩
  · show ((List.range QUERY_HCA_CAP_OUTPUT_LENGTH).map hca_cap.word).length = _
    rw [List.length_map, List.length_range]
  · -- Each word is that of the reply, with its field set.
    have hsame : output.word i = out i := hwords i hi
    have hword : capWord output.word i = capWord out i := by
      unfold capWord
      rw [hsame]
    show ((List.range QUERY_HCA_CAP_OUTPUT_LENGTH).map hca_cap.word).getD i 0 = _
    rw [List.getD_eq_getElem?_getD, List.getElem?_map, List.getElem?_range hi, ← hword, ← hcap i]
    rfl
  · -- Whether the second command is accepted or not, it has been seen.
    have hafter : ∀ ctx' : MLX5_Context δ, ctx'.hca.seen = w.seen ++
        [CMD.command .SET_HCA_CAP 0x0 hca_cap QUERY_HCA_CAP_OUTPUT_LENGTH
          SET_HCA_CAP_OUTPUT_LENGTH] →
        seenAfter ctx ctx' = [queryHcaCap, CMD.command .SET_HCA_CAP 0x0 hca_cap
          QUERY_HCA_CAP_OUTPUT_LENGTH SET_HCA_CAP_OUTPUT_LENGTH] := by
      intro ctx' hseen'
      unfold seenAfter
      rw [hseen', hseen, List.append_assoc, List.drop_left]
      rfl
    have hread : hca_cap.read (0x4c / 4 + 2) { ctx with hca := w } =
        .ok (hca_cap.word (0x4c / 4 + 2)) { ctx with hca := w } :=
      Buf.read_of_lt (by omega) _
    unfold configureHcaCap
    refine Ends.bind_of_ok hissue (Ends.bind_of_ok (get_apply _) (Ends.bind_of_ok hget
      (Ends.bind_of_ok hfields (Ends.bind_of_ok hread ?_))))
    exact Ends.bind (hset.mono (fun _ ctx' => hafter ctx') fun _ ctx' => hafter ctx')
      fun _ _ h => ends_pure h

/-- If the capabilities have been set, the words that are sent agree with the reported ones. -/
theorem SetsCaps.agrees {D : CMD.HCA δ} {ctx : MLX5_Context δ} (hsets : SetsCaps D ctx)
    (hidle : CMD.Idle ctx.hca.args) (hr : (D.exec ctx.hca.dev queryHcaCap).2.Ok) :
    let out := (D.exec ctx.hca.dev queryHcaCap).2.output
    ∀ i < QUERY_HCA_CAP_OUTPUT_LENGTH, Agrees out i (capWord out i) := by
  intro out i hi
  obtain ⟨c, -, -, hwords, hends⟩ := configureHcaCap_sends D hidle hr
  have hsame : ∀ ctx', CapsSet ctx out ctx' → seenAfter ctx ctx' = [queryHcaCap, c] →
      Agrees out i (capWord out i) := by
    rintro ctx' ⟨c', hseen', -, -, hagrees⟩ hseen
    have hc : [queryHcaCap, c'] = [queryHcaCap, c] := hseen'.symm.trans hseen
    obtain rfl : c' = c := by simpa using hc
    have hagree := hagrees i hi
    rwa [hwords i hi] at hagree
  rcases hends.cases with ⟨v, ctx', hrun, hseen⟩ | ⟨e, ctx', hrun, hseen⟩
  · exact hsame ctx' (hsets.1 _ _ hrun) hseen
  · exact hsame ctx' (hsets.2 _ _ hrun) hseen

/-- The driver tells the device to use the capabilities that it has reported, apart from the three
fields, exactly when no word that it assigns to has another bit. -/
theorem setsCaps_iff (D : CMD.HCA δ) (ctx : MLX5_Context δ) (hidle : CMD.Idle ctx.hca.args)
    (hr : (D.exec ctx.hca.dev queryHcaCap).2.Ok) :
    SetsCaps D ctx ↔ NoOtherBits (D.exec ctx.hca.dev queryHcaCap).2.output := by
  constructor
  · intro hsets
    exact (agrees_iff _).mp (hsets.agrees hidle hr)
  · intro hno
    obtain ⟨c, hop, hlength, hwords, hends⟩ := configureHcaCap_sends D hidle hr
    have hset : ∀ ctx' : MLX5_Context δ, seenAfter ctx ctx' = [queryHcaCap, c] →
        CapsSet ctx (D.exec ctx.hca.dev queryHcaCap).2.output ctx' := fun ctx' hseen =>
      ⟨c, hseen, hop, hlength, fun i hi => by
        rw [hwords i hi]
        exact (agrees_iff _).mpr hno i hi⟩
    exact hends.mono (fun _ => hset) fun _ => hset

/-- A device that reports nothing but the field in each of the three words, all of them set, and
capabilities in all other words. -/
def fielded : CMD.HCA Unit where
  exec _ _ := ((), ⟨0, 0, fun i =>
    if i = 13 then (0x1 : Word) <<< 27
    else if i = 18 then (0x3 : Word) <<< 14
    else if i = 29 then (0xa : Word) <<< 16
    else BitVec.ofNat 32 (0x5000 + i)⟩)

/-- The three words are assigned to, the second one with another value, and no capability of this
device is lost. -/
theorem setsCaps_fielded :
    let out := (fielded.exec () queryHcaCap).2.output
    (out 13 >>> 27 &&& 0x1 ≠ 0 ∧ out 18 >>> 14 &&& 0x3 ≠ 0 ∧ out 29 >>> 16 &&& 0x1f ≠ 0) ∧
      capWord out 18 ≠ out 18 ∧ SetsCaps fielded (initContext ()) := by
  intro out
  refine ⟨⟨by decide, by decide, by decide⟩, by decide, ?_⟩
  -- Each of the words has its field, so the other bits have to be clear.
  apply (setsCaps_iff fielded (initContext ()) (initContext_idle ()) ⟨rfl, rfl⟩).mpr
  constructor
  · exact .inr (by decide)
  · exact .inr (by decide)
  · exact .inr (by decide)

/-- A device that reports every capability. -/
def capable : CMD.HCA Unit where
  exec _ _ := ((), ⟨0, 0, fun _ => 0xffffffff⟩)

/-- The driver tells this device to use fewer of them. -/
theorem not_setsCaps_capable : ¬ ∀ (D : CMD.HCA Unit) (ctx : MLX5_Context Unit),
    CMD.Idle ctx.hca.args → (D.exec ctx.hca.dev queryHcaCap).2.Ok → SetsCaps D ctx := by
  intro hall
  have hsets := hall capable (initContext ()) (initContext_idle ()) ⟨rfl, rfl⟩
  have hno := (agrees_iff _).mp (hsets.agrees (initContext_idle ()) ⟨rfl, rfl⟩)
  exact absurd hno.cache_line_128byte (by decide)

end L4Rdma.Driver
