import L4Rdma.Cmd.Model
import L4Rdma.Lib.Poll

/-!
# Waiting for the device

`Driver::init_wait` (`server/src/driver.cc`) waits until the device has initialized, and
`CMD::poll_ownership` (`server/src/cmd.cc`) until it has executed a command. Both read a register
every 20 milliseconds and throw after five seconds. So they end after at most 251 reads, whatever the
device does (`initWait_iff`). The model of a command has only the last of these reads, and a wait ends
as the model says of the value that it has read last (`pollOwnership_of_wait`).
-/

namespace L4Rdma

open Lib Device

/-- A millisecond in nanoseconds, which the clock counts. -/
abbrev MILLISECOND : ℕ := 1000000

/-- Reads a register until it is not busy, every 20 milliseconds, but not for longer than a timeout.
The clock does not go back, and `sleep_for` takes at least the time that it is asked for. -/
def waitWhile (busy : Word → Bool) (timeout_ms : ℕ) (what : String) : Exec (Watch Word) Unit := do
  let start ← Watch.now
  pollWhile busy (fun elapsed => timeout_ms ≤ elapsed / MILLISECOND) (20 * MILLISECOND)
    (.thrown what) .diverges (timeout_ms / 20 + 2) start

/-- The milliseconds from the start of a wait to its look at the clock in round `k`. -/
def elapsedAt (w : Watch Word) (k : ℕ) : ℕ :=
  (w.timeAt (20 * MILLISECOND) k - w.time) / MILLISECOND

/-- In round `k` the register is not busy any more, after rounds in which it was, and in which the
time was not up. -/
def ClearsIn (busy : Word → Bool) (timeout_ms : ℕ) (w : Watch Word) (k : ℕ) : Prop :=
  busy (w.valueAt k) = false ∧
    ∀ j < k, busy (w.valueAt j) = true ∧ elapsedAt w j < timeout_ms

variable {busy : Word → Bool} {timeout_ms k : ℕ} {what : String} {w : Watch Word}

/-- The rounds in which a wait goes on. -/
theorem waits_iff : Waits busy (fun t => timeout_ms ≤ t / MILLISECOND) (20 * MILLISECOND) w.time w k ↔
    ∀ j < k, busy (w.valueAt j) = true ∧ elapsedAt w j < timeout_ms := by
  refine forall₂_congr fun j _ => and_congr_right fun _ => ?_
  rw [decide_eq_false_iff_not, Nat.not_le]
  rfl

/-- A wait returns in the round in which the register clears, or it throws in a round in which the
time is up, and it does so after at most as many sleeps as the timeout has room for. -/
theorem waitWhile_cases (htimeout : 20 ∣ timeout_ms) (busy : Word → Bool) (what : String)
    (w : Watch Word) :
    ∃ k w', k ≤ timeout_ms / 20 ∧ w'.reads = w.reads + k + 1 ∧
      (waitWhile busy timeout_ms what w = .ok () w' ∧ ClearsIn busy timeout_ms w k ∨
        waitWhile busy timeout_ms what w = .error (.thrown what) w' ∧ busy (w.valueAt k) = true ∧
          timeout_ms ≤ elapsedAt w k ∧ ∀ j, ¬ ClearsIn busy timeout_ms w j) := by
  have hexpired : ∀ t, timeout_ms / 20 * (20 * MILLISECOND) ≤ t →
      decide (timeout_ms ≤ t / MILLISECOND) = true := by
    intro t ht
    obtain ⟨n, rfl⟩ := htimeout
    rw [Nat.mul_div_cancel_left n (by norm_num)] at ht
    refine decide_eq_true ((Nat.le_div_iff_mul_le (by norm_num)).mpr ?_)
    calc 20 * n * MILLISECOND = n * (20 * MILLISECOND) := by ring
      _ ≤ t := ht
  have hreads : ∀ k, ((Watch.round (20 * MILLISECOND))^[k] w).done.reads = w.reads + k + 1 := fun k =>
    congrArg (· + 1) (Watch.iterate_round _ w k).2.2
  have hclears : ∀ k, Clears busy (fun t => timeout_ms ≤ t / MILLISECOND) (20 * MILLISECOND) w.time w k ↔
      ClearsIn busy timeout_ms w k := fun k => by
    unfold Clears ClearsIn
    rw [waits_iff, and_comm]
  have hcases := pollWhile_cases busy (Stop.thrown what) Stop.diverges hexpired
    (Nat.le_refl w.time) (show timeout_ms / 20 < timeout_ms / 20 + 2 by omega)
  unfold waitWhile
  rw [Watch.now_bind]
  rcases hcases with ⟨k, hk, hclear, hok⟩ | ⟨k, hk, hgives, herr⟩
  · exact ⟨k, _, hk, hreads k, .inl ⟨hok, (hclears k).mp hclear⟩⟩
  · refine ⟨k, _, hk, hreads k, .inr ⟨herr, hgives.2.1, of_decide_eq_true hgives.2.2, fun j hj => ?_⟩⟩
    exact hgives.not_clears ((hclears j).mpr hj)

/-! ## Waiting for a command -/

namespace CMD

/-- `CMD_TIMEOUT_MS`. -/
abbrev CMD_TIMEOUT_MS : ℕ := 5000

/-- The ownership bit of an entry is set to hardware. -/
def hardwareOwned (ctrl : Word) : Bool := ioread32be ctrl &&& CQE_OWNERSHIP_MASK ≠ 0

/-- The loop of `poll_ownership`, which reads `ctrl` again and again. -/
def pollCtrl : Exec (Watch Word) Unit := waitWhile hardwareOwned CMD_TIMEOUT_MS "CMD Timeout"

/-- The entry of a slot, with what has been read from its `ctrl`. -/
def withCtrl (a : CMD_Args) (slot : ℕ) (ctrl : Word) : CMD_Args :=
  a.setCqe slot { a.cqe slot with ctrl := ctrl }

/-- What the model of `poll_ownership` does depends on one value of `ctrl`. -/
theorem pollOwnership_withCtrl (a : CMD_Args) (slot : ℕ) (ctrl : Word) :
    pollOwnership slot (withCtrl a slot ctrl) =
      if hardwareOwned ctrl then .error (.thrown "CMD Timeout") (withCtrl a slot ctrl)
      else .ok () (withCtrl a slot ctrl) := by
  have hctrl : ((withCtrl a slot ctrl).cqe slot).ctrl = ctrl := by
    unfold withCtrl CMD_Args.setCqe
    simp only [Function.update_self]
  unfold pollOwnership hardwareOwned
  rw [get_bind, hctrl]
  by_cases howned : ioread32be ctrl &&& CQE_OWNERSHIP_MASK ≠ 0
  · rw [doIf_of_pos howned, decide_eq_true howned, if_pos rfl]
    rfl
  · rw [doIf_of_neg howned, decide_eq_false howned, if_neg Bool.false_ne_true]

/-- However often the entry is read and whatever the device writes to it in the meantime, the wait ends
after at most 251 reads, and it returns or throws as the model does for the value that is read
last. When it throws, five seconds are over, and no read before has seen that the entry is back. -/
theorem pollOwnership_of_wait (a : CMD_Args) (slot : ℕ) (w : Watch Word) :
    ∃ k w', k ≤ 250 ∧ w'.reads = w.reads + k + 1 ∧
      (pollCtrl w = .ok () w' ∧
          pollOwnership slot (withCtrl a slot (w.valueAt k)) =
            .ok () (withCtrl a slot (w.valueAt k)) ∨
        pollCtrl w = .error (.thrown "CMD Timeout") w' ∧
          pollOwnership slot (withCtrl a slot (w.valueAt k)) =
            .error (.thrown "CMD Timeout") (withCtrl a slot (w.valueAt k)) ∧
          CMD_TIMEOUT_MS ≤ elapsedAt w k ∧
          ∀ j, ¬ ClearsIn hardwareOwned CMD_TIMEOUT_MS w j) := by
  obtain ⟨k, w', hk, hreads, hcases⟩ := waitWhile_cases
    (show 20 ∣ CMD_TIMEOUT_MS by norm_num) hardwareOwned "CMD Timeout" w
  refine ⟨k, w', hk, hreads, ?_⟩
  simp only [pollOwnership_withCtrl]
  rcases hcases with ⟨hok, hclear, -⟩ | ⟨herr, hbusy, hlate, hnever⟩
  · exact .inl ⟨hok, by rw [hclear, if_neg Bool.false_ne_true]⟩
  · exact .inr ⟨herr, by rw [hbusy, if_pos rfl], hlate, hnever⟩

end CMD

/-! ## Waiting for the initialization -/

namespace Driver

/-- `INIT_TIMEOUT_MS`. -/
abbrev INIT_TIMEOUT_MS : ℕ := 5000

/-- The bit that says that the device is still initializing. -/
def stillInitializing (initializing : Word) : Bool := ioread32be initializing >>> 31 ≠ 0

/-- `init_wait`. -/
def initWait : Exec (Watch Word) Unit := waitWhile stillInitializing INIT_TIMEOUT_MS "Init Timeout"

/-- `init_wait` returns exactly when one of its reads sees that the device has initialized before a
look at the clock finds that five seconds are over. Otherwise it throws, and not before that. It never
reads the register more than 251 times. -/
theorem initWait_iff (w : Watch Word) :
    ((∃ w', initWait w = .ok () w') ↔ ∃ k, ClearsIn stillInitializing INIT_TIMEOUT_MS w k) ∧
      Ends initWait w (fun _ w' => w'.reads ≤ w.reads + 251)
        fun e w' => e = .thrown "Init Timeout" ∧ w'.reads ≤ w.reads + 251 ∧
          ∃ k, w'.reads = w.reads + k + 1 ∧ INIT_TIMEOUT_MS ≤ elapsedAt w k := by
  obtain ⟨k, w', hk, hreads, hcases⟩ := waitWhile_cases
    (show 20 ∣ INIT_TIMEOUT_MS by norm_num) stillInitializing "Init Timeout" w
  have hle : w'.reads ≤ w.reads + 251 := by
    have hk' : k ≤ 250 := hk
    omega
  rcases hcases with ⟨hok, hclear⟩ | ⟨herr, -, hlate, hnever⟩
  · exact ⟨iff_of_true ⟨w', hok⟩ ⟨k, hclear⟩, ends_of_ok hok hle⟩
  · refine ⟨iff_of_false ?_ fun ⟨j, hj⟩ => hnever j hj, ends_of_error herr ⟨rfl, hle, k, hreads, hlate⟩⟩
    rintro ⟨w'', hok⟩
    have hsame := herr.symm.trans hok
    cases hsame

end Driver

end L4Rdma
