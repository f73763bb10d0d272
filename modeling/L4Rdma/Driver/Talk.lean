import L4Rdma.Cmd.Exchange
import L4Rdma.Driver.Boot

/-!
# What the driver and the device say

The main thread and the thread for page requests issue commands, and the second of them reads page
requests from its event queue. Both are messages between the driver and the device. A `talk` is what
has been exchanged between two contexts, in the order in which it was: the commands that the device has
seen, with its replies to them, and between them the page requests. These are recorded with the number
of commands before them, and so there is only one order (`messages_ext`). A program that only issues
commands obeys a protocol if what it says to the device alone does (`obeys_hca`).
-/

namespace L4Rdma.Driver

open Lib Device

variable {δ P α : Type}

/-! ## Messages -/

/-- A message between the driver and the device. -/
inductive Message
  /-- A command and the reply to it. -/
  | exchange (e : CMD.Exchange)
  /-- A page request that is read from an event queue, with its number of pages. -/
  | request (num_pages : ℤ)

/-- The commands among the messages. -/
def exchanges : List Message → List CMD.Exchange
  | [] => []
  | .exchange e :: ms => e :: exchanges ms
  | .request _ :: ms => exchanges ms

/-- The page requests among the messages, each with the number of commands before it. Before all of the
messages there have been `k` commands. -/
def stamps (k : ℕ) : List Message → List (ℕ × ℤ)
  | [] => []
  | .exchange _ :: ms => stamps (k + 1) ms
  | .request n :: ms => (k, n) :: stamps k ms

variable {ms ms' : List Message} {es : List CMD.Exchange} {k n : ℕ}

/-- The commands of messages and of those after them. -/
theorem exchanges_append : exchanges (ms ++ ms') = exchanges ms ++ exchanges ms' := by
  induction ms with
  | nil => rfl
  | cons m ms ih =>
    cases m with
    | exchange e => exact congrArg (e :: ·) ih
    | request n => exact ih

/-- The page requests of messages and of those after them, which come after more commands. -/
theorem stamps_append :
    stamps k (ms ++ ms') = stamps k ms ++ stamps (k + (exchanges ms).length) ms' := by
  induction ms generalizing k with
  | nil => rfl
  | cons m ms ih =>
    cases m with
    | exchange e =>
      calc stamps (k + 1) (ms ++ ms')
          = stamps (k + 1) ms ++ stamps (k + 1 + (exchanges ms).length) ms' := ih
        _ = stamps (k + 1) ms ++ stamps (k + (exchanges (.exchange e :: ms)).length) ms' := by
          rw [exchanges, List.length_cons, Nat.add_assoc, Nat.add_comm 1]
    | request n => exact congrArg ((k, n) :: ·) ih

/-- No page request is recorded before its time. -/
theorem le_of_mem_stamps {j : ℕ} {num_pages : ℤ} (h : (j, num_pages) ∈ stamps k ms) : k ≤ j := by
  induction ms generalizing k with
  | nil => exact absurd h List.not_mem_nil
  | cons m ms ih =>
    cases m with
    | exchange e => exact Nat.le_of_succ_le (ih h)
    | request n =>
      rcases List.mem_cons.mp h with heq | hmem
      · exact Nat.le_of_eq (Prod.mk.inj heq).1.symm
      · exact ih hmem

/-- A page request that comes next is not recorded as if it came after a command. -/
theorem stamps_succ_ne {num_pages : ℤ} {rest : List (ℕ × ℤ)} :
    (k, num_pages) :: rest ≠ stamps (k + 1) ms := by
  intro heq
  have hle := le_of_mem_stamps (heq ▸ List.mem_cons_self (a := (k, num_pages)))
  exact absurd hle (Nat.not_succ_le_self k)

/-- The commands and the record of the page requests say in which order the messages were. -/
theorem messages_ext (hexchanges : exchanges ms = exchanges ms') (hstamps : stamps k ms = stamps k ms') :
    ms = ms' := by
  induction ms generalizing ms' k with
  | nil =>
    match ms' with
    | [] => rfl
    | .exchange e :: ms' => cases hexchanges
    | .request n :: ms' => cases hstamps
  | cons m ms ih =>
    match m, ms' with
    | .exchange e, [] => cases hexchanges
    | .request n, [] => cases hstamps
    | .exchange e, .exchange e' :: ms' =>
      obtain ⟨rfl, htail⟩ := List.cons.inj hexchanges
      rw [ih htail hstamps]
    | .exchange e, .request n :: ms' => exact absurd hstamps.symm stamps_succ_ne
    | .request n, .exchange e :: ms' => exact absurd hstamps stamps_succ_ne
    | .request n, .request n' :: ms' =>
      obtain ⟨hfirst, htail⟩ := List.cons.inj hstamps
      obtain ⟨-, rfl⟩ := Prod.mk.inj hfirst
      have hrest : exchanges ms = exchanges ms' := hexchanges
      rw [ih hrest htail]

/-- Messages that are all commands. -/
theorem exchanges_map : exchanges (es.map .exchange) = es := by
  induction es with
  | nil => rfl
  | cons e es ih => exact congrArg (e :: ·) ih

/-- There are no page requests among them. -/
theorem stamps_map : stamps k (es.map .exchange) = [] := by
  induction es generalizing k with
  | nil => rfl
  | cons e es ih => exact ih

/-! ## Talking -/

/-- What the driver and the device have said between two contexts. -/
def talk (D : CMD.HCA δ) : Dialogue (MLX5_Context δ) Message where
  said ctx ms ctx' := (CMD.speech D).said ctx.hca (exchanges ms) ctx'.hca ∧
    ctx'.requests = ctx.requests ++ stamps ctx.hca.seen.length ms
  nil ctx := ⟨(CMD.speech D).nil ctx.hca, (List.append_nil _).symm⟩
  append := by
    rintro ctx ctx' ctx'' ms ms' ⟨hsaid, hrequests⟩ ⟨hsaid', hrequests'⟩
    constructor
    · rw [exchanges_append]
      exact (CMD.speech D).append hsaid hsaid'
    · have hseen : ctx'.hca.seen.length = ctx.hca.seen.length + (exchanges ms).length := by
        rw [hsaid.1, List.length_append, List.length_map]
      calc ctx''.requests
          = ctx.requests ++ stamps ctx.hca.seen.length ms ++ stamps ctx'.hca.seen.length ms' := by
            rw [hrequests', hrequests]
        _ = ctx.requests ++ stamps ctx.hca.seen.length (ms ++ ms') := by
            rw [hseen, List.append_assoc, stamps_append]

/-- The part of the context that the talk is about. -/
abbrev spoken (ctx : MLX5_Context δ) : CMD.World δ × List (ℕ × ℤ) := (ctx.hca, ctx.requests)

variable {D : CMD.HCA δ} {ctx ctx' : MLX5_Context δ} {next : P → Message → Option P} {p p' : P}

/-- Nothing is said between contexts that agree on it. -/
theorem said_nil (h : spoken ctx' = spoken ctx) : (talk D).said ctx [] ctx' := by
  obtain ⟨hhca, hrequests⟩ := Prod.mk.inj h
  constructor
  · rw [hhca]
    exact (CMD.speech D).nil ctx.hca
  · rw [hrequests]
    exact (List.append_nil _).symm

/-- What commands make of a phase, they make of it as messages. -/
theorem phaseAfter_map :
    phaseAfter next p (es.map .exchange) = phaseAfter (fun p e => next p (.exchange e)) p es := by
  unfold phaseAfter
  rw [List.foldlM_map]

/-- A program that works on the command arguments and the device says only commands. -/
theorem obeys_hca (next : P → Message → Option P) {x : Exec (CMD.World δ) α} {R : α → CMD.World δ → P → Prop}
    {T : Stop → CMD.World δ → P → Prop}
    (h : Obeys (CMD.speech D) (fun p e => next p (.exchange e)) x ctx.hca p R T) :
    Obeys (talk D) next (hcaLens.zoom x) ctx p
      (fun a ctx' p' => ctx' = { ctx with hca := ctx'.hca } ∧ R a ctx'.hca p')
      fun err ctx' p' => T err ctx'.hca p' := by
  have hleads : ∀ {w p'}, (CMD.speech D).Leads (fun p e => next p (.exchange e)) ctx.hca p w p' →
      (talk D).Leads next ctx p { ctx with hca := w } p' := by
    rintro w p' ⟨es, hsaid, hrun⟩
    refine ⟨es.map .exchange, ⟨?_, ?_⟩, ?_⟩
    · rw [exchanges_map]
      exact hsaid
    · rw [stamps_map]
      exact (List.append_nil _).symm
    · rw [phaseAfter_map]
      exact hrun
  refine Ends.mono (Ends.zoom (l := hcaLens) h) ?_ ?_
  · rintro a _ ⟨w, rfl, p', hled, ha⟩
    exact ⟨p', hleads hled, rfl, ha⟩
  · rintro err _ ⟨w, rfl, p', hled, herr⟩
    exact ⟨p', hleads hled, herr⟩

/-- Reading a page request is one message. -/
theorem obeys_recordRequest {payload : Event.Payload} {R : Unit → MLX5_Context δ → P → Prop}
    {T : Stop → MLX5_Context δ → P → Prop} (hnext : next p (.request (payload 1).toInt) = some p')
    (hR : ∀ requests, R () { ctx with requests := requests } p') :
    Obeys (talk D) next (recordRequest payload) ctx p R T := by
  refine ends_of_ok (modify_apply _ ctx) ⟨p', Dialogue.leads_of_said ?_ hnext, hR _⟩
  exact ⟨(CMD.speech D).nil ctx.hca, rfl⟩

end L4Rdma.Driver
