/-
# Hostel.Executions.Output — the output an execution retains, and the clients that poll it.

`appendOutput` numbers the fragments a command writes and retains the last of them, within a budget
of bytes and one of fragments; `releaseOutput` gives all of them up; `Logs` answers the retained
ones after a cursor of the caller's.  Each holds the execution's mutex, so a run is a sequence of
calls.  What every run keeps (`Inv`) is that the retained fragments are the last ones written, each
cut to the budget.  The counters are `int64`: the cursor after the largest one is negative, and
`Logs` then answers everything it has.
-/
import Hostel.Logic.Machine
import Mathlib.Algebra.Order.Group.Nat
import Mathlib.Tactic.Ring

namespace Hostel.Executions

open Logic List

inductive OutputStream
  | stdout
  | stderr
  deriving DecidableEq

structure ExecutionOutput where
  sequence : Int
  stream : OutputStream
  text : List UInt8
  deriving DecidableEq

/-- What an `Execution` keeps of its output, and whether it has its result. -/
structure Execution where
  output : List ExecutionOutput := []
  outputBytes : Int := 0
  truncated : Bool := false
  nextOutput : Int := 0
  dropped : Int := 0
  finished : Bool := false
  deriving DecidableEq

def executionOutputBytes : Nat := 64 * 2 ^ 10

def executionOutputFragments : Nat := 1024

/-- The value of an `int64` expression. -/
def int64 (n : Int) : Int := n.bmod (2 ^ 64)

def textBytes (output : List ExecutionOutput) : Nat := (output.map (·.text.length)).sum

/-- What `appendOutput` retains of a fragment: its last bytes, if it is over the budget alone. -/
def retain (o : ExecutionOutput) : ExecutionOutput :=
  if executionOutputBytes < o.text.length then
    { o with text := o.text.drop (o.text.length - executionOutputBytes) }
  else o

/-- The loop of `appendOutput` over the retained fragments. -/
def evict : List ExecutionOutput → Execution → Option Execution
  | output, e =>
    if executionOutputBytes < e.outputBytes ∨ executionOutputFragments < output.length then
      match output with
      | [] => none -- the panic of `e.output[0]`
      | first :: rest =>
        evict rest { e with
          outputBytes := e.outputBytes - first.text.length, dropped := int64 (e.dropped + 1),
          truncated := true }
    else some { e with output }

/-- What `appendOutput` does before its loop, for the fragment `o`. -/
def Execution.account (e : Execution) (o : ExecutionOutput) : Execution :=
  { e with
    nextOutput := int64 (e.nextOutput + 1)
    truncated := e.truncated || decide (executionOutputBytes < o.text.length)
    outputBytes := e.outputBytes + (retain o).text.length }

def Execution.appendOutput (e : Execution) (stream : OutputStream) (text : List UInt8) :
    Option (ExecutionOutput × Execution) :=
  let output := ⟨e.nextOutput, stream, text⟩
  (evict (e.output ++ [retain output]) (e.account output)).map fun e => (output, e)

def Execution.releaseOutput (e : Execution) : Execution :=
  { e with
    output := [], outputBytes := 0, dropped := e.nextOutput, truncated := e.truncated ||
    decide (0 < e.nextOutput) }

structure Answer where
  output : List ExecutionOutput
  next : Int
  running : Bool
  truncated : Bool
  deriving DecidableEq

/-- `none` is the panic of the slice expression. -/
def Execution.logs (e : Execution) (cursor : Int) : Option Answer :=
  let start := if cursor < 0 then 0 else int64 (cursor + 1)
  let gap := decide (start < e.dropped)
  let start := if gap then e.dropped else start
  let answer := fun output => ⟨output, int64 (e.nextOutput - 1), !e.finished, gap || e.truncated⟩
  if start < e.nextOutput then
    let low := int64 (start - e.dropped)
    if 0 ≤ low ∧ low ≤ e.output.length then some (answer (e.output.drop low.toNat)) else none
  else some (answer [])

/-! ## Runs -/

/-- An execution, all that was written to it, and a client with its cursor and the sequence numbers
it got. -/
structure State where
  e : Execution := {}
  written : List ExecutionOutput := []
  cursor : Int
  received : List Int := []
  deriving DecidableEq

inductive Call
  | append (stream : OutputStream) (text : List UInt8)
  | release
  | finish
  /-- The client calls `Logs` with its cursor and takes over the next one. -/
  | poll
  deriving DecidableEq

def machine : Machine State Call where
  step s
    | .append stream text => (s.e.appendOutput stream text).map fun r =>
        { s with e := r.2, written := s.written ++ [r.1] }
    | .release => some { s with e := s.e.releaseOutput }
    | .finish => some { s with e := { s.e with finished := true } }
    | .poll => (s.e.logs s.cursor).map fun a =>
        { s with cursor := a.next, received := s.received ++ a.output.map (·.sequence) }

/-- No fragment gets the largest `int64` for its number. -/
def counts : State × Call → Bool
  | (s, .append ..) => s.e.nextOutput < 2 ^ 63 - 1
  | _ => true

/-- The cursors whose successor is an `int64`. -/
def Valid (cursor : Int) : Prop := -(2 ^ 63) ≤ cursor ∧ cursor < 2 ^ 63 - 1

structure Inv (s : State) : Prop where
  next : s.e.nextOutput = s.written.length
  small : s.e.nextOutput < 2 ^ 63
  numbers : s.written.map (·.sequence) = (range' 0 s.written.length).map Nat.cast
  dropped : 0 ≤ s.e.dropped ∧ s.e.dropped ≤ s.e.nextOutput
  kept : s.e.output = (s.written.drop s.e.dropped.toNat).map retain
  bytes : s.e.outputBytes = textBytes s.e.output
  budget : textBytes s.e.output ≤ executionOutputBytes ∧
    s.e.output.length ≤ executionOutputFragments
  /-- Nothing is lost or shortened unnoticed. -/
  whole : s.e.truncated = false → s.e.dropped = 0 ∧ ∀ o ∈ s.written, retain o = o
  cursor : Valid s.cursor
  received : s.received.Pairwise (· < ·) ∧ ∀ n ∈ s.received, n ≤ s.cursor ∧ n < s.e.nextOutput

theorem int64_eq {n : Int} (h : -(2 ^ 63) ≤ n) (h' : n < 2 ^ 63) : int64 n = n :=
  Int.bmod_eq_of_le (by omega) (by omega)

/-- The loop drops fragments from the front until the rest is within the budget. -/
theorem evict_eq {output : List ExecutionOutput} {e : Execution}
    (hbytes : e.outputBytes = textBytes output) (hd : 0 ≤ e.dropped)
    (hsmall : e.dropped + output.length < 2 ^ 63) : ∃ k ≤ output.length,
      evict output e = some { e with
        output := output.drop k, outputBytes := textBytes (output.drop k)
        dropped := e.dropped + k, truncated := e.truncated || decide (0 < k) } ∧
      textBytes (output.drop k) ≤ executionOutputBytes ∧
      (output.drop k).length ≤ executionOutputFragments := by
  induction output generalizing e with
  | nil => exact ⟨0, Nat.le_refl _, by simp_all [evict, textBytes], by simp [textBytes], by simp⟩
  | cons first rest ih =>
    by_cases hover : executionOutputBytes < e.outputBytes ∨
      executionOutputFragments < (first :: rest).length
    · have hlen : textBytes (first :: rest) = first.text.length + textBytes rest := by
        simp [textBytes]
      rw [length_cons, Int.natCast_add, Int.natCast_one] at hsmall
      have hnext : int64 (e.dropped + 1) = e.dropped + 1 := int64_eq (by omega) (by omega)
      obtain ⟨k, hk, heq, hrest⟩ := @ih { e with
        outputBytes := e.outputBytes - first.text.length, dropped := int64 (e.dropped + 1),
        truncated := true }
        (by simp only; omega) (by simp only; omega) (by simp only; omega)
      refine ⟨k + 1, Nat.succ_le_succ hk, ?_, hrest⟩
      rw [evict, if_pos hover, heq]
      simp [hnext]
      omega
    · refine ⟨0, Nat.zero_le _, ?_, ?_⟩
      · rw [evict, if_neg hover]
        simp [← hbytes]
      · rw [drop_zero]
        omega

theorem sequence_retain (o : ExecutionOutput) : (retain o).sequence = o.sequence := by
  rw [retain]
  split <;> rfl

variable {s : State}

theorem Inv.logs (h : Inv s) {cursor : Int} (hc : Valid cursor) :
    s.e.logs cursor = some ⟨(s.written.drop (max (cursor + 1) s.e.dropped).toNat).map retain,
      s.e.nextOutput - 1,
      !s.e.finished, decide (max (cursor + 1) 0 < s.e.dropped) || s.e.truncated⟩ := by
  have hn := h.next
  have hs := h.small
  have hd := h.dropped
  have hstart : (if cursor < 0 then 0 else int64 (cursor + 1)) = max (cursor + 1) 0 := by
    split
    · omega
    · rw [int64_eq (by omega) (by have := hc.2; omega)]
      omega
  have hfrom :
    (if decide (max (cursor + 1) 0 < s.e.dropped) = true then s.e.dropped else max (cursor + 1) 0) =
      max (cursor + 1) s.e.dropped := by
    split <;> simp_all <;> omega
  have hlen : s.e.output.length = s.e.nextOutput - s.e.dropped := by
    rw [h.kept, length_map, length_drop]
    omega
  simp only [Execution.logs, hstart, hfrom,
    int64_eq (n := s.e.nextOutput - 1) (by omega) (by omega)]
  split
  · rw [int64_eq (by omega) (by omega), if_pos (by omega), h.kept, ← map_drop, drop_drop]
    rw [show s.e.dropped.toNat + (max (cursor + 1) s.e.dropped - s.e.dropped).toNat =
      (max (cursor + 1) s.e.dropped).toNat by omega]
  · rw [drop_eq_nil_of_le (by omega)]
    rfl

theorem Inv.numbers_after (h : Inv s) (m : Nat) :
    let numbers := ((s.written.drop m).map retain).map (·.sequence)
    numbers.Pairwise (· < ·) ∧ ∀ n ∈ numbers, (m : Int) ≤ n ∧ n < s.written.length := by
  have heq : ((s.written.drop m).map retain).map (·.sequence) =
      (range' m (s.written.length - m)).map Nat.cast := by
    have hdrop := congrArg (drop m) h.numbers
    rw [← map_drop, ← map_drop, drop_range'] at hdrop
    simpa [Function.comp_def, sequence_retain] using hdrop
  simp only [heq, pairwise_map, mem_map, mem_range'_1]
  refine ⟨(pairwise_lt_range' 1).imp fun h => Int.ofNat_lt.mpr h, ?_⟩
  rintro _ ⟨i, hi, rfl⟩
  omega

theorem step_inv {call : Call} (h : Inv s) (hc : counts (s, call)) :
    ∃ s', machine.step s call = some s' ∧ Inv s' := by
  have hn := h.next
  have hd := h.dropped
  cases call with
  | append stream text =>
    have hlt : s.e.nextOutput < 2 ^ 63 - 1 := of_decide_eq_true hc
    obtain ⟨o, ho⟩ : ∃ o, o = ExecutionOutput.mk s.e.nextOutput stream text := ⟨_, rfl⟩
    have hnext : (s.e.account o).nextOutput = s.e.nextOutput + 1 := int64_eq (by omega) (by omega)
    have hkept : s.e.output ++ [retain o] =
        ((s.written ++ [o]).drop s.e.dropped.toNat).map retain := by
      rw [drop_append_of_le_length (by omega), map_append, ← h.kept]
      rfl
    have hlen : ((s.e.output ++ [retain o]).length : Int) = s.e.nextOutput + 1 - s.e.dropped := by
      rw [hkept, length_map, length_drop, length_append, length_singleton]
      omega
    have hbytes : (s.e.account o).outputBytes = textBytes (s.e.output ++ [retain o]) := by
      simp [Execution.account, textBytes, h.bytes]
    obtain ⟨k, hk, heq, hbudget⟩ := evict_eq hbytes hd.1 (by simp only [Execution.account]; omega)
    refine ⟨_, by simp only [machine, Execution.appendOutput, ← ho, heq]; rfl, ?_⟩
    have hdropped : (s.e.account o).dropped = s.e.dropped := rfl
    refine { h with
      next := ?_, small := ?_, numbers := ?_, dropped := ?_, kept := ?_, bytes := rfl,
      budget := hbudget, whole := ?_
      received := ⟨h.received.1, fun n hr => ⟨(h.received.2 n hr).1, ?_⟩⟩ }
    · simp [hnext, hn]
    · simp only [hnext]
      omega
    · simp [h.numbers, range'_concat, ho, hn]
    · simp only [hnext, hdropped]
      omega
    · simp [hdropped, hkept, show (s.e.dropped + k).toNat = s.e.dropped.toNat + k by omega]
    · simp only [Execution.account, Bool.or_eq_false_iff, decide_eq_false_iff_not]
      rintro ⟨⟨ht, hlong⟩, hzero⟩
      obtain ⟨hnone, hwhole⟩ := h.whole ht
      refine ⟨by omega, forall_mem_append.mpr ⟨hwhole, ?_⟩⟩
      rw [forall_mem_singleton, retain, if_neg hlong]
    · have := (h.received.2 n hr).2
      simp only [hnext]
      omega
  | release =>
    refine ⟨_, rfl, { h with
      dropped := ⟨?_, Int.le_refl _⟩, kept := ?_, bytes := rfl, budget := ?_, whole := ?_ }⟩
    · exact Int.le_trans hd.1 hd.2
    · simp [Execution.releaseOutput, hn]
    · simp [Execution.releaseOutput, textBytes]
    · simp only [Execution.releaseOutput, Bool.or_eq_false_iff, decide_eq_false_iff_not]
      exact fun ht => ⟨by omega, (h.whole ht.1).2⟩
  | finish => exact ⟨_, rfl, { h with }⟩
  | poll =>
    obtain ⟨hpair, hmem⟩ := h.numbers_after (max (s.cursor + 1) s.e.dropped).toNat
    refine ⟨_, by simp only [machine, h.logs h.cursor]; rfl, ?_⟩
    refine { h with cursor := ⟨?_, ?_⟩, received := ?_ }
    · simp only
      omega
    · have := h.small
      simp only
      omega
    · simp only [pairwise_append, mem_append]
      refine ⟨⟨h.received.1, hpair, fun a ha b hb => ?_⟩, ?_⟩
      · have := h.received.2 a ha
        have := (hmem b hb).1
        omega
      · rintro n (hr | hr)
        · have := h.received.2 n hr
          omega
        · have := (hmem n hr).2
          omega

/-- In every run that numbers fewer than `2 ^ 63` fragments no index is out of range, what is
dropped and retained is all that was written, the retained fragments are within the budget, and the
client's numbers increase.  A call with a cursor whose successor is an `int64` answers nothing if
the cursor is at or past the last number, and every fragment after it as it was written unless it
reports that some are truncated. -/
theorem logs_run {cursor₀ : Int} (h₀ : Valid cursor₀) {τ : List (State × Call)}
    (h : machine.Trace { cursor := cursor₀ } τ s) (hC : ∀ x ∈ τ, counts x) :
    (∀ call, counts (s, call) → (machine.step s call).isSome) ∧
      s.e.dropped + s.e.output.length = s.written.length ∧
      textBytes s.e.output ≤ executionOutputBytes ∧ s.e.output.length ≤ executionOutputFragments ∧
      s.written.map (·.sequence) = (range' 0 s.written.length).map Nat.cast ∧
        s.received.Pairwise (· < ·) ∧
      ∀ cursor, Valid cursor → ∃ answer, s.e.logs cursor = some answer ∧
        (s.written.length - 1 ≤ cursor → answer.output = []) ∧
        (answer.truncated = false → answer.output = s.written.drop (cursor + 1).toNat) := by
  have hinv : Inv s := by
    refine h.invariant_state ?_ (fun s call s' hs hc hstep => ?_) hC
    · constructor <;> simp [textBytes, h₀]
    · obtain ⟨_, heq, hs'⟩ := step_inv hs hc
      cases heq.symm.trans hstep
      exact hs'
  have hkept := congrArg length hinv.kept
  rw [length_map, length_drop] at hkept
  have hn := hinv.next
  have hd := hinv.dropped
  refine ⟨fun call hc => ?_,
    by omega, hinv.budget.1, hinv.budget.2, hinv.numbers, hinv.received.1, fun cursor hc => ?_⟩
  · obtain ⟨_, heq, -⟩ := step_inv hinv hc
    rw [heq]
    rfl
  · refine ⟨_, hinv.logs hc, fun hpast => ?_, fun htruncated => ?_⟩
    · rw [drop_eq_nil_of_le (by omega), map_nil]
    · obtain ⟨hgap, ht⟩ := Bool.or_eq_false_iff.mp htruncated
      obtain ⟨hnone, hwhole⟩ := hinv.whole ht
      rw [show (max (cursor + 1) s.e.dropped).toNat = (cursor + 1).toNat by omega]
      exact (map_congr_left fun o ho => hwhole o (mem_of_mem_drop ho)).trans (map_id' _)

theorem logs_run_polled : ∃ τ s, machine.Trace { cursor := -1 } τ s ∧ s.received = [0, 2] ∧
    s.e.dropped + s.e.output.length = s.written.length ∧
    ∃ answer, s.e.logs 0 = some answer ∧ answer.truncated = true := by
  obtain ⟨s, h, hreceived, hlogs⟩ := machine.trace_of_any { cursor := -1 }
    [.append .stdout [0x61], .poll, .append .stderr [0x62], .release, .append .stdout [], .poll]
    (fun s => s.received = [0, 2] ∧ ∃ answer, s.e.logs 0 = some answer ∧ answer.truncated = true)
      (by decide +kernel)
  obtain ⟨-, hsum, -⟩ := logs_run ⟨by decide, by decide⟩ h (h.forall_steps (by decide +kernel))
  exact ⟨_, s, h, hreceived, hsum, hlogs⟩

/-- The largest cursor is past every fragment, and all that is retained is answered to it. -/
theorem largest_cursor_answered :
    (machine.run { cursor := -1 } [.append .stdout [0x61]]).bind (·.e.logs (2 ^ 63 - 1)) =
      some ⟨[⟨0, .stdout, [0x61]⟩], 0, true, true⟩ := by
  decide +kernel

/-! ## A client that polls from the start -/

/-- Unless something is truncated, the client has every fragment up to its cursor. -/
def Complete (s : State) : Prop :=
  s.cursor < s.written.length ∧
    (s.e.truncated = false → s.received = (s.written.take (s.cursor + 1).toNat).map (·.sequence))

theorem evict_truncated {output : List ExecutionOutput} {e e' : Execution}
    (h : evict output e = some e') (ht : e'.truncated = false) : e.truncated = false := by
  fun_induction evict output e with
  | case1 => cases h
  | case2 e first rest hover ih => cases ih h
  | case3 output e hfit =>
    cases h
    exact ht

theorem Inv.answered (h : Inv s) (hs : Complete s) {answer : Answer}
    (ha : s.e.logs s.cursor = some answer) (ht : s.e.truncated = false) :
    s.received ++ answer.output.map (·.sequence) = s.written.map (·.sequence) := by
  cases (h.logs h.cursor).symm.trans ha
  rw [hs.2 ht, (h.whole ht).1, map_map,
    show (·.sequence) ∘ retain = (·.sequence) from funext sequence_retain, ← map_append]
  rw [show (max (s.cursor + 1) 0).toNat = (s.cursor + 1).toNat by omega, take_append_drop]

theorem Complete.step {s s' : State} {call : Call} (h : Inv s) (hs : Complete s)
    (hstep : machine.step s call = some s') : Complete s' := by
  cases call with
  | append stream text =>
    obtain ⟨⟨o, e⟩, happend, rfl⟩ := Option.map_eq_some_iff.mp hstep
    obtain ⟨e', hevict, hpair⟩ := Option.map_eq_some_iff.mp happend
    cases hpair
    have hlt := hs.1
    refine ⟨by simp only [length_append, length_singleton]; omega, fun ht => ?_⟩
    have hbefore : s.e.truncated = false := (Bool.or_eq_false_iff.mp (evict_truncated hevict ht)).1
    simp only [hs.2 hbefore]
    rw [take_append_of_le_length (by omega)]
  | release =>
    cases hstep
    exact ⟨hs.1, fun ht => hs.2 (Bool.or_eq_false_iff.mp ht).1⟩
  | finish =>
    cases hstep
    exact hs
  | poll =>
    obtain ⟨answer, ha, rfl⟩ := Option.map_eq_some_iff.mp hstep
    have hnext : answer.next = s.written.length - 1 := by
      cases (h.logs h.cursor).symm.trans ha
      rw [h.next]
    refine ⟨by simp only [hnext]; omega, fun ht => ?_⟩
    simp only [hnext, Int.sub_add_cancel, Int.toNat_natCast, take_length, h.answered hs ha ht]

/-- A client that starts before the first fragment and is not told that something is truncated has
got every fragment written so far, each once and in order. -/
theorem polls_complete {cursor₀ : Int} (h₀ : Valid cursor₀) (hneg : cursor₀ < 0)
    {τ : List (State × Call)} (h : machine.Trace { cursor := cursor₀ } τ s) (hC : ∀ x ∈ τ, counts x)
    {answer : Answer} (ha : s.e.logs s.cursor = some answer) (ht : answer.truncated = false) :
    s.received ++ answer.output.map (·.sequence) = s.written.map (·.sequence) := by
  have hinv : Inv s ∧ Complete s := by
    refine h.invariant_state (P := fun s => Inv s ∧
      Complete s) ?_ (fun s call s' hs hc hstep => ?_) hC
    · exact ⟨by constructor <;> simp [textBytes, h₀], hneg, by simp⟩
    · obtain ⟨_, heq, hs'⟩ := step_inv hs.1 hc
      cases heq.symm.trans hstep
      exact ⟨hs', hs.2.step hs.1 hstep⟩
  cases (hinv.1.logs hinv.1.cursor).symm.trans ha
  exact hinv.1.answered hinv.2 ha (Bool.or_eq_false_iff.mp ht).2

theorem polls_complete_streams : ∃ (s : State) (answer : Answer), s.e.logs s.cursor = some answer ∧
    s.received ++ answer.output.map (·.sequence) = s.written.map (·.sequence) ∧
    s.received = [0] := by
  obtain ⟨s, h, hr, answer, ha, ht⟩ := machine.trace_of_any { cursor := -1 }
    [.append .stdout [0x61], .poll, .append .stderr [0x62]]
    (fun s => s.received = [0] ∧ ∃ answer, s.e.logs s.cursor = some answer ∧
      answer.truncated = false)
    (by decide +kernel)
  exact ⟨s, answer, ha,
    polls_complete ⟨by decide, by decide⟩ (by decide) h (h.forall_steps (by decide +kernel)) ha ht,
    hr⟩

end Hostel.Executions
