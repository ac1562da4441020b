import Hmp.Sanity.Transfer
import Hmp.Spec.Log

/-! `"%s"` needs a NUL, which the bytes that a read has fetched need not have, and the length that
`vsnprintf` returns is no index of `mbuf`. -/

namespace HMP

theorem readFormat_length : readFormat.length = 16 := by decide

theorem hmpLogImpl_inBounds_iff (m : Mem) {before arg len : ℕ} (hlen : len < 2 ^ 32)
    (v : VsnprintfCall) :
    (hmpLogImpl m before arg v).InBounds len ↔
      v = .prints ∧ ∃ k < len, m (arg + k) = 0 ∧ before + k < MBUF_SIZE := by
  cases v with
  | fails reads n =>
    refine ⟨fun h => ?_, fun h => (by cases h.1)⟩
    obtain ⟨i, hi, hpos, -⟩ := h.terminator
    obtain rfl := Option.some.inj hi
    exact absurd hpos (Int.negSucc_lt_zero n).not_ge
  | prints =>
    rw [hmpLogImpl, vsnprintf]
    constructor
    · intro h
      cases hk : m.strlen arg (2 ^ 64) with
      | none =>
        have := h.reads
        simp only [hk] at this
        omega
      | some k =>
        obtain ⟨hreads, i, hi, hpos, hlt⟩ := h
        simp only [hk, Option.some.injEq] at hreads hi
        obtain ⟨-, hz, -⟩ := Mem.strlen_eq_some.mp hk
        refine ⟨rfl, k, hreads, hz, ?_⟩
        split_ifs at hi with hshort <;> omega
    · rintro ⟨-, i, hi, hz, hlt⟩
      obtain ⟨k, hle, hk⟩ := Mem.strlen_le (n := 2 ^ 64) (by omega) hz
      simp only [MBUF_SIZE] at hlt
      refine ⟨?_, (before + k : ℕ), ?_, by omega, ?_⟩
      · simp only [hk]
        omega
      · simp only [hk]
        rw [if_pos (by omega), Nat.cast_add]
      · simp only [MBUF_SIZE]
        omega

theorem RemoteCall.fetched_lt (c : RemoteCall) : c.fetched < 2 ^ 32 := by
  rw [fetched]
  omega

namespace Transfer

/-- The call is made when the read returns. -/
theorem readLog_isSome (s : Transfer) (v : VsnprintfCall) :
    (s.readLog v).isSome = s.retStep.isSome := by
  unfold readLog retStep
  cases s.app with
  | idle => rfl
  | checking c => rfl
  | waiting c task => dsimp only; split_ifs <;> rfl

/-- The log call stays in bounds exactly if it succeeds and the bytes fetched have a NUL early
enough. -/
theorem read_log_in_bounds_iff {s : Transfer} {c : RemoteCall} {task : ℕ}
    (happ : s.app = .waiting c task) (hdone : (s.node.task task).type = .done) (v : VsnprintfCall) :
    (∃ r, s.readLog v = some r ∧ r.InBounds c.fetched) ↔
      v = .prints ∧ ∃ k < c.fetched, s.node.mem (c.localAddr + k) = 0 ∧ 16 + k < MBUF_SIZE := by
  have hlog : s.readLog v = some (hmpLogImpl s.node.mem readFormat.length c.localAddr v) := by
    rw [readLog, happ]
    exact if_pos hdone
  rw [hlog, ← readFormat_length, ← hmpLogImpl_inBounds_iff s.node.mem c.fetched_lt]
  simp only [Option.some.injEq, exists_eq_left']

/-- Node 1 holds `bs`, and node 0 reads 64 bytes there into its own pool. -/
def readRun (bs : List UInt8) : List TransferEvent :=
  [.storeRemote 1 4096 bs,
    .call .read 4416 (hmpGetHybridMempoolAddr 1 + BitVec.ofNat 64 4096) 64, .check {},
    .complete 0 .success, .poll 0]

theorem read_log_in_bounds_sample :
    ∃ s r, sys.replay Sys.Always sampleTransfer (readRun (bytes "hello")) = some s ∧
      s.readLog .prints = some r ∧ r.InBounds 64 := by
  obtain ⟨s, hs, happ, hdone, hmem⟩ : ∃ s : Transfer,
      sys.replay Sys.Always sampleTransfer (readRun (bytes "hello")) = some s ∧
        s.app = .waiting ⟨.read, 1, 0, 4416, 4096, 64⟩ 0 ∧ (s.node.task 0).type = .done ∧
        s.node.mem (4416 + 5) = 0 :=
    ⟨_, rfl, by decide, by decide, by decide⟩
  obtain ⟨r, hr, hin⟩ := (read_log_in_bounds_iff happ hdone .prints).mpr
    ⟨rfl, 5, by decide, hmem, by decide⟩
  exact ⟨s, r, hs, hr, hin⟩

/-- Without a NUL in the 64 bytes, `vsnprintf` reads on behind them. -/
theorem read_log_out_of_bounds :
    ¬ ∀ (s : Transfer) (c : RemoteCall) (task : ℕ) (v : VsnprintfCall) (r : LogRun),
      sys.Reach Sys.Always s → s.app = .waiting c task → s.readLog v = some r →
        r.InBounds c.fetched := by
  intro h
  obtain ⟨s, hs, happ, hlog⟩ : ∃ s : Transfer,
      sys.replay Sys.Always sampleTransfer (readRun (List.replicate 64 65)) = some s ∧
        s.app = .waiting ⟨.read, 1, 0, 4416, 4096, 64⟩ 0 ∧
        s.readLog .prints = some { reads := 65, terminator := some 80 } :=
    ⟨_, rfl, by decide, by decide⟩
  have hreads := (h s _ 0 .prints _ ⟨sampleTransfer, sampleTransfer_start, Sys.replay_run _ hs⟩
    happ hlog).reads
  revert hreads
  decide

end Transfer

end HMP
