import Hmp.Lib.CMem
import Hmp.Spec.HashRing
import Hmp.Spec.Transfer

/-! `hmp_log_impl` for the call at the end of `hmp_rdma_read`. -/

namespace HMP

/-- `sizeof(mbuf)`. -/
def MBUF_SIZE : ℕ := 2048

/-- `fails reads n`: `vsnprintf` returns a negative error when it has read `reads` bytes of the
argument. -/
inductive VsnprintfCall where
  | prints
  | fails (reads n : ℕ)

/-- What a log call does: the bytes that it reads from the argument on, and the index of
`mbuf[mlength]=0`, unless there is no end to the reading. -/
structure LogRun where
  reads : ℕ
  terminator : Option ℤ
  deriving DecidableEq

/-- The text is as long as the format and the argument make it, whatever `sizeof(mbuf)` is. -/
def vsnprintf (m : Mem) (before arg : ℕ) : VsnprintfCall → ℕ × Option ℤ
  | .prints =>
    match m.strlen arg (2 ^ 64) with
    | none => (2 ^ 64, none)
    | some k => (k + 1, some (if before + k < 2 ^ 31 then before + k else -1))
  | .fails reads n => (reads, some (.negSucc n))

/-- For a format of `before` bytes and a `%s`. -/
def hmpLogImpl (m : Mem) (before arg : ℕ) (v : VsnprintfCall) : LogRun :=
  let r := vsnprintf m before arg v
  { reads := r.1, terminator := r.2 }

/-- Nothing is read behind the first `len` bytes of the argument, nor written outside `mbuf`. -/
structure LogRun.InBounds (r : LogRun) (len : ℕ) : Prop where
  reads : r.reads ≤ len
  terminator : ∃ i, r.terminator = some i ∧ 0 ≤ i ∧ i < MBUF_SIZE

/-- `"read content is %s"` without the `%s`. -/
def readFormat : List UInt8 := bytes "read content is "

/-- The bytes that the request has fetched. -/
def RemoteCall.fetched (c : RemoteCall) : ℕ := (c.length % 2 ^ 32).toNat

namespace Transfer

/-- The log call of a read that returns. -/
def readLog (s : Transfer) (v : VsnprintfCall) : Option LogRun :=
  match s.app with
  | .waiting c task =>
    if (s.node.task task).type = .done then
      some (hmpLogImpl s.node.mem readFormat.length c.localAddr v)
    else none
  | _ => none

end Transfer

end HMP
