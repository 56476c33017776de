import Petunia.Lib.CTypes
import Mathlib.Order.Defs.LinearOrder

set_option autoImplicit false

/-!
# Reading and writing a connected socket

`nn_usock_send_raw` hands a list of buffers to `sendmsg`, which may take fewer bytes than offered;
`nn_usock_recv_raw` fills a request from a batch buffer and reads ahead into it when the request is
small. Both are called again until the request is done.

* `SendRaw`, `sendRaw`: one `sendmsg`; **`sendRaw_spec`**: the bytes taken are the first ones;
* `In`, `recvRaw`: one `recvmsg`; **`recvRaw_spec`**: with and without the batch buffer the caller
  gets the next bytes of the connection;
* `recvRaw_progress`: a call for which something is there returns something.
-/

namespace Petunia.Ipc

open CTypes

/-! ## Sending -/

/-- The result of `nn_usock_send_raw`: `0`, `-EAGAIN` with the buffers that are left, or a failed
assertion. -/
inductive SendRaw
  | sent
  | again (hdr : List Bytes)
  | abort
  deriving DecidableEq

/-- `nn_usock_send_raw`, after a `sendmsg` that took `nbytes` bytes. -/
def sendRaw : List Bytes → ℕ → SendRaw
  | [], 0 => .sent
  | [], _ + 1 => .abort
  | iov :: hdr, 0 => .again (iov :: hdr)
  | iov :: hdr, nbytes + 1 =>
    if iov.length ≤ nbytes + 1 then
      if hdr = [] then (if nbytes + 1 = iov.length then .sent else .abort)
      else sendRaw hdr (nbytes + 1 - iov.length)
    else .again (iov.drop (nbytes + 1) :: hdr)

/-- `nn_usock_send` leaves out the empty buffers. -/
def iovecs (bufs : List Bytes) : List Bytes := bufs.filter (· ≠ [])

theorem flatten_iovecs (bufs : List Bytes) : (iovecs bufs).flatten = bufs.flatten := by
  induction bufs with
  | nil => rfl
  | cons b bufs ih =>
    by_cases hb : b = []
    · simpa [iovecs, hb] using ih
    · simpa [iovecs, hb] using ih

/-- **The bytes taken are the first ones.** The call reports success exactly when nothing is left,
and no assertion fails. -/
theorem sendRaw_spec {hdr : List Bytes} {nbytes : ℕ} (hne : ∀ iov ∈ hdr, iov ≠ [])
    (hn : nbytes ≤ hdr.flatten.length) :
    (sendRaw hdr nbytes = .sent ∧ hdr.flatten.length = nbytes) ∨
      ∃ hdr', sendRaw hdr nbytes = .again hdr' ∧ hdr' ≠ [] ∧ (∀ iov ∈ hdr', iov ≠ []) ∧
        hdr'.flatten = hdr.flatten.drop nbytes := by
  induction hdr generalizing nbytes with
  | nil =>
    obtain rfl : nbytes = 0 := Nat.le_zero.mp hn
    exact .inl ⟨rfl, rfl⟩
  | cons iov hdr ih =>
    have htail : ∀ x ∈ hdr, x ≠ [] := fun x hx => hne x (List.mem_cons_of_mem iov hx)
    rw [List.flatten_cons, List.length_append] at hn
    cases nbytes with
    | zero => exact .inr ⟨iov :: hdr, rfl, List.cons_ne_nil _ _, hne, rfl⟩
    | succ nbytes =>
      by_cases hle : iov.length ≤ nbytes + 1
      · by_cases hnil : hdr = []
        · subst hnil
          have heq : nbytes + 1 = iov.length := by
            rw [List.flatten_nil, List.length_nil] at hn
            omega
          exact .inl ⟨by simp only [sendRaw, if_pos hle, if_pos heq, ite_true], by simp [heq]⟩
        · have hrec : sendRaw (iov :: hdr) (nbytes + 1) = sendRaw hdr (nbytes + 1 - iov.length) := by
            simp only [sendRaw, if_pos hle, if_neg hnil]
          rw [hrec, List.flatten_cons, List.length_append, List.drop_append,
            List.drop_eq_nil_of_le hle, List.nil_append]
          have hrest : nbytes + 1 - iov.length ≤ hdr.flatten.length := by omega
          rcases ih htail hrest with ⟨hs, hl⟩ | h
          · exact .inl ⟨hs, by omega⟩
          · exact .inr h
      · refine .inr ⟨iov.drop (nbytes + 1) :: hdr, by simp only [sendRaw, if_neg hle],
          List.cons_ne_nil _ _, fun x hx => ?_, ?_⟩
        · rcases List.mem_cons.mp hx with rfl | hx
          · exact fun h => hle (List.drop_eq_nil_iff.mp h)
          · exact htail x hx
        · rw [List.flatten_cons, List.flatten_cons,
            List.drop_append_of_le_length (Nat.le_of_not_le hle)]

/-! ## Receiving -/

/-- `NN_USOCK_BATCH_SIZE`. -/
def batchSize : ℕ := 2048

/-- The batch buffer, with `batch_len` and `batch_pos`. -/
structure In where
  batch : Bytes
  batchPos : ℕ
  deriving DecidableEq

/-- What has been read ahead. -/
def In.ahead (u : In) : Bytes := u.batch.drop u.batchPos

/-- What `nn_usock_recv_raw` returns. -/
structure RecvRaw where
  /-- The bytes copied to the caller's buffer. -/
  copied : Bytes
  u : In
  /-- What is left of the bytes that have arrived. -/
  line : Bytes
  deriving DecidableEq

/-- `nn_usock_recv_raw` for `len` bytes. Of the bytes that have arrived `recvmsg` returns the first
`nbytes`, or as many as it was asked for. -/
def recvRaw (u : In) (len : ℕ) (line : Bytes) (nbytes : ℕ) : RecvRaw :=
  let sz := min (u.batch.length - u.batchPos) len
  let copied := u.ahead.take sz
  let u' : In := { u with batchPos := u.batchPos + sz }
  let length := len - sz
  if u.batch.length - u.batchPos ≠ 0 ∧ length = 0 then ⟨copied, u', line⟩
  else if batchSize < length then
    -- a large request is read straight into place
    ⟨copied ++ line.take (min nbytes length), u', line.drop (min nbytes length)⟩
  else
    let batch := line.take (min nbytes batchSize)
    ⟨copied ++ batch.take length, ⟨batch, min batch.length length⟩, line.drop (min nbytes batchSize)⟩

theorem drop_min_length {α : Type*} (l : List α) (n : ℕ) : l.drop (min l.length n) = l.drop n := by
  rcases Nat.le_total l.length n with h | h
  · rw [Nat.min_eq_left h, List.drop_length, List.drop_eq_nil_of_le h]
  · rw [Nat.min_eq_right h]

/-- The batch buffer after a part of what was read ahead has been copied. -/
theorem ahead_advance (u : In) (sz : ℕ) :
    In.ahead { u with batchPos := u.batchPos + sz } = u.ahead.drop sz :=
  (List.drop_drop).symm

/-- The batch buffer after it has been filled anew. -/
theorem ahead_fill (batch : Bytes) (n : ℕ) :
    In.ahead ⟨batch, min batch.length n⟩ = batch.drop n :=
  drop_min_length batch n

/-- **The caller gets the next bytes of the connection**, read ahead or not, and at most those it
asked for. -/
theorem recvRaw_spec (u : In) (len : ℕ) (line : Bytes) (nbytes : ℕ) :
    (recvRaw u len line nbytes).copied ++ (recvRaw u len line nbytes).u.ahead ++
        (recvRaw u len line nbytes).line = u.ahead ++ line ∧
      (recvRaw u len line nbytes).copied.length ≤ len := by
  have hlen : u.ahead.length = u.batch.length - u.batchPos := List.length_drop
  unfold recvRaw
  rw [← hlen]
  generalize hsz : min u.ahead.length len = sz
  have hle : sz ≤ len := hsz ▸ Nat.min_le_right _ _
  have hcopied : (u.ahead.take sz).length ≤ sz := List.length_take_le _ _
  dsimp only
  split_ifs with hdone hlarge
  · refine ⟨?_, Nat.le_trans hcopied hle⟩
    dsimp only
    rw [ahead_advance, List.take_append_drop]
  · -- everything read ahead has been copied
    have hall : u.ahead.length ≤ sz := by omega
    dsimp only
    refine ⟨?_, ?_⟩
    · rw [ahead_advance, List.drop_eq_nil_of_le hall, List.take_of_length_le hall,
        List.append_nil, List.append_assoc, List.take_append_drop]
    · rw [List.length_append, List.length_take (l := line)]
      omega
  · have hall : u.ahead.length ≤ sz := by omega
    dsimp only
    refine ⟨?_, ?_⟩
    · rw [ahead_fill, List.take_of_length_le hall, List.append_assoc u.ahead,
        List.take_append_drop, List.append_assoc, List.take_append_drop]
    · rw [List.length_append, List.length_take (l := line.take _)]
      omega

/-- **A call for which something is there returns something.** -/
theorem recvRaw_progress {u : In} {len : ℕ} (hlen : len ≠ 0) {line : Bytes} {nbytes : ℕ}
    (h : u.ahead ≠ [] ∨ (line ≠ [] ∧ nbytes ≠ 0)) :
    (recvRaw u len line nbytes).copied ≠ [] := by
  have hahead : u.ahead.length = u.batch.length - u.batchPos := List.length_drop
  by_cases hnil : u.ahead = []
  · obtain ⟨hline, hn⟩ := h.resolve_left fun hne => hne hnil
    have h0 : u.batch.length - u.batchPos = 0 := by rw [← hahead, hnil, List.length_nil]
    have hne : ∀ k, 0 < k → line.take k ≠ [] := fun k hk h =>
      (List.take_eq_nil_iff.mp h).elim (Nat.ne_of_gt hk) hline
    unfold recvRaw
    rw [h0]
    simp only [ne_eq, not_true_eq_false, false_and, if_false, Nat.zero_min, Nat.sub_zero,
      List.take_zero, List.nil_append]
    split_ifs
    · exact hne _ (by omega)
    · intro hc
      rcases List.take_eq_nil_iff.mp hc with hc | hc
      · omega
      · exact hne _ (by unfold batchSize; omega) hc
  · -- some of what was read ahead is copied in every case
    have hpos : 0 < u.batch.length - u.batchPos := hahead ▸ List.length_pos_iff.mpr hnil
    have htake : u.ahead.take (min (u.batch.length - u.batchPos) len) ≠ [] := fun h =>
      (List.take_eq_nil_iff.mp h).elim (by omega) hnil
    unfold recvRaw
    dsimp only
    split_ifs
    · exact htake
    · exact List.append_ne_nil_of_left_ne_nil htake _
    · exact List.append_ne_nil_of_left_ne_nil htake _

end Petunia.Ipc
