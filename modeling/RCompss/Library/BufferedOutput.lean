import Mathlib.Tactic

/-! Output through a buffer: what was written is on the device or still in the buffer, and
how the two share it depends on lengths only. -/
namespace RCompss.Library

/-- How much of its data a buffer keeps, and how much of its n-th write a device takes. -/
structure Device where
  /-- Of the buffered and the new data, by their lengths. -/
  keeps : ℕ → ℕ → ℕ
  takes : ℕ → ℕ

/-- An output stream in front of a device; `good` is down once the device took too little. -/
structure BufferedOutput (α : Type) where
  device : Device
  written : List α
  buffer : List α
  good : Bool
  /-- Writes to the device so far. -/
  writes : ℕ

namespace BufferedOutput
variable {α : Type}

def «open» (device : Device) : BufferedOutput α := ⟨device, [], [], true, 0⟩

/-- Write `sent` to the device and keep `kept`, and what the device does not take. -/
def handOn (out : BufferedOutput α) (sent kept : List α) : BufferedOutput α :=
  if sent.length = 0 then { out with buffer := kept } else
    let taken := out.device.takes out.writes
    { out with
      written := out.written ++ sent.take taken
      buffer := sent.drop taken ++ kept
      good := decide (sent.length ≤ taken)
      writes := out.writes + 1 }

def write (out : BufferedOutput α) (data : List α) : BufferedOutput α :=
  if out.good then
    let pending := out.buffer ++ data
    let sent := pending.length -
      min (out.device.keeps out.buffer.length data.length) pending.length
    out.handOn (pending.take sent) (pending.drop sent)
  else out

/-- What the device holds after the last flush, whose failure nobody sees. -/
def close (out : BufferedOutput α) : List α := (out.handOn out.buffer []).written

end BufferedOutput

/-- The lengths behind one write of `n`: what is buffered and how often the device was
written to, unless it took too little. -/
def Device.step (d : Device) (buffered writes n : ℕ) : Option (ℕ × ℕ) :=
  let sent := buffered + n - min (d.keeps buffered n) (buffered + n)
  if sent = 0 then some (buffered + n, writes)
  else if sent ≤ d.takes writes then some (buffered + n - sent, writes + 1)
  else none

def Device.steps (d : Device) (buffered writes : ℕ) : List ℕ → Option (ℕ × ℕ)
  | [] => some (buffered, writes)
  | n :: ns => do
      let (buffered, writes) ← d.step buffered writes n
      d.steps buffered writes ns

namespace BufferedOutput
variable {α : Type} (out : BufferedOutput α)

@[simp] theorem device_handOn (sent kept : List α) :
    (out.handOn sent kept).device = out.device := by
  unfold handOn
  split <;> rfl

/-- Nothing is lost between the device and the buffer. -/
theorem content_handOn (sent kept : List α) :
    (out.handOn sent kept).written ++ (out.handOn sent kept).buffer =
      out.written ++ (sent ++ kept) := by
  unfold handOn
  split
  next h => rw [List.length_eq_zero_iff.mp h, List.nil_append]
  next h =>
    change out.written ++ sent.take _ ++ (sent.drop _ ++ kept) = _
    rw [List.append_assoc, ← List.append_assoc (sent.take _), List.take_append_drop]

theorem content_write (hgood : out.good = true) (data : List α) :
    (out.write data).written ++ (out.write data).buffer =
      out.written ++ out.buffer ++ data := by
  rw [write, if_pos hgood, content_handOn, List.take_append_drop, List.append_assoc]

@[simp] theorem device_write (data : List α) : (out.write data).device = out.device := by
  unfold write
  split
  · exact out.device_handOn _ _
  · rfl

/-- Writing goes by the lengths. -/
theorem write_step (hgood : out.good = true) (data : List α) :
    match out.device.step out.buffer.length out.writes data.length with
    | some (buffered, writes) => (out.write data).good = true ∧
        (out.write data).buffer.length = buffered ∧ (out.write data).writes = writes
    | none => (out.write data).good = false := by
  rw [write, if_pos hgood, Device.step]
  simp only [List.length_append]
  generalize hsent : out.buffer.length + data.length -
    min (out.device.keeps out.buffer.length data.length) (out.buffer.length + data.length) = sent
  have hle : sent ≤ (out.buffer ++ data).length := by
    rw [List.length_append]
    omega
  rw [handOn, List.length_take, min_eq_left hle]
  by_cases hzero : sent = 0
  · rw [if_pos hzero, if_pos hzero]
    refine ⟨hgood, ?_, rfl⟩
    rw [List.length_drop, List.length_append]
    omega
  · rw [if_neg hzero, if_neg hzero]
    by_cases htaken : sent ≤ out.device.takes out.writes
    · rw [if_pos htaken]
      refine ⟨decide_eq_true htaken, ?_, rfl⟩
      simp only [List.length_append, List.length_drop, List.length_take]
      omega
    · rw [if_neg htaken]
      exact decide_eq_false htaken

/-- Everything reaches the device exactly if it takes all that the last flush brings. -/
theorem close_eq_iff :
    out.close = out.written ++ out.buffer ↔
      out.buffer.length ≤ out.device.takes out.writes := by
  unfold close handOn
  split
  next h => simp [List.length_eq_zero_iff.mp h]
  next h => simp [List.take_eq_self_iff]

end BufferedOutput
end RCompss.Library
