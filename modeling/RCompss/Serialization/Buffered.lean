import RCompss.Library.BufferedOutput
import RCompss.Serialization.WriterFormat

/-! The writer on a buffered file: a write is checked when it was handed to the stream, the
last bytes reach the file only when the stream is destroyed. -/
namespace RCompss.Serialization
open RCompss.Library

instance : OutStream (BufferedOutput UInt8) where
  write out data := out.write data
  good out := out.good

/-- One checked write. -/
theorem exec_writeBytes_buffered (out : BufferedOutput UInt8) (data : Bytes) :
    exec (writeBytes data) out =
      (if (out.write data).good then .ok () else .error .writeFailed, out.write data) := by
  rw [writeBytes, exec_bind_ok (exec_modify _ out), exec_bind_ok (exec_get _)]
  change exec (if (!(out.write data).good) = true then throw SerError.writeFailed
    else pure ()) _ = _
  rcases (out.write data).good with _ | _ <;> rfl

/-- The checked writes return exactly when the lengths go through, with everything on the
device or in the buffer. -/
theorem exec_forM_buffered (pieces : List Bytes) (out : BufferedOutput UInt8)
    (hgood : out.good = true) :
    match out.device.steps out.buffer.length out.writes (pieces.map List.length) with
    | some (buffered, writes) => ∃ out', exec (pieces.forM writeBytes) out = (.ok (), out') ∧
        out'.written ++ out'.buffer = out.written ++ out.buffer ++ pieces.flatten ∧
        out'.device = out.device ∧ out'.buffer.length = buffered ∧ out'.writes = writes
    | none => ∃ out', exec (pieces.forM writeBytes) out = (.error .writeFailed, out') := by
  induction pieces generalizing out with
  | nil => exact ⟨out, rfl, (List.append_nil _).symm, rfl, rfl, rfl⟩
  | cons data pieces ih =>
    have hstep := out.write_step hgood data
    have hwrite := exec_writeBytes_buffered out data
    simp only [List.forM_eq_forM] at ih ⊢
    rw [List.map_cons, Device.steps, List.forM_cons]
    rcases h : out.device.step out.buffer.length out.writes data.length with _ | ⟨b, k⟩ <;>
      rw [h] at hstep
    · rw [hstep] at hwrite
      exact ⟨_, exec_bind_error hwrite⟩
    · obtain ⟨hgood', rfl, rfl⟩ := hstep
      rw [hgood'] at hwrite
      have hrest := ih (out.write data) hgood'
      rw [out.device_write, out.content_write hgood] at hrest
      simp only [Option.bind_eq_bind, Option.bind_some]
      rw [exec_bind_ok hwrite, List.flatten_cons, ← List.append_assoc]
      exact hrest

/-- If the call returns, the file holds the encoding of the value once the stream is gone. -/
def ReturnsWritten (device : Device) (v : SEXP) : Prop :=
  ∀ out, exec (serializeSEXP v) (BufferedOutput.open device) = (.ok (), out) →
    ∃ p, payload v = some p ∧ out.close = fileBytes kVersion p

/-- The lengths of the writes for a value. -/
def writeSizes (v : SEXP) : List ℕ := (fileEmission v).pieces.map List.length

/-- When every write on the way goes through, the device takes the last flush, too. -/
def LastFlushTaken (device : Device) (v : SEXP) : Prop :=
  payload v ≠ none → ∀ buffered writes,
    device.steps 0 0 (writeSizes v) = some (buffered, writes) → buffered ≤ device.takes writes

/-- A call that returns has written everything exactly if the flush in the destructor of
the stream, which comes after the last check, is not the one that fails. -/
theorem returnsWritten_iff (device : Device) (v : SEXP) :
    ReturnsWritten device v ↔ LastFlushTaken device v := by
  have hwhole := whole_fileEmission v
  have hrun := exec_forM_buffered (fileEmission v).pieces (.open device) rfl
  unfold ReturnsWritten LastFlushTaken
  rw [serializeSEXP_emission, Emission.emit, writeSizes]
  simp only [BufferedOutput.open, List.length_nil] at hrun ⊢
  rcases hsteps : device.steps 0 0 ((fileEmission v).pieces.map List.length) with
    _ | ⟨buffered, writes⟩ <;>
    rw [hsteps] at hrun
  · obtain ⟨out', hexec⟩ := hrun
    rw [exec_bind_error hexec]
    simp
  · obtain ⟨out', hexec, hcontent, hdevice, rfl, rfl⟩ := hrun
    rw [exec_bind_ok hexec]
    rcases hp : payload v with _ | p <;> rw [hp] at hwhole
    · rw [Emission.whole_eq_none.mp hwhole]
      simp
    · obtain ⟨hcomplete, hbytes⟩ := Emission.whole_eq_some.mp hwhole
      have hclose := out'.close_eq_iff
      rw [hcontent, hdevice] at hclose
      change out'.close = (fileEmission v).bytes ↔ _ at hclose
      rw [hbytes] at hclose
      rw [hcomplete]
      simpa using hclose

/-- Eight kilobytes of buffer, in front of a full disk. -/
def fullDisk : Device where
  keeps buffered n := if buffered + n < 8192 then buffered + n else 0
  takes _ := 0

theorem fileEmission_nil : fileEmission .nil = .of [u32 kMagic, u32 kVersion, u32 0] := by
  rw [fileEmission, emission, dif_neg (fun h => h rfl), valueEmission]
  rfl

/-- Twelve bytes stay in the buffer, so no check sees the disk that takes none of them. -/
theorem null_on_full_disk : ¬ ReturnsWritten fullDisk .nil := by
  intro h
  obtain ⟨p, hp, hclose⟩ := h ⟨fullDisk, [], u32 kMagic ++ u32 kVersion ++ u32 0, true, 0⟩ (by
    rw [serializeSEXP_emission, fileEmission_nil]
    rfl)
  obtain rfl := Option.some.inj (payload_nil.symm.trans hp)
  have hempty : ([] : Bytes) = fileBytes kVersion .nil := hclose
  have hlen := congrArg List.length hempty
  rw [fileBytes, List.length_append, List.length_append, u32, length_toLE, List.length_nil] at hlen
  omega

end RCompss.Serialization
