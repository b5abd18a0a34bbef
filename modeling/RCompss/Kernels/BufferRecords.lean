import RCompss.Kernels.BufferUse
import RCompss.Kernels.GpuBuffers

/-! Records and the buffers that belong to them, from their allocation to their release. -/
namespace RCompss.Kernels
open RCompss.Library

/-- Every record has a buffer of its own, live and of the size recorded; every external pointer
that is not cleared has a record of its own; what was freed is gone for good. -/
structure BuffersSound (s : GpuBuffers) : Prop where
  fresh : s.cuda.Fresh
  unmisused : .deviceBuffer ∉ s.cuda.misuses
  freeing : ∀ time, s.cuda.fails time (.release .deviceBuffer) = false
  intact : s.misused = false
  recorded : ∀ r, s.nextRecord ≤ r → s.records r = none
  held : ∀ h r, s.handles h = some r → ∃ buf, s.records r = some buf
  alone : ∀ h h' r, s.handles h = some r → s.handles h' = some r → h = h'
  live : ∀ r buf, s.records r = some buf →
    ∃ id, buf.ptr = some id ∧ s.cuda.live id = some ⟨.deviceBuffer, buf.size_bytes⟩
  apart : ∀ r r' buf buf', s.records r = some buf → s.records r' = some buf' →
    buf.ptr = buf'.ptr → r = r'
  once : s.freed.Nodup
  gone : ∀ id ∈ s.freed, id < s.cuda.next ∧ s.cuda.live id = none

section
variable {s t : GpuBuffers} {r h : ℕ} {buf : GpuBufferHandle}

theorem meets_onDevice {α : Type} {context : RunContext} {x : MemberM α}
    {Q : α → GpuBuffers → Prop} {E : BufferError → GpuBuffers → Prop} :
    Meets (onDevice context x) s Q E ↔
      Meets x ⟨context, s.cuda⟩ (fun a m => Q a { s with cuda := m.cuda.tick })
        fun e m => E (.runtimeError e.what) { s with cuda := m.cuda.tick } := by
  rw [onDevice, meets_bind, meets_get]
  dsimp only
  rw [meets_bind, meets_set]
  conv_rhs => unfold Meets
  rcases exec x ⟨context, s.cuda⟩ with ⟨e | a, m⟩ <;> rfl

theorem meets_readRecord (hr : s.records r = some buf) {Q : GpuBufferHandle → GpuBuffers → Prop}
    {E : BufferError → GpuBuffers → Prop} : Meets (readRecord r) s Q E ↔ Q buf s := by
  rw [readRecord, meets_bind, meets_get, hr, meets_pure]

/-- Uses of device memory spare the buffers. -/
theorem SameBuffers.spares {cuda : Cuda} (h : SameBuffers s.cuda cuda) : Spares s cuda where
  live _ _ id _ _ := by rw [h.live]
  next := h.next.ge
  gone _ _ hnone := by rwa [h.live]
  fresh hf id hid := by
    rw [h.next] at hid
    rw [h.live, hf id hid]
  misuses := h.misuses
  fails := h.fails

theorem BuffersSound.start {cuda : Cuda} (hfresh : cuda.Fresh)
    (hclean : .deviceBuffer ∉ cuda.misuses)
    (hfree : ∀ time, cuda.fails time (.release .deviceBuffer) = false) :
    BuffersSound (GpuBuffers.start cuda) :=
  ⟨hfresh, hclean, hfree, rfl, fun _ _ => rfl, nofun, nofun, nofun, nofun, List.nodup_nil, nofun⟩

/-- Where the buffers of the records are spared. -/
theorem BuffersSound.others (hs : BuffersSound s) {cuda : Cuda} (h : Spares s cuda) :
    BuffersSound { s with cuda } where
  fresh := h.fresh hs.fresh
  unmisused := h.misuses hs.unmisused
  freeing time := by
    change cuda.fails time _ = false
    rw [h.fails, hs.freeing time]
  intact := hs.intact
  recorded := hs.recorded
  held := hs.held
  alone := hs.alone
  live r buf hr := by
    obtain ⟨id, hid, hlive⟩ := hs.live r buf hr
    exact ⟨id, hid, (h.live r buf id hr hid).trans hlive⟩
  apart := hs.apart
  once := hs.once
  gone id hid := by
    obtain ⟨hlt, hnone⟩ := hs.gone id hid
    exact ⟨hlt.trans_le h.next, h.gone id hlt hnone⟩

theorem BuffersSound.lt_next (hs : BuffersSound s) (hr : s.records r = some buf) {id : ℕ}
    (hid : buf.ptr = some id) : id < s.cuda.next := by
  obtain ⟨id', hid', hlive⟩ := hs.live r buf hr
  obtain rfl : id' = id := Option.some.inj (hid'.symm.trans hid)
  by_contra hge
  rw [hs.fresh id' (not_lt.mp hge)] at hlive
  contradiction

/-- A handle is released whose record has a buffer. -/
def GpuBuffers.released (s : GpuBuffers) (h r id : ℕ) : GpuBuffers :=
  { s with
    cuda := (s.cuda.kill .deviceBuffer (some id)).tick
    records := Function.update s.records r none
    handles := Function.update s.handles h none
    freed := id :: s.freed }

theorem BuffersSound.released (hs : BuffersSound s) (hh : s.handles h = some r)
    (hr : s.records r = some buf) {id : ℕ} (hid : buf.ptr = some id) :
    BuffersSound (s.released h r id) := by
  obtain ⟨id', hid', hlive⟩ := hs.live r buf hr
  obtain rfl : id = id' := Option.some.inj (hid.symm.trans hid')
  have hnext : (s.released h r id).cuda.next = s.cuda.next :=
    s.cuda.next_kill .deviceBuffer (some id)
  constructor
  · exact hs.fresh.kill .deviceBuffer (some id)
  · change Part.deviceBuffer ∉ (s.cuda.kill .deviceBuffer (some id)).misuses
    rw [Cuda.misuses_kill]
    exact hs.unmisused
  · intro time
    change (s.cuda.kill .deviceBuffer (some id)).fails time _ = false
    rw [Cuda.fails_kill]
    exact hs.freeing time
  · exact hs.intact
  · intro r' hr'
    change Function.update s.records r none r' = none
    rw [Function.update_apply, hs.recorded r' hr', ite_self]
  · intro h' r' hh'
    obtain ⟨hne, hold⟩ := of_update_none hh'
    obtain ⟨buf', hr'⟩ := hs.held h' r' hold
    have hne' : r' ≠ r := by
      rintro rfl
      exact hne (hs.alone h' h r' hold hh)
    exact ⟨buf', (Function.update_of_ne hne' _ _).trans hr'⟩
  · intro h₁ h₂ r' h₁r h₂r
    exact hs.alone h₁ h₂ r' (of_update_none h₁r).2 (of_update_none h₂r).2
  · intro r' buf' hr'
    obtain ⟨hne, hold⟩ := of_update_none hr'
    obtain ⟨id₁, hid₁, hlive₁⟩ := hs.live r' buf' hold
    have hne₁ : id₁ ≠ id := by
      rintro rfl
      exact hne (hs.apart r' r buf' buf hold hr (hid₁.trans hid.symm))
    exact ⟨id₁, hid₁, (Cuda.live_kill_of_ne hne₁).trans hlive₁⟩
  · intro r₁ r₂ buf₁ buf₂ h₁ h₂
    exact hs.apart r₁ r₂ buf₁ buf₂ (of_update_none h₁).2 (of_update_none h₂).2
  · apply List.nodup_cons.mpr
    refine ⟨fun hmem => ?_, hs.once⟩
    rw [(hs.gone id hmem).2] at hlive
    contradiction
  · intro id' hmem
    rw [hnext]
    change id' < s.cuda.next ∧ (s.cuda.kill .deviceBuffer (some id)).live id' = none
    rcases List.mem_cons.mp hmem with rfl | hmem
    · exact ⟨hs.lt_next hr hid, Cuda.live_kill_self hlive⟩
    · obtain ⟨hlt', hnone⟩ := hs.gone id' hmem
      have hne' : id' ≠ id := by
        rintro rfl
        rw [hlive] at hnone
        contradiction
      exact ⟨hlt', (Cuda.live_kill_of_ne hne').trans hnone⟩

/-- A cleared external pointer is cleared again. -/
theorem clear_cleared (hh : s.handles h = none) :
    { s with handles := Function.update s.handles h none } = s := by
  rw [← hh, Function.update_eq_self]

/-- What is left after a handle is released. -/
structure WithoutHandle (s : GpuBuffers) (h : ℕ) (t : GpuBuffers) : Prop where
  sound : BuffersSound t
  null : t.handles h = none
  nextHandle : t.nextHandle = s.nextHandle
  handles : ∀ h' r, t.handles h' = some r → s.handles h' = some r
  records : ∀ r, s.handles h ≠ some r → t.records r = s.records r

/-- Freed explicitly or by the collector, and however often. -/
theorem gpuBufferFinalizer_meets (hs : BuffersSound s) (h : ℕ) :
    Meets (gpuBufferFinalizer h) s (fun _ t => WithoutHandle s h t) fun _ _ => False := by
  rw [gpuBufferFinalizer, meets_bind, meets_get, meets_bind]
  rcases hh : s.handles h with _ | r
  · rw [deleteRecord, meets_pure, meets_modify, clear_cleared hh]
    exact ⟨hs, hh, rfl, fun _ _ h => h, fun _ _ => rfl⟩
  obtain ⟨buf, hr⟩ := hs.held h r hh
  obtain ⟨id, hid, hlive⟩ := hs.live r buf hr
  rw [deleteRecord, meets_bind, meets_readRecord hr, meets_bind, meets_onlyIf, hid,
    if_pos (Option.some_ne_none id), destroyBuffer, meets_bind, meets_onDevice, hid]
  have hfree : s.cuda.failing (.release .deviceBuffer) = false := hs.freeing s.cuda.time
  apply (destroyArray_meets (m := ⟨RunContext.raw, s.cuda⟩) hlive hfree).returns
  rintro _ m ⟨rfl, hm⟩
  rw [meets_modify, meets_modify, meets_modify]
  dsimp only
  rw [hm, Function.update_idem]
  constructor
  · exact hs.released hh hr hid
  · exact Function.update_self ..
  · rfl
  · exact fun h' r' hh' => (of_update_none hh').2
  · intro r' hne
    apply Function.update_of_ne
    rintro rfl
    exact hne hh

/-- A collection leaves a record that no collected handle has. -/
theorem finalizers_meet (hs : BuffersSound s) (hr : s.records r = some buf) {collected : List ℕ}
    (hnot : ∀ h ∈ collected, s.handles h ≠ some r) :
    Meets (collected.forM gpuBufferFinalizer) s
      (fun _ t => BuffersSound t ∧ t.records r = some buf ∧
        ∀ h, t.handles h = some r → s.handles h = some r) fun _ _ => False := by
  let spared (t : GpuBuffers) : Prop := BuffersSound t ∧ t.records r = some buf ∧
    ∀ h, t.handles h = some r → s.handles h = some r
  have hone (h : ℕ) (rest : List ℕ) (t : GpuBuffers)
      (ht : spared t ∧ ∀ h' ∈ h :: rest, s.handles h' ≠ some r) :
      Meets (gpuBufferFinalizer h) t
        (fun _ u => spared u ∧ ∀ h' ∈ rest, s.handles h' ≠ some r) fun _ _ => False := by
    obtain ⟨⟨hsound, hrt, hhandles⟩, hcollected⟩ := ht
    have hne : t.handles h ≠ some r := fun hh =>
      hcollected h List.mem_cons_self (hhandles h hh)
    apply (gpuBufferFinalizer_meets hsound h).imp
    intro _ u hu
    exact ⟨⟨hu.sound, (hu.records r hne).trans hrt, fun h' hh' =>
      hhandles h' (hu.handles h' r hh')⟩, fun h' hh' => hcollected h' (List.mem_cons_of_mem h hh')⟩
  have hstart : spared s := ⟨hs, hr, fun _ hh => hh⟩
  exact (meets_forM (fun rest t => spared t ∧ ∀ h ∈ rest, s.handles h ≠ some r) hone collected
    ⟨hstart, hnot⟩).imp fun _ _ ht => ht.1

/-- A checked handle leads to a record. -/
def LeadsTo (s : GpuBuffers) (handle : HandleSEXP) (r : ℕ) : Prop :=
  ∃ h, handle = .externalPtr h ∧ s.handles h = some r

theorem checkGpuHandle_meets (hs : BuffersSound s) {handle : HandleSEXP}
    {Q : ℕ → GpuBuffers → Prop} {E : BufferError → GpuBuffers → Prop}
    (hQ : ∀ r, LeadsTo s handle r → Q r s) (hE : ∀ e, E e s) :
    Meets (checkGpuHandle handle) s Q E := by
  cases handle with
  | other => exact hE _
  | externalPtr h =>
    rw [checkGpuHandle, meets_bind, meets_get]
    rcases hh : s.handles h with _ | r
    · exact hE _
    obtain ⟨buf, hr⟩ := hs.held h r hh
    rw [meets_bind, meets_readRecord hr, meets_bind, meets_onlyIf]
    split
    · exact hE _
    · exact hQ r ⟨h, rfl, hh⟩

/-- A new record with the next memory of the device. -/
def GpuBuffers.allocated (s : GpuBuffers) (bytes : ℕ) : GpuBuffers :=
  { s with
    cuda := (s.cuda.alloc .deviceBuffer bytes).tick
    records := Function.update s.records s.nextRecord (some ⟨some s.cuda.next, bytes⟩)
    nextRecord := s.nextRecord + 1 }

theorem BuffersSound.lt_nextRecord (hs : BuffersSound s) (hr : s.records r = some buf) :
    r < s.nextRecord := by
  by_contra hge
  rw [hs.recorded r (not_lt.mp hge)] at hr
  contradiction

theorem BuffersSound.not_held (hs : BuffersSound s) (h : ℕ) :
    s.handles h ≠ some s.nextRecord := by
  intro hh
  obtain ⟨buf, hr⟩ := hs.held h _ hh
  exact lt_irrefl _ (hs.lt_nextRecord hr)

theorem BuffersSound.allocated (hs : BuffersSound s) (bytes : ℕ) :
    BuffersSound (s.allocated bytes) := by
  have hrecords (r : ℕ) (buf : GpuBufferHandle) (hr : (s.allocated bytes).records r = some buf) :
      r = s.nextRecord ∧ buf = ⟨some s.cuda.next, bytes⟩ ∨ s.records r = some buf := by
    change Function.update s.records s.nextRecord (some ⟨some s.cuda.next, bytes⟩) r = _ at hr
    rw [Function.update_apply] at hr
    split at hr
    next h => exact .inl ⟨h, (Option.some.inj hr).symm⟩
    next => exact .inr hr
  have hlive (id : ℕ) (hid : id < s.cuda.next) :
      (s.allocated bytes).cuda.live id = s.cuda.live id :=
    Function.update_of_ne hid.ne _ _
  constructor
  · exact hs.fresh.alloc .deviceBuffer bytes
  · exact hs.unmisused
  · exact hs.freeing
  · exact hs.intact
  · intro r hr
    have hlt : s.nextRecord < r := hr
    exact (Function.update_of_ne hlt.ne' _ _).trans (hs.recorded r hlt.le)
  · intro h r hh
    obtain ⟨buf, hr⟩ := hs.held h r hh
    exact ⟨buf, (Function.update_of_ne (hs.lt_nextRecord hr).ne _ _).trans hr⟩
  · exact hs.alone
  · intro r buf hr
    rcases hrecords r buf hr with ⟨rfl, rfl⟩ | hr
    · exact ⟨s.cuda.next, rfl, Function.update_self ..⟩
    · obtain ⟨id, hid, hlive'⟩ := hs.live r buf hr
      exact ⟨id, hid, (hlive id (hs.lt_next hr hid)).trans hlive'⟩
  · intro r r' buf buf' hr hr' hptr
    have hnew (r : ℕ) (buf : GpuBufferHandle) (hr : s.records r = some buf) :
        buf.ptr ≠ some s.cuda.next := fun hid => lt_irrefl _ (hs.lt_next hr hid)
    rcases hrecords r buf hr with ⟨rfl, rfl⟩ | hr
    · rcases hrecords r' buf' hr' with ⟨rfl, rfl⟩ | hr'
      · rfl
      · exact absurd hptr.symm (hnew r' buf' hr')
    · rcases hrecords r' buf' hr' with ⟨rfl, rfl⟩ | hr'
      · exact absurd hptr (hnew r buf hr)
      · exact hs.apart r r' buf buf' hr hr' hptr
  · exact hs.once
  · intro id hid
    obtain ⟨hlt, hnone⟩ := hs.gone id hid
    exact ⟨Nat.lt_succ_of_lt hlt, (hlive id hlt).trans hnone⟩

/-- An external pointer for a record that no other has. -/
theorem BuffersSound.pointed (hs : BuffersSound s) (hr : s.records r = some buf)
    (hnot : ∀ h, s.handles h ≠ some r) {nextHandle : ℕ} (h : ℕ) :
    BuffersSound { s with handles := Function.update s.handles h (some r), nextHandle } where
  fresh := hs.fresh
  unmisused := hs.unmisused
  freeing := hs.freeing
  intact := hs.intact
  recorded := hs.recorded
  held h' r' hh' := by
    dsimp only at hh'
    rw [Function.update_apply] at hh'
    split at hh'
    next => exact ⟨buf, Option.some.inj hh' ▸ hr⟩
    next => exact hs.held h' r' hh'
  alone h₁ h₂ r' h₁r h₂r := by
    dsimp only at h₁r h₂r
    rw [Function.update_apply] at h₁r h₂r
    split at h₁r
    next heq₁ =>
      split at h₂r
      next heq₂ => exact heq₁.trans heq₂.symm
      next => exact absurd (h₂r.trans h₁r.symm) (hnot h₂)
    next =>
      split at h₂r
      next => exact absurd (h₁r.trans h₂r.symm) (hnot h₁)
      next => exact hs.alone h₁ h₂ r' h₁r h₂r
  live := hs.live
  apart := hs.apart
  once := hs.once
  gone := hs.gone

/-- The size recorded is that of the buffer. -/
theorem BuffersSound.size? (hs : BuffersSound s) (hr : s.records r = some buf) :
    s.cuda.size? .deviceBuffer buf.ptr = some buf.size_bytes :=
  (Cuda.size?_eq_some _ _ _).mpr (hs.live r buf hr)

/-- What is within the size recorded is within the buffer. -/
theorem BuffersSound.reaches (hs : BuffersSound s) (hr : s.records r = some buf) {bytes : ℕ}
    (hle : bytes ≤ buf.size_bytes) : s.cuda.reaches buf.ptr bytes = true := by
  simp [Cuda.reaches, hs.size? hr, hle]

theorem BuffersSound.onDevice (hs : BuffersSound s) {α : Type} {x : MemberM α}
    (hx : Keeps (OnlyUses s.cuda) x) (context : RunContext) :
    Meets (onDevice context x) s (fun _ t => BuffersSound t) fun _ t => BuffersSound t := by
  have hafter (m : Member) (hm : OnlyUses s.cuda m) : BuffersSound { s with cuda := m.cuda.tick } :=
    hs.others (SameBuffers.spares (SameBuffers.trans hm (.tick m.cuda)))
  rw [meets_onDevice]
  exact (hx ⟨context, s.cuda⟩ (.refl s.cuda)).mono (fun _ m hm => hafter m hm) fun _ m hm =>
    hafter m hm

end

end RCompss.Kernels
