import RCompss.Library.Runs

/-! Tasks that pass values through places written once. Any order of their steps that keeps to
the dependencies leaves in a place what the program leaves there when its tasks run one after
the other. -/
namespace RCompss.Library

/-- A task writes one place, and nothing matters to it but the places it reads. -/
structure DataTask (L V : Type) where
  reads : Set L
  output : L
  eval : (L → Option V) → Option V
  depends : ∀ σ τ, (∀ l ∈ reads, σ l = τ l) → eval σ = eval τ

/-- Tasks at work. -/
structure Dataflow (L V : Type) where
  store : L → Option V
  /-- The tasks submitted, the latest first. -/
  program : List (DataTask L V)
  /-- The places written for good. -/
  settled : Set L
  /-- Of the running task that writes a place, the stores since it started. -/
  running : L → Option (List (L → Option V))

inductive DataflowStep (L V : Type) where
  /-- The program itself writes a place. -/
  | put (l : L) (v : Option V)
  | submit (t : DataTask L V)
  | start (t : DataTask L V)
  /-- A running task leaves something unfinished in its place. -/
  | scribble (l : L) (left : Option V)
  /-- What the task made of the places it read: of each, at some time since its start. -/
  | finish (t : DataTask L V) (view : L → Option V)
  | fail (t : DataTask L V)

section
variable {L V : Type}

/-- The places a program writes. -/
def targets (p : List (DataTask L V)) : List L := p.map DataTask.output

/-- Each task writes a place of its own, and reads what was written before. -/
inductive WriteOnce : List (DataTask L V) → Prop
  | nil : WriteOnce []
  | cons {t : DataTask L V} {p : List (DataTask L V)} (fresh : t.output ∉ targets p)
      (known : ∀ l ∈ t.reads, l ∈ targets p) (rest : WriteOnce p) : WriteOnce (t :: p)

/-- The task that writes what is given. -/
def DataTask.const (l : L) (v : Option V) : DataTask L V where
  reads := ∅
  output := l
  eval _ := v
  depends _ _ _ := rfl

variable {p : List (DataTask L V)} {t u : DataTask L V}

theorem WriteOnce.reads_known (h : WriteOnce p) (ht : t ∈ p) : ∀ l ∈ t.reads, l ∈ targets p := by
  induction h with
  | nil => cases ht
  | cons _ known _ ih =>
    intro l hl
    rcases List.mem_cons.mp ht with rfl | ht
    · exact List.mem_cons_of_mem _ (known l hl)
    · exact List.mem_cons_of_mem _ (ih ht l hl)

/-- Two tasks of a program that write the same place are the same. -/
theorem WriteOnce.output_inj (h : WriteOnce p) (ht : t ∈ p) (hu : u ∈ p)
    (heq : t.output = u.output) : t = u := by
  induction h with
  | nil => cases ht
  | cons fresh _ _ ih =>
    rcases List.mem_cons.mp ht with rfl | ht' <;> rcases List.mem_cons.mp hu with rfl | hu'
    · rfl
    · exact absurd (List.mem_map_of_mem hu') (heq ▸ fresh)
    · exact absurd (List.mem_map_of_mem ht') (heq ▸ fresh)
    · exact ih ht' hu'

/-- What was submitted before a task makes a program of its own. -/
theorem WriteOnce.suffix {q : List (DataTask L V)} (h : WriteOnce (q ++ p)) : WriteOnce p := by
  induction q with
  | nil => exact h
  | cons u q ih =>
    cases h with
    | cons _ _ rest => exact ih rest

variable [DecidableEq L]

/-- The store when the tasks run one after the other, in the order of their submission. -/
def sequential : List (DataTask L V) → L → Option V
  | [] => fun _ => none
  | t :: p => Function.update (sequential p) t.output (t.eval (sequential p))

variable {l m : L} {v : Option V}

theorem sequential_of_ne (h : l ≠ t.output) : sequential (t :: p) l = sequential p l :=
  Function.update_of_ne h _ _

/-- A further task changes nothing that was there. -/
theorem WriteOnce.sequential_cons (h : WriteOnce (t :: p)) (hl : l ∈ targets p) :
    sequential (t :: p) l = sequential p l := by
  cases h with
  | cons fresh _ _ =>
    apply sequential_of_ne
    rintro rfl
    exact fresh hl

/-- And so do further tasks. -/
theorem WriteOnce.sequential_append {q : List (DataTask L V)} (h : WriteOnce (q ++ p))
    (hl : l ∈ targets p) : sequential (q ++ p) l = sequential p l := by
  induction q with
  | nil => rfl
  | cons u q ih =>
    have hkeep : l ∈ targets (q ++ p) := by
      unfold targets at hl ⊢
      rw [List.map_append]
      exact List.mem_append_right _ hl
    exact (h.sequential_cons hkeep).trans (ih (WriteOnce.suffix (q := [u]) h))

/-- In the end each place still holds what its task makes of the places it reads. -/
theorem WriteOnce.sequential_output (h : WriteOnce p) (ht : t ∈ p) :
    sequential p t.output = t.eval (sequential p) := by
  induction p with
  | nil => cases ht
  | cons u p ih =>
    have hkeep : ∀ l ∈ targets p, sequential (u :: p) l = sequential p l := fun l hl =>
      h.sequential_cons hl
    cases h with
    | cons fresh known rest =>
      rcases List.mem_cons.mp ht with rfl | ht
      · have hself : sequential (t :: p) t.output = t.eval (sequential p) :=
          Function.update_self _ _ _
        rw [hself]
        exact t.depends _ _ fun l hl => (hkeep l (known l hl)).symm
      · rw [hkeep t.output (List.mem_map_of_mem ht), ih rest ht]
        exact t.depends _ _ fun l hl => (hkeep l (rest.reads_known ht l hl)).symm

namespace Dataflow

def start (store : L → Option V) : Dataflow L V := ⟨store, [], ∅, fun _ => none⟩

/-- Every running task may see what is written. -/
def write (s : Dataflow L V) (l : L) (v : Option V) : Dataflow L V :=
  let store := Function.update s.store l v
  { s with
    store := store
    running := fun m => (s.running m).map (store :: ·) }

def step : DataflowStep L V → Dataflow L V → Dataflow L V
  | .put l v, s =>
      { s.write l v with
        program := .const l v :: s.program
        settled := insert l s.settled }
  | .submit t, s => { s with program := t :: s.program }
  | .start t, s => { s with running := Function.update s.running t.output (some [s.store]) }
  | .scribble l left, s => s.write l left
  | .finish t view, s =>
      let written := s.write t.output (t.eval view)
      { written with
        settled := insert t.output s.settled
        running := Function.update written.running t.output none }
  | .fail t, s => { s with running := Function.update s.running t.output none }

/-- A new place is written and new places are read only once; a task starts when what it reads
is settled, and ends with what it makes of what it saw. -/
def Allowed (s : Dataflow L V) : DataflowStep L V → Prop
  | .put l _ => l ∉ targets s.program
  | .submit t => t.output ∉ targets s.program ∧ ∀ l ∈ t.reads, l ∈ targets s.program
  | .start t => t ∈ s.program ∧ t.reads ⊆ s.settled ∧ t.output ∉ s.settled
  | .scribble l _ => (s.running l).isSome
  | .finish t view => t ∈ s.program ∧ ∃ stores,
      s.running t.output = some stores ∧ ∀ l ∈ t.reads, ∃ σ ∈ stores, view l = σ l
  | .fail _ => True

/-- Settled places hold what they hold sequentially, and a running task has seen nothing else
in the places it reads. -/
structure Sound (s : Dataflow L V) : Prop where
  writeOnce : WriteOnce s.program
  known : ∀ l ∈ s.settled, l ∈ targets s.program
  settled : ∀ l ∈ s.settled, s.store l = sequential s.program l
  closed : ∀ t ∈ s.program, t.output ∈ s.settled → t.reads ⊆ s.settled
  submitted : ∀ l stores, s.running l = some stores → l ∈ targets s.program
  unsettled : ∀ l stores, s.running l = some stores → l ∉ s.settled
  ready : ∀ t ∈ s.program, ∀ stores, s.running t.output = some stores → t.reads ⊆ s.settled
  seen : ∀ t ∈ s.program, ∀ stores, s.running t.output = some stores →
    ∀ σ ∈ stores, ∀ l ∈ t.reads, σ l = sequential s.program l

theorem sound_start (store : L → Option V) : Sound (start store) where
  writeOnce := .nil
  known _ hl := hl.elim
  settled _ hl := hl.elim
  closed _ ht := by cases ht
  submitted _ _ h := by cases h
  unsettled _ _ h := by cases h
  ready _ ht := by cases ht
  seen _ ht := by cases ht

variable {s : Dataflow L V}

theorem running_write {stores : List (L → Option V)} (h : (s.write l v).running m = some stores) :
    ∃ before, s.running m = some before ∧
      stores = Function.update s.store l v :: before := by
  obtain ⟨before, hbefore, hstores⟩ := Option.map_eq_some_iff.mp h
  exact ⟨before, hbefore, hstores.symm⟩

/-- Places that are not settled can be written at will. -/
theorem Sound.write (h : Sound s) (hl : l ∉ s.settled) : Sound (s.write l v) where
  writeOnce := h.writeOnce
  known := h.known
  settled m hm := by
    have hne : m ≠ l := by
      rintro rfl
      exact hl hm
    have hstore : (s.write l v).store m = s.store m := Function.update_of_ne hne _ _
    rw [hstore]
    exact h.settled m hm
  closed := h.closed
  submitted m stores hrun := by
    obtain ⟨before, hbefore, -⟩ := running_write hrun
    exact h.submitted m before hbefore
  unsettled m stores hrun := by
    obtain ⟨before, hbefore, -⟩ := running_write hrun
    exact h.unsettled m before hbefore
  ready t ht stores hrun := by
    obtain ⟨before, hbefore, -⟩ := running_write hrun
    exact h.ready t ht before hbefore
  seen t ht stores hrun := by
    obtain ⟨before, hbefore, rfl⟩ := running_write hrun
    intro σ hσ m hm
    rcases List.mem_cons.mp hσ with rfl | hσ
    · have hsettled := h.ready t ht before hbefore hm
      have hne : m ≠ l := by
        rintro rfl
        exact hl hsettled
      rw [Function.update_of_ne hne]
      exact h.settled m hsettled
    · exact h.seen t ht before hbefore σ hσ m hm

/-- So can a task be submitted that writes a new place. -/
theorem Sound.submit (h : Sound s) (hfresh : t.output ∉ targets s.program)
    (hknown : ∀ l ∈ t.reads, l ∈ targets s.program) :
    Sound { s with program := t :: s.program } := by
  have honce : WriteOnce (t :: s.program) := .cons hfresh hknown h.writeOnce
  have hold : ∀ u ∈ t :: s.program, ∀ stores, s.running u.output = some stores →
      u ∈ s.program := by
    intro u hu stores hrun
    rcases List.mem_cons.mp hu with rfl | hu
    · exact absurd (h.submitted _ _ hrun) hfresh
    · exact hu
  constructor
  case writeOnce => exact honce
  case known => exact fun l hl => List.mem_cons_of_mem _ (h.known l hl)
  case settled =>
    intro l hl
    rw [honce.sequential_cons (h.known l hl)]
    exact h.settled l hl
  case closed =>
    intro u hu hdone
    rcases List.mem_cons.mp hu with rfl | hu
    · exact absurd (h.known _ hdone) hfresh
    · exact h.closed u hu hdone
  case submitted => exact fun l stores hrun => List.mem_cons_of_mem _ (h.submitted l stores hrun)
  case unsettled => exact h.unsettled
  case ready => exact fun u hu stores hrun => h.ready u (hold u hu stores hrun) stores hrun
  case seen =>
    intro u hu stores hrun σ hσ l hl
    have hmem := hold u hu stores hrun
    rw [honce.sequential_cons (h.writeOnce.reads_known hmem l hl)]
    exact h.seen u hmem stores hrun σ hσ l hl

theorem running_stop {stores : List (L → Option V)}
    (h : Function.update s.running l none m = some stores) :
    m ≠ l ∧ s.running m = some stores := by
  by_cases hm : m = l
  · subst hm
    rw [Function.update_self] at h
    cases h
  · rw [Function.update_of_ne hm] at h
    exact ⟨hm, h⟩

/-- A running task can stop at any time. -/
theorem Sound.stop (h : Sound s) (l : L) :
    Sound { s with running := Function.update s.running l none } where
  writeOnce := h.writeOnce
  known := h.known
  settled := h.settled
  closed := h.closed
  submitted m stores hrun := h.submitted m stores (running_stop hrun).2
  unsettled m stores hrun := h.unsettled m stores (running_stop hrun).2
  ready t ht stores hrun := h.ready t ht stores (running_stop hrun).2
  seen t ht stores hrun := h.seen t ht stores (running_stop hrun).2

/-- And its place be settled once it holds what it is to hold. -/
theorem Sound.settle (h : Sound s) (hl : l ∈ targets s.program)
    (hstore : s.store l = sequential s.program l)
    (hreads : ∀ t ∈ s.program, t.output = l → t.reads ⊆ s.settled) :
    Sound { s with settled := insert l s.settled,
                   running := Function.update s.running l none } := by
  have hstopped := h.stop l
  constructor
  case writeOnce => exact h.writeOnce
  case known =>
    intro m hm
    rcases hm with rfl | hm
    · exact hl
    · exact h.known m hm
  case settled =>
    intro m hm
    rcases hm with rfl | hm
    · exact hstore
    · exact h.settled m hm
  case closed =>
    intro t ht hdone
    rcases hdone with hout | hdone
    · exact fun m hm => .inr (hreads t ht hout hm)
    · exact fun m hm => .inr (h.closed t ht hdone hm)
  case submitted => exact hstopped.submitted
  case unsettled =>
    intro m stores hrun hm
    rcases hm with rfl | hm
    · exact (running_stop hrun).1 rfl
    · exact hstopped.unsettled m stores hrun hm
  case ready => exact fun t ht stores hrun m hm => .inr (hstopped.ready t ht stores hrun hm)
  case seen => exact hstopped.seen

theorem running_start {stores : List (L → Option V)}
    (h : Function.update s.running l (some [s.store]) m = some stores) :
    (m = l ∧ stores = [s.store]) ∨ s.running m = some stores := by
  by_cases hm : m = l
  · subst hm
    rw [Function.update_self] at h
    cases h
    exact .inl ⟨rfl, rfl⟩
  · rw [Function.update_of_ne hm] at h
    exact .inr h

/-- A task that starts has seen the store of its start. -/
theorem Sound.begin (h : Sound s) (ht : t ∈ s.program) (hready : t.reads ⊆ s.settled)
    (hopen : t.output ∉ s.settled) :
    Sound { s with running := Function.update s.running t.output (some [s.store]) } := by
  constructor
  case writeOnce => exact h.writeOnce
  case known => exact h.known
  case settled => exact h.settled
  case closed => exact h.closed
  case submitted =>
    intro m stores hrun
    rcases running_start hrun with ⟨rfl, -⟩ | hrun
    · exact List.mem_map_of_mem ht
    · exact h.submitted m stores hrun
  case unsettled =>
    intro m stores hrun
    rcases running_start hrun with ⟨rfl, -⟩ | hrun
    · exact hopen
    · exact h.unsettled m stores hrun
  case ready =>
    intro u hu stores hrun
    rcases running_start hrun with ⟨hout, -⟩ | hrun
    · exact h.writeOnce.output_inj hu ht hout ▸ hready
    · exact h.ready u hu stores hrun
  case seen =>
    intro u hu stores hrun σ hσ m hm
    rcases running_start hrun with ⟨hout, rfl⟩ | hrun
    · obtain rfl := List.mem_singleton.mp hσ
      obtain rfl := h.writeOnce.output_inj hu ht hout
      exact h.settled m (hready hm)
    · exact h.seen u hu stores hrun σ hσ m hm

/-- What a running task makes of what it saw is what it makes of the sequential store. -/
theorem Sound.eval_view (h : Sound s) (ht : t ∈ s.program) {stores : List (L → Option V)}
    (hrun : s.running t.output = some stores) {view : L → Option V}
    (hview : ∀ l ∈ t.reads, ∃ σ ∈ stores, view l = σ l) :
    t.eval view = sequential s.program t.output := by
  rw [h.writeOnce.sequential_output ht]
  apply t.depends
  intro l hl
  obtain ⟨σ, hσ, hsame⟩ := hview l hl
  rw [hsame]
  exact h.seen t ht stores hrun σ hσ l hl

theorem Sound.step (h : Sound s) {op : DataflowStep L V} (hop : Allowed s op) :
    Sound (step op s) := by
  cases op with
  | put l v =>
    have hopen : l ∉ s.settled := fun hl => hop (h.known l hl)
    have hwritten : Sound (s.write l v) := h.write hopen
    have hidle : (s.write l v).running l = none := by
      cases hrun : (s.write l v).running l with
      | none => rfl
      | some stores => exact absurd (hwritten.submitted l stores hrun) hop
    have hsubmitted := hwritten.submit (t := DataTask.const l v) hop fun _ hm => hm.elim
    have hsettled := hsubmitted.settle (l := l) List.mem_cons_self (by
      have hstore : (s.write l v).store l = v := Function.update_self _ _ _
      have hvalue : sequential (DataTask.const l v :: s.program) l = v :=
        Function.update_self _ _ _
      exact hstore.trans hvalue.symm) (by
      intro u hu hout
      obtain rfl := hsubmitted.writeOnce.output_inj hu List.mem_cons_self hout
      exact fun _ hm => hm.elim)
    have hrunning : Function.update (s.write l v).running l none =
        (s.write l v).running := Function.update_eq_self_iff.mpr hidle.symm
    rw [hrunning] at hsettled
    exact hsettled
  | submit t => exact h.submit hop.1 hop.2
  | start t => exact h.begin hop.1 hop.2.1 hop.2.2
  | scribble l left =>
    obtain ⟨stores, hrun⟩ := Option.isSome_iff_exists.mp hop
    exact h.write (h.unsettled l stores hrun)
  | finish t view =>
    obtain ⟨ht, stores, hrun, hview⟩ := hop
    have hwritten : Sound (s.write t.output (t.eval view)) :=
      h.write (h.unsettled t.output stores hrun)
    apply hwritten.settle (List.mem_map_of_mem ht)
    · have hstore : (s.write t.output (t.eval view)).store t.output = t.eval view :=
        Function.update_self _ _ _
      rw [hstore]
      exact h.eval_view ht hrun hview
    · intro u hu hout
      obtain rfl := h.writeOnce.output_inj hu ht hout
      exact h.ready u ht stores hrun
  | fail t => exact h.stop t.output

theorem sound_of_reached {store : L → Option V} (h : Reached step Allowed (start store) s) :
    Sound s :=
  h.keeps (sound_start store) fun _ _ hs hop => hs.step hop

/-- A settled place holds what its task makes of the places as they are. -/
theorem Sound.eval_store (h : Sound s) (ht : t ∈ s.program) (hdone : t.output ∈ s.settled) :
    s.store t.output = t.eval s.store := by
  rw [h.settled _ hdone, h.writeOnce.sequential_output ht]
  exact t.depends _ _ fun l hl => (h.settled l (h.closed t ht hdone hl)).symm

end Dataflow

end
end RCompss.Library
