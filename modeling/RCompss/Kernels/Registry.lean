import RCompss.Kernels.ContextManager

/-! What the calls of the manager do to names and addresses, whatever the contexts do. -/
namespace RCompss.Kernels
open RCompss.Library

/-- The registry of contexts and the addresses that are alive; those made for the registry
are `some true`. -/
structure Registry where
  mpInstance : Option Manager
  alive : Ptr → Option Bool
  next : Ptr
  misused : Bool

def World.registry {b : Build} (w : World b) : Registry :=
  ⟨w.mpInstance, fun p => (w.heap p).map Cell.registry, w.next, w.misused⟩

namespace Registry

def initial : Registry := ⟨none, fun _ => none, 1, false⟩

/-- The first call makes the manager with its default context. -/
def started (s : Registry) : Registry :=
  { s with
    mpInstance := some ⟨AList.insert defaultName s.next ∅, s.next, nullptr⟩
    alive := Function.update s.alive s.next (some true)
    next := s.next + 1 }

/-- A manager, made if there is none. -/
def withInstance (s : Registry) : Registry := if s.mpInstance.isNone then s.started else s

/-- A new context under a name, in place of any other. -/
def created (s : Registry) (m : Manager) (name : Text) : Registry :=
  { s with
    mpInstance := some { m with mContexts := m.mContexts.insert name s.next }
    alive := Function.update s.alive s.next (some true)
    next := s.next + 1 }

def activated (s : Registry) (m : Manager) (p : Ptr) : Registry :=
  { s with mpInstance := some { m with mpCurrentContext := p } }

/-- An entry and its context are gone. -/
def erased (s : Registry) (m : Manager) (name : Text) (p : Ptr) : Registry :=
  { s with
    mpInstance := some { m with mContexts := m.mContexts.erase name }
    alive := Function.update s.alive p none }

/-- A context for GPU work outside the registry. -/
def equipped (s : Registry) (m : Manager) : Registry :=
  { s with
    mpInstance := some { m with mpGPUContext := s.next }
    alive := Function.update s.alive s.next (some false)
    next := s.next + 1 }

def destroyed (s : Registry) (m : Manager) : Registry :=
  { s with
    mpInstance := none
    alive := fun p => if p ∈ m.pointers ∨ p = m.mpGPUContext then none else s.alive p }

end Registry

/-- Every address in use is alive, and no context has two names. -/
structure RegistrySound (s : Registry) : Prop where
  used : s.misused = false
  positive : 0 < s.next
  null : s.alive nullptr = none
  fresh : ∀ p, s.next ≤ p → s.alive p = none
  registered : ∀ m, s.mpInstance = some m → ∀ name p, m.mContexts.lookup name = some p →
    s.alive p = some true
  distinct : ∀ m, s.mpInstance = some m → ∀ name name' p, m.mContexts.lookup name = some p →
    m.mContexts.lookup name' = some p → name = name'
  current : ∀ m, s.mpInstance = some m → s.alive m.mpCurrentContext ≠ none
  gpu : ∀ m, s.mpInstance = some m →
    m.mpGPUContext = nullptr ∨ s.alive m.mpGPUContext = some false

/-- What a property has to be kept by to be kept by every call: the changes a call can make,
where `mayInsert` and `mayErase` allow a name. -/
structure RegistryRules (I : Registry → Prop) (mayInsert : Manager → Text → Prop)
    (mayErase : Text → Prop) : Prop where
  sound : ∀ s, I s → RegistrySound s
  start : ∀ s, I s → s.mpInstance = none → I s.started
  create : ∀ s m name, I s → s.mpInstance = some m → mayInsert m name → I (s.created m name)
  activate : ∀ s m name p, I s → s.mpInstance = some m → m.mContexts.lookup name = some p →
    I (s.activated m p)
  erase : ∀ s m name p, I s → s.mpInstance = some m → m.mContexts.lookup name = some p →
    m.mpCurrentContext ≠ p → mayErase name → I (s.erased m name p)
  equip : ∀ s m, I s → s.mpInstance = some m → m.mpGPUContext = nullptr → I (s.equipped m)
  destroy : ∀ s m, I s → s.mpInstance = some m → I (s.destroyed m)

/-- The names a call creates and deletes are allowed. -/
structure Allows (mayInsert : Manager → Text → Prop) (mayErase : Text → Prop) (s : Registry)
    (op : ManagerOp) : Prop where
  insert : ∀ name, op = .createRunContext name → ∀ m, s.withInstance.mpInstance = some m →
    mayInsert m name
  erase : ∀ name, op = .deleteRunContext name → ∀ m, s.withInstance.mpInstance = some m →
    (name = defaultName → m.mContexts.lookup name ≠ some m.mpCurrentContext) → mayErase name

theorem mem_pointers_iff {m : Manager} {p : Ptr} :
    p ∈ m.pointers ↔ ∃ name, m.mContexts.lookup name = some p := by
  unfold Manager.pointers
  constructor
  · intro h
    obtain ⟨⟨name, q⟩, hmem, rfl⟩ := List.mem_map.mp h
    exact ⟨name, AList.mem_lookup_iff.mpr hmem⟩
  · rintro ⟨name, h⟩
    exact List.mem_map.mpr ⟨⟨name, p⟩, AList.mem_lookup_iff.mp h, rfl⟩

namespace RegistrySound
variable {s : Registry} {m : Manager}

theorem ne_nullptr (h : RegistrySound s) {p : Ptr} {r : Bool} (hp : s.alive p = some r) :
    p ≠ nullptr := by
  rintro rfl
  rw [h.null] at hp
  contradiction

theorem alive_ne_next (h : RegistrySound s) {p : Ptr} {r : Bool} (hp : s.alive p = some r) :
    p ≠ s.next := by
  rintro rfl
  rw [h.fresh _ le_rfl] at hp
  contradiction

/-- Each context is deleted once when the registry goes. -/
theorem nodup_pointers (h : RegistrySound s) (hm : s.mpInstance = some m) :
    m.pointers.Nodup := by
  refine List.Nodup.map_on ?_ ?_
  · rintro ⟨name, p⟩ hp ⟨name', p'⟩ hp' (heq : p = p')
    subst heq
    have hname := h.distinct m hm name name' p (AList.mem_lookup_iff.mpr hp)
      (AList.mem_lookup_iff.mpr hp')
    rw [hname]
  · exact m.mContexts.nodupKeys.nodup

end RegistrySound

/-- Giving out the next address. -/
theorem alive_update {s : Registry} (h : RegistrySound s) (r : Bool) :
    (Function.update s.alive s.next (some r) nullptr = none) ∧
      (∀ p, s.next + 1 ≤ p → Function.update s.alive s.next (some r) p = none) ∧
        ∀ p r', s.alive p = some r' → Function.update s.alive s.next (some r) p = some r' := by
  refine ⟨?_, fun p hp => ?_, fun p r' hp => ?_⟩
  · have hne : nullptr ≠ s.next := h.positive.ne
    rw [Function.update_of_ne hne, h.null]
  · rw [Function.update_of_ne (Nat.lt_of_succ_le hp).ne', h.fresh p (Nat.le_of_succ_le hp)]
  · rw [Function.update_of_ne (h.alive_ne_next hp), hp]

theorem RegistrySound.started {s : Registry} (h : RegistrySound s) : RegistrySound s.started := by
  obtain ⟨hnull, hfresh, -⟩ := alive_update h true
  have hself : Function.update s.alive s.next (some true) s.next = some true :=
    Function.update_self ..
  have hlookup {name : Text} {p : Ptr}
      (hp : (AList.insert defaultName s.next ∅ : AList fun _ : Text => Ptr).lookup name = some p) :
      name = defaultName ∧ p = s.next := by
    by_cases hname : name = defaultName
    · subst hname
      rw [AList.lookup_insert] at hp
      exact ⟨rfl, (Option.some.inj hp).symm⟩
    · rw [AList.lookup_insert_ne hname, AList.lookup_empty] at hp
      contradiction
  refine ⟨h.used, Nat.succ_pos _, hnull, hfresh, ?_, ?_, ?_, ?_⟩
  · rintro m ⟨⟩ name p hp
    rw [(hlookup hp).2]
    exact hself
  · rintro m ⟨⟩ name name' p hp hp'
    exact (hlookup hp).1.trans (hlookup hp').1.symm
  · rintro m ⟨⟩
    exact ne_of_eq_of_ne hself (Option.some_ne_none _)
  · rintro m ⟨⟩
    exact .inl rfl

section
variable {s : Registry} {m : Manager}

theorem RegistrySound.created (h : RegistrySound s) (hm : s.mpInstance = some m) (name : Text) :
    RegistrySound (s.created m name) := by
  obtain ⟨hnull, hfresh, hkept⟩ := alive_update h true
  have hself : Function.update s.alive s.next (some true) s.next = some true :=
    Function.update_self ..
  have hold {name' : Text} {p : Ptr} (hp : (m.mContexts.insert name s.next).lookup name' = some p)
      (hne : p ≠ s.next) : m.mContexts.lookup name' = some p := by
    by_cases hname : name' = name
    · subst hname
      rw [AList.lookup_insert] at hp
      exact absurd (Option.some.inj hp).symm hne
    · rwa [AList.lookup_insert_ne hname] at hp
  have hnew {name' : Text} (hp : (m.mContexts.insert name s.next).lookup name' = some s.next) :
      name' = name := by
    by_contra hname
    rw [AList.lookup_insert_ne hname] at hp
    exact h.alive_ne_next (h.registered m hm name' _ hp) rfl
  refine ⟨h.used, Nat.succ_pos _, hnull, hfresh, ?_, ?_, ?_, ?_⟩
  · rintro _ ⟨⟩ name' p hp
    by_cases hp' : p = s.next
    · rw [hp']
      exact hself
    · exact hkept p true (h.registered m hm name' p (hold hp hp'))
  · rintro _ ⟨⟩ name' name'' p hp hp'
    by_cases hpn : p = s.next
    · subst hpn
      exact (hnew hp).trans (hnew hp').symm
    · exact h.distinct m hm name' name'' p (hold hp hpn) (hold hp' hpn)
  · rintro _ ⟨⟩
    obtain ⟨r, hr⟩ := Option.ne_none_iff_exists'.mp (h.current m hm)
    exact ne_of_eq_of_ne (hkept _ r hr) (Option.some_ne_none _)
  · rintro _ ⟨⟩
    exact (h.gpu m hm).imp_right (hkept _ false)

theorem RegistrySound.activated (h : RegistrySound s) (hm : s.mpInstance = some m)
    {name : Text} {p : Ptr} (hp : m.mContexts.lookup name = some p) :
    RegistrySound (s.activated m p) := by
  refine ⟨h.used, h.positive, h.null, h.fresh, ?_, ?_, ?_, ?_⟩
  · rintro _ ⟨⟩
    exact h.registered m hm
  · rintro _ ⟨⟩
    exact h.distinct m hm
  · rintro _ ⟨⟩
    exact ne_of_eq_of_ne (h.registered m hm name p hp) (Option.some_ne_none _)
  · rintro _ ⟨⟩
    exact h.gpu m hm

theorem RegistrySound.erased (h : RegistrySound s) (hm : s.mpInstance = some m)
    {name : Text} {p : Ptr} (hp : m.mContexts.lookup name = some p)
    (hcurrent : m.mpCurrentContext ≠ p) : RegistrySound (s.erased m name p) := by
  have hold {name' : Text} {q : Ptr} (hq : (m.mContexts.erase name).lookup name' = some q) :
      m.mContexts.lookup name' = some q ∧ q ≠ p := by
    have hname : name' ≠ name := by
      rintro rfl
      rw [AList.lookup_erase] at hq
      contradiction
    rw [AList.lookup_erase_ne hname] at hq
    refine ⟨hq, ?_⟩
    rintro rfl
    exact hname (h.distinct m hm name' name q hq hp)
  have hkept {q : Ptr} (hq : q ≠ p) : Function.update s.alive p none q = s.alive q :=
    Function.update_of_ne hq ..
  refine ⟨h.used, h.positive, ?_, fun q hq => ?_, ?_, ?_, ?_, ?_⟩
  · exact (hkept (h.ne_nullptr (h.registered m hm name p hp)).symm).trans h.null
  · by_cases hqp : q = p
    · rw [hqp]
      exact Function.update_self ..
    · exact (hkept hqp).trans (h.fresh q hq)
  · rintro _ ⟨⟩ name' q hq
    exact (hkept (hold hq).2).trans (h.registered m hm name' q (hold hq).1)
  · rintro _ ⟨⟩ name' name'' q hq hq'
    exact h.distinct m hm name' name'' q (hold hq).1 (hold hq').1
  · rintro _ ⟨⟩
    exact ne_of_eq_of_ne (hkept hcurrent) (h.current m hm)
  · rintro _ ⟨⟩
    refine (h.gpu m hm).imp_right fun hgpu => (hkept ?_).trans hgpu
    intro heq
    rw [heq, h.registered m hm name p hp] at hgpu
    contradiction

theorem RegistrySound.equipped (h : RegistrySound s) (hm : s.mpInstance = some m) :
    RegistrySound (s.equipped m) := by
  obtain ⟨hnull, hfresh, hkept⟩ := alive_update h false
  refine ⟨h.used, Nat.succ_pos _, hnull, hfresh, ?_, ?_, ?_, ?_⟩
  · rintro _ ⟨⟩ name p hp
    exact hkept p true (h.registered m hm name p hp)
  · rintro _ ⟨⟩
    exact h.distinct m hm
  · rintro _ ⟨⟩
    obtain ⟨r, hr⟩ := Option.ne_none_iff_exists'.mp (h.current m hm)
    exact ne_of_eq_of_ne (hkept _ r hr) (Option.some_ne_none _)
  · rintro _ ⟨⟩
    exact .inr (Function.update_self ..)

theorem RegistrySound.destroyed (h : RegistrySound s) (m : Manager) :
    RegistrySound (s.destroyed m) := by
  refine ⟨h.used, h.positive, ?_, fun p hp => ?_, nofun, nofun, nofun, nofun⟩
  · change (if _ then none else s.alive nullptr) = none
    rw [h.null, ite_self]
  · change (if _ then none else s.alive p) = none
    rw [h.fresh p hp, ite_self]

end

/-- The manager after `GetInstance`: the one there was, or one with its default context. -/
theorem Registry.withInstance_cases {s : Registry} {m : Manager}
    (h : s.withInstance.mpInstance = some m) :
    (s.mpInstance = none ∧ m = ⟨AList.insert defaultName s.next ∅, s.next, nullptr⟩) ∨
      s.mpInstance = some m := by
  unfold Registry.withInstance at h
  rcases hs : s.mpInstance with _ | m'
  · rw [hs] at h
    exact .inl ⟨rfl, (Option.some.inj h).symm⟩
  · rw [hs] at h
    exact .inr (hs.symm.trans h)

theorem RegistrySound.initial : RegistrySound Registry.initial :=
  ⟨rfl, Nat.one_pos, rfl, fun _ _ => rfl, nofun, nofun, nofun, nofun⟩

/-- Soundness itself is kept by every change. -/
theorem soundRules : RegistryRules RegistrySound (fun _ _ => True) fun _ => True where
  sound _ h := h
  start _ h _ := h.started
  create _ _ name h hm _ := h.created hm name
  activate _ _ _ _ h hm hp := h.activated hm hp
  erase _ _ _ _ h hm hp hcurrent _ := h.erased hm hp hcurrent
  equip _ _ h hm _ := h.equipped hm
  destroy _ m h _ := h.destroyed m

section
variable {b : Build} {w : World b}

theorem registry_update {p : Ptr} {cell : Cell b} (h : w.heap p = some cell) (cell' : Cell b)
    (hcell : cell'.registry = cell.registry) (env : b.Env) :
    ({ w with heap := Function.update w.heap p (some cell'), env } : World b).registry =
      w.registry := by
  have hheap : (fun q => (Function.update w.heap p (some cell') q).map Cell.registry) =
      fun q => (w.heap q).map Cell.registry := by
    funext q
    by_cases hq : q = p
    · subst hq
      simp [h, hcell]
    · rw [Function.update_of_ne hq]
  simp only [World.registry, hheap]

theorem heap_of_alive {p : Ptr} {r : Bool} (h : w.registry.alive p = some r) :
    ∃ cell, w.heap p = some cell ∧ cell.registry = r :=
  Option.map_eq_some_iff.mp h

theorem meets_deref {p : Ptr} {r : Bool} (h : w.registry.alive p = some r)
    {Q : Cell b → World b → Prop} {E : ManagerError → World b → Prop}
    (hQ : ∀ cell, w.heap p = some cell → Q cell w) : Meets (deref p) w Q E := by
  obtain ⟨cell, hcell, -⟩ := heap_of_alive h
  rw [deref, meets_bind, meets_get, hcell]
  exact hQ cell hcell

/-- A member call on a context that is alive leaves the registry, returned or thrown. -/
theorem onContext_registry {p : Ptr} {r : Bool} (h : w.registry.alive p = some r)
    (op : ContextOp) :
    Meets (onContext p op) w (fun _ w' => w'.registry = w.registry)
      fun _ w' => w'.registry = w.registry := by
  rw [onContext, meets_bind]
  refine meets_deref h fun cell hcell => ?_
  rw [meets_bind, meets_get]
  have hkept (context : b.Context) (env : b.Env) :=
    registry_update hcell { cell with context } rfl env
  rcases b.call op cell.context w.env with ⟨_ | _, context, env⟩
  · exact hkept context env
  · exact hkept context env

theorem newContext_registry (p : OperationPlacement) (mode : RunMode) (r : Bool) :
    Meets (newContext p mode r) w
      (fun q w' => q = w.registry.next ∧ w'.registry = { w.registry with
        alive := Function.update w.registry.alive w.registry.next (some r)
        next := w.registry.next + 1 })
      fun _ w' => p ≠ .CPU ∧ w'.registry = w.registry := by
  rw [newContext, meets_bind, meets_get]
  rcases hnew : b.construct p mode w.env with ⟨e | c, env⟩
  · refine ⟨?_, rfl⟩
    rintro rfl
    obtain ⟨c, env', hcpu⟩ := b.construct_cpu mode w.env
    rw [hnew] at hcpu
    cases hcpu
  · refine ⟨rfl, ?_⟩
    have hheap : (fun q => (Function.update w.heap w.next (some ⟨c, r⟩) q).map Cell.registry) =
        Function.update (fun q => (w.heap q).map Cell.registry) w.next (some r) := by
      funext q
      by_cases hq : q = w.next
      · simp [hq]
      · rw [Function.update_of_ne hq, Function.update_of_ne hq]
    simp only [World.registry, hheap]

theorem deleteContext_registry {p : Ptr} (h : p = nullptr ∨ w.registry.alive p ≠ none)
    (hnull : w.registry.alive nullptr = none) :
    Meets (deleteContext p) w (fun _ w' => w'.registry =
      { w.registry with alive := Function.update w.registry.alive p none }) fun _ _ => False := by
  rw [deleteContext, meets_onlyIf]
  split
  next hp =>
    obtain ⟨r, hr⟩ := Option.ne_none_iff_exists'.mp (h.resolve_left hp)
    rw [meets_bind]
    refine meets_deref hr fun cell hcell => ?_
    rw [meets_modify]
    have hheap : (fun q => (Function.update w.heap p none q).map Cell.registry) =
        Function.update (fun q => (w.heap q).map Cell.registry) p none := by
      funext q
      by_cases hq : q = p
      · simp [hq]
      · rw [Function.update_of_ne hq, Function.update_of_ne hq]
    simp only [World.registry, hheap]
  next hp =>
    rw [not_not] at hp
    subst hp
    rw [Function.update_eq_self_iff.mpr hnull.symm]

theorem meets_this {m : Manager} (hm : w.registry.mpInstance = some m)
    {Q : Manager → World b → Prop} {E : ManagerError → World b → Prop} :
    Meets ContextManager.this w Q E ↔ Q m w := by
  have hw : w.mpInstance = some m := hm
  rw [ContextManager.this, meets_bind, meets_get, hw]
  rfl

theorem meets_getContext {m : Manager} (hm : w.registry.mpInstance = some m) (name : Text)
    {Q : Ptr → World b → Prop} {E : ManagerError → World b → Prop} :
    Meets (ContextManager.getContext name) w Q E ↔
      match m.mContexts.lookup name with
      | none => E (.noStream name) w
      | some p => Q p w := by
  rw [ContextManager.getContext, meets_bind, meets_this hm]
  rcases m.mContexts.lookup name with _ | p <;> rfl

theorem meets_getContext_of_lookup {m : Manager} (hm : w.registry.mpInstance = some m)
    {name : Text} {p : Ptr} (hp : m.mContexts.lookup name = some p)
    {Q : Ptr → World b → Prop} {E : ManagerError → World b → Prop} :
    Meets (ContextManager.getContext name) w Q E ↔ Q p w := by
  rw [meets_getContext hm, hp]

theorem registry_modifyInstance {m : Manager} (hm : w.registry.mpInstance = some m)
    (f : Manager → Manager) : ({ w with mpInstance := w.mpInstance.map f } : World b).registry =
      { w.registry with mpInstance := some (f m) } := by
  have hw : w.mpInstance = some m := hm
  simp only [World.registry, hw, Option.map_some]

theorem getInstance_registry :
    Meets ContextManager.getInstance w (fun _ w' => w'.registry = w.registry.withInstance)
      fun _ _ => False := by
  rw [ContextManager.getInstance, meets_bind, meets_get, meets_onlyIf]
  rcases hw : w.mpInstance with _ | m
  · have hinstance : w.registry.mpInstance = none := hw
    have hstart : w.registry.withInstance = w.registry.started := by
      rw [Registry.withInstance, hinstance]
      rfl
    rw [Option.isNone_none, if_pos rfl, meets_bind, meets_set, meets_bind]
    refine (newContext_registry .CPU .SYNC true).mono (fun p w' hw' => ?_)
      fun _ _ he => he.1 rfl
    obtain ⟨rfl, hw'⟩ := hw'
    have hm' : w'.registry.mpInstance = some ⟨∅, nullptr, nullptr⟩ := by rw [hw']; rfl
    rw [meets_bind, modifyInstance, meets_modify, modifyInstance, meets_modify]
    rw [registry_modifyInstance (m := ⟨AList.insert defaultName w.next ∅, nullptr, nullptr⟩)
      (by rw [registry_modifyInstance hm']; rfl), registry_modifyInstance hm', hw', hstart]
    simp only [AList.lookup_insert, Option.getD_some]
    rfl
  · rw [Option.isNone_some, if_neg nofun]
    have hinstance : w.registry.mpInstance = some m := hw
    rw [Registry.withInstance, hinstance]
    rfl

end
end RCompss.Kernels
