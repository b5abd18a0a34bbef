import RCompss.Library.ReservedVector
import RCompss.Submission.Registration

/-! `register_core_element`: the arrays of C strings that the runtime is given for a core element,
and what it reads there. -/
namespace RCompss.Submission
open RCompss.Library

/-- The arrays of `char *`. -/
inductive StringArray where
  | pro | epi | cont | implTypeArgs
  deriving DecidableEq

/-- The address of a string's characters. -/
inductive StringAddress where
  /-- Of `prolog0` and so on, by the array that gets it. -/
  | variable (a : StringArray) (i : ℕ)
  /-- Of an element of `stypeArgStorage`. -/
  | element (slot : Slot)

/-- The local variables of `register_core_element`. -/
structure Registering where
  /-- The arrays from `new` that are not deleted. -/
  live : List StringArray
  size : StringArray → ℕ
  entry : StringArray → ℕ → Option StringAddress
  stypeArgStorage : ReservedVector Text

def Registering.start : Registering := ⟨[], fun _ => 0, fun _ _ => none, .empty⟩

abbrev RegisterM := Exec Registering Failure

/-- `a = new char *[n]`. -/
def newArray (a : StringArray) (n : ℕ) : RegisterM Unit := modify fun m =>
  { m with
    live := a :: m.live
    size := Function.update m.size a n
    entry := Function.update m.entry a fun _ => none }

/-- `a[i] = p`. -/
def setEntry (a : StringArray) (i : ℕ) (p : StringAddress) : RegisterM Unit := do
  let m ← get
  if a ∈ m.live ∧ i < m.size a then
    set { m with entry := Function.update m.entry a (Function.update (m.entry a) i (some p)) }
  else throw .undefined

/-- `delete[] a`. -/
def deleteArray (a : StringArray) : RegisterM Unit := do
  let m ← get
  if a ∈ m.live then set { m with live := m.live.erase a } else throw .undefined

/-- The first three texts, each in a variable, and their addresses in the array. -/
def storeTexts (a : StringArray) (texts : List Text) : RegisterM Unit := do
  if texts.length < 3 then throw .undefined
  setEntry a 0 (.variable a 0)
  setEntry a 1 (.variable a 1)
  setEntry a 2 (.variable a 2)

/-- The loop over the type arguments, from the `i`-th on. -/
def storeTypeArgs : ℕ → List Text → RegisterM Unit
  | _, [] => return
  | i, typeArg :: typeArgs => do
      modify fun m => { m with stypeArgStorage := m.stypeArgStorage.pushBack typeArg }
      match (← get).stypeArgStorage.slot? i with
      | some slot => setEntry .implTypeArgs i (.element slot)
      | none => throw .undefined
      storeTypeArgs (i + 1) typeArgs

/-- The texts for the elements of an array. -/
def CoreElement.texts (e : CoreElement) : StringArray → List Text
  | .pro => e.prolog
  | .epi => e.epilog
  | .cont => e.container
  | .implTypeArgs => e.typeArgs

/-- The characters up to the first NUL. -/
def cString (t : Text) : Text := t.takeWhile (· ≠ Char.ofNat 0)

def Registering.load (m : Registering) (e : CoreElement) : StringAddress → Option Text
  | .variable a i => (e.texts a)[i]?
  | .element slot => m.stypeArgStorage.load slot

/-- The C string under `a[i]`. -/
def Registering.read (m : Registering) (e : CoreElement) (a : StringArray) (i : ℕ) :
    Option Text := do
  let text ← m.load e (← m.entry a i)
  return cString text

/-- What `GS_RegisterCE` reads. -/
structure RegisteredElement where
  ceSignature : Text
  implSignature : Text
  /-- `nullptr` for no constraints. -/
  implConstraints : Option Text
  implType : Text
  implLocal : Text
  implIO : Text
  strings : StringArray → List Text

/-- The strings of all arrays, as the runtime reads them. -/
def Registering.strings (m : Registering) (e : CoreElement) (a : StringArray) :
    Option (List Text) :=
  (List.range (if a = .implTypeArgs then e.typeArgs.length else 3)).mapM (m.read e a)

def Registering.registered (m : Registering) (e : CoreElement) : Option RegisteredElement := do
  let pro ← m.strings e .pro
  let epi ← m.strings e .epi
  let cont ← m.strings e .cont
  let typeArgs ← m.strings e .implTypeArgs
  return {
    ceSignature := cString e.ceSignature
    implSignature := cString e.implSignature
    implConstraints := if e.implConstraints = [] then none else some (cString e.implConstraints)
    implType := cString e.implType
    implLocal := cString e.implLocal
    implIO := cString e.implIO
    strings := fun
      | .pro => pro
      | .epi => epi
      | .cont => cont
      | .implTypeArgs => typeArgs }

/-- The arrays. Without type arguments `ImplTypeArgs` stays a pointer to nothing. -/
def newArrays (e : CoreElement) : RegisterM Unit := do
  newArray .pro 3
  newArray .epi 3
  newArray .cont 3
  if 0 < e.typeArgs.length then
    newArray .implTypeArgs e.typeArgs.length

/-- The strings, and their addresses in the arrays. -/
def storeElement (e : CoreElement) : RegisterM Unit := do
  storeTexts .pro e.prolog
  storeTexts .epi e.epilog
  storeTexts .cont e.container
  modify fun m => { m with stypeArgStorage := m.stypeArgStorage.reserve e.typeArgs.length }
  storeTypeArgs 0 e.typeArgs

/-- The four `delete[]` at the end. -/
def deleteArrays : RegisterM Unit := do
  deleteArray .implTypeArgs
  deleteArray .pro
  deleteArray .epi
  deleteArray .cont

/-- `register_core_element`, with what the runtime reads in `GS_RegisterCE`. -/
def registerCoreElement (e : CoreElement) : RegisterM RegisteredElement := do
  newArrays e
  storeElement e
  let registered ← match (← get).registered e with
    | some registered => pure registered
    | none => throw .undefined
  deleteArrays
  return registered

/-- The element as it was given: of each array the texts that it has room for. -/
def CoreElement.given (e : CoreElement) : RegisteredElement where
  ceSignature := cString e.ceSignature
  implSignature := cString e.implSignature
  implConstraints := if e.implConstraints = [] then none else some (cString e.implConstraints)
  implType := cString e.implType
  implLocal := cString e.implLocal
  implIO := cString e.implIO
  strings a := match a with
    | .implTypeArgs => e.typeArgs.map cString
    | a => ((e.texts a).take 3).map cString

section
variable {m : Registering} {e : CoreElement} {a b : StringArray} {i n : ℕ} {p : StringAddress}
  {texts : List Text}

theorem exec_setEntry (ha : a ∈ m.live) (hi : i < m.size a) :
    exec (setEntry a i p) m = (.ok (), { m with
      entry := Function.update m.entry a (Function.update (m.entry a) i (some p)) }) := by
  unfold setEntry
  simp only [exec_bind, exec_get, if_pos (And.intro ha hi), exec_set]

theorem exec_deleteArray_undefined (ha : a ∉ m.live) :
    exec (deleteArray a) m = (.error .undefined, m) := by
  unfold deleteArray
  simp only [exec_bind, exec_get, if_neg ha, exec_throw]

/-- Nothing but the entries of one array changes. -/
structure Stores (a : StringArray) (m m' : Registering) : Prop where
  live : m'.live = m.live
  size : m'.size = m.size
  others : ∀ b, b ≠ a → m'.entry b = m.entry b

/-- Three texts that are there are stored, and read where they are. -/
theorem exec_storeTexts (ha : a ∈ m.live) (hsize : m.size a = 3) (htexts : 3 ≤ texts.length) :
    ∃ m', exec (storeTexts a texts) m = (.ok (), m') ∧ Stores a m m' ∧
      m'.stypeArgStorage = m.stypeArgStorage ∧
        ∀ i < 3, m'.entry a i = some (.variable a i) := by
  have hrun : exec (storeTexts a texts) m = (.ok (), { m with
      entry := Function.update m.entry a (Function.update (Function.update (Function.update
        (m.entry a) 0 (some (.variable a 0))) 1 (some (.variable a 1))) 2
          (some (.variable a 2))) }) := by
    unfold storeTexts
    simp only [exec_bind, if_neg (Nat.not_lt.mpr htexts)]
    rw [exec_setEntry ha (by omega)]
    simp only
    rw [exec_setEntry (by exact ha) (by simp only [hsize]; omega)]
    simp only
    rw [exec_setEntry (by exact ha) (by simp only [hsize]; omega)]
    simp
  refine ⟨_, hrun, ⟨rfl, rfl, fun b hb => Function.update_of_ne hb _ _⟩, rfl, fun i hi => ?_⟩
  simp only [Function.update_self]
  have hcases : i = 0 ∨ i = 1 ∨ i = 2 := by omega
  rcases hcases with rfl | rfl | rfl <;> simp [Function.update]

theorem exec_storeTexts_undefined (htexts : texts.length < 3) :
    exec (storeTexts a texts) m = (.error .undefined, m) := by
  unfold storeTexts
  simp only [exec_bind, if_pos htexts, exec_throw]

theorem Stores.trans {m₁ m₂ m₃ : Registering} (h : Stores a m₁ m₂) (h' : Stores a m₂ m₃) :
    Stores a m₁ m₃ where
  live := h'.live.trans h.live
  size := h'.size.trans h.size
  others b hb := (h'.others b hb).trans (h.others b hb)

/-- What the loop over the type arguments has stored when it is done. -/
structure TypeArgsStored (m m' : Registering) (i : ℕ) (typeArgs : List Text) : Prop where
  stores : Stores .implTypeArgs m m'
  elements : m'.stypeArgStorage.elements = m.stypeArgStorage.elements ++ typeArgs
  storage : m'.stypeArgStorage.storage = m.stypeArgStorage.storage
  before : ∀ j < i, m'.entry .implTypeArgs j = m.entry .implTypeArgs j
  entries : ∀ j, i ≤ j → j < i + typeArgs.length →
    m'.entry .implTypeArgs j = some (.element ⟨m.stypeArgStorage.storage, j⟩)

/-- The storage was reserved, and so no address is lost to the strings that follow. -/
theorem exec_storeTypeArgs {typeArgs : List Text}
    (hlive : typeArgs ≠ [] → .implTypeArgs ∈ m.live)
    (hlength : m.stypeArgStorage.elements.length = i)
    (hsize : i + typeArgs.length ≤ m.size .implTypeArgs)
    (hcapacity : i + typeArgs.length ≤ m.stypeArgStorage.capacity) :
    ∃ m', exec (storeTypeArgs i typeArgs) m = (.ok (), m') ∧ TypeArgsStored m m' i typeArgs := by
  induction typeArgs generalizing i m with
  | nil =>
    refine ⟨m, rfl, ⟨rfl, rfl, fun _ _ => rfl⟩, by simp, rfl, fun _ _ => rfl, fun j hj hj' => ?_⟩
    simp only [List.length_nil] at hj'
    omega
  | cons typeArg typeArgs ih =>
    simp only [List.length_cons] at hsize hcapacity
    have hroom : m.stypeArgStorage.elements.length < m.stypeArgStorage.capacity := by omega
    let pushed : Registering :=
      { m with stypeArgStorage := m.stypeArgStorage.pushBack typeArg }
    have hstorage : pushed.stypeArgStorage.storage = m.stypeArgStorage.storage :=
      ReservedVector.pushBack_storage hroom
    have hslot : (m.stypeArgStorage.pushBack typeArg).slot? i =
        some ⟨m.stypeArgStorage.storage, i⟩ := by
      rw [← hstorage, ← hlength]
      exact ReservedVector.pushBack_slot
    let next : Registering := { pushed with
      entry := Function.update m.entry .implTypeArgs (Function.update (m.entry .implTypeArgs) i
        (some (.element ⟨m.stypeArgStorage.storage, i⟩))) }
    have hset : exec (setEntry .implTypeArgs i (.element ⟨m.stypeArgStorage.storage, i⟩)) pushed =
        (.ok (), next) := exec_setEntry (hlive (by simp)) (show i < m.size .implTypeArgs by omega)
    have hfirst : Stores .implTypeArgs m next :=
      ⟨rfl, rfl, fun b hb => Function.update_of_ne hb _ _⟩
    obtain ⟨m', hrun, hstored⟩ := @ih next (i + 1) (fun _ => hlive (by simp))
      (by simp [next, pushed, hlength])
      (show i + 1 + typeArgs.length ≤ m.size .implTypeArgs by omega)
      (by
        have hsame : next.stypeArgStorage.capacity = m.stypeArgStorage.capacity :=
          ReservedVector.pushBack_capacity hroom
        omega)
    have hself : next.entry .implTypeArgs i =
        some (.element ⟨m.stypeArgStorage.storage, i⟩) := by simp [next]
    refine ⟨m', ?_, hfirst.trans hstored.stores, ?_, hstored.storage.trans hstorage,
      fun j hj => ?_, fun j hj hj' => ?_⟩
    · unfold storeTypeArgs
      simp only [exec_bind, exec_modify, exec_get]
      rw [show ({ m with stypeArgStorage := m.stypeArgStorage.pushBack typeArg } : Registering) =
        pushed from rfl]
      simp only [hslot]
      exact (exec_bind_ok hset).trans hrun
    · rw [hstored.elements]
      simp [next, pushed]
    · rw [hstored.before j (by omega)]
      simp [next, Function.update_of_ne (show j ≠ i by omega)]
    · rcases Nat.lt_or_ge i j with hlater | hhere
      · have hentry := hstored.entries j hlater (by simp only [List.length_cons] at hj'; omega)
        rw [hentry, show next.stypeArgStorage.storage = m.stypeArgStorage.storage from hstorage]
      · obtain rfl : j = i := by omega
        rw [hstored.before j (by omega), hself]

theorem mapM_range {α : Type} {f : ℕ → Option α} {xs : List α} (hn : xs.length = n)
    (h : ∀ i x, xs[i]? = some x → f i = some x) : (List.range n).mapM f = some xs := by
  have htake : ∀ n ≤ xs.length, (List.range n).mapM f = some (xs.take n) := by
    intro n hn
    induction n with
    | zero => simp
    | succ n ih =>
      have hlast := h n xs[n] (List.getElem?_eq_getElem hn)
      rw [List.range_succ, List.mapM_append, ih (by omega), List.mapM_cons, hlast,
        List.take_succ_eq_append_getElem hn]
      rfl
  subst hn
  simpa using htake xs.length le_rfl

/-- The variables are where they were, and hold what was given. -/
theorem strings_of_variables (ha : a ≠ .implTypeArgs) (hlength : 3 ≤ (e.texts a).length)
    (hentries : ∀ i < 3, m.entry a i = some (.variable a i)) :
    m.strings e a = some (((e.texts a).take 3).map cString) := by
  have hthree : (((e.texts a).take 3).map cString).length = 3 := by simpa using hlength
  unfold Registering.strings
  rw [if_neg ha]
  apply mapM_range hthree
  intro i x hx
  have hi : i < 3 := hthree ▸ (List.getElem?_eq_some_iff.mp hx).1
  rw [List.getElem?_map, List.getElem?_take_of_lt hi] at hx
  obtain ⟨text, htext, rfl⟩ := Option.map_eq_some_iff.mp hx
  simp [Registering.read, hentries i hi, Registering.load, htext]

theorem strings_of_elements (helements : m.stypeArgStorage.elements = e.typeArgs)
    (hentries : ∀ j < e.typeArgs.length,
      m.entry .implTypeArgs j = some (.element ⟨m.stypeArgStorage.storage, j⟩)) :
    m.strings e .implTypeArgs = some (e.typeArgs.map cString) := by
  have hlength : (e.typeArgs.map cString).length = e.typeArgs.length := by simp
  unfold Registering.strings
  rw [if_pos rfl]
  apply mapM_range hlength
  intro i x hx
  have hi : i < e.typeArgs.length := hlength ▸ (List.getElem?_eq_some_iff.mp hx).1
  rw [List.getElem?_map] at hx
  obtain ⟨text, htext, rfl⟩ := Option.map_eq_some_iff.mp hx
  simp [Registering.read, hentries i hi, Registering.load, ReservedVector.load, helements, htext]

/-- The arrays that `new` made room for. -/
structure HasArrays (e : CoreElement) (m : Registering) : Prop where
  live : m.live =
    if e.typeArgs = [] then [.cont, .epi, .pro] else [.implTypeArgs, .cont, .epi, .pro]
  size : ∀ a, m.size a = if a = .implTypeArgs then e.typeArgs.length else 3
  storage : m.stypeArgStorage = .empty

theorem exec_newArrays (e : CoreElement) :
    ∃ m, exec (newArrays e) .start = (.ok (), m) ∧ HasArrays e m := by
  unfold newArrays
  cases htypeArgs : e.typeArgs with
  | nil =>
    refine ⟨_, rfl, ?_, fun a => ?_, rfl⟩
    · rw [if_pos htypeArgs]
      rfl
    · cases a <;> simp [Registering.start, Function.update, htypeArgs]
  | cons typeArg typeArgs =>
    refine ⟨_, rfl, ?_, fun a => ?_, rfl⟩
    · rw [if_neg (by simp [htypeArgs])]
      rfl
    · cases a <;> simp [Function.update, htypeArgs]

/-- Each array of three has its texts. -/
def CoreElement.HasTexts (e : CoreElement) : Prop :=
  3 ≤ e.prolog.length ∧ 3 ≤ e.epilog.length ∧ 3 ≤ e.container.length

theorem HasArrays.live_mem (h : HasArrays e m) (ha : a = .implTypeArgs → e.typeArgs ≠ []) :
    a ∈ m.live := by
  rw [h.live]
  cases a with
  | implTypeArgs => simp [ha rfl]
  | _ => split <;> simp

/-- What was stored is what the runtime reads, and the arrays are as they were. -/
theorem exec_storeElement (h : HasArrays e m) (htexts : e.HasTexts) :
    ∃ m', exec (storeElement e) m = (.ok (), m') ∧ m'.live = m.live ∧
      m'.registered e = some e.given := by
  have hsize : ∀ a, a ≠ .implTypeArgs → m.size a = 3 := fun a ha => (h.size a).trans (if_neg ha)
  obtain ⟨m₁, hrun₁, hstores₁, hstorage₁, hentries₁⟩ := exec_storeTexts
    (h.live_mem (by simp)) (hsize .pro (by simp)) htexts.1
  obtain ⟨m₂, hrun₂, hstores₂, hstorage₂, hentries₂⟩ := @exec_storeTexts m₁ .epi e.epilog
    (hstores₁.live ▸ h.live_mem (by simp)) (hstores₁.size ▸ hsize .epi (by simp)) htexts.2.1
  have hlive₂ : m₂.live = m.live := hstores₂.live.trans hstores₁.live
  have hsize₂ : m₂.size = m.size := hstores₂.size.trans hstores₁.size
  obtain ⟨m₃, hrun₃, hstores₃, hstorage₃, hentries₃⟩ := @exec_storeTexts m₂ .cont e.container
    (hlive₂ ▸ h.live_mem (by simp)) (hsize₂ ▸ hsize .cont (by simp)) htexts.2.2
  have hempty : m₃.stypeArgStorage = .empty :=
    hstorage₃.trans (hstorage₂.trans (hstorage₁.trans h.storage))
  obtain ⟨m₄, hreserved⟩ : ∃ m₄, m₄ = { m₃ with
      stypeArgStorage := m₃.stypeArgStorage.reserve e.typeArgs.length } := ⟨_, rfl⟩
  have hlive₄ : m₄.live = m.live := by
    rw [hreserved]
    exact hstores₃.live.trans hlive₂
  have hsize₄ : m₄.size = m.size := by
    rw [hreserved]
    exact hstores₃.size.trans hsize₂
  have helements₄ : m₄.stypeArgStorage.elements = [] := by
    rw [hreserved, ReservedVector.reserve_elements, hempty]
    rfl
  obtain ⟨m', hrun', hstored⟩ := @exec_storeTypeArgs m₄ 0 e.typeArgs
    (fun hne => hlive₄ ▸ h.live_mem fun _ => hne) (by simp [helements₄])
    (by simp [hsize₄, h.size])
    (by
      rw [hreserved, Nat.zero_add]
      exact ReservedVector.le_reserve_capacity)
  refine ⟨m', ?_, hstored.stores.live.trans hlive₄, ?_⟩
  · unfold storeElement
    rw [exec_bind_ok hrun₁, exec_bind_ok hrun₂, exec_bind_ok hrun₃, exec_bind, exec_modify,
      ← hreserved]
    exact hrun'
  have hentry : ∀ a, a ≠ .implTypeArgs → m'.entry a = m₃.entry a := by
    intro a ha
    rw [hstored.stores.others a ha, hreserved]
  have hpro := @strings_of_variables m' e .pro (by simp) htexts.1 fun i hi => by
    rw [hentry .pro (by simp), hstores₃.others .pro (by simp), hstores₂.others .pro (by simp)]
    exact hentries₁ i hi
  have hepi := @strings_of_variables m' e .epi (by simp) htexts.2.1 fun i hi => by
    rw [hentry .epi (by simp), hstores₃.others .epi (by simp)]
    exact hentries₂ i hi
  have hcont := @strings_of_variables m' e .cont (by simp) htexts.2.2 fun i hi => by
    rw [hentry .cont (by simp)]
    exact hentries₃ i hi
  have htypeArgs := @strings_of_elements m' e (by simp [hstored.elements, helements₄])
    fun j hj => by
      rw [hstored.storage]
      exact hstored.entries j (Nat.zero_le j) (by simpa using hj)
  unfold Registering.registered
  rw [hpro, hepi, hcont, htypeArgs]
  simp only [Option.bind_eq_bind, Option.bind_some, Option.pure_def, CoreElement.given]
  congr 2
  funext a
  cases a <;> rfl

/-- A text too few is read past the end. -/
theorem exec_storeElement_undefined (h : HasArrays e m) (htexts : ¬ e.HasTexts) :
    ∃ m', exec (storeElement e) m = (.error .undefined, m') := by
  have hsize : ∀ a, a ≠ .implTypeArgs → m.size a = 3 := fun a ha => (h.size a).trans (if_neg ha)
  unfold storeElement
  by_cases hpro : 3 ≤ e.prolog.length
  swap
  · exact ⟨_, exec_bind_error (exec_storeTexts_undefined (Nat.lt_of_not_le hpro))⟩
  obtain ⟨m₁, hrun₁, hstores₁, -, -⟩ := exec_storeTexts
    (h.live_mem (by simp)) (hsize .pro (by simp)) hpro
  rw [exec_bind_ok hrun₁]
  by_cases hepi : 3 ≤ e.epilog.length
  swap
  · exact ⟨_, exec_bind_error (exec_storeTexts_undefined (Nat.lt_of_not_le hepi))⟩
  obtain ⟨m₂, hrun₂, -⟩ := @exec_storeTexts m₁ .epi e.epilog
    (hstores₁.live ▸ h.live_mem (by simp)) (hstores₁.size ▸ hsize .epi (by simp)) hepi
  rw [exec_bind_ok hrun₂]
  have hcont : e.container.length < 3 := by
    unfold CoreElement.HasTexts at htexts
    omega
  exact ⟨_, exec_bind_error (exec_storeTexts_undefined hcont)⟩

/-- With an array of type arguments all four are deleted. -/
theorem exec_deleteArrays (h : m.live = [.implTypeArgs, .cont, .epi, .pro]) :
    exec deleteArrays m = (.ok (), { m with live := [] }) := by
  obtain ⟨live, size, entry, storage⟩ := m
  subst h
  rfl

theorem exec_registerCoreElement (htexts : e.HasTexts) (htypeArgs : e.typeArgs ≠ []) :
    ∃ m, exec (registerCoreElement e) .start = (.ok e.given, m) ∧ m.live = [] := by
  obtain ⟨m₁, hrun₁, harrays⟩ := exec_newArrays e
  obtain ⟨m₂, hrun₂, hlive, hread⟩ := exec_storeElement harrays htexts
  have hall : m₂.live = [.implTypeArgs, .cont, .epi, .pro] := by
    rw [hlive, harrays.live, if_neg htypeArgs]
  refine ⟨{ m₂ with live := [] }, ?_, rfl⟩
  unfold registerCoreElement
  rw [exec_bind_ok hrun₁, exec_bind_ok hrun₂, exec_bind, exec_get]
  simp only [hread, pure_bind]
  rw [exec_bind_ok (exec_deleteArrays hall)]
  rfl

theorem exec_registerCoreElement_undefined (h : ¬ (e.HasTexts ∧ e.typeArgs ≠ [])) :
    ∃ m, exec (registerCoreElement e) .start = (.error .undefined, m) := by
  obtain ⟨m₁, hrun₁, harrays⟩ := exec_newArrays e
  unfold registerCoreElement
  rw [exec_bind_ok hrun₁]
  by_cases htexts : e.HasTexts
  · have htypeArgs : e.typeArgs = [] := by simpa [htexts] using h
    obtain ⟨m₂, hrun₂, hlive, hread⟩ := exec_storeElement harrays htexts
    have hnone : .implTypeArgs ∉ m₂.live := by
      rw [hlive, harrays.live, if_pos htypeArgs]
      simp
    have hdelete : exec deleteArrays m₂ = (.error .undefined, m₂) :=
      exec_bind_error (exec_deleteArray_undefined hnone)
    rw [exec_bind_ok hrun₂, exec_bind, exec_get]
    simp only [hread, pure_bind]
    exact ⟨_, exec_bind_error hdelete⟩
  · obtain ⟨m₂, hrun₂⟩ := exec_storeElement_undefined harrays htexts
    exact ⟨_, exec_bind_error hrun₂⟩

end

/-- `register_core_element` has three texts for each of its arrays and some type argument, or it
goes wrong: it reads past the end of a vector, or deletes what it never made. When it does not,
the runtime reads every text as it was given, and all arrays are deleted. -/
theorem core_element_registered_iff (e : CoreElement) :
    ((∃ seen m, exec (registerCoreElement e) .start = (.ok seen, m)) ↔
      3 ≤ e.prolog.length ∧ 3 ≤ e.epilog.length ∧ 3 ≤ e.container.length ∧ e.typeArgs ≠ []) ∧
    ∀ seen m, exec (registerCoreElement e) .start = (.ok seen, m) →
      seen = e.given ∧ m.live = [] := by
  by_cases h : e.HasTexts ∧ e.typeArgs ≠ []
  · obtain ⟨m, hrun, hlive⟩ := exec_registerCoreElement h.1 h.2
    refine ⟨⟨fun _ => ⟨h.1.1, h.1.2.1, h.1.2.2, h.2⟩, fun _ => ⟨_, m, hrun⟩⟩, ?_⟩
    intro seen m' hrun'
    rw [hrun] at hrun'
    cases hrun'
    exact ⟨rfl, hlive⟩
  · obtain ⟨m, hrun⟩ := exec_registerCoreElement_undefined h
    refine ⟨⟨?_, fun hall => absurd ⟨⟨hall.1, hall.2.1, hall.2.2.1⟩, hall.2.2.2⟩ h⟩, ?_⟩
    · rintro ⟨seen, m', hrun'⟩
      rw [hrun] at hrun'
      cases hrun'
    · intro seen m' hrun'
      rw [hrun] at hrun'
      cases hrun'

/-- The runtime reads the element as it was given, and all arrays are deleted. -/
def ReadAsGiven (e : CoreElement) : Prop :=
  ∃ m, exec (registerCoreElement e) .start = (.ok e.given, m) ∧ m.live = []

/-- What a decorated function registers has its texts and two type arguments. -/
theorem coreElement_readAsGiven {task : DecoratedTask} {path : Text} {e : CoreElement}
    (h : coreElement task path = .ok e) : ReadAsGiven e := by
  unfold coreElement at h
  obtain ⟨implLocal, -, h⟩ := except_bind_eq_ok.mp h
  obtain ⟨constraints, -, h⟩ := except_bind_eq_ok.mp h
  cases h
  exact exec_registerCoreElement ⟨le_rfl, le_rfl, le_rfl⟩ (List.cons_ne_nil _ _)

/-- Every registration of a session is read so. -/
def RegistrationsRead (s : Session) : Prop :=
  ∀ e, .registerCoreElement e ∈ s.calls → ReadAsGiven e

theorem Registered.registrationsRead {task : DecoratedTask} {path : Text} {s s' : Session}
    (h : RegistrationsRead s) (hstep : Registered task path s s') : RegistrationsRead s' := by
  cases hstep with
  | known => exact h
  | new _ _ built =>
    intro e he
    rcases List.mem_append.mp he with he | he
    · exact h e he
    · cases List.mem_singleton.mp he
      exact coreElement_readAsGiven built

/-- One call keeps this, however it ends. -/
theorem Step.registrationsRead {r : Surroundings} {task : DecoratedTask}
    {values : List (Text × SEXP)} {s s' : Session} (h : RegistrationsRead s)
    (hstep : Step r task values s s') : RegistrationsRead s' := by
  cases hstep with
  | idle => exact h
  | registered hregistered => exact hregistered.registrationsRead h
  | submitted _ _ hregistered _ =>
    intro e he
    rcases List.mem_append.mp he with he | he
    · exact hregistered.registrationsRead h e he
    · simp at he

theorem registrationsRead_run {s : Session} (h : RegistrationsRead s) (is : List Invocation) :
    RegistrationsRead (runInvocations is s) := by
  induction is generalizing s with
  | nil => exact h
  | cons i is ih =>
    exact ih (Step.registrationsRead h (exec_decorated i.surroundings i.task i.values s))

/-- In every run of calls of decorated functions, whichever of them raise, the runtime reads each
registration as it was given, and what was allocated for it is released. -/
theorem run_registrations_read (globals : List Text) (is : List Invocation) (e : CoreElement)
    (he : .registerCoreElement e ∈ (runInvocations is ⟨globals, []⟩).calls) :
    ∃ m, exec (registerCoreElement e) .start = (.ok e.given, m) ∧ m.live = [] := by
  have hstart : RegistrationsRead ⟨globals, []⟩ := by simp [RegistrationsRead]
  exact registrationsRead_run hstart is e he

/-- The first of two calls registers `solve`. -/
theorem solve_registration_read : ∃ e m,
    .registerCoreElement e ∈ (runInvocations [smallCall, largeCall] ⟨[], []⟩).calls ∧
      exec (registerCoreElement e) .start = (.ok e.given, m) ∧ m.live = [] := by
  have hcall : ∃ e, .registerCoreElement e ∈
      (runInvocations [smallCall, largeCall] ⟨[], []⟩).calls := ⟨_, List.mem_cons_self⟩
  obtain ⟨e, he⟩ := hcall
  obtain ⟨m, hrun, hlive⟩ := run_registrations_read [] [smallCall, largeCall] e he
  exact ⟨e, m, he, hrun, hlive⟩

end RCompss.Submission
