import RCompss.Worker.WorkerCore

/-! What the exit status of a worker says of its executors. -/
namespace RCompss.Worker
open RCompss

namespace Host
variable (host : Host)

/-- The answers of `fork` for `n` pairs from position `i` on. -/
def forks (i n : ℕ) : List ℤ := (List.range' i n).map host.fork

/-- The child of the pair at a position ended with status 0, and `waitpid` said so. -/
def Succeeded (w : WorkerCore) (i : ℕ) (pair : Text × Text) : Prop :=
  host.reports (host.fork i) = true ∧ host.child i (w.executor i pair) = .exited 0

variable {host} {w : WorkerCore}

variable (host) in
/-- The pid vector after a round, and the children that this one adds to. -/
theorem spawnExecutor_spec (i : ℕ) (pair : Text × Text) {pre post : List ℤ}
    (hpids : w.executor_pids_ = pre ++ -1 :: post) (hpre : pre.length = i) :
    (host.spawnExecutor i pair w).executor_pids_ = pre ++ host.fork i :: post ∧
      (host.spawnExecutor i pair w).executor_path = w.executor_path ∧
        (∀ pid, pid ≠ host.fork i →
          (host.spawnExecutor i pair w).children pid = w.children pid) ∧
          (0 < host.fork i → (host.spawnExecutor i pair w).children (host.fork i) =
            some (host.child i (w.executor i pair))) := by
  unfold spawnExecutor
  dsimp only
  split
  next hpos =>
    refine ⟨?_, rfl, fun pid hpid => Function.update_of_ne hpid .., fun _ =>
      Function.update_self ..⟩
    subst hpre
    simp [hpids]
  next hpos =>
    have hfailed : host.fork i = -1 := (host.fork_result i).resolve_right hpos
    refine ⟨?_, rfl, fun _ _ => rfl, fun h => absurd h hpos⟩
    rw [hpids, hfailed]

variable (host) in
/-- After the loop every slot holds what `fork` answered, and every child is there. -/
theorem spawnFrom_spec (i : ℕ) (pairs : List (Text × Text)) (w : WorkerCore) (pre : List ℤ)
    (hpids : w.executor_pids_ = pre ++ List.replicate pairs.length (-1)) (hpre : pre.length = i) :
    (host.spawnFrom i pairs w).executor_pids_ = pre ++ host.forks i pairs.length ∧
      (∀ pid, (∀ j < pairs.length, pid ≠ host.fork (i + j)) →
        (host.spawnFrom i pairs w).children pid = w.children pid) ∧
        ∀ j (hj : j < pairs.length), 0 < host.fork (i + j) →
          (host.spawnFrom i pairs w).children (host.fork (i + j)) =
            some (host.child (i + j) (w.executor (i + j) pairs[j])) := by
  induction pairs generalizing i w pre with
  | nil => exact ⟨hpids, fun _ _ => rfl, fun j hj => absurd hj (Nat.not_lt_zero j)⟩
  | cons pair pairs ih =>
      obtain ⟨hslot, hpath, hother, hself⟩ := spawnExecutor_spec host i pair hpids hpre
      have hpids' : (host.spawnExecutor i pair w).executor_pids_ =
          (pre ++ [host.fork i]) ++ List.replicate pairs.length (-1) := by
        rw [hslot, List.append_assoc]
        rfl
      have hpre' : (pre ++ [host.fork i]).length = i + 1 := by
        rw [List.length_append, hpre, List.length_singleton]
      obtain ⟨hforks, hkept, hchildren⟩ := ih (i + 1) _ _ hpids' hpre'
      have hshift (j : ℕ) : i + 1 + j = i + (j + 1) := by omega
      refine ⟨?_, fun pid hpid => ?_, fun j hj hpos => ?_⟩
      · change (host.spawnFrom (i + 1) pairs _).executor_pids_ = _
        rw [hforks, List.append_assoc]
        rfl
      · change (host.spawnFrom (i + 1) pairs _).children pid = _
        rw [hkept pid, hother pid]
        · exact hpid 0 (Nat.succ_pos _)
        · intro j hj
          rw [hshift]
          exact hpid (j + 1) (Nat.succ_lt_succ hj)
      · change (host.spawnFrom (i + 1) pairs _).children _ = _
        cases j with
        | zero =>
            rw [hkept, Nat.add_zero, hself hpos]
            · rfl
            · intro j hj heq
              have := host.fork_fresh i (i + 1 + j) hpos heq
              omega
        | succ j =>
            have hchild := hchildren j (Nat.lt_of_succ_lt_succ hj)
            rw [hshift] at hchild
            rw [hchild hpos]
            simp only [List.getElem_cons_succ, WorkerCore.executor, hpath]

variable (host w) in
/-- A round counts a failure unless the child is known to have ended with status 0, and
waits for no other child. -/
theorem waitExecutor_spec (failures : ℕ) {pid : ℤ} (hpid : 0 < pid) :
    ((host.waitExecutor (failures, w) pid).1 = 0 ↔
        failures = 0 ∧ host.reports pid = true ∧ w.children pid = some (.exited 0)) ∧
      ∀ q, q ≠ pid → (host.waitExecutor (failures, w) pid).2.children q = w.children q := by
  have hother {q : ℤ} (hq : q ≠ pid) : Function.update w.children pid none q = w.children q :=
    Function.update_of_ne hq ..
  rw [waitExecutor, if_neg (not_le.mpr hpid), waitpid]
  rcases hreports : host.reports pid with _ | _
  · simp
  · rcases hchild : w.children pid with _ | ⟨status⟩ | sig
    · simpa using fun q => hother
    · by_cases hstatus : status = 0
      · simpa [hstatus] using fun q => hother
      · simpa [hstatus] using fun q => hother
    · simpa using fun q => hother

/-- Over the pid vector, whose positive entries differ. -/
theorem waitExecutors_eq_zero (pids : List ℤ) (hdistinct : pids.Pairwise fun p q => 0 < p → q ≠ p)
    (failures : ℕ) :
    (pids.foldl host.waitExecutor (failures, w)).1 = 0 ↔
      failures = 0 ∧ ∀ pid ∈ pids, 0 < pid →
        host.reports pid = true ∧ w.children pid = some (.exited 0) := by
  induction pids generalizing failures w with
  | nil => simp
  | cons pid pids ih =>
      obtain ⟨hpid, hdistinct⟩ := List.pairwise_cons.mp hdistinct
      rw [List.foldl_cons, List.forall_mem_cons]
      by_cases hpos : 0 < pid
      · obtain ⟨hzero, hother⟩ := waitExecutor_spec host w failures hpos
        rw [← Prod.mk.eta (p := host.waitExecutor (failures, w) pid), ih hdistinct, hzero,
          and_assoc]
        have hrest : (∀ q ∈ pids, 0 < q → host.reports q = true ∧
            (host.waitExecutor (failures, w) pid).2.children q = some (.exited 0)) ↔
            ∀ q ∈ pids, 0 < q → host.reports q = true ∧ w.children q = some (.exited 0) :=
          forall₂_congr fun q hq => by rw [hother q (hpid q hq hpos)]
        rw [hrest, imp_iff_right hpos]
      · have hskip : host.waitExecutor (failures, w) pid = (failures, w) :=
          if_pos (not_lt.mp hpos)
        rw [hskip, ih hdistinct]
        have htrue : (0 < pid →
            host.reports pid = true ∧ w.children pid = some (.exited 0)) ↔ True :=
          iff_true_intro fun h => absurd h hpos
        rw [htrue, true_and]

variable (host) in
/-- Without the executor no slot is filled. -/
theorem spawnExecutors_denied (haccess : host.access w.executor_path ≠ 0) :
    (host.spawnExecutors w).executor_pids_ = List.replicate w.pipe_pairs_.length (-1) := by
  have hpath : ({ w with executor_pids_ := List.replicate w.pipe_pairs_.length (-1) } :
      WorkerCore).executor_path = w.executor_path := rfl
  rw [spawnExecutors]
  dsimp only
  rw [hpath, if_pos haccess]

variable (host) in
/-- With it every slot has the answer of its `fork`, and every child is there. -/
theorem spawnExecutors_spec (haccess : host.access w.executor_path = 0) :
    (host.spawnExecutors w).executor_pids_ = host.forks 0 w.pipe_pairs_.length ∧
      ∀ i (hi : i < w.pipe_pairs_.length), 0 < host.fork i →
        (host.spawnExecutors w).children (host.fork i) =
          some (host.child i (w.executor i w.pipe_pairs_[i])) := by
  have hspec := spawnFrom_spec host 0 w.pipe_pairs_
    { w with executor_pids_ := List.replicate w.pipe_pairs_.length (-1) } [] rfl rfl
  have hspawn : host.spawnExecutors w = host.spawnFrom 0 w.pipe_pairs_
      { w with executor_pids_ := List.replicate w.pipe_pairs_.length (-1) } :=
    if_neg (not_not.mpr haccess)
  rw [hspawn]
  refine ⟨hspec.1, fun i hi hpos => ?_⟩
  have hchild := hspec.2.2 i hi
  rw [Nat.zero_add] at hchild
  exact hchild hpos

/-- `fork` answers no pid twice. -/
theorem forks_pairwise (n : ℕ) : (host.forks 0 n).Pairwise fun p q => 0 < p → q ≠ p := by
  rw [forks, List.pairwise_map]
  refine (List.pairwise_lt_range' (s := 0) (n := n)).imp ?_
  intro i j hij hpos heq
  have := host.fork_fresh i j hpos heq.symm
  omega

theorem forall_forks_iff {n : ℕ} {P : ℤ → Prop} :
    (∀ pid ∈ host.forks 0 n, P pid) ↔ ∀ i < n, P (host.fork i) := by
  simp [forks, List.mem_range']

/-- `run` returns 0 when no executor that was forked is known to have failed, those that
were not forked left aside. -/
theorem run_eq_zero_iff (host : Host) (w : WorkerCore) :
    host.run w = 0 ↔ (host.access w.executor_path = 0 →
      ∀ i (hi : i < w.pipe_pairs_.length), 0 < host.fork i →
        host.Succeeded w i w.pipe_pairs_[i]) := by
  have hrun : host.run w = 0 ↔ (host.waitExecutors (host.spawnExecutors w)).1 = 0 := by
    unfold run
    dsimp only
    split <;> simp_all
  rw [hrun, waitExecutors]
  by_cases haccess : host.access w.executor_path = 0
  · obtain ⟨hpids, hchildren⟩ := spawnExecutors_spec host haccess
    rw [hpids, waitExecutors_eq_zero _ (forks_pairwise _), forall_forks_iff,
      imp_iff_right haccess, eq_self, true_and]
    refine forall₂_congr fun i hi => forall_congr' fun hpos => ?_
    rw [hchildren i hi hpos, Option.some.injEq]
    rfl
  · have hnone : ∀ pid ∈ List.replicate w.pipe_pairs_.length (-1 : ℤ), ¬0 < pid := by
      intro pid hpid
      rw [List.eq_of_mem_replicate hpid]
      decide
    rw [spawnExecutors_denied host haccess, waitExecutors_eq_zero]
    · constructor
      · exact fun _ h => absurd h haccess
      · exact fun _ => ⟨rfl, fun pid hpid h => absurd h (hnone pid hpid)⟩
    · exact List.pairwise_replicate.mpr (.inr (by decide))

/-- An executor was started for the pair at a position. -/
def Spawned (host : Host) (w : WorkerCore) (i : ℕ) (pair : Text × Text) : Prop :=
  host.access w.executor_path = 0 ∧ 0 < host.fork i ∧
    (host.execl i (w.executor i pair)).isSome = true

/-- There is an executor for every pair, and each exited with status 0. -/
def AllSucceeded (host : Host) (w : WorkerCore) : Prop :=
  ∀ i (hi : i < w.pipe_pairs_.length),
    host.Spawned w i w.pipe_pairs_[i] ∧ host.Succeeded w i w.pipe_pairs_[i]

/-- No pair was left without a child, or a child that was forked failed. -/
def MissesNone (host : Host) (w : WorkerCore) : Prop :=
  w.pipe_pairs_ = [] ∨ host.access w.executor_path = 0 ∧
    ((∀ i < w.pipe_pairs_.length, 0 < host.fork i) ∨
      ∃ (i : ℕ) (hi : i < w.pipe_pairs_.length), 0 < host.fork i ∧
        ¬host.Succeeded w i w.pipe_pairs_[i])

/-- A child that exits with status 0 is an executor: one that does not start exits with 1. -/
theorem Succeeded.isSome {i : ℕ} {pair : Text × Text} (h : host.Succeeded w i pair) :
    (host.execl i (w.executor i pair)).isSome = true := by
  have hchild := h.2
  unfold child at hchild
  rcases hexecl : host.execl i (w.executor i pair) with _ | ending
  · rw [hexecl] at hchild
    contradiction
  · rfl

/-- The exit status says that all succeeded in no other case. -/
theorem run_zero_truthful_iff (host : Host) (w : WorkerCore) :
    (host.run w = 0 ↔ host.AllSucceeded w) ↔ host.MissesNone w := by
  rw [run_eq_zero_iff]
  constructor
  · intro h
    by_cases hpairs : w.pipe_pairs_ = []
    · exact .inl hpairs
    have hfirst : 0 < w.pipe_pairs_.length := List.length_pos_iff.mpr hpairs
    by_cases haccess : host.access w.executor_path = 0
    · refine .inr ⟨haccess, or_iff_not_imp_left.mpr fun hmissing => ?_⟩
      -- where a pair has no child, not all succeeded, so that some child failed
      by_contra hnone
      push Not at hmissing hnone
      obtain ⟨i, hi, hfork⟩ := hmissing
      have hall := h.mp fun _ j hj hpos => hnone j hj hpos
      exact absurd (hall i hi).1.2.1 (not_lt.mpr hfork)
    · have hall := h.mp fun hok => absurd hok haccess
      exact absurd (hall 0 hfirst).1.1 haccess
  · rintro (hpairs | ⟨haccess, hforked | ⟨i, hi, hpos, hfailed⟩⟩)
    · have hlength : w.pipe_pairs_.length = 0 := by rw [hpairs, List.length_nil]
      exact ⟨fun _ i hi => absurd hi (by omega), fun _ _ i hi => absurd hi (by omega)⟩
    · constructor
      · intro h i hi
        have hsucceeded := h haccess i hi (hforked i hi)
        exact ⟨⟨haccess, hforked i hi, hsucceeded.isSome⟩, hsucceeded⟩
      · intro h _ i hi _
        exact (h i hi).2
    · constructor
      · intro h
        exact absurd (h haccess i hi hpos) hfailed
      · intro h
        exact absurd (h i hi).2 hfailed

/-- A machine without the executor. -/
def withoutExecutor : Host where
  access _ := -1
  fork i := i + 1
  fork_result i := .inr (by omega)
  fork_fresh i j _ h := by omega
  execl _ _ := none
  reports _ := true

/-- A worker for one pair of pipes there starts nothing and returns 0. -/
theorem nothing_started_returns_zero :
    ¬(withoutExecutor.run (.new "/opt".toList [("cmd".toList, "result".toList)]) = 0 ↔
      withoutExecutor.AllSucceeded (.new "/opt".toList [("cmd".toList, "result".toList)])) := by
  intro h
  have hall := h.mp (by decide)
  exact absurd (hall 0 (by decide)).1.1 (by decide)

end Host
end RCompss.Worker
