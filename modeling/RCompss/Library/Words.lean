import Mathlib.Tactic
import Mathlib.Data.List.Basic

/-! Words of a text: the maximal runs without separators. -/
namespace RCompss.Library

variable {α : Type} (sep : α → Bool)

/-- Skip separators, take up to the next one, and go on, as reading words off a stream
does. -/
def words (l : List α) : List (List α) :=
  match _h : l.dropWhile sep with
  | [] => []
  | c :: cs => (c :: cs.takeWhile fun x => !sep x) :: words (cs.dropWhile fun x => !sep x)
termination_by l.length
decreasing_by
  have hle : (l.dropWhile sep).length ≤ l.length := (List.dropWhile_suffix sep).length_le
  have hle' := (List.dropWhile_suffix (l := cs) fun x => !sep x).length_le
  rw [_h, List.length_cons] at hle
  omega

/-- A run without separators that is not empty. -/
def IsWord (w : List α) : Prop := w ≠ [] ∧ ∀ c ∈ w, sep c = false

instance [DecidableEq α] (w : List α) : Decidable (IsWord sep w) :=
  inferInstanceAs (Decidable (_ ∧ _))

variable {sep}

@[simp] theorem words_nil : words sep [] = [] := by rw [words]; rfl

theorem words_sep_cons {c : α} (cs : List α) (h : sep c = true) :
    words sep (c :: cs) = words sep cs := by
  rw [words, words, List.dropWhile_cons_of_pos h]

/-- Every word found is one. -/
theorem isWord_of_mem_words (l : List α) : ∀ w ∈ words sep l, IsWord sep w := by
  induction hn : l.length using Nat.strong_induction_on generalizing l with
  | h n ih =>
    intro w hw
    rw [words] at hw
    split at hw
    next => cases hw
    next c cs hdrop =>
      have hc : sep c = false := by
        have hhead := List.head?_dropWhile_not sep l
        rw [hdrop] at hhead
        simpa using hhead
      rcases List.mem_cons.mp hw with rfl | hw
      · refine ⟨List.cons_ne_nil _ _, fun x hx => ?_⟩
        rcases List.mem_cons.mp hx with rfl | hx
        · exact hc
        · simpa using List.all_eq_true.mp List.all_takeWhile x hx
      · have hle : (l.dropWhile sep).length ≤ l.length := (List.dropWhile_suffix sep).length_le
        have hle' := (List.dropWhile_suffix (l := cs) fun x => !sep x).length_le
        rw [hdrop, List.length_cons] at hle
        exact ih _ (by omega) _ rfl w hw

/-- A word stands at the front until a separator or the end. -/
theorem words_append {w rest : List α} (hw : IsWord sep w)
    (hrest : ∀ c ∈ rest.head?, sep c = true) : words sep (w ++ rest) = w :: words sep rest := by
  obtain ⟨hne, hw⟩ := hw
  obtain ⟨c, cs, rfl⟩ := List.exists_cons_of_ne_nil hne
  have hc : sep c = false := hw c (by simp)
  have hcs : ∀ x ∈ cs, (!sep x) = true := fun x hx => by simp [hw x (by simp [hx])]
  have htake : (cs ++ rest).takeWhile (fun x => !sep x) = cs := by
    rw [List.takeWhile_append_of_pos hcs]
    cases rest with
    | nil => simp
    | cons d ds => simp [hrest d rfl]
  have hdrop : (cs ++ rest).dropWhile (fun x => !sep x) = rest := by
    rw [List.dropWhile_append_of_pos hcs]
    cases rest with
    | nil => rfl
    | cons d ds => simp [hrest d rfl]
  rw [words]
  split
  next h => simp [hc] at h
  next c' cs' h =>
    rw [List.cons_append, List.dropWhile_cons_of_neg (by simp [hc])] at h
    cases h
    rw [htake, hdrop]

theorem words_of_word {w : List α} (hw : IsWord sep w) : words sep w = [w] := by
  simpa using words_append hw (show ∀ c ∈ ([] : List α).head?, sep c = true by simp)

/-- A text that does not start with a separator starts with a word. -/
theorem exists_word_append {c : α} (cs : List α) (hc : sep c = false) :
    ∃ w rest, IsWord sep w ∧ (∀ d ∈ rest.head?, sep d = true) ∧ c :: cs = w ++ rest ∧
      rest.length ≤ cs.length := by
  refine ⟨c :: cs.takeWhile fun x => !sep x, cs.dropWhile fun x => !sep x,
    ⟨List.cons_ne_nil _ _, fun x hx => ?_⟩, fun d hd => ?_, ?_, ?_⟩
  · rcases List.mem_cons.mp hx with rfl | hx
    · exact hc
    · simpa using List.all_eq_true.mp List.all_takeWhile x hx
  · have hhead := List.head?_dropWhile_not (fun x => !sep x) cs
    rw [Option.mem_def.mp hd] at hhead
    simpa using hhead
  · rw [List.cons_append, List.takeWhile_append_dropWhile]
  · exact (List.dropWhile_suffix _).length_le

/-- A separator splits the words of a text. -/
theorem words_append_sep (a : List α) {s : α} (b : List α) (hs : sep s = true) :
    words sep (a ++ s :: b) = words sep a ++ words sep b := by
  induction hn : a.length using Nat.strong_induction_on generalizing a with
  | h n ih =>
    cases a with
    | nil => simpa using words_sep_cons b hs
    | cons c cs =>
      subst hn
      by_cases hc : sep c = true
      · rw [List.cons_append, words_sep_cons _ hc, words_sep_cons _ hc]
        exact ih cs.length (by simp) cs rfl
      · obtain ⟨w, rest, hw, hrest, heq, hlen⟩ :=
          exists_word_append cs (by simpa using hc)
        have hrest' : ∀ d ∈ (rest ++ s :: b).head?, sep d = true := by
          cases rest with
          | nil => simpa using hs
          | cons d ds => simpa using hrest
        have hlt : rest.length < (c :: cs).length := by
          rw [List.length_cons]
          omega
        rw [heq, List.append_assoc, words_append hw hrest', words_append hw hrest,
          ih rest.length hlt rest rfl, List.cons_append]

theorem intercalate_cons_cons (s : α) (t t' : List α) (ts : List (List α)) :
    List.intercalate [s] (t :: t' :: ts) = t ++ s :: List.intercalate [s] (t' :: ts) := by
  simp [List.intercalate, List.intersperse]

/-- The words of joined texts are the words of each. -/
theorem words_intercalate {s : α} (hs : sep s = true) (ts : List (List α)) :
    words sep (List.intercalate [s] ts) = ts.flatMap (words sep) := by
  induction ts with
  | nil => simp [List.intercalate]
  | cons t ts ih =>
    cases ts with
    | nil => simp [List.intercalate]
    | cons t' ts =>
      rw [intercalate_cons_cons, words_append_sep _ _ hs, ih, List.flatMap_cons, List.flatMap_cons,
        List.flatMap_cons]

theorem flatMap_words {ws : List (List α)} (h : ∀ w ∈ ws, IsWord sep w) :
    ws.flatMap (words sep) = ws := by
  induction ws with
  | nil => rfl
  | cons w ws ih =>
    rw [List.flatMap_cons, words_of_word (h w (by simp)), ih fun v hv => h v (by simp [hv])]
    rfl

/-- Words joined by a separator are the words of the result. -/
theorem words_join {s : α} (hs : sep s = true) {ws : List (List α)}
    (h : ∀ w ∈ ws, IsWord sep w) : words sep (List.intercalate [s] ws) = ws := by
  rw [words_intercalate hs, flatMap_words h]

/-- A text cut before a separator keeps its first words. -/
theorem words_takeWhile_prefix [DecidableEq α] {s : α} (hs : sep s = true) (l : List α) :
    words sep (l.takeWhile (· ≠ s)) <+: words sep l := by
  have hsplit : l.takeWhile (· ≠ s) ++ l.dropWhile (· ≠ s) = l := List.takeWhile_append_dropWhile
  rcases hrest : l.dropWhile (· ≠ s) with _ | ⟨c, rest⟩
  · rw [hrest, List.append_nil] at hsplit
    rw [hsplit]
  · have hc : c = s := by
      have hhead := List.head?_dropWhile_not (· ≠ s) l
      rw [hrest] at hhead
      simpa using hhead
    subst hc
    refine ⟨words sep rest, ?_⟩
    rw [← words_append_sep _ _ hs, ← hrest, hsplit]

theorem mem_intercalate {s c : α} {ts : List (List α)} (h : c ∈ List.intercalate [s] ts) :
    (∃ t ∈ ts, c ∈ t) ∨ c = s := by
  induction ts with
  | nil => simp at h
  | cons t ts ih =>
    cases ts with
    | nil => exact Or.inl ⟨t, by simp, by simpa [List.intercalate] using h⟩
    | cons t' ts =>
      rw [intercalate_cons_cons, List.mem_append, List.mem_cons] at h
      rcases h with h | rfl | h
      · exact Or.inl ⟨t, by simp, h⟩
      · exact Or.inr rfl
      · rcases ih h with ⟨u, hu, hc⟩ | hc
        · exact Or.inl ⟨u, List.mem_cons_of_mem _ hu, hc⟩
        · exact Or.inr hc

/-- Joined texts that are not empty are no more than the result has characters. -/
theorem length_le_intercalate {s : α} {ws : List (List α)} (h : ∀ w ∈ ws, w ≠ []) :
    ws.length ≤ (List.intercalate [s] ws).length := by
  induction ws with
  | nil => simp
  | cons w ws ih =>
    have hw : 0 < w.length := List.length_pos_of_ne_nil (h w (by simp))
    have htail := ih fun v hv => h v (by simp [hv])
    cases ws with
    | nil =>
      simp [List.intercalate]
      omega
    | cons v vs =>
      rw [intercalate_cons_cons, List.length_append, List.length_cons, @List.length_cons _ s]
      omega

end RCompss.Library
