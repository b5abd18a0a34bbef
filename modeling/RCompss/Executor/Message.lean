import RCompss.Text

/-! The task lines of the executor's input fifo. -/
namespace RCompss.Executor
open RCompss.Library

def splitWhitespace (input : Text) : List Text := words isSpace input

def parseBool (value : Text) : ℤ :=
  if value = "TRUE".toList ∨ value = "T".toList ∨ value = "1".toList then 1 else 0

structure TaskMessage where
  taskId : Text
  sandbox : Text
  jobOut : Text
  jobErr : Text
  tracing : Text
  debug : Text
  moduleFile : Text
  func : Text
  params : List Text
  /-- CPU affinity, third from last in the task line. -/
  cpus : Text
  /-- GPU affinity, second from last in the task line. -/
  gpus : Text
  deriving DecidableEq

/-- `none` where the source returns false. -/
def parseTaskMessage (line : Text) : Option TaskMessage :=
  let tokens := splitWhitespace line
  if tokens.head? ≠ some "EXECUTE_TASK".toList then none
  else if tokens.length < 14 then none
  else
    let token (i : ℕ) : Text := tokens.getD i []
    let paramsEnd := tokens.length - 3
    some {
      taskId := token 1
      sandbox := token 2
      jobOut := token 3
      jobErr := token 4
      tracing := token 5
      debug := token 7
      moduleFile := token 10
      func := token 11
      params := if 13 < paramsEnd then (tokens.take paramsEnd).drop 13 else tokens.drop 13
      cpus := token (tokens.length - 3)
      gpus := token (tokens.length - 2) }

/-- What follows the last colon; the whole value when there is none. -/
def stripValueSuffix (rawValue : Text) : Text :=
  (rawValue.reverse.takeWhile (· ≠ ':')).reverse

def rcompssIsReturnValuePlaceholderArgName (name : Text) : Bool :=
  "-RETURN_VALUE".toList.isSuffixOf name

/-- The pieces `std::getline` gives with a delimiter: nothing follows a final one. -/
def getlines (delim : Char) (s : Text) : List Text :=
  let pieces := s.splitOn delim
  if pieces.getLast? = some [] then pieces.dropLast else pieces

/-- Words joined by blanks are the tokens of the line. -/
theorem splitWhitespace_join {ts : List Text} (h : ∀ t ∈ ts, IsWord isSpace t) :
    splitWhitespace (List.intercalate [' '] ts) = ts := words_join rfl h

/-- What an accepted line holds, and where. -/
theorem parseTaskMessage_accepts {line : Text} {message : TaskMessage}
    (h : parseTaskMessage line = some message) :
    let tokens := splitWhitespace line
    14 ≤ tokens.length ∧ message.taskId = tokens.getD 1 [] ∧
      message.cpus = tokens.getD (tokens.length - 3) [] ∧
      message.gpus = tokens.getD (tokens.length - 2) [] ∧
      message.params = if 13 < tokens.length - 3 then (tokens.take (tokens.length - 3)).drop 13
        else tokens.drop 13 := by
  unfold parseTaskMessage at h
  simp only at h
  split at h
  · cases h
  split at h
  · cases h
  next hlen =>
    cases h
    exact ⟨by omega, rfl, rfl, rfl, rfl⟩

/-- An accepted line names its task in the second token. -/
theorem parseTaskMessage_taskId {line : Text} {message : TaskMessage}
    (h : parseTaskMessage line = some message) :
    (splitWhitespace line)[1]? = some message.taskId := by
  obtain ⟨hlen, htask, -⟩ := parseTaskMessage_accepts h
  have h1 : 1 < (splitWhitespace line).length := by omega
  simp [htask, h1]

/-- The parameters of an accepted line stand behind its first thirteen tokens. -/
theorem parseTaskMessage_params {line : Text} {message : TaskMessage}
    (h : parseTaskMessage line = some message) :
    message.params <+: (splitWhitespace line).drop 13 := by
  obtain ⟨-, -, -, -, hparams⟩ := parseTaskMessage_accepts h
  rw [hparams]
  split
  · exact (List.take_prefix _ _).drop 13
  · exact List.prefix_rfl

/-- The tokens are thirteen of the header, the parameters, and three of the trailer. -/
def Partitions (tokens : List Text) (message : TaskMessage) : Prop :=
  ∃ header trailer : List Text, tokens = header ++ message.params ++ trailer ∧
    header.length = 13 ∧ trailer.length = 3 ∧
    trailer[0]? = some message.cpus ∧ trailer[1]? = some message.gpus

theorem Partitions.length {tokens : List Text} {message : TaskMessage}
    (h : Partitions tokens message) : tokens.length = message.params.length + 16 := by
  obtain ⟨header, trailer, htokens, hheader, htrailer, -⟩ := h
  rw [htokens, List.length_append, List.length_append]
  omega

/-- With fewer tokens the parameters run to the end of the line. -/
theorem not_partitions_of_short {line : Text} {message : TaskMessage}
    (h : parseTaskMessage line = some message) (hshort : (splitWhitespace line).length < 17) :
    ¬ Partitions (splitWhitespace line) message := by
  intro hpart
  obtain ⟨hlen, -, -, -, hparams⟩ := parseTaskMessage_accepts h
  have hcount := hpart.length
  rw [hparams, if_neg (by omega), List.length_drop] at hcount
  omega

/-- An accepted line is partitioned exactly when it has a parameter. With none, the trailer
stands for the parameters, and the shortest lines have no room for a trailer. -/
theorem parseTaskMessage_partitions_iff {line : Text} {message : TaskMessage}
    (h : parseTaskMessage line = some message) :
    Partitions (splitWhitespace line) message ↔ 17 ≤ (splitWhitespace line).length := by
  constructor
  · intro hpart
    by_contra hshort
    exact not_partitions_of_short h (by omega) hpart
  · intro hlong
    obtain ⟨-, -, hcpus, hgpus, hparams⟩ := parseTaskMessage_accepts h
    rw [if_pos (by omega)] at hparams
    generalize splitWhitespace line = tokens at *
    refine ⟨tokens.take 13, tokens.drop (tokens.length - 3), ?_, ?_, ?_, ?_, ?_⟩
    · have hfront : tokens.take 13 = (tokens.take (tokens.length - 3)).take 13 := by
        rw [List.take_take, Nat.min_eq_left (by omega)]
      rw [hparams, hfront, List.take_append_drop, List.take_append_drop]
    · rw [List.length_take]
      omega
    · rw [List.length_drop]
      omega
    · have hplace : tokens.length - 3 < tokens.length := by omega
      simp [hcpus, hplace]
    · have hplace : tokens.length - 2 < tokens.length := by omega
      have hsecond : tokens.length - 3 + 1 = tokens.length - 2 := by omega
      simp [hgpus, hplace, hsecond]

/-- Fourteen tokens are enough, if the first is the tag. -/
theorem parseTaskMessage_of_tokens {line : Text}
    (hhead : (splitWhitespace line).head? = some "EXECUTE_TASK".toList)
    (hlen : 14 ≤ (splitWhitespace line).length) :
    ∃ message, parseTaskMessage line = some message := by
  unfold parseTaskMessage
  simp only
  rw [if_neg (not_not.mpr hhead), if_neg (by omega)]
  exact ⟨_, rfl⟩

/-- `EXECUTE_TASK 0 1 2 ..`, with `n` numbers. -/
def numberedLine (n : ℕ) : Text :=
  List.intercalate [' '] ("EXECUTE_TASK".toList :: (List.range n).map decimal)

theorem splitWhitespace_numberedLine (n : ℕ) :
    splitWhitespace (numberedLine n) = "EXECUTE_TASK".toList :: (List.range n).map decimal := by
  apply splitWhitespace_join
  intro t ht
  rcases List.mem_cons.mp ht with rfl | ht
  · decide
  · obtain ⟨k, -, rfl⟩ := List.mem_map.mp ht
    exact isWord_decimal k

theorem length_numberedLine (n : ℕ) : (splitWhitespace (numberedLine n)).length = n + 1 := by
  simp [splitWhitespace_numberedLine]

theorem parseTaskMessage_numberedLine {n : ℕ} (h : 13 ≤ n) :
    ∃ message, parseTaskMessage (numberedLine n) = some message := by
  apply parseTaskMessage_of_tokens
  · rw [splitWhitespace_numberedLine]
    rfl
  · rw [length_numberedLine]
    omega

/-- A line with one parameter is partitioned. -/
theorem numberedLine_partitions : ∃ message, parseTaskMessage (numberedLine 16) = some message ∧
    Partitions (splitWhitespace (numberedLine 16)) message := by
  obtain ⟨message, h⟩ := parseTaskMessage_numberedLine (show 13 ≤ 16 by decide)
  exact ⟨message, h, (parseTaskMessage_partitions_iff h).mpr (length_numberedLine 16).ge⟩

/-- A line without parameters is accepted and not partitioned. -/
theorem numberedLine_not_partitions : ¬ ∀ line message,
    parseTaskMessage line = some message → Partitions (splitWhitespace line) message := by
  intro h
  obtain ⟨message, hparse⟩ := parseTaskMessage_numberedLine (show 13 ≤ 15 by decide)
  apply not_partitions_of_short hparse _ (h _ _ hparse)
  rw [length_numberedLine]
  decide

/-- A line of thirteen header tokens, parameters and three trailer tokens is accepted with
its parameters. -/
theorem parseTaskMessage_join {header params trailer : List Text}
    (hwords : ∀ t ∈ header ++ params ++ trailer, IsWord isSpace t)
    (hlen : header.length = 13) (hhead : header.head? = some "EXECUTE_TASK".toList)
    (htrailer : trailer.length = 3) (hparams : params ≠ []) :
    ∃ message, parseTaskMessage (List.intercalate [' '] (header ++ params ++ trailer)) =
      some message ∧ message.params = params := by
  have hpos := List.length_pos_of_ne_nil hparams
  have hall : (header ++ params ++ trailer).length = 13 + params.length + 3 := by
    simp [hlen, htrailer, add_assoc]
  have hfirst : (header ++ params ++ trailer).head? = some "EXECUTE_TASK".toList := by
    rw [List.append_assoc, List.head?_append_of_ne_nil _ (by
      rintro rfl
      cases hlen), hhead]
  have hend : (header ++ params ++ trailer).take (13 + params.length) = header ++ params :=
    List.take_left' (by simp [hlen])
  unfold parseTaskMessage
  rw [splitWhitespace_join hwords]
  simp only [hfirst, hall, ne_eq, not_true_eq_false, if_false]
  rw [if_neg (by omega)]
  refine ⟨_, rfl, ?_⟩
  simp only [Nat.add_sub_cancel]
  rw [if_pos (by omega), hend, List.drop_left' hlen]

end RCompss.Executor
