import RCompss.Executor.Layout
import RCompss.Executor.Task

/-! String arguments on their way to the executor: cut at single blanks by the runtime,
joined into a task line, and cut again at any whitespace. -/
namespace RCompss.Executor
open RCompss.Library

/-- The pieces the runtime forwards for a string. -/
def sentPieces (s : CharSXP) : List Text := s.text.splitOn ' '

/-- A task message with a string among its arguments, but for the string. -/
structure StringMessage where
  header : List Text
  hosts : List Text
  afterHosts : Text × Text
  target : Text
  afterTarget : Text
  before : List ArgRecord
  second : Text
  third : Text
  name : Text
  contentType : Text
  after : List ArgRecord
  returned : Option ArgRecord
  trailer : List Text
  header_length : header.length = 13
  header_head : header.head? = some "EXECUTE_TASK".toList
  trailer_length : trailer.length = 3
  hosts_countable : hosts.length < 2 ^ 31
  no_target : parseBool target = 0
  records_countable : before.length + after.length + 2 < 2 ^ 31
  header_words : ∀ t ∈ header, IsWord isSpace t
  hosts_words : ∀ t ∈ hosts, IsWord isSpace t
  single_words : ∀ t ∈ [afterHosts.1, afterHosts.2, target, afterTarget, second, third, name,
    contentType], IsWord isSpace t
  record_words : ∀ r ∈ before ++ after ++ returned.toList, ∀ t ∈ r.tokens, IsWord isSpace t
  trailer_words : ∀ t ∈ trailer, IsWord isSpace t

namespace StringMessage

def numReturns (m : StringMessage) : ℕ := if m.returned.isSome then 1 else 0

/-- The tokens in front of the string's record. -/
def front (m : StringMessage) : List Text :=
  decimal m.hosts.length :: m.hosts ++ [m.afterHosts.1, m.afterHosts.2, m.target, m.afterTarget,
    decimal m.numReturns, decimal (m.before.length + 1 + m.after.length + m.numReturns)] ++
    m.before.flatMap ArgRecord.tokens

/-- The record of a string as the runtime sends it. -/
def stringTokens (m : StringMessage) (s : CharSXP) : List Text :=
  ["8".toList, m.second, m.third, m.name, m.contentType, decimal (sentPieces s).length] ++
    sentPieces s

def params (m : StringMessage) (s : CharSXP) : List Text :=
  m.front ++ m.stringTokens s ++ m.after.flatMap ArgRecord.tokens ++
    m.returned.toList.flatMap ArgRecord.tokens

/-- The line the executor reads: up to the first newline. -/
def line (m : StringMessage) (s : CharSXP) : Text :=
  (List.intercalate [' '] (m.header ++ m.params s ++ m.trailer)).takeWhile (· ≠ '\n')

/-- The arguments as they were sent, with `value` for the string. -/
def sentArgs {ρ : Type} (m : StringMessage) (rt : Runtime ρ) (a : Affinity) (value : ArgValue) :
    SessionM ρ (List (Text × ArgValue)) := do
  let before ← decodeRecords rt a m.before
  let after ← decodeRecords rt a m.after
  return (before ++ (m.name, value) :: after).filter fun arg =>
    !rcompssIsReturnValuePlaceholderArgName arg.1

end StringMessage

/-- The arguments rebuilt from a line; `none` when it is not taken for a task. -/
def rebuiltArgs {ρ : Type} (rt : Runtime ρ) (a : Affinity) (line : Text) :
    Option (SessionM ρ (List (Text × ArgValue))) :=
  (parseTaskMessage line).map fun message => do
    return (← buildFunctionArgs rt a message.params).args

/-- In every message the string is rebuilt as it was sent, `NA` told apart from every text,
and so are the arguments around it. -/
def ArrivesUnchanged (s : CharSXP) : Prop :=
  ∀ (ρ : Type) (rt : Runtime ρ) (a : Affinity) (m : StringMessage), ∃ r, s = some r ∧
    rebuiltArgs rt a (m.line s) = some (m.sentArgs rt a (.str r.text))

/-- Words separated by single blanks. -/
def SingleSpaced (t : Text) : Prop := ∀ w ∈ t.splitOn ' ', IsWord isSpace w

instance (t : Text) : Decidable (SingleSpaced t) := inferInstanceAs (Decidable (∀ w ∈ _, _))

theorem sentPieces_words {r : RString} (h : SingleSpaced r.text) :
    ∀ w ∈ sentPieces (some r), IsWord isSpace w := h

/-- Pieces that are words are fewer than a string can have bytes. -/
theorem sentPieces_countable {r : RString} (h : SingleSpaced r.text) :
    (sentPieces (some r)).length < 2 ^ 31 := by
  have hle := length_le_intercalate (s := ' ') fun w hw => (sentPieces_words h w hw).1
  have hjoin : List.intercalate [' '] (sentPieces (some r)) = r.text := List.intercalate_splitOn _
  have htext : r.text.length = r.bytes.length := List.length_map _
  have hshort := r.short
  rw [hjoin, htext] at hle
  omega

/-- Words joined by blanks are a text that single blanks separate. -/
theorem singleSpaced_join {ws : List Text} (hne : ws ≠ []) (h : ∀ w ∈ ws, IsWord isSpace w) :
    SingleSpaced (List.intercalate [' '] ws) := by
  have hblank : ∀ w ∈ ws, ' ' ∉ w := by
    intro w hw hmem
    have := (h w hw).2 ' ' hmem
    contradiction
  unfold SingleSpaced
  rw [List.splitOn_intercalate ' ' hblank hne]
  exact h

theorem decodeRecords_append {ρ : Type} (rt : Runtime ρ) (a : Affinity) (rs ss : List ArgRecord) :
    decodeRecords rt a (rs ++ ss) = (do
      let first ← decodeRecords rt a rs
      let second ← decodeRecords rt a ss
      return first ++ second) := by
  induction rs with
  | nil => simp [decodeRecords]
  | cons r rs ih => simp [decodeRecords, ih]

namespace StringMessage

/-- The layout of a message whose string is sent in countably many pieces. -/
def layout (m : StringMessage) (s : CharSXP) (h : (sentPieces s).length < 2 ^ 31) : Layout where
  hosts := m.hosts
  afterHosts := m.afterHosts
  target := m.target
  afterTarget := m.afterTarget
  records := m.before ++ .string m.second m.third m.name m.contentType (sentPieces s) h :: m.after
  returned := m.returned
  hosts_countable := m.hosts_countable
  no_target := m.no_target
  records_countable := by
    have := m.records_countable
    simp only [List.length_append, List.length_cons]
    omega

theorem params_layout (m : StringMessage) (s : CharSXP) (h : (sentPieces s).length < 2 ^ 31) :
    (m.layout s h).params = m.params s := by
  have hcount : m.before.length + (m.after.length + 1) = m.before.length + 1 + m.after.length := by
    omega
  have hreturns : (m.layout s h).numReturns = m.numReturns := rfl
  unfold Layout.params Layout.front params front
  rw [hreturns]
  simp [layout, stringTokens, ArgRecord.tokens, hcount]

theorem single_word (m : StringMessage) {t : Text} (ht : t ∈ [m.afterHosts.1, m.afterHosts.2,
    m.target, m.afterTarget, m.second, m.third, m.name, m.contentType]) : IsWord isSpace t :=
  m.single_words t ht

/-- The tokens of records of the message are words. -/
theorem records_words (m : StringMessage) {rs : List ArgRecord}
    (h : ∀ r ∈ rs, r ∈ m.before ++ m.after ++ m.returned.toList) :
    ∀ t ∈ rs.flatMap ArgRecord.tokens, IsWord isSpace t := by
  intro t ht
  obtain ⟨r, hr, ht⟩ := List.mem_flatMap.mp ht
  exact m.record_words r (h r hr) t ht

theorem front_words (m : StringMessage) : ∀ t ∈ m.front, IsWord isSpace t := by
  unfold front
  simp only [List.forall_mem_append, List.forall_mem_cons]
  refine ⟨⟨⟨isWord_decimal _, m.hosts_words⟩, ?_⟩, m.records_words fun r hr => by simp [hr]⟩
  exact ⟨m.single_word (by simp), m.single_word (by simp), m.single_word (by simp),
    m.single_word (by simp), isWord_decimal _, isWord_decimal _, by simp⟩

theorem stringTokens_words (m : StringMessage) {s : CharSXP}
    (h : ∀ w ∈ sentPieces s, IsWord isSpace w) : ∀ t ∈ m.stringTokens s, IsWord isSpace t := by
  unfold stringTokens
  simp only [List.forall_mem_append, List.forall_mem_cons]
  refine ⟨⟨by decide, ?_⟩, h⟩
  exact ⟨m.single_word (by simp), m.single_word (by simp), m.single_word (by simp),
    m.single_word (by simp), isWord_decimal _, by simp⟩

/-- Every token of a message whose pieces are words is a word. -/
theorem tokens_words (m : StringMessage) {s : CharSXP} (h : ∀ w ∈ sentPieces s, IsWord isSpace w) :
    ∀ t ∈ m.header ++ m.params s ++ m.trailer, IsWord isSpace t := by
  unfold params
  simp only [List.forall_mem_append]
  exact ⟨⟨m.header_words, ⟨⟨m.front_words, m.stringTokens_words h⟩,
    m.records_words fun r hr => by simp [hr]⟩, m.records_words fun r hr => by simp [hr]⟩,
    m.trailer_words⟩

/-- A line of words has no newline to be cut at. -/
theorem line_of_words (m : StringMessage) {s : CharSXP} (h : ∀ w ∈ sentPieces s, IsWord isSpace w) :
    m.line s = List.intercalate [' '] (m.header ++ m.params s ++ m.trailer) := by
  unfold line
  rw [List.takeWhile_eq_self_iff]
  intro c hc
  obtain ⟨w, hw, hcw⟩ | hc := mem_intercalate hc
  · have hspace := (m.tokens_words h w hw).2 c hcw
    rw [decide_eq_true_eq]
    rintro rfl
    contradiction
  · subst hc
    decide

theorem params_ne_nil (m : StringMessage) (s : CharSXP) : m.params s ≠ [] := by
  simp [params, front]

end StringMessage

/-- A string that single blanks separate arrives, and its message with it. -/
theorem arrivesUnchanged_of_singleSpaced {r : RString} (h : SingleSpaced r.text) :
    ArrivesUnchanged (some r) := by
  intro ρ rt a m
  refine ⟨r, rfl, ?_⟩
  have hwords := sentPieces_words h
  have hcount := sentPieces_countable h
  obtain ⟨message, hparse, hparams⟩ := parseTaskMessage_join (m.tokens_words hwords)
    m.header_length m.header_head m.trailer_length (m.params_ne_nil (some r))
  have hjoin : List.intercalate [' '] (sentPieces (some r)) = r.text := List.intercalate_splitOn _
  unfold rebuiltArgs StringMessage.sentArgs
  rw [m.line_of_words hwords, hparse, Option.map_some, hparams, ← m.params_layout (some r) hcount,
    buildFunctionArgs_layout]
  simp only [StringMessage.layout, decodeRecords_append, decodeRecords, ArgRecord.decode,
    ArgRecord.name, bind_assoc, pure_bind, hjoin]

/-- The shortest message: a task with the string as its only argument and no result. -/
def bareMessage : StringMessage where
  header := ["EXECUTE_TASK", "1", "sandbox", "job.out", "job.err", "false", "-", "false", "-", "-",
    "square.R", "square", "-"].map String.toList
  hosts := []
  afterHosts := ("-".toList, "-".toList)
  target := "false".toList
  afterTarget := "-".toList
  before := []
  second := "3".toList
  third := "null".toList
  name := "x".toList
  contentType := "object".toList
  after := []
  returned := none
  trailer := ["-", "-", "-"].map String.toList
  header_length := rfl
  header_head := rfl
  trailer_length := rfl
  hosts_countable := by decide
  no_target := by decide
  records_countable := by decide
  header_words := by decide
  hosts_words := by simp
  single_words := by decide
  record_words := by simp
  trailer_words := by decide

/-- The parameters of the bare message in front of its count of pieces. -/
def bareTokens : List Text :=
  ["0", "-", "-", "false", "-", "0", "1", "8", "3", "null", "x", "object"].map String.toList

theorem bareMessage_params (s : CharSXP) :
    bareMessage.params s = bareTokens ++ decimal (sentPieces s).length :: sentPieces s := by
  simp [StringMessage.params, StringMessage.front, StringMessage.stringTokens, bareMessage,
    bareTokens, StringMessage.numReturns]
  decide

/-- What the executor takes for the parameters: at most the words of those sent, and the
trailer. -/
theorem bareMessage_received {s : CharSXP} {message : TaskMessage}
    (h : parseTaskMessage (bareMessage.line s) = some message) :
    message.params <+: bareTokens ++ decimal (sentPieces s).length ::
      ((sentPieces s).flatMap (words isSpace) ++ bareMessage.trailer) := by
  have hheader : bareMessage.header.flatMap (words isSpace) = bareMessage.header :=
    flatMap_words bareMessage.header_words
  have hfront : bareTokens.flatMap (words isSpace) = bareTokens := flatMap_words (by decide)
  have htrailer : bareMessage.trailer.flatMap (words isSpace) = bareMessage.trailer :=
    flatMap_words bareMessage.trailer_words
  have hcut := words_takeWhile_prefix (show isSpace '\n' = true from rfl)
    (List.intercalate [' '] (bareMessage.header ++ bareMessage.params s ++ bareMessage.trailer))
  rw [words_intercalate rfl, bareMessage_params] at hcut
  simp only [List.flatMap_append, List.flatMap_cons, hheader, hfront, htrailer,
    words_of_word (isWord_decimal _), List.append_assoc,
    List.cons_append] at hcut
  have hdrop := hcut.drop 13
  rw [List.drop_left' bareMessage.header_length] at hdrop
  refine (parseTaskMessage_params h).trans ?_
  unfold StringMessage.line splitWhitespace
  rw [bareMessage_params]
  simpa using hdrop

/-- A string argument that is decoded joins as many parameters as its count says. -/
theorem exec_buildArg_string {ρ : Type} {rt : Runtime ρ} {a : Affinity} {params : List Text}
    {first next : ℤ} {arg : Text × ArgValue} {s t : ρ}
    (h8 : ∀ token, params[(first - 1).toNat]? = some token → token = "8".toList)
    (h : exec (buildArg rt a params first) s = (.ok (arg, next), t)) :
    ∃ count n ws, params[(first + 5 - 1).toNat]? = some count ∧ stoi count = some n ∧
      ws.length = n.toNat ∧ (∀ w ∈ ws, w ∈ params) ∧
        params[(first + 3 - 1).toNat]? = some arg.1 ∧
          arg.2 = .str (List.intercalate [' '] ws) := by
  unfold buildArg at h
  obtain ⟨typeCode, htype, h⟩ := exec_getParam_bind h
  obtain rfl := h8 _ htype
  obtain ⟨argName, hname, h⟩ := exec_getParam_bind h
  rw [if_neg (by decide), if_neg (by decide), if_neg (by decide), if_pos rfl] at h
  obtain ⟨count, n, hcount, hstoi, h⟩ := exec_getInt_bind h
  obtain ⟨ws, hlen, hmem, h⟩ := exec_getWords_bind h
  cases h
  exact ⟨count, n, ws, hcount, hstoi, hlen, hmem, hname, rfl⟩

/-- A decoding of the bare message that succeeds gives one string, joined from parameters. -/
theorem exec_buildFunctionArgs_bare {ρ : Type} {rt : Runtime ρ} {a : Affinity}
    {params rest : List Text} {count : Text} {built : FunctionArgs} {s t : ρ}
    (hparams : params <+: bareTokens ++ count :: rest)
    (h : exec (buildFunctionArgs rt a params) s = (.ok built, t)) :
    ∃ n ws, stoi count = some n ∧ ws.length = n.toNat ∧ (∀ w ∈ ws, w ∈ params) ∧
      built.args = [("x".toList, .str (List.intercalate [' '] ws))] := by
  obtain ⟨cut, hcut⟩ := hparams
  have token {i : ℕ} {t : Text} (ht : params[i]? = some t) :
      (bareTokens ++ count :: rest)[i]? = some t := by
    rw [← hcut, List.getElem?_append_left (List.getElem?_eq_some_iff.mp ht).1, ht]
  have h0 : stoi "0".toList = some 0 := by decide
  have h1 : stoi "1".toList = some 1 := by decide
  unfold buildFunctionArgs at h
  obtain ⟨t0, numOfNodes, ht0, hnodes, h⟩ := exec_getInt_bind h
  cases token ht0
  cases h0.symm.trans hnodes
  obtain ⟨hasTarget, ht3, h⟩ := exec_getParam_bind h
  cases token ht3
  obtain ⟨t5, numReturns, ht5, hreturns, h⟩ := exec_getInt_bind h
  cases token ht5
  cases h0.symm.trans hreturns
  obtain ⟨t6, numOfArgs, ht6, hargs, h⟩ := exec_getInt_bind h
  cases token ht6
  cases h1.symm.trans hargs
  -- one argument is left to read
  rw [if_neg (by decide)] at h
  obtain ⟨⟨args, last⟩, u, hloop, h⟩ := exec_bind_eq_ok.mp h
  cases h
  obtain ⟨⟨⟨name, value⟩, next⟩, u, harg, hloop⟩ := exec_bind_eq_ok.mp hloop
  obtain ⟨⟨args, last⟩, u, hnil, hloop⟩ := exec_bind_eq_ok.mp hloop
  cases hnil
  cases hloop
  have h8 (t7 : Text) (ht7 : params[((0 : ℤ) + 8 - 1).toNat]? = some t7) : t7 = "8".toList :=
    (Option.some.inj (token ht7)).symm
  obtain ⟨t12, n, ws, ht12, hstoi, hlen, hmem, hname, hvalue⟩ := exec_buildArg_string h8 harg
  obtain rfl : value = _ := hvalue
  cases token hname
  rw [← Option.some.inj (token ht12)] at hstoi
  exact ⟨n, ws, hstoi, hlen, hmem, rfl⟩

/-- Only a text that single blanks separate comes back from the bare message. -/
theorem singleSpaced_of_arrivesUnchanged {r : RString} (h : ArrivesUnchanged (some r)) :
    SingleSpaced r.text := by
  obtain ⟨_, ⟨⟩, hbuilt⟩ := h Unit fullDisk ⟨none, none, none, none, none, ∅⟩ bareMessage
  unfold rebuiltArgs at hbuilt
  obtain ⟨message, hparse, hargs⟩ := Option.map_eq_some_iff.mp hbuilt
  have hsent : exec (bareMessage.sentArgs fullDisk ⟨none, none, none, none, none, ∅⟩
      (.str r.text)) () = (.ok [("x".toList, .str r.text)], ()) := rfl
  rw [← hargs] at hsent
  obtain ⟨built, u, hfun, hbuilt⟩ := exec_bind_eq_ok.mp hsent
  have hvalue : built.args = [("x".toList, .str r.text)] := by
    have := congrArg Prod.fst hbuilt
    simpa using this
  obtain ⟨n, ws, hstoi, hlen, hws, hjoin⟩ :=
    exec_buildFunctionArgs_bare (bareMessage_received hparse) hfun
  have htext : List.intercalate [' '] ws = r.text := by
    rw [hvalue] at hjoin
    simpa using hjoin.symm
  have hwords : ∀ w ∈ ws, IsWord isSpace w := fun w hw =>
    isWord_of_mem_words _ w (List.mem_of_mem_drop ((parseTaskMessage_params hparse).mem (hws w hw)))
  have hne : ws ≠ [] := by
    rintro rfl
    have hempty : r.text = [] := by simpa using htext.symm
    have hcount : (sentPieces (some r)).length = 1 := by
      unfold sentPieces
      rw [show CharSXP.text (some r) = [] from hempty]
      rfl
    rw [hcount, stoi_decimal (by decide)] at hstoi
    cases hstoi
    simp at hlen
  exact htext ▸ singleSpaced_join hne hwords

/-- Exactly the strings of words separated by single blanks arrive. -/
theorem arrivesUnchanged_iff (s : CharSXP) :
    ArrivesUnchanged s ↔ ∃ r, s = some r ∧ SingleSpaced r.text := by
  constructor
  · intro h
    obtain ⟨r, rfl, -⟩ := h Unit fullDisk ⟨none, none, none, none, none, ∅⟩ bareMessage
    exact ⟨r, rfl, singleSpaced_of_arrivesUnchanged h⟩
  · rintro ⟨r, rfl, h⟩
    exact arrivesUnchanged_of_singleSpaced h

/-- Two words with two blanks between them. -/
def twoBlanks : RString where
  bytes := [97, 32, 32, 98]
  noNul := by decide
  short := by decide

/-- Two blanks in a row are sent as three pieces, of which two words come back. -/
theorem two_blanks_change : ¬ ArrivesUnchanged (some twoBlanks) := by
  intro h
  have hspaced : ¬ SingleSpaced twoBlanks.text := by decide
  exact hspaced (singleSpaced_of_arrivesUnchanged h)

end RCompss.Executor
