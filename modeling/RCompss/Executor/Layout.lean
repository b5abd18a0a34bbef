import RCompss.Executor.Arguments

/-! The parameter tokens of a task, as records, and what `buildFunctionArgs` makes of them. -/
namespace RCompss.Executor
open RCompss.Library

variable {ρ : Type}

/-- The tokens of one argument: a type, two tokens not read here, a name, a content type,
and a value, which for strings is a count of words and the words. -/
inductive ArgRecord where
  | scalar (typeCode second third name contentType value : Text)
      (notString : typeCode ≠ "8".toList)
  | string (second third name contentType : Text) (words : List Text)
      (countable : words.length < 2 ^ 31)

namespace ArgRecord

def tokens : ArgRecord → List Text
  | .scalar typeCode second third name contentType value _ =>
      [typeCode, second, third, name, contentType, value]
  | .string second third name contentType words _ =>
      ["8".toList, second, third, name, contentType, decimal words.length] ++ words

def name : ArgRecord → Text
  | .scalar _ _ _ name _ _ _ | .string _ _ name _ _ _ => name

/-- The value a record stands for. -/
def decode (rt : Runtime ρ) (a : Affinity) : ArgRecord → SessionM ρ ArgValue
  | .scalar typeCode _ _ _ contentType value _ =>
      if typeCode = "0".toList then
        return .lgl (parseBool value)
      else if typeCode = "4".toList then
        match stoi value with
        | some n => return .int n
        | none => throw ⟨.std, "stoi".toList⟩
      else if typeCode = "7".toList then
        match rt.stod value with
        | some x => return .real x
        | none => throw ⟨.std, "stod".toList⟩
      else if typeCode = "10".toList then
        if contentType ≠ "null".toList then unserializeArg rt a (stripValueSuffix value)
        else return .str (stripValueSuffix value)
      else
        return .null
  | .string _ _ _ _ words _ => return .str (List.intercalate [' '] words)

end ArgRecord

/-- The values of records in order, with their names. -/
def decodeRecords (rt : Runtime ρ) (a : Affinity) :
    List ArgRecord → SessionM ρ (List (Text × ArgValue))
  | [] => return []
  | r :: rs => do
      let value ← r.decode rt a
      let values ← decodeRecords rt a rs
      return (r.name, value) :: values

/-- All parameter tokens of a task: the hosts, six tokens of which the third says there is
no target, the argument records, and the record of the result if there is one. -/
structure Layout where
  hosts : List Text
  afterHosts : Text × Text
  target : Text
  afterTarget : Text
  records : List ArgRecord
  returned : Option ArgRecord
  hosts_countable : hosts.length < 2 ^ 31
  no_target : parseBool target = 0
  records_countable : records.length + 1 < 2 ^ 31

namespace Layout

def numReturns (l : Layout) : ℕ := if l.returned.isSome then 1 else 0

/-- The tokens in front of the records. -/
def front (l : Layout) : List Text :=
  decimal l.hosts.length :: l.hosts ++ [l.afterHosts.1, l.afterHosts.2, l.target, l.afterTarget,
    decimal l.numReturns, decimal (l.records.length + l.numReturns)]

def params (l : Layout) : List Text :=
  l.front ++ l.records.flatMap ArgRecord.tokens ++ l.returned.toList.flatMap ArgRecord.tokens

end Layout

theorem getParam_drop {params : List Text} {n k : ℕ} {token : Text}
    (h : (params.drop n)[k]? = some token) :
    (getParam params ((n : ℤ) + 1 + k) : SessionM ρ Text) = pure token := by
  have hpos : (1 : ℤ) ≤ n + 1 + k := by omega
  have hindex : ((n : ℤ) + 1 + k - 1).toNat = n + k := by omega
  rw [List.getElem?_drop] at h
  unfold getParam
  rw [if_pos hpos, hindex, h]

theorem getInt_drop {params : List Text} {n k m : ℕ} (hm : m < 2 ^ 31)
    (h : (params.drop n)[k]? = some (decimal m)) :
    (getInt params ((n : ℤ) + 1 + k) : SessionM ρ ℤ) = pure (m : ℤ) := by
  unfold getInt
  rw [getParam_drop h, pure_bind, stoi_decimal hm]

theorem getWords_drop {params : List Text} {n : ℕ} (ws rest : List Text)
    (h : params.drop n = ws ++ rest) :
    (getWords params ((n : ℤ) + 1) ws.length : SessionM ρ (List Text)) = pure ws := by
  induction ws generalizing n with
  | nil => rfl
  | cons w ws ih =>
    have hw : (params.drop n)[0]? = some w := by simp [h]
    have hrest : params.drop (n + 1) = ws ++ rest := by
      rw [← List.drop_drop, h]
      rfl
    have hfirst : (getParam params ((n : ℤ) + 1 + (0 : ℕ)) : SessionM ρ Text) = pure w :=
      getParam_drop hw
    have htail := ih hrest
    simp only [Nat.cast_zero, add_zero, Nat.cast_add, Nat.cast_one] at hfirst htail
    rw [List.length_cons, getWords, hfirst, pure_bind, htail, pure_bind]

/-- The loop reads one record where one stands. -/
theorem buildArg_record (rt : Runtime ρ) (a : Affinity) {params : List Text} {n : ℕ}
    (r : ArgRecord) {rest : List Text} (h : params.drop n = r.tokens ++ rest) :
    buildArg rt a params ((n : ℤ) + 1) = (do
      let value ← r.decode rt a
      return ((r.name, value), (n : ℤ) + 1 + r.tokens.length)) := by
  have token (k : ℕ) {t : Text} (ht : (r.tokens ++ rest)[k]? = some t) :
      (getParam params ((n : ℤ) + 1 + k) : SessionM ρ Text) = pure t :=
    getParam_drop (h ▸ ht)
  cases r with
  | scalar typeCode second third name contentType value notString =>
    have h0 : getParam params ((n : ℤ) + 1) = (pure typeCode : SessionM ρ Text) := by
      simpa using token 0 rfl
    have h3 : getParam params ((n : ℤ) + 1 + 3) = (pure name : SessionM ρ Text) := token 3 rfl
    have h4 : getParam params ((n : ℤ) + 1 + 4) = (pure contentType : SessionM ρ Text) :=
      token 4 rfl
    have h5 : getParam params ((n : ℤ) + 1 + 5) = (pure value : SessionM ρ Text) := token 5 rfl
    unfold buildArg getInt ArgRecord.decode
    simp only [h0, h3, h4, h5, pure_bind, if_neg notString]
    split
    · rfl
    split
    · cases stoi value <;> rfl
    split
    · cases rt.stod value <;> rfl
    split
    · split
      · simp [ArgRecord.name, ArgRecord.tokens]
      · rfl
    · rfl
  | string second third name contentType words countable =>
    have h0 : getParam params ((n : ℤ) + 1) = (pure "8".toList : SessionM ρ Text) := by
      simpa using token 0 rfl
    have h3 : getParam params ((n : ℤ) + 1 + 3) = (pure name : SessionM ρ Text) := token 3 rfl
    have h5 : getInt params ((n : ℤ) + 1 + 5) = (pure (words.length : ℤ) : SessionM ρ ℤ) := by
      refine getInt_drop (k := 5) countable ?_
      rw [h]
      rfl
    have h6 : getWords params ((n : ℤ) + 1 + 6) words.length =
        (pure words : SessionM ρ (List Text)) := by
      have hdrop : params.drop (n + 6) = words ++ rest := by
        rw [← List.drop_drop, h]
        rfl
      have hwords : (getWords params (((n + 6 : ℕ) : ℤ) + 1) words.length :
          SessionM ρ (List Text)) = pure words := getWords_drop words rest hdrop
      rwa [show ((n + 6 : ℕ) : ℤ) + 1 = n + 1 + 6 by push_cast; ring] at hwords
    unfold buildArg ArgRecord.decode
    simp only [h0, h3, h5, h6, pure_bind, Int.toNat_natCast]
    rw [if_neg (by decide), if_neg (by decide), if_neg (by decide), if_pos trivial]
    simp [ArgRecord.name, ArgRecord.tokens, add_assoc, add_comm, add_left_comm]

/-- The loop reads records where they stand, and stops behind the last one. -/
theorem buildArgs_records (rt : Runtime ρ) (a : Affinity) {params : List Text} {n : ℕ}
    (rs : List ArgRecord) {rest : List Text}
    (h : params.drop n = rs.flatMap ArgRecord.tokens ++ rest) :
    buildArgs rt a params ((n : ℤ) + 1) rs.length = (do
      let args ← decodeRecords rt a rs
      return (args, (n : ℤ) + 1 + (rs.flatMap ArgRecord.tokens).length)) := by
  induction rs generalizing n with
  | nil => simp [buildArgs, decodeRecords]
  | cons r rs ih =>
    have hr : params.drop n = r.tokens ++ (rs.flatMap ArgRecord.tokens ++ rest) := by
      rw [h, List.flatMap_cons, List.append_assoc]
    have hrest : params.drop (n + r.tokens.length) = rs.flatMap ArgRecord.tokens ++ rest := by
      rw [← List.drop_drop, hr, List.drop_left]
    have htail := ih hrest
    have hindex : ((n + r.tokens.length : ℕ) : ℤ) + 1 = n + 1 + r.tokens.length := by
      push_cast
      ring
    rw [hindex] at htail
    rw [List.length_cons, buildArgs, buildArg_record rt a r hr, decodeRecords]
    simp only [bind_assoc, pure_bind, htail]
    simp only [List.flatMap_cons, List.length_append, Nat.cast_add, add_assoc]

namespace Layout

theorem length_front (l : Layout) : l.front.length = l.hosts.length + 7 := by
  simp [front]

/-- The tokens behind the hosts. -/
theorem drop_hosts (l : Layout) : ∃ rest, l.params.drop (l.hosts.length + 1) =
    [l.afterHosts.1, l.afterHosts.2, l.target, l.afterTarget, decimal l.numReturns,
      decimal (l.records.length + l.numReturns)] ++ rest := by
  refine ⟨l.records.flatMap ArgRecord.tokens ++ l.returned.toList.flatMap ArgRecord.tokens, ?_⟩
  unfold params front
  rw [List.append_assoc, List.append_assoc]
  exact List.drop_left' (by simp)

theorem drop_front (l : Layout) : l.params.drop l.front.length =
    l.records.flatMap ArgRecord.tokens ++ l.returned.toList.flatMap ArgRecord.tokens := by
  unfold params
  rw [List.append_assoc, List.drop_left]

theorem numReturns_le (l : Layout) : l.numReturns ≤ 1 := by
  unfold numReturns
  split <;> omega

end Layout

/-- On a laid out message `buildFunctionArgs` decodes every record in order, drops the
placeholder, and stops at the record of the result. -/
theorem buildFunctionArgs_layout (rt : Runtime ρ) (a : Affinity) (l : Layout) :
    buildFunctionArgs rt a l.params = (do
      let args ← decodeRecords rt a l.records
      return {
        args := args.filter fun arg => !rcompssIsReturnValuePlaceholderArgName arg.1
        returnIndex := (l.front.length : ℤ) + 1 + (l.records.flatMap ArgRecord.tokens).length
        numReturns := l.numReturns }) := by
  obtain ⟨rest, hdrop⟩ := l.drop_hosts
  have hreturns := l.numReturns_le
  have hcountable := l.records_countable
  have hnodes : getInt l.params 1 = (pure (l.hosts.length : ℤ) : SessionM ρ ℤ) := by
    have h : getInt l.params (((0 : ℕ) : ℤ) + 1 + (0 : ℕ)) =
        (pure (l.hosts.length : ℤ) : SessionM ρ ℤ) := getInt_drop l.hosts_countable rfl
    simpa using h
  have index (k : ℕ) : ((l.hosts.length + 1 : ℕ) : ℤ) + 1 + k = 1 + l.hosts.length + (k + 1) := by
    push_cast
    ring
  have htarget : getParam l.params (1 + l.hosts.length + 3) =
      (pure l.target : SessionM ρ Text) :=
    index 2 ▸ getParam_drop (by rw [hdrop]; rfl)
  have hnumReturns : getInt l.params (1 + l.hosts.length + 5) =
      (pure (l.numReturns : ℤ) : SessionM ρ ℤ) :=
    index 4 ▸ getInt_drop (by omega) (by rw [hdrop]; rfl)
  have hnumArgs : getInt l.params (1 + l.hosts.length + 6) =
      (pure ((l.records.length + l.numReturns : ℕ) : ℤ) : SessionM ρ ℤ) :=
    index 5 ▸ getInt_drop (by omega) (by rw [hdrop]; rfl)
  have hfirst : (l.hosts.length : ℤ) + 8 = (l.front.length : ℤ) + 1 := by
    rw [l.length_front]
    push_cast
    ring
  have hcount : ((l.records.length + l.numReturns : ℕ) : ℤ) - l.numReturns - parseBool l.target =
      l.records.length := by
    rw [l.no_target]
    push_cast
    ring
  unfold buildFunctionArgs
  simp only [hnodes, htarget, hnumReturns, hnumArgs, pure_bind, hcount]
  rw [if_neg (by omega), Int.toNat_natCast, hfirst, buildArgs_records rt a l.records l.drop_front]
  simp only [bind_assoc, pure_bind]

end RCompss.Executor
