import Fritz2ci.Spec.Notification

/-! The language `_fritz_parse_notification` accepts, and what it makes of the documented
records of the call monitor. -/

namespace Fritz2ci

open CString CTime

/-- The number of fields that a record of a type needs. -/
def CallMsgType.fieldCount : CallMsgType → ℕ
  | .ring => 5
  | .call => 6
  | .connect => 5
  | .disconnect => 4

/-- The word for a type in the second field. -/
def CallMsgType.word : CallMsgType → CStr
  | .ring => ascii "RING"
  | .call => ascii "CALL"
  | .connect => ascii "CONNECT"
  | .disconnect => ascii "DISCONNECT"

/-- At least four fields, a known type in the second, and as many as the type needs. -/
def Acceptable (fields : List CStr) : Prop :=
  4 ≤ fields.length ∧ ∃ t : CallMsgType, fields[1]? = some t.word ∧ t.fieldCount ≤ fields.length

/-- A decimal number as it is written. -/
structure Numeral where
  text : CStr
  digits : text.all isDigit
  nonempty : text ≠ []

theorem Numeral.isDigit (n : Numeral) : ∀ b ∈ n.text, isDigit b := List.all_eq_true.1 n.digits

def Numeral.value (n : Numeral) : ℕ := decimal n.text

/-- A text that can stand between semicolons. -/
abbrev Field := { text : CStr // 59 ∉ text }

/-- The documented records. -/
inductive CallRecord
  | call (date : Field) (connectionid nst : Numeral) (msn number protocol : Field)
  | ring (date : Field) (connectionid : Numeral) (number msn protocol : Field)
  | connect (date : Field) (connectionid nst : Numeral) (number : Field)
  | disconnect (date : Field) (connectionid duration : Numeral)

def CallRecord.fields : CallRecord → List CStr
  | .call date connectionid nst msn number protocol =>
    [date.1, ascii "CALL", connectionid.text, nst.text, msn.1, number.1, protocol.1]
  | .ring date connectionid number msn protocol =>
    [date.1, ascii "RING", connectionid.text, number.1, msn.1, protocol.1]
  | .connect date connectionid nst number =>
    [date.1, ascii "CONNECT", connectionid.text, nst.text, number.1]
  | .disconnect date connectionid duration =>
    [date.1, ascii "DISCONNECT", connectionid.text, duration.text]

/-- The line with a semicolon behind each field. -/
def CallRecord.line (r : CallRecord) : CStr := r.fields.flatMap (· ++ [59])

/-- The numbers fit a `gushort`, and a duration a `gulong`. -/
def CallRecord.InRange : CallRecord → Prop
  | .call _ connectionid nst _ _ _ => connectionid.value < 2 ^ 16 ∧ nst.value < 2 ^ 16
  | .ring _ connectionid _ _ _ => connectionid.value < 2 ^ 16
  | .connect _ connectionid nst _ => connectionid.value < 2 ^ 16 ∧ nst.value < 2 ^ 16
  | .disconnect _ connectionid duration =>
    connectionid.value < 2 ^ 16 ∧ duration.value < 2 ^ 64

/-- What the record says. A number keeps its first 31 bytes. -/
def CallRecord.message : CallRecord → CIFritzCallMsg
  | .call date connectionid nst msn number _ =>
    { msgtype := .call, connectionid := connectionid.value, nst := nst.value
      callingNumber := msn.1.take 31, calledNumber := number.1.take 31, number := []
      duration := 0, datetime := strptime datetimeFormat date.1 Tm.zero }
  | .ring date connectionid number msn _ =>
    { msgtype := .ring, connectionid := connectionid.value, nst := 0
      callingNumber := number.1.take 31, calledNumber := msn.1.take 31, number := []
      duration := 0, datetime := strptime datetimeFormat date.1 Tm.zero }
  | .connect date connectionid nst number =>
    { msgtype := .connect, connectionid := connectionid.value, nst := nst.value
      callingNumber := number.1.take 31, calledNumber := [], number := []
      duration := 0, datetime := strptime datetimeFormat date.1 Tm.zero }
  | .disconnect date connectionid duration =>
    { msgtype := .disconnect, connectionid := connectionid.value, nst := 0
      callingNumber := [], calledNumber := [], number := []
      duration := duration.value, datetime := strptime datetimeFormat date.1 Tm.zero }

theorem callMsgType_eq_some_iff {field : CStr} {t : CallMsgType} :
    callMsgType field = some t ↔ field = t.word := by
  have hwords : ascii "RING" ≠ ascii "CALL" ∧ ascii "RING" ≠ ascii "CONNECT" ∧
      ascii "RING" ≠ ascii "DISCONNECT" ∧ ascii "CALL" ≠ ascii "CONNECT" ∧
      ascii "CALL" ≠ ascii "DISCONNECT" ∧ ascii "CONNECT" ≠ ascii "DISCONNECT" := by decide
  unfold callMsgType
  cases t <;> simp only [CallMsgType.word] <;> split_ifs <;> simp_all

theorem callMsgType_word (t : CallMsgType) : callMsgType t.word = some t :=
  callMsgType_eq_some_iff.2 rfl

/-- Behind the first four fields of a known type it only matters how many there are. -/
theorem parseFields_isOk_iff (date kind id f3 : CStr) (rest : List CStr) :
    (∃ cmsg, parseFields (date :: kind :: id :: f3 :: rest) = .ok cmsg) ↔
      ∃ t : CallMsgType, callMsgType kind = some t ∧ t.fieldCount ≤ rest.length + 4 := by
  cases hkind : callMsgType kind with
  | none => simp [parseFields, hkind]
  | some t =>
    cases t with
    | ring | connect => cases rest <;> simp [parseFields, hkind, CallMsgType.fieldCount]
    | call =>
      match rest with
      | [] | [_] | _ :: _ :: _ => simp [parseFields, hkind, CallMsgType.fieldCount]
    | disconnect => simp [parseFields, hkind, CallMsgType.fieldCount]

theorem parseFields_ok_iff (fields : List CStr) :
    (∃ cmsg, parseFields fields = .ok cmsg) ↔ Acceptable fields := by
  match fields with
  | [] | [_] | [_, _] | [_, _, _] => simp [parseFields, Acceptable]
  | date :: kind :: id :: f3 :: rest =>
    rw [parseFields_isOk_iff]
    simp [Acceptable, callMsgType_eq_some_iff]

theorem Numeral.atoiUshort {n : Numeral} (h : n.value < 2 ^ 16) :
    atoiUshort n.text = n.value := by
  unfold Fritz2ci.atoiUshort
  rw [Numeral.value] at h ⊢
  rw [strtol_digits n.isDigit (by omega)]
  omega

theorem Numeral.strtoul {n : Numeral} (h : n.value < 2 ^ 64) : strtoul n.text = n.value :=
  strtoul_digits n.isDigit h

theorem Numeral.semicolon_not_mem (n : Numeral) : 59 ∉ n.text := fun h =>
  absurd (n.isDigit 59 h) (by decide)

theorem semicolon_not_mem_fields (r : CallRecord) : ∀ f ∈ r.fields, 59 ∉ f := by
  have hwords : 59 ∉ ascii "CALL" ∧ 59 ∉ ascii "RING" ∧ 59 ∉ ascii "CONNECT" ∧
      59 ∉ ascii "DISCONNECT" := by decide
  have hfield : ∀ field : Field, 59 ∉ field.1 := fun field => field.2
  cases r <;> simp [CallRecord.fields, hwords, Numeral.semicolon_not_mem, hfield]

theorem strsplit_line (r : CallRecord) : strsplit r.line 59 = r.fields ++ [[]] := by
  have hne : r.line ≠ [] := by cases r <;> simp [CallRecord.line, CallRecord.fields]
  have hsplit := splitOn_fields 59 r.fields [] (semicolon_not_mem_fields r)
  rw [List.append_nil] at hsplit
  rw [strsplit, if_neg hne, CallRecord.line, hsplit]
  rfl

theorem parse_line {r : CallRecord} (h : r.InRange) :
    fritzParseNotification (some r.line) = .ok r.message := by
  have hcopy : ∀ text : CStr, strlcpy text 32 = text.take 31 := fun _ => rfl
  unfold fritzParseNotification
  dsimp only
  rw [strsplit_line]
  cases r with
  | call date connectionid nst msn number protocol =>
    simp only [CallRecord.fields, List.cons_append, parseFields, CallRecord.message,
      show ascii "CALL" = CallMsgType.call.word from rfl, callMsgType_word, hcopy,
      Numeral.atoiUshort h.1, Numeral.atoiUshort h.2]
    rfl
  | ring date connectionid number msn protocol =>
    simp only [CallRecord.fields, List.cons_append, parseFields, CallRecord.message,
      show ascii "RING" = CallMsgType.ring.word from rfl, callMsgType_word, hcopy,
      Numeral.atoiUshort h]
    rfl
  | connect date connectionid nst number =>
    simp only [CallRecord.fields, List.cons_append, parseFields, CallRecord.message,
      show ascii "CONNECT" = CallMsgType.connect.word from rfl, callMsgType_word, hcopy,
      Numeral.atoiUshort h.1, Numeral.atoiUshort h.2]
    rfl
  | disconnect date connectionid duration =>
    simp only [CallRecord.fields, List.cons_append, parseFields, CallRecord.message,
      show ascii "DISCONNECT" = CallMsgType.disconnect.word from rfl, callMsgType_word,
      Numeral.atoiUshort h.1, Numeral.strtoul h.2]
    rfl

/-- The parser accepts what its grammar describes, and takes every documented record for what
it says. -/
theorem parser_accepts_and_recovers :
    (∀ s : CStr, (∃ cmsg, fritzParseNotification (some s) = .ok cmsg) ↔
      Acceptable (strsplit s 59)) ∧
    ∀ r : CallRecord, r.InRange → fritzParseNotification (some r.line) = .ok r.message :=
  ⟨fun s => parseFields_ok_iff (strsplit s 59), fun _ h => parse_line h⟩

def ringRecord : CallRecord :=
  .ring ⟨ascii "21.01.13 18:04:05", by decide⟩ ⟨ascii "0", by decide, by decide⟩
    ⟨ascii "0301234567", by decide⟩ ⟨ascii "4930123", by decide⟩ ⟨ascii "SIP0", by decide⟩

theorem ringRecord_read : fritzParseNotification
    (some (ascii "21.01.13 18:04:05;RING;0;0301234567;4930123;SIP0;")) = .ok ringRecord.message :=
  parser_accepts_and_recovers.2 ringRecord (by decide : (0 : ℕ) < 2 ^ 16)

end Fritz2ci
