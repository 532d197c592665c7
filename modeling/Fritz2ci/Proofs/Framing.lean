import Fritz2ci.Lib.Delimited
import Fritz2ci.Spec.Fritz

/-! What the listener delivers of a stream of notifications. It parses each result of `recv`
by itself, so a result that holds several lines delivers only the first of them. -/

namespace Fritz2ci

open CString Delimited

def kindName : CallMsgType → CStr
  | .ring => ascii "RING"
  | .call => ascii "CALL"
  | .connect => ascii "CONNECT"
  | .disconnect => ascii "DISCONNECT"

/-- How many fields stand behind the kind of a record. -/
def arity : CallMsgType → ℕ
  | .ring => 4
  | .call => 5
  | .connect => 3
  | .disconnect => 2

/-- Fields as the call monitor sends them, each followed by a semicolon. -/
def fieldBytes (fields : List CStr) : CStr := fields.flatMap (· ++ [59])

def lineEnd (crlf : Bool) : CStr := if crlf then [13, 10] else [10]

/-- No byte that delimits a field or ends a line or a string. -/
def Clean (f : CStr) : Prop := ∀ b ∈ f, b ≠ 59 ∧ b ≠ 0 ∧ b ≠ 10 ∧ b ≠ 13

instance (f : CStr) : Decidable (Clean f) := List.decidableBAll _ f

/-- A notification with its end of line. -/
structure Line where
  date : CStr
  kind : CallMsgType
  args : List CStr
  crlf : Bool
  args_length : args.length = arity kind
  clean : ∀ f ∈ date :: args, Clean f
  size : (fieldBytes (date :: kindName kind :: args) ++ lineEnd crlf).length ≤ 1023

def Line.fields (l : Line) : List CStr := l.date :: kindName l.kind :: l.args

def Line.bytes (l : Line) : CStr := fieldBytes l.fields ++ lineEnd l.crlf

def Line.notification (l : Line) : Option CIFritzCallMsg :=
  (fritzParseNotification (some l.bytes)).toOption

/-- The socket branch of the listener for successive results of `recv`. -/
def listenAll (reads : List (List UInt8)) (srv : CIFritzServer) : CIFritzServer :=
  reads.foldl (fun srv received => fritzListenSock received srv) srv

/-- The notification delivered for one result of `recv`. -/
def delivered (received : List UInt8) : Option CIFritzCallMsg :=
  (fritzParseNotification (some (ofBuffer received))).toOption

theorem fritzListenSock_callbacks {received : List UInt8} (h : received ≠ [])
    (srv : CIFritzServer) :
    (fritzListenSock received srv).callbacks = srv.callbacks ++ (delivered received).toList := by
  have hlen : 1 ≤ received.length := List.length_pos_iff.2 h
  unfold fritzListenSock delivered
  rw [if_pos hlen]
  cases fritzParseNotification (some (ofBuffer received)) <;> simp [Except.toOption]

theorem listenAll_callbacks (reads : List (List UInt8)) (h : ∀ r ∈ reads, r ≠ [])
    (srv : CIFritzServer) :
    (listenAll reads srv).callbacks = srv.callbacks ++ reads.filterMap delivered := by
  induction reads generalizing srv with
  | nil => simp [listenAll]
  | cons r reads ih =>
    have hrest := ih (fun r' hr => h r' (by simp [hr])) (fritzListenSock r srv)
    rw [fritzListenSock_callbacks (h r (by simp)), List.append_assoc] at hrest
    rw [show listenAll (r :: reads) srv = listenAll reads (fritzListenSock r srv) from rfl, hrest]
    cases hd : delivered r <;> simp [hd]

theorem kindName_clean (k : CallMsgType) : Clean (kindName k) := by
  cases k <;> decide

theorem fields_clean (l : Line) : ∀ f ∈ l.fields, Clean f := by
  intro f hf
  rcases List.mem_cons.1 hf with rfl | hf
  · exact l.clean _ (by simp)
  rcases List.mem_cons.1 hf with rfl | hf
  · exact kindName_clean l.kind
  · exact l.clean f (by simp [hf])

theorem zero_notMem_bytes (l : Line) : 0 ∉ l.bytes := by
  intro h
  rcases List.mem_append.1 h with h | h
  · obtain ⟨f, hf, hb⟩ := List.mem_flatMap.1 h
    rcases List.mem_append.1 hb with hb | hb
    · exact (fields_clean l f hf 0 hb).2.1 rfl
    · simp at hb
  · cases hc : l.crlf <;> simp [lineEnd, hc] at h

theorem bytes_isFrame (l : Line) : IsFrame 10 l.bytes := by
  refine ⟨fieldBytes l.fields ++ (lineEnd l.crlf).dropLast, ?_, ?_⟩
  · cases hc : l.crlf <;> simp [Line.bytes, lineEnd, hc]
  · intro h
    rcases List.mem_append.1 h with h | h
    · obtain ⟨f, hf, hb⟩ := List.mem_flatMap.1 h
      rcases List.mem_append.1 hb with hb | hb
      · exact (fields_clean l f hf 10 hb).2.2.1 rfl
      · simp at hb
    · cases hc : l.crlf <;> simp [lineEnd, hc] at h

theorem callMsgType_kindName (k : CallMsgType) : callMsgType (kindName k) = some k := by
  cases k <;> decide

theorem parseFields_record (date : CStr) {kind : CallMsgType} {args : List CStr}
    (h : args.length = arity kind) :
    ∃ cmsg, ∀ more, parseFields (date :: kindName kind :: args ++ more) = .ok cmsg := by
  have hkind := callMsgType_kindName kind
  cases kind with
  | ring =>
    match args, h with
    | [id, number, msn, protocol], _ => exact ⟨_, fun more => by simp [parseFields, hkind]; rfl⟩
  | call =>
    match args, h with
    | [id, nst, msn, number, protocol], _ =>
      exact ⟨_, fun more => by simp [parseFields, hkind]; rfl⟩
  | connect =>
    match args, h with
    | [id, nst, number], _ => exact ⟨_, fun more => by simp [parseFields, hkind]; rfl⟩
  | disconnect =>
    match args, h with
    | [id, duration], _ => exact ⟨_, fun more => by simp [parseFields, hkind]; rfl⟩

/-- A line with anything behind it parses as the line alone. -/
theorem parse_bytes (l : Line) :
    ∃ cmsg, ∀ more, fritzParseNotification (some (l.bytes ++ more)) = .ok cmsg := by
  obtain ⟨cmsg, h⟩ := parseFields_record l.date l.args_length
  refine ⟨cmsg, fun more => ?_⟩
  have hclean : ∀ f ∈ l.fields, 59 ∉ f := fun f hf hm => (fields_clean l f hf 59 hm).1 rfl
  have hne : l.bytes ++ more ≠ [] := by
    simp [Line.bytes, Line.fields, fieldBytes]
  rw [fritzParseNotification, strsplit, if_neg hne, Line.bytes, List.append_assoc, fieldBytes,
    splitOn_fields 59 l.fields _ hclean]
  exact h _

def lineBytes (ls : List Line) : List UInt8 := (ls.map Line.bytes).flatten

theorem ofBuffer_lineBytes (ls : List Line) : ofBuffer (lineBytes ls) = lineBytes ls := by
  apply ofBuffer_eq_self
  intro h
  obtain ⟨x, hx, h0⟩ := List.mem_flatten.1 h
  obtain ⟨l, -, rfl⟩ := List.mem_map.1 hx
  exact zero_notMem_bytes l h0

/-- Of lines that arrive together the first is delivered, and only it. -/
theorem delivered_lineBytes (l : Line) (ls : List Line) :
    delivered (lineBytes (l :: ls)) = l.notification ∧ l.notification.isSome := by
  obtain ⟨cmsg, h⟩ := parse_bytes l
  have halone : l.notification = some cmsg := by
    have := h []
    rw [List.append_nil] at this
    rw [Line.notification, this]
    rfl
  rw [halone, delivered, ofBuffer_lineBytes, lineBytes, List.map_cons, List.flatten_cons, h]
  exact ⟨rfl, rfl⟩

/-- Every result of `recv` is the bytes of some lines. -/
def WholeLines (reads : List (List UInt8)) : Prop := ∀ r ∈ reads, ∃ ls, r = lineBytes ls

theorem bytes_frames (ls : List Line) : ∀ x ∈ ls.map Line.bytes, IsFrame 10 x := by
  intro x hx
  obtain ⟨l, -, rfl⟩ := List.mem_map.1 hx
  exact bytes_isFrame l

theorem filterMap_delivered_length {reads : List (List UInt8)} (hne : ∀ r ∈ reads, r ≠ [])
    (hw : WholeLines reads) : (reads.filterMap delivered).length = reads.length := by
  rw [List.length_filterMap_eq_countP, List.countP_eq_length]
  intro r hr
  obtain ⟨ls, rfl⟩ := hw r hr
  cases ls with
  | nil => exact absurd rfl (hne _ hr)
  | cons l ls =>
    obtain ⟨h1, h2⟩ := delivered_lineBytes l ls
    rwa [h1]

theorem notifications_length (lines : List Line) :
    (lines.filterMap Line.notification).length = lines.length := by
  rw [List.length_filterMap_eq_countP, List.countP_eq_length]
  exact fun l _ => (delivered_lineBytes l []).2

theorem delivered_alone (lines : List Line) :
    (lines.map Line.bytes).filterMap delivered = lines.filterMap Line.notification := by
  rw [List.filterMap_map]
  refine List.filterMap_congr fun l _ => ?_
  have h := (delivered_lineBytes l []).1
  rwa [show lineBytes [l] = l.bytes by simp [lineBytes]] at h

/-- Results of whole lines that deliver as many notifications as there are lines are the
lines one by one. -/
theorem reads_eq_lines {lines : List Line} {reads : List (List UInt8)}
    (hstream : reads.flatten = lineBytes lines) (hne : ∀ r ∈ reads, r ≠ [])
    (hw : WholeLines reads)
    (h : reads.filterMap delivered = lines.filterMap Line.notification) :
    reads = lines.map Line.bytes := by
  have hcount : reads.flatten.count 10 ≤ reads.length := by
    have hlen := congrArg List.length h
    rw [filterMap_delivered_length hne hw, notifications_length] at hlen
    rw [hstream, lineBytes, count_flatten (bytes_frames lines), List.length_map, hlen]
  have hend : ∀ r ∈ reads, 10 ∈ r := by
    intro r hr
    obtain ⟨ls, rfl⟩ := hw r hr
    cases ls with
    | nil => exact absurd rfl (hne _ hr)
    | cons l ls =>
      obtain ⟨w, hl, -⟩ := bytes_isFrame l
      simp [lineBytes, hl]
  have hone := count_eq_one hend hcount
  refine flatten_inj (d := 10) (fun r hr => ?_) (bytes_frames lines) hstream
  obtain ⟨ls, rfl⟩ := hw r hr
  have hlen := hone _ hr
  rw [lineBytes, count_flatten (bytes_frames ls), List.length_map] at hlen
  obtain ⟨l, rfl⟩ := List.length_eq_one_iff.1 hlen
  simpa [lineBytes] using bytes_isFrame l

theorem parseFields_short {fields : List CStr} (h : fields.length ≤ 3) :
    parseFields fields = .error 3 := by
  match fields, h with
  | [], _ => rfl
  | [_], _ => rfl
  | [_, _], _ => rfl
  | [_, _, _], _ => rfl

/-- A single byte has at most two fields. -/
theorem delivered_byte (b : UInt8) : delivered [b] = none := by
  have hfields : (strsplit (ofBuffer [b]) 59).length ≤ 3 := by
    by_cases h0 : b = 0
    · simp [ofBuffer, strsplit, h0]
    by_cases h59 : b = 59
    · subst h59
      decide
    · have hone : [b].splitOn 59 = [[b]] := List.splitOn_eq_singleton (by simpa using Ne.symm h59)
      simp [ofBuffer, strsplit, h0, hone]
  rw [delivered, fritzParseNotification, parseFields_short hfields]
  rfl

/-- The results of `recv` for a stream: what was sent, in order, in pieces that fit the
buffer. -/
structure Received (lines : List Line) (reads : List (List UInt8)) : Prop where
  stream : reads.flatten = lineBytes lines
  size : ∀ r ∈ reads, 1 ≤ r.length ∧ r.length ≤ FRITZ_BUFFER_SIZE - 1

/-- Every line is delivered once, in order, as if it had been parsed alone. -/
def Faithful (srv : CIFritzServer) (lines : List Line) (reads : List (List UInt8)) : Prop :=
  (listenAll reads srv).callbacks = srv.callbacks ++ lines.filterMap Line.notification

theorem Received.ne_nil {lines : List Line} {reads : List (List UInt8)} (h : Received lines reads) :
    ∀ r ∈ reads, r ≠ [] := by
  rintro r hr rfl
  exact absurd (h.size _ hr).1 (by simp)

theorem faithful_iff {lines : List Line} {reads : List (List UInt8)} (h : Received lines reads)
    (srv : CIFritzServer) :
    Faithful srv lines reads ↔
      reads.filterMap delivered = lines.filterMap Line.notification := by
  rw [Faithful, listenAll_callbacks reads h.ne_nil, List.append_cancel_left_eq]

theorem byte_by_byte (lines : List Line) :
    Received lines ((lineBytes lines).map fun b => [b]) ∧
      (((lineBytes lines).map fun b => [b]).filterMap delivered) = [] := by
  refine ⟨⟨?_, ?_⟩, ?_⟩
  · induction lineBytes lines with
    | nil => rfl
    | cons b bs ih => simpa using ih
  · intro r hr
    obtain ⟨b, -, rfl⟩ := List.mem_map.1 hr
    exact ⟨Nat.le_refl 1, by simp [FRITZ_BUFFER_SIZE]⟩
  · rw [List.filterMap_map, List.filterMap_eq_nil_iff]
    exact fun b _ => delivered_byte b

/-- Delivery is faithful when every line comes in one piece of its own. Of pieces that are
whole lines no others are, and every stream that is not empty can come in pieces for which
it is not. -/
theorem faithful_iff_line_by_line (srv : CIFritzServer) (lines : List Line) :
    (∀ reads, Received lines reads →
      (reads = lines.map Line.bytes → Faithful srv lines reads) ∧
      (WholeLines reads → Faithful srv lines reads → reads = lines.map Line.bytes)) ∧
    ((∀ reads, Received lines reads → Faithful srv lines reads) ↔ lines = []) := by
  refine ⟨fun reads h => ⟨?_, fun hw hf => ?_⟩, fun h => ?_, ?_⟩
  · rintro rfl
    exact (faithful_iff h srv).2 (delivered_alone lines)
  · exact reads_eq_lines h.stream h.ne_nil hw ((faithful_iff h srv).1 hf)
  · obtain ⟨hreceived, hnone⟩ := byte_by_byte lines
    have hf := (faithful_iff hreceived srv).1 (h _ hreceived)
    rw [hnone] at hf
    have hlen := notifications_length lines
    rw [← hf] at hlen
    exact List.length_eq_zero_iff.1 hlen.symm
  · rintro rfl reads h
    have hreads : reads = [] := by
      rw [List.eq_nil_iff_forall_not_mem]
      intro r hr
      have := h.stream
      simp only [lineBytes, List.map_nil, List.flatten_nil, List.flatten_eq_nil_iff] at this
      exact h.ne_nil r hr (this r hr)
    rw [faithful_iff h, hreads]
    rfl

def ringLine : Line where
  date := ascii "21.01.13 18:04:05"
  kind := .ring
  args := [ascii "0", ascii "0301234567", ascii "4930123", ascii "SIP0"]
  crlf := true
  args_length := rfl
  clean := by decide
  size := by decide

/-- Two calls in one piece. -/
theorem second_of_two_lost : ¬ ∀ (srv : CIFritzServer) (lines : List Line)
    (reads : List (List UInt8)), Received lines reads → Faithful srv lines reads := by
  intro h
  have hreceived : Received [ringLine, ringLine] [lineBytes [ringLine, ringLine]] := by
    refine ⟨List.append_nil _, fun r hr => ?_⟩
    rw [List.mem_singleton.1 hr]
    decide
  have hf := (faithful_iff hreceived _).1 (h fritzInit _ _ hreceived)
  have hone := List.length_filterMap_le delivered [lineBytes [ringLine, ringLine]]
  rw [hf, notifications_length] at hone
  exact absurd hone (by decide)

end Fritz2ci
