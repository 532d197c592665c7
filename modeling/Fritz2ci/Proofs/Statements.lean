import Fritz2ci.Spec.Statements

/-! What the database is told. The strings of a statement come from the clients, from the box
and from web pages; the statement reads as the text of its format with these strings as literals,
whatever bytes they hold. -/

namespace Fritz2ci

open CString SqlText Decimal

set_option maxRecDepth 4000

/-- `%Q` -/
def quotePart : Option CStr → Part
  | some s => .quoted s
  | none => .text (ascii "NULL")

theorem quotePart_bytes (s : Option CStr) : (quotePart s).bytes = quoteArg s := by
  cases s <;> rfl

/-- What a statement says: the strings as literals, the rest as it stands. -/
def Statement.parts : Statement → List Part
  | .updateCaller user number name =>
    [.text (ascii "update cicaller set name="), .quoted name,
      .text (ascii " where clientid=" ++ printInt user ++ ascii " and number="), .quoted number]
  | .insertCaller user number name =>
    [.text (ascii "insert into cicaller (clientid,number,name) values (" ++ printInt user ++
      ascii ","), .quoted number, .text (ascii ","), .quoted name, .text (ascii ")")]
  | .deleteCaller user number name =>
    [.text (ascii "delete from cicaller where clientid=" ++ printInt user ++ ascii " and number="),
      .quoted number, .text (ascii " and name="), quotePart name]
  | .selectCallers user none | .selectCallers user (some []) =>
    [.text (ascii "select number, name from cicaller where clientid=" ++ printInt user)]
  | .selectCallers user (some (b :: filter)) =>
    let pattern := Part.quoted (ascii "%" ++ b :: filter ++ ascii "%")
    [.text (ascii "select number, name from cicaller where clientid=" ++ printInt user ++
      ascii " and (name like "), pattern, .text (ascii " or number like "), pattern,
      .text (ascii ")")]
  | .insertCache caller =>
    [.text (ascii "insert into callercache (number, name, city, street, postalcode, comment, " ++
      ascii "category) values ("), .quoted caller.numberComplete, .text (ascii ","),
      .quoted (caller.fields .name), .text (ascii ","), .quoted (caller.fields .city),
      .text (ascii ","), .quoted (caller.fields .street), .text (ascii ","),
      .quoted (caller.fields .postalCode), .text (ascii ",NULL,0)")]

theorem sql_updateCaller (user : ℤ) (number name : CStr) :
    (Statement.updateCaller user number name).sql =
      (Statement.updateCaller user number name).parts.flatMap Part.bytes := by
  have hformat : (Statement.updateCaller user number name).format =
      ascii "update cicaller set name=" ++ (ascii "%Q" ++ (ascii " where clientid=" ++
        (ascii "%d" ++ (ascii " and number=" ++ (ascii "%Q" ++ []))))) := by
    change ascii "update cicaller set name=%Q where clientid=%d and number=%Q" = _
    decide +kernel
  rw [Statement.sql, hformat, Statement.args, mprintf_code (by decide), mprintf_quote,
    mprintf_code (by decide), mprintf_int, mprintf_code (by decide), mprintf_quote, mprintf]
  simp [Statement.parts, Part.bytes, quoteArg]

theorem sql_insertCaller (user : ℤ) (number name : CStr) :
    (Statement.insertCaller user number name).sql =
      (Statement.insertCaller user number name).parts.flatMap Part.bytes := by
  have hformat : (Statement.insertCaller user number name).format =
      ascii "insert into cicaller (clientid,number,name) values (" ++ (ascii "%d" ++ (ascii "," ++
        (ascii "%Q" ++ (ascii "," ++ (ascii "%Q" ++ (ascii ")" ++ [])))))) := by
    change ascii "insert into cicaller (clientid,number,name) values (%d,%Q,%Q)" = _
    decide +kernel
  rw [Statement.sql, hformat, Statement.args, mprintf_code (by decide), mprintf_int,
    mprintf_code (by decide), mprintf_quote, mprintf_code (by decide), mprintf_quote,
    mprintf_code (by decide), mprintf]
  simp [Statement.parts, Part.bytes, quoteArg]

theorem sql_deleteCaller (user : ℤ) (number : CStr) (name : Option CStr) :
    (Statement.deleteCaller user number name).sql =
      (Statement.deleteCaller user number name).parts.flatMap Part.bytes := by
  have hformat : (Statement.deleteCaller user number name).format =
      ascii "delete from cicaller where clientid=" ++ (ascii "%d" ++ (ascii " and number=" ++
        (ascii "%Q" ++ (ascii " and name=" ++ (ascii "%Q" ++ []))))) := by
    change ascii "delete from cicaller where clientid=%d and number=%Q and name=%Q" = _
    decide +kernel
  rw [Statement.sql, hformat, Statement.args, mprintf_code (by decide), mprintf_int,
    mprintf_code (by decide), mprintf_quote, mprintf_code (by decide), mprintf_quote, mprintf,
    ← quotePart_bytes name]
  simp [Statement.parts, Part.bytes, quoteArg]

theorem sql_selectAll (user : ℤ) :
    mprintf (ascii "select number, name from cicaller where clientid=%d") [.int user] =
      ascii "select number, name from cicaller where clientid=" ++ printInt user := by
  have hformat : ascii "select number, name from cicaller where clientid=%d" =
      ascii "select number, name from cicaller where clientid=" ++ (ascii "%d" ++ []) := by
    decide +kernel
  rw [hformat, mprintf_code (by decide), mprintf_int, mprintf, List.append_nil]

theorem sql_selectLike (user : ℤ) (b : UInt8) (filter : CStr) :
    (Statement.selectCallers user (some (b :: filter))).sql =
      (Statement.selectCallers user (some (b :: filter))).parts.flatMap Part.bytes := by
  have hformat : (Statement.selectCallers user (some (b :: filter))).format =
      ascii "select number, name from cicaller where clientid=" ++ (ascii "%d" ++
        (ascii " and (name like '" ++ (ascii "%%" ++ (ascii "%q" ++ (ascii "%%" ++
        (ascii "' or number like '" ++ (ascii "%%" ++ (ascii "%q" ++ (ascii "%%" ++
        (ascii "')" ++ [])))))))))) := by
    change ascii "select number, name from cicaller where clientid=%d and " ++
      ascii "(name like '%%%q%%' or number like '%%%q%%')" = _
    decide +kernel
  have hlike : ascii " and (name like '" = ascii " and (name like " ++ [39] := rfl
  have hor : ascii "' or number like '" = 39 :: (ascii " or number like " ++ [39]) := rfl
  have hend : ascii "')" = 39 :: ascii ")" := rfl
  have hpattern : doubled (ascii "%" ++ b :: filter ++ ascii "%") =
      37 :: doubled (b :: filter) ++ [37] := by
    rw [doubled_append, doubled_append]
    rfl
  rw [Statement.sql, hformat, Statement.args, mprintf_code (by decide), mprintf_int,
    mprintf_code (by decide), mprintf_percent, mprintf_doubled, mprintf_percent,
    mprintf_code (by decide), mprintf_percent, mprintf_doubled, mprintf_percent,
    mprintf_code (by decide), mprintf, hlike, hor, hend]
  simp only [Statement.parts, List.flatMap_cons, List.flatMap_nil, Part.bytes, hpattern]
  simp only [List.append_assoc, List.cons_append, List.nil_append, List.append_nil]

theorem sql_insertCache (caller : CICaller) :
    (Statement.insertCache caller).sql =
      (Statement.insertCache caller).parts.flatMap Part.bytes := by
  have hformat : (Statement.insertCache caller).format =
      ascii "insert into " ++ (ascii "%s" ++
        (ascii " (number, name, city, street, postalcode, comment, category) values (" ++
        (ascii "%Q" ++ (ascii "," ++ (ascii "%Q" ++ (ascii "," ++ (ascii "%Q" ++ (ascii "," ++
        (ascii "%Q" ++ (ascii "," ++ (ascii "%Q" ++ (ascii "," ++ (ascii "%Q" ++ (ascii "," ++
        (ascii "%d" ++ (ascii ")" ++ [])))))))))))))))) := by
    change ascii "insert into %s (number, name, city, street, postalcode, comment, category) " ++
      ascii "values (%Q,%Q,%Q,%Q,%Q,%Q,%d)" = _
    decide +kernel
  have htable : ascii "insert into callercache (number, name, city, street, postalcode, comment, " ++
      ascii "category) values (" = ascii "insert into " ++ (ascii "callercache" ++
      ascii " (number, name, city, street, postalcode, comment, category) values (") := by
    decide +kernel
  have hend : ascii ",NULL,0)" = ascii "," ++ (ascii "NULL" ++ (ascii "," ++ (printInt 0 ++
      ascii ")"))) := by decide
  rw [Statement.sql, hformat, Statement.args, mprintf_code (by decide), mprintf_text,
    mprintf_code (by decide), mprintf_quote, mprintf_code (by decide), mprintf_quote,
    mprintf_code (by decide), mprintf_quote, mprintf_code (by decide), mprintf_quote,
    mprintf_code (by decide), mprintf_quote, mprintf_code (by decide), mprintf_quote,
    mprintf_code (by decide), mprintf_int, mprintf_code (by decide), mprintf]
  simp only [Statement.parts, List.flatMap_cons, List.flatMap_nil, Part.bytes, quoteArg, htable,
    hend]
  simp only [List.append_assoc, List.cons_append, List.nil_append, List.append_nil]

theorem sql_parts (st : Statement) : st.sql = st.parts.flatMap Part.bytes := by
  cases st with
  | updateCaller user number name => exact sql_updateCaller user number name
  | insertCaller user number name => exact sql_insertCaller user number name
  | deleteCaller user number name => exact sql_deleteCaller user number name
  | selectCallers user filter =>
    rcases filter with _ | _ | ⟨b, filter⟩
    · rw [Statement.sql, Statement.format, Statement.args, sql_selectAll]
      simp [Statement.parts, Part.bytes]
    · rw [Statement.sql, Statement.format, Statement.args, sql_selectAll]
      simp [Statement.parts, Part.bytes]
    · exact sql_selectLike user b filter
  | insertCache caller => exact sql_insertCache caller

theorem quote_not_mem_around {a b : List UInt8} (ha : 39 ∉ a) (hb : 39 ∉ b) (n : ℤ) :
    39 ∉ a ++ printInt n ++ b := by
  rw [List.mem_append, List.mem_append]
  rintro ((h | h) | h)
  · exact ha h
  · exact quote_not_mem_printInt n h
  · exact hb h

theorem wellFormed_quoted (s : CStr) {t : List UInt8} {parts : List Part} {b : UInt8}
    (ht : t.head? = some b) (hb : b ≠ 39) (h : WellFormed (.text t :: parts)) :
    WellFormed (.quoted s :: .text t :: parts) := by
  refine ⟨?_, h⟩
  rw [List.flatMap_cons, Part.bytes, List.head?_append, ht, Option.some_or]
  exact fun heq => hb (Option.some.inj heq)

theorem wellFormed_last (s : CStr) : WellFormed [.quoted s] := by
  refine ⟨?_, trivial⟩
  exact fun heq => nomatch heq

theorem wellFormed_quotePart (s : Option CStr) : WellFormed [quotePart s] := by
  cases s with
  | none => exact ⟨by decide, trivial⟩
  | some s => exact wellFormed_last s

theorem parts_wellFormed (st : Statement) : WellFormed st.parts := by
  cases st with
  | updateCaller user number name =>
    refine ⟨by decide, wellFormed_quoted name rfl (by decide) ⟨?_, wellFormed_last number⟩⟩
    exact quote_not_mem_around (by decide) (by decide) user
  | insertCaller user number name =>
    refine ⟨quote_not_mem_around (by decide) (by decide) user, ?_⟩
    refine wellFormed_quoted number rfl (by decide) ⟨by decide, ?_⟩
    exact wellFormed_quoted name rfl (by decide) ⟨by decide, trivial⟩
  | deleteCaller user number name =>
    refine ⟨quote_not_mem_around (by decide) (by decide) user, ?_⟩
    exact wellFormed_quoted number rfl (by decide) ⟨by decide, wellFormed_quotePart name⟩
  | selectCallers user filter =>
    have hall : 39 ∉
        ascii "select number, name from cicaller where clientid=" ++ printInt user := by
      rw [List.mem_append, not_or]
      exact ⟨by decide, quote_not_mem_printInt user⟩
    rcases filter with _ | _ | ⟨b, filter⟩
    · exact ⟨hall, trivial⟩
    · exact ⟨hall, trivial⟩
    · refine ⟨quote_not_mem_around (by decide) (by decide) user, ?_⟩
      refine wellFormed_quoted _ rfl (by decide) ⟨by decide, ?_⟩
      exact wellFormed_quoted _ rfl (by decide) ⟨by decide, trivial⟩
  | insertCache caller =>
    refine ⟨by decide, wellFormed_quoted _ rfl (by decide) ⟨by decide, ?_⟩⟩
    refine wellFormed_quoted _ rfl (by decide) ⟨by decide, ?_⟩
    refine wellFormed_quoted _ rfl (by decide) ⟨by decide, ?_⟩
    refine wellFormed_quoted _ rfl (by decide) ⟨by decide, ?_⟩
    exact wellFormed_quoted _ rfl (by decide) ⟨by decide, trivial⟩

/-- The values of a statement, in their order. -/
def Statement.strings : Statement → List CStr
  | .updateCaller _ number name => [name, number]
  | .insertCaller _ number name => [number, name]
  | .deleteCaller _ number name => number :: name.toList
  | .selectCallers _ none | .selectCallers _ (some []) => []
  | .selectCallers _ (some (b :: filter)) =>
    [ascii "%" ++ b :: filter ++ ascii "%", ascii "%" ++ b :: filter ++ ascii "%"]
  | .insertCache caller => [caller.numberComplete, caller.fields .name, caller.fields .city,
      caller.fields .street, caller.fields .postalCode]

/-- What a statement has the database do with its values: the texts around them. -/
def Statement.command : Statement → List (List UInt8)
  | .updateCaller user .. => [ascii "update cicaller set name=",
      ascii " where clientid=" ++ printInt user ++ ascii " and number=", []]
  | .insertCaller user .. =>
    [ascii "insert into cicaller (clientid,number,name) values (" ++ printInt user ++ ascii ",",
      ascii ",", ascii ")"]
  | .deleteCaller user _ (some _) =>
    [ascii "delete from cicaller where clientid=" ++ printInt user ++ ascii " and number=",
      ascii " and name=", []]
  | .deleteCaller user _ none =>
    [ascii "delete from cicaller where clientid=" ++ printInt user ++ ascii " and number=",
      ascii " and name=NULL"]
  | .selectCallers user none | .selectCallers user (some []) =>
    [ascii "select number, name from cicaller where clientid=" ++ printInt user]
  | .selectCallers user (some (_ :: _)) =>
    [ascii "select number, name from cicaller where clientid=" ++ printInt user ++
      ascii " and (name like ", ascii " or number like ", ascii ")"]
  | .insertCache _ =>
    [ascii "insert into callercache (number, name, city, street, postalcode, comment, " ++
      ascii "category) values (", ascii ",", ascii ",", ascii ",", ascii ",", ascii ",NULL,0)"]

theorem around_parts (st : Statement) : Part.around st.parts = st.command := by
  cases st with
  | updateCaller user number name => simp [Statement.parts, Part.around, Statement.command]
  | insertCaller user number name => simp [Statement.parts, Part.around, Statement.command]
  | deleteCaller user number name =>
    cases name with
    | none => simp [Statement.parts, quotePart, Part.around, Statement.command]; rfl
    | some name => simp [Statement.parts, quotePart, Part.around, Statement.command]
  | selectCallers user filter =>
    rcases filter with _ | _ | ⟨b, filter⟩ <;>
      simp [Statement.parts, Part.around, Statement.command]
  | insertCache caller => simp [Statement.parts, Part.around, Statement.command]

theorem strings_parts (st : Statement) : literals (st.parts.flatMap Part.pieces) = st.strings := by
  rw [literals_parts]
  cases st with
  | updateCaller user number name => rfl
  | insertCaller user number name => rfl
  | deleteCaller user number name => cases name <;> rfl
  | selectCallers user filter => rcases filter with _ | _ | ⟨b, filter⟩ <;> rfl
  | insertCache caller => rfl

theorem statement_scan (st : Statement) :
    scan none st.sql = some (st.parts.flatMap Part.pieces) := by
  rw [sql_parts]
  exact scan_parts (parts_wellFormed st)

/-- An empty filter is no filter. -/
def Statement.canonical : Statement → Statement
  | .selectCallers user (some []) => .selectCallers user none
  | st => st

/-- The first words tell the statements apart. -/
def Statement.words : Statement → List UInt8
  | .updateCaller .. => ascii "update cicalle"
  | .insertCaller .. => ascii "insert into ci"
  | .deleteCaller .. => ascii "delete from ci"
  | .selectCallers .. => ascii "select number,"
  | .insertCache _ => ascii "insert into ca"

theorem take_command (st : Statement) : (st.command.headD []).take 14 = st.words := by
  cases st with
  | updateCaller user number name => rfl
  | insertCaller user number name => rfl
  | deleteCaller user number name => cases name <;> rfl
  | selectCallers user filter => rcases filter with _ | _ | ⟨b, filter⟩ <;> rfl
  | insertCache caller => rfl

theorem around_inj {a b : List UInt8} {m n : ℤ} (h : a ++ printInt m ++ b = a ++ printInt n ++ b) :
    m = n :=
  printInt_inj (List.append_cancel_left (List.append_cancel_right h))

theorem selectCallers_inj {user user' : ℤ} {filter filter' : Option CStr}
    (hc : (Statement.selectCallers user filter).command =
      (Statement.selectCallers user' filter').command)
    (hs : (Statement.selectCallers user filter).strings =
      (Statement.selectCallers user' filter').strings) :
    (Statement.selectCallers user filter).canonical =
      (Statement.selectCallers user' filter').canonical := by
  have hbare : ∀ {m n : ℤ} {a : List UInt8}, a ++ printInt m = a ++ printInt n → m = n :=
    fun h => printInt_inj (List.append_cancel_left h)
  rcases filter with _ | _ | ⟨b, filter⟩ <;> rcases filter' with _ | _ | ⟨b', filter'⟩
  · exact congrArg (Statement.selectCallers · none) (hbare (List.cons.inj hc).1)
  · exact congrArg (Statement.selectCallers · none) (hbare (List.cons.inj hc).1)
  · exact nomatch (List.cons.inj hc).2
  · exact congrArg (Statement.selectCallers · none) (hbare (List.cons.inj hc).1)
  · exact congrArg (Statement.selectCallers · none) (hbare (List.cons.inj hc).1)
  · exact nomatch (List.cons.inj hc).2
  · exact nomatch (List.cons.inj hc).2
  · exact nomatch (List.cons.inj hc).2
  · have hfilter : b :: filter = b' :: filter' :=
      List.append_cancel_left (List.append_cancel_right (List.cons.inj hs).1)
    rw [hfilter, around_inj (List.cons.inj hc).1]

theorem canonical_eq {st st' : Statement} (hc : st.command = st'.command)
    (hs : st.strings = st'.strings) : st.canonical = st'.canonical := by
  have hwords : st.words = st'.words := by rw [← take_command, ← take_command, hc]
  cases st with
  | updateCaller user number name =>
    cases st' with
    | updateCaller user' number' name' =>
      obtain ⟨rfl, rfl⟩ : name = name' ∧ number = number' := by simpa [Statement.strings] using hs
      rw [around_inj (List.cons.inj (List.cons.inj hc).2).1]
    | _ => exact absurd hwords (by simp only [Statement.words]; decide)
  | insertCaller user number name =>
    cases st' with
    | insertCaller user' number' name' =>
      obtain ⟨rfl, rfl⟩ : number = number' ∧ name = name' := by simpa [Statement.strings] using hs
      rw [around_inj (List.cons.inj hc).1]
    | _ => exact absurd hwords (by simp only [Statement.words]; decide)
  | deleteCaller user number name =>
    cases st' with
    | deleteCaller user' number' name' =>
      have huser : user = user' := by
        cases name <;> cases name' <;> exact around_inj (List.cons.inj hc).1
      obtain ⟨rfl, hname⟩ := List.cons.inj hs
      have heq : name = name' := by simpa using congrArg List.head? hname
      rw [huser, heq]
    | _ => exact absurd hwords (by simp only [Statement.words]; decide)
  | selectCallers user filter =>
    cases st' with
    | selectCallers user' filter' => exact selectCallers_inj hc hs
    | _ => exact absurd hwords (by simp only [Statement.words]; decide)
  | insertCache caller =>
    cases st' with
    | insertCache caller' =>
      obtain ⟨number, fields⟩ := caller
      obtain ⟨number', fields'⟩ := caller'
      simp only [Statement.strings, List.cons.injEq, and_true] at hs
      obtain ⟨rfl, hname, hcity, hstreet, hpostal⟩ := hs
      have hfields : fields = fields' := by
        funext field
        cases field <;> assumption
      rw [hfields]
    | _ => exact absurd hwords (by simp only [Statement.words]; decide)

/-- Of two statements with one text, an empty filter apart, there is only one. -/
theorem canonical_eq_of_sql {st st' : Statement} (h : st.sql = st'.sql) :
    st.canonical = st'.canonical := by
  have hpieces := statement_scan st
  rw [h, statement_scan st', Option.some.injEq] at hpieces
  refine canonical_eq ?_ ?_
  · rw [← around_parts, ← around_parts, ← between_parts, ← between_parts, hpieces]
  · rw [← strings_parts, ← strings_parts, hpieces]

theorem sql_canonical (st : Statement) : st.canonical.sql = st.sql := by
  cases st with
  | selectCallers user filter => rcases filter with _ | _ | ⟨b, filter⟩ <;> rfl
  | _ => rfl

/-- No string gets out of its literal, and no two requests are told to the database in the same
words. -/
theorem statement_says (st : Statement) :
    (∃ pieces, scan none st.sql = some pieces ∧ between pieces = st.command ∧
      literals pieces = st.strings) ∧
    ∀ st' : Statement, st'.sql = st.sql ↔ st'.canonical = st.canonical := by
  refine ⟨⟨_, statement_scan st, ?_, strings_parts st⟩, fun st' => ⟨canonical_eq_of_sql, ?_⟩⟩
  · rw [between_parts]
    exact around_parts st
  · intro h
    rw [← sql_canonical, h, sql_canonical]

end Fritz2ci
