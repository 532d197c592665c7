import Fritz2ci.Lib.CTime

/-! `_fritz_parse_notification`: the records of the call monitor.

    date;CALL;connectionid;nst;msn;number;protocol;
    date;RING;connectionid;number;msn;protocol;
    date;CONNECT;connectionid;nst;number;
    date;DISCONNECT;connectionid;duration;
-/

namespace Fritz2ci

open CString CTime

/-- `CALLMSGTYPE_*`; a zeroed message is a CALL. -/
inductive CallMsgType
  | call | ring | connect | disconnect
  deriving DecidableEq, Repr

structure CIFritzCallMsg where
  msgtype : CallMsgType
  connectionid : ℕ
  nst : ℕ
  callingNumber : CStr
  calledNumber : CStr
  number : CStr
  duration : ℕ
  datetime : Tm
  deriving DecidableEq, Repr

def CIFritzCallMsg.zero : CIFritzCallMsg := ⟨.call, 0, 0, [], [], [], 0, Tm.zero⟩

/-- `%d.%m.%y %H:%M:%S` -/
def datetimeFormat : List Directive :=
  [.num .mday, .lit 46, .num .mon, .lit 46, .num .year, .space,
    .num .hour, .lit 58, .num .min, .lit 58, .num .sec]

/-- `(gushort) atoi (s)` -/
def atoiUshort (s : CStr) : ℕ := (strtol s % 65536).toNat

def callMsgType (field : CStr) : Option CallMsgType :=
  if field = ascii "RING" then some .ring
  else if field = ascii "CALL" then some .call
  else if field = ascii "CONNECT" then some .connect
  else if field = ascii "DISCONNECT" then some .disconnect
  else none

/-- The part of the parser behind `g_strsplit`. All errors are 3. -/
def parseFields : List CStr → Except ℕ CIFritzCallMsg
  | date :: kind :: id :: f3 :: rest =>
    let cmsg := { CIFritzCallMsg.zero with datetime := strptime datetimeFormat date Tm.zero }
    match callMsgType kind with
    | none => .error 3
    | some .ring =>
      match rest with
      | f4 :: _ => .ok { cmsg with
          msgtype := .ring
          connectionid := atoiUshort id
          callingNumber := strlcpy f3 32
          calledNumber := strlcpy f4 32 }
      | [] => .error 3
    | some .call =>
      match rest with
      | f4 :: f5 :: _ => .ok { cmsg with
          msgtype := .call
          connectionid := atoiUshort id
          nst := atoiUshort f3
          callingNumber := strlcpy f4 32
          calledNumber := strlcpy f5 32 }
      | _ => .error 3
    | some .connect =>
      match rest with
      | f4 :: _ => .ok { cmsg with
          msgtype := .connect
          connectionid := atoiUshort id
          nst := atoiUshort f3
          callingNumber := strlcpy f4 32 }
      | [] => .error 3
    | some .disconnect => .ok { cmsg with
        msgtype := .disconnect
        connectionid := atoiUshort id
        duration := strtoul f3 }
  | _ => .error 3

/-- `_fritz_parse_notification` with a non-NULL `cmsg`; `none` is a NULL string. -/
def fritzParseNotification (notify : Option CStr) : Except ℕ CIFritzCallMsg :=
  match notify with
  | none => .error 1
  | some s => parseFields (strsplit s 59)

end Fritz2ci
