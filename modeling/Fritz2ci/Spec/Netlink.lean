import Fritz2ci.Lib.LittleEndian
import Fritz2ci.Lib.Records
import Fritz2ci.Spec.FritzListener

/-! `netutils.c`: `netutil_handle_netlink_message`. A buffer is read from a pointer on as the
list of the bytes from there to its end; `none` stands for an access behind the buffer or
behind `ifname`. -/

namespace Fritz2ci

open CString LittleEndian Records

def loadU16 (p : List UInt8) (off : ℕ) : UInt16 := value16 (byteAt p off) (byteAt p (off + 1))

def loadU32 (p : List UInt8) (off : ℕ) : UInt32 :=
  value32 (byteAt p off) (byteAt p (off + 1)) (byteAt p (off + 2)) (byteAt p (off + 3))

theorem loadU16_append {x : List UInt8} (y : List UInt8) {off : ℕ} (h : off + 2 ≤ x.length) :
    loadU16 (x ++ y) off = loadU16 x off := by
  simp only [loadU16, byteAt, List.getD_eq_getElem?_getD]
  rw [List.getElem?_append_left (by omega), List.getElem?_append_left (by omega)]

theorem loadU32_append {x : List UInt8} (y : List UInt8) {off : ℕ} (h : off + 4 ≤ x.length) :
    loadU32 (x ++ y) off = loadU32 x off := by
  simp only [loadU32, byteAt, List.getD_eq_getElem?_getD]
  rw [List.getElem?_append_left (by omega), List.getElem?_append_left (by omega),
    List.getElem?_append_left (by omega), List.getElem?_append_left (by omega)]

/-- `NLMSG_OK` and `NLMSG_NEXT` -/
def nlmsg : Format UInt8 where
  header := 16
  size h := (loadU32 h 0).toNat
  header_pos := by decide
  size_append x y hx := by rw [loadU32_append y (by omega)]

/-- `RTA_OK` and `RTA_NEXT` -/
def rta : Format UInt8 where
  header := 4
  size attr := (loadU16 attr 0).toNat
  header_pos := by decide
  size_append x y hx := by rw [loadU16_append y (by omega)]

def nlmsgType (h : List UInt8) : UInt16 := loadU16 h 4

def rtaType (attr : List UInt8) : UInt16 := loadU16 attr 2

def NLMSG_DONE : UInt16 := 3
def RTM_NEWLINK : UInt16 := 16
def IFLA_IFNAME : UInt16 := 3
def IFLA_OPERSTATE : UInt16 := 16
def IF_OPER_UNKNOWN : UInt32 := 0
def IF_OPER_DOWN : UInt32 := 2
def IF_OPER_UP : UInt32 := 6
def IF_NAMESIZE : ℕ := 16

/-- A call of one of the two callbacks. -/
inductive NetutilCall
  | netUp (ifindex : ℤ) (ifname : CStr)
  | netDown (ifindex : ℤ) (ifname : CStr)
  deriving DecidableEq, Repr

/-- `*(int *)` of the four bytes at an offset -/
def loadInt (p : List UInt8) (off : ℕ) : Option UInt32 :=
  if off + 4 ≤ p.length then some (loadU32 p off) else none

def asInt (n : UInt32) : ℤ := (n.toNat : ℤ).bmod (2 ^ 32)

/-- `strcpy` from `p` into `size` bytes -/
def strcpyFrom (size : ℕ) (p : List UInt8) : Option CStr :=
  if 0 ∈ p ∧ (ofBuffer p).length < size then some (ofBuffer p) else none

/-- The locals of `_netutil_netlink_handle_newlink`. -/
structure LinkState where
  ifname : CStr
  state : UInt32
  deriving DecidableEq

/-- The switch for one attribute. -/
def readLinkAttr (link : LinkState) (attr : List UInt8) : Option LinkState :=
  if rtaType attr = IFLA_IFNAME then
    (strcpyFrom IF_NAMESIZE (attr.drop 4)).map fun ifname => { link with ifname }
  else if rtaType attr = IFLA_OPERSTATE then
    (loadInt attr 4).map fun state => { link with state }
  else some link

/-- The attributes behind the `struct ifinfomsg` of a message. -/
def linkAttrs (h : List UInt8) : List (List UInt8) :=
  walk rta (h.drop 32) ((nlmsg.size h : ℤ) - 32)

/-- `_netutil_netlink_handle_newlink` -/
def netutilNetlinkHandleNewlink (h : List UInt8) : Option (List NetutilCall) := do
  let link ← (linkAttrs h).foldlM readLinkAttr ⟨[], IF_OPER_UNKNOWN⟩
  if link.state = IF_OPER_DOWN then
    let ifindex ← loadInt h 20
    some [.netDown (asInt ifindex) link.ifname]
  else if link.state = IF_OPER_UP then
    let ifindex ← loadInt h 20
    some [.netUp (asInt ifindex) link.ifname]
  else some []

/-- The messages in front of `NLMSG_DONE`. -/
def linkMessages (buffer : List UInt8) (len : ℕ) : List (List UInt8) :=
  (walk nlmsg buffer len).takeWhile fun h => nlmsgType h ≠ NLMSG_DONE

def handleNlmsg (h : List UInt8) : Option (List NetutilCall) :=
  if nlmsgType h = RTM_NEWLINK then netutilNetlinkHandleNewlink h else some []

/-- The inner loop over what one `recv` has left in the buffer. -/
def handleDatagram (buffer : List UInt8) (len : ℕ) : Option (List NetutilCall) :=
  ((linkMessages buffer len).mapM handleNlmsg).map List.flatten

/-- The `buffer[4096]` of `netutil_handle_netlink_message`. -/
abbrev NetlinkBuffer := { buffer : List UInt8 // buffer.length = 4096 }

/-- `recv` of a datagram; what does not fit is lost, and what it does not reach stays. -/
def NetlinkBuffer.recv (buffer : NetlinkBuffer) (datagram : List UInt8) : NetlinkBuffer :=
  ⟨datagram.take 4096 ++ buffer.1.drop (datagram.take 4096).length, by
    have := buffer.2
    simp only [List.length_append, List.length_drop, List.length_take]
    omega⟩

theorem netlinkBuffer_recv (buffer : NetlinkBuffer) (datagram : List UInt8) :
    (buffer.recv datagram).1 =
      datagram.take 4096 ++ buffer.1.drop (datagram.take 4096).length := rfl

/-- `netutil_handle_netlink_message` with the datagrams queued at the socket: the callbacks
and what it leaves in the queue. An empty datagram ends the loop. -/
def netutilHandleNetlinkMessage (buffer : NetlinkBuffer) :
    List (List UInt8) → Option (List NetutilCall × List (List UInt8))
  | [] => some ([], [])
  | [] :: queue => some ([], queue)
  | (b :: datagram) :: queue => do
    let buffer := buffer.recv (b :: datagram)
    let calls ← handleDatagram buffer.1 ((b :: datagram).take 4096).length
    let (more, left) ← netutilHandleNetlinkMessage buffer queue
    some (calls ++ more, left)

def NetutilCall.event (attempt : ConnectResult) : NetutilCall → NetEvent
  | .netUp _ _ => .up attempt
  | .netDown ifindex _ => .down ifindex

/-- The callbacks of `_fritz_listen_thread_proc`, one after the other; `attempts i` is what
the one numbered `i` would meet if it tries to connect. -/
def runCallbacks (attempts : ℕ → ConnectResult) (calls : List NetutilCall) (srv : CIFritzServer) :
    CIFritzServer :=
  (calls.mapIdx fun i call => call.event (attempts i)).foldl NetEvent.handle srv

end Fritz2ci
