import Fritz2ci.Spec.Netlink
import Mathlib.Algebra.BigOperators.Ring.List

/-! What the kernel reports about the links reaches the callbacks: datagrams written as the
kernel writes them are read back message by message, as far as the buffer holds them. -/

namespace Fritz2ci

open CString LittleEndian Records

/-- A name that fits an interface. -/
structure LinkName where
  name : CStr
  nul : 0 ∉ name
  fits : name.length < IF_NAMESIZE

inductive LinkAttr
  | ifname (name : LinkName)
  | operstate (state : UInt8)
  | other (type : UInt16) (data : List UInt8) (short : data.length < 65532)
      (unread : type ≠ IFLA_IFNAME ∧ type ≠ IFLA_OPERSTATE)

def LinkAttr.type : LinkAttr → UInt16
  | .ifname _ => IFLA_IFNAME
  | .operstate _ => IFLA_OPERSTATE
  | .other type _ _ _ => type

def LinkAttr.data : LinkAttr → List UInt8
  | .ifname name => name.name ++ [0]
  | .operstate state => [state]
  | .other _ data _ _ => data

/-- An attribute with its padding, which the kernel zeroes. -/
def LinkAttr.bytes (a : LinkAttr) : List UInt8 :=
  bytes16 (4 + a.data.length).toUInt16 ++ bytes16 a.type ++ a.data ++
    List.replicate (align (4 + a.data.length) - (4 + a.data.length)) 0

/-- What an attribute says about its link. -/
def LinkAttr.apply (link : LinkState) : LinkAttr → LinkState
  | .ifname name => { link with ifname := name.name }
  | .operstate state => { link with state := state.toUInt32 }
  | .other .. => link

/-- An `RTM_NEWLINK` with the fields that are not looked at. -/
structure LinkMessage where
  head : { x : List UInt8 // x.length = 10 }
  family : { x : List UInt8 // x.length = 4 }
  ifindex : UInt32
  change : { x : List UInt8 // x.length = 8 }
  attrs : List LinkAttr
  short : 32 + (attrs.flatMap LinkAttr.bytes).length < 2 ^ 32

def LinkMessage.link (m : LinkMessage) : LinkState :=
  m.attrs.foldl LinkAttr.apply ⟨[], IF_OPER_UNKNOWN⟩

/-- The callback that a message asks for. -/
def LinkMessage.calls (m : LinkMessage) : List NetutilCall :=
  if m.link.state = IF_OPER_DOWN then [.netDown (asInt m.ifindex) m.link.ifname]
  else if m.link.state = IF_OPER_UP then [.netUp (asInt m.ifindex) m.link.ifname]
  else []

inductive NlMessage
  | newlink (m : LinkMessage)
  | other (type : UInt16) (head : { x : List UInt8 // x.length = 10 }) (payload : List UInt8)
      (padded : payload.length % 4 = 0) (short : 16 + payload.length < 2 ^ 32)
      (unread : type ≠ RTM_NEWLINK ∧ type ≠ NLMSG_DONE)

def NlMessage.type : NlMessage → UInt16
  | .newlink _ => RTM_NEWLINK
  | .other type .. => type

/-- A message behind its length and type. -/
def NlMessage.body : NlMessage → List UInt8
  | .newlink m =>
    m.head.1 ++ m.family.1 ++ bytes32 m.ifindex ++ m.change.1 ++ m.attrs.flatMap LinkAttr.bytes
  | .other _ head payload .. => head.1 ++ payload

def NlMessage.bytes (m : NlMessage) : List UInt8 :=
  bytes32 (6 + m.body.length).toUInt32 ++ bytes16 m.type ++ m.body

def NlMessage.calls : NlMessage → List NetutilCall
  | .newlink m => m.calls
  | .other .. => []

/-- What is sent at once: messages, then nothing or `NLMSG_DONE`. -/
structure LinkDatagram where
  messages : List NlMessage
  done : List UInt8
  stops : done = [] ∨ 16 ≤ done.length ∧ nlmsgType done = NLMSG_DONE
  nonempty : messages ≠ [] ∨ done ≠ []

def LinkDatagram.bytes (d : LinkDatagram) : List UInt8 :=
  d.messages.flatMap NlMessage.bytes ++ d.done

/-- The messages that lie within the first `n` bytes. -/
def fitting (n : ℕ) : List NlMessage → List NlMessage
  | [] => []
  | m :: ms => if m.bytes.length ≤ n then m :: fitting (n - m.bytes.length) ms else []

theorem loadU16_bytes16 (n : UInt16) (y : List UInt8) : loadU16 (bytes16 n ++ y) 0 = n :=
  value16_bytes16 n

theorem loadU32_bytes32 (n : UInt32) (y : List UInt8) : loadU32 (bytes32 n ++ y) 0 = n :=
  value32_bytes32 n

theorem linkAttr_data_short (a : LinkAttr) : a.data.length < 65532 := by
  cases a with
  | ifname name =>
    have := name.fits
    simp only [LinkAttr.data, List.length_append, List.length_singleton, IF_NAMESIZE] at this ⊢
    omega
  | operstate state => simp [LinkAttr.data]
  | other type data short unread => exact short

theorem linkAttr_length (a : LinkAttr) : a.bytes.length = align (4 + a.data.length) := by
  have := le_align (4 + a.data.length)
  simp only [LinkAttr.bytes, List.length_append, length_bytes16, List.length_replicate]
  omega

theorem linkAttr_size (a : LinkAttr) (y : List UInt8) :
    rta.size (a.bytes ++ y) = 4 + a.data.length := by
  have := linkAttr_data_short a
  simp only [rta, LinkAttr.bytes, List.append_assoc, loadU16_bytes16, UInt16.toNat_ofNat']
  exact Nat.mod_eq_of_lt (by omega)

theorem linkAttr_isRecord (a : LinkAttr) : IsRecord rta a.bytes := by
  have hsize := linkAttr_size a []
  rw [List.append_nil] at hsize
  exact ⟨by rw [hsize]; exact Nat.le_add_right _ _, by rw [hsize, linkAttr_length]⟩

theorem linkAttr_type (a : LinkAttr) (y : List UInt8) : rtaType (a.bytes ++ y) = a.type := by
  rw [rtaType, LinkAttr.bytes, List.append_assoc, List.append_assoc, List.append_assoc]
  exact value16_bytes16 a.type

theorem linkAttr_drop (a : LinkAttr) (y : List UInt8) : ∃ pad,
    (a.bytes ++ y).drop 4 = a.data ++ (List.replicate pad 0 ++ y) ∧
      align (4 + a.data.length) = 4 + a.data.length + pad := by
  refine ⟨align (4 + a.data.length) - (4 + a.data.length), ?_, ?_⟩
  · simp only [LinkAttr.bytes, List.append_assoc]
    rfl
  · have := le_align (4 + a.data.length)
    omega

theorem readLinkAttr_bytes (link : LinkState) (a : LinkAttr) (y : List UInt8) :
    readLinkAttr link (a.bytes ++ y) = some (a.apply link) := by
  have hne : IFLA_OPERSTATE ≠ IFLA_IFNAME := by decide
  obtain ⟨pad, hdrop, hpad⟩ := linkAttr_drop a y
  rw [readLinkAttr, linkAttr_type]
  cases a with
  | ifname name =>
    have hbuf : ofBuffer ((name.name ++ [0]) ++ (List.replicate pad 0 ++ y)) = name.name := by
      rw [List.append_assoc]
      exact ofBuffer_nul name.nul _
    rw [hdrop, LinkAttr.type, if_pos rfl, LinkAttr.data, strcpyFrom, hbuf,
      if_pos ⟨by simp, name.fits⟩]
    rfl
  | operstate state =>
    have hlen : 8 ≤ ((LinkAttr.operstate state).bytes ++ y).length := by
      have halign : align (4 + (LinkAttr.operstate state).data.length) = 8 := by
        simp [align, LinkAttr.data]
      rw [List.length_append, linkAttr_length, halign]
      exact Nat.le_add_right 8 _
    have hload : loadU32 ((LinkAttr.operstate state).bytes ++ y) 4 = state.toUInt32 := by
      simp [loadU32, LinkAttr.bytes, LinkAttr.data, align, bytes16, byteAt, value32,
        List.replicate]
    rw [LinkAttr.type, if_neg hne, if_pos rfl, loadInt, if_pos hlen, hload]
    rfl
  | other type data short unread =>
    rw [LinkAttr.type, if_neg unread.1, if_neg unread.2]
    rfl

theorem nlMessage_body (m : NlMessage) :
    10 ≤ m.body.length ∧ (6 + m.body.length) % 4 = 0 ∧ 6 + m.body.length < 2 ^ 32 := by
  cases m with
  | newlink m =>
    have hattrs : (m.attrs.flatMap LinkAttr.bytes).length % 4 = 0 := by
      rw [List.length_flatMap]
      refine Nat.mod_eq_zero_of_dvd (List.dvd_sum fun n hn => ?_)
      obtain ⟨a, -, rfl⟩ := List.mem_map.1 hn
      rw [linkAttr_length]
      exact Nat.dvd_mul_left 4 _
    have hshort := m.short
    have hlen : (NlMessage.newlink m).body.length =
        26 + (m.attrs.flatMap LinkAttr.bytes).length := by
      simp only [NlMessage.body, List.length_append, m.head.2, m.family.2, m.change.2,
        length_bytes32]
    rw [hlen]
    omega
  | other type head payload padded short unread =>
    have hlen : (NlMessage.other type head payload padded short unread).body.length =
        10 + payload.length := by
      rw [NlMessage.body, List.length_append, head.2]
    rw [hlen]
    omega

theorem nlMessage_length (m : NlMessage) : m.bytes.length = 6 + m.body.length := by
  simp only [NlMessage.bytes, List.length_append, length_bytes32, length_bytes16]

theorem nlMessage_size (m : NlMessage) (y : List UInt8) :
    nlmsg.size (m.bytes ++ y) = m.bytes.length := by
  have := nlMessage_body m
  rw [nlMessage_length]
  simp only [nlmsg, NlMessage.bytes, List.append_assoc, loadU32_bytes32, UInt32.toNat_ofNat']
  exact Nat.mod_eq_of_lt (by omega)

theorem nlMessage_isRecord (m : NlMessage) : IsRecord nlmsg m.bytes := by
  have := nlMessage_body m
  have hsize := nlMessage_size m []
  rw [List.append_nil] at hsize
  refine ⟨?_, ?_⟩
  · rw [hsize, nlMessage_length]
    show 16 ≤ _
    omega
  · rw [hsize, nlMessage_length, align]
    omega

theorem nlMessage_type (m : NlMessage) (y : List UInt8) : nlmsgType (m.bytes ++ y) = m.type := by
  rw [nlmsgType, NlMessage.bytes, List.append_assoc, List.append_assoc]
  exact value16_bytes16 m.type

theorem walk_empty (y : List UInt8) : walk rta y ((0 : ℕ) : ℤ) = [] :=
  walk_stop fun h => absurd h.1 (by decide)

theorem foldlM_linkAttrs (attrs : List LinkAttr) (y : List UInt8) (link : LinkState) :
    (walk rta (attrs.flatMap LinkAttr.bytes ++ y)
      ((attrs.flatMap LinkAttr.bytes).length : ℕ)).foldlM readLinkAttr link =
      some (attrs.foldl LinkAttr.apply link) := by
  have hmap : (walk rta (attrs.flatMap LinkAttr.bytes ++ y)
      ((attrs.flatMap LinkAttr.bytes).length + 0 : ℕ)).map (fun attr link => readLinkAttr link attr) =
      attrs.map (fun a link => some (a.apply link)) ++
        (walk rta y (0 : ℕ)).map fun attr link => readLinkAttr link attr :=
    map_walk_flatMap (fun a _ => ⟨linkAttr_isRecord a, fun y => funext fun link =>
      readLinkAttr_bytes link a y⟩) y 0
  rw [walk_empty, List.map_nil, List.append_nil, Nat.add_zero] at hmap
  have hfold : ∀ l : List (List UInt8), l.foldlM readLinkAttr link =
      (l.map fun attr link => readLinkAttr link attr).foldlM (fun link f => f link) link :=
    fun l => by rw [List.foldlM_map]
  rw [hfold, hmap, List.foldlM_map]
  exact List.foldlM_pure

theorem handleNlmsg_bytes (m : NlMessage) (y : List UInt8) :
    handleNlmsg (m.bytes ++ y) = some m.calls := by
  rw [handleNlmsg, nlMessage_type]
  cases m with
  | other type head payload padded short unread =>
    rw [NlMessage.type, if_neg unread.1]
    rfl
  | newlink m =>
    have hlen : (NlMessage.newlink m).bytes.length =
        32 + (m.attrs.flatMap LinkAttr.bytes).length := by
      simp only [nlMessage_length, NlMessage.body, List.length_append, m.head.2, m.family.2,
        m.change.2, length_bytes32]
      omega
    have hbytes : ∃ x, x.length = 20 ∧ (NlMessage.newlink m).bytes ++ y =
        x ++ (bytes32 m.ifindex ++ (m.change.1 ++ (m.attrs.flatMap LinkAttr.bytes ++ y))) := by
      refine ⟨bytes32 (6 + (NlMessage.newlink m).body.length).toUInt32 ++ bytes16 RTM_NEWLINK ++
        m.head.1 ++ m.family.1, ?_, ?_⟩
      · simp only [List.length_append, length_bytes32, length_bytes16, m.head.2, m.family.2]
      · simp only [NlMessage.bytes, NlMessage.type, NlMessage.body, List.append_assoc]
    obtain ⟨x, hx, hbytes⟩ := hbytes
    have hattrs : linkAttrs ((NlMessage.newlink m).bytes ++ y) =
        walk rta (m.attrs.flatMap LinkAttr.bytes ++ y)
          ((m.attrs.flatMap LinkAttr.bytes).length : ℕ) := by
      have hdrop : ((NlMessage.newlink m).bytes ++ y).drop 32 =
          m.attrs.flatMap LinkAttr.bytes ++ y := by
        rw [hbytes, ← List.append_assoc, ← List.append_assoc]
        refine List.drop_left' ?_
        simp only [List.length_append, hx, length_bytes32, m.change.2]
      rw [linkAttrs, nlMessage_size, hlen, hdrop]
      congr 1
      omega
    have hindex : loadInt ((NlMessage.newlink m).bytes ++ y) 20 = some m.ifindex := by
      rw [loadInt, if_pos (by rw [List.length_append, hlen]; omega), hbytes, ← hx]
      simp only [loadU32, byteAt, List.getD_append_right _ _ _ _ (Nat.le_add_right _ _),
        List.getD_append_right _ _ _ _ (le_refl x.length), Nat.add_sub_cancel_left, Nat.sub_self]
      exact congrArg some (value32_bytes32 m.ifindex)
    rw [NlMessage.type, if_pos rfl, netutilNetlinkHandleNewlink, hattrs, foldlM_linkAttrs]
    simp only [Option.bind_eq_bind, Option.bind_some, hindex, NlMessage.calls, LinkMessage.calls]
    rw [← LinkMessage.link]
    by_cases hdown : m.link.state = IF_OPER_DOWN
    · rw [if_pos hdown, if_pos hdown]
    · rw [if_neg hdown, if_neg hdown]
      by_cases hup : m.link.state = IF_OPER_UP
      · rw [if_pos hup, if_pos hup]
      · rw [if_neg hup, if_neg hup]

/-- What is left in the buffer behind the messages stops the loop. -/
def Stops (rest : List UInt8) : Prop := ∀ y, linkMessages (rest ++ y) rest.length = []

theorem stops_of_short {rest : List UInt8} (h : rest.length < 16) : Stops rest := by
  intro y
  have hhead : nlmsg.header = 16 := rfl
  rw [linkMessages, walk_stop fun hwalk => ?_]
  · rfl
  · have := hwalk.1
    omega

theorem stops_of_done {rest : List UInt8} (hlen : 16 ≤ rest.length)
    (hdone : nlmsgType rest = NLMSG_DONE) : Stops rest := by
  intro y
  have htype : nlmsgType (rest ++ y) = NLMSG_DONE := by
    rw [nlmsgType, loadU16_append y (by omega)]
    exact hdone
  rw [linkMessages, walk]
  split_ifs
  · rw [List.takeWhile_cons_of_neg (by simp [htype])]
  · rfl

theorem stops_take {rest : List UInt8} (hdone : nlmsgType rest = NLMSG_DONE) (n : ℕ) :
    Stops (rest.take n) := by
  by_cases hn : (rest.take n).length < 16
  · exact stops_of_short hn
  · refine stops_of_done (by omega) ?_
    rw [← hdone, nlmsgType, nlmsgType, ← loadU16_append (rest.drop n) (by omega),
      List.take_append_drop]

/-- A message that is cut short is not taken for one. -/
theorem stops_of_cut {m : NlMessage} {n : ℕ} (h : n < m.bytes.length) :
    Stops (m.bytes.take n) := by
  have hlen : (m.bytes.take n).length = n := List.length_take_of_le (by omega)
  by_cases hn : n < 16
  · exact stops_of_short (by omega)
  · intro y
    have hsize : nlmsg.size (m.bytes.take n ++ y) = m.bytes.length := by
      rw [nlmsg.size_append _ _ (by rw [hlen]; exact not_lt.1 hn),
        ← nlmsg.size_append _ (m.bytes.drop n) (by rw [hlen]; exact not_lt.1 hn),
        List.take_append_drop, ← List.append_nil m.bytes, nlMessage_size, List.append_nil]
    rw [linkMessages, walk_stop fun hwalk => ?_]
    · rfl
    · have := hwalk.2.2
      rw [hsize, hlen] at this
      omega

/-- What the buffer holds of a datagram: the messages that fit, and something that stops
the loop. -/
theorem take_messages (done : List UInt8)
    (hdone : done = [] ∨ 16 ≤ done.length ∧ nlmsgType done = NLMSG_DONE) (ms : List NlMessage)
    (n : ℕ) : ∃ rest, (ms.flatMap NlMessage.bytes ++ done).take n =
      (fitting n ms).flatMap NlMessage.bytes ++ rest ∧ Stops rest := by
  induction ms generalizing n with
  | nil =>
    refine ⟨done.take n, rfl, ?_⟩
    rcases hdone with rfl | ⟨-, htype⟩
    · rw [List.take_nil]
      exact stops_of_short (by decide)
    · exact stops_take htype n
  | cons m ms ih =>
    rw [List.flatMap_cons, List.append_assoc]
    by_cases hm : m.bytes.length ≤ n
    · obtain ⟨rest, hrest, hstop⟩ := ih (n - m.bytes.length)
      refine ⟨rest, ?_, hstop⟩
      rw [fitting, if_pos hm, List.flatMap_cons, List.append_assoc, ← hrest, List.take_append,
        List.take_of_length_le hm]
    · refine ⟨m.bytes.take n, ?_, stops_of_cut (not_le.1 hm)⟩
      rw [fitting, if_neg hm, List.take_append_of_le_length (by omega)]
      rfl

/-- All that the loop finds out about a message. -/
def nlmsgOutcome (h : List UInt8) : UInt16 × Option (List NetutilCall) :=
  (nlmsgType h, handleNlmsg h)

theorem handleDatagram_eq (buffer : List UInt8) (len : ℕ) :
    handleDatagram buffer len = ((((walk nlmsg buffer len).map nlmsgOutcome).takeWhile fun p =>
      p.1 ≠ NLMSG_DONE).mapM Prod.snd).map List.flatten := by
  rw [handleDatagram, linkMessages, List.takeWhile_map, List.mapM_map]
  rfl

theorem nlMessage_type_ne (m : NlMessage) : m.type ≠ NLMSG_DONE := by
  cases m with
  | newlink m => exact (by decide : RTM_NEWLINK ≠ NLMSG_DONE)
  | other type head payload padded short unread => exact unread.2

theorem handleDatagram_messages (ms : List NlMessage) {rest : List UInt8} (hrest : Stops rest)
    (y : List UInt8) :
    handleDatagram (ms.flatMap NlMessage.bytes ++ (rest ++ y))
      (ms.flatMap NlMessage.bytes ++ rest).length = some (ms.flatMap NlMessage.calls) := by
  have hmap : (walk nlmsg (ms.flatMap NlMessage.bytes ++ (rest ++ y))
      ((ms.flatMap NlMessage.bytes).length + rest.length : ℕ)).map nlmsgOutcome =
      ms.map (fun m => (m.type, some m.calls)) ++
        (walk nlmsg (rest ++ y) rest.length).map nlmsgOutcome :=
    map_walk_flatMap (fun m _ => ⟨nlMessage_isRecord m, fun y => by
      rw [nlmsgOutcome, nlMessage_type, handleNlmsg_bytes]⟩) (rest ++ y) rest.length
  have hstop : (((walk nlmsg (rest ++ y) rest.length).map nlmsgOutcome).takeWhile fun p =>
      p.1 ≠ NLMSG_DONE) = [] := by
    rw [List.takeWhile_map]
    exact congrArg (List.map nlmsgOutcome) (hrest y)
  rw [handleDatagram_eq, List.length_append, hmap, List.takeWhile_append_of_pos, hstop,
    List.append_nil, List.mapM_map]
  · have hpure : ms.mapM (fun m => some m.calls) = some (ms.map NlMessage.calls) :=
      List.mapM_pure
    exact (congrArg (Option.map List.flatten) hpure).trans (by rw [Option.map_some]; rfl)
  · intro p hp
    obtain ⟨m, -, rfl⟩ := List.mem_map.1 hp
    exact decide_eq_true (nlMessage_type_ne m)

theorem linkDatagram_ne_nil (d : LinkDatagram) : d.bytes ≠ [] := by
  intro h
  rw [LinkDatagram.bytes, List.append_eq_nil_iff, List.flatMap_eq_nil_iff] at h
  rcases d.nonempty with hm | hd
  · obtain ⟨m, hm⟩ := List.exists_mem_of_ne_nil _ hm
    have hlen := congrArg List.length (h.1 m hm)
    rw [nlMessage_length, List.length_nil] at hlen
    omega
  · exact hd h.2

/-- What the links reported: the messages of each datagram, as far as 4096 bytes hold them. -/
def reports (queue : List LinkDatagram) : List NetutilCall :=
  queue.flatMap fun d => (fitting 4096 d.messages).flatMap NlMessage.calls

theorem callbacks_eq_reports (buffer : NetlinkBuffer) (queue : List LinkDatagram) :
    netutilHandleNetlinkMessage buffer (queue.map LinkDatagram.bytes) =
      some (reports queue, []) := by
  induction queue generalizing buffer with
  | nil => rfl
  | cons d queue ih =>
    obtain ⟨rest, htake, hstop⟩ := take_messages d.done d.stops d.messages 4096
    rw [List.map_cons]
    cases hbytes : d.bytes with
    | nil => exact absurd hbytes (linkDatagram_ne_nil d)
    | cons b datagram =>
      have htake' : (b :: datagram).take 4096 =
          (fitting 4096 d.messages).flatMap NlMessage.bytes ++ rest := by
        rw [← hbytes]
        exact htake
      have hcalls : handleDatagram (buffer.recv (b :: datagram)).1
          ((b :: datagram).take 4096).length =
            some ((fitting 4096 d.messages).flatMap NlMessage.calls) := by
        rw [netlinkBuffer_recv, htake', List.append_assoc]
        exact handleDatagram_messages _ hstop _
      rw [netutilHandleNetlinkMessage, hcalls, ih]
      rfl

/-- No attempt to connect succeeds. -/
def ConnectResult.Fails : ConnectResult → Prop
  | .noSocket | .refused => True
  | .established _ _ => False

/-- A report that the interface `ifindex` is down. -/
def NetutilCall.isDown (ifindex : ℤ) : NetutilCall → Bool
  | .netDown i _ => i = ifindex
  | .netUp _ _ => false

def NetutilCall.isUp : NetutilCall → Bool
  | .netUp _ _ => true
  | .netDown _ _ => false

/-- The connection given up, and a timer for each later report of a link that is up. -/
def CIFritzServer.givenUp (srv : CIFritzServer) (ups : ℕ) : CIFritzServer :=
  { srv with sock := -1, connected := false, timers := srv.timers + ups }

theorem callback_connected {srv : CIFritzServer} (hc : srv.connected = true)
    (attempt : ConnectResult) (call : NetutilCall) :
    (call.event attempt).handle srv =
      if call.isDown srv.assocIfindex then srv.givenUp 0 else srv := by
  cases call with
  | netUp i n =>
    simp [NetutilCall.event, NetEvent.handle, fritzHandleNetUp, fritzTryConnect, hc,
      NetutilCall.isDown]
  | netDown i n =>
    simp [NetutilCall.event, NetEvent.handle, fritzHandleNetDown, NetutilCall.isDown,
      CIFritzServer.givenUp]

theorem callback_givenUp {srv : CIFritzServer} (hi : srv.initialized = true)
    {attempt : ConnectResult} (hf : attempt.Fails) (call : NetutilCall) (ups : ℕ) :
    (call.event attempt).handle (srv.givenUp ups) =
      srv.givenUp (ups + if call.isUp then 1 else 0) := by
  cases call with
  | netUp i n =>
    cases attempt with
    | established fd ifindex => exact hf.elim
    | noSocket | refused =>
      simp [NetutilCall.event, NetEvent.handle, fritzHandleNetUp, fritzTryConnect, fritzConnect,
        CIFritzServer.givenUp, NetutilCall.isUp, hi, Nat.add_assoc]
  | netDown i n =>
    -- a connection given up is not changed by giving it up
    show (if i = srv.assocIfindex then srv.givenUp ups else srv.givenUp ups) = srv.givenUp ups
    exact ite_self _

theorem runCallbacks_cons (attempts : ℕ → ConnectResult) (call : NetutilCall)
    (calls : List NetutilCall) (srv : CIFritzServer) :
    runCallbacks attempts (call :: calls) srv =
      runCallbacks (fun i => attempts (i + 1)) calls ((call.event (attempts 0)).handle srv) := by
  rw [runCallbacks, List.mapIdx_cons, List.foldl_cons]
  rfl

theorem runCallbacks_givenUp {srv : CIFritzServer} (hi : srv.initialized = true)
    {attempts : ℕ → ConnectResult} (hf : ∀ i, (attempts i).Fails) (calls : List NetutilCall)
    (ups : ℕ) :
    runCallbacks attempts calls (srv.givenUp ups) =
      srv.givenUp (ups + calls.countP NetutilCall.isUp) := by
  induction calls generalizing attempts ups with
  | nil => rfl
  | cons call calls ih =>
    rw [runCallbacks_cons, callback_givenUp hi (hf 0), ih fun i => hf (i + 1), List.countP_cons,
      Nat.add_assoc, Nat.add_comm (if call.isUp then 1 else 0)]

theorem runCallbacks_connected {srv : CIFritzServer} (hi : srv.initialized = true)
    (hc : srv.connected = true) {attempts : ℕ → ConnectResult} (hf : ∀ i, (attempts i).Fails)
    (calls : List NetutilCall) :
    (∀ pre post down, calls = pre ++ down :: post → down.isDown srv.assocIfindex →
      (∀ call ∈ pre, ¬ call.isDown srv.assocIfindex) →
        runCallbacks attempts calls srv = srv.givenUp (post.countP NetutilCall.isUp)) ∧
    ((∀ call ∈ calls, ¬ call.isDown srv.assocIfindex) → runCallbacks attempts calls srv = srv) := by
  induction calls generalizing attempts with
  | nil => exact ⟨by simp, fun _ => rfl⟩
  | cons call calls ih =>
    obtain ⟨ihdown, ihup⟩ := ih fun i => hf (i + 1)
    constructor
    · intro pre post down heq hdown hpre
      rw [runCallbacks_cons, callback_connected hc]
      cases pre with
      | nil =>
        obtain ⟨rfl, rfl⟩ := List.cons.inj heq
        rw [if_pos hdown, runCallbacks_givenUp hi fun i => hf (i + 1), Nat.zero_add]
      | cons p pre =>
        obtain ⟨rfl, hrest⟩ := List.cons.inj heq
        rw [if_neg (hpre call (by simp))]
        exact ihdown pre post down hrest hdown fun c hc => hpre c (by simp [hc])
    · intro hnone
      rw [runCallbacks_cons, callback_connected hc, if_neg (hnone call (by simp))]
      exact ihup fun c hc => hnone c (by simp [hc])

/-- The connection outlives what the links report while its own interface is not reported
down, and is given up at the first such report; each link reported up behind it arms one
more timer. -/
theorem connection_follows_links (buffer : NetlinkBuffer) (queue : List LinkDatagram)
    {srv : CIFritzServer} (hi : srv.initialized = true) (hc : srv.connected = true)
    {attempts : ℕ → ConnectResult} (hf : ∀ i, (attempts i).Fails) :
    ∃ calls, netutilHandleNetlinkMessage buffer (queue.map LinkDatagram.bytes) =
        some (calls, []) ∧ calls = reports queue ∧
      (∀ pre post down, calls = pre ++ down :: post → down.isDown srv.assocIfindex →
        (∀ call ∈ pre, ¬ call.isDown srv.assocIfindex) →
          runCallbacks attempts calls srv = srv.givenUp (post.countP NetutilCall.isUp)) ∧
      ((∀ call ∈ calls, ¬ call.isDown srv.assocIfindex) →
        runCallbacks attempts calls srv = srv) :=
  ⟨reports queue, callbacks_eq_reports buffer queue, rfl,
    runCallbacks_connected hi hc hf (reports queue)⟩

def online : CIFritzServer := ⟨true, true, true, 3, 7, [], 0, []⟩

/-- One message: the link 7 is down. -/
def linkSevenDown : LinkDatagram where
  messages := [.newlink ⟨⟨.replicate 10 0, rfl⟩, ⟨.replicate 4 0, rfl⟩, 7, ⟨.replicate 8 0, rfl⟩,
    [.operstate 2], by decide⟩]
  done := []
  stops := Or.inl rfl
  nonempty := Or.inl (List.cons_ne_nil _ _)

theorem linkSevenDown_gives_up :
    ∃ calls, netutilHandleNetlinkMessage ⟨.replicate 4096 170, List.length_replicate⟩
        [linkSevenDown.bytes] = some (calls, []) ∧
      runCallbacks (fun _ => .refused) calls online = online.givenUp 0 := by
  obtain ⟨calls, hcalls, heq, hdown, -⟩ :=
    connection_follows_links ⟨.replicate 4096 170, List.length_replicate⟩ [linkSevenDown]
      (show online.initialized = true from rfl) rfl
      (show ∀ i, ((fun _ => .refused : ℕ → ConnectResult) i).Fails from fun _ => trivial)
  have hreports : reports [linkSevenDown] = [.netDown 7 []] := by decide
  exact ⟨calls, hcalls, hdown [] [] (.netDown 7 []) (heq.trans hreports) rfl (by simp)⟩

end Fritz2ci
