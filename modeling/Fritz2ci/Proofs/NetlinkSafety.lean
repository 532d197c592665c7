import Fritz2ci.Spec.Netlink

/-! Where the netlink loops look, whatever the kernel has sent. The macros keep every header
inside the bytes received; the values of two kinds of attribute are read without a look at
the attribute's length. -/

namespace Fritz2ci

open CString Records

/-- A name that ends in the buffer and fits `ifname`, and an operational state of four bytes. -/
def LinkAttrOk (attr : List UInt8) : Prop :=
  (rtaType attr = IFLA_IFNAME →
    0 ∈ attr.drop 4 ∧ (ofBuffer (attr.drop 4)).length < IF_NAMESIZE) ∧
  (rtaType attr = IFLA_OPERSTATE → 8 ≤ attr.length)

theorem readLinkAttr_isSome (link : LinkState) (attr : List UInt8) :
    (readLinkAttr link attr).isSome ↔ LinkAttrOk attr := by
  have hne : IFLA_IFNAME ≠ IFLA_OPERSTATE := by decide
  unfold readLinkAttr LinkAttrOk
  by_cases hname : rtaType attr = IFLA_IFNAME
  · simp [hname, hne, strcpyFrom]
  · by_cases hstate : rtaType attr = IFLA_OPERSTATE
    · simp [hstate, hne.symm, loadInt]
    · simp [hname, hstate]

theorem foldlM_readLinkAttr_isSome (attrs : List (List UInt8)) (link : LinkState) :
    (attrs.foldlM readLinkAttr link).isSome ↔ ∀ attr ∈ attrs, LinkAttrOk attr := by
  induction attrs generalizing link with
  | nil => simp
  | cons attr attrs ih =>
    rw [List.foldlM_cons, List.forall_mem_cons, ← readLinkAttr_isSome link attr]
    cases h : readLinkAttr link attr with
    | none => simp
    | some l => simpa using ih l

theorem index_inside {h : List UInt8} (hsize : nlmsg.size h ≤ h.length) (hattr : linkAttrs h ≠ []) :
    24 ≤ h.length := by
  by_contra hlen
  refine hattr (walk_stop fun hwalk => ?_)
  have := hwalk.1
  simp only [rta] at this
  omega

theorem newlink_isSome {h : List UInt8} (hsize : nlmsg.size h ≤ h.length) :
    (netutilNetlinkHandleNewlink h).isSome ↔ ∀ attr ∈ linkAttrs h, LinkAttrOk attr := by
  rw [← foldlM_readLinkAttr_isSome (linkAttrs h) ⟨[], IF_OPER_UNKNOWN⟩]
  unfold netutilNetlinkHandleNewlink
  cases hfold : (linkAttrs h).foldlM readLinkAttr ⟨[], IF_OPER_UNKNOWN⟩ with
  | none => simp
  | some link =>
    have hindex : link.state ≠ IF_OPER_UNKNOWN → loadInt h 20 = some (loadU32 h 20) := by
      intro hstate
      refine if_pos (index_inside hsize fun hnil => hstate ?_)
      rw [hnil, List.foldlM_nil] at hfold
      cases hfold
      rfl
    by_cases hdown : link.state = IF_OPER_DOWN
    · simp [hdown, hindex (by rw [hdown]; decide)]
    · by_cases hup : link.state = IF_OPER_UP
      · simp [hup, hindex (by rw [hup]; decide), show IF_OPER_UP ≠ IF_OPER_DOWN by decide]
      · simp [hdown, hup]

theorem mapM_isSome {α β : Type} (f : α → Option β) (l : List α) :
    (l.mapM f).isSome ↔ ∀ a ∈ l, (f a).isSome := by
  induction l with
  | nil => simp
  | cons a l ih =>
    rw [List.mapM_cons, List.forall_mem_cons, ← ih]
    cases f a with
    | none => simp
    | some b => cases l.mapM f <;> simp

/-- What a message needs of its attributes. -/
def NlmsgOk (h : List UInt8) : Prop :=
  nlmsgType h = RTM_NEWLINK → ∀ attr ∈ linkAttrs h, LinkAttrOk attr

theorem linkMessages_inside {buffer : List UInt8} {len : ℕ} (hlen : len ≤ buffer.length) :
    ∀ h ∈ linkMessages buffer len, h <:+ buffer ∧ 16 ≤ nlmsg.size h ∧
      buffer.length - h.length + nlmsg.size h ≤ len := by
  intro h hh
  obtain ⟨hs, hhead, hle⟩ :=
    walk_inside (Int.ofNat_le.2 hlen) h ((List.takeWhile_prefix _).subset hh)
  have := hs.length_le
  refine ⟨hs, hhead, ?_⟩
  omega

theorem handleDatagram_isSome {buffer : List UInt8} {len : ℕ} (hlen : len ≤ buffer.length) :
    (handleDatagram buffer len).isSome ↔ ∀ h ∈ linkMessages buffer len, NlmsgOk h := by
  rw [handleDatagram, Option.isSome_map, mapM_isSome]
  refine forall₂_congr fun h hh => ?_
  obtain ⟨hs, -, hle⟩ := linkMessages_inside hlen h hh
  have := hs.length_le
  unfold handleNlmsg NlmsgOk
  by_cases ht : nlmsgType h = RTM_NEWLINK
  · rw [if_pos ht, newlink_isSome (by omega)]
    exact ⟨fun hok _ => hok, fun hok => hok ht⟩
  · rw [if_neg ht]
    exact iff_of_true rfl fun h' => absurd h' ht

/-- What the inner loop finds at each `recv`: the buffer and the number of bytes received. -/
def netlinkReads (buffer : NetlinkBuffer) : List (List UInt8) → List (NetlinkBuffer × ℕ)
  | [] => []
  | [] :: _ => []
  | (b :: datagram) :: queue =>
    (buffer.recv (b :: datagram), ((b :: datagram).take 4096).length) ::
      netlinkReads (buffer.recv (b :: datagram)) queue

theorem netlinkReads_le (buffer : NetlinkBuffer) (queue : List (List UInt8)) :
    ∀ r ∈ netlinkReads buffer queue, r.2 ≤ r.1.1.length := by
  induction buffer, queue using netlinkReads.induct with
  | case1 buffer => simp [netlinkReads]
  | case2 buffer queue => simp [netlinkReads]
  | case3 buffer b datagram queue ih =>
    rw [netlinkReads, List.forall_mem_cons]
    refine ⟨?_, ih⟩
    rw [(buffer.recv _).2]
    exact List.length_take_le _ _

/-- The loops end in the callbacks exactly where no attribute they meet needs more than the
buffer or `ifname` holds, and look for headers in what was received only. -/
theorem netlink_safe_iff (buffer : NetlinkBuffer) (queue : List (List UInt8)) :
    ((netutilHandleNetlinkMessage buffer queue).isSome ↔
      ∀ r ∈ netlinkReads buffer queue, ∀ h ∈ linkMessages r.1.1 r.2, NlmsgOk h) ∧
    ∀ r ∈ netlinkReads buffer queue, ∀ h ∈ linkMessages r.1.1 r.2,
      4096 - h.length + nlmsg.size h ≤ r.2 ∧ 16 ≤ nlmsg.size h ∧
        ∀ attr ∈ linkAttrs h,
          h.length - attr.length + rta.size attr ≤ nlmsg.size h ∧ 4 ≤ rta.size attr := by
  constructor
  · induction buffer, queue using netlinkReads.induct with
    | case1 buffer => simp [netutilHandleNetlinkMessage, netlinkReads]
    | case2 buffer queue => simp [netutilHandleNetlinkMessage, netlinkReads]
    | case3 buffer b datagram queue ih =>
      have hle := netlinkReads_le buffer ((b :: datagram) :: queue) _ List.mem_cons_self
      rw [netlinkReads, List.forall_mem_cons, ← ih, ← handleDatagram_isSome hle,
        netutilHandleNetlinkMessage]
      cases handleDatagram (buffer.recv (b :: datagram)).1 ((b :: datagram).take 4096).length with
      | none => simp
      | some calls =>
        cases netutilHandleNetlinkMessage (buffer.recv (b :: datagram)) queue <;> simp
  · intro r hr h hh
    have hin := netlinkReads_le buffer queue r hr
    obtain ⟨hs, hhead, hle⟩ := linkMessages_inside hin h hh
    have hlen := hs.length_le
    have hbuf := r.1.2
    refine ⟨by omega, hhead, fun attr hattr => ?_⟩
    have hrest : ((nlmsg.size h : ℤ) - 32) ≤ (h.drop 32).length := by
      rw [List.length_drop]
      omega
    obtain ⟨hs', hhead', hle'⟩ := walk_inside hrest attr hattr
    have hlen' := hs'.length_le
    rw [List.length_drop] at hle' hlen'
    refine ⟨?_, hhead'⟩
    omega

end Fritz2ci
