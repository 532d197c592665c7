import Fritz2ci.Lib.Machine
import Fritz2ci.Spec.ClientMessage

/-! Which messages of a client are handled. The handler drops a header that has arrived in
part and gives up a client whose body is late, so all depends on when bytes arrive. -/

namespace Fritz2ci

open Machine

variable {net : CINet}

def Message.IsLeave (m : Message net) : Prop := net.readMsg m.bytes = some .leave

instance (m : Message net) : Decidable m.IsLeave := inferInstanceAs (Decidable (_ = _))

/-- The messages up to the first LEAVE. -/
def throughLeave : List (Message net) → List (Message net)
  | [] => []
  | m :: ms => if m.IsLeave then [m] else m :: throughLeave ms

/-- Messages with their offsets in the stream. -/
def located (offset : ℕ) : List (Message net) → List (ℕ × List UInt8)
  | [] => []
  | m :: ms => (offset, m.bytes) :: located (offset + m.bytes.length) ms

/-- Every message was handled once, in order, up to the first LEAVE, and the client was
given up for no other reason than a LEAVE or a close. -/
def Delivered (messages : List (Message net)) (s : ClientStream) : Prop :=
  s.dispatched = located 0 (throughLeave messages) ∧
    (s.client.Marked → (∃ m ∈ messages, m.IsLeave) ∨ s.closed)

/-- Everything sent has been received, or the client has been given up. -/
def Complete (s : ClientStream) : Prop :=
  s.client.Marked ∨ (s.sent = [] ∧ s.arrived = [] ∧ s.handler = .header)

/-- A header is received when it has arrived as a whole, and more of a body when some of it
has arrived. -/
def InTime (net : CINet) (s : ClientStream) : StreamEvent → Prop
  | .recv =>
    match s.handler with
    | .header => s.arrived = [] ∨ net.headerLength ≤ s.arrived.length
    | .body _ _ _ => s.arrived ≠ []
    | .drain => True
  | _ => True

theorem bytesOf_cons (m : Message net) (ms : List (Message net)) :
    bytesOf (m :: ms) = m.header ++ (m.body ++ bytesOf ms) := by
  simp [bytesOf, Message.bytes]

theorem bytesOf_append (xs ys : List (Message net)) :
    bytesOf (xs ++ ys) = bytesOf xs ++ bytesOf ys := List.flatMap_append

theorem header_ne_nil (m : Message net) : m.header ≠ [] := by
  rw [← List.length_pos_iff, m.header_length]
  exact net.header_pos

theorem bytesOf_eq_nil {ms : List (Message net)} (h : bytesOf ms = []) : ms = [] := by
  cases ms with
  | nil => rfl
  | cons m ms =>
    rw [bytesOf_cons] at h
    exact absurd (List.append_eq_nil_iff.1 h).1 (header_ne_nil m)

theorem located_append (offset : ℕ) (xs ys : List (Message net)) :
    located offset (xs ++ ys) =
      located offset xs ++ located (offset + (bytesOf xs).length) ys := by
  induction xs generalizing offset with
  | nil => simp [located, bytesOf]
  | cons m xs ih =>
    have hlen : offset + (bytesOf (m :: xs)).length =
        offset + m.bytes.length + (bytesOf xs).length := by
      simp [bytesOf, Nat.add_assoc]
    simp only [List.cons_append, located, ih, hlen]

theorem located_lt {offset : ℕ} {xs : List (Message net)} {e : ℕ × List UInt8}
    (h : e ∈ located offset xs) : e.1 < offset + (bytesOf xs).length := by
  induction xs generalizing offset with
  | nil => cases h
  | cons m xs ih =>
    have hpos : 0 < m.header.length := List.length_pos_iff.2 (header_ne_nil m)
    rw [bytesOf_cons, List.length_append, List.length_append]
    rcases List.mem_cons.1 h with rfl | h
    · exact Nat.lt_add_of_pos_right (by omega)
    · have := ih h
      rw [Message.bytes, List.length_append] at this
      omega

theorem throughLeave_append {xs : List (Message net)} (h : ∀ m ∈ xs, ¬ m.IsLeave)
    (ys : List (Message net)) : throughLeave (xs ++ ys) = xs ++ throughLeave ys := by
  induction xs with
  | nil => rfl
  | cons m xs ih =>
    rw [List.cons_append, throughLeave, if_neg (h m (by simp)),
      ih fun m' hm => h m' (by simp [hm]), List.cons_append]

/-- Some messages handled, the rest ahead, the next of them perhaps read in part. -/
structure Reading (s : ClientStream) (done todo : List (Message net)) : Prop where
  unmarked : ¬ s.client.Marked
  noLeave : ∀ m ∈ done, ¬ m.IsLeave
  dispatched : s.dispatched = located 0 done
  closed : s.closed → s.sent = []
  phase : match s.handler with
    | .header => s.arrived ++ s.sent = bytesOf todo ∧ s.taken = (bytesOf done).length
    | .body offset header read => ∃ m rest, todo = m :: rest ∧ header = m.header ∧
        offset = (bytesOf done).length ∧ s.taken = offset + header.length + read.length ∧
        read.length < m.body.length ∧ read ++ (s.arrived ++ s.sent) = m.body ++ bytesOf rest
    | .drain => False

def Good (messages : List (Message net)) (s : ClientStream) : Prop :=
  (∃ done todo, messages = done ++ todo ∧ Reading s done todo) ∨
    (s.client.Marked ∧ Delivered messages s)

/-- A message that is due has been left behind. -/
def Lost (messages : List (Message net)) (s : ClientStream) : Prop :=
  ∃ e ∈ located 0 (throughLeave messages), e ∉ s.dispatched ∧ (s.client.Marked ∨
    e.1 < s.taken ∧ ∀ offset header read, s.handler = .body offset header read → e.1 < offset)

theorem delivered_of_complete {messages : List (Message net)} {s : ClientStream}
    (h : Good messages s) (hc : Complete s) : Delivered messages s := by
  rcases h with ⟨done, todo, rfl, h⟩ | ⟨-, h⟩
  · rcases hc with hm | ⟨hsent, harrived, hheader⟩
    · exact absurd hm h.unmarked
    · have hphase := h.phase
      simp only [hheader, harrived, hsent] at hphase
      obtain rfl := bytesOf_eq_nil hphase.1.symm
      refine ⟨?_, fun hm => absurd hm h.unmarked⟩
      rw [throughLeave_append h.noLeave, h.dispatched, throughLeave, List.append_nil]
  · exact h

theorem not_delivered_of_lost {messages : List (Message net)} {s : ClientStream}
    (h : Lost messages s) : ¬ Delivered messages s := by
  intro hd
  obtain ⟨e, he, hnot, -⟩ := h
  exact hnot (hd.1 ▸ he)

theorem next_due {s : ClientStream} {done rest : List (Message net)} {m : Message net}
    (h : Reading s done (m :: rest)) :
    ((bytesOf done).length, m.bytes) ∈ located 0 (throughLeave (done ++ m :: rest)) ∧
      ((bytesOf done).length, m.bytes) ∉ s.dispatched := by
  constructor
  · rw [throughLeave_append h.noLeave, located_append, Nat.zero_add]
    refine List.mem_append_right _ ?_
    rw [throughLeave]
    split_ifs <;> simp [located]
  · rw [h.dispatched]
    intro hm
    exact absurd (located_lt hm) (by simp)

theorem handleRequest_marked_iff {client : CIClient} (h : ¬ client.Marked) (msg : CINetRequest) :
    (handleRequest client msg).Marked ↔ msg = .leave := by
  cases msg with
  | leave => exact iff_of_true (marked_markRemove client) rfl
  | version major minor patch => exact iff_of_false h (by simp)
  | _ => exact iff_of_false h (by simp)

/-- The message that is read to its end is handled, or more of its body is still to come. -/
theorem readOn_good {messages done rest : List (Message net)} {m : Message net}
    {s : ClientStream} {read : List UInt8} (hmsgs : messages = done ++ m :: rest)
    (hunmarked : ¬ s.client.Marked) (hleave : ∀ m ∈ done, ¬ m.IsLeave)
    (hdispatched : s.dispatched = located 0 done) (hclosed : s.closed → s.sent = [])
    (htaken : s.taken = (bytesOf done).length + m.header.length + read.length)
    (hread : read.length ≤ m.body.length)
    (hstream : read ++ (s.arrived ++ s.sent) = m.body ++ bytesOf rest) :
    Good messages (s.readOn net (bytesOf done).length m.header read) := by
  unfold ClientStream.readOn
  rw [m.body_length]
  split_ifs with hlt
  · exact Or.inl ⟨done, m :: rest, hmsgs, hunmarked, hleave, hdispatched, hclosed,
      m, rest, rfl, rfl, rfl, htaken, hlt, hstream⟩
  · obtain ⟨rfl, hrest⟩ := List.append_inj hstream (by omega)
    obtain ⟨msg, hmsg⟩ := Option.isSome_iff_exists.1 m.valid
    have hlast : located 0 done ++ [((bytesOf done).length, m.header ++ m.body)] =
        located 0 (done ++ [m]) := by
      rw [located_append, Nat.zero_add]
      rfl
    simp only [ClientStream.handle, hmsg, hdispatched, hlast]
    by_cases hl : msg = .leave
    · subst hl
      have hm : m.IsLeave := hmsg
      refine Or.inr ⟨(handleRequest_marked_iff hunmarked _).2 rfl, ?_, fun _ => Or.inl ⟨m, ?_, hm⟩⟩
      · rw [hmsgs, throughLeave_append hleave, throughLeave, if_pos hm]
      · rw [hmsgs]
        simp
    · have hm : ¬ m.IsLeave := fun h => hl (Option.some.inj (hmsg.symm.trans h))
      refine Or.inl ⟨done ++ [m], rest, by simp [hmsgs], ?_, ?_, rfl, hclosed, hrest, ?_⟩
      · exact fun h => hl ((handleRequest_marked_iff hunmarked _).1 h)
      · intro m' hm'
        rcases List.mem_append.1 hm' with hm' | hm'
        · exact hleave m' hm'
        · rwa [List.mem_singleton.1 hm']
      · rw [bytesOf_append, List.length_append, htaken, Nat.add_assoc, bytesOf_cons]
        simp [bytesOf]

/-- Bytes that arrive and a close change nothing for what is read. -/
theorem reading_arrive {s : ClientStream} {done todo : List (Message net)}
    (h : Reading s done todo) (n : ℕ) :
    Reading { s with sent := s.sent.drop n, arrived := s.arrived ++ s.sent.take n }
      done todo := by
  have hstream : s.arrived ++ s.sent.take n ++ s.sent.drop n = s.arrived ++ s.sent := by
    rw [List.append_assoc, List.take_append_drop]
  refine ⟨h.unmarked, h.noLeave, h.dispatched, fun hc => by simp [h.closed hc], ?_⟩
  have hphase := h.phase
  cases hh : s.handler with
  | header => simpa only [hh, hstream] using hphase
  | body offset header read => simpa only [hh, hstream] using hphase
  | drain => simp only [hh] at hphase

theorem readHeader_lt_iff (buffer : List UInt8) :
    (net.readHeader buffer).1 < net.headerLength ↔ buffer.length < net.headerLength := by
  rw [lt_iff_le_and_ne, ne_eq, net.readHeader_full, not_le]
  exact and_iff_right (net.readHeader_le buffer)

/-- What a `recv` of the handler can do. -/
inductive RecvStep (net : CINet) (s : ClientStream) : ClientStream → Prop
  | closed (hh : s.handler = .header) (ha : s.arrived = []) (hc : s.closed) :
      RecvStep net s { s with client := s.client.markRemove }
  | short (hh : s.handler = .header) (ha : s.arrived ≠ [])
      (hlen : s.arrived.length < net.headerLength) :
      RecvStep net s { (s.receive net.headerLength).2 with handler := .drain }
  | header (hh : s.handler = .header) (hlen : net.headerLength ≤ s.arrived.length) :
      RecvStep net s ((s.receive net.headerLength).2.readOn net s.taken
        (s.receive net.headerLength).1 [])
  | late {offset : ℕ} {header read : List UInt8} (hh : s.handler = .body offset header read)
      (ha : s.arrived = []) :
      RecvStep net s { s with client := s.client.markRemove, handler := .header }
  | body {offset : ℕ} {header read : List UInt8} (hh : s.handler = .body offset header read)
      (ha : s.arrived ≠ []) :
      RecvStep net s
        ((s.receive ((net.readHeader header).2 - read.length)).2.readOn net offset header
          (read ++ (s.receive ((net.readHeader header).2 - read.length)).1))
  | drained (hh : s.handler = .drain) (ha : s.arrived = []) :
      RecvStep net s { s with handler := .header }
  | drain (hh : s.handler = .drain) (ha : s.arrived ≠ []) : RecvStep net s (s.receive 32).2

theorem recv_step {s s' : ClientStream} (hs : s.recv net = some s') :
    ¬ s.client.Marked ∧ RecvStep net s s' := by
  unfold ClientStream.recv at hs
  by_cases hm : s.client.Marked
  · rw [if_pos hm] at hs
    cases hs
  rw [if_neg hm] at hs
  refine ⟨hm, ?_⟩
  have htake : (net.readHeader (s.receive net.headerLength).1).1 < net.headerLength ↔
      s.arrived.length < net.headerLength := by
    rw [readHeader_lt_iff, ClientStream.receive, List.length_take]
    omega
  split at hs
  · next hh =>
    split_ifs at hs with ha hc
    · obtain rfl := Option.some.inj hs
      exact .closed hh ha hc
    · by_cases hlen : s.arrived.length < net.headerLength
      · obtain rfl := Option.some.inj ((if_pos (htake.2 hlen)).symm.trans hs)
        exact .short hh ha hlen
      · obtain rfl := Option.some.inj ((if_neg (mt htake.1 hlen)).symm.trans hs)
        exact .header hh (not_lt.1 hlen)
  · next hh =>
    split_ifs at hs with ha <;> obtain rfl := Option.some.inj hs
    · exact .drained hh ha
    · exact .drain hh ha
  · next offset header read hh =>
    split_ifs at hs with ha <;> obtain rfl := Option.some.inj hs
    · exact .late hh ha
    · exact .body hh ha

theorem good_header {messages done todo : List (Message net)} {s : ClientStream}
    (hmsgs : messages = done ++ todo) (h : Reading s done todo) (hh : s.handler = .header)
    (hlen : net.headerLength ≤ s.arrived.length) :
    Good messages ((s.receive net.headerLength).2.readOn net s.taken
      (s.receive net.headerLength).1 []) := by
  have hphase := h.phase
  simp only [hh] at hphase
  obtain ⟨hstream, htaken⟩ := hphase
  cases todo with
  | nil =>
    have := net.header_pos
    rw [(List.append_eq_nil_iff.1 hstream).1, List.length_nil] at hlen
    omega
  | cons m rest =>
    rw [bytesOf_cons] at hstream
    have htake : s.arrived.take net.headerLength = m.header := by
      have := congrArg (List.take net.headerLength) hstream
      rwa [List.take_append_of_le_length hlen, ← m.header_length, List.take_left,
        m.header_length] at this
    have hdrop : s.arrived.drop net.headerLength ++ s.sent = m.body ++ bytesOf rest := by
      have := congrArg (List.drop net.headerLength) hstream
      rwa [List.drop_append_of_le_length hlen, ← m.header_length, List.drop_left,
        m.header_length] at this
    simp only [ClientStream.receive, htake, htaken]
    exact readOn_good hmsgs h.unmarked h.noLeave h.dispatched h.closed rfl (Nat.zero_le _) hdrop

theorem good_body {messages done todo : List (Message net)} {s : ClientStream}
    {offset : ℕ} {header read : List UInt8} (hmsgs : messages = done ++ todo)
    (h : Reading s done todo) (hh : s.handler = .body offset header read) :
    Good messages ((s.receive ((net.readHeader header).2 - read.length)).2.readOn net offset header
      (read ++ (s.receive ((net.readHeader header).2 - read.length)).1)) := by
  have hphase := h.phase
  simp only [hh] at hphase
  obtain ⟨m, rest, rfl, rfl, rfl, htaken, hlt, hstream⟩ := hphase
  simp only [ClientStream.receive, m.body_length]
  refine readOn_good hmsgs h.unmarked h.noLeave h.dispatched h.closed ?_ ?_ ?_
  · simp only [htaken, List.length_append]
    omega
  · rw [List.length_append, List.length_take]
    omega
  · rw [← hstream, List.append_assoc, ← List.append_assoc (List.take _ _), List.take_append_drop]

theorem good_closed {messages done todo : List (Message net)} {s : ClientStream}
    (hmsgs : messages = done ++ todo) (h : Reading s done todo) (hh : s.handler = .header)
    (ha : s.arrived = []) (hc : s.closed) :
    Good messages { s with client := s.client.markRemove } := by
  have hphase := h.phase
  simp only [hh, ha, h.closed hc, List.append_nil] at hphase
  obtain rfl := bytesOf_eq_nil hphase.1.symm
  refine Or.inr ⟨marked_markRemove _, ?_, fun _ => Or.inr hc⟩
  rw [hmsgs, throughLeave_append h.noLeave, throughLeave, List.append_nil]
  exact h.dispatched

theorem Reading.not_drain {s : ClientStream} {done todo : List (Message net)}
    (h : Reading s done todo) : s.handler ≠ .drain := by
  intro hh
  have hphase := h.phase
  simp only [hh] at hphase

theorem good_recv {messages : List (Message net)} {s s' : ClientStream}
    (h : Good messages s) (hs : s.recv net = some s') (ht : InTime net s .recv) :
    Good messages s' := by
  obtain ⟨hm, hstep⟩ := recv_step hs
  obtain ⟨done, todo, hmsgs, h⟩ := h.resolve_right fun h => hm h.1
  cases hstep with
  | closed hh ha hc => exact good_closed hmsgs h hh ha hc
  | short hh ha hlen =>
    simp only [InTime, hh] at ht
    exact absurd (ht.resolve_left ha) (not_le.2 hlen)
  | header hh hlen => exact good_header hmsgs h hh hlen
  | late hh ha =>
    simp only [InTime, hh] at ht
    exact absurd ha ht
  | body hh ha => exact good_body hmsgs h hh
  | drained hh ha => exact absurd hh h.not_drain
  | drain hh ha => exact absurd hh h.not_drain

theorem good_step {messages : List (Message net)} {s s' : ClientStream} {e : StreamEvent}
    (h : Good messages s) (hs : streamStep net s e = some s') (ht : InTime net s e) :
    Good messages s' := by
  cases e with
  | arrive n =>
    obtain rfl := Option.some.inj hs
    rcases h with ⟨done, todo, hmsgs, h⟩ | h
    · exact Or.inl ⟨done, todo, hmsgs, reading_arrive h n⟩
    · exact Or.inr h
  | close =>
    simp only [streamStep, Option.ite_none_right_eq_some, Option.some.injEq] at hs
    obtain ⟨hsent, rfl⟩ := hs
    rcases h with ⟨done, todo, hmsgs, h⟩ | ⟨hm, hd, -⟩
    · exact Or.inl ⟨done, todo, hmsgs, h.unmarked, h.noLeave, h.dispatched, fun _ => hsent,
        h.phase⟩
    · exact Or.inr ⟨hm, hd, fun _ => Or.inr rfl⟩
  | recv => exact good_recv h hs ht

/-- Of a header in part the bytes are dropped, and without the rest of its body a client is
given up: either way the message ahead is lost. -/
theorem lost_of_late {messages : List (Message net)} {s s' : ClientStream} {e : StreamEvent}
    (h : Good messages s) (hs : streamStep net s e = some s') (ht : ¬ InTime net s e) :
    Lost messages s' := by
  cases e with
  | arrive n => exact absurd trivial ht
  | close => exact absurd trivial ht
  | recv =>
    obtain ⟨hm, hstep⟩ := recv_step hs
    obtain ⟨done, todo, rfl, hr⟩ := h.resolve_right fun h => hm h.1
    have hphase := hr.phase
    cases hstep with
    | closed hh ha hc =>
      simp only [InTime, hh] at ht
      exact absurd (Or.inl ha) ht
    | short hh ha hlen =>
      simp only [hh] at hphase
      cases todo with
      | nil => exact absurd (List.append_eq_nil_iff.1 hphase.1).1 ha
      | cons m rest =>
        obtain ⟨hdue, hnot⟩ := next_due hr
        refine ⟨_, hdue, hnot, Or.inr ⟨?_, fun _ _ _ hb => Handler.noConfusion hb⟩⟩
        have hpos := List.length_pos_iff.2 ha
        simp only [ClientStream.receive, hphase.2, List.length_take]
        omega
    | header hh hlen =>
      simp only [InTime, hh] at ht
      exact absurd (Or.inr hlen) ht
    | late hh ha =>
      simp only [hh] at hphase
      obtain ⟨m, rest, rfl, -⟩ := hphase
      obtain ⟨hdue, hnot⟩ := next_due hr
      exact ⟨_, hdue, hnot, Or.inl (marked_markRemove _)⟩
    | body hh ha =>
      simp only [InTime, hh] at ht
      exact absurd ha ht
    | drained hh ha => exact absurd hh hr.not_drain
    | drain hh ha => exact absurd hh hr.not_drain

theorem lost_readOn {messages : List (Message net)} {s : ClientStream} {e : ℕ × List UInt8}
    (he : e ∈ located 0 (throughLeave messages)) (hnot : e ∉ s.dispatched)
    (htaken : e.1 < s.taken) {offset : ℕ} (hoffset : e.1 < offset) (header read : List UInt8) :
    Lost messages (s.readOn net offset header read) := by
  unfold ClientStream.readOn
  split_ifs
  · refine ⟨e, he, hnot, Or.inr ⟨htaken, fun offset' header' read' hb => ?_⟩⟩
    obtain ⟨rfl, -, -⟩ := Handler.body.inj hb
    exact hoffset
  · unfold ClientStream.handle
    split
    · refine ⟨e, he, fun hm => ?_, Or.inr ⟨htaken, fun _ _ _ hb => Handler.noConfusion hb⟩⟩
      rcases List.mem_append.1 hm with hm | hm
      · exact hnot hm
      · rw [List.mem_singleton.1 hm] at hoffset
        exact Nat.lt_irrefl _ hoffset
    · exact ⟨e, he, hnot, Or.inr ⟨htaken, fun _ _ _ hb => Handler.noConfusion hb⟩⟩

theorem lost_step {messages : List (Message net)} {s s' : ClientStream} {ev : StreamEvent}
    (h : Lost messages s) (hs : streamStep net s ev = some s') : Lost messages s' := by
  obtain ⟨e, he, hnot, hlost⟩ := h
  cases ev with
  | arrive n =>
    obtain rfl := Option.some.inj hs
    exact ⟨e, he, hnot, hlost⟩
  | close =>
    simp only [streamStep, Option.ite_none_right_eq_some, Option.some.injEq] at hs
    obtain ⟨-, rfl⟩ := hs
    exact ⟨e, he, hnot, hlost⟩
  | recv =>
    obtain ⟨hm, hstep⟩ := recv_step hs
    obtain ⟨htaken, hoffset⟩ := hlost.resolve_left hm
    have hmore : ∀ n, e.1 < (s.receive n).2.taken := fun n => Nat.lt_add_right _ htaken
    cases hstep with
    | closed hh ha hc => exact ⟨e, he, hnot, Or.inl (marked_markRemove _)⟩
    | short hh ha hlen =>
      exact ⟨e, he, hnot, Or.inr ⟨hmore _, fun _ _ _ hb => Handler.noConfusion hb⟩⟩
    | header hh hlen =>
      refine lost_readOn he ?_ (hmore _) htaken _ _
      exact hnot
    | late hh ha => exact ⟨e, he, hnot, Or.inl (marked_markRemove _)⟩
    | body hh ha =>
      refine lost_readOn he ?_ (hmore _) (hoffset _ _ _ hh) _ _
      exact hnot
    | drained hh ha =>
      exact ⟨e, he, hnot, Or.inr ⟨htaken, fun _ _ _ hb => Handler.noConfusion hb⟩⟩
    | drain hh ha => exact ⟨e, he, hnot, Or.inr ⟨hmore _, fun _ _ _ hb => hoffset _ _ _ hb⟩⟩

theorem good_start {client : CIClient} (hc : ¬ client.Marked) (messages : List (Message net)) :
    Good messages (streamStart client messages) :=
  Or.inl ⟨[], messages, rfl, hc, by simp, rfl, fun h => Bool.noConfusion h, rfl, rfl⟩

/-- A run that receives all a client sends handles every message once, in order, exactly
when no `recv` of it came too early. -/
theorem delivered_iff_in_time {messages : List (Message net)} {client : CIClient}
    {es : List StreamEvent} {t : ClientStream} (hc : ¬ client.Marked)
    (hrun : run (streamStep net) (streamStart client messages) es = some t) (ht : Complete t) :
    Delivered messages t ↔ Each (streamStep net) (InTime net) (streamStart client messages) es := by
  rcases run_inv_or_bad (Good messages) (Lost messages) (InTime net)
    (fun _ _ _ => good_step) (fun _ _ _ => lost_of_late) (fun _ _ _ => lost_step)
    es _ t (good_start hc messages) hrun with ⟨heach, hgood⟩ | ⟨hlate, hlost⟩
  · exact iff_of_true (delivered_of_complete hgood ht) heach
  · exact iff_of_false (not_delivered_of_lost hlost) hlate

/-- A libcinet with headers of two bytes, the kind of a message and the length of its
body. -/
def smallCINet : CINet where
  headerLength := 2
  readHeader buffer := (min 2 buffer.length, (buffer.getD 1 0).toNat)
  readMsg msgdata := match msgdata with
    | 1 :: _ => some .leave
    | 2 :: _ => some .dbNumCalls
    | _ => none
  header_pos := by decide
  header_le := by decide
  readHeader_le buffer := Nat.min_le_left 2 buffer.length
  readHeader_full buffer :=
    ⟨fun h => h.symm.trans_le (Nat.min_le_right 2 buffer.length), Nat.min_eq_left⟩

def numCalls : Message smallCINet where
  header := [2, 1]
  body := [7]
  header_length := rfl
  body_length := rfl
  valid := rfl

def newlyAccepted : CIClient := ⟨6, 0, CI_MAKE_VERSION 2 0 0, 0⟩

theorem whole_message_handled : Delivered [numCalls]
    { streamStart newlyAccepted [numCalls] with
      sent := [], taken := 3, dispatched := [(0, [2, 1, 7])] } := by
  have hrun : run (streamStep smallCINet) (streamStart newlyAccepted [numCalls])
      [.arrive 3, .recv, .recv] = some _ := rfl
  refine (delivered_iff_in_time (by decide) hrun (Or.inr ⟨rfl, rfl, rfl⟩)).2 ?_
  refine each_cons.2 fun s1 h1 => ⟨trivial, each_cons.2 fun s2 h2 => ⟨?_, ?_⟩⟩
  · obtain rfl := Option.some.inj h1
    exact Or.inr (by decide)
  · obtain rfl := Option.some.inj h1
    obtain rfl := Option.some.inj h2
    refine each_cons.2 fun s3 h3 => ⟨?_, each_nil⟩
    exact List.cons_ne_nil _ _

/-- A header whose second byte is late. -/
theorem split_header_lost : ¬ ∀ (net : CINet) (messages : List (Message net)) (client : CIClient)
    (es : List StreamEvent) (t : ClientStream), ¬ client.Marked →
    run (streamStep net) (streamStart client messages) es = some t → Complete t →
    Delivered messages t := by
  intro h
  have hd := h smallCINet [numCalls] newlyAccepted
    [.arrive 1, .recv, .recv, .arrive 2, .recv, .recv] _ (by decide) rfl (Or.inl (by decide))
  exact absurd hd.1 (by decide)

end Fritz2ci
