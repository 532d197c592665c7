import Fritz2ci.Lib.Machine
import Fritz2ci.Spec.Fritz

/-! The control pipe of the listener. A read answers the "disconnect" it consumes only
when it starts with it. Reads take up to 1023 bytes, so the request is answered exactly
when the number of unread bytes in front of it is a multiple of 1023 as it is written. -/

namespace Fritz2ci

open Machine CString

inductive PipeEvent
  | addSock | disconnect | read
  deriving DecidableEq, Repr

/-- One read: whether it took bytes of "disconnect" and whether the thread returned. -/
structure PipeRead where
  touched : Bool
  returned : Bool
  deriving DecidableEq, Repr

/-- The server, all bytes written to the pipe, the number of them read, the offset of
"disconnect" once it is written, and the reads so far. -/
structure ControlPipe where
  srv : CIFritzServer
  written : List UInt8
  consumed : ℕ
  request : Option ℕ
  reads : List PipeRead

def ControlPipe.start (r : ConnectResult) : ControlPipe := ⟨fritzStartup r, [], 0, none, []⟩

def ControlPipe.chunkEnd (s : ControlPipe) : ℕ := s.consumed + (pipeChunk s.srv).length

/-- Whether the next read takes a byte of the request. -/
def ControlPipe.touches (s : ControlPipe) : Bool :=
  match s.request with
  | none => false
  | some d => decide (d < s.chunkEnd) && decide (s.consumed < d + disconnect.length)

def pipeStep (s : ControlPipe) : PipeEvent → Option ControlPipe
  | .addSock => some { s with
      srv := writePipe addSock s.srv
      written := s.written ++ addSock }
  | .disconnect =>
    if s.request = none ∧ s.srv.listening then some { s with
      srv := fritzShutdownRequest s.srv
      written := s.written ++ disconnect
      request := some s.written.length }
    else none
  | .read =>
    if s.srv.listening ∧ s.srv.fdpipe ≠ [] then some { s with
      srv := fritzListenPipe s.srv
      consumed := s.chunkEnd
      reads := s.reads ++ [⟨s.touches, isTerminating (pipeChunk s.srv)⟩] }
    else none

/-- Every read that consumed bytes of "disconnect" made the thread return, and no read
that consumed only "add sock" did. -/
def Answered (s : ControlPipe) : Prop := ∀ r ∈ s.reads, r.returned = r.touched

/-- As "disconnect" is written, the unread bytes in front of it fill whole reads. -/
def RequestAligned (s : ControlPipe) (e : PipeEvent) : Prop :=
  e = .disconnect → s.srv.fdpipe.length % (FRITZ_BUFFER_SIZE - 1) = 0

def reps (n : ℕ) : List UInt8 := (List.replicate n addSock).flatten

theorem reps_succ (n : ℕ) : reps (n + 1) = reps n ++ addSock := by
  simp [reps, List.replicate_succ']

theorem addSock_length : addSock.length = 8 := by decide

theorem disconnect_length : disconnect.length = 10 := by decide

@[simp] theorem reps_length (n : ℕ) : (reps n).length = 8 * n := by
  simp [reps, addSock_length, Nat.mul_comm]

theorem reps_get (n i : ℕ) (hi : i < 8 * n) : (reps n)[i]? = addSock[i % 8]? := by
  induction n with
  | zero => omega
  | succ n ih =>
    rw [reps_succ]
    rcases Nat.lt_or_ge i (8 * n) with h | h
    · rw [List.getElem?_append_left (by simpa using h), ih h]
    · rw [List.getElem?_append_right (by simpa using h), reps_length]
      congr 1
      omega

/-- No two neighbouring bytes of repeated "add sock" are the "di" of "disconnect", and
its last byte is no "d". -/
theorem addSock_no_di : ∀ j < 8, addSock[j]? = some 100 →
    j + 1 < 8 ∧ addSock[j + 1]? ≠ some 105 := by
  decide

theorem isTerminating_false_of_head {b : UInt8} {l : List UInt8} (h : b ≠ 100) :
    isTerminating (b :: l) = false := by
  have hd : disconnect = 100 :: disconnect.tail := by decide
  obtain ⟨n, hn⟩ : ∃ n, (if 10 < (b :: l).length then 10 else (b :: l).length) = n + 1 := by
    split_ifs
    · exact ⟨9, rfl⟩
    · exact ⟨l.length, rfl⟩
  rw [isTerminating, hn, hd, strncmpEq_cons_of_ne h, Bool.and_false]

theorem isTerminating_false_of_second {b c : UInt8} {l : List UInt8} (h : c ≠ 105) :
    isTerminating (b :: c :: l) = false := by
  have hd : disconnect = 100 :: 105 :: disconnect.tail.tail := by decide
  obtain ⟨n, hn⟩ : ∃ n,
      (if 10 < (b :: c :: l).length then 10 else (b :: c :: l).length) = n + 2 := by
    split_ifs
    · exact ⟨8, rfl⟩
    · exact ⟨l.length, rfl⟩
  rw [isTerminating, hn, hd, strncmpEq, List.tail_cons, List.tail_cons, strncmpEq_cons_of_ne h]
  by_cases hb : b = 100
  · subst hb; simp
  · simp [hb]

theorem isTerminating_disconnect (v : List UInt8) : isTerminating (disconnect ++ v) = true := by
  have hn : (if 10 < (disconnect ++ v).length then 10 else (disconnect ++ v).length) = 10 := by
    rw [List.length_append, disconnect_length]
    split_ifs <;> omega
  rw [isTerminating, hn]
  rfl

/-- The bytes written so far when "disconnect" is the request at an offset. -/
def PipeStream (written : List UInt8) : Option ℕ → Prop
  | none => ∃ a, written = reps a
  | some d => ∃ a b, d = 8 * a ∧ written = reps a ++ (disconnect ++ reps b)

def chunkAt (w : List UInt8) (c : ℕ) : List UInt8 := (w.drop c).take (FRITZ_BUFFER_SIZE - 1)

theorem not_terminating_of_get {w : List UInt8} {c : ℕ} {b : UInt8} (hb : w[c]? = some b)
    (h : b = 100 → ∃ x, w[c + 1]? = some x ∧ x ≠ 105) : isTerminating (chunkAt w c) = false := by
  obtain ⟨hc, rfl⟩ := List.getElem?_eq_some_iff.1 hb
  rw [chunkAt, List.drop_eq_getElem_cons hc]
  by_cases hd : w[c] = 100
  · obtain ⟨x, hx, hne⟩ := h hd
    obtain ⟨hc', rfl⟩ := List.getElem?_eq_some_iff.1 hx
    rw [List.drop_eq_getElem_cons hc']
    exact isTerminating_false_of_second hne
  · exact isTerminating_false_of_head hd

theorem not_terminating_reps {a c : ℕ} (rest : List UInt8) (hc : c < 8 * a) :
    isTerminating (chunkAt (reps a ++ rest) c) = false := by
  have get (i : ℕ) (hi : i < 8 * a) : (reps a ++ rest)[i]? = addSock[i % 8]? := by
    rw [List.getElem?_append_left (by simpa using hi), reps_get a i hi]
  have hlt : c % 8 < addSock.length := by rw [addSock_length]; omega
  apply not_terminating_of_get (b := addSock[c % 8])
  · rw [get c hc, List.getElem?_eq_getElem hlt]
  · intro hd
    have h := addSock_no_di (c % 8) (by omega) (by rw [List.getElem?_eq_getElem hlt, hd])
    have hlt' : c % 8 + 1 < addSock.length := by rw [addSock_length]; omega
    refine ⟨addSock[c % 8 + 1], ?_, fun he => h.2 ?_⟩
    · rw [get (c + 1) (by omega), show (c + 1) % 8 = c % 8 + 1 by omega,
        List.getElem?_eq_getElem hlt']
    · rw [List.getElem?_eq_getElem hlt', he]

theorem disconnect_one_d : ∀ j < 10, 0 < j → disconnect[j]? ≠ some 100 := by decide

/-- With the request in the stream, a read makes the thread return exactly when it starts
with the request. -/
theorem terminating_iff (a b c : ℕ) (hc : c < (reps a ++ (disconnect ++ reps b)).length) :
    isTerminating (chunkAt (reps a ++ (disconnect ++ reps b)) c) = decide (c = 8 * a) := by
  simp only [List.length_append, reps_length, disconnect_length] at hc
  rcases Nat.lt_trichotomy c (8 * a) with h | h | h
  · rw [not_terminating_reps _ h, decide_eq_false (by omega)]
  · have hdrop : (reps a ++ (disconnect ++ reps b)).drop c = disconnect ++ reps b :=
      List.drop_left' (by rw [reps_length, h])
    rw [chunkAt, hdrop, List.take_append,
      List.take_of_length_le (by rw [disconnect_length]; decide), isTerminating_disconnect,
      decide_eq_true h]
  · rw [decide_eq_false (by omega)]
    rcases Nat.lt_or_ge c (8 * a + 10) with h' | h'
    · have hlt : c - 8 * a < disconnect.length := by rw [disconnect_length]; omega
      apply not_terminating_of_get (b := disconnect[c - 8 * a])
      · rw [List.getElem?_append_right (by rw [reps_length]; omega), reps_length,
          List.getElem?_append_left hlt, List.getElem?_eq_getElem hlt]
      · intro hd
        exfalso
        apply disconnect_one_d (c - 8 * a) (by omega) (by omega)
        rw [List.getElem?_eq_getElem hlt, hd]
    · have hskip : chunkAt (reps a ++ (disconnect ++ reps b)) c =
          chunkAt (reps b ++ []) (c - (8 * a + 10)) := by
        rw [chunkAt, chunkAt, ← List.append_assoc, List.append_nil, List.drop_append,
          List.drop_eq_nil_of_le (by simp [disconnect_length]; omega), List.nil_append,
          List.length_append, reps_length, disconnect_length]
      rw [hskip]
      exact not_terminating_reps [] (by omega)

/-- What holds in every run: the unread bytes are the written ones from `consumed` on. -/
structure Piped (s : ControlPipe) : Prop where
  unread : s.srv.fdpipe = s.written.drop s.consumed
  bound : s.consumed ≤ s.written.length
  stream : PipeStream s.written s.request
  waiting : s.request = none → s.srv.listening = true

theorem Piped.chunk {s : ControlPipe} (h : Piped s) :
    pipeChunk s.srv = chunkAt s.written s.consumed := by
  rw [pipeChunk, h.unread, chunkAt]

theorem Piped.chunkEnd {s : ControlPipe} (h : Piped s) :
    s.chunkEnd = min (s.consumed + 1023) s.written.length := by
  have hb := h.bound
  rw [ControlPipe.chunkEnd, h.chunk, chunkAt, List.length_take, List.length_drop]
  simp only [FRITZ_BUFFER_SIZE]
  omega

theorem Piped.pending {s : ControlPipe} (h : Piped s) (hne : s.srv.fdpipe ≠ []) :
    s.consumed < s.written.length := by
  by_contra hge
  apply hne
  rw [h.unread, List.drop_eq_nil_of_le (by omega)]

theorem Piped.returned {s : ControlPipe} (h : Piped s) (hne : s.srv.fdpipe ≠ []) :
    isTerminating (pipeChunk s.srv) = decide (s.request = some s.consumed) := by
  have hlt := h.pending hne
  have hst := h.stream
  rw [h.chunk]
  cases hr : s.request with
  | none =>
    rw [hr] at hst
    obtain ⟨a, ha⟩ := hst
    rw [ha] at hlt ⊢
    rw [← List.append_nil (reps a), not_terminating_reps [] (by simpa using hlt)]
    simp
  | some d =>
    rw [hr] at hst
    obtain ⟨a, b, rfl, hw⟩ := hst
    rw [hw] at hlt ⊢
    rw [terminating_iff a b s.consumed hlt]
    simp [eq_comm]

theorem Piped.room {s : ControlPipe} (h : Piped s) {d : ℕ} (hr : s.request = some d) :
    d + 10 ≤ s.written.length := by
  have hst := h.stream
  rw [hr] at hst
  obtain ⟨a, b, rfl, hw⟩ := hst
  simp only [hw, List.length_append, reps_length, disconnect_length]
  omega

theorem fritzListenPipe_listening (srv : CIFritzServer) :
    (fritzListenPipe srv).listening = (srv.listening && !isTerminating (pipeChunk srv)) := by
  unfold fritzListenPipe
  split <;> simp_all

theorem fritzListenPipe_fdpipe (srv : CIFritzServer) :
    (fritzListenPipe srv).fdpipe = srv.fdpipe.drop 1023 := by
  unfold fritzListenPipe
  split <;> rfl

theorem piped_start (r : ConnectResult) : Piped (ControlPipe.start r) := by
  refine ⟨?_, Nat.zero_le _, ⟨0, rfl⟩, fun _ => rfl⟩
  cases r <;> rfl

theorem pipeStep_cases {s s' : ControlPipe} {e : PipeEvent} (hs : pipeStep s e = some s') :
    (e = .addSock ∧ s' = { s with
      srv := writePipe addSock s.srv
      written := s.written ++ addSock }) ∨
    (e = .disconnect ∧ s.request = none ∧ s' = { s with
      srv := writePipe disconnect s.srv
      written := s.written ++ disconnect
      request := some s.written.length }) ∨
    (e = .read ∧ s.srv.listening = true ∧ s.srv.fdpipe ≠ [] ∧ s' = { s with
      srv := fritzListenPipe s.srv
      consumed := s.chunkEnd
      reads := s.reads ++ [⟨s.touches, isTerminating (pipeChunk s.srv)⟩] }) := by
  cases e with
  | addSock => exact Or.inl ⟨rfl, by simpa [pipeStep] using hs.symm⟩
  | disconnect =>
    simp only [pipeStep, Option.ite_none_right_eq_some, Option.some.injEq] at hs
    obtain ⟨⟨hr, hl⟩, rfl⟩ := hs
    exact Or.inr (Or.inl ⟨rfl, hr, by simp [fritzShutdownRequest, hl]⟩)
  | read =>
    simp only [pipeStep, Option.ite_none_right_eq_some, Option.some.injEq] at hs
    obtain ⟨⟨hl, hne⟩, rfl⟩ := hs
    exact Or.inr (Or.inr ⟨rfl, hl, hne, rfl⟩)

theorem Piped.step {s s' : ControlPipe} {e : PipeEvent} (h : Piped s)
    (hs : pipeStep s e = some s') : Piped s' := by
  have hb := h.bound
  have hst := h.stream
  rcases pipeStep_cases hs with ⟨-, rfl⟩ | ⟨-, hr, rfl⟩ | ⟨-, hl, hne, rfl⟩
  · refine ⟨?_, ?_, ?_, h.waiting⟩
    · simp only [writePipe, h.unread, List.drop_append_of_le_length hb]
    · simp only [List.length_append]; omega
    · cases hreq : s.request with
      | none =>
        rw [hreq] at hst
        obtain ⟨a, ha⟩ := hst
        exact ⟨a + 1, by rw [ha, reps_succ]⟩
      | some d =>
        rw [hreq] at hst
        obtain ⟨a, b, hd, hw⟩ := hst
        exact ⟨a, b + 1, hd, by rw [hw, reps_succ]; simp only [List.append_assoc]⟩
  · rw [hr] at hst
    obtain ⟨a, ha⟩ := hst
    refine ⟨?_, ?_, ⟨a, 0, ?_, ?_⟩, fun hn => by simp at hn⟩
    · simp only [writePipe, h.unread, List.drop_append_of_le_length hb]
    · simp only [List.length_append]; omega
    · rw [ha, reps_length]
    · rw [ha]; simp [reps]
  · have hce := h.chunkEnd
    refine ⟨?_, ?_, hst, fun hn => ?_⟩
    · simp only [fritzListenPipe_fdpipe, h.unread, List.drop_drop, hce]
      rcases Nat.le_total (s.consumed + 1023) s.written.length with hle | hle
      · rw [Nat.min_eq_left hle]
      · rw [Nat.min_eq_right hle, List.drop_eq_nil_of_le hle, List.drop_length]
    · simp only [hce]; omega
    · have hn' : s.request = none := hn
      simp only [fritzListenPipe_listening, hl, h.returned hne, hn']
      rfl

/-- Either the request waits behind whole reads of other bytes, or it has been read and
the thread has returned. -/
def Heeded (s : ControlPipe) : Prop :=
  ∀ d, s.request = some d → (s.consumed ≤ d ∧ (d - s.consumed) % 1023 = 0) ∨
    (d < s.consumed ∧ s.srv.listening = false)

/-- The request waits behind a part of a read, or a read of it went unanswered. -/
def Swallowed (s : ControlPipe) : Prop :=
  ∃ d, s.request = some d ∧ ((s.consumed < d ∧ (d - s.consumed) % 1023 ≠ 0) ∨
    (d < s.consumed ∧ ¬ Answered s))

theorem answered_read {s : ControlPipe} (r : PipeRead) (srv : CIFritzServer) (c : ℕ) :
    Answered { s with srv := srv, consumed := c, reads := s.reads ++ [r] } ↔
      Answered s ∧ r.returned = r.touched := by
  simp only [Answered, List.mem_append, List.mem_singleton]
  constructor
  · intro h
    exact ⟨fun x hx => h x (Or.inl hx), h r (Or.inr rfl)⟩
  · rintro ⟨h, hr⟩ x (hx | rfl)
    · exact h x hx
    · exact hr

theorem Piped.answers_iff {s : ControlPipe} (h : Piped s) (hne : s.srv.fdpipe ≠ []) :
    isTerminating (pipeChunk s.srv) = s.touches ↔
      ∀ d, s.request = some d → s.consumed = d ∨ s.chunkEnd ≤ d ∨ d + 10 ≤ s.consumed := by
  have hlt := h.pending hne
  have hce := h.chunkEnd
  rw [h.returned hne, ControlPipe.touches]
  cases hr : s.request with
  | none => simp
  | some d =>
    have hroom := h.room hr
    simp only [Option.some.injEq, disconnect_length, forall_eq']
    rw [← Bool.decide_and, decide_eq_decide]
    omega

theorem heeded_step {s s' : ControlPipe} {e : PipeEvent} (hp : Piped s) (ha : Answered s)
    (hh : Heeded s) (hs : pipeStep s e = some s') (hc : RequestAligned s e) :
    Answered s' ∧ Heeded s' := by
  rcases pipeStep_cases hs with ⟨-, rfl⟩ | ⟨rfl, hr, rfl⟩ | ⟨-, hl, hne, rfl⟩
  · exact ⟨ha, hh⟩
  · refine ⟨ha, fun d hd => Or.inl ?_⟩
    have hlen : s.srv.fdpipe.length = s.written.length - s.consumed := by
      rw [hp.unread, List.length_drop]
    have hal := hc rfl
    rw [hlen] at hal
    obtain rfl : s.written.length = d := by simpa using hd
    exact ⟨hp.bound, by simpa [FRITZ_BUFFER_SIZE] using hal⟩
  · have hce := hp.chunkEnd
    have hlt := hp.pending hne
    have hready (d : ℕ) (hd : s.request = some d) :
        s.consumed ≤ d ∧ (d - s.consumed) % 1023 = 0 := by
      rcases hh d hd with h | ⟨-, h⟩
      · exact h
      · rw [hl] at h; exact absurd h (by decide)
    refine ⟨(answered_read _ _ _).2 ⟨ha, (hp.answers_iff hne).2 fun d hd => ?_⟩, fun d hd => ?_⟩
    · have hroom := hp.room hd
      obtain ⟨h1, h2⟩ := hready d hd
      omega
    · have hroom := hp.room hd
      obtain ⟨h1, h2⟩ := hready d hd
      rcases Nat.eq_or_lt_of_le h1 with heq | hlt'
      · right
        refine ⟨by simp only [hce]; omega, ?_⟩
        have hreq : s.request = some s.consumed := by rw [heq]; exact hd
        simp only [fritzListenPipe_listening, hp.returned hne, hreq, decide_true, Bool.not_true,
          Bool.and_false]
      · left
        simp only [hce]
        omega

theorem swallowed_of_unaligned {s s' : ControlPipe} {e : PipeEvent} (hp : Piped s)
    (hs : pipeStep s e = some s') (hc : ¬ RequestAligned s e) : Swallowed s' := by
  have he : e = .disconnect := by
    by_contra he
    exact hc fun h => absurd h he
  subst he
  rcases pipeStep_cases hs with ⟨h, -⟩ | ⟨-, -, rfl⟩ | ⟨h, -⟩
  · cases h
  · have hlen : s.srv.fdpipe.length = s.written.length - s.consumed := by
      rw [hp.unread, List.length_drop]
    have hal : (s.written.length - s.consumed) % 1023 ≠ 0 := by
      intro h0
      exact hc fun _ => by rw [hlen]; simpa [FRITZ_BUFFER_SIZE] using h0
    have hlt : s.consumed < s.written.length := by omega
    exact ⟨_, rfl, Or.inl ⟨hlt, hal⟩⟩
  · cases h

theorem swallowed_step {s s' : ControlPipe} {e : PipeEvent} (hp : Piped s) (h : Swallowed s)
    (hs : pipeStep s e = some s') : Swallowed s' := by
  obtain ⟨d, hd, h⟩ := h
  rcases pipeStep_cases hs with ⟨-, rfl⟩ | ⟨-, hr, -⟩ | ⟨-, hl, hne, rfl⟩
  · exact ⟨d, hd, h⟩
  · rw [hr] at hd; cases hd
  · have hce := hp.chunkEnd
    have hroom := hp.room hd
    refine ⟨d, hd, ?_⟩
    simp only [answered_read, hp.answers_iff hne]
    rcases h with ⟨h1, h2⟩ | ⟨h1, h2⟩
    · -- the read either stays in front of the request or takes a part of it
      rcases Nat.lt_or_ge d (s.consumed + 1023) with hcut | hfar
      · right
        refine ⟨by omega, fun hok => ?_⟩
        rcases hok.2 d hd with h3 | h3 | h3 <;> omega
      · left
        omega
    · right
      exact ⟨by omega, fun hok => h2 hok.1⟩

/-- Some byte of "disconnect" has been read. -/
def RequestRead (s : ControlPipe) : Prop := ∃ d, s.request = some d ∧ d < s.consumed

/-- Whatever the order of the writes and reads: a request written behind whole reads of
other bytes is answered, and a request of which anything was read is answered only then. -/
theorem answered_iff_request_aligned (r : ConnectResult) (es : List PipeEvent) (t : ControlPipe)
    (ht : run pipeStep (ControlPipe.start r) es = some t) :
    (Each pipeStep RequestAligned (ControlPipe.start r) es → Answered t) ∧
      (RequestRead t → Answered t → Each pipeStep RequestAligned (ControlPipe.start r) es) := by
  have hstart : Piped (ControlPipe.start r) ∧ Answered (ControlPipe.start r) ∧
      Heeded (ControlPipe.start r) := by
    refine ⟨piped_start r, ?_, ?_⟩
    · intro x hx; cases hx
    · intro d hd; cases hd
  have hrun := run_inv_or_bad
    (fun s => Piped s ∧ Answered s ∧ Heeded s) (fun s => Piped s ∧ Swallowed s) RequestAligned
    (fun s e s' hi hs hc => ⟨hi.1.step hs, heeded_step hi.1 hi.2.1 hi.2.2 hs hc⟩)
    (fun s e s' hi hs hc => ⟨hi.1.step hs, swallowed_of_unaligned hi.1 hs hc⟩)
    (fun s e s' hb hs => ⟨hb.1.step hs, swallowed_step hb.1 hb.2 hs⟩)
    es _ t hstart ht
  rcases hrun with ⟨hall, -, hans, -⟩ | ⟨hnot, -, d, hd, hbad⟩
  · exact ⟨fun _ => hans, fun _ _ => hall⟩
  · refine ⟨fun h => absurd h hnot, ?_⟩
    rintro ⟨d', hd', hlt⟩ hans
    rw [hd] at hd'
    cases hd'
    rcases hbad with ⟨h1, -⟩ | ⟨-, h2⟩
    · omega
    · exact absurd hans h2

/-- "add sock" and "disconnect" taken by one read. -/
theorem request_behind_addSock_swallowed :
    ∃ t, run pipeStep (ControlPipe.start .refused) [.addSock, .disconnect, .read] = some t ∧
      ¬ Answered t := by
  refine ⟨_, rfl, fun h => ?_⟩
  have hr := h ⟨true, false⟩ (by decide)
  exact absurd hr (by decide)

theorem request_alone_answered :
    Answered ⟨fritzListenPipe (writePipe disconnect (fritzStartup .refused)), disconnect, 10,
      some 0, [⟨true, true⟩]⟩ := by
  refine (answered_iff_request_aligned .refused [.disconnect, .read] _ rfl).1 ?_
  refine each_cons.2 fun s' hs => ⟨fun _ => rfl, each_cons.2 fun s'' _ => ⟨?_, each_nil⟩⟩
  intro h
  cases h

end Fritz2ci
