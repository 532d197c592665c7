import Fritz2ci.Spec.Main

/-! The calls of a run are split between the table and the queue of sets to do. Nothing
takes a set off the queue while the program runs, so the first refused insert sends it and
every later call there for good. -/

namespace Fritz2ci

/-- A RING notification with what the handler finds as it arrives. -/
structure Ring where
  env : Surroundings
  cmsg : CIFritzCallMsg
  isRing : cmsg.msgtype = .ring

def Ring.set (r : Ring) : CIDataSet := ringSet r.env r.cmsg

def Ring.accepts (r : Ring) : Bool := r.env.accepts

def Program.start (db : Database) : Program := ⟨{ db with cidata := [] }, [], [], []⟩

def handleRings (p : Program) (rs : List Ring) : Program :=
  rs.foldl (fun p r => handleFritzMessage r.env p r.cmsg) p

theorem handleRings_cons (p : Program) (r : Ring) (rs : List Ring) :
    handleRings p (r :: rs) = handleRings (handleFritzMessage r.env p r.cmsg) rs := rfl

theorem storeOrQueue_accepted {p : Program} (h : p.dbDataTodo = []) (set : CIDataSet) :
    (storeOrQueue true set p).db.cidata = p.db.cidata ++ [set] ∧
      (storeOrQueue true set p).dbDataTodo = [] := by
  simp [storeOrQueue, h, dbhandlerAddData]

theorem storeOrQueue_refused {p : Program} (h : p.dbDataTodo = []) (set : CIDataSet) :
    (storeOrQueue false set p).db.cidata = p.db.cidata ∧
      (storeOrQueue false set p).dbDataTodo = [set] := by
  simp [storeOrQueue, h, dbhandlerAddData]

theorem storeOrQueue_queued {p : Program} (h : p.dbDataTodo ≠ []) (accepts : Bool)
    (set : CIDataSet) :
    (storeOrQueue accepts set p).db.cidata = p.db.cidata ∧
      (storeOrQueue accepts set p).dbDataTodo = p.dbDataTodo ++ [set] := by
  simp [storeOrQueue, h]

/-- Of the handler, only the locked section touches the table and the queue. -/
theorem handle_ring (p : Program) (r : Ring) : ∃ q : Program,
    q.db = p.db ∧ q.dbDataTodo = p.dbDataTodo ∧
      (handleFritzMessage r.env p r.cmsg).db = (storeOrQueue r.accepts r.set q).db ∧
      (handleFritzMessage r.env p r.cmsg).dbDataTodo =
        (storeOrQueue r.accepts r.set q).dbDataTodo := by
  refine ⟨Program.broadcast .message (filled r.env r.cmsg).set (some r.env.msgid)
    { p with backup := p.backup ++ [(fillRing r.env r.cmsg).set] }, rfl, rfl, ?_⟩
  simp only [handleFritzMessage, r.isRing, Ring.accepts, Ring.set]
  split <;> exact ⟨rfl, rfl⟩

theorem handle_accepted {p : Program} {r : Ring} (h : p.dbDataTodo = []) (ha : r.accepts = true) :
    (handleFritzMessage r.env p r.cmsg).db.cidata = p.db.cidata ++ [r.set] ∧
      (handleFritzMessage r.env p r.cmsg).dbDataTodo = [] := by
  obtain ⟨q, hdb, htodo, h1, h2⟩ := handle_ring p r
  rw [h1, h2, ha, ← hdb]
  exact storeOrQueue_accepted (htodo.trans h) r.set

theorem handle_refused {p : Program} {r : Ring} (h : p.dbDataTodo = [])
    (ha : r.accepts = false) :
    (handleFritzMessage r.env p r.cmsg).db.cidata = p.db.cidata ∧
      (handleFritzMessage r.env p r.cmsg).dbDataTodo = [r.set] := by
  obtain ⟨q, hdb, htodo, h1, h2⟩ := handle_ring p r
  rw [h1, h2, ha, ← hdb]
  exact storeOrQueue_refused (htodo.trans h) r.set

theorem handle_queued {p : Program} (r : Ring) (h : p.dbDataTodo ≠ []) :
    (handleFritzMessage r.env p r.cmsg).db.cidata = p.db.cidata ∧
      (handleFritzMessage r.env p r.cmsg).dbDataTodo = p.dbDataTodo ++ [r.set] := by
  obtain ⟨q, hdb, htodo, h1, h2⟩ := handle_ring p r
  rw [h1, h2, ← hdb, ← htodo]
  exact storeOrQueue_queued (by rwa [htodo]) r.accepts r.set

theorem handleRings_queued (rs : List Ring) (p : Program) (h : p.dbDataTodo ≠ []) :
    (handleRings p rs).db.cidata = p.db.cidata ∧
      (handleRings p rs).dbDataTodo = p.dbDataTodo ++ rs.map Ring.set := by
  induction rs generalizing p with
  | nil => simp [handleRings]
  | cons r rs ih =>
    obtain ⟨h1, h2⟩ := handle_queued r h
    obtain ⟨ih1, ih2⟩ := ih (handleFritzMessage r.env p r.cmsg) (by rw [h2]; simp)
    rw [handleRings_cons, ih1, ih2, h1, h2]
    simp

/-- The table gets the calls before the first refused insert, the queue all others. -/
theorem handleRings_split (rs : List Ring) (p : Program) (h : p.dbDataTodo = []) :
    (handleRings p rs).db.cidata =
        p.db.cidata ++ (rs.takeWhile Ring.accepts).map Ring.set ∧
      (handleRings p rs).dbDataTodo = (rs.dropWhile Ring.accepts).map Ring.set := by
  induction rs generalizing p with
  | nil => simp [handleRings, h]
  | cons r rs ih =>
    cases ha : r.accepts with
    | true =>
      obtain ⟨h1, h2⟩ := handle_accepted h ha
      obtain ⟨ih1, ih2⟩ := ih (handleFritzMessage r.env p r.cmsg) h2
      rw [handleRings_cons, ih1, ih2, h1]
      simp [ha]
    | false =>
      obtain ⟨h1, h2⟩ := handle_refused h ha
      obtain ⟨q1, q2⟩ := handleRings_queued rs (handleFritzMessage r.env p r.cmsg)
        (by rw [h2]; simp)
      rw [handleRings_cons, q1, q2, h1, h2]
      simp [ha]

theorem stored_or_queued (db : Database) (rs : List Ring) :
    (handleRings (.start db) rs).db.cidata ++ (handleRings (.start db) rs).dbDataTodo =
      rs.map Ring.set := by
  obtain ⟨h1, h2⟩ := handleRings_split rs (.start db) rfl
  rw [h1, h2]
  simp only [Program.start, List.nil_append, ← List.map_append, List.takeWhile_append_dropWhile]

/-- All calls so far are in the table, and none is left to do. -/
def AllStored (db : Database) (rs : List Ring) : Prop :=
  (handleRings (.start db) rs).db.cidata = rs.map Ring.set ∧
    (handleRings (.start db) rs).dbDataTodo = []

theorem allStored_iff (db : Database) (rs : List Ring) :
    AllStored db rs ↔ ∀ r ∈ rs, r.accepts = true := by
  have hsum := stored_or_queued db rs
  obtain ⟨-, h2⟩ := handleRings_split rs (.start db) rfl
  rw [AllStored, h2, List.map_eq_nil_iff, List.dropWhile_eq_nil_iff]
  refine ⟨fun h => h.2, fun h => ⟨?_, h⟩⟩
  rw [h2, List.dropWhile_eq_nil_iff.2 h, List.map_nil, List.append_nil] at hsum
  exact hsum

/-- Every call that arrives while the database accepts inserts leaves all calls stored,
exactly when no insert was refused before one that is accepted. -/
theorem allStored_when_accepting_iff (db : Database) (rs : List Ring) :
    (∀ pre r, pre ++ [r] <+: rs → r.accepts = true → AllStored db (pre ++ [r])) ↔
      ∀ pre r, pre ++ [r] <+: rs → r.accepts = true → ∀ r' ∈ pre, r'.accepts = true := by
  constructor
  · intro h pre r hp ha r' hr'
    exact (allStored_iff db _).1 (h pre r hp ha) r' (List.mem_append_left _ hr')
  · intro h pre r hp ha
    refine (allStored_iff db _).2 fun r' hr' => ?_
    rcases List.mem_append.1 hr' with hr' | hr'
    · exact h pre r hp ha r' hr'
    · obtain rfl := List.mem_singleton.1 hr'
      exact ha

def bareRing (accepts : Bool) : Ring :=
  ⟨⟨⟨none, fun _ => 0⟩, none, [], [], fun _ => none, accepts⟩,
    { CIFritzCallMsg.zero with msgtype := .ring }, rfl⟩

/-- One refused insert, then one accepted. -/
theorem refused_then_accepting_lost :
    ¬ ∀ pre r, pre ++ [r] <+: [bareRing false, bareRing true] → r.accepts = true →
      AllStored .empty (pre ++ [r]) := by
  intro h
  have hall := (allStored_iff _ _).1
    (h [bareRing false] (bareRing true) (List.prefix_refl _) rfl) (bareRing false) (by simp)
  cases hall

end Fritz2ci
