import Fritz2ci.Lib.Blocks
import Fritz2ci.Proofs.DataSet
import Fritz2ci.Proofs.Delivery
import Fritz2ci.Spec.Main

/-! The stages of a ring as a client sees them. The Fritz thread broadcasts a ring as a message,
an update where the lookup found a name, and its completion, all under one id, before it turns
to the next notification. -/

namespace Fritz2ci

open Blocks CString Machine Socket

/-- What `cisrv_broadcast_message` is called with. -/
abbrev Notice := CIServerMsg × CIDataSet × Option CStr

/-- The broadcasts for a notification. -/
def notices (m : Surroundings × CIFritzCallMsg) : List Notice :=
  match m.2.msgtype with
  | .ring =>
    (.message, (filled m.1 m.2).set, some m.1.msgid) ::
      ((if (m.1.lookup (filled m.1 m.2).set).isSome then
        [(.update, ringSet m.1 m.2, some m.1.msgid)] else []) ++
      [(.complete, ringSet m.1 m.2, some m.1.msgid)])
  | .call => [(.call, (filled m.1 m.2).set, none)]
  | _ => []

theorem storeOrQueue_broadcasts (accepts : Bool) (set : CIDataSet) (p : Program) :
    (storeOrQueue accepts set p).broadcasts = p.broadcasts := by
  unfold storeOrQueue
  dsimp only
  split_ifs <;> rfl

theorem handleFritzMessage_broadcasts (env : Surroundings) (p : Program) (cmsg : CIFritzCallMsg) :
    (handleFritzMessage env p cmsg).broadcasts = p.broadcasts ++ notices (env, cmsg) := by
  unfold handleFritzMessage notices
  cases cmsg.msgtype with
  | ring =>
    dsimp only
    split_ifs <;> simp [Program.broadcast, storeOrQueue_broadcasts]
  | call => rfl
  | _ => exact (List.append_nil _).symm

/-- The notifications that the Fritz thread handles one after the other. -/
def handleAll (p : Program) (msgs : List (Surroundings × CIFritzCallMsg)) : Program :=
  msgs.foldl (fun p m => handleFritzMessage m.1 p m.2) p

theorem handleAll_broadcasts (p : Program) (msgs : List (Surroundings × CIFritzCallMsg)) :
    (handleAll p msgs).broadcasts = p.broadcasts ++ msgs.flatMap notices := by
  unfold handleAll
  induction msgs generalizing p with
  | nil => exact (List.append_nil _).symm
  | cons m msgs ih =>
    rw [List.foldl_cons, ih, handleFritzMessage_broadcasts, List.append_assoc, List.flatMap_cons]

def render (encode : CINetMsg → List UInt8) (n : Notice) : CIBroadcast where
  msgtype := n.1
  msgdata := ((netMessage n.1 (some n.2.1) n.2.2).map encode).getD []
  cmsg := legacyMessage n.1 (some n.2.1)

/-- However connecting, disconnecting and broadcasting interleave, a client sees the end of the
ring during which it joined, then every ring and call with all its stages and in order, and the
beginning of the one during which it left. -/
theorem client_sees_rings {s : CIServer} (h : Listening s) (encode : CINetMsg → List UInt8)
    (db : Database) (msgs : List (Surroundings × CIFritzCallMsg)) (conn : ℕ)
    {es : List ServerEvent} (hes : broadcasts es <+:
      (handleAll ⟨db, [], [], []⟩ msgs).broadcasts.map (render encode)) :
    ∃ seen, Part notices msgs seen ∧
      (heard conn 0 s es).map (fun x => x.broadcast.1) = seen.map (render encode) := by
  have hdistinct : Distinct s := by
    constructor <;> simp [conns, h.clientlist]
  have hpart := (heard_consecutive conn es hdistinct 0).map Prod.fst
  rw [List.map_map, List.zipIdx_map_fst] at hpart
  rw [handleAll_broadcasts, List.nil_append] at hes
  obtain ⟨seen, hseen, heq⟩ := List.infix_map_iff.1 (hpart.trans hes.isInfix)
  exact ⟨seen, part_of_infix hseen, heq⟩

/-- A client that joins before a ring from Berlin. -/
def berlinRun : List ServerEvent :=
  [.build, .select [3], .accept] ++ (notices (berlin, berlinRing)).flatMap fun n =>
    [.broadcastSend n.1 (render (fun _ => [1, 2, 3]) n).msgdata
      (render (fun _ => [1, 2, 3]) n).cmsg fun _ _ => .room 1409, .broadcastRemove]

theorem berlinRun_seen : ∃ seen, Part notices [(berlin, berlinRing)] seen ∧
    (heard 0 0 firstServer berlinRun).map (fun x => x.broadcast.1) =
      seen.map (render fun _ => [1, 2, 3]) :=
  client_sees_rings firstServer_listening (fun _ => [1, 2, 3]) Database.empty
    [(berlin, berlinRing)] 0 (List.prefix_refl _)

end Fritz2ci
