import Fritz2ci.Spec.ClientMessage
import Mathlib.Data.Nat.Bitwise
import Mathlib.Data.Prod.Lex

/-! The version a client reports and the format its broadcasts take: the three numbers go
into one byte each, and what does not fit runs into the next one. -/

namespace Fritz2ci

open CString Socket

/-- The byte of the major version takes in what the other numbers have beyond theirs. -/
theorem versionMaj_make (maj min pat : UInt32) :
    (CI_VERSION_MAJ (CI_MAKE_VERSION maj min pat)).toNat =
      (maj.toNat ||| min.toNat / 2 ^ 8 ||| pat.toNat / 2 ^ 16) % 2 ^ 8 := by
  have h24 : (0x00ffffff : UInt32).toNat = 2 ^ 24 - 1 := rfl
  have h8 : (0x000000ff : UInt32).toNat = 2 ^ 8 - 1 := rfl
  have hs16 : (16 : UInt32).toNat % 32 = 16 := rfl
  have hs8 : (8 : UInt32).toNat % 32 = 8 := rfl
  unfold CI_VERSION_MAJ CI_MAKE_VERSION
  rw [UInt32.toNat_and, h8, Nat.and_two_pow_sub_one_eq_mod, UInt32.toNat_shiftRight,
    UInt32.toNat_and, h24, Nat.and_two_pow_sub_one_eq_mod, UInt32.toNat_or, UInt32.toNat_or,
    UInt32.toNat_shiftLeft, UInt32.toNat_shiftLeft, hs16, hs8]
  refine Nat.eq_of_testBit_eq fun i => ?_
  simp only [Nat.testBit_mod_two_pow, Nat.testBit_or, Nat.testBit_shiftRight,
    Nat.testBit_shiftLeft, Nat.testBit_div_two_pow]
  by_cases hi : i < 8
  · have h24' : 16 + i < 24 := by omega
    have h32 : 16 + i < 32 := by omega
    have hmaj : 16 ≤ 16 + i := by omega
    have hmin : 8 ≤ 16 + i := by omega
    have hmaj' : 16 + i - 16 = i := by omega
    have hmin' : 16 + i - 8 = i + 8 := by omega
    have hpat : 16 + i = i + 16 := by omega
    simp only [hi, h24', h32, hmaj, hmin, hmaj', hmin', decide_true, Bool.true_and]
    rw [hpat]
  · simp only [hi, decide_false, Bool.false_and]

/-- The numbers a client puts into a VERSION message. -/
structure VersionReport where
  major : ℕ
  minor : ℕ
  patch : ℕ

def VersionReport.request (r : VersionReport) : CINetRequest :=
  .version (UInt32.ofNat r.major) (UInt32.ofNat r.minor) (UInt32.ofNat r.patch)

/-- The byte that the server takes for the major version. -/
def VersionReport.majorByte (r : VersionReport) : ℕ :=
  (r.major ||| r.minor / 2 ^ 8 ||| r.patch / 2 ^ 16) % 2 ^ 8

/-- A client as `_cisrv_add_client` makes it: it has reported nothing. -/
def addedClient (sock conn : ℕ) : CIClient :=
  { sock := sock, flags := 0, version := CI_MAKE_VERSION 2 0 0, conn := conn }

def clientAfter (client : CIClient) (reports : List VersionReport) : CIClient :=
  reports.foldl (fun c r => handleRequest c r.request) client

theorem clientAfter_version (client : CIClient) (reports : List VersionReport) :
    (clientAfter client reports).version =
      match reports.getLast? with
      | some r => CI_MAKE_VERSION (UInt32.ofNat r.major) (UInt32.ofNat r.minor)
          (UInt32.ofNat r.patch)
      | none => client.version := by
  induction reports using List.reverseRecOn with
  | nil => rfl
  | append_singleton reports r ih =>
    rw [clientAfter, List.foldl_append, List.getLast?_concat]
    rfl

/-- A number beyond 32 bits loses only bits that the version drops, too. -/
theorem majorByte_ofNat (r : VersionReport) :
    (CI_VERSION_MAJ (CI_MAKE_VERSION (UInt32.ofNat r.major) (UInt32.ofNat r.minor)
      (UInt32.ofNat r.patch))).toNat = r.majorByte := by
  rw [versionMaj_make, VersionReport.majorByte, UInt32.toNat_ofNat', UInt32.toNat_ofNat',
    UInt32.toNat_ofNat']
  refine Nat.eq_of_testBit_eq fun i => ?_
  simp only [Nat.testBit_mod_two_pow, Nat.testBit_or, Nat.testBit_div_two_pow]
  by_cases hi : i < 8
  · have h32 : i < 32 ∧ i + 8 < 32 ∧ i + 16 < 32 := by omega
    simp only [hi, h32, decide_true, Bool.true_and]
  · simp only [hi, decide_false, Bool.false_and]

theorem checkVersion_after (sock conn : ℕ) (reports : List VersionReport) :
    CI_CHECK_VERSION (clientAfter (addedClient sock conn) reports).version (CI_MAKE_VERSION 3 0 0) ↔
      ∃ r, reports.getLast? = some r ∧ 3 ≤ r.majorByte := by
  have hthree : (3 : UInt32).toNat = 3 := rfl
  rw [checkVersion_three_iff, clientAfter_version]
  cases reports.getLast? with
  | none =>
    exact iff_of_false (show ¬ 3 ≤ CI_VERSION_MAJ (CI_MAKE_VERSION 2 0 0) by decide) (by simp)
  | some r => rw [UInt32.le_iff_toNat_le, majorByte_ofNat, hthree]; simp

def VersionReport.triple (r : VersionReport) : ℕ ×ₗ ℕ ×ₗ ℕ :=
  toLex (r.major, toLex (r.minor, r.patch))

/-- The client's last report is (3,0,0) or later. -/
def ReportsThree (reports : List VersionReport) : Prop :=
  ∃ r, reports.getLast? = some r ∧ (VersionReport.mk 3 0 0).triple ≤ r.triple

theorem three_le_triple (r : VersionReport) :
    (VersionReport.mk 3 0 0).triple ≤ r.triple ↔ 3 ≤ r.major := by
  simp only [VersionReport.triple, Prod.Lex.toLex_le_toLex]
  omega

/-- What is handed to `send` for a client in one format or the other. -/
def framedSends (answer : ℕ → SendAnswer) (msgdata : List UInt8) : List (List UInt8) :=
  (sendFramed answer msgdata 0).1

def legacySends (msgtype : CIServerMsg) (cmsg : List UInt8) : List (List UInt8) :=
  if msgtype = .call then [] else [cmsg]

theorem sendToClient_sent (msgtype : CIServerMsg) (msgdata cmsg : List UInt8)
    (answer : ℕ → SendAnswer) (client : CIClient) :
    (sendToClient msgtype msgdata cmsg answer client).1 =
      if CI_CHECK_VERSION client.version (CI_MAKE_VERSION 3 0 0) then framedSends answer msgdata
      else legacySends msgtype cmsg := by
  unfold sendToClient framedSends legacySends sendLegacy
  by_cases hv : CI_CHECK_VERSION client.version (CI_MAKE_VERSION 3 0 0) = true
  · simp only [hv, if_true]
  · by_cases hc : msgtype = .call
    · simp [hv, hc]
    · simp [hv, hc]

/-- A broadcast with the client in the list gives it the frame if its last report is (3,0,0)
or later, and else the struct. -/
def SelectsProtocol (sock conn : ℕ) (reports : List VersionReport) : Prop :=
  ∀ (encode : CINetMsg → List UInt8) (answers : ℕ → ℕ → SendAnswer) (msgtype : CIServerMsg)
    (data : Option CIDataSet) (msgid : Option CStr) (msg : CINetMsg) (clientlist : List CIClient)
    (i : ℕ), netMessage msgtype data msgid = some msg →
    clientlist[i]? = some (clientAfter (addedClient sock conn) reports) →
    let sent := (cisrvBroadcastMessage encode answers msgtype data msgid clientlist).sent[i]?
    (ReportsThree reports → sent = some (framedSends (answers i) (encode msg))) ∧
      (¬ ReportsThree reports → sent = some (legacySends msgtype (legacyMessage msgtype data)))

theorem broadcast_sent {encode : CINetMsg → List UInt8} {answers : ℕ → ℕ → SendAnswer}
    {msgtype : CIServerMsg} {data : Option CIDataSet} {msgid : Option CStr} {msg : CINetMsg}
    {clientlist : List CIClient} {i : ℕ} {client : CIClient}
    (hmsg : netMessage msgtype data msgid = some msg) (hi : clientlist[i]? = some client) :
    (cisrvBroadcastMessage encode answers msgtype data msgid clientlist).sent[i]? =
      some (if CI_CHECK_VERSION client.version (CI_MAKE_VERSION 3 0 0) then
        framedSends (answers i) (encode msg)
      else legacySends msgtype (legacyMessage msgtype data)) := by
  simp only [cisrvBroadcastMessage, hmsg, List.getElem?_map, List.getElem?_mapIdx, hi,
    Option.map_some, sendToClient_sent]

/-- A frame that does not begin as the struct does. -/
theorem formats_differ (data : Option CIDataSet) :
    framedSends (fun _ => .error) [0] ≠ legacySends .message (legacyMessage .message data) := by
  have hframed : framedSends (fun _ => .error) [0] = [[0]] := by
    rw [framedSends, sendFramed]
    rfl
  rw [hframed]
  intro h
  simp [legacySends, legacyMessage, msgCode] at h

theorem reportsThree_iff (reports : List VersionReport) :
    ReportsThree reports ↔ ∃ r, reports.getLast? = some r ∧ 3 ≤ r.major := by
  simp only [ReportsThree, three_le_triple]

theorem selects_iff_check (sock conn : ℕ) (reports : List VersionReport) :
    SelectsProtocol sock conn reports ↔
      (CI_CHECK_VERSION (clientAfter (addedClient sock conn) reports).version
        (CI_MAKE_VERSION 3 0 0) ↔ ReportsThree reports) := by
  constructor
  · intro h
    have hsent := h (fun _ => [0]) (fun _ _ => .error) .message (some CIDataSet.zero) none _
      [clientAfter (addedClient sock conn) reports] 0 rfl rfl
    rw [broadcast_sent rfl rfl] at hsent
    have hne := formats_differ (some CIDataSet.zero)
    constructor
    · intro hcheck
      by_contra hthree
      have hlegacy := hsent.2 hthree
      rw [if_pos hcheck, Option.some.injEq] at hlegacy
      exact hne hlegacy
    · intro hthree
      by_contra hcheck
      have hframed := hsent.1 hthree
      rw [if_neg hcheck, Option.some.injEq] at hframed
      exact hne hframed.symm
  · intro h encode answers msgtype data msgid msg clientlist i hmsg hi
    rw [broadcast_sent hmsg hi]
    exact ⟨fun hthree => by rw [if_pos (h.2 hthree)],
      fun hthree => by rw [if_neg fun hcheck => hthree (h.1 hcheck)]⟩

/-- The format follows the reports exactly if the byte taken for the major version tells 3
from less as the major version does. -/
theorem selectsProtocol_iff (sock conn : ℕ) (reports : List VersionReport) :
    SelectsProtocol sock conn reports ↔
      ∀ r, reports.getLast? = some r → (3 ≤ r.majorByte ↔ 3 ≤ r.major) := by
  rw [selects_iff_check, checkVersion_after, reportsThree_iff]
  cases reports.getLast? with
  | none => simp
  | some r => simp

/-- Numbers that stay in their bytes select the format they should. -/
theorem selects_of_bytes (sock conn : ℕ) {reports : List VersionReport}
    (h : ∀ r ∈ reports, r.major < 2 ^ 8 ∧ r.minor < 2 ^ 8 ∧ r.patch < 2 ^ 16) :
    SelectsProtocol sock conn reports := by
  rw [selects_iff_check, checkVersion_after, reportsThree_iff]
  refine exists_congr fun r => and_congr_right fun hr => ?_
  obtain ⟨hmajor, hminor, hpatch⟩ := h r (List.mem_of_getLast? hr)
  rw [VersionReport.majorByte, Nat.div_eq_of_lt hminor, Nat.div_eq_of_lt hpatch, Nat.or_zero,
    Nat.or_zero, Nat.mod_eq_of_lt hmajor]

/-- The minor version 256 counts as one more in the byte of the major version. -/
theorem minor256_framed : ¬ SelectsProtocol 5 0 [⟨2, 256, 0⟩] := by
  rw [selects_iff_check, checkVersion_after, reportsThree_iff]
  simp [VersionReport.majorByte]

end Fritz2ci
