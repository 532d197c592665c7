import Fritz2ci.Lib.Paging
import Fritz2ci.Proofs.PhoneBook

/-! The call list in pages: `offset` and `count` of one request after the other. The statement
orders by the time alone, so calls of the same second may come in another order each time. -/

namespace Fritz2ci

open CString Paging

theorem sqlLimit_page {k i : ℕ} (rows : List (ℤ × CallRow)) :
    sqlLimit (i * k : ℕ) (k : ℕ) rows = page k i rows := by
  rw [sqlLimit, if_neg (by omega), page, Int.toNat_natCast, Int.toNat_natCast]

theorem cidataRows_ids {z : CTime.Zone} {cidata : List CIDataSet} {rows : List (ℤ × CallRow)}
    (h : cidataRows z cidata = some rows) :
    rows.map Prod.fst = (List.range rows.length).map fun i : ℕ => (i : ℤ) + 1 := by
  obtain ⟨values, -, rfl⟩ := Option.map_eq_some_iff.1 h
  refine List.ext_getElem (by simp) fun i hi hi' => ?_
  simp

theorem toInt_ids_inj {z : CTime.Zone} {cidata : List CIDataSet} {rows : List (ℤ × CallRow)}
    (h : cidataRows z cidata = some rows) (hsize : rows.length < 2 ^ 31) :
    (rows.map fun r => toInt r.1).Nodup := by
  have hids : (rows.map fun r => toInt r.1) =
      (List.range rows.length).map fun i : ℕ => toInt ((i : ℤ) + 1) := by
    have hmap := congrArg (List.map toInt) (cidataRows_ids h)
    simpa only [List.map_map, Function.comp_def] using hmap
  rw [hids]
  refine List.Nodup.map_on (fun i hi j hj heq => ?_) List.nodup_range
  have hi' := List.mem_range.1 hi
  have hj' := List.mem_range.1 hj
  simp only [toInt, Int.bmod_def] at heq
  omega

/-- A page as it is answered: the window of the order, oldest call first. -/
theorem getCalls_page {env : RequestEnv} {db : Database} {rows : List (ℤ × CallRow)}
    (hrows : cidataRows env.zone db.cidata = some rows) (user : ℤ) (k i : ℕ) :
    dbhandlerGetCalls env user (i * k : ℕ) k db =
      some ((page k i (env.ordered rows)).reverse.map (readDbCall env user db)) := by
  rw [dbhandlerGetCalls, hrows, Option.map_some, sqlLimit_page]

theorem perm_of_map {α β : Type} {f : α → β} {xs rows : List α} (hnodup : (rows.map f).Nodup)
    (hsub : xs ⊆ rows) (h : (xs.map f).Perm (rows.map f)) : xs.Perm rows := by
  have hxs : xs.Nodup := List.Nodup.of_map f (h.nodup_iff.2 hnodup)
  have hlen : rows.length ≤ xs.length := by
    have := h.length_eq
    rw [List.length_map, List.length_map] at this
    omega
  exact (List.Nodup.subperm hxs hsub).perm_of_length_le hlen

def orderedEnv (z : CTime.Zone) (rows order : List (ℤ × CallRow)) (h : TimestampDesc rows order) :
    RequestEnv where
  zone := z
  surroundings := plainEnv.surroundings
  like := plainEnv.like
  ordered := fun rows' => if rows' = rows then order else byTimestamp rows'
  desc := by
    intro rows'
    split_ifs with heq
    · exact heq ▸ h
    · exact byTimestamp_desc rows'

theorem orderedEnv_ordered {z : CTime.Zone} {rows order : List (ℤ × CallRow)}
    (h : TimestampDesc rows order) : (orderedEnv z rows order h).ordered rows = order :=
  if_pos rfl

theorem pageIds_perm (rows : List (ℤ × CallRow)) (user : ℤ) (db : Database) (k m : ℕ)
    (env : ℕ → RequestEnv) :
    (((List.range m).flatMap fun i => (page k i ((env i).ordered rows)).reverse.map
      (readDbCall (env i) user db)).map CIDbCall.id).Perm
        (((List.range m).flatMap fun i => page k i ((env i).ordered rows)).map
          fun r => toInt r.1) := by
  rw [List.map_flatMap, List.map_flatMap]
  refine List.Perm.flatMap_left _ fun i _ => ?_
  rw [List.map_map]
  exact (List.reverse_perm _).map _

/-- Pages asked for one after the other list every call once, however the engine orders the
calls of a second, exactly where no page ends between two calls of the same second. -/
theorem pages_complete_iff {z : CTime.Zone} {db : Database} {rows : List (ℤ × CallRow)}
    (hrows : cidataRows z db.cidata = some rows) (user : ℤ) {k m : ℕ}
    (hm : rows.length ≤ m * k) (hint : m * k < 2 ^ 31) :
    (∀ env : ℕ → RequestEnv, (∀ i, (env i).zone = z) → ∃ pages : ℕ → List CIDbCall,
      (∀ i, dbhandlerGetCalls (env i) user (i * k : ℕ) k db = some (pages i)) ∧
        (((List.range m).flatMap pages).map CIDbCall.id).Perm (rows.map fun r => toInt r.1)) ↔
      ∀ i, CleanCut (i * k) ((byTimestamp rows).map fun r => r.2.timestamp) := by
  have hids := toInt_ids_inj hrows (by omega)
  have hnodup : rows.Nodup := List.Nodup.of_map _ hids
  rw [← pages_perm_iff hnodup (byTimestamp_desc rows) hm]
  constructor
  · intro h order horder
    let env : ℕ → RequestEnv := fun i => orderedEnv z rows (order i) (horder i)
    obtain ⟨pages, hpages, hperm⟩ := h env fun _ => rfl
    have heq : pages = fun i => (page k i ((env i).ordered rows)).reverse.map
        (readDbCall (env i) user db) := by
      funext i
      exact Option.some.inj ((hpages i).symm.trans (getCalls_page hrows user k i))
    have horder' : (fun i => page k i ((env i).ordered rows)) = fun i => page k i (order i) := by
      funext i
      exact congrArg (page k i) (orderedEnv_ordered (horder i))
    rw [heq] at hperm
    have hwindows := (pageIds_perm rows user db k m env).symm.trans hperm
    rw [horder'] at hwindows
    refine perm_of_map hids (fun r hr => ?_) hwindows
    obtain ⟨i, -, hi⟩ := List.mem_flatMap.1 hr
    exact (horder i).1.mem_iff.1 (List.mem_of_mem_drop (List.mem_of_mem_take hi))
  · intro h env henv
    refine ⟨_, fun i => getCalls_page (by rw [henv]; exact hrows) user k i, ?_⟩
    exact (pageIds_perm rows user db k m env).trans ((h _ fun i => (env i).desc rows).map _)

def callAt (time : String) : CIDataSet :=
  Function.update (Function.update CIDataSet.zero .cidsDate (ascii "2013-01-21"))
    .cidsTime (ascii time)

def rush : Database := ⟨[callAt "14:05:59", callAt "14:05:59", callAt "14:06:00"], [], 0⟩

def rushRow (timestamp : ℤ) : CallRow := ⟨[], [], timestamp, [], [], [], []⟩

theorem rush_incomplete : ¬ ∀ env : ℕ → RequestEnv, (∀ i, (env i).zone = CTime.Zone.utc) →
    ∃ pages : ℕ → List CIDbCall,
      (∀ i, dbhandlerGetCalls (env i) 1 (i * 2 : ℕ) (2 : ℕ) rush = some (pages i)) ∧
        (((List.range 2).flatMap pages).map CIDbCall.id).Perm [1, 2, 3] := by
  have hrows : cidataRows CTime.Zone.utc rush.cidata =
      some [(1, rushRow 1358777159), (2, rushRow 1358777159), (3, rushRow 1358777160)] := by
    decide
  intro h
  have hcut := (pages_complete_iff hrows 1 (k := 2) (m := 2) (by decide) (by decide)).1 h 1
  exact lt_irrefl _ (hcut 1358777159 (by decide) 1358777159 (by decide))

end Fritz2ci
