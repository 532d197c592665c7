import Fritz2ci.Lib.Delimited
import Fritz2ci.Spec.RingRecord

/-! The backup file tells the rings written to it apart, as long as no field holds a newline
or the sign that separates the fields. -/

namespace Fritz2ci

open CString Delimited

/-- The fields that a line of the backup file shows. -/
def backedUp : List CIField :=
  [.cidsNumberComplete, .cidsName, .cidsDate, .cidsTime, .cidsMSN, .cidsAlias, .cidsService,
    .cidsFix]

/-- Nothing in the fields looks like the end of a field or of a line. -/
def Separable (set : CIDataSet) : Prop :=
  ∀ f ∈ backedUp, 10 ∉ set f ∧ ¬ sectionSign <:+: set f

instance (set : CIDataSet) : Decidable (Separable set) :=
  inferInstanceAs (Decidable (∀ f ∈ backedUp, _))

/-- The file behind a sequence of writes, some of which cannot open it. -/
def backupFile (file : List UInt8) (writes : List (Bool × CIDataSet)) : List UInt8 :=
  writes.foldl (fun file w => backupDataWrite w.1 file w.2) file

/-- The records of the writes that reached the file. -/
def written (writes : List (Bool × CIDataSet)) : List CIDataSet :=
  (writes.filter Prod.fst).map Prod.snd

theorem backupFile_eq (file : List UInt8) (writes : List (Bool × CIDataSet)) :
    backupFile file writes = file ++ ((written writes).map backupLine).flatten := by
  unfold backupFile
  induction writes generalizing file with
  | nil => simp [written]
  | cons w writes ih =>
    obtain ⟨opened, set⟩ := w
    rw [List.foldl_cons, ih]
    cases opened <;> simp [backupDataWrite, written]

theorem not_infix_quoted {s : CStr} (h : ¬ sectionSign <:+: s) : ¬ sectionSign <:+: quoted s := by
  rintro ⟨x, y, heq⟩
  refine h ?_
  rw [quoted] at heq
  cases x with
  | nil => exact absurd (List.cons.inj heq).1 (by decide)
  | cons c x =>
    have htail := (List.cons.inj heq).2
    rcases List.eq_nil_or_concat y with rfl | ⟨y, d, rfl⟩
    · -- the sign would end in the quote
      have hlast := congrArg List.getLast? htail
      simp [sectionSign] at hlast
    · have hend : (x ++ sectionSign ++ y) ++ [d] = s ++ [34] := by
        simpa [List.append_assoc] using htail
      exact ⟨x, y, List.append_inj_left' hend rfl⟩

theorem backupFields_separable {set : CIDataSet} (h : Separable set) :
    ∀ x ∈ backupFields set, 10 ∉ x ∧ ¬ sectionSign <:+: x := by
  have hplain : ∀ f ∈ backedUp, 10 ∉ set f ∧ ¬ sectionSign <:+: set f := h
  have hquoted : ∀ f ∈ backedUp, 10 ∉ quoted (set f) ∧ ¬ sectionSign <:+: quoted (set f) := by
    intro f hf
    refine ⟨?_, not_infix_quoted (h f hf).2⟩
    simpa [quoted] using (h f hf).1
  intro x hx
  simp only [backupFields, List.mem_cons, List.not_mem_nil, or_false] at hx
  rcases hx with rfl | rfl | rfl | rfl | rfl | rfl | rfl | rfl
  · exact hplain _ (by decide)
  · exact hquoted _ (by decide)
  · exact hquoted _ (by decide)
  · exact hquoted _ (by decide)
  · exact hplain _ (by decide)
  · exact hquoted _ (by decide)
  · exact hquoted _ (by decide)
  · exact hplain _ (by decide)

theorem not_mem_intercalate {d : UInt8} {sep : List UInt8} (hsep : d ∉ sep) {xs : List (List UInt8)}
    (h : ∀ x ∈ xs, d ∉ x) : d ∉ sep.intercalate xs := by
  induction xs with
  | nil => simp
  | cons x xs ih =>
    cases xs with
    | nil => simpa using h x (by simp)
    | cons y ys =>
      rw [List.intercalate_cons_cons, List.mem_append, List.mem_append]
      rintro ((hm | hm) | hm)
      · exact h x (by simp) hm
      · exact hsep hm
      · exact ih (fun z hz => h z (by simp [hz])) hm

theorem backupLine_isFrame {set : CIDataSet} (h : Separable set) : IsFrame 10 (backupLine set) :=
  ⟨_, rfl, not_mem_intercalate (by decide) fun x hx => (backupFields_separable h x hx).1⟩

theorem quoted_inj {s t : CStr} (h : quoted s = quoted t) : s = t := by
  have := List.append_inj_left' (List.cons.inj h).2 rfl
  exact this

theorem backupLine_eq_iff {s t : CIDataSet} (hs : Separable s) (ht : Separable t) :
    backupLine s = backupLine t ↔ ∀ f ∈ backedUp, s f = t f := by
  constructor
  · intro h
    have hfields : backupFields s = backupFields t :=
      intercalate_pair_inj (by decide) (fun x hx => (backupFields_separable hs x hx).2)
        (fun x hx => (backupFields_separable ht x hx).2) rfl (List.append_inj_left' h rfl)
    simp only [backupFields, List.cons.injEq, and_true] at hfields
    obtain ⟨h1, h2, h3, h4, h5, h6, h7, h8⟩ := hfields
    simp only [backedUp, List.forall_mem_cons, List.not_mem_nil, false_imp_iff, implies_true,
      and_true]
    exact ⟨h1, quoted_inj h2, quoted_inj h3, quoted_inj h4, h5, quoted_inj h6, quoted_inj h7, h8⟩
  · intro h
    simp only [backedUp, List.forall_mem_cons] at h
    obtain ⟨h1, h2, h3, h4, h5, h6, h7, h8, -⟩ := h
    simp only [backupLine, backupFields, h1, h2, h3, h4, h5, h6, h7, h8]

theorem map_eq_map_iff {α β γ : Type} {f : α → β} {g : α → γ} {xs ys : List α}
    (h : ∀ x ∈ xs, ∀ y ∈ ys, f x = f y ↔ g x = g y) :
    xs.map f = ys.map f ↔ xs.map g = ys.map g := by
  induction xs generalizing ys with
  | nil => cases ys <;> simp
  | cons x xs ih =>
    cases ys with
    | nil => simp
    | cons y ys =>
      rw [List.map_cons, List.map_cons, List.map_cons, List.map_cons, List.cons.injEq,
        List.cons.injEq, h x (by simp) y (by simp),
        ih fun a ha b hb => h a (by simp [ha]) b (by simp [hb])]

/-- Two sequences of writes leave the same file exactly where those that reached it show the
same fields, one by one. -/
theorem backup_tells_rings (file : List UInt8) {xs ys : List (Bool × CIDataSet)}
    (hx : ∀ set ∈ written xs, Separable set) (hy : ∀ set ∈ written ys, Separable set) :
    backupFile file xs = backupFile file ys ↔
      (written xs).map (fun set => backedUp.map set) =
        (written ys).map fun set => backedUp.map set := by
  rw [backupFile_eq, backupFile_eq, List.append_right_inj]
  have hframes : ∀ {zs : List CIDataSet}, (∀ set ∈ zs, Separable set) →
      ∀ x ∈ zs.map backupLine, IsFrame 10 x := by
    intro zs hz x hx
    obtain ⟨set, hset, rfl⟩ := List.mem_map.1 hx
    exact backupLine_isFrame (hz set hset)
  have hlines : (((written xs).map backupLine).flatten = ((written ys).map backupLine).flatten) ↔
      (written xs).map backupLine = (written ys).map backupLine :=
    ⟨flatten_inj (hframes hx) (hframes hy), fun h => by rw [h]⟩
  rw [hlines]
  refine map_eq_map_iff fun s hs t ht => ?_
  rw [backupLine_eq_iff (hx s hs) (hy t ht), List.map_inj_left]

def ringFrom (number : CStr) : CIDataSet :=
  Function.update CIDataSet.zero .cidsNumberComplete number

theorem lost_write_shows :
    backupFile [] [(true, ringFrom (ascii "030")), (false, ringFrom (ascii "040"))] ≠
      backupFile [] [(false, ringFrom (ascii "030")), (true, ringFrom (ascii "040"))] :=
  mt (backup_tells_rings [] (by decide) (by decide)).1 (by decide)

end Fritz2ci
