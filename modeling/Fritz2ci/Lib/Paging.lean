import Mathlib.Data.List.Perm.Subperm
import Mathlib.Data.List.Range
import Mathlib.Order.Lattice

/-! Reading a list page by page, by descending key, when elements of equal keys may come in
another order for every page. -/

namespace Fritz2ci

namespace Paging

variable {α κ : Type} [LinearOrder κ] {key : α → κ} {rows xs ys : List α} {i j k m : ℕ}

/-- The page `i` of the size `k`. -/
def page (k i : ℕ) (xs : List α) : List α := (xs.drop (i * k)).take k

/-- An order by descending key. -/
def Descending (key : α → κ) (rows xs : List α) : Prop :=
  xs.Perm rows ∧ xs.Pairwise fun a b => key b ≤ key a

/-- No key is found on both sides of a position. -/
def CleanCut (j : ℕ) (keys : List κ) : Prop := ∀ a ∈ keys.take j, ∀ b ∈ keys.drop j, b < a

theorem take_page (k i : ℕ) (xs : List α) :
    xs.take ((i + 1) * k) = xs.take (i * k) ++ page k i xs := by
  rw [page, Nat.succ_mul, List.take_add]

theorem flatMap_page (k m : ℕ) (xs : List α) :
    ((List.range m).flatMap fun i => page k i xs) = xs.take (m * k) := by
  induction m with
  | zero => simp
  | succ m ih => rw [List.range_succ, List.flatMap_append, ih, take_page, List.flatMap_singleton]

theorem flatMap_page_add (k i m : ℕ) (xs : List α) :
    ((List.range m).flatMap fun t => page k (i + t) xs) = (xs.drop (i * k)).take (m * k) := by
  have hshift : ∀ t, page k (i + t) xs = page k t (xs.drop (i * k)) := by
    intro t
    rw [page, page, List.drop_drop, Nat.add_mul]
  simp only [hshift, flatMap_page]

theorem keys_eq (hx : Descending key rows xs) (hy : Descending key rows ys) :
    xs.map key = ys.map key := by
  have hperm : (xs.map key).Perm (ys.map key) := (hx.1.trans hy.1.symm).map key
  refine hperm.eq_of_pairwise (fun a b _ _ (hab : b ≤ a) hba => le_antisymm hba hab) ?_ ?_
  · exact List.pairwise_map.2 hx.2
  · exact List.pairwise_map.2 hy.2

/-- Up to a clean cut, a descending order has the elements of the larger keys. -/
theorem take_eq_filter (h : xs.Pairwise fun a b => key b ≤ key a)
    (hcut : CleanCut j (xs.map key)) {c : κ} (hc : ((xs.map key).drop j).head? = some c) :
    xs.take j = xs.filter fun a => c < key a := by
  have hmem : c ∈ (xs.map key).drop j := List.mem_of_mem_head? hc
  have htake : ((xs.take j).filter fun a => c < key a) = xs.take j := by
    refine List.filter_eq_self.2 fun a ha => decide_eq_true (hcut (key a) ?_ c hmem)
    rw [← List.map_take]
    exact List.mem_map_of_mem ha
  have hdrop : ((xs.drop j).filter fun a => c < key a) = [] := by
    refine List.filter_eq_nil_iff.2 fun a ha hlt => ?_
    rw [← List.map_drop] at hc
    cases hd : xs.drop j with
    | nil => rw [hd] at ha; cases ha
    | cons b rest =>
      rw [hd] at hc ha
      obtain rfl : key b = c := Option.some.inj hc
      have hsorted : (b :: rest).Pairwise fun a b => key b ≤ key a :=
        hd ▸ h.sublist (List.drop_sublist j xs)
      rcases List.mem_cons.1 ha with rfl | hrest
      · exact absurd (of_decide_eq_true hlt) (lt_irrefl _)
      · exact absurd (of_decide_eq_true hlt) (not_lt.2 (List.rel_of_pairwise_cons hsorted hrest))
  conv_rhs => rw [← List.take_append_drop j xs, List.filter_append, htake, hdrop]
  rw [List.append_nil]

theorem take_perm (hx : Descending key rows xs) (hy : Descending key rows ys)
    (hcut : CleanCut j (xs.map key)) : (xs.take j).Perm (ys.take j) := by
  have hlen : xs.length = ys.length := (hx.1.trans hy.1.symm).length_eq
  cases hc : ((xs.map key).drop j).head? with
  | none =>
    have hall : xs.length ≤ j := by simpa using hc
    rw [List.take_of_length_le hall, List.take_of_length_le (hlen ▸ hall)]
    exact hx.1.trans hy.1.symm
  | some c =>
    rw [take_eq_filter hx.2 hcut hc]
    rw [keys_eq hx hy] at hcut hc
    rw [take_eq_filter hy.2 hcut hc]
    exact (hx.1.trans hy.1.symm).filter _

/-- A page between two clean cuts has the same elements in every order. -/
theorem page_perm (hx : Descending key rows xs) (hy : Descending key rows ys)
    (hcut : CleanCut (i * k) (xs.map key)) (hcut' : CleanCut ((i + 1) * k) (xs.map key)) :
    (page k i xs).Perm (page k i ys) := by
  have hbefore := take_perm hx hy hcut
  have hbehind := take_perm hx hy hcut'
  rw [take_page, take_page] at hbehind
  exact (List.perm_append_left_iff _).1 (hbehind.trans (hbefore.symm.append_right _))

/-- Where two neighbours have the same key, they may change places. -/
theorem swap_descending {as bs : List α} {a b : α} (h : Descending key rows (as ++ a :: b :: bs))
    (hab : key a = key b) : Descending key rows (as ++ b :: a :: bs) := by
  have hswap : (as ++ b :: a :: bs).Perm (as ++ a :: b :: bs) :=
    (List.Perm.swap a b bs).append_left as
  refine ⟨hswap.trans h.1, ?_⟩
  have hsorted := h.2
  simp only [List.pairwise_append, List.pairwise_cons, List.mem_cons, forall_eq_or_imp] at hsorted ⊢
  obtain ⟨has, ⟨⟨-, ha⟩, hb, hbs⟩, hsep⟩ := hsorted
  exact ⟨has, ⟨⟨hab.le, hb⟩, ha, hbs⟩,
    fun c hc => ⟨(hsep c hc).2.1, (hsep c hc).1, (hsep c hc).2.2⟩⟩

/-- A cut that is not clean is between two neighbours of the same key. -/
theorem exists_tie (h : xs.Pairwise fun a b => key b ≤ key a)
    (hcut : ¬ CleanCut j (xs.map key)) : ∃ as a b bs, xs = as ++ a :: b :: bs ∧
      as.length + 1 = j ∧ key a = key b := by
  simp only [CleanCut, not_forall, not_lt] at hcut
  obtain ⟨c, hc, d, hd, hle⟩ := hcut
  rw [← List.map_take] at hc
  rw [← List.map_drop] at hd
  obtain ⟨x, hx, rfl⟩ := List.mem_map.1 hc
  obtain ⟨y, hy, rfl⟩ := List.mem_map.1 hd
  have hsplit := List.take_append_drop j xs
  have hj : (xs.take j).length = j := by
    have := List.length_pos_of_mem hy
    rw [List.length_drop] at this
    rw [List.length_take]
    omega
  rcases List.eq_nil_or_concat (xs.take j) with hnil | ⟨as, a, has⟩
  · rw [hnil] at hx
    cases hx
  · cases hb : xs.drop j with
    | nil => rw [hb] at hy; cases hy
    | cons b bs =>
      rw [has, hb, List.concat_append] at hsplit
      refine ⟨as, a, b, bs, hsplit.symm, ?_, ?_⟩
      · rw [has, List.length_concat] at hj
        exact hj
      · rw [← hsplit] at h
        rw [has, List.concat_eq_append] at hx
        rw [hb] at hy
        simp only [List.pairwise_append, List.pairwise_cons, List.mem_cons,
          forall_eq_or_imp] at h
        obtain ⟨-, ⟨⟨hba, -⟩, hbs, -⟩, hsep⟩ := h
        refine le_antisymm ?_ hba
        have hax : key a ≤ key x := by
          rcases List.mem_append.1 hx with hxas | hxa
          · exact (hsep x hxas).1
          · rw [List.mem_singleton.1 hxa]
        have hyb : key y ≤ key b := by
          rcases List.mem_cons.1 hy with rfl | hybs
          · exact le_rfl
          · exact hbs y hybs
        exact hax.trans (hle.trans hyb)

/-- The pages when the order changes from one page on. -/
theorem flatMap_page_switch (hi : i ≤ m) (xs ys : List α) :
    ((List.range m).flatMap fun t => page k t (if t < i then xs else ys)) =
      xs.take (i * k) ++ (ys.drop (i * k)).take ((m - i) * k) := by
  have hrange : List.range m = List.range i ++ (List.range (m - i)).map (i + ·) := by
    conv_lhs => rw [← Nat.add_sub_cancel' hi]
    exact List.range_add
  rw [hrange, List.flatMap_append, List.flatMap_map]
  congr 1
  · rw [List.flatMap_congr (g := fun t => page k t xs), flatMap_page]
    intro t ht
    rw [if_pos (List.mem_range.1 ht)]
  · rw [List.flatMap_congr (g := fun t => page k (i + t) ys), flatMap_page_add]
    intro t _
    rw [if_neg (by omega)]

/-- Whatever the orders are, the pages give every element once exactly where no page ends
between two elements of the same key. -/
theorem pages_perm_iff (hrows : rows.Nodup) (hx : Descending key rows xs)
    (hm : rows.length ≤ m * k) :
    (∀ order : ℕ → List α, (∀ i, Descending key rows (order i)) →
      ((List.range m).flatMap fun i => page k i (order i)).Perm rows) ↔
        ∀ i, CleanCut (i * k) (xs.map key) := by
  constructor
  · intro h i
    by_contra hcut
    obtain ⟨as, a, b, bs, rfl, hj, hab⟩ := exists_tie hx.2 hcut
    have hlen := hx.1.length_eq
    simp only [List.length_append, List.length_cons] at hlen
    have him : i ≤ m := by
      by_contra hlt
      have := Nat.mul_le_mul_right k (Nat.le_of_lt (not_le.1 hlt))
      omega
    have hperm := h (fun t => if t < i then as ++ a :: b :: bs else as ++ b :: a :: bs) <| by
      intro t
      split_ifs
      · exact hx
      · exact swap_descending hx hab
    have hmul : (m - i) * k = m * k - i * k := Nat.sub_mul m i k
    have hbefore : (as ++ a :: b :: bs).take (i * k) = as ++ [a] := by
      rw [← hj, List.take_length_add_append]
      rfl
    have hbehind : ((as ++ b :: a :: bs).drop (i * k)).take ((m - i) * k) = a :: bs := by
      rw [← hj, List.drop_length_add_append, List.take_of_length_le]
      · rfl
      · simp only [List.drop_succ_cons, List.drop_zero, List.length_cons]
        omega
    -- the element before the cut comes again behind it
    rw [flatMap_page_switch him, hbefore, hbehind] at hperm
    have hnodup := hperm.nodup_iff.2 hrows
    exact (List.nodup_append.1 hnodup).2.2 a (by simp) a (by simp) rfl
  · intro h order horder
    have hpage : ∀ i, (page k i (order i)).Perm (page k i xs) := fun i =>
      (page_perm hx (horder i) (h i) (h (i + 1))).symm
    refine (List.Perm.flatMap_left _ fun i _ => hpage i).trans ?_
    rw [flatMap_page, List.take_of_length_le (hx.1.length_eq.le.trans hm)]
    exact hx.1

end Paging

end Fritz2ci
