import Fritz2ci.Spec.Lookup
import Fritz2ci.Spec.RemoveEscapes

/-! What `_cirlw_remove_escapes` leaves in place. In every round the front of the memory
holds the text put out so far, and from `i + d` on it is as it was, since a store never goes
behind the cell just read. -/

namespace Fritz2ci

open CString Rewriting

/-- `%20` -/
def escape : CStr := [37, 50, 48]

def blank : CStr := [32]

/-- The memory from a pointer on holds the string and its terminator. -/
structure HoldsString (str : ℕ → UInt8) (s : CStr) : Prop where
  text : Reading.StartsWith str (s ++ [0])
  nul : 0 ∉ s

/-- What the call leaves where `s` was: the text without its escapes, nothing behind the
terminator of `s` looked at and nothing there changed. -/
structure Unescaped (str : ℕ → UInt8) (s : CStr) (m : Block UInt8) : Prop where
  holds : HoldsString m.cells (replaceAll escape blank s)
  inside : ∀ o ∈ m.touched, o ≤ s.length
  behind : ∀ k, s.length < k → m.cells k = str k

/-- Wherever the string stands, the call returns and leaves it without its escapes. -/
def Unescapes (s : CStr) : Prop :=
  ∀ str, HoldsString str s →
    ∃ fuel m, cirlwRemoveEscapesInPlace fuel str = .ok m ∧ Unescaped str s m

theorem prefix_drop_iff_byteAt {a : UInt8} (ha : a ≠ 0) {p s : CStr} {j : ℕ} :
    a :: p <+: s.drop j ↔ byteAt s j = a ∧ p <+: s.drop (j + 1) := by
  by_cases hj : j < s.length
  · rw [List.drop_eq_getElem_cons hj, List.cons_prefix_cons, byteAt, List.getD_eq_getElem _ _ hj,
      eq_comm]
  · rw [List.drop_eq_nil_of_le (Nat.le_of_not_lt hj), List.prefix_nil, byteAt,
      List.getD_eq_default _ _ (Nat.le_of_not_lt hj)]
    exact iff_of_false (List.cons_ne_nil a p) fun h => ha h.1.symm

theorem escape_prefix_iff {s : CStr} {j : ℕ} : escape <+: s.drop j ↔
    byteAt s j = 37 ∧ byteAt s (j + 1) = 50 ∧ byteAt s (j + 2) = 48 := by
  rw [escape, prefix_drop_iff_byteAt (by decide), prefix_drop_iff_byteAt (by decide),
    prefix_drop_iff_byteAt (by decide)]
  simp

theorem drop_eq_byteAt_cons {s : CStr} {j : ℕ} (hj : j < s.length) :
    s.drop j = byteAt s j :: s.drop (j + 1) := by
  rw [List.drop_eq_getElem_cons hj, byteAt, List.getD_eq_getElem _ _ hj]

theorem lt_of_byteAt {s : CStr} {j : ℕ} (h : byteAt s j ≠ 0) : j < s.length := by
  by_contra hj
  exact h (List.getD_eq_default _ _ (Nat.le_of_not_lt hj))

theorem replaceAll_escape {s : CStr} {j : ℕ} (h : escape <+: s.drop j) :
    replaceAll escape blank (s.drop j) = blank ++ replaceAll escape blank (s.drop (j + 3)) := by
  have hj := lt_of_byteAt (s := s) (j := j) (by rw [(escape_prefix_iff.1 h).1]; decide)
  rw [drop_eq_byteAt_cons hj] at h ⊢
  rw [replaceAll_cons_pattern h, List.drop_drop]
  rfl

theorem replaceAll_plain {s : CStr} {j : ℕ} (hj : j < s.length) (h : ¬ escape <+: s.drop j) :
    replaceAll escape blank (s.drop j) =
      byteAt s j :: replaceAll escape blank (s.drop (j + 1)) := by
  rw [drop_eq_byteAt_cons hj] at h ⊢
  exact replaceAll_cons_other h

theorem getElem_terminated {s : CStr} {k : ℕ} (hk : k < (s ++ [0]).length) :
    (s ++ [0])[k] = byteAt s k := by
  rw [byteAt, List.getElem_append]
  split_ifs with hlt
  · exact (List.getD_eq_getElem _ _ hlt).symm
  · rw [List.getElem_singleton, List.getD_eq_default _ _ (Nat.le_of_not_lt hlt)]

theorem HoldsString.byteAt_eq {str : ℕ → UInt8} {s : CStr} (h : HoldsString str s) {k : ℕ}
    (hk : k ≤ s.length) : str k = byteAt s k := by
  have hk' : k < (s ++ [0]).length := by
    rw [List.length_append]
    exact Nat.lt_succ_of_le hk
  rw [h.text k hk', getElem_terminated]

theorem HoldsString.ended_iff {str : ℕ → UInt8} {s : CStr} (h : HoldsString str s) {k : ℕ}
    (hk : k ≤ s.length) : str k = 0 ↔ k = s.length := by
  rw [h.byteAt_eq hk, byteAt]
  constructor
  · intro h0
    by_contra hne
    rw [List.getD_eq_getElem _ _ (by omega)] at h0
    exact h.nul (h0 ▸ List.getElem_mem _)
  · rintro rfl
    exact List.getD_eq_default _ _ (Nat.le_refl _)

/-- Between two rounds: `out` has been put out, and the bytes of `s` from `i + d` on are
still where they were. -/
structure Midway (str : ℕ → UInt8) (s : CStr) (i d : ℕ) (m : Block UInt8) (out : CStr) : Prop where
  compacted : Compacted str m.cells (i + d) out
  index : out.length = i
  inString : i + d ≤ s.length
  result : out ++ replaceAll escape blank (s.drop (i + d)) = replaceAll escape blank s
  inside : ∀ o ∈ m.touched, o ≤ s.length

theorem midway_start (str : ℕ → UInt8) (s : CStr) : Midway str s 0 0 ⟨str, []⟩ [] :=
  ⟨compacted_start str, rfl, Nat.zero_le _, rfl, fun _ h => absurd h List.not_mem_nil⟩

theorem inside_snoc {n k : ℕ} {touched : List ℕ} (h : ∀ o ∈ touched, o ≤ n) (hk : k ≤ n) :
    ∀ o ∈ touched ++ [k], o ≤ n := by
  intro o ho
  rcases List.mem_append.1 ho with ho | ho
  · exact h o ho
  · rw [List.mem_singleton.1 ho]
    exact hk

section Rounds

variable {str : ℕ → UInt8} {s : CStr} {i d : ℕ} {m : Block UInt8} {out : CStr}
variable {E : EscapeFault → Prop}

theorem Midway.look (h : Midway str s i d m out) {k : ℕ} (hk : k ≤ s.length) :
    Midway str s i d ⟨m.cells, m.touched ++ [k]⟩ out :=
  ⟨h.compacted, h.index, h.inString, h.result, inside_snoc h.inside hk⟩

/-- The terminator stored once the reader has met that of `s`. -/
theorem unescaped_of_midway (hs : HoldsString str s) (h : Midway str s i d m out)
    (hend : i + d = s.length) :
    Unescaped str s ⟨Function.update m.cells i 0, m.touched ++ [i]⟩ := by
  have hout : out = replaceAll escape blank s := by
    have hresult := h.result
    rwa [hend, List.drop_length, replaceAll_nil, List.append_nil] at hresult
  have hfront := startsWith_update h.compacted.front 0
  rw [h.index, hout] at hfront
  refine ⟨⟨hfront, fun h0 => ?_⟩, inside_snoc h.inside (by omega), fun k hk => ?_⟩
  · rcases mem_replaceFrom h0 with h0 | h0
    · exact absurd h0 (by decide)
    · exact hs.nul h0
  · have hkept : Function.update m.cells i 0 k = m.cells k := Function.update_of_ne (by omega) _ _
    exact hkept.trans (h.compacted.unread k (by omega))

theorem meets_gint {n : ℕ} {Q : ℕ → Block UInt8 → Prop} (hE : 2 ^ 31 ≤ n → E .overflow)
    (hQ : n < 2 ^ 31 → Q n m) : Meets E (gint n) m Q := by
  unfold gint
  split_ifs with hn
  · exact meets_pure (hQ hn)
  · exact meets_throw (hE (Nat.le_of_not_lt hn))

variable (hs : HoldsString str s) (hE : 2 ^ 31 ≤ s.length → E .overflow)

include hs hE

theorem meets_strAt (h : Midway str s i d m out) {n : ℕ} (hn : i + d ≤ n) (hle : n ≤ s.length)
    {Q : UInt8 → Block UInt8 → Prop}
    (hQ : ∀ m', Midway str s i d m' out → n < 2 ^ 31 → Q (byteAt s n) m') :
    Meets E (strAt n) m Q := by
  refine meets_bind (meets_gint (fun h31 => hE (Nat.le_trans h31 hle)) fun hlt => meets_load ?_)
  rw [h.compacted.unread n hn, hs.byteAt_eq hle]
  exact hQ _ (h.look hle) hlt

/-- The look-ahead tells whether an escape begins at the percent sign just read, and stops
at the terminator. -/
theorem meets_spaceFollows (h : Midway str s i d m out) (hpercent : byteAt s (i + d) = 37) :
    Meets E (spaceFollows i d) m fun b m' =>
      (b = true ↔ escape <+: s.drop (i + d)) ∧ Midway str s i d m' out := by
  have hlt : i + d < s.length := lt_of_byteAt (by rw [hpercent]; decide)
  refine meets_bind (meets_strAt hs hE h (by omega) hlt fun m₁ h₁ _ => ?_)
  rw [escape_prefix_iff]
  split_ifs with h50
  · have hlt' : i + d + 1 < s.length := lt_of_byteAt (by rw [h50]; decide)
    refine meets_bind (meets_strAt hs hE h₁ (by omega) hlt' fun m₂ h₂ _ => meets_pure ⟨?_, h₂⟩)
    simp [hpercent, h50]
  · exact meets_pure ⟨by simp [h50], h₁⟩

theorem meets_moveDown (h : Midway str s i d m out) (hlt : i + d < s.length)
    (hplain : ¬ escape <+: s.drop (i + d)) :
    Meets E (moveDown i d) m fun _ m' => Midway str s (i + 1) d m' (out ++ [byteAt s (i + d)]) := by
  have hresult : (out ++ [byteAt s (i + d)]) ++
      replaceAll escape blank (s.drop (i + 1 + d)) = replaceAll escape blank s := by
    rw [← h.result, replaceAll_plain hlt hplain, List.append_assoc, Nat.add_right_comm]
    rfl
  have hindex : (out ++ [byteAt s (i + d)]).length = i + 1 := by
    rw [List.length_append, h.index, List.length_singleton]
  unfold moveDown
  split_ifs with hd
  · refine meets_bind (meets_strAt hs hE h (Nat.le_refl _) (Nat.le_of_lt hlt) fun m₁ h₁ _ =>
      meets_store ?_)
    have hput := h₁.compacted.put (k := i + 1 + d) (by omega) (byteAt s (i + d))
    rw [h.index] at hput
    exact ⟨hput, hindex, by omega, hresult, inside_snoc h₁.inside (by omega)⟩
  · obtain rfl : d = 0 := by omega
    have hkeep := h.compacted.keep h.index
    rw [hs.byteAt_eq (Nat.le_of_lt hlt)] at hkeep
    exact meets_pure ⟨hkeep, hindex, hlt, hresult, h.inside⟩

theorem meets_plain (h : Midway str s i d m out) (hlt : i + d < s.length)
    (hplain : ¬ escape <+: s.drop (i + d)) :
    Meets E (do moveDown i d; return d) m fun d' m' =>
      d ≤ d' ∧ ∃ b, Midway str s (i + 1) d' m' (out ++ [b]) := by
  refine meets_bind (meets_mono (meets_moveDown hs hE h hlt hplain) (fun _ he => he) ?_)
  intro _ m' h'
  exact meets_pure ⟨Nat.le_refl d, _, h'⟩

omit hs in
theorem meets_space (h : Midway str s i d m out) (hescape : escape <+: s.drop (i + d)) :
    Meets E (do store i 32; gint (d + 2)) m fun d' m' =>
      d ≤ d' ∧ ∃ b, Midway str s (i + 1) d' m' (out ++ [b]) := by
  have hlt : i + d + 2 < s.length :=
    lt_of_byteAt (by rw [(escape_prefix_iff.1 hescape).2.2]; decide)
  refine meets_bind (meets_store (meets_gint (fun h31 => hE (by omega)) fun _ => ?_))
  have hput := h.compacted.put (k := i + 1 + (d + 2)) (by omega) 32
  rw [h.index] at hput
  refine ⟨Nat.le_add_right d 2, 32, hput, ?_, by omega, ?_, inside_snoc h.inside (by omega)⟩
  · rw [List.length_append, h.index, List.length_singleton]
  · have e : i + 1 + (d + 2) = i + d + 3 := by omega
    rw [e, ← h.result, replaceAll_escape hescape, List.append_assoc]
    rfl

/-- One round puts out one byte and never sets the reader back. -/
theorem meets_escapeRound (h : Midway str s i d m out) (hlt : i + d < s.length) :
    Meets E (escapeRound i d) m fun d' m' =>
      d ≤ d' ∧ ∃ b, Midway str s (i + 1) d' m' (out ++ [b]) := by
  refine meets_bind (meets_strAt hs hE h (Nat.le_refl _) (Nat.le_of_lt hlt) fun m₁ h₁ _ => ?_)
  split_ifs with hpercent
  · refine meets_bind (meets_mono (meets_spaceFollows hs hE h₁ hpercent) (fun _ he => he) ?_)
    rintro b m₂ ⟨hb, h₂⟩
    split_ifs with hspace
    · exact meets_space hE h₂ (hb.1 hspace)
    · exact meets_plain hs hE h₂ hlt fun hescape => hspace (hb.2 hescape)
  · exact meets_plain hs hE h₁ hlt fun hescape => hpercent (escape_prefix_iff.1 hescape).1

end Rounds

/-- Why the loop may end without a result: the string has no `gint` for a length, or fewer
rounds were granted than it has bytes from `j` on. -/
def Excuse (n fuel j : ℕ) : EscapeFault → Prop
  | .overflow => 2 ^ 31 ≤ n
  | .running => fuel + j ≤ n

theorem excuse_mono {n fuel j j' : ℕ} (hj : j < j') :
    ∀ e, Excuse n fuel j' e → Excuse n (fuel + 1) j e
  | .overflow, h => h
  | .running, h => by unfold Excuse at h ⊢; omega

theorem meets_removeEscapesLoop {str : ℕ → UInt8} {s : CStr} (hs : HoldsString str s) :
    ∀ (fuel i d : ℕ) (m : Block UInt8) (out : CStr), Midway str s i d m out →
      Meets (Excuse s.length fuel (i + d)) (removeEscapesLoop fuel i d) m fun _ m' =>
        Unescaped str s m' ∧ s.length < 2 ^ 31 := by
  intro fuel
  induction fuel with
  | zero =>
    intro i d m out h
    refine meets_throw ?_
    rw [Excuse, Nat.zero_add]
    exact h.inString
  | succ fuel ih =>
    intro i d m out h
    refine meets_bind (meets_strAt hs id h (Nat.le_refl _) h.inString fun m₁ h₁ h31 => ?_)
    have hended := hs.ended_iff h.inString
    rw [hs.byteAt_eq h.inString] at hended
    split_ifs with h0
    · rw [hended] at h0
      exact meets_store ⟨unescaped_of_midway hs h₁ h0, h0 ▸ h31⟩
    · have hlt : i + d < s.length := Nat.lt_of_le_of_ne h.inString fun he => h0 (hended.2 he)
      refine meets_bind (meets_mono (meets_escapeRound hs id h₁ hlt) (fun _ he => he) ?_)
      rintro d' m₂ ⟨hd, b, h₂⟩
      refine meets_bind (meets_gint (fun hover => Nat.le_trans hover (by omega)) fun _ => ?_)
      exact meets_mono (ih (i + 1) d' m₂ _ h₂) (excuse_mono (by omega)) fun _ _ hdone => hdone

theorem removeEscapes_ends {str : ℕ → UInt8} {s : CStr} (hs : HoldsString str s) (fuel : ℕ) :
    (∃ m, cirlwRemoveEscapesInPlace fuel str = .ok m ∧ Unescaped str s m ∧ s.length < 2 ^ 31) ∨
      ∃ e, cirlwRemoveEscapesInPlace fuel str = .error e ∧ Excuse s.length fuel 0 e := by
  have h := meets_removeEscapesLoop hs fuel 0 0 ⟨str, []⟩ [] (midway_start str s)
  unfold Meets at h
  unfold cirlwRemoveEscapesInPlace
  cases hrun : removeEscapesLoop fuel 0 0 ⟨str, []⟩ with
  | ok r =>
    rw [hrun] at h
    exact Or.inl ⟨r.2, rfl, h⟩
  | error e =>
    rw [hrun] at h
    exact Or.inr ⟨e, rfl, h⟩

theorem unescaped_of_short {str : ℕ → UInt8} {s : CStr} (hs : HoldsString str s)
    (hlen : s.length < 2 ^ 31) {fuel : ℕ} (hfuel : s.length < fuel) :
    ∃ m, cirlwRemoveEscapesInPlace fuel str = .ok m ∧ Unescaped str s m := by
  rcases removeEscapes_ends hs fuel with ⟨m, hm, hdone, -⟩ | ⟨e, -, he⟩
  · exact ⟨m, hm, hdone⟩
  · cases e with
    | overflow => exact absurd hlen (Nat.not_lt_of_le he)
    | running => exact absurd hfuel (Nat.not_lt_of_le he)

theorem cirlwRemoveEscapes_eq (s : CStr) : cirlwRemoveEscapes s = replaceAll escape blank s := by
  fun_induction cirlwRemoveEscapes s with
  | case1 => rfl
  | case2 rest ih =>
    have hescape : escape <+: 37 :: 50 :: 48 :: rest := ⟨rest, rfl⟩
    rw [replaceAll_cons_pattern hescape, ih]
    rfl
  | case3 rest hrest ih =>
    rw [replaceAll_cons_other, ih]
    rintro ⟨t, ht⟩
    exact hrest t (List.cons.inj ht).2.symm
  | case4 b rest hb ih =>
    rw [replaceAll_cons_other, ih]
    rintro ⟨t, ht⟩
    exact hb (List.cons.inj ht).1.symm

theorem field_unescaped {f : CallerField} {str : ℕ → UInt8} {s : CStr} (hs : HoldsString str s)
    (hfit : s.length + 1 ≤ f.size) :
    ∃ m, cirlwRemoveEscapesInPlace f.size str = .ok m ∧
      HoldsString m.cells (cirlwRemoveEscapes s) ∧ ∀ o ∈ m.touched, o < f.size := by
  have hsize : f.size ≤ 256 := by cases f <;> decide
  obtain ⟨m, hm, hdone⟩ := unescaped_of_short hs (by omega) hfit
  refine ⟨m, hm, ?_, fun o ho => Nat.lt_of_le_of_lt (hdone.inside o ho) hfit⟩
  rw [cirlwRemoveEscapes_eq]
  exact hdone.holds

theorem holdsString_byteAt {s : CStr} (hnul : 0 ∉ s) : HoldsString (byteAt s) s :=
  ⟨fun _ hk => (getElem_terminated hk).symm, hnul⟩

/-- The indices cannot get to the terminator of a longer string. -/
theorem not_unescapes_of_long {s : CStr} (hnul : 0 ∉ s) (hlen : 2 ^ 31 ≤ s.length) :
    ¬ Unescapes s := by
  intro h
  obtain ⟨fuel, m, hm, -⟩ := h _ (holdsString_byteAt hnul)
  rcases removeEscapes_ends (holdsString_byteAt hnul) fuel with ⟨-, -, -, hshort⟩ | ⟨e, he, -⟩
  · exact absurd hlen (Nat.not_le_of_lt hshort)
  · rw [he] at hm
    cases hm

/-- Every string whose indices are all `gint`s is unescaped where it stands. -/
theorem short_string_unescaped (s : CStr) (hlen : s.length < 2 ^ 31) : Unescapes s := by
  intro str hs
  obtain ⟨m, hm, hdone⟩ := unescaped_of_short hs hlen (Nat.lt_succ_self s.length)
  exact ⟨s.length + 1, m, hm, hdone⟩

/-- An escape put into another one, and one cut off by the end. -/
theorem brokenEscapes_unescaped : Unescapes (ascii "%2%200%20%") :=
  short_string_unescaped _ (by decide)

example : replaceAll escape blank (ascii "%2%200%20%") = ascii "%2 0 %" := by decide

/-- 2 GiB of text without a single percent sign. -/
theorem hugeString_overflows : ¬ Unescapes (List.replicate (2 ^ 31) 97) :=
  not_unescapes_of_long (fun h0 => absurd (List.eq_of_mem_replicate h0) (by decide))
    (Nat.le_of_eq List.length_replicate.symm)

end Fritz2ci
