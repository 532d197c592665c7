import Mathlib.Data.List.Infix

/-! Streams put together from blocks, one for each item of a list, and what a part cut out of
such a stream holds of them. -/

namespace Blocks

variable {α β : Type*} {f : α → List β} {ms : List α} {l : List β}

/-- The parts of a stream: one inside a block, or the end of a block, whole blocks, and the
beginning of the next. -/
inductive Part (f : α → List β) (ms : List α) : List β → Prop
  | inside {m : α} {l : List β} (hm : m ∈ ms) (hl : l <:+: f m) : Part f ms l
  | across (before during after : List α) (hms : ms = before ++ during ++ after) {u v : List β}
      (hu : u = [] ∨ ∃ a ∈ before.getLast?, u <:+ f a)
      (hv : v = [] ∨ ∃ b ∈ after.head?, v <+: f b) : Part f ms (u ++ during.flatMap f ++ v)

/-- From the front, a part is a number of whole blocks and the beginning of the next. -/
theorem exists_of_prefix (h : l <+: ms.flatMap f) : ∃ during after v, ms = during ++ after ∧
    l = during.flatMap f ++ v ∧ (v = [] ∨ ∃ b ∈ after.head?, v <+: f b) := by
  induction ms generalizing l with
  | nil => exact ⟨[], [], l, rfl, rfl, Or.inl (List.prefix_nil.1 h)⟩
  | cons m ms ih =>
    rw [List.flatMap_cons] at h
    rcases List.prefix_or_prefix_of_prefix h (List.prefix_append _ _) with hl | ⟨rest, rfl⟩
    · exact ⟨[], m :: ms, l, rfl, rfl, Or.inr ⟨m, rfl, hl⟩⟩
    · obtain ⟨during, after, v, rfl, rfl, hv⟩ := ih ((List.prefix_append_right_inj _).1 h)
      exact ⟨m :: during, after, v, rfl, by simp, hv⟩

theorem part_of_infix (h : l <:+: ms.flatMap f) : Part f ms l := by
  induction ms with
  | nil =>
    obtain rfl : l = [] := List.infix_nil.1 h
    exact .across [] [] [] rfl (Or.inl rfl) (Or.inl rfl)
  | cons m ms ih =>
    rw [List.flatMap_cons, List.infix_append_iff] at h
    rcases h with hl | hl | ⟨u, w, rfl, hu, hw⟩
    · exact .inside List.mem_cons_self hl
    · cases ih hl with
      | inside hm hl => exact .inside (List.mem_cons_of_mem m hm) hl
      | across before during after hms hu hv =>
        refine .across (m :: before) during after (by rw [hms]; rfl) (hu.imp_right ?_) hv
        rintro ⟨a, ha, hsuffix⟩
        refine ⟨a, ?_, hsuffix⟩
        cases before with
        | nil => cases ha
        | cons b before => simpa using ha
    · obtain ⟨during, after, v, hms, rfl, hv⟩ := exists_of_prefix hw
      rw [← List.append_assoc]
      exact .across [m] during after (by rw [hms]; rfl) (Or.inr ⟨m, rfl, hu⟩) hv

end Blocks
