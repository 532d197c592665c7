import Mathlib.Algebra.Order.Ring.Int
import Mathlib.Data.List.Basic
import Mathlib.Data.List.TakeWhile
import Mathlib.Tactic.SplitIfs

/-! C strings as the bytes before their terminator, and the library functions on them.
Reading a buffer past the bytes it holds gives the terminator 0. -/

namespace CString

/-- The bytes of a C string without the terminating NUL. -/
abbrev CStr := List UInt8

/-- The bytes of an ASCII literal. -/
def ascii (s : String) : CStr := s.toList.map fun c => c.toNat.toUInt8

/-- The byte at an index, the terminator from the end of the string on. -/
def byteAt (s : CStr) (i : ℕ) : UInt8 := s.getD i 0

/-- The string a buffer holds: everything before its first NUL. -/
def ofBuffer (buf : List UInt8) : CStr := buf.takeWhile (· ≠ 0)

def isDigit (b : UInt8) : Bool := 48 ≤ b && b ≤ 57

/-- `g_ascii_digit_value`: -1 for a byte that is no digit. -/
def digitValue (b : UInt8) : Int := if isDigit b then (b.toNat : Int) - 48 else -1

/-- `isspace` in the C locale. -/
def isSpace (b : UInt8) : Bool := b = 32 || (9 ≤ b && b ≤ 13)

/-- `g_ascii_isspace`, which unlike `isspace` leaves out the vertical tab. -/
def gIsSpace (b : UInt8) : Bool := b = 32 || b = 9 || b = 10 || b = 12 || b = 13

/-- `strcmp (s, t) <= 0` -/
def strcmpLe : CStr → CStr → Bool
  | [], _ => true
  | _ :: _, [] => false
  | a :: s, b :: t => a < b || (a == b && strcmpLe s t)

/-- What `g_strlcpy (dst, s, size)` leaves in `dst`. -/
def strlcpy (s : CStr) (size : ℕ) : CStr := s.take (size - 1)

/-- `g_strsplit (s, sep, 0)`: the empty string has no field at all. -/
def strsplit (s : CStr) (sep : UInt8) : List CStr := if s = [] then [] else s.splitOn sep

/-- `strncmp (a, b, n) == 0`. -/
def strncmpEq : ℕ → List UInt8 → List UInt8 → Bool
  | 0, _, _ => true
  | n + 1, a, b => a.headD 0 == b.headD 0 && (a.headD 0 == 0 || strncmpEq n a.tail b.tail)

def decimal (s : CStr) : ℕ := s.foldl (fun n b => 10 * n + (b.toNat - 48)) 0

/-- Sign and magnitude of the number `strtol` and `strtoul` read in base 10. -/
def signedDecimal (s : CStr) : Bool × ℕ :=
  match s.dropWhile isSpace with
  | [] => (false, 0)
  | b :: t =>
    if b = 45 then (true, decimal (t.takeWhile isDigit))
    else if b = 43 then (false, decimal (t.takeWhile isDigit))
    else (false, decimal ((b :: t).takeWhile isDigit))

/-- `atoi` as `(int) strtol (s, NULL, 10)` before the conversion to `int`: the value
saturates at the bounds of a 64-bit `long`. -/
def strtol (s : CStr) : Int :=
  let (neg, n) := signedDecimal s
  if neg then max (-(2 ^ 63)) (-(n : Int)) else min (2 ^ 63 - 1) (n : Int)

/-- `strtoul (s, NULL, 10)` for a 64-bit `unsigned long`. -/
def strtoul (s : CStr) : ℕ :=
  let (neg, n) := signedDecimal s
  if 2 ^ 64 ≤ n then 2 ^ 64 - 1 else if neg then (2 ^ 64 - n) % 2 ^ 64 else n

/-- `fgets` in a loop: the buffers that successive calls with room for `n` bytes return.
`cur` holds the bytes of the buffer being filled, last one first. -/
def fgetsFrom (n : ℕ) (cur : List UInt8) : List UInt8 → List (List UInt8)
  | [] => if cur = [] then [] else [cur.reverse]
  | b :: rest =>
    if b = 10 ∨ n ≤ cur.length + 1 then (b :: cur).reverse :: fgetsFrom n [] rest
    else fgetsFrom n (b :: cur) rest

/-- All buffers of a stream read by `fgets (buffer, n + 1, f)` until the end of file. -/
def fgetsAll (n : ℕ) (content : List UInt8) : List (List UInt8) := fgetsFrom n [] content

theorem digit_bounds {b : UInt8} (h : isDigit b) : 48 ≤ b.toNat ∧ b.toNat ≤ 57 := by
  simp only [isDigit, Bool.and_eq_true, decide_eq_true_eq, UInt8.le_iff_toNat_le] at h
  exact h

/-- A text of digits has no blank and no sign to skip. -/
theorem signedDecimal_digits {s : CStr} (hs : ∀ b ∈ s, isDigit b) :
    signedDecimal s = (false, decimal s) := by
  cases s with
  | nil => rfl
  | cons b s =>
    have hb := digit_bounds (hs b (by simp))
    have hspace : isSpace b = false := by
      simp only [isSpace, Bool.or_eq_false_iff, decide_eq_false_iff_not, Bool.and_eq_false_iff,
        UInt8.le_iff_toNat_le, ← UInt8.toNat_inj]
      exact ⟨by simp; omega, Or.inr (by simp; omega)⟩
    have hminus : b ≠ 45 := fun h => by rw [h] at hb; exact absurd hb (by decide)
    have hplus : b ≠ 43 := fun h => by rw [h] at hb; exact absurd hb (by decide)
    have htake : (b :: s).takeWhile isDigit = b :: s := List.takeWhile_eq_self_iff.2 hs
    rw [signedDecimal, List.dropWhile_cons_of_neg (by simp [hspace])]
    simp only [if_neg hminus, if_neg hplus, htake]

theorem strtol_digits {s : CStr} (hs : ∀ b ∈ s, isDigit b) (h : decimal s < 2 ^ 63) :
    strtol s = decimal s := by
  rw [strtol, signedDecimal_digits hs]
  simp only [Bool.false_eq_true, if_false]
  omega

theorem strtoul_digits {s : CStr} (hs : ∀ b ∈ s, isDigit b) (h : decimal s < 2 ^ 64) :
    strtoul s = decimal s := by
  rw [strtoul, signedDecimal_digits hs]
  simp only [Bool.false_eq_true, if_false]
  exact if_neg (by omega)

theorem strlcpy_length (s : CStr) (size : ℕ) :
    (strlcpy s size).length = min (size - 1) s.length := List.length_take

theorem strlcpy_length_le (s : CStr) (size : ℕ) : (strlcpy s size).length ≤ size - 1 := by
  rw [strlcpy_length]
  exact Nat.min_le_left _ _

theorem ofBuffer_length_le (buf : List UInt8) : (ofBuffer buf).length ≤ buf.length :=
  (List.takeWhile_prefix _).length_le

theorem ofBuffer_eq_self {buf : List UInt8} (h : 0 ∉ buf) : ofBuffer buf = buf := by
  unfold ofBuffer
  rw [List.takeWhile_eq_self_iff]
  intro b hb
  simp only [ne_eq, decide_not, Bool.not_eq_eq_eq_not, Bool.not_true, decide_eq_false_iff_not]
  rintro rfl
  exact h hb

theorem ofBuffer_nul {s : CStr} (h : 0 ∉ s) (rest : List UInt8) :
    ofBuffer (s ++ 0 :: rest) = s := by
  rw [ofBuffer, List.takeWhile_append_of_pos]
  · simp
  · intro b hb
    exact decide_eq_true fun h0 => h (by rwa [← h0])

theorem drop_takeWhile (p : UInt8 → Bool) (s : CStr) :
    s.drop (s.takeWhile p).length = s.dropWhile p := by
  calc s.drop (s.takeWhile p).length
      = (s.takeWhile p ++ s.dropWhile p).drop (s.takeWhile p).length := by
        rw [List.takeWhile_append_dropWhile]
    _ = s.dropWhile p := List.drop_left

theorem takeWhile_congr {p q : UInt8 → Bool} {s : CStr} (h : ∀ b ∈ s, p b = q b) :
    s.takeWhile p = s.takeWhile q := by
  induction s with
  | nil => rfl
  | cons b s ih =>
    obtain ⟨hb, hs⟩ := List.forall_mem_cons.1 h
    rw [List.takeWhile_cons, List.takeWhile_cons, hb, ih hs]

theorem strncmpEq_cons_of_ne {a b : UInt8} (h : a ≠ b) (n : ℕ) (s t : List UInt8) :
    strncmpEq (n + 1) (a :: s) (b :: t) = false := by
  simp [strncmpEq, h]

theorem fgetsFrom_length_le {n : ℕ} (hn : 0 < n) :
    ∀ (content cur : List UInt8), cur.length < n →
      ∀ l ∈ fgetsFrom n cur content, l.length ≤ n := by
  intro content
  induction content with
  | nil =>
    intro cur hc l hl
    unfold fgetsFrom at hl
    split_ifs at hl with h
    · simp at hl
    · obtain rfl := List.mem_singleton.1 hl
      simp; omega
  | cons b rest ih =>
    intro cur hc l hl
    unfold fgetsFrom at hl
    split_ifs at hl with h
    · rcases List.mem_cons.1 hl with rfl | hl
      · simp; omega
      · exact ih [] (by simpa using hn) l hl
    · exact ih (b :: cur) (by simp; omega) l hl

/-- No buffer is longer than the room given to `fgets`. -/
theorem fgetsAll_length_le {n : ℕ} (hn : 0 < n) (content : List UInt8) :
    ∀ l ∈ fgetsAll n content, l.length ≤ n :=
  fgetsFrom_length_le hn content [] (by simpa using hn)

/-- Splitting fields that end in `sep` gives the fields back, followed by what comes
after the last separator. -/
theorem splitOn_fields (sep : UInt8) (fields : List CStr) (rest : CStr)
    (h : ∀ f ∈ fields, sep ∉ f) :
    (fields.flatMap (· ++ [sep]) ++ rest).splitOn sep = fields ++ rest.splitOn sep := by
  induction fields with
  | nil => simp
  | cons f fs ih =>
    have hfs := ih fun g hg => h g (by simp [hg])
    simp only [List.flatMap_cons, List.append_assoc, List.cons_append, List.nil_append]
    rw [List.splitOn_append_cons_self_of_not_mem (h f (by simp)), hfs]

theorem sep_not_mem_splitOn (sep : UInt8) (s : List UInt8) : ∀ l ∈ s.splitOn sep, sep ∉ l := by
  induction s with
  | nil => simp
  | cons b s ih =>
    rw [List.splitOn_cons_eq_if_modifyHead]
    split_ifs with hb
    · exact List.forall_mem_cons.2 ⟨List.not_mem_nil, ih⟩
    · obtain ⟨l, ls, hs⟩ := List.exists_cons_of_ne_nil (List.splitOn_ne_nil sep s)
      rw [hs] at ih ⊢
      obtain ⟨hl, hls⟩ := List.forall_mem_cons.1 ih
      refine List.forall_mem_cons.2 ⟨fun hm => ?_, hls⟩
      rcases List.mem_cons.1 hm with rfl | hm
      · exact hb (beq_self_eq_true _)
      · exact hl hm

theorem splitOn_subset (sep : UInt8) (s : List UInt8) : ∀ l ∈ s.splitOn sep, l ⊆ s := by
  induction s with
  | nil => simp
  | cons b s ih =>
    rw [List.splitOn_cons_eq_if_modifyHead]
    split_ifs with hb
    · exact List.forall_mem_cons.2 ⟨List.nil_subset _, fun l hl =>
        List.Subset.trans (ih l hl) (List.subset_cons_self b s)⟩
    · obtain ⟨l, ls, hs⟩ := List.exists_cons_of_ne_nil (List.splitOn_ne_nil sep s)
      rw [hs] at ih ⊢
      obtain ⟨hl, hls⟩ := List.forall_mem_cons.1 ih
      exact List.forall_mem_cons.2 ⟨List.cons_subset_cons b hl, fun l hl =>
        List.Subset.trans (hls l hl) (List.subset_cons_self b s)⟩

/-- The buffers that `fgets` gives for lines that fit: each with its newline, and the last
one without where the file does not end in one. -/
def lineBuffers : List CStr → List (List UInt8)
  | [] => []
  | [r] => if r = [] then [] else [r]
  | l :: l' :: ls => (l ++ [10]) :: lineBuffers (l' :: ls)

/-- The same lines without their newlines. -/
def endedLines : List CStr → List CStr
  | [] => []
  | [r] => if r = [] then [] else [r]
  | l :: l' :: ls => l :: endedLines (l' :: ls)

/-- The lines of a file; behind its last newline there is one only where bytes follow. -/
def textLines (content : List UInt8) : List CStr := endedLines (content.splitOn 10)

theorem endedLines_subset (ls : List CStr) : endedLines ls ⊆ ls := by
  fun_induction endedLines ls with
  | case1 => exact List.Subset.refl _
  | case2 => exact List.nil_subset _
  | case3 r hr => exact List.Subset.refl _
  | case4 l l' ls ih => exact List.cons_subset_cons l ih

/-- What does not depend on the newline is the same for the buffers as for the lines. -/
theorem map_lineBuffers {β : Type*} {f : CStr → β} (h : ∀ l, f (l ++ [10]) = f l)
    (ls : List CStr) : (lineBuffers ls).map f = (endedLines ls).map f := by
  fun_induction lineBuffers ls with
  | case1 => rfl
  | case2 => rfl
  | case3 r hr => rw [endedLines, if_neg hr]
  | case4 l l' ls ih => rw [endedLines, List.map_cons, List.map_cons, h, ih]

theorem flatten_lineBuffers (ls : List CStr) :
    (lineBuffers ls).flatten = [(10 : UInt8)].intercalate ls := by
  fun_induction lineBuffers ls with
  | case1 => rfl
  | case2 => rfl
  | case3 r hr => simp
  | case4 l l' ls ih => rw [List.flatten_cons, ih, List.intercalate_cons_cons]

theorem fgetsFrom_line {n : ℕ} {line : CStr} (cur : List UInt8) (rest : List UInt8)
    (hline : 10 ∉ line) (hlen : cur.length + line.length < n) :
    fgetsFrom n cur (line ++ 10 :: rest) =
      (cur.reverse ++ line ++ [10]) :: fgetsFrom n [] rest := by
  induction line generalizing cur with
  | nil => simp [fgetsFrom]
  | cons b line ih =>
    rw [List.mem_cons, not_or] at hline
    rw [List.length_cons] at hlen
    rw [List.cons_append, fgetsFrom, if_neg (by rintro (h | h); exacts [hline.1 h.symm, by omega]),
      ih _ hline.2 (by rw [List.length_cons]; omega)]
    simp

theorem fgetsFrom_last {n : ℕ} {line : CStr} (cur : List UInt8) (hline : 10 ∉ line)
    (hlen : cur.length + line.length < n) (hne : cur ≠ [] ∨ line ≠ []) :
    fgetsFrom n cur line = [cur.reverse ++ line] := by
  induction line generalizing cur with
  | nil => simp [fgetsFrom, hne.resolve_right (absurd rfl)]
  | cons b line ih =>
    rw [List.mem_cons, not_or] at hline
    rw [List.length_cons] at hlen
    rw [fgetsFrom, if_neg (by rintro (h | h); exacts [hline.1 h.symm, by omega]),
      ih _ hline.2 (by rw [List.length_cons]; omega) (Or.inl (List.cons_ne_nil _ _))]
    simp

theorem fgetsAll_lineBuffers {n : ℕ} {ls : List CStr} (h : ∀ l ∈ ls, 10 ∉ l ∧ l.length < n) :
    fgetsAll n (lineBuffers ls).flatten = lineBuffers ls := by
  fun_induction lineBuffers ls with
  | case1 => rfl
  | case2 => rfl
  | case3 r hr =>
    obtain ⟨hline, hlen⟩ := h r (by simp)
    rw [List.flatten_singleton]
    exact fgetsFrom_last [] hline (by simpa using hlen) (Or.inr hr)
  | case4 l l' ls ih =>
    obtain ⟨hl, hls⟩ := List.forall_mem_cons.1 h
    rw [List.flatten_cons, List.append_assoc, List.singleton_append, fgetsAll,
      fgetsFrom_line [] _ hl.1 (by simpa using hl.2)]
    exact congrArg _ (ih hls)

/-- The buffers of a file, put behind one another, are the file. -/
theorem flatten_buffers_of_content (content : List UInt8) :
    (lineBuffers (content.splitOn 10)).flatten = content := by
  rw [flatten_lineBuffers, List.intercalate_splitOn]

theorem buffer_subset {content b : List UInt8} (h : b ∈ lineBuffers (content.splitOn 10)) :
    b ⊆ content := fun x hx => by
  rw [← flatten_buffers_of_content content]
  exact List.mem_flatten.2 ⟨b, h, hx⟩

theorem fgetsAll_content {n : ℕ} {content : List UInt8}
    (h : ∀ l ∈ content.splitOn 10, l.length < n) :
    fgetsAll n content = lineBuffers (content.splitOn 10) := by
  have hread := fgetsAll_lineBuffers fun l hl => ⟨sep_not_mem_splitOn 10 content l hl, h l hl⟩
  rwa [flatten_buffers_of_content] at hread

/-- Reading from the start of a line. -/
theorem fgetsAll_drop_lineBuffers {n : ℕ} {ls : List CStr}
    (h : ∀ l ∈ ls, 10 ∉ l ∧ l.length < n) (k : ℕ) :
    fgetsAll n ((lineBuffers ls).flatten.drop ((lineBuffers ls).take k).flatten.length) =
      (lineBuffers ls).drop k := by
  induction k generalizing ls with
  | zero => exact fgetsAll_lineBuffers h
  | succ k ih =>
    fun_cases lineBuffers ls with
    | case1 => rfl
    | case2 => rfl
    | case3 r hr => simp [fgetsAll, fgetsFrom]
    | case4 l l' ls =>
      rw [List.take_succ_cons, List.flatten_cons, List.flatten_cons, List.length_append,
        List.drop_length_add_append, List.drop_succ_cons]
      exact ih (List.forall_mem_cons.1 h).2

end CString
