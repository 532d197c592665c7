import Fritz2ci.Lib.CString
import Mathlib.Logic.Function.Basic

/-! The call record `CIDataSet` and the copies made into its fixed-size fields. -/

namespace Fritz2ci

open CString

inductive CIField
  | cidsNumber | cidsNumberComplete | cidsName | cidsDate | cidsTime | cidsMSN
  | cidsAlias | cidsService | cidsFix | cidsArea | cidsAreaCode
  deriving DecidableEq, Repr

/-- The declared size of the `char` array of a field. -/
def CIField.size : CIField → ℕ
  | .cidsNumber | .cidsNumberComplete => 32
  | .cidsDate | .cidsTime | .cidsMSN | .cidsAreaCode => 16
  | .cidsName | .cidsAlias | .cidsService | .cidsFix | .cidsArea => 256

/-- The fields in the order of declaration. -/
def CIField.all : List CIField :=
  [.cidsNumber, .cidsNumberComplete, .cidsName, .cidsDate, .cidsTime, .cidsMSN,
    .cidsAlias, .cidsService, .cidsFix, .cidsArea, .cidsAreaCode]

/-- A data set as the string that each field holds. -/
abbrev CIDataSet := CIField → CStr

def CIDataSet.zero : CIDataSet := fun _ => []

/-- `sizeof (CIDataSet)`: `char` arrays need no padding. -/
def sizeofCIDataSet : ℕ := (CIField.all.map CIField.size).sum

/-- The bytes of a data set, each field filled up with zeros behind its string. -/
def CIDataSet.bytes (d : CIDataSet) : List UInt8 :=
  CIField.all.flatMap fun f => (d f ++ List.replicate (f.size - (d f).length) 0).take f.size

/-- A data set being filled, with every string written into one of its fields so far. -/
structure Fill where
  set : CIDataSet
  writes : List (CIField × CStr)
  /-- a field is empty or holds a string written into it -/
  written : ∀ f, set f = [] ∨ (f, set f) ∈ writes

def Fill.start : Fill := ⟨CIDataSet.zero, [], fun _ => Or.inl rfl⟩

def Fill.strcpy (x : Fill) (f : CIField) (s : CStr) : Fill where
  set := Function.update x.set f s
  writes := x.writes ++ [(f, s)]
  written g := by
    by_cases h : g = f
    · subst h; simp
    · rw [Function.update_of_ne h]
      exact (x.written g).imp_right fun hg => List.mem_append_left _ hg

/-- Every string written was, with its terminator, no longer than the field. -/
def Fill.Fits (x : Fill) : Prop := ∀ w ∈ x.writes, w.2.length + 1 ≤ w.1.size

instance (x : Fill) : Decidable x.Fits := inferInstanceAs (Decidable (∀ w ∈ x.writes, _))

theorem fits_start : Fill.start.Fits := by
  intro w hw
  cases hw

@[simp] theorem strcpy_fits (x : Fill) (f : CIField) (s : CStr) :
    (x.strcpy f s).Fits ↔ x.Fits ∧ s.length + 1 ≤ f.size := by
  simp only [Fill.Fits, Fill.strcpy, List.mem_append, List.mem_singleton]
  constructor
  · intro h
    exact ⟨fun w hw => h w (Or.inl hw), h (f, s) (Or.inr rfl)⟩
  · rintro ⟨h, hs⟩ w (hw | rfl)
    · exact h w hw
    · exact hs

/-- A field of a data set whose writes all fitted holds a string that fits. -/
theorem Fill.Fits.length_lt {x : Fill} (h : x.Fits) (f : CIField) : (x.set f).length < f.size := by
  rcases x.written f with he | hw
  · rw [he]; cases f <;> decide
  · exact h _ hw

theorem strcpy_set_self (x : Fill) (f : CIField) (s : CStr) : (x.strcpy f s).set f = s := by
  simp [Fill.strcpy]

theorem strcpy_set_of_ne (x : Fill) {f g : CIField} (h : g ≠ f) (s : CStr) :
    (x.strcpy f s).set g = x.set g := by
  simp [Fill.strcpy, h]

example : sizeofCIDataSet = 1408 := rfl

end Fritz2ci
