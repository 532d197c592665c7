import Fritz2ci.Lib.FdTable
import Mathlib.Data.Int.Notation
import Mathlib.Data.List.Nodup

/-! The descriptors that one process opens and closes. `Owns` says which numbers it may still
close; `OwnCloses` is about the calls of `close` it has made. -/

namespace FdTable

/-- Who opened a descriptor: somebody before the program, or the program with its k-th call. -/
inductive Owner
  | inherited
  | program (k : ℕ)
  deriving DecidableEq, Repr

structure Process where
  fds : Table Owner
  /-- the number of descriptors the program has opened -/
  opened : ℕ
  /-- what each `close` hit, in order -/
  closes : List (Option Owner)

def Process.openFd (p : Process) : ℤ × Process :=
  (lowestFree p.fds,
    { p with fds := openLowest (.program p.opened) p.fds, opened := p.opened + 1 })

def Process.closeFd (fd : ℤ) (p : Process) : Process :=
  if 0 ≤ fd then
    { p with fds := close fd.toNat p.fds, closes := p.closes ++ [lookup p.fds fd.toNat] }
  else { p with closes := p.closes ++ [none] }

/-- Whether each descriptor that the program finds is open. -/
def Process.start (inherited : List Bool) : Process where
  fds := inherited.map fun isOpen => if isOpen then some .inherited else none
  opened := 0
  closes := []

/-- Every call of `close` hit a descriptor that the program opened, and no two the same. -/
def OwnCloses (p : Process) : Prop :=
  (∀ c ∈ p.closes, ∃ k, c = some (.program k)) ∧ p.closes.Nodup

structure Owns (p : Process) (live : List ℤ) : Prop where
  own : ∀ fd ∈ live, 0 ≤ fd ∧ ∃ k, lookup p.fds fd.toNat = some (.program k)
  nodup : live.Nodup
  inj : ∀ fd fd' k, lookup p.fds fd = some (.program k) → lookup p.fds fd' = some (.program k) →
    fd = fd'
  known : ∀ fd k, lookup p.fds fd = some (.program k) →
    k < p.opened ∧ some (.program k) ∉ p.closes
  closed : ∀ c ∈ p.closes, ∃ k < p.opened, c = some (.program k)
  once : p.closes.Nodup

theorem owns_ownCloses {p : Process} {live : List ℤ} (h : Owns p live) : OwnCloses p :=
  ⟨fun c hc => (h.closed c hc).imp fun _ hk => hk.2, h.once⟩

theorem owns_perm {p : Process} {live live' : List ℤ} (h : Owns p live) (hp : live.Perm live') :
    Owns p live' :=
  ⟨fun fd hfd => h.own fd (hp.mem_iff.2 hfd), hp.nodup_iff.1 h.nodup, h.inj, h.known, h.closed,
    h.once⟩

theorem owns_sublist {p : Process} {live live' : List ℤ} (h : Owns p live)
    (hs : live'.Sublist live) : Owns p live' :=
  ⟨fun fd hfd => h.own fd (hs.subset hfd), h.nodup.sublist hs, h.inj, h.known, h.closed, h.once⟩

theorem owns_start (inherited : List Bool) : Owns (Process.start inherited) [] := by
  have hnone : ∀ (fd k : ℕ), lookup (Process.start inherited).fds fd ≠ some (.program k) := by
    intro fd k h
    obtain ⟨isOpen, -, ho⟩ := List.mem_map.1 (List.mem_of_getElem? (Option.join_eq_some_iff.1 h))
    split_ifs at ho
    cases ho
  exact ⟨by simp, List.nodup_nil, fun fd _ k h => absurd h (hnone fd k),
    fun fd k h => absurd h (hnone fd k), by simp [Process.start], List.nodup_nil⟩

theorem lookup_openFd {p : Process} {fd : ℕ} :
    lookup p.openFd.2.fds fd =
      if fd = lowestFree p.fds then some (.program p.opened) else lookup p.fds fd := by
  split_ifs with h
  · rw [h]
    exact lookup_openLowest_self _ _
  · exact lookup_openLowest_of_ne _ h

theorem owns_openFd {p : Process} {live : List ℤ} (h : Owns p live) :
    Owns p.openFd.2 (p.openFd.1 :: live) := by
  have hfree : lookup p.fds (lowestFree p.fds) = none := lookup_lowestFree p.fds
  refine ⟨fun fd hfd => ?_, List.nodup_cons.2 ⟨fun hm => ?_, h.nodup⟩, fun fd fd' k hk hk' => ?_,
    fun fd k hk => ?_, fun c hc => ?_, h.once⟩
  · rcases List.mem_cons.1 hfd with rfl | hfd
    · exact ⟨Int.natCast_nonneg _, p.opened, lookup_openLowest_self _ _⟩
    · obtain ⟨hnonneg, k, hk⟩ := h.own fd hfd
      exact ⟨hnonneg, k, lookup_openLowest_of_some _ hk⟩
  · obtain ⟨-, k, hk⟩ := h.own _ hm
    rw [show p.openFd.1.toNat = lowestFree p.fds from Int.toNat_natCast _, hfree] at hk
    cases hk
  · rw [lookup_openFd] at hk hk'
    split_ifs at hk hk' with hfd hfd' hfd'
    · rw [hfd, hfd']
    · cases hk
      exact absurd (h.known fd' _ hk').1 (Nat.lt_irrefl _)
    · cases hk'
      exact absurd (h.known fd _ hk).1 (Nat.lt_irrefl _)
    · exact h.inj fd fd' k hk hk'
  · rw [lookup_openFd] at hk
    split_ifs at hk with hfd
    · cases hk
      refine ⟨Nat.lt_succ_self _, fun hc => ?_⟩
      obtain ⟨k, hlt, he⟩ := h.closed _ hc
      cases he
      exact Nat.lt_irrefl _ hlt
    · exact ⟨Nat.lt_succ_of_lt (h.known fd k hk).1, (h.known fd k hk).2⟩
  · obtain ⟨k, hlt, he⟩ := h.closed c hc
    exact ⟨k, Nat.lt_succ_of_lt hlt, he⟩

theorem owns_closeFd {p : Process} {fd : ℤ} {live : List ℤ} (h : Owns p (fd :: live)) :
    Owns (p.closeFd fd) live := by
  obtain ⟨hnonneg, k, hk⟩ := h.own fd List.mem_cons_self
  obtain ⟨hnotin, hnodup⟩ := List.nodup_cons.1 h.nodup
  obtain ⟨hlt, hnew⟩ := h.known _ k hk
  -- what is still open behind the call was open before it, on another descriptor
  have hopen : ∀ fd' k', lookup (close fd.toNat p.fds) fd' = some (.program k') →
      fd' ≠ fd.toNat ∧ lookup p.fds fd' = some (.program k') := by
    intro fd' k' hk'
    have hne : fd' ≠ fd.toNat := fun he => by
      rw [he, lookup_close_self] at hk'
      cases hk'
    exact ⟨hne, (lookup_close_of_ne hne p.fds).symm.trans hk'⟩
  rw [Process.closeFd, if_pos hnonneg, hk]
  refine ⟨fun fd' hfd' => ?_, hnodup, fun a b k' ha hb => ?_, fun a k' ha => ?_, fun c hc => ?_, ?_⟩
  · obtain ⟨hnonneg', k', hk'⟩ := h.own fd' (List.mem_cons_of_mem _ hfd')
    have hne : fd'.toNat ≠ fd.toNat := fun he => by
      obtain rfl : fd' = fd := by omega
      exact hnotin hfd'
    exact ⟨hnonneg', k', (lookup_close_of_ne hne p.fds).trans hk'⟩
  · exact h.inj a b k' (hopen a k' ha).2 (hopen b k' hb).2
  · obtain ⟨hne, hopen⟩ := hopen a k' ha
    refine ⟨(h.known a k' hopen).1, fun hc => ?_⟩
    rcases List.mem_append.1 hc with hc | hc
    · exact (h.known a k' hopen).2 hc
    · obtain rfl : k' = k := by simpa using hc
      exact hne (h.inj a fd.toNat k' hopen hk)
  · rcases List.mem_append.1 hc with hc | hc
    · exact h.closed c hc
    · exact ⟨k, hlt, List.mem_singleton.1 hc⟩
  · exact List.nodup_append.2 ⟨h.once, List.nodup_singleton _, fun a ha b hb he =>
      hnew (by rw [← List.mem_singleton.1 hb, ← he]; exact ha)⟩

end FdTable
