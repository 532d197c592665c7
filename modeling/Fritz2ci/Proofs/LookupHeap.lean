import Fritz2ci.Proofs.Transfer
import Fritz2ci.Spec.LookupHeap

/-! What the lookups leave in memory. Every block is freed at most once and not used behind that;
what is never freed is the record of each lookup, every name of a charset but the last one of a
page, and the answer of a source that the memory does not suffice for. -/

namespace Fritz2ci

open CString Heap

theorem borrows_matchField {take : Multiset ℕ} {matchinfo : ℕ} (hm : matchinfo ∈ take)
    (words : ℤ → CStr) (m : Matching) (pf : CIRLPatternField) :
    Borrows take (OnHeap.matchField matchinfo words m pf) (matchField words m pf) := by
  refine leaves_touch hm (leaves_malloc fun word => ?_)
  have hcopy : Borrows (word ::ₘ take) (OnHeap.copyWord pf word) () := by
    unfold OnHeap.copyWord
    split_ifs
    · rw [← bind_pure (touch word)]
      exact leaves_touch (Multiset.mem_cons_self word take) (leaves_pure ⟨rfl, rfl⟩)
    · exact leaves_pure ⟨rfl, rfl⟩
  exact borrows_bind hcopy (leaves_free rfl (leaves_pure ⟨rfl, rfl⟩))

theorem borrows_matchFields {take : Multiset ℕ} {e : OnHeap.Expressions} {matchinfo : ℕ}
    (hm : matchinfo ∈ take) (hpats : e.pats ∈ take) (line : CStr) (m : Matching) (p : CIRLPattern) :
    Borrows take (OnHeap.matchFields e matchinfo line m p) (matchPattern line m p) := by
  unfold OnHeap.matchFields matchPattern
  cases p.expression.fetch line with
  | none => exact leaves_pure ⟨rfl, rfl⟩
  | some words =>
    exact leaves_touch hpats (borrows_foldlM (fun b pf _ => borrows_matchField hm words b pf) m)

theorem borrows_matchPattern {take : Multiset ℕ} {e : OnHeap.Expressions} {p : CIRLPattern × ℕ}
    (hreg : e.reg ∈ take) (hpats : e.pats ∈ take) (hp : p.2 ∈ take) (line : CStr) (m : Matching) :
    Borrows take (OnHeap.matchPattern e line m p) (matchPattern line m p.1) := by
  refine leaves_touch hreg (leaves_touch hp (leaves_malloc fun matchinfo => ?_))
  have hinfo : matchinfo ∈ matchinfo ::ₘ take := Multiset.mem_cons_self matchinfo take
  refine leaves_touch hinfo (borrows_bind ?_ (leaves_free rfl (leaves_pure ⟨rfl, rfl⟩)))
  exact borrows_matchFields hinfo (Multiset.mem_cons_of_mem hpats) line m p.1

def blockOf : Option ℕ → Multiset ℕ
  | some x => {x}
  | none => 0

structure OwnsExpressions (e : OnHeap.Expressions) (take : Multiset ℕ) : Prop where
  reg : e.reg ∈ take
  pats : e.pats ∈ take
  compiled : ∀ p ∈ e.compiled, p.2 ∈ take
  charset : e.charset ∈ take

/-- In front of a line: the string behind `charset` and those lost before are owned, one for every
line that declares one. -/
structure LinesSeen (patterns : List CIRLPattern) (charset : GRegex) (base : Multiset ℕ)
    (fields : CallerField → CStr) (seen : List CStr) (s : Matching × Option ℕ)
    (kept : Multiset ℕ) : Prop where
  value : s.1 = seen.foldl (matchLine patterns charset) (Matching.start fields)
  named : s.1.charset.isSome = s.2.isSome
  blocks : ∃ lost, kept = base + blockOf s.2 + lost ∧
    lost.card + (blockOf s.2).card = seen.countP fun line => (charset.fetch line).isSome
  unseen : s.2 = none → (seen.countP fun line => (charset.fetch line).isSome) = 0

theorem LinesSeen.mem {patterns : List CIRLPattern} {charset : GRegex} {base kept : Multiset ℕ}
    {fields : CallerField → CStr} {seen : List CStr} {s : Matching × Option ℕ}
    (h : LinesSeen patterns charset base fields seen s kept) {x : ℕ} (hx : x ∈ base) :
    x ∈ kept := by
  obtain ⟨lost, rfl, -⟩ := h.blocks
  simp [hx]

theorem matchPattern_charset (line : CStr) (m : Matching) (p : CIRLPattern) :
    (matchPattern line m p).charset = m.charset := by
  have hfield : ∀ words (m : Matching) (pf : CIRLPatternField),
      (matchField words m pf).charset = m.charset := by
    intro words m pf
    unfold matchField
    cases pf.field <;> rfl
  unfold matchPattern
  cases p.expression.fetch line with
  | none => rfl
  | some words =>
    dsimp only
    induction p.fields generalizing m with
    | nil => rfl
    | cons pf fields ih => rw [List.foldl_cons, ih, hfield]

theorem foldl_matchPattern_charset (line : CStr) (patterns : List CIRLPattern) (m : Matching) :
    (patterns.foldl (matchPattern line) m).charset = m.charset := by
  induction patterns generalizing m with
  | nil => rfl
  | cons p patterns ih => rw [List.foldl_cons, ih, matchPattern_charset]

theorem leaves_matchLine {patterns : List CIRLPattern} {charset : GRegex} {base : Multiset ℕ}
    {fields : CallerField → CStr} {e : OnHeap.Expressions} {lines : ℕ}
    (he : OwnsExpressions e base) (hlines : lines ∈ base)
    (hcompiled : e.compiled.map Prod.fst = patterns) (seen : List CStr) (line : CStr)
    (s : Matching × Option ℕ) (kept : Multiset ℕ)
    (h : LinesSeen patterns charset base fields seen s kept) :
    Leaves kept (OnHeap.matchLine e charset lines s line)
      (LinesSeen patterns charset base fields (seen ++ [line])) := by
  have hmatch : Borrows kept (e.compiled.foldlM (OnHeap.matchPattern e line) s.1)
      (patterns.foldl (matchPattern line) s.1) := by
    rw [← hcompiled, List.foldl_map]
    exact borrows_foldlM (fun m p hp => borrows_matchPattern (h.mem he.reg) (h.mem he.pats)
      (h.mem (he.compiled p hp)) line m) s.1
  obtain ⟨lost, hkept, hcard⟩ := h.blocks
  have hcharset := foldl_matchPattern_charset line patterns s.1
  refine leaves_touch (h.mem hlines) (borrows_bind hmatch ?_)
  refine leaves_touch (h.mem he.reg) (leaves_touch (h.mem he.charset) ?_)
  refine leaves_malloc fun info => leaves_touch (Multiset.mem_cons_self info kept) ?_
  unfold OnHeap.matchCharset
  cases hfetch : charset.fetch line with
  | none =>
    have hcount : ((seen ++ [line]).countP fun line => (charset.fetch line).isSome) =
        seen.countP fun line => (charset.fetch line).isSome := by
      simp [hfetch]
    dsimp only
    rw [pure_bind]
    refine leaves_free rfl (leaves_pure ⟨?_, ?_, ⟨lost, hkept, hcard.trans hcount.symm⟩, ?_⟩)
    · rw [List.foldl_append, ← h.value, List.foldl_cons, List.foldl_nil, matchLine, hfetch]
    · exact (congrArg Option.isSome hcharset).trans h.named
    · exact fun hnone => hcount.trans (h.unseen hnone)
  | some words =>
    have hcount : ((seen ++ [line]).countP fun line => (charset.fetch line).isSome) =
        (seen.countP fun line => (charset.fetch line).isSome) + 1 := by
      simp [hfetch]
    simp only [bind_assoc, pure_bind]
    refine leaves_touch (Multiset.mem_cons_self info kept) (leaves_malloc fun block => ?_)
    refine leaves_free (Multiset.cons_swap block info kept) (leaves_pure ⟨?_, rfl, ?_, ?_⟩)
    · rw [List.foldl_append, ← h.value, List.foldl_cons, List.foldl_nil, matchLine, hfetch]
    · refine ⟨blockOf s.2 + lost, ?_, ?_⟩
      · rw [hkept, ← Multiset.singleton_add]
        simp only [blockOf]
        ac_rfl
      · rw [hcount, ← hcard, Multiset.card_add]
        simp only [blockOf, Multiset.card_singleton]
        omega
    · exact fun hnone => nomatch hnone

theorem leaves_matchLines {patterns : List CIRLPattern} {charset : GRegex} {base : Multiset ℕ}
    {fields : CallerField → CStr} {e : OnHeap.Expressions} {lines : ℕ}
    (he : OwnsExpressions e base) (hlines : lines ∈ base)
    (hcompiled : e.compiled.map Prod.fst = patterns) (page : List CStr) :
    Leaves base (page.foldlM (OnHeap.matchLine e charset lines) (Matching.start fields, none))
      (LinesSeen patterns charset base fields page) := by
  have hstart : LinesSeen patterns charset base fields [] (Matching.start fields, none) base :=
    ⟨rfl, rfl, ⟨0, by simp [blockOf], rfl⟩, fun _ => rfl⟩
  have hloop := leaves_foldlM (LinesSeen patterns charset base fields)
    (fun seen line s kept h => leaves_matchLine he hlines hcompiled seen line s kept h) page hstart
  rwa [List.nil_append] at hloop

theorem borrows_convertWord (take : Multiset ℕ) (gConvert : CStr → CStr → Option CStr)
    (charset s : CStr) : Borrows take (OnHeap.convertWord gConvert charset s) () := by
  unfold OnHeap.convertWord
  cases gConvert charset s with
  | none => exact leaves_pure ⟨rfl, rfl⟩
  | some word =>
    dsimp only
    refine leaves_malloc fun w => leaves_touch (Multiset.mem_cons_self w take) ?_
    rw [← bind_pure (free (some w))]
    exact leaves_free rfl (leaves_pure ⟨rfl, rfl⟩)

theorem borrows_convertField {take : Multiset ℕ} {block : ℕ} (hb : block ∈ take)
    (gConvert : CStr → CStr → Option CStr) (charset : CStr) (f : CallerField) (m : Matching) :
    Borrows take (OnHeap.convertField gConvert charset block f m)
      (convertField gConvert charset f m) := by
  unfold OnHeap.convertField
  split_ifs
  · exact leaves_touch hb (borrows_bind (borrows_convertWord take gConvert charset (m.fields f))
      (leaves_pure ⟨rfl, rfl⟩))
  · exact leaves_pure ⟨rfl, rfl⟩

/-- The name of the charset that is left is freed, those before stay. -/
theorem leaves_convertFields {patterns : List CIRLPattern} {charset : GRegex} {base : Multiset ℕ}
    {fields : CallerField → CStr} {page : List CStr} {s : Matching × Option ℕ} {kept : Multiset ℕ}
    (gConvert : CStr → CStr → Option CStr)
    (h : LinesSeen patterns charset base fields page s kept) :
    Leaves kept (OnHeap.convertFields gConvert s) fun m kept => m = convertFields gConvert s.1 ∧
      ∃ lost, kept = base + lost ∧
        lost.card = (page.countP fun line => (charset.fetch line).isSome) - 1 := by
  obtain ⟨m, pointer⟩ := s
  obtain ⟨lost, rfl, hcard⟩ := h.blocks
  have hnamed := h.named
  unfold OnHeap.convertFields convertFields
  cases pointer with
  | none =>
    have hzero := h.unseen rfl
    cases hc : m.charset with
    | some name => rw [hc] at hnamed; cases hnamed
    | none =>
      dsimp only
      refine leaves_pure ⟨rfl, lost, by simp [blockOf], ?_⟩
      simp only [blockOf, Multiset.card_zero] at hcard
      omega
  | some block =>
    cases hc : m.charset with
    | none => rw [hc] at hnamed; cases hnamed
    | some name =>
      have hb : block ∈ base + blockOf (some block) + lost := by simp [blockOf]
      dsimp only
      refine borrows_bind (borrows_convertField hb gConvert name .name m) ?_
      refine borrows_bind (borrows_convertField hb gConvert name .city _) ?_
      refine borrows_bind (borrows_convertField hb gConvert name .street _) ?_
      have htake : base + blockOf (some block) + lost = block ::ₘ (base + lost) := by
        rw [← Multiset.singleton_add]
        simp only [blockOf]
        ac_rfl
      refine leaves_free htake (leaves_pure ⟨rfl, lost, rfl, ?_⟩)
      simp only [blockOf, Multiset.card_singleton] at hcard
      omega

theorem leaves_compile {base : Multiset ℕ} {reg pats : ℕ} (hreg : reg ∈ base) (hpats : pats ∈ base)
    (patterns : List CIRLPattern) :
    Leaves base (patterns.foldlM (OnHeap.compile reg pats) []) fun compiled kept =>
      compiled.map Prod.fst = patterns ∧ kept = ↑(compiled.map Prod.snd) + base := by
  have hstart : ([] : List (CIRLPattern × ℕ)).map Prod.fst = [] ∧
      base = (([] : List (CIRLPattern × ℕ)).map Prod.snd : List ℕ) + base :=
    ⟨rfl, (zero_add base).symm⟩
  have hloop := leaves_foldlM (f := OnHeap.compile reg pats) (fun seen compiled kept =>
    compiled.map Prod.fst = seen ∧ kept = (compiled.map Prod.snd : List ℕ) + base)
    (fun seen p compiled kept h => ?_) patterns hstart
  · simpa using hloop
  · obtain ⟨rfl, rfl⟩ := h
    refine leaves_malloc fun regex => leaves_touch ?_ (leaves_touch ?_ (leaves_pure ⟨?_, ?_⟩))
    · simp [hreg]
    · simp [hpats]
    · simp
    · rw [List.map_append, ← Multiset.coe_add, ← Multiset.singleton_add]
      simp only [List.map_cons, List.map_nil, Multiset.coe_singleton]
      ac_rfl

theorem leaves_unref {base : Multiset ℕ} {reg : ℕ} (hreg : reg ∈ base)
    (compiled : List (CIRLPattern × ℕ)) :
    Leaves (↑(compiled.map Prod.snd) + base) (compiled.foldlM (OnHeap.unref reg) ())
      fun _ kept => kept = base := by
  induction compiled with
  | nil => exact leaves_pure (zero_add base)
  | cons p compiled ih =>
    rw [List.foldlM_cons]
    simp only [OnHeap.unref, bind_assoc]
    refine leaves_touch (by simp [hreg]) (leaves_free ?_ ih)
    rw [List.map_cons, ← Multiset.cons_coe, Multiset.cons_add]

/-- The lines of a page that declare a charset but the last: their names are never freed. -/
def lostNames (gTryMalloc : TryMalloc → ℤ → Bool) (charset : GRegex) (source : CIRLSource)
    (mem : Option (List UInt8)) : ℕ :=
  if source.patterns.length = 0 ∨ ¬ TablesGranted gTryMalloc source then 0
  else if source.splitLines then
    match mem with
    | none => 0
    | some body =>
      ((strsplit (ofBuffer body) 10).countP fun line => (charset.fetch line).isSome) - 1
  else 0

/-- `DynMem` with the block it points to. -/
def PointsTo (mem : DynMem × Option ℕ) (take : Multiset ℕ) : Prop :=
  mem.1.mem.isSome = mem.2.isSome ∧ ∀ x ∈ mem.2, x ∈ take

section Match

variable {gTryMalloc : TryMalloc → ℤ → Bool} {charset : GRegex}
variable {gConvert : CStr → CStr → Option CStr} {source : CIRLSource}
variable {mem : DynMem × Option ℕ} {fields : CallerField → CStr} {take : Multiset ℕ}

theorem leaves_matchBody (hgranted : TablesGranted gTryMalloc source)
    (hpatterns : source.patterns.length ≠ 0) (hlines : source.splitLines = true)
    (hmem : PointsTo mem take) {e : OnHeap.Expressions} (he : OwnsExpressions e take)
    (hcompiled : e.compiled.map Prod.fst = source.patterns) :
    Leaves take (OnHeap.matchBody e charset gConvert mem fields) fun result kept =>
      result = cirlwMatchPatterns gTryMalloc charset gConvert source mem.1.mem fields ∧
      ∃ lost, kept = take + lost ∧
        lost.card = lostNames gTryMalloc charset source mem.1.mem := by
  obtain ⟨⟨size, content⟩, pointer⟩ := mem
  obtain ⟨hsome, hpointer⟩ := hmem
  rw [matchPatterns_granted _ _ _ _ _ _ hgranted]
  unfold lostNames OnHeap.matchBody
  rw [if_neg hpatterns, if_neg (not_or_intro hpatterns (not_not_intro hgranted)), if_pos hlines,
    if_pos hlines]
  cases content with
  | none => exact leaves_pure ⟨rfl, 0, (add_zero take).symm, rfl⟩
  | some body =>
    cases pointer with
    | none => cases hsome
    | some block =>
      dsimp only
      refine leaves_touch (hpointer block rfl) (leaves_malloc fun lines => ?_)
      have he' : OwnsExpressions e (lines ::ₘ take) := by
        refine ⟨?_, ?_, fun p hp => ?_, ?_⟩ <;> apply Multiset.mem_cons_of_mem
        exacts [he.reg, he.pats, he.compiled p hp, he.charset]
      refine leaves_bind (leaves_matchLines he' (Multiset.mem_cons_self lines take) hcompiled _)
        fun s kept h => ?_
      obtain ⟨lost, rfl, hcard⟩ := h.blocks
      have htake : lines ::ₘ take + blockOf s.2 + lost =
          lines ::ₘ (take + blockOf s.2 + lost) := by
        simp only [Multiset.cons_add]
      refine leaves_free htake (leaves_bind (leaves_convertFields gConvert
        ⟨h.value, h.named, ⟨lost, rfl, hcard⟩, h.unseen⟩) fun m kept hm => ?_)
      obtain ⟨rfl, hlost⟩ := hm
      rw [h.value]
      exact leaves_pure ⟨rfl, hlost⟩

theorem leaves_matchWith (hgranted : TablesGranted gTryMalloc source)
    (hpatterns : source.patterns.length ≠ 0) (hmem : PointsTo mem take)
    {e : OnHeap.Expressions} (hcompiled : e.compiled.map Prod.fst = source.patterns) :
    Leaves (e.charset ::ₘ (↑(e.compiled.map Prod.snd) + (e.pats ::ₘ e.reg ::ₘ take)))
      (OnHeap.matchWith e charset gConvert source mem fields) fun result kept =>
        result = cirlwMatchPatterns gTryMalloc charset gConvert source mem.1.mem fields ∧
        ∃ lost, kept = take + lost ∧
          lost.card = lostNames gTryMalloc charset source mem.1.mem := by
  set all := e.charset ::ₘ (↑(e.compiled.map Prod.snd) + (e.pats ::ₘ e.reg ::ₘ take)) with hall
  have he : OwnsExpressions e all := by
    refine ⟨by simp [hall], by simp [hall], fun p hp => ?_, by simp [hall]⟩
    rw [hall, Multiset.mem_cons, Multiset.mem_add, Multiset.mem_coe]
    exact Or.inr (Or.inl (List.mem_map_of_mem hp))
  have hsource : Leaves all (OnHeap.matchSource e charset gConvert source mem fields)
      fun result kept =>
        result = cirlwMatchPatterns gTryMalloc charset gConvert source mem.1.mem fields ∧
        ∃ lost, kept = all + lost ∧
          lost.card = lostNames gTryMalloc charset source mem.1.mem := by
    unfold OnHeap.matchSource
    by_cases hlines : source.splitLines
    · rw [if_pos hlines]
      refine leaves_matchBody hgranted hpatterns hlines ⟨hmem.1, fun x hx => ?_⟩ he hcompiled
      simp [hall, hmem.2 x hx]
    · rw [if_neg hlines]
      refine leaves_pure ⟨?_, 0, (add_zero all).symm, ?_⟩
      · rw [matchPatterns_granted _ _ _ _ _ _ hgranted, if_neg hpatterns, if_neg hlines]
      · unfold lostNames
        rw [if_neg (not_or_intro hpatterns (not_not_intro hgranted)), if_neg hlines,
          Multiset.card_zero]
  unfold OnHeap.matchWith
  refine leaves_bind hsource fun result kept h => ?_
  obtain ⟨hresult, lost, rfl, hlost⟩ := h
  have hrest : all + lost = ↑(e.compiled.map Prod.snd) +
      (e.charset ::ₘ e.reg ::ₘ e.pats ::ₘ (take + lost)) := by
    simp only [hall, ← Multiset.singleton_add]
    ac_rfl
  rw [hrest]
  refine leaves_bind (leaves_unref (by simp) e.compiled) fun _ kept hkept => ?_
  subst hkept
  refine leaves_free rfl (leaves_free rfl (leaves_free rfl ?_))
  exact leaves_pure ⟨hresult, lost, rfl, hlost⟩

theorem leaves_matchTables (hgranted : TablesGranted gTryMalloc source)
    (hpatterns : source.patterns.length ≠ 0) (hmem : PointsTo mem take) (reg pats : ℕ) :
    Leaves (pats ::ₘ reg ::ₘ take)
      (OnHeap.matchTables reg pats charset gConvert source mem fields) fun result kept =>
        result = cirlwMatchPatterns gTryMalloc charset gConvert source mem.1.mem fields ∧
        ∃ lost, kept = take + lost ∧
          lost.card = lostNames gTryMalloc charset source mem.1.mem := by
  refine leaves_bind (leaves_compile (by simp) (by simp) source.patterns) fun compiled kept h => ?_
  obtain ⟨hcompiled, rfl⟩ := h
  refine leaves_malloc fun last => leaves_touch (by simp) ?_
  exact leaves_matchWith (e := ⟨reg, pats, compiled, last⟩) hgranted hpatterns hmem hcompiled

/-- Without memory for the tables `reg` is given back and nothing else has been taken. -/
theorem leaves_cirlwMatchPatterns (hmem : PointsTo mem take) :
    Leaves take (OnHeap.cirlwMatchPatterns gTryMalloc charset gConvert source mem fields)
      fun result kept =>
        result = cirlwMatchPatterns gTryMalloc charset gConvert source mem.1.mem fields ∧
        ∃ lost, kept = take + lost ∧
          lost.card = lostNames gTryMalloc charset source mem.1.mem := by
  have hnothing : (source.patterns.length = 0 ∨ ¬ TablesGranted gTryMalloc source) →
      (1, Matching.start fields) =
        cirlwMatchPatterns gTryMalloc charset gConvert source mem.1.mem fields ∧
      ∃ lost, take = take + lost ∧
        lost.card = lostNames gTryMalloc charset source mem.1.mem := by
    intro h
    refine ⟨?_, 0, (add_zero take).symm, by unfold lostNames; rw [if_pos h, Multiset.card_zero]⟩
    by_cases hgranted : TablesGranted gTryMalloc source
    · rw [matchPatterns_granted _ _ _ _ _ _ hgranted,
        if_pos (h.resolve_right (not_not_intro hgranted))]
    · rw [matchPatterns_refused _ _ _ _ _ _ hgranted]
  unfold OnHeap.cirlwMatchPatterns
  by_cases hpatterns : source.patterns.length = 0
  · rw [if_pos hpatterns]
    exact leaves_pure (hnothing (Or.inl hpatterns))
  · rw [if_neg hpatterns]
    refine leaves_tryMalloc (fun hreg => leaves_pure (hnothing (Or.inr fun h => ?_)))
      fun hreg reg => ?_
    · rw [h.1] at hreg
      cases hreg
    · refine leaves_tryMalloc (fun hpats => ?_) fun hpats pats => ?_
      · refine leaves_free rfl (leaves_pure (hnothing (Or.inr fun h => ?_)))
        rw [h.2] at hpats
        cases hpats
      · exact leaves_matchTables ⟨hreg, hpats⟩ hpatterns hmem reg pats

end Match

/-- An answer that the memory does not suffice for: the block that was granted for its beginning,
of `n` bytes if there is one, is lost. -/
def lostFrom (limit n : ℕ) (started : Bool) : List (List UInt8) → ℕ
  | [] => 0
  | ptr :: rest =>
    if n + (ptr :: rest).flatten.length + 1 ≤ limit then 0
    else if started || decide (n + ptr.length + 1 ≤ limit) then 1 else 0

theorem leaves_freeBlock {base : Multiset ℕ} {pointer : Option ℕ} {β : Type} {f : Unit → HeapM β}
    {give : β → Multiset ℕ → Prop} (hf : Leaves base (f ()) give) :
    Leaves (base + blockOf pointer) (free pointer >>= f) give := by
  cases pointer with
  | none =>
    rw [blockOf, add_zero]
    exact hf
  | some x =>
    refine leaves_free ?_ hf
    rw [blockOf, add_comm, Multiset.singleton_add]

theorem leaves_transferParts (limit : ℕ) {parts : List (List UInt8)} (hparts : PartsFit parts)
    (base : Multiset ℕ) (mem : DynMem × Option ℕ) {bytes : List UInt8}
    (hheld : HoldsBytes bytes mem.1) (hsome : mem.1.mem.isSome = mem.2.isSome) :
    Leaves (base + blockOf mem.2) (OnHeap.transferParts (upTo limit) parts mem) fun r kept =>
      (r.1, r.2.1) = transferParts (upTo limit) parts mem.1 ∧
      r.2.1.mem.isSome = r.2.2.isSome ∧ ∃ lost, kept = base + blockOf r.2.2 + lost ∧
        lost.card = lostFrom limit bytes.length mem.2.isSome parts := by
  induction parts generalizing bytes mem with
  | nil => exact leaves_pure ⟨rfl, hsome, 0, (add_zero _).symm, rfl⟩
  | cons ptr rest ih =>
    have hptr : ptr.length ≤ 16384 := hparts ptr List.mem_cons_self
    have hsize : mem.1.size = bytes.length := by
      rcases hheld with h | ⟨h, rfl⟩ <;> rw [h]
      rfl
    rw [OnHeap.transferParts, transferParts]
    unfold OnHeap.cirlwReadData
    rw [cirlwReadData_eq hheld, hsize]
    by_cases hroom : bytes.length + ptr.length + 1 ≤ limit
    · have hgranted : upTo limit (bytes.length + ptr.length + 1) = true := decide_eq_true hroom
      rw [if_pos hroom, if_pos hgranted]
      simp only [bind_assoc, pure_bind, if_true]
      refine leaves_freeBlock (leaves_malloc fun block => ?_)
      refine leaves_touch (Multiset.mem_cons_self block base) ?_
      have hheld' : HoldsBytes (bytes ++ ptr)
          ⟨(bytes ++ ptr).length, some (bytes ++ ptr ++ [0])⟩ := Or.inl rfl
      have hnext := ih (fun p hp => hparts p (List.mem_cons_of_mem _ hp)) (_, some block) hheld' rfl
      have htake : base + blockOf (some block) = block ::ₘ base := by
        rw [blockOf, add_comm, Multiset.singleton_add]
      rw [htake] at hnext
      refine leaves_mono hnext fun r kept h => ?_
      obtain ⟨hvalue, hpoints, lost, hkept, hcard⟩ := h
      refine ⟨hvalue, hpoints, lost, hkept, hcard.trans ?_⟩
      cases rest with
      | nil => simp [lostFrom, hroom]
      | cons next rest =>
        have hlen : (bytes ++ ptr).length + (next :: rest).flatten.length =
            bytes.length + (ptr :: next :: rest).flatten.length := by
          simp only [List.length_append, List.flatten_cons, Nat.add_assoc]
        rw [lostFrom, lostFrom, hlen, decide_eq_true hroom, Bool.or_true, Option.isSome_some,
          Bool.true_or]
    · have hrefused : ¬ upTo limit (bytes.length + ptr.length + 1) = true := by
        simpa [upTo] using hroom
      have hne : ¬ 2 ^ 64 - 1 = ptr.length := by omega
      rw [if_neg hroom, if_neg hrefused]
      simp only [pure_bind, if_neg hne]
      refine leaves_pure ⟨rfl, rfl, blockOf mem.2, ?_, ?_⟩
      · rw [blockOf, add_zero]
      · have hall : ¬ bytes.length + (ptr :: rest).flatten.length + 1 ≤ limit := by
          rw [List.flatten_cons, List.length_append]
          omega
        rw [lostFrom, if_neg hall]
        cases mem.2 <;> simp [blockOf, hroom]

def lostAnswer (limit : ℕ) (web : Web) (source : CIRLSource) (t : OnHeap.Transfer) : ℕ :=
  lostFrom limit 0 false t.parts +
    match t.perform (upTo limit) with
    | some mem => lostNames web.gTryMalloc web.charset source mem
    | none => 0

/-- `cirlw_get_caller` behind its checks. -/
def answerOf (web : Web) (source : CIRLSource) (caller : CICaller) :
    Option (Option (List UInt8)) → Except LookupFault WebAnswer
  | none => .ok ⟨1, caller, true⟩
  | some mem =>
    let (err, m) := cirlwMatchPatterns web.gTryMalloc web.charset web.gConvert source mem
      caller.fields
    if m.Fits then
      .ok ⟨if m.foundAny then err else 4, { caller with fields := m.fields }, true⟩
    else .error .overrun

theorem leaves_readAnswer {limit : ℕ} (web : Web) (t : OnHeap.Transfer) (hparts : PartsFit t.parts)
    (source : CIRLSource) (caller : CICaller) (base : Multiset ℕ) :
    Leaves base (OnHeap.readAnswer web (upTo limit) t source caller) fun answer kept =>
      answer = answerOf web source caller (t.perform (upTo limit)) ∧
      ∃ lost, kept = base + lost ∧ lost.card = lostAnswer limit web source t := by
  have hheld : HoldsBytes [] ⟨0, none⟩ := Or.inr ⟨rfl, rfl⟩
  have htransfer := leaves_transferParts limit hparts base (_, none) hheld rfl
  rw [blockOf, add_zero] at htransfer
  refine leaves_bind htransfer fun r kept h => ?_
  obtain ⟨ok, mem⟩ := r
  obtain ⟨hvalue, hpoints, lost, rfl, hlost⟩ := h
  have hperform : t.perform (upTo limit) = if ok && t.complete then some mem.1.mem else none := by
    unfold OnHeap.Transfer.perform performParts
    rw [Option.bind_some, ← hvalue]
    cases ok <;> cases t.complete <;> rfl
  have hjudge : Leaves (base + blockOf mem.2 + lost)
      (OnHeap.judgeAnswer web (ok && t.complete) mem source caller) fun answer kept =>
        answer = answerOf web source caller (t.perform (upTo limit)) ∧
        ∃ more, kept = base + blockOf mem.2 + lost + more ∧
          lost.card + more.card = lostAnswer limit web source t := by
    unfold OnHeap.judgeAnswer lostAnswer
    rw [hperform]
    split_ifs
    · have hmem : PointsTo mem (base + blockOf mem.2 + lost) := by
        refine ⟨hpoints, fun x hx => ?_⟩
        rw [Option.mem_def.1 hx]
        simp [blockOf]
      refine leaves_bind (leaves_cirlwMatchPatterns hmem) fun result kept h => ?_
      obtain ⟨rfl, more, rfl, hmore⟩ := h
      exact leaves_pure ⟨rfl, more, rfl, by rw [hlost, hmore]; rfl⟩
    · exact leaves_pure ⟨rfl, 0, (add_zero _).symm, by rw [hlost]; rfl⟩
  refine leaves_bind hjudge fun answer kept h => ?_
  obtain ⟨rfl, more, rfl, hmore⟩ := h
  have hrest : base + blockOf mem.2 + lost + more = base + (lost + more) + blockOf mem.2 := by
    ac_rfl
  rw [hrest]
  exact leaves_freeBlock (leaves_pure ⟨rfl, lost + more, rfl, by rw [Multiset.card_add, hmore]⟩)

def webOf (web : Web) (limit : ℕ) (fetch : CStr → OnHeap.Transfer) : Web :=
  { web with perform := fun url => (fetch url).perform (upTo limit) }

def lostCaller (fuel limit : ℕ) (web : Web) (fetch : CStr → OnHeap.Transfer) (sourceid : ℕ)
    (caller : CICaller) : ℕ :=
  match cirlwFindSource web.sources sourceid with
  | none => 0
  | some source =>
    match cirlwPrepareUrl (web.gTryMalloc .out) fuel source.query caller.numberComplete with
    | .ok (some url) => if web.curl then lostAnswer limit web source (fetch url) else 0
    | _ => 0

theorem leaves_cirlwGetCaller {limit : ℕ} (fuel : ℕ) (web : Web) {fetch : CStr → OnHeap.Transfer}
    (hparts : ∀ url, PartsFit (fetch url).parts) (sourceid : ℕ) (caller : CICaller)
    (base : Multiset ℕ) :
    Leaves base (OnHeap.cirlwGetCaller fuel web (upTo limit) fetch sourceid caller)
      fun answer kept => answer = cirlwGetCaller fuel (webOf web limit fetch) sourceid caller ∧
        ∃ lost, kept = base + lost ∧
          lost.card = lostCaller fuel limit web fetch sourceid caller := by
  unfold OnHeap.cirlwGetCaller cirlwGetCaller lostCaller webOf
  dsimp only
  cases cirlwFindSource web.sources sourceid with
  | none => exact leaves_pure ⟨rfl, 0, (add_zero base).symm, rfl⟩
  | some source =>
    dsimp only
    cases cirlwPrepareUrl (web.gTryMalloc .out) fuel source.query caller.numberComplete with
    | error f => exact leaves_pure ⟨rfl, 0, (add_zero base).symm, rfl⟩
    | ok url =>
      cases url with
      | none => exact leaves_pure ⟨rfl, 0, (add_zero base).symm, rfl⟩
      | some url =>
        dsimp only
        refine leaves_malloc fun block => leaves_touch (Multiset.mem_cons_self block base) ?_
        unfold OnHeap.askSource
        cases web.curl with
        | false =>
          simp only [Bool.not_false, if_true, pure_bind]
          exact leaves_free rfl (leaves_pure ⟨rfl, 0, (add_zero base).symm, rfl⟩)
        | true =>
          simp only [Bool.not_true, Bool.false_eq_true, if_false, if_true]
          refine leaves_bind (leaves_readAnswer web (fetch url) (hparts url) source caller
            (block ::ₘ base)) fun answer kept h => ?_
          obtain ⟨rfl, lost, rfl, hlost⟩ := h
          refine leaves_free (Multiset.cons_add block base lost) ?_
          refine leaves_pure ⟨?_, lost, rfl, hlost⟩
          unfold answerOf
          cases (fetch url).perform (upTo limit) <;> rfl

/-- What a lookup leaves: its record, and what the search in the web leaves. -/
def lostLookup (fuel limit : ℕ) (web : Web) (fetch : CStr → OnHeap.Transfer)
    (callercache : List CICaller) (cidata : CIDataSet) : ℕ :=
  let caller := CICaller.ofNumber (cidata .cidsNumberComplete)
  match cidbFindCaller callercache caller with
  | some _ => 1
  | none => lostCaller fuel limit web fetch web.lookupSourceId caller + 1

theorem leaves_lookup {limit : ℕ} (fuel : ℕ) (web : Web) {fetch : CStr → OnHeap.Transfer}
    (hparts : ∀ url, PartsFit (fetch url).parts) (callercache : List CICaller)
    (cidata : CIDataSet) (base : Multiset ℕ) :
    Leaves base (OnHeap.lookupGetCallerData fuel web (upTo limit) fetch callercache cidata)
      fun answer kept =>
        answer = lookupGetCallerData fuel (webOf web limit fetch) callercache cidata ∧
        ∃ lost, kept = base + lost ∧
          lost.card = lostLookup fuel limit web fetch callercache cidata := by
  unfold OnHeap.lookupGetCallerData lookupGetCallerData lostLookup
  dsimp only
  refine leaves_malloc fun block => leaves_touch (Multiset.mem_cons_self block base) ?_
  have hrecord : block ::ₘ base = base + {block} := by
    rw [add_comm, Multiset.singleton_add]
  cases cidbFindCaller callercache (CICaller.ofNumber (cidata .cidsNumberComplete)) with
  | some caller =>
    exact leaves_touch (Multiset.mem_cons_self block base)
      (leaves_pure ⟨rfl, {block}, hrecord, rfl⟩)
  | none =>
    dsimp only
    refine leaves_bind (leaves_cirlwGetCaller fuel web hparts web.lookupSourceId _
      (block ::ₘ base)) fun answer kept h => ?_
    obtain ⟨rfl, lost, rfl, hlost⟩ := h
    refine leaves_touch (by simp) (leaves_pure ⟨rfl, lost + {block}, ?_, ?_⟩)
    · rw [hrecord]
      ac_rfl
    · rw [Multiset.card_add, hlost, Multiset.card_singleton]

structure Ask where
  fuel : ℕ
  web : Web
  limit : ℕ
  fetch : CStr → OnHeap.Transfer
  cidata : CIDataSet

/-- The answers of the calls, each with the cache that it leaves. -/
def lookups : List Ask → List CICaller → Except LookupFault (List LookupAnswer)
  | [], _ => .ok []
  | a :: asks, callercache =>
    match lookupGetCallerData a.fuel (webOf a.web a.limit a.fetch) callercache a.cidata with
    | .error f => .error f
    | .ok answer => (lookups asks answer.callercache).map (answer :: ·)

def OnHeap.lookups : List Ask → List CICaller → HeapM (Except LookupFault (List LookupAnswer))
  | [], _ => pure (.ok [])
  | a :: asks, callercache => do
    let answer ← OnHeap.lookupGetCallerData a.fuel a.web (upTo a.limit) a.fetch callercache a.cidata
    match answer with
    | .error f => pure (.error f)
    | .ok answer => do
      let answers ← OnHeap.lookups asks answer.callercache
      pure (answers.map (answer :: ·))

/-- What the lookups up to a fault leave. -/
def lostLookups : List Ask → List CICaller → ℕ
  | [], _ => 0
  | a :: asks, callercache =>
    lostLookup a.fuel a.limit a.web a.fetch callercache a.cidata +
      match lookupGetCallerData a.fuel (webOf a.web a.limit a.fetch) callercache a.cidata with
      | .error _ => 0
      | .ok answer => lostLookups asks answer.callercache

theorem leaves_lookups {asks : List Ask} (hparts : ∀ a ∈ asks, ∀ url, PartsFit (a.fetch url).parts)
    (callercache : List CICaller) (base : Multiset ℕ) :
    Leaves base (OnHeap.lookups asks callercache) fun result kept =>
      result = lookups asks callercache ∧
      ∃ lost, kept = base + lost ∧ lost.card = lostLookups asks callercache := by
  induction asks generalizing callercache base with
  | nil => exact leaves_pure ⟨rfl, 0, (add_zero base).symm, rfl⟩
  | cons a asks ih =>
    rw [OnHeap.lookups, lookups, lostLookups]
    refine leaves_bind (leaves_lookup a.fuel a.web (hparts a List.mem_cons_self) callercache
      a.cidata base) fun answer kept h => ?_
    obtain ⟨rfl, lost, rfl, hlost⟩ := h
    cases lookupGetCallerData a.fuel (webOf a.web a.limit a.fetch) callercache a.cidata with
    | error f => exact leaves_pure ⟨rfl, lost, rfl, hlost⟩
    | ok answer =>
      dsimp only
      refine leaves_bind (ih (fun b hb => hparts b (List.mem_cons_of_mem a hb)) answer.callercache
        (base + lost)) fun answers kept h => ?_
      obtain ⟨rfl, more, rfl, hmore⟩ := h
      exact leaves_pure ⟨rfl, lost + more, add_assoc _ _ _,
        by rw [Multiset.card_add, hlost, hmore]⟩

theorem lostLookup_pos (fuel limit : ℕ) (web : Web) (fetch : CStr → OnHeap.Transfer)
    (callercache : List CICaller) (cidata : CIDataSet) :
    0 < lostLookup fuel limit web fetch callercache cidata := by
  unfold lostLookup
  dsimp only
  split <;> omega

theorem length_le_lostLookups {asks : List Ask} {callercache : List CICaller}
    {answers : List LookupAnswer} (h : lookups asks callercache = .ok answers) :
    asks.length ≤ lostLookups asks callercache := by
  induction asks generalizing callercache answers with
  | nil => exact Nat.zero_le _
  | cons a asks ih =>
    have hpos := lostLookup_pos a.fuel a.limit a.web a.fetch callercache a.cidata
    rw [lookups] at h
    rw [lostLookups, List.length_cons]
    cases hanswer : lookupGetCallerData a.fuel (webOf a.web a.limit a.fetch) callercache
        a.cidata with
    | error f => rw [hanswer] at h; cases h
    | ok answer =>
      rw [hanswer] at h
      dsimp only at h
      cases hrest : lookups asks answer.callercache with
      | error f => rw [hrest] at h; cases h
      | ok answers =>
        have := ih hrest
        dsimp only
        omega

/-- A run of lookups with every block in its place gives the same answers. Of what it takes
nothing is freed twice or used behind that, and how much it never frees is told by the pages: one
record for each lookup at least. -/
theorem lookups_leave {asks : List Ask} (hparts : ∀ a ∈ asks, ∀ url, PartsFit (a.fetch url).parts)
    {callercache : List CICaller} {answers : List LookupAnswer}
    (hrun : lookups asks callercache = .ok answers) :
    (OnHeap.lookups asks callercache Memory.empty).1 = .ok answers ∧
    ∃ live : List ℕ, Ledger.Holds (OnHeap.lookups asks callercache Memory.empty).2.log live ∧
      live.length = lostLookups asks callercache ∧ asks.length ≤ live.length := by
  obtain ⟨kept, ⟨hvalue, lost, hkept, hlost⟩, howns⟩ :=
    leaves_lookups hparts callercache 0 Memory.empty 0 owns_empty
  obtain ⟨⟨live, hlive, hholds⟩, -⟩ := howns
  have hlen : live.length = lostLookups asks callercache := by
    rw [← hlost, ← Multiset.coe_card, hlive, hkept, zero_add, add_zero]
  exact ⟨hvalue.trans hrun, live, hholds, hlen, hlen ▸ length_le_lostLookups hrun⟩

/-- A lookup whose answer comes in two parts, and one that finds it in the cache. -/
def meierTwice : List Ask :=
  [⟨100, pageWeb .name [], 64, fun _ => ⟨[ascii "Mei", ascii "er"], true⟩, areaSet⟩,
    ⟨100, pageWeb .name [], 64, fun _ => ⟨[], false⟩, areaSet⟩]

theorem meierTwice_leaves : ∃ answers,
    (OnHeap.lookups meierTwice [] Memory.empty).1 = .ok answers ∧
    ∃ live : List ℕ, Ledger.Holds (OnHeap.lookups meierTwice [] Memory.empty).2.log live ∧
      live.length = lostLookups meierTwice [] ∧ meierTwice.length ≤ live.length := by
  have hparts : ∀ a ∈ meierTwice, ∀ url, PartsFit (a.fetch url).parts := by
    intro a ha url p hp
    rcases List.mem_cons.1 ha with rfl | ha
    · exact (by decide : ∀ p ∈ [ascii "Mei", ascii "er"], p.length ≤ 16384) p hp
    · rw [List.mem_singleton.1 ha] at hp
      cases hp
  have hrun : ∃ answers, lookups meierTwice [] = .ok answers := ⟨_, rfl⟩
  obtain ⟨answers, hrun⟩ := hrun
  exact ⟨answers, lookups_leave hparts hrun⟩

end Fritz2ci
