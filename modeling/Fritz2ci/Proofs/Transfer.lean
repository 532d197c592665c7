import Fritz2ci.Proofs.LookupDelivery

/-! The parts in which the answer of a source arrives make no difference to the lookup. -/

namespace Fritz2ci

open CString

def upTo (limit size : ℕ) : Bool := size ≤ limit

/-- No part is larger than what curl hands over at once. -/
def PartsFit (parts : List (List UInt8)) : Prop := ∀ p ∈ parts, p.length ≤ 16384

/-- The memory behind what has been received, with a terminator behind the first part. -/
def HoldsBytes (bytes : List UInt8) (mem : DynMem) : Prop :=
  mem = ⟨bytes.length, some (bytes ++ [0])⟩ ∨ mem = ⟨0, none⟩ ∧ bytes = []

theorem cirlwReadData_eq {limit : ℕ} {mem : DynMem} {bytes : List UInt8} (h : HoldsBytes bytes mem)
    (ptr : List UInt8) : cirlwReadData (upTo limit) ptr mem =
      if bytes.length + ptr.length + 1 ≤ limit then
        (ptr.length, ⟨(bytes ++ ptr).length, some (bytes ++ ptr ++ [0])⟩)
      else (2 ^ 64 - 1, { mem with mem := none }) := by
  have hsize : mem.size = bytes.length := by
    rcases h with rfl | ⟨rfl, rfl⟩ <;> rfl
  have hkept : (mem.mem.getD []).take mem.size = bytes := by
    rcases h with rfl | ⟨rfl, rfl⟩ <;> simp
  rw [cirlwReadData, hkept, hsize, List.length_append]
  simp only [upTo, decide_eq_true_eq]

theorem transferParts_eq (limit : ℕ) {parts : List (List UInt8)} (hparts : PartsFit parts)
    (hne : parts ≠ []) {mem : DynMem} {bytes : List UInt8} (h : HoldsBytes bytes mem) :
    (bytes.length + parts.flatten.length + 1 ≤ limit →
      ∃ size, transferParts (upTo limit) parts mem =
        (true, ⟨size, some (bytes ++ parts.flatten ++ [0])⟩)) ∧
    (¬ bytes.length + parts.flatten.length + 1 ≤ limit →
      (transferParts (upTo limit) parts mem).1 = false) := by
  induction parts generalizing mem bytes with
  | nil => exact absurd rfl hne
  | cons ptr rest ih =>
    have hptr : ptr.length ≤ 16384 := hparts ptr List.mem_cons_self
    rw [transferParts, cirlwReadData_eq h, List.flatten_cons, List.length_append]
    by_cases hroom : bytes.length + ptr.length + 1 ≤ limit
    · rw [if_pos hroom]
      dsimp only
      rw [if_pos rfl]
      cases rest with
      | nil =>
        refine ⟨fun _ => ⟨(bytes ++ ptr).length, by simp [transferParts]⟩, fun hno => ?_⟩
        exact absurd hroom (by simpa using hno)
      | cons next rest =>
        have hheld : HoldsBytes (bytes ++ ptr)
            ⟨(bytes ++ ptr).length, some (bytes ++ ptr ++ [0])⟩ := Or.inl rfl
        have hrest := ih (fun p hp => hparts p (List.mem_cons_of_mem _ hp)) (List.cons_ne_nil _ _)
          hheld
        have hlen : (bytes ++ ptr).length + (next :: rest).flatten.length =
            bytes.length + (ptr.length + (next :: rest).flatten.length) := by
          rw [List.length_append, Nat.add_assoc]
        rw [hlen, List.append_assoc bytes ptr (next :: rest).flatten] at hrest
        exact hrest
    · rw [if_neg hroom]
      dsimp only
      rw [if_neg (by omega)]
      exact ⟨fun hyes => absurd hyes (by omega), fun _ => rfl⟩

/-- What a transfer leaves depends on its bytes alone, and on whether there was a part at all. -/
theorem performParts_eq {limit : ℕ} {parts : List (List UInt8)} (hparts : PartsFit parts) :
    performParts (upTo limit) (some parts) =
      if parts = [] then some none
      else if parts.flatten.length + 1 ≤ limit then some (some (parts.flatten ++ [0]))
      else none := by
  rw [performParts, Option.bind_some]
  by_cases hne : parts = []
  · subst hne
    rfl
  · rw [if_neg hne]
    have htransfer := transferParts_eq limit hparts hne (Or.inr ⟨rfl, rfl⟩)
    simp only [List.length_nil, Nat.zero_add, List.nil_append] at htransfer
    split_ifs with hroom
    · obtain ⟨size, heq⟩ := htransfer.1 hroom
      rw [heq]
      rfl
    · have hfail := htransfer.2 hroom
      simp only [hfail, Bool.false_eq_true, if_false]

/-- No answer and an answer without bytes have nothing to match. -/
theorem matchPatterns_no_bytes (gTryMalloc : TryMalloc → ℤ → Bool) (charset : GRegex)
    (gConvert : CStr → CStr → Option CStr) (source : CIRLSource) (fields : CallerField → CStr) :
    (cirlwMatchPatterns gTryMalloc charset gConvert source (some [0]) fields).2 =
      (cirlwMatchPatterns gTryMalloc charset gConvert source none fields).2 ∧
    (cirlwMatchPatterns gTryMalloc charset gConvert source none fields).2 =
      Matching.start fields := by
  unfold cirlwMatchPatterns
  dsimp only
  split_ifs <;> exact ⟨rfl, rfl⟩

/-- The answers of the sources, cut into parts one way and the other. -/
structure SameAnswers (fetch fetch' : CStr → Option (List (List UInt8))) : Prop where
  fit : ∀ url parts, fetch url = some parts → PartsFit parts
  fit' : ∀ url parts, fetch' url = some parts → PartsFit parts
  same : ∀ url, (fetch url).map List.flatten = (fetch' url).map List.flatten

/-- With room for a terminator at least, two ways of cutting an answer leave the same memory, or
one of them none at all and the other an empty string. -/
theorem performParts_same {limit : ℕ} (hlimit : 1 ≤ limit)
    {fetch fetch' : CStr → Option (List (List UInt8))} (h : SameAnswers fetch fetch') (url : CStr) :
    performParts (upTo limit) (fetch url) = performParts (upTo limit) (fetch' url) ∨
      (performParts (upTo limit) (fetch url) = some none ∧
        performParts (upTo limit) (fetch' url) = some (some [0])) ∨
      (performParts (upTo limit) (fetch url) = some (some [0]) ∧
        performParts (upTo limit) (fetch' url) = some none) := by
  have hsame := h.same url
  have hroom : ([] : List (List UInt8)).flatten.length + 1 ≤ limit := hlimit
  cases hf : fetch url with
  | none =>
    rw [hf, Option.map_none] at hsame
    rw [Option.map_eq_none_iff.1 hsame.symm]
    exact Or.inl rfl
  | some parts =>
    rw [hf, Option.map_some] at hsame
    obtain ⟨parts', hf', hflat⟩ := Option.map_eq_some_iff.1 hsame.symm
    rw [hf', performParts_eq (h.fit url parts hf), performParts_eq (h.fit' url parts' hf'), hflat]
    by_cases hp : parts = []
    · subst hp
      by_cases hp' : parts' = []
      · exact Or.inl (by rw [hp'])
      · right
        left
        rw [if_neg hp', if_pos hroom]
        exact ⟨if_pos rfl, rfl⟩
    · by_cases hp' : parts' = []
      · subst hp'
        right
        right
        rw [if_neg hp, ← hflat, if_pos hroom]
        exact ⟨rfl, if_pos rfl⟩
      · rw [if_neg hp, if_neg hp']
        exact Or.inl rfl

theorem matched_nothing {gTryMalloc : TryMalloc → ℤ → Bool} {charset : GRegex}
    {gConvert : CStr → CStr → Option CStr} {source : CIRLSource} {mem : Option (List UInt8)}
    {caller : CICaller}
    (h : (cirlwMatchPatterns gTryMalloc charset gConvert source mem caller.fields).2 =
      Matching.start caller.fields) :
    (let (err, m) := cirlwMatchPatterns gTryMalloc charset gConvert source mem caller.fields
      if m.Fits then
        (.ok ⟨if m.foundAny then err else 4, { caller with fields := m.fields }, true⟩ :
          Except LookupFault WebAnswer)
      else .error .overrun) = .ok ⟨4, caller, true⟩ := by
  have hfits : (Matching.start caller.fields).Fits := List.forall_mem_nil _
  dsimp only
  rw [h, if_pos hfits]
  rfl

theorem cirlwGetCaller_parts {limit : ℕ} (hlimit : 1 ≤ limit)
    {fetch fetch' : CStr → Option (List (List UInt8))} (h : SameAnswers fetch fetch') (fuel : ℕ)
    (web : Web) (sourceid : ℕ) (caller : CICaller) :
    cirlwGetCaller fuel { web with perform := fun url => performParts (upTo limit) (fetch url) }
      sourceid caller =
    cirlwGetCaller fuel { web with perform := fun url => performParts (upTo limit) (fetch' url) }
      sourceid caller := by
  unfold cirlwGetCaller
  dsimp only
  cases cirlwFindSource web.sources sourceid with
  | none => rfl
  | some source =>
    dsimp only
    cases cirlwPrepareUrl (web.gTryMalloc .out) fuel source.query caller.numberComplete with
    | error f => rfl
    | ok url =>
      cases url with
      | none => rfl
      | some url =>
        have hstart := matchPatterns_no_bytes web.gTryMalloc web.charset web.gConvert source
          caller.fields
        have hnone := matched_nothing hstart.2
        have hempty := matched_nothing (hstart.1.trans hstart.2)
        dsimp only
        split_ifs
        · rfl
        · rcases performParts_same hlimit h url with heq | ⟨heq, heq'⟩ | ⟨heq, heq'⟩
          · rw [heq]
          · rw [heq, heq']
            exact hnone.trans hempty.symm
          · rw [heq, heq']
            exact hempty.trans hnone.symm

/-- A whole lookup, with what it leaves in the cache. -/
theorem lookup_parts {limit : ℕ} (hlimit : 1 ≤ limit)
    {fetch fetch' : CStr → Option (List (List UInt8))} (h : SameAnswers fetch fetch') (fuel : ℕ)
    (web : Web) (callercache : List CICaller) (cidata : CIDataSet) :
    lookupGetCallerData fuel { web with perform := fun url => performParts (upTo limit) (fetch url) }
      callercache cidata =
    lookupGetCallerData fuel { web with perform := fun url => performParts (upTo limit) (fetch' url) }
      callercache cidata := by
  unfold lookupGetCallerData
  have hcaller := cirlwGetCaller_parts hlimit h fuel web web.lookupSourceId
    (CICaller.ofNumber (cidata .cidsNumberComplete))
  dsimp only at hcaller ⊢
  rw [hcaller]

def pageParts (_ : CStr) : Option (List (List UInt8)) := some [ascii "Mei", ascii "er"]

def wholePage (_ : CStr) : Option (List (List UInt8)) := some [ascii "Meier"]

theorem pageParts_sameAnswers : SameAnswers pageParts wholePage := by
  refine ⟨fun url parts h => ?_, fun url parts h => ?_, fun url => rfl⟩
  · obtain rfl := Option.some.inj h
    exact (by decide : ∀ p ∈ [ascii "Mei", ascii "er"], p.length ≤ 16384)
  · obtain rfl := Option.some.inj h
    exact (by decide : ∀ p ∈ [ascii "Meier"], p.length ≤ 16384)

theorem meier_in_parts :
    lookupGetCallerData 100 { pageWeb .name [] with
      perform := fun url => performParts (upTo 64) (pageParts url) } [] areaSet =
    lookupGetCallerData 100 { pageWeb .name [] with
      perform := fun url => performParts (upTo 64) (wholePage url) } [] areaSet :=
  lookup_parts (by decide) pageParts_sameAnswers 100 (pageWeb .name []) [] areaSet

end Fritz2ci
