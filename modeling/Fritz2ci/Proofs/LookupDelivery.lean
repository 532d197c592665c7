import Fritz2ci.Proofs.LookupCache
import Fritz2ci.Proofs.PageMatching

/-! What a lookup on the web delivers: any captured word makes it a success, while only
the name is used. -/

namespace Fritz2ci

open CString

/-- The source and the page that a lookup of a number matches, where it gets that far. -/
def webResponse (fuel : ℕ) (web : Web) (number : CStr) : Option (CIRLSource × List UInt8) :=
  match cirlwFindSource web.sources web.lookupSourceId with
  | none => none
  | some source =>
    match cirlwPrepareUrl (web.gTryMalloc .out) fuel source.query number with
    | .ok (some url) =>
      if web.curl ∧ TablesGranted web.gTryMalloc source then
        (web.perform url).join.map fun body => (source, body)
      else none
    | _ => none

/-- The name a captured word becomes. -/
def deliveredName (charset : GRegex) (gConvert : CStr → CStr → Option CStr) (body : List UInt8)
    (w : CStr) : CStr :=
  match declaredCharset charset body with
  | some cs => convertedWord gConvert cs w
  | none => w

theorem matchPatterns_empty (gTryMalloc : TryMalloc → ℤ → Bool) (charset : GRegex)
    (gConvert : CStr → CStr → Option CStr) (source : CIRLSource) (fields : CallerField → CStr) :
    (cirlwMatchPatterns gTryMalloc charset gConvert source none fields).2.foundAny = false := by
  unfold cirlwMatchPatterns
  dsimp only
  split_ifs <;> rfl

theorem cirlwGetCaller_response {fuel : ℕ} {web : Web} {caller : CICaller} {answer : WebAnswer}
    (h : cirlwGetCaller fuel web web.lookupSourceId caller = .ok answer) :
    (webResponse fuel web caller.numberComplete = none ∧ answer.rc ≠ 0) ∨
      ∃ source body m, webResponse fuel web caller.numberComplete = some (source, body) ∧
        TablesGranted web.gTryMalloc source ∧
        (cirlwMatchPatterns web.gTryMalloc web.charset web.gConvert source (some body)
          caller.fields).2 = m ∧
        answer.rc = (if m.foundAny then (cirlwMatchPatterns web.gTryMalloc web.charset
          web.gConvert source (some body) caller.fields).1 else 4) ∧
        answer.caller.fields = m.fields := by
  unfold cirlwGetCaller at h
  unfold webResponse
  cases hsource : cirlwFindSource web.sources web.lookupSourceId with
  | none => simp only [hsource] at h; cases h; simp
  | some source =>
    simp only [hsource] at h
    cases hurl : cirlwPrepareUrl (web.gTryMalloc .out) fuel source.query caller.numberComplete with
    | error f => simp [hurl] at h
    | ok url =>
      cases url with
      | none => simp only [hurl] at h; cases h; simp [hurl]
      | some url =>
        simp only [hurl] at h
        cases hcurl : web.curl with
        | false => simp only [hcurl] at h; cases h; simp [hurl]
        | true =>
          simp only [hcurl, Bool.not_true, Bool.false_eq_true, if_false] at h
          cases hperform : web.perform url with
          | none => simp only [hperform] at h; cases h; simp [hurl, hperform]
          | some mem =>
            simp only [hperform] at h
            have hfits : (cirlwMatchPatterns web.gTryMalloc web.charset web.gConvert source mem
                caller.fields).2.Fits := by
              by_contra hfits
              rw [if_neg hfits] at h
              cases h
            rw [if_pos hfits] at h
            cases h
            cases mem with
            | none => left; simp [hurl, hperform, matchPatterns_empty]
            | some body =>
              by_cases hgranted : TablesGranted web.gTryMalloc source
              · exact Or.inr ⟨source, body, _, by simp [hurl, hperform, hgranted],
                  hgranted, rfl, rfl, rfl⟩
              · left
                rw [matchPatterns_refused _ _ _ _ _ _ hgranted]
                simp [hurl, hgranted, Matching.foundAny, Matching.start]

theorem foundAny_iff {fields : CallerField → CStr} {caps : List (CallerField × CStr)}
    {charsets : List CStr} {m : Matching} (h : Matched fields caps charsets m) :
    m.foundAny = true ↔ caps ≠ [] := by
  have hany : m.foundAny = true ↔ ∃ f, m.fnd f = true := by
    simp only [Matching.foundAny, Bool.or_eq_true]
    constructor
    · rintro (((h | h) | h) | h) <;> exact ⟨_, h⟩
    · rintro ⟨f, hf⟩
      cases f <;> simp [hf]
  rw [hany]
  constructor
  · rintro ⟨f, hf⟩ rfl
    rw [h.fnd] at hf
    cases hf
  · intro hne
    obtain ⟨⟨f, w⟩, hc⟩ := List.exists_mem_of_ne_nil caps hne
    exact ⟨f, by rw [h.fnd]; exact lastCaptured_isSome_iff.2 ⟨w, hc⟩⟩

/-- A page matched line by line for a fresh record. -/
theorem matchPatterns_page {gTryMalloc : TryMalloc → ℤ → Bool} (charset : GRegex)
    (gConvert : CStr → CStr → Option CStr) {source : CIRLSource}
    (hgranted : TablesGranted gTryMalloc source) (hsplit : source.splitLines) (body : List UInt8)
    (fields : CallerField → CStr) {r : ℕ × Matching}
    (hr : cirlwMatchPatterns gTryMalloc charset gConvert source (some body) fields = r) :
    (r.2.foundAny = true ↔ captures source.patterns body ≠ []) ∧
      (captures source.patterns body ≠ [] → r.1 = 0 ∧
        r.2.fields .name = ((lastCaptured .name (captures source.patterns body)).map
          (deliveredName charset gConvert body)).getD (fields .name)) := by
  rw [matchPatterns_granted _ _ _ _ _ _ hgranted, if_pos hsplit] at hr
  split_ifs at hr with hnone
  · subst hr
    rw [List.length_eq_zero_iff] at hnone
    simp [captures, lineCaptures, hnone, Matching.foundAny, Matching.start]
  · have hpage := matched_page fields source.patterns charset body
    obtain ⟨err, m'⟩ := r
    obtain ⟨rfl, rfl⟩ := Prod.mk.inj hr
    generalize (pageLines body).foldl (matchLine source.patterns charset)
      (Matching.start fields) = m at hpage
    have hcharset : m.charset = declaredCharset charset body := hpage.charset
    have hfound : (convertFields gConvert m).foundAny = m.foundAny := by
      simp only [Matching.foundAny, convertFields_fnd]
    refine ⟨by rw [hfound]; exact foundAny_iff hpage, fun _ => ⟨rfl, ?_⟩⟩
    unfold deliveredName
    rw [← hcharset]
    cases hcs : m.charset with
    | none =>
      simp only [convertFields, hcs, hpage.fields]
      cases lastCaptured .name (captures source.patterns body) <;> rfl
    | some cs =>
      rw [convertFields_name gConvert hcs, hpage.fnd, hpage.fields]
      cases lastCaptured .name (captures source.patterns body) <;> rfl

/-- A success puts a non-empty name captured from the page into the data set, anything else
leaves its name and the cache alone. -/
def DeliversName (fuel : ℕ) (web : Web) (callercache : List CICaller) (cidata : CIDataSet)
    (a : LookupAnswer) : Prop :=
  (a.rc = 0 → a.cidata .cidsName ≠ [] ∧
    ∃ source body w, webResponse fuel web (cidata .cidsNumberComplete) = some (source, body) ∧
      (.name, w) ∈ captures source.patterns body ∧
      a.cidata .cidsName = deliveredName web.charset web.gConvert body w) ∧
  (a.rc ≠ 0 → a.cidata .cidsName = cidata .cidsName ∧ a.callercache = callercache)

/-- The page names the caller if it says anything of one: nothing is captured from it, or
the name captured last is not empty. -/
def NamesCaller (charset : GRegex) (gConvert : CStr → CStr → Option CStr)
    (patterns : List CIRLPattern) (body : List UInt8) : Prop :=
  captures patterns body = [] ∨
    ∃ w, lastCaptured .name (captures patterns body) = some w ∧
      deliveredName charset gConvert body w ≠ []

theorem delivers_failure {fuel : ℕ} {web : Web} {callercache : List CICaller}
    {cidata : CIDataSet} {rc : ℕ} (hrc : rc ≠ 0) {requested : Bool} :
    DeliversName fuel web callercache cidata ⟨rc, cidata, callercache, requested⟩ :=
  ⟨fun h => absurd h hrc, fun _ => ⟨rfl, rfl⟩⟩

theorem delivers_success_iff {fuel : ℕ} {web : Web} {callercache cache' : List CICaller}
    {cidata cidata' : CIDataSet} {requested : Bool} {source : CIRLSource} {body : List UInt8}
    (hresponse : webResponse fuel web (cidata .cidsNumberComplete) = some (source, body))
    (hcaps : captures source.patterns body ≠ [])
    (hname : cidata' .cidsName = ((lastCaptured .name (captures source.patterns body)).map
      (deliveredName web.charset web.gConvert body)).getD []) :
    DeliversName fuel web callercache cidata ⟨0, cidata', cache', requested⟩ ↔
      NamesCaller web.charset web.gConvert source.patterns body := by
  constructor
  · rintro ⟨hdelivered, -⟩
    have hnonempty : cidata' .cidsName ≠ [] := (hdelivered rfl).1
    rw [hname] at hnonempty
    cases hlast : lastCaptured .name (captures source.patterns body) with
    | none => exact absurd (by rw [hlast]; rfl) hnonempty
    | some w =>
      rw [hlast] at hnonempty
      exact Or.inr ⟨w, hlast, hnonempty⟩
  · intro hnames
    obtain ⟨w, hlast, hnonempty⟩ := hnames.resolve_left hcaps
    rw [hlast] at hname
    refine ⟨fun _ => ?_, fun hrc => absurd rfl hrc⟩
    dsimp only
    rw [hname]
    exact ⟨hnonempty, source, body, w, hresponse, lastCaptured_mem hlast, rfl⟩

/-- For a number not in the cache, a success delivers a name exactly if the page names the
caller or says nothing. -/
theorem lookup_delivers_iff {fuel : ℕ} {web : Web} {callercache : List CICaller}
    {cidata : CIDataSet} {a : LookupAnswer}
    (hmiss : ∀ r ∈ callercache, r.numberComplete ≠ cidata .cidsNumberComplete)
    (hsplit : ∀ source body,
      webResponse fuel web (cidata .cidsNumberComplete) = some (source, body) → source.splitLines)
    (h : lookupGetCallerData fuel web callercache cidata = .ok a) :
    DeliversName fuel web callercache cidata a ↔
      ∀ source body, webResponse fuel web (cidata .cidsNumberComplete) = some (source, body) →
        NamesCaller web.charset web.gConvert source.patterns body := by
  obtain ⟨found, hfind, -⟩ | ⟨-, answer, hweb, hend⟩ := lookupGetCallerData_cases h
  · rw [cidbFindCaller_none.2 hmiss] at hfind
    cases hfind
  rcases cirlwGetCaller_response hweb with ⟨hnone, hrc⟩ |
      ⟨source, body, m, hsome, hgranted, hm, hrc, hf⟩
  · obtain ⟨-, rfl⟩ := hend.resolve_left fun hok => hrc hok.1
    have hnone' : webResponse fuel web (cidata .cidsNumberComplete) = none := hnone
    exact iff_of_true (delivers_failure (by decide)) (by simp [hnone'])
  · have hsome' : webResponse fuel web (cidata .cidsNumberComplete) = some (source, body) := hsome
    obtain ⟨hany, hfound⟩ := matchPatterns_page web.charset web.gConvert hgranted
      (hsplit source body hsome') body _ rfl
    rw [hm] at hany
    have hright : (∀ source' body', webResponse fuel web (cidata .cidsNumberComplete) =
        some (source', body') → NamesCaller web.charset web.gConvert source'.patterns body') ↔
        NamesCaller web.charset web.gConvert source.patterns body := by
      rw [hsome']
      simp
    rw [hright]
    by_cases hcaps : captures source.patterns body = []
    · have hfail : answer.rc ≠ 0 := by
        rw [hrc, if_neg fun hm => hany.1 hm hcaps]
        decide
      obtain ⟨-, rfl⟩ := hend.resolve_left fun hok => hfail hok.1
      exact iff_of_true (delivers_failure (by decide)) (Or.inl hcaps)
    · obtain ⟨herr, hname⟩ := hfound hcaps
      have hok : answer.rc = 0 := by rw [hrc, if_pos (hany.2 hcaps), herr]
      obtain ⟨-, rfl⟩ := hend.resolve_right fun hfail => hfail.1 hok
      rw [hm] at hname
      refine delivers_success_iff hsome' hcaps ?_
      rw [Function.update_self, hf, hname]
      rfl

/-- The surroundings of a lookup whose page is `body` whatever the url. -/
def pageWeb (f : CallerField) (body : List UInt8) : Web where
  sources := [lineSource f]
  lookupSourceId := 1
  charset := neverMatches
  curl := true
  gTryMalloc _ _ := true
  gConvert _ _ := none
  perform _ := some (some body)

def areaSet : CIDataSet
  | .cidsNumberComplete => ascii "0301234"
  | .cidsName => ascii "Berlin"
  | .cidsArea => ascii "Berlin"
  | _ => []

theorem namePage_delivers : ∃ a,
    lookupGetCallerData 100 (pageWeb .name (ascii "Meier")) [] areaSet = .ok a ∧
      DeliversName 100 (pageWeb .name (ascii "Meier")) [] areaSet a :=
  ⟨_, rfl, (lookup_delivers_iff (by simp) (by rintro source body h; cases h; rfl) rfl).2
    (by
      rintro source body h
      cases h
      exact Or.inr ⟨ascii "Meier", by decide, by decide⟩)⟩

/-- A page that tells the city only is a success that overwrites the area by nothing. -/
theorem cityPage_delivers_nothing : ∃ a,
    lookupGetCallerData 100 (pageWeb .city (ascii "Bonn")) [] areaSet = .ok a ∧
      ¬ DeliversName 100 (pageWeb .city (ascii "Bonn")) [] areaSet a :=
  ⟨_, rfl, fun h => (h.1 rfl).1 rfl⟩

end Fritz2ci
