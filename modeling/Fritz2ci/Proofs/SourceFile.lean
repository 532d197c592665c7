import Fritz2ci.Lib.Decimal
import Fritz2ci.Proofs.CallTimes
import Fritz2ci.Spec.Sources

/-! The file of the lookup sources. Whatever other nodes and attributes stand between, a document
that describes sources is loaded as these, and every list of sources has a document. -/

namespace Fritz2ci

open CString Decimal XmlTree

/-- The content of a `field` for a kind. -/
def CallerField.text : CallerField → CStr
  | .name => ascii "FIELD_NAME"
  | .postalCode => ascii "FIELD_POSTALCODE"
  | .city => ascii "FIELD_CITY"
  | .street => ascii "FIELD_STREET"

theorem fieldKind_text (f : CallerField) : fieldKind f.text = some f := by
  cases f <;> decide

/-- What a `field` says. -/
structure FieldEntry where
  position : ℕ
  field : CallerField
  position_lt : position < 2 ^ 31

structure PatternEntry where
  expression : CStr
  fields : List FieldEntry

structure SourceEntry where
  id : ℕ
  description : CStr
  query : CStr
  splitLines : Bool
  patterns : List PatternEntry
  id_lt : id < 2 ^ 64

def FieldEntry.loaded (f : FieldEntry) : CIRLPatternField := ⟨f.position, some f.field⟩

def PatternEntry.loaded (p : PatternEntry) : LoadedPattern :=
  ⟨p.fields.map FieldEntry.loaded, some p.expression⟩

def SourceEntry.loaded (s : SourceEntry) : LoadedSource :=
  ⟨s.id, some s.description, some s.query, s.splitLines, s.patterns.map PatternEntry.loaded⟩

def FieldNode (n : Node) (f : FieldEntry) : Prop :=
  n.getProp (ascii "pos") = some (printNat f.position) ∧ n.content = f.field.text

def PatternNode (n : Node) (p : PatternEntry) : Prop :=
  n.getProp (ascii "expression") = some p.expression ∧
    List.Forall₂ FieldNode (n.elements (ascii "field")) p.fields

/-- The lines of the answer are matched one by one unless it says otherwise. -/
def QueryNode (n : Node) (s : SourceEntry) : Prop :=
  n.content = s.query ∧
    (n.getProp (ascii "linehandling") = some (ascii "nosplit") ↔ s.splitLines = false)

/-- A `source` with one description, one query and its patterns, in any order and with anything
else in between. -/
structure SourceNode (n : Node) (s : SourceEntry) : Prop where
  id : n.getProp (ascii "id") = some (printNat s.id)
  description : ∃ d, n.elements (ascii "description") = [d] ∧ d.content = s.description
  query : ∃ q, n.elements (ascii "query") = [q] ∧ QueryNode q s
  patterns : List.Forall₂ PatternNode (n.elements (ascii "pattern")) s.patterns

structure Describes (root : Node) (sources : List SourceEntry) : Prop where
  name : root.isElement (ascii "cirevlookupsources")
  sources : List.Forall₂ SourceNode (root.elements (ascii "source")) sources

theorem atoi_printNat {n : ℕ} (h : n < 2 ^ 31) : atoi (printNat n) = n := by
  rw [atoi, strtol_printNat (by omega), toInt_eq_self (by omega)]

theorem loadField_eq {n : Node} {f : FieldEntry} (h : FieldNode n f) : loadField n = f.loaded := by
  rw [loadField, h.1, h.2, Option.map_some, Option.getD_some, atoi_printNat f.position_lt,
    fieldKind_text]
  rfl

theorem loadPattern_eq {n : Node} {p : PatternEntry} (h : PatternNode n p) :
    loadPattern n = p.loaded := by
  have hfields := map_eq_of_forall₂ h.2 fun n f _ hf => loadField_eq hf
  rw [loadPattern, foldl_prepend, h.1, List.reverse_nil, List.nil_append]
  exact congrArg (LoadedPattern.mk · _) hfields

/-- Behind the children, the last description and the last query count, and the patterns are
there in the order of the document. -/
theorem foldl_loadSubSource (nodes : List Node) (source : LoadedSource) :
    nodes.foldl loadSubSource source = {
      id := source.id
      description := (((nodes.filter (Node.isElement (ascii "description"))).getLast?).map
        Node.content).or source.description
      query := (((nodes.filter (Node.isElement (ascii "query"))).getLast?).map
        Node.content).or source.query
      splitLines := (((nodes.filter (Node.isElement (ascii "query"))).getLast?).map fun q =>
        decide (q.getProp (ascii "linehandling") ≠ some (ascii "nosplit"))).getD source.splitLines
      patterns := ((nodes.filter (Node.isElement (ascii "pattern"))).map loadPattern).reverse ++
        source.patterns } := by
  induction nodes generalizing source with
  | nil => rfl
  | cons n nodes ih =>
    rw [List.foldl_cons, ih]
    have hdq : ascii "description" ≠ ascii "query" := by decide
    have hdp : ascii "description" ≠ ascii "pattern" := by decide
    have hqp : ascii "query" ≠ ascii "pattern" := by decide
    unfold loadSubSource
    by_cases hd : n.isElement (ascii "description")
    · have hq := not_isElement hd hdq
      have hp := not_isElement hd hdp
      rw [List.filter_cons_of_pos hd, List.filter_cons_of_neg (by simp [hq]),
        List.filter_cons_of_neg (by simp [hp]), if_pos hd, List.getLast?_cons]
      cases (nodes.filter (Node.isElement (ascii "description"))).getLast? <;> rfl
    · rw [if_neg hd, List.filter_cons_of_neg hd]
      by_cases hq : n.isElement (ascii "query")
      · have hp := not_isElement hq hqp
        rw [List.filter_cons_of_pos hq, List.filter_cons_of_neg (by simp [hp]), if_pos hq,
          List.getLast?_cons]
        cases (nodes.filter (Node.isElement (ascii "query"))).getLast? <;> rfl
      · rw [if_neg hq, List.filter_cons_of_neg hq]
        by_cases hp : n.isElement (ascii "pattern")
        · rw [if_pos hp, List.filter_cons_of_pos hp]
          simp
        · rw [if_neg hp, List.filter_cons_of_neg hp]

theorem loadSource_eq {n : Node} {s : SourceEntry} (h : SourceNode n s) :
    loadSource n = s.loaded := by
  obtain ⟨d, hd, hdescription⟩ := h.description
  obtain ⟨q, hq, hquery, hlines⟩ := h.query
  have hpatterns := map_eq_of_forall₂ h.patterns fun n p _ hp => loadPattern_eq hp
  rw [Node.elements] at hd hq hpatterns
  have hsplit : decide (q.getProp (ascii "linehandling") = some (ascii "nosplit")) =
      !s.splitLines := by
    by_cases hs : s.splitLines = false
    · rw [decide_eq_true (hlines.2 hs), hs]
      rfl
    · rw [decide_eq_false (mt hlines.1 hs), Bool.eq_true_of_not_eq_false hs]
      rfl
  rw [loadSource, foldl_loadSubSource, hd, hq, hpatterns, h.id]
  simp [SourceEntry.loaded, hdescription, hquery, hsplit, strtoul_printNat s.id_lt]

theorem sources_loaded {root : Node} {sources : List SourceEntry} (h : Describes root sources) :
    cirlwLoadSourcesFromFile [] (some (some root)) = (0, sources.map SourceEntry.loaded) := by
  have hsources := map_eq_of_forall₂ h.sources fun n s _ hs => loadSource_eq hs
  simp only [cirlwLoadSourcesFromFile, List.isEmpty_nil, Bool.not_true, Bool.false_eq_true,
    if_false, h.name, foldl_prepend, List.reverse_nil, List.nil_append]
  exact congrArg (0, ·) hsources

/-- A document for a list of sources. -/
def FieldEntry.node (f : FieldEntry) : Node :=
  .element (ascii "field") [(ascii "pos", printNat f.position)] [.text f.field.text]

def PatternEntry.node (p : PatternEntry) : Node :=
  .element (ascii "pattern") [(ascii "expression", p.expression)] (p.fields.map FieldEntry.node)

def SourceEntry.descriptionNode (s : SourceEntry) : Node :=
  .element (ascii "description") [] [.text s.description]

def SourceEntry.queryNode (s : SourceEntry) : Node :=
  .element (ascii "query")
    [(ascii "linehandling", if s.splitLines then ascii "split" else ascii "nosplit")]
    [.text s.query]

def SourceEntry.node (s : SourceEntry) : Node :=
  .element (ascii "source") [(ascii "id", printNat s.id)]
    (s.descriptionNode :: s.queryNode :: s.patterns.map PatternEntry.node)

def sourceFile (sources : List SourceEntry) : Node :=
  .element (ascii "cirevlookupsources") [] (sources.map SourceEntry.node)

theorem filter_nodes {α : Type} {p : Node → Bool} {f : α → Node} (h : ∀ a, p (f a)) (xs : List α) :
    (xs.map f).filter p = xs.map f := by
  refine List.filter_eq_self.2 fun n hn => ?_
  obtain ⟨a, -, rfl⟩ := List.mem_map.1 hn
  exact h a

theorem forall₂_nodes {α : Type} {R : Node → α → Prop} {f : α → Node} (h : ∀ a, R (f a) a)
    (xs : List α) : List.Forall₂ R (xs.map f) xs :=
  List.forall₂_map_left_iff.2 (List.forall₂_same.2 fun a _ => h a)

theorem fieldNode_node (f : FieldEntry) : FieldNode f.node f := by
  refine ⟨rfl, ?_⟩
  rw [FieldEntry.node, Node.content, contents, contents, Node.content, List.append_nil]

theorem patternNode_node (p : PatternEntry) : PatternNode p.node p := by
  refine ⟨rfl, ?_⟩
  rw [Node.elements, PatternEntry.node, Node.children, filter_nodes fun f => rfl]
  exact forall₂_nodes fieldNode_node p.fields

theorem filter_patternNodes {name : CStr} (h : ascii "pattern" ≠ name)
    (patterns : List PatternEntry) :
    (patterns.map PatternEntry.node).filter (Node.isElement name) = [] := by
  refine List.filter_eq_nil_iff.2 fun n hn => ?_
  obtain ⟨p, -, rfl⟩ := List.mem_map.1 hn
  exact fun hname => h (of_decide_eq_true hname)

theorem content_text (name : CStr) (props : List (CStr × CStr)) (str : CStr) :
    (Node.element name props [.text str]).content = str := by
  rw [Node.content, contents, contents, Node.content, List.append_nil]

theorem queryNode_queryNode (s : SourceEntry) : QueryNode s.queryNode s := by
  refine ⟨content_text _ _ _, ?_⟩
  have hprop : s.queryNode.getProp (ascii "linehandling") =
      some (if s.splitLines then ascii "split" else ascii "nosplit") := rfl
  rw [hprop]
  cases s.splitLines <;> decide

theorem sourceNode_node (s : SourceEntry) : SourceNode s.node s where
  id := rfl
  description := by
    refine ⟨s.descriptionNode, ?_, content_text _ _ _⟩
    change s.descriptionNode :: (s.patterns.map PatternEntry.node).filter _ = _
    rw [filter_patternNodes (by decide)]
  query := by
    refine ⟨s.queryNode, ?_, queryNode_queryNode s⟩
    change s.queryNode :: (s.patterns.map PatternEntry.node).filter _ = _
    rw [filter_patternNodes (by decide)]
  patterns := by
    change List.Forall₂ PatternNode ((s.patterns.map PatternEntry.node).filter _) _
    rw [filter_nodes fun p => rfl]
    exact forall₂_nodes patternNode_node s.patterns

theorem describes_sourceFile (sources : List SourceEntry) :
    Describes (sourceFile sources) sources := by
  refine ⟨rfl, ?_⟩
  rw [Node.elements, sourceFile, Node.children, filter_nodes fun s => rfl]
  exact forall₂_nodes sourceNode_node sources

/-- Every list of sources has a document, and each of its documents is loaded as the list; with
sources loaded, no other document changes them. -/
theorem sourceFile_roundTrip (sources : List SourceEntry) :
    Describes (sourceFile sources) sources ∧
      ∀ root, Describes root sources →
        cirlwLoadSourcesFromFile [] (some (some root)) = (0, sources.map SourceEntry.loaded) ∧
        ∀ doc, cirlwLoadSourcesFromFile (sources.map SourceEntry.loaded) doc =
          if sources = [] then cirlwLoadSourcesFromFile [] doc
          else (1, sources.map SourceEntry.loaded) := by
  refine ⟨describes_sourceFile sources, fun root h => ⟨sources_loaded h, fun doc => ?_⟩⟩
  cases sources with
  | nil => rfl
  | cons s sources =>
    rw [if_neg (List.cons_ne_nil _ _)]
    rfl

/-- A source with one pattern. -/
def oertliche : SourceEntry :=
  ⟨2, ascii "Das Oertliche", ascii "http://www1.dasoertliche.de/Controller?ph=%NUMBER%", true,
    [⟨ascii "na:(.+)", [⟨1, .name, by decide⟩]⟩], by decide⟩

/-- Its file, with blanks and a comment, and no word on the handling of lines. -/
def oertlicheFile : Node :=
  .element (ascii "cirevlookupsources") [] [.text (ascii "\n"), .other,
    .element (ascii "source") [(ascii "lang", ascii "de"), (ascii "id", ascii "2")]
      [.element (ascii "query") [] [.text oertliche.query], .text (ascii "\n"),
        .element (ascii "description") [] [.text (ascii "Das "), .text (ascii "Oertliche")],
        .element (ascii "pattern") [(ascii "expression", ascii "na:(.+)")]
          [.text (ascii "\n"),
            .element (ascii "field") [(ascii "pos", ascii "1")] [.text (ascii "FIELD_NAME")]]]]

theorem oertlicheFile_describes : Describes oertlicheFile [oertliche] := by
  refine ⟨rfl, .cons ⟨rfl, ⟨_, rfl, rfl⟩, ⟨_, rfl, rfl, by decide⟩, ?_⟩ .nil⟩
  exact .cons ⟨rfl, .cons ⟨rfl, rfl⟩ .nil⟩ .nil

theorem oertlicheFile_loaded :
    cirlwLoadSourcesFromFile [] (some (some oertlicheFile)) = (0, [oertliche.loaded]) :=
  ((sourceFile_roundTrip [oertliche]).2 oertlicheFile oertlicheFile_describes).1

end Fritz2ci
