import Fritz2ci.Lib.CString

/-! Documents as trees: elements with their attributes and children, texts, and nodes that are
neither. Strings are those of C. -/

namespace XmlTree

open CString

inductive Node
  | element (name : CStr) (props : List (CStr × CStr)) (children : List Node)
  /-- a text or a CDATA section -/
  | text (content : CStr)
  /-- a comment or a processing instruction -/
  | other

mutual

/-- All the text below a node. -/
def Node.content : Node → CStr
  | .element _ _ children => contents children
  | .text content => content
  | .other => []

def contents : List Node → CStr
  | [] => []
  | n :: rest => n.content ++ contents rest

end

def Node.isElement (name : CStr) : Node → Bool
  | .element n _ _ => n = name
  | _ => false

/-- The value of an attribute. -/
def Node.getProp (name : CStr) : Node → Option CStr
  | .element _ props _ => (props.find? fun p => p.1 = name).map Prod.snd
  | _ => none

def Node.children : Node → List Node
  | .element _ _ children => children
  | _ => []

/-- The children of a name, everything else between them left out. -/
def Node.elements (name : CStr) (n : Node) : List Node := n.children.filter (Node.isElement name)

theorem not_isElement {n : Node} {name name' : CStr} (h : n.isElement name) (hne : name ≠ name') :
    n.isElement name' = false := by
  cases n with
  | element m props children =>
    have hm : m = name := of_decide_eq_true h
    exact decide_eq_false (hm ▸ hne)
  | text content => cases h
  | other => cases h

/-- A loop that puts what it makes of some nodes in front of a list, turned round behind it. -/
theorem foldl_prepend {α : Type} (p : Node → Bool) (f : Node → α) (nodes : List Node)
    (acc : List α) :
    (nodes.foldl (fun acc n => if p n then f n :: acc else acc) acc).reverse =
      acc.reverse ++ (nodes.filter p).map f := by
  induction nodes generalizing acc with
  | nil => simp
  | cons n nodes ih =>
    rw [List.foldl_cons, ih]
    cases h : p n <;> simp [h]

/-- Nodes that correspond to items are read as these. -/
theorem map_eq_of_forall₂ {α γ : Type} {R : Node → α → Prop} {f : Node → γ} {g : α → γ}
    {nodes : List Node} {items : List α} (h : List.Forall₂ R nodes items)
    (hf : ∀ n a, n ∈ nodes → R n a → f n = g a) : nodes.map f = items.map g := by
  induction h with
  | nil => rfl
  | cons hr h ih =>
    rw [List.map_cons, List.map_cons, hf _ _ List.mem_cons_self hr,
      ih fun n a hn => hf n a (List.mem_cons_of_mem _ hn)]

end XmlTree
