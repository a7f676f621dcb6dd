import Mathlib.Tactic

/-!
# Nodes of an XML document

A document as a tree of elements with attributes and texts, the look-ups a
reader makes in it, and how a look-up by name passes over the nodes of other
names.
-/

namespace CheatEngine.DocumentNodes

inductive Node
  | text (value : List Char)
  | element (tagName : String) (attributes : List (String × List Char))
      (childNodes : List Node)

def Node.nodeName : Node → String
  | .text _ => "#text"
  | .element tagName _ _ => tagName

def Node.attributes : Node → List (String × List Char)
  | .text _ => []
  | .element _ attributes _ => attributes

def Node.childNodes : Node → List Node
  | .text _ => []
  | .element _ _ childNodes => childNodes

mutual

def Node.textContent : Node → List Char
  | .text value => value
  | .element _ _ childNodes => textContents childNodes

def textContents : List Node → List Char
  | [] => []
  | node :: rest => node.textContent ++ textContents rest

end

def textElement (tagName : String) (attributes : List (String × List Char))
    (value : List Char) : Node :=
  .element tagName attributes (if value = [] then [] else [.text value])

def findNode (name : String) (nodes : List Node) : Option Node :=
  nodes.find? (fun node => node.nodeName == name)

def Node.getNamedItem (node : Node) (name : String) : Option (List Char) :=
  (node.attributes.find? (fun item => item.1 == name)).map Prod.snd

section

variable (tagName : String) (attributes : List (String × List Char))
  (value : List Char)

@[simp] theorem textElement_nodeName :
    (textElement tagName attributes value).nodeName = tagName := rfl

@[simp] theorem textElement_attributes :
    (textElement tagName attributes value).attributes = attributes := rfl

@[simp] theorem textElement_textContent :
    (textElement tagName attributes value).textContent = value := by
  by_cases hvalue : value = []
  · simp [textElement, hvalue, Node.textContent, textContents]
  · simp [textElement, hvalue, Node.textContent, textContents]

variable (childNodes : List Node)

@[simp] theorem element_nodeName :
    (Node.element tagName attributes childNodes).nodeName = tagName := rfl

@[simp] theorem element_attributes :
    (Node.element tagName attributes childNodes).attributes =
      attributes := rfl

@[simp] theorem element_childNodes :
    (Node.element tagName attributes childNodes).childNodes =
      childNodes := rfl

end

variable {nodes : List Node} {node : Node} (name : String)

@[simp] theorem findNode_nil : findNode name [] = none := rfl

@[simp] theorem findNode_append (nodes more : List Node) :
    findNode name (nodes ++ more) =
      (findNode name nodes).or (findNode name more) :=
  List.find?_append

theorem findNode_cons (node : Node) (rest : List Node) :
    findNode name (node :: rest) =
      if node.nodeName = name then some node else findNode name rest := by
  by_cases hname : node.nodeName = name
  · simp [findNode, hname]
  · simp [findNode, hname]

theorem findNode_mem {name : String}
    (hfind : findNode name nodes = some node) : node ∈ nodes :=
  List.mem_of_find?_eq_some hfind

def NamedIn (names : List String) (nodes : List Node) : Prop :=
  ∀ node ∈ nodes, node.nodeName ∈ names

theorem findNode_of_namedIn {names : List String}
    (hnamed : NamedIn names nodes) {name : String} (hname : name ∉ names) :
    findNode name nodes = none := by
  rw [findNode, List.find?_eq_none]
  intro node hnode hequal
  rw [beq_iff_eq] at hequal
  exact hname (hequal ▸ hnamed node hnode)

theorem sizeOf_childNodes_lt (node : Node) :
    sizeOf node.childNodes < sizeOf node := by
  cases node with
  | text value =>
    have hpos : 0 < sizeOf value := by
      cases value <;> simp
    simp only [Node.childNodes, Node.text.sizeOf_spec, List.nil.sizeOf_spec]
    omega
  | element tagName attributes childNodes =>
    simp only [Node.childNodes, Node.element.sizeOf_spec]
    omega

theorem sizeOf_found_lt {name : String}
    (hfind : findNode name nodes = some node) :
    sizeOf node.childNodes < sizeOf nodes := by
  have hnode : sizeOf node < sizeOf nodes :=
    List.sizeOf_lt_of_mem (findNode_mem hfind)
  have hchildren := sizeOf_childNodes_lt node
  omega

/-- The attributes that stand for the true ones among named conditions. -/
def flagAttributes (flags : List (String × Bool)) :
    List (String × List Char) :=
  (flags.filter Prod.snd).map (fun flag => (flag.1, ['1']))

/-- Whether a node has the attribute with the value `1`. -/
def Node.hasFlag (node : Node) (name : String) : Bool :=
  node.getNamedItem name == some ['1']

theorem getNamedItem_flagAttributes (flags : List (String × Bool))
    (name : String) :
    ((flagAttributes flags).find? (fun item => item.1 == name)).map Prod.snd =
      if (name, true) ∈ flags then some ['1'] else none := by
  induction flags with
  | nil => simp [flagAttributes]
  | cons flag rest ih =>
    obtain ⟨tag, value⟩ := flag
    cases value with
    | false => simpa [flagAttributes] using ih
    | true =>
      by_cases hname : tag = name
      · simp [flagAttributes, hname]
      · have hother : ¬ name = tag := fun heq => hname heq.symm
        simpa [flagAttributes, hname, hother] using ih

theorem hasFlag_flagAttributes {flags : List (String × Bool)}
    (hnode : node.attributes = flagAttributes flags) (name : String) :
    node.hasFlag name = decide ((name, true) ∈ flags) := by
  rw [Node.hasFlag, Node.getNamedItem, hnode, getNamedItem_flagAttributes]
  by_cases hmem : (name, true) ∈ flags
  · simp [hmem]
  · simp [hmem]

end CheatEngine.DocumentNodes
