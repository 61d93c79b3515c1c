import Mathlib.Data.List.Lex
import TensorDE.Lib.Sorting
import TensorDE.Kdl.Value

set_option linter.dupNamespace false

namespace TensorDE.Kdl.Query

open Utf8

inductive Operator where
  | child | descendant | immediateSibling | generalSibling
deriving DecidableEq

/-- A reference into the document: the child indices on the way, which stand for
the address of the node, and the node. -/
structure Ref where
  path : List Nat
  node : Node

def refs (path : List Nat) (nodes : List Node) : List Ref := nodes.mapIdx fun k node => ⟨path ++ [k], node⟩

def Ref.children (r : Ref) : List Ref := refs r.path r.node.children

section Selector

def isWhitespace (c : Char) : Bool :=
  9 ≤ c.toNat && c.toNat ≤ 13 || isUnicodeSpace c || c.toNat = 0x85 || c.toNat = 0x2028 || c.toNat = 0x2029

def trim (s : Str) : Str := ((s.dropWhile isWhitespace).reverse.dropWhile isWhitespace).reverse

variable (part : Str)

def nonEmpty : List Str := if trim part = [] then [] else [trim part]

/-- Open brackets and parentheses. A closing one too many is passed over. -/
structure Nesting where
  brackets : Nat
  parentheses : Nat

variable (n : Nesting)

def Nesting.after (c : Char) : Nesting :=
  if c = '[' then { n with brackets := n.brackets + 1 }
  else if c = ']' then { n with brackets := n.brackets - 1 }
  else if c = '(' then { n with parentheses := n.parentheses + 1 }
  else if c = ')' then { n with parentheses := n.parentheses - 1 }
  else n

def Nesting.outside : Bool := n.brackets = 0 && n.parentheses = 0

def splitUnionFrom (n : Nesting) (part : Str) : Str → List Str
  | '|' :: '|' :: rest =>
    if n.outside then nonEmpty part ++ splitUnionFrom n [] rest
    else splitUnionFrom n (part ++ ['|']) ('|' :: rest)
  | c :: rest => splitUnionFrom (n.after c) (part ++ [c]) rest
  | [] => nonEmpty part

variable (selector : Str)

def splitUnion : List Str := splitUnionFrom ⟨0, 0⟩ [] selector

def chainLink (op : Operator) (rest : Option (List Str × List Operator)) :
    Option (List Str × List Operator) :=
  if trim part = [] then none else rest.map fun (filters, ops) => (trim part :: filters, op :: ops)

def parseChainFrom (n : Nesting) (part : Str) : Str → Option (List Str × List Operator)
  | '>' :: '>' :: rest =>
    if n.outside then chainLink part .descendant (parseChainFrom n [] rest)
    else parseChainFrom n (part ++ ['>']) ('>' :: rest)
  | '>' :: rest =>
    if n.outside then chainLink part .child (parseChainFrom n [] rest) else parseChainFrom n (part ++ ['>']) rest
  | '+' :: '+' :: rest =>
    if n.outside then chainLink part .generalSibling (parseChainFrom n [] rest)
    else parseChainFrom n (part ++ ['+']) ('+' :: rest)
  | '+' :: rest =>
    if n.outside then chainLink part .immediateSibling (parseChainFrom n [] rest)
    else parseChainFrom n (part ++ ['+']) rest
  | c :: rest => parseChainFrom (n.after c) (part ++ [c]) rest
  | [] => if trim part = [] ∨ n.brackets ≠ 0 ∨ n.parentheses ≠ 0 then none else some ([trim part], [])

def parseChain : Option (List Str × List Operator) := parseChainFrom ⟨0, 0⟩ [] selector

end Selector

section Walk

variable {β : Type}

mutual

/-- A walk over a subtree, each node before its children, with the slice it stands in. -/
def visit (f : List Ref → Ref → List β) (siblings : List Ref) (path : List Nat) : Node → List β
  | ⟨typeName, name, entries, children⟩ =>
    f siblings ⟨path, ⟨typeName, name, entries, children⟩⟩ ++ visitAll f (refs path children) path 0 children

def visitAll (f : List Ref → Ref → List β) (siblings : List Ref) (path : List Nat) : Nat → List Node → List β
  | _, [] => []
  | k, node :: nodes => visit f siblings (path ++ [k]) node ++ visitAll f siblings path (k + 1) nodes

end

def visitRoots (f : List Ref → Ref → List β) (roots : List Node) : List β := visitAll f (refs [] roots) [] 0 roots

end Walk

section Select

/-! What follows is for any test of a node against a filter. -/

variable (nodeMatches : Node → Str → Bool) (roots : List Node) (filter : Str)

/-- `collect_matching`, the node itself included. -/
def collectMatching (r : Ref) : List Ref :=
  visit (fun _ r => if nodeMatches r.node filter then [r] else []) [] r.path r.node

def siblingMap : List (List Nat × List Ref × Nat) :=
  visitRoots (fun siblings r =>
    match siblings.findIdx? fun candidate => candidate.path = r.path with
    | some index => [(r.path, siblings, index)]
    | none => []) roots

def matching (candidates : List Ref) : List Ref := candidates.filter fun r => nodeMatches r.node filter

def candidates (op : Operator) (filter : Str) (r : Ref) : List Ref :=
  match op with
  | .child => matching nodeMatches filter r.children
  | .descendant => r.children.flatMap (collectMatching nodeMatches filter)
  | .immediateSibling =>
    match (siblingMap roots).lookup r.path with
    | some (siblings, index) => matching nodeMatches filter (siblings[index + 1]?).toList
    | none => []
  | .generalSibling =>
    match (siblingMap roots).lookup r.path with
    | some (siblings, index) => matching nodeMatches filter (siblings.drop (index + 1))
    | none => []

def followSteps : List (Operator × Str) → List Ref → List Ref
  | [], current => current
  | (op, filter) :: steps, current => followSteps steps (current.flatMap (candidates nodeMatches roots op filter))

def topFilter : Str := ['t', 'o', 'p', '(', ')']

def everywhere : List Ref := (refs [] roots).flatMap (collectMatching nodeMatches filter)

/-- Where a chain starts, with the steps that are left. `top()` is above the
document: it has children and descendants and no siblings. -/
def start (first : Str) (steps : List (Operator × Str)) : List Ref × List (Operator × Str) :=
  if first = topFilter then
    match steps with
    | [] => (refs [] roots, [])
    | (.child, filter) :: steps => (matching nodeMatches filter (refs [] roots), steps)
    | (.descendant, filter) :: steps => (everywhere nodeMatches roots filter, steps)
    | (_, _) :: steps => ([], steps)
  else (everywhere nodeMatches roots first, steps)

variable (selector : Str)

def selectArm : List Ref :=
  match parseChain selector with
  | some (first :: filters, operators) =>
    let (current, steps) := start nodeMatches roots first (operators.zip filters)
    followSteps nodeMatches roots steps current
  | _ => []

/-- `matches.retain(|node| seen.insert(..))` -/
def retainUnseen (seen : List (List Nat)) : List Ref → List Ref
  | [] => []
  | r :: rest => if r.path ∈ seen then retainUnseen seen rest else r :: retainUnseen (r.path :: seen) rest

def orderOf (path : List Nat) : Nat :=
  (((visitRoots (fun _ r => [r.path]) roots).zipIdx).lookup path).getD (2 ^ 64 - 1)

def queryRoots : List Ref :=
  let found := (splitUnion (trim selector)).flatMap (selectArm nodeMatches roots)
  (retainUnseen [] found).mergeSort fun a b => orderOf roots a.path ≤ orderOf roots b.path

def query (doc : Document) (selector : Str) : List Ref := queryRoots nodeMatches doc.nodes selector

def queryNode (root : Node) (selector : Str) : List Ref := queryRoots nodeMatches [root] selector

end Select

end TensorDE.Kdl.Query
