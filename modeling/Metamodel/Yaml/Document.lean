import Metamodel.Yaml.Token.Stream

/-!
# Metamodel.Yaml.Document

From tokens to the nodes of a document.

An alias stands for an anchored node, which may even be the node that the alias is a part of. So
aliases stay in the tree as numbers, and `Document.anchored` says which nodes have them.

An anchor gets its number from how many names are known when it is met. A new name always gets a new
number; a name that is used again may get one that a later new name gets as well. Of the nodes of a
number the last one in the text has it, also for the aliases before it.
-/

namespace Metamodel
namespace Yaml

/-- A node. Tags are written out in full. -/
inductive Node where
  | scalar (text : String) (style : Style) (tag : Option Tag)
  | list (items : List Node) (tag : Option Tag)
  | map (entries : List (Node × Node)) (tag : Option Tag)
  | alias (target : Nat)
deriving Inhabited

def Node.absent : Node := .scalar "" .plain none

structure Document where
  root : Node
  /-- Anchored nodes by number; the first entry of a number counts. -/
  anchored : List (Nat × Node) := []

/-! ## Reading nodes -/

/-- What is left of the tokens, and the anchors met so far. -/
structure Composition where
  tokens : List Token
  /-- Handles of tags and what they stand for. -/
  handles : List (String × Tag) := []
  /-- The number of every name. -/
  names : List (String × Nat) := []
  /-- The numbers of the anchors, the latest first. -/
  anchors : List Nat := []
  /-- What has been read of the anchored nodes, by the place of their anchors. -/
  marked : List (Nat × Node) := []

structure Properties where
  /-- The place of the anchor among all anchors. -/
  anchor : Option Nat := none
  tag : Option Tag := none

namespace Composition

def skip (c : Composition) : Composition := { c with tokens := c.tokens.drop 1 }

/-- Take up an anchor; gives its place among all anchors. -/
def addAnchor (c : Composition) (name : String) : Nat × Composition :=
  let number := c.names.length
  (c.anchors.length,
    { c with names := (name, number) :: c.names.filter (·.1 ≠ name),
             anchors := number :: c.anchors })

def expandTag? (c : Composition) (handle : String) (suffix : Tag) : Option Tag :=
  if handle = "" then some suffix else (c.handles.lookup handle).map (· ++ suffix)

def properties (c : Composition) : Option (Properties × Composition) :=
  match c.tokens with
  | .anchor name :: .tag handle suffix :: r
  | .tag handle suffix :: .anchor name :: r => do
    let (n, c) := c.addAnchor name
    return ({ anchor := some n, tag := ← c.expandTag? handle suffix }, { c with tokens := r })
  | .anchor name :: r =>
    let (n, c) := c.addAnchor name
    some ({ anchor := some n }, { c with tokens := r })
  | .tag handle suffix :: r => do
    return ({ tag := ← c.expandTag? handle suffix }, { c with tokens := r })
  | _ => some ({}, c)

def finish (c : Composition) (p : Properties) (n : Node) : Node × Composition :=
  match p.anchor with
  | none => (n, c)
  | some place => (n, { c with marked := (place, n) :: c.marked })

/-- The numbers of the anchors, the latest first, with what they mark. -/
def anchored (c : Composition) : List (Nat × Node) :=
  let places := (List.range c.anchors.length).reverse
  (c.anchors.zip places).filterMap fun (number, place) => (c.marked.lookup place).map (number, ·)

mutual

/-- A node. Block collections are read only where `block` allows; where `indentless` does, entries
without indentation of their own make a list. -/
def node (block indentless : Bool) : (fuel : Nat) → Composition → Option (Node × Composition)
  | 0, _ => none
  | fuel + 1, c =>
    match c.tokens with
    | .alias name :: _ => do return (.alias (← c.names.lookup name), c.skip)
    | _ => do
      let (p, c) ← c.properties
      let absent : Option (Node × Composition) :=
        if p.anchor.isSome || p.tag.isSome then
          some (c.finish p (.scalar "" .plain p.tag))
        else none
      match c.tokens with
      | .scalar text style :: _ =>
        return c.skip.finish p (.scalar text style p.tag)
      | .flowSequenceStart :: _ =>
        let (items, c) ← flowItems true fuel c.skip
        return c.finish p (.list items p.tag)
      | .flowMappingStart :: _ =>
        let (entries, c) ← flowEntries true fuel c.skip
        return c.finish p (.map entries p.tag)
      | .blockSequenceStart :: _ =>
        if block then
          let (items, c) ← blockItems fuel c.skip
          return c.finish p (.list items p.tag)
        else absent
      | .blockMappingStart :: _ =>
        if block then
          let (entries, c) ← blockEntries fuel c.skip
          return c.finish p (.map entries p.tag)
        else absent
      | .blockEntry :: _ =>
        if indentless then
          let (items, c) ← indentlessItems fuel c
          return c.finish p (.list items p.tag)
        else absent
      | _ => absent

def blockItems : (fuel : Nat) → Composition → Option (List Node × Composition)
  | 0, _ => none
  | fuel + 1, c =>
    match c.tokens with
    | .blockEnd :: _ => some ([], c.skip)
    | .blockEntry :: r => do
      let (item, c) ←
        match r with
        | .blockEntry :: _ | .blockEnd :: _ => some (Node.absent, c.skip)
        | _ => node true false fuel c.skip
      let (items, c) ← blockItems fuel c
      return (item :: items, c)
    | _ => none

/-- Items of a list that has no indentation of its own. -/
def indentlessItems : (fuel : Nat) → Composition → Option (List Node × Composition)
  | 0, _ => none
  | fuel + 1, c =>
    match c.tokens with
    | .blockEntry :: r => do
      let (item, c) ←
        match r with
        | .blockEntry :: _ | .key :: _ | .value :: _ | .blockEnd :: _ =>
          some (Node.absent, c.skip)
        | _ => node true false fuel c.skip
      let (items, c) ← indentlessItems fuel c
      return (item :: items, c)
    | _ => some ([], c)

/-- What stands after the mark of a key or value in a block. -/
def blockPart (fuel : Nat) (c : Composition) : Option (Node × Composition) :=
  match fuel with
  | 0 => none
  | fuel + 1 =>
    match c.tokens with
    | .key :: _ | .value :: _ | .blockEnd :: _ => some (.absent, c)
    | _ => node true true fuel c

def blockEntries : (fuel : Nat) → Composition → Option (List (Node × Node) × Composition)
  | 0, _ => none
  | fuel + 1, c =>
    match c.tokens with
    | .blockEnd :: _ => some ([], c.skip)
    | .key :: _ => do
      let (k, c) ← blockPart fuel c.skip
      let (v, c) ←
        match c.tokens with
        | .value :: _ => blockPart fuel c.skip
        | _ => some (Node.absent, c)
      let (entries, c) ← blockEntries fuel c
      return ((k, v) :: entries, c)
    | _ => none

/-- What stands after the mark of a value in a flow collection, if there is a mark. -/
def flowValue (fuel : Nat) (c : Composition) : Option (Node × Composition) :=
  match fuel with
  | 0 => none
  | fuel + 1 =>
    match c.tokens with
    | .value :: .flowEntry :: _ | .value :: .flowSequenceEnd :: _
    | .value :: .flowMappingEnd :: _ => some (.absent, c.skip)
    | .value :: _ => node false false fuel c.skip
    | _ => some (.absent, c)

/-- Items of a flow list up to its bracket. A key among them makes a map of one entry. -/
def flowItems (first : Bool) : (fuel : Nat) → Composition → Option (List Node × Composition)
  | 0, _ => none
  | fuel + 1, c =>
    match c.tokens with
    | .flowSequenceEnd :: _ => some ([], c.skip)
    | .flowEntry :: .flowSequenceEnd :: _ => if first then none else some ([], c.skip.skip)
    | ts => do
      let c ←
        if first then some c
        else match ts with
          | .flowEntry :: _ => some c.skip
          | _ => none
      let (item, c) ←
        match c.tokens with
        | .key :: .value :: _ | .key :: .flowEntry :: _ | .key :: .flowSequenceEnd :: _ => do
          let (v, c) ← flowValue fuel c.skip.skip
          some (Node.map [(.absent, v)] none, c)
        | .key :: _ => do
          let (k, c) ← node false false fuel c.skip
          let (v, c) ← flowValue fuel c
          some (Node.map [(k, v)] none, c)
        | _ => node false false fuel c
      let (items, c) ← flowItems false fuel c
      return (item :: items, c)

/-- Entries of a flow map up to its brace. A key without a mark has no value. -/
def flowEntries (first : Bool) :
    (fuel : Nat) → Composition → Option (List (Node × Node) × Composition)
  | 0, _ => none
  | fuel + 1, c =>
    match c.tokens with
    | .flowMappingEnd :: _ => some ([], c.skip)
    | .flowEntry :: .flowMappingEnd :: _ => if first then none else some ([], c.skip.skip)
    | ts => do
      let c ←
        if first then some c
        else match ts with
          | .flowEntry :: _ => some c.skip
          | _ => none
      let (entry, c) ←
        match c.tokens with
        | .key :: .value :: _ | .key :: .flowEntry :: _ | .key :: .flowMappingEnd :: _ => do
          let (v, c) ← flowValue fuel c.skip
          some ((Node.absent, v), c)
        | .key :: _ => do
          let (k, c) ← node false false fuel c.skip
          let (v, c) ← flowValue fuel c
          some ((k, v), c)
        | _ => do
          let (k, c) ← node false false fuel c
          some ((k, Node.absent), c)
      let (entries, c) ← flowEntries false fuel c
      return (entry :: entries, c)

end

/-- Every token is looked at by at most two readers before it is taken. -/
def fuel (c : Composition) : Nat := 4 * c.tokens.length + 4

/-! ## Documents -/

/-- Directives before a document: at most one version, 1.1 or 1.2, and no handle twice. -/
def directives (versioned : Bool) (handles : List (String × Tag)) :
    List Token → Option (List (String × Tag) × List Token)
  | .versionDirective major minor :: r =>
    if versioned || major ≠ 1 || (minor ≠ 1 && minor ≠ 2) then none
    else directives true handles r
  | .tagDirective handle lead :: r =>
    if handles.any (·.1 = handle) then none
    else directives versioned ((handle, lead) :: handles) r
  | r => some (handles, r)

def knownHandles : List (String × Tag) := [("!", .bare), ("!!", .standard "")]

/-- The content of a document after its opening line. -/
def content (c : Composition) : Option (Node × Composition) :=
  match c.tokens with
  | [] => some (.absent, c)
  | .versionDirective .. :: _ | .tagDirective .. :: _ | .documentStart :: _ | .documentEnd :: _ =>
    some (.absent, c)
  | _ => node true false c.fuel c

end Composition

def Document.ofTokens? (ts : List Token) : Option Document := do
  let (handles, r) ← Composition.directives false [] ts
  let c : Composition := { tokens := r, handles := handles ++ Composition.knownHandles }
  let (root, c) ←
    match ts, r with
    | [], _ => none
    | _, .documentStart :: _ => c.skip.content
    | .versionDirective .. :: _, _ | .tagDirective .. :: _, _ => none
    | _, _ => Composition.node true false c.fuel c
  if c.tokens.all (· = .documentEnd) then return { root, anchored := c.anchored } else none

/-- The document that a text holds, if it is a single one. -/
def parse? (text : String) : Option Document := do Document.ofTokens? (← tokens? text)

end Yaml
end Metamodel
