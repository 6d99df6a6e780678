import TextScore.Yaml.Token

/-!
# Node — what a YAML text denotes

A text denotes at most one document: a scalar, a sequence or a mapping.  An alias stands for the
node that an anchor marks.  That node may contain the alias itself, so aliases are kept, and are
followed only where a node is looked at.
-/

namespace TextScore.Yaml

inductive Node where
  | scalar (text : String) (style : ScalarStyle) (tag : Option (List Char))
  | sequence (items : List Node)
  | mapping (entries : List (Node × Node))
  /-- Stands for the node of an anchor, which is known by its number. -/
  | alias (number : Nat)
  deriving Inhabited

def Node.empty : Node := .scalar "" .plain none

/-- The node of a text, and the nodes that the aliases within it stand for, by their numbers. -/
structure Graph where
  root : Node
  anchored : List (Nat × Node)

/-- The node that a node stands for.  No anchor marks an alias, so one step is enough. -/
def Graph.follow? (graph : Graph) : Node → Option Node
  | .alias number => graph.anchored.lookup number
  | node => some node

/-- A reader of nodes: the tokens ahead, the tag handles, the names of the anchors seen with the
number that an alias takes from each, and the nodes of those numbers that are complete. -/
structure NodeReader where
  tokens : List Token
  handles : List (List Char × List Char)
  anchors : List (List Char × Nat)
  nodes : List (Nat × Node)

namespace NodeReader

abbrev Step (α : Type) := Option (α × NodeReader)

def peek? (r : NodeReader) : Option Token :=
  r.tokens.head?

def skip (r : NodeReader) : NodeReader :=
  { r with tokens := r.tokens.tail }

def aliasOf? (r : NodeReader) (name : List Char) : Option Node :=
  (r.anchors.lookup name).map .alias

/-- An anchor marks the node that follows.  The node is numbered by the names before it, so a name
that returns shares its number with the next new name; the node that begins last has the number. -/
def declare (r : NodeReader) (anchor : Option (List Char)) : NodeReader :=
  match anchor with
  | some name =>
    let number := r.anchors.length
    { r with
      anchors := (name, number) :: r.anchors.filter (·.1 != name)
      nodes := r.nodes.filter (·.1 != number) }
  | none => r

/-- The anchored node is complete; it has its number unless a node within it took that. -/
def complete (r : NodeReader) (anchor : Option (List Char)) (number : Nat) (node : Node) :
    NodeReader :=
  if anchor.isSome && (r.nodes.lookup number).isNone then
    { r with nodes := (number, node) :: r.nodes }
  else r

def fullTag? (r : NodeReader) (handle suffix : List Char) : Option (List Char) :=
  if handle.isEmpty then some suffix else (r.handles.lookup handle).map (· ++ suffix)

def properties? (r : NodeReader) : Step (Option (List Char) × Option (List Char)) :=
  match r.tokens with
  | .anchor name :: .tag handle suffix :: rest | .tag handle suffix :: .anchor name :: rest =>
    (r.fullTag? handle suffix).map fun tag => ((some name, some tag), { r with tokens := rest })
  | .anchor name :: rest => some ((some name, none), { r with tokens := rest })
  | .tag handle suffix :: rest =>
    (r.fullTag? handle suffix).map fun tag => ((none, some tag), { r with tokens := rest })
  | _ => some ((none, none), r)

mutual

/-- A node.  Block collections are only read where `block` allows them, and a sequence that is
indented no deeper than its key where `flush` does. -/
def node? (fuel : Nat) (block flush : Bool) (r : NodeReader) : Step Node :=
  match fuel with
  | 0 => none
  | fuel + 1 =>
    match r.tokens with
    | .alias name :: _ => (r.aliasOf? name).map fun node => (node, r.skip)
    | _ =>
      r.properties?.bind fun ((anchor, tag), r) =>
        let number := r.anchors.length
        let r := r.declare anchor
        let content : Step Node :=
          match r.peek? with
          | some .blockEntry =>
            if flush then (entries? fuel true r).map fun (items, r) => (.sequence items, r)
            else if anchor.isSome || tag.isSome then some (.scalar "" .plain tag, r)
            else none
          | some (.scalar text style) => some (.scalar (String.ofList text) style tag, r.skip)
          | some .flowSequenceStart =>
            (flowItems? fuel true r.skip).map fun (items, r) => (.sequence items, r)
          | some .flowMappingStart =>
            (flowFields? fuel true r.skip).map fun (fields, r) => (.mapping fields, r)
          | some .blockSequenceStart =>
            if block then (entries? fuel false r.skip).map fun (items, r) => (.sequence items, r)
            else if anchor.isSome || tag.isSome then some (.scalar "" .plain tag, r)
            else none
          | some .blockMappingStart =>
            if block then (fields? fuel r.skip).map fun (fields, r) => (.mapping fields, r)
            else if anchor.isSome || tag.isSome then some (.scalar "" .plain tag, r)
            else none
          | _ => if anchor.isSome || tag.isSome then some (.scalar "" .plain tag, r) else none
        content.map fun (node, r) => (node, r.complete anchor number node)

def optional? (fuel : Nat) (block flush : Bool) (ends : List Token) (r : NodeReader) : Step Node :=
  match fuel with
  | 0 => none
  | fuel + 1 =>
    if r.peek?.any ends.contains then some (.empty, r) else node? fuel block flush r

/-- The entries of a block sequence.  A sequence that is not indented ends at the first token that
is no entry; any other ends where its block is closed. -/
def entries? (fuel : Nat) (flush : Bool) (r : NodeReader) : Step (List Node) :=
  match fuel with
  | 0 => none
  | fuel + 1 =>
    match r.peek? with
    | some .blockEntry =>
      let ends : List Token :=
        if flush then [.blockEntry, .key, .value, .blockEnd] else [.blockEntry, .blockEnd]
      (optional? fuel true false ends r.skip).bind fun (item, r) =>
        (entries? fuel flush r).map fun (items, r) => (item :: items, r)
    | some .blockEnd => some ([], if flush then r else r.skip)
    | _ => if flush then some ([], r) else none

def fields? (fuel : Nat) (r : NodeReader) : Step (List (Node × Node)) :=
  match fuel with
  | 0 => none
  | fuel + 1 =>
    let ends : List Token := [.key, .value, .blockEnd]
    match r.peek? with
    | some .blockEnd => some ([], r.skip)
    | some .key =>
      (optional? fuel true true ends r.skip).bind fun (key, r) =>
        (valueBehind? fuel true ends r).bind fun (value, r) =>
          (fields? fuel r).map fun (fields, r) => ((key, value) :: fields, r)
    | _ => none

def valueBehind? (fuel : Nat) (block : Bool) (ends : List Token) (r : NodeReader) : Step Node :=
  match fuel with
  | 0 => none
  | fuel + 1 =>
    match r.peek? with
    | some .value => optional? fuel block block ends r.skip
    | _ => some (.empty, r)

/-- The items of a flow sequence; a single pair may stand for a mapping.  Where the key of the pair
is not written, the token that shows it is left out with it. -/
def flowItems? (fuel : Nat) (first : Bool) (r : NodeReader) : Step (List Node) :=
  match fuel with
  | 0 => none
  | fuel + 1 =>
    match r.peek? with
    | some .flowSequenceEnd => some ([], r.skip)
    | some token =>
      let r? := if first then some r else if token == .flowEntry then some r.skip else none
      r?.bind fun r =>
        match r.peek? with
        | some .flowSequenceEnd => some ([], r.skip)
        | some .key =>
          let r := r.skip
          let ends : List Token := [.flowEntry, .flowSequenceEnd]
          let key : Step Node :=
            if r.peek?.any (.value :: ends).contains then some (.empty, r.skip)
            else node? fuel false false r
          key.bind fun (key, r) =>
            (valueBehind? fuel false ends r).bind fun (value, r) =>
              (flowItems? fuel false r).map fun (items, r) => (.mapping [(key, value)] :: items, r)
        | _ =>
          (node? fuel false false r).bind fun (item, r) =>
            (flowItems? fuel false r).map fun (items, r) => (item :: items, r)
    | none => none

def flowFields? (fuel : Nat) (first : Bool) (r : NodeReader) : Step (List (Node × Node)) :=
  match fuel with
  | 0 => none
  | fuel + 1 =>
    match r.peek? with
    | some .flowMappingEnd => some ([], r.skip)
    | some token =>
      let r? := if first then some r else if token == .flowEntry then some r.skip else none
      r?.bind fun r =>
        match r.peek? with
        | some .flowMappingEnd => some ([], r.skip)
        | some .key =>
          let ends : List Token := [.flowEntry, .flowMappingEnd]
          (optional? fuel false false (.value :: ends) r.skip).bind fun (key, r) =>
            (valueBehind? fuel false ends r).bind fun (value, r) =>
              (flowFields? fuel false r).map fun (fields, r) => ((key, value) :: fields, r)
        | _ =>
          (node? fuel false false r).bind fun (key, r) =>
            (flowFields? fuel false r).map fun (fields, r) => ((key, .empty) :: fields, r)
    | none => none

end

/-! ## Documents -/

def standardHandles : List (List Char × List Char) :=
  [(['!'], ['!']), (['!', '!'], "tag:yaml.org,2002:".toList)]

/-- The directives before a document: at most one version, and each handle once. -/
def directives? (hasVersion : Bool) (handles : List (List Char × List Char)) :
    List Token → Option (List (List Char × List Char) × List Token)
  | .version major minor :: rest =>
    if hasVersion || major != 1 || (minor != 1 && minor != 2) then none
    else directives? true handles rest
  | .tagDirective handle tagStart :: rest =>
    if (handles.lookup handle).isSome then none
    else directives? hasVersion ((handle, tagStart) :: handles) rest
  | rest => some (handles, rest)

def isDocumentEdge : Token → Bool
  | .version _ _ | .tagDirective _ _ | .documentStart | .documentEnd => true
  | _ => false

def isOver (r : NodeReader) : Bool :=
  r.tokens.all (· == .documentEnd)

/-- The document that a list of tokens denotes; without tokens there is none. -/
def document? (tokens : List Token) : Option (Option Graph) :=
  match tokens with
  | [] => some none
  | _ =>
    (directives? false [] tokens).bind fun (handles, rest) =>
      let explicit := rest.head? == some .documentStart
      if tokens.length ≠ rest.length && !explicit then none
      else
        let r : NodeReader :=
          ⟨if explicit then rest.tail else rest, handles ++ standardHandles, [], []⟩
        let isEmpty := explicit && r.peek?.all isDocumentEdge
        let read := if isEmpty then some (Node.empty, r)
          else r.node? (3 * tokens.length + 3) true false
        read.bind fun (node, r) => if isOver r then some (some ⟨node, r.nodes⟩) else none

end NodeReader

/-- What a text denotes: nothing for a text that cannot be read, and `some none` for one without a
document. -/
def ofText? (s : String) : Option (Option Graph) :=
  (tokens? s.toList).bind NodeReader.document?

end TextScore.Yaml
