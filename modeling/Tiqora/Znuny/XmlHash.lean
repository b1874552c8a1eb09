import Mathlib.Logic.Function.Basic
import Tiqora.Foundation.Guarded

namespace Tiqora.Znuny.XmlHash

open Foundation

abbrev Text := List Char

def maxStatRows : ℕ := 20000

def maxDepth : ℕ := 12

def maxIndex : ℕ := maxStatRows

def maxKeyLength : ℕ := 2000

inductive XmlHashError
  | badStat
  | tooLarge
  deriving DecidableEq

/-- A step of a path: an index or a tag. -/
abbrev Token := ℕ ⊕ Text

/-- The characters of a tag up to its quote, and the rest of the key. -/
def scanTag : Text → Option (Text × Text)
  | [] => none
  | ['\\'] => none
  | '\\' :: c :: rest =>
    if c = '\'' ∨ c = '\\' then (scanTag rest).map fun (chars, rest) ↦ (c :: chars, rest) else none
  | c :: rest =>
    if c = '\'' then some ([], rest)
    else (scanTag rest).map fun (chars, rest) ↦ (c :: chars, rest)

/-- An index in brackets or a tag in braces, and the rest of the key. -/
def scanToken : Text → Option (Token × Text)
  | '[' :: rest =>
    let digits := rest.takeWhile Char.isDigit
    match rest.dropWhile Char.isDigit with
    | [] => none
    | c :: after =>
      if digits = [] ∨ c ≠ ']' ∨ 6 < digits.length then none
      else if maxIndex < Nat.ofDigitChars 10 digits 0 then none
      else some (.inl (Nat.ofDigitChars 10 digits 0), after)
  | '{' :: '\'' :: rest =>
    match scanTag rest with
    | some (tag, '}' :: after) => some (.inr tag, after)
    | _ => none
  | _ => none

/-- The loop of `parse_content_key`; a token takes a character at least. -/
def parseTokens : ℕ → Text → Option (List Token)
  | _, [] => some []
  | 0, _ => none
  | n + 1, c :: rest =>
    match scanToken (c :: rest) with
    | some (token, rest) => (parseTokens n rest).map (token :: ·)
    | none => none

def parseContentKey (key : Text) : Except XmlHashError (List Token) :=
  if key.length = 0 ∨ maxKeyLength < key.length then .error .badStat
  else (parseTokens key.length key).elim (.error .badStat) .ok

/-- A path of indices and tags in turn. -/
abbrev Path := List (ℕ × Text)

def pairs : List Token → Option Path
  | [] => some []
  | .inl index :: .inr tag :: rest => (pairs rest).map ((index, tag) :: ·)
  | _ => none

/-- What a tag of a node holds: the text of a leaf, or the nodes of an element list. -/
inductive Child
  | leaf (value : Text)
  | list (items : List (Option (Text → Option Child)))

/-- A `dict`; dicts are equal when they have the same values under the same keys. -/
abbrev Node := Text → Option Child

abbrev Items := List (Option Node)

def emptyNode : Node := fun _ ↦ none

/-- The node at an index, a new one where there is none. -/
def nodeAt (cur : Items) (index : ℕ) : Node := (cur[index]?.join).getD emptyNode

/-- The list is filled up to the index with `None`. -/
def setNode (cur : Items) (index : ℕ) (node : Node) : Items :=
  (cur ++ List.replicate (index + 1 - cur.length) none).set index (some node)

/-- The walk of one row through the structure. -/
def insertLeaf (value : Text) : Path → Items → Except XmlHashError Items
  | [], cur => .ok cur
  | [(index, tag)], cur =>
    match nodeAt cur index tag with
    | some _ => .error .badStat
    | none => .ok (setNode cur index (Function.update (nodeAt cur index) tag (some (.leaf value))))
  | (index, tag) :: next :: rest, cur => do
    let child ← match nodeAt cur index tag with
      | none => .ok [none]
      | some (.list items) => .ok items
      | some (.leaf _) => .error .badStat
    let child ← insertLeaf value (next :: rest) child
    .ok (setNode cur index (Function.update (nodeAt cur index) tag (some (.list child))))

/-- The path of a row. -/
def rowPath (key : Text) : Except XmlHashError Path := do
  let path ← parseContentKey key
  require (¬(path.length < 2 ∨ path.length % 2 ≠ 0 ∨ maxDepth < path.length / 2)) .badStat
  (pairs path).elim (.error .badStat) .ok

abbrev Row := Text × Option Text

/-- A row is read into the structure; `NULL` is the empty text. -/
def insertRow (root : Items) (row : Row) : Except XmlHashError Items := do
  let path ← rowPath row.1
  insertLeaf (row.2.getD []) path root

def insertRows : ℕ → List Row → Items → Except XmlHashError Items
  | _, [], root => .ok root
  | count, row :: rest, root =>
    if maxStatRows < count + 1 then .error .tooLarge
    else do
      let root ← insertRow root row
      insertRows (count + 1) rest root

def buildXmlHash (rows : List Row) : Except XmlHashError Items := insertRows 0 rows [none]

/-- The text of a leaf of the structure. -/
def leafAt : Path → Items → Option Text
  | [], _ => none
  | [(index, tag)], cur =>
    match nodeAt cur index tag with
    | some (.leaf value) => some value
    | _ => none
  | (index, tag) :: next :: rest, cur =>
    match nodeAt cur index tag with
    | some (.list items) => leafAt (next :: rest) items
    | _ => none

/-- The key syntax: quotes and backslashes of a tag are escaped. -/
def escape (tag : Text) : Text :=
  tag.flatMap fun c ↦ if c = '\'' ∨ c = '\\' then ['\\', c] else [c]

def printToken : Token → Text
  | .inl index => '[' :: Nat.toDigits 10 index ++ [']']
  | .inr tag => '{' :: '\'' :: escape tag ++ ['\'', '}']

def printKey (path : Path) : Text :=
  path.flatMap fun (index, tag) ↦ printToken (.inl index) ++ printToken (.inr tag)

end Tiqora.Znuny.XmlHash
