import Tiqora.Foundation.Scan
import Tiqora.Foundation.Text

namespace Tiqora.Domain

open Foundation

/-- The longest run of white space after which the rest of a pattern matches. -/
def afterSpaces {α : Type} (m : List Char → Option α) : List Char → Option α
  | [] => m []
  | c :: s => if isSpace c then (afterSpaces m s).or (m (c :: s)) else m (c :: s)

/-- The digits, the white space and the closing bracket of a tag, and the white space after it. -/
def closeTag (s : List Char) : Option (List Char) :=
  if s.takeWhile isDigit = [] then none
  else
    match (s.dropWhile isDigit).dropWhile isSpace with
    | ']' :: rest => some (rest.dropWhile isSpace)
    | _ => none

/-- What follows a tag at the head of a text, and the white space around it. -/
def tagAt (folding : CaseFolding) (hook divider s : List Char) : Option (List Char) :=
  match s.dropWhile isSpace with
  | '[' :: inner =>
    afterSpaces (fun t ↦ (stripPrefix folding.same (hook ++ divider) t).bind closeTag) inner
  | _ => none

/-- `re.sub` with a blank for each match, left to right. -/
def subBlank (m : List Char → Option (List Char)) : ℕ → List Char → List Char
  | 0, s => s
  | _ + 1, [] => []
  | n + 1, c :: s =>
    match m (c :: s) with
    | some rest => ' ' :: subBlank m n rest
    | none => c :: subBlank m n s

def isBlank (c : Char) : Bool := c = ' ' || c = '\t'

/-- One blank for each run of two blanks or more. -/
def collapseBlanks (s : List Char) : List Char :=
  (s.splitBy fun c d ↦ isBlank c && isBlank d).flatMap fun run ↦
    if 2 ≤ run.length then [' '] else run

def stripTicketHook (folding : CaseFolding) (hook divider subject : List Char) : List Char :=
  if hook = [] then strip subject
  else strip (collapseBlanks (subBlank (tagAt folding hook divider) subject.length subject))

def replyPrefixes : List (List Char) :=
  [['r', 'e'], ['a', 'w'], ['a', 'n', 't', 'w'], ['f', 'w', 'd'], ['w', 'g']]

/-- What follows a reply or forward prefix. -/
def afterReplyPrefix (folding : CaseFolding) (s : List Char) : Option (List Char) :=
  replyPrefixes.findSome? fun word ↦
    (stripPrefix folding.same word (s.dropWhile isSpace)).bind fun rest ↦
      match rest.dropWhile isSpace with
      | ':' :: rest => some (rest.dropWhile isSpace)
      | _ => none

def cleanLoop (folding : CaseFolding) : ℕ → List Char → List Char
  | 0, s => s
  | rounds + 1, s =>
    match afterReplyPrefix folding s with
    | some rest => cleanLoop folding rounds (strip rest)
    | none => s

/-- Without a hook; each round shortens the subject. -/
def cleanSubject (folding : CaseFolding) (subject : List Char) : List Char :=
  cleanLoop folding subject.length (strip subject)

def buildReplySubject (folding : CaseFolding) (subject : List Char) : List Char :=
  ['R', 'e', ':', ' '] ++ cleanSubject folding subject

def buildForwardSubject (folding : CaseFolding) (subject : List Char) : List Char :=
  ['F', 'w', 'd', ':', ' '] ++ cleanSubject folding subject

inductive SubjectFormat
  | left
  | right
  | none
  deriving DecidableEq

/-- The subject without its old tags and with its `Re:` or `Fwd:`. -/
def subjectBase (folding : CaseFolding) (hook divider : List Char) (addRe addFwd : Bool)
    (subject : List Char) : List Char :=
  if addRe then buildReplySubject folding (stripTicketHook folding hook divider subject)
  else if addFwd then buildForwardSubject folding (stripTicketHook folding hook divider subject)
  else strip (stripTicketHook folding hook divider subject)

def ticketTag (hook divider tn : List Char) : List Char := ['['] ++ hook ++ divider ++ tn ++ [']']

def buildTicketSubject (folding : CaseFolding) (hook divider tn : List Char)
    (format : SubjectFormat) (addRe addFwd : Bool) (subject : List Char) : List Char :=
  let base := subjectBase folding hook divider addRe addFwd subject
  let tag := ticketTag hook divider tn
  if format = .none || tn = [] then base
  else if base = [] then tag
  else if format = .right then strip (base ++ [' '] ++ tag)
  else strip (tag ++ [' '] ++ base)

end Tiqora.Domain
