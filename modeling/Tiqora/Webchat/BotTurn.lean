import Mathlib.Data.List.MinMax
import Tiqora.Webchat.Conversation

namespace Tiqora.Webchat

open Foundation

def botClaimStaleSeconds : ℕ := 180

def botMaxAttempts : ℕ := 3

/-- The largest id; `load_articles` and `latest_customer_article_id` go by the id. -/
def latestCustomerArticleId (articles : List Article) : Option ℕ :=
  ((articles.filter (·.customer)).map (·.id)).max?

/-- A customer article newer than the one that the run is based on. -/
def superseded (basedOn latest : Option ℕ) : Bool :=
  match basedOn, latest with
  | some basedOn, some latest => latest ≠ basedOn
  | _, _ => false

/-- The highest `seq` of a visitor line below `botSeq`. -/
def coveredSeq (lines : List Line) (botSeq : ℕ) : Option ℕ :=
  ((lines.filter fun l ↦ l.sender = .visitor ∧ l.seq < botSeq).map (·.seq)).max?

namespace Store

/-- A visitor line waits for the bot. -/
def pending (d : Store) : Bool :=
  d.chat.status = .bot && d.chat.botAnsweredSeq < d.chat.lastVisitorSeq

def claimBotTurn (d : Store) (owner now : ℕ) : Option Store :=
  if d.pending = true ∧ d.chat.botClaimedAt.all (· + botClaimStaleSeconds < now) = true then
    some { d with
      chat := { d.chat with botClaimedAt := some now, botClaimOwner := some owner } }
  else none

def countFailedTurn (d : Store) : Store :=
  { d with chat := { d.chat with botAttempts := d.chat.botAttempts + 1 } }

def answeredSeq (d : Store) (articleId : Option ℕ) (fallbackSeq : ℕ) : ℕ :=
  match articleId.bind fun a ↦ d.lines.find? fun l ↦ l.articleId = some a with
  | some bot => (coveredSeq d.lines bot.seq).getD fallbackSeq
  | none => fallbackSeq

def recordAnswer (d : Store) (articleId : Option ℕ) (fallbackSeq : ℕ) : Store :=
  { d with
    chat := { d.chat with
      botAnsweredSeq := d.answeredSeq articleId fallbackSeq
      botAttempts := 0
      botOutcome := some .replied } }

def releaseClaim (d : Store) (owner : ℕ) : Store :=
  if d.chat.botClaimOwner = some owner then
    { d with chat := { d.chat with botClaimedAt := none, botClaimOwner := none } }
  else d

end Store

inductive TurnOutcome
  | replied | handoff | superseded | skipped | retry
  deriving DecidableEq

/-- What `run_ticket_agent` comes to besides an answer: it raises, or it returns another status. -/
inductive RunResult
  | lockHeld | unavailable | failed | escalated | drafted | noReply
  deriving DecidableEq

/-- Where a turn stands, with what it has read; `articles` are those of `load_articles`. -/
inductive Turn
  | idle
  | claimed (owner : ℕ)
  | prepared (owner targetSeq : ℕ)
  | loaded (owner targetSeq : ℕ) (articles : List Article)
  | fresh (owner targetSeq : ℕ) (articles : List Article)
  | delivered (owner targetSeq articleId : ℕ)
  | handing (owner : ℕ) (reason : HandoffReason) (note : Bool)
  | ending (owner : ℕ) (outcome : TurnOutcome)
  | released (outcome : TurnOutcome) (pending : Bool) (pushes : ℕ)
  deriving DecidableEq

/-- An answer of the bot and the articles that its run loaded. -/
structure Answer where
  seq : ℕ
  articles : List Article
  deriving DecidableEq

/-- How a turn ended: whether a visitor line was pending when it let the session go, and whether
the session was pushed to the queue from then on. -/
structure TurnEnd where
  outcome : TurnOutcome
  pending : Bool
  queued : Bool
  deriving DecidableEq

/-- `dedupe` is the key `tiqora:chat:bot:queued:<sid>`, and `pushes` counts the entries that the
queue of turns got. -/
structure BotState where
  store : Store
  transactions : ℕ
  turn : Turn
  dedupe : Bool
  pushes : ℕ
  answers : List Answer
  ends : List TurnEnd
  deriving DecidableEq

inductive BotAction
  | execute (op : Op) (articleId : ℕ)
  | announce
  | expire
  | claimBotTurn (owner now : ℕ)
  | prepare (blocked : Option HandoffReason)
  | loadArticles
  | checkFreshness
  | runReturns (result : RunResult)
  | deliverBotChatReply (articleId : ℕ)
  | recordAnswer
  | handOffChat (humans : Bool) (now articleId : ℕ)
  | releaseClaim
  | flush
  deriving DecidableEq

namespace BotState

/-- `SET … NX`, and the push when the key was not there. -/
def push (s : BotState) : BotState :=
  if s.dedupe then s else { s with dedupe := true, pushes := s.pushes + 1 }

def runReturns (s : BotState) (owner : ℕ) : RunResult → BotState
  | .lockHeld => { s with turn := .ending owner .retry }
  | .unavailable => { s with turn := .handing owner .unavailable false }
  | .failed =>
    let store := s.store.countFailedTurn
    if store.chat.botAttempts < botMaxAttempts then
      { s with store, turn := .ending owner .retry }
    else { s with store, turn := .handing owner .error true }
  | .escalated => { s with turn := .handing owner .ai false }
  | .drafted | .noReply => { s with turn := .handing owner .ai true }

/-- Each transaction on the session row is one step, for it holds the row from its first statement
on. The worker has one turn of a session under way, and only the turns answer for the bot. -/
def next (isolation : Isolation) (s : BotState) : BotAction → Option BotState
  | .execute op articleId =>
    if op ≠ .deliverBotChatReply ∧ ∀ a ∈ s.store.articles, a.id ≠ articleId then
      match op.run s.store ⟨s.transactions, articleId⟩ with
      | .ok store => some { s with store, transactions := s.transactions + 1 }
      | .error _ => some s
    else none
  | .announce => some s.push
  | .expire => some { s with dedupe := false }
  | .claimBotTurn owner now =>
    match s.turn with
    | .idle => (s.store.claimBotTurn owner now).map fun store ↦
        { s with store, turn := .claimed owner, dedupe := false }
    | _ => none
  | .prepare blocked =>
    match s.turn with
    | .claimed owner =>
      if s.store.chat.purgedAt = none ∧ s.store.chat.status = .bot then
        match blocked with
        | some reason => some { s with turn := .handing owner reason false }
        | none => some { s with turn := .prepared owner s.store.chat.lastVisitorSeq }
      else some { s with turn := .ending owner .skipped }
    | _ => none
  | .loadArticles =>
    match s.turn with
    | .prepared owner targetSeq => some { s with turn := .loaded owner targetSeq s.store.articles }
    | _ => none
  | .checkFreshness =>
    match s.turn with
    | .loaded owner targetSeq articles =>
      if superseded (latestCustomerArticleId articles)
          (latestCustomerArticleId (isolation.visible articles s.store.articles)) then
        some { s with turn := .ending owner .superseded }
      else some { s with turn := .fresh owner targetSeq articles }
    | _ => none
  | .runReturns result =>
    match s.turn with
    | .prepared owner _ | .loaded owner .. | .fresh owner .. => some (s.runReturns owner result)
    | _ => none
  | .deliverBotChatReply articleId =>
    match s.turn with
    | .fresh owner targetSeq articles =>
      if ∀ a ∈ s.store.articles, a.id ≠ articleId then
        match s.store.deliverBotChatReply ⟨s.transactions, articleId⟩ with
        | .ok store =>
          some { s with
            store
            transactions := s.transactions + 1
            turn := .delivered owner targetSeq articleId
            answers := s.answers ++ [⟨store.chat.lastSeq, articles⟩] }
        | .error _ => some { s with turn := .handing owner .ai true }
      else none
    | _ => none
  | .recordAnswer =>
    match s.turn with
    | .delivered owner targetSeq articleId =>
      some { s with
        store := s.store.recordAnswer (some articleId) targetSeq, turn := .ending owner .replied }
    | _ => none
  | .handOffChat humans now articleId =>
    match s.turn with
    | .handing owner reason note =>
      if ∀ a ∈ s.store.articles, a.id ≠ articleId then
        match s.store.handOffChat reason humans note now ⟨s.transactions, articleId⟩ with
        | .ok store =>
          let noop := ¬ (s.store.chat.purgedAt = none ∧ s.store.chat.status = .bot)
          some { s with
            store
            transactions := s.transactions + 1
            turn := .ending owner (if noop then .skipped else .handoff) }
        | .error _ => none
      else none
    | _ => none
  | .releaseClaim =>
    match s.turn with
    | .ending owner outcome =>
      let store := s.store.releaseClaim owner
      some { s with
        store
        dedupe := if outcome ≠ .retry ∧ store.pending = true then false else s.dedupe
        turn := .released outcome store.pending s.pushes }
    | _ => none
  | .flush =>
    match s.turn with
    | .released outcome pending pushes =>
      let s := if outcome ≠ .retry ∧ pending = true then s.push else s
      some { s with turn := .idle, ends := s.ends ++ [⟨outcome, pending, pushes < s.pushes⟩] }
    | _ => none

end BotState

/-- A new session that no turn has touched. -/
def botTurns (isolation : Isolation) : Machine BotState BotAction :=
  .ofNext (fun s ↦ Created ⟨s.store, none, s.transactions⟩ ∧ s.turn = .idle ∧ s.answers = [] ∧
    s.ends = []) (BotState.next isolation)

/-- The ids of the articles that a run has loaded when it is about to answer. -/
def Turn.loadedIds : Turn → List ℕ
  | .fresh _ _ articles => articles.map (·.id)
  | _ => []

/-- When a turn stores its answer, it has loaded the article of every visitor line. -/
def LoadedAll (s : BotState) : BotAction → Prop
  | .deliverBotChatReply _ => ∀ l ∈ s.store.lines, l.sender = .visitor →
      ∀ a ∈ l.articleId, a ∈ s.turn.loadedIds
  | _ => True

instance (s : BotState) : ∀ a, Decidable (LoadedAll s a)
  | .deliverBotChatReply _ => inferInstanceAs (Decidable (∀ l ∈ s.store.lines,
      l.sender = .visitor → ∀ a ∈ l.articleId, a ∈ s.turn.loadedIds))
  | .execute .. | .announce | .expire | .claimBotTurn .. | .prepare _ | .loadArticles
  | .checkFreshness | .runReturns _ | .recordAnswer | .handOffChat .. | .releaseClaim
  | .flush => isTrue trivial

end Tiqora.Webchat
