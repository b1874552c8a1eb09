import Tiqora.Approvals.Service
import Tiqora.Approvals.Sweep
import Tiqora.Foundation.Machine

namespace Tiqora.Approvals

open Foundation

/-- A link outlives the step deadline by a day. -/
def linkExpiry (env : Env) (s : ApprovalStep) : ℕ :=
  let expires := env.now + env.linkTtlHours * 3600
  match s.dueAt with
  | some due => min expires (due + 24 * 3600)
  | none => expires

/-- A new link for a pending approver row of an active step; the oldest live ones go. -/
def issueLink (env : Env) (approverId : ℕ) (r : Request) : Except Failure Request :=
  match r.approvers.find? fun a ↦ a.id = approverId with
  | none => .error (refuse "not_an_approver" 403)
  | some row =>
    match r.steps.find? fun s ↦ s.id = row.stepId with
    | none => .error (refuse "not_an_approver" 403)
    | some s => do
      require (r.status = .pending ∧ row.status = .pending ∧ s.status = .active)
        (refuse "not_an_approver" 403)
      require (env.emailLinksEnabled ∧ s.spec.allowEmail)
        (refuse "forbidden" 403 (some "this step does not accept decisions by e-mail"))
      require (row.principal.login.all env.directory.customerInTicketCompany)
        (refuse "customer_approver_outside_company" 403)
      let live := r.links.filter fun l ↦ l.approverId = approverId ∧ l.live ∧ env.now < l.expiresAt
      let stale := (live.take (live.length + 1 - env.maxLinksPerApprover)).map (·.id)
      return { r with
        links := (r.links.map fun l ↦
            if l.id ∈ stale then { l with revokedAt := some env.now } else l) ++
          [⟨r.nextLink, approverId, env.now, linkExpiry env s, none, none⟩]
        nextLink := r.nextLink + 1 }

def validPrincipal (env : Env) (p : Principal) : Bool :=
  match p with
  | .agent n => env.directory.agentValid n = some 1
  | .customer login =>
    ((env.directory.customerRow [login] (env.directory.lower login)).map (·.validId)) = some 1

/-- Casts the vote of the link's approver row, once; a refused vote leaves the link unused. -/
def redeemLink (env : Env) (linkId : ℕ) (decision : Decision) (comment : Option String)
    (r : Request) : Except Failure Request := do
  require env.emailLinksEnabled (refuse "link_invalid" 410)
  match r.links.find? fun l ↦ l.id = linkId with
  | none => throw (refuse "link_invalid" 410)
  | some link =>
    require (link.usedAt = none) (refuse "link_used" 410)
    require (link.revokedAt = none) (refuse "link_invalid" 410)
    match r.approvers.find? fun a ↦ a.id = link.approverId with
    | none => throw (refuse "link_invalid" 410)
    | some row =>
      require (r.status = .pending ∧ row.status = .pending ∧
          r.statusOf row.stepId = some .active) (refuse "link_invalid" 410)
      require (env.now < link.expiresAt) (refuse "link_expired" 410)
      require (validPrincipal env row.principal) (refuse "approver_invalid" 403)
      decide env ⟨some row.principal, decision, .email, comment, some row.id, some linkId⟩
        { r with links := r.links.map fun l ↦
            if l.id = linkId then { l with usedAt := some env.now } else l }

/-- What can happen to a request once it exists. Each operation holds the request lock from its
first statement to its commit, so operations follow one another. -/
inductive Operation
  | decide (args : DecideArgs)
  | redeemLink (linkId : ℕ) (decision : Decision) (comment : Option String)
  | issueLink (approverId : ℕ)
  | forward (actor : Actor) (approverId toUserId : ℕ)
  | refreshApprovers (actor : Actor)
  | cancelApproval (actor : Actor) (reason : Reason) (checkPermission : Bool)
  | supersede (newId : ℕ)
  | overdue (stepId : ℕ)
  | remind (stepId : ℕ)
  | dropInvalid
  | shiftTimers (since seen amount : ℕ)

/-- A sweeper item runs on a request that is still pending. -/
def sweepItem (r : Request) (work : Request → Option Request) : Option Request :=
  if r.status = .pending then work r else none

/-- The committed outcome of an operation; `none` when it refuses or has nothing to do, and its
transaction is rolled back. -/
def Operation.run (env : Env) (r : Request) : Operation → Option Request
  | .decide args => (Approvals.decide env args r).toOption
  | .redeemLink linkId decision comment => (Approvals.redeemLink env linkId decision comment r).toOption
  | .issueLink approverId => (Approvals.issueLink env approverId r).toOption
  | .forward actor approverId toUserId => (Approvals.forward env actor approverId toUserId r).toOption
  | .refreshApprovers actor => (Approvals.refreshApprovers env actor r).toOption
  | .cancelApproval actor reason check => (Approvals.cancelApproval env actor reason check r).toOption
  | .supersede newId => (Approvals.supersede env newId r).toOption
  | .overdue stepId => sweepItem r (Approvals.overdue env stepId)
  | .remind stepId => sweepItem r (Approvals.remind env stepId)
  | .dropInvalid => sweepItem r fun r ↦ (Approvals.dropInvalid env r).toOption.join
  | .shiftTimers since seen amount =>
    sweepItem r fun r ↦ some (Approvals.shiftTimers since seen r amount)

/-- The operations that measure time themselves. -/
def Operation.timing : Operation → Bool
  | .overdue _ | .shiftTimers .. => true
  | .decide _ | .redeemLink .. | .issueLink _ | .forward .. | .refreshApprovers _
  | .cancelApproval .. | .supersede _ | .remind _ | .dropInvalid => false

/-- The life of one request: created by `requestApproval`, then any operations in any order,
each with whatever it finds in its environment. -/
def approvalMachine : Machine Request (Env × Operation) where
  init r := ∃ env args, requestApproval env args = .ok r
  step r a r' := a.2.run a.1 r = some r'

end Tiqora.Approvals
