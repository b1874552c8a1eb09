import Tiqora.Webchat.Transcript

namespace Tiqora.Webchat

open Foundation

variable {d d' : Store} {w : Write} {clientId : Option ℕ} {view now cutoff : ℕ}

theorem postVisitorMessage_kept (h : Sound d) (hfresh : Fresh d w)
    (hpost : d.postVisitorMessage clientId view now w = .ok d') :
    Kept d.chat.status d d' := by
  rw [Store.postVisitorMessage] at hpost
  obtain ⟨-, hpost⟩ := require_bind_eq_ok.1 hpost
  split at hpost
  · cases hpost
    exact .refl h
  · obtain ⟨hlive, hstore⟩ := require_bind_eq_ok.1 hpost
    have htouch : Kept d.chat.status d (d.touchVisitorLastSeen now) := touchVisitorLastSeen_kept h
    have hfresh' : Fresh (d.touchVisitorLastSeen now) w := by
      rw [Fresh, touchVisitorLastSeen_articles]
      exact hfresh
    exact htouch.trans (storeVisitorLine_kept htouch.sound hfresh' hlive hstore)

theorem accepted_same (chat : Chat) (userId now : ℕ) :
    (chat.accepted userId now).lastSeq = chat.lastSeq ∧
      (chat.accepted userId now).lastVisitorSeq = chat.lastVisitorSeq ∧
      (chat.accepted userId now).purgedAt = chat.purgedAt ∧
      (chat.accepted userId now).botAnsweredSeq = chat.botAnsweredSeq := by
  unfold Chat.accepted
  split
  · exact ⟨rfl, rfl, rfl, rfl⟩
  · exact ⟨rfl, rfl, rfl, rfl⟩

theorem handedOff_same (chat : Chat) (reason : HandoffReason) (humans : Bool) (now : ℕ) :
    (chat.handedOff reason humans now).lastSeq = chat.lastSeq ∧
      (chat.handedOff reason humans now).lastVisitorSeq = chat.lastVisitorSeq ∧
      (chat.handedOff reason humans now).purgedAt = chat.purgedAt ∧
      (chat.handedOff reason humans now).botAnsweredSeq = chat.botAnsweredSeq := by
  cases humans with
  | true => exact ⟨rfl, rfl, rfl, rfl⟩
  | false => exact ⟨rfl, rfl, rfl, rfl⟩

theorem handedOff_ended (chat : Chat) (reason : HandoffReason) (humans : Bool) (now : ℕ)
    (h : (chat.handedOff reason humans now).status.live = false) :
    (chat.handedOff reason humans now).endReason.isSome ∧
      (chat.handedOff reason humans now).endedAt.isSome := by
  cases humans with
  | true => cases h
  | false => exact ⟨rfl, rfl⟩

theorem acceptSession_kept {userId held maxConcurrent : ℕ} {allowed allowedNow : Bool}
    (h : Sound d)
    (haccept : d.acceptSession userId held maxConcurrent allowed allowedNow now w = .ok d') :
    Kept d.chat.status d d' := by
  rw [Store.acceptSession] at haccept
  obtain ⟨-, haccept⟩ := require_bind_eq_ok.1 haccept
  obtain ⟨-, haccept⟩ := require_bind_eq_ok.1 haccept
  obtain ⟨-, haccept⟩ := require_bind_eq_ok.1 haccept
  obtain ⟨hstatus, haccept⟩ := require_bind_eq_ok.1 haccept
  obtain ⟨-, hadd⟩ := require_bind_eq_ok.1 haccept
  have hlive : d.chat.status.live = true := by
    rcases hstatus with hs | hs
    · rw [hs]
      rfl
    · rw [hs]
      rfl
  obtain ⟨hseq, hvisitor, hpurged, hanswered⟩ := accepted_same d.chat userId now
  have hrow : Kept d.chat.status d { d with chat := d.chat.accepted userId now } :=
    row_kept h hlive rfl rfl hseq hvisitor hpurged hanswered nofun
  exact hrow.trans (addSystemMessage_kept hrow.sound hlive hadd)

theorem deliverAgentChatReply_kept (h : Sound d) (hfresh : Fresh d w)
    (hdeliver : d.deliverAgentChatReply w = .ok d') : Kept d.chat.status d d' := by
  rw [Store.deliverAgentChatReply] at hdeliver
  obtain ⟨-, hdeliver⟩ := require_bind_eq_ok.1 hdeliver
  obtain ⟨hactive, hins⟩ := require_bind_eq_ok.1 hdeliver
  have hmay : MayStore d.chat.status .agent := hactive
  exact reply_kept h hfresh hmay nofun nofun hins

theorem deliverBotChatReply_kept (h : Sound d) (hfresh : Fresh d w)
    (hdeliver : d.deliverBotChatReply w = .ok d') : Kept d.chat.status d d' := by
  rw [Store.deliverBotChatReply] at hdeliver
  obtain ⟨⟨-, hbot⟩, hins⟩ := require_bind_eq_ok.1 hdeliver
  have hmay : MayStore d.chat.status .bot := hbot
  exact reply_kept h hfresh hmay nofun nofun hins

theorem handOffChat_kept {reason : HandoffReason} {humans note : Bool} (h : Sound d)
    (hfresh : Fresh d w) (hhand : d.handOffChat reason humans note now w = .ok d') :
    Kept d.chat.status d d' := by
  rw [Store.handOffChat] at hhand
  split at hhand
  · next hbot =>
    have hlive : d.chat.status.live = true := by
      rw [hbot.2]
      rfl
    obtain ⟨d₂, hadd, hhand⟩ := bind_eq_ok.1 hhand
    obtain ⟨hseq, hvisitor, hpurged, hanswered⟩ := handedOff_same d.chat reason humans now
    have hrow : Kept d.chat.status d { d with chat := d.chat.handedOff reason humans now } :=
      row_kept h hlive rfl rfl hseq hvisitor hpurged hanswered (handedOff_ended d.chat reason humans now)
    have hadded : Kept d.chat.status d d₂ := by
      cases note with
      | true =>
        have hnote : Kept d.chat.status d
            ({ d with chat := d.chat.handedOff reason humans now }.addArticle false w) :=
          hrow.trans (addArticle_kept hrow.sound hfresh)
        exact hnote.trans (addSystemMessage_kept hnote.sound hlive hadd)
      | false => exact hrow.trans (addSystemMessage_kept hrow.sound hlive hadd)
    split at hhand
    · cases hhand
      exact hadded
    · exact hadded.trans (addSystemMessage_kept hadded.sound hlive hhand)
  · cases hhand
    exact .refl h

theorem endByVisitor_kept (h : Sound d) (hend : d.endByVisitor now w = .ok d') :
    Kept d.chat.status d d' := by
  rw [Store.endByVisitor] at hend
  obtain ⟨-, hend⟩ := require_bind_eq_ok.1 hend
  split at hend
  · next hlive =>
    have hleft : Kept d.chat.status d
        { d.close .ended .visitor now with
          chat := { (d.close .ended .visitor now).chat with visitorLastSeen := now } } :=
      row_kept h hlive rfl rfl rfl rfl rfl rfl fun _ ↦ ⟨rfl, rfl⟩
    exact hleft.trans (addSystemMessage_kept hleft.sound hlive hend)
  · cases hend
    exact .refl h

theorem endSessionByAgent_kept {userId : ℕ} {mayWrite closeTicket : Bool} (h : Sound d)
    (hend : d.endSessionByAgent userId mayWrite closeTicket now w = .ok d') :
    Kept d.chat.status d d' := by
  rw [Store.endSessionByAgent] at hend
  obtain ⟨-, hend⟩ := require_bind_eq_ok.1 hend
  split at hend
  · next hlive =>
    obtain ⟨-, hadd⟩ := require_bind_eq_ok.1 hend
    have hclosed : Kept d.chat.status d (d.close .ended .agent now) := close_kept h hlive
    exact hclosed.trans (addSystemMessage_kept hclosed.sound hlive hadd)
  · cases hend
    exact .refl h

theorem setContact_kept (h : Sound d) (hset : d.setContact now = .ok d') :
    Kept d.chat.status d d' := by
  rw [Store.setContact] at hset
  obtain ⟨-, hset⟩ := require_bind_eq_ok.1 hset
  obtain ⟨-, hset⟩ := require_bind_eq_ok.1 hset
  cases hset
  have hsound : Sound { d with chat := { d.chat with hasEmail := true } } :=
    h.same_lines rfl rfl rfl rfl h.ended
  have hkept : Kept d.chat.status d { d with chat := { d.chat with hasEmail := true } } :=
    ⟨hsound, rfl, rfl, ⟨[], (List.append_nil _).symm, nofun⟩, fun _ ↦ ⟨rfl, rfl, rfl⟩⟩
  exact hkept.trans (touchVisitorLastSeen_kept hsound)

theorem timeOutWaiting_kept (h : Sound d) (hsweep : d.timeOutWaiting cutoff now w = .ok d') :
    Kept d.chat.status d d' := by
  rw [Store.timeOutWaiting] at hsweep
  obtain ⟨-, hsweep⟩ := require_bind_eq_ok.1 hsweep
  split at hsweep
  · next hwaiting =>
    have hlive : d.chat.status.live = true := by
      rw [hwaiting.1]
      rfl
    have hclosed : Kept d.chat.status d (d.close .ended .noAgent now) := close_kept h hlive
    exact hclosed.trans (addSystemMessage_kept hclosed.sound hlive hsweep)
  · cases hsweep
    exact .refl h

theorem abandonIdle_kept (h : Sound d) (hsweep : d.abandonIdle now w = .ok d') :
    Kept d.chat.status d d' := by
  rw [Store.abandonIdle] at hsweep
  obtain ⟨-, hsweep⟩ := require_bind_eq_ok.1 hsweep
  split at hsweep
  · next hidle =>
    have hclosed : Kept d.chat.status d (d.close .abandoned .idle now) := close_kept h hidle.1
    exact hclosed.trans (addSystemMessage_kept hclosed.sound hidle.1 hsweep)
  · cases hsweep
    exact .refl h

theorem purge_kept (h : Sound d) (hpurge : d.purge cutoff now = .ok d') :
    Kept d.chat.status d d' ∨ d'.chat.purgedAt ≠ none ∧ d'.lines = [] ∧
      d'.chat.botAnsweredSeq = d.chat.botAnsweredSeq := by
  rw [Store.purge] at hpurge
  obtain ⟨-, hpurge⟩ := require_bind_eq_ok.1 hpurge
  split at hpurge
  · cases hpurge
    exact .inr ⟨nofun, rfl, rfl⟩
  · cases hpurge
    exact .inl (.refl h)

theorem Op.run_kept {op : Op} (h : Sound d) (hfresh : Fresh d w) (hrun : op.run d w = .ok d') :
    Kept d.chat.status d d' ∨ d'.chat.purgedAt ≠ none ∧ d'.lines = [] ∧
      d'.chat.botAnsweredSeq = d.chat.botAnsweredSeq := by
  cases op with
  | postVisitorMessage clientId view now => exact .inl (postVisitorMessage_kept h hfresh hrun)
  | storeVisitorAttachment clientId view now => exact .inl (postVisitorMessage_kept h hfresh hrun)
  | acceptSession userId held maxConcurrent allowed allowedNow now =>
    exact .inl (acceptSession_kept h hrun)
  | deliverAgentChatReply => exact .inl (deliverAgentChatReply_kept h hfresh hrun)
  | deliverBotChatReply => exact .inl (deliverBotChatReply_kept h hfresh hrun)
  | handOffChat reason humans note now => exact .inl (handOffChat_kept h hfresh hrun)
  | endByVisitor now => exact .inl (endByVisitor_kept h hrun)
  | endSessionByAgent userId mayWrite closeTicket now =>
    exact .inl (endSessionByAgent_kept h hrun)
  | setContact now => exact .inl (setContact_kept h hrun)
  | touch now =>
    cases hrun
    exact .inl (touchVisitorLastSeen_kept h)
  | timeOutWaiting cutoff now => exact .inl (timeOutWaiting_kept h hrun)
  | abandonIdle now => exact .inl (abandonIdle_kept h hrun)
  | purge cutoff now => exact purge_kept h hrun

/-- A purge is not taken back, and no line comes after it. -/
theorem Op.run_purged {op : Op} (hrun : op.run d w = .ok d') (hp : d.chat.purgedAt ≠ none) :
    d'.chat.purgedAt = d.chat.purgedAt ∧ d'.lines = d.lines ∧
      d'.chat.botAnsweredSeq = d.chat.botAnsweredSeq := by
  cases op with
  | postVisitorMessage clientId view now => exact absurd (require_bind_eq_ok.1 hrun).1 hp
  | storeVisitorAttachment clientId view now => exact absurd (require_bind_eq_ok.1 hrun).1 hp
  | acceptSession userId held maxConcurrent allowed allowedNow now =>
    exact absurd (require_bind_eq_ok.1 hrun).1 hp
  | deliverAgentChatReply => exact absurd (require_bind_eq_ok.1 hrun).1.1 hp
  | deliverBotChatReply => exact absurd (require_bind_eq_ok.1 hrun).1.1 hp
  | handOffChat reason humans note now =>
    rw [Op.run, Store.handOffChat] at hrun
    split at hrun
    · next hbot => exact absurd hbot.1 hp
    · cases hrun
      exact ⟨rfl, rfl, rfl⟩
  | endByVisitor now => exact absurd (require_bind_eq_ok.1 hrun).1 hp
  | endSessionByAgent userId mayWrite closeTicket now =>
    exact absurd (require_bind_eq_ok.1 hrun).1 hp
  | setContact now => exact absurd (require_bind_eq_ok.1 hrun).1 hp
  | touch now =>
    rw [Op.run] at hrun
    cases hrun
    unfold Store.touchVisitorLastSeen
    split
    · exact ⟨rfl, rfl, rfl⟩
    · exact ⟨rfl, rfl, rfl⟩
  | timeOutWaiting cutoff now => exact absurd (require_bind_eq_ok.1 hrun).1 hp
  | abandonIdle now => exact absurd (require_bind_eq_ok.1 hrun).1 hp
  | purge cutoff now => exact absurd (require_bind_eq_ok.1 hrun).1 hp

end Tiqora.Webchat
