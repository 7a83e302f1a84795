import GaugeDesk.Lifecycles.ContentErasure
import GaugeDesk.Lifecycles.RemoteSession

/-!
# Lifecycles: what happens after the end

Both reducers gate a command on a flag that earlier events set and nothing
clears: the tombstone on the owner's approval, the outcome on the response.
-/

namespace GaugeDesk

open ContentErasure RemoteSession

/-- **Closed lifecycles stay closed exactly when the flag was never set.**  A denied erasure is never
tombstoned iff the owner had not approved it, and an ended session takes no event iff no response
had come back, in which case its outcome is never admitted. -/
theorem closed_stays_closed (cs : List ErasureCommand) (ds : List RemoteCommand)
    (hdenied : (contentErasure.trace cs).any (·.denies) = true)
    (hended : Ended (remoteSession.run ds)) :
    ((∀ later, .tombstoned ∉ contentErasure.traceFrom (contentErasure.run cs) later) ↔
        (contentErasure.run cs).approved = false) ∧
      ((∀ later, remoteSession.traceFrom (remoteSession.run ds) later = []) ↔
        (remoteSession.run ds).responseReceived = false) ∧
      ((remoteSession.run ds).responseReceived = false →
        (remoteSession.run ds).phase = .failed ∧
          ∀ later, (remoteSession.run (ds ++ later)).outcomeAdmitted = false) :=
  ⟨tombstoned_after_denial cs hdenied, ended_final ds hended⟩

theorem closed_stays_closed_canceled :
    (contentErasure.trace [.requestErasure, .cancel]).any (·.denies) = true ∧
      Ended (remoteSession.run [.dialPeer, .failSession]) ∧
      (∀ later, .tombstoned ∉
        contentErasure.traceFrom (contentErasure.run [.requestErasure, .cancel]) later) ∧
      ∀ later, remoteSession.traceFrom (remoteSession.run [.dialPeer, .failSession]) later = [] := by
  have hdenied : (contentErasure.trace [.requestErasure, .cancel]).any (·.denies) = true := by
    decide +kernel
  have hended : Ended (remoteSession.run [.dialPeer, .failSession]) := by decide +kernel
  obtain ⟨herasure, hsession, -⟩ :=
    closed_stays_closed [.requestErasure, .cancel] [.dialPeer, .failSession] hdenied hended
  exact ⟨hdenied, hended, herasure.mpr (by decide +kernel), hsession.mpr (by decide +kernel)⟩

/-- An approved request expires and is then tombstoned; a session that failed after its response,
and one that completed, still admit the outcome. -/
theorem closed_reopened :
    contentErasure.trace [.requestErasure, .approve OWNER, .expire, .tombstone] =
        [.erasureRequested, .approved OWNER, .erasureExpired, .tombstoned] ∧
      remoteSession.trace
          [.dialPeer, .sendTurnRequest, .receiveTurnResponse, .failSession, .sourceAdmitOutcome] =
        [.peerDialed, .turnRequested, .turnResponded, .sessionFailed, .outcomeAdmitted] ∧
      remoteSession.trace [.dialPeer, .sendTurnRequest, .receiveTurnResponse, .sourceAdmitOutcome,
          .completeSession, .sourceAdmitOutcome] =
        [.peerDialed, .turnRequested, .turnResponded, .outcomeAdmitted, .sessionCompleted,
          .outcomeAdmitted] := by
  decide +kernel

end GaugeDesk
