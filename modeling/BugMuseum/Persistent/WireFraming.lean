import BugMuseum.Encore.Spoold
import BugMuseum.Revenant.Reception

namespace BugMuseum
namespace Persistent

open Foundation

/-!
# The framing of the persistent protocols

`sessiond` and `spoold` keep a connection open for any number of requests, and they
share the way in which requests are cut out of the stream.  A request has a
packed header of 8 bytes and so many bytes of argument as the header says, at
most `2 ^ 20`.  A request with an op beyond the table is answered and skipped together
with its argument.
-/

/-- Both servers dispatch exactly the requests of their tables that stand in
front of the stream, in order and with their own fields and arguments.  The
store that a connection leaves and the bytes that it was sent are what the
turns for these requests make of them, and nothing of it depends on how the
stream is split into reads. -/
theorem daemons_keepFrames :
    (forall plugins answers store isTcp,
      Revenant.requestFormat.KeepsFrames (fun i => (answers i : Revenant.Answers).argument)
        Revenant.Request.known (Revenant.attend plugins answers) Revenant.hangUp
        (Revenant.accepted store isTcp) (Revenant.serveStream plugins answers store isTcp)
        Revenant.Attended.dispatched) ∧
    (forall filters answers store isTcp,
      Encore.requestFormat.KeepsFrames (fun i => (answers i : Encore.Answers).argument)
        Encore.Request.known (Encore.attend filters isTcp answers) Encore.hangUp (Encore.accepted store)
        (Encore.serve filters answers store isTcp) Encore.Attended.dispatched) :=
  ⟨Revenant.serveStream_keepsFrames, Encore.serve_keepsFrames⟩

end Persistent
end BugMuseum
